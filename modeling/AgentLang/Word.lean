import AgentLang.Condition

/-! Words of the language: their characters, the reserved ones, and identifiers. -/

namespace AgentLang

/-- Words are made of ASCII letters, digits, hyphens and underscores. -/
def isWordChar (c : Char) : Bool :=
  c.isAlphanum || c == '-' || c == '_'

def keywords : List String :=
  ["PROGRAM", "INSTRUCTION", "IS", "BEGIN", "END", "IF", "THEN", "ELSE", "WHILE", "DO"]

/-- Keywords and the words for conditions cannot name anything. -/
def isReserved (word : String) : Bool :=
  keywords.contains word || (Condition.ofKeyword? word).isSome

/-- An identifier is an ASCII letter followed by word characters, and is not reserved. -/
def isIdentifier (word : String) : Bool :=
  match word.toList with
  | [] => false
  | first :: rest => first.isAlpha && rest.all isWordChar && !isReserved word

end AgentLang
