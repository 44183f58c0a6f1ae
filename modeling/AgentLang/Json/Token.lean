import AgentLang.Json.Quoted

/-! Tokens of a JSON text. -/

namespace AgentLang.Json

inductive Token where
  | leftBrace
  | rightBrace
  | leftBracket
  | rightBracket
  | comma
  | colon
  | null
  | bool (b : Bool)
  | number (literal : String)
  /-- A string, or nothing when half of a surrogate pair stands alone in it. -/
  | string (text : Option String)
  deriving DecidableEq, Repr

namespace Token

def isBlank (c : Char) : Bool :=
  c == ' ' || c == '\n' || c == '\r' || c == '\t'

def isNumberChar (c : Char) : Bool :=
  c.isDigit || c == '-' || c == '+' || c == '.' || c == 'e' || c == 'E'

def isExponent : List Char → Bool
  | [] => true
  | e :: rest =>
      let digits :=
        match rest with
        | '+' :: digits => digits
        | '-' :: digits => digits
        | digits => digits
      (e == 'e' || e == 'E') && !digits.isEmpty && digits.all Char.isDigit

def isFraction : List Char → Bool
  | '.' :: rest =>
      !(rest.takeWhile Char.isDigit).isEmpty && isExponent (rest.dropWhile Char.isDigit)
  | rest => isExponent rest

/-- The whole part of a number starts with a zero only when it is zero. -/
def isUnsigned : List Char → Bool
  | '0' :: rest => isFraction rest
  | c :: rest => c.isDigit && isFraction (rest.dropWhile Char.isDigit)
  | [] => false

def isNumber : List Char → Bool
  | '-' :: rest => isUnsigned rest
  | text => isUnsigned text

/-- The token a character stands for on its own. -/
def ofPunctuation? (c : Char) : Option Token :=
  if c = '\x7b' then some .leftBrace
  else if c = '\x7d' then some .rightBrace
  else if c = '[' then some .leftBracket
  else if c = ']' then some .rightBracket
  else if c = ',' then some .comma
  else if c = ':' then some .colon
  else none

def ofName? (name : List Char) : Option Token :=
  if name = "null".toList then some .null
  else if name = "true".toList then some (.bool true)
  else if name = "false".toList then some (.bool false)
  else none

/-- The token a text starts with, given its first character, and the text behind it. -/
def next? (c : Char) (rest : List Char) : Option (Token × List Char) :=
  match ofPunctuation? c with
  | some token => some (token, rest)
  | none =>
      if c = '"' then
        match Quoted.scan [] rest with
        | none => none
        | some (pieces, rest) => some (.string (Quoted.text? pieces), rest)
      else if isNumberChar c && !c.isAlpha then
        let literal := c :: rest.takeWhile isNumberChar
        if isNumber literal then
          some (.number (String.ofList literal), rest.dropWhile isNumberChar)
        else
          none
      else
        (ofName? (c :: rest.takeWhile Char.isAlpha)).map fun token =>
          (token, rest.dropWhile Char.isAlpha)

/-- A token takes nothing back of what was already read. -/
theorem next?_rest_length_le {c : Char} {text rest : List Char} {token : Token}
    (h : next? c text = some (token, rest))
    : rest.length ≤ text.length := by
  unfold next? at h
  split at h
  · cases h
    exact Nat.le_refl _
  · split at h
    · split at h
      · cases h
      · rename_i heq
        cases h
        exact Quoted.scan_rest_length_le heq
    · split at h
      · dsimp only at h
        split at h
        · cases h
          exact (List.dropWhile_sublist _).length_le
        · cases h
      · obtain ⟨_, _, heq⟩ := Option.map_eq_some_iff.mp h
        cases heq
        exact (List.dropWhile_sublist _).length_le

/-- All tokens of a text behind those already read, which are given last first. -/
def splitFrom (read : List Token) (text : List Char) : Option (List Token) :=
  match text with
  | [] => some read.reverse
  | c :: rest =>
      if isBlank c then
        splitFrom read rest
      else
        match _found : next? c rest with
        | none => none
        | some (token, rest) => splitFrom (token :: read) rest
termination_by text.length
decreasing_by
  · simp
  · have := next?_rest_length_le _found
    simp only [List.length_cons]
    omega

/-- All tokens of a text, or nothing when some of it is none. -/
def split? (text : List Char) : Option (List Token) :=
  splitFrom [] text

end Token

end AgentLang.Json
