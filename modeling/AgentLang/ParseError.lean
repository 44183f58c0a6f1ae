/-! Why a token sequence is not a program. -/

namespace AgentLang

/-- A token that cannot stand where it does, or the end of the input where more was needed. -/
inductive SyntaxError where
  | unexpectedEnd (wanted : String)
  | expected (word found : String)
  | invalidIdentifier (found : String)
  | invalidCondition (found : String)
  | mismatchedName (construct declared found : String)
  | primitiveRedefinition (name : String)
  | trailingInput (found : String)
  deriving DecidableEq, Repr

def SyntaxError.message : SyntaxError → String
  | unexpectedEnd wanted => "unexpected end of input, expected " ++ wanted
  | expected word found => "expected " ++ word ++ ", found `" ++ found ++ "`"
  | invalidIdentifier found => "`" ++ found ++ "` is not a valid identifier"
  | invalidCondition found => "`" ++ found ++ "` is not a condition"
  | mismatchedName construct declared found =>
      construct ++ " `" ++ declared ++ "` ends with `END " ++ found ++ "`"
  | primitiveRedefinition name => "primitive instruction `" ++ name ++ "` cannot be redefined"
  | trailingInput found => "unexpected `" ++ found ++ "` after end of program"

/-- Well-formed text that no program may say. -/
inductive ContractError where
  | duplicateInstruction (name : String)
  deriving DecidableEq, Repr

def ContractError.message : ContractError → String
  | duplicateInstruction name => "instruction `" ++ name ++ "` is declared more than once"

inductive ParseError where
  | grammar (cause : SyntaxError)
  | contract (cause : ContractError)
  deriving DecidableEq, Repr

namespace ParseError

/-- The text of the cause alone. -/
def causeMessage : ParseError → String
  | grammar cause => cause.message
  | contract cause => cause.message

def message : ParseError → String
  | grammar cause => "syntax error: " ++ cause.message
  | contract cause => "violation of program contract: " ++ cause.message

def isContractViolation : ParseError → Bool
  | grammar _ => false
  | contract _ => true

end ParseError

end AgentLang
