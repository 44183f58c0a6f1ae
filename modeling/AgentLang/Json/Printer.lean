import AgentLang.Json
import AgentLang.Json.Quoted

/-! Indented JSON texts: two blanks a level, each item or field on a line of its own, and empty
arrays and objects as a bare pair of brackets.
-/

namespace AgentLang.Json

def newline (indent : Nat) : String :=
  "\n" ++ String.ofList (List.replicate (2 * indent) ' ')

mutual

/-- An unpaired value is written as half of a surrogate pair, which reads back as unpaired. -/
def render (indent : Nat) : Json → String
  | .null => "null"
  | .bool true => "true"
  | .bool false => "false"
  | .number literal => literal
  | .string text => Quoted.quote text
  | .unpaired => "\"\\ud800\""
  | .array [] => "[]"
  | .array (item :: items) =>
      "[" ++ newline (indent + 1) ++ render (indent + 1) item
        ++ renderItems (indent + 1) items ++ newline indent ++ "]"
  | .object [] => "\x7b\x7d"
  | .object ((key, value) :: fields) =>
      "\x7b" ++ newline (indent + 1) ++ Quoted.quote key ++ ": " ++ render (indent + 1) value
        ++ renderFields (indent + 1) fields ++ newline indent ++ "\x7d"

def renderItems (indent : Nat) : List Json → String
  | [] => ""
  | item :: items =>
      "," ++ newline indent ++ render indent item ++ renderItems indent items

def renderFields (indent : Nat) : List (String × Json) → String
  | [] => ""
  | (key, value) :: fields =>
      "," ++ newline indent ++ Quoted.quote key ++ ": " ++ render indent value
        ++ renderFields indent fields

end

/-- The indented text of a value, without a line feed at its end. -/
def pretty (value : Json) : String := render 0 value

end AgentLang.Json
