import AgentLang.Json
import AgentLang.Json.Token

/-! Reading a JSON text: one token at a time, with the arrays and objects still open on a
stack, so that nesting has no bound of its own here.
-/

namespace AgentLang.Json

/-- An array or object still being read, with what it holds so far, last first. The fields of
an object are given up once a key of it is unpaired.
-/
inductive Frame where
  | array (items : List Json)
  | object (fields : Option (List (String × Json))) (key : Option String)

/-- Where a reading stands, by what may come next. -/
inductive Position where
  | beforeValue (stack : List Frame)
  | afterBracket (stack : List Frame)
  | afterBrace (stack : List Frame)
  | beforeKey (fields : Option (List (String × Json))) (stack : List Frame)
  | beforeColon (fields : Option (List (String × Json))) (key : Option String) (stack : List Frame)
  | afterValue (frame : Frame) (stack : List Frame)
  | finished (value : Json)

namespace Position

/-- A value is complete: it goes into the innermost open array or object, or is the result. -/
def complete (value : Json) : List Frame → Position
  | [] => .finished value
  | .array items :: stack => .afterValue (.array (value :: items)) stack
  | .object (some fields) (some key) :: stack =>
      .afterValue (.object (some ((key, value) :: fields)) (some key)) stack
  | .object _ key :: stack => .afterValue (.object none key) stack

def closeObject (fields : Option (List (String × Json))) : Json :=
  match fields with
  | some fields => .object fields.reverse
  | none => .unpaired

/-- The position after a token that starts a value. -/
def begin? (stack : List Frame) : Json.Token → Option Position
  | .null => some (complete .null stack)
  | .bool b => some (complete (.bool b) stack)
  | .number literal => some (complete (.number literal) stack)
  | .string (some text) => some (complete (.string text) stack)
  | .string none => some (complete .unpaired stack)
  | .leftBracket => some (.afterBracket stack)
  | .leftBrace => some (.afterBrace stack)
  | _ => none

/-- The position after one more token, or nothing when the token cannot stand there. -/
def step : Position → Json.Token → Option Position
  | .beforeValue stack, token => begin? stack token
  | .afterBracket stack, .rightBracket => some (complete (.array []) stack)
  | .afterBracket stack, token => begin? (.array [] :: stack) token
  | .afterBrace stack, .rightBrace => some (complete (.object []) stack)
  | .afterBrace stack, .string key => some (.beforeColon (some []) key stack)
  | .beforeKey fields stack, .string key => some (.beforeColon fields key stack)
  | .beforeColon fields key stack, .colon => some (.beforeValue (.object fields key :: stack))
  | .afterValue (.array items) stack, .comma => some (.beforeValue (.array items :: stack))
  | .afterValue (.array items) stack, .rightBracket =>
      some (complete (.array items.reverse) stack)
  | .afterValue (.object fields _) stack, .comma => some (.beforeKey fields stack)
  | .afterValue (.object fields _) stack, .rightBrace =>
      some (complete (closeObject fields) stack)
  | _, _ => none

def run : Position → List Json.Token → Option Json
  | .finished value, [] => some value
  | _, [] => none
  | position, token :: rest =>
      match step position token with
      | none => none
      | some next => run next rest

end Position

/-- The value of a JSON text: one value, with blanks around and nothing else. -/
def ofText? (text : String) : Option Json := do
  Position.run (.beforeValue []) (← Token.split? text.toList)

end AgentLang.Json
