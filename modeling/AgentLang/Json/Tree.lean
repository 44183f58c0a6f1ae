import AgentLang.Code
import AgentLang.Json
import AgentLang.Program
import AgentLang.Text.Decimal

/-! Conditions, statements, programs and code as JSON values.

A statement is an object whose only key tells its kind. Records are objects with a field for
each part, or arrays of the parts. Readers look at a bounded number of arrays and objects
inside one another; fields they do not know are skipped and may hold any value.
-/

namespace AgentLang

namespace Json

/-- How many arrays and objects a reader opens inside one another. -/
def nestingLimit : Nat := 127

/-- The parts of a record, in the order of their names. As an object it has each field once,
and others are skipped; as an array it has one item for each name.
-/
def record? (names : List String) : Json → Option (List Json)
  | .array items => if items.length = names.length then some items else none
  | .object fields =>
      names.mapM fun name =>
        match fields.filter (·.1 == name) with
        | [field] => some field.2
        | _ => none
  | _ => none

/-- A name that stands for a case without parts: the name alone, or as a key with null. -/
def name? (nesting : Nat) : Json → Option String
  | .string name => some name
  | .object [(name, .null)] => if nesting = 0 then none else some name
  | _ => none

def text? : Json → Option String
  | .string text => some text
  | _ => none

def items? : Json → Option (List Json)
  | .array items => some items
  | _ => none

/-- A word is a plain decimal, without sign, fraction or exponent. -/
def word? : Json → Option UInt32
  | .number literal => Text.word? literal.toList
  | _ => none

end Json

def Condition.toJson (condition : Condition) : Json := .string condition.tag

def Condition.ofJson? (nesting : Nat) (value : Json) : Option Condition := do
  Condition.ofTag? (← value.name? nesting)

def Opcode.ofJson? (nesting : Nat) (value : Json) : Option Opcode := do
  Opcode.ofTag? (← value.name? nesting)

namespace Statement

mutual

def toJson : Statement → Json
  | block children => .object [("Block", .array (toJsonAll children))]
  | ifThen condition body =>
      .object [("If", .object [("condition", condition.toJson), ("body", toJson body)])]
  | ifElse condition thenBody elseBody =>
      .object
        [("IfElse",
          .object
            [("condition", condition.toJson), ("then_body", toJson thenBody),
              ("else_body", toJson elseBody)])]
  | whileDo condition body =>
      .object [("While", .object [("condition", condition.toJson), ("body", toJson body)])]
  | call name => .object [("Call", .string name)]

def toJsonAll : List Statement → List Json
  | [] => []
  | child :: rest => toJson child :: toJsonAll rest

end

def callOfJson? (tag : String) (payload : Json) : Option Statement :=
  if tag = "Call" then payload.text?.map .call else none

/-- The statement a value stands for. Two levels of nesting go to a statement with parts, one
to a call.
-/
def ofJson? : Nat → Json → Option Statement
  | nesting + 2, .object [(tag, payload)] =>
      if tag = "Block" then
        payload.items?.bind fun items => (items.mapM (ofJson? nesting)).map .block
      else if tag = "If" then do
        let [condition, body] ← payload.record? ["condition", "body"] | none
        return .ifThen (← Condition.ofJson? nesting condition) (← ofJson? nesting body)
      else if tag = "IfElse" then do
        let [condition, thenBody, elseBody] ←
          payload.record? ["condition", "then_body", "else_body"] | none
        return .ifElse (← Condition.ofJson? nesting condition) (← ofJson? nesting thenBody)
          (← ofJson? nesting elseBody)
      else if tag = "While" then do
        let [condition, body] ← payload.record? ["condition", "body"] | none
        return .whileDo (← Condition.ofJson? nesting condition) (← ofJson? nesting body)
      else
        callOfJson? tag payload
  | 1, .object [(tag, payload)] => callOfJson? tag payload
  | _, _ => none

end Statement

namespace Context

/-- Declarations as the fields of an object, in the order given. -/
def toJsonIn (order : List Entry) : Json :=
  .object (order.map fun entry => (entry.1, entry.2.toJson))

def toJson (context : Context) : Json := toJsonIn context.entries

/-- Declarations are the fields of an object; of those with the same name the last one stays. -/
def ofJson? : Nat → Json → Option Context
  | nesting + 1, .object fields =>
      (fields.mapM fun field => (Statement.ofJson? nesting field.2).map (field.1, ·)).map ofList
  | _, _ => none

end Context

namespace Program

/-- A program with its declarations in the order given. -/
def toJsonIn (order : List Context.Entry) (program : Program) : Json :=
  .object
    [("name", .string program.name), ("context", Context.toJsonIn order),
      ("body", program.body.toJson)]

def toJson (program : Program) : Json := program.toJsonIn program.context.entries

def ofJson? : Nat → Json → Option Program
  | nesting + 1, value => do
      let [name, context, body] ← value.record? ["name", "context", "body"] | none
      return ⟨← name.text?, ← Context.ofJson? nesting context, ← Statement.ofJson? nesting body⟩
  | 0, _ => none

end Program

namespace Compiled

def toJson (compiled : Compiled) : Json :=
  .object
    [("name", .string compiled.name),
      ("code", .array (compiled.code.map fun word => .number (toString word.toNat)))]

def ofJson? : Nat → Json → Option Compiled
  | _ + 2, value => do
      let [name, code] ← value.record? ["name", "code"] | none
      return ⟨← name.text?, ← (← code.items?).mapM Json.word?⟩
  | _, _ => none

end Compiled

/-- A program together with its code, with its declarations in the order given. -/
def Program.dumpIn (order : List Context.Entry) (program : Program) (compiled : Compiled) : Json :=
  .object [("program", program.toJsonIn order), ("compiled", compiled.toJson)]

def Program.dump (program : Program) (compiled : Compiled) : Json :=
  program.dumpIn program.context.entries compiled

end AgentLang
