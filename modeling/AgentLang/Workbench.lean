import AgentLang.Code.Generator
import AgentLang.Program.Reader

/-! A workbench for trees: statements in named slots, a register of declarations, the program
at hand and a saved copy of one. Commands move statements between them. A statement that is
moved leaves an empty block behind, also when the command then fails.
-/

namespace AgentLang

structure Workbench where
  slots : Context
  register : Context
  program : Program
  saved : Program
  deriving DecidableEq

namespace Workbench

def new : Workbench := ⟨.empty, .empty, .unnamed, .unnamed⟩

inductive Command where
  | set (slot : String) (value : Statement)
  | clear (slot : String)
  | copy (slot into : String)
  | kind (slot : String)
  | length (slot : String)
  | insert (slot : String) (position : Nat) (child : String)
  | remove (slot : String) (position : Nat) (into : String)
  | assembleIf (slot : String) (condition : Condition) (body : String)
  | assembleIfElse (slot : String) (condition : Condition) (thenBody elseBody : String)
  | assembleWhile (slot : String) (condition : Condition) (body : String)
  | assembleCall (slot name : String)
  | disassembleIf (slot body : String)
  | disassembleIfElse (slot thenBody elseBody : String)
  | disassembleWhile (slot body : String)
  | disassembleCall (slot : String)
  | render (slot : String) (indent : Nat)
  | equal (left right : String)
  | newProgram
  | ofParts (slot name : String)
  | load (program : Program)
  | parse (source : String)
  | setName (name : String)
  | name
  | newContext
  | swapContext
  | declare (name slot : String)
  | withdraw (name into : String)
  | swapBody (slot : String)
  | copyBody (into : String)
  | renderProgram
  | reparse
  | generate (style : JumpStyle)
  | save
  | sameAsSaved
  | exchangeSaved

inductive Reply where
  | done
  | kind (kind : Statement.Kind)
  | number (n : Nat)
  | truth (b : Bool)
  | text (text : String)
  | condition (condition : Condition)
  | sizes (program register : Nat)
  | compiled (compiled : Compiled)
  deriving DecidableEq, Repr

inductive Failure where
  | violation (violation : Violation)
  | parse (cause : ParseError)
  | generate (cause : GenerateError)
  deriving DecidableEq, Repr

/-- The workbench after a command, and what the command answers. -/
abbrev Response := Workbench × Except Failure Reply

/-- The statement in a slot; a slot not used before holds the empty block. -/
def slot (bench : Workbench) (name : String) : Statement :=
  (bench.slots.get? name).getD .empty

def put (bench : Workbench) (name : String) (value : Statement) : Workbench :=
  { bench with slots := bench.slots.insert name value }

/-- Brings a slot into being. -/
def touch (bench : Workbench) (name : String) : Workbench :=
  bench.put name (bench.slot name)

/-- Moves the statement out of a slot. -/
def take (bench : Workbench) (name : String) : Statement × Workbench :=
  (bench.slot name, bench.put name .empty)

/-- Answers with a reply, unless a contract was broken; then the workbench stays as it was. -/
def respond {α : Type} (bench : Workbench) (result : Except Violation α)
    (success : α → Workbench × Reply)
    : Response :=
  match result with
  | .ok value => ((success value).1, .ok (success value).2)
  | .error violation => (bench, .error (.violation violation))

/-- Answers about the statement in a slot. -/
def inspect (bench : Workbench) (name : String) (answer : Statement → Reply) : Response :=
  (bench.touch name, .ok (answer (bench.slot name)))

/-- Stores what was assembled in a slot. -/
def store (bench : Workbench) (name : String) (result : Except Violation Statement) : Response :=
  let bench := bench.touch name
  bench.respond result fun value => (bench.put name value, .done)

def step (bench : Workbench) : Command → Response
  | .set slot value => (bench.put slot value, .ok .done)
  | .clear slot => (bench.put slot .empty, .ok .done)
  | .copy slot into => ((bench.touch slot).put into (bench.slot slot), .ok .done)
  | .kind slot => bench.inspect slot fun s => .kind s.kind
  | .length slot =>
      let bench := bench.touch slot
      bench.respond (bench.slot slot).length fun n => (bench, .number n)
  | .insert slot position child =>
      let (child, bench) := bench.take child
      bench.store slot ((bench.slot slot).insertAt position child)
  | .remove slot position into =>
      let bench := bench.touch slot
      bench.respond ((bench.slot slot).removeAt position) fun (child, rest) =>
        ((bench.put slot rest).put into child, .done)
  | .assembleIf slot condition body =>
      let (body, bench) := bench.take body
      bench.store slot (Statement.assembleIf condition body)
  | .assembleIfElse slot condition thenBody elseBody =>
      let (thenBody, bench) := bench.take thenBody
      let (elseBody, bench) := bench.take elseBody
      bench.store slot (Statement.assembleIfElse condition thenBody elseBody)
  | .assembleWhile slot condition body =>
      let (body, bench) := bench.take body
      bench.store slot (Statement.assembleWhile condition body)
  | .assembleCall slot name => bench.store slot (Statement.assembleCall name)
  | .disassembleIf slot body =>
      let (s, bench) := bench.take slot
      bench.respond s.disassembleIf fun (condition, part) =>
        (bench.put body part, .condition condition)
  | .disassembleIfElse slot thenBody elseBody =>
      let (s, bench) := bench.take slot
      bench.respond s.disassembleIfElse fun (condition, thenPart, elsePart) =>
        ((bench.put thenBody thenPart).put elseBody elsePart, .condition condition)
  | .disassembleWhile slot body =>
      let (s, bench) := bench.take slot
      bench.respond s.disassembleWhile fun (condition, part) =>
        (bench.put body part, .condition condition)
  | .disassembleCall slot =>
      let (s, bench) := bench.take slot
      bench.respond s.disassembleCall fun name => (bench, .text name)
  | .render slot indent => bench.inspect slot fun s => .text (s.render indent)
  | .equal left right =>
      ((bench.touch left).touch right, .ok (.truth (bench.slot left == bench.slot right)))
  | .newProgram => ({ bench with program := .unnamed }, .ok .done)
  | .ofParts slot name =>
      let (body, lent) := bench.take slot
      let lent := { lent with register := .empty }
      lent.respond (Program.ofParts name bench.register body) fun program =>
        ({ lent with program }, .done)
  | .load program => ({ bench with program }, .ok .done)
  | .parse source =>
      match Program.ofSource source with
      | .ok program => ({ bench with program }, .ok .done)
      | .error cause => (bench, .error (.parse cause))
  | .setName name =>
      bench.respond (bench.program.setName name) fun program => ({ bench with program }, .done)
  | .name => (bench, .ok (.text bench.program.name))
  | .newContext => ({ bench with register := .empty }, .ok .done)
  | .swapContext =>
      let (program, register) := bench.program.swapContext bench.register
      ({ bench with program, register }, .ok (.sizes program.context.size register.size))
  | .declare name slot =>
      let (body, bench) := bench.take slot
      ({ bench with register := bench.register.insert name body },
        .ok (.truth (bench.register.contains name)))
  | .withdraw name into =>
      match bench.register.get? name with
      | none => (bench, .ok (.truth false))
      | some body =>
          ({ bench with register := bench.register.erase name }.put into body,
            .ok (.truth true))
  | .swapBody slot =>
      let bench := bench.touch slot
      bench.respond (bench.program.swapBody (bench.slot slot)) fun (program, body) =>
        ({ bench with program }.put slot body, .done)
  | .copyBody into => (bench.put into bench.program.body, .ok .done)
  | .renderProgram => (bench, .ok (.text bench.program.render))
  | .reparse =>
      match Program.ofSource bench.program.render with
      | .ok program => (bench, .ok (.truth (program == bench.program)))
      | .error cause => (bench, .error (.parse cause))
  | .generate style =>
      match bench.program.generate style with
      | (program, .generated compiled) => ({ bench with program }, .ok (.compiled compiled))
      | (program, .failed cause) => ({ bench with program }, .error (.generate cause))
      | (program, .broken violation) => ({ bench with program }, .error (.violation violation))
  | .save => ({ bench with saved := bench.program }, .ok .done)
  | .sameAsSaved => (bench, .ok (.truth (bench.program == bench.saved)))
  | .exchangeSaved =>
      ({ bench with program := bench.saved, saved := bench.program }, .ok .done)

end Workbench

end AgentLang
