import AgentLang.Code
import AgentLang.Program

/-! Generating code for a program. The generator walks the body, takes every statement apart on
the way down and puts it together again on the way up, and hands declarations and body back to
the program at the end. A call of a declared instruction is replaced by the code of its body,
which is taken out of the context meanwhile: a call of an instruction inside its own body
finds no declaration.

Putting a statement together has contracts. A tree that breaks one stops the walk, and then
nothing is handed back.
-/

namespace AgentLang

/-- How the constructs with a condition become jumps. -/
inductive JumpStyle where
  /-- One conditional jump for each construct. That of a choice with two bodies leads behind
  the second one, and a loop does not lead back. -/
  | single
  /-- An unconditional jump more for each second body and for each loop: over the second body,
  and back to the test. -/
  | structured
  deriving DecidableEq, Repr

inductive GenerateError where
  | unknownInstruction (name : String)
  | recursiveInstruction (name : String)
  deriving DecidableEq, Repr

def GenerateError.message : GenerateError → String
  | unknownInstruction name =>
      "`" ++ name ++ "` is neither a primitive nor a user-defined instruction"
  | recursiveInstruction name =>
      "instruction `" ++ name ++ "` calls itself (directly or indirectly)"

namespace Generator

/-- How declarations are kept while code is generated: looked up by name, taken out, and put in
under a name in place of what stood there.
-/
structure Store (σ : Type) where
  find? : σ → String → Option Statement
  erase : σ → String → σ
  insert : σ → String → Statement → σ

/-- The code so far, the declarations not being expanded, and the names of those that are,
innermost first.
-/
structure Emitter (σ : Type) where
  code : Array UInt32
  context : σ
  expanding : List String

namespace Emitter

variable {σ : Type}

/-- Nothing is emitted yet, and nothing is being expanded. -/
def start (context : σ) : Emitter σ := ⟨#[], context, []⟩

/-- The offset of what is emitted next, as a word. -/
def here (emitter : Emitter σ) : UInt32 := emitter.code.size.toUInt32

def word (emitter : Emitter σ) (word : UInt32) : Emitter σ :=
  { emitter with code := emitter.code.push word }

def emit (emitter : Emitter σ) (op : Opcode) : Emitter σ := emitter.word op.code

/-- Emits a jump to the given target. -/
def jump (emitter : Emitter σ) (op : Opcode) (target : UInt32) : Emitter σ :=
  (emitter.emit op).word target

/-- Where the target of a jump emitted next will stand. -/
def slot (emitter : Emitter σ) : Nat := emitter.code.size + 1

/-- Makes the target in a slot the current end of the code. -/
def patch (emitter : Emitter σ) (slot : Nat) : Emitter σ :=
  { emitter with code := emitter.code.setIfInBounds slot emitter.here }

/-- Starts expanding a declared instruction. -/
def beginCall (store : Store σ) (emitter : Emitter σ) (name : String) : Emitter σ :=
  {
    emitter with
    context := store.erase emitter.context name
    expanding := name :: emitter.expanding
  }

/-- Stops expanding a declared instruction and declares its body again. -/
def endCall (store : Store σ) (emitter : Emitter σ) (name : String) (body : Statement)
    : Emitter σ :=
  {
    emitter with
    context := store.insert emitter.context name body
    expanding := emitter.expanding.tail
  }

end Emitter

/-- What comes out of a walk over a tree that breaks no contract: the tree put together again,
and the error of the first call that could not be resolved.
-/
structure Visit (σ α : Type) where
  tree : α
  emitter : Emitter σ
  fault : Option GenerateError

/-- How the generation of code ends. -/
inductive Outcome where
  | generated (compiled : Compiled)
  | failed (cause : GenerateError)
  | broken (violation : Violation)
  deriving DecidableEq, Repr

namespace Visit

variable {σ α β : Type}

/-- Puts a tree together from the one that was handed back. -/
def rebuild (visit : Visit σ α) (assemble : α → Except Violation β)
    : Except Violation (Visit σ β) := do
  return { visit with tree := ← assemble visit.tree }

def patch (visit : Visit σ α) (slot : Nat) : Visit σ α :=
  { visit with emitter := visit.emitter.patch slot }

/-- Emits what closes a construct, unless there was an error inside it. -/
def close (visit : Visit σ α) (closing : Emitter σ → Emitter σ) : Visit σ α :=
  if visit.fault.isSome then visit else { visit with emitter := closing visit.emitter }

/-- The code of a whole program, with a halt at its end, or the error of the walk. -/
def outcome (visit : Visit σ α) (name : String) : Outcome :=
  match visit.fault with
  | some cause => .failed cause
  | none => .generated ⟨name, (visit.emitter.emit .halt).code.toList⟩

end Visit

/-- What a loop has behind its body: with structured jumps a jump back to the test. The open
target of the test becomes the end.
-/
def closeLoop {σ : Type} (style : JumpStyle) (head : UInt32) (slot : Nat) (emitter : Emitter σ)
    : Emitter σ :=
  match style with
  | .single => emitter.patch slot
  | .structured => (emitter.jump .jump head).patch slot

/-- Resolves a name that is not declared, or is being expanded. -/
def leaf {σ : Type} (emitter : Emitter σ) (name : String) : Visit σ Unit :=
  if emitter.expanding.contains name then
    ⟨(), emitter, some (.recursiveInstruction name)⟩
  else
    match Primitive.ofWord? name with
    | some p => ⟨(), emitter.emit (.act p), none⟩
    | none => ⟨(), emitter, some (.unknownInstruction name)⟩

/-- How a walk deals with the calls it meets. -/
abbrev Caller (σ : Type) := Emitter σ → String → Except Violation (Visit σ Unit)

mutual

/-- Emits the code of a statement. -/
def visit {σ : Type} (style : JumpStyle) (call : Caller σ) (emitter : Emitter σ)
    : Statement → Except Violation (Visit σ Statement)
  | .block children => do
      (← visitAll style call emitter children).rebuild fun children => return .block children
  | .ifThen condition body => do
      let slot := emitter.slot
      let inner ← visit style call (emitter.jump (.jumpUnless condition) 0) body
      (inner.patch slot).rebuild (Statement.assembleIf condition)
  | .ifElse condition thenBody elseBody => do
      let slot := emitter.slot
      let first ← visit style call (emitter.jump (.jumpUnless condition) 0) thenBody
      let thenBody := first.tree
      if first.fault.isSome then
        first.rebuild fun thenBody => Statement.assembleIfElse condition thenBody elseBody
      else
        match style with
        | .single =>
            let second ← visit style call (first.emitter.patch slot) elseBody
            (second.close (·.patch slot)).rebuild (Statement.assembleIfElse condition thenBody)
        | .structured =>
            let skip := first.emitter.slot
            let second ←
              visit style call ((first.emitter.jump .jump 0).patch slot) elseBody
            (second.close (·.patch skip)).rebuild (Statement.assembleIfElse condition thenBody)
  | .whileDo condition body => do
      let head := emitter.here
      let slot := emitter.slot
      let inner ← visit style call (emitter.jump (.jumpUnless condition) 0) body
      (inner.close (closeLoop style head slot)).rebuild (Statement.assembleWhile condition)
  | .call name => do
      (← call emitter name).rebuild fun _ => Statement.assembleCall name

/-- Emits the code of the children of a block up to the first one with an error. A child goes
back into the block before its error is looked at.
-/
def visitAll {σ : Type} (style : JumpStyle) (call : Caller σ) (emitter : Emitter σ)
    : List Statement → Except Violation (Visit σ (List Statement))
  | [] => .ok ⟨[], emitter, none⟩
  | child :: rest => do
      let first ← visit style call emitter child
      let child ← first.tree.asChild
      if first.fault.isSome then
        return { first with tree := child :: rest }
      else
        (← visitAll style call first.emitter rest).rebuild fun rest => return child :: rest

end

/-- Resolves a call: a declared body is expanded, with at most as many others inside one
another as the depth says. No more than there are declarations can be.
-/
def Store.expand {σ : Type} (store : Store σ) (style : JumpStyle) : Nat → Caller σ
  | 0, emitter, name => .ok (leaf emitter name)
  | depth + 1, emitter, name =>
      match store.find? emitter.context name with
      | none => .ok (leaf emitter name)
      | some body => do
          let inner ←
            visit style (store.expand style depth) (emitter.beginCall store name) body
          return ⟨(), inner.emitter.endCall store name inner.tree, inner.fault⟩

end Generator

/-- Contexts keep declarations. -/
def Context.store : Generator.Store Context := ⟨Context.get?, Context.erase, Context.insert⟩

@[simp]
theorem Context.store_find? (context : Context) (name : String)
    : Context.store.find? context name = context.get? name := rfl

@[simp]
theorem Context.store_insert (context : Context) (name : String) (body : Statement)
    : Context.store.insert context name body = context.insert name body := rfl

open Generator in
/-- Generates the code of a program, with a halt at its end. The program comes back as the
generator leaves it: the body is handed back after the declarations and before an error of the
walk is reported.
-/
def Program.generate (style : JumpStyle) (program : Program) : Program × Outcome :=
  let lent : Program := { program with context := .empty, body := .empty }
  let call := Context.store.expand style program.context.size
  match visit style call (.start program.context) program.body with
  | .error violation => (lent, .broken violation)
  | .ok result =>
      let lent := (lent.swapContext result.emitter.context).1
      match lent.swapBody result.tree with
      | .error violation => (lent, .broken violation)
      | .ok (program, _) => (program, result.outcome program.name)

end AgentLang
