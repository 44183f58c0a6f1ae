import AgentLang.Code.Generator
import AgentLang.Proofs.Declarations

/-! Plans: what a statement comes to once its calls are resolved. A plan is built without
emitting anything, and its code is put together from the codes of its parts, every target
being known at once.
-/

namespace AgentLang

/-- Actions, tests and loops in sequence, with no call among them. -/
inductive Plan where
  | done
  | act (p : Primitive)
  | seq (first second : Plan)
  | ifThen (condition : Condition) (body : Plan)
  | ifElse (condition : Condition) (thenPlan elsePlan : Plan)
  | whileDo (condition : Condition) (body : Plan)
  deriving DecidableEq, Repr

namespace Plan

-----------------------------------------------------------------------------------------
-- Resolving the calls of a statement
-----------------------------------------------------------------------------------------

/-- What a call of a name comes to. -/
abbrev Resolver := String → Except GenerateError Plan

mutual

/-- The plan of a statement, or the error of its first call that cannot be resolved. -/
def ofStatement (resolve : Resolver) : Statement → Except GenerateError Plan
  | .block children => ofAll resolve children
  | .ifThen condition body => do
      return .ifThen condition (← ofStatement resolve body)
  | .ifElse condition thenBody elseBody => do
      let thenPlan ← ofStatement resolve thenBody
      return .ifElse condition thenPlan (← ofStatement resolve elseBody)
  | .whileDo condition body => do
      return .whileDo condition (← ofStatement resolve body)
  | .call name => resolve name

def ofAll (resolve : Resolver) : List Statement → Except GenerateError Plan
  | [] => .ok .done
  | child :: rest => do
      let first ← ofStatement resolve child
      return .seq first (← ofAll resolve rest)

end

/-- Resolves a name under which nothing is declared, or nothing any more. -/
def ofName (expanding : List String) : Resolver := fun name =>
  if expanding.contains name then
    .error (.recursiveInstruction name)
  else
    match Primitive.ofWord? name with
    | some p => .ok (.act p)
    | none => .error (.unknownInstruction name)

/-- Resolves a name in a context. A declared body is planned without its own declaration, so
the context shrinks from one expansion to the next.
-/
def resolve (context : Context) (expanding : List String) (name : String)
    : Except GenerateError Plan :=
  match _found : context.get? name with
  | some body => ofStatement (resolve (context.erase name) (name :: expanding)) body
  | none => ofName expanding name
termination_by context.size
decreasing_by exact Context.size_erase_lt _found

theorem resolve_declared {context : Context} {expanding : List String} {name : String}
    {body : Statement} (found : context.get? name = some body)
    : resolve context expanding name
      = ofStatement (resolve (context.erase name) (name :: expanding)) body := by
  rw [resolve]
  split
  · rename_i other eq
    rw [Option.some.inj (eq.symm.trans found)]
  · rename_i none
    rw [none] at found
    cases found

theorem resolve_undeclared {context : Context} {expanding : List String} {name : String}
    (missing : context.get? name = none)
    : resolve context expanding name = ofName expanding name := by
  rw [resolve]
  split
  · rename_i body found
    rw [found] at missing
    cases missing
  · rfl

/-- The declarations that are left while some are being expanded. -/
def Remaining (context : Context) (expanding : List String) (left : Context) : Prop :=
  ∀ name, left.get? name = if name ∈ expanding then none else context.get? name

theorem Remaining.erase {context : Context} {expanding : List String} {left : Context}
    (remaining : Remaining context expanding left) (name : String)
    : Remaining context (name :: expanding) (left.erase name) := by
  intro other
  by_cases same : name = other
  · simp [same]
  · simp [same, Ne.symm same, remaining other]

-----------------------------------------------------------------------------------------
-- The code of a plan
-----------------------------------------------------------------------------------------

/-- A jump with its target, which is an offset reduced to a word. -/
def jumpTo (op : Opcode) (target : Nat) : Code := [op.code, target.toUInt32]

/-- How many words the code of a plan takes. -/
def size (style : JumpStyle) : Plan → Nat
  | done => 0
  | act _ => 1
  | seq first second => first.size style + second.size style
  | ifThen _ body => 2 + body.size style
  | ifElse _ thenPlan elsePlan =>
      match style with
      | .single => 2 + thenPlan.size style + elsePlan.size style
      | .structured => 4 + thenPlan.size style + elsePlan.size style
  | whileDo _ body =>
      match style with
      | .single => 2 + body.size style
      | .structured => 4 + body.size style

/-- The code of a plan that starts at the given offset. -/
def code (style : JumpStyle) (offset : Nat) : Plan → Code
  | done => []
  | act p => [(Opcode.act p).code]
  | seq first second => first.code style offset ++ second.code style (offset + first.size style)
  | ifThen condition body =>
      jumpTo (.jumpUnless condition) (offset + 2 + body.size style)
        ++ body.code style (offset + 2)
  | ifElse condition thenPlan elsePlan =>
      let behindThen := offset + 2 + thenPlan.size style
      match style with
      | .single =>
          jumpTo (.jumpUnless condition) (behindThen + elsePlan.size style)
            ++ thenPlan.code style (offset + 2)
            ++ elsePlan.code style behindThen
      | .structured =>
          jumpTo (.jumpUnless condition) (behindThen + 2)
            ++ thenPlan.code style (offset + 2)
            ++ jumpTo .jump (behindThen + 2 + elsePlan.size style)
            ++ elsePlan.code style (behindThen + 2)
  | whileDo condition body =>
      let behindBody := offset + 2 + body.size style
      match style with
      | .single =>
          jumpTo (.jumpUnless condition) behindBody ++ body.code style (offset + 2)
      | .structured =>
          jumpTo (.jumpUnless condition) (behindBody + 2)
            ++ body.code style (offset + 2)
            ++ jumpTo .jump offset

@[simp]
theorem length_jumpTo (op : Opcode) (target : Nat) : (jumpTo op target).length = 2 := rfl

/-- The code of a plan takes as many words as its size says, wherever it starts. -/
@[simp]
theorem length_code (style : JumpStyle) (offset : Nat) (plan : Plan)
    : (plan.code style offset).length = plan.size style := by
  induction plan generalizing offset with
  | done => rfl
  | act p => rfl
  | seq first second ihFirst ihSecond => simp [code, size, ihFirst, ihSecond]
  | ifThen condition body ih => simp [code, size, ih]
  | ifElse condition thenPlan elsePlan ihThen ihElse =>
      cases style with
      | single => simp [code, size, ihThen, ihElse, Nat.add_assoc]
      | structured =>
          simp [code, size, ihThen, ihElse]
          omega
  | whileDo condition body ih =>
      cases style with
      | single => simp [code, size, ih]
      | structured =>
          simp [code, size, ih]
          omega

-----------------------------------------------------------------------------------------
-- Plans with the same code
-----------------------------------------------------------------------------------------

/-- Plans have the same code, wherever it starts. -/
def SameCode (style : JumpStyle) (left right : Plan) : Prop :=
  ∀ offset, left.code style offset = right.code style offset

namespace SameCode

variable {style : JumpStyle} {condition : Condition} {first first' second second' : Plan}

theorem trans {third : Plan} (h : SameCode style first second) (h' : SameCode style second third)
    : SameCode style first third :=
  fun offset => (h offset).trans (h' offset)

theorem size_eq (h : SameCode style first second) : first.size style = second.size style := by
  have lengths := congrArg List.length (h 0)
  rwa [length_code, length_code] at lengths

theorem seq (h : SameCode style first first') (h' : SameCode style second second')
    : SameCode style (.seq first second) (.seq first' second') := by
  intro offset
  simp only [code, h offset, h.size_eq, h' (offset + first'.size style)]

theorem ifThen (h : SameCode style first first')
    : SameCode style (.ifThen condition first) (.ifThen condition first') := by
  intro offset
  simp only [code, h (offset + 2), h.size_eq]

theorem ifElse (h : SameCode style first first') (h' : SameCode style second second')
    : SameCode style (.ifElse condition first second) (.ifElse condition first' second') := by
  intro offset
  unfold SameCode at h h'
  cases style <;> simp only [code, h, h', size_eq h, size_eq h']

theorem whileDo (h : SameCode style first first')
    : SameCode style (.whileDo condition first) (.whileDo condition first') := by
  intro offset
  unfold SameCode at h
  cases style <;> simp only [code, h, size_eq h]

/-- How a sequence is grouped does not show in its code. -/
theorem seq_assoc (first second third : Plan)
    : SameCode style (.seq (.seq first second) third) (.seq first (.seq second third)) := by
  intro offset
  simp only [code, size, List.append_assoc, Nat.add_assoc]

theorem done_seq (plan : Plan) : SameCode style (.seq .done plan) plan :=
  fun _ => rfl

theorem seq_done (plan : Plan) : SameCode style (.seq plan .done) plan := by
  intro offset
  simp only [code, List.append_nil]

end SameCode

end Plan

end AgentLang
