import AgentLang.Proofs.Contracts
import AgentLang.Proofs.Generation.Plan

/-! The walk of the generator follows the plan. A walk that breaks no contract hands back the
tree, the declarations and the names being expanded as it found them; it reports the error of
the plan, or appends the code of the plan to what was emitted before.
-/

namespace AgentLang.Generator

variable {σ : Type}

-----------------------------------------------------------------------------------------
-- Emitting and patching
-----------------------------------------------------------------------------------------

namespace Emitter

@[simp]
theorem toList_emit (emitter : Emitter σ) (op : Opcode)
    : (emitter.emit op).code.toList = emitter.code.toList ++ [op.code] := by
  simp [emit, word]

@[simp]
theorem toList_jump (emitter : Emitter σ) (op : Opcode) (target : UInt32)
    : (emitter.jump op target).code.toList = emitter.code.toList ++ [op.code, target] := by
  simp [jump, emit, word]

@[simp]
theorem size_jump (emitter : Emitter σ) (op : Opcode) (target : UInt32)
    : (emitter.jump op target).code.size = emitter.code.size + 2 := by
  simp [jump, emit, word]

@[simp]
theorem size_patch (emitter : Emitter σ) (slot : Nat)
    : (emitter.patch slot).code.size = emitter.code.size := by
  simp [patch]

/-- Patching the slot of a jump makes its target the end of the code, whatever stood there,
and leaves all other words alone.
-/
theorem toList_patch {emitter : Emitter σ} {before after : Code} {op : Opcode} {old : UInt32}
    {slot : Nat} (written : emitter.code.toList = before ++ op.code :: old :: after)
    (place : slot = before.length + 1)
    : (emitter.patch slot).code.toList
      = before ++ Plan.jumpTo op (before.length + 2 + after.length) ++ after := by
  have length : emitter.code.size = before.length + 2 + after.length := by
    have counted := congrArg List.length written
    simp at counted
    omega
  subst place
  simp [patch, here, written, length, Plan.jumpTo]

end Emitter

-----------------------------------------------------------------------------------------
-- What a visit does, by what was planned
-----------------------------------------------------------------------------------------

/-- The visit hands back what it was given. It reports the error that was planned, or has
appended the code that was planned.
-/
structure Visit.Follows {σ α : Type} (style : JumpStyle) (start : Emitter σ) (tree : α)
    (planned : Except GenerateError Plan) (visit : Visit σ α)
    : Prop where
  tree : visit.tree = tree
  context : visit.emitter.context = start.context
  expanding : visit.emitter.expanding = start.expanding
  fails : ∀ cause, planned = .error cause → visit.fault = some cause
  emits
    : ∀ plan,
        planned = .ok plan
        → visit.fault = none
          ∧ visit.emitter.code.toList = start.code.toList ++ plan.code style start.code.size

/-- From the given declarations on, calls do what is planned for their names. -/
def Caller.Realizes {σ : Type} (style : JumpStyle) (call : Caller σ) (context : σ)
    (expanding : List String) (resolve : Plan.Resolver)
    : Prop :=
  ∀ ⦃emitter : Emitter σ⦄ ⦃name : String⦄ ⦃visit : Visit σ Unit⦄,
    emitter.context = context
    → emitter.expanding = expanding
    → call emitter name = .ok visit
    → visit.Follows style emitter () (resolve name)

/-- A tree is put together when its parts fit; emitter and error stay. -/
theorem Visit.rebuild_eq_ok_iff {α β : Type} {visit : Visit σ α}
    {assemble : α → Except Violation β} {result : Visit σ β}
    : visit.rebuild assemble = .ok result
      ↔ ∃ tree, assemble visit.tree = .ok tree ∧ result = ⟨tree, visit.emitter, visit.fault⟩ := by
  unfold Visit.rebuild
  rw [bind_eq_ok_iff]
  constructor
  · intro h
    obtain ⟨tree, assembled, same⟩ := h
    exact ⟨tree, assembled, (Except.ok.inj same).symm⟩
  · intro h
    obtain ⟨tree, assembled, rfl⟩ := h
    exact ⟨tree, assembled, rfl⟩

/-- The closing of a construct leaves the declarations and the names being expanded alone. -/
structure Emitter.Keeps (closing : Emitter σ → Emitter σ) : Prop where
  context : ∀ emitter, (closing emitter).context = emitter.context
  expanding : ∀ emitter, (closing emitter).expanding = emitter.expanding

theorem Emitter.keeps_patch (slot : Nat) : Keeps fun emitter : Emitter σ => emitter.patch slot :=
  ⟨fun _ => rfl, fun _ => rfl⟩

theorem Emitter.keeps_closeLoop (style : JumpStyle) (head : UInt32) (slot : Nat)
    : Keeps (closeLoop style head slot : Emitter σ → Emitter σ) := by
  cases style with
  | single => exact ⟨fun _ => rfl, fun _ => rfl⟩
  | structured => exact ⟨fun _ => rfl, fun _ => rfl⟩

namespace Visit

variable {α : Type} (visit : Visit σ α) (closing : Emitter σ → Emitter σ)

@[simp]
theorem tree_close : (visit.close closing).tree = visit.tree := by
  unfold close
  split <;> rfl

@[simp]
theorem fault_close : (visit.close closing).fault = visit.fault := by
  unfold close
  split <;> rfl

variable {visit closing}

theorem close_of_fine (fine : visit.fault = none)
    : visit.close closing = ⟨visit.tree, closing visit.emitter, visit.fault⟩ := by
  simp [close, fine]

theorem context_close (keeps : Emitter.Keeps closing)
    : (visit.close closing).emitter.context = visit.emitter.context := by
  unfold close
  split
  · rfl
  · exact keeps.context _

theorem expanding_close (keeps : Emitter.Keeps closing)
    : (visit.close closing).emitter.expanding = visit.emitter.expanding := by
  unfold close
  split
  · rfl
  · exact keeps.expanding _

end Visit

-----------------------------------------------------------------------------------------
-- One construct at a time
-----------------------------------------------------------------------------------------

namespace Visit.Follows

variable {style : JumpStyle} {start : Emitter σ} {condition : Condition}
  {planned plannedElse : Except GenerateError Plan}

/-- A visit without an error was planned without one. -/
theorem planned_of_fine {α : Type} {tree : α} {visit : Visit σ α}
    (h : visit.Follows style start tree planned) (fine : visit.fault = none)
    : ∃ plan, planned = .ok plan := by
  cases planned with
  | ok plan => exact ⟨plan, rfl⟩
  | error cause =>
      have fault := h.fails cause rfl
      rw [fine] at fault
      cases fault

/-- A visit with an error was planned to end in it. -/
theorem planned_of_fault {α : Type} {tree : α} {visit : Visit σ α}
    (h : visit.Follows style start tree planned) (fault : visit.fault.isSome)
    : ∃ cause, planned = .error cause ∧ visit.fault = some cause := by
  cases planned with
  | ok plan =>
      rw [(h.emits plan rfl).1] at fault
      cases fault
  | error cause => exact ⟨cause, rfl, h.fails cause rfl⟩

/-- A body emitted behind a jump with an open target, word for word. -/
theorem behind_jump {op : Opcode} {tree : Statement} {inner : Visit σ Statement} {plan : Plan}
    (h : inner.Follows style (start.jump op 0) tree planned) (found : planned = .ok plan)
    : inner.fault = none
      ∧ inner.emitter.code.toList
        = start.code.toList ++ op.code :: 0 :: plan.code style (start.code.size + 2)
      ∧ inner.emitter.code.size = start.code.size + 2 + plan.size style := by
  obtain ⟨sound, written⟩ := h.emits plan found
  simp only [Emitter.toList_jump, Emitter.size_jump, List.append_assoc, List.cons_append,
    List.nil_append] at written
  refine ⟨sound, written, ?_⟩
  have counted := congrArg List.length written
  simp at counted
  omega

/-- A choice without a second body: its one jump is patched to the end of the body. -/
theorem ifThen {body : Statement} {inner : Visit σ Statement}
    (h : inner.Follows style (start.jump (.jumpUnless condition) 0) body planned)
    : Follows style start (Statement.ifThen condition body)
        (do return .ifThen condition (← planned))
        ⟨.ifThen condition inner.tree, inner.emitter.patch start.slot, inner.fault⟩ where
  tree := by rw [h.tree]
  context := h.context
  expanding := h.expanding
  fails := by
    intro cause failed
    exact h.fails cause (bind_pure_eq_error_iff.mp failed)
  emits := by
    intro plan found
    obtain ⟨bodyPlan, rfl, rfl⟩ := bind_pure_eq_ok_iff.mp found
    obtain ⟨sound, written, _⟩ := h.behind_jump rfl
    refine ⟨sound, ?_⟩
    rw [Emitter.toList_patch written (by simp [Emitter.slot])]
    simp [Plan.code]

/-- A loop in either style: a jump back to the test is part of what its first jump skips. -/
theorem whileDo {body : Statement} {inner : Visit σ Statement}
    (h : inner.Follows style (start.jump (.jumpUnless condition) 0) body planned)
    : Follows style start (Statement.whileDo condition body)
        (do return .whileDo condition (← planned))
        ⟨
          .whileDo condition inner.tree,
          (inner.close (closeLoop style start.here start.slot)).emitter,
          inner.fault
        ⟩ where
  tree := by rw [h.tree]
  context := (Visit.context_close (Emitter.keeps_closeLoop ..)).trans h.context
  expanding := (Visit.expanding_close (Emitter.keeps_closeLoop ..)).trans h.expanding
  fails := by
    intro cause failed
    exact h.fails cause (bind_pure_eq_error_iff.mp failed)
  emits := by
    intro plan found
    obtain ⟨bodyPlan, rfl, rfl⟩ := bind_pure_eq_ok_iff.mp found
    obtain ⟨sound, written, _⟩ := h.behind_jump rfl
    refine ⟨sound, ?_⟩
    rw [Visit.close_of_fine sound]
    cases style with
    | single =>
        rw [closeLoop, Emitter.toList_patch written (by simp [Emitter.slot])]
        simp [Plan.code]
    | structured =>
        have back := Emitter.toList_jump inner.emitter .jump start.here
        simp only [written, List.append_assoc, List.cons_append] at back
        rw [closeLoop, Emitter.toList_patch back (by simp [Emitter.slot])]
        simp [Plan.code, Plan.jumpTo, Emitter.here, Nat.add_assoc]

/-- A choice whose first body has an error: the second one is not looked at. -/
theorem ifElse_of_fault {thenBody elseBody : Statement} {first : Visit σ Statement}
    (h : first.Follows style (start.jump (.jumpUnless condition) 0) thenBody planned)
    (fault : first.fault.isSome)
    : Follows style start (Statement.ifElse condition thenBody elseBody)
        (do
          let thenPlan ← planned
          return .ifElse condition thenPlan (← plannedElse))
        ⟨.ifElse condition first.tree elseBody, first.emitter, first.fault⟩ := by
  obtain ⟨cause, rfl, reported⟩ := h.planned_of_fault fault
  refine ⟨by rw [h.tree], h.context, h.expanding, ?_, nofun⟩
  intro other failed
  cases failed
  exact reported

/-- What both styles share once the first body is emitted without an error: the error or the
plan of the second body decides.
-/
theorem ifElse {thenBody elseBody : Statement} {first second : Visit σ Statement}
    {between : Emitter σ} {slot : Nat}
    (h : first.Follows style (start.jump (.jumpUnless condition) 0) thenBody planned)
    (fine : first.fault = none)
    (context : between.context = first.emitter.context)
    (expanding : between.expanding = first.emitter.expanding)
    (h' : second.Follows style between elseBody plannedElse)
    (written
      : ∀ thenPlan elsePlan,
          planned = .ok thenPlan
          → plannedElse = .ok elsePlan
          → (second.emitter.patch slot).code.toList
            = start.code.toList
              ++ (Plan.ifElse condition thenPlan elsePlan).code style start.code.size)
    : Follows style start (Statement.ifElse condition thenBody elseBody)
        (do
          let thenPlan ← planned
          return .ifElse condition thenPlan (← plannedElse))
        ⟨
          .ifElse condition first.tree second.tree,
          (second.close (·.patch slot)).emitter,
          second.fault
        ⟩ := by
  -- Without an error in the first body its plan is known, and only that of the second is left.
  obtain ⟨thenPlan, rfl⟩ := h.planned_of_fine fine
  have keeps : Emitter.Keeps fun emitter : Emitter σ => emitter.patch slot :=
    Emitter.keeps_patch slot
  refine ⟨by rw [h.tree, h'.tree],
    (Visit.context_close keeps).trans (h'.context.trans (context.trans h.context)),
    (Visit.expanding_close keeps).trans (h'.expanding.trans (expanding.trans h.expanding)), ?_, ?_⟩
  · intro cause failed
    exact h'.fails cause (bind_pure_eq_error_iff.mp failed)
  · intro plan found
    obtain ⟨elsePlan, foundElse, rfl⟩ := bind_pure_eq_ok_iff.mp found
    have fineElse := (h'.emits elsePlan foundElse).1
    rw [Visit.close_of_fine fineElse]
    exact ⟨fineElse, written thenPlan elsePlan rfl foundElse⟩

/-- With single jumps the one slot is patched behind the first body and again behind the
second, and keeps the later target.
-/
theorem ifElse_single {thenBody elseBody : Statement} {first second : Visit σ Statement}
    (h : first.Follows .single (start.jump (.jumpUnless condition) 0) thenBody planned)
    (fine : first.fault = none)
    (h' : second.Follows .single (first.emitter.patch start.slot) elseBody plannedElse)
    : Follows .single start (Statement.ifElse condition thenBody elseBody)
        (do
          let thenPlan ← planned
          return .ifElse condition thenPlan (← plannedElse))
        ⟨
          .ifElse condition first.tree second.tree,
          (second.close (·.patch start.slot)).emitter,
          second.fault
        ⟩ := by
  apply h.ifElse fine (by rfl) (by rfl) h'
  intro thenPlan elsePlan foundThen foundElse
  obtain ⟨_, writtenThen, sizeThen⟩ := h.behind_jump foundThen
  have writtenElse := (h'.emits elsePlan foundElse).2
  -- The target that the first patch wrote is the old one for the second.
  rw [Emitter.toList_patch writtenThen (by simp [Emitter.slot])] at writtenElse
  simp only [Emitter.size_patch, sizeThen, Plan.jumpTo, List.append_assoc, List.cons_append,
    List.nil_append] at writtenElse
  rw [Emitter.toList_patch writtenElse (by simp [Emitter.slot])]
  simp [Plan.code, Nat.add_assoc]

/-- With structured jumps the slot of the test is patched behind the jump over the second
body, whose own slot is patched behind that body.
-/
theorem ifElse_structured {thenBody elseBody : Statement} {first second : Visit σ Statement}
    (h : first.Follows .structured (start.jump (.jumpUnless condition) 0) thenBody planned)
    (fine : first.fault = none)
    (h'
      : second.Follows .structured ((first.emitter.jump .jump 0).patch start.slot) elseBody
          plannedElse)
    : Follows .structured start (Statement.ifElse condition thenBody elseBody)
        (do
          let thenPlan ← planned
          return .ifElse condition thenPlan (← plannedElse))
        ⟨
          .ifElse condition first.tree second.tree,
          (second.close (·.patch first.emitter.slot)).emitter,
          second.fault
        ⟩ := by
  apply h.ifElse fine (by rfl) (by rfl) h'
  intro thenPlan elsePlan foundThen foundElse
  obtain ⟨_, writtenThen, sizeThen⟩ := h.behind_jump foundThen
  have writtenElse := (h'.emits elsePlan foundElse).2
  have skipped := Emitter.toList_jump first.emitter .jump 0
  rw [writtenThen] at skipped
  simp only [List.append_assoc, List.cons_append] at skipped
  rw [Emitter.toList_patch skipped (by simp [Emitter.slot])] at writtenElse
  -- The same words, parted where the jump over the second body waits for its target.
  have opened
      : second.emitter.code.toList
        = (start.code.toList
            ++ Plan.jumpTo (.jumpUnless condition)
                (start.code.size + 2 + thenPlan.size .structured + 2)
            ++ thenPlan.code .structured (start.code.size + 2))
          ++ Opcode.jump.code
            :: 0
            :: elsePlan.code .structured
                (start.code.size + 2 + thenPlan.size .structured + 2) := by
    rw [writtenElse]
    simp [sizeThen, Nat.add_assoc]
  rw [Emitter.toList_patch opened (by simp [Emitter.slot, sizeThen]; omega)]
  simp [Plan.code, Nat.add_assoc, Nat.add_left_comm]

/-- A first child with an error: the others are not looked at. -/
theorem cons_of_fault {child : Statement} {rest : List Statement} {first : Visit σ Statement}
    (h : first.Follows style start child planned) (fault : first.fault.isSome)
    : Follows style start (child :: rest)
        (do
          let firstPlan ← planned
          return .seq firstPlan (← plannedElse))
        ⟨first.tree :: rest, first.emitter, first.fault⟩ := by
  obtain ⟨cause, rfl, reported⟩ := h.planned_of_fault fault
  refine ⟨by rw [h.tree], h.context, h.expanding, ?_, nofun⟩
  intro other failed
  cases failed
  exact reported

/-- The first child of a block without an error, and then the others. -/
theorem cons {child : Statement} {rest : List Statement} {first : Visit σ Statement}
    {later : Visit σ (List Statement)} (h : first.Follows style start child planned)
    (fine : first.fault = none) (h' : later.Follows style first.emitter rest plannedElse)
    : Follows style start (child :: rest)
        (do
          let firstPlan ← planned
          return .seq firstPlan (← plannedElse))
        ⟨first.tree :: later.tree, later.emitter, later.fault⟩ := by
  obtain ⟨firstPlan, rfl⟩ := h.planned_of_fine fine
  refine ⟨by rw [h.tree, h'.tree], h'.context.trans h.context,
    h'.expanding.trans h.expanding, ?_, ?_⟩
  · intro cause failed
    exact h'.fails cause (bind_pure_eq_error_iff.mp failed)
  · intro plan found
    obtain ⟨laterPlan, foundLater, rfl⟩ := bind_pure_eq_ok_iff.mp found
    have written := (h.emits firstPlan rfl).2
    obtain ⟨sound, writtenLater⟩ := h'.emits laterPlan foundLater
    have size : first.emitter.code.size = start.code.size + firstPlan.size style := by
      simpa using congrArg List.length written
    refine ⟨sound, ?_⟩
    simp [writtenLater, written, size, Plan.code]

end Visit.Follows

-----------------------------------------------------------------------------------------
-- Whole walks
-----------------------------------------------------------------------------------------

mutual

/-- A walk that breaks no contract follows the plan of its statement, by the constructs of the
statement. How calls are resolved stays open: it is enough that the caller realizes it.
-/
theorem visit_follows {style : JumpStyle} {call : Caller σ} {context : σ}
    {expanding : List String} {resolve : Plan.Resolver}
    (realizes : call.Realizes style context expanding resolve)
    {emitter : Emitter σ} (s : Statement) {result : Visit σ Statement}
    (visited : visit style call emitter s = .ok result)
    (sameContext : emitter.context = context) (sameExpanding : emitter.expanding = expanding)
    : result.Follows style emitter s (Plan.ofStatement resolve s) := by
  cases s with
  | block children =>
      obtain ⟨inner, walked, rebuilt⟩ := bind_eq_ok_iff.mp visited
      obtain ⟨tree, assembled, rfl⟩ := Visit.rebuild_eq_ok_iff.mp rebuilt
      obtain rfl := pure_eq_ok_iff.mp assembled
      have h := visitAll_follows realizes children walked sameContext sameExpanding
      exact ⟨by rw [h.tree], h.context, h.expanding, h.fails, h.emits⟩
  | ifThen condition body =>
      obtain ⟨inner, walked, rebuilt⟩ := bind_eq_ok_iff.mp visited
      obtain ⟨tree, assembled, rfl⟩ := Visit.rebuild_eq_ok_iff.mp rebuilt
      obtain ⟨_, rfl⟩ := Statement.assembleIf_eq_ok_iff.mp assembled
      exact (visit_follows realizes body walked sameContext sameExpanding).ifThen
  | ifElse condition thenBody elseBody =>
      obtain ⟨first, walked, rest⟩ := bind_eq_ok_iff.mp visited
      have h := visit_follows realizes thenBody walked sameContext sameExpanding
      split at rest
      · rename_i fault
        obtain ⟨tree, assembled, rfl⟩ := Visit.rebuild_eq_ok_iff.mp rest
        obtain ⟨_, _, rfl⟩ := Statement.assembleIfElse_eq_ok_iff.mp assembled
        exact h.ifElse_of_fault fault
      · rename_i noFault
        have fine : first.fault = none := by simpa using noFault
        cases style with
        | single =>
            obtain ⟨second, walkedElse, rebuilt⟩ := bind_eq_ok_iff.mp rest
            obtain ⟨tree, assembled, rfl⟩ := Visit.rebuild_eq_ok_iff.mp rebuilt
            obtain ⟨_, _, rfl⟩ := Statement.assembleIfElse_eq_ok_iff.mp assembled
            simp only [Visit.tree_close, Visit.fault_close]
            exact h.ifElse_single fine
              (visit_follows realizes elseBody walkedElse (h.context.trans sameContext)
                (h.expanding.trans sameExpanding))
        | structured =>
            obtain ⟨second, walkedElse, rebuilt⟩ := bind_eq_ok_iff.mp rest
            obtain ⟨tree, assembled, rfl⟩ := Visit.rebuild_eq_ok_iff.mp rebuilt
            obtain ⟨_, _, rfl⟩ := Statement.assembleIfElse_eq_ok_iff.mp assembled
            simp only [Visit.tree_close, Visit.fault_close]
            exact h.ifElse_structured fine
              (visit_follows realizes elseBody walkedElse (h.context.trans sameContext)
                (h.expanding.trans sameExpanding))
  | whileDo condition body =>
      obtain ⟨inner, walked, rebuilt⟩ := bind_eq_ok_iff.mp visited
      have h := visit_follows realizes body walked sameContext sameExpanding
      obtain ⟨tree, assembled, rfl⟩ := Visit.rebuild_eq_ok_iff.mp rebuilt
      obtain ⟨_, rfl⟩ := Statement.assembleWhile_eq_ok_iff.mp assembled
      simp only [Visit.tree_close, Visit.fault_close]
      exact h.whileDo
  | call name =>
      obtain ⟨inner, called, rebuilt⟩ := bind_eq_ok_iff.mp visited
      obtain ⟨tree, assembled, rfl⟩ := Visit.rebuild_eq_ok_iff.mp rebuilt
      obtain ⟨_, rfl⟩ := Statement.assembleCall_eq_ok_iff.mp assembled
      have h := realizes sameContext sameExpanding called
      exact ⟨rfl, h.context, h.expanding, h.fails, h.emits⟩
termination_by sizeOf s

theorem visitAll_follows {style : JumpStyle} {call : Caller σ} {context : σ}
    {expanding : List String} {resolve : Plan.Resolver}
    (realizes : call.Realizes style context expanding resolve)
    {emitter : Emitter σ} (children : List Statement) {result : Visit σ (List Statement)}
    (visited : visitAll style call emitter children = .ok result)
    (sameContext : emitter.context = context) (sameExpanding : emitter.expanding = expanding)
    : result.Follows style emitter children (Plan.ofAll resolve children) := by
  cases children with
  | nil =>
      cases visited
      refine ⟨rfl, rfl, rfl, nofun, ?_⟩
      intro plan found
      cases found
      simp [Plan.code]
  | cons child rest =>
      obtain ⟨first, walked, remaining⟩ := bind_eq_ok_iff.mp visited
      obtain ⟨tree, kept, remaining⟩ := bind_eq_ok_iff.mp remaining
      obtain ⟨_, rfl⟩ := Statement.asChild_eq_ok_iff.mp kept
      have h := visit_follows realizes child walked sameContext sameExpanding
      split at remaining
      · rename_i fault
        obtain rfl := pure_eq_ok_iff.mp remaining
        exact h.cons_of_fault fault
      · rename_i noFault
        have fine : first.fault = none := by simpa using noFault
        obtain ⟨later, walkedRest, rebuilt⟩ := bind_eq_ok_iff.mp remaining
        obtain ⟨tree, assembled, rfl⟩ := Visit.rebuild_eq_ok_iff.mp rebuilt
        obtain rfl := pure_eq_ok_iff.mp assembled
        exact h.cons fine
          (visitAll_follows realizes rest walkedRest (h.context.trans sameContext)
            (h.expanding.trans sameExpanding))
termination_by sizeOf children

end

/-- A name that is not declared becomes an action or an error. -/
theorem leaf_follows (style : JumpStyle) (emitter : Emitter σ) (name : String)
    : (leaf emitter name).Follows style emitter () (Plan.ofName emitter.expanding name) := by
  unfold leaf Plan.ofName
  split
  · exact ⟨rfl, rfl, rfl, fun _ failed => by cases failed; rfl, nofun⟩
  · cases Primitive.ofWord? name with
    | none => exact ⟨rfl, rfl, rfl, fun _ failed => by cases failed; rfl, nofun⟩
    | some p =>
        refine ⟨rfl, rfl, rfl, nofun, ?_⟩
        intro plan found
        cases found
        exact ⟨rfl, Emitter.toList_emit emitter _⟩

/-- Expanding calls realizes their resolution as long as the depth is not less than the number
of declarations, by induction on the depth: each expansion takes out a declaration, and
puts it back as it was.
-/
theorem expand_realizes (style : JumpStyle) (depth : Nat) {context : Context}
    (expanding : List String) (enough : context.size ≤ depth)
    : (Context.store.expand style depth).Realizes style context expanding
        (Plan.resolve context expanding) := by
  induction depth generalizing context expanding with
  | zero =>
      intro emitter name result sameContext sameExpanding called
      subst sameContext sameExpanding
      cases called
      -- No depth is left, so no declaration is either.
      have missing : emitter.context.get? name = none := by
        cases found : emitter.context.get? name with
        | none => rfl
        | some body =>
            have := Context.size_erase_lt found
            omega
      rw [Plan.resolve_undeclared missing]
      exact leaf_follows style emitter name
  | succ depth ih =>
      intro emitter name result sameContext sameExpanding called
      subst sameContext sameExpanding
      simp only [Store.expand, Context.store_find?] at called
      split at called
      · rename_i missing
        cases called
        rw [Plan.resolve_undeclared missing]
        exact leaf_follows style emitter name
      · rename_i body found
        obtain ⟨inner, walked, made⟩ := bind_eq_ok_iff.mp called
        obtain rfl := pure_eq_ok_iff.mp made
        have fewer : (emitter.context.erase name).size ≤ depth := by
          have := Context.size_erase_lt found
          omega
        have h := visit_follows (ih (name :: emitter.expanding) fewer) body walked rfl rfl
        rw [Plan.resolve_declared found]
        refine ⟨rfl, ?_, ?_, h.fails, h.emits⟩
        · simp only [Emitter.endCall, h.context, h.tree, Context.store_insert]
          exact Context.insert_erase found
        · simp only [Emitter.endCall, h.expanding]
          rfl

end AgentLang.Generator
