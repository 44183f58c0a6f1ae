import AgentLang.Proofs.Generation.Returning

/-! Lowering: code built from the bottom up. Each construct puts the codes of its parts together
when their lengths are known, so that no target is ever open; the generator, which leaves
targets open and fills them in later, emits the same.
-/

namespace AgentLang

open Generator

-----------------------------------------------------------------------------------------
-- Code from the bottom up
-----------------------------------------------------------------------------------------

namespace Statement

mutual

/-- The code of a statement that starts at the given offset, by the codes of its calls. -/
def lower (style : JumpStyle) (call : String → Nat → Except GenerateError Code) (offset : Nat)
    : Statement → Except GenerateError Code
  | .block children => lowerAll style call offset children
  | .ifThen condition body => do
      let code ← lower style call (offset + 2) body
      return Plan.jumpTo (.jumpUnless condition) (offset + 2 + code.length) ++ code
  | .ifElse condition thenBody elseBody => do
      let first ← lower style call (offset + 2) thenBody
      let behindThen := offset + 2 + first.length
      match style with
      | .single =>
          let second ← lower style call behindThen elseBody
          return Plan.jumpTo (.jumpUnless condition) (behindThen + second.length)
            ++ first ++ second
      | .structured =>
          let second ← lower style call (behindThen + 2) elseBody
          return Plan.jumpTo (.jumpUnless condition) (behindThen + 2)
            ++ first
            ++ Plan.jumpTo .jump (behindThen + 2 + second.length)
            ++ second
  | .whileDo condition body => do
      let code ← lower style call (offset + 2) body
      let behindBody := offset + 2 + code.length
      match style with
      | .single => return Plan.jumpTo (.jumpUnless condition) behindBody ++ code
      | .structured =>
          return Plan.jumpTo (.jumpUnless condition) (behindBody + 2)
            ++ code
            ++ Plan.jumpTo .jump offset
  | .call name => call name offset

def lowerAll (style : JumpStyle) (call : String → Nat → Except GenerateError Code) (offset : Nat)
    : List Statement → Except GenerateError Code
  | [] => return []
  | child :: rest => do
      let first ← lower style call offset child
      return first ++ (← lowerAll style call (offset + first.length) rest)

end

end Statement

/-- The code of a call that starts at the given offset. A declared body is lowered in its place,
with its name taken out of the context and put on the stack.
-/
def Context.lowerCall (style : JumpStyle) (context : Context) (stack : List String) (name : String)
    (offset : Nat)
    : Except GenerateError Code :=
  match _found : context.get? name with
  | some body => body.lower style (lowerCall style (context.erase name) (name :: stack)) offset
  | none =>
      if name ∈ stack then
        .error (.recursiveInstruction name)
      else
        match Primitive.ofWord? name with
        | some p => .ok [(Opcode.act p).code]
        | none => .error (.unknownInstruction name)
termination_by context.size
decreasing_by exact Context.size_erase_lt _found

-----------------------------------------------------------------------------------------
-- Lowering is planning and writing the code of the plan
-----------------------------------------------------------------------------------------

mutual

/-- The lowered code of a statement is the code of its plan when that holds of its calls. -/
theorem Statement.lower_eq {style : JumpStyle} {call : String → Nat → Except GenerateError Code}
    {resolve : Plan.Resolver}
    (same : ∀ name offset, call name offset = (resolve name).map (Plan.code style offset))
    (s : Statement) (offset : Nat)
    : s.lower style call offset = (Plan.ofStatement resolve s).map (Plan.code style offset) := by
  cases s with
  | block children => exact lowerAll_eq same children offset
  | ifThen condition body =>
      rw [lower, Plan.ofStatement, lower_eq same body]
      cases Plan.ofStatement resolve body with
      | error cause => rfl
      | ok plan => simp [Except.map, Plan.code, bind, Except.bind, pure, Except.pure]
  | ifElse condition thenBody elseBody =>
      rw [lower, Plan.ofStatement, lower_eq same thenBody]
      cases Plan.ofStatement resolve thenBody with
      | error cause => rfl
      | ok thenPlan =>
          cases style with
          | single =>
              simp only [Except.map, bind, Except.bind, Plan.length_code, lower_eq same elseBody]
              cases Plan.ofStatement resolve elseBody with
              | error cause => rfl
              | ok elsePlan => simp [Plan.code, pure, Except.pure]
          | structured =>
              simp only [Except.map, bind, Except.bind, Plan.length_code, lower_eq same elseBody]
              cases Plan.ofStatement resolve elseBody with
              | error cause => rfl
              | ok elsePlan => simp [Plan.code, pure, Except.pure]
  | whileDo condition body =>
      rw [lower, Plan.ofStatement, lower_eq same body]
      cases Plan.ofStatement resolve body with
      | error cause => rfl
      | ok plan =>
          cases style with
          | single => simp [Except.map, Plan.code, bind, Except.bind, pure, Except.pure]
          | structured => simp [Except.map, Plan.code, bind, Except.bind, pure, Except.pure]
  | call name => exact same name offset
termination_by sizeOf s

theorem Statement.lowerAll_eq {style : JumpStyle}
    {call : String → Nat → Except GenerateError Code} {resolve : Plan.Resolver}
    (same : ∀ name offset, call name offset = (resolve name).map (Plan.code style offset))
    (children : List Statement) (offset : Nat)
    : Statement.lowerAll style call offset children
      = (Plan.ofAll resolve children).map (Plan.code style offset) := by
  cases children with
  | nil => rfl
  | cons child rest =>
      rw [lowerAll, Plan.ofAll, lower_eq same child]
      cases Plan.ofStatement resolve child with
      | error cause => rfl
      | ok first =>
          simp only [Except.map, bind, Except.bind, Plan.length_code, lowerAll_eq same rest]
          cases Plan.ofAll resolve rest with
          | error cause => rfl
          | ok later => simp [Plan.code, pure, Except.pure]
termination_by sizeOf children

end

/-- The lowered code of a call is the code of what its name is resolved to. -/
theorem Context.lowerCall_eq (style : JumpStyle) (context : Context) (stack : List String)
    (name : String) (offset : Nat)
    : context.lowerCall style stack name offset
      = (Plan.resolve context stack name).map (Plan.code style offset) := by
  rw [lowerCall]
  split
  · rename_i body found
    rw [Plan.resolve_declared found]
    exact Statement.lower_eq (lowerCall_eq style (context.erase name) (name :: stack)) body offset
  · rename_i missing
    rw [Plan.resolve_undeclared missing, Plan.ofName]
    by_cases again : name ∈ stack
    · simp [again, Except.map]
    · cases Primitive.ofWord? name with
      | none => simp [again, Except.map]
      | some p => simp [again, Except.map, Plan.code]
termination_by context.size
decreasing_by exact Context.size_erase_lt ‹_›

-----------------------------------------------------------------------------------------
-- What was emitted before stays
-----------------------------------------------------------------------------------------

namespace Generator

variable {σ : Type}

/-- The code of an emitter begins with that of an earlier one. -/
def Emitter.Extends (later start : Emitter σ) : Prop :=
  start.code.toList <+: later.code.toList

namespace Emitter.Extends

variable {start middle later : Emitter σ}

theorem trans (h : later.Extends middle) (h' : middle.Extends start) : later.Extends start :=
  List.IsPrefix.trans h' h

theorem emit (h : later.Extends start) (op : Opcode) : (later.emit op).Extends start := by
  unfold Extends
  rw [toList_emit]
  exact List.IsPrefix.trans h (List.prefix_append _ _)

theorem jump (h : later.Extends start) (op : Opcode) (target : UInt32)
    : (later.jump op target).Extends start := by
  unfold Extends
  rw [toList_jump]
  exact List.IsPrefix.trans h (List.prefix_append _ _)

theorem size_le (h : later.Extends start) : start.code.size ≤ later.code.size := by
  simpa using h.length_le

/-- Patching a slot behind the earlier code does not touch that. -/
theorem patch (h : later.Extends start) {slot : Nat} (behind : start.code.size ≤ slot)
    : (later.patch slot).Extends start := by
  obtain ⟨rest, written⟩ := h
  unfold Extends Emitter.patch
  rw [Array.toList_setIfInBounds, ← written, List.set_append_right _ _ (by simpa using behind)]
  exact List.prefix_append _ _

/-- The closing of a construct is emitted or left out, and neither touches the earlier code. -/
theorem close {α : Type} {visit : Visit σ α} {closing : Emitter σ → Emitter σ}
    (h : visit.emitter.Extends start) (closed : (closing visit.emitter).Extends start)
    : (visit.close closing).emitter.Extends start := by
  unfold Visit.close
  split
  · exact h
  · exact closed

end Emitter.Extends

/-- Calls leave what was emitted before as it is. -/
def Caller.Extends (call : Caller σ) : Prop :=
  ∀ ⦃emitter : Emitter σ⦄ ⦃name : String⦄ ⦃result : Visit σ Unit⦄,
    call emitter name = .ok result → result.emitter.Extends emitter

mutual

/-- A walk leaves what was emitted before as it is, also when it ends in an error: every slot it
patches it has emitted itself.
-/
theorem visit_extends {style : JumpStyle} {call : Caller σ} (calls : call.Extends)
    {emitter : Emitter σ} (s : Statement) {result : Visit σ Statement}
    (visited : visit style call emitter s = .ok result)
    : result.emitter.Extends emitter := by
  have slot : emitter.code.size ≤ emitter.slot := Nat.le_succ _
  have opened (op : Opcode) : (emitter.jump op 0).Extends emitter :=
    Emitter.Extends.jump (List.prefix_refl _) op 0
  cases s with
  | block children =>
      obtain ⟨inner, walked, rebuilt⟩ := bind_eq_ok_iff.mp visited
      obtain ⟨tree, _, rfl⟩ := Visit.rebuild_eq_ok_iff.mp rebuilt
      exact visitAll_extends calls children walked
  | ifThen condition body =>
      obtain ⟨inner, walked, rebuilt⟩ := bind_eq_ok_iff.mp visited
      obtain ⟨tree, _, rfl⟩ := Visit.rebuild_eq_ok_iff.mp rebuilt
      exact ((visit_extends calls body walked).trans (opened _)).patch slot
  | ifElse condition thenBody elseBody =>
      obtain ⟨first, walked, rest⟩ := bind_eq_ok_iff.mp visited
      have h : first.emitter.Extends emitter :=
        (visit_extends calls thenBody walked).trans (opened _)
      split at rest
      · obtain ⟨tree, _, rfl⟩ := Visit.rebuild_eq_ok_iff.mp rest
        exact h
      · cases style with
        | single =>
            obtain ⟨second, walkedElse, rebuilt⟩ := bind_eq_ok_iff.mp rest
            obtain ⟨tree, _, rfl⟩ := Visit.rebuild_eq_ok_iff.mp rebuilt
            have h' := (visit_extends calls elseBody walkedElse).trans (h.patch slot)
            exact h'.close (h'.patch slot)
        | structured =>
            obtain ⟨second, walkedElse, rebuilt⟩ := bind_eq_ok_iff.mp rest
            obtain ⟨tree, _, rfl⟩ := Visit.rebuild_eq_ok_iff.mp rebuilt
            have skip : emitter.code.size ≤ first.emitter.slot := Nat.le_succ_of_le h.size_le
            have h' :=
              (visit_extends calls elseBody walkedElse).trans ((h.jump .jump 0).patch slot)
            exact h'.close (h'.patch skip)
  | whileDo condition body =>
      obtain ⟨inner, walked, rebuilt⟩ := bind_eq_ok_iff.mp visited
      have h : inner.emitter.Extends emitter := (visit_extends calls body walked).trans (opened _)
      obtain ⟨tree, _, rfl⟩ := Visit.rebuild_eq_ok_iff.mp rebuilt
      apply h.close
      cases style with
      | single => exact h.patch slot
      | structured => exact (h.jump .jump emitter.here).patch slot
  | call name =>
      obtain ⟨inner, called, rebuilt⟩ := bind_eq_ok_iff.mp visited
      obtain ⟨tree, _, rfl⟩ := Visit.rebuild_eq_ok_iff.mp rebuilt
      exact calls called
termination_by sizeOf s

theorem visitAll_extends {style : JumpStyle} {call : Caller σ} (calls : call.Extends)
    {emitter : Emitter σ} (children : List Statement) {result : Visit σ (List Statement)}
    (visited : visitAll style call emitter children = .ok result)
    : result.emitter.Extends emitter := by
  cases children with
  | nil =>
      cases visited
      exact List.prefix_refl _
  | cons child rest =>
      obtain ⟨first, walked, remaining⟩ := bind_eq_ok_iff.mp visited
      obtain ⟨tree, _, remaining⟩ := bind_eq_ok_iff.mp remaining
      have h := visit_extends calls child walked
      split at remaining
      · obtain rfl := pure_eq_ok_iff.mp remaining
        exact h
      · obtain ⟨later, walkedRest, rebuilt⟩ := bind_eq_ok_iff.mp remaining
        obtain ⟨tree, _, rfl⟩ := Visit.rebuild_eq_ok_iff.mp rebuilt
        exact (visitAll_extends calls rest walkedRest).trans h
termination_by sizeOf children

end

theorem leaf_extends (emitter : Emitter σ) (name : String)
    : (leaf emitter name).emitter.Extends emitter := by
  have same : emitter.Extends emitter := List.prefix_refl _
  unfold leaf
  split
  · exact same
  · split
    · exact same.emit _
    · exact same

theorem expand_extends (style : JumpStyle) (depth : Nat)
    : (Context.store.expand style depth).Extends := by
  induction depth with
  | zero =>
      intro emitter name result called
      cases called
      exact leaf_extends emitter name
  | succ depth ih =>
      intro emitter name result called
      simp only [Store.expand] at called
      split at called
      · cases called
        exact leaf_extends emitter name
      · obtain ⟨inner, walked, made⟩ := bind_eq_ok_iff.mp called
        obtain rfl := pure_eq_ok_iff.mp made
        have inside := visit_extends ih _ walked
        exact inside

end Generator

-----------------------------------------------------------------------------------------
-- The generator lowers
-----------------------------------------------------------------------------------------

/-- The walk has written the lowered code of a statement behind what was there, or has ended in
the error of lowering it; what was there has not changed in either case.
-/
def Generator.Visit.Lowers (style : JumpStyle) (start : Emitter Context) (s : Statement)
    (result : Visit Context Statement)
    : Prop :=
  result.emitter.Extends start
  ∧ match s.lower style (start.context.lowerCall style start.expanding) start.code.size with
    | .ok code => result.fault = none ∧ result.emitter.code.toList = start.code.toList ++ code
    | .error cause => result.fault = some cause

theorem Generator.visit_lowers {style : JumpStyle} {emitter : Emitter Context} {s : Statement}
    {result : Visit Context Statement}
    (visited : visit style (Context.store.expand style emitter.context.size) emitter s = .ok result)
    : result.Lowers style emitter s := by
  refine ⟨visit_extends (expand_extends style _) s visited, ?_⟩
  have h := visit_follows (expand_realizes style _ emitter.expanding (Nat.le_refl _)) s visited
    rfl rfl
  rw [Statement.lower_eq (Context.lowerCall_eq style emitter.context emitter.expanding)]
  cases planned : Plan.ofStatement (Plan.resolve emitter.context emitter.expanding) s with
  | error cause => exact h.fails cause planned
  | ok plan => exact h.emits plan planned

theorem Program.lower_of_generated {style : JumpStyle} {program left : Program}
    {compiled : Compiled} (generated : program.generate style = (left, .generated compiled))
    : ∃ code,
        program.body.lower style (program.context.lowerCall style []) 0 = .ok code
        ∧ compiled = ⟨program.name, code ++ [Opcode.halt.code]⟩ := by
  obtain ⟨plan, found, rfl⟩ := Program.plan_of_generated generated
  refine ⟨plan.code style 0, ?_, rfl⟩
  unfold Program.plan at found
  rw [Statement.lower_eq (Context.lowerCall_eq style program.context []), found]
  rfl

/-- The generator lowers. Whatever was emitted before, is declared and is being expanded, the walk
over a shaped statement appends the lowered code or ends in the error of lowering, unless it
breaks a contract on a body that is reached and not shaped itself. So the code of a program is
that of its body, lowered, and a halt.
-/
theorem generator_lowers (style : JumpStyle)
    : (∀ (emitter : Emitter Context) (s : Statement),
        s.Shaped
        → (∃ result,
            visit style (Context.store.expand style emitter.context.size) emitter s = .ok result
            ∧ result.Lowers style emitter s)
          ∨ ∃ violation name body,
              visit style (Context.store.expand style emitter.context.size) emitter s
                = .error violation
              ∧ emitter.context.Reached s.calls name
              ∧ emitter.context.get? name = some body
              ∧ ¬ body.Shaped)
      ∧ ∀ (program left : Program) (compiled : Compiled),
          program.generate style = (left, .generated compiled)
          → ∃ code,
              program.body.lower style (program.context.lowerCall style []) 0 = .ok code
              ∧ compiled = ⟨program.name, code ++ [Opcode.halt.code]⟩ := by
  refine ⟨?_, fun _ _ _ => Program.lower_of_generated⟩
  intro emitter s shaped
  cases visited : visit style (Context.store.expand style emitter.context.size) emitter s with
  | ok result => exact .inl ⟨result, rfl, visit_lowers visited⟩
  | error violation =>
      -- A walk over shaped bodies only would have returned.
      have broken : ¬ ∀ reached body,
          emitter.context.Reached s.calls reached
          → emitter.context.get? reached = some body
          → body.Shaped := by
        intro declared
        obtain ⟨result, returned⟩ :=
          visit_expand_returns style emitter (Nat.le_refl _) shaped declared
        cases visited.symm.trans returned
      simp only [Classical.not_forall] at broken
      obtain ⟨name, body, reached, found, bent⟩ := broken
      exact .inr ⟨violation, name, body, rfl, reached, found, bent⟩

/-- A declaration with a block in a block. -/
def folded : Context := .ofList [("fold", .block [.block []])]

/-- A walk over a shaped statement that neither appends its lowered code nor ends in an error. -/
theorem generator_stops_at_folded
    : (Statement.block [.call "fold"]).Shaped
      ∧ Statement.lower .single (folded.lowerCall .single []) 0 (.block [.call "fold"]) = .ok []
      ∧ visit .single (Context.store.expand .single folded.size) ⟨#[], folded, []⟩
          (.block [.call "fold"])
        = .error .childIsBlock := by
  refine ⟨by decide, ?_, by rfl⟩
  have found : folded.get? "fold" = some (.block [.block []]) := by decide
  rw [Statement.lower_eq (Context.lowerCall_eq .single folded [])]
  simp [Plan.ofStatement, Plan.ofAll, Plan.resolve_declared found, Except.map, Plan.code, bind,
    Except.bind, pure, Except.pure]

/-- Two actions emitted, and a loop to be emitted while an instruction is being expanded. -/
def halfway : Emitter Context :=
  ⟨#[0, 4], .ofList [("around", .block [.call "turnleft", .call "turnleft"])], ["patrol"]⟩

theorem generator_lowers_halfway
    : (Statement.whileDo .always (.block [.call "around"])).Shaped
      ∧ ∃ result,
          visit .structured (Context.store.expand .structured 1) halfway
              (.whileDo .always (.block [.call "around"]))
            = .ok result
          ∧ result.Lowers .structured halfway (.whileDo .always (.block [.call "around"]))
          ∧ result.emitter.code.toList = [0, 4, 16, 8, 1, 1, 6, 2] := by
  have shaped : (Statement.whileDo .always (.block [.call "around"])).Shaped := by decide
  rcases (generator_lowers .structured).1 halfway _ shaped with lowered | broken
  · obtain ⟨result, returned, lowers⟩ := lowered
    refine ⟨shaped, result, returned, lowers, ?_⟩
    cases returned
    rfl
  · obtain ⟨violation, _, _, stopped, _⟩ := broken
    cases stopped

end AgentLang
