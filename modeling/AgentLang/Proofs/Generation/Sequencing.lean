import AgentLang.Proofs.Generation.Collapse

/-! Statements in sequence. Code is emitted with absolute targets behind whatever was emitted
before, and yet depends on where it starts by a uniform shift of its targets only. So the code of
a block is put together from the codes of its two parts, the second one relocated.
-/

namespace AgentLang

-----------------------------------------------------------------------------------------
-- Relocated code
-----------------------------------------------------------------------------------------

namespace Code

/-- Whether a word is the opcode of a jump, behind which a target stands. -/
def isJump (word : UInt32) : Bool := (Opcode.ofCode? word).any Opcode.takesTarget

/-- Adds a distance to every target, modulo 2^32. No other word changes. -/
def relocate (distance : Nat) : Code → Code
  | [] => []
  | word :: rest =>
      if isJump word then
        match rest with
        | [] => [word]
        | target :: rest => word :: (target + distance.toUInt32) :: relocate distance rest
      else
        word :: relocate distance rest

@[simp]
theorem isJump_code (op : Opcode) : isJump op.code = op.takesTarget := by
  simp [isJump]

/-- A piece of code is relocated to another one, whatever follows it. -/
def Relocates (distance : Nat) (code code' : Code) : Prop :=
  ∀ rest, relocate distance (code ++ rest) = code' ++ relocate distance rest

namespace Relocates

variable {distance : Nat} {code code' later later' : Code}

theorem nil : Relocates distance [] [] := fun _ => rfl

theorem append (h : Relocates distance code code') (h' : Relocates distance later later')
    : Relocates distance (code ++ later) (code' ++ later') := by
  intro rest
  rw [List.append_assoc, h, h', List.append_assoc]

theorem plain {op : Opcode} (plain : op.takesTarget = false)
    : Relocates distance [op.code] [op.code] := by
  intro rest
  rw [List.singleton_append, relocate.eq_def]
  simp [plain]

theorem jumpTo {op : Opcode} (takes : op.takesTarget = true) (target : Nat)
    : Relocates distance (Plan.jumpTo op target) (Plan.jumpTo op (target + distance)) := by
  intro rest
  simp [Plan.jumpTo, relocate, takes]

/-- A piece of code that nothing follows. -/
theorem relocate_eq (h : Relocates distance code code') : relocate distance code = code' := by
  have alone := h []
  simpa [relocate] using alone

end Relocates

end Code

/-- The code of a plan that starts further behind is relocated by the distance, by the constructs of
the plan.
-/
theorem Plan.relocates_code (style : JumpStyle) (distance offset : Nat) (plan : Plan)
    : Code.Relocates distance (plan.code style offset) (plan.code style (offset + distance)) := by
  have move (place more : Nat) : place + distance + more = place + more + distance :=
    Nat.add_right_comm place distance more
  induction plan generalizing offset with
  | done => exact .nil
  | act p => exact .plain rfl
  | seq first second ihFirst ihSecond =>
      simp only [code, move]
      exact (ihFirst offset).append (ihSecond _)
  | ifThen condition body ih =>
      simp only [code, move]
      exact (Code.Relocates.jumpTo rfl _).append (ih _)
  | ifElse condition thenPlan elsePlan ihThen ihElse =>
      cases style with
      | single =>
          simp only [code, move]
          exact ((Code.Relocates.jumpTo rfl _).append (ihThen _)).append (ihElse _)
      | structured =>
          simp only [code, move]
          exact (((Code.Relocates.jumpTo rfl _).append (ihThen _)).append (.jumpTo rfl _)).append
            (ihElse _)
  | whileDo condition body ih =>
      cases style with
      | single =>
          simp only [code, move]
          exact (Code.Relocates.jumpTo rfl _).append (ih _)
      | structured =>
          simp only [code, move]
          exact ((Code.Relocates.jumpTo rfl _).append (ih _)).append (.jumpTo rfl offset)

-----------------------------------------------------------------------------------------
-- Walks do not look at the code emitted before
-----------------------------------------------------------------------------------------

namespace Generator

variable {σ : Type}

/-- Two emitters agree in everything but the code. -/
structure Emitter.Aligned (left right : Emitter σ) : Prop where
  context : left.context = right.context
  expanding : left.expanding = right.expanding

namespace Emitter.Aligned

variable {left right : Emitter σ}

theorem emit (h : left.Aligned right) (op : Opcode) : (left.emit op).Aligned (right.emit op) :=
  ⟨h.context, h.expanding⟩

theorem jump (h : left.Aligned right) (op : Opcode) (target target' : UInt32)
    : (left.jump op target).Aligned (right.jump op target') :=
  ⟨h.context, h.expanding⟩

theorem patch (h : left.Aligned right) (slot slot' : Nat)
    : (left.patch slot).Aligned (right.patch slot') :=
  ⟨h.context, h.expanding⟩

theorem beginCall (h : left.Aligned right) (store : Store σ) (name : String)
    : (left.beginCall store name).Aligned (right.beginCall store name) :=
  ⟨congrArg (store.erase · name) h.context, congrArg (name :: ·) h.expanding⟩

theorem endCall (h : left.Aligned right) (store : Store σ) (name : String) (body : Statement)
    : (left.endCall store name body).Aligned (right.endCall store name body) :=
  ⟨congrArg (store.insert · name body) h.context, congrArg List.tail h.expanding⟩

theorem closeLoop (h : left.Aligned right) (style : JumpStyle) (head head' : UInt32)
    (slot slot' : Nat)
    : (closeLoop style head slot left).Aligned (closeLoop style head' slot' right) := by
  cases style with
  | single => exact h.patch slot slot'
  | structured => exact (h.jump .jump head head').patch slot slot'

end Emitter.Aligned

/-- Two walks take the same course: they break the same contract, or they hand back the same tree
with the same error and go on from emitters that agree in everything but the code.
-/
inductive InStep {α : Type} : Except Violation (Visit σ α) → Except Violation (Visit σ α) → Prop
  | broken (violation : Violation) : InStep (.error violation) (.error violation)
  | returned {left right : Emitter σ} (aligned : left.Aligned right) (tree : α)
    (fault : Option GenerateError)
    : InStep (.ok ⟨tree, left, fault⟩) (.ok ⟨tree, right, fault⟩)

namespace InStep

variable {α β : Type}

/-- Walks stay in step when what follows them does. -/
theorem bind {first first' : Except Violation (Visit σ α)}
    {next next' : Visit σ α → Except Violation (Visit σ β)} (h : InStep first first')
    (onward
      : ∀ ⦃left right : Emitter σ⦄ (tree : α) (fault : Option GenerateError),
          left.Aligned right → InStep (next ⟨tree, left, fault⟩) (next' ⟨tree, right, fault⟩))
    : InStep (first >>= next) (first' >>= next') := by
  cases h with
  | broken violation => exact .broken violation
  | returned aligned tree fault => exact onward tree fault aligned

theorem rebuild {left right : Emitter σ} (aligned : left.Aligned right) (tree : α)
    (fault : Option GenerateError) (assemble : α → Except Violation β)
    : InStep (Visit.rebuild ⟨tree, left, fault⟩ assemble)
        (Visit.rebuild ⟨tree, right, fault⟩ assemble) := by
  unfold Visit.rebuild
  cases assemble tree with
  | error violation => exact .broken violation
  | ok tree => exact .returned aligned tree fault

/-- A tree is put together behind the closing of a construct. -/
theorem rebuild_close {left right : Emitter σ} {closing closing' : Emitter σ → Emitter σ}
    (aligned : left.Aligned right) (closed : (closing left).Aligned (closing' right)) (tree : α)
    (fault : Option GenerateError) (assemble : α → Except Violation β)
    : InStep ((Visit.close ⟨tree, left, fault⟩ closing).rebuild assemble)
        ((Visit.close ⟨tree, right, fault⟩ closing').rebuild assemble) := by
  unfold Visit.close
  cases fault with
  | some cause => exact rebuild aligned tree (some cause) assemble
  | none => exact rebuild closed tree none assemble

theorem failure?_eq {left right : Except Violation (Visit σ α)} (h : InStep left right)
    : failure? left = failure? right := by
  cases h <;> rfl

end InStep

/-- Calls take the same course whatever was emitted before. -/
def Caller.Blind (call : Caller σ) : Prop :=
  ∀ ⦃left right : Emitter σ⦄ (name : String),
    left.Aligned right → InStep (call left name) (call right name)

mutual

/-- A walk takes the same course whatever was emitted before, by the constructs of the statement:
jumps and patches change nothing but the code.
-/
theorem visit_inStep (style : JumpStyle) {call : Caller σ} (calls : call.Blind) (s : Statement)
    {left right : Emitter σ} (aligned : left.Aligned right)
    : InStep (visit style call left s) (visit style call right s) := by
  cases s with
  | block children =>
      apply (visitAll_inStep _ calls children aligned).bind
      intro _ _ tree fault aligned
      exact .rebuild aligned tree fault _
  | ifThen condition body =>
      apply (visit_inStep _ calls body (aligned.jump (.jumpUnless condition) 0 0)).bind
      intro _ _ tree fault aligned
      exact .rebuild (aligned.patch _ _) tree fault _
  | ifElse condition thenBody elseBody =>
      apply (visit_inStep _ calls thenBody (aligned.jump (.jumpUnless condition) 0 0)).bind
      intro _ _ tree fault aligned
      dsimp only
      split
      · exact .rebuild aligned tree fault _
      · cases style with
        | single =>
            apply (visit_inStep _ calls elseBody (aligned.patch _ _)).bind
            intro _ _ tree fault aligned
            exact .rebuild_close aligned (aligned.patch _ _) tree fault _
        | structured =>
            apply (visit_inStep _ calls elseBody ((aligned.jump .jump 0 0).patch _ _)).bind
            intro _ _ tree fault aligned
            exact .rebuild_close aligned (aligned.patch _ _) tree fault _
  | whileDo condition body =>
      apply (visit_inStep _ calls body (aligned.jump (.jumpUnless condition) 0 0)).bind
      intro _ _ tree fault aligned
      exact .rebuild_close aligned (aligned.closeLoop style _ _ _ _) tree fault _
  | call name =>
      apply (calls name aligned).bind
      intro _ _ tree fault aligned
      exact .rebuild aligned tree fault _
termination_by sizeOf s

theorem visitAll_inStep (style : JumpStyle) {call : Caller σ} (calls : call.Blind)
    (children : List Statement) {left right : Emitter σ} (aligned : left.Aligned right)
    : InStep (visitAll style call left children) (visitAll style call right children) := by
  cases children with
  | nil => exact .returned aligned [] none
  | cons child rest =>
      apply (visit_inStep _ calls child aligned).bind
      intro _ _ tree fault aligned
      dsimp only
      cases tree.asChild with
      | error violation => exact .broken violation
      | ok kept =>
          dsimp only [Except.bind, Bind.bind]
          split
          · exact .returned aligned _ fault
          · apply (visitAll_inStep _ calls rest aligned).bind
            intro _ _ tree fault aligned
            exact .rebuild aligned tree fault _
termination_by sizeOf children

end

theorem leaf_inStep {left right : Emitter σ} (aligned : left.Aligned right) (name : String)
    : InStep (.ok (leaf left name)) (.ok (leaf right name)) := by
  unfold leaf
  rw [aligned.expanding]
  split
  · exact .returned aligned () _
  · split
    · exact .returned (aligned.emit _) () none
    · exact .returned aligned () _

theorem expand_blind (store : Store σ) (style : JumpStyle) (depth : Nat)
    : (store.expand style depth).Blind := by
  induction depth with
  | zero => exact fun _ _ name aligned => leaf_inStep aligned name
  | succ depth ih =>
      intro left right name aligned
      simp only [Store.expand, aligned.context]
      split
      · exact leaf_inStep aligned name
      · rename_i body _
        apply (visit_inStep style ih body (aligned.beginCall store name)).bind
        intro _ _ tree fault aligned
        exact .returned (aligned.endCall store name tree) () fault

/-- What is left to do of a list when its first part is walked: the second part, from where the
first one ended, unless that has an error.
-/
def Visit.goOn (style : JumpStyle) (call : Caller σ) (second : List Statement)
    (done : Visit σ (List Statement))
    : Except Violation (Visit σ (List Statement)) :=
  if done.fault.isSome then
    .ok { done with tree := done.tree ++ second }
  else do
    (← visitAll style call done.emitter second).rebuild fun later => return done.tree ++ later

/-- A child in front of the first part is handed back in front of all. -/
theorem Visit.goOn_cons (style : JumpStyle) (call : Caller σ) (second : List Statement)
    (child : Statement) (done : Visit σ (List Statement))
    : (done.goOn style call second >>= fun all => all.rebuild fun rest => return child :: rest)
      = goOn style call second { done with tree := child :: done.tree } := by
  unfold goOn
  cases done.fault with
  | some cause => rfl
  | none =>
      simp only [Option.isSome_none, Bool.false_eq_true, if_false]
      cases visitAll style call done.emitter second <;> rfl

theorem visitAll_append (style : JumpStyle) (call : Caller σ) (emitter : Emitter σ)
    (first second : List Statement)
    : visitAll style call emitter (first ++ second)
      = visitAll style call emitter first >>= Visit.goOn style call second := by
  induction first generalizing emitter with
  | nil =>
      simp only [List.nil_append, visitAll, Visit.goOn, bind, Except.bind]
      cases visitAll style call emitter second <;> rfl
  | cons child rest ih =>
      simp only [List.cons_append, visitAll, bind, Except.bind]
      cases visit style call emitter child with
      | error violation => rfl
      | ok done =>
          cases kept : done.tree.asChild with
          | error violation => simp only [kept]
          | ok tree =>
              cases fault : done.fault with
              | some cause => simp [kept, fault, Visit.goOn, pure, Except.pure]
              | none =>
                  simp only [kept, fault, ih, Option.isSome_none, Bool.false_eq_true, if_false]
                  cases visitAll style call done.emitter rest with
                  | error violation => rfl
                  | ok later => exact later.goOn_cons style call second tree

/-- The walk over statements in sequence, with nothing emitted before. -/
def walkAll (style : JumpStyle) (context : Context) (statements : List Statement)
    : Except Violation (Visit Context (List Statement)) :=
  visitAll style (Context.store.expand style context.size) (.start context) statements

theorem walkAll_follows {style : JumpStyle} {context : Context} {statements : List Statement}
    {result : Visit Context (List Statement)}
    (walked : walkAll style context statements = .ok result)
    : result.Follows style (.start context) statements
        (Plan.ofAll (Plan.resolve context []) statements) :=
  visitAll_follows (expand_realizes style context.size [] (Nat.le_refl _)) statements walked rfl rfl

section

variable {style : JumpStyle} {context : Context} {first : List Statement}

/-- A contract broken in the first part is broken in the whole. -/
theorem walkAll_append_of_broken {violation : Violation}
    (broken : walkAll style context first = .error violation) (second : List Statement)
    : walkAll style context (first ++ second) = .error violation := by
  unfold walkAll at broken ⊢
  rw [visitAll_append, broken]
  rfl

/-- Behind an error in the first part no contract is broken any more. -/
theorem walkAll_append_of_failed {result : Visit Context (List Statement)} {cause : GenerateError}
    (walked : walkAll style context first = .ok result)
    (failed : Plan.ofAll (Plan.resolve context []) first = .error cause)
    (second : List Statement)
    : failure? (walkAll style context (first ++ second)) = none := by
  have fault := (walkAll_follows walked).fails cause failed
  unfold walkAll at walked ⊢
  rw [visitAll_append, walked]
  simp [bind, Except.bind, Visit.goOn, fault, failure?]

/-- Behind a first part without an error a contract is broken where it is broken in the second part
alone, for the declarations are as they were before.
-/
theorem failure?_walkAll_append {result : Visit Context (List Statement)} {plan : Plan}
    (walked : walkAll style context first = .ok result)
    (found : Plan.ofAll (Plan.resolve context []) first = .ok plan) (second : List Statement)
    : failure? (walkAll style context (first ++ second))
      = failure? (walkAll style context second) := by
  have follows := walkAll_follows walked
  have fine := (follows.emits plan found).1
  have aligned : result.emitter.Aligned (.start context) := ⟨follows.context, follows.expanding⟩
  have blind := expand_blind Context.store style context.size
  have course := visitAll_inStep style blind second aligned
  unfold walkAll at walked ⊢
  rw [visitAll_append, walked, ← course.failure?_eq]
  simp only [bind, Except.bind, Visit.goOn, fine]
  cases visitAll style (Context.store.expand style context.size) result.emitter second <;> rfl

end

end Generator

-----------------------------------------------------------------------------------------
-- Whole programs
-----------------------------------------------------------------------------------------

namespace Plan

theorem Alike.eq_error {planned : Except GenerateError Plan} {cause : GenerateError}
    (h : Alike planned (.error cause))
    : planned = .error cause := by
  cases h
  rfl

theorem Alike.exists_ok {planned : Except GenerateError Plan} {plan : Plan}
    (h : Alike planned (.ok plan))
    : ∃ own, planned = .ok own ∧ ∀ style, own.SameCode style plan := by
  cases h with
  | planned same => exact ⟨_, rfl, same⟩

end Plan

namespace Program

open Generator

section

variable {style : JumpStyle} {program : Program} {statements : List Statement}

theorem plan_of_block (block : program.body = .block statements)
    : program.plan = Plan.ofAll (Plan.resolve program.context []) statements := by
  rw [plan, block]
  rfl

/-- A walk over the statements that breaks no contract ends in the outcome that was planned. -/
theorem generate_of_walkAll (block : program.body = .block statements)
    (fine : failure? (walkAll style program.context statements) = none)
    : program.generate style = (program, program.planned style) := by
  obtain ⟨result, walked⟩ := failure?_eq_none_iff.mp fine
  have whole : program.walk style = .ok ⟨.block result.tree, result.emitter, result.fault⟩ := by
    rw [walk, block]
    exact bind_eq_ok_iff.mpr ⟨result, walked, rfl⟩
  exact generate_of_walk whole (by rw [block]; rfl)

theorem broken_of_walkAll (block : program.body = .block statements) {violation : Violation}
    (broken : failure? (walkAll style program.context statements) = some violation)
    : (program.generate style).2 = .broken violation := by
  have whole : program.walk style = .error violation := by
    rw [walk, block]
    exact bind_eq_error_iff.mpr (.inl (failure?_eq_some_iff.mp broken))
  rw [generate_of_violation whole]

/-- What the outcome says of the walk over the statements and of their plan. -/
theorem walkAll_of_generated (block : program.body = .block statements) {compiled : Compiled}
    (generated : (program.generate style).2 = .generated compiled)
    : ∃ result plan,
        walkAll style program.context statements = .ok result
        ∧ Plan.ofAll (Plan.resolve program.context []) statements = .ok plan
        ∧ compiled = ⟨program.name, plan.code style 0 ++ [Opcode.halt.code]⟩ := by
  cases walked : walkAll style program.context statements with
  | error violation =>
      cases generated.symm.trans (broken_of_walkAll block (failure?_eq_some_iff.mpr walked))
  | ok result =>
      rw [generate_of_walkAll block (failure?_eq_none_iff.mpr ⟨result, walked⟩)] at generated
      obtain ⟨plan, found, same⟩ := planned_eq_generated_iff.mp generated
      exact ⟨result, plan, rfl, plan_of_block block ▸ found, same⟩

theorem walkAll_of_failed (block : program.body = .block statements) {cause : GenerateError}
    (failed : (program.generate style).2 = .failed cause)
    : (∃ result, walkAll style program.context statements = .ok result)
      ∧ Plan.ofAll (Plan.resolve program.context []) statements = .error cause := by
  cases walked : walkAll style program.context statements with
  | error violation =>
      cases failed.symm.trans (broken_of_walkAll block (failure?_eq_some_iff.mpr walked))
  | ok result =>
      rw [generate_of_walkAll block (failure?_eq_none_iff.mpr ⟨result, walked⟩)] at failed
      exact ⟨⟨result, rfl⟩, plan_of_block block ▸ planned_eq_failed_iff.mp failed⟩

theorem walkAll_of_broken (block : program.body = .block statements) {violation : Violation}
    (broken : (program.generate style).2 = .broken violation)
    : walkAll style program.context statements = .error violation := by
  cases walked : walkAll style program.context statements with
  | error other =>
      cases broken.symm.trans (broken_of_walkAll block (failure?_eq_some_iff.mpr walked))
      rfl
  | ok result =>
      rw [generate_of_walkAll block (failure?_eq_none_iff.mpr ⟨result, walked⟩)] at broken
      exact (planned_ne_broken style program violation broken).elim

end

/-- A program whose body is the statements of two others, one behind the other. All three have the
same declarations, whatever these are.
-/
structure Sequenced (left right both : Program) (first second : List Statement) : Prop where
  leftBody : left.body = .block first
  rightBody : right.body = .block second
  bothBody : both.body = .block (first ++ second)
  rightContext : right.context = left.context
  bothContext : both.context = left.context

namespace Sequenced

variable {style : JumpStyle} {left right both : Program} {first second : List Statement}

/-- The plan of both comes to the plans of the parts in sequence. -/
theorem alike (h : Sequenced left right both first second)
    : Plan.Alike both.plan (do
        let plan ← left.plan
        return .seq plan (← right.plan)) := by
  rw [plan_of_block h.bothBody, plan_of_block h.leftBody, plan_of_block h.rightBody,
    h.bothContext, h.rightContext]
  exact .ofAll_append _ first second

/-- An error in the plan of the first part is the outcome of all. -/
theorem generate_of_failed_left (h : Sequenced left right both first second)
    {cause : GenerateError} (failed : (left.generate style).2 = .failed cause)
    : both.generate style = (both, .failed cause) := by
  obtain ⟨⟨result, walked⟩, planned⟩ := walkAll_of_failed h.leftBody failed
  have fine : failure? (walkAll style both.context (first ++ second)) = none := by
    rw [h.bothContext]
    exact walkAll_append_of_failed walked planned second
  have alike := h.alike
  rw [plan_of_block h.leftBody, planned] at alike
  rw [generate_of_walkAll h.bothBody fine, planned_eq_failed_iff.mpr alike.eq_error]

/-- Behind a first part with code, contracts are broken where the second part alone breaks them. -/
theorem failure?_walkAll (h : Sequenced left right both first second) {compiled : Compiled}
    (generated : (left.generate style).2 = .generated compiled)
    : failure? (walkAll style both.context (first ++ second))
      = failure? (walkAll style right.context second) := by
  obtain ⟨result, plan, walked, found, _⟩ := walkAll_of_generated h.leftBody generated
  rw [h.bothContext, h.rightContext, failure?_walkAll_append walked found]

theorem generate_of_failed_right (h : Sequenced left right both first second)
    {compiled : Compiled} {cause : GenerateError}
    (generated : (left.generate style).2 = .generated compiled)
    (failed : (right.generate style).2 = .failed cause)
    : both.generate style = (both, .failed cause) := by
  obtain ⟨_, plan, _, found, _⟩ := walkAll_of_generated h.leftBody generated
  obtain ⟨returned, planned⟩ := walkAll_of_failed h.rightBody failed
  have fine := (h.failure?_walkAll generated).trans (failure?_eq_none_iff.mpr returned)
  have alike := h.alike
  rw [plan_of_block h.leftBody, plan_of_block h.rightBody, found, planned] at alike
  rw [generate_of_walkAll h.bothBody fine, planned_eq_failed_iff.mpr alike.eq_error]

/-- Two parts with code: the second code is the one that its plan has at offset zero, relocated to
the end of the first.
-/
theorem generate_of_generated (h : Sequenced left right both first second)
    {compiled compiled' : Compiled} (generated : (left.generate style).2 = .generated compiled)
    (generated' : (right.generate style).2 = .generated compiled')
    : ∃ code code',
        compiled.code = code ++ [Opcode.halt.code]
        ∧ compiled'.code = code' ++ [Opcode.halt.code]
        ∧ both.generate style
          = (
            both,
            .generated ⟨both.name, code ++ Code.relocate code.length code' ++ [Opcode.halt.code]⟩
          ) := by
  obtain ⟨_, plan, _, found, rfl⟩ := walkAll_of_generated h.leftBody generated
  obtain ⟨result, plan', walked, found', rfl⟩ := walkAll_of_generated h.rightBody generated'
  have fine := (h.failure?_walkAll generated).trans (failure?_eq_none_iff.mpr ⟨result, walked⟩)
  have alike := h.alike
  rw [plan_of_block h.leftBody, plan_of_block h.rightBody, found, found'] at alike
  obtain ⟨own, foundBoth, same⟩ := alike.exists_ok
  have relocated := (plan'.relocates_code style (plan.size style) 0).relocate_eq
  refine ⟨plan.code style 0, plan'.code style 0, rfl, rfl, ?_⟩
  rw [generate_of_walkAll h.bothBody fine, planned_eq_generated_iff.mpr ⟨own, foundBoth, rfl⟩,
    same style 0, Plan.length_code, relocated]
  rfl

/-- A contract that the first part breaks is broken in all. -/
theorem broken_of_left (h : Sequenced left right both first second) {violation : Violation}
    (broken : (left.generate style).2 = .broken violation)
    : (both.generate style).2 = .broken violation := by
  have walked := walkAll_append_of_broken (walkAll_of_broken h.leftBody broken) second
  rw [← h.bothContext] at walked
  exact broken_of_walkAll h.bothBody (failure?_eq_some_iff.mpr walked)

theorem broken_of_right (h : Sequenced left right both first second) {compiled : Compiled}
    {violation : Violation} (generated : (left.generate style).2 = .generated compiled)
    (broken : (right.generate style).2 = .broken violation)
    : (both.generate style).2 = .broken violation := by
  have walked := failure?_eq_some_iff.mpr (walkAll_of_broken h.rightBody broken)
  exact broken_of_walkAll h.bothBody ((h.failure?_walkAll generated).trans walked)

end Sequenced

/-- The code of statements in sequence is the code of the first ones and, behind it, that of the
second ones relocated by its length. An error in the first ones is the error of all, and so is one
in the second ones behind first ones without; the same holds of broken contracts.
-/
theorem sequence_relocates_second (style : JumpStyle) {left right both : Program}
    {first second : List Statement} (sequenced : Sequenced left right both first second)
    : (∀ compiled compiled',
        (left.generate style).2 = .generated compiled
        → (right.generate style).2 = .generated compiled'
        → ∃ code code',
            compiled.code = code ++ [Opcode.halt.code]
            ∧ compiled'.code = code' ++ [Opcode.halt.code]
            ∧ both.generate style
              = (
                both,
                .generated
                  ⟨both.name, code ++ Code.relocate code.length code' ++ [Opcode.halt.code]⟩
              ))
      ∧ (∀ cause,
          (left.generate style).2 = .failed cause → both.generate style = (both, .failed cause))
      ∧ (∀ compiled cause,
          (left.generate style).2 = .generated compiled
          → (right.generate style).2 = .failed cause
          → both.generate style = (both, .failed cause))
      ∧ (∀ violation,
          (left.generate style).2 = .broken violation
          → (both.generate style).2 = .broken violation)
      ∧ ∀ compiled violation,
          (left.generate style).2 = .generated compiled
          → (right.generate style).2 = .broken violation
          → (both.generate style).2 = .broken violation := by
  refine ⟨?_, ?_, ?_, ?_, ?_⟩
  · intro _ _ generated generated'
    exact sequenced.generate_of_generated generated generated'
  · intro _ failed
    exact sequenced.generate_of_failed_left failed
  · intro _ _ generated failed
    exact sequenced.generate_of_failed_right generated failed
  · intro _ broken
    exact sequenced.broken_of_left broken
  · intro _ _ generated broken
    exact sequenced.broken_of_right generated broken

/-- An instruction that both parts of a raid call, the first one in a loop. -/
def raiding : Context :=
  .ofList [("step", .block [.ifThen .nextIsEmpty (.block [.call "move"])])]

def approach : List Statement := [.whileDo .nextIsNotWall (.block [.call "step"])]

def strike : List Statement :=
  [.ifElse .nextIsEnemy (.block [.call "infect"]) (.block [.call "step"])]

theorem sequence_relocates_second_raid
    : generate .structured ⟨"Approach", raiding, .block approach⟩
        = (
          ⟨"Approach", raiding, .block approach⟩,
          .generated ⟨"Approach", [10, 7, 7, 5, 0, 6, 0, 5]⟩
        )
      ∧ generate .structured ⟨"Strike", raiding, .block strike⟩
        = (
          ⟨"Strike", raiding, .block strike⟩,
          .generated ⟨"Strike", [13, 5, 3, 6, 8, 7, 8, 0, 5]⟩
        )
      ∧ generate .structured ⟨"Raid", raiding, .block (approach ++ strike)⟩
        = (
          ⟨"Raid", raiding, .block (approach ++ strike)⟩,
          .generated ⟨"Raid", [10, 7, 7, 5, 0, 6, 0, 13, 12, 3, 6, 15, 7, 15, 0, 5]⟩
        ) := by
  have generated : generate .structured ⟨"Approach", raiding, .block approach⟩
      = (
        ⟨"Approach", raiding, .block approach⟩,
        .generated ⟨"Approach", [10, 7, 7, 5, 0, 6, 0, 5]⟩
      ) := by
    decide
  have generated' : generate .structured ⟨"Strike", raiding, .block strike⟩
      = (
        ⟨"Strike", raiding, .block strike⟩,
        .generated ⟨"Strike", [13, 5, 3, 6, 8, 7, 8, 0, 5]⟩
      ) := by
    decide
  have sequenced : Sequenced ⟨"Approach", raiding, .block approach⟩
      ⟨"Strike", raiding, .block strike⟩ ⟨"Raid", raiding, .block (approach ++ strike)⟩ approach
      strike :=
    ⟨rfl, rfl, rfl, rfl, rfl⟩
  obtain ⟨code, code', same, same', both⟩ :=
    (sequence_relocates_second .structured sequenced).1 _ _ (congrArg Prod.snd generated)
      (congrArg Prod.snd generated')
  have halted : [10, 7, 7, 5, 0, 6, 0, 5] = [10, 7, 7, 5, 0, 6, 0] ++ [Opcode.halt.code] := rfl
  have halted' : [13, 5, 3, 6, 8, 7, 8, 0, 5] = [13, 5, 3, 6, 8, 7, 8, 0] ++ [Opcode.halt.code] :=
    rfl
  obtain rfl := List.append_cancel_right (halted.symm.trans same)
  obtain rfl := List.append_cancel_right (halted'.symm.trans same')
  exact ⟨generated, generated', both⟩

end Program

end AgentLang
