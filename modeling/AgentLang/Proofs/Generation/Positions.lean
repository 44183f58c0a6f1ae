import AgentLang.Proofs.Generation.Lowering

/-! The walk by positions. Every statement is taken apart and put together by the operations that
have contracts: the children of a block one by one, each taken out at its position and put back
there, the other constructs by their kind. A slot is patched only if it is in the code. There is
one such walk, and it is that of the generator: no position, kind or slot is ever a wrong one.
-/

namespace AgentLang

namespace Statement

/-- The statements directly inside another. -/
def parts : Statement → List Statement
  | block children => children
  | ifThen _ body => [body]
  | ifElse _ thenBody elseBody => [thenBody, elseBody]
  | whileDo _ body => [body]
  | call _ => []

theorem sizeOf_lt_of_mem_parts {part s : Statement} (inside : part ∈ s.parts)
    : sizeOf part < sizeOf s := by
  cases s with
  | block children =>
      have : sizeOf part < sizeOf children := List.sizeOf_lt_of_mem inside
      simp only [block.sizeOf_spec]
      omega
  | ifThen condition body =>
      obtain rfl := List.mem_singleton.mp inside
      simp only [ifThen.sizeOf_spec]
      omega
  | ifElse condition thenBody elseBody =>
      simp only [ifElse.sizeOf_spec]
      rcases List.mem_cons.mp inside with rfl | inside
      · omega
      · obtain rfl := List.mem_singleton.mp inside
        omega
  | whileDo condition body =>
      obtain rfl := List.mem_singleton.mp inside
      simp only [whileDo.sizeOf_spec]
      omega
  | call name => exact (List.not_mem_nil inside).elim

end Statement

namespace Generator

/-- Why a walk by positions stops. -/
inductive Stop where
  | broken (violation : Violation)
  /-- The slot to be patched is not in the code. -/
  | slotOutside
  deriving DecidableEq, Repr

namespace Positions

-----------------------------------------------------------------------------------------
-- The walk
-----------------------------------------------------------------------------------------

abbrev Walk := Emitter Context → Statement → Except Stop (Visit Context Statement)

/-- An operation under its contract. -/
def contract {α : Type} (result : Except Violation α) : Except Stop α :=
  result.mapError .broken

def patch (emitter : Emitter Context) (slot : Nat) : Except Stop (Emitter Context) :=
  if slot < emitter.code.size then .ok (emitter.patch slot) else .error .slotOutside

/-- Patches a slot unless there was an error. -/
def patchFine (visit : Visit Context Statement) (slot : Nat)
    : Except Stop (Visit Context Statement) :=
  if visit.fault.isSome then
    return visit
  else do
    return ⟨visit.tree, ← patch visit.emitter slot, visit.fault⟩

/-- Walks as many children of a block as are left, from a position on. The block is without the
child while that is walked.
-/
def children (walk : Walk)
    : (left position : Nat) → Emitter Context → Statement → Except Stop (Visit Context Statement)
  | 0, _, emitter, s => return ⟨s, emitter, none⟩
  | left + 1, position, emitter, s => do
      let (child, others) ← contract (s.removeAt position)
      let inner ← walk emitter child
      let s ← contract (others.insertAt position inner.tree)
      if inner.fault.isSome then
        return ⟨s, inner.emitter, inner.fault⟩
      else
        children walk left (position + 1) inner.emitter s

/-- Walks the second body of a choice and patches a slot behind it. -/
def secondBody (walk : Walk) (thenBody elseBody : Statement) (slot : Nat)
    (emitter : Emitter Context)
    : Except Stop (Visit Context (Statement × Statement)) := do
  let second ← patchFine (← walk emitter elseBody) slot
  return ⟨(thenBody, second.tree), second.emitter, second.fault⟩

/-- Walks both bodies of a choice. -/
def bothBodies (style : JumpStyle) (walk : Walk) (condition : Condition)
    (thenBody elseBody : Statement) (emitter : Emitter Context)
    : Except Stop (Visit Context (Statement × Statement)) := do
  let slot := emitter.slot
  let first ← walk (emitter.jump (.jumpUnless condition) 0) thenBody
  if first.fault.isSome then
    return ⟨(first.tree, elseBody), first.emitter, first.fault⟩
  else
    match style with
    | .single => secondBody walk first.tree elseBody slot (← patch first.emitter slot)
    | .structured =>
        let skip := first.emitter.slot
        secondBody walk first.tree elseBody skip (← patch (first.emitter.jump .jump 0) slot)

/-- Emits what a loop has behind its body, unless there was an error. -/
def endLoop (style : JumpStyle) (head : UInt32) (slot : Nat) (inner : Visit Context Statement)
    : Except Stop (Visit Context Statement) :=
  if inner.fault.isSome then
    return inner
  else do
    match style with
    | .single => return ⟨inner.tree, ← patch inner.emitter slot, inner.fault⟩
    | .structured =>
        return ⟨inner.tree, ← patch (inner.emitter.jump .jump head) slot, inner.fault⟩

/-- Resolves a call. A declared body is walked with its name taken out of the context. -/
def call (walk : Walk) (emitter : Emitter Context) (name : String)
    : Except Stop (Visit Context Unit) :=
  match emitter.context.get? name with
  | none => return leaf emitter name
  | some body => do
      let inner ← walk (emitter.beginCall Context.store name) body
      return ⟨(), inner.emitter.endCall Context.store name inner.tree, inner.fault⟩

/-- Walks a statement, by how those inside it are walked. -/
def statement (style : JumpStyle) (walk : Walk) (emitter : Emitter Context) (s : Statement)
    : Except Stop (Visit Context Statement) :=
  match s.kind with
  | .block => do
      let length ← contract s.length
      children walk length 0 emitter s
  | .ifThen => do
      let (condition, body) ← contract s.disassembleIf
      let inner ← walk (emitter.jump (.jumpUnless condition) 0) body
      let patched ← patch inner.emitter emitter.slot
      return ⟨← contract (Statement.assembleIf condition inner.tree), patched, inner.fault⟩
  | .ifElse => do
      let (condition, thenBody, elseBody) ← contract s.disassembleIfElse
      let inner ← bothBodies style walk condition thenBody elseBody emitter
      let s ← contract (Statement.assembleIfElse condition inner.tree.1 inner.tree.2)
      return ⟨s, inner.emitter, inner.fault⟩
  | .whileDo => do
      let (condition, body) ← contract s.disassembleWhile
      let inner ← walk (emitter.jump (.jumpUnless condition) 0) body
      let inner ← endLoop style emitter.here emitter.slot inner
      let s ← contract (Statement.assembleWhile condition inner.tree)
      return ⟨s, inner.emitter, inner.fault⟩
  | .call => do
      let name ← contract s.disassembleCall
      let inner ← call walk emitter name
      return ⟨← contract (Statement.assembleCall name), inner.emitter, inner.fault⟩

-----------------------------------------------------------------------------------------
-- Operations under contracts
-----------------------------------------------------------------------------------------

section

variable {α β : Type}

theorem contract_bind (first : Except Violation α) (next : α → Except Violation β)
    : contract (first >>= next) = contract first >>= fun value => contract (next value) := by
  cases first <;> rfl

/-- Behind an operation that keeps its contract. -/
theorem contract_ok_bind (value : α) (next : α → Except Stop β)
    : contract (.ok value) >>= next = next value := rfl

theorem contract_eq_ok_iff {result : Except Violation α} {value : α}
    : contract result = .ok value ↔ result = .ok value := by
  constructor
  · intro kept
    cases result with
    | ok returned => exact congrArg Except.ok (Except.ok.inj kept)
    | error violation => cases kept
  · rintro rfl
    rfl

theorem contract_rebuild (visit : Visit Context α) (assemble : α → Except Violation β)
    : contract (visit.rebuild assemble)
      = contract (assemble visit.tree) >>= fun tree => pure ⟨tree, visit.emitter, visit.fault⟩ := by
  unfold Visit.rebuild
  rw [contract_bind]
  rfl

theorem patch_of_lt {emitter : Emitter Context} {slot : Nat} (inside : slot < emitter.code.size)
    : patch emitter slot = pure (emitter.patch slot) :=
  if_pos inside

theorem patchFine_of_lt {visit : Visit Context Statement} {slot : Nat}
    (inside : slot < visit.emitter.code.size)
    : patchFine visit slot = pure (visit.close (·.patch slot)) := by
  unfold patchFine Visit.close
  split
  · rfl
  · rw [patch_of_lt inside]
    rfl

theorem endLoop_of_lt {style : JumpStyle} {head : UInt32} {slot : Nat}
    {inner : Visit Context Statement} (inside : slot < inner.emitter.code.size)
    : endLoop style head slot inner = pure (inner.close (closeLoop style head slot)) := by
  unfold endLoop Visit.close
  split
  · rfl
  · cases style with
    | single =>
        simp only [patch_of_lt inside]
        rfl
    | structured =>
        have behind : slot < (inner.emitter.jump .jump head).code.size := by
          rw [Emitter.size_jump]
          omega
        simp only [patch_of_lt behind]
        rfl

end

/-- A child is taken out at its position. -/
theorem removeAt_between (done rest : List Statement) (child : Statement)
    : (Statement.block (done ++ child :: rest)).removeAt done.length
      = .ok (child, .block (done ++ rest)) := by
  refine Statement.removeAt_eq_ok_iff.mpr ⟨_, rest, rfl, ?_, ?_⟩
  · simp
  · simp

/-- A child is put back at its position unless it is a block. -/
theorem insertAt_between (done rest : List Statement) (child : Statement)
    : (Statement.block (done ++ rest)).insertAt done.length child
      = child.asChild >>= fun child => pure (.block (done ++ child :: rest)) := by
  unfold Statement.insertAt
  apply bind_congr_of_ok
  intro kept _
  simp [Statement.children, bind, Except.bind]

end Positions

/-- The walk treats every statement by positions, also those inside others. -/
def ByPositions (style : JumpStyle) (walk : Positions.Walk) : Prop :=
  ∀ emitter s, walk emitter s = Positions.statement style walk emitter s

namespace Positions

/-- The walk of the generator, with as much depth as there are declarations. -/
def generator (style : JumpStyle) : Walk := fun emitter s =>
  contract (visit style (Context.store.expand style emitter.context.size) emitter s)

section

variable {style : JumpStyle} {depth : Nat} {emitter : Emitter Context}

theorem visit_context (enough : emitter.context.size ≤ depth) {s : Statement}
    {result : Visit Context Statement}
    (visited : visit style (Context.store.expand style depth) emitter s = .ok result)
    : result.emitter.context = emitter.context :=
  (visit_follows (expand_realizes style depth emitter.expanding enough) s visited rfl rfl).context

theorem visit_size {s : Statement} {result : Visit Context Statement}
    (visited : visit style (Context.store.expand style depth) emitter s = .ok result)
    : emitter.code.size ≤ result.emitter.code.size :=
  (visit_extends (expand_extends style depth) s visited).size_le

/-- The slot of a jump in front of a walked body is in the code. -/
theorem slot_lt {op : Opcode} {s : Statement} {result : Visit Context Statement}
    (visited
      : visit style (Context.store.expand style depth) (emitter.jump op 0) s = .ok result)
    : emitter.slot < result.emitter.code.size := by
  have longer := visit_size visited
  rw [Emitter.size_jump] at longer
  unfold Emitter.slot
  omega

/-- One child by its position, with those in front of it walked already. -/
theorem children_succ (walk : Walk) (left : Nat) (emitter : Emitter Context)
    (done rest : List Statement) (child : Statement)
    : children walk (left + 1) done.length emitter (.block (done ++ child :: rest))
      = walk emitter child >>= fun inner =>
        contract inner.tree.asChild >>= fun kept =>
        if inner.fault.isSome then
          pure ⟨.block (done ++ kept :: rest), inner.emitter, inner.fault⟩
        else
          children walk left (done.length + 1) inner.emitter (.block (done ++ kept :: rest)) := by
  rw [children, removeAt_between, contract_ok_bind]
  apply bind_congr
  intro inner
  rw [insertAt_between, contract_bind, bind_assoc]
  rfl

/-- The children of a block by positions are walked as the generator does, by induction on those
that are left.
-/
theorem children_eq {walk : Walk} {context : Context} (enough : context.size ≤ depth)
    (later : List Statement)
    (agrees
      : ∀ child ∈ later,
          ∀ emitter : Emitter Context,
            emitter.context = context
            → walk emitter child
              = contract (visit style (Context.store.expand style depth) emitter child))
    (done : List Statement) (same : emitter.context = context)
    : children walk later.length done.length emitter (.block (done ++ later))
      = contract (visitAll style (Context.store.expand style depth) emitter later)
        >>= fun inner => pure ⟨.block (done ++ inner.tree), inner.emitter, inner.fault⟩ := by
  induction later generalizing emitter done with
  | nil => rfl
  | cons child rest ih =>
      obtain ⟨first, others⟩ := List.forall_mem_cons.mp agrees
      rw [List.length_cons, children_succ, first emitter same, visitAll, contract_bind, bind_assoc]
      apply bind_congr_of_ok
      intro inner walked
      rw [contract_bind, bind_assoc]
      apply bind_congr_of_ok
      intro kept _
      split
      · rfl
      · have context' : inner.emitter.context = context :=
          (visit_context (same ▸ enough) (contract_eq_ok_iff.mp walked)).trans same
        have rest' := ih others (done ++ [kept]) context'
        simp only [List.length_append, List.length_singleton, List.append_assoc,
          List.singleton_append] at rest'
        rw [rest', contract_bind, bind_assoc]
        rfl

/-- A walk agrees with the generator on what is inside a statement: on its parts, and on the body
of the instruction that it calls.
-/
structure AgreesInside (style : JumpStyle) (walk : Walk) (emitter : Emitter Context)
    (s : Statement)
    : Prop where
  parts
    : ∀ part ∈ s.parts,
        ∀ inner : Emitter Context,
          inner.context = emitter.context → walk inner part = generator style inner part
  body
    : ∀ name body,
        s = .call name
        → emitter.context.get? name = some body
        → walk (emitter.beginCall Context.store name) body
          = generator style (emitter.beginCall Context.store name) body

end

namespace AgreesInside

variable {style : JumpStyle} {walk : Walk} {emitter : Emitter Context}

theorem ifThen {condition : Condition} {body : Statement}
    (agrees : AgreesInside style walk emitter (.ifThen condition body))
    : statement style walk emitter (.ifThen condition body)
      = generator style emitter (.ifThen condition body) := by
  have walked :=
    agrees.parts body (List.mem_singleton_self body) (emitter.jump (.jumpUnless condition) 0) rfl
  simp only [statement, Statement.kind, Statement.disassembleIf, contract_ok_bind, walked,
    generator, visit, contract_bind]
  apply bind_congr_of_ok
  intro inner visited
  rw [patch_of_lt (slot_lt (contract_eq_ok_iff.mp visited)), pure_bind, contract_rebuild]
  rfl

/-- The second body of a choice, put together with the first one. -/
theorem secondBody_eq {depth : Nat} {condition : Condition} {thenBody elseBody : Statement}
    {slot : Nat} (inside : slot < emitter.code.size)
    (walked
      : walk emitter elseBody
        = contract (visit style (Context.store.expand style depth) emitter elseBody))
    : (secondBody walk thenBody elseBody slot emitter >>= fun inner =>
        contract (Statement.assembleIfElse condition inner.tree.1 inner.tree.2) >>= fun s =>
        pure ⟨s, inner.emitter, inner.fault⟩)
      = contract (do
          let second ← visit style (Context.store.expand style depth) emitter elseBody
          (second.close (·.patch slot)).rebuild (Statement.assembleIfElse condition thenBody)) := by
  simp only [secondBody, walked, contract_bind, bind_assoc, pure_bind]
  apply bind_congr_of_ok
  intro second visited
  have longer := visit_size (contract_eq_ok_iff.mp visited)
  rw [patchFine_of_lt (Nat.lt_of_lt_of_le inside longer), pure_bind, contract_rebuild]

theorem ifElse {condition : Condition} {thenBody elseBody : Statement}
    (agrees : AgreesInside style walk emitter (.ifElse condition thenBody elseBody))
    : statement style walk emitter (.ifElse condition thenBody elseBody)
      = generator style emitter (.ifElse condition thenBody elseBody) := by
  have walked :=
    agrees.parts thenBody List.mem_cons_self (emitter.jump (.jumpUnless condition) 0) rfl
  simp only [statement, Statement.kind, Statement.disassembleIfElse, contract_ok_bind, bothBodies,
    walked, generator, visit, contract_bind, bind_assoc]
  apply bind_congr_of_ok
  intro first visited
  have visited := contract_eq_ok_iff.mp visited
  have slot := slot_lt visited
  have context : first.emitter.context = emitter.context :=
    visit_context (Nat.le_refl (emitter.jump (.jumpUnless condition) 0).context.size) visited
  have elseWalked (between : Emitter Context) (same : between.context = first.emitter.context)
      : walk between elseBody
        = contract (visit style (Context.store.expand style emitter.context.size) between
            elseBody) := by
    have second : elseBody ∈ (Statement.ifElse condition thenBody elseBody).parts :=
      List.mem_cons_of_mem _ (List.mem_singleton_self elseBody)
    rw [agrees.parts elseBody second between (same.trans context), generator, same, context]
  split
  · rw [contract_rebuild]
    rfl
  · cases style with
    | single =>
        simp only [patch_of_lt slot, pure_bind]
        exact secondBody_eq (by rwa [Emitter.size_patch]) (elseWalked _ rfl)
    | structured =>
        have slot' : emitter.slot < (first.emitter.jump .jump 0).code.size := by
          rw [Emitter.size_jump]
          omega
        have skip : first.emitter.slot
            < ((first.emitter.jump .jump 0).patch emitter.slot).code.size := by
          rw [Emitter.size_patch, Emitter.size_jump]
          exact Nat.lt_succ_self _
        simp only [patch_of_lt slot', pure_bind]
        exact secondBody_eq skip (elseWalked _ rfl)

theorem whileDo {condition : Condition} {body : Statement}
    (agrees : AgreesInside style walk emitter (.whileDo condition body))
    : statement style walk emitter (.whileDo condition body)
      = generator style emitter (.whileDo condition body) := by
  have walked :=
    agrees.parts body (List.mem_singleton_self body) (emitter.jump (.jumpUnless condition) 0) rfl
  simp only [statement, Statement.kind, Statement.disassembleWhile, contract_ok_bind, walked,
    generator, visit, contract_bind]
  apply bind_congr_of_ok
  intro inner visited
  rw [endLoop_of_lt (slot_lt (contract_eq_ok_iff.mp visited)), pure_bind, contract_rebuild]

theorem block {children : List Statement}
    (agrees : AgreesInside style walk emitter (.block children))
    : statement style walk emitter (.block children)
      = generator style emitter (.block children) := by
  have inside (child : Statement) (member : child ∈ children) (inner : Emitter Context)
      (same : inner.context = emitter.context)
      : walk inner child
        = contract (visit style (Context.store.expand style emitter.context.size) inner child) := by
    rw [agrees.parts child member inner same, generator, same]
  have walked := children_eq (Nat.le_refl emitter.context.size) children inside [] rfl
  simp only [statement, Statement.kind, Statement.length, Statement.children, contract_bind,
    generator, visit, contract_rebuild]
  exact walked

theorem call {name : String} (agrees : AgreesInside style walk emitter (.call name))
    : statement style walk emitter (.call name) = generator style emitter (.call name) := by
  simp only [statement, Statement.kind, Statement.disassembleCall, contract_ok_bind, generator,
    visit, contract_bind, contract_rebuild]
  suffices resolved : Positions.call walk emitter name
      = contract (Context.store.expand style emitter.context.size emitter name) by
    rw [resolved]
  unfold Positions.call
  cases found : emitter.context.get? name with
  | none =>
      rw [expand_undeclared found]
      rfl
  | some body =>
      have fewer := Context.size_erase_lt found
      obtain ⟨depth, size⟩ : ∃ depth, emitter.context.size = depth + 1 :=
        ⟨emitter.context.size - 1, by omega⟩
      have deep : (emitter.beginCall Context.store name).context.size ≤ depth := by
        show (emitter.context.erase name).size ≤ depth
        omega
      simp only [size, Store.expand, Context.store_find?, found, contract_bind,
        agrees.body name body rfl found, generator, visit_depth style deep body]
      rfl

end AgreesInside

/-- A statement by positions is walked as the generator does when what is inside it is. -/
theorem statement_eq {style : JumpStyle} {walk : Walk} {emitter : Emitter Context} {s : Statement}
    (agrees : AgreesInside style walk emitter s)
    : statement style walk emitter s = generator style emitter s := by
  cases s with
  | block children => exact agrees.block
  | ifThen condition body => exact agrees.ifThen
  | ifElse condition thenBody elseBody => exact agrees.ifElse
  | whileDo condition body => exact agrees.whileDo
  | call name => exact agrees.call

end Positions

open Positions in
/-- A walk by positions agrees with the generator, by induction on the number of declarations that
are left and on the statement.
-/
theorem ByPositions.eq_generator {style : JumpStyle} {walk : Walk} (h : ByPositions style walk)
    (emitter : Emitter Context) (s : Statement)
    : walk emitter s = generator style emitter s := by
  rw [h emitter s]
  apply statement_eq
  constructor
  · intro part inside inner same
    have := Statement.sizeOf_lt_of_mem_parts inside
    exact h.eq_generator inner part
  · intro name body _ found
    have := Context.size_erase_lt found
    exact h.eq_generator (emitter.beginCall Context.store name) body
termination_by (emitter.context.size, sizeOf s)
decreasing_by
  · rw [same]
    exact Prod.Lex.right _ this
  · exact Prod.Lex.left _ _ this

/-- There is one walk by positions, and it is that of the generator. -/
theorem byPositions_iff {style : JumpStyle} {walk : Positions.Walk}
    : ByPositions style walk ↔ walk = Positions.generator style := by
  constructor
  · intro h
    funext emitter s
    exact h.eq_generator emitter s
  · rintro rfl emitter s
    exact (Positions.statement_eq ⟨fun _ _ _ _ => rfl, fun _ _ _ _ => rfl⟩).symm

end Generator

end AgentLang
