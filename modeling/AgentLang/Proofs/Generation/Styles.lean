import AgentLang.Proofs.Generation.Inlining
import AgentLang.Proofs.Generation.Instructions

/-! The two styles of jumps. They fail alike, and their codes have the same opcodes in the same
order but for the unconditional jumps, of which structured code has one for each choice with two
bodies and for each loop.
-/

namespace AgentLang

-----------------------------------------------------------------------------------------
-- Counting statements
-----------------------------------------------------------------------------------------

namespace Statement

mutual

/-- How many statements of a kind a tree holds. -/
def count (kind : Kind) : Statement → Nat
  | block children => (if kind = .block then 1 else 0) + countAll kind children
  | ifThen _ body => (if kind = .ifThen then 1 else 0) + body.count kind
  | ifElse _ thenBody elseBody =>
      (if kind = .ifElse then 1 else 0) + thenBody.count kind + elseBody.count kind
  | whileDo _ body => (if kind = .whileDo then 1 else 0) + body.count kind
  | call _ => if kind = .call then 1 else 0

def countAll (kind : Kind) : List Statement → Nat
  | [] => 0
  | child :: rest => child.count kind + countAll kind rest

end

end Statement

namespace Plan

-----------------------------------------------------------------------------------------
-- The unconditional jumps of a plan
-----------------------------------------------------------------------------------------

/-- The unconditional jumps in structured code: over each second body, and back in each loop. -/
def jumps : Plan → Nat
  | done => 0
  | act _ => 0
  | seq first second => first.jumps + second.jumps
  | ifThen _ body => body.jumps
  | ifElse _ thenPlan elsePlan => 1 + thenPlan.jumps + elsePlan.jumps
  | whileDo _ body => 1 + body.jumps

/-- Each of them takes two words. -/
theorem size_structured (plan : Plan)
    : plan.size .structured = plan.size .single + 2 * plan.jumps := by
  induction plan with
  | done | act p => rfl
  | seq first second ihFirst ihSecond =>
      simp only [size, jumps, ihFirst, ihSecond]
      omega
  | ifThen condition body ih | whileDo condition body ih =>
      simp only [size, jumps, ih]
      omega
  | ifElse condition thenPlan elsePlan ihThen ihElse =>
      simp only [size, jumps, ihThen, ihElse]
      omega

/-- Without unconditional jumps the styles have the same code. -/
theorem code_structured {plan : Plan} (none : plan.jumps = 0) (offset : Nat)
    : plan.code .structured offset = plan.code .single offset := by
  have sizes {part : Plan} (none : part.jumps = 0)
      : part.size .structured = part.size .single := by
    rw [size_structured, none, Nat.mul_zero, Nat.add_zero]
  induction plan generalizing offset with
  | done | act p => rfl
  | seq first second ihFirst ihSecond =>
      obtain ⟨noneFirst, noneSecond⟩ := Nat.add_eq_zero_iff.mp none
      simp only [code, sizes noneFirst, ihFirst noneFirst, ihSecond noneSecond]
  | ifThen condition body ih =>
      have noneBody : body.jumps = 0 := none
      simp only [code, sizes noneBody, ih noneBody]
  | ifElse condition thenPlan elsePlan _ _ =>
      simp only [jumps] at none
      omega
  | whileDo condition body _ =>
      simp only [jumps] at none
      omega

/-- Wherever the codes start, they have the same opcodes but for the unconditional jumps. -/
theorem ops_entries (plan : Plan) (offset offset' : Nat)
    : ((plan.entries .structured offset).map (·.op)).filter (· ≠ .jump)
      = (plan.entries .single offset').map (·.op) := by
  induction plan generalizing offset offset' with
  | done => rfl
  | act p => rfl
  | seq first second ihFirst ihSecond =>
      simp only [entries, List.map_append, List.filter_append]
      rw [ihFirst offset offset', ihSecond _ (offset' + first.size .single)]
  | ifThen condition body ih =>
      simp [entries, ← ih (offset + 2) (offset' + 2)]
  | ifElse condition thenPlan elsePlan ihThen ihElse =>
      simp [entries, ← ihThen (offset + 2) (offset' + 2),
        ← ihElse (offset + 2 + thenPlan.size .structured + 2)
          (offset' + 2 + thenPlan.size .single)]
  | whileDo condition body ih =>
      simp [entries, ← ih (offset + 2) (offset' + 2)]

-----------------------------------------------------------------------------------------
-- The jumps that statements come to
-----------------------------------------------------------------------------------------

mutual

/-- Where calls come to no jumps, a statement comes to one for each choice with two bodies and
each loop in it, by the constructs of the statement.
-/
theorem jumps_ofStatement {resolve : Resolver}
    (calls : ∀ name plan, resolve name = .ok plan → plan.jumps = 0) (s : Statement) {plan : Plan}
    (found : ofStatement resolve s = .ok plan)
    : plan.jumps = s.count .ifElse + s.count .whileDo := by
  cases s with
  | block children =>
      rw [jumps_ofAll calls children found]
      simp [Statement.count]
  | ifThen condition body =>
      obtain ⟨inner, foundBody, rfl⟩ := bind_pure_eq_ok_iff.mp found
      simp [jumps, Statement.count, jumps_ofStatement calls body foundBody]
  | ifElse condition thenBody elseBody =>
      obtain ⟨thenPlan, foundThen, second⟩ := bind_eq_ok_iff.mp found
      obtain ⟨elsePlan, foundElse, rfl⟩ := bind_pure_eq_ok_iff.mp second
      simp only [jumps, Statement.count, jumps_ofStatement calls thenBody foundThen,
        jumps_ofStatement calls elseBody foundElse, if_pos, reduceCtorEq, if_false]
      omega
  | whileDo condition body =>
      obtain ⟨inner, foundBody, rfl⟩ := bind_pure_eq_ok_iff.mp found
      simp only [jumps, Statement.count, jumps_ofStatement calls body foundBody, if_pos,
        reduceCtorEq, if_false]
      omega
  | call name =>
      rw [calls name plan found]
      simp [Statement.count]

theorem jumps_ofAll {resolve : Resolver}
    (calls : ∀ name plan, resolve name = .ok plan → plan.jumps = 0) (children : List Statement)
    {plan : Plan} (found : ofAll resolve children = .ok plan)
    : plan.jumps = Statement.countAll .ifElse children + Statement.countAll .whileDo children := by
  cases children with
  | nil =>
      cases found
      rfl
  | cons child rest =>
      obtain ⟨first, foundFirst, remaining⟩ := bind_eq_ok_iff.mp found
      obtain ⟨later, foundRest, rfl⟩ := bind_pure_eq_ok_iff.mp remaining
      simp only [jumps, Statement.countAll, jumps_ofStatement calls child foundFirst,
        jumps_ofAll calls rest foundRest]
      omega

end

/-- Without declarations a call comes to an action. -/
theorem jumps_resolve_empty (name : String) (plan : Plan)
    (resolved : resolve .empty [] name = .ok plan)
    : plan.jumps = 0 := by
  rw [resolve_undeclared rfl, ofName] at resolved
  split at resolved
  · cases resolved
  · split at resolved
    · cases resolved
      rfl
    · cases resolved

end Plan

-----------------------------------------------------------------------------------------
-- Whole programs
-----------------------------------------------------------------------------------------

namespace Program

/-- The calls of a shaped program with a plan can be replaced, in one way only, and what results
has the codes of the plan in both styles.
-/
theorem exists_inlined_plan {program : Program} (shaped : program.Shaped) {plan : Plan}
    (found : program.plan = .ok plan)
    : ∃ inlined own,
        Inlined program.context program.body.statements inlined
        ∧ (∀ other, Inlined program.context program.body.statements other → other = inlined)
        ∧ Plan.ofAll (Plan.resolve .empty []) inlined = .ok own
        ∧ ∀ style, own.SameCode style plan := by
  obtain ⟨children, block⟩ := Statement.exists_block shaped.block
  have inside := shaped.body
  rw [Program.plan, block] at found
  rw [block] at inside ⊢
  have written (style : JumpStyle)
      : ∃ inlined, Inlined program.context children inlined ∧ plan.WrittenBy style inlined :=
    Plan.exists_inlined
      (Plan.resolve_splices style (fun _ _ => shaped.get?) program.context [] fun _ => by simp)
      children inside found
  obtain ⟨inlined, replaced, _, own, foundOwn, _⟩ := written .single
  refine ⟨inlined, own, replaced, fun other replaced' => replaced'.unique replaced, foundOwn, ?_⟩
  intro style
  -- The replacement does not depend on the style, so its plan does not either.
  obtain ⟨other, replaced', _, own', foundOwn', same⟩ := written style
  cases replaced'.unique replaced
  cases foundOwn.symm.trans foundOwn'
  exact same

/-- The styles differ in unconditional jumps and in targets only. A shaped program fails in both
with the same error, or has code in both; the opcodes are then the same but for the unconditional
jumps, and structured code is longer by two words for each choice with two bodies and each loop
that there is once the calls are replaced, so that the codes are equal where there is none.
-/
theorem styles_differ_in_jumps {program : Program} (shaped : program.Shaped)
    : (∃ cause, ∀ style, program.generate style = (program, .failed cause))
      ∨ ∃ single structured inlined,
          program.generate .single = (program, .generated ⟨program.name, single⟩)
          ∧ program.generate .structured = (program, .generated ⟨program.name, structured⟩)
          ∧ (∃ lines lines',
              Listing.decode 0 single = .ok lines
              ∧ Listing.decode 0 structured = .ok lines'
              ∧ (lines'.map (·.op)).filter (· ≠ .jump) = lines.map (·.op))
          ∧ Inlined program.context program.body.statements inlined
          ∧ (∀ other, Inlined program.context program.body.statements other → other = inlined)
          ∧ structured.length
            = single.length
              + 2 * (Statement.countAll .ifElse inlined + Statement.countAll .whileDo inlined)
          ∧ (structured = single
            ↔ Statement.countAll .ifElse inlined = 0
              ∧ Statement.countAll .whileDo inlined = 0) := by
  cases found : program.plan with
  | error cause =>
      refine .inl ⟨cause, fun style => ?_⟩
      rw [generate_of_shaped style shaped, planned_eq_failed_iff.mpr found]
  | ok plan =>
      have generated (style : JumpStyle)
          : program.generate style
            = (
              program,
              .generated ⟨program.name, plan.code style 0 ++ [Opcode.halt.code]⟩
            ) := by
        rw [generate_of_shaped style shaped, planned_eq_generated_iff.mpr ⟨plan, found, rfl⟩]
      obtain ⟨inlined, own, replaced, only, foundOwn, same⟩ := exists_inlined_plan shaped found
      have counted := Plan.jumps_ofAll Plan.jumps_resolve_empty inlined foundOwn
      have longer : (plan.code .structured 0 ++ [Opcode.halt.code]).length
          = (plan.code .single 0 ++ [Opcode.halt.code]).length + 2 * own.jumps := by
        rw [← same .structured 0, ← same .single 0]
        simp only [List.length_append, Plan.length_code, Plan.size_structured]
        omega
      refine .inr ⟨_, _, inlined, generated .single, generated .structured, ?_, replaced, only,
        counted ▸ longer, ?_⟩
      · refine ⟨_, _, plan.decode_halted .single, plan.decode_halted .structured, ?_⟩
        have ops := plan.ops_entries 0 0
        simpa [Function.comp_def, Plan.Entry.line] using ops
      · constructor
        · intro equal
          rw [equal] at longer
          omega
        · rintro ⟨noChoice, noLoop⟩
          have none : own.jumps = 0 := by omega
          rw [← same .structured 0, ← same .single 0, Plan.code_structured none]

/-- A choice with two bodies in an instruction that is called twice, once in a loop. -/
def lookout : Program where
  name := "Lookout"
  context :=
    .ofList [("look", .block [.ifElse .nextIsWall (.block [.call "turnleft"]) (.block [])])]
  body := .block [.whileDo .random (.block [.call "look", .call "move"]), .call "look"]

theorem styles_differ_in_jumps_lookout
    : lookout.Shaped
      ∧ lookout.generate .single
        = (lookout, .generated ⟨"Lookout", [15, 6, 9, 5, 1, 0, 9, 9, 1, 5]⟩)
      ∧ lookout.generate .structured
        = (
          lookout,
          .generated ⟨"Lookout", [15, 10, 9, 7, 1, 6, 7, 0, 6, 0, 9, 15, 1, 6, 15, 5]⟩
        )
      ∧ ∃ inlined,
          Inlined lookout.context lookout.body.statements inlined
          ∧ Statement.countAll .ifElse inlined + Statement.countAll .whileDo inlined = 3 := by
  have shaped : lookout.Shaped := ⟨by decide, by decide, by decide⟩
  have generated : lookout.generate .single
      = (lookout, .generated ⟨"Lookout", [15, 6, 9, 5, 1, 0, 9, 9, 1, 5]⟩) := by
    decide
  have generated' : lookout.generate .structured
      = (
        lookout,
        .generated ⟨"Lookout", [15, 10, 9, 7, 1, 6, 7, 0, 6, 0, 9, 15, 1, 6, 15, 5]⟩
      ) := by
    decide
  rcases styles_differ_in_jumps shaped with
    ⟨cause, fails⟩ | ⟨single, structured, inlined, first, second, _, replaced, _, longer, _⟩
  · cases generated.symm.trans (fails .single)
  · cases generated.symm.trans first
    cases generated'.symm.trans second
    simp only [List.length_cons, List.length_nil] at longer
    exact ⟨shaped, generated, generated', inlined, replaced, by omega⟩

end Program

end AgentLang
