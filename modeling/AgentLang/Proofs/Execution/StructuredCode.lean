import AgentLang.Proofs.Execution.Meaning

/-! Structured code does what the program says. The code of a plan stands somewhere inside the
whole code; a run of the plan is a run of the machine through that place, and a run of the
machine that halts leaves the place behind it after a run of the plan.
-/

namespace AgentLang

universe u

open Machine

variable {Env : Type u} {terrain : Terrain Env} {code : Code}

-----------------------------------------------------------------------------------------
-- Pieces of code at their places
-----------------------------------------------------------------------------------------

/-- A piece of code stands at an offset of the whole code. -/
def Placed (code : Code) (offset : Nat) (piece : Code) : Prop :=
  ∃ before after, code = before ++ (piece ++ after) ∧ before.length = offset

namespace Placed

variable {offset target : Nat}

theorem first {early late : Code} (placed : Placed code offset (early ++ late))
    : Placed code offset early := by
  obtain ⟨before, after, rfl, length⟩ := placed
  exact ⟨before, late ++ after, by simp, length⟩

theorem second {early late : Code} (placed : Placed code offset (early ++ late))
    : Placed code (offset + early.length) late := by
  obtain ⟨before, after, rfl, length⟩ := placed
  exact ⟨before ++ early, after, by simp, by simp [length]⟩

theorem fetch_head {op : Opcode} {rest : Code} (placed : Placed code offset (op.code :: rest))
    : fetch code offset = some op := by
  obtain ⟨before, after, rfl, rfl⟩ := placed
  simp [fetch]

/-- A jump in its place is found with its target. -/
theorem fetch_jumpTo {op : Opcode} (placed : Placed code offset (Plan.jumpTo op target))
    : fetch code offset = some op ∧ code[offset + 1]? = some target.toUInt32 := by
  refine ⟨placed.fetch_head, ?_⟩
  obtain ⟨before, after, rfl, rfl⟩ := placed
  simp [Plan.jumpTo]

/-- Offsets below 2^32 are words, so that a jump reaches them. -/
theorem toNat_target (small : target < UInt32.size) : target.toUInt32.toNat = target :=
  UInt32.toNat_ofNat_of_lt' small

/-- The test of a placed conditional jump holds. -/
theorem step_pass {c : Condition} {env next : Env}
    (placed : Placed code offset (Plan.jumpTo (.jumpUnless c) target))
    (tested : terrain.test c env true next)
    : Step terrain code ⟨offset, env⟩ [.test c true] ⟨offset + 2, next⟩ :=
  .pass placed.fetch_jumpTo.1 tested

/-- The test of a placed conditional jump fails. -/
theorem step_branch {c : Condition} {env next : Env}
    (placed : Placed code offset (Plan.jumpTo (.jumpUnless c) target))
    (small : target < UInt32.size) (tested : terrain.test c env false next)
    : Step terrain code ⟨offset, env⟩ [.test c false] ⟨target, next⟩ := by
  have step := Step.branch placed.fetch_jumpTo.1 placed.fetch_jumpTo.2 tested
  rwa [toNat_target small] at step

theorem step_jump {env : Env} (placed : Placed code offset (Plan.jumpTo .jump target))
    (small : target < UInt32.size)
    : Step terrain code ⟨offset, env⟩ [] ⟨target, env⟩ := by
  have step : Step terrain code ⟨offset, env⟩ [] _ :=
    .jump placed.fetch_jumpTo.1 placed.fetch_jumpTo.2
  rwa [toNat_target small] at step

/-- Where the parts of a sequence stand. -/
theorem seq {first second : Plan}
    (placed : Placed code offset ((Plan.seq first second).code .structured offset))
    : Placed code offset (first.code .structured offset)
      ∧ Placed code (offset + first.size .structured)
          (second.code .structured (offset + first.size .structured)) := by
  simp only [Plan.code] at placed
  exact ⟨placed.first, by simpa using placed.second⟩

/-- Where the parts of a choice without a second body stand. -/
theorem ifThen {c : Condition} {body : Plan}
    (placed : Placed code offset ((Plan.ifThen c body).code .structured offset))
    : Placed code offset
          (Plan.jumpTo (.jumpUnless c) (offset + 2 + body.size .structured))
      ∧ Placed code (offset + 2) (body.code .structured (offset + 2)) := by
  simp only [Plan.code] at placed
  exact ⟨placed.first, placed.second⟩

/-- Where the parts of a choice stand: a jump over the second body parts the two. -/
theorem ifElse {c : Condition} {thenPlan elsePlan : Plan}
    (placed : Placed code offset ((Plan.ifElse c thenPlan elsePlan).code .structured offset))
    : Placed code offset
          (Plan.jumpTo (.jumpUnless c) (offset + 2 + thenPlan.size .structured + 2))
      ∧ Placed code (offset + 2) (thenPlan.code .structured (offset + 2))
      ∧ Placed code (offset + 2 + thenPlan.size .structured)
          (Plan.jumpTo .jump
            (offset + 2 + thenPlan.size .structured + 2 + elsePlan.size .structured))
      ∧ Placed code (offset + 2 + thenPlan.size .structured + 2)
          (elsePlan.code .structured (offset + 2 + thenPlan.size .structured + 2)) := by
  simp only [Plan.code] at placed
  refine ⟨placed.first.first.first, placed.first.first.second, ?_, ?_⟩
  · simpa [Nat.add_assoc] using placed.first.second
  · simpa [Nat.add_assoc] using placed.second

/-- Where the parts of a loop stand: behind the body a jump leads back to the test. -/
theorem whileDo {c : Condition} {body : Plan}
    (placed : Placed code offset ((Plan.whileDo c body).code .structured offset))
    : Placed code offset
          (Plan.jumpTo (.jumpUnless c) (offset + 2 + body.size .structured + 2))
      ∧ Placed code (offset + 2) (body.code .structured (offset + 2))
      ∧ Placed code (offset + 2 + body.size .structured) (Plan.jumpTo .jump offset) := by
  simp only [Plan.code] at placed
  refine ⟨placed.first.first, placed.first.second, ?_⟩
  simpa [Nat.add_assoc] using placed.second

/-- A run that halts and stands at a placed conditional jump tests, and goes on behind the jump
or at its target.
-/
theorem halts_jumpUnless {c : Condition} {steps : Nat} {env final : Env} {trace : List Event}
    (placed : Placed code offset (Plan.jumpTo (.jumpUnless c) target))
    (small : target < UInt32.size) (halts : HaltsIn terrain code steps ⟨offset, env⟩ trace final)
    : ∃ rest next later holds,
        steps = rest + 1
        ∧ terrain.test c env holds next
        ∧ trace = .test c holds :: later
        ∧ HaltsIn terrain code rest ⟨if holds then offset + 2 else target, next⟩ later final := by
  have found := halts.of_jumpUnless placed.fetch_jumpTo.1 placed.fetch_jumpTo.2
  rwa [toNat_target small] at found

theorem halts_jump {steps : Nat} {env final : Env} {trace : List Event}
    (placed : Placed code offset (Plan.jumpTo .jump target)) (small : target < UInt32.size)
    (halts : HaltsIn terrain code steps ⟨offset, env⟩ trace final)
    : ∃ rest, steps = rest + 1 ∧ HaltsIn terrain code rest ⟨target, env⟩ trace final := by
  have found := halts.of_jump placed.fetch_jumpTo.1 placed.fetch_jumpTo.2
  rwa [toNat_target small] at found

end Placed

-----------------------------------------------------------------------------------------
-- From runs of a plan to runs of the machine
-----------------------------------------------------------------------------------------

/-- A run of a plan takes the machine through the code of the plan, by induction on the run.
The end of the code is a variable, so that the places of the parts fit by arithmetic alone.
-/
theorem Plan.Runs.machine {plan : Plan} {env final : Env} {trace : List Event}
    (runs : plan.Runs terrain env trace final) {offset behind : Nat}
    (placed : Placed code offset (plan.code .structured offset))
    (ends : offset + plan.size .structured = behind) (small : behind < UInt32.size)
    : ∃ steps, Run terrain code steps ⟨offset, env⟩ trace ⟨behind, final⟩ := by
  induction runs generalizing offset behind with
  | done =>
      obtain rfl : offset = behind := ends
      exact ⟨0, .stay⟩
  | act acted =>
      obtain rfl : offset + 1 = behind := ends
      exact ⟨1, .single (.act placed.fetch_head acted)⟩
  | seq _ _ ihFirst ihSecond =>
      simp only [Plan.size] at ends
      obtain ⟨placedFirst, placedSecond⟩ := placed.seq
      obtain ⟨steps, run⟩ := ihFirst placedFirst rfl (by omega)
      obtain ⟨more, later⟩ := ihSecond placedSecond (by omega) small
      exact ⟨steps + more, run.trans later⟩
  | ifHolds tested _ ih =>
      simp only [Plan.size] at ends
      obtain ⟨placedTest, placedBody⟩ := placed.ifThen
      obtain ⟨steps, run⟩ := ih placedBody (by omega) small
      exact ⟨steps + 1, .step (placedTest.step_pass tested) run⟩
  | @ifFails c body _ _ tested =>
      simp only [Plan.size] at ends
      obtain rfl : offset + 2 + body.size .structured = behind := by omega
      exact ⟨1, .single (placed.ifThen.1.step_branch small tested)⟩
  | @thenPart c thenPlan elsePlan _ _ _ trace tested _ ih =>
      simp only [Plan.size] at ends
      obtain ⟨placedTest, placedThen, placedOver, _⟩ := placed.ifElse
      obtain rfl
          : offset + 2 + thenPlan.size .structured + 2 + elsePlan.size .structured = behind := by
        omega
      obtain ⟨steps, run⟩ := ih placedThen rfl (by omega)
      -- The jump over the second body is not seen, so the trace is that of the first body.
      have whole := run.trans (.single (placedOver.step_jump small))
      rw [List.append_nil] at whole
      exact ⟨steps + 1 + 1, .step (placedTest.step_pass tested) whole⟩
  | elsePart tested _ ih =>
      simp only [Plan.size] at ends
      obtain ⟨placedTest, _, _, placedElse⟩ := placed.ifElse
      obtain ⟨steps, run⟩ := ih placedElse (by omega) small
      exact ⟨steps + 1, .step (placedTest.step_branch (by omega) tested) run⟩
  | @whileHolds c body _ _ _ _ early late tested _ _ ihBody ihLoop =>
      obtain ⟨placedTest, placedBody, placedBack⟩ := placed.whileDo
      obtain ⟨more, again⟩ := ihLoop placed ends small
      simp only [Plan.size] at ends
      obtain ⟨steps, run⟩ := ihBody placedBody rfl (by omega)
      -- Behind the body the machine jumps back to the test, where the run of the rest begins.
      have back := Run.step (placedBack.step_jump (by omega)) again
      rw [List.nil_append] at back
      exact ⟨steps + (more + 1) + 1, .step (placedTest.step_pass tested) (run.trans back)⟩
  | @whileFails c body _ _ tested =>
      simp only [Plan.size] at ends
      obtain rfl : offset + 2 + body.size .structured + 2 = behind := by omega
      exact ⟨1, .single (placed.whileDo.1.step_branch small tested)⟩

-----------------------------------------------------------------------------------------
-- From runs of the machine to runs of a plan
-----------------------------------------------------------------------------------------

/-- A run of the machine that halts begins with a run of the plan, which takes it behind the
code of the plan. No more steps are left than there were.
-/
def Plan.Passed (terrain : Terrain Env) (code : Code) (plan : Plan) (behind steps : Nat) (env : Env)
    (trace : List Event) (final : Env)
    : Prop :=
  ∃ rest middle early late,
    rest ≤ steps
    ∧ trace = early ++ late
    ∧ plan.Runs terrain env early middle
    ∧ HaltsIn terrain code rest ⟨behind, middle⟩ late final

/-- The machine cannot halt inside the code of the plan. -/
def Plan.Passable (terrain : Terrain Env) (code : Code) (plan : Plan) : Prop :=
  ∀ {offset behind steps : Nat} {env : Env} {trace : List Event} {final : Env},
    Placed code offset (plan.code .structured offset)
    → offset + plan.size .structured = behind
    → behind < UInt32.size
    → HaltsIn terrain code steps ⟨offset, env⟩ trace final
    → plan.Passed terrain code behind steps env trace final

/-- A loop is passed, by induction on the number of steps: a turn through a passable body comes
back to the test with fewer steps left.
-/
theorem Plan.Passable.whileDo {c : Condition} {body : Plan} (passable : body.Passable terrain code)
    : (Plan.whileDo c body).Passable terrain code := by
  intro offset behind steps env trace final placed ends small halts
  induction steps using Nat.strongRecOn generalizing env trace with
  | ind steps ih =>
      obtain ⟨placedTest, placedBody, placedBack⟩ := placed.whileDo
      have target : offset + 2 + body.size .structured + 2 = behind := by
        simp only [Plan.size] at ends
        omega
      obtain ⟨rest, next, later, holds, rfl, tested, rfl, onward⟩ :=
        placedTest.halts_jumpUnless (by omega) halts
      cases holds with
      | false =>
          rw [if_neg (by simp), target] at onward
          exact ⟨rest, next, [.test c false], later, by omega, rfl, .whileFails tested, onward⟩
      | true =>
          rw [if_pos rfl] at onward
          obtain ⟨_, _, early, _, fewer, rfl, run, atBack⟩ :=
            passable placedBody rfl (by omega) onward
          -- The jump back has spent a step, so the induction covers what is left.
          obtain ⟨left, rfl, atTest⟩ := placedBack.halts_jump (by omega) atBack
          obtain ⟨last, middle, again, late, less, rfl, loop, behindLoop⟩ :=
            ih left (by omega) atTest
          refine ⟨last, middle, .test c true :: (early ++ again), late, ?_, ?_, ?_, behindLoop⟩
          · omega
          · simp
          · exact .whileHolds tested run loop

/-- Every plan is passed, by induction on the plan. -/
theorem Plan.passable (plan : Plan) : plan.Passable terrain code := by
  induction plan with
  | done =>
      intro offset behind steps env trace final placed ends small halts
      obtain rfl : offset = behind := ends
      exact ⟨steps, env, [], trace, Nat.le_refl _, rfl, .done, halts⟩
  | act p =>
      intro offset behind steps env trace final placed ends small halts
      obtain rfl : offset + 1 = behind := ends
      obtain ⟨rest, next, later, rfl, acted, rfl, onward⟩ := halts.of_act placed.fetch_head
      exact ⟨rest, next, [.action p], later, by omega, rfl, .act acted, onward⟩
  | seq first second ihFirst ihSecond =>
      intro offset behind steps env trace final placed ends small halts
      simp only [Plan.size] at ends
      obtain ⟨placedFirst, placedSecond⟩ := placed.seq
      obtain ⟨_, _, early, _, fewer, rfl, run, between⟩ :=
        ihFirst placedFirst rfl (by omega) halts
      obtain ⟨last, next, seen, later, less, rfl, runSecond, onward⟩ :=
        ihSecond placedSecond (by omega) small between
      exact ⟨last, next, early ++ seen, later, by omega, by simp, .seq run runSecond, onward⟩
  | ifThen c body ih =>
      intro offset behind steps env trace final placed ends small halts
      have target : offset + 2 + body.size .structured = behind := by
        simp only [Plan.size] at ends
        omega
      obtain ⟨placedTest, placedBody⟩ := placed.ifThen
      obtain ⟨rest, next, later, holds, rfl, tested, rfl, onward⟩ :=
        placedTest.halts_jumpUnless (by omega) halts
      cases holds with
      | false =>
          rw [if_neg (by simp), target] at onward
          exact ⟨rest, next, [.test c false], later, by omega, rfl, .ifFails tested, onward⟩
      | true =>
          rw [if_pos rfl] at onward
          obtain ⟨last, middle, early, late, fewer, rfl, run, behindBody⟩ :=
            ih placedBody target small onward
          refine ⟨last, middle, .test c true :: early, late, by omega, rfl, ?_, behindBody⟩
          exact .ifHolds tested run
  | ifElse c thenPlan elsePlan ihThen ihElse =>
      intro offset behind steps env trace final placed ends small halts
      have target
          : offset + 2 + thenPlan.size .structured + 2 + elsePlan.size .structured = behind := by
        simp only [Plan.size] at ends
        omega
      obtain ⟨placedTest, placedThen, placedOver, placedElse⟩ := placed.ifElse
      obtain ⟨rest, next, later, holds, rfl, tested, rfl, onward⟩ :=
        placedTest.halts_jumpUnless (by omega) halts
      cases holds with
      | false =>
          rw [if_neg (by simp)] at onward
          obtain ⟨last, middle, early, late, fewer, rfl, run, behindElse⟩ :=
            ihElse placedElse target small onward
          refine ⟨last, middle, .test c false :: early, late, by omega, rfl, ?_, behindElse⟩
          exact .elsePart tested run
      | true =>
          rw [if_pos rfl] at onward
          obtain ⟨_, middle, early, late, fewer, rfl, run, behindThen⟩ :=
            ihThen placedThen rfl (by omega) onward
          obtain ⟨last, rfl, behindElse⟩ := placedOver.halts_jump (by omega) behindThen
          rw [target] at behindElse
          refine ⟨last, middle, .test c true :: early, late, by omega, rfl, ?_, behindElse⟩
          exact .thenPart tested run
  | whileDo c body ih => exact ih.whileDo

-----------------------------------------------------------------------------------------
-- Whole programs
-----------------------------------------------------------------------------------------

/-- The machine that runs the code of a plan with a halt behind it has the runs of the plan. -/
theorem Plan.halts_iff_runs (plan : Plan)
    (small : (plan.code .structured 0 ++ [Opcode.halt.code]).length ≤ UInt32.size) (env final : Env)
    (trace : List Event)
    : Halts terrain (plan.code .structured 0 ++ [Opcode.halt.code]) env trace final
      ↔ plan.Runs terrain env trace final := by
  have placed : Placed (plan.code .structured 0 ++ [Opcode.halt.code]) 0
      (plan.code .structured 0) := ⟨[], _, rfl, rfl⟩
  have stopped : fetch (plan.code .structured 0 ++ [Opcode.halt.code]) (plan.size .structured)
      = some .halt := by
    simp [fetch]
  have fits : plan.size .structured < UInt32.size := by
    simp only [List.length_append, length_code, List.length_cons, List.length_nil] at small
    exact small
  constructor
  · intro halts
    obtain ⟨steps, halts⟩ := halts
    obtain ⟨_, middle, early, late, _, rfl, runs, behind⟩ :=
      plan.passable placed (Nat.zero_add _) fits halts
    obtain ⟨rfl, rfl⟩ := behind.of_halt stopped
    simpa using runs
  · intro runs
    obtain ⟨steps, run⟩ := runs.machine placed (Nat.zero_add _) fits
    exact ⟨steps, _, run, stopped⟩

/-- Structured code keeps the meaning of a program, in every terrain: the body ends in an
environment with a trace of actions and tests if and only if the machine, started at the
beginning of the code, halts in that environment with that trace.
-/
theorem structured_code_keeps_meaning (terrain : Terrain Env) {program left : Program}
    {compiled : Compiled}
    (generated : program.generate .structured = (left, .generated compiled))
    (small : compiled.code.length ≤ UInt32.size) (env final : Env) (trace : List Event)
    : program.body.Runs terrain program.context env trace final
      ↔ Halts terrain compiled.code env trace final := by
  obtain ⟨plan, found, rfl⟩ := Program.plan_of_generated generated
  exact (Program.plan_sameRuns terrain found env trace final).trans
    (plan.halts_iff_runs small env final trace).symm

/-- A program with a loop, a choice and a call. -/
def patrol : Program :=
  {
    name := "Patrol"
    context :=
      .ofList
        [("step", .block [.ifElse .random (.block [.call "move"]) (.block [.call "turnleft"])])]
    body := .block [.whileDo .nextIsEmpty (.block [.call "step"]), .call "skip"]
  }

/-- A terrain of so many free fields, of which a move uses one up. All other actions change nothing;
a coin always says yes, and every other test does while a field is free.
-/
def corridor : Terrain Nat where
  act p free next := next = if p = .move then free - 1 else free
  test c free holds next := next = free ∧ (holds = true ↔ c = .random ∨ 0 < free)

theorem structured_code_keeps_meaning_patrol
    : patrol.generate .structured
        = (
          patrol,
          .generated ⟨"Patrol", [7, 10, 15, 7, 0, 6, 8, 1, 6, 0, 4, 5]⟩
        )
      ∧ Halts corridor [7, 10, 15, 7, 0, 6, 8, 1, 6, 0, 4, 5] 1
          [
            .test .nextIsEmpty true,
            .test .random true,
            .action .move,
            .test .nextIsEmpty false,
            .action .skip
          ]
          0 := by
  have generated : patrol.generate .structured
      = (patrol, .generated ⟨"Patrol", [7, 10, 15, 7, 0, 6, 8, 1, 6, 0, 4, 5]⟩) := by
    decide
  refine ⟨generated, ?_⟩
  apply (structured_code_keeps_meaning corridor generated (by decide) _ _ _).mp
  have move : (Statement.call "move").Runs corridor patrol.context 1 [.action .move] 0 :=
    .callPrimitive (by decide) (by decide) rfl
  have step : (Statement.call "step").Runs corridor patrol.context 1
      [.test .random true, .action .move] 0 :=
    .callDeclared rfl
      (.blockCons (.thenPart (by simp [corridor]) (.blockCons move .blockNil)) .blockNil)
  have loop : (Statement.whileDo .nextIsEmpty (.block [.call "step"])).Runs corridor patrol.context
      1
      [.test .nextIsEmpty true, .test .random true, .action .move, .test .nextIsEmpty false] 0 :=
    .whileHolds (by simp [corridor]) (.blockCons step .blockNil) (.whileFails (by simp [corridor]))
  have skip : (Statement.call "skip").Runs corridor patrol.context 0 [.action .skip] 0 :=
    .callPrimitive (by decide) (by decide) rfl
  exact .blockCons loop (.blockCons skip .blockNil)

end AgentLang
