import AgentLang.Proofs.Execution.Machine
import AgentLang.Proofs.Generation.HandingBack

/-! What statements mean, and that resolving the calls of a statement keeps its meaning. A run
of a statement ends in an environment and leaves a trace of actions and tests; a statement
without an end, such as a loop whose test never fails, has no run.
-/

namespace AgentLang

universe u

variable {Env : Type u}

/-- The runs of a statement among the declarations of a context. A call runs the body declared
under its name, and the primitive of that name when nothing is declared.
-/
inductive Statement.Runs (terrain : Terrain Env) (context : Context)
    : Statement → Env → List Event → Env → Prop
  | blockNil {env} : Statement.Runs terrain context (.block []) env [] env
  | blockCons {child rest env middle final early late}
    (first : Statement.Runs terrain context child env early middle)
    (later : Statement.Runs terrain context (.block rest) middle late final)
    : Statement.Runs terrain context (.block (child :: rest)) env (early ++ late) final
  | ifHolds {c body env middle final trace} (tested : terrain.test c env true middle)
    (run : Statement.Runs terrain context body middle trace final)
    : Statement.Runs terrain context (.ifThen c body) env (.test c true :: trace) final
  | ifFails {c body env final} (tested : terrain.test c env false final)
    : Statement.Runs terrain context (.ifThen c body) env [.test c false] final
  | thenPart {c thenBody elseBody env middle final trace} (tested : terrain.test c env true middle)
    (run : Statement.Runs terrain context thenBody middle trace final)
    : Statement.Runs terrain context (.ifElse c thenBody elseBody) env (.test c true :: trace) final
  | elsePart {c thenBody elseBody env middle final trace}
    (tested : terrain.test c env false middle)
    (run : Statement.Runs terrain context elseBody middle trace final)
    : Statement.Runs terrain context (.ifElse c thenBody elseBody) env (.test c false :: trace)
        final
  | whileHolds {c body env middle behind final early late}
    (tested : terrain.test c env true middle)
    (run : Statement.Runs terrain context body middle early behind)
    (again : Statement.Runs terrain context (.whileDo c body) behind late final)
    : Statement.Runs terrain context (.whileDo c body) env (.test c true :: (early ++ late)) final
  | whileFails {c body env final} (tested : terrain.test c env false final)
    : Statement.Runs terrain context (.whileDo c body) env [.test c false] final
  | callDeclared {name body env final trace} (found : context.get? name = some body)
    (run : Statement.Runs terrain context body env trace final)
    : Statement.Runs terrain context (.call name) env trace final
  | callPrimitive {name p env final} (missing : context.get? name = none)
    (primitive : Primitive.ofWord? name = some p) (acted : terrain.act p env final)
    : Statement.Runs terrain context (.call name) env [.action p] final

/-- The runs of a plan. -/
inductive Plan.Runs (terrain : Terrain Env) : Plan → Env → List Event → Env → Prop
  | done {env} : Plan.Runs terrain .done env [] env
  | act {p env final} (acted : terrain.act p env final)
    : Plan.Runs terrain (.act p) env [.action p] final
  | seq {first second env middle final early late} (run : Plan.Runs terrain first env early middle)
    (later : Plan.Runs terrain second middle late final)
    : Plan.Runs terrain (.seq first second) env (early ++ late) final
  | ifHolds {c body env middle final trace} (tested : terrain.test c env true middle)
    (run : Plan.Runs terrain body middle trace final)
    : Plan.Runs terrain (.ifThen c body) env (.test c true :: trace) final
  | ifFails {c body env final} (tested : terrain.test c env false final)
    : Plan.Runs terrain (.ifThen c body) env [.test c false] final
  | thenPart {c thenPlan elsePlan env middle final trace} (tested : terrain.test c env true middle)
    (run : Plan.Runs terrain thenPlan middle trace final)
    : Plan.Runs terrain (.ifElse c thenPlan elsePlan) env (.test c true :: trace) final
  | elsePart {c thenPlan elsePlan env middle final trace} (tested : terrain.test c env false middle)
    (run : Plan.Runs terrain elsePlan middle trace final)
    : Plan.Runs terrain (.ifElse c thenPlan elsePlan) env (.test c false :: trace) final
  | whileHolds {c body env middle behind final early late} (tested : terrain.test c env true middle)
    (run : Plan.Runs terrain body middle early behind)
    (again : Plan.Runs terrain (.whileDo c body) behind late final)
    : Plan.Runs terrain (.whileDo c body) env (.test c true :: (early ++ late)) final
  | whileFails {c body env final} (tested : terrain.test c env false final)
    : Plan.Runs terrain (.whileDo c body) env [.test c false] final

variable {terrain : Terrain Env} {context : Context}

/-- A statement and a plan have the same runs. -/
def SameRuns (terrain : Terrain Env) (context : Context) (s : Statement) (plan : Plan) : Prop :=
  ∀ env trace final, s.Runs terrain context env trace final ↔ plan.Runs terrain env trace final

-----------------------------------------------------------------------------------------
-- One construct at a time
-----------------------------------------------------------------------------------------

namespace SameRuns

theorem nil : SameRuns terrain context (.block []) .done := by
  intro env trace final
  constructor
  · intro run
    cases run with
    | blockNil => exact .done
  · intro run
    cases run with
    | done => exact .blockNil

theorem cons {child : Statement} {rest : List Statement} {first later : Plan}
    (same : SameRuns terrain context child first)
    (sameRest : SameRuns terrain context (.block rest) later)
    : SameRuns terrain context (.block (child :: rest)) (.seq first later) := by
  intro env trace final
  constructor
  · intro run
    cases run with
    | blockCons run runRest =>
        exact .seq ((same _ _ _).mp run) ((sameRest _ _ _).mp runRest)
  · intro run
    cases run with
    | seq run runRest =>
        exact .blockCons ((same _ _ _).mpr run) ((sameRest _ _ _).mpr runRest)

theorem ifThen {c : Condition} {body : Statement} {plan : Plan}
    (same : SameRuns terrain context body plan)
    : SameRuns terrain context (.ifThen c body) (.ifThen c plan) := by
  intro env trace final
  constructor
  · intro run
    cases run with
    | ifHolds tested run => exact .ifHolds tested ((same _ _ _).mp run)
    | ifFails tested => exact .ifFails tested
  · intro run
    cases run with
    | ifHolds tested run => exact .ifHolds tested ((same _ _ _).mpr run)
    | ifFails tested => exact .ifFails tested

theorem ifElse {c : Condition} {thenBody elseBody : Statement} {thenPlan elsePlan : Plan}
    (sameThen : SameRuns terrain context thenBody thenPlan)
    (sameElse : SameRuns terrain context elseBody elsePlan)
    : SameRuns terrain context (.ifElse c thenBody elseBody) (.ifElse c thenPlan elsePlan) := by
  intro env trace final
  constructor
  · intro run
    cases run with
    | thenPart tested run => exact .thenPart tested ((sameThen _ _ _).mp run)
    | elsePart tested run => exact .elsePart tested ((sameElse _ _ _).mp run)
  · intro run
    cases run with
    | thenPart tested run => exact .thenPart tested ((sameThen _ _ _).mpr run)
    | elsePart tested run => exact .elsePart tested ((sameElse _ _ _).mpr run)

/-- A loop runs its body as often as the loop of the plan does, by induction on the run. -/
theorem whileDo {c : Condition} {body : Statement} {plan : Plan}
    (same : SameRuns terrain context body plan)
    : SameRuns terrain context (.whileDo c body) (.whileDo c plan) := by
  intro env trace final
  constructor
  · intro run
    generalize looped : Statement.whileDo c body = s at run
    induction run with
    | whileHolds tested run _ _ ih =>
        cases looped
        exact .whileHolds tested ((same _ _ _).mp run) (ih rfl)
    | whileFails tested =>
        cases looped
        exact .whileFails tested
    | _ => cases looped
  · intro run
    generalize looped : Plan.whileDo c plan = p at run
    induction run with
    | whileHolds tested run _ _ ih =>
        cases looped
        exact .whileHolds tested ((same _ _ _).mpr run) (ih rfl)
    | whileFails tested =>
        cases looped
        exact .whileFails tested
    | _ => cases looped

/-- A call of a declared instruction runs as the declared body does. -/
theorem callDeclared {name : String} {body : Statement} {plan : Plan}
    (found : context.get? name = some body) (same : SameRuns terrain context body plan)
    : SameRuns terrain context (.call name) plan := by
  intro env trace final
  constructor
  · intro run
    cases run with
    | callDeclared other run =>
        cases other.symm.trans found
        exact (same _ _ _).mp run
    | callPrimitive missing _ _ => cases missing.symm.trans found
  · intro run
    exact .callDeclared found ((same _ _ _).mpr run)

theorem callPrimitive {name : String} {p : Primitive} (missing : context.get? name = none)
    (primitive : Primitive.ofWord? name = some p)
    : SameRuns terrain context (.call name) (.act p) := by
  intro env trace final
  constructor
  · intro run
    cases run with
    | callDeclared found _ => cases found.symm.trans missing
    | callPrimitive _ other acted =>
        cases other.symm.trans primitive
        exact .act acted
  · intro run
    cases run with
    | act acted => exact .callPrimitive missing primitive acted

end SameRuns

-----------------------------------------------------------------------------------------
-- Whole statements and all calls
-----------------------------------------------------------------------------------------

namespace Plan

/-- What a name is resolved to has the runs of a call of that name. -/
def Resolver.Sound (terrain : Terrain Env) (context : Context) (resolve : Resolver) : Prop :=
  ∀ name plan, resolve name = .ok plan → SameRuns terrain context (.call name) plan

mutual

/-- A plan has the runs of its statement when calls are resolved soundly, by the constructs of
the statement.
-/
theorem ofStatement_sameRuns {resolve : Resolver} (sound : resolve.Sound terrain context)
    (s : Statement) {plan : Plan} (found : ofStatement resolve s = .ok plan)
    : SameRuns terrain context s plan := by
  cases s with
  | block children => exact ofAll_sameRuns sound children found
  | ifThen c body =>
      obtain ⟨bodyPlan, foundBody, rfl⟩ := bind_pure_eq_ok_iff.mp found
      exact .ifThen (ofStatement_sameRuns sound body foundBody)
  | ifElse c thenBody elseBody =>
      obtain ⟨thenPlan, foundThen, rest⟩ := bind_eq_ok_iff.mp found
      obtain ⟨elsePlan, foundElse, rfl⟩ := bind_pure_eq_ok_iff.mp rest
      exact .ifElse (ofStatement_sameRuns sound thenBody foundThen)
        (ofStatement_sameRuns sound elseBody foundElse)
  | whileDo c body =>
      obtain ⟨bodyPlan, foundBody, rfl⟩ := bind_pure_eq_ok_iff.mp found
      exact .whileDo (ofStatement_sameRuns sound body foundBody)
  | call name => exact sound name plan found
termination_by sizeOf s

theorem ofAll_sameRuns {resolve : Resolver} (sound : resolve.Sound terrain context)
    (children : List Statement) {plan : Plan} (found : ofAll resolve children = .ok plan)
    : SameRuns terrain context (.block children) plan := by
  cases children with
  | nil =>
      cases found
      exact .nil
  | cons child rest =>
      obtain ⟨first, foundFirst, remaining⟩ := bind_eq_ok_iff.mp found
      obtain ⟨later, foundLater, rfl⟩ := bind_pure_eq_ok_iff.mp remaining
      exact .cons (ofStatement_sameRuns sound child foundFirst)
        (ofAll_sameRuns sound rest foundLater)
termination_by sizeOf children

end

/-- Resolving is sound although it takes out the declarations being expanded: where one of them
would be missed, resolving fails. By induction on the declarations that are left.
-/
theorem resolve_sound (left : Context) (expanding : List String)
    (remaining : Remaining context expanding left)
    : Resolver.Sound terrain context (resolve left expanding) := by
  intro name plan found
  cases declared : left.get? name with
  | some body =>
      rw [resolve_declared declared] at found
      -- A declaration that is left was never being expanded, so the whole context has it too.
      have outer : context.get? name = some body := by
        have lookup := remaining name
        split at lookup
        · cases lookup.symm.trans declared
        · exact lookup.symm.trans declared
      exact .callDeclared outer
        (ofStatement_sameRuns
          (resolve_sound (left.erase name) (name :: expanding) (remaining.erase name)) body found)
  | none =>
      rw [resolve_undeclared declared] at found
      unfold ofName at found
      split at found
      · cases found
      · rename_i fresh
        -- The name is not being expanded, so it is missing from the whole context.
        have missing : context.get? name = none := by
          have lookup := remaining name
          rw [if_neg (by simpa using fresh)] at lookup
          exact lookup.symm.trans declared
        cases primitive : Primitive.ofWord? name with
        | none =>
            rw [primitive] at found
            cases found
        | some p =>
            rw [primitive] at found
            cases found
            exact .callPrimitive missing primitive
termination_by left.size
decreasing_by exact Context.size_erase_lt declared

end Plan

/-- The plan of a program has the runs of its body. -/
theorem Program.plan_sameRuns (terrain : Terrain Env) {program : Program} {plan : Plan}
    (found : program.plan = .ok plan)
    : SameRuns terrain program.context program.body plan :=
  Plan.ofStatement_sameRuns
    (Plan.resolve_sound program.context [] fun _ => by simp) program.body found

end AgentLang
