import AgentLang.Proofs.Generation.Walk

/-! What generating code leaves of a program. The walk takes the body apart and the
declarations out; both are handed back unless a contract is broken on the way, and what is
handed back is what was taken.
-/

namespace AgentLang.Program

open Generator

/-- The walk over the body of a program. -/
def walk (style : JumpStyle) (program : Program) : Except Violation (Visit Context Statement) :=
  visit style (Context.store.expand style program.context.size) (.start program.context)
    program.body

/-- The plan of a program: its calls are resolved in its own context. -/
def plan (program : Program) : Except GenerateError Plan :=
  Plan.ofStatement (Plan.resolve program.context []) program.body

/-- A walk over a program follows its plan: the depth it starts with is the number of the
declarations, and no more calls than that are expanded inside one another.
-/
theorem walk_follows {style : JumpStyle} {program : Program} {result : Visit Context Statement}
    (walked : program.walk style = .ok result)
    : result.Follows style (.start program.context) program.body program.plan :=
  visit_follows (expand_realizes style program.context.size [] (Nat.le_refl _)) program.body walked
    rfl rfl

/-- The outcome of a plan: its error, or its code with a halt behind it. -/
def planned (style : JumpStyle) (program : Program) : Outcome :=
  match program.plan with
  | .error cause => .failed cause
  | .ok plan => .generated ⟨program.name, plan.code style 0 ++ [Opcode.halt.code]⟩

theorem planned_eq_failed_iff {style : JumpStyle} {program : Program} {cause : GenerateError}
    : program.planned style = .failed cause ↔ program.plan = .error cause := by
  unfold planned
  cases program.plan with
  | error other => simp
  | ok plan => simp

theorem planned_eq_generated_iff {style : JumpStyle} {program : Program} {compiled : Compiled}
    : program.planned style = .generated compiled
      ↔ ∃ plan,
          program.plan = .ok plan
          ∧ compiled = ⟨program.name, plan.code style 0 ++ [Opcode.halt.code]⟩ := by
  unfold planned
  cases program.plan with
  | error cause => simp
  | ok plan =>
      constructor
      · intro same
        exact ⟨plan, rfl, (Outcome.generated.inj same).symm⟩
      · rintro ⟨_, same, rfl⟩
        cases same
        rfl

/-- A contract broken during the walk: nothing is handed back. -/
theorem generate_of_violation {style : JumpStyle} {program : Program} {violation : Violation}
    (walked : program.walk style = .error violation)
    : program.generate style
      = ({ program with context := .empty, body := .empty }, .broken violation) := by
  unfold walk at walked
  simp only [generate, walked]

/-- A body that is no block: the declarations are handed back and the body is refused. -/
theorem generate_of_refused_body {style : JumpStyle} {program : Program}
    {result : Visit Context Statement} (walked : program.walk style = .ok result)
    (refused : program.body.kind ≠ .block)
    : program.generate style
      = ({ program with body := .empty }, .broken .exchangedBodyNotBlock) := by
  have h := walk_follows walked
  have context : result.emitter.context = program.context := h.context
  unfold walk at walked
  simp only [generate, walked, swapContext, swapBody, Statement.requireBlock, h.tree, context,
    if_neg refused]
  rfl

/-- A walk has the outcome that was planned. -/
theorem outcome_of_walk {style : JumpStyle} {program : Program} {result : Visit Context Statement}
    (walked : program.walk style = .ok result)
    : result.outcome program.name = program.planned style := by
  have h := walk_follows walked
  unfold Visit.outcome planned
  cases found : program.plan with
  | error cause => simp only [h.fails cause found]
  | ok plan =>
      obtain ⟨sound, written⟩ := h.emits plan found
      simp only [sound, Emitter.toList_emit, written]
      rfl

/-- Everything is handed back, and the outcome is what was planned. -/
theorem generate_of_walk {style : JumpStyle} {program : Program} {result : Visit Context Statement}
    (walked : program.walk style = .ok result) (block : program.body.kind = .block)
    : program.generate style = (program, program.planned style) := by
  have h := walk_follows walked
  have context : result.emitter.context = program.context := h.context
  rw [← outcome_of_walk walked]
  unfold walk at walked
  simp only [generate, walked, swapContext, swapBody, Statement.requireBlock, h.tree, context,
    if_pos block]
  rfl

/-- Code that was generated is the code of the plan. -/
theorem plan_of_generated {style : JumpStyle} {program left : Program} {compiled : Compiled}
    (generated : program.generate style = (left, .generated compiled))
    : ∃ plan,
        program.plan = .ok plan
        ∧ compiled = ⟨program.name, plan.code style 0 ++ [Opcode.halt.code]⟩ := by
  cases walked : program.walk style with
  | error violation =>
      rw [generate_of_violation walked] at generated
      cases generated
  | ok result =>
      by_cases block : program.body.kind = .block
      · rw [generate_of_walk walked block] at generated
        exact planned_eq_generated_iff.mp (Prod.mk.inj generated).2
      · rw [generate_of_refused_body walked block] at generated
        cases generated

/-- The ways in which generating code can end. -/
inductive Ending where
  | returned
  | stoppedInWalk
  | stoppedAtExchange
  deriving DecidableEq, Repr

/-- What it means for the generation of code to end in a way: how it was reported, and what the
program is afterwards.
-/
def Ending.Holds (style : JumpStyle) (program : Program) : Ending → Prop
  | returned =>
      (program.generate style).1 = program
      ∧ ((∃ compiled, (program.generate style).2 = .generated compiled)
        ∨ ∃ cause, (program.generate style).2 = .failed cause)
  | stoppedInWalk =>
      ∃ violation,
        program.walk style = .error violation
        ∧ program.generate style
          = ({ program with context := .empty, body := .empty }, .broken violation)
  | stoppedAtExchange =>
      program.body.kind ≠ .block
      ∧ (∃ result, program.walk style = .ok result)
      ∧ program.generate style
        = ({ program with body := .empty }, .broken .exchangedBodyNotBlock)

/-- Some ending holds: the walk breaks a contract, or the body is refused behind it, or all is
handed back.
-/
theorem ending_exists (style : JumpStyle) (program : Program)
    : ∃ ending : Ending, ending.Holds style program := by
  cases walked : program.walk style with
  | error violation => exact ⟨.stoppedInWalk, violation, walked, generate_of_violation walked⟩
  | ok result =>
      by_cases block : program.body.kind = .block
      · refine ⟨.returned, ?_⟩
        simp only [Ending.Holds, generate_of_walk walked block, planned, true_and]
        cases program.plan with
        | error cause => exact .inr ⟨cause, rfl⟩
        | ok plan => exact .inl ⟨_, rfl⟩
      · exact ⟨.stoppedAtExchange, block, ⟨result, walked⟩, generate_of_refused_body walked block⟩

/-- A return reports no broken contract. -/
theorem Ending.Holds.not_broken {style : JumpStyle} {program : Program}
    (h : Ending.returned.Holds style program) (violation : Violation)
    : (program.generate style).2 ≠ .broken violation := by
  rcases h.2 with ⟨compiled, reported⟩ | ⟨cause, reported⟩
  · simp [reported]
  · simp [reported]

/-- At most one ending holds: only a return reports no broken contract, and the two stops differ
in whether the walk breaks one.
-/
theorem ending_unique {style : JumpStyle} {program : Program} {left right : Ending}
    (h : left.Holds style program) (h' : right.Holds style program)
    : left = right := by
  cases left with
  | returned =>
      cases right with
      | returned => rfl
      | stoppedInWalk =>
          obtain ⟨violation, _, stopped⟩ := h'
          exact (h.not_broken violation (by rw [stopped])).elim
      | stoppedAtExchange => exact (h.not_broken _ (by rw [h'.2.2])).elim
  | stoppedInWalk =>
      obtain ⟨violation, walked, stopped⟩ := h
      cases right with
      | returned => exact (h'.not_broken violation (by rw [stopped])).elim
      | stoppedInWalk => rfl
      | stoppedAtExchange =>
          -- One walk cannot both break a contract and go through.
          obtain ⟨_, ⟨result, walked'⟩, _⟩ := h'
          rw [walked] at walked'
          cases walked'
  | stoppedAtExchange =>
      obtain ⟨_, ⟨result, walked⟩, stopped⟩ := h
      cases right with
      | returned => exact (h'.not_broken _ (by rw [stopped])).elim
      | stoppedInWalk =>
          obtain ⟨violation, walked', _⟩ := h'
          rw [walked] at walked'
          cases walked'
      | stoppedAtExchange => rfl

/-- Generating code ends in exactly one of three ways, whatever the shape of the trees, and
never changes the name: it returns and the program is as before; a contract is broken in the
walk and the program is left empty; or the walk goes through and the body, being no block, is
refused when it is handed back.
-/
theorem generate_ends_in_one_way (style : JumpStyle) (program : Program)
    : (program.generate style).1.name = program.name
      ∧ ∃ ending : Ending,
          ending.Holds style program
          ∧ ∀ other : Ending, other.Holds style program → other = ending := by
  obtain ⟨ending, holds⟩ := ending_exists style program
  refine ⟨?_, ending, holds, fun other holds' => ending_unique holds' holds⟩
  cases ending with
  | returned => rw [holds.1]
  | stoppedInWalk =>
      obtain ⟨_, _, left⟩ := holds
      rw [left]
  | stoppedAtExchange =>
      obtain ⟨_, _, left⟩ := holds
      rw [left]

-- A block in a block breaks a contract in the walk; a call as the body is refused behind it.
example
    : generate .single ⟨"folded", .empty, .block [.block []]⟩
      = (⟨"folded", .empty, .empty⟩, .broken .childIsBlock) := by
  decide

example
    : generate .structured ⟨"bare", .empty, .call "jump"⟩
      = (⟨"bare", .empty, .empty⟩, .broken .exchangedBodyNotBlock) := by
  decide

end AgentLang.Program
