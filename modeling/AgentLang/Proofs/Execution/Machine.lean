import AgentLang.Code

/-! The agent machine. It runs code over a terrain that says what actions do to the environment
and how conditions turn out. Nothing is assumed of the terrain: an action may be impossible or
have several results, and a test may change the environment.
-/

namespace AgentLang

universe u

structure Terrain (Env : Type u) where
  act : Primitive → Env → Env → Prop
  test : Condition → Env → Bool → Env → Prop

/-- What can be seen of a run: the actions, and the tests with their results. -/
inductive Event where
  | action (p : Primitive)
  | test (c : Condition) (holds : Bool)
  deriving DecidableEq, Repr

namespace Machine

structure State (Env : Type u) where
  pc : Nat
  env : Env

/-- The opcode at an offset. -/
def fetch (code : Code) (pc : Nat) : Option Opcode := code[pc]?.bind Opcode.ofCode?

variable {Env : Type u}

/-- One step of the machine. A halt has none. -/
inductive Step (terrain : Terrain Env) (code : Code) : State Env → List Event → State Env → Prop
  | act {pc p env next} (fetched : fetch code pc = some (.act p))
    (acted : terrain.act p env next)
    : Step terrain code ⟨pc, env⟩ [.action p] ⟨pc + 1, next⟩
  | jump {pc target env} (fetched : fetch code pc = some .jump)
    (operand : code[pc + 1]? = some target)
    : Step terrain code ⟨pc, env⟩ [] ⟨target.toNat, env⟩
  | pass {pc c env next} (fetched : fetch code pc = some (.jumpUnless c))
    (tested : terrain.test c env true next)
    : Step terrain code ⟨pc, env⟩ [.test c true] ⟨pc + 2, next⟩
  | branch {pc c target env next} (fetched : fetch code pc = some (.jumpUnless c))
    (operand : code[pc + 1]? = some target) (tested : terrain.test c env false next)
    : Step terrain code ⟨pc, env⟩ [.test c false] ⟨target.toNat, next⟩

/-- So many steps, with what is seen of them. -/
inductive Run (terrain : Terrain Env) (code : Code)
    : Nat → State Env → List Event → State Env → Prop
  | stay {state} : Run terrain code 0 state [] state
  | step {steps start next last events later} (first : Step terrain code start events next)
    (rest : Run terrain code steps next later last)
    : Run terrain code (steps + 1) start (events ++ later) last

/-- The machine reaches a halt in so many steps. -/
def HaltsIn (terrain : Terrain Env) (code : Code) (steps : Nat) (start : State Env)
    (trace : List Event) (final : Env)
    : Prop :=
  ∃ pc, Run terrain code steps start trace ⟨pc, final⟩ ∧ fetch code pc = some .halt

/-- The machine started at the beginning of the code reaches a halt. -/
def Halts (terrain : Terrain Env) (code : Code) (env : Env) (trace : List Event) (final : Env)
    : Prop :=
  ∃ steps, HaltsIn terrain code steps ⟨0, env⟩ trace final

variable {terrain : Terrain Env} {code : Code}

-----------------------------------------------------------------------------------------
-- Putting runs together
-----------------------------------------------------------------------------------------

theorem Run.single {start next : State Env} {events : List Event}
    (first : Step terrain code start events next)
    : Run terrain code 1 start events next := by
  simpa using Run.step first .stay

theorem Run.trans {left right : Nat} {start middle last : State Env} {early late : List Event}
    (first : Run terrain code left start early middle)
    (second : Run terrain code right middle late last)
    : Run terrain code (left + right) start (early ++ late) last := by
  induction first with
  | stay => simpa using second
  | @step steps _ _ _ events later step _ ih =>
      have joined := Run.step step (ih second)
      rw [Nat.add_right_comm, List.append_assoc]
      exact joined

-----------------------------------------------------------------------------------------
-- Taking the first step off a run that halts
-----------------------------------------------------------------------------------------

/-- A run that does not start at a halt makes a step, and a shorter run is left. -/
theorem HaltsIn.uncons {steps : Nat} {start : State Env} {trace : List Event} {final : Env}
    (h : HaltsIn terrain code steps start trace final) (busy : fetch code start.pc ≠ some .halt)
    : ∃ rest next events later,
        steps = rest + 1
        ∧ Step terrain code start events next
        ∧ trace = events ++ later
        ∧ HaltsIn terrain code rest next later final := by
  obtain ⟨pc, run, stopped⟩ := h
  cases run with
  | stay => exact (busy stopped).elim
  | step first rest => exact ⟨_, _, _, _, rfl, first, rfl, pc, rest, stopped⟩

/-- A run that starts at a halt stays there. -/
theorem HaltsIn.of_halt {steps pc : Nat} {env final : Env} {trace : List Event}
    (h : HaltsIn terrain code steps ⟨pc, env⟩ trace final) (fetched : fetch code pc = some .halt)
    : trace = [] ∧ final = env := by
  obtain ⟨_, run, _⟩ := h
  cases run with
  | stay => exact ⟨rfl, rfl⟩
  | step first _ =>
      cases first with
      | act found _ | jump found _ | pass found _ | branch found _ _ =>
          cases found.symm.trans fetched

/-- An action is performed first. -/
theorem HaltsIn.of_act {steps pc : Nat} {p : Primitive} {env final : Env} {trace : List Event}
    (h : HaltsIn terrain code steps ⟨pc, env⟩ trace final) (fetched : fetch code pc = some (.act p))
    : ∃ rest next later,
        steps = rest + 1
        ∧ terrain.act p env next
        ∧ trace = .action p :: later
        ∧ HaltsIn terrain code rest ⟨pc + 1, next⟩ later final := by
  obtain ⟨rest, next, events, later, counted, step, seen, halts⟩ := h.uncons (by simp [fetched])
  cases step with
  | act found acted =>
      cases found.symm.trans fetched
      exact ⟨rest, _, later, counted, acted, seen, halts⟩
  | jump found _ | pass found _ | branch found _ _ => cases found.symm.trans fetched

/-- A jump goes to its target and is not seen. -/
theorem HaltsIn.of_jump {steps pc : Nat} {target : UInt32} {env final : Env} {trace : List Event}
    (h : HaltsIn terrain code steps ⟨pc, env⟩ trace final) (fetched : fetch code pc = some .jump)
    (operand : code[pc + 1]? = some target)
    : ∃ rest, steps = rest + 1 ∧ HaltsIn terrain code rest ⟨target.toNat, env⟩ trace final := by
  obtain ⟨rest, next, events, later, counted, step, rfl, halts⟩ := h.uncons (by simp [fetched])
  cases step with
  | jump found read =>
      cases read.symm.trans operand
      exact ⟨rest, counted, halts⟩
  | act found _ | pass found _ | branch found _ _ => cases found.symm.trans fetched

/-- A conditional jump tests first, and then goes on behind itself or at its target. -/
theorem HaltsIn.of_jumpUnless {steps pc : Nat} {c : Condition} {target : UInt32} {env final : Env}
    {trace : List Event} (h : HaltsIn terrain code steps ⟨pc, env⟩ trace final)
    (fetched : fetch code pc = some (.jumpUnless c)) (operand : code[pc + 1]? = some target)
    : ∃ rest next later holds,
        steps = rest + 1
        ∧ terrain.test c env holds next
        ∧ trace = .test c holds :: later
        ∧ HaltsIn terrain code rest ⟨if holds then pc + 2 else target.toNat, next⟩ later final := by
  obtain ⟨rest, next, events, later, counted, step, seen, halts⟩ := h.uncons (by simp [fetched])
  cases step with
  | pass found tested =>
      cases found.symm.trans fetched
      exact ⟨rest, _, later, true, counted, tested, seen, halts⟩
  | branch found read tested =>
      cases found.symm.trans fetched
      cases read.symm.trans operand
      exact ⟨rest, _, later, false, counted, tested, seen, halts⟩
  | act found _ | jump found _ => cases found.symm.trans fetched

end Machine

end AgentLang
