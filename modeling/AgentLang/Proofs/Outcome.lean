/-! Computations that may fail, taken apart. -/

namespace AgentLang

/-- A computation succeeds when its first part does and the rest does with what that gave. -/
theorem bind_eq_ok_iff {ε α β : Type} {first : Except ε α} {next : α → Except ε β} {result : β}
    : first >>= next = .ok result ↔ ∃ value, first = .ok value ∧ next value = .ok result := by
  cases first with
  | error cause => exact ⟨nofun, nofun⟩
  | ok value => exact ⟨fun h => ⟨value, rfl, h⟩, fun ⟨_, same, h⟩ => Except.ok.inj same ▸ h⟩

/-- A computation fails in its first part or behind it. -/
theorem bind_eq_error_iff {ε α β : Type} {first : Except ε α} {next : α → Except ε β} {cause : ε}
    : first >>= next = .error cause
      ↔ first = .error cause ∨ ∃ value, first = .ok value ∧ next value = .error cause := by
  cases first with
  | error other =>
      constructor
      · intro h
        exact .inl (congrArg Except.error (Except.error.inj h))
      · intro h
        rcases h with same | ⟨_, impossible, _⟩
        · exact congrArg Except.error (Except.error.inj same)
        · cases impossible
  | ok value =>
      constructor
      · intro h
        exact .inr ⟨value, rfl, h⟩
      · intro h
        rcases h with impossible | ⟨_, same, h⟩
        · cases impossible
        · exact Except.ok.inj same ▸ h

theorem pure_eq_ok_iff {ε α : Type} {value result : α}
    : (pure value : Except ε α) = .ok result ↔ result = value :=
  ⟨fun h => (Except.ok.inj h).symm, fun h => h ▸ rfl⟩

/-- What is made of a result fails only where the result does. -/
theorem bind_pure_eq_error_iff {ε α β : Type} {first : Except ε α} {make : α → β} {cause : ε}
    : (first >>= fun value => pure (make value)) = .error cause ↔ first = .error cause := by
  rw [bind_eq_error_iff]
  constructor
  · intro h
    rcases h with failed | ⟨_, _, impossible⟩
    · exact failed
    · cases impossible
  · exact .inl

/-- What is made of a result is there when the result is. -/
theorem bind_pure_eq_ok_iff {ε α β : Type} {first : Except ε α} {make : α → β} {result : β}
    : (first >>= fun value => pure (make value)) = .ok result
      ↔ ∃ value, first = .ok value ∧ result = make value := by
  simp only [bind_eq_ok_iff, pure_eq_ok_iff]

/-- What follows a computation matters only where the computation succeeds. -/
theorem bind_congr_of_ok {ε α β : Type} {first : Except ε α} {next other : α → Except ε β}
    (same : ∀ value, first = .ok value → next value = other value)
    : first >>= next = first >>= other := by
  cases first with
  | error cause => rfl
  | ok value => exact same value rfl

/-- The error of a computation that fails. -/
def failure? {ε α : Type} : Except ε α → Option ε
  | .error cause => some cause
  | .ok _ => none

theorem failure?_eq_some_iff {ε α : Type} {outcome : Except ε α} {cause : ε}
    : failure? outcome = some cause ↔ outcome = .error cause := by
  cases outcome <;> simp [failure?]

theorem failure?_eq_none_iff {ε α : Type} {outcome : Except ε α}
    : failure? outcome = none ↔ ∃ value, outcome = .ok value := by
  cases outcome <;> simp [failure?]

theorem failure?_bind_pure {ε α β : Type} (first : Except ε α) (make : α → β)
    : failure? (first >>= fun value => pure (make value)) = failure? first := by
  cases first <;> rfl

/-- Of two parts the first that fails decides. -/
theorem failure?_bind_bind_pure {ε α β γ : Type} (first : Except ε α) (second : Except ε β)
    (make : α → β → γ)
    : failure? (first >>= fun left => second >>= fun right => pure (make left right))
      = (failure? first).or (failure? second) := by
  cases first with
  | error cause => rfl
  | ok left => exact failure?_bind_pure second (make left)

end AgentLang
