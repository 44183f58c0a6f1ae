import AgentLang.Proofs.Reading.Agreement
import AgentLang.Proofs.Reading.Continuation
import AgentLang.Proofs.Reading.Soundness

/-! Readings that fail. A reading takes its tokens through the one that its error names, and the
others have no part in it; and the only contract that a text can break is that no name is declared
twice, which it does by a second declaration that has nothing else wrong with it.
-/

namespace AgentLang.Program

open Grammar Reader

-----------------------------------------------------------------------------------------
-- What a reading takes
-----------------------------------------------------------------------------------------

/-- A reading takes the first of the tokens and leaves the others as they were. None is left of a
program, or where more was needed; any other error names the last token that was taken, and comes
with every text that starts with the tokens taken. All this is so when the text is read by
descent, which looks at tokens before it takes them.
-/
theorem readings_take_through_named_token (tokens : List Token)
    : ∃ taken,
        tokens = taken ++ (read tokens).left
        ∧ Descent.program tokens = .ok ((read tokens).result, (read tokens).left)
        ∧ (∀ program, (read tokens).result = .ok program → (read tokens).left = [])
        ∧ (∀ wanted,
            (read tokens).result = .error (.grammar (.unexpectedEnd wanted))
            → (read tokens).left = [])
        ∧ ∀ cause,
            (read tokens).result = .error cause
            → (∀ wanted, cause ≠ .grammar (.unexpectedEnd wanted))
            → (∃ before token, taken = before ++ [token] ∧ cause.token? = some token)
              ∧ ∀ more,
                  read (taken ++ more) = ⟨.error cause, more⟩
                  ∧ Descent.program (taken ++ more) = .ok (.error cause, more) := by
  have descends := Descent.program_eq_read
  cases run_ends .start tokens with
  | atEnd passed ended =>
      have reading : read tokens = ⟨_, []⟩ := ended
      refine ⟨tokens, ?_, descends tokens, ?_, ?_, ?_⟩
      · rw [reading, List.append_nil]
      · intro _ _
        rw [reading]
      · intro _ _
        rw [reading]
      · intro cause failed otherCause
        rw [reading] at failed
        obtain ⟨wanted, same⟩ := finish_eq_error failed
        exact (otherCause wanted same).elim
  | @atToken before token left last refusal cut passed refused ended =>
      have reading : read tokens = ⟨.error refusal, left⟩ := ended
      refine ⟨before ++ [token], ?_, descends tokens, ?_, ?_, ?_⟩
      · rw [reading, cut, List.append_assoc]
        rfl
      · intro program accepted
        rw [reading] at accepted
        cases accepted
      · intro wanted failed
        rw [reading] at failed
        cases failed
        exact (step_ne_unexpectedEnd refused).elim
      · intro cause failed _
        rw [reading] at failed
        cases failed
        refine ⟨⟨before, token, rfl, (refusal_of_step refused).names⟩, ?_⟩
        intro more
        have again : read (before ++ [token] ++ more) = ⟨.error refusal, more⟩ := by
          rw [List.append_assoc]
          exact passed.run_refused refused more
        exact ⟨again, by rw [descends, again]⟩

/-- A name that is declared twice, with a text behind it that no program has. -/
def twice : List Token :=
  ["PROGRAM", "twice", "IS", "INSTRUCTION", "turn", "IS", "turnleft", "END", "turn",
    "INSTRUCTION", "turn", "IS", "IF", "random", "THEN", "turn", "ELSE", "END", "IF", "END",
    "turn", "ELSE", "END"]

theorem readings_take_through_named_token_twice
    : read twice = ⟨.error (.contract (.duplicateInstruction "turn")), ["ELSE", "END"]⟩
      ∧ ∀ more,
          Descent.program (twice.take 21 ++ more)
            = .ok (.error (.contract (.duplicateInstruction "turn")), more) := by
  have reading : read twice
      = ⟨.error (.contract (.duplicateInstruction "turn")), ["ELSE", "END"]⟩ := rfl
  obtain ⟨taken, cut, _, _, _, fails⟩ := readings_take_through_named_token twice
  have isTaken : twice.take 21 = taken := by
    rw [reading] at cut
    have cut' : twice.take 21 ++ ["ELSE", "END"] = taken ++ ["ELSE", "END"] := cut
    exact List.append_cancel_right cut'
  refine ⟨reading, fun more => ?_⟩
  rw [isTaken]
  exact ((fails _ (by rw [reading]) fun _ => by simp).2 more).2

-----------------------------------------------------------------------------------------
-- Names declared twice
-----------------------------------------------------------------------------------------

/-- Declarations under distinct names, and behind them one more under a name among these. What
follows it is of no account.
-/
inductive Redeclares (name : String) : List Token → Prop
  | again {program tokens more rest entries body} (identifier : isIdentifier program = true)
    (declared : Instructions tokens entries) (distinct : (entries.map (·.1)).Nodup)
    (repeated : Instruction more (name, body)) (taken : name ∈ entries.map (·.1))
    : Redeclares name (["PROGRAM", program, "IS"] ++ tokens ++ more ++ rest)

/-- Tokens that pass from the start are those that the state stands for, by induction on them. -/
theorem Reader.Passes.spelled {state last : State} {before tokens : List Token}
    (passed : Passes state tokens last) (spelled : state.Spelled before)
    : last.Spelled (before ++ tokens) := by
  induction passed generalizing before with
  | stay => rwa [List.append_nil]
  | onward stepped _ ih =>
      have further := ih (spelled.step stepped)
      rwa [List.append_assoc] at further

/-- The tokens up to the closing name of a declaration whose name is taken. -/
theorem Reader.State.Spelled.redeclares {heading : Heading} {name : String} {body : Statement}
    {tokens : List Token}
    (spelled : State.Spelled (.closingName heading (.instruction name) body) tokens)
    (taken : heading.context.contains name = true) (rest : List Token)
    : Redeclares name (tokens ++ name :: rest) := by
  cases spelled with
  | closingName before inside =>
      cases before with
      | instruction before identifier free =>
          cases before with
          | declared programIdentifier declarations distinct =>
              have declaredTwice := @Redeclares.again name _ _ _ rest _ _ programIdentifier
                declarations distinct (.declare identifier free inside)
                (Context.contains_ofList_iff.mp taken)
              simpa using declaredTwice

theorem redeclares_of_read {tokens : List Token} {name : String}
    (failed : (read tokens).result = .error (.contract (.duplicateInstruction name)))
    : Redeclares name tokens := by
  cases run_ends .start tokens with
  | atEnd _ ended =>
      rw [read, ended] at failed
      obtain ⟨_, impossible⟩ := finish_eq_error failed
      cases impossible
  | @atToken before token left last refusal cut passed refused ended =>
      rw [read, ended] at failed
      cases failed
      cases refusal_of_step refused with
      | taken closing declared =>
          subst closing cut
          exact (passed.spelled .start).redeclares declared left

/-- The second declaration is read to its end, where its name is refused. -/
theorem Redeclares.read {tokens : List Token} {name : String} (again : Redeclares name tokens)
    : (Program.read tokens).result = .error (.contract (.duplicateInstruction name)) := by
  cases again with
  | @again program tokens more rest entries body identifier declared distinct repeated taken =>
      have known : (Context.ofList entries).contains name = true :=
        Context.contains_ofList_iff.mpr taken
      simp only [List.append_assoc, List.cons_append, List.nil_append]
      rw [read_heading identifier, run_instructions declared distinct _ fun _ _ => rfl]
      exact congrArg Reading.result (run_instruction_taken repeated _ known rest)

/-- A text breaks the contract of programs exactly when it declares a name twice, and then that
name is reported, whatever else is wrong behind the second declaration.
-/
theorem contract_broken_by_redeclaration (tokens : List Token)
    : (∀ name,
        (read tokens).result = .error (.contract (.duplicateInstruction name))
        ↔ Redeclares name tokens)
      ∧ ((∃ cause, (read tokens).result = .error cause ∧ cause.isContractViolation = true)
        ↔ ∃ name, Redeclares name tokens) := by
  refine ⟨fun name => ⟨redeclares_of_read, Redeclares.read⟩, ?_⟩
  constructor
  · rintro ⟨cause, failed, isViolation⟩
    cases cause with
    | grammar cause => cases isViolation
    | contract cause =>
        cases cause with
        | duplicateInstruction name => exact ⟨name, redeclares_of_read failed⟩
  · rintro ⟨name, again⟩
    exact ⟨_, again.read, rfl⟩

end AgentLang.Program
