import AgentLang.Build
import AgentLang.Proofs.Generation.Positions
import AgentLang.Proofs.Printing.Normal
import AgentLang.Proofs.Reading.Agreement

/-! What sources say and what becomes of it. A program that was read has the shape that the
contracts ask, so neither reading a source nor generating its code breaks a contract.
-/

namespace AgentLang

/-- What a source can say: names are identifiers and every tree has its shape, the body of each
declaration being a block too.
-/
structure Program.Written (program : Program) : Prop where
  named : program.Named
  shaped : program.Shaped
  blocks : ∀ entry ∈ program.context.entries, entry.2.kind = .block

namespace Grammar

theorem ne_empty_of_isIdentifier {name : String} (identifier : isIdentifier name = true)
    : name ≠ "" := by
  intro empty
  rw [empty] at identifier
  cases identifier

mutual

/-- A derived statement has the shape of a child of a block, by the form of the statement. -/
theorem Stmt.shaped {tokens : List Token} (s : Statement) (derived : Stmt tokens s)
    : s.kind ≠ .block ∧ s.Shaped := by
  cases derived with
  | call identifier => exact ⟨nofun, ne_empty_of_isIdentifier identifier⟩
  | @ifThen _ _ body inside => exact ⟨nofun, rfl, inside.shaped body⟩
  | @ifElse _ _ _ thenBody elseBody first second =>
      exact ⟨nofun, ⟨rfl, first.shaped thenBody⟩, rfl, second.shaped elseBody⟩
  | @whileDo _ _ body inside => exact ⟨nofun, rfl, inside.shaped body⟩
termination_by sizeOf s

theorem Block.shaped {tokens : List Token} (body : List Statement) (derived : Block tokens body)
    : Statement.ShapedAll body := by
  cases derived with
  | nil => trivial
  | @cons _ _ s rest first later => exact ⟨first.shaped s, later.shaped rest⟩
termination_by sizeOf body

end

/-- A derived program is one that a source can say. -/
theorem Derives.written {tokens : List Token} {program : Program}
    (derived : Derives tokens program)
    : program.Written := by
  refine ⟨derived.named, ?_, ?_⟩
  · cases derived with
    | @program _ _ _ entries body _ declared _ inside =>
        refine ⟨rfl, inside.shaped body, ?_⟩
        intro entry member
        obtain ⟨_, instruction⟩ := declared.instruction (Context.mem_ofList member)
        cases instruction with
        | @declare _ _ instructionBody _ _ inside => exact inside.shaped instructionBody
  · cases derived with
    | @program _ _ _ entries _ _ declared _ _ =>
        intro entry member
        obtain ⟨_, instruction⟩ := declared.instruction (Context.mem_ofList member)
        cases instruction with
        | declare _ _ _ => rfl

end Grammar

namespace Program

theorem written_of_read {tokens : List Token} {program : Program}
    (accepted : (read tokens).result = .ok program)
    : program.Written :=
  (Reader.derives_of_read accepted).written

theorem written_of_ofSource {source : String} {program : Program}
    (accepted : ofSource source = .ok program)
    : program.Written :=
  written_of_read accepted

/-- Building ends with code, with an error of the text or with an error of the program. -/
theorem build_ends (style : JumpStyle) (source : String)
    : (∃ built, build style source = .ok built)
      ∨ (∃ cause, build style source = .error (.parse cause))
      ∨ ∃ name cause, build style source = .error (.generate name cause) := by
  unfold build
  cases read : ofSource source with
  | error cause => exact .inr (.inl ⟨cause, rfl⟩)
  | ok program =>
      have shaped := (written_of_ofSource read).shaped
      have returned := generate_of_shaped style shaped
      cases outcome : program.planned style with
      | generated compiled =>
          rw [outcome] at returned
          simp only [returned]
          exact .inl ⟨_, rfl⟩
      | failed cause =>
          rw [outcome] at returned
          simp only [returned]
          exact .inr (.inr ⟨_, _, rfl⟩)
      | broken violation => exact (planned_ne_broken style program violation outcome).elim

/-- The walk by positions returns from a shaped program. -/
theorem positions_return (style : JumpStyle) {program : Program} (shaped : program.Shaped)
    : ∃ result,
        Generator.Positions.generator style (.start program.context) program.body
          = .ok result := by
  obtain ⟨result, walked⟩ :=
    Generator.visit_expand_returns style (.start program.context) (Nat.le_refl _) shaped.body
      fun _ _ _ found => shaped.get? found
  exact ⟨result, Generator.Positions.contract_eq_ok_iff.mpr walked⟩

/-- No text breaks a contract. Read by descent, whose trees are put together under contracts, any
token sequence gives what the reader gives; what is read is a program that a source can say; the
code of a program of that shape is generated without a broken contract, and the one walk that takes
its trees apart and puts them together by positions and kinds returns; and so building ends with
code or with an error that it reports.
-/
theorem sources_break_no_contract
    : (∀ tokens, Descent.program tokens = .ok ((read tokens).result, (read tokens).left))
      ∧ (∀ tokens program, (read tokens).result = .ok program → program.Written)
      ∧ (∀ (style : JumpStyle) (program : Program) (violation : Violation),
          program.Shaped → (program.generate style).2 ≠ .broken violation)
      ∧ (∀ style, ∃ walk,
          (∀ other, Generator.ByPositions style other ↔ other = walk)
          ∧ ∀ program : Program,
              program.Shaped → ∃ result, walk (.start program.context) program.body = .ok result)
      ∧ ∀ style source,
          (∃ built, build style source = .ok built)
          ∨ (∃ cause, build style source = .error (.parse cause))
          ∨ ∃ name cause, build style source = .error (.generate name cause) := by
  refine ⟨Descent.program_eq_read, ?_, ?_, ?_, build_ends⟩
  · intro tokens program accepted
    exact written_of_read accepted
  · intro style program violation shaped
    exact generate_ne_broken style shaped violation
  · intro style
    exact ⟨Generator.Positions.generator style, fun _ => Generator.byPositions_iff,
      fun _ => positions_return style⟩

/-- An instruction with an empty second body, called from a loop. -/
def relay : List Token :=
  ["PROGRAM", "relay", "IS", "INSTRUCTION", "pass", "IS", "IF", "random", "THEN", "move", "ELSE",
    "END", "IF", "END", "pass", "BEGIN", "WHILE", "true", "DO", "pass", "END", "WHILE", "END",
    "relay"]

theorem sources_break_no_contract_relay
    : ∃ program,
        Descent.program relay = .ok (.ok program, [])
        ∧ program.Written
        ∧ ∀ style violation, (program.generate style).2 ≠ .broken violation := by
  have accepted : read relay
      = {
        result :=
          .ok {
            name := "relay"
            context :=
              .ofList [("pass", .block [.ifElse .random (.block [.call "move"]) (.block [])])]
            body := .block [.whileDo .always (.block [.call "pass"])]
          }
        left := []
      } := by
    rfl
  obtain ⟨descends, written, generates, _⟩ := sources_break_no_contract
  have said := written relay _ (congrArg Reader.Reading.result accepted)
  refine ⟨_, ?_, said, fun style violation => generates style _ violation said.shaped⟩
  rw [descends, accepted]

end Program

end AgentLang
