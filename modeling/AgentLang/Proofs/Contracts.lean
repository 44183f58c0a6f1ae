import AgentLang.Proofs.Outcome
import AgentLang.Statement.Edit

/-! The contracts of putting statements together, exactly: when each operation succeeds, and
with which tree.
-/

namespace AgentLang.Statement

theorem asChild_eq_ok_iff {child result : Statement}
    : child.asChild = .ok result ↔ child.kind ≠ .block ∧ result = child := by
  unfold asChild
  split
  · simp_all
  · simp_all [eq_comm]

theorem requireBlock_eq_ok_iff {violation : Violation} {part : Statement} {passed : Unit}
    : requireBlock violation part = .ok passed ↔ part.kind = .block := by
  unfold requireBlock
  split <;> simp_all

theorem assembleIf_eq_ok_iff {condition : Condition} {body result : Statement}
    : assembleIf condition body = .ok result
      ↔ body.kind = .block ∧ result = .ifThen condition body := by
  simp only [assembleIf, bind_eq_ok_iff, requireBlock_eq_ok_iff, pure_eq_ok_iff, exists_const]

theorem assembleIfElse_eq_ok_iff {condition : Condition} {thenBody elseBody result : Statement}
    : assembleIfElse condition thenBody elseBody = .ok result
      ↔ thenBody.kind = .block
        ∧ elseBody.kind = .block
        ∧ result = .ifElse condition thenBody elseBody := by
  simp only [assembleIfElse, bind_eq_ok_iff, requireBlock_eq_ok_iff, pure_eq_ok_iff, exists_const]

theorem assembleWhile_eq_ok_iff {condition : Condition} {body result : Statement}
    : assembleWhile condition body = .ok result
      ↔ body.kind = .block ∧ result = .whileDo condition body := by
  simp only [assembleWhile, bind_eq_ok_iff, requireBlock_eq_ok_iff, pure_eq_ok_iff, exists_const]

theorem assembleCall_eq_ok_iff {name : String} {result : Statement}
    : assembleCall name = .ok result ↔ name ≠ "" ∧ result = .call name := by
  unfold assembleCall
  split
  · simp_all
  · simp_all [eq_comm]

theorem children_eq_ok_iff {s : Statement} {found : List Statement}
    : s.children = .ok found ↔ s = .block found := by
  cases s <;> simp [children]

theorem insertAt_eq_ok_iff {s child result : Statement} {position : Nat}
    : s.insertAt position child = .ok result
      ↔ child.kind ≠ .block
        ∧ ∃ children,
            s = .block children
            ∧ position ≤ children.length
            ∧ result = .block (children.take position ++ child :: children.drop position) := by
  simp only [insertAt, bind_eq_ok_iff, asChild_eq_ok_iff, children_eq_ok_iff]
  constructor
  · intro inserted
    obtain ⟨_, ⟨noBlock, rfl⟩, children, rfl, placed⟩ := inserted
    split at placed
    · rename_i inside
      exact ⟨noBlock, children, rfl, inside, pure_eq_ok_iff.mp placed⟩
    · cases placed
  · intro fits
    obtain ⟨noBlock, children, rfl, inside, rfl⟩ := fits
    exact ⟨child, ⟨noBlock, rfl⟩, children, rfl, by rw [if_pos inside]; rfl⟩

/-- A statement that is no block goes to the end of a block. -/
theorem insertAt_length {children : List Statement} {child : Statement}
    (noBlock : child.kind ≠ .block)
    : (block children).insertAt children.length child = .ok (.block (children ++ [child])) :=
  insertAt_eq_ok_iff.mpr ⟨noBlock, children, rfl, Nat.le_refl _, by simp⟩

theorem removeAt_eq_ok_iff {s child rest : Statement} {position : Nat}
    : s.removeAt position = .ok (child, rest)
      ↔ ∃ children later,
          s = .block children
          ∧ children.drop position = child :: later
          ∧ rest = .block (children.take position ++ later) := by
  simp only [removeAt, bind_eq_ok_iff, children_eq_ok_iff]
  constructor
  · intro removed
    obtain ⟨children, rfl, parted⟩ := removed
    split at parted
    · rename_i first later found
      obtain ⟨rfl, rfl⟩ := Prod.mk.inj (pure_eq_ok_iff.mp parted)
      exact ⟨children, later, rfl, found, rfl⟩
    · cases parted
  · intro fits
    obtain ⟨children, later, rfl, found, rfl⟩ := fits
    exact ⟨children, rfl, by rw [found]; rfl⟩

end AgentLang.Statement
