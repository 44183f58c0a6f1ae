import AgentLang.Program

/-! The shape that the contracts ask of trees. -/

namespace AgentLang

namespace Statement

mutual

/-- No block stands in a block, the bodies of choices and loops are blocks, and no call lacks
its name.
-/
def Shaped : Statement → Prop
  | block children => ShapedAll children
  | ifThen _ body => body.kind = .block ∧ body.Shaped
  | ifElse _ thenBody elseBody =>
      (thenBody.kind = .block ∧ thenBody.Shaped) ∧ elseBody.kind = .block ∧ elseBody.Shaped
  | whileDo _ body => body.kind = .block ∧ body.Shaped
  | call name => name ≠ ""

def ShapedAll : List Statement → Prop
  | [] => True
  | child :: rest => (child.kind ≠ .block ∧ child.Shaped) ∧ ShapedAll rest

end

mutual

/-- Whether a tree has the shape can be computed, by its constructs. -/
def decideShaped : (s : Statement) → Decidable s.Shaped
  | block children => decideShapedAll children
  | ifThen _ body =>
      have := decideShaped body
      inferInstanceAs (Decidable (body.kind = .block ∧ body.Shaped))
  | ifElse _ thenBody elseBody =>
      have := decideShaped thenBody
      have := decideShaped elseBody
      inferInstanceAs
        (Decidable
          ((thenBody.kind = .block ∧ thenBody.Shaped) ∧ elseBody.kind = .block ∧ elseBody.Shaped))
  | whileDo _ body =>
      have := decideShaped body
      inferInstanceAs (Decidable (body.kind = .block ∧ body.Shaped))
  | call name => inferInstanceAs (Decidable (name ≠ ""))

def decideShapedAll : (children : List Statement) → Decidable (ShapedAll children)
  | [] => inferInstanceAs (Decidable True)
  | child :: rest =>
      have := decideShaped child
      have := decideShapedAll rest
      inferInstanceAs (Decidable ((child.kind ≠ .block ∧ child.Shaped) ∧ ShapedAll rest))

end

instance : DecidablePred Shaped := decideShaped

/-- The children of a block are judged one by one. -/
theorem shapedAll_iff (children : List Statement)
    : ShapedAll children ↔ ∀ child ∈ children, child.kind ≠ .block ∧ child.Shaped := by
  induction children with
  | nil => simp [ShapedAll]
  | cons child rest ih => simp [ShapedAll, ih]

theorem exists_block {s : Statement} (block : s.kind = .block)
    : ∃ children, s = .block children := by
  cases s with
  | block children => exact ⟨children, rfl⟩
  | ifThen _ _ | ifElse _ _ _ | whileDo _ _ | call _ => cases block

end Statement

/-- The body of a program is a block, and all its trees have the shape that the contracts ask. -/
structure Program.Shaped (program : Program) : Prop where
  block : program.body.kind = .block
  body : program.body.Shaped
  declared : ∀ entry ∈ program.context.entries, entry.2.Shaped

end AgentLang
