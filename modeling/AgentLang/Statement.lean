import AgentLang.Condition

/-! Statements of a program. A tree may break the shape that programs have (a block inside a
block, a body that is no block): those who need the shape check it.
-/

namespace AgentLang

inductive Statement where
  | block (children : List Statement)
  | ifThen (condition : Condition) (body : Statement)
  | ifElse (condition : Condition) (thenBody elseBody : Statement)
  | whileDo (condition : Condition) (body : Statement)
  | call (name : String)
  deriving Repr, Inhabited

namespace Statement

inductive Kind where
  | block
  | ifThen
  | ifElse
  | whileDo
  | call
  deriving DecidableEq, Repr

def kind : Statement → Kind
  | block _ => .block
  | ifThen _ _ => .ifThen
  | ifElse _ _ _ => .ifElse
  | whileDo _ _ => .whileDo
  | call _ => .call

/-- A fresh statement is the empty block, and so is what is left of one that was taken apart. -/
def empty : Statement := .block []

@[simp]
theorem kind_block (children : List Statement) : (block children).kind = .block := rfl

@[simp]
theorem kind_empty : empty.kind = .block := rfl

mutual

/-- Two trees are equal when they have the same shape and equal leaves. -/
def beq : Statement → Statement → Bool
  | block left, block right => beqAll left right
  | ifThen c left, ifThen d right => c == d && beq left right
  | ifElse c left left', ifElse d right right' => c == d && beq left right && beq left' right'
  | whileDo c left, whileDo d right => c == d && beq left right
  | call m, call n => m == n
  | _, _ => false

def beqAll : List Statement → List Statement → Bool
  | [], [] => true
  | left :: lefts, right :: rights => beq left right && beqAll lefts rights
  | _, _ => false

end

mutual

theorem beq_iff (left right : Statement) : beq left right = true ↔ left = right := by
  cases left <;> cases right <;>
    simp [beq, beq_iff, beqAll_iff, and_assoc]

theorem beqAll_iff (left right : List Statement) : beqAll left right = true ↔ left = right := by
  cases left <;> cases right <;>
    simp [beqAll, beq_iff, beqAll_iff]

end

instance : DecidableEq Statement :=
  fun left right => decidable_of_iff _ (beq_iff left right)

end Statement

end AgentLang
