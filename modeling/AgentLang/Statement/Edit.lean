import AgentLang.Violation

/-! Operations that take statements apart and put them together. Each states what it requires
of its arguments and fails with the requirement that is not met.
-/

namespace AgentLang.Statement

/-- A block can hold a statement as its child unless that is a block. -/
def asChild (child : Statement) : Except Violation Statement :=
  if child.kind = .block then .error .childIsBlock else .ok child

/-- Demands that a part be a block, and blames the given requirement otherwise. -/
def requireBlock (violation : Violation) (part : Statement) : Except Violation Unit :=
  if part.kind = .block then .ok () else .error violation

def children : Statement → Except Violation (List Statement)
  | block children => .ok children
  | other => .error (.wrongKind .block other.kind)

def length (s : Statement) : Except Violation Nat := do
  return (← s.children).length

/-- Inserts a child so that it stands at the given position. -/
def insertAt (s : Statement) (position : Nat) (child : Statement) : Except Violation Statement := do
  let child ← child.asChild
  let children ← s.children
  if position ≤ children.length then
    return .block (children.take position ++ child :: children.drop position)
  else
    throw .positionAfterEnd

/-- Takes out the child at the given position; the block without it comes second. -/
def removeAt (s : Statement) (position : Nat) : Except Violation (Statement × Statement) := do
  let children ← s.children
  match children.drop position with
  | child :: rest => return (child, .block (children.take position ++ rest))
  | [] => throw .positionNotInside

def assembleIf (condition : Condition) (body : Statement) : Except Violation Statement := do
  requireBlock .bodyNotBlock body
  return .ifThen condition body

def assembleIfElse (condition : Condition) (thenBody elseBody : Statement)
    : Except Violation Statement := do
  requireBlock .thenBodyNotBlock thenBody
  requireBlock .elseBodyNotBlock elseBody
  return .ifElse condition thenBody elseBody

def assembleWhile (condition : Condition) (body : Statement) : Except Violation Statement := do
  requireBlock .bodyNotBlock body
  return .whileDo condition body

def assembleCall (name : String) : Except Violation Statement :=
  if name = "" then .error .callNameEmpty else .ok (.call name)

def disassembleIf : Statement → Except Violation (Condition × Statement)
  | ifThen condition body => .ok (condition, body)
  | other => .error (.wrongKind .ifThen other.kind)

def disassembleIfElse : Statement → Except Violation (Condition × Statement × Statement)
  | ifElse condition thenBody elseBody => .ok (condition, thenBody, elseBody)
  | other => .error (.wrongKind .ifElse other.kind)

def disassembleWhile : Statement → Except Violation (Condition × Statement)
  | whileDo condition body => .ok (condition, body)
  | other => .error (.wrongKind .whileDo other.kind)

def disassembleCall : Statement → Except Violation String
  | call name => .ok name
  | other => .error (.wrongKind .call other.kind)

end AgentLang.Statement
