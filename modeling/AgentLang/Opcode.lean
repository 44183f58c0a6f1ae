import AgentLang.Condition

/-! Opcodes of the agent machine: five primitive actions, the halt, and the jumps. -/

namespace AgentLang

/-- The actions a program may call without declaring them. -/
inductive Primitive where
  | move
  | turnLeft
  | turnRight
  | infect
  | skip
  deriving DecidableEq, Repr

namespace Primitive

def all : List Primitive := [.move, .turnLeft, .turnRight, .infect, .skip]

/-- The word that calls a primitive in a program text. -/
def word : Primitive → String
  | move => "move"
  | turnLeft => "turnleft"
  | turnRight => "turnright"
  | infect => "infect"
  | skip => "skip"

def ofWord? (word : String) : Option Primitive :=
  all.find? fun p => p.word == word

end Primitive

/-- A jump-unless opcode tests its condition and jumps when it does not hold. -/
inductive Opcode where
  | act (p : Primitive)
  | halt
  | jump
  | jumpUnless (c : Condition)
  deriving DecidableEq, Repr

namespace Opcode

/-- Every opcode, in the order of the codes. -/
def all : List Opcode :=
  [.act .move, .act .turnLeft, .act .turnRight, .act .infect, .act .skip, .halt, .jump,
    .jumpUnless .nextIsEmpty, .jumpUnless .nextIsNotEmpty, .jumpUnless .nextIsWall,
    .jumpUnless .nextIsNotWall, .jumpUnless .nextIsFriend, .jumpUnless .nextIsNotFriend,
    .jumpUnless .nextIsEnemy, .jumpUnless .nextIsNotEnemy, .jumpUnless .random,
    .jumpUnless .always]

def code : Opcode → UInt32
  | act .move => 0
  | act .turnLeft => 1
  | act .turnRight => 2
  | act .infect => 3
  | act .skip => 4
  | halt => 5
  | jump => 6
  | jumpUnless .nextIsEmpty => 7
  | jumpUnless .nextIsNotEmpty => 8
  | jumpUnless .nextIsWall => 9
  | jumpUnless .nextIsNotWall => 10
  | jumpUnless .nextIsFriend => 11
  | jumpUnless .nextIsNotFriend => 12
  | jumpUnless .nextIsEnemy => 13
  | jumpUnless .nextIsNotEnemy => 14
  | jumpUnless .random => 15
  | jumpUnless .always => 16

def ofCode? (code : UInt32) : Option Opcode :=
  all[code.toNat]?

/-- The jumps are followed by a target in the code, the other opcodes by nothing. -/
def takesTarget : Opcode → Bool
  | act _ => false
  | halt => false
  | jump => true
  | jumpUnless _ => true

/-- The name of an opcode in listings and headers. -/
def mnemonic : Opcode → String
  | act .move => "MOVE"
  | act .turnLeft => "TURNLEFT"
  | act .turnRight => "TURNRIGHT"
  | act .infect => "INFECT"
  | act .skip => "SKIP"
  | halt => "HALT"
  | jump => "JUMP"
  | jumpUnless c => "JUMP_IF_NOT_" ++ c.tag

/-- The name of an opcode in JSON, which parts the words of a turn. -/
def tag : Opcode → String
  | act .turnLeft => "TURN_LEFT"
  | act .turnRight => "TURN_RIGHT"
  | op => op.mnemonic

def ofTag? (name : String) : Option Opcode :=
  all.find? fun op => op.tag == name

/-- Every opcode is listed, so look-ups by name miss none. -/
theorem mem_all (op : Opcode) : op ∈ all := by
  rcases op with p | _ | _ | c
  · cases p <;> decide
  · decide
  · decide
  · cases c <;> decide

/-- An opcode is found under its own code. -/
@[simp]
theorem ofCode?_code (op : Opcode) : ofCode? op.code = some op := by
  rcases op with p | _ | _ | c
  · cases p <;> rfl
  · rfl
  · rfl
  · cases c <;> rfl

end Opcode

end AgentLang
