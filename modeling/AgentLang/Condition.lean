/-! Conditions an agent can test: what lies ahead of it, a coin flip, and the constant. -/

namespace AgentLang

inductive Condition where
  | nextIsEmpty
  | nextIsNotEmpty
  | nextIsEnemy
  | nextIsNotEnemy
  | nextIsFriend
  | nextIsNotFriend
  | nextIsWall
  | nextIsNotWall
  | random
  | always
  deriving DecidableEq, Repr

namespace Condition

def all : List Condition :=
  [.nextIsEmpty, .nextIsNotEmpty, .nextIsEnemy, .nextIsNotEnemy, .nextIsFriend,
    .nextIsNotFriend, .nextIsWall, .nextIsNotWall, .random, .always]

/-- The word that stands for a condition in a program text. -/
def keyword : Condition → String
  | nextIsEmpty => "next-is-empty"
  | nextIsNotEmpty => "next-is-not-empty"
  | nextIsEnemy => "next-is-enemy"
  | nextIsNotEnemy => "next-is-not-enemy"
  | nextIsFriend => "next-is-friend"
  | nextIsNotFriend => "next-is-not-friend"
  | nextIsWall => "next-is-wall"
  | nextIsNotWall => "next-is-not-wall"
  | random => "random"
  | always => "true"

/-- The name of a condition in mnemonics and in JSON. -/
def tag : Condition → String
  | nextIsEmpty => "NEXT_IS_EMPTY"
  | nextIsNotEmpty => "NEXT_IS_NOT_EMPTY"
  | nextIsEnemy => "NEXT_IS_ENEMY"
  | nextIsNotEnemy => "NEXT_IS_NOT_ENEMY"
  | nextIsFriend => "NEXT_IS_FRIEND"
  | nextIsNotFriend => "NEXT_IS_NOT_FRIEND"
  | nextIsWall => "NEXT_IS_WALL"
  | nextIsNotWall => "NEXT_IS_NOT_WALL"
  | random => "RANDOM"
  | always => "TRUE"

def ofKeyword? (word : String) : Option Condition :=
  all.find? fun c => c.keyword == word

def ofTag? (name : String) : Option Condition :=
  all.find? fun c => c.tag == name

/-- A condition is found under its own keyword. -/
@[simp]
theorem ofKeyword?_keyword (c : Condition) : ofKeyword? c.keyword = some c := by
  cases c <;> decide

/-- A condition is found under its own tag. -/
@[simp]
theorem ofTag?_tag (c : Condition) : ofTag? c.tag = some c := by
  cases c <;> decide

end Condition

end AgentLang
