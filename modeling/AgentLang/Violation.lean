import AgentLang.Statement

/-! Broken contracts of the operations on trees and programs. -/

namespace AgentLang

namespace Statement.Kind

/-- The name under which a kind is shown. -/
def title : Kind → String
  | block => "Block"
  | ifThen => "If"
  | ifElse => "IfElse"
  | whileDo => "While"
  | call => "Call"

/-- A kind as the object of a requirement. -/
def phrase : Kind → String
  | block => "a BLOCK"
  | ifThen => "an IF"
  | ifElse => "an IF_ELSE"
  | whileDo => "a WHILE"
  | call => "a CALL"

end Statement.Kind

/-- What an operation required and did not get. -/
inductive Violation where
  | wrongKind (wanted got : Statement.Kind)
  | childIsBlock
  | positionAfterEnd
  | positionNotInside
  | bodyNotBlock
  | thenBodyNotBlock
  | elseBodyNotBlock
  | callNameEmpty
  | programNameEmpty
  | exchangedBodyNotBlock
  deriving DecidableEq, Repr

namespace Violation

def requirement : Violation → String
  | wrongKind wanted got => "[self is " ++ wanted.phrase ++ "], got " ++ got.title
  | childIsBlock => "[s is not a BLOCK statement]"
  | positionAfterEnd => "0 <= pos <= |self|"
  | positionNotInside => "0 <= pos < |self|"
  | bodyNotBlock => "[body is a BLOCK statement]"
  | thenBodyNotBlock => "[then_body is a BLOCK statement]"
  | elseBodyNotBlock => "[else_body is a BLOCK statement]"
  | callNameEmpty => "[name is a valid IDENTIFIER]"
  | programNameEmpty => "[n is a valid IDENTIFIER]"
  | exchangedBodyNotBlock => "[b is a BLOCK statement]"

def message (violation : Violation) : String :=
  "Violation of: " ++ violation.requirement

end Violation

end AgentLang
