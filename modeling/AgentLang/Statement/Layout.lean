import AgentLang.Statement
import AgentLang.Text.Blank

/-! Canonical source of statements: one construct word or call a line, bodies indented by four
blanks more than what they belong to.
-/

namespace AgentLang.Statement

/-- How many blanks a body stands further in. -/
def indentStep : Nat := 4

def padding (indent : Nat) : String :=
  String.ofList (List.replicate indent ' ')

mutual

/-- The lines of a statement. A block adds nothing to those of its children. -/
def lines (indent : Nat) : Statement → List String
  | block children => linesOfAll indent children
  | ifThen condition body =>
      (padding indent ++ "IF " ++ condition.keyword ++ " THEN")
        :: (lines (indent + indentStep) body ++ [padding indent ++ "END IF"])
  | ifElse condition thenBody elseBody =>
      (padding indent ++ "IF " ++ condition.keyword ++ " THEN")
        :: (lines (indent + indentStep) thenBody
          ++ (padding indent ++ "ELSE")
            :: (lines (indent + indentStep) elseBody ++ [padding indent ++ "END IF"]))
  | whileDo condition body =>
      (padding indent ++ "WHILE " ++ condition.keyword ++ " DO")
        :: (lines (indent + indentStep) body ++ [padding indent ++ "END WHILE"])
  | call name => [padding indent ++ name]

def linesOfAll (indent : Nat) : List Statement → List String
  | [] => []
  | child :: rest => lines indent child ++ linesOfAll indent rest

end

/-- The source of a statement, every line indented by the given number of blanks at least. -/
def render (indent : Nat) (s : Statement) : String :=
  Text.unlines (s.lines indent)

end AgentLang.Statement
