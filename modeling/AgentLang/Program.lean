import AgentLang.Context
import AgentLang.Statement.Edit
import AgentLang.Statement.Layout

/-! Programs: a name, the declared instructions and the body. -/

namespace AgentLang

structure Program where
  name : String
  context : Context
  body : Statement
  deriving DecidableEq

namespace Program

/-- The program before anything is said about it. -/
def unnamed : Program := ⟨"Unnamed", .empty, .empty⟩

instance : Inhabited Program := ⟨unnamed⟩

/-- A program of the given parts; its body has to be a block. -/
def ofParts (name : String) (context : Context) (body : Statement) : Except Violation Program := do
  Statement.requireBlock .bodyNotBlock body
  return ⟨name, context, body⟩

def setName (program : Program) (name : String) : Except Violation Program :=
  if name = "" then .error .programNameEmpty else .ok { program with name }

/-- Trades the body for another block; the former body comes second. -/
def swapBody (program : Program) (body : Statement) : Except Violation (Program × Statement) := do
  Statement.requireBlock .exchangedBodyNotBlock body
  return ({ program with body }, program.body)

/-- Trades the declarations for others; the former ones come second. -/
def swapContext (program : Program) (context : Context) : Program × Context :=
  ({ program with context }, program.context)

/-- The lines of one declaration, behind an empty line. -/
def declarationLines (entry : Context.Entry) : List String :=
  let pad := Statement.padding Statement.indentStep
  "" :: (pad ++ "INSTRUCTION " ++ entry.1 ++ " IS")
    :: (entry.2.lines (2 * Statement.indentStep) ++ [pad ++ "END " ++ entry.1])

def lines (program : Program) : List String :=
  ("PROGRAM " ++ program.name ++ " IS")
    :: (program.context.entries.flatMap declarationLines
      ++ "" :: "BEGIN"
        :: (program.body.lines Statement.indentStep ++ ["END " ++ program.name]))

/-- The canonical source of a program, its instructions in the order of their names. -/
def render (program : Program) : String :=
  Text.unlines program.lines

end Program

end AgentLang
