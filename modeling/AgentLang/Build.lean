import AgentLang.Code.Generator
import AgentLang.Program.Reader

/-! From a source text to code. -/

namespace AgentLang

/-- A program and its code. -/
structure Build where
  program : Program
  compiled : Compiled
  deriving DecidableEq

/-- The last cause is that of a tree without the shape of a program, which no reading gives. -/
inductive BuildError where
  | parse (cause : ParseError)
  | generate (name : String) (cause : GenerateError)
  | broken (name : String) (violation : Violation)
  deriving DecidableEq, Repr

/-- What went wrong, from the stage that failed down to the innermost cause. -/
def BuildError.chain : BuildError → List String
  | parse cause => ["Parsing BL program", cause.message, cause.causeMessage]
  | generate name cause => ["Generating code for " ++ name, cause.message]
  | broken name violation => ["Generating code for " ++ name, violation.message]

/-- Reads a source text and generates its code. -/
def build (style : JumpStyle) (source : String) : Except BuildError Build :=
  match Program.ofSource source with
  | .error cause => .error (.parse cause)
  | .ok program =>
      match program.generate style with
      | (program, .generated compiled) => .ok ⟨program, compiled⟩
      | (program, .failed cause) => .error (.generate program.name cause)
      | (program, .broken violation) => .error (.broken program.name violation)

end AgentLang
