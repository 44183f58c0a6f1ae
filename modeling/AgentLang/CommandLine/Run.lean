import AgentLang.Build
import AgentLang.Code.Header
import AgentLang.Code.Listing
import AgentLang.Code.Persisted
import AgentLang.CommandLine.Arguments
import AgentLang.CommandLine.Host
import AgentLang.CommandLine.Path
import AgentLang.Json.Printer
import AgentLang.Json.Tree

/-! A run of the command line. The source is read and built before anything is written; then
the listing is printed, and the code goes to the output directory or, when nothing else was
asked for, to standard output.
-/

namespace AgentLang.CommandLine

/-- Why a run failed: what it was doing, and the causes from the outside in. -/
structure Report where
  activity : String
  causes : List String
  deriving DecidableEq, Repr

/-- Causes are numbered when there are several. -/
def Report.render (report : Report) : String :=
  let causes :=
    match report.causes with
    | [] => ""
    | [cause] => "\nCaused by:\n    " ++ cause ++ "\n"
    | causes =>
        "\nCaused by:\n"
          ++ String.join (causes.zipIdx.map fun (cause, index) =>
            "    " ++ toString index ++ ": " ++ cause ++ "\n")
  "Error: " ++ report.activity ++ "\n" ++ causes

/-- A file that a build leaves in the output directory. -/
structure Artifact where
  activity : String
  fileName : String
  content : String
  deriving DecidableEq, Repr

/-- The artifacts of a build, in the order in which they are written. The dump lists the
declarations in an order of its own.
-/
def artifacts (order : Context.Order) (result : Build) : List Artifact :=
  let name := result.compiled.name
  let listed := order.arrange result.program.context.entries
  [
    ⟨"Writing compiled program", name ++ ".bl.out", Persisted.write result.compiled.code⟩,
    ⟨"Writing C artifacts", Header.symbol name ++ "_program.h", Header.render result.compiled⟩,
    ⟨
      "Writing AST dump",
      name ++ ".ast.json",
      (result.program.dumpIn listed result.compiled).pretty
    ⟩
  ]

/-- The path of a file in a directory. -/
def pathIn (directory fileName : String) : String :=
  if directory.endsWith "/" then directory ++ fileName else directory ++ "/" ++ fileName

section

variable {m : Type → Type} [Monad m]

/-- Runs an operation of the host and reports what it was for when it fails. -/
def attempt {α : Type} (activity : String) (operation : m (Except SystemError α))
    : ExceptT Report m α := do
  match ← operation with
  | .ok value => return value
  | .error cause => throw ⟨activity, [cause.message]⟩

def readSource (host : Host m) (path : String) : ExceptT Report m String := do
  let bytes ← attempt ("Reading " ++ path) (host.readFile path)
  match String.fromUTF8? bytes with
  | some source => return source
  | none => throw ⟨"Reading " ++ path, ["stream did not contain valid UTF-8"]⟩

def printListing (host : Host m) (code : Code) : ExceptT Report m Unit := do
  match code.listing with
  | .ok lines => host.print (Text.unlines lines)
  | .error cause => throw ⟨"Disassembling generated code", [cause.message]⟩

/-- Creates a directory unless it is there. -/
def ensureDirectory (host : Host m) (path : Path) : m (Except SystemError Unit) := do
  match ← host.createDirectory path.toText with
  | .ok _ => return .ok ()
  | .error cause =>
      if ← host.isDirectory path.toText then return .ok () else return .error cause

/-- Creates a directory, and those above it when one of them is missing. -/
def ensureDirectories (host : Host m) (path : Path) : m (Except SystemError Unit) := do
  match ← ensureDirectory host path with
  | .ok _ => return .ok ()
  | .error cause =>
      if cause = .notFound then
        match _above : path.parent? with
        | none => ensureDirectory host path
        | some parent =>
            match ← ensureDirectories host parent with
            | .ok _ => ensureDirectory host path
            | .error cause => return .error cause
      else
        return .error cause
termination_by path.pieces.length
decreasing_by exact path.parent?_pieces_length_lt _above

def writeArtifacts (host : Host m) (directory : String) (result : Build)
    : ExceptT Report m Unit := do
  attempt ("Creating " ++ directory) (ensureDirectories host (.ofText directory))
  (artifacts host.order result).forM fun artifact =>
    attempt artifact.activity
      (host.writeFile (pathIn directory artifact.fileName) artifact.content)

def run (host : Host m) (arguments : Arguments) : ExceptT Report m Unit := do
  let style := if arguments.structuredJumps then JumpStyle.structured else .single
  let source ← readSource host arguments.input
  match build style source with
  | .error cause => throw ⟨"Compiling " ++ arguments.input, cause.chain⟩
  | .ok result =>
      if arguments.disassemble then
        printListing host result.compiled.code
      match arguments.output with
      | some directory => writeArtifacts host directory result
      | none =>
          unless arguments.disassemble do
            host.print (Persisted.write result.compiled.code)

end

def versionText : String := "blc 0.1.0\n"

def helpText : String :=
  Text.unlines
    [
      "Usage: blc [OPTIONS] <INPUT> [OUTPUT]",
      "",
      "Arguments:",
      "  <INPUT>   Input .bl program",
      "  [OUTPUT]  Output directory; the compiled code goes to stdout when omitted",
      "",
      "Options:",
      "      --structured-jumps  Lower IF/ELSE and WHILE with unconditional JUMPs",
      "  -d, --disassemble       Print a disassembly listing of the generated code",
      "  -v, --verbose           Debug-level logging unless RUST_LOG is set",
      "  -h, --help              Print help",
      "  -V, --version           Print version"
    ]

/-- How a process ends. -/
inductive Exit where
  | success
  | failure (report : Report)
  | refused
  deriving DecidableEq, Repr

def Exit.code : Exit → UInt32
  | success => 0
  | failure _ => 1
  | refused => 2

/-- Does what a list of arguments asks for. -/
def execute {m : Type → Type} [Monad m] (host : Host m) (arguments : List String) : m Exit := do
  match Request.ofArguments arguments with
  | .run arguments =>
      match ← (run host arguments).run with
      | .ok _ => return .success
      | .error report => return .failure report
  | .version =>
      host.print versionText
      return .success
  | .help =>
      host.print helpText
      return .success
  | .refused => return .refused

end AgentLang.CommandLine
