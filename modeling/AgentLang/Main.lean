import AgentLang.CommandLine.Run

/-! The command line on the real system. -/

namespace AgentLang.CommandLine

/-- Some layers of the system give the number of an error as a negative word. -/
def systemError (code : UInt32) (details : String) : SystemError :=
  .ofNumber (if code < 0x80000000 then code.toNat else (0 - code).toNat) details

def systemErrorOf : IO.Error → SystemError
  | .alreadyExists _ code details => systemError code details
  | .inappropriateType _ code details => systemError code details
  | .invalidArgument _ code details => systemError code details
  | .noFileOrDirectory _ code details => systemError code details
  | .noSuchThing _ code details => systemError code details
  | .permissionDenied _ code details => systemError code details
  | .resourceBusy code details => systemError code details
  | .resourceExhausted _ code details => systemError code details
  | .unsatisfiedConstraints code details => systemError code details
  | .otherError code details => systemError code details
  | cause => ⟨cause.toString, 0⟩

def attemptIO {α : Type} (operation : IO α) : IO (Except SystemError α) := do
  try
    return .ok (← operation)
  catch cause =>
    return .error (systemErrorOf cause)

/-- Asks the system about the path as it is written, so that its length counts here too. -/
def leadsToDirectory (path : String) : IO Bool :=
  (IO.FS.DirEntry.mk path "").root.isDir

def systemHost : Host IO where
  order := .ascending
  readFile path := attemptIO (IO.FS.readBinFile path)
  createDirectory path := attemptIO (IO.FS.createDir path)
  isDirectory path := leadsToDirectory path
  writeFile path content := attemptIO (IO.FS.writeFile path content)
  print text := do
    let stdout ← IO.getStdout
    stdout.putStr text
    stdout.flush

end AgentLang.CommandLine

open AgentLang.CommandLine in
def main (arguments : List String) : IO UInt32 := do
  let exit ← execute systemHost arguments
  match exit with
  | .success => pure ()
  | .failure report => IO.eprint report.render
  | .refused => IO.eprint helpText
  return exit.code
