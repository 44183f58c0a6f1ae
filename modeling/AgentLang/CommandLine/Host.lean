import AgentLang.Context

/-! What a run needs of the system it runs on: files, directories and an output, and the order in
which declarations are listed.
-/

namespace AgentLang.CommandLine

/-- An error of the system, with the number it goes by. -/
structure SystemError where
  text : String
  number : Nat
  deriving DecidableEq, Repr

namespace SystemError

def message (cause : SystemError) : String :=
  cause.text ++ " (os error " ++ toString cause.number ++ ")"

def notFound : SystemError := ⟨"No such file or directory", 2⟩

def fileExists : SystemError := ⟨"File exists", 17⟩

def notADirectory : SystemError := ⟨"Not a directory", 20⟩

def isADirectory : SystemError := ⟨"Is a directory", 21⟩

def nameTooLong : SystemError := ⟨"File name too long", 36⟩

/-- The error of a number, with the given text when it is none of those above. -/
def ofNumber (number : Nat) (text : String) : SystemError :=
  ([notFound, fileExists, notADirectory, isADirectory, nameTooLong].find?
    (·.number == number)).getD ⟨text, number⟩

end SystemError

/-- The system as a run sees it. Paths are texts with slashes between the names. The order of
declarations is that of a table whose layout a run does not choose.
-/
structure Host (m : Type → Type) where
  order : Context.Order
  readFile : String → m (Except SystemError ByteArray)
  createDirectory : String → m (Except SystemError Unit)
  isDirectory : String → m Bool
  writeFile : String → String → m (Except SystemError Unit)
  print : String → m Unit

end AgentLang.CommandLine
