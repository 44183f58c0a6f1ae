import AgentLang.Code
import AgentLang.Text.Blank
import AgentLang.Text.Decimal

/-! The persisted form of code: the number of its words on the first line, then a word a line,
all in decimal. Blank lines are skipped when it is read.
-/

namespace AgentLang

inductive PersistedError where
  | missingLength
  | notAnInteger (line : Nat) (text : String)
  | lengthMismatch (declared actual : Nat)
  deriving DecidableEq, Repr

def PersistedError.message : PersistedError → String
  | missingLength => "compiled program is empty, expected a length prefix"
  | notAnInteger line text =>
      "line " ++ toString line ++ ": `" ++ text ++ "` is not a non-negative integer"
  | lengthMismatch declared actual =>
      "length prefix says " ++ toString declared ++ " entries, found " ++ toString actual

namespace Persisted

def write (code : Code) : String :=
  Text.unlines (toString code.length :: code.map fun word => toString word.toNat)

/-- A word as an entry: its decimal, with a plus sign before it or not. -/
def word? : List Char → Option UInt32
  | '+' :: decimal => Text.word? decimal
  | decimal => Text.word? decimal

/-- The lines that are not blank, trimmed, each with its number in the text from one on. -/
def entries (text : String) : List (Nat × List Char) :=
  ((Text.splitAt '\n' text.toList).zipIdx 1).filterMap fun (line, number) =>
    let line := Text.trim line
    if line.isEmpty then none else some (number, line)

def readWord (entry : Nat × List Char) : Except PersistedError UInt32 :=
  match word? entry.2 with
  | some word => .ok word
  | none => .error (.notAnInteger entry.1 (String.ofList entry.2))

/-- Reads the persisted form. The first line that is no word is blamed even when the number of
words is wrong too.
-/
def read (text : String) : Except PersistedError Code :=
  match entries text with
  | [] => .error .missingLength
  | first :: rest => do
      let declared ← readWord first
      let code ← rest.mapM readWord
      if code.length = declared.toNat then
        return code
      else
        throw (.lengthMismatch declared.toNat code.length)

end Persisted

end AgentLang
