/-! Unsigned decimals. -/

namespace AgentLang.Text

/-- The value of decimal digits read behind a value, or nothing when another character stands
among them.
-/
def digits? (value : Nat) : List Char → Option Nat
  | [] => some value
  | c :: rest => if c.isDigit then digits? (10 * value + (c.toNat - '0'.toNat)) rest else none

/-- The word that a decimal stands for: at least one digit, and a value below 2^32. Zeros may
lead.
-/
def word? (text : List Char) : Option UInt32 :=
  if text.isEmpty then
    none
  else
    match digits? 0 text with
    | none => none
    | some value => if value < UInt32.size then some value.toUInt32 else none

end AgentLang.Text
