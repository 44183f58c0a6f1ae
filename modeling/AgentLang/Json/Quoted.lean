/-! Quoted JSON strings: how characters are escaped, and how a string is read up to its closing
quote.
-/

namespace AgentLang.Json.Quoted

def hexDigit (n : Nat) : Char :=
  if n < 10 then Char.ofNat (0x30 + n) else Char.ofNat (0x57 + n)

/-- The quote, the backslash and the control characters are escaped, and nothing else. The
control characters without a letter of their own take four hexadecimal digits.
-/
def escape (c : Char) : List Char :=
  if c = '"' then ['\\', '"']
  else if c = '\\' then ['\\', '\\']
  else if c = '\x08' then ['\\', 'b']
  else if c = '\x0c' then ['\\', 'f']
  else if c = '\n' then ['\\', 'n']
  else if c = '\r' then ['\\', 'r']
  else if c = '\t' then ['\\', 't']
  else if c.toNat < 0x20 then
    ['\\', 'u', '0', '0', hexDigit (c.toNat / 16), hexDigit (c.toNat % 16)]
  else
    [c]

def quote (text : String) : String :=
  "\"" ++ String.ofList (text.toList.flatMap escape) ++ "\""

/-- A piece of a quoted string: a character, or one half of a surrogate pair. -/
inductive Piece where
  | char (c : Char)
  | high (code : Nat)
  | low (code : Nat)
  deriving DecidableEq, Repr

/-- The piece that four hexadecimal digits name. -/
def Piece.ofCode (code : Nat) : Piece :=
  if 0xD800 ≤ code ∧ code < 0xDC00 then .high code
  else if 0xDC00 ≤ code ∧ code < 0xE000 then .low code
  else .char (Char.ofNat code)

def hexValue? (c : Char) : Option Nat :=
  if '0' ≤ c ∧ c ≤ '9' then some (c.toNat - 0x30)
  else if 'a' ≤ c ∧ c ≤ 'f' then some (c.toNat - 0x57)
  else if 'A' ≤ c ∧ c ≤ 'F' then some (c.toNat - 0x37)
  else none

def hexCode? (a b c d : Char) : Option Nat := do
  let a ← hexValue? a
  let b ← hexValue? b
  let c ← hexValue? c
  let d ← hexValue? d
  return 0x1000 * a + 0x100 * b + 0x10 * c + d

/-- The character that a one-letter escape stands for. -/
def unescape? (c : Char) : Option Char :=
  if c = '"' then some '"'
  else if c = '\\' then some '\\'
  else if c = '/' then some '/'
  else if c = 'b' then some '\x08'
  else if c = 'f' then some '\x0c'
  else if c = 'n' then some '\n'
  else if c = 'r' then some '\r'
  else if c = 't' then some '\t'
  else none

/-- Reads up to the closing quote and gives the pieces, last first, and the text behind the
quote. Control characters stand in a string only as escapes.
-/
def scan (read : List Piece) : List Char → Option (List Piece × List Char)
  | [] => none
  | '"' :: rest => some (read, rest)
  | '\\' :: 'u' :: a :: b :: c :: d :: rest =>
      match hexCode? a b c d with
      | none => none
      | some code => scan (Piece.ofCode code :: read) rest
  | '\\' :: c :: rest =>
      match unescape? c with
      | none => none
      | some plain => scan (.char plain :: read) rest
  | c :: rest => if c.toNat < 0x20 then none else scan (.char c :: read) rest

/-- Pairs surrogates up. Half a pair alone has no text. -/
def join? : List Piece → Option (List Char)
  | [] => some []
  | .char c :: rest => (join? rest).map (c :: ·)
  | .high h :: .low l :: rest =>
      (join? rest).map (Char.ofNat (0x10000 + (h - 0xD800) * 0x400 + (l - 0xDC00)) :: ·)
  | .high _ :: _ => none
  | .low _ :: _ => none

/-- The text of the pieces that were read, given last first. -/
def text? (read : List Piece) : Option String :=
  (join? read.reverse).map String.ofList

/-- Reading a string never lengthens the text. -/
theorem scan_rest_length_le {read pieces : List Piece} {text rest : List Char}
    (h : scan read text = some (pieces, rest))
    : rest.length ≤ text.length := by
  fun_induction scan read text with
  | case1 => simp at h
  | case2 read tail =>
      cases h
      simp
  | case3 => simp at h
  | case4 read a b c d tail code _ ih =>
      have := ih h
      simp only [List.length_cons]
      omega
  | case5 => simp at h
  | case6 read c tail _ plain _ ih =>
      have := ih h
      simp only [List.length_cons]
      omega
  | case7 => simp at h
  | case8 read c tail _ _ _ _ ih =>
      have := ih h
      simp only [List.length_cons]
      omega

end AgentLang.Json.Quoted
