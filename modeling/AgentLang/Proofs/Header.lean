import AgentLang.Code.Header
import AgentLang.Proofs.Lexing.Words
import AgentLang.Proofs.Text.Decimals
import AgentLang.Proofs.Text.Lines
import Mathlib.Data.List.TakeWhile

/-! Headers read back. A header declares the number of words and the words themselves, under two
symbols with the stem of the program's name. Reading its lines gives both back: the number as it
is written, and the words line by line, sixteen on each line but the last. The constant for the
number is a word itself, so it has the number that is written only below 2^32.
-/

namespace AgentLang.Header

-----------------------------------------------------------------------------------------
-- What a header declares
-----------------------------------------------------------------------------------------

/-- The words that C keeps for itself. -/
def cKeywords : List String :=
  ["auto", "break", "case", "char", "const", "continue", "default", "do", "double", "else",
    "enum", "extern", "float", "for", "goto", "if", "inline", "int", "long", "register",
    "restrict", "return", "short", "signed", "sizeof", "static", "struct", "switch", "typedef",
    "union", "unsigned", "void", "volatile", "while", "_Alignas", "_Alignof", "_Atomic", "_Bool",
    "_Complex", "_Generic", "_Imaginary", "_Noreturn", "_Static_assert", "_Thread_local"]

def isSymbolChar (c : Char) : Bool := c.isAlphanum || c == '_'

/-- An identifier of C: letters, digits and underscores with no digit in front, and no keyword. -/
def isCIdentifier (symbol : String) : Bool :=
  match symbol.toList with
  | [] => false
  | first :: rest =>
      isSymbolChar first && !first.isDigit && rest.all isSymbolChar && !cKeywords.contains symbol

/-- The symbols of a header, the number under the first, and under the second the entries line by
line.
-/
structure Declarations where
  sizeSymbol : String
  size : Nat
  codeSymbol : String
  lines : List (List UInt32)
  deriving DecidableEq, Repr

/-- The value of the constant for the size: the number that is written, as a word. -/
def Declarations.sizeWord (declared : Declarations) : UInt32 := declared.size.toUInt32

def Declarations.symbols (declared : Declarations) : List String :=
  [declared.sizeSymbol, declared.codeSymbol]

/-- What follows a text at the start of a line. -/
def behind? : List Char → List Char → Option (List Char)
  | [], line => some line
  | _ :: _, [] => none
  | c :: start, d :: line => if c = d then behind? start line else none

/-- How the declaration of a constant starts. -/
def constant : List Char := "inline constexpr uint32_t ".toList

/-- The number of a decimal, however large it is. -/
def number? (decimal : List Char) : Option Nat :=
  if decimal.isEmpty then none else Text.digits? 0 decimal

/-- Reads the line that declares a constant with a number for its value. -/
def readSize (line : List Char) : Option (String × Nat) := do
  let declared ← behind? constant line
  let value ← behind? " = ".toList (declared.dropWhile isSymbolChar)
  match Text.splitAt ';' value with
  | [decimal, []] =>
      return (String.ofList (declared.takeWhile isSymbolChar), ← number? decimal)
  | _ => none

/-- Reads the line that opens the braces of an array. -/
def readOpening (line : List Char) : Option String := do
  let declared ← behind? constant line
  if declared.dropWhile isSymbolChar = "[] = \x7b".toList then
    return String.ofList (declared.takeWhile isSymbolChar)
  else
    none

/-- The entries between commas. The last comma has only blanks behind it. -/
def readEntries : List (List Char) → Option (List UInt32)
  | [] => none
  | [last] => if (Text.trim last).isEmpty then some [] else none
  | piece :: pieces => do
      return (← Text.word? (Text.trim piece)) :: (← readEntries pieces)

/-- The entries of each line up to the one that closes the braces. -/
def readInitialiser : List (List Char) → Option (List (List UInt32))
  | [] => none
  | line :: lines =>
      if line = "\x7d;".toList then
        some []
      else do
        return (← readEntries (Text.splitAt ',' line)) :: (← readInitialiser lines)

/-- What a header declares, from the first line on that declares a constant. -/
def read (text : String) : Option Declarations :=
  match (Text.splitAt '\n' text.toList).dropWhile fun line => (behind? constant line).isNone with
  | size :: opening :: lines => do
      let (sizeSymbol, size) ← readSize size
      return ⟨sizeSymbol, size, ← readOpening opening, ← readInitialiser lines⟩
  | _ => none

theorem behind?_append (start rest : List Char) : behind? start (start ++ rest) = some rest := by
  induction start with
  | nil => rfl
  | cons c start ih => simp [behind?, ih]

-----------------------------------------------------------------------------------------
-- The entries line by line
-----------------------------------------------------------------------------------------

/-- The words of a code as they share the lines of an initialiser. -/
def rows (code : Code) : List Code :=
  if code = [] then [] else code.take entriesPerLine :: rows (code.drop entriesPerLine)
termination_by code.length
decreasing_by
  have := List.length_pos_iff.mpr ‹code ≠ []›
  simp only [List.length_drop, entriesPerLine]
  omega

theorem flatten_rows (code : Code) : (rows code).flatten = code := by
  fun_induction rows code with
  | case1 => rfl
  | case2 code _ ih => rw [List.flatten_cons, ih, List.take_append_drop]

/-- A line holds at least one entry, and sixteen if another line follows it. -/
theorem length_of_mem_rows (code : Code)
    : (∀ row ∈ rows code, 1 ≤ row.length ∧ row.length ≤ 16)
      ∧ ∀ row ∈ (rows code).dropLast, row.length = 16 := by
  fun_induction rows code with
  | case1 => simp
  | case2 code nonempty ih =>
      have positive := List.length_pos_iff.mpr nonempty
      have first : (code.take entriesPerLine).length = min 16 code.length := List.length_take
      obtain ⟨bounds, full⟩ := ih
      constructor
      · intro row member
        rcases List.mem_cons.mp member with rfl | member
        · omega
        · exact bounds row member
      · intro row member
        cases later : rows (code.drop entriesPerLine) with
        | nil =>
            rw [later] at member
            cases member
        | cons next others =>
            rw [later, List.dropLast_cons_of_ne_nil (List.cons_ne_nil _ _)] at member
            rcases List.mem_cons.mp member with rfl | member
            · have more : code.drop entriesPerLine ≠ [] := by
                intro none
                rw [none, rows, if_pos rfl] at later
                cases later
              have := List.length_pos_iff.mpr more
              rw [List.length_drop, entriesPerLine] at this
              omega
            · rw [later] at full
              exact full row member

/-- An entry with the blank in front of it and the comma behind it. -/
def entryText (word : UInt32) : List Char := ' ' :: (Nat.toDigits 10 word.toNat ++ [','])

def rowText (row : Code) : List Char := "   ".toList ++ row.flatMap entryText

theorem toList_entry (word : UInt32) (index : Nat)
    : (entry word index).toList
      = (if index % 16 = 0 then '\n' :: "   ".toList else []) ++ entryText word := by
  unfold entry entriesPerLine
  split <;> simp [entryText]

/-- The text of entries that are numbered from the given place on. -/
def numberedText (start : Nat) (code : Code) : List Char :=
  (code.zipIdx start).flatMap fun placed => (entry placed.1 placed.2).toList

theorem numberedText_cons (start : Nat) (word : UInt32) (code : Code)
    : numberedText start (word :: code)
      = (entry word start).toList ++ numberedText (start + 1) code := by
  simp [numberedText, List.zipIdx_cons]

theorem numberedText_append (start : Nat) (code later : Code)
    : numberedText start (code ++ later)
      = numberedText start code ++ numberedText (start + code.length) later := by
  simp [numberedText, List.zipIdx_append]

/-- Entries that start no line stand one behind the other. -/
theorem numberedText_inside {code : Code} {start : Nat}
    (inside : ∀ place < code.length, (start + place) % 16 ≠ 0)
    : numberedText start code = code.flatMap entryText := by
  induction code generalizing start with
  | nil => rfl
  | cons word code ih =>
      have notFirst : start % 16 ≠ 0 := inside 0 (Nat.succ_pos _)
      have later : ∀ place < code.length, (start + 1 + place) % 16 ≠ 0 := by
        intro place below
        rw [Nat.add_assoc, Nat.add_comm 1 place]
        exact inside (place + 1) (Nat.succ_lt_succ below)
      rw [numberedText_cons, ih later, toList_entry, if_neg notFirst, List.nil_append,
        List.flatMap_cons]

/-- The entries of a row, of which the first starts a line. -/
theorem numberedText_row {row : Code} (nonempty : row ≠ []) (short : row.length ≤ 16) {start : Nat}
    (begins : start % 16 = 0)
    : numberedText start row = '\n' :: rowText row := by
  cases row with
  | nil => exact (nonempty rfl).elim
  | cons word row =>
      have inside : ∀ place < row.length, (start + 1 + place) % 16 ≠ 0 := by
        intro place below
        rw [List.length_cons] at short
        omega
      rw [numberedText_cons, numberedText_inside inside, toList_entry, if_pos begins, rowText,
        List.flatMap_cons]
      simp only [List.cons_append, List.append_assoc]

/-- The text of all entries is that of the rows, by the recursion over the rows. -/
theorem numberedText_eq (code : Code) {start : Nat} (begins : start % 16 = 0)
    : numberedText start code = (rows code).flatMap fun row => '\n' :: rowText row := by
  fun_induction rows code generalizing start with
  | case1 => rfl
  | case2 code nonempty ih =>
      have positive := List.length_pos_iff.mpr nonempty
      have first : (code.take entriesPerLine).length = min 16 code.length := List.length_take
      have row : numberedText start (code.take entriesPerLine)
          = '\n' :: rowText (code.take entriesPerLine) :=
        numberedText_row (List.length_pos_iff.mp (by omega)) (by omega) begins
      have parts : numberedText start code
          = numberedText start (code.take entriesPerLine)
            ++ numberedText (start + (code.take entriesPerLine).length)
              (code.drop entriesPerLine) := by
        rw [← numberedText_append, List.take_append_drop]
      rw [parts, row, List.flatMap_cons]
      by_cases short : code.length ≤ 16
      · have none : code.drop entriesPerLine = [] := List.drop_eq_nil_of_le short
        simp [none, rows, numberedText]
      · rw [ih (by omega)]

-----------------------------------------------------------------------------------------
-- Reading the entries
-----------------------------------------------------------------------------------------

/-- A word is read from its decimal behind blanks. -/
theorem word?_trim {gap : List Char} (blank : ∀ c ∈ gap, Text.isBlank c = true) (word : UInt32)
    : Text.word? (Text.trim (gap ++ Nat.toDigits 10 word.toNat)) = some word := by
  have visible : ∀ c ∈ Nat.toDigits 10 word.toNat, Text.isBlank c = false := by
    intro c member
    have digit := Text.isDigit_of_mem_decimal member
    exact isBlank_of_isWordChar (by simp [isWordChar, Char.isAlphanum, digit])
  have trimmed := Text.trim_of_visible visible
  unfold Text.trim at trimmed ⊢
  rw [List.dropWhile_append_of_pos blank, trimmed, Text.word?_decimal]

/-- Entries are read one by one, whatever blanks stand in front of the first. -/
theorem readEntries_row (gap : List Char) (blank : ∀ c ∈ gap, Text.isBlank c = true) (row : Code)
    : readEntries (Text.splitAt ',' (gap ++ row.flatMap entryText)) = some row := by
  have unparted {gap : List Char} (blank : ∀ c ∈ gap, Text.isBlank c = true) : ',' ∉ gap := by
    intro member
    cases blank ',' member
  induction row generalizing gap with
  | nil =>
      have nothing : Text.trim gap = [] := by
        simp [Text.trim, List.dropWhile_eq_nil_iff.mpr blank]
      rw [List.flatMap_nil, List.append_nil, Text.splitAt_of_not_mem (unparted blank), readEntries,
        nothing]
      rfl
  | cons word row ih =>
      have longer : ∀ c ∈ gap ++ [' '], Text.isBlank c = true := by
        intro c member
        rcases List.mem_append.mp member with member | member
        · exact blank c member
        · rw [List.mem_singleton.mp member]
          rfl
      have text : gap ++ (word :: row).flatMap entryText
          = (gap ++ [' '] ++ Nat.toDigits 10 word.toNat) ++ ',' :: row.flatMap entryText := by
        simp [entryText]
      have first : ',' ∉ gap ++ [' '] ++ Nat.toDigits 10 word.toNat := by
        rw [List.mem_append, not_or]
        exact ⟨unparted longer, Text.not_mem_decimal rfl word.toNat⟩
      have later := ih [] (by simp)
      rw [List.nil_append] at later
      rw [text, Text.splitAt_append, Text.splitAt_of_not_mem first, List.singleton_append]
      cases pieces : Text.splitAt ',' (row.flatMap entryText) with
      | nil => exact (Text.splitAt_ne_nil _ _ pieces).elim
      | cons piece others =>
          rw [pieces] at later
          simp only [readEntries, word?_trim longer, later]
          rfl

theorem readInitialiser_rows (code : List Code) (rest : List (List Char))
    : readInitialiser (code.map rowText ++ "\x7d;".toList :: rest) = some code := by
  induction code with
  | nil => rfl
  | cons row code ih =>
      have open_ : rowText row ≠ "\x7d;".toList := by
        intro same
        have first := congrArg List.head? same
        simp [rowText] at first
      have entries := readEntries_row "   ".toList (List.all_eq_true.mp rfl) row
      rw [List.map_cons, List.cons_append, readInitialiser, if_neg open_, rowText, entries, ih]
      rfl

-----------------------------------------------------------------------------------------
-- The lines of a header
-----------------------------------------------------------------------------------------

/-- The line of an opcode in the table. -/
def opcodeText (op : Opcode) : List Char :=
  "    ".toList ++ op.mnemonic.toList ++ " = ".toList ++ Nat.toDigits 10 op.code.toNat ++ [',']

/-- The lines in front of the declarations, the same in every header. -/
def preamble : List (List Char) :=
  ["#pragma once".toList, "#include <cstdint>".toList, "// Auto-generated – DO NOT EDIT".toList, [],
      "enum class BlOpcode : uint32_t \x7b".toList]
    ++ Opcode.all.map opcodeText
    ++ ["\x7d;".toList, []]

/-- The line that declares a constant with a number for its value. -/
def sizeLine (symbol : String) (n : Nat) : List Char :=
  constant ++ symbol.toList ++ " = ".toList ++ Nat.toDigits 10 n ++ [';']

/-- The line that opens the braces of an array. -/
def openingLine (symbol : String) : List Char := constant ++ symbol.toList ++ "[] = \x7b".toList

/-- The lines of the declarations. -/
def declarationLines (compiled : Compiled) : List (List Char) :=
  sizeLine (symbol compiled.name ++ "_code_size") compiled.code.length
    :: openingLine (symbol compiled.name ++ "_code")
      :: ((rows compiled.code).map rowText ++ ["\x7d;".toList])

theorem toList_opcodeLine (op : Opcode) : (opcodeLine op).toList = opcodeText op ++ ['\n'] := by
  have ending : ",\n".toList = [',', '\n'] := rfl
  unfold opcodeLine opcodeText
  generalize op.mnemonic = name
  generalize op.code.toNat = n
  simp [ending]

theorem toList_opcodeTable
    : (String.join (Opcode.all.map opcodeLine)).toList
      = (Opcode.all.map opcodeText).flatMap (· ++ ['\n']) := by
  rw [String.toList_join, List.flatMap_map, List.flatMap_map, funext toList_opcodeLine]

/-- A line feed in front of each line and one behind them all, or one behind each and one in front
of them all.
-/
theorem flatMap_lineFeed (lines : List (List Char))
    : (lines.flatMap fun line => '\n' :: line) ++ ['\n']
      = '\n' :: lines.flatMap fun line => line ++ ['\n'] := by
  induction lines with
  | nil => rfl
  | cons line lines ih => simp [ih]

theorem toList_initialiser (code : Code)
    : (initialiser code).toList
      = '\x7b' :: '\n' :: ((rows code).map rowText ++ ["\x7d;".toList]).flatMap (· ++ ['\n']) := by
  have parts : initialiser code
      = "\x7b" ++ String.join (code.zipIdx.map fun placed => entry placed.1 placed.2)
        ++ "\n\x7d;\n" :=
    rfl
  have entries : (String.join (code.zipIdx.map fun placed => entry placed.1 placed.2)).toList
      = ((rows code).map rowText).flatMap fun line => '\n' :: line := by
    rw [List.flatMap_map, ← numberedText_eq code (Nat.zero_mod 16), numberedText,
      String.toList_join, List.flatMap_map]
  have closing : "\n\x7d;\n".toList = ['\n'] ++ ("\x7d;".toList ++ ['\n']) := rfl
  rw [parts, String.toList_append, String.toList_append, entries, closing, List.append_assoc,
    ← List.append_assoc _ ['\n'], flatMap_lineFeed]
  simp

/-- A header is built of lines. -/
theorem toList_render (compiled : Compiled)
    : (render compiled).toList
      = (preamble ++ declarationLines compiled).flatMap (· ++ ['\n']) := by
  have front : "#pragma once\n#include <cstdint>\n// Auto-generated – DO NOT EDIT\n\n".toList
      = "#pragma once".toList ++ '\n' :: ("#include <cstdint>".toList
        ++ '\n' :: ("// Auto-generated – DO NOT EDIT".toList ++ ['\n', '\n'])) := by
    simp
  have opening : "enum class BlOpcode : uint32_t \x7b\n".toList
      = "enum class BlOpcode : uint32_t \x7b".toList ++ ['\n'] := by
    simp
  have closing : "\x7d;\n\n".toList = "\x7d;".toList ++ ['\n', '\n'] := by simp
  have equals : "_code_size = ".toList = "_code_size".toList ++ " = ".toList := by simp
  have ending : ";\n".toList = [';', '\n'] := by simp
  have brace (rest : List Char) : "_code[] = ".toList ++ '\x7b' :: rest
      = "_code".toList ++ ("[] = \x7b".toList ++ rest) := by
    simp
  unfold render preamble declarationLines sizeLine openingLine constant
  simp only [String.toList_append, toList_opcodeTable, toList_initialiser, Text.toList_toString,
    front, opening, closing, equals, ending]
  generalize Opcode.all.map opcodeText = table
  generalize (rows compiled.code).map rowText = entries
  generalize (symbol compiled.name).toList = stem
  generalize Nat.toDigits 10 compiled.code.length = size
  simp only [List.flatMap_append, List.flatMap_cons, List.flatMap_nil, List.append_assoc,
    List.cons_append, List.nil_append, List.append_nil, brace]

/-- No line in front of the declarations declares a constant. -/
theorem behind?_constant_of_mem_preamble {line : List Char} (member : line ∈ preamble)
    : behind? constant line = none := by
  simp only [preamble, List.mem_append, List.mem_cons, List.mem_map, List.not_mem_nil,
    or_false] at member
  rcases member with ((rfl | rfl | rfl | rfl | rfl) | ⟨op, _, rfl⟩) | rfl | rfl
  all_goals rfl

theorem unbroken_opcodeText (op : Opcode) : '\n' ∉ opcodeText op := by
  have name : ∀ op ∈ Opcode.all, '\n' ∉ op.mnemonic.toList := by
    simp [Opcode.all, Opcode.mnemonic, Condition.tag]
  have name := name op op.mem_all
  have number : '\n' ∉ Nat.toDigits 10 op.code.toNat := Text.not_mem_decimal rfl _
  unfold opcodeText
  generalize op.mnemonic.toList = name at *
  generalize Nat.toDigits 10 op.code.toNat = decimal at *
  simp [name, number]

theorem unbroken_preamble {line : List Char} (member : line ∈ preamble) : '\n' ∉ line := by
  simp only [preamble, List.mem_append, List.mem_cons, List.mem_map, List.not_mem_nil,
    or_false] at member
  rcases member with ((rfl | rfl | rfl | rfl | rfl) | ⟨op, _, rfl⟩) | rfl | rfl
  case inl.inr => exact unbroken_opcodeText op
  all_goals simp

-----------------------------------------------------------------------------------------
-- Symbols
-----------------------------------------------------------------------------------------

/-- The stem of an identifier starts with a letter and goes on with characters of symbols. -/
theorem symbol_of_isIdentifier {name : String} (identifier : isIdentifier name = true)
    : ∃ first rest, (symbol name).toList = first :: rest ∧ first.isAlpha = true
        ∧ ∀ c ∈ rest, isSymbolChar c = true := by
  unfold isIdentifier at identifier
  split at identifier
  · cases identifier
  · rename_i first rest text
    simp only [Bool.and_eq_true, List.all_eq_true] at identifier
    obtain ⟨⟨letter, others⟩, _⟩ := identifier
    have kept : first ≠ '-' := by
      rintro rfl
      cases letter
    refine ⟨first, rest.map fun c => if c = '-' then '_' else c, ?_, letter, ?_⟩
    · rw [symbol, String.toList_ofList, text, List.map_cons, if_neg kept]
    · intro c member
      obtain ⟨d, original, rfl⟩ := List.mem_map.mp member
      have wordChar := others d original
      split
      · rfl
      · rename_i other
        simpa [isWordChar, isSymbolChar, other] using wordChar

theorem isSymbolChar_of_isAlpha {c : Char} (letter : c.isAlpha = true) : isSymbolChar c = true := by
  simp [isSymbolChar, Char.isAlphanum, letter]

theorem isSymbolChar_of_mem_symbol {name : String} (identifier : isIdentifier name = true)
    {ending : String} (chars : ending.toList.all isSymbolChar = true)
    : ∀ c ∈ (symbol name ++ ending).toList, isSymbolChar c = true := by
  obtain ⟨first, rest, stem, letter, others⟩ := symbol_of_isIdentifier identifier
  simp only [String.toList_append, stem, List.forall_mem_append, List.forall_mem_cons]
  exact ⟨⟨isSymbolChar_of_isAlpha letter, others⟩, List.all_eq_true.mp chars⟩

theorem isSymbolChar_of_mem_sizeSymbol {name : String} (identifier : isIdentifier name = true)
    : ∀ c ∈ (symbol name ++ "_code_size").toList, isSymbolChar c = true :=
  isSymbolChar_of_mem_symbol identifier rfl

theorem isSymbolChar_of_mem_codeSymbol {name : String} (identifier : isIdentifier name = true)
    : ∀ c ∈ (symbol name ++ "_code").toList, isSymbolChar c = true :=
  isSymbolChar_of_mem_symbol identifier rfl

/-- Only keywords that start with an underscore contain one. -/
theorem head_of_mem_cKeywords
    : ∀ keyword ∈ cKeywords, '_' ∈ keyword.toList → keyword.toList.head? = some '_' := by
  decide

/-- A symbol with the stem of an identifier is an identifier of C: behind the letter it starts with
there is an underscore, so that it is no keyword.
-/
theorem isCIdentifier_symbol {name : String} (identifier : isIdentifier name = true)
    {ending : String} (chars : ending.toList.all isSymbolChar = true)
    (underscore : '_' ∈ ending.toList)
    : isCIdentifier (symbol name ++ ending) = true := by
  obtain ⟨first, rest, stem, letter, others⟩ := symbol_of_isIdentifier identifier
  have text : (symbol name ++ ending).toList = first :: (rest ++ ending.toList) := by
    rw [String.toList_append, stem, List.cons_append]
  have noKeyword : symbol name ++ ending ∉ cKeywords := by
    intro keyword
    have head := head_of_mem_cKeywords _ keyword (by simp [underscore])
    rw [text] at head
    cases head
    cases letter
  have noDigit : first.isDigit = false := by
    rw [Bool.eq_false_iff]
    intro digit
    have small := toNat_of_isDigit digit
    have large := toNat_of_isAlpha letter
    omega
  have later : (rest ++ ending.toList).all isSymbolChar = true := by
    rw [List.all_append, List.all_eq_true.mpr others, chars, Bool.and_self]
  simp [isCIdentifier, text, isSymbolChar_of_isAlpha letter, noDigit, later, noKeyword]

-----------------------------------------------------------------------------------------
-- Reading a header
-----------------------------------------------------------------------------------------

/-- The characters of symbols in front of another character are taken off it. -/
theorem span_symbol {text : List Char} (chars : ∀ c ∈ text, isSymbolChar c = true) {c : Char}
    (stops : isSymbolChar c = false) (rest : List Char)
    : (text ++ c :: rest).takeWhile isSymbolChar = text
      ∧ (text ++ c :: rest).dropWhile isSymbolChar = c :: rest := by
  rw [List.takeWhile_append_of_pos chars, List.dropWhile_append_of_pos chars]
  simp [stops]

theorem number?_decimal (n : Nat) : number? (Nat.toDigits 10 n) = some n := by
  have notEmpty : (Nat.toDigits 10 n).isEmpty = false := by
    simp [Nat.toDigits_ne_nil]
  rw [number?, notEmpty, if_neg Bool.false_ne_true,
    Text.digits?_of_isDigit fun _ => Text.isDigit_of_mem_decimal, Nat.ofDigitChars_ten_toDigits]

theorem readSize_sizeLine {symbol : String} (chars : ∀ c ∈ symbol.toList, isSymbolChar c = true)
    (n : Nat)
    : readSize (sizeLine symbol n) = some (symbol, n) := by
  have unparted : ';' ∉ Nat.toDigits 10 n := Text.not_mem_decimal rfl n
  have value : Text.splitAt ';' (Nat.toDigits 10 n ++ [';']) = [Nat.toDigits 10 n, []] := by
    rw [Text.splitAt_append, Text.splitAt_of_not_mem unparted]
    rfl
  obtain ⟨taken, dropped⟩ :=
    span_symbol chars (c := ' ') rfl ("= ".toList ++ Nat.toDigits 10 n ++ [';'])
  have equals : ' ' :: ("= ".toList ++ Nat.toDigits 10 n ++ [';'])
      = " = ".toList ++ (Nat.toDigits 10 n ++ [';']) := rfl
  rw [equals] at taken dropped
  simp only [readSize, sizeLine, List.append_assoc, behind?_append, taken, dropped, value,
    number?_decimal, String.ofList_toList, Option.bind_eq_bind, Option.bind_some]
  rfl

theorem readOpening_openingLine {symbol : String}
    (chars : ∀ c ∈ symbol.toList, isSymbolChar c = true)
    : readOpening (openingLine symbol) = some symbol := by
  obtain ⟨taken, dropped⟩ := span_symbol chars (c := '[') rfl "] = \x7b".toList
  have bracket : '[' :: "] = \x7b".toList = "[] = \x7b".toList := rfl
  rw [bracket] at taken dropped
  rw [readOpening, openingLine, List.append_assoc, behind?_append, Option.bind_eq_bind,
    Option.bind_some, dropped, if_pos rfl, taken, String.ofList_toList]
  rfl

theorem lineFeed_not_mem_symbol {symbol : List Char} (chars : ∀ c ∈ symbol, isSymbolChar c = true)
    : '\n' ∉ symbol := by
  intro member
  cases chars '\n' member

theorem unbroken_rowText (row : Code) : '\n' ∉ rowText row := by
  have entry (word : UInt32) : '\n' ∉ entryText word := by
    simp [entryText, Text.not_mem_decimal]
  simp [rowText, entry]

theorem unbroken_declarationLines {compiled : Compiled} (named : isIdentifier compiled.name = true)
    {line : List Char} (member : line ∈ declarationLines compiled)
    : '\n' ∉ line := by
  have declared : '\n' ∉ constant := by decide
  have size := lineFeed_not_mem_symbol (isSymbolChar_of_mem_sizeSymbol named)
  have code := lineFeed_not_mem_symbol (isSymbolChar_of_mem_codeSymbol named)
  simp only [declarationLines, List.mem_cons, List.mem_append, List.mem_map, List.not_mem_nil,
    or_false] at member
  rcases member with rfl | rfl | ⟨row, _, rfl⟩ | rfl
  · simp only [sizeLine, List.mem_append, not_or]
    exact ⟨⟨⟨⟨declared, size⟩, by decide⟩, Text.not_mem_decimal rfl _⟩, by decide⟩
  · simp only [openingLine, List.mem_append, not_or]
    exact ⟨⟨declared, code⟩, by decide⟩
  · exact unbroken_rowText row
  · decide

/-- A header is read as its two symbols, the length of the code and the code in its rows. -/
theorem read_render {compiled : Compiled} (named : isIdentifier compiled.name = true)
    : read (render compiled)
      = some ⟨symbol compiled.name ++ "_code_size", compiled.code.length,
          symbol compiled.name ++ "_code", rows compiled.code⟩ := by
  have unbroken : ∀ line ∈ preamble ++ declarationLines compiled, '\n' ∉ line := by
    intro line member
    rcases List.mem_append.mp member with member | member
    · exact unbroken_preamble member
    · exact unbroken_declarationLines named member
  have plain : ∀ line ∈ preamble, (behind? constant line).isNone = true := by
    intro line member
    rw [behind?_constant_of_mem_preamble member]
    rfl
  have declares (symbol : String) (n : Nat)
      : (behind? constant (sizeLine symbol n)).isNone = false := by
    simp only [sizeLine, List.append_assoc, behind?_append, Option.isNone_some]
  have size := readSize_sizeLine (isSymbolChar_of_mem_sizeSymbol named) compiled.code.length
  have opening := readOpening_openingLine (isSymbolChar_of_mem_codeSymbol named)
  have code := readInitialiser_rows (rows compiled.code) [[]]
  rw [read, toList_render, Text.splitAt_lines unbroken, List.append_assoc,
    List.dropWhile_append_of_pos plain, declarationLines, List.cons_append, List.dropWhile_cons,
    declares, if_neg Bool.false_ne_true]
  simp only [List.cons_append, List.append_assoc, List.nil_append, size, opening, code]
  rfl

/-- Headers with the same text have the same code, since it can be read from them. -/
theorem code_eq_of_render_eq {compiled other : Compiled}
    (named : isIdentifier compiled.name = true) (otherNamed : isIdentifier other.name = true)
    (same : render other = render compiled)
    : other.code = compiled.code := by
  have declared := read_render otherNamed
  rw [same, read_render named] at declared
  have lines := congrArg Declarations.lines (Option.some.inj declared)
  rw [← flatten_rows other.code, ← flatten_rows compiled.code]
  exact congrArg List.flatten lines.symm

theorem sizeSymbol_ne_codeSymbol (stem stem' : String)
    : stem ++ "_code_size" ≠ stem' ++ "_code" := by
  have parts : "_code_size".toList = "_code".toList ++ "_size".toList := by simp
  intro same
  have letters := congrArg String.toList same
  rw [String.toList_append, String.toList_append, parts, ← List.append_assoc] at letters
  have endings := (List.append_inj' letters (by simp)).2
  simp at endings

/-- Headers with symbols of different stems share none. -/
theorem symbols_disjoint {compiled other : Compiled} (named : isIdentifier compiled.name = true)
    (otherNamed : isIdentifier other.name = true)
    (apart : symbol compiled.name ≠ symbol other.name)
    : ∃ declared declared',
        read (render compiled) = some declared
        ∧ read (render other) = some declared'
        ∧ ∀ symbol ∈ declared.symbols, symbol ∉ declared'.symbols := by
  refine ⟨_, _, read_render named, read_render otherNamed, ?_⟩
  unfold Declarations.symbols
  simp only [List.mem_cons, List.not_mem_nil, or_false, not_or]
  rintro _ (rfl | rfl)
  · exact ⟨fun same => apart ((String.append_left_inj _).mp same), sizeSymbol_ne_codeSymbol _ _⟩
  · exact ⟨(sizeSymbol_ne_codeSymbol _ _).symm,
      fun same => apart ((String.append_left_inj _).mp same)⟩

/-- The header of a program with an identifier for its name carries the code. It declares two
identifiers of C with one stem, the first for the number of words, the second for the words, which
fill lines of sixteen and a last line with what is left. The number is written whatever it is, and
the constant for it has that number for its value exactly when there are fewer than 2^32 words.
Headers with the same text have the same code.
-/
theorem header_carries_code (compiled : Compiled) (named : isIdentifier compiled.name = true)
    : (isCIdentifier (symbol compiled.name ++ "_code_size") = true
        ∧ isCIdentifier (symbol compiled.name ++ "_code") = true)
      ∧ (∃ lines : List (List UInt32),
        read (render compiled)
          = some ⟨symbol compiled.name ++ "_code_size", lines.flatten.length,
              symbol compiled.name ++ "_code", lines⟩
        ∧ lines.flatten = compiled.code
        ∧ (∀ line ∈ lines.dropLast, line.length = 16)
        ∧ ∀ line ∈ lines, 1 ≤ line.length ∧ line.length ≤ 16)
      ∧ (∀ declared,
        read (render compiled) = some declared
        → (declared.sizeWord.toNat = compiled.code.length
            ↔ compiled.code.length < UInt32.size))
      ∧ ∀ other : Compiled,
        isIdentifier other.name = true → render other = render compiled
        → other.code = compiled.code := by
  obtain ⟨bounds, full⟩ := length_of_mem_rows compiled.code
  have words := flatten_rows compiled.code
  refine ⟨⟨?_, ?_⟩, ⟨rows compiled.code, ?_, words, full, bounds⟩, ?_, ?_⟩
  · exact isCIdentifier_symbol named rfl (by simp)
  · exact isCIdentifier_symbol named rfl (by simp)
  · rw [words, read_render named]
  · intro declared written
    rw [read_render named] at written
    cases written
    exact Text.toNat_toUInt32_eq_iff compiled.code.length
  · intro other otherNamed same
    exact code_eq_of_render_eq named otherNamed same

theorem header_carries_code_wall_hugger
    : isIdentifier "wall-hugger" = true
      ∧ ∃ lines : List (List UInt32),
        read (render ⟨"wall-hugger", List.replicate 17 6⟩)
          = some ⟨symbol "wall-hugger" ++ "_code_size", lines.flatten.length,
              symbol "wall-hugger" ++ "_code", lines⟩
        ∧ lines.flatten = List.replicate 17 6 := by
  have named : isIdentifier "wall-hugger" = true := rfl
  obtain ⟨_, ⟨lines, written, words, _⟩, _⟩ :=
    header_carries_code ⟨"wall-hugger", List.replicate 17 6⟩ named
  exact ⟨named, lines, written, words⟩

end AgentLang.Header
