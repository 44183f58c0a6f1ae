import AgentLang.Code.Persisted
import AgentLang.Proofs.Lexing.Words
import AgentLang.Proofs.Outcome
import AgentLang.Proofs.Text.Decimals
import AgentLang.Proofs.Text.Lines
import Mathlib.Data.List.Basic

/-! Code read back from its persisted form. The number of words is written whatever it is and
read as a word, so exactly the codes of fewer than 2^32 words come back.
-/

namespace AgentLang.Persisted

-----------------------------------------------------------------------------------------
-- Entries
-----------------------------------------------------------------------------------------

/-- What a line with its number comes to: an entry, unless it is blank. -/
def nonblank? (numbered : List Char × Nat) : Option (Nat × List Char) :=
  let line := Text.trim numbered.1
  if line.isEmpty then none else some (numbered.2, line)

theorem entries_eq (text : String)
    : entries text = ((Text.splitAt '\n' text.toList).zipIdx 1).filterMap nonblank? := rfl

/-- A line without blanks is an entry as it stands. -/
theorem nonblank?_of_visible {line : List Char} (visible : ∀ c ∈ line, Text.isBlank c = false)
    (nonempty : line ≠ []) (number : Nat)
    : nonblank? (line, number) = some (number, line) := by
  simp [nonblank?, Text.trim_of_visible visible, nonempty]

/-- Lines without blanks are the entries of the text built of them. -/
theorem entries_unlines {lines : List String}
    (visible : ∀ line ∈ lines, ∀ c ∈ line.toList, Text.isBlank c = false)
    (nonempty : ∀ line ∈ lines, line.toList ≠ [])
    : entries (Text.unlines lines) = ((lines.map String.toList).zipIdx 1).map Prod.swap := by
  have unbroken : ∀ line ∈ lines, '\n' ∉ line.toList := by
    intro line member broken
    have noBlank := visible line member '\n' broken
    cases noBlank
  have kept : ∀ numbered ∈ (lines.map String.toList).zipIdx 1,
      nonblank? numbered = some numbered.swap := by
    intro numbered member
    obtain ⟨line, listed, same⟩ := List.mem_map.mp (List.fst_mem_of_mem_zipIdx member)
    have chars : ∀ c ∈ numbered.1, Text.isBlank c = false := same ▸ visible line listed
    exact nonblank?_of_visible chars (same ▸ nonempty line listed) numbered.2
  -- The empty piece behind the last line feed is no entry.
  have last : ([([] : List Char)].zipIdx (1 + (lines.map String.toList).length)).filterMap nonblank?
      = [] := rfl
  rw [entries_eq, Text.splitAt_unlines unbroken, List.zipIdx_append, List.filterMap_append, last,
    List.append_nil]
  exact List.filterMap_eq_map_iff_forall_eq_some.mpr kept

-----------------------------------------------------------------------------------------
-- Words
-----------------------------------------------------------------------------------------

/-- A decimal has no sign, so it is read as it stands. -/
theorem word?_toDigits (n : Nat)
    : word? (Nat.toDigits 10 n) = if n < UInt32.size then some n.toUInt32 else none := by
  rw [← Text.word?_toDigits]
  unfold word?
  split
  · rename_i decimal signed
    have digit : '+'.isDigit = true := by
      apply Text.isDigit_of_mem_decimal
      rw [signed]
      exact List.mem_cons_self
    cases digit
  · rfl

theorem readWord_decimal (number : Nat) (word : UInt32)
    : readWord (number, Nat.toDigits 10 word.toNat) = .ok word := by
  have small : word.toNat < UInt32.size := word.toNat_lt
  simp [readWord, word?_toDigits, small]

/-- Decimals are read as the words they were written for, whatever their lines are numbered. -/
theorem mapM_readWord_decimals (code : Code) (start : Nat)
    : (((code.map fun word => Nat.toDigits 10 word.toNat).zipIdx start).map Prod.swap).mapM
        readWord
      = .ok code := by
  induction code generalizing start with
  | nil => rfl
  | cons word code ih =>
      rw [List.map_cons, List.zipIdx_cons, List.map_cons, List.mapM_cons, ih (start + 1),
        Prod.swap_prod_mk, readWord_decimal]
      rfl

-----------------------------------------------------------------------------------------
-- Reading back
-----------------------------------------------------------------------------------------

/-- The persisted form has an entry for the number of words and one for each word. -/
theorem entries_write (code : Code)
    : entries (write code)
      = (1, Nat.toDigits 10 code.length)
        :: ((code.map fun word => Nat.toDigits 10 word.toNat).zipIdx 2).map Prod.swap := by
  have decimal : ∀ line ∈ toString code.length :: code.map fun word => toString word.toNat,
      ∃ n : Nat, line = toString n := by
    intro line member
    rcases List.mem_cons.mp member with same | member
    · exact ⟨code.length, same⟩
    · obtain ⟨word, _, same⟩ := List.mem_map.mp member
      exact ⟨word.toNat, same.symm⟩
  rw [write, entries_unlines]
  · simp only [List.map_cons, List.map_map, Function.comp_def, Text.toList_toString,
      List.zipIdx_cons]
    rfl
  · intro line member c inside
    obtain ⟨n, rfl⟩ := decimal line member
    rw [Text.toList_toString] at inside
    have digit := Text.isDigit_of_mem_decimal inside
    exact isBlank_of_isWordChar (by simp [isWordChar, Char.isAlphanum, digit])
  · intro line member
    obtain ⟨n, rfl⟩ := decimal line member
    rw [Text.toList_toString]
    exact Nat.toDigits_ne_nil

/-- The number of words decides whether code comes back. -/
theorem read_write (code : Code)
    : read (write code)
      = if code.length < UInt32.size then
          .ok code
        else
          .error (.notAnInteger 1 (toString code.length)) := by
  simp only [read, entries_write]
  split
  · rename_i small
    have declared : readWord (1, Nat.toDigits 10 code.length) = .ok code.length.toUInt32 := by
      simp [readWord, word?_toDigits, small]
    have counted : code.length.toUInt32.toNat = code.length :=
      UInt32.toNat_ofNat_of_lt small
    rw [declared, mapM_readWord_decimals]
    simp [bind, Except.bind, pure, Except.pure, counted]
  · rename_i large
    have refused : readWord (1, Nat.toDigits 10 code.length)
        = .error (.notAnInteger 1 (toString code.length)) := by
      rw [readWord, word?_toDigits, if_neg large, Nat.toString_eq_ofList_toDigits]
    rw [refused]
    rfl

/-- Code that was read has as many words as a word can say. -/
theorem length_lt_of_read {text : String} {code : Code} (accepted : read text = .ok code)
    : code.length < UInt32.size := by
  unfold read at accepted
  split at accepted
  · cases accepted
  · obtain ⟨declared, _, accepted⟩ := bind_eq_ok_iff.mp accepted
    obtain ⟨found, _, accepted⟩ := bind_eq_ok_iff.mp accepted
    split at accepted
    · rename_i counted
      cases accepted
      rw [counted]
      exact declared.toNat_lt
    · cases accepted

/-- Code comes back from its persisted form exactly when it has fewer than 2^32 words; otherwise
the first line is blamed. Whatever text some code was read from, the code comes back from its own
persisted form.
-/
theorem persisted_code_comes_back
    : (∀ code : Code,
        (read (write code) = .ok code ↔ code.length < UInt32.size)
        ∧ (UInt32.size ≤ code.length
          → read (write code) = .error (.notAnInteger 1 (toString code.length))))
      ∧ ∀ (text : String) (code : Code), read text = .ok code → read (write code) = .ok code := by
  refine ⟨?_, ?_⟩
  · intro code
    rw [read_write]
    constructor
    · constructor
      · intro accepted
        split at accepted
        · assumption
        · cases accepted
      · intro small
        exact if_pos small
    · intro large
      exact if_neg (Nat.not_lt.mpr large)
  · intro text code accepted
    rw [read_write, if_pos (length_lt_of_read accepted)]

/-- A text with a sign, leading zeros, a blank line and a carriage return; and a code too long. -/
theorem persisted_code_comes_back_loose
    : (read "+2\r\n\n\t007 \n5" = .ok [7, 5] ∧ read (write [7, 5]) = .ok [7, 5])
      ∧ read (write (List.replicate UInt32.size 0)) = .error (.notAnInteger 1 "4294967296") := by
  have accepted : read "+2\r\n\n\t007 \n5" = .ok [7, 5] := rfl
  refine ⟨⟨accepted, persisted_code_comes_back.2 _ _ accepted⟩, ?_⟩
  have refused := (persisted_code_comes_back.1 (List.replicate UInt32.size 0)).2
  rw [List.length_replicate] at refused
  exact refused (Nat.le_refl _)

end AgentLang.Persisted
