import AgentLang.Proofs.Persisted
import Mathlib.Data.List.Forall2

/-! How the reading of a persisted form ends, by the lines of its text. Blank lines count for the
numbers of the others and for nothing else. The first line that is no decimal of a word is blamed
before the words are counted.
-/

namespace AgentLang

-----------------------------------------------------------------------------------------
-- Computations that may fail, one after the other
-----------------------------------------------------------------------------------------

section

variable {ε α β : Type} {make : α → Except ε β}

/-- Making a result of each value succeeds when each one does. -/
theorem mapM_eq_ok_iff {source : List α} {results : List β}
    : source.mapM make = .ok results
      ↔ List.Forall₂ (fun value result => make value = .ok result) source results := by
  induction source generalizing results with
  | nil => rw [List.mapM_nil, pure_eq_ok_iff, List.forall₂_nil_left_iff]
  | cons value rest ih =>
      rw [List.mapM_cons, List.forall₂_cons_left_iff, bind_eq_ok_iff]
      simp only [bind_pure_eq_ok_iff, ih]
      grind

/-- The first value that fails decides, whatever is behind it. -/
theorem mapM_eq_error_iff {source : List α} {cause : ε}
    : source.mapM make = .error cause
      ↔ ∃ before value after,
          source = before ++ value :: after
          ∧ (∀ earlier ∈ before, ∃ result, make earlier = .ok result)
          ∧ make value = .error cause := by
  induction source with
  | nil => simp [pure, Except.pure]
  | cons first rest ih =>
      rw [List.mapM_cons, bind_eq_error_iff]
      simp only [bind_pure_eq_error_iff, ih]
      constructor
      · rintro (failed | ⟨result, made, before, value, after, rfl, earlier, failed⟩)
        · exact ⟨[], first, rest, rfl, List.forall_mem_nil _, failed⟩
        · exact ⟨first :: before, value, after, rfl,
            List.forall_mem_cons.mpr ⟨⟨result, made⟩, earlier⟩, failed⟩
      · rintro ⟨before, value, after, same, earlier, failed⟩
        cases before with
        | nil =>
            cases same
            exact .inl failed
        | cons _ before =>
            cases same
            obtain ⟨⟨result, made⟩, earlier⟩ := List.forall_mem_cons.mp earlier
            exact .inr ⟨result, made, before, value, after, rfl, earlier, failed⟩

end

namespace Persisted

-----------------------------------------------------------------------------------------
-- Lines and the words they stand for
-----------------------------------------------------------------------------------------

/-- The lines of a text, trimmed, without those that are blank then. Each keeps its number among
all lines, of which the first has number one.
-/
def numberedLines (text : String) : List (Nat × List Char) :=
  (((Text.lines text.toList).zipIdx 1).map fun (line, number) => (number, Text.trim line)).filter
    fun entry => !entry.2.isEmpty

/-- An unsigned decimal of a word: one digit or more whose value is the word, zeros in front or not,
behind a plus sign or not. So the value is below 2^32.
-/
def Denotes (line : List Char) (word : UInt32) : Prop :=
  ∃ digits,
    (line = digits ∨ line = '+' :: digits)
    ∧ digits ≠ []
    ∧ (∀ c ∈ digits, c.isDigit = true)
    ∧ Nat.ofDigitChars 10 digits 0 = word.toNat

/-- How reading numbered lines ends: the first of them says how many words the others are. -/
inductive Reads : List (Nat × List Char) → Except PersistedError Code → Prop
  | missing : Reads [] (.error .missingLength)
  | blamed {before number line after}
    (earlier : ∀ entry ∈ before, ∃ word, Denotes entry.2 word)
    (wrong : ∀ word, ¬ Denotes line word)
    : Reads (before ++ (number, line) :: after)
        (.error (.notAnInteger number (String.ofList line)))
  | counted {first rest declared code} (length : Denotes first.2 declared)
    (words : List.Forall₂ (fun entry word => Denotes entry.2 word) rest code)
    (same : declared.toNat = code.length)
    : Reads (first :: rest) (.ok code)
  | miscounted {first rest declared code} (length : Denotes first.2 declared)
    (words : List.Forall₂ (fun entry word => Denotes entry.2 word) rest code)
    (other : declared.toNat ≠ code.length)
    : Reads (first :: rest) (.error (.lengthMismatch declared.toNat code.length))

/-- Where lines differ in a carriage return at the end, they give the same entries. -/
theorem filterMap_nonblank?_of_piecewise {pieces lines : List (List Char)}
    (h : Text.Piecewise pieces lines) (number : Nat)
    : (pieces.zipIdx number).filterMap nonblank? = (lines.zipIdx number).filterMap nonblank? := by
  induction h generalizing number with
  | finished => rfl
  | unfinished => rfl
  | lineFeed _ ih => simp only [List.zipIdx_cons, List.filterMap_cons, ih]
  | carriageReturn _ ih =>
      simp only [List.zipIdx_cons, List.filterMap_cons, nonblank?,
        Text.trim_append_blank _ (by rfl : Text.isBlank '\r' = true), ih]

/-- The entries of a text are its numbered lines. -/
theorem entries_eq_numberedLines (text : String) : entries text = numberedLines text := by
  rw [entries_eq, filterMap_nonblank?_of_piecewise (Text.piecewise_lines _), numberedLines]
  induction (Text.lines text.toList).zipIdx 1 with
  | nil => rfl
  | cons numbered rest ih =>
      by_cases blank : (Text.trim numbered.1).isEmpty = true
      · simp [nonblank?, blank, ih]
      · simp [nonblank?, blank, ih]

/-- A word is read from a line exactly when the line is a decimal of it. -/
theorem word?_eq_some_iff {line : List Char} {word : UInt32}
    : word? line = some word ↔ Denotes line word := by
  unfold word? Denotes
  split
  · rename_i decimal
    -- A plus sign is no digit, so the sign can only be the one in front.
    rw [Text.word?_eq_some_iff]
    constructor
    · intro denoted
      exact ⟨decimal, .inr rfl, denoted⟩
    · rintro ⟨digits, rfl | same, nonempty, all, value⟩
      · cases all '+' List.mem_cons_self
      · cases same
        exact ⟨nonempty, all, value⟩
  · rename_i unsigned
    rw [Text.word?_eq_some_iff]
    constructor
    · intro denoted
      exact ⟨line, .inl rfl, denoted⟩
    · rintro ⟨digits, rfl | same, denoted⟩
      · exact denoted
      · exact (unsigned digits same).elim

theorem readWord_eq_ok_iff {entry : Nat × List Char} {word : UInt32}
    : readWord entry = .ok word ↔ Denotes entry.2 word := by
  rw [← word?_eq_some_iff, readWord]
  split <;> simp_all

/-- The error of a line that is no decimal of a word has its number and its text. -/
theorem readWord_eq_error_iff {entry : Nat × List Char} {cause : PersistedError}
    : readWord entry = .error cause
      ↔ (∀ word, ¬ Denotes entry.2 word)
        ∧ cause = .notAnInteger entry.1 (String.ofList entry.2) := by
  simp only [← word?_eq_some_iff, readWord]
  cases found : word? entry.2 with
  | none => simp [eq_comm]
  | some word => simp

/-- The words of lines that are all decimals. -/
theorem mapM_readWord_eq_ok_iff {entries : List (Nat × List Char)} {code : Code}
    : entries.mapM readWord = .ok code
      ↔ List.Forall₂ (fun entry word => Denotes entry.2 word) entries code := by
  simp only [mapM_eq_ok_iff, readWord_eq_ok_iff]

/-- The error of lines that are not all decimals is that of the first that is none. -/
theorem mapM_readWord_eq_error_iff {entries : List (Nat × List Char)} {cause : PersistedError}
    : entries.mapM readWord = .error cause
      ↔ ∃ before number line after,
          entries = before ++ (number, line) :: after
          ∧ (∀ entry ∈ before, ∃ word, Denotes entry.2 word)
          ∧ (∀ word, ¬ Denotes line word)
          ∧ cause = .notAnInteger number (String.ofList line) := by
  simp only [mapM_eq_error_iff, readWord_eq_ok_iff, readWord_eq_error_iff, Prod.exists]

-----------------------------------------------------------------------------------------
-- How reading ends
-----------------------------------------------------------------------------------------

/-- Reading a text ends as its lines say. -/
theorem reads_read (text : String) : Reads (numberedLines text) (read text) := by
  rw [← entries_eq_numberedLines, read]
  cases entries text with
  | nil => exact .missing
  | cons first rest =>
      cases length : readWord first with
      | error cause =>
          simp only [length, bind, Except.bind]
          obtain ⟨wrong, rfl⟩ := readWord_eq_error_iff.mp length
          exact @Reads.blamed [] first.1 first.2 rest (List.forall_mem_nil _) wrong
      | ok declared =>
          have denoted := readWord_eq_ok_iff.mp length
          cases words : rest.mapM readWord with
          | error cause =>
              simp only [length, words, bind, Except.bind]
              obtain ⟨before, number, line, after, rfl, earlier, wrong, rfl⟩ :=
                mapM_readWord_eq_error_iff.mp words
              exact @Reads.blamed (first :: before) number line after
                (List.forall_mem_cons.mpr ⟨⟨declared, denoted⟩, earlier⟩) wrong
          | ok code =>
              simp only [length, words, bind, Except.bind]
              have denotedAll := mapM_readWord_eq_ok_iff.mp words
              split
              · rename_i same
                exact .counted denoted denotedAll same.symm
              · rename_i other
                exact .miscounted denoted denotedAll (Ne.symm other)

/-- What the lines of a text say is how reading it ends. -/
theorem read_of_reads {text : String} {outcome : Except PersistedError Code}
    (reads : Reads (numberedLines text) outcome)
    : read text = outcome := by
  rw [← entries_eq_numberedLines] at reads
  generalize found : entries text = lines at reads
  cases reads with
  | missing => rw [read, found]
  | @blamed before number line after earlier wrong =>
      have blamed : readWord (number, line)
          = .error (.notAnInteger number (String.ofList line)) :=
        readWord_eq_error_iff.mpr ⟨wrong, rfl⟩
      cases before with
      | nil => simp [read, found, blamed, bind, Except.bind]
      | cons first before =>
          obtain ⟨⟨declared, denoted⟩, earlier⟩ := List.forall_mem_cons.mp earlier
          have words := mapM_readWord_eq_error_iff.mpr
            ⟨before, number, line, after, rfl, earlier, wrong, rfl⟩
          simp [read, found, readWord_eq_ok_iff.mpr denoted, words, bind, Except.bind]
  | counted denoted denotedAll same =>
      simp [read, found, readWord_eq_ok_iff.mpr denoted, mapM_readWord_eq_ok_iff.mpr denotedAll,
        same, bind, Except.bind, pure, Except.pure]
  | miscounted denoted denotedAll other =>
      simp [read, found, readWord_eq_ok_iff.mpr denoted, mapM_readWord_eq_ok_iff.mpr denotedAll,
        Ne.symm other, bind, Except.bind, throw, throwThe, MonadExceptOf.throw]

/-- Reading accepts exactly the texts of the persisted form, and blames the right line of any other
text. Without a line that is not blank the length is missing; otherwise the first line that is no
decimal of a word is blamed with its number in the text; otherwise the code is that of the lines
behind the first, or their number is not what the first one says.
-/
theorem reading_follows_lines (text : String) (outcome : Except PersistedError Code)
    : read text = outcome ↔ Reads (numberedLines text) outcome := by
  constructor
  · intro ended
    rw [← ended]
    exact reads_read text
  · exact read_of_reads

-- Blank lines and both ends of lines count for the numbers, and a wrong line before the number.
example : read "7\r\n\n \t+007\r\n4294967296\n-0" = .error (.notAnInteger 4 "4294967296") := rfl

end Persisted

end AgentLang
