import AgentLang.Text.Blank

/-! Texts cut at a separator, the lines of a text, and those of a text that was built of lines. -/

namespace AgentLang.Text

/-- A text has a first piece. -/
theorem splitAt_ne_nil (separator : Char) (text : List Char) : splitAt separator text ≠ [] := by
  cases text with
  | nil => nofun
  | cons c rest =>
      simp only [splitAt]
      split
      · nofun
      · split <;> nofun

/-- A separator parts the pieces in front of it from those behind it. -/
theorem splitAt_append (separator : Char) (text rest : List Char)
    : splitAt separator (text ++ separator :: rest)
      = splitAt separator text ++ splitAt separator rest := by
  induction text with
  | nil => simp [splitAt]
  | cons c text ih =>
      simp only [List.cons_append, splitAt, ih]
      split
      · rfl
      · cases pieces : splitAt separator text with
        | nil => exact (splitAt_ne_nil separator text pieces).elim
        | cons piece others => rfl

/-- A text without the separator is one piece. -/
theorem splitAt_of_not_mem {separator : Char} {text : List Char} (absent : separator ∉ text)
    : splitAt separator text = [text] := by
  induction text with
  | nil => rfl
  | cons c rest ih =>
      obtain ⟨notFirst, notLater⟩ := List.ne_and_not_mem_of_not_mem_cons absent
      simp only [splitAt, if_neg notFirst.symm, ih notLater]

/-- No piece has the separator in it. -/
theorem not_mem_of_mem_splitAt {separator : Char} {text piece : List Char}
    (member : piece ∈ splitAt separator text)
    : separator ∉ piece := by
  induction text generalizing piece with
  | nil =>
      obtain rfl := List.mem_singleton.mp member
      exact List.not_mem_nil
  | cons c rest ih =>
      simp only [splitAt] at member
      split at member
      · rcases List.mem_cons.mp member with rfl | later
        · exact List.not_mem_nil
        · exact ih later
      · rename_i inside
        cases pieces : splitAt separator rest with
        | nil => exact (splitAt_ne_nil separator rest pieces).elim
        | cons first others =>
            rw [pieces] at member ih
            rcases List.mem_cons.mp member with rfl | later
            · rw [List.mem_cons, not_or]
              exact ⟨Ne.symm inside, ih List.mem_cons_self⟩
            · exact ih (List.mem_cons_of_mem _ later)

theorem toList_unlines (lines : List String)
    : (unlines lines).toList = lines.flatMap fun line => line.toList ++ ['\n'] := by
  simp [unlines, String.toList_join, List.flatMap_map]

/-- Lines with a line feed behind each are cut apart again, and an empty piece is left behind the
last one.
-/
theorem splitAt_lines {lines : List (List Char)} (unbroken : ∀ line ∈ lines, '\n' ∉ line)
    : splitAt '\n' (lines.flatMap (· ++ ['\n'])) = lines ++ [[]] := by
  induction lines with
  | nil => rfl
  | cons line rest ih =>
      obtain ⟨first, later⟩ := List.forall_mem_cons.mp unbroken
      rw [List.flatMap_cons, List.append_assoc, List.singleton_append, splitAt_append,
        splitAt_of_not_mem first, ih later]
      rfl

/-- A text built of lines is cut into them and an empty piece behind the last line feed. -/
theorem splitAt_unlines {lines : List String} (unbroken : ∀ line ∈ lines, '\n' ∉ line.toList)
    : splitAt '\n' (unlines lines).toList = lines.map String.toList ++ [[]] := by
  rw [toList_unlines, ← splitAt_lines (List.forall_mem_map.mpr unbroken), List.flatMap_map]

/-- Trimming leaves a text without blanks as it is. -/
theorem trim_of_visible {text : List Char} (visible : ∀ c ∈ text, isBlank c = false)
    : trim text = text := by
  have kept {chars : List Char} (same : ∀ c ∈ chars, c ∈ text)
      : chars.dropWhile isBlank = chars := by
    cases chars with
    | nil => rfl
    | cons c rest => simp [visible c (same c List.mem_cons_self)]
  rw [trim, kept fun _ member => member, kept fun _ member => List.mem_reverse.mp member,
    List.reverse_reverse]

/-- Puts a character in front of the first line. Where there is no line it makes one. -/
def extendLine (c : Char) : List (List Char) → List (List Char)
  | [] => [[c]]
  | line :: later => (c :: line) :: later

/-- The lines of a text. A line ends at a line feed, with a carriage return before it or not; behind
the last line feed there is another line only when some text is left.
-/
def lines : List Char → List (List Char)
  | [] => []
  | '\n' :: rest => [] :: lines rest
  | '\r' :: '\n' :: rest => [] :: lines rest
  | c :: rest => extendLine c (lines rest)

/-- The pieces between line feeds, beside the lines of the same text: a piece may keep the carriage
return that ends its line, and an empty piece behind the last line feed is no line.
-/
inductive Piecewise : List (List Char) → List (List Char) → Prop
  | finished : Piecewise [[]] []
  | unfinished {line} (nonempty : line ≠ []) : Piecewise [line] [line]
  | lineFeed {line pieces later} (rest : Piecewise pieces later)
    : Piecewise (line :: pieces) (line :: later)
  | carriageReturn {line pieces later} (rest : Piecewise pieces later)
    : Piecewise ((line ++ ['\r']) :: pieces) (line :: later)

/-- A character in front belongs to the first piece and to the first line. -/
theorem Piecewise.extend {pieces found : List (List Char)} (h : Piecewise pieces found) (c : Char)
    : Piecewise (extendLine c pieces) (extendLine c found) := by
  cases h with
  | finished => exact .unfinished (List.cons_ne_nil c [])
  | unfinished => exact .unfinished (List.cons_ne_nil c _)
  | lineFeed rest => exact .lineFeed rest
  | @carriageReturn line pieces later rest =>
      exact @Piecewise.carriageReturn (c :: line) pieces later rest

/-- Cutting at line feeds leaves the lines but for carriage returns, by the ways a line goes on. -/
theorem piecewise_lines (text : List Char) : Piecewise (splitAt '\n' text) (lines text) := by
  fun_induction lines text with
  | case1 => exact .finished
  | case2 rest ih => exact .lineFeed ih
  | case3 rest ih => exact @Piecewise.carriageReturn [] _ _ ih
  | case4 c rest inside _ ih =>
      have extended : splitAt '\n' (c :: rest) = extendLine c (splitAt '\n' rest) := by
        rw [splitAt, if_neg inside]
        cases splitAt '\n' rest <;> rfl
      rw [extended]
      exact ih.extend c

/-- Trimming drops a blank at the end, whatever is before it. -/
theorem trim_append_blank (text : List Char) {c : Char} (blank : isBlank c = true)
    : trim (text ++ [c]) = trim text := by
  unfold trim
  rw [List.dropWhile_append]
  split
  · rename_i none
    simp [List.isEmpty_iff.mp none, blank]
  · simp [blank]

end AgentLang.Text
