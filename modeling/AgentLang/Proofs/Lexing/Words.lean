import AgentLang.Token

/-! How the tokens of a text come about at its beginning: a blank parts tokens, and a word ends
where another kind of character follows it.
-/

namespace AgentLang

-----------------------------------------------------------------------------------------
-- Words
-----------------------------------------------------------------------------------------

/-- A word of the language: word characters, and at least one. -/
def isWord (word : String) : Bool :=
  !word.toList.isEmpty && word.toList.all isWordChar

theorem isWord_iff {word : String}
    : isWord word = true ↔ word.toList ≠ [] ∧ ∀ c ∈ word.toList, isWordChar c = true := by
  simp [isWord]

theorem isWord_of_isIdentifier {name : String} (identifier : isIdentifier name = true)
    : isWord name = true := by
  unfold isIdentifier at identifier
  split at identifier
  · cases identifier
  · rename_i first rest written
    simp only [Bool.and_eq_true] at identifier
    obtain ⟨⟨letter, later⟩, _⟩ := identifier
    simp [isWord, written, later, isWordChar, Char.isAlphanum, letter]

theorem isWord_keyword (c : Condition) : isWord c.keyword = true := by
  cases c <;> rfl

theorem toNat_of_isAlpha {c : Char} (letter : c.isAlpha = true)
    : (0x41 ≤ c.toNat ∧ c.toNat ≤ 0x5A) ∨ (0x61 ≤ c.toNat ∧ c.toNat ≤ 0x7A) := by
  rcases Bool.or_eq_true_iff.mp letter with isUpper | isLower
  · exact .inl (of_decide_eq_true isUpper)
  · exact .inr ((Bool.and_eq_true_iff.mp isLower).imp of_decide_eq_true of_decide_eq_true)

theorem toNat_of_isDigit {c : Char} (digit : c.isDigit = true) : 0x30 ≤ c.toNat ∧ c.toNat ≤ 0x39 :=
  Char.isDigit_iff_toNat.mp digit

/-- Word characters lie between the hyphen and the last small letter. -/
theorem toNat_of_isWordChar {c : Char} (word : isWordChar c = true)
    : 0x2D ≤ c.toNat ∧ c.toNat ≤ 0x7A := by
  rcases Bool.or_eq_true_iff.mp word with word | underscore
  · rcases Bool.or_eq_true_iff.mp word with word | hyphen
    · rcases Bool.or_eq_true_iff.mp word with letter | digit
      · have bounds := toNat_of_isAlpha letter
        omega
      · have bounds := toNat_of_isDigit digit
        omega
    · rw [beq_iff_eq.mp hyphen]
      decide
  · rw [beq_iff_eq.mp underscore]
    decide

/-- No word contains a blank: of the blanks that are no control characters, one is below all word
characters and the others are above.
-/
theorem isBlank_of_isWordChar {c : Char} (word : isWordChar c = true) : Text.isBlank c = false := by
  obtain ⟨low, high⟩ := toNat_of_isWordChar word
  simp only [Text.isBlank, Bool.or_eq_false_iff, Bool.and_eq_false_iff, decide_eq_false_iff_not,
    beq_eq_false_iff_ne]
  omega

/-- No word starts a comment. -/
theorem ne_numberSign_of_isWordChar {c : Char} (word : isWordChar c = true) : c ≠ '#' := by
  intro same
  subst same
  cases word

-----------------------------------------------------------------------------------------
-- The first token of a text
-----------------------------------------------------------------------------------------

namespace Token

/-- The tokens of a text are its first one and those of the text behind. -/
theorem split_of_next?_eq_some {text rest : List Char} {token : Token}
    (found : next? text = some (token, rest))
    : split text = token :: split rest := by
  rw [split]
  split <;> simp_all

/-- A text without a first token has none. -/
theorem split_of_next?_eq_none {text : List Char} (none : next? text = none) : split text = [] := by
  rw [split]
  split <;> simp_all

theorem split_nil : split [] = [] := split_of_next?_eq_none rfl

/-- A text has the tokens of what is left behind its first gap. -/
theorem split_eq_of_skipGap_eq {text rest : List Char}
    (same : skipGap false text = skipGap false rest)
    : split text = split rest := by
  have nextSame : next? text = next? rest := by
    simp only [next?, same]
  cases found : next? rest with
  | none => rw [split_of_next?_eq_none (nextSame.trans found), split_of_next?_eq_none found]
  | some taken =>
      rw [split_of_next?_eq_some (nextSame.trans found), split_of_next?_eq_some found]

/-- A blank at the beginning changes no token. -/
theorem split_blank {c : Char} (blank : Text.isBlank c = true) (rest : List Char)
    : split (c :: rest) = split rest := by
  apply split_eq_of_skipGap_eq
  simp [skipGap, blank]

/-- A word is a token when no further word character follows it. -/
theorem split_word {word rest : List Char} (nonempty : word ≠ [])
    (chars : ∀ c ∈ word, isWordChar c = true)
    (ended : rest.head?.all (fun c => !isWordChar c) = true)
    : split (word ++ rest) = String.ofList word :: split rest := by
  cases word with
  | nil => exact (nonempty rfl).elim
  | cons c others =>
      have first := chars c List.mem_cons_self
      have later : ∀ other ∈ others, isWordChar other = true := fun other member =>
        chars other (List.mem_cons_of_mem _ member)
      have gap : skipGap false (c :: (others ++ rest)) = c :: (others ++ rest) := by
        simp [skipGap, isBlank_of_isWordChar first, ne_numberSign_of_isWordChar first]
      have stops : rest.takeWhile isWordChar = [] ∧ rest.dropWhile isWordChar = rest := by
        cases rest <;> simp_all
      apply split_of_next?_eq_some
      simp [next?, gap, first, List.takeWhile_append_of_pos later,
        List.dropWhile_append_of_pos later, stops]

/-- A word is taken off a text together with the blank behind it. -/
theorem split_word_blank {word : String} (wordChars : isWord word = true) {c : Char}
    (blank : Text.isBlank c = true) (rest : List Char)
    : split (word.toList ++ c :: rest) = word :: split rest := by
  obtain ⟨nonempty, chars⟩ := isWord_iff.mp wordChars
  have ended : isWordChar c ≠ true := by
    intro wordChar
    rw [isBlank_of_isWordChar wordChar] at blank
    cases blank
  rw [split_word nonempty chars (by simp [ended]), split_blank blank, String.ofList_toList]

end Token

end AgentLang
