import AgentLang.Text.Blank
import AgentLang.Word

/-! Tokens of a program text: maximal words, and every other visible character alone. Blanks
and comments only part tokens.
-/

namespace AgentLang

abbrev Token := String

namespace Token

/-- Drops the blanks and comments a text starts with. A comment runs from a number sign
through the next line feed; the flag says that one is being dropped.
-/
def skipGap (inComment : Bool) : List Char → List Char
  | [] => []
  | c :: rest =>
      if inComment then
        skipGap (c != '\n') rest
      else if Text.isBlank c then
        skipGap false rest
      else if c = '#' then
        skipGap true rest
      else
        c :: rest

/-- The first token of a text and the text behind it, or nothing when only a gap is left. -/
def next? (text : List Char) : Option (Token × List Char) :=
  match skipGap false text with
  | [] => none
  | c :: rest =>
      if isWordChar c then
        some (String.ofList (c :: rest.takeWhile isWordChar), rest.dropWhile isWordChar)
      else
        some (String.singleton c, rest)

theorem skipGap_length_le (inComment : Bool) (text : List Char)
    : (skipGap inComment text).length ≤ text.length := by
  induction text generalizing inComment with
  | nil => simp [skipGap]
  | cons c rest ih =>
      unfold skipGap
      split
      · exact Nat.le_succ_of_le (ih _)
      · split
        · exact Nat.le_succ_of_le (ih _)
        · split
          · exact Nat.le_succ_of_le (ih _)
          · exact Nat.le_refl _

/-- A token takes at least one character off the text. -/
theorem next?_rest_length_lt {text rest : List Char} {token : Token}
    (h : next? text = some (token, rest))
    : rest.length < text.length := by
  have hgap := skipGap_length_le false text
  unfold next? at h
  split at h
  · cases h
  · rename_i c tail heq
    rw [heq, List.length_cons] at hgap
    split at h <;> cases h
    · have := (List.dropWhile_sublist (l := tail) isWordChar).length_le
      omega
    · omega

/-- All tokens of a text, in order. -/
def split (text : List Char) : List Token :=
  match _found : next? text with
  | none => []
  | some (token, rest) => token :: split rest
termination_by text.length
decreasing_by exact next?_rest_length_lt _found

/-- All tokens of a program text. -/
def ofSource (source : String) : List Token := split source.toList

/-- The tokens of a byte stream, or nothing when it is not UTF-8. -/
def ofBytes? (bytes : ByteArray) : Option (List Token) :=
  (String.fromUTF8? bytes).map ofSource

end Token

end AgentLang
