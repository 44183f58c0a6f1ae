import AgentLang.Json.Quoted

/-! A quoted string is read as the text that was quoted, whatever its characters are. -/

namespace AgentLang.Json.Quoted

/-- The four digits of a control character name it. -/
theorem hexCode?_control {code : Nat} (control : code < 0x20)
    : hexCode? '0' '0' (hexDigit (code / 16)) (hexDigit (code % 16)) = some code := by
  have named
      : ∀ n < 0x20, hexCode? '0' '0' (hexDigit (n / 16)) (hexDigit (n % 16)) = some n := by
    decide
  exact named code control

theorem ofCode_toNat {c : Char} (control : c.toNat < 0x20) : Piece.ofCode c.toNat = .char c := by
  have noHigh : ¬(0xD800 ≤ c.toNat ∧ c.toNat < 0xDC00) := by omega
  have noLow : ¬(0xDC00 ≤ c.toNat ∧ c.toNat < 0xE000) := by omega
  rw [Piece.ofCode, if_neg noHigh, if_neg noLow, Char.ofNat_toNat]

/-- An escaped character is read as that character, by the forms an escape has. -/
theorem scan_escape (c : Char) (read : List Piece) (rest : List Char)
    : scan read (escape c ++ rest) = scan (.char c :: read) rest := by
  fun_cases escape c with
  | case1 | case2 | case3 | case4 | case5 | case6 | case7 =>
      subst_vars
      rfl
  | case8 _ _ _ _ _ _ _ control =>
      simp only [List.cons_append, List.nil_append, scan, hexCode?_control control,
        ofCode_toNat control]
  | case9 notQuote notBackslash _ _ _ _ _ visible =>
      rw [List.singleton_append, scan.eq_def]
      split <;> grind

theorem scan_escapes (chars : List Char) (read : List Piece) (rest : List Char)
    : scan read (chars.flatMap escape ++ '"' :: rest)
      = some ((chars.map Piece.char).reverse ++ read, rest) := by
  induction chars generalizing read with
  | nil => rfl
  | cons c chars ih =>
      rw [List.flatMap_cons, List.append_assoc, scan_escape, ih]
      simp

theorem join?_chars (chars : List Char) : join? (chars.map Piece.char) = some chars := by
  induction chars with
  | nil => rfl
  | cons c chars ih => simp [join?, ih]

/-- What follows the opening quote of a text is read as that text. -/
theorem text?_scan (text : String) (rest : List Char)
    : ∃ pieces,
        scan [] (text.toList.flatMap escape ++ '"' :: rest) = some (pieces, rest)
        ∧ text? pieces = some text := by
  refine ⟨(text.toList.map Piece.char).reverse, ?_, ?_⟩
  · rw [scan_escapes, List.append_nil]
  · rw [text?, List.reverse_reverse, join?_chars, Option.map_some, String.ofList_toList]

end AgentLang.Json.Quoted
