import AgentLang.Text.Decimal

/-! Decimals as they are written: digits without a zero in front, which read as the number that was
written.
-/

namespace AgentLang.Text

theorem toList_toString (n : Nat) : (toString n).toList = Nat.toDigits 10 n := by
  rw [Nat.toString_eq_ofList_toDigits, String.toList_ofList]

theorem isDigit_of_mem_decimal {n : Nat} {c : Char} (member : c ∈ Nat.toDigits 10 n)
    : c.isDigit = true :=
  Nat.isDigit_of_mem_toDigits (by decide) (by decide) member

theorem not_mem_decimal {c : Char} (noDigit : c.isDigit = false) (n : Nat)
    : c ∉ Nat.toDigits 10 n := by
  intro member
  rw [isDigit_of_mem_decimal member] at noDigit
  cases noDigit

/-- Digits are read as the number they stand for behind the value read before. -/
theorem digits?_of_isDigit {digits : List Char} (all : ∀ c ∈ digits, c.isDigit = true) (value : Nat)
    : digits? value digits = some (Nat.ofDigitChars 10 digits value) := by
  induction digits generalizing value with
  | nil => rfl
  | cons c rest ih =>
      obtain ⟨digit, others⟩ := List.forall_mem_cons.mp all
      rw [digits?, if_pos digit, ih others, Nat.ofDigitChars_cons]

/-- A number is a word exactly when it is below 2^32. -/
theorem toNat_toUInt32_eq_iff (n : Nat) : n.toUInt32.toNat = n ↔ n < UInt32.size := by
  constructor
  · intro same
    rw [← same]
    exact n.toUInt32.toNat_lt
  · exact UInt32.toNat_ofNat_of_lt'

/-- A decimal stands for a word when its number is below 2^32, and for nothing otherwise. -/
theorem word?_toDigits (n : Nat)
    : word? (Nat.toDigits 10 n) = if n < UInt32.size then some n.toUInt32 else none := by
  have read : digits? 0 (Nat.toDigits 10 n) = some n := by
    rw [digits?_of_isDigit fun _ => isDigit_of_mem_decimal, Nat.ofDigitChars_ten_toDigits]
  have notEmpty : (Nat.toDigits 10 n).isEmpty = false := by
    simp [Nat.toDigits_ne_nil]
  simp only [word?, notEmpty, read, Bool.false_eq_true, if_false]

/-- Only digits are read as a number. -/
theorem isDigit_of_digits? {text : List Char} {value result : Nat}
    (found : digits? value text = some result)
    : ∀ c ∈ text, c.isDigit = true := by
  induction text generalizing value with
  | nil => nofun
  | cons c rest ih =>
      rw [digits?] at found
      split at found
      · rename_i digit
        exact List.forall_mem_cons.mpr ⟨digit, ih found⟩
      · cases found

/-- A text stands for a word when it is made of digits that count up to it. -/
theorem word?_eq_some_iff {text : List Char} {word : UInt32}
    : word? text = some word
      ↔ text ≠ []
        ∧ (∀ c ∈ text, c.isDigit = true)
        ∧ Nat.ofDigitChars 10 text 0 = word.toNat := by
  constructor
  · intro found
    unfold word? at found
    split at found
    · cases found
    · rename_i nonempty
      split at found
      · cases found
      · rename_i value digits
        have all := isDigit_of_digits? digits
        obtain rfl := Option.some.inj ((digits?_of_isDigit all 0).symm.trans digits)
        split at found
        · rename_i small
          cases found
          exact ⟨by simpa using nonempty, all, (UInt32.toNat_ofNat_of_lt' small).symm⟩
        · cases found
  · intro ⟨nonempty, all, value⟩
    have small : word.toNat < UInt32.size := word.toNat_lt
    rw [word?, digits?_of_isDigit all, value]
    simp [nonempty, small]

/-- A word is read from its decimal. -/
theorem word?_decimal (word : UInt32) : word? (Nat.toDigits 10 word.toNat) = some word := by
  have small : word.toNat < UInt32.size := word.toNat_lt
  simp [word?_toDigits, small]

/-- The decimal of a positive number starts with no zero, by its digits from the last one on. -/
theorem decimal_of_pos {n : Nat} (positive : 0 < n)
    : ∃ c rest, Nat.toDigits 10 n = c :: rest ∧ c ≠ '0' := by
  by_cases small : n < 10
  · have notZero : ∀ digit < 10, 0 < digit → digit.digitChar ≠ '0' := by decide
    exact ⟨n.digitChar, [], Nat.toDigits_of_lt_base small, notZero n small positive⟩
  · have shorter : 0 < n / 10 := by omega
    obtain ⟨c, rest, written, notZero⟩ := decimal_of_pos shorter
    refine ⟨c, rest ++ [(n % 10).digitChar], ?_, notZero⟩
    rw [Nat.toDigits_of_base_le (by decide) (by omega), written]
    rfl
termination_by n
decreasing_by omega

end AgentLang.Text
