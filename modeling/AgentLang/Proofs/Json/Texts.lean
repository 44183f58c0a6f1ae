import AgentLang.Json.Printer
import AgentLang.Json.Reader
import AgentLang.Proofs.Json.Strings

/-! Indented texts are read as the values they were written from. A value is written as its
tokens with blanks between them, and its tokens take the reader through that value.
-/

namespace AgentLang.Json

-----------------------------------------------------------------------------------------
-- Values and their tokens
-----------------------------------------------------------------------------------------

mutual

/-- The numbers of a value are numbers by the grammar of JSON, which not every text is. -/
def Numeric : Json → Prop
  | .number literal => Token.isNumber literal.toList = true
  | .array items => NumericItems items
  | .object fields => NumericFields fields
  | .null | .bool _ | .string _ | .unpaired => True

def NumericItems : List Json → Prop
  | [] => True
  | item :: items => Numeric item ∧ NumericItems items

def NumericFields : List (String × Json) → Prop
  | [] => True
  | (_, value) :: fields => Numeric value ∧ NumericFields fields

end

mutual

def tokens : Json → List Token
  | .null => [.null]
  | .bool b => [.bool b]
  | .number literal => [.number literal]
  | .string text => [.string (some text)]
  | .unpaired => [.string none]
  | .array [] => [.leftBracket, .rightBracket]
  | .array (item :: items) =>
      .leftBracket :: (tokens item ++ (itemTokens items ++ [.rightBracket]))
  | .object [] => [.leftBrace, .rightBrace]
  | .object ((key, value) :: fields) =>
      .leftBrace :: .string (some key) :: .colon
        :: (tokens value ++ (fieldTokens fields ++ [.rightBrace]))

/-- The tokens of the items behind the first one. -/
def itemTokens : List Json → List Token
  | [] => []
  | item :: items => .comma :: (tokens item ++ itemTokens items)

def fieldTokens : List (String × Json) → List Token
  | [] => []
  | (key, value) :: fields =>
      .comma :: .string (some key) :: .colon :: (tokens value ++ fieldTokens fields)

end

-----------------------------------------------------------------------------------------
-- Numbers
-----------------------------------------------------------------------------------------

namespace Token

theorem isNumberChar_of_isDigit {c : Char} (digit : c.isDigit = true) : isNumberChar c = true := by
  simp [isNumberChar, digit]

theorem forall_of_isExponent {text : List Char} (exponent : isExponent text = true)
    : ∀ c ∈ text, isNumberChar c = true := by
  have ofDigits {digits : List Char} (all : digits.all Char.isDigit = true)
      : ∀ c ∈ digits, isNumberChar c = true :=
    fun c member => isNumberChar_of_isDigit (List.all_eq_true.mp all c member)
  cases text with
  | nil => exact List.forall_mem_nil _
  | cons e rest =>
      simp only [isExponent, Bool.and_eq_true, Bool.or_eq_true, beq_iff_eq] at exponent
      obtain ⟨⟨letter, _⟩, digits⟩ := exponent
      have first : isNumberChar e = true := by
        rcases letter with small | capital
        · rw [small]
          rfl
        · rw [capital]
          rfl
      refine List.forall_mem_cons.mpr ⟨first, ?_⟩
      split at digits
      · exact List.forall_mem_cons.mpr ⟨rfl, ofDigits digits⟩
      · exact List.forall_mem_cons.mpr ⟨rfl, ofDigits digits⟩
      · exact ofDigits digits

/-- Digits in front are characters of a number as well. -/
theorem forall_of_forall_dropWhile {text : List Char}
    (behind : ∀ c ∈ text.dropWhile Char.isDigit, isNumberChar c = true)
    : ∀ c ∈ text, isNumberChar c = true := by
  intro c member
  rw [← List.takeWhile_append_dropWhile (p := Char.isDigit) (l := text)] at member
  rcases List.mem_append.mp member with front | later
  · exact isNumberChar_of_isDigit (List.all_eq_true.mp List.all_takeWhile c front)
  · exact behind c later

theorem forall_of_isFraction {text : List Char} (fraction : isFraction text = true)
    : ∀ c ∈ text, isNumberChar c = true := by
  unfold isFraction at fraction
  split at fraction
  · have behind := forall_of_isExponent (Bool.and_eq_true_iff.mp fraction).2
    exact List.forall_mem_cons.mpr ⟨rfl, forall_of_forall_dropWhile behind⟩
  · exact forall_of_isExponent fraction

theorem forall_of_isUnsigned {text : List Char} (unsigned : isUnsigned text = true)
    : ∀ c ∈ text, isNumberChar c = true := by
  unfold isUnsigned at unsigned
  split at unsigned
  · exact List.forall_mem_cons.mpr ⟨rfl, forall_of_isFraction unsigned⟩
  · obtain ⟨digit, fraction⟩ := Bool.and_eq_true_iff.mp unsigned
    have behind := forall_of_forall_dropWhile (forall_of_isFraction fraction)
    exact List.forall_mem_cons.mpr ⟨isNumberChar_of_isDigit digit, behind⟩
  · cases unsigned

/-- A number is made of the characters that its reading takes. -/
theorem forall_of_isNumber {text : List Char} (number : isNumber text = true)
    : ∀ c ∈ text, isNumberChar c = true := by
  unfold isNumber at number
  split at number
  · exact List.forall_mem_cons.mpr ⟨rfl, forall_of_isUnsigned number⟩
  · exact forall_of_isUnsigned number

/-- A number starts with a digit or a sign. -/
theorem first_of_isNumber {c : Char} {rest : List Char} (number : isNumber (c :: rest) = true)
    : c.isDigit = true ∨ c = '-' := by
  unfold isNumber at number
  split at number
  · rename_i signed
    cases signed
    exact .inr rfl
  · unfold isUnsigned at number
    split at number
    · rename_i zero
      cases zero
      exact .inl rfl
    · rename_i first
      cases first
      exact .inl (Bool.and_eq_true_iff.mp number).1
    · cases number

-----------------------------------------------------------------------------------------
-- The first token of a text
-----------------------------------------------------------------------------------------

/-- A text in front of which a number or a name ends. -/
def Apart : List Char → Prop
  | [] => True
  | c :: _ => isNumberChar c = false ∧ c.isAlpha = false

variable {rest : List Char} (read : List Token)

theorem Apart.stops_number (apart : Apart rest)
    : rest.takeWhile isNumberChar = [] ∧ rest.dropWhile isNumberChar = rest := by
  cases rest <;> simp_all [Apart]

theorem Apart.stops_name (apart : Apart rest)
    : rest.takeWhile Char.isAlpha = [] ∧ rest.dropWhile Char.isAlpha = rest := by
  cases rest <;> simp_all [Apart]

theorem splitFrom_blank {c : Char} (blank : isBlank c = true)
    : splitFrom read (c :: rest) = splitFrom read rest := by
  rw [splitFrom, if_pos blank]

theorem splitFrom_of_next? {c : Char} {text : List Char} {token : Token}
    (notBlank : isBlank c = false) (found : next? c text = some (token, rest))
    : splitFrom read (c :: text) = splitFrom (token :: read) rest := by
  rw [splitFrom, if_neg (by simp [notBlank])]
  split <;> simp_all

theorem splitFrom_mark (c : Char) {token : Token} (notBlank : isBlank c = false)
    (stands : ofPunctuation? c = some token)
    : splitFrom read (c :: rest) = splitFrom (token :: read) rest :=
  splitFrom_of_next? read notBlank (by rw [next?, stands])

theorem toList_newline (indent : Nat)
    : (newline indent).toList = '\n' :: List.replicate (2 * indent) ' ' := by
  simp [newline]

/-- The blanks of an indentation are passed over. -/
theorem splitFrom_newline (indent : Nat)
    : splitFrom read ((newline indent).toList ++ rest) = splitFrom read rest := by
  have blanks (n : Nat) : splitFrom read (List.replicate n ' ' ++ rest) = splitFrom read rest := by
    induction n with
    | zero => rfl
    | succ n ih => rw [List.replicate_succ, List.cons_append, splitFrom_blank read rfl, ih]
  rw [toList_newline, List.cons_append, splitFrom_blank read rfl, blanks]

theorem splitFrom_quote (text : String)
    : splitFrom read ((Quoted.quote text).toList ++ rest)
      = splitFrom (.string (some text) :: read) rest := by
  obtain ⟨pieces, scanned, joined⟩ := Quoted.text?_scan text rest
  have found : next? '"' (text.toList.flatMap Quoted.escape ++ '"' :: rest)
      = some (.string (some text), rest) := by
    simp [next?, ofPunctuation?, scanned, joined]
  rw [← splitFrom_of_next? read rfl found]
  simp [Quoted.quote]

/-- What starts a number is no blank, no token on its own, no quote and no letter. -/
theorem ne_of_isNumber {c : Char} {rest : List Char} (number : isNumber (c :: rest) = true)
    : isBlank c = false ∧ ofPunctuation? c = none ∧ c ≠ '"' ∧ c.isAlpha = false := by
  rcases first_of_isNumber number with digit | sign
  · have other (d : Char) (noDigit : d.isDigit = false) : c ≠ d := by
      intro same
      rw [same, noDigit] at digit
      cases digit
    have notAlpha : c.isAlpha = false := by
      have bounds : 0x30 ≤ c.toNat ∧ c.toNat ≤ 0x39 := Char.isDigit_iff_toNat.mp digit
      apply Bool.eq_false_iff.mpr
      intro letter
      rcases Bool.or_eq_true_iff.mp letter with upper | lower
      · have above : 0x41 ≤ c.toNat ∧ c.toNat ≤ 0x5A := of_decide_eq_true upper
        omega
      · have above : 0x61 ≤ c.toNat :=
          of_decide_eq_true (Bool.and_eq_true_iff.mp lower).1
        omega
    refine ⟨?_, ?_, other '"' rfl, notAlpha⟩
    · simp [isBlank, other]
    · simp [ofPunctuation?, other]
  · rw [sign]
    decide

theorem splitFrom_number {literal : String} (number : isNumber literal.toList = true)
    (apart : Apart rest)
    : splitFrom read (literal.toList ++ rest) = splitFrom (.number literal :: read) rest := by
  cases written : literal.toList with
  | nil =>
      rw [written] at number
      cases number
  | cons c digits =>
      rw [written] at number
      obtain ⟨notBlank, notPunctuation, notQuote, notAlpha⟩ := ne_of_isNumber number
      obtain ⟨first, others⟩ := List.forall_mem_cons.mp (forall_of_isNumber number)
      have same : String.ofList (c :: digits) = literal := by
        rw [← written, String.ofList_toList]
      apply splitFrom_of_next? read notBlank
      simp [next?, notPunctuation, notQuote, notAlpha, first, List.takeWhile_append_of_pos others,
        List.dropWhile_append_of_pos others, apart.stops_number, number, same]

/-- The names are made of letters. -/
theorem forall_of_ofName? {c : Char} {letters : List Char} {token : Token}
    (named : ofName? (c :: letters) = some token)
    : (isBlank c = false ∧ ofPunctuation? c = none ∧ c ≠ '"' ∧ c.isAlpha = true)
      ∧ ∀ d ∈ letters, d.isAlpha = true := by
  unfold ofName? at named
  split at named
  · rename_i isNull
    cases isNull
    exact ⟨by decide, List.all_eq_true.mp rfl⟩
  · split at named
    · rename_i isTrue
      cases isTrue
      exact ⟨by decide, List.all_eq_true.mp rfl⟩
    · split at named
      · rename_i isFalse
        cases isFalse
        exact ⟨by decide, List.all_eq_true.mp rfl⟩
      · cases named

theorem splitFrom_name (name : String) {token : Token} (named : ofName? name.toList = some token)
    (apart : Apart rest)
    : splitFrom read (name.toList ++ rest) = splitFrom (token :: read) rest := by
  cases written : name.toList with
  | nil =>
      rw [written] at named
      cases named
  | cons c letters =>
      rw [written] at named
      obtain ⟨⟨notBlank, notPunctuation, notQuote, alpha⟩, others⟩ := forall_of_ofName? named
      apply splitFrom_of_next? read notBlank
      simp [next?, notPunctuation, notQuote, alpha, List.takeWhile_append_of_pos others,
        List.dropWhile_append_of_pos others, apart.stops_name, named]

-----------------------------------------------------------------------------------------
-- The tokens of an indented text
-----------------------------------------------------------------------------------------

theorem apart_newline (indent : Nat) (rest : List Char)
    : Apart ((newline indent).toList ++ rest) := by
  rw [toList_newline]
  exact ⟨rfl, rfl⟩

theorem Apart.renderItems (apart : Apart rest) (indent : Nat) (items : List Json)
    : Apart ((renderItems indent items).toList ++ rest) := by
  cases items with
  | nil => simpa [Json.renderItems] using apart
  | cons item items =>
      simp only [Json.renderItems, String.toList_append, String.reduceToList, List.cons_append]
      exact ⟨rfl, rfl⟩

theorem Apart.renderFields (apart : Apart rest) (indent : Nat) (fields : List (String × Json))
    : Apart ((renderFields indent fields).toList ++ rest) := by
  cases fields with
  | nil => simpa [Json.renderFields] using apart
  | cons field fields =>
      simp only [Json.renderFields, String.toList_append, String.reduceToList, List.cons_append]
      exact ⟨rfl, rfl⟩

mutual

/-- A value is written as its tokens, by its form. What follows has to stand apart, or a number at
the end would go on in it.
-/
theorem splitFrom_render (value : Json) (numeric : value.Numeric) (indent : Nat)
    (read : List Token) {rest : List Char} (apart : Apart rest)
    : splitFrom read ((render indent value).toList ++ rest)
      = splitFrom (value.tokens.reverse ++ read) rest := by
  match value with
  | .null => exact splitFrom_name read "null" rfl apart
  | .bool true => exact splitFrom_name read "true" rfl apart
  | .bool false => exact splitFrom_name read "false" rfl apart
  | .number literal => exact splitFrom_number read numeric apart
  | .string text => exact splitFrom_quote read text
  | .unpaired =>
      have found : next? '"' ("\\ud800\"".toList ++ rest) = some (.string none, rest) := rfl
      simpa [render, tokens] using splitFrom_of_next? read rfl found
  | .array [] =>
      simp only [render, tokens, String.reduceToList, List.cons_append, List.nil_append,
        splitFrom_mark read '[' rfl rfl, splitFrom_mark _ ']' rfl rfl]
      rfl
  | .array (item :: items) =>
      obtain ⟨first, others⟩ := numeric
      have behind := apart_newline indent (']' :: rest)
      simp only [render, String.toList_append, List.append_assoc, String.reduceToList,
        List.cons_append, List.nil_append]
      rw [splitFrom_mark read '[' rfl rfl, splitFrom_newline,
        splitFrom_render item first _ _ (behind.renderItems _ items),
        splitFrom_renderItems items others _ _ behind, splitFrom_newline,
        splitFrom_mark _ ']' rfl rfl]
      simp [tokens]
  | .object [] =>
      simp only [render, tokens, String.reduceToList, List.cons_append, List.nil_append,
        splitFrom_mark read '\x7b' rfl rfl, splitFrom_mark _ '\x7d' rfl rfl]
      rfl
  | .object ((key, value) :: fields) =>
      obtain ⟨first, others⟩ := numeric
      have behind := apart_newline indent ('\x7d' :: rest)
      simp only [render, String.toList_append, List.append_assoc, String.reduceToList,
        List.cons_append, List.nil_append]
      rw [splitFrom_mark read '\x7b' rfl rfl, splitFrom_newline, splitFrom_quote,
        splitFrom_mark _ ':' rfl rfl, splitFrom_blank _ rfl,
        splitFrom_render value first _ _ (behind.renderFields _ fields),
        splitFrom_renderFields fields others _ _ behind, splitFrom_newline,
        splitFrom_mark _ '\x7d' rfl rfl]
      simp [tokens]

theorem splitFrom_renderItems (items : List Json) (numeric : NumericItems items) (indent : Nat)
    (read : List Token) {rest : List Char} (apart : Apart rest)
    : splitFrom read ((renderItems indent items).toList ++ rest)
      = splitFrom ((itemTokens items).reverse ++ read) rest := by
  match items with
  | [] => rfl
  | item :: items =>
      obtain ⟨first, others⟩ := numeric
      simp only [renderItems, String.toList_append, List.append_assoc, String.reduceToList,
        List.cons_append, List.nil_append]
      rw [splitFrom_mark read ',' rfl rfl, splitFrom_newline,
        splitFrom_render item first _ _ (apart.renderItems _ items),
        splitFrom_renderItems items others _ _ apart]
      simp [itemTokens]

theorem splitFrom_renderFields (fields : List (String × Json)) (numeric : NumericFields fields)
    (indent : Nat) (read : List Token) {rest : List Char} (apart : Apart rest)
    : splitFrom read ((renderFields indent fields).toList ++ rest)
      = splitFrom ((fieldTokens fields).reverse ++ read) rest := by
  match fields with
  | [] => rfl
  | (key, value) :: fields =>
      obtain ⟨first, others⟩ := numeric
      simp only [renderFields, String.toList_append, List.append_assoc, String.reduceToList,
        List.cons_append, List.nil_append]
      rw [splitFrom_mark read ',' rfl rfl, splitFrom_newline, splitFrom_quote,
        splitFrom_mark _ ':' rfl rfl, splitFrom_blank _ rfl,
        splitFrom_render value first _ _ (apart.renderFields _ fields),
        splitFrom_renderFields fields others _ _ apart]
      simp [fieldTokens]

end

end Token

-----------------------------------------------------------------------------------------
-- Reading the tokens
-----------------------------------------------------------------------------------------

namespace Position

theorem run_of_step {position next : Position} {token : Token}
    (taken : step position token = some next) (rest : List Token)
    : run position (token :: rest) = run next rest := by
  rw [run, taken]

/-- No value starts with a closing bracket, so the first item of an array is read like any value. -/
theorem run_afterBracket (value : Json) (stack : List Frame) (rest : List Token)
    : run (.afterBracket stack) (value.tokens ++ rest)
      = run (.beforeValue (.array [] :: stack)) (value.tokens ++ rest) := by
  fun_cases tokens value <;> rfl

mutual

/-- The tokens of a value complete it. -/
theorem run_tokens (value : Json) (stack : List Frame) (rest : List Token)
    : run (.beforeValue stack) (value.tokens ++ rest) = run (complete value stack) rest := by
  match value with
  | .null | .bool _ | .number _ | .string _ | .unpaired | .array [] | .object [] => rfl
  | .array (item :: items) =>
      simp only [tokens, List.cons_append, List.append_assoc, List.nil_append]
      rw [run_of_step rfl, run_afterBracket, run_tokens item, complete, run_itemTokens items]
      rfl
  | .object ((key, value) :: fields) =>
      simp only [tokens, List.cons_append, List.append_assoc, List.nil_append]
      rw [run_of_step rfl, run_of_step rfl, run_of_step rfl, run_tokens value, complete,
        run_fieldTokens fields]
      rfl

theorem run_itemTokens (items : List Json) (read : List Json) (stack : List Frame)
    (rest : List Token)
    : run (.afterValue (.array read) stack) (itemTokens items ++ .rightBracket :: rest)
      = run (complete (.array (read.reverse ++ items)) stack) rest := by
  match items with
  | [] =>
      rw [itemTokens, List.nil_append, List.append_nil]
      exact run_of_step rfl rest
  | item :: items =>
      simp only [itemTokens, List.cons_append, List.append_assoc]
      rw [run_of_step rfl, run_tokens item, complete, run_itemTokens items]
      simp

theorem run_fieldTokens (fields read : List (String × Json)) (key : Option String)
    (stack : List Frame) (rest : List Token)
    : run (.afterValue (.object (some read) key) stack) (fieldTokens fields ++ .rightBrace :: rest)
      = run (complete (.object (read.reverse ++ fields)) stack) rest := by
  match fields with
  | [] =>
      rw [fieldTokens, List.nil_append, List.append_nil]
      exact run_of_step rfl rest
  | (key, value) :: fields =>
      simp only [fieldTokens, List.cons_append, List.append_assoc]
      rw [run_of_step rfl, run_of_step rfl, run_of_step rfl, run_tokens value, complete,
        run_fieldTokens fields]
      simp

end

end Position

/-- Reading takes an indented text back to its value. -/
theorem ofText?_pretty {value : Json} (numeric : value.Numeric)
    : ofText? value.pretty = some value := by
  have split : Token.split? value.pretty.toList = some value.tokens := by
    have apart : Token.Apart [] := trivial
    have tokens := Token.splitFrom_render value numeric 0 [] apart
    rw [List.append_nil, List.append_nil] at tokens
    rw [Token.split?, pretty, tokens, Token.splitFrom, List.reverse_reverse]
  have read := Position.run_tokens value [] []
  rw [List.append_nil] at read
  rw [ofText?, split]
  exact read

end AgentLang.Json
