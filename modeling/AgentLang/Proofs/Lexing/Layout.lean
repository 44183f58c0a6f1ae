import AgentLang.Proofs.Lexing.Words

/-! Layouts of tokens. A text lays out tokens when it consists of them, in order, and of gaps around
them; a gap is made of blanks and comments. Cutting a text into tokens undoes its layout, and
finds nothing that is not laid out.
-/

namespace AgentLang.Token

-----------------------------------------------------------------------------------------
-- Tokens, gaps and layouts
-----------------------------------------------------------------------------------------

/-- A visible character that belongs to no word and starts no comment. -/
structure IsMark (c : Char) : Prop where
  visible : Text.isBlank c = false
  noComment : c ≠ '#'
  noWord : isWordChar c = false

/-- What can be a token: a word, or a mark alone. -/
def Lexical (token : Token) : Prop :=
  isWord token = true ∨ ∃ c, IsMark c ∧ token = String.singleton c

/-- Blanks and comments. A comment runs from a number sign through the next line feed. -/
inductive Gap : List Char → Prop
  | nil : Gap []
  | blank {c rest} (isBlank : Text.isBlank c = true) (later : Gap rest) : Gap (c :: rest)
  | comment {inside rest} (oneLine : '\n' ∉ inside) (later : Gap rest)
    : Gap ('#' :: (inside ++ '\n' :: rest))

/-- A gap at the end of a text, where the last comment may lack its line feed. -/
inductive LastGap : List Char → Prop
  | closed {gap} (isGap : Gap gap) : LastGap gap
  | unclosed {gap inside} (isGap : Gap gap) (oneLine : '\n' ∉ inside)
    : LastGap (gap ++ '#' :: inside)

/-- Tokens with a gap in front of each and one behind the last. Only words have to be parted: the
flag says that a word stands right in front of the text.
-/
inductive Layout : Bool → List Token → List Char → Prop
  | ending {afterWord gap} (last : LastGap gap) : Layout afterWord [] gap
  | token {afterWord gap token tokens rest} (isGap : Gap gap)
    (parted : afterWord = true → isWord token = true → gap ≠ [])
    (later : Layout (isWord token) tokens rest)
    : Layout afterWord (token :: tokens) (gap ++ token.toList ++ rest)

theorem Gap.append {left right : List Char} (first : Gap left) (second : Gap right)
    : Gap (left ++ right) := by
  induction first with
  | nil => exact second
  | blank isBlank _ ih => exact .blank isBlank ih
  | comment oneLine _ ih =>
      rw [List.cons_append, List.append_assoc, List.cons_append]
      exact .comment oneLine ih

theorem Gap.append_last {left right : List Char} (first : Gap left) (second : LastGap right)
    : LastGap (left ++ right) := by
  cases second with
  | closed isGap => exact .closed (first.append isGap)
  | unclosed isGap oneLine =>
      rw [← List.append_assoc]
      exact .unclosed (first.append isGap) oneLine

/-- How a text begins: it is a gap to its end, or a visible character stands behind a gap. -/
inductive Beginning : List Char → Prop
  | blank {gap} (last : LastGap gap) : Beginning gap
  | shown {gap c rest} (isGap : Gap gap) (visible : Text.isBlank c = false) (noComment : c ≠ '#')
    : Beginning (gap ++ c :: rest)

theorem Beginning.behind {gap more : List Char} (beginning : Beginning more) (isGap : Gap gap)
    : Beginning (gap ++ more) := by
  cases beginning with
  | blank last => exact .blank (isGap.append_last last)
  | shown isGap' visible noComment =>
      rw [← List.append_assoc]
      exact .shown (isGap.append isGap') visible noComment

/-- Every text begins in one of the two ways, by the length of the text: a comment is passed in
one go.
-/
theorem beginning (text : List Char) : Beginning text := by
  cases text with
  | nil => exact .blank (.closed .nil)
  | cons c rest =>
      cases visible : Text.isBlank c with
      | true => exact (beginning rest).behind (.blank visible .nil)
      | false =>
          by_cases sign : c = '#'
          · subst sign
            by_cases ended : '\n' ∈ rest
            · obtain ⟨inside, more, rfl, oneLine⟩ := List.eq_append_cons_of_mem ended
              have shorter : more.length < ('#' :: (inside ++ '\n' :: more)).length := by
                simp only [List.length_cons, List.length_append]
                omega
              have passed := (beginning more).behind (.comment oneLine .nil)
              simpa using passed
            · exact .blank (.unclosed .nil ended)
          · exact @Beginning.shown [] c rest .nil visible sign
termination_by text.length

-----------------------------------------------------------------------------------------
-- Tokens behind gaps
-----------------------------------------------------------------------------------------

/-- What is inside a comment is dropped. -/
theorem skipGap_inside {inside : List Char} (oneLine : '\n' ∉ inside) (rest : List Char)
    : skipGap true (inside ++ rest) = skipGap true rest := by
  induction inside with
  | nil => rfl
  | cons c inside ih =>
      rw [List.mem_cons, not_or] at oneLine
      have goesOn : (c != '\n') = true := bne_iff_ne.mpr (Ne.symm oneLine.1)
      simp [skipGap, goesOn, ih oneLine.2]

theorem isBlank_numberSign : Text.isBlank '#' = false := rfl

theorem skipGap_append {gap : List Char} (isGap : Gap gap) (rest : List Char)
    : skipGap false (gap ++ rest) = skipGap false rest := by
  induction isGap with
  | nil => rfl
  | blank isBlank _ ih => simp [skipGap, isBlank, ih]
  | comment oneLine _ ih => simp [skipGap, isBlank_numberSign, skipGap_inside oneLine, ih]

theorem skipGap_last {gap : List Char} (last : LastGap gap) : skipGap false gap = [] := by
  cases last with
  | closed isGap =>
      have skipped := skipGap_append isGap []
      rwa [List.append_nil] at skipped
  | unclosed isGap oneLine =>
      have dropped := skipGap_inside oneLine []
      rw [List.append_nil] at dropped
      rw [skipGap_append isGap]
      simp [skipGap, isBlank_numberSign, dropped]

/-- A gap at the beginning changes no token. -/
theorem split_gap {gap : List Char} (isGap : Gap gap) (rest : List Char)
    : split (gap ++ rest) = split rest :=
  split_eq_of_skipGap_eq (skipGap_append isGap rest)

theorem split_lastGap {gap : List Char} (last : LastGap gap) : split gap = [] := by
  apply split_of_next?_eq_none
  simp only [next?, skipGap_last last]

-----------------------------------------------------------------------------------------
-- The first token
-----------------------------------------------------------------------------------------

/-- No word goes on at the beginning of the text. -/
def EndsWord (text : List Char) : Prop :=
  text.head?.all (fun c => !isWordChar c) = true

theorem isWord_singleton (c : Char) : isWord (String.singleton c) = isWordChar c := by
  simp [isWord]

/-- A token is cut off a text, a word only where it ends. -/
theorem split_token {token : Token} (lexical : Lexical token) {rest : List Char}
    (whole : isWord token = true → EndsWord rest)
    : split (token.toList ++ rest) = token :: split rest := by
  rcases lexical with word | ⟨c, mark, rfl⟩
  · obtain ⟨nonempty, chars⟩ := isWord_iff.mp word
    rw [split_word nonempty chars (whole word), String.ofList_toList]
  · apply split_of_next?_eq_some
    simp [next?, skipGap, mark.visible, mark.noComment, mark.noWord]

/-- A visible character begins a token, and a word character begins a whole word. -/
theorem exists_token {c : Char} (visible : Text.isBlank c = false) (noComment : c ≠ '#')
    (rest : List Char)
    : ∃ token behind,
        c :: rest = token.toList ++ behind
        ∧ Lexical token
        ∧ (isWord token = true → isWordChar c = true ∧ EndsWord behind) := by
  cases first : isWordChar c with
  | true =>
      refine ⟨String.ofList (c :: rest.takeWhile isWordChar), rest.dropWhile isWordChar, ?_,
        .inl ?_, fun _ => ⟨rfl, ?_⟩⟩
      · simp [List.takeWhile_append_dropWhile]
      · simp [isWord, first]
      · have stopped := List.head?_dropWhile_not isWordChar rest
        unfold EndsWord
        cases found : (rest.dropWhile isWordChar).head? with
        | none => rfl
        | some next =>
            rw [found] at stopped
            simp [stopped]
  | false =>
      refine ⟨String.singleton c, rest, by simp, .inr ⟨c, ⟨visible, noComment, first⟩, rfl⟩, ?_⟩
      intro word
      rw [isWord_singleton, first] at word
      cases word

/-- A token has characters, and begins with a word character only if it is a word. -/
theorem Lexical.exists_cons {token : Token} (lexical : Lexical token)
    : ∃ c rest, token.toList = c :: rest ∧ isWordChar c = isWord token := by
  rcases lexical with word | ⟨c, mark, rfl⟩
  · obtain ⟨nonempty, wordChars⟩ := isWord_iff.mp word
    obtain ⟨c, rest, chars⟩ := List.exists_cons_of_ne_nil nonempty
    rw [word]
    exact ⟨c, rest, chars, wordChars c (chars ▸ List.mem_cons_self)⟩
  · exact ⟨c, [], by simp, (isWord_singleton c).symm⟩

-----------------------------------------------------------------------------------------
-- Layouts and tokens
-----------------------------------------------------------------------------------------

/-- A text lays out its tokens, by the length of the text. -/
theorem layout_split (afterWord : Bool) (text : List Char)
    (ended : afterWord = true → EndsWord text)
    : (∀ token ∈ split text, Lexical token) ∧ Layout afterWord (split text) text := by
  cases beginning text with
  | blank last =>
      rw [split_lastGap last]
      exact ⟨nofun, .ending last⟩
  | @shown gap c rest isGap visible noComment =>
      obtain ⟨token, behind, cut, lexical, whole⟩ := exists_token visible noComment rest
      have shorter : behind.length < (gap ++ c :: rest).length := by
        obtain ⟨first, others, chars, _⟩ := lexical.exists_cons
        simp only [cut, chars, List.length_append, List.length_cons]
        omega
      obtain ⟨lexicals, later⟩ := layout_split (isWord token) behind fun word => (whole word).2
      -- Behind a word, a word character can only follow a gap.
      have parted : afterWord = true → isWord token = true → gap ≠ [] := by
        rintro atWord word rfl
        have stopped := ended atWord
        simp [EndsWord, (whole word).1] at stopped
      rw [split_gap isGap, cut, split_token lexical fun word => (whole word).2,
        ← List.append_assoc]
      exact ⟨List.forall_mem_cons.mpr ⟨lexical, lexicals⟩, .token isGap parted later⟩
termination_by text.length

/-- Gaps end words; where there is none, what follows has to. -/
theorem Gap.endsWord {gap rest : List Char} (isGap : Gap gap) (ended : gap = [] → EndsWord rest)
    : EndsWord (gap ++ rest) := by
  cases isGap with
  | nil => exact ended rfl
  | @blank c _ isBlank _ =>
      cases word : isWordChar c with
      | true => cases (isBlank_of_isWordChar word).symm.trans isBlank
      | false => simp [EndsWord, word]
  | comment _ _ => rfl

theorem LastGap.endsWord {gap : List Char} (last : LastGap gap) : EndsWord gap := by
  cases last with
  | closed isGap =>
      rw [← List.append_nil gap]
      exact isGap.endsWord fun _ => rfl
  | unclosed isGap _ => exact isGap.endsWord fun _ => rfl

/-- Behind a word, a layout does not begin with a word character. -/
theorem Layout.endsWord {tokens : List Token} {text : List Char} (layout : Layout true tokens text)
    (lexical : ∀ token ∈ tokens, Lexical token)
    : EndsWord text := by
  cases layout with
  | ending last => exact last.endsWord
  | @token _ gap token _ _ isGap parted _ =>
      rw [List.append_assoc]
      apply isGap.endsWord
      intro empty
      obtain ⟨c, others, chars, sameKind⟩ := (lexical token List.mem_cons_self).exists_cons
      have noWord : isWordChar c = false := by
        rw [sameKind]
        exact Bool.eq_false_iff.mpr fun word => parted rfl word empty
      simp [EndsWord, chars, noWord]

/-- Cutting a layout gives the tokens that were laid out, by induction on the layout. -/
theorem Layout.split_eq {afterWord : Bool} {tokens : List Token} {text : List Char}
    (layout : Layout afterWord tokens text) (lexical : ∀ token ∈ tokens, Lexical token)
    : split text = tokens := by
  induction layout with
  | ending last => exact split_lastGap last
  | @token _ gap token tokens rest isGap _ later ih =>
      obtain ⟨first, others⟩ := List.forall_mem_cons.mp lexical
      have whole : isWord token = true → EndsWord rest := by
        intro word
        rw [word] at later
        exact later.endsWord others
      rw [List.append_assoc, split_gap isGap, split_token first whole, ih others]

/-- A text has the given tokens exactly when they are lexical and the text lays them out. -/
theorem tokens_are_layout (source : String) (tokens : List Token)
    : ofSource source = tokens
      ↔ (∀ token ∈ tokens, Lexical token) ∧ Layout false tokens source.toList := by
  constructor
  · rintro rfl
    exact layout_split false source.toList nofun
  · intro laidOut
    exact laidOut.2.split_eq laidOut.1

/-- Comments right behind a word and at the end, where no line feed follows. -/
theorem tokens_are_layout_commented
    : ofSource "go#on\nleft;#end" = ["go", "left", ";"]
      ∧ Layout false ["go", "left", ";"] "go#on\nleft;#end".toList := by
  have mark : Lexical ";" := .inr ⟨';', ⟨rfl, by decide, rfl⟩, rfl⟩
  have lexical : ∀ token ∈ ["go", "left", ";"], Lexical token := by
    simp only [List.forall_mem_cons]
    exact ⟨.inl rfl, .inl rfl, mark, nofun⟩
  have comment : Gap ['#', 'o', 'n', '\n'] := @Gap.comment ['o', 'n'] [] (by decide) .nil
  have ending : LastGap ['#', 'e', 'n', 'd'] := @LastGap.unclosed [] _ .nil (by decide)
  have layout : Layout false ["go", "left", ";"] "go#on\nleft;#end".toList :=
    .token .nil (by decide) (.token comment (by decide) (.token .nil (by decide) (.ending ending)))
  exact ⟨(tokens_are_layout _ _).mpr ⟨lexical, layout⟩, layout⟩

end AgentLang.Token
