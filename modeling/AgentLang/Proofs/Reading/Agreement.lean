import AgentLang.Proofs.Contracts
import AgentLang.Proofs.Reading.Descent
import AgentLang.Proofs.Reading.Soundness

/-! The descent and the reader agree. The descent breaks no contract, and what it gives, the error
and the tokens it has left are those of the reader, which takes one token at a time.
-/

namespace AgentLang.Program.Descent

open Reader

-----------------------------------------------------------------------------------------
-- Following a reading
-----------------------------------------------------------------------------------------

/-- A part of the descent follows a reading: it breaks no contract, it stops only with the error
and the rest of the reading, and otherwise it gives a value and a rest of the tokens as stated.
-/
def Follows {α : Type} (part : Descent α) (tokens : List Token) (reading : Reading)
    (gives : α → List Token → Prop)
    : Prop :=
  match part tokens with
  | .ok (.ok value, rest) => gives value rest
  | .ok (.error cause, left) => reading = ⟨.error cause, left⟩
  | .error _ => False

namespace Follows

variable {α β : Type} {tokens : List Token} {reading : Reading} {state : State}

theorem bind {part : Descent α} {onward : α → Descent β} {gives : α → List Token → Prop}
    {gives' : β → List Token → Prop} (h : Follows part tokens reading gives)
    (h' : ∀ value rest, gives value rest → Follows (onward value) rest reading gives')
    : Follows (part >>= onward) tokens reading gives' := by
  have unfolded : (part >>= onward) tokens
      = match part tokens with
        | .ok (.ok value, rest) => onward value rest
        | .ok (.error cause, left) => .ok (.error cause, left)
        | .error violation => .error violation := rfl
  unfold Follows at h ⊢
  rw [unfolded]
  match found : part tokens with
  | .ok (.ok value, rest) =>
      rw [found] at h
      exact h' value rest h
  | .ok (.error cause, left) =>
      rw [found] at h
      exact h
  | .error violation =>
      rw [found] at h
      exact h

theorem mono {part : Descent α} {gives gives' : α → List Token → Prop}
    (h : Follows part tokens reading gives)
    (weaker : ∀ value rest, gives value rest → gives' value rest)
    : Follows part tokens reading gives' := by
  unfold Follows at h ⊢
  split
  · rename_i found
    rw [found] at h
    exact weaker _ _ h
  · rename_i found
    rwa [found] at h
  · rename_i found
    rwa [found] at h

theorem pure {value : α} {gives : α → List Token → Prop} (given : gives value tokens)
    : Follows (pure value) tokens reading gives := given

/-- Looking at the next token changes nothing. -/
theorem bind_peek {onward : Option Token → Descent α} {gives : α → List Token → Prop}
    (h : Follows (onward tokens.head?) tokens reading gives)
    : Follows (peek >>= onward) tokens reading gives := h

theorem make {result : Except Violation α} {value : α} {gives : α → List Token → Prop}
    (made : result = .ok value) (given : gives value tokens)
    : Follows (Descent.make result) tokens reading gives := by
  subst made
  exact given

/-- What a contract allows is made without a token. -/
theorem bind_make {result : Except Violation α} {value : α} {onward : α → Descent β}
    {gives : β → List Token → Prop} (made : result = .ok value)
    (h : Follows (onward value) tokens reading gives)
    : Follows (Descent.make result >>= onward) tokens reading gives := by
  subst made
  exact h

/-- The next token is taken when there is one. -/
theorem take {wanted : String} {token : Token} (first : tokens.head? = some token)
    : Follows (next wanted) tokens reading
        fun found rest => found = token ∧ tokens = token :: rest := by
  cases tokens with
  | nil => cases first
  | cons token rest =>
      cases first
      exact ⟨rfl, rfl⟩

/-- A token that was taken is refused with the error of the reader. -/
theorem refused {token : Token} {rest : List Token} {cause : ParseError}
    {gives : α → List Token → Prop} (standing : reading = run state (token :: rest))
    (stepped : step state token = .error cause)
    : Follows (refuse cause) rest reading gives := by
  simp only [Follows, refuse, standing, run, stepped]

/-- A word that is known to come next. -/
theorem present {word : String} (first : tokens.head? = some word)
    : Follows (Descent.keyword word) tokens reading fun _ rest => tokens = word :: rest := by
  refine (take first).bind ?_
  intro _ rest given
  obtain ⟨rfl, rfl⟩ := given
  rw [if_pos rfl]
  exact pure rfl

/-- A part that takes one token and decides: it gives a value where the reader may go on, and
refuses the token, or the end of the input, as the reader does.
-/
theorem token {wanted : String} {decides : Token → Descent α} {gives : α → List Token → Prop}
    (standing : reading = run state tokens)
    (ends : tokens = [] → finish state = endOfInput wanted)
    (steps
      : ∀ token rest,
          tokens = token :: rest
          → (∃ value, decides token = Pure.pure value ∧ gives value rest)
            ∨ ∃ cause,
                decides token = refuse cause ∧ step state token = .error cause)
    : Follows (next wanted >>= decides) tokens reading gives := by
  cases tokens with
  | nil =>
      rw [standing, run, ends rfl]
      rfl
  | cons token rest =>
      rcases steps token rest rfl with ⟨value, decided, given⟩ | ⟨cause, decided, stepped⟩
      · have found : (next wanted >>= decides) (token :: rest) = .ok (.ok value, rest) := by
          show decides token rest = _
          rw [decided]
          rfl
        simp only [Follows, found]
        exact given
      · have found : (next wanted >>= decides) (token :: rest) = .ok (.error cause, rest) := by
          show decides token rest = _
          rw [decided]
          rfl
        simp only [Follows, found, standing, run, stepped]

theorem keyword {word : String} (standing : reading = run state tokens)
    (ends : tokens = [] → finish state = endOfInput word)
    (refused
      : ∀ token,
          tokens.head? = some token
          → token ≠ word
          → step state token = .error (.grammar (.expected word token)))
    : Follows (Descent.keyword word) tokens reading fun _ rest => tokens = word :: rest := by
  apply token standing ends
  intro token rest same
  by_cases isWord : token = word
  · exact .inl ⟨(), if_pos isWord, same.trans (by rw [isWord])⟩
  · exact .inr ⟨_, if_neg isWord, refused token (by rw [same]; rfl) isWord⟩

/-- A word that the reader demands. -/
theorem demanded {word : String} {target : State} (standing : reading = run state tokens)
    (demands : ∀ token, step state token = demand word token target)
    (ends : finish state = endOfInput word)
    : Follows (Descent.keyword word) tokens reading
        fun _ rest => tokens = word :: rest ∧ reading = run target rest := by
  refine (keyword standing (fun _ => ends) ?_).mono ?_
  · intro token _ other
    rw [demands, demand, if_neg other]
  · intro _ rest same
    refine ⟨same, ?_⟩
    rw [standing, same]
    exact run_cons (by rw [demands, demand, if_pos rfl]) rest

theorem identifier (standing : reading = run state tokens)
    (ends : tokens = [] → finish state = endOfInput "an identifier")
    (refused
      : ∀ token,
          tokens.head? = some token
          → isIdentifier token = false
          → step state token = .error (.grammar (.invalidIdentifier token)))
    : Follows Descent.identifier tokens reading
        fun name rest => tokens = name :: rest ∧ isIdentifier name = true := by
  apply token standing ends
  intro token rest same
  by_cases named : isIdentifier token = true
  · exact .inl ⟨token, if_pos named, same, named⟩
  · exact .inr ⟨_, if_neg named, refused token (by rw [same]; rfl) (by simpa using named)⟩

theorem condition {construct : Construct} {place : Place}
    (standing : reading = run (.condition construct place) tokens)
    : Follows Descent.condition tokens reading
        fun c rest =>
          tokens = c.keyword :: rest ∧ reading = run (.bodyWord construct c place) rest := by
  apply token standing fun _ => rfl
  intro token rest same
  cases found : Condition.ofKeyword? token with
  | some c =>
      refine .inl ⟨c, rfl, ?_, ?_⟩
      · rw [same, keyword_of_ofKeyword? found]
      · rw [standing, same]
        exact run_cons (by simp only [step, found]) rest
  | none => exact .inr ⟨_, rfl, by simp only [step, found]⟩

theorem closingName {heading : Heading} {owner : Owner} {body : Statement}
    (standing : reading = run (.closingName heading owner body) tokens)
    : Follows (Descent.closingName owner.word (owner.name heading)) tokens reading
        fun _ rest => tokens = owner.name heading :: rest := by
  apply token standing fun _ => rfl
  intro token rest same
  by_cases isName : token = owner.name heading
  · exact .inl ⟨(), if_pos isName, by rw [same, isName]⟩
  · exact .inr ⟨_, if_neg isName, by rw [step, if_neg isName]⟩

end Follows

-----------------------------------------------------------------------------------------
-- Statements and blocks
-----------------------------------------------------------------------------------------

section

variable {tokens : List Token} {reading : Reading} {place outer : Place} {construct : Construct}

/-- No statement begins with the next token. -/
def Stops (tokens : List Token) : Prop := tokens.head?.any begins = false

/-- A token that begins no statement is looked at as the one behind a block. -/
theorem step_block_of_not_begins {token : Token} (stops : begins token = false)
    : step (.block place) token = leave place token := by
  simp only [begins, Bool.or_eq_false_iff, beq_eq_false_iff_ne] at stops
  obtain ⟨⟨notChoice, notLoop⟩, notName⟩ := stops
  simp only [step, if_neg notChoice, if_neg notLoop, notName]
  rfl

theorem leave_refused {token : Token} (notEnd : token ≠ "END")
    (notElse : ∀ c before frames, place.frames = .thenPart c before :: frames → token ≠ "ELSE")
    : leave place token = .error (.grammar (.expected "END" token)) := by
  unfold leave
  split
  · exact if_neg notEnd
  · rename_i c before frames opened
    rw [if_neg (notElse c before frames opened)]
    exact if_neg notEnd
  · exact if_neg notEnd
  · exact if_neg notEnd

/-- The END behind a block. ELSE may stand in its place only behind the first body of a choice. -/
theorem follows_end (standing : reading = run (.block place) tokens) (stops : Stops tokens)
    (notElse
      : ∀ c before frames,
          place.frames = .thenPart c before :: frames → tokens.head? ≠ some "ELSE")
    : Follows (keyword "END") tokens reading fun _ rest => tokens = "END" :: rest := by
  apply Follows.keyword standing fun _ => rfl
  intro token first notEnd
  have notBegins : begins token = false := by simpa [Stops, first] using stops
  rw [step_block_of_not_begins notBegins]
  apply leave_refused notEnd
  intro c before frames opened isElse
  exact notElse c before frames opened (by rw [first, isElse])

/-- The words behind a body lead back into the enclosing block. -/
theorem follows_closing (standing : reading = run (.block place) tokens) (stops : Stops tokens)
    (notElse
      : ∀ c before frames,
          place.frames = .thenPart c before :: frames → tokens.head? ≠ some "ELSE")
    (left : leave place "END" = .ok (.endWord construct outer))
    : Follows (closing construct) tokens reading
        fun _ rest => reading = run (.block outer) rest ∧ rest.length ≤ tokens.length := by
  refine (follows_end standing stops notElse).bind ?_
  intro _ rest same
  subst same
  have ended : reading = run (.endWord construct outer) rest := by
    rw [standing]
    exact run_cons (by rw [step_block_end, left]) rest
  refine (Follows.demanded ended (fun _ => rfl) rfl).mono ?_
  intro _ rest given
  obtain ⟨rfl, closed⟩ := given
  exact ⟨closed, by simp only [List.length_cons]; omega⟩

/-- The words in front of a body lead into a block of its own. -/
theorem follows_opening (standing : reading = run (.block place) tokens)
    (first : tokens.head? = some construct.word)
    : Follows (opening construct) tokens reading
        fun c rest =>
          reading = run (.block (place.enter construct c)) rest
          ∧ rest.length < tokens.length := by
  refine (Follows.present first).bind ?_
  intro _ rest same
  subst same
  have opened : reading = run (.condition construct place) rest := by
    rw [standing]
    exact run_cons (by cases construct <;> rfl) rest
  refine (Follows.condition opened).bind ?_
  intro c rest given
  obtain ⟨rfl, tested⟩ := given
  refine (Follows.demanded tested (fun _ => rfl) rfl).bind ?_
  intro _ rest given
  obtain ⟨rfl, entered⟩ := given
  exact Follows.pure ⟨entered, by simp only [List.length_cons]; omega⟩

/-- What a block gives: the statements that were read into it, and a rest with which none begins. -/
structure BlockRead (reading : Reading) (place : Place) (before : List Statement)
    (tokens : List Token) (s : Statement) (rest : List Token)
    : Prop where
  statements
    : ∃ children,
        s = .block (before ++ children)
        ∧ reading = run (.block (place.append children)) rest
  stops : Stops rest
  shorter : rest.length ≤ tokens.length

/-- A part that reads blocks of at most as many tokens as the bound says. -/
def ReadsBlocks (part : Descent Statement) (bound : Nat) : Prop :=
  ∀ ⦃tokens : List Token⦄ ⦃reading : Reading⦄ ⦃place : Place⦄,
    tokens.length ≤ bound
    → reading = run (.block place) tokens
    → Follows part tokens reading (BlockRead reading place [] tokens)

/-- What a statement gives: it is no block, and it has joined the innermost block. -/
structure StatementRead (reading : Reading) (place : Place) (tokens : List Token) (s : Statement)
    (rest : List Token)
    : Prop where
  noBlock : s.kind ≠ .block
  joined : reading = run (.block (place.push s)) rest
  shorter : rest.length < tokens.length

theorem follows_loop {block : Descent Statement} {bound : Nat} (blocks : ReadsBlocks block bound)
    (enough : tokens.length ≤ bound + 1) (standing : reading = run (.block place) tokens)
    (first : tokens.head? = some Construct.loop.word)
    : Follows (loop block) tokens reading (StatementRead reading place tokens) := by
  refine (follows_opening standing first).bind ?_
  intro c rest given
  obtain ⟨entered, shorter⟩ := given
  refine (blocks (by omega) entered).bind ?_
  intro body rest' given
  obtain ⟨⟨children, rfl, read⟩, stops, shorter'⟩ := given
  refine (follows_closing read stops nofun (leave_loop place c children)).bind ?_
  intro _ rest'' given
  obtain ⟨closed, shorter''⟩ := given
  exact Follows.make (Statement.assembleWhile_eq_ok_iff.mpr ⟨rfl, rfl⟩)
    ⟨nofun, closed, by omega⟩

theorem follows_choice {block : Descent Statement} {bound : Nat} (blocks : ReadsBlocks block bound)
    (enough : tokens.length ≤ bound + 1) (standing : reading = run (.block place) tokens)
    (first : tokens.head? = some Construct.choice.word)
    : Follows (choice block) tokens reading (StatementRead reading place tokens) := by
  refine (follows_opening standing first).bind ?_
  intro c rest given
  obtain ⟨entered, shorter⟩ := given
  refine (blocks (by omega) entered).bind ?_
  intro thenBody rest' given
  obtain ⟨⟨children, rfl, read⟩, stops, shorter'⟩ := given
  apply Follows.bind_peek
  split
  · rename_i isElse
    refine (Follows.take isElse).bind ?_
    intro _ more given
    obtain ⟨_, rfl⟩ := given
    have onward : reading = run (.block (place.enterElse c children)) more :=
      read.trans (run_else place c children more)
    simp only [List.length_cons] at shorter'
    refine (blocks (by omega) onward).bind ?_
    intro elseBody more' given
    obtain ⟨⟨others, rfl, readElse⟩, stopsElse, shorterElse⟩ := given
    refine Follows.bind_make (Statement.assembleIfElse_eq_ok_iff.mpr ⟨rfl, rfl, rfl⟩) ?_
    refine (follows_closing readElse stopsElse nofun
      (leave_else place c children others)).bind ?_
    intro _ rest'' given
    obtain ⟨closed, shorter''⟩ := given
    exact Follows.pure ⟨nofun, closed, by omega⟩
  · rename_i notElse
    refine Follows.bind_make (Statement.assembleIf_eq_ok_iff.mpr ⟨rfl, rfl⟩) ?_
    refine (follows_closing read stops (fun _ _ _ _ => notElse)
      (leave_then place c children)).bind ?_
    intro _ rest'' given
    obtain ⟨closed, shorter''⟩ := given
    exact Follows.pure ⟨nofun, closed, by omega⟩

theorem follows_statement {block : Descent Statement} {bound : Nat}
    (blocks : ReadsBlocks block bound) (enough : tokens.length ≤ bound + 1)
    (standing : reading = run (.block place) tokens) (begun : tokens.head?.any begins = true)
    : Follows (statement block) tokens reading (StatementRead reading place tokens) := by
  apply Follows.bind_peek
  split
  · rename_i isChoice
    exact follows_choice blocks enough standing isChoice
  · rename_i notChoice
    split
    · rename_i isLoop
      exact follows_loop blocks enough standing isLoop
    · rename_i notLoop
      have called : Follows identifier tokens reading
          fun name rest => tokens = name :: rest ∧ isIdentifier name = true := by
        apply Follows.identifier standing
        · intro none
          subst none
          cases begun
        · intro token first notName
          simp_all [begins]
      refine called.bind ?_
      intro name rest given
      obtain ⟨rfl, named⟩ := given
      have notEmpty : name ≠ "" := by
        intro empty
        subst empty
        cases named
      exact Follows.make (Statement.assembleCall_eq_ok_iff.mpr ⟨notEmpty, rfl⟩)
        ⟨nofun, standing.trans (run_call named place rest), Nat.lt_succ_self _⟩

/-- Blocks are read, by induction on the bound: a statement takes a token at least, so what is left
behind it, and inside it, is within a smaller bound.
-/
theorem follows_block (bound : Nat) (before : List Statement) (enough : tokens.length ≤ bound)
    (standing : reading = run (.block place) tokens)
    : Follows (block bound (.block before)) tokens reading
        (BlockRead reading place before tokens) := by
  induction bound generalizing tokens reading place before with
  | zero =>
      obtain rfl := List.length_eq_zero_iff.mp (Nat.le_zero.mp enough)
      exact Follows.pure ⟨⟨[], by simp, standing⟩, rfl, Nat.le_refl _⟩
  | succ bound ih =>
      apply Follows.bind_peek
      split
      · rename_i begun
        have blocks : ReadsBlocks (block bound .empty) bound :=
          fun _ _ _ enough standing => ih [] enough standing
        refine (follows_statement blocks enough standing begun).bind ?_
        intro s rest given
        obtain ⟨noBlock, joined, shorter⟩ := given
        refine Follows.bind_make (show _ = Except.ok before.length from rfl) ?_
        refine Follows.bind_make (Statement.insertAt_length noBlock) ?_
        refine (ih (before ++ [s]) (by omega) joined).mono ?_
        intro _ rest' given
        obtain ⟨⟨children, rfl, read⟩, stops, shorter'⟩ := given
        refine ⟨⟨s :: children, by simp, ?_⟩, stops, by omega⟩
        simpa [Place.append, Place.push] using read
      · rename_i stops
        exact Follows.pure ⟨⟨[], by simp, standing⟩, by simpa [Stops] using stops, Nat.le_refl _⟩

end

-----------------------------------------------------------------------------------------
-- Declarations and programs
-----------------------------------------------------------------------------------------

section

variable {tokens : List Token} {reading : Reading}

/-- A body is read up to the name of its owner, which the reader has still to look at. -/
theorem follows_ownedBody {heading : Heading} {owner : Owner}
    (standing : reading = run (.block ⟨heading, owner, [], []⟩) tokens)
    : Follows (ownedBody owner.word (owner.name heading)) tokens reading
        fun body rest =>
          ∃ children,
            body = .block children
            ∧ reading
              = run (.closingName heading owner (.block children)) (owner.name heading :: rest)
            ∧ rest.length < tokens.length := by
  have first : Follows body tokens reading (BlockRead reading ⟨heading, owner, [], []⟩ [] tokens) :=
    follows_block tokens.length [] (Nat.le_refl _) standing
  refine first.bind ?_
  intro body rest given
  obtain ⟨⟨children, rfl, read⟩, stops, shorter⟩ := given
  refine (follows_end read stops nofun).bind ?_
  intro _ rest same
  subst same
  have ended : reading = run (.closingName heading owner (.block children)) rest := by
    rw [read]
    apply run_cons
    rw [step_block_end]
    simp [leave, demand, Place.append, Place.body]
  refine (Follows.closingName ended).bind ?_
  intro _ rest same
  subst same
  simp only [List.length_cons] at shorter
  exact Follows.pure ⟨children, rfl, ended, by omega⟩

/-- The words of primitives are identifiers. -/
theorem isIdentifier_of_primitive {word : String} {p : Primitive}
    (found : Primitive.ofWord? word = some p)
    : isIdentifier word = true := by
  have same := List.find?_some found
  obtain rfl := beq_iff_eq.mp same
  cases p <;> rfl

/-- A declaration is read up to its closing name, at which the reader also asks whether the name is
taken.
-/
theorem follows_instruction {heading : Heading}
    (standing : reading = run (.declarations heading) tokens)
    (first : tokens.head? = some "INSTRUCTION")
    : Follows instruction tokens reading
        fun entry rest =>
          reading = run (.closingName heading (.instruction entry.1) entry.2) (entry.1 :: rest)
          ∧ rest.length < tokens.length := by
  refine (Follows.present first).bind ?_
  intro _ rest same
  subst same
  have declared : reading = run (.instructionName heading) rest :=
    standing.trans (run_cons rfl rest)
  refine (Follows.identifier declared (fun _ => rfl) ?_).bind ?_
  · intro token _ notName
    have free : Primitive.ofWord? token = none := by
      cases found : Primitive.ofWord? token with
      | none => rfl
      | some p =>
          rw [isIdentifier_of_primitive found] at notName
          cases notName
    simp only [step, free, Reader.identifier, notName]
    rfl
  intro name rest given
  obtain ⟨rfl, named⟩ := given
  split
  · rename_i taken
    exact Follows.refused declared (by simp only [step, if_pos taken])
  · rename_i free
    have known : reading = run (.instructionIs heading name) rest := by
      rw [declared]
      apply run_cons
      simp only [step, if_neg free, Reader.identifier, if_pos named]
    refine (Follows.demanded known (fun _ => rfl) rfl).bind ?_
    intro _ rest given
    obtain ⟨rfl, entered⟩ := given
    refine (follows_ownedBody entered).bind ?_
    intro _ rest' given
    obtain ⟨children, rfl, closing, shorter⟩ := given
    refine Follows.pure ⟨closing, ?_⟩
    simp only [List.length_cons]
    omega

/-- Declarations are read, by induction on the bound. -/
theorem follows_declarations (bound : Nat) {heading : Heading} (enough : tokens.length ≤ bound)
    (standing : reading = run (.declarations heading) tokens)
    : Follows (declarations bound heading.context) tokens reading
        fun context rest =>
          reading = run (.declarations { heading with context }) rest
          ∧ rest.head? ≠ some "INSTRUCTION" := by
  induction bound generalizing tokens reading heading with
  | zero =>
      obtain rfl := List.length_eq_zero_iff.mp (Nat.le_zero.mp enough)
      exact Follows.pure ⟨standing, nofun⟩
  | succ bound ih =>
      apply Follows.bind_peek
      split
      · rename_i another
        refine (follows_instruction standing another).bind ?_
        intro entry rest given
        obtain ⟨closing, shorter⟩ := given
        split
        · rename_i taken
          apply Follows.refused closing
          simp [step, Owner.name, complete, taken]
        · rename_i fresh
          have declared : reading
              = run (.declarations
                  { heading with context := heading.context.insert entry.1 entry.2 }) rest := by
            rw [closing]
            apply run_cons
            simp [step, Owner.name, complete, fresh]
          exact ih (by omega) declared
      · rename_i last
        exact Follows.pure ⟨standing, last⟩

/-- The descent through a whole program. -/
theorem follows_program (tokens : List Token)
    : Follows program tokens (read tokens)
        fun program rest => read tokens = ⟨.ok program, rest⟩ := by
  have started : read tokens = run .start tokens := rfl
  generalize read tokens = reading at started ⊢
  refine (Follows.demanded started (fun _ => rfl) rfl).bind ?_
  intro _ rest given
  obtain ⟨rfl, named⟩ := given
  refine (Follows.identifier named (fun _ => rfl) ?_).bind ?_
  · intro token _ notName
    simp only [step, Reader.identifier, notName]
    rfl
  intro name rest given
  obtain ⟨rfl, isName⟩ := given
  have known : reading = run (.programIs name) rest := by
    rw [named]
    apply run_cons
    simp only [step, Reader.identifier, if_pos isName]
  refine (Follows.demanded known (fun _ => rfl) rfl).bind ?_
  intro _ rest given
  obtain ⟨rfl, headed⟩ := given
  have all : Follows context rest reading fun context rest =>
      reading = run (.declarations ⟨name, context⟩) rest
      ∧ rest.head? ≠ some "INSTRUCTION" :=
    follows_declarations rest.length (Nat.le_refl _) headed
  refine all.bind ?_
  intro context rest given
  obtain ⟨declared, last⟩ := given
  refine (Follows.keyword declared (fun _ => rfl) ?_).bind ?_
  · intro token first other
    have notInstruction : token ≠ "INSTRUCTION" := by
      intro same
      subst same
      exact last first
    simp only [step, if_neg notInstruction, demand, if_neg other]
  intro _ rest same
  subst same
  have begun : reading = run (.block ⟨⟨name, context⟩, .main, [], []⟩) rest :=
    declared.trans (run_cons rfl rest)
  refine (follows_ownedBody begun).bind ?_
  intro _ rest given
  obtain ⟨children, rfl, closing, _⟩ := given
  have finished : reading = run (.finished ⟨name, context, .block children⟩) rest := by
    rw [closing]
    apply run_cons
    simp [step, Owner.name, complete]
  apply Follows.bind_peek
  cases rest with
  | nil => exact Follows.make rfl finished
  | cons extra rest => exact finished

end

/-- The descent breaks no contract, and reads what the reader reads. -/
theorem program_eq_read (tokens : List Token)
    : program tokens = .ok ((read tokens).result, (read tokens).left) := by
  have follows := follows_program tokens
  unfold Follows at follows
  split at follows
  · rename_i found
    rw [found, follows]
  · rename_i found
    rw [found, follows]
  · exact follows.elim

end AgentLang.Program.Descent
