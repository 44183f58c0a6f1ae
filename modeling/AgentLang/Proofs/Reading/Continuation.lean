import AgentLang.Proofs.Reading.Completeness

/-! Where readings stop. The reader refuses the first token with which no program goes on: the
tokens in front of it can be completed from any state, and none behind it is looked at.
-/

namespace AgentLang

/-- The token that is wrong; the end of the input is none. -/
def SyntaxError.token? : SyntaxError → Option Token
  | unexpectedEnd _ => none
  | expected _ found => some found
  | invalidIdentifier found => some found
  | invalidCondition found => some found
  | mismatchedName _ _ found => some found
  | primitiveRedefinition name => some name
  | trailingInput found => some found

/-- The token that an error names. -/
def ParseError.token? : ParseError → Option Token
  | grammar cause => cause.token?
  | contract (.duplicateInstruction name) => some name

namespace Program

namespace Reader

-----------------------------------------------------------------------------------------
-- How a reading ends
-----------------------------------------------------------------------------------------

/-- The tokens lead from one state to another, none of them being refused. -/
inductive Passes : State → List Token → State → Prop
  | stay {state} : Passes state [] state
  | onward {state middle last token tokens} (stepped : step state token = .ok middle)
    (later : Passes middle tokens last)
    : Passes state (token :: tokens) last

/-- Tokens that pass are read, whatever follows them. -/
theorem Passes.run {state last : State} {tokens : List Token} (passes : Passes state tokens last)
    (rest : List Token)
    : Reader.run state (tokens ++ rest) = Reader.run last rest := by
  induction passes with
  | stay => rfl
  | onward stepped _ ih =>
      rw [List.cons_append, run_cons stepped]
      exact ih

/-- A reading ends behind its last token, or at the first one that is refused. -/
inductive Ends (state : State) (tokens : List Token) : Prop
  | atEnd {last} (passed : Passes state tokens last)
    (ended : run state tokens = ⟨finish last, []⟩)
  | atToken {before token left last cause} (cut : tokens = before ++ token :: left)
    (passed : Passes state before last) (refused : step last token = .error cause)
    (ended : run state tokens = ⟨.error cause, left⟩)

/-- Every reading ends in one of the two ways, by induction on the tokens. -/
theorem run_ends (state : State) (tokens : List Token) : Ends state tokens := by
  induction tokens generalizing state with
  | nil => exact .atEnd .stay rfl
  | cons token rest ih =>
      cases stepped : step state token with
      | error cause =>
          have ended : run state (token :: rest) = ⟨.error cause, rest⟩ := by
            simp only [run, stepped]
          exact .atToken (List.nil_append _).symm .stay stepped ended
      | ok next =>
          have onward := run_cons stepped rest
          cases ih next with
          | atEnd passed ended => exact .atEnd (.onward stepped passed) (onward.trans ended)
          | atToken cut passed refused ended =>
              subst cut
              exact .atToken rfl (.onward stepped passed) refused (onward.trans ended)

/-- A token that is refused is refused whatever follows it. -/
theorem Passes.run_refused {state last : State} {before : List Token} {token : Token}
    {cause : ParseError} (passed : Passes state before last)
    (refused : step last token = .error cause) (more : List Token)
    : Reader.run state (before ++ token :: more) = ⟨.error cause, more⟩ := by
  rw [passed.run]
  simp only [Reader.run, refused]

-----------------------------------------------------------------------------------------
-- What the errors say
-----------------------------------------------------------------------------------------

/-- The end of the input is blamed behind the last token only. -/
theorem finish_eq_error {state : State} {cause : ParseError} (ended : finish state = .error cause)
    : ∃ wanted, cause = .grammar (.unexpectedEnd wanted) := by
  cases state with
  | finished program => cases ended
  | start | programName | programIs _ | declarations _ | instructionName _ | instructionIs _ _
  | block _ | condition _ _ | bodyWord _ _ _ | endWord _ _ | closingName _ _ _ =>
      exact ⟨_, (Except.error.inj ended).symm⟩

/-- Why a token is refused in a state: it is wrong there, or it closes the declaration of a name
that is taken.
-/
inductive Refusal (state : State) (token : Token) : ParseError → Prop
  | misplaced {cause : SyntaxError} (named : cause.token? = some token)
    : Refusal state token (.grammar cause)
  | taken {heading body} (closing : state = .closingName heading (.instruction token) body)
    (declared : heading.context.contains token = true)
    : Refusal state token (.contract (.duplicateInstruction token))

theorem refusal_of_demand {state next : State} {word : String} {token : Token}
    {cause : ParseError} (refused : demand word token next = .error cause)
    : Refusal state token cause := by
  unfold demand at refused
  split at refused
  · cases refused
  · cases refused
    exact .misplaced rfl

theorem refusal_of_identifier {state next : State} {token : Token} {cause : ParseError}
    (refused : identifier token next = .error cause)
    : Refusal state token cause := by
  unfold identifier at refused
  split at refused
  · cases refused
  · cases refused
    exact .misplaced rfl

/-- The token behind a block is wrong when it is neither END nor an ELSE that has its place. -/
theorem refusal_of_leave {state : State} {place : Place} {token : Token} {cause : ParseError}
    (refused : leave place token = .error cause)
    : Refusal state token cause := by
  unfold leave at refused
  split at refused
  · exact refusal_of_demand refused
  · split at refused
    · cases refused
    · exact refusal_of_demand refused
  · exact refusal_of_demand refused
  · exact refusal_of_demand refused

/-- A name that closes a body is refused only where it is taken. -/
theorem refusal_of_complete {heading : Heading} {owner : Owner} {body : Statement}
    {cause : ParseError} (refused : complete heading body owner = .error cause)
    : Refusal (.closingName heading owner body) (owner.name heading) cause := by
  cases owner with
  | main => cases refused
  | instruction name =>
      simp only [complete] at refused
      split at refused
      · rename_i declared
        cases refused
        exact .taken rfl declared
      · cases refused

/-- A step that fails has one of the two reasons, by the states. -/
theorem refusal_of_step {state : State} {token : Token} {cause : ParseError}
    (refused : step state token = .error cause)
    : Refusal state token cause := by
  cases state with
  | start | programIs _ | instructionIs _ _ | bodyWord _ _ _ | endWord _ _ =>
      exact refusal_of_demand refused
  | programName => exact refusal_of_identifier refused
  | declarations heading =>
      simp only [step] at refused
      split at refused
      · cases refused
      · exact refusal_of_demand refused
  | instructionName heading =>
      simp only [step] at refused
      split at refused
      · cases refused
        exact .misplaced rfl
      · exact refusal_of_identifier refused
  | block place =>
      simp only [step] at refused
      split at refused
      · cases refused
      · split at refused
        · cases refused
        · split at refused
          · cases refused
          · exact refusal_of_leave refused
  | condition construct place =>
      simp only [step] at refused
      split at refused
      · cases refused
      · cases refused
        exact .misplaced rfl
  | closingName heading owner body =>
      simp only [step] at refused
      split at refused
      · rename_i closing
        rw [closing]
        exact refusal_of_complete refused
      · cases refused
        exact .misplaced rfl
  | finished program =>
      cases refused
      exact .misplaced rfl

/-- The token that is refused is the one that the error names. -/
theorem Refusal.names {state : State} {token : Token} {cause : ParseError}
    (refusal : Refusal state token cause)
    : cause.token? = some token := by
  cases refusal with
  | misplaced named => exact named
  | taken _ _ => rfl

/-- A refused token is never blamed on the end of the input. -/
theorem step_ne_unexpectedEnd {state : State} {token : Token} {wanted : String}
    : step state token ≠ .error (.grammar (.unexpectedEnd wanted)) := by
  intro refused
  cases (refusal_of_step refused).names

-----------------------------------------------------------------------------------------
-- Completing what has been read
-----------------------------------------------------------------------------------------

/-- The construct that a frame belongs to. -/
def Frame.construct : Frame → Construct
  | thenPart _ _ => .choice
  | elsePart _ _ _ => .choice
  | loopPart _ _ => .loop

/-- The end of the open constructs, innermost first. -/
def closing (frames : List Frame) : List Token :=
  frames.flatMap fun frame => ["END", frame.construct.word]

/-- An empty body behind the declarations. -/
def Heading.completion (heading : Heading) : List Token := ["BEGIN", "END", heading.name]

/-- The closing name, and an empty body of the program behind that of an instruction. -/
def Owner.completion (heading : Heading) : Owner → List Token
  | main => [heading.name]
  | instruction name => name :: heading.completion

def Place.completion (place : Place) : List Token :=
  closing place.frames ++ "END" :: place.owner.completion place.heading

/-- Tokens with which the text can go on from a state to its end. -/
def State.completion : State → List Token
  | start => ["PROGRAM", "a", "IS", "BEGIN", "END", "a"]
  | programName => ["a", "IS", "BEGIN", "END", "a"]
  | programIs name => ["IS", "BEGIN", "END", name]
  | declarations heading => heading.completion
  | instructionName heading => ["a", "IS", "END", "a"] ++ heading.completion
  | instructionIs heading name => ["IS", "END", name] ++ heading.completion
  | block place => place.completion
  | condition construct place =>
      [Condition.always.keyword, construct.bodyWord, "END", construct.word] ++ place.completion
  | bodyWord construct _ place => [construct.bodyWord, "END", construct.word] ++ place.completion
  | endWord construct place => construct.word :: place.completion
  | closingName heading owner _ => owner.completion heading
  | finished _ => []

/-- A reading that found nothing wrong with its text: there is a program, or an instruction is
declared twice.
-/
def Completed (reading : Reading) : Prop :=
  (∃ program, reading.result = .ok program)
  ∨ ∃ name, reading.result = .error (.contract (.duplicateInstruction name))

/-- The name of the program behind its body ends the text. -/
theorem completed_main (heading : Heading) (body : Statement)
    : Completed (run (.closingName heading .main body) [heading.name]) := by
  refine .inl ⟨⟨heading.name, heading.context, body⟩, ?_⟩
  simp [run, step, Owner.name, complete, finish]

theorem completed_heading (heading : Heading)
    : Completed (run (.declarations heading) heading.completion) := by
  have begun : step (.declarations heading) "BEGIN" = .ok (.block ⟨heading, .main, [], []⟩) := rfl
  have ended : step (.block ⟨heading, .main, [], []⟩) "END"
      = .ok (.closingName heading .main (.block [])) := rfl
  rw [Heading.completion, run_cons begun, run_cons ended]
  exact completed_main heading (.block [])

/-- A body closed by the name of its owner ends the program, or declares an instruction, unless
that is declared already.
-/
theorem completed_owner (heading : Heading) (owner : Owner) (body : Statement)
    : Completed (run (.closingName heading owner body) (owner.completion heading)) := by
  cases owner with
  | main => exact completed_main heading body
  | instruction name =>
      cases declared : heading.context.contains name with
      | true =>
          refine .inr ⟨name, ?_⟩
          simp [Owner.completion, run, step, Owner.name, complete, declared]
      | false =>
          have closed : step (.closingName heading (.instruction name) body) name
              = .ok (.declarations
                  { heading with context := heading.context.insert name body }) := by
            simp [step, Owner.name, complete, declared]
          rw [Owner.completion, run_cons closed]
          exact completed_heading { heading with context := heading.context.insert name body }

/-- END leaves the innermost construct, which joins the block around it. -/
theorem leave_end (heading : Heading) (owner : Owner) (frame : Frame) (frames : List Frame)
    (statements : List Statement)
    : ∃ outer,
        leave ⟨heading, owner, frame :: frames, statements⟩ "END"
          = .ok (.endWord frame.construct ⟨heading, owner, frames, outer⟩) := by
  cases frame with
  | thenPart c before | elsePart c thenBody before | loopPart c before => exact ⟨_, rfl⟩

/-- The open constructs are closed one after the other, by induction on them. -/
theorem completed_place (heading : Heading) (owner : Owner) (frames : List Frame)
    (statements : List Statement)
    : Completed
        (run (.block ⟨heading, owner, frames, statements⟩)
          (Place.completion ⟨heading, owner, frames, statements⟩)) := by
  induction frames generalizing statements with
  | nil =>
      have ended : step (.block ⟨heading, owner, [], statements⟩) "END"
          = .ok (.closingName heading owner (.block statements.reverse)) := rfl
      rw [Place.completion, closing, List.flatMap_nil, List.nil_append, run_cons ended]
      exact completed_owner heading owner _
  | cons frame frames ih =>
      obtain ⟨outer, left⟩ := leave_end heading owner frame frames statements
      have closed := run_closing left (Place.completion ⟨heading, owner, frames, outer⟩)
      simp only [Place.completion, closing, List.flatMap_cons, List.cons_append,
        List.nil_append] at closed ih ⊢
      rw [closed]
      exact ih outer

/-- An empty body closes the construct that was opened last. -/
theorem run_empty_body (construct : Construct) (c : Condition) (place : Place) (rest : List Token)
    : ∃ statements,
        run (.bodyWord construct c place) (construct.bodyWord :: "END" :: construct.word :: rest)
          = run (.block { place with read := statements }) rest := by
  have entered : step (.bodyWord construct c place) construct.bodyWord
      = .ok (.block (place.enter construct c)) := by
    simp only [step, demand, if_pos]
  cases construct with
  | choice => exact ⟨_, (run_cons entered _).trans (run_closing rfl rest)⟩
  | loop => exact ⟨_, (run_cons entered _).trans (run_closing rfl rest)⟩

/-- A text can go on to its end from every state. -/
theorem completed_state (state : State) : Completed (run state state.completion) := by
  cases state with
  | start | programName =>
      exact .inl ⟨⟨"a", .empty, .block []⟩, rfl⟩
  | programIs name => exact completed_heading ⟨name, .empty⟩
  | declarations heading => exact completed_heading heading
  | instructionName heading => exact completed_owner heading (.instruction "a") (.block [])
  | instructionIs heading name => exact completed_owner heading (.instruction name) (.block [])
  | block place => exact completed_place place.heading place.owner place.frames place.read
  | condition construct place =>
      obtain ⟨statements, closed⟩ :=
        run_empty_body construct .always place place.completion
      have tested : step (.condition construct place) Condition.always.keyword
          = .ok (.bodyWord construct .always place) := rfl
      simp only [State.completion, List.cons_append, List.nil_append]
      rw [run_cons tested, closed]
      exact completed_place place.heading place.owner place.frames statements
  | bodyWord construct c place =>
      obtain ⟨statements, closed⟩ := run_empty_body construct c place place.completion
      simp only [State.completion, List.cons_append, List.nil_append]
      rw [closed]
      exact completed_place place.heading place.owner place.frames statements
  | endWord construct place =>
      have closed : step (.endWord construct place) construct.word = .ok (.block place) := by
        simp only [step, demand, if_pos]
      rw [State.completion, run_cons closed]
      exact completed_place place.heading place.owner place.frames place.read
  | closingName heading owner body => exact completed_owner heading owner body
  | finished program => exact .inl ⟨program, rfl⟩

end Reader

open Reader

-----------------------------------------------------------------------------------------
-- The first wrong token
-----------------------------------------------------------------------------------------

/-- Some text that starts with the tokens has nothing wrong with it but names that are declared
twice.
-/
def Completable (tokens : List Token) : Prop :=
  ∃ more, Completed (read (tokens ++ more))

/-- Tokens that pass from the start can be completed. -/
theorem Reader.Passes.completable {tokens : List Token} {last : State}
    (passed : Passes .start tokens last)
    : Completable tokens := by
  refine ⟨last.completion, ?_⟩
  rw [read, passed.run]
  exact completed_state last

/-- Errors of the text come as early as they can. A token is blamed when what stands in front of it
can still be completed and with the token it cannot, whatever follows; the end of the input is
blamed when all of it can be completed.
-/
theorem read_stops_at_first_wrong_token {tokens : List Token} {cause : SyntaxError}
    (failed : (read tokens).result = .error (.grammar cause))
    : ((∀ wanted, cause ≠ .unexpectedEnd wanted)
        → ∃ before token,
            tokens = before ++ token :: (read tokens).left
            ∧ Completable before
            ∧ ∀ more, (read (before ++ token :: more)).result = .error (.grammar cause))
      ∧ ∀ wanted, cause = .unexpectedEnd wanted → Completable tokens := by
  cases run_ends .start tokens with
  | atEnd passed ended =>
      constructor
      · intro otherCause
        rw [read, ended] at failed
        obtain ⟨wanted, same⟩ := finish_eq_error failed
        exact (otherCause wanted (ParseError.grammar.inj same)).elim
      · intro _ _
        exact passed.completable
  | @atToken before token left last refusal cut passed refused ended =>
      have same : refusal = .grammar cause := by
        rw [read, ended] at failed
        exact Except.error.inj failed
      constructor
      · intro _
        refine ⟨before, token, ?_, passed.completable, ?_⟩
        · rw [read, ended]
          exact cut
        · intro more
          rw [read, passed.run_refused refused, same]
      · intro wanted isEnd
        rw [same, isEnd] at refused
        exact (step_ne_unexpectedEnd refused).elim

/-- A second ELSE, in an instruction whose name is declared already. -/
def hunt : List Token :=
  ["PROGRAM", "hunt", "IS", "INSTRUCTION", "chase", "IS", "move", "END", "chase", "INSTRUCTION",
    "chase", "IS", "WHILE", "true", "DO", "IF", "next-is-enemy", "THEN", "infect", "ELSE", "move",
    "ELSE", "skip", "END", "IF"]

theorem read_stops_at_first_wrong_token_hunt
    : ((read hunt).result = .error (.grammar (.expected "END" "ELSE"))
        ∧ ∃ before token,
            hunt = before ++ token :: (read hunt).left
            ∧ Completable before
            ∧ ∀ more,
                (read (before ++ token :: more)).result
                  = .error (.grammar (.expected "END" "ELSE")))
      ∧ (read (hunt.take 21)).result = .error (.grammar (.unexpectedEnd "END"))
      ∧ Completable (hunt.take 21) := by
  have failed : (read hunt).result = .error (.grammar (.expected "END" "ELSE")) := rfl
  have ended : (read (hunt.take 21)).result = .error (.grammar (.unexpectedEnd "END")) := rfl
  exact ⟨⟨failed, (read_stops_at_first_wrong_token failed).1 nofun⟩, ended,
    (read_stops_at_first_wrong_token ended).2 "END" rfl⟩

end Program

end AgentLang
