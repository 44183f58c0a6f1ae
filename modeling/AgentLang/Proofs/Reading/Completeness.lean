import AgentLang.Proofs.Reading.Grammar

/-! The reader accepts what the grammar derives. Each derivation takes the reader through its
tokens to a known state, whatever follows them.
-/

namespace AgentLang.Program.Reader

open Grammar

-----------------------------------------------------------------------------------------
-- Words that cannot be mistaken
-----------------------------------------------------------------------------------------

/-- A reserved word is no identifier. -/
theorem isIdentifier_of_reserved {word : String} (reserved : isReserved word = true)
    : isIdentifier word = false := by
  unfold isIdentifier
  split
  · rfl
  · simp [reserved]

/-- An identifier is none of the keywords. -/
theorem identifier_ne {name word : String} (identifier : isIdentifier name = true)
    (reserved : isReserved word = true)
    : name ≠ word := by
  intro same
  rw [same, isIdentifier_of_reserved reserved] at identifier
  cases identifier

/-- A step that goes through is a step of the whole reading. -/
theorem run_cons {state next : State} {token : Token} (stepped : step state token = .ok next)
    (rest : List Token)
    : run state (token :: rest) = run next rest := by
  simp only [run, stepped]

-----------------------------------------------------------------------------------------
-- Statements and blocks
-----------------------------------------------------------------------------------------

/-- A name that is no keyword adds a call. -/
theorem run_call {name : String} (identifier : isIdentifier name = true) (place : Place)
    (rest : List Token)
    : run (.block place) (name :: rest) = run (.block (place.push (.call name))) rest := by
  apply run_cons
  -- The reader looks for IF and WHILE before it looks for a name.
  have notIf := identifier_ne identifier (show isReserved "IF" = true from rfl)
  have notWhile := identifier_ne identifier (show isReserved "WHILE" = true from rfl)
  simp only [step, Construct.word, if_neg notIf, if_neg notWhile, if_pos identifier]

/-- The words in front of a body enter a new block. -/
theorem run_opening (construct : Construct) (c : Condition) (place : Place) (rest : List Token)
    : run (.block place) (construct.word :: c.keyword :: construct.bodyWord :: rest)
      = run (.block (place.enter construct c)) rest := by
  have opened : step (.block place) construct.word = .ok (.condition construct place) := by
    cases construct <;> rfl
  have tested
      : step (.condition construct place) c.keyword = .ok (.bodyWord construct c place) := by
    simp only [step, Condition.ofKeyword?_keyword]
  have entered : step (.bodyWord construct c place) construct.bodyWord
      = .ok (.block (place.enter construct c)) := by
    simp only [step, demand, if_pos]
  rw [run_cons opened, run_cons tested, run_cons entered]

/-- No statement begins with END or ELSE. -/
theorem step_block_end (place : Place) : step (.block place) "END" = leave place "END" := rfl

theorem step_block_else (place : Place) : step (.block place) "ELSE" = leave place "ELSE" := rfl

/-- END and the word of the construct leave its body for the enclosing block. -/
theorem run_closing {place outer : Place} {construct : Construct}
    (left : leave place "END" = .ok (.endWord construct outer)) (rest : List Token)
    : run (.block place) ("END" :: construct.word :: rest) = run (.block outer) rest := by
  have ended : step (.block place) "END" = .ok (.endWord construct outer) := by
    rw [step_block_end, left]
  have closed : step (.endWord construct outer) construct.word = .ok (.block outer) := by
    simp only [step, demand, if_pos]
  rw [run_cons ended, run_cons closed]

/-- Adds statements to the innermost block. -/
def Place.append (place : Place) (statements : List Statement) : Place :=
  { place with read := statements.reverse ++ place.read }

/-- The place inside the second body of a choice, whose first body has been read. -/
def Place.enterElse (place : Place) (c : Condition) (thenBody : List Statement) : Place :=
  { place with frames := .elsePart c (.block thenBody) place.read :: place.frames, read := [] }

theorem leave_then (place : Place) (c : Condition) (body : List Statement)
    : leave ((place.enter .choice c).append body) "END"
      = .ok (.endWord .choice (place.push (.ifThen c (.block body)))) := by
  simp [leave, demand, Place.append, Place.enter, Place.push, Place.body, Frame.opening]

theorem leave_else (place : Place) (c : Condition) (thenBody elseBody : List Statement)
    : leave ((place.enterElse c thenBody).append elseBody) "END"
      = .ok (.endWord .choice (place.push (.ifElse c (.block thenBody) (.block elseBody)))) := by
  simp [leave, demand, Place.append, Place.enterElse, Place.push, Place.body]

theorem leave_loop (place : Place) (c : Condition) (body : List Statement)
    : leave ((place.enter .loop c).append body) "END"
      = .ok (.endWord .loop (place.push (.whileDo c (.block body)))) := by
  simp [leave, demand, Place.append, Place.enter, Place.push, Place.body, Frame.opening]

/-- ELSE leaves the first body of a choice for the second. -/
theorem run_else (place : Place) (c : Condition) (body : List Statement) (rest : List Token)
    : run (.block ((place.enter .choice c).append body)) ("ELSE" :: rest)
      = run (.block (place.enterElse c body)) rest := by
  apply run_cons
  rw [step_block_else]
  simp [leave, Place.append, Place.enter, Place.enterElse, Place.body, Frame.opening]

mutual

/-- The reader takes the tokens of a statement and adds the statement to the block, by the form
of the statement. A block inside is read in a place of its own and left at its END or ELSE.
-/
theorem run_stmt {tokens : List Token} (s : Statement) (derived : Stmt tokens s) (place : Place)
    (rest : List Token)
    : run (.block place) (tokens ++ rest) = run (.block (place.push s)) rest := by
  cases derived with
  | call identifier => exact run_call identifier place rest
  | @ifThen c tokens body inside =>
      simp only [List.append_assoc, List.cons_append, List.nil_append]
      calc run (.block place) ("IF" :: c.keyword :: "THEN" :: (tokens ++ "END" :: "IF" :: rest))
        _ = run (.block (place.enter .choice c)) (tokens ++ "END" :: "IF" :: rest) :=
          run_opening .choice c place _
        _ = run (.block ((place.enter .choice c).append body)) ("END" :: "IF" :: rest) :=
          run_block body inside _ _
        _ = run (.block (place.push (.ifThen c (.block body)))) rest :=
          run_closing (leave_then place c body) rest
  | @ifElse c tokens more thenBody elseBody first second =>
      simp only [List.append_assoc, List.cons_append, List.nil_append]
      calc run (.block place)
            ("IF" :: c.keyword :: "THEN" :: (tokens ++ "ELSE" :: (more ++ "END" :: "IF" :: rest)))
        _ = run (.block (place.enter .choice c))
              (tokens ++ "ELSE" :: (more ++ "END" :: "IF" :: rest)) :=
          run_opening .choice c place _
        _ = run (.block ((place.enter .choice c).append thenBody))
              ("ELSE" :: (more ++ "END" :: "IF" :: rest)) :=
          run_block thenBody first _ _
        _ = run (.block (place.enterElse c thenBody)) (more ++ "END" :: "IF" :: rest) :=
          run_else place c thenBody _
        _ = run (.block ((place.enterElse c thenBody).append elseBody)) ("END" :: "IF" :: rest) :=
          run_block elseBody second _ _
        _ = run (.block (place.push (.ifElse c (.block thenBody) (.block elseBody)))) rest :=
          run_closing (leave_else place c thenBody elseBody) rest
  | @whileDo c tokens body inside =>
      simp only [List.append_assoc, List.cons_append, List.nil_append]
      calc run (.block place) ("WHILE" :: c.keyword :: "DO" :: (tokens ++ "END" :: "WHILE" :: rest))
        _ = run (.block (place.enter .loop c)) (tokens ++ "END" :: "WHILE" :: rest) :=
          run_opening .loop c place _
        _ = run (.block ((place.enter .loop c).append body)) ("END" :: "WHILE" :: rest) :=
          run_block body inside _ _
        _ = run (.block (place.push (.whileDo c (.block body)))) rest :=
          run_closing (leave_loop place c body) rest
termination_by sizeOf s

theorem run_block {tokens : List Token} (body : List Statement) (derived : Block tokens body)
    (place : Place) (rest : List Token)
    : run (.block place) (tokens ++ rest) = run (.block (place.append body)) rest := by
  cases derived with
  | nil => rfl
  | @cons tokens more s others first later =>
      rw [List.append_assoc, run_stmt s first, run_block others later]
      simp [Place.append, Place.push]
termination_by sizeOf body

end

-----------------------------------------------------------------------------------------
-- Declarations and programs
-----------------------------------------------------------------------------------------

/-- A body with END and the name of its owner behind it is complete. -/
theorem run_body {tokens : List Token} {body : List Statement} (derived : Block tokens body)
    (heading : Heading) (owner : Owner) (rest : List Token)
    : run (.block ⟨heading, owner, [], []⟩) (tokens ++ "END" :: owner.name heading :: rest)
      = run (.closingName heading owner (.block body)) (owner.name heading :: rest) := by
  rw [run_block body derived]
  apply run_cons
  rw [step_block_end]
  simp [leave, demand, Place.append, Place.body]

/-- The tokens of a declaration lead to its closing name. -/
theorem run_declaration {name : String} {tokens : List Token} {body : List Statement}
    (identifier : isIdentifier name = true) (free : Primitive.ofWord? name = none)
    (inside : Block tokens body) (heading : Heading) (rest : List Token)
    : run (.declarations heading)
        (["INSTRUCTION", name, "IS"] ++ tokens ++ ["END", name] ++ rest)
      = run (.closingName heading (.instruction name) (.block body)) (name :: rest) := by
  simp only [List.append_assoc, List.cons_append, List.nil_append]
  have named : step (.instructionName heading) name = .ok (.instructionIs heading name) := by
    simp [step, free, Reader.identifier, identifier]
  calc run (.declarations heading)
        ("INSTRUCTION" :: name :: "IS" :: (tokens ++ "END" :: name :: rest))
    _ = run (.instructionName heading) (name :: "IS" :: (tokens ++ "END" :: name :: rest)) :=
      run_cons rfl _
    _ = run (.instructionIs heading name) ("IS" :: (tokens ++ "END" :: name :: rest)) :=
      run_cons named _
    _ = run (.block ⟨heading, .instruction name, [], []⟩) (tokens ++ "END" :: name :: rest) :=
      run_cons rfl _
    _ = run (.closingName heading (.instruction name) (.block body)) (name :: rest) :=
      run_body inside heading (.instruction name) rest

/-- A declaration under a new name joins the context. -/
theorem run_instruction {tokens : List Token} {entry : Context.Entry}
    (derived : Instruction tokens entry) (heading : Heading)
    (fresh : heading.context.get? entry.1 = none) (rest : List Token)
    : run (.declarations heading) (tokens ++ rest)
      = run
          (.declarations { heading with context := heading.context.insert entry.1 entry.2 })
          rest := by
  cases derived with
  | @declare name tokens body identifier free inside =>
      have closed : step (.closingName heading (.instruction name) (.block body)) name
          = .ok (.declarations
              { heading with context := heading.context.insert name (.block body) }) := by
        simp [step, Owner.name, complete, Context.contains, fresh]
      rw [run_declaration identifier free inside, run_cons closed]

/-- A declaration under a name that is taken is refused behind its closing name. -/
theorem run_instruction_taken {tokens : List Token} {entry : Context.Entry}
    (derived : Instruction tokens entry) (heading : Heading)
    (taken : heading.context.contains entry.1 = true) (rest : List Token)
    : run (.declarations heading) (tokens ++ rest)
      = ⟨.error (.contract (.duplicateInstruction entry.1)), rest⟩ := by
  cases derived with
  | @declare name tokens body identifier free inside =>
      have refused : step (.closingName heading (.instruction name) (.block body)) name
          = .error (.contract (.duplicateInstruction name)) := by
        simp [step, Owner.name, complete, taken]
      rw [run_declaration identifier free inside]
      simp only [run, refused]

/-- Declarations under distinct new names join the context one after the other, by induction on
the declarations. Distinctness is what keeps the later names new.
-/
theorem run_instructions {tokens : List Token} {entries : List Context.Entry}
    (derived : Instructions tokens entries) (distinct : (entries.map (·.1)).Nodup)
    (heading : Heading) (fresh : ∀ entry ∈ entries, heading.context.get? entry.1 = none)
    (rest : List Token)
    : run (.declarations heading) (tokens ++ rest)
      = run
          (.declarations { heading with
            context := entries.foldl
              (fun context entry => context.insert entry.1 entry.2) heading.context })
          rest := by
  induction derived generalizing heading with
  | nil => rfl
  | @cons tokens more entry others first later ih =>
      rw [List.map_cons, List.nodup_cons] at distinct
      have newFirst := fresh entry List.mem_cons_self
      have newLater : ∀ other ∈ others,
          (heading.context.insert entry.1 entry.2).get? other.1 = none := by
        intro other member
        have apart : entry.1 ≠ other.1 := by
          intro same
          exact distinct.1 (List.mem_map.mpr ⟨other, member, same.symm⟩)
        rw [Context.get?_insert, if_neg apart]
        exact fresh other (List.mem_cons_of_mem _ member)
      rw [List.append_assoc, run_instruction first heading newFirst,
        ih distinct.2 { heading with context := heading.context.insert entry.1 entry.2 } newLater]
      rfl

/-- The words in front of the declarations lead to them. -/
theorem read_heading {name : String} (identifier : isIdentifier name = true) (rest : List Token)
    : read ("PROGRAM" :: name :: "IS" :: rest) = run (.declarations ⟨name, .empty⟩) rest := by
  have named : step .programName name = .ok (.programIs name) := by
    simp [step, Reader.identifier, identifier]
  calc run .start ("PROGRAM" :: name :: "IS" :: rest)
    _ = run .programName (name :: "IS" :: rest) := run_cons rfl _
    _ = run (.programIs name) ("IS" :: rest) := run_cons named _
    _ = run (.declarations ⟨name, .empty⟩) rest := run_cons rfl _

/-- The reader accepts what the grammar derives, and looks at all of it. -/
theorem read_of_derives {tokens : List Token} {program : Program}
    (derived : Derives tokens program)
    : read tokens = ⟨.ok program, []⟩ := by
  cases derived with
  | @program name tokens more entries body identifier declared distinct inside =>
      simp only [List.append_assoc, List.cons_append, List.nil_append]
      have closed : step (.closingName ⟨name, .ofList entries⟩ .main (.block body)) name
          = .ok (.finished ⟨name, .ofList entries, .block body⟩) := by
        simp [step, Owner.name, complete]
      calc read ("PROGRAM" :: name :: "IS" :: (tokens ++ "BEGIN" :: (more ++ ["END", name])))
        _ = run (.declarations ⟨name, .empty⟩) (tokens ++ "BEGIN" :: (more ++ ["END", name])) :=
          read_heading identifier _
        _ = run (.declarations ⟨name, .ofList entries⟩) ("BEGIN" :: (more ++ ["END", name])) :=
          run_instructions declared distinct ⟨name, .empty⟩ (fun _ _ => rfl) _
        _ = run (.block ⟨⟨name, .ofList entries⟩, .main, [], []⟩) (more ++ ["END", name]) :=
          run_cons rfl _
        _ = run (.closingName ⟨name, .ofList entries⟩ .main (.block body)) [name] :=
          run_body inside ⟨name, .ofList entries⟩ .main []
        _ = run (.finished ⟨name, .ofList entries, .block body⟩) [] := run_cons closed _
        _ = ⟨.ok ⟨name, .ofList entries, .block body⟩, []⟩ := rfl

end AgentLang.Program.Reader
