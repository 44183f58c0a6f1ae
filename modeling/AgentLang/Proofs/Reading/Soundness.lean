import AgentLang.Proofs.Declarations
import AgentLang.Proofs.Reading.Completeness

/-! The reader accepts only what the grammar derives. Each state of the reader stands for the
tokens that can lead to it: those of complete parts have derivations, and those of the parts that
are still open stand in the order in which the parts were opened.
-/

namespace AgentLang.Program

open Grammar

namespace Reader

-----------------------------------------------------------------------------------------
-- What a state says of the tokens read
-----------------------------------------------------------------------------------------

/-- The tokens through the last complete declaration. -/
inductive Heading.Spelled : Heading → List Token → Prop
  | declared {name tokens entries} (identifier : isIdentifier name = true)
    (declarations : Instructions tokens entries) (distinct : (entries.map (·.1)).Nodup)
    : Heading.Spelled ⟨name, .ofList entries⟩ (["PROGRAM", name, "IS"] ++ tokens)

/-- The tokens in front of a body. -/
inductive Owner.Spelled (heading : Heading) : Owner → List Token → Prop
  | main {tokens} (before : heading.Spelled tokens)
    : Owner.Spelled heading .main (tokens ++ ["BEGIN"])
  | instruction {name tokens} (before : heading.Spelled tokens)
    (identifier : isIdentifier name = true) (free : Primitive.ofWord? name = none)
    : Owner.Spelled heading (.instruction name) (tokens ++ ["INSTRUCTION", name, "IS"])

/-- The tokens in front of the innermost block. -/
inductive Opened (heading : Heading) (owner : Owner) : List Frame → List Token → Prop
  | body {tokens} (before : owner.Spelled heading tokens) : Opened heading owner [] tokens
  | thenPart {c before frames tokens more} (outer : Opened heading owner frames tokens)
    (earlier : Block more before.reverse)
    : Opened heading owner (.thenPart c before :: frames)
        (tokens ++ more ++ ["IF", Condition.keyword c, "THEN"])
  | elsePart {c before frames thenBody tokens more inner}
    (outer : Opened heading owner frames tokens) (earlier : Block more before.reverse)
    (first : Block inner thenBody)
    : Opened heading owner (.elsePart c (.block thenBody) before :: frames)
        (tokens ++ more ++ ["IF", Condition.keyword c, "THEN"] ++ inner ++ ["ELSE"])
  | loopPart {c before frames tokens more} (outer : Opened heading owner frames tokens)
    (earlier : Block more before.reverse)
    : Opened heading owner (.loopPart c before :: frames)
        (tokens ++ more ++ ["WHILE", Condition.keyword c, "DO"])

/-- The tokens through the last statement of the innermost block. -/
inductive Place.Spelled : Place → List Token → Prop
  | inside {heading owner frames statements tokens more}
    (opened : Opened heading owner frames tokens) (block : Block more statements.reverse)
    : Place.Spelled ⟨heading, owner, frames, statements⟩ (tokens ++ more)

/-- The tokens that lead to a state. -/
inductive State.Spelled : State → List Token → Prop
  | start : State.Spelled .start []
  | programName : State.Spelled .programName ["PROGRAM"]
  | programIs {name} (identifier : isIdentifier name = true)
    : State.Spelled (.programIs name) ["PROGRAM", name]
  | declarations {heading tokens} (before : Heading.Spelled heading tokens)
    : State.Spelled (.declarations heading) tokens
  | instructionName {heading tokens} (before : Heading.Spelled heading tokens)
    : State.Spelled (.instructionName heading) (tokens ++ ["INSTRUCTION"])
  | instructionIs {heading tokens name} (before : Heading.Spelled heading tokens)
    (identifier : isIdentifier name = true) (free : Primitive.ofWord? name = none)
    : State.Spelled (.instructionIs heading name) (tokens ++ ["INSTRUCTION", name])
  | block {place tokens} (before : Place.Spelled place tokens)
    : State.Spelled (.block place) tokens
  | condition {construct place tokens} (before : Place.Spelled place tokens)
    : State.Spelled (.condition construct place) (tokens ++ [construct.word])
  | bodyWord {construct c place tokens} (before : Place.Spelled place tokens)
    : State.Spelled (.bodyWord construct c place) (tokens ++ [construct.word, c.keyword])
  | endWord {construct place tokens}
    (complete : Place.Spelled place (tokens ++ [construct.word]))
    : State.Spelled (.endWord construct place) tokens
  | closingName {heading owner tokens more body} (before : Owner.Spelled heading owner tokens)
    (inside : Block more body)
    : State.Spelled (.closingName heading owner (.block body)) (tokens ++ more ++ ["END"])
  | finished {program tokens} (derived : Derives tokens program)
    : State.Spelled (.finished program) tokens

-----------------------------------------------------------------------------------------
-- Places
-----------------------------------------------------------------------------------------

/-- One more statement in the innermost block. -/
theorem Place.Spelled.push {place : Place} {tokens more : List Token} {s : Statement}
    (spelled : place.Spelled tokens) (derived : Stmt more s)
    : (place.push s).Spelled (tokens ++ more) := by
  cases spelled with
  | @inside heading owner frames statements tokens earlier opened block =>
      rw [List.append_assoc]
      refine .inside opened ?_
      rw [List.reverse_cons]
      exact block.append (.single derived)

/-- The words in front of a body, and no statement of the body yet. -/
theorem Place.Spelled.enter {place : Place} {tokens : List Token} (spelled : place.Spelled tokens)
    (construct : Construct) (c : Condition)
    : (place.enter construct c).Spelled
        (tokens ++ [construct.word, c.keyword, construct.bodyWord]) := by
  cases spelled with
  | @inside heading owner frames statements tokens earlier opened block =>
      rw [← List.append_nil (_ ++ _)]
      cases construct with
      | choice => exact .inside (.thenPart opened block) .nil
      | loop => exact .inside (.loopPart opened block) .nil

theorem demand_eq_ok_iff {word : String} {token : Token} {next state : State}
    : demand word token next = .ok state ↔ token = word ∧ next = state := by
  unfold demand
  split <;> simp_all

theorem identifier_eq_ok_iff {token : Token} {next state : State}
    : identifier token next = .ok state ↔ isIdentifier token = true ∧ next = state := by
  unfold identifier
  split <;> simp_all

/-- The token behind the last statement of a block closes the innermost part. -/
theorem Place.Spelled.leave {place : Place} {tokens : List Token} {token : Token} {next : State}
    (spelled : place.Spelled tokens) (left : Reader.leave place token = .ok next)
    : next.Spelled (tokens ++ [token]) := by
  cases spelled with
  | @inside heading owner frames statements tokens inner opened block =>
      cases opened with
      | body before =>
          obtain ⟨rfl, rfl⟩ := demand_eq_ok_iff.mp left
          exact .closingName before block
      | @thenPart c earlier frames tokens more outer read =>
          have around : Place.Spelled ⟨heading, owner, frames, earlier⟩ (tokens ++ more) :=
            .inside outer read
          simp only [Reader.leave] at left
          split at left
          · rename_i isElse
            -- No statement is complete yet: the first body waits in the frame of the second.
            cases left
            subst token
            rw [← List.append_nil (_ ++ ["ELSE"])]
            exact .block (.inside (.elsePart outer read block) .nil)
          · obtain ⟨rfl, rfl⟩ := demand_eq_ok_iff.mp left
            have complete := around.push (.ifThen (c := c) block)
            refine .endWord ?_
            simpa [Construct.word, Place.push, Place.body] using complete
      | @elsePart c earlier frames thenBody tokens more first outer read thenBlock =>
          have around : Place.Spelled ⟨heading, owner, frames, earlier⟩ (tokens ++ more) :=
            .inside outer read
          obtain ⟨rfl, rfl⟩ := demand_eq_ok_iff.mp left
          have complete := around.push (.ifElse (c := c) thenBlock block)
          refine .endWord ?_
          simpa [Construct.word, Place.push, Place.body] using complete
      | @loopPart c earlier frames tokens more outer read =>
          have around : Place.Spelled ⟨heading, owner, frames, earlier⟩ (tokens ++ more) :=
            .inside outer read
          obtain ⟨rfl, rfl⟩ := demand_eq_ok_iff.mp left
          have complete := around.push (.whileDo (c := c) block)
          refine .endWord ?_
          simpa [Construct.word, Place.push, Place.body] using complete

-----------------------------------------------------------------------------------------
-- Steps and runs
-----------------------------------------------------------------------------------------

/-- The word that stands for a condition is its keyword. -/
theorem keyword_of_ofKeyword? {word : String} {c : Condition}
    (found : Condition.ofKeyword? word = some c)
    : word = c.keyword := by
  have same := List.find?_some found
  exact (beq_iff_eq.mp same).symm

/-- A complete body ends the program or declares one more instruction. -/
theorem Owner.Spelled.complete {heading : Heading} {owner : Owner} {tokens more : List Token}
    {body : List Statement} {next : State} (spelled : owner.Spelled heading tokens)
    (inside : Block more body)
    (completed : Reader.complete heading (.block body) owner = .ok next)
    : next.Spelled (tokens ++ more ++ ["END", owner.name heading]) := by
  cases spelled with
  | main before =>
      cases before with
      | declared identifier declarations distinct =>
          cases completed
          exact .finished (.program identifier declarations distinct inside)
  | @instruction name tokens before identifier free =>
      cases before with
      | @declared program tokens entries programIdentifier declarations distinct =>
          simp only [Reader.complete] at completed
          split at completed
          · cases completed
          · rename_i unknown
            cases completed
            -- The reader has looked the name up in the context, which holds all names so far.
            have fresh : name ∉ entries.map (·.1) := by
              rw [← Context.get?_ofList_eq_none_iff]
              simpa [Context.contains] using unknown
            have oneMore := declarations.append (.single (.declare identifier free inside))
            have distinctNames
                : ((entries ++ [(name, Statement.block body)]).map (·.1)).Nodup := by
              simp only [List.map_append, List.map_cons, List.map_nil]
              exact List.nodup_append.mpr ⟨distinct, by simp, by grind⟩
            have spelled := Heading.Spelled.declared programIdentifier oneMore distinctNames
            rw [Context.ofList_concat] at spelled
            refine .declarations ?_
            simpa [Owner.name] using spelled

/-- One more token leads on to the next state. -/
theorem State.Spelled.step {state next : State} {tokens : List Token} {token : Token}
    (spelled : state.Spelled tokens) (stepped : Reader.step state token = .ok next)
    : next.Spelled (tokens ++ [token]) := by
  cases spelled with
  | start =>
      obtain ⟨rfl, rfl⟩ := demand_eq_ok_iff.mp stepped
      exact .programName
  | programName =>
      obtain ⟨identifier, rfl⟩ := identifier_eq_ok_iff.mp stepped
      exact .programIs identifier
  | programIs identifier =>
      obtain ⟨rfl, rfl⟩ := demand_eq_ok_iff.mp stepped
      exact .declarations (.declared identifier .nil .nil)
  | declarations before =>
      simp only [Reader.step] at stepped
      split at stepped
      · cases stepped
        subst token
        exact .instructionName before
      · obtain ⟨rfl, rfl⟩ := demand_eq_ok_iff.mp stepped
        rw [← List.append_nil (_ ++ _)]
        exact .block (.inside (.body (.main before)) .nil)
  | instructionName before =>
      simp only [Reader.step] at stepped
      split at stepped
      · cases stepped
      · rename_i free
        obtain ⟨identifier, rfl⟩ := identifier_eq_ok_iff.mp stepped
        rw [List.append_assoc]
        exact .instructionIs before identifier (by simpa using free)
  | instructionIs before identifier free =>
      obtain ⟨rfl, rfl⟩ := demand_eq_ok_iff.mp stepped
      rw [← List.append_nil (_ ++ ["IS"]), List.append_assoc _ _ ["IS"]]
      exact .block (.inside (.body (.instruction before identifier free)) .nil)
  | block before =>
      simp only [Reader.step] at stepped
      split at stepped
      · cases stepped
        subst token
        exact .condition before
      · split at stepped
        · cases stepped
          subst token
          exact .condition before
        · split at stepped
          · rename_i identifier
            cases stepped
            exact .block (before.push (.call identifier))
          · exact before.leave stepped
  | condition before =>
      simp only [Reader.step] at stepped
      split at stepped
      · rename_i c found
        cases stepped
        rw [List.append_assoc, keyword_of_ofKeyword? found]
        exact .bodyWord before
      · cases stepped
  | @bodyWord construct c place tokens before =>
      obtain ⟨rfl, rfl⟩ := demand_eq_ok_iff.mp stepped
      rw [List.append_assoc]
      exact .block (before.enter construct c)
  | endWord complete =>
      obtain ⟨rfl, rfl⟩ := demand_eq_ok_iff.mp stepped
      exact .block complete
  | @closingName heading owner tokens more body before inside =>
      simp only [Reader.step] at stepped
      split at stepped
      · subst token
        rw [List.append_assoc _ ["END"]]
        exact before.complete inside stepped
      · cases stepped
  | finished _ => cases stepped

/-- A reading that ends well has led to the end of a program, by induction on the tokens: each
one moves on to a state whose tokens are those of the one before and itself.
-/
theorem State.Spelled.run {state : State} {tokens : List Token} (spelled : state.Spelled tokens)
    {rest : List Token} {program : Program}
    (accepted : (Reader.run state rest).result = .ok program)
    : Derives (tokens ++ rest) program ∧ (Reader.run state rest).left = [] := by
  induction rest generalizing state tokens with
  | nil =>
      rw [List.append_nil]
      -- The end of the input is an error in every state but the last.
      cases spelled <;> cases accepted
      rename_i derived
      exact ⟨derived, rfl⟩
  | cons token rest ih =>
      cases stepped : Reader.step state token with
      | ok next =>
          rw [run_cons stepped] at accepted ⊢
          have further := ih (spelled.step stepped) accepted
          rwa [List.append_assoc] at further
      | error cause =>
          simp only [Reader.run, stepped] at accepted
          cases accepted

/-- The reader accepts only what the grammar derives. -/
theorem derives_of_read {tokens : List Token} {program : Program}
    (accepted : (read tokens).result = .ok program)
    : Derives tokens program :=
  (State.Spelled.start.run accepted).1

end Reader

open Reader

-----------------------------------------------------------------------------------------
-- The reader and the grammar
-----------------------------------------------------------------------------------------

/-- The reader accepts exactly what the grammar derives, and then no token is left. A token
sequence derives one program at most, since the reader gives one answer.
-/
theorem read_accepts_grammar (tokens : List Token)
    : (∀ program, (read tokens).result = .ok program ↔ Derives tokens program)
      ∧ (∀ program, (read tokens).result = .ok program → (read tokens).left = [])
      ∧ ∀ program other, Derives tokens program → Derives tokens other → program = other := by
  refine ⟨?_, ?_, ?_⟩
  · intro program
    constructor
    · exact derives_of_read
    · intro derived
      rw [read_of_derives derived]
  · intro program accepted
    exact (State.Spelled.start.run accepted).2
  · intro program other first second
    have same := (read_of_derives first).symm.trans (read_of_derives second)
    injection same with result _
    exact Except.ok.inj result

/-- A program with one instruction of its own, and with an empty second body. -/
def errand : List Token :=
  ["PROGRAM", "errand", "IS", "INSTRUCTION", "fetch", "IS", "move", "infect", "END", "fetch",
    "BEGIN", "WHILE", "true", "DO", "IF", "random", "THEN", "fetch", "ELSE", "END", "IF", "END",
    "WHILE", "END", "errand"]

theorem read_accepts_grammar_errand
    : ∃ program, Derives errand program ∧ (read errand).left = []
      ∧ ∀ other, Derives errand other → program = other := by
  have accepted : (read errand).result = .ok
      ⟨"errand", .ofList [("fetch", .block [.call "move", .call "infect"])],
        .block [.whileDo .always
          (.block [.ifElse .random (.block [.call "fetch"]) (.block [])])]⟩ := by
    rfl
  have reading := read_accepts_grammar errand
  have derived := (reading.1 _).mp accepted
  exact ⟨_, derived, reading.2.1 _ accepted, fun other => reading.2.2 _ other derived⟩

end AgentLang.Program
