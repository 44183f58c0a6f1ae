import AgentLang.Proofs.Calls
import AgentLang.Proofs.Declarations
import AgentLang.Proofs.Reading.Grammar

/-! The normal form of programs: no block stands in a block, and every body is a block. The
canonical source shows nothing else of a tree, and the grammar derives normal programs only.
-/

namespace AgentLang

namespace Statement

mutual

/-- The statements that take the place of a statement in a block: for a block those of its
children, and for any other statement the one whose bodies are blocks of such statements.
-/
def flatten : Statement → List Statement
  | block children => flattenAll children
  | ifThen c body => [.ifThen c (.block (flatten body))]
  | ifElse c thenBody elseBody =>
      [.ifElse c (.block (flatten thenBody)) (.block (flatten elseBody))]
  | whileDo c body => [.whileDo c (.block (flatten body))]
  | call name => [.call name]

def flattenAll : List Statement → List Statement
  | [] => []
  | child :: rest => flatten child ++ flattenAll rest

end

/-- The block that a statement is as a body. -/
def normalBody (s : Statement) : Statement := .block s.flatten

theorem linesOfAll_append (indent : Nat) (left right : List Statement)
    : linesOfAll indent (left ++ right) = linesOfAll indent left ++ linesOfAll indent right := by
  induction left with
  | nil => rfl
  | cons child rest ih => rw [List.cons_append, linesOfAll, linesOfAll, ih, List.append_assoc]

mutual

/-- Flattening changes no line: a block has the lines of its children, at the same indent. -/
theorem lines_flatten (indent : Nat) (s : Statement)
    : linesOfAll indent s.flatten = s.lines indent := by
  cases s with
  | block children => exact lines_flattenAll indent children
  | ifThen c body =>
      simp [flatten, linesOfAll, lines, lines_flatten (indent + indentStep) body]
  | ifElse c thenBody elseBody =>
      simp [flatten, linesOfAll, lines, lines_flatten (indent + indentStep) thenBody,
        lines_flatten (indent + indentStep) elseBody]
  | whileDo c body =>
      simp [flatten, linesOfAll, lines, lines_flatten (indent + indentStep) body]
  | call name => simp [flatten, linesOfAll]

theorem lines_flattenAll (indent : Nat) (children : List Statement)
    : linesOfAll indent (flattenAll children) = linesOfAll indent children := by
  cases children with
  | nil => rfl
  | cons child rest =>
      rw [flattenAll, linesOfAll_append, lines_flatten indent child, lines_flattenAll indent rest,
        linesOfAll]

end

@[simp]
theorem lines_normalBody (indent : Nat) (s : Statement)
    : s.normalBody.lines indent = s.lines indent := by
  rw [normalBody, lines, lines_flatten]

end Statement

namespace Program

/-- The same program with every body in normal form. -/
def normal (program : Program) : Program where
  name := program.name
  context := program.context.mapBodies Statement.normalBody
  body := program.body.normalBody

/-- All names that the bodies of a program call. -/
def calls (program : Program) : List String :=
  program.context.entries.flatMap (·.2.calls) ++ program.body.calls

/-- All names could stand in a source: they are identifiers, and no declaration takes the word of
a primitive.
-/
structure Named (program : Program) : Prop where
  name : isIdentifier program.name = true
  calls : ∀ name ∈ program.calls, isIdentifier name = true
  declared
    : ∀ name ∈ program.context.names,
        isIdentifier name = true ∧ Primitive.ofWord? name = none

theorem declarationLines_normalBody (entry : Context.Entry)
    : declarationLines (entry.1, entry.2.normalBody) = declarationLines entry := by
  simp only [declarationLines, Statement.lines_normalBody]

/-- The canonical source of a program is that of its normal form. -/
theorem render_normal (program : Program) : program.normal.render = program.render := by
  have declarations : program.normal.context.entries.flatMap declarationLines
      = program.context.entries.flatMap declarationLines := by
    simp only [normal, Context.mapBodies, List.flatMap_map, declarationLines_normalBody]
  have body (indent : Nat) : program.normal.body.lines indent = program.body.lines indent :=
    Statement.lines_normalBody indent program.body
  simp only [render, lines, declarations, body]
  rfl

end Program

-----------------------------------------------------------------------------------------
-- What the grammar derives is normal
-----------------------------------------------------------------------------------------

namespace Grammar

mutual

/-- A derived statement has its place in a block as it is, by the form of the statement. -/
theorem Stmt.flatten_eq {tokens : List Token} (s : Statement) (derived : Stmt tokens s)
    : s.flatten = [s] := by
  cases derived with
  | call _ => rfl
  | @ifThen c _ body inside => rw [Statement.flatten, Statement.flatten, inside.flattenAll_eq body]
  | @ifElse c _ _ thenBody elseBody first second =>
      rw [Statement.flatten, Statement.flatten, Statement.flatten, first.flattenAll_eq thenBody,
        second.flattenAll_eq elseBody]
  | @whileDo c _ body inside => rw [Statement.flatten, Statement.flatten, inside.flattenAll_eq body]
termination_by sizeOf s

theorem Block.flattenAll_eq {tokens : List Token} (body : List Statement)
    (derived : Block tokens body)
    : Statement.flattenAll body = body := by
  cases derived with
  | nil => rfl
  | @cons _ _ s rest first later =>
      rw [Statement.flattenAll, first.flatten_eq s, later.flattenAll_eq rest, List.singleton_append]
termination_by sizeOf body

end

mutual

/-- A derived statement calls identifiers. -/
theorem Stmt.calls_identifier {tokens : List Token} (s : Statement) (derived : Stmt tokens s)
    : ∀ name ∈ s.calls, isIdentifier name = true := by
  intro name called
  cases derived with
  | call identifier =>
      rw [List.mem_singleton.mp called]
      exact identifier
  | @ifThen c _ body inside => exact inside.calls_identifier body name called
  | @ifElse c _ _ thenBody elseBody first second =>
      rcases List.mem_append.mp called with called | called
      · exact first.calls_identifier thenBody name called
      · exact second.calls_identifier elseBody name called
  | @whileDo c _ body inside => exact inside.calls_identifier body name called
termination_by sizeOf s

theorem Block.calls_identifier {tokens : List Token} (body : List Statement)
    (derived : Block tokens body)
    : ∀ name ∈ Statement.callsOfAll body, isIdentifier name = true := by
  intro name called
  cases derived with
  | nil => cases called
  | @cons _ _ s rest first later =>
      rcases List.mem_append.mp called with called | called
      · exact first.calls_identifier s name called
      · exact later.calls_identifier rest name called
termination_by sizeOf body

end

/-- Each of some declarations has its own tokens. -/
theorem Instructions.instruction {tokens : List Token} {entries : List Context.Entry}
    (derived : Instructions tokens entries) {entry : Context.Entry} (member : entry ∈ entries)
    : ∃ part, Instruction part entry := by
  induction derived with
  | nil => cases member
  | @cons part _ head rest first _ ih =>
      rcases List.mem_cons.mp member with same | later
      · exact ⟨part, same ▸ first⟩
      · exact ih later

/-- A derived program is its own normal form. -/
theorem Derives.normal_eq {tokens : List Token} {program : Program}
    (derived : Derives tokens program)
    : program.normal = program := by
  cases derived with
  | @program name _ _ entries body _ declared _ inside =>
      have context : (Context.ofList entries).mapBodies Statement.normalBody
          = .ofList entries := by
        apply Context.mapBodies_eq_self
        intro entry member
        obtain ⟨_, instruction⟩ := declared.instruction (Context.mem_ofList member)
        cases instruction with
        | @declare _ _ instructionBody _ _ inside =>
            rw [Statement.normalBody, Statement.flatten, inside.flattenAll_eq instructionBody]
      rw [Program.normal, context, Statement.normalBody, Statement.flatten,
        inside.flattenAll_eq body]

/-- A derived program has the names of a source. -/
theorem Derives.named {tokens : List Token} {program : Program}
    (derived : Derives tokens program)
    : program.Named := by
  cases derived with
  | @program name _ _ entries body identifier declared _ inside =>
      have instruction (entry : Context.Entry) (member : entry ∈ (Context.ofList entries).entries)
          : ∃ part, Instruction part entry :=
        declared.instruction (Context.mem_ofList member)
      refine ⟨identifier, ?_, ?_⟩
      · intro called member
        rcases List.mem_append.mp member with inDeclaration | inBody
        · obtain ⟨entry, declaration, member⟩ := List.mem_flatMap.mp inDeclaration
          obtain ⟨_, derived⟩ := instruction entry declaration
          cases derived with
          | @declare _ _ instructionBody _ _ inside =>
              exact inside.calls_identifier instructionBody called member
        · exact inside.calls_identifier body called inBody
      · intro called member
        obtain ⟨entry, declaration, rfl⟩ := List.mem_map.mp member
        obtain ⟨_, derived⟩ := instruction entry declaration
        cases derived with
        | declare identifier free _ => exact ⟨identifier, free⟩

end Grammar

end AgentLang
