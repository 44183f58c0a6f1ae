import AgentLang.Program.Reader

/-! The grammar of programs, as a relation between token sequences and what they say:

    program     ::= PROGRAM name IS instruction* BEGIN block END name
    instruction ::= INSTRUCTION name IS block END name
    block       ::= statement*
    statement   ::= IF condition THEN block [ELSE block] END IF
                  | WHILE condition DO block END WHILE
                  | name

Names are identifiers, the name behind END is the one that was declared, and instructions have
names of their own that are not the words of primitives.
-/

namespace AgentLang.Grammar

mutual

inductive Block : List Token → List Statement → Prop
  | nil : Block [] []
  | cons {tokens more s rest} (first : Stmt tokens s) (later : Block more rest)
    : Block (tokens ++ more) (s :: rest)

inductive Stmt : List Token → Statement → Prop
  | call {name} (identifier : isIdentifier name = true) : Stmt [name] (.call name)
  | ifThen {c tokens body} (inside : Block tokens body)
    : Stmt (["IF", Condition.keyword c, "THEN"] ++ tokens ++ ["END", "IF"])
        (.ifThen c (.block body))
  | ifElse {c tokens more thenBody elseBody} (first : Block tokens thenBody)
    (second : Block more elseBody)
    : Stmt
        (["IF", Condition.keyword c, "THEN"] ++ tokens ++ ["ELSE"] ++ more ++ ["END", "IF"])
        (.ifElse c (.block thenBody) (.block elseBody))
  | whileDo {c tokens body} (inside : Block tokens body)
    : Stmt (["WHILE", Condition.keyword c, "DO"] ++ tokens ++ ["END", "WHILE"])
        (.whileDo c (.block body))

end

/-- One declaration. -/
inductive Instruction : List Token → Context.Entry → Prop
  | declare {name tokens body} (identifier : isIdentifier name = true)
    (free : Primitive.ofWord? name = none) (inside : Block tokens body)
    : Instruction (["INSTRUCTION", name, "IS"] ++ tokens ++ ["END", name]) (name, .block body)

/-- Declarations one after the other. -/
inductive Instructions : List Token → List Context.Entry → Prop
  | nil : Instructions [] []
  | cons {tokens more entry rest} (first : Instruction tokens entry)
    (later : Instructions more rest)
    : Instructions (tokens ++ more) (entry :: rest)

/-- A token sequence says a program. -/
inductive Derives : List Token → Program → Prop
  | program {name tokens more entries body} (identifier : isIdentifier name = true)
    (declared : Instructions tokens entries) (distinct : (entries.map (·.1)).Nodup)
    (inside : Block more body)
    : Derives (["PROGRAM", name, "IS"] ++ tokens ++ ["BEGIN"] ++ more ++ ["END", name])
        ⟨name, .ofList entries, .block body⟩

theorem Block.single {tokens : List Token} {s : Statement} (derived : Stmt tokens s)
    : Block tokens [s] := by
  have block := Block.cons derived .nil
  rwa [List.append_nil] at block

/-- Blocks one after the other are a block, by induction on the statements of the first. -/
theorem Block.append {tokens more : List Token} {left right : List Statement}
    (first : Block tokens left) (second : Block more right)
    : Block (tokens ++ more) (left ++ right) := by
  induction left generalizing tokens with
  | nil =>
      cases first
      exact second
  | cons s rest ih =>
      cases first with
      | cons head tail =>
          rw [List.append_assoc]
          exact .cons head (ih tail)

theorem Instructions.single {tokens : List Token} {entry : Context.Entry}
    (derived : Instruction tokens entry)
    : Instructions tokens [entry] := by
  have instructions := Instructions.cons derived .nil
  rwa [List.append_nil] at instructions

/-- Declarations one after the other are declarations. -/
theorem Instructions.append {tokens more : List Token} {left right : List Context.Entry}
    (first : Instructions tokens left) (second : Instructions more right)
    : Instructions (tokens ++ more) (left ++ right) := by
  induction first with
  | nil => exact second
  | cons head _ ih =>
      rw [List.append_assoc]
      exact .cons head ih

end AgentLang.Grammar
