import AgentLang.Proofs.Lexing.Words
import AgentLang.Proofs.Printing.Normal
import AgentLang.Proofs.Reading.Soundness

/-! Reading the canonical source of a program gives the normal form of the program. The source is
followed line by line: each line has the tokens of its words, and the tokens of the lines derive
what the lines were printed from.
-/

namespace AgentLang

open Grammar Statement
open Program.Reader (Construct)

-----------------------------------------------------------------------------------------
-- Lines
-----------------------------------------------------------------------------------------

/-- The tokens of a line, whatever lines follow it. -/
def OnLine (line : String) (tokens : List Token) : Prop :=
  ∀ rest, Token.split (line.toList ++ '\n' :: rest) = tokens ++ Token.split rest

/-- The tokens of lines one after the other. -/
inductive OnLines : List String → List Token → Prop
  | nil : OnLines [] []
  | cons {line lines tokens more} (first : OnLine line tokens) (later : OnLines lines more)
    : OnLines (line :: lines) (tokens ++ more)

namespace OnLine

theorem empty : OnLine "" [] := by
  intro rest
  exact Token.split_blank rfl rest

theorem word {word : String} (wordChars : isWord word = true) : OnLine word [word] := by
  intro rest
  exact Token.split_word_blank wordChars rfl rest

/-- One more word in front of a line, with a blank behind it. -/
theorem cons {word line : String} {tokens : List Token} (wordChars : isWord word = true)
    (onLine : OnLine line tokens)
    : OnLine (word ++ " " ++ line) (word :: tokens) := by
  intro rest
  have parted : (word ++ " " ++ line).toList ++ '\n' :: rest
      = word.toList ++ ' ' :: (line.toList ++ '\n' :: rest) := by
    simp
  rw [parted, Token.split_word_blank wordChars rfl, onLine rest]
  rfl

/-- Blanks in front of a line change none of its tokens. -/
theorem indented {line : String} {tokens : List Token} (onLine : OnLine line tokens) (indent : Nat)
    : OnLine (padding indent ++ line) tokens := by
  intro rest
  rw [String.toList_append, padding, String.toList_ofList, List.append_assoc]
  induction indent with
  | zero => exact onLine rest
  | succ indent ih =>
      rw [List.replicate_succ, List.cons_append, Token.split_blank rfl, ih]

theorem two (first second : String) (isFirst : isWord first = true)
    (isSecond : isWord second = true)
    : OnLine (first ++ " " ++ second) [first, second] :=
  cons isFirst (word isSecond)

theorem three (first second third : String) (isFirst : isWord first = true)
    (isSecond : isWord second = true) (isThird : isWord third = true)
    : OnLine (first ++ " " ++ second ++ (" " ++ third)) [first, second, third] := by
  have onLine := cons isFirst (two second third isSecond isThird)
  simpa only [String.append_assoc] using onLine

/-- The line in front of a body. -/
theorem opening (construct : Construct) (c : Condition) (indent : Nat)
    : OnLine (padding indent ++ (construct.word ++ " ") ++ c.keyword ++ (" " ++ construct.bodyWord))
        [construct.word, c.keyword, construct.bodyWord] := by
  have words : isWord construct.word = true ∧ isWord construct.bodyWord = true := by
    cases construct <;> exact ⟨rfl, rfl⟩
  have onLine := (three _ _ _ words.1 (isWord_keyword c) words.2).indented indent
  simpa only [String.append_assoc] using onLine

/-- The line behind a body. -/
theorem closing (construct : Construct) (indent : Nat)
    : OnLine (padding indent ++ ("END " ++ construct.word)) ["END", construct.word] := by
  have words : isWord "END" = true ∧ isWord construct.word = true := by
    cases construct <;> exact ⟨rfl, rfl⟩
  exact (two "END" construct.word words.1 words.2).indented indent

/-- The line at the beginning of what has a name. -/
theorem header (word : String) (wordChars : isWord word = true) {name : String}
    (identifier : isIdentifier name = true)
    : OnLine (word ++ " " ++ name ++ " IS") [word, name, "IS"] :=
  three word name "IS" wordChars (isWord_of_isIdentifier identifier) rfl

/-- The line at the end of what has a name. -/
theorem ending {name : String} (identifier : isIdentifier name = true)
    : OnLine ("END " ++ name) ["END", name] :=
  two "END" name rfl (isWord_of_isIdentifier identifier)

end OnLine

namespace OnLines

theorem single {line : String} {tokens : List Token} (onLine : OnLine line tokens)
    : OnLines [line] tokens := by
  have onLines := OnLines.cons onLine .nil
  rwa [List.append_nil] at onLines

theorem append {left right : List String} {tokens more : List Token} (first : OnLines left tokens)
    (second : OnLines right more)
    : OnLines (left ++ right) (tokens ++ more) := by
  induction first with
  | nil => exact second
  | cons head _ ih =>
      rw [List.append_assoc]
      exact .cons head ih

/-- A text of lines has the tokens of its lines, by induction on the lines. -/
theorem ofSource {lines : List String} {tokens : List Token} (onLines : OnLines lines tokens)
    : Token.ofSource (Text.unlines lines) = tokens := by
  unfold Token.ofSource
  induction onLines with
  | nil => exact Token.split_nil
  | @cons line lines tokens more first _ ih =>
      have parted : (Text.unlines (line :: lines)).toList
          = line.toList ++ '\n' :: (Text.unlines lines).toList := by
        simp [Text.unlines, String.join_cons]
      rw [parted, first, ih]

end OnLines

-----------------------------------------------------------------------------------------
-- Statements and programs
-----------------------------------------------------------------------------------------

mutual

/-- The tokens of a printed statement derive what the statement is in a block, by the form of the
statement. Blocks leave no token of their own, so the lines of their children derive a block
together.
-/
theorem printed_statement (s : Statement) (named : ∀ name ∈ s.calls, isIdentifier name = true)
    (indent : Nat)
    : ∃ tokens, OnLines (s.lines indent) tokens ∧ Block tokens s.flatten := by
  cases s with
  | block children => exact printed_statements children named indent
  | ifThen c body =>
      obtain ⟨inner, printed, block⟩ := printed_statement body named (indent + indentStep)
      refine ⟨["IF", c.keyword, "THEN"] ++ (inner ++ ["END", "IF"]), ?_, .single ?_⟩
      · exact .cons (.opening .choice c indent) (printed.append (.single (.closing .choice indent)))
      · simpa using Stmt.ifThen (c := c) block
  | ifElse c thenBody elseBody =>
      obtain ⟨inner, printed, block⟩ := printed_statement thenBody
        (fun name called => named name (List.mem_append_left _ called)) (indent + indentStep)
      obtain ⟨more, printedElse, elseBlock⟩ := printed_statement elseBody
        (fun name called => named name (List.mem_append_right _ called)) (indent + indentStep)
      have between : OnLine (padding indent ++ "ELSE") ["ELSE"] :=
        (OnLine.word rfl).indented indent
      refine ⟨
        ["IF", c.keyword, "THEN"] ++ (inner ++ (["ELSE"] ++ (more ++ ["END", "IF"]))),
        ?_,
        .single ?_
      ⟩
      · have second := printedElse.append (.single (.closing .choice indent))
        exact .cons (.opening .choice c indent) (printed.append (.cons between second))
      · simpa using Stmt.ifElse (c := c) block elseBlock
  | whileDo c body =>
      obtain ⟨inner, printed, block⟩ := printed_statement body named (indent + indentStep)
      refine ⟨["WHILE", c.keyword, "DO"] ++ (inner ++ ["END", "WHILE"]), ?_, .single ?_⟩
      · exact .cons (.opening .loop c indent) (printed.append (.single (.closing .loop indent)))
      · simpa using Stmt.whileDo (c := c) block
  | call name =>
      have identifier := named name (List.mem_singleton.mpr rfl)
      have onLine := (OnLine.word (isWord_of_isIdentifier identifier)).indented indent
      exact ⟨[name], .single onLine, .single (.call identifier)⟩

theorem printed_statements (children : List Statement)
    (named : ∀ name ∈ callsOfAll children, isIdentifier name = true) (indent : Nat)
    : ∃ tokens, OnLines (linesOfAll indent children) tokens
        ∧ Block tokens (flattenAll children) := by
  cases children with
  | nil => exact ⟨[], .nil, .nil⟩
  | cons child rest =>
      obtain ⟨tokens, printed, block⟩ := printed_statement child
        (fun name called => named name (List.mem_append_left _ called)) indent
      obtain ⟨more, printedRest, blockRest⟩ := printed_statements rest
        (fun name called => named name (List.mem_append_right _ called)) indent
      exact ⟨tokens ++ more, printed.append printedRest, block.append blockRest⟩

end

/-- The tokens of a printed declaration derive the declaration of the normal body. -/
theorem printed_declaration {entry : Context.Entry} (identifier : isIdentifier entry.1 = true)
    (free : Primitive.ofWord? entry.1 = none)
    (named : ∀ name ∈ entry.2.calls, isIdentifier name = true)
    : ∃ tokens, OnLines (Program.declarationLines entry) tokens
        ∧ Instruction tokens (entry.1, entry.2.normalBody) := by
  obtain ⟨inner, printed, block⟩ := printed_statement entry.2 named (2 * indentStep)
  have opening : OnLine (padding indentStep ++ "INSTRUCTION " ++ entry.1 ++ " IS")
      ["INSTRUCTION", entry.1, "IS"] := by
    have onLine : OnLine ("INSTRUCTION " ++ entry.1 ++ " IS") ["INSTRUCTION", entry.1, "IS"] :=
      .header "INSTRUCTION" rfl identifier
    simpa only [String.append_assoc] using onLine.indented indentStep
  have closing : OnLine (padding indentStep ++ "END " ++ entry.1) ["END", entry.1] := by
    rw [String.append_assoc]
    exact (OnLine.ending identifier).indented indentStep
  -- The empty line in front of the declaration has no token.
  refine ⟨[] ++ (["INSTRUCTION", entry.1, "IS"] ++ (inner ++ ["END", entry.1])), ?_, ?_⟩
  · exact .cons .empty (.cons opening (printed.append (.single closing)))
  · have derived := Instruction.declare identifier free block
    rwa [List.append_assoc] at derived

/-- The tokens of printed declarations derive them with normal bodies. -/
theorem printed_declarations (entries : List Context.Entry)
    (declared : ∀ entry ∈ entries, isIdentifier entry.1 = true ∧ Primitive.ofWord? entry.1 = none)
    (named : ∀ entry ∈ entries, ∀ name ∈ entry.2.calls, isIdentifier name = true)
    : ∃ tokens, OnLines (entries.flatMap Program.declarationLines) tokens
        ∧ Instructions tokens (entries.map fun entry => (entry.1, entry.2.normalBody)) := by
  induction entries with
  | nil => exact ⟨[], .nil, .nil⟩
  | cons entry rest ih =>
      obtain ⟨identifier, free⟩ := declared entry List.mem_cons_self
      obtain ⟨tokens, printed, derived⟩ :=
        printed_declaration identifier free (named entry List.mem_cons_self)
      obtain ⟨more, printedRest, derivedRest⟩ := ih
        (fun other member => declared other (List.mem_cons_of_mem _ member))
        (fun other member => named other (List.mem_cons_of_mem _ member))
      exact ⟨tokens ++ more, printed.append printedRest, .cons derived derivedRest⟩

namespace Program

/-- The tokens of a printed program derive its normal form. -/
theorem derives_render {program : Program} (named : program.Named)
    : Derives (Token.ofSource program.render) program.normal := by
  have namedEntries : ∀ entry ∈ program.context.entries, ∀ name ∈ entry.2.calls,
      isIdentifier name = true := by
    intro entry member name called
    exact named.calls name (List.mem_append_left _ (List.mem_flatMap.mpr ⟨entry, member, called⟩))
  have namedBody : ∀ name ∈ program.body.calls, isIdentifier name = true := by
    intro name called
    exact named.calls name (List.mem_append_right _ called)
  obtain ⟨declared, printedDeclared, instructions⟩ := printed_declarations program.context.entries
    (fun entry member => named.declared entry.1 (List.mem_map_of_mem member)) namedEntries
  obtain ⟨inner, printed, block⟩ := printed_statement program.body namedBody indentStep
  have header : OnLine ("PROGRAM " ++ program.name ++ " IS") ["PROGRAM", program.name, "IS"] :=
    .header "PROGRAM" rfl named.name
  have begin : OnLine "BEGIN" ["BEGIN"] := .word rfl
  have onLines : OnLines program.lines
      (["PROGRAM", program.name, "IS"]
        ++ (declared ++ ([] ++ (["BEGIN"] ++ (inner ++ ["END", program.name]))))) :=
    .cons header (printedDeclared.append
      (.cons .empty (.cons begin (printed.append (.single (.ending named.name))))))
  -- The entries stand in the order of their names, so declaring them gives the context again.
  have normalInstructions : Instructions declared program.normal.context.entries := instructions
  have derived := Derives.program named.name normalInstructions
    program.normal.context.names_nodup block
  rw [Context.ofList_entries] at derived
  rw [render, onLines.ofSource]
  simp only [List.append_assoc, List.nil_append] at derived ⊢
  exact derived

/-- Reading a printed program gives its normal form. -/
theorem ofSource_render {program : Program} (named : program.Named)
    : ofSource program.render = .ok program.normal := by
  rw [ofSource, Reader.read_of_derives (derives_render named)]

/-- A program that was read is read again from its canonical source. -/
theorem ofSource_render_of_read {program : Program} {tokens : List Token}
    (accepted : (read tokens).result = .ok program)
    : ofSource program.render = .ok program := by
  have derived := Reader.derives_of_read accepted
  rw [ofSource_render derived.named, derived.normal_eq]

/-- Printing and reading normalise a program, and the canonical source shows its normal form
only. Programs that were read are normal, so they come back as they were, and two of them with the
same canonical source are the same.
-/
theorem render_read_normalises (program : Program)
    : (program.Named
        → ofSource program.render = .ok program.normal
          ∧ program.normal.render = program.render)
      ∧ (∀ tokens,
          (read tokens).result = .ok program → ofSource program.render = .ok program)
      ∧ ∀ other tokens otherTokens,
          (read tokens).result = .ok program
          → (read otherTokens).result = .ok other
          → program.render = other.render
          → program = other := by
  refine ⟨?_, ?_, ?_⟩
  · intro named
    exact ⟨ofSource_render named, render_normal program⟩
  · intro tokens accepted
    exact ofSource_render_of_read accepted
  · intro other tokens otherTokens accepted otherAccepted same
    have again := ofSource_render_of_read accepted
    rw [same, ofSource_render_of_read otherAccepted] at again
    exact (Except.ok.inj again).symm

/-- A program that is not normal: its body is no block, a body holds blocks in a block, and so
does the body of its instruction.
-/
def nested : Program where
  name := "nested"
  context := .ofList [("spin", .block [.block [.call "turnleft"], .call "turnleft"])]
  body := .ifElse .random (.call "spin") (.block [.block [.block [], .call "move"]])

theorem render_read_normalises_nested
    : nested.Named
      ∧ ofSource nested.render = .ok
          ⟨"nested", .ofList [("spin", .block [.call "turnleft", .call "turnleft"])],
            .block [.ifElse .random (.block [.call "spin"]) (.block [.call "move"])]⟩
      ∧ ofSource nested.normal.render = .ok nested.normal := by
  have named : nested.Named := ⟨by decide, by decide, by decide⟩
  have printed := (render_read_normalises nested).1 named
  refine ⟨named, printed.1, ?_⟩
  rw [printed.2]
  exact printed.1

end Program

end AgentLang
