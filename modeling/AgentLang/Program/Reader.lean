import AgentLang.Opcode
import AgentLang.ParseError
import AgentLang.Program
import AgentLang.Token

/-! Reading a program from its tokens:

    program     ::= PROGRAM name IS instruction* BEGIN block END name
    instruction ::= INSTRUCTION name IS block END name
    block       ::= statement*
    statement   ::= IF condition THEN block [ELSE block] END IF
                  | WHILE condition DO block END WHILE
                  | name

The reader takes one token at a time. Its state holds what has been read and says what may
come next, so it stops at the first token with which no program goes on.
-/

namespace AgentLang.Program

namespace Reader

/-- The two constructs with a condition. -/
inductive Construct where
  | choice
  | loop
  deriving DecidableEq, Repr

/-- The word that opens a construct, and closes it behind END. -/
def Construct.word : Construct → String
  | choice => "IF"
  | loop => "WHILE"

/-- The word between the condition and the body. -/
def Construct.bodyWord : Construct → String
  | choice => "THEN"
  | loop => "DO"

/-- A construct whose body is being read, with the statements before it in the enclosing
block, last first.
-/
inductive Frame where
  | thenPart (condition : Condition) (before : List Statement)
  | elsePart (condition : Condition) (thenBody : Statement) (before : List Statement)
  | loopPart (condition : Condition) (before : List Statement)
  deriving DecidableEq

def Frame.opening (construct : Construct) (condition : Condition) (before : List Statement)
    : Frame :=
  match construct with
  | .choice => .thenPart condition before
  | .loop => .loopPart condition before

/-- What is known of the program once its declarations are being read. -/
structure Heading where
  name : String
  context : Context
  deriving DecidableEq

/-- Whose body is being read. -/
inductive Owner where
  | instruction (name : String)
  | main
  deriving DecidableEq

/-- The word that opens the owner's text. -/
def Owner.word : Owner → String
  | instruction _ => "INSTRUCTION"
  | main => "PROGRAM"

/-- The name that has to close the owner's body. -/
def Owner.name (heading : Heading) : Owner → String
  | instruction name => name
  | main => heading.name

/-- A place inside a body: the open constructs, innermost first, and the statements read so
far in the innermost block, last first.
-/
structure Place where
  heading : Heading
  owner : Owner
  frames : List Frame
  read : List Statement
  deriving DecidableEq

/-- The innermost block as far as it has been read. -/
def Place.body (place : Place) : Statement := .block place.read.reverse

/-- Adds a statement to the innermost block. -/
def Place.push (place : Place) (s : Statement) : Place :=
  { place with read := s :: place.read }

/-- Enters a new block inside the given construct. -/
def Place.enter (place : Place) (construct : Construct) (condition : Condition) : Place :=
  { place with frames := .opening construct condition place.read :: place.frames, read := [] }

/-- What has been read, by what may come next. -/
inductive State where
  | start
  | programName
  | programIs (name : String)
  | declarations (heading : Heading)
  | instructionName (heading : Heading)
  | instructionIs (heading : Heading) (name : String)
  | block (place : Place)
  | condition (construct : Construct) (place : Place)
  | bodyWord (construct : Construct) (condition : Condition) (place : Place)
  /-- Behind the END of a construct, which has joined the enclosing block. -/
  | endWord (construct : Construct) (place : Place)
  | closingName (heading : Heading) (owner : Owner) (body : Statement)
  | finished (program : Program)
  deriving DecidableEq

/-- Goes on when the token is the demanded word. -/
def demand (word : String) (token : Token) (next : State) : Except ParseError State :=
  if token = word then .ok next else .error (.grammar (.expected word token))

/-- Goes on when the token is an identifier. -/
def identifier (token : Token) (next : State) : Except ParseError State :=
  if isIdentifier token then .ok next else .error (.grammar (.invalidIdentifier token))

/-- The token behind the last statement of a block. ELSE ends the first block of a choice; any
other block ends at END.
-/
def leave (place : Place) (token : Token) : Except ParseError State :=
  match place.frames with
  | [] => demand "END" token (.closingName place.heading place.owner place.body)
  | .thenPart condition before :: frames =>
      if token = "ELSE" then
        .ok (.block
          { place with frames := .elsePart condition place.body before :: frames, read := [] })
      else
        demand "END" token
          (.endWord .choice
            { place with frames, read := .ifThen condition place.body :: before })
  | .elsePart condition thenBody before :: frames =>
      demand "END" token
        (.endWord .choice
          { place with frames, read := .ifElse condition thenBody place.body :: before })
  | .loopPart condition before :: frames =>
      demand "END" token
        (.endWord .loop { place with frames, read := .whileDo condition place.body :: before })

/-- A body is complete: the program is, or one more instruction is declared, unless its name
is taken.
-/
def complete (heading : Heading) (body : Statement) : Owner → Except ParseError State
  | .main => .ok (.finished ⟨heading.name, heading.context, body⟩)
  | .instruction name =>
      if heading.context.contains name then
        .error (.contract (.duplicateInstruction name))
      else
        .ok (.declarations { heading with context := heading.context.insert name body })

/-- The state after one more token. -/
def step : State → Token → Except ParseError State
  | .start, token => demand "PROGRAM" token .programName
  | .programName, token => identifier token (.programIs token)
  | .programIs name, token => demand "IS" token (.declarations ⟨name, .empty⟩)
  | .declarations heading, token =>
      if token = "INSTRUCTION" then
        .ok (.instructionName heading)
      else
        demand "BEGIN" token (.block ⟨heading, .main, [], []⟩)
  | .instructionName heading, token =>
      if (Primitive.ofWord? token).isSome then
        .error (.grammar (.primitiveRedefinition token))
      else
        identifier token (.instructionIs heading token)
  | .instructionIs heading name, token =>
      demand "IS" token (.block ⟨heading, .instruction name, [], []⟩)
  | .block place, token =>
      if token = Construct.choice.word then
        .ok (.condition .choice place)
      else if token = Construct.loop.word then
        .ok (.condition .loop place)
      else if isIdentifier token then
        .ok (.block (place.push (.call token)))
      else
        leave place token
  | .condition construct place, token =>
      match Condition.ofKeyword? token with
      | some condition => .ok (.bodyWord construct condition place)
      | none => .error (.grammar (.invalidCondition token))
  | .bodyWord construct condition place, token =>
      demand construct.bodyWord token (.block (place.enter construct condition))
  | .endWord construct place, token => demand construct.word token (.block place)
  | .closingName heading owner body, token =>
      if token = owner.name heading then
        complete heading body owner
      else
        .error (.grammar (.mismatchedName owner.word (owner.name heading) token))
  | .finished _, token => .error (.grammar (.trailingInput token))

def endOfInput (wanted : String) : Except ParseError Program :=
  .error (.grammar (.unexpectedEnd wanted))

/-- The result when the input ends in a state. -/
def finish : State → Except ParseError Program
  | .start => endOfInput "PROGRAM"
  | .programName => endOfInput "an identifier"
  | .programIs _ => endOfInput "IS"
  | .declarations _ => endOfInput "BEGIN"
  | .instructionName _ => endOfInput "an identifier"
  | .instructionIs _ _ => endOfInput "IS"
  | .block _ => endOfInput "END"
  | .condition _ _ => endOfInput "a condition"
  | .bodyWord construct _ _ => endOfInput construct.bodyWord
  | .endWord construct _ => endOfInput construct.word
  | .closingName _ _ _ => endOfInput "a closing name"
  | .finished program => .ok program

/-- The result of a reading and the tokens it did not look at. -/
structure Reading where
  result : Except ParseError Program
  left : List Token

/-- Reads on from a state. The token that causes an error has been taken. -/
def run : State → List Token → Reading
  | state, [] => ⟨finish state, []⟩
  | state, token :: rest =>
      match step state token with
      | .ok next => run next rest
      | .error cause => ⟨.error cause, rest⟩

end Reader

/-- Reads a program from a token sequence. -/
def read (tokens : List Token) : Reader.Reading :=
  Reader.run .start tokens

/-- The program of a source text. -/
def ofSource (source : String) : Except ParseError Program :=
  (read (Token.ofSource source)).result

end AgentLang.Program
