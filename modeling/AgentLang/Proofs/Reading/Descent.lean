import AgentLang.Program.Reader

/-! Reading by descent: a function for each rule of the grammar takes its tokens off the front, and
every tree is put together by the operations that have contracts.
-/

namespace AgentLang.Program

open Reader

/-- A part of the descent. It takes tokens off the front and gives a value or an error, unless a
contract is broken on the way.
-/
def Descent (α : Type) : Type :=
  List Token → Except Violation (Except ParseError α × List Token)

namespace Descent

instance : Monad Descent where
  pure value := fun tokens => .ok (.ok value, tokens)
  bind first next := fun tokens =>
    match first tokens with
    | .ok (.ok value, rest) => next value rest
    | .ok (.error cause, left) => .ok (.error cause, left)
    | .error violation => .error violation

def refuse {α : Type} (cause : ParseError) : Descent α :=
  fun tokens => .ok (.error cause, tokens)

/-- Puts something together under a contract. -/
def make {α : Type} (result : Except Violation α) : Descent α :=
  fun tokens =>
    match result with
    | .ok value => .ok (.ok value, tokens)
    | .error violation => .error violation

/-- Looks at the next token and leaves it. -/
def peek : Descent (Option Token) :=
  fun tokens => .ok (.ok tokens.head?, tokens)

def next (wanted : String) : Descent Token
  | [] => .ok (.error (.grammar (.unexpectedEnd wanted)), [])
  | token :: rest => .ok (.ok token, rest)

def keyword (word : String) : Descent Unit := do
  let token ← next word
  if token = word then return () else refuse (.grammar (.expected word token))

def identifier : Descent String := do
  let token ← next "an identifier"
  if isIdentifier token then return token else refuse (.grammar (.invalidIdentifier token))

def closingName (owner declared : String) : Descent Unit := do
  let token ← next "a closing name"
  if token = declared then
    return ()
  else
    refuse (.grammar (.mismatchedName owner declared token))

def condition : Descent Condition := do
  let token ← next "a condition"
  match Condition.ofKeyword? token with
  | some condition => return condition
  | none => refuse (.grammar (.invalidCondition token))

/-- The words through the one in front of the body. -/
def opening (construct : Construct) : Descent Condition := do
  keyword construct.word
  let condition ← condition
  keyword construct.bodyWord
  return condition

def closing (construct : Construct) : Descent Unit := do
  keyword "END"
  keyword construct.word

def choice (block : Descent Statement) : Descent Statement := do
  let condition ← opening .choice
  let thenBody ← block
  if (← peek) = some "ELSE" then
    let _ ← next "ELSE"
    let elseBody ← block
    let s ← make (Statement.assembleIfElse condition thenBody elseBody)
    closing .choice
    return s
  else
    let s ← make (Statement.assembleIf condition thenBody)
    closing .choice
    return s

def loop (block : Descent Statement) : Descent Statement := do
  let condition ← opening .loop
  let body ← block
  closing .loop
  make (Statement.assembleWhile condition body)

/-- A statement, by how the blocks inside it are read. -/
def statement (block : Descent Statement) : Descent Statement := do
  let token ← peek
  if token = some Construct.choice.word then
    choice block
  else if token = some Construct.loop.word then
    loop block
  else
    let name ← identifier
    make (Statement.assembleCall name)

/-- A statement begins with the word of a construct or with a name. -/
def begins (token : Token) : Bool :=
  token == Construct.choice.word || token == Construct.loop.word || isIdentifier token

/-- Adds statements at the end of a block until the next token begins none. The first argument
bounds the number of statements and of blocks inside one another.
-/
def block : Nat → Statement → Descent Statement
  | 0, read => return read
  | bound + 1, read => do
      if (← peek).any begins then
        let s ← statement (block bound .empty)
        let position ← make read.length
        block bound (← make (read.insertAt position s))
      else
        return read

/-- A body; each statement and each block takes a token, so there are not more than tokens. -/
def body : Descent Statement :=
  fun tokens => block tokens.length .empty tokens

/-- A body with END and the name of its owner behind it. -/
def ownedBody (owner name : String) : Descent Statement := do
  let body ← body
  keyword "END"
  closingName owner name
  return body

def instruction : Descent Context.Entry := do
  keyword "INSTRUCTION"
  let name ← identifier
  if (Primitive.ofWord? name).isSome then
    refuse (.grammar (.primitiveRedefinition name))
  else
    keyword "IS"
    let body ← ownedBody "INSTRUCTION" name
    return (name, body)

def declarations : Nat → Context → Descent Context
  | 0, context => return context
  | bound + 1, context => do
      if (← peek) = some "INSTRUCTION" then
        let entry ← instruction
        if context.contains entry.1 then
          refuse (.contract (.duplicateInstruction entry.1))
        else
          declarations bound (context.insert entry.1 entry.2)
      else
        return context

def context : Descent Context :=
  fun tokens => declarations tokens.length .empty tokens

def program : Descent Program := do
  keyword "PROGRAM"
  let name ← identifier
  keyword "IS"
  let context ← context
  keyword "BEGIN"
  let body ← ownedBody "PROGRAM" name
  if (← peek).isSome then
    let extra ← next "PROGRAM"
    refuse (.grammar (.trailingInput extra))
  else
    make (Program.ofParts name context body)

end Descent

end AgentLang.Program
