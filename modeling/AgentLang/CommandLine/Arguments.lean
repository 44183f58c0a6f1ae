/-! Arguments of the command line: an input, possibly an output directory, and flags. They are
judged from left to right, and the first that settles the matter does.
-/

namespace AgentLang.CommandLine

structure Arguments where
  input : String
  output : Option String
  structuredJumps : Bool
  disassemble : Bool
  verbose : Bool
  deriving DecidableEq, Repr

/-- What the arguments ask for. -/
inductive Request where
  | run (arguments : Arguments)
  | version
  | help
  | refused
  deriving DecidableEq, Repr

/-- An option is a flag of a run, or asks for something else than a run. -/
inductive Switch where
  | structuredJumps
  | disassemble
  | verbose
  | version
  | help
  deriving DecidableEq, Repr

/-- A long option is known by its whole name only, and takes no value. -/
def Switch.ofLong? (name : String) : Option Switch :=
  if name = "--structured-jumps" then some .structuredJumps
  else if name = "--disassemble" then some .disassemble
  else if name = "--verbose" then some .verbose
  else if name = "--version" then some .version
  else if name = "--help" then some .help
  else none

def Switch.ofShort? (letter : Char) : Option Switch :=
  if letter = 'd' then some .disassemble
  else if letter = 'v' then some .verbose
  else if letter = 'V' then some .version
  else if letter = 'h' then some .help
  else none

/-- What the arguments so far have said: the switches and the positionals, last first. -/
structure Draft where
  switches : List Switch
  positionals : List String

namespace Draft

/-- A switch is given once, and version and help end the matter. -/
def switch (draft : Draft) (switch : Switch) : Except Request Draft :=
  if switch = .version then .error .version
  else if switch = .help then .error .help
  else if switch ∈ draft.switches then .error .refused
  else .ok { draft with switches := switch :: draft.switches }

def switch? (draft : Draft) (switch : Option Switch) : Except Request Draft :=
  match switch with
  | some switch => draft.switch switch
  | none => .error .refused

/-- There are at most two positionals, and none is empty. -/
def positional (draft : Draft) (text : String) : Except Request Draft :=
  if text = "" ∨ 2 ≤ draft.positionals.length then .error .refused
  else .ok { draft with positionals := text :: draft.positionals }

/-- An argument before the end of the options. A hyphen alone is a positional; behind one, a
letter each is a switch.
-/
def argument (draft : Draft) (text : String) : Except Request Draft :=
  match text.toList with
  | '-' :: '-' :: _ => draft.switch? (Switch.ofLong? text)
  | '-' :: letter :: letters =>
      (letter :: letters).foldlM (fun draft letter => draft.switch? (Switch.ofShort? letter)) draft
  | _ => draft.positional text

/-- Two hyphens alone end the options. -/
def arguments (draft : Draft) : List String → Except Request Draft
  | [] => .ok draft
  | text :: rest =>
      if text = "--" then
        rest.foldlM positional draft
      else do
        (← draft.argument text).arguments rest

/-- What the draft asks for when no argument settled it: a run, if there is an input. -/
def request (draft : Draft) : Request :=
  let run (input : String) (output : Option String) : Request :=
    .run
      {
        input
        output
        structuredJumps := draft.switches.contains .structuredJumps
        disassemble := draft.switches.contains .disassemble
        verbose := draft.switches.contains .verbose
      }
  match draft.positionals.reverse with
  | [input] => run input none
  | input :: output :: _ => run input (some output)
  | [] => .refused

end Draft

/-- What a list of arguments asks for. -/
def Request.ofArguments (arguments : List String) : Request :=
  match Draft.arguments ⟨[], []⟩ arguments with
  | .ok draft => draft.request
  | .error request => request

end AgentLang.CommandLine
