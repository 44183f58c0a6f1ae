import AgentLang.Context

/-! The calls of statements, and the names that are called through declarations. -/

namespace AgentLang

namespace Statement

mutual

/-- The names a statement calls, in the order of the text. -/
def calls : Statement → List String
  | block children => callsOfAll children
  | ifThen _ body => calls body
  | ifElse _ thenBody elseBody => calls thenBody ++ calls elseBody
  | whileDo _ body => calls body
  | call name => [name]

def callsOfAll : List Statement → List String
  | [] => []
  | child :: rest => calls child ++ callsOfAll rest

end

end Statement

namespace Context

/-- The names that calls of the given names come to, directly or through the bodies declared
under names that are reached.
-/
inductive Reached (context : Context) (start : List String) : String → Prop
  | called {name} (member : name ∈ start) : Reached context start name
  | through {name middle body} (reached : Reached context start middle)
    (found : context.get? middle = some body) (member : name ∈ body.calls)
    : Reached context start name

namespace Reached

variable {context : Context} {start : List String} {name : String}

/-- What is reached from names that are reached is reached. -/
theorem trans {next : List String} (h : context.Reached next name)
    (reached : ∀ other ∈ next, context.Reached start other)
    : context.Reached start name := by
  induction h with
  | called member => exact reached _ member
  | through _ found member ih => exact .through ih found member

/-- A context that agrees with another on all that is reached in that one reaches no more. -/
theorem of_agree {other : Context} (h : other.Reached start name)
    (agree : ∀ reached, context.Reached start reached → other.get? reached = context.get? reached)
    : context.Reached start name := by
  induction h with
  | called member => exact .called member
  | through _ found member ih => exact .through ih ((agree _ ih).symm.trans found) member

/-- Fewer declarations reach less. -/
theorem of_erase {erased : String} (h : (context.erase erased).Reached start name)
    : context.Reached start name := by
  induction h with
  | called member => exact .called member
  | through _ found member ih =>
      rw [get?_erase] at found
      split at found
      · cases found
      · exact .through ih found member

/-- The calls of a declared body are reached from its name, also without its declaration. -/
theorem of_body {declared callee : String} {body : Statement}
    (found : context.get? declared = some body) (member : callee ∈ body.calls)
    (h : (context.erase declared).Reached [callee] name)
    : context.Reached [declared] name := by
  apply h.of_erase.trans
  intro other same
  rw [List.mem_singleton.mp same]
  exact .through (.called (List.mem_singleton_self _)) found member

end Reached

end Context

end AgentLang
