/-! JSON values. A number keeps its literal, and the fields of an object keep their order. -/

namespace AgentLang

/-- An unpaired value is a string, or an object with a key, in which an escape names half of a
surrogate pair and nothing completes it: JSON by its grammar, but without a text.
-/
inductive Json where
  | null
  | bool (b : Bool)
  | number (literal : String)
  | string (text : String)
  | unpaired
  | array (items : List Json)
  | object (fields : List (String × Json))
  deriving Repr, Inhabited

end AgentLang
