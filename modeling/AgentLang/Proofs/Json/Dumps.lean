import AgentLang.Json.Tree
import AgentLang.Proofs.Declarations
import AgentLang.Proofs.Json.Texts
import AgentLang.Proofs.Text.Decimals

/-! A dump loses nothing: its text is read as the program and the code it was written from.

Readers open a bounded number of arrays and objects inside one another, so the dump has to be
shallow enough for them. What is written needs as many levels of its reader as it is deep.
-/

namespace AgentLang

-----------------------------------------------------------------------------------------
-- Depth
-----------------------------------------------------------------------------------------

namespace Json

mutual

/-- How many arrays and objects stand inside one another. -/
def depth : Json → Nat
  | .array items => depthItems items + 1
  | .object fields => depthFields fields + 1
  | .null | .bool _ | .number _ | .string _ | .unpaired => 0

def depthItems : List Json → Nat
  | [] => 0
  | item :: items => max (depth item) (depthItems items)

def depthFields : List (String × Json) → Nat
  | [] => 0
  | (_, value) :: fields => max (depth value) (depthFields fields)

end

theorem depthFields_le_iff {fields : List (String × Json)} {n : Nat}
    : depthFields fields ≤ n ↔ ∀ field ∈ fields, field.2.depth ≤ n := by
  induction fields with
  | nil => simp [depthFields]
  | cons field fields ih => rw [depthFields, Nat.max_le, ih, List.forall_mem_cons]

theorem numericFields_iff {fields : List (String × Json)}
    : NumericFields fields ↔ ∀ field ∈ fields, field.2.Numeric := by
  induction fields with
  | nil => simp [NumericFields]
  | cons field fields ih => rw [NumericFields, ih, List.forall_mem_cons]

/-- A decimal is a number of JSON, as it has no zero in front. -/
theorem Token.isNumber_decimal (n : Nat) : Token.isNumber (toString n).toList = true := by
  rw [Text.toList_toString]
  cases n with
  | zero => rfl
  | succ n =>
      obtain ⟨c, rest, written, notZero⟩ := Text.decimal_of_pos n.succ_pos
      have digits : ∀ d ∈ c :: rest, d.isDigit = true := by
        intro d member
        rw [← written] at member
        exact Text.isDigit_of_mem_decimal member
      obtain ⟨first, others⟩ := List.forall_mem_cons.mp digits
      have sign : c ≠ '-' := by
        intro same
        rw [same] at first
        cases first
      have ends : (rest ++ []).dropWhile Char.isDigit = [] := List.dropWhile_append_of_pos others
      rw [List.append_nil] at ends
      rw [written]
      simp [isNumber, isUnsigned, sign, first, ends, isFraction, isExponent]

/-- Items that are each read from what they are written as are read one after the other. -/
theorem mapM_map_eq_some {α β : Type} {write : α → β} {read? : β → Option α} {items : List α}
    (back : ∀ item ∈ items, read? (write item) = some item)
    : (items.map write).mapM read? = some items := by
  induction items with
  | nil => rfl
  | cons item items ih =>
      obtain ⟨first, others⟩ := List.forall_mem_cons.mp back
      rw [List.map_cons, List.mapM_cons, first, ih others]
      rfl

end Json

-----------------------------------------------------------------------------------------
-- Statements, declarations and code
-----------------------------------------------------------------------------------------

theorem Condition.ofJson?_toJson (condition : Condition) (nesting : Nat)
    : ofJson? nesting condition.toJson = some condition :=
  condition.ofTag?_tag

namespace Statement

open Json

mutual

/-- There are no numbers in a statement. -/
theorem numeric_toJson (s : Statement) : s.toJson.Numeric := by
  match s with
  | block children => exact ⟨numeric_toJsonAll children, trivial⟩
  | ifThen _ body => exact ⟨⟨trivial, numeric_toJson body, trivial⟩, trivial⟩
  | ifElse _ thenBody elseBody =>
      exact ⟨⟨trivial, numeric_toJson thenBody, numeric_toJson elseBody, trivial⟩, trivial⟩
  | whileDo _ body => exact ⟨⟨trivial, numeric_toJson body, trivial⟩, trivial⟩
  | call _ => exact ⟨trivial, trivial⟩

theorem numeric_toJsonAll (children : List Statement) : NumericItems (toJsonAll children) := by
  match children with
  | [] => trivial
  | child :: rest => exact ⟨numeric_toJson child, numeric_toJsonAll rest⟩

end

mutual

/-- A statement is read from the value it is written as when the reader may open all of it. -/
theorem ofJson?_toJson (s : Statement) {nesting : Nat} (shallow : s.toJson.depth ≤ nesting)
    : ofJson? nesting s.toJson = some s := by
  match s with
  | block children =>
      simp only [toJson, depth, depthFields] at shallow
      obtain ⟨inside, rfl⟩ := Nat.exists_eq_add_of_le' (show 2 ≤ nesting by omega)
      have read := mapM_ofJson?_toJsonAll children (show _ ≤ inside by omega)
      simp [toJson, ofJson?, items?, read]
  | ifThen condition body =>
      simp only [toJson, depth, depthFields] at shallow
      obtain ⟨inside, rfl⟩ := Nat.exists_eq_add_of_le' (show 2 ≤ nesting by omega)
      have read := ofJson?_toJson body (show _ ≤ inside by omega)
      simp [toJson, ofJson?, record?, Condition.ofJson?_toJson, read]
  | ifElse condition thenBody elseBody =>
      simp only [toJson, depth, depthFields] at shallow
      obtain ⟨inside, rfl⟩ := Nat.exists_eq_add_of_le' (show 2 ≤ nesting by omega)
      have readThen := ofJson?_toJson thenBody (show _ ≤ inside by omega)
      have readElse := ofJson?_toJson elseBody (show _ ≤ inside by omega)
      simp [toJson, ofJson?, record?, Condition.ofJson?_toJson, readThen, readElse]
  | whileDo condition body =>
      simp only [toJson, depth, depthFields] at shallow
      obtain ⟨inside, rfl⟩ := Nat.exists_eq_add_of_le' (show 2 ≤ nesting by omega)
      have read := ofJson?_toJson body (show _ ≤ inside by omega)
      simp [toJson, ofJson?, record?, Condition.ofJson?_toJson, read]
  | call name =>
      -- A call takes one level, and a reader that has more comes to calls last.
      match nesting with
      | 0 => cases shallow
      | 1 => rfl
      | inside + 2 => simp [toJson, ofJson?, callOfJson?, text?]

theorem mapM_ofJson?_toJsonAll (children : List Statement) {nesting : Nat}
    (shallow : depthItems (toJsonAll children) ≤ nesting)
    : (toJsonAll children).mapM (ofJson? nesting) = some children := by
  match children with
  | [] => rfl
  | child :: rest =>
      obtain ⟨first, others⟩ := Nat.max_le.mp shallow
      rw [toJsonAll, List.mapM_cons, ofJson?_toJson child first,
        mapM_ofJson?_toJsonAll rest others]
      rfl

end

end Statement

namespace Context

theorem numeric_toJsonIn (order : List Entry) : (toJsonIn order).Numeric := by
  apply Json.numericFields_iff.mpr
  intro field member
  obtain ⟨entry, _, rfl⟩ := List.mem_map.mp member
  exact entry.2.numeric_toJson

/-- A context is read from its declarations in any order. -/
theorem ofJson?_toJsonIn {context : Context} {nesting : Nat}
    (shallow : context.toJson.depth ≤ nesting) {order : List Entry}
    (reordered : order.Perm context.entries)
    : ofJson? nesting (toJsonIn order) = some context := by
  match nesting with
  | 0 => cases shallow
  | inside + 1 =>
      have bodies := Json.depthFields_le_iff.mp (Nat.le_of_succ_le_succ shallow)
      have back : ∀ entry ∈ order,
          (Statement.ofJson? inside entry.2.toJson).map (entry.1, ·) = some entry := by
        intro entry member
        have listed := List.mem_map_of_mem (f := fun entry => (entry.1, entry.2.toJson))
          (reordered.mem_iff.mp member)
        rw [entry.2.ofJson?_toJson (bodies _ listed)]
        rfl
      rw [toJsonIn, ofJson?, Json.mapM_map_eq_some back, Option.map_some, ofList_of_perm reordered]

end Context

namespace Compiled

theorem numeric_toJson (compiled : Compiled) : compiled.toJson.Numeric := by
  have code : ∀ code : Code,
      Json.NumericItems (code.map fun word => .number (toString word.toNat)) := by
    intro code
    induction code with
    | nil => trivial
    | cons word code ih => exact ⟨Json.Token.isNumber_decimal word.toNat, ih⟩
  exact ⟨trivial, code compiled.code, trivial⟩

theorem ofJson?_toJson (compiled : Compiled) {nesting : Nat}
    (shallow : compiled.toJson.depth ≤ nesting)
    : ofJson? nesting compiled.toJson = some compiled := by
  simp only [toJson, Json.depth, Json.depthFields] at shallow
  obtain ⟨inside, rfl⟩ := Nat.exists_eq_add_of_le' (show 2 ≤ nesting by omega)
  have back : ∀ word ∈ compiled.code,
      Json.word? (.number (toString word.toNat)) = some word := by
    intro word _
    rw [Json.word?, Text.toList_toString, Text.word?_decimal]
  have parts : ofJson? (inside + 2) compiled.toJson
      = ((compiled.code.map fun word => Json.number (toString word.toNat)).mapM Json.word?).bind
          fun code => some ⟨compiled.name, code⟩ := rfl
  rw [parts, Json.mapM_map_eq_some back]
  rfl

end Compiled

-----------------------------------------------------------------------------------------
-- Dumps
-----------------------------------------------------------------------------------------

namespace Program

theorem numeric_toJsonIn (order : List Context.Entry) (program : Program)
    : (program.toJsonIn order).Numeric :=
  ⟨trivial, Context.numeric_toJsonIn order, program.body.numeric_toJson, trivial⟩

theorem ofJson?_toJsonIn {program : Program} {nesting : Nat}
    (shallow : program.toJson.depth ≤ nesting) {order : List Context.Entry}
    (reordered : order.Perm program.context.entries)
    : ofJson? nesting (program.toJsonIn order) = some program := by
  match nesting with
  | 0 => cases shallow
  | inside + 1 =>
      simp only [toJson, toJsonIn, Json.depth, Json.depthFields] at shallow
      have context := Context.ofJson?_toJsonIn
        (show (Context.toJsonIn program.context.entries).depth ≤ inside by omega) reordered
      have body := program.body.ofJson?_toJson (show _ ≤ inside by omega)
      simp [toJsonIn, ofJson?, Json.record?, Json.text?, context, body]

/-- The program and the code that a text holds as a dump. The dump is itself one of the objects
that the reader opens.
-/
def ofDump? (text : String) : Option (Program × Compiled) := do
  let [program, compiled] ← (← Json.ofText? text).record? ["program", "compiled"] | none
  let inside := Json.nestingLimit - 1
  return (← ofJson? inside program, ← Compiled.ofJson? inside compiled)

/-- A dump within the nesting limit is read as the very program and code it was written from,
whatever their names are, whatever shape the trees have and in whatever order the declarations
are listed.
-/
theorem dumps_lose_nothing (program : Program) (compiled : Compiled)
    (shallow : (program.dump compiled).depth ≤ Json.nestingLimit)
    : ofDump? (program.dump compiled).pretty = some (program, compiled)
      ∧ ∀ order : List Context.Entry,
          order.Perm program.context.entries →
          ofDump? (program.dumpIn order compiled).pretty = some (program, compiled) := by
  have anyOrder
      : ∀ order : List Context.Entry,
          order.Perm program.context.entries →
          ofDump? (program.dumpIn order compiled).pretty = some (program, compiled) := by
    intro order reordered
    have numeric : (program.dumpIn order compiled).Numeric :=
      ⟨program.numeric_toJsonIn order, compiled.numeric_toJson, trivial⟩
    simp only [dump, dumpIn, Json.depth, Json.depthFields] at shallow
    have source := ofJson?_toJsonIn
      (show (program.toJsonIn program.context.entries).depth ≤ Json.nestingLimit - 1 by omega)
      reordered
    have code := compiled.ofJson?_toJson (show _ ≤ Json.nestingLimit - 1 by omega)
    rw [ofDump?, Json.ofText?_pretty numeric]
    simp [dumpIn, Json.record?, source, code]
  -- The dump itself lists the declarations in the order of their names.
  exact ⟨anyOrder program.context.entries (.refl _), anyOrder⟩

/-- Names with quotes, control characters and letters of other alphabets, and trees of no shape. -/
def oddities : Program where
  name := "\"a\\b\"\n\x01"
  context := .ofList [("λ/\t", .block [.block []]), ("", .call "")]
  body := .ifElse .random (.call "é\x7f") (.whileDo .random (.block []))

theorem dumps_lose_nothing_oddities
    : (oddities.dump ⟨"\x00", [0, 4294967295]⟩).depth ≤ Json.nestingLimit
      ∧ ofDump?
            (oddities.dumpIn [("λ/\t", .block [.block []]), ("", .call "")]
              ⟨"\x00", [0, 4294967295]⟩).pretty
          = some (oddities, ⟨"\x00", [0, 4294967295]⟩) := by
  have shallow : (oddities.dump ⟨"\x00", [0, 4294967295]⟩).depth ≤ Json.nestingLimit := by decide
  obtain ⟨_, anyOrder⟩ := dumps_lose_nothing oddities _ shallow
  exact ⟨shallow, anyOrder _ (.swap _ _ _)⟩

end Program

end AgentLang
