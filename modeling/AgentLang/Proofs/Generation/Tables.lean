import AgentLang.Code.Generator
import AgentLang.Proofs.Declarations

/-! Generating code from declarations that stand in no order. A table lists its entries as they
happen to be laid out, and lays them out anew whenever one is taken out or put in. The generator
looks declarations up by name only, so a walk over tables is the walk over the contexts they hold.
-/

namespace AgentLang

-----------------------------------------------------------------------------------------
-- Tables
-----------------------------------------------------------------------------------------

/-- Declarations in the order in which they are laid out, and how often they have changed. -/
structure Table where
  entries : List Context.Entry
  distinct : (entries.map (·.1)).Nodup
  changes : Nat

/-- The order that entries take at each change of a table. Any order may come of any change. -/
abbrev Table.Layout := Nat → Context.Order

namespace Table

def find? (table : Table) (name : String) : Option Statement :=
  Context.find? name table.entries

/-- The table changes to the given entries, which are laid out anew. -/
def change (layout : Layout) (table : Table) (entries : List Context.Entry)
    (distinct : (entries.map (·.1)).Nodup)
    : Table where
  entries := (layout table.changes).arrange entries
  distinct := (((layout table.changes).perm entries).map _).nodup_iff.mpr distinct
  changes := table.changes + 1

/-- The entries under other names keep distinct names. -/
theorem distinct_others (table : Table) (name : String)
    : ((table.entries.filter (·.1 != name)).map (·.1)).Nodup :=
  table.distinct.sublist (List.filter_sublist.map _)

/-- Takes out what is declared under a name. -/
def erase (layout : Layout) (table : Table) (name : String) : Table :=
  table.change layout (table.entries.filter (·.1 != name)) (table.distinct_others name)

/-- Declares a body under a name, in place of what was declared there. -/
def insert (layout : Layout) (table : Table) (name : String) (body : Statement) : Table :=
  table.change layout ((name, body) :: table.entries.filter (·.1 != name)) (by
    rw [List.map_cons, List.nodup_cons]
    refine ⟨?_, table.distinct_others name⟩
    intro member
    obtain ⟨entry, listed, same⟩ := List.mem_map.mp member
    simp [same] at listed)

/-- The context that a table lays out. -/
def context (table : Table) : Context := .ofList table.entries

theorem get?_context (table : Table) (name : String)
    : table.context.get? name = table.find? name :=
  Context.get?_ofList table.distinct name

theorem get?_context_change (layout : Layout) (table : Table) (entries : List Context.Entry)
    (distinct : (entries.map (·.1)).Nodup) (name : String)
    : (table.change layout entries distinct).context.get? name = Context.find? name entries := by
  rw [context, change, Context.ofList_perm distinct ((layout table.changes).perm entries),
    Context.get?_ofList distinct]

/-- Taking out a declaration takes it out of the context. -/
theorem context_erase (layout : Layout) (table : Table) (name : String)
    : (table.erase layout name).context = table.context.erase name := by
  apply Context.ext_get?
  intro other
  rw [erase, get?_context_change, Context.find?_filter, Context.get?_erase, get?_context, find?]

/-- Declaring a body declares it in the context. -/
theorem context_insert (layout : Layout) (table : Table) (name : String) (body : Statement)
    : (table.insert layout name body).context = table.context.insert name body := by
  apply Context.ext_get?
  intro other
  rw [insert, get?_context_change, Context.find?, Context.find?_filter, Context.get?_insert,
    get?_context, find?]
  split <;> rfl

/-- Tables of a layout keep declarations. -/
def store (layout : Layout) : Generator.Store Table := ⟨find?, erase layout, insert layout⟩

end Table

-----------------------------------------------------------------------------------------
-- Stores seen through others
-----------------------------------------------------------------------------------------

namespace Generator

section

variable {α β γ δ ε : Type}

/-- Of two computations in step the views of the results are in step. -/
theorem map_bind_eq {first : Except ε α} {first' : Except ε γ} {next : α → Except ε β}
    {next' : γ → Except ε δ} {look : α → γ} {see : β → δ} (same : first.map look = first')
    (onward : ∀ value, (next value).map see = next' (look value))
    : (first >>= next).map see = first' >>= next' := by
  subst same
  cases first with
  | error cause => rfl
  | ok value => exact onward value

end

variable {σ τ α β : Type} {look : σ → τ}

/-- Every operation on a store shows as the one of the same name on another. -/
structure Store.Shows (store : Store σ) (store' : Store τ) (look : σ → τ) : Prop where
  find? : ∀ held name, store'.find? (look held) name = store.find? held name
  erase : ∀ held name, look (store.erase held name) = store'.erase (look held) name
  insert
    : ∀ held name body, look (store.insert held name body) = store'.insert (look held) name body

/-- The emitter with what is seen of its declarations in place of them. -/
def Emitter.view (look : σ → τ) (emitter : Emitter σ) : Emitter τ :=
  ⟨emitter.code, look emitter.context, emitter.expanding⟩

namespace Visit

def view (look : σ → τ) (visit : Visit σ α) : Visit τ α :=
  ⟨visit.tree, visit.emitter.view look, visit.fault⟩

theorem fault_view (visit : Visit σ α) : (visit.view look).fault = visit.fault := rfl

theorem view_close (visit : Visit σ α) {closing : Emitter σ → Emitter σ}
    {closing' : Emitter τ → Emitter τ}
    (same : ∀ emitter, (closing emitter).view look = closing' (emitter.view look))
    : (visit.close closing).view look = (visit.view look).close closing' := by
  unfold close
  rw [fault_view]
  split
  · rfl
  · simp only [view, same]

theorem map_rebuild (visit : Visit σ α) (assemble : α → Except Violation β)
    : (visit.rebuild assemble).map (view look) = (visit.view look).rebuild assemble := by
  unfold rebuild
  cases assembled : assemble visit.tree with
  | error violation => simp [view, assembled, bind, Except.bind, Except.map]
  | ok tree => simp [view, assembled, bind, Except.bind, Except.map, pure, Except.pure]

/-- A tree put together behind the closing of a construct. -/
theorem map_rebuild_close (visit : Visit σ α) {closing : Emitter σ → Emitter σ}
    {closing' : Emitter τ → Emitter τ} (assemble : α → Except Violation β)
    (same : ∀ emitter, (closing emitter).view look = closing' (emitter.view look))
    : ((visit.close closing).rebuild assemble).map (view look)
      = ((visit.view look).close closing').rebuild assemble := by
  rw [map_rebuild, view_close visit same]

theorem outcome_view (visit : Visit σ α) (name : String)
    : (visit.view look).outcome name = visit.outcome name := by
  unfold outcome
  rw [fault_view]
  rfl

end Visit

/-- Callers do the same to declarations and to what is seen of them. -/
def Caller.Shows (call : Caller σ) (call' : Caller τ) (look : σ → τ) : Prop :=
  ∀ emitter name, (call emitter name).map (Visit.view look) = call' (emitter.view look) name

theorem view_closeLoop (style : JumpStyle) (head : UInt32) (slot : Nat) (emitter : Emitter σ)
    : (closeLoop style head slot emitter).view look
      = closeLoop style head slot (emitter.view look) := by
  cases style <;> rfl

mutual

/-- A walk shows as the walk over what is seen of the declarations, by the constructs of the
statement.
-/
theorem map_visit (style : JumpStyle) {call : Caller σ} {call' : Caller τ}
    (shows : call.Shows call' look) (emitter : Emitter σ) (s : Statement)
    : (visit style call emitter s).map (Visit.view look)
      = visit style call' (emitter.view look) s := by
  cases s with
  | block children =>
      simp only [visit]
      apply map_bind_eq (map_visitAll _ shows emitter children)
      intro inner
      exact inner.map_rebuild _
  | ifThen condition body =>
      simp only [visit]
      apply map_bind_eq (map_visit _ shows (emitter.jump (.jumpUnless condition) 0) body)
      intro inner
      exact (inner.patch emitter.slot).map_rebuild _
  | ifElse condition thenBody elseBody =>
      simp only [visit]
      apply map_bind_eq (map_visit _ shows (emitter.jump (.jumpUnless condition) 0) thenBody)
      intro first
      by_cases fault : first.fault.isSome = true
      · simp only [Visit.fault_view, fault, ↓reduceIte]
        exact first.map_rebuild _
      · simp only [Visit.fault_view, fault]
        cases style with
        | single =>
            apply map_bind_eq (map_visit _ shows (first.emitter.patch emitter.slot) elseBody)
            intro second
            exact second.map_rebuild_close _ fun _ => rfl
        | structured =>
            apply map_bind_eq
              (map_visit _ shows ((first.emitter.jump .jump 0).patch emitter.slot) elseBody)
            intro second
            exact second.map_rebuild_close _ fun _ => rfl
  | whileDo condition body =>
      simp only [visit]
      apply map_bind_eq (map_visit _ shows (emitter.jump (.jumpUnless condition) 0) body)
      intro inner
      exact inner.map_rebuild_close _ (view_closeLoop style emitter.here emitter.slot)
  | call name =>
      simp only [visit]
      apply map_bind_eq (shows emitter name)
      intro inner
      exact inner.map_rebuild _
termination_by sizeOf s

theorem map_visitAll (style : JumpStyle) {call : Caller σ} {call' : Caller τ}
    (shows : call.Shows call' look) (emitter : Emitter σ) (children : List Statement)
    : (visitAll style call emitter children).map (Visit.view look)
      = visitAll style call' (emitter.view look) children := by
  cases children with
  | nil => rfl
  | cons child rest =>
      simp only [visitAll]
      apply map_bind_eq (map_visit _ shows emitter child)
      intro first
      apply map_bind_eq (congrFun Except.map_id first.tree.asChild)
      intro kept
      by_cases fault : first.fault.isSome = true
      · simp only [Visit.fault_view, fault, ↓reduceIte]
        rfl
      · simp only [Visit.fault_view, fault]
        apply map_bind_eq (map_visitAll _ shows first.emitter rest)
        intro later
        exact later.map_rebuild _
termination_by sizeOf children

end

theorem view_leaf (emitter : Emitter σ) (name : String)
    : (leaf emitter name).view look = leaf (emitter.view look) name := by
  by_cases inside : emitter.expanding.contains name = true
  · simp only [leaf, Emitter.view, inside, ↓reduceIte]
    rfl
  · simp only [leaf, Emitter.view, inside]
    cases Primitive.ofWord? name <;> rfl

/-- An expanded call shows as the call expanded from what is seen of the declarations, by
induction on the depth: what is taken out of the one store is taken out of the other, and is put
back into both.
-/
theorem Store.Shows.expand {store : Store σ} {store' : Store τ} (shows : store.Shows store' look)
    (style : JumpStyle) (depth : Nat)
    : Caller.Shows (store.expand style depth) (store'.expand style depth) look := by
  induction depth with
  | zero =>
      intro emitter name
      exact congrArg Except.ok (view_leaf emitter name)
  | succ depth ih =>
      intro emitter name
      have looked : store'.find? (emitter.view look).context name
          = store.find? emitter.context name :=
        shows.find? emitter.context name
      cases found : store.find? emitter.context name with
      | none =>
          simp only [Store.expand, looked, found]
          exact congrArg Except.ok (view_leaf emitter name)
      | some body =>
          have begun : (emitter.beginCall store name).view look
              = (emitter.view look).beginCall store' name := by
            simp only [Emitter.view, Emitter.beginCall, shows.erase]
          have walked := map_visit style ih (emitter.beginCall store name) body
          rw [begun] at walked
          simp only [Store.expand, looked, found]
          apply map_bind_eq walked
          intro inner
          simp only [Visit.view, Emitter.view, Emitter.endCall, shows.insert, pure, Except.pure,
            Except.map]

end Generator

-----------------------------------------------------------------------------------------
-- Code from a table
-----------------------------------------------------------------------------------------

namespace Table

open Generator

/-- A table shows as the context that it lays out. -/
theorem store_shows (layout : Layout) : (store layout).Shows Context.store context where
  find? := get?_context
  erase := context_erase layout
  insert := context_insert layout

/-- How generating code ends for a program whose declarations the table lays out. -/
def generate (layout : Layout) (style : JumpStyle) (name : String) (table : Table)
    (body : Statement)
    : Outcome :=
  match visit style ((store layout).expand style table.entries.length) (.start table) body with
  | .error violation => .broken violation
  | .ok result =>
      match Statement.requireBlock .exchangedBodyNotBlock result.tree with
      | .error violation => .broken violation
      | .ok _ => result.outcome name

/-- Generating code from a table ends as it does for the program whose context is laid out. -/
theorem generate_eq (layout : Layout) (style : JumpStyle) {table : Table} {program : Program}
    (laidOut : table.entries.Perm program.context.entries)
    : table.generate layout style program.name program.body = (program.generate style).2 := by
  have same : table.context = program.context := Context.ofList_of_perm laidOut
  have depth : table.entries.length = program.context.size := laidOut.length_eq
  have walked :=
    map_visit style ((store_shows layout).expand style table.entries.length) (.start table)
      program.body
  rw [Emitter.view, Emitter.start, same, depth] at walked
  simp only [generate, Program.generate, Emitter.start, depth, ← walked]
  cases visit style ((store layout).expand style program.context.size) ⟨#[], table, []⟩
      program.body with
  | error violation => rfl
  | ok result =>
      simp only [Except.map, Program.swapContext, Program.swapBody, Visit.outcome_view]
      cases kept : Statement.requireBlock .exchangedBodyNotBlock result.tree with
      | error violation => simp [Visit.view, kept, bind, Except.bind]
      | ok _ => simp [Visit.view, kept, bind, Except.bind, pure, Except.pure]

end Table

end AgentLang
