import AgentLang.Statement

/-! Declared instructions by name. The entries stand in strictly ascending order of names, so
that a context is determined by what it declares and not by the order of the declarations.
-/

namespace AgentLang

abbrev Context.Entry := String × Statement

/-- Entries whose names ascend. -/
abbrev Context.Ascending (entries : List Context.Entry) : Prop :=
  entries.Pairwise fun left right => left.1 < right.1

@[ext]
structure Context where
  entries : List Context.Entry
  ascending : Context.Ascending entries
  deriving DecidableEq

namespace Context

def empty : Context := ⟨[], .nil⟩

instance : Inhabited Context := ⟨empty⟩

def size (context : Context) : Nat := context.entries.length

def names (context : Context) : List String := context.entries.map (·.1)

def find? (name : String) : List Entry → Option Statement
  | [] => none
  | entry :: rest => if entry.1 = name then some entry.2 else find? name rest

/-- The body declared under a name. -/
def get? (context : Context) (name : String) : Option Statement :=
  find? name context.entries

def contains (context : Context) (name : String) : Bool :=
  (context.get? name).isSome

/-- Puts an entry at its place and replaces the one of the same name. -/
def place (name : String) (body : Statement) : List Entry → List Entry
  | [] => [(name, body)]
  | entry :: rest =>
      if name < entry.1 then (name, body) :: entry :: rest
      else if name = entry.1 then (name, body) :: rest
      else entry :: place name body rest

theorem mem_place {name : String} {body : Statement} {entries : List Entry} {entry : Entry}
    (h : entry ∈ place name body entries)
    : entry = (name, body) ∨ entry ∈ entries := by
  induction entries with
  | nil => simpa [place] using h
  | cons head rest ih =>
      unfold place at h
      split at h
      · simpa using h
      · split at h
        · rcases List.mem_cons.mp h with h | h
          · exact .inl h
          · exact .inr (List.mem_cons_of_mem _ h)
        · rcases List.mem_cons.mp h with h | h
          · exact .inr (h ▸ List.mem_cons_self)
          · exact (ih h).imp_right (List.mem_cons_of_mem _)

/-- Placing an entry keeps the names ascending, by the trichotomy of their order. -/
theorem Ascending.place {entries : List Entry} (h : Ascending entries) (name : String)
    (body : Statement)
    : Ascending (place name body entries) := by
  induction entries with
  | nil => exact List.pairwise_singleton ..
  | cons head rest ih =>
      obtain ⟨before, tail⟩ := List.pairwise_cons.mp h
      unfold Context.place
      split
      · rename_i first
        refine List.pairwise_cons.mpr ⟨?_, h⟩
        intro entry member
        rcases List.mem_cons.mp member with rfl | member
        · exact first
        · exact String.lt_trans first (before entry member)
      · split
        · rename_i same
          exact List.pairwise_cons.mpr ⟨fun entry member => same ▸ before entry member, tail⟩
        · rename_i notFirst notSame
          refine List.pairwise_cons.mpr ⟨?_, ih tail⟩
          intro entry member
          rcases mem_place member with rfl | member
          · exact String.not_le.mp fun le =>
              notFirst (Std.lt_of_le_of_ne le notSame)
          · exact before entry member

def insert (context : Context) (name : String) (body : Statement) : Context :=
  ⟨place name body context.entries, context.ascending.place name body⟩

def erase (context : Context) (name : String) : Context :=
  ⟨context.entries.filter (·.1 != name), context.ascending.filter _⟩

/-- Placing an entry changes what is found under its own name, and under no other. -/
theorem find?_place (name other : String) (body : Statement) (entries : List Entry)
    : find? other (place name body entries)
      = if name = other then some body else find? other entries := by
  induction entries with
  | nil => rfl
  | cons head rest ih =>
      unfold place
      split
      · rfl
      · split <;> grind [find?]

theorem find?_filter (name other : String) (entries : List Entry)
    : find? other (entries.filter (·.1 != name))
      = if name = other then none else find? other entries := by
  induction entries with
  | nil => simp [find?]
  | cons head rest ih => by_cases same : head.1 = name <;> grind [find?]

@[simp]
theorem get?_insert (context : Context) (name other : String) (body : Statement)
    : (context.insert name body).get? other
      = if name = other then some body else context.get? other :=
  find?_place name other body context.entries

@[simp]
theorem get?_erase (context : Context) (name other : String)
    : (context.erase name).get? other = if name = other then none else context.get? other :=
  find?_filter name other context.entries

/-- An order in which entries may stand. -/
structure Order where
  arrange : List Entry → List Entry
  perm : ∀ entries, (arrange entries).Perm entries

/-- The ascending order, in which a context has its entries. -/
def Order.ascending : Order := ⟨id, List.Perm.refl⟩

/-- Declares entries one after the other; of those with the same name the last one stays. -/
def ofList (entries : List Entry) : Context :=
  entries.foldl (fun context entry => context.insert entry.1 entry.2) empty

end Context

end AgentLang
