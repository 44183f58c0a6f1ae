import AgentLang.Context

/-! What a context declares. Names ascend strictly, so a name has one body at most and the
bodies found under the names determine the context.
-/

namespace AgentLang.Context

/-- The names of a context are distinct. -/
theorem names_nodup (context : Context) : context.names.Nodup := by
  unfold names
  rw [List.nodup_iff_pairwise_ne, List.pairwise_map]
  apply context.ascending.imp
  intro left right less same
  rw [same] at less
  exact String.lt_irrefl right.1 less

/-- A lookup among distinct names finds exactly the entries, in whatever order they stand. -/
theorem find?_eq_some_iff {entries : List Entry} (distinct : (entries.map (·.1)).Nodup)
    (name : String) (body : Statement)
    : find? name entries = some body ↔ (name, body) ∈ entries := by
  induction entries with
  | nil => simp [find?]
  | cons head rest ih =>
      obtain ⟨unlike, tail⟩ := List.nodup_cons.mp distinct
      by_cases same : head.1 = name
      · have absent : (name, body) ∉ rest := by
          intro member
          exact unlike (List.mem_map.mpr ⟨(name, body), member, same.symm⟩)
        simp only [find?, if_pos same, Option.some.injEq, List.mem_cons, absent, or_false]
        constructor
        · intro eq
          rw [← same, ← eq]
        · intro eq
          rw [← eq]
      · have other : (name, body) ≠ head := by
          intro eq
          rw [← eq] at same
          exact same rfl
        simp only [find?, if_neg same, ih tail, List.mem_cons, other, false_or]

theorem get?_eq_some_iff (context : Context) (name : String) (body : Statement)
    : context.get? name = some body ↔ (name, body) ∈ context.entries :=
  find?_eq_some_iff context.names_nodup name body

/-- Contexts that declare the same are equal: both list the same entries, and in the one
ascending order.
-/
theorem ext_get? {left right : Context} (h : ∀ name, left.get? name = right.get? name)
    : left = right := by
  have members : ∀ entry, entry ∈ left.entries ↔ entry ∈ right.entries := by
    intro entry
    rw [← get?_eq_some_iff left entry.1 entry.2, ← get?_eq_some_iff right entry.1 entry.2, h]
  have distinct {entries : List Entry} (ascending : Ascending entries) : entries.Nodup := by
    apply ascending.imp
    intro entry other less same
    rw [same] at less
    exact String.lt_irrefl other.1 less
  apply Context.ext
  exact List.Perm.eq_of_pairwise
    (fun _ _ _ _ less greater => (String.lt_asymm less greater).elim)
    left.ascending right.ascending
    ((List.perm_ext_iff_of_nodup (distinct left.ascending) (distinct right.ascending)).mpr members)

/-- Declaring a body again after taking it out changes nothing. -/
theorem insert_erase {context : Context} {name : String} {body : Statement}
    (found : context.get? name = some body)
    : (context.erase name).insert name body = context := by
  apply ext_get?
  intro other
  by_cases same : name = other
  · subst same
    simp [found]
  · simp [same]

/-- Taking out a declared body leaves fewer declarations. -/
theorem size_erase_lt {context : Context} {name : String} {body : Statement}
    (found : context.get? name = some body)
    : (context.erase name).size < context.size := by
  have member := (get?_eq_some_iff context name body).mp found
  apply List.length_filter_lt_length_iff_exists.mpr
  exact ⟨(name, body), member, by simp⟩

/-- A name is free behind declarations when it was free before and none of them takes it. -/
theorem get?_foldl_eq_none_iff (entries : List Entry) (context : Context) (name : String)
    : (entries.foldl (fun context entry => context.insert entry.1 entry.2) context).get? name = none
      ↔ context.get? name = none ∧ name ∉ entries.map (·.1) := by
  induction entries generalizing context with
  | nil => simp
  | cons entry rest ih =>
      rw [List.foldl_cons, ih, get?_insert, List.map_cons, List.mem_cons]
      by_cases same : entry.1 = name
      · simp [same]
      · simp [same, Ne.symm same]

theorem get?_ofList_eq_none_iff {entries : List Entry} {name : String}
    : (ofList entries).get? name = none ↔ name ∉ entries.map (·.1) := by
  unfold ofList
  rw [get?_foldl_eq_none_iff]
  exact and_iff_right rfl

theorem contains_ofList_iff {entries : List Entry} {name : String}
    : (ofList entries).contains name = true ↔ name ∈ entries.map (·.1) := by
  rw [contains, Option.isSome_iff_ne_none, ne_eq, get?_ofList_eq_none_iff, Decidable.not_not]

theorem ofList_concat (entries : List Entry) (entry : Entry)
    : ofList (entries ++ [entry]) = (ofList entries).insert entry.1 entry.2 := by
  simp only [ofList, List.foldl_append, List.foldl_cons, List.foldl_nil]

/-- Declarations bring in no entries but their own. -/
theorem mem_foldl_insert {entries : List Entry} {context : Context} {entry : Entry}
    (member
      : entry ∈ (entries.foldl
          (fun context entry => context.insert entry.1 entry.2) context).entries)
    : entry ∈ context.entries ∨ entry ∈ entries := by
  induction entries generalizing context with
  | nil => exact .inl member
  | cons head rest ih =>
      rcases ih member with placed | later
      · rcases mem_place placed with same | earlier
        · exact .inr (same ▸ List.mem_cons_self)
        · exact .inl earlier
      · exact .inr (List.mem_cons_of_mem _ later)

theorem mem_ofList {entries : List Entry} {entry : Entry}
    (member : entry ∈ (ofList entries).entries)
    : entry ∈ entries := by
  rcases mem_foldl_insert member with none | declared
  · cases none
  · exact declared

/-- An entry with the last of all names goes to the end. -/
theorem place_last {entries : List Entry} {name : String} {body : Statement}
    (last : ∀ entry ∈ entries, entry.1 < name)
    : place name body entries = entries ++ [(name, body)] := by
  induction entries with
  | nil => rfl
  | cons head rest ih =>
      have less := last head List.mem_cons_self
      have notSame : name ≠ head.1 := by
        intro same
        rw [same] at less
        exact String.lt_irrefl head.1 less
      rw [place, if_neg (String.lt_asymm less), if_neg notSame,
        ih fun entry member => last entry (List.mem_cons_of_mem _ member)]
      rfl

/-- Entries in ascending order are declared in that order. -/
theorem entries_foldl_insert {entries : List Entry} {context : Context}
    (ascending : Ascending (context.entries ++ entries))
    : (entries.foldl (fun context entry => context.insert entry.1 entry.2) context).entries
      = context.entries ++ entries := by
  induction entries generalizing context with
  | nil => simp
  | cons head rest ih =>
      have last : ∀ entry ∈ context.entries, entry.1 < head.1 := by
        intro entry member
        exact (List.pairwise_append.mp ascending).2.2 entry member head List.mem_cons_self
      have placed : (context.insert head.1 head.2).entries = context.entries ++ [head] :=
        place_last last
      have stillAscending : Ascending ((context.insert head.1 head.2).entries ++ rest) := by
        rwa [placed, List.append_assoc]
      rw [List.foldl_cons, ih stillAscending, placed, List.append_assoc]
      rfl

theorem ofList_entries (context : Context) : ofList context.entries = context := by
  apply Context.ext
  exact entries_foldl_insert context.ascending

/-- Declarations under distinct names are found, whichever of them comes first. -/
theorem get?_ofList {entries : List Entry} (distinct : (entries.map (·.1)).Nodup) (name : String)
    : (ofList entries).get? name = find? name entries := by
  apply Option.ext
  intro body
  rw [find?_eq_some_iff distinct]
  constructor
  · intro found
    exact mem_ofList ((get?_eq_some_iff _ name body).mp found)
  · intro member
    cases found : (ofList entries).get? name with
    | none =>
        have absent := get?_ofList_eq_none_iff.mp found
        exact (absent (List.mem_map.mpr ⟨_, member, rfl⟩)).elim
    | some other =>
        have listed := mem_ofList ((get?_eq_some_iff _ name other).mp found)
        rw [← (find?_eq_some_iff distinct name other).mpr listed]
        exact (find?_eq_some_iff distinct name body).mpr member

/-- The order of declarations under distinct names makes no difference. -/
theorem ofList_perm {entries order : List Entry} (distinct : (entries.map (·.1)).Nodup)
    (reordered : order.Perm entries)
    : ofList order = ofList entries := by
  have distinct' := (reordered.map (·.1)).nodup_iff.mpr distinct
  apply ext_get?
  intro name
  apply Option.ext
  intro body
  rw [get?_ofList distinct', get?_ofList distinct, find?_eq_some_iff distinct',
    find?_eq_some_iff distinct, reordered.mem_iff]

/-- The order in which the entries of a context are declared makes no difference. -/
theorem ofList_of_perm {context : Context} {order : List Entry}
    (reordered : order.Perm context.entries)
    : ofList order = context := by
  rw [ofList_perm context.names_nodup reordered, ofList_entries]

/-- Changes the bodies and keeps the names. -/
def mapBodies (f : Statement → Statement) (context : Context) : Context where
  entries := context.entries.map fun entry => (entry.1, f entry.2)
  ascending := List.pairwise_map.mpr context.ascending

theorem find?_map (f : Statement → Statement) (entries : List Entry) (name : String)
    : find? name (entries.map fun entry => (entry.1, f entry.2)) = (find? name entries).map f := by
  induction entries with
  | nil => rfl
  | cons head rest ih =>
      simp only [List.map_cons, find?]
      split
      · rfl
      · exact ih

/-- What is found under a name is changed, and the names stay. -/
theorem get?_mapBodies (f : Statement → Statement) (context : Context) (name : String)
    : (context.mapBodies f).get? name = (context.get? name).map f :=
  find?_map f context.entries name

theorem erase_mapBodies (f : Statement → Statement) (context : Context) (name : String)
    : (context.mapBodies f).erase name = (context.erase name).mapBodies f := by
  apply ext_get?
  intro other
  simp only [get?_erase, get?_mapBodies]
  split <;> rfl

/-- Bodies that do not change leave the context as it is. -/
theorem mapBodies_eq_self {f : Statement → Statement} {context : Context}
    (same : ∀ entry ∈ context.entries, f entry.2 = entry.2)
    : context.mapBodies f = context := by
  apply Context.ext
  calc context.entries.map (fun entry => (entry.1, f entry.2))
    _ = context.entries.map id := List.map_congr_left fun entry member => by
      rw [same entry member]
      rfl
    _ = context.entries := List.map_id _

end AgentLang.Context
