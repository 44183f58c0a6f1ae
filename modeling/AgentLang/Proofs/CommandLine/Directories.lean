import AgentLang.Proofs.CommandLine.Locations

/-! Making directories. When one is missing, those above it are made first. Whatever comes of it,
nothing appears but directories on the way that a path leads; and where the path only leads down
and no file is in the way, all of them are there in the end.
-/

namespace AgentLang.CommandLine

-----------------------------------------------------------------------------------------
-- Paths and those above them
-----------------------------------------------------------------------------------------

namespace Path

/-- A path that is read back from its text: it has pieces without slashes, and if it does not start
at the root, its first piece is not an empty one.
-/
structure Proper (path : Path) : Prop where
  pieces : path.pieces ≠ []
  unslashed : ∀ piece ∈ path.pieces, '/' ∉ piece.toList
  relative : path.absolute = false → path.pieces.head? ≠ some ""

/-- Joined pieces without slashes are cut apart again, by induction on the pieces. -/
theorem splitAt_join {pieces : List String} (some : pieces ≠ [])
    (unslashed : ∀ piece ∈ pieces, '/' ∉ piece.toList)
    : (Text.splitAt '/' ("/".intercalate pieces).toList).map String.ofList = pieces := by
  induction pieces with
  | nil => exact (some rfl).elim
  | cons piece pieces ih =>
      obtain ⟨first, others⟩ := List.forall_mem_cons.mp unslashed
      cases pieces with
      | nil => simp [Text.splitAt_of_not_mem first]
      | cons next pieces =>
          have joined : ("/".intercalate (piece :: next :: pieces)).toList
              = piece.toList ++ '/' :: ("/".intercalate (next :: pieces)).toList := by
            simp [String.intercalate_cons_cons]
          rw [joined, Text.splitAt_append, Text.splitAt_of_not_mem first, List.map_append,
            ih (by simp) others]
          simp

theorem proper_ofText {text : String} (somewhere : text ≠ "") : (ofText text).Proper := by
  have pieces (chars : List Char)
      : (Text.splitAt '/' chars).map String.ofList ≠ []
        ∧ ∀ piece ∈ (Text.splitAt '/' chars).map String.ofList, '/' ∉ piece.toList := by
    refine ⟨?_, ?_⟩
    · simpa using Text.splitAt_ne_nil '/' chars
    · intro piece member
      obtain ⟨cut, listed, rfl⟩ := List.mem_map.mp member
      rw [String.toList_ofList]
      exact Text.not_mem_of_mem_splitAt listed
  unfold ofText
  split
  · rename_i rest _
    exact ⟨(pieces rest).1, (pieces rest).2, nofun⟩
  · rename_i relative
    refine ⟨(pieces text.toList).1, (pieces text.toList).2, ?_⟩
    intro _
    cases chars : text.toList with
    | nil => exact (somewhere (String.toList_eq_nil_iff.mp chars)).elim
    | cons c rest =>
        have unslashed : c ≠ '/' := by
          intro same
          exact relative rest (same ▸ chars)
        simp only [Text.splitAt, if_neg unslashed]
        cases Text.splitAt '/' rest <;> simp

theorem ofText_toText {path : Path} (proper : path.Proper) : ofText path.toText = path := by
  obtain ⟨absolute, pieces⟩ := path
  have cut : (Text.splitAt '/' ("/".intercalate pieces).toList).map String.ofList = pieces :=
    splitAt_join proper.pieces proper.unslashed
  cases absolute with
  | true =>
      have chars : (toText ⟨true, pieces⟩).toList = '/' :: ("/".intercalate pieces).toList := by
        simp [toText]
      simp only [ofText, chars, cut]
  | false =>
      have chars : (toText ⟨false, pieces⟩).toList = ("/".intercalate pieces).toList := by
        simp [toText]
      unfold ofText
      split
      · rename_i rest slashed
        have starts : pieces.head? ≠ some "" := proper.relative rfl
        rw [← cut, ← chars, slashed] at starts
        exact (starts rfl).elim
      · simp only [chars, cut]

theorem dropIdle_suffix (pieces : List String) : dropIdle pieces <:+ pieces := by
  fun_induction dropIdle pieces with
  | case1 => exact List.suffix_refl _
  | case2 => exact List.suffix_refl _
  | case3 piece pieces _ _ ih => exact ih.trans (List.suffix_cons _ _)
  | case4 => exact List.suffix_refl _

/-- The path above another has its first pieces. -/
theorem parent?_eq_some {path parent : Path} (above : path.parent? = some parent)
    : parent.absolute = path.absolute ∧ parent.pieces ≠ [] ∧ parent.pieces <+: path.pieces := by
  unfold parent? at above
  split at above
  · cases above
  · rename_i pieces some
    cases above
    refine ⟨rfl, by simpa using some, ?_⟩
    have whole : dropIdle (dropIdle path.pieces.reverse).tail <:+ path.pieces.reverse :=
      ((dropIdle_suffix _).trans (List.tail_suffix _)).trans (dropIdle_suffix _)
    simpa using List.reverse_prefix.mpr whole

/-- A path that leads part of the way of another. -/
structure Above (above path : Path) : Prop where
  proper : above.Proper
  absolute : above.absolute = path.absolute
  pieces : above.pieces <+: path.pieces

theorem Above.refl {path : Path} (proper : path.Proper) : path.Above path :=
  ⟨proper, rfl, List.prefix_refl _⟩

theorem Above.parent {above path parent : Path} (h : above.Above path)
    (next : above.parent? = some parent)
    : parent.Above path := by
  obtain ⟨absolute, some, first⟩ := parent?_eq_some next
  refine ⟨⟨some, ?_, ?_⟩, absolute.trans h.absolute, first.trans h.pieces⟩
  · intro piece member
    exact h.proper.unslashed piece (first.subset member)
  · intro relative starts
    obtain ⟨rest, whole⟩ := first
    refine h.proper.relative (absolute ▸ relative) ?_
    rw [← whole, List.head?_append, starts]
    rfl

theorem Above.names {above path : Path} (h : above.Above path) : above.names <+: path.names :=
  h.pieces.filter _

/-- Joined pieces are not shorter than the first of them, by induction on those. -/
theorem utf8ByteSize_join_le (pieces more : List String)
    : ("/".intercalate pieces).utf8ByteSize
      ≤ ("/".intercalate (pieces ++ more)).utf8ByteSize := by
  induction pieces with
  | nil => exact Nat.zero_le _
  | cons piece pieces ih =>
      cases pieces with
      | nil =>
          cases more with
          | nil => exact Nat.le_refl _
          | cons next more =>
              simp [String.intercalate_cons_cons]
              omega
      | cons next pieces =>
          simp only [List.cons_append, String.intercalate_cons_cons,
            String.utf8ByteSize_append] at ih ⊢
          omega

/-- The text of a path is not shorter than that of one above it. -/
theorem Above.utf8ByteSize_le {above path : Path} (h : above.Above path)
    : above.toText.utf8ByteSize ≤ path.toText.utf8ByteSize := by
  obtain ⟨more, whole⟩ := h.pieces
  have longer := utf8ByteSize_join_le above.pieces more
  rw [whole] at longer
  simp only [toText, h.absolute, String.utf8ByteSize_append]
  omega

/-- Only empty pieces are dropped when none stays where it is, and if there is a name among them,
one comes first. The pieces are given last first.
-/
theorem filter_dropIdle {pieces : List String} (own : "." ∉ pieces)
    : (dropIdle pieces).filter (· != "") = pieces.filter (· != "")
      ∧ (pieces.filter (· != "") ≠ [] → (dropIdle pieces).head? ≠ some "") := by
  fun_induction dropIdle pieces with
  | case1 => simp
  | case2 first => by_cases empty : first = "" <;> simp [empty]
  | case3 piece pieces _ idle ih =>
      obtain ⟨notFirst, notLater⟩ := List.ne_and_not_mem_of_not_mem_cons own
      have empty : piece = "" := idle.resolve_right (Ne.symm notFirst)
      simpa [empty] using ih notLater
  | case4 piece pieces _ busy =>
      refine ⟨rfl, ?_⟩
      intro _ empty
      exact busy (.inl (Option.some.inj empty))

/-- Of two names and more, none of which stays where it is, the path above has all but the last. -/
theorem exists_parent {path : Path} (own : "." ∉ path.names) (two : 2 ≤ path.names.length)
    : ∃ parent last, path.parent? = some parent ∧ path.names = parent.names ++ [last] := by
  have ownPieces : "." ∉ path.pieces.reverse := by
    intro member
    exact own (List.mem_filter.mpr ⟨List.mem_reverse.mp member, rfl⟩)
  obtain ⟨same, named⟩ := filter_dropIdle ownPieces
  have suffix := dropIdle_suffix path.pieces.reverse
  rw [List.filter_reverse, ← names] at same named
  cases cut : dropIdle path.pieces.reverse with
  | nil =>
      rw [cut] at same
      have none : path.names.length = 0 := by simpa using congrArg List.length same.symm
      omega
  | cons last rest =>
      rw [cut] at same named suffix
      have isName : last ≠ "" := by
        intro empty
        have someName : path.names.reverse ≠ [] := by
          intro none
          simp [List.reverse_eq_nil_iff.mp none] at two
        exact named someName (congrArg some empty)
      rw [List.filter_cons_of_pos (by simpa using isName)] at same
      have ownRest : "." ∉ rest := fun member =>
        ownPieces (suffix.subset (List.mem_cons_of_mem _ member))
      obtain ⟨sameRest, _⟩ := filter_dropIdle ownRest
      have parted : path.names = (rest.filter (· != "")).reverse ++ [last] := by
        simpa using (congrArg List.reverse same).symm
      have someRest : dropIdle rest ≠ [] := by
        intro none
        rw [none] at sameRest
        rw [parted, ← sameRest] at two
        simp at two
      refine ⟨⟨path.absolute, (dropIdle rest).reverse⟩, last, ?_, ?_⟩
      · unfold parent?
        rw [cut, List.tail_cons]
        split
        · rename_i none
          exact (someRest none).elim
        · rfl
      · rw [parted, ← sameRest]
        simp [names]

end Path

-----------------------------------------------------------------------------------------
-- Directories on the way
-----------------------------------------------------------------------------------------

namespace World

/-- The first names of the path lead to a directory at the location. -/
def OnTheWay (world : World) (path : Path) (location : Location) : Prop :=
  ∃ names,
    names <+: path.names
    ∧ world.follow (world.start path) names = .ok (location, some .directory)

theorem OnTheWay.of_extends {before after : World} {path : Path} {location : Location}
    (way : before.OnTheWay path location) (kept : before.Extends after)
    : after.OnTheWay path location := by
  obtain ⟨names, first, followed⟩ := way
  refine ⟨names, first, ?_⟩
  rw [kept.start]
  exact kept.follow followed

/-- Directories on the way of a path have been made where nothing was, and nothing else has
changed.
-/
structure Prepares (path : Path) (before after : World) : Prop where
  workingDirectory : after.workingDirectory = before.workingDirectory
  output : after.output = before.output
  nodes
    : ∀ location,
        after.tree.get? location = before.tree.get? location
        ∨ before.tree.get? location = none
          ∧ after.tree.get? location = some .directory
          ∧ after.OnTheWay path location

namespace Prepares

variable {path : Path} {before middle after : World}

theorem refl (path : Path) (world : World) : Prepares path world world where
  workingDirectory := rfl
  output := rfl
  nodes := fun _ => .inl rfl

theorem extended (prepares : Prepares path before after) : before.Extends after where
  workingDirectory := prepares.workingDirectory
  directories := by
    intro location found
    rcases prepares.nodes location with same | ⟨missing, _⟩
    · exact same.trans found
    · rw [found] at missing
      cases missing

theorem trans (first : Prepares path before middle) (second : Prepares path middle after)
    : Prepares path before after where
  workingDirectory := second.workingDirectory.trans first.workingDirectory
  output := second.output.trans first.output
  nodes := by
    intro location
    rcases second.nodes location with same | ⟨missing, made, way⟩
    · rw [same]
      rcases first.nodes location with same | ⟨missing, made, way⟩
      · exact .inl same
      · exact .inr ⟨missing, made, way.of_extends second.extended⟩
    · rcases first.nodes location with same | ⟨_, earlier, _⟩
      · exact .inr ⟨same.symm.trans missing, made, way⟩
      · rw [earlier] at missing
        cases missing

end Prepares

/-- The world with a directory at a location. -/
def withDirectory (world : World) (location : Location) : World :=
  { world with tree := world.tree.set location .directory }

theorem extends_withDirectory {world : World} {location : Location} (below : location ≠ [])
    : world.Extends (world.withDirectory location) where
  workingDirectory := rfl
  directories := by
    intro other found
    rw [withDirectory, FileTree.get?_set _ below]
    split
    · rfl
    · exact found

/-- Names that lead to nothing lead to the directory that is made there. -/
theorem follow_withDirectory {world : World} {directory location : Location} {names : List String}
    (followed : world.follow directory names = .ok (location, none))
    : location ≠ []
      ∧ world.tree.get? location = none
      ∧ (world.withDirectory location).follow directory names
        = .ok (location, some .directory) := by
  rcases follow_finds followed with impossible | ⟨below, missing⟩
  · cases impossible
  · refine ⟨below, missing.symm, ?_⟩
    rcases List.eq_nil_or_concat names with rfl | ⟨front, name, rfl⟩
    · cases followed
    · rw [List.concat_eq_append] at followed ⊢
      obtain ⟨place, reached, entered⟩ := follow_concat_iff.mp followed
      have own : name ≠ "." ∧ name ≠ ".." := by
        refine ⟨?_, ?_⟩
        · rintro rfl
          simp [enter] at entered
        · rintro rfl
          simp [enter] at entered
      obtain ⟨here, _, short⟩ := (enter_own_iff own).mp entered
      have found : some .directory = (world.withDirectory location).tree.get? location := by
        rw [withDirectory, FileTree.get?_set _ below, if_pos rfl]
      exact follow_concat_iff.mpr ⟨place, (extends_withDirectory below).follow reached,
        (enter_own_iff own).mpr ⟨here, found, short⟩⟩

/-- What is made for a path above is on the way. -/
theorem createDirectory_prepares {world after : World} {above path : Path}
    (higher : above.Above path) (created : world.createDirectory above = .ok after)
    : world.Prepares path after := by
  obtain ⟨⟨location, node⟩, located, made⟩ := bind_eq_ok_iff.mp created
  cases node with
  | some node => cases made
  | none =>
      cases made
      unfold locate at located
      split at located
      · cases located
      · obtain ⟨below, missing, reached⟩ := follow_withDirectory located
        refine ⟨rfl, rfl, ?_⟩
        intro other
        by_cases same : other = location
        · subst same
          have found : (world.withDirectory other).tree.get? other = some .directory := by
            rw [withDirectory, FileTree.get?_set _ below, if_pos rfl]
          have started : (world.withDirectory other).start path = world.start above := by
            rw [start, start, higher.absolute]
            rfl
          refine .inr ⟨missing, found, above.names, higher.names, ?_⟩
          exact started ▸ reached
        · exact .inl (by rw [FileTree.get?_set _ below, if_neg same])

end World

-----------------------------------------------------------------------------------------
-- Making the directories of a path
-----------------------------------------------------------------------------------------

/-- What follows an operation goes on from its result. -/
theorem run_bind_of_run {α β : Type} {operation : StateM World α} {next : α → StateM World β}
    {before after : World} {value : α} (ran : operation.run before = (value, after))
    : (operation >>= next).run before = (next value).run after := by
  rw [StateT.run_bind, ran]
  rfl

/-- An operation that fails changes nothing. -/
theorem run_apply (operation : World → Except SystemError World) (world : World)
    : (World.apply operation).run world
      = match operation world with
        | .ok after => (.ok (), after)
        | .error cause => (.error cause, world) := by
  cases ran : operation world <;> simp [World.apply, ran] <;> rfl

/-- Whatever the operation gives, it makes directories on the way of a path and changes nothing
else.
-/
def Preparing {α : Type} (path : Path) (operation : StateM World α) : Prop :=
  ∀ world : World, world.Prepares path (operation.run world).2

namespace Preparing

variable {α β : Type} {path : Path} {order : Context.Order}

theorem prepares {operation : StateM World α} {before after : World} {value : α}
    (preparing : Preparing path operation) (ran : operation.run before = (value, after))
    : before.Prepares path after := by
  have prepared := preparing before
  rwa [ran] at prepared

theorem pure (value : α) : Preparing path (Pure.pure value) := fun world => .refl path world

theorem bind {operation : StateM World α} {next : α → StateM World β}
    (first : Preparing path operation) (second : ∀ value, Preparing path (next value))
    : Preparing path (operation >>= next) :=
  fun world => (first world).trans (second _ _)

theorem createDirectory {above : Path} (higher : above.Above path)
    : Preparing path ((World.hostIn order).createDirectory above.toText) := by
  intro world
  rw [World.hostIn, run_apply, Path.ofText_toText higher.proper]
  cases created : world.createDirectory above with
  | ok after => exact World.createDirectory_prepares higher created
  | error cause => exact .refl path world

theorem isDirectory (text : String) : Preparing path ((World.hostIn order).isDirectory text) :=
  fun world => .refl path world

theorem ensureDirectory {above : Path} (higher : above.Above path)
    : Preparing path (ensureDirectory (World.hostIn order) above) := by
  refine .bind (.createDirectory higher) ?_
  intro result
  cases result with
  | ok _ => exact .pure _
  | error cause =>
      refine .bind (.isDirectory _) ?_
      intro there
      cases there <;> exact .pure _

/-- The directories above are made first, by recursion on the path. -/
theorem ensureDirectories {above : Path} (higher : above.Above path)
    : Preparing path (ensureDirectories (World.hostIn order) above) := by
  rw [CommandLine.ensureDirectories]
  refine .bind (.ensureDirectory higher) ?_
  intro result
  cases result with
  | ok _ => exact .pure _
  | error cause =>
      dsimp only
      split
      · split
        · exact .ensureDirectory higher
        · rename_i parent next
          refine .bind (ensureDirectories (higher.parent next)) ?_
          intro result
          cases result with
          | ok _ => exact .ensureDirectory higher
          | error cause => exact .pure _
      · exact .pure _
termination_by above.pieces.length
decreasing_by exact above.parent?_pieces_length_lt ‹_›

end Preparing

section

variable {world : World} {path : Path} {place : Location} {order : Context.Order}

/-- A directory is made, or is there already. -/
theorem run_ensureDirectory (proper : path.Proper)
    : (ensureDirectory (World.hostIn order) path).run world
      = match world.createDirectory path with
        | .ok after => (.ok (), after)
        | .error cause => (if world.isDirectory path then .ok () else .error cause, world) := by
  have created : ((World.hostIn order).createDirectory path.toText).run world
      = match world.createDirectory path with
        | .ok after => (.ok (), after)
        | .error cause => (.error cause, world) := by
    rw [World.hostIn, run_apply, Path.ofText_toText proper]
  have asked : ((World.hostIn order).isDirectory path.toText).run world
      = (world.isDirectory path, world) := by
    have same := congrArg (world.isDirectory ·, world) (Path.ofText_toText proper)
    exact same
  unfold ensureDirectory
  cases made : world.createDirectory path with
  | ok after =>
      rw [made] at created
      exact run_bind_of_run created
  | error cause =>
      rw [made] at created
      refine (run_bind_of_run created).trans ((run_bind_of_run asked).trans ?_)
      cases world.isDirectory path <;> rfl

/-- A directory that is there is left as it is. -/
theorem run_ensureDirectory_located (proper : path.Proper)
    (located : world.locate path = .ok (place, some .directory))
    : (ensureDirectory (World.hostIn order) path).run world = (.ok (), world) := by
  rw [run_ensureDirectory proper]
  simp [World.createDirectory, World.isDirectory, located, bind, Except.bind, throw, throwThe,
    MonadExceptOf.throw]

/-- A directory is made where nothing is. -/
theorem run_ensureDirectory_missing (proper : path.Proper)
    (located : world.locate path = .ok (place, none))
    : (ensureDirectory (World.hostIn order) path).run world
        = (.ok (), world.withDirectory place)
      ∧ (world.withDirectory place).locate path = .ok (place, some .directory) := by
  constructor
  · rw [run_ensureDirectory proper]
    simp [World.createDirectory, World.withDirectory, located, bind, Except.bind, pure, Except.pure]
  · unfold World.locate at located ⊢
    split at located
    · cases located
    · rename_i short
      rw [if_neg short]
      exact (World.follow_withDirectory located).2.2

/-- Behind a path that cannot be followed no directory is made. -/
theorem run_ensureDirectory_unfollowed {cause : SystemError} (proper : path.Proper)
    (failed : world.locate path = .error cause)
    : (ensureDirectory (World.hostIn order) path).run world = (.error cause, world) := by
  rw [run_ensureDirectory proper]
  simp [World.createDirectory, World.isDirectory, failed, bind, Except.bind]

/-- A directory that is there needs no others to be made. -/
theorem run_ensureDirectories_located (proper : path.Proper)
    (located : world.locate path = .ok (place, some .directory))
    : (ensureDirectories (World.hostIn order) path).run world = (.ok (), world) := by
  rw [ensureDirectories]
  exact run_bind_of_run (run_ensureDirectory_located proper located)

end

-----------------------------------------------------------------------------------------
-- Ways that are clear
-----------------------------------------------------------------------------------------

namespace World

/-- A path only leads down, by names and in a text that are short enough, and no file is in its
way.
-/
structure Clear (world : World) (path : Path) : Prop where
  short : path.toText.utf8ByteSize ≤ pathLimit
  own : ∀ name ∈ path.names, (name ≠ "." ∧ name ≠ "..") ∧ name.utf8ByteSize ≤ nameLimit
  free
    : ∀ front content,
        front <+: path.names → world.tree.get? (world.start path ++ front) ≠ some (.file content)

/-- Names that only lead down lead to a directory or to nothing, unless a directory is missing in
front of the last of them, by induction on the names.
-/
theorem follow_down {world : World} {directory : Location} {names : List String}
    (own : ∀ name ∈ names, (name ≠ "." ∧ name ≠ "..") ∧ name.utf8ByteSize ≤ nameLimit)
    (free
      : ∀ front content,
          front <+: names → world.tree.get? (directory ++ front) ≠ some (.file content))
    : world.follow directory names = .ok (directory ++ names, some .directory)
      ∨ world.follow directory names = .ok (directory ++ names, none)
      ∨ world.follow directory names = .error .notFound ∧ 2 ≤ names.length := by
  induction names generalizing directory with
  | nil => exact .inl (by simp [follow])
  | cons name names ih =>
      obtain ⟨⟨ownFirst, short⟩, ownLater⟩ := List.forall_mem_cons.mp own
      have entered : world.enter directory name
          = .ok (directory ++ [name], world.tree.get? (directory ++ [name])) :=
        (enter_own_iff ownFirst).mpr ⟨rfl, rfl, short⟩
      cases found : world.tree.get? (directory ++ [name]) with
      | none =>
          rw [found] at entered
          cases names with
          | nil => exact .inr (.inl entered)
          | cons next names =>
              refine .inr (.inr ⟨?_, by simp⟩)
              simp only [follow, entered, bind, Except.bind]
              rfl
      | some node =>
          cases node with
          | file content => exact (free [name] content ⟨names, rfl⟩ found).elim
          | directory =>
              rw [found] at entered
              rw [follow_of_enter entered]
              have freeLater (front : List String) (content : ByteArray) (first : front <+: names)
                  : world.tree.get? (directory ++ [name] ++ front) ≠ some (.file content) := by
                rw [List.append_assoc]
                exact free (name :: front) content (List.cons_prefix_cons.mpr ⟨rfl, first⟩)
              have later := ih ownLater freeLater
              rw [List.append_assoc, List.singleton_append] at later
              rcases later with there | missing | ⟨behind, two⟩
              · exact .inl there
              · exact .inr (.inl missing)
              · exact .inr (.inr ⟨behind, Nat.le_succ_of_le two⟩)

namespace Clear

variable {world : World} {path : Path}

theorem locate (clear : world.Clear path)
    : world.locate path = .ok (world.start path ++ path.names, some .directory)
      ∨ world.locate path = .ok (world.start path ++ path.names, none)
      ∨ world.locate path = .error .notFound ∧ 2 ≤ path.names.length := by
  unfold World.locate
  rw [if_neg (Nat.not_lt.mpr clear.short)]
  exact follow_down clear.own clear.free

/-- A clear way is clear up to any path above. -/
theorem above (clear : world.Clear path) {above : Path} (higher : above.Above path)
    : world.Clear above where
  short := Nat.le_trans higher.utf8ByteSize_le clear.short
  own := fun name member => clear.own name (higher.names.subset member)
  free := by
    intro front content first
    rw [start, higher.absolute]
    exact clear.free front content (first.trans higher.names)

/-- A way stays clear when directories are made. -/
theorem of_prepares {after : World} (clear : world.Clear path) {other : Path}
    (prepares : world.Prepares other after)
    : after.Clear path where
  short := clear.short
  own := clear.own
  free := by
    intro front content first found
    rw [prepares.extended.start] at found
    rcases prepares.nodes (world.start path ++ front) with same | ⟨_, made, _⟩
    · exact clear.free front content first (same.symm.trans found)
    · cases made.symm.trans found

/-- What is on a clear way is below its start by the first names. -/
theorem onTheWay (clear : world.Clear path) {location : Location}
    (way : world.OnTheWay path location)
    : ∃ front, front <+: path.names ∧ location = world.start path ++ front := by
  obtain ⟨front, first, followed⟩ := way
  refine ⟨front, first, ?_⟩
  rcases follow_down (fun name member => clear.own name (first.subset member))
      (fun _ content inner => clear.free _ content (inner.trans first)) with
    there | missing | ⟨behind, _⟩
  · cases there.symm.trans followed
    rfl
  · cases missing.symm.trans followed
  · cases behind.symm.trans followed

/-- The last name can be followed from the directory above. -/
theorem locate_last (clear : world.Clear path) {parent : Path} {last : String} {place : Location}
    (higher : parent.Above path) (parted : path.names = parent.names ++ [last])
    (reached : world.locate parent = .ok (place, some .directory))
    : ∃ node, world.locate path = .ok (place ++ [last], node) := by
  have listed : last ∈ path.names := by simp [parted]
  obtain ⟨own, short⟩ := clear.own last listed
  unfold World.locate at reached ⊢
  split at reached
  · cases reached
  · rw [start, higher.absolute] at reached
    rw [if_neg (Nat.not_lt.mpr clear.short), parted]
    exact ⟨_, follow_concat_iff.mpr ⟨place, reached, (enter_own_iff own).mpr ⟨rfl, rfl, short⟩⟩⟩

end Clear

end World

/-- A directory in front of the last one is missing: those above are made, and then the last one.
-/
theorem run_ensureDirectories_behind {world middle : World} {path parent : Path}
    {order : Context.Order} (proper : path.Proper)
    (behind : world.locate path = .error .notFound) (next : path.parent? = some parent)
    (ran : (ensureDirectories (World.hostIn order) parent).run world = (.ok (), middle))
    : (ensureDirectories (World.hostIn order) path).run world
      = (ensureDirectory (World.hostIn order) path).run middle := by
  rw [ensureDirectories]
  refine (run_bind_of_run (run_ensureDirectory_unfollowed proper behind)).trans ?_
  dsimp only
  rw [if_pos rfl]
  split
  · rename_i none
    cases next.symm.trans none
  · rename_i other found
    cases next.symm.trans found
    exact run_bind_of_run ran

/-- Where the way is clear, all directories of a path are there in the end, by recursion on the
path.
-/
theorem run_ensureDirectories_clear (order : Context.Order) {world : World} {path : Path}
    (proper : path.Proper) (clear : world.Clear path)
    : ∃ after,
        (ensureDirectories (World.hostIn order) path).run world = (.ok (), after)
        ∧ after.locate path = .ok (world.start path ++ path.names, some .directory) := by
  rcases clear.locate with there | missing | ⟨behind, two⟩
  · exact ⟨world, run_ensureDirectories_located proper there, there⟩
  · obtain ⟨made, located⟩ := run_ensureDirectory_missing proper missing
    refine ⟨_, ?_, located⟩
    rw [ensureDirectories]
    exact run_bind_of_run made
  · obtain ⟨parent, last, next, parted⟩ :=
      Path.exists_parent (fun member => (clear.own "." member).1.1 rfl) two
    have higher : parent.Above path := (Path.Above.refl proper).parent next
    obtain ⟨middle, ran, reached⟩ :=
      run_ensureDirectories_clear order higher.proper (clear.above higher)
    have prepares : world.Prepares path middle := (Preparing.ensureDirectories higher).prepares ran
    rw [run_ensureDirectories_behind proper behind next ran, ← prepares.extended.start]
    rcases (clear.of_prepares prepares).locate with there | missing | ⟨blocked, _⟩
    · exact ⟨middle, run_ensureDirectory_located proper there, there⟩
    · obtain ⟨made, located⟩ := run_ensureDirectory_missing proper missing
      exact ⟨_, made, located⟩
    · -- The directory above is there, so the last name can be followed.
      obtain ⟨node, located⟩ := (clear.of_prepares prepares).locate_last higher parted reached
      cases located.symm.trans blocked
termination_by path.pieces.length
decreasing_by exact path.parent?_pieces_length_lt next

end AgentLang.CommandLine
