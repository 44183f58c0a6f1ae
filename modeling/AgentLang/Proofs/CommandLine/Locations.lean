import AgentLang.CommandLine.FileTree
import AgentLang.CommandLine.Run
import AgentLang.Proofs.Outcome
import AgentLang.Proofs.Text.Lines

/-! Where paths lead. A file written into a directory has its own location right below the one
of the directory, and leaves every path to a directory as it was.
-/

namespace AgentLang.CommandLine

-----------------------------------------------------------------------------------------
-- The names on a path
-----------------------------------------------------------------------------------------

namespace Path

/-- The names between the slashes of a text. -/
def namesIn (text : List Char) : List String :=
  ((Text.splitAt '/' text).map String.ofList).filter (· != "")

theorem namesIn_append (text rest : List Char)
    : namesIn (text ++ '/' :: rest) = namesIn text ++ namesIn rest := by
  simp only [namesIn, Text.splitAt_append, List.map_append, List.filter_append]

/-- A name without slashes is all that stands in its text. -/
theorem namesIn_toList {name : String} (unslashed : '/' ∉ name.toList) (named : name ≠ "")
    : namesIn name.toList = [name] := by
  simp [namesIn, Text.splitAt_of_not_mem unslashed, named]

/-- A slash at the start takes no name away. -/
theorem names_ofText (text : String) : (ofText text).names = namesIn text.toList := by
  unfold ofText
  split
  · rename_i rest chars
    rw [chars]
    exact (namesIn_append [] rest).symm
  · rfl

theorem absolute_ofText (text : String)
    : (ofText text).absolute = (text.toList.head? == some '/') := by
  unfold ofText
  split
  · rename_i rest chars
    simp [chars]
  · rename_i relative
    cases chars : text.toList with
    | nil => rfl
    | cons c rest =>
        have unslashed : c ≠ '/' := by
          intro same
          exact relative rest (same ▸ chars)
        simp [unslashed]

/-- Pieces joined at slashes are the text that was cut at them. -/
theorem toList_join_pieces (text : List Char)
    : ("/".intercalate ((Text.splitAt '/' text).map String.ofList)).toList = text := by
  have joined : ∀ text : List Char, ['/'].intercalate (Text.splitAt '/' text) = text := by
    intro text
    induction text with
    | nil => rfl
    | cons c rest ih =>
        simp only [Text.splitAt]
        cases pieces : Text.splitAt '/' rest with
        | nil => exact (Text.splitAt_ne_nil '/' rest pieces).elim
        | cons piece others =>
            rw [pieces] at ih
            split
            · rename_i slash
              rw [List.intercalate_cons_cons, ih, slash]
              rfl
            · cases others with
              | nil =>
                  rw [List.intercalate_singleton] at ih ⊢
                  rw [ih]
              | cons other others =>
                  rw [List.intercalate_cons_cons] at ih ⊢
                  rw [← ih]
                  rfl
  simpa [Function.comp_def] using joined text

/-- A path keeps its text. -/
theorem toText_ofText (text : String) : (ofText text).toText = text := by
  apply String.toList_inj.mp
  unfold ofText toText
  split
  · rename_i rest chars
    simp only [↓reduceIte, String.toList_append, toList_join_pieces, chars]
    rfl
  · simp only [Bool.false_eq_true, ↓reduceIte, String.toList_append, toList_join_pieces]
    rfl

end Path

theorem endsWith_slash_iff (text : String)
    : text.endsWith "/" = true ↔ ∃ front, text.toList = front ++ ['/'] := by
  rw [← String.endsWith_toSlice, String.Slice.endsWith_string_iff, String.copy_toSlice]
  constructor
  · rintro ⟨front, whole⟩
    exact ⟨front, whole.symm⟩
  · rintro ⟨front, whole⟩
    exact ⟨front, whole.symm⟩

/-- The path of a file in a directory leads on from the directory by the name of the file. -/
theorem ofText_pathIn {directory fileName : String} (somewhere : directory ≠ "")
    (unslashed : '/' ∉ fileName.toList) (named : fileName ≠ "")
    : (Path.ofText (pathIn directory fileName)).absolute = (Path.ofText directory).absolute
      ∧ (Path.ofText (pathIn directory fileName)).names
        = (Path.ofText directory).names ++ [fileName] := by
  simp only [Path.absolute_ofText, Path.names_ofText]
  unfold pathIn
  split
  · rename_i slashed
    obtain ⟨front, whole⟩ := (endsWith_slash_iff directory).mp slashed
    have path : (directory ++ fileName).toList = front ++ '/' :: fileName.toList := by
      simp [whole]
    rw [path, whole, Path.namesIn_append, Path.namesIn_append,
      Path.namesIn_toList unslashed named]
    refine ⟨?_, ?_⟩
    · cases front <;> rfl
    · rw [show Path.namesIn [] = [] from rfl, List.append_nil]
  · have path : (directory ++ "/" ++ fileName).toList
        = directory.toList ++ '/' :: fileName.toList := by
      simp
    rw [path, Path.namesIn_append, Path.namesIn_toList unslashed named]
    refine ⟨?_, rfl⟩
    cases chars : directory.toList with
    | nil => exact (somewhere (String.toList_eq_nil_iff.mp chars)).elim
    | cons c rest => rfl

/-- The path of a file in a directory takes that of the directory, the name and a slash at most. -/
theorem utf8ByteSize_pathIn (directory fileName : String)
    : directory.utf8ByteSize ≤ (pathIn directory fileName).utf8ByteSize
      ∧ (pathIn directory fileName).utf8ByteSize
        ≤ directory.utf8ByteSize + 1 + fileName.utf8ByteSize := by
  have slash : "/".utf8ByteSize = 1 := rfl
  unfold pathIn
  split
  · rw [String.utf8ByteSize_append]
    omega
  · rw [String.utf8ByteSize_append, String.utf8ByteSize_append, slash]
    omega

-----------------------------------------------------------------------------------------
-- The nodes of a tree
-----------------------------------------------------------------------------------------

namespace FileTree

/-- Placing a node changes what is at its location, and nowhere else. -/
theorem get?_set (tree : FileTree) {location : Location} (below : location ≠ []) (node : Node)
    (other : Location)
    : (tree.set location node).get? other
      = if other = location then some node else tree.get? other := by
  have kept (apart : other ≠ location) (nodes : List (Location × Node))
      : (nodes.filter (·.1 != location)).lookup other = nodes.lookup other := by
    induction nodes with
    | nil => rfl
    | cons head rest ih =>
        by_cases replaced : head.1 = location
        · rw [List.filter_cons_of_neg (by simp [replaced]), ih, List.lookup_cons, replaced,
            beq_eq_false_iff_ne.mpr apart]
        · rw [List.filter_cons_of_pos (by simpa using replaced), List.lookup_cons,
            List.lookup_cons, ih]
  by_cases same : other = location
  · simp [get?, set, same, below]
  · simp only [get?, set, List.lookup_cons, kept same, beq_eq_false_iff_ne.mpr same, if_neg same]

end FileTree

-----------------------------------------------------------------------------------------
-- Following names
-----------------------------------------------------------------------------------------

namespace World

/-- A name leads to a directory, or to what the tree has at its location. -/
theorem enter_finds {world : World} {directory location : Location} {name : String}
    {node : Option Node} (entered : world.enter directory name = .ok (location, node))
    : node = some .directory ∨ location ≠ [] ∧ node = world.tree.get? location := by
  unfold enter at entered
  split at entered
  · cases entered
    exact .inl rfl
  · split at entered
    · cases entered
      exact .inl rfl
    · split at entered
      · cases entered
      · cases entered
        exact .inr ⟨by simp, rfl⟩

/-- A name of its own leads right below the directory. -/
theorem enter_own_iff {world : World} {directory location : Location} {name : String}
    {node : Option Node} (own : name ≠ "." ∧ name ≠ "..")
    : world.enter directory name = .ok (location, node)
      ↔ location = directory ++ [name] ∧ node = world.tree.get? location
        ∧ name.utf8ByteSize ≤ nameLimit := by
  simp only [enter, if_neg own.1, if_neg own.2]
  split
  · rename_i long
    constructor
    · nofun
    · rintro ⟨_, _, short⟩
      omega
  · rename_i short
    constructor
    · intro entered
      cases entered
      exact ⟨rfl, rfl, Nat.le_of_not_lt short⟩
    · rintro ⟨rfl, rfl, _⟩
      rfl

/-- A directory leads on, whether names follow or not. -/
theorem follow_of_enter {world : World} {directory place : Location} {name : String}
    (entered : world.enter directory name = .ok (place, some .directory)) (names : List String)
    : world.follow directory (name :: names) = world.follow place names := by
  cases names with
  | nil => exact entered
  | cons next names => simp only [follow, entered, bind, Except.bind]

/-- All names but the last one lead to directories. -/
theorem enter_of_follow {world : World} {directory : Location} {name next : String}
    {names : List String} {result : Location × Option Node}
    (followed : world.follow directory (name :: next :: names) = .ok result)
    : ∃ place,
        world.enter directory name = .ok (place, some .directory)
        ∧ world.follow place (next :: names) = .ok result := by
  simp only [follow] at followed
  obtain ⟨⟨place, node⟩, entered, onward⟩ := bind_eq_ok_iff.mp followed
  match node with
  | some .directory => exact ⟨place, entered, onward⟩
  | some (.file _) => cases onward
  | none => cases onward

/-- Names that lead to a directory lead through one from the first on. -/
theorem enter_of_follow_directory {world : World} {directory place : Location} {name : String}
    {names : List String}
    (followed : world.follow directory (name :: names) = .ok (place, some .directory))
    : ∃ inner,
        world.enter directory name = .ok (inner, some .directory)
        ∧ world.follow inner names = .ok (place, some .directory) := by
  cases names with
  | nil => exact ⟨place, followed, rfl⟩
  | cons next names => exact enter_of_follow followed

/-- What names lead to that is no directory is what the tree has there, by induction on the
names.
-/
theorem follow_finds {world : World} {directory location : Location} {names : List String}
    {node : Option Node} (followed : world.follow directory names = .ok (location, node))
    : node = some .directory ∨ location ≠ [] ∧ node = world.tree.get? location := by
  induction names generalizing directory with
  | nil =>
      cases followed
      exact .inl rfl
  | cons name names ih =>
      cases names with
      | nil => exact enter_finds followed
      | cons next names =>
          obtain ⟨_, _, onward⟩ := enter_of_follow followed
          exact ih onward

/-- The last name is followed from the directory that the names in front of it lead to. -/
theorem follow_concat_iff {world : World} {directory : Location} {names : List String}
    {name : String} {result : Location × Option Node}
    : world.follow directory (names ++ [name]) = .ok result
      ↔ ∃ place,
          world.follow directory names = .ok (place, some .directory)
          ∧ world.enter place name = .ok result := by
  induction names generalizing directory with
  | nil =>
      constructor
      · intro entered
        exact ⟨directory, rfl, entered⟩
      · rintro ⟨place, stayed, entered⟩
        cases stayed
        exact entered
  | cons first names ih =>
      constructor
      · intro followed
        have entered : ∃ place, world.enter directory first = .ok (place, some .directory)
            ∧ world.follow place (names ++ [name]) = .ok result := by
          cases names with
          | nil => exact enter_of_follow followed
          | cons next names => exact enter_of_follow followed
        obtain ⟨inner, entered, onward⟩ := entered
        obtain ⟨place, followed, last⟩ := ih.mp onward
        exact ⟨place, (follow_of_enter entered names).trans followed, last⟩
      · rintro ⟨place, followed, last⟩
        obtain ⟨inner, entered, onward⟩ := enter_of_follow_directory followed
        rw [List.cons_append, follow_of_enter entered]
        exact ih.mpr ⟨place, onward, last⟩

/-- Every directory of one world is one of the other, and both are worked in at the same place. -/
structure Extends (before after : World) : Prop where
  workingDirectory : after.workingDirectory = before.workingDirectory
  directories
    : ∀ location,
        before.tree.get? location = some .directory → after.tree.get? location = some .directory

namespace Extends

variable {before after : World}

theorem trans {middle : World} (first : before.Extends middle) (second : middle.Extends after)
    : before.Extends after where
  workingDirectory := second.workingDirectory.trans first.workingDirectory
  directories := by
    intro location found
    exact second.directories location (first.directories location found)

theorem enter (kept : before.Extends after) {directory place : Location} {name : String}
    (entered : before.enter directory name = .ok (place, some .directory))
    : after.enter directory name = .ok (place, some .directory) := by
  unfold World.enter at entered ⊢
  split
  · simpa [*] using entered
  · split
    · simpa [*] using entered
    · simp only [*, ↓reduceIte] at entered
      split at entered
      · cases entered
      · rename_i short
        injection entered with same
        injection same with here found
        simp only [if_neg short, ← here, kept.directories _ found]

/-- Names lead to the same directory as before, by induction on the names. -/
theorem follow (kept : before.Extends after) {directory place : Location} {names : List String}
    (followed : before.follow directory names = .ok (place, some .directory))
    : after.follow directory names = .ok (place, some .directory) := by
  induction names generalizing directory with
  | nil => exact followed
  | cons name names ih =>
      obtain ⟨inner, entered, onward⟩ := enter_of_follow_directory followed
      rw [follow_of_enter (kept.enter entered)]
      exact ih onward

theorem start (kept : before.Extends after) (path : Path)
    : after.start path = before.start path := by
  rw [World.start, World.start, kept.workingDirectory]

theorem locate (kept : before.Extends after) {path : Path} {place : Location}
    (located : before.locate path = .ok (place, some .directory))
    : after.locate path = .ok (place, some .directory) := by
  unfold World.locate at located ⊢
  split at located
  · cases located
  · rename_i short
    rw [if_neg short, kept.start]
    exact kept.follow located

end Extends

-----------------------------------------------------------------------------------------
-- Files and directories made
-----------------------------------------------------------------------------------------

/-- A name that can only be that of an entry in a directory. -/
structure IsOwnName (name : String) : Prop where
  unslashed : '/' ∉ name.toList
  named : name ≠ ""
  own : name ≠ "." ∧ name ≠ ".."

/-- The world with a file at a location. -/
def withFile (world : World) (location : Location) (content : ByteArray) : World :=
  { world with tree := world.tree.set location (.file content) }

theorem extends_withFile {world : World} {location : Location} (below : location ≠ [])
    (free : world.tree.get? location ≠ some .directory) (content : ByteArray)
    : world.Extends (world.withFile location content) where
  workingDirectory := rfl
  directories := by
    intro other found
    have apart : other ≠ location := by
      intro same
      rw [same] at found
      exact free found
    rw [withFile, FileTree.get?_set _ below, if_neg apart, found]

/-- A file that is written into a directory stands right below it. That goes through unless the
path or the name is too long or a directory is in the way.
-/
theorem write_in_iff {world after : World} {directory fileName : String} {content : ByteArray}
    (somewhere : directory ≠ "") (name : IsOwnName fileName)
    : world.write (.ofText (pathIn directory fileName)) content = .ok after
      ↔ (pathIn directory fileName).utf8ByteSize ≤ pathLimit
        ∧ fileName.utf8ByteSize ≤ nameLimit
        ∧ ∃ place,
            world.locate (.ofText directory) = .ok (place, some .directory)
            ∧ world.tree.get? (place ++ [fileName]) ≠ some .directory
            ∧ after = world.withFile (place ++ [fileName]) content := by
  obtain ⟨absolute, names⟩ := ofText_pathIn somewhere name.unslashed name.named
  have start : world.start (.ofText (pathIn directory fileName))
      = world.start (.ofText directory) := by
    rw [World.start, World.start, absolute]
  have shorter := (utf8ByteSize_pathIn directory fileName).1
  constructor
  · intro written
    obtain ⟨⟨location, node⟩, located, placed⟩ := bind_eq_ok_iff.mp written
    unfold locate at located
    rw [Path.toText_ofText, start, names] at located
    split at located
    · cases located
    · rename_i short
      obtain ⟨place, followed, entered⟩ := follow_concat_iff.mp located
      obtain ⟨rfl, rfl, shortName⟩ := (enter_own_iff name.own).mp entered
      refine ⟨Nat.le_of_not_lt short, shortName, place, ?_, ?_⟩
      · rw [locate, Path.toText_ofText, if_neg (by omega)]
        exact followed
      · cases found : world.tree.get? (place ++ [fileName]) with
        | none =>
            rw [found] at placed
            exact ⟨nofun, (Except.ok.inj placed).symm⟩
        | some node =>
            rw [found] at placed
            cases node with
            | file former => exact ⟨nofun, (Except.ok.inj placed).symm⟩
            | directory => cases placed
  · rintro ⟨short, shortName, place, located, free, rfl⟩
    have entered : world.enter place fileName
        = .ok (place ++ [fileName], world.tree.get? (place ++ [fileName])) :=
      (enter_own_iff name.own).mpr ⟨rfl, rfl, shortName⟩
    have reached : world.locate (.ofText (pathIn directory fileName))
        = .ok (place ++ [fileName], world.tree.get? (place ++ [fileName])) := by
      unfold locate at located ⊢
      rw [Path.toText_ofText, if_neg (by omega)] at located ⊢
      rw [start, names]
      exact follow_concat_iff.mpr ⟨place, located, entered⟩
    simp only [write, reached]
    cases found : world.tree.get? (place ++ [fileName]) with
    | none => rfl
    | some node =>
        cases node with
        | file former => rfl
        | directory => exact (free found).elim

end World

end AgentLang.CommandLine
