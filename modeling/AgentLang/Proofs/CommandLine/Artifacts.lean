import AgentLang.Proofs.CommandLine.Directories
import AgentLang.Proofs.Lexing.Words

/-! Writing the artifacts of a build. The directories that are missing are made first, and nothing
else changes with that; then each artifact goes to a file of its own right below the output
directory, since a program goes by an identifier.
-/

namespace AgentLang.CommandLine

-----------------------------------------------------------------------------------------
-- Parts of a run
-----------------------------------------------------------------------------------------

/-- A part of a run, started in one world, ends with a result in another. -/
def Ends {α : Type} (part : ExceptT Report (StateM World) α) (before : World)
    (result : Except Report α) (after : World)
    : Prop :=
  part.run.run before = (result, after)

namespace Ends

variable {α β : Type} {part : ExceptT Report (StateM World) α}
  {next : α → ExceptT Report (StateM World) β} {before middle after : World}

theorem pure (value : α) (world : World)
    : Ends (Pure.pure value) world (.ok value) world :=
  rfl

theorem bind {value : α} {result : Except Report β} (first : Ends part before (.ok value) middle)
    (second : Ends (next value) middle result after)
    : Ends (part >>= next) before result after := by
  unfold Ends
  rw [ExceptT.run_bind]
  exact (run_bind_of_run first).trans second

theorem stop {report : Report} (first : Ends part before (.error report) after)
    : Ends (part >>= next) before (.error report) after := by
  unfold Ends
  rw [ExceptT.run_bind]
  exact run_bind_of_run first

/-- A part that ends well has ended well all along. -/
theorem of_bind {value : β} (whole : Ends (part >>= next) before (.ok value) after)
    : ∃ earlier middle,
        Ends part before (.ok earlier) middle ∧ Ends (next earlier) middle (.ok value) after := by
  unfold Ends at whole
  rw [ExceptT.run_bind] at whole
  cases ended : part.run.run before with
  | mk result middle =>
      have onward := (run_bind_of_run ended).symm.trans whole
      cases result with
      | ok earlier => exact ⟨earlier, middle, ended, onward⟩
      | error report => cases onward

end Ends

/-- An operation of the system ends as a part of a run, whatever it gives. -/
theorem ends_lift_iff {α : Type} {operation : StateM World α} {before after : World} {value : α}
    : Ends (liftM operation) before (.ok value) after
      ↔ operation.run before = (value, after) := by
  have lifted : (liftM operation : ExceptT Report (StateM World) α).run.run before
      = (.ok (operation.run before).1, (operation.run before).2) :=
    rfl
  unfold Ends
  rw [lifted, Prod.ext_iff, Prod.ext_iff, Except.ok.injEq]

/-- An attempt ends well where the operation does. -/
theorem ends_attempt_iff {α : Type} {activity : String}
    {operation : StateM World (Except SystemError α)} {before after : World} {value : α}
    : Ends (attempt activity operation) before (.ok value) after
      ↔ operation.run before = (.ok value, after) := by
  constructor
  · intro ended
    obtain ⟨result, middle, lifted, onward⟩ := ended.of_bind
    cases result with
    | ok found =>
        cases onward
        exact ends_lift_iff.mp lifted
    | error cause => cases onward
  · intro ran
    exact (ends_lift_iff.mpr ran).bind (.pure value after)

-----------------------------------------------------------------------------------------
-- The artifacts
-----------------------------------------------------------------------------------------

variable {order : Context.Order}

/-- The files of a place hold the given contents, and nothing else has changed. -/
structure Deposits (before after : World) (place : Location) (files : List Artifact)
    : Prop where
  output : after.output = before.output
  written
    : ∀ file ∈ files,
        after.tree.get? (place ++ [file.fileName]) = some (.file file.content.toUTF8)
  others
    : ∀ location,
        (∀ file ∈ files, location ≠ place ++ [file.fileName])
        → after.tree.get? location = before.tree.get? location

theorem Deposits.cons {before after : World} {place : Location} {file : Artifact}
    {files : List Artifact} (unlike : ∀ other ∈ files, file.fileName ≠ other.fileName)
    (later
      : Deposits (before.withFile (place ++ [file.fileName]) file.content.toUTF8) after place files)
    : Deposits before after place (file :: files) where
  output := later.output
  written := by
    intro other member
    rcases List.mem_cons.mp member with rfl | member
    · rw [later.others, World.withFile, FileTree.get?_set _ (by simp), if_pos rfl]
      intro another listed same
      exact unlike another listed (by simpa using same)
    · exact later.written other member
  others := by
    intro location apart
    obtain ⟨notFirst, notLater⟩ := List.forall_mem_cons.mp apart
    rw [later.others location notLater, World.withFile, FileTree.get?_set _ (by simp),
      if_neg notFirst]

theorem ends_write_iff {activity path content : String} {before after : World}
    : Ends (attempt activity ((World.hostIn order).writeFile path content)) before (.ok ()) after
      ↔ before.write (.ofText path) content.toUTF8 = .ok after := by
  have ran := run_apply (·.write (.ofText path) content.toUTF8) before
  rw [ends_attempt_iff, World.hostIn, ran]
  cases before.write (.ofText path) content.toUTF8 with
  | ok world =>
      constructor
      · intro same
        exact congrArg Except.ok (Prod.mk.inj same).2
      · intro same
        exact congrArg (Except.ok (), ·) (Except.ok.inj same)
  | error cause =>
      constructor
      · intro same
        cases (Prod.mk.inj same).1
      · intro same
        cases same

/-- Files that were written into a directory one after the other are there, by induction on the
files. Each one leaves the path to the directory as it was.
-/
theorem ends_writes {directory : String} (somewhere : directory ≠ "") {files : List Artifact}
    (names : ∀ file ∈ files, World.IsOwnName file.fileName)
    (distinct : (files.map (·.fileName)).Nodup) {before after : World} {place : Location}
    (located : before.locate (.ofText directory) = .ok (place, some .directory))
    (written
      : Ends
          (files.forM fun file =>
            attempt file.activity
              ((World.hostIn order).writeFile (pathIn directory file.fileName) file.content))
          before (.ok ()) after)
    : Deposits before after place files
      ∧ before.Extends after
      ∧ after.locate (.ofText directory) = .ok (place, some .directory) := by
  induction files generalizing before with
  | nil =>
      cases written
      exact ⟨⟨rfl, nofun, fun _ _ => rfl⟩, ⟨rfl, fun _ found => found⟩, located⟩
  | cons file files ih =>
      obtain ⟨nameFirst, namesLater⟩ := List.forall_mem_cons.mp names
      rw [List.map_cons, List.nodup_cons] at distinct
      obtain ⟨_, middle, first, later⟩ := written.of_bind
      obtain ⟨_, _, place', located', free, rfl⟩ :=
        (World.write_in_iff somewhere nameFirst).mp (ends_write_iff.mp first)
      cases located.symm.trans located'
      have kept := World.extends_withFile (by simp) free file.content.toUTF8
      obtain ⟨deposits, onward, stays⟩ := ih namesLater distinct.2 (kept.locate located) later
      refine ⟨.cons ?_ deposits, kept.trans onward, stays⟩
      intro other member same
      exact distinct.1 (List.mem_map.mpr ⟨other, member, same.symm⟩)

/-- The world with files right below a place, the later ones in front of the earlier ones. -/
def World.withFiles (world : World) (place : Location) (files : List Artifact) : World :=
  files.foldl
    (fun world file => world.withFile (place ++ [file.fileName]) file.content.toUTF8) world

/-- A file takes the place of no other one's directory. -/
theorem World.withFile_free {world : World} (place : Location) (file : Artifact)
    {location : Location} (free : world.tree.get? location ≠ some .directory)
    : (world.withFile (place ++ [file.fileName]) file.content.toUTF8).tree.get? location
      ≠ some .directory := by
  rw [World.withFile, FileTree.get?_set _ (by simp)]
  split
  · simp
  · exact free

/-- Files can be written into a directory when their paths and names are short enough and no
directory is in the way, by induction on the files.
-/
theorem ends_writes_withFiles {directory : String} (somewhere : directory ≠ "")
    {files : List Artifact} (names : ∀ file ∈ files, World.IsOwnName file.fileName)
    (short
      : ∀ file ∈ files,
          (pathIn directory file.fileName).utf8ByteSize ≤ World.pathLimit
          ∧ file.fileName.utf8ByteSize ≤ World.nameLimit)
    {before : World} {place : Location}
    (located : before.locate (.ofText directory) = .ok (place, some .directory))
    (free : ∀ file ∈ files, before.tree.get? (place ++ [file.fileName]) ≠ some .directory)
    : Ends
        (files.forM fun file =>
          attempt file.activity
            ((World.hostIn order).writeFile (pathIn directory file.fileName) file.content))
        before (.ok ()) (before.withFiles place files) := by
  induction files generalizing before with
  | nil => rfl
  | cons file files ih =>
      obtain ⟨nameFirst, namesLater⟩ := List.forall_mem_cons.mp names
      obtain ⟨⟨shortPath, shortName⟩, shortLater⟩ := List.forall_mem_cons.mp short
      obtain ⟨freeFirst, freeLater⟩ := List.forall_mem_cons.mp free
      have written : before.write (.ofText (pathIn directory file.fileName)) file.content.toUTF8
          = .ok (before.withFile (place ++ [file.fileName]) file.content.toUTF8) :=
        (World.write_in_iff somewhere nameFirst).mpr
          ⟨shortPath, shortName, place, located, freeFirst, rfl⟩
      have kept := World.extends_withFile (by simp) freeFirst file.content.toUTF8
      have later := ih namesLater shortLater (kept.locate located) fun other member =>
        World.withFile_free place file (freeLater other member)
      exact .bind (ends_write_iff.mpr written) later

/-- Word characters in front of an ending are the name of a file. -/
theorem isOwnName_append {stem ending : String} (word : ∀ c ∈ stem.toList, isWordChar c = true)
    (unslashed : '/' ∉ ending.toList) (long : 2 < ending.toList.length)
    : World.IsOwnName (stem ++ ending) where
  unslashed := by
    rw [String.toList_append, List.mem_append]
    rintro (member | member)
    · cases word '/' member
    · exact unslashed member
  named := by
    intro empty
    have sizes : (stem ++ ending).toList.length = 0 := by rw [empty]; rfl
    rw [String.toList_append, List.length_append] at sizes
    omega
  own := by
    constructor
    all_goals
      intro same
      have sizes : (stem ++ ending).toList.length ≤ 2 := by rw [same]; decide
      rw [String.toList_append, List.length_append] at sizes
      omega

theorem append_ne_append {stem stem' ending ending' : String} (c c' : Char)
    (ends : ending.toList.getLast? = some c) (ends' : ending'.toList.getLast? = some c')
    (apart : c ≠ c')
    : stem ++ ending ≠ stem' ++ ending' := by
  intro same
  have letters := congrArg (·.toList.getLast?) same
  simp [ends, ends'] at letters
  exact apart letters

/-- The artifacts of a program with an identifier for its name have names of their own. -/
theorem artifacts_names {result : Build} (identifier : isIdentifier result.compiled.name = true)
    : (∀ file ∈ artifacts order result, World.IsOwnName file.fileName)
      ∧ ((artifacts order result).map (·.fileName)).Nodup := by
  have word : ∀ c ∈ result.compiled.name.toList, isWordChar c = true := by
    have whole := isWord_of_isIdentifier identifier
    simp only [isWord, Bool.and_eq_true, List.all_eq_true] at whole
    exact whole.2
  have symbolWord : ∀ c ∈ (Header.symbol result.compiled.name).toList, isWordChar c = true := by
    intro c member
    simp only [Header.symbol, String.toList_ofList, List.mem_map] at member
    obtain ⟨former, listed, rfl⟩ := member
    split
    · rfl
    · exact word former listed
  refine ⟨?_, ?_⟩
  · simp only [artifacts, List.forall_mem_cons, List.not_mem_nil, false_implies, implies_true,
      and_true]
    exact ⟨isOwnName_append word (by decide) (by decide),
      isOwnName_append symbolWord (by decide) (by decide),
      isOwnName_append word (by decide) (by decide)⟩
  · -- The last letters of the three names differ.
    simp only [artifacts, List.map_cons, List.map_nil, List.nodup_cons, List.mem_cons,
      List.not_mem_nil, not_or, or_false, not_false_eq_true, List.nodup_nil, and_true]
    exact ⟨⟨append_ne_append 't' 'h' rfl rfl (by decide),
      append_ne_append 't' 'n' rfl rfl (by decide)⟩, append_ne_append 'h' 'n' rfl rfl (by decide)⟩

/-- From one world to another exactly the given files have changed, all right below a place and
under distinct names. Beside them, directories on the way of a path may have been made where nothing
was.
-/
structure ChangesOnly (before after : World) (path : Path) (place : Location)
    (files : List (String × String))
    : Prop where
  distinct : (files.map (·.1)).Nodup
  written : ∀ file ∈ files, after.tree.get? (place ++ [file.1]) = some (.file file.2.toUTF8)
  others
    : ∀ location,
        (∀ file ∈ files, location ≠ place ++ [file.1])
        → after.tree.get? location = before.tree.get? location
          ∨ before.tree.get? location = none
            ∧ after.tree.get? location = some .directory
            ∧ after.OnTheWay path location

/-- The artifacts can be written once their directory is there, when their names are short enough
and no directory is in the way.
-/
theorem ends_writeArtifacts_of_ensured {directory : String} (somewhere : directory ≠ "")
    {result : Build} (identifier : isIdentifier result.compiled.name = true)
    (short
      : ∀ file ∈ artifacts order result,
          file.fileName.utf8ByteSize ≤ World.nameLimit
          ∧ directory.utf8ByteSize + 1 + file.fileName.utf8ByteSize ≤ World.pathLimit)
    {world prepared : World} {place : Location}
    (ensured
      : (ensureDirectories (World.hostIn order) (.ofText directory)).run world = (.ok (), prepared))
    (located : prepared.locate (.ofText directory) = .ok (place, some .directory))
    (free
      : ∀ file ∈ artifacts order result,
          prepared.tree.get? (place ++ [file.fileName]) ≠ some .directory)
    : Ends (writeArtifacts (World.hostIn order) directory result) world (.ok ())
        (prepared.withFiles place (artifacts order result)) := by
  have shortPaths : ∀ file ∈ artifacts order result,
      (pathIn directory file.fileName).utf8ByteSize ≤ World.pathLimit
      ∧ file.fileName.utf8ByteSize ≤ World.nameLimit := by
    intro file member
    obtain ⟨shortName, fits⟩ := short file member
    exact ⟨Nat.le_trans (utf8ByteSize_pathIn directory file.fileName).2 fits, shortName⟩
  exact .bind (ends_attempt_iff.mpr ensured)
    (ends_writes_withFiles somewhere (artifacts_names identifier).1 shortPaths located free)

/-- They can be written where the way to their directory is clear, whether that is there or not. -/
theorem ends_writeArtifacts_clear {directory : String} (somewhere : directory ≠ "")
    {result : Build} (identifier : isIdentifier result.compiled.name = true)
    (short
      : ∀ file ∈ artifacts order result,
          file.fileName.utf8ByteSize ≤ World.nameLimit
          ∧ directory.utf8ByteSize + 1 + file.fileName.utf8ByteSize ≤ World.pathLimit)
    {world : World} (clear : world.Clear (.ofText directory))
    (free
      : ∀ file ∈ artifacts order result,
          world.tree.get?
              (world.start (.ofText directory) ++ (Path.ofText directory).names ++ [file.fileName])
            ≠ some .directory)
    : ∃ final,
        Ends (writeArtifacts (World.hostIn order) directory result) world (.ok ()) final := by
  have proper := Path.proper_ofText somewhere
  obtain ⟨prepared, ensured, located⟩ := run_ensureDirectories_clear order proper clear
  have prepares := (Preparing.ensureDirectories (.refl proper)).prepares ensured
  refine ⟨_, ends_writeArtifacts_of_ensured somewhere identifier short ensured located ?_⟩
  intro file member found
  rcases prepares.nodes _ with same | ⟨_, _, way⟩
  · exact free file member (same.symm.trans found)
  · -- A directory on the way does not stand below the last one.
    obtain ⟨front, first, same⟩ := (clear.of_prepares prepares).onTheWay way
    have lengths := congrArg List.length same
    have shorter := first.length_le
    rw [prepares.extended.start] at lengths
    simp only [List.length_append, List.length_singleton] at lengths
    omega

/-- Writing the artifacts changes three files in the output directory, and prints nothing. -/
theorem changes_of_writeArtifacts {directory : String} (somewhere : directory ≠ "")
    {result : Build} (identifier : isIdentifier result.compiled.name = true)
    {before after : World}
    (written : Ends (writeArtifacts (World.hostIn order) directory result) before (.ok ()) after)
    : after.output = before.output
      ∧ ∃ place,
          after.locate (.ofText directory) = .ok (place, some .directory)
          ∧ ChangesOnly before after (.ofText directory) place
              ((artifacts order result).map fun file => (file.fileName, file.content)) := by
  obtain ⟨_, prepared, made, filled⟩ := written.of_bind
  have proper := Path.proper_ofText somewhere
  have prepares : before.Prepares (.ofText directory) prepared :=
    (Preparing.ensureDirectories (.refl proper)).prepares (ends_attempt_iff.mp made)
  obtain ⟨names, distinct⟩ := artifacts_names identifier
  obtain ⟨place, located⟩ : ∃ place,
      prepared.locate (.ofText directory) = .ok (place, some .directory) := by
    obtain ⟨_, middle, first, _⟩ := filled.of_bind
    obtain ⟨_, _, place, located, _⟩ :=
      (World.write_in_iff somewhere (names _ List.mem_cons_self)).mp (ends_write_iff.mp first)
    exact ⟨place, located⟩
  obtain ⟨deposits, kept, stays⟩ := ends_writes somewhere names distinct located filled
  refine ⟨deposits.output.trans prepares.output, place, stays, ?_, ?_, ?_⟩
  · rwa [List.map_map]
  · rw [List.forall_mem_map]
    exact deposits.written
  · intro location apart
    rw [List.forall_mem_map] at apart
    rw [deposits.others location apart]
    rcases prepares.nodes location with same | ⟨missing, appeared, way⟩
    · exact .inl same
    · exact .inr ⟨missing, appeared, way.of_extends kept⟩

end AgentLang.CommandLine
