import AgentLang.Proofs.CommandLine.Traces
import AgentLang.Proofs.Header

/-! Programs in one output directory. Whatever becomes of a run, it makes directories and writes
files under the names of its own artifacts, so the artifacts of another program outlast it. The
names of headers and of their symbols do not tell a hyphen from an underscore, though, and two
programs whose names differ in nothing else have one header between them.
-/

namespace AgentLang.CommandLine

-----------------------------------------------------------------------------------------
-- What writing spares
-----------------------------------------------------------------------------------------

/-- Directories have been made where nothing was, and files with the given names were written where
no directory was; nothing else has changed in the tree.
-/
structure World.Spares (names : List String) (before after : World) : Prop where
  workingDirectory : after.workingDirectory = before.workingDirectory
  nodes
    : ∀ location,
        after.tree.get? location = before.tree.get? location
        ∨ (before.tree.get? location = none ∧ after.tree.get? location = some .directory)
        ∨ (before.tree.get? location ≠ some .directory
          ∧ (∃ place, ∃ name ∈ names, location = place ++ [name])
          ∧ ∃ content, after.tree.get? location = some (.file content))

namespace World.Spares

variable {names : List String} {before middle after : World}

theorem of_tree (tree : after.tree = before.tree)
    (workingDirectory : after.workingDirectory = before.workingDirectory)
    : Spares names before after :=
  ⟨workingDirectory, fun _ => .inl (by rw [tree])⟩

theorem of_prepares {path : Path} (prepares : before.Prepares path after)
    : Spares names before after where
  workingDirectory := prepares.workingDirectory
  nodes := by
    intro location
    rcases prepares.nodes location with same | ⟨missing, made, _⟩
    · exact .inl same
    · exact .inr (.inl ⟨missing, made⟩)

theorem withFile (place : Location) {name : String} (member : name ∈ names)
    (free : before.tree.get? (place ++ [name]) ≠ some .directory) (content : ByteArray)
    : Spares names before (before.withFile (place ++ [name]) content) where
  workingDirectory := rfl
  nodes := by
    intro location
    rw [World.withFile, FileTree.get?_set _ (by simp)]
    split
    · rename_i same
      subst same
      exact .inr (.inr ⟨free, ⟨place, name, member, rfl⟩, content, rfl⟩)
    · exact .inl rfl

/-- What both of two changes spare they spare together: a directory stays one, and a file that is
written twice is one that was written.
-/
theorem trans (first : Spares names before middle) (second : Spares names middle after)
    : Spares names before after where
  workingDirectory := second.workingDirectory.trans first.workingDirectory
  nodes := by
    intro location
    rcases second.nodes location with same | ⟨missing, made⟩ | ⟨free, named, content, written⟩
    · rw [same]
      exact first.nodes location
    · rcases first.nodes location with same | ⟨_, earlier⟩ | ⟨_, _, content, earlier⟩
      · exact .inr (.inl ⟨same.symm.trans missing, made⟩)
      · rw [earlier] at missing
        cases missing
      · rw [earlier] at missing
        cases missing
    · rcases first.nodes location with same | ⟨_, earlier⟩ | ⟨freeBefore, _⟩
      · rw [same] at free
        exact .inr (.inr ⟨free, named, content, written⟩)
      · exact (free earlier).elim
      · exact .inr (.inr ⟨freeBefore, named, content, written⟩)

theorem extended (spared : Spares names before after) : before.Extends after where
  workingDirectory := spared.workingDirectory
  directories := by
    intro location found
    rcases spared.nodes location with same | ⟨missing, _⟩ | ⟨free, _⟩
    · exact same.trans found
    · rw [found] at missing
      cases missing
    · exact (free found).elim

/-- A file under another name is as it was. -/
theorem file (spared : Spares names before after) {place : Location} {name : String}
    (other : name ∉ names) {content : ByteArray}
    (found : before.tree.get? (place ++ [name]) = some (.file content))
    : after.tree.get? (place ++ [name]) = some (.file content) := by
  rcases spared.nodes (place ++ [name]) with same | ⟨missing, _⟩ | ⟨_, named, _⟩
  · exact same.trans found
  · rw [found] at missing
    cases missing
  · obtain ⟨place', name', member, same⟩ := named
    cases (List.append_inj' same rfl).2
    exact (other member).elim

end World.Spares

/-- Whatever a part of a run gives, it spares all but the files with the given names. -/
def Sparing {α : Type} (names : List String) (part : ExceptT Report (StateM World) α) : Prop :=
  ∀ before : World, before.Spares names (part.run.run before).2

namespace Sparing

variable {α β : Type} {names : List String} {order : Context.Order}

theorem pure (value : α) : Sparing names (Pure.pure value) := fun _ => .of_tree rfl rfl

theorem bind {part : ExceptT Report (StateM World) α} {next : α → ExceptT Report (StateM World) β}
    (first : Sparing names part) (second : ∀ value, Sparing names (next value))
    : Sparing names (part >>= next) := by
  intro before
  have spared := first before
  rw [ExceptT.run_bind]
  cases ran : part.run.run before with
  | mk result middle =>
      rw [ran] at spared
      rw [run_bind_of_run ran]
      cases result with
      | ok value => exact spared.trans (second value middle)
      | error report => exact spared

theorem attempt {activity : String} {operation : StateM World (Except SystemError α)}
    (spared : ∀ before : World, before.Spares names (operation.run before).2)
    : Sparing names (attempt activity operation) := by
  refine bind spared ?_
  intro result
  cases result with
  | ok value => exact pure value
  | error cause => exact fun _ => .of_tree rfl rfl

/-- A file that is not written changes nothing. -/
theorem writeFile {directory fileName : String} (somewhere : directory ≠ "")
    (own : World.IsOwnName fileName) (member : fileName ∈ names) (activity content : String)
    : Sparing names
        (CommandLine.attempt activity
          ((World.hostIn order).writeFile (pathIn directory fileName) content)) := by
  refine attempt ?_
  intro before
  rw [World.hostIn, run_apply]
  cases written : before.write (.ofText (pathIn directory fileName)) content.toUTF8 with
  | error cause => exact .of_tree rfl rfl
  | ok after =>
      obtain ⟨_, _, place, _, free, rfl⟩ := (World.write_in_iff somewhere own).mp written
      exact .withFile place member free content.toUTF8

/-- Files that are written one after the other, up to the first that fails, by induction. -/
theorem writeFiles {directory : String} (somewhere : directory ≠ "") {files : List Artifact}
    (own : ∀ file ∈ files, World.IsOwnName file.fileName)
    (members : ∀ file ∈ files, file.fileName ∈ names)
    : Sparing names
        (files.forM fun file =>
          CommandLine.attempt file.activity
            ((World.hostIn order).writeFile (pathIn directory file.fileName) file.content)) := by
  induction files with
  | nil => exact pure ()
  | cons file files ih =>
      obtain ⟨ownFirst, ownLater⟩ := List.forall_mem_cons.mp own
      obtain ⟨first, later⟩ := List.forall_mem_cons.mp members
      exact bind (writeFile somewhere ownFirst first _ _) fun _ => ih ownLater later

theorem writeArtifacts {directory : String} (somewhere : directory ≠ "") {result : Build}
    (identifier : isIdentifier result.compiled.name = true)
    : Sparing ((artifacts order result).map (·.fileName))
        (writeArtifacts (World.hostIn order) directory result) := by
  refine bind ?_ fun _ => ?_
  · have higher := Path.Above.refl (Path.proper_ofText somewhere)
    exact attempt fun before => .of_prepares (Preparing.ensureDirectories higher before)
  · exact writeFiles somewhere (artifacts_names identifier).1 fun _ member =>
      List.mem_map_of_mem member

end Sparing

-----------------------------------------------------------------------------------------
-- Names apart
-----------------------------------------------------------------------------------------

/-- The persisted form and the dump of a program have names that no artifact of a program with
another name has.
-/
theorem fileName_not_mem_artifacts (order : Context.Order) {name : String} (result : Build)
    (apart : name ≠ result.compiled.name)
    : name ++ ".bl.out" ∉ (artifacts order result).map (·.fileName)
      ∧ name ++ ".ast.json" ∉ (artifacts order result).map (·.fileName) := by
  simp only [artifacts, List.map_cons, List.map_nil, List.mem_cons, List.not_mem_nil, or_false,
    not_or]
  refine ⟨⟨?_, ?_, ?_⟩, ?_, ?_, ?_⟩
  · exact fun same => apart ((String.append_left_inj _).mp same)
  · exact append_ne_append 't' 'h' rfl rfl (by decide)
  · exact append_ne_append 't' 'n' rfl rfl (by decide)
  · exact append_ne_append 'n' 't' rfl rfl (by decide)
  · exact append_ne_append 'n' 'h' rfl rfl (by decide)
  · exact fun same => apart ((String.append_left_inj _).mp same)

/-- So has its header when the stems of the symbols differ. -/
theorem headerName_not_mem_artifacts (order : Context.Order) {name : String} (result : Build)
    (apart : Header.symbol name ≠ Header.symbol result.compiled.name)
    : Header.symbol name ++ "_program.h" ∉ (artifacts order result).map (·.fileName) := by
  simp only [artifacts, List.map_cons, List.map_nil, List.mem_cons, List.not_mem_nil, or_false,
    not_or]
  refine ⟨?_, ?_, ?_⟩
  · exact append_ne_append 'h' 't' rfl rfl (by decide)
  · exact fun same => apart ((String.append_left_inj _).mp same)
  · exact append_ne_append 'h' 'n' rfl rfl (by decide)

-----------------------------------------------------------------------------------------
-- One run after another
-----------------------------------------------------------------------------------------

/-- A path leads to a directory, in which the files have the given contents. -/
structure Holds (world : World) (directory : String) (place : Location)
    (files : List (String × String))
    : Prop where
  located : world.locate (.ofText directory) = .ok (place, some .directory)
  written : ∀ file ∈ files, world.tree.get? (place ++ [file.1]) = some (.file file.2.toUTF8)

/-- A run on the source of a program that is to leave its artifacts in a directory. It lists
declarations in the given order.
-/
inductive Emits (order : Context.Order) (before : World) (program : Program)
    (compiled : Compiled) (directory : String)
    : Exit → World → Prop
  | emits {texts arguments bytes exit after} (asked : Request.ofArguments texts = .run arguments)
    (output : arguments.output = some directory)
    (opened : before.read (.ofText arguments.input) = .ok bytes)
    (compiles : Compiles arguments.style bytes program compiled)
    (ran : (execute (World.hostIn order) texts).run before = (exit, after))
    : Emits order before program compiled directory exit after

theorem directory_ne_empty {texts : List String} {arguments : Arguments} {directory : String}
    (asked : Request.ofArguments texts = .run arguments)
    (output : arguments.output = some directory)
    : directory ≠ "" := by
  rintro rfl
  exact output_ne_empty asked output

namespace Emits

variable {order : Context.Order} {before after : World} {program : Program} {compiled : Compiled}
  {directory : String} {exit : Exit}

theorem named (emitted : Emits order before program compiled directory exit after)
    : directory ≠ "" ∧ compiled.name = program.name ∧ isIdentifier program.name = true := by
  cases emitted with
  | emits asked output _ compiles _ =>
      exact ⟨directory_ne_empty asked output, name_of_compiles compiles⟩

/-- The run ends with the writing of the artifacts, and succeeds only as that does. -/
theorem written (emitted : Emits order before program compiled directory exit after)
    : ∃ text result,
        Ends (writeArtifacts (World.hostIn order) directory ⟨program, compiled⟩)
          (before.printed text) result after
        ∧ (exit = .success → result = .ok ()) := by
  cases emitted with
  | @emits _ arguments _ _ _ asked output opened compiles ran =>
      obtain ⟨lines, listed⟩ := listing_of_generated (generate_of_compiles compiles)
      cases ended : (writeArtifacts (World.hostIn order) directory ⟨program, compiled⟩).run.run
          (before.printed (if arguments.disassemble then Text.unlines lines else "")) with
      | mk result final =>
          have ending := execute_of_ends asked
            (ends_run_writing opened compiles listed output ended)
          rw [ran] at ending
          cases result with
          | ok _ =>
              cases ending
              exact ⟨_, _, ended, fun _ => rfl⟩
          | error report =>
              cases ending
              exact ⟨_, _, ended, nofun⟩

/-- However the run ends, it spares what has other names than its artifacts. -/
theorem spares (emitted : Emits order before program compiled directory exit after)
    : before.Spares ((artifacts order ⟨program, compiled⟩).map (·.fileName)) after := by
  obtain ⟨somewhere, sameName, identifier⟩ := emitted.named
  obtain ⟨text, result, ended, _⟩ := emitted.written
  have sparing : Sparing ((artifacts order ⟨program, compiled⟩).map (·.fileName))
      (writeArtifacts (World.hostIn order) directory ⟨program, compiled⟩) :=
    .writeArtifacts somewhere (sameName ▸ identifier)
  have spared := sparing (before.printed text)
  rw [ended] at spared
  exact ⟨spared.workingDirectory, spared.nodes⟩

/-- A run that succeeds leaves all artifacts in the directory. -/
theorem holds (emitted : Emits order before program compiled directory .success after)
    : ∃ place,
        Holds after directory place
          [
            (program.name ++ ".bl.out", Persisted.write compiled.code),
            (Header.symbol program.name ++ "_program.h", Header.render compiled),
            (
              program.name ++ ".ast.json",
              (program.dumpIn (order.arrange program.context.entries) compiled).pretty
            )
          ] := by
  obtain ⟨somewhere, sameName, identifier⟩ := emitted.named
  obtain ⟨text, result, ended, succeeded⟩ := emitted.written
  obtain rfl := succeeded rfl
  obtain ⟨_, place, located, changes⟩ :=
    changes_of_writeArtifacts somewhere (sameName ▸ identifier) ended
  refine ⟨place, located, ?_⟩
  rw [← sameName]
  exact changes.written

/-- A run succeeds when its directory is there and its artifacts can be written into it. -/
theorem of_located {texts : List String} {arguments : Arguments} {bytes : ByteArray}
    (asked : Request.ofArguments texts = .run arguments)
    (output : arguments.output = some directory)
    (unlisted : arguments.disassemble = false)
    (opened : before.read (.ofText arguments.input) = .ok bytes)
    (compiles : Compiles arguments.style bytes program compiled)
    (short
      : ∀ file ∈ artifacts order ⟨program, compiled⟩,
          file.fileName.utf8ByteSize ≤ World.nameLimit
          ∧ directory.utf8ByteSize + 1 + file.fileName.utf8ByteSize ≤ World.pathLimit)
    {place : Location} (located : before.locate (.ofText directory) = .ok (place, some .directory))
    (free
      : ∀ file ∈ artifacts order ⟨program, compiled⟩,
          before.tree.get? (place ++ [file.fileName]) ≠ some .directory)
    : Emits order before program compiled directory .success
        (before.withFiles place (artifacts order ⟨program, compiled⟩)) := by
  obtain ⟨lines, listed⟩ := listing_of_generated (generate_of_compiles compiles)
  obtain ⟨sameName, identifier⟩ := name_of_compiles compiles
  have somewhere := directory_ne_empty asked output
  have written : Ends (writeArtifacts (World.hostIn order) directory ⟨program, compiled⟩) before
      (.ok ())
      (before.withFiles place (artifacts order ⟨program, compiled⟩)) :=
    ends_writeArtifacts_of_ensured somewhere (sameName ▸ identifier) short
      (run_ensureDirectories_located (Path.proper_ofText somewhere) located) located free
  have unprinted : before.printed (if arguments.disassemble then Text.unlines lines else "")
      = before := by
    rw [unlisted, if_neg Bool.false_ne_true, World.printed_empty]
  rw [← unprinted] at written
  have ended := ends_run_writing opened compiles listed output written
  rw [unprinted] at ended
  exact .emits asked output opened compiles (execute_of_ends asked ended)

end Emits

/-- Artifacts outlast runs on other programs. Once a run on one program has succeeded, and however a
run on a program with another name ends after that, the persisted form and the dump of the first are
as they were. So is its header when the names differ in more than hyphens and underscores, and then
the two headers declare different symbols.
-/
theorem artifacts_outlast_neighbour {before middle after : World} {program program' : Program}
    {compiled compiled' : Compiled} {directory directory' : String} {exit : Exit}
    {order order' : Context.Order}
    (first : Emits order before program compiled directory .success middle)
    (second : Emits order' middle program' compiled' directory' exit after)
    (apart : program.name ≠ program'.name)
    : ∃ place,
        Holds middle directory place
          [
            (program.name ++ ".bl.out", Persisted.write compiled.code),
            (Header.symbol program.name ++ "_program.h", Header.render compiled),
            (
              program.name ++ ".ast.json",
              (program.dumpIn (order.arrange program.context.entries) compiled).pretty
            )
          ]
        ∧ Holds after directory place
          [
            (program.name ++ ".bl.out", Persisted.write compiled.code),
            (
              program.name ++ ".ast.json",
              (program.dumpIn (order.arrange program.context.entries) compiled).pretty
            )
          ]
        ∧ (Header.symbol program.name ≠ Header.symbol program'.name
          → Holds after directory place
              [(Header.symbol program.name ++ "_program.h", Header.render compiled)]
            ∧ ∃ declared declared',
                Header.read (Header.render compiled) = some declared
                ∧ Header.read (Header.render compiled') = some declared'
                ∧ ∀ symbol ∈ declared.symbols, symbol ∉ declared'.symbols) := by
  obtain ⟨place, held⟩ := first.holds
  obtain ⟨_, sameName, identifier⟩ := first.named
  obtain ⟨_, sameName', identifier'⟩ := second.named
  have spared := second.spares
  have written := held.written
  simp only [List.forall_mem_cons] at written
  obtain ⟨persisted, header, dump, _⟩ := written
  refine ⟨place, held, ?_, ?_⟩
  · obtain ⟨otherPersisted, otherDump⟩ :=
      fileName_not_mem_artifacts order' ⟨program', compiled'⟩ (sameName' ▸ apart)
    refine ⟨spared.extended.locate held.located, ?_⟩
    simp only [List.forall_mem_cons, List.not_mem_nil, false_implies, implies_true, and_true]
    exact ⟨spared.file otherPersisted persisted, spared.file otherDump dump⟩
  · intro stems
    have otherHeader :=
      headerName_not_mem_artifacts order' ⟨program', compiled'⟩ (sameName' ▸ stems)
    refine ⟨⟨spared.extended.locate held.located, ?_⟩, ?_⟩
    · simp only [List.forall_mem_singleton]
      exact spared.file otherHeader header
    · rw [← sameName] at identifier stems
      rw [← sameName'] at identifier' stems
      exact Header.symbols_disjoint identifier identifier' stems

/-- A program of one step. -/
def watch (name : String) (step : Primitive) : Program :=
  ⟨name, .empty, .block [.call step.word]⟩

/-- The code of a watch. -/
def watchCode (name : String) (step : Primitive) : Compiled :=
  ⟨name, [(Opcode.act step).code, Opcode.halt.code]⟩

theorem compiles_watch {name : String} (identifier : isIdentifier name = true) (step : Primitive)
    : Compiles .single (watch name step).render.toUTF8 (watch name step) (watchCode name step) := by
  have named : (watch name step).Named := by
    refine ⟨identifier, ?_, ?_⟩
    · intro called member
      obtain rfl : called = step.word := List.mem_singleton.mp member
      cases step <;> rfl
    · intro declared member
      cases member
  refine .compiles (fromUTF8?_toUTF8 _) (Program.ofSource_render named) ?_
  cases step <;> rfl

/-- The sources of a watch at night and of another one, and a directory for their artifacts. -/
def gatehouse (other : String) : World where
  tree :=
    ⟨[
      (["gate", "night.bl"], .file (watch "night-watch" .move).render.toUTF8),
      (["gate", "other.bl"], .file (watch other .skip).render.toUTF8),
      (["gate", "out"], .directory)
    ]⟩
  workingDirectory := ["gate"]
  output := ""

theorem gatehouse_free (other name : String)
    : (gatehouse other).tree.get? (["gate", "out"] ++ [name]) ≠ some .directory := by
  have missing : (gatehouse other).tree.get? (["gate", "out"] ++ [name]) = none := rfl
  rw [missing]
  simp

/-- The gatehouse with the artifacts of the watch at night. -/
def manned (other : String) : World :=
  (gatehouse other).withFiles ["gate", "out"]
    (artifacts .ascending ⟨watch "night-watch" .move, watchCode "night-watch" .move⟩)

theorem emits_night (other : String)
    : Emits .ascending (gatehouse other) (watch "night-watch" .move)
        (watchCode "night-watch" .move) "out" .success (manned other) := by
  have asked : Request.ofArguments ["night.bl", "out"]
      = .run ⟨"night.bl", some "out", false, false, false⟩ := by
    rfl
  have located : (gatehouse other).locate (.ofText "out")
      = .ok (["gate", "out"], some .directory) := by
    rfl
  refine .of_located asked rfl rfl rfl (compiles_watch rfl .move) ?_ located ?_
  · simp only [artifacts, List.forall_mem_cons]
    decide
  · intro file _
    exact gatehouse_free other file.fileName

/-- The other watch leaves its artifacts beside those of the first. -/
theorem emits_other (other : String) (identifier : isIdentifier other = true)
    (short
      : ∀ file ∈ artifacts .ascending ⟨watch other .skip, watchCode other .skip⟩,
          file.fileName.utf8ByteSize ≤ World.nameLimit
          ∧ "out".utf8ByteSize + 1 + file.fileName.utf8ByteSize ≤ World.pathLimit)
    : ∃ after,
        Emits .ascending (manned other) (watch other .skip) (watchCode other .skip) "out" .success
          after := by
  have asked : Request.ofArguments ["other.bl", "out"]
      = .run ⟨"other.bl", some "out", false, false, false⟩ := by
    rfl
  have located : (manned other).locate (.ofText "out")
      = .ok (["gate", "out"], some .directory) := by
    rfl
  have free (name : String)
      : (manned other).tree.get? (["gate", "out"] ++ [name]) ≠ some .directory := by
    apply World.withFile_free
    apply World.withFile_free
    apply World.withFile_free
    exact gatehouse_free other name
  exact ⟨_, .of_located asked rfl rfl rfl (compiles_watch identifier .skip) short located
    fun file _ => free file.fileName⟩

theorem artifacts_outlast_neighbour_day_watch
    : ∃ middle after place,
        Emits .ascending (gatehouse "day-watch") (watch "night-watch" .move)
          (watchCode "night-watch" .move) "out" .success middle
        ∧ Emits .ascending middle (watch "day-watch" .skip) (watchCode "day-watch" .skip) "out"
            .success after
        ∧ Holds after "out" place
            [("night-watch.bl.out", Persisted.write (watchCode "night-watch" .move).code)]
        ∧ Holds after "out" place
            [
              (
                Header.symbol "night-watch" ++ "_program.h",
                Header.render (watchCode "night-watch" .move)
              )
            ] := by
  have first := emits_night "day-watch"
  obtain ⟨after, second⟩ :=
    emits_other "day-watch" rfl (by simp only [artifacts, List.forall_mem_cons]; decide)
  obtain ⟨place, _, kept, header⟩ := artifacts_outlast_neighbour first second (by decide)
  refine ⟨_, after, place, first, second, ⟨kept.located, ?_⟩, (header (by decide)).1⟩
  exact List.forall_mem_singleton.mpr (kept.written _ List.mem_cons_self)

/-- A watch whose name has an underscore for the hyphen takes the header of the first, and declares
the same symbols in it.
-/
theorem neighbour_takes_header
    : ∃ middle after place,
        Emits .ascending (gatehouse "night_watch") (watch "night-watch" .move)
          (watchCode "night-watch" .move) "out" .success middle
        ∧ Emits .ascending middle (watch "night_watch" .skip) (watchCode "night_watch" .skip) "out"
            .success after
        ∧ (watch "night-watch" .move).name ≠ (watch "night_watch" .skip).name
        ∧ Holds middle "out" place
            [("night_watch_program.h", Header.render (watchCode "night-watch" .move))]
        ∧ ¬ Holds after "out" place
              [("night_watch_program.h", Header.render (watchCode "night-watch" .move))]
        ∧ ∃ declared declared',
            Header.read (Header.render (watchCode "night-watch" .move)) = some declared
            ∧ Header.read (Header.render (watchCode "night_watch" .skip)) = some declared'
            ∧ declared.symbols = declared'.symbols := by
  have first := emits_night "night_watch"
  obtain ⟨after, second⟩ :=
    emits_other "night_watch" rfl (by simp only [artifacts, List.forall_mem_cons]; decide)
  obtain ⟨place, held⟩ := first.holds
  obtain ⟨place', held'⟩ := second.holds
  obtain rfl : place' = place := by
    have located := second.spares.extended.locate held.located
    cases held'.located.symm.trans located
    rfl
  have stem : Header.symbol "night-watch" = Header.symbol "night_watch" := by decide
  have fileName : "night_watch_program.h" = Header.symbol "night_watch" ++ "_program.h" := by decide
  have written := held.written (_, _) (.tail _ (.head _))
  have taken := held'.written (_, _) (.tail _ (.head _))
  refine ⟨_, after, place', first, second, by decide, ⟨held.located, ?_⟩, ?_, ?_⟩
  · rw [fileName, ← stem]
    exact List.forall_mem_singleton.mpr written
  · intro kept
    have both := kept.written (_, _) (.head _)
    rw [fileName] at both
    have bytes := Node.file.inj (Option.some.inj (taken.symm.trans both))
    have code := Header.code_eq_of_render_eq rfl rfl (String.toByteArray_inj.mp bytes)
    revert code
    decide
  · refine ⟨_, _, Header.read_render rfl, Header.read_render rfl, ?_⟩
    simp only [Header.Declarations.symbols, watchCode, stem]

end AgentLang.CommandLine
