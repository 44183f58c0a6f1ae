import AgentLang.Proofs.Building
import AgentLang.Proofs.CommandLine.Artifacts
import AgentLang.Proofs.Generation.Instructions
import AgentLang.Proofs.Printing.RoundTrip

/-! What a run of the command line leaves behind. A source is read and its code generated before
anything is printed or written, so a run that fails there leaves the world as it was; the code of
a source always has a listing; and the artifacts go to three files of their own.
-/

namespace AgentLang.CommandLine

-----------------------------------------------------------------------------------------
-- Arguments
-----------------------------------------------------------------------------------------

namespace Draft

/-- Judging ends with positionals of which none is empty, or in something else than a run. -/
def Judged : Except Request Draft → Prop
  | .ok draft => ∀ text ∈ draft.positionals, text ≠ ""
  | .error request => ∀ arguments, request ≠ .run arguments

theorem Judged.bind {first : Except Request Draft} {next : Draft → Except Request Draft}
    (judged : Judged first) (onward : ∀ draft, Judged (.ok draft) → Judged (next draft))
    : Judged (first >>= next) := by
  cases first with
  | ok draft => exact onward draft judged
  | error request => exact judged

/-- What every single item keeps, all of them keep, by induction on the items. -/
theorem Judged.foldlM {α : Type} {item : Draft → α → Except Request Draft}
    (single : ∀ draft value, Judged (.ok draft) → Judged (item draft value)) (values : List α)
    {draft : Draft} (judged : Judged (.ok draft))
    : Judged (values.foldlM item draft) := by
  induction values generalizing draft with
  | nil => exact judged
  | cons value values ih =>
      rw [List.foldlM_cons]
      exact (single draft value judged).bind fun next => ih

theorem Judged.switch? {draft : Draft} (judged : Judged (.ok draft)) (switch : Option Switch)
    : Judged (draft.switch? switch) := by
  cases switch with
  | none => nofun
  | some switch =>
      simp only [Draft.switch?, Draft.switch]
      split
      · nofun
      · split
        · nofun
        · split
          · nofun
          · exact judged

theorem Judged.positional {draft : Draft} (judged : Judged (.ok draft)) (text : String)
    : Judged (draft.positional text) := by
  unfold Draft.positional
  split
  · nofun
  · rename_i allowed
    exact List.forall_mem_cons.mpr ⟨fun empty => allowed (.inl empty), judged⟩

theorem Judged.argument {draft : Draft} (judged : Judged (.ok draft)) (text : String)
    : Judged (draft.argument text) := by
  unfold Draft.argument
  split
  · exact judged.switch? _
  · exact .foldlM (fun _ _ judged => judged.switch? _) _ judged
  · exact judged.positional text

theorem Judged.arguments {draft : Draft} (judged : Judged (.ok draft)) (texts : List String)
    : Judged (draft.arguments texts) := by
  induction texts generalizing draft with
  | nil => exact judged
  | cons text texts ih =>
      unfold Draft.arguments
      split
      · exact .foldlM (fun _ text judged => judged.positional text) texts judged
      · exact (judged.argument text).bind fun next => ih

end Draft

/-- An output directory that is asked for has a path. -/
theorem output_ne_empty {texts : List String} {arguments : Arguments}
    (asked : Request.ofArguments texts = .run arguments)
    : arguments.output ≠ some "" := by
  have judged : Draft.Judged (Draft.arguments ⟨[], []⟩ texts) :=
    Draft.Judged.arguments (by simp [Draft.Judged]) texts
  unfold Request.ofArguments at asked
  split at asked
  · rename_i draft settled
    rw [settled] at judged
    unfold Draft.request at asked
    split at asked
    · cases asked
      intro empty
      cases empty
    · rename_i input output rest positionals
      cases asked
      have listed : output ∈ draft.positionals := by
        rw [← List.mem_reverse, positionals]
        simp
      intro empty
      exact judged output listed (Option.some.inj empty)
    · cases asked
  · rename_i request settled
    rw [settled] at judged
    exact (judged arguments asked).elim

-----------------------------------------------------------------------------------------
-- Compiling
-----------------------------------------------------------------------------------------

/-- How jumps are generated in a run. -/
def Arguments.style (arguments : Arguments) : JumpStyle :=
  if arguments.structuredJumps then .structured else .single

/-- Bytes that are no text, or the text of no program, or of one that has no code. -/
inductive Uncompilable (style : JumpStyle) (bytes : ByteArray) : Prop
  | undecoded (undecoded : String.fromUTF8? bytes = none)
  | unread {source cause} (decoded : String.fromUTF8? bytes = some source)
    (refused : Program.ofSource source = .error cause)
  | ungenerated {source program} (decoded : String.fromUTF8? bytes = some source)
    (accepted : Program.ofSource source = .ok program)
    (failed : ∀ compiled, (program.generate style).2 ≠ .generated compiled)

/-- Bytes that are the text of a program, with its code. -/
inductive Compiles (style : JumpStyle) (bytes : ByteArray) : Program → Compiled → Prop
  | compiles {source program compiled} (decoded : String.fromUTF8? bytes = some source)
    (accepted : Program.ofSource source = .ok program)
    (generated : (program.generate style).2 = .generated compiled)
    : Compiles style bytes program compiled

/-- Bytes can be compiled or not. -/
theorem compiles_or_not (style : JumpStyle) (bytes : ByteArray)
    : Uncompilable style bytes ∨ ∃ program compiled, Compiles style bytes program compiled := by
  cases decoded : String.fromUTF8? bytes with
  | none => exact .inl (.undecoded decoded)
  | some source =>
      cases accepted : Program.ofSource source with
      | error cause => exact .inl (.unread decoded accepted)
      | ok program =>
          cases generated : (program.generate style).2 with
          | generated compiled => exact .inr ⟨program, compiled, decoded, accepted, generated⟩
          | failed cause => exact .inl (.ungenerated decoded accepted (by simp [generated]))
          | broken violation => exact .inl (.ungenerated decoded accepted (by simp [generated]))

/-- A program that is compiled comes back from the generator as it was read. -/
theorem generate_of_compiles {style : JumpStyle} {bytes : ByteArray} {program : Program}
    {compiled : Compiled} (compiles : Compiles style bytes program compiled)
    : program.generate style = (program, .generated compiled) := by
  cases compiles with
  | compiles decoded accepted generated =>
      have written := Program.written_of_ofSource accepted
      have returned := Program.generate_of_shaped style written.shaped
      rw [returned] at generated
      exact returned.trans (congrArg (program, ·) generated)

/-- What compiles is decoded and built. -/
theorem build_of_compiles {style : JumpStyle} {bytes : ByteArray} {program : Program}
    {compiled : Compiled} (compiles : Compiles style bytes program compiled)
    : ∃ source,
        String.fromUTF8? bytes = some source
        ∧ build style source = .ok ⟨program, compiled⟩ := by
  have returned := generate_of_compiles compiles
  cases compiles with
  | @compiles source _ _ decoded accepted _ =>
      refine ⟨source, decoded, ?_⟩
      simp only [build, accepted, returned]

/-- The code of a program has a listing, whatever its length. -/
theorem listing_of_generated {style : JumpStyle} {program left : Program} {compiled : Compiled}
    (generated : program.generate style = (left, .generated compiled))
    : ∃ lines, compiled.code.listing = .ok lines := by
  obtain ⟨plan, _, rfl⟩ := Program.plan_of_generated generated
  exact ⟨_, congrArg (Except.map _) (plan.decode_halted style)⟩

/-- A compiled program goes by the identifier that the source gives it. -/
theorem name_of_compiles {style : JumpStyle} {bytes : ByteArray} {program : Program}
    {compiled : Compiled} (compiles : Compiles style bytes program compiled)
    : compiled.name = program.name ∧ isIdentifier program.name = true := by
  obtain ⟨_, _, rfl⟩ := Program.plan_of_generated (generate_of_compiles compiles)
  refine ⟨rfl, ?_⟩
  cases compiles with
  | compiles _ accepted _ => exact (Program.written_of_ofSource accepted).named.name

-----------------------------------------------------------------------------------------
-- Runs
-----------------------------------------------------------------------------------------

variable {order : Context.Order}

/-- The world with a text printed behind what was printed before. -/
def World.printed (world : World) (text : String) : World :=
  { world with output := world.output ++ text }

theorem ends_print (text : String) (world : World)
    : Ends (liftM ((World.hostIn order).print text)) world (.ok ()) (world.printed text) :=
  rfl

theorem run_readFile {world : World} {path : String} {bytes : ByteArray}
    (opened : world.read (.ofText path) = .ok bytes)
    : ((World.hostIn order).readFile path).run world = (.ok bytes, world) := by
  have ran : ((World.hostIn order).readFile path).run world = (world.read (.ofText path), world) :=
    rfl
  rw [ran, opened]

theorem ends_readSource {world : World} {path source : String} {bytes : ByteArray}
    (opened : world.read (.ofText path) = .ok bytes)
    (decoded : String.fromUTF8? bytes = some source)
    : Ends (readSource (World.hostIn order) path) world (.ok source) world := by
  unfold readSource
  refine Ends.bind (ends_attempt_iff.mpr (run_readFile opened)) ?_
  simp only [decoded]
  exact .pure source world

theorem ends_readSource_undecoded {world : World} {path : String} {bytes : ByteArray}
    (opened : world.read (.ofText path) = .ok bytes)
    (undecoded : String.fromUTF8? bytes = none)
    : Ends (readSource (World.hostIn order) path) world
        (.error ⟨"Reading " ++ path, ["stream did not contain valid UTF-8"]⟩) world := by
  unfold readSource
  refine Ends.bind (ends_attempt_iff.mpr (run_readFile opened)) ?_
  simp only [undecoded]
  rfl

theorem ends_printListing {code : Code} {lines : List String} (listed : code.listing = .ok lines)
    (world : World)
    : Ends (printListing (World.hostIn order) code) world (.ok ())
        (world.printed (Text.unlines lines)) := by
  simp only [printListing, listed]
  exact ends_print _ world

section

variable {arguments : Arguments} {world final : World} {bytes : ByteArray}

theorem ends_run_unbuilt {source : String} {cause : BuildError}
    (opened : world.read (.ofText arguments.input) = .ok bytes)
    (decoded : String.fromUTF8? bytes = some source)
    (failed : build arguments.style source = .error cause)
    : Ends (run (World.hostIn order) arguments) world
        (.error ⟨"Compiling " ++ arguments.input, cause.chain⟩) world := by
  unfold run
  refine Ends.bind (ends_readSource opened decoded) ?_
  rw [← Arguments.style]
  simp only [failed]
  rfl

/-- A run on bytes that cannot be compiled fails before it does anything. -/
theorem ends_run_uncompilable (opened : world.read (.ofText arguments.input) = .ok bytes)
    (uncompilable : Uncompilable arguments.style bytes)
    : ∃ report, Ends (run (World.hostIn order) arguments) world (.error report) world := by
  cases uncompilable with
  | undecoded undecoded => exact ⟨_, .stop (ends_readSource_undecoded opened undecoded)⟩
  | @unread source cause decoded refused =>
      have failed : build arguments.style source = .error (.parse cause) := by
        simp only [build, refused]
      exact ⟨_, ends_run_unbuilt opened decoded failed⟩
  | @ungenerated source program decoded accepted none =>
      have failed : ∃ cause, build arguments.style source = .error cause := by
        simp only [build, accepted]
        cases ended : program.generate arguments.style with
        | mk left outcome =>
            cases outcome with
            | generated compiled => exact (none compiled (congrArg (·.2) ended)).elim
            | failed cause => exact ⟨_, rfl⟩
            | broken violation => exact ⟨_, rfl⟩
      obtain ⟨cause, failed⟩ := failed
      exact ⟨_, ends_run_unbuilt opened decoded failed⟩

theorem World.printed_empty (world : World) : world.printed "" = world := by
  simp [World.printed]

/-- Without an output directory a run prints the listing or the persisted code. -/
theorem ends_run_printing {program : Program} {compiled : Compiled} {lines : List String}
    (opened : world.read (.ofText arguments.input) = .ok bytes)
    (compiles : Compiles arguments.style bytes program compiled)
    (listed : compiled.code.listing = .ok lines) (output : arguments.output = none)
    : Ends (run (World.hostIn order) arguments) world (.ok ())
        (world.printed
          (if arguments.disassemble then Text.unlines lines
          else Persisted.write compiled.code)) := by
  obtain ⟨source, decoded, built⟩ := build_of_compiles compiles
  unfold run
  refine Ends.bind (ends_readSource opened decoded) ?_
  rw [← Arguments.style]
  simp only [built, output]
  split
  · exact .bind (ends_printListing listed world) (.pure () _)
  · exact ends_print _ world

/-- With an output directory a run prints the listing, if it is asked for, and goes on to write
the artifacts.
-/
theorem ends_run_writing {program : Program} {compiled : Compiled} {lines : List String}
    {directory : String} {result : Except Report Unit}
    (opened : world.read (.ofText arguments.input) = .ok bytes)
    (compiles : Compiles arguments.style bytes program compiled)
    (listed : compiled.code.listing = .ok lines) (output : arguments.output = some directory)
    (written
      : Ends (writeArtifacts (World.hostIn order) directory ⟨program, compiled⟩)
          (world.printed (if arguments.disassemble then Text.unlines lines else "")) result final)
    : Ends (run (World.hostIn order) arguments) world result final := by
  obtain ⟨source, decoded, built⟩ := build_of_compiles compiles
  unfold run
  refine Ends.bind (ends_readSource opened decoded) ?_
  rw [← Arguments.style]
  simp only [built, output]
  split
  · rename_i asked
    rw [if_pos asked] at written
    exact .bind (ends_printListing listed world) written
  · rename_i unasked
    rw [if_neg unasked, World.printed_empty] at written
    exact written

end

/-- A request for a run succeeds or fails as the run does. -/
theorem execute_of_ends {texts : List String} {arguments : Arguments} {before after : World}
    {result : Except Report Unit} (asked : Request.ofArguments texts = .run arguments)
    (ended : Ends (run (World.hostIn order) arguments) before result after)
    : (execute (World.hostIn order) texts).run before
      = match result with
        | .ok _ => (.success, after)
        | .error report => (.failure report, after) := by
  simp only [execute, asked]
  cases result with
  | ok _ => exact run_bind_of_run ended
  | error report => exact run_bind_of_run ended

/-- A compilation that fails leaves no trace, and one that succeeds leaves what was asked for.
Any bytes can be compiled or not. If they cannot, the run fails in the world that it found. If
they can, the code has a listing. Without an output directory the run then prints the listing or
else the persisted code, and changes no file. With one, and once the directory and its files can
be written, it prints the listing if it was asked for, and changes three files in the directory;
beside them there are new directories at most, on the way to that one. Declarations may be listed
in any order.
-/
theorem failed_compilation_leaves_no_trace (order : Context.Order) {texts : List String}
    {arguments : Arguments} (asked : Request.ofArguments texts = .run arguments) {world : World}
    {bytes : ByteArray} (opened : world.read (.ofText arguments.input) = .ok bytes)
    : (Uncompilable arguments.style bytes
        ∨ ∃ program compiled, Compiles arguments.style bytes program compiled)
      ∧ (Uncompilable arguments.style bytes
        → ∃ report, (execute (World.hostIn order) texts).run world = (.failure report, world))
      ∧ ∀ program compiled,
          Compiles arguments.style bytes program compiled
          → ∃ lines,
              compiled.code.listing = .ok lines
              ∧ (arguments.output = none
                → (execute (World.hostIn order) texts).run world
                  = (
                    .success,
                    world.printed
                      (if arguments.disassemble then Text.unlines lines
                      else Persisted.write compiled.code)
                  ))
              ∧ ∀ directory final,
                  arguments.output = some directory
                  → (writeArtifacts (World.hostIn order) directory ⟨program, compiled⟩).run.run
                      (world.printed (if arguments.disassemble then Text.unlines lines else ""))
                    = (.ok (), final)
                  → (execute (World.hostIn order) texts).run world = (.success, final)
                    ∧ final.output
                      = world.output ++ (if arguments.disassemble then Text.unlines lines else "")
                    ∧ ∃ place,
                        final.locate (.ofText directory) = .ok (place, some .directory)
                        ∧ ChangesOnly world final (.ofText directory) place
                            [
                              (program.name ++ ".bl.out", Persisted.write compiled.code),
                              (
                                Header.symbol program.name ++ "_program.h",
                                Header.render compiled
                              ),
                              (
                                program.name ++ ".ast.json",
                                (program.dumpIn (order.arrange program.context.entries)
                                  compiled).pretty
                              )
                            ] := by
  refine ⟨compiles_or_not arguments.style bytes, ?_, ?_⟩
  · intro uncompilable
    obtain ⟨report, ended⟩ := ends_run_uncompilable opened uncompilable
    exact ⟨report, execute_of_ends asked ended⟩
  · intro program compiled compiles
    obtain ⟨lines, listed⟩ := listing_of_generated (generate_of_compiles compiles)
    obtain ⟨sameName, identifier⟩ := name_of_compiles compiles
    refine ⟨lines, listed, ?_, ?_⟩
    · intro output
      exact execute_of_ends asked (ends_run_printing opened compiles listed output)
    · intro directory final output written
      have somewhere : directory ≠ "" := by
        intro empty
        exact output_ne_empty asked (output.trans (congrArg some empty))
      have ended := ends_run_writing opened compiles listed output written
      obtain ⟨printed, place, located, changes⟩ :=
        changes_of_writeArtifacts somewhere (sameName ▸ identifier) written
      refine ⟨execute_of_ends asked ended, printed, place, located, ?_⟩
      rw [← sameName]
      exact ⟨changes.distinct, changes.written, changes.others⟩

/-- A program that calls two instructions. -/
def courier : Program where
  name := "courier"
  context := .ofList [("knock", .block [.call "skip"]), ("walk", .block [.call "move"])]
  body := .block [.call "walk", .call "knock"]

def courierCode : Compiled := ⟨"courier", [0, 4, 5]⟩

/-- An empty file and a program. There is no directory for the artifacts. -/
def desk : World where
  tree :=
    ⟨[
      (["desk", "empty.bl"], .file "".toUTF8),
      (["desk", "courier.bl"], .file courier.render.toUTF8)
    ]⟩
  workingDirectory := ["desk"]
  output := ""

/-- The last declaration comes first. -/
def backwards : Context.Order := ⟨List.reverse, List.reverse_perm⟩

theorem fromUTF8?_toUTF8 (text : String) : String.fromUTF8? text.toUTF8 = some text :=
  dif_pos text.isValidUTF8

theorem compiles_courier : Compiles .single courier.render.toUTF8 courier courierCode := by
  have named : courier.Named := by
    refine ⟨rfl, ?_, ?_⟩
    · show ∀ name ∈ ["skip", "move", "walk", "knock"], isIdentifier name = true
      decide
    · show ∀ name ∈ ["knock", "walk"], isIdentifier name = true ∧ Primitive.ofWord? name = none
      decide
  exact .compiles (fromUTF8?_toUTF8 _) (Program.ofSource_render named) rfl

/-- Two directories are made for the artifacts. -/
theorem writes_courier (world : World) (same : world.tree = desk.tree)
    (here : world.workingDirectory = ["desk"])
    : ∃ final,
        Ends (writeArtifacts (World.hostIn backwards) "out/post" ⟨courier, courierCode⟩) world
          (.ok ()) final := by
  have start : world.start (.ofText "out/post") = ["desk"] := here
  have names : (Path.ofText "out/post").names = ["out", "post"] := rfl
  refine ends_writeArtifacts_clear (by decide) rfl ?_ ⟨?_, ?_, ?_⟩ ?_
  · simp only [artifacts, List.forall_mem_cons]
    decide
  · decide
  · rw [names]
    decide
  · intro front content first
    rw [names] at first
    rw [start, same]
    rcases List.prefix_cons_iff.mp first with rfl | ⟨front, rfl, first⟩
    · have missing : desk.tree.get? ["desk"] = none := rfl
      simp [missing]
    · have missing : desk.tree.get? ("desk" :: "out" :: front) = none := rfl
      simp [missing]
  · intro file member
    have missing : desk.tree.get? ["desk", "out", "post", file.fileName] = none := rfl
    rw [start, names, same]
    simp [missing]

theorem failed_compilation_leaves_no_trace_courier
    : (∃ report, (execute World.host ["empty.bl"]).run desk = (.failure report, desk))
      ∧ ∃ final,
          (execute (World.hostIn backwards) ["courier.bl", "out/post", "-d"]).run desk
            = (.success, final)
          ∧ final.output = "0: MOVE\n1: SKIP\n2: HALT\n"
          ∧ ∃ place,
              final.locate (.ofText "out/post") = .ok (place, some .directory)
              ∧ ChangesOnly desk final (.ofText "out/post") place
                  [
                    ("courier.bl.out", "3\n0\n4\n5\n"),
                    ("courier_program.h", Header.render courierCode),
                    (
                      "courier.ast.json",
                      (courier.dumpIn courier.context.entries.reverse courierCode).pretty
                    )
                  ] := by
  constructor
  · have refused : Program.ofSource "" = .error (.grammar (.unexpectedEnd "PROGRAM")) := by
      rw [Program.ofSource, Token.ofSource, show "".toList = [] from rfl, Token.split_nil]
      rfl
    have asked : Request.ofArguments ["empty.bl"]
        = .run ⟨"empty.bl", none, false, false, false⟩ := by
      rfl
    have opened : desk.read (.ofText "empty.bl") = .ok "".toUTF8 := by
      rfl
    exact (failed_compilation_leaves_no_trace .ascending asked opened).2.1
      (.unread (fromUTF8?_toUTF8 "") refused)
  · have asked : Request.ofArguments ["courier.bl", "out/post", "-d"]
        = .run ⟨"courier.bl", some "out/post", false, true, false⟩ := by
      rfl
    have opened : desk.read (.ofText "courier.bl") = .ok courier.render.toUTF8 := by
      rfl
    obtain ⟨lines, listed, _, writes⟩ :=
      (failed_compilation_leaves_no_trace backwards asked opened).2.2 _ _ compiles_courier
    have sameLines : ["0: MOVE", "1: SKIP", "2: HALT"] = lines := Except.ok.inj listed
    subst sameLines
    obtain ⟨final, written⟩ :=
      writes_courier (desk.printed (Text.unlines ["0: MOVE", "1: SKIP", "2: HALT"])) rfl rfl
    obtain ⟨succeeded, printed, place, located, changes⟩ := writes "out/post" final rfl written
    exact ⟨final, succeeded, printed, place, located, changes⟩

end AgentLang.CommandLine
