import AgentLang.Proofs.Building
import AgentLang.Workbench

/-! Trees keep their shape on the workbench. The operations on trees ask for what they need and make
nothing else, so whatever is done with them, and whichever commands fail on the way, no tree loses
the shape that the contracts ask.
-/

namespace AgentLang

-----------------------------------------------------------------------------------------
-- Operations on trees
-----------------------------------------------------------------------------------------

namespace Statement

theorem shaped_empty : empty.Shaped := trivial

/-- Inserting a child keeps the shape of a block, since no block is inserted. -/
theorem Shaped.insertAt {s child result : Statement} {position : Nat} (shaped : s.Shaped)
    (shapedChild : child.Shaped) (inserted : s.insertAt position child = .ok result)
    : result.Shaped := by
  obtain ⟨noBlock, children, rfl, _, rfl⟩ := insertAt_eq_ok_iff.mp inserted
  have each := (shapedAll_iff children).mp shaped
  apply (shapedAll_iff _).mpr
  intro other member
  rcases List.mem_append.mp member with before | member
  · exact each other (List.mem_of_mem_take before)
  · rcases List.mem_cons.mp member with same | after
    · exact same ▸ ⟨noBlock, shapedChild⟩
    · exact each other (List.mem_of_mem_drop after)

theorem Shaped.removeAt {s child rest : Statement} {position : Nat} (shaped : s.Shaped)
    (removed : s.removeAt position = .ok (child, rest))
    : child.Shaped ∧ rest.Shaped := by
  obtain ⟨children, later, rfl, found, rfl⟩ := removeAt_eq_ok_iff.mp removed
  have each := (shapedAll_iff children).mp shaped
  have dropped {other : Statement} (member : other ∈ child :: later) : other ∈ children :=
    List.mem_of_mem_drop (found ▸ member)
  refine ⟨(each child (dropped List.mem_cons_self)).2, (shapedAll_iff _).mpr ?_⟩
  intro other member
  rcases List.mem_append.mp member with before | after
  · exact each other (List.mem_of_mem_take before)
  · exact each other (dropped (List.mem_cons_of_mem _ after))

theorem Shaped.assembleIf {condition : Condition} {body result : Statement} (shaped : body.Shaped)
    (assembled : Statement.assembleIf condition body = .ok result)
    : result.Shaped := by
  obtain ⟨block, rfl⟩ := assembleIf_eq_ok_iff.mp assembled
  exact ⟨block, shaped⟩

theorem Shaped.assembleIfElse {condition : Condition} {thenBody elseBody result : Statement}
    (shaped : thenBody.Shaped) (shapedElse : elseBody.Shaped)
    (assembled : Statement.assembleIfElse condition thenBody elseBody = .ok result)
    : result.Shaped := by
  obtain ⟨block, blockElse, rfl⟩ := assembleIfElse_eq_ok_iff.mp assembled
  exact ⟨⟨block, shaped⟩, blockElse, shapedElse⟩

theorem Shaped.assembleWhile {condition : Condition} {body result : Statement}
    (shaped : body.Shaped) (assembled : Statement.assembleWhile condition body = .ok result)
    : result.Shaped := by
  obtain ⟨block, rfl⟩ := assembleWhile_eq_ok_iff.mp assembled
  exact ⟨block, shaped⟩

theorem shaped_assembleCall {name : String} {result : Statement}
    (assembled : Statement.assembleCall name = .ok result)
    : result.Shaped := by
  obtain ⟨named, rfl⟩ := assembleCall_eq_ok_iff.mp assembled
  exact named

theorem Shaped.disassembleIf {s part : Statement} {condition : Condition} (shaped : s.Shaped)
    (parted : s.disassembleIf = .ok (condition, part))
    : part.Shaped := by
  cases s with
  | ifThen c body =>
      cases parted
      exact shaped.2
  | block _ | ifElse _ _ _ | whileDo _ _ | call _ => cases parted

theorem Shaped.disassembleIfElse {s thenPart elsePart : Statement} {condition : Condition}
    (shaped : s.Shaped) (parted : s.disassembleIfElse = .ok (condition, thenPart, elsePart))
    : thenPart.Shaped ∧ elsePart.Shaped := by
  cases s with
  | ifElse c thenBody elseBody =>
      cases parted
      exact ⟨shaped.1.2, shaped.2.2⟩
  | block _ | ifThen _ _ | whileDo _ _ | call _ => cases parted

theorem Shaped.disassembleWhile {s part : Statement} {condition : Condition} (shaped : s.Shaped)
    (parted : s.disassembleWhile = .ok (condition, part))
    : part.Shaped := by
  cases s with
  | whileDo c body =>
      cases parted
      exact shaped.2
  | block _ | ifThen _ _ | ifElse _ _ _ | call _ => cases parted

end Statement

namespace Context

/-- All bodies have the shape that the contracts ask. -/
def Shaped (context : Context) : Prop := ∀ entry ∈ context.entries, entry.2.Shaped

theorem shaped_empty : empty.Shaped := nofun

theorem Shaped.get? {context : Context} (shaped : context.Shaped) {name : String}
    {body : Statement} (found : context.get? name = some body)
    : body.Shaped :=
  shaped _ ((get?_eq_some_iff context name body).mp found)

theorem Shaped.insert {context : Context} (shaped : context.Shaped) {body : Statement}
    (shapedBody : body.Shaped) (name : String)
    : (context.insert name body).Shaped := by
  intro entry member
  rcases mem_place member with same | earlier
  · exact same ▸ shapedBody
  · exact shaped entry earlier

theorem Shaped.erase {context : Context} (shaped : context.Shaped) (name : String)
    : (context.erase name).Shaped :=
  fun entry member => shaped entry (List.mem_filter.mp member).1

end Context

-----------------------------------------------------------------------------------------
-- Programs
-----------------------------------------------------------------------------------------

namespace Program

theorem shaped_unnamed : unnamed.Shaped := ⟨rfl, trivial, nofun⟩

theorem shaped_ofParts {name : String} {context : Context} {body : Statement} {program : Program}
    (shaped : context.Shaped) (shapedBody : body.Shaped)
    (made : ofParts name context body = .ok program)
    : program.Shaped := by
  obtain ⟨_, block, made⟩ := bind_eq_ok_iff.mp made
  obtain rfl := pure_eq_ok_iff.mp made
  exact ⟨Statement.requireBlock_eq_ok_iff.mp block, shapedBody, shaped⟩

theorem Shaped.setName {program renamed : Program} (shaped : program.Shaped) {name : String}
    (named : program.setName name = .ok renamed)
    : renamed.Shaped := by
  unfold Program.setName at named
  split at named
  · cases named
  · cases named
    exact ⟨shaped.block, shaped.body, shaped.declared⟩

theorem Shaped.swapBody {program changed : Program} (shaped : program.Shaped)
    {body former : Statement} (shapedBody : body.Shaped)
    (swapped : program.swapBody body = .ok (changed, former))
    : changed.Shaped ∧ former.Shaped := by
  obtain ⟨_, block, made⟩ := bind_eq_ok_iff.mp swapped
  obtain ⟨rfl, rfl⟩ := Prod.mk.inj (pure_eq_ok_iff.mp made)
  exact ⟨⟨Statement.requireBlock_eq_ok_iff.mp block, shapedBody, shaped.declared⟩, shaped.body⟩

theorem Shaped.withContext {program : Program} (shaped : program.Shaped) {context : Context}
    (shapedContext : context.Shaped)
    : Program.Shaped { program with context } :=
  ⟨shaped.block, shaped.body, shapedContext⟩

end Program

-----------------------------------------------------------------------------------------
-- The workbench
-----------------------------------------------------------------------------------------

namespace Workbench

/-- Every tree on the workbench has the shape that the contracts ask. -/
structure Shaped (bench : Workbench) : Prop where
  slots : bench.slots.Shaped
  register : bench.register.Shaped
  program : bench.program.Shaped
  saved : bench.saved.Shaped

/-- Trees are brought to the workbench only with that shape. -/
def Command.Shaped : Command → Prop
  | .set _ value => value.Shaped
  | .load program => program.Shaped
  | _ => True

theorem shaped_new : new.Shaped :=
  ⟨Context.shaped_empty, Context.shaped_empty, Program.shaped_unnamed, Program.shaped_unnamed⟩

namespace Shaped

variable {bench : Workbench} {name : String}

theorem slot (shaped : bench.Shaped) (name : String) : (bench.slot name).Shaped := by
  unfold Workbench.slot
  cases found : bench.slots.get? name with
  | none => exact Statement.shaped_empty
  | some value => exact shaped.slots.get? found

theorem put (shaped : bench.Shaped) {value : Statement} (shapedValue : value.Shaped)
    (name : String)
    : (bench.put name value).Shaped :=
  ⟨shaped.slots.insert shapedValue name, shaped.register, shaped.program, shaped.saved⟩

theorem touch (shaped : bench.Shaped) (name : String) : (bench.touch name).Shaped :=
  shaped.put (shaped.slot name) name

theorem take (shaped : bench.Shaped) (name : String) : (bench.take name).2.Shaped :=
  shaped.put Statement.shaped_empty name

theorem withProgram (shaped : bench.Shaped) {program : Program} (shapedProgram : program.Shaped)
    : Workbench.Shaped { bench with program } :=
  ⟨shaped.slots, shaped.register, shapedProgram, shaped.saved⟩

theorem withRegister (shaped : bench.Shaped) {register : Context}
    (shapedRegister : register.Shaped)
    : Workbench.Shaped { bench with register } :=
  ⟨shaped.slots, shapedRegister, shaped.program, shaped.saved⟩

/-- A broken contract leaves the workbench as it was, so only the success counts. -/
theorem respond {α : Type} (shaped : bench.Shaped) {result : Except Violation α}
    {success : α → Workbench × Reply}
    (kept : ∀ value, result = .ok value → (success value).1.Shaped)
    : (bench.respond result success).1.Shaped := by
  cases result with
  | ok value => exact kept value rfl
  | error violation => exact shaped

theorem store (shaped : bench.Shaped) {result : Except Violation Statement}
    (made : ∀ value, result = .ok value → value.Shaped) (name : String)
    : (bench.store name result).1.Shaped :=
  (shaped.touch name).respond fun value found => (shaped.touch name).put (made value found) name

end Shaped

/-- Generating code leaves the program as the generator does, and nothing else changes. -/
theorem step_generate (bench : Workbench) (style : JumpStyle)
    : (bench.step (.generate style)).1
      = { bench with program := (bench.program.generate style).1 } := by
  simp only [step]
  split <;> rename_i returned <;> rw [returned]

/-- No command takes the shape from a tree, also when it fails. -/
theorem Shaped.step {bench : Workbench} (shaped : bench.Shaped) {command : Command}
    (brought : command.Shaped)
    : (bench.step command).1.Shaped := by
  cases command with
  | set slot value => exact shaped.put brought slot
  | clear slot => exact shaped.put Statement.shaped_empty slot
  | copy slot into => exact (shaped.touch slot).put (shaped.slot slot) into
  | kind slot | render slot indent => exact shaped.touch slot
  | length slot => exact (shaped.touch slot).respond fun _ _ => shaped.touch slot
  | equal left right => exact (shaped.touch left).touch right
  | insert slot position child =>
      have lent := shaped.take child
      apply lent.store
      intro value inserted
      exact (lent.slot slot).insertAt (shaped.slot child) inserted
  | remove slot position into =>
      have touched := shaped.touch slot
      apply touched.respond
      intro parts removed
      obtain ⟨shapedChild, shapedRest⟩ := (touched.slot slot).removeAt removed
      exact (touched.put shapedRest slot).put shapedChild into
  | assembleIf slot condition body =>
      apply (shaped.take body).store
      intro value assembled
      exact (shaped.slot body).assembleIf assembled
  | assembleIfElse slot condition thenBody elseBody =>
      have lent := shaped.take thenBody
      apply (lent.take elseBody).store
      intro value assembled
      exact (shaped.slot thenBody).assembleIfElse (lent.slot elseBody) assembled
  | assembleWhile slot condition body =>
      apply (shaped.take body).store
      intro value assembled
      exact (shaped.slot body).assembleWhile assembled
  | assembleCall slot name => exact shaped.store (fun _ => Statement.shaped_assembleCall) slot
  | disassembleIf slot body =>
      have lent := shaped.take slot
      apply lent.respond
      intro parts parted
      exact lent.put ((shaped.slot slot).disassembleIf parted) body
  | disassembleIfElse slot thenBody elseBody =>
      have lent := shaped.take slot
      apply lent.respond
      intro parts parted
      obtain ⟨shapedThen, shapedElse⟩ := (shaped.slot slot).disassembleIfElse parted
      exact (lent.put shapedThen thenBody).put shapedElse elseBody
  | disassembleWhile slot body =>
      have lent := shaped.take slot
      apply lent.respond
      intro parts parted
      exact lent.put ((shaped.slot slot).disassembleWhile parted) body
  | disassembleCall slot => exact (shaped.take slot).respond fun _ _ => shaped.take slot
  | newProgram => exact shaped.withProgram Program.shaped_unnamed
  | ofParts slot name =>
      have lent := (shaped.take slot).withRegister Context.shaped_empty
      apply lent.respond
      intro program made
      exact lent.withProgram (Program.shaped_ofParts shaped.register (shaped.slot slot) made)
  | load program => exact shaped.withProgram brought
  | parse source =>
      simp only [Workbench.step]
      split
      · rename_i program accepted
        exact shaped.withProgram (Program.written_of_ofSource accepted).shaped
      · exact shaped
  | setName name =>
      apply shaped.respond
      intro program named
      exact shaped.withProgram (shaped.program.setName named)
  | newContext => exact shaped.withRegister Context.shaped_empty
  | swapContext =>
      exact (shaped.withProgram (shaped.program.withContext shaped.register)).withRegister
        shaped.program.declared
  | declare name slot =>
      exact (shaped.take slot).withRegister (shaped.register.insert (shaped.slot slot) name)
  | withdraw name into =>
      simp only [Workbench.step]
      split
      · exact shaped
      · rename_i body found
        exact (shaped.withRegister (shaped.register.erase name)).put
          (shaped.register.get? found) into
  | swapBody slot =>
      have touched := shaped.touch slot
      apply touched.respond
      intro parts swapped
      obtain ⟨shapedProgram, shapedFormer⟩ := touched.program.swapBody (touched.slot slot) swapped
      exact (touched.withProgram shapedProgram).put shapedFormer slot
  | copyBody into => exact shaped.put shaped.program.body into
  | name | renderProgram | sameAsSaved => exact shaped
  | reparse =>
      simp only [Workbench.step]
      split
      · exact shaped
      · exact shaped
  | generate style =>
      rw [step_generate, Program.generate_of_shaped style shaped.program]
      exact shaped
  | save => exact ⟨shaped.slots, shaped.register, shaped.program, shaped.program⟩
  | exchangeSaved => exact ⟨shaped.slots, shaped.register, shaped.saved, shaped.program⟩

/-- The workbench after commands one after the other. A command that fails does not stop those
behind it.
-/
def run (bench : Workbench) (commands : List Command) : Workbench :=
  commands.foldl (fun bench command => (bench.step command).1) bench

/-- Commands one after the other take the shape from no tree, by induction on them. -/
theorem Shaped.run {bench : Workbench} (shaped : bench.Shaped) {commands : List Command}
    (brought : ∀ command ∈ commands, command.Shaped)
    : (bench.run commands).Shaped := by
  induction commands generalizing bench with
  | nil => exact shaped
  | cons command rest ih =>
      obtain ⟨first, later⟩ := List.forall_mem_cons.mp brought
      exact ih (shaped.step first) later

/-- Whatever is done on a new workbench, with commands that fail among the others, every tree on it
has the shape that the contracts ask, and generating the code of its program breaks no contract.
-/
theorem runs_keep_shape (commands : List Command)
    (brought : ∀ command ∈ commands, command.Shaped)
    : (new.run commands).Shaped
      ∧ ∀ style violation, ((new.run commands).program.generate style).2 ≠ .broken violation := by
  have shaped := shaped_new.run brought
  refine ⟨shaped, ?_⟩
  intro style violation
  exact Program.generate_ne_broken style shaped.program violation

/-- A block can neither join itself nor be taken apart as a choice: the third command and the sixth
fail, and what they took is lost.
-/
def clumsy : List Command :=
  [
    .assembleCall "step" "move",
    .insert "body" 0 "step",
    .insert "body" 1 "body",
    .assembleWhile "loop" .always "body",
    .insert "main" 0 "loop",
    .disassembleIf "main" "rest",
    .assembleCall "again" "skip",
    .declare "again" "again",
    .swapContext,
    .swapBody "main"
  ]

theorem runs_keep_shape_clumsy
    : ((new.run (clumsy.take 2)).step (.insert "body" 1 "body")).2
        = .error (.violation .childIsBlock)
      ∧ (new.run clumsy).program.context.get? "again" = some (.call "skip")
      ∧ (new.run clumsy).Shaped
      ∧ ∀ style violation, ((new.run clumsy).program.generate style).2 ≠ .broken violation :=
  ⟨rfl, rfl, runs_keep_shape clumsy (by simp [clumsy, Command.Shaped])⟩

end Workbench

end AgentLang
