import AgentLang.Proofs.Generation.Tables
import AgentLang.Proofs.Reading.Soundness
import Mathlib.Data.List.Perm.Basic

/-! The order of declarations makes no difference. A source may declare its instructions in any
order, since the reader accepts distinct names only and enters each body under its name. A program
may hold them in any order as well: its text sorts the names, and its code looks them up.
-/

namespace AgentLang

-----------------------------------------------------------------------------------------
-- Declarations as parts of a source
-----------------------------------------------------------------------------------------

namespace Grammar

/-- A token sequence that declares one instruction. -/
def IsDeclaration (tokens : List Token) : Prop :=
  ∃ entry, Instruction tokens entry

/-- Declarations put together declare their entries in turn. -/
theorem Instructions.of_parts {declarations : List (List Token)} {entries : List Context.Entry}
    (parts : List.Forall₂ Instruction declarations entries)
    : Instructions declarations.flatten entries := by
  induction parts with
  | nil => exact .nil
  | cons first _ ih => exact .cons first ih

/-- Declarations one after the other come apart. -/
theorem Instructions.exists_parts {tokens : List Token} {entries : List Context.Entry}
    (derived : Instructions tokens entries)
    : ∃ declarations : List (List Token),
        tokens = declarations.flatten
        ∧ ∀ declaration ∈ declarations, IsDeclaration declaration := by
  induction derived with
  | nil => exact ⟨[], rfl, nofun⟩
  | @cons first more entry rest declared _ ih =>
      obtain ⟨declarations, rfl, parts⟩ := ih
      refine ⟨first :: declarations, rfl, ?_⟩
      exact List.forall_mem_cons.mpr ⟨⟨entry, declared⟩, parts⟩

theorem exists_entries {declarations : List (List Token)}
    (parts : ∀ declaration ∈ declarations, IsDeclaration declaration)
    : ∃ entries, List.Forall₂ Instruction declarations entries := by
  induction declarations with
  | nil => exact ⟨[], .nil⟩
  | cons first rest ih =>
      obtain ⟨⟨entry, declared⟩, others⟩ := List.forall_mem_cons.mp parts
      obtain ⟨entries, later⟩ := ih others
      exact ⟨entry :: entries, .cons declared later⟩

end Grammar

namespace Program

open Grammar Reader

/-- The source of a program with the given declarations, where the rest is what follows BEGIN. -/
def declaring (name : String) (declarations : List (List Token)) (rest : List Token)
    : List Token :=
  ["PROGRAM", name, "IS"] ++ declarations.flatten ++ "BEGIN" :: rest

/-- Every source that is accepted has its declarations in front of BEGIN. -/
theorem exists_declaring {tokens : List Token} {program : Program}
    (derived : Derives tokens program)
    : ∃ name declarations rest,
        tokens = declaring name declarations rest
        ∧ ∀ declaration ∈ declarations, IsDeclaration declaration := by
  cases derived with
  | @program name tokens more entries body identifier declared distinct inside =>
      obtain ⟨declarations, rfl, parts⟩ := declared.exists_parts
      refine ⟨name, declarations, more ++ ["END", name], ?_, parts⟩
      simp [declaring]

/-- Declarations behind which a reading ends well have distinct names that were new, by induction
on the declarations: a name that is taken would have ended the reading.
-/
theorem distinct_of_accepted {tokens rest : List Token} {entries : List Context.Entry}
    (derived : Instructions tokens entries) {heading : Heading} {program : Program}
    (accepted : (run (.declarations heading) (tokens ++ rest)).result = .ok program)
    : (entries.map (·.1)).Nodup ∧ ∀ entry ∈ entries, heading.context.get? entry.1 = none := by
  induction derived generalizing heading with
  | nil => simp
  | @cons first more entry others declared _ ih =>
      rw [List.append_assoc] at accepted
      by_cases taken : heading.context.contains entry.1 = true
      · rw [run_instruction_taken declared heading taken] at accepted
        cases accepted
      · have fresh : heading.context.get? entry.1 = none := by
          simpa [Context.contains] using taken
        rw [run_instruction declared heading fresh] at accepted
        obtain ⟨distinct, new⟩ := ih accepted
        have apart : ∀ other ∈ others, entry.1 ≠ other.1 := by
          intro other member same
          have absent := new other member
          simp [same] at absent
        refine ⟨?_, List.forall_mem_cons.mpr ⟨fresh, ?_⟩⟩
        · rw [List.map_cons, List.nodup_cons]
          refine ⟨?_, distinct⟩
          intro member
          obtain ⟨other, listed, same⟩ := List.mem_map.mp member
          exact apart other listed same.symm
        · intro other member
          have absent := new other member
          rwa [Context.get?_insert, if_neg (apart other member)] at absent

theorem read_declaring {name : String} (identifier : isIdentifier name = true)
    (declarations : List (List Token)) (rest : List Token)
    : read (declaring name declarations rest)
      = run (.declarations ⟨name, .empty⟩) (declarations.flatten ++ "BEGIN" :: rest) :=
  read_heading identifier _

/-- A program that is read has an identifier for its name. -/
theorem isIdentifier_of_accepted {name : String} {declarations : List (List Token)}
    {rest : List Token} {program : Program}
    (accepted : (read (declaring name declarations rest)).result = .ok program)
    : isIdentifier name = true := by
  by_contra other
  have refused : step .programName name = .error (.grammar (.invalidIdentifier name)) := by
    simp [step, Reader.identifier, other]
  have ended : read (declaring name declarations rest)
      = run .programName (name :: "IS" :: (declarations.flatten ++ "BEGIN" :: rest)) :=
    run_cons rfl _
  rw [ended] at accepted
  simp only [run, refused] at accepted
  cases accepted

/-- A source that is accepted is read in the same way with its declarations in another order. -/
theorem read_reordered {name : String} {declarations order : List (List Token)}
    {rest : List Token} {program : Program}
    (accepted : (read (declaring name declarations rest)).result = .ok program)
    (parts : ∀ declaration ∈ declarations, IsDeclaration declaration)
    (reordered : order.Perm declarations)
    : read (declaring name order rest) = read (declaring name declarations rest) := by
  have identifier := isIdentifier_of_accepted accepted
  obtain ⟨entries, declared⟩ := exists_entries parts
  -- The entries follow their declarations into the other order.
  obtain ⟨others, declared', permuted⟩ := List.perm_comp_forall₂ reordered declared
  rw [read_declaring identifier] at accepted ⊢
  obtain ⟨distinct, fresh⟩ := distinct_of_accepted (.of_parts declared) accepted
  have distinct' : (others.map (·.1)).Nodup := (permuted.map _).nodup_iff.mpr distinct
  have fresh' : ∀ entry ∈ others, Context.empty.get? entry.1 = none := fun _ _ => rfl
  have same : Context.ofList others = Context.ofList entries :=
    Context.ofList_perm distinct permuted
  rw [read_declaring identifier, run_instructions (.of_parts declared) distinct _ fresh,
    run_instructions (.of_parts declared') distinct' _ fresh']
  unfold Context.ofList at same
  rw [same]

end Program

-----------------------------------------------------------------------------------------
-- The text of a table
-----------------------------------------------------------------------------------------

namespace Table

/-- The names of a table in ascending order. -/
def sortedNames (table : Table) : List String :=
  (table.entries.map (·.1)).mergeSort fun left right => decide (left ≤ right)

/-- The canonical source of a program whose declarations the table lays out. Its names are
sorted, and each body is looked up.
-/
def render (name : String) (table : Table) (body : Statement) : String :=
  let declared := table.sortedNames.filterMap fun name => (table.find? name).map fun body =>
    Program.declarationLines (name, body)
  Text.unlines
    (("PROGRAM " ++ name ++ " IS")
      :: (declared.flatten
        ++ "" :: "BEGIN" :: (body.lines Statement.indentStep ++ ["END " ++ name])))

/-- The sorted names are those of the context in its one ascending order. -/
theorem sortedNames_eq {table : Table} {context : Context}
    (laidOut : table.entries.Perm context.entries)
    : table.sortedNames = context.names := by
  have sorted : table.sortedNames.Pairwise (· ≤ ·) := by
    have compared : table.sortedNames.Pairwise fun left right => decide (left ≤ right) = true :=
      List.pairwise_mergeSort
        (by simpa using fun _ _ _ => String.le_trans)
        (by simpa using String.le_total)
        (table.entries.map (·.1))
    exact compared.imp of_decide_eq_true
  have ascending : context.names.Pairwise (· ≤ ·) := by
    rw [Context.names, List.pairwise_map]
    exact context.ascending.imp fun less => Std.le_of_lt less
  have permuted : table.sortedNames.Perm context.names :=
    (List.mergeSort_perm _ _).trans (laidOut.map _)
  exact permuted.eq_of_pairwise (fun _ _ _ _ => String.le_antisymm) sorted ascending

/-- The text of a table is that of the program whose context is laid out. -/
theorem render_eq {table : Table} {program : Program}
    (laidOut : table.entries.Perm program.context.entries)
    : table.render program.name program.body = program.render := by
  have found : ∀ entry ∈ program.context.entries, table.find? entry.1 = some entry.2 := by
    intro entry member
    exact (Context.find?_eq_some_iff table.distinct _ _).mpr (laidOut.mem_iff.mpr member)
  have looked : (program.context.entries.filterMap fun entry =>
        (table.find? entry.1).map fun body => Program.declarationLines (entry.1, body))
      = program.context.entries.map Program.declarationLines := by
    rw [← List.filterMap_eq_map]
    apply List.filterMap_congr
    intro entry member
    rw [found entry member]
    rfl
  simp only [render, Program.render, Program.lines, sortedNames_eq laidOut, Context.names,
    List.filterMap_map, Function.comp_def, looked, List.flatMap_def]

end Table

-----------------------------------------------------------------------------------------
-- Orders of declarations
-----------------------------------------------------------------------------------------

namespace Program

open Grammar

/-- No order of declarations matters. The declarations of a source that is accepted may be put in
any other order: the source stays accepted and says the same program, with the same text and the
same code or error. And whatever order a program holds its declarations in, and falls into when
the generator takes them out and puts them back, its text and its code or error are the same.
-/
theorem declaration_order_is_irrelevant
    : (∀ tokens program,
        (read tokens).result = .ok program
        → (∃ name declarations rest,
            tokens = declaring name declarations rest
            ∧ ∀ declaration ∈ declarations, IsDeclaration declaration)
          ∧ ∀ name declarations rest,
              tokens = declaring name declarations rest
              → (∀ declaration ∈ declarations, IsDeclaration declaration)
              → ∀ order : List (List Token),
                  order.Perm declarations
                  → ∃ other,
                      (read (declaring name order rest)).result = .ok other
                      ∧ other = program
                      ∧ other.render = program.render
                      ∧ ∀ style, (other.generate style).2 = (program.generate style).2)
      ∧ ∀ (program : Program) (table : Table),
          table.entries.Perm program.context.entries
          → table.render program.name program.body = program.render
            ∧ ∀ layout style,
                table.generate layout style program.name program.body
                  = (program.generate style).2 := by
  refine ⟨?_, ?_⟩
  · intro tokens program accepted
    refine ⟨exists_declaring (Reader.derives_of_read accepted), ?_⟩
    rintro name declarations rest rfl parts order reordered
    refine ⟨program, ?_, rfl, rfl, fun _ => rfl⟩
    rw [read_reordered accepted parts reordered, accepted]
  · intro program table laidOut
    exact ⟨Table.render_eq laidOut, fun layout style => Table.generate_eq layout style laidOut⟩

/-- The declaration of an instruction that only calls others. -/
def calling (name : String) (calls : List String) : List Token :=
  ["INSTRUCTION", name, "IS"] ++ calls ++ ["END", name]

theorem isDeclaration_calling {name : String} {calls : List String}
    (identifier : isIdentifier name = true) (free : Primitive.ofWord? name = none)
    (identifiers : ∀ call ∈ calls, isIdentifier call = true)
    : IsDeclaration (calling name calls) := by
  have block : Block calls (calls.map .call) := by
    induction calls with
    | nil => exact .nil
    | cons call rest ih =>
        obtain ⟨first, others⟩ := List.forall_mem_cons.mp identifiers
        exact .cons (.call first) (ih others)
  exact ⟨_, .declare identifier free block⟩

/-- Instructions of which each calls the one in front of it. -/
def rounds : List (List Token) :=
  [calling "step" ["move"], calling "side" ["step", "turnleft"], calling "lap" ["side", "side"]]

/-- A table turns around whenever it changes. -/
def turning : Table.Layout := fun _ => ⟨List.reverse, List.reverse_perm⟩

theorem declaration_order_is_irrelevant_rounds
    : ∃ program,
        (read (declaring "rounds" rounds ["lap", "END", "rounds"])).result = .ok program
        ∧ (read (declaring "rounds" rounds.reverse ["lap", "END", "rounds"])).result = .ok program
        ∧ ∃ table : Table,
            table.entries = program.context.entries.reverse
            ∧ table.render program.name program.body = program.render
            ∧ table.generate turning .single program.name program.body
              = .generated ⟨"rounds", [0, 1, 0, 1, 5]⟩ := by
  have accepted : (read (declaring "rounds" rounds ["lap", "END", "rounds"])).result = .ok
      ⟨"rounds",
        .ofList [("lap", .block [.call "side", .call "side"]), ("step", .block [.call "move"]),
          ("side", .block [.call "step", .call "turnleft"])],
        .block [.call "lap"]⟩ := by
    rfl
  have parts : ∀ declaration ∈ rounds, IsDeclaration declaration := by
    simp only [rounds, List.forall_mem_cons]
    exact ⟨isDeclaration_calling rfl rfl (by decide), isDeclaration_calling rfl rfl (by decide),
      isDeclaration_calling rfl rfl (by decide), nofun⟩
  obtain ⟨reading, laying⟩ := declaration_order_is_irrelevant
  obtain ⟨program, reread, same, -, -⟩ :=
    (reading _ _ accepted).2 _ _ _ rfl parts rounds.reverse (List.reverse_perm _)
  rw [← same] at accepted
  have distinct : (program.context.entries.reverse.map (·.1)).Nodup :=
    ((List.reverse_perm _).map _).nodup_iff.mpr program.context.names_nodup
  obtain ⟨rendered, generated⟩ := laying program ⟨_, distinct, 0⟩ (List.reverse_perm _)
  refine ⟨program, accepted, reread, ⟨_, distinct, 0⟩, rfl, rendered, ?_⟩
  rw [generated, same]
  rfl

end Program

end AgentLang
