import AgentLang.Proofs.Generation.Instructions
import AgentLang.Proofs.Generation.Returning
import AgentLang.Proofs.Printing.RoundTrip
import AgentLang.Proofs.Text.Decimals
import Mathlib.Algebra.Group.Nat.Defs

/-! The words of jump targets. A target stands for an offset, the length that the code has where
the jump leads to, and its word is that offset reduced modulo 2^32. The two are the same while
the offset is below 2^32. Calls are expanded in place, so the code may be exponentially longer
than its program, and then they are not.
-/

namespace AgentLang

-----------------------------------------------------------------------------------------
-- Words and offsets
-----------------------------------------------------------------------------------------

namespace Listing

/-- A line stands for the words at its offset: the opcode, and the target behind it. By induction
on the instructions.
-/
theorem Instruction.words_of_line {instructions : List Instruction} {offset : Nat} {line : Line}
    (member : line ∈ lines offset instructions)
    : ∃ place,
        line.offset = offset + place
        ∧ (code instructions)[place]? = some line.op.code
        ∧ ∀ word, line.target = some word → (code instructions)[place + 1]? = some word := by
  induction instructions generalizing offset with
  | nil => cases member
  | cons first rest ih =>
      have behind (place : Nat)
          : (code (first :: rest))[first.words.length + place]? = (code rest)[place]? := by
        rw [code, List.flatMap_cons, List.getElem?_append_right (Nat.le_add_right _ _),
          Nat.add_sub_cancel_left, code]
      rcases List.mem_cons.mp member with rfl | member
      · refine ⟨0, rfl, congrArg some first.code_op.symm, ?_⟩
        intro word aimed
        have aimed : first.target = some word := aimed
        simp [code, words, aimed]
      · obtain ⟨place, stands, opcode, aimed⟩ := ih member
        refine ⟨first.words.length + place, by omega, ?_, ?_⟩
        · rw [behind, opcode]
        · intro word target
          rw [Nat.add_assoc, behind, aimed word target]

theorem target_of_decode {code : Code} {lines : List Line} (decoded : decode 0 code = .ok lines)
    {line : Line} (member : line ∈ lines) {word : UInt32} (aimed : line.target = some word)
    : code[line.offset + 1]? = some word := by
  obtain ⟨instructions, rfl, rfl⟩ := decode_eq_ok_iff.mp decoded
  obtain ⟨place, stands, _, targets⟩ := Instruction.words_of_line member
  rw [stands, Nat.zero_add]
  exact targets word aimed

end Listing

/-- The word behind each jump is the offset that its target stands for. -/
def Code.Aims (code : Code) (entries : List Plan.Entry) : Prop :=
  ∀ entry ∈ entries, ∀ target,
    entry.target = some target
    → ∃ word, code[entry.offset + 1]? = some word ∧ word.toNat = target

/-- The words of all targets are their offsets reduced to words, so the jumps aim where they should
exactly when no offset takes more than a word.
-/
theorem Code.aims_iff {code : Code} {entries : List Plan.Entry}
    (words
      : ∀ entry ∈ entries, ∀ target,
          entry.target = some target → code[entry.offset + 1]? = some target.toUInt32)
    : code.Aims entries
      ↔ ∀ entry ∈ entries, ∀ target, entry.target = some target → target < UInt32.size := by
  constructor
  · intro aims entry member target aimed
    obtain ⟨word, found, same⟩ := aims entry member target aimed
    obtain rfl := Option.some.inj ((words entry member target aimed).symm.trans found)
    exact (Text.toNat_toUInt32_eq_iff target).mp same
  · intro small entry member target aimed
    exact ⟨_, words entry member target aimed,
      (Text.toNat_toUInt32_eq_iff target).mpr (small entry member target aimed)⟩

/-- The targets of generated code. Every jump of the code is one of the plan, whose target stands
for an offset in the code, and the word behind the jump is that offset reduced modulo 2^32. So
no target is wrong exactly when all those offsets are below 2^32, which they are in code of at
most 2^32 words.
-/
theorem Program.targets_wrap_at_word_size {style : JumpStyle} {program left : Program}
    {compiled : Compiled} (generated : program.generate style = (left, .generated compiled))
    : ∃ plan,
        program.plan = .ok plan
        ∧ Listing.decode 0 compiled.code
          = .ok ((plan.entries style 0).map Plan.Entry.line ++ [⟨plan.size style, .halt, none⟩])
        ∧ (∀ entry ∈ plan.entries style 0, ∀ target,
            entry.target = some target
            → target < compiled.code.length
              ∧ ∃ word,
                  compiled.code[entry.offset + 1]? = some word
                  ∧ word.toNat = target % UInt32.size)
        ∧ (compiled.code.Aims (plan.entries style 0)
          ↔ ∀ entry ∈ plan.entries style 0, ∀ target,
              entry.target = some target → target < UInt32.size)
        ∧ (compiled.code.length ≤ UInt32.size → compiled.code.Aims (plan.entries style 0)) := by
  obtain ⟨plan, planned, rfl⟩ := Program.plan_of_generated generated
  have decoded := plan.decode_halted style
  have length : (plan.code style 0 ++ [Opcode.halt.code]).length = plan.size style + 1 := by
    simp
  have words : ∀ entry ∈ plan.entries style 0, ∀ target,
      entry.target = some target
      → (plan.code style 0 ++ [Opcode.halt.code])[entry.offset + 1]? = some target.toUInt32 := by
    intro entry member target aimed
    apply Listing.target_of_decode decoded (List.mem_append_left _ (List.mem_map_of_mem member))
    simp [Plan.Entry.line, aimed]
  have inside : ∀ entry ∈ plan.entries style 0, ∀ target,
      entry.target = some target → target < (plan.code style 0 ++ [Opcode.halt.code]).length := by
    intro entry member target aimed
    have lands := ((plan.entries_stretch style 0).fits entry member).lands target aimed
    omega
  refine ⟨plan, planned, decoded, ?_, Code.aims_iff words, ?_⟩
  · intro entry member target aimed
    exact ⟨inside entry member target aimed, _, words entry member target aimed,
      UInt32.toNat_ofNat'⟩
  · intro small
    refine (Code.aims_iff words).mpr ?_
    intro entry member target aimed
    exact Nat.lt_of_lt_of_le (inside entry member target aimed) small

/-- The code of the errands is short, so each of its jumps aims at the offset it stands for. -/
theorem Program.targets_wrap_at_word_size_errands
    : errands.generate .structured
        = (
          errands,
          .generated ⟨"Errands", [10, 12, 15, 9, 7, 7, 0, 6, 10, 1, 6, 0, 7, 15, 0, 5]⟩
        )
      ∧ ∃ plan,
          errands.plan = .ok plan
          ∧ Code.Aims [10, 12, 15, 9, 7, 7, 0, 6, 10, 1, 6, 0, 7, 15, 0, 5]
              (plan.entries .structured 0) := by
  have generated : errands.generate .structured
      = (
        errands,
        .generated ⟨"Errands", [10, 12, 15, 9, 7, 7, 0, 6, 10, 1, 6, 0, 7, 15, 0, 5]⟩
      ) := by
    decide
  obtain ⟨plan, planned, _, _, _, exact⟩ := Program.targets_wrap_at_word_size generated
  exact ⟨generated, plan, planned, exact (by decide)⟩

-----------------------------------------------------------------------------------------
-- Code that outgrows its words
-----------------------------------------------------------------------------------------

namespace Doubling

/-- The names of instructions each of which calls the one below it twice. The lowest is a
primitive, the others have a letter for each level.
-/
def level : Nat → String
  | 0 => "move"
  | n + 1 => String.ofList (List.replicate (n + 1) 'x')

/-- The body of the instruction above a level. -/
def body (n : Nat) : Statement := .block [.call (level n), .call (level n)]

/-- The declarations up to a level. -/
def context : Nat → Context
  | 0 => .empty
  | n + 1 => (context n).insert (level (n + 1)) (body n)

/-- What a call of a level comes to. -/
def plan : Nat → Plan
  | 0 => .act .move
  | n + 1 => .seq (plan n) (.seq (plan n) .done)

theorem level_injective {m n : Nat} (same : level m = level n) : m = n := by
  cases m with
  | zero =>
      cases n with
      | zero => rfl
      | succ n =>
          have chars := congrArg String.toList same
          simp [level, List.replicate_succ] at chars
  | succ m =>
      cases n with
      | zero =>
          have chars := congrArg String.toList same
          simp [level, List.replicate_succ] at chars
      | succ n =>
          have lengths := congrArg String.length same
          simpa [level] using lengths

theorem get?_context_lowest (n : Nat) : (context n).get? (level 0) = none := by
  induction n with
  | zero => rfl
  | succ n ih =>
      have apart : level (n + 1) ≠ level 0 := fun same => nomatch level_injective same
      rw [context, Context.get?_insert, if_neg apart, ih]

theorem get?_context {k n : Nat} (below : k < n)
    : (context n).get? (level (k + 1)) = some (body k) := by
  induction n with
  | zero => cases below
  | succ n ih =>
      rw [context, Context.get?_insert]
      split
      · rename_i same
        rw [Nat.succ.inj (level_injective same)]
      · rename_i apart
        refine ih (Nat.lt_of_le_of_ne (Nat.le_of_lt_succ below) ?_)
        rintro rfl
        exact apart rfl

/-- A call of a level is resolved where the levels up to it are declared, by induction on the
level. Expanding it takes its own declaration away and none below.
-/
theorem resolve_level {n : Nat} {context : Context} {expanding : List String}
    (declared : ∀ k < n, context.get? (level (k + 1)) = some (body k))
    (primitive : context.get? (level 0) = none) (idle : level 0 ∉ expanding)
    : Plan.resolve context expanding (level n) = .ok (plan n) := by
  induction n generalizing context expanding with
  | zero =>
      have unmoved : "move" ∉ expanding := idle
      rw [Plan.resolve_undeclared primitive, Plan.ofName]
      simp [level, unmoved, plan, show Primitive.ofWord? "move" = some .move from rfl]
  | succ n ih =>
      have apart {k : Nat} (below : k < n + 1) : level (n + 1) ≠ level k := by
        intro same
        exact Nat.ne_of_gt below (level_injective same)
      have inner : Plan.resolve (context.erase (level (n + 1))) (level (n + 1) :: expanding)
          (level n)
          = .ok (plan n) := by
        apply ih
        · intro k below
          rw [Context.get?_erase, if_neg (apart (Nat.succ_lt_succ below)),
            declared k (Nat.lt_succ_of_lt below)]
        · rw [Context.get?_erase, if_neg (apart (Nat.succ_pos n)), primitive]
        · intro member
          rcases List.mem_cons.mp member with same | member
          · exact apart (Nat.succ_pos n) same.symm
          · exact idle member
      rw [Plan.resolve_declared (declared n (Nat.lt_succ_self n)), body]
      simp only [Plan.ofStatement, Plan.ofAll, inner]
      rfl

/-- The code of a level has twice the steps of the one below it. -/
theorem code_plan (style : JumpStyle) (n offset : Nat)
    : (plan n).code style offset = List.replicate (2 ^ n) 0 := by
  induction n generalizing offset with
  | zero => rfl
  | succ n ih =>
      have twice : 2 ^ (n + 1) = 2 ^ n + 2 ^ n := by omega
      simp only [plan, Plan.code, ih, List.append_nil]
      rw [twice, List.replicate_append_replicate]

theorem size_plan (style : JumpStyle) (n : Nat) : (plan n).size style = 2 ^ n := by
  rw [← Plan.length_code style 0, code_plan, List.length_replicate]

theorem level_ne_empty (n : Nat) : level n ≠ "" := by
  cases n with
  | zero => decide
  | succ n =>
      intro empty
      have lengths := congrArg String.length empty
      simp [level] at lengths

/-- The declarations are those of the levels from the lowest on. -/
theorem level_of_get? {n : Nat} {name : String} {declared : Statement}
    (found : (context n).get? name = some declared)
    : ∃ k, name = level (k + 1) ∧ declared = body k := by
  induction n with
  | zero => cases found
  | succ n ih =>
      rw [context, Context.get?_insert] at found
      split at found
      · rename_i same
        exact ⟨n, same.symm, (Option.some.inj found).symm⟩
      · exact ih found

theorem level_of_mem {n : Nat} {entry : Context.Entry} (member : entry ∈ (context n).entries)
    : ∃ k, entry = (level (k + 1), body k) := by
  obtain ⟨k, name, declared⟩ := level_of_get? ((Context.get?_eq_some_iff _ _ _).mpr member)
  exact ⟨k, Prod.ext name declared⟩

theorem shaped_body (n : Nat) : (body n).Shaped := by
  simp [body, Statement.Shaped, Statement.ShapedAll, Statement.kind, level_ne_empty]

/-- A word with another letter in front is no level above the lowest. -/
theorem level_ne_of_head {word : String} (head : word.toList.head? ≠ some 'x') (n : Nat)
    : word ≠ level (n + 1) := by
  rintro rfl
  simp [level, List.replicate_succ] at head

theorem ofWord?_level (n : Nat) : Primitive.ofWord? (level (n + 1)) = none := by
  have heads : ∀ p ∈ Primitive.all, p.word.toList.head? ≠ some 'x' := by
    decide
  rw [Primitive.ofWord?, List.find?_eq_none]
  intro p member
  simpa using level_ne_of_head (heads p member) n

theorem isReserved_level (n : Nat) : isReserved (level (n + 1)) = false := by
  have keywordHeads : ∀ word ∈ keywords, word.toList.head? ≠ some 'x' := by
    decide
  have conditionHeads : ∀ c ∈ Condition.all, c.keyword.toList.head? ≠ some 'x' := by
    decide
  have noKeyword : level (n + 1) ∉ keywords := by
    intro member
    exact level_ne_of_head (keywordHeads _ member) n rfl
  have noCondition : Condition.ofKeyword? (level (n + 1)) = none := by
    rw [Condition.ofKeyword?, List.find?_eq_none]
    intro c member
    simpa using level_ne_of_head (conditionHeads c member) n
  simp [isReserved, noKeyword, noCondition]

theorem isIdentifier_level (n : Nat) : isIdentifier (level n) = true := by
  cases n with
  | zero => rfl
  | succ n =>
      have chars : (level (n + 1)).toList = 'x' :: List.replicate n 'x' := by
        rw [level, String.toList_ofList, List.replicate_succ]
      simp [isIdentifier, chars, isReserved_level, show 'x'.isAlpha = true from rfl,
        show isWordChar 'x' = true from rfl]

end Doubling

/-- A test of a step that is doubled at each level. -/
def surge (levels : Nat) : Program where
  name := "Surge"
  context := Doubling.context levels
  body := .block [.ifThen .random (.block [.call (Doubling.level levels)])]

/-- The names of the levels may stand in a source. -/
theorem named_surge (levels : Nat) : (surge levels).Named where
  name := show isIdentifier "Surge" = true from rfl
  calls := by
    intro name called
    rcases List.mem_append.mp called with inContext | inBody
    · obtain ⟨entry, member, called⟩ := List.mem_flatMap.mp inContext
      obtain ⟨k, rfl⟩ := Doubling.level_of_mem member
      have below : name = Doubling.level k := by
        simpa [Doubling.body, Statement.calls, Statement.callsOfAll] using called
      rw [below]
      exact Doubling.isIdentifier_level k
    · have highest : name = Doubling.level levels := by
        simpa [surge, Statement.calls, Statement.callsOfAll] using inBody
      rw [highest]
      exact Doubling.isIdentifier_level levels
  declared := by
    intro name member
    obtain ⟨entry, inContext, rfl⟩ := List.mem_map.mp member
    obtain ⟨k, rfl⟩ := Doubling.level_of_mem inContext
    exact ⟨Doubling.isIdentifier_level (k + 1), Doubling.ofWord?_level k⟩

theorem normal_surge (levels : Nat) : (surge levels).normal = surge levels := by
  have context : (Doubling.context levels).mapBodies Statement.normalBody
      = Doubling.context levels := by
    apply Context.ext_get?
    intro name
    rw [Context.get?_mapBodies]
    cases found : (Doubling.context levels).get? name with
    | none => rfl
    | some declared =>
        obtain ⟨k, _, rfl⟩ := Doubling.level_of_get? found
        rfl
  rw [Program.normal, surge, context]
  rfl

/-- The test is what its canonical source is read as. -/
theorem ofSource_render_surge (levels : Nat)
    : Program.ofSource (surge levels).render = .ok (surge levels) := by
  rw [Program.ofSource_render (named_surge levels), normal_surge]

/-- What the test comes to. -/
def surgePlan (levels : Nat) : Plan :=
  .seq (.ifThen .random (.seq (Doubling.plan levels) .done)) .done

theorem plan_surge (levels : Nat) : (surge levels).plan = .ok (surgePlan levels) := by
  have called : Plan.resolve (Doubling.context levels) [] (Doubling.level levels)
      = .ok (Doubling.plan levels) :=
    Doubling.resolve_level (fun _ => Doubling.get?_context) (Doubling.get?_context_lowest levels)
      List.not_mem_nil
  simp only [Program.plan, surge, Plan.ofStatement, Plan.ofAll, called]
  rfl

theorem generate_surge (style : JumpStyle) (levels : Nat)
    : (surge levels).generate style
      = (
        surge levels,
        .generated
          ⟨"Surge", 15 :: (2 ^ levels + 2).toUInt32 :: (List.replicate (2 ^ levels) 0 ++ [5])⟩
      ) := by
  have shaped : (surge levels).body.Shaped := by
    simp [surge, Statement.Shaped, Statement.ShapedAll, Statement.kind, Doubling.level_ne_empty]
  have declared (name : String) (body : Statement)
      (found : (surge levels).context.get? name = some body)
      : body.Shaped := by
    obtain ⟨k, _, rfl⟩ := Doubling.level_of_get? found
    exact Doubling.shaped_body k
  rw [Program.generate_of_reached style (surge levels) rfl shaped
    fun name body _ found => declared name body found]
  simp only [Program.planned, plan_surge, surgePlan, Plan.code, Plan.size, Doubling.code_plan,
    Doubling.size_plan, Plan.jumpTo, List.append_nil, Nat.zero_add, Nat.add_zero,
    Nat.add_comm 2 (2 ^ levels)]
  rfl

theorem mem_entries_surgePlan (style : JumpStyle) (levels : Nat)
    : ⟨0, .jumpUnless .random, some (2 ^ levels + 2)⟩ ∈ (surgePlan levels).entries style 0 := by
  simp [surgePlan, Plan.entries, Plan.size, Doubling.size_plan, Nat.add_comm]

/-- A jump that does not aim at the offset it stands for. With 32 levels the test leads over 2^32
steps to offset 2^32 + 2, and its word says 2. The program is one that a source is read as.
-/
theorem Program.surge_target_wraps
    : Program.ofSource (surge 32).render = .ok (surge 32)
      ∧ ∃ compiled plan,
        (surge 32).generate .single = (surge 32, .generated compiled)
        ∧ (surge 32).plan = .ok plan
        ∧ compiled.code = 15 :: 2 :: (List.replicate (2 ^ 32) 0 ++ [5])
        ∧ ⟨0, .jumpUnless .random, some (2 ^ 32 + 2)⟩ ∈ plan.entries .single 0
        ∧ ¬ compiled.code.Aims (plan.entries .single 0) := by
  have word : (2 ^ 32 + 2).toUInt32 = 2 := by decide
  have generated := generate_surge .single 32
  rw [word] at generated
  have entry := mem_entries_surgePlan .single 32
  refine ⟨ofSource_render_surge 32, _, surgePlan 32, generated, plan_surge 32, rfl, entry, ?_⟩
  intro aims
  obtain ⟨found, same, wrong⟩ := aims _ entry _ rfl
  cases same
  cases wrong

end AgentLang
