import AgentLang.Proofs.Generation.HandingBack
import AgentLang.Proofs.Listing.Decoding

/-! The instructions of generated code. Opcodes and targets stand in one sequence of words; cut
at the right places, the code of a plan is a stretch of instructions whose jumps stay inside
it or lead to its end, and are nested as the constructs of the plan are.
-/

namespace AgentLang

namespace Plan

/-- An instruction in the code of a plan, at the offset where it starts and with the offset its
target stands for.
-/
structure Entry where
  offset : Nat
  op : Opcode
  target : Option Nat
  deriving DecidableEq, Repr

/-- The instruction as a listing has it. -/
def Entry.line (entry : Entry) : Listing.Line :=
  ⟨entry.offset, entry.op, entry.target.map Nat.toUInt32⟩

@[simp]
theorem Entry.offset_line (entry : Entry) : entry.line.offset = entry.offset := rfl

/-- The instructions in the code of a plan that starts at the given offset. -/
def entries (style : JumpStyle) (offset : Nat) : Plan → List Entry
  | done => []
  | act p => [⟨offset, .act p, none⟩]
  | seq first second =>
      first.entries style offset ++ second.entries style (offset + first.size style)
  | ifThen condition body =>
      ⟨offset, .jumpUnless condition, some (offset + 2 + body.size style)⟩
        :: body.entries style (offset + 2)
  | ifElse condition thenPlan elsePlan =>
      let behindThen := offset + 2 + thenPlan.size style
      match style with
      | .single =>
          ⟨offset, .jumpUnless condition, some (behindThen + elsePlan.size style)⟩
            :: (thenPlan.entries style (offset + 2) ++ elsePlan.entries style behindThen)
      | .structured =>
          ⟨offset, .jumpUnless condition, some (behindThen + 2)⟩
            :: (thenPlan.entries style (offset + 2)
              ++ ⟨behindThen, .jump, some (behindThen + 2 + elsePlan.size style)⟩
                :: elsePlan.entries style (behindThen + 2))
  | whileDo condition body =>
      let behindBody := offset + 2 + body.size style
      match style with
      | .single =>
          ⟨offset, .jumpUnless condition, some behindBody⟩ :: body.entries style (offset + 2)
      | .structured =>
          ⟨offset, .jumpUnless condition, some (behindBody + 2)⟩
            :: (body.entries style (offset + 2) ++ [⟨behindBody, .jump, some offset⟩])

end Plan

-----------------------------------------------------------------------------------------
-- Decoding
-----------------------------------------------------------------------------------------

theorem Listing.Decodes.jumpTo {op : Opcode} (takes : op.takesTarget = true) (offset target : Nat)
    : Decodes offset (offset + 2) (Plan.jumpTo op target)
        [⟨offset, op, some target.toUInt32⟩] :=
  .aimed takes offset target.toUInt32

/-- The code of a plan is cut into its instructions, by the constructs of the plan. -/
theorem Plan.decodes_code (style : JumpStyle) (offset : Nat) (plan : Plan)
    : Listing.Decodes offset (offset + plan.size style) (plan.code style offset)
        ((plan.entries style offset).map Entry.line) := by
  induction plan generalizing offset with
  | done => exact .nil offset
  | act p => exact .plain (.act p) rfl offset
  | seq first second ihFirst ihSecond =>
      simp only [code, size, entries, List.map_append, ← Nat.add_assoc]
      exact (ihFirst offset).append (ihSecond _)
  | ifThen condition body ih =>
      simp only [code, size, entries, List.map_cons, ← Nat.add_assoc]
      exact (Listing.Decodes.jumpTo rfl offset _).append (ih _)
  | ifElse condition thenPlan elsePlan ihThen ihElse =>
      cases style with
      | single =>
          simp only [code, size, entries, List.map_cons, List.map_append, ← Nat.add_assoc,
            List.append_assoc]
          exact (Listing.Decodes.jumpTo rfl offset _).append ((ihThen _).append (ihElse _))
      | structured =>
          have ends : offset + (4 + thenPlan.size .structured + elsePlan.size .structured)
              = offset + 2 + thenPlan.size .structured + 2 + elsePlan.size .structured := by
            omega
          simp only [code, size, entries, List.map_cons, List.map_append, List.append_assoc, ends]
          exact (Listing.Decodes.jumpTo rfl offset _).append
            ((ihThen _).append ((Listing.Decodes.jumpTo rfl _ _).append (ihElse _)))
  | whileDo condition body ih =>
      cases style with
      | single =>
          simp only [code, size, entries, List.map_cons, ← Nat.add_assoc]
          exact (Listing.Decodes.jumpTo rfl offset _).append (ih _)
      | structured =>
          have ends : offset + (4 + body.size .structured)
              = offset + 2 + body.size .structured + 2 := by
            omega
          simp only [code, size, entries, List.map_cons, List.map_append, List.append_assoc, ends]
          exact (Listing.Decodes.jumpTo rfl offset _).append
            ((ih _).append (Listing.Decodes.jumpTo rfl _ _))

/-- The code of a plan and a halt behind it are cut into the instructions and the halt. -/
theorem Plan.decode_halted (style : JumpStyle) (plan : Plan)
    : Listing.decode 0 (plan.code style 0 ++ [Opcode.halt.code])
      = .ok ((plan.entries style 0).map Entry.line ++ [⟨plan.size style, .halt, none⟩]) := by
  have decodes := (plan.decodes_code style 0).append (.plain .halt rfl (0 + plan.size style))
  rw [Nat.zero_add] at decodes
  exact decodes.decode_eq

-----------------------------------------------------------------------------------------
-- Stretches of instructions
-----------------------------------------------------------------------------------------

namespace Plan

/-- A place where the code can go on: the end of a stretch, or the start of an instruction. -/
def Landing (entries : List Entry) (behind place : Nat) : Prop :=
  place = behind ∨ ∃ goal ∈ entries, goal.offset = place

/-- What holds of each instruction of a stretch. An unconditional jump that does not lead on
closes a loop: it leads to the test whose own target is right behind it.
-/
structure Entry.Fits (style : JumpStyle) (start behind : Nat) (entries : List Entry)
    (entry : Entry)
    : Prop where
  inside : start ≤ entry.offset ∧ entry.offset < behind
  running : entry.op ≠ .halt
  lands
    : ∀ target,
        entry.target = some target
        → start ≤ target ∧ target ≤ behind ∧ Landing entries behind target
  tests
    : ∀ condition,
        entry.op = .jumpUnless condition
        → ∃ target, entry.target = some target ∧ entry.offset + 1 < target
  jumps
    : entry.op = .jump
      → style = .structured
        ∧ ∃ target,
            entry.target = some target
            ∧ (entry.offset + 1 < target
              ∨ ∃ test ∈ entries,
                  test.offset = target
                  ∧ (∃ condition, test.op = .jumpUnless condition)
                  ∧ test.target = some (entry.offset + 2))

/-- The spans of two instructions, from each to its target, are nested or disjoint. -/
def Entry.Nested (left right : Entry) : Prop :=
  ∀ leftTarget rightTarget,
    left.target = some leftTarget
    → right.target = some rightTarget
    → (left.offset ≤ right.offset ∧ rightTarget ≤ leftTarget)
      ∨ (right.offset ≤ left.offset ∧ leftTarget ≤ rightTarget)
      ∨ leftTarget ≤ right.offset
      ∨ rightTarget ≤ left.offset

/-- Instructions that take the code from one offset to another. -/
structure Stretch (style : JumpStyle) (start behind : Nat) (entries : List Entry) : Prop where
  ordered : start ≤ behind
  begins : Landing entries behind start
  fits : ∀ entry ∈ entries, entry.Fits style start behind entries
  nested : style = .single → ∀ left ∈ entries, ∀ right ∈ entries, left.Nested right

/-- An instruction fits into a larger stretch where the end of its own is a place to go on. -/
theorem Entry.Fits.mono {style : JumpStyle} {start start' behind behind' : Nat}
    {entries entries' : List Entry} {entry : Entry} (h : entry.Fits style start behind entries)
    (earlier : start' ≤ start) (later : behind ≤ behind') (more : entries ⊆ entries')
    (landing : Landing entries' behind' behind)
    : entry.Fits style start' behind' entries' where
  inside := ⟨Nat.le_trans earlier h.inside.1, Nat.lt_of_lt_of_le h.inside.2 later⟩
  running := h.running
  lands := by
    intro target aimed
    obtain ⟨low, high, place⟩ := h.lands target aimed
    refine ⟨Nat.le_trans earlier low, Nat.le_trans high later, ?_⟩
    rcases place with atEnd | ⟨goal, member, same⟩
    · exact atEnd ▸ landing
    · exact .inr ⟨goal, more member, same⟩
  tests := h.tests
  jumps := by
    intro jump
    obtain ⟨structured, target, aimed, forward | ⟨test, member, loop⟩⟩ := h.jumps jump
    · exact ⟨structured, target, aimed, .inl forward⟩
    · exact ⟨structured, target, aimed, .inr ⟨test, more member, loop⟩⟩

/-- A conditional jump forward to a place to go on fits. -/
theorem Entry.Fits.test {style : JumpStyle} {start target behind : Nat} {entries : List Entry}
    (condition : Condition) (forward : start + 1 < target) (within : target ≤ behind)
    (landing : Landing entries behind target)
    : Entry.Fits style start behind entries ⟨start, .jumpUnless condition, some target⟩ where
  inside := by simp; omega
  running := nofun
  lands := by
    rintro _ ⟨⟩
    exact ⟨by omega, within, landing⟩
  tests := fun _ _ => ⟨target, rfl, forward⟩
  jumps := nofun

/-- An unconditional jump to a place to go on fits when it leads on or closes a loop. -/
theorem Entry.Fits.jump {start place target behind : Nat} {entries : List Entry}
    (low : start ≤ place) (high : place < behind) (above : start ≤ target)
    (below : target ≤ behind) (landing : Landing entries behind target)
    (leads
      : place + 1 < target
        ∨ ∃ test ∈ entries,
            test.offset = target
            ∧ (∃ condition, test.op = .jumpUnless condition)
            ∧ test.target = some (place + 2))
    : Entry.Fits .structured start behind entries ⟨place, .jump, some target⟩ where
  inside := ⟨low, high⟩
  running := nofun
  lands := by
    rintro _ ⟨⟩
    exact ⟨above, below, landing⟩
  tests := nofun
  jumps := fun _ => ⟨rfl, target, rfl, leads⟩

namespace Stretch

variable {style : JumpStyle} {start middle behind : Nat} {entries entries' : List Entry}

theorem nil : Stretch style start start [] where
  ordered := Nat.le_refl _
  begins := .inl rfl
  fits := nofun
  nested := nofun

theorem act (p : Primitive) : Stretch style start (start + 1) [⟨start, .act p, none⟩] where
  ordered := Nat.le_succ _
  begins := .inr ⟨_, List.mem_singleton_self _, rfl⟩
  fits := by
    intro entry member
    obtain rfl := List.mem_singleton.mp member
    exact ⟨⟨Nat.le_refl _, Nat.lt_succ_self _⟩, nofun, nofun, nofun, nofun⟩
  nested := by
    intro _ left member
    obtain rfl := List.mem_singleton.mp member
    exact fun _ _ _ _ => nofun

/-- Where the second of two stretches begins the code can go on. -/
theorem landing_append (h : Stretch style middle behind entries')
    : Landing (entries ++ entries') behind middle := by
  rcases h.begins with atEnd | ⟨goal, member, same⟩
  · exact .inl atEnd
  · exact .inr ⟨goal, List.mem_append_right _ member, same⟩

/-- A stretch behind another one. -/
theorem append (h : Stretch style start middle entries) (h' : Stretch style middle behind entries')
    : Stretch style start behind (entries ++ entries') where
  ordered := Nat.le_trans h.ordered h'.ordered
  begins := by
    rcases h.begins with atEnd | ⟨goal, member, same⟩
    · exact atEnd ▸ h'.landing_append
    · exact .inr ⟨goal, List.mem_append_left _ member, same⟩
  fits := by
    intro entry member
    rcases List.mem_append.mp member with first | second
    · exact (h.fits entry first).mono (Nat.le_refl _) h'.ordered (List.subset_append_left _ _)
        h'.landing_append
    · exact (h'.fits entry second).mono h.ordered (Nat.le_refl _) (List.subset_append_right _ _)
        (.inl rfl)
  nested := by
    intro single left memberLeft right memberRight
    rcases List.mem_append.mp memberLeft with first | second
    · rcases List.mem_append.mp memberRight with first' | second'
      · exact h.nested single left first right first'
      · intro _ _ aimed _
        exact .inr (.inr (.inl
          (Nat.le_trans ((h.fits left first).lands _ aimed).2.1 (h'.fits right second').inside.1)))
    · rcases List.mem_append.mp memberRight with first' | second'
      · intro _ _ _ aimed
        exact .inr (.inr (.inr
          (Nat.le_trans ((h.fits right first').lands _ aimed).2.1 (h'.fits left second).inside.1)))
      · exact h'.nested single left second right second'

/-- A stretch behind a test that leads to its end: the span of the test encloses all others. -/
theorem guarded (condition : Condition) (h : Stretch style (start + 2) behind entries)
    : Stretch style start behind
        (⟨start, .jumpUnless condition, some behind⟩ :: entries) := by
  have ordered := h.ordered
  have fits : ∀ entry ∈ ⟨start, .jumpUnless condition, some behind⟩ :: entries,
      entry.Fits style start behind (⟨start, .jumpUnless condition, some behind⟩ :: entries) := by
    intro entry member
    rcases List.mem_cons.mp member with rfl | inner
    · exact .test condition (by omega) (Nat.le_refl _) (.inl rfl)
    · exact (h.fits entry inner).mono (by omega) (Nat.le_refl _) (List.subset_cons_self _ _)
        (.inl rfl)
  refine ⟨by omega, .inr ⟨_, List.mem_cons_self, rfl⟩, fits, ?_⟩
  intro single left memberLeft right memberRight leftTarget rightTarget aimedLeft aimedRight
  have insideLeft := fits left memberLeft
  have insideRight := fits right memberRight
  rcases List.mem_cons.mp memberLeft with rfl | innerLeft
  · cases aimedLeft
    exact .inl ⟨insideRight.inside.1, (insideRight.lands _ aimedRight).2.1⟩
  · rcases List.mem_cons.mp memberRight with rfl | innerRight
    · cases aimedRight
      exact .inr (.inl ⟨insideLeft.inside.1, (insideLeft.lands _ aimedLeft).2.1⟩)
    · exact h.nested single left innerLeft right innerRight _ _ aimedLeft aimedRight

/-- Two stretches behind a test that leads to the second; a jump over the second parts them. -/
theorem choice (condition : Condition) (h : Stretch .structured (start + 2) middle entries)
    (h' : Stretch .structured (middle + 2) behind entries')
    : Stretch .structured start behind
        (⟨start, .jumpUnless condition, some (middle + 2)⟩
          :: (entries ++ ⟨middle, .jump, some behind⟩ :: entries')) := by
  have ordered := h.ordered
  have ordered' := h'.ordered
  refine ⟨by omega, .inr ⟨_, List.mem_cons_self, rfl⟩, ?_, nofun⟩
  intro entry member
  rcases List.mem_cons.mp member with rfl | inner
  · apply Entry.Fits.test condition (by omega) ordered'
    rcases h'.begins with atEnd | ⟨goal, listed, same⟩
    · exact .inl atEnd
    · exact .inr ⟨goal, by simp [listed], same⟩
  · rcases List.mem_append.mp inner with first | second
    · apply (h.fits entry first).mono (by omega) (by omega)
      · intro other listed
        simp [listed]
      · exact .inr ⟨⟨middle, .jump, some behind⟩, by simp, rfl⟩
    · rcases List.mem_cons.mp second with rfl | last
      · exact .jump (by omega) (by omega) (by omega) (Nat.le_refl _) (.inl rfl)
          (.inl (by omega))
      · apply (h'.fits entry last).mono (by omega) (Nat.le_refl _)
        · intro other listed
          simp [listed]
        · exact .inl rfl

/-- A stretch behind a test that leads out of the loop which a jump back closes. -/
theorem loop (condition : Condition) (h : Stretch .structured (start + 2) middle entries)
    : Stretch .structured start (middle + 2)
        (⟨start, .jumpUnless condition, some (middle + 2)⟩
          :: (entries ++ [⟨middle, .jump, some start⟩])) := by
  have ordered := h.ordered
  refine ⟨by omega, .inr ⟨_, List.mem_cons_self, rfl⟩, ?_, nofun⟩
  intro entry member
  rcases List.mem_cons.mp member with rfl | inner
  · exact .test condition (by omega) (Nat.le_refl _) (.inl rfl)
  · rcases List.mem_append.mp inner with first | second
    · apply (h.fits entry first).mono (by omega) (by omega)
      · intro other listed
        simp [listed]
      · exact .inr ⟨⟨middle, .jump, some start⟩, by simp, rfl⟩
    · obtain rfl := List.mem_singleton.mp second
      exact .jump (by omega) (by omega) (Nat.le_refl _) (by omega)
        (.inr ⟨_, List.mem_cons_self, rfl⟩)
        (.inr ⟨_, List.mem_cons_self, rfl, ⟨condition, rfl⟩, rfl⟩)

end Stretch

/-- The instructions of a plan are a stretch as long as its code, by the constructs of the
plan.
-/
theorem entries_stretch (style : JumpStyle) (offset : Nat) (plan : Plan)
    : Stretch style offset (offset + plan.size style) (plan.entries style offset) := by
  induction plan generalizing offset with
  | done => exact .nil
  | act p => exact .act p
  | seq first second ihFirst ihSecond =>
      simp only [size, entries, ← Nat.add_assoc]
      exact (ihFirst offset).append (ihSecond _)
  | ifThen condition body ih =>
      simp only [size, entries, ← Nat.add_assoc]
      exact (ih _).guarded condition
  | ifElse condition thenPlan elsePlan ihThen ihElse =>
      cases style with
      | single =>
          simp only [size, entries, ← Nat.add_assoc]
          exact ((ihThen _).append (ihElse _)).guarded condition
      | structured =>
          have ends : offset + (4 + thenPlan.size .structured + elsePlan.size .structured)
              = offset + 2 + thenPlan.size .structured + 2 + elsePlan.size .structured := by
            omega
          simp only [size, entries, ends]
          exact (ihThen _).choice condition (ihElse _)
  | whileDo condition body ih =>
      cases style with
      | single =>
          simp only [size, entries, ← Nat.add_assoc]
          exact (ih _).guarded condition
      | structured =>
          have ends : offset + (4 + body.size .structured)
              = offset + 2 + body.size .structured + 2 := by
            omega
          simp only [size, entries, ends]
          exact (ih _).loop condition

end Plan

-----------------------------------------------------------------------------------------
-- Whole programs
-----------------------------------------------------------------------------------------

namespace Listing

/-- The offsets from a jump up to its target. -/
def Line.Spans (line : Line) (offset : Nat) : Prop :=
  ∃ target, line.target = some target ∧ line.offset ≤ offset ∧ offset < target.toNat

theorem Line.spans_iff {line : Line} {target : UInt32} (aimed : line.target = some target)
    (offset : Nat)
    : line.Spans offset ↔ line.offset ≤ offset ∧ offset < target.toNat := by
  simp [Spans, aimed]

theorem Line.not_spans {line : Line} (plain : line.target = none) (offset : Nat)
    : ¬ line.Spans offset := by
  simp [Spans, plain]

/-- What holds of the lines of generated code. It ends at its only halt, every target is the
start of a line, and every test leads on, over its own target at least. With single jumps
there are only tests, whose spans are nested or disjoint; with structured jumps every
unconditional jump leads on or back to the test whose own target is right behind that jump.
-/
structure WellFormed (style : JumpStyle) (lines : List Line) : Prop where
  ends
    : ∃ before last,
        lines = before ++ [last] ∧ last.op = .halt ∧ ∀ line ∈ before, line.op ≠ .halt
  lands
    : ∀ line ∈ lines, ∀ target,
        line.target = some target → ∃ goal ∈ lines, goal.offset = target.toNat
  tests
    : ∀ line ∈ lines, ∀ condition,
        line.op = .jumpUnless condition
        → ∃ target, line.target = some target ∧ line.offset + 1 < target.toNat
  single
    : style = .single
      → (∀ line ∈ lines, line.op ≠ .jump)
        ∧ ∀ left ∈ lines, ∀ right ∈ lines,
            (∀ offset, left.Spans offset → right.Spans offset)
            ∨ (∀ offset, right.Spans offset → left.Spans offset)
            ∨ ∀ offset, left.Spans offset → ¬ right.Spans offset
  structured
    : style = .structured
      → ∀ line ∈ lines,
          line.op = .jump
          → ∃ target,
              line.target = some target
              ∧ (line.offset + 1 < target.toNat
                ∨ ∃ test ∈ lines, ∃ back,
                    test.offset = target.toNat
                    ∧ (∃ condition, test.op = .jumpUnless condition)
                    ∧ test.target = some back
                    ∧ back.toNat = line.offset + 2)

end Listing

namespace Plan.Stretch

variable {style : JumpStyle} {start behind : Nat} {entries : List Entry}

/-- The lines of a stretch, with a halt behind it. -/
def lines (entries : List Entry) (behind : Nat) : List Listing.Line :=
  entries.map Entry.line ++ [⟨behind, .halt, none⟩]

theorem mem_lines {entry : Entry} (member : entry ∈ entries) : entry.line ∈ lines entries behind :=
  List.mem_append_left _ (List.mem_map_of_mem member)

/-- A line is that of an instruction, or the halt. -/
theorem cases_lines {line : Listing.Line} (member : line ∈ lines entries behind)
    : (∃ entry ∈ entries, entry.line = line) ∨ line = ⟨behind, .halt, none⟩ := by
  rcases List.mem_append.mp member with inner | last
  · exact .inl (List.mem_map.mp inner)
  · exact .inr (List.mem_singleton.mp last)

/-- In a stretch that ends below 2^32 targets are words. -/
theorem line_target (h : Stretch style start behind entries) (small : behind < UInt32.size)
    {entry : Entry} (member : entry ∈ entries) {target : Nat} (aimed : entry.target = some target)
    : ∃ word, entry.line.target = some word ∧ word.toNat = target := by
  refine ⟨target.toUInt32, by simp [Entry.line, aimed], UInt32.toNat_ofNat_of_lt' ?_⟩
  exact Nat.lt_of_le_of_lt ((h.fits entry member).lands target aimed).2.1 small

/-- A line with a target is that of an instruction with the same target. -/
theorem exists_entry (h : Stretch style start behind entries) (small : behind < UInt32.size)
    {line : Listing.Line} (member : line ∈ lines entries behind) {word : UInt32}
    (aimed : line.target = some word)
    : ∃ entry ∈ entries, entry.line = line ∧ entry.target = some word.toNat := by
  rcases cases_lines member with ⟨entry, listed, rfl⟩ | rfl
  · obtain ⟨target, exact, _⟩ := Option.map_eq_some_iff.mp aimed
    obtain ⟨other, aimed', same⟩ := h.line_target small listed exact
    cases aimed.symm.trans aimed'
    exact ⟨entry, listed, rfl, same ▸ exact⟩
  · cases aimed

/-- Nested instructions have nested lines. -/
theorem spans_nested (h : Stretch .single start behind entries) (small : behind < UInt32.size)
    {left right : Listing.Line} (memberLeft : left ∈ lines entries behind)
    (memberRight : right ∈ lines entries behind)
    : (∀ offset, left.Spans offset → right.Spans offset)
      ∨ (∀ offset, right.Spans offset → left.Spans offset)
      ∨ ∀ offset, left.Spans offset → ¬ right.Spans offset := by
  cases aimedLeft : left.target with
  | none => exact .inl fun offset spans => (Listing.Line.not_spans aimedLeft offset spans).elim
  | some leftWord =>
      cases aimedRight : right.target with
      | none =>
          exact .inr (.inl fun offset spans =>
            (Listing.Line.not_spans aimedRight offset spans).elim)
      | some rightWord =>
          obtain ⟨first, listed, rfl, exactLeft⟩ := h.exists_entry small memberLeft aimedLeft
          obtain ⟨second, listed', rfl, exactRight⟩ := h.exists_entry small memberRight aimedRight
          have nested := h.nested rfl first listed second listed' _ _ exactLeft exactRight
          simp only [Listing.Line.spans_iff aimedLeft, Listing.Line.spans_iff aimedRight,
            Entry.offset_line]
          rcases nested with within | within | before | before
          · exact .inr (.inl fun offset spans => by omega)
          · exact .inl fun offset spans => by omega
          · exact .inr (.inr fun offset spans => by omega)
          · exact .inr (.inr fun offset spans => by omega)

/-- The lines of a stretch that ends below 2^32, with a halt behind it, are well formed. -/
theorem wellFormed (h : Stretch style start behind entries) (small : behind < UInt32.size)
    : Listing.WellFormed style (lines entries behind) where
  ends := by
    refine ⟨entries.map Entry.line, _, rfl, rfl, ?_⟩
    intro line member
    obtain ⟨entry, listed, rfl⟩ := List.mem_map.mp member
    exact (h.fits entry listed).running
  lands := by
    intro line member word aimed
    obtain ⟨entry, listed, rfl, exact⟩ := h.exists_entry small member aimed
    obtain ⟨_, _, atEnd | ⟨goal, listed', same⟩⟩ := (h.fits entry listed).lands _ exact
    · exact ⟨⟨behind, .halt, none⟩, List.mem_append_right _ (List.mem_singleton_self _), atEnd.symm⟩
    · exact ⟨goal.line, mem_lines listed', same⟩
  tests := by
    intro line member condition test
    rcases cases_lines member with ⟨entry, listed, rfl⟩ | rfl
    · obtain ⟨target, exact, forward⟩ := (h.fits entry listed).tests condition test
      obtain ⟨word, aimed, rfl⟩ := h.line_target small listed exact
      exact ⟨word, aimed, forward⟩
    · cases test
  single := by
    rintro rfl
    refine ⟨?_, fun left memberLeft right memberRight =>
      h.spans_nested small memberLeft memberRight⟩
    intro line member jump
    rcases cases_lines member with ⟨entry, listed, rfl⟩ | rfl
    · cases ((h.fits entry listed).jumps jump).1
    · cases jump
  structured := by
    rintro rfl line member jump
    rcases cases_lines member with ⟨entry, listed, rfl⟩ | rfl
    · obtain ⟨_, target, exact, leads⟩ := (h.fits entry listed).jumps jump
      obtain ⟨word, aimed, rfl⟩ := h.line_target small listed exact
      refine ⟨word, aimed, ?_⟩
      rcases leads with forward | ⟨test, listed', same, conditional, closes⟩
      · exact .inl forward
      · obtain ⟨back, aimedBack, sameBack⟩ := h.line_target small listed' closes
        exact .inr ⟨test.line, mem_lines listed', back, same, conditional, aimedBack, sameBack⟩
    · cases jump

end Plan.Stretch

/-- Generated code of at most 2^32 words has a listing, and that is well formed. -/
theorem Program.generated_code_is_wellFormed {style : JumpStyle} {program left : Program}
    {compiled : Compiled} (generated : program.generate style = (left, .generated compiled))
    (small : compiled.code.length ≤ UInt32.size)
    : ∃ lines,
        Listing.decode 0 compiled.code = .ok lines
        ∧ compiled.code.listing = .ok (lines.map Listing.Line.render)
        ∧ Listing.WellFormed style lines := by
  obtain ⟨plan, _, rfl⟩ := Program.plan_of_generated generated
  have fits : plan.size style < UInt32.size := by
    simp only [List.length_append, Plan.length_code, List.length_singleton] at small
    exact small
  have decodes := (plan.decodes_code style 0).append
    (.plain .halt rfl (0 + plan.size style))
  rw [Nat.zero_add] at decodes
  have stretch := plan.entries_stretch style 0
  rw [Nat.zero_add] at stretch
  refine ⟨_, decodes.decode_eq, ?_, stretch.wellFormed fits⟩
  simp [Code.listing, decodes.decode_eq, Except.map]

/-- Choices and loops inside one another, and a call. -/
def errands : Program :=
  {
    name := "Errands"
    context := .ofList [("step", .block [.ifThen .nextIsEmpty (.block [.call "move"])])]
    body :=
      .block
        [
          .whileDo .nextIsNotWall
            (.block [.ifElse .random (.block [.call "step"]) (.block [.call "turnleft"])]),
          .call "step"
        ]
  }

theorem Program.generated_code_is_wellFormed_errands
    : errands.generate .structured
        = (
          errands,
          .generated ⟨"Errands", [10, 12, 15, 9, 7, 7, 0, 6, 10, 1, 6, 0, 7, 15, 0, 5]⟩
        )
      ∧ ∃ lines,
          Listing.decode 0 [10, 12, 15, 9, 7, 7, 0, 6, 10, 1, 6, 0, 7, 15, 0, 5] = .ok lines
          ∧ Listing.WellFormed .structured lines := by
  have generated : errands.generate .structured
      = (
        errands,
        .generated ⟨"Errands", [10, 12, 15, 9, 7, 7, 0, 6, 10, 1, 6, 0, 7, 15, 0, 5]⟩
      ) := by
    decide
  obtain ⟨lines, decoded, _, wellFormed⟩ :=
    Program.generated_code_is_wellFormed generated (by decide)
  exact ⟨generated, lines, decoded, wellFormed⟩

end AgentLang
