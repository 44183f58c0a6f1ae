import AgentLang.Code.Listing

/-! Which code has a listing. Opcodes and targets stand in one sequence of words, so that it depends
on the words before whether a word is an opcode. Code is cut from its start; what cannot be cut
any further is blamed at the offset where it stands.
-/

namespace AgentLang

namespace Opcode

/-- The words of opcodes are those below 17. -/
theorem ofCode?_eq_none_iff {word : UInt32} : ofCode? word = none ↔ 17 ≤ word.toNat :=
  List.getElem?_eq_none_iff

theorem code_lt (op : Opcode) : op.code.toNat < 17 := by
  rw [← Nat.not_le, ← ofCode?_eq_none_iff, ofCode?_code]
  nofun

/-- The opcodes stand at the places of their codes. -/
theorem code_get_all (place : Fin all.length) : (all.get place).code.toNat = place := by
  revert place
  decide

/-- What is found for a word has that word as its code. -/
theorem code_of_ofCode? {word : UInt32} {op : Opcode} (found : ofCode? word = some op)
    : op.code = word := by
  obtain ⟨known, rfl⟩ := List.getElem?_eq_some_iff.mp found
  exact UInt32.toNat_inj.mp (code_get_all ⟨word.toNat, known⟩)

/-- The jumps are the opcodes from 6 on. -/
theorem takesTarget_iff (op : Opcode) : op.takesTarget = true ↔ 6 ≤ op.code.toNat := by
  have listed : ∀ op ∈ all, op.takesTarget = true ↔ 6 ≤ op.code.toNat := by decide
  exact listed op (mem_all op)

end Opcode

namespace Listing

-----------------------------------------------------------------------------------------
-- Pieces of code
-----------------------------------------------------------------------------------------

/-- A piece of code is cut into the given lines, whatever follows it. -/
def Decodes (offset behind : Nat) (code : Code) (lines : List Line) : Prop :=
  ∀ rest, decode offset (code ++ rest) = (decode behind rest).map (lines ++ ·)

namespace Decodes

theorem nil (offset : Nat) : Decodes offset offset [] [] := by
  intro rest
  cases found : decode offset rest <;> simp [found, Except.map]

theorem append {offset middle behind : Nat} {code code' : Code} {lines lines' : List Line}
    (h : Decodes offset middle code lines) (h' : Decodes middle behind code' lines')
    : Decodes offset behind (code ++ code') (lines ++ lines') := by
  intro rest
  rw [List.append_assoc, h, h']
  cases decode behind rest <;> simp [Except.map]

theorem plain (op : Opcode) (plain : op.takesTarget = false) (offset : Nat)
    : Decodes offset (offset + 1) [op.code] [⟨offset, op, none⟩] := by
  intro rest
  simp [decode, plain]

theorem aimed {op : Opcode} (takes : op.takesTarget = true) (offset : Nat) (target : UInt32)
    : Decodes offset (offset + 2) [op.code, target] [⟨offset, op, some target⟩] := by
  intro rest
  simp [decode, takes]

/-- A piece of code that nothing follows. -/
theorem decode_eq {offset behind : Nat} {code : Code} {lines : List Line}
    (h : Decodes offset behind code lines)
    : decode offset code = .ok lines := by
  have alone := h []
  simpa [decode, Except.map] using alone

end Decodes

/-- An instruction as it stands in code: a word below 17, and behind it one word more exactly when
it is a jump, which the words from 6 on are.
-/
structure Instruction where
  opcode : UInt32
  target : Option UInt32
  known : opcode.toNat < 17
  aimed : target.isSome ↔ 6 ≤ opcode.toNat

namespace Instruction

def words (instruction : Instruction) : Code := instruction.opcode :: instruction.target.toList

/-- The opcode of the word, by its place among all opcodes. -/
def op (instruction : Instruction) : Opcode :=
  Opcode.all.get ⟨instruction.opcode.toNat, instruction.known⟩

/-- The line of an instruction that starts at the given offset. -/
def line (offset : Nat) (instruction : Instruction) : Line :=
  ⟨offset, instruction.op, instruction.target⟩

/-- The code that instructions make one behind the other. -/
def code (instructions : List Instruction) : Code := instructions.flatMap words

/-- The lines of instructions one behind the other, the first of which starts at the offset. -/
def lines (offset : Nat) : List Instruction → List Line
  | [] => []
  | first :: rest => first.line offset :: lines (offset + first.words.length) rest

@[simp]
theorem code_op (instruction : Instruction) : instruction.op.code = instruction.opcode :=
  UInt32.toNat_inj.mp (Opcode.code_get_all ⟨instruction.opcode.toNat, instruction.known⟩)

/-- The instruction of an opcode that takes no target. -/
def plain (op : Opcode) (plain : op.takesTarget = false) : Instruction where
  opcode := op.code
  target := none
  known := op.code_lt
  aimed := by simp [← Opcode.takesTarget_iff, plain]

/-- The instruction of a jump with its target. -/
def jump (op : Opcode) (takes : op.takesTarget = true) (target : UInt32) : Instruction where
  opcode := op.code
  target := some target
  known := op.code_lt
  aimed := by simp [← Opcode.takesTarget_iff, takes]

/-- An instruction is cut off as its line. -/
theorem decodes (instruction : Instruction) (offset : Nat)
    : Decodes offset (offset + instruction.words.length) instruction.words
        [instruction.line offset] := by
  have takes := (Opcode.takesTarget_iff instruction.op).trans (by rw [code_op, ← instruction.aimed])
  unfold words line
  rw [← code_op]
  cases found : instruction.target with
  | none => exact .plain _ (by simpa [found] using takes) offset
  | some target => exact .aimed (by simpa [found] using takes) offset target

/-- Instructions one behind the other are cut into their lines. -/
theorem decodes_code (instructions : List Instruction) (offset : Nat)
    : Decodes offset (offset + (code instructions).length) (code instructions)
        (lines offset instructions) := by
  induction instructions generalizing offset with
  | nil => exact .nil offset
  | cons first rest ih =>
      have joined := (first.decodes offset).append (ih _)
      rw [Nat.add_assoc, ← List.length_append] at joined
      exact joined

end Instruction

-----------------------------------------------------------------------------------------
-- Whole code
-----------------------------------------------------------------------------------------

/-- Code is instructions one behind the other, up to its end, up to a word that is no opcode or up
to a jump that is the last word.
-/
inductive Parted : Code → Prop
  | whole (instructions : List Instruction) : Parted (Instruction.code instructions)
  | unknown (instructions : List Instruction) {word : UInt32} (rest : Code)
    (large : 17 ≤ word.toNat)
    : Parted (Instruction.code instructions ++ word :: rest)
  | short (instructions : List Instruction) {op : Opcode} (jump : 6 ≤ op.code.toNat)
    : Parted (Instruction.code instructions ++ [op.code])

theorem Parted.cons {code : Code} (h : Parted code) (first : Instruction)
    : Parted (first.words ++ code) := by
  cases h with
  | whole instructions => exact .whole (first :: instructions)
  | unknown instructions rest large =>
      rw [← List.append_assoc]
      exact .unknown (first :: instructions) rest large
  | short instructions jump =>
      rw [← List.append_assoc]
      exact .short (first :: instructions) jump

/-- All code is parted, by the way it is cut. -/
theorem parted (offset : Nat) (code : Code) : Parted code := by
  fun_induction decode offset code with
  | case1 => exact .whole []
  | case2 offset word rest unknown => exact .unknown [] rest (Opcode.ofCode?_eq_none_iff.mp unknown)
  | case3 offset word op found takes =>
      cases Opcode.code_of_ofCode? found
      exact .short [] (op.takesTarget_iff.mp takes)
  | case4 offset word op found takes target rest ih =>
      cases Opcode.code_of_ofCode? found
      exact ih.cons (.jump op takes target)
  | case5 offset word rest op found plain ih =>
      cases Opcode.code_of_ofCode? found
      exact ih.cons (.plain op (by simpa using plain))

theorem decode_unknown (instructions : List Instruction) {word : UInt32} (rest : Code)
    (large : 17 ≤ word.toNat)
    : decode 0 (Instruction.code instructions ++ word :: rest)
      = .error (.unknownOpcode (Instruction.code instructions).length word) := by
  rw [Instruction.decodes_code instructions 0, decode, Opcode.ofCode?_eq_none_iff.mpr large,
    Nat.zero_add]
  rfl

theorem decode_short (instructions : List Instruction) {op : Opcode} (jump : 6 ≤ op.code.toNat)
    : decode 0 (Instruction.code instructions ++ [op.code])
      = .error (.missingTarget (Instruction.code instructions).length op) := by
  rw [Instruction.decodes_code instructions 0, Nat.zero_add]
  simp [decode, op.takesTarget_iff.mpr jump, Except.map]

/-- Code is cut into lines exactly when it is instructions one behind the other. -/
theorem decode_eq_ok_iff {code : Code} {lines : List Line}
    : decode 0 code = .ok lines
      ↔ ∃ instructions,
          code = Instruction.code instructions ∧ lines = Instruction.lines 0 instructions := by
  constructor
  · intro decoded
    cases parted 0 code with
    | whole instructions =>
        have own := (Instruction.decodes_code instructions 0).decode_eq
        exact ⟨instructions, rfl, Except.ok.inj (decoded.symm.trans own)⟩
    | unknown instructions rest large => cases decoded.symm.trans (decode_unknown _ rest large)
    | short instructions jump => cases decoded.symm.trans (decode_short _ jump)
  · rintro ⟨instructions, rfl, rfl⟩
    exact (Instruction.decodes_code instructions 0).decode_eq

theorem decode_eq_unknownOpcode_iff {code : Code} {offset : Nat} {word : UInt32}
    : decode 0 code = .error (.unknownOpcode offset word)
      ↔ ∃ instructions rest,
          code = Instruction.code instructions ++ word :: rest
          ∧ offset = (Instruction.code instructions).length
          ∧ 17 ≤ word.toNat := by
  constructor
  · intro failed
    cases parted 0 code with
    | whole instructions =>
        cases failed.symm.trans (Instruction.decodes_code instructions 0).decode_eq
    | unknown instructions rest large =>
        cases failed.symm.trans (decode_unknown instructions rest large)
        exact ⟨instructions, rest, rfl, rfl, large⟩
    | short instructions jump => cases failed.symm.trans (decode_short instructions jump)
  · rintro ⟨instructions, rest, rfl, rfl, large⟩
    exact decode_unknown instructions rest large

theorem decode_eq_missingTarget_iff {code : Code} {offset : Nat} {op : Opcode}
    : decode 0 code = .error (.missingTarget offset op)
      ↔ ∃ instructions,
          code = Instruction.code instructions ++ [op.code]
          ∧ offset = (Instruction.code instructions).length
          ∧ 6 ≤ op.code.toNat := by
  constructor
  · intro failed
    cases parted 0 code with
    | whole instructions =>
        cases failed.symm.trans (Instruction.decodes_code instructions 0).decode_eq
    | unknown instructions rest large =>
        cases failed.symm.trans (decode_unknown instructions rest large)
    | short instructions jump =>
        cases failed.symm.trans (decode_short instructions jump)
        exact ⟨instructions, rfl, rfl, jump⟩
  · rintro ⟨instructions, rfl, rfl, jump⟩
    exact decode_short instructions jump

-----------------------------------------------------------------------------------------
-- Code behind other code
-----------------------------------------------------------------------------------------

/-- The line of the same instruction further behind. -/
def Line.moved (distance : Nat) (line : Line) : Line :=
  { line with offset := line.offset + distance }

end Listing

/-- The same fault further behind. -/
def ListingError.moved (distance : Nat) : ListingError → ListingError
  | unknownOpcode offset code => .unknownOpcode (offset + distance) code
  | missingTarget offset op => .missingTarget (offset + distance) op

namespace Listing

/-- What code is cut into further behind: the same lines, or the same fault. -/
def moved (distance : Nat) : Except ListingError (List Line) → Except ListingError (List Line)
  | .ok lines => .ok (lines.map (Line.moved distance))
  | .error fault => .error (fault.moved distance)

theorem moved_map_cons (distance : Nat) (line : Line) (outcome : Except ListingError (List Line))
    : moved distance (outcome.map (line :: ·))
      = (moved distance outcome).map (line.moved distance :: ·) := by
  cases outcome <;> rfl

/-- Where code starts shows in the offsets only, by the way it is cut. -/
theorem decode_moved (distance offset : Nat) (code : Code)
    : decode (offset + distance) code = moved distance (decode offset code) := by
  fun_induction decode offset code with
  | case1 => rfl
  | case2 offset word rest unknown => simp [decode, unknown, moved, ListingError.moved]
  | case3 offset word op found takes =>
      simp [decode, found, takes, moved, ListingError.moved]
  | case4 offset word op found takes target rest ih =>
      rw [moved_map_cons, ← ih, Nat.add_right_comm]
      simp [decode, found, takes, Line.moved]
  | case5 offset word rest op found plain ih =>
      rw [moved_map_cons, ← ih, Nat.add_right_comm]
      simp [decode, found, plain, Line.moved]

/-- Behind code that is cut whole, the rest is cut as it is alone. -/
theorem decode_append {code : Code} {lines : List Line} (decoded : decode 0 code = .ok lines)
    (rest : Code)
    : decode 0 (code ++ rest) = (moved code.length (decode 0 rest)).map (lines ++ ·) := by
  obtain ⟨instructions, rfl, rfl⟩ := decode_eq_ok_iff.mp decoded
  rw [Instruction.decodes_code instructions 0, decode_moved]

end Listing

namespace Code

theorem listing_eq_ok_iff {code : Code} {texts : List String}
    : code.listing = .ok texts
      ↔ ∃ lines, Listing.decode 0 code = .ok lines ∧ texts = lines.map Listing.Line.render := by
  unfold listing
  cases Listing.decode 0 code <;> simp [Except.map, eq_comm]

theorem listing_eq_error_iff {code : Code} {fault : ListingError}
    : code.listing = .error fault ↔ Listing.decode 0 code = .error fault := by
  unfold listing
  cases Listing.decode 0 code <;> simp [Except.map]

/-- Code has a listing exactly when it is instructions one behind the other, and the listing has a
line for each with its offset, its mnemonic and its target. Otherwise the first word that is no
opcode is blamed, or the jump that is the last word, behind the instructions in front of it. Code
behind code that has a listing has its own lines, or its own fault, further behind.
-/
theorem listing_follows_instructions (code : Code)
    : (∀ texts,
        code.listing = .ok texts
        ↔ ∃ instructions,
            code = Listing.Instruction.code instructions
            ∧ texts = (Listing.Instruction.lines 0 instructions).map Listing.Line.render)
      ∧ (∀ offset word,
          code.listing = .error (.unknownOpcode offset word)
          ↔ ∃ instructions rest,
              code = Listing.Instruction.code instructions ++ word :: rest
              ∧ offset = (Listing.Instruction.code instructions).length
              ∧ 17 ≤ word.toNat)
      ∧ (∀ offset op,
          code.listing = .error (.missingTarget offset op)
          ↔ ∃ instructions,
              code = Listing.Instruction.code instructions ++ [op.code]
              ∧ offset = (Listing.Instruction.code instructions).length
              ∧ 6 ≤ op.code.toNat)
      ∧ ∀ texts (rest : Code),
          code.listing = .ok texts
          → Code.listing (code ++ rest)
            = (Listing.moved code.length (Listing.decode 0 rest)).map fun later =>
                texts ++ later.map Listing.Line.render := by
  refine ⟨?_, ?_, ?_, ?_⟩
  · intro texts
    rw [listing_eq_ok_iff]
    constructor
    · rintro ⟨lines, decoded, rfl⟩
      obtain ⟨instructions, same, rfl⟩ := Listing.decode_eq_ok_iff.mp decoded
      exact ⟨instructions, same, rfl⟩
    · rintro ⟨instructions, same, rfl⟩
      exact ⟨_, Listing.decode_eq_ok_iff.mpr ⟨instructions, same, rfl⟩, rfl⟩
  · intro offset word
    rw [listing_eq_error_iff, Listing.decode_eq_unknownOpcode_iff]
  · intro offset op
    rw [listing_eq_error_iff, Listing.decode_eq_missingTarget_iff]
  · intro texts rest listed
    obtain ⟨lines, decoded, rfl⟩ := listing_eq_ok_iff.mp listed
    rw [listing, Listing.decode_append decoded]
    cases Listing.moved code.length (Listing.decode 0 rest) <;> simp [Except.map]

/-- A target that would be no opcode, and behind the code a jump without its target. -/
theorem listing_follows_instructions_truncated
    : Code.listing [16, 42, 1] = .ok ["0: JUMP_IF_NOT_TRUE 42", "2: TURNLEFT"]
      ∧ Code.listing ([16, 42, 1] ++ [5, 6]) = .error (.missingTarget 4 .jump) := by
  have listed : Code.listing [16, 42, 1] = .ok ["0: JUMP_IF_NOT_TRUE 42", "2: TURNLEFT"] := rfl
  exact ⟨listed, (listing_follows_instructions [16, 42, 1]).2.2.2 _ [5, 6] listed⟩

end Code

end AgentLang
