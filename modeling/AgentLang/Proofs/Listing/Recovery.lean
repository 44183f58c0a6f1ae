import AgentLang.Proofs.Listing.Decoding
import AgentLang.Proofs.Text.Decimals
import AgentLang.Proofs.Text.Lines

/-! Code recovered from its listing. The parts of a line stand between blanks, none of which is
inside a number or a mnemonic, so a line is cut at the blanks and its parts are read one by one.
-/

namespace AgentLang

namespace Opcode

def ofMnemonic? (name : String) : Option Opcode :=
  all.find? fun op => op.mnemonic == name

/-- An opcode is found under its own mnemonic, also where that begins others. -/
theorem ofMnemonic?_mnemonic (op : Opcode) : ofMnemonic? op.mnemonic = some op := by
  have listed : ∀ op ∈ all, ofMnemonic? op.mnemonic = some op := by decide
  exact listed op (mem_all op)

theorem blank_not_mem_mnemonic (op : Opcode) : ' ' ∉ op.mnemonic.toList := by
  have listed : ∀ op ∈ all, ' ' ∉ op.mnemonic.toList := by simp [all, mnemonic, Condition.tag]
  exact listed op (mem_all op)

end Opcode

namespace Listing

/-- The words that a line of a listing was made of. -/
def words? (line : String) : Option Code :=
  match Text.splitAt ' ' line.toList with
  | [_, name] => do
      let op ← Opcode.ofMnemonic? (String.ofList name)
      return [op.code]
  | [_, name, target] => do
      let op ← Opcode.ofMnemonic? (String.ofList name)
      return [op.code, ← Text.word? target]
  | _ => none

/-- The code that a listing was made of. -/
def code? (lines : List String) : Option Code :=
  (lines.mapM words?).map List.flatten

/-- A line is cut at its blanks into the offset with a colon, the mnemonic and the target. -/
theorem splitAt_render (line : Line)
    : Text.splitAt ' ' line.render.toList
      = (Nat.toDigits 10 line.offset ++ [':'])
        :: line.op.mnemonic.toList
        :: (line.target.map fun target => Nat.toDigits 10 target.toNat).toList := by
  have offset : ' ' ∉ Nat.toDigits 10 line.offset ++ [':'] := by
    simp [Text.not_mem_decimal]
  have mnemonic := line.op.blank_not_mem_mnemonic
  have written : line.render.toList
      = (Nat.toDigits 10 line.offset ++ [':'])
        ++ ' ' :: (line.op.mnemonic.toList
          ++ (line.target.map fun target => ' ' :: Nat.toDigits 10 target.toNat).getD []) := by
    unfold Line.render
    cases line.target <;> simp
  rw [written, Text.splitAt_append, Text.splitAt_of_not_mem offset]
  cases line.target with
  | none => simp [Text.splitAt_of_not_mem mnemonic]
  | some target =>
      have decimal : ' ' ∉ Nat.toDigits 10 target.toNat := Text.not_mem_decimal rfl target.toNat
      simp [Text.splitAt_append, Text.splitAt_of_not_mem mnemonic, Text.splitAt_of_not_mem decimal]

/-- The line of an instruction gives its words back, whatever the offset. -/
theorem words?_line (instruction : Instruction) (offset : Nat)
    : words? (instruction.line offset).render = some instruction.words := by
  rw [words?, splitAt_render, Instruction.words]
  simp only [Instruction.line]
  cases instruction.target with
  | none => simp [Opcode.ofMnemonic?_mnemonic]
  | some target => simp [Opcode.ofMnemonic?_mnemonic, Text.word?_decimal]

/-- So do the lines of instructions one behind the other. -/
theorem code?_lines (instructions : List Instruction) (offset : Nat)
    : code? ((Instruction.lines offset instructions).map Line.render)
      = some (Instruction.code instructions) := by
  induction instructions generalizing offset with
  | nil => rfl
  | cons first rest ih =>
      obtain ⟨pieces, read, joined⟩ := Option.map_eq_some_iff.mp (ih (offset + first.words.length))
      have split : Instruction.code (first :: rest) = first.words ++ pieces.flatten := by
        rw [joined]
        rfl
      simp [code?, Instruction.lines, words?_line, read, split]

theorem code?_of_listing {code : Code} {lines : List String} (listed : code.listing = .ok lines)
    : code? lines = some code := by
  obtain ⟨_, decoded, rfl⟩ := Code.listing_eq_ok_iff.mp listed
  obtain ⟨instructions, rfl, rfl⟩ := decode_eq_ok_iff.mp decoded
  exact code?_lines instructions 0

end Listing

/-- A listing determines the code: code can be recovered from the lines of its listing, so no two
codes have the same one.
-/
theorem Code.listing_determines_code {left right : Code} {lines : List String}
    (listed : left.listing = .ok lines) (listed' : right.listing = .ok lines)
    : left = right ∧ Listing.code? lines = some left := by
  have recovered := Listing.code?_of_listing listed
  have recovered' := Listing.code?_of_listing listed'
  exact ⟨Option.some.inj (recovered.symm.trans recovered'), recovered⟩

/-- Jumps whose mnemonics begin alike, and a target that reads like an opcode. -/
theorem Code.listing_determines_code_jumps
    : Code.listing [16, 6, 6, 16, 5]
        = .ok ["0: JUMP_IF_NOT_TRUE 6", "2: JUMP 16", "4: HALT"]
      ∧ Listing.code? ["0: JUMP_IF_NOT_TRUE 6", "2: JUMP 16", "4: HALT"]
        = some [16, 6, 6, 16, 5] := by
  have listed : Code.listing [16, 6, 6, 16, 5]
      = .ok ["0: JUMP_IF_NOT_TRUE 6", "2: JUMP 16", "4: HALT"] := rfl
  exact ⟨listed, (listing_determines_code listed listed).2⟩

end AgentLang
