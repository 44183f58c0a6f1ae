import AgentLang.Code

/-! Listings of code: one line for each instruction, with its offset and its target. -/

namespace AgentLang

inductive ListingError where
  | unknownOpcode (offset : Nat) (code : UInt32)
  | missingTarget (offset : Nat) (op : Opcode)
  deriving DecidableEq, Repr

def ListingError.message : ListingError → String
  | unknownOpcode offset code =>
      "offset " ++ toString offset ++ ": unknown opcode " ++ toString code.toNat
  | missingTarget offset op =>
      "offset " ++ toString offset ++ ": " ++ op.mnemonic ++ " is missing its jump target"

namespace Listing

/-- An instruction of the code at the offset where it starts. -/
structure Line where
  offset : Nat
  op : Opcode
  target : Option UInt32
  deriving DecidableEq, Repr

def Line.render (line : Line) : String :=
  let head := toString line.offset ++ ": " ++ line.op.mnemonic
  match line.target with
  | none => head
  | some target => head ++ " " ++ toString target.toNat

/-- Cuts code into instructions, the first of which stands at the given offset. -/
def decode (offset : Nat) : Code → Except ListingError (List Line)
  | [] => .ok []
  | word :: rest =>
      match Opcode.ofCode? word with
      | none => .error (.unknownOpcode offset word)
      | some op =>
          if op.takesTarget then
            match rest with
            | [] => .error (.missingTarget offset op)
            | target :: rest =>
                (decode (offset + 2) rest).map (⟨offset, op, some target⟩ :: ·)
          else
            (decode (offset + 1) rest).map (⟨offset, op, none⟩ :: ·)

end Listing

/-- The lines of the listing of code. -/
def Code.listing (code : Code) : Except ListingError (List String) :=
  (Listing.decode 0 code).map (·.map Listing.Line.render)

end AgentLang
