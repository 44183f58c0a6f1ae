import AgentLang.Code

/-! A C++ header with the table of opcodes and the code of one program. -/

namespace AgentLang.Header

/-- The stem of the header's symbols: hyphens of the name become underscores. -/
def symbol (name : String) : String :=
  String.ofList (name.toList.map fun c => if c = '-' then '_' else c)

def opcodeLine (op : Opcode) : String :=
  "    " ++ op.mnemonic ++ " = " ++ toString op.code.toNat ++ ",\n"

/-- How many entries of the initialiser stand on a line. -/
def entriesPerLine : Nat := 16

/-- An entry of the initialiser; those that start a line bring the line feed with them. -/
def entry (word : UInt32) (index : Nat) : String :=
  (if index % entriesPerLine = 0 then "\n   " else "") ++ " " ++ toString word.toNat ++ ","

def initialiser (code : Code) : String :=
  "\x7b" ++ String.join (code.zipIdx.map fun (word, index) => entry word index) ++ "\n\x7d;\n"

def render (compiled : Compiled) : String :=
  let stem := symbol compiled.name
  "#pragma once\n#include <cstdint>\n// Auto-generated – DO NOT EDIT\n\n"
    ++ "enum class BlOpcode : uint32_t \x7b\n"
    ++ String.join (Opcode.all.map opcodeLine)
    ++ "\x7d;\n\n"
    ++ "inline constexpr uint32_t " ++ stem ++ "_code_size = " ++ toString compiled.code.length
    ++ ";\n"
    ++ "inline constexpr uint32_t " ++ stem ++ "_code[] = " ++ initialiser compiled.code

end AgentLang.Header
