import AgentLang.Opcode

/-! Code of the agent machine: opcodes, each jump followed by its target. -/

namespace AgentLang

abbrev Code := List UInt32

/-- Code together with the name of the program it was generated for. -/
structure Compiled where
  name : String
  code : Code
  deriving DecidableEq, Repr

end AgentLang
