import ScriptMachine.Bytecode.Opcode
import ScriptMachine.Text.Column

/-!
# Instructions

An instruction is an operation with one wide operand and three byte operands.  What an operand
means, a register, a literal, an offset or a variant, depends on the operation.
-/

namespace ScriptMachine

/-- One instruction. -/
structure Instruction where
  /-- The operation. -/
  op : Opcode
  /-- First byte operand, usually the target register. -/
  first : UInt8
  /-- Wide operand: a literal index, an integer, a jump offset or a register. -/
  wide : Int32
  /-- Second byte operand. -/
  second : UInt8
  /-- Third byte operand. -/
  third : UInt8
deriving DecidableEq, Repr, Inhabited

namespace Instruction

/-- The register number that stands for no target. -/
def noTarget : UInt8 := 0xFF

/-- The register that receives the result, if there is one. -/
def target? (instruction : Instruction) : Option UInt8 :=
  if instruction.first = noTarget then none else some instruction.first

/-- The register that a wide operand names: its low byte. -/
def lowByte (wide : Int32) : UInt8 := UInt8.ofNat (wide.toInt % 256).toNat

/-- The index a jump at `index` leads to, counted from the instruction after it; nothing for an
instruction that does not jump. -/
def jumpTarget? (instruction : Instruction) (index : Nat) : Option Int :=
  if instruction.op.isJump then some (index + 1 + instruction.wide.toInt) else none

/-- The instruction in a listing: the mnemonic and the four operands in columns. -/
def render (instruction : Instruction) : String :=
  Text.padRight 12 instruction.op.mnemonic ++ " " ++
    Text.padLeft 3 (toString instruction.first.toNat) ++ " " ++
    Text.padLeft 8 (toString instruction.wide.toInt) ++ " " ++
    Text.padLeft 3 (toString instruction.second.toNat) ++ " " ++
    Text.padLeft 3 (toString instruction.third.toNat)

end Instruction

end ScriptMachine
