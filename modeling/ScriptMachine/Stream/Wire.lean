import ScriptMachine.Bytecode.Instruction
import ScriptMachine.Number.Binary64

/-!
# Byte forms

Every word is written with its low byte first.  A text is its length as a word of four bytes,
followed by its bytes.
-/

namespace ScriptMachine.Wire

/-- The given number of low bytes of a number, lowest first. -/
def littleEndian : Nat → Nat → List UInt8
  | 0, _ => []
  | width + 1, n => UInt8.ofNat n :: littleEndian width (n / 256)

/-- The number whose bytes are given, lowest first. -/
def valueOf : List UInt8 → Nat
  | [] => 0
  | byte :: rest => byte.toNat + 256 * valueOf rest

@[simp] theorem length_littleEndian (width n : Nat) : (littleEndian width n).length = width := by
  induction width generalizing n with
  | zero => rfl
  | succ width induction => simp [littleEndian, induction]

theorem littleEndian_valueOf (bytes : List UInt8) :
    littleEndian bytes.length (valueOf bytes) = bytes := by
  induction bytes with
  | nil => rfl
  | cons byte rest induction =>
    have small : byte.toNat < 256 := byte.toNat_lt
    have quotient : (byte.toNat + 256 * valueOf rest) / 256 = valueOf rest := by omega
    simp only [List.length_cons, littleEndian, valueOf, quotient, induction, List.cons.injEq,
      and_true]
    apply UInt8.toNat_inj.mp
    simp

/-- A byte. -/
def byte (value : UInt8) : List UInt8 := [value]

/-- An unsigned word of four bytes. -/
def word32 (value : UInt32) : List UInt8 := littleEndian 4 value.toNat

/-- A signed word of four bytes. -/
def int32 (value : Int32) : List UInt8 := word32 value.toUInt32

/-- A signed word of eight bytes. -/
def int64 (value : Int64) : List UInt8 := littleEndian 8 value.toUInt64.toNat

/-- The bits of a floating-point number in eight bytes. -/
def float64 (value : Binary64) : List UInt8 := littleEndian 8 value.bits.toNat

/-- The low four bytes of a count. -/
def count (value : Nat) : List UInt8 := littleEndian 4 value

/-- A text: its length in bytes, then its bytes. -/
def text (value : String) : List UInt8 :=
  count value.utf8ByteSize ++ value.toUTF8.toList

/-- An operation. -/
def opcode (op : Opcode) : List UInt8 := byte op.code

/-- An instruction: the operation, the byte operands, then the wide operand. -/
def instruction (value : Instruction) : List UInt8 :=
  opcode value.op ++ byte value.first ++ byte value.second ++ byte value.third ++
    int32 value.wide

/-- Bytes with the four from an offset on overwritten by a word. -/
def patch (bytes : List UInt8) (offset : Nat) (value : UInt32) : List UInt8 :=
  bytes.take offset ++ word32 value ++ bytes.drop (offset + 4)

end ScriptMachine.Wire
