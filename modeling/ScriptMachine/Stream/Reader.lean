import ScriptMachine.Stream.Wire

/-!
# Reading bytes

A reader walks over bytes from front to back.  A read of fixed size that does not fit fails and
stays where it is; a composite read fails at the part that fails, behind the parts before it.
-/

namespace ScriptMachine

/-- Why bytes could not be read, with the offset of the fault. -/
inductive DecodeError where
  /-- The bytes end too early. -/
  | unexpectedEnd (offset : Nat)
  /-- The bytes of a text are not well-formed. -/
  | invalidText (offset : Nat)
  /-- No operation has that code. -/
  | invalidOpcode (byte : UInt8) (offset : Nat)
deriving DecidableEq, Repr

/-- The text of the error. -/
def DecodeError.message : DecodeError → String
  | .unexpectedEnd offset => s!"Unexpected end of stream at offset {offset}"
  | .invalidText offset => s!"Invalid UTF-8 string at offset {offset}"
  | .invalidOpcode byte offset =>
    s!"Invalid opcode {Text.hexWord 2 byte.toNat} at offset {offset}"

/-- A position in some bytes. -/
structure Reader where
  /-- All the bytes. -/
  source : List UInt8
  /-- The number of bytes read. -/
  position : Nat
  /-- The bytes not read yet. -/
  rest : List UInt8
  /-- The rest is what follows the position. -/
  rest_eq : rest = source.drop position

namespace Reader

/-- A reader at the front of some bytes. -/
def ofBytes (source : List UInt8) : Reader := ⟨source, 0, source, by simp⟩

/-- The number of bytes not read yet. -/
def remaining (reader : Reader) : Nat := reader.rest.length

/-- The bytes read since a position. -/
def since (reader : Reader) (start : Nat) : List UInt8 :=
  (reader.source.take reader.position).drop (min start reader.position)

/-- The reader some bytes further on. -/
def advance (reader : Reader) (width : Nat) : Reader where
  source := reader.source
  position := reader.position + width
  rest := reader.rest.drop width
  rest_eq := by rw [reader.rest_eq, List.drop_drop]

end Reader

/-- Computations that read bytes; a failure keeps the position reached. -/
abbrev Read (ε : Type) := EStateM ε Reader

namespace Read

/-- The next bytes, so many of them. -/
def bytes (width : Nat) : Read DecodeError (List UInt8) := fun reader =>
  let chunk := reader.rest.take width
  if chunk.length = width then .ok chunk (reader.advance width)
  else .error (.unexpectedEnd reader.position) reader

/-- A number of so many bytes. -/
def number (width : Nat) : Read DecodeError Nat := return Wire.valueOf (← bytes width)

/-- A byte. -/
def byte : Read DecodeError UInt8 := return UInt8.ofNat (← number 1)

/-- An unsigned word of four bytes. -/
def word32 : Read DecodeError UInt32 := return UInt32.ofNat (← number 4)

/-- A signed word of four bytes. -/
def int32 : Read DecodeError Int32 := return (← word32).toInt32

/-- A signed word of eight bytes. -/
def int64 : Read DecodeError Int64 := return (UInt64.ofNat (← number 8)).toInt64

/-- A floating-point number of eight bytes. -/
def float64 : Read DecodeError Binary64 := return ⟨UInt64.ofNat (← number 8)⟩

/-- The current position. -/
def position : Read DecodeError Nat := return (← get).position

/-- A text: its length, then its bytes. -/
def text : Read DecodeError String := do
  let length ← number 4
  let start ← position
  let content ← bytes length
  match String.fromUTF8? ⟨content.toArray⟩ with
  | some value => return value
  | none => throw (.invalidText start)

/-- An operation. -/
def opcode : Read DecodeError Opcode := do
  let code ← byte
  match Opcode.ofCode? code with
  | some op => return op
  | none => throw (.invalidOpcode code ((← position) - 1))

/-- An instruction. -/
def instruction : Read DecodeError Instruction := do
  let op ← opcode
  let first ← byte
  let second ← byte
  let third ← byte
  let wide ← int32
  return ⟨op, first, wide, second, third⟩

/-- So many items, one after the other. -/
def items {ε α : Type} (item : Read ε α) : Nat → Read ε (List α)
  | 0 => return []
  | count + 1 => do
    let head ← item
    return head :: (← items item count)

end Read

end ScriptMachine
