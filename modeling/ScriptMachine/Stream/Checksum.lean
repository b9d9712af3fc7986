/-!
# Cyclic redundancy check of 32 bits

The reflected check with the polynomial `0xEDB88320`: the register starts with all bits set, every
byte enters at the low end and is shifted out bit by bit, and the final register is complemented.
-/

namespace ScriptMachine.Checksum

/-- The polynomial, lowest power first in the highest bit. -/
def polynomial : UInt32 := 0xEDB88320

/-- Shift one bit out of the register. -/
def shiftBit (register : UInt32) : UInt32 :=
  if register &&& 1 = 1 then (register >>> 1) ^^^ polynomial else register >>> 1

/-- Shift several bits out of the register. -/
def shiftBits : Nat → UInt32 → UInt32
  | 0, register => register
  | count + 1, register => shiftBits count (shiftBit register)

/-- Let one byte enter the register. -/
def feed (register : UInt32) (byte : UInt8) : UInt32 :=
  shiftBits 8 (register ^^^ byte.toUInt32)

/-- The check of some bytes. -/
def crc32 (bytes : List UInt8) : UInt32 :=
  bytes.foldl feed 0xFFFFFFFF ^^^ 0xFFFFFFFF

end ScriptMachine.Checksum
