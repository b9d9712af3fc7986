import Mathlib
import ScriptMachine.Stream.Format

/-!
# Reading back what was written

`Read.Takes` relates a read to the bytes it takes off the front of what is left and the value it
gives for them, whatever follows these bytes.  Reads in sequence take their bytes in sequence
(`Takes.bind`), so the law of a composite read is put together from the laws of its parts.
-/

namespace ScriptMachine

theorem Wire.valueOf_littleEndian (width n : Nat) :
    valueOf (littleEndian width n) = n % 256 ^ width := by
  induction width generalizing n with
  | zero => simp [littleEndian, valueOf, Nat.mod_one]
  | succ width induction =>
    have split := Nat.mod_mul (x := n) (a := 256) (b := 256 ^ width)
    rw [littleEndian, valueOf, induction, Nat.pow_succ, Nat.mul_comm (256 ^ width) 256, split]
    simp

namespace Reader

@[simp]
theorem rest_ofBytes (source : List UInt8) : (ofBytes source).rest = source := rfl

@[simp]
theorem rest_advance (reader : Reader) (width : Nat) :
    (reader.advance width).rest = reader.rest.drop width := rfl

@[simp]
theorem remaining_eq (reader : Reader) : reader.remaining = reader.rest.length := rfl

@[simp]
theorem advance_zero (reader : Reader) : reader.advance 0 = reader := by
  simp [advance]

@[simp]
theorem advance_advance (reader : Reader) (first second : Nat) :
    (reader.advance first).advance second = reader.advance (first + second) := by
  simp only [advance, List.drop_drop, mk.injEq, and_true, true_and]
  omega

theorem rest_behind {reader : Reader} {bytes after : List UInt8}
    (front : reader.rest = bytes ++ after) : (reader.advance bytes.length).rest = after := by
  rw [rest_advance, front, List.drop_left]

/-- The bytes read since a position are those that stood in front there. -/
theorem since_advance {reader : Reader} {bytes after : List UInt8}
    (front : reader.rest = bytes ++ after) :
    (reader.advance bytes.length).since reader.position = bytes := by
  have ahead : reader.source.drop reader.position = bytes ++ after := reader.rest_eq ▸ front
  rw [since, advance, Nat.min_eq_left (Nat.le_add_right ..), List.drop_take, ahead,
    Nat.add_sub_cancel_left, List.take_left]

end Reader

namespace Read

variable {ε α β : Type}

/-- The read takes these bytes off the front of what is left and gives this value for them. -/
def Takes (read : Read ε α) (bytes : List UInt8) (value : α) : Prop :=
  ∀ (reader : Reader) (after : List UInt8), reader.rest = bytes ++ after →
    read reader = .ok value (reader.advance bytes.length)

theorem takes_pure (value : α) : Takes (pure value : Read ε α) [] value := by
  intro reader after _
  simp [pure, EStateM.pure]

/-- What follows a read goes on behind the bytes it took. -/
theorem Takes.bind_apply {read : Read ε α} {next : α → Read ε β} {head after : List UInt8}
    {value : α} {reader : Reader} (taken : Takes read head value)
    (front : reader.rest = head ++ after) :
    (read >>= next) reader = next value (reader.advance head.length) := by
  change EStateM.bind read next reader = _
  rw [EStateM.bind, taken reader after front]

theorem get_bind_apply (next : Reader → Read ε β) (reader : Reader) :
    (get >>= next) reader = next reader reader := rfl

theorem Takes.bind {read : Read ε α} {next : α → Read ε β} {head tail : List UInt8} {value : α}
    {result : β} (first : Takes read head value) (second : Takes (next value) tail result) :
    Takes (read >>= next) (head ++ tail) result := by
  intro reader after front
  rw [List.append_assoc] at front
  rw [first.bind_apply front, second _ after (Reader.rest_behind front), Reader.advance_advance,
    List.length_append]

theorem Takes.of_eq {read : Read ε α} {bytes : List UInt8} {value result : α}
    (taken : Takes read bytes value) (same : value = result) : Takes read bytes result :=
  same ▸ taken

theorem Takes.map {read : Read ε α} {bytes : List UInt8} {value : α}
    (taken : Takes read bytes value) (f : α → β) :
    Takes (read >>= fun found => pure (f found)) bytes (f value) := by
  have last : Takes (pure (f value) : Read ε β) [] (f value) := takes_pure (f value)
  have both : Takes (read >>= fun found => pure (f found)) (bytes ++ []) (f value) :=
    taken.bind last
  rwa [List.append_nil] at both

/-- Asking for the position takes nothing, and what follows may depend on it. -/
theorem takes_position {next : Nat → Read DecodeError β} {bytes : List UInt8} {result : β}
    (second : ∀ offset, Takes (next offset) bytes result) :
    Takes (position >>= next) bytes result :=
  fun reader after front => second reader.position reader after front

/-! ## Words -/

theorem takes_bytes (content : List UInt8) : Takes (bytes content.length) content content := by
  intro reader after front
  simp [bytes, front]

theorem takes_number (content : List UInt8) :
    Takes (number content.length) content (Wire.valueOf content) :=
  (takes_bytes content).map Wire.valueOf

theorem takes_number_littleEndian (width n : Nat) :
    Takes (number width) (Wire.littleEndian width n) (n % 256 ^ width) := by
  have taken := takes_number (Wire.littleEndian width n)
  rwa [Wire.length_littleEndian, Wire.valueOf_littleEndian] at taken

theorem takes_byte (value : UInt8) : Takes byte (Wire.byte value) value := by
  have taken := (takes_number [value]).map UInt8.ofNat
  rwa [Wire.valueOf, Wire.valueOf, Nat.mul_zero, Nat.add_zero, UInt8.ofNat_toNat] at taken

theorem takes_word32 (value : UInt32) : Takes word32 (Wire.word32 value) value := by
  have taken := (takes_number_littleEndian 4 value.toNat).map UInt32.ofNat
  have small : value.toNat % 256 ^ 4 = value.toNat := Nat.mod_eq_of_lt value.toNat_lt
  rwa [small, UInt32.ofNat_toNat] at taken

theorem takes_int32 (value : Int32) : Takes int32 (Wire.int32 value) value :=
  (takes_word32 value.toUInt32).map UInt32.toInt32

theorem takes_number_word64 (value : UInt64) :
    Takes (number 8) (Wire.littleEndian 8 value.toNat) value.toNat := by
  have taken := takes_number_littleEndian 8 value.toNat
  rwa [Nat.mod_eq_of_lt (show value.toNat < 256 ^ 8 from value.toNat_lt)] at taken

theorem takes_int64 (value : Int64) : Takes int64 (Wire.int64 value) value := by
  have taken := (takes_number_word64 value.toUInt64).map fun n => (UInt64.ofNat n).toInt64
  rwa [UInt64.ofNat_toNat] at taken

theorem takes_float64 (value : Binary64) : Takes float64 (Wire.float64 value) value := by
  have taken := (takes_number_word64 value.bits).map fun n => Binary64.mk (UInt64.ofNat n)
  rwa [UInt64.ofNat_toNat] at taken

/-- A count reads back when it fits its four bytes. -/
theorem takes_count {n : Nat} (fits : n < 2 ^ 32) : Takes (number 4) (Wire.count n) n := by
  have taken := takes_number_littleEndian 4 n
  rwa [Nat.mod_eq_of_lt (Nat.lt_of_lt_of_eq fits (by decide))] at taken

/-! ## Texts, operations, instructions -/

theorem toList_loop (content : ByteArray) (index : Nat) (found : List UInt8) :
    ByteArray.toList.loop content index found =
      found.reverse ++ content.data.toList.drop index := by
  fun_induction ByteArray.toList.loop content index found with
  | case1 index found inside ih =>
      have bound : index < content.data.toList.length := by simpa using inside
      rw [ih, List.drop_eq_getElem_cons bound]
      simp [ByteArray.get!, inside]
  | case2 index found outside =>
      rw [List.drop_eq_nil_of_le (by simpa using Nat.le_of_not_lt outside), List.append_nil]

theorem toList_toUTF8 (value : String) : value.toUTF8.toList = value.toByteArray.data.toList := by
  simp [ByteArray.toList, toList_loop, String.toUTF8]

/-- The bytes of a text are well-formed, and they are the bytes of no other text. -/
theorem fromUTF8?_toUTF8 (value : String) :
    String.fromUTF8? ⟨value.toUTF8.toList.toArray⟩ = some value := by
  rw [toList_toUTF8, Array.toArray_toList]
  simp [String.fromUTF8?, String.fromUTF8, value.isValidUTF8]

theorem takes_text {value : String} (fits : value.utf8ByteSize < 2 ^ 32) :
    Takes text (Wire.text value) value := by
  have length : value.toUTF8.toList.length = value.utf8ByteSize := by
    rw [toList_toUTF8]
    rfl
  have content := takes_bytes value.toUTF8.toList
  rw [length] at content
  refine (takes_count fits).bind (takes_position fun start => ?_)
  rw [← List.append_nil value.toUTF8.toList]
  refine content.bind ?_
  rw [fromUTF8?_toUTF8]
  exact takes_pure value

theorem ofCode?_code (op : Opcode) : Opcode.ofCode? op.code = some op := by
  cases op <;> rfl

theorem takes_opcode (op : Opcode) : Takes opcode (Wire.opcode op) op := by
  rw [← List.append_nil (Wire.opcode op)]
  refine (takes_byte op.code).bind ?_
  rw [ofCode?_code]
  exact takes_pure op

theorem takes_instruction (value : Instruction) :
    Takes instruction (Wire.instruction value) value := by
  simp only [Wire.instruction, List.append_assoc]
  refine (takes_opcode value.op).bind ?_
  refine (takes_byte value.first).bind ?_
  refine (takes_byte value.second).bind ?_
  refine (takes_byte value.third).bind ?_
  exact (takes_int32 value.wide).map _

/-! ## Sequences -/

/-- Items written one after the other read back one after the other; what is read may be an image
of what was written. -/
theorem takes_items {item : Read ε β} {write : α → List UInt8} {image : α → β} {list : List α}
    (each : ∀ element ∈ list, Takes item (write element) (image element)) :
    Takes (items item list.length) (list.flatMap write) (list.map image) := by
  induction list with
  | nil => exact takes_pure []
  | cons first rest ih =>
      have head := each first (List.mem_cons_self ..)
      have tail := ih fun element member => each element (List.mem_cons_of_mem _ member)
      exact head.bind (tail.map _)

end Read

end ScriptMachine
