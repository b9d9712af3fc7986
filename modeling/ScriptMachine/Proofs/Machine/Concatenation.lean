import ScriptMachine.Machine.Dispatch
import ScriptMachine.Proofs.Text.Lossy

/-!
# Concatenation

The sum of two strings is the text of both, one after the other, and the text of a string has a
replacement character in the place of every broken run.  So the bytes of the sum are the bytes of
both strings exactly when both are well-formed.  `sums_of_strings` says this of the operator and of
its instruction, and what follows for the length of the sum, for sums of sums and for the bytes at
its places.
-/

namespace ScriptMachine

namespace Text

/-- The bytes are those of a text. -/
def IsText (bytes : ByteArray) : Prop := ∃ text : String, text.toUTF8 = bytes

/-- The bytes of the sum of two strings. -/
def joined (x y : ByteArray) : ByteArray := (lossy x ++ lossy y).toUTF8

variable {x y z : ByteArray}

theorem toUTF8_lossy_iff : (lossy x).toUTF8 = x ↔ IsText x := by
  constructor
  · exact fun same => ⟨lossy x, same⟩
  · rintro ⟨text, rfl⟩
    rw [lossy_toUTF8]

theorem toUTF8_append (x y : String) : (x ++ y).toUTF8 = x.toUTF8 ++ y.toUTF8 := rfl

theorem joined_assoc : joined (joined x y) z = joined x (joined y z) := by
  rw [joined, joined, joined, joined, lossy_toUTF8, lossy_toUTF8, String.append_assoc]

theorem size_joined : (joined x y).size = (lossy x).toUTF8.size + (lossy y).toUTF8.size := by
  rw [joined, toUTF8_append, ByteArray.size_append]

theorem size_le_joined : x.size + y.size ≤ (joined x y).size := by
  rw [size_joined]
  exact Nat.add_le_add (size_le_lossy x) (size_le_lossy y)

/-- Bytes are kept only where both strings are well-formed: a broken run that is completed by the
other string would leave the sum longer than the strings. -/
theorem joined_eq_append_iff : joined x y = x ++ y ↔ IsText x ∧ IsText y := by
  constructor
  · intro same
    have size := congrArg ByteArray.size same
    rw [size_joined, ByteArray.size_append] at size
    have first := size_le_lossy x
    have second := size_le_lossy y
    rw [joined, toUTF8_append] at same
    have kept : (lossy x).toUTF8.size = x.size := by omega
    obtain ⟨front, back⟩ := (ByteArray.append_eq_append_iff_of_size_eq_left kept).mp same
    exact ⟨toUTF8_lossy_iff.mp front, toUTF8_lossy_iff.mp back⟩
  · rintro ⟨first, second⟩
    rw [joined, toUTF8_append, toUTF8_lossy_iff.mpr first, toUTF8_lossy_iff.mpr second]

/-- A character that is split between two strings is lost. -/
example : joined ⟨#[0xC3]⟩ ⟨#[0xA9]⟩ = ⟨#[0xEF, 0xBF, 0xBD, 0xEF, 0xBF, 0xBD]⟩ := by cbv

/-- The place in the second string of a byte behind the first one. -/
theorem toInt_sub_ofNat {index : Int64} (least : 0 ≤ index.toInt)
    (behind : x.size ≤ index.toInt.toNat) :
    (index - Int64.ofNat x.size).toInt = index.toInt - x.size := by
  have most := index.toInt_lt
  have size : (Int64.ofNat x.size).toInt = x.size := Int64.toInt_ofNat_of_lt (by omega)
  rw [Int64.toInt_sub, size]
  exact Int.bmod_eq_of_le (by omega) (by omega)

end Text

namespace Value

variable {x y : ByteArray} {index : Int64}

theorem byteAt_eq_ok (least : 0 ≤ index.toInt) {byte : UInt8}
    (found : x.data[index.toInt.toNat]? = some byte) :
    (Value.integer index).byteAt x = .ok (.integer (Int64.ofNat byte.toNat)) := by
  rw [byteAt, if_pos least, found]

theorem byteAt_append_left (least : 0 ≤ index.toInt) (inside : index.toInt.toNat < x.size) :
    (Value.integer index).byteAt (x ++ y) = (Value.integer index).byteAt x := by
  have found := Array.getElem?_eq_getElem inside
  rw [byteAt_eq_ok least found, byteAt_eq_ok least]
  rw [ByteArray.data_append, Array.getElem?_append_left inside, found]

theorem byteAt_append_right (least : 0 ≤ index.toInt) (behind : x.size ≤ index.toInt.toNat)
    (inside : index.toInt.toNat < x.size + y.size) :
    (Value.integer index).byteAt (x ++ y) =
      (Value.integer (index - Int64.ofNat x.size)).byteAt y := by
  have place := Text.toInt_sub_ofNat least behind
  have offset : (index - Int64.ofNat x.size).toInt.toNat = index.toInt.toNat - x.size := by omega
  have within : index.toInt.toNat - x.size < y.data.size :=
    Nat.sub_lt_left_of_lt_add behind inside
  obtain ⟨byte, found⟩ : ∃ byte, y.data[index.toInt.toNat - x.size]? = some byte :=
    ⟨_, Array.getElem?_eq_getElem within⟩
  have left : (x ++ y).data[index.toInt.toNat]? = some byte := by
    rw [ByteArray.data_append, Array.getElem?_append_right behind]
    exact found
  rw [← offset] at found
  rw [byteAt_eq_ok least left, byteAt_eq_ok (by omega) found]

end Value

namespace Exec

variable (engine : Engine) (x y : ByteArray)

/-- The sum of two strings runs nothing and changes nothing. -/
theorem arith_add_strings (machine : Machine) :
    arith engine .add (.string x) (.string y) machine = .ok (.string (Text.joined x y)) machine :=
  rfl

/-- The instruction leaves the sum of two strings in its target. -/
theorem perform_add_strings {machine : Machine} {first second third : UInt8} {wide : Int32}
    (left : register (Instruction.lowByte wide) machine = .ok (.string x) machine)
    (right : register second machine = .ok (.string y) machine) :
    perform .direct engine ⟨.add, first, wide, second, third⟩ machine =
      setRegister first (.string (Text.joined x y)) machine := by
  show arithInstruction .direct engine .add ⟨.add, first, wide, second, third⟩ machine = _
  rw [arithInstruction]
  show EStateM.bind (register (Instruction.lowByte wide)) _ machine = _
  rw [EStateM.bind, left]
  show EStateM.bind (register second) _ machine = _
  rw [EStateM.bind, right]
  rfl

end Exec

/-- The sum of two strings, by the operator and by its instruction, is a string of the same bytes,
whose bytes are those of both strings exactly when both are well-formed; it is never shorter than
both, and sums of sums do not depend on how they are put together.  Where both strings are
well-formed, the bytes at the places of the sum are those of the first string and then those of the
second. -/
theorem sums_of_strings (engine : Engine) (x y : ByteArray) :
    (∀ machine, Exec.arith engine .add (.string x) (.string y) machine =
      .ok (.string (Text.joined x y)) machine) ∧
    (∀ machine first wide second third,
      Exec.register (Instruction.lowByte wide) machine = .ok (.string x) machine →
      Exec.register second machine = .ok (.string y) machine →
      Exec.perform .direct engine ⟨.add, first, wide, second, third⟩ machine =
        Exec.setRegister first (.string (Text.joined x y)) machine) ∧
    (Text.joined x y = x ++ y ↔ Text.IsText x ∧ Text.IsText y) ∧
    x.size + y.size ≤ (Text.joined x y).size ∧
    (∀ z, Exec.arith engine .add (.string (Text.joined x y)) (.string z) =
      Exec.arith engine .add (.string x) (.string (Text.joined y z))) ∧
    (Text.IsText x → Text.IsText y →
      (Text.joined x y).size = x.size + y.size ∧
      ∀ index : Int64, 0 ≤ index.toInt →
        (index.toInt.toNat < x.size →
          Exec.getSlot engine (.string (Text.joined x y)) (.integer index) =
            Exec.getSlot engine (.string x) (.integer index)) ∧
        (x.size ≤ index.toInt.toNat → index.toInt.toNat < x.size + y.size →
          Exec.getSlot engine (.string (Text.joined x y)) (.integer index) =
            Exec.getSlot engine (.string y) (.integer (index - Int64.ofNat x.size)))) := by
  refine ⟨Exec.arith_add_strings engine x y, ?_, Text.joined_eq_append_iff, Text.size_le_joined,
    fun z => ?_, fun first second => ?_⟩
  · exact fun machine first wide second third => Exec.perform_add_strings engine x y
  · funext machine
    rw [Exec.arith_add_strings, Exec.arith_add_strings, Text.joined_assoc]
  · rw [Text.joined_eq_append_iff.mpr ⟨first, second⟩]
    refine ⟨ByteArray.size_append, fun index least => ⟨fun inside => ?_, fun behind inside => ?_⟩⟩
    · show Exec.ofExcept _ = Exec.ofExcept _
      rw [Value.byteAt_append_left least inside]
    · show Exec.ofExcept _ = Exec.ofExcept _
      rw [Value.byteAt_append_right least behind inside]

/-- Two texts in registers. -/
def twoTexts : Machine :=
  (default : Machine).mapStack fun stack => (stack.append (.ofText "né")).append (.ofText "e")

theorem sums_of_strings_accented :
    Text.IsText "né".toUTF8 ∧ Text.IsText "e".toUTF8 ∧
    Exec.register 0 twoTexts = .ok (.string "né".toUTF8) twoTexts ∧
    Exec.register 1 twoTexts = .ok (.string "e".toUTF8) twoTexts ∧
    Exec.perform .direct .spent ⟨.add, 0, 0, 1, 0⟩ twoTexts =
      Exec.setRegister 0 (.string (Text.joined "né".toUTF8 "e".toUTF8)) twoTexts ∧
    Text.joined "né".toUTF8 "e".toUTF8 = "né".toUTF8 ++ "e".toUTF8 ∧
    Exec.getSlot .spent (.string (Text.joined "né".toUTF8 "e".toUTF8)) (.integer 2) =
      Exec.getSlot .spent (.string "né".toUTF8) (.integer 2) ∧
    Exec.getSlot .spent (.string (Text.joined "né".toUTF8 "e".toUTF8)) (.integer 3) =
      Exec.getSlot .spent (.string "e".toUTF8) (.integer (3 - Int64.ofNat "né".toUTF8.size)) := by
  have front : Text.IsText "né".toUTF8 := ⟨"né", rfl⟩
  have back : Text.IsText "e".toUTF8 := ⟨"e", rfl⟩
  obtain ⟨_, performs, bytes, _, _, places⟩ :=
    sums_of_strings .spent "né".toUTF8 "e".toUTF8
  have places := (places front back).2
  have size : "né".toUTF8.size = 3 ∧ "e".toUTF8.size = 1 := by decide
  refine ⟨front, back, rfl, rfl, performs twoTexts 0 0 1 0 rfl rfl, bytes.mpr ⟨front, back⟩, ?_, ?_⟩
  · exact (places 2 (by decide)).1 (by rw [size.1]; decide)
  · exact (places 3 (by decide)).2 (by rw [size.1]; decide) (by rw [size.1, size.2]; decide)

end ScriptMachine
