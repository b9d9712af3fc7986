import ScriptMachine.Proofs.Stream.Canonical

/-!
# Damage in a window of four bytes

The register of the check takes part in a linear step for every bit, and no step forgets anything.
Four bytes that enter one after the other do so as one word, hence two streams of bytes of the same
length that differ in a window of four bytes have different checks.  The check of an accepted
stream is that of the bytes between header and tail, whatever these bytes make of each other, so a
stream that is damaged in such a window is not accepted.
-/

namespace ScriptMachine

namespace Checksum

/-! ## Shifting -/

/-- What is added to the register when its lowest bit is shifted out. -/
def tap (register : UInt32) : UInt32 := if register.toNat % 2 = 1 then polynomial else 0

theorem shiftBit_eq (register : UInt32) :
    shiftBit register = (register >>> 1) ^^^ tap register := by
  have odd : register &&& 1 = 1 ↔ register.toNat % 2 = 1 := by
    rw [← UInt32.toNat_inj, UInt32.toNat_and]
    exact Nat.and_one_is_mod _ ▸ Iff.rfl
  simp only [shiftBit, tap, odd]
  split
  next => rfl
  next => rw [UInt32.xor_zero]

theorem toNat_shiftRight_one (register : UInt32) : (register >>> 1).toNat = register.toNat / 2 := by
  rw [UInt32.toNat_shiftRight]
  exact Nat.shiftRight_eq_div_pow _ 1

theorem tap_xor (first second : UInt32) : tap (first ^^^ second) = tap first ^^^ tap second := by
  have lowest := Nat.testBit_xor (x := first.toNat) (y := second.toNat) (i := 0)
  simp only [Nat.testBit_zero, ← UInt32.toNat_xor] at lowest
  by_cases inFirst : first.toNat % 2 = 1 <;> by_cases inSecond : second.toNat % 2 = 1 <;>
    simp_all [tap]

theorem shiftBit_xor (first second : UInt32) :
    shiftBit (first ^^^ second) = shiftBit first ^^^ shiftBit second := by
  rw [shiftBit_eq, shiftBit_eq, shiftBit_eq, UInt32.shiftRight_xor, tap_xor]
  ac_rfl

/-- The polynomial has the highest bit, which a shift never leaves set by itself. -/
theorem shiftBit_eq_zero {register : UInt32} (shifted : shiftBit register = 0) : register = 0 := by
  have half := toNat_shiftRight_one register
  have same : register >>> 1 = tap register := UInt32.xor_eq_zero_iff.mp (shiftBit_eq _ ▸ shifted)
  have small := register.toNat_lt
  rw [same, tap] at half
  split at half
  next odd =>
    have large : polynomial.toNat = 0xEDB88320 := rfl
    omega
  next even =>
    have zero : (0 : UInt32).toNat = 0 := rfl
    exact UInt32.toNat_inj.mp (by omega)

theorem shiftBits_xor (count : Nat) (first second : UInt32) :
    shiftBits count (first ^^^ second) = shiftBits count first ^^^ shiftBits count second := by
  induction count generalizing first second with
  | zero => rfl
  | succ count ih => rw [shiftBits, shiftBit_xor, ih, shiftBits, shiftBits]

theorem shiftBits_injective {count : Nat} {first second : UInt32}
    (same : shiftBits count first = shiftBits count second) : first = second := by
  induction count generalizing first second with
  | zero => exact same
  | succ count ih =>
      have step : shiftBit first = shiftBit second := ih same
      refine UInt32.xor_eq_zero_iff.mp (shiftBit_eq_zero ?_)
      rw [shiftBit_xor, step, UInt32.xor_self]

theorem shiftBits_add (first second : Nat) (register : UInt32) :
    shiftBits (first + second) register = shiftBits second (shiftBits first register) := by
  induction first generalizing register with
  | zero => rw [Nat.zero_add, shiftBits]
  | succ first ih => rw [Nat.succ_add, shiftBits, ih, shiftBits]

/-- Low bits that are not set are shifted out without a trace. -/
theorem toNat_shiftBits {count value : Nat} {register : UInt32}
    (clear : register.toNat = 2 ^ count * value) : (shiftBits count register).toNat = value := by
  induction count generalizing register with
  | zero => rw [shiftBits, clear, Nat.pow_zero, Nat.one_mul]
  | succ count ih =>
      have double : register.toNat = 2 * (2 ^ count * value) := by
        rw [clear, Nat.pow_succ', Nat.mul_assoc]
      refine ih ?_
      rw [shiftBit_eq, tap, if_neg (by omega), UInt32.xor_zero, toNat_shiftRight_one]
      omega

/-! ## Bursts -/

theorem valueOf_lt (bytes : List UInt8) : Wire.valueOf bytes < 256 ^ bytes.length := by
  have same := Wire.valueOf_littleEndian bytes.length (Wire.valueOf bytes)
  rw [Wire.littleEndian_valueOf] at same
  exact same ▸ Nat.mod_lt _ (Nat.pow_pos (by decide))

theorem xor_mul_256 (byte : UInt8) (value : Nat) :
    byte.toNat ^^^ (256 * value) = byte.toNat + 256 * value := by
  refine Nat.eq_of_testBit_eq fun place => ?_
  have low : byte.toNat < 2 ^ 8 := byte.toNat_lt
  have sum := Nat.testBit_two_pow_mul_add value low place
  have shifted := Nat.testBit_two_pow_mul (i := 8) (a := value) (j := place)
  rw [Nat.add_comm, Nat.testBit_xor]
  by_cases inside : place < 8
  · simp_all [Nat.not_le.mpr inside]
  · have above : byte.toNat.testBit place = false :=
      Nat.testBit_lt_two_pow (Nat.lt_of_lt_of_le low (Nat.pow_le_pow_right (by decide) (by omega)))
    simp_all

/-- The word that some bytes form. -/
def wordOf (bytes : List UInt8) : UInt32 := UInt32.ofNat (Wire.valueOf bytes)

theorem toNat_wordOf {bytes : List UInt8} (few : bytes.length ≤ 4) :
    (wordOf bytes).toNat = Wire.valueOf bytes := by
  have bound : Wire.valueOf bytes < 256 ^ 4 :=
    Nat.lt_of_lt_of_le (valueOf_lt bytes) (Nat.pow_le_pow_right (by decide) few)
  rw [wordOf, UInt32.toNat_ofNat']
  exact Nat.mod_eq_of_lt bound

/-- The word of the later bytes, in the place that the first byte leaves to them. -/
theorem wordOf_cons (byte : UInt8) {rest : List UInt8} (few : rest.length < 4) :
    ∃ later : UInt32, wordOf (byte :: rest) = byte.toUInt32 ^^^ later ∧
      shiftBits 8 later = wordOf rest := by
  have bound : Wire.valueOf rest < 256 ^ 3 :=
    Nat.lt_of_lt_of_le (valueOf_lt rest) (Nat.pow_le_pow_right (by decide) (by omega))
  have place : (UInt32.ofNat (256 * Wire.valueOf rest)).toNat = 256 * Wire.valueOf rest := by
    rw [UInt32.toNat_ofNat']
    exact Nat.mod_eq_of_lt (by omega)
  refine ⟨UInt32.ofNat (256 * Wire.valueOf rest), ?_, ?_⟩
  · refine UInt32.toNat_inj.mp ?_
    rw [toNat_wordOf (by rw [List.length_cons]; omega), UInt32.toNat_xor, place,
      UInt8.toNat_toUInt32, xor_mul_256, Wire.valueOf]
  · refine UInt32.toNat_inj.mp ?_
    rw [toNat_shiftBits place, toNat_wordOf (Nat.le_of_lt few)]

/-- A few bytes that enter one after the other enter as one word. -/
theorem foldl_feed {bytes : List UInt8} (few : bytes.length ≤ 4) (register : UInt32) :
    bytes.foldl feed register = shiftBits (8 * bytes.length) (register ^^^ wordOf bytes) := by
  induction bytes generalizing register with
  | nil => exact (UInt32.xor_zero).symm
  | cons byte rest ih =>
      obtain ⟨later, word, shifted⟩ := wordOf_cons byte few
      rw [List.foldl_cons, ih (Nat.le_of_lt few), feed, word, List.length_cons, Nat.mul_succ,
        Nat.add_comm (8 * rest.length) 8, shiftBits_add, ← shifted, ← shiftBits_xor,
        UInt32.xor_assoc]

theorem wordOf_injective {bytes others : List UInt8} (few : bytes.length ≤ 4)
    (length : bytes.length = others.length) (same : wordOf bytes = wordOf others) :
    bytes = others := by
  have values : Wire.valueOf bytes = Wire.valueOf others := by
    rw [← toNat_wordOf few, same, toNat_wordOf (length ▸ few)]
  rw [← Wire.littleEndian_valueOf bytes, values, length, Wire.littleEndian_valueOf]

theorem foldl_feed_injective {bytes : List UInt8} {first second : UInt32}
    (same : bytes.foldl feed first = bytes.foldl feed second) : first = second := by
  induction bytes generalizing first second with
  | nil => exact same
  | cons byte rest ih =>
      have step : feed first byte = feed second byte := ih same
      exact (UInt32.xor_left_inj _).mp (shiftBits_injective step)

/-- Bytes that differ in a few consecutive places only have different checks. -/
theorem eq_of_crc32_append_eq {front bytes others back : List UInt8} (few : bytes.length ≤ 4)
    (length : bytes.length = others.length)
    (same : crc32 (front ++ (bytes ++ back)) = crc32 (front ++ (others ++ back))) :
    bytes = others := by
  have fewOthers : others.length ≤ 4 := length ▸ few
  simp only [crc32, UInt32.xor_left_inj, List.foldl_append] at same
  generalize front.foldl feed _ = register at same
  have burst := foldl_feed_injective same
  rw [foldl_feed few, foldl_feed fewOthers, ← length] at burst
  exact wordOf_injective few length ((UInt32.xor_right_inj _).mp (shiftBits_injective burst))

/-- All places where the bytes differ lie in a window of four consecutive places. -/
def DifferWithin (start : Nat) (bytes others : List UInt8) : Prop :=
  ∀ place, bytes[place]? ≠ others[place]? → start ≤ place ∧ place < start + 4

theorem take_append_window (start : Nat) (bytes : List UInt8) :
    bytes = bytes.take start ++ ((bytes.drop start).take 4 ++ bytes.drop (start + 4)) := by
  rw [← List.drop_drop, List.take_append_drop, List.take_append_drop]

theorem eq_of_crc32_eq {start : Nat} {bytes others : List UInt8}
    (length : bytes.length = others.length) (window : DifferWithin start bytes others)
    (same : crc32 bytes = crc32 others) : bytes = others := by
  have front : bytes.take start = others.take start := by
    refine List.ext_getElem? fun place => Decidable.byContradiction fun differ => ?_
    rw [List.getElem?_take, List.getElem?_take] at differ
    split at differ
    next before => exact absurd (window place differ).1 (Nat.not_le.mpr before)
    next => exact differ rfl
  have back : bytes.drop (start + 4) = others.drop (start + 4) := by
    refine List.ext_getElem? fun place => Decidable.byContradiction fun differ => ?_
    rw [List.getElem?_drop, List.getElem?_drop] at differ
    have := (window _ differ).2
    omega
  rw [take_append_window start bytes, take_append_window start others, front, back] at same ⊢
  have middle := eq_of_crc32_append_eq (by rw [List.length_take]; omega)
    (by simp only [List.length_take, List.length_drop, length]) same
  rw [middle]

end Checksum

namespace Stream

open Checksum (DifferWithin)

theorem word32_injective {first second : UInt32} (same : Wire.word32 first = Wire.word32 second) :
    first = second := by
  have small : ∀ word : UInt32, word.toNat < 256 ^ 4 := fun word =>
    Nat.lt_of_lt_of_eq word.toNat_lt (by decide)
  have values := congrArg Wire.valueOf same
  rw [Wire.word32, Wire.word32, Wire.valueOf_littleEndian, Wire.valueOf_littleEndian,
    Nat.mod_eq_of_lt (small first), Nat.mod_eq_of_lt (small second)] at values
  exact UInt32.toNat_inj.mp values

theorem length_streamBody (record : List UInt8) :
    (streamBody record).length = record.length + 12 := by
  simp only [streamBody, magic, Wire.word32, List.length_append, Wire.length_littleEndian,
    List.length_cons, List.length_nil]
  omega

/-- The record of a stream stands behind the eight bytes of the header. -/
theorem getElem?_streamBody {record after : List UInt8} {place : Nat}
    (inside : place < record.length) :
    (streamBody record ++ after)[8 + place]? = record[place]? := by
  have header : (magic ++ Wire.word32 version).length = 8 := rfl
  rw [streamBody, List.append_assoc, ← header,
    List.getElem?_append_right (Nat.le_add_right ..), Nat.add_sub_cancel_left, List.append_assoc,
    List.getElem?_append_left inside]

/-- The check of a stream stands behind everything else. -/
theorem getElem?_check (record after : List UInt8) (place : Nat) :
    (streamBody record ++ after)[record.length + 12 + place]? = after[place]? := by
  rw [← length_streamBody, List.getElem?_append_right (Nat.le_add_right ..),
    Nat.add_sub_cancel_left]

/-- A stream that is damaged within four consecutive bytes is not accepted. -/
theorem decode_damaged (prototype : Prototype) {bytes : List UInt8} (start : Nat)
    (length : bytes.length = (encode prototype).length) (damaged : bytes ≠ encode prototype)
    (window : ∀ place, bytes[place]? ≠ (encode prototype)[place]? →
      start ≤ place ∧ place < start + 4) :
    ∃ fault, decode bytes = .error fault := by
  cases decoded : decode bytes with
  | error fault => exact ⟨fault, rfl⟩
  | ok other =>
      obtain ⟨found, rfl, -, -⟩ := body_of_decode decoded
      rw [encode_eq_body] at length damaged window
      generalize recordBytes prototype = record at length damaged window
      have sized : found.length = record.length := by
        simp only [List.length_append, length_streamBody, Wire.word32,
          Wire.length_littleEndian] at length
        omega
      have differ : found ≠ record := fun same => damaged (same ▸ rfl)
      -- A damaged place of the record keeps the window away from the check.
      have inRecord : ∀ place, found[place]? ≠ record[place]? →
          place < record.length ∧ start ≤ 8 + place ∧ 8 + place < start + 4 := by
        intro place here
        have inside : place < record.length := by
          refine Nat.lt_of_not_le fun outside => here ?_
          rw [List.getElem?_eq_none outside, List.getElem?_eq_none (sized ▸ outside)]
        refine ⟨inside, window (8 + place) ?_⟩
        rwa [getElem?_streamBody inside, getElem?_streamBody (sized ▸ inside)]
      have shifted : DifferWithin (start - 8) found record := by
        intro place here
        have := inRecord place here
        omega
      have same : Checksum.crc32 found = Checksum.crc32 record := by
        obtain ⟨damage, here⟩ : ∃ place, found[place]? ≠ record[place]? :=
          Classical.not_forall.mp fun equal => differ (List.ext_getElem? equal)
        have bound := inRecord damage here
        refine word32_injective (List.ext_getElem? fun place => ?_)
        refine Decidable.byContradiction fun apart => ?_
        have outside := window (record.length + 12 + place) (by
          rw [getElem?_check, ← sized, getElem?_check]
          exact apart)
        omega
      exact absurd (Checksum.eq_of_crc32_eq sized shifted same) differ

/-- The stream of a generator inside a function with its first sentinel and the length of the name
behind it damaged. -/
def damagedStream : List UInt8 := ((encode generatorTree).set 11 0x55).set 12 0x01

theorem decode_damaged_generatorTree :
    damagedStream ≠ encode generatorTree ∧ ∃ fault, decode damagedStream = .error fault := by
  have differs : damagedStream ≠ encode generatorTree := by
    intro same
    have here := congrArg (fun bytes => bytes[12]?) same
    exact absurd here (by decide +kernel)
  refine ⟨differs, decode_damaged generatorTree 10 ?_ differs fun place here => ?_⟩
  · rw [damagedStream, List.length_set, List.length_set]
  · rw [damagedStream, List.getElem?_set, List.getElem?_set] at here
    split at here
    next same => omega
    next =>
      split at here
      next same => omega
      next => exact absurd rfl here

end Stream

end ScriptMachine
