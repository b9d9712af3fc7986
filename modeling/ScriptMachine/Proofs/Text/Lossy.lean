import ScriptMachine.Proofs.Stream.Reading
import ScriptMachine.Text.Lossy

/-!
# A text is read back from its bytes

The bytes of a character scan as that character and nothing else, whatever follows them.  So the
bytes of a text hold no broken run, and the lossy text of these bytes is the text itself.  What
stands for a character or a broken run is no shorter than its bytes.
-/

namespace ScriptMachine.Text

theorem scan_cons_of_scanOne {first : UInt8} {rest after : List UInt8} {found : Option Char}
    (step : scanOne first rest = (found, after)) :
    scan (first :: rest) = found :: scan after := by
  rw [scan, step]

/-! ## The bytes of a character -/

theorem toNat_ofNat {n : Nat} (small : n < 256) : (UInt8.ofNat n).toNat = n := by
  rw [UInt8.toNat_ofNat', Nat.mod_eq_of_lt small]

theorem isContinuation_ofNat {n : Nat} (small : n < 64) :
    isContinuation (UInt8.ofNat (n + 128)) = true := by
  have all : ∀ k < 64, isContinuation (UInt8.ofNat (k + 128)) = true := by decide
  exact all n small

theorem payload_ofNat {n : Nat} (small : n < 64) : payload (UInt8.ofNat (n + 128)) = n := by
  rw [payload, toNat_ofNat (by omega)]
  omega

/-- A byte is told from a constant by its number. -/
theorem beq_iff_toNat_eq (byte known : UInt8) :
    (byte == known) = true ↔ byte.toNat = known.toNat := by
  rw [beq_iff_eq, UInt8.toNat_inj]

/-- The second byte of a three-byte character fits the first one, unless the form is overlong or
the character a surrogate. -/
theorem fitsThree_ofNat {high middle : Nat} (highSmall : high < 16) (middleSmall : middle < 64)
    (long : high = 0 → 32 ≤ middle) (scalar : high = 13 → middle < 32) :
    fitsThree (UInt8.ofNat (high + 224)) (UInt8.ofNat (middle + 128)) = true := by
  have first : (UInt8.ofNat (high + 224)).toNat = high + 224 := toNat_ofNat (by omega)
  have second : (UInt8.ofNat (middle + 128)).toNat = middle + 128 := toNat_ofNat (by omega)
  simp only [fitsThree, beq_iff_toNat_eq, isContinuation_ofNat middleSmall,
    UInt8.le_iff_toNat_le, first, second, UInt8.reduceToNat]
  split
  · rw [Bool.and_eq_true, decide_eq_true_iff, decide_eq_true_iff]
    omega
  · split
    · rw [Bool.and_eq_true, decide_eq_true_iff, decide_eq_true_iff]
      omega
    · rfl

/-- The second byte of a four-byte character fits the first one, unless the form is overlong or
beyond the last code point. -/
theorem fitsFour_ofNat {high middle : Nat} (highSmall : high < 8) (middleSmall : middle < 64)
    (long : high = 0 → 16 ≤ middle) (scalar : high = 4 → middle < 16) :
    fitsFour (UInt8.ofNat (high + 240)) (UInt8.ofNat (middle + 128)) = true := by
  have first : (UInt8.ofNat (high + 240)).toNat = high + 240 := toNat_ofNat (by omega)
  have second : (UInt8.ofNat (middle + 128)).toNat = middle + 128 := toNat_ofNat (by omega)
  simp only [fitsFour, beq_iff_toNat_eq, isContinuation_ofNat middleSmall,
    UInt8.le_iff_toNat_le, first, second, UInt8.reduceToNat]
  split
  · rw [Bool.and_eq_true, decide_eq_true_iff, decide_eq_true_iff]
    omega
  · split
    · rw [Bool.and_eq_true, decide_eq_true_iff, decide_eq_true_iff]
      omega
    · rfl

theorem twoByte_ofNat {high low : Nat} (highSmall : high < 32) (lowSmall : low < 64) :
    twoByte (UInt8.ofNat (high + 192)) (UInt8.ofNat (low + 128)) =
      Char.ofNat (high * 64 + low) := by
  rw [twoByte, toNat_ofNat (by omega), payload_ofNat lowSmall]
  exact congrArg Char.ofNat (by omega)

theorem threeByte_ofNat {high middle low : Nat} (highSmall : high < 16) (middleSmall : middle < 64)
    (lowSmall : low < 64) :
    threeByte (UInt8.ofNat (high + 224)) (UInt8.ofNat (middle + 128)) (UInt8.ofNat (low + 128)) =
      Char.ofNat (high * 4096 + middle * 64 + low) := by
  rw [threeByte, toNat_ofNat (by omega), payload_ofNat middleSmall, payload_ofNat lowSmall]
  exact congrArg Char.ofNat (by omega)

theorem fourByte_ofNat {high middle third low : Nat} (highSmall : high < 8)
    (middleSmall : middle < 64) (thirdSmall : third < 64) (lowSmall : low < 64) :
    fourByte (UInt8.ofNat (high + 240)) (UInt8.ofNat (middle + 128)) (UInt8.ofNat (third + 128))
        (UInt8.ofNat (low + 128)) =
      Char.ofNat (high * 262144 + middle * 4096 + third * 64 + low) := by
  rw [fourByte, toNat_ofNat (by omega), payload_ofNat middleSmall, payload_ofNat thirdSmall,
    payload_ofNat lowSmall]
  exact congrArg Char.ofNat (by omega)

/-! ## One character -/

section

variable {first second third fourth : UInt8} {after : List UInt8}

theorem scanOne_one (low : first.toNat < 128) :
    scanOne first after = (some (Char.ofNat first.toNat), after) := by
  rw [scanOne.eq_def, if_pos (UInt8.lt_iff_toNat_lt.mpr low)]

theorem scanOne_two (least : 194 ≤ first.toNat) (most : first.toNat ≤ 223)
    (continues : isContinuation second = true) :
    scanOne first (second :: after) = (some (twoByte first second), after) := by
  simp only [scanOne, continues, UInt8.lt_iff_toNat_lt, UInt8.le_iff_toNat_le, UInt8.reduceToNat]
  rw [if_neg (by omega), if_pos (by simp [least, most]), if_pos trivial]

theorem scanOne_three (least : 224 ≤ first.toNat) (most : first.toNat ≤ 239)
    (fits : fitsThree first second = true) (continues : isContinuation third = true) :
    scanOne first (second :: third :: after) = (some (threeByte first second third), after) := by
  simp only [scanOne, fits, continues, UInt8.lt_iff_toNat_lt, UInt8.le_iff_toNat_le,
    UInt8.reduceToNat]
  rw [if_neg (by omega), if_neg (by simp; omega), if_pos (by simp [least, most]),
    if_neg (by simp), if_pos trivial]

theorem scanOne_four (least : 240 ≤ first.toNat) (most : first.toNat ≤ 244)
    (fits : fitsFour first second = true) (goesOn : isContinuation third = true)
    (continues : isContinuation fourth = true) :
    scanOne first (second :: third :: fourth :: after) =
      (some (fourByte first second third fourth), after) := by
  simp only [scanOne, fits, goesOn, continues, UInt8.lt_iff_toNat_lt, UInt8.le_iff_toNat_le,
    UInt8.reduceToNat]
  rw [if_neg (by omega), if_neg (by simp; omega), if_neg (by simp; omega),
    if_pos (by simp [least, most]), if_neg (by simp), if_neg (by simp), if_pos trivial]

end

/-- The bytes of a character scan as this character: one case for each number of bytes. -/
theorem scan_utf8EncodeChar_append (c : Char) (after : List UInt8) :
    scan (String.utf8EncodeChar c ++ after) = some c :: scan after := by
  have valid : c.val.toNat < 0xD800 ∨ 0xDFFF < c.val.toNat ∧ c.val.toNat < 0x110000 := c.valid
  have own {n : Nat} (same : n = c.val.toNat) : Char.ofNat n = c := same ▸ Char.ofNat_toNat c
  rw [String.utf8EncodeChar.eq_1]
  generalize c.val.toNat = n at *
  split
  · have number : (UInt8.ofNat n).toNat = n := toNat_ofNat (by omega)
    rw [List.singleton_append, scan_cons_of_scanOne (scanOne_one (by omega)), own number]
  · split
    · have number : (UInt8.ofNat (n / 64 % 32 + 192)).toNat = n / 64 % 32 + 192 :=
        toNat_ofNat (by omega)
      rw [List.cons_append, List.singleton_append]
      refine scan_cons_of_scanOne ?_
      rw [scanOne_two (by omega) (by omega)
        (isContinuation_ofNat (by omega)), twoByte_ofNat (by omega) (by omega), own (by omega)]
    · split
      · have number : (UInt8.ofNat (n / 4096 % 16 + 224)).toNat = n / 4096 % 16 + 224 :=
          toNat_ofNat (by omega)
        rw [List.cons_append, List.cons_append, List.singleton_append]
        refine scan_cons_of_scanOne ?_
        rw [scanOne_three (by omega) (by omega)
          (fitsThree_ofNat (by omega) (by omega) (by omega) (by omega))
          (isContinuation_ofNat (by omega)),
          threeByte_ofNat (by omega) (by omega) (by omega), own (by omega)]
      · have number : (UInt8.ofNat (n / 262144 % 8 + 240)).toNat = n / 262144 % 8 + 240 :=
          toNat_ofNat (by omega)
        rw [List.cons_append, List.cons_append, List.cons_append, List.singleton_append]
        refine scan_cons_of_scanOne ?_
        rw [scanOne_four (by omega) (by omega)
            (fitsFour_ofNat (by omega) (by omega) (by omega) (by omega))
            (isContinuation_ofNat (by omega)) (isContinuation_ofNat (by omega)),
          fourByte_ofNat (by omega) (by omega) (by omega) (by omega), own (by omega)]

/-! ## Texts -/

theorem scan_flatMap_utf8EncodeChar (characters : List Char) :
    scan (characters.flatMap String.utf8EncodeChar) = characters.map some := by
  induction characters with
  | nil => rw [List.flatMap_nil, List.map_nil, scan]
  | cons first rest ih =>
      rw [List.flatMap_cons, scan_utf8EncodeChar_append, ih, List.map_cons]

theorem toList_toUTF8 (text : String) :
    text.toUTF8.toList = text.toList.flatMap String.utf8EncodeChar := by
  have bytes : text.toByteArray = text.toList.utf8Encode := by
    rw [← String.toByteArray_ofList, String.ofList_toList]
  rw [Read.toList_toUTF8, bytes, List.utf8Encode, List.data_toByteArray]

/-- The lossy text of the bytes of a text is the text. -/
@[simp]
theorem lossy_toUTF8 (text : String) : lossy text.toUTF8 = text := by
  rw [lossy, toList_toUTF8, scan_flatMap_utf8EncodeChar, List.map_map]
  simp [Function.comp_def]

/-! ## Lengths -/

theorem val_ofNat {n : Nat} (valid : n.isValidChar) : (Char.ofNat n).val.toNat = n := by
  rw [Char.ofNat, dif_pos valid]
  rfl

/-- The number of a character says how long its encoding is at least. -/
theorem le_utf8Size_ofNat {n : Nat} (valid : n.isValidChar) :
    (128 ≤ n → 2 ≤ (Char.ofNat n).utf8Size) ∧ (2048 ≤ n → 3 ≤ (Char.ofNat n).utf8Size) ∧
      (65536 ≤ n → 4 ≤ (Char.ofNat n).utf8Size) := by
  have number := val_ofNat valid
  rw [Char.utf8Size]
  simp only [UInt32.le_iff_toNat_le, number, UInt32.toNat_ofNatLT]
  split
  · omega
  · split
    · omega
    · split <;> omega

theorem payload_lt (byte : UInt8) : payload byte < 64 := Nat.mod_lt _ (by decide)

theorem payload_of_fitsThree {first second : UInt8} (fits : fitsThree first second = true) :
    (first.toNat = 224 → 32 ≤ payload second) ∧ (first.toNat = 237 → payload second < 32) := by
  simp only [fitsThree, beq_iff_toNat_eq, UInt8.le_iff_toNat_le, UInt8.reduceToNat] at fits
  rw [payload]
  split at fits
  · rw [Bool.and_eq_true, decide_eq_true_iff, decide_eq_true_iff] at fits
    omega
  · split at fits
    · rw [Bool.and_eq_true, decide_eq_true_iff, decide_eq_true_iff] at fits
      omega
    · omega

theorem payload_of_fitsFour {first second : UInt8} (fits : fitsFour first second = true) :
    (first.toNat = 240 → 16 ≤ payload second) ∧ (first.toNat = 244 → payload second < 16) := by
  simp only [fitsFour, beq_iff_toNat_eq, UInt8.le_iff_toNat_le, UInt8.reduceToNat] at fits
  rw [payload]
  split at fits
  · rw [Bool.and_eq_true, decide_eq_true_iff, decide_eq_true_iff] at fits
    omega
  · split at fits
    · rw [Bool.and_eq_true, decide_eq_true_iff, decide_eq_true_iff] at fits
      omega
    · omega

theorem two_le_twoByte {first : UInt8} (second : UInt8) (least : 194 ≤ first.toNat)
    (most : first.toNat ≤ 223) : 2 ≤ (twoByte first second).utf8Size := by
  have low := payload_lt second
  exact (le_utf8Size_ofNat (.inl (by omega))).1 (by omega)

theorem three_le_threeByte {first second : UInt8} (third : UInt8) (least : 224 ≤ first.toNat)
    (most : first.toNat ≤ 239) (fits : fitsThree first second = true) :
    3 ≤ (threeByte first second third).utf8Size := by
  have middle := payload_lt second
  have low := payload_lt third
  obtain ⟨long, scalar⟩ := payload_of_fitsThree fits
  rw [threeByte]
  generalize payload second = second at *
  generalize payload third = third at *
  have valid : (first.toNat % 16 * 4096 + second * 64 + third).isValidChar := by
    by_cases below : first.toNat ≤ 237
    · exact .inl (by omega)
    · exact .inr ⟨by omega, by omega⟩
  exact (le_utf8Size_ofNat valid).2.1 (by omega)

theorem four_le_fourByte {first second : UInt8} (third fourth : UInt8)
    (least : 240 ≤ first.toNat) (most : first.toNat ≤ 244)
    (fits : fitsFour first second = true) :
    4 ≤ (fourByte first second third fourth).utf8Size := by
  have middle := payload_lt second
  have low := payload_lt third
  have last := payload_lt fourth
  obtain ⟨long, scalar⟩ := payload_of_fitsFour fits
  rw [fourByte]
  generalize payload second = second at *
  generalize payload third = third at *
  generalize payload fourth = fourth at *
  exact (le_utf8Size_ofNat (.inr ⟨by omega, by omega⟩)).2.2 (by omega)

/-- What stands for the first character or broken run of some bytes is no shorter than the part of
the bytes it stands for. -/
def Covers (bytes : List UInt8) (read : Option Char × List UInt8) : Prop :=
  bytes.length ≤ read.2.length + (read.1.getD replacement).utf8Size

/-- A broken run has at most three bytes, the length of the replacement character. -/
theorem covers_none {bytes after : List UInt8} (short : bytes.length ≤ after.length + 3) :
    Covers bytes (none, after) := by
  have broken : replacement.utf8Size = 3 := by decide
  rw [Covers, Option.getD_none, broken]
  exact short

theorem covers_some {bytes after : List UInt8} {c : Char}
    (short : bytes.length ≤ after.length + c.utf8Size) : Covers bytes (some c, after) := short

/-- One case for each kind of first byte, and in it one for each number of bytes that follow. -/
theorem covers_scanOne (first : UInt8) (rest : List UInt8) :
    Covers (first :: rest) (scanOne first rest) := by
  have alone {after : List UInt8} : Covers (first :: after) (none, after) :=
    covers_none (Nat.add_le_add_left (by decide) after.length)
  have between {least most : UInt8} (lead : (least ≤ first && first ≤ most) = true) :
      least.toNat ≤ first.toNat ∧ first.toNat ≤ most.toNat := by
    rwa [Bool.and_eq_true, decide_eq_true_iff, decide_eq_true_iff] at lead
  rw [scanOne.eq_def]
  split
  · exact covers_some (Nat.add_le_add_left (Char.utf8Size_pos _) _)
  split
  case isTrue lead =>
    rcases rest with _ | ⟨second, tail⟩
    · exact alone
    dsimp only
    split
    · have long := two_le_twoByte second (between lead).1 (between lead).2
      exact covers_some (Nat.add_le_add_left long _)
    · exact alone
  split
  case isTrue lead =>
    rcases rest with _ | ⟨second, _ | ⟨third, tail⟩⟩
    · exact alone
    · dsimp only
      split
      · exact covers_none (by decide : 2 ≤ 3)
      · exact alone
    dsimp only
    split
    case isTrue => exact alone
    case isFalse fits =>
      split
      · have long := three_le_threeByte third (between lead).1 (between lead).2
          (by simpa using fits)
        exact covers_some (Nat.add_le_add_left long _)
      · exact covers_none (Nat.le_succ _)
  split
  case isTrue lead =>
    rcases rest with _ | ⟨second, _ | ⟨third, _ | ⟨fourth, tail⟩⟩⟩
    · exact alone
    · dsimp only
      split
      · exact covers_none (by decide : 2 ≤ 3)
      · exact alone
    · dsimp only
      split
      · exact alone
      · split
        · exact covers_none (by decide : 3 ≤ 3)
        · exact covers_none (by decide : 3 ≤ 4)
    dsimp only
    split
    case isTrue => exact alone
    case isFalse fits =>
      split
      · exact covers_none (Nat.le_succ _)
      · split
        · have long := four_le_fourByte third fourth (between lead).1 (between lead).2
            (by simpa using fits)
          exact covers_some (Nat.add_le_add_left long _)
        · exact covers_none (Nat.le_refl _)
  exact alone

theorem length_le_scan (bytes : List UInt8) :
    bytes.length ≤ ((scan bytes).map fun c => (c.getD replacement).utf8Size).sum := by
  fun_induction scan bytes with
  | case1 => exact Nat.le_refl 0
  | case2 first rest step ih =>
      have one : (first :: rest).length ≤ step.2.length + (step.1.getD replacement).utf8Size :=
        covers_scanOne first rest
      rw [List.map_cons, List.sum_cons]
      omega

theorem toList_eq_data (bytes : ByteArray) : bytes.toList = bytes.data.toList := by
  rw [ByteArray.toList, Read.toList_loop]
  rfl

theorem size_toUTF8_ofList (characters : List Char) :
    (String.ofList characters).toUTF8.size = (characters.map Char.utf8Size).sum := by
  have bytes := congrArg List.length (toList_toUTF8 (String.ofList characters))
  rw [toList_eq_data, String.toList_ofList, List.length_flatMap] at bytes
  simpa using bytes

/-- Reading bytes lossily never loses length. -/
theorem size_le_lossy (bytes : ByteArray) : bytes.size ≤ (lossy bytes).toUTF8.size := by
  rw [lossy, size_toUTF8_ofList, List.map_map]
  have all := length_le_scan bytes.toList
  rwa [toList_eq_data] at all ⊢

end ScriptMachine.Text
