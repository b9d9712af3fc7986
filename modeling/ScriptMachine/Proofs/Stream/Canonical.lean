import ScriptMachine.Proofs.Stream.RoundTrip

/-!
# One stream for one tree

A read spells a form when the bytes it takes and the value it gives always stand in that relation.
Every read of a stream spells exactly the bytes that its value is written with, except for the
byte of flags: of these the read knows two bits and drops the others.  An accepted stream is
therefore the stream of its tree up to unknown bits of flags and, where there are any, the check.
-/

namespace ScriptMachine

namespace Read

variable {ε α β : Type}

theorem bind_eq_ok {read : Read ε α} {next : α → Read ε β} {reader last : Reader} {result : β} :
    (read >>= next) reader = .ok result last ↔
      ∃ value middle, read reader = .ok value middle ∧ next value middle = .ok result last := by
  change EStateM.bind read next reader = _ ↔ _
  rw [EStateM.bind]
  cases read reader with
  | ok value middle =>
      refine ⟨fun success => ⟨value, middle, rfl, success⟩, ?_⟩
      rintro ⟨_, _, ⟨rfl, rfl⟩, success⟩
      exact success
  | error cause middle => simp

/-- Wherever the read succeeds, the bytes it takes off the front of what is left and the value it
gives have this form. -/
def Spells (read : Read ε α) (form : List UInt8 → α → Prop) : Prop :=
  ∀ (reader next : Reader) (value : α), read reader = .ok value next →
    ∃ bytes after, reader.rest = bytes ++ after ∧ next = reader.advance bytes.length ∧
      form bytes value

/-- Wherever the read succeeds, it has taken the bytes that its value is written with. -/
def Spelled (read : Read ε α) (write : α → List UInt8) : Prop :=
  Spells read fun bytes value => bytes = write value

theorem Spells.mono {read : Read ε α} {form wider : List UInt8 → α → Prop}
    (spells : Spells read form) (implied : ∀ bytes value, form bytes value → wider bytes value) :
    Spells read wider := by
  intro reader next value success
  obtain ⟨bytes, after, front, place, formed⟩ := spells reader next value success
  exact ⟨bytes, after, front, place, implied bytes value formed⟩

theorem spells_pure {value : α} {form : List UInt8 → α → Prop} (formed : form [] value) :
    Spells (pure value : Read ε α) form := by
  intro reader next result success
  obtain ⟨rfl, rfl⟩ : value = result ∧ reader = next := by simpa [pure, EStateM.pure] using success
  exact ⟨[], reader.rest, rfl, (Reader.advance_zero reader).symm, formed⟩

theorem spells_throw (fault : ε) (form : List UInt8 → α → Prop) :
    Spells (throw fault : Read ε α) form :=
  fun _ _ _ success => nomatch success

theorem Spells.bind {read : Read ε α} {next : α → Read ε β} {part : List UInt8 → α → Prop}
    {form : List UInt8 → β → Prop} (first : Spells read part)
    (second : ∀ value head, part head value →
      Spells (next value) fun tail result => form (head ++ tail) result) :
    Spells (read >>= next) form := by
  intro reader last result success
  obtain ⟨value, middle, here, there⟩ := bind_eq_ok.mp success
  obtain ⟨head, rest, front, place, parted⟩ := first reader middle value here
  obtain ⟨tail, after, behind, stop, formed⟩ := second value head parted middle last result there
  subst place
  have split : rest = tail ++ after := (Reader.rest_behind front).symm.trans behind
  refine ⟨head ++ tail, after, ?_, ?_, formed⟩
  · rw [front, split, List.append_assoc]
  · rw [stop, Reader.advance_advance, List.length_append]

theorem Spelled.bind {read : Read ε α} {next : α → Read ε β} {write : α → List UInt8}
    {form : List UInt8 → β → Prop} (first : Spelled read write)
    (second : ∀ value, Spells (next value) fun tail result => form (write value ++ tail) result) :
    Spells (read >>= next) form :=
  Spells.bind first fun value _ same => same ▸ second value

theorem Spelled.map {read : Read ε α} {write : α → List UInt8} {form : List UInt8 → β → Prop}
    (spelled : Spelled read write) {f : α → β} (formed : ∀ value, form (write value) (f value)) :
    Spells (read >>= fun found => pure (f found)) form :=
  spelled.bind fun value => spells_pure (by rw [List.append_nil]; exact formed value)

theorem spells_position {next : Nat → Read DecodeError β} {form : List UInt8 → β → Prop}
    (second : ∀ offset, Spells (next offset) form) : Spells (position >>= next) form :=
  fun reader last result success => second reader.position reader last result success

/-! ## Words -/

theorem spells_bytes (width : Nat) :
    Spells (bytes width) fun taken value => taken = value ∧ value.length = width := by
  intro reader next value success
  rw [bytes] at success
  split at success
  next full =>
    obtain ⟨rfl, rfl⟩ := EStateM.Result.ok.inj success
    refine ⟨_, reader.rest.drop width, (List.take_append_drop ..).symm, ?_, rfl, full⟩
    rw [full]
  next => cases success

theorem spelled_number (width : Nat) : Spelled (number width) (Wire.littleEndian width) := by
  refine (spells_bytes width).bind ?_
  rintro value _ ⟨rfl, rfl⟩
  exact spells_pure (by rw [List.append_nil, Wire.littleEndian_valueOf])

theorem littleEndian_mod (width n : Nat) :
    Wire.littleEndian width (n % 256 ^ width) = Wire.littleEndian width n := by
  have same := Wire.littleEndian_valueOf (Wire.littleEndian width n)
  rwa [Wire.length_littleEndian, Wire.valueOf_littleEndian] at same

theorem spelled_byte : Spelled byte Wire.byte :=
  (spelled_number 1).map fun n => by simp [Wire.byte, Wire.littleEndian]

theorem spelled_word32 : Spelled word32 Wire.word32 :=
  (spelled_number 4).map fun n => by
    rw [Wire.word32, UInt32.toNat_ofNat']
    exact (littleEndian_mod 4 n).symm

theorem spelled_int32 : Spelled int32 Wire.int32 :=
  spelled_word32.map fun value => by rw [Wire.int32, UInt32.toUInt32_toInt32]

theorem spelled_int64 : Spelled int64 Wire.int64 :=
  (spelled_number 8).map fun n => by
    rw [Wire.int64, UInt64.toUInt64_toInt64, UInt64.toNat_ofNat']
    exact (littleEndian_mod 8 n).symm

theorem spelled_float64 : Spelled float64 Wire.float64 :=
  (spelled_number 8).map fun n => by
    rw [Wire.float64, UInt64.toNat_ofNat']
    exact (littleEndian_mod 8 n).symm

/-! ## Texts, operations, instructions -/

/-- A text that was decoded is encoded by the same bytes. -/
theorem toUTF8_of_fromUTF8? {content : List UInt8} {value : String}
    (valid : String.fromUTF8? ⟨content.toArray⟩ = some value) :
    value.toUTF8.toList = content ∧ value.utf8ByteSize = content.length := by
  obtain ⟨_, rfl⟩ : ∃ valid, String.fromUTF8 ⟨content.toArray⟩ valid = value := by
    simpa [String.fromUTF8?] using valid
  constructor
  · rw [toList_toUTF8]
    rfl
  · rfl

theorem spelled_text : Spelled text Wire.text := by
  refine (spelled_number 4).bind fun length => spells_position fun start => ?_
  refine (spells_bytes length).bind ?_
  rintro content _ ⟨rfl, sized⟩
  split
  next value valid =>
    obtain ⟨same, size⟩ := toUTF8_of_fromUTF8? valid
    refine spells_pure ?_
    rw [Wire.text, Wire.count, same, size, sized, List.append_nil]
  next => exact spells_throw _ _

theorem spelled_opcode : Spelled opcode Wire.opcode := by
  refine spelled_byte.bind fun code => ?_
  split
  next op known =>
    exact spells_pure (by rw [Wire.opcode, Opcode.code_of_ofCode? known, List.append_nil])
  next => exact spells_position fun _ => spells_throw _ _

theorem spelled_instruction : Spelled instruction Wire.instruction := by
  refine spelled_opcode.bind fun op => spelled_byte.bind fun first => ?_
  refine spelled_byte.bind fun second => spelled_byte.bind fun third => ?_
  refine spelled_int32.bind fun wide => spells_pure ?_
  simp only [Wire.instruction, List.append_assoc, List.append_nil]

/-! ## Sequences -/

theorem spelled_items {item : Read ε α} {write : α → List UInt8} (each : Spelled item write)
    (count : Nat) :
    Spells (items item count) fun bytes list =>
      list.length = count ∧ bytes = list.flatMap write := by
  induction count with
  | zero => exact spells_pure ⟨rfl, rfl⟩
  | succ count ih =>
      refine each.bind fun first => ih.bind ?_
      rintro rest _ ⟨rfl, rfl⟩
      exact spells_pure ⟨rfl, by rw [List.append_nil, List.flatMap_cons]⟩

end Read

namespace Stream

open Read (Spells Spelled spells_pure spells_throw)

variable {α β : Type}

theorem Spells.lift {read : Read DecodeError α} {form : List UInt8 → α → Prop}
    (spells : Spells read form) : Spells (lift read) form := by
  intro reader next value success
  rw [Stream.lift] at success
  split at success
  next found middle read =>
    obtain ⟨rfl, rfl⟩ := EStateM.Result.ok.inj success
    exact spells reader _ _ read
  next => cases success

theorem spells_position {next : Nat → Read StreamError β} {form : List UInt8 → β → Prop}
    (second : ∀ offset, Spells (next offset) form) : Spells (lift Read.position >>= next) form :=
  fun reader last result success => second reader.position reader last result success

/-- A demand takes nothing, and what follows may rely on it. -/
theorem spells_require (condition : Bool) (cause : StreamError) :
    Spells (require condition cause) fun taken _ => taken = [] ∧ condition = true := by
  cases condition with
  | false => exact spells_throw _ _
  | true => exact spells_pure ⟨rfl, rfl⟩

theorem spelled_sentinel (expected : UInt32) :
    Spelled (sentinel expected) fun _ => Wire.word32 expected := by
  refine spells_position fun offset => Read.Spelled.bind (Spells.lift Read.spelled_word32) ?_
  refine fun found => (spells_require _ _).mono ?_
  rintro _ _ ⟨rfl, same⟩
  rw [of_decide_eq_true same, List.append_nil]

theorem spelled_literal : Spelled literal literalBytes := by
  refine spells_position fun offset =>
    Read.Spelled.bind (Spells.lift Read.spelled_byte) fun tag => ?_
  split
  next => exact spells_pure rfl
  next => exact spells_pure rfl
  next => exact spells_pure rfl
  next => exact Read.Spelled.map (Spells.lift Read.spelled_int64) fun _ => rfl
  next => exact Read.Spelled.map (Spells.lift Read.spelled_float64) fun _ => rfl
  next => exact Read.Spelled.map (Spells.lift Read.spelled_text) fun _ => rfl
  next => exact spells_throw _ _

theorem spelled_capture : Spelled capture captureBytes := by
  refine Read.Spelled.bind (Spells.lift Read.spelled_text) fun name => ?_
  refine spells_position fun offset =>
    Read.Spelled.bind (Spells.lift Read.spelled_byte) fun tag => ?_
  split
  next => exact Read.Spelled.map (Spells.lift Read.spelled_word32) fun _ => rfl
  next => exact Read.Spelled.map (Spells.lift Read.spelled_word32) fun _ => rfl
  next => exact Read.Spelled.map (Spells.lift Read.spelled_text) fun _ => rfl
  next => exact spells_throw _ _

theorem spelled_lineMark : Spelled lineMark lineBytes :=
  Read.Spelled.bind (Spells.lift Read.spelled_word32) fun _ =>
    Read.Spelled.map (Spells.lift Read.spelled_word32) fun _ => rfl

theorem spelled_list {item : Read StreamError α} {write : α → List UInt8}
    (each : Spelled item write) : Spelled (list item) (listBytes write) := by
  refine Read.Spelled.bind (Spells.lift (Read.spelled_number 4)) fun count => ?_
  refine (Read.spelled_items each count).mono ?_
  rintro bytes items ⟨rfl, rfl⟩
  rfl

/-! ## Records -/

/-- The part of a record before the records of the nested functions. -/
def recordFront (prototype : Prototype) : List UInt8 :=
  sectionBytes (Wire.text prototype.name ++ Wire.text prototype.source) ++
  sectionBytes (listBytes literalBytes prototype.literals.toList) ++
  sectionBytes (listBytes Wire.text prototype.parameters.toList) ++
  sectionBytes (listBytes captureBytes prototype.captures.toList) ++
  sectionBytes (listBytes lineBytes prototype.lines.toList) ++
  sectionBytes (listBytes Wire.instruction prototype.code.toList) ++
  sectionBytes (Wire.count prototype.functions.length)

theorem recordBytes_eq_front (prototype : Prototype) : recordBytes prototype =
    recordFront prototype ++ (recordsBytes prototype.functions ++
      (sectionBytes (Wire.count prototype.stackSize) ++
        [flagsByte prototype.isGenerator prototype.isVariadic])) := by
  rw [recordBytes_eq, recordFront, recordsBytes_eq_flatMap]
  simp only [sectionBytes, listBytes, List.append_assoc]

mutual

/-- The places of the bytes of flags in the record that starts at a place: those of the nested
functions, then the last byte. -/
def flagPlaces (start : Nat) : Prototype → List Nat
  | prototype@⟨_, _, _, _, _, _, _, _, _, _, functions⟩ =>
    flagPlacesAll (start + (recordFront prototype).length) functions ++
      [start + (recordBytes prototype).length - 1]

/-- The places of the bytes of flags in records that start at a place, one after the other. -/
def flagPlacesAll (start : Nat) : List Prototype → List Nat
  | [] => []
  | prototype :: rest =>
    flagPlaces start prototype ++ flagPlacesAll (start + (recordBytes prototype).length) rest

end

/-- The bytes from a place on, without the unknown bits of those that are flags. -/
def known (places : List Nat) (start : Nat) (bytes : List UInt8) : List UInt8 :=
  bytes.mapIdx fun offset byte => if start + offset ∈ places then byte &&& 3 else byte

/-- What was written is what was found from a place on, without unknown bits of flags, which lie
between that place and the end. -/
structure Matches (start : Nat) (places : List Nat) (written found : List UInt8) : Prop where
  /-- The bytes of flags lie inside. -/
  inside : ∀ place ∈ places, start ≤ place ∧ place < start + found.length
  /-- The known bits are the same. -/
  same : written = known places start found

variable {start : Nat} {places later : List Nat} {written found : List UInt8}

theorem Matches.length (matched : Matches start places written found) :
    written.length = found.length := by
  rw [matched.same, known, List.length_mapIdx]

theorem getElem?_known (offset : Nat) : (known places start found)[offset]? =
    found[offset]?.map fun byte => if start + offset ∈ places then byte &&& 3 else byte := by
  rw [known, List.getElem?_mapIdx]

theorem matches_exact (start : Nat) (bytes : List UInt8) : Matches start [] bytes bytes where
  inside _ among := absurd among List.not_mem_nil
  same := by
    refine List.ext_getElem? fun offset => ?_
    simp [getElem?_known]

theorem matches_flags (start : Nat) (flags : UInt8) :
    Matches start [start] [flags &&& 3] [flags] where
  inside place among := by
    rw [List.mem_singleton.mp among]
    simp
  same := by simp [known]

theorem Matches.append {moreWritten moreFound : List UInt8}
    (first : Matches start places written found)
    (second : Matches (start + found.length) later moreWritten moreFound) :
    Matches start (places ++ later) (written ++ moreWritten) (found ++ moreFound) := by
  constructor
  · intro place among
    rw [List.length_append]
    rcases List.mem_append.mp among with among | among
    · have := first.inside place among
      omega
    · have := second.inside place among
      omega
  · rw [first.same, second.same]
    refine List.ext_getElem? fun offset => ?_
    rw [getElem?_known, List.getElem?_append, List.getElem?_append]
    simp only [known, List.length_mapIdx, List.getElem?_mapIdx, List.mem_append]
    by_cases inside : offset < found.length
    · have apart : start + offset ∉ later := fun among => by
        have := second.inside _ among
        omega
      simp [inside, apart]
    · have apart : start + offset ∉ places := fun among => by
        have := first.inside _ among
        omega
      have shifted : start + found.length + (offset - found.length) = start + offset := by omega
      simp [inside, apart, shifted]

theorem flagsByte_known (flags : UInt8) :
    flagsByte (flags &&& 1 != 0) (flags &&& 2 != 0) = flags &&& 3 := by
  cases flags with
  | ofBitVec bits =>
    cases bits with
    | ofFin number =>
      revert number
      decide +kernel

theorem flagPlaces_eq (start : Nat) (prototype : Prototype) : flagPlaces start prototype =
    flagPlacesAll (start + (recordFront prototype).length) prototype.functions ++
      [start + (recordBytes prototype).length - 1] := by
  cases prototype
  rw [flagPlaces]

/-- A record matches when its nested records match and the rest is the same up to the byte of
flags at its end. -/
theorem matches_record (prototype : Prototype) {nested : List UInt8} {flags : UInt8}
    (sameFlags : flagsByte prototype.isGenerator prototype.isVariadic = flags &&& 3)
    (matched : ∀ start,
      Matches start (flagPlacesAll start prototype.functions) (recordsBytes prototype.functions)
        nested) (start : Nat) :
    Matches start (flagPlaces start prototype) (recordBytes prototype)
      (recordFront prototype ++
        (nested ++ (sectionBytes (Wire.count prototype.stackSize) ++ [flags]))) := by
  have inner := matched (start + (recordFront prototype).length)
  have last : start + (recordBytes prototype).length - 1 =
      start + (recordFront prototype).length + nested.length +
        (sectionBytes (Wire.count prototype.stackSize)).length := by
    rw [recordBytes_eq_front]
    simp only [List.length_append, inner.length, List.length_singleton]
    omega
  rw [flagPlaces_eq, last, recordBytes_eq_front, sameFlags]
  exact (matches_exact start _).append
    (inner.append ((matches_exact _ _).append (matches_flags _ flags)))

theorem spells_records {item : Read StreamError Prototype}
    (each : Spells item fun bytes prototype =>
      ∀ start, Matches start (flagPlaces start prototype) (recordBytes prototype) bytes)
    (count : Nat) :
    Spells (Read.items item count) fun bytes list => list.length = count ∧
      ∀ start, Matches start (flagPlacesAll start list) (recordsBytes list) bytes := by
  induction count with
  | zero => exact spells_pure ⟨rfl, fun start => matches_exact start []⟩
  | succ count ih =>
      refine each.bind fun first head matched => ih.bind ?_
      rintro rest tail ⟨rfl, matchedRest⟩
      refine spells_pure ⟨rfl, fun start => ?_⟩
      rw [List.append_nil, flagPlacesAll, recordsBytes, (matched start).length]
      exact (matched start).append (matchedRest _)

theorem spells_recordList {item : Read StreamError Prototype}
    (each : Spells item fun bytes prototype =>
      ∀ start, Matches start (flagPlaces start prototype) (recordBytes prototype) bytes) :
    Spells (list item) fun bytes list => ∃ nested, bytes = Wire.count list.length ++ nested ∧
      ∀ start, Matches start (flagPlacesAll start list) (recordsBytes list) nested := by
  refine Read.Spelled.bind (Spells.lift (Read.spelled_number 4)) fun count => ?_
  refine (spells_records each count).mono ?_
  rintro nested list ⟨rfl, matched⟩
  exact ⟨nested, rfl, matched⟩

/-- A record that was read is the record of its prototype up to unknown bits of flags. -/
theorem spells_record (levels : Nat) :
    Spells (record levels) fun bytes prototype =>
      ∀ start, Matches start (flagPlaces start prototype) (recordBytes prototype) bytes := by
  induction levels with
  | zero => exact spells_position fun _ => spells_throw _ _
  | succ levels ih =>
      rw [record]
      refine (spelled_sentinel partSentinel).bind fun _ => ?_
      refine Read.Spelled.bind (Spells.lift Read.spelled_text) fun name => ?_
      refine Read.Spelled.bind (Spells.lift Read.spelled_text) fun source => ?_
      refine (spelled_sentinel partSentinel).bind fun _ => ?_
      refine (spelled_list spelled_literal).bind fun literals => ?_
      refine (spelled_sentinel partSentinel).bind fun _ => ?_
      refine (spelled_list (Spells.lift Read.spelled_text)).bind fun parameters => ?_
      refine (spelled_sentinel partSentinel).bind fun _ => ?_
      refine (spelled_list spelled_capture).bind fun captures => ?_
      refine (spelled_sentinel partSentinel).bind fun _ => ?_
      refine (spelled_list spelled_lineMark).bind fun lines => ?_
      refine (spelled_sentinel partSentinel).bind fun _ => ?_
      refine (spelled_list (Spells.lift Read.spelled_instruction)).bind fun code => ?_
      refine (spelled_sentinel partSentinel).bind fun _ => ?_
      refine (spells_recordList ih).bind ?_
      rintro functions _ ⟨nested, rfl, matched⟩
      refine (spelled_sentinel partSentinel).bind fun _ => ?_
      refine Read.Spelled.bind (Spells.lift (Read.spelled_number 4)) fun stackSize => ?_
      refine Read.Spelled.map (Spells.lift Read.spelled_byte) fun flags => ?_
      have whole := matches_record
        ⟨name, source, literals.toArray, parameters.toArray, captures.toArray, lines.toArray,
          code.toArray, stackSize, flags &&& 1 != 0, flags &&& 2 != 0, functions⟩
        (flagsByte_known flags) matched
      simpa only [recordFront, sectionBytes, listBytes, Wire.count, Wire.byte,
        List.append_assoc] using whole

theorem spells_header : Spells header fun bytes _ => bytes = magic ++ Wire.word32 version := by
  refine (Spells.lift (Read.spells_bytes 4)).bind ?_
  rintro found _ ⟨rfl, -⟩
  refine (spells_require _ _).bind ?_
  rintro _ _ ⟨rfl, sameMagic⟩
  refine Read.Spelled.bind (Spells.lift Read.spelled_word32) fun current => ?_
  refine (spells_require _ _).mono ?_
  rintro _ _ ⟨rfl, sameVersion⟩
  rw [of_decide_eq_true sameMagic, of_decide_eq_true sameVersion, List.nil_append, List.append_nil]

theorem stream_of_decode {bytes : List UInt8} {prototype : Prototype}
    (decoded : decode bytes = .ok prototype) :
    ∃ last, stream (Reader.ofBytes bytes) = .ok prototype last := by
  rw [decode] at decoded
  split at decoded
  next read => exact ⟨_, Except.ok.inj decoded ▸ read⟩
  next => cases decoded

/-- What stands between the header and the end of an accepted stream is a record up to unknown
bits of flags, and the check is that of the bytes found there. -/
theorem layout_of_decode {bytes : List UInt8} {prototype : Prototype}
    (decoded : decode bytes = .ok prototype) :
    ∃ found, bytes = magic ++ Wire.word32 version ++ (found ++ (Wire.word32 tailSentinel ++
        Wire.word32 (Checksum.crc32 found))) ∧
      ∀ start, Matches start (flagPlaces start prototype) (recordBytes prototype) found := by
  obtain ⟨last, success⟩ := stream_of_decode decoded
  rw [stream] at success
  obtain ⟨_, reader, header, success⟩ := Read.bind_eq_ok.mp success
  obtain ⟨_, behindHeader, atHeader, rfl, rfl⟩ := spells_header _ _ _ header
  have atRecord := Reader.rest_behind atHeader
  generalize (Reader.ofBytes bytes).advance _ = start at atRecord success
  rw [position_bind_apply, Read.get_bind_apply] at success
  obtain ⟨result, reader, record, success⟩ := Read.bind_eq_ok.mp success
  obtain ⟨found, behindRecord, front, rfl, matched⟩ := spells_record _ _ _ _ record
  have atTail := Reader.rest_behind front
  rw [Read.get_bind_apply, Reader.since_advance front] at success
  generalize start.advance _ = behind at atTail success
  obtain ⟨_, reader, tail, success⟩ := Read.bind_eq_ok.mp success
  obtain ⟨_, behindTail, tailFront, rfl, rfl⟩ := spelled_sentinel _ _ _ _ tail
  have atCheck := Reader.rest_behind tailFront
  generalize behind.advance _ = check at atCheck success
  obtain ⟨expected, reader, word, success⟩ := Read.bind_eq_ok.mp success
  obtain ⟨_, behindCheck, checkFront, rfl, rfl⟩ := Spells.lift Read.spelled_word32 _ _ _ word
  have atEnd := Reader.rest_behind checkFront
  generalize check.advance _ = finish at atEnd success
  obtain ⟨_, reader, agrees, success⟩ := Read.bind_eq_ok.mp success
  obtain ⟨_, _, _, rfl, rfl, same⟩ := spells_require _ _ _ _ _ agrees
  rw [List.length_nil, Reader.advance_zero, Read.get_bind_apply] at success
  obtain ⟨_, reader, complete, success⟩ := Read.bind_eq_ok.mp success
  obtain ⟨-, -, -, -, -, none⟩ := spells_require _ _ _ _ _ complete
  obtain ⟨rfl, -⟩ := EStateM.Result.ok.inj success
  refine ⟨found, ?_, matched⟩
  have nothing : behindCheck = [] := by
    rw [Reader.remaining_eq, atEnd] at none
    exact List.eq_nil_of_length_eq_zero (of_decide_eq_true none)
  rw [← of_decide_eq_true same, ← List.append_nil (Wire.word32 expected), ← nothing,
    ← checkFront, atCheck, ← tailFront, atTail, ← front, atRecord]
  exact atHeader

/-! ## Streams -/

theorem and_three_eq_self_iff (byte : UInt8) : byte &&& 3 = byte ↔ byte ≤ 3 := by
  cases byte with
  | ofBitVec bits =>
    cases bits with
    | ofFin number =>
      revert number
      decide +kernel

/-- Every byte of flags in a stream of the prototype has known bits only. -/
def KnownFlags (prototype : Prototype) (bytes : List UInt8) : Prop :=
  ∀ place ∈ flagPlaces 8 prototype, ∀ byte, bytes[place]? = some byte → byte ≤ 3

theorem knownFlags_append {prototype : Prototype} {front : List UInt8} (after : List UInt8)
    (inside : ∀ place ∈ flagPlaces 8 prototype, place < front.length) :
    KnownFlags prototype (front ++ after) ↔ KnownFlags prototype front := by
  refine forall₂_congr fun place among => ?_
  rw [List.getElem?_append_left (inside place among)]

theorem knownFlags_iff {prototype : Prototype} {bytes : List UInt8} :
    KnownFlags prototype bytes ↔ known (flagPlaces 8 prototype) 0 bytes = bytes := by
  constructor
  · intro small
    refine List.ext_getElem? fun place => ?_
    rw [getElem?_known, Nat.zero_add]
    cases found : bytes[place]? with
    | none => rfl
    | some byte =>
        rw [Option.map_some]
        split
        next among => rw [(and_three_eq_self_iff byte).mpr (small place among byte found)]
        next => rfl
  · intro same place among byte found
    have here : (known (flagPlaces 8 prototype) 0 bytes)[place]? = _ := getElem?_known place
    rw [same, found, Option.map_some, Option.some.injEq, Nat.zero_add, if_pos among] at here
    exact (and_three_eq_self_iff byte).mp here.symm

/-- A stream up to its check. -/
def streamBody (record : List UInt8) : List UInt8 :=
  magic ++ Wire.word32 version ++ (record ++ Wire.word32 tailSentinel)

theorem encode_eq_body (prototype : Prototype) : encode prototype =
    streamBody (recordBytes prototype) ++
      Wire.word32 (Checksum.crc32 (recordBytes prototype)) := by
  simp only [encode, streamBody, List.append_assoc]

theorem body_of_decode {bytes : List UInt8} {prototype : Prototype}
    (decoded : decode bytes = .ok prototype) :
    ∃ found, bytes = streamBody found ++ Wire.word32 (Checksum.crc32 found) ∧
      Matches 8 (flagPlaces 8 prototype) (recordBytes prototype) found ∧
      Matches 0 (flagPlaces 8 prototype) (streamBody (recordBytes prototype))
        (streamBody found) := by
  obtain ⟨found, layout, matched⟩ := layout_of_decode decoded
  refine ⟨found, ?_, matched 8, ?_⟩
  · simpa only [streamBody, List.append_assoc] using layout
  · have header := matches_exact 0 (magic ++ Wire.word32 version)
    have whole := header.append ((matched _).append (matches_exact _ (Wire.word32 tailSentinel)))
    rwa [List.append_nil] at whole

theorem encode_eq_iff_of_decode {bytes : List UInt8} {prototype : Prototype}
    (decoded : decode bytes = .ok prototype) :
    encode prototype = bytes ↔ KnownFlags prototype bytes := by
  obtain ⟨found, rfl, matched, body⟩ := body_of_decode decoded
  have inside : ∀ place ∈ flagPlaces 8 prototype, place < (streamBody found).length :=
    fun place among => Nat.zero_add (streamBody found).length ▸ (body.inside place among).2
  rw [knownFlags_append _ inside, knownFlags_iff, ← body.same, encode_eq_body]
  constructor
  · exact fun same => List.append_inj_left same body.length
  · intro same
    have record : recordBytes prototype = found :=
      List.append_cancel_right (List.append_cancel_left same)
    rw [record]

/-- An accepted stream is the stream of its tree up to unknown bits of the flags and the check, so
exactly that stream when no flags have unknown bits. -/
theorem decode_canonical {bytes : List UInt8} {prototype : Prototype}
    (decoded : decode bytes = .ok prototype) :
    (encode prototype).length = bytes.length ∧
    (∀ place, place + 4 < bytes.length → (encode prototype)[place]? =
      bytes[place]?.map fun byte =>
        if place ∈ flagPlaces 8 prototype then byte &&& 3 else byte) ∧
    (∀ place ∈ flagPlaces 8 prototype, 8 ≤ place ∧ place + 8 < bytes.length) ∧
    (encode prototype = bytes ↔ KnownFlags prototype bytes) ∧
    ∀ other, decode other = .ok prototype → KnownFlags prototype bytes →
      KnownFlags prototype other → bytes = other := by
  have exact := encode_eq_iff_of_decode decoded
  obtain ⟨found, layout, matched, body⟩ := body_of_decode decoded
  have word (value : UInt32) : (Wire.word32 value).length = 4 := Wire.length_littleEndian ..
  refine ⟨?_, ?_, ?_, exact, ?_⟩
  · rw [encode_eq_body, layout, List.length_append, List.length_append, body.length, word, word]
  · intro place inside
    have before : place < (streamBody found).length := by
      rw [layout, List.length_append, word] at inside
      omega
    rw [encode_eq_body, layout, List.getElem?_append_left before,
      List.getElem?_append_left (body.length ▸ before), body.same, getElem?_known, Nat.zero_add]
  · intro place among
    have here := matched.inside place among
    have size : bytes.length = found.length + 16 := by
      rw [layout]
      simp only [streamBody, List.length_append, word, magic, List.length_cons, List.length_nil]
      omega
    omega
  · intro other decodedOther knownBytes knownOther
    calc bytes = encode prototype := (exact.mpr knownBytes).symm
      _ = other := (encode_eq_iff_of_decode decodedOther).mpr knownOther

/-- A generator inside a function. -/
def generatorTree : Prototype :=
  { name := "", functions := [{ name := "g", isGenerator := true }] }

/-- The record of that tree with unknown bits in the flags of both functions. -/
def flaggedRecord : List UInt8 :=
  recordFront generatorTree ++ ((recordsBytes generatorTree.functions).dropLast ++ [0x81] ++
    (sectionBytes (Wire.count 1) ++ [0xFC]))

/-- The stream of that record. -/
def flaggedStream : List UInt8 :=
  streamBody flaggedRecord ++ Wire.word32 (Checksum.crc32 flaggedRecord)

set_option maxRecDepth 20000 in
theorem decode_flaggedStream : decode flaggedStream = .ok generatorTree := by
  have accepted : (decode flaggedStream).toOption = some generatorTree := by decide +kernel
  revert accepted
  cases decode flaggedStream with
  | ok found => exact fun same => congrArg Except.ok (Option.some.inj same)
  | error cause => exact nofun

theorem decode_canonical_flaggedStream :
    decode flaggedStream = .ok generatorTree ∧ (encode generatorTree).length = 171 ∧
      encode generatorTree ≠ flaggedStream := by
  obtain ⟨length, -, -, exact, -⟩ := decode_canonical decode_flaggedStream
  refine ⟨decode_flaggedStream, length.trans (by decide +kernel), fun same => ?_⟩
  have small := exact.mp same 153 (by decide +kernel) 0x81 (by decide +kernel)
  exact absurd small (by decide)

end Stream

end ScriptMachine
