import ScriptMachine.Proofs.Stream.Canonical

/-!
# Streams that are cut short or continued

`Read.Needs` says of a read that it runs out of bytes on every proper front part of the bytes it
needs.  Reads in sequence need their bytes in sequence, so every proper front part of a stream is
read up to the cut and nothing else goes wrong before.  The bound on the nesting, which is taken
from the bytes that are left, has no say in this.
-/

namespace ScriptMachine

namespace Read

variable {ε α β : Type} {fault : DecodeError → ε}

/-- On a proper front part of these bytes the read runs out of bytes, at an offset not behind
them. -/
def Needs (fault : DecodeError → ε) (read : Read ε α) (bytes : List UInt8) : Prop :=
  ∀ reader : Reader, reader.rest <+: bytes → reader.rest.length < bytes.length →
    ∃ offset last, read reader = .error (fault (.unexpectedEnd offset)) last ∧
      offset ≤ reader.position + reader.rest.length

theorem needs_nothing (read : Read ε α) : Needs fault read [] :=
  fun _ _ short => absurd short (Nat.not_lt_zero _)

theorem Needs.first {read : Read ε α} {next : α → Read ε β} {bytes : List UInt8}
    (needs : Needs fault read bytes) : Needs fault (read >>= next) bytes := by
  intro reader front short
  obtain ⟨offset, last, failed, near⟩ := needs reader front short
  refine ⟨offset, last, ?_, near⟩
  change EStateM.bind read next reader = _
  rw [EStateM.bind, failed]

theorem Needs.bind {read : Read ε α} {next : α → Read ε β} {head tail : List UInt8} {value : α}
    (needs : Needs fault read head) (taken : Takes read head value)
    (second : Needs fault (next value) tail) : Needs fault (read >>= next) (head ++ tail) := by
  intro reader front short
  rcases Nat.lt_or_ge reader.rest.length head.length with inside | behind
  · have within : reader.rest <+: head :=
      List.prefix_of_prefix_length_le front (List.prefix_append head tail)
        (Nat.le_of_lt inside)
    exact needs.first reader within inside
  · obtain ⟨after, whole⟩ : head <+: reader.rest :=
      List.prefix_of_prefix_length_le (List.prefix_append head tail) front behind
    have left := Reader.rest_behind whole.symm
    rw [← whole, List.prefix_append_right_inj] at front
    rw [← whole, List.length_append, List.length_append] at short
    obtain ⟨offset, last, failed, near⟩ :=
      second (reader.advance head.length) (left ▸ front) (by rw [left]; omega)
    refine ⟨offset, last, (taken.bind_apply whole.symm).trans failed, ?_⟩
    rw [left] at near
    have moved : (reader.advance head.length).position = reader.position + head.length := rfl
    rw [← whole, List.length_append]
    omega

theorem needs_position {next : Nat → Read DecodeError β} {bytes : List UInt8}
    {fault : DecodeError → DecodeError} (second : ∀ offset, Needs fault (next offset) bytes) :
    Needs fault (position >>= next) bytes :=
  fun reader front short => second reader.position reader front short

theorem needs_items {item : Read ε β} {write : α → List UInt8} {image : α → β} {list : List α}
    (taken : ∀ element ∈ list, Takes item (write element) (image element))
    (needs : ∀ element ∈ list, Needs fault item (write element)) :
    Needs fault (items item list.length) (list.flatMap write) := by
  induction list with
  | nil => exact needs_nothing _
  | cons first rest ih =>
      have head := needs first (List.mem_cons_self ..)
      have tail := ih (fun element member => taken element (List.mem_cons_of_mem _ member))
        fun element member => needs element (List.mem_cons_of_mem _ member)
      exact head.bind (taken first (List.mem_cons_self ..)) tail.first

/-! ## Words, texts and instructions -/

theorem needs_bytes {width : Nat} {content : List UInt8} (sized : content.length = width) :
    Needs id (bytes width) content := by
  intro reader front short
  refine ⟨reader.position, reader, ?_, Nat.le_add_right ..⟩
  have missing : (reader.rest.take width).length ≠ width := by
    rw [List.length_take]
    omega
  rw [bytes, if_neg missing]
  rfl

theorem needs_number {width : Nat} {content : List UInt8} (sized : content.length = width) :
    Needs id (number width) content :=
  (needs_bytes sized).first

theorem needs_byte (value : UInt8) : Needs id byte (Wire.byte value) :=
  (needs_number rfl).first

theorem needs_word32 (value : UInt32) : Needs id word32 (Wire.word32 value) :=
  (needs_number (Wire.length_littleEndian ..)).first

theorem needs_int32 (value : Int32) : Needs id int32 (Wire.int32 value) :=
  (needs_word32 value.toUInt32).first

theorem needs_int64 (value : Int64) : Needs id int64 (Wire.int64 value) :=
  (needs_number (Wire.length_littleEndian ..)).first

theorem needs_float64 (value : Binary64) : Needs id float64 (Wire.float64 value) :=
  (needs_number (Wire.length_littleEndian ..)).first

theorem needs_count (n : Nat) : Needs id (number 4) (Wire.count n) :=
  needs_number (Wire.length_littleEndian ..)

theorem needs_text {value : String} (fits : value.utf8ByteSize < 2 ^ 32) :
    Needs id text (Wire.text value) := by
  have length : value.toUTF8.toList.length = value.utf8ByteSize := by
    rw [toList_toUTF8]
    rfl
  exact (needs_count _).bind (takes_count fits) (needs_position fun _ => (needs_bytes length).first)

theorem needs_opcode (op : Opcode) : Needs id opcode (Wire.opcode op) :=
  (needs_byte op.code).first

theorem needs_instruction (value : Instruction) :
    Needs id instruction (Wire.instruction value) := by
  simp only [Wire.instruction, List.append_assoc]
  refine (needs_opcode value.op).bind (takes_opcode value.op) ?_
  refine (needs_byte value.first).bind (takes_byte value.first) ?_
  refine (needs_byte value.second).bind (takes_byte value.second) ?_
  refine (needs_byte value.third).bind (takes_byte value.third) ?_
  exact (needs_int32 value.wide).first

end Read

namespace Stream

open Read (Takes Needs Spells)

variable {α β : Type}

theorem Needs.lift {read : Read DecodeError α} {bytes : List UInt8} (needs : Needs id read bytes) :
    Needs StreamError.decode (lift read) bytes := by
  intro reader front short
  obtain ⟨offset, last, failed, near⟩ := needs reader front short
  exact ⟨offset, last, by rw [Stream.lift, failed]; rfl, near⟩

theorem needs_position {next : Nat → Read StreamError β} {bytes : List UInt8}
    (second : ∀ offset, Needs StreamError.decode (next offset) bytes) :
    Needs StreamError.decode (lift Read.position >>= next) bytes :=
  fun reader front short => second reader.position reader front short

theorem needs_sentinel (expected : UInt32) :
    Needs StreamError.decode (sentinel expected) (Wire.word32 expected) :=
  needs_position fun _ => (Needs.lift (Read.needs_word32 expected)).first

theorem needs_section {next : Unit → Read StreamError β} {content tail : List UInt8}
    (second : Needs StreamError.decode (next ()) (content ++ tail)) :
    Needs StreamError.decode (sentinel partSentinel >>= next) (sectionBytes content ++ tail) := by
  rw [sectionBytes, List.append_assoc]
  exact (needs_sentinel partSentinel).bind (takes_sentinel partSentinel) second

theorem needs_literal {value : Literal} (fits : value.Fits) :
    Needs StreamError.decode literal (literalBytes value) := by
  refine needs_position fun offset => ?_
  have taken (code : UInt8) := Takes.lift (Read.takes_byte code)
  have tag (code : UInt8) := Needs.lift (Read.needs_byte code)
  cases value with
  | null => exact (tag 0).first
  | bool value =>
      cases value with
      | false => exact (tag 1).first
      | true => exact (tag 2).first
  | integer value => exact (tag 3).bind (taken 3) (Needs.lift (Read.needs_int64 value)).first
  | float value => exact (tag 4).bind (taken 4) (Needs.lift (Read.needs_float64 value)).first
  | string value => exact (tag 5).bind (taken 5) (Needs.lift (Read.needs_text fits)).first

theorem needs_capture {value : Capture} (fits : value.Fits) :
    Needs StreamError.decode capture (captureBytes value) := by
  obtain ⟨name, source⟩ := value
  have taken (code : UInt8) := Takes.lift (Read.takes_byte code)
  have tag (code : UInt8) := Needs.lift (Read.needs_byte code)
  refine (Needs.lift (Read.needs_text fits.1)).bind (Takes.lift (Read.takes_text fits.1))
    (needs_position fun offset => ?_)
  cases source with
  | register number => exact (tag 0).bind (taken 0) (Needs.lift (Read.needs_word32 number)).first
  | outer index => exact (tag 1).bind (taken 1) (Needs.lift (Read.needs_word32 index)).first
  | symbol name => exact (tag 2).bind (taken 2) (Needs.lift (Read.needs_text fits.2)).first

theorem needs_lineMark (mark : LineMark) : Needs StreamError.decode lineMark (lineBytes mark) :=
  (Needs.lift (Read.needs_word32 mark.line)).bind (Takes.lift (Read.takes_word32 mark.line))
    (Needs.lift (Read.needs_word32 mark.index)).first

theorem needs_list {item : Read StreamError β} {write : α → List UInt8} {image : α → β}
    {items : List α} (fits : items.length < 2 ^ 32)
    (taken : ∀ element ∈ items, Takes item (write element) (image element))
    (needs : ∀ element ∈ items, Needs StreamError.decode item (write element)) :
    Needs StreamError.decode (list item) (listBytes write items) :=
  (Needs.lift (Read.needs_count _)).bind (Takes.lift (Read.takes_count fits))
    (Read.needs_items taken needs)

/-- A record needs all its bytes when the bound on the nesting exceeds their number. -/
theorem needs_record {levels : Nat} {prototype : Prototype}
    (fits : ∀ function : Prototype, function.Within prototype → function.Fits)
    (bound : (recordBytes prototype).length < levels) :
    Needs StreamError.decode (record levels) (recordBytes prototype) := by
  induction levels generalizing prototype with
  | zero => exact absurd bound (Nat.not_lt_zero _)
  | succ levels ih =>
      have own := fits prototype .self
      have inside : ∀ function ∈ prototype.functions, (recordBytes function).length < levels :=
        fun function member =>
          Nat.lt_of_lt_of_le (length_recordBytes_lt member) (Nat.le_of_lt_succ bound)
      have within : ∀ function ∈ prototype.functions, ∀ inner : Prototype,
          inner.Within function → inner.Fits :=
        fun function member inner inside => fits inner (inside.of_mem member)
      have literals := fun value member => takes_literal (own.literal value member)
      have parameters := fun value member =>
        Takes.lift (Read.takes_text (own.parameter value member))
      have captures := fun value member => takes_capture (own.capture value member)
      have lines := fun mark (_ : mark ∈ prototype.lines.toList) => takes_lineMark mark
      have code := fun instruction (_ : instruction ∈ prototype.code.toList) =>
        Takes.lift (Read.takes_instruction instruction)
      have nested := fun function member => takes_record (within function member)
        (inside function member)
      rw [record, recordBytes_eq]
      simp only [List.append_assoc]
      refine needs_section ?_
      simp only [List.append_assoc]
      refine (Needs.lift (Read.needs_text own.name)).bind (Takes.lift (Read.takes_text own.name)) ?_
      refine (Needs.lift (Read.needs_text own.source)).bind
        (Takes.lift (Read.takes_text own.source)) ?_
      refine needs_section ((needs_list own.literals literals fun _ member =>
        needs_literal (own.literal _ member)).bind (takes_list own.literals literals) ?_)
      refine needs_section ((needs_list own.parameters parameters fun _ member =>
        Needs.lift (Read.needs_text (own.parameter _ member))).bind
          (takes_list own.parameters parameters) ?_)
      refine needs_section ((needs_list own.captures captures fun _ member =>
        needs_capture (own.capture _ member)).bind (takes_list own.captures captures) ?_)
      refine needs_section ((needs_list own.lines lines fun mark _ =>
        needs_lineMark mark).bind (takes_list own.lines lines) ?_)
      refine needs_section ((needs_list own.code code fun instruction _ =>
        Needs.lift (Read.needs_instruction instruction)).bind (takes_list own.code code) ?_)
      refine needs_section ((needs_list own.functions nested fun function member =>
        ih (within function member) (inside function member)).bind
          (takes_list own.functions nested) ?_)
      refine (needs_sentinel partSentinel).bind (takes_sentinel partSentinel) ?_
      refine (Needs.lift (Read.needs_count _)).bind
        (Takes.lift (Read.takes_number_littleEndian 4 prototype.stackSize)) ?_
      exact (Needs.lift (Read.needs_byte _)).first

theorem needs_header : Needs StreamError.decode header (magic ++ Wire.word32 version) := by
  refine (Needs.lift (Read.needs_bytes (show magic.length = 4 from rfl))).bind
    (Takes.lift (Read.takes_bytes magic)) ?_
  rw [← List.nil_append (Wire.word32 version)]
  exact (Read.needs_nothing _).bind (takes_require (by simp) _)
    (Needs.lift (Read.needs_word32 version)).first

/-! ## The bound on the nesting -/

/-- The reads do the same wherever fewer bytes than the bound are left. -/
def SameBelow (bound : Nat) (read other : Read StreamError α) : Prop :=
  ∀ reader : Reader, reader.rest.length < bound → read reader = other reader

theorem SameBelow.refl (bound : Nat) (read : Read StreamError α) : SameBelow bound read read :=
  fun _ _ => rfl

/-- What follows a read meets no more bytes than were left before. -/
theorem SameBelow.bind {bound : Nat} {read other : Read StreamError α}
    {next after : α → Read StreamError β} {form : List UInt8 → α → Prop}
    (first : SameBelow bound read other) (spells : Spells read form)
    (second : ∀ value, SameBelow bound (next value) (after value)) :
    SameBelow bound (read >>= next) (other >>= after) := by
  intro reader few
  change EStateM.bind read next reader = EStateM.bind other after reader
  rw [EStateM.bind, EStateM.bind, ← first reader few]
  cases result : read reader with
  | error cause last => rfl
  | ok value last =>
      obtain ⟨bytes, rest, front, rfl, -⟩ := spells reader last value result
      refine second value _ ?_
      rw [Reader.rest_behind front]
      rw [front, List.length_append] at few
      omega

/-- A sentinel takes bytes, so what follows it may be bounded more tightly. -/
theorem SameBelow.sentinel {bound : Nat} {next after : Unit → Read StreamError β}
    (second : SameBelow bound (next ()) (after ())) (expected : UInt32) :
    SameBelow (bound + 1) (sentinel expected >>= next) (sentinel expected >>= after) := by
  intro reader few
  change EStateM.bind _ next reader = EStateM.bind _ after reader
  rw [EStateM.bind, EStateM.bind]
  cases result : Stream.sentinel expected reader with
  | error cause last => rfl
  | ok value last =>
      obtain ⟨bytes, rest, front, rfl, rfl⟩ := spelled_sentinel expected reader last value result
      refine second _ ?_
      rw [Reader.rest_behind front]
      rw [front, List.length_append, Wire.word32, Wire.length_littleEndian] at few
      omega

theorem spells_items {item : Read StreamError α} {form : List UInt8 → α → Prop}
    (spells : Spells item form) (count : Nat) :
    Spells (Read.items item count) fun _ _ => True := by
  induction count with
  | zero => exact Read.spells_pure trivial
  | succ count ih =>
      exact spells.bind fun _ _ _ => ih.bind fun _ _ _ => Read.spells_pure trivial

theorem SameBelow.items {bound : Nat} {item other : Read StreamError α}
    {form : List UInt8 → α → Prop} (same : SameBelow bound item other) (spells : Spells item form)
    (count : Nat) : SameBelow bound (Read.items item count) (Read.items other count) := by
  induction count with
  | zero => exact SameBelow.refl bound _
  | succ count ih =>
      exact same.bind spells fun _ =>
        ih.bind (spells_items spells count) fun _ => SameBelow.refl bound _

theorem SameBelow.list {bound : Nat} {item other : Read StreamError α}
    {form : List UInt8 → α → Prop} (same : SameBelow bound item other)
    (spells : Spells item form) : SameBelow bound (list item) (list other) :=
  (SameBelow.refl bound _).bind (Spells.lift (Read.spelled_number 4)) fun count =>
    same.items spells count

/-- The bound on the nesting has no say as long as it exceeds the number of bytes left: every level
takes a sentinel before it asks for the next one. -/
theorem sameBelow_record {bound levels others : Nat} (enough : bound ≤ levels)
    (also : bound ≤ others) : SameBelow bound (record levels) (record others) := by
  induction bound generalizing levels others with
  | zero => exact fun _ few => absurd few (Nat.not_lt_zero _)
  | succ bound ih =>
      obtain ⟨levels, rfl⟩ := Nat.exists_eq_add_one_of_ne_zero (Nat.ne_zero_of_lt enough)
      obtain ⟨others, rfl⟩ := Nat.exists_eq_add_one_of_ne_zero (Nat.ne_zero_of_lt also)
      have nested : SameBelow bound (list (record levels)) (list (record others)) :=
        (ih (Nat.le_of_succ_le_succ enough) (Nat.le_of_succ_le_succ also)).list
          (spells_record levels)
      have text := Spells.lift Read.spelled_text
      have mark := spelled_sentinel partSentinel
      have same {γ : Type} (read : Read StreamError γ) := SameBelow.refl bound read
      rw [record, record]
      refine SameBelow.sentinel ?_ partSentinel
      refine (same _).bind text fun name => (same _).bind text fun source => ?_
      refine (same _).bind mark fun _ => (same _).bind (spelled_list spelled_literal) fun _ => ?_
      refine (same _).bind mark fun _ => (same _).bind (spelled_list text) fun _ => ?_
      refine (same _).bind mark fun _ => (same _).bind (spelled_list spelled_capture) fun _ => ?_
      refine (same _).bind mark fun _ => (same _).bind (spelled_list spelled_lineMark) fun _ => ?_
      refine (same _).bind mark fun _ =>
        (same _).bind (spelled_list (Spells.lift Read.spelled_instruction)) fun _ => ?_
      refine (same _).bind mark fun _ =>
        nested.bind (spells_recordList (spells_record levels)) fun _ => ?_
      exact same _

/-! ## Streams -/

theorem needs_get {next : Reader → Read StreamError β} {bytes : List UInt8}
    (second : ∀ reader, Needs StreamError.decode (next reader) bytes) :
    Needs StreamError.decode (get >>= next) bytes :=
  fun reader front short => second reader reader front short

/-- A stream needs all its bytes. -/
theorem needs_stream {prototype : Prototype}
    (fits : ∀ function : Prototype, function.Within prototype → function.Fits) :
    Needs StreamError.decode stream (encode prototype) := by
  have whole : encode prototype = magic ++ Wire.word32 version ++ (recordBytes prototype ++
      (Wire.word32 tailSentinel ++ Wire.word32 (Checksum.crc32 (recordBytes prototype)))) := by
    simp only [encode, List.append_assoc]
  rw [whole, stream]
  refine needs_header.bind takes_header (needs_position fun start => ?_)
  intro reader front short
  rw [Read.get_bind_apply]
  -- The bytes left may be too few to bound the nesting of the record that was cut.
  have enough : (recordBytes prototype).length <
      max (reader.remaining + 1) ((recordBytes prototype).length + 1) :=
    Nat.lt_of_lt_of_le (Nat.lt_succ_self _) (Nat.le_max_right ..)
  have same := sameBelow_record (Nat.le_refl (reader.remaining + 1))
    (Nat.le_max_left (reader.remaining + 1) ((recordBytes prototype).length + 1))
  rw [same.bind (spells_record _) (fun _ => SameBelow.refl _ _) reader (Nat.lt_succ_self _)]
  refine (needs_record fits enough).bind (takes_record fits enough) ?_ reader front short
  refine needs_get fun _ => ?_
  refine (needs_sentinel tailSentinel).bind (takes_sentinel tailSentinel) ?_
  exact (Needs.lift (Read.needs_word32 _)).first

/-- A proper front part of a stream runs out of bytes, at an offset not behind the cut, and of a
stream that is continued the bytes that follow are reported. -/
theorem decode_delimited (prototype : Prototype)
    (fits : ∀ function : Prototype, function.Within prototype → function.Fits) :
    (∀ cut < (encode prototype).length, ∃ offset ≤ cut,
      decode ((encode prototype).take cut) = .error (.decode (.unexpectedEnd offset))) ∧
    ∀ after ≠ [], decode (encode prototype ++ after) = .error (.trailing after.length) := by
  constructor
  · intro cut inside
    have front := List.take_prefix cut (encode prototype)
    have size : (Reader.ofBytes ((encode prototype).take cut)).rest.length = cut :=
      List.length_take_of_le (Nat.le_of_lt inside)
    obtain ⟨offset, last, failed, near⟩ := needs_stream fits _ front (by rwa [size])
    refine ⟨offset, ?_, ?_⟩
    · rw [size] at near
      exact Nat.le_trans near (Nat.le_of_eq (Nat.zero_add cut))
    · rw [decode, failed]
  · intro after more
    obtain ⟨reader, read⟩ := stream_encode_append fits after
    have none : (decide (after.length = 0)) = false := by
      simpa using more
    rw [decode, read, none]
    rfl

theorem fits_generatorTree :
    ∀ function : Prototype, function.Within generatorTree → function.Fits := by
  rw [Prototype.forall_within]
  refine ⟨?_, ?_⟩
  · constructor
    all_goals simp [generatorTree]
    decide
  · intro nested member
    obtain rfl := List.mem_singleton.mp member
    rw [Prototype.forall_within]
    refine ⟨?_, by simp⟩
    constructor <;> simp <;> decide

theorem decode_delimited_generatorTree :
    (∃ offset ≤ 100,
      decode ((encode generatorTree).take 100) = .error (.decode (.unexpectedEnd offset))) ∧
      decode (encode generatorTree ++ [0x50, 0x41]) = .error (.trailing 2) := by
  obtain ⟨cut, continued⟩ := decode_delimited generatorTree fits_generatorTree
  exact ⟨cut 100 (by decide +kernel), continued [0x50, 0x41] (by decide)⟩

end Stream

end ScriptMachine
