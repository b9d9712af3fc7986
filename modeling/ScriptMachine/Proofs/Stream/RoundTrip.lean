import ScriptMachine.Proofs.Bytecode.Accepted
import ScriptMachine.Proofs.Stream.Reading

/-!
# The round trip of a stream

A stream that was written reads back as the tree it was written from, except that a frame size is
written in four bytes and loses everything above them.  The law holds for every tree whose texts
and lists have lengths that fit the four bytes of a count.
-/

namespace ScriptMachine

/-- The texts of a literal have lengths that fit four bytes. -/
def Literal.Fits : Literal → Prop
  | .string value => value.utf8ByteSize < 2 ^ 32
  | _ => True

/-- The texts of a source have lengths that fit four bytes. -/
def CaptureSource.Fits : CaptureSource → Prop
  | .symbol name => name.utf8ByteSize < 2 ^ 32
  | _ => True

/-- The texts of a captured variable have lengths that fit four bytes. -/
def Capture.Fits (capture : Capture) : Prop :=
  capture.name.utf8ByteSize < 2 ^ 32 ∧ capture.source.Fits

namespace Prototype

/-- The texts and lists of one function, the nested functions aside, have lengths that fit four
bytes. -/
structure Fits (prototype : Prototype) : Prop where
  /-- The name. -/
  name : prototype.name.utf8ByteSize < 2 ^ 32
  /-- The name of the source file. -/
  source : prototype.source.utf8ByteSize < 2 ^ 32
  /-- The literal pool. -/
  literals : prototype.literals.size < 2 ^ 32
  /-- Every literal. -/
  literal : ∀ value ∈ prototype.literals.toList, value.Fits
  /-- The parameters. -/
  parameters : prototype.parameters.size < 2 ^ 32
  /-- Every parameter. -/
  parameter : ∀ value ∈ prototype.parameters.toList, value.utf8ByteSize < 2 ^ 32
  /-- The captured variables. -/
  captures : prototype.captures.size < 2 ^ 32
  /-- Every captured variable. -/
  capture : ∀ value ∈ prototype.captures.toList, value.Fits
  /-- The line table. -/
  lines : prototype.lines.size < 2 ^ 32
  /-- The instructions. -/
  code : prototype.code.size < 2 ^ 32
  /-- The nested functions. -/
  functions : prototype.functions.length < 2 ^ 32

mutual

/-- The tree with every frame size reduced to its low four bytes. -/
def narrowed : Prototype → Prototype
  | ⟨name, source, literals, parameters, captures, lines, code, stackSize, isGenerator, isVariadic,
      functions⟩ =>
    ⟨name, source, literals, parameters, captures, lines, code, stackSize % 2 ^ 32, isGenerator,
      isVariadic, narrowedAll functions⟩

/-- The trees with every frame size reduced to its low four bytes. -/
def narrowedAll : List Prototype → List Prototype
  | [] => []
  | prototype :: rest => narrowed prototype :: narrowedAll rest

end

variable (prototype : Prototype)

theorem narrowedAll_eq_map (list : List Prototype) : narrowedAll list = list.map narrowed := by
  induction list with
  | nil => rw [narrowedAll, List.map_nil]
  | cons first rest ih => rw [narrowedAll, ih, List.map_cons]

theorem narrowed_eq : prototype.narrowed =
    { prototype with
      stackSize := prototype.stackSize % 2 ^ 32
      functions := prototype.functions.map narrowed } := by
  cases prototype
  rw [narrowed, narrowedAll_eq_map]

variable {prototype}

theorem Within.trans {inner middle outer : Prototype} (first : inner.Within middle)
    (second : middle.Within outer) : inner.Within outer := by
  induction first with
  | self => exact second
  | nested member _ ih => exact .nested member (ih second)

theorem Within.of_mem {inner function : Prototype} (inside : inner.Within function)
    (member : function ∈ prototype.functions) : inner.Within prototype :=
  inside.trans (.nested member .self)

/-- A function of a tree is its root or a function of one of the trees nested in the root. -/
theorem forall_within {P : Prototype → Prop} :
    (∀ function : Prototype, function.Within prototype → P function) ↔
      P prototype ∧ ∀ nested ∈ prototype.functions,
        ∀ function : Prototype, function.Within nested → P function := by
  constructor
  · intro all
    exact ⟨all _ .self, fun nested member function inside => all _ (inside.of_mem member)⟩
  · rintro ⟨own, nested⟩ function inside
    have split : function = prototype ∨
        ∃ root ∈ prototype.functions, function.Within root := by
      induction inside with
      | self => exact .inl rfl
      | nested member _ ih =>
          rcases ih own nested with rfl | ⟨root, among, inside⟩
          · exact .inr ⟨_, member, .self⟩
          · exact .inr ⟨root, among, .nested member inside⟩
    rcases split with rfl | ⟨root, among, inside⟩
    · exact own
    · exact nested root among function inside

mutual

theorem narrowed_eq_self_iff : (prototype : Prototype) →
    (prototype.narrowed = prototype ↔
      ∀ function : Prototype, function.Within prototype → function.stackSize < 2 ^ 32)
  | ⟨name, source, literals, parameters, captures, lines, code, stackSize, isGenerator, isVariadic,
      functions⟩ => by
    rw [narrowed, forall_within, ← narrowedAll_eq_self_iff functions,
      ← Nat.mod_eq_iff_lt (by decide)]
    simp only [mk.injEq, true_and]

theorem narrowedAll_eq_self_iff : (list : List Prototype) →
    (narrowedAll list = list ↔ ∀ prototype ∈ list, ∀ function : Prototype,
      function.Within prototype → function.stackSize < 2 ^ 32)
  | [] => by simp [narrowedAll]
  | first :: rest => by
    rw [narrowedAll, List.cons.injEq, narrowed_eq_self_iff first, narrowedAll_eq_self_iff rest,
      List.forall_mem_cons]

end

end Prototype

namespace Stream

open Read (Takes takes_pure)

variable {α β : Type}

theorem Takes.lift {read : Read DecodeError α} {bytes : List UInt8} {value : α}
    (taken : Takes read bytes value) : Takes (lift read) bytes value := by
  intro reader after front
  rw [Stream.lift, taken reader after front]

theorem position_bind_apply (next : Nat → Read StreamError β) (reader : Reader) :
    (lift Read.position >>= next) reader = next reader.position reader := rfl

/-- Asking for the position takes nothing. -/
theorem takes_position {next : Nat → Read StreamError β} {bytes : List UInt8} {result : β}
    (second : ∀ offset, Takes (next offset) bytes result) :
    Takes (lift Read.position >>= next) bytes result :=
  fun reader after front => second reader.position reader after front

theorem takes_require {condition : Bool} (holds : condition = true) (cause : StreamError) :
    Takes (require condition cause) [] () := by
  rw [require, if_pos holds]
  exact takes_pure ()

theorem takes_sentinel (expected : UInt32) :
    Takes (sentinel expected) (Wire.word32 expected) () := by
  refine takes_position fun offset => ?_
  rw [← List.append_nil (Wire.word32 expected)]
  exact (Takes.lift (Read.takes_word32 expected)).bind (takes_require (by simp) _)

theorem takes_header : Takes header (magic ++ Wire.word32 version) () := by
  refine (Takes.lift (Read.takes_bytes magic)).bind ?_
  rw [← List.nil_append (Wire.word32 version)]
  refine (takes_require (by simp) _).bind ?_
  rw [← List.append_nil (Wire.word32 version)]
  exact (Takes.lift (Read.takes_word32 version)).bind (takes_require (by simp) _)

theorem takes_section {next : Unit → Read StreamError β} {content tail : List UInt8} {result : β}
    (second : Takes (next ()) (content ++ tail) result) :
    Takes (sentinel partSentinel >>= next) (sectionBytes content ++ tail) result := by
  rw [sectionBytes, List.append_assoc]
  exact (takes_sentinel partSentinel).bind second

theorem takes_literal {value : Literal} (fits : value.Fits) :
    Takes literal (literalBytes value) value := by
  refine takes_position fun offset => ?_
  have tag (code : UInt8) := Takes.lift (Read.takes_byte code)
  cases value with
  | null => exact (tag 0).bind (takes_pure _)
  | bool value =>
      cases value with
      | false => exact (tag 1).bind (takes_pure _)
      | true => exact (tag 2).bind (takes_pure _)
  | integer value => exact (tag 3).bind ((Takes.lift (Read.takes_int64 value)).map _)
  | float value => exact (tag 4).bind ((Takes.lift (Read.takes_float64 value)).map _)
  | string value => exact (tag 5).bind ((Takes.lift (Read.takes_text fits)).map _)

theorem takes_capture {value : Capture} (fits : value.Fits) :
    Takes capture (captureBytes value) value := by
  obtain ⟨name, source⟩ := value
  have tag (code : UInt8) := Takes.lift (Read.takes_byte code)
  refine (Takes.lift (Read.takes_text fits.1)).bind (takes_position fun offset => ?_)
  cases source with
  | register number => exact (tag 0).bind ((Takes.lift (Read.takes_word32 number)).map _)
  | outer index => exact (tag 1).bind ((Takes.lift (Read.takes_word32 index)).map _)
  | symbol name => exact (tag 2).bind ((Takes.lift (Read.takes_text fits.2)).map _)

theorem takes_lineMark (mark : LineMark) : Takes lineMark (lineBytes mark) mark :=
  (Takes.lift (Read.takes_word32 mark.line)).bind
    ((Takes.lift (Read.takes_word32 mark.index)).map _)

theorem takes_list {item : Read StreamError β} {write : α → List UInt8} {image : α → β}
    {items : List α} (fits : items.length < 2 ^ 32)
    (each : ∀ element ∈ items, Takes item (write element) (image element)) :
    Takes (list item) (listBytes write items) (items.map image) :=
  (Takes.lift (Read.takes_count fits)).bind (Read.takes_items each)

theorem recordsBytes_eq_flatMap (prototypes : List Prototype) :
    recordsBytes prototypes = prototypes.flatMap recordBytes := by
  induction prototypes with
  | nil => rw [recordsBytes, List.flatMap_nil]
  | cons first rest ih => rw [recordsBytes, ih, List.flatMap_cons]

theorem recordBytes_eq (prototype : Prototype) : recordBytes prototype =
    sectionBytes (Wire.text prototype.name ++ Wire.text prototype.source) ++
    sectionBytes (listBytes literalBytes prototype.literals.toList) ++
    sectionBytes (listBytes Wire.text prototype.parameters.toList) ++
    sectionBytes (listBytes captureBytes prototype.captures.toList) ++
    sectionBytes (listBytes lineBytes prototype.lines.toList) ++
    sectionBytes (listBytes Wire.instruction prototype.code.toList) ++
    sectionBytes (listBytes recordBytes prototype.functions) ++
    sectionBytes (Wire.count prototype.stackSize ++
      [flagsByte prototype.isGenerator prototype.isVariadic]) := by
  cases prototype
  rw [recordBytes, recordsBytes_eq_flatMap]
  rfl

theorem length_sectionBytes (content : List UInt8) :
    (sectionBytes content).length = 4 + content.length := by
  simp [sectionBytes, Wire.word32]

theorem length_recordBytes_lt {function prototype : Prototype}
    (member : function ∈ prototype.functions) :
    (recordBytes function).length < (recordBytes prototype).length := by
  have among : recordBytes function ∈ prototype.functions.map recordBytes :=
    List.mem_map_of_mem member
  have part := (List.sublist_flatten_of_mem among).length_le
  rw [← List.flatMap_def] at part
  have whole : (listBytes recordBytes prototype.functions).length =
      4 + (prototype.functions.flatMap recordBytes).length := by
    simp [listBytes, Wire.count]
  have more := length_sectionBytes (listBytes recordBytes prototype.functions)
  rw [recordBytes_eq prototype]
  simp only [List.length_append]
  omega

theorem flagsByte_generator (isGenerator isVariadic : Bool) :
    (flagsByte isGenerator isVariadic &&& 1 != 0) = isGenerator := by
  cases isGenerator <;> cases isVariadic <;> rfl

theorem flagsByte_variadic (isGenerator isVariadic : Bool) :
    (flagsByte isGenerator isVariadic &&& 2 != 0) = isVariadic := by
  cases isGenerator <;> cases isVariadic <;> rfl

/-- A record reads back when the bound on the nesting exceeds its length: every level of nesting
takes at least one byte more. -/
theorem takes_record {levels : Nat} {prototype : Prototype}
    (fits : ∀ function : Prototype, function.Within prototype → function.Fits)
    (bound : (recordBytes prototype).length < levels) :
    Takes (record levels) (recordBytes prototype) prototype.narrowed := by
  induction levels generalizing prototype with
  | zero => exact absurd bound (Nat.not_lt_zero _)
  | succ levels ih =>
      have own := fits prototype .self
      have nested : ∀ function ∈ prototype.functions,
          Takes (record levels) (recordBytes function) function.narrowed :=
        fun function member => ih (fun inner inside => fits inner (inside.of_mem member))
          (Nat.lt_of_lt_of_le (length_recordBytes_lt member) (Nat.le_of_lt_succ bound))
      rw [record, recordBytes_eq, Prototype.narrowed_eq]
      simp only [List.append_assoc]
      refine takes_section ?_
      simp only [List.append_assoc]
      refine (Takes.lift (Read.takes_text own.name)).bind ?_
      refine (Takes.lift (Read.takes_text own.source)).bind ?_
      refine takes_section ((takes_list own.literals fun _ member =>
        takes_literal (own.literal _ member)).bind ?_)
      refine takes_section ((takes_list own.parameters fun _ member =>
        Takes.lift (Read.takes_text (own.parameter _ member))).bind ?_)
      refine takes_section ((takes_list own.captures fun _ member =>
        takes_capture (own.capture _ member)).bind ?_)
      refine takes_section ((takes_list own.lines fun mark _ => takes_lineMark mark).bind ?_)
      refine takes_section ((takes_list own.code fun instruction _ =>
        Takes.lift (Read.takes_instruction instruction)).bind ?_)
      refine takes_section ((takes_list own.functions nested).bind ?_)
      refine (takes_sentinel partSentinel).bind ?_
      refine (Takes.lift (Read.takes_number_littleEndian 4 prototype.stackSize)).bind ?_
      have flags := Takes.lift (Read.takes_byte
        (flagsByte prototype.isGenerator prototype.isVariadic))
      exact (flags.map _).of_eq (by simp [flagsByte_generator, flagsByte_variadic])

/-- Everything but the last demand, that no bytes follow, is met by a stream that was written. -/
theorem stream_encode_append {prototype : Prototype}
    (fits : ∀ function : Prototype, function.Within prototype → function.Fits)
    (after : List UInt8) :
    ∃ reader, stream (Reader.ofBytes (encode prototype ++ after)) =
      (require (after.length = 0) (.trailing after.length) >>= fun _ =>
        pure prototype.narrowed) reader := by
  have atHeader : (Reader.ofBytes (encode prototype ++ after)).rest =
      (magic ++ Wire.word32 version) ++ (recordBytes prototype ++ (Wire.word32 tailSentinel ++
        (Wire.word32 (Checksum.crc32 (recordBytes prototype)) ++ after))) := by
    simp [encode]
  rw [stream, takes_header.bind_apply atHeader, position_bind_apply, Read.get_bind_apply]
  have atRecord := Reader.rest_behind atHeader
  generalize (Reader.ofBytes _).advance _ = start at atRecord
  have levels : (recordBytes prototype).length < start.remaining + 1 := by
    rw [Reader.remaining_eq, atRecord, List.length_append]
    omega
  rw [(takes_record fits levels).bind_apply atRecord, Read.get_bind_apply,
    Reader.since_advance atRecord]
  have atTail := Reader.rest_behind atRecord
  rw [(takes_sentinel tailSentinel).bind_apply atTail]
  have atCheck := Reader.rest_behind atTail
  rw [(Takes.lift (Read.takes_word32 _)).bind_apply atCheck]
  have atEnd := Reader.rest_behind atCheck
  generalize Reader.advance _ (Wire.word32 (Checksum.crc32 _)).length = last at atEnd
  rw [(takes_require (by simp) _).bind_apply (List.nil_append _).symm, List.length_nil,
    Reader.advance_zero, Read.get_bind_apply, Reader.remaining_eq, atEnd]
  exact ⟨last, rfl⟩

/-- A stream that was written reads back as its tree with narrowed frame sizes, so as the tree
itself exactly when every frame size fits four bytes. -/
theorem decode_encode (prototype : Prototype)
    (fits : ∀ function : Prototype, function.Within prototype → function.Fits) :
    decode (encode prototype) = .ok prototype.narrowed ∧
      (decode (encode prototype) = .ok prototype ↔
        ∀ function : Prototype, function.Within prototype → function.stackSize < 2 ^ 32) := by
  have decoded : decode (encode prototype) = .ok prototype.narrowed := by
    obtain ⟨reader, read⟩ := stream_encode_append fits []
    rw [List.append_nil] at read
    rw [decode, read]
    rfl
  refine ⟨decoded, ?_⟩
  rw [decoded, Except.ok.injEq]
  exact Prototype.narrowed_eq_self_iff prototype

/-- A function whose frame size needs more than four bytes, inside one that captures for it. -/
def wideTree : Prototype :=
  { name := "main"
    literals := #[.string "größe", .float ⟨0x7FF8000000000001⟩]
    stackSize := 2
    code := #[⟨.closure, 1, 0, 0, 0⟩]
    functions := [{ name := "wide", captures := #[⟨"x", .register 1⟩], stackSize := 2 ^ 32 + 3 }] }

theorem decode_encode_wideTree :
    decode (encode wideTree) = .ok wideTree.narrowed ∧ decode (encode wideTree) ≠ .ok wideTree := by
  have fits : ∀ function : Prototype, function.Within wideTree → function.Fits := by
    rw [Prototype.forall_within]
    refine ⟨?_, ?_⟩
    · constructor <;> simp [wideTree, Literal.Fits] <;> decide
    · intro nested member
      obtain rfl := List.mem_singleton.mp member
      rw [Prototype.forall_within]
      refine ⟨?_, by simp⟩
      constructor <;> simp [Capture.Fits, CaptureSource.Fits] <;> decide
  obtain ⟨decoded, same⟩ := decode_encode wideTree fits
  refine ⟨decoded, fun equal => ?_⟩
  have small := same.mp equal _ (.nested (List.mem_singleton_self _) .self)
  exact absurd small (by decide)

end Stream

end ScriptMachine
