import ScriptMachine.Bytecode.Prototype
import ScriptMachine.Stream.Checksum
import ScriptMachine.Stream.Reader

/-!
# The closure stream

A stream is a magic number, a version, a prototype record, a closing sentinel and the check of the
record.  A record has eight sections, each behind a sentinel: names, literals, parameters,
captures, line table, instructions, nested functions, and the frame size with the flags.  The
check is compared after the record has been read, so that a damaged sentinel is reported as such.
-/

namespace ScriptMachine

/-- Why a stream could not be read. -/
inductive StreamError where
  /-- The bytes themselves could not be read. -/
  | decode (cause : DecodeError)
  /-- The stream does not begin with the magic number. -/
  | magic (found : List UInt8)
  /-- The version is not the current one. -/
  | version (found : UInt32)
  /-- A sentinel is damaged. -/
  | sentinel (expected found : UInt32) (offset : Nat)
  /-- A literal has an unknown tag. -/
  | literalTag (tag : UInt8) (offset : Nat)
  /-- A captured variable has an unknown tag. -/
  | captureTag (tag : UInt8) (offset : Nat)
  /-- The check does not match the record. -/
  | checksum (expected actual : UInt32)
  /-- Bytes follow the end of the stream. -/
  | trailing (count : Nat)
deriving DecidableEq, Repr

namespace Stream

/-- The first four bytes of a stream. -/
def magic : List UInt8 := [0x45, 0x4D, 0x42, 0x52]

/-- The current version. -/
def version : UInt32 := 1

/-- The sentinel before every section. -/
def partSentinel : UInt32 := 0x54524150

/-- The sentinel behind the record. -/
def tailSentinel : UInt32 := 0x4C494154

end Stream

/-- The text of the error. -/
def StreamError.message : StreamError → String
  | .decode cause => "Decode error: " ++ cause.message
  | .magic found =>
    "Invalid magic number: expected EMBR, got [" ++
      String.intercalate ", " (found.map fun byte => toString byte.toNat) ++ "]"
  | .version found =>
    s!"Unsupported version: {found.toNat} (current: {Stream.version.toNat})"
  | .sentinel expected found offset =>
    s!"Sentinel mismatch at offset {offset}: expected {Text.hexWord 8 expected.toNat}, " ++
      s!"found {Text.hexWord 8 found.toNat}"
  | .literalTag tag offset => s!"Invalid literal tag {tag.toNat} at offset {offset}"
  | .captureTag tag offset => s!"Invalid outer value tag {tag.toNat} at offset {offset}"
  | .checksum expected actual =>
    s!"Checksum mismatch: expected {Text.hexWord 1 expected.toNat}, " ++
      s!"got {Text.hexWord 1 actual.toNat}"
  | .trailing count => s!"{count} trailing bytes after end of stream"

namespace Stream

/-- A literal: its tag, then its content. -/
def literalBytes : Literal → List UInt8
  | .null => [0]
  | .bool false => [1]
  | .bool true => [2]
  | .integer value => 3 :: Wire.int64 value
  | .float value => 4 :: Wire.float64 value
  | .string value => 5 :: Wire.text value

/-- The source of a captured variable: its tag, then its content. -/
def sourceBytes : CaptureSource → List UInt8
  | .register number => 0 :: Wire.word32 number
  | .outer index => 1 :: Wire.word32 index
  | .symbol name => 2 :: Wire.text name

/-- A captured variable. -/
def captureBytes (capture : Capture) : List UInt8 :=
  Wire.text capture.name ++ sourceBytes capture.source

/-- An entry of a line table. -/
def lineBytes (mark : LineMark) : List UInt8 := Wire.word32 mark.line ++ Wire.word32 mark.index

/-- Items behind their number. -/
def listBytes {α : Type} (item : α → List UInt8) (items : List α) : List UInt8 :=
  Wire.count items.length ++ items.flatMap item

/-- A section behind its sentinel. -/
def sectionBytes (content : List UInt8) : List UInt8 := Wire.word32 partSentinel ++ content

/-- The flags of a function: a generator, further arguments. -/
def flagsByte (isGenerator isVariadic : Bool) : UInt8 :=
  (if isGenerator then 1 else 0) ||| (if isVariadic then 2 else 0)

mutual

/-- The record of a prototype. -/
def recordBytes : Prototype → List UInt8
  | ⟨name, source, literals, parameters, captures, lines, code, stackSize, isGenerator, isVariadic,
      functions⟩ =>
    sectionBytes (Wire.text name ++ Wire.text source) ++
    sectionBytes (listBytes literalBytes literals.toList) ++
    sectionBytes (listBytes Wire.text parameters.toList) ++
    sectionBytes (listBytes captureBytes captures.toList) ++
    sectionBytes (listBytes lineBytes lines.toList) ++
    sectionBytes (listBytes Wire.instruction code.toList) ++
    sectionBytes (Wire.count functions.length ++ recordsBytes functions) ++
    sectionBytes (Wire.count stackSize ++ [flagsByte isGenerator isVariadic])

/-- The records of several prototypes, one after the other. -/
def recordsBytes : List Prototype → List UInt8
  | [] => []
  | prototype :: rest => recordBytes prototype ++ recordsBytes rest

end

/-- The stream of a prototype tree. -/
def encode (prototype : Prototype) : List UInt8 :=
  let record := recordBytes prototype
  magic ++ Wire.word32 version ++ record ++ Wire.word32 tailSentinel ++
    Wire.word32 (Checksum.crc32 record)

/-- A read of bytes as part of reading a stream. -/
def lift {α : Type} (read : Read DecodeError α) : Read StreamError α := fun reader =>
  match read reader with
  | .ok value next => .ok value next
  | .error cause next => .error (.decode cause) next

/-- Fail unless the condition holds. -/
def require (condition : Bool) (cause : StreamError) : Read StreamError Unit :=
  if condition then return () else throw cause

/-- The given sentinel. -/
def sentinel (expected : UInt32) : Read StreamError Unit := do
  let offset ← lift Read.position
  let found ← lift Read.word32
  require (found = expected) (.sentinel expected found offset)

/-- A literal. -/
def literal : Read StreamError Literal := do
  let offset ← lift Read.position
  match ← lift Read.byte with
  | 0 => return .null
  | 1 => return .bool false
  | 2 => return .bool true
  | 3 => return .integer (← lift Read.int64)
  | 4 => return .float (← lift Read.float64)
  | 5 => return .string (← lift Read.text)
  | tag => throw (.literalTag tag offset)

/-- A captured variable. -/
def capture : Read StreamError Capture := do
  let name ← lift Read.text
  let offset ← lift Read.position
  match ← lift Read.byte with
  | 0 => return ⟨name, .register (← lift Read.word32)⟩
  | 1 => return ⟨name, .outer (← lift Read.word32)⟩
  | 2 => return ⟨name, .symbol (← lift Read.text)⟩
  | tag => throw (.captureTag tag offset)

/-- An entry of a line table. -/
def lineMark : Read StreamError LineMark := do
  let line ← lift Read.word32
  let index ← lift Read.word32
  return ⟨line, index⟩

/-- Items behind their number. -/
def list {α : Type} (item : Read StreamError α) : Read StreamError (List α) := do
  Read.items item (← lift (Read.number 4))

/-- The record of a prototype.  The first argument bounds the nesting; a record takes more bytes
than it has levels, so the number of bytes is always enough. -/
def record : Nat → Read StreamError Prototype
  | 0 => do throw (.decode (.unexpectedEnd (← lift Read.position)))
  | levels + 1 => do
    sentinel partSentinel
    let name ← lift Read.text
    let source ← lift Read.text
    sentinel partSentinel
    let literals ← list literal
    sentinel partSentinel
    let parameters ← list (lift Read.text)
    sentinel partSentinel
    let captures ← list capture
    sentinel partSentinel
    let lines ← list lineMark
    sentinel partSentinel
    let code ← list (lift Read.instruction)
    sentinel partSentinel
    let functions ← list (record levels)
    sentinel partSentinel
    let stackSize ← lift (Read.number 4)
    let flags ← lift Read.byte
    return {
      name, source
      literals := literals.toArray
      parameters := parameters.toArray
      captures := captures.toArray
      lines := lines.toArray
      code := code.toArray
      stackSize
      isGenerator := flags &&& 1 != 0
      isVariadic := flags &&& 2 != 0
      functions }

/-- The magic number and the version. -/
def header : Read StreamError Unit := do
  let found ← lift (Read.bytes 4)
  require (found = magic) (.magic found)
  let current ← lift Read.word32
  require (current = version) (.version current)

/-- A whole stream. -/
def stream : Read StreamError Prototype := do
  header
  let start ← lift Read.position
  let prototype ← record ((← get).remaining + 1)
  let actual := Checksum.crc32 ((← get).since start)
  sentinel tailSentinel
  let expected ← lift Read.word32
  require (expected = actual) (.checksum expected actual)
  let left := (← get).remaining
  require (left = 0) (.trailing left)
  return prototype

/-- The prototype tree of a stream. -/
def decode (bytes : List UInt8) : Except StreamError Prototype :=
  match stream (Reader.ofBytes bytes) with
  | .ok prototype _ => .ok prototype
  | .error cause _ => .error cause

end Stream

end ScriptMachine
