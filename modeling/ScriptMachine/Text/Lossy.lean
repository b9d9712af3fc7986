/-!
# Lossy reading of UTF-8

`Text.scan` splits bytes into well-formed characters and maximal broken runs.  A broken run is the
longest beginning of a well-formed sequence that is cut short, or one byte that begins none.  The
lossy text puts the replacement character in the place of each broken run.
-/

namespace ScriptMachine.Text

/-- The byte continues a multi-byte character. -/
def isContinuation (byte : UInt8) : Bool := byte &&& 0xC0 == 0x80

/-- The second byte fits the first byte of a three-byte character: no overlong form and no
surrogate. -/
def fitsThree (first second : UInt8) : Bool :=
  if first == 0xE0 then 0xA0 ≤ second && second ≤ 0xBF
  else if first == 0xED then 0x80 ≤ second && second ≤ 0x9F
  else isContinuation second

/-- The second byte fits the first byte of a four-byte character: no overlong form and nothing
beyond the last code point. -/
def fitsFour (first second : UInt8) : Bool :=
  if first == 0xF0 then 0x90 ≤ second && second ≤ 0xBF
  else if first == 0xF4 then 0x80 ≤ second && second ≤ 0x8F
  else isContinuation second

/-- The six payload bits of a continuation byte. -/
def payload (byte : UInt8) : Nat := byte.toNat % 64

/-- The character of a two-byte sequence. -/
def twoByte (first second : UInt8) : Char :=
  Char.ofNat (first.toNat % 32 * 64 + payload second)

/-- The character of a three-byte sequence. -/
def threeByte (first second third : UInt8) : Char :=
  Char.ofNat (first.toNat % 16 * 4096 + payload second * 64 + payload third)

/-- The character of a four-byte sequence. -/
def fourByte (first second third fourth : UInt8) : Char :=
  Char.ofNat
    (first.toNat % 8 * 262144 + payload second * 4096 + payload third * 64 + payload fourth)

/-- The first character of nonempty bytes, or nothing for a broken run, with the bytes after it. -/
def scanOne (first : UInt8) (rest : List UInt8) : Option Char × List UInt8 :=
  if first < 0x80 then (some (Char.ofNat first.toNat), rest)
  else if 0xC2 ≤ first && first ≤ 0xDF then
    match rest with
    | second :: tail =>
      if isContinuation second then (some (twoByte first second), tail) else (none, rest)
    | [] => (none, rest)
  else if 0xE0 ≤ first && first ≤ 0xEF then
    match rest with
    | second :: third :: tail =>
      if !fitsThree first second then (none, rest)
      else if isContinuation third then (some (threeByte first second third), tail)
      else (none, third :: tail)
    | [second] => if fitsThree first second then (none, []) else (none, rest)
    | [] => (none, rest)
  else if 0xF0 ≤ first && first ≤ 0xF4 then
    match rest with
    | second :: third :: fourth :: tail =>
      if !fitsFour first second then (none, rest)
      else if !isContinuation third then (none, third :: fourth :: tail)
      else if isContinuation fourth then (some (fourByte first second third fourth), tail)
      else (none, fourth :: tail)
    | [second, third] =>
      if !fitsFour first second then (none, rest)
      else if isContinuation third then (none, [])
      else (none, [third])
    | [second] => if fitsFour first second then (none, []) else (none, rest)
    | [] => (none, rest)
  else (none, rest)

theorem length_scanOne_le (first : UInt8) (rest : List UInt8) :
    (scanOne first rest).2.length ≤ rest.length := by
  unfold scanOne
  repeat' split
  all_goals simp_all
  all_goals omega

/-- The characters of the bytes in order, nothing standing for a broken run. -/
def scan : List UInt8 → List (Option Char)
  | [] => []
  | first :: rest =>
    let step := scanOne first rest
    step.1 :: scan step.2
termination_by bytes => bytes.length
decreasing_by
  have := length_scanOne_le first rest
  simp only [List.length_cons]
  omega

/-- The character that stands for a broken run. -/
def replacement : Char := Char.ofNat 0xFFFD

/-- The text of the bytes with a replacement character for every broken run. -/
def lossy (bytes : ByteArray) : String :=
  String.ofList ((scan bytes.toList).map fun c => c.getD replacement)

/-- The text of the bytes, if they are well-formed. -/
def ofBytes? (bytes : ByteArray) : Option String := String.fromUTF8? bytes

end ScriptMachine.Text
