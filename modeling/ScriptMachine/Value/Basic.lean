import ScriptMachine.Number.Binary64

/-!
# Script values

A value is a scalar, a byte string or a reference to an object of the heap.  Objects are named by
their kind and a number that is never used twice, so two references are equal exactly when they
lead to the same object.  Table keys identify both floating-point zeros and nothing else:
`Value.keyForm` is the form under which a key is compared.
-/

namespace ScriptMachine

/-- The kinds of objects that take part in reference counting. -/
inductive Kind where
  /-- A hash table. -/
  | table
  /-- A growable array. -/
  | array
  /-- A captured variable. -/
  | cell
  /-- A script function with its captured variables. -/
  | closure
  /-- A host function. -/
  | native
  /-- A resumable activation. -/
  | generator
  /-- A class. -/
  | cls
  /-- An instance of a class. -/
  | inst
  /-- Data of the host. -/
  | userdata
  /-- A separate line of execution. -/
  | thread
deriving DecidableEq, Repr, Inhabited

/-- A reference to an object of a known kind. -/
structure Ref (kind : Kind) where
  /-- The number of the object. -/
  index : Nat
deriving DecidableEq, Repr, Inhabited

/-- Byte strings are equal when their bytes are. -/
instance instDecidableEqBytes : DecidableEq ByteArray := ByteArray.instDecidableEq

/-- A script value. -/
inductive Value where
  /-- The null value. -/
  | null
  /-- A truth value. -/
  | bool (value : Bool)
  /-- An integer of 64 bits. -/
  | integer (value : Int64)
  /-- A floating-point number. -/
  | float (value : Binary64)
  /-- A pointer of the host, never followed. -/
  | pointer (address : UInt64)
  /-- A byte string. -/
  | string (bytes : ByteArray)
  /-- A table. -/
  | table (ref : Ref .table)
  /-- An array. -/
  | array (ref : Ref .array)
  /-- A script function. -/
  | closure (ref : Ref .closure)
  /-- A host function. -/
  | native (ref : Ref .native)
  /-- A generator. -/
  | generator (ref : Ref .generator)
  /-- A class. -/
  | cls (ref : Ref .cls)
  /-- An instance. -/
  | inst (ref : Ref .inst)
  /-- Host data. -/
  | userdata (ref : Ref .userdata)
  /-- A thread. -/
  | thread (ref : Ref .thread)
  /-- A loaded function body, by its number. -/
  | routine (index : Nat)
deriving DecidableEq, Inhabited

namespace Value

/-- The text as a script string. -/
def ofText (text : String) : Value := .string text.toUTF8

/-- The name of the type of a value. -/
def typeName : Value → String
  | .null => "null"
  | .bool _ => "bool"
  | .integer _ => "integer"
  | .float _ => "float"
  | .pointer _ => "userpointer"
  | .string _ => "string"
  | .table _ => "table"
  | .array _ => "array"
  | .closure _ | .native _ => "function"
  | .generator _ => "generator"
  | .cls _ => "class"
  | .inst _ => "instance"
  | .userdata _ => "userdata"
  | .thread _ => "thread"
  | .routine _ => "funcproto"

/-- The value is null. -/
def isNull : Value → Bool
  | .null => true
  | _ => false

/-- The value is an integer or a floating-point number. -/
def isNumber : Value → Bool
  | .integer _ | .float _ => true
  | _ => false

/-- The value is a script function or a host function. -/
def isCallable : Value → Bool
  | .closure _ | .native _ => true
  | _ => false

/-- Null, false and zero are false; everything else is true. -/
def isTruthy : Value → Bool
  | .null => false
  | .bool value => value
  | .integer value => value != 0
  | .float value => !value.isZero
  | _ => true

/-- The integer itself. -/
def toInteger? : Value → Option Int64
  | .integer value => some value
  | _ => none

/-- A number as a floating-point number. -/
def toFloat? : Value → Option Binary64
  | .integer value => some (.ofInt64 value)
  | .float value => some value
  | _ => none

/-- The truth value itself. -/
def toBool? : Value → Option Bool
  | .bool value => some value
  | _ => none

/-- The text of a well-formed script string. -/
def toText? : Value → Option String
  | .string bytes => String.fromUTF8? bytes
  | _ => none

/-- The form under which a value is compared as a table key. -/
def keyForm : Value → Value
  | .float value => if value.isZero then .float ⟨0⟩ else .float value
  | other => other

/-- Two values are the same table key. -/
def sameKey (x y : Value) : Bool := x.keyForm == y.keyForm

/-- Two values are identical: numbers of one type as numbers, strings by their bytes and objects
by themselves. -/
def identical : Value → Value → Bool
  | .float x, .float y => x.sameNumber y
  | x, y => x.sameKey y

/-- Equality of scripts: as `identical`, but an integer equals the floating-point number that it
converts to. -/
def scriptEqual : Value → Value → Bool
  | .integer x, .float y | .float y, .integer x => (Binary64.ofInt64 x).sameNumber y
  | x, y => x.identical y

/-- One round of mixing of a hash with a word. -/
def mixHash (hash word : UInt64) : UInt64 :=
  let mixed := (hash ^^^ word) * 0x9E3779B97F4A7C15
  mixed ^^^ (mixed >>> 29)

/-- A hash of some bytes. -/
def hashBytes (bytes : ByteArray) : UInt64 :=
  bytes.foldl (fun hash byte => mixHash hash byte.toUInt64) 0x51ED270B

/-- A hash of a value that depends on its key form only. -/
def keyHash (value : Value) : UInt64 :=
  match value.keyForm with
  | .null => 0
  | .bool b => mixHash 1 (if b then 1 else 0)
  | .integer i => mixHash 2 i.toUInt64
  | .float x => mixHash 3 x.bits
  | .pointer p => mixHash 4 p
  | .string bytes => hashBytes bytes
  | .table r => mixHash 5 (UInt64.ofNat r.index)
  | .array r => mixHash 6 (UInt64.ofNat r.index)
  | .closure r => mixHash 7 (UInt64.ofNat r.index)
  | .native r => mixHash 8 (UInt64.ofNat r.index)
  | .generator r => mixHash 9 (UInt64.ofNat r.index)
  | .cls r => mixHash 10 (UInt64.ofNat r.index)
  | .inst r => mixHash 11 (UInt64.ofNat r.index)
  | .userdata r => mixHash 12 (UInt64.ofNat r.index)
  | .thread r => mixHash 13 (UInt64.ofNat r.index)
  | .routine i => mixHash 14 (UInt64.ofNat i)

theorem sameKey_iff {x y : Value} : x.sameKey y = true ↔ x.keyForm = y.keyForm := by
  simp [sameKey]

theorem keyHash_eq_of_sameKey {x y : Value} (same : x.sameKey y = true) :
    x.keyHash = y.keyHash := by
  rw [keyHash, keyHash, sameKey_iff.mp same]

end Value

end ScriptMachine
