import ScriptMachine.Machine.Engine

/-!
# Slots of values

Reading, assigning, creating and removing slots.  Whatever a value does not settle itself
goes to its hook; without a hook it fails.  Arrays and strings are indexed by integers and know no
hooks.
-/

namespace ScriptMachine

namespace Value

/-- The array index that a key stands for; floating-point keys are cut off. -/
def arrayIndex : Value → Except Fault Int64
  | .integer index => .ok index
  | .float index => .ok index.toInt64
  | other => .error (.arrayKey other.typeName)

/-- The byte of a string at an index. -/
def byteAt (bytes : ByteArray) : Value → Except Fault Value
  | .integer index =>
    if 0 ≤ index.toInt then
      match bytes.data[index.toInt.toNat]? with
      | some byte => .ok (.integer (Int64.ofNat byte.toNat))
      | none => .error (.stringIndex index.toInt bytes.size)
    else .error (.stringIndex index.toInt bytes.size)
  | other => .error (.stringKey other.typeName)

end Value

/-- The value of a slot that a table, an instance, a class or host data settles by itself. -/
def Heap.slot? (heap : Heap) (object key : Value) : Option Value :=
  match object with
  | .table ref => heap.lookup? ref key
  | .inst ref => (heap.get ref).get? (heap.get (heap.get ref).cls) key
  | .cls ref => (heap.get ref).get? key
  | .userdata ref => (heap.get ref).delegate.bind fun table => heap.lookup? table key
  | _ => none

namespace Exec

/-- Fail for want of a slot. -/
def missingSlot {α : Type} (key : Value) : Exec α := raise (.missingKey key.display)

/-- Read a slot. -/
def getSlot (engine : Engine) (object key : Value) : Exec Value := do
  match object with
  | .array ref =>
    let index ← ofExcept key.arrayIndex
    let sequence : Sequence ← read ref
    ofExcept (sequence.get index)
  | .string bytes => ofExcept (key.byteAt bytes)
  | .table _ | .inst _ | .cls _ | .userdata _ =>
    match (← get).heap.slot? object key with
    | some value => return value
    | none =>
      match ← hook? object .get with
      | some handler => engine.callSync handler object [key]
      | none => missingSlot key
  | other => raise (.notIndexable other.typeName)

/-- Assign a slot that a table, an instance or a class has by itself, and report whether there was
one. -/
def assignOwn (object key value : Value) : Exec Bool := do
  match object with
  | .table ref => replace? ref fun (table : Table) => table.set? key value
  | .inst ref =>
    let own : Instance ← read ref
    let cls : Class ← read own.cls
    replace? ref fun (object : Instance) => object.set? cls key value
  | .cls ref => replace? ref fun (cls : Class) => cls.set? key value
  | _ => return false

/-- Assign a slot that exists. -/
def setSlot (engine : Engine) (object key value : Value) : Exec Unit := do
  match object with
  | .array ref =>
    let index ← ofExcept key.arrayIndex
    let sequence : Sequence ← read ref
    let position ← ofExcept (sequence.position index)
    update ref fun (own : Sequence) => own.put position value
  | .table _ | .inst _ | .cls _ | .userdata _ =>
    unless ← assignOwn object key value do
      match ← hook? object .set with
      | some handler => discard (engine.callSync handler object [key, value])
      | none => missingSlot key
  | other => raise (.notAssignable other.typeName)

/-- Create or replace a slot.  A table asks its hook for keys that it does not have yet. -/
def newSlot (engine : Engine) (object key value : Value) : Exec Unit := do
  match object with
  | .table ref =>
    ofExcept key.checkKey
    let isNew := !((← get).heap.get ref).contains key
    let handler ← if isNew then hook? object .newSlot else pure none
    match handler with
    | some handler => discard (engine.callSync handler object [key, value])
    | none => update ref fun (table : Table) => table.insert key value
  | .cls ref =>
    let cls : Class ← read ref
    write ref (← ofExcept (cls.newSlot key value))
  | .inst _ | .userdata _ =>
    match ← hook? object .newSlot with
    | some handler => discard (engine.callSync handler object [key, value])
    | none => raise (.slotRefused object.typeName)
  | other => raise (.noSlots other.typeName)

/-- Remove a slot by the hook. -/
def deleteByHook (engine : Engine) (object key : Value) : Exec Value := do
  match ← hook? object .delSlot with
  | some handler => engine.callSync handler object [key]
  | none => missingSlot key

/-- Remove a slot and report its value. -/
def deleteSlot (engine : Engine) (object key : Value) : Exec Value := do
  match object with
  | .table ref =>
    let table : Table ← read ref
    match table.erase? key with
    | some (value, rest) =>
      write ref rest
      return value
    | none => deleteByHook engine object key
  | .inst _ | .userdata _ => deleteByHook engine object key
  | other => raise (.noRemoval other.typeName)

/-- The table that a value names as a delegate. -/
def delegateOf : Value → Exec (Option (Ref .table))
  | .null => return none
  | .table ref => return some ref
  | other => raise (.delegateValue other.typeName)

/-- Set or remove the delegate of a table or of host data. -/
def setDelegate (object delegate : Value) : Exec Unit := do
  let delegate ← delegateOf delegate
  match object with
  | .table ref =>
    let heap ← ofExcept ((← get).heap.setTableDelegate ref delegate)
    modify fun machine => { machine with heap }
  | .userdata ref =>
    modify fun machine => { machine with heap := machine.heap.setDataDelegate ref delegate }
  | other => raise (.delegateOwner other.typeName)

/-- The type name of a value, or what its hook says instead. -/
def typeOf (engine : Engine) (value : Value) : Exec Value := do
  match ← hook? value .typeof with
  | some handler => engine.callSync handler value []
  | none => return .ofText value.typeName

end Exec

end ScriptMachine
