import ScriptMachine.Machine.Activation
import ScriptMachine.Machine.Slot

/-!
# Iteration

A loop over a container keeps its state in three consecutive registers: key, value and cursor.  The
cursor starts as null.  For tables, arrays, strings and classes it is a position; for instances and
host data with the hook it is the previous key; for a generator it counts the values, and the
loop ends when the generator has returned.
-/

namespace ScriptMachine

/-- One step of an iteration. -/
inductive IterationStep where
  /-- A key and its value, with the next cursor. -/
  | item (key value cursor : Value)
  /-- A frame has been added for a generator, and its value goes into the value register. -/
  | resumed
  /-- Nothing is left. -/
  | done
deriving DecidableEq

/-- The registers of an iteration. -/
structure IterationRegisters where
  /-- The key. -/
  key : UInt8
  /-- The value. -/
  value : UInt8
  /-- The cursor. -/
  cursor : UInt8

/-- The registers of an iteration from the first one on, as far as there are such registers. -/
def IterationRegisters.ofFirst (first : UInt8) : Except Fault IterationRegisters :=
  if first.toNat + 2 < 256 then .ok ⟨first, first + 1, first + 2⟩
  else .error (.iterationRegisters first.toNat)

/-- The position that a cursor stands for. -/
def Value.position : Value → Except Fault Nat
  | .null => .ok 0
  | .integer cursor =>
    if cursor.toInt < 0 then .error (.cursorValue cursor.toInt) else .ok cursor.toInt.toNat
  | other => .error (.cursorType other.typeName)

/-- The cursor that stands for a position. -/
def Value.ofPosition (position : Nat) : Value := .integer (Int64.ofNat position)

/-- The step at a position of a list of values. -/
def IterationStep.ofElement (element : Option Value) (position : Nat) : IterationStep :=
  match element with
  | some value => .item (.ofPosition position) value (.ofPosition (position + 1))
  | none => .done

/-- The step at an entry of a map. -/
def IterationStep.ofEntry {ν : Type} (value : Value → ν → Value) :
    Option (Value × ν × Nat) → IterationStep
  | some (key, entry, next) => .item key (value key entry) (.ofPosition next)
  | none => .done

namespace Exec

/-- A step by the hook, which turns the previous key into the next one. -/
def hookStep? (engine : Engine) (container cursor : Value) : Exec (Option IterationStep) := do
  match ← hook? container .nexti with
  | none => return none
  | some handler =>
    let key ← engine.callSync handler container [cursor]
    if key.isNull then return some .done
    let value ← getSlot engine container key
    return some (.item key value key)

/-- One step of an iteration over a container. -/
def iterationStep (access : Access) (engine : Engine) (container cursor : Value)
    (registers : IterationRegisters) : Exec IterationStep := do
  match container with
  | .table ref =>
    let position ← ofExcept cursor.position
    let table : Table ← read ref
    return .ofEntry (fun _ value => value) (table.entries.next? position)
  | .array ref =>
    let position ← ofExcept cursor.position
    let sequence : Sequence ← read ref
    return .ofElement sequence.values[position]? position
  | .string bytes =>
    let position ← ofExcept cursor.position
    let byte := bytes.data[position]?
    return .ofElement (byte.map fun byte => .integer (Int64.ofNat byte.toNat)) position
  | .cls ref =>
    let position ← ofExcept cursor.position
    let cls : Class ← read ref
    return .ofEntry (fun key _ => (cls.get? key).getD .null) (cls.next? position)
  | .inst ref =>
    if let some step ← hookStep? engine container cursor then return step
    let position ← ofExcept cursor.position
    let object : Instance ← read ref
    let cls : Class ← read object.cls
    return .ofEntry (fun _ member => (object.valueAt? cls member).getD .null)
      (cls.next? position)
  | .userdata _ =>
    match ← hookStep? engine container cursor with
    | some step => return step
    | none => raise .userdataIteration
  | .generator ref =>
    let generator : Generator ← read ref
    if generator.state = .dead then return .done
    let position ← ofExcept cursor.position
    access.write registers.key (.ofPosition position)
    access.write registers.cursor (.ofPosition (position + 1))
    resumeInto ref (some (access.handOn registers.value)) false
    return .resumed
  | other => raise (.notIterable other.typeName)

/-- Go on at an offset from the next instruction of the current frame. -/
def jump (offset : Int32) : Exec Unit := do
  let frame ← frame
  let target := frame.ip + offset.toInt
  if target < 0 ∨ frame.closure.routine.code.size < target then
    raise (.jumpOutside target frame.closure.routine.displayName)
  goTo target.toNat

/-- One step of a loop: assign its registers, or leave the loop by a jump. -/
def iterate (access : Access) (engine : Engine) (container : UInt8) (first : UInt8)
    (exit : Int32) : Exec Unit := do
  let container ← access.read container
  let registers ← ofExcept (IterationRegisters.ofFirst first)
  let cursor ← access.read registers.cursor
  match ← iterationStep access engine container cursor registers with
  | .item key value next =>
    access.write registers.key key
    access.write registers.value value
    access.write registers.cursor next
  | .resumed => return ()
  | .done => jump exit

/-- Leave a loop by a jump when its container is a generator that has returned. -/
def finishIteration (access : Access) (container : UInt8) (exit : Int32) : Exec Unit := do
  match ← access.read container with
  | .generator ref =>
    let generator : Generator ← read ref
    if generator.state = .dead then jump exit
  | _ => return ()

end Exec

end ScriptMachine
