import ScriptMachine.Machine.Exec

/-!
# Loading and saving

A prototype is verified before it becomes a function body or a closure.  The variables captured by
a closure made by the host start as null.  Only a closure that captures nothing can be written to
a stream.
-/

namespace ScriptMachine.Exec

/-- A closure over a function body, with null in its captured variables. -/
def closureOver (routine : Routine) : Exec Value := do
  let cells ← routine.captures.mapM fun _ => alloc (.null : Value)
  return .closure (← alloc ({ routine, cells } : Closure))

/-- A function body as a value. -/
def newRoutine (routine : Routine) : Exec Value := modifyGet fun machine =>
  (.routine machine.routines.size, { machine with routines := machine.routines.push routine })

/-- Check a prototype and load it. -/
def loadRoutine (prototype : Prototype) : Exec Routine :=
  match prototype.verify with
  | .ok _ => return Routine.load prototype
  | .error cause => raise (.verify cause)

/-- Check a prototype and make a closure over it. -/
def loadFunction (prototype : Prototype) : Exec Value := do
  closureOver (← loadRoutine prototype)

/-- Check a prototype and make a function body of it. -/
def loadPrototype (prototype : Prototype) : Exec Value := do
  newRoutine (← loadRoutine prototype)

/-- A closure over the function body that a value is. -/
def newClosure : Value → Exec Value
  | .routine index => do
    match (← get).routines[index]? with
    | some routine => closureOver routine
    | none => closureOver default
  | other => raise (.notRoutine other.typeName)

/-- The stream form of a closure. -/
def saveClosure : Value → Exec (List UInt8)
  | .closure ref => do
    let closure : Closure ← read ref
    unless closure.cells.isEmpty do raise .capturedValues
    return Stream.encode closure.routine.toPrototype
  | other => raise (.notSerializable other.typeName)

/-- Read a closure from its stream form. -/
def loadClosure (bytes : List UInt8) : Exec Value := do
  match Stream.decode bytes with
  | .ok prototype => loadFunction prototype
  | .error cause => raise (.stream cause)

/-! ## Globals -/

/-- The value of a global. -/
def getGlobal? (name : String) : Exec (Option Value) := fun machine =>
  .ok (machine.heap.lookup? machine.root (.ofText name)) machine

/-- Create or replace a global. -/
def setGlobal (name : String) (value : Value) : Exec Unit := do
  let root := (← get).root
  update root fun (table : Table) => table.insert (.ofText name) value

/-- Make a host function a global. -/
def registerNative (native : Native) : Exec Value := do
  let value := Value.native (← alloc native)
  setGlobal native.name value
  return value

end ScriptMachine.Exec
