import ScriptMachine.Machine.Engine

/-!
# Calls

A call finds its receiver and arguments in consecutive registers.  Calling a script function adds a
frame whose window starts there; calling a generator function captures the arguments and runs
nothing; calling a host function runs it to its end; calling a class creates an instance and runs
the initialiser on it.  Any other value is called through its hook.
-/

namespace ScriptMachine

/-- How a call has begun. -/
inductive CallStart where
  /-- A frame has been added, and the run loop goes on in it. -/
  | pushed
  /-- The call has its result already. -/
  | done (value : Value)
  /-- A host function wishes to suspend the fiber. -/
  | suspend (value : Value)
deriving DecidableEq

namespace Exec

/-- Check the number of arguments and collect those beyond the parameters into an array. -/
def prepareArguments (routine : Routine) (base count : Nat) : Exec Unit := do
  unless routine.accepts count do
    raise (.arity routine.displayName routine.parameterCount count)
  if routine.isVariadic then
    let last := routine.parameterCount - 1
    let extra ← takeRange (base + last) (base + count)
    setPlace (base + last) (← newArray extra)

/-- Enter a script function on arguments in registers. -/
def enterClosure (ref : Ref .closure) (base count : Nat) (target : Option UInt8)
    (isRoot : Bool) : Exec Unit := do
  let closure : Closure ← read ref
  prepareArguments closure.routine base count
  pushFrame { ref, closure, ip := 0, base, target, isRoot }
  Exec.count fun counters => { counters with calls := counters.calls + 1 }

/-- Create a generator with the arguments in registers. -/
def createGenerator (ref : Ref .closure) (base count : Nat) : Exec Value := do
  let closure : Closure ← read ref
  prepareArguments closure.routine base count
  let arguments ← takeRange base (base + closure.routine.parameterCount)
  let rest := Array.replicate (closure.routine.stackSize - arguments.size) Value.null
  let generator ← alloc ({ closure := ref, window := arguments ++ rest } : Generator)
  Exec.count fun counters => { counters with generators := counters.generators + 1 }
  return .generator generator

/-- Run a host function on arguments in registers. -/
def callNative (engine : Engine) (ref : Ref .native) (base count : Nat) :
    Exec NativeReturn := do
  let native : Native ← read ref
  ofExcept (native.checkArguments (← range base (base + count)).toList)
  let limit := (← get).limits.nativeCalls
  if limit ≤ (← ofFiber (·.nativeCalls)) then raise .nativeStackOverflow
  onFiber fun fiber =>
    { fiber with
      nativeCalls := fiber.nativeCalls + 1
      natives := ⟨ref, base, count⟩ :: fiber.natives
      counters := { fiber.counters with nativeCalls := fiber.counters.nativeCalls + 1 } }
  ensuring (·.mapFiber fun fiber =>
    { fiber with nativeCalls := fiber.nativeCalls - 1, natives := fiber.natives.tail }) do
    engine.native native.symbol

/-- Create an instance of a class and run the initialiser on it, in the place of the receiver. -/
def construct (engine : Engine) (ref : Ref .cls) (base count : Nat) : Exec Value := do
  let object ← modifyGet fun machine =>
    let (object, heap) := machine.heap.instantiate ref
    (object, { machine with heap })
  let cls : Class ← read ref
  match cls.initializer? with
  | none => return .inst object
  | some initializer =>
    setPlace base (.inst object)
    holding [.cls ref, .inst object] do
      discard (engine.callAt initializer base count)
    return .inst object

/-- Begin a call whose receiver and arguments stand in so many registers from a place on. -/
def callValue (engine : Engine) (callee : Value) (base count : Nat) (target : Option UInt8)
    (isRoot : Bool) : Exec CallStart := do
  match callee with
  | .closure ref =>
    let closure : Closure ← read ref
    if closure.routine.isGenerator then
      return .done (← createGenerator ref base count)
    enterClosure ref base count target isRoot
    return .pushed
  | .native ref =>
    match ← callNative engine ref base count with
    | .value value => return .done value
    | .nothing => return .done .null
    | .suspend value => return .suspend value
  | .cls ref => return .done (← construct engine ref base count)
  | other =>
    match ← hook? other .call with
    | none => raise (.notCallable other.typeName)
    | some handler =>
      let arguments ← range base (base + count)
      return .done (← engine.callSync handler other arguments.toList)

/-- Call a value on arguments in registers and wait for its result. -/
def callAt (engine : Engine) (callee : Value) (base count : Nat) : Exec Value := do
  let size ← stackSize
  let root ← depth
  onFiber fun fiber => { fiber with syncCalls := fiber.syncCalls + 1 }
  let result ← attempt do
    match ← callValue engine callee base count none true with
    | .pushed => engine.runFrames root
    | .done value => return .completed value
    | .suspend _ => raise .nestedSuspension
  onFiber fun fiber => { fiber with syncCalls := fiber.syncCalls - 1 }
  resize size
  match ← ofResult result with
  | .completed value => return value
  | .suspended _ => raise .nestedSuspension

end Exec

end ScriptMachine
