import ScriptMachine.Machine.Recovery

/-!
# Entries

The host enters a fiber by calling a value in it, and goes on with a suspended fiber by waking it.
An entry leaves registers, frames and the state of the fiber as they were, unless the fiber has
been suspended.  A fault that leaves the outermost entry is shown to the error handler first; the
handler is put aside while it runs, and its own faults are dropped.
-/

namespace ScriptMachine

/-- Where an entry began. -/
structure EntryPoint where
  /-- The registers below it. -/
  stackBase : Nat
  /-- The frames below it. -/
  rootDepth : Nat
  /-- The state of the fiber before. -/
  previous : FiberState
  /-- Nothing was active in the fiber. -/
  outermost : Bool

namespace Exec

/-- Show a fault to the error handler, if there is one. -/
def report (engine : Engine) (fault : Fault) : Exec Unit := do
  let machine ← get
  match machine.handler with
  | none => return ()
  | some handler =>
    note .reported fault
    modify fun machine =>
      { machine with handler := none, reporting := machine.reporting + 1 }
    discard (attempt (engine.callSync handler (.table machine.root) [fault.toValue]))
    modify fun machine =>
      { machine with handler := some handler, reporting := machine.reporting - 1 }

/-- End an entry with its result. -/
def finishEntry (engine : Engine) (point : EntryPoint) : Except Fault Outcome → Exec Outcome
  | .ok (.suspended value) => do
    onFiber fun fiber =>
      { fiber with
        state := .suspended
        suspended := some
          { target := fiber.suspended.bind SuspendPoint.target
            rootDepth := point.rootDepth
            stackBase := point.stackBase } }
    return .suspended value
  | .ok (.completed value) => do
    truncate point.stackBase
    onFiber fun fiber => { fiber with state := point.previous }
    return .completed value
  | .error fault => do
    unwindTo point.rootDepth
    truncate point.stackBase
    onFiber fun fiber => { fiber with state := point.previous }
    if point.outermost then report engine fault
    passOn fault

/-- Call a value with a receiver and arguments from an entry point. -/
def beginEntry (engine : Engine) (point : EntryPoint) (callee this : Value)
    (arguments : List Value) : Exec Outcome := do
  Engine.pushArguments this arguments
  match ← callValue engine callee point.stackBase (arguments.length + 1) none true with
  | .pushed => engine.runFrames point.rootDepth
  | .done value => return .completed value
  | .suspend value =>
    unless point.outermost do raise .nestedSuspension
    onFiber fun fiber =>
      { fiber with suspended := some ⟨none, point.rootDepth, point.stackBase⟩ }
    return .suspended value

/-- Call a value with a receiver and arguments in the running fiber. -/
def runWithThis (engine : Engine) (callee this : Value) (arguments : List Value) :
    Exec Outcome := do
  let fiber ← ofFiber id
  if fiber.state = .suspended then raise .suspendedCall
  let point : EntryPoint :=
    { stackBase := fiber.stack.size
      rootDepth := fiber.stack.depth
      previous := fiber.state
      outermost := fiber.isOutermost }
  onFiber fun fiber => { fiber with state := .running }
  let result ← attempt (beginEntry engine point callee this arguments)
  finishEntry engine point result

/-- Call a value with the root table as the receiver. -/
def run (engine : Engine) (callee : Value) (arguments : List Value) : Exec Outcome := do
  runWithThis engine callee (.table (← get).root) arguments

/-- Go on where a fiber was suspended, with a value as the result of the call that suspended
it. -/
def continueAt (engine : Engine) (point : SuspendPoint) (value : Value) : Exec Outcome := do
  if (← depth) ≤ point.rootDepth then return .completed value
  deliver point.target value
  engine.runFrames point.rootDepth

/-- Wake the running fiber from its suspension. -/
def wakeup (engine : Engine) (value : Value) : Exec Outcome := do
  let state ← ofFiber (·.state)
  unless state = .suspended do raise (.notSuspended state.name)
  match ← ofFiber (·.suspended) with
  | none => raise .missingSuspension
  | some point =>
    onFiber fun fiber => { fiber with state := .running, suspended := none }
    let result ← attempt (continueAt engine point value)
    finishEntry engine
      { stackBase := point.stackBase, rootDepth := point.rootDepth, previous := .idle,
        outermost := true } result

end Exec

end ScriptMachine
