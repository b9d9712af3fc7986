import ScriptMachine.Machine.Entry

/-!
# Threads

A thread is a fiber kept in the heap.  Entering it exchanges it with the running fiber, which waits
until the thread is left again; only one fiber runs at a time.  A thread that has been entered
cannot be entered again before it is left.
-/

namespace ScriptMachine.Exec

/-- Create a thread without a function. -/
def newThread : Exec (Ref .thread) := do
  let limits := (← get).limits
  alloc (some (Fiber.create limits.stackSize limits.callDepth true) : Option Fiber)

/-- Let the running fiber wait and run a fiber in its place. -/
def enterFiber (fiber : Fiber) : Exec Unit := modify fun machine =>
  { machine with fiber, waiting := machine.fiber :: machine.waiting }

/-- Put the running fiber back into its thread and go on with the one that waits for it. -/
def leaveThread (ref : Ref .thread) (machine : Machine) : Machine :=
  match machine.waiting with
  | fiber :: waiting =>
    { machine with heap := machine.heap.set ref (some machine.fiber), fiber, waiting }
  | [] => machine

/-- Run a computation in the fiber of a thread.  A fault that leaves the thread goes on in the fiber
that has entered it. -/
def inThread {α : Type} (ref : Ref .thread) (action : Exec α) : Exec α := do
  let content : Option Fiber ← read ref
  match content with
  | none => raise .threadRunning
  | some fiber =>
    write ref (none : Option Fiber)
    enterFiber fiber
    match ← attempt (ensuring (leaveThread ref) action) with
    | .ok value => return value
    | .error fault => surface fault

/-- Make a function the one that a thread runs. -/
def setThreadFunction (ref : Ref .thread) (entry : Value) : Exec Unit :=
  inThread ref do
    let isClass := match entry with
      | .cls _ => true
      | _ => false
    unless entry.isCallable || isClass do raise (.threadFunction entry.typeName)
    onFiber fun fiber => { fiber with entry := some entry }

/-- Run the function of a thread with some arguments. -/
def threadCall (engine : Engine) (ref : Ref .thread) (arguments : List Value) : Exec Outcome :=
  inThread ref do
    match ← ofFiber (·.entry) with
    | none => raise .noThreadFunction
    | some entry => run engine entry arguments

/-- Wake a thread with a value. -/
def threadWakeup (engine : Engine) (ref : Ref .thread) (value : Value) : Exec Outcome :=
  inThread ref (wakeup engine value)

/-- The state of a thread; one that has been entered is running. -/
def threadState (ref : Ref .thread) : Exec FiberState := do
  let content : Option Fiber ← read ref
  return (content.map Fiber.state).getD .running

end ScriptMachine.Exec
