import ScriptMachine.Machine.Stack

/-!
# Lines of execution

A fiber is all that belongs to one line of execution: its registers and frames, the error handlers
registered by its frames, the host functions it is inside of, and how deeply run loops and
synchronous calls are nested in it.  The main program is a fiber, and so is every thread.
-/

namespace ScriptMachine

/-- An error handler registered by a frame. -/
structure Trap where
  /-- The number of the frame. -/
  frame : Nat
  /-- The first instruction of the handler. -/
  ip : Nat
  /-- The registers to keep. -/
  stackTop : Nat
  /-- The register that receives the error. -/
  target : UInt8
deriving DecidableEq, Repr

/-- A host function that is being run. -/
structure NativeFrame where
  /-- The host function. -/
  ref : Ref .native
  /-- The place of its receiver. -/
  base : Nat
  /-- The number of its arguments, the receiver included. -/
  count : Nat
deriving DecidableEq, Repr

/-- What a fiber is doing. -/
inductive FiberState where
  /-- Nothing. -/
  | idle
  /-- It runs a script. -/
  | running
  /-- A host function has suspended it. -/
  | suspended
deriving DecidableEq, Repr, Inhabited

/-- The name of the state. -/
def FiberState.name : FiberState → String
  | .idle => "idle"
  | .running => "running"
  | .suspended => "suspended"

/-- Where a suspended fiber goes on. -/
structure SuspendPoint where
  /-- The register that receives the value it is woken with. -/
  target : Option UInt8
  /-- The number of frames below the suspended run loop. -/
  rootDepth : Nat
  /-- The number of registers below the suspended call. -/
  stackBase : Nat
deriving DecidableEq, Repr

/-- What a fiber has done. -/
structure Counters where
  /-- Frames entered. -/
  calls : Nat := 0
  /-- Host functions run. -/
  nativeCalls : Nat := 0
  /-- Calls in place of a frame. -/
  tailCalls : Nat := 0
  /-- Frames given up for an error. -/
  unwound : Nat := 0
  /-- Errors caught. -/
  caught : Nat := 0
  /-- Generators created. -/
  generators : Nat := 0
deriving DecidableEq, Repr, Inhabited

/-- A line of execution. -/
structure Fiber where
  /-- Registers and frames. -/
  stack : Stack
  /-- The error handlers, the innermost first. -/
  traps : List Trap := []
  /-- The host functions it is inside of, the innermost first. -/
  natives : List NativeFrame := []
  /-- How many run loops and host functions are active. -/
  nativeCalls : Nat := 0
  /-- How many run loops are active. -/
  nesting : Nat := 0
  /-- How many calls that wait for their result are active. -/
  syncCalls : Nat := 0
  /-- What it is doing. -/
  state : FiberState := .idle
  /-- Where it goes on, if it is suspended. -/
  suspended : Option SuspendPoint := none
  /-- What it has done. -/
  counters : Counters := {}
  /-- It is a thread of another fiber. -/
  isThread : Bool := false
  /-- The function that it runs as a thread. -/
  entry : Option Value := none
deriving Inhabited

namespace Fiber

/-- A fiber with limits on registers and frames. -/
def create (maxSlots maxFrames : Nat) (isThread : Bool) : Fiber where
  stack := { maxSlots, maxFrames }
  isThread := isThread

/-- No run loop, host function or synchronous call is active. -/
def isOutermost (fiber : Fiber) : Bool :=
  fiber.nesting == 0 && fiber.natives.isEmpty && fiber.syncCalls == 0

/-- The fiber may be suspended: only the outermost run loop is active. -/
def canSuspend (fiber : Fiber) : Bool :=
  fiber.nesting == 1 && fiber.natives.isEmpty && fiber.syncCalls == 0

/-- The place of register zero of the current frame. -/
def base (fiber : Fiber) : Nat := (fiber.stack.current?.map Frame.base).getD 0

/-- Forget the error handlers of the frames from a number on. -/
def dropTraps (fiber : Fiber) (depth : Nat) : Fiber :=
  { fiber with traps := fiber.traps.dropWhile fun trap => depth ≤ trap.frame }

end Fiber

end ScriptMachine
