import ScriptMachine.Machine.Basic

/-!
# Computations of the machine

A computation changes the machine and ends with a result, with a fault, or by running out of
steps.  A fault can be caught; running out of steps cannot, since it says nothing about what the
computation would have done, and leaves the machine in the middle of it.  A failing computation
keeps the changes it has made.
-/

namespace ScriptMachine

/-- How a computation ends without a result. -/
inductive Stop where
  /-- A fault was raised. -/
  | raised (fault : Fault)
  /-- The steps allowed were not enough. -/
  | exhausted
deriving DecidableEq

/-- A computation of the machine. -/
abbrev Exec := EStateM Stop Machine

namespace Exec

variable {α : Type}

/-- Fail with a fault. -/
def raise (fault : Fault) : Exec α := fun machine => .error (.raised fault) (machine.record fault)

/-- Fail with a fault in the place of another one. -/
def replaceFault (cause fault : Fault) : Exec α := fun machine =>
  .error (.raised fault) (machine.note (.replaced cause) fault)

/-- Fail with a fault that has left a thread. -/
def surface (fault : Fault) : Exec α := fun machine =>
  .error (.raised fault) (machine.note .surfaced fault)

/-- Write down what happens to a fault. -/
def note (occurrence : Occurrence) (fault : Fault) : Exec Unit := fun machine =>
  .ok () (machine.note occurrence fault)

/-- Fail with a fault that has been raised before. -/
def passOn (fault : Fault) : Exec α := throw (.raised fault)

/-- Give up for want of steps. -/
def exhaust : Exec α := throw .exhausted

/-- The result of a pure operation that may fail. -/
def ofExcept : Except Fault α → Exec α
  | .ok value => pure value
  | .error fault => raise fault

/-- The result of a computation that has been tried before. -/
def ofResult : Except Fault α → Exec α
  | .ok value => pure value
  | .error fault => passOn fault

/-- Run a computation and report its result or its fault. -/
def attempt (action : Exec α) : Exec (Except Fault α) := fun machine =>
  match action machine with
  | .ok value next => .ok (.ok value) next
  | .error (.raised fault) next => .ok (.error fault) next
  | .error .exhausted next => .error .exhausted next

/-- Run a computation and put something right afterwards, whether it has a result or fails. -/
def ensuring (restore : Machine → Machine) (action : Exec α) : Exec α := fun machine =>
  match action machine with
  | .ok value next => .ok value (restore next)
  | .error (.raised fault) next => .error (.raised fault) (restore next)
  | .error .exhausted next => .error .exhausted next

/-- Keep some objects alive while a computation runs. -/
def keeping (indices : List Nat) (action : Exec α) : Exec α := do
  let held := (← get).held
  modify fun machine => { machine with held := indices ++ machine.held }
  action.ensuring fun machine => { machine with held }

/-- Keep some values alive while a computation runs. -/
def holding (values : List Value) (action : Exec α) : Exec α :=
  keeping (Value.addresses values) action

/-! ## Objects -/

/-- Create an object. -/
def alloc {kind : Kind} (content : Content kind) : Exec (Ref kind) := fun machine =>
  let (ref, heap) := machine.heap.alloc content
  .ok ref { machine with heap }

/-- The content of an object. -/
def read {kind : Kind} (ref : Ref kind) : Exec (Content kind) := fun machine =>
  .ok (machine.heap.get ref) machine

/-- Change the content of an object. -/
def update {kind : Kind} (ref : Ref kind) (change : Content kind → Content kind) : Exec Unit :=
  modify fun machine => { machine with heap := machine.heap.modify ref change }

/-- Replace the content of an object. -/
def write {kind : Kind} (ref : Ref kind) (content : Content kind) : Exec Unit :=
  update ref fun _ => content

/-- Replace the content of an object where the change is possible, and report whether it was. -/
def replace? {kind : Kind} (ref : Ref kind) (change : Content kind → Option (Content kind)) :
    Exec Bool := fun machine =>
  match change (machine.heap.get ref) with
  | some content => .ok true { machine with heap := machine.heap.set ref content }
  | none => .ok false machine

/-- An array of some values. -/
def newArray (values : Array Value) : Exec Value :=
  return .array (← alloc (Sequence.ofValues values))

/-- The hook of a value. -/
def hook? (value : Value) (hook : Hook) : Exec (Option Value) := fun machine =>
  .ok (machine.heap.hook? value hook) machine

/-! ## Registers and frames -/

/-- Read something off the running fiber. -/
def ofFiber (view : Fiber → α) : Exec α := fun machine =>
  .ok (view machine.fiber) machine

/-- Change the running fiber. -/
def onFiber (change : Fiber → Fiber) : Exec Unit := fun machine =>
  .ok () (machine.mapFiber change)

/-- Change registers and frames. -/
def onStack (change : Stack → Stack) : Exec Unit := fun machine =>
  .ok () (machine.mapStack change)

/-- Count something. -/
def count (change : Counters → Counters) : Exec Unit := fun machine =>
  .ok () (machine.count change)

/-- Go on only where registers and frames have room. -/
def requireRoom (room : Stack → Bool) : Exec Unit := do
  unless ← ofFiber fun fiber => room fiber.stack do raise .stackOverflow

/-- The number of registers in use. -/
def stackSize : Exec Nat := ofFiber (·.stack.size)

/-- The number of frames. -/
def depth : Exec Nat := ofFiber (·.stack.depth)

/-- Add a register. -/
def push (value : Value) : Exec Unit := do
  requireRoom (·.hasRoom)
  onStack (·.append value)

/-- Grow to at least so many registers. -/
def ensure (size : Nat) : Exec Unit := do
  requireRoom (·.fits size)
  onStack (·.grow size)

/-- Drop the registers from a place on. -/
def truncate (size : Nat) : Exec Unit := onStack (·.truncate size)

/-- Have exactly so many registers. -/
def resize (size : Nat) : Exec Unit := do
  truncate size
  ensure size

/-- Assign the register at a place. -/
def setPlace (place : Nat) (value : Value) : Exec Unit := do
  requireRoom (·.admits place)
  onStack (·.put place value)

/-- The values of a range of registers. -/
def range (start stop : Nat) : Exec (Array Value) := ofFiber (·.stack.range start stop)

/-- Null in the registers of a range. -/
def clearRange (start stop : Nat) : Exec Unit := onStack (·.clearRange start stop)

/-- Move the values of a range of registers out and leave nulls. -/
def takeRange (start stop : Nat) : Exec (Array Value) := do
  let values ← range start stop
  clearRange start stop
  return values

/-- Add a frame with its window. -/
def pushFrame (frame : Frame) : Exec Unit := do
  requireRoom (·.admitsFrame frame)
  onStack (·.enter frame)

/-- The current frame. -/
def frame : Exec Frame := do
  match ← ofFiber (·.stack.current?) with
  | some current => return current
  | none => raise .noFrame

/-- Remove the current frame. -/
def popFrame : Exec Frame := do
  let current ← frame
  onStack (·.leave)
  return current

/-- Go on at an instruction of the current frame. -/
def goTo (ip : Nat) : Exec Unit := onStack (·.modifyFrame ({ · with ip }))

/-- The value of a register of the current frame. -/
def register (number : UInt8) : Exec Value :=
  ofFiber fun fiber => fiber.stack.get (fiber.base + number.toNat)

/-- Assign a register of the current frame. -/
def setRegister (number : UInt8) (value : Value) : Exec Unit := do
  let base ← ofFiber (·.base)
  setPlace (base + number.toNat) value

/-- Assign the register of the current frame that receives a result, if there is one. -/
def deliver (target : Option UInt8) (value : Value) : Exec Unit :=
  match target with
  | some number => setRegister number value
  | none => pure ()

end Exec

end ScriptMachine
