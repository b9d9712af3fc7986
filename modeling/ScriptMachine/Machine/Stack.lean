import ScriptMachine.Fault
import ScriptMachine.Object.Routine

/-!
# Registers and frames

Every activation of a script function owns a window of registers.  A call places the receiver and
the arguments in consecutive registers of the caller; the window of the callee starts at the
first of them, so that windows overlap.  The stack has a largest number of registers and a largest
number of frames, and remembers the largest number of registers it ever had.  It also keeps a record
of all numbers of registers it has had, which nothing ever reads.
-/

namespace ScriptMachine

/-- An activation of a script function. -/
structure Frame where
  /-- The closure being run. -/
  ref : Ref .closure
  /-- Its body and captured variables. -/
  closure : Closure
  /-- The next instruction. -/
  ip : Nat
  /-- The place of register zero. -/
  base : Nat
  /-- The register of the caller that receives the result. -/
  target : Option UInt8
  /-- Returning from this frame ends its run loop. -/
  isRoot : Bool
  /-- The generator that the frame runs. -/
  generator : Option (Ref .generator) := none
deriving Inhabited

/-- One past the last register of the frame.  The sum is a machine word as long as the window has
fewer than `2 ^ 32` registers, as that of a function from a stream has, and begins below `2 ^ 63`;
frames begin at registers in use or right behind them. -/
def Frame.top (frame : Frame) : Nat := frame.base + frame.closure.routine.stackSize

/-- Registers and frames. -/
structure Stack where
  /-- The registers in use. -/
  slots : Array Value := #[]
  /-- The frames, the current one last. -/
  frames : Array Frame := #[]
  /-- The largest number of registers. -/
  maxSlots : Nat
  /-- The largest number of frames. -/
  maxFrames : Nat
  /-- The largest number of registers ever in use. -/
  peak : Nat := 0
  /-- The numbers of registers that have been in use, the last one first. -/
  sizes : List Nat := [0]
deriving Inhabited

namespace Stack

/-- The number of registers in use. -/
def size (stack : Stack) : Nat := stack.slots.size

/-- The number of frames. -/
def depth (stack : Stack) : Nat := stack.frames.size

/-- So many registers are allowed. -/
def fits (stack : Stack) (size : Nat) : Bool := size ≤ stack.maxSlots

/-- Grow to at least so many registers. -/
def grow (stack : Stack) (size : Nat) : Stack :=
  if stack.size < size then
    let missing := Array.replicate (size - stack.size) Value.null
    { stack with
      slots := stack.slots ++ missing
      peak := max stack.peak size
      sizes := size :: stack.sizes }
  else stack

/-- Grow to at least so many registers, unless that is more than allowed. -/
def ensure? (stack : Stack) (size : Nat) : Option Stack :=
  if stack.fits size then some (stack.grow size) else none

/-- There is room for one more register. -/
def hasRoom (stack : Stack) : Bool := stack.size < stack.maxSlots

/-- Add a register. -/
def append (stack : Stack) (value : Value) : Stack :=
  { stack with
    slots := stack.slots.push value
    peak := max stack.peak (stack.size + 1)
    sizes := (stack.size + 1) :: stack.sizes }

/-- Add a register, unless the stack is full. -/
def push? (stack : Stack) (value : Value) : Option Stack :=
  if stack.hasRoom then some (stack.append value) else none

/-- Drop the registers from a place on. -/
def truncate (stack : Stack) (size : Nat) : Stack :=
  { stack with
    slots := stack.slots.shrink size
    sizes := if size < stack.size then size :: stack.sizes else stack.sizes }

/-- Null in the registers of a range. -/
def clearRange (stack : Stack) (start stop : Nat) : Stack :=
  let stop := min stop stack.size
  { stack with
    slots := fill (stop - start) start stack.slots }
where
  /-- Null in so many registers from a place on. -/
  fill : Nat → Nat → Array Value → Array Value
    | 0, _, slots => slots
    | count + 1, index, slots => fill count (index + 1) (slots.setIfInBounds index .null)

/-- The value of a register; null beyond the last. -/
def get (stack : Stack) (place : Nat) : Value := stack.slots.getD place .null

/-- The value of a register that is in use. -/
def get? (stack : Stack) (place : Nat) : Option Value := stack.slots[place]?

/-- The register can be assigned. -/
def admits (stack : Stack) (place : Nat) : Bool := place < stack.size || stack.fits (place + 1)

/-- Assign a register that is in use. -/
def assign (stack : Stack) (place : Nat) (value : Value) : Stack :=
  { stack with slots := stack.slots.setIfInBounds place value }

/-- Assign a register, growing as far as needed. -/
def put (stack : Stack) (place : Nat) (value : Value) : Stack :=
  (stack.grow (place + 1)).assign place value

/-- Assign a register, unless there would be too many of them. -/
def set? (stack : Stack) (place : Nat) (value : Value) : Option Stack :=
  if stack.admits place then some (stack.put place value) else none

/-- The values of a range of registers, as far as they are in use. -/
def range (stack : Stack) (start stop : Nat) : Array Value := stack.slots.extract start stop

/-- Move the values of a range of registers out and leave nulls. -/
def takeRange (stack : Stack) (start stop : Nat) : Array Value × Stack :=
  (stack.range start stop, stack.clearRange start stop)

/-- Move the value of a register out and leave null. -/
def take (stack : Stack) (place : Nat) : Value × Stack :=
  (stack.get place, stack.clearRange place (place + 1))

/-- There is room for a frame and its window. -/
def admitsFrame (stack : Stack) (frame : Frame) : Bool :=
  stack.depth < stack.maxFrames && stack.fits frame.top

/-- Add a frame. -/
def addFrame (stack : Stack) (frame : Frame) : Stack :=
  { stack with frames := stack.frames.push frame }

/-- Add a frame with its window. -/
def enter (stack : Stack) (frame : Frame) : Stack := (stack.grow frame.top).addFrame frame

/-- Add a frame with its window, unless there are too many frames or registers. -/
def pushFrame? (stack : Stack) (frame : Frame) : Option Stack :=
  if stack.admitsFrame frame then some (stack.enter frame) else none

/-- The current frame. -/
def current? (stack : Stack) : Option Frame := stack.frames.back?

/-- Remove the current frame. -/
def leave (stack : Stack) : Stack := { stack with frames := stack.frames.pop }

/-- Change the current frame. -/
def modifyFrame (stack : Stack) (change : Frame → Frame) : Stack :=
  { stack with frames := stack.frames.modify (stack.depth - 1) change }

/-- The share of the largest number of registers that is in use, in percent. -/
def utilization (stack : Stack) : Binary64 :=
  if stack.maxSlots = 0 then ⟨0⟩
  else
    ((Binary64.ofMagnitude false stack.size).div (.ofMagnitude false stack.maxSlots)).mul
      (.ofMagnitude false 100)

end Stack

end ScriptMachine
