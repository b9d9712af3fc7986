import ScriptMachine.Machine.Activation

/-!
# Recovery from faults

A frame registers an error handler, a trap, for the code that follows.  A fault goes to the
innermost trap that belongs to the run loop: the frames above the one with the trap are given up,
and that frame goes on at its handler with the error in a register.  A fault without such a trap,
and every fatal fault, gives up all frames of the run loop.
-/

namespace ScriptMachine.Exec

/-- Register a trap of the current frame, with its handler at an offset from the next
instruction. -/
def pushTrap (access : Access) (target : UInt8) (offset : Int32) : Exec Unit := do
  let frame ← frame
  let ip := frame.ip + offset.toInt
  if ip < 0 then raise (.trapHandler ip)
  let index := (← depth) - 1
  let stackTop ← stackSize
  let trap : Trap :=
    { frame := index, ip := ip.toNat, stackTop, target := access.handOn target }
  onFiber fun fiber => { fiber with traps := trap :: fiber.traps }

/-- Remove so many traps of the current frame. -/
def popTraps : Nat → Exec Unit
  | 0 => return ()
  | count + 1 => do
    let index := (← depth) - 1
    match ← ofFiber (·.traps) with
    | trap :: rest =>
      if trap.frame = index then
        onFiber fun fiber => { fiber with traps := rest }
        popTraps count
      else raise .trapUnderflow
    | [] => raise .trapUnderflow

/-- Give up the current frame. -/
def discardFrame : Exec Unit := do
  match ← ofFiber (·.stack.current?) with
  | none => return ()
  | some frame =>
    onStack (·.leave)
    killGenerator frame
    Exec.count fun counters => { counters with unwound := counters.unwound + 1 }

/-- Give up so many frames. -/
def discardFrames : Nat → Exec Unit
  | 0 => return ()
  | count + 1 => do
    discardFrame
    discardFrames count

/-- Give up the frames from a depth on and their traps. -/
def unwindTo (root : Nat) : Exec Unit := do
  discardFrames ((← depth) - root)
  onFiber (·.dropTraps root)

/-- Go on at the handler of a trap with a fault. -/
def enterTrap (trap : Trap) (fault : Fault) : Exec Unit := do
  discardFrames ((← depth) - (trap.frame + 1))
  truncate trap.stackTop
  let frame ← frame
  goTo trap.ip
  ensure frame.top
  setRegister trap.target fault.toValue
  Exec.count fun counters => { counters with caught := counters.caught + 1 }
  note (.caught trap) fault

/-- Bring a fault to the innermost trap of the run loop above a depth, or give up its frames and
fail. -/
def recover (fault : Fault) (root : Nat) : Exec Unit := do
  match ← ofFiber (·.traps) with
  | trap :: rest =>
    if root ≤ trap.frame ∧ !fault.isFatal then
      onFiber fun fiber => { fiber with traps := rest }
      enterTrap trap fault
    else
      unwindTo root
      passOn fault
  | [] =>
    unwindTo root
    passOn fault

end ScriptMachine.Exec
