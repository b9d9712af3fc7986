import ScriptMachine.Machine.Access
import ScriptMachine.Machine.Slot

/-!
# Captured variables

A closure is created with a cell for each variable that its function captures: a new cell with the
value of a register, a cell that it shares with the function creating it, or a new cell with the
value of a slot of the receiver.
-/

namespace ScriptMachine

/-- The cell of a closure at an index. -/
def Closure.cell (closure : Closure) (index : Nat) : Except Fault (Ref .cell) :=
  match closure.cells[index]? with
  | some cell => .ok cell
  | none => .error (.outerRange index closure.routine.displayName)

namespace Exec

/-- The captured variable of the current frame at an index. -/
def outerCell (index : Int32) : Exec (Ref .cell) := do
  let frame ← frame
  if index.toInt < 0 then raise (.outerIndex index.toInt)
  ofExcept (frame.closure.cell index.toInt.toNat)

/-- The cell for a variable captured from the current frame. -/
def captureCell (access : Access) (engine : Engine) (creator : Closure) :
    CaptureSource → Exec (Ref .cell)
  | .register number => do
    if 256 ≤ number.toNat then raise (.captureRegister number.toNat)
    alloc (← access.read (UInt8.ofNat number.toNat) : Value)
  | .outer index => ofExcept (creator.cell index.toNat)
  | .symbol name => do
    let this ← access.read 0
    match ← attempt (getSlot engine this (.ofText name)) with
    | .ok value => alloc (value : Value)
    | .error cause => replaceFault cause (.missingKey name)

/-- The cells for several variables captured from the current frame, after those made already. -/
def captureCells (access : Access) (engine : Engine) (creator : Closure) :
    List Capture → Array (Ref .cell) → Exec (Array (Ref .cell))
  | [], cells => return cells
  | capture :: rest, cells => do
    let cell ← keeping (cells.toList.map Ref.index)
      (captureCell access engine creator capture.source)
    captureCells access engine creator rest (cells.push cell)

/-- Create a closure over the nested function at an index. -/
def makeClosure (access : Access) (engine : Engine) (target : UInt8) (index : Int32) :
    Exec Unit := do
  let frame ← frame
  let nested :=
    if index.toInt < 0 then none
    else frame.closure.routine.functions[index.toInt.toNat]?
  match nested with
  | none => raise (.functionRange index.toInt)
  | some routine =>
    let cells ← captureCells access engine frame.closure routine.captures.toList #[]
    let ref ← alloc ({ routine, cells } : Closure)
    access.write target (.closure ref)

end Exec

end ScriptMachine
