import ScriptMachine.Machine.Access
import ScriptMachine.Machine.Call

/-!
# Activations

How frames come and go: returning hands the result to the caller, calling in place of a frame puts
the callee where the caller was, yielding moves registers and error handlers of the frame into its
generator, and resuming moves them back above the current registers.
-/

namespace ScriptMachine

/-- How the run loop goes on after an instruction. -/
inductive Flow where
  /-- With the next instruction. -/
  | proceed
  /-- The run loop ends with a result. -/
  | finish (value : Value)
  /-- The run loop ends because the fiber is suspended. -/
  | suspend (value : Value)
deriving DecidableEq

namespace Exec

/-- End the activation of the generator of a frame that has been left for good. -/
def killGenerator (frame : Frame) : Exec Unit :=
  match frame.generator with
  | some ref => update ref fun (generator : Generator) => generator.killed
  | none => pure ()

/-- Hand the result of a frame that has been removed to its caller. -/
def leaveFrame (frame : Frame) (value : Value) : Exec Flow := do
  let depth ← depth
  onFiber (·.dropTraps depth)
  if frame.isRoot then return .finish value
  let caller ← Exec.frame
  resize caller.top
  deliver frame.target value
  return .proceed

/-- Return from the current frame. -/
def returnValue (value : Value) : Exec Flow := do
  let frame ← popFrame
  killGenerator frame
  leaveFrame frame value

/-- Begin a call in registers of the current frame. -/
def callInstruction (access : Access) (engine : Engine) (callee : Value)
    (instruction : Instruction) : Exec Flow := do
  let count := instruction.third.toNat
  let base ← access.span instruction.second count
  let target := instruction.target?.map access.handOn
  match ← callValue engine callee base count target false with
  | .pushed => return .proceed
  | .done value =>
    access.deliver instruction.target? value
    return .proceed
  | .suspend value =>
    unless ← ofFiber (·.canSuspend) do raise .nestedSuspension
    onFiber fun fiber => { fiber with suspended := some ⟨target, 0, 0⟩ }
    return .suspend value

/-- The number of arguments fits a function that can take the place of the current frame: one
that is no generator function, while the frame runs no generator and has no error handlers. -/
def replacesFrame (frame : Frame) (closure : Closure) (count : Nat) : Exec Bool := do
  let index := (← depth) - 1
  let ownsTrap ← ofFiber fun fiber => fiber.traps.head?.any fun trap => trap.frame == index
  return !closure.routine.isGenerator && frame.generator.isNone && !ownsTrap &&
    closure.routine.accepts count

/-- Call a function in the place of the current frame. -/
def replaceFrame (access : Access) (ref : Ref .closure) (instruction : Instruction) :
    Exec Flow := do
  let count := instruction.third.toNat
  let first ← access.span instruction.second count
  let frame ← popFrame
  let arguments ← takeRange first (first + count)
  clearRange frame.base frame.top
  arguments.toList.zipIdx.forM fun (value, offset) => setPlace (frame.base + offset) value
  enterClosure ref frame.base count frame.target frame.isRoot
  Exec.count fun counters => { counters with tailCalls := counters.tailCalls + 1 }
  return .proceed

/-- Call a value, in the place of the current frame where that is possible. -/
def tailCall (access : Access) (engine : Engine) (callee : Value) (instruction : Instruction) :
    Exec Flow := do
  match callee with
  | .closure ref =>
    let closure : Closure ← read ref
    if ← replacesFrame (← frame) closure instruction.third.toNat then
      replaceFrame access ref instruction
    else callInstruction access engine callee instruction
  | other => callInstruction access engine other instruction

/-! ## Generators -/

/-- Leave the current frame in its generator and hand a value to the caller. -/
def yieldValue (value : Value) : Exec Flow := do
  match (← frame).generator with
  | none => raise .yieldOutside
  | some ref =>
    let index := (← depth) - 1
    let frame ← popFrame
    let own ← ofFiber fun fiber => fiber.traps.takeWhile fun trap => trap.frame == index
    onFiber fun fiber =>
      { fiber with traps := fiber.traps.dropWhile fun trap => trap.frame == index }
    let saved := own.map fun trap =>
      ({ ip := trap.ip, offset := trap.stackTop - frame.base, target := trap.target } : SavedTrap)
    let window ← takeRange frame.base frame.top
    update ref fun (generator : Generator) => generator.left window frame.ip saved
    leaveFrame frame value

/-- Go on with a generator in a frame above the current registers. -/
def resumeInto (ref : Ref .generator) (target : Option UInt8) (isRoot : Bool) : Exec Unit := do
  let generator : Generator ← read ref
  match generator.state with
  | .running => raise .resumeActive
  | .dead => raise .resumeDead
  | .suspended =>
    let closure : Closure ← read generator.closure
    let base ← stackSize
    update ref Generator.entered
    let pushed ← attempt do
      generator.window.forM push
      pushFrame
        { ref := generator.closure, closure, ip := generator.ip, base, target, isRoot,
          generator := some ref }
    match pushed with
    | .error fault =>
      truncate base
      update ref Generator.killed
      passOn fault
    | .ok () =>
      let index := (← depth) - 1
      let restored := generator.traps.map fun trap =>
        ({ frame := index, ip := trap.ip, stackTop := base + trap.offset,
           target := trap.target } : Trap)
      onFiber fun fiber => { fiber with traps := restored ++ fiber.traps }
      Exec.count fun counters => { counters with calls := counters.calls + 1 }

/-- Go on with a generator and wait for the next value it yields or returns. -/
def resumeGenerator (engine : Engine) (ref : Ref .generator) : Exec Value := do
  let size ← stackSize
  let root ← depth
  onFiber fun fiber => { fiber with syncCalls := fiber.syncCalls + 1 }
  let result ← attempt do
    resumeInto ref none true
    engine.runFrames root
  onFiber fun fiber => { fiber with syncCalls := fiber.syncCalls - 1 }
  resize size
  match ← ofResult result with
  | .completed value => return value
  | .suspended _ => raise .nestedSuspension

end Exec

end ScriptMachine
