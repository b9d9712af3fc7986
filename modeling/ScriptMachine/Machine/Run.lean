import ScriptMachine.Machine.Dispatch

/-!
# Run loops

A run loop carries out the instructions of the current frame until the frame it was started for
returns or the fiber is suspended.  A frame whose instructions are used up returns null.  The
engine with a number of steps runs loops of fewer steps on engines with fewer steps, so the number
bounds both the length of every run loop and how deeply they are nested.
-/

namespace ScriptMachine

/-- The functions of the host: what the symbol of a host function stands for. -/
abbrev Host := String → Engine → Exec NativeReturn

namespace Exec

/-- The next instruction of the current frame, if there is one. -/
def fetch : Exec (Option Instruction) := do
  let frame ← frame
  match frame.closure.routine.code[frame.ip]? with
  | some instruction =>
    goTo (frame.ip + 1)
    return some instruction
  | none => return none

/-- Carry out an instruction; without one, return null from the current frame. -/
def step (engine : Engine) : Option Instruction → Exec Flow
  | some instruction => dispatch .direct engine instruction
  | none => returnValue .null

/-- Carry out the next instruction of a run loop and recover from its fault, if it has one.  The
result is how the run loop ends, unless it goes on. -/
def turn (engine : Engine) (root : Nat) : Exec (Option Outcome) := do
  let instruction ← fetch
  match ← attempt (step engine instruction) with
  | .ok .proceed => return none
  | .ok (.finish value) => return some (.completed value)
  | .ok (.suspend value) => return some (.suspended value)
  | .error fault =>
    recover fault root
    return none

/-- Run the frames at and above a depth for at most so many instructions. -/
def loop (engine : Engine) (root : Nat) : Nat → Exec Outcome
  | 0 => exhaust
  | steps + 1 => do
    match ← turn engine root with
    | none => loop engine root steps
    | some outcome => return outcome

/-- Count a run loop for the frames at and above a depth while it runs, unless run loops and host
functions are nested too deeply already. -/
def nestLoop (root : Nat) (body : Exec Outcome) : Exec Outcome := do
  let limit := (← get).limits.nativeCalls
  if limit ≤ (← ofFiber (·.nativeCalls)) then
    unwindTo root
    raise .nativeStackOverflow
  onFiber fun fiber =>
    { fiber with nativeCalls := fiber.nativeCalls + 1, nesting := fiber.nesting + 1 }
  ensuring (·.mapFiber fun fiber =>
    { fiber with nativeCalls := fiber.nativeCalls - 1, nesting := fiber.nesting - 1 }) body

/-- Run the frames at and above a depth. -/
def runFrames (engine : Engine) (steps root : Nat) : Exec Outcome :=
  nestLoop root (loop engine root steps)

end Exec

/-- The engine with a number of steps. -/
def Engine.ofHost (host : Host) : Nat → Engine
  | 0 => .spent
  | steps + 1 =>
    { callAt := fun callee base count => Exec.callAt (ofHost host steps) callee base count
      runFrames := fun root => Exec.runFrames (ofHost host steps) steps root
      native := fun symbol => host symbol (ofHost host steps) }

end ScriptMachine
