import ScriptMachine.Machine.Exec

/-!
# Nested execution

Hooks, initialisers, comparators and host functions run script code in the middle of an operation.
The operations therefore take an engine: the means to call a value on arguments in registers, to
run the frames above a depth, and to run a function of the host.  An engine that is out of steps
does nothing but say so.
-/

namespace ScriptMachine

/-- How running script code comes to an end. -/
inductive Outcome where
  /-- The call has returned. -/
  | completed (value : Value)
  /-- A host function has suspended the fiber. -/
  | suspended (value : Value)
deriving DecidableEq

/-- The value that was returned or handed out. -/
def Outcome.value : Outcome → Value
  | .completed value => value
  | .suspended value => value

/-- What a host function gives back. -/
inductive NativeReturn where
  /-- A value. -/
  | value (value : Value)
  /-- No value, which scripts see as null. -/
  | nothing
  /-- A wish to suspend the fiber and hand out a value. -/
  | suspend (value : Value)
deriving DecidableEq

/-- The means to run script code and functions of the host. -/
structure Engine where
  /-- Call a value whose receiver and arguments stand in so many registers from a place on, and
  wait for its result. -/
  callAt : Value → Nat → Nat → Exec Value
  /-- Run the frames at and above a depth until the one at that depth returns or the fiber is
  suspended. -/
  runFrames : Nat → Exec Outcome
  /-- Run the function of the host that a symbol stands for. -/
  native : String → Exec NativeReturn

namespace Engine

/-- The engine that has no steps left. -/
def spent : Engine where
  callAt _ _ _ := Exec.exhaust
  runFrames _ := Exec.exhaust
  native _ := Exec.exhaust

/-- Add registers for a receiver and arguments. -/
def pushArguments (this : Value) (arguments : List Value) : Exec Unit := do
  Exec.push this
  arguments.forM Exec.push

/-- Call a value with a receiver and arguments and wait for its result.  The fiber cannot be
suspended inside such a call. -/
def callSync (engine : Engine) (callee this : Value) (arguments : List Value) : Exec Value :=
  Exec.holding (callee :: this :: arguments) do
    let base ← Exec.stackSize
    Exec.ensuring (·.mapStack (·.truncate base)) do
      pushArguments this arguments
      engine.callAt callee base (arguments.length + 1)

end Engine

end ScriptMachine
