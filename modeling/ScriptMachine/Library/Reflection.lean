import ScriptMachine.Library.Base

/-!
# Reflective host functions

Host functions through which a script looks at its own call and uses the machine as the host does:
arguments and bound values, nested calls and entries, generators, suspension and order.
-/

namespace ScriptMachine

/-- A reflective host function. -/
inductive Reflection where
  /-- All arguments as an array. -/
  | args
  /-- The number of arguments. -/
  | count
  /-- The receiver. -/
  | this
  /-- The first argument as an integer. -/
  | integer
  /-- The length of the array that is the first argument. -/
  | array
  /-- The bound value at the index given by the first argument. -/
  | outer
  /-- Append the first argument to the array bound first. -/
  | push
  /-- Call the first argument with the second as the receiver. -/
  | sync
  /-- Enter the machine with the first argument. -/
  | run
  /-- Raise the first argument. -/
  | throw
  /-- Fail with the text of the first argument. -/
  | fail
  /-- Go on with the generator that is the first argument. -/
  | resume
  /-- Wake the running fiber. -/
  | wakeup
  /-- Suspend the running fiber. -/
  | suspend
  /-- The state of the running fiber. -/
  | state
  /-- The number of frames of the running fiber. -/
  | frames
  /-- The order of two arguments as a number. -/
  | compare
  /-- Remove the last value of the array that is the first argument. -/
  | pop
deriving DecidableEq, Repr

namespace Reflection

/-- Every reflective function. -/
def all : List Reflection :=
  [.args, .count, .this, .integer, .array, .outer, .push, .sync, .run, .throw, .fail, .resume,
    .wakeup, .suspend, .state, .frames, .compare, .pop]

/-- The name of a function. -/
def name : Reflection → String
  | .args => "args"
  | .count => "count"
  | .this => "this"
  | .integer => "integer"
  | .array => "array"
  | .outer => "outer"
  | .push => "push"
  | .sync => "sync"
  | .run => "run"
  | .throw => "throw"
  | .fail => "fail"
  | .resume => "resume"
  | .wakeup => "wakeup"
  | .suspend => "suspend"
  | .state => "state"
  | .frames => "frames"
  | .compare => "compare"
  | .pop => "pop"

/-- The function of a name. -/
def ofName? (name : String) : Option Reflection :=
  all.find? fun function => function.name == name

open Exec

/-- Run a reflective function. -/
def perform (engine : Engine) : Reflection → Exec NativeReturn
  | .args => return .value (← newArray (← allArguments))
  | .count => return .value (.integer (Int64.ofNat (← argumentCount)))
  | .this => return .value (← argument 0)
  | .integer => return .value (.integer (← integerArgument 1))
  | .array => do
    let sequence : Sequence ← read (← arrayArgument 1)
    return .value (.integer (Int64.ofNat sequence.length))
  | .outer => do
    let index ← integerArgument 1
    return .value (← boundValue index.toUInt64.toNat)
  | .push => do
    let value ← argument 1
    match ← boundValue 0 with
    | .array ref => update ref fun (sequence : Sequence) => sequence.push value
    | _ => pure ()
    return .nothing
  | .sync => do
    let callee ← argument 1
    let this ← argument 2
    return .value (← engine.callSync callee this (← argumentsFrom 3))
  | .run => do
    let callee ← argument 1
    let outcome ← Exec.run engine callee (← argumentsFrom 2)
    return .value outcome.value
  | .throw => do raise (.thrown (← argument 1))
  | .fail => do raise (.custom (← argument 1).display)
  | .resume => do
    match ← argument 1 with
    | .generator ref => return .value (← resumeGenerator engine ref)
    | _ => return .nothing
  | .wakeup => do
    let outcome ← Exec.wakeup engine (← argument 1)
    return .value outcome.value
  | .suspend => return .suspend (← argument 1)
  | .state => return .value (.ofText (← ofFiber (·.state.name)))
  | .frames => return .value (.integer (Int64.ofNat (← depth)))
  | .compare => do
    let order ← order engine (← argument 1) (← argument 2)
    return .value (.integer (orderNumber order))
  | .pop => do
    let ref ← arrayArgument 1
    let sequence : Sequence ← read ref
    let (value, rest) ← ofExcept sequence.pop
    write ref rest
    return .value value

end Reflection

end ScriptMachine
