import ScriptMachine.Library.Arguments
import ScriptMachine.Machine.Loading
import ScriptMachine.Machine.Operator
import ScriptMachine.Machine.Thread

/-!
# The base library

Global functions for every script: output, assertions, lengths, sorting, collection of garbage,
suspension and threads.
-/

namespace ScriptMachine

/-- A function of the base library. -/
inductive BaseFunction where
  /-- Print the text of a value. -/
  | print
  /-- Raise a message unless a condition holds. -/
  | assert
  /-- The length of a string, an array or a table. -/
  | len
  /-- Sort an array in place. -/
  | sort
  /-- Free what is out of reach and count it. -/
  | collectGarbage
  /-- Suspend the fiber. -/
  | suspend
  /-- Create a thread for a function. -/
  | newThread
  /-- Run the function of a thread. -/
  | threadCall
  /-- Wake a thread. -/
  | threadWakeup
  /-- The state of a thread. -/
  | threadStatus
  /-- The root table. -/
  | getRootTable
deriving DecidableEq, Repr

namespace BaseFunction

/-- Every function of the library. -/
def all : List BaseFunction :=
  [.print, .assert, .len, .sort, .collectGarbage, .suspend, .newThread, .threadCall,
    .threadWakeup, .threadStatus, .getRootTable]

/-- The name of a function. -/
def name : BaseFunction → String
  | .print => "print"
  | .assert => "assert"
  | .len => "len"
  | .sort => "sort"
  | .collectGarbage => "collectgarbage"
  | .suspend => "suspend"
  | .newThread => "newthread"
  | .threadCall => "threadcall"
  | .threadWakeup => "threadwakeup"
  | .threadStatus => "threadstatus"
  | .getRootTable => "getroottable"

/-- How many arguments a function takes. -/
def arity : BaseFunction → Arity
  | .print | .len | .newThread | .threadStatus => .exactly 2
  | .assert | .sort | .threadCall | .threadWakeup => .atLeast 2
  | .collectGarbage | .getRootTable => .exactly 1
  | .suspend => .atLeast 1

/-- Which types a function takes. -/
def mask : BaseFunction → String
  | .len => ".s|a|t"
  | .sort => ".ac"
  | .newThread => ".c|y"
  | .threadCall | .threadWakeup | .threadStatus => ".v"
  | .print | .assert | .collectGarbage | .suspend | .getRootTable => ""

/-- The function as a value of scripts. -/
def toNative (function : BaseFunction) : Native where
  name := function.name
  symbol := function.name
  arity := function.arity
  masks := (TypeMask.parse function.mask).toOption.getD []

open Exec

/-- The number of entries of a value. -/
def length : Value → Exec Nat
  | .string bytes => return bytes.size
  | .array ref => do
    let sequence : Sequence ← read ref
    return sequence.length
  | .table ref => do
    let table : Table ← read ref
    return table.size
  | other => raise (.noLength other.typeName)

/-- Fail with a message unless the condition holds. -/
def assertion (condition message : Value) : Exec Unit :=
  if condition.isTruthy then return ()
  else if message.isNull then raise (.thrown (.ofText "assertion failed"))
  else raise (.thrown message)

/-- Run a function of the library. -/
def run (engine : Engine) : BaseFunction → Exec NativeReturn
  | .print => do
    let text ← displayText engine (← argument 1)
    modify fun machine => { machine with printed := machine.printed.push text }
    return .nothing
  | .assert => do
    assertion (← argument 1) (← argument 2)
    return .nothing
  | .len => return .value (.integer (Int64.ofNat (← length (← argument 1))))
  | .sort => do
    let array ← arrayArgument 1
    let comparator ← argument 2
    sortArray engine array (if comparator.isNull then none else some comparator)
    return .nothing
  | .collectGarbage => do
    let freed ← modifyGet Machine.collect
    return .value (.integer (Int64.ofNat freed))
  | .suspend => return .suspend (← argument 1)
  | .newThread => do
    let thread ← Exec.newThread
    setThreadFunction thread (← argument 1)
    return .value (.thread thread)
  | .threadCall => do
    let thread ← threadArgument 1
    let outcome ← Exec.threadCall engine thread (← argumentsFrom 2)
    return .value outcome.value
  | .threadWakeup => do
    let thread ← threadArgument 1
    let outcome ← Exec.threadWakeup engine thread (← argument 2)
    return .value outcome.value
  | .threadStatus => do
    let state ← threadState (← threadArgument 1)
    return .value (.ofText state.name)
  | .getRootTable => return .value (.table (← get).root)

/-- Make all functions of the library globals. -/
def install : Exec Unit := all.forM fun function => discard (registerNative function.toNative)

/-- The function of a name. -/
def ofName? (name : String) : Option BaseFunction :=
  all.find? fun function => function.name == name

end BaseFunction

end ScriptMachine
