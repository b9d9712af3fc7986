import ScriptMachine.Value.Basic

/-!
# Generators

A generator is the activation of a script function that can be left and entered again.  While it
is suspended it holds the registers of the activation, the instruction to go on with and the error
handlers that the activation had registered, measured from the start of its registers.  A running
generator holds nothing, because its frame does; a dead one is never entered again.
-/

namespace ScriptMachine

/-- The states of a generator. -/
inductive GeneratorState where
  /-- It waits to be entered. -/
  | suspended
  /-- A frame is running it. -/
  | running
  /-- It has returned or failed. -/
  | dead
deriving DecidableEq, Repr, Inhabited

/-- The name of the state. -/
def GeneratorState.name : GeneratorState → String
  | .suspended => "suspended"
  | .running => "running"
  | .dead => "dead"

/-- An error handler of a suspended activation. -/
structure SavedTrap where
  /-- The first instruction of the handler. -/
  ip : Nat
  /-- The registers to restore, counted from register zero of the activation. -/
  offset : Nat
  /-- The register that receives the error. -/
  target : UInt8
deriving DecidableEq, Repr

/-- A generator. -/
structure Generator where
  /-- The function it runs. -/
  closure : Ref .closure
  /-- Its state. -/
  state : GeneratorState := .suspended
  /-- The registers of the activation while it is suspended. -/
  window : Array Value := #[]
  /-- The instruction to go on with. -/
  ip : Nat := 0
  /-- The error handlers of the activation, the innermost first. -/
  traps : List SavedTrap := []
deriving Inhabited

namespace Generator

/-- The generator while a frame runs it: the frame has its registers and handlers. -/
def entered (generator : Generator) : Generator :=
  { generator with state := .running, window := #[], traps := [] }

/-- The generator after its frame has been left at an instruction. -/
def left (generator : Generator) (window : Array Value) (ip : Nat) (traps : List SavedTrap) :
    Generator :=
  { generator with state := .suspended, window, ip, traps }

/-- The generator after its activation has ended. -/
def killed (generator : Generator) : Generator :=
  { generator with state := .dead, window := #[], traps := [] }

end Generator

end ScriptMachine
