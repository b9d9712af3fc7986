import ScriptMachine.Library.Reflection
import ScriptMachine.Machine.Run

/-!
# The standard host

The host whose functions are the base library and the reflective functions, by their names.
-/

namespace ScriptMachine

/-- The host with all functions of the library. -/
def standardHost : Host := fun symbol engine =>
  match Reflection.ofName? symbol with
  | some function => function.perform engine
  | none =>
    match BaseFunction.ofName? symbol with
    | some function => function.run engine
    | none => return .nothing

/-- The engine of the standard host with a number of steps. -/
def standardEngine (steps : Nat) : Engine := .ofHost standardHost steps

end ScriptMachine
