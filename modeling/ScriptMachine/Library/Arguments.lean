import ScriptMachine.Machine.Engine

/-!
# Arguments of host functions

A host function finds its receiver at position zero and its arguments behind it.  Positions beyond
the last argument read as null.
-/

namespace ScriptMachine.Exec

/-- The number of arguments of the running host function, the receiver included. -/
def argumentCount : Exec Nat :=
  ofFiber fun fiber => (fiber.natives.head?.map NativeFrame.count).getD 0

/-- An argument of the running host function. -/
def argument (position : Nat) : Exec Value :=
  ofFiber fun fiber =>
    match fiber.natives with
    | call :: _ =>
      if position < call.count then fiber.stack.get (call.base + position) else .null
    | [] => .null

/-- All arguments of the running host function, the receiver included. -/
def allArguments : Exec (Array Value) :=
  ofFiber fun fiber =>
    match fiber.natives with
    | call :: _ => fiber.stack.range call.base (call.base + call.count)
    | [] => #[]

/-- The arguments of the running host function from a position on. -/
def argumentsFrom (position : Nat) : Exec (List Value) :=
  return (← allArguments).toList.drop position

/-- A value bound to the running host function. -/
def boundValue (index : Nat) : Exec Value := do
  match ← ofFiber (·.natives) with
  | call :: _ =>
    let native : Native ← read call.ref
    return native.outers.getD index .null
  | [] => return .null

/-- An argument that has to be a number, as an integer. -/
def integerArgument (position : Nat) : Exec Int64 := do
  match ← argument position with
  | .integer value => return value
  | .float value => return value.toInt64
  | other => raise (.argumentType position other.typeName "integer")

/-- An argument that has to be an array. -/
def arrayArgument (position : Nat) : Exec (Ref .array) := do
  match ← argument position with
  | .array ref => return ref
  | other => raise (.argumentType position other.typeName "array")

/-- An argument that has to be a thread. -/
def threadArgument (position : Nat) : Exec (Ref .thread) := do
  match ← argument position with
  | .thread ref => return ref
  | other => raise (.argumentType position other.typeName "thread")

end ScriptMachine.Exec
