import ScriptMachine.Bytecode.Prototype
import ScriptMachine.Text.Lossy
import ScriptMachine.Value.Basic

/-!
# Loaded function bodies

A routine is a prototype made ready to run: its literals are values and its frame holds at least
its parameters.  Every closure over the same function shares one routine.
-/

namespace ScriptMachine

/-- A loaded function body. -/
structure Routine where
  /-- The name of the function. -/
  name : String
  /-- The name of the source file. -/
  source : String
  /-- The literals as values. -/
  literals : Array Value
  /-- The parameter names; the first is the receiver. -/
  parameters : Array String
  /-- The captured variables. -/
  captures : Array Capture
  /-- The line table. -/
  lines : Array LineMark
  /-- The instructions. -/
  code : Array Instruction
  /-- The registers of one activation. -/
  stackSize : Nat
  /-- A call creates a generator. -/
  isGenerator : Bool
  /-- Further arguments are collected into the last parameter. -/
  isVariadic : Bool
  /-- The functions nested in this one. -/
  functions : List Routine
deriving Inhabited

/-- The literal as a value. -/
def Literal.toValue : Literal → Value
  | .null => .null
  | .bool value => .bool value
  | .integer value => .integer value
  | .float value => .float value
  | .string value => .ofText value

/-- The literal of a value; an object has none and becomes null. -/
def Value.toLiteral : Value → Literal
  | .bool value => .bool value
  | .integer value => .integer value
  | .float value => .float value
  | .string bytes => .string (Text.lossy bytes)
  | _ => .null

namespace Routine

mutual

/-- Load a prototype. -/
def load : Prototype → Routine
  | ⟨name, source, literals, parameters, captures, lines, code, stackSize, isGenerator, isVariadic,
      functions⟩ =>
    { name, source
      literals := literals.map Literal.toValue
      parameters, captures, lines, code
      stackSize := max stackSize parameters.size
      isGenerator, isVariadic
      functions := loadAll functions }

/-- Load several prototypes. -/
def loadAll : List Prototype → List Routine
  | [] => []
  | prototype :: rest => load prototype :: loadAll rest

end

mutual

/-- The prototype of a routine. -/
def toPrototype : Routine → Prototype
  | ⟨name, source, literals, parameters, captures, lines, code, stackSize, isGenerator, isVariadic,
      functions⟩ =>
    { name, source
      literals := literals.map Value.toLiteral
      parameters, captures, lines, code, stackSize, isGenerator, isVariadic
      functions := toPrototypeAll functions }

/-- The prototypes of several routines. -/
def toPrototypeAll : List Routine → List Prototype
  | [] => []
  | routine :: rest => toPrototype routine :: toPrototypeAll rest

end

/-- The number of parameters, the receiver included. -/
def parameterCount (routine : Routine) : Nat := routine.parameters.size

/-- The name shown for the function. -/
def displayName (routine : Routine) : String := Prototype.displayName routine.name

/-- The source line of the instruction at an index. -/
def lineFor? (routine : Routine) (index : Nat) : Option UInt32 :=
  LineMark.find? routine.lines index

/-- The number of arguments is allowed: exactly the parameters or, where further arguments are
collected, at least all but the last. -/
def accepts (routine : Routine) (arguments : Nat) : Bool :=
  if routine.isVariadic then routine.parameterCount - 1 ≤ arguments
  else arguments == routine.parameterCount

end Routine

/-- A script function: a routine and the cells of its captured variables. -/
structure Closure where
  /-- The body. -/
  routine : Routine
  /-- The captured variables. -/
  cells : Array (Ref .cell) := #[]
deriving Inhabited

end ScriptMachine
