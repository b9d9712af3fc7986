import ScriptMachine.Bytecode.Prototype
import ScriptMachine.Number.Layout

/-!
# Listings

The listing of a prototype shows its head, its literals, its captures and its instructions with
their source lines, then the functions nested in it, indented one step further.
-/

namespace ScriptMachine

/-- The literal in a listing. -/
def Literal.render : Literal → String
  | .null => "null"
  | .bool value => if value then "true" else "false"
  | .integer value => toString value.toInt
  | .float value => FloatLayout.marked.render value
  | .string value => Text.quoted value

/-- The origin of a captured variable in a listing. -/
def CaptureSource.render : CaptureSource → String
  | .register number => s!"Local({number.toNat})"
  | .outer index => s!"Outer({index.toNat})"
  | .symbol name => "Symbol(" ++ Text.quoted name ++ ")"

namespace Prototype

/-- The head line: name, parameters, frame size and kind. -/
def headLine (prototype : Prototype) : String :=
  "function " ++ displayName prototype.name ++
    "(" ++ String.intercalate ", " prototype.parameters.toList ++ ") stack=" ++
    toString prototype.stackSize ++
    (if prototype.isGenerator then " generator" else "") ++
    (if prototype.isVariadic then " varparams" else "")

/-- The line of the literal at an index. -/
def literalLine (literal : Literal) (index : Nat) : String :=
  "  .literal " ++ Text.padRight 4 (toString index) ++ " " ++ literal.render

/-- The line of the captured variable at an index. -/
def captureLine (capture : Capture) (index : Nat) : String :=
  "  .outer   " ++ Text.padRight 4 (toString index) ++ " " ++ capture.name ++ " " ++
    capture.source.render

/-- The line of the instruction at an index, with its source line in brackets. -/
def instructionLine (prototype : Prototype) (instruction : Instruction) (index : Nat) : String :=
  let line := match prototype.lineFor? index with
    | some line => toString line.toNat
    | none => ""
  "  " ++ Text.padLeft 5 (toString index) ++ " [" ++ Text.padLeft 4 line ++ "] " ++
    instruction.render

/-- The lines of the prototype itself, without the functions nested in it. -/
def ownLines (prototype : Prototype) : List String :=
  prototype.headLine :: prototype.literals.toList.mapIdx (fun index literal =>
      literalLine literal index) ++
    prototype.captures.toList.mapIdx (fun index capture => captureLine capture index) ++
    prototype.code.toList.mapIdx fun index instruction =>
      prototype.instructionLine instruction index

mutual

/-- The lines of a prototype and, indented below it, of the functions nested in it. -/
def listingLines : Prototype → List String
  | prototype@⟨_, _, _, _, _, _, _, _, _, _, functions⟩ =>
    prototype.ownLines ++ (listingLinesAll functions).map fun line => "  " ++ line

/-- The lines of several prototypes, one after the other. -/
def listingLinesAll : List Prototype → List String
  | [] => []
  | prototype :: rest => listingLines prototype ++ listingLinesAll rest

end

/-- The listing of a prototype tree. -/
def listing (prototype : Prototype) : String :=
  String.join (prototype.listingLines.map fun line => line ++ "\n")

mutual

/-- The number of functions in a prototype tree. -/
def functionTotal : Prototype → Nat
  | ⟨_, _, _, _, _, _, _, _, _, _, functions⟩ => functionTotalAll functions + 1

/-- The number of functions in several prototype trees. -/
def functionTotalAll : List Prototype → Nat
  | [] => 0
  | prototype :: rest => functionTotal prototype + functionTotalAll rest

end

mutual

/-- The number of instructions in a prototype tree. -/
def instructionTotal : Prototype → Nat
  | ⟨_, _, _, _, _, _, code, _, _, _, functions⟩ => code.size + instructionTotalAll functions

/-- The number of instructions in several prototype trees. -/
def instructionTotalAll : List Prototype → Nat
  | [] => 0
  | prototype :: rest => instructionTotal prototype + instructionTotalAll rest

end

end Prototype

end ScriptMachine
