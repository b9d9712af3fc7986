import ScriptMachine.Bytecode.Prototype

/-!
# Verification of prototypes

Every operand of every instruction has a role: a register of the frame, an optional target, a
literal, a nested function, a captured cell, a jump or a variant.  `Instruction.operands` lists the
roles in the order in which they are checked.  A prototype is accepted when its frame holds its
parameters, its captures exist in the enclosing function, every operand stays in its range and the
functions nested in it are accepted.
-/

namespace ScriptMachine

/-- A demand that an instruction makes on the function around it. -/
inductive Operand where
  /-- The number is a register of the frame. -/
  | register (number : Int)
  /-- The number is an index of the literal pool. -/
  | literal (index : Int32)
  /-- The number is an index of the nested functions. -/
  | function (index : Int32)
  /-- The number is an index of the captured variables. -/
  | outer (index : Int32)
  /-- The variant operand has to be one the operation knows. -/
  | variant (known : Bool)
deriving DecidableEq, Repr

namespace Operand

/-- A register given by a byte operand. -/
def byteRegister (number : UInt8) : Operand := .register number.toNat

/-- A register given by a byte operand, or none at all. -/
def target (number : UInt8) : List Operand :=
  if number = Instruction.noTarget then [] else [byteRegister number]

end Operand

open Operand in
/-- The demands of an instruction, its jump apart, in the order in which they are checked. -/
def Instruction.operands (instruction : Instruction) : List Operand :=
  let ⟨op, first, wide, second, third⟩ := instruction
  let wideRegister : Operand := .register wide.toInt
  match op with
  | .load => [byteRegister first, .literal wide]
  | .loadInt | .loadFloat | .loadBool | .loadRoot => [byteRegister first]
  | .loadNulls =>
    .variant (decide (0 ≤ wide)) ::
      if 0 < wide then
        [byteRegister first, .register ((first.toNat : Int) + wide.toInt - 1)]
      else []
  | .move | .neg | .not | .typeOf | .resume => [byteRegister first, wideRegister]
  | .get | .delete | .add | .sub | .mul | .div | .mod | .delegate | .instanceOf =>
    [byteRegister first, wideRegister, byteRegister second]
  | .bitw =>
    [.variant (BitOp.ofCode? third).isSome, byteRegister first, wideRegister,
      byteRegister second]
  | .cmp =>
    [.variant (CompareOp.ofCode? third).isSome, byteRegister first, wideRegister,
      byteRegister second]
  | .getK => [byteRegister first, byteRegister second, .literal wide]
  | .set | .newSlot =>
    target first ++ [wideRegister, byteRegister second, byteRegister third]
  | .eq | .ne =>
    [byteRegister first, byteRegister second,
      if third ≠ 0 then .literal wide else wideRegister]
  | .jmp | .popTrap => []
  | .jz | .pushTrap | .postForeach | .throw => [byteRegister first]
  | .and | .or => [byteRegister first, byteRegister second]
  | .prepCall =>
    [byteRegister first, wideRegister, byteRegister second, byteRegister third]
  | .prepCallK =>
    [byteRegister first, .literal wide, byteRegister second, byteRegister third]
  | .call | .tailCall =>
    target first ++ [wideRegister, .variant (decide (0 < third)), byteRegister second,
      .register ((second.toNat : Int) + third.toNat - 1)]
  | .ret | .yield => if first = noTarget then [] else [wideRegister]
  | .closure => [byteRegister first, .function wide]
  | .getOuter => [byteRegister first, .outer wide]
  | .setOuter => target first ++ [byteRegister second, .outer wide]
  | .newObj =>
    byteRegister first ::
      match ObjectForm.ofCode? third with
      | some .cls => if 0 ≤ wide then [wideRegister] else []
      | some _ => []
      | none => [.variant false]
  | .appendArray =>
    byteRegister first ::
      match AppendSource.ofCode? second with
      | some .register => [wideRegister]
      | some .literal => [.literal wide]
      | some .integer => []
      | none => [.variant false]
  | .foreach => [byteRegister first, .register ((second.toNat : Int) + 2)]

/-- What is wrong with a prototype, in the function of the given name. -/
inductive VerifyError where
  /-- A jump leaves the instructions. -/
  | jumpTarget (name : String) (target : Int) (index : Nat)
  /-- A register lies outside the frame. -/
  | register (name : String) (number : Int) (stackSize : Nat) (index : Nat)
  /-- A literal index lies outside the pool. -/
  | literal (name : String) (number : Int) (index : Nat)
  /-- A function index lies outside the nested functions. -/
  | function (name : String) (number : Int) (index : Nat)
  /-- An outer index lies outside the captured variables. -/
  | outer (name : String) (number : Int) (index : Nat)
  /-- A variant operand is unknown. -/
  | operand (name : String) (op : Opcode) (index : Nat)
  /-- The enclosing function has nothing to capture there. -/
  | capture (name : String) (captured : String)
  /-- The frame is smaller than the parameter list. -/
  | stackTooSmall (name : String) (stackSize : Nat) (parameters : Nat)
deriving DecidableEq, Repr

namespace VerifyError

/-- The text of the error. -/
def message : VerifyError → String
  | .jumpTarget name target index =>
    s!"Invalid jump target {target} at instruction {index} of '{name}'"
  | .register name number stackSize index =>
    s!"Register {number} out of frame (stack size {stackSize}) at instruction {index} of " ++
      s!"'{name}'"
  | .literal name number index =>
    s!"Invalid literal reference {number} at instruction {index} of '{name}'"
  | .function name number index =>
    s!"Invalid function reference {number} at instruction {index} of '{name}'"
  | .outer name number index =>
    s!"Invalid outer value reference {number} at instruction {index} of '{name}'"
  | .operand name op index =>
    s!"Invalid operand for {op.title} at instruction {index} of '{name}'"
  | .capture name captured =>
    s!"Outer value '{captured}' of '{name}' cannot be captured from its parent"
  | .stackTooSmall name stackSize parameters =>
    s!"Stack size {stackSize} of '{name}' is smaller than its {parameters} parameters"

end VerifyError

/-- The number is an index below the bound. -/
def inRange (number : Int) (bound : Nat) : Bool := 0 ≤ number && number < bound

namespace Prototype

/-- Check one demand of the instruction at an index. -/
def checkOperand (prototype : Prototype) (index : Nat) (op : Opcode) :
    Operand → Except VerifyError Unit
  | .register number =>
    if inRange number prototype.stackSize then .ok ()
    else .error (.register prototype.name number prototype.stackSize index)
  | .literal literal =>
    if inRange literal.toInt prototype.literals.size then .ok ()
    else .error (.literal prototype.name literal.toInt index)
  | .function nested =>
    if inRange nested.toInt prototype.functions.length then .ok ()
    else .error (.function prototype.name nested.toInt index)
  | .outer outer =>
    if inRange outer.toInt prototype.captures.size then .ok ()
    else .error (.outer prototype.name outer.toInt index)
  | .variant known =>
    if known then .ok () else .error (.operand prototype.name op index)

/-- Check the jump of the instruction at an index. -/
def checkJump (prototype : Prototype) (index : Nat) (instruction : Instruction) :
    Except VerifyError Unit :=
  match instruction.jumpTarget? index with
  | some target =>
    if inRange target prototype.code.size then .ok ()
    else .error (.jumpTarget prototype.name target index)
  | none => .ok ()

/-- Check the instruction at an index: first its jump, then its operands. -/
def checkInstruction (prototype : Prototype) (index : Nat) (instruction : Instruction) :
    Except VerifyError Unit := do
  prototype.checkJump index instruction
  instruction.operands.forM (prototype.checkOperand index instruction.op)

/-- Check instructions from an index on, in order. -/
def checkCode (prototype : Prototype) : Nat → List Instruction → Except VerifyError Unit
  | _, [] => .ok ()
  | index, instruction :: rest => do
    prototype.checkInstruction index instruction
    prototype.checkCode (index + 1) rest

/-- The captured variable exists in the enclosing function. -/
def offers (parent : Prototype) : CaptureSource → Bool
  | .register number => number.toNat < parent.stackSize
  | .outer index => index.toNat < parent.captures.size
  | .symbol _ => true

/-- Check that the frame holds the parameters. -/
def checkFrame (prototype : Prototype) : Except VerifyError Unit :=
  if prototype.stackSize < prototype.parameterCount then
    .error (.stackTooSmall prototype.name prototype.stackSize prototype.parameterCount)
  else .ok ()

/-- Check that every captured variable exists in the enclosing function, if there is one. -/
def checkCaptures (prototype : Prototype) : Option Prototype → Except VerifyError Unit
  | none => .ok ()
  | some parent =>
    match prototype.captures.toList.find? fun capture => !parent.offers capture.source with
    | some capture => .error (.capture prototype.name capture.name)
    | none => .ok ()

mutual

/-- Verify a prototype inside an enclosing function, then the functions nested in it. -/
def verifyWithin (parent : Option Prototype) : Prototype → Except VerifyError Unit
  | prototype@⟨_, _, _, _, _, _, _, _, _, _, functions⟩ => do
    prototype.checkFrame
    prototype.checkCaptures parent
    prototype.checkCode 0 prototype.code.toList
    verifyAll prototype functions

/-- Verify the functions nested in a prototype, in order. -/
def verifyAll (parent : Prototype) : List Prototype → Except VerifyError Unit
  | [] => .ok ()
  | prototype :: rest => do
    verifyWithin (some parent) prototype
    verifyAll parent rest

end

/-- Verify a prototype tree; the first error in checking order is reported. -/
def verify (prototype : Prototype) : Except VerifyError Unit := verifyWithin none prototype

end Prototype

end ScriptMachine
