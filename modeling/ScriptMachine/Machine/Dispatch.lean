import ScriptMachine.Machine.Capture
import ScriptMachine.Machine.Iteration
import ScriptMachine.Machine.Operator
import ScriptMachine.Machine.Recovery

/-!
# Instructions at work

What each operation does in the current frame.  An operation reads its operands in registers and
literals, leaves its result in the target register and says how the run loop goes on.
-/

namespace ScriptMachine

namespace Exec

/-- Null in so many registers of the current frame. -/
def loadNulls (access : Access) (first : UInt8) (count : Nat) : Exec Unit := do
  let start ← access.span first count
  ensure (start + count)
  clearRange start (start + count)

/-- The value that an instruction appends. -/
def appended (access : Access) (instruction : Instruction) : Exec Value :=
  match AppendSource.ofCode? instruction.second with
  | some .register => access.readWide instruction.wide
  | some .literal => access.literal instruction.wide
  | some .integer => return .integer instruction.wide.toInt64
  | none => raise (.appendCode instruction.second.toNat)

/-- Append to the array in a register. -/
def append (access : Access) (instruction : Instruction) : Exec Unit := do
  let value ← appended access instruction
  match ← access.read instruction.first with
  | .array ref => update ref fun (sequence : Sequence) => sequence.push value
  | other => raise (.append other.typeName)

/-- A class derived from the one in a register, if the instruction names a register, after the
base has been told of it by its hook. -/
def newClass (access : Access) (engine : Engine) (instruction : Instruction) :
    Exec Value := do
  let base ←
    if instruction.wide.toInt < 0 then pure none
    else
      match ← access.readWide instruction.wide with
      | .cls ref => pure (some ref)
      | other => raise (.inheritance other.typeName)
  let cls ← modifyGet fun machine =>
    let (cls, heap) := machine.heap.allocClass base
    (Value.cls cls, { machine with heap })
  if let some ref := base then
    let parent : Class ← read ref
    if let some handler := parent.hook? .inherited then
      discard (engine.callSync handler cls [])
  return cls

/-- A new object of the form that the instruction names. -/
def newObject (access : Access) (engine : Engine) (instruction : Instruction) :
    Exec Value := do
  let capacity := instruction.wide.toInt.toNat
  match ObjectForm.ofCode? instruction.third with
  | some .table => return .table (← alloc (Table.withCapacity capacity))
  | some .array => return .array (← alloc (Sequence.withCapacity capacity))
  | some .cls => newClass access engine instruction
  | none => raise (.objectCode instruction.third.toNat)

/-- Whether a value is an instance of a class or of one derived from it. -/
def instanceOf (cls object : Value) : Exec Bool := do
  match cls, object with
  | .cls ref, .inst own =>
    let object : Instance ← read own
    return (← get).heap.derives object.cls ref
  | .cls _, _ => return false
  | other, object => raise (.instanceOperands object.typeName other.typeName)

/-- The right operand of a test for equality: a literal or a register. -/
def equalityOperand (access : Access) (instruction : Instruction) : Exec Value :=
  if instruction.third = 1 then access.literal instruction.wide
  else access.readWide instruction.wide

/-- Whether the operands of a test for equality are equal. -/
def operandsEqual (access : Access) (instruction : Instruction) : Exec Bool := do
  let right ← equalityOperand access instruction
  let left ← access.read instruction.second
  return left.scriptEqual right

/-- Fetch a method of the receiver and copy the receiver in front of the arguments. -/
def prepareCall (access : Access) (engine : Engine) (instruction : Instruction)
    (key : Exec Value) : Exec Unit := do
  let object ← access.read instruction.second
  let function ← getSlot engine object (← key)
  access.write instruction.third object
  access.write instruction.first function

/-- Take the operand as the result and jump, when it is as true as asked for. -/
def shortCircuit (access : Access) (instruction : Instruction) (truth : Bool) : Exec Unit := do
  let value ← access.read instruction.second
  if value.isTruthy = truth then
    access.write instruction.first value
    jump instruction.wide

/-- The value that an instruction hands to the caller: a register, or null where it names none. -/
def handedOut (access : Access) (instruction : Instruction) : Exec Value :=
  match instruction.target? with
  | some _ => access.readWide instruction.wide
  | none => return .null

/-- Leave the result of a computation in the target register. -/
def toFirst (access : Access) (instruction : Instruction) (value : Exec Value) : Exec Unit := do
  access.write instruction.first (← value)

/-- Apply a binary operator to two registers. -/
def arithInstruction (access : Access) (engine : Engine) (op : ArithOp)
    (instruction : Instruction) : Exec Unit := do
  let left ← access.readWide instruction.wide
  let right ← access.read instruction.second
  toFirst access instruction (arith engine op left right)

/-- Carry out an instruction that goes on with the next one. -/
def perform (access : Access) (engine : Engine) (instruction : Instruction) : Exec Unit := do
  let ⟨op, first, wide, second, third⟩ := instruction
  match op with
  | .load => toFirst access instruction (access.literal wide)
  | .loadInt => access.write first (.integer wide.toInt64)
  | .loadFloat => access.write first (.float (.ofSingleBits wide.toUInt32))
  | .loadNulls => loadNulls access first wide.toInt.toNat
  | .loadBool => access.write first (.bool (wide != 0))
  | .loadRoot => access.write first (.table (← get).root)
  | .move => toFirst access instruction (access.readWide wide)
  | .get =>
    let object ← access.readWide wide
    let key ← access.read second
    toFirst access instruction (getSlot engine object key)
  | .getK =>
    let object ← access.read second
    let key ← access.literal wide
    toFirst access instruction (getSlot engine object key)
  | .set =>
    let object ← access.readWide wide
    let key ← access.read second
    let value ← access.read third
    setSlot engine object key value
    access.deliver instruction.target? value
  | .newSlot =>
    let object ← access.readWide wide
    let key ← access.read second
    let value ← access.read third
    newSlot engine object key value
    access.deliver instruction.target? value
  | .delete =>
    let object ← access.readWide wide
    let key ← access.read second
    toFirst access instruction (deleteSlot engine object key)
  | .add => arithInstruction access engine .add instruction
  | .sub => arithInstruction access engine .sub instruction
  | .mul => arithInstruction access engine .mul instruction
  | .div => arithInstruction access engine .div instruction
  | .mod => arithInstruction access engine .mod instruction
  | .bitw =>
    let left ← access.readWide wide
    let right ← access.read second
    match BitOp.ofCode? third with
    | some op => toFirst access instruction (ofExcept (op.onValues left right))
    | none => raise (.bitwiseCode third.toNat)
  | .neg => toFirst access instruction do negate engine (← access.readWide wide)
  | .not => toFirst access instruction do return .bool !(← access.readWide wide).isTruthy
  | .cmp =>
    let left ← access.readWide wide
    let right ← access.read second
    match CompareOp.ofCode? third with
    | some op => toFirst access instruction do return op.onOrder (← order engine left right)
    | none => raise (.comparisonCode third.toNat)
  | .eq => toFirst access instruction do return .bool (← operandsEqual access instruction)
  | .ne => toFirst access instruction do return .bool !(← operandsEqual access instruction)
  | .jmp => jump wide
  | .jz =>
    unless (← access.read first).isTruthy do jump wide
  | .and => shortCircuit access instruction false
  | .or => shortCircuit access instruction true
  | .prepCall => prepareCall access engine instruction (access.readWide wide)
  | .prepCallK => prepareCall access engine instruction (access.literal wide)
  | .closure => makeClosure access engine first wide
  | .getOuter =>
    let cell ← outerCell wide
    toFirst access instruction (read cell)
  | .setOuter =>
    let value ← access.read second
    let cell ← outerCell wide
    write cell value
    access.deliver instruction.target? value
  | .newObj => toFirst access instruction (newObject access engine instruction)
  | .appendArray => append access instruction
  | .delegate =>
    let object ← access.readWide wide
    let delegate ← access.read second
    setDelegate object delegate
    access.write first object
  | .instanceOf =>
    let cls ← access.readWide wide
    let object ← access.read second
    toFirst access instruction do return .bool (← instanceOf cls object)
  | .typeOf => toFirst access instruction do typeOf engine (← access.readWide wide)
  | .pushTrap => pushTrap access first wide
  | .popTrap => popTraps first.toNat
  | .throw => raise (.thrown (← access.read first))
  | .resume =>
    match ← access.readWide wide with
    | .generator ref => resumeInto ref (instruction.target?.map access.handOn) false
    | other => raise (.notResumable other.typeName)
  | .foreach => iterate access engine first second wide
  | .postForeach => finishIteration access first wide
  | .call | .tailCall | .ret | .yield => return ()

/-- Carry out an instruction. -/
def dispatch (access : Access) (engine : Engine) (instruction : Instruction) : Exec Flow := do
  match instruction.op with
  | .call =>
    callInstruction access engine (← access.readWide instruction.wide) instruction
  | .tailCall => tailCall access engine (← access.readWide instruction.wide) instruction
  | .ret => returnValue (← handedOut access instruction)
  | .yield => yieldValue (← handedOut access instruction)
  | _ =>
    perform access engine instruction
    return .proceed

end Exec

end ScriptMachine
