import ScriptMachine.Machine.Exec

/-!
# Access to operands

An instruction gets at the registers and literals of its frame through an access, and in no other
way.  `Access.direct` is the access to the current frame.
-/

namespace ScriptMachine

/-- The literal of the current frame at an index. -/
def Exec.literal (index : Int32) : Exec Value := do
  let frame ← frame
  let found :=
    if index.toInt < 0 then none else frame.closure.routine.literals[index.toInt.toNat]?
  match found with
  | some value => return value
  | none => raise (.literalRange index.toInt)

/-- The ways in which an instruction gets at registers and literals. -/
structure Access where
  /-- The value of a register. -/
  read : UInt8 → Exec Value
  /-- The value of the register that a wide operand names. -/
  readWide : Int32 → Exec Value
  /-- Assign a register. -/
  write : UInt8 → Value → Exec Unit
  /-- The place of the first of so many registers that are used together. -/
  span : UInt8 → Nat → Exec Nat
  /-- The register by which something that goes on later finds the place for a value. -/
  handOn : UInt8 → UInt8
  /-- A literal. -/
  literal : Int32 → Exec Value

namespace Access

/-- The access to the current frame. -/
def direct : Access where
  read := Exec.register
  readWide wide := Exec.register (Instruction.lowByte wide)
  write := Exec.setRegister
  span first _ := return (← Exec.ofFiber (·.base)) + first.toNat
  handOn number := number
  literal := Exec.literal

/-- Assign the register that receives a result, if there is one. -/
def deliver (access : Access) (target : Option UInt8) (value : Value) : Exec Unit :=
  match target with
  | some number => access.write number value
  | none => pure ()

end Access

end ScriptMachine
