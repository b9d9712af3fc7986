/-!
# Operations of the machine

Forty-seven operations, grouped by the high digit of their code: loads, slots, arithmetic,
comparison, control flow, calls, closures, objects, traps, and generators with iteration.  Four
operations choose among variants by one of their byte operands; the variants are listed here too.
-/

namespace ScriptMachine

/-- An operation of the machine. -/
inductive Opcode where
  /-- The literal into the target. -/
  | load
  /-- The wide operand as an integer into the target. -/
  | loadInt
  /-- The wide operand as a single-precision pattern into the target. -/
  | loadFloat
  /-- Nulls into a run of registers. -/
  | loadNulls
  /-- Whether the wide operand is nonzero into the target. -/
  | loadBool
  /-- The root table into the target. -/
  | loadRoot
  /-- One register into another. -/
  | move
  /-- Read a slot under the key in a register. -/
  | get
  /-- Read a slot under a literal key. -/
  | getK
  /-- Assign an existing slot. -/
  | set
  /-- Create or replace a slot. -/
  | newSlot
  /-- Remove a slot. -/
  | delete
  /-- Sum or concatenation. -/
  | add
  /-- Difference. -/
  | sub
  /-- Product. -/
  | mul
  /-- Quotient. -/
  | div
  /-- Remainder. -/
  | mod
  /-- Bitwise operation named by the third operand. -/
  | bitw
  /-- Negation. -/
  | neg
  /-- Logical complement. -/
  | not
  /-- Comparison named by the third operand. -/
  | cmp
  /-- Equality. -/
  | eq
  /-- Inequality. -/
  | ne
  /-- Jump. -/
  | jmp
  /-- Jump when the register is falsy. -/
  | jz
  /-- Jump with the operand when it is falsy. -/
  | and
  /-- Jump with the operand when it is truthy. -/
  | or
  /-- Fetch a method under the key in a register and copy its receiver. -/
  | prepCall
  /-- Fetch a method under a literal key and copy its receiver. -/
  | prepCallK
  /-- Call. -/
  | call
  /-- Call in place of the current frame. -/
  | tailCall
  /-- Leave the current frame. -/
  | ret
  /-- Create a closure over a nested function. -/
  | closure
  /-- Read a captured cell. -/
  | getOuter
  /-- Assign a captured cell. -/
  | setOuter
  /-- Create a table, an array or a class. -/
  | newObj
  /-- Append to an array. -/
  | appendArray
  /-- Set the delegate of a table or user data. -/
  | delegate
  /-- Test whether an instance belongs to a class. -/
  | instanceOf
  /-- The type name of a value. -/
  | typeOf
  /-- Register an error handler of the frame. -/
  | pushTrap
  /-- Remove error handlers of the frame. -/
  | popTrap
  /-- Raise a value. -/
  | throw
  /-- Suspend the running generator. -/
  | yield
  /-- Continue a generator. -/
  | resume
  /-- One step of an iteration. -/
  | foreach
  /-- Leave an iteration whose generator has finished. -/
  | postForeach
deriving DecidableEq, Repr, Inhabited

namespace Opcode

/-- Every operation, in the order of the codes. -/
def all : List Opcode :=
  [.load, .loadInt, .loadFloat, .loadNulls, .loadBool, .loadRoot, .move, .get, .getK, .set,
    .newSlot, .delete, .add, .sub, .mul, .div, .mod, .bitw, .neg, .not, .cmp, .eq, .ne, .jmp,
    .jz, .and, .or, .prepCall, .prepCallK, .call, .tailCall, .ret, .closure, .getOuter,
    .setOuter, .newObj, .appendArray, .delegate, .instanceOf, .typeOf, .pushTrap, .popTrap,
    .throw, .yield, .resume, .foreach, .postForeach]

/-- The byte that stands for the operation in a stream. -/
def code : Opcode → UInt8
  | .load => 0x00
  | .loadInt => 0x01
  | .loadFloat => 0x02
  | .loadNulls => 0x03
  | .loadBool => 0x04
  | .loadRoot => 0x05
  | .move => 0x06
  | .get => 0x10
  | .getK => 0x11
  | .set => 0x12
  | .newSlot => 0x13
  | .delete => 0x14
  | .add => 0x20
  | .sub => 0x21
  | .mul => 0x22
  | .div => 0x23
  | .mod => 0x24
  | .bitw => 0x25
  | .neg => 0x26
  | .not => 0x27
  | .cmp => 0x30
  | .eq => 0x31
  | .ne => 0x32
  | .jmp => 0x40
  | .jz => 0x41
  | .and => 0x42
  | .or => 0x43
  | .prepCall => 0x50
  | .prepCallK => 0x51
  | .call => 0x52
  | .tailCall => 0x53
  | .ret => 0x54
  | .closure => 0x60
  | .getOuter => 0x61
  | .setOuter => 0x62
  | .newObj => 0x70
  | .appendArray => 0x71
  | .delegate => 0x72
  | .instanceOf => 0x73
  | .typeOf => 0x74
  | .pushTrap => 0x80
  | .popTrap => 0x81
  | .throw => 0x82
  | .yield => 0x90
  | .resume => 0x91
  | .foreach => 0x92
  | .postForeach => 0x93

/-- The name of the operation in mixed case. -/
def title : Opcode → String
  | .load => "Load"
  | .loadInt => "LoadInt"
  | .loadFloat => "LoadFloat"
  | .loadNulls => "LoadNulls"
  | .loadBool => "LoadBool"
  | .loadRoot => "LoadRoot"
  | .move => "Move"
  | .get => "Get"
  | .getK => "GetK"
  | .set => "Set"
  | .newSlot => "NewSlot"
  | .delete => "Delete"
  | .add => "Add"
  | .sub => "Sub"
  | .mul => "Mul"
  | .div => "Div"
  | .mod => "Mod"
  | .bitw => "Bitw"
  | .neg => "Neg"
  | .not => "Not"
  | .cmp => "Cmp"
  | .eq => "Eq"
  | .ne => "Ne"
  | .jmp => "Jmp"
  | .jz => "Jz"
  | .and => "And"
  | .or => "Or"
  | .prepCall => "PrepCall"
  | .prepCallK => "PrepCallK"
  | .call => "Call"
  | .tailCall => "TailCall"
  | .ret => "Return"
  | .closure => "Closure"
  | .getOuter => "GetOuter"
  | .setOuter => "SetOuter"
  | .newObj => "NewObj"
  | .appendArray => "AppendArray"
  | .delegate => "Delegate"
  | .instanceOf => "InstanceOf"
  | .typeOf => "TypeOf"
  | .pushTrap => "PushTrap"
  | .popTrap => "PopTrap"
  | .throw => "Throw"
  | .yield => "Yield"
  | .resume => "Resume"
  | .foreach => "Foreach"
  | .postForeach => "PostForeach"

/-- The name of the operation in listings. -/
def mnemonic (op : Opcode) : String := op.title.map Char.toUpper

/-- The operation with the given code. -/
def ofCode? (byte : UInt8) : Option Opcode := all.find? fun op => op.code == byte

/-- The operation with the given name in listings. -/
def ofMnemonic? (name : String) : Option Opcode := all.find? fun op => op.mnemonic == name

/-- The wide operand is a jump offset. -/
def isJump : Opcode → Bool
  | .jmp | .jz | .and | .or | .pushTrap | .foreach | .postForeach => true
  | _ => false

theorem ofCode?_code (op : Opcode) : ofCode? op.code = some op := by
  cases op <;> rfl

theorem code_of_ofCode? {byte : UInt8} {op : Opcode} (found : ofCode? byte = some op) :
    op.code = byte := by
  have holds := List.find?_some found
  simpa using holds

end Opcode

/-- Variants of the comparison operation. -/
inductive CompareOp where
  /-- Greater. -/
  | gt
  /-- Greater or equal. -/
  | ge
  /-- Less. -/
  | lt
  /-- Less or equal. -/
  | le
  /-- The sign of the comparison as an integer. -/
  | threeWay
deriving DecidableEq, Repr

namespace CompareOp

/-- Every comparison, in the order of the codes. -/
def all : List CompareOp := [.gt, .ge, .lt, .le, .threeWay]

/-- The byte operand that chooses the comparison. -/
def code : CompareOp → UInt8
  | .gt => 0
  | .ge => 1
  | .lt => 2
  | .le => 3
  | .threeWay => 4

/-- The name of the comparison. -/
def title : CompareOp → String
  | .gt => "Gt"
  | .ge => "Ge"
  | .lt => "Lt"
  | .le => "Le"
  | .threeWay => "ThreeWay"

/-- The comparison chosen by a byte operand. -/
def ofCode? (byte : UInt8) : Option CompareOp := all.find? fun op => op.code == byte

end CompareOp

/-- Variants of the bitwise operation. -/
inductive BitOp where
  /-- Conjunction. -/
  | and
  /-- Disjunction. -/
  | or
  /-- Exclusive disjunction. -/
  | xor
  /-- Shift to the left. -/
  | shl
  /-- Shift to the right that copies the sign. -/
  | shr
  /-- Shift to the right that fills with zeros. -/
  | ushr
deriving DecidableEq, Repr

namespace BitOp

/-- Every bitwise operation, in the order of the codes. -/
def all : List BitOp := [.and, .or, .xor, .shl, .shr, .ushr]

/-- The byte operand that chooses the operation. -/
def code : BitOp → UInt8
  | .and => 0
  | .or => 1
  | .xor => 2
  | .shl => 3
  | .shr => 4
  | .ushr => 5

/-- The name of the operation. -/
def title : BitOp → String
  | .and => "And"
  | .or => "Or"
  | .xor => "Xor"
  | .shl => "Shl"
  | .shr => "Shr"
  | .ushr => "UShr"

/-- The operation chosen by a byte operand. -/
def ofCode? (byte : UInt8) : Option BitOp := all.find? fun op => op.code == byte

end BitOp

/-- What an object construction creates. -/
inductive ObjectForm where
  /-- A table. -/
  | table
  /-- An array. -/
  | array
  /-- A class. -/
  | cls
deriving DecidableEq, Repr

namespace ObjectForm

/-- Every form, in the order of the codes. -/
def all : List ObjectForm := [.table, .array, .cls]

/-- The byte operand that chooses the form. -/
def code : ObjectForm → UInt8
  | .table => 0
  | .array => 1
  | .cls => 2

/-- The name of the form. -/
def title : ObjectForm → String
  | .table => "Table"
  | .array => "Array"
  | .cls => "Class"

/-- The form chosen by a byte operand. -/
def ofCode? (byte : UInt8) : Option ObjectForm := all.find? fun form => form.code == byte

end ObjectForm

/-- Where an appended value comes from. -/
inductive AppendSource where
  /-- A register. -/
  | register
  /-- The literal pool. -/
  | literal
  /-- The wide operand itself. -/
  | integer
deriving DecidableEq, Repr

namespace AppendSource

/-- Every source, in the order of the codes. -/
def all : List AppendSource := [.register, .literal, .integer]

/-- The byte operand that chooses the source. -/
def code : AppendSource → UInt8
  | .register => 0
  | .literal => 1
  | .integer => 2

/-- The name of the source. -/
def title : AppendSource → String
  | .register => "Register"
  | .literal => "Literal"
  | .integer => "Integer"

/-- The source chosen by a byte operand. -/
def ofCode? (byte : UInt8) : Option AppendSource := all.find? fun source => source.code == byte

end AppendSource

end ScriptMachine
