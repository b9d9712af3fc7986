import ScriptMachine.Bytecode.Prototype

/-!
# Building prototypes

A prototype is built by a sequence of steps.  The builder reuses equal literals, raises the frame
size with the registers that a step names as touched, merges line marks that start at the same
instruction and patches forward jumps.  `Builder.run` performs the steps in order; every step
reports the index or register it produced, if any.
-/

namespace ScriptMachine

/-- One step in building a prototype. -/
inductive BuildStep where
  /-- Set the name of the source file. -/
  | source (name : String)
  /-- Declare a parameter. -/
  | param (name : String)
  /-- Reserve at least so many registers. -/
  | stackSize (size : Nat)
  /-- Make the function a generator. -/
  | generator
  /-- Collect further arguments into a last parameter. -/
  | varparams
  /-- Add a literal. -/
  | literal (value : Literal)
  /-- Add a nested function. -/
  | function (nested : Prototype)
  /-- Capture a register of the creating frame. -/
  | outerLocal (name : String) (register : UInt8)
  /-- Share a captured variable of the creating closure. -/
  | outerOuter (name : String) (index : UInt32)
  /-- Capture a slot of the receiver of the creating frame. -/
  | outerSymbol (name : String)
  /-- Start a source line at the next instruction. -/
  | line (number : UInt32)
  /-- Ask for the index of the next instruction. -/
  | pos
  /-- Append an instruction as it is. -/
  | emit (instruction : Instruction)
  /-- Let the jump at an index lead to the next instruction. -/
  | patchJump (index : Nat)
  /-- Load a literal. -/
  | load (target : UInt8) (value : Literal)
  /-- Load an integer. -/
  | loadInt (target : UInt8) (value : Int32)
  /-- Load a number given by a single-precision pattern. -/
  | loadFloat (target : UInt8) (bits : UInt32)
  /-- Load nulls into a run of registers. -/
  | loadNulls (target count : UInt8)
  /-- Load a truth value. -/
  | loadBool (target : UInt8) (value : Bool)
  /-- Load the root table. -/
  | loadRoot (target : UInt8)
  /-- Copy a register. -/
  | mov (target source : UInt8)
  /-- Read a slot. -/
  | get (target object key : UInt8)
  /-- Read a slot under a literal key. -/
  | getK (target object : UInt8) (key : Literal)
  /-- Assign a slot. -/
  | set (target object key value : UInt8)
  /-- Create a slot. -/
  | newSlot (target object key value : UInt8)
  /-- Remove a slot. -/
  | delete (target object key : UInt8)
  /-- Apply a binary operation to two registers. -/
  | arith (op : Opcode) (target left right : UInt8)
  /-- Apply a bitwise operation to two registers. -/
  | bitw (op : BitOp) (target left right : UInt8)
  /-- Negate a register. -/
  | neg (target source : UInt8)
  /-- Complement a register. -/
  | not (target source : UInt8)
  /-- Compare two registers. -/
  | cmp (op : CompareOp) (target left right : UInt8)
  /-- Test two registers for equality. -/
  | eq (target left right : UInt8)
  /-- Test a register and a literal for equality. -/
  | eqLiteral (target left : UInt8) (value : Literal)
  /-- Test two registers for inequality. -/
  | ne (target left right : UInt8)
  /-- Jump forward, to be patched. -/
  | jmp
  /-- Jump to an index. -/
  | jmpTo (index : Nat)
  /-- Jump forward when a register is falsy, to be patched. -/
  | jz (condition : UInt8)
  /-- Short-circuit conjunction, to be patched. -/
  | and (target source : UInt8)
  /-- Short-circuit disjunction, to be patched. -/
  | or (target source : UInt8)
  /-- Fetch a method and its receiver. -/
  | prepCall (target object key receiver : UInt8)
  /-- Fetch a method under a literal key and its receiver. -/
  | prepCallK (target object : UInt8) (key : Literal) (receiver : UInt8)
  /-- Call a register with a run of arguments. -/
  | call (target function arguments count : UInt8)
  /-- Call a register in place of the current frame. -/
  | tailCall (target function arguments count : UInt8)
  /-- Return a register. -/
  | ret (source : UInt8)
  /-- Return null. -/
  | retNull
  /-- Create a closure over a nested function. -/
  | closure (target : UInt8) (index : Int32)
  /-- Read a captured variable. -/
  | getOuter (target : UInt8) (index : Int32)
  /-- Assign a captured variable. -/
  | setOuter (target : UInt8) (index : Int32) (source : UInt8)
  /-- Create a table. -/
  | newTable (target : UInt8)
  /-- Create an array with room for some values. -/
  | newArray (target : UInt8) (capacity : Int32)
  /-- Create a class, derived from the class in a register if one is given. -/
  | newClass (target : UInt8) (base : Option UInt8)
  /-- Append a register to an array. -/
  | append (array source : UInt8)
  /-- Append a literal to an array. -/
  | appendLiteral (array : UInt8) (value : Literal)
  /-- Append an integer to an array. -/
  | appendInt (array : UInt8) (value : Int32)
  /-- Set the delegate of a table. -/
  | delegate (target table delegate : UInt8)
  /-- Test whether an instance belongs to a class. -/
  | instanceOf (target object cls : UInt8)
  /-- Take the type name of a register. -/
  | typeOf (target source : UInt8)
  /-- Register an error handler, to be patched. -/
  | pushTrap (register : UInt8)
  /-- Remove error handlers. -/
  | popTrap (count : UInt8)
  /-- Raise a register. -/
  | throw (source : UInt8)
  /-- Yield a register. -/
  | yieldValue (source : UInt8)
  /-- Yield null. -/
  | yieldNull
  /-- Continue a generator. -/
  | resume (target generator : UInt8)
  /-- One step of an iteration, its exit to be patched. -/
  | foreach (container first : UInt8)
  /-- Leave an iteration whose generator has finished, to be patched. -/
  | postForeach (container : UInt8)
deriving Inhabited

/-- The sum of two bytes, at most 255. -/
def saturatingAdd (x y : UInt8) : UInt8 := UInt8.ofNat (min 255 (x.toNat + y.toNat))

/-- The last register of a run that starts at `first`; an empty run ends where it starts. -/
def lastOfRun (first count : UInt8) : UInt8 := saturatingAdd first (count - min count 1)

/-- Building steps act on the prototype built so far. -/
abbrev Build := StateM Prototype

namespace Builder

/-- Reserve at least so many registers. -/
def reserve (size : Nat) : Build Unit :=
  modify fun prototype => { prototype with stackSize := max prototype.stackSize size }

/-- Make room for a register, unless it stands for no target. -/
def touch (register : UInt8) : Build Unit :=
  if register = Instruction.noTarget then pure () else reserve (register.toNat + 1)

/-- The index the next instruction will get. -/
def position : Build Nat := return (← get).code.size

/-- Append an instruction and report its index. -/
def emit (instruction : Instruction) : Build Nat := do
  let index ← position
  modify fun prototype => { prototype with code := prototype.code.push instruction }
  return index

/-- Append an instruction given by its parts. -/
def place (op : Opcode) (first : UInt8) (wide : Int32) (second third : UInt8) : Build Nat :=
  emit ⟨op, first, wide, second, third⟩

/-- A register as a wide operand. -/
def wideOf (register : UInt8) : Int32 := Int32.ofNat register.toNat

/-- Declare a parameter and report its register. -/
def addParameter (name : String) : Build UInt8 := do
  modify fun prototype => { prototype with parameters := prototype.parameters.push name }
  let register := UInt8.ofNat ((← get).parameters.size - 1)
  touch register
  return register

/-- The index of a literal, which is added if the pool does not have it yet. -/
def addLiteral (value : Literal) : Build Int32 := do
  match (← get).literals.toList.idxOf? value with
  | some index => return Int32.ofNat index
  | none =>
    modify fun prototype => { prototype with literals := prototype.literals.push value }
    return Int32.ofNat ((← get).literals.size - 1)

/-- Add a nested function and report its index. -/
def addFunction (nested : Prototype) : Build Int32 := do
  modify fun prototype => { prototype with functions := prototype.functions ++ [nested] }
  return Int32.ofNat ((← get).functions.length - 1)

/-- Add a captured variable and report its index. -/
def addCapture (name : String) (source : CaptureSource) : Build Int32 := do
  modify fun prototype => { prototype with captures := prototype.captures.push ⟨name, source⟩ }
  return Int32.ofNat ((← get).captures.size - 1)

/-- Start a source line at the next instruction; a line that starts there already is renamed. -/
def markLine (line : UInt32) : Build Unit :=
  modify fun prototype =>
    let index := UInt32.ofNat prototype.code.size
    match prototype.lines.back? with
    | some last =>
      if last.index = index then { prototype with lines := prototype.lines.pop.push ⟨line, index⟩ }
      else { prototype with lines := prototype.lines.push ⟨line, index⟩ }
    | none => { prototype with lines := prototype.lines.push ⟨line, index⟩ }

/-- The offset from the instruction after `index` to `target`. -/
def offsetTo (index target : Nat) : Int32 :=
  Int32.ofNat target - (Int32.ofNat index + 1)

/-- Let the jump at an index lead to the next instruction. -/
def patchJump (index : Nat) : Build Unit :=
  modify fun prototype =>
    { prototype with
      code := prototype.code.modify index fun instruction =>
        { instruction with wide := offsetTo index prototype.code.size } }

/-- Perform one step and report the index or register it produced. -/
def perform : BuildStep → Build (Option Int)
  | .source name => do
    modify fun prototype => { prototype with source := name }
    return none
  | .param name => return some (← addParameter name).toNat
  | .stackSize size => do
    reserve size
    return none
  | .generator => do
    modify fun prototype => { prototype with isGenerator := true }
    return none
  | .varparams => do
    modify fun prototype => { prototype with isVariadic := true }
    return some (← addParameter "vargv").toNat
  | .literal value => return some (← addLiteral value).toInt
  | .function nested => return some (← addFunction nested).toInt
  | .outerLocal name register =>
    return some (← addCapture name (.register register.toUInt32)).toInt
  | .outerOuter name index => return some (← addCapture name (.outer index)).toInt
  | .outerSymbol name => return some (← addCapture name (.symbol name)).toInt
  | .line number => do
    markLine number
    return none
  | .pos => return some (← position)
  | .patchJump index => do
    patchJump index
    return none
  | .emit instruction => return some (← emit instruction)
  | .load target value => do
    touch target
    return some (← place .load target (← addLiteral value) 0 0)
  | .loadInt target value => do
    touch target
    return some (← place .loadInt target value 0 0)
  | .loadFloat target bits => do
    touch target
    return some (← place .loadFloat target bits.toInt32 0 0)
  | .loadNulls target count => do
    touch (lastOfRun target count)
    return some (← place .loadNulls target (wideOf count) 0 0)
  | .loadBool target value => do
    touch target
    return some (← place .loadBool target (if value then 1 else 0) 0 0)
  | .loadRoot target => do
    touch target
    return some (← place .loadRoot target 0 0 0)
  | .mov target source => do
    touch target
    touch source
    return some (← place .move target (wideOf source) 0 0)
  | .get target object key => do
    touch target
    return some (← place .get target (wideOf object) key 0)
  | .getK target object key => do
    touch target
    touch object
    return some (← place .getK target (← addLiteral key) object 0)
  | .set target object key value => do
    touch target
    touch value
    return some (← place .set target (wideOf object) key value)
  | .newSlot target object key value => do
    touch target
    touch value
    return some (← place .newSlot target (wideOf object) key value)
  | .delete target object key => do
    touch target
    return some (← place .delete target (wideOf object) key 0)
  | .arith op target left right => do
    touch target
    touch left
    touch right
    return some (← place op target (wideOf left) right 0)
  | .bitw op target left right => do
    touch target
    return some (← place .bitw target (wideOf left) right op.code)
  | .neg target source => do
    touch target
    return some (← place .neg target (wideOf source) 0 0)
  | .not target source => do
    touch target
    return some (← place .not target (wideOf source) 0 0)
  | .cmp op target left right => do
    touch target
    return some (← place .cmp target (wideOf left) right op.code)
  | .eq target left right => do
    touch target
    return some (← place .eq target (wideOf right) left 0)
  | .eqLiteral target left value => do
    touch target
    return some (← place .eq target (← addLiteral value) left 1)
  | .ne target left right => do
    touch target
    return some (← place .ne target (wideOf right) left 0)
  | .jmp => return some (← place .jmp 0 0 0 0)
  | .jmpTo index => return some (← place .jmp 0 (offsetTo (← position) index) 0 0)
  | .jz condition => return some (← place .jz condition 0 0 0)
  | .and target source => do
    touch target
    return some (← place .and target 0 source 0)
  | .or target source => do
    touch target
    return some (← place .or target 0 source 0)
  | .prepCall target object key receiver => do
    touch target
    touch receiver
    return some (← place .prepCall target (wideOf key) object receiver)
  | .prepCallK target object key receiver => do
    touch target
    touch receiver
    return some (← place .prepCallK target (← addLiteral key) object receiver)
  | .call target function arguments count => do
    touch target
    touch (lastOfRun arguments count)
    return some (← place .call target (wideOf function) arguments count)
  | .tailCall target function arguments count => do
    touch target
    touch (lastOfRun arguments count)
    return some (← place .tailCall target (wideOf function) arguments count)
  | .ret source => return some (← place .ret 1 (wideOf source) 0 0)
  | .retNull => return some (← place .ret Instruction.noTarget 0 0 0)
  | .closure target index => do
    touch target
    return some (← place .closure target index 0 0)
  | .getOuter target index => do
    touch target
    return some (← place .getOuter target index 0 0)
  | .setOuter target index source => do
    touch target
    touch source
    return some (← place .setOuter target index source 0)
  | .newTable target => do
    touch target
    return some (← place .newObj target 0 0 ObjectForm.table.code)
  | .newArray target capacity => do
    touch target
    return some (← place .newObj target capacity 0 ObjectForm.array.code)
  | .newClass target base => do
    touch target
    return some (← place .newObj target ((base.map wideOf).getD (-1)) 0 ObjectForm.cls.code)
  | .append array source =>
    return some (← place .appendArray array (wideOf source) AppendSource.register.code 0)
  | .appendLiteral array value =>
    return some (← place .appendArray array (← addLiteral value) AppendSource.literal.code 0)
  | .appendInt array value =>
    return some (← place .appendArray array value AppendSource.integer.code 0)
  | .delegate target table delegate => do
    touch target
    return some (← place .delegate target (wideOf table) delegate 0)
  | .instanceOf target object cls => do
    touch target
    return some (← place .instanceOf target (wideOf cls) object 0)
  | .typeOf target source => do
    touch target
    return some (← place .typeOf target (wideOf source) 0 0)
  | .pushTrap register => do
    touch register
    return some (← place .pushTrap register 0 0 0)
  | .popTrap count => return some (← place .popTrap count 0 0 0)
  | .throw source => return some (← place .throw source 0 0 0)
  | .yieldValue source => return some (← place .yield 1 (wideOf source) 0 0)
  | .yieldNull => return some (← place .yield Instruction.noTarget 0 0 0)
  | .resume target generator => do
    touch target
    return some (← place .resume target (wideOf generator) 0 0)
  | .foreach container first => do
    touch (saturatingAdd first 2)
    return some (← place .foreach container 0 first 0)
  | .postForeach container => return some (← place .postForeach container 0 0 0)

/-- Perform steps in order and collect what they report. -/
def performAll : List BuildStep → Build (List (Option Int))
  | [] => return []
  | step :: rest => do
    let result ← perform step
    return result :: (← performAll rest)

/-- The frame always holds the parameters in the end. -/
def finish (prototype : Prototype) : Prototype :=
  { prototype with stackSize := max prototype.stackSize prototype.parameterCount }

/-- The prototype of the given name that the steps build, with what each step reported. -/
def run (name : String) (steps : List BuildStep) : Prototype × List (Option Int) :=
  let (results, prototype) := (performAll steps).run { name }
  (finish prototype, results)

end Builder

end ScriptMachine
