import ScriptMachine.Machine.Dispatch
import ScriptMachine.Proofs.Bytecode.Accepted

/-!
# Operands that are used

A usage is something that an instruction does with an operand; an instruction uses an operand in a
state of the machine if it matters there what the access does for it.  `Prototype.Places` lists the
usages of the positions in which verification has found an operand of that kind, and
`dispatch_congr` says that an instruction uses nothing else.
-/

namespace ScriptMachine

/-! ## Usages -/

/-- What an instruction does with an operand. -/
inductive Usage where
  /-- Read or assign a register. -/
  | register (number : UInt8)
  /-- Read the register that a wide operand names. -/
  | wide (operand : Int32)
  /-- Use so many registers together. -/
  | span (first : UInt8) (count : Nat)
  /-- Leave a register to something that goes on later. -/
  | handedOn (number : UInt8)
  /-- Read a literal. -/
  | literal (index : Int32)
deriving DecidableEq

/-- The registers that are concerned. -/
def Usage.registers : Usage → List Nat
  | .register number => [number.toNat]
  | .wide operand => [(Instruction.lowByte operand).toNat]
  | .span first count => List.range' first.toNat count
  | .handedOn number => [number.toNat]
  | .literal _ => []

/-- Two accesses do the same for some usages. -/
structure Access.AgreeOn (allowed : Usage → Prop) (access other : Access) : Prop where
  /-- Reading a register. -/
  read : ∀ number, allowed (.register number) → access.read number = other.read number
  /-- Assigning a register. -/
  write : ∀ number, allowed (.register number) → access.write number = other.write number
  /-- Reading the register of a wide operand. -/
  readWide : ∀ operand, allowed (.wide operand) → access.readWide operand = other.readWide operand
  /-- Using several registers. -/
  span : ∀ first count, allowed (.span first count) →
    access.span first count = other.span first count
  /-- Leaving a register to something else. -/
  handOn : ∀ number, allowed (.handedOn number) → access.handOn number = other.handOn number
  /-- Reading a literal. -/
  literal : ∀ index, allowed (.literal index) → access.literal index = other.literal index

open Exec

/-- It matters in a state of the machine what the access does for a usage. -/
def Instruction.Uses (instruction : Instruction) (engine : Engine) (machine : Machine)
    (usage : Usage) : Prop :=
  ∃ access : Access, access.AgreeOn (· ≠ usage) .direct ∧
    dispatch access engine instruction machine ≠ dispatch .direct engine instruction machine

/-! ## Checked usages -/

/-- The wide operand names a register. -/
def Instruction.takesWideRegister (instruction : Instruction) : Bool :=
  match instruction.op with
  | .move | .neg | .not | .typeOf | .resume | .get | .delete | .add | .sub | .mul | .div | .mod
  | .delegate | .instanceOf | .bitw | .cmp | .set | .newSlot | .prepCall | .call | .tailCall =>
    true
  | .eq | .ne => instruction.third == 0
  | .ret | .yield => instruction.first != Instruction.noTarget
  | .newObj => ObjectForm.ofCode? instruction.third == some .cls && decide (0 ≤ instruction.wide)
  | .appendArray => AppendSource.ofCode? instruction.second == some .register
  | _ => false

/-- The variables that are captured by a closure that the instruction creates. -/
def Prototype.capturesAt (function : Prototype) (instruction : Instruction) : List Capture :=
  if instruction.op = .closure then
    ((function.functions[instruction.wide.toInt.toNat]?).map (·.captures.toList)).getD []
  else []

/-- The register is an operand, one of the registers of an iteration, or captured; the receiver is
asked for variables that are captured by name. -/
def Prototype.ChecksRegister (function : Prototype) (instruction : Instruction) (number : Nat) :
    Prop :=
  .register number ∈ instruction.operands ∨
    (instruction.op = .foreach ∧ instruction.second.toNat ≤ number ∧
      number ≤ instruction.second.toNat + 2) ∨
    ∃ capture ∈ function.capturesAt instruction,
      match capture.source with
      | .register captured => captured.toNat = number
      | .outer _ => False
      | .symbol _ => number = 0

/-- The position is one where verification has found an operand of that kind. -/
def Prototype.Places (function : Prototype) (instruction : Instruction) : Usage → Prop
  | .register number => function.ChecksRegister instruction number.toNat
  | .wide operand => instruction.takesWideRegister = true ∧ operand = instruction.wide
  | .span first count => 0 < count →
      .register first.toNat ∈ instruction.operands ∧
        .register ((first.toNat : Int) + count - 1) ∈ instruction.operands
  | .handedOn number => function.ChecksRegister instruction number.toNat
  | .literal index => .literal index ∈ instruction.operands

/-! ## What is used has been checked -/

variable {function : Prototype} {instruction : Instruction} {access other : Access}

theorem Access.AgreeOn.deliver (agree : access.AgreeOn (function.Places instruction) other)
    (checked : ∀ target ∈ instruction.target?, .byteRegister target ∈ instruction.operands)
    (value : Value) :
    access.deliver instruction.target? value = other.deliver instruction.target? value := by
  cases named : instruction.target? with
  | none => rfl
  | some target => exact congrFun (agree.write target (.inl (checked target named))) value

theorem Access.AgreeOn.map_handOn (agree : access.AgreeOn (function.Places instruction) other)
    (checked : ∀ target ∈ instruction.target?, .byteRegister target ∈ instruction.operands) :
    instruction.target?.map access.handOn = instruction.target?.map other.handOn := by
  cases named : instruction.target? with
  | none => rfl
  | some target => exact congrArg some (agree.handOn target (.inl (checked target named)))

theorem Instruction.mem_target {op : Opcode} {first second third : UInt8} {wide : Int32}
    {target : UInt8} (named : target ∈ (⟨op, first, wide, second, third⟩ : Instruction).target?) :
    .byteRegister target ∈ Operand.target first := by
  by_cases omitted : first = Instruction.noTarget
  · simp [Instruction.target?, omitted] at named
  · obtain rfl : first = target := by simpa [Instruction.target?, omitted] using named
    simp [Operand.target, omitted]

theorem Exec.callInstruction_congr
    (agree : access.AgreeOn (function.Places instruction) other)
    (span : function.Places instruction (.span instruction.second instruction.third.toNat))
    (checked : ∀ target ∈ instruction.target?, .byteRegister target ∈ instruction.operands)
    (engine : Engine) (callee : Value) :
    callInstruction access engine callee instruction =
      callInstruction other engine callee instruction := by
  simp only [callInstruction, agree.span _ _ span, agree.map_handOn checked, agree.deliver checked]

theorem Exec.tailCall_congr
    (agree : access.AgreeOn (function.Places instruction) other)
    (span : function.Places instruction (.span instruction.second instruction.third.toNat))
    (checked : ∀ target ∈ instruction.target?, .byteRegister target ∈ instruction.operands)
    (engine : Engine) (callee : Value) :
    tailCall access engine callee instruction = tailCall other engine callee instruction := by
  cases callee with
  | closure ref =>
      simp only [tailCall, replaceFrame, agree.span _ _ span,
        callInstruction_congr agree span checked]
  | _ => exact callInstruction_congr agree span checked engine _

theorem IterationRegisters.ofFirst_eq_ok {first : UInt8} {registers : IterationRegisters}
    (found : IterationRegisters.ofFirst first = .ok registers) :
    registers.key.toNat = first.toNat ∧ registers.value.toNat = first.toNat + 1 ∧
      registers.cursor.toNat = first.toNat + 2 := by
  rw [IterationRegisters.ofFirst] at found
  split at found
  · obtain rfl := Except.ok.inj found
    refine ⟨rfl, ?_, ?_⟩
    · simp only [UInt8.toNat_add, UInt8.reduceToNat]
      omega
    · simp only [UInt8.toNat_add, UInt8.reduceToNat]
      omega
  · exact absurd found (by simp)

theorem Exec.iterate_congr {first second third : UInt8} {wide : Int32}
    (agree : access.AgreeOn (function.Places ⟨.foreach, first, wide, second, third⟩) other)
    (engine : Engine) :
    iterate access engine first second wide = iterate other engine first second wide := by
  have inRange : ∀ number : UInt8, second.toNat ≤ number.toNat → number.toNat ≤ second.toNat + 2 →
      function.ChecksRegister ⟨.foreach, first, wide, second, third⟩ number.toNat :=
    fun _ low high => .inr (.inl ⟨rfl, low, high⟩)
  have container := agree.read first (.inl (by simp [Instruction.operands, Operand.byteRegister]))
  cases found : IterationRegisters.ofFirst second with
  | error fault => simp only [iterate, container, found, ofExcept]; rfl
  | ok registers =>
      obtain ⟨key, value, cursor⟩ := IterationRegisters.ofFirst_eq_ok found
      have keyChecked := inRange registers.key (by omega) (by omega)
      have valueChecked := inRange registers.value (by omega) (by omega)
      have cursorChecked := inRange registers.cursor (by omega) (by omega)
      simp only [iterate, container, found, ofExcept, pure_bind, iterationStep,
        agree.read registers.cursor cursorChecked, agree.write registers.key keyChecked,
        agree.write registers.value valueChecked, agree.write registers.cursor cursorChecked,
        agree.handOn registers.value valueChecked]

theorem Exec.captureCells_congr {captures : List Capture}
    (registers : ∀ capture ∈ captures, ∀ number, capture.source = .register number →
      number.toNat < 256 →
      access.read (UInt8.ofNat number.toNat) = other.read (UInt8.ofNat number.toNat))
    (receiver : ∀ capture ∈ captures, ∀ name, capture.source = .symbol name →
      access.read 0 = other.read 0)
    (engine : Engine) (creator : Closure) (cells : Array (Ref .cell)) :
    captureCells access engine creator captures cells =
      captureCells other engine creator captures cells := by
  induction captures generalizing cells with
  | nil => rfl
  | cons capture rest ih =>
      have head : captureCell access engine creator capture.source =
          captureCell other engine creator capture.source := by
        cases source : capture.source with
        | register number =>
            by_cases small : number.toNat < 256
            · simp only [captureCell, registers capture (by simp) number source small]
            · funext machine
              simp [captureCell, Nat.le_of_not_lt small, raise, bind, EStateM.bind]
        | outer index => rfl
        | symbol name => simp only [captureCell, receiver capture (by simp) name source]
      have tail := ih (fun capture member => registers capture (by simp [member]))
        (fun capture member => receiver capture (by simp [member]))
      simp only [captureCells, head, tail]

theorem Exec.frame_bind {α : Type} {machine : Machine} {current : Frame}
    (found : machine.fiber.stack.current? = some current) (next : Frame → Exec α) :
    (Exec.frame >>= next) machine = next current machine := by
  simp [Exec.frame, ofFiber, found, bind, EStateM.bind, pure, EStateM.pure]

theorem Exec.makeClosure_congr {first second third : UInt8} {wide : Int32}
    (agree : access.AgreeOn (function.Places ⟨.closure, first, wide, second, third⟩) other)
    (engine : Engine) {machine : Machine} {current : Frame}
    (found : machine.fiber.stack.current? = some current)
    (runs : current.closure.routine = Routine.load function) :
    makeClosure access engine first wide machine = makeClosure other engine first wide machine := by
  have write := agree.write first (.inl (by simp [Instruction.operands, Operand.byteRegister]))
  rw [makeClosure, makeClosure, frame_bind found, frame_bind found]
  by_cases negative : wide.toInt < 0
  · simp only [negative, if_true]
  · cases nested : function.functions[wide.toInt.toNat]? with
    | none =>
        simp only [negative, if_false, runs, Routine.functions_load, List.getElem?_map, nested,
          Option.map_none]
    | some inner =>
        have captures : function.capturesAt ⟨.closure, first, wide, second, third⟩ =
            inner.captures.toList := by
          simp only [Prototype.capturesAt, if_true, nested, Option.map_some, Option.getD_some]
        have registers : ∀ capture ∈ inner.captures.toList, ∀ number,
            capture.source = .register number → number.toNat < 256 →
            access.read (UInt8.ofNat number.toNat) = other.read (UInt8.ofNat number.toNat) := by
          intro capture member number source small
          refine agree.read _ (.inr (.inr ⟨capture, captures ▸ member, ?_⟩))
          simp [source, Nat.mod_eq_of_lt small]
        have receiver : ∀ capture ∈ inner.captures.toList, ∀ name, capture.source = .symbol name →
            access.read 0 = other.read 0 := by
          intro capture member name source
          refine agree.read _ (.inr (.inr ⟨capture, captures ▸ member, ?_⟩))
          simp [source]
        have same := captureCells_congr registers receiver engine current.closure #[]
        simp only [negative, if_false, runs, Routine.functions_load, List.getElem?_map, nested,
          Option.map_some, Routine.captures_load, same, write]

theorem Exec.perform_congr (agree : access.AgreeOn (function.Places instruction) other)
    (plain : instruction.op = .eq ∨ instruction.op = .ne →
      instruction.third = 0 ∨ instruction.third = 1)
    (engine : Engine) {machine : Machine} {current : Frame}
    (found : machine.fiber.stack.current? = some current)
    (runs : current.closure.routine = Routine.load function) :
    perform access engine instruction machine = perform other engine instruction machine := by
  have read : ∀ number, .byteRegister number ∈ instruction.operands →
      access.read number = other.read number :=
    fun number checked => agree.read number (.inl checked)
  have write : ∀ number, .byteRegister number ∈ instruction.operands →
      access.write number = other.write number :=
    fun number checked => agree.write number (.inl checked)
  have readWide : instruction.takesWideRegister = true →
      access.readWide instruction.wide = other.readWide instruction.wide :=
    fun named => agree.readWide instruction.wide ⟨named, rfl⟩
  have literal : .literal instruction.wide ∈ instruction.operands →
      access.literal instruction.wide = other.literal instruction.wide :=
    agree.literal instruction.wide
  obtain ⟨op, first, wide, second, third⟩ := instruction
  cases op with
  | jmp | popTrap | call | tailCall | ret | yield => rfl
  | load =>
      simp only [perform, toFirst, literal (by simp [Instruction.operands]),
        write first (by simp [Instruction.operands])]
  | getK =>
      simp only [perform, toFirst, literal (by simp [Instruction.operands]),
        read second (by simp [Instruction.operands]), write first (by simp [Instruction.operands])]
  | loadInt | loadFloat | loadBool | loadRoot | getOuter =>
      simp only [perform, toFirst, write first (by simp [Instruction.operands])]
  | loadNulls =>
      have span := agree.span first wide.toInt.toNat fun positive => ?_
      · simp only [perform, loadNulls, span]
      · have above : 0 < wide := by simpa using positive
        have count : (wide.toInt.toNat : Int) = wide.toInt := Int.toNat_of_nonneg (by omega)
        simp only [Instruction.operands, above, if_true, count]
        simp [Operand.byteRegister]
  | move | neg | not | typeOf =>
      simp only [perform, toFirst, readWide rfl, write first (by simp [Instruction.operands])]
  | get | delete | delegate | instanceOf | bitw | cmp | add | sub | mul | div | mod =>
      simp only [perform, arithInstruction, toFirst, readWide rfl,
        read second (by simp [Instruction.operands]), write first (by simp [Instruction.operands])]
  | set | newSlot =>
      have deliver := agree.deliver fun _ named => by
        simp [Instruction.operands, Instruction.mem_target named]
      simp only [perform, readWide rfl, read second (by simp [Instruction.operands]),
        read third (by simp [Instruction.operands]), deliver]
  | setOuter =>
      have deliver := agree.deliver fun _ named => by
        simp [Instruction.operands, Instruction.mem_target named]
      simp only [perform, read second (by simp [Instruction.operands]), deliver]
  | eq | ne =>
      have operand : ∀ op, equalityOperand access ⟨op, first, wide, second, third⟩ =
          equalityOperand other ⟨op, first, wide, second, third⟩ := by
        rcases plain (by simp) with rfl | rfl
        · simp [equalityOperand, readWide rfl]
        · simp [equalityOperand, literal (by simp [Instruction.operands])]
      simp only [perform, toFirst, operandsEqual, operand,
        read second (by simp [Instruction.operands]), write first (by simp [Instruction.operands])]
  | jz | throw | postForeach =>
      simp only [perform, finishIteration, read first (by simp [Instruction.operands])]
  | and | or =>
      simp only [perform, shortCircuit, read second (by simp [Instruction.operands]),
        write first (by simp [Instruction.operands])]
  | prepCall =>
      simp only [perform, prepareCall, readWide rfl, read second (by simp [Instruction.operands]),
        write first (by simp [Instruction.operands]), write third (by simp [Instruction.operands])]
  | prepCallK =>
      simp only [perform, prepareCall, literal (by simp [Instruction.operands]),
        read second (by simp [Instruction.operands]), write first (by simp [Instruction.operands]),
        write third (by simp [Instruction.operands])]
  | closure => exact makeClosure_congr agree engine found runs
  | newObj =>
      simp only [perform, toFirst, newObject, write first (by simp [Instruction.operands])]
      cases form : ObjectForm.ofCode? third with
      | none => rfl
      | some known =>
          cases known with
          | cls =>
              by_cases negative : wide.toInt < 0
              · simp only [newClass, negative, if_true]
              · have named : 0 ≤ wide := by
                  rw [Int32.le_iff_toInt_le]
                  exact Int.not_lt.mp negative
                have base := readWide (by simp [Instruction.takesWideRegister, form, named])
                simp only [newClass, negative, if_false, base]
          | _ => rfl
  | appendArray =>
      simp only [perform, append, appended, read first (by simp [Instruction.operands])]
      cases source : AppendSource.ofCode? second with
      | none => rfl
      | some known =>
          cases known with
          | register => simp only [readWide (by simp [Instruction.takesWideRegister, source])]
          | literal => simp only [literal (by simp [Instruction.operands, source])]
          | integer => rfl
  | pushTrap =>
      have target := agree.handOn first
        (.inl (by simp [Instruction.operands, Operand.byteRegister]))
      simp only [perform, pushTrap, target]
  | resume =>
      have target := agree.map_handOn fun target named => by
        obtain ⟨_, rfl⟩ : _ ∧ first = target := by simpa [Instruction.target?] using named
        simp [Instruction.operands]
      simp only [perform, readWide rfl, target]
  | foreach => exact congrFun (iterate_congr agree engine) machine

theorem Prototype.places_call (function : Prototype) (instruction : Instruction)
    (calls : instruction.op = .call ∨ instruction.op = .tailCall) :
    function.Places instruction (.span instruction.second instruction.third.toNat) ∧
      ∀ target ∈ instruction.target?, .byteRegister target ∈ instruction.operands := by
  obtain ⟨op, first, wide, second, third⟩ := instruction
  rcases calls with rfl | rfl
  all_goals
    refine ⟨fun _ => ⟨?_, ?_⟩, fun target named => ?_⟩
    · simp [Instruction.operands, Operand.byteRegister]
    · simp [Instruction.operands]
    · simp [Instruction.operands, Instruction.mem_target named]

/-- An instruction does the same with two accesses that agree on all that has been checked. -/
theorem Exec.dispatch_congr (agree : access.AgreeOn (function.Places instruction) other)
    (plain : instruction.op = .eq ∨ instruction.op = .ne →
      instruction.third = 0 ∨ instruction.third = 1)
    (engine : Engine) {machine : Machine} {current : Frame}
    (found : machine.fiber.stack.current? = some current)
    (runs : current.closure.routine = Routine.load function) :
    dispatch access engine instruction machine = dispatch other engine instruction machine := by
  have performed := perform_congr agree plain engine found runs
  obtain ⟨op, first, wide, second, third⟩ := instruction
  cases op with
  | call =>
      have callee := agree.readWide wide ⟨rfl, rfl⟩
      obtain ⟨span, target⟩ :=
        Prototype.places_call function ⟨.call, first, wide, second, third⟩ (.inl rfl)
      simp only [dispatch, callee, callInstruction_congr agree span target]
  | tailCall =>
      have callee := agree.readWide wide ⟨rfl, rfl⟩
      obtain ⟨span, target⟩ :=
        Prototype.places_call function ⟨.tailCall, first, wide, second, third⟩ (.inr rfl)
      simp only [dispatch, callee, tailCall_congr agree span target]
  | ret | yield =>
      simp only [dispatch, handedOut]
      by_cases omitted : first = Instruction.noTarget
      · simp [Instruction.target?, omitted]
      · simp only [agree.readWide wide ⟨by simp [Instruction.takesWideRegister, omitted], rfl⟩]
  | _ => simp only [dispatch, bind, EStateM.bind, performed]

end ScriptMachine
