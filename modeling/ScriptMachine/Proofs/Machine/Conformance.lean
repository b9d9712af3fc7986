import ScriptMachine.Proofs.Machine.Operands

/-!
# Operands as they are checked and as they are used

Verification and the machine read the operands of an instruction independently of each other.
`conforms_iff_faithful` says when both readings agree: every register that is used is one that has
been checked, under the same number, and a literal is used exactly where one has been checked, if
and only if the wide operand names a register below 256 wherever it names a register, and the third
operand of a test for equality is zero or one.
-/

namespace ScriptMachine

open Exec

/-- Verification has checked the usage, under the number with which the operand is used. -/
def Prototype.Checks (function : Prototype) (instruction : Instruction) (usage : Usage) : Prop :=
  function.Places instruction usage ∧
    ∀ operand, usage = .wide operand →
      .register operand.toInt ∈ instruction.operands ∧
        ((Instruction.lowByte operand).toNat : Int) = operand.toInt

/-- Everything that an instruction uses has been checked, and literals are used where they have been
checked. -/
structure Prototype.Conforms (function : Prototype) (engine : Engine) (instruction : Instruction)
    (machine : Machine) : Prop where
  /-- What is used has been checked. -/
  checked : ∀ usage, instruction.Uses engine machine usage → function.Checks instruction usage
  /-- Registers lie in the window of the frame. -/
  window : ∀ usage, instruction.Uses engine machine usage → ∀ number ∈ usage.registers,
    ∀ current, machine.fiber.stack.current? = some current → current.base + number < current.top
  /-- Literals are used exactly where they have been checked. -/
  literal : ∀ index, instruction.Uses engine machine (.literal index) ↔
    .literal index ∈ instruction.operands

/-- The wide operand names registers below 256 only, and the third operand of a test for equality is
zero or one. -/
structure Instruction.Faithful (instruction : Instruction) : Prop where
  /-- The wide operand is no larger than a register number can be. -/
  narrow : instruction.takesWideRegister = true → instruction.wide.toInt < 256
  /-- A test for equality says plainly where its operand is. -/
  plain : instruction.op = .eq ∨ instruction.op = .ne →
    instruction.third = 0 ∨ instruction.third = 1

variable {function : Prototype} {instruction : Instruction} {access other : Access}

/-! ## What has been checked is used -/

/-- The direct access, but with a fault in place of a literal. -/
def Access.withoutLiteral (index : Int32) (fault : Fault) : Access :=
  { direct with
    literal := fun other => if other = index then raise fault else direct.literal other }

/-- The direct access, but with a fault in place of the register of a wide operand. -/
def Access.withoutWide (operand : Int32) (fault : Fault) : Access :=
  { direct with
    readWide := fun other => if other = operand then raise fault else direct.readWide other }

theorem Access.agreeOn_withoutLiteral (index : Int32) (fault : Fault) :
    (withoutLiteral index fault).AgreeOn (· ≠ .literal index) .direct where
  read _ _ := rfl
  write _ _ := rfl
  readWide _ _ := rfl
  span _ _ _ := rfl
  handOn _ _ := rfl
  literal other different := by
    have : other ≠ index := fun same => different (congrArg Usage.literal same)
    simp [withoutLiteral, this]

theorem Access.agreeOn_withoutWide (operand : Int32) (fault : Fault) :
    (withoutWide operand fault).AgreeOn (· ≠ .wide operand) .direct where
  read _ _ := rfl
  write _ _ := rfl
  readWide other different := by
    have : other ≠ operand := fun same => different (congrArg Usage.wide same)
    simp [withoutWide, this]
  span _ _ _ := rfl
  handOn _ _ := rfl
  literal _ _ := rfl

/-- The wide operand is the index of a literal. -/
def Instruction.takesLiteral (instruction : Instruction) : Bool :=
  match instruction.op with
  | .load | .getK | .prepCallK => true
  | .eq | .ne => instruction.third == 1
  | .appendArray => AppendSource.ofCode? instruction.second == some .literal
  | _ => false

theorem Exec.dispatch_withoutLiteral (takes : instruction.takesLiteral = true) (fault : Fault)
    (engine : Engine) (machine : Machine) :
    dispatch (.withoutLiteral instruction.wide fault) engine instruction machine =
      .error (.raised fault) (machine.record fault) := by
  obtain ⟨op, first, wide, second, third⟩ := instruction
  cases op with
  | load | getK =>
      simp [dispatch, perform, toFirst, Access.withoutLiteral, Access.direct, register, ofFiber,
        raise, bind, EStateM.bind]
  | prepCallK =>
      simp [dispatch, perform, prepareCall, Access.withoutLiteral, Access.direct, register, ofFiber,
        raise, bind, EStateM.bind]
  | eq | ne =>
      obtain rfl : third = 1 := by simpa [Instruction.takesLiteral] using takes
      simp [dispatch, perform, toFirst, operandsEqual, equalityOperand, Access.withoutLiteral,
        raise, bind, EStateM.bind]
  | appendArray =>
      have source : AppendSource.ofCode? second = some .literal := by
        simpa [Instruction.takesLiteral] using takes
      simp [dispatch, perform, append, appended, source, Access.withoutLiteral, raise, bind,
        EStateM.bind]
  | _ => exact absurd takes (by simp [Instruction.takesLiteral])

theorem Exec.dispatch_withoutWide (takes : instruction.takesWideRegister = true) (fault : Fault)
    (engine : Engine) (machine : Machine) :
    dispatch (.withoutWide instruction.wide fault) engine instruction machine =
      .error (.raised fault) (machine.record fault) := by
  obtain ⟨op, first, wide, second, third⟩ := instruction
  cases op with
  | move | neg | not | typeOf | resume | get | delete | delegate | instanceOf | set | newSlot
  | bitw | cmp | call | tailCall =>
      simp [dispatch, perform, toFirst, Access.withoutWide, raise, bind, EStateM.bind]
  | add | sub | mul | div | mod =>
      simp [dispatch, perform, arithInstruction, Access.withoutWide, raise, bind, EStateM.bind]
  | prepCall =>
      simp [dispatch, perform, prepareCall, Access.withoutWide, Access.direct, register, ofFiber,
        raise, bind, EStateM.bind]
  | eq | ne =>
      obtain rfl : third = 0 := by simpa [Instruction.takesWideRegister] using takes
      simp [dispatch, perform, toFirst, operandsEqual, equalityOperand, Access.withoutWide,
        raise, bind, EStateM.bind]
  | ret | yield =>
      have named : first ≠ Instruction.noTarget := by
        simpa [Instruction.takesWideRegister] using takes
      simp [dispatch, handedOut, Instruction.target?, named, Access.withoutWide, raise, bind,
        EStateM.bind]
  | newObj =>
      obtain ⟨form, positive⟩ : ObjectForm.ofCode? third = some .cls ∧ 0 ≤ wide := by
        simpa [Instruction.takesWideRegister] using takes
      have : ¬ wide.toInt < 0 := by simpa [Int32.le_iff_toInt_le] using positive
      simp [dispatch, perform, toFirst, newObject, form, newClass, this, Access.withoutWide,
        raise, bind, EStateM.bind]
  | appendArray =>
      have source : AppendSource.ofCode? second = some .register := by
        simpa [Instruction.takesWideRegister] using takes
      simp [dispatch, perform, append, appended, source, Access.withoutWide, raise, bind,
        EStateM.bind]
  | _ => exact absurd takes (by simp [Instruction.takesWideRegister])

theorem Instruction.uses_of_differ {engine : Engine} {machine : Machine} {usage : Usage}
    (one : access.AgreeOn (· ≠ usage) .direct) (two : other.AgreeOn (· ≠ usage) .direct)
    (differ : dispatch access engine instruction machine ≠
      dispatch other engine instruction machine) : instruction.Uses engine machine usage := by
  by_cases same : dispatch access engine instruction machine =
      dispatch .direct engine instruction machine
  · exact ⟨other, two, fun equal => differ (same.trans equal.symm)⟩
  · exact ⟨access, one, same⟩

theorem Instruction.uses_literal (takes : instruction.takesLiteral = true) (engine : Engine)
    (machine : Machine) : instruction.Uses engine machine (.literal instruction.wide) := by
  refine uses_of_differ (Access.agreeOn_withoutLiteral instruction.wide .noFrame)
    (Access.agreeOn_withoutLiteral instruction.wide .stackOverflow) ?_
  rw [dispatch_withoutLiteral takes, dispatch_withoutLiteral takes]
  simp

theorem Instruction.uses_wide (takes : instruction.takesWideRegister = true) (engine : Engine)
    (machine : Machine) : instruction.Uses engine machine (.wide instruction.wide) := by
  refine uses_of_differ (Access.agreeOn_withoutWide instruction.wide .noFrame)
    (Access.agreeOn_withoutWide instruction.wide .stackOverflow) ?_
  rw [dispatch_withoutWide takes, dispatch_withoutWide takes]
  simp

/-! ## Both readings agree -/

theorem Instruction.wide_mem_operands (takes : instruction.takesWideRegister = true) :
    .register instruction.wide.toInt ∈ instruction.operands := by
  obtain ⟨op, first, wide, second, third⟩ := instruction
  cases op with
  | eq | ne =>
      obtain rfl : third = 0 := by simpa [takesWideRegister] using takes
      simp [operands]
  | ret | yield =>
      have named : first ≠ noTarget := by simpa [takesWideRegister] using takes
      simp [operands, named]
  | newObj =>
      obtain ⟨form, positive⟩ : ObjectForm.ofCode? third = some .cls ∧ 0 ≤ wide := by
        simpa [takesWideRegister] using takes
      simp [operands, form, positive]
  | appendArray =>
      have source : AppendSource.ofCode? second = some .register := by
        simpa [takesWideRegister] using takes
      simp [operands, source]
  | move | neg | not | typeOf | resume | get | delete | add | sub | mul | div | mod | delegate
  | instanceOf | bitw | cmp | set | newSlot | prepCall | call | tailCall => simp [operands]
  | _ => exact absurd takes (by simp [takesWideRegister])

theorem Operand.literal_not_mem_target (first : UInt8) (index : Int32) :
    .literal index ∉ Operand.target first := by
  simp only [Operand.target]
  split <;> simp [Operand.byteRegister]

theorem Instruction.literal_mem_operands
    (plain : instruction.op = .eq ∨ instruction.op = .ne →
      instruction.third = 0 ∨ instruction.third = 1) (index : Int32) :
    .literal index ∈ instruction.operands ↔
      instruction.takesLiteral = true ∧ index = instruction.wide := by
  obtain ⟨op, first, wide, second, third⟩ := instruction
  cases op with
  | eq | ne =>
      rcases plain (by simp) with rfl | rfl
      · simp [operands, Operand.byteRegister, takesLiteral]
      · simp [operands, Operand.byteRegister, takesLiteral]
  | ret | yield =>
      by_cases omitted : first = noTarget
      · simp [operands, omitted, takesLiteral]
      · simp [operands, omitted, takesLiteral]
  | loadNulls =>
      by_cases above : 0 < wide
      · simp [operands, above, Operand.byteRegister, takesLiteral]
      · simp [operands, above, takesLiteral]
  | newObj =>
      simp only [operands, takesLiteral]
      split <;> first | split <;> simp [Operand.byteRegister] | simp [Operand.byteRegister]
  | appendArray =>
      cases source : AppendSource.ofCode? second with
      | none => simp [operands, source, Operand.byteRegister, takesLiteral]
      | some known => cases known <;> simp [operands, source, Operand.byteRegister, takesLiteral]
  | set | newSlot | call | tailCall | setOuter =>
      simp [operands, Operand.literal_not_mem_target, Operand.byteRegister, takesLiteral]
  | _ => simp [operands, Operand.byteRegister, takesLiteral]

theorem Instruction.plain_of_uses_literal {engine : Engine} {machine : Machine} {index : Int32}
    (tests : instruction.op = .eq ∨ instruction.op = .ne)
    (uses : instruction.Uses engine machine (.literal index)) : instruction.third = 1 := by
  obtain ⟨access, agree, differ⟩ := uses
  refine Classical.byContradiction fun other => differ ?_
  obtain ⟨op, first, wide, second, third⟩ := instruction
  have write := agree.write first (by simp)
  have read := agree.read second (by simp)
  have readWide := agree.readWide wide (by simp)
  rcases tests with rfl | rfl
  all_goals
    simp only [dispatch, perform, toFirst, operandsEqual, equalityOperand, other, if_false, write,
      read, readWide]

theorem Prototype.places_of_uses {engine : Engine} {machine : Machine} {current : Frame}
    {usage : Usage}
    (plain : instruction.op = .eq ∨ instruction.op = .ne →
      instruction.third = 0 ∨ instruction.third = 1)
    (found : machine.fiber.stack.current? = some current)
    (runs : current.closure.routine = Routine.load function)
    (uses : instruction.Uses engine machine usage) : function.Places instruction usage := by
  obtain ⟨access, agree, differ⟩ := uses
  refine Classical.byContradiction fun outside => ?_
  have away : ∀ {place : Usage}, function.Places instruction place → place ≠ usage :=
    fun places same => outside (same ▸ places)
  refine differ (dispatch_congr ⟨?_, ?_, ?_, ?_, ?_, ?_⟩ plain engine found runs)
  · exact fun number places => agree.read number (away places)
  · exact fun number places => agree.write number (away places)
  · exact fun operand places => agree.readWide operand (away places)
  · exact fun first count places => agree.span first count (away places)
  · exact fun number places => agree.handOn number (away places)
  · exact fun index places => agree.literal index (away places)

theorem Instruction.lowByte_eq {wide : Int32} (positive : 0 ≤ wide.toInt)
    (narrow : wide.toInt < 256) : ((lowByte wide).toNat : Int) = wide.toInt := by
  have rest : wide.toInt % 256 = wide.toInt := Int.emod_eq_of_lt positive narrow
  have small : wide.toInt.toNat < UInt8.size := by
    rw [UInt8.size]
    omega
  rw [lowByte, rest, UInt8.toNat_ofNat_of_lt' small]
  exact Int.toNat_of_nonneg positive

theorem Prototype.mem_capturesAt {capture : Capture}
    (member : capture ∈ function.capturesAt instruction) :
    instruction.op = .closure ∧ ∃ inner ∈ function.functions, capture ∈ inner.captures.toList := by
  by_cases creates : instruction.op = .closure
  · simp only [capturesAt, creates, if_true] at member
    cases nested : function.functions[instruction.wide.toInt.toNat]? with
    | none => simp only [nested, Option.map_none, Option.getD_none, List.not_mem_nil] at member
    | some inner =>
        simp only [nested, Option.map_some, Option.getD_some] at member
        exact ⟨creates, inner, List.mem_of_getElem? nested, member⟩
  · simp [capturesAt, creates] at member

theorem Prototype.lt_of_checksRegister {number : Nat} (accepted : function.Accepted)
    (member : instruction ∈ function.code) (checks : function.ChecksRegister instruction number) :
    number < function.stackSize := by
  cases accepted with
  | intro _ operands _ _ captures =>
      rcases checks with operand | ⟨iterates, _, high⟩ | ⟨capture, captured, names⟩
      · exact Int.ofNat_lt.mp (operands instruction member _ operand).2
      · obtain ⟨op, first, wide, second, third⟩ := instruction
        obtain rfl := iterates
        have last := (operands _ member (.register ((second.toNat : Int) + 2))
          (by simp [Instruction.operands])).2
        have high : number ≤ second.toNat + 2 := high
        omega
      · obtain ⟨isClosure, inner, nested, inside⟩ := mem_capturesAt captured
        have offered := captures inner nested capture inside
        obtain ⟨op, first, wide, second, third⟩ := instruction
        obtain rfl := isClosure
        have target := (operands _ member (.byteRegister first) (by simp [Instruction.operands])).2
        cases source : capture.source with
        | register captured =>
            simp only [source] at names
            simpa [source, offers, names] using offered
        | outer index => simp [source] at names
        | symbol name =>
            simp only [source] at names
            omega

theorem Prototype.lt_of_checks {usage : Usage} (accepted : function.Accepted)
    (member : instruction ∈ function.code) (checks : function.Checks instruction usage) :
    ∀ number ∈ usage.registers, number < function.stackSize := by
  intro number concerned
  cases usage with
  | register first | handedOn first =>
      obtain rfl : number = first.toNat := by simpa [Usage.registers] using concerned
      exact lt_of_checksRegister accepted member checks.1
  | wide operand =>
      obtain rfl : number = (Instruction.lowByte operand).toNat := by
        simpa [Usage.registers] using concerned
      obtain ⟨checked, same⟩ := checks.2 operand rfl
      refine lt_of_checksRegister accepted member (.inl ?_)
      rwa [same]
  | span first count =>
      obtain ⟨low, high⟩ : first.toNat ≤ number ∧ number < first.toNat + count := by
        simpa [Usage.registers] using concerned
      have last := (checks.1 (by omega)).2
      have : ((first.toNat : Int) + count - 1) = (first.toNat + count - 1 : Nat) := by omega
      rw [this] at last
      have := lt_of_checksRegister accepted member (.inl last)
      omega
  | literal index => exact absurd concerned (by simp [Usage.registers])

/-- In accepted code, what an instruction uses is what has been checked if and only if its wide
operand names registers below 256 only and, in a test for equality, its third operand is zero or
one. -/
theorem Prototype.conforms_iff_faithful {prototype : Prototype} {machine : Machine}
    {current : Frame} (engine : Engine) (verified : prototype.verify = .ok ())
    (inside : function.Within prototype) (index : Nat)
    (holds : function.code[index]? = some instruction)
    (found : machine.fiber.stack.current? = some current)
    (runs : current.closure.routine = Routine.load function) :
    function.Conforms engine instruction machine ↔ instruction.Faithful := by
  have accepted := (accepted_of_verify verified).within inside
  have member : instruction ∈ function.code := Array.mem_of_getElem? holds
  constructor
  · intro conforms
    refine ⟨fun takes => ?_, fun tests => ?_⟩
    · have checks := conforms.checked _ (Instruction.uses_wide takes engine machine)
      have same := (checks.2 instruction.wide rfl).2
      have byte := (Instruction.lowByte instruction.wide).toNat_lt
      omega
    · by_cases zero : instruction.third = 0
      · exact .inl zero
      · have literal : .literal instruction.wide ∈ instruction.operands := by
          obtain ⟨op, first, wide, second, third⟩ := instruction
          rcases tests with rfl | rfl
          all_goals simp [Instruction.operands, show third ≠ 0 from zero]
        exact .inr (Instruction.plain_of_uses_literal tests ((conforms.literal _).mpr literal))
  · intro faithful
    have checked : ∀ usage, instruction.Uses engine machine usage →
        function.Checks instruction usage := by
      intro usage uses
      have places := places_of_uses faithful.plain found runs uses
      refine ⟨places, ?_⟩
      rintro operand rfl
      obtain ⟨takes, rfl⟩ := places
      have operand := Instruction.wide_mem_operands takes
      cases accepted with
      | intro _ operands _ _ _ =>
          have range := operands instruction member _ operand
          exact ⟨operand, Instruction.lowByte_eq range.1 (faithful.narrow takes)⟩
    refine ⟨checked, ?_, ?_⟩
    · intro usage uses number concerned current' found'
      obtain rfl : current = current' := Option.some.inj (found.symm.trans found')
      rw [Frame.top, runs, Routine.stackSize_load function accepted]
      have inFrame := lt_of_checks accepted member (checked usage uses) number concerned
      exact Nat.add_lt_add_left inFrame _
    · intro index
      refine ⟨fun uses => places_of_uses faithful.plain found runs uses, fun literal => ?_⟩
      obtain ⟨takes, rfl⟩ := (Instruction.literal_mem_operands faithful.plain index).mp literal
      exact Instruction.uses_literal takes engine machine

/-- Copies registers 255 and 256 of a large frame, and compares with a third operand of two. -/
def Prototype.copying : Prototype where
  name := "copying"
  literals := #[.null]
  code := #[⟨.move, 0, 255, 0, 0⟩, ⟨.move, 0, 256, 0, 0⟩, ⟨.eq, 0, 0, 0, 2⟩]
  stackSize := 300

/-- A machine in a frame of that function. -/
def Machine.copying : Machine :=
  let closure : Closure := { routine := Routine.load .copying }
  (Machine.create {}).mapStack
    (·.addFrame { ref := ⟨0⟩, closure, ip := 1, base := 0, target := none, isRoot := true })

set_option maxRecDepth 8000 in
theorem Prototype.conforms_iff_faithful_copying :
    copying.Conforms .spent ⟨.move, 0, 255, 0, 0⟩ Machine.copying ∧
      ¬ copying.Conforms .spent ⟨.move, 0, 256, 0, 0⟩ Machine.copying ∧
      ¬ copying.Conforms .spent ⟨.eq, 0, 0, 0, 2⟩ Machine.copying := by
  have verified : copying.verify = .ok () := rfl
  refine ⟨?_, ?_, ?_⟩
  · refine (conforms_iff_faithful .spent verified .self 0 rfl rfl rfl).mpr ⟨?_, ?_⟩
    · decide
    · decide
  · intro conforms
    have faithful := (conforms_iff_faithful .spent verified .self 1 rfl rfl rfl).mp conforms
    exact absurd (faithful.narrow rfl) (by decide)
  · intro conforms
    have faithful := (conforms_iff_faithful .spent verified .self 2 rfl rfl rfl).mp conforms
    exact absurd (faithful.plain (.inl rfl)) (by decide)

end ScriptMachine
