import ScriptMachine.Bytecode.Verification
import ScriptMachine.Object.Routine

/-!
# What verification establishes

`Prototype.Accepted` says what a prototype promises to the machine: its frame holds the parameters,
jumps and operands of its instructions stay in their ranges, the functions nested in it are
accepted, and what these capture exists.  `accepted_of_verify` says that verification establishes
all of this.
-/

namespace ScriptMachine

namespace Prototype

/-- The demand of an operand is met in the function. -/
def Admits (prototype : Prototype) : Operand → Prop
  | .register number => 0 ≤ number ∧ number < prototype.stackSize
  | .literal index => 0 ≤ index.toInt ∧ index.toInt < prototype.literals.size
  | .function index => 0 ≤ index.toInt ∧ index.toInt < prototype.functions.length
  | .outer index => 0 ≤ index.toInt ∧ index.toInt < prototype.captures.size
  | .variant known => known = true

/-- A prototype that keeps its promises. -/
inductive Accepted : Prototype → Prop
  | intro {prototype : Prototype}
      /- The frame holds the parameters. -/
      (frame : prototype.parameterCount ≤ prototype.stackSize)
      /- Operands stay in their ranges. -/
      (operands : ∀ instruction ∈ prototype.code, ∀ operand ∈ instruction.operands,
        prototype.Admits operand)
      /- Jumps stay in the function. -/
      (jumps : ∀ (index : Nat) instruction, prototype.code[index]? = some instruction →
        ∀ target, instruction.jumpTarget? index = some target →
          0 ≤ target ∧ target < prototype.code.size)
      /- Nested functions are accepted. -/
      (nested : ∀ function ∈ prototype.functions, Accepted function)
      /- What they capture exists. -/
      (captures : ∀ function ∈ prototype.functions, ∀ capture ∈ function.captures.toList,
        prototype.offers capture.source = true) :
      Accepted prototype

theorem inRange_iff {number : Int} {bound : Nat} :
    inRange number bound = true ↔ 0 ≤ number ∧ number < bound := by
  simp [inRange]

theorem bind_eq_ok {ε α β : Type} {first : Except ε α} {next : α → Except ε β} {result : β}
    (done : (first >>= next) = .ok result) :
    ∃ value, first = .ok value ∧ next value = .ok result := by
  cases first with
  | error cause => exact absurd done (by simp [bind, Except.bind])
  | ok value => exact ⟨value, rfl, done⟩

variable {prototype : Prototype}

theorem admits_of_checkOperand {index : Nat} {op : Opcode} {operand : Operand}
    (checked : prototype.checkOperand index op operand = .ok ()) : prototype.Admits operand := by
  cases operand with
  | variant known =>
      simp only [checkOperand] at checked
      split at checked
      · assumption
      · exact absurd checked (by simp)
  | _ =>
      simp only [checkOperand] at checked
      split at checked
      · exact inRange_iff.mp ‹_›
      · exact absurd checked (by simp)

theorem forM_eq_ok {ε α : Type} {check : α → Except ε Unit} {list : List α}
    (done : list.forM check = .ok ()) : ∀ item ∈ list, check item = .ok () := by
  induction list with
  | nil => simp
  | cons first rest ih =>
      obtain ⟨_, head, tail⟩ := bind_eq_ok done
      intro item member
      rcases List.mem_cons.mp member with rfl | member
      · exact head
      · exact ih tail item member

/-- What is checked of one instruction. -/
theorem checkInstruction_eq_ok {index : Nat} {instruction : Instruction}
    (checked : prototype.checkInstruction index instruction = .ok ()) :
    (∀ operand ∈ instruction.operands, prototype.Admits operand) ∧
      ∀ target, instruction.jumpTarget? index = some target →
        0 ≤ target ∧ target < prototype.code.size := by
  obtain ⟨_, jump, operands⟩ := bind_eq_ok checked
  refine ⟨fun operand member => admits_of_checkOperand (forM_eq_ok operands operand member), ?_⟩
  intro target leads
  simp only [checkJump, leads] at jump
  split at jump
  · exact inRange_iff.mp ‹_›
  · exact absurd jump (by simp)

theorem checkCode_eq_ok {start : Nat} {list : List Instruction}
    (checked : prototype.checkCode start list = .ok ()) (index : Nat) (instruction : Instruction)
    (found : list[index]? = some instruction) :
    prototype.checkInstruction (start + index) instruction = .ok () := by
  induction list generalizing start index with
  | nil => exact absurd found (by simp)
  | cons first rest ih =>
      obtain ⟨_, head, tail⟩ := bind_eq_ok checked
      cases index with
      | zero =>
          obtain rfl : first = instruction := by simpa using found
          exact head
      | succ index =>
          have later := ih tail index (by simpa using found)
          rwa [Nat.add_assoc, Nat.add_comm 1 index] at later

theorem checkCaptures_eq_ok {parent : Prototype}
    (checked : prototype.checkCaptures (some parent) = .ok ()) :
    ∀ capture ∈ prototype.captures.toList, parent.offers capture.source = true := by
  simp only [checkCaptures] at checked
  split at checked
  · exact absurd checked (by simp)
  · rename_i missing
    intro capture member
    simpa using List.find?_eq_none.mp missing capture member

mutual

theorem accepted_of_verifyWithin {parent : Option Prototype} :
    (prototype : Prototype) → prototype.verifyWithin parent = .ok () →
      prototype.Accepted ∧ prototype.checkCaptures parent = .ok ()
  | ⟨name, source, literals, parameters, captures, lines, code, stackSize, isGenerator, isVariadic,
      functions⟩, verified => by
    rw [verifyWithin] at verified
    obtain ⟨_, frame, verified⟩ := bind_eq_ok verified
    obtain ⟨_, captured, verified⟩ := bind_eq_ok verified
    obtain ⟨_, checked, verified⟩ := bind_eq_ok verified
    have nested := accepted_of_verifyAll functions verified
    refine ⟨.intro ?_ ?_ ?_ (fun function member => (nested function member).1)
      (fun function member => checkCaptures_eq_ok (nested function member).2), captured⟩
    · simp only [checkFrame] at frame
      split at frame
      · exact absurd frame (by simp)
      · exact Nat.le_of_not_lt ‹_›
    · intro instruction member
      obtain ⟨index, found⟩ := List.mem_iff_getElem?.mp (Array.mem_toList_iff.mpr member)
      exact (checkInstruction_eq_ok (checkCode_eq_ok checked index instruction found)).1
    · intro index instruction found
      have inList : code.toList[index]? = some instruction := by simpa using found
      have exact := checkCode_eq_ok checked index instruction inList
      rw [Nat.zero_add] at exact
      exact (checkInstruction_eq_ok exact).2

theorem accepted_of_verifyAll {parent : Prototype} :
    (list : List Prototype) → verifyAll parent list = .ok () →
      ∀ function ∈ list, function.Accepted ∧ function.checkCaptures (some parent) = .ok ()
  | [], _ => by simp
  | first :: rest, verified => by
    rw [verifyAll] at verified
    obtain ⟨_, head, tail⟩ := bind_eq_ok verified
    have accepted := accepted_of_verifyWithin first head
    have later := accepted_of_verifyAll rest tail
    intro function member
    rcases List.mem_cons.mp member with rfl | member
    · exact accepted
    · exact later function member

end

/-- Verification establishes everything that a prototype promises. -/
theorem accepted_of_verify (verified : prototype.verify = .ok ()) : prototype.Accepted :=
  (accepted_of_verifyWithin prototype verified).1

/-- A function of a prototype tree. -/
inductive Within : Prototype → Prototype → Prop
  | self {prototype : Prototype} : Within prototype prototype
  | nested {inner outer prototype : Prototype} :
      inner ∈ outer.functions → Within outer prototype → Within inner prototype

theorem Accepted.within {function : Prototype} (accepted : prototype.Accepted)
    (inside : function.Within prototype) : function.Accepted := by
  induction inside with
  | self => exact accepted
  | nested member _ ih =>
      cases ih accepted with
      | intro _ _ _ nested _ => exact nested _ member

end Prototype

/-! ## Loaded prototypes -/

namespace Routine

variable (prototype : Prototype)

theorem loadAll_eq_map (list : List Prototype) : loadAll list = list.map load := by
  induction list with
  | nil => rw [loadAll, List.map_nil]
  | cons first rest ih => rw [loadAll, ih, List.map_cons]

@[simp]
theorem code_load : (load prototype).code = prototype.code := by
  cases prototype
  rw [load]

@[simp]
theorem captures_load : (load prototype).captures = prototype.captures := by
  cases prototype
  rw [load]

@[simp]
theorem functions_load : (load prototype).functions = prototype.functions.map load := by
  cases prototype
  rw [load, loadAll_eq_map]

@[simp]
theorem size_literals_load : (load prototype).literals.size = prototype.literals.size := by
  cases prototype
  rw [load, Array.size_map]

theorem stackSize_load (accepted : prototype.Accepted) :
    (load prototype).stackSize = prototype.stackSize := by
  cases accepted with
  | intro frame =>
      cases prototype
      rw [load]
      exact Nat.max_eq_left frame

end Routine

end ScriptMachine
