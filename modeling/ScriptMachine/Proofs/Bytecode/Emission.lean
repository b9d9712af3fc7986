import Mathlib.Algebra.Group.Nat.Defs
import ScriptMachine.Bytecode.Builder
import ScriptMachine.Proofs.Bytecode.Accepted

/-!
# What building steps append

A step that appends an instruction makes room for registers, looks up a literal and appends; this is
its `Emission`.  Which registers a step writes and which it only reads is said independently of the
instruction.  `BuildStep.supplies` says that the operands of the instruction, as verification reads
them, are just what the step has been given.
-/

namespace ScriptMachine

theorem CompareOp.ofCode?_code (op : CompareOp) : ofCode? op.code = some op := by cases op <;> rfl

theorem BitOp.ofCode?_code (op : BitOp) : ofCode? op.code = some op := by cases op <;> rfl

theorem ObjectForm.ofCode?_code (form : ObjectForm) : ofCode? form.code = some form := by
  cases form <;> rfl

theorem AppendSource.ofCode?_code (source : AppendSource) : ofCode? source.code = some source := by
  cases source <;> rfl

theorem Instruction.isJump_of_jumpTarget {instruction : Instruction} {index : Nat} {target : Int}
    (leads : instruction.jumpTarget? index = some target) : instruction.op.isJump = true := by
  rw [jumpTarget?] at leads
  split at leads
  · assumption
  · exact absurd leads (by simp)

/-- What a step appends to the code: the registers that it makes room for, the literal that it
needs, and the instruction, given its index and the index of the literal. -/
structure Emission where
  /-- The registers to make room for. -/
  touched : List UInt8 := []
  /-- The literal that the instruction refers to. -/
  literal : Option Literal := none
  /-- The instruction. -/
  instruction : Nat → Int32 → Instruction

namespace BuildStep

open Builder in
/-- What the step appends to the code, if anything. -/
def emission? : BuildStep → Option Emission
  | .emit instruction => plain [] instruction
  | .load target value => pooled [target] value fun index => ⟨.load, target, index, 0, 0⟩
  | .loadInt target value => plain [target] ⟨.loadInt, target, value, 0, 0⟩
  | .loadFloat target bits => plain [target] ⟨.loadFloat, target, bits.toInt32, 0, 0⟩
  | .loadNulls target count =>
    plain [lastOfRun target count] ⟨.loadNulls, target, wideOf count, 0, 0⟩
  | .loadBool target value => plain [target] ⟨.loadBool, target, if value then 1 else 0, 0, 0⟩
  | .loadRoot target => plain [target] ⟨.loadRoot, target, 0, 0, 0⟩
  | .mov target origin => plain [target, origin] ⟨.move, target, wideOf origin, 0, 0⟩
  | .get target object key => plain [target] ⟨.get, target, wideOf object, key, 0⟩
  | .getK target object key =>
    pooled [target, object] key fun index => ⟨.getK, target, index, object, 0⟩
  | .set target object key value =>
    plain [target, value] ⟨.set, target, wideOf object, key, value⟩
  | .newSlot target object key value =>
    plain [target, value] ⟨.newSlot, target, wideOf object, key, value⟩
  | .delete target object key => plain [target] ⟨.delete, target, wideOf object, key, 0⟩
  | .arith op target left right =>
    plain [target, left, right] ⟨op, target, wideOf left, right, 0⟩
  | .bitw op target left right => plain [target] ⟨.bitw, target, wideOf left, right, op.code⟩
  | .neg target origin => plain [target] ⟨.neg, target, wideOf origin, 0, 0⟩
  | .not target origin => plain [target] ⟨.not, target, wideOf origin, 0, 0⟩
  | .cmp op target left right => plain [target] ⟨.cmp, target, wideOf left, right, op.code⟩
  | .eq target left right => plain [target] ⟨.eq, target, wideOf right, left, 0⟩
  | .eqLiteral target left value =>
    pooled [target] value fun index => ⟨.eq, target, index, left, 1⟩
  | .ne target left right => plain [target] ⟨.ne, target, wideOf right, left, 0⟩
  | .jmp => plain [] ⟨.jmp, 0, 0, 0, 0⟩
  | .jmpTo target => some
      { instruction := fun position _ => ⟨.jmp, 0, offsetTo position target, 0, 0⟩ }
  | .jz condition => plain [] ⟨.jz, condition, 0, 0, 0⟩
  | .and target origin => plain [target] ⟨.and, target, 0, origin, 0⟩
  | .or target origin => plain [target] ⟨.or, target, 0, origin, 0⟩
  | .prepCall target object key receiver =>
    plain [target, receiver] ⟨.prepCall, target, wideOf key, object, receiver⟩
  | .prepCallK target object key receiver =>
    pooled [target, receiver] key fun index => ⟨.prepCallK, target, index, object, receiver⟩
  | .call target callee arguments count =>
    plain [target, lastOfRun arguments count] ⟨.call, target, wideOf callee, arguments, count⟩
  | .tailCall target callee arguments count =>
    plain [target, lastOfRun arguments count]
      ⟨.tailCall, target, wideOf callee, arguments, count⟩
  | .ret origin => plain [] ⟨.ret, 1, wideOf origin, 0, 0⟩
  | .retNull => plain [] ⟨.ret, Instruction.noTarget, 0, 0, 0⟩
  | .closure target index => plain [target] ⟨.closure, target, index, 0, 0⟩
  | .getOuter target index => plain [target] ⟨.getOuter, target, index, 0, 0⟩
  | .setOuter target index origin =>
    plain [target, origin] ⟨.setOuter, target, index, origin, 0⟩
  | .newTable target => plain [target] ⟨.newObj, target, 0, 0, ObjectForm.table.code⟩
  | .newArray target capacity =>
    plain [target] ⟨.newObj, target, capacity, 0, ObjectForm.array.code⟩
  | .newClass target base =>
    plain [target] ⟨.newObj, target, (base.map wideOf).getD (-1), 0, ObjectForm.cls.code⟩
  | .append array origin =>
    plain [] ⟨.appendArray, array, wideOf origin, AppendSource.register.code, 0⟩
  | .appendLiteral array value =>
    pooled [] value fun index => ⟨.appendArray, array, index, AppendSource.literal.code, 0⟩
  | .appendInt array value =>
    plain [] ⟨.appendArray, array, value, AppendSource.integer.code, 0⟩
  | .delegate target table parent =>
    plain [target] ⟨.delegate, target, wideOf table, parent, 0⟩
  | .instanceOf target object cls =>
    plain [target] ⟨.instanceOf, target, wideOf cls, object, 0⟩
  | .typeOf target origin => plain [target] ⟨.typeOf, target, wideOf origin, 0, 0⟩
  | .pushTrap register => plain [register] ⟨.pushTrap, register, 0, 0, 0⟩
  | .popTrap count => plain [] ⟨.popTrap, count, 0, 0, 0⟩
  | .throw origin => plain [] ⟨.throw, origin, 0, 0, 0⟩
  | .yieldValue origin => plain [] ⟨.yield, 1, wideOf origin, 0, 0⟩
  | .yieldNull => plain [] ⟨.yield, Instruction.noTarget, 0, 0, 0⟩
  | .resume target activation => plain [target] ⟨.resume, target, wideOf activation, 0, 0⟩
  | .foreach container first =>
    plain [saturatingAdd first 2] ⟨.foreach, container, 0, first, 0⟩
  | .postForeach container => plain [] ⟨.postForeach, container, 0, 0, 0⟩
  | _ => none
where
  /-- An instruction that refers to no literal. -/
  plain (touched : List UInt8) (instruction : Instruction) : Option Emission :=
    some { touched, instruction := fun _ _ => instruction }
  /-- An instruction that refers to a literal. -/
  pooled (touched : List UInt8) (value : Literal) (instruction : Int32 → Instruction) :
      Option Emission :=
    some { touched, literal := some value, instruction := fun _ index => instruction index }

/-- The registers of a run. -/
def run (first count : UInt8) : List Nat := List.range' first.toNat count.toNat

/-- A target that may be left out. -/
def optional (target : UInt8) : List Nat :=
  if target = Instruction.noTarget then [] else [target.toNat]

/-- The registers that the step names as targets, as arguments of a call or as the state of a
loop. -/
def writes : BuildStep → List Nat
  | .load target _ | .loadInt target _ | .loadFloat target _ | .loadBool target _
  | .loadRoot target | .mov target _ | .get target _ _ | .getK target _ _ | .delete target _ _
  | .arith _ target _ _ | .bitw _ target _ _ | .neg target _ | .not target _ | .cmp _ target _ _
  | .eq target _ _ | .eqLiteral target _ _ | .ne target _ _ | .and target _ | .or target _
  | .closure target _ | .getOuter target _ | .newTable target | .newArray target _
  | .newClass target _ | .delegate target _ _ | .instanceOf target _ _ | .typeOf target _
  | .pushTrap target | .resume target _ => [target.toNat]
  | .loadNulls target count => target.toNat :: run target count
  | .set target _ _ _ | .newSlot target _ _ _ | .setOuter target _ _ => optional target
  | .prepCall target _ _ receiver | .prepCallK target _ _ receiver =>
    [target.toNat, receiver.toNat]
  | .call target _ arguments count | .tailCall target _ arguments count =>
    optional target ++ run arguments count
  | .foreach _ first => run first 3
  | _ => []

/-- The registers that the step only reads. -/
def reads : BuildStep → List Nat
  | .mov _ origin | .neg _ origin | .not _ origin | .jz origin | .and _ origin | .or _ origin
  | .getK _ origin _ | .eqLiteral _ origin _ | .prepCallK _ origin _ _ | .call _ origin _ _
  | .tailCall _ origin _ _ | .ret origin | .setOuter _ _ origin | .appendLiteral origin _
  | .appendInt origin _ | .typeOf _ origin | .throw origin | .yieldValue origin
  | .resume _ origin | .foreach origin _ | .postForeach origin => [origin.toNat]
  | .get _ object key | .delete _ object key | .prepCall _ object key _ =>
    [object.toNat, key.toNat]
  | .set _ object key value | .newSlot _ object key value =>
    [object.toNat, key.toNat, value.toNat]
  | .arith _ _ left right | .bitw _ _ left right | .cmp _ _ left right | .eq _ left right
  | .ne _ left right | .append left right | .delegate _ left right | .instanceOf _ left right =>
    [left.toNat, right.toNat]
  | .newClass _ base => base.toList.map UInt8.toNat
  | _ => []

/-- The step appends a jump that has to be patched. -/
def jumpsForward : BuildStep → Bool
  | .jmp | .jz _ | .and _ _ | .or _ _ | .pushTrap _ | .foreach _ _ | .postForeach _ => true
  | _ => false

/-- The number of arguments of a call. -/
def arguments? : BuildStep → Option UInt8
  | .call _ _ _ count | .tailCall _ _ _ count => some count
  | _ => none

/-- The nested function that the step refers to. -/
def function? : BuildStep → Option Int32
  | .closure _ index => some index
  | _ => none

/-- The captured variable that the step refers to. -/
def outer? : BuildStep → Option Int32
  | .getOuter _ index | .setOuter _ index _ => some index
  | _ => none

/-- The function that the step nests. -/
def nested? : BuildStep → Option Prototype
  | .function nested => some nested
  | _ => none

/-- The binary operation that the step applies. -/
def operator? : BuildStep → Option Opcode
  | .arith op _ _ _ => some op
  | _ => none

/-- The instruction that the step appends as it is. -/
def raw? : BuildStep → Option Instruction
  | .emit instruction => some instruction
  | _ => none

/-- The index that the step jumps back to. -/
def target? : BuildStep → Option Nat
  | .jmpTo target => some target
  | _ => none

/-- The index of the jump that the step patches. -/
def patches? : BuildStep → Option Nat
  | .patchJump index => some index
  | _ => none

/-- What a step has to be like for the prototype that is built in the end, registers and jumps
apart. -/
structure Proper (prototype : Prototype) (step : BuildStep) : Prop where
  /-- It appends no instruction as it is. -/
  prepared : step.raw? = none
  /-- A binary operation is one of the five. -/
  operator : ∀ op ∈ step.operator?, op ∈ [Opcode.add, .sub, .mul, .div, .mod]
  /-- A call has a receiver. -/
  receiver : ∀ count ∈ step.arguments?, 0 < count
  /-- The nested function exists. -/
  function : ∀ index ∈ step.function?,
    0 ≤ index.toInt ∧ index.toInt < prototype.functions.length
  /-- The captured variable exists. -/
  outer : ∀ index ∈ step.outer?, 0 ≤ index.toInt ∧ index.toInt < prototype.captures.size

end BuildStep

namespace Builder

@[simp]
theorem toInt_wideOf (register : UInt8) : (wideOf register).toInt = register.toNat := by
  rw [wideOf, Int32.toInt_ofNat_of_lt]
  exact Nat.lt_trans register.toNat_lt (by decide)

theorem zero_le_wideOf (register : UInt8) : 0 ≤ wideOf register := by
  rw [Int32.le_iff_toInt_le, toInt_wideOf]
  exact Int.natCast_nonneg _

theorem zero_lt_wideOf {register : UInt8} : 0 < wideOf register ↔ 0 < register := by
  rw [Int32.lt_iff_toInt_lt, toInt_wideOf, UInt8.lt_iff_toNat_lt]
  exact Int.natCast_pos

/-- The offset from one index to another leads there. -/
theorem toInt_offsetTo {index target : Nat} (before : index + 1 < 2 ^ 31)
    (short : target < 2 ^ 31) : (index : Int) + 1 + (offsetTo index target).toInt = target := by
  have one : (Int32.ofNat index + 1).toInt = index + 1 := by
    have sum : Int32.ofNat index + 1 = Int32.ofNat (index + 1) := by
      rw [Int32.ofNat_add]
      rfl
    rw [sum, Int32.toInt_ofNat_of_lt before]
    rfl
  rw [offsetTo, Int32.toInt_sub, Int32.toInt_ofNat_of_lt short, one, Int.bmod_eq_of_le]
  all_goals omega

end Builder

namespace BuildStep

/-! ## Registers -/

theorem mem_run {first count : UInt8} {register : Nat} :
    register ∈ run first count ↔
      first.toNat ≤ register ∧ register < first.toNat + count.toNat := by
  rw [run, List.mem_range'_1]

theorem mem_optional {target : UInt8} {register : Nat} :
    register ∈ optional target ↔ target ≠ Instruction.noTarget ∧ register = target.toNat := by
  rw [optional]
  split <;> simp_all

theorem toNat_saturatingAdd (x y : UInt8) :
    (saturatingAdd x y).toNat = min 255 (x.toNat + y.toNat) := by
  rw [saturatingAdd, UInt8.toNat_ofNat']
  exact Nat.mod_eq_of_lt (by omega)

theorem toNat_lastOfRun (first count : UInt8) :
    (lastOfRun first count).toNat = min 255 (first.toNat + (count.toNat - 1)) := by
  have least : (min count 1).toNat = min count.toNat 1 := by
    show (if count ≤ 1 then count else 1).toNat = _
    by_cases less : count.toNat ≤ 1
    · rw [if_pos (UInt8.le_iff_toNat_le.mpr less), Nat.min_eq_left less]
    · rw [if_neg (mt UInt8.le_iff_toNat_le.mp less), Nat.min_eq_right (Nat.le_of_not_le less)]
      rfl
  have below : min count 1 ≤ count := by
    rw [UInt8.le_iff_toNat_le, least]
    exact Nat.min_le_left _ _
  rw [lastOfRun, toNat_saturatingAdd, UInt8.toNat_sub_of_le _ _ below, least]
  congr 2
  omega

theorem ne_noTarget {register : UInt8} (byte : register.toNat ≤ 254) :
    register ≠ Instruction.noTarget := by
  rintro rfl
  exact absurd byte (by decide)

/-- Room for the last register of a run is room for all of them. -/
theorem room_run {first count : UInt8} (bytes : ∀ register ∈ run first count, register ≤ 254)
    {register : Nat} (member : register ∈ run first count) :
    lastOfRun first count ≠ Instruction.noTarget ∧
      register ≤ (lastOfRun first count).toNat := by
  obtain ⟨low, high⟩ := mem_run.mp member
  have last := bytes (first.toNat + (count.toNat - 1)) (mem_run.mpr ⟨by omega, by omega⟩)
  have size := toNat_lastOfRun first count
  exact ⟨ne_noTarget (by omega), by omega⟩

/-- A step makes room for the registers that it writes. -/
theorem exists_touched {step : BuildStep} (bytes : ∀ register ∈ step.writes, register ≤ 254)
    {register : Nat} (written : register ∈ step.writes) :
    ∃ emission, step.emission? = some emission ∧ ∃ touched ∈ emission.touched,
      touched ≠ Instruction.noTarget ∧ register ≤ touched.toNat := by
  have single : ∀ {target : UInt8}, target.toNat ∈ step.writes → register ∈ [target.toNat] →
      target ≠ Instruction.noTarget ∧ register ≤ target.toNat := by
    intro target named member
    exact ⟨ne_noTarget (bytes _ named), Nat.le_of_eq (List.mem_singleton.mp member)⟩
  have omitted : ∀ {target : UInt8}, register ∈ optional target →
      target ≠ Instruction.noTarget ∧ register ≤ target.toNat := by
    intro target member
    obtain ⟨names, same⟩ := mem_optional.mp member
    exact ⟨names, Nat.le_of_eq same⟩
  cases step with
  | loadNulls target count =>
      refine ⟨_, rfl, _, List.mem_cons_self, ?_⟩
      rcases List.mem_cons.mp written with same | later
      · have size := toNat_lastOfRun target count
        have byte := bytes _ List.mem_cons_self
        rcases Nat.eq_zero_or_pos count.toNat with none | some
        · exact ⟨ne_noTarget (by omega), by omega⟩
        · have first := room_run (fun other member => bytes other (List.mem_cons_of_mem _ member))
            (mem_run.mpr ⟨Nat.le_refl _, Nat.lt_add_of_pos_right some⟩)
          exact ⟨first.1, same ▸ first.2⟩
      · exact room_run (fun other member => bytes other (List.mem_cons_of_mem _ member)) later
  | set | newSlot | setOuter => exact ⟨_, rfl, _, List.mem_cons_self, omitted written⟩
  | call target callee arguments count | tailCall target callee arguments count =>
      rcases List.mem_append.mp written with early | later
      · exact ⟨_, rfl, _, List.mem_cons_self, omitted early⟩
      · exact ⟨_, rfl, _, List.mem_cons_of_mem _ List.mem_cons_self,
          room_run (fun other member => bytes other (List.mem_append_right _ member)) later⟩
  | prepCall | prepCallK =>
      rcases List.mem_cons.mp written with same | later
      · exact ⟨_, rfl, _, List.mem_cons_self,
          single List.mem_cons_self (List.mem_singleton.mpr same)⟩
      · exact ⟨_, rfl, _, List.mem_cons_of_mem _ List.mem_cons_self,
          single (List.mem_cons_of_mem _ List.mem_cons_self) later⟩
  | foreach container first =>
      refine ⟨_, rfl, _, List.mem_cons_self, ?_⟩
      exact room_run bytes written
  | _ =>
      first
      | exact absurd written List.not_mem_nil
      | exact ⟨_, rfl, _, List.mem_cons_self, single List.mem_cons_self written⟩

/-! ## Operands -/

/-- What an operand of an appended instruction comes from. -/
inductive Supplies (step : BuildStep) (index : Int32) : Operand → Prop
  /-- A register that the step writes. -/
  | write {register : Nat} (written : register ∈ step.writes) :
      Supplies step index (.register register)
  /-- A register that the step reads. -/
  | read {register : Nat} (read : register ∈ step.reads) :
      Supplies step index (.register register)
  /-- The literal that it needs. -/
  | literal {emission : Emission} (emits : step.emission? = some emission)
      (needs : emission.literal ≠ none) : Supplies step index (.literal index)
  /-- The nested function that it refers to. -/
  | function {function : Int32} (refers : step.function? = some function) :
      Supplies step index (.function function)
  /-- The captured variable that it refers to. -/
  | outer {outer : Int32} (refers : step.outer? = some outer) : Supplies step index (.outer outer)
  /-- A variant that exists. -/
  | variant : Supplies step index (.variant true)

theorem Supplies.byte {step : BuildStep} {index : Int32} {register : UInt8}
    (named : register.toNat ∈ step.writes ++ step.reads) :
    step.Supplies index (.byteRegister register) := by
  rcases List.mem_append.mp named with written | read
  · exact .write written
  · exact .read read

theorem Supplies.wide {step : BuildStep} {index : Int32} {register : UInt8}
    (read : register.toNat ∈ step.reads) :
    step.Supplies index (.register (Builder.wideOf register).toInt) := by
  rw [Builder.toInt_wideOf]
  exact .read read

/-- The last register of a run that is not empty. -/
theorem Supplies.last {step : BuildStep} {index : Int32} {first count : UInt8} (some : 0 < count)
    (written : ∀ register ∈ run first count, register ∈ step.writes) :
    step.Supplies index (.register ((first.toNat : Int) + count.toNat - 1)) := by
  have some : 0 < count.toNat := UInt8.lt_iff_toNat_lt.mp some
  have last : (first.toNat : Int) + count.toNat - 1 = (first.toNat + (count.toNat - 1) : Nat) := by
    omega
  rw [last]
  exact .write (written _ (mem_run.mpr ⟨Nat.le_add_right _ _, by omega⟩))

theorem Supplies.target {step : BuildStep} {index : Int32} {target : UInt8}
    (written : ∀ register ∈ optional target, register ∈ step.writes) :
    ∀ operand ∈ Operand.target target, step.Supplies index operand := by
  intro operand member
  rw [Operand.target] at member
  split at member
  · exact absurd member List.not_mem_nil
  · obtain rfl := List.mem_singleton.mp member
    exact .byte (List.mem_append_left _ (written _ (mem_optional.mpr ⟨‹_›, rfl⟩)))

/-- The operands of an appended instruction are what its step supplies. -/
theorem supplies {step : BuildStep} {prototype : Prototype} (proper : Proper prototype step)
    {emission : Emission} (emits : step.emission? = some emission) (index : Int32)
    (position : Nat) :
    ∀ operand ∈ (emission.instruction position index).operands, step.Supplies index operand := by
  have one : (1 : UInt8) ≠ Instruction.noTarget := by decide
  cases step with
  | emit instruction => exact absurd proper.prepared (Option.some_ne_none _)
  | arith op target left right =>
      cases emits
      have known := proper.operator _ rfl
      have operands : ∀ operand ∈ [Operand.byteRegister target,
          .register (Builder.wideOf left).toInt, Operand.byteRegister right],
          (BuildStep.arith op target left right).Supplies index operand := by
        simp only [List.forall_mem_cons, List.not_mem_nil, false_implies, implies_true, and_true]
        exact ⟨.byte (by simp [writes]), .wide (by simp [reads]), .byte (by simp [reads])⟩
      simp only [List.mem_cons, List.not_mem_nil, or_false] at known
      rcases known with rfl | rfl | rfl | rfl | rfl <;> exact operands
  | loadNulls target count =>
      cases emits
      refine List.forall_mem_cons.mpr ⟨?_, ?_⟩
      · rw [decide_eq_true (Builder.zero_le_wideOf count)]
        exact .variant
      · intro operand member
        split at member
        · simp only [Builder.toInt_wideOf, List.mem_cons, List.not_mem_nil, or_false] at member
          rcases member with rfl | rfl
          · exact .byte (by simp [writes])
          · exact .last (Builder.zero_lt_wideOf.mp ‹_›) fun _ => List.mem_cons_of_mem _
        · exact absurd member List.not_mem_nil
  | newClass target base =>
      cases emits
      refine List.forall_mem_cons.mpr ⟨.byte (by simp [writes]), ?_⟩
      intro operand member
      cases base with
      | none => exact absurd member List.not_mem_nil
      | some base =>
          obtain rfl : operand = .register (Builder.wideOf base).toInt := by
            simpa [ObjectForm.ofCode?_code, Builder.zero_le_wideOf base] using member
          exact .wide (by simp [reads])
  | set | newSlot =>
      cases emits
      simp only [Instruction.operands, List.forall_mem_append, List.forall_mem_cons,
        List.not_mem_nil, false_implies, implies_true, and_true]
      exact ⟨.target fun _ => id, .wide (by simp [reads]), .byte (by simp [reads]),
        .byte (by simp [reads])⟩
  | setOuter =>
      cases emits
      simp only [Instruction.operands, List.forall_mem_append, List.forall_mem_cons,
        List.not_mem_nil, false_implies, implies_true, and_true]
      exact ⟨.target fun _ => id, .byte (by simp [reads]), .outer rfl⟩
  | call target callee arguments count | tailCall target callee arguments count =>
      cases emits
      have some := proper.receiver count rfl
      have first : arguments.toNat ∈ run arguments count := by
        refine mem_run.mpr ⟨Nat.le_refl _, Nat.lt_add_of_pos_right ?_⟩
        exact UInt8.lt_iff_toNat_lt.mp some
      simp only [Instruction.operands, List.forall_mem_append, List.forall_mem_cons,
        List.not_mem_nil, false_implies, implies_true, and_true]
      refine ⟨.target fun _ => List.mem_append_left _, .wide (by simp [reads]), ?_,
        .byte (List.mem_append_left _ (List.mem_append_right _ first)),
        .last some fun _ => List.mem_append_right _⟩
      rw [decide_eq_true some]
      exact .variant
  | foreach container first =>
      cases emits
      refine List.forall_mem_cons.mpr ⟨.byte (by simp [reads]), ?_⟩
      refine List.forall_mem_singleton.mpr ?_
      have last : (foreach container first).Supplies index
          (.register ((first.toNat : Int) + (3 : UInt8).toNat - 1)) :=
        .last (by decide) fun _ => id
      have three : ((3 : UInt8).toNat : Int) = 3 := rfl
      rwa [three, Int.add_sub_assoc] at last
  | _ =>
      cases emits
      all_goals
        simp only [Instruction.operands, ObjectForm.ofCode?_code, AppendSource.ofCode?_code,
          BitOp.ofCode?_code, CompareOp.ofCode?_code, if_neg one, if_true, List.forall_mem_cons,
          List.not_mem_nil, Option.isSome_some, false_implies, implies_true, and_true]
      all_goals and_intros
      all_goals
        first
        | exact .byte (by simp [writes, reads])
        | exact .wide (by simp [reads])
        | exact .literal rfl (Option.some_ne_none _)
        | exact .function rfl
        | exact .outer rfl
        | exact .variant

/-- What a step supplies is in its range. -/
theorem Supplies.admits {step : BuildStep} {index : Int32} {operand : Operand}
    {prototype : Prototype} (supplies : step.Supplies index operand)
    (proper : Proper prototype step)
    (registers : ∀ register ∈ step.writes ++ step.reads, register < prototype.stackSize)
    (literal : ∀ emission, step.emission? = some emission → emission.literal ≠ none →
      prototype.Admits (.literal index)) : prototype.Admits operand := by
  cases supplies with
  | write written =>
      exact ⟨Int.natCast_nonneg _, Int.ofNat_lt.mpr (registers _ (List.mem_append_left _ written))⟩
  | read read =>
      exact ⟨Int.natCast_nonneg _, Int.ofNat_lt.mpr (registers _ (List.mem_append_right _ read))⟩
  | literal emits needs => exact literal _ emits needs
  | function refers => exact proper.function _ refers
  | outer refers => exact proper.outer _ refers
  | variant => rfl

/-- A step appends a jump if it jumps forward or back. -/
theorem isJump_emission {step : BuildStep} {prototype : Prototype} (proper : Proper prototype step)
    {emission : Emission} (emits : step.emission? = some emission) (index : Int32)
    (position : Nat) (jumps : (emission.instruction position index).op.isJump = true) :
    step.jumpsForward = true ∨ ∃ target, step.target? = some target ∧
      emission.instruction position index =
        ⟨.jmp, 0, Builder.offsetTo position target, 0, 0⟩ := by
  cases step with
  | emit instruction => exact absurd proper.prepared (Option.some_ne_none _)
  | arith op target left right =>
      cases emits
      have known := proper.operator _ rfl
      simp only [List.mem_cons, List.not_mem_nil, or_false] at known
      rcases known with rfl | rfl | rfl | rfl | rfl <;> exact absurd jumps Bool.false_ne_true
  | jmpTo target =>
      cases emits
      exact .inr ⟨target, rfl, rfl⟩
  | jmp | jz | and | or | pushTrap | foreach | postForeach => exact .inl rfl
  | _ => cases emits <;> exact absurd jumps Bool.false_ne_true

end BuildStep

end ScriptMachine
