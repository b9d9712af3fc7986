import Mathlib.Data.List.Nodup
import ScriptMachine.Proofs.Bytecode.Emission

/-!
# Prototypes that have been built

The builder and the verifier know the operands of an instruction independently of each other.
`Builder.Stands` says what holds of the code between two steps: operands are in the ranges of what
is built in the end, and a jump that is not yet in its range is still to be patched.  `verify_run`
concludes that whatever is built of well-formed steps is verified.
-/

namespace ScriptMachine

namespace Builder

/-- The prototype after a step. -/
def next (prototype : Prototype) (step : BuildStep) : Prototype := (perform step prototype).2

/-- What the steps build of an empty function. -/
def built (name : String) (steps : List BuildStep) : Prototype := steps.foldl next { name }

theorem snd_performAll (steps : List BuildStep) (prototype : Prototype) :
    (performAll steps prototype).2 = steps.foldl next prototype := by
  induction steps generalizing prototype with
  | nil => rfl
  | cons step rest ih => exact ih _

theorem fst_run (name : String) (steps : List BuildStep) :
    (run name steps).1 = finish (built name steps) :=
  congrArg finish (snd_performAll steps { name })

/-- The prototype with room for a register. -/
def roomFor (prototype : Prototype) (register : UInt8) : Prototype := (touch register prototype).2

/-- The index of a literal and the prototype that has it. -/
def pool : Option Literal → Prototype → Int32 × Prototype
  | some value, prototype => addLiteral value prototype
  | none, prototype => (0, prototype)

/-- The prototype with what a step appends. -/
def emitted (prototype : Prototype) (emission : Emission) : Prototype :=
  let (index, pooled) := pool emission.literal (emission.touched.foldl roomFor prototype)
  { pooled with code := pooled.code.push (emission.instruction pooled.code.size index) }

/-- A step does what its emission says. -/
theorem next_eq_emitted {step : BuildStep} {emission : Emission}
    (emits : step.emission? = some emission) (prototype : Prototype) :
    next prototype step = emitted prototype emission := by
  cases step <;> cases emits <;> rfl

theorem roomFor_eq (prototype : Prototype) (register : UInt8) :
    roomFor prototype register =
      if register = Instruction.noTarget then prototype
      else { prototype with stackSize := max prototype.stackSize (register.toNat + 1) } := by
  simp only [roomFor, touch]
  split <;> rfl

/-- A literal is found in the pool or added to it. -/
theorem addLiteral_cases (value : Literal) (prototype : Prototype) :
    (∃ index < prototype.literals.size,
      addLiteral value prototype = (Int32.ofNat index, prototype)) ∨
    (value ∉ prototype.literals.toList ∧
      addLiteral value prototype = (Int32.ofNat prototype.literals.size,
        { prototype with literals := prototype.literals.push value })) := by
  cases found : prototype.literals.toList.idxOf? value with
  | none =>
      have added : addLiteral value prototype =
          (Int32.ofNat ((prototype.literals.push value).size - 1),
            { prototype with literals := prototype.literals.push value }) := by
        simp only [addLiteral, bind, StateT.bind, get, getThe, MonadStateOf.get, StateT.get, pure]
        rw [found]
        rfl
      refine .inr ⟨List.idxOf?_eq_none_iff.mp found, ?_⟩
      rw [added, Array.size_push, Nat.add_sub_cancel]
  | some index =>
      have there : addLiteral value prototype = (Int32.ofNat index, prototype) := by
        simp only [addLiteral, bind, StateT.bind, get, getThe, MonadStateOf.get, StateT.get, pure]
        rw [found]
        rfl
      have bound := (List.findIdx?_eq_some_iff_getElem.mp found).1
      exact .inl ⟨index, by simpa using bound, there⟩

/-- Marking a line changes the line table only. -/
theorem exists_markLine (number : UInt32) (prototype : Prototype) :
    ∃ lines, (markLine number prototype).2 = { prototype with lines } := by
  simp only [markLine, modify, modifyGet, MonadStateOf.modifyGet, StateT.modifyGet]
  rcases prototype.lines.back? with _ | last
  · exact ⟨_, rfl⟩
  · by_cases same : last.index = UInt32.ofNat prototype.code.size
    · exact ⟨_, if_pos same⟩
    · exact ⟨_, if_neg same⟩

/-! ## What grows while a function is built -/

/-- Nothing that operands refer to gets less. -/
structure Grows (before after : Prototype) : Prop where
  /-- The registers. -/
  stackSize : before.stackSize ≤ after.stackSize
  /-- The literals. -/
  literals : before.literals.size ≤ after.literals.size
  /-- The nested functions. -/
  functions : before.functions.length ≤ after.functions.length
  /-- The captured variables. -/
  captures : before.captures.size ≤ after.captures.size
  /-- The instructions. -/
  code : before.code.size ≤ after.code.size

namespace Grows

variable {first second third : Prototype}

theorem refl (prototype : Prototype) : Grows prototype prototype :=
  ⟨Nat.le_refl _, Nat.le_refl _, Nat.le_refl _, Nat.le_refl _, Nat.le_refl _⟩

theorem trans (early : Grows first second) (late : Grows second third) : Grows first third :=
  ⟨Nat.le_trans early.stackSize late.stackSize, Nat.le_trans early.literals late.literals,
    Nat.le_trans early.functions late.functions, Nat.le_trans early.captures late.captures,
    Nat.le_trans early.code late.code⟩

theorem inert (stackSize : second.stackSize = first.stackSize)
    (literals : second.literals = first.literals) (functions : second.functions = first.functions)
    (captures : second.captures = first.captures) (code : second.code.size = first.code.size) :
    Grows first second :=
  ⟨Nat.le_of_eq stackSize.symm, Nat.le_of_eq (congrArg Array.size literals.symm),
    Nat.le_of_eq (congrArg List.length functions.symm),
    Nat.le_of_eq (congrArg Array.size captures.symm), Nat.le_of_eq code.symm⟩

theorem markLine (number : UInt32) (prototype : Prototype) :
    Grows prototype (markLine number prototype).2 := by
  obtain ⟨lines, marked⟩ := exists_markLine number prototype
  rw [marked]
  exact inert rfl rfl rfl rfl rfl

theorem roomFor (prototype : Prototype) (register : UInt8) :
    Grows prototype (roomFor prototype register) := by
  rw [roomFor_eq]
  split
  · exact .refl prototype
  · exact ⟨Nat.le_max_left _ _, Nat.le_refl _, Nat.le_refl _, Nat.le_refl _, Nat.le_refl _⟩

theorem parameter (name : String) (prototype : Prototype) :
    Grows prototype (addParameter name prototype).2 := by
  have roomy := roomFor { prototype with parameters := prototype.parameters.push name }
    (UInt8.ofNat ((prototype.parameters.push name).size - 1))
  exact ⟨roomy.stackSize, roomy.literals, roomy.functions, roomy.captures, roomy.code⟩

theorem foldl_roomFor (registers : List UInt8) (prototype : Prototype) :
    Grows prototype (registers.foldl Builder.roomFor prototype) := by
  induction registers generalizing prototype with
  | nil => exact .refl prototype
  | cons register rest ih => exact (roomFor prototype register).trans (ih _)

theorem pool (value : Option Literal) (prototype : Prototype) :
    Grows prototype (pool value prototype).2 := by
  cases value with
  | none => exact .refl prototype
  | some value =>
      rcases addLiteral_cases value prototype with ⟨_, _, same⟩ | ⟨_, same⟩
      · rw [Builder.pool, same]
        exact .refl prototype
      · rw [Builder.pool, same]
        refine ⟨Nat.le_refl _, ?_, Nat.le_refl _, Nat.le_refl _, Nat.le_refl _⟩
        rw [Array.size_push]
        exact Nat.le_succ _

theorem emitted (prototype : Prototype) (emission : Emission) :
    Grows prototype (emitted prototype emission) := by
  have roomy := foldl_roomFor emission.touched prototype
  have pooled := pool emission.literal (emission.touched.foldl Builder.roomFor prototype)
  have same := roomy.trans pooled
  refine ⟨same.stackSize, same.literals, same.functions, same.captures, ?_⟩
  show _ ≤ (Array.push _ _).size
  rw [Array.size_push]
  exact Nat.le_succ_of_le same.code

theorem next (prototype : Prototype) (step : BuildStep) :
    Grows prototype (next prototype step) := by
  cases emits : step.emission? with
  | some emission =>
      rw [next_eq_emitted emits]
      exact emitted prototype emission
  | none =>
      cases step with
      | param name => exact parameter name prototype
      | varparams =>
          have added := parameter "vargv" { prototype with isVariadic := true }
          exact ⟨added.stackSize, added.literals, added.functions, added.captures, added.code⟩
      | stackSize size =>
          exact ⟨Nat.le_max_left _ _, Nat.le_refl _, Nat.le_refl _, Nat.le_refl _, Nat.le_refl _⟩
      | literal value => exact pool (some value) prototype
      | function nested =>
          refine ⟨Nat.le_refl _, Nat.le_refl _, ?_, Nat.le_refl _, Nat.le_refl _⟩
          show _ ≤ (prototype.functions ++ [nested]).length
          rw [List.length_append]
          exact Nat.le_add_right _ _
      | outerLocal name _ | outerOuter name _ | outerSymbol name =>
          refine ⟨Nat.le_refl _, Nat.le_refl _, Nat.le_refl _, ?_, Nat.le_refl _⟩
          show _ ≤ (prototype.captures.push ⟨name, _⟩).size
          rw [Array.size_push]
          exact Nat.le_succ _
      | line number => exact markLine number prototype
      | source | generator | pos => exact inert rfl rfl rfl rfl rfl
      | patchJump index => exact inert rfl rfl rfl rfl Array.size_modify
      | _ => cases emits

end Grows

theorem stackSize_roomFor {register : UInt8} (names : register ≠ Instruction.noTarget)
    (prototype : Prototype) : register.toNat < (roomFor prototype register).stackSize := by
  rw [roomFor_eq, if_neg names]
  exact Nat.lt_of_lt_of_le (Nat.lt_succ_self _) (Nat.le_max_right _ _)

theorem stackSize_emitted {emission : Emission} {register : UInt8}
    (touches : register ∈ emission.touched) (names : register ≠ Instruction.noTarget)
    (prototype : Prototype) : register.toNat < (emitted prototype emission).stackSize := by
  have roomy : ∀ (registers : List UInt8) (prototype : Prototype), register ∈ registers →
      register.toNat < (registers.foldl roomFor prototype).stackSize := by
    intro registers
    induction registers with
    | nil => exact fun _ touches => absurd touches (List.not_mem_nil)
    | cons head rest ih =>
        intro prototype touches
        rcases List.mem_cons.mp touches with rfl | later
        · exact Nat.lt_of_lt_of_le (stackSize_roomFor names prototype)
            (Grows.foldl_roomFor rest _).stackSize
        · exact ih _ later
  exact Nat.lt_of_lt_of_le (roomy _ prototype touches) (Grows.pool emission.literal _).stackSize

/-! ## The code that is built -/

/-- Neither instructions nor nested functions change. -/
structure Keeps (before after : Prototype) : Prop where
  /-- The instructions. -/
  code : after.code = before.code
  /-- The nested functions. -/
  functions : after.functions = before.functions

namespace Keeps

variable {first second third : Prototype}

theorem trans (early : Keeps first second) (late : Keeps second third) : Keeps first third :=
  ⟨late.code.trans early.code, late.functions.trans early.functions⟩

theorem roomFor (prototype : Prototype) (register : UInt8) :
    Keeps prototype (roomFor prototype register) := by
  rw [roomFor_eq]
  split <;> exact ⟨rfl, rfl⟩

theorem foldl_roomFor (registers : List UInt8) (prototype : Prototype) :
    Keeps prototype (registers.foldl Builder.roomFor prototype) := by
  induction registers generalizing prototype with
  | nil => exact ⟨rfl, rfl⟩
  | cons register rest ih => exact (roomFor prototype register).trans (ih _)

theorem pool (value : Option Literal) (prototype : Prototype) :
    Keeps prototype (pool value prototype).2 := by
  cases value with
  | none => exact ⟨rfl, rfl⟩
  | some value =>
      rcases addLiteral_cases value prototype with ⟨_, _, same⟩ | ⟨_, same⟩ <;>
        rw [Builder.pool, same] <;> exact ⟨rfl, rfl⟩

/-- Looking up what an instruction needs. -/
theorem pooled (emission : Emission) (prototype : Prototype) :
    Keeps prototype
      (Builder.pool emission.literal (emission.touched.foldl Builder.roomFor prototype)).2 :=
  (foldl_roomFor emission.touched prototype).trans (pool emission.literal _)

theorem parameter (name : String) (prototype : Prototype) :
    Keeps prototype (addParameter name prototype).2 := by
  have roomy := roomFor { prototype with parameters := prototype.parameters.push name }
    (UInt8.ofNat ((prototype.parameters.push name).size - 1))
  exact ⟨roomy.code, roomy.functions⟩

theorem markLine (number : UInt32) (prototype : Prototype) :
    Keeps prototype (markLine number prototype).2 := by
  obtain ⟨lines, marked⟩ := exists_markLine number prototype
  rw [marked]
  exact ⟨rfl, rfl⟩

end Keeps

/-- The literal of an instruction stands in the pool. -/
theorem admits_pool {emission : Emission} {prototype final : Prototype}
    (grows : Grows (emitted prototype emission) final) (short : final.literals.size < 2 ^ 31)
    (needs : emission.literal ≠ none) :
    final.Admits
      (.literal (pool emission.literal (emission.touched.foldl roomFor prototype)).1) := by
  obtain ⟨value, given⟩ := Option.ne_none_iff_exists'.mp needs
  have room : (addLiteral value (emission.touched.foldl roomFor prototype)).2.literals.size ≤
      final.literals.size := by
    have less := grows.literals
    simp only [emitted, given] at less
    exact less
  have admits : ∀ index : Nat, index < final.literals.size →
      final.Admits (.literal (Int32.ofNat index)) := by
    intro index below
    rw [Prototype.Admits, Int32.toInt_ofNat_of_lt (Nat.lt_trans below short)]
    exact ⟨Int.natCast_nonneg _, Int.ofNat_lt.mpr below⟩
  rw [given]
  rcases addLiteral_cases value (emission.touched.foldl roomFor prototype) with
    ⟨index, below, same⟩ | ⟨_, same⟩
  · rw [same] at room
    rw [pool, same]
    exact admits index (Nat.lt_of_lt_of_le below room)
  · rw [same] at room
    rw [pool, same]
    refine admits _ (Nat.lt_of_lt_of_le ?_ room)
    show _ < (Array.push _ value).size
    rw [Array.size_push]
    exact Nat.lt_succ_self _

theorem code_emitted (prototype : Prototype) (emission : Emission) :
    (emitted prototype emission).code =
      prototype.code.push (emission.instruction prototype.code.size
        (pool emission.literal (emission.touched.foldl roomFor prototype)).1) := by
  simp only [emitted, (Keeps.pooled emission prototype).code]

/-- A step that appends nothing and patches nothing leaves the code alone. -/
theorem code_next {step : BuildStep} (emits : step.emission? = none)
    (patches : step.patches? = none) (prototype : Prototype) :
    (next prototype step).code = prototype.code := by
  cases step with
  | param name => exact (Keeps.parameter name prototype).code
  | varparams => exact (Keeps.parameter "vargv" { prototype with isVariadic := true }).code
  | literal value => exact (Keeps.pool (some value) prototype).code
  | line number => exact (Keeps.markLine number prototype).code
  | patchJump index => exact absurd patches (Option.some_ne_none _)
  | source | stackSize | generator | function | outerLocal | outerOuter | outerSymbol | pos => rfl
  | _ => cases emits

/-- A step adds the function that it nests. -/
theorem functions_next (prototype : Prototype) (step : BuildStep) :
    (next prototype step).functions = prototype.functions ++ step.nested?.toList := by
  have same : step.nested? = none → (next prototype step).functions = prototype.functions →
      (next prototype step).functions = prototype.functions ++ step.nested?.toList := by
    intro none kept
    rw [none, kept, Option.toList_none, List.append_nil]
  cases emits : step.emission? with
  | some emission =>
      refine same (by cases step <;> cases emits <;> rfl) ?_
      rw [next_eq_emitted emits]
      exact (Keeps.pooled emission prototype).functions
  | none =>
      cases step with
      | function nested => rfl
      | param name => exact same rfl (Keeps.parameter name prototype).functions
      | varparams =>
          exact same rfl (Keeps.parameter "vargv" { prototype with isVariadic := true }).functions
      | literal value => exact same rfl (Keeps.pool (some value) prototype).functions
      | line number => exact same rfl (Keeps.markLine number prototype).functions
      | source | stackSize | generator | outerLocal | outerOuter | outerSymbol | pos | patchJump =>
          exact same rfl rfl
      | _ => cases emits

/-- A patch lets the jump lead to the next instruction and leaves all other instructions alone. -/
theorem code_next_patch {step : BuildStep} {index : Nat} (patches : step.patches? = some index)
    (prototype : Prototype) :
    (next prototype step).code = prototype.code.modify index fun instruction =>
      { instruction with wide := offsetTo index prototype.code.size } := by
  cases step with
  | patchJump other =>
      cases patches
      rfl
  | _ => cases patches

/-- The operands of a jump do not depend on where it leads. -/
theorem operands_patched {instruction : Instruction} (jumps : instruction.op.isJump = true)
    (wide : Int32) : { instruction with wide }.operands = instruction.operands := by
  obtain ⟨op, first, _, second, third⟩ := instruction
  cases op <;> first | rfl | exact absurd jumps Bool.false_ne_true

/-- What holds of the code while some steps are still to come: operands are in their ranges, and
so are jumps that are not patched by these steps. -/
structure Stands (final : Prototype) (rest : List BuildStep) (prototype : Prototype) : Prop where
  /-- The operands. -/
  operands : ∀ instruction ∈ prototype.code, ∀ operand ∈ instruction.operands,
    final.Admits operand
  /-- The jumps. -/
  jumps : ∀ (index : Nat) instruction, prototype.code[index]? = some instruction →
    ∀ target, instruction.jumpTarget? index = some target →
      (0 ≤ target ∧ target < final.code.size) ∨
        ∃ later ∈ rest, later.patches? = some index

namespace Stands

variable {final prototype : Prototype} {step : BuildStep} {rest : List BuildStep}

/-- A step that neither appends nor patches. -/
theorem inert (stands : Stands final (step :: rest) prototype) (emits : step.emission? = none)
    (patches : step.patches? = none) : Stands final rest (next prototype step) := by
  have same := code_next emits patches prototype
  refine ⟨same ▸ stands.operands, fun index instruction found target leads => ?_⟩
  rw [same] at found
  rcases stands.jumps index instruction found target leads with lands | ⟨later, member, patched⟩
  · exact .inl lands
  · rcases List.mem_cons.mp member with rfl | member
    · exact absurd patched (by simp [patches])
    · exact .inr ⟨later, member, patched⟩

/-- A step that appends an instruction. -/
theorem emit (stands : Stands final (step :: rest) prototype) {emission : Emission}
    (emits : step.emission? = some emission)
    (admits : ∀ operand ∈ (emission.instruction prototype.code.size
      (pool emission.literal (emission.touched.foldl roomFor prototype)).1).operands,
        final.Admits operand)
    (lands : ∀ target, (emission.instruction prototype.code.size
        (pool emission.literal (emission.touched.foldl roomFor prototype)).1).jumpTarget?
          prototype.code.size = some target →
      (0 ≤ target ∧ target < final.code.size) ∨
        ∃ later ∈ rest, later.patches? = some prototype.code.size) :
    Stands final rest (next prototype step) := by
  have patches : step.patches? = none := by
    cases step <;> first | rfl | cases emits
  have same : (next prototype step).code = _ :=
    (congrArg Prototype.code (next_eq_emitted emits prototype)).trans
      (code_emitted prototype emission)
  constructor
  · intro instruction member
    rw [same] at member
    rcases Array.mem_push.mp member with early | rfl
    · exact stands.operands instruction early
    · exact admits
  · intro index instruction found target leads
    rw [same, Array.getElem?_push] at found
    split at found
    · obtain rfl : _ = instruction := Option.some.inj found
      subst index
      exact lands target leads
    · rcases stands.jumps index instruction found target leads with lands | ⟨later, member, patched⟩
      · exact .inl lands
      · rcases List.mem_cons.mp member with rfl | member
        · exact absurd patched (by simp [patches])
        · exact .inr ⟨later, member, patched⟩

/-- A step that patches a jump. -/
theorem patch (stands : Stands final (step :: rest) prototype) {index : Nat}
    (patches : step.patches? = some index) {instruction : Instruction}
    (found : prototype.code[index]? = some instruction) (jumps : instruction.op.isJump = true)
    (lands : prototype.code.size < final.code.size) (short : final.code.size < 2 ^ 31) :
    Stands final rest (next prototype step) := by
  have same := code_next_patch patches prototype
  have inside : index < prototype.code.size := (Array.getElem?_eq_some_iff.mp found).1
  constructor
  · intro other member
    rw [same] at member
    obtain ⟨place, held⟩ := Array.getElem?_of_mem member
    rw [Array.getElem?_modify] at held
    split at held
    · subst place
      rw [found] at held
      obtain rfl := Option.some.inj held
      rw [operands_patched jumps]
      exact stands.operands instruction (Array.mem_of_getElem? found)
    · exact stands.operands other (Array.mem_of_getElem? held)
  · intro place other held target leads
    rw [same, Array.getElem?_modify] at held
    split at held
    · subst place
      rw [found] at held
      obtain rfl := Option.some.inj held
      have leads : some ((index : Int) + 1 + (offsetTo index prototype.code.size).toInt) =
          some target := (if_pos jumps).symm.trans leads
      rw [toInt_offsetTo (by omega) (by omega)] at leads
      obtain rfl := Option.some.inj leads
      exact .inl ⟨Int.natCast_nonneg _, Int.ofNat_lt.mpr lands⟩
    · rename_i apart
      rcases stands.jumps place other held target leads with lands | ⟨later, member, patched⟩
      · exact .inl lands
      · rcases List.mem_cons.mp member with rfl | member
        · exact absurd (Option.some.inj (patches.symm.trans patched)) apart
        · exact .inr ⟨later, member, patched⟩

end Stands

/-! ## Well-formed steps -/

/-- Steps that a function can be built of.  An index is that of the next instruction at some point
of the building, as the builder reports it. -/
structure WellFormed (name : String) (steps : List BuildStep) : Prop where
  /-- Every step is proper for what is built in the end. -/
  proper : ∀ step ∈ steps, step.Proper (run name steps).1
  /-- All registers can be named by a byte that does not stand for no target. -/
  bytes : ∀ step ∈ steps, ∀ register ∈ step.writes ++ step.reads, register ≤ 254
  /-- What is read is the receiver, a parameter, or written by some step. -/
  known : ∀ step ∈ steps, ∀ register ∈ step.reads, register = 0 ∨
    register < (run name steps).1.parameterCount ∨ ∃ other ∈ steps, register ∈ other.writes
  /-- There are not too many literals. -/
  literals : (run name steps).1.literals.size < 2 ^ 31
  /-- There are not too many instructions. -/
  short : (run name steps).1.code.size < 2 ^ 31
  /-- Every forward jump is patched later. -/
  patched : ∀ front step rest, steps = front ++ step :: rest → step.jumpsForward = true →
    ∃ later ∈ rest, later.patches? = some (run name front).1.code.size
  /-- Every other jump leads to an instruction, unless it is patched later. -/
  returns : ∀ front step rest, steps = front ++ step :: rest → ∀ target ∈ step.target?,
    target < (run name steps).1.code.size ∨
      ∃ later ∈ rest, later.patches? = some (run name front).1.code.size
  /-- What is patched is a jump, and it then leads to an instruction. -/
  patches : ∀ front step rest, steps = front ++ step :: rest → ∀ index ∈ step.patches?,
    ((run name front).1.code[index]?.any fun instruction => instruction.op.isJump) = true ∧
      (run name front).1.code.size < (run name steps).1.code.size
  /-- Nested functions are verified, and what they capture exists. -/
  nested : ∀ step ∈ steps, ∀ function ∈ step.nested?, function.verify = .ok () ∧
    ∀ capture ∈ function.captures.toList,
      (∀ register, capture.source = .register register →
        register.toNat < (run name steps).1.stackSize) ∧
      (∀ index, capture.source = .outer index →
        index.toNat < (run name steps).1.captures.size)

variable {name : String} {steps front rest : List BuildStep} {step : BuildStep}

theorem built_concat : built name (front ++ [step]) = next (built name front) step := by
  rw [built, List.foldl_append]
  rfl

theorem code_run : (run name steps).1.code = (built name steps).code := by
  rw [fst_run]
  rfl

theorem grows_foldl (steps : List BuildStep) (prototype : Prototype) :
    Grows prototype (steps.foldl next prototype) := by
  induction steps generalizing prototype with
  | nil => exact .refl prototype
  | cons step rest ih => exact (Grows.next prototype step).trans (ih _)

/-- What is built in the end has everything that has been there before. -/
theorem grows_run (name : String) (front rest : List BuildStep) :
    Grows (built name front) (run name (front ++ rest)).1 := by
  have later : Grows (built name front) (built name (front ++ rest)) := by
    rw [built, built, List.foldl_append]
    exact grows_foldl rest _
  rw [fst_run]
  exact ⟨Nat.le_trans later.stackSize (Nat.le_max_left _ _), later.literals, later.functions,
    later.captures, later.code⟩

theorem functions_foldl (steps : List BuildStep) (prototype : Prototype) :
    (steps.foldl next prototype).functions =
      prototype.functions ++ steps.filterMap BuildStep.nested? := by
  induction steps generalizing prototype with
  | nil => rw [List.foldl_nil, List.filterMap_nil, List.append_nil]
  | cons step rest ih =>
      rw [List.foldl_cons, ih, functions_next, List.append_assoc, List.filterMap_cons]
      cases step.nested? <;> rfl

namespace WellFormed

/-- The registers of all steps belong to the frame. -/
theorem registers (well : WellFormed name steps) (member : step ∈ steps) :
    ∀ register ∈ step.writes ++ step.reads, register < (run name steps).1.stackSize := by
  have written : ∀ other ∈ steps, ∀ register ∈ other.writes,
      register < (run name steps).1.stackSize := by
    intro other member register written
    obtain ⟨emission, emits, touched, touches, names, below⟩ := BuildStep.exists_touched
      (fun register written => well.bytes other member register
        (List.mem_append_left _ written)) written
    obtain ⟨front, rest, rfl⟩ := List.append_of_mem member
    have grows := grows_run name (front ++ [other]) rest
    rw [built_concat, next_eq_emitted emits, List.append_assoc] at grows
    exact Nat.lt_of_le_of_lt below
      (Nat.lt_of_lt_of_le (stackSize_emitted touches names _) grows.stackSize)
  intro register named
  rcases List.mem_append.mp named with write | read
  · exact written step member register write
  · rcases well.known step member register read with rfl | parameter | ⟨other, member, write⟩
    · exact (grows_run name [] steps).stackSize
    · rw [fst_run] at parameter ⊢
      exact Nat.lt_of_lt_of_le parameter (Nat.le_max_right _ _)
    · exact written other member register write

theorem stands_next (well : WellFormed name steps) (split : steps = front ++ step :: rest)
    (stands : Stands (run name steps).1 (step :: rest) (built name front)) :
    Stands (run name steps).1 rest (built name (front ++ [step])) := by
  have member : step ∈ steps := split ▸ List.mem_append_right _ List.mem_cons_self
  have proper := well.proper step member
  have grows : Grows (next (built name front) step) (run name steps).1 := by
    have grows := grows_run name (front ++ [step]) rest
    rwa [built_concat, List.append_assoc, List.singleton_append, ← split] at grows
  have index : (run name front).1.code.size = (built name front).code.size :=
    congrArg Array.size code_run
  rw [built_concat]
  cases emits : step.emission? with
  | some emission =>
      rw [next_eq_emitted emits] at grows
      refine stands.emit emits (fun operand used => ?_) fun target leads => ?_
      · refine (BuildStep.supplies proper emits _ _ operand used).admits proper
          (well.registers member) fun other same needs => ?_
        obtain rfl : emission = other := Option.some.inj (emits.symm.trans same)
        exact admits_pool grows well.literals needs
      · have jumps := Instruction.isJump_of_jumpTarget leads
        rcases BuildStep.isJump_emission proper emits _ _ jumps with
          forward | ⟨place, returns, same⟩
        · exact .inr (index ▸ well.patched front step rest split forward)
        · rcases well.returns front step rest split place returns with lands | patched
          · have size := grows.code
            rw [code_emitted, Array.size_push] at size
            have short := well.short
            rw [same] at leads
            have leads : some (((built name front).code.size : Int) + 1 +
              (offsetTo (built name front).code.size place).toInt) = some target := leads
            rw [toInt_offsetTo (by omega) (by omega)] at leads
            obtain rfl := Option.some.inj leads
            exact .inl ⟨Int.natCast_nonneg _, Int.ofNat_lt.mpr lands⟩
          · exact .inr (index ▸ patched)
  | none =>
      cases patches : step.patches? with
      | none => exact stands.inert emits patches
      | some place =>
          obtain ⟨jump, lands⟩ := well.patches front step rest split place patches
          rw [code_run] at jump
          cases found : (built name front).code[place]? with
          | none =>
              rw [found] at jump
              exact absurd jump Bool.false_ne_true
          | some instruction =>
              have jumps : instruction.op.isJump = true := by rwa [found] at jump
              exact stands.patch patches found jumps (index ▸ lands) well.short

/-- When all steps are done, all operands and jumps are in their ranges. -/
theorem stands (well : WellFormed name steps) :
    Stands (run name steps).1 [] (built name steps) := by
  have onward : ∀ rest front, steps = front ++ rest →
      Stands (run name steps).1 rest (built name front) →
      Stands (run name steps).1 [] (built name steps) := by
    intro rest
    induction rest with
    | nil =>
        intro front split stands
        rw [List.append_nil] at split
        rwa [← split] at stands
    | cons step rest ih =>
        intro front split stands
        refine ih (front ++ [step]) ?_ (well.stands_next split stands)
        rw [split, List.append_assoc, List.singleton_append]
  refine onward steps [] rfl ⟨fun instruction member => ?_, fun index instruction found => ?_⟩
  · exact absurd member (Array.not_mem_empty instruction)
  · exact absurd found (by simp [built])

end WellFormed

end Builder

/-! ## What verification accepts -/

namespace Prototype

variable {prototype : Prototype}

theorem checkOperand_of_admits {operand : Operand} (admits : prototype.Admits operand)
    (index : Nat) (op : Opcode) : prototype.checkOperand index op operand = .ok () := by
  cases operand with
  | variant known => exact if_pos admits
  | _ => exact if_pos (inRange_iff.mpr admits)

theorem forM_ok {ε α : Type} {check : α → Except ε Unit} {list : List α}
    (passes : ∀ item ∈ list, check item = .ok ()) : list.forM check = .ok () := by
  induction list with
  | nil => rfl
  | cons first rest ih =>
      show (check first >>= fun _ => rest.forM check) = _
      rw [passes first List.mem_cons_self]
      exact ih fun item member => passes item (List.mem_cons_of_mem _ member)

/-- An instruction passes if its operands and its jump are in their ranges. -/
theorem checkInstruction_ok {index : Nat} {instruction : Instruction}
    (operands : ∀ operand ∈ instruction.operands, prototype.Admits operand)
    (jump : ∀ target, instruction.jumpTarget? index = some target →
      0 ≤ target ∧ target < prototype.code.size) :
    prototype.checkInstruction index instruction = .ok () := by
  have lands : prototype.checkJump index instruction = .ok () := by
    rw [checkJump]
    split
    · exact if_pos (inRange_iff.mpr (jump _ ‹_›))
    · rfl
  rw [checkInstruction, lands]
  exact forM_ok fun operand member => checkOperand_of_admits (operands operand member) _ _

theorem checkCode_ok {start : Nat} {list : List Instruction}
    (passes : ∀ (index : Nat) instruction, list[index]? = some instruction →
      prototype.checkInstruction (start + index) instruction = .ok ()) :
    prototype.checkCode start list = .ok () := by
  induction list generalizing start with
  | nil => rfl
  | cons first rest ih =>
      have head := passes 0 first rfl
      rw [Nat.add_zero] at head
      rw [checkCode, head]
      refine ih fun index instruction found => ?_
      have later := passes (index + 1) instruction found
      rwa [Nat.add_comm index 1, ← Nat.add_assoc] at later

/-- What is verified on its own is verified inside a function that offers what it captures. -/
theorem verifyWithin_of_verify {parent : Prototype} (verified : prototype.verify = .ok ())
    (offered : ∀ capture ∈ prototype.captures.toList, parent.offers capture.source = true) :
    prototype.verifyWithin (some parent) = .ok () := by
  have captured : prototype.checkCaptures (some parent) = .ok () := by
    have none : prototype.captures.toList.find? (fun capture => !parent.offers capture.source) =
        none := by
      rw [List.find?_eq_none]
      intro capture member
      simp [offered capture member]
    rw [checkCaptures, none]
  cases prototype
  rw [verify, verifyWithin] at verified
  rw [verifyWithin, captured]
  exact verified

theorem verifyAll_ok {parent : Prototype} {list : List Prototype}
    (passes : ∀ function ∈ list, function.verifyWithin (some parent) = .ok ()) :
    verifyAll parent list = .ok () := by
  induction list with
  | nil => rw [verifyAll]
  | cons first rest ih =>
      rw [verifyAll, passes first List.mem_cons_self]
      exact ih fun function member => passes function (List.mem_cons_of_mem _ member)

/-- A prototype passes if its instructions and the functions nested in it do. -/
theorem verify_ok (frame : prototype.parameterCount ≤ prototype.stackSize)
    (code : ∀ (index : Nat) instruction, prototype.code[index]? = some instruction →
      prototype.checkInstruction index instruction = .ok ())
    (nested : ∀ function ∈ prototype.functions,
      function.verifyWithin (some prototype) = .ok ()) : prototype.verify = .ok () := by
  have checked : prototype.checkCode 0 prototype.code.toList = .ok () := by
    refine checkCode_ok fun index instruction found => ?_
    rw [Nat.zero_add]
    exact code index instruction (by simpa using found)
  have fits : prototype.checkFrame = .ok () := if_neg (Nat.not_lt.mpr frame)
  have all := verifyAll_ok nested
  cases prototype
  rw [verify, verifyWithin, fits, checked]
  exact all

end Prototype

namespace Builder

/-! ## The literal pool -/

theorem nodup_pool {prototype : Prototype} (nodup : prototype.literals.toList.Nodup)
    (value : Option Literal) : (pool value prototype).2.literals.toList.Nodup := by
  cases value with
  | none => exact nodup
  | some value =>
      rcases addLiteral_cases value prototype with ⟨_, _, same⟩ | ⟨absent, same⟩
      · rw [pool, same]
        exact nodup
      · rw [pool, same]
        show (prototype.literals.push value).toList.Nodup
        rw [Array.toList_push, ← List.concat_eq_append]
        exact nodup.concat absent

theorem literals_roomFor (prototype : Prototype) (register : UInt8) :
    (roomFor prototype register).literals = prototype.literals := by
  rw [roomFor_eq]
  split <;> rfl

theorem literals_foldl_roomFor (registers : List UInt8) (prototype : Prototype) :
    (registers.foldl roomFor prototype).literals = prototype.literals := by
  induction registers generalizing prototype with
  | nil => rfl
  | cons register rest ih => rw [List.foldl_cons, ih, literals_roomFor]

/-- A step adds a literal only where the pool does not have it. -/
theorem nodup_next {prototype : Prototype} (nodup : prototype.literals.toList.Nodup)
    (step : BuildStep) : (next prototype step).literals.toList.Nodup := by
  have parameter : ∀ (name : String) (prototype : Prototype),
      (addParameter name prototype).2.literals = prototype.literals := fun name prototype =>
    literals_roomFor { prototype with parameters := prototype.parameters.push name } _
  cases emits : step.emission? with
  | some emission =>
      rw [next_eq_emitted emits]
      exact nodup_pool (literals_foldl_roomFor emission.touched prototype ▸ nodup) emission.literal
  | none =>
      cases step with
      | literal value => exact nodup_pool nodup (some value)
      | param name => exact parameter name prototype ▸ nodup
      | varparams => exact parameter "vargv" { prototype with isVariadic := true } ▸ nodup
      | line number =>
          obtain ⟨lines, marked⟩ := exists_markLine number prototype
          have same : next prototype (.line number) = _ := marked
          exact same ▸ nodup
      | source | stackSize | generator | function | outerLocal | outerOuter | outerSymbol | pos
      | patchJump => exact nodup
      | _ => cases emits

theorem nodup_built (name : String) (steps : List BuildStep) :
    (run name steps).1.literals.toList.Nodup := by
  have keeps : ∀ (steps : List BuildStep) (prototype : Prototype),
      prototype.literals.toList.Nodup →
        (steps.foldl next prototype).literals.toList.Nodup := by
    intro steps
    induction steps with
    | nil => exact fun _ => id
    | cons step rest ih => exact fun prototype nodup => ih _ (nodup_next nodup step)
  rw [fst_run]
  exact keeps steps { name } List.nodup_nil

/-- What is built of well-formed steps is verified, and whatever the steps are, no two literals of
the pool are the same. -/
theorem verify_run :
    (∀ name steps, WellFormed name steps → (run name steps).1.verify = .ok ()) ∧
    (∀ name steps, (run name steps).1.literals.toList.Nodup) := by
  refine ⟨fun name steps well => ?_, nodup_built⟩
  have stands := well.stands
  refine Prototype.verify_ok ?_ (fun index instruction found => ?_) fun function member => ?_
  · rw [fst_run]
    exact Nat.le_max_right _ _
  · rw [code_run] at found
    refine Prototype.checkInstruction_ok
      (stands.operands instruction (Array.mem_of_getElem? found)) fun target leads => ?_
    rcases stands.jumps index instruction found target leads with lands | ⟨_, later, _⟩
    · exact lands
    · exact absurd later List.not_mem_nil
  · rw [fst_run] at member
    have member : function ∈ [] ++ steps.filterMap BuildStep.nested? :=
      functions_foldl steps { name } ▸ member
    obtain ⟨step, among, nests⟩ := List.mem_filterMap.mp member
    obtain ⟨verified, captures⟩ := well.nested step among function nests
    refine Prototype.verifyWithin_of_verify verified fun capture captured => ?_
    cases source : capture.source with
    | register number => exact decide_eq_true ((captures capture captured).1 number source)
    | outer index => exact decide_eq_true ((captures capture captured).2 index source)
    | symbol _ => rfl

/-- A function that captures a register of the function around it. -/
def reporting : Prototype where
  name := "report"
  captures := #[⟨"sum", .register 2⟩]
  code := #[⟨.ret, Instruction.noTarget, 0, 0, 0⟩]

/-- Steps that add up the items of a container in a loop and call a nested function afterwards. -/
def summing : List BuildStep :=
  [.param "items", .function reporting, .outerSymbol "log", .load 2 (.integer 0), .foreach 1 3,
    .postForeach 1, .arith .add 2 2 4, .jmpTo 1, .patchJump 1, .patchJump 2, .closure 6 0,
    .getOuter 7 0, .call 255 6 0 1, .ret 2]

theorem forall_split {α : Type} {P : List α → α → List α → Prop} {list : List α}
    (holds : ∀ index (inside : index < list.length),
      P (list.take index) list[index] (list.drop (index + 1))) :
    ∀ front item rest, list = front ++ item :: rest → P front item rest := by
  rintro front item rest rfl
  have held := holds front.length (by simp)
  simpa using held

theorem wellFormed_summing : WellFormed "sum" summing where
  proper := by
    intro step member
    -- There are too many 32-bit integers to try them all.
    have all : ∀ step ∈ summing, step.raw? = none ∧
      (∀ op ∈ step.operator?, op ∈ [Opcode.add, .sub, .mul, .div, .mod]) ∧
      (∀ count ∈ step.arguments?, 0 < count) ∧
      (step.function?.all fun index => decide
        (0 ≤ index.toInt ∧ index.toInt < ((run "sum" summing).1.functions.length : Int))) = true ∧
      (step.outer?.all fun index => decide
        (0 ≤ index.toInt ∧ index.toInt < ((run "sum" summing).1.captures.size : Int))) = true := by
      decide +kernel
    obtain ⟨prepared, operator, receiver, function, outer⟩ := all step member
    exact ⟨prepared, operator, receiver,
      fun index names => of_decide_eq_true (Option.all_eq_true .. |>.mp function index names),
      fun index names => of_decide_eq_true (Option.all_eq_true .. |>.mp outer index names)⟩
  bytes := by decide +kernel
  known := by decide +kernel
  literals := by decide +kernel
  short := by decide +kernel
  patched := forall_split (by decide +kernel)
  returns := forall_split (by decide +kernel)
  patches := forall_split (by decide +kernel)
  nested := by
    intro step member function nests
    have only : ∀ step ∈ summing, ∀ function ∈ step.nested?, function = reporting := by
      decide +kernel
    obtain rfl := only step member function nests
    refine ⟨by decide +kernel, fun capture captured => ?_⟩
    obtain rfl := List.mem_singleton.mp captured
    refine ⟨fun register source => ?_, fun index source => by cases source⟩
    cases source
    decide +kernel

theorem verify_run_summing :
    WellFormed "sum" summing ∧ (run "sum" summing).1.verify = .ok () ∧
      (run "sum" summing).1.literals.toList.Nodup :=
  ⟨wellFormed_summing, verify_run.1 _ _ wellFormed_summing, verify_run.2 _ _⟩

end Builder

end ScriptMachine
