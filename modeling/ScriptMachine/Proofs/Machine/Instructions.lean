import ScriptMachine.Machine.Dispatch
import ScriptMachine.Proofs.Machine.Recovery

/-!
# Instructions in their frames

An instruction of an accepted prototype finds in its frame whatever its operands stand for:
literals, nested functions, captured variables and the instructions it jumps to.  As long as it
stays in its frame it changes no register below.
-/

namespace ScriptMachine

/-- The frame stands behind an instruction of an accepted prototype. -/
structure Frame.Performs (frame : Frame) (prototype : Prototype) (instruction : Instruction) :
    Prop where
  /-- The prototype is accepted. -/
  accepted : prototype.Accepted
  /-- The frame runs its function. -/
  routine : frame.closure.routine = Routine.load prototype
  /-- The captured variables are there. -/
  cells : frame.closure.cells.size = prototype.captures.size
  /-- The instruction comes right before the next one. -/
  code : ∃ index, frame.ip = index + 1 ∧ prototype.code[index]? = some instruction

/-- The registers of a call belong to the window of the frame. -/
structure Frame.Calls (frame : Frame) (instruction : Instruction) : Prop where
  /-- The arguments do. -/
  first : frame.base + instruction.second.toNat < frame.top
  /-- The register that receives the result does. -/
  target : ∀ number, instruction.target? = some number → frame.base + number.toNat < frame.top

namespace Frame.Performs

variable {frame : Frame} {prototype : Prototype} {instruction : Instruction}

theorem admits (performs : frame.Performs prototype instruction) {operand : Operand}
    (member : operand ∈ instruction.operands) : prototype.Admits operand := by
  obtain ⟨index, _, found⟩ := performs.code
  cases performs.accepted with
  | intro _ operands _ _ _ =>
      exact operands instruction (Array.mem_of_getElem? found) operand member

theorem stackSize_eq (performs : frame.Performs prototype instruction) :
    frame.closure.routine.stackSize = prototype.stackSize := by
  rw [performs.routine, Routine.stackSize_load prototype performs.accepted]

/-- Jumps stay in the function. -/
theorem jump (performs : frame.Performs prototype instruction)
    (jumps : instruction.op.isJump = true) :
    0 ≤ frame.ip + instruction.wide.toInt ∧
      frame.ip + instruction.wide.toInt < frame.closure.routine.code.size := by
  obtain ⟨index, place, found⟩ := performs.code
  have target : instruction.jumpTarget? index = some (index + 1 + instruction.wide.toInt) := by
    rw [Instruction.jumpTarget?, if_pos jumps]
  cases performs.accepted with
  | intro _ _ jumps _ _ =>
      have inside := jumps index instruction found _ target
      rw [performs.routine, Routine.code_load, place]
      exact inside

/-- A function created in the frame captures what exists there. -/
theorem offers (performs : frame.Performs prototype instruction) {function : Prototype}
    (nested : function ∈ prototype.functions) {capture : Capture}
    (member : capture ∈ function.captures.toList) : prototype.offers capture.source = true := by
  cases performs.accepted with
  | intro _ _ _ _ captures => exact captures function nested capture member

/-- Registers named by a byte belong to the window. -/
theorem lt_top (performs : frame.Performs prototype instruction) {number : UInt8}
    (member : .byteRegister number ∈ instruction.operands) :
    frame.base + number.toNat < frame.top := by
  have inside : (number.toNat : Int) < prototype.stackSize := (performs.admits member).2
  rw [Frame.top, performs.stackSize_eq]
  exact Nat.add_lt_add_left (Int.ofNat_lt.mp inside) _

theorem calls (performs : frame.Performs prototype instruction)
    (calls : instruction.op = .call ∨ instruction.op = .tailCall) : frame.Calls instruction := by
  obtain ⟨op, first, wide, second, third⟩ := instruction
  refine ⟨performs.lt_top ?_, fun number target => performs.lt_top ?_⟩
  · rcases calls with rfl | rfl
    all_goals simp [Instruction.operands]
  · rw [Instruction.target?] at target
    split at target
    · exact absurd target (by simp)
    · rename_i named
      obtain rfl := Option.some.inj target
      rcases calls with rfl | rfl
      all_goals simp [Instruction.operands, Operand.target, named]

end Frame.Performs

/-- The creation of a closure puts a fault in the place of the pending one. -/
theorem Machine.Fails.replaced {manners : Manners} {extent : Extent} {before machine : Machine}
    {cause fault : Fault} (fails : before.Fails manners extent cause machine)
    (plain : fault.isPlain = true) :
    before.Fails manners extent fault (machine.note (.replaced cause) fault) := by
  have notes : machine.Keeps extent (machine.note (.replaced cause) fault) :=
    fails.keeps.sound.note (machine.allowed_incident plain _)
  refine ⟨fails.keeps.trans notes, fun honest => ?_⟩
  obtain ⟨raised, logs, rfl, _, latest⟩ := fails.pends honest
  refine ⟨_, fun _ => ?_, rfl, fails.keeps.sound.remains _ fault, rfl⟩
  obtain ⟨added, joined, orderly⟩ := logs honest
  refine ⟨_ :: added, congrArg (List.cons _) joined,
    orderly.replaced (orderly.head?_append (joined ▸ latest)) rfl ?_ ?_⟩
  · exact congrArg List.length fails.keeps.waiting
  · exact fails.keeps.reporting

/-- The computation is steady in the frame. -/
def Exec.SteadyIn {α : Type} (manners : Manners) (frame : Frame) (action : Exec α) : Prop :=
  Steady manners (.below frame.base) (Activity.At manners frame) action

namespace Exec.SteadyIn

variable {α β : Type} {manners : Manners} {frame : Frame} {prototype : Prototype}
  {instruction : Instruction} {engine : Engine}

theorem bind {action : Exec α} {following : α → Exec β} (first : SteadyIn manners frame action)
    (further : ∀ value, SteadyIn manners frame (following value)) :
    SteadyIn manners frame (action >>= following) := Steady.bind first further

theorem pure (value : α) : SteadyIn manners frame (Pure.pure value : Exec α) := Steady.pure value

theorem view (look : Machine → α) :
    SteadyIn manners frame fun machine => .ok (look machine) machine := Steady.view look

theorem register (number : UInt8) : SteadyIn manners frame (Exec.register number) := view _

theorem raise {fault : Fault} (plain : fault.isPlain = true) :
    SteadyIn manners frame (Exec.raise fault : Exec α) := Steady.raise plain

theorem operates (calls : engine.SteadyCalls manners) {action : Exec α}
    (parallel : engine.Parallel engine action action) : SteadyIn manners frame action :=
  Steady.operation calls (fun _ holds => holds.2) parallel

theorem write (number : UInt8) (value : Value) :
    SteadyIn manners frame (Exec.setRegister number value) :=
  Steady.setRegister (fun _ holds => ⟨frame, holds.1, Nat.le_refl _⟩) number value

theorem deliver (target : Option UInt8) (value : Value) :
    SteadyIn manners frame (Access.direct.deliver target value) :=
  Steady.deliverDirect (fun _ holds => ⟨frame, holds.1, Nat.le_refl _⟩) target value

theorem frame_bind {following : Frame → Exec α}
    (steady : SteadyIn manners frame (following frame)) :
    SteadyIn manners frame (Exec.frame >>= following) :=
  fun machine ready fits holds => Meets.frame_bind holds.1 (steady machine ready fits holds)

/-- A fault that the function of the frame can run into. -/
theorem raiseAt {fault : Fault} (ordered : fault.isStructural = false)
    (large : fault.exceedsBytes = true → 256 < frame.closure.routine.stackSize) :
    SteadyIn manners frame (Exec.raise fault : Exec α) := fun _ ready _ holds =>
  ready.sound.fails fun _ => ⟨ordered, fun exceeds => ⟨frame, holds.1, large exceeds⟩⟩

theorem literal (performs : frame.Performs prototype instruction) {index : Int32}
    (member : .literal index ∈ instruction.operands) :
    SteadyIn manners frame (Exec.literal index) := by
  obtain ⟨positive, within⟩ := performs.admits member
  refine frame_bind ?_
  have inside : index.toInt.toNat < frame.closure.routine.literals.size := by
    rw [performs.routine, Routine.size_literals_load]
    omega
  rw [if_neg (Int.not_lt.mpr positive), Array.getElem?_eq_getElem inside]
  exact pure _

theorem cell {closure : Closure} {index : Nat} (within : index < closure.cells.size) :
    SteadyIn manners frame (Exec.ofExcept (closure.cell index)) := by
  rw [Closure.cell, Array.getElem?_eq_getElem within]
  exact pure _

theorem outerCell (performs : frame.Performs prototype instruction) {index : Int32}
    (member : .outer index ∈ instruction.operands) :
    SteadyIn manners frame (Exec.outerCell index) := by
  obtain ⟨positive, within⟩ := performs.admits member
  refine frame_bind ?_
  rw [if_neg (Int.not_lt.mpr positive)]
  refine cell ?_
  rw [performs.cells]
  omega

/-! ## Closures -/

theorem captureCell (calls : engine.SteadyCalls manners)
    (performs : frame.Performs prototype instruction) {source : CaptureSource}
    (offered : prototype.offers source = true) :
    SteadyIn manners frame (Exec.captureCell .direct engine frame.closure source) := by
  cases source with
  | register number =>
      have create : SteadyIn manners frame (do
          Exec.alloc (← Exec.register (UInt8.ofNat number.toNat) : Value) : Exec (Ref .cell)) :=
        (register _).bind fun value => operates calls (.alloc .cell value rfl)
      rw [Exec.captureCell]
      split
      · rename_i large
        refine (raiseAt rfl fun _ => ?_).bind fun _ => create
        have offered : number.toNat < prototype.stackSize := by
          simpa [Prototype.offers] using offered
        rw [performs.stackSize_eq]
        omega
      · exact create
  | outer index =>
      refine cell ?_
      rw [performs.cells]
      simpa [Prototype.offers] using offered
  | symbol name =>
      refine (register 0).bind fun this machine ready fits holds => ?_
      have found : SteadyIn manners frame (getSlot engine this (.ofText name)) :=
        operates calls (.getSlot _ _)
      refine (found machine ready fits holds).attempt_bind (fun value next returns => ?_)
        fun cause next fails => fails.replaced rfl
      have created : next.Returns manners (.below frame.base)
          { next with heap := (@Heap.alloc .cell next.heap value).2 } :=
        Machine.Keeps.setHeap (returns.keeps.sound.alloc trivial)
      exact returns.trans created

theorem captureCells (calls : engine.SteadyCalls manners)
    (performs : frame.Performs prototype instruction) {captures : List Capture}
    (offered : ∀ capture ∈ captures, prototype.offers capture.source = true)
    (cells : Array (Ref .cell)) :
    SteadyIn manners frame
      (Exec.captureCells .direct engine frame.closure captures cells) := by
  induction captures generalizing cells with
  | nil => exact pure cells
  | cons capture rest ih =>
      refine bind (Steady.keeping _ ?_) fun cell => ?_
      · exact captureCell calls performs (offered capture (by simp))
      · exact ih (fun capture member => offered capture (by simp [member])) _

end Exec.SteadyIn

/-- There is one cell for each captured variable. -/
theorem Exec.size_of_captureCells {access : Access} {engine : Engine} {creator : Closure}
    {captures : List Capture} {cells result : Array (Ref .cell)} {machine next : Machine}
    (done : captureCells access engine creator captures cells machine = .ok result next) :
    result.size = cells.size + captures.length := by
  induction captures generalizing cells machine with
  | nil =>
      obtain ⟨rfl, _⟩ := EStateM.Result.ok.inj done
      rfl
  | cons capture rest ih =>
      obtain ⟨cell, between, _, ends⟩ := bind_eq_ok done
      rw [ih ends, Array.size_push, List.length_cons]
      omega

namespace Exec.SteadyIn

variable {α β : Type} {manners : Manners} {frame : Frame} {prototype : Prototype}
  {instruction : Instruction} {engine : Engine}

theorem makeClosure (calls : engine.SteadyCalls manners)
    (performs : frame.Performs prototype instruction) {index : Int32}
    (member : .function index ∈ instruction.operands) (target : UInt8) :
    SteadyIn manners frame (Exec.makeClosure .direct engine target index) := by
  obtain ⟨positive, within⟩ := performs.admits member
  refine frame_bind ?_
  have inside : index.toInt.toNat < prototype.functions.length := by omega
  have nested : frame.closure.routine.functions[index.toInt.toNat]? =
      some (Routine.load prototype.functions[index.toInt.toNat]) := by
    rw [performs.routine, Routine.functions_load, List.getElem?_map,
      List.getElem?_eq_getElem inside]
    rfl
  rw [if_neg (Int.not_lt.mpr positive), nested]
  let function := prototype.functions[index.toInt.toNat]
  have listed : function ∈ prototype.functions := List.getElem_mem inside
  have accepted : function.Accepted := performs.accepted.within (.nested listed .self)
  have offered : ∀ capture ∈ (Routine.load function).captures.toList,
      prototype.offers capture.source = true :=
    fun capture member => performs.offers listed (by simpa using member)
  intro machine ready fits holds
  have captured := (captureCells calls performs offered #[] machine ready fits holds).and
    fun cells next done => size_of_captureCells done
  refine captured.bind fun cells next ⟨returns, size⟩ => ?_
  have closure : Closure.Sound ⟨Routine.load function, cells⟩ :=
    ⟨⟨function, accepted, rfl⟩, by simpa using size⟩
  have created : next.Returns manners (.below frame.base) { next with
      heap := (@Heap.alloc .closure next.heap ⟨Routine.load function, cells⟩).2 } :=
    Machine.Keeps.setHeap (returns.keeps.sound.alloc closure)
  have returns := returns.trans created
  have written := write target (.closure ⟨next.heap.size⟩) _ (returns.keeps.ready ready)
    (returns.keeps.slots.fits fits) (returns.keeps.activity ▸ holds)
  exact Meets.ok_bind rfl (written.mono (fun _ _ => returns.trans) (fun _ _ => returns.fails)
    fun _ => returns.reaches)

/-! ## Objects -/

theorem newObject (calls : engine.SteadyCalls manners)
    (known : (ObjectForm.ofCode? instruction.third).isSome = true) :
    SteadyIn manners frame (Exec.newObject .direct engine instruction) := by
  rw [Exec.newObject]
  cases named : ObjectForm.ofCode? instruction.third with
  | none => exact absurd known (by simp [named])
  | some form =>
      cases form with
      | table => exact (operates calls (.alloc .table _ rfl)).bind fun _ => pure _
      | array => exact (operates calls (.alloc .array _ rfl)).bind fun _ => pure _
      | cls => exact Steady.operates calls (fun _ holds => holds.2) (.newClass instruction)

theorem appended (performs : frame.Performs prototype instruction)
    (appends : instruction.op = .appendArray) :
    SteadyIn manners frame (Exec.appended .direct instruction) := by
  obtain ⟨op, first, wide, second, third⟩ := instruction
  obtain rfl := appends
  rw [Exec.appended]
  cases named : AppendSource.ofCode? second with
  | none =>
      have demand : prototype.Admits (.variant false) :=
        performs.admits (by simp [Instruction.operands, named])
      exact absurd demand Bool.false_ne_true
  | some source =>
      cases source with
      | register => exact register _
      | literal => exact literal performs (by simp [Instruction.operands, named])
      | integer => exact pure _

theorem append (calls : engine.SteadyCalls manners)
    (performs : frame.Performs prototype instruction) (appends : instruction.op = .appendArray) :
    SteadyIn manners frame (Exec.append .direct instruction) := by
  refine (appended performs appends).bind fun value => (register _).bind fun array => ?_
  cases array with
  | array ref => exact operates calls (.update ref _ rfl)
  | _ => exact raise rfl

theorem operandsEqual (performs : frame.Performs prototype instruction)
    (tests : instruction.op = .eq ∨ instruction.op = .ne) :
    SteadyIn manners frame (Exec.operandsEqual .direct instruction) := by
  refine bind ?_ fun right => (register _).bind fun left => pure _
  obtain ⟨op, first, wide, second, third⟩ := instruction
  rw [equalityOperand]
  split
  · rename_i isLiteral
    obtain rfl : third = 1 := isLiteral
    refine literal performs ?_
    rcases tests with rfl | rfl
    all_goals simp [Instruction.operands]
  · exact register _

theorem prepareCall (calls : engine.SteadyCalls manners) (instruction : Instruction)
    {key : Exec Value} (steady : SteadyIn manners frame key) :
    SteadyIn manners frame (Exec.prepareCall .direct engine instruction key) :=
  (register _).bind fun _ => steady.bind fun _ => (operates calls (.getSlot _ _)).bind fun _ =>
    (write _ _).bind fun _ => write _ _

theorem toFirst (instruction : Instruction) {value : Exec Value}
    (steady : SteadyIn manners frame value) :
    SteadyIn manners frame (Exec.toFirst .direct instruction value) :=
  steady.bind fun _ => write _ _

theorem loadNulls (first : UInt8) (count : Nat) :
    SteadyIn manners frame (Exec.loadNulls .direct first count) := by
  intro machine ready fits holds
  refine Meets.ok_bind rfl ?_
  have base : machine.fiber.base = frame.base := by
    have current : machine.fiber.stack.current? = some frame := holds.1
    rw [Fiber.base, current]
    rfl
  dsimp only
  rw [base]
  have cleared : Direct manners (.below frame.base) (do
      Exec.ensure (frame.base + first.toNat + count)
      Exec.clearRange (frame.base + first.toNat) (frame.base + first.toNat + count)) :=
    (Direct.ensure _).bind fun _ => .clearRange (Nat.le_add_right _ _) _
  exact cleared.steady machine ready fits holds

theorem arithInstruction (calls : engine.SteadyCalls manners) (op : ArithOp)
    (instruction : Instruction) :
    SteadyIn manners frame (Exec.arithInstruction .direct engine op instruction) :=
  (register _).bind fun _ => (register _).bind fun _ =>
    toFirst _ (operates calls (.arith _ _ _))

end Exec.SteadyIn

end ScriptMachine
