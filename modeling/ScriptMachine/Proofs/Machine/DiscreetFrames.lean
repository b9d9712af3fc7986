import ScriptMachine.Proofs.Machine.Discreet

/-!
# Discreet instructions

What an instruction does in its frame looks at the registers of the window.  Leaving the frame looks
at those of the frame below as well, and calling another function from its first argument on.
-/

namespace ScriptMachine

open Exec

variable {α β : Type}

namespace Machine

variable {manners : Manners} {scope : Scope} {start machine : Machine} {frame : Frame}

theorem base_of_current (current : machine.fiber.stack.current? = some frame) :
    machine.fiber.base = frame.base := by
  rw [Fiber.base, current]
  rfl

/-- The frame below belongs to the run loop, unless the current one ends it. -/
theorem Inside.floor_le_caller (inside : start.Inside manners scope frame machine)
    (whole : scope.mark = scope.root) (inner : frame.isRoot = false) {caller : Frame}
    (current : machine.fiber.stack.leave.current? = some caller) : scope.floor ≤ caller.base := by
  have left := inside.toWithin.left inside.above
  have differ : machine.left.fiber.stack.depth ≠ scope.root := fun last =>
    absurd (inside.isRoot.mpr last) (by simp [inner])
  have deep := left.deep
  exact left.floor_le (by omega) (getElem?_of_current current)

end Machine

namespace Exec

open Machine

variable {manners : Manners} {scope : Scope} {veil : Veil}
  {start machine : Machine} {frame : Frame} {engine : Engine} {prototype : Prototype}
  {instruction : Instruction}

/-! ## Leaving frames -/

theorem ensure_frames (size : Nat) :
    (ensure size).Meets machine
      (fun _ next => next.fiber.stack.frames = machine.fiber.stack.frames)
      (fun _ _ => True) (fun _ => True) :=
  Meets.room_bind trivial fun _ => Stack.frames_grow _ _

theorem resize_frames (size : Nat) :
    (resize size).Meets machine
      (fun _ next => next.fiber.stack.frames = machine.fiber.stack.frames)
      (fun _ _ => True) (fun _ => True) := Meets.ok_bind rfl (ensure_frames size)

namespace Oblivious

theorem killGenerator (frame : Frame) : Oblivious veil (Exec.killGenerator frame) machine := by
  rw [Exec.killGenerator]
  split
  · exact update _ _
  · exact pure ()

theorem leaveFrame (frame : Frame) (value : Value)
    (high : frame.isRoot = false → ∀ caller, machine.fiber.stack.current? = some caller →
      veil.floor ≤ caller.base) :
    Oblivious veil (Exec.leaveFrame frame value) machine := by
  refine ofFiber_bind (onFiber_bind ?_ rfl rfl) rfl
  split
  · exact pure _
  · rename_i inner
    refine frame_bind fun caller current => ?_
    have high := high (by simpa using inner) caller current
    refine bind_meets (resize_frames _) (resize (Nat.le_add_right_of_le high))
      fun _ next frames => ?_
    have current : next.fiber.stack.current? = some caller := by
      rw [Stack.current?, frames]
      exact current
    exact (deliver _ (base_of_current current ▸ high) _).bind fun _ _ _ => pure _

theorem returnValue (inside : start.Inside manners scope frame machine)
    (whole : scope.mark = scope.root) (high : veil.floor ≤ scope.floor) (value : Value) :
    Oblivious veil (Exec.returnValue value) machine := by
  refine ok_bind (popFrame_eq inside.current) popFrame ?_
  refine ok_bind (killGenerator_eq frame _) (killGenerator frame) (leaveFrame frame value ?_)
  exact fun inner caller current => Nat.le_trans high (inside.floor_le_caller whole inner current)

theorem yieldValue (inside : start.Inside manners scope frame machine)
    (whole : scope.mark = scope.root) (high : veil.floor ≤ scope.floor) (value : Value) :
    Oblivious veil (Exec.yieldValue value) machine := by
  refine frame_bind fun other current => ?_
  obtain rfl := Option.some.inj (inside.current.symm.trans current)
  cases frame.generator with
  | none => exact raise _
  | some ref =>
      refine ofFiber_bind (ok_bind (popFrame_eq inside.current) popFrame ?_) rfl
      refine ofFiber_bind (onFiber_bind ?_ rfl rfl) rfl
      refine ok_bind rfl (takeRange (Nat.le_trans high inside.floor_le) _) ?_
      refine ok_bind rfl (update _ _) (leaveFrame frame value ?_)
      exact fun inner caller current =>
        Nat.le_trans high (inside.floor_le_caller whole inner current)

/-! ## Calls -/

theorem span (first : UInt8) (count : Nat) :
    Oblivious veil (Access.direct.span first count) machine :=
  (ofFiber rfl).bind fun _ _ _ => pure _

theorem deliverDirect (target : Option UInt8) (high : veil.floor ≤ machine.fiber.base)
    (value : Value) : Oblivious veil (Access.direct.deliver target value) machine := by
  cases target with
  | none => exact pure ()
  | some number => exact setRegister high value

theorem callInstruction (discreet : engine.Discreet manners)
    (inside : start.Inside manners scope frame machine)
    (high : veil.floor ≤ scope.floor) (window : frame.Calls instruction) (callee : Value) :
    Oblivious veil (Exec.callInstruction .direct engine callee instruction) machine := by
  have high : veil.floor ≤ frame.base := Nat.le_trans high inside.floor_le
  refine ok_bind rfl (span _ _) ?_
  dsimp only
  rw [base_of_current inside.current]
  have above : frame.base ≤ frame.base + instruction.second.toNat := Nat.le_add_right _ _
  have fits : frame.base + instruction.second.toNat ≤ machine.fiber.stack.size :=
    Nat.le_of_lt (Nat.lt_of_lt_of_le window.first (inside.shaped frame inside.current))
  have under : machine.fiber.activity.Under (frame.base + instruction.second.toNat) := by
    intro other current
    obtain rfl := Option.some.inj (inside.current.symm.trans current)
    exact above
  refine bind_meets (meets_callValue discreet.calls discreet.natives inside.ready fits inside.calm
    under callee _ _ false) (callValue discreet inside.ready fits inside.calm under
      (Nat.le_trans high above) callee _ _ false) fun result next started => ?_
  cases result with
  | pushed => exact pure _
  | done value =>
      have current := started.keeps.current.trans inside.current
      exact (deliverDirect _ (base_of_current current ▸ high) value).bind fun _ _ _ => pure _
  | suspend value =>
      refine ofFiber_bind ?_ rfl
      split
      · exact onFiber_bind (pure _) rfl rfl
      · exact raise_bind _

theorem replacesFrame (frame : Frame) (closure : Closure) (count : Nat) :
    Oblivious veil (Exec.replacesFrame frame closure count) machine :=
  ofFiber_bind (ofFiber_bind (pure _) rfl) rfl

theorem replaceFrame (current : machine.fiber.stack.current? = some frame)
    (high : veil.floor ≤ frame.base) (ref : Ref .closure) (instruction : Instruction) :
    Oblivious veil (Exec.replaceFrame .direct ref instruction) machine := by
  refine ok_bind rfl (span _ _) (ok_bind (popFrame_eq current) popFrame ?_)
  dsimp only
  rw [base_of_current current]
  refine (takeRange (Nat.le_add_right_of_le high) _).bind fun arguments _ _ => ?_
  refine (clearRange high _).bind fun _ next _ => ?_
  refine (forM (fun _ _ => setPlace (Nat.le_add_right_of_le high) _) next).bind fun _ _ _ => ?_
  exact (enterClosure ref high _ _ _).bind fun _ _ _ => (count _).bind fun _ _ _ => pure _

theorem tailCall (discreet : engine.Discreet manners)
    (inside : start.Inside manners scope frame machine)
    (high : veil.floor ≤ scope.floor) (window : frame.Calls instruction) (callee : Value) :
    Oblivious veil (Exec.tailCall .direct engine callee instruction) machine := by
  cases callee with
  | closure ref =>
      refine read_bind (frame_bind fun other current => ?_)
      obtain rfl := Option.some.inj (inside.current.symm.trans current)
      refine ok_bind rfl (replacesFrame _ _ _) ?_
      split
      · exact replaceFrame current (Nat.le_trans high inside.floor_le) ref instruction
      · exact callInstruction discreet inside high window _
  | _ => exact callInstruction discreet inside high window _

/-! ## Jumps and traps -/

theorem jump (offset : Int32) : Oblivious veil (Exec.jump offset) machine := by
  refine frame_bind fun frame _ => ?_
  dsimp only
  split
  · exact raise_bind _
  · exact goTo _

theorem pushTrap (target : UInt8) (offset : Int32) :
    Oblivious veil (Exec.pushTrap .direct target offset) machine := by
  refine frame_bind fun frame _ => ?_
  dsimp only
  split
  · exact raise_bind _
  · exact ofFiber_bind (ofFiber_bind (onFiber rfl rfl) (veil.size_stack _)) rfl

theorem popTraps (count : Nat) : Oblivious veil (Exec.popTraps count) machine := by
  induction count generalizing machine with
  | zero => exact pure ()
  | succ count ih =>
      refine ofFiber_bind (ofFiber_bind ?_ rfl) rfl
      split
      · split
        · exact onFiber_bind ih rfl rfl
        · exact raise _
      · exact raise _

end Oblivious

/-! ## Instructions in their frames -/

/-- The computation is discreet in the frame. -/
def DiscreetIn (manners : Manners) (frame : Frame) (action : Exec α) : Prop :=
  Discreet manners (.below frame.base) frame.base (Activity.At manners frame) action

namespace DiscreetIn

theorem bind {action : Exec α} {following : α → Exec β}
    (first : DiscreetIn manners frame action)
    (further : ∀ value, DiscreetIn manners frame (following value)) :
    DiscreetIn manners frame (action >>= following) := Discreet.bind first further

theorem pure (value : α) : DiscreetIn manners frame (Pure.pure value : Exec α) :=
  Discreet.pure value

theorem raise {fault : Fault} (plain : fault.isPlain = true) :
    DiscreetIn manners frame (Exec.raise fault : Exec α) := Discreet.raise plain

theorem operates (discreet : engine.Discreet manners) {action : Exec α}
    (parallel : engine.Parallel engine action action) :
    DiscreetIn manners frame action :=
  Discreet.operation discreet (fun _ holds => holds.2) parallel

/-- Registers of the frame are in front of the veil. -/
theorem of_registers {action : Exec α} (steady : SteadyIn manners frame action)
    (oblivious : ∀ {veil : Veil} {machine : Machine}, veil.floor ≤ machine.fiber.base →
      Oblivious veil action machine) : DiscreetIn manners frame action :=
  ⟨steady, fun high _ _ holds => oblivious (base_of_current holds.1 ▸ high)⟩

theorem register (number : UInt8) : DiscreetIn manners frame (Exec.register number) :=
  of_registers (.register number) .register

theorem write (number : UInt8) (value : Value) :
    DiscreetIn manners frame (Exec.setRegister number value) :=
  of_registers (.write number value) fun high => .setRegister high value

theorem deliver (target : Option UInt8) (value : Value) :
    DiscreetIn manners frame (Access.direct.deliver target value) :=
  of_registers (.deliver target value) fun high => .deliverDirect target high value

theorem literal (performs : frame.Performs prototype instruction) {index : Int32}
    (member : .literal index ∈ instruction.operands) :
    DiscreetIn manners frame (Exec.literal index) := by
  refine ⟨SteadyIn.literal performs member, fun _ _ _ _ => .frame_bind fun own _ => ?_⟩
  dsimp only
  split
  · exact .pure _
  · exact .raise _

theorem outerCell (performs : frame.Performs prototype instruction) {index : Int32}
    (member : .outer index ∈ instruction.operands) :
    DiscreetIn manners frame (Exec.outerCell index) := by
  refine ⟨SteadyIn.outerCell performs member, fun _ _ _ _ => .frame_bind fun own _ => ?_⟩
  split
  · exact .raise_bind _
  · exact .ofExcept _

/-! ### Closures -/

theorem captureCell (discreet : engine.Discreet manners)
    (performs : frame.Performs prototype instruction) {source : CaptureSource}
    (offered : prototype.offers source = true) :
    DiscreetIn manners frame (Exec.captureCell .direct engine frame.closure source) := by
  refine ⟨SteadyIn.captureCell discreet.calls performs offered, ?_⟩
  intro veil machine high ready fits holds
  have base : veil.floor ≤ machine.fiber.base := base_of_current holds.1 ▸ high
  cases source with
  | register number =>
      rw [Exec.captureCell]
      split
      · exact .raise_bind _
      · exact (Oblivious.register base).bind fun _ _ _ => .alloc _
  | outer index => exact .ofExcept _
  | symbol name =>
      refine (Oblivious.register base).bind fun this next seen => ?_
      obtain ⟨_, rfl⟩ := EStateM.Result.ok.inj seen
      have found : DiscreetIn manners frame (getSlot engine this (.ofText name)) :=
        operates discreet (.getSlot _ _)
      refine (found.oblivious high ready fits holds).attempt.bind fun result _ _ => ?_
      cases result with
      | ok value => exact .alloc _
      | error cause => exact .replaceFault _ _

theorem captureCells (discreet : engine.Discreet manners)
    (performs : frame.Performs prototype instruction) {captures : List Capture}
    (offered : ∀ capture ∈ captures, prototype.offers capture.source = true)
    (cells : Array (Ref .cell)) :
    DiscreetIn manners frame
      (Exec.captureCells .direct engine frame.closure captures cells) := by
  induction captures generalizing cells with
  | nil => exact pure cells
  | cons capture rest ih =>
      refine bind (Discreet.keeping _ ?_) fun cell => ?_
      · exact captureCell discreet performs (offered capture (by simp))
      · exact ih (fun capture member => offered capture (by simp [member])) _

theorem makeClosure (discreet : engine.Discreet manners)
    (performs : frame.Performs prototype instruction) {index : Int32}
    (member : .function index ∈ instruction.operands) (target : UInt8) :
    DiscreetIn manners frame (Exec.makeClosure .direct engine target index) := by
  refine ⟨SteadyIn.makeClosure discreet.calls performs member target, ?_⟩
  intro veil machine high ready fits holds
  refine .frame_bind fun own current => ?_
  obtain rfl := Option.some.inj (Eq.trans (Eq.symm holds.1) current)
  obtain ⟨positive, within⟩ := performs.admits member
  have inside : index.toInt.toNat < prototype.functions.length := by omega
  have nested : frame.closure.routine.functions[index.toInt.toNat]? =
      some (Routine.load prototype.functions[index.toInt.toNat]) := by
    rw [performs.routine, Routine.functions_load, List.getElem?_map,
      List.getElem?_eq_getElem inside]
    rfl
  rw [if_neg (Int.not_lt.mpr positive), nested]
  let function := prototype.functions[index.toInt.toNat]
  have listed : function ∈ prototype.functions := List.getElem_mem inside
  have offered : ∀ capture ∈ (Routine.load function).captures.toList,
      prototype.offers capture.source = true :=
    fun capture member => performs.offers listed (by simpa using member)
  have cells : DiscreetIn manners frame _ := captureCells discreet performs offered #[]
  refine .bind_meets (cells.steady machine ready fits holds)
    (cells.oblivious high ready fits holds) fun made next returns => ?_
  refine .ok_bind rfl (.alloc _) (.setRegister ?_ _)
  exact base_of_current (returns.keeps.current.trans holds.1) ▸ high

/-! ### Objects -/

theorem newObject (discreet : engine.Discreet manners)
    (known : (ObjectForm.ofCode? instruction.third).isSome = true) :
    DiscreetIn manners frame (Exec.newObject .direct engine instruction) := by
  rw [Exec.newObject]
  cases named : ObjectForm.ofCode? instruction.third with
  | none => exact absurd known (by simp [named])
  | some form =>
      cases form with
      | table => exact (operates discreet (.alloc .table _ rfl)).bind fun _ => pure _
      | array => exact (operates discreet (.alloc .array _ rfl)).bind fun _ => pure _
      | cls =>
          have base : DiscreetIn manners frame (baseClass .direct instruction) := by
            rw [baseClass]
            split
            · exact pure none
            · refine (register _).bind fun value => ?_
              cases value with
              | cls ref => exact pure _
              | _ => exact raise rfl
          have made : DiscreetIn manners frame (newClass .direct engine instruction) := by
            rw [newClass_eq]
            exact base.bind fun ref => operates discreet (.deriveClass ref)
          exact made

theorem appended (performs : frame.Performs prototype instruction)
    (appends : instruction.op = .appendArray) :
    DiscreetIn manners frame (Exec.appended .direct instruction) := by
  obtain ⟨op, first, wide, second, third⟩ := instruction
  obtain rfl := appends
  rw [Exec.appended]
  cases named : AppendSource.ofCode? second with
  | none =>
      have demand : prototype.Admits (.variant false) :=
        performs.admits (by simp [Instruction.operands, named])
      exact absurd demand Bool.false_ne_true
  | some source =>
      cases source with
      | register => exact register _
      | literal => exact literal performs (by simp [Instruction.operands, named])
      | integer => exact pure _

theorem append (discreet : engine.Discreet manners)
    (performs : frame.Performs prototype instruction) (appends : instruction.op = .appendArray) :
    DiscreetIn manners frame (Exec.append .direct instruction) := by
  refine (appended performs appends).bind fun value => (register _).bind fun array => ?_
  cases array with
  | array ref => exact operates discreet (.update ref _ rfl)
  | _ => exact raise rfl

theorem operandsEqual (performs : frame.Performs prototype instruction)
    (tests : instruction.op = .eq ∨ instruction.op = .ne) :
    DiscreetIn manners frame (Exec.operandsEqual .direct instruction) := by
  refine bind ?_ fun right => (register _).bind fun left => pure _
  obtain ⟨op, first, wide, second, third⟩ := instruction
  rw [equalityOperand]
  split
  · rename_i isLiteral
    obtain rfl : third = 1 := isLiteral
    refine literal performs ?_
    rcases tests with rfl | rfl
    all_goals simp [Instruction.operands]
  · exact register _

theorem toFirst (instruction : Instruction) {value : Exec Value}
    (discreet : DiscreetIn manners frame value) :
    DiscreetIn manners frame (Exec.toFirst .direct instruction value) :=
  discreet.bind fun _ => write _ _

theorem prepareCall (discreet : engine.Discreet manners) (instruction : Instruction)
    {key : Exec Value} (found : DiscreetIn manners frame key) :
    DiscreetIn manners frame (Exec.prepareCall .direct engine instruction key) :=
  (register _).bind fun _ => found.bind fun _ => (operates discreet (.getSlot _ _)).bind fun _ =>
    (write _ _).bind fun _ => write _ _

theorem loadNulls (first : UInt8) (count : Nat) :
    DiscreetIn manners frame (Exec.loadNulls .direct first count) :=
  of_registers (.loadNulls first count) fun high => .ok_bind rfl (.span first count)
    ((Oblivious.ensure _).bind fun _ _ _ => .clearRange (Nat.le_add_right_of_le high) _)

theorem arithInstruction (discreet : engine.Discreet manners) (op : ArithOp)
    (instruction : Instruction) :
    DiscreetIn manners frame (Exec.arithInstruction .direct engine op instruction) :=
  (register _).bind fun _ => (register _).bind fun _ =>
    toFirst _ (operates discreet (.arith _ _ _))

theorem iterationRegisters (performs : frame.Performs prototype instruction)
    (last : .register ((instruction.second.toNat : Int) + 2) ∈ instruction.operands) :
    DiscreetIn manners frame
      (ofExcept (IterationRegisters.ofFirst instruction.second)) :=
  ⟨SteadyIn.iterationRegisters performs last, fun _ _ _ _ => .ofExcept _⟩

end DiscreetIn

end Exec

end ScriptMachine
