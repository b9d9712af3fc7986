import ScriptMachine.Proofs.Machine.Instructions

/-!
# Instructions in run loops

An instruction of an accepted prototype keeps a run loop in order, whether it stays in its frame,
enters another one or leaves it.
-/

namespace ScriptMachine.Exec

open Machine

variable {α : Type} {manners : Manners} {scope : Scope} {start machine : Machine} {frame : Frame}
  {prototype : Prototype} {instruction : Instruction} {engine : Engine}

theorem SteadyIn.meets {action : Exec α} (steady : SteadyIn manners frame action)
    (inside : start.Inside manners scope frame machine) :
    action.Meets machine (fun _ => start.Inside manners scope frame)
      (start.Failing manners scope) (start.Reaches manners) := Steady.meets_inside steady inside

/-! ## Jumps -/

theorem meets_jump (inside : start.Inside manners scope frame machine)
    (performs : frame.Performs prototype instruction) (jumps : instruction.op.isJump = true) :
    (jump instruction.wide).Meets machine (fun _ => start.Running manners scope)
      (start.Failing manners scope) (start.Reaches manners) := by
  obtain ⟨positive, within⟩ := performs.jump jumps
  refine Meets.frame_bind inside.current ?_
  dsimp only
  rw [if_neg (by omega)]
  exact (inside.goTo (by omega)).toRunning

theorem meets_shortCircuit (inside : start.Inside manners scope frame machine)
    (performs : frame.Performs prototype instruction) (jumps : instruction.op.isJump = true)
    (truth : Bool) :
    (shortCircuit .direct instruction truth).Meets machine (fun _ => start.Running manners scope)
      (start.Failing manners scope) (start.Reaches manners) := by
  refine ((SteadyIn.register _).meets inside).bind fun value next inside => ?_
  split
  · refine ((SteadyIn.write _ _).meets inside).bind fun _ next inside => ?_
    exact meets_jump inside performs jumps
  · exact inside.toRunning

theorem meets_finishIteration (inside : start.Inside manners scope frame machine)
    (performs : frame.Performs prototype instruction) (jumps : instruction.op.isJump = true)
    (container : UInt8) :
    (finishIteration .direct container instruction.wide).Meets machine
      (fun _ => start.Running manners scope) (start.Failing manners scope)
      (start.Reaches manners) := by
  refine ((SteadyIn.register _).meets inside).bind fun value next inside => ?_
  cases value with
  | generator ref =>
      refine Meets.read_bind ?_
      split
      · exact meets_jump inside performs jumps
      · exact inside.toRunning
  | _ => exact inside.toRunning

/-! ## Traps -/

theorem meets_pushTrap (inside : start.Inside manners scope frame machine)
    (performs : frame.Performs prototype instruction) (jumps : instruction.op.isJump = true)
    (target : .byteRegister instruction.first ∈ instruction.operands) :
    (pushTrap .direct instruction.first instruction.wide).Meets machine
      (fun _ => start.Running manners scope) (start.Failing manners scope)
      (start.Reaches manners) := by
  obtain ⟨positive, within⟩ := performs.jump jumps
  refine Meets.frame_bind inside.current ?_
  dsimp only
  rw [if_neg (Int.not_lt.mpr positive)]
  refine Meets.ofFiber_bind (Meets.ofFiber_bind (inside.setTraps ?_ ?_).toRunning)
  · refine inside.sound.fiber.activity.addTrap
      ⟨frame, getElem?_of_current inside.current, ?_, ?_, inside.shaped frame inside.current⟩ rfl
    · show (frame.ip + instruction.wide.toInt).toNat < _
      omega
    · have inWindow := performs.lt_top target
      rw [Frame.top] at inWindow
      exact Nat.lt_of_add_lt_add_left inWindow
  · rw [List.dropWhile_cons, if_pos]
    exact decide_eq_true (Nat.le_sub_one_of_lt inside.above)

theorem meets_popTraps (inside : start.Inside manners scope frame machine) (count : Nat) :
    (popTraps count).Meets machine (fun _ => start.Running manners scope)
      (start.Failing manners scope) (start.Reaches manners) := by
  induction count generalizing machine with
  | zero => exact inside.toRunning
  | succ count ih =>
      have underflow : start.Failing manners scope .trapUnderflow (machine.record .trapUnderflow) :=
        inside.raises (machine.allowed_incident rfl .raised)
      refine Meets.ofFiber_bind (Meets.ofFiber_bind ?_)
      cases listed : machine.fiber.traps with
      | nil => exact underflow
      | cons trap rest =>
          dsimp only
          split
          · rename_i own
            refine Meets.onFiber_bind (ih (inside.setTraps ?_ ?_))
            · refine inside.sound.fiber.activity.dropTraps ?_
              show rest.Sublist machine.fiber.traps
              rw [listed]
              exact List.sublist_cons_self trap rest
            · have above := inside.above
              rw [listed, List.dropWhile_cons, if_pos (decide_eq_true (by omega))]
          · exact underflow

/-! ## Iteration -/

/-- The frame of a generator is added. -/
theorem meets_resume_inside (inside : start.Inside manners scope frame machine)
    (ref : Ref .generator) (target : Option UInt8) :
    (resumeInto ref target false).Meets machine (fun _ => start.Running manners scope)
      (start.Failing manners scope) (start.Reaches manners) := by
  refine (meets_resumeInto manners inside.ready ref target false).mono ?_
    (fun fault next fails => ?_)
    fun _ => False.elim
  · rintro _ next ⟨callee, base, _, isRoot, enters⟩
    exact inside.enters isRoot (base ▸ inside.fits) enters
  · exact inside.fails ⟨fails.keeps.of_all _, fails.pends⟩

/-- A step of an iteration stays in the frame, or enters one for a generator. -/
theorem meets_iterationStep (calls : engine.SteadyCalls manners)
    (inside : start.Inside manners scope frame machine) (container cursor : Value)
    (registers : IterationRegisters) :
    (iterationStep .direct engine container cursor registers).Meets machine
      (fun step next => start.Inside manners scope frame next ∨
        step = .resumed ∧ start.Running manners scope next)
      (start.Failing manners scope) (start.Reaches manners) := by
  by_cases still : ∀ ref, container ≠ .generator ref
  · have stays : SteadyIn manners frame
        (iterationStep .direct engine container cursor registers) :=
      .operates calls (.iterationStep _ _ _ still)
    exact (stays.meets inside).mono (fun _ _ => .inl) (fun _ _ => id) fun _ => id
  · obtain ⟨ref, rfl⟩ : ∃ ref, container = .generator ref := by simpa using still
    refine Meets.read_bind ?_
    split
    · exact .inl inside
    · have position : SteadyIn manners frame (ofExcept cursor.position) :=
        (Direct.ofPlain cursor.plain_position).steady
      refine (position.meets inside).bind fun place next inside => ?_
      refine ((SteadyIn.write _ _).meets inside).bind fun _ next inside => ?_
      refine ((SteadyIn.write _ _).meets inside).bind fun _ next inside => ?_
      exact (meets_resume_inside inside ref _).bind fun _ _ running => .inr ⟨rfl, running⟩

theorem SteadyIn.iterationRegisters (performs : frame.Performs prototype instruction)
    (last : .register ((instruction.second.toNat : Int) + 2) ∈ instruction.operands) :
    SteadyIn manners frame (ofExcept (IterationRegisters.ofFirst instruction.second)) := by
  rw [IterationRegisters.ofFirst]
  split
  · exact pure _
  · refine raiseAt rfl fun _ => ?_
    have last : (instruction.second.toNat : Int) + 2 < prototype.stackSize :=
      (performs.admits last).2
    rw [performs.stackSize_eq]
    omega

theorem meets_iterate (calls : engine.SteadyCalls manners)
    (inside : start.Inside manners scope frame machine)
    (performs : frame.Performs prototype instruction) (jumps : instruction.op.isJump = true)
    (last : .register ((instruction.second.toNat : Int) + 2) ∈ instruction.operands) :
    (iterate .direct engine instruction.first instruction.second instruction.wide).Meets machine
      (fun _ => start.Running manners scope) (start.Failing manners scope)
      (start.Reaches manners) := by
  refine ((SteadyIn.register _).meets inside).bind fun container next inside => ?_
  refine ((SteadyIn.iterationRegisters performs last).meets inside).bind
    fun registers next inside => ?_
  refine ((SteadyIn.register _).meets inside).bind fun cursor next inside => ?_
  refine (meets_iterationStep calls inside container cursor registers).bind ?_
  rintro step next (inside | ⟨rfl, running⟩)
  · cases step with
    | item key value cursor =>
        refine ((SteadyIn.write _ _).meets inside).bind fun _ next inside => ?_
        refine ((SteadyIn.write _ _).meets inside).bind fun _ next inside => ?_
        exact ((SteadyIn.write _ _).meets inside).mono (fun _ _ inside => inside.toRunning)
          (fun _ _ => id) fun _ => id
    | resumed => exact inside.toRunning
    | done => exact meets_jump inside performs jumps
  · exact running

/-! ## Instructions that go on with the next one -/

theorem meets_perform (calls : engine.SteadyCalls manners)
    (inside : start.Inside manners scope frame machine)
    (performs : frame.Performs prototype instruction) :
    (perform .direct engine instruction).Meets machine (fun _ => start.Running manners scope)
      (start.Failing manners scope) (start.Reaches manners) := by
  have stays : ∀ {action : Exec Unit}, SteadyIn manners frame action →
      action.Meets machine (fun _ => start.Running manners scope) (start.Failing manners scope)
        (start.Reaches manners) :=
    fun steady => (steady.meets inside).mono (fun _ _ inside => inside.toRunning) (fun _ _ => id)
      fun _ => id
  obtain ⟨op, first, wide, second, third⟩ := instruction
  have variant : ∀ {known : Bool},
      .variant known ∈ (⟨op, first, wide, second, third⟩ : Instruction).operands → known = true :=
    fun member => performs.admits member
  cases op with
  | load =>
      exact stays (.toFirst _ (.literal performs (by simp [Instruction.operands])))
  | loadInt | loadFloat | loadBool => exact stays (.write _ _)
  | loadNulls => exact stays (.loadNulls _ _)
  | loadRoot => exact stays ((SteadyIn.view _).bind fun _ => .write _ _)
  | move => exact stays (.toFirst _ (.register _))
  | get =>
      exact stays ((SteadyIn.register _).bind fun _ => (SteadyIn.register _).bind fun _ =>
        .toFirst _ (.operates calls (.getSlot _ _)))
  | getK =>
      refine stays ((SteadyIn.register _).bind fun _ => SteadyIn.bind ?_ fun _ =>
        .toFirst _ (.operates calls (.getSlot _ _)))
      exact .literal performs (by simp [Instruction.operands])
  | set =>
      exact stays ((SteadyIn.register _).bind fun _ => (SteadyIn.register _).bind fun _ =>
        (SteadyIn.register _).bind fun _ =>
        (SteadyIn.operates calls (.setSlot _ _ _)).bind fun _ => .deliver _ _)
  | newSlot =>
      exact stays ((SteadyIn.register _).bind fun _ => (SteadyIn.register _).bind fun _ =>
        (SteadyIn.register _).bind fun _ =>
        (SteadyIn.operates calls (.newSlot _ _ _)).bind fun _ => .deliver _ _)
  | delete =>
      exact stays ((SteadyIn.register _).bind fun _ => (SteadyIn.register _).bind fun _ =>
        .toFirst _ (.operates calls (.deleteSlot _ _)))
  | add | sub | mul | div | mod => exact stays (.arithInstruction calls _ _)
  | bitw =>
      refine stays ((SteadyIn.register _).bind fun _ => (SteadyIn.register _).bind fun _ => ?_)
      have known : (BitOp.ofCode? third).isSome = true := variant (by simp [Instruction.operands])
      obtain ⟨op, named⟩ := Option.isSome_iff_exists.mp known
      rw [named]
      exact .toFirst _ (.operates calls (.ofPlain (op.plain_onValues _ _)))
  | neg =>
      exact stays (.toFirst _ ((SteadyIn.register _).bind fun _ => .operates calls (.negate _)))
  | not => exact stays (.toFirst _ ((SteadyIn.register _).bind fun _ => .pure _))
  | cmp =>
      refine stays ((SteadyIn.register _).bind fun _ => (SteadyIn.register _).bind fun _ => ?_)
      have known : (CompareOp.ofCode? third).isSome = true :=
        variant (by simp [Instruction.operands])
      obtain ⟨op, named⟩ := Option.isSome_iff_exists.mp known
      rw [named]
      exact .toFirst _ ((SteadyIn.operates calls (.order _ _)).bind fun _ => .pure _)
  | eq =>
      exact stays (.toFirst _ ((SteadyIn.operandsEqual performs (.inl rfl)).bind fun _ => .pure _))
  | ne =>
      exact stays (.toFirst _ ((SteadyIn.operandsEqual performs (.inr rfl)).bind fun _ => .pure _))
  | jmp => exact (meets_jump inside performs rfl :)
  | jz =>
      refine ((SteadyIn.register _).meets inside).bind fun value next inside => ?_
      split
      · exact inside.toRunning
      · exact (meets_jump inside performs rfl :)
  | and => exact (meets_shortCircuit inside performs rfl false :)
  | or => exact (meets_shortCircuit inside performs rfl true :)
  | prepCall => exact stays (.prepareCall calls _ (.register _))
  | prepCallK =>
      exact stays (.prepareCall calls _ (.literal performs (by simp [Instruction.operands])))
  | closure => exact stays (.makeClosure calls performs (by simp [Instruction.operands]) _)
  | getOuter =>
      refine stays (SteadyIn.bind ?_ fun cell => .toFirst _ (.view _))
      exact .outerCell performs (by simp [Instruction.operands])
  | setOuter =>
      refine stays ((SteadyIn.register _).bind fun _ => SteadyIn.bind ?_ fun cell =>
        (SteadyIn.operates calls (.write cell _ rfl)).bind fun _ => .deliver _ _)
      exact .outerCell performs (by simp [Instruction.operands])
  | newObj =>
      refine stays (.toFirst _ (.newObject calls ?_))
      cases named : ObjectForm.ofCode? third with
      | none => exact absurd (variant (by simp [Instruction.operands, named])) Bool.false_ne_true
      | some form => rfl
  | appendArray => exact stays (.append calls performs rfl)
  | delegate =>
      exact stays ((SteadyIn.register _).bind fun _ => (SteadyIn.register _).bind fun _ =>
        (SteadyIn.operates calls (.setDelegate _ _)).bind fun _ => .write _ _)
  | instanceOf =>
      exact stays ((SteadyIn.register _).bind fun _ => (SteadyIn.register _).bind fun _ =>
        .toFirst _ ((SteadyIn.operates calls (.instanceOf _ _)).bind fun _ => .pure _))
  | typeOf =>
      exact stays (.toFirst _ ((SteadyIn.register _).bind fun _ => .operates calls (.typeOf _)))
  | pushTrap =>
      exact (meets_pushTrap inside performs rfl (by simp [Instruction.operands]) :)
  | popTrap => exact meets_popTraps inside _
  | throw => exact stays ((SteadyIn.register _).bind fun _ => .raise rfl)
  | resume =>
      refine ((SteadyIn.register _).meets inside).bind fun value next inside => ?_
      cases value with
      | generator ref => exact meets_resume_inside inside ref _
      | _ => exact inside.raises (next.allowed_incident rfl .raised)
  | foreach =>
      exact (meets_iterate calls inside performs rfl (by simp [Instruction.operands]) :)
  | postForeach => exact (meets_finishIteration inside performs rfl first :)
  | call | tailCall | ret | yield => exact inside.toRunning

/-! ## Calls -/

/-- A fiber that may be suspended has no other run loop to go back to. -/
theorem halted_of_canSuspend (inside : start.Inside manners scope frame machine)
    (can : machine.fiber.canSuspend = true) {target : Option UInt8}
    (window : ∀ number, target = some number → frame.base + number.toNat < frame.top) :
    start.Halted manners scope 1
      (machine.mapFiber fun fiber => { fiber with suspended := some ⟨target, 0, 0⟩ }) := by
  simp only [Fiber.canSuspend, Bool.and_eq_true, beq_iff_eq, List.isEmpty_iff] at can
  obtain ⟨⟨nesting, natives⟩, syncCalls⟩ := can
  have below := inside.below
  refine ⟨inside.ready.changeFiber rfl rfl, inside.rooted, ?_, ?_, ⟨target, rfl, ?_⟩,
    inside.waiting, inside.reporting, inside.logs.same rfl, ?_, fun _ => inside.above⟩
  · exact ⟨below.nesting.symm.trans nesting, below.natives.symm.trans natives,
      below.syncCalls.symm.trans syncCalls⟩
  · exact ⟨below.frames, below.traps, below.maxSlots, below.natives, below.nativeCalls,
      below.nesting, below.syncCalls, below.state, rfl⟩
  · intro number other same current
    obtain rfl := Option.some.inj (inside.current.symm.trans current)
    exact window number same
  · rw [← show machine.fiber.suspended = start.fiber.suspended from below.suspended]
    exact inside.toWithin

/-- A call begins in the registers of the current frame from the first argument on. -/
theorem meets_callInstruction (calls : engine.SteadyCalls manners)
    (natives : engine.SteadyNatives manners) (inside : start.Inside manners scope frame machine)
    (window : frame.Calls instruction) (callee : Value) :
    (callInstruction .direct engine callee instruction).Meets machine
      (start.Flows manners scope) (start.Failing manners scope) (start.Reaches manners) := by
  have base : machine.fiber.base = frame.base := by
    rw [Fiber.base, inside.current]
    rfl
  refine Meets.ok_bind rfl ?_
  dsimp only
  rw [base]
  have high : frame.base ≤ frame.base + instruction.second.toNat := Nat.le_add_right _ _
  have fits : frame.base + instruction.second.toNat ≤ machine.fiber.stack.size :=
    Nat.le_of_lt (Nat.lt_of_lt_of_le window.first (inside.shaped frame inside.current))
  have under : machine.fiber.activity.Under (frame.base + instruction.second.toNat) := by
    intro other current
    obtain rfl := Option.some.inj (inside.current.symm.trans current)
    exact high
  refine ((meets_callValue calls natives inside.ready fits inside.calm under callee _ _ false).mono
    (fun _ _ => id) (fun _ _ fails => inside.fails ⟨fails.keeps.lower high, fails.pends⟩)
    fun _ => inside.toRunning.reaches).bind fun result next started => ?_
  cases result with
  | pushed =>
      obtain ⟨entered, place, _, isRoot, enters⟩ := started
      exact .inl (inside.enters isRoot (place ▸ high) enters)
  | done value =>
      have inside := inside.returns ⟨started.keeps.lower high, started.logs⟩
      exact ((SteadyIn.deliver _ _).meets inside).bind fun _ next inside => .inl inside.toRunning
  | suspend value =>
      have inside := inside.returns ⟨started.keeps.lower high, started.logs⟩
      refine Meets.ofFiber_bind ?_
      cases can : next.fiber.canSuspend with
      | false => exact inside.raises (next.allowed_incident rfl .raised)
      | true =>
          refine halted_of_canSuspend inside can fun number target => ?_
          obtain ⟨own, named, rfl⟩ := Option.map_eq_some_iff.mp target
          exact window.target own named

theorem meets_tailCall (calls : engine.SteadyCalls manners) (natives : engine.SteadyNatives manners)
    (inside : start.Inside manners scope frame machine)
    (window : frame.Calls instruction) (callee : Value) :
    (tailCall .direct engine callee instruction).Meets machine (start.Flows manners scope)
      (start.Failing manners scope) (start.Reaches manners) := by
  cases callee with
  | closure ref =>
      refine Meets.read_bind (Meets.frame_bind inside.current ?_)
      refine Meets.ok_bind rfl ?_
      split
      · rename_i replaces
        simp only [Bool.and_eq_true, Bool.not_eq_true'] at replaces
        exact meets_replaceFrame inside (Option.isNone_iff_eq_none.mp replaces.1.1.2)
          replaces.1.2 ref instruction
      · exact meets_callInstruction calls natives inside window _
  | _ => exact meets_callInstruction calls natives inside window _

/-- Every instruction keeps a run loop in order. -/
theorem meets_dispatch (calls : engine.SteadyCalls manners) (natives : engine.SteadyNatives manners)
    (inside : start.Inside manners scope frame machine)
    (performs : frame.Performs prototype instruction) :
    (dispatch .direct engine instruction).Meets machine (start.Flows manners scope)
      (start.Failing manners scope) (start.Reaches manners) := by
  have handedOut : SteadyIn manners frame (handedOut .direct instruction) := by
    rw [Exec.handedOut]
    split
    · exact .register _
    · exact .pure _
  obtain ⟨op, first, wide, second, third⟩ := instruction
  cases op with
  | call =>
      refine ((SteadyIn.register _).meets inside).bind fun callee next inside => ?_
      exact meets_callInstruction calls natives inside (performs.calls (.inl rfl)) callee
  | tailCall =>
      refine ((SteadyIn.register _).meets inside).bind fun callee next inside => ?_
      exact meets_tailCall calls natives inside (performs.calls (.inr rfl)) callee
  | ret =>
      exact (handedOut.meets inside).bind fun value next inside => meets_returnValue inside value
  | yield =>
      exact (handedOut.meets inside).bind fun value next inside => meets_yieldValue inside value
  | _ => exact (meets_perform calls inside performs).bind fun _ next running => .inl running

end ScriptMachine.Exec
