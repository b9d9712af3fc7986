import ScriptMachine.Proofs.Machine.DiscreetFrames

/-!
# Discreet run loops

A run loop that is looked at as a whole looks at the registers from its first window on: neither its
instructions nor the recovery from their faults get at any below.
-/

namespace ScriptMachine

open Exec

variable {α β : Type}

namespace Exec

open Machine

variable {manners : Manners} {scope : Scope} {veil : Veil}
  {start machine : Machine} {frame : Frame} {engine : Engine} {prototype : Prototype}
  {instruction : Instruction} {fault : Fault}

namespace DiscreetIn

theorem inside {action : Exec α} (discreet : DiscreetIn manners frame action)
    (inside : start.Inside manners scope frame machine)
    (high : veil.floor ≤ scope.floor) : Oblivious veil action machine :=
  discreet.oblivious (Nat.le_trans high inside.floor_le) inside.ready inside.fits
    ⟨inside.current, inside.calm⟩

theorem inside_bind {action : Exec α} {following : α → Exec β}
    (discreet : DiscreetIn manners frame action) (inside : start.Inside manners scope frame machine)
    (high : veil.floor ≤ scope.floor)
    (further : ∀ value next, start.Inside manners scope frame next →
      Oblivious veil (following value) next) :
    Oblivious veil (action >>= following) machine :=
  .bind_meets (SteadyIn.meets discreet.steady inside) (discreet.inside inside high)
    further

end DiscreetIn

/-! ## Instructions that go on with the next one -/

namespace Oblivious

variable (discreet : engine.Discreet manners)
  (inside : start.Inside manners scope frame machine) (high : veil.floor ≤ scope.floor)

include inside high

theorem shortCircuit (instruction : Instruction) (truth : Bool) :
    Oblivious veil (Exec.shortCircuit .direct instruction truth) machine := by
  refine (DiscreetIn.register _).inside_bind inside high fun value next inside => ?_
  split
  · exact ((DiscreetIn.write _ _).inside inside high).bind fun _ _ _ => jump _
  · exact pure ()

theorem finishIteration (container : UInt8) (exit : Int32) :
    Oblivious veil (Exec.finishIteration .direct container exit) machine := by
  refine (DiscreetIn.register _).inside_bind inside high fun value next _ => ?_
  cases value with
  | generator ref =>
      refine read_bind ?_
      split
      · exact jump exit
      · exact pure ()
  | _ => exact pure ()

include discreet

/-- Only a generator is iterated by running it in the frame. -/
theorem iterationStep (container cursor : Value) (registers : IterationRegisters) :
    Oblivious veil (Exec.iterationStep .direct engine container cursor registers) machine := by
  by_cases still : ∀ ref, container ≠ .generator ref
  · have stays : DiscreetIn manners frame
        (Exec.iterationStep .direct engine container cursor registers) :=
      .operates discreet (.iterationStep _ _ _ still)
    exact stays.inside inside high
  · obtain ⟨ref, rfl⟩ : ∃ ref, container = .generator ref := by simpa using still
    refine read_bind ?_
    split
    · exact pure _
    · have position : DiscreetIn manners frame (Exec.ofExcept cursor.position) :=
        Discreet.ofPlain cursor.plain_position
      refine position.inside_bind inside high fun place next inside => ?_
      refine (DiscreetIn.write _ _).inside_bind inside high fun _ next inside => ?_
      refine (DiscreetIn.write _ _).inside_bind inside high fun _ next inside => ?_
      exact (resumeInto ref _ _).bind fun _ _ _ => pure _

theorem iterate (performs : frame.Performs prototype instruction)
    (last : .register ((instruction.second.toNat : Int) + 2) ∈ instruction.operands) :
    Oblivious veil
      (Exec.iterate .direct engine instruction.first instruction.second instruction.wide)
      machine := by
  refine (DiscreetIn.register _).inside_bind inside high fun container next inside => ?_
  refine (DiscreetIn.iterationRegisters performs last).inside_bind inside high
    fun registers next inside => ?_
  refine (DiscreetIn.register _).inside_bind inside high fun cursor next inside => ?_
  refine bind_meets (meets_iterationStep discreet.calls inside container cursor registers)
    (iterationStep discreet inside high container cursor registers) ?_
  rintro step next (inside | ⟨rfl, _⟩)
  · cases step with
    | item key value cursor =>
        refine (DiscreetIn.write _ _).inside_bind inside high fun _ next inside => ?_
        refine (DiscreetIn.write _ _).inside_bind inside high fun _ next inside => ?_
        exact (DiscreetIn.write _ _).inside inside high
    | resumed => exact pure ()
    | done => exact jump _
  · exact pure ()

theorem perform (performs : frame.Performs prototype instruction) :
    Oblivious veil (Exec.perform .direct engine instruction) machine := by
  have stays : ∀ {action : Exec Unit}, DiscreetIn manners frame action →
      Oblivious veil action machine := fun discreet => discreet.inside inside high
  obtain ⟨op, first, wide, second, third⟩ := instruction
  have variant : ∀ {known : Bool},
      .variant known ∈ (⟨op, first, wide, second, third⟩ : Instruction).operands → known = true :=
    fun member => performs.admits member
  cases op with
  | load =>
      exact stays (.toFirst _ (.literal performs (by simp [Instruction.operands])))
  | loadInt | loadFloat | loadBool => exact stays (.write _ _)
  | loadNulls => exact stays (.loadNulls _ _)
  | loadRoot => exact get_bind (stays (.write _ _)) fun _ => rfl
  | move => exact stays (.toFirst _ (.register _))
  | get =>
      exact stays ((DiscreetIn.register _).bind fun _ => (DiscreetIn.register _).bind fun _ =>
        .toFirst _ (.operates discreet (.getSlot _ _)))
  | getK =>
      refine stays ((DiscreetIn.register _).bind fun _ => DiscreetIn.bind ?_ fun _ =>
        .toFirst _ (.operates discreet (.getSlot _ _)))
      exact .literal performs (by simp [Instruction.operands])
  | set =>
      exact stays ((DiscreetIn.register _).bind fun _ => (DiscreetIn.register _).bind fun _ =>
        (DiscreetIn.register _).bind fun _ =>
        (DiscreetIn.operates discreet (.setSlot _ _ _)).bind fun _ => .deliver _ _)
  | newSlot =>
      exact stays ((DiscreetIn.register _).bind fun _ => (DiscreetIn.register _).bind fun _ =>
        (DiscreetIn.register _).bind fun _ =>
        (DiscreetIn.operates discreet (.newSlot _ _ _)).bind fun _ => .deliver _ _)
  | delete =>
      exact stays ((DiscreetIn.register _).bind fun _ => (DiscreetIn.register _).bind fun _ =>
        .toFirst _ (.operates discreet (.deleteSlot _ _)))
  | add | sub | mul | div | mod => exact stays (.arithInstruction discreet _ _)
  | bitw =>
      refine stays ((DiscreetIn.register _).bind fun _ => (DiscreetIn.register _).bind fun _ => ?_)
      have known : (BitOp.ofCode? third).isSome = true := variant (by simp [Instruction.operands])
      obtain ⟨op, named⟩ := Option.isSome_iff_exists.mp known
      rw [named]
      exact .toFirst _ (.operates discreet (.ofPlain (op.plain_onValues _ _)))
  | neg =>
      exact stays (.toFirst _ ((DiscreetIn.register _).bind fun _ =>
        .operates discreet (.negate _)))
  | not => exact stays (.toFirst _ ((DiscreetIn.register _).bind fun _ => .pure _))
  | cmp =>
      refine stays ((DiscreetIn.register _).bind fun _ => (DiscreetIn.register _).bind fun _ => ?_)
      have known : (CompareOp.ofCode? third).isSome = true :=
        variant (by simp [Instruction.operands])
      obtain ⟨op, named⟩ := Option.isSome_iff_exists.mp known
      rw [named]
      exact .toFirst _ ((DiscreetIn.operates discreet (.order _ _)).bind fun _ => .pure _)
  | eq =>
      exact stays (.toFirst _ ((DiscreetIn.operandsEqual performs (.inl rfl)).bind fun _ =>
        .pure _))
  | ne =>
      exact stays (.toFirst _ ((DiscreetIn.operandsEqual performs (.inr rfl)).bind fun _ =>
        .pure _))
  | jmp => exact jump wide
  | jz =>
      refine (DiscreetIn.register _).inside_bind inside high fun value next _ => ?_
      split
      · exact pure ()
      · exact jump wide
  | and => exact shortCircuit inside high _ false
  | or => exact shortCircuit inside high _ true
  | prepCall => exact stays (.prepareCall discreet _ (.register _))
  | prepCallK =>
      exact stays (.prepareCall discreet _ (.literal performs (by simp [Instruction.operands])))
  | closure => exact stays (.makeClosure discreet performs (by simp [Instruction.operands]) _)
  | getOuter =>
      refine stays (DiscreetIn.bind ?_ fun cell => .toFirst _ (.operates discreet (.read _)))
      exact .outerCell performs (by simp [Instruction.operands])
  | setOuter =>
      refine stays ((DiscreetIn.register _).bind fun _ => DiscreetIn.bind ?_ fun cell =>
        (DiscreetIn.operates discreet (.write cell _ rfl)).bind fun _ => .deliver _ _)
      exact .outerCell performs (by simp [Instruction.operands])
  | newObj =>
      refine stays (.toFirst _ (.newObject discreet ?_))
      cases named : ObjectForm.ofCode? third with
      | none => exact absurd (variant (by simp [Instruction.operands, named])) Bool.false_ne_true
      | some form => rfl
  | appendArray => exact stays (.append discreet performs rfl)
  | delegate =>
      exact stays ((DiscreetIn.register _).bind fun _ => (DiscreetIn.register _).bind fun _ =>
        (DiscreetIn.operates discreet (.setDelegate _ _)).bind fun _ => .write _ _)
  | instanceOf =>
      exact stays ((DiscreetIn.register _).bind fun _ => (DiscreetIn.register _).bind fun _ =>
        .toFirst _ ((DiscreetIn.operates discreet (.instanceOf _ _)).bind fun _ => .pure _))
  | typeOf =>
      exact stays (.toFirst _ ((DiscreetIn.register _).bind fun _ =>
        .operates discreet (.typeOf _)))
  | pushTrap => exact pushTrap first wide
  | popTrap => exact popTraps _
  | throw => exact stays ((DiscreetIn.register _).bind fun _ => .raise rfl)
  | resume =>
      refine (DiscreetIn.register _).inside_bind inside high fun value next _ => ?_
      cases value with
      | generator ref => exact resumeInto ref _ _
      | _ => exact raise _
  | foreach =>
      exact (iterate discreet inside high performs (by simp [Instruction.operands]) :)
  | postForeach => exact finishIteration inside high first wide
  | call | tailCall | ret | yield => exact pure ()

/-- Every instruction looks at the registers of its run loop only. -/
theorem dispatch (whole : scope.mark = scope.root)
    (performs : frame.Performs prototype instruction) :
    Oblivious veil (Exec.dispatch .direct engine instruction) machine := by
  have handedOut : DiscreetIn manners frame (Exec.handedOut .direct instruction) := by
    rw [Exec.handedOut]
    split
    · exact .register _
    · exact .pure _
  obtain ⟨op, first, wide, second, third⟩ := instruction
  cases op with
  | call =>
      refine (DiscreetIn.register _).inside_bind inside high fun callee next inside => ?_
      exact callInstruction discreet inside high (performs.calls (.inl rfl)) callee
  | tailCall =>
      refine (DiscreetIn.register _).inside_bind inside high fun callee next inside => ?_
      exact tailCall discreet inside high (performs.calls (.inr rfl)) callee
  | ret =>
      exact handedOut.inside_bind inside high fun value next inside =>
        returnValue inside whole high value
  | yield =>
      exact handedOut.inside_bind inside high fun value next inside =>
        yieldValue inside whole high value
  | _ => exact (perform discreet inside high performs).bind fun _ _ _ => pure _

end Oblivious

/-! ## Recovery from faults -/

namespace Oblivious

theorem discardFrame : Oblivious veil Exec.discardFrame machine := by
  refine ofFiber_bind ?_ rfl
  cases machine.fiber.stack.current? with
  | none => exact pure ()
  | some frame =>
      exact bind (onFrames rfl rfl) fun _ _ _ => (killGenerator frame).bind fun _ _ _ => count _

theorem discardFrames (number : Nat) : Oblivious veil (Exec.discardFrames number) machine := by
  induction number generalizing machine with
  | zero => exact pure ()
  | succ number ih => exact discardFrame.bind fun _ _ _ => ih

theorem unwindTo (root : Nat) : Oblivious veil (Exec.unwindTo root) machine :=
  ofFiber_bind ((discardFrames _).bind fun _ _ _ => onFiber rfl rfl) rfl

/-- The frame with the trap belongs to the run loop. -/
theorem enterTrap (within : start.Within scope machine) {trap : Trap}
    (above : scope.mark ≤ trap.frame)
    (found : machine.fiber.stack.frames[trap.frame]? = some frame) (guards : trap.Guards frame)
    (low : ∀ other ∈ machine.fiber.traps, other.frame ≤ trap.frame)
    (high : veil.floor ≤ frame.base) (fault : Fault) :
    Oblivious veil (Exec.enterTrap trap fault) machine := by
  have inside : trap.frame < machine.fiber.stack.depth := (Array.getElem?_eq_some_iff.mp found).1
  refine ofFiber_bind (bind_meets (meets_discardFrames within (by omega) fun other member => ?_)
    (discardFrames _) ?_) rfl
  · have := low other member
    omega
  rintro _ shed ⟨sheds, depth⟩
  have place : shed.fiber.stack.frames[shed.fiber.stack.depth - 1]? = some frame := by
    have last : shed.fiber.stack.depth - 1 = trap.frame := by omega
    rw [last, sheds.frames trap.frame (by omega)]
    exact found
  have current : shed.fiber.stack.current? = some frame := by
    rw [Stack.current?, Array.back?_eq_getElem?]
    exact place
  have kept : veil.floor ≤ trap.stackTop :=
    Nat.le_trans high (Nat.le_trans (Nat.le_add_right _ _) guards.window)
  refine ok_bind rfl (truncate kept) (frame_bind fun own same => ?_)
  obtain rfl := Option.some.inj (current.symm.trans same)
  refine ok_bind rfl (goTo _) (bind_meets (ensure_frames _) (ensure _) fun _ next frames => ?_)
  have moved : next.fiber.stack.current? = some { frame with ip := trap.ip } := by
    rw [Stack.current?, frames]
    exact current_goTo current trap.ip
  refine (setRegister (base_of_current moved ▸ high) _).bind fun _ _ _ => ?_
  exact (count _).bind fun _ _ _ => note _ fault

theorem recover (failing : start.Failing manners scope fault machine)
    (whole : scope.mark = scope.root) (high : veil.floor ≤ scope.floor) :
    Oblivious veil (Exec.recover fault scope.root) machine := by
  have giveUp : Oblivious veil (Exec.unwindTo scope.root >>= fun _ => Exec.passOn fault : Exec Unit)
      machine := (unwindTo _).bind fun _ _ _ => passOn fault
  have sound := failing.sound.fiber.activity
  refine ofFiber_bind ?_ rfl
  cases listed : machine.fiber.traps with
  | nil => exact giveUp
  | cons trap rest =>
      have here : machine.fiber.activity.traps = trap :: rest := listed
      have ordered := sound.ordered
      rw [here] at ordered
      dsimp only
      split
      · rename_i caught
        obtain ⟨frame, found, guards⟩ := sound.owned trap (here ▸ List.mem_cons_self)
        have base : scope.floor ≤ frame.base :=
          failing.toWithin.floor_le (whole ▸ caught.1) found
        have freed : (machine.mapFiber fun fiber => { fiber with traps := rest }).Sound :=
          failing.sound.dropTraps (listed ▸ List.sublist_cons_self trap rest)
        exact onFiber_bind (enterTrap (freed.within failing.rooted caught.1 found)
          (Nat.le_refl _) found guards (List.pairwise_cons.mp ordered).1 (Nat.le_trans high base)
          fault) rfl rfl
      · exact giveUp

/-! ## Run loops -/

theorem fetch : Oblivious veil Exec.fetch machine := by
  refine frame_bind fun frame _ => ?_
  split
  · exact (goTo _).bind fun _ _ _ => pure _
  · exact pure _

variable (discreet : engine.Discreet manners)
  (high : veil.floor ≤ scope.floor) (whole : scope.mark = scope.root)
  (running : start.Running manners scope machine)

include discreet high whole running

theorem turn : Oblivious veil (Exec.turn engine scope.root) machine := by
  obtain ⟨instruction, next, frame, fetched, inside, performs⟩ := fetches running
  refine ok_bind fetched fetch ?_
  have steps : (step engine instruction).Meets next (start.Flows manners scope)
      (start.Failing manners scope) (start.Reaches manners) ∧
      Oblivious veil (step engine instruction) next := by
    cases instruction with
    | none => exact ⟨meets_returnValue inside .null, returnValue inside whole high .null⟩
    | some instruction =>
        obtain ⟨prototype, performs⟩ := performs instruction rfl
        exact ⟨meets_dispatch discreet.calls discreet.natives inside performs,
          dispatch discreet inside high whole performs⟩
  refine attempt_bind steps.1 steps.2 (fun flow _ _ => ?_) fun fault _ failing => ?_
  · cases flow with
    | proceed | finish | suspend => exact pure _
  · exact (recover failing whole high).bind fun _ _ _ => pure _

theorem loop (steps : Nat) : Oblivious veil (Exec.loop engine scope.root steps) machine := by
  induction steps generalizing machine with
  | zero => exact exhaust
  | succ steps ih =>
      refine bind_meets (meets_turn discreet.calls discreet.natives running)
        (turn discreet high whole running) fun result next turned => ?_
      cases result with
      | none => exact ih (turned.2 (whole ▸ turned.1))
      | some outcome => exact pure outcome

theorem runFrames (steps : Nat) :
    Oblivious veil (Exec.runFrames engine steps scope.root) machine := by
  refine get_bind (ofFiber_bind ?_ rfl) fun _ => rfl
  split
  · exact (unwindTo _).bind fun _ _ _ => raise_bind _
  · have loops := loop discreet high whole running.nested steps
    refine onFiber_bind (ensuring loops ?_ ?_ ?_) rfl rfl
    · exact fun _ _ => rfl
    · exact fun _ suits => suits.congr rfl rfl
    · exact fun _ => .of_eq rfl rfl

end Oblivious

end Exec

end ScriptMachine
