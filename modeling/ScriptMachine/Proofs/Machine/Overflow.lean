import ScriptMachine.Proofs.Heap.Survival
import ScriptMachine.Proofs.Machine.Faithful
import ScriptMachine.Proofs.Machine.Services

/-!
# Overflows of native calls

An overflow of native calls is fatal: no trap catches it, and every run loop, call, entry and
thread passes it on.  Only the creation of a closure hides it, when looking for a captured slot
overflows.  So a host whose functions leave faults alone sees the overflow, unless a replacement
has been written down.
-/

namespace ScriptMachine

open Exec

variable {α β : Type}

/-- The computation puts things right and fails with a fault that has been raised before. -/
def Exec.Rethrows (honest : Prop) (fault : Fault) (machine : Machine) (action : Exec α) :
    Prop :=
  action.Meets machine (fun _ _ => False)
    (fun given next => given = fault ∧ machine.Carries honest none next)
    (fun next => machine.Cuts honest next ∧ machine.reporting < next.reporting)

namespace Exec.Rethrows

variable {honest : Prop} {machine next : Machine} {fault : Fault}

theorem passOn (roomy : machine.Roomy) :
    Rethrows honest fault machine (Exec.passOn fault : Exec α) :=
  ⟨rfl, roomy.quiet.carries none⟩

theorem after {action : Exec β} {following : β → Exec α} {value : β}
    (result : action machine = .ok value next) (quiet : machine.Quiet next)
    (rest : Rethrows honest fault next (following value)) :
    Rethrows honest fault machine (action >>= following) := by
  refine Meets.ok_bind result (Meets.mono rest (fun _ _ => id) ?_ ?_)
  · rintro given last ⟨same, settles⟩
    exact ⟨same, (quiet.carries none).trans settles⟩
  · rintro last ⟨cuts, told⟩
    exact ⟨(quiet.carries none).cuts cuts, quiet.reporting ▸ told⟩

theorem calm {action : Exec β} {following : β → Exec α} (calm : Calm action)
    (roomy : machine.Roomy)
    (rest : ∀ value next, next.Roomy → Rethrows honest fault next (following value)) :
    Rethrows honest fault machine (action >>= following) := by
  obtain ⟨value, next, result, quiet⟩ := calm machine roomy
  exact after result quiet (rest value next quiet.roomy)

end Exec.Rethrows

namespace Exec.Faithful

variable {honest : Prop} {machine : Machine} {action : Exec α}

/-! ## Faults that are looked at -/

/-- A computation that is tried may fail in the end with the same fault after putting things
right. -/
theorem attempt_bind {following : Except Fault α → Exec β} (first : Faithful honest action)
    (roomy : machine.Roomy) (whenDone : ∀ value, Faithful honest (following (.ok value)))
    (whenFailed : ∀ fault next, next.Roomy →
      next.fiber.stack.maxSlots = machine.fiber.stack.maxSlots →
      Rethrows honest fault next (following (.error fault))) :
    FaithfulAt honest (Exec.attempt action >>= following) machine := by
  refine (first machine roomy).attempt_bind (fun value next carries => ?_)
    fun fault next carries => ?_
  · exact (whenDone value next carries.roomy).after carries
  · refine (whenFailed fault next carries.roomy carries.maxSlots).mono (fun _ _ => False.elim) ?_ ?_
    · rintro _ last ⟨rfl, settles⟩
      exact carries.settle settles
    · rintro last ⟨⟨new, further, _⟩, told⟩
      obtain ⟨stands, added, adds, _⟩ := carries
      exact ⟨new ++ added, adds.trans further, fun _ _ => stands.reporting ▸ told⟩

/-- Going back to a number of registers that the fiber had before cannot fail. -/
theorem resize_eq {size : Nat} (roomy : machine.Roomy)
    (fits : size ≤ machine.fiber.stack.maxSlots) :
    ∃ next, Exec.resize size machine = .ok () next ∧ machine.Quiet next := by
  obtain ⟨_, between, cut, quiet⟩ := Calm.truncate size machine roomy
  have room : between.fiber.stack.fits size = true := by
    simpa [Stack.fits, quiet.maxSlots] using fits
  refine ⟨between.mapStack (·.grow size), ?_, quiet.trans (quiet.roomy.mapStack ?_ ?_)⟩
  · rw [Exec.resize, Exec.ok_bind cut]
    simp [Exec.ensure, Exec.requireRoom, Exec.ofFiber, Bind.bind, EStateM.bind, room, Pure.pure,
      EStateM.pure, Exec.onStack]
  · exact Stack.maxSlots_grow _ size
  · have fits : size ≤ between.fiber.stack.maxSlots := by simpa [Stack.fits] using room
    have former : between.fiber.stack.size ≤ between.fiber.stack.maxSlots := quiet.roomy.fiber
    rw [Stack.size_grow]
    omega

/-! ## Calls -/

theorem prepareArguments (routine : Routine) (base count : Nat) :
    Faithful honest (Exec.prepareArguments routine base count) := by
  have collect : Faithful honest (if routine.isVariadic then do
      let last := routine.parameterCount - 1
      let extra ← Exec.takeRange (base + last) (base + count)
      Exec.setPlace (base + last) (← Exec.newArray extra)
      else Pure.pure () : Exec Unit) := by
    split
    · refine (takeRange _ _).bind fun extra => bind ?_ fun _ => setPlace _ _
      exact (alloc (by decide) _).bind fun _ => pure _
    · exact pure ()
  rw [Exec.prepareArguments]
  split
  · exact collect
  · exact (raise _).bind fun _ => collect

theorem enterClosure (ref : Ref .closure) (base count : Nat) (target : Option UInt8)
    (isRoot : Bool) : Faithful honest (Exec.enterClosure ref base count target isRoot) :=
  (view _).bind fun closure => (prepareArguments closure.routine base count).bind fun _ =>
    (pushFrame _).bind fun _ => Faithful.count fun _ => by rfl

theorem createGenerator (ref : Ref .closure) (base count : Nat) :
    Faithful honest (Exec.createGenerator ref base count) :=
  (view _).bind fun closure => (prepareArguments closure.routine base count).bind fun _ =>
    (takeRange _ _).bind fun _ => (alloc (by decide) _).bind fun _ =>
      (Faithful.count fun _ => by rfl).bind fun _ => pure _

section

variable {engine : Engine} (faithful : engine.Faithful honest)

include faithful

theorem callNative (ref : Ref .native) (base count : Nat) :
    Faithful honest (Exec.callNative engine ref base count) := by
  have runs : ∀ native : Native, Faithful honest (do
      Exec.onFiber fun fiber =>
        { fiber with
          nativeCalls := fiber.nativeCalls + 1
          natives := ⟨ref, base, count⟩ :: fiber.natives
          counters := { fiber.counters with nativeCalls := fiber.counters.nativeCalls + 1 } }
      Exec.ensuring (·.mapFiber fun fiber =>
        { fiber with nativeCalls := fiber.nativeCalls - 1, natives := fiber.natives.tail })
        (engine.native native.symbol)) := by
    refine fun native => bind (Calm.faithful (.of_quiet fun _ roomy => ?_)) fun _ =>
      ensuring ?_ fun _ roomy => ?_
    · exact roomy.mapFiber rfl (Nat.le_succ _)
    · exact faithful.natives native.symbol
    · exact roomy.mapFiber rfl (Nat.le_refl _)
  refine (view _).bind fun native => (view _).bind fun arguments => (ofExcept _).bind fun _ =>
    (view _).bind fun former => (view _).bind fun active => ?_
  dsimp only
  split
  · exact (raise _).bind fun _ => runs native
  · exact runs native

theorem construct (ref : Ref .cls) (base count : Nat) :
    Faithful honest (Exec.construct engine ref base count) := by
  refine (operation faithful (.instantiate ref)).bind fun object => (view _).bind fun cls => ?_
  split
  · exact pure _
  · refine (setPlace _ _).bind fun _ => bind ?_ fun _ => pure _
    exact keeping _ (faithful.calls _ base count).discard

theorem callValue (callee : Value) (base count : Nat) (target : Option UInt8) (isRoot : Bool) :
    Faithful honest (Exec.callValue engine callee base count target isRoot) := by
  cases callee with
  | closure ref =>
      refine (view _).bind fun closure => ?_
      split
      · exact (createGenerator ref base count).bind fun _ => pure _
      · exact (enterClosure ref base count target isRoot).bind fun _ => pure _
  | native ref =>
      refine (callNative faithful ref base count).bind fun returned => ?_
      cases returned with
      | value | nothing | suspend => exact pure _
  | cls ref => exact (construct faithful ref base count).bind fun _ => pure _
  | _ =>
      refine (view _).bind fun handler => ?_
      cases handler with
      | none => exact raise _
      | some handler =>
          exact (view _).bind fun _ => (callSync faithful _ _ _).bind fun _ => pure _

end

/-- A call that waits for its result puts the registers right before it fails. -/
theorem awaiting {body : Exec Outcome} (first : Faithful honest body) (roomy : machine.Roomy)
    {size : Nat} (fits : size ≤ machine.fiber.stack.maxSlots) :
    FaithfulAt honest (do
      Exec.onFiber fun fiber => { fiber with syncCalls := fiber.syncCalls + 1 }
      let result ← Exec.attempt body
      Exec.onFiber fun fiber => { fiber with syncCalls := fiber.syncCalls - 1 }
      Exec.resize size
      match ← Exec.ofResult result with
      | .completed value => return value
      | .suspended _ => Exec.raise .nestedSuspension : Exec Value) machine := by
  have entered : machine.Quiet (machine.mapFiber fun fiber =>
      { fiber with syncCalls := fiber.syncCalls + 1 }) := roomy.mapFiber rfl (Nat.le_refl _)
  refine Meets.onFiber_bind ((first.attempt_bind entered.roomy (fun outcome => ?_)
    fun fault next room same => ?_).after (entered.carries none))
  · refine bind (onFiber (fun _ => rfl) fun _ => rfl) fun _ => (resize size).bind fun _ =>
      (pure outcome).bind fun outcome => ?_
    cases outcome with
    | completed value => exact pure value
    | suspended value => exact raise _
  · have left : next.Quiet (next.mapFiber fun fiber =>
        { fiber with syncCalls := fiber.syncCalls - 1 }) := room.mapFiber rfl (Nat.le_refl _)
    have fits : size ≤ (next.mapFiber fun fiber =>
        { fiber with syncCalls := fiber.syncCalls - 1 }).fiber.stack.maxSlots :=
      left.maxSlots.trans same ▸ fits
    obtain ⟨last, result, quiet⟩ := resize_eq left.roomy fits
    exact .after rfl left (.after result quiet (.passOn quiet.roomy))

/-- Where a fault is replaced, an overflow that comes to nothing is written down. -/
theorem replacing (fault : Fault) {following : Except Fault α → Exec β}
    (first : Faithful honest action) (whenDone : ∀ value, Faithful honest (following (.ok value)))
    (whenFailed : ∀ cause, following (.error cause) = Exec.replaceFault cause fault) :
    Faithful honest (Exec.attempt action >>= following) := by
  intro machine roomy
  refine (first machine roomy).attempt_bind (fun value next carries => ?_)
    fun cause next carries => ?_
  · exact (whenDone value next carries.roomy).after carries
  · rw [whenFailed]
    obtain ⟨stands, added, adds, passes⟩ := carries
    refine ⟨stands.trans (stands.roomy.stands_note _ _), _,
      adds.trans (next.adds_note (by simp)), fun holds overflowed => ?_⟩
    have kept := overflowed.kept (next.incident (.replaced cause) fault) (by simp) stands.reporting
    have before : Overflowed machine.reporting added := by
      rcases overflowed.of_append with new | old
      · obtain ⟨incident, member, _, raised, _⟩ := new.raised
        obtain rfl := List.mem_singleton.mp member
        exact absurd raised (by simp [Machine.incident])
      · exact old
    obtain rfl := Option.some.inj (passes holds before)
    exact absurd rfl kept

section

variable {engine : Engine} (faithful : engine.Faithful honest)

include faithful

theorem callAt (callee : Value) (base count : Nat) :
    Faithful honest (Exec.callAt engine callee base count) := by
  intro machine roomy
  refine Meets.ofFiber_bind (Meets.ofFiber_bind (awaiting ?_ roomy roomy.fiber))
  refine (callValue faithful callee base count none true).bind fun start => ?_
  cases start with
  | pushed => exact faithful.runs _
  | done value => exact pure _
  | suspend value => exact raise _

/-! ## Captured variables -/

theorem captureCell (creator : Closure) (source : CaptureSource) :
    Faithful honest (Exec.captureCell .direct engine creator source) := by
  have fresh : ∀ value : Content .cell, Faithful honest (Exec.alloc value) :=
    fun _ => alloc (by decide) _
  cases source with
  | register number =>
      rw [Exec.captureCell]
      split
      · exact (raise _).bind fun _ => (register _).bind fresh
      · exact (register _).bind fresh
  | outer index => exact ofExcept _
  | symbol name =>
      refine (register 0).bind fun this =>
        replacing (.missingKey name) (operation faithful (.getSlot _ _)) ?_ ?_
      · exact fresh
      · exact fun _ => rfl

theorem captureCells (creator : Closure) (captures : List Capture) (cells : Array (Ref .cell)) :
    Faithful honest (Exec.captureCells .direct engine creator captures cells) := by
  induction captures generalizing cells with
  | nil => exact pure cells
  | cons capture rest ih =>
      exact (keeping _ (captureCell faithful creator capture.source)).bind fun _ => ih _

theorem makeClosure (target : UInt8) (index : Int32) :
    Faithful honest (Exec.makeClosure .direct engine target index) := by
  refine frame.bind fun current => ?_
  dsimp only
  split
  · exact raise _
  · exact (captureCells faithful _ _ _).bind fun cells => (alloc (by decide) _).bind fun _ =>
      setRegister target _

omit faithful in
theorem outerCell (index : Int32) : Faithful honest (Exec.outerCell index) := by
  refine frame.bind fun current => ?_
  split
  · exact (raise _).bind fun _ => ofExcept _
  · exact ofExcept _

end

/-! ## Activations -/

theorem killGenerator_calm (frame : Frame) : Calm (Exec.killGenerator frame) := by
  rw [Exec.killGenerator]
  split
  · exact Calm.update (by decide) _ _
  · exact Calm.pure ()

theorem leaveFrame (frame : Frame) (value : Value) :
    Faithful honest (Exec.leaveFrame frame value) := by
  refine (view _).bind fun depth => bind (onFiber (fun _ => rfl) fun _ => rfl) fun _ => ?_
  split
  · exact pure _
  · exact Faithful.frame.bind fun caller => (resize _).bind fun _ => (deliver _ _).bind fun _ =>
      pure _

theorem returnValue (value : Value) : Faithful honest (Exec.returnValue value) :=
  popFrame.bind fun frame => (killGenerator_calm frame).faithful.bind fun _ =>
    leaveFrame frame value

theorem replaceFrame (ref : Ref .closure) (instruction : Instruction) :
    Faithful honest (Exec.replaceFrame .direct ref instruction) :=
  bind ((view _).bind fun _ => pure _) fun _ => popFrame.bind fun _ =>
    (takeRange _ _).bind fun _ => (clearRange _ _).bind fun _ =>
      (forM fun _ => setPlace _ _).bind fun _ => (enterClosure _ _ _ _ _).bind fun _ =>
        (Faithful.count fun _ => by rfl).bind fun _ => pure _

theorem yieldValue (value : Value) : Faithful honest (Exec.yieldValue value) := by
  refine frame.bind fun current => ?_
  split
  · exact raise _
  · refine (view _).bind fun depth => popFrame.bind fun frame => (view _).bind fun own =>
      bind (onFiber (fun _ => rfl) fun _ => rfl) fun _ => (takeRange _ _).bind fun window =>
        (update (by decide) _ _).bind fun _ => leaveFrame frame value

theorem resumeInto (ref : Ref .generator) (target : Option UInt8) (isRoot : Bool) :
    Faithful honest (Exec.resumeInto ref target isRoot) := by
  refine (view _).bind fun generator => ?_
  split
  · exact raise _
  · exact raise _
  · refine (view _).bind fun closure => (view _).bind fun base => (update (by decide) _ _).bind
      fun _ machine roomy => attempt_bind ?_ roomy (fun _ => ?_) fun fault next room _ => ?_
    · rw [forM_array]
      exact (forM push).bind fun _ => pushFrame _
    · exact (view _).bind fun depth => bind (onFiber (fun _ => rfl) fun _ => rfl) fun _ =>
        Faithful.count fun _ => by rfl
    · refine .calm (.truncate base) room fun _ _ room => .calm (.update (by decide) ref _) room ?_
      exact fun _ _ room => .passOn room

section

variable {engine : Engine} (faithful : engine.Faithful honest)

include faithful

theorem callInstruction (callee : Value) (instruction : Instruction) :
    Faithful honest (Exec.callInstruction .direct engine callee instruction) := by
  refine bind ((view _).bind fun _ => pure _) fun base =>
    (callValue faithful callee _ _ _ _).bind fun start => ?_
  cases start with
  | pushed => exact pure _
  | done value => exact (deliverDirect _ _).bind fun _ => pure _
  | suspend value =>
      have suspends : Faithful honest (do
          Exec.onFiber fun fiber =>
            { fiber with suspended := some ⟨instruction.target?.map Access.direct.handOn, 0, 0⟩ }
          return .suspend value : Exec Flow) :=
        bind (onFiber (fun _ => rfl) fun _ => rfl) fun _ => pure _
      refine (view _).bind fun can => ?_
      split
      · exact suspends
      · exact (raise _).bind fun _ => suspends

theorem tailCall (callee : Value) (instruction : Instruction) :
    Faithful honest (Exec.tailCall .direct engine callee instruction) := by
  cases callee with
  | closure ref =>
      refine (view _).bind fun closure => frame.bind fun current => bind ?_ fun replaces => ?_
      · exact (view _).bind fun _ => (view _).bind fun _ => pure _
      · split
        · exact replaceFrame ref instruction
        · exact callInstruction faithful _ _
  | _ => exact callInstruction faithful _ _

theorem resumeGenerator (ref : Ref .generator) :
    Faithful honest (Exec.resumeGenerator engine ref) := by
  intro machine roomy
  refine Meets.ofFiber_bind (Meets.ofFiber_bind (awaiting ?_ roomy roomy.fiber))
  exact (resumeInto ref none true).bind fun _ => faithful.runs _

end

/-! ## Recovery -/

theorem discardFrames_calm (count : Nat) : Calm (Exec.discardFrames count) := by
  have discard : Calm Exec.discardFrame := by
    refine (Calm.view _).bind fun current => ?_
    split
    · exact Calm.pure ()
    · exact Calm.leave.bind fun _ => (killGenerator_calm _).bind fun _ =>
        Calm.count fun _ => by rfl
  induction count with
  | zero => exact Calm.pure ()
  | succ count ih => exact discard.bind fun _ => ih

theorem unwindTo_calm (root : Nat) : Calm (Exec.unwindTo root) :=
  (Calm.view _).bind fun depth => (discardFrames_calm (depth - root)).bind fun _ =>
    Calm.onFiber (fun _ => rfl) fun _ => rfl

theorem pushTrap (target : UInt8) (offset : Int32) :
    Faithful honest (Exec.pushTrap .direct target offset) := by
  refine frame.bind fun current => ?_
  dsimp only
  split
  · exact (raise _).bind fun _ => (view _).bind fun _ => (view _).bind fun _ =>
      onFiber (fun _ => rfl) fun _ => rfl
  · exact (view _).bind fun _ => (view _).bind fun _ => onFiber (fun _ => rfl) fun _ => rfl

theorem popTraps (count : Nat) : Faithful honest (Exec.popTraps count) := by
  induction count with
  | zero => exact pure ()
  | succ count ih =>
      refine (view _).bind fun depth => (view _).bind fun traps => ?_
      split
      · split
        · exact bind (onFiber (fun _ => rfl) fun _ => rfl) fun _ => ih
        · exact raise _
      · exact raise _

theorem enterTrap (trap : Trap) {fault : Fault} (mild : fault ≠ .nativeStackOverflow) :
    Faithful honest (Exec.enterTrap trap fault) := by
  refine (view _).bind fun depth => (discardFrames_calm _).faithful.bind fun _ =>
    (truncate _).bind fun _ => frame.bind fun current => (goTo _).bind fun _ =>
      (ensure _).bind fun _ => (setRegister _ _).bind fun _ =>
        (Faithful.count fun _ => by rfl).bind fun _ => ?_
  intro machine roomy
  refine ⟨roomy.stands_note _ _, _, machine.adds_note fun _ _ => mild, fun _ overflowed => ?_⟩
  obtain ⟨incident, member, _, raised, _⟩ := overflowed.raised
  obtain rfl := List.mem_singleton.mp member
  exact absurd raised (by simp [Machine.incident])

/-- A trap catches no overflow, and without a trap a fault is passed on. -/
theorem recover {before : Machine} {fault : Fault} (root : Nat)
    (carries : before.Carries honest (some fault) machine) :
    (Exec.recover fault root).Meets machine (fun _ => before.Carries honest none)
      (fun fault => before.Carries honest (some fault)) (before.Cuts honest) := by
  have gives : (Exec.unwindTo root >>= fun _ => (Exec.passOn fault : Exec Unit)).Meets machine
      (fun _ => before.Carries honest none) (fun fault => before.Carries honest (some fault))
      (before.Cuts honest) := by
    obtain ⟨_, next, result, quiet⟩ := unwindTo_calm root machine carries.roomy
    rw [Meets, Exec.ok_bind result]
    exact carries.quiet quiet
  refine Meets.ofFiber_bind ?_
  split
  · split
    · rename_i trap rest same live
      have mild : fault ≠ .nativeStackOverflow := by
        rintro rfl
        exact absurd live.2 (by decide)
      have caught := carries.caught mild
      have dropped : machine.Quiet (machine.mapFiber fun fiber => { fiber with traps := rest }) :=
        carries.roomy.mapFiber rfl (Nat.le_refl _)
      exact Meets.onFiber_bind ((enterTrap trap mild _ dropped.roomy).after (caught.quiet dropped))
    · exact gives
  · exact gives

/-! ## Instructions -/

theorem jump (offset : Int32) : Faithful honest (Exec.jump offset) := by
  refine frame.bind fun current => ?_
  dsimp only
  split
  · exact (raise _).bind fun _ => goTo _
  · exact goTo _

theorem finishIteration (container : UInt8) (exit : Int32) :
    Faithful honest (Exec.finishIteration .direct container exit) := by
  refine (register _).bind fun container => ?_
  split
  · refine (view _).bind fun generator => ?_
    split
    · exact jump exit
    · exact pure ()
  · exact pure ()

theorem readWide (wide : Int32) : Faithful honest (Access.direct.readWide wide) := register _

theorem toFirst {instruction : Instruction} {value : Exec Value}
    (faithful : Faithful honest value) :
    Faithful honest (Exec.toFirst .direct instruction value) :=
  faithful.bind fun _ => setRegister _ _

theorem operandsEqual (instruction : Instruction) :
    Faithful honest (Exec.operandsEqual .direct instruction) := by
  refine bind ?_ fun right => (register _).bind fun left => pure _
  rw [Exec.equalityOperand]
  split
  · exact literal _
  · exact readWide _

theorem shortCircuit (instruction : Instruction) (truth : Bool) :
    Faithful honest (Exec.shortCircuit .direct instruction truth) := by
  refine (register _).bind fun value => ?_
  split
  · exact (setRegister _ _).bind fun _ => jump _
  · exact pure ()

theorem append (instruction : Instruction) : Faithful honest (Exec.append .direct instruction) := by
  refine bind ?_ fun value => (register _).bind fun target => ?_
  · rw [Exec.appended]
    split
    · exact readWide _
    · exact literal _
    · exact pure _
    · exact raise _
  · split
    · exact update (by decide) _ _
    · exact raise _

theorem handedOut (instruction : Instruction) :
    Faithful honest (Exec.handedOut .direct instruction) := by
  rw [Exec.handedOut]
  split
  · exact readWide _
  · exact pure _

section

variable {engine : Engine} (faithful : engine.Faithful honest)

include faithful

theorem iterationStep (container cursor : Value) (registers : IterationRegisters) :
    Faithful honest (Exec.iterationStep .direct engine container cursor registers) := by
  cases container with
  | generator ref =>
      refine (view _).bind fun generator => ?_
      split
      · exact pure _
      · exact (ofExcept _).bind fun _ => (setRegister _ _).bind fun _ => (setRegister _ _).bind
          fun _ => (resumeInto _ _ _).bind fun _ => pure _
  | _ => exact operation faithful (.iterationStep _ _ _ (by simp))

theorem iterate (container first : UInt8) (exit : Int32) :
    Faithful honest (Exec.iterate .direct engine container first exit) := by
  refine (register _).bind fun container => (ofExcept _).bind fun registers =>
    (register _).bind fun cursor => (iterationStep faithful _ _ _).bind fun step => ?_
  cases step with
  | item key value next =>
      exact (setRegister _ _).bind fun _ => (setRegister _ _).bind fun _ => setRegister _ _
  | resumed => exact pure ()
  | done => exact jump exit

theorem newObject (instruction : Instruction) :
    Faithful honest (Exec.newObject .direct engine instruction) := by
  rw [Exec.newObject]
  split
  · exact (alloc (by decide) _).bind fun _ => pure _
  · exact (alloc (by decide) _).bind fun _ => pure _
  · exact operates faithful (.newClass _)
  · exact raise _

theorem prepareCall (instruction : Instruction) {key : Exec Value} (keyed : Faithful honest key) :
    Faithful honest (Exec.prepareCall .direct engine instruction key) :=
  (register _).bind fun _ => keyed.bind fun _ => (operation faithful (.getSlot _ _)).bind fun _ =>
    (setRegister _ _).bind fun _ => setRegister _ _

theorem arithInstruction (op : ArithOp) (instruction : Instruction) :
    Faithful honest (Exec.arithInstruction .direct engine op instruction) :=
  (readWide _).bind fun _ => (register _).bind fun _ => toFirst (operation faithful (.arith _ _ _))

theorem perform (instruction : Instruction) :
    Faithful honest (Exec.perform .direct engine instruction) := by
  obtain ⟨op, first, wide, second, third⟩ := instruction
  cases op with
  | load => exact toFirst (literal _)
  | loadInt | loadFloat | loadBool => exact setRegister _ _
  | loadNulls =>
      exact bind ((view _).bind fun _ => pure _) fun _ => (ensure _).bind fun _ => clearRange _ _
  | loadRoot => exact (view _).bind fun _ => setRegister _ _
  | move => exact toFirst (readWide _)
  | get =>
      exact (readWide _).bind fun _ => (register _).bind fun _ =>
        toFirst (operation faithful (.getSlot _ _))
  | getK =>
      exact (register _).bind fun _ => (literal _).bind fun _ =>
        toFirst (operation faithful (.getSlot _ _))
  | set =>
      exact (readWide _).bind fun _ => (register _).bind fun _ => (register _).bind fun _ =>
        (operation faithful (.setSlot _ _ _)).bind fun _ => deliverDirect _ _
  | newSlot =>
      exact (readWide _).bind fun _ => (register _).bind fun _ => (register _).bind fun _ =>
        (operation faithful (.newSlot _ _ _)).bind fun _ => deliverDirect _ _
  | delete =>
      exact (readWide _).bind fun _ => (register _).bind fun _ =>
        toFirst (operation faithful (.deleteSlot _ _))
  | add | sub | mul | div | mod => exact arithInstruction faithful _ _
  | bitw =>
      refine (readWide _).bind fun left => (register _).bind fun right => ?_
      split
      · exact toFirst (ofExcept _)
      · exact raise _
  | neg => exact toFirst ((readWide _).bind fun _ => operation faithful (.negate _))
  | not => exact toFirst ((readWide _).bind fun _ => pure _)
  | cmp =>
      refine (readWide _).bind fun left => (register _).bind fun right => ?_
      split
      · exact toFirst ((operation faithful (.order _ _)).bind fun _ => pure _)
      · exact raise _
  | eq | ne => exact toFirst ((operandsEqual _).bind fun _ => pure _)
  | jmp => exact jump _
  | jz =>
      refine (register _).bind fun value => ?_
      split
      · exact pure ()
      · exact jump _
  | and | or => exact shortCircuit _ _
  | prepCall => exact prepareCall faithful _ (readWide _)
  | prepCallK => exact prepareCall faithful _ (literal _)
  | closure => exact makeClosure faithful _ _
  | getOuter => exact (outerCell _).bind fun _ => toFirst (view _)
  | setOuter =>
      exact (register _).bind fun _ => (outerCell _).bind fun _ =>
        (update (by decide) _ _).bind fun _ => deliverDirect _ _
  | newObj => exact toFirst (newObject faithful _)
  | appendArray => exact append _
  | delegate =>
      exact (readWide _).bind fun _ => (register _).bind fun _ =>
        (operation faithful (.setDelegate _ _)).bind fun _ => setRegister _ _
  | instanceOf =>
      exact (readWide _).bind fun _ => (register _).bind fun _ =>
        toFirst ((operation faithful (.instanceOf _ _)).bind fun _ => pure _)
  | typeOf => exact toFirst ((readWide _).bind fun _ => operation faithful (.typeOf _))
  | pushTrap => exact pushTrap _ _
  | popTrap => exact popTraps _
  | throw => exact (register _).bind fun _ => raise _
  | resume =>
      refine (readWide _).bind fun value => ?_
      split
      · exact resumeInto _ _ _
      · exact raise _
  | foreach => exact iterate faithful _ _ _
  | postForeach => exact finishIteration _ _
  | call | tailCall | ret | yield => exact pure ()

theorem dispatch (instruction : Instruction) :
    Faithful honest (Exec.dispatch .direct engine instruction) := by
  rw [Exec.dispatch]
  split
  · exact (readWide _).bind fun _ => callInstruction faithful _ _
  · exact (readWide _).bind fun _ => tailCall faithful _ _
  · exact (handedOut _).bind fun _ => returnValue _
  · exact (handedOut _).bind fun _ => yieldValue _
  · exact (perform faithful _).bind fun _ => pure _

end

/-! ## Run loops -/

theorem fetch : Faithful honest Exec.fetch := by
  refine frame.bind fun current => ?_
  split
  · exact (goTo _).bind fun _ => pure _
  · exact pure _

theorem turn {engine : Engine} (faithful : engine.Faithful honest) (root : Nat) :
    Faithful honest (Exec.turn engine root) := by
  have step : ∀ instruction, Faithful honest (Exec.step engine instruction) := by
    intro instruction
    cases instruction with
    | none => exact returnValue .null
    | some instruction => exact dispatch faithful instruction
  refine fetch.bind fun instruction machine roomy => ?_
  refine (step instruction machine roomy).attempt_bind (fun flow next carries => ?_)
    fun fault next carries => ?_
  · cases flow with
    | proceed | finish | suspend => exact carries
  · exact (recover root carries).bind fun _ _ => id

theorem loop {engine : Engine} (faithful : engine.Faithful honest) (root steps : Nat) :
    Faithful honest (Exec.loop engine root steps) := by
  induction steps with
  | zero => exact exhaust
  | succ steps ih =>
      refine (turn faithful root).bind fun outcome => ?_
      cases outcome with
      | none => exact ih
      | some outcome => exact pure outcome

theorem nestLoop (root : Nat) {body : Exec Outcome} (faithful : Faithful honest body) :
    Faithful honest (Exec.nestLoop root body) := by
  have nested : Faithful honest (do
      Exec.onFiber fun fiber =>
        { fiber with nativeCalls := fiber.nativeCalls + 1, nesting := fiber.nesting + 1 }
      Exec.ensuring (·.mapFiber fun fiber =>
        { fiber with nativeCalls := fiber.nativeCalls - 1, nesting := fiber.nesting - 1 })
        body) :=
    bind (onFiber (fun _ => rfl) fun _ => rfl) fun _ => faithful.ensuring fun _ roomy =>
      roomy.mapFiber rfl (Nat.le_refl _)
  refine (view _).bind fun former => (view _).bind fun active => ?_
  dsimp only
  split
  · exact (unwindTo_calm root).faithful.bind fun _ => (raise _).bind fun _ => nested
  · exact nested

end Exec.Faithful

/-! ## Entries -/

namespace Exec.Faithful

variable {engine : Engine} (faithful : engine.Faithful honest)

include faithful

/-- Whatever an error handler runs into is not the fault that it is told of. -/
theorem report (fault : Fault) {machine : Machine} (roomy : machine.Roomy) :
    (Exec.report engine fault).Meets machine (fun _ => machine.Carries honest none)
      (fun _ _ => False)
      (fun next => machine.Cuts honest next ∧ machine.reporting < next.reporting) := by
  refine Meets.get_bind ?_
  split
  · exact roomy.quiet.carries none
  · rename_i handler _
    have noted : machine.Adds (machine.note .reported fault)
        [machine.incident .reported fault] := machine.adds_note (by simp)
    -- The handler runs while one more of them is being run.
    let inside : Machine :=
      { machine.note .reported fault with handler := none, reporting := machine.reporting + 1 }
    have room : inside.Roomy := ⟨roomy.fiber, roomy.waiting, roomy.heap⟩
    have entered : machine.Adds inside [machine.incident .reported fault] :=
      ⟨Nat.le_succ _, rfl, noted.later, noted.uncaught⟩
    have apart : ∀ {added last}, inside.Adds last added → ¬ Overflowed machine.reporting
        (added ++ [machine.incident .reported fault]) := by
      intro added last adds overflowed
      obtain ⟨incident, member, level, raised, _⟩ := overflowed.raised
      rcases List.mem_append.mp member with member | member
      · have later : machine.reporting + 1 ≤ incident.reporting := adds.later incident member
        omega
      · obtain rfl := List.mem_singleton.mp member
        exact absurd raised (by simp [Machine.incident])
    have back : ∀ result last, inside.Carries honest result last →
        machine.Carries honest none
          { last with handler := some handler, reporting := last.reporting - 1 } := by
      rintro result last ⟨stands, added, adds, _⟩
      have whole := entered.trans adds
      have level : last.reporting - 1 = machine.reporting := congrArg (· - 1) stands.reporting
      have room := stands.roomy
      exact ⟨⟨⟨room.fiber, room.waiting, room.heap⟩, stands.waiting, level, stands.maxSlots,
        stands.limits, stands.held, stands.lent, stands.counted⟩, _,
        ⟨Nat.le_of_eq level.symm, whole.incidents, whole.later, whole.uncaught⟩,
        fun _ overflowed => absurd overflowed (apart adds)⟩
    have called := (callSync faithful handler (.table machine.root) [fault.toValue] inside
      room).mono (fun _ _ => id) (fun _ _ => id) fun last cuts => by
        obtain ⟨added, adds, _⟩ := cuts
        exact (⟨⟨_, entered.trans adds, fun _ overflowed => absurd overflowed (apart adds)⟩,
          adds.reporting⟩ : machine.Cuts honest last ∧ machine.reporting < last.reporting)
    refine Meets.ok_bind rfl (Meets.modify_bind (called.discard_attempt_bind ?_ ?_))
    · exact fun _ last carries => back none last carries
    · exact fun fault last carries => back (some fault) last carries

theorem finishEntry (point : EntryPoint) {body : Exec Outcome} (first : Faithful honest body) :
    Faithful honest (Exec.attempt body >>= Exec.finishEntry engine point) := by
  refine fun machine roomy => attempt_bind first roomy (fun outcome => ?_)
    fun fault next room _ => ?_
  · cases outcome with
    | completed value =>
        exact (truncate _).bind fun _ => bind (onFiber (fun _ => rfl) fun _ => rfl) fun _ => pure _
    | suspended value => exact bind (onFiber (fun _ => rfl) fun _ => rfl) fun _ => pure _
  · refine .calm (unwindTo_calm _) room fun _ _ room => .calm (.truncate _) room fun _ _ room =>
      .calm (.onFiber (fun _ => rfl) fun _ => rfl) room fun _ last room => ?_
    split
    · refine ((report faithful fault room).mono (fun _ _ => id) (fun _ _ => False.elim)
        fun _ => id).bind ?_
      exact fun _ _ settles => ⟨rfl, settles⟩
    · exact .passOn room

theorem beginEntry (point : EntryPoint) (callee this : Value) (arguments : List Value) :
    Faithful honest (Exec.beginEntry engine point callee this arguments) := by
  refine (pushArguments this arguments).bind fun _ => (callValue faithful _ _ _ _ _).bind
    fun start => ?_
  cases start with
  | pushed => exact faithful.runs _
  | done value => exact pure _
  | suspend value =>
      have suspends : Faithful honest (do
          Exec.onFiber fun fiber =>
            { fiber with suspended := some ⟨none, point.rootDepth, point.stackBase⟩ }
          return .suspended value : Exec Outcome) :=
        bind (onFiber (fun _ => rfl) fun _ => rfl) fun _ => pure _
      dsimp only
      split
      · exact suspends
      · exact (raise _).bind fun _ => suspends

theorem runWithThis (callee this : Value) (arguments : List Value) :
    Faithful honest (Exec.runWithThis engine callee this arguments) := by
  have runs : ∀ fiber : Fiber, Faithful honest (do
      let point : EntryPoint :=
        { stackBase := fiber.stack.size
          rootDepth := fiber.stack.depth
          previous := fiber.state
          outermost := fiber.isOutermost }
      Exec.onFiber fun fiber => { fiber with state := .running }
      let result ← Exec.attempt (Exec.beginEntry engine point callee this arguments)
      Exec.finishEntry engine point result) := fun fiber =>
    bind (onFiber (fun _ => rfl) fun _ => rfl) fun _ =>
      finishEntry faithful _ (beginEntry faithful _ _ _ _)
  refine (view _).bind fun fiber => ?_
  split
  · exact (raise _).bind fun _ => runs fiber
  · exact runs fiber

theorem continueAt (point : SuspendPoint) (value : Value) :
    Faithful honest (Exec.continueAt engine point value) := by
  refine (view _).bind fun depth => ?_
  split
  · exact pure _
  · exact (deliver _ _).bind fun _ => faithful.runs _

theorem wakeup (value : Value) : Faithful honest (Exec.wakeup engine value) := by
  refine (view _).bind fun state => ?_
  extract_lets wake
  have wakes : ∀ done, Faithful honest (wake done) := by
    intro _
    refine (view _).bind fun suspended => ?_
    split
    · exact raise _
    · exact bind (onFiber (fun _ => rfl) fun _ => rfl) fun _ =>
        finishEntry faithful _ (continueAt faithful _ value)
  split
  · exact wakes ()
  · exact (raise _).bind wakes

end Exec.Faithful

/-! ## Threads -/

namespace Heap.Roomy

variable {heap : Heap}

theorem thread (roomy : heap.Roomy) {fiber : Fiber} (room : fiber.Roomy) :
    (@Heap.alloc .thread heap (some fiber)).2.Roomy := by
  intro ref own found
  rw [get?_alloc] at found
  split at found
  · obtain rfl := Option.some.inj (Option.some.inj found)
    exact room
  · exact roomy ref own found

theorem release (roomy : heap.Roomy) (external : List Nat) : (heap.release external).Roomy :=
  fun ref fiber found => roomy ref fiber (get?_of_get?_release found)

theorem collect (roomy : heap.Roomy) (external lent : List Nat) :
    (heap.collect external lent).2.Roomy := by
  intro ref fiber found
  obtain ⟨former, there, same⟩ := get?_collect found
  rcases same with rfl | same
  · exact roomy ref fiber there
  · obtain ⟨own, rfl, rfl⟩ := Option.map_eq_some_iff.mp same.symm
    exact Nat.zero_le _

end Heap.Roomy

namespace Heap.Lent

variable {heap : Heap} {held external : List Nat}

theorem release (within : held ⊆ external) : heap.Lent held (heap.release external) := by
  intro ref member found
  rw [get?_eq_some] at found ⊢
  exact (object?_release_of_mem_external (within member)).trans found

theorem collect (within : held ⊆ external) (lent : List Nat) :
    heap.Lent held (heap.collect external lent).2 :=
  fun _ member => get?_collect_of_lent (within member)

end Heap.Lent

theorem Machine.held_subset_external (machine : Machine) : machine.held ⊆ machine.external := by
  intro index member
  simp [Machine.external, member]

namespace Exec.Faithful

variable {honest : Prop}

theorem inThread {action : Exec α} (ref : Ref .thread) (faithful : Faithful honest action) :
    Faithful honest (Exec.inThread ref action) := by
  intro machine roomy
  refine Meets.read_bind ?_
  split
  · exact roomy.record _
  · rename_i fiber content
    let inside : Machine :=
      { machine with
        heap := machine.heap.set ref none, fiber, waiting := machine.fiber :: machine.waiting }
    have room : inside.Roomy := by
      refine ⟨roomy.heap.of_get content, ?_, roomy.heap.set ref (by simp)⟩
      intro waiting member
      rcases List.mem_cons.mp member with rfl | member
      · exact roomy.fiber
      · exact roomy.waiting waiting member
    have back : ∀ fault last, inside.Carries honest fault last →
        machine.Carries honest fault (Exec.leaveThread ref last) := by
      rintro fault last ⟨stands, added, adds, passes⟩
      have left : Exec.leaveThread ref last =
          { last with
            heap := last.heap.set ref (some last.fiber), fiber := machine.fiber,
            waiting := machine.waiting } := by
        rw [Exec.leaveThread, stands.waiting]
      rw [left]
      refine ⟨⟨⟨roomy.fiber, roomy.waiting, ?_⟩, rfl, stands.reporting, rfl, stands.limits,
        stands.held, fun other held found => ?_, Nat.le_refl _⟩, added,
        ⟨adds.reporting, adds.incidents, adds.later, adds.uncaught⟩, passes⟩
      · refine stands.roomy.heap.set ref fun own same => ?_
        exact Option.some.inj same ▸ stands.roomy.fiber
      · -- The thread that has been entered was not being run before.
        have apart : ref.index ≠ other.index := by
          intro same
          obtain rfl : ref = other := congrArg Ref.mk same
          rw [Heap.get_of_get?_eq_some found] at content
          exact absurd content (by simp)
        have entered : (machine.heap.set ref none).get? other = some none := by
          rw [Heap.set, Heap.get?_modify, if_neg apart]
          exact found
        rw [Heap.set, Heap.get?_modify, if_neg apart]
        exact stands.lent other held entered
    have ran : (Exec.ensuring (Exec.leaveThread ref) action).Meets inside
        (fun _ => machine.Carries honest none) (fun fault => machine.Carries honest (some fault))
        (machine.Cuts honest) := by
      refine ((faithful inside room).mono (fun _ _ => id) (fun _ _ => id) ?_).ensuring
        (fun _ => back none) fun fault => back (some fault)
      rintro last ⟨added, adds, told⟩
      exact ⟨added, ⟨adds.reporting, adds.incidents, adds.later, adds.uncaught⟩, told⟩
    refine Meets.modify_bind (Meets.modify_bind (ran.attempt_bind ?_ ?_))
    · exact fun value next carries => carries
    · exact fun fault next carries => carries.join (carries.roomy.note (by simp) fault) id id

theorem closureOver (routine : Routine) : Faithful honest (Exec.closureOver routine) := by
  have cells : ∀ captures : List Capture,
      Faithful honest (captures.mapM fun _ => @Exec.alloc .cell .null) := by
    intro captures
    induction captures with
    | nil => exact pure []
    | cons capture rest ih =>
        rw [List.mapM_cons]
        exact (alloc (by decide) _).bind fun _ => ih.bind fun _ => pure _
  rw [Exec.closureOver, Array.mapM_eq_mapM_toList]
  exact ((cells _).map _).bind fun _ => (alloc (by decide) _).bind fun _ => pure _

theorem loadRoutine (prototype : Prototype) : Faithful honest (Exec.loadRoutine prototype) := by
  rw [Exec.loadRoutine]
  split
  · exact pure _
  · exact raise _

theorem newClosure (value : Value) : Faithful honest (Exec.newClosure value) := by
  cases value with
  | routine index =>
      refine (view _).bind fun machine => ?_
      split
      · exact closureOver _
      · exact closureOver _
  | _ => exact raise _

theorem spent : Engine.spent.Faithful honest :=
  ⟨fun _ _ _ => .exhaust, fun _ => .exhaust, fun _ => .exhaust⟩

/-- Host functions that leave faults alone pass an overflow on. -/
theorem service {engine : Engine} (faithful : engine.Faithful honest) {manners : Manners}
    (leaves : honest → manners.catches = false) {action : Exec α}
    (serves : engine.Serves manners action) : Faithful honest action := by
  induction serves with
  | operates _ operates => exact .operates faithful operates
  | quiet operates => exact .operates spent operates
  | bind _ _ first further => exact first.bind further
  | keeping indices _ ih => exact ih.keeping indices
  | attempt allowed _ ih =>
      have dishonest : ¬ honest := fun holds => by simp [leaves holds] at allowed
      intro machine roomy
      refine (ih machine roomy).attempt.mono (fun result next ended => ?_) (fun _ _ => False.elim)
        fun _ => id
      cases result with
      | ok value => exact ended
      | error fault => exact ended.of_not dishonest none
  | passOn _ fault => exact passOn fault
  | adjust look printed handler =>
      exact Calm.faithful (.of_quiet fun machine roomy =>
        ⟨roomy.stands rfl rfl rfl rfl rfl rfl, rfl⟩)
  | settle =>
      exact Calm.faithful (.setHeap (fun machine roomy => roomy.release machine.external)
        fun machine => .release machine.held_subset_external)
  | collect =>
      refine Calm.faithful (.of_quiet fun machine roomy => ?_)
      exact ⟨⟨⟨roomy.fiber, roomy.waiting, roomy.heap.collect _ _⟩, rfl, rfl, rfl, rfl, rfl,
        .collect machine.held_subset_external _, Nat.le_refl _⟩, rfl⟩
  | closureOver _ routine => exact closureOver routine
  | loadFunction prototype => exact (loadRoutine prototype).bind closureOver
  | loadPrototype prototype =>
      exact (loadRoutine prototype).bind fun routine => Calm.faithful (.of_quiet fun _ roomy =>
        ⟨roomy.stands rfl rfl rfl rfl rfl rfl, rfl⟩)
  | newClosure value => exact newClosure value
  | runWithThis _ callee this arguments => exact runWithThis faithful _ _ _
  | wakeup _ value => exact wakeup faithful value
  | resumeGenerator _ ref => exact resumeGenerator faithful ref
  | newThread =>
      refine (view _).bind fun machine => Calm.faithful (.setHeap (fun _ roomy => roomy.thread ?_)
        fun machine => .alloc _ machine.heap _)
      exact Nat.zero_le _
  | setThreadFunction ref entry =>
      have checked : ∀ allowed : Bool, Faithful honest (do
          unless allowed do Exec.raise (.threadFunction entry.typeName)
          Exec.onFiber fun fiber => { fiber with entry := some entry }) := by
        intro allowed
        cases allowed with
        | true => exact onFiber (fun _ => rfl) fun _ => rfl
        | false => exact (raise _).bind fun _ => onFiber (fun _ => rfl) fun _ => rfl
      exact inThread ref (checked _)
  | threadCall ref arguments =>
      refine inThread ref ((view _).bind fun entry => ?_)
      split
      · exact raise _
      · exact (view _).bind fun _ => runWithThis faithful _ _ _
  | threadWakeup ref value => exact inThread ref (wakeup faithful value)

end Exec.Faithful

/-! ## Hosts -/

theorem Engine.faithful_ofHost {honest : Prop} {host : Host} {manners : Manners}
    (serves : host.Serves manners) (leaves : honest → manners.catches = false) (steps : Nat) :
    (Engine.ofHost host steps).Faithful honest := by
  induction steps with
  | zero => exact Faithful.spent
  | succ steps ih =>
      refine ⟨fun callee base count => ?_, fun root => ?_, fun symbol => ?_⟩
      · exact .callAt ih callee base count
      · exact .nestLoop root (.loop ih root steps)
      · exact .service ih leaves (serves symbol (Engine.ofHost host steps))

theorem Machine.Reached.roomy {host : Host} {manners : Manners} {machine : Machine}
    (reached : machine.Reached host manners) (serves : host.Serves manners) : machine.Roomy := by
  have room : ∀ {steps : Nat} {α : Type} {action : Exec α} {machine : Machine},
      machine.Roomy → (Engine.ofHost host steps).Serves manners action →
      action.FaithfulAt False machine := fun roomy allowed =>
    Faithful.service (Engine.faithful_ofHost serves False.elim _) False.elim allowed _ roomy
  induction reached with
  | created limits =>
      refine ⟨Nat.zero_le _, by simp [Machine.create], ?_⟩
      intro ref fiber found
      rw [Machine.create, Heap.get?_alloc_of_ne (by decide)] at found
      exact absurd (Heap.lt_size_of_get?_eq_some found) (by simp [Heap.size])
  | returned _ allowed result ih =>
      have carries := room ih allowed
      rw [FaithfulAt, Meets, result] at carries
      exact carries.roomy
  | failed _ allowed result ih =>
      have carries := room ih allowed
      rw [FaithfulAt, Meets, result] at carries
      exact carries.roomy

/-- No trap ever catches an overflow of native calls.  Once one has been raised, and unless the
creation of a closure has put another fault in its place, the overflow is what the host gets; it
gets nothing only while an error handler that is being told of it is still running. -/
theorem overflow_reaches_host {host : Host} {manners : Manners} (serves : host.Serves manners)
    (leaves : manners.catches = false) {machine : Machine}
    (reached : machine.Reached host manners) {steps : Nat} {entry : Exec α}
    (allowed : (Engine.ofHost host steps).Serves manners entry) :
    ∃ added, (entry.after machine).incidents = added ++ machine.incidents ∧
      (∀ incident ∈ added, ∀ trap, incident.occurrence = .caught trap →
        incident.fault ≠ .nativeStackOverflow) ∧
      (Overflowed machine.reporting added →
        entry machine = .error (.raised .nativeStackOverflow) (entry.after machine) ∨
          entry machine = .error .exhausted (entry.after machine) ∧
            machine.reporting < (entry.after machine).reporting) := by
  have faithful : entry.FaithfulAt True machine :=
    Faithful.service (Engine.faithful_ofHost serves (fun _ => leaves) steps) (fun _ => leaves)
      allowed machine (reached.roomy serves)
  rw [FaithfulAt, Meets] at faithful
  rw [Exec.after]
  cases result : entry machine with
  | ok value next =>
      rw [result] at faithful
      obtain ⟨_, added, adds, calm⟩ := faithful
      exact ⟨added, adds.incidents, adds.uncaught, fun raised =>
        absurd (calm trivial raised) (by simp)⟩
  | error stop next =>
      rw [result] at faithful
      cases stop with
      | raised fault =>
          obtain ⟨_, added, adds, passes⟩ := faithful
          refine ⟨added, adds.incidents, adds.uncaught, fun raised => .inl ?_⟩
          rw [Option.some.inj (passes trivial raised)]
      | exhausted =>
          obtain ⟨added, adds, told⟩ := faithful
          exact ⟨added, adds.incidents, adds.uncaught, fun raised =>
            .inr ⟨rfl, told trivial raised⟩⟩

/-- A function that calls its argument with a trap registered. -/
def guardedCall : Prototype where
  name := "guarded"
  parameters := #["this", "callee"]
  stackSize := 4
  code := #[⟨.pushTrap, 2, 1, 0, 0⟩, ⟨.call, 3, 1, 0, 1⟩, ⟨.ret, 0, 2, 0, 0⟩]

/-- Load the function and run it on a function of the host. -/
def runGuarded (engine : Engine) : Exec Outcome := do
  let native ← Exec.alloc ({ name := "print", symbol := "print" } : Native)
  let guarded ← Exec.loadFunction guardedCall
  Exec.run engine guarded [.native native]

theorem serves_runGuarded (engine : Engine) {manners : Manners} (enters : manners.enters = true) :
    engine.Serves manners (runGuarded engine) :=
  (Engine.Serves.calm (.alloc .native _ rfl)).bind fun _ =>
    (Engine.Serves.loadFunction guardedCall).bind fun _ => .run enters _ _

theorem overflow_reaches_host_guarded :
    runGuarded (standardEngine 4) (.create { nativeCalls := 1 }) =
      .error (.raised .nativeStackOverflow)
        ((runGuarded (standardEngine 4)).after (.create { nativeCalls := 1 })) := by
  obtain ⟨added, new, _, reaches⟩ := overflow_reaches_host serves_standardHost rfl
    (.created { nativeCalls := 1 }) (serves_runGuarded (standardEngine 4) rfl)
  have raised :
      (((runGuarded (standardEngine 4)).after (.create { nativeCalls := 1 })).incidents.map
        fun incident => (incident.occurrence, incident.fault, incident.reporting)) =
        [(.raised, .nativeStackOverflow, 0)] := by
    decide +kernel
  obtain ⟨incident, only, same⟩ := List.map_eq_singleton_iff.mp raised
  obtain ⟨occurrence, fault, reporting⟩ : incident.occurrence = .raised ∧
      incident.fault = .nativeStackOverflow ∧ incident.reporting = 0 := by
    simpa using same
  obtain rfl : added = [incident] := by
    rw [only] at new
    exact (List.append_nil added).symm.trans new.symm
  have overflowed : Overflowed 0 [incident] := by
    refine ⟨⟨incident, List.mem_singleton.mpr rfl, reporting, occurrence, fault⟩, ?_⟩
    intro other member _
    obtain rfl := List.mem_singleton.mp member
    exact occurrence ▸ by simp
  rcases reaches overflowed with reached | ⟨_, told⟩
  · exact reached
  · exact absurd told (by decide +kernel)

end ScriptMachine
