import ScriptMachine.Proofs.Machine.DiscreetLoops
import ScriptMachine.Proofs.Machine.Threads

/-!
# Discreet entries and threads

An entry that a host function starts in its own fiber adds registers and looks at no others.  What
is done in a thread looks at the registers of the thread, while the fiber that has entered it waits
with whatever it hides.
-/

namespace ScriptMachine

open Exec

variable {α β : Type}

namespace Exec

open Machine

variable {manners : Manners} {veil : Veil} {start machine : Machine}
  {engine : Engine} {point : EntryPoint} {fault : Fault}

namespace Oblivious

/-! ## Calls from an entry point -/

theorem beginEntry (discreet : engine.Discreet manners) (ready : machine.Ready)
    (calm : machine.fiber.activity.Calm manners) (entered : machine.Entered point)
    (callee this : Value) (arguments : List Value) :
    Oblivious veil (Exec.beginEntry engine point callee this arguments) machine := by
  refine .of_suits fun suits => ?_
  let base := machine.fiber.stack.size
  have pushed : Steady manners (.below base) (fun _ => True)
    (Engine.pushArguments this arguments) := .pushArguments this arguments
  have under : machine.fiber.activity.Under base := fun frame current =>
    Nat.le_trans (Nat.le_add_right _ _) (ready.shaped frame current)
  refine bind_meets (pushed machine ready (Nat.le_refl _) trivial)
    (pushArguments this arguments machine) fun _ next returns => ?_
  have ready : next.Ready := returns.keeps.ready ready
  have calmed : next.fiber.activity.Calm manners := returns.keeps.activity ▸ calm
  have under : next.fiber.activity.Under base := returns.keeps.activity ▸ under
  rw [entered.stackBase]
  have fits := returns.keeps.slots.1
  refine bind_meets
    (meets_callValue discreet.calls discreet.natives ready fits calmed under callee _ none true)
    (callValue discreet ready fits calmed under suits.room callee _ none true)
    fun result last began => ?_
  cases result with
  | pushed =>
      obtain ⟨frame, place, _, isRoot, enters⟩ := began
      have place : frame.base = machine.fiber.stack.size := place
      have enters : machine.Enters manners frame last :=
        returns.enters (Nat.le_of_eq place) (Nat.le_of_eq place) enters
      rw [entered.rootDepth]
      exact runEntered discreet isRoot enters calm (place ▸ suits.room)
  | done value => exact pure _
  | suspend value =>
      dsimp only
      split
      · exact onFiber_bind (pure _) rfl rfl
      · exact raise_bind _

/-! ## How entries end -/

/-- The error handler is told of a fault in a fiber in which nothing is active. -/
theorem report (discreet : engine.Discreet manners) (sound : machine.Sound)
    (vacant : machine.fiber.Vacant) (fault : Fault) :
    Oblivious veil (Exec.report engine fault) machine := by
  refine get_bind ?_ fun _ => rfl
  cases machine.handler with
  | none => exact pure ()
  | some handler =>
      let telling := machine.telling fault
      have called : Discreet manners .all veil.floor
          (fun activity => activity.state = .idle)
          (engine.callSync handler (.table machine.root) [fault.toValue]) :=
        .callSync discreet (fun _ idle _ => by rw [idle]; decide) _ _ _
      have quiet : Oblivious veil _ telling := called.oblivious (Nat.le_refl _)
        (sound.telling fault |>.ready_of_atRest (.inl vacant)) trivial vacant.state
      refine ok_bind rfl (note _ fault) (ok_bind rfl ?_ ?_)
      · exact change (fun _ => rfl) (fun _ => rfl) (fun suits => suits.congr rfl rfl)
          (.of_eq rfl rfl)
      · exact quiet.attempt.discard.bind fun _ _ _ =>
          change (fun _ => rfl) (fun _ => rfl) (fun suits => suits.congr rfl rfl) (.of_eq rfl rfl)

/-- What an entry has added is given up. -/
theorem finishEntry (high : veil.floor ≤ point.stackBase) (result : Except Fault Outcome)
    (reports : ∀ fault, result = .error fault → point.outermost = true →
      ∀ next, Exec.unwindTo point.rootDepth machine = .ok () next → Oblivious veil
        (Exec.report engine fault)
        ((next.mapStack (·.truncate point.stackBase)).mapFiber fun fiber =>
          { fiber with state := point.previous })) :
    Oblivious veil (Exec.finishEntry engine point result) machine := by
  cases result with
  | ok outcome =>
      cases outcome with
      | completed value =>
          exact (truncate high).bind fun _ _ _ => onFiber_bind (pure _) rfl rfl
      | suspended value => exact onFiber_bind (pure _) rfl rfl
  | error fault =>
      refine (unwindTo _).bind fun _ next unwound => ?_
      refine ok_bind rfl (truncate high) (onFiber_bind ?_ rfl rfl)
      split
      · rename_i outermost
        exact (reports fault rfl outermost next unwound).bind fun _ _ _ => passOn fault
      · exact passOn fault

/-- The outermost entry of a thread ends. -/
theorem finishOutermost (discreet : engine.Discreet manners) (low : veil.floor = 0)
    (result : Except Fault Outcome)
    (emptied : ∀ fault, result = .error fault → start.Emptied machine) :
    Oblivious veil (Exec.finishEntry engine
      { stackBase := 0, rootDepth := 0, previous := .idle, outermost := true } result) machine := by
  refine finishEntry (Nat.le_of_eq low) result fun fault failed _ next unwound => ?_
  have emptied := emptied fault failed
  rw [unwindTo_eq emptied.sound emptied.depth] at unwound
  obtain ⟨_, rfl⟩ := EStateM.Result.ok.inj unwound
  exact report discreet emptied.rests.sound emptied.rests.rest fault

/-! ## Entries -/

/-- An entry looks at the state of its fiber, and at the number of its registers and frames. -/
theorem runWithThis (callee this : Value) (arguments : List Value)
    (awake : machine.fiber.state ≠ .suspended →
      let point : EntryPoint :=
        { stackBase := machine.fiber.stack.size
          rootDepth := machine.fiber.stack.depth
          previous := machine.fiber.state
          outermost := machine.fiber.isOutermost }
      Oblivious veil
        (Exec.attempt (Exec.beginEntry engine point callee this arguments) >>=
          Exec.finishEntry engine point)
        (machine.mapFiber fun fiber => { fiber with state := .running })) :
    Oblivious veil (Exec.runWithThis engine callee this arguments) machine := by
  refine view_bind (fun _ => ?_) ?_
  · simp only [id, Veil.machine, Veil.fiber, veil.size_stack]
    rfl
  · dsimp only [id]
    split
    · exact raise_bind _
    · rename_i running
      exact onFiber_bind (awake running) rfl rfl

end Oblivious

/-- What is done in a thread leaves its fiber at rest and looks at no waiting fibers. -/
structure Secluded (manners : Manners) (action : Exec α) : Prop where
  /-- The fiber stays at rest. -/
  restful : Restful manners action
  /-- Nothing that is hidden is looked at. -/
  oblivious : ∀ {veil : Veil} {machine : Machine}, veil.floor = 0 →
    machine.Sound → machine.fiber.AtRest → Oblivious veil action machine

namespace Secluded

theorem bind {action : Exec α} {following : α → Exec β}
    (first : Secluded manners action)
    (further : ∀ value, Secluded manners (following value)) :
    Secluded manners (action >>= following) where
  restful := first.restful.bind fun value => (further value).restful
  oblivious {_ machine} low sound rest :=
    .bind_meets (first.restful machine sound rest) (first.oblivious low sound rest)
      fun value _ ends => (further value).oblivious low ends.1.sound ends.1.rest

theorem discreet {action : Exec α}
    (discreet : Discreet manners .all 0 (fun _ => True) action) :
    Secluded manners action where
  restful := discreet.steady.restful fun _ _ => trivial
  oblivious low sound rest :=
    discreet.oblivious (Nat.le_of_eq low) (sound.ready_of_atRest rest) trivial trivial

theorem runWithThis (discreet : engine.Discreet manners) (callee this : Value)
    (arguments : List Value) :
    Secluded manners (Exec.runWithThis engine callee this arguments) := by
  refine ⟨.runWithThis discreet.toSteady callee this arguments, ?_⟩
  intro veil machine low sound rest
  refine .runWithThis _ _ _ fun awake => ?_
  obtain vacant | paused := rest
  · have size : machine.fiber.stack.size = 0 := congrArg Array.size vacant.slots
    have depth : machine.fiber.stack.depth = 0 := congrArg Array.size vacant.frames
    have outermost : machine.fiber.isOutermost = true := by
      simp [Fiber.isOutermost, vacant.natives, vacant.nesting, vacant.syncCalls]
    rw [size, depth, outermost, vacant.state]
    let entered := machine.mapFiber fun fiber => { fiber with state := .running }
    have ready : entered.Ready := (sound.ready_of_atRest (.inl vacant)).changeFiber rfl rfl
    have still : entered.fiber.Still :=
      ⟨vacant.natives, vacant.nativeCalls, vacant.nesting, vacant.syncCalls⟩
    have calm : entered.fiber.activity.Calm manners := fun _ => by
      simp [entered, mapFiber, Fiber.activity]
    have point : entered.Entered ⟨0, 0, .idle, true⟩ :=
      ⟨size.symm, depth.symm, fun _ => ⟨size, depth, still⟩⟩
    refine .attempt_bind
      (meets_beginEntry discreet.toSteady ready calm _ point callee this arguments)
      (.beginEntry discreet ready calm point callee this arguments)
      (fun outcome next _ => ?_) fun fault next fails => ?_
    · have emptied : ∀ fault : Fault, (.ok outcome : Except Fault Outcome) = .error fault →
          entered.Emptied next := by simp
      exact .finishOutermost discreet low _ emptied
    · exact .finishOutermost discreet low _
        fun _ _ => fails.1.emptied still vacant.suspended depth
  · exact absurd paused.state awake

theorem wakeup (discreet : engine.Discreet manners) (value : Value) :
    Secluded manners (Exec.wakeup engine value) := by
  refine ⟨.wakeup discreet.toSteady value, ?_⟩
  intro veil machine low sound rest
  refine .ofFiber_bind ?_ rfl
  obtain vacant | paused := rest
  · rw [vacant.state]
    exact .raise_bind _
  · rw [if_pos paused.state]
    obtain ⟨target, point, window⟩ := paused.resumable
    refine .ofFiber_bind ?_ rfl
    rw [point]
    let woken := machine.mapFiber fun fiber =>
      { fiber with state := .running, suspended := none }
    have ready : woken.Ready := Ready.changeFiber ⟨sound, paused.shaped⟩ rfl rfl
    have still : woken.fiber.Still :=
      ⟨paused.natives, paused.nativeCalls, paused.nesting, paused.syncCalls⟩
    have calm : woken.fiber.activity.Calm manners := fun _ => by
      simp [woken, mapFiber, Fiber.activity]
    have rooted : woken.fiber.activity.Rooted 0 := paused.rooted
    have continues : Oblivious veil (continueAt engine ⟨target, 0, 0⟩ value) woken := by
      refine .ofFiber_bind ?_ rfl
      split
      · exact .pure _
      · rename_i some
        obtain ⟨next, result, assigned, running⟩ :=
          exists_deliver manners ready calm rooted (Nat.lt_of_not_le some) window value
        refine .ok_bind assigned (.deliver _ (low ▸ Nat.zero_le _) value) ?_
        exact discreet.runFrames (Nat.le_of_eq low) rfl running
    refine .onFiber_bind (.attempt_bind
      (meets_continueAt discreet.toSteady ready calm rooted still rfl window value) continues
      (fun outcome next _ => ?_) fun fault next fails => ?_) rfl rfl
    · have emptied : ∀ fault : Fault, (.ok outcome : Except Fault Outcome) = .error fault →
          woken.Emptied next := by simp
      exact .finishOutermost discreet low _ emptied
    · exact .finishOutermost discreet low _ fun _ _ => fails.1

end Secluded

end Exec

/-- What is hidden while a fiber waits for a thread. -/
def Veil.waits (veil : Veil) (fiber : Fiber) : Veil where
  floor := 0
  hidden := none
  waiting := veil.fiber fiber :: veil.waiting
  besides := veil.besides

namespace Veil.Suits

variable {veil : Veil} {machine : Machine}

theorem waits (suits : veil.Suits machine) (ref : Ref .thread) (fiber : Fiber) :
    (veil.waits machine.fiber).Suits (machine.entered ref fiber) := by
  have nothing : ∀ (slots : Array Value) (index : Nat), ¬Refers 0 slots index :=
    fun _ _ ⟨_, low, _⟩ => Nat.not_lt_zero _ low
  have mine : ∀ index, index ∈ (machine.entered ref fiber).waiting.flatMap Fiber.references ↔
      index ∈ machine.fiber.references ∨ index ∈ machine.waiting.flatMap Fiber.references :=
    fun _ => by rw [Machine.entered, List.flatMap_cons, List.mem_append]
  have others : ∀ index, index ∈ (veil.waits machine.fiber).waiting.flatMap Fiber.references ↔
      index ∈ (veil.fiber machine.fiber).references ∨
        index ∈ veil.waiting.flatMap Fiber.references :=
    fun _ => by rw [Veil.waits, List.flatMap_cons, List.mem_append]
  refine ⟨Nat.zero_le _, fun index refers => ?_, fun index refers => ?_⟩
  · rw [mine] at refers
    rw [others]
    exact .inr (suits.mem_references (refers.resolve_left (nothing _ _)))
  · rw [others] at refers
    rw [mine]
    exact (suits.mem_references_or (refers.resolve_left (nothing _ _))).imp_left .inr

end Veil.Suits

namespace Exec

open Machine

variable {manners : Manners} {extent : Extent} {front : Nat}
  {given : Activity → Prop} {engine : Engine}

/-- The fiber that enters a thread waits with what it hides. -/
theorem Oblivious.visit {action : Exec α} (secluded : Secluded manners action)
    (veil : Veil) {machine : Machine}
    {ref : Ref .thread} {fiber : Fiber} (sound : (machine.entered ref fiber).Sound)
    (rest : fiber.AtRest) :
    Oblivious veil (do
      Exec.write ref (none : Option Fiber)
      enterFiber fiber
      Exec.ensuring (leaveThread ref) action) machine := by
  intro suits
  have oblivious : Oblivious (veil.waits machine.fiber) action (machine.entered ref fiber) :=
    secluded.oblivious rfl sound rest
  have meets : action.Meets (machine.entered ref fiber)
      (fun _ next => next.waiting = machine.fiber :: machine.waiting)
      (fun _ next => next.waiting = machine.fiber :: machine.waiting) fun _ => True :=
    (secluded.restful _ sound rest).mono (fun _ _ ends => ends.1.waiting)
      (fun _ _ ends => ends.1.waiting) fun _ _ => trivial
  -- The thread is left with the same fiber in both machines, and the waiting fiber goes on.
  have leaves : ∀ next, (veil.waits machine.fiber).Suits next →
      next.waiting = machine.fiber :: machine.waiting → next.LostIn (leaveThread ref next) ∧
        veil.Suits (leaveThread ref next) ∧ ∀ others,
          leaveThread ref ((veil.waits machine.fiber).machine others next) =
            veil.machine others (leaveThread ref next) := by
    intro next _ waiting
    have gone : leaveThread ref next = { next with
        heap := next.heap.set ref (some next.fiber), fiber := machine.fiber
        waiting := machine.waiting } := by
      rw [leaveThread, waiting]
    rw [gone]
    exact ⟨.of_heap rfl (Heap.lostIn_modify _ ref _), suits.congr rfl rfl, fun _ => rfl⟩
  have beside : (veil.waits machine.fiber).besides = veil.besides := rfl
  obtain ⟨lost, covers⟩ :=
    Oblivious.covers_ensuring beside oblivious meets leaves (suits.waits ref fiber)
  have enters : machine.LostIn (machine.entered ref fiber) :=
    .of_heap rfl (Heap.lostIn_modify _ ref _)
  exact ⟨enters.trans lost, covers⟩

theorem Discreet.inThread {action : Exec α} (secluded : Secluded manners action)
    (ref : Ref .thread) :
    Discreet manners .all front given (Exec.inThread ref action) := by
  refine ⟨.inThread secluded.restful ref, ?_⟩
  intro veil machine _ ready _ _
  refine .read_bind ?_
  split
  · exact .raise _
  · rename_i fiber found
    have visits := Oblivious.visit secluded veil (ready.sound.entered found)
      (ready.sound.heap.thread found).2
    have tries : ∀ following : Except Fault α → Exec α, Oblivious veil (Exec.attempt (do
        write ref (none : Option Fiber)
        enterFiber fiber
        Exec.ensuring (leaveThread ref) action) >>= following) machine → Oblivious veil (do
        write ref (none : Option Fiber)
        enterFiber fiber
        Exec.attempt (Exec.ensuring (leaveThread ref) action) >>= following) machine :=
      fun _ => id
    refine tries _ ?_
    refine visits.attempt.bind fun result _ _ => ?_
    cases result with
    | ok value => exact .pure value
    | error fault => exact .surface fault

/-! ## Operations on threads -/

theorem Discreet.newThread : Discreet manners .all front given Exec.newThread :=
  ⟨.newThread, fun _ _ _ _ => .get_bind (.alloc _) fun _ => rfl⟩

theorem Discreet.setThreadFunction (ref : Ref .thread) (entry : Value) :
    Discreet manners .all front given (Exec.setThreadFunction ref entry) := by
  have changes : Discreet manners .all 0 (fun _ => True)
      (onFiber fun fiber => { fiber with entry := some entry }) :=
    .direct (.alike fun _ _ => ⟨rfl, rfl, .refl .all _, id, rfl, rfl, rfl, rfl⟩) fun _ =>
      .onFiber rfl rfl
  have checked : ∀ allowed : Bool, Discreet manners .all 0 (fun _ => True) (do
      unless allowed do Exec.raise (.threadFunction entry.typeName)
      onFiber fun fiber => { fiber with entry := some entry }) := by
    intro allowed
    cases allowed with
    | true => exact changes
    | false => exact (raise rfl).bind fun _ => changes
  exact Discreet.inThread (.discreet (checked _)) ref

theorem Secluded.run (discreet : engine.Discreet manners) (callee : Value)
    (arguments : List Value) : Secluded manners (Exec.run engine callee arguments) :=
  have root : Discreet manners .all 0 (fun _ => True)
    (fun machine => .ok machine.root machine) := .view fun _ _ _ => rfl
  (Secluded.discreet root).bind fun _ => .runWithThis discreet _ _ _

theorem Discreet.threadCall (discreet : engine.Discreet manners) (ref : Ref .thread)
    (arguments : List Value) :
    Discreet manners .all front given (Exec.threadCall engine ref arguments) := by
  refine Discreet.inThread ((Secluded.discreet (.view fun _ _ _ => rfl)).bind fun entry => ?_) ref
  cases entry with
  | none => exact .discreet (.raise rfl)
  | some entry => exact .run discreet entry arguments

theorem Discreet.threadWakeup (discreet : engine.Discreet manners) (ref : Ref .thread)
    (value : Value) :
    Discreet manners .all front given (Exec.threadWakeup engine ref value) :=
  Discreet.inThread (.wakeup discreet value) ref

end Exec

end ScriptMachine
