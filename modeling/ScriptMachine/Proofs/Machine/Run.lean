import ScriptMachine.Machine.Run
import ScriptMachine.Proofs.Machine.Dispatch

/-!
# Run loops

A run loop of accepted code ends with none of its frames left, or with its fiber about to be
suspended while nothing else is active in it.  A call that waits for its result therefore leaves
everything else as it was.
-/

namespace ScriptMachine

namespace Machine

/-- How a run loop ends, with so many run loops active. -/
def Ends (manners : Manners) (scope : Scope) (nesting : Nat) (start : Machine) :
    Outcome → Machine → Prop
  | .completed _, next => start.Within scope next ∧ next.fiber.stack.depth = scope.root ∧
      start.Logs manners none next
  | .suspended _, next => start.Halted manners scope nesting next

/-- How a run loop fails. -/
def Falls (manners : Manners) (scope : Scope) (start : Machine) (fault : Fault) (next : Machine) :
    Prop :=
  start.Failing manners scope fault next ∧ next.fiber.stack.depth = scope.root

end Machine

/-- What the parts of an engine do to a machine. -/
structure Engine.Steady (engine : Engine) (manners : Manners) : Prop where
  /-- Calls that wait for their result are steady. -/
  calls : engine.SteadyCalls manners
  /-- Host functions are steady. -/
  natives : engine.SteadyNatives manners
  /-- Run loops end in order. -/
  runs : ∀ {scope : Scope} {start machine : Machine}, scope.mark = scope.root →
    start.Running manners scope machine →
    (engine.runFrames scope.root).Meets machine (start.Ends manners scope 0)
      (start.Falls manners scope) (start.Reaches manners)

theorem Frame.SoundIn.performs {heap : Heap} {maxSlots : Nat} {frame : Frame}
    (sound : frame.SoundIn heap maxSlots) {instruction : Instruction}
    (found : frame.closure.routine.code[frame.ip]? = some instruction) :
    ∃ prototype, { frame with ip := frame.ip + 1 }.Performs prototype instruction := by
  obtain ⟨prototype, accepted, routine⟩ := sound.closure.routine
  refine ⟨prototype, accepted, routine, ?_, frame.ip, rfl, ?_⟩
  · have cells := sound.closure.cells
    rw [routine, Routine.captures_load] at cells
    exact cells
  · rw [routine, Routine.code_load] at found
    exact found

namespace Exec

open Machine

variable {manners : Manners} {scope : Scope} {start machine : Machine} {engine : Engine}

/-! ## Instructions -/

/-- The next instruction is found in the current frame, if there is one. -/
theorem fetches (running : start.Running manners scope machine) :
    ∃ instruction next frame, fetch machine = .ok instruction next ∧
      start.Inside manners scope frame next ∧
      ∀ found ∈ instruction, ∃ prototype, frame.Performs prototype found := by
  obtain ⟨frame, current⟩ := exists_current running.above
  have sound := running.sound.fiber.activity.frames frame
    (Array.mem_of_getElem? (getElem?_of_current current))
  have inside : start.Inside manners scope frame machine := ⟨running, current⟩
  rw [fetch, Exec.frame_bind current]
  cases found : frame.closure.routine.code[frame.ip]? with
  | none => exact ⟨none, machine, frame, rfl, inside, by simp⟩
  | some instruction =>
      have within := (Array.getElem?_eq_some_iff.mp found).1
      refine ⟨some instruction, _, _, rfl, inside.goTo within, fun other same => ?_⟩
      obtain rfl := Option.some.inj same
      exact sound.performs found

/-- The next instruction is found, and carrying it out keeps the run loop in order. -/
theorem exists_fetch (calls : engine.SteadyCalls manners) (natives : engine.SteadyNatives manners)
    (running : start.Running manners scope machine) :
    ∃ instruction next, fetch machine = .ok instruction next ∧
      (step engine instruction).Meets next (start.Flows manners scope)
        (start.Failing manners scope) (start.Reaches manners) := by
  obtain ⟨instruction, next, frame, fetched, inside, performs⟩ := fetches running
  refine ⟨instruction, next, fetched, ?_⟩
  cases instruction with
  | none => exact meets_returnValue inside .null
  | some instruction =>
      obtain ⟨prototype, performs⟩ := performs instruction rfl
      exact meets_dispatch calls natives inside performs

/-- An instruction with the recovery from its fault keeps the run loop in order. -/
theorem meets_turn (calls : engine.SteadyCalls manners) (natives : engine.SteadyNatives manners)
    (running : start.Running manners scope machine) :
    (turn engine scope.root).Meets machine
      (fun result next => match result with
        | none => scope.root < next.fiber.stack.depth ∧
            (scope.mark < next.fiber.stack.depth → start.Running manners scope next)
        | some outcome => start.Ends manners scope 1 outcome next)
      (fun fault next => scope.mark = scope.root → start.Falls manners scope fault next)
      (start.Reaches manners) := by
  obtain ⟨instruction, next, fetched, stepped⟩ := exists_fetch calls natives running
  refine Meets.ok_bind fetched (stepped.attempt_bind (fun flow next flows => ?_)
    fun fault next failing => ?_)
  · cases flow with
    | proceed =>
        rcases flows with running | landed
        · exact ⟨Nat.lt_of_le_of_lt scope.le running.above, fun _ => running⟩
        · refine ⟨landed.depth ▸ landed.inner, fun above => ?_⟩
          exact absurd above (Nat.not_lt_of_le (Nat.le_of_eq landed.depth))
    | finish value => exact flows
    | suspend value => exact flows
  · have calm : start.fiber.activity.Calm manners := fun wakes =>
      running.below.state ▸ running.calm wakes
    refine ((meets_recover failing calm).mono (fun _ _ => id) (fun other next falls whole => ?_)
      fun _ => False.elim).bind fun _ next recovered => recovered
    obtain ⟨rfl, failing, depth⟩ := falls whole
    exact ⟨failing, depth⟩

/-! ## Run loops that can be interrupted -/

/-- Stop in a machine that is looked for. -/
def watch (stop : Machine → Bool) : Exec Unit := fun machine =>
  if stop machine then .error .exhausted machine else .ok () machine

/-- Run the frames at and above a depth for at most so many instructions, until a machine that is
looked for has been reached. -/
def loopUntil (stop : Machine → Bool) (engine : Engine) (root : Nat) : Nat → Exec Outcome
  | 0 => exhaust
  | steps + 1 => do
    watch stop
    match ← turn engine root with
    | none => loopUntil stop engine root steps
    | some outcome => return outcome

theorem loopUntil_never (engine : Engine) (root steps : Nat) :
    loopUntil (fun _ => false) engine root steps = loop engine root steps := by
  induction steps with
  | zero => rfl
  | succ steps ih =>
      rw [loopUntil, loop, ih]
      rfl

theorem Meets.watch_bind {α : Type} {stop : Machine → Bool} {action : Exec α}
    {done : α → Machine → Prop} {failed : Fault → Machine → Prop} {cut : Machine → Prop}
    (meets : action.Meets machine done failed cut) (here : cut machine) :
    (watch stop >>= fun _ => action).Meets machine done failed cut := by
  cases found : stop machine with
  | false =>
      have goes : watch stop machine = .ok () machine := by rw [watch, found]; rfl
      exact Meets.ok_bind goes meets
  | true =>
      have stops : watch stop machine = .error .exhausted machine := by rw [watch, found]; rfl
      rw [Meets, error_bind stops]
      exact here

theorem meets_loopUntil (calls : engine.SteadyCalls manners)
    (natives : engine.SteadyNatives manners) (whole : scope.mark = scope.root)
    (stop : Machine → Bool) (steps : Nat) (running : start.Running manners scope machine) :
    (loopUntil stop engine scope.root steps).Meets machine (start.Ends manners scope 1)
      (start.Falls manners scope) (start.Reaches manners) := by
  induction steps generalizing machine with
  | zero => exact running.reaches (Ready.reaches ⟨running.sound, running.shaped⟩)
  | succ steps ih =>
      refine Meets.watch_bind ?_ (running.reaches (Ready.reaches ⟨running.sound, running.shaped⟩))
      refine ((meets_turn calls natives running).mono (fun _ _ => id) (fun _ _ falls => falls whole)
        fun _ => id).bind fun result next turned => ?_
      cases result with
      | none => exact ih (turned.2 (whole ▸ turned.1))
      | some outcome => exact turned

end Exec

/-! ## Counting -/

namespace Machine

variable {manners : Manners} {scope : Scope} {start machine next : Machine}

/-- A run loop is active. -/
def nested (machine : Machine) : Machine := machine.mapFiber fun fiber =>
  { fiber with nativeCalls := fiber.nativeCalls + 1, nesting := fiber.nesting + 1 }

/-- A run loop is over. -/
def unnested (machine : Machine) : Machine := machine.mapFiber fun fiber =>
  { fiber with nativeCalls := fiber.nativeCalls - 1, nesting := fiber.nesting - 1 }

theorem Running.nested (running : start.Running manners scope machine) :
    start.nested.Running manners scope machine.nested := by
  have below := running.below
  refine ⟨⟨running.sound.changeFiber rfl rfl, running.rooted, running.deep, ?_, running.first,
    running.caller, running.slots, running.room, running.waiting, running.reporting⟩, running.above,
    running.shaped, running.logs, running.calm⟩
  exact ⟨below.frames, below.traps, below.maxSlots, below.natives,
    congrArg (· + 1) below.nativeCalls, congrArg (· + 1) below.nesting, below.syncCalls,
    below.state, below.suspended⟩

theorem Within.unnested (within : start.nested.Within scope next) :
    start.Within scope next.unnested := by
  have below := within.below
  refine ⟨within.sound.changeFiber rfl rfl, within.rooted, within.deep, ?_, within.first,
    within.caller, within.slots, within.room, within.waiting, within.reporting⟩
  exact ⟨below.frames, below.traps, below.maxSlots, below.natives,
    congrArg (· - 1) below.nativeCalls, congrArg (· - 1) below.nesting, below.syncCalls,
    below.state, below.suspended⟩

theorem Ends.unnested {outcome : Outcome} (ends : start.nested.Ends manners scope 1 outcome next) :
    start.Ends manners scope 0 outcome next.unnested := by
  cases outcome with
  | completed value =>
      obtain ⟨within, depth, logs⟩ := ends
      exact ⟨within.unnested, depth, logs⟩
  | suspended value =>
      have below := ends.below
      obtain ⟨nesting, natives, syncCalls⟩ := ends.alone
      refine ⟨ends.ready.changeFiber rfl rfl, ends.rooted, ⟨?_, natives, syncCalls⟩, ?_,
        ends.resumable, ends.waiting, ends.reporting, ends.logs, ends.within.unnested,
        fun active => absurd rfl active⟩
      · exact Nat.succ.inj nesting
      · exact ⟨below.frames, below.traps, below.maxSlots, below.natives,
          congrArg (· - 1) below.nativeCalls, congrArg (· - 1) below.nesting, below.syncCalls,
          below.state, rfl⟩

theorem Falls.unnested {fault : Fault} (falls : start.nested.Falls manners scope fault next) :
    start.Falls manners scope fault next.unnested := by
  obtain ⟨failing, depth⟩ := falls
  refine ⟨⟨failing.toWithin.unnested, ?_⟩, depth⟩
  have pends : start.Pends manners fault next := failing.pends
  exact pends.settle rfl fun raised remains =>
    remains.same rfl rfl (fun _ _ _ _ => rfl) rfl id

end Machine

namespace Exec

open Machine

variable {manners : Manners} {scope : Scope} {start machine : Machine} {engine : Engine}
  {extent : Extent} {given : Activity → Prop}

/-- A run loop is counted while it runs. -/
theorem meets_nestLoop (whole : scope.mark = scope.root)
    (running : start.Running manners scope machine) {body : Exec Outcome}
    (ends : body.Meets machine.nested (start.nested.Ends manners scope 1)
      (start.nested.Falls manners scope) (start.nested.Reaches manners)) :
    (nestLoop scope.root body).Meets machine (start.Ends manners scope 0)
      (start.Falls manners scope) (start.Reaches manners) := by
  refine Meets.get_bind (Meets.ofFiber_bind ?_)
  split
  · refine ((meets_unwindTo running.toWithin whole).mono (fun _ _ => id) (fun _ _ => False.elim)
      fun _ => False.elim).bind ?_
    rintro _ next ⟨within, depth, incidents, _⟩
    have fails : next.Fails manners (.below scope.floor) .nativeStackOverflow _ :=
      within.sound.fails (next.allowed_incident rfl .raised)
    exact ⟨⟨within.keeps (Nat.le_refl _) fails.keeps,
      fails.pends.trans (running.logs.same incidents) within.waiting within.reporting⟩, depth⟩
  · refine Meets.onFiber_bind ((ends.mono (fun _ _ => id) (fun _ _ => id) fun next reaches =>
      ?_).ensuring (fun _ _ ends => ends.unnested) fun _ _ falls => falls.unnested)
    exact ⟨reaches.ready, reaches.logs⟩

end Exec

/-! ## Calls that wait for their result -/

/-- The registers that a computation leaves alone are those below a place. -/
def Extent.floor : Extent → Stack → Nat
  | .all, stack => stack.size
  | .below floor, _ => floor

/-- The number of registers is put right. -/
theorem Extent.same_resize {extent : Extent} {before after : Stack}
    (room : extent.floor before ≤ after.size) (fits : extent.Fits before)
    (slots : ∀ place < extent.floor before, after.slots[place]? = before.slots[place]?) :
    extent.Same before ((after.truncate before.size).grow before.size) := by
  have size : ((after.truncate before.size).grow before.size).slots.size = before.size :=
    Stack.size_truncate_grow after before.size
  cases extent with
  | all =>
      refine Array.ext_getElem? fun place => ?_
      by_cases within : place < before.size
      · rw [Stack.slot_truncate_grow after (Nat.lt_of_lt_of_le within room) within]
        exact slots place within
      · have outside : before.slots.size ≤ place := Nat.le_of_not_lt within
        rw [Array.getElem?_eq_none outside, Array.getElem?_eq_none]
        rw [size]
        exact outside
  | below floor =>
      refine ⟨Nat.le_of_eq size.symm, fun place low => ?_⟩
      rw [Stack.slot_truncate_grow after (Nat.lt_of_lt_of_le low room)
        (Nat.lt_of_lt_of_le low fits)]
      exact slots place low

/-- The running fiber does the same, and the registers below a place are left alone. -/
structure Machine.Regains (floor : Nat) (before after : Machine) : Prop where
  /-- The machine is sound. -/
  sound : after.Sound
  /-- The running fiber does the same. -/
  activity : after.fiber.activity = before.fiber.activity
  /-- The registers are in use. -/
  room : floor ≤ after.fiber.stack.size
  /-- The registers are the same. -/
  slots : ∀ place < floor, after.fiber.stack.slots[place]? = before.fiber.stack.slots[place]?
  /-- The same fibers wait. -/
  waiting : after.waiting = before.waiting
  /-- As many error handlers are being run. -/
  reporting : after.reporting = before.reporting

namespace Machine

variable {manners : Manners} {scope : Scope} {before machine after : Machine} {floor : Nat}

theorem Keeps.regains (keeps : before.Keeps (.below floor) after)
    (fits : floor ≤ before.fiber.stack.size) : before.Regains floor after :=
  ⟨keeps.sound, keeps.activity, Nat.le_trans fits keeps.slots.1, keeps.slots.2, keeps.waiting,
    keeps.reporting⟩

/-- After a run loop that was started above the frames that are left, everything is as before. -/
theorem Within.regains (within : before.Within scope after) (sound : before.Sound)
    (started : before.fiber.stack.depth = scope.mark)
    (ended : after.fiber.stack.depth = scope.mark) : before.Regains scope.floor after :=
  ⟨within.sound,
    within.below.eq sound.fiber.activity within.sound.fiber.activity started ended, within.room,
    within.slots, within.waiting, within.reporting⟩

end Machine

namespace Exec

open Machine

variable {manners : Manners} {machine : Machine} {engine : Engine} {extent : Extent}
  {given : Activity → Prop}

/-- A computation that regains what the fiber was doing is steady as a call that waits for its
result. -/
theorem Steady.awaiting {inner : Nat → Exec Outcome}
    (free : ∀ activity, given activity →
      given { activity with syncCalls := activity.syncCalls + 1 })
    (ends : ∀ machine : Machine, machine.Ready → extent.Fits machine.fiber.stack →
      given machine.fiber.activity → machine.fiber.syncCalls ≠ 0 →
      (inner machine.fiber.stack.depth).Meets machine
        (fun _ next => machine.Regains (extent.floor machine.fiber.stack) next ∧
          machine.Logs manners none next)
        (fun fault next => machine.Regains (extent.floor machine.fiber.stack) next ∧
          machine.Pends manners fault next)
        (machine.Reaches manners)) :
    Steady manners extent given (do
      let size ← Exec.stackSize
      let root ← Exec.depth
      Exec.onFiber fun fiber => { fiber with syncCalls := fiber.syncCalls + 1 }
      let result ← Exec.attempt (inner root)
      Exec.onFiber fun fiber => { fiber with syncCalls := fiber.syncCalls - 1 }
      Exec.resize size
      match ← Exec.ofResult result with
      | .completed value => return value
      | .suspended _ => Exec.raise .nestedSuspension : Exec Value) := by
  intro machine ready fits holds
  refine Meets.ofFiber_bind (Meets.ofFiber_bind (Meets.onFiber_bind ?_))
  let counted := machine.mapFiber fun fiber => { fiber with syncCalls := fiber.syncCalls + 1 }
  let settled : Machine → Machine := fun next =>
    (next.mapFiber fun fiber => { fiber with syncCalls := fiber.syncCalls - 1 }).mapStack
      fun stack => (stack.truncate machine.fiber.stack.size).grow machine.fiber.stack.size
  -- Whatever the call ends with, the count and the registers are put right.
  have resized : ∀ next, counted.Regains (extent.floor machine.fiber.stack) next →
      Exec.resize machine.fiber.stack.size
        (next.mapFiber fun fiber => { fiber with syncCalls := fiber.syncCalls - 1 }) =
        .ok () (settled next) := by
    intro next regains
    have maxSlots : next.fiber.stack.maxSlots = machine.fiber.stack.maxSlots :=
      congrArg Activity.maxSlots regains.activity
    exact resize_eq (maxSlots ▸ ready.sound.fiber.room)
  have keeps : ∀ next, counted.Regains (extent.floor machine.fiber.stack) next →
      machine.Keeps extent (settled next) := by
    intro next regains
    have maxSlots : next.fiber.stack.maxSlots = machine.fiber.stack.maxSlots :=
      congrArg Activity.maxSlots regains.activity
    have restored : (next.mapFiber fun fiber =>
        { fiber with syncCalls := fiber.syncCalls - 1 }).Sound := regains.sound.changeFiber rfl rfl
    refine ⟨restored.resize (maxSlots ▸ ready.sound.fiber.room), ?_,
      Extent.same_resize regains.room fits regains.slots, regains.waiting, regains.reporting⟩
    have same : (settled next).fiber.activity =
        { next.fiber.activity with syncCalls := next.fiber.syncCalls - 1 } := by
      simp [settled, mapStack, mapFiber, Fiber.activity, Stack.truncate]
    rw [same, regains.activity]
    exact congrArg (fun count : Nat => { machine.fiber.activity with syncCalls := count })
      (congrArg (fun activity : Activity => activity.syncCalls - 1) regains.activity)
  have counting : counted.Ready := ready.changeFiber rfl rfl
  refine ((ends counted counting fits (free _ holds) (Nat.succ_ne_zero _)).mono (fun _ _ => id)
    (fun _ _ => id) fun _ reaches => ?_).attempt_bind ?_ ?_
  · exact ⟨reaches.ready, reaches.logs⟩
  · rintro outcome next ⟨regains, logs⟩
    refine Meets.onFiber_bind (Meets.ok_bind (resized next regains) ?_)
    have logs : machine.Logs manners none next := logs
    have returns : machine.Returns manners extent (settled next) :=
      ⟨keeps next regains, logs.same rfl⟩
    cases outcome with
    | completed value => exact returns
    | suspended value =>
        exact returns.fails (returns.keeps.sound.fails (Machine.allowed_incident _ rfl .raised))
  · rintro fault next ⟨regains, pends⟩
    refine Meets.onFiber_bind (Meets.ok_bind (resized next regains) ?_)
    have pends : machine.Pends manners fault next := pends
    refine ⟨keeps next regains, pends.settle rfl fun raised remains => ?_⟩
    refine remains.same ?_ rfl (fun frame current place low => ?_) rfl id
    · exact Stack.frames_grow _ _
    · have current : machine.fiber.stack.current? = some frame :=
        (congrArg (fun activity => activity.frames.back?) regains.activity).symm.trans current
      exact Stack.get_truncate_grow _ (Nat.lt_of_lt_of_le low (ready.shaped frame current))

/-- Running the frame that a call has added. -/
theorem meets_runEntered (steady : engine.Steady manners) (before : machine.Ready)
    (calm : machine.fiber.activity.Calm manners) {callee : Frame} {next : Machine}
    (isRoot : callee.isRoot = true) (enters : machine.Enters manners callee next)
    (busy : machine.fiber.natives ≠ [] ∨ machine.fiber.syncCalls ≠ 0) :
    (engine.runFrames machine.fiber.stack.depth).Meets next
      (fun outcome next => outcome = .completed outcome.value ∧
        machine.Regains callee.base next ∧ machine.Logs manners none next)
      (fun fault next => machine.Regains callee.base next ∧ machine.Pends manners fault next)
      (machine.Reaches manners) := by
  have running := enters.running isRoot calm
  refine (steady.runs rfl running).mono (fun outcome next ends => ?_) (fun fault next falls => ?_)
    fun _ => id
  · cases outcome with
    | completed value =>
        obtain ⟨within, depth, logs⟩ := ends
        exact ⟨rfl, within.regains before.sound rfl depth, logs⟩
    | suspended value =>
        obtain ⟨_, natives, syncCalls⟩ := ends.alone
        rcases busy with inside | waits
        · exact absurd natives inside
        · exact absurd syncCalls waits
  · obtain ⟨failing, depth⟩ := falls
    exact ⟨failing.toWithin.regains before.sound rfl depth, failing.pends⟩

theorem Steady.callAt (steady : engine.Steady manners) (callee : Value) (base count : Nat) :
    Steady manners (.below base) (fun activity => activity.Calm manners ∧ activity.Under base)
      (Exec.callAt engine callee base count) := by
  refine Steady.awaiting (fun _ => id) fun machine ready fits ⟨calm, under⟩ waits => ?_
  refine ((meets_callValue steady.calls steady.natives ready fits calm under callee count none
    true).mono (fun _ _ => id) (fun _ _ fails => ⟨fails.keeps.regains fits, fails.pends⟩)
    fun _ => id).bind fun result next started => ?_
  cases result with
  | pushed =>
      obtain ⟨frame, place, _, isRoot, enters⟩ := started
      refine (meets_runEntered steady ready calm isRoot enters (.inr waits)).mono ?_ ?_ fun _ => id
      · exact fun _ _ ⟨_, regains, logs⟩ => ⟨place ▸ regains, logs⟩
      · exact fun _ _ ⟨regains, pends⟩ => ⟨place ▸ regains, pends⟩
  | done value => exact ⟨started.keeps.regains fits, started.logs⟩
  | suspend value =>
      have fails : next.Fails manners (.below base) .nestedSuspension _ :=
        started.keeps.sound.fails (next.allowed_incident rfl .raised)
      have fails := started.fails fails
      exact ⟨fails.keeps.regains fits, fails.pends⟩

theorem Steady.resumeGenerator (steady : engine.Steady manners)
    (calm : ∀ activity, given activity → activity.Calm manners)
    (free : ∀ activity, given activity →
      given { activity with syncCalls := activity.syncCalls + 1 }) (ref : Ref .generator) :
    Steady manners .all given (Exec.resumeGenerator engine ref) := by
  refine Steady.awaiting free fun machine ready _ holds waits => ?_
  refine ((meets_resumeInto manners ready ref none true).mono (fun _ _ => id)
    (fun fault next fails => ?_) fun _ => False.elim).bind ?_
  · exact ⟨(fails.keeps.of_all _).regains (Nat.le_refl _), fails.pends⟩
  · rintro _ next ⟨callee, place, _, isRoot, enters⟩
    have place : callee.base = Extent.floor .all machine.fiber.stack := place
    refine (meets_runEntered steady ready (calm _ holds) isRoot enters (.inr waits)).mono ?_ ?_
      fun _ => id
    · exact fun _ _ ⟨_, regains, logs⟩ => ⟨place ▸ regains, logs⟩
    · exact fun _ _ ⟨regains, pends⟩ => ⟨place ▸ regains, pends⟩

end Exec

/-! ## Engines that can be interrupted -/

/-- The engine with a number of steps, until a machine that is looked for has been reached: between
two instructions, or where a call or a host function begins. -/
def Engine.until (stop : Machine → Bool) (host : Host) : Nat → Engine
  | 0 => .spent
  | steps + 1 =>
    { callAt := fun callee base count => do
        Exec.watch stop
        Exec.callAt (Engine.until stop host steps) callee base count
      runFrames := fun root =>
        Exec.nestLoop root (Exec.loopUntil stop (Engine.until stop host steps) root steps)
      native := fun symbol => do
        Exec.watch stop
        host symbol (Engine.until stop host steps) }

/-- An engine with one step more than another one, with functions of its own. -/
def Engine.onward (stop : Machine → Bool) (inner : Engine) (steps : Nat)
    (native : String → Exec NativeReturn) : Engine where
  callAt callee base count := do
    Exec.watch stop
    Exec.callAt inner callee base count
  runFrames root := Exec.nestLoop root (Exec.loopUntil stop inner root steps)
  native symbol := do
    Exec.watch stop
    native symbol

theorem Engine.until_succ (stop : Machine → Bool) (host : Host) (steps : Nat) :
    Engine.until stop host (steps + 1) =
      Engine.onward stop (Engine.until stop host steps) steps
        fun symbol => host symbol (Engine.until stop host steps) := rfl

/-- An engine that is never interrupted is the engine of the host. -/
theorem Engine.until_never (host : Host) (steps : Nat) :
    Engine.until (fun _ => false) host steps = Engine.ofHost host steps := by
  induction steps with
  | zero => rfl
  | succ steps ih =>
      rw [Engine.until, Engine.ofHost, ih]
      simp only [Exec.loopUntil_never]
      rfl

/-- Host functions are steady, whatever engine they are run with. -/
def Host.Steady (host : Host) (manners : Manners) : Prop :=
  ∀ engine : Engine, engine.Steady manners → ∀ symbol, Exec.Steady manners .all
    (fun activity => activity.natives ≠ [] ∧ activity.Calm manners) (host symbol engine)

theorem Engine.Steady.spent (manners : Manners) : Engine.spent.Steady manners :=
  ⟨fun _ _ _ => .exhaust, fun _ => .exhaust, fun _ running =>
    running.reaches (Machine.Ready.reaches ⟨running.sound, running.shaped⟩)⟩

/-- One step more with functions that are steady keeps machines sound. -/
theorem Engine.Steady.onward {inner : Engine} {manners : Manners} (steady : inner.Steady manners)
    (stop : Machine → Bool) (steps : Nat) {native : String → Exec NativeReturn}
    (natives : ∀ symbol, Exec.Steady manners .all
      (fun activity => activity.natives ≠ [] ∧ activity.Calm manners) (native symbol)) :
    (Engine.onward stop inner steps native).Steady manners := by
  refine ⟨fun callee base count machine ready fits holds => ?_,
    fun symbol machine ready fits holds => ?_, fun whole running => ?_⟩
  · exact Exec.Meets.watch_bind
      (Exec.Steady.callAt steady callee base count machine ready fits holds) ready.reaches
  · exact Exec.Meets.watch_bind (natives symbol machine ready fits holds) ready.reaches
  · exact Exec.meets_nestLoop whole running
      (Exec.meets_loopUntil steady.calls steady.natives whole stop steps running.nested)

/-- Whatever the number of steps, the engine keeps machines sound. -/
theorem Engine.steady_until {host : Host} {manners : Manners} (steady : host.Steady manners)
    (stop : Machine → Bool) (steps : Nat) : (Engine.until stop host steps).Steady manners := by
  induction steps with
  | zero => exact .spent manners
  | succ steps ih => exact ih.onward stop steps fun symbol => steady _ ih symbol

end ScriptMachine
