import ScriptMachine.Machine.Entry
import ScriptMachine.Proofs.Machine.Run

/-!
# Entries

An entry that a host function starts in its own fiber leaves everything as it was.  An entry into a
fiber in which nothing is active ends with nothing active: the fiber has come to its end, or it has
been suspended and can go on.
-/

namespace ScriptMachine

namespace Machine

variable {manners : Manners} {before machine after : Machine} {fault : Fault}

/-! ## Fibers in which nothing is active -/

theorem Keeps.still (keeps : before.Keeps .all after) (still : before.fiber.Still) :
    after.fiber.Still where
  natives := (congrArg Activity.natives keeps.activity).trans still.natives
  nativeCalls := (congrArg Activity.nativeCalls keeps.activity).trans still.nativeCalls
  nesting := (congrArg Activity.nesting keeps.activity).trans still.nesting
  syncCalls := (congrArg Activity.syncCalls keeps.activity).trans still.syncCalls

theorem Keeps.vacant (keeps : before.Keeps .all after) (vacant : before.fiber.Vacant) :
    after.fiber.Vacant where
  toStill := keeps.still vacant.toStill
  slots := Eq.trans keeps.slots vacant.slots
  frames := (congrArg Activity.frames keeps.activity).trans vacant.frames
  traps := (congrArg Activity.traps keeps.activity).trans vacant.traps
  state := (congrArg Activity.state keeps.activity).trans vacant.state
  suspended := (congrArg Activity.suspended keeps.activity).trans vacant.suspended

theorem Keeps.paused (keeps : before.Keeps .all after) (sound : before.Sound)
    (paused : before.fiber.Paused) : after.fiber.Paused where
  toStill := keeps.still paused.toStill
  state := (congrArg Activity.state keeps.activity).trans paused.state
  resumable := by
    obtain ⟨target, point, window⟩ := paused.resumable
    refine ⟨target, (congrArg Activity.suspended keeps.activity).trans point, ?_⟩
    rw [keeps.current]
    exact window
  rooted := keeps.activity ▸ paused.rooted
  shaped := (keeps.ready ⟨sound, paused.shaped⟩).shaped

theorem Keeps.atRest (keeps : before.Keeps .all after) (sound : before.Sound)
    (rest : before.fiber.AtRest) : after.fiber.AtRest := by
  rcases rest with vacant | paused
  · exact .inl (keeps.vacant vacant)
  · exact .inr (keeps.paused sound paused)

theorem shaped_of_vacant (vacant : machine.fiber.Vacant) : machine.fiber.Shaped := by
  intro frame current
  rw [Stack.current?, vacant.frames] at current
  exact absurd current (by simp)

theorem Sound.ready_of_atRest (sound : machine.Sound) (rest : machine.fiber.AtRest) :
    machine.Ready := by
  rcases rest with vacant | paused
  · exact ⟨sound, shaped_of_vacant vacant⟩
  · exact ⟨sound, paused.shaped⟩

/-- An entry has ended with the fiber at rest in some way. -/
structure Rests (rest : Fiber → Prop) (before after : Machine) : Prop where
  /-- The machine is sound. -/
  sound : after.Sound
  /-- The fiber is at rest. -/
  rest : rest after.fiber
  /-- The same fibers wait. -/
  waiting : after.waiting = before.waiting
  /-- As many error handlers are being run. -/
  reporting : after.reporting = before.reporting

/-- An entry has failed with a fault that no trap could catch. -/
def Escaped (manners : Manners) (before : Machine) (fault : Fault) (after : Machine) : Prop :=
  manners.catches = false → ∃ raised : Incident, before.Logs manners (some raised) after ∧
    raised.fault = fault ∧ raised.Escapes

theorem Rests.mono {rest wider : Fiber → Prop} (rests : before.Rests rest after)
    (wide : ∀ fiber, rest fiber → wider fiber) : before.Rests wider after :=
  ⟨rests.sound, wide _ rests.rest, rests.waiting, rests.reporting⟩

theorem Keeps.rests (keeps : before.Keeps .all after) (sound : before.Sound)
    (rest : before.fiber.AtRest) : before.Rests Fiber.AtRest after :=
  ⟨keeps.sound, keeps.atRest sound rest, keeps.waiting, keeps.reporting⟩

/-- What is left of a fault where nothing is active has met no live trap. -/
theorem escapes_of_atRest {raised : Incident} (remains : raised.Remains machine)
    (sound : machine.Sound) (rest : machine.fiber.AtRest) : raised.Escapes := by
  rcases rest with vacant | paused
  · exact remains.escapes vacant.traps
  · cases fatal : raised.fault.isFatal with
    | true => exact .inl fatal
    | false =>
        refine .inr (.inr ⟨remains.suspended paused.state, ?_⟩)
        rw [← remains.traps fatal]
        intro trap member index frame positive low found
        have within : trap.frame < machine.fiber.stack.depth :=
          sound.fiber.activity.lt_size (show trap ∈ machine.fiber.activity.traps from member)
        rw [← remains.frames index (Nat.lt_of_le_of_lt low within)] at found
        cases isRoot : frame.isRoot with
        | false => rfl
        | true =>
            have first := (paused.rooted index frame (Nat.zero_le _) found).mp isRoot
            exact absurd first (Nat.ne_of_gt positive)

theorem Pends.escaped (pends : before.Pends manners fault after) (sound : after.Sound)
    (rest : after.fiber.AtRest) : before.Escaped manners fault after := by
  intro honest
  obtain ⟨raised, logs, same, remains, _⟩ := pends honest
  exact ⟨raised, logs, same, escapes_of_atRest remains sound rest⟩

/-- What is active before an entry is known to the entry point. -/
structure Entered (point : EntryPoint) (machine : Machine) : Prop where
  /-- The registers below the entry are those in use. -/
  stackBase : point.stackBase = machine.fiber.stack.size
  /-- The frames below the entry are those of the fiber. -/
  rootDepth : point.rootDepth = machine.fiber.stack.depth
  /-- The outermost entry is one into a fiber in which nothing is active. -/
  outermost : point.outermost = true → machine.fiber.stack.size = 0 ∧
    machine.fiber.stack.depth = 0 ∧ machine.fiber.Still

/-- The frames that an entry adds to a machine. -/
def entryScope (machine : Machine) : Scope where
  root := machine.fiber.stack.depth
  mark := machine.fiber.stack.depth
  le := Nat.le_refl _
  floor := machine.fiber.stack.size
  target := none

theorem Sound.within_entryScope {machine : Machine} (sound : machine.Sound) :
    machine.Within machine.entryScope machine := by
  refine ⟨sound, Activity.rooted_of_size_eq rfl, Nat.le_refl _, .refl _ _, fun frame found => ?_,
    fun inner => absurd inner (Nat.lt_irrefl _), fun _ _ => rfl, Nat.le_refl _, rfl, rfl⟩
  have absent : machine.fiber.stack.frames[machine.fiber.stack.depth]? = none :=
    Array.getElem?_eq_none (Nat.le_refl _)
  exact absurd (absent.symm.trans found) (by simp)

end Machine

namespace Exec

open Machine

variable {manners : Manners} {start machine : Machine} {engine : Engine} {given : Activity → Prop}
  {fault : Fault}

/-! ## Calls from an entry point -/

theorem meets_beginEntry (steady : engine.Steady manners) (ready : machine.Ready)
    (calm : machine.fiber.activity.Calm manners) (point : EntryPoint)
    (entered : machine.Entered point) (callee this : Value) (arguments : List Value) :
    (beginEntry engine point callee this arguments).Meets machine
      (fun outcome next => match outcome with
        | .completed _ => machine.Regains machine.fiber.stack.size next ∧
            machine.Logs manners none next
        | .suspended _ => machine.Halted manners machine.entryScope 0 next)
      (fun fault next => machine.Regains machine.fiber.stack.size next ∧
        machine.Pends manners fault next)
      (machine.Reaches manners) := by
  let base := machine.fiber.stack.size
  have pushed : Steady manners (.below base) (fun _ => True)
    (Engine.pushArguments this arguments) := .pushArguments this arguments
  have under : machine.fiber.activity.Under base := fun frame current =>
    Nat.le_trans (Nat.le_add_right _ _) (ready.shaped frame current)
  refine ((pushed machine ready (Nat.le_refl _) trivial).mono (fun _ _ => id)
    (fun _ _ fails => ⟨fails.keeps.regains (Nat.le_refl _), fails.pends⟩) fun _ => id).bind
    fun _ next returns => ?_
  have fits : base ≤ next.fiber.stack.size := returns.keeps.slots.1
  rw [entered.stackBase]
  refine ((meets_callValue steady.calls steady.natives (returns.keeps.ready ready) fits
    (returns.keeps.activity ▸ calm) (returns.keeps.activity ▸ under) callee _ none true).mono
    (fun _ _ => id) (fun _ _ fails => ?_) fun _ => returns.reaches).bind fun result last began => ?_
  · have fails := returns.fails fails
    exact ⟨fails.keeps.regains (Nat.le_refl _), fails.pends⟩
  · cases result with
    | pushed =>
        obtain ⟨frame, place, target, isRoot, enters⟩ := began
        have place : frame.base = machine.fiber.stack.size := place
        have enters : machine.Enters manners frame last :=
          returns.enters (Nat.le_of_eq place) (Nat.le_of_eq place) enters
        have running := enters.running isRoot calm
        rw [place, target] at running
        rw [entered.rootDepth]
        have loops : (engine.runFrames machine.entryScope.root).Meets last _ _ _ :=
          steady.runs rfl running
        refine loops.mono (fun outcome next ends => ?_) (fun fault next falls => ?_) fun _ => id
        · cases outcome with
          | completed value =>
              obtain ⟨within, depth, logs⟩ := ends
              exact ⟨within.regains ready.sound rfl depth, logs⟩
          | suspended value => exact ends
        · obtain ⟨failing, depth⟩ := falls
          exact ⟨failing.toWithin.regains ready.sound rfl depth, failing.pends⟩
    | done value =>
        have returns := returns.trans began
        exact ⟨returns.keeps.regains (Nat.le_refl _), returns.logs⟩
    | suspend value =>
        have returns := returns.trans began
        cases outermost : point.outermost with
        | false =>
            have fails : machine.Fails manners (.below base) .nestedSuspension _ :=
              returns.fails (returns.keeps.sound.fails (last.allowed_incident rfl .raised))
            exact ⟨fails.keeps.regains (Nat.le_refl _), fails.pends⟩
        | true =>
            obtain ⟨size, depth, still⟩ := entered.outermost outermost
            have rooted : last.fiber.activity.Rooted machine.fiber.stack.depth :=
              returns.keeps.activity ▸ Activity.rooted_of_size_eq rfl
            have same : { last.fiber.activity with suspended := machine.fiber.suspended } =
                machine.fiber.activity := by
              rw [returns.keeps.activity]
              rfl
            have below : Activity.SameBelow machine.fiber.stack.depth machine.fiber.activity
                { last.fiber.activity with suspended := machine.fiber.suspended } :=
              same ▸ .refl _ _
            refine ⟨(returns.keeps.ready ready).changeFiber rfl rfl, rooted,
              ⟨still.nesting, still.natives, still.syncCalls⟩, below, ⟨none, ?_, by simp⟩,
              returns.keeps.waiting, returns.keeps.reporting, returns.logs.same rfl, ?_,
              fun active => absurd rfl active⟩
            · exact congrArg some (by rw [size, entered.rootDepth, depth])
            · have suspended : last.fiber.suspended = machine.fiber.suspended :=
                congrArg Activity.suspended returns.keeps.activity
              rw [← suspended]
              exact ready.sound.within_entryScope.keeps (Nat.le_refl _) returns.keeps

theorem unwindTo_eq (sound : machine.Sound) {root : Nat}
    (depth : machine.fiber.stack.depth = root) : unwindTo root machine = .ok () machine := by
  have low : ∀ trap ∈ machine.fiber.activity.traps, trap.frame < root :=
    fun trap member => depth ▸ sound.fiber.activity.lt_size member
  have same : machine.mapFiber (·.dropTraps root) = machine :=
    congrArg (fun traps : List Trap => { machine with fiber := { machine.fiber with traps } })
      (Activity.dropWhile_eq_self low)
  have none : discardFrames (machine.fiber.stack.depth - root) machine = .ok () machine := by
    rw [depth, Nat.sub_self]
    rfl
  show EStateM.bind (discardFrames (machine.fiber.stack.depth - root))
    (fun _ => onFiber (·.dropTraps root)) machine = _
  rw [EStateM.bind, none]
  exact congrArg (EStateM.Result.ok ()) same

/-! ## Entries of host functions -/

/-- An entry that a host function starts leaves everything as it was. -/
theorem Steady.runWithThis (steady : engine.Steady manners)
    (inside : ∀ activity, given activity → activity.natives ≠ []) (callee this : Value)
    (arguments : List Value) :
    Steady manners .all given (Exec.runWithThis engine callee this arguments) := by
  intro machine ready _ holds
  have natives : machine.fiber.natives ≠ [] := inside _ holds
  refine Meets.ofFiber_bind ?_
  dsimp only [id]
  split
  · exact ready.sound.fails (machine.allowed_incident rfl .raised)
  · have inner : machine.fiber.isOutermost = false := by
      simp [Fiber.isOutermost, natives]
    let entered := machine.mapFiber fun fiber => { fiber with state := .running }
    let point : EntryPoint :=
      { stackBase := machine.fiber.stack.size, rootDepth := machine.fiber.stack.depth
        previous := machine.fiber.state, outermost := machine.fiber.isOutermost }
    let settled : Machine → Machine := fun next =>
      (next.mapStack (·.truncate machine.fiber.stack.size)).mapFiber fun fiber =>
        { fiber with state := machine.fiber.state }
    have keeps : ∀ next, entered.Regains machine.fiber.stack.size next →
        machine.Keeps .all (settled next) := by
      intro next regains
      refine ⟨(regains.sound.truncate _).changeFiber rfl rfl, ?_,
        Extent.same_truncate regains.room regains.slots, regains.waiting, regains.reporting⟩
      exact congrArg (fun activity : Activity => { activity with state := machine.fiber.state })
        regains.activity
    have started : entered.Ready := ready.changeFiber rfl rfl
    have begun := meets_beginEntry steady started
      (fun _ => by simp [entered, Machine.mapFiber, Fiber.activity]) point
      ⟨rfl, rfl, fun outermost => absurd (inner.symm.trans outermost) Bool.false_ne_true⟩
      callee this arguments
    refine Meets.onFiber_bind ((begun.mono (fun _ _ => id) (fun _ _ => id) fun _ reaches =>
      ⟨reaches.ready, reaches.logs⟩).attempt_bind ?_ ?_)
    · intro outcome next ends
      cases outcome with
      | completed value =>
          have logs : machine.Logs manners none next := ends.2
          exact ⟨keeps next ends.1, logs.same rfl⟩
      | suspended value => exact absurd ends.alone.2.1 natives
    · rintro fault next ⟨regains, pends⟩
      have depth : next.fiber.stack.depth = machine.fiber.stack.depth :=
        congrArg (fun activity => activity.frames.size) regains.activity
      refine Meets.ok_bind (unwindTo_eq regains.sound depth) ?_
      refine Meets.ok_bind rfl (Meets.onFiber_bind ?_)
      rw [inner]
      have pends : machine.Pends manners fault next := pends
      refine ⟨keeps next regains, pends.settle rfl fun raised remains => ?_⟩
      refine remains.same rfl rfl (fun frame current place low => ?_) rfl fun suspended =>
        absurd suspended (by assumption)
      have current : machine.fiber.stack.current? = some frame :=
        (congrArg (fun activity => activity.frames.back?) regains.activity).symm.trans current
      exact Stack.get_truncate _ (Nat.lt_of_lt_of_le low (ready.shaped frame current))

end Exec

/-! ## Entries into a fiber in which nothing is active -/

/-- How the fiber rests after an entry with the outcome. -/
def Outcome.Leaves : Outcome → Fiber → Prop
  | .completed _ => Fiber.Vacant
  | .suspended _ => Fiber.Paused

theorem Outcome.atRest {outcome : Outcome} {fiber : Fiber} (leaves : outcome.Leaves fiber) :
    fiber.AtRest := by
  cases outcome with
  | completed => exact .inl leaves
  | suspended => exact .inr leaves

namespace Machine

variable {manners : Manners} {scope : Scope} {before machine after : Machine} {fault : Fault}

/-- Nothing is left of an entry but registers. -/
structure Emptied (before after : Machine) : Prop where
  /-- The machine is sound. -/
  sound : after.Sound
  /-- Nothing is active in the fiber. -/
  still : after.fiber.Still
  /-- It has no frames. -/
  depth : after.fiber.stack.depth = 0
  /-- It is not suspended. -/
  suspended : after.fiber.suspended = none
  /-- The same fibers wait. -/
  waiting : after.waiting = before.waiting
  /-- As many error handlers are being run. -/
  reporting : after.reporting = before.reporting

/-- The registers are dropped, and the fiber does nothing. -/
def emptied (machine : Machine) : Machine :=
  (machine.mapStack (·.truncate 0)).mapFiber fun fiber => { fiber with state := .idle }

theorem Emptied.traps (emptied : before.Emptied after) : after.fiber.traps = [] := by
  refine List.eq_nil_iff_forall_not_mem.mpr fun trap member => ?_
  have member : trap ∈ after.fiber.activity.traps := member
  have within := emptied.sound.fiber.activity.lt_size member
  have depth : after.fiber.activity.frames.size = 0 := emptied.depth
  exact absurd (depth ▸ within) (Nat.not_lt_zero _)

theorem Emptied.rests (emptied : before.Emptied after) :
    before.Rests Fiber.Vacant after.emptied where
  sound := (emptied.sound.truncate 0).changeFiber rfl rfl
  rest :=
    ⟨⟨emptied.still.natives, emptied.still.nativeCalls, emptied.still.nesting,
      emptied.still.syncCalls⟩, Array.eq_empty_of_size_eq_zero
        ((Stack.size_truncate _ _).trans (Nat.min_zero _)),
      Array.eq_empty_of_size_eq_zero emptied.depth, emptied.traps, rfl, emptied.suspended⟩
  waiting := emptied.waiting
  reporting := emptied.reporting

theorem SameBelow.still {root : Nat} {fiber : Fiber} {activity : Activity}
    (below : Activity.SameBelow root before.fiber.activity activity)
    (same : activity = { fiber.activity with suspended := activity.suspended })
    (still : before.fiber.Still) : fiber.Still where
  natives := (congrArg Activity.natives same).symm.trans (below.natives.trans still.natives)
  nativeCalls :=
    (congrArg Activity.nativeCalls same).symm.trans (below.nativeCalls.trans still.nativeCalls)
  nesting := (congrArg Activity.nesting same).symm.trans (below.nesting.trans still.nesting)
  syncCalls :=
    (congrArg Activity.syncCalls same).symm.trans (below.syncCalls.trans still.syncCalls)

theorem Within.emptied (within : before.Within scope after) (still : before.fiber.Still)
    (suspended : before.fiber.suspended = none) (depth : after.fiber.stack.depth = 0) :
    before.Emptied after :=
  ⟨within.sound, SameBelow.still within.below rfl still, depth,
    within.below.suspended.trans suspended, within.waiting, within.reporting⟩

theorem Regains.emptied {floor : Nat} (regains : before.Regains floor after)
    (still : before.fiber.Still) (suspended : before.fiber.suspended = none)
    (depth : before.fiber.stack.depth = 0) : before.Emptied after := by
  have below : Activity.SameBelow 0 before.fiber.activity after.fiber.activity :=
    regains.activity ▸ .refl 0 _
  refine ⟨regains.sound, SameBelow.still below rfl still, ?_, below.suspended.trans suspended,
    regains.waiting, regains.reporting⟩
  exact (congrArg (fun activity => activity.frames.size) regains.activity).trans depth

/-- The fiber is suspended where its outermost run loop has stopped. -/
def suspendedAt (machine : Machine) : Machine := machine.mapFiber fun fiber =>
  { fiber with
    state := .suspended
    suspended := some ⟨fiber.suspended.bind SuspendPoint.target, 0, 0⟩ }

theorem Halted.rests {nesting : Nat} (halted : before.Halted manners scope nesting after)
    (root : scope.root = 0) (still : before.fiber.Still) :
    before.Rests Fiber.Paused after.suspendedAt := by
  refine ⟨halted.ready.sound.changeFiber rfl rfl, ?_, halted.waiting, halted.reporting⟩
  have stays : after.fiber.Still := SameBelow.still halted.below rfl still
  obtain ⟨target, point, window⟩ := halted.resumable
  have named : after.fiber.suspended.bind SuspendPoint.target = target := by rw [point]; rfl
  refine ⟨⟨stays.natives, stays.nativeCalls, stays.nesting, stays.syncCalls⟩, rfl,
    ⟨target, ?_, window⟩, root ▸ halted.rooted, halted.ready.shaped⟩
  exact congrArg (fun target => some (SuspendPoint.mk target 0 0)) named

/-- The error handler is being told of a fault. -/
def telling (machine : Machine) (fault : Fault) : Machine :=
  { machine.note .reported fault with handler := none, reporting := machine.reporting + 1 }

theorem Sound.telling (sound : machine.Sound) (fault : Fault) : (machine.telling fault).Sound := by
  have noted : machine.Keeps .all (machine.note .reported fault) :=
    sound.note fun raises => absurd raises Bool.false_ne_true
  exact ⟨sound.heap, sound.fiber, sound.waiting, sound.routines, noted.sound.incidents⟩

/-- What happens while the error handler is told of a fault belongs to the fault. -/
theorem Escaped.telling (escaped : before.Escaped manners fault machine)
    (waiting : machine.waiting = before.waiting)
    (reporting : machine.reporting = before.reporting) (honest : manners.catches = false)
    {inner : List Incident} {pending : Option Incident}
    (ordered : Orderly machine.waiting.length (machine.reporting + 1) inner pending)
    (escapes : ∀ raised, pending = some raised → raised.Escapes)
    (joined : after.incidents = inner ++ (machine.telling fault).incidents) :
    ∃ raised : Incident, raised.fault = fault ∧ raised.Escapes ∧ ∃ added,
      after.incidents = added ++ before.incidents ∧
        Orderly before.waiting.length before.reporting added (some raised) := by
  obtain ⟨raised, logs, same, met⟩ := escaped honest
  obtain ⟨added, earlier, orderly⟩ := logs honest
  have told : (machine.telling fault).incidents =
      machine.incident .reported fault :: machine.incidents := rfl
  refine ⟨raised, same, met, inner ++ machine.incident .reported fault :: added, ?_, ?_⟩
  · rw [joined, told, earlier, List.append_assoc, List.cons_append]
  · rw [waiting, reporting] at ordered
    exact .handler orderly met rfl same.symm (congrArg List.length waiting) reporting
      ordered escapes

end Machine

namespace Exec

open Machine

variable {manners : Manners} {start machine : Machine} {engine : Engine} {fault : Fault}

/-- The error handler does its work in a fiber in which nothing is active; its own faults are
dropped. -/
theorem meets_report (steady : engine.Steady manners) (rests : start.Rests Fiber.Vacant machine)
    (escaped : start.Escaped manners fault machine) :
    (report engine fault).Meets machine
      (fun _ next => start.Rests Fiber.Vacant next ∧ start.Escaped manners fault next)
      (fun _ _ => False) (start.Reaches manners) := by
  refine Meets.get_bind ?_
  cases machine.handler with
  | none => exact ⟨rests, escaped⟩
  | some handler =>
      let telling := machine.telling fault
      have sound : telling.Sound := rests.sound.telling fault
      have vacant : telling.fiber.Vacant := rests.rest
      have calls : Steady manners .all (fun activity => activity.state = .idle)
          (engine.callSync handler (.table machine.root) [fault.toValue]) :=
        .callSync steady.calls (fun _ idle _ => by rw [idle]; decide) _ _ _
      have told := calls telling (sound.ready_of_atRest (.inl vacant)) trivial vacant.state
      let settled : Machine → Machine := fun next =>
        { next with handler := some handler, reporting := next.reporting - 1 }
      have back : ∀ next, telling.Keeps .all next → start.Rests Fiber.Vacant (settled next) := by
        intro next keeps
        have sound := keeps.sound
        refine ⟨⟨sound.heap, sound.fiber, sound.waiting, sound.routines, sound.incidents⟩,
          keeps.vacant vacant, keeps.waiting.trans rests.waiting, ?_⟩
        exact (congrArg (· - 1) keeps.reporting).trans rests.reporting
      have joins : ∀ {pending : Option Incident} {next : Machine},
          telling.Logs manners pending next →
          (∀ raised, pending = some raised → raised.Escapes) →
          start.Escaped manners fault (settled next) := by
        intro pending next logs escapes honest
        obtain ⟨inner, joined, ordered⟩ := logs honest
        obtain ⟨raised, same, met, added, further, orderly⟩ :=
          escaped.telling rests.waiting rests.reporting honest ordered escapes joined
        exact ⟨raised, fun _ => ⟨added, further, orderly⟩, same, met⟩
      refine Meets.ok_bind rfl (Meets.modify_bind ((told.mono (fun _ _ => id) (fun _ _ => id)
        fun next reaches => ?_).discard_attempt_bind (fun _ next returns => ?_)
        fun own next fails => ?_))
      · refine ⟨reaches.ready, fun honest => ?_⟩
        obtain ⟨inner, joined, settled⟩ := reaches.logs honest
        obtain ⟨raised, logs, _, met⟩ := escaped honest
        obtain ⟨added, earlier, orderly⟩ := logs honest
        have before : Settled added := orderly.settled fun other same => Option.some.inj same ▸ met
        have told : telling.incidents = machine.incident .reported fault :: machine.incidents := rfl
        refine ⟨inner ++ machine.incident .reported fault :: added, ?_,
          settled.append (before.cons rfl)⟩
        rw [joined, told, earlier, List.append_assoc, List.cons_append]
      · exact ⟨back next returns.keeps, joins returns.logs (by simp)⟩
      · have rests := back next fails.keeps
        refine ⟨rests, fun honest => ?_⟩
        obtain ⟨raised, logs, _, remains, _⟩ := fails.pends honest
        refine joins logs (fun other same => ?_) honest
        obtain rfl := Option.some.inj same
        exact escapes_of_atRest remains fails.keeps.sound (.inl (fails.keeps.vacant vacant))

/-- The outermost entry ends with its fiber at rest. -/
theorem meets_finishEntry (steady : engine.Steady manners) (still : start.fiber.Still)
    {result : Except Fault Outcome}
    (ended : match result with
      | .ok (.completed _) => start.Emptied machine ∧ start.Logs manners none machine
      | .ok (.suspended _) => ∃ scope : Scope, scope.root = 0 ∧
          start.Halted manners scope 0 machine
      | .error fault => start.Emptied machine ∧ start.Pends manners fault machine) :
    (finishEntry engine
      { stackBase := 0, rootDepth := 0, previous := .idle, outermost := true } result).Meets machine
      (fun outcome next => start.Rests outcome.Leaves next ∧ start.Logs manners none next)
      (fun fault next => start.Rests Fiber.Vacant next ∧ start.Escaped manners fault next)
      (start.Reaches manners) := by
  cases result with
  | ok outcome =>
      cases outcome with
      | completed value => exact ⟨ended.1.rests, ended.2.same rfl⟩
      | suspended value =>
          obtain ⟨scope, root, halted⟩ := ended
          exact ⟨halted.rests root still, halted.logs.same rfl⟩
  | error fault =>
      obtain ⟨emptied, pends⟩ := ended
      refine Meets.ok_bind (unwindTo_eq emptied.sound emptied.depth) ?_
      refine Meets.ok_bind rfl (Meets.onFiber_bind ?_)
      have escaped : start.Escaped manners fault machine.emptied := fun honest => by
        obtain ⟨raised, logs, same, remains, _⟩ := pends honest
        exact ⟨raised, logs.same rfl, same, remains.escapes emptied.traps⟩
      refine ((meets_report steady emptied.rests escaped).mono (fun _ _ => id)
        (fun _ _ => False.elim) fun _ => id).bind fun _ next told => told

/-- What an entry leads to does not depend on the state that the fiber has been in. -/
theorem Meets.entered (before : Machine) {action : Exec Outcome}
    (incidents : before.incidents = start.incidents) (waiting : before.waiting = start.waiting)
    (reporting : before.reporting = start.reporting)
    (meets : action.Meets machine
      (fun outcome next => before.Rests outcome.Leaves next ∧ before.Logs manners none next)
      (fun fault next => before.Rests Fiber.Vacant next ∧ before.Escaped manners fault next)
      (before.Reaches manners)) :
    action.Meets machine
      (fun outcome next => start.Rests outcome.Leaves next ∧ start.Logs manners none next)
      (fun fault next => start.Rests Fiber.Vacant next ∧ start.Escaped manners fault next)
      (start.Reaches manners) := by
  have logs : start.Logs manners none before := logs_of_eq incidents
  have rests : ∀ {rest : Fiber → Prop} {next : Machine}, before.Rests rest next →
      start.Rests rest next := fun rests =>
    ⟨rests.sound, rests.rest, rests.waiting.trans waiting, rests.reporting.trans reporting⟩
  refine meets.mono (fun _ _ done => ⟨rests done.1, logs.trans waiting reporting done.2⟩)
    (fun _ _ failed => ⟨rests failed.1, fun honest => ?_⟩) fun _ => .trans logs
  obtain ⟨raised, later, rest⟩ := failed.2 honest
  exact ⟨raised, logs.trans waiting reporting later, rest⟩

/-- An entry by a call leaves nothing in the fiber, or suspends it. -/
theorem meets_runWithThis (steady : engine.Steady manners) (sound : machine.Sound)
    (vacant : machine.fiber.Vacant) (callee this : Value) (arguments : List Value) :
    (Exec.runWithThis engine callee this arguments).Meets machine
      (fun outcome next => machine.Rests outcome.Leaves next ∧ machine.Logs manners none next)
      (fun fault next => machine.Rests Fiber.Vacant next ∧ machine.Escaped manners fault next)
      (machine.Reaches manners) := by
  refine Meets.ofFiber_bind ?_
  dsimp only [id]
  rw [if_neg (by rw [vacant.state]; decide)]
  let entered := machine.mapFiber fun fiber => { fiber with state := .running }
  have size : machine.fiber.stack.size = 0 := congrArg Array.size vacant.slots
  have depth : machine.fiber.stack.depth = 0 := congrArg Array.size vacant.frames
  have outermost : machine.fiber.isOutermost = true := by
    simp [Fiber.isOutermost, vacant.natives, vacant.nesting, vacant.syncCalls]
  rw [size, depth, outermost, vacant.state]
  have ready : entered.Ready := (sound.ready_of_atRest (.inl vacant)).changeFiber rfl rfl
  have still : entered.fiber.Still :=
    ⟨vacant.natives, vacant.nativeCalls, vacant.nesting, vacant.syncCalls⟩
  have begun := meets_beginEntry steady ready (fun _ => by simp [entered, mapFiber, Fiber.activity])
    ⟨0, 0, .idle, true⟩ ⟨size.symm, depth.symm, fun _ => ⟨size, depth, still⟩⟩ callee this arguments
  have emptied : ∀ {next : Machine}, entered.Regains entered.fiber.stack.size next →
      entered.Emptied next := fun regains => regains.emptied still vacant.suspended depth
  refine Meets.onFiber_bind (Meets.entered entered rfl rfl rfl ?_)
  refine begun.attempt_bind ?_ ?_
  · intro outcome next ends
    refine meets_finishEntry steady still ?_
    cases outcome with
    | completed value => exact ⟨emptied ends.1, ends.2⟩
    | suspended value => exact ⟨entered.entryScope, depth, ends⟩
  · rintro fault next ⟨regains, pends⟩
    exact meets_finishEntry steady still ⟨emptied regains, pends⟩

/-- The register that receives the value is in use, and the run loop of the fiber goes on. -/
theorem exists_deliver (manners : Manners) (ready : machine.Ready)
    (calm : machine.fiber.activity.Calm manners) (rooted : machine.fiber.activity.Rooted 0)
    (above : 0 < machine.fiber.stack.depth) {target : Option UInt8}
    (window : ∀ number frame, target = some number →
      machine.fiber.stack.current? = some frame → frame.base + number.toNat < frame.top)
    (value : Value) :
    ∃ next result, deliver target value machine = .ok () next ∧
      machine.Running manners ⟨0, 0, Nat.le_refl 0, 0, result, none⟩ next := by
  obtain ⟨frame, current⟩ := exists_current above
  have base : machine.fiber.base = frame.base := by
    rw [Fiber.base, current]
    rfl
  have delivered : ∃ next, deliver target value machine = .ok () next ∧
      machine.Returns manners (.below 0) next := by
    cases target with
    | none => exact ⟨machine, rfl, ready.sound.returns⟩
    | some number =>
        have within : frame.base + number.toNat < machine.fiber.stack.size :=
          Nat.lt_of_lt_of_le (window number frame rfl current) (ready.shaped frame current)
        have assigns : Direct manners (.below 0) (setPlace (frame.base + number.toNat) value) :=
          .setPlace (Nat.zero_le _) value
        have assigned := assigns machine ready.sound (Nat.zero_le _)
        rw [Meets, setPlace_eq within] at assigned
        exact ⟨_, setRegister_eq base within value, assigned.1⟩
  obtain ⟨next, assigned, returns⟩ := delivered
  have first : machine.fiber.stack.frames[0]? = .some machine.fiber.stack.frames[0] :=
    Array.getElem?_eq_getElem above
  have whole := ready.sound.within rooted (Nat.le_refl 0) first
  have frames : next.fiber.stack.frames = machine.fiber.stack.frames :=
    congrArg Activity.frames returns.keeps.activity
  refine ⟨next, _, assigned, whole.keeps (Nat.le_refl _) returns.keeps, ?_,
    (returns.keeps.ready ready).shaped, returns.logs, returns.keeps.activity ▸ calm⟩
  rw [Stack.depth, frames]
  exact above

/-- The frames of a suspended fiber go on with a value. -/
theorem meets_continueAt (steady : engine.Steady manners) (ready : machine.Ready)
    (calm : machine.fiber.activity.Calm manners) (rooted : machine.fiber.activity.Rooted 0)
    (still : machine.fiber.Still) (suspended : machine.fiber.suspended = none)
    {target : Option UInt8} (window : ∀ number frame, target = some number →
      machine.fiber.stack.current? = some frame → frame.base + number.toNat < frame.top)
    (value : Value) :
    (continueAt engine ⟨target, 0, 0⟩ value).Meets machine
      (fun outcome next => match outcome with
        | .completed _ => machine.Emptied next ∧ machine.Logs manners none next
        | .suspended _ => ∃ scope : Scope, scope.root = 0 ∧ machine.Halted manners scope 0 next)
      (fun fault next => machine.Emptied next ∧ machine.Pends manners fault next)
      (machine.Reaches manners) := by
  refine Meets.ofFiber_bind ?_
  split
  · rename_i none
    refine ⟨⟨ready.sound, still, ?_, suspended, rfl, rfl⟩, logs_of_eq rfl⟩
    exact Nat.eq_zero_of_le_zero none
  · rename_i some
    obtain ⟨next, result, assigned, running⟩ :=
      exists_deliver manners ready calm rooted (Nat.lt_of_not_le some) window value
    refine Meets.ok_bind assigned ?_
    let scope : Scope := ⟨0, 0, Nat.le_refl 0, 0, result, none⟩
    have loops : (engine.runFrames scope.root).Meets next _ _ _ := steady.runs rfl running
    refine loops.mono (fun outcome last ends => ?_) (fun fault last falls => ?_) fun _ => id
    · cases outcome with
      | completed value =>
          obtain ⟨within, depth, logs⟩ := ends
          exact ⟨within.emptied still suspended depth, logs⟩
      | suspended value => exact ⟨scope, rfl, ends⟩
    · obtain ⟨failing, depth⟩ := falls
      exact ⟨failing.toWithin.emptied still suspended depth, failing.pends⟩

/-- Waking a suspended fiber ends with nothing left in it, or suspends it again. -/
theorem meets_wakeup (steady : engine.Steady manners) (sound : machine.Sound)
    (paused : machine.fiber.Paused) (value : Value) :
    (Exec.wakeup engine value).Meets machine
      (fun outcome next => machine.Rests outcome.Leaves next ∧ machine.Logs manners none next)
      (fun fault next => machine.Rests Fiber.Vacant next ∧ machine.Escaped manners fault next)
      (machine.Reaches manners) := by
  obtain ⟨target, point, window⟩ := paused.resumable
  refine Meets.ofFiber_bind ?_
  rw [if_pos paused.state]
  refine Meets.ofFiber_bind ?_
  rw [point]
  let woken := machine.mapFiber fun fiber =>
    { fiber with state := .running, suspended := none }
  have ready : woken.Ready := Ready.changeFiber ⟨sound, paused.shaped⟩ rfl rfl
  have still : woken.fiber.Still :=
    ⟨paused.natives, paused.nativeCalls, paused.nesting, paused.syncCalls⟩
  have calm : woken.fiber.activity.Calm manners := fun _ => by
    simp [woken, mapFiber, Fiber.activity]
  have rooted : woken.fiber.activity.Rooted 0 := paused.rooted
  have continued := meets_continueAt steady ready calm rooted still rfl window value
  refine Meets.onFiber_bind (Meets.entered woken rfl rfl rfl ?_)
  refine continued.attempt_bind (fun outcome next ends => ?_) fun fault next falls => ?_
  · refine meets_finishEntry steady still ?_
    cases outcome with
    | completed value => exact ends
    | suspended value => exact ends
  · exact meets_finishEntry steady still falls

end Exec

namespace Machine

variable {manners : Manners} {before machine after : Machine} {fault : Fault}

/-- A computation has failed with the fiber at rest. -/
def Refuses (manners : Manners) (before : Machine) (fault : Fault) (after : Machine) : Prop :=
  before.Rests Fiber.AtRest after ∧ before.Escaped manners fault after

theorem Sound.refuses (sound : machine.Sound) (rest : machine.fiber.AtRest)
    (plain : fault.isPlain = true) : machine.Refuses manners fault (machine.record fault) := by
  have noted : machine.Keeps .all (machine.record fault) :=
    sound.note (machine.allowed_incident plain .raised)
  have rests := noted.rests sound rest
  exact ⟨rests, (sound.pends fault).escaped rests.sound rests.rest⟩

theorem Rests.refuses (rests : before.Rests Fiber.Vacant after)
    (escaped : before.Escaped manners fault after) : before.Refuses manners fault after :=
  ⟨rests.mono fun _ => .inl, escaped⟩

end Machine

namespace Exec

open Machine

variable {manners : Manners} {machine : Machine} {engine : Engine}

/-- A suspended fiber is not entered by a call. -/
theorem runWithThis_of_suspended (engine : Engine) (state : machine.fiber.state = .suspended)
    (callee this : Value) (arguments : List Value) :
    Exec.runWithThis engine callee this arguments machine =
      .error (.raised .suspendedCall) (machine.record .suspendedCall) := by
  have looked : ofFiber id machine = .ok machine.fiber machine := rfl
  refine (ok_bind looked).trans ?_
  dsimp only
  rw [if_pos state]
  rfl

/-- Only a suspended fiber is woken. -/
theorem wakeup_of_not_suspended (engine : Engine) (state : machine.fiber.state ≠ .suspended)
    (value : Value) :
    Exec.wakeup engine value machine =
      .error (.raised (.notSuspended machine.fiber.state.name))
        (machine.record (.notSuspended machine.fiber.state.name)) := by
  have looked : ofFiber (·.state) machine = .ok machine.fiber.state machine := rfl
  refine (ok_bind looked).trans ?_
  rw [if_neg state]
  rfl

theorem meets_runWithThis_atRest (steady : engine.Steady manners) (sound : machine.Sound)
    (rest : machine.fiber.AtRest) (callee this : Value) (arguments : List Value) :
    (Exec.runWithThis engine callee this arguments).Meets machine
      (fun outcome next => machine.Rests outcome.Leaves next ∧ machine.Logs manners none next)
      (machine.Refuses manners) (machine.Reaches manners) := by
  rcases rest with vacant | paused
  · exact (meets_runWithThis steady sound vacant callee this arguments).mono (fun _ _ => id)
      (fun _ _ failed => failed.1.refuses failed.2) fun _ => id
  · rw [Meets, runWithThis_of_suspended engine paused.state]
    exact sound.refuses (.inr paused) rfl

theorem meets_wakeup_atRest (steady : engine.Steady manners) (sound : machine.Sound)
    (rest : machine.fiber.AtRest) (value : Value) :
    (Exec.wakeup engine value).Meets machine
      (fun outcome next => machine.Rests outcome.Leaves next ∧ machine.Logs manners none next)
      (machine.Refuses manners) (machine.Reaches manners) := by
  rcases rest with vacant | paused
  · rw [Meets, wakeup_of_not_suspended engine (by rw [vacant.state]; decide)]
    exact sound.refuses (.inl vacant) rfl
  · exact (meets_wakeup steady sound paused value).mono (fun _ _ => id)
      (fun _ _ failed => failed.1.refuses failed.2) fun _ => id

end Exec

end ScriptMachine
