import ScriptMachine.Proofs.Machine.Threads

/-!
# Hosts

Host functions that use the machine only through what it offers them are steady, and what the host
itself asks of the machine leaves its fiber at rest.  There is one condition: where host functions
may wake the running fiber, nothing is called in a suspended fiber to wait for the result.
-/

namespace ScriptMachine

open Exec

variable {α β : Type}

/-! ## Host functions -/

namespace Exec

open Machine

variable {manners outer : Manners} {given : Activity → Prop} {engine : Engine} {action : Exec α}

/-- A fault that is caught is not pending any more. -/
theorem Steady.attempt (catches : manners.catches = true)
    (steady : Steady manners .all given action) : Steady manners .all given (Exec.attempt action) :=
  fun machine ready fits holds =>
    (steady machine ready fits holds).attempt.mono
      (fun result next ended => by
        cases result with
        | ok value => exact ended
        | error fault =>
            exact ⟨ended.keeps, fun honest => absurd (honest.symm.trans catches) (by decide)⟩)
      (fun _ _ => False.elim) fun _ => id

/-- What host functions do by the means that are offered is steady. -/
theorem Steady.service (steady : engine.Steady manners) (serves : engine.Serves outer action)
    (verified : outer.trusts = false) (catches : outer.catches = manners.catches)
    (calm : outer.calls = true → ∀ activity, given activity → activity.Calm manners)
    (free : ∀ activity, given activity →
      given { activity with syncCalls := activity.syncCalls + 1 })
    (inside : outer.enters = true → ∀ activity, given activity → activity.natives ≠ [])
    (awake : outer.wakes = true → ∀ activity, given activity → activity.state ≠ .suspended) :
    Steady manners .all given action := by
  induction serves with
  | operates allowed operates => exact .operates steady.calls (calm allowed) operates
  | quiet operates => exact .quiet operates
  | bind _ _ first further => exact first.bind further
  | keeping indices _ ih => exact ih.keeping indices
  | attempt allowed _ ih => exact ih.attempt (catches ▸ allowed)
  | passOn allowed fault =>
      intro machine ready _ _
      exact ⟨ready.sound.keeps,
        fun honest => absurd (honest.symm.trans (catches ▸ allowed)) (by decide)⟩
  | adjust look printed handler =>
      intro machine ready _ _
      exact ready.sound.alike ⟨rfl, rfl, .refl .all _, id, rfl, rfl, rfl, rfl⟩
  | settle =>
      intro machine ready _ _
      exact Machine.Keeps.setHeap (ready.sound.release machine.external)
  | collect =>
      intro machine ready _ _
      exact ⟨⟨ready.sound.collect, rfl, .refl .all _, rfl, rfl⟩, logs_of_eq rfl⟩
  | closureOver allowed => exact absurd (verified.symm.trans allowed) (by decide)
  | loadFunction prototype => exact .loadRoutine (fun _ sound => .closureOver sound) prototype
  | loadPrototype prototype => exact .loadRoutine (fun _ sound => .newRoutine sound) prototype
  | newClosure value => exact .newClosure value
  | runWithThis allowed callee this arguments =>
      exact .runWithThis steady (inside allowed) callee this arguments
  | wakeup allowed value =>
      intro machine ready _ holds
      rw [Meets, wakeup_of_not_suspended engine (awake allowed _ holds)]
      exact ready.sound.fails (machine.allowed_incident rfl .raised)
  | resumeGenerator allowed ref => exact .resumeGenerator steady (calm allowed) free ref
  | newThread => exact .newThread
  | setThreadFunction ref entry => exact .setThreadFunction ref entry
  | threadCall ref arguments => exact .threadCall steady ref arguments
  | threadWakeup ref value => exact .threadWakeup steady ref value

/-- What a host function that has begun does by the means that are offered is steady. -/
theorem Steady.served (steady : engine.Steady manners) (serves : engine.Serves manners action)
    (verified : manners.trusts = false) : Steady manners .all
      (fun activity => activity.natives ≠ [] ∧ activity.Calm manners) action :=
  .service steady serves verified rfl (fun _ _ holds => holds.2) (fun _ => id)
    (fun _ _ holds => holds.1) fun wakes _ holds => holds.2 wakes

end Exec

/-- Host functions that use the machine only through what it offers are steady. -/
theorem Host.Serves.steady {host : Host} {manners : Manners} (serves : host.Serves manners)
    (verified : manners.trusts = false) : host.Steady manners :=
  fun engine steady symbol => .served steady (serves symbol engine) verified

/-! ## The host -/

/-- What the host itself may do while nothing is active, if its functions have manners. -/
def Manners.ofHost (manners : Manners) : Manners :=
  { manners with wakes := true, calls := !manners.wakes, enters := true }

/-- Without entries into the fiber. -/
def Manners.modest (manners : Manners) : Manners :=
  { manners with wakes := false, enters := false }

/-- What the host asks of a machine in which nothing is active. -/
inductive Engine.Commands (engine : Engine) (manners : Manners) (machine : Machine)
    (action : Exec α) : Prop
  /-- It uses whatever is offered, but calls nothing to wait for the result where its functions
  might wake the fiber. -/
  | serves (serves : engine.Serves manners.ofHost action)
  /-- It calls something to wait for the result in a fiber that is not suspended. -/
  | calls (awake : machine.fiber.state ≠ .suspended)
      (serves : engine.Serves { manners.modest with calls := true } action)

namespace Exec

open Machine

variable {manners : Manners} {engine : Engine} {machine : Machine} {action : Exec α}

theorem Restful.attempt (catches : manners.catches = true) (restful : Restful manners action) :
    Restful manners (Exec.attempt action) := by
  have absurdly : ∀ {goal : Prop}, manners.catches = false → goal := fun honest =>
    absurd (honest.symm.trans catches) (by decide)
  refine fun machine sound rest => (restful machine sound rest).attempt.mono
    (fun result next ended => ?_) (fun _ _ => False.elim) fun _ => id
  cases result with
  | ok value => exact ended
  | error fault => exact ⟨ended.1, absurdly⟩

theorem Restful.keeping (indices : List Nat) (restful : Restful manners action) :
    Restful manners (Exec.keeping indices action) := by
  intro machine sound rest
  let noted : Machine := { machine with held := indices ++ machine.held }
  have kept : ∀ {machine : Machine} (held : List Nat), machine.Sound →
      { machine with held }.Sound := fun _ sound =>
    ⟨sound.heap, sound.fiber, sound.waiting, sound.routines, sound.incidents⟩
  refine Meets.get_bind (Meets.modify_bind (((restful noted (kept _ sound) rest).mono
    (fun _ _ => id) (fun _ _ => id) fun next reaches =>
      ⟨reaches.ready, reaches.logs⟩).ensuring ?_ ?_))
  · rintro _ next ⟨rests, logs⟩
    exact ⟨⟨kept _ rests.sound, rests.rest, rests.waiting, rests.reporting⟩, logs⟩
  · rintro fault next ⟨rests, escaped⟩
    exact ⟨⟨kept _ rests.sound, rests.rest, rests.waiting, rests.reporting⟩, escaped⟩

/-- What the host asks for leaves its fiber at rest. -/
theorem Restful.service (steady : engine.Steady manners) (verified : manners.trusts = false)
    (serves : engine.Serves manners.ofHost action) : Restful manners action := by
  -- What changes nothing about the fiber is steady wherever the fiber is at rest.
  have modest : ∀ {β : Type} {action : Exec β}, engine.Serves manners.ofHost.modest action →
      Restful manners action := fun serves => by
    have steady : Steady manners .all (fun _ => True) _ :=
      .service steady serves verified rfl (fun allowed _ _ wakes => ?_) (fun _ => id)
        (fun enters => absurd enters Bool.false_ne_true) fun wakes =>
          absurd wakes Bool.false_ne_true
    · exact steady.restful fun _ _ => trivial
    · have sleeps : (!manners.wakes) = true := allowed
      rw [wakes] at sleeps
      exact absurd sleeps (by decide)
  induction serves with
  | operates allowed operates =>
      have allowed : manners.ofHost.modest.calls = true := allowed
      exact modest (.operates allowed operates)
  | quiet operates => exact modest (.quiet operates)
  | bind _ _ first further => exact first.bind further
  | keeping indices _ ih => exact ih.keeping indices
  | attempt allowed _ ih => exact ih.attempt allowed
  | passOn allowed fault =>
      have allowed : manners.ofHost.modest.catches = true := allowed
      exact modest (.passOn allowed fault)
  | adjust look printed handler => exact modest (.adjust look printed handler)
  | settle => exact modest .settle
  | collect => exact modest .collect
  | closureOver allowed => exact absurd (verified.symm.trans allowed) (by decide)
  | loadFunction prototype => exact modest (.loadFunction prototype)
  | loadPrototype prototype => exact modest (.loadPrototype prototype)
  | newClosure value => exact modest (.newClosure value)
  | runWithThis _ callee this arguments => exact .runWithThis steady callee this arguments
  | wakeup _ value => exact .wakeup steady value
  | resumeGenerator allowed ref =>
      have allowed : manners.ofHost.modest.calls = true := allowed
      exact modest (.resumeGenerator allowed ref)
  | newThread => exact modest .newThread
  | setThreadFunction ref entry => exact modest (.setThreadFunction ref entry)
  | threadCall ref arguments => exact modest (.threadCall ref arguments)
  | threadWakeup ref value => exact modest (.threadWakeup ref value)

/-- Whatever the host asks for leaves its fiber at rest. -/
theorem meets_command (steady : engine.Steady manners) (verified : manners.trusts = false)
    (sound : machine.Sound) (rest : machine.fiber.AtRest)
    (commands : engine.Commands manners machine action) :
    action.Meets machine
      (fun _ next => machine.Rests Fiber.AtRest next ∧ machine.Logs manners none next)
      (machine.Refuses manners) (machine.Reaches manners) := by
  cases commands with
  | serves serves => exact Restful.service steady verified serves machine sound rest
  | calls awake serves =>
      have steady : Steady manners .all (fun activity => activity.state ≠ .suspended) action :=
        .service steady serves verified rfl (fun _ _ awake _ => awake) (fun _ => id)
          (fun enters => absurd enters Bool.false_ne_true) fun wakes =>
            absurd wakes Bool.false_ne_true
      exact (steady machine (sound.ready_of_atRest rest) trivial awake).mono
        (fun _ _ returns => ⟨returns.keeps.rests sound rest, returns.logs⟩)
        (fun _ _ fails => fails.refuses sound rest) fun _ => id

end Exec

/-! ## Machines that occur -/

/-- The host has control of the machine after a number of commands. -/
inductive Machine.Commanded (host : Host) (manners : Manners) : Machine → Prop
  /-- The machine has been created. -/
  | created (limits : Limits) : Commanded host manners (Machine.create limits)
  /-- A command has come to its result. -/
  | returned {machine next : Machine} {α : Type} {steps : Nat} {action : Exec α} {value : α} :
      Commanded host manners machine → (Engine.ofHost host steps).Commands manners machine action →
      action machine = .ok value next → Commanded host manners next
  /-- A command has failed. -/
  | failed {machine next : Machine} {α : Type} {steps : Nat} {action : Exec α} {fault : Fault} :
      Commanded host manners machine → (Engine.ofHost host steps).Commands manners machine action →
      action machine = .error (.raised fault) next → Commanded host manners next

/-- The machine occurs where a host with functions of the given manners uses it. -/
inductive Machine.Occurs (host : Host) (manners : Manners) : Machine → Prop
  /-- The host has control of it. -/
  | commanded {machine : Machine} : machine.Commanded host manners → Occurs host manners machine
  /-- A command is being carried out: it is between two instructions, or a call or a host function
  begins. -/
  | running {machine next : Machine} {α : Type} {stop : Machine → Bool} {steps : Nat}
      {action : Exec α} :
      machine.Commanded host manners →
      (Engine.until stop host steps).Commands manners machine action →
      action machine = .error .exhausted next → Occurs host manners next
  /-- The function of the host that has begun there has gone on with a result. -/
  | served {machine next : Machine} {α : Type} {steps : Nat} {action : Exec α} {value : α} :
      Occurs host manners machine → machine.fiber.natives ≠ [] →
      machine.fiber.activity.Calm manners → (Engine.ofHost host steps).Serves manners action →
      action machine = .ok value next → Occurs host manners next
  /-- The function of the host that has begun there has gone on with a fault, which it catches. -/
  | refused {machine next : Machine} {α : Type} {steps : Nat} {action : Exec α} {fault : Fault} :
      manners.catches = true → Occurs host manners machine → machine.fiber.natives ≠ [] →
      machine.fiber.activity.Calm manners → (Engine.ofHost host steps).Serves manners action →
      action machine = .error (.raised fault) next → Occurs host manners next

namespace Machine

variable {host : Host} {manners : Manners} {machine : Machine}

theorem sound_create (limits : Limits) : (Machine.create limits).Sound := by
  have empty : ({} : Heap).Sound := fun kind ref content found =>
    absurd (Heap.lt_size_of_get?_eq_some found) (by simp [Heap.size])
  refine ⟨(Heap.follows_alloc _ _).sound (empty.fits_alloc trivial), ?_, by simp [create],
    by simp [create], by simp [create]⟩
  exact ⟨⟨by simp [create, Fiber.create, Fiber.activity],
    by simp [create, Fiber.create, Fiber.activity, Stacked], .nil,
    by simp [create, Fiber.create, Fiber.activity]⟩, Nat.zero_le _⟩

end Machine

/-- The engine of a host that uses the machine only through what it offers. -/
theorem Engine.steady_ofHost {host : Host} {manners : Manners} (serves : host.Serves manners)
    (verified : manners.trusts = false) (steps : Nat) :
    (Engine.ofHost host steps).Steady manners := by
  rw [← Engine.until_never]
  exact Engine.steady_until (serves.steady verified) _ steps

/-- What a host function that has begun does by the means it is offered. -/
theorem Exec.meets_served {host : Host} {manners : Manners} {machine : Machine} {steps : Nat}
    {action : Exec α} (ready : machine.Ready) (inside : machine.fiber.natives ≠ [])
    (calm : machine.fiber.activity.Calm manners) (serves : host.Serves manners)
    (verified : manners.trusts = false)
    (allowed : (Engine.ofHost host steps).Serves manners action) :
    action.Meets machine (fun _ => machine.Returns manners .all) (machine.Fails manners .all)
      (machine.Reaches manners) :=
  Exec.Steady.served (Engine.steady_ofHost serves verified steps) allowed verified machine ready
    trivial ⟨inside, calm⟩

/-- Nothing is wrong where the host has control. -/
structure Machine.Controlled (manners : Manners) (machine : Machine) : Prop where
  /-- The machine is sound. -/
  sound : machine.Sound
  /-- Nothing is active in the fiber. -/
  rest : machine.fiber.AtRest
  /-- No fiber waits. -/
  waiting : machine.waiting = []
  /-- No error handler is being run. -/
  reporting : machine.reporting = 0
  /-- Every fault that a live trap could catch has been answered. -/
  settled : manners.catches = false → Settled machine.incidents

namespace Machine

variable {host : Host} {manners : Manners} {machine next : Machine}

theorem Controlled.rests (controlled : machine.Controlled manners)
    (rests : machine.Rests Fiber.AtRest next)
    (logs : manners.catches = false → ∃ pending, machine.Logs manners pending next ∧
      ∀ raised, pending = some raised → raised.Escapes) : next.Controlled manners := by
  refine ⟨rests.sound, rests.rest, rests.waiting.trans controlled.waiting,
    rests.reporting.trans controlled.reporting, fun honest => ?_⟩
  obtain ⟨pending, logs, escapes⟩ := logs honest
  obtain ⟨added, joined, orderly⟩ := logs honest
  rw [joined]
  exact (orderly.settled escapes).append (controlled.settled honest)

theorem Commanded.controlled (commanded : machine.Commanded host manners)
    (serves : host.Serves manners) (verified : manners.trusts = false) :
    machine.Controlled manners := by
  induction commanded with
  | created limits =>
      exact ⟨sound_create limits, .inl ⟨⟨rfl, rfl, rfl, rfl⟩, rfl, rfl, rfl, rfl, rfl⟩, rfl, rfl,
        fun _ => settled_nil⟩
  | returned _ commands done ih =>
      have met := Exec.meets_command (Engine.steady_ofHost serves verified _) verified ih.sound
        ih.rest commands
      rw [Exec.Meets, done] at met
      exact ih.rests met.1 fun _ => ⟨none, met.2, by simp⟩
  | failed _ commands done ih =>
      have met := Exec.meets_command (Engine.steady_ofHost serves verified _) verified ih.sound
        ih.rest commands
      rw [Exec.Meets, done] at met
      refine ih.rests met.1 fun honest => ?_
      obtain ⟨raised, logs, _, escapes⟩ := met.2 honest
      exact ⟨some raised, logs, fun other same => Option.some.inj same ▸ escapes⟩

/-- Wherever a machine occurs, it is sound, the window of the current frame is in use, and faults
have been answered. -/
theorem Occurs.ready (occurs : machine.Occurs host manners) (serves : host.Serves manners)
    (verified : manners.trusts = false) :
    machine.Ready ∧ (manners.catches = false → Settled machine.incidents) := by
  induction occurs with
  | commanded commanded =>
      have controlled := commanded.controlled serves verified
      exact ⟨controlled.sound.ready_of_atRest controlled.rest, controlled.settled⟩
  | running commanded commands cut =>
      have controlled := commanded.controlled serves verified
      have met := Exec.meets_command
        (Engine.steady_until (serves.steady verified) _ _) verified controlled.sound controlled.rest
        commands
      rw [Exec.Meets, cut] at met
      refine ⟨met.ready, fun honest => ?_⟩
      obtain ⟨added, joined, settled⟩ := met.logs honest
      rw [joined]
      exact settled.append (controlled.settled honest)
  | served _ inside calm allowed done ih =>
      have met := Exec.meets_served ih.1 inside calm serves verified allowed
      rw [Exec.Meets, done] at met
      refine ⟨met.keeps.ready ih.1, fun honest => ?_⟩
      obtain ⟨added, joined, orderly⟩ := met.logs honest
      rw [joined]
      exact (orderly.settled (by simp)).append (ih.2 honest)
  | refused catching _ inside calm allowed done ih =>
      have met := Exec.meets_served ih.1 inside calm serves verified allowed
      rw [Exec.Meets, done] at met
      exact ⟨met.keeps.ready ih.1, fun honest =>
        absurd (honest.symm.trans catching) (by decide)⟩

end Machine

end ScriptMachine
