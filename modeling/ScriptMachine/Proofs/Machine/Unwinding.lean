import ScriptMachine.Proofs.Machine.Safety

/-!
# Unwinding

Traps stand in the order of their frames, in every fiber and at any time.  A fault that a live trap
could catch is caught by the innermost one before anything else happens, or replaced where it leaves
the creation of a closure.  All other faults leave their thread or reach the host; only those of an
error handler are dropped.
-/

namespace ScriptMachine

open Exec

/-- The traps stand in order, and each leads to an instruction of its frame. -/
structure Fiber.Disciplined (fiber : Fiber) : Prop where
  /-- The traps of inner frames come first. -/
  ordered : fiber.traps.Pairwise fun inner outer => outer.frame ≤ inner.frame
  /-- Every trap belongs to a frame, and its handler is an instruction there. -/
  owned : ∀ trap ∈ fiber.traps, ∃ frame, fiber.stack.frames[trap.frame]? = some frame ∧
    trap.ip < frame.closure.routine.code.size

theorem Fiber.SoundIn.disciplined {heap : Heap} {fiber : Fiber} (sound : fiber.SoundIn heap) :
    fiber.Disciplined where
  ordered := sound.activity.ordered
  owned trap member :=
    have ⟨frame, found, guards⟩ := sound.activity.owned trap member
    ⟨frame, found, guards.ip⟩

/-- The run loop goes on in the machine where a trap has caught a fault. -/
def Machine.Resumed (fault : Fault) (machine : Machine) : Prop :=
  ∃ caught trap, machine.incidents.head? = some caught ∧ caught.occurrence = .caught trap ∧
    caught.fault = fault ∧ caught.fiber = machine.fiber ∧ caught.heap = machine.heap

/-- Every fault that no error handler has raised is answered, leaves the thread in which it was
raised, or is what the computation fails with. -/
def Exec.Delivers {α : Type} (action : Exec α) (machine : Machine) : Prop :=
  ∃ added, (action.after machine).incidents = added ++ machine.incidents ∧
    ∀ later raised earlier, added = later ++ raised :: earlier → raised.occurrence.begins = true →
      raised.reporting = machine.reporting →
      raised.Answered later ∨
      (∃ next ∈ later, next.occurrence = .surfaced ∧ next.fault = raised.fault ∧
        next.level + 1 = raised.level) ∨
      raised.Escapes ∧ action machine = .error (.raised raised.fault) (action.after machine)

namespace Exec

open Machine

variable {α : Type} {host : Host} {manners : Manners} {machine next : Machine} {fault : Fault}

theorem resumed_of_enterTrap {trap : Trap} (entered : enterTrap trap fault machine = .ok () next) :
    next.Resumed fault := by
  -- Writing down the incident is the last of the steps.
  obtain ⟨_, _, _, entered⟩ := bind_eq_ok entered
  obtain ⟨_, _, _, entered⟩ := bind_eq_ok entered
  obtain ⟨_, _, _, entered⟩ := bind_eq_ok entered
  obtain ⟨_, _, _, entered⟩ := bind_eq_ok entered
  obtain ⟨_, _, _, entered⟩ := bind_eq_ok entered
  obtain ⟨_, _, _, entered⟩ := bind_eq_ok entered
  obtain ⟨_, _, _, entered⟩ := bind_eq_ok entered
  obtain ⟨_, last, _, noted⟩ := bind_eq_ok entered
  have noted : last.note (.caught trap) fault = next := by
    injection noted
  subst noted
  exact ⟨_, trap, rfl, rfl, rfl, rfl, rfl⟩

theorem resumed_of_recover {root : Nat} (recovered : recover fault root machine = .ok () next) :
    next.Resumed fault := by
  have givesUp : ∀ {machine : Machine},
      (unwindTo root >>= fun _ => passOn fault : Exec Unit) machine ≠ .ok () next := by
    intro machine done
    obtain ⟨_, between, _, passed⟩ := bind_eq_ok done
    exact absurd passed (by simp [passOn, throw, throwThe, MonadExceptOf.throw, EStateM.throw])
  obtain ⟨traps, between, looked, recovered⟩ := bind_eq_ok recovered
  cases traps with
  | nil => exact absurd recovered givesUp
  | cons trap rest =>
      dsimp only at recovered
      split at recovered
      · obtain ⟨_, between, _, entered⟩ := bind_eq_ok recovered
        exact resumed_of_enterTrap entered
      · exact absurd recovered givesUp

/-- What a command of the host does with its faults. -/
theorem delivers_of_commands (serves : host.Serves manners) (verified : manners.trusts = false)
    (honest : manners.catches = false) (commanded : machine.Commanded host manners) {steps : Nat}
    {action : Exec α} (commands : (Engine.ofHost host steps).Commands manners machine action)
    (ends : action.isCut machine = false) : action.Delivers machine := by
  have controlled := commanded.controlled serves verified
  have met := meets_command (Engine.steady_ofHost serves verified steps) verified controlled.sound
    controlled.rest commands
  rcases met.ends ends with ⟨value, _, _, logs⟩ | ⟨fault, failed, _, escaped⟩
  · obtain ⟨added, joined, orderly⟩ := logs honest
    refine ⟨added, joined, fun later raised earlier same begins own => ?_⟩
    rcases orderly.dealt_or_pending later raised earlier same begins own with
      (answered | left) | ⟨pending, _⟩
    · exact .inl answered
    · exact .inr (.inl left)
    · exact absurd pending (by simp)
  · obtain ⟨last, logs, rfl, escapes⟩ := escaped honest
    obtain ⟨added, joined, orderly⟩ := logs honest
    refine ⟨added, joined, fun later raised earlier same begins own => ?_⟩
    rcases orderly.dealt_or_pending later raised earlier same begins own with
      (answered | left) | ⟨pending, _⟩
    · exact .inl answered
    · exact .inr (.inl left)
    · obtain rfl := Option.some.inj pending
      exact .inr (.inr ⟨escapes, failed⟩)

end Exec

/-- Wherever a machine occurs, traps stand in order and every fault that a live trap could catch has
been answered at once: the innermost trap has caught it, with exactly the frames above gone, or the
creation of a closure has replaced it.  The run loop goes on where the trap has caught the fault.
What no trap could catch reaches the host. -/
theorem faults_unwind {host : Host} {manners : Manners} (serves : host.Serves manners)
    (verified : manners.trusts = false) :
    (∀ machine : Machine, machine.Occurs host manners →
      (∀ fiber, machine.HasFiber fiber → fiber.Disciplined) ∧
      (manners.catches = false → Settled machine.incidents)) ∧
    (∀ (fault : Fault) (root : Nat) (machine next : Machine),
      recover fault root machine = .ok () next → next.Resumed fault) ∧
    (manners.catches = false → ∀ machine : Machine, machine.Commanded host manners →
      ∀ {α : Type} (steps : Nat) (action : Exec α),
        (Engine.ofHost host steps).Commands manners machine action →
        action.isCut machine = false → action.Delivers machine) := by
  refine ⟨fun machine occurs => ?_, fun fault root machine next => resumed_of_recover,
    fun honest machine commanded α steps action =>
      delivers_of_commands serves verified honest commanded⟩
  have ready := occurs.ready serves verified
  exact ⟨fun fiber has => (ready.1.sound.hasFiber has).disciplined, ready.2⟩

theorem faults_unwind_catching :
    let run := runCatching (standardEngine 8)
    let machine := run.after (.create {})
    run.value? (.create {}) = some (.completed (.integer 7)) ∧
      machine.incidents.map Incident.fault = [.thrown (.integer 7), .thrown (.integer 7)] ∧
      Settled machine.incidents ∧ run.Delivers (.create {}) := by
  intro run machine
  have value : run.value? (.create {}) = some (.completed (.integer 7)) := by decide +kernel
  have commands : (standardEngine 8).Commands { wakes := true } (.create {}) run :=
    .serves (serves_runCatching _ rfl)
  have occurs : machine.Occurs standardHost { wakes := true } :=
    .commanded (.returned (.created {}) commands (eq_after_of_value? value))
  obtain ⟨settled, _, delivers⟩ := faults_unwind serves_standardHost rfl
  exact ⟨value, by decide +kernel, (settled machine occurs).2 rfl,
    delivers rfl _ (.created {}) 8 run commands (by decide +kernel)⟩

end ScriptMachine
