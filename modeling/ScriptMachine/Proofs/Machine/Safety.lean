import ScriptMachine.Proofs.Machine.Hosts

/-!
# Verified code is in order

Where all function bodies have been verified, no run meets a fault that says that the code itself is
not in order, and whatever is run or kept for later stands at an instruction of its function, or
behind the last one.  Waking a suspended fiber from inside a call that waits for its result is not
covered: such a call would be left with frames that are not its own.
-/

namespace ScriptMachine

open Exec

/-! ## How computations end -/

namespace Exec

variable {α : Type} {action : Exec α} {machine : Machine}

/-- The computation is cut short. -/
def isCut (action : Exec α) (machine : Machine) : Bool :=
  match action machine with
  | .error .exhausted _ => true
  | .ok _ _ | .error (.raised _) _ => false

/-- The value that the computation results in. -/
def value? (action : Exec α) (machine : Machine) : Option α :=
  match action machine with
  | .ok value _ => some value
  | .error _ _ => none

theorem eq_after_of_isCut (cut : action.isCut machine = true) :
    action machine = .error .exhausted (action.after machine) := by
  rw [isCut] at cut
  rw [after]
  split at cut
  · rename_i result
    rw [result]
  · exact absurd cut Bool.false_ne_true
  · exact absurd cut Bool.false_ne_true

theorem eq_after_of_value? {value : α} (done : action.value? machine = some value) :
    action machine = .ok value (action.after machine) := by
  rw [value?] at done
  rw [after]
  split at done
  · rename_i result
    rw [result, Option.some.inj done]
  · exact absurd done (by simp)

/-- A computation that is not cut short has a result or fails. -/
theorem Meets.ends {done : α → Machine → Prop} {failed : Fault → Machine → Prop}
    {cut : Machine → Prop} (met : action.Meets machine done failed cut)
    (ends : action.isCut machine = false) :
    (∃ value, action machine = .ok value (action.after machine) ∧
      done value (action.after machine)) ∨
    ∃ fault, action machine = .error (.raised fault) (action.after machine) ∧
      failed fault (action.after machine) := by
  rw [isCut] at ends
  rw [Meets] at met
  rw [after]
  cases result : action machine with
  | ok value next =>
      rw [result] at met
      exact .inl ⟨value, rfl, met⟩
  | error stop next =>
      rw [result] at met ends
      cases stop with
      | raised fault => exact .inr ⟨fault, rfl, met⟩
      | exhausted => exact absurd ends (by simp)

end Exec

/-! ## Verified code -/

/-- Whatever the machine has run into, the code was in order. -/
structure Machine.Proper (machine : Machine) : Prop where
  /-- No fault says that the code is not in order. -/
  ordered : ∀ incident ∈ machine.incidents, incident.occurrence.raises = true →
    incident.fault.isStructural = false
  /-- A register without a byte number is one of a frame of more than 256 registers. -/
  bytes : ∀ incident ∈ machine.incidents, incident.occurrence.raises = true →
    incident.fault.exceedsBytes = true → ∃ frame, incident.fiber.stack.current? = some frame ∧
      256 < frame.closure.routine.stackSize

/-- Whatever is run or kept for later stands inside its function and has its captured variables. -/
structure Machine.Placed (machine : Machine) : Prop where
  /-- Frames stand at an instruction or behind the last one. -/
  frames : ∀ fiber, machine.HasFiber fiber → ∀ frame ∈ fiber.stack.frames,
    frame.ip ≤ frame.closure.routine.code.size ∧
      frame.closure.cells.size = frame.closure.routine.captures.size
  /-- So do generators. -/
  generators : ∀ (ref : Ref .generator) (generator : Generator),
    machine.heap.get? ref = some generator →
      ∃ closure : Closure, machine.heap.get? generator.closure = some closure ∧
        generator.ip ≤ closure.routine.code.size
  /-- Closures have a cell for every captured variable. -/
  closures : ∀ (ref : Ref .closure) (closure : Closure), machine.heap.get? ref = some closure →
    closure.cells.size = closure.routine.captures.size

namespace Machine

variable {host : Host} {manners : Manners} {machine : Machine}

theorem Sound.proper (sound : machine.Sound) : machine.Proper where
  ordered incident member raises := (sound.incidents incident member raises).1
  bytes incident member raises := (sound.incidents incident member raises).2

theorem Sound.placed (sound : machine.Sound) : machine.Placed where
  frames _ has frame member :=
    have sound := (sound.hasFiber has).activity.frames frame member
    ⟨sound.ip, sound.closure.cells⟩
  generators ref _ found :=
    have ⟨closure, content, fits⟩ := sound.heap ref _ found
    ⟨closure, content, fits.ip⟩
  closures ref _ found := (sound.heap ref _ found).cells

end Machine

/-- Verified code is always in order, however it is run. -/
theorem occurs_proper {host : Host} {manners : Manners} (serves : host.Serves manners)
    (verified : manners.trusts = false) {machine : Machine}
    (occurs : machine.Occurs host manners) : machine.Proper ∧ machine.Placed :=
  have sound := (occurs.ready serves verified).1.sound
  ⟨sound.proper, sound.placed⟩

/-- A function that catches what it throws. -/
def catching : Prototype where
  name := "catching"
  parameters := #["this"]
  stackSize := 3
  code := #[⟨.pushTrap, 1, 2, 0, 0⟩, ⟨.loadInt, 2, 7, 0, 0⟩, ⟨.throw, 2, 0, 0, 0⟩,
    ⟨.ret, 0, 1, 0, 0⟩]

/-- Load the function and run it. -/
def runCatching (engine : Engine) : Exec Outcome := do
  let closure ← Exec.loadFunction catching
  Exec.run engine closure []

theorem serves_runCatching (engine : Engine) {manners : Manners} (enters : manners.enters = true) :
    engine.Serves manners (runCatching engine) :=
  (Engine.Serves.loadFunction catching).bind fun _ => .run enters _ _

/-- Stop when a trap has caught a fault. -/
def untilCaught : Engine :=
  .until (fun machine => machine.fiber.counters.caught == 1) standardHost 8

theorem occurs_proper_catching :
    let machine := (runCatching untilCaught).after (.create {})
    machine.fiber.stack.frames.map Frame.ip = #[3] ∧ machine.Proper ∧ machine.Placed := by
  intro machine
  have occurs : machine.Occurs standardHost { wakes := true } :=
    .running (.created {}) (.serves (serves_runCatching _ rfl))
      (eq_after_of_isCut (by decide +kernel))
  exact ⟨by decide +kernel, occurs_proper serves_standardHost rfl occurs⟩

end ScriptMachine
