import ScriptMachine.Proofs.Machine.Granting
import ScriptMachine.Proofs.Machine.Safety
import ScriptMachine.Proofs.Machine.Serving

/-!
# Generators

A generator that a frame runs is running, and no other frame runs it, whatever fiber the frames
belong to.  So neither a running generator nor a dead one can be gone on with, and trying changes
nothing.  This holds wherever a machine arises.  That a suspended generator keeps all registers of
its activation depends on the window of its frame, which is whole in all sound machines: an engine
that would stop at any other machine is never stopped by that.
-/

namespace ScriptMachine

open Exec

variable {α β : Type}

/-! ## Going on with a generator -/

namespace Machine

variable {machine next last : Machine} {ref : Ref .generator}

theorem Mirrors.record (machine : Machine) (fault : Fault) :
    machine.Mirrors (machine.record fault) := ⟨rfl, id, rfl, rfl, rfl⟩

theorem Mirrors.base (mirrors : machine.Mirrors next) : next.fiber.base = machine.fiber.base := by
  have frames : next.fiber.stack.frames = machine.fiber.stack.frames :=
    congrArg Activity.frames mirrors.activity
  rw [Fiber.base, Fiber.base, Stack.current?, Stack.current?, frames]

theorem Mirrors.withers (mirrors : machine.Mirrors next) (withers : next.Withers ref last) :
    machine.Withers ref last :=
  ⟨mirrors.heap ▸ withers.heap, withers.activity.trans mirrors.activity,
    fun roomy => withers.room (mirrors.room roomy), withers.waiting.trans mirrors.waiting⟩

/-- Some registers have been assigned. -/
structure Assigns (places : List Nat) (before after : Machine) : Prop
    extends Mirrors before after where
  /-- There may be more registers than before. -/
  grows : before.fiber.stack.size ≤ after.fiber.stack.size
  /-- There are as many if those that have been assigned were in use. -/
  size : (∀ place ∈ places, place < before.fiber.stack.size) →
    after.fiber.stack.size = before.fiber.stack.size
  /-- All others are the same. -/
  slots : ∀ place < before.fiber.stack.size, place ∉ places →
    after.fiber.stack.slots[place]? = before.fiber.stack.slots[place]?

theorem Assigns.trans {between : Machine} {first second : List Nat}
    (assigns : machine.Assigns first between) (later : between.Assigns second next) :
    machine.Assigns (first ++ second) next where
  toMirrors := assigns.toMirrors.trans later.toMirrors
  grows := Nat.le_trans assigns.grows later.grows
  size used := by
    have same := assigns.size fun place member => used place (List.mem_append_left _ member)
    refine (later.size fun place member => ?_).trans same
    exact same.symm ▸ used place (List.mem_append_right _ member)
  slots place low apart := by
    have apart := not_or.mp (mt List.mem_append.mpr apart)
    rw [later.slots place (Nat.lt_of_lt_of_le low assigns.grows) apart.2,
      assigns.slots place low apart.1]

/-- A call that has waited for its result is over: there are as many registers as before. -/
def awaited (machine next : Machine) : Machine :=
  (next.mapFiber fun fiber => { fiber with syncCalls := fiber.syncCalls - 1 }).mapStack
    fun stack => (stack.truncate machine.fiber.stack.size).grow machine.fiber.stack.size

theorem activity_awaited (same : next.fiber.activity = machine.awaiting.fiber.activity) :
    (machine.awaited next).fiber.activity = machine.fiber.activity := by
  have counted : (machine.awaited next).fiber.activity =
      { next.fiber.activity with syncCalls := next.fiber.activity.syncCalls - 1 } := by
    simp [awaited, mapStack, mapFiber, Fiber.activity, Stack.truncate]
  rw [counted, same]
  rfl

theorem roomy_awaited (roomy : machine.fiber.Roomy)
    (maxSlots : next.fiber.stack.maxSlots = machine.fiber.stack.maxSlots) :
    (machine.awaited next).fiber.Roomy := by
  refine Fiber.roomy_of_size_le ((Stack.maxSlots_grow _ _).trans maxSlots) ?_
  show (Stack.grow (Stack.truncate _ _) _).size ≤ _
  rw [Stack.size_truncate_grow]
  exact roomy

theorem Mirrors.awaited (mirrors : machine.awaiting.Mirrors next) (roomy : machine.fiber.Roomy) :
    machine.Mirrors (machine.awaited next) :=
  ⟨mirrors.heap, fun _ => roomy_awaited roomy (congrArg Activity.maxSlots mirrors.activity),
    activity_awaited mirrors.activity, mirrors.waiting, mirrors.limits⟩

/-- The loop has its registers, which are in use, and its cursor stands for a position. -/
structure Iterates (machine : Machine) (first : UInt8) : Prop where
  /-- The registers have byte numbers. -/
  bytes : first.toNat + 2 < 256
  /-- They are in use. -/
  used : machine.fiber.base + (first.toNat + 2) < machine.fiber.stack.size
  /-- The cursor stands for a position. -/
  cursor : ∃ position,
    (machine.fiber.stack.get (machine.fiber.base + (first.toNat + 2))).position = .ok position

end Machine

namespace Exec

open Machine

variable {machine : Machine} {ref : Ref .generator} {engine : Engine}
  {failed : Fault → Machine → Prop} {cut : Machine → Prop}

/-- Assigning a register fails for want of room at most. -/
theorem meets_setRegister_assigns (number : UInt8) (value : Value) :
    (setRegister number value).Meets machine
      (fun _ next => machine.Assigns [machine.fiber.base + number.toNat] next)
      (fun _ next => machine.Mirrors next ∧
        machine.fiber.stack.size ≤ machine.fiber.base + number.toNat) (fun _ => False) := by
  have put : ∀ place, (machine.fiber.Roomy →
        (machine.fiber.stack.put place value).size ≤ machine.fiber.stack.maxSlots) →
      machine.Assigns [place] (machine.mapStack (·.put place value)) := by
    intro place room
    refine ⟨⟨rfl, fun roomy => ?_, by simp [mapStack, Fiber.activity], rfl, rfl⟩, ?_,
      fun used => ?_, fun other low apart => ?_⟩
    · exact Fiber.roomy_of_size_le (machine.fiber.stack.maxSlots_put place value) (room roomy)
    · show _ ≤ (machine.fiber.stack.put place value).size
      rw [Stack.size_put]
      exact Nat.le_max_left _ _
    · show (machine.fiber.stack.put place value).size = _
      rw [Stack.size_put]
      exact Nat.max_eq_left (used place (List.mem_singleton.mpr rfl))
    · exact Stack.slot_put _ value low fun same => apart (List.mem_singleton.mpr same.symm)
  refine Meets.ofFiber_bind ?_
  by_cases used : machine.fiber.base + number.toNat < machine.fiber.stack.size
  · rw [Meets, setPlace_eq used]
    refine put _ fun roomy => ?_
    rw [Stack.size_put, Nat.max_eq_left used]
    exact roomy
  · exact Meets.room_bind ⟨.record machine _, Nat.le_of_not_lt used⟩ fun room =>
      put _ fun roomy => machine.fiber.stack.size_put_le value room roomy

/-- A step of a loop over a generator assigns its key and its cursor and goes on with the
generator. -/
theorem meets_iterationStep_generator {done : Machine → Prop} {registers : IterationRegisters}
    {cursor : Value} (alive : (machine.heap.get ref : Generator).state ≠ .dead)
    (refused : ∀ fault next, machine.Mirrors next →
      cursor.position = .error fault ∨
        (∃ number, (number = registers.key ∨ number = registers.cursor) ∧
          machine.fiber.stack.size ≤ machine.fiber.base + number.toNat) → failed fault next)
    (met : ∀ target next, machine.Assigns [machine.fiber.base + registers.key.toNat,
        machine.fiber.base + registers.cursor.toNat] next →
      (resumeInto ref target false).Meets next (fun _ => done) failed cut) :
    (iterationStep .direct engine (.generator ref) cursor registers).Meets machine
      (fun step next => step = .resumed ∧ done next) failed cut := by
  refine Meets.read_bind ?_
  rw [if_neg alive]
  cases position : cursor.position with
  | error fault => exact refused fault _ (.record machine fault) (.inl position)
  | ok place =>
      refine Meets.ok_bind rfl ?_
      refine ((meets_setRegister_assigns registers.key _).mono (fun _ _ => id) ?_
        fun _ => False.elim).bind ?_
      · rintro fault next ⟨mirrors, beyond⟩
        exact refused fault next mirrors (.inr ⟨_, .inl rfl, beyond⟩)
      rintro _ keyed assigns
      refine ((meets_setRegister_assigns registers.cursor _).mono (fun _ _ => id) ?_
        fun _ => False.elim).bind ?_
      · rintro fault next ⟨later, beyond⟩
        rw [assigns.base] at beyond
        exact refused fault next (assigns.toMirrors.trans later)
          (.inr ⟨_, .inr rfl, Nat.le_trans assigns.grows beyond⟩)
      rintro _ counted later
      rw [assigns.base] at later
      exact (met _ counted (assigns.trans later)).bind fun _ _ held => ⟨rfl, held⟩

/-- The instruction that resumes a generator goes on with it. -/
theorem meets_step_resume {done : Flow → Machine → Prop} {instruction : Instruction}
    (resumes : instruction.op = .resume)
    (operand : machine.fiber.stack.get (machine.fiber.base +
      (Instruction.lowByte instruction.wide).toNat) = .generator ref)
    (met : ∀ target, (resumeInto ref target false).Meets machine
      (fun _ => done .proceed) failed cut) :
    (step engine (some instruction)).Meets machine done failed cut := by
  obtain ⟨op, first, wide, second, third⟩ := instruction
  obtain rfl : op = .resume := resumes
  have read : Access.direct.readWide wide machine = .ok (.generator ref) machine :=
    congrArg (EStateM.Result.ok · machine) operand
  exact (Meets.ok_bind read (met _)).bind fun _ _ => id

/-- A loop over a generator assigns its key and its cursor and goes on with the generator. -/
theorem meets_step_foreach {done : Flow → Machine → Prop} {instruction : Instruction}
    (iterates : instruction.op = .foreach)
    (operand : machine.fiber.stack.get (machine.fiber.base + instruction.first.toNat) =
      .generator ref)
    (alive : (machine.heap.get ref : Generator).state ≠ .dead)
    (refused : ∀ fault next, machine.Mirrors next → ¬ machine.Iterates instruction.second →
      failed fault next)
    (met : ∀ target next, machine.Assigns [machine.fiber.base + instruction.second.toNat,
        machine.fiber.base + (instruction.second.toNat + 2)] next →
      (resumeInto ref target false).Meets next (fun _ => done .proceed) failed cut) :
    (step engine (some instruction)).Meets machine done failed cut := by
  obtain ⟨op, container, wide, first, third⟩ := instruction
  obtain rfl : op = .foreach := iterates
  have read : Access.direct.read container machine = .ok (.generator ref) machine :=
    congrArg (EStateM.Result.ok · machine) operand
  have iterated : (iterate .direct engine container first wide).Meets machine
      (fun _ => done .proceed) failed cut := by
    refine Meets.ok_bind read ?_
    by_cases bytes : first.toNat + 2 < 256
    swap
    · rw [IterationRegisters.ofFirst, if_neg bytes]
      exact refused _ _ (.record machine _) fun loop => bytes loop.bytes
    have last : (first + 2).toNat = first.toNat + 2 := by
      rw [UInt8.toNat_add]
      exact Nat.mod_eq_of_lt bytes
    rw [IterationRegisters.ofFirst, if_pos bytes]
    refine Meets.ok_bind rfl (Meets.ok_bind rfl ?_)
    refine (meets_iterationStep_generator alive (fun fault next mirrors why => ?_)
      fun target next assigns => met target next (last ▸ assigns)).bind ?_
    · refine refused fault next mirrors fun loop => ?_
      have used : machine.fiber.base + (first.toNat + 2) < machine.fiber.stack.size := loop.used
      obtain ⟨place, found⟩ := loop.cursor
      rcases why with position | ⟨number, same | same, beyond⟩
      · rw [last, found] at position
        exact absurd position (by simp)
      · rw [same] at beyond
        dsimp only at beyond
        omega
      · rw [same] at beyond
        dsimp only at beyond
        rw [last] at beyond
        omega
    · rintro _ next ⟨rfl, held⟩
      exact held
  exact iterated.bind fun _ _ => id

/-- A resumption by the host that fails puts the registers right. -/
theorem meets_resumeGenerator (roomy : machine.fiber.Roomy)
    (tried : (do
      resumeInto ref none true
      engine.runFrames machine.fiber.stack.depth).Meets machine.awaiting (fun _ _ => False)
      (fun fault next => next.fiber.stack.maxSlots = machine.fiber.stack.maxSlots ∧
        failed fault (machine.awaited next)) cut) :
    (Exec.resumeGenerator engine ref).Meets machine (fun _ _ => False) failed cut := by
  refine Meets.ofFiber_bind (Meets.ofFiber_bind (Meets.onFiber_bind ?_))
  refine tried.attempt_bind (fun _ _ => False.elim) fun fault next ⟨maxSlots, held⟩ => ?_
  refine Meets.onFiber_bind (Meets.ok_bind (resize_eq ?_) held)
  exact maxSlots.symm ▸ roomy

/-- Where run loops are nested too deeply, the frame that has been added is given up. -/
theorem meets_nestLoop_full {body : Exec Outcome} {frame : Frame} {frames : Array Frame}
    (full : machine.limits.nativeCalls ≤ machine.fiber.nativeCalls)
    (added : machine.fiber.stack.frames = frames.push frame)
    (runs : frame.generator = some ref) :
    (nestLoop frames.size body).Meets machine (fun _ _ => False)
      (fun fault next => fault = .nativeStackOverflow ∧
        next.fiber.stack.maxSlots = machine.fiber.stack.maxSlots ∧
        next.heap = machine.heap.modify ref Generator.killed) fun _ => False := by
  have current : machine.fiber.stack.current? = some frame := by
    rw [Stack.current?, added, Array.back?_push]
  have depth : machine.fiber.stack.depth - frames.size = 1 := by
    rw [Stack.depth, added, Array.size_push, Nat.add_sub_cancel_left]
  have gone : (discardFrames 1).Meets machine
      (fun _ next => next.fiber.stack.maxSlots = machine.fiber.stack.maxSlots ∧
        next.heap = machine.heap.modify ref Generator.killed) (fun _ _ => False)
      fun _ => False := by
    refine Meets.bind ?_ fun _ _ => id
    refine Meets.ofFiber_bind ?_
    rw [current]
    refine Meets.ok_bind rfl (Meets.ok_bind (killGenerator_eq frame _) ?_)
    refine ⟨rfl, ?_⟩
    show Heap.ending _ frame = _
    rw [Heap.ending, runs]
    rfl
  have unwound : (unwindTo frames.size).Meets machine
      (fun _ next => next.fiber.stack.maxSlots = machine.fiber.stack.maxSlots ∧
        next.heap = machine.heap.modify ref Generator.killed) (fun _ _ => False)
      fun _ => False := by
    refine Meets.ofFiber_bind ?_
    rw [depth]
    exact gone.bind fun _ _ held => held
  refine Meets.get_bind (Meets.ofFiber_bind ?_)
  rw [if_pos full]
  exact (unwound.mono (fun _ _ => id) (fun _ _ => False.elim) fun _ => id).bind
    fun _ next held => ⟨rfl, held⟩

end Exec

/-! ## What resuming a generator leads to -/

namespace Machine

/-- The computation fails with a fault and changes no generator, frame or trap. -/
def Declines (machine : Machine) (action : Exec α) (fault : Fault) : Prop :=
  action.Meets machine (fun _ _ => False)
    (fun other next => other = fault ∧ machine.Mirrors next) fun _ => False

/-- The operand of an instruction that resumes a generator is the generator. -/
def Resumes (machine : Machine) (ref : Ref .generator) (instruction : Instruction) : Prop :=
  instruction.op = .resume ∧ machine.fiber.stack.get (machine.fiber.base +
    (Instruction.lowByte instruction.wide).toNat) = .generator ref

/-- The operand of an instruction that goes on with a loop is the generator. -/
def Loops (machine : Machine) (ref : Ref .generator) (instruction : Instruction) : Prop :=
  instruction.op = .foreach ∧ machine.fiber.stack.get (machine.fiber.base +
    instruction.first.toNat) = .generator ref

/-- A running generator is not gone on with. -/
structure Busy (machine : Machine) (ref : Ref .generator) : Prop where
  /-- An instruction that resumes it fails. -/
  resume : ∀ (engine : Engine) (instruction : Instruction), machine.Resumes ref instruction →
    machine.Declines (step engine (some instruction)) .resumeActive
  /-- So does one that loops over it, once the loop is in order. -/
  foreach : ∀ (engine : Engine) (instruction : Instruction), machine.Loops ref instruction →
    (step engine (some instruction)).Meets machine (fun _ _ => False)
      (fun fault next => (machine.Iterates instruction.second → fault = .resumeActive) ∧
        machine.Mirrors next) fun _ => False
  /-- So does the host. -/
  resumeGenerator : ∀ engine : Engine,
    machine.Declines (Exec.resumeGenerator engine ref) .resumeActive

/-- A dead generator is not gone on with. -/
structure Spent (machine : Machine) (ref : Ref .generator) : Prop where
  /-- An instruction that resumes it fails. -/
  resume : ∀ (engine : Engine) (instruction : Instruction), machine.Resumes ref instruction →
    machine.Declines (step engine (some instruction)) .resumeDead
  /-- So does the host. -/
  resumeGenerator : ∀ engine : Engine,
    machine.Declines (Exec.resumeGenerator engine ref) .resumeDead

/-- A suspended generator is gone on with, or it is dead for want of room. -/
structure Waits (machine : Machine) (ref : Ref .generator) : Prop where
  /-- An instruction that resumes it adds its frame. -/
  resume : ∀ (engine : Engine) (instruction : Instruction), machine.Resumes ref instruction →
    (step engine (some instruction)).Meets machine
      (fun flow next => flow = .proceed ∧ machine.Enlivens ref next)
      (fun fault next => fault = .stackOverflow ∧ machine.Withers ref next) fun _ => False
  /-- So does one that loops over it. -/
  foreach : ∀ (engine : Engine) (instruction : Instruction), machine.Loops ref instruction →
    machine.Iterates instruction.second → (step engine (some instruction)).Meets machine
      (fun flow next => flow = .proceed ∧ ∃ kept, machine.Mirrors kept ∧ kept.Enlivens ref next)
      (fun fault next => fault = .stackOverflow ∧ machine.Withers ref next) fun _ => False
  /-- It is dead where the host finds no room for the frame or for its run loop. -/
  resumeGenerator : ∀ (stop : Machine → Bool) (host : Host) (steps : Nat),
    machine.limits.nativeCalls ≤ machine.fiber.nativeCalls ∨
      (∀ next, resumeInto ref none true machine.awaiting ≠ .ok () next) →
    (Exec.resumeGenerator (Engine.until stop host (steps + 1)) ref).Meets machine
      (fun _ _ => False)
      (fun fault next => (fault = .stackOverflow ∨ fault = .nativeStackOverflow) ∧
        next.heap = machine.heap.modify ref Generator.killed) fun _ => False

/-- Generators are as the frames say that run them. -/
structure Minds (machine : Machine) : Prop extends Paired machine where
  /-- A generator that is not running is run by no frame. -/
  idle : ∀ (ref : Ref .generator) (generator : Generator), machine.heap.get? ref = some generator →
    generator.state ≠ .running → ∀ post number, machine.generatorAt? post number ≠ some ref
  /-- A running generator is not gone on with. -/
  busy : ∀ (ref : Ref .generator) (generator : Generator), machine.heap.get? ref = some generator →
    generator.state = .running → machine.Busy ref
  /-- Neither is a dead one. -/
  spent : ∀ (ref : Ref .generator) (generator : Generator), machine.heap.get? ref = some generator →
    generator.state = .dead → machine.Spent ref
  /-- A suspended generator is, or it is dead for want of room. -/
  waits : ∀ (ref : Ref .generator) (generator : Generator), machine.heap.get? ref = some generator →
    generator.state = .suspended → machine.Waits ref

variable {machine : Machine} {ref : Ref .generator} {generator : Generator}

/-- Where going on with a generator fails at once, the host fails with the same fault. -/
theorem declines_resumeGenerator (roomy : machine.fiber.Roomy) {fault : Fault}
    (refused : ∀ (other : Machine) target isRoot, other.heap = machine.heap →
      resumeInto ref target isRoot other = .error (.raised fault) (other.record fault))
    (engine : Engine) : machine.Declines (Exec.resumeGenerator engine ref) fault := by
  refine meets_resumeGenerator roomy ?_
  rw [Meets, error_bind (refused machine.awaiting none true rfl)]
  exact ⟨rfl, rfl, Mirrors.awaited (.record _ _) roomy⟩

theorem declines_resume {fault : Fault}
    (refused : ∀ (other : Machine) target isRoot, other.heap = machine.heap →
      resumeInto ref target isRoot other = .error (.raised fault) (other.record fault))
    (engine : Engine) {instruction : Instruction} (resumes : machine.Resumes ref instruction) :
    machine.Declines (step engine (some instruction)) fault := by
  refine meets_step_resume resumes.1 resumes.2 fun target => ?_
  rw [Meets, refused machine target false rfl]
  exact ⟨rfl, .record machine fault⟩

theorem busy_of_running (roomy : machine.fiber.Roomy)
    (found : machine.heap.get? ref = some generator) (state : generator.state = .running) :
    machine.Busy ref := by
  have running : (machine.heap.get ref : Generator).state = .running := by
    rw [Heap.get_of_get?_eq_some found]
    exact state
  have refused : ∀ (other : Machine) target isRoot, other.heap = machine.heap →
      resumeInto ref target isRoot other =
        .error (.raised .resumeActive) (other.record .resumeActive) :=
    fun other target isRoot same =>
      resumeInto_of_running (by rw [same]; exact running) target isRoot
  refine ⟨fun engine _ => declines_resume refused engine, fun engine instruction loops => ?_,
    declines_resumeGenerator roomy refused⟩
  refine meets_step_foreach loops.1 loops.2 (by rw [running]; decide)
    (fun fault next mirrors broken => ⟨fun whole => absurd whole broken, mirrors⟩)
    fun target next assigns => ?_
  rw [Meets, refused next target false assigns.heap]
  exact ⟨fun _ => rfl, assigns.toMirrors.trans (.record next _)⟩

theorem spent_of_dead (roomy : machine.fiber.Roomy)
    (found : machine.heap.get? ref = some generator) (state : generator.state = .dead) :
    machine.Spent ref := by
  have dead : (machine.heap.get ref : Generator).state = .dead := by
    rw [Heap.get_of_get?_eq_some found]
    exact state
  have refused : ∀ (other : Machine) target isRoot, other.heap = machine.heap →
      resumeInto ref target isRoot other =
        .error (.raised .resumeDead) (other.record .resumeDead) := fun other target isRoot same =>
    resumeInto_of_dead (by rw [same]; exact dead) target isRoot
  exact ⟨fun engine _ => declines_resume refused engine, declines_resumeGenerator roomy refused⟩

theorem waits_of_suspended (roomy : machine.fiber.Roomy)
    (found : machine.heap.get? ref = some generator) (state : generator.state = .suspended) :
    machine.Waits ref := by
  refine ⟨fun engine instruction resumes => ?_, fun engine instruction loops whole => ?_,
    fun stop host steps crowded => ?_⟩
  · refine meets_step_resume resumes.1 resumes.2 fun target => ?_
    exact (meets_resumeInto_suspended found state target false).mono
      (fun _ _ enlivens => ⟨rfl, enlivens⟩) (fun _ _ => id) fun _ => id
  · have alive : (machine.heap.get ref : Generator).state ≠ .dead := by
      rw [Heap.get_of_get?_eq_some found, state]
      decide
    refine meets_step_foreach loops.1 loops.2 alive (fun _ _ _ broken => absurd whole broken)
      fun target next assigns => ?_
    have found : next.heap.get? ref = some generator := assigns.heap ▸ found
    exact (meets_resumeInto_suspended found state target false).mono
      (fun _ _ enlivens => ⟨rfl, next, assigns.toMirrors, enlivens⟩)
      (fun _ _ failed => ⟨failed.1, assigns.withers failed.2⟩) fun _ => id
  · refine meets_resumeGenerator roomy ?_
    have found : machine.awaiting.heap.get? ref = some generator := found
    have tried : (resumeInto ref none true).Meets machine.awaiting
        (fun _ next => machine.awaiting.Enlivens ref next ∧
          resumeInto ref none true machine.awaiting = .ok () next)
        (fun fault next => next.fiber.stack.maxSlots = machine.fiber.stack.maxSlots ∧
          (fault = .stackOverflow ∨ fault = .nativeStackOverflow) ∧
          next.heap = machine.heap.modify ref Generator.killed) fun _ => False :=
      ((meets_resumeInto_suspended found state none true).and fun _ _ => id).mono (fun _ _ => id)
        (fun _ _ failed => ⟨congrArg Activity.maxSlots failed.2.activity, .inl failed.1,
          failed.2.heap⟩) fun _ => id
    refine tried.bind ?_
    · rintro _ entered ⟨enlivens, goes⟩
      have full := crowded.resolve_right fun crowds => crowds entered goes
      obtain ⟨callee, runs, frames⟩ := enlivens.frame
      have full : entered.limits.nativeCalls ≤ entered.fiber.nativeCalls := by
        rw [enlivens.limits, enlivens.nativeCalls]
        exact full
      refine (meets_nestLoop_full full frames runs).mono (fun _ _ => id) ?_ fun _ => id
      rintro fault next ⟨rfl, maxSlots, heap⟩
      refine ⟨maxSlots.trans enlivens.maxSlots, .inr rfl, ?_⟩
      show next.heap = _
      rw [heap, enlivens.heap]
      exact Heap.modify_modify machine.heap ref Generator.entered Generator.killed

theorem Paired.minds (paired : machine.Paired) (roomy : machine.fiber.Roomy) : machine.Minds where
  toPaired := paired
  idle _ _ found idle _ _ runs := paired.ne_of_suspended found idle runs rfl
  busy _ _ := busy_of_running roomy
  spent _ _ := spent_of_dead roomy
  waits _ _ := waits_of_suspended roomy

end Machine

/-! ## Machines that arise -/

/-- The machine arises where a host does, one thing after the other, whatever it is offered, and may
be interrupted at any time. -/
inductive Machine.Arises (host : Host) : Machine → Prop
  | created (limits : Limits) : Arises host (Machine.create limits)
  | went {machine : Machine} {α : Type} {manners : Manners} {stop : Machine → Bool} {steps : Nat}
      {action : Exec α} : Arises host machine →
      (Engine.until stop host steps).Serves manners action → Arises host (action.after machine)

namespace Machine

variable {host : Host} {manners outer : Manners} {machine next : Machine}

theorem paired_create (limits : Limits) : (Machine.create limits).Paired := by
  have none : ∀ post number, (Machine.create limits).generatorAt? post number = none := by
    intro post number
    cases post with
    | line index => cases index <;> rfl
    | thread ref =>
        rw [generatorAt?, fiberAt?, create, Heap.get?_alloc_of_ne (by decide)]
        rfl
  constructor
  · intro post number ref here
    rw [none] at here
    exact absurd here (by simp)
  · intro post number post' number' ref here
    rw [none] at here
    exact absurd here (by simp)

theorem roomy_create (limits : Limits) : (Machine.create limits).Roomy := by
  refine ⟨Nat.zero_le _, by simp [create], fun ref fiber found => ?_⟩
  rw [create, Heap.get?_alloc_of_ne (by decide)] at found
  exact absurd (Heap.lt_size_of_get?_eq_some found) (by simp [Heap.size])

/-- Whatever a host does comes down to changes of generators, frames and threads. -/
theorem path_of_serves (serves : host.Serves manners) {stop : Machine → Bool} {steps : Nat}
    {action : Exec α} (allowed : (Engine.until stop host steps).Serves outer action)
    (machine : Machine) : machine.Path False (action.after machine) :=
  (Exec.Courses.service (Engine.courses_until serves stop steps) allowed machine).path

theorem Arises.orderly (arises : machine.Arises host) (serves : host.Serves manners) :
    machine.Paired ∧ machine.Roomy := by
  induction arises with
  | created limits => exact ⟨paired_create limits, roomy_create limits⟩
  | @went before _ _ _ _ _ _ allowed ih =>
      have path := path_of_serves serves allowed before
      exact ⟨path.paired ih.1, path.roomy ih.2⟩

/-! ## Windows -/

/-- In a sound machine the window of the current frame is whole. -/
theorem Ready.whole (ready : machine.Ready) : machine.Whole := by
  intro frame current
  have member := Array.mem_of_getElem? (getElem?_of_current current)
  exact ⟨ready.shaped frame current,
    (ready.sound.fiber.activity.frames frame member).generator⟩

end Machine

/-- There is an engine that does the same as another one, unless it is stopped at a window that is
not whole. -/
theorem Engine.exists_checked {host : Host} {manners : Manners} (serves : host.Serves manners)
    (verified : manners.trusts = false) (stop : Machine → Bool) (steps : Nat) :
    ∃ engine : Engine, engine.Steady manners ∧ engine.Courses True ∧
      engine.Below (fun machine => ¬ machine.Whole) (Engine.until stop host steps) := by
  classical
  let careful : Machine → Bool := fun machine => stop machine || !decide machine.Whole
  have heeds : True → ∀ machine, careful machine = false → machine.Whole := by
    intro _ machine goes
    simpa [careful] using (Bool.or_eq_false_iff.mp goes).2
  have stops : ∀ machine, careful machine = stop machine ∨
      careful machine = true ∧ ¬ machine.Whole := by
    intro machine
    by_cases whole : machine.Whole
    · exact .inl (by simp [careful, whole])
    · exact .inr ⟨by simp [careful, whole], whole⟩
  induction steps with
  | zero => exact ⟨.spent, .spent manners, .spent, .refl _⟩
  | succ steps ih =>
      obtain ⟨inner, steady, courses, below⟩ := ih
      choose native served short using fun symbol =>
        (serves symbol (Engine.until stop host steps)).exists_below below
      refine ⟨Engine.onward careful inner steps native, ?_, ?_, ?_⟩
      · exact steady.onward careful steps fun symbol => .served steady (served symbol) verified
      · exact courses.onward heeds steps fun symbol => .service courses (served symbol)
      · rw [Engine.until_succ]
        exact below.onward stops (Nat.le_refl _) (fun less => absurd less (Nat.lt_irrefl _)) short

namespace Exec

open Machine

variable {host : Host} {manners outer : Manners} {machine : Machine}

/-- What is steady with every steady engine is a part of a run in which windows are checked. -/
theorem course_after (serves : host.Serves manners) (verified : manners.trusts = false)
    {stop : Machine → Bool} {steps : Nat} {action : Exec α}
    (allowed : (Engine.until stop host steps).Serves outer action)
    (reaches : ∀ (engine : Engine) (narrow : Exec α), engine.Steady manners →
      engine.Serves outer narrow → ∀ next, narrow machine = .error .exhausted next →
      machine.Reaches manners next) :
    machine.Course True (.work .host) (action.ending machine) (action.after machine) := by
  obtain ⟨engine, steady, courses, below⟩ := Engine.exists_checked serves verified stop steps
  obtain ⟨narrow, serves, short⟩ := allowed.exists_below below
  have same : action machine = narrow machine := by
    rcases short machine with ⟨next, cut, broken⟩ | same
    · exact absurd (reaches engine narrow steady serves next cut).ready.whole broken
    · exact same.symm
  rw [ending_congr same, after_congr same]
  exact Exec.Courses.service courses serves machine

end Exec

namespace Machine

variable {host : Host} {manners : Manners} {machine next : Machine} {kept : Machine → Prop}

/-- A command keeps what parts of a run keep in which windows are checked. -/
theorem Controlled.keeps (controlled : machine.Controlled manners) (serves : host.Serves manners)
    (verified : manners.trusts = false)
    (along : ∀ {ending next}, machine.Course True (.work .host) ending next → kept next)
    {stop : Machine → Bool} {steps : Nat} {action : Exec α}
    (commands : (Engine.until stop host steps).Commands manners machine action) :
    kept (action.after machine) := by
  cases commands with
  | serves allowed =>
      exact along (Exec.course_after serves verified allowed fun engine narrow steady serves _ =>
        (Exec.meets_command steady verified controlled.sound controlled.rest
          (.serves serves)).of_cut)
  | calls awake allowed =>
      exact along (Exec.course_after serves verified allowed fun engine narrow steady serves _ =>
        (Exec.meets_command steady verified controlled.sound controlled.rest
          (.calls awake serves)).of_cut)

section

variable (serves : host.Serves manners) (verified : manners.trusts = false)
  (created : ∀ limits, kept (Machine.create limits))
  (along : ∀ {before ending after}, before.Course True (.work .host) ending after →
    kept before → kept after)

include serves verified created along

theorem Commanded.keeps (commanded : machine.Commanded host manners) : kept machine := by
  have goes : ∀ {machine : Machine} {α : Type} {steps : Nat} {action : Exec α},
      machine.Commanded host manners → kept machine →
      (Engine.ofHost host steps).Commands manners machine action →
      kept (action.after machine) := by
    intro machine α steps action commanded holds commands
    rw [← Engine.until_never] at commands
    exact (commanded.controlled serves verified).keeps serves verified
      (fun course => along course holds) commands
  induction commanded with
  | created limits => exact created limits
  | returned commanded commands result ih =>
      have holds := goes commanded ih commands
      rwa [Exec.after_of_eq_ok result] at holds
  | failed commanded commands result ih =>
      have holds := goes commanded ih commands
      rwa [Exec.after_of_eq_error result] at holds

/-- Wherever a machine occurs, what parts of a run keep in which windows are checked holds. -/
theorem Occurs.keeps (occurs : machine.Occurs host manners) : kept machine := by
  have goes : ∀ {machine : Machine} {α : Type} {steps : Nat} {action : Exec α},
      machine.Occurs host manners → kept machine → machine.fiber.natives ≠ [] →
      machine.fiber.activity.Calm manners → (Engine.ofHost host steps).Serves manners action →
      kept (action.after machine) := by
    intro machine α steps action occurs holds inside calm allowed
    rw [← Engine.until_never] at allowed
    have ready := (occurs.ready serves verified).1
    exact along (Exec.course_after serves verified allowed fun engine narrow steady serves _ =>
      (Exec.Steady.served steady serves verified machine ready trivial ⟨inside, calm⟩).of_cut) holds
  have commanded : ∀ {machine : Machine}, machine.Commanded host manners → kept machine :=
    fun commanded => commanded.keeps serves verified created along
  induction occurs with
  | commanded before => exact commanded before
  | running before commands cut =>
      have holds := (before.controlled serves verified).keeps serves verified
        (fun course => along course (commanded before)) commands
      rwa [Exec.after_of_eq_error cut] at holds
  | served occurs inside calm allowed result ih =>
      have holds := goes occurs ih inside calm allowed
      rwa [Exec.after_of_eq_ok result] at holds
  | refused _ occurs inside calm allowed result ih =>
      have holds := goes occurs ih inside calm allowed
      rwa [Exec.after_of_eq_error result] at holds

end

theorem stocked_create (limits : Limits) : (Machine.create limits).heap.Stocked := by
  intro ref generator found
  rw [create, Heap.get?_alloc_of_ne (by decide)] at found
  exact absurd (Heap.lt_size_of_get?_eq_some found) (by simp [Heap.size])

/-- Wherever a machine occurs, suspended generators have all their registers. -/
theorem Occurs.stocked (occurs : machine.Occurs host manners) (serves : host.Serves manners)
    (verified : manners.trusts = false) : machine.heap.Stocked :=
  occurs.keeps serves verified stocked_create fun course => course.path.stocked

/-- Frames are those of the functions of their generators, and stand above the windows of others. -/
theorem Occurs.tallies (occurs : machine.Occurs host manners) (serves : host.Serves manners)
    (verified : manners.trusts = false) : machine.Tallies True :=
  occurs.keeps serves verified tallies_create fun course => course.tallies

/-- Commands do what machines offer. -/
theorem exists_serves {engine : Engine} {action : Exec α}
    (commands : engine.Commands manners machine action) :
    ∃ outer, engine.Serves outer action := by
  cases commands with
  | serves allowed => exact ⟨_, allowed⟩
  | calls _ allowed => exact ⟨_, allowed⟩

theorem Arises.of_commands (arises : machine.Arises host) {stop : Machine → Bool} {steps : Nat}
    {action : Exec α} (commands : (Engine.until stop host steps).Commands manners machine action) :
    (action.after machine).Arises host := by
  obtain ⟨outer, allowed⟩ := exists_serves commands
  exact .went arises allowed

theorem Commanded.arises (commanded : machine.Commanded host manners) : machine.Arises host := by
  induction commanded with
  | created limits => exact .created limits
  | returned _ commands result ih =>
      rw [← Engine.until_never] at commands
      exact Exec.after_of_eq_ok result ▸ ih.of_commands commands
  | failed _ commands result ih =>
      rw [← Engine.until_never] at commands
      exact Exec.after_of_eq_error result ▸ ih.of_commands commands

theorem Occurs.arises (occurs : machine.Occurs host manners) : machine.Arises host := by
  induction occurs with
  | commanded commanded => exact commanded.arises
  | running commanded commands cut =>
      exact Exec.after_of_eq_error cut ▸ commanded.arises.of_commands commands
  | served _ _ _ allowed result ih =>
      rw [← Engine.until_never] at allowed
      exact Exec.after_of_eq_ok result ▸ .went ih allowed
  | refused _ _ _ _ allowed result ih =>
      rw [← Engine.until_never] at allowed
      exact Exec.after_of_eq_error result ▸ .went ih allowed

end Machine

/-- Suspended generators have all registers of their functions. -/
def Machine.Saves (machine : Machine) : Prop :=
  ∀ (ref : Ref .generator) (generator : Generator), machine.heap.get? ref = some generator →
    generator.state = .suspended → ∃ (closure : Closure) (prototype : Prototype),
      machine.heap.get? generator.closure = some closure ∧
        closure.routine = Routine.load prototype ∧
        closure.routine.stackSize = prototype.stackSize ∧
        generator.window.size = prototype.stackSize

theorem Machine.Sound.saves {machine : Machine} (sound : machine.Sound)
    (stocked : machine.heap.Stocked) : machine.Saves := by
  intro ref generator found state
  obtain ⟨closure, held, fills⟩ := stocked ref generator found state
  obtain ⟨prototype, accepted, loaded⟩ := (sound.heap generator.closure closure held).routine
  have size : closure.routine.stackSize = prototype.stackSize := by
    rw [loaded, Routine.stackSize_load prototype accepted]
  have enough : closure.routine.parameterCount ≤ closure.routine.stackSize := by
    rw [size, loaded]
    cases accepted with
    | intro frame =>
        cases prototype
        exact frame
  exact ⟨closure, prototype, held, loaded, size, (fills enough).trans size⟩

/-- Generators and the frames that run them belong together one to one wherever a machine arises, no
generator comes back from the dead, and what is not suspended is not gone on with.  Where all
function bodies have been verified, suspended generators have all their registers. -/
theorem generators_proceed {host : Host} {manners : Manners} (serves : host.Serves manners) :
    (∀ machine : Machine, machine.Arises host → machine.Minds ∧
      ∀ (α : Type) (outer : Manners) (stop : Machine → Bool) (steps : Nat) (action : Exec α),
        (Engine.until stop host steps).Serves outer action → ∀ ref : Ref .generator,
          machine.heap.Buries ref → (action.after machine).heap.Buries ref) ∧
    (manners.trusts = false → ∀ machine : Machine, machine.Occurs host manners →
      machine.Arises host ∧ machine.Saves) := by
  refine ⟨fun machine arises => ?_, fun verified machine occurs => ⟨occurs.arises, ?_⟩⟩
  · have orderly := arises.orderly serves
    refine ⟨orderly.1.minds orderly.2.fiber, fun α outer stop steps action allowed ref buries => ?_⟩
    have path := Machine.path_of_serves serves allowed machine
    exact path.buries orderly.1 buries
  · exact (occurs.ready serves verified).1.sound.saves (occurs.stocked serves verified)

/-- A generator function. -/
def counting : Prototype where
  name := "counting"
  parameters := #["this"]
  stackSize := 3
  isGenerator := true
  code := #[⟨.loadInt, 1, 7, 0, 0⟩, ⟨.yield, 0, 1, 0, 0⟩, ⟨.ret, 0, 1, 0, 0⟩]

/-- Load the function, call it and go on with its generator. -/
def runCounting (engine : Engine) : Exec Value := do
  let closure ← Exec.loadFunction counting
  match ← engine.callSync closure .null [] with
  | .generator ref => Exec.resumeGenerator engine ref
  | other => return other

/-- Stop behind the first instruction of a generator. -/
def untilCounting : Engine :=
  .until (fun machine => (machine.fiber.stack.frames.map Frame.ip) == #[1]) standardHost 8

theorem commands_runCounting (engine : Engine) {manners : Manners} (limits : Limits) :
    engine.Commands manners (Machine.create limits) (runCounting engine) := by
  have awake : (Machine.create limits).fiber.state = .idle := rfl
  refine .calls (by rw [awake]; decide)
    ((Engine.Serves.loadFunction counting).bind fun closure => ?_)
  refine (Engine.Serves.operates rfl (.callSync closure .null [])).bind fun value => ?_
  cases value with
  | generator ref => exact .resumeGenerator rfl ref
  | _ => exact .pure _

theorem generators_proceed_counting :
    let inside := (runCounting untilCounting).after (.create {})
    let outside := (runCounting (standardEngine 8)).after (.create {})
    inside.Declines (Exec.resumeGenerator (standardEngine 8) ⟨2⟩) .resumeActive ∧
      ∃ generator : Generator, outside.heap.get? (⟨2⟩ : Ref .generator) = some generator ∧
        generator.state = .suspended ∧ generator.window.size = 3 := by
  intro inside outside
  have entered : inside.Occurs standardHost { wakes := true } :=
    .running (.created {}) (commands_runCounting _ {})
      (eq_after_of_isCut (by decide +kernel))
  have yielded : (runCounting (standardEngine 8)).value? (.create {}) = some (.integer 7) := by
    decide +kernel
  have left : outside.Occurs standardHost { wakes := true } :=
    .commanded (.returned (.created {}) (commands_runCounting (standardEngine 8) {})
      (eq_after_of_value? yielded))
  refine ⟨?_, ?_⟩
  · have arises := ((generators_proceed serves_standardHost).2 rfl inside entered).1
    have minds := ((generators_proceed serves_standardHost).1 inside arises).1
    have running : (inside.heap.get? (⟨2⟩ : Ref .generator)).map Generator.state =
        some .running := by decide +kernel
    obtain ⟨generator, found, state⟩ := Option.map_eq_some_iff.mp running
    exact (minds.busy ⟨2⟩ generator found state).resumeGenerator (standardEngine 8)
  · have saves := ((generators_proceed serves_standardHost).2 rfl outside left).2
    have looks : (outside.heap.get? (⟨2⟩ : Ref .generator)).map
        (fun generator : Generator => (generator.state, generator.closure)) =
          some (.suspended, ⟨1⟩) := by decide +kernel
    have sizes : (outside.heap.get? (⟨1⟩ : Ref .closure)).map
        (fun closure : Closure => closure.routine.stackSize) = some 3 := by decide +kernel
    obtain ⟨generator, found, same⟩ := Option.map_eq_some_iff.mp looks
    obtain ⟨state, closed⟩ := Prod.mk.inj same
    refine ⟨generator, found, state, ?_⟩
    obtain ⟨closure, prototype, held, _, size, full⟩ := saves ⟨2⟩ generator found state
    rw [closed] at held
    rw [held] at sizes
    exact (full.trans size.symm).trans (Option.some.inj sizes)

end ScriptMachine
