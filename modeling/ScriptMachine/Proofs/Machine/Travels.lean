import ScriptMachine.Proofs.Machine.Overflow
import ScriptMachine.Proofs.Machine.Quiet

/-!
# What computations do to generators

Whatever the machine does to generators comes down to the changes of `Machine.Change`, one after the
other, whether it ends with a result, fails or is cut short.  There is one lemma for each
computation that is not quiet: resuming and leaving a generator, giving up frames, creation and
collection.
-/

namespace ScriptMachine

open Exec

variable {α β : Type}

/-! ## Generators -/

namespace Machine

/-- The machines differ at most in registers and records. -/
structure Mirrors (before after : Machine) : Prop where
  /-- The heap is the same. -/
  heap : after.heap = before.heap
  /-- The running fiber has no more registers than it is allowed, if that has been so. -/
  room : before.fiber.Roomy → after.fiber.Roomy
  /-- The running fiber does the same. -/
  activity : after.fiber.activity = before.fiber.activity
  /-- The same fibers wait. -/
  waiting : after.waiting = before.waiting
  /-- The limits are the same. -/
  limits : after.limits = before.limits

theorem Mirrors.trans {before between after : Machine} (first : before.Mirrors between)
    (second : between.Mirrors after) : before.Mirrors after :=
  ⟨second.heap.trans first.heap, fun roomy => second.room (first.room roomy),
    second.activity.trans first.activity, second.waiting.trans first.waiting,
    second.limits.trans first.limits⟩

/-- A frame has been added for a generator. -/
structure Enlivens (before : Machine) (ref : Ref .generator) (after : Machine) : Prop where
  /-- The generator is running. -/
  heap : after.heap = before.heap.modify ref Generator.entered
  /-- The frame runs it. -/
  frame : ∃ callee : Frame, callee.generator = some ref ∧
    after.fiber.stack.frames = before.fiber.stack.frames.push callee
  /-- The running fiber has no more registers than it is allowed, if that has been so. -/
  room : before.fiber.Roomy → after.fiber.Roomy
  /-- It may have as many as before. -/
  maxSlots : after.fiber.stack.maxSlots = before.fiber.stack.maxSlots
  /-- As many run loops and host functions are active. -/
  nativeCalls : after.fiber.nativeCalls = before.fiber.nativeCalls
  /-- The same fibers wait. -/
  waiting : after.waiting = before.waiting
  /-- The limits are the same. -/
  limits : after.limits = before.limits

/-- There was no room for the frame of a generator. -/
structure Withers (before : Machine) (ref : Ref .generator) (after : Machine) : Prop where
  /-- The generator is dead. -/
  heap : after.heap = before.heap.modify ref Generator.killed
  /-- The running fiber does the same. -/
  activity : after.fiber.activity = before.fiber.activity
  /-- The running fiber has no more registers than it is allowed, if that has been so. -/
  room : before.fiber.Roomy → after.fiber.Roomy
  /-- The same fibers wait. -/
  waiting : after.waiting = before.waiting

end Machine

namespace Exec

open Machine

variable {machine : Machine} {ref : Ref .generator} {generator : Generator}

theorem meets_pushWindow (values : List Value) (machine : Machine) :
    (values.forM push).Meets machine (fun _ next => machine.Mirrors next)
      (fun fault next => fault = Fault.stackOverflow ∧ machine.Mirrors next) (fun _ => False) := by
  induction values generalizing machine with
  | nil => exact ⟨rfl, id, rfl, rfl, rfl⟩
  | cons value rest ih =>
      have pushed : (push value).Meets machine (fun _ next => machine.Mirrors next)
          (fun fault next => fault = .stackOverflow ∧ machine.Mirrors next) (fun _ => False) :=
        Meets.room_bind ⟨rfl, rfl, id, rfl, rfl, rfl⟩ fun room =>
          ⟨rfl, fun _ => machine.fiber.stack.size_append_le value room, rfl, rfl, rfl⟩
      refine pushed.bind fun _ next mirrors => ?_
      refine (ih next).mono (fun _ _ later => mirrors.trans later) ?_ fun _ => id
      exact fun fault last later => ⟨later.1, mirrors.trans later.2⟩

/-- Going on with a suspended generator adds its frame; where there is no room, it is dead. -/
theorem meets_resumeInto_suspended (found : machine.heap.get? ref = some generator)
    (state : generator.state = .suspended) (target : Option UInt8) (isRoot : Bool) :
    (resumeInto ref target isRoot).Meets machine (fun _ => machine.Enlivens ref)
      (fun fault next => fault = .stackOverflow ∧ machine.Withers ref next)
      (fun _ => False) := by
  refine Meets.read_bind ?_
  rw [Heap.get_of_get?_eq_some found, state]
  refine Meets.read_bind (Meets.ofFiber_bind (Meets.modify_bind ?_))
  let callee : Frame :=
    { ref := generator.closure, closure := machine.heap.get generator.closure
      ip := generator.ip, base := machine.fiber.stack.size, target, isRoot, generator := some ref }
  let active : Machine := { machine with heap := machine.heap.modify ref Generator.entered }
  have pushed : (do
      generator.window.forM push
      pushFrame callee).Meets active
      (fun _ next => machine.Enlivens ref next)
      (fun fault next => fault = Fault.stackOverflow ∧ active.Mirrors next) (fun _ => False) := by
    rw [forM_array]
    refine (meets_pushWindow generator.window.toList active).bind fun _ next mirrors => ?_
    refine Meets.room_bind ⟨rfl, mirrors.heap, mirrors.room, mirrors.activity, mirrors.waiting,
      mirrors.limits⟩ fun room => ?_
    have frames : next.fiber.stack.frames = machine.fiber.stack.frames :=
      congrArg Activity.frames mirrors.activity
    refine ⟨mirrors.heap, ⟨callee, rfl, ?_⟩, fun roomy => ?_, ?_,
      congrArg Activity.nativeCalls mirrors.activity, mirrors.waiting, mirrors.limits⟩
    · show (Stack.enter _ _).frames = _
      rw [Stack.frames_enter, frames]
    · exact Fiber.roomy_of_size_le (next.fiber.stack.maxSlots_enter callee)
        (next.fiber.stack.size_enter_le room (mirrors.room roomy))
    · exact (next.fiber.stack.maxSlots_enter callee).trans
        (congrArg Activity.maxSlots mirrors.activity)
  refine pushed.attempt_bind (fun _ next enlivens => ?_) fun fault next failed => ?_
  · exact ⟨enlivens.heap, enlivens.frame, enlivens.room, enlivens.maxSlots, enlivens.nativeCalls,
      enlivens.waiting, enlivens.limits⟩
  · obtain ⟨rfl, mirrors⟩ := failed
    refine ⟨rfl, ?_, mirrors.activity, fun roomy => ?_, mirrors.waiting⟩
    · show next.heap.modify ref Generator.killed = _
      rw [mirrors.heap]
      exact Heap.modify_modify machine.heap ref Generator.entered Generator.killed
    · show (next.fiber.stack.truncate machine.fiber.stack.size).size ≤ _
      rw [Stack.size_truncate]
      exact Nat.le_trans (Nat.min_le_left _ _) (mirrors.room roomy)

/-- A generator that is running is left alone. -/
theorem resumeInto_of_running (state : (machine.heap.get ref : Generator).state = .running)
    (target : Option UInt8) (isRoot : Bool) :
    resumeInto ref target isRoot machine =
      .error (.raised .resumeActive) (machine.record .resumeActive) := by
  rw [resumeInto, ok_bind (show read ref machine = .ok (machine.heap.get ref) machine from rfl)]
  dsimp only
  rw [state]
  rfl

/-- So is a dead one. -/
theorem resumeInto_of_dead (state : (machine.heap.get ref : Generator).state = .dead)
    (target : Option UInt8) (isRoot : Bool) :
    resumeInto ref target isRoot machine =
      .error (.raised .resumeDead) (machine.record .resumeDead) := by
  rw [resumeInto, ok_bind (show read ref machine = .ok (machine.heap.get ref) machine from rfl)]
  dsimp only
  rw [state]
  rfl

/-- A generator that does not exist counts as dead. -/
theorem exists_of_suspended (state : (machine.heap.get ref : Generator).state = .suspended) :
    ∃ generator : Generator, machine.heap.get? ref = some generator ∧
      generator.state = .suspended := by
  cases found : machine.heap.get? ref with
  | none =>
      rw [Heap.get, found] at state
      exact absurd state (by decide)
  | some generator =>
      rw [Heap.get_of_get?_eq_some found] at state
      exact ⟨generator, rfl, state⟩

end Exec

/-- What leaves generators and threads alone is one change. -/
theorem Machine.Hushes.path {checked : Prop} {before after : Machine}
    (hushes : before.Hushes after) : before.Path checked after :=
  .single (.quiet hushes.thins hushes.heap)

instance {checked : Prop} : Machine.Overlooks (Machine.Path checked) where
  refl _ := .refl
  trans _ _ _ := .trans
  stack machine operation plain :=
    (Machine.Overlooks.stack machine operation plain : machine.Hushes _).path
  fiber machine traps suspended counters :=
    (Machine.Overlooks.fiber machine traps suspended counters : machine.Hushes _).path
  heap machine heap spares := (Machine.Overlooks.heap machine heap spares : machine.Hushes _).path
  note machine occurrence fault surfaced reported :=
    (Machine.Overlooks.note machine occurrence fault surfaced reported : machine.Hushes _).path
  aside machine held routines printed handler :=
    (Machine.Overlooks.aside machine held routines printed handler : machine.Hushes _).path

/-- The computation comes down to changes of generators, frames and threads. -/
abbrev Exec.Travels (checked : Prop) (action : Exec α) : Prop :=
  Exec.Along (Machine.Path checked) action

namespace Exec.Travels

open Machine

variable {checked : Prop} {machine : Machine}

theorem of_hushed {action : Exec α} (hushed : Along Hushes action) : Travels checked action :=
  hushed.mono fun _ _ hushes => hushes.path

theorem resumeInto (ref : Ref .generator) (target : Option UInt8) (isRoot : Bool) :
    Travels checked (Exec.resumeInto ref target isRoot) := by
  intro machine
  cases state : (machine.heap.get ref : Generator).state with
  | running =>
      rw [after_of_eq_error (resumeInto_of_running state target isRoot)]
      exact of_hushed (.raise (α := Unit) .resumeActive) machine
  | dead =>
      rw [after_of_eq_error (resumeInto_of_dead state target isRoot)]
      exact of_hushed (.raise (α := Unit) .resumeDead) machine
  | suspended =>
      obtain ⟨generator, found, state⟩ := exists_of_suspended state
      have resumes := meets_resumeInto_suspended found state target isRoot
      rw [Meets] at resumes
      cases result : Exec.resumeInto ref target isRoot machine with
      | ok value next =>
          rw [result] at resumes
          rw [after_of_eq_ok result]
          obtain ⟨heap, ⟨callee, runs, frames⟩, room, _, _, waiting, _⟩ := resumes
          refine .single (.resumed ref generator machine.fiber.stack.frames.size found state
            (fun number other here => ?_) room waiting heap)
          rw [Fiber.generatorAt?, frames, Array.getElem?_push] at here
          split at here
          · rename_i new
            exact .inr ⟨new, Option.some.inj (here.symm.trans runs)⟩
          · exact .inl here
      | error stop next =>
          rw [result] at resumes
          rw [after_of_eq_error result]
          cases stop with
          | exhausted => exact absurd resumes id
          | raised fault =>
              obtain ⟨_, heap, activity, room, waiting⟩ := resumes
              have frames : next.fiber.stack.frames = machine.fiber.stack.frames :=
                congrArg Activity.frames activity
              refine .single (.failed ref generator found state ⟨fun number other here => ?_,
                room, waiting⟩ heap)
              rw [Fiber.generatorAt?, frames] at here
              exact here

/-! ### Leaving frames -/

/-- The frame on top has been left. -/
theorem drops_of_pop {next : Machine} {frame : Frame} {ref : Ref .generator}
    (current : machine.fiber.stack.current? = some frame) (runs : frame.generator = some ref)
    (frames : next.fiber.stack.frames = machine.fiber.stack.frames.pop)
    (room : machine.fiber.Roomy → next.fiber.Roomy) (waiting : next.waiting = machine.waiting) :
    machine.Drops next ref := by
  have place : machine.fiber.stack.frames[machine.fiber.stack.frames.size - 1]? = some frame := by
    rw [← Array.back?_eq_getElem?]
    exact current
  refine ⟨⟨machine.fiber.stack.frames.size - 1, ?_, fun number other here => ?_⟩, room, waiting⟩
  · rw [Fiber.generatorAt?, place]
    exact runs
  · rw [Fiber.generatorAt?, frames, Array.getElem?_pop] at here
    split at here
    · exact ⟨here, by omega⟩
    · exact absurd here (by simp)

/-- Giving up the current frame ends the activation of its generator. -/
theorem killGenerator {frame : Frame} (current : machine.fiber.stack.current? = some frame) :
    machine.Path checked ((Exec.killGenerator frame).after (machine.mapStack (·.leave))) := by
  rw [Exec.killGenerator]
  cases runs : frame.generator with
  | none => exact of_hushed Along.leave machine
  | some ref => exact .single (.ended ref (drops_of_pop current runs rfl id rfl) rfl)

theorem frame_of_none (absent : machine.fiber.stack.current? = none) :
    Exec.frame machine = .error (.raised .noFrame) (machine.record .noFrame) := by
  rw [Exec.frame, ok_bind (show ofFiber (·.stack.current?) machine =
    .ok machine.fiber.stack.current? machine from rfl), absent]
  rfl

theorem frame_bind {following : Frame → Exec α}
    (rest : ∀ frame, machine.fiber.stack.current? = some frame →
      machine.Path checked ((following frame).after machine)) :
    machine.Path checked ((Exec.frame >>= following).after machine) := by
  cases current : machine.fiber.stack.current? with
  | none =>
      rw [after_of_eq_error (error_bind (frame_of_none current))]
      exact of_hushed (.raise (α := Unit) .noFrame) machine
  | some frame =>
      rw [after, Exec.frame_bind current, ← after]
      exact rest frame current

theorem returnValue (value : Value) : Travels checked (Exec.returnValue value) := by
  intro machine
  rw [Exec.returnValue, Exec.popFrame, bind_assoc]
  refine frame_bind fun frame current => ?_
  show machine.Path checked ((Exec.killGenerator frame >>= fun _ =>
    Exec.leaveFrame frame value).after (machine.mapStack (·.leave)))
  exact Along.bind_at (killGenerator current) fun _ next _ =>
    of_hushed (.leaveFrame frame value) next

theorem discardFrame : Travels checked Exec.discardFrame := by
  intro machine
  cases current : machine.fiber.stack.current? with
  | none =>
      have nothing : Exec.discardFrame machine = .ok () machine := by
        rw [Exec.discardFrame, ok_bind (show ofFiber (·.stack.current?) machine =
          .ok machine.fiber.stack.current? machine from rfl), current]
        rfl
      rw [after_of_eq_ok nothing]
  | some frame =>
      have discards : Exec.discardFrame machine = (Exec.killGenerator frame >>= fun _ =>
          Exec.count fun counters => { counters with unwound := counters.unwound + 1 })
          (machine.mapStack (·.leave)) := by
        rw [Exec.discardFrame, ok_bind (show ofFiber (·.stack.current?) machine =
          .ok machine.fiber.stack.current? machine from rfl), current]
        rfl
      rw [after, discards, ← after]
      exact Along.bind_at (killGenerator current) fun _ next _ => of_hushed (.count _) next

theorem discardFrames (count : Nat) : Travels checked (Exec.discardFrames count) := by
  induction count with
  | zero => exact .pure ()
  | succ count ih => exact discardFrame.bind fun _ => ih

theorem unwindTo (root : Nat) : Travels checked (Exec.unwindTo root) :=
  (Along.view _).bind fun depth => (discardFrames (depth - root)).bind fun _ =>
    of_hushed (.setTraps _)

theorem enterTrap (trap : Trap) (fault : Fault) : Travels checked (Exec.enterTrap trap fault) :=
  (Along.view _).bind fun _ => (discardFrames _).bind fun _ =>
    of_hushed ((Along.truncate _).bind fun _ => Along.frame.bind fun _ =>
      (Along.goTo _).bind fun _ => (Along.ensure _).bind fun _ =>
        (Along.setRegister _ _).bind fun _ => (Along.count _).bind fun _ => Along.noteCaught _ _)

theorem recover (fault : Fault) (root : Nat) : Travels checked (Exec.recover fault root) := by
  have gives : Travels checked (Exec.unwindTo root >>= fun _ => (Exec.passOn fault : Exec Unit)) :=
    (unwindTo root).bind fun _ => .passOn fault
  refine (Along.view _).bind fun traps => ?_
  split
  · split
    · exact .bind (of_hushed (.setTraps _)) fun _ => enterTrap _ _
    · exact gives
  · exact gives

end Exec.Travels

/-! ### Yielding -/

/-- The window of the current frame is in use, and if the frame runs a generator, that is one of its
function. -/
def Machine.Whole (machine : Machine) : Prop :=
  ∀ frame, machine.fiber.stack.current? = some frame → frame.top ≤ machine.fiber.stack.size ∧
    ∀ ref, frame.generator = some ref → machine.heap.Runs ref frame.closure.routine

/-- So it is, and there is a current frame. -/
structure Machine.Poised (machine : Machine) : Prop where
  /-- There is a current frame. -/
  above : 0 < machine.fiber.stack.depth
  /-- Its window is in use. -/
  whole : machine.Whole

theorem Machine.Poised.exists_used {machine : Machine} (poised : machine.Poised) :
    ∃ frame, machine.fiber.stack.current? = some frame ∧ frame.top ≤ machine.fiber.stack.size := by
  obtain ⟨frame, current⟩ := exists_current poised.above
  exact ⟨frame, current, (poised.whole frame current).1⟩

namespace Exec.Travels

open Machine

variable {checked : Prop} {machine : Machine}

/-- A whole window fills the generator. -/
theorem fills_of_whole (whole : machine.Whole) {frame : Frame} {ref : Ref .generator}
    (current : machine.fiber.stack.current? = some frame) (runs : frame.generator = some ref)
    {generator : Generator} (found : machine.heap.get? ref = some generator) (ip : Nat)
    (traps : List SavedTrap) :
    machine.heap.Fills
      (generator.left (machine.fiber.stack.range frame.base frame.top) ip traps) := by
  obtain ⟨shaped, owns⟩ := whole frame current
  obtain ⟨closure, held, routine⟩ := (owns ref runs).2 generator found
  refine ⟨closure, held, fun _ => ?_⟩
  have size : machine.fiber.stack.slots.size = machine.fiber.stack.size := rfl
  show (machine.fiber.stack.slots.extract frame.base frame.top).size = _
  rw [Array.size_extract, size, Nat.min_eq_left shaped, routine, Frame.top, Nat.add_sub_cancel_left]

theorem yieldValue (value : Value) (poised : checked → machine.Poised) :
    machine.Path checked ((Exec.yieldValue value).after machine) := by
  refine frame_bind fun frame current => ?_
  cases runs : frame.generator with
  | none => exact of_hushed (.raise (α := Flow) .yieldOutside) machine
  | some ref =>
      dsimp only
      rw [after_ok_bind (show Exec.depth machine = .ok machine.fiber.stack.depth machine from rfl),
        after_ok_bind (popFrame_eq current)]
      refine Relation.ReflTransGen.trans (.single ?_)
        (of_hushed (.leaveFrame frame value) _)
      refine .yielded ref (machine.fiber.stack.range frame.base frame.top) frame.ip _
        (fun wanted generator found => fills_of_whole (poised wanted).whole current runs found _ _)
        (drops_of_pop current runs rfl (fun roomy => ?_) rfl) rfl
      show (machine.fiber.stack.clearRange frame.base frame.top).size ≤ _
      rw [Stack.size_clearRange]
      exact roomy

/-! ### Creation -/

/-- A generator function is one that exists. -/
theorem exists_of_isGenerator {ref : Ref .closure}
    (generates : (machine.heap.get ref : Closure).routine.isGenerator = true) :
    ∃ closure : Closure, machine.heap.get? ref = some closure := by
  cases found : machine.heap.get? ref with
  | none =>
      rw [Heap.get, found] at generates
      exact absurd generates (by decide)
  | some closure => exact ⟨closure, rfl⟩

/-- A new generator has as many registers as an activation of its function. -/
theorem fills_of_range {heap : Heap} {ref : Ref .closure} {closure : Closure}
    (held : heap.get? ref = some closure) (stack : Stack) (base : Nat) :
    let taken := stack.range base (base + closure.routine.parameterCount)
    heap.Fills
      { closure := ref
        window := taken ++ Array.replicate (closure.routine.stackSize - taken.size) .null } := by
  refine ⟨closure, held, fun enough => ?_⟩
  have few : (stack.range base (base + closure.routine.parameterCount)).size ≤
      closure.routine.stackSize := by
    rw [Stack.range, Array.size_extract]
    omega
  rw [Array.size_append, Array.size_replicate]
  exact Nat.add_sub_cancel' few

theorem createGenerator {ref : Ref .closure} {closure : Closure}
    (held : machine.heap.get? ref = some closure) (base count : Nat) :
    machine.Path checked ((Exec.createGenerator ref base count).after machine) := by
  have prepared : machine.Hushes _ := Along.prepareArguments closure.routine base count machine
  rw [Exec.createGenerator, after_ok_bind (show read ref machine =
    .ok (machine.heap.get ref) machine from rfl), Heap.get_of_get?_eq_some held]
  refine Along.bind_at (of_hushed (.prepareArguments closure.routine base count) machine)
    fun _ next result => ?_
  rw [after_of_eq_ok result] at prepared
  have held := prepared.heap.closures ref closure held
  refine .single (.created _ (fills_of_range held next.fiber.stack base) rfl
    ⟨fun _ _ => id, fun roomy => ?_, rfl⟩ rfl)
  show (next.fiber.stack.clearRange base _).size ≤ _
  rw [Stack.size_clearRange]
  exact roomy

theorem newThread : Travels checked Exec.newThread :=
  fun machine => .single (.hatched (Fiber.create machine.limits.stackSize machine.limits.callDepth
    true) (fun _ => rfl) (Nat.zero_le _) ⟨fun _ _ => id, id, rfl⟩ rfl)

end Exec.Travels

end ScriptMachine
