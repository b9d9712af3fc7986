import ScriptMachine.Proofs.Machine.Generators
import ScriptMachine.Proofs.Machine.Staying

/-!
# Yielding and going on

A frame that yields leaves its activation in its generator: the registers of its window, the place
in the code and its traps.  Whatever happens until the generator is gone on with, be it in the same
fiber or in that of a thread, the activation is restored in a frame above all registers in use.
Neither yielding nor going on changes what belongs to other frames, but for the register that
receives the value and those of a loop.
-/

namespace ScriptMachine

open Exec

/-- The trap in another frame, with a window that starts at another place. -/
def Trap.shifted (trap : Trap) (number start base : Nat) : Trap :=
  { trap with frame := number, stackTop := trap.stackTop - start + base }

namespace Machine

/-- The traps of the current frame, the innermost first. -/
def ownTraps (machine : Machine) : List Trap :=
  machine.fiber.traps.filter fun trap => trap.frame == machine.fiber.stack.depth - 1

/-- The current frame has yielded a value. -/
structure Leaves (before : Machine) (frame : Frame) (value : Value) (flow : Flow)
    (after : Machine) : Prop where
  /-- The other frames are the same. -/
  frames : after.fiber.stack.frames = before.fiber.stack.frames.pop
  /-- So are their traps. -/
  traps : after.fiber.traps =
    before.fiber.traps.filter fun trap => trap.frame < before.fiber.stack.depth - 1
  /-- So are all objects but the generator. -/
  heap : ∃ (ref : Ref .generator) (window : Array Value) (ip : Nat) (saved : List SavedTrap),
    frame.generator = some ref ∧
      after.heap = before.heap.modify ref (Generator.left · window ip saved)
  /-- The host has gone on with the generator: the run loop ends, and the registers below are the
  same. -/
  root : frame.isRoot = true → flow = .finish value ∧
    ∀ place < frame.base, after.fiber.stack.slots[place]? = before.fiber.stack.slots[place]?
  /-- An instruction has gone on with it: its frame receives the value, with all registers of its
  window in use, and all others up to there are the same. -/
  inner : frame.isRoot = false → flow = .proceed ∧
    ∃ caller, after.fiber.stack.current? = some caller ∧ caller.top ≤ after.fiber.stack.size ∧
      ∀ place < caller.top, after.fiber.stack.get place =
        if frame.target.map (caller.base + ·.toNat) = some place then value
        else before.fiber.stack.get place

/-- The activation that the current frame has had goes on in another machine, in a frame above all
registers in use.  Nothing else has changed there but the registers at some places. -/
structure Restores (machine : Machine) (frame : Frame) (before : Machine) (places : List Nat)
    (own : Frame) (after : Machine) : Prop where
  /-- The frame runs the same generator. -/
  generator : own.generator = frame.generator
  /-- It is one of the same function. -/
  function : own.ref = frame.ref
  /-- It has the same body and captured variables. -/
  closure : own.closure = frame.closure
  /-- It goes on at the same instruction. -/
  ip : own.ip = frame.ip
  /-- Its window starts above all registers in use. -/
  base : own.base = before.fiber.stack.size
  /-- It is the current one; the other frames are the same. -/
  frames : after.fiber.stack.frames = before.fiber.stack.frames.push own
  /-- The registers of the window are the same. -/
  registers : ∀ index < frame.closure.routine.stackSize,
    after.fiber.stack.get (own.base + index) = machine.fiber.stack.get (frame.base + index)
  /-- Its traps are the same, seen from its window; those of other frames are the same. -/
  traps : after.fiber.traps = machine.ownTraps.map
    (·.shifted before.fiber.stack.depth frame.base own.base) ++ before.fiber.traps
  /-- They keep the window. -/
  offsets : ∀ trap ∈ machine.ownTraps, frame.top ≤ trap.stackTop
  /-- The other registers are the same. -/
  slots : ∀ place < before.fiber.stack.size, place ∉ places →
    after.fiber.stack.slots[place]? = before.fiber.stack.slots[place]?

/-- The activation that the current frame has had goes on in a later machine, however the generator
is gone on with. -/
structure GoesOn (machine : Machine) (frame : Frame) (ref : Ref .generator) (later : Machine) :
    Prop where
  /-- An instruction resumes the generator. -/
  resume : ∀ (engine : Engine) (instruction : Instruction), later.Resumes ref instruction →
    (step engine (some instruction)).Meets later
      (fun flow after => flow = .proceed ∧ ∃ own, machine.Restores frame later [] own after)
      (fun fault _ => fault = .stackOverflow) fun _ => False
  /-- A loop goes on with it, and has assigned its key and its cursor. -/
  foreach : ∀ (engine : Engine) (instruction : Instruction), later.Loops ref instruction →
    later.Iterates instruction.second → (step engine (some instruction)).Meets later
      (fun flow after => flow = .proceed ∧ ∃ own, machine.Restores frame later
        [later.fiber.base + instruction.second.toNat,
          later.fiber.base + (instruction.second.toNat + 2)] own after)
      (fun fault _ => fault = .stackOverflow) fun _ => False
  /-- The host goes on with it and runs it.  An engine with one step is cut short there. -/
  resumeGenerator : ∀ host : Host, (Exec.resumeGenerator (.ofHost host 1) ref).Meets later
    (fun _ _ => False)
    (fun fault _ => fault = .stackOverflow ∨ fault = .nativeStackOverflow)
    fun after => ∃ own, machine.Restores frame later [] own after

/-- The activation that the current frame has had is kept for the generator: whatever happens in
between, it goes on when the generator is gone on with for the first time. -/
def Endures (machine : Machine) (frame : Frame) (ref : Ref .generator) (left : Machine) : Prop :=
  ∀ later, Bypasses ref left later → ∀ generator : Generator,
    later.heap.get? ref = some generator → generator.state = .suspended →
    machine.GoesOn frame ref later

/-- The generator is never running on the way from one machine to the other, or it has been gone on
with in between. -/
def Passes (ref : Ref .generator) (before after : Machine) : Prop :=
  Bypasses ref before after ∨
    ∃ between, before.Path False between ∧ ¬ between.heap.Idle ref ∧ between.Path False after

/-- The generator has the activation that the current frame has had. -/
structure Stores (machine : Machine) (frame : Frame) (own : Generator) : Prop where
  /-- It is suspended. -/
  state : own.state = .suspended
  /-- It is one of the same function. -/
  function : own.closure = frame.ref
  /-- It goes on at the same instruction. -/
  ip : own.ip = frame.ip
  /-- It has the registers of the window. -/
  registers : ∀ index < frame.closure.routine.stackSize,
    own.window.getD index .null = machine.fiber.stack.get (frame.base + index)
  /-- It has the traps of the frame. -/
  traps : own.traps = machine.ownTraps.map fun trap =>
    { ip := trap.ip, offset := trap.stackTop - frame.base, target := trap.target }
  /-- They keep the window. -/
  offsets : ∀ trap ∈ machine.ownTraps, frame.top ≤ trap.stackTop

/-- A generator has the activation that the current frame has had. -/
def Stored (machine : Machine) (frame : Frame) (ref : Ref .generator) (after : Machine) : Prop :=
  ∃ own : Generator, after.heap.get? ref = some own ∧ machine.Stores frame own

variable {machine before after later : Machine} {frame : Frame} {ref : Ref .generator}
  {own : Generator}

/-! ## Going on -/

theorem Stores.restores {other : Frame} {target : Option UInt8} {isRoot : Bool} {places : List Nat}
    {entered : Machine} (stores : machine.Stores frame own) (runs : frame.generator = some ref)
    (closure : later.heap.get? frame.ref = some frame.closure)
    (size : later.fiber.stack.size = before.fiber.stack.size)
    (frames : later.fiber.stack.frames = before.fiber.stack.frames)
    (traps : later.fiber.traps = before.fiber.traps)
    (slots : ∀ place < before.fiber.stack.size, place ∉ places →
      later.fiber.stack.slots[place]? = before.fiber.stack.slots[place]?)
    (reenters : later.Reenters ref own target isRoot other [] entered) :
    machine.Restores frame before places other entered where
  generator := reenters.generator.trans runs.symm
  function := reenters.function.trans stores.function
  closure := by
    rw [reenters.closure, stores.function]
    exact Heap.get_of_get?_eq_some closure
  ip := reenters.ip.trans stores.ip
  base := reenters.base.trans size
  frames := by rw [reenters.frames, frames]
  registers index within := by
    rw [reenters.base, reenters.registers]
    exact stores.registers index within
  traps := by
    rw [reenters.traps, stores.traps, List.map_map, traps, reenters.base, Stack.depth, Stack.depth,
      frames]
    congr 1
    refine List.map_congr_left fun trap _ => ?_
    simp [SavedTrap.restored, Trap.shifted, Nat.add_comm]
  offsets := stores.offsets
  slots place low apart :=
    (reenters.slots place (size.symm ▸ low) (by simp)).trans (slots place low apart)

/-- Nothing but counts has changed since. -/
theorem Restores.of_stack {other : Frame} {places : List Nat} {entered next : Machine}
    (restores : machine.Restores frame before places other entered)
    (stack : next.fiber.stack = entered.fiber.stack)
    (traps : next.fiber.traps = entered.fiber.traps) :
    machine.Restores frame before places other next where
  generator := restores.generator
  function := restores.function
  closure := restores.closure
  ip := restores.ip
  base := restores.base
  frames := stack ▸ restores.frames
  registers := stack ▸ restores.registers
  traps := traps.trans restores.traps
  offsets := restores.offsets
  slots := stack ▸ restores.slots

theorem Stores.goesOn (stores : machine.Stores frame own) (runs : frame.generator = some ref)
    (found : later.heap.get? ref = some own)
    (closure : later.heap.get? frame.ref = some frame.closure)
    (roomy : later.fiber.Roomy) : machine.GoesOn frame ref later := by
  refine ⟨fun engine instruction resumes => ?_, fun engine instruction loops iterates => ?_,
    fun host => ?_⟩
  · refine meets_step_resume resumes.1 resumes.2 fun target => ?_
    refine (meets_resumeInto_reenters found stores.state target false).mono
      (fun _ next entered => ?_)
      (fun _ _ => id) fun _ => id
    obtain ⟨other, reenters⟩ := entered
    exact ⟨rfl, other, stores.restores runs closure rfl rfl rfl (fun _ _ _ => rfl) reenters⟩
  · have alive : (later.heap.get ref : Generator).state ≠ .dead := by
      rw [Heap.get_of_get?_eq_some found, stores.state]
      decide
    refine meets_step_foreach loops.1 loops.2 alive (fun _ _ _ broken => absurd iterates broken)
      fun target next assigns => ?_
    rw [← assigns.heap] at found closure
    refine (meets_resumeInto_reenters found stores.state target false).mono
      (fun _ entered reentered => ?_) (fun _ _ => id) fun _ => id
    obtain ⟨other, reenters⟩ := reentered
    have used : later.fiber.base + (instruction.second.toNat + 2) < later.fiber.stack.size :=
      iterates.used
    have size : next.fiber.stack.size = later.fiber.stack.size := by
      refine assigns.size fun place member => ?_
      rcases List.mem_pair.mp member with rfl | rfl
      · omega
      · exact used
    exact ⟨rfl, other, stores.restores runs closure size (congrArg Activity.frames assigns.activity)
      (congrArg Activity.traps assigns.activity) assigns.slots reenters⟩
  · have stored : later.awaiting.heap.get? ref = some own := found
    have resumed : (resumeInto ref none true).Meets later.awaiting
        (fun _ next => later.awaiting.Enlivens ref next ∧
          ∃ other, later.awaiting.Reenters ref own none true other [] next)
        (fun fault next => next.fiber.stack.maxSlots = later.fiber.stack.maxSlots ∧
          (fault = .stackOverflow ∨ fault = .nativeStackOverflow)) fun _ => False :=
      ((meets_resumeInto_suspended stored stores.state none true).and fun _ next result =>
          (meets_resumeInto_reenters stored stores.state none true).of_ok result).mono
        (fun _ _ => id)
        (fun _ _ failed => ⟨congrArg Activity.maxSlots failed.2.activity, .inl failed.1⟩)
        fun _ => id
    refine meets_resumeGenerator roomy
      ((resumed.mono (fun _ _ => id) (fun _ _ => id) fun _ => False.elim).bind
        fun _ entered held => ?_)
    obtain ⟨enlivens, other, reenters⟩ := held
    by_cases full : entered.limits.nativeCalls ≤ entered.fiber.nativeCalls
    · exact (meets_nestLoop_full full reenters.frames reenters.generator).mono (fun _ _ => id)
        (fun _ _ gone => ⟨gone.2.1.trans enlivens.maxSlots, .inr gone.1⟩) fun _ => False.elim
    · refine Meets.get_bind (Meets.ofFiber_bind ?_)
      rw [if_neg full]
      have closed : later.awaiting.heap.get? frame.ref = some frame.closure := closure
      have restores : machine.Restores frame later [] other entered :=
        stores.restores runs closed rfl rfl rfl (fun _ _ _ => rfl) reenters
      exact ⟨other, restores.of_stack rfl rfl⟩

/-! ## Yielding -/

theorem Path.passes (path : before.Path False after) (ref : Ref .generator) :
    Passes ref before after := by
  induction path with
  | refl => exact .inl .refl
  | @tail between after earlier change ih =>
      rcases ih with bypasses | ⟨busy, first, runs, rest⟩
      · by_cases still : after.heap.Idle ref
        · exact .inl (bypasses.tail ⟨change, still⟩)
        · exact .inr ⟨after, .tail earlier change, still, .refl⟩
      · exact .inr ⟨busy, first, runs, rest.tail change⟩

/-- What is in a suspended generator stays there until the generator is gone on with. -/
theorem Stores.endures (stores : machine.Stores frame own) (runs : frame.generator = some ref)
    (found : after.heap.get? ref = some own) (paired : after.Paired) (roomy : after.Roomy)
    (closes : after.heap.Closes ref frame.ref frame.closure) : machine.Endures frame ref after := by
  intro later bypasses generator there asleep
  obtain rfl := bypasses.eq_of_suspended paired found stores.state there asleep
  exact stores.goesOn runs there ((bypasses.path.closes paired closes).2 generator there).2
    (bypasses.path.roomy roomy).fiber

end Machine

namespace Activity

variable {activity : Activity} {heap : Heap}

/-- The traps of the last frame stand before all others. -/
theorem SoundIn.takeWhile_eq_filter (sound : activity.SoundIn heap) :
    (activity.traps.takeWhile fun trap => trap.frame == activity.frames.size - 1) =
      activity.traps.filter fun trap => trap.frame == activity.frames.size - 1 := by
  have others : ∀ trap ∈ activity.traps.dropWhile fun trap =>
      trap.frame == activity.frames.size - 1,
        ¬ (trap.frame == activity.frames.size - 1) = true := by
    intro trap member
    rw [dropWhile_last fun trap => sound.lt_size, dropWhile_eq_filter sound.ordered] at member
    have low := (List.mem_filter.mp member).2
    simp at low ⊢
    omega
  conv_rhs => rw [← List.takeWhile_append_dropWhile (p := fun trap : Trap =>
    trap.frame == activity.frames.size - 1) (l := activity.traps)]
  rw [List.filter_append, List.filter_eq_nil_iff.mpr others, List.append_nil,
    List.filter_eq_self.mpr fun trap member => List.all_eq_true.mp List.all_takeWhile trap member]

end Activity

namespace Exec

open Machine

variable {α : Type} {machine : Machine} {frame : Frame} {ref : Ref .generator}
  {instruction : Instruction}

/-- What is met is met by the machine that the computation leads to. -/
theorem Meets.and_after {action : Exec α} {done : α → Machine → Prop}
    {failed : Fault → Machine → Prop} {cut : Machine → Prop}
    (meets : action.Meets machine done failed cut) :
    action.Meets machine (fun value next => done value next ∧ action.after machine = next)
      (fun fault next => failed fault next ∧ action.after machine = next) cut := by
  rw [Meets] at meets ⊢
  rw [after]
  cases result : action machine with
  | ok value next =>
      rw [result] at meets
      exact ⟨meets, rfl⟩
  | error stop next =>
      rw [result] at meets
      cases stop with
      | raised fault => exact ⟨meets, rfl⟩
      | exhausted => exact meets

/-- The generator of a frame that yields stores the activation of the frame. -/
theorem exists_stores (ready : machine.Ready) (tallies : machine.Tallies True)
    (paired : machine.Paired) (current : machine.fiber.stack.current? = some frame)
    (runs : frame.generator = some ref) :
    ∃ own : Generator, machine.heap.get? ref = some own ∧
      machine.Stores frame (own.left (machine.fiber.stack.range frame.base frame.top) frame.ip
        ((machine.fiber.traps.takeWhile fun trap => trap.frame == machine.fiber.stack.depth - 1).map
          fun trap =>
            { ip := trap.ip, offset := trap.stackTop - frame.base, target := trap.target })) := by
  have place := getElem?_of_current current
  have activity := ready.sound.fiber.activity
  have closes := tallies.fiber.function _ frame ref place runs
  obtain ⟨own, found, _⟩ := paired.running (.line 0) (machine.fiber.stack.depth - 1) ref
    (Option.bind_eq_some_iff.mpr ⟨machine.fiber, rfl, Option.bind_eq_some_iff.mpr
      ⟨frame, place, runs⟩⟩)
  refine ⟨own, found, rfl, (closes.2 own found).1, rfl, fun index within => ?_, ?_,
    fun trap member => ?_⟩
  · have taken := Stack.getD_range machine.fiber.stack frame.base frame.closure.routine.stackSize 0
      index
    rw [if_pos within, Array.replicate_zero, Array.append_empty] at taken
    exact taken
  · exact congrArg (List.map _) activity.takeWhile_eq_filter
  · obtain ⟨listed, last⟩ := List.mem_filter.mp member
    obtain ⟨owner, there, guards⟩ := activity.owned trap listed
    rw [eq_of_beq last] at there
    obtain rfl := Option.some.inj (place.symm.trans there)
    exact guards.window

/-- Handing the value on leaves the generator alone. -/
theorem stored_leaveFrame {own : Generator} {stored : Machine} (stores : machine.Stores frame own)
    (found : stored.heap.get? ref = some own) (value : Value) :
    machine.Stored frame ref ((Exec.leaveFrame frame value).after stored) := by
  have hushes : stored.Hushes _ := Along.leaveFrame frame value stored
  exact ⟨own, (hushes.heap.generators ref).trans found, stores⟩

/-- A frame that yields hands the value on, when the frame below it has its window below this one.
Whatever handing the value on keeps of the machine that has stored the activation is kept. -/
theorem meets_yieldValue_leaves {kept : Machine → Prop} (ready : machine.Ready)
    (current : machine.fiber.stack.current? = some frame) (runs : frame.generator = some ref)
    (value : Value)
    (under : frame.isRoot = false → ∃ below, machine.fiber.stack.frames.pop.back? = some below ∧
      below.top ≤ frame.base)
    (keeps : ∀ stored : Machine, stored.heap = machine.heap.modify ref (Generator.left ·
        (machine.fiber.stack.range frame.base frame.top) frame.ip
        ((machine.fiber.traps.takeWhile fun trap => trap.frame == machine.fiber.stack.depth - 1).map
          fun trap =>
            { ip := trap.ip, offset := trap.stackTop - frame.base, target := trap.target })) →
      kept ((Exec.leaveFrame frame value).after stored)) :
    (yieldValue value).Meets machine
      (fun flow after => machine.Leaves frame value flow after ∧ kept after)
      (fun fault after => (fault = .stackOverflow ∧ (machine.mapStack (·.leave)).Misses frame) ∧
        kept after)
      fun _ => False := by
  have activity := ready.sound.fiber.activity
  refine Meets.frame_bind current ?_
  rw [runs]
  refine Meets.ofFiber_bind (Meets.ok_bind (popFrame_eq current) ?_)
  refine Meets.ofFiber_bind (Meets.onFiber_bind (Meets.ok_bind rfl (Meets.ok_bind rfl ?_)))
  refine Meets.mono
    (meets_leaveFrame_hands (fun caller member => ?_) (fun inner => ?_) value).and_after
    (fun flow after held => ?_) (fun fault after held => ?_) fun _ => id
  · exact (ready.sound.left.fiber.activity.frames caller member).room
  · obtain ⟨below, there, _⟩ := under inner
    rw [Array.back?_eq_getElem?] at there
    exact Nat.lt_of_le_of_lt (Nat.zero_le _) (Array.getElem?_eq_some_iff.mp there).1
  · obtain ⟨hands, rfl⟩ := held
    refine ⟨⟨hands.frames, hands.traps.trans ?_, ⟨ref, _, _, _, runs, hands.heap⟩, fun root => ?_,
      fun inner => ?_⟩, ?_⟩
    · have last := Activity.dropWhile_last fun trap => activity.lt_size
      refine Eq.trans ?_ (Activity.dropWhile_eq_filter activity.ordered _)
      show (machine.fiber.traps.dropWhile _).dropWhile (fun trap : Trap =>
        machine.fiber.stack.frames.pop.size ≤ trap.frame) = _
      rw [show machine.fiber.stack.frames.pop.size = _ from Array.size_pop]
      exact (congrArg _ last).trans (Activity.dropWhile_dropWhile (Nat.le_refl _))
    · obtain ⟨finishes, same⟩ := hands.root root
      refine ⟨finishes, fun place low => ?_⟩
      rw [same]
      exact Stack.slot_clearRange _ _ low
    · obtain ⟨goesOn, caller, there, used, slots⟩ := hands.inner inner
      obtain ⟨below, lies, clear⟩ := under inner
      obtain rfl := Option.some.inj (lies.symm.trans there)
      refine ⟨goesOn, below, ?_, used, fun place low => ?_⟩
      · rw [Stack.current?, hands.frames]
        exact lies
      · rw [slots place low]
        split
        · rfl
        · refine (Stack.get_clearRange _ _ _ _).trans (if_neg ?_)
          have := Nat.lt_of_lt_of_le low clear
          omega
    · exact keeps _ rfl
  · obtain ⟨missed, rfl⟩ := held
    exact ⟨missed, keeps _ rfl⟩

/-- A frame that yields stores its activation in its generator, and hands the value on. -/
theorem meets_yieldValue_hands (ready : machine.Ready) (tallies : machine.Tallies True)
    (paired : machine.Paired) (current : machine.fiber.stack.current? = some frame)
    (runs : frame.generator = some ref) (value : Value) :
    (yieldValue value).Meets machine
      (fun flow after => machine.Leaves frame value flow after ∧ machine.Stored frame ref after)
      (fun fault after => (fault = .stackOverflow ∧ (machine.mapStack (·.leave)).Misses frame) ∧
        machine.Stored frame ref after)
      fun _ => False := by
  obtain ⟨own, found, stores⟩ := exists_stores ready tallies paired current runs
  refine meets_yieldValue_leaves ready current runs value (fun inner => ?_) fun stored heap => ?_
  -- The frame below a frame that does not end its run loop has its window below this one.
  · obtain ⟨lower, below, same, there, clear⟩ := tallies.fiber.clear trivial _ frame
      (getElem?_of_current current) (by simp [runs]) inner
    refine ⟨below, ?_, clear⟩
    have size : machine.fiber.stack.frames.size - 1 = lower + 1 := same
    rw [Array.back?_eq_getElem?, Array.size_pop, Array.getElem?_pop, if_pos (by omega), size]
    exact there
  · refine stored_leaveFrame stores ?_ value
    rw [heap, Heap.get?_modify, if_pos rfl, found]
    rfl

/-- The activation of a frame that yields is stored in its generator, and the value is handed on. -/
theorem meets_step_yield (engine : Engine) (ready : machine.Ready) (tallies : machine.Tallies True)
    (paired : machine.Paired) (roomy : machine.Roomy)
    (current : machine.fiber.stack.current? = some frame) (runs : frame.generator = some ref)
    (yields : instruction.op = .yield) {value : Value}
    (handed : handedOut .direct instruction machine = .ok value machine) :
    (step engine (some instruction)).Meets machine
      (fun flow after => machine.Leaves frame value flow after ∧ machine.Endures frame ref after)
      (fun fault after => (fault = .stackOverflow ∧ (machine.mapStack (·.leave)).Misses frame) ∧
        machine.Endures frame ref after)
      fun _ => False := by
  have place := getElem?_of_current current
  have closes := tallies.fiber.function _ frame ref place runs
  -- Whether or not the value can be handed on, the generator has what it has stored.
  have endures : machine.Stored frame ref ((yieldValue value).after machine) →
      machine.Endures frame ref ((yieldValue value).after machine) := by
    rintro ⟨own, found, stores⟩
    have path : machine.Path False _ := Travels.yieldValue value False.elim
    exact stores.endures runs found (path.paired paired) (path.roomy roomy)
      (path.closes paired closes)
  rw [step, dispatch, yields]
  refine Meets.ok_bind handed ?_
  refine (meets_yieldValue_hands ready tallies paired current runs value).and_after.mono
    (fun flow after held => ?_) (fun fault after held => ?_) fun _ => id
  · obtain ⟨⟨leaves, stored⟩, rfl⟩ := held
    exact ⟨leaves, endures stored⟩
  · obtain ⟨⟨missed, stored⟩, rfl⟩ := held
    exact ⟨missed, endures stored⟩

end Exec

/-- What can happen to generators, frames and threads is all that happens to them. -/
theorem Host.Serves.passes {α : Type} {host : Host} {manners outer : Manners}
    (serves : host.Serves manners) (stop : Machine → Bool) (steps : Nat) (ref : Ref .generator) :
    (∀ (machine : Machine) (action : Exec α), (Engine.until stop host steps).Serves outer action →
      Machine.Passes ref machine (action.after machine)) ∧
    ∀ (machine : Machine) (root : Nat),
      Machine.Passes ref machine ((turn (Engine.until stop host steps) root).after machine) := by
  refine ⟨fun machine action allowed => ?_, fun machine root => ?_⟩
  · exact (Machine.path_of_serves serves allowed machine).passes ref
  · have courses := Engine.courses_until serves stop steps
    have course : (turn (Engine.until stop host steps) root).CourseAt False .script machine :=
      Courses.turn courses root False.elim
    exact course.path.passes ref

/-- A frame that yields leaves its activation in its generator, and nothing else changes but the
register that receives the value.  When the generator is gone on with, in whatever fiber that is,
the activation is restored in a frame above all registers in use, which the window of the current
frame is.  Nothing else changes but the key and the cursor of a loop. -/
theorem activations_resume {host : Host} {manners : Manners} (serves : host.Serves manners)
    (verified : manners.trusts = false) :
    (∀ (machine next : Machine) (frame : Frame) (ref : Ref .generator) (instruction : Instruction),
      machine.Occurs host manners → fetch machine = .ok (some instruction) next →
      instruction.op = .yield → next.fiber.stack.current? = some frame →
      frame.generator = some ref → ∃ value, handedOut .direct instruction next = .ok value next ∧
        ∀ engine : Engine, (step engine (some instruction)).Meets next
          (fun flow after => next.Leaves frame value flow after ∧ next.Endures frame ref after)
          (fun fault after => (fault = .stackOverflow ∧ (next.mapStack (·.leave)).Misses frame) ∧
            next.Endures frame ref after) fun _ => False) ∧
    (∀ machine : Machine, machine.Occurs host manners → machine.Ready) ∧
    ∀ (α : Type) (outer : Manners) (stop : Machine → Bool) (steps : Nat) (ref : Ref .generator),
      (∀ (machine : Machine) (action : Exec α), (Engine.until stop host steps).Serves outer action →
        Machine.Passes ref machine (action.after machine)) ∧
      ∀ (machine : Machine) (root : Nat),
        Machine.Passes ref machine ((turn (Engine.until stop host steps) root).after machine) := by
  refine ⟨fun machine next frame ref instruction occurs fetched yields current runs => ?_,
    fun machine occurs => (occurs.ready serves verified).1,
    fun α outer stop steps ref => serves.passes stop steps ref⟩
  have orderly := occurs.arises.orderly serves
  have path : machine.Path False _ := Travels.of_hushed Along.fetch machine
  have tallying : machine.Tallying True _ := Along.fetch machine
  rw [after_of_eq_ok fetched] at path tallying
  obtain ⟨value, handed⟩ := Courses.exists_handedOut instruction next
  exact ⟨value, handed, fun engine => meets_step_yield engine
    (ready_of_fetch (occurs.ready serves verified).1 fetched)
    (tallying (occurs.tallies serves verified)) (path.paired orderly.1) (path.roomy orderly.2)
    current runs yields handed⟩

/-- The generator has yielded from the first registers and goes on above them, with the number that
it has had in a register. -/
theorem activations_resume_counting :
    let next := fetch.after ((runCounting untilCounting).after (.create {}))
    let left := (step (standardEngine 8) (some ⟨.yield, 0, 1, 0, 0⟩)).after next
    left.fiber.stack.size = 3 ∧ (Exec.resumeGenerator (.ofHost standardHost 1) ⟨2⟩).Meets left
      (fun _ _ => False) (fun fault _ => fault = .stackOverflow ∨ fault = .nativeStackOverflow)
      fun after => after.fiber.stack.get 4 = .integer 7 := by
  intro next left
  let machine := (runCounting untilCounting).after (.create {})
  have occurs : machine.Occurs standardHost { wakes := true } :=
    .running (.created {}) (commands_runCounting _ {}) (eq_after_of_isCut (by decide +kernel))
  have fetched : fetch machine = .ok (some ⟨.yield, 0, 1, 0, 0⟩) next :=
    eq_after_of_value? (by decide +kernel)
  have looks : next.fiber.stack.current?.map (fun frame =>
      (frame.generator, frame.base, frame.closure.routine.stackSize)) = some (some ⟨2⟩, 0, 3) := by
    decide +kernel
  obtain ⟨frame, current, same⟩ := Option.map_eq_some_iff.mp looks
  obtain ⟨runs, same⟩ := Prod.mk.inj same
  obtain ⟨base, size⟩ := Prod.mk.inj same
  obtain ⟨value, _, yields⟩ := (activations_resume serves_standardHost rfl).1 machine next frame ⟨2⟩
    _ occurs fetched rfl current runs
  have finishes : (step (standardEngine 8) (some ⟨.yield, 0, 1, 0, 0⟩)).value? next =
      some (.finish (.integer 7)) := by decide +kernel
  have endures := ((yields (standardEngine 8)).of_ok (eq_after_of_value? finishes)).2
  have waits : (left.heap.get? (⟨2⟩ : Ref .generator)).map Generator.state = some .suspended := by
    decide +kernel
  obtain ⟨generator, found, asleep⟩ := Option.map_eq_some_iff.mp waits
  have used : left.fiber.stack.size = 3 := by decide +kernel
  have number : next.fiber.stack.get 1 = .integer 7 := by decide +kernel
  refine ⟨used, ((endures left .refl generator found asleep).resumeGenerator standardHost).mono
    (fun _ _ => id) (fun _ _ => id) fun after restored => ?_⟩
  obtain ⟨own, restores⟩ := restored
  have register := restores.registers 1 (by omega)
  rw [restores.base, used, base] at register
  exact register.trans number

end ScriptMachine
