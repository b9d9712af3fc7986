import ScriptMachine.Proofs.Machine.Courses
import ScriptMachine.Proofs.Machine.Suspension

/-!
# Activations while they last

A run loop works in the frame at some place and above it until that frame has been left.  Meanwhile
calls come and go above it, calls in its place replace it, faults are caught, and the fiber may be
suspended and woken again.  Through all of this the place keeps its window, its target and its part
in the run loop, and what is below it is left alone.
-/

namespace ScriptMachine

open Exec

/-! ## Traps by their frames -/

namespace Activity

variable {traps : List Trap}

/-- The traps of outer frames are all that is left behind those of inner ones. -/
theorem dropWhile_eq_filter (ordered : traps.Pairwise fun inner outer => outer.frame ≤ inner.frame)
    (depth : Nat) : (traps.dropWhile fun trap => depth ≤ trap.frame) =
      traps.filter fun trap => trap.frame < depth := by
  induction traps with
  | nil => rfl
  | cons innermost rest ih =>
      obtain ⟨first, ordered⟩ := List.pairwise_cons.mp ordered
      by_cases above : depth ≤ innermost.frame
      · rw [List.dropWhile_cons, if_pos (decide_eq_true above), ih ordered,
          List.filter_cons_of_neg (by simpa using above)]
      · have low : ∀ trap ∈ innermost :: rest, decide (trap.frame < depth) = true := by
          intro trap member
          rcases List.mem_cons.mp member with rfl | member
          · exact decide_eq_true (Nat.lt_of_not_le above)
          · have := first trap member
            exact decide_eq_true (by omega)
        rw [List.dropWhile_cons, if_neg (by simpa using above), List.filter_eq_self.mpr low]

end Activity

/-! ## Places -/

/-- The later frame takes the place of the former one: its result goes where that of the former
would have gone. -/
structure Frame.Succeeds (former later : Frame) : Prop extends former.Continues later where
  /-- The result goes to the same register. -/
  target : later.target = former.target
  /-- Either both end the run loop or none does. -/
  isRoot : later.isRoot = former.isRoot

theorem Frame.Succeeds.refl (frame : Frame) : frame.Succeeds frame :=
  ⟨.refl frame, rfl, rfl⟩

theorem Frame.Succeeds.trans {former frame later : Frame} (first : former.Succeeds frame)
    (second : frame.Succeeds later) : former.Succeeds later :=
  ⟨first.toContinues.trans second.toContinues, second.target.trans first.target,
    second.isRoot.trans first.isRoot⟩

namespace Machine

/-- A run loop goes on with the next instruction. -/
structure Works (manners : Manners) (root : Nat) (machine : Machine) : Prop where
  /-- The machine is sound, and the window of the current frame is in use. -/
  ready : machine.Ready
  /-- Host functions have nothing to wake. -/
  calm : machine.fiber.activity.Calm manners
  /-- Only the first frame of the run loop ends it. -/
  rooted : machine.fiber.activity.Rooted root

/-- A place is kept: there is a frame, which takes the place of the one before, and nothing has
happened below. -/
structure Upholds (index floor : Nat) (before after : Machine) : Prop where
  /-- There is a frame. -/
  deep : index < after.fiber.stack.depth
  /-- It has the place of the one before. -/
  frame : ∀ former, before.fiber.stack.frames[index]? = some former →
    ∃ later, after.fiber.stack.frames[index]? = some later ∧ former.Succeeds later
  /-- The frames below are the same. -/
  frames : ∀ other < index, after.fiber.stack.frames[other]? = before.fiber.stack.frames[other]?
  /-- Their traps are the same. -/
  traps : (after.fiber.traps.filter fun trap => trap.frame < index) =
    before.fiber.traps.filter fun trap => trap.frame < index
  /-- The registers below are the same. -/
  slots : ∀ place < floor, after.fiber.stack.slots[place]? = before.fiber.stack.slots[place]?

/-- The registers below a place belong to it: its window starts above them, and so does the top of
the caller's window, if there is a caller in the run loop. -/
structure Floors (machine : Machine) (root index floor : Nat) : Prop where
  /-- The window starts above. -/
  low : ∀ frame, machine.fiber.stack.frames[index]? = some frame → floor ≤ frame.base
  /-- The window of the caller ends above. -/
  caller : root < index → ∀ frame, machine.fiber.stack.frames[index - 1]? = some frame →
    floor ≤ frame.top

/-- A fiber that has been suspended is at rest, as it has been left. -/
structure Asleep (halted machine : Machine) : Prop where
  /-- The machine is sound. -/
  sound : machine.Sound
  /-- The fiber can go on. -/
  paused : machine.fiber.Paused
  /-- The registers and frames are the same. -/
  stack : machine.fiber.stack = halted.fiber.stack
  /-- The traps are the same. -/
  traps : machine.fiber.traps = halted.fiber.traps
  /-- The same register waits for a value. -/
  target : machine.fiber.suspended.bind SuspendPoint.target =
    halted.fiber.suspended.bind SuspendPoint.target
  /-- There can be a run loop. -/
  limit : 0 < machine.limits.nativeCalls
  /-- Whatever has happened meanwhile to generators, frames and threads is in order. -/
  path : halted.Path False machine

/-- A fiber that has been suspended goes on, with a value in the register that waits for it. -/
structure Awakes (manners : Manners) (halted machine : Machine) : Prop where
  /-- The machine is sound, and the window of the current frame is in use. -/
  ready : machine.Ready
  /-- Host functions have nothing to wake. -/
  calm : machine.fiber.activity.Calm manners
  /-- The frames are the same. -/
  frames : machine.fiber.stack.frames = halted.fiber.stack.frames
  /-- The traps are the same. -/
  traps : machine.fiber.traps = halted.fiber.traps
  /-- All other registers are the same. -/
  slots : ∀ place, (∀ point number, halted.fiber.suspended = some point →
    point.target = some number → place ≠ halted.fiber.base + number.toNat) →
    machine.fiber.stack.slots[place]? = halted.fiber.stack.slots[place]?
  /-- Whatever has happened meanwhile to generators, frames and threads is in order. -/
  path : halted.Path False machine

end Machine

/-! ## Waking -/

section Delivered

open Machine

variable {machine : Machine} {target : Option UInt8} (within : ∀ number, target = some number →
  machine.fiber.base + number.toNat < machine.fiber.stack.size) (value : Value)

include within

theorem Machine.Ready.delivered (ready : machine.Ready) :
    (machine.delivered target value).Ready := by
  cases target with
  | none => exact ready
  | some number =>
      have assigns : Direct {} (.below 0) (setPlace (machine.fiber.base + number.toNat) value) :=
        .setPlace (Nat.zero_le _) value
      have assigned := assigns machine ready.sound (Nat.zero_le _)
      rw [Meets, setPlace_eq (within number rfl)] at assigned
      exact assigned.1.keeps.ready ready

theorem Machine.hushes_delivered : machine.Hushes (machine.delivered target value) := by
  have along : machine.Hushes ((deliver target value).after machine) :=
    Along.deliver target value machine
  rwa [after_of_eq_ok (deliver_eq within value)] at along

/-- Only the register that waits for the value changes. -/
theorem Machine.slot_delivered {place : Nat} (other : ∀ number, target = some number →
    place ≠ machine.fiber.base + number.toNat) :
    (machine.delivered target value).fiber.stack.slots[place]? =
      machine.fiber.stack.slots[place]? := by
  cases target with
  | none => rfl
  | some number =>
      show (machine.fiber.stack.put _ value).slots[place]? = _
      by_cases inside : place < machine.fiber.stack.size
      · exact Stack.slot_put _ value inside (other number rfl).symm
      · have size : (machine.fiber.stack.put (machine.fiber.base + number.toNat) value).size =
            machine.fiber.stack.size :=
          (Stack.size_put ..).trans (Nat.max_eq_left (within number rfl))
        have outside := Nat.le_of_not_lt inside
        rw [Array.getElem?_eq_none outside,
          Array.getElem?_eq_none (Nat.le_trans (Nat.le_of_eq size) outside)]

end Delivered

theorem Machine.frames_delivered (machine : Machine) (target : Option UInt8) (value : Value) :
    (machine.delivered target value).fiber.stack.frames = machine.fiber.stack.frames := by
  cases target with
  | none => rfl
  | some number => exact Stack.frames_put ..

/-- Nothing else changes with a register. -/
theorem Machine.fiber_delivered (machine : Machine) (target : Option UInt8) (value : Value) :
    (machine.delivered target value).fiber =
      { machine.fiber with stack := (machine.delivered target value).fiber.stack } := by
  cases target with
  | none | some => rfl

namespace Exec

open Machine

variable {host : Host} {manners : Manners} {halted before machine : Machine}

/-- A run loop is entered again with a value.  An engine with one step is cut short there. -/
theorem meets_continueAt_cut (target : Option UInt8) (value : Value)
    (above : 0 < machine.fiber.stack.depth) (limit : 0 < machine.limits.nativeCalls)
    (still : machine.fiber.nativeCalls = 0) (within : ∀ number, target = some number →
      machine.fiber.base + number.toNat < machine.fiber.stack.size) :
    (continueAt (.ofHost host 1) ⟨target, 0, 0⟩ value).Meets machine (fun _ _ => False)
      (fun _ _ => False) (· = (machine.delivered target value).nested) := by
  have limits : (machine.delivered target value).limits = machine.limits := by
    cases target with
    | none | some => rfl
  have none : (machine.delivered target value).fiber.nativeCalls = 0 := by
    rw [fiber_delivered]
    exact still
  have nested : (nestLoop 0 (loop (.ofHost host 0) 0 0)).Meets (machine.delivered target value)
      (fun _ _ => False) (fun _ _ => False) (· = (machine.delivered target value).nested) := by
    refine Meets.get_bind (Meets.ofFiber_bind ?_)
    rw [none, limits, if_neg (Nat.not_le_of_lt limit)]
    exact rfl
  refine Meets.ofFiber_bind ?_
  dsimp only
  rw [if_neg (Nat.not_le_of_lt above)]
  exact Meets.ok_bind (deliver_eq within value) nested

/-- A suspended fiber goes on where it has been suspended when it is woken.  An engine with one step
is cut short there. -/
theorem meets_wakeup_awakes (asleep : halted.Asleep before) (above : 0 < halted.fiber.stack.depth)
    (value : Value) :
    (Exec.wakeup (.ofHost host 1) value).Meets before (fun _ _ => False) (fun _ _ => False)
      (halted.Awakes manners) := by
  obtain ⟨sound, paused, stack, traps, point, limit, path⟩ := asleep
  obtain ⟨target, here, window⟩ := paused.resumable
  rw [here] at point
  rw [← stack] at above
  let woken := before.mapFiber fun fiber => { fiber with state := .running, suspended := none }
  have ready : woken.Ready := Ready.changeFiber ⟨sound, paused.shaped⟩ rfl rfl
  obtain ⟨frame, current⟩ := exists_current above
  have base : woken.fiber.base = frame.base := by
    rw [Fiber.base, show woken.fiber.stack.current? = some frame from current]
    rfl
  have within : ∀ number, target = some number →
      woken.fiber.base + number.toNat < woken.fiber.stack.size := fun number there =>
    base ▸ Nat.lt_of_lt_of_le (window number frame there current) (paused.shaped frame current)
  refine Meets.ofFiber_bind ?_
  rw [if_pos paused.state]
  refine Meets.ofFiber_bind ?_
  rw [here]
  have continued : (continueAt (.ofHost host 1) ⟨target, 0, 0⟩ value).Meets woken _ _ _ :=
    meets_continueAt_cut target value above limit paused.nativeCalls within
  refine Meets.onFiber_bind (Meets.attempt_bind (continued.mono (fun _ _ => id) (fun _ _ => id) ?_)
    (fun _ _ => False.elim) fun _ _ => False.elim)
  rintro _ rfl
  let next := woken.delivered target value
  have fiber : next.fiber = { woken.fiber with stack := next.fiber.stack } :=
    fiber_delivered woken target value
  have state : next.fiber.state = .running := congrArg Fiber.state fiber
  have begins : before.Hushes woken := hushes_of_stack rfl rfl rfl
  have delivers : woken.Hushes next := hushes_delivered within value
  have counts : next.Hushes next.nested := hushes_of_stack rfl rfl rfl
  refine ⟨(ready.delivered within value).changeFiber rfl rfl,
    fun _ asleep => absurd (state.symm.trans asleep) (by decide),
    (frames_delivered woken target value).trans (congrArg Stack.frames stack),
    (congrArg Fiber.traps fiber).trans traps, fun place other => ?_,
    path.trans (begins.path.trans (delivers.path.trans counts.path))⟩
  rw [← stack]
  refine slot_delivered within value fun number there same => ?_
  cases suspended : halted.fiber.suspended with
  | none => simp [suspended, there] at point
  | some halts =>
      have waits : halts.target = some number := by simpa [suspended, there] using point.symm
      have base : halted.fiber.base = woken.fiber.base := by
        rw [Fiber.base, ← stack]
        rfl
      exact other halts number suspended waits (base ▸ same)

end Exec

/-- The run loop leads from a machine to another one, with more than so many frames all the time.
Where the fiber is suspended, it is woken again, and an engine with one step is cut short where the
run loop goes on. -/
inductive Exec.Stays (host : Host) (root index : Nat) : Machine → Machine → Prop
  /-- Nothing happens. -/
  | refl (machine : Machine) : Stays host root index machine machine
  /-- An instruction is carried out. -/
  | turned {machine next last : Machine} {steps : Nat} :
      turn (.ofHost host steps) root machine = .ok none next →
      index < next.fiber.stack.depth → Stays host root index next last →
      Stays host root index machine last
  /-- An instruction suspends the fiber, which is woken later. -/
  | woken {machine halted asleep next last : Machine} {steps : Nat} {value reply : Value} :
      turn (.ofHost host steps) root machine = .ok (some (.suspended value)) halted →
      halted.Asleep asleep → wakeup (.ofHost host 1) reply asleep = .error .exhausted next →
      Stays host root index next last → Stays host root index machine last

namespace Machine

variable {manners : Manners} {root index floor : Nat} {start before between after machine : Machine}
  {frame : Frame} {scope : Scope}

theorem Upholds.refl (deep : index < machine.fiber.stack.depth) :
    machine.Upholds index floor machine :=
  ⟨deep, fun former found => ⟨former, found, .refl former⟩, fun _ _ => rfl, rfl, fun _ _ => rfl⟩

theorem Upholds.trans (first : before.Upholds index floor between)
    (second : between.Upholds index floor after) : before.Upholds index floor after where
  deep := second.deep
  frame former found := by
    obtain ⟨frame, there, succeeds⟩ := first.frame former found
    obtain ⟨later, here, follows⟩ := second.frame frame there
    exact ⟨later, here, succeeds.trans follows⟩
  frames other low := (second.frames other low).trans (first.frames other low)
  traps := second.traps.trans first.traps
  slots place low := (second.slots place low).trans (first.slots place low)

/-- What belongs to a place goes on belonging to it. -/
theorem Floors.upheld (floors : before.Floors root index floor)
    (upholds : before.Upholds index floor after) (above : index < before.fiber.stack.depth) :
    after.Floors root index floor where
  low frame found := by
    obtain ⟨later, here, succeeds⟩ :=
      upholds.frame _ (@Array.getElem?_eq_getElem _ before.fiber.stack.frames _ above)
    obtain rfl := Option.some.inj (here.symm.trans found)
    rw [succeeds.base]
    exact floors.low _ (Array.getElem?_eq_getElem above)
  caller inner frame found :=
    floors.caller inner frame ((upholds.frames (index - 1) (by omega)).symm.trans found)

/-- The frames from a place on, seen from the frame at that place. -/
def placeScope (le : root ≤ index) (floor : Nat) (frame : Frame) : Scope where
  root := root
  mark := index
  le := le
  floor := floor
  target := frame.target
  former := some frame

theorem Works.running (works : machine.Works manners root) (le : root ≤ index)
    (above : index < machine.fiber.stack.depth)
    (found : machine.fiber.stack.frames[index]? = some frame)
    (floors : machine.Floors root index floor) :
    machine.Running manners (placeScope le floor frame) machine := by
  refine ⟨⟨works.ready.sound, works.rooted, Nat.le_of_lt above, .refl _ _, fun other there => ?_,
    floors.caller, fun _ _ => rfl, ?_, rfl, rfl⟩, above, works.ready.shaped, logs_of_eq rfl,
    works.calm⟩
  · obtain rfl := Option.some.inj (found.symm.trans there)
    refine ⟨floors.low frame found, rfl, fun former known => ?_⟩
    obtain rfl := Option.some.inj known
    exact .refl frame
  · obtain ⟨current, last⟩ := exists_current above
    have stacked := works.ready.sound.fiber.activity.stacked index _ frame current
      (Nat.le_sub_one_of_lt above) found (getElem?_of_current last)
    calc floor ≤ frame.base := floors.low frame found
      _ ≤ current.base := stacked
      _ ≤ current.top := Nat.le_add_right _ _
      _ ≤ machine.fiber.stack.size := works.ready.shaped current last

/-- What is looked at from the frame at a place keeps the place. -/
theorem Within.upholds {le : root ≤ index}
    (within : machine.Within (placeScope le floor frame) after) (sound : machine.Sound)
    (rooted : machine.fiber.activity.Rooted root)
    (found : machine.fiber.stack.frames[index]? = some frame)
    (deep : index < after.fiber.stack.depth) : machine.Upholds index floor after where
  deep := deep
  frame former there := by
    obtain rfl := Option.some.inj (found.symm.trans there)
    have here : after.fiber.stack.frames[index]? = some after.fiber.stack.frames[index] :=
      Array.getElem?_eq_getElem deep
    obtain ⟨_, target, continues⟩ := within.first _ here
    refine ⟨_, here, continues frame rfl, target, Bool.eq_iff_iff.mpr ?_⟩
    exact (within.rooted index _ le here).trans (rooted index frame le found).symm
  frames := within.below.frames
  traps :=
    calc (after.fiber.activity.traps.filter fun trap => trap.frame < index)
      _ = after.fiber.activity.traps.dropWhile fun trap => index ≤ trap.frame :=
          (Activity.dropWhile_eq_filter within.sound.fiber.activity.ordered index).symm
      _ = machine.fiber.activity.traps.dropWhile fun trap => index ≤ trap.frame :=
          within.below.traps
      _ = machine.fiber.activity.traps.filter fun trap => trap.frame < index :=
          Activity.dropWhile_eq_filter sound.fiber.activity.ordered index
  slots := within.slots

/-- Waking the fiber keeps the place. -/
theorem Awakes.upholds (awakes : before.Awakes manners after)
    (deep : index < before.fiber.stack.depth) (high : floor ≤ before.fiber.base) :
    before.Upholds index floor after where
  deep := by
    rw [Stack.depth, awakes.frames]
    exact deep
  frame former found := ⟨former, awakes.frames ▸ found, .refl former⟩
  frames other _ := by rw [awakes.frames]
  traps := by rw [awakes.traps]
  slots place low := awakes.slots place fun _ _ _ _ => by omega

end Machine

namespace Exec.Stays

open Machine

variable {host : Host} {manners : Manners} {root index floor : Nat} {machine last : Machine}

/-- Whatever a run loop does in and above a place, it keeps the place. -/
theorem upholds (steady : ∀ steps, (Engine.ofHost host steps).Steady manners)
    (stays : Stays host root index machine last) (works : machine.Works manners root)
    (le : root ≤ index) (above : index < machine.fiber.stack.depth)
    (floors : machine.Floors root index floor) :
    last.Works manners root ∧ machine.Upholds index floor last := by
  induction stays with
  | refl machine => exact ⟨works, .refl above⟩
  | @turned machine next last steps turned deep _ ih =>
      have found := @Array.getElem?_eq_getElem _ machine.fiber.stack.frames _ above
      have running := works.running le above found floors
      have turns := meets_turn (steady steps).calls (steady steps).natives running
      change (turn (.ofHost host steps) root).Meets machine _ _ _ at turns
      rw [Meets, turned] at turns
      have running := turns.2 deep
      have upholds := running.toWithin.upholds works.ready.sound works.rooted found deep
      obtain ⟨works, further⟩ := ih ⟨⟨running.sound, running.shaped⟩, running.calm, running.rooted⟩
        deep (floors.upheld upholds above)
      exact ⟨works, upholds.trans further⟩
  | @woken machine halted asleep next last steps value reply turned rests woken _ ih =>
      have found := @Array.getElem?_eq_getElem _ machine.fiber.stack.frames _ above
      have running := works.running le above found floors
      have turns := meets_turn (steady steps).calls (steady steps).natives running
      change (turn (.ofHost host steps) root).Meets machine _ _ _ at turns
      rw [Meets, turned] at turns
      have halts : machine.Halted manners _ 1 halted := turns
      have deep : index < halted.fiber.stack.depth := halts.above Nat.one_ne_zero
      have kept := halts.within.upholds works.ready.sound works.rooted found deep
      have kept : machine.Upholds index floor halted :=
        ⟨deep, kept.frame, kept.frames, kept.traps, kept.slots⟩
      have floors := floors.upheld kept above
      obtain ⟨current, here⟩ := exists_current deep
      have base : floor ≤ halted.fiber.base := by
        have place := getElem?_of_current here
        have first := @Array.getElem?_eq_getElem _ halted.fiber.stack.frames _ deep
        rw [Fiber.base, here]
        exact Nat.le_trans (floors.low _ first) (halts.ready.sound.fiber.activity.stacked index _ _
          current (Nat.le_sub_one_of_lt deep) first place)
      have awakes : halted.Awakes manners next :=
        (meets_wakeup_awakes rests (Nat.zero_lt_of_lt deep) reply).of_cut woken
      have upholds := awakes.upholds deep base
      have rooted : next.fiber.activity.Rooted root := by
        intro other frame high there
        have there : next.fiber.stack.frames[other]? = some frame := there
        rw [awakes.frames] at there
        exact halts.rooted other frame high there
      obtain ⟨works, further⟩ := ih ⟨awakes.ready, awakes.calm, rooted⟩ upholds.deep
        (floors.upheld upholds deep)
      exact ⟨works, kept.trans (upholds.trans further)⟩

end Exec.Stays

/-! ## The next instruction -/

namespace Exec

open Machine

variable {machine next : Machine} {instruction : Option Instruction}

/-- The next instruction is the one of the current frame, which goes on behind it. -/
theorem fetch_cases (fetched : fetch machine = .ok instruction next) :
    ∃ frame, machine.fiber.stack.current? = some frame ∧
      ((instruction = none ∧ next = machine) ∨
        instruction = frame.closure.routine.code[frame.ip]? ∧
          frame.ip < frame.closure.routine.code.size ∧
          next = machine.mapStack (·.modifyFrame ({ · with ip := frame.ip + 1 }))) := by
  cases present : machine.fiber.stack.current? with
  | none =>
      rw [fetch, Exec.frame] at fetched
      simp [ofFiber, present, bind, EStateM.bind, raise] at fetched
  | some frame =>
      rw [fetch, Exec.frame_bind present] at fetched
      refine ⟨frame, rfl, ?_⟩
      cases found : frame.closure.routine.code[frame.ip]? with
      | none =>
          rw [found] at fetched
          injection fetched with absent same
          exact .inl ⟨absent.symm, same.symm⟩
      | some other =>
          rw [found] at fetched
          injection fetched with here same
          exact .inr ⟨here.symm, (Array.getElem?_eq_some_iff.mp found).1, same.symm⟩

/-- Nothing else changes with the next instruction. -/
theorem current_of_fetch (fetched : fetch machine = .ok instruction next) :
    ∃ frame ip, machine.fiber.stack.current? = some frame ∧
      next.fiber.stack.current? = some { frame with ip } ∧
      next.fiber.stack.depth = machine.fiber.stack.depth ∧
      ∀ other, other + 1 < machine.fiber.stack.depth →
        next.fiber.stack.frames[other]? = machine.fiber.stack.frames[other]? := by
  obtain ⟨frame, current, ⟨_, rfl⟩ | ⟨_, _, rfl⟩⟩ := fetch_cases fetched
  · exact ⟨frame, frame.ip, current, current, rfl, fun _ _ => rfl⟩
  · refine ⟨frame, frame.ip + 1, current, current_goTo current _, depth_goTo _ _,
      fun other low => ?_⟩
    show (machine.fiber.stack.frames.modify _ _)[other]? = _
    rw [Array.getElem?_modify, if_neg (by omega)]

theorem ready_of_fetch (ready : machine.Ready) (fetched : fetch machine = .ok instruction next) :
    next.Ready := by
  obtain ⟨frame, current, ⟨_, rfl⟩ | ⟨_, within, rfl⟩⟩ := fetch_cases fetched
  · exact ready
  · have sound := ready.sound
    refine ⟨⟨sound.heap, ⟨sound.fiber.activity.goTo current within, sound.fiber.room⟩,
      sound.waiting, sound.routines, sound.incidents⟩, fun other moved => ?_⟩
    obtain rfl := Option.some.inj ((current_goTo current _).symm.trans moved)
    exact ready.shaped frame current

end Exec

/-! ## Results -/

/-- The result of a frame that has been removed is where it goes: the run loop ends with it, or the
caller goes on with it in a register, and with all registers of its window in use. -/
structure Machine.Hands (frame : Frame) (value : Value) (before : Machine) (flow : Flow)
    (after : Machine) : Prop where
  /-- The frames are the same. -/
  frames : after.fiber.stack.frames = before.fiber.stack.frames
  /-- The traps of other frames are the same. -/
  traps : after.fiber.traps =
    before.fiber.traps.dropWhile fun trap => before.fiber.stack.depth ≤ trap.frame
  /-- So are the objects. -/
  heap : after.heap = before.heap
  /-- The run loop ends. -/
  root : frame.isRoot = true →
    flow = .finish value ∧ after.fiber.stack.slots = before.fiber.stack.slots
  /-- The caller goes on. -/
  inner : frame.isRoot = false → flow = .proceed ∧
    ∃ caller, before.fiber.stack.current? = some caller ∧
      caller.top ≤ after.fiber.stack.size ∧
      ∀ place < caller.top, after.fiber.stack.get place =
        if frame.target.map (caller.base + ·.toNat) = some place then value
        else before.fiber.stack.get place

/-- The register that waits for the result of a frame does not belong to the window of the
caller. -/
def Machine.Misses (frame : Frame) (machine : Machine) : Prop :=
  ∃ caller number, machine.fiber.stack.current? = some caller ∧ frame.target = some number ∧
    caller.top ≤ caller.base + number.toNat

namespace Exec

open Machine

variable {machine : Machine} {frame : Frame}

theorem meets_setPlace_within (place : Nat) (value : Value) :
    (setPlace place value).Meets machine
      (fun _ next => next = machine.mapStack (·.put place value))
      (fun fault _ => fault = .stackOverflow ∧ machine.fiber.stack.size ≤ place)
      (fun _ => False) := by
  by_cases within : place < machine.fiber.stack.size
  · rw [Meets, setPlace_eq within]
  · exact Meets.room_bind ⟨rfl, Nat.le_of_not_lt within⟩ fun _ => rfl

/-- The result of a frame is handed on. -/
theorem meets_leaveFrame_hands
    (room : ∀ caller ∈ machine.fiber.stack.frames, caller.top ≤ machine.fiber.stack.maxSlots)
    (called : frame.isRoot = false → 0 < machine.fiber.stack.depth) (value : Value) :
    (leaveFrame frame value).Meets machine (machine.Hands frame value)
      (fun fault _ => fault = .stackOverflow ∧ machine.Misses frame) (fun _ => False) := by
  refine Meets.ofFiber_bind (Meets.onFiber_bind ?_)
  cases isRoot : frame.isRoot with
  | true =>
      rw [if_pos rfl]
      exact ⟨rfl, rfl, rfl, fun _ => ⟨rfl, rfl⟩,
        fun inner => absurd (isRoot.symm.trans inner) (by decide)⟩
  | false =>
      rw [if_neg Bool.false_ne_true]
      obtain ⟨caller, current⟩ := exists_current (called isRoot)
      have room : caller.top ≤ machine.fiber.stack.maxSlots :=
        room caller (Array.mem_of_getElem? (getElem?_of_current current))
      refine Meets.frame_bind current (Meets.ok_bind (resize_eq room) ?_)
      let dropped := machine.mapFiber (·.dropTraps machine.fiber.stack.depth)
      let resized := dropped.mapStack fun stack => (stack.truncate caller.top).grow caller.top
      have size : resized.fiber.stack.size = caller.top := Stack.size_truncate_grow _ _
      have frames : resized.fiber.stack.frames = machine.fiber.stack.frames := by
        simp [resized, dropped, mapStack, mapFiber, Stack.truncate, Fiber.dropTraps]
      have slots : ∀ place < caller.top,
          resized.fiber.stack.get place = machine.fiber.stack.get place :=
        fun place low => Stack.get_truncate_grow _ low
      have base : resized.fiber.base = caller.base := by
        rw [Fiber.base, Stack.current?, frames]
        exact congrArg (fun frame => (Option.map Frame.base frame).getD 0) current
      cases target : frame.target with
      | none =>
          refine ⟨frames, rfl, rfl, fun root => absurd (isRoot.symm.trans root) (by decide),
            fun _ => ⟨rfl, caller, current, Nat.le_of_eq size.symm, fun place low => ?_⟩⟩
          rw [target, if_neg (by simp)]
          exact slots place low
      | some number =>
          have delivered : (deliver (some number) value).Meets resized
              (fun _ next => next = resized.mapStack (·.put (caller.base + number.toNat) value))
              (fun fault _ => fault = .stackOverflow ∧
                caller.top ≤ caller.base + number.toNat) (fun _ => False) := by
            rw [← base, ← size]
            exact Meets.ofFiber_bind (meets_setPlace_within _ value)
          refine (delivered.mono (fun _ _ => id) (fun fault _ missed =>
            ⟨missed.1, caller, number, current, target, missed.2⟩) fun _ => id).bind ?_
          rintro _ next rfl
          refine ⟨(Stack.frames_put ..).trans frames, rfl, rfl,
            fun root => absurd (isRoot.symm.trans root) (by decide),
            fun _ => ⟨rfl, caller, current, ?_, fun place low => ?_⟩⟩
          · show _ ≤ (resized.fiber.stack.put (caller.base + number.toNat) value).size
            rw [Stack.size_put, size]
            exact Nat.le_max_left _ _
          · show (resized.fiber.stack.put (caller.base + number.toNat) value).get place = _
            rw [Stack.get_put, slots place low, target]
            simp

end Exec

end ScriptMachine
