import ScriptMachine.Machine.Recovery
import ScriptMachine.Proofs.Machine.Leaving

/-!
# Recovery from faults

A fault in a run loop leads to an error handler of the run loop, from which the loop goes on, or
leaves none of its frames.  Until then nothing happens but that frames are given up: what the fault
has left behind is what the handler finds.
-/

namespace ScriptMachine

namespace Incident

variable {raised : Incident} {machine next : Machine} {frame : Frame}

theorem Remains.ending (remains : raised.Remains machine) (frame : Frame) :
    raised.Remains { machine with heap := machine.heap.ending frame } := by
  rw [Heap.ending]
  cases frame.generator with
  | none => exact remains
  | some ref => exact remains.kill ref

/-- The generator of the frame has ended. -/
theorem Remains.get?_ending (remains : raised.Remains machine) {ref : Ref .generator}
    (runs : frame.generator = some ref) :
    (machine.heap.ending frame).get? ref = (raised.heap.get? ref).map Generator.killed := by
  rw [Heap.ending, runs, Heap.get?_modify, if_pos rfl]
  rcases remains.generators ref with same | ended
  · rw [same]
  · rw [ended, Option.map_map]
    rfl

theorem Remains.leave (remains : raised.Remains machine)
    (current : machine.fiber.stack.current? = some frame)
    (ended : ∀ ref, frame.generator = some ref →
      machine.heap.get? ref = (raised.heap.get? ref).map Generator.killed) :
    raised.Remains (machine.mapStack (·.leave)) := by
  have size : (machine.mapStack (·.leave)).fiber.stack.depth =
      machine.fiber.stack.frames.size - 1 := Array.size_pop
  have depth := remains.depth_le
  rw [Stack.depth] at depth
  refine ⟨remains.stacked, fun index low => ?_, remains.traps, fun place low => ?_,
    remains.generators, fun index other ref high found runs => ?_, remains.suspended⟩
  · rw [size] at low
    show machine.fiber.stack.frames.pop[index]? = _
    rw [Array.getElem?_pop, if_pos low]
    exact remains.frames index (Nat.lt_of_lt_of_le low (Nat.sub_le _ _))
  · rw [size] at low
    refine remains.registers place (Nat.lt_of_lt_of_le low ?_)
    exact Stack.reach_mono remains.stacked (Nat.sub_le _ _) depth
  · rw [size] at high
    rcases Nat.lt_or_ge index machine.fiber.stack.frames.size with within | beyond
    · have last : index = machine.fiber.stack.depth - 1 := by
        rw [Stack.depth]
        omega
      have place := Machine.getElem?_of_current current
      rw [← last, remains.frames index within, found] at place
      exact ended ref (Option.some.inj place ▸ runs)
    · exact remains.ended index other ref beyond found runs

/-- Traps may go where nothing can catch the fault. -/
theorem Remains.setTraps (remains : raised.Remains machine) {traps : List Trap}
    (same : raised.fault.isFatal = false → traps = machine.fiber.traps) :
    raised.Remains (machine.mapFiber fun fiber => { fiber with traps }) :=
  ⟨remains.stacked, remains.frames, fun mild => (same mild).trans (remains.traps mild),
    remains.registers, remains.generators, remains.ended, remains.suspended⟩

end Incident

namespace Machine

variable {manners : Manners} {scope : Scope} {start before machine after : Machine} {frame : Frame}

/-- Frames have been given up. -/
structure Sheds (scope : Scope) (start before after : Machine) : Prop where
  /-- Nothing has happened below the frames looked at. -/
  within : start.Within scope after
  /-- The frames that are left are the same. -/
  frames : ∀ index < after.fiber.stack.depth,
    after.fiber.stack.frames[index]? = before.fiber.stack.frames[index]?
  /-- The registers are the same. -/
  slots : after.fiber.stack.slots = before.fiber.stack.slots
  /-- The traps are the same. -/
  traps : after.fiber.traps = before.fiber.traps
  /-- No incident has been added. -/
  incidents : after.incidents = before.incidents
  /-- What a fault has left behind is still there. -/
  remains : ∀ raised : Incident, raised.Remains before → raised.Remains after

/-- Traps may go. -/
theorem Sound.dropTraps (sound : machine.Sound) {traps : List Trap}
    (sublist : traps.Sublist machine.fiber.traps) :
    (machine.mapFiber fun fiber => { fiber with traps }).Sound :=
  ⟨sound.heap, ⟨sound.fiber.activity.dropTraps sublist, sound.fiber.room⟩, sound.waiting,
    sound.routines, sound.incidents⟩

theorem Within.sheds (within : start.Within scope machine) : start.Sheds scope machine machine :=
  ⟨within, fun _ _ => rfl, rfl, rfl, rfl, fun _ => id⟩

theorem Sheds.trans (first : start.Sheds scope before machine)
    (second : start.Sheds scope machine after)
    (depth : after.fiber.stack.depth ≤ machine.fiber.stack.depth) :
    start.Sheds scope before after where
  within := second.within
  frames index low :=
    (second.frames index low).trans (first.frames index (Nat.lt_of_lt_of_le low depth))
  slots := second.slots.trans first.slots
  traps := second.traps.trans first.traps
  incidents := second.incidents.trans first.incidents
  remains raised remains := second.remains raised (first.remains raised remains)

/-- The trap has caught a fault. -/
structure Catches (trap : Trap) (fault : Fault) (before after : Machine) : Prop where
  /-- The frame with the trap is the current one. -/
  depth : after.fiber.stack.depth = trap.frame + 1
  /-- Its window is in use. -/
  shaped : after.fiber.Shaped
  /-- The trap gets what the fault has left behind. -/
  caught : ∃ caught : Incident, after.incidents = caught :: before.incidents ∧
    caught.occurrence = .caught trap ∧ caught.level = after.waiting.length ∧
    caught.reporting = after.reporting ∧ ∀ raised : Incident, raised.fault = fault →
      raised.fiber.traps = trap :: before.fiber.traps →
      Incident.Remains
        { raised with fiber := { raised.fiber with traps := before.fiber.traps } } before →
      raised.Resumes trap caught

end Machine

namespace Exec

open Machine

variable {manners : Manners} {scope : Scope} {start machine : Machine} {frame : Frame}
  {fault : Fault}

/-! ## Giving up frames -/

theorem meets_discardFrame (within : start.Within scope machine)
    (above : scope.mark < machine.fiber.stack.depth)
    (low : ∀ trap ∈ machine.fiber.traps, trap.frame < machine.fiber.stack.depth - 1) :
    discardFrame.Meets machine
      (fun _ next => start.Sheds scope machine next ∧
        next.fiber.stack.depth = machine.fiber.stack.depth - 1)
      (fun _ _ => False) (fun _ => False) := by
  obtain ⟨frame, current⟩ := exists_current above
  refine Meets.ofFiber_bind ?_
  rw [current]
  refine Meets.ok_bind rfl (Meets.ok_bind (killGenerator_eq frame _) ?_)
  let shed := { machine.left with heap := machine.heap.ending frame }.count fun counters =>
    { counters with unwound := counters.unwound + 1 }
  have left : start.Within scope { machine.left with heap := machine.heap.ending frame } :=
    (within.left above).setHeap (within.sound.left.ending frame)
  have counted : Machine.Returns {} (.below scope.floor)
      { machine.left with heap := machine.heap.ending frame } shed :=
    left.sound.alike ⟨rfl, rfl, .refl _ _, id, rfl, rfl, rfl, rfl⟩
  rw [leave_eq_left low]
  refine ⟨⟨left.keeps (Nat.le_refl _) counted.keeps, fun index inside => ?_, rfl,
    Activity.dropWhile_eq_self low, rfl, fun raised remains => ?_⟩, depth_left machine⟩
  · have inside : index < machine.fiber.stack.frames.pop.size := inside
    show machine.fiber.stack.frames.pop[index]? = _
    rw [Array.getElem?_pop, if_pos (Array.size_pop ▸ inside)]
  · have gone := (remains.ending frame).leave current fun ref => remains.get?_ending
    exact gone.same rfl (Activity.dropWhile_eq_self low) (fun _ _ _ _ => rfl) rfl id

theorem meets_discardFrames (within : start.Within scope machine) {count : Nat}
    (above : scope.mark + count ≤ machine.fiber.stack.depth)
    (low : ∀ trap ∈ machine.fiber.traps, trap.frame + count < machine.fiber.stack.depth) :
    (discardFrames count).Meets machine
      (fun _ next => start.Sheds scope machine next ∧
        next.fiber.stack.depth = machine.fiber.stack.depth - count)
      (fun _ _ => False) (fun _ => False) := by
  induction count generalizing machine with
  | zero => exact ⟨within.sheds, rfl⟩
  | succ count ih =>
      have first := meets_discardFrame within (by omega) fun trap member => by
        have := low trap member
        omega
      refine first.bind fun _ next ⟨sheds, depth⟩ => ?_
      refine (ih sheds.within (by omega) fun trap member => ?_).mono ?_ (fun _ _ => id) fun _ => id
      · rw [sheds.traps] at member
        have := low trap member
        omega
      · rintro _ last ⟨later, further⟩
        exact ⟨sheds.trans later (by omega), by omega⟩

/-- Giving up a frame does not look at traps. -/
theorem discardFrame_dropTraps (machine : Machine) (root : Nat) :
    ∃ next, discardFrame machine = .ok () next ∧
      discardFrame (machine.mapFiber (·.dropTraps root)) =
        .ok () (next.mapFiber (·.dropTraps root)) := by
  have looks : ∀ other : Machine, discardFrame other =
      .ok () (other.fiber.stack.current?.elim other fun frame =>
        { other.mapStack (·.leave) with heap := other.heap.ending frame }.count fun counters =>
          { counters with unwound := counters.unwound + 1 }) := by
    intro other
    have found : ofFiber (·.stack.current?) other = .ok other.fiber.stack.current? other := rfl
    refine (ok_bind found).trans ?_
    cases other.fiber.stack.current? with
    | none => rfl
    | some frame => exact (ok_bind rfl).trans (ok_bind (killGenerator_eq frame _))
  have same : (machine.mapFiber (·.dropTraps root)).fiber.stack.current? =
      machine.fiber.stack.current? := rfl
  rw [looks, looks, same]
  cases machine.fiber.stack.current? with
  | none => exact ⟨machine, rfl, rfl⟩
  | some frame => exact ⟨_, rfl, rfl⟩

theorem discardFrames_dropTraps (machine : Machine) (count root : Nat) :
    (discardFrames count >>= fun _ => onFiber (·.dropTraps root)) machine =
      discardFrames count (machine.mapFiber (·.dropTraps root)) := by
  induction count generalizing machine with
  | zero => rfl
  | succ count ih =>
      obtain ⟨next, gone, also⟩ := discardFrame_dropTraps machine root
      rw [discardFrames, bind_assoc, ok_bind gone, ok_bind also]
      exact ih next

/-- The traps of the frames that are given up go as well. -/
theorem meets_unwindTo (within : start.Within scope machine) (whole : scope.mark = scope.root) :
    (unwindTo scope.root).Meets machine
      (fun _ next => start.Within scope next ∧ next.fiber.stack.depth = scope.root ∧
        next.incidents = machine.incidents ∧ ∀ raised : Incident,
          (raised.fault.isFatal = false →
            ∀ trap ∈ machine.fiber.traps, trap.frame < scope.root) →
          raised.Remains machine → raised.Remains next)
      (fun _ _ => False) (fun _ => False) := by
  have deep := within.deep
  let freed := machine.mapFiber (·.dropTraps scope.root)
  have clean : start.Within scope freed := by
    refine ⟨within.sound.dropTraps (List.dropWhile_sublist _), within.rooted, within.deep, ?_,
      within.first, within.caller, within.slots, within.room, within.waiting, within.reporting⟩
    refine within.below.trans (.setTraps ?_)
    rw [whole]
    exact Activity.dropWhile_dropWhile (Nat.le_refl _)
  have low : ∀ trap ∈ freed.fiber.traps,
      trap.frame + (machine.fiber.stack.depth - scope.root) < machine.fiber.stack.depth := by
    intro trap member
    have := Activity.lt_of_mem_dropWhile within.sound.fiber.activity.ordered member
    omega
  have gone : (discardFrames (machine.fiber.stack.depth - scope.root) >>= fun _ =>
      onFiber (·.dropTraps scope.root)).Meets machine
        (fun _ next => start.Sheds scope freed next ∧
          next.fiber.stack.depth = machine.fiber.stack.depth -
            (machine.fiber.stack.depth - scope.root))
        (fun _ _ => False) (fun _ => False) := by
    rw [Meets, discardFrames_dropTraps]
    have deep : scope.mark + (machine.fiber.stack.depth - scope.root) ≤
        freed.fiber.stack.depth := by
      show _ ≤ machine.fiber.stack.depth
      omega
    exact meets_discardFrames clean deep low
  refine Meets.ofFiber_bind (gone.mono ?_ (fun _ _ => id) fun _ => id)
  rintro _ next ⟨sheds, depth⟩
  refine ⟨sheds.within, by omega, sheds.incidents, fun raised below remains => ?_⟩
  refine sheds.remains raised (remains.setTraps fun mild => ?_)
  exact Activity.dropWhile_eq_self (below mild)

theorem exists_unwindTo (machine : Machine) (root : Nat) :
    ∃ next, unwindTo root machine = .ok () next := by
  have total : ∀ (count : Nat) (machine : Machine),
      ∃ next, discardFrames count machine = .ok () next := by
    intro count
    induction count with
    | zero => exact fun machine => ⟨machine, rfl⟩
    | succ count ih =>
        intro machine
        obtain ⟨next, gone, _⟩ := discardFrame_dropTraps machine 0
        obtain ⟨last, rest⟩ := ih next
        exact ⟨last, (ok_bind gone).trans rest⟩
  obtain ⟨next, gone⟩ := total (machine.fiber.stack.depth - root) machine
  exact ⟨_, ok_bind gone⟩

/-! ## Error handlers -/

theorem ensure_eq {size : Nat} (room : size ≤ machine.fiber.stack.maxSlots) :
    ensure size machine = .ok () (machine.mapStack (·.grow size)) := by
  have fits : machine.fiber.stack.fits size = true := decide_eq_true room
  simp [ensure, requireRoom, onStack, ofFiber, bind, EStateM.bind, fits, pure, EStateM.pure]

theorem setPlace_eq {place : Nat} (within : place < machine.fiber.stack.size) (value : Value) :
    setPlace place value machine = .ok () (machine.mapStack (·.put place value)) := by
  have admits : machine.fiber.stack.admits place = true := by
    rw [Stack.admits, decide_eq_true within, Bool.true_or]
  simp [setPlace, requireRoom, onStack, ofFiber, bind, EStateM.bind, admits, pure, EStateM.pure]

theorem setRegister_eq {base : Nat} (current : machine.fiber.base = base) {number : UInt8}
    (within : base + number.toNat < machine.fiber.stack.size) (value : Value) :
    setRegister number value machine =
      .ok () (machine.mapStack (·.put (base + number.toNat) value)) := by
  subst current
  exact setPlace_eq within value

end Exec

/-- Registers and frames after the current frame has gone on at the handler of a trap. -/
def Stack.resumed (stack : Stack) (trap : Trap) (frame : Frame) (error : Value) : Stack :=
  (((stack.truncate trap.stackTop).modifyFrame ({ · with ip := trap.ip })).grow frame.top).put
    (frame.base + trap.target.toNat) error

theorem Stack.frames_resumed (stack : Stack) (trap : Trap) (frame : Frame) (error : Value) :
    (stack.resumed trap frame error).frames =
      stack.frames.modify (stack.depth - 1) ({ · with ip := trap.ip }) := by
  rw [resumed, Stack.frames_put, Stack.frames_grow]
  rfl

theorem Stack.get_resumed (stack : Stack) {trap : Trap} {place : Nat} (low : place < trap.stackTop)
    (frame : Frame) (error : Value) :
    (stack.resumed trap frame error).get place =
      if frame.base + trap.target.toNat = place then error else stack.get place := by
  rw [resumed, Stack.get_put, Stack.get_grow]
  exact congrArg (ite _ error) (Stack.get_truncate _ low)

namespace Machine

variable {scope : Scope} {start machine : Machine} {frame : Frame}

/-- The frame with the trap goes on. -/
theorem Within.resumed (within : start.Within scope machine)
    (above : scope.mark < machine.fiber.stack.depth)
    (current : machine.fiber.stack.current? = some frame) {trap : Trap}
    (guards : trap.Guards frame) (error : Value) :
    start.Within scope (machine.mapStack (·.resumed trap frame error)) ∧
      frame.top ≤ (machine.fiber.stack.resumed trap frame error).size := by
  have place := getElem?_of_current current
  have sound := within.sound.fiber.activity.frames frame (Array.mem_of_getElem? place)
  have floor : scope.floor ≤ frame.base := within.floor_le (Nat.le_sub_one_of_lt above) place
  have kept : scope.floor ≤ trap.stackTop :=
    Nat.le_trans floor (Nat.le_trans (Nat.le_add_right _ _) guards.window)
  have register : frame.base + trap.target.toNat < frame.top :=
    Nat.add_lt_add_left guards.target _
  let moved := (machine.mapStack (·.truncate trap.stackTop)).mapStack
    (·.modifyFrame ({ · with ip := trap.ip }))
  have movedWithin : start.Within scope moved :=
    (within.truncate kept).goTo above current (Nat.le_of_lt guards.ip)
  let grown := moved.mapStack (·.grow frame.top)
  have grows : moved.Keeps (.below scope.floor) grown :=
    Exec.Direct.keeps (.ensure frame.top) movedWithin.sound movedWithin.room
      (Exec.ensure_eq sound.room)
  have size : frame.top ≤ grown.fiber.stack.size := by
    show frame.top ≤ (moved.fiber.stack.grow frame.top).size
    rw [Stack.size_grow]
    exact Nat.le_max_right _ _
  have fills : grown.Keeps (.below scope.floor) (machine.mapStack (·.resumed trap frame error)) :=
    Exec.Direct.keeps (.setPlace (Nat.le_add_right_of_le floor) error) grows.sound
      (Nat.le_trans movedWithin.room grows.slots.1)
      (Exec.setPlace_eq (Nat.lt_of_lt_of_le register size) error)
  exact ⟨movedWithin.keeps (Nat.le_refl _) (grows.trans fills), Nat.le_trans size fills.slots.1⟩

end Machine

namespace Exec

open Machine

variable {manners : Manners} {scope : Scope} {start machine : Machine} {frame : Frame}
  {fault : Fault}

theorem meets_resume (current : machine.fiber.stack.current? = some frame)
    (room : frame.top ≤ machine.fiber.stack.maxSlots) {trap : Trap} (guards : trap.Guards frame)
    (fault : Fault) :
    (do
      truncate trap.stackTop
      let frame ← Exec.frame
      goTo trap.ip
      ensure frame.top
      setRegister trap.target fault.toValue
      Exec.count fun counters => { counters with caught := counters.caught + 1 }
      note (.caught trap) fault : Exec Unit).Meets machine
      (fun _ next => next = ((machine.mapStack (·.resumed trap frame fault.toValue)).count
        fun counters => { counters with caught := counters.caught + 1 }).note (.caught trap) fault)
      (fun _ _ => False) (fun _ => False) := by
  refine Meets.ok_bind rfl (Meets.frame_bind current (Meets.ok_bind rfl ?_))
  refine Meets.ok_bind (ensure_eq room) ?_
  have kept : (machine.mapStack (·.truncate trap.stackTop)).fiber.stack.current? = some frame :=
    current
  have moved := current_goTo kept trap.ip
  let grown := ((machine.mapStack (·.truncate trap.stackTop)).mapStack
    (·.modifyFrame ({ · with ip := trap.ip }))).mapStack (·.grow frame.top)
  have base : grown.fiber.base = frame.base := by
    rw [Fiber.base, Stack.current?]
    show ((Stack.frames (Stack.grow _ frame.top)).back?.map Frame.base).getD 0 = frame.base
    rw [Stack.frames_grow]
    exact congrArg (fun current => (Option.map Frame.base current).getD 0) moved
  have inside : frame.base + trap.target.toNat < grown.fiber.stack.size := by
    show _ < (Stack.grow _ frame.top).size
    rw [Stack.size_grow]
    exact Nat.lt_of_lt_of_le (Nat.add_lt_add_left guards.target _) (Nat.le_max_right _ _)
  exact Meets.ok_bind (setRegister_eq base inside _) (Meets.ok_bind rfl rfl)

theorem meets_enterTrap (within : start.Within scope machine) {trap : Trap}
    (above : scope.mark ≤ trap.frame)
    (found : machine.fiber.stack.frames[trap.frame]? = some frame) (guards : trap.Guards frame)
    (low : ∀ other ∈ machine.fiber.traps, other.frame ≤ trap.frame) (fault : Fault) :
    (enterTrap trap fault).Meets machine
      (fun _ next => start.Within scope next ∧ machine.Catches trap fault next)
      (fun _ _ => False) (fun _ => False) := by
  have inside : trap.frame < machine.fiber.stack.depth := (Array.getElem?_eq_some_iff.mp found).1
  refine Meets.ofFiber_bind ?_
  refine (meets_discardFrames within (by omega) fun other member => ?_).bind ?_
  · have := low other member
    omega
  rintro _ shed ⟨sheds, depth⟩
  have depth : shed.fiber.stack.depth = trap.frame + 1 := by omega
  have place : shed.fiber.stack.frames[trap.frame]? = some frame := by
    rw [sheds.frames trap.frame (by omega)]
    exact found
  have current : shed.fiber.stack.current? = some frame := by
    rw [Stack.current?, Array.back?_eq_getElem?]
    rw [Stack.depth] at depth
    rw [depth]
    exact place
  have sound := sheds.within.sound.fiber.activity.frames frame (Array.mem_of_getElem? place)
  refine (meets_resume current sound.room guards fault).mono ?_ (fun _ _ => id) fun _ => id
  rintro _ _ rfl
  obtain ⟨resumed, size⟩ := sheds.within.resumed (by omega) current guards fault.toValue
  let counted := (shed.mapStack (·.resumed trap frame fault.toValue)).count fun counters =>
    { counters with caught := counters.caught + 1 }
  have counts : Machine.Returns {} (.below scope.floor) _ counted :=
    resumed.sound.alike ⟨rfl, rfl, .refl _ _, id, rfl, rfl, rfl, rfl⟩
  have notes : counted.Keeps (.below scope.floor) (counted.note (.caught trap) fault) :=
    counts.keeps.sound.note fun raises => absurd raises (by simp [incident, Occurrence.raises])
  have frames : counted.fiber.stack.frames =
      shed.fiber.stack.frames.modify trap.frame ({ · with ip := trap.ip }) := by
    have frames := shed.fiber.stack.frames_resumed trap frame fault.toValue
    rw [depth] at frames
    exact frames
  have last : counted.fiber.stack.frames[trap.frame]? = some { frame with ip := trap.ip } := by
    rw [frames, Array.getElem?_modify, if_pos rfl, place]
    rfl
  have countedDepth : counted.fiber.stack.frames.size = trap.frame + 1 := by
    rw [frames, Array.size_modify]
    exact depth
  refine ⟨resumed.keeps (Nat.le_refl _) (counts.keeps.trans notes), countedDepth, ?_,
    counted.incident (.caught trap) fault, congrArg _ sheds.incidents, rfl, rfl, rfl, ?_⟩
  · intro other there
    have there : counted.fiber.stack.frames.back? = some other := there
    rw [Array.back?_eq_getElem?, countedDepth] at there
    obtain rfl := Option.some.inj (last.symm.trans there)
    exact size
  · intro raised same traps remains
    have remains := sheds.remains _ remains
    have owner : raised.fiber.stack.frames[trap.frame]? = some frame := by
      rw [← place]
      exact (remains.frames trap.frame (by omega)).symm
    have register : frame.base + trap.target.toNat < trap.stackTop :=
      Nat.lt_of_lt_of_le (Nat.add_lt_add_left guards.target _) guards.window
    refine ⟨?_, same.symm, countedDepth, fun index low => ?_, ⟨frame, owner, last, ?_, ?_⟩, ?_⟩
    · rw [traps]
      exact congrArg (trap :: ·) sheds.traps.symm
    · show counted.fiber.stack.frames[index]? = _
      rw [frames, Array.getElem?_modify, if_neg (Nat.ne_of_gt low)]
      exact remains.frames index (by omega)
    · rw [same]
      exact (shed.fiber.stack.get_resumed register frame _).trans (if_pos rfl)
    · intro placed low differ
      have kept : placed < trap.stackTop :=
        Nat.lt_of_lt_of_le low (Nat.le_trans (Stack.reach_succ_le_top owner) guards.window)
      calc counted.fiber.stack.get placed = shed.fiber.stack.get placed :=
            (shed.fiber.stack.get_resumed kept frame _).trans (if_neg (Ne.symm differ))
        _ = raised.fiber.stack.get placed := remains.registers placed (depth.symm ▸ low)
    · intro index other ref high there runs
      exact remains.ended index other ref (by omega) there runs

/-! ## Recovery -/

/-- The fault has not been caught, and no frame of the run loop is left. -/
theorem meets_giveUp (failing : start.Failing manners scope fault machine)
    (uncaught : fault.isFatal = false → ∀ trap ∈ machine.fiber.traps, trap.frame < scope.root) :
    (unwindTo scope.root >>= fun _ => passOn fault : Exec Unit).Meets machine (fun _ _ => False)
      (fun other next => scope.mark = scope.root → other = fault ∧
        start.Failing manners scope fault next ∧ next.fiber.stack.depth = scope.root)
      (fun _ => False) := by
  by_cases whole : scope.mark = scope.root
  · refine (meets_unwindTo failing.toWithin whole).mono (fun _ _ => id) (fun _ _ => False.elim)
      (fun _ => id) |>.bind ?_
    rintro _ next ⟨within, depth, incidents, remains⟩ _
    refine ⟨rfl, ⟨within, fun honest => ?_⟩, depth⟩
    obtain ⟨raised, logs, rfl, remained, latest⟩ := failing.pends honest
    exact ⟨raised, logs.same incidents, rfl, remains raised uncaught remained, incidents ▸ latest⟩
  · obtain ⟨next, gone⟩ := exists_unwindTo machine scope.root
    exact Meets.ok_bind gone fun same => absurd same whole

/-- The innermost trap catches the fault. -/
theorem meets_catch (failing : start.Failing manners scope fault machine)
    (calm : start.fiber.activity.Calm manners) {trap : Trap} {rest : List Trap}
    (listed : machine.fiber.traps = trap :: rest) (low : ∀ other ∈ rest, other.frame ≤ trap.frame)
    (own : scope.root ≤ trap.frame) (mild : fault.isFatal = false) :
    (enterTrap trap fault).Meets (machine.mapFiber fun fiber => { fiber with traps := rest })
      (fun _ next => scope.root < next.fiber.stack.depth ∧
        (scope.mark < next.fiber.stack.depth → start.Running manners scope next))
      (fun _ _ => False) (fun _ => False) := by
  let freed := machine.mapFiber fun fiber => { fiber with traps := rest }
  have sound := failing.sound.fiber.activity
  have here : machine.fiber.activity.traps = trap :: rest := listed
  have freedSound : freed.Sound :=
    failing.sound.dropTraps (listed ▸ List.sublist_cons_self trap rest)
  obtain ⟨frame, found, guards⟩ := sound.owned trap (here ▸ List.mem_cons_self)
  by_cases above : scope.mark ≤ trap.frame
  · have within : start.Within scope freed := by
      refine ⟨freedSound, failing.rooted, failing.deep, failing.below.trans (.setTraps ?_),
        failing.first, failing.caller, failing.slots, failing.room, failing.waiting,
        failing.reporting⟩
      rw [here, List.dropWhile_cons, if_pos (decide_eq_true above)]
      rfl
    refine (meets_enterTrap within above found guards low fault).mono ?_ (fun _ _ => id) fun _ => id
    rintro _ next ⟨within, catches⟩
    refine ⟨catches.depth ▸ Nat.lt_succ_of_le own, fun deep => ?_⟩
    refine ⟨within, deep, catches.shaped, fun honest => ?_, ?_⟩
    · obtain ⟨raised, logs, rfl, remains, latest⟩ := failing.pends honest
      obtain ⟨added, joined, orderly⟩ := logs honest
      obtain ⟨caught, noted, occurrence, level, reporting, resumes⟩ := catches.caught
      have remains' : Incident.Remains
          { raised with fiber := { raised.fiber with traps := rest } } freed :=
        ⟨remains.stacked, remains.frames, fun _ => rfl, remains.registers, remains.generators,
          remains.ended, remains.suspended⟩
      refine ⟨caught :: added, ?_,
        orderly.caught (orderly.head?_append (joined ▸ latest)) occurrence
        (resumes raised rfl ?_ remains') (within.waiting ▸ level) (within.reporting ▸ reporting)⟩
      · rw [noted, List.cons_append, ← joined]
        rfl
      · rw [← remains.traps mild]
        exact listed
    · intro wakes
      rw [within.below.state]
      exact calm wakes
  · have within := freedSound.within failing.rooted own found
    refine (meets_enterTrap within (Nat.le_refl _) found guards low fault).mono ?_ (fun _ _ => id)
      fun _ => id
    rintro _ next ⟨_, catches⟩
    refine ⟨catches.depth ▸ Nat.lt_succ_of_le own, fun deep => ?_⟩
    rw [catches.depth] at deep
    omega

theorem meets_recover (failing : start.Failing manners scope fault machine)
    (calm : start.fiber.activity.Calm manners) :
    (recover fault scope.root).Meets machine
      (fun _ next => scope.root < next.fiber.stack.depth ∧
        (scope.mark < next.fiber.stack.depth → start.Running manners scope next))
      (fun other next => scope.mark = scope.root → other = fault ∧
        start.Failing manners scope fault next ∧ next.fiber.stack.depth = scope.root)
      (fun _ => False) := by
  have sound := failing.sound.fiber.activity
  refine Meets.ofFiber_bind ?_
  cases listed : machine.fiber.traps with
  | nil =>
      refine (meets_giveUp failing fun _ trap member => ?_).mono (fun _ _ => False.elim)
        (fun _ _ => id) fun _ => id
      rw [listed] at member
      exact absurd member (by simp)
  | cons trap rest =>
      have ordered := sound.ordered
      have here : machine.fiber.activity.traps = trap :: rest := listed
      rw [here] at ordered
      have innermost := (List.pairwise_cons.mp ordered).1
      dsimp only
      split
      · rename_i caught
        have mild : fault.isFatal = false := by simpa using caught.2
        exact Meets.onFiber_bind ((meets_catch failing calm listed innermost caught.1 mild).mono
          (fun _ _ => id) (fun _ _ => False.elim) fun _ => id)
      · rename_i uncaught
        refine (meets_giveUp failing fun mild other member => ?_).mono (fun _ _ => False.elim)
          (fun _ _ => id) fun _ => id
        have low : trap.frame < scope.root := by
          simpa [mild] using uncaught
        rw [listed] at member
        rcases List.mem_cons.mp member with rfl | member
        · exact low
        · exact Nat.lt_of_le_of_lt (innermost other member) low

end Exec

end ScriptMachine
