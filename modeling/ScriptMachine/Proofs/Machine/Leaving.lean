import ScriptMachine.Proofs.Machine.Calls
import ScriptMachine.Proofs.Machine.Operands

/-!
# Leaving frames

A frame is left by returning, by yielding, or for a call in its place.  Its result goes to the frame
below it, unless it ends the run loop.
-/

namespace ScriptMachine

/-- The objects after a frame has been left for good: its generator has ended. -/
def Heap.ending (heap : Heap) (frame : Frame) : Heap :=
  match frame.generator with
  | some ref => heap.modify ref Generator.killed
  | none => heap

theorem Exec.killGenerator_eq (frame : Frame) (machine : Machine) :
    killGenerator frame machine = .ok () { machine with heap := machine.heap.ending frame } := by
  rw [killGenerator, Heap.ending]
  cases frame.generator with
  | none => rfl
  | some ref => rfl

namespace Machine

variable {manners : Manners} {scope : Scope} {start machine next : Machine} {frame : Frame}

/-- What an instruction leads to in a run loop: another instruction, the end of the run loop, or a
suspension.  The frames looked at may have returned to a caller in the same run loop. -/
def Flows (manners : Manners) (scope : Scope) (start : Machine) : Flow → Machine → Prop
  | .proceed, next => start.Running manners scope next ∨ start.Landed scope next
  | .finish _, next => start.Within scope next ∧ next.fiber.stack.depth = scope.root ∧
      start.Logs manners none next
  | .suspend _, next => start.Halted manners scope 1 next

/-- The machine without its current frame and the traps of that frame. -/
def left (machine : Machine) : Machine := machine.mapFiber fun fiber =>
  { fiber with
    stack := fiber.stack.leave
    traps := fiber.traps.dropWhile fun trap => fiber.stack.depth - 1 ≤ trap.frame }

theorem depth_left (machine : Machine) :
    machine.left.fiber.stack.depth = machine.fiber.stack.depth - 1 := Array.size_pop

theorem Sound.left (sound : machine.Sound) : machine.left.Sound :=
  ⟨sound.heap, ⟨sound.fiber.activity.pop, sound.fiber.room⟩, sound.waiting, sound.routines,
    sound.incidents⟩

theorem Sound.ending (sound : machine.Sound) (frame : Frame) :
    { machine with heap := machine.heap.ending frame }.Sound := by
  rw [Heap.ending]
  cases frame.generator with
  | none => exact sound
  | some ref => exact sound.changeGenerator ref (fun _ => rfl) (fun _ => rfl) fun _ => rfl

/-- The generator of a frame that has been left keeps its activation. -/
theorem Sound.leftGenerator (sound : machine.Sound) {ref : Ref .generator} {routine : Routine}
    (runs : machine.heap.Runs ref routine) {window : Array Value} {ip : Nat}
    {saved : List SavedTrap} (within : ip ≤ routine.code.size)
    (owned : ∀ trap ∈ saved, trap.ip < routine.code.size ∧
      trap.target.toNat < routine.stackSize ∧ routine.stackSize ≤ trap.offset) :
    { machine with
      heap := machine.heap.modify ref fun (own : Generator) =>
        own.left window ip saved }.Sound := by
  refine sound.setHeap (machine.heap.follows_modify_generator ref _ fun _ => rfl) ?_
  refine sound.heap.fits_modify fun generator found => ?_
  obtain ⟨closure, held, rfl⟩ := runs.2 generator found
  exact ⟨closure, held, within, owned⟩

theorem Within.left (within : start.Within scope machine)
    (above : scope.mark < machine.fiber.stack.depth) : start.Within scope machine.left := by
  have above : scope.mark < machine.fiber.stack.frames.size := above
  refine ⟨within.sound.left, within.rooted.pop _, ?_, within.below.trans (.pop above), ?_, ?_,
    within.slots, within.room, within.waiting, within.reporting⟩
  · show scope.mark ≤ machine.left.fiber.stack.depth
    rw [depth_left, Stack.depth]
    omega
  · intro other found
    have found : machine.fiber.stack.frames.pop[scope.mark]? = some other := found
    rw [Array.getElem?_pop] at found
    split at found
    · exact within.first other found
    · exact absurd found (by simp)
  · intro inner other found
    have found : machine.fiber.stack.frames.pop[scope.mark - 1]? = some other := found
    rw [Array.getElem?_pop] at found
    split at found
    · exact within.caller inner other found
    · exact absurd found (by simp)

/-- The current frame can be told from the others by its place. -/
theorem Inside.isRoot (inside : start.Inside manners scope frame machine) :
    frame.isRoot = true ↔ machine.left.fiber.stack.depth = scope.root := by
  have above := inside.above
  have le := scope.le
  rw [depth_left]
  exact inside.rooted _ frame (by omega) (getElem?_of_current inside.current)

theorem Inside.target (inside : start.Inside manners scope frame machine)
    (depth : machine.left.fiber.stack.depth = scope.mark) : frame.target = scope.target := by
  rw [depth_left] at depth
  have place := getElem?_of_current inside.current
  rw [depth] at place
  exact (inside.first frame place).2.1

theorem Inside.continues (inside : start.Inside manners scope frame machine)
    (depth : machine.left.fiber.stack.depth = scope.mark) :
    ∀ former ∈ scope.former, former.Continues frame := by
  rw [depth_left] at depth
  have place := getElem?_of_current inside.current
  rw [depth] at place
  exact (inside.first frame place).2.2

theorem Within.setHeap (within : start.Within scope machine) {heap : Heap}
    (sound : Sound { machine with heap }) : start.Within scope { machine with heap } :=
  ⟨sound, within.rooted, within.deep, within.below, within.first, within.caller, within.slots,
    within.room, within.waiting, within.reporting⟩

/-- The window of the frame below starts at the same place or before. -/
theorem Inside.under (inside : start.Inside manners scope frame machine) :
    machine.left.fiber.activity.Under frame.base := by
  intro caller found
  have found : machine.fiber.stack.frames.pop.back? = some caller := found
  rw [Array.back?_eq_getElem?, Array.getElem?_pop] at found
  split at found
  · have place := getElem?_of_current inside.current
    refine inside.sound.fiber.activity.stacked _ _ caller frame ?_ found place
    rw [Array.size_pop, Stack.depth]
    omega
  · exact absurd found (by simp)

/-- The window of the current frame is all that is in use. -/
theorem Sound.resize (sound : machine.Sound) {size : Nat}
    (room : size ≤ machine.fiber.stack.maxSlots) :
    (machine.mapStack fun stack => (stack.truncate size).grow size).Sound := by
  refine ⟨sound.heap, ⟨?_, ?_⟩, sound.waiting, sound.routines, sound.incidents⟩
  · have same : (machine.mapStack fun stack =>
        (stack.truncate size).grow size).fiber.activity = machine.fiber.activity := by
      simp [mapStack, Fiber.activity, Stack.truncate]
    rw [same]
    exact sound.fiber.activity
  · show ((machine.fiber.stack.truncate size).grow size).size ≤
      ((machine.fiber.stack.truncate size).grow size).maxSlots
    rw [Stack.size_truncate_grow, Stack.maxSlots_grow]
    exact room

end Machine

namespace Exec

open Machine

variable {manners : Manners} {scope : Scope} {start machine : Machine} {frame : Frame}

theorem Meets.frame_bind {α : Type} {following : Frame → Exec α} {done : α → Machine → Prop}
    {failed : Fault → Machine → Prop} {cut : Machine → Prop}
    (found : machine.fiber.stack.current? = some frame)
    (meets : (following frame).Meets machine done failed cut) :
    (Exec.frame >>= following).Meets machine done failed cut := by
  rw [Meets, Exec.frame_bind found]
  exact meets

theorem resize_eq {size : Nat} (room : size ≤ machine.fiber.stack.maxSlots) :
    resize size machine =
      .ok () (machine.mapStack fun stack => (stack.truncate size).grow size) := by
  have fits : (machine.fiber.stack.truncate size).fits size = true := by
    simpa [Stack.fits, Stack.truncate] using room
  simp [resize, truncate, ensure, requireRoom, onStack, ofFiber, mapStack, bind, EStateM.bind, fits,
    pure, EStateM.pure]

theorem meets_setPlace (place : Nat) (value : Value) :
    (setPlace place value).Meets machine
      (fun _ next => next = machine.mapStack (·.put place value))
      (fun fault next => fault.isPlain = true ∧ next = machine.record fault) (fun _ => False) := by
  cases fit : machine.fiber.stack.admits place with
  | false =>
      have result : setPlace place value machine =
          .error (.raised .stackOverflow) (machine.record .stackOverflow) := by
        simp [setPlace, requireRoom, ofFiber, bind, EStateM.bind, fit, raise]
      rw [Meets, result]
      exact ⟨rfl, rfl⟩
  | true =>
      have result :
          setPlace place value machine = .ok () (machine.mapStack (·.put place value)) := by
        simp [setPlace, requireRoom, ofFiber, bind, EStateM.bind, fit, pure, EStateM.pure, onStack]
      rw [Meets, result]

/-- The frames looked at return to their caller. -/
theorem meets_deliver_of_landing (within : start.Within scope machine)
    (logs : start.Logs manners none machine) (inner : scope.root < scope.mark)
    (depth : machine.fiber.stack.depth = scope.mark) {caller : Frame}
    (current : machine.fiber.stack.current? = some caller) (value : Value) :
    (deliver scope.target value).Meets machine (fun _ => start.Landed scope)
      (start.Failing manners scope) (start.Reaches manners) := by
  cases target : scope.target with
  | none =>
      exact ⟨inner, depth, within.below, fun _ _ place low _ => within.slots place low⟩
  | some number =>
      refine Meets.ofFiber_bind ((meets_setPlace _ value).mono ?_ ?_ fun _ => False.elim)
      · rintro _ _ rfl
        have base : machine.fiber.base = caller.base := by
          rw [Fiber.base, current]
          rfl
        rw [base]
        have frames : (machine.fiber.stack.put (caller.base + number.toNat) value).frames =
            machine.fiber.stack.frames := Stack.frames_put ..
        have activity : (machine.mapStack
            (·.put (caller.base + number.toNat) value)).fiber.activity =
              machine.fiber.activity := by
          simp [mapStack, Fiber.activity]
        refine ⟨inner, ?_, activity ▸ within.below, fun other found place low differ => ?_⟩
        · show (machine.fiber.stack.put (caller.base + number.toNat) value).depth = _
          rw [Stack.depth, frames]
          exact depth
        · have found : (machine.fiber.stack.put (caller.base + number.toNat) value).frames.back? =
              some other := found
          rw [frames] at found
          obtain rfl := Option.some.inj (current.symm.trans found)
          refine (Stack.slot_put _ value (Nat.lt_of_lt_of_le low within.room) ?_).trans
            (within.slots place low)
          exact (differ number target).symm
      · rintro fault _ ⟨plain, rfl⟩
        have fails : machine.Fails manners (.below scope.floor) fault (machine.record fault) :=
          within.sound.fails (machine.allowed_incident plain .raised)
        exact ⟨within.keeps (Nat.le_refl _) fails.keeps,
          fails.pends.trans logs within.waiting within.reporting⟩

theorem meets_leaveFrame {landing : Machine}
    (dropped : machine.mapFiber (·.dropTraps machine.fiber.stack.depth) = landing)
    (within : start.Within scope landing) (logs : start.Logs manners none landing)
    (calm : landing.fiber.activity.Calm manners)
    (isRoot : frame.isRoot = true ↔ landing.fiber.stack.depth = scope.root)
    (target : landing.fiber.stack.depth = scope.mark → frame.target = scope.target)
    (value : Value) :
    (leaveFrame frame value).Meets machine (start.Flows manners scope)
      (start.Failing manners scope) (start.Reaches manners) := by
  refine Meets.ofFiber_bind (Meets.onFiber_bind ?_)
  rw [dropped]
  split
  · rename_i last
    exact ⟨within, isRoot.mp last, logs⟩
  · rename_i inner
    have deep := within.deep
    have le := scope.le
    have above : scope.root < landing.fiber.stack.depth := by
      have := mt isRoot.mpr inner
      omega
    obtain ⟨caller, current⟩ := exists_current above
    have place := getElem?_of_current current
    have sound := within.sound.fiber.activity.frames caller (Array.mem_of_getElem? place)
    have low : scope.floor ≤ caller.top := by
      rcases Nat.eq_or_lt_of_le deep with landed | higher
      · rw [← landed] at place
        exact within.caller (landed ▸ above) caller place
      · exact Nat.le_trans (within.floor_le (Nat.le_sub_one_of_lt higher) place)
          (Nat.le_add_right _ _)
    refine Meets.frame_bind current (Meets.ok_bind (resize_eq sound.room) ?_)
    let resized := landing.mapStack fun stack => (stack.truncate caller.top).grow caller.top
    have activity : resized.fiber.activity = landing.fiber.activity := by
      simp [resized, mapStack, Fiber.activity, Stack.truncate]
    have frames : resized.fiber.stack.frames = landing.fiber.stack.frames :=
      congrArg Activity.frames activity
    have size : resized.fiber.stack.size = caller.top := Stack.size_truncate_grow _ _
    have resizedCurrent : resized.fiber.stack.current? = some caller := by
      rw [Stack.current?, frames]
      exact current
    have within : start.Within scope resized := by
      refine ⟨within.sound.resize sound.room, activity ▸ within.rooted, ?_, activity ▸ within.below,
        ?_, ?_, fun place below => ?_, size ▸ low, within.waiting, within.reporting⟩
      · rw [Stack.depth, frames]
        exact deep
      · rw [frames]
        exact within.first
      · rw [frames]
        exact within.caller
      · exact (Stack.slot_truncate_grow _ (Nat.lt_of_lt_of_le below within.room)
          (Nat.lt_of_lt_of_le below low)).trans (within.slots place below)
    rcases Nat.eq_or_lt_of_le deep with landed | higher
    · rw [target landed.symm]
      have depth : resized.fiber.stack.depth = scope.mark := by
        rw [Stack.depth, frames]
        exact landed.symm
      have inner : scope.root < scope.mark := landed ▸ above
      exact (meets_deliver_of_landing within (logs.same rfl) inner depth resizedCurrent value).bind
        fun _ _ landed => .inr landed
    · have inside : start.Inside manners scope caller resized := by
        refine ⟨⟨within, ?_, fun other found => ?_, logs.same rfl, activity ▸ calm⟩, resizedCurrent⟩
        · rw [Stack.depth, frames]
          exact higher
        · obtain rfl := Option.some.inj (resizedCurrent.symm.trans found)
          exact Nat.le_of_eq size.symm
      have delivered : Steady manners (.below caller.base) (Activity.At manners caller)
          (deliver frame.target value) :=
        .deliver (fun _ holds => ⟨caller, holds.1, Nat.le_refl _⟩) _ _
      exact (delivered.meets_inside inside).bind fun _ _ inside => .inl inside.toRunning

theorem Meets.direct_bind {α β : Type} {action : Exec α} {following : α → Exec β}
    {done : β → Machine → Prop} {place : Nat} (direct : Direct manners (.below place) action)
    (within : start.Within scope machine) (logs : start.Logs manners none machine)
    (high : scope.floor ≤ place) (fits : place ≤ machine.fiber.stack.size)
    (further : ∀ value next, machine.Returns manners (.below place) next →
      (following value).Meets next done (start.Failing manners scope) (start.Reaches manners)) :
    (action >>= following).Meets machine done (start.Failing manners scope)
      (start.Reaches manners) := by
  refine ((direct machine within.sound fits).mono (fun _ _ => id) (fun fault next fails => ?_)
    fun _ => False.elim).bind fun value next ⟨returns, _⟩ => further value next returns
  exact ⟨within.keeps high fails.keeps, fails.pends.trans logs within.waiting within.reporting⟩

theorem popFrame_eq (current : machine.fiber.stack.current? = some frame) :
    popFrame machine = .ok frame (machine.mapStack (·.leave)) := by
  rw [popFrame, Exec.frame_bind current]
  rfl

theorem meets_returnValue (inside : start.Inside manners scope frame machine) (value : Value) :
    (returnValue value).Meets machine (start.Flows manners scope) (start.Failing manners scope)
      (start.Reaches manners) := by
  refine Meets.ok_bind (popFrame_eq inside.current) ?_
  refine Meets.ok_bind (killGenerator_eq frame _) ?_
  have within := (inside.toWithin.left inside.above).setHeap (inside.sound.left.ending frame)
  refine meets_leaveFrame ?_ within (inside.logs.same rfl) inside.calm inside.isRoot inside.target
    value
  simp [mapFiber, mapStack, left, Fiber.dropTraps, Stack.leave, Stack.depth]

/-- The activation of a generator moves from its frame into the generator. -/
theorem meets_yieldValue (inside : start.Inside manners scope frame machine) (value : Value) :
    (yieldValue value).Meets machine (start.Flows manners scope) (start.Failing manners scope)
      (start.Reaches manners) := by
  have place := getElem?_of_current inside.current
  have activity := inside.sound.fiber.activity
  have sound := activity.frames frame (Array.mem_of_getElem? place)
  refine Meets.frame_bind inside.current ?_
  cases ofGenerator : frame.generator with
  | none => exact inside.raises (machine.allowed_incident rfl .raised)
  | some ref =>
      refine Meets.ofFiber_bind (Meets.ok_bind (popFrame_eq inside.current) ?_)
      refine Meets.ofFiber_bind (Meets.onFiber_bind (Meets.ok_bind rfl (Meets.ok_bind rfl ?_)))
      let cleared := machine.left.mapStack (·.clearRange frame.base frame.top)
      have clears : machine.left.Returns manners (.below frame.base) cleared :=
        ((Direct.clearRange (Nat.le_refl _) frame.top) machine.left inside.sound.left
          inside.fits).1
      let saved := (machine.fiber.traps.takeWhile fun trap =>
        trap.frame == machine.fiber.stack.depth - 1).map fun trap =>
          ({ ip := trap.ip, offset := trap.stackTop - frame.base
             target := trap.target } : SavedTrap)
      have owned : ∀ trap ∈ saved, trap.ip < frame.closure.routine.code.size ∧
            trap.target.toNat < frame.closure.routine.stackSize ∧
            frame.closure.routine.stackSize ≤ trap.offset := by
        intro trap member
        obtain ⟨former, listed, rfl⟩ := List.mem_map.mp member
        obtain ⟨owner, there, guards⟩ :=
          activity.owned former ((List.takeWhile_sublist _).subset listed)
        have last : former.frame = machine.fiber.stack.depth - 1 := by
          simpa using List.all_eq_true.mp List.all_takeWhile former listed
        rw [last] at there
        obtain rfl := Option.some.inj (place.symm.trans there)
        have window := guards.window
        rw [Frame.top] at window
        exact ⟨guards.ip, guards.target, by dsimp only; omega⟩
      have runs : cleared.heap.Runs ref frame.closure.routine := sound.generator ref ofGenerator
      let window := machine.left.fiber.stack.range frame.base frame.top
      let heap := cleared.heap.modify ref fun (own : Generator) => own.left window frame.ip saved
      have kept : Sound { cleared with heap } :=
        clears.keeps.sound.leftGenerator runs sound.ip owned
      have within : start.Within scope cleared :=
        (inside.toWithin.left inside.above).keeps inside.floor_le clears.keeps
      refine meets_leaveFrame ?_ (within.setHeap kept) (inside.logs.same rfl) inside.calm
        inside.isRoot inside.target value
      have dropped : ((machine.fiber.traps.dropWhile fun trap =>
            trap.frame == machine.fiber.stack.depth - 1).dropWhile fun trap =>
              machine.left.fiber.stack.depth ≤ trap.frame) =
          machine.fiber.traps.dropWhile fun trap => machine.fiber.stack.depth - 1 ≤ trap.frame := by
        have last := Activity.dropWhile_last fun trap => activity.lt_size
        rw [depth_left]
        exact (congrArg _ last).trans (Activity.dropWhile_dropWhile (Nat.le_refl _))
      exact congrArg (fun traps : List Trap =>
        { cleared with heap, fiber := { cleared.fiber with traps } }) dropped

/-- A frame without traps is left with all traps. -/
theorem leave_eq_left
    (low : ∀ trap ∈ machine.fiber.traps, trap.frame < machine.fiber.stack.depth - 1) :
    machine.mapStack (·.leave) = machine.left :=
  congrArg (fun traps => machine.mapFiber fun fiber =>
    { fiber with stack := fiber.stack.leave, traps }) (Activity.dropWhile_eq_self low).symm

/-- If the innermost trap does not belong to the current frame, no trap does. -/
theorem lt_of_innermost (sound : machine.Sound)
    (free : (machine.fiber.traps.head?.any fun trap =>
      trap.frame == machine.fiber.stack.depth - 1) = false) :
    ∀ trap ∈ machine.fiber.traps, trap.frame < machine.fiber.stack.depth - 1 := by
  have activity := sound.fiber.activity
  intro trap member
  have ordered := activity.ordered
  cases listed : machine.fiber.traps with
  | nil =>
      rw [listed] at member
      exact absurd member (by simp)
  | cons innermost rest =>
      have listed : machine.fiber.activity.traps = innermost :: rest := listed
      have within : innermost.frame < machine.fiber.stack.depth :=
        activity.lt_size (listed ▸ List.mem_cons_self)
      have other : innermost.frame ≠ machine.fiber.stack.depth - 1 := by
        have listed : machine.fiber.traps = innermost :: rest := listed
        simpa [listed] using free
      have le : trap.frame ≤ innermost.frame := by
        have member : trap ∈ machine.fiber.activity.traps := member
        rw [listed] at ordered member
        rcases List.mem_cons.mp member with rfl | member
        · exact Nat.le_refl _
        · exact (List.pairwise_cons.mp ordered).1 trap member
      omega

/-- The callee of a call in the place of a frame takes over its window, target and role. -/
theorem meets_replaceFrame (inside : start.Inside manners scope frame machine)
    (plain : frame.generator = none)
    (free : (machine.fiber.traps.head?.any fun trap =>
      trap.frame == machine.fiber.stack.depth - 1) = false)
    (ref : Ref .closure) (instruction : Instruction) :
    (replaceFrame .direct ref instruction).Meets machine (start.Flows manners scope)
      (start.Failing manners scope) (start.Reaches manners) := by
  have within := inside.toWithin.left inside.above
  have base : machine.fiber.base = frame.base := by
    rw [Fiber.base, inside.current]
    rfl
  have logs : start.Logs manners none machine.left := inside.logs.same rfl
  refine Meets.ok_bind rfl ?_
  dsimp only
  rw [base]
  refine Meets.ok_bind (popFrame_eq inside.current) ?_
  rw [leave_eq_left (lt_of_innermost inside.sound free)]
  have high := inside.floor_le
  -- The arguments move to the start of the window.
  refine .direct_bind (.takeRange (Nat.le_add_right _ _) _) within logs high inside.fits
    fun arguments taken returns => ?_
  have step : ∀ {next}, machine.left.Returns manners (.below frame.base) next →
      start.Within scope next ∧ start.Logs manners none next ∧
        frame.base ≤ next.fiber.stack.size := fun returns =>
    ⟨within.keeps high returns.keeps, logs.trans within.waiting within.reporting returns.logs,
      Nat.le_trans inside.fits returns.keeps.slots.1⟩
  obtain ⟨ready, noted, fits⟩ := step returns
  refine .direct_bind (.clearRange (Nat.le_refl _) _) ready noted high fits
    fun _ cleared later => ?_
  have returns := returns.trans later
  obtain ⟨ready, noted, fits⟩ := step returns
  refine .direct_bind (.forM fun _ => .setPlace (Nat.le_add_right _ _) _) ready noted high fits
    fun _ moved later => ?_
  have returns := returns.trans later
  obtain ⟨ready, noted, fits⟩ := step returns
  -- The callee takes the place of the frame.
  have under : moved.fiber.activity.Under frame.base := returns.keeps.activity ▸ inside.under
  refine ((meets_enterClosure manners ready.sound fits under ref _ _ _).mono (fun _ _ => id)
    (fun _ _ fails => ?_) fun _ => False.elim).bind ?_
  · exact ⟨ready.keeps high fails.keeps, fails.pends.trans noted ready.waiting ready.reporting⟩
  · rintro _ next ⟨callee, window, target, isRoot, runs, enters⟩
    have continues : frame.Continues callee :=
      ⟨window, runs.trans plain.symm, fun generates => absurd plain generates⟩
    have depth : moved.fiber.stack.depth = machine.left.fiber.stack.depth :=
      congrArg (fun activity => activity.frames.size) returns.keeps.activity
    refine .inl (ready.enters noted (returns.keeps.activity ▸ inside.calm) ?_ (fun landed => ?_)
      (fun landed former known =>
        (inside.continues (depth.symm.trans landed) former known).trans continues)
      (window ▸ high)
      (enters.returns (enters.sound.alike ⟨rfl, rfl, .refl _ _, id, rfl, rfl, rfl, rfl⟩)))
    · rw [isRoot, depth]
      exact inside.isRoot
    · rw [target]
      exact inside.target (depth.symm.trans landed)

end Exec

end ScriptMachine
