import ScriptMachine.Proofs.Machine.Frames

/-!
# Run loops at work

A run loop works on the frames from some depth on and on the registers from some place on.
`Machine.Running` says what holds between two of its instructions: the machine is sound, nothing
below has changed since the run loop started, and no fault is pending.  The same is said of the
frames that belong to a call of the run loop, which are looked at through a higher mark.
-/

namespace ScriptMachine

/-- The later frame stands where the former one has stood, and it is of the same activation where
that is the one of a generator. -/
structure Frame.Continues (former later : Frame) : Prop where
  /-- The windows start at the same place. -/
  base : later.base = former.base
  /-- The same generator is run. -/
  generator : later.generator = former.generator
  /-- An activation of a generator stays with its function. -/
  function : former.generator ≠ none → later.ref = former.ref ∧ later.closure = former.closure

namespace Frame.Continues

variable {former frame later : Frame}

theorem refl (frame : Frame) : frame.Continues frame := ⟨rfl, rfl, fun _ => ⟨rfl, rfl⟩⟩

theorem trans (first : former.Continues frame) (second : frame.Continues later) :
    former.Continues later := by
  refine ⟨second.base.trans first.base, second.generator.trans first.generator, fun runs => ?_⟩
  have known := first.function runs
  have kept := second.function (first.generator ▸ runs)
  exact ⟨kept.1.trans known.1, kept.2.trans known.2⟩

/-- Jumps do not matter. -/
theorem goTo (continues : former.Continues frame) (ip : Nat) :
    former.Continues { frame with ip } :=
  ⟨continues.base, continues.generator, continues.function⟩

end Frame.Continues

/-- The frames of a run loop that are looked at. -/
structure Scope where
  /-- The number of frames below the run loop. -/
  root : Nat
  /-- The number of frames below those looked at. -/
  mark : Nat
  /-- They belong to the run loop. -/
  le : root ≤ mark
  /-- The registers below them. -/
  floor : Nat
  /-- The register below them that receives the result. -/
  target : Option UInt8
  /-- What the first of them has been, if that matters. -/
  former : Option Frame := none

/-- The frame is the current one, and host functions have nothing to wake. -/
def Activity.At (manners : Manners) (frame : Frame) (activity : Activity) : Prop :=
  activity.frames.back? = some frame ∧ activity.Calm manners

namespace Machine

/-- Nothing has happened below the frames looked at. -/
structure Within (scope : Scope) (start machine : Machine) : Prop where
  /-- The machine is sound. -/
  sound : machine.Sound
  /-- Only the first frame of the run loop ends it. -/
  rooted : machine.fiber.activity.Rooted scope.root
  /-- The frames below are there. -/
  deep : scope.mark ≤ machine.fiber.stack.depth
  /-- The fiber does the same below. -/
  below : Activity.SameBelow scope.mark start.fiber.activity machine.fiber.activity
  /-- The first frame looked at has its window and its target. -/
  first : ∀ frame, machine.fiber.stack.frames[scope.mark]? = some frame →
    scope.floor ≤ frame.base ∧ frame.target = scope.target ∧
      ∀ former ∈ scope.former, former.Continues frame
  /-- The registers below are those of the caller, if there is one in the run loop. -/
  caller : scope.root < scope.mark → ∀ frame,
    machine.fiber.stack.frames[scope.mark - 1]? = some frame → scope.floor ≤ frame.top
  /-- The registers below are the same. -/
  slots : ∀ place < scope.floor,
    machine.fiber.stack.slots[place]? = start.fiber.stack.slots[place]?
  /-- They are in use. -/
  room : scope.floor ≤ machine.fiber.stack.size
  /-- The same fibers wait. -/
  waiting : machine.waiting = start.waiting
  /-- As many error handlers are being run. -/
  reporting : machine.reporting = start.reporting

/-- The run loop goes on with the next instruction of the current frame. -/
structure Running (manners : Manners) (scope : Scope) (start machine : Machine) : Prop
    extends Within scope start machine where
  /-- There is a current frame. -/
  above : scope.mark < machine.fiber.stack.depth
  /-- Its window is in use. -/
  shaped : machine.fiber.Shaped
  /-- No fault is pending. -/
  logs : start.Logs manners none machine
  /-- Host functions have nothing to wake. -/
  calm : machine.fiber.activity.Calm manners

/-- The run loop is in a frame. -/
structure Inside (manners : Manners) (scope : Scope) (start : Machine) (frame : Frame)
    (machine : Machine) : Prop extends Running manners scope start machine where
  /-- The frame is the current one. -/
  current : machine.fiber.stack.current? = some frame

/-- A fault is pending. -/
structure Failing (manners : Manners) (scope : Scope) (start : Machine) (fault : Fault)
    (machine : Machine) : Prop extends Within scope start machine where
  /-- It is the one that has been raised last. -/
  pends : start.Pends manners fault machine

/-- The last of the frames looked at has returned to its caller. -/
structure Landed (scope : Scope) (start machine : Machine) : Prop where
  /-- The caller belongs to the run loop. -/
  inner : scope.root < scope.mark
  /-- None of the frames is left. -/
  depth : machine.fiber.stack.depth = scope.mark
  /-- The fiber does the same below. -/
  below : Activity.SameBelow scope.mark start.fiber.activity machine.fiber.activity
  /-- The registers of the caller below the frames are the same, but for the one that receives the
  result. -/
  slots : ∀ caller, machine.fiber.stack.current? = some caller → ∀ place < scope.floor,
    (∀ number, scope.target = some number → place ≠ caller.base + number.toNat) →
    machine.fiber.stack.slots[place]? = start.fiber.stack.slots[place]?

/-- The run loop has been suspended, with so many run loops active. -/
structure Halted (manners : Manners) (scope : Scope) (nesting : Nat) (start machine : Machine) :
    Prop where
  /-- The machine is sound. -/
  ready : machine.Ready
  /-- Only the first frame of the run loop ends it. -/
  rooted : machine.fiber.activity.Rooted scope.root
  /-- Nothing else is active. -/
  alone : start.fiber.nesting = nesting ∧ start.fiber.natives = [] ∧ start.fiber.syncCalls = 0
  /-- The fiber does the same below. -/
  below : Activity.SameBelow scope.mark start.fiber.activity
    { machine.fiber.activity with suspended := start.fiber.suspended }
  /-- It can go on. -/
  resumable : machine.fiber.Resumable
  /-- The same fibers wait. -/
  waiting : machine.waiting = start.waiting
  /-- As many error handlers are being run. -/
  reporting : machine.reporting = start.reporting
  /-- No fault is pending. -/
  logs : start.Logs manners none machine
  /-- Nothing has happened below but the suspension. -/
  within : start.Within scope
    (machine.mapFiber fun fiber => { fiber with suspended := start.fiber.suspended })
  /-- While the run loop is active, there is a current frame. -/
  above : nesting ≠ 0 → scope.mark < machine.fiber.stack.depth

variable {manners : Manners} {scope : Scope} {start machine next : Machine} {frame : Frame}
  {fault : Fault}

theorem getElem?_of_current (current : machine.fiber.stack.current? = some frame) :
    machine.fiber.stack.frames[machine.fiber.stack.depth - 1]? = some frame := by
  rw [Stack.current?, Array.back?_eq_getElem?] at current
  exact current

theorem exists_current {depth : Nat} (above : depth < machine.fiber.stack.depth) :
    ∃ frame, machine.fiber.stack.current? = some frame := by
  have within : machine.fiber.stack.frames.size - 1 < machine.fiber.stack.frames.size := by
    rw [Stack.depth] at above
    omega
  refine ⟨machine.fiber.stack.frames[machine.fiber.stack.frames.size - 1], ?_⟩
  rw [Stack.current?, Array.back?_eq_getElem?, Array.getElem?_eq_getElem within]

/-! ## Steady computations in a run loop -/

/-- The windows of all frames looked at start above the registers below them. -/
theorem Within.floor_le (within : start.Within scope machine) {index : Nat}
    (high : scope.mark ≤ index) (found : machine.fiber.stack.frames[index]? = some frame) :
    scope.floor ≤ frame.base := by
  have inside := (Array.getElem?_eq_some_iff.mp found).1
  have marked : machine.fiber.stack.frames[scope.mark]? =
      some machine.fiber.stack.frames[scope.mark] := Array.getElem?_eq_getElem (by omega)
  calc scope.floor ≤ machine.fiber.stack.frames[scope.mark].base := (within.first _ marked).1
    _ ≤ frame.base :=
      within.sound.fiber.activity.stacked scope.mark index _ _ high marked found

theorem Within.keeps (within : start.Within scope machine) {place : Nat}
    (high : scope.floor ≤ place) (keeps : machine.Keeps (.below place) next) :
    start.Within scope next where
  sound := keeps.sound
  rooted := keeps.activity ▸ within.rooted
  deep := by
    have frames : next.fiber.stack.frames = machine.fiber.stack.frames :=
      congrArg Activity.frames keeps.activity
    rw [Stack.depth, frames]
    exact within.deep
  below := keeps.activity ▸ within.below
  first := by
    have frames : next.fiber.stack.frames = machine.fiber.stack.frames :=
      congrArg Activity.frames keeps.activity
    rw [frames]
    exact within.first
  caller := by
    have frames : next.fiber.stack.frames = machine.fiber.stack.frames :=
      congrArg Activity.frames keeps.activity
    rw [frames]
    exact within.caller
  slots place low :=
    (keeps.slots.2 place (Nat.lt_of_lt_of_le low high)).trans (within.slots place low)
  room := Nat.le_trans within.room keeps.slots.1
  waiting := keeps.waiting.trans within.waiting
  reporting := keeps.reporting.trans within.reporting

theorem Within.truncate (within : start.Within scope machine) {size : Nat}
    (high : scope.floor ≤ size) : start.Within scope (machine.mapStack (·.truncate size)) := by
  refine ⟨within.sound.truncate size, within.rooted, within.deep, within.below, within.first,
    within.caller, fun place low => ?_, ?_, within.waiting, within.reporting⟩
  · exact (Stack.slot_truncate _ (Nat.lt_of_lt_of_le low high)).trans (within.slots place low)
  · show scope.floor ≤ (machine.fiber.stack.truncate size).size
    rw [Stack.size_truncate]
    exact Nat.le_min.mpr ⟨within.room, high⟩

/-- Any frame of a run loop may be looked at. -/
theorem Sound.within (sound : machine.Sound) {root index : Nat}
    (rooted : machine.fiber.activity.Rooted root) (le : root ≤ index)
    (found : machine.fiber.stack.frames[index]? = some frame) :
    machine.Within ⟨root, index, le, 0, frame.target, none⟩ machine := by
  refine ⟨sound, rooted, ?_, .refl _ _, fun other there => ?_, fun _ _ _ => Nat.zero_le _,
    fun _ _ => rfl, Nat.zero_le _, rfl, rfl⟩
  · exact Nat.le_of_lt (Array.getElem?_eq_some_iff.mp found).1
  · obtain rfl := Option.some.inj (found.symm.trans there)
    exact ⟨Nat.zero_le _, rfl, by simp⟩

theorem Inside.floor_le (inside : start.Inside manners scope frame machine) :
    scope.floor ≤ frame.base :=
  inside.toWithin.floor_le (Nat.le_sub_one_of_lt inside.above) (getElem?_of_current inside.current)

theorem Inside.fits (inside : start.Inside manners scope frame machine) :
    frame.base ≤ machine.fiber.stack.size :=
  Nat.le_trans (Nat.le_add_right _ _) (inside.shaped frame inside.current)

theorem Inside.ready (inside : start.Inside manners scope frame machine) : machine.Ready :=
  ⟨inside.sound, inside.shaped⟩

theorem Inside.returns (inside : start.Inside manners scope frame machine)
    (returns : machine.Returns manners (.below frame.base) next) :
    start.Inside manners scope frame next where
  toWithin := inside.toWithin.keeps inside.floor_le returns.keeps
  above := by
    have frames : next.fiber.stack.frames = machine.fiber.stack.frames :=
      congrArg Activity.frames returns.keeps.activity
    rw [Stack.depth, frames]
    exact inside.above
  shaped := (returns.keeps.ready inside.ready).shaped
  logs := inside.logs.trans inside.waiting inside.reporting returns.logs
  calm := returns.keeps.activity ▸ inside.calm
  current := returns.keeps.current.trans inside.current

theorem Inside.fails (inside : start.Inside manners scope frame machine)
    (fails : machine.Fails manners (.below frame.base) fault next) :
    start.Failing manners scope fault next :=
  ⟨inside.toWithin.keeps inside.floor_le fails.keeps,
    fails.pends.trans inside.logs inside.waiting inside.reporting⟩

theorem Running.reaches (running : start.Running manners scope machine)
    (reaches : machine.Reaches manners next) : start.Reaches manners next :=
  reaches.trans running.logs

/-- A fault that accepted code can run into. -/
theorem Inside.raises (inside : start.Inside manners scope frame machine)
    (allowed : (machine.incident .raised fault).Allowed) :
    start.Failing manners scope fault (machine.record fault) :=
  inside.fails (inside.sound.fails allowed)

end Machine

theorem Exec.Steady.meets_inside {α : Type} {manners : Manners} {scope : Scope}
    {start machine : Machine} {frame : Frame} {action : Exec α}
    (steady : Steady manners (.below frame.base) (Activity.At manners frame) action)
    (inside : start.Inside manners scope frame machine) :
    action.Meets machine (fun _ => start.Inside manners scope frame)
      (start.Failing manners scope) (start.Reaches manners) :=
  (steady machine inside.ready inside.fits ⟨inside.current, inside.calm⟩).mono
    (fun _ _ => inside.returns) (fun _ _ => inside.fails) fun _ => inside.toRunning.reaches

namespace Machine

variable {manners : Manners} {scope : Scope} {start machine next : Machine} {frame : Frame}

/-! ## The current frame -/

theorem current_goTo (current : machine.fiber.stack.current? = some frame) (ip : Nat) :
    (machine.fiber.stack.modifyFrame ({ · with ip })).current? = some { frame with ip } := by
  have place := getElem?_of_current current
  rw [Stack.current?, Array.back?_eq_getElem?, Stack.modifyFrame, Array.size_modify,
    Array.getElem?_modify, if_pos (by rfl)]
  exact congrArg (Option.map _) place

theorem depth_goTo (stack : Stack) (ip : Nat) :
    (stack.modifyFrame ({ · with ip })).depth = stack.depth := Array.size_modify

theorem Within.goTo (within : start.Within scope machine)
    (above : scope.mark < machine.fiber.stack.depth)
    (current : machine.fiber.stack.current? = some frame) {ip : Nat}
    (inside : ip ≤ frame.closure.routine.code.size) :
    start.Within scope (machine.mapStack (·.modifyFrame ({ · with ip }))) := by
  refine ⟨⟨within.sound.heap, ⟨within.sound.fiber.activity.goTo current inside,
    within.sound.fiber.room⟩, within.sound.waiting, within.sound.routines, within.sound.incidents⟩,
    within.rooted.goTo _ _, ?_, within.below.trans (.goTo above ip), ?_, ?_, within.slots,
    within.room, within.waiting, within.reporting⟩
  · exact depth_goTo machine.fiber.stack ip ▸ within.deep
  · intro other found
    obtain ⟨former, there, ⟨_, rfl⟩ | ⟨_, rfl⟩⟩ := Activity.getElem?_goTo found
    · exact within.first _ there
    · obtain ⟨low, target, continues⟩ := within.first former there
      exact ⟨low, target, fun frame known => (continues frame known).goTo ip⟩
  · intro inner other found
    obtain ⟨former, there, ⟨_, rfl⟩ | ⟨_, rfl⟩⟩ := Activity.getElem?_goTo found
    · exact within.caller inner _ there
    · exact within.caller inner former there

theorem Inside.goTo (inside : start.Inside manners scope frame machine) {ip : Nat}
    (within : ip ≤ frame.closure.routine.code.size) :
    start.Inside manners scope { frame with ip }
      (machine.mapStack (·.modifyFrame ({ · with ip }))) := by
  have current := current_goTo inside.current ip
  refine ⟨⟨inside.toWithin.goTo inside.above inside.current within, ?_, fun other found => ?_,
    inside.logs.same rfl, inside.calm⟩, current⟩
  · exact depth_goTo machine.fiber.stack ip ▸ inside.above
  · obtain rfl := Option.some.inj (current.symm.trans found)
    exact inside.shaped frame inside.current

/-- Traps of the current frame come and go. -/
theorem Inside.setTraps (inside : start.Inside manners scope frame machine) {traps : List Trap}
    (sound : { machine.fiber.activity with traps }.SoundIn machine.heap)
    (same : (traps.dropWhile fun trap => scope.mark ≤ trap.frame) =
      machine.fiber.traps.dropWhile fun trap => scope.mark ≤ trap.frame) :
    start.Inside manners scope frame (machine.mapFiber fun fiber => { fiber with traps }) :=
  ⟨⟨⟨⟨inside.sound.heap, ⟨sound, inside.sound.fiber.room⟩, inside.sound.waiting,
    inside.sound.routines, inside.sound.incidents⟩, inside.rooted, inside.deep,
    inside.below.trans (.setTraps same), inside.first, inside.caller, inside.slots, inside.room,
    inside.waiting, inside.reporting⟩, inside.above, inside.shaped, inside.logs.same rfl,
    inside.calm⟩, inside.current⟩

/-! ## New frames -/

/-- A frame with its window has been added. -/
structure Enters (manners : Manners) (callee : Frame) (before after : Machine) : Prop where
  /-- The machine is sound. -/
  sound : after.Sound
  /-- The frame is the current one, and any new traps are its own. -/
  activity : ∃ own : List Trap, (∀ trap ∈ own, trap.frame = before.fiber.stack.depth) ∧
    after.fiber.activity =
      { before.fiber.activity with
        frames := before.fiber.activity.frames.push callee
        traps := own ++ before.fiber.activity.traps }
  /-- The registers below it are the same. -/
  slots : Extent.Same (.below callee.base) before.fiber.stack after.fiber.stack
  /-- They are in use. -/
  room : callee.base ≤ before.fiber.stack.size
  /-- Its window is in use. -/
  window : callee.top ≤ after.fiber.stack.size
  /-- The same fibers wait. -/
  waiting : after.waiting = before.waiting
  /-- As many error handlers are being run. -/
  reporting : after.reporting = before.reporting
  /-- No fault is pending. -/
  logs : before.Logs manners none after

variable {callee : Frame}

theorem Enters.frames (enters : machine.Enters manners callee next) :
    next.fiber.stack.frames = machine.fiber.stack.frames.push callee := by
  obtain ⟨_, _, activity⟩ := enters.activity
  exact congrArg Activity.frames activity

theorem Enters.depth (enters : machine.Enters manners callee next) :
    next.fiber.stack.depth = machine.fiber.stack.depth + 1 := by
  rw [Stack.depth, enters.frames, Array.size_push]
  rfl

theorem Enters.current (enters : machine.Enters manners callee next) :
    next.fiber.stack.current? = some callee := by
  rw [Stack.current?, enters.frames, Array.back?_push]

theorem Enters.shaped (enters : machine.Enters manners callee next) : next.fiber.Shaped := by
  intro frame current
  obtain rfl := Option.some.inj (enters.current.symm.trans current)
  exact enters.window

theorem Enters.calm (enters : machine.Enters manners callee next)
    (calm : machine.fiber.activity.Calm manners) : next.fiber.activity.Calm manners := by
  obtain ⟨_, _, activity⟩ := enters.activity
  rw [activity]
  exact calm

/-- A frame added to the machine before. -/
theorem Returns.enters {before : Machine} {place : Nat} (high : callee.base ≤ place)
    (returns : before.Returns manners (.below place) machine)
    (fits : callee.base ≤ before.fiber.stack.size)
    (enters : machine.Enters manners callee next) : before.Enters manners callee next where
  sound := enters.sound
  activity := by
    obtain ⟨own, placed, activity⟩ := enters.activity
    have frames : machine.fiber.stack.frames = before.fiber.stack.frames :=
      congrArg Activity.frames returns.keeps.activity
    refine ⟨own, fun trap member => ?_, ?_⟩
    · rw [placed trap member, Stack.depth, frames]
      rfl
    · rw [activity, returns.keeps.activity]
  slots := (returns.keeps.slots.lower high).trans enters.slots
  room := fits
  window := enters.window
  waiting := enters.waiting.trans returns.keeps.waiting
  reporting := enters.reporting.trans returns.keeps.reporting
  logs := returns.logs.trans returns.keeps.waiting returns.keeps.reporting enters.logs

/-- The frame belongs to the run loop. -/
theorem Within.enters (within : start.Within scope machine)
    (logs : start.Logs manners none machine) (calm : machine.fiber.activity.Calm manners)
    (isRoot : callee.isRoot = true ↔ machine.fiber.stack.depth = scope.root)
    (target : machine.fiber.stack.depth = scope.mark → callee.target = scope.target)
    (continues : machine.fiber.stack.depth = scope.mark →
      ∀ former ∈ scope.former, former.Continues callee)
    (high : scope.floor ≤ callee.base) (enters : machine.Enters manners callee next) :
    start.Running manners scope next := by
  obtain ⟨own, placed, activity⟩ := enters.activity
  have deep := within.deep
  have le := scope.le
  refine ⟨⟨enters.sound, activity ▸ within.rooted.push isRoot _,
    ?_, ?_, ?_, ?_, ?_, ?_, ?_, ?_⟩, ?_,
    enters.shaped, logs.trans within.waiting within.reporting enters.logs, enters.calm calm⟩
  · rw [enters.depth]
    omega
  · rw [activity]
    exact within.below.trans (.push deep placed)
  · intro other found
    rw [enters.frames, Array.getElem?_push] at found
    split at found
    · rename_i last
      obtain rfl := Option.some.inj found
      exact ⟨high, target last.symm, continues last.symm⟩
    · exact within.first other found
  · intro inner other found
    have differ : scope.mark - 1 ≠ machine.fiber.stack.frames.size := by
      rw [Stack.depth] at deep
      omega
    rw [enters.frames, Array.getElem?_push, if_neg differ] at found
    exact within.caller inner other found
  · intro place low
    exact (enters.slots.2 place (Nat.lt_of_lt_of_le low high)).trans (within.slots place low)
  · exact Nat.le_trans within.room enters.slots.1
  · exact enters.waiting.trans within.waiting
  · exact enters.reporting.trans within.reporting
  · rw [enters.depth]
    omega

/-- A frame above the current one belongs to the run loop. -/
theorem Inside.enters (inside : start.Inside manners scope frame machine)
    (isRoot : callee.isRoot = false) (high : frame.base ≤ callee.base)
    (enters : machine.Enters manners callee next) : start.Running manners scope next := by
  have above := inside.above
  have le := scope.le
  refine inside.toWithin.enters inside.logs inside.calm ⟨fun ends => ?_, fun depth => ?_⟩
    (fun depth => ?_) (fun depth => ?_) (Nat.le_trans inside.floor_le high) enters
  · exact absurd (isRoot.symm.trans ends) Bool.false_ne_true
  · omega
  · omega
  · omega

/-- A frame that ends its run loop starts one. -/
theorem Enters.running (enters : machine.Enters manners callee next)
    (isRoot : callee.isRoot = true) (calm : machine.fiber.activity.Calm manners) :
    machine.Running manners
      ⟨machine.fiber.stack.depth, machine.fiber.stack.depth, Nat.le_refl _, callee.base,
        callee.target, none⟩ next := by
  obtain ⟨own, placed, activity⟩ := enters.activity
  have rooted : machine.fiber.activity.Rooted machine.fiber.stack.depth :=
    Activity.rooted_of_size_eq rfl
  refine ⟨⟨enters.sound, activity ▸ rooted.push (by simp [isRoot, Fiber.activity, Stack.depth]) _,
    ?_, ?_, ?_, fun inner => absurd inner (Nat.lt_irrefl _), enters.slots.2, ?_, enters.waiting,
    enters.reporting⟩, ?_, enters.shaped, enters.logs, enters.calm calm⟩
  · exact Nat.le_of_lt (enters.depth ▸ Nat.lt_succ_self _)
  · rw [activity]
    have deep : machine.fiber.stack.depth ≤ machine.fiber.activity.frames.size := Nat.le_refl _
    exact .push deep placed
  · intro other found
    have last : next.fiber.stack.frames[machine.fiber.stack.depth]? = some callee := by
      rw [enters.frames, Stack.depth, Array.getElem?_push_size]
    obtain rfl := Option.some.inj (last.symm.trans found)
    exact ⟨Nat.le_refl _, rfl, by simp⟩
  · exact Nat.le_trans enters.room enters.slots.1
  · exact enters.depth ▸ Nat.lt_succ_self _

end Machine

end ScriptMachine
