import ScriptMachine.Proofs.Machine.Staying
import ScriptMachine.Proofs.Machine.Windows

/-!
# Calls in the place of a frame

A call of a script function can take the place of the frame that makes it.  Nothing else happens to
the frames, the traps and the registers below, and whatever takes the place of the frame later on,
the value that is returned from there in the end goes where the result of the frame would have gone.
Where a call cannot take the place of its frame, it is an ordinary call.
-/

namespace ScriptMachine

open Exec

namespace Machine

/-- A call of a function takes the place of the current frame. -/
structure Replaces (machine : Machine) (frame : Frame) (closure : Closure) (count : Nat) :
    Prop where
  /-- The function is no generator function. -/
  plain : closure.routine.isGenerator = false
  /-- It accepts so many arguments. -/
  accepts : closure.routine.accepts count = true
  /-- The frame runs no generator. -/
  generator : frame.generator = none
  /-- It owns no trap. -/
  free : ∀ trap ∈ machine.fiber.traps, trap.frame ≠ machine.fiber.stack.depth - 1

/-- A call has taken the place of the current frame. -/
structure Replaced (frame : Frame) (ref : Ref .closure) (closure : Closure) (arguments : List Value)
    (before after : Machine) : Prop where
  /-- The new frame has the window, the target and the part in the run loop of the one before.  All
  other frames are the same, and so are the traps and whatever else is going on in the fiber. -/
  activity : after.fiber.activity =
    { before.fiber.activity with
      frames := before.fiber.stack.frames.pop.push
        { ref, closure, ip := 0, base := frame.base, target := frame.target
          isRoot := frame.isRoot } }
  /-- The registers below are the same. -/
  slots : ∀ place < frame.base,
    after.fiber.stack.slots[place]? = before.fiber.stack.slots[place]?
  /-- The arguments stand in the parameters. -/
  opens : after.Opens closure arguments frame.base fun index =>
    if frame.base + index < frame.top then .null
    else before.fiber.stack.get (frame.base + index)
  /-- Further arguments are in an array. -/
  packs : closure.routine.Packs arguments frame.base after

/-- What the current frame returns, if the instruction returns: the value of a register, or null.
Null is also what a frame returns that has no instructions left. -/
def returned? (machine : Machine) : Option Instruction → Option Value
  | none => some .null
  | some instruction =>
    if instruction.op = .ret then
      some (match instruction.target? with
        | some _ => machine.fiber.stack.get
            (machine.fiber.base + (Instruction.lowByte instruction.wide).toNat)
        | none => .null)
    else none

/-- The machine without its current frame, whose generator has ended. -/
def quit (machine : Machine) (frame : Frame) : Machine :=
  { machine.mapStack (·.leave) with heap := machine.heap.ending frame }

end Machine

namespace Exec

open Machine

variable {machine next : Machine} {frame : Frame} {closure : Closure}
  {ref : Ref .closure} {instruction : Instruction}

/-! ## Whether a call takes the place of its frame -/

theorem exists_replacesFrame (sound : machine.Sound) (frame : Frame) (closure : Closure)
    (count : Nat) : ∃ replaced, replacesFrame frame closure count machine = .ok replaced machine ∧
      (replaced = true ↔ machine.Replaces frame closure count) := by
  refine ⟨_, rfl, ?_⟩
  simp only [Bool.and_eq_true, Bool.not_eq_true', Option.isNone_iff_eq_none]
  constructor
  · rintro ⟨⟨⟨plain, generator⟩, free⟩, accepts⟩
    exact ⟨plain, accepts, generator, fun trap member =>
      Nat.ne_of_lt (lt_of_innermost sound free trap member)⟩
  · intro replaces
    refine ⟨⟨⟨replaces.plain, replaces.generator⟩, ?_⟩, replaces.accepts⟩
    cases innermost : machine.fiber.traps with
    | nil => rfl
    | cons trap rest =>
        have other := replaces.free trap (innermost ▸ List.mem_cons_self)
        simpa using other

theorem step_tailCall (engine : Engine) (tail : instruction.op = .tailCall) :
    step engine (some instruction) = (do
      tailCall .direct engine (← Access.direct.readWide instruction.wide) instruction) := by
  rw [step, dispatch, tail]

theorem step_call (engine : Engine) (instruction : Instruction) :
    step engine (some { instruction with op := .call }) = (do
      callInstruction .direct engine (← Access.direct.readWide instruction.wide) instruction) := rfl

theorem readWide_eq (current : machine.fiber.stack.current? = some frame) (wide : Int32) :
    Access.direct.readWide wide machine =
      .ok (machine.fiber.stack.get (frame.base + (Instruction.lowByte wide).toNat)) machine := by
  have base : machine.fiber.base = frame.base := by
    rw [Fiber.base, current]
    rfl
  rw [← base]
  rfl

/-- A call that cannot take the place of its frame is an ordinary one. -/
theorem step_eq_call (engine : Engine) (sound : machine.Sound)
    (current : machine.fiber.stack.current? = some frame) (tail : instruction.op = .tailCall)
    (other : ∀ ref, machine.fiber.stack.get
        (frame.base + (Instruction.lowByte instruction.wide).toNat) = .closure ref →
      ¬ machine.Replaces frame (machine.heap.get ref) instruction.third.toNat) :
    step engine (some instruction) machine =
      step engine (some { instruction with op := .call }) machine := by
  have callee := readWide_eq current instruction.wide
  rw [step_tailCall engine tail, step_call, ok_bind callee, ok_bind callee]
  cases value : machine.fiber.stack.get
      (frame.base + (Instruction.lowByte instruction.wide).toNat) with
  | closure ref =>
      obtain ⟨replaced, decided, replaces⟩ := exists_replacesFrame sound frame
        (machine.heap.get ref) instruction.third.toNat
      have kept : replaced = false :=
        Bool.eq_false_iff.mpr fun holds => other ref value (replaces.mp holds)
      rw [tailCall, read_bind, Exec.frame_bind current, ok_bind decided, kept]
      rfl
  | _ => rfl

/-! ## A call that does -/

/-- A function is entered in a new frame, and nothing happens below it. -/
theorem meets_enterClosure_frame (sound : machine.Sound) {base : Nat}
    (fits : base ≤ machine.fiber.stack.size) (ref : Ref .closure) (count : Nat)
    (target : Option UInt8) (isRoot : Bool) :
    (enterClosure ref base count target isRoot).Meets machine
      (fun _ next => next.fiber.activity =
          { machine.fiber.activity with
            frames := machine.fiber.stack.frames.push
              { ref, closure := machine.heap.get ref, ip := 0, base, target, isRoot } } ∧
        Extent.Same (.below base) machine.fiber.stack next.fiber.stack)
      (fun _ _ => True) (fun _ => False) := by
  refine Meets.read_bind ?_
  have prepared : Direct {} (.below base) _ :=
    .prepareArguments (machine.heap.get ref : Closure).routine base count
  refine ((prepared machine sound fits).mono (fun _ _ => id) (fun _ _ _ => trivial)
    fun _ => False.elim).bind fun _ prepared ⟨returns, _⟩ => ?_
  let callee : Frame :=
    { ref, closure := machine.heap.get ref, ip := 0, base, target, isRoot }
  have pushed : (pushFrame callee).Meets prepared
      (fun _ next => next = prepared.mapStack (·.enter callee)) (fun _ _ => True)
      (fun _ => False) := Meets.room_bind trivial fun _ => rfl
  refine pushed.bind ?_
  rintro _ next rfl
  have entered : (prepared.mapStack (·.enter callee)).fiber.activity =
      { prepared.fiber.activity with frames := prepared.fiber.activity.frames.push callee } := by
    simp [Fiber.activity, mapStack]
  have room : base ≤ prepared.fiber.stack.size := Nat.le_trans fits returns.keeps.slots.1
  refine ⟨entered.trans ?_, returns.keeps.slots.trans ⟨?_, fun place low => ?_⟩⟩
  · rw [returns.keeps.activity]
    rfl
  · show _ ≤ (prepared.fiber.stack.enter callee).size
    rw [Stack.size_enter]
    exact Nat.le_max_left _ _
  · exact Stack.slot_enter _ callee (Nat.lt_of_lt_of_le low room)

/-- The frame is replaced, and nothing happens below it. -/
theorem meets_replaceFrame_frame (ready : machine.Ready)
    (current : machine.fiber.stack.current? = some frame)
    (free : ∀ trap ∈ machine.fiber.traps, trap.frame < machine.fiber.stack.depth - 1)
    (ref : Ref .closure) (instruction : Instruction) :
    (replaceFrame .direct ref instruction).Meets machine
      (fun _ next => ∃ closure, next.fiber.activity =
          { machine.fiber.activity with
            frames := machine.fiber.stack.frames.pop.push
              { ref, closure, ip := 0, base := frame.base, target := frame.target
                isRoot := frame.isRoot } } ∧
        Extent.Same (.below frame.base) machine.fiber.stack next.fiber.stack)
      (fun _ _ => True) (fun _ => False) := by
  have base : machine.fiber.base = frame.base := by
    rw [Fiber.base, current]
    rfl
  have fits : frame.base ≤ machine.fiber.stack.size :=
    Nat.le_trans (Nat.le_add_right _ _) (ready.shaped frame current)
  refine Meets.ok_bind rfl ?_
  dsimp only
  rw [base]
  refine Meets.ok_bind (popFrame_eq current) ?_
  rw [leave_eq_left free]
  -- The arguments move to the start of the window.
  have moves : ∀ {β : Type} {action : Exec β} {machine : Machine},
      Direct {} (.below frame.base) action → machine.Sound →
      frame.base ≤ machine.fiber.stack.size → action.Meets machine
        (fun _ next => machine.Returns {} (.below frame.base) next) (fun _ _ => True)
        (fun _ => False) := fun direct sound fits =>
    (direct _ sound fits).mono (fun _ _ held => held.1) (fun _ _ _ => trivial) fun _ => False.elim
  refine (moves (.takeRange (Nat.le_add_right _ _) _) ready.sound.left fits).bind
    fun arguments taken returns => ?_
  have room := Nat.le_trans fits returns.keeps.slots.1
  refine (moves (.clearRange (Nat.le_refl _) _) returns.keeps.sound room).bind
    fun _ cleared later => ?_
  have returns := returns.trans later
  have room := Nat.le_trans fits returns.keeps.slots.1
  refine (moves (.forM fun _ => .setPlace (Nat.le_add_right _ _) _) returns.keeps.sound room).bind
    fun _ moved later => ?_
  have returns := returns.trans later
  have room := Nat.le_trans fits returns.keeps.slots.1
  -- The callee takes the place of the frame.
  refine (meets_enterClosure_frame returns.keeps.sound room ref _ _ _).bind ?_
  rintro _ next ⟨entered, slots⟩
  refine ⟨moved.heap.get ref, entered.trans ?_, returns.keeps.slots.trans slots⟩
  have frames : moved.fiber.stack.frames = machine.fiber.stack.frames.pop :=
    congrArg Activity.frames returns.keeps.activity
  rw [frames, returns.keeps.activity]
  exact congrArg (fun machine : Machine => { machine.fiber.activity with
    frames := machine.fiber.stack.frames.push
      { ref, closure := moved.heap.get ref, ip := 0, base := frame.base, target := frame.target
        isRoot := frame.isRoot } }) (leave_eq_left free).symm

/-- A function that is not there accepts nothing. -/
theorem get?_eq_some_get_of_accepts {heap : Heap} {count : Nat} (receiver : 0 < count)
    (accepts : (heap.get ref : Closure).routine.accepts count = true) :
    heap.get? ref = some (heap.get ref) := by
  cases found : heap.get? ref with
  | some closure => rw [Heap.get_of_get?_eq_some found]
  | none =>
      have absent : heap.get ref = (default : Closure) := by
        rw [Heap.get, found]
        rfl
      rw [absent] at accepts
      have none : (count == 0) = true := accepts
      have none : count = 0 := eq_of_beq none
      omega

/-- A call that takes the place of its frame. -/
theorem meets_step_replaces (engine : Engine) (ready : machine.Ready)
    (calls : machine.Calls frame instruction (.closure ref)) (tail : instruction.op = .tailCall)
    (replaces : machine.Replaces frame (machine.heap.get ref) instruction.third.toNat) :
    (step engine (some instruction)).Meets machine
      (fun flow next => flow = .proceed ∧ machine.Replaced frame ref (machine.heap.get ref)
        (machine.fiber.stack.values (frame.base + instruction.second.toNat)
          instruction.third.toNat) next)
      (fun fault _ => fault = .stackOverflow) (fun _ => False) := by
  have free : ∀ trap ∈ machine.fiber.traps, trap.frame < machine.fiber.stack.depth - 1 := by
    intro trap member
    have below : trap.frame < machine.fiber.stack.depth :=
      ready.sound.fiber.activity.lt_size member
    have other := replaces.free trap member
    omega
  obtain ⟨replaced, decided, holds⟩ := exists_replacesFrame ready.sound frame
    (machine.heap.get ref) instruction.third.toNat
  obtain rfl : replaced = true := holds.mpr replaces
  rw [step_tailCall engine tail]
  refine Meets.ok_bind (readWide_of_calls calls) ?_
  refine Meets.read_bind (Meets.frame_bind calls.current (Meets.ok_bind decided ?_))
  rw [if_pos rfl]
  have found := get?_eq_some_get_of_accepts calls.receiver replaces.accepts
  have exact := meets_replaceFrame_frame ready calls.current free ref instruction
  refine ((meets_replaceFrame_packs calls found replaces.accepts).and
    fun flow next result => exact.of_ok result).mono ?_ (fun _ _ => id) fun _ => id
  rintro flow next ⟨⟨goesOn, opens, packs⟩, closure, activity, slots⟩
  refine ⟨goesOn, ?_, slots.2, opens, packs⟩
  obtain ⟨callee, last, same, _⟩ := opens.frame
  have frames : next.fiber.stack.frames = _ := congrArg Activity.frames activity
  rw [Stack.current?, frames, Array.back?_push] at last
  obtain rfl := Option.some.inj last
  rw [activity, ← same]

/-! ## What is returned in the end -/

theorem handedOut_eq {value : Value} (returns : instruction.op = .ret)
    (returned : machine.returned? (some instruction) = some value) :
    handedOut .direct instruction machine = .ok value machine := by
  rw [returned?, if_pos returns] at returned
  obtain rfl := Option.some.inj returned
  rw [handedOut]
  cases instruction.target? with
  | none => rfl
  | some number => rfl

/-- A frame that returns a value hands it on. -/
theorem meets_step_returns (engine : Engine) (sound : machine.Sound)
    (current : machine.fiber.stack.current? = some frame)
    (called : frame.isRoot = false → 1 < machine.fiber.stack.depth)
    {instruction : Option Instruction} {value : Value}
    (returned : machine.returned? instruction = some value) :
    (step engine instruction).Meets machine ((machine.quit frame).Hands frame value)
      (fun fault _ => fault = .stackOverflow ∧ (machine.quit frame).Misses frame)
      (fun _ => False) := by
  have leaves : (returnValue value).Meets machine ((machine.quit frame).Hands frame value)
      (fun fault _ => fault = .stackOverflow ∧ (machine.quit frame).Misses frame)
      (fun _ => False) := by
    refine Meets.ok_bind (popFrame_eq current) (Meets.ok_bind (killGenerator_eq frame _) ?_)
    refine meets_leaveFrame_hands (fun caller member => ?_) (fun inner => ?_) value
    · exact (sound.left.fiber.activity.frames caller member).room
    · show 0 < machine.fiber.stack.frames.pop.size
      have deep : 1 < machine.fiber.stack.frames.size := called inner
      rw [Array.size_pop]
      omega
  cases instruction with
  | none =>
      obtain rfl := Option.some.inj returned
      exact leaves
  | some instruction =>
      have returns : instruction.op = .ret := by
        by_contra other
        rw [returned?, if_neg other] at returned
        cases returned
      rw [step, dispatch, returns]
      exact Meets.ok_bind (handedOut_eq returns returned) leaves

end Exec

namespace Machine

/-- Calls in the place of the current frame.  The callee of an instruction stands in a register, and
so do the arguments. -/
structure TailCalls (machine : Machine) (frame : Frame) (instruction : Instruction) : Prop where
  /-- A function that can take the place of the frame does. -/
  replaces : ∀ (engine : Engine) (ref : Ref .closure),
    machine.fiber.stack.get
      (frame.base + (Instruction.lowByte instruction.wide).toNat) = .closure ref →
    machine.Replaces frame (machine.heap.get ref) instruction.third.toNat →
    (step engine (some instruction)).Meets machine
      (fun flow next => flow = .proceed ∧ machine.Replaced frame ref (machine.heap.get ref)
        (machine.fiber.stack.values (frame.base + instruction.second.toNat)
          instruction.third.toNat) next)
      (fun fault _ => fault = .stackOverflow) (fun _ => False)
  /-- An ordinary call with the same operands collects the same arguments into an array. -/
  packs : ∀ (engine : Engine) (ref : Ref .closure),
    machine.fiber.stack.get
      (frame.base + (Instruction.lowByte instruction.wide).toNat) = .closure ref →
    machine.Replaces frame (machine.heap.get ref) instruction.third.toNat →
    (step engine (some { instruction with op := .call })).Meets machine
      (fun flow next => flow = .proceed ∧ (machine.heap.get ref : Closure).routine.Packs
        (machine.fiber.stack.values (frame.base + instruction.second.toNat)
          instruction.third.toNat) (frame.base + instruction.second.toNat) next)
      (fun fault _ => fault = .stackOverflow) (fun _ => False)
  /-- All other calls are ordinary ones. -/
  calls : ∀ engine : Engine, (∀ ref, machine.fiber.stack.get
        (frame.base + (Instruction.lowByte instruction.wide).toNat) = .closure ref →
      ¬ machine.Replaces frame (machine.heap.get ref) instruction.third.toNat) →
    step engine (some instruction) machine =
      step engine (some { instruction with op := .call }) machine

/-- The current frame of the later machine returns a value in the place of a frame. -/
structure Concludes (machine : Machine) (index : Nat) (first : Frame)
    (instruction : Option Instruction) (value : Value) (next : Machine) : Prop where
  /-- The frames below are the same. -/
  below : ∀ other < index, next.fiber.stack.frames[other]? = machine.fiber.stack.frames[other]?
  /-- The value goes where the result of the frame would have gone.  It gets lost with the register
  that waits for it only. -/
  hands : ∃ last, next.fiber.stack.current? = some last ∧ next.fiber.stack.depth = index + 1 ∧
    last.base = first.base ∧ ∀ engine : Engine,
      (step engine instruction).Meets next ((next.quit last).Hands first value)
        (fun fault _ => fault = .stackOverflow ∧ (next.quit last).Misses first) (fun _ => False)

theorem Hands.congr {frame other : Frame} {value : Value} {before after : Machine} {flow : Flow}
    (hands : before.Hands frame value flow after) (target : frame.target = other.target)
    (isRoot : frame.isRoot = other.isRoot) : before.Hands other value flow after :=
  ⟨hands.frames, hands.traps, hands.heap, isRoot ▸ hands.root, isRoot ▸ target ▸ hands.inner⟩

theorem Misses.congr {frame other : Frame} {machine : Machine} (misses : machine.Misses frame)
    (target : frame.target = other.target) : machine.Misses other := by
  obtain ⟨caller, number, current, there, outside⟩ := misses
  exact ⟨caller, number, current, target ▸ there, outside⟩

theorem Ready.tailCalls {machine next : Machine} {frame : Frame} {instruction : Instruction}
    (ready : machine.Ready) (fetched : fetch machine = .ok (some instruction) next)
    (tail : instruction.op = .tailCall) (current : next.fiber.stack.current? = some frame) :
    next.TailCalls frame instruction := by
  have calls := calls_of_fetch ready fetched (.inr tail) current
  have ready := ready_of_fetch ready fetched
  refine ⟨fun engine ref callee replaces => ?_, fun engine ref callee replaces => ?_,
    fun engine other => step_eq_call engine ready.sound current tail other⟩
  · rw [callee] at calls
    exact meets_step_replaces engine ready calls tail replaces
  · rw [callee] at calls
    have found := get?_eq_some_get_of_accepts calls.receiver replaces.accepts
    rw [step_call]
    exact Meets.ok_bind (readWide_of_calls calls)
      ((meets_callInstruction_packs calls engine found replaces.plain replaces.accepts).mono
        (fun _ _ ⟨goesOn, _, packs⟩ => ⟨goesOn, packs⟩) (fun _ _ => id) fun _ => id)

theorem Works.concludes {host : Host} {manners : Manners} {machine last next : Machine}
    {first : Frame} {root index : Nat} {instruction : Option Instruction} {value : Value}
    (steady : ∀ steps, (Engine.ofHost host steps).Steady manners)
    (works : machine.Works manners root) (le : root ≤ index)
    (found : machine.fiber.stack.frames[index]? = some first)
    (stays : Stays host root index machine last)
    (depth : last.fiber.stack.depth = index + 1) (fetched : fetch last = .ok instruction next)
    (returned : next.returned? instruction = some value) :
    machine.Concludes index first instruction value next := by
  have above : index < machine.fiber.stack.depth := (Array.getElem?_eq_some_iff.mp found).1
  have floors : machine.Floors root index 0 :=
    ⟨fun _ _ => Nat.zero_le _, fun _ _ _ => Nat.zero_le _⟩
  obtain ⟨works, upholds⟩ := stays.upholds steady works le above floors
  obtain ⟨frame, ip, current, moved, kept, same⟩ := current_of_fetch fetched
  obtain ⟨_, there, succeeds⟩ := upholds.frame first found
  have place := getElem?_of_current current
  rw [depth, Nat.add_sub_cancel] at place
  obtain rfl := Option.some.inj (place.symm.trans there)
  refine ⟨fun other low => (same other (by omega)).trans (upholds.frames other low),
    { frame with ip }, moved, kept.trans depth, succeeds.base, fun engine => ?_⟩
  have inner : frame.isRoot = false → 1 < next.fiber.stack.depth := by
    intro inner
    have differ : index ≠ root := by
      have ends := mt (works.rooted index frame le place).mpr
      exact ends (by simp [inner])
    omega
  exact (meets_step_returns engine (ready_of_fetch works.ready fetched).sound moved inner
    returned).mono (fun _ _ hands => hands.congr succeeds.target succeeds.isRoot)
    (fun _ _ missed => ⟨missed.1, missed.2.congr succeeds.target⟩) fun _ => id

end Machine

/-- In every sound machine a call takes the place of its frame where it can, and what is returned in
the place of a frame goes where the result of that frame would have gone, whatever has happened in
between: further calls, in the place of the frame or not, faults that have been caught, suspensions.
Every machine that occurs is sound. -/
theorem tail_calls {host : Host} {manners : Manners} (serves : host.Serves manners)
    (verified : manners.trusts = false) :
    (∀ (machine next : Machine) (frame : Frame) (instruction : Instruction), machine.Ready →
      fetch machine = .ok (some instruction) next → instruction.op = .tailCall →
      next.fiber.stack.current? = some frame → next.TailCalls frame instruction) ∧
    (∀ (machine last next : Machine) (first : Frame) (root index : Nat)
      (instruction : Option Instruction) (value : Value), machine.Works manners root →
      root ≤ index → machine.fiber.stack.frames[index]? = some first →
      Stays host root index machine last → last.fiber.stack.depth = index + 1 →
      fetch last = .ok instruction next → next.returned? instruction = some value →
      machine.Concludes index first instruction value next) ∧
    ∀ machine : Machine, machine.Occurs host manners → machine.Ready :=
  ⟨fun _ _ _ _ ready fetched tail current => ready.tailCalls fetched tail current,
    fun _ _ _ _ _ _ _ _ works le found stays depth fetched returned =>
      works.concludes (Engine.steady_ofHost serves verified) le found stays depth fetched returned,
    fun _ occurs => (occurs.ready serves verified).1⟩

/-- A function that calls its argument in the place of its frame. -/
def passing : Prototype where
  name := "passing"
  parameters := #["this", "callee"]
  stackSize := 4
  code := #[⟨.tailCall, 2, 1, 3, 1⟩, ⟨.ret, 0, 2, 0, 0⟩]

/-- A function that calls one of its arguments on the other and returns the result. -/
def handing : Prototype where
  name := "handing"
  parameters := #["this", "passing", "callee"]
  stackSize := 6
  code := #[⟨.move, 5, 2, 0, 0⟩, ⟨.call, 3, 1, 4, 2⟩, ⟨.ret, 0, 3, 0, 0⟩]

/-- Load the functions and run one on the others. -/
def runHanding (engine : Engine) : Exec Outcome := do
  let callee ← Exec.loadFunction nine
  let between ← Exec.loadFunction passing
  let closure ← Exec.loadFunction handing
  Exec.run engine closure [between, callee]

theorem serves_runHanding (engine : Engine) {manners : Manners} (enters : manners.enters = true) :
    engine.Serves manners (runHanding engine) :=
  (Engine.Serves.loadFunction nine).bind fun _ =>
    (Engine.Serves.loadFunction passing).bind fun _ =>
      (Engine.Serves.loadFunction handing).bind fun _ => .run enters _ _

/-- Stop where the call in the place of a frame is the next instruction. -/
def untilTailCall : Engine :=
  .until (fun machine => machine.fiber.stack.frames.map Frame.ip == #[2, 0]) standardHost 8

/-- The frame of one function is about to be replaced, above that of the other. -/
def handed : Machine := (runHanding untilTailCall).after (.create {})

theorem occurs_handed : handed.Occurs standardHost { wakes := true } :=
  .running (.created {}) (.serves (serves_runHanding _ rfl)) (eq_after_of_isCut (by decide +kernel))

theorem frames_handed : handed.fiber.stack.frames.map (fun frame =>
    (frame.base, frame.top, frame.isRoot, frame.target)) =
      #[(0, 6, true, none), (4, 8, false, some 3)] := by
  decide +kernel

theorem depth_handed : handed.fiber.stack.depth = 2 :=
  Array.size_map.symm.trans (congrArg Array.size frames_handed)

theorem frame_handed {index : Nat} {frame : Frame}
    (found : handed.fiber.stack.frames[index]? = some frame) :
    #[(0, 6, true, none), (4, 8, false, some 3)][index]? =
      some (frame.base, frame.top, frame.isRoot, frame.target) := by
  rw [← frames_handed, Array.getElem?_map, found]
  rfl

theorem rooted_handed : handed.fiber.activity.Rooted 0 := by
  intro index frame _ found
  have within : index < handed.fiber.stack.depth := (Array.getElem?_eq_some_iff.mp found).1
  have known := frame_handed found
  rw [depth_handed] at within
  obtain rfl | rfl : index = 0 ∨ index = 1 := by omega
  · simp_all
  · simp_all

theorem calm_handed : handed.fiber.activity.Calm { wakes := true } := by
  have state : handed.fiber.state = .running := by decide +kernel
  exact fun _ asleep => absurd (state.symm.trans asleep) (by decide)

theorem replaces_handed {frame : Frame}
    (current : (fetch.after handed).fiber.stack.current? = some frame) :
    (fetch.after handed).Replaces frame ((fetch.after handed).heap.get (⟨1⟩ : Ref .closure)) 1 := by
  have function : ((fetch.after handed).heap.get (⟨1⟩ : Ref .closure)).routine.isGenerator = false ∧
      ((fetch.after handed).heap.get (⟨1⟩ : Ref .closure)).routine.accepts 1 = true := by
    decide +kernel
  have traps : (fetch.after handed).fiber.traps.isEmpty = true := by decide +kernel
  have plain : (fetch.after handed).fiber.stack.current?.all fun frame =>
      frame.generator.isNone := by
    decide +kernel
  refine ⟨function.1, function.2, ?_, fun trap member => ?_⟩
  · rw [current] at plain
    exact Option.isNone_iff_eq_none.mp plain
  · rw [List.isEmpty_iff.mp traps] at member
    cases member

theorem tail_calls_handing :
    let turn := Exec.turn (standardEngine 8) 0
    let last := fetch.after (turn.after (turn.after handed))
    (step (standardEngine 8) (some ⟨.tailCall, 2, 1, 3, 1⟩)).Meets (fetch.after handed)
        (fun _ after => after.fiber.stack.depth = 2) (fun fault _ => fault = .stackOverflow)
        (fun _ => False) ∧
      (step (standardEngine 8) (some ⟨.ret, 0, 1, 0, 0⟩)).Meets last
        (fun flow after => flow = .proceed ∧ after.fiber.stack.get 3 = .integer 9)
        (fun _ _ => False) (fun _ => False) := by
  intro turn last
  obtain ⟨tails, concludes, sound⟩ := tail_calls serves_standardHost rfl
  have ready := sound handed occurs_handed
  obtain ⟨first, there⟩ : ∃ first, handed.fiber.stack.frames[1]? = some first :=
    ⟨_, Array.getElem?_eq_getElem (Nat.lt_of_lt_of_eq Nat.one_lt_two depth_handed.symm)⟩
  have known : (4, 8, false, some 3) = (first.base, first.top, first.isRoot, first.target) :=
    Option.some.inj (frame_handed there)
  obtain ⟨base, known⟩ := Prod.mk.inj known
  obtain ⟨isRoot, target⟩ := Prod.mk.inj (Prod.mk.inj known).2
  refine ⟨?_, ?_⟩
  · have fetched : fetch handed = .ok (some ⟨.tailCall, 2, 1, 3, 1⟩) (fetch.after handed) :=
      eq_after_of_value? (by decide +kernel)
    obtain ⟨frame, ip, current, now, same, _⟩ := current_of_fetch fetched
    have place := Machine.getElem?_of_current current
    rw [depth_handed] at place
    obtain rfl := Option.some.inj (there.symm.trans place)
    have tail := tails handed _ _ _ ready fetched rfl now
    have callee : (fetch.after handed).fiber.stack.get 5 = .closure ⟨1⟩ := by decide +kernel
    have here : (fetch.after handed).fiber.stack.get (first.base +
        (Instruction.lowByte (⟨.tailCall, 2, 1, 3, 1⟩ : Instruction).wide).toNat) =
          .closure ⟨1⟩ := by
      rw [← base]
      exact callee
    refine (tail.replaces (standardEngine 8) ⟨1⟩ here (replaces_handed now)).mono
      (fun _ after replaced => ?_) (fun _ _ => id) fun _ => id
    have frames : after.fiber.stack.frames = _ := congrArg Activity.frames replaced.2.activity
    rw [Stack.depth, frames, Array.size_push, Array.size_pop,
      show (fetch.after handed).fiber.stack.frames.size = 2 from same.trans depth_handed]
  · let entered := turn.after handed
    let returning := turn.after entered
    have enters : Exec.turn (.ofHost standardHost 8) 0 handed = .ok none entered :=
      eq_after_of_value? (by decide +kernel)
    have loads : Exec.turn (.ofHost standardHost 8) 0 entered = .ok none returning :=
      eq_after_of_value? (by decide +kernel)
    have deep : returning.fiber.stack.depth = 2 := by decide +kernel
    have stays : Stays standardHost 0 1 handed returning :=
      .turned enters (by decide +kernel) (.turned loads (by decide +kernel) (.refl _))
    have fetched : fetch returning = .ok (some ⟨.ret, 0, 1, 0, 0⟩) last :=
      eq_after_of_value? (by decide +kernel)
    have returned : last.returned? (some ⟨.ret, 0, 1, 0, 0⟩) = some (.integer 9) := by
      decide +kernel
    obtain ⟨below, frame, current, height, _, hands⟩ := concludes handed returning last first 0 1
      _ _ ⟨ready, calm_handed, rooted_handed⟩ (Nat.zero_le 1) there stays deep fetched returned
    have caller : ∃ caller, (last.quit frame).fiber.stack.current? = some caller ∧
        caller.base = 0 ∧ caller.top = 6 := by
      obtain ⟨caller, lowest⟩ : ∃ caller, handed.fiber.stack.frames[0]? = some caller :=
        ⟨_, Array.getElem?_eq_getElem (Nat.lt_of_lt_of_eq Nat.zero_lt_two depth_handed.symm)⟩
      have known : (0, 6, true, none) = (caller.base, caller.top, caller.isRoot, caller.target) :=
        Option.some.inj (frame_handed lowest)
      obtain ⟨bottom, known⟩ := Prod.mk.inj known
      refine ⟨caller, ?_, bottom.symm, (Prod.mk.inj known).1.symm⟩
      have size : last.fiber.stack.frames.size = 2 := height
      show last.fiber.stack.frames.pop.back? = some caller
      rw [Array.back?_eq_getElem?, Array.getElem?_pop, Array.size_pop, size, if_pos (by decide)]
      exact (below 0 Nat.one_pos).trans lowest
    obtain ⟨caller, lower, bottom, top⟩ := caller
    refine (hands (standardEngine 8)).mono (fun flow after given => ?_) (fun fault _ missed => ?_)
      fun _ => id
    · obtain ⟨goesOn, other, same, _, slots⟩ := given.inner isRoot.symm
      obtain rfl := Option.some.inj (lower.symm.trans same)
      refine ⟨goesOn, ?_⟩
      rw [slots 3 (by omega), ← target, bottom]
      exact if_pos rfl
    · obtain ⟨_, other, number, same, waits, outside⟩ := missed
      obtain rfl := Option.some.inj (lower.symm.trans same)
      obtain rfl : 3 = number := Option.some.inj (target.trans waits)
      rw [top, bottom] at outside
      exact absurd outside (by decide)

end ScriptMachine
