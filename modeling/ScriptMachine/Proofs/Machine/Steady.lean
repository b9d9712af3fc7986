import ScriptMachine.Proofs.Machine.Evolution
import ScriptMachine.Proofs.Machine.Journal
import ScriptMachine.Proofs.Machine.Meets

/-!
# Steady computations

A computation is steady if it keeps the machine sound and leaves alone what the running fiber is
doing, which fibers wait, and the registers below some place or all of them; a fault that it fails
with is the one that is pending then.  Steady computations compose, so that whatever is put together
of accesses to objects and registers, calls that wait for their result and faults that say nothing
about the code is steady.
-/

namespace ScriptMachine

open Exec

variable {α β : Type}

/-! ## Registers that are left alone -/

/-- The registers that a computation leaves alone. -/
inductive Extent where
  /-- All of them, and their number. -/
  | all
  /-- Those below a place; their number does not decrease. -/
  | below (floor : Nat)

namespace Extent

/-- The registers are in use. -/
def Fits : Extent → Stack → Prop
  | .all, _ => True
  | .below floor, stack => floor ≤ stack.size

/-- The registers are the same. -/
def Same : Extent → Stack → Stack → Prop
  | .all, before, after => after.slots = before.slots
  | .below floor, before, after =>
    before.size ≤ after.size ∧ ∀ place < floor, after.slots[place]? = before.slots[place]?

variable {extent : Extent} {before between after : Stack}

theorem Same.refl (extent : Extent) (stack : Stack) : extent.Same stack stack := by
  cases extent with
  | all => exact rfl
  | below floor => exact ⟨Nat.le_refl _, fun _ _ => rfl⟩

theorem Same.trans (first : extent.Same before between) (second : extent.Same between after) :
    extent.Same before after := by
  cases extent with
  | all => exact Eq.trans second first
  | below floor =>
      exact ⟨Nat.le_trans first.1 second.1,
        fun place low => (second.2 place low).trans (first.2 place low)⟩

theorem Same.size_le (same : extent.Same before after) : before.size ≤ after.size := by
  cases extent with
  | all => exact Nat.le_of_eq (congrArg Array.size same).symm
  | below floor => exact same.1

theorem Same.fits (same : extent.Same before after) (fits : extent.Fits before) :
    extent.Fits after := by
  cases extent with
  | all => trivial
  | below floor => exact Nat.le_trans fits same.size_le

theorem Same.of_all (same : Same .all before after) (extent : Extent) :
    extent.Same before after := by
  cases extent with
  | all => exact same
  | below floor =>
      refine ⟨Nat.le_of_eq (congrArg Array.size same).symm, fun place _ => ?_⟩
      exact congrArg (·[place]?) same

theorem Same.lower {low high : Nat} (same : Same (.below high) before after) (le : low ≤ high) :
    Same (.below low) before after :=
  ⟨same.1, fun place below => same.2 place (Nat.lt_of_lt_of_le below le)⟩

/-- Registers from the number of those in use on have been added and dropped again. -/
theorem same_truncate (le : before.size ≤ after.size)
    (slots : ∀ place < before.size, after.slots[place]? = before.slots[place]?) :
    Same .all before (after.truncate before.size) := by
  refine Array.ext_getElem? fun place => ?_
  by_cases within : place < before.size
  · rw [Stack.slot_truncate after within]
    exact slots place within
  · have cut : (after.truncate before.size).slots.size ≤ place := by
      have size := after.size_truncate before.size
      rw [Stack.size] at size
      omega
    rw [Array.getElem?_eq_none cut, Array.getElem?_eq_none (Nat.le_of_not_lt within)]

end Extent

/-! ## Steadiness -/

/-- The running fiber does the same, and registers are left alone. -/
structure Machine.Keeps (extent : Extent) (before after : Machine) : Prop where
  /-- The machine is sound. -/
  sound : after.Sound
  /-- The running fiber does the same. -/
  activity : after.fiber.activity = before.fiber.activity
  /-- Registers are left alone. -/
  slots : extent.Same before.fiber.stack after.fiber.stack
  /-- The same fibers wait. -/
  waiting : after.waiting = before.waiting
  /-- As many error handlers are being run. -/
  reporting : after.reporting = before.reporting

/-- A computation has come to its result. -/
structure Machine.Returns (manners : Manners) (extent : Extent) (before after : Machine) :
    Prop where
  /-- The running fiber does the same. -/
  keeps : before.Keeps extent after
  /-- No fault is pending. -/
  logs : before.Logs manners none after

/-- A computation has failed. -/
structure Machine.Fails (manners : Manners) (extent : Extent) (before : Machine) (fault : Fault)
    (after : Machine) : Prop where
  /-- The running fiber does the same. -/
  keeps : before.Keeps extent after
  /-- The fault is pending. -/
  pends : before.Pends manners fault after

/-- A computation is in the middle. -/
structure Machine.Reaches (manners : Manners) (before after : Machine) : Prop where
  /-- The machine is sound. -/
  ready : after.Ready
  /-- Every fault that a live trap could catch has been answered. -/
  logs : manners.catches = false → ∃ added, after.incidents = added ++ before.incidents ∧
    Settled added

namespace Machine

variable {manners : Manners} {extent : Extent} {before machine after : Machine} {fault : Fault}

theorem Keeps.current (keeps : before.Keeps extent after) :
    after.fiber.stack.current? = before.fiber.stack.current? :=
  congrArg (fun activity => activity.frames.back?) keeps.activity

theorem Keeps.ready (keeps : before.Keeps extent after) (ready : before.Ready) : after.Ready := by
  refine ⟨keeps.sound, fun frame current => ?_⟩
  rw [keeps.current] at current
  exact Nat.le_trans (ready.shaped frame current) keeps.slots.size_le

theorem Keeps.trans (first : before.Keeps extent machine) (second : machine.Keeps extent after) :
    before.Keeps extent after where
  sound := second.sound
  activity := second.activity.trans first.activity
  slots := first.slots.trans second.slots
  waiting := second.waiting.trans first.waiting
  reporting := second.reporting.trans first.reporting

theorem Keeps.of_all (keeps : before.Keeps .all after) (extent : Extent) :
    before.Keeps extent after :=
  ⟨keeps.sound, keeps.activity, keeps.slots.of_all extent, keeps.waiting, keeps.reporting⟩

theorem Keeps.lower {low high : Nat} (keeps : before.Keeps (.below high) after) (le : low ≤ high) :
    before.Keeps (.below low) after :=
  ⟨keeps.sound, keeps.activity, keeps.slots.lower le, keeps.waiting, keeps.reporting⟩

theorem Sound.keeps (sound : machine.Sound) : machine.Keeps extent machine :=
  ⟨sound, rfl, .refl extent _, rfl, rfl⟩

theorem Sound.returns (sound : machine.Sound) : machine.Returns manners extent machine :=
  ⟨sound.keeps, logs_of_eq rfl⟩

theorem Returns.trans (first : before.Returns manners extent machine)
    (second : machine.Returns manners extent after) : before.Returns manners extent after :=
  ⟨first.keeps.trans second.keeps,
    first.logs.trans first.keeps.waiting first.keeps.reporting second.logs⟩

theorem Returns.fails (first : before.Returns manners extent machine)
    (second : machine.Fails manners extent fault after) :
    before.Fails manners extent fault after :=
  ⟨first.keeps.trans second.keeps,
    second.pends.trans first.logs first.keeps.waiting first.keeps.reporting⟩

theorem Reaches.trans (begun : before.Logs manners none machine)
    (reaches : machine.Reaches manners after) : before.Reaches manners after := by
  refine ⟨reaches.ready, fun honest => ?_⟩
  obtain ⟨first, joined, ordered⟩ := begun honest
  obtain ⟨second, further, settled⟩ := reaches.logs honest
  refine ⟨second ++ first, ?_, settled.append (ordered.settled (by simp))⟩
  rw [further, joined, List.append_assoc]

theorem Returns.reaches (first : before.Returns manners extent machine)
    (reaches : machine.Reaches manners after) : before.Reaches manners after :=
  reaches.trans first.logs

theorem Ready.reaches (ready : machine.Ready) : machine.Reaches manners machine :=
  ⟨ready, fun _ => ⟨[], rfl, settled_nil⟩⟩

/-- The machines differ at most in registers, values and counts. -/
structure Alike (extent : Extent) (before after : Machine) : Prop where
  /-- The heap is the same. -/
  heap : after.heap = before.heap
  /-- The running fiber does the same. -/
  activity : after.fiber.activity = before.fiber.activity
  /-- Registers are left alone. -/
  slots : extent.Same before.fiber.stack after.fiber.stack
  /-- There are not too many of them. -/
  room : before.fiber.Roomy → after.fiber.Roomy
  /-- The same fibers wait. -/
  waiting : after.waiting = before.waiting
  /-- The function bodies are the same. -/
  routines : after.routines = before.routines
  /-- As many error handlers are being run. -/
  reporting : after.reporting = before.reporting
  /-- No incident has been added. -/
  incidents : after.incidents = before.incidents

theorem Sound.alike (sound : before.Sound) (alike : before.Alike extent after) :
    before.Returns manners extent after := by
  refine ⟨⟨⟨?_, ⟨?_, alike.room sound.fiber.room⟩, ?_, ?_, ?_⟩, alike.activity, alike.slots,
    alike.waiting, alike.reporting⟩, logs_of_eq alike.incidents⟩
  · rw [alike.heap]
    exact sound.heap
  · rw [alike.heap, alike.activity]
    exact sound.fiber.activity
  · rw [alike.heap, alike.waiting]
    exact sound.waiting
  · rw [alike.routines]
    exact sound.routines
  · rw [alike.incidents]
    exact sound.incidents

theorem Sound.truncate (sound : machine.Sound) (size : Nat) :
    (machine.mapStack (·.truncate size)).Sound := by
  refine ⟨sound.heap, ⟨sound.fiber.activity, ?_⟩, sound.waiting, sound.routines, sound.incidents⟩
  show (machine.fiber.stack.truncate size).size ≤ machine.fiber.stack.maxSlots
  rw [Stack.size_truncate]
  exact Nat.le_trans (Nat.min_le_left _ _) sound.fiber.room

/-- What a fiber counts and which state it is in does not matter. -/
theorem Sound.changeFiber (sound : machine.Sound) {change : Fiber → Fiber}
    (stack : (change machine.fiber).stack = machine.fiber.stack)
    (traps : (change machine.fiber).traps = machine.fiber.traps) :
    (machine.mapFiber change).Sound := by
  have activity := sound.fiber.activity
  refine ⟨sound.heap, ⟨⟨?_, ?_, ?_, ?_⟩, ?_⟩, sound.waiting, sound.routines, sound.incidents⟩
  · simp only [Machine.mapFiber, Fiber.activity, stack]
    exact activity.frames
  · simp only [Machine.mapFiber, Fiber.activity, stack]
    exact activity.stacked
  · simp only [Machine.mapFiber, Fiber.activity, traps]
    exact activity.ordered
  · simp only [Machine.mapFiber, Fiber.activity, Activity.Owns, stack, traps]
    exact activity.owned
  · simp only [Machine.mapFiber, Fiber.Roomy, stack]
    exact sound.fiber.room

theorem Ready.changeFiber (ready : machine.Ready) {change : Fiber → Fiber}
    (stack : (change machine.fiber).stack = machine.fiber.stack)
    (traps : (change machine.fiber).traps = machine.fiber.traps) :
    (machine.mapFiber change).Ready := by
  refine ⟨ready.sound.changeFiber stack traps, ?_⟩
  simp only [Machine.mapFiber, Fiber.Shaped, stack]
  exact ready.shaped

/-- A sound machine with a sound heap. -/
theorem Keeps.setHeap {heap : Heap} (sound : Machine.Sound { machine with heap }) :
    machine.Returns manners extent { machine with heap } :=
  ⟨⟨sound, rfl, .refl extent _, rfl, rfl⟩, logs_of_eq rfl⟩

theorem Sound.note (sound : machine.Sound) {occurrence : Occurrence} {fault : Fault}
    (allowed : (machine.incident occurrence fault).Allowed) :
    machine.Keeps extent (machine.note occurrence fault) := by
  refine ⟨⟨sound.heap, sound.fiber, sound.waiting, sound.routines, ?_⟩, rfl, .refl extent _, rfl,
    rfl⟩
  intro incident member
  rcases List.mem_cons.mp member with rfl | member
  · exact allowed
  · exact sound.incidents incident member

theorem Sound.fails (sound : machine.Sound) {fault : Fault}
    (allowed : (machine.incident .raised fault).Allowed) :
    machine.Fails manners extent fault (machine.record fault) :=
  ⟨sound.note allowed, sound.pends fault⟩

end Machine

/-! ## Computations that call nothing -/

/-- The computation calls nothing and leaves registers and all objects that can be run alone. -/
def Exec.Direct (manners : Manners) (extent : Extent) (action : Exec α) : Prop :=
  ∀ machine : Machine, machine.Sound → extent.Fits machine.fiber.stack →
    action.Meets machine
      (fun _ next => machine.Returns manners extent next ∧ machine.heap.Inert next.heap)
      (machine.Fails manners extent) (fun _ => False)

namespace Exec.Direct

variable {manners : Manners} {extent : Extent} {action : Exec α}

theorem bind {following : α → Exec β} (first : Direct manners extent action)
    (further : ∀ value, Direct manners extent (following value)) :
    Direct manners extent (action >>= following) := by
  intro machine sound fits
  refine (first machine sound fits).bind fun value next ⟨returns, inert⟩ => ?_
  refine (further value next returns.keeps.sound (returns.keeps.slots.fits fits)).mono ?_ ?_
    fun _ => id
  · exact fun _ _ later => ⟨returns.trans later.1, inert.trans later.2⟩
  · exact fun _ _ later => returns.fails later

theorem alike {look : Machine → α} {change : Machine → Machine}
    (alike : ∀ machine : Machine, extent.Fits machine.fiber.stack →
      machine.Alike extent (change machine)) :
    Direct manners extent fun machine => .ok (look machine) (change machine) :=
  fun machine sound fits =>
    ⟨sound.alike (alike machine fits), (alike machine fits).heap ▸ .refl⟩

theorem view (look : Machine → α) :
    Direct manners extent fun machine => .ok (look machine) machine :=
  alike fun _ _ => ⟨rfl, rfl, .refl extent _, id, rfl, rfl, rfl, rfl⟩

theorem pure (value : α) : Direct manners extent (Pure.pure value : Exec α) :=
  view fun _ => value

theorem raise {fault : Fault} (plain : fault.isPlain = true) :
    Direct manners extent (Exec.raise fault : Exec α) :=
  fun machine sound _ => sound.fails (machine.allowed_incident plain .raised)

theorem ofPlain {result : Except Fault α} (plain : Plain result) :
    Direct manners extent (Exec.ofExcept result) := by
  cases result with
  | ok value => exact pure value
  | error fault => exact raise plain

theorem forM {list : List β} {body : β → Exec Unit}
    (direct : ∀ item, Direct manners extent (body item)) :
    Direct manners extent (list.forM body) := by
  induction list with
  | nil => exact pure ()
  | cons first rest ih => exact (direct first).bind fun _ => ih

theorem newArray (values : Array Value) : Direct manners extent (Exec.newArray values) := by
  intro machine sound _
  have inert : machine.heap.Inert (@Heap.alloc .array machine.heap (Sequence.ofValues values)).2 :=
    .alloc _ rfl .refl
  exact ⟨Machine.Keeps.setHeap (sound.inert inert), inert⟩

variable {floor : Nat}

/-- Registers from a place on are changed where there is room for them. -/
theorem onRegisters {room : Stack → Bool} {change : Stack → Stack}
    (frames : ∀ stack, (change stack).frames = stack.frames)
    (maxSlots : ∀ stack, (change stack).maxSlots = stack.maxSlots)
    (size : ∀ stack, room stack = true → stack.size ≤ stack.maxSlots →
      (change stack).size ≤ stack.maxSlots)
    (slots : ∀ stack : Stack, floor ≤ stack.size →
      Extent.Same (.below floor) stack (change stack)) :
    Direct manners (.below floor) (Exec.requireRoom room >>= fun _ => Exec.onStack change) := by
  intro machine sound fits
  cases fit : room machine.fiber.stack with
  | false =>
      have result : (Exec.requireRoom room >>= fun _ => Exec.onStack change) machine =
          .error (.raised .stackOverflow) (machine.record .stackOverflow) := by
        simp [Exec.requireRoom, Exec.ofFiber, Bind.bind, EStateM.bind, fit, Exec.raise]
      rw [Meets, result]
      exact sound.fails (machine.allowed_incident rfl .raised)
  | true =>
      have result : (Exec.requireRoom room >>= fun _ => Exec.onStack change) machine =
          .ok () (machine.mapStack change) := by
        simp [Exec.requireRoom, Exec.ofFiber, Bind.bind, EStateM.bind, fit, Pure.pure, EStateM.pure,
          Exec.onStack]
      rw [Meets, result]
      refine ⟨sound.alike ⟨rfl, ?_, slots _ fits, fun roomy => ?_, rfl, rfl, rfl, rfl⟩, .refl⟩
      · simp only [Machine.mapStack, Fiber.activity, frames, maxSlots]
      · show (change machine.fiber.stack).size ≤ (change machine.fiber.stack).maxSlots
        rw [maxSlots]
        exact size _ fit roomy

theorem push (value : Value) : Direct manners (.below floor) (Exec.push value) := by
  refine onRegisters (fun _ => rfl) (fun _ => rfl)
    (fun stack room _ => stack.size_append_le value room) fun stack fits => ?_
  exact ⟨by simp, fun place low => stack.slot_append value (Nat.lt_of_lt_of_le low fits)⟩

theorem ensure (size : Nat) : Direct manners (.below floor) (Exec.ensure size) := by
  refine onRegisters (fun stack => stack.frames_grow size) (fun stack => stack.maxSlots_grow size)
    (fun stack => stack.size_grow_le) fun stack fits => ?_
  rw [Extent.Same, Stack.size_grow]
  exact ⟨Nat.le_max_left _ _, fun place low => stack.slot_grow size (Nat.lt_of_lt_of_le low fits)⟩

theorem setPlace {place : Nat} (above : floor ≤ place) (value : Value) :
    Direct manners (.below floor) (Exec.setPlace place value) := by
  refine onRegisters (fun stack => stack.frames_put place value)
    (fun stack => stack.maxSlots_put place value) (fun stack => stack.size_put_le value)
    fun stack fits => ?_
  rw [Extent.Same, Stack.size_put]
  refine ⟨Nat.le_max_left _ _, fun other low => ?_⟩
  exact stack.slot_put value (Nat.lt_of_lt_of_le low fits)
    (Nat.ne_of_gt (Nat.lt_of_lt_of_le low above))

theorem clearRange {start : Nat} (above : floor ≤ start) (stop : Nat) :
    Direct manners (.below floor) (Exec.clearRange start stop) := by
  refine alike fun machine _ => ⟨rfl, rfl, ?_, fun roomy => ?_, rfl, rfl, rfl, rfl⟩
  · refine ⟨Nat.le_of_eq (Stack.size_clearRange _ _ _).symm, fun place low => ?_⟩
    exact Stack.slot_clearRange _ stop (Nat.lt_of_lt_of_le low above)
  · show (machine.fiber.stack.clearRange start stop).size ≤ _
    rw [Stack.size_clearRange]
    exact roomy

theorem takeRange {start : Nat} (above : floor ≤ start) (stop : Nat) :
    Direct manners (.below floor) (Exec.takeRange start stop) :=
  (view _).bind fun _ => (clearRange above stop).bind fun _ => pure _

/-- What is known of a result is known of the machine it leads to. -/
theorem keeps {machine next : Machine} {value : α} (direct : Direct {} extent action)
    (sound : machine.Sound) (fits : extent.Fits machine.fiber.stack)
    (done : action machine = .ok value next) : machine.Keeps extent next := by
  have meets := direct machine sound fits
  rw [Meets, done] at meets
  exact meets.1.keeps

end Exec.Direct

/-! ## Computations that may call -/

/-- Wherever the running fiber does something given, the computation is steady. -/
def Exec.Steady (manners : Manners) (extent : Extent) (given : Activity → Prop)
    (action : Exec α) : Prop :=
  ∀ machine : Machine, machine.Ready → extent.Fits machine.fiber.stack →
    given machine.fiber.activity →
    action.Meets machine (fun _ => machine.Returns manners extent)
      (machine.Fails manners extent) (machine.Reaches manners)

theorem Exec.Direct.steady {manners : Manners} {extent : Extent} {given : Activity → Prop}
    {action : Exec α} (direct : Exec.Direct manners extent action) :
    Exec.Steady manners extent given action :=
  fun machine ready fits _ =>
    (direct machine ready.sound fits).mono (fun _ _ done => done.1) (fun _ _ => id)
      fun _ => False.elim

namespace Exec.Steady

variable {manners : Manners} {extent : Extent} {given : Activity → Prop} {action : Exec α}

theorem mono {wider : Activity → Prop} (steady : Steady manners extent wider action)
    (wide : ∀ activity, given activity → wider activity) : Steady manners extent given action :=
  fun machine ready fits holds => steady machine ready fits (wide _ holds)

theorem of_all (steady : Steady manners .all given action) (extent : Extent) :
    Steady manners extent given action := by
  intro machine ready _ holds
  refine (steady machine ready trivial holds).mono ?_ ?_ fun _ => id
  · exact fun _ _ returns => ⟨returns.keeps.of_all extent, returns.logs⟩
  · exact fun _ _ fails => ⟨fails.keeps.of_all extent, fails.pends⟩

theorem bind {following : α → Exec β} (first : Steady manners extent given action)
    (further : ∀ value, Steady manners extent given (following value)) :
    Steady manners extent given (action >>= following) := by
  intro machine ready fits holds
  refine (first machine ready fits holds).bind fun value next returns => ?_
  refine (further value next (returns.keeps.ready ready) (returns.keeps.slots.fits fits)
    (returns.keeps.activity ▸ holds)).mono ?_ ?_ ?_
  · exact fun _ _ later => returns.trans later
  · exact fun _ _ later => returns.fails later
  · exact fun _ later => returns.reaches later

theorem view (look : Machine → α) :
    Steady manners extent given fun machine => .ok (look machine) machine :=
      (Direct.view look).steady

theorem pure (value : α) : Steady manners extent given (Pure.pure value : Exec α) :=
  (Direct.pure value).steady

theorem raise {fault : Fault} (plain : fault.isPlain = true) :
    Steady manners extent given (Exec.raise fault : Exec α) := (Direct.raise plain).steady

theorem map (steady : Steady manners extent given action) (image : α → β) :
    Steady manners extent given (image <$> action) := by
  have same : image <$> action = action >>= fun value => Pure.pure (image value) :=
    map_eq_pure_bind ..
  rw [same]
  exact steady.bind fun value => pure (image value)

theorem discard (steady : Steady manners extent given action) :
    Steady manners extent given (Functor.discard action) := steady.map _

theorem exhaust : Steady manners extent given (Exec.exhaust : Exec α) :=
  fun _ ready _ _ => ready.reaches

theorem keeping (indices : List Nat) (steady : Steady manners extent given action) :
    Steady manners extent given (Exec.keeping indices action) := by
  have note : Exec.Direct manners extent (modify fun machine =>
      { machine with held := indices ++ machine.held } : Exec Unit) :=
    .alike fun _ _ => ⟨rfl, rfl, .refl extent _, id, rfl, rfl, rfl, rfl⟩
  refine (view id).bind fun former => note.steady.bind fun _ machine ready fits holds => ?_
  refine (steady machine ready fits holds).ensuring (fun _ next returns => ?_)
    fun fault next fails => ?_
  · exact returns.trans (returns.keeps.sound.alike
      ⟨rfl, rfl, .refl extent _, id, rfl, rfl, rfl, rfl⟩)
  · have kept : next.Returns manners extent { next with held := former.held } :=
      fails.keeps.sound.alike ⟨rfl, rfl, .refl extent _, id, rfl, rfl, rfl, rfl⟩
    refine ⟨fails.keeps.trans kept.keeps, fails.pends.settle rfl fun raised remains => ?_⟩
    exact remains.same rfl rfl (fun _ _ _ _ => rfl) rfl id

theorem holding (values : List Value) (steady : Steady manners extent given action) :
    Steady manners extent given (Exec.holding values action) := steady.keeping _

end Exec.Steady

/-! ## Calls -/

namespace Activity

/-- Host functions that may wake the running fiber have nothing to wake. -/
def Calm (manners : Manners) (activity : Activity) : Prop :=
  manners.wakes = true → activity.state ≠ .suspended

/-- The window of the current frame starts at a place or before. -/
def Under (base : Nat) (activity : Activity) : Prop :=
  ∀ frame, activity.frames.back? = some frame → frame.base ≤ base

/-- The window of the current frame starts at a place or behind. -/
def Over (floor : Nat) (activity : Activity) : Prop :=
  ∃ frame, activity.frames.back? = some frame ∧ floor ≤ frame.base

end Activity

/-- Calls of the engine are steady. -/
def Engine.SteadyCalls (engine : Engine) (manners : Manners) : Prop :=
  ∀ callee base count, Exec.Steady manners (.below base)
    (fun activity => activity.Calm manners ∧ activity.Under base) (engine.callAt callee base count)

namespace Exec.Steady

variable {manners : Manners} {extent : Extent} {given : Activity → Prop} {floor : Nat}

theorem setRegister (above : ∀ activity, given activity → activity.Over floor) (number : UInt8)
    (value : Value) : Steady manners (.below floor) given (Exec.setRegister number value) := by
  intro machine ready fits holds
  refine Meets.ofFiber_bind ((Direct.setPlace ?_ value).steady machine ready fits holds)
  obtain ⟨frame, current, high⟩ := above _ holds
  have base : machine.fiber.base = frame.base := by
    have current : machine.fiber.stack.current? = some frame := current
    rw [Fiber.base, current]
    rfl
  rw [base]
  exact Nat.le_add_right_of_le high

theorem deliver (above : ∀ activity, given activity → activity.Over floor) (target : Option UInt8)
    (value : Value) : Steady manners (.below floor) given (Exec.deliver target value) := by
  cases target with
  | none => exact pure ()
  | some number => exact setRegister above number value

theorem deliverDirect (above : ∀ activity, given activity → activity.Over floor)
    (target : Option UInt8) (value : Value) :
    Steady manners (.below floor) given (Access.direct.deliver target value) := by
  cases target with
  | none => exact pure ()
  | some number => exact setRegister above number value

theorem pushArguments (this : Value) (arguments : List Value) :
    Steady manners (.below floor) given (Engine.pushArguments this arguments) :=
  ((Direct.push this).bind fun _ => .forM .push).steady

/-- A call in registers behind those in use leaves all registers alone. -/
theorem callSync_of_callAt {engine : Engine} {callee : Value}
    (calls : ∀ base count, Steady manners (.below base)
      (fun activity => given activity ∧ activity.Under base) (engine.callAt callee base count))
    (this : Value) (arguments : List Value) :
    Steady manners extent given (engine.callSync callee this arguments) := by
  refine of_all (holding _ fun machine ready _ holds => Meets.ofFiber_bind ?_) extent
  let base := machine.fiber.stack.size
  have within : Extent.Fits (.below base) machine.fiber.stack := Nat.le_refl _
  have under : machine.fiber.activity.Under base := fun frame current =>
    Nat.le_trans (Nat.le_add_right _ _) (ready.shaped frame current)
  have calling : Steady manners (.below base)
      (fun activity => given activity ∧ activity.Under base) (do
        Engine.pushArguments this arguments
        engine.callAt callee base (arguments.length + 1)) :=
    (pushArguments this arguments).bind fun _ => calls base _
  have called := calling machine ready within ⟨holds, under⟩
  have back : ∀ next : Machine, machine.Keeps (.below base) next →
      machine.Keeps .all (next.mapStack (·.truncate base)) := fun next keeps =>
    ⟨keeps.sound.truncate base, keeps.activity,
      Extent.same_truncate keeps.slots.1 keeps.slots.2, keeps.waiting, keeps.reporting⟩
  refine called.ensuring (fun _ next returns => ⟨back next returns.keeps, returns.logs.same rfl⟩) ?_
  intro fault next fails
  refine ⟨back next fails.keeps, fails.pends.settle rfl fun raised remains => ?_⟩
  refine remains.same rfl rfl (fun frame current place low => ?_) rfl id
  rw [fails.keeps.current] at current
  exact Stack.get_truncate _ (Nat.lt_of_lt_of_le low (ready.shaped frame current))

theorem callSync {engine : Engine} (calls : engine.SteadyCalls manners)
    (calm : ∀ activity, given activity → activity.Calm manners) (callee this : Value)
    (arguments : List Value) :
    Steady manners extent given (engine.callSync callee this arguments) :=
  callSync_of_callAt (fun base count => (calls callee base count).mono fun _ holds =>
    ⟨calm _ holds.1, holds.2⟩) this arguments

/-- Operations on values leave all registers alone, if the calls that they make do. -/
theorem operation_of_callAt {engine : Engine}
    (calls : ∀ callee base count, Steady manners (.below base)
      (fun activity => given activity ∧ activity.Under base) (engine.callAt callee base count))
    {action : Exec α} (operates : engine.Operates action) :
    Steady manners extent given action := by
  induction operates with
  | change result plain inert =>
      intro machine ready _ _
      rw [Meets, Exec.exchange]
      cases made : result machine with
      | error fault =>
          have allowed : Plain (result machine) := plain machine
          rw [made] at allowed
          exact ready.sound.fails (machine.allowed_incident allowed .raised)
      | ok made' =>
          obtain ⟨value, heap⟩ := made'
          exact Machine.Keeps.setHeap (ready.sound.inert (inert machine value heap made))
  | bind _ _ first further => exact first.bind further
  | keeping indices _ ih => exact ih.keeping indices
  | callSync callee this arguments => exact callSync_of_callAt (calls callee) this arguments

theorem operates {engine : Engine} (calls : engine.SteadyCalls manners)
    (calm : ∀ activity, given activity → activity.Calm manners) {action : Exec α}
    (operates : engine.Operates action) : Steady manners extent given action :=
  operation_of_callAt (fun callee base count => (calls callee base count).mono fun _ holds =>
    ⟨calm _ holds.1, holds.2⟩) operates

theorem operation {engine : Engine} (calls : engine.SteadyCalls manners)
    (calm : ∀ activity, given activity → activity.Calm manners) {action : Exec α}
    (parallel : engine.Parallel engine action action) : Steady manners extent given action :=
  operates calls calm parallel.operates

/-- Operations that call nothing leave all registers alone. -/
theorem quiet {action : Exec α} (operates : Engine.spent.Operates action) :
    Steady manners extent given action := operation_of_callAt (fun _ _ _ => exhaust) operates

end Exec.Steady

end ScriptMachine
