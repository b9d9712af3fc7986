import ScriptMachine.Proofs.Bytecode.Accepted
import ScriptMachine.Proofs.Machine.Operations
import ScriptMachine.Proofs.Machine.Registers

/-!
# Sound machines

A machine is sound when everything it runs or may run later belongs to an accepted prototype: the
closures in its heap, the frames and traps of its fibers, and the activations that generators and
threads keep for later.  The heap matters for a frame only through the generator that the frame
runs, which has to be a generator of the same function.  A thread that is not being run is at rest:
it has nothing to do, or it is suspended with nothing else active.
-/

namespace ScriptMachine

/-! ## Faults -/

/-- The fault is raised where it comes from. -/
def Occurrence.raises : Occurrence → Bool
  | .raised | .replaced _ => true
  | .surfaced | .caught _ | .reported => false

/-- Accepted code can run into the fault where it is raised: the code is in order, and a register
without a byte number is one of a frame of more than 256 registers. -/
def Incident.Allowed (incident : Incident) : Prop :=
  incident.occurrence.raises = true → incident.fault.isStructural = false ∧
    (incident.fault.exceedsBytes = true →
      ∃ frame, incident.fiber.stack.current? = some frame ∧
        256 < frame.closure.routine.stackSize)

theorem Machine.allowed_incident (machine : Machine) {fault : Fault} (plain : fault.isPlain = true)
    (occurrence : Occurrence) : (machine.incident occurrence fault).Allowed := by
  obtain ⟨ordered, bytes⟩ : fault.isStructural = false ∧ fault.exceedsBytes = false := by
    simpa [Fault.isPlain] using plain
  exact fun _ => ⟨ordered, fun exceeds => absurd (bytes.symm.trans exceeds) (by decide)⟩

/-! ## Closures -/

/-- The function body is that of an accepted prototype. -/
def Routine.Sound (routine : Routine) : Prop :=
  ∃ prototype : Prototype, prototype.Accepted ∧ routine = Routine.load prototype

/-- The function body is sound and all its captured variables are there. -/
structure Closure.Sound (closure : Closure) : Prop where
  /-- The body is that of an accepted prototype. -/
  routine : closure.routine.Sound
  /-- There is a cell for every captured variable. -/
  cells : closure.cells.size = closure.routine.captures.size

theorem Routine.sound_default : (default : Routine).Sound := by
  let prototype : Prototype := { name := "", parameters := #[], stackSize := 0 }
  have accepted : prototype.Accepted := by
    refine .intro (Nat.le_refl _) ?_ ?_ ?_ ?_
    · simp [prototype]
    · simp [prototype]
    · simp [prototype]
    · simp [prototype]
  refine ⟨prototype, accepted, ?_⟩
  rw [Routine.load, Routine.loadAll, Array.map_empty]
  rfl

theorem Closure.sound_default : (default : Closure).Sound := ⟨Routine.sound_default, rfl⟩

/-! ## Activities -/

/-- What a fiber is doing, its registers and what it has done apart. -/
structure Activity where
  /-- The frames, the current one last. -/
  frames : Array Frame
  /-- The largest number of registers. -/
  maxSlots : Nat
  /-- The error handlers, the innermost first. -/
  traps : List Trap
  /-- The host functions it is inside of. -/
  natives : List NativeFrame
  /-- How many run loops and host functions are active. -/
  nativeCalls : Nat
  /-- How many run loops are active. -/
  nesting : Nat
  /-- How many calls that wait for their result are active. -/
  syncCalls : Nat
  /-- What it is doing. -/
  state : FiberState
  /-- Where it goes on, if it is suspended. -/
  suspended : Option SuspendPoint

/-- What a fiber is doing. -/
def Fiber.activity (fiber : Fiber) : Activity where
  frames := fiber.stack.frames
  maxSlots := fiber.stack.maxSlots
  traps := fiber.traps
  natives := fiber.natives
  nativeCalls := fiber.nativeCalls
  nesting := fiber.nesting
  syncCalls := fiber.syncCalls
  state := fiber.state
  suspended := fiber.suspended

/-- The generator is one of a function, if it still exists. -/
def Heap.Runs (heap : Heap) (ref : Ref .generator) (routine : Routine) : Prop :=
  ref.index < heap.size ∧ ∀ generator : Generator, heap.get? ref = some generator →
    ∃ closure : Closure, heap.get? generator.closure = some closure ∧ closure.routine = routine

/-- The frame belongs to an accepted prototype. -/
structure Frame.SoundIn (heap : Heap) (maxSlots : Nat) (frame : Frame) : Prop where
  /-- Its closure is sound. -/
  closure : frame.closure.Sound
  /-- It stands at an instruction or behind the last one. -/
  ip : frame.ip ≤ frame.closure.routine.code.size
  /-- Its window has room. -/
  room : frame.top ≤ maxSlots
  /-- Its generator is one of the same function. -/
  generator : ∀ ref, frame.generator = some ref → heap.Runs ref frame.closure.routine

/-- The windows of inner frames start where those of outer frames start, or later. -/
def Stacked (frames : Array Frame) : Prop :=
  ∀ (low high : Nat) (outer inner : Frame), low ≤ high → frames[low]? = some outer →
    frames[high]? = some inner → outer.base ≤ inner.base

/-- The trap leads to an instruction of the frame and keeps its window. -/
structure Trap.Guards (trap : Trap) (frame : Frame) : Prop where
  /-- The handler is an instruction of the function. -/
  ip : trap.ip < frame.closure.routine.code.size
  /-- The error goes to a register of the frame. -/
  target : trap.target.toNat < frame.closure.routine.stackSize
  /-- The window is kept. -/
  window : frame.top ≤ trap.stackTop

namespace Activity

/-- The trap belongs to a frame. -/
def Owns (activity : Activity) (trap : Trap) : Prop :=
  ∃ frame, activity.frames[trap.frame]? = some frame ∧ trap.Guards frame

/-- Frames and traps belong to accepted prototypes, and the traps of inner frames come first. -/
structure SoundIn (heap : Heap) (activity : Activity) : Prop where
  /-- The frames are sound. -/
  frames : ∀ frame ∈ activity.frames, frame.SoundIn heap activity.maxSlots
  /-- Their windows lie one above the other. -/
  stacked : Stacked activity.frames
  /-- The traps stand in order. -/
  ordered : activity.traps.Pairwise fun inner outer => outer.frame ≤ inner.frame
  /-- Every trap belongs to a frame. -/
  owned : ∀ trap ∈ activity.traps, activity.Owns trap

/-- Among the frames from a depth on, the first one ends its run loop and no other. -/
def Rooted (activity : Activity) (root : Nat) : Prop :=
  ∀ index frame, root ≤ index → activity.frames[index]? = some frame →
    (frame.isRoot = true ↔ index = root)

end Activity

namespace Fiber

/-- The window of the current frame is in use. -/
def Shaped (fiber : Fiber) : Prop :=
  ∀ frame, fiber.stack.current? = some frame → frame.top ≤ fiber.stack.size

/-- No run loop, host function or call that waits for its result is active in the fiber. -/
structure Still (fiber : Fiber) : Prop where
  /-- It is inside of no host function. -/
  natives : fiber.natives = []
  /-- No run loop or host function is active. -/
  nativeCalls : fiber.nativeCalls = 0
  /-- No run loop is active. -/
  nesting : fiber.nesting = 0
  /-- No call waits for its result. -/
  syncCalls : fiber.syncCalls = 0

/-- Nothing is left of what the fiber has done. -/
structure Vacant (fiber : Fiber) : Prop extends Still fiber where
  /-- It has no registers. -/
  slots : fiber.stack.slots = #[]
  /-- It has no frames. -/
  frames : fiber.stack.frames = #[]
  /-- It has no traps. -/
  traps : fiber.traps = []
  /-- It does nothing. -/
  state : fiber.state = .idle
  /-- It is not suspended. -/
  suspended : fiber.suspended = none

/-- The fiber goes on with all its frames, and with a value in a register of the current one. -/
def Resumable (fiber : Fiber) : Prop :=
  ∃ target, fiber.suspended = some ⟨target, 0, 0⟩ ∧ ∀ number frame, target = some number →
    fiber.stack.current? = some frame → frame.base + number.toNat < frame.top

/-- The fiber has been suspended in its outermost run loop. -/
structure Paused (fiber : Fiber) : Prop extends Still fiber where
  /-- It is suspended. -/
  state : fiber.state = .suspended
  /-- It can go on. -/
  resumable : fiber.Resumable
  /-- The first frame ends the run loop, and no other. -/
  rooted : fiber.activity.Rooted 0
  /-- The window of the current frame is in use. -/
  shaped : fiber.Shaped

/-- Nothing is active in the fiber. -/
def AtRest (fiber : Fiber) : Prop := fiber.Vacant ∨ fiber.Paused

/-- The fiber belongs to accepted prototypes and has no more registers than it is allowed. -/
structure SoundIn (heap : Heap) (fiber : Fiber) : Prop where
  /-- Its frames and traps are sound. -/
  activity : fiber.activity.SoundIn heap
  /-- It has no more registers than it is allowed. -/
  room : fiber.Roomy

end Fiber

/-! ## Heaps -/

/-- The activation that a generator keeps belongs to a function. -/
structure Generator.Fits (generator : Generator) (routine : Routine) : Prop where
  /-- It stands at an instruction or behind the last one. -/
  ip : generator.ip ≤ routine.code.size
  /-- Its traps lead to instructions and keep the registers. -/
  traps : ∀ trap ∈ generator.traps, trap.ip < routine.code.size ∧
    trap.target.toNat < routine.stackSize ∧ routine.stackSize ≤ trap.offset

/-- What an object keeps for later belongs to accepted prototypes. -/
def Content.SoundIn (heap : Heap) : {kind : Kind} → Content kind → Prop
  | .closure, (closure : Closure) => closure.Sound
  | .generator, (generator : Generator) =>
    ∃ closure : Closure, heap.get? generator.closure = some closure ∧
      generator.Fits closure.routine
  | .thread, (content : Option Fiber) => ∀ fiber, content = some fiber →
    fiber.SoundIn heap ∧ fiber.AtRest
  | .table, _ | .array, _ | .cell, _ | .native, _ | .cls, _ | .inst, _ | .userdata, _ => True

/-- All objects are sound. -/
def Heap.Sound (heap : Heap) : Prop :=
  ∀ ⦃kind : Kind⦄ (ref : Ref kind) (content : Content kind), heap.get? ref = some content →
    content.SoundIn heap

/-! ## Machines -/

/-- Everything that the machine runs or may run later belongs to accepted prototypes, and nothing
has gone wrong that says otherwise. -/
structure Machine.Sound (machine : Machine) : Prop where
  /-- The heap is sound. -/
  heap : machine.heap.Sound
  /-- The running fiber is sound. -/
  fiber : machine.fiber.SoundIn machine.heap
  /-- The waiting fibers are sound. -/
  waiting : ∀ fiber ∈ machine.waiting, fiber.SoundIn machine.heap
  /-- The function bodies that are values are sound. -/
  routines : ∀ routine ∈ machine.routines, routine.Sound
  /-- Accepted code could run into all faults so far. -/
  incidents : ∀ incident ∈ machine.incidents, incident.Allowed

/-- The machine is sound, and the window of the current frame is in use. -/
structure Machine.Ready (machine : Machine) : Prop where
  /-- It is sound. -/
  sound : machine.Sound
  /-- The window of the current frame is in use. -/
  shaped : machine.fiber.Shaped

/-- The fiber is running, waits, or is that of a thread. -/
def Machine.HasFiber (machine : Machine) (fiber : Fiber) : Prop :=
  fiber = machine.fiber ∨ fiber ∈ machine.waiting ∨
    ∃ ref : Ref .thread, machine.heap.get? ref = some (some fiber)

theorem Machine.Sound.hasFiber {machine : Machine} (sound : machine.Sound) {fiber : Fiber}
    (has : machine.HasFiber fiber) : fiber.SoundIn machine.heap := by
  rcases has with rfl | waits | ⟨ref, content⟩
  · exact sound.fiber
  · exact sound.waiting fiber waits
  · exact (sound.heap ref _ content fiber rfl).1

end ScriptMachine
