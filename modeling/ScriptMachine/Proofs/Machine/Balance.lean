import ScriptMachine.Proofs.Machine.Safety

/-!
# Calls are balanced

Whatever a call that waits for its result ends with, the registers and everything that the fiber is
doing are as they were.  A call instruction leaves alone the registers below the first of its
arguments, but for the one that receives the result.  Nothing is left of an outermost run that has
not been suspended.
-/

namespace ScriptMachine

open Exec

namespace Exec

variable {α : Type}

/-- Whether it has a result or fails, the computation leaves the registers as they were, and
everything that the fiber is doing. -/
def Balanced (action : Exec α) (machine : Machine) : Prop :=
  action.isCut machine = false →
    (action.after machine).fiber.stack.slots = machine.fiber.stack.slots ∧
      (action.after machine).fiber.activity = machine.fiber.activity

/-- The instructions of a run loop lead from a machine to one with so many frames left, by an
instruction without a fault; more frames are left before that. -/
inductive Lands (engine : Engine) (root mark : Nat) : Machine → Machine → Prop
  /-- The next instruction is the last one. -/
  | now {machine next last : Machine} {instruction : Option Instruction} :
      fetch machine = .ok instruction next →
      step engine instruction next = .ok .proceed last → last.fiber.stack.depth = mark →
      Lands engine root mark machine last
  /-- The next instruction is followed by others. -/
  | later {machine next last : Machine} :
      turn engine root machine = .ok none next → mark < next.fiber.stack.depth →
      Lands engine root mark next last → Lands engine root mark machine last

end Exec

/-! ## Calls that wait for their result -/

namespace Exec

open Machine

variable {α : Type} {manners : Manners} {given : Activity → Prop} {machine : Machine}
  {action : Exec α}

theorem Steady.balanced (steady : Steady manners .all given action) (ready : machine.Ready)
    (holds : given machine.fiber.activity) : action.Balanced machine := by
  intro ends
  rcases (steady machine ready trivial holds).ends ends with ⟨_, _, met⟩ | ⟨_, _, met⟩
  · exact ⟨met.keeps.slots, met.keeps.activity⟩
  · exact ⟨met.keeps.slots, met.keeps.activity⟩

end Exec

/-! ## Call instructions -/

/-- The frames that a call adds above the current one. -/
def Machine.callScope (machine : Machine) {root : Nat} (above : root < machine.fiber.stack.depth)
    (floor : Nat) (target : Option UInt8) : Scope where
  root := root
  mark := machine.fiber.stack.depth
  le := Nat.le_of_lt above
  floor := floor
  target := target

namespace Exec

open Machine

variable {manners : Manners} {scope : Scope} {start machine next last : Machine} {frame : Frame}
  {engine : Engine} {root : Nat} {instruction : Instruction}

/-- A run loop that lands has left the frames looked at by an instruction without a fault. -/
theorem Lands.landed_of_running (lands : Lands engine scope.root scope.mark machine last)
    (steady : engine.Steady manners) (running : start.Running manners scope machine) :
    start.Landed scope last := by
  induction lands with
  | now fetched stepped depth =>
      obtain ⟨instruction, next, found, flows⟩ := exists_fetch steady.calls steady.natives running
      rw [fetched] at found
      injection found with same place
      subst same place
      rw [Meets, stepped] at flows
      rcases flows with running | landed
      · exact absurd running.above (Nat.not_lt_of_le (Nat.le_of_eq depth))
      · exact landed
  | later turned above _ ih =>
      have turns := meets_turn steady.calls steady.natives running
      rw [Meets, turned] at turns
      exact ih (turns.2 above)

/-- The result of a call is the only change below its arguments. -/
theorem meets_deliver_of_call (within : machine.Within scope next)
    (logs : machine.Logs manners none next) (inner : scope.root < scope.mark)
    (depth : next.fiber.stack.depth = scope.mark) (value : Value) :
    (Access.direct.deliver scope.target value).Meets next (fun _ => machine.Landed scope)
      (machine.Failing manners scope) (machine.Reaches manners) := by
  obtain ⟨caller, current⟩ := exists_current (depth ▸ inner)
  have delivered := meets_deliver_of_landing within logs inner depth current value
  cases target : scope.target with
  | none =>
      rw [target] at delivered
      exact delivered
  | some number =>
      rw [target] at delivered
      exact delivered

/-- A call instruction adds a frame above its arguments, or has its result already. -/
theorem meets_callInstruction_above (steady : engine.Steady manners)
    (inside : start.Inside manners scope frame machine) (above : root < machine.fiber.stack.depth)
    (rooted : machine.fiber.activity.Rooted root) (window : frame.Calls instruction)
    (callee : Value) :
    let scope := machine.callScope above (frame.base + instruction.second.toNat) instruction.target?
    (callInstruction .direct engine callee instruction).Meets machine
      (fun flow next => flow = .proceed →
        machine.Running manners scope next ∨ machine.Landed scope next)
      (machine.Failing manners scope) (fun _ => True) := by
  intro scope
  have base : machine.fiber.base = frame.base := by
    rw [Fiber.base, inside.current]
    rfl
  have handed : instruction.target?.map Access.direct.handOn = scope.target := by
    show instruction.target?.map (fun number => number) = instruction.target?
    rw [Option.map_id']
  have low : scope.floor < frame.top := window.first
  have fits : scope.floor ≤ machine.fiber.stack.size :=
    Nat.le_of_lt (Nat.lt_of_lt_of_le low (inside.shaped frame inside.current))
  have under : machine.fiber.activity.Under scope.floor := by
    intro other current
    obtain rfl := Option.some.inj (inside.current.symm.trans current)
    exact Nat.le_add_right _ _
  have place := getElem?_of_current inside.current
  have within : machine.Within scope machine := by
    refine ⟨inside.sound, rooted, Nat.le_refl _, .refl _ _, fun other found => ?_,
      fun _ other found => ?_, fun _ _ => rfl, fits, rfl, rfl⟩
    · have absent : machine.fiber.stack.frames[machine.fiber.stack.depth]? = none :=
        Array.getElem?_eq_none (Nat.le_refl _)
      exact absurd (absent.symm.trans found) (by simp)
    · obtain rfl := Option.some.inj (place.symm.trans found)
      exact Nat.le_of_lt low
  have failing : ∀ {fault next}, machine.Fails manners (.below scope.floor) fault next →
      machine.Failing manners scope fault next := fun fails =>
    ⟨within.keeps (Nat.le_refl _) fails.keeps, fails.pends⟩
  refine Meets.ok_bind rfl ?_
  dsimp only
  rw [base, handed]
  refine ((meets_callValue steady.calls steady.natives inside.ready fits inside.calm under callee _
    scope.target false).mono (fun _ _ => id) (fun _ _ => failing) fun _ _ => trivial).bind
    fun result next started => ?_
  cases result with
  | pushed =>
      obtain ⟨entered, floor, target, isRoot, enters⟩ := started
      refine fun _ =>
        .inl (within.enters (logs_of_eq rfl) inside.calm ⟨fun ends => ?_, fun same => ?_⟩
          (fun _ => target) (by simp [scope, callScope]) (Nat.le_of_eq floor.symm) enters)
      · exact absurd (isRoot.symm.trans ends) Bool.false_ne_true
      · exact absurd same (Nat.ne_of_gt above)
  | done value =>
      have depth : next.fiber.stack.depth = machine.fiber.stack.depth :=
        congrArg (fun activity => activity.frames.size) started.keeps.activity
      have delivered := meets_deliver_of_call (within.keeps (Nat.le_refl _) started.keeps)
        started.logs above depth value
      exact (delivered.mono (fun _ _ => id) (fun _ _ => id) fun _ _ => trivial).bind
        fun _ next landed _ => .inr landed
  | suspend value =>
      refine Meets.ofFiber_bind ?_
      cases can : next.fiber.canSuspend with
      | false =>
          have fails : next.Fails manners (.below scope.floor) .nestedSuspension _ :=
            started.keeps.sound.fails (next.allowed_incident rfl .raised)
          exact failing (started.fails fails)
      | true => exact fun flow => absurd flow (by simp)

/-- The instruction that has been fetched is the one of the current frame. -/
theorem exists_of_fetch (inside : start.Inside manners scope frame machine)
    (fetched : fetch machine = .ok (some instruction) next) :
    machine.mapStack (·.modifyFrame ({ · with ip := frame.ip + 1 })) = next ∧
      start.Inside manners scope { frame with ip := frame.ip + 1 } next ∧
      ∃ prototype, { frame with ip := frame.ip + 1 }.Performs prototype instruction := by
  have place := getElem?_of_current inside.current
  have sound := inside.sound.fiber.activity.frames frame (Array.mem_of_getElem? place)
  rw [fetch, Exec.frame_bind inside.current] at fetched
  cases found : frame.closure.routine.code[frame.ip]? with
  | none =>
      rw [found] at fetched
      injection fetched with same
      exact absurd same (by simp)
  | some other =>
      rw [found] at fetched
      injection fetched with same reached
      obtain rfl := Option.some.inj same
      obtain rfl := reached
      exact ⟨rfl, inside.goTo (Array.getElem?_eq_some_iff.mp found).1, sound.performs found⟩

section Call

variable (steady : engine.Steady manners) (inside : start.Inside manners scope frame next)
  (above : root < next.fiber.stack.depth) (rooted : next.fiber.activity.Rooted root)
  (window : frame.Calls instruction) (calls : instruction.op = .call)

include steady inside rooted window calls

theorem meets_call_step :
    let scope := next.callScope above (frame.base + instruction.second.toNat) instruction.target?
    (step engine (some instruction)).Meets next
      (fun flow last => flow = .proceed → next.Running manners scope last ∨ next.Landed scope last)
      (next.Failing manners scope) (fun _ => True) := by
  intro scope
  have begun := meets_callInstruction_above steady inside above rooted window
  rw [step, dispatch, calls]
  exact Meets.ok_bind rfl (begun _)

/-- A turn of the run loop after which a call has more frames than before has entered one. -/
theorem meets_call_turn (fetched : fetch machine = .ok (some instruction) next) :
    let scope := next.callScope above (frame.base + instruction.second.toNat) instruction.target?
    (turn engine root).Meets machine
      (fun result last => result = none → next.fiber.stack.depth < last.fiber.stack.depth →
        next.Running manners scope last) (fun _ _ => True) fun _ => True := by
  intro scope
  have stepped := meets_call_step steady inside above rooted window calls
  refine Meets.ok_bind fetched (stepped.attempt_bind (fun flow last flows => ?_)
    fun fault last failing => ?_)
  · cases flow with
    | proceed =>
        intro _ high
        rcases flows rfl with running | landed
        · exact running
        · exact absurd high (Nat.not_lt_of_le (Nat.le_of_eq landed.depth))
    | finish value => exact fun ends => absurd ends (by simp)
    | suspend value => exact fun ends => absurd ends (by simp)
  · have failing : next.Failing manners scope fault last := failing
    exact ((meets_recover failing inside.calm).mono (fun _ _ => id) (fun _ _ _ => trivial)
      fun _ => False.elim).bind fun _ last recovered _ high => recovered.2 high

/-- A call that lands has left what is below its arguments alone, but for its result. -/
theorem Lands.landed_of_call (fetched : fetch machine = .ok (some instruction) next)
    (lands : Lands engine root next.fiber.stack.depth machine last) :
    next.Landed
      (next.callScope above (frame.base + instruction.second.toNat) instruction.target?) last := by
  cases lands with
  | now again stepped depth =>
      rw [fetched] at again
      injection again with same place
      subst same place
      have steps := meets_call_step steady inside above rooted window calls
      rw [Meets, stepped] at steps
      rcases steps rfl with running | landed
      · exact absurd running.above (Nat.not_lt_of_le (Nat.le_of_eq depth))
      · exact landed
  | later turned high lands =>
      have turns := meets_call_turn steady inside above rooted window calls fetched
      rw [Meets, turned] at turns
      exact Lands.landed_of_running lands steady (turns rfl high)

end Call

/-- A call that lands goes on in the frame of the call.  Registers below its arguments are the same,
but for the one that receives the result. -/
theorem Lands.keeps_registers (steady : engine.Steady manners) (ready : machine.Ready)
    (calm : machine.fiber.activity.Calm manners) (above : root < machine.fiber.stack.depth)
    (rooted : machine.fiber.activity.Rooted root)
    (fetched : fetch machine = .ok (some instruction) next) (calls : instruction.op = .call)
    (lands : Lands engine root machine.fiber.stack.depth machine last)
    (current : machine.fiber.stack.current? = some frame) :
    last.fiber.stack.current? = some { frame with ip := frame.ip + 1 } ∧
      ∀ place < frame.base + instruction.second.toNat,
        (∀ number, instruction.target? = some number → place ≠ frame.base + number.toNat) →
        last.fiber.stack.slots[place]? = machine.fiber.stack.slots[place]? := by
  have inside : machine.Inside manners
      ⟨root, machine.fiber.stack.depth - 1, Nat.le_sub_one_of_lt above, 0, frame.target, none⟩ frame
      machine :=
    ⟨⟨ready.sound.within rooted (Nat.le_sub_one_of_lt above) (getElem?_of_current current),
      Nat.sub_one_lt_of_lt above, ready.shaped, logs_of_eq rfl, calm⟩, current⟩
  obtain ⟨moved, inside, prototype, performs⟩ := exists_of_fetch inside fetched
  have depth : next.fiber.stack.depth = machine.fiber.stack.depth :=
    moved ▸ depth_goTo machine.fiber.stack _
  have slots : next.fiber.stack.slots = machine.fiber.stack.slots := by
    rw [← moved]
    rfl
  rw [← depth] at lands above
  have landed := lands.landed_of_call steady inside above inside.rooted
    (performs.calls (.inl calls)) calls fetched
  have goesOn : last.fiber.stack.current? = some { frame with ip := frame.ip + 1 } := by
    have depth : last.fiber.stack.depth = next.fiber.stack.depth := landed.depth
    have top : last.fiber.stack.depth - 1 < next.fiber.stack.depth := by omega
    rw [Stack.current?, Array.back?_eq_getElem?]
    refine (landed.below.frames _ top).trans ?_
    rw [depth]
    exact getElem?_of_current inside.current
  refine ⟨goesOn, fun place low differ => ?_⟩
  rw [← slots]
  exact landed.slots _ goesOn place low differ

end Exec

open Exec

/-- Calls in the machine leave everything else as it was. -/
structure Machine.Balances (host : Host) (machine : Machine) : Prop where
  /-- Calls that wait for their result do. -/
  callSync : ∀ (steps : Nat) (callee this : Value) (arguments : List Value),
    ((Engine.ofHost host steps).callSync callee this arguments).Balanced machine
  /-- Going on with a generator does. -/
  resumeGenerator : ∀ (steps : Nat) (ref : Ref .generator),
    (Exec.resumeGenerator (.ofHost host steps) ref).Balanced machine
  /-- Entries that a host function starts do. -/
  runWithThis : machine.fiber.natives ≠ [] →
    ∀ (steps : Nat) (callee this : Value) (arguments : List Value),
      (Exec.runWithThis (.ofHost host steps) callee this arguments).Balanced machine
  /-- Call instructions leave alone the registers below their arguments, but for the one that
  receives the result. -/
  instructions : ∀ (steps root : Nat) (caller : Frame) (instruction : Instruction)
    (next last : Machine), root < machine.fiber.stack.depth → machine.fiber.activity.Rooted root →
    machine.fiber.stack.current? = some caller → fetch machine = .ok (some instruction) next →
    instruction.op = .call →
    Lands (.ofHost host steps) root machine.fiber.stack.depth machine last →
      last.fiber.stack.current? = some { caller with ip := caller.ip + 1 } ∧
        ∀ place < caller.base + instruction.second.toNat,
          (∀ number, instruction.target? = some number → place ≠ caller.base + number.toNat) →
          last.fiber.stack.slots[place]? = machine.fiber.stack.slots[place]?

/-- Nothing is left of an outermost run that has not been suspended. -/
def Machine.Clears (host : Host) (machine : Machine) : Prop :=
  ∀ (steps : Nat) (callee this : Value) (arguments : List Value),
    let run := Exec.runWithThis (.ofHost host steps) callee this arguments
    run.isCut machine = false → (∀ value, run.value? machine ≠ some (.suspended value)) →
      (run.after machine).fiber.Vacant

theorem Machine.Ready.balances {host : Host} {manners : Manners} {machine : Machine}
    (ready : machine.Ready) (calm : machine.fiber.activity.Calm manners)
    (serves : host.Serves manners) (verified : manners.trusts = false) : machine.Balances host where
  callSync steps callee this arguments :=
    have steady := Engine.steady_ofHost serves verified steps
    have calls : Steady manners .all (·.Calm manners) _ :=
      .callSync steady.calls (fun _ => id) callee this arguments
    calls.balanced ready calm
  resumeGenerator steps ref :=
    have steady := Engine.steady_ofHost serves verified steps
    have resumes : Steady manners .all (·.Calm manners) _ :=
      .resumeGenerator steady (fun _ => id) (fun _ => id) ref
    resumes.balanced ready calm
  runWithThis inside steps callee this arguments :=
    have steady := Engine.steady_ofHost serves verified steps
    have runs : Steady manners .all (·.natives ≠ []) _ :=
      .runWithThis steady (fun _ => id) callee this arguments
    runs.balanced ready inside
  instructions steps _ _ _ _ _ above rooted current fetched calls lands :=
    lands.keeps_registers (Engine.steady_ofHost serves verified steps) ready calm above rooted
      fetched calls current

theorem Machine.Controlled.clears {host : Host} {manners : Manners} {machine : Machine}
    (controlled : machine.Controlled manners) (idle : machine.fiber.state = .idle)
    (serves : host.Serves manners) (verified : manners.trusts = false) : machine.Clears host := by
  intro steps callee this arguments run ends completes
  have vacant : machine.fiber.Vacant := controlled.rest.resolve_right fun paused =>
    absurd (idle.symm.trans paused.state) (by decide)
  have met := meets_runWithThis (Engine.steady_ofHost serves verified steps) controlled.sound vacant
    callee this arguments
  rcases met.ends ends with ⟨outcome, result, rests, _⟩ | ⟨_, _, rests, _⟩
  · cases outcome with
    | completed value => exact rests.rest
    | suspended value =>
        refine absurd ?_ (completes value)
        rw [value?, show run machine = _ from result]
  · exact rests.rest

/-- Calls are balanced in every sound machine, unless host functions could wake the fiber in which
they are made; every machine that occurs is sound, and nothing is left of an outermost run of an
idle one. -/
theorem calls_balance {host : Host} {manners : Manners} (serves : host.Serves manners)
    (verified : manners.trusts = false) :
    (∀ machine : Machine, machine.Ready → machine.fiber.activity.Calm manners →
      machine.Balances host) ∧
    (∀ machine : Machine, machine.Occurs host manners → machine.Ready) ∧
    ∀ machine : Machine, machine.Commanded host manners → machine.fiber.state = .idle →
      machine.Clears host :=
  ⟨fun _ ready calm => ready.balances calm serves verified,
    fun _ occurs => (occurs.ready serves verified).1,
    fun _ commanded idle => (commanded.controlled serves verified).clears idle serves verified⟩

/-- A function that returns a number. -/
def nine : Prototype where
  name := "nine"
  parameters := #["this"]
  stackSize := 2
  code := #[⟨.loadInt, 1, 9, 0, 0⟩, ⟨.ret, 0, 1, 0, 0⟩]

/-- A function that calls its argument and returns the result. -/
def calling : Prototype where
  name := "calling"
  parameters := #["this", "callee"]
  stackSize := 5
  code := #[⟨.loadInt, 2, 5, 0, 0⟩, ⟨.call, 3, 1, 4, 1⟩, ⟨.ret, 0, 3, 0, 0⟩]

/-- Load the functions and run one on the other. -/
def runCalling (engine : Engine) : Exec Outcome := do
  let callee ← Exec.loadFunction nine
  let closure ← Exec.loadFunction calling
  Exec.run engine closure [callee]

theorem serves_runCalling (engine : Engine) {manners : Manners} (enters : manners.enters = true) :
    engine.Serves manners (runCalling engine) :=
  (Engine.Serves.loadFunction nine).bind fun _ =>
    (Engine.Serves.loadFunction calling).bind fun _ => .run enters _ _

/-- Stop where the call is the next instruction. -/
def untilCall : Engine :=
  .until (fun machine => machine.fiber.stack.frames.map Frame.ip == #[1]) standardHost 8

theorem calls_balance_calling :
    let machine := (runCalling untilCall).after (.create {})
    let turn := Exec.turn (standardEngine 8) 0
    let returning := turn.after (turn.after machine)
    let last := (step (standardEngine 8) (some ⟨.ret, 0, 1, 0, 0⟩)).after (fetch.after returning)
    last.fiber.stack.slots[3]? = some (.integer 9) ∧
      ∀ place < 3, last.fiber.stack.slots[place]? = machine.fiber.stack.slots[place]? := by
  intro machine turn returning last
  have occurs : machine.Occurs standardHost { wakes := true } :=
    .running (.created {}) (.serves (serves_runCalling _ rfl))
      (eq_after_of_isCut (by decide +kernel))
  have state : machine.fiber.state = .running := by decide +kernel
  have calm : machine.fiber.activity.Calm { wakes := true } := fun _ asleep =>
    absurd (state.symm.trans asleep) (by decide)
  have frames : machine.fiber.stack.frames.map (fun frame => (frame.base, frame.isRoot)) =
      #[(0, true)] := by decide +kernel
  have depth : machine.fiber.stack.depth = 1 :=
    Array.size_map.symm.trans (congrArg Array.size frames)
  obtain ⟨caller, current⟩ :=
    Machine.exists_current (Nat.lt_of_lt_of_eq Nat.zero_lt_one depth.symm)
  have placed := Machine.getElem?_of_current current
  rw [depth] at placed
  have looked : caller.base = 0 ∧ caller.isRoot = true := by
    have found : (machine.fiber.stack.frames.map fun frame => (frame.base, frame.isRoot))[0]? =
        some (caller.base, caller.isRoot) := by
      rw [Array.getElem?_map, placed]
      rfl
    rw [frames] at found
    have same : (0, true) = (caller.base, caller.isRoot) := Option.some.inj found
    exact ⟨(congrArg Prod.fst same).symm, (congrArg Prod.snd same).symm⟩
  have rooted : machine.fiber.activity.Rooted 0 := by
    intro index frame _ found
    have within : index < machine.fiber.stack.depth := (Array.getElem?_eq_some_iff.mp found).1
    obtain rfl : index = 0 := by omega
    obtain rfl := Option.some.inj (placed.symm.trans found)
    simp [looked.2]
  have fetched : fetch machine = .ok (some ⟨.call, 3, 1, 4, 1⟩) (fetch.after machine) :=
    eq_after_of_value? (by decide +kernel)
  have fetches : fetch returning = .ok (some ⟨.ret, 0, 1, 0, 0⟩) (fetch.after returning) :=
    eq_after_of_value? (by decide +kernel)
  have returns : Lands (standardEngine 8) 0 1 returning last :=
    .now fetches (eq_after_of_value? (by decide +kernel)) (by decide +kernel)
  have lands : Lands (standardEngine 8) 0 1 machine last :=
    .later (eq_after_of_value? (by decide +kernel)) (by decide +kernel)
      (.later (eq_after_of_value? (by decide +kernel)) (by decide +kernel) returns)
  obtain ⟨balanced, sound, _⟩ := calls_balance serves_standardHost rfl
  have balances := balanced machine (sound machine occurs) calm
  have kept := (balances.instructions 8 0 caller ⟨.call, 3, 1, 4, 1⟩ _ last
    (depth ▸ Nat.zero_lt_one) rooted current fetched rfl (depth.symm ▸ lands)).2
  refine ⟨by decide +kernel, fun place low => kept place ?_ fun number target => ?_⟩
  · rw [looked.1]
    exact Nat.lt_of_lt_of_le low (by decide)
  · obtain rfl : (3 : UInt8) = number := by
      simpa [Instruction.target?, Instruction.noTarget] using target
    rw [looked.1]
    exact Nat.ne_of_lt low

end ScriptMachine
