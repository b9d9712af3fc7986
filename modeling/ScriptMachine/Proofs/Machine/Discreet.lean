import ScriptMachine.Proofs.Machine.Run
import ScriptMachine.Proofs.Machine.Veils

/-!
# Discreet computations

A steady computation is discreet if it is oblivious of every veil that hides only registers below
some place.  Calls, operations on values and going on with generators are discreet, if what the
engine runs for them is: they touch the registers from the first argument on, or add registers.
-/

namespace ScriptMachine

open Exec

variable {α β : Type}

/-- The computation is steady and looks at no registers below a place that might be hidden. -/
structure Exec.Discreet (manners : Manners) (extent : Extent) (front : Nat)
    (given : Activity → Prop) (action : Exec α) : Prop where
  /-- It is steady. -/
  steady : Steady manners extent given action
  /-- It does not look behind veils. -/
  oblivious : ∀ {veil : Veil} {machine : Machine},
    veil.floor ≤ front → machine.Ready → extent.Fits machine.fiber.stack →
    given machine.fiber.activity → Oblivious veil action machine

namespace Exec.Discreet

variable {manners : Manners} {extent : Extent} {front : Nat}
  {given : Activity → Prop} {action : Exec α}

theorem mono {wider : Activity → Prop}
    (discreet : Discreet manners extent front wider action)
    (wide : ∀ activity, given activity → wider activity) :
    Discreet manners extent front given action where
  steady := discreet.steady.mono wide
  oblivious high ready fits holds :=
    discreet.oblivious high ready fits (wide _ holds)

theorem bind {following : α → Exec β} (first : Discreet manners extent front given action)
    (further : ∀ value, Discreet manners extent front given (following value)) :
    Discreet manners extent front given (action >>= following) where
  steady := first.steady.bind fun value => (further value).steady
  oblivious {_ machine} high ready fits holds :=
    .bind_meets (first.steady machine ready fits holds)
      (first.oblivious high ready fits holds) fun value _ returns =>
        (further value).oblivious high (returns.keeps.ready ready)
          (returns.keeps.slots.fits fits) (returns.keeps.activity ▸ holds)

theorem direct (direct : Direct manners extent action)
    (oblivious : ∀ {veil : Veil} {machine : Machine}, veil.floor ≤ front →
      Oblivious veil action machine) :
    Discreet manners extent front given action :=
  ⟨direct.steady, fun high _ _ _ => oblivious high⟩

theorem view {look : Machine → α}
    (same : ∀ (veil : Veil) incidents machine,
      look (veil.machine incidents machine) = look machine) :
    Discreet manners extent front given fun machine => .ok (look machine) machine :=
  .direct (.view look) fun {veil machine} _ => .view fun incidents => same veil incidents machine

theorem pure (value : α) :
    Discreet manners extent front given (Pure.pure value : Exec α) :=
  have views : Discreet manners extent front given fun machine => .ok value machine :=
    view fun _ _ _ => rfl
  views

theorem raise {fault : Fault} (plain : fault.isPlain = true) :
    Discreet manners extent front given (Exec.raise fault : Exec α) :=
  .direct (.raise plain) fun _ => .raise fault

theorem ofPlain {result : Except Fault α} (plain : Plain result) :
    Discreet manners extent front given (Exec.ofExcept result) :=
  .direct (.ofPlain plain) fun _ => .ofExcept result

theorem map (discreet : Discreet manners extent front given action) (image : α → β) :
    Discreet manners extent front given (image <$> action) := by
  rw [map_eq_pure_bind]
  exact discreet.bind fun value => pure (image value)

theorem discard (discreet : Discreet manners extent front given action) :
    Discreet manners extent front given (Functor.discard action) := discreet.map _

theorem keeping (indices : List Nat)
    (discreet : Discreet manners extent front given action) :
    Discreet manners extent front given (Exec.keeping indices action) where
  steady := discreet.steady.keeping indices
  oblivious high ready fits holds :=
    .keeping indices (discreet.oblivious high
      ⟨⟨ready.sound.heap, ready.sound.fiber, ready.sound.waiting, ready.sound.routines,
        ready.sound.incidents⟩, ready.shaped⟩ fits holds)

theorem holding (values : List Value)
    (discreet : Discreet manners extent front given action) :
    Discreet manners extent front given (Exec.holding values action) := discreet.keeping _

end Exec.Discreet

/-! ## Engines -/

/-- The parts of an engine do not look behind veils. -/
structure Engine.Discreet (engine : Engine) (manners : Manners) : Prop
    extends engine.Steady manners where
  /-- Calls look at the registers from the first argument on. -/
  callAt : ∀ {veil : Veil} {machine : Machine} (callee : Value) {base : Nat} (count : Nat),
    veil.floor ≤ base → machine.Ready →
    base ≤ machine.fiber.stack.size → machine.fiber.activity.Calm manners →
    machine.fiber.activity.Under base → Oblivious veil (engine.callAt callee base count) machine
  /-- Host functions look at the registers from their first argument on. -/
  native : ∀ {veil : Veil} {machine : Machine} (symbol : String) (call : NativeFrame),
    veil.floor ≤ call.base → machine.Ready →
    machine.fiber.natives.head? = some call → machine.fiber.activity.Calm manners →
    Oblivious veil (engine.native symbol) machine
  /-- Run loops look at the registers of their frames. -/
  runFrames : ∀ {veil : Veil} {scope : Scope} {start machine : Machine},
    veil.floor ≤ scope.floor → scope.mark = scope.root →
    start.Running manners scope machine → Oblivious veil (engine.runFrames scope.root) machine

/-- The engine that has no steps left looks at nothing. -/
theorem Engine.Discreet.spent (manners : Manners) :
    Engine.spent.Discreet manners where
  toSteady := .spent manners
  callAt _ _ _ _ _ _ _ _ := .exhaust
  native _ _ _ _ _ _ := .exhaust
  runFrames _ _ _ := .exhaust

namespace Exec

open Machine

variable {manners : Manners} {extent : Extent} {front : Nat}
  {given : Activity → Prop} {engine : Engine}

theorem Discreet.callAt (discreet : engine.Discreet manners) (callee : Value)
    (base count : Nat) :
    Discreet manners (.below base) base
      (fun activity => activity.Calm manners ∧ activity.Under base)
      (engine.callAt callee base count) where
  steady := discreet.calls callee base count
  oblivious high ready fits holds :=
    discreet.callAt callee count high ready fits holds.1 holds.2

/-! ## Operations -/

theorem Oblivious.pushArguments {veil : Veil} (this : Value) (arguments : List Value)
    (machine : Machine) : Oblivious veil (Engine.pushArguments this arguments) machine :=
  (push this).bind fun _ next _ => .forM (fun value _ => push value) next

/-- A call in registers behind those in use looks at no others. -/
theorem Discreet.callSync (discreet : engine.Discreet manners)
    (calm : ∀ activity, given activity → activity.Calm manners) (callee this : Value)
    (arguments : List Value) :
    Discreet manners extent front given (engine.callSync callee this arguments) where
  steady := .callSync discreet.calls calm callee this arguments
  oblivious {veil machine} _ ready _ holds := by
    refine .of_suits fun suits => .holding _ (.ofFiber_bind ?_ (veil.size_stack _))
    let base := machine.fiber.stack.size
    let held : Machine :=
      { machine with held := Value.addresses (callee :: this :: arguments) ++ machine.held }
    have ready : held.Ready := ⟨⟨ready.sound.heap, ready.sound.fiber, ready.sound.waiting,
      ready.sound.routines, ready.sound.incidents⟩, ready.shaped⟩
    have high : veil.floor ≤ base := suits.room
    have under : machine.fiber.activity.Under base := fun frame current =>
      Nat.le_trans (Nat.le_add_right _ _) (ready.shaped frame current)
    have pushed : Steady manners (.below base) (fun _ => True)
      (Engine.pushArguments this arguments) := .pushArguments this arguments
    refine .ensuring ?_ (fun incidents next => ?_) (fun next suits => ?_) fun _ => .of_eq rfl rfl
    · refine .bind_meets (pushed held ready (Nat.le_refl _) trivial)
        (.pushArguments this arguments held) fun _ next returns => ?_
      exact discreet.callAt callee _ high (returns.keeps.ready ready)
        returns.keeps.slots.1 (returns.keeps.activity ▸ calm _ holds)
        (returns.keeps.activity ▸ under)
    · exact congrArg (fun stack : Stack =>
        { veil.machine incidents next with fiber := { next.fiber with stack } })
        (veil.truncate_stack base next.fiber.stack)
    · refine suits.of_slots ?_ (fun place low => ?_) rfl
      · show veil.floor ≤ (next.fiber.stack.truncate base).size
        rw [Stack.size_truncate]
        exact Nat.le_min.mpr ⟨suits.room, high⟩
      · exact Stack.slot_truncate _ (Nat.lt_of_lt_of_le low high)

theorem Oblivious.consult {veil : Veil} {machine : Machine}
    {result : Heap → Ref .table → Except Fault (α × Heap)}
    (inert : ∀ heap root value after, result heap root = .ok (value, after) → heap.Inert after) :
    Oblivious veil (Exec.consult result) machine := by
  cases made : result machine.heap machine.root with
  | ok value =>
      have changes : Oblivious veil
          (fun machine => .ok value.1 { machine with heap := value.2 }) machine :=
        change (fun _ => rfl) (fun _ => rfl) (fun suits => suits.congr rfl rfl)
          (.of_heap rfl (inert _ _ _ _ made).lostIn)
      exact changes.congr (Exec.consult_of_ok made) fun _ => Exec.consult_of_ok made
  | error fault =>
      exact (raise fault).congr (Exec.consult_of_error made) fun _ => Exec.consult_of_error made

/-- Operations on values look at no registers. -/
theorem Discreet.operation (discreet : engine.Discreet manners)
    (calm : ∀ activity, given activity → activity.Calm manners) {action action' : Exec α}
    (parallel : engine.Parallel engine action action') :
    Discreet manners extent front given action := by
  induction parallel with
  | change result plain inert =>
      refine ⟨.operates discreet.calls calm (.change _ (fun _ => plain _ _) ?_), ?_⟩
      · exact fun machine value heap made => inert _ _ value heap made
      · exact fun _ _ _ _ => .consult inert
  | bind _ _ first further => exact first.bind further
  | keeping indices _ ih => exact ih.keeping indices
  | callSync callee this arguments => exact callSync discreet calm callee this arguments

/-- Operations that call nothing look at no registers. -/
theorem Discreet.quiet {action : Exec α} (parallel : Engine.spent.Parallel .spent action action) :
    Discreet manners extent front given action := by
  refine ⟨.quiet parallel.operates, ?_⟩
  have quiet : Discreet { manners with wakes := false } extent front given action :=
    .operation (.spent _) (fun _ _ wakes => absurd wakes Bool.false_ne_true) parallel
  exact fun {_ _} => quiet.oblivious

/-! ## Script functions -/

namespace Oblivious

variable {veil : Veil} {machine : Machine} {base : Nat}

theorem raise_bind {following : α → Exec β} (fault : Fault) :
    Oblivious veil (Exec.raise fault >>= following) machine :=
  (raise fault).bind fun value next result => absurd result (by simp [Exec.raise])

theorem prepareArguments (routine : Routine) (high : veil.floor ≤ base) (count : Nat) :
    Oblivious veil (Exec.prepareArguments routine base count) machine := by
  have collect : ∀ machine, Oblivious veil (if routine.isVariadic then do
      let extra ← Exec.takeRange (base + (routine.parameterCount - 1)) (base + count)
      Exec.setPlace (base + (routine.parameterCount - 1)) (← Exec.newArray extra)
    else Pure.pure ()) machine := by
    intro machine
    split
    · exact (takeRange (Nat.le_add_right_of_le high) _).bind fun _ _ _ =>
        (newArray _).bind fun _ _ _ => setPlace (Nat.le_add_right_of_le high) _
    · exact pure ()
  rw [Exec.prepareArguments]
  split
  · exact collect machine
  · exact raise_bind _

theorem enterClosure (ref : Ref .closure) (high : veil.floor ≤ base) (count : Nat)
    (target : Option UInt8) (isRoot : Bool) :
    Oblivious veil (Exec.enterClosure ref base count target isRoot) machine :=
  read_bind ((prepareArguments _ high count).bind fun _ _ _ =>
    (pushFrame _).bind fun _ _ _ => Oblivious.count _)

theorem createGenerator (ref : Ref .closure) (high : veil.floor ≤ base) (count : Nat) :
    Oblivious veil (Exec.createGenerator ref base count) machine :=
  read_bind ((prepareArguments _ high count).bind fun _ _ _ =>
    (takeRange high _).bind fun _ _ _ => (alloc _).bind fun _ _ _ =>
      (Oblivious.count _).bind fun _ _ _ => pure _)

end Oblivious

/-! ## Host functions and classes -/

theorem Oblivious.callNative (discreet : engine.Discreet manners) {veil : Veil}
    {machine : Machine} (ready : machine.Ready)
    (calm : machine.fiber.activity.Calm manners) (ref : Ref .native) {base : Nat}
    (high : veil.floor ≤ base) (count : Nat) :
    Oblivious veil (Exec.callNative engine ref base count) machine := by
  refine read_bind ((range high _).bind fun arguments next seen => ?_)
  obtain ⟨_, rfl⟩ := EStateM.Result.ok.inj seen
  let native : Native := machine.heap.get ref
  have checks : (Exec.ofExcept (native.checkArguments arguments.toList)).Meets machine
      (fun _ next => machine = next) (fun _ _ => True) fun _ => True := by
    cases native.checkArguments arguments.toList with
    | ok => exact rfl
    | error => exact trivial
  refine bind_meets checks (ofExcept _) ?_
  rintro _ _ rfl
  refine get_bind (ofFiber_bind ?_ rfl) fun _ => rfl
  split
  · exact raise_bind _
  · refine onFiber_bind ?_ rfl rfl
    let entered := machine.mapFiber fun fiber =>
      { fiber with
        nativeCalls := fiber.nativeCalls + 1
        natives := ⟨ref, base, count⟩ :: fiber.natives
        counters := { fiber.counters with nativeCalls := fiber.counters.nativeCalls + 1 } }
    have ready : entered.Ready := ready.changeFiber rfl rfl
    exact ensuring (discreet.native _ ⟨ref, base, count⟩ high ready rfl calm)
      (fun _ _ => rfl) (fun _ suits => suits.congr rfl rfl) fun _ => .of_eq rfl rfl

theorem Discreet.construct (discreet : engine.Discreet manners) {base : Nat}
    (placed : ∀ activity, given activity → activity.Calm manners ∧ activity.Under base)
    (ref : Ref .cls) (count : Nat) :
    Discreet manners (.below base) base given (Exec.construct engine ref base count) := by
  refine Discreet.bind ?_ fun object => Discreet.bind (view fun _ _ _ => rfl) fun cls => ?_
  · exact operation discreet (fun _ holds => (placed _ holds).1) (.instantiate ref)
  · split
    · exact pure _
    · refine (Discreet.direct (.setPlace (Nat.le_refl _) _) fun high => .setPlace high _).bind
        fun _ => (holding _ (discard ?_)).bind fun _ => pure _
      exact (callAt discreet _ base count).mono placed

/-! ## Calls of all values -/

theorem Oblivious.callValue (discreet : engine.Discreet manners) {veil : Veil}
    {machine : Machine} (ready : machine.Ready) {base : Nat}
    (fits : base ≤ machine.fiber.stack.size) (calm : machine.fiber.activity.Calm manners)
    (under : machine.fiber.activity.Under base) (high : veil.floor ≤ base) (callee : Value)
    (count : Nat) (target : Option UInt8) (isRoot : Bool) :
    Oblivious veil (Exec.callValue engine callee base count target isRoot) machine := by
  cases callee with
  | closure ref =>
      refine read_bind ?_
      split
      · exact (createGenerator ref high count).bind fun _ _ _ => pure _
      · exact (enterClosure ref high count target isRoot).bind fun _ _ _ => pure _
  | native ref =>
      refine (callNative discreet ready calm ref high count).bind fun result _ _ => ?_
      cases result with
      | value | nothing | suspend => exact pure _
  | cls ref =>
      have built : Discreet manners (.below base) base
          (fun activity => activity.Calm manners ∧ activity.Under base) _ :=
        .construct discreet (fun _ => id) ref count
      exact (built.oblivious high ready fits ⟨calm, under⟩).bind fun _ _ _ => pure _
  | _ =>
      refine ok_bind rfl (hook? _ _) ?_
      cases machine.heap.hook? _ .call with
      | none => exact raise _
      | some handler =>
          refine (range high _).bind fun arguments next seen => ?_
          obtain ⟨_, rfl⟩ := EStateM.Result.ok.inj seen
          have called : ∀ this arguments, Discreet manners (.below base) base
              (Activity.Calm manners) (engine.callSync handler this arguments) :=
            .callSync discreet (fun _ => id) handler
          exact ((called _ _).oblivious high ready fits calm).bind fun _ _ _ => pure _

/-! ## Calls that wait for their result -/

/-- A call that waits for its result looks at the number of registers and frames only. -/
theorem Oblivious.awaiting {veil : Veil} {machine : Machine} {inner : Nat → Exec Outcome}
    (oblivious : Oblivious veil (inner machine.fiber.stack.depth)
      (machine.mapFiber fun fiber => { fiber with syncCalls := fiber.syncCalls + 1 })) :
    Oblivious veil (do
      let size ← Exec.stackSize
      let root ← Exec.depth
      Exec.onFiber fun fiber => { fiber with syncCalls := fiber.syncCalls + 1 }
      let result ← Exec.attempt (inner root)
      Exec.onFiber fun fiber => { fiber with syncCalls := fiber.syncCalls - 1 }
      Exec.resize size
      match ← Exec.ofResult result with
      | .completed value => return value
      | .suspended _ => Exec.raise .nestedSuspension : Exec Value) machine := by
  refine .of_suits fun suits => ofFiber_bind (ofFiber_bind ?_ rfl) (veil.size_stack _)
  refine onFiber_bind (oblivious.attempt.bind fun result next _ => ?_) rfl rfl
  refine onFiber_bind ((resize suits.room).bind fun _ _ _ => ?_) rfl rfl
  refine (ofResult result).bind fun outcome _ _ => ?_
  cases outcome with
  | completed value => exact pure value
  | suspended value => exact raise _

/-- Running the frame that a call has added. -/
theorem Oblivious.runEntered (discreet : engine.Discreet manners) {veil : Veil}
    {machine next : Machine}
    {callee : Frame} (isRoot : callee.isRoot = true) (enters : machine.Enters manners callee next)
    (calm : machine.fiber.activity.Calm manners) (high : veil.floor ≤ callee.base) :
    Oblivious veil (engine.runFrames machine.fiber.stack.depth) next :=
  discreet.runFrames high rfl (enters.running isRoot calm)

theorem Oblivious.callAt (discreet : engine.Discreet manners) {veil : Veil}
    {machine : Machine} (ready : machine.Ready) {base : Nat}
    (fits : base ≤ machine.fiber.stack.size) (calm : machine.fiber.activity.Calm manners)
    (under : machine.fiber.activity.Under base) (high : veil.floor ≤ base) (callee : Value)
    (count : Nat) : Oblivious veil (Exec.callAt engine callee base count) machine := by
  refine awaiting ?_
  let counted := machine.mapFiber fun fiber => { fiber with syncCalls := fiber.syncCalls + 1 }
  have ready : counted.Ready := ready.changeFiber rfl rfl
  refine bind_meets
    (meets_callValue discreet.calls discreet.natives ready fits calm under callee count none true)
    (callValue discreet ready fits calm under high callee count none true)
    fun result next started => ?_
  cases result with
  | pushed =>
      obtain ⟨frame, place, _, isRoot, enters⟩ := started
      have runs := runEntered discreet isRoot enters calm (place ▸ high)
      exact runs
  | done value => exact pure _
  | suspend value => exact raise _

/-! ## Generators -/

theorem Oblivious.resumeInto {veil : Veil} {machine : Machine} (ref : Ref .generator)
    (target : Option UInt8) (isRoot : Bool) :
    Oblivious veil (Exec.resumeInto ref target isRoot) machine := by
  refine .of_suits fun suits => read_bind ?_
  generalize (machine.heap.get ref : Generator) = generator
  cases generator.state with
  | running => exact raise _
  | dead => exact raise _
  | suspended =>
      refine read_bind (ofFiber_bind ((update _ _).bind fun _ _ _ => ?_) (veil.size_stack _))
      have pushed : ∀ (frame : Frame) (machine : Machine), Oblivious veil
          (generator.window.forM Exec.push >>= fun _ => Exec.pushFrame frame) machine := by
        intro frame machine
        rw [forM_array]
        exact (forM (fun value _ => push value) machine).bind fun _ _ _ => pushFrame frame
      refine (pushed _ _).attempt.bind fun result _ _ => ?_
      cases result with
      | error fault =>
          exact (truncate suits.room).bind fun _ _ _ => (update _ _).bind fun _ _ _ =>
            passOn fault
      | ok =>
          exact ofFiber_bind (onFiber_bind (Oblivious.count _) rfl rfl) rfl

theorem Oblivious.resumeGenerator (discreet : engine.Discreet manners) {veil : Veil}
    {machine : Machine} (ready : machine.Ready)
    (calm : machine.fiber.activity.Calm manners) (ref : Ref .generator) :
    Oblivious veil (Exec.resumeGenerator engine ref) machine := by
  refine .of_suits fun suits => awaiting ?_
  let counted := machine.mapFiber fun fiber => { fiber with syncCalls := fiber.syncCalls + 1 }
  have ready : counted.Ready := ready.changeFiber rfl rfl
  refine bind_meets (meets_resumeInto manners ready ref none true) (resumeInto ref none true) ?_
  rintro _ next ⟨callee, place, _, isRoot, enters⟩
  have runs := runEntered discreet isRoot enters calm (place ▸ suits.room)
  exact runs

end Exec

end ScriptMachine
