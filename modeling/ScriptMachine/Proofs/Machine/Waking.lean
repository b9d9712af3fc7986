import ScriptMachine.Proofs.Machine.Suspension
import ScriptMachine.Proofs.Machine.Generators

/-!
# Waking a suspended fiber

A fiber that has been suspended in its outermost run loop goes on there when it is woken.  So an
entry that is woken with some values whenever it has been suspended leads where it leads if the host
function replies with these values, and the other way round.
-/

namespace ScriptMachine

open Exec

/-- The engine runs loops of so many steps. -/
def Engine.looping (engine : Engine) (steps : Nat) : Engine where
  callAt := engine.callAt
  runFrames := Exec.runFrames engine steps
  native := engine.native

/-- Where an entry into a fiber begins in which nothing is active. -/
def EntryPoint.bottom : EntryPoint := ⟨0, 0, .idle, true⟩

/-- The frames of a fiber in which nothing else is active. -/
def Scope.bottom : Scope := ⟨0, 0, Nat.le_refl 0, 0, none, none⟩

/-- How many host functions the running fiber has run. -/
def Machine.ran (machine : Machine) : Nat := machine.fiber.counters.nativeCalls

/-- What is left to do in the outermost run loop, and where it ends. -/
def Exec.finishing (engine : Engine) (steps : Nat) : Exec Outcome :=
  attempt (ensuring Machine.unnested (loop engine 0 steps)) >>= finishEntry engine .bottom

/-- The outermost run loop has begun. -/
structure Machine.Outermost (start : Machine) : Prop where
  state : start.fiber.state = .running
  suspended : start.fiber.suspended = none
  natives : start.fiber.natives = []
  nativeCalls : start.fiber.nativeCalls = 1
  nesting : start.fiber.nesting = 1
  syncCalls : start.fiber.syncCalls = 0
  limit : 0 < start.limits.nativeCalls

theorem Machine.Outermost.canSuspend {start : Machine} (outermost : start.Outermost) :
    start.fiber.canSuspend = true := by
  simp [Fiber.canSuspend, outermost.nesting, outermost.natives, outermost.syncCalls]

namespace Machine

theorem nested_unnested {machine : Machine} (nativeCalls : machine.fiber.nativeCalls = 1)
    (nesting : machine.fiber.nesting = 1) : machine.unnested.nested = machine := by
  calc machine.unnested.nested = machine.mapFiber fun fiber =>
        { fiber with
          nativeCalls := machine.fiber.nativeCalls - 1 + 1
          nesting := machine.fiber.nesting - 1 + 1 } := rfl
    _ = machine.mapFiber fun fiber =>
        { fiber with
          nativeCalls := machine.fiber.nativeCalls
          nesting := machine.fiber.nesting } := by
      rw [nativeCalls, nesting]
    _ = machine := rfl

theorem ran_delivered (machine : Machine) (target : Option UInt8) (value : Value) :
    (machine.delivered target value).ran = machine.ran := by
  cases target with
  | none | some => rfl

theorem delivered_unnested (machine : Machine) (target : Option UInt8) (value : Value) :
    machine.unnested.delivered target value = (machine.delivered target value).unnested := by
  cases target with
  | none | some => rfl

end Machine

namespace Exec

open Machine

variable {manners : Manners} {scope : Scope} {start machine next : Machine} {engine : Engine}
  {name : String} (look : Machine → Value) (reply : Nat → Value)

theorem finishEntry_congr {other : Engine} (calls : engine.callAt = other.callAt)
    (point : EntryPoint) (result : Except Fault Outcome) :
    finishEntry engine point result = finishEntry other point result := by
  refine Exec.Below.eq (.finishEntry (fun callee base count => ?_) point result)
  rw [calls]
  exact .refl _

theorem avoids_finishEntry (engine : Engine) (point : EntryPoint) {result : Except Fault Outcome}
    (other : ¬ ∃ outcome, result = .ok outcome ∧ outcome.Suspends) :
    (finishEntry engine point result).Avoids Outcome.Suspends := by
  cases result with
  | error fault =>
      refine .bind fun _ => .bind fun _ => .bind fun _ => ?_
      split
      · exact .bind fun _ => .passOn fault
      · exact .passOn fault
  | ok outcome =>
      cases outcome with
      | completed value =>
          exact .bind fun _ => .bind fun _ => .pure fun ⟨_, same⟩ => by simp at same
      | suspended value => exact absurd ⟨_, rfl, value, rfl⟩ other

theorem finishing_congr {steps fewer : Nat}
    (same : loop engine 0 steps machine = loop engine 0 fewer next) :
    finishing engine steps machine = finishing engine fewer next := by
  have attempts : attempt (ensuring unnested (loop engine 0 steps)) machine =
      attempt (ensuring unnested (loop engine 0 fewer)) next := by
    rw [attempt, attempt, ensuring, ensuring, same]
  show EStateM.bind _ _ machine = EStateM.bind _ _ next
  rw [EStateM.bind, EStateM.bind, attempts]

/-- With more steps the run loop ends as it has ended with fewer. -/
theorem below_finishing (engine : Engine) {fewer steps : Nat} (le : fewer ≤ steps) :
    (finishing engine fewer).Below (fun _ => True) (finishing engine steps) := by
  have loops : (loopUntil (fun _ => false) engine 0 fewer).Below (fun _ => True)
      (loopUntil (fun _ => false) engine 0 steps) :=
    .loopUntil (.refl engine) 0 (fun _ => .inl rfl) le fun _ _ => trivial
  rw [loopUntil_never, loopUntil_never] at loops
  exact (loops.ensuring _).attempt.bind fun _ => .refl _

/-- Where the outermost run loop begins. -/
theorem nestLoop_of_room (room : ¬ machine.limits.nativeCalls ≤ machine.fiber.nativeCalls)
    (body : Exec Outcome) (root : Nat) :
    nestLoop root body machine = ensuring unnested body machine.nested := by
  rw [nestLoop, get_bind, ofFiber_bind, if_neg room]
  rfl

/-- An outermost run loop that has been left is entered again, with a value. -/
theorem continueAt_unnested (nativeCalls : machine.fiber.nativeCalls = 1)
    (nesting : machine.fiber.nesting = 1) (limit : 0 < machine.limits.nativeCalls)
    (above : 0 < machine.fiber.stack.depth) {target : Option UInt8}
    (fits : ∀ number, target = some number →
      machine.fiber.base + number.toNat < machine.fiber.stack.size) (steps : Nat) (value : Value) :
    continueAt (engine.looping steps) ⟨target, 0, 0⟩ value machine.unnested =
      ensuring unnested (loop engine 0 steps) (machine.delivered target value) := by
  have again : (machine.unnested.delivered target value).nested =
      machine.delivered target value := by
    rw [delivered_unnested]
    refine nested_unnested ?_ ?_
    · cases target with
      | none | some => exact nativeCalls
    · cases target with
      | none | some => exact nesting
  have room : ¬ (machine.unnested.delivered target value).limits.nativeCalls ≤
      (machine.unnested.delivered target value).fiber.nativeCalls := by
    have none : (machine.unnested.delivered target value).fiber.nativeCalls = 0 := by
      cases target with
      | none | some => exact congrArg (· - 1) nativeCalls
    have same : (machine.unnested.delivered target value).limits = machine.limits := by
      cases target with
      | none | some => rfl
    rw [none, same]
    exact Nat.not_le_of_gt limit
  have fits : ∀ number, target = some number →
      machine.unnested.fiber.base + number.toNat < machine.unnested.fiber.stack.size := fits
  rw [continueAt, depth, ofFiber_bind]
  refine (congrFun (if_neg (Nat.not_le_of_gt above)) _).trans ?_
  refine (ok_bind (deliver_eq fits value)).trans ?_
  refine (nestLoop_of_room room (loop engine 0 steps) 0).trans ?_
  rw [again]

/-- A fiber that has been suspended in its outermost run loop goes on there when it is woken. -/
theorem wakeup_of_halted (outermost : start.Outermost)
    (running : start.Running manners .bottom machine) {target : Option UInt8}
    (fits : ∀ number, target = some number →
      machine.fiber.base + number.toNat < machine.fiber.stack.size)
    (limits : machine.limits = start.limits) (steps : Nat) (value : Value) :
    wakeup (engine.looping steps) value
        (machine.called.pausedAt target).unnested.suspendedAt =
      finishing engine steps (machine.called.delivered target value) := by
  have below := running.below
  have state : machine.fiber.state = .running := below.state.trans outermost.state
  have suspended : machine.fiber.suspended = none := below.suspended.trans outermost.suspended
  let woken := machine.called.unnested.mapFiber fun fiber =>
    { fiber with state := .running, suspended := none }
  have same : woken = machine.called.unnested := by
    calc woken = machine.called.unnested.mapFiber fun fiber =>
          { fiber with state := machine.fiber.state, suspended := machine.fiber.suspended } := by
            rw [state, suspended]
      _ = machine.called.unnested := rfl
  have limit : 0 < machine.called.limits.nativeCalls := limits ▸ outermost.limit
  have continued : continueAt (engine.looping steps) ⟨target, 0, 0⟩ value woken =
      ensuring unnested (loop engine 0 steps) (machine.called.delivered target value) := by
    rw [same]
    refine continueAt_unnested ?_ ?_ limit running.above fits steps value
    · exact below.nativeCalls.trans outermost.nativeCalls
    · exact below.nesting.trans outermost.nesting
  have attempts : attempt (continueAt (engine.looping steps) ⟨target, 0, 0⟩ value) woken =
      attempt (ensuring unnested (loop engine 0 steps))
        (machine.called.delivered target value) := by
    rw [attempt, attempt, continued]
  have finishes : finishEntry (engine.looping steps) .bottom = finishEntry engine .bottom :=
    funext (finishEntry_congr rfl .bottom)
  calc wakeup (engine.looping steps) value (machine.called.pausedAt target).unnested.suspendedAt
      = (attempt (continueAt (engine.looping steps) ⟨target, 0, 0⟩ value) >>=
          finishEntry (engine.looping steps) .bottom) woken := rfl
    _ = finishing engine steps (machine.called.delivered target value) := by
      rw [finishes]
      show EStateM.bind _ _ woken = EStateM.bind _ _ _
      rw [EStateM.bind, EStateM.bind, attempts]

/-- What is left of an outermost run loop has suspended the fiber, and waking it leads where the
reply leads. -/
structure FinishingParts (engine : Engine) (name : String) (look : Machine → Value)
    (reply : Nat → Value) (manners : Manners) (fewer : Nat) (start machine : Machine)
    (handed : Value) (paused next : Machine) (used : Nat) : Prop where
  halts : finishing (engine.answering name (.pausing look)) fewer machine =
    .ok (.suspended handed) paused
  later : machine.ran < paused.ran
  ran : next.ran = paused.ran
  /-- There both go on. -/
  proceeds : start.Proceeds manners .bottom next
  wakes : ∀ steps, wakeup ((engine.answering name (.pausing look)).looping steps)
    (reply paused.ran) paused = finishing (engine.answering name (.pausing look)) steps next
  /-- So many steps have been made. -/
  some : 0 < used
  less : used ≤ fewer
  answers : ∀ more, finishing (engine.answering name (.replying reply)) (more + used) machine =
    finishing (engine.answering name (.replying reply)) more next

/-- What is left of an outermost run loop suspends the fiber, or the function does not matter. -/
theorem finishing_answering
    (others : ∀ symbol, symbol ≠ name → (engine.native symbol).Avoids NativeReturn.Suspends)
    (sure : (engine.answering name (.replying reply)).Sure manners)
    (outermost : start.Outermost) (fewer : Nat)
    (proceeds : start.Proceeds manners .bottom machine) :
    Agree Outcome.Suspends machine
        (finishing (engine.answering name (.pausing look)) fewer)
        (finishing (engine.answering name (.replying reply)) fewer) ∨
      ∃ handed paused next used,
        FinishingParts engine name look reply manners fewer start machine handed paused next
          used := by
  have same : ∀ result, finishEntry (engine.answering name (.pausing look)) .bottom result =
      finishEntry (engine.answering name (.replying reply)) .bottom result :=
    finishEntry_congr rfl .bottom
  rcases loop_answering look reply others sure rfl outermost.canSuspend fewer proceeds with
    agree | ⟨halted, handed, target, used, parts⟩
  · left
    have agree := (agree.ensuring Machine.unnested).attempt.bind fun result other =>
      avoids_finishEntry (engine.answering name (.pausing look)) .bottom other
    refine ⟨agree.1.trans ?_, agree.2⟩
    rw [finishing, funext same]
    rfl
  · have limits : halted.limits = start.limits := by
      refine Eq.trans ?_ parts.proceeds.stands.limits
      cases target with
      | none | some => rfl
    exact .inr ⟨handed, (halted.called.pausedAt target).unnested.suspendedAt,
      halted.called.delivered target (reply halted.called.ran), used,
      { halts := ok_bind (attempt_ok (ensuring_ok parts.asks))
        later := Nat.lt_succ_of_le parts.counted
        ran := ran_delivered _ _ _
        proceeds := parts.proceeds
        wakes := fun steps => wakeup_of_halted outermost parts.running parts.fits limits steps _
        some := parts.some
        less := parts.less
        answers := fun more => finishing_congr (parts.answers more) }⟩

end Exec

/-! ## Waking again and again -/

/-- The entry has come to its end. -/
def Exec.Concludes (result : EStateM.Result Stop Machine Outcome) : Prop :=
  match result with
  | .ok (.completed _) _ | .error (.raised _) _ => True
  | .ok (.suspended _) _ | .error .exhausted _ => False

theorem Exec.Concludes.ends {action : Exec Outcome} {machine : Machine}
    {last : EStateM.Result Stop Machine Outcome} (concludes : Exec.Concludes last)
    (result : action machine = last) (next : Machine) :
    action machine ≠ .error .exhausted next := by
  rintro cut
  rw [← result, cut] at concludes
  exact concludes

/-- An entry that has led to a result so far leads to another one when it is woken with some values.
With each value stands how many host functions the fiber had run when it was suspended. -/
inductive Exec.Wakes (wake : Value → Exec Outcome) (ran : Machine → Nat) :
    EStateM.Result Stop Machine Outcome → List (Nat × Value) →
      EStateM.Result Stop Machine Outcome → Prop
  /-- The entry has come to its end. -/
  | ended {last : EStateM.Result Stop Machine Outcome} :
      Exec.Concludes last → Wakes wake ran last [] last
  /-- It has been suspended and is woken with a value. -/
  | woken {handed value : Value} {paused : Machine} {history : List (Nat × Value)}
      {last : EStateM.Result Stop Machine Outcome} :
      Wakes wake ran (wake value paused) history last →
      Wakes wake ran (.ok (.suspended handed) paused) ((ran paused, value) :: history) last

/-- The values are those that a function replies with. -/
def Exec.Recounts (reply : Nat → Value) (history : List (Nat × Value)) : Prop :=
  ∀ entry ∈ history, reply entry.1 = entry.2

namespace Exec

open Machine

variable {manners : Manners} {start machine : Machine} {engine : Engine} {name : String}
  {look : Machine → Value} {reply : Nat → Value} {history : List (Nat × Value)}
  {last : EStateM.Result Stop Machine Outcome} {steps : Nat}
  (others : ∀ symbol, symbol ≠ name → (engine.native symbol).Avoids NativeReturn.Suspends)
  (sure : ∀ reply, (engine.answering name (.replying reply)).Sure manners)
  (outermost : start.Outermost)

include others sure outermost

/-- What the suspending functions lead to, the replying ones do. -/
theorem finishing_of_wakes (proceeds : start.Proceeds manners .bottom machine) {fewer : Nat}
    (wakes : Wakes (wakeup ((engine.answering name (.pausing look)).looping steps)) Machine.ran
      (finishing (engine.answering name (.pausing look)) fewer machine) history last) :
    history.Pairwise (·.1 < ·.1) ∧ (∀ entry ∈ history, machine.ran < entry.1) ∧
      ∀ reply, Recounts reply history → ∃ total,
        finishing (engine.answering name (.replying reply)) total machine = last := by
  generalize begun : finishing (engine.answering name (.pausing look)) fewer machine = result
    at wakes
  induction wakes generalizing machine fewer with
  | ended concludes =>
      refine ⟨.nil, by simp, fun reply _ => ⟨fewer, ?_⟩⟩
      rcases finishing_answering look reply others (sure reply) outermost fewer proceeds with
        agree | ⟨handed, paused, next, used, parts⟩
      · exact agree.1.symm.trans begun
      · rw [parts.halts] at begun
        rw [← begun] at concludes
        exact concludes.elim
  | @woken handed value paused history last wakes ih =>
      -- However the function is answered elsewhere, here it is answered with the value.
      have goesOn : ∀ reply : Nat → Value, reply paused.ran = value →
          ∃ next used, FinishingParts engine name look reply manners fewer start machine handed
            paused next used := by
        intro reply here
        rcases finishing_answering look reply others (sure reply) outermost fewer proceeds with
          agree | ⟨_, _, next, used, parts⟩
        · exact absurd ⟨handed, rfl⟩ (agree.2 _ _ begun)
        · have halts := parts.halts
          rw [halts] at begun
          cases begun
          exact ⟨next, used, parts⟩
      obtain ⟨next, _, parts⟩ := goesOn (fun _ => value) rfl
      obtain ⟨increasing, above, _⟩ := ih parts.proceeds (parts.wakes steps).symm
      rw [parts.ran] at above
      refine ⟨List.pairwise_cons.mpr ⟨above, increasing⟩, ?_, fun reply recounts => ?_⟩
      · intro entry member
        rcases List.mem_cons.mp member with rfl | member
        · exact parts.later
        · exact Nat.lt_trans parts.later (above entry member)
      · obtain ⟨here, recounts⟩ := List.forall_mem_cons.mp recounts
        obtain ⟨next, used, parts⟩ := goesOn reply here
        have again := here ▸ (parts.wakes steps).symm
        obtain ⟨total, answered⟩ := (ih parts.proceeds again).2.2 reply recounts
        exact ⟨total + used, (parts.answers total).trans answered⟩

/-- What the replying functions lead to, the suspending ones do. -/
theorem wakes_of_finishing (proceeds : start.Proceeds manners .bottom machine) {fewer : Nat}
    (le : fewer ≤ steps) (concludes : Concludes last)
    (done : finishing (engine.answering name (.replying reply)) fewer machine = last) :
    ∃ history, Recounts reply history ∧
      Wakes (wakeup ((engine.answering name (.pausing look)).looping steps)) Machine.ran
        (finishing (engine.answering name (.pausing look)) steps machine) history last := by
  induction fewer using Nat.strongRecOn generalizing machine with
  | ind fewer ih =>
      rcases finishing_answering look reply others (sure reply) outermost fewer proceeds with
        agree | ⟨handed, paused, next, used, parts⟩
      · refine ⟨[], by simp [Recounts], ?_⟩
        have ends := agree.1.trans done
        rw [(below_finishing _ le).eq_of_ends (concludes.ends ends)] at ends
        rw [ends]
        exact .ended concludes
      · have remains : fewer - used + used = fewer := Nat.sub_add_cancel parts.less
        have sooner : fewer - used < fewer := Nat.sub_lt_self parts.some parts.less
        rw [← remains, parts.answers] at done
        obtain ⟨history, recounts, ends⟩ := ih (fewer - used) sooner parts.proceeds
          (Nat.le_trans (Nat.sub_le _ _) le) done
        refine ⟨(paused.ran, reply paused.ran) :: history, ?_, ?_⟩
        · exact List.forall_mem_cons.mpr ⟨rfl, recounts⟩
        · have halts := parts.halts
          rw [(below_finishing _ le).eq_of_ends (by simp [halts])] at halts
          rw [halts]
          refine .woken ?_
          rw [parts.wakes]
          exact ends

end Exec

/-! ## Entries -/

namespace Machine

variable {manners : Manners} {before machine after : Machine}

theorem Stands.nested (stands : before.Stands after) : before.nested.Stands after.nested where
  roomy := ⟨stands.roomy.fiber, stands.roomy.waiting, stands.roomy.heap⟩
  waiting := stands.waiting
  reporting := stands.reporting
  maxSlots := stands.maxSlots
  limits := stands.limits
  held := stands.held
  lent := stands.lent
  counted := stands.counted

theorem outermost_nested (vacant : machine.fiber.Vacant) (limit : 0 < machine.limits.nativeCalls) :
    (machine.withState .running).nested.Outermost where
  state := rfl
  suspended := vacant.suspended
  natives := vacant.natives
  nativeCalls := congrArg (· + 1) vacant.nativeCalls
  nesting := congrArg (· + 1) vacant.nesting
  syncCalls := vacant.syncCalls
  limit := limit

end Machine

namespace Exec

open Machine

variable {manners : Manners} {machine filled next : Machine} {engine : Engine} {name : String}
  {look : Machine → Value} {reply : Nat → Value} {steps : Nat} {callee this : Value}
  {arguments : List Value}

theorem runWithThis_of_vacant (vacant : machine.fiber.Vacant) (engine : Engine)
    (callee this : Value) (arguments : List Value) :
    runWithThis engine callee this arguments machine =
      (attempt (beginEntry engine .bottom callee this arguments) >>= finishEntry engine .bottom)
        (machine.withState .running) := by
  have bottom : entryPoint machine = .bottom := by
    simp [entryPoint, EntryPoint.bottom, Stack.size, Stack.depth, Fiber.isOutermost, vacant.slots,
      vacant.frames, vacant.state, vacant.natives, vacant.nesting, vacant.syncCalls]
  rw [runWithThis_eq (by rw [vacant.state]; decide), bottom]

/-- Arguments are added to the registers. -/
theorem returns_of_pushArguments (ready : machine.Ready)
    (pushed : Engine.pushArguments this arguments machine = .ok () filled) :
    machine.Returns manners (.below machine.fiber.stack.size) filled := by
  have steady : Steady manners (.below machine.fiber.stack.size) (fun _ => True)
    (Engine.pushArguments this arguments) := .pushArguments this arguments
  have returns := steady machine ready (Nat.le_refl _) trivial
  rw [Meets, pushed] at returns
  exact returns

/-- Where an entry begins, the machine is ready. -/
theorem ready_of_vacant (sound : machine.Sound) (vacant : machine.fiber.Vacant) :
    (machine.withState .running).Ready :=
  (sound.ready_of_atRest (.inl vacant)).changeFiber rfl rfl

theorem returns_of_vacant (manners : Manners) (sound : machine.Sound)
    (vacant : machine.fiber.Vacant)
    (pushed : Engine.pushArguments this arguments (machine.withState .running) = .ok () filled) :
    (machine.withState .running).Returns manners (.below 0) filled := by
  have size : (machine.withState .running).fiber.stack.size = 0 :=
    congrArg Array.size vacant.slots
  exact size ▸ returns_of_pushArguments (ready_of_vacant sound vacant) pushed

/-- A frame has been added in a fiber in which nothing else is active. -/
theorem proceeds_of_entry (sure : engine.Sure manners) (sound : machine.Sound)
    (roomy : machine.Roomy) (vacant : machine.fiber.Vacant)
    (pushed : Engine.pushArguments this arguments (machine.withState .running) = .ok () filled)
    (entered : callValue engine callee 0 (arguments.length + 1) none true filled =
      .ok .pushed next) :
    (machine.withState .running).nested.Proceeds manners .bottom next.nested := by
  have ready := ready_of_vacant sound vacant
  have depth : (machine.withState .running).fiber.stack.depth = 0 :=
    congrArg Array.size vacant.frames
  have calm : (machine.withState .running).fiber.activity.Calm manners := fun _ => by
    simp [withState, mapFiber, Fiber.activity]
  have returns := returns_of_vacant manners sound vacant pushed
  have under : filled.fiber.activity.Under 0 := by
    intro frame current
    have none : (machine.withState .running).fiber.activity.frames = #[] := vacant.frames
    rw [returns.keeps.activity, none] at current
    exact absurd current (by simp)
  have began := meets_callValue sure.calls sure.natives (returns.keeps.ready ready) (Nat.zero_le _)
    (returns.keeps.activity ▸ calm) under callee (arguments.length + 1) none true
  rw [Meets, entered] at began
  obtain ⟨frame, place, target, isRoot, enters⟩ := began
  have enters : (machine.withState .running).Enters manners frame next :=
    returns.enters (Nat.le_of_eq place) (Nat.le_trans (Nat.le_of_eq place) (Nat.zero_le _)) enters
  have running := enters.running isRoot calm
  rw [place, target] at running
  have bottom : (⟨(machine.withState .running).fiber.stack.depth,
      (machine.withState .running).fiber.stack.depth, Nat.le_refl _, 0,
      none, none⟩ : Scope) = .bottom := by simp [Scope.bottom, depth]
  rw [bottom] at running
  refine ⟨running.nested, Stands.nested ?_⟩
  have first : (machine.withState .running).Roomy := ⟨roomy.fiber, roomy.waiting, roomy.heap⟩
  have fills : Exec.FaithfulAt False (Engine.pushArguments this arguments) _ :=
    Faithful.pushArguments this arguments _ first
  rw [FaithfulAt, Meets, pushed] at fills
  have enters := Faithful.callValue sure.faithful callee 0 (arguments.length + 1) none true _
    fills.roomy
  rw [FaithfulAt, Meets, entered] at enters
  exact fills.1.trans enters.1

end Exec

namespace Machine

/-- The fiber has come to a result that is handed out. -/
def concluded (machine : Machine) : Machine :=
  (machine.mapStack (·.truncate 0)).withState .idle

end Machine

namespace Exec

open Machine

variable {manners : Manners} {machine filled next : Machine} {engine : Engine} {name : String}
  {look : Machine → Value} {reply : Nat → Value} {steps : Nat} {callee this : Value}
  {arguments : List Value}

/-- However long its run loops are, an engine begins calls in the same way. -/
theorem callValue_looping (engine : Engine) (steps : Nat) (callee : Value) (base count : Nat)
    (target : Option UInt8) (isRoot : Bool) :
    callValue (engine.looping steps) callee base count target isRoot =
      callValue engine callee base count target isRoot :=
  Exec.Below.eq (Exec.Below.callValue (fun _ _ _ => .refl _) (fun _ => .refl _) callee base count
    target isRoot)

/-- Two entries that begin in the same way end in the same way. -/
theorem Agree.entry {first second : Engine} (calls : first.callAt = second.callAt)
    (vacant : machine.fiber.Vacant)
    (agree : Agree Outcome.Suspends (machine.withState .running)
      (beginEntry first .bottom callee this arguments)
      (beginEntry second .bottom callee this arguments)) :
    Agree Outcome.Suspends machine (runWithThis first callee this arguments)
      (runWithThis second callee this arguments) := by
  rw [Agree, runWithThis_of_vacant vacant, runWithThis_of_vacant vacant,
    ← funext (finishEntry_congr calls .bottom)]
  exact agree.attempt.bind fun result other => avoids_finishEntry first .bottom other

/-- What an entry does once its call has begun. -/
def goingOn (engine : Engine) (steps : Nat) : CallStart → Exec Outcome
  | .pushed => nestLoop 0 (loop engine 0 steps)
  | .done value => return .completed value
  | .suspend value => do
    onFiber fun fiber => { fiber with suspended := some ⟨none, 0, 0⟩ }
    return .suspended value

theorem beginEntry_looping {engine : Engine} {start : CallStart}
    (pushed : Engine.pushArguments this arguments machine = .ok () filled)
    (entered : callValue engine callee 0 (arguments.length + 1) none true filled = .ok start next)
    (steps : Nat) :
    beginEntry (engine.looping steps) .bottom callee this arguments machine =
      goingOn engine steps start next := by
  rw [← callValue_looping engine steps] at entered
  rw [beginEntry, ok_bind pushed]
  refine (ok_bind entered).trans ?_
  cases start with
  | pushed | done | suspend => rfl

theorem beginEntry_of_error {engine : Engine} {stop : Stop}
    (pushed : Engine.pushArguments this arguments machine = .ok () filled)
    (failed : callValue engine callee 0 (arguments.length + 1) none true filled = .error stop next)
    (steps : Nat) :
    beginEntry (engine.looping steps) .bottom callee this arguments machine = .error stop next := by
  rw [← callValue_looping engine steps] at failed
  rw [beginEntry, ok_bind pushed]
  exact error_bind failed

theorem Agree.of_error {results : α → Prop} {action other : Exec α} {stop : Stop}
    (failed : action machine = .error stop next) (failed' : other machine = .error stop next) :
    Agree results machine action other :=
  ⟨failed.trans failed'.symm, fun _ _ done => absurd (failed.symm.trans done) (by simp)⟩

/-- Where run loops are nested too deeply, what they would have run does not matter. -/
theorem nestLoop_congr_of_full (full : machine.limits.nativeCalls ≤ machine.fiber.nativeCalls)
    (root : Nat) (body other : Exec Outcome) :
    nestLoop root body machine = nestLoop root other machine ∧
      ∀ outcome next, nestLoop root body machine ≠ .ok outcome next := by
  have refused : ∀ body : Exec Outcome, nestLoop root body machine =
      (unwindTo root >>= fun _ => raise .nativeStackOverflow : Exec Outcome) machine := by
    intro body
    rw [nestLoop, get_bind, ofFiber_bind, if_pos full]
    rfl
  refine ⟨(refused body).trans (refused other).symm, fun outcome next done => ?_⟩
  obtain ⟨unwound, unwinds⟩ := exists_unwindTo machine root
  rw [refused, ok_bind unwinds] at done
  exact absurd done (by simp [raise])

/-- What an entry comes to once its call has begun. -/
theorem runWithThis_looping (vacant : machine.fiber.Vacant) {engine : Engine} {start : CallStart}
    (pushed : Engine.pushArguments this arguments (machine.withState .running) = .ok () filled)
    (entered : callValue engine callee 0 (arguments.length + 1) none true filled = .ok start next)
    (steps : Nat) :
    runWithThis (engine.looping steps) callee this arguments machine =
      (attempt (goingOn engine steps start) >>= finishEntry engine .bottom) next := by
  have finishes : finishEntry (engine.looping steps) .bottom = finishEntry engine .bottom :=
    funext (finishEntry_congr rfl .bottom)
  rw [runWithThis_of_vacant vacant, finishes]
  show EStateM.bind _ _ (machine.withState .running) = EStateM.bind _ _ next
  rw [EStateM.bind, EStateM.bind, attempt, attempt, beginEntry_looping pushed entered steps]

/-- An entry that adds a frame comes to its outermost run loop. -/
theorem runWithThis_of_pushed (vacant : machine.fiber.Vacant) {engine : Engine}
    (pushed : Engine.pushArguments this arguments (machine.withState .running) = .ok () filled)
    (entered : callValue engine callee 0 (arguments.length + 1) none true filled =
      .ok .pushed next)
    (room : ¬ next.limits.nativeCalls ≤ next.fiber.nativeCalls) (steps : Nat) :
    runWithThis (engine.looping steps) callee this arguments machine =
      finishing engine steps next.nested := by
  have begun : goingOn engine steps .pushed next =
      ensuring unnested (loop engine 0 steps) next.nested := nestLoop_of_room room _ 0
  rw [runWithThis_looping vacant pushed entered]
  show EStateM.bind _ _ next = EStateM.bind _ _ next.nested
  rw [EStateM.bind, EStateM.bind, attempt, attempt, begun]

/-- A fiber that has been suspended by a function that was called directly is done when it is
woken. -/
theorem wakeup_of_called (engine : Engine) (depth : machine.fiber.stack.depth = 0)
    (suspended : machine.fiber.suspended = none) (value : Value) :
    wakeup engine value (machine.pausedAt none).suspendedAt =
      .ok (.completed value) machine.concluded := by
  let woken := machine.mapFiber fun fiber => { fiber with state := .running, suspended := none }
  have continued : continueAt engine ⟨none, 0, 0⟩ value woken = .ok (.completed value) woken := by
    have below : woken.fiber.stack.depth ≤ 0 := Nat.le_of_eq depth
    rw [continueAt, Exec.depth, ofFiber_bind]
    exact congrFun (if_pos below) _
  have ended : wakeup engine value (machine.pausedAt none).suspendedAt =
      .ok (.completed value) woken.concluded := by
    calc wakeup engine value (machine.pausedAt none).suspendedAt
        = (attempt (continueAt engine ⟨none, 0, 0⟩ value) >>= finishEntry engine .bottom)
            woken := rfl
      _ = .ok (.completed value) woken.concluded := by
        rw [ok_bind (attempt_ok continued)]
        rfl
  have same : woken.concluded = machine.concluded := by
    calc woken.concluded = machine.concluded.mapFiber fun fiber =>
          { fiber with suspended := none } := rfl
      _ = machine.concluded.mapFiber fun fiber =>
          { fiber with suspended := machine.fiber.suspended } := by rw [suspended]
      _ = machine.concluded := rfl
  rw [ended, same]

/-- How the two behaviours of a function show in an entry. -/
inductive Answers (engine : Engine) (name : String) (look : Machine → Value) (reply : Nat → Value)
    (manners : Manners) (machine : Machine) (callee this : Value) (arguments : List Value) : Prop
  /-- They do not. -/
  | agreeing (agree : ∀ steps, Agree Outcome.Suspends machine
      (runWithThis ((engine.answering name (.pausing look)).looping steps) callee this arguments)
      (runWithThis ((engine.answering name (.replying reply)).looping steps) callee this arguments))
  /-- They show, if at all, in the run loop that the entry comes to. -/
  | looping (start begun : Machine) (outermost : start.Outermost)
      (proceeds : start.Proceeds manners .bottom begun)
      (asks : ∀ steps, runWithThis ((engine.answering name (.pausing look)).looping steps) callee
        this arguments machine = finishing (engine.answering name (.pausing look)) steps begun)
      (answers : ∀ steps, runWithThis ((engine.answering name (.replying reply)).looping steps)
        callee this arguments machine =
          finishing (engine.answering name (.replying reply)) steps begun)
  /-- The function itself has been called. -/
  | calling (handed : Value) (paused ended : Machine)
      (asks : ∀ steps, runWithThis ((engine.answering name (.pausing look)).looping steps) callee
        this arguments machine = .ok (.suspended handed) paused)
      (goesOn : ∀ steps value, wakeup ((engine.answering name (.pausing look)).looping steps) value
        paused = .ok (.completed value) ended)
      (answers : ∀ steps, runWithThis ((engine.answering name (.replying reply)).looping steps)
        callee this arguments machine = .ok (.completed (reply paused.ran)) ended)

/-- The call that an entry begins with does not depend on the function. -/
theorem entry_agreeing (sure : (engine.answering name (.replying reply)).Sure manners)
    (sound : machine.Sound) (roomy : machine.Roomy) (vacant : machine.fiber.Vacant)
    (pushed : Engine.pushArguments this arguments (machine.withState .running) = .ok () filled)
    (agree : Agree CallStart.Suspends filled
      (callValue (engine.answering name (.pausing look)) callee 0 (arguments.length + 1) none true)
      (callValue (engine.answering name (.replying reply)) callee 0 (arguments.length + 1) none
        true)) :
    Answers engine name look reply manners machine callee this arguments := by
  cases entered : callValue (engine.answering name (.pausing look)) callee 0
      (arguments.length + 1) none true filled with
  | error stop next =>
      refine .agreeing fun steps => Agree.entry rfl vacant ?_
      exact .of_error (beginEntry_of_error pushed entered steps)
        (beginEntry_of_error pushed (agree.1.symm.trans entered) steps)
  | ok start next =>
      have answered := agree.1.symm.trans entered
      cases start with
      | suspend value => exact absurd ⟨value, rfl⟩ (agree.2 _ _ entered)
      | done value =>
          refine .agreeing fun steps => Agree.entry rfl vacant ?_
          rw [Agree, beginEntry_looping pushed entered, beginEntry_looping pushed answered]
          refine ⟨rfl, fun outcome last done => ?_⟩
          rintro ⟨handed, rfl⟩
          cases done
      | pushed =>
          by_cases full : next.limits.nativeCalls ≤ next.fiber.nativeCalls
          · refine .agreeing fun steps => Agree.entry rfl vacant ?_
            rw [Agree, beginEntry_looping pushed entered, beginEntry_looping pushed answered]
            have refused := nestLoop_congr_of_full full 0
              (loop (engine.answering name (.pausing look)) 0 steps)
              (loop (engine.answering name (.replying reply)) 0 steps)
            exact ⟨refused.1, fun outcome last done => absurd done (refused.2 _ _)⟩
          · have proceeds := proceeds_of_entry sure sound roomy vacant pushed answered
            have limits : next.limits = machine.limits := proceeds.stands.limits
            have outermost := Machine.outermost_nested vacant (by rw [← limits]; omega)
            exact .looping _ next.nested outermost proceeds
              (runWithThis_of_pushed vacant pushed entered full)
              (runWithThis_of_pushed vacant pushed answered full)

/-- An entry does not depend on the function, or it comes to a run loop, or the function has been
called directly. -/
theorem entry_answering
    (others : ∀ symbol, symbol ≠ name → (engine.native symbol).Avoids NativeReturn.Suspends)
    (sure : (engine.answering name (.replying reply)).Sure manners) (sound : machine.Sound)
    (roomy : machine.Roomy) (vacant : machine.fiber.Vacant) (callee this : Value)
    (arguments : List Value) :
    Answers engine name look reply manners machine callee this arguments := by
  cases pushed : Engine.pushArguments this arguments (machine.withState .running) with
  | error stop next =>
      refine .agreeing fun steps => Agree.entry rfl vacant ?_
      have fails : ∀ other : Engine, beginEntry other .bottom callee this arguments
          (machine.withState .running) = .error stop next := fun _ => error_bind pushed
      exact .of_error (fails _) (fails _)
  | ok _ filled =>
      rcases callValue_answering look reply others callee 0 (arguments.length + 1) none true filled
        with agree | ⟨handed, asks, answers⟩
      · exact entry_agreeing sure sound roomy vacant pushed agree
      · have same := (returns_of_vacant manners sound vacant pushed).keeps.activity
        have depth : filled.called.fiber.stack.depth = 0 := by
          refine (congrArg (fun activity => activity.frames.size) same).trans ?_
          exact congrArg Array.size vacant.frames
        have suspended : filled.called.fiber.suspended = none :=
          (congrArg Activity.suspended same).trans vacant.suspended
        refine .calling handed (filled.called.pausedAt none).suspendedAt filled.called.concluded
          (fun steps => ?_) (fun steps value => wakeup_of_called _ depth suspended value)
          fun steps => ?_
        · rw [runWithThis_looping vacant pushed asks]
          rfl
        · rw [runWithThis_looping vacant pushed answers]
          rfl

/-- What an entry leads to when it is woken with some values, it leads to when the function replies
with them. -/
theorem replies_of_wakes
    (others : ∀ symbol, symbol ≠ name → (engine.native symbol).Avoids NativeReturn.Suspends)
    (sure : ∀ reply, (engine.answering name (.replying reply)).Sure manners)
    (sound : machine.Sound) (roomy : machine.Roomy) (vacant : machine.fiber.Vacant)
    {history : List (Nat × Value)} {last : EStateM.Result Stop Machine Outcome}
    (wakes : Wakes (wakeup ((engine.answering name (.pausing look)).looping steps)) Machine.ran
      (runWithThis ((engine.answering name (.pausing look)).looping steps) callee this arguments
        machine) history last) (reply : Nat → Value) :
    history.Pairwise (·.1 < ·.1) ∧ (Recounts reply history → ∃ total,
      runWithThis ((engine.answering name (.replying reply)).looping total) callee this arguments
        machine = last) := by
  have entry : Answers engine name look reply manners machine callee this arguments :=
    entry_answering others (sure reply) sound roomy vacant callee this arguments
  cases entry with
  | agreeing agree =>
      obtain ⟨same, other⟩ := agree steps
      generalize result : runWithThis ((engine.answering name (.pausing look)).looping steps) callee
        this arguments machine = first at wakes
      cases wakes with
      | ended => exact ⟨.nil, fun _ => ⟨steps, same.symm.trans result⟩⟩
      | woken => exact absurd ⟨_, rfl⟩ (other _ _ result)
  | looping start begun outermost proceeds asks answers =>
      rw [asks] at wakes
      obtain ⟨increasing, _, replies⟩ := finishing_of_wakes others sure outermost proceeds wakes
      refine ⟨increasing, fun recounts => ?_⟩
      obtain ⟨total, answered⟩ := replies reply recounts
      exact ⟨total, (answers total).trans answered⟩
  | calling handed paused ended asks goesOn answers =>
      rw [asks] at wakes
      cases wakes with
      | ended concludes => exact concludes.elim
      | woken wakes =>
          rw [goesOn] at wakes
          cases wakes with
          | ended =>
              refine ⟨List.pairwise_singleton _ _, fun recounts => ⟨0, (answers 0).trans ?_⟩⟩
              rw [recounts _ List.mem_cons_self]

/-- What an entry leads to when the function replies, it leads to when it is woken with some
values. -/
theorem wakes_of_replies
    (others : ∀ symbol, symbol ≠ name → (engine.native symbol).Avoids NativeReturn.Suspends)
    (sure : ∀ reply, (engine.answering name (.replying reply)).Sure manners)
    (sound : machine.Sound) (roomy : machine.Roomy) (vacant : machine.fiber.Vacant)
    {last : EStateM.Result Stop Machine Outcome} (concludes : Concludes last)
    (answered : runWithThis ((engine.answering name (.replying reply)).looping steps) callee this
      arguments machine = last) :
    ∃ history, Recounts reply history ∧
      Wakes (wakeup ((engine.answering name (.pausing look)).looping steps)) Machine.ran
        (runWithThis ((engine.answering name (.pausing look)).looping steps) callee this arguments
          machine) history last := by
  have entry : Answers engine name look reply manners machine callee this arguments :=
    entry_answering others (sure reply) sound roomy vacant callee this arguments
  cases entry with
  | agreeing agree =>
      refine ⟨[], by simp [Recounts], ?_⟩
      rw [(agree steps).1, answered]
      exact .ended concludes
  | looping start begun outermost proceeds asks answers =>
      rw [answers] at answered
      obtain ⟨history, recounts, wakes⟩ :=
        @wakes_of_finishing _ _ _ _ _ look _ _ _ others sure outermost proceeds _
          (Nat.le_refl steps) concludes answered
      exact ⟨history, recounts, (asks steps).symm ▸ wakes⟩
  | calling handed paused ended asks goesOn answers =>
      rw [answers] at answered
      refine ⟨[(paused.ran, reply paused.ran)], by simp [Recounts], ?_⟩
      rw [asks]
      refine .woken ?_
      rw [goesOn, answered]
      exact .ended concludes

end Exec

end ScriptMachine
