import ScriptMachine.Proofs.Machine.Tallies
import ScriptMachine.Proofs.Machine.Threads

/-!
# The course of a run

`Machine.Course` tells what happens in a run in the order in which it happens: what is touched, and
which host functions, run loops, awaited calls, entries and threads begin and end.  What has begun
is put right when it ends, unless the run is cut short before that.  The limits, the waiting fibers
and what the running fiber counts of its calls are therefore the same after any part of a run that
comes to its end.
-/

namespace ScriptMachine

open Exec

variable {α β : Type}

/-! ## Ends -/

/-- How a computation ends. -/
inductive Ending where
  /-- With a result. -/
  | done
  /-- With a fault. -/
  | failed (fault : Fault)
  /-- For want of steps. -/
  | cut

/-- What has been begun is put right, unless the computation has been cut short. -/
def Ending.settle (restore : Machine → Machine) (machine : Machine) : Ending → Machine
  | done | failed _ => restore machine
  | cut => machine

theorem Ending.settle_of_ne_cut {restore : Machine → Machine} {machine : Machine} {ending : Ending}
    (ends : ending ≠ .cut) : ending.settle restore machine = restore machine := by
  cases ending with
  | done | failed => rfl
  | cut => exact absurd rfl ends

/-- How a computation ends from a machine. -/
def Exec.ending (action : Exec α) (machine : Machine) : Ending :=
  match action machine with
  | .ok _ _ => .done
  | .error (.raised fault) _ => .failed fault
  | .error .exhausted _ => .cut

/-! ## Beginnings and ends -/

namespace Machine

variable (machine : Machine)

/-- A host function begins. -/
def enterNative (call : NativeFrame) : Machine := machine.mapFiber fun fiber =>
  { fiber with
    nativeCalls := fiber.nativeCalls + 1
    natives := call :: fiber.natives
    counters := { fiber.counters with nativeCalls := fiber.counters.nativeCalls + 1 } }

/-- A host function ends. -/
def leaveNative : Machine := machine.mapFiber fun fiber =>
  { fiber with nativeCalls := fiber.nativeCalls - 1, natives := fiber.natives.tail }

/-- A call that waits for its result has begun. -/
def awaiting : Machine :=
  machine.mapFiber fun fiber => { fiber with syncCalls := fiber.syncCalls + 1 }

/-- A call that waits for its result ends. -/
def unawaiting : Machine :=
  machine.mapFiber fun fiber => { fiber with syncCalls := fiber.syncCalls - 1 }

/-- What the running fiber is doing. -/
def withState (state : FiberState) : Machine := machine.mapFiber fun fiber => { fiber with state }

/-- The error handler has been told of a fault. -/
def told (handler : Value) : Machine :=
  { machine with handler := some handler, reporting := machine.reporting - 1 }

/-- An outermost entry begins: a call while nothing is active, or waking a suspended fiber. -/
inductive Begins (before : Machine) : Machine → Prop
  /-- A value is called. -/
  | run : before.fiber.isOutermost = true → before.fiber.state ≠ .suspended →
      Begins before (before.withState .running)
  /-- The fiber is woken. -/
  | wakeup : before.fiber.state = .suspended →
      Begins before (before.mapFiber fun fiber =>
        { fiber with state := .running, suspended := none })

/-- What follows a thread that has been left. -/
def leaving (ref : Ref .thread) : Ending → Machine
  | .done => leaveThread ref machine
  | .failed fault => (leaveThread ref machine).note .surfaced fault
  | .cut => machine

variable {machine}

theorem leaveThread_eq {ref : Ref .thread} {fiber : Fiber} {waiting : List Fiber}
    (waits : machine.waiting = fiber :: waiting) :
    leaveThread ref machine =
      { machine with heap := machine.heap.set ref (some machine.fiber), fiber, waiting } := by
  rw [leaveThread, waits]

/-- Things are touched, and what happens to generators, frames and threads is in order. -/
structure Goes (checked : Prop) (before after : Machine) : Prop where
  /-- What happens to generators, frames and threads. -/
  path : before.Path checked after
  /-- What is touched. -/
  touches : before.Touches after
  /-- Frames stay those of the functions of their generators. -/
  tallies : before.Tallying checked after

instance {checked : Prop} : Overlooks (Goes checked) where
  refl _ := ⟨.refl, .refl, id⟩
  trans _ _ _ first second := ⟨first.path.trans second.path, first.touches.trans second.touches,
    fun tallies => second.tallies (first.tallies tallies)⟩
  stack machine operation plain :=
    ⟨Overlooks.stack machine operation plain, Overlooks.stack machine operation plain,
      Overlooks.stack machine operation plain⟩
  fiber machine traps suspended counters :=
    ⟨Overlooks.fiber machine traps suspended counters,
      Overlooks.fiber machine traps suspended counters,
      Overlooks.fiber machine traps suspended counters⟩
  heap machine heap spares :=
    ⟨Overlooks.heap machine heap spares, Overlooks.heap machine heap spares,
      Overlooks.heap machine heap spares⟩
  note machine occurrence fault surfaced reported :=
    ⟨Overlooks.note machine occurrence fault surfaced reported,
      Overlooks.note machine occurrence fault surfaced reported,
      Overlooks.note machine occurrence fault surfaced reported⟩
  aside machine held routines printed handler :=
    ⟨Overlooks.aside machine held routines printed handler,
      Overlooks.aside machine held routines printed handler,
      Overlooks.aside machine held routines printed handler⟩

end Machine

/-! ## Courses -/

/-- Whose doing it is. -/
inductive Doer where
  /-- That of a script, or of an operation on values. -/
  | script
  /-- That of the host, which can enter fibers and threads. -/
  | host

/-- A part of a run. -/
inductive Part where
  /-- What somebody does. -/
  | work (doer : Doer)
  /-- A single call that the host makes in a fiber. -/
  | call
  /-- An outermost entry. -/
  | entry

/-- What happens in a part of a run, and how the part ends. -/
inductive Machine.Course (checked : Prop) : Part → Machine → Ending → Machine → Prop
  /-- Things are touched. -/
  | goes {doer : Doer} {before after : Machine} (ending : Ending) : before.Goes checked after →
      Course checked (.work doer) before ending after
  /-- Something else follows. -/
  | joined {doer : Doer} {before between after : Machine} {first last : Ending} :
      Course checked (.work doer) before first between → first ≠ .cut →
      Course checked (.work doer) between last after →
      Course checked (.work doer) before last after
  /-- A host function is run. -/
  | native {doer : Doer} {before after : Machine} {ending : Ending} (call : NativeFrame) :
      before.fiber.nativeCalls < before.limits.nativeCalls →
      Course checked (.work .host) (before.enterNative call) ending after →
      Course checked (.work doer) before ending (ending.settle leaveNative after)
  /-- A run loop is run. -/
  | looped {doer : Doer} {before after : Machine} {ending : Ending} :
      before.fiber.nativeCalls < before.limits.nativeCalls →
      Course checked (.work .script) before.nested ending after →
      Course checked (.work doer) before ending (ending.settle unnested after)
  /-- A call waits for its result. -/
  | awaited {doer : Doer} {before after : Machine} {ending : Ending} :
      Course checked (.work .script) before.awaiting ending after →
      Course checked (.work doer) before ending (ending.settle unawaiting after)
  /-- The host makes a call in the running fiber. -/
  | called {before after : Machine} {ending : Ending} : Course checked .call before ending after →
      Course checked (.work .host) before ending after
  /-- A thread is entered, the host makes a call in it, and the thread is left. -/
  | visited {before after : Machine} {ending : Ending} {ref : Ref .thread} {fiber : Fiber} :
      before.heap.get? ref = some (some fiber) →
      Course checked .call (before.entered ref fiber) ending after →
      Course checked (.work .host) before ending (after.leaving ref ending)
  /-- The call does not run anything. -/
  | refused {before after : Machine} (ending : Ending) : before.Goes checked after →
      Course checked .call before ending after
  /-- A value is called while something is active in the fiber. -/
  | reentered {before after : Machine} {ending : Ending} : before.fiber.isOutermost = false →
      before.fiber.state ≠ .suspended →
      Course checked (.work .script) (before.withState .running) ending after →
      Course checked .call before ending (ending.settle (withState · before.fiber.state) after)
  /-- The call is an outermost entry. -/
  | entered {before after : Machine} {ending : Ending} : Course checked .entry before ending after →
      Course checked .call before ending after
  /-- An entry comes to a result, or the fiber is suspended. -/
  | ended {before start after : Machine} (state : FiberState) (suspended : Option SuspendPoint) :
      before.Begins start → Course checked (.work .script) start .done after →
      Course checked .entry before .done
        (after.mapFiber fun fiber => { fiber with state, suspended })
  /-- An entry is cut short. -/
  | interrupted {before start after : Machine} : before.Begins start →
      Course checked (.work .script) start .cut after → Course checked .entry before .cut after
  /-- An entry fails, and there is no error handler. -/
  | unheard {before start after : Machine} {fault : Fault} (state : FiberState) :
      before.Begins start → Course checked (.work .script) start (.failed fault) after →
      after.handler = none → Course checked .entry before (.failed fault) (after.withState state)
  /-- An entry fails, and the error handler is told. -/
  | heard {before start between after : Machine} {fault : Fault} {handler : Value} {ending : Ending}
      (state : FiberState) : before.Begins start →
      Course checked (.work .script) start (.failed fault) between →
      between.handler = some handler → ending ≠ .cut →
      Course checked (.work .script) ((between.withState state).telling fault) ending after →
      Course checked .entry before (.failed fault) (after.told handler)
  /-- The error handler is cut short. -/
  | silenced {before start between after : Machine} {fault : Fault} {handler : Value}
      (state : FiberState) : before.Begins start →
      Course checked (.work .script) start (.failed fault) between →
      between.handler = some handler →
      Course checked (.work .script) ((between.withState state).telling fault) .cut after →
      Course checked .entry before .cut after

/-! ## What is the same in the end -/

namespace Machine

/-- The same fibers wait, and the running fiber counts the same of its calls. -/
structure Matches (before after : Machine) : Prop where
  /-- The limits are the same. -/
  limits : after.limits = before.limits
  /-- The same fibers wait. -/
  waiting : after.waiting = before.waiting
  /-- As many error handlers are being run. -/
  reporting : after.reporting = before.reporting
  /-- The same host functions are being run. -/
  natives : after.fiber.natives = before.fiber.natives
  /-- As many run loops and host functions are active. -/
  nativeCalls : after.fiber.nativeCalls = before.fiber.nativeCalls
  /-- As many run loops are active. -/
  nesting : after.fiber.nesting = before.fiber.nesting
  /-- As many calls wait for their result. -/
  syncCalls : after.fiber.syncCalls = before.fiber.syncCalls

variable {checked : Prop} {part : Part} {doer : Doer} {before start between after : Machine}
  {ending : Ending}

theorem Matches.refl (machine : Machine) : machine.Matches machine :=
  ⟨rfl, rfl, rfl, rfl, rfl, rfl, rfl⟩

theorem Matches.trans (first : before.Matches between) (second : between.Matches after) :
    before.Matches after where
  limits := second.limits.trans first.limits
  waiting := second.waiting.trans first.waiting
  reporting := second.reporting.trans first.reporting
  natives := second.natives.trans first.natives
  nativeCalls := second.nativeCalls.trans first.nativeCalls
  nesting := second.nesting.trans first.nesting
  syncCalls := second.syncCalls.trans first.syncCalls

theorem Matches.isOutermost (same : before.Matches after) :
    after.fiber.isOutermost = before.fiber.isOutermost := by
  rw [Fiber.isOutermost, Fiber.isOutermost, same.nesting, same.natives, same.syncCalls]

theorem Touch.matches (touch : before.Touch after) : before.Matches after := by
  cases touch with
  | _ => exact ⟨rfl, rfl, rfl, rfl, rfl, rfl, rfl⟩

theorem Touches.matches (touches : before.Touches after) : before.Matches after := by
  induction touches with
  | refl => exact .refl before
  | tail _ touch ih => exact ih.trans touch.matches

theorem Begins.matches (begins : before.Begins start) : before.Matches start := by
  cases begins with
  | run | wakeup => exact ⟨rfl, rfl, rfl, rfl, rfl, rfl, rfl⟩

/-- When a thread has been left, the fiber that has waited for it runs again. -/
theorem Matches.of_leaving {ref : Ref .thread} {fiber : Fiber}
    (inner : (before.entered ref fiber).Matches after) (ends : ending ≠ .cut) :
    before.Matches (after.leaving ref ending) := by
  have left : before.Matches (leaveThread ref after) := by
    rw [leaveThread_eq inner.waiting]
    exact ⟨inner.limits, rfl, inner.reporting, rfl, rfl, rfl, rfl⟩
  cases ending with
  | done => exact left
  | failed fault => exact left.trans ⟨rfl, rfl, rfl, rfl, rfl, rfl, rfl⟩
  | cut => exact absurd rfl ends

/-- What has begun in a part of a run that comes to its end has ended. -/
theorem Course.matches (course : Course checked part before ending after) (ends : ending ≠ .cut) :
    before.Matches after := by
  induction course with
  | goes ending goes => exact goes.touches.matches
  | joined _ whole _ first second => exact (first whole).trans (second ends)
  | native call _ _ ih =>
      have inner := ih ends
      rw [Ending.settle_of_ne_cut ends]
      exact ⟨inner.limits, inner.waiting, inner.reporting, congrArg List.tail inner.natives,
        congrArg (· - 1) inner.nativeCalls, inner.nesting, inner.syncCalls⟩
  | looped _ _ ih =>
      have inner := ih ends
      rw [Ending.settle_of_ne_cut ends]
      exact ⟨inner.limits, inner.waiting, inner.reporting, inner.natives,
        congrArg (· - 1) inner.nativeCalls, congrArg (· - 1) inner.nesting, inner.syncCalls⟩
  | awaited _ ih =>
      have inner := ih ends
      rw [Ending.settle_of_ne_cut ends]
      exact ⟨inner.limits, inner.waiting, inner.reporting, inner.natives, inner.nativeCalls,
        inner.nesting, congrArg (· - 1) inner.syncCalls⟩
  | called _ ih => exact ih ends
  | visited _ _ ih => exact (ih ends).of_leaving ends
  | refused ending goes => exact goes.touches.matches
  | reentered _ _ _ ih =>
      have inner := ih ends
      rw [Ending.settle_of_ne_cut ends]
      exact ⟨inner.limits, inner.waiting, inner.reporting, inner.natives, inner.nativeCalls,
        inner.nesting, inner.syncCalls⟩
  | entered _ ih => exact ih ends
  | ended _ _ begins _ ih =>
      have inner := begins.matches.trans (ih ends)
      exact ⟨inner.limits, inner.waiting, inner.reporting, inner.natives, inner.nativeCalls,
        inner.nesting, inner.syncCalls⟩
  | interrupted => exact absurd rfl ends
  | unheard _ begins _ _ ih =>
      have inner := begins.matches.trans (ih ends)
      exact ⟨inner.limits, inner.waiting, inner.reporting, inner.natives, inner.nativeCalls,
        inner.nesting, inner.syncCalls⟩
  | heard _ begins _ _ whole _ body shown =>
      have inner := begins.matches.trans (body ends)
      have outer := shown whole
      exact ⟨outer.limits.trans inner.limits, outer.waiting.trans inner.waiting,
        (congrArg (· - 1) outer.reporting).trans inner.reporting,
        outer.natives.trans inner.natives, outer.nativeCalls.trans inner.nativeCalls,
        outer.nesting.trans inner.nesting, outer.syncCalls.trans inner.syncCalls⟩
  | silenced => exact absurd rfl ends

/-! ## Relations along a course -/

/-- The relation follows a run through all that happens in it. -/
structure Attends (checked : Prop) (relation : Machine → Machine → Prop) : Prop where
  /-- Nothing happens. -/
  refl : ∀ machine : Machine, relation machine machine
  /-- One thing happens after the other. -/
  trans : ∀ {before between after : Machine}, relation before between → relation between after →
    relation before after
  /-- Things are touched. -/
  goes : ∀ {before after : Machine}, before.Goes checked after → relation before after
  /-- Something begins or ends, with the same registers and frames, objects and waiting fibers. -/
  turns : ∀ {before after : Machine}, after.fiber.stack = before.fiber.stack →
    after.waiting = before.waiting → after.heap = before.heap → after.limits = before.limits →
    relation before after
  /-- A thread is entered. -/
  enters : ∀ {before : Machine} {ref : Ref .thread} {fiber : Fiber},
    before.heap.get? ref = some (some fiber) → relation before (before.entered ref fiber)
  /-- A thread is left. -/
  leaves : ∀ {before : Machine} {fiber : Fiber} {waiting : List Fiber} (ref : Ref .thread),
    before.waiting = fiber :: waiting → relation before (leaveThread ref before)

namespace Attends

variable {relation : Machine → Machine → Prop} (attends : Attends checked relation)

include attends

theorem settles {restore : Machine → Machine}
    (back : ∀ machine : Machine, relation machine (restore machine)) (machine : Machine)
    (ending : Ending) : relation machine (ending.settle restore machine) := by
  cases ending with
  | done | failed => exact back machine
  | cut => exact attends.refl machine

theorem begins (begins : before.Begins start) : relation before start := by
  cases begins with
  | run | wakeup => exact attends.turns rfl rfl rfl rfl

theorem leaving {ref : Ref .thread} {fiber : Fiber} {waiting : List Fiber}
    (waits : ending ≠ .cut → after.waiting = fiber :: waiting) :
    relation after (after.leaving ref ending) := by
  cases ending with
  | done => exact attends.leaves ref (waits (by simp))
  | failed fault =>
      exact attends.trans (attends.leaves ref (waits (by simp))) (attends.turns rfl rfl rfl rfl)
  | cut => exact attends.refl after

/-- What has begun ends, if it is not cut short. -/
theorem bracket {inside : Machine} {restore : Machine → Machine} (inner : relation inside after)
    (opened : relation before inside)
    (back : ∀ machine : Machine, relation machine (restore machine)) :
    relation before (ending.settle restore after) :=
  attends.trans opened (attends.trans inner (attends.settles back after ending))

end Attends

/-- A relation that follows a run relates its ends. -/
theorem Course.along {relation : Machine → Machine → Prop} (attends : Attends checked relation)
    (course : Course checked part before ending after) : relation before after := by
  have turns : ∀ {before after : Machine}, after.fiber.stack = before.fiber.stack →
    after.waiting = before.waiting → after.heap = before.heap → after.limits = before.limits →
    relation before after := attends.turns
  induction course with
  | goes _ goes => exact attends.goes goes
  | joined _ _ _ first second => exact attends.trans first second
  | native _ _ _ ih =>
      exact attends.bracket ih (turns rfl rfl rfl rfl) fun _ => turns rfl rfl rfl rfl
  | looped _ _ ih =>
      exact attends.bracket ih (turns rfl rfl rfl rfl) fun _ => turns rfl rfl rfl rfl
  | awaited _ ih =>
      exact attends.bracket ih (turns rfl rfl rfl rfl) fun _ => turns rfl rfl rfl rfl
  | called _ ih => exact ih
  | visited found course ih =>
      exact attends.trans (attends.enters found)
        (attends.trans ih (attends.leaving fun ends => (course.matches ends).waiting))
  | refused _ goes => exact attends.goes goes
  | reentered _ _ _ ih =>
      exact attends.bracket ih (turns rfl rfl rfl rfl) fun _ => turns rfl rfl rfl rfl
  | entered _ ih => exact ih
  | ended _ _ begins _ ih =>
      exact attends.trans (attends.trans (attends.begins begins) ih) (turns rfl rfl rfl rfl)
  | interrupted begins _ ih => exact attends.trans (attends.begins begins) ih
  | unheard _ begins _ _ ih =>
      exact attends.trans (attends.trans (attends.begins begins) ih) (turns rfl rfl rfl rfl)
  | heard _ begins _ _ _ _ body shown =>
      refine attends.trans (attends.trans (attends.begins begins) body) (attends.trans ?_
        (attends.trans shown (turns rfl rfl rfl rfl)))
      exact turns rfl rfl rfl rfl
  | silenced _ begins _ _ _ body shown =>
      refine attends.trans (attends.trans (attends.begins begins) body) (attends.trans ?_ shown)
      exact turns rfl rfl rfl rfl

theorem attends_path : Attends checked (Path checked) where
  refl _ := .refl
  trans := .trans
  goes goes := goes.path
  turns stack waiting heap _ := (hushes_of_stack stack waiting heap).path
  enters found := .single (.entered _ found rfl rfl)
  leaves ref waits := by
    rw [leaveThread_eq waits]
    exact .single (.left ref waits rfl)

theorem attends_tallying : Attends checked (Tallying checked) where
  refl _ := id
  trans first second tallies := second (first tallies)
  goes goes := goes.tallies
  turns stack waiting heap _ tallies := tallies.of_stack stack waiting heap
  enters found := .entered found
  leaves ref waits := .left ref waits

/-- Frames stay those of the functions of their generators in a part of a run. -/
theorem Course.tallies (course : Course checked part before ending after) :
    before.Tallying checked after := course.along attends_tallying

/-- What happens to generators, frames and threads in a part of a run is in order. -/
theorem Course.path (course : Course checked part before ending after) :
    before.Path checked after := course.along attends_path

end Machine

end ScriptMachine
