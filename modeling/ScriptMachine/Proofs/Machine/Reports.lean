import ScriptMachine.Proofs.Machine.Safety
import ScriptMachine.Proofs.Machine.Serving

/-!
# What the error handler is told

While something is active in a fiber, nothing that is run in it is shown to the error handler.  So
an outermost entry tells the handler of nothing unless it fails, and of its own fault just once if
it does.  A thread is entered by an outermost entry of its own, so that a fault that leaves a thread
is shown in the thread, whatever comes of it in the fiber that has entered the thread.  There are no
other reports than these.
-/

namespace ScriptMachine

open Exec

variable {α β : Type}

/-! ## Reports -/

/-- The faults that the error handler has been told of while so many error handlers were being run,
the last one first. -/
def reports (reporting : Nat) (log : List Incident) : List Fault :=
  log.filterMap fun incident =>
    if incident.occurrence = .reported ∧ incident.reporting = reporting then some incident.fault
    else none

/-- Those it has been told of while so many fibers waited. -/
def reportsAt (level reporting : Nat) (log : List Incident) : List Fault :=
  reports reporting (log.filter fun incident => incident.level = level)

/-- Every fault that has been reported in a thread has left the thread. -/
def Surfacing (level reporting : Nat) (log : List Incident) : Prop :=
  ∀ incident ∈ log, incident.occurrence = .reported → incident.reporting = reporting →
    level < incident.level → ∃ left ∈ log, left.occurrence = .surfaced ∧
      left.fault = incident.fault ∧ left.reporting = reporting ∧ left.level + 1 = incident.level

variable {level reporting : Nat} {log : List Incident}

theorem mem_reportsAt {incident : Incident} (member : incident ∈ log)
    (reported : incident.occurrence = .reported) (same : incident.level = level)
    (within : incident.reporting = reporting) : incident.fault ∈ reportsAt level reporting log := by
  refine List.mem_filterMap.mpr
    ⟨incident, List.mem_filter.mpr ⟨member, ?_⟩, if_pos ⟨reported, within⟩⟩
  exact decide_eq_true same

theorem reportsAt_append (level reporting : Nat) (first second : List Incident) :
    reportsAt level reporting (first ++ second) =
      reportsAt level reporting first ++ reportsAt level reporting second := by
  rw [reportsAt, List.filter_append, reports, List.filterMap_append]
  rfl

theorem reportsAt_eq_nil
    (apart : ∀ incident ∈ log, incident.occurrence = .reported →
      incident.level ≠ level ∨ incident.reporting ≠ reporting) :
    reportsAt level reporting log = [] := by
  refine List.filterMap_eq_nil_iff.mpr fun incident member => if_neg ?_
  obtain ⟨member, same⟩ := List.mem_filter.mp member
  rintro ⟨reported, within⟩
  rcases apart incident member reported with other | other
  · exact other (of_decide_eq_true same)
  · exact other within

/-- Of whom the error handler has been told, in a log of what has happened in a part of a run. -/
structure Account (whole : Prop) (level reporting : Nat) (told : List Fault)
    (log : List Incident) : Prop where
  /-- The running fiber has told of some faults. -/
  own : reportsAt level reporting log = told
  /-- All others have been told of by threads, or while an error handler was being run. -/
  inner : ∀ incident ∈ log, incident.occurrence = .reported →
    level ≤ incident.level ∧ reporting ≤ incident.reporting
  /-- Those told of by threads have left them, if the part was not cut short. -/
  surfacing : whole → Surfacing level reporting log

namespace Account

variable {whole : Prop} {told later : List Fault}

theorem of_silent (silent : ∀ incident ∈ log, incident.occurrence ≠ .reported) :
    Account whole level reporting [] log where
  own := reportsAt_eq_nil fun incident member reported => absurd reported (silent incident member)
  inner incident member reported := absurd reported (silent incident member)
  surfacing _ incident member reported := absurd reported (silent incident member)

theorem append {before after : Prop} {further : List Incident}
    (first : Account before level reporting told log)
    (second : Account after level reporting later further) :
    Account (before ∧ after) level reporting (later ++ told) (further ++ log) where
  own := by rw [reportsAt_append, first.own, second.own]
  inner incident member := by
    rcases List.mem_append.mp member with member | member
    · exact second.inner incident member
    · exact first.inner incident member
  surfacing wholes incident member reported within deeper := by
    rcases List.mem_append.mp member with member | member
    · obtain ⟨left, there, rest⟩ :=
        second.surfacing wholes.2 incident member reported within deeper
      exact ⟨left, List.mem_append_left _ there, rest⟩
    · obtain ⟨left, there, rest⟩ :=
        first.surfacing wholes.1 incident member reported within deeper
      exact ⟨left, List.mem_append_right _ there, rest⟩

theorem mono {part : Prop} (account : Account whole level reporting told log)
    (less : part → whole) : Account part level reporting told log :=
  ⟨account.own, account.inner, fun whole => account.surfacing (less whole)⟩

/-- What the error handler tells of itself is of no account. -/
theorem of_handler {part : Prop} (inner : Account whole level (reporting + 1) told log) :
    Account part level reporting [] log where
  own := reportsAt_eq_nil fun incident member reported => by
    have deeper := (inner.inner incident member reported).2
    exact .inr (by omega)
  inner incident member reported := by
    have deeper := inner.inner incident member reported
    omega
  surfacing _ incident member reported within _ := by
    have deeper := (inner.inner incident member reported).2
    omega

/-- What is told in a thread is not told by the fiber that has entered the thread. -/
theorem of_thread (inner : Account whole (level + 1) reporting told log)
    (surfaced : List Incident)
    (silent : ∀ incident ∈ surfaced, incident.occurrence ≠ .reported)
    (leaves : whole → ∀ fault ∈ told, ∃ left ∈ surfaced, left.occurrence = .surfaced ∧
      left.fault = fault ∧ left.reporting = reporting ∧ left.level = level) :
    Account whole level reporting [] (surfaced ++ log) where
  own := by
    refine reportsAt_eq_nil fun incident member reported => ?_
    rcases List.mem_append.mp member with member | member
    · exact absurd reported (silent incident member)
    · have deeper := (inner.inner incident member reported).1
      exact .inl (by omega)
  inner incident member reported := by
    rcases List.mem_append.mp member with member | member
    · exact absurd reported (silent incident member)
    · have deeper := inner.inner incident member reported
      omega
  surfacing whole incident member reported within _ := by
    rcases List.mem_append.mp member with member | member
    · exact absurd reported (silent incident member)
    · have deeper := (inner.inner incident member reported).1
      rcases Nat.lt_or_eq_of_le deeper with deeper | same
      · obtain ⟨left, there, rest⟩ :=
          inner.surfacing whole incident member reported within deeper
        exact ⟨left, List.mem_append_right _ there, rest⟩
      · have among := inner.own ▸ mem_reportsAt member reported same.symm within
        obtain ⟨left, there, occurrence, fault, within, level⟩ := leaves whole _ among
        exact ⟨left, List.mem_append_left _ there, occurrence, fault, within, by omega⟩

/-- Where no fault has left a thread, the running fiber has told of all there is. -/
theorem reports_eq (account : Account True level reporting told log)
    (none : ∀ incident ∈ log, incident.occurrence ≠ .surfaced) : reports reporting log = told := by
  have same : reports reporting log = reportsAt level reporting log := by
    rw [reportsAt, reports, reports, List.filterMap_filter]
    refine List.filterMap_congr fun incident member => ?_
    by_cases reported : incident.occurrence = .reported ∧ incident.reporting = reporting
    · have bound := (account.inner incident member reported.1).1
      rcases Nat.lt_or_eq_of_le bound with deeper | level
      · obtain ⟨left, there, surfaced, _⟩ :=
          account.surfacing trivial incident member reported.1 reported.2 deeper
        exact absurd surfaced (none left there)
      · rw [if_pos (decide_eq_true level.symm)]
    · rw [if_neg reported]
      split
      · rfl
      · rfl
  exact same.trans account.own

end Account

/-! ## What is told between two machines -/

namespace Machine

/-- Between the machines the running fiber tells the error handler of some faults. -/
def Tells (before : Machine) (whole : Prop) (after : Machine) (told : List Fault) : Prop :=
  ∃ added, after.incidents = added ++ before.incidents ∧
    Account whole before.waiting.length before.reporting told added

variable {whole part : Prop} {before between inside after : Machine} {told later : List Fault}

theorem tells_of_incidents (same : after.incidents = before.incidents) :
    before.Tells whole after [] := ⟨[], same, .of_silent (by simp)⟩

theorem tells_of_note {occurrence : Occurrence} {fault : Fault} (other : occurrence ≠ .reported)
    (same : after.incidents = before.incident occurrence fault :: before.incidents) :
    before.Tells whole after [] := by
  refine ⟨[before.incident occurrence fault], same, .of_silent fun incident member => ?_⟩
  rw [List.mem_singleton.mp member]
  exact other

theorem Tells.trans (first : before.Tells whole between told)
    (level : between.waiting = before.waiting) (reporting : between.reporting = before.reporting)
    (second : between.Tells part after later) (less : part → whole) :
    before.Tells part after (later ++ told) := by
  obtain ⟨added, grows, account⟩ := first
  obtain ⟨further, grows', account'⟩ := second
  rw [level, reporting] at account'
  refine ⟨further ++ added, by rw [grows', grows, List.append_assoc], ?_⟩
  exact (account.append account').mono fun part => ⟨less part, part⟩

/-- Beginnings and ends are not told of. -/
theorem Tells.change {before' after' : Machine} (tells : before.Tells whole after told)
    (same : before.incidents = before'.incidents) (level : before.waiting = before'.waiting)
    (reporting : before.reporting = before'.reporting)
    (same' : after'.incidents = after.incidents) :
    before'.Tells whole after' told := by
  rw [Tells, same, level, reporting, ← same'] at tells
  exact tells

theorem Touch.tells (touch : before.Touch after) : before.Tells whole after [] := by
  cases touch with
  | note occurrence fault _ other => exact tells_of_note other rfl
  | _ => exact tells_of_incidents rfl

theorem Touch.state (touch : before.Touch after) : after.fiber.state = before.fiber.state := by
  cases touch with
  | _ => rfl

theorem Touches.tells (touches : before.Touches after) : before.Tells whole after [] := by
  induction touches with
  | refl => exact tells_of_incidents rfl
  | tail touches touch ih =>
      have same := Touches.matches touches
      exact ih.trans same.waiting same.reporting touch.tells id

theorem Touches.state (touches : before.Touches after) :
    after.fiber.state = before.fiber.state := by
  induction touches with
  | refl => rfl
  | tail _ touch ih => exact touch.state.trans ih

end Machine

/-! ## What is told in a part of a run -/

/-- What is run where something is active in a fiber that is not suspended. -/
def Part.Silent (machine : Machine) : Part → Prop
  | work .script => machine.fiber.state ≠ .suspended
  | work .host | call => machine.fiber.state ≠ .suspended ∧ machine.fiber.isOutermost = false
  | entry => False

/-- The fault that a part of a run ends with. -/
def Ending.faults : Ending → List Fault
  | failed fault => [fault]
  | done | cut => []

/-- The fault that an entry ends with, if there is an error handler. -/
def Ending.escaped (machine : Machine) : Ending → List Fault
  | failed fault => (machine.handler.map fun _ => fault).toList
  | done | cut => []

theorem Ending.escaped_subset (machine : Machine) (ending : Ending) :
    ending.escaped machine ⊆ ending.faults := by
  intro fault member
  cases ending with
  | done | cut => exact absurd member List.not_mem_nil
  | failed own =>
      rw [escaped] at member
      cases handler : machine.handler with
      | none =>
          rw [handler] at member
          exact absurd member List.not_mem_nil
      | some _ =>
          rw [handler] at member
          exact member

namespace Machine

variable {checked : Prop} {part : Part} {ending : Ending} {before start after : Machine}

/-- What the error handler is told in a part of a run. -/
structure Speaks (part : Part) (before : Machine) (ending : Ending) (after : Machine) : Prop where
  /-- Some faults, if any. -/
  tells : ∃ told, before.Tells (ending ≠ .cut) after told
  /-- None, where something is active in the fiber. -/
  silent : part.Silent before → before.Tells (ending ≠ .cut) after [] ∧
    (ending ≠ .cut → after.fiber.state = before.fiber.state)
  /-- At most the fault that leaves a call. -/
  call : part = .call → ending ≠ .cut →
    ∃ told, before.Tells (ending ≠ .cut) after told ∧ told ⊆ ending.faults
  /-- That of an entry that fails. -/
  entry : part = .entry → ending ≠ .cut →
    before.Tells (ending ≠ .cut) after (ending.escaped after)

theorem Begins.of_entry (course : Course checked .entry before ending after) :
    before.fiber.isOutermost = true ∨ before.fiber.state = .suspended := by
  cases course with
  | ended _ _ begins | interrupted begins | unheard _ begins | heard _ begins | silenced _ begins =>
      cases begins with
      | run outer => exact .inl outer
      | wakeup asleep => exact .inr asleep

theorem Begins.state (begins : before.Begins start) : start.fiber.state = .running := by
  cases begins with
  | run | wakeup => rfl

theorem Begins.incidents (begins : before.Begins start) : start.incidents = before.incidents := by
  cases begins with
  | run | wakeup => rfl

/-- An entry tells of nothing before it has come to an end. -/
theorem Begins.tells (begins : before.Begins start)
    (speaks : Speaks (.work .script) start ending after) :
    before.Tells (ending ≠ .cut) after [] := by
  have silent := (speaks.silent (by rw [Part.Silent, begins.state]; decide)).1
  exact silent.change begins.incidents begins.matches.waiting begins.matches.reporting rfl

/-- When an entry has failed, the error handler is told of the fault, and whatever else it is told
of meanwhile belongs to what it does itself. -/
theorem Begins.heard (begins : before.Begins start) {between : Machine} {fault : Fault}
    (course : Course checked (.work .script) start (.failed fault) between)
    (body : Speaks (.work .script) start (.failed fault) between) (state : FiberState)
    (shown : Speaks (.work .script) ((between.withState state).telling fault) ending after)
    (whole : Prop) : before.Tells whole after [fault] := by
  have same := begins.matches.trans (course.matches (by simp))
  let noted := (between.withState state).note .reported fault
  have showing : between.Tells True noted [fault] := by
    refine ⟨[(between.withState state).incident .reported fault], rfl, ?_, ?_, fun _ => ?_⟩
    · simp [reportsAt, reports, Machine.incident, withState, mapFiber]
    · intro incident member _
      rw [List.mem_singleton.mp member]
      exact ⟨Nat.le_refl _, Nat.le_refl _⟩
    · intro incident member _ _ deeper
      rw [List.mem_singleton.mp member] at deeper
      exact absurd deeper (Nat.lt_irrefl _)
  have inner : noted.Tells whole after [] := by
    obtain ⟨told, added, grows, account⟩ := shown.tells
    exact ⟨added, grows, account.of_handler⟩
  have failed := (begins.tells body).trans same.waiting same.reporting showing (by simp)
  exact failed.trans same.waiting same.reporting inner fun _ => trivial

/-- When a thread has been left, a fault that has left it has surfaced. -/
theorem Tells.of_leaving {ref : Ref .thread} {fiber : Fiber} {told : List Fault}
    (inner : (before.entered ref fiber).Tells (ending ≠ .cut) after told)
    (leaves : ending ≠ .cut → told ⊆ ending.faults)
    (same : ending ≠ .cut → (before.entered ref fiber).Matches after) :
    before.Tells (ending ≠ .cut) (after.leaving ref ending) [] := by
  obtain ⟨added, grows, account⟩ := inner
  cases ending with
  | done =>
      refine ⟨added, ?_, account.of_thread [] (by simp) fun _ fault member => ?_⟩
      · rw [leaving, leaveThread_eq (same (by simp)).waiting]
        exact grows
      · exact absurd (leaves (by simp) member) List.not_mem_nil
  | failed fault =>
      have same := same (by simp)
      have left : leaveThread ref after = { after with
          heap := after.heap.set ref (some after.fiber)
          fiber := before.fiber
          waiting := before.waiting } := leaveThread_eq same.waiting
      have level : (leaveThread ref after).waiting = before.waiting := by rw [left]
      have reporting : (leaveThread ref after).reporting = before.reporting := by
        rw [left]
        exact same.reporting
      have incidents : (leaveThread ref after).incidents = added ++ before.incidents := by
        rw [left]
        exact grows
      let surfaced := (leaveThread ref after).incident .surfaced fault
      refine ⟨[surfaced] ++ added, congrArg (surfaced :: ·) incidents,
        account.of_thread [surfaced] (by simp [surfaced, incident]) fun _ own member => ?_⟩
      have own : own = fault := List.mem_singleton.mp (leaves (by simp) member)
      exact ⟨surfaced, by simp, rfl, own.symm, reporting, congrArg List.length level⟩
  | cut => exact ⟨added, grows, account.of_thread [] (by simp) fun whole => absurd rfl whole⟩

/-- A thread that has been left leaves the fiber that has entered it as it was. -/
theorem fiber_of_leaving {ref : Ref .thread} {fiber : Fiber} (ends : ending ≠ .cut)
    (waits : after.waiting = fiber :: before.waiting) :
    (after.leaving ref ending).fiber = fiber := by
  cases ending with
  | done => rw [leaving, leaveThread_eq waits]
  | failed fault =>
      show (leaveThread ref after).fiber = fiber
      rw [leaveThread_eq waits]
  | cut => exact absurd rfl ends

theorem state_of_silent {doer : Doer} (silent : (Part.work doer).Silent before) :
    before.fiber.state ≠ .suspended := by
  cases doer with
  | script => exact silent
  | host => exact silent.1

/-- What begins and ends in a part of a run tells of what is told inside it. -/
theorem Speaks.bracket {doer inner : Doer} {inside : Machine} {restore : Machine → Machine}
    (speaks : Speaks (.work inner) inside ending after)
    (incidents : inside.incidents = before.incidents)
    (waiting : inside.waiting = before.waiting) (reporting : inside.reporting = before.reporting)
    (state : inside.fiber.state = before.fiber.state)
    (quiet : inside.fiber.state ≠ .suspended → (Part.work inner).Silent inside)
    (same : ∀ machine : Machine, (restore machine).incidents = machine.incidents ∧
      (restore machine).fiber.state = machine.fiber.state) :
    Speaks (.work doer) before ending (ending.settle restore after) := by
  have settles : (ending.settle restore after).incidents = after.incidents ∧
      (ending.settle restore after).fiber.state = after.fiber.state := by
    cases ending with
    | done | failed => exact same after
    | cut => exact ⟨rfl, rfl⟩
  refine ⟨?_, fun silent => ?_, by simp, by simp⟩
  · obtain ⟨told, tells⟩ := speaks.tells
    exact ⟨told, tells.change incidents waiting reporting settles.1⟩
  · obtain ⟨tells, still⟩ := speaks.silent (quiet (by rw [state]; exact state_of_silent silent))
    exact ⟨tells.change incidents waiting reporting settles.1,
      fun ends => settles.2.trans ((still ends).trans state)⟩

/-- In any part of a run the error handler is told of the faults that leave outermost entries, and
of no others. -/
theorem Course.speaks (course : Course checked part before ending after) :
    Speaks part before ending after := by
  induction course with
  | goes ending goes =>
      exact ⟨⟨[], goes.touches.tells⟩, fun _ => ⟨goes.touches.tells, fun _ => goes.touches.state⟩,
        by simp, by simp⟩
  | @joined doer _ between _ _ _ course whole _ first second =>
      have same := course.matches whole
      refine ⟨?_, fun silent => ?_, by simp, by simp⟩
      · obtain ⟨told, tells⟩ := first.tells
        obtain ⟨later, further⟩ := second.tells
        exact ⟨_, tells.trans same.waiting same.reporting further fun _ => whole⟩
      · obtain ⟨tells, state⟩ := first.silent silent
        have still : (Part.work doer).Silent between := by
          cases doer with
          | script => exact fun asleep => silent ((state whole).symm.trans asleep)
          | host =>
              exact ⟨fun asleep => silent.1 ((state whole).symm.trans asleep),
                same.isOutermost.trans silent.2⟩
        obtain ⟨further, state'⟩ := second.silent still
        exact ⟨tells.trans same.waiting same.reporting further fun _ => whole,
          fun ends => (state' ends).trans (state whole)⟩
  | native call _ _ ih =>
      refine ih.bracket rfl rfl rfl rfl (fun state => ⟨state, ?_⟩) fun _ => ⟨rfl, rfl⟩
      simp [enterNative, mapFiber, Fiber.isOutermost]
  | looped _ _ ih => exact ih.bracket rfl rfl rfl rfl id fun _ => ⟨rfl, rfl⟩
  | awaited _ ih => exact ih.bracket rfl rfl rfl rfl id fun _ => ⟨rfl, rfl⟩
  | called _ ih => exact ⟨ih.tells, ih.silent, by simp, by simp⟩
  | @visited before after ending ref fiber _ course ih =>
      have tells : before.Tells (ending ≠ .cut) (after.leaving ref ending) [] := by
        by_cases cut : ending = .cut
        · obtain ⟨told, tells⟩ := ih.tells
          exact tells.of_leaving (fun ends => absurd cut ends) course.matches
        · obtain ⟨told, tells, less⟩ := ih.call rfl cut
          exact tells.of_leaving (fun _ => less) course.matches
      refine ⟨⟨[], tells⟩, fun _ => ⟨tells, fun ends => ?_⟩, by simp, by simp⟩
      rw [fiber_of_leaving ends (course.matches ends).waiting]
  | refused ending goes =>
      exact ⟨⟨[], goes.touches.tells⟩, fun _ => ⟨goes.touches.tells, fun _ => goes.touches.state⟩,
        fun _ _ => ⟨[], goes.touches.tells, List.nil_subset _⟩, by simp⟩
  | @reentered before after ending _ _ _ ih =>
      have inner := (ih.silent (by simp [Part.Silent, withState, mapFiber])).1
      have tells : before.Tells (ending ≠ .cut)
          (ending.settle (withState · before.fiber.state) after) [] := by
        refine inner.change rfl rfl rfl ?_
        cases ending with
        | done | failed | cut => rfl
      refine ⟨⟨[], tells⟩, fun _ => ⟨tells, fun ends => ?_⟩,
        fun _ _ => ⟨[], tells, List.nil_subset _⟩, by simp⟩
      rw [Ending.settle_of_ne_cut ends]
      rfl
  | entered course ih =>
      refine ⟨ih.tells, fun silent => ?_, fun _ ends => ⟨_, ih.entry rfl ends, ?_⟩, by simp⟩
      · rcases Begins.of_entry course with outer | asleep
        · exact absurd (silent.2.symm.trans outer) (by simp)
        · exact absurd asleep silent.1
      · exact Ending.escaped_subset _ _
  | ended _ _ begins _ ih =>
      have tells := (begins.tells ih).change rfl rfl rfl rfl
      exact ⟨⟨[], tells⟩, False.elim, by simp, fun _ _ => tells⟩
  | interrupted begins _ ih =>
      exact ⟨⟨[], begins.tells ih⟩, False.elim, by simp, fun _ ends => absurd rfl ends⟩
  | @unheard before _ after fault state begins _ absent ih =>
      have tells := (begins.tells ih).change rfl rfl rfl rfl
      have escaped : Ending.escaped (after.withState state) (.failed fault) = [] := by
        rw [Ending.escaped, show (after.withState state).handler = none from absent]
        rfl
      exact ⟨⟨[], tells⟩, False.elim, by simp, fun _ _ => escaped ▸ tells⟩
  | @heard before _ _ after fault handler _ _ begins course _ _ _ body shown =>
      have tells : before.Tells (Ending.failed fault ≠ .cut) (after.told handler) [fault] :=
        (begins.heard course body _ shown _).change rfl rfl rfl rfl
      exact ⟨⟨_, tells⟩, False.elim, by simp, fun _ _ => tells⟩
  | silenced _ begins course _ _ body shown =>
      exact ⟨⟨_, begins.heard course body _ shown _⟩, False.elim, by simp,
        fun _ ends => absurd rfl ends⟩

end Machine

/-! ## Outermost entries -/

/-- A computation enters a fiber in which nothing is active: a value is called, or a suspended fiber
is woken. -/
inductive Engine.Enters (engine : Engine) (machine : Machine) : Exec Outcome → Prop
  /-- A value is called. -/
  | run (callee this : Value) (arguments : List Value) : machine.fiber.isOutermost = true →
      machine.fiber.state ≠ .suspended →
      Enters engine machine (runWithThis engine callee this arguments)
  /-- The fiber is woken. -/
  | wakeup (value : Value) (point : SuspendPoint) : machine.fiber.state = .suspended →
      machine.fiber.suspended = some point → Enters engine machine (Exec.wakeup engine value)

/-- The error handler, if there is one, is called once with the value of a fault. -/
inductive Engine.Shows (engine : Engine) (fault : Fault) (failed : Machine) : Machine → Prop
  /-- Nobody is told. -/
  | nobody : failed.handler = none → Shows engine fault failed failed
  /-- The error handler is called. -/
  | somebody (handler : Value) : failed.handler = some handler →
      Shows engine fault failed
        (((engine.callSync handler (.table failed.root) [fault.toValue]).after
          (failed.telling fault)).told handler)

namespace Exec

variable {engine : Engine} {machine next : Machine} {fault own : Fault}

theorem shows_of_tell (told : tell engine own machine = .error (.raised fault) next) :
    own = fault ∧ engine.Shows own machine next := by
  cases installed : machine.handler with
  | none =>
      have silent := tell_of_ok (@report_of_none engine _ own installed)
      rw [silent] at told
      cases told
      exact ⟨rfl, .nobody installed⟩
  | some handler =>
      have reports := @report_eq engine _ own _ installed
      have shown : engine.Shows own machine _ := .somebody handler installed
      rw [after] at shown
      cases result : engine.callSync handler (.table machine.root) [own.toValue]
          (machine.telling own) with
      | ok value between =>
          rw [result] at reports shown
          rw [tell_of_ok reports] at told
          cases told
          exact ⟨rfl, shown⟩
      | error stop between =>
          rw [result] at reports shown
          cases stop with
          | raised own =>
              rw [tell_of_ok reports] at told
              cases told
              exact ⟨rfl, shown⟩
          | exhausted =>
              have short : tell engine own machine = .error .exhausted between :=
                error_bind reports
              rw [short] at told
              cases told

/-- An outermost entry that fails has shown its fault to the error handler. -/
theorem shows_of_finishEntry {body : Exec Outcome} {point : EntryPoint}
    (outer : point.outermost = true)
    (failed : (attempt body >>= finishEntry engine point) machine = .error (.raised fault) next) :
    ∃ failed, engine.Shows fault failed next := by
  cases result : body machine with
  | ok outcome between =>
      have tried : attempt body machine = .ok (.ok outcome) between := by rw [attempt, result]
      rw [ok_bind tried] at failed
      cases outcome with
      | completed value | suspended value => cases failed
  | error stop between =>
      cases stop with
      | exhausted =>
          have tried : attempt body machine = .error .exhausted between := by rw [attempt, result]
          rw [error_bind tried] at failed
          cases failed
      | raised own =>
          have tried : attempt body machine = .ok (.error own) between := by rw [attempt, result]
          obtain ⟨unwound, unwinds⟩ := exists_unwindTo between point.rootDepth
          have told : tell engine own
              ((unwound.mapStack (·.truncate point.stackBase)).withState point.previous) =
                .error (.raised fault) next := by
            rw [ok_bind tried, finishEntry, ok_bind unwinds, outer] at failed
            exact failed
          obtain ⟨rfl, shown⟩ := shows_of_tell told
          exact ⟨_, shown⟩

/-- A computation that ends with a fault fails. -/
theorem eq_after_of_faults {action : Exec α} (ends : (action.ending machine).faults = [fault]) :
    action machine = .error (.raised fault) (action.after machine) := by
  rw [ending] at ends
  rw [after]
  cases result : action machine with
  | ok value next =>
      rw [result] at ends
      cases ends
  | error stop next =>
      rw [result] at ends
      cases stop with
      | exhausted => cases ends
      | raised own =>
          cases ends
          rfl

theorem shows_of_enters {action : Exec Outcome} (enters : engine.Enters machine action)
    (failed : action machine = .error (.raised fault) next) :
    ∃ failed, engine.Shows fault failed next := by
  cases enters with
  | run callee this arguments outer awake =>
      rw [runWithThis_eq awake] at failed
      exact shows_of_finishEntry outer failed
  | wakeup value point asleep here =>
      rw [wakeup_eq asleep here] at failed
      exact shows_of_finishEntry rfl failed

theorem entry_of_enters {checked : Prop} (courses : engine.Courses checked)
    {action : Exec Outcome} (enters : engine.Enters machine action) :
    machine.Course checked .entry (action.ending machine) (action.after machine) := by
  cases enters with
  | run callee this arguments outer awake => exact entry_of_runWithThis courses outer awake _ _ _
  | wakeup value point asleep here => exact entry_of_wakeup courses asleep here value

end Exec

namespace Machine

/-- Between the machines the running fiber tells the error handler of these faults.  Others are told
only of faults that leave threads, so that these are all if none leaves one. -/
def Reports (before after : Machine) (told : List Fault) : Prop :=
  ∃ added, after.incidents = added ++ before.incidents ∧
    reportsAt before.waiting.length before.reporting added = told ∧
    Surfacing before.waiting.length before.reporting added ∧
    ((∀ incident ∈ added, incident.occurrence ≠ .surfaced) →
      reports before.reporting added = told)

theorem Tells.reports {before after : Machine} {told : List Fault}
    (tells : before.Tells True after told) : before.Reports after told := by
  obtain ⟨added, grows, account⟩ := tells
  exact ⟨added, grows, account.own, account.surfacing trivial, account.reports_eq⟩

end Machine

/-- An outermost entry that comes to a result or suspends the fiber tells the error handler of
nothing.  One that fails tells it just once, of its fault, and that is the last thing it does. -/
theorem reports_of_enters {host : Host} {manners : Manners} (serves : host.Serves manners)
    {stop : Machine → Bool} {steps : Nat} {machine next : Machine} {action : Exec Outcome}
    (enters : (Engine.until stop host steps).Enters machine action) :
    (∀ outcome, action machine = .ok outcome next → machine.Reports next []) ∧
    ∀ fault, action machine = .error (.raised fault) next →
      machine.Reports next (next.handler.map fun _ => fault).toList ∧
        ∃ failed, (Engine.until stop host steps).Shows fault failed next := by
  have speaks := (entry_of_enters (Engine.courses_until serves stop steps) enters).speaks
  refine ⟨fun outcome result => ?_, fun fault result => ⟨?_, shows_of_enters enters result⟩⟩
  · have tells := speaks.entry rfl
    rw [ending_of_eq_ok result, after_of_eq_ok result] at tells
    obtain ⟨added, grows, account⟩ := tells (by simp)
    exact Machine.Tells.reports ⟨added, grows, account.mono (by simp)⟩
  · have tells := speaks.entry rfl
    rw [ending_of_raised result, after_of_eq_error result] at tells
    obtain ⟨added, grows, account⟩ := tells (by simp)
    exact Machine.Tells.reports ⟨added, grows, account.mono (by simp)⟩

/-- A function that raises a number. -/
def raising : Prototype where
  name := "raising"
  parameters := #["this"]
  stackSize := 2
  code := #[⟨.loadInt, 1, 7, 0, 0⟩, ⟨.throw, 1, 0, 0, 0⟩]

/-- A function that calls its first argument with the second one. -/
def passingOn : Prototype where
  name := "passingOn"
  parameters := #["this", "callee", "thread"]
  stackSize := 7
  code := #[⟨.move, 6, 2, 0, 0⟩, ⟨.call, 4, 1, 5, 2⟩, ⟨.ret, 0, 4, 0, 0⟩]

/-- Install an error handler, and make a thread of a function that fails. -/
def setUpHandler : Exec Unit := do
  let handler ← Exec.alloc ({ name := "print", symbol := "print" } : Native)
  modify fun machine : Machine => { machine with handler := some (.native handler) }
  let _threadCall : Ref .native ← Exec.alloc
    ({ name := "threadcall", symbol := "threadcall" } : Native)
  let inner ← Exec.loadFunction raising
  let _outer ← Exec.loadFunction passingOn
  let thread ← Exec.newThread
  Exec.setThreadFunction thread inner

/-- The fault of a thread is shown to the error handler in the thread, and once more when it has
left the fiber that has entered the thread. -/
theorem reports_of_enters_thread :
    let machine := setUpHandler.after (.create {})
    let entry := runWithThis (standardEngine 8) (.closure ⟨4⟩) (.table ⟨0⟩)
      [.native ⟨2⟩, .thread ⟨5⟩]
    let next := entry.after machine
    entry machine = .error (.raised (.thrown (.integer 7))) next ∧
      machine.Reports next [.thrown (.integer 7)] ∧
      (∃ failed, (standardEngine 8).Shows (.thrown (.integer 7)) failed next) ∧
      (next.incidents.filter fun incident => incident.occurrence = .reported).map
        (fun incident => (incident.level, incident.fault)) =
          [(0, .thrown (.integer 7)), (1, .thrown (.integer 7))] := by
  intro machine entry next
  have enters : (Engine.until (fun _ => false) standardHost 8).Enters machine entry := by
    rw [Engine.until_never]
    exact .run _ _ _ (by decide +kernel) (by decide +kernel)
  have failed : entry machine = .error (.raised (.thrown (.integer 7))) next :=
    eq_after_of_faults (by decide +kernel)
  have told := (@reports_of_enters _ _ serves_standardHost _ _ _ next _ enters).2 _ failed
  have handler : next.handler = some (.native ⟨1⟩) := by decide +kernel
  rw [handler, Engine.until_never] at told
  exact ⟨failed, told.1, told.2, by decide +kernel⟩

end ScriptMachine
