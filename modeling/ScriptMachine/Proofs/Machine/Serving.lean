import ScriptMachine.Proofs.Machine.Courses

/-!
# Entries and host functions take a course

An outermost entry ends with a result, with the fiber suspended, or with a fault that the error
handler is told of.  Any other entry leaves the fiber doing what it has done before.  With entries
and threads, all that host functions are offered takes a course, and so does whatever the machine
runs for them.
-/

namespace ScriptMachine

open Exec

variable {α β : Type}

/-! ## How entries begin -/

namespace Exec

open Machine

variable {checked : Prop} {doer : Doer} {engine : Engine} {machine next : Machine}

theorem Courses.beginEntry (courses : engine.Courses checked) (point : EntryPoint)
    (callee this : Value) (arguments : List Value) :
    Courses checked doer (Exec.beginEntry engine point callee this arguments) := by
  refine (goes (.pushArguments this arguments)).bind fun _ =>
    (callValue courses _ _ _ _ _).bind fun start => ?_
  cases start with
  | pushed => exact courses.runs _
  | done value => exact pure _
  | suspend value =>
      dsimp only
      split
      · exact (goes (.setSuspended _)).bind fun _ => pure _
      · exact fun _ => .raise_bind _ _

theorem Courses.continueAt (courses : engine.Courses checked) (point : SuspendPoint)
    (value : Value) : Courses checked doer (Exec.continueAt engine point value) := by
  refine (view _).bind fun depth => ?_
  split
  · exact pure _
  · exact (goes (.deliver _ _)).bind fun _ => courses.runs _

/-- An entry suspends the fiber only where nothing else is active in it. -/
theorem outermost_of_beginEntry (courses : engine.Courses checked) {point : EntryPoint}
    {callee this : Value} {arguments : List Value} {value : Value}
    (suspends : beginEntry engine point callee this arguments machine =
      .ok (.suspended value) next) : point.outermost = true ∨ next.fiber.isOutermost = true := by
  obtain ⟨_, _, _, rest⟩ := bind_eq_ok suspends
  obtain ⟨start, between, _, rest⟩ := bind_eq_ok rest
  cases start with
  | pushed => exact .inr (courses.alone rest)
  | done value => cases rest
  | suspend value =>
      dsimp only at rest
      split at rest
      · rename_i outer
        exact .inl outer
      · cases rest

/-! ## How entries end -/

/-- What an entry has added is given up, before the fiber goes on with what it has done before. -/
def settled (point : EntryPoint) (body : Exec Outcome) : Exec Outcome := do
  match ← attempt body with
  | .ok outcome =>
    truncate point.stackBase
    return outcome
  | .error fault =>
    unwindTo point.rootDepth
    truncate point.stackBase
    passOn fault

theorem CourseAt.settled {body : Exec Outcome} (course : body.CourseAt checked doer machine)
    (point : EntryPoint) : (settled point body).CourseAt checked doer machine := by
  refine .bind (.attempt course) fun result next _ => ?_
  cases result with
  | ok outcome => exact ((Courses.goes (.truncate _)).bind fun _ => .pure _) next
  | error fault =>
      exact ((Courses.loud (.unwindTo _) (Touching.unwindTo _) (Tallying.unwindTo _)).bind fun _ =>
        (Courses.goes (.truncate _)).bind fun _ => .passOn _) next

/-- An entry that is not the outermost one leaves the fiber doing what it has done before. -/
theorem attempt_finishEntry {point : EntryPoint} (inner : point.outermost = false)
    {body : Exec Outcome}
    (remains : ∀ value next, body machine ≠ .ok (.suspended value) next) :
    (attempt body >>= finishEntry engine point) machine =
      ensuring (withState · point.previous) (settled point body) machine := by
  cases result : body machine with
  | ok outcome next =>
      have tried : attempt body machine = .ok (.ok outcome) next := by rw [attempt, result]
      cases outcome with
      | suspended value => exact absurd result (remains value next)
      | completed value =>
          rw [ok_bind tried, ensuring, settled, ok_bind tried]
          rfl
  | error stop next =>
      cases stop with
      | exhausted =>
          have tried : attempt body machine = .error .exhausted next := by rw [attempt, result]
          rw [error_bind tried, ensuring, settled, error_bind tried]
      | raised fault =>
          have tried : attempt body machine = .ok (.error fault) next := by rw [attempt, result]
          obtain ⟨unwound, unwinds⟩ := exists_unwindTo next point.rootDepth
          rw [ok_bind tried, ensuring, settled, ok_bind tried, finishEntry, ok_bind unwinds, inner]
          dsimp only
          rw [ok_bind unwinds]
          rfl

theorem discard_attempt_eq {called : Exec α} :
    discard (attempt called) machine =
      match called machine with
      | .ok _ next => .ok () next
      | .error (.raised _) next => .ok () next
      | .error .exhausted next => .error .exhausted next := by
  show EStateM.map _ (attempt called) machine = _
  rw [EStateM.map, attempt]
  cases called machine with
  | ok value next => rfl
  | error stop next =>
      cases stop with
      | raised | exhausted => rfl

/-- The error handler is put aside while it is told of a fault, and its own faults are dropped. -/
theorem report_eq {fault : Fault} {handler : Value} (installed : machine.handler = some handler) :
    report engine fault machine =
      match engine.callSync handler (.table machine.root) [fault.toValue]
          (machine.telling fault) with
      | .ok _ next => .ok () (next.told handler)
      | .error (.raised _) next => .ok () (next.told handler)
      | .error .exhausted next => .error .exhausted next := by
  rw [report, ok_bind (show (get : Exec Machine) machine = .ok machine machine from rfl), installed]
  show (discard (attempt (engine.callSync handler (.table machine.root) [fault.toValue])) >>=
    fun _ => _) (machine.telling fault) = _
  cases result : engine.callSync handler (.table machine.root) [fault.toValue]
      (machine.telling fault) with
  | ok value next =>
      rw [ok_bind (discard_attempt_eq.trans (by rw [result]))]
      rfl
  | error stop next =>
      cases stop with
      | raised own =>
          rw [ok_bind (discard_attempt_eq.trans (by rw [result]))]
          rfl
      | exhausted => rw [error_bind (discard_attempt_eq.trans (by rw [result]))]

theorem report_of_none {fault : Fault} (absent : machine.handler = none) :
    report engine fault machine = .ok () machine := by
  rw [report, ok_bind (show (get : Exec Machine) machine = .ok machine machine from rfl), absent]
  rfl

/-- The error handler is told of a fault, which goes on afterwards. -/
def tell (engine : Engine) (fault : Fault) : Exec Outcome := do
  report engine fault
  passOn fault

theorem tell_of_ok {fault : Fault} (reports : report engine fault machine = .ok () next) :
    tell engine fault machine = .error (.raised fault) next := ok_bind reports

/-- An outermost entry that fails is shown to the error handler, if there is one. -/
theorem entry_of_tell {before start : Machine} {fault : Fault} (courses : engine.Courses checked)
    (begins : before.Begins start) (state : FiberState)
    (course : start.Course checked (.work .script) (.failed fault) machine) :
    before.Course checked .entry ((tell engine fault).ending (machine.withState state))
      ((tell engine fault).after (machine.withState state)) := by
  cases installed : machine.handler with
  | none =>
      have silent := tell_of_ok (@report_of_none engine _ fault
        (show (machine.withState state).handler = none from installed))
      rw [ending_of_raised silent, after_of_eq_error silent]
      exact .unheard state begins course installed
  | some handler =>
      have shown := @Courses.callSync _ .script _ courses handler
        (.table (machine.withState state).root) [fault.toValue]
        ((machine.withState state).telling fault)
      have reports := @report_eq engine _ fault _
        (show (machine.withState state).handler = some handler from installed)
      rw [CourseAt] at shown
      cases result : engine.callSync handler (.table (machine.withState state).root)
          [fault.toValue] ((machine.withState state).telling fault) with
      | ok value next =>
          rw [ending_of_eq_ok result, after_of_eq_ok result] at shown
          have told := tell_of_ok (reports.trans (by rw [result]))
          rw [ending_of_raised told, after_of_eq_error told]
          exact .heard state begins course installed (by simp) shown
      | error stop next =>
          cases stop with
          | raised own =>
              rw [ending_of_raised result, after_of_eq_error result] at shown
              have told := tell_of_ok (reports.trans (by rw [result]))
              rw [ending_of_raised told, after_of_eq_error told]
              exact .heard state begins course installed (by simp) shown
          | exhausted =>
              rw [ending_of_exhausted result, after_of_eq_error result] at shown
              have short : tell engine fault (machine.withState state) = .error .exhausted next :=
                error_bind (reports.trans (by rw [result]))
              rw [ending_of_exhausted short, after_of_eq_error short]
              exact .silenced state begins course installed shown

/-- An outermost entry comes to a result, suspends the fiber, or fails and is shown to the error
handler. -/
theorem entry_of_begins {before : Machine} (courses : engine.Courses checked)
    (begins : before.Begins machine) {body : Exec Outcome}
    (course : body.CourseAt checked .script machine) {point : EntryPoint}
    (outer : point.outermost = true) :
    before.Course checked .entry ((attempt body >>= finishEntry engine point).ending machine)
      ((attempt body >>= finishEntry engine point).after machine) := by
  have settles := course.settled point
  rw [CourseAt] at course settles
  cases result : body machine with
  | ok outcome next =>
      have tried : attempt body machine = .ok (.ok outcome) next := by rw [attempt, result]
      cases outcome with
      | completed value =>
          have done : settled point body machine =
              .ok (.completed value) (next.mapStack (·.truncate point.stackBase)) := by
            rw [settled, ok_bind tried]
            rfl
          rw [ending_of_eq_ok done, after_of_eq_ok done] at settles
          rw [ending_congr (ok_bind tried), after_congr (ok_bind tried)]
          exact .ended point.previous next.fiber.suspended begins settles
      | suspended value =>
          rw [ending_of_eq_ok result, after_of_eq_ok result] at course
          rw [ending_congr (ok_bind tried), after_congr (ok_bind tried)]
          exact .ended .suspended (some
            { target := next.fiber.suspended.bind SuspendPoint.target
              rootDepth := point.rootDepth
              stackBase := point.stackBase }) begins course
  | error stop next =>
      cases stop with
      | exhausted =>
          have tried : attempt body machine = .error .exhausted next := by rw [attempt, result]
          rw [ending_of_exhausted result, after_of_eq_error result] at course
          rw [ending_of_exhausted (error_bind tried), after_of_eq_error (error_bind tried)]
          exact .interrupted begins course
      | raised fault =>
          have tried : attempt body machine = .ok (.error fault) next := by rw [attempt, result]
          obtain ⟨unwound, unwinds⟩ := exists_unwindTo next point.rootDepth
          have failed : settled point body machine =
              .error (.raised fault) (unwound.mapStack (·.truncate point.stackBase)) := by
            rw [settled, ok_bind tried]
            dsimp only
            rw [ok_bind unwinds]
            rfl
          rw [ending_of_raised failed, after_of_eq_error failed] at settles
          have same : (attempt body >>= finishEntry engine point) machine =
              tell engine fault
                ((unwound.mapStack (·.truncate point.stackBase)).withState point.previous) := by
            rw [ok_bind tried, finishEntry, ok_bind unwinds, outer]
            rfl
          rw [ending_congr same, after_congr same]
          exact entry_of_tell courses begins point.previous settles

/-! ## Entries -/

/-- From a machine the computation is a call of the host. -/
def CallsAt (checked : Prop) (action : Exec α) (machine : Machine) : Prop :=
  machine.Course checked .call (action.ending machine) (action.after machine)

/-- From every machine the computation is a call of the host. -/
def Calls (checked : Prop) (action : Exec α) : Prop := ∀ machine, CallsAt checked action machine

theorem CallsAt.of_raise {action : Exec α} {fault : Fault}
    (same : action machine = (Exec.raise fault : Exec α) machine) :
    CallsAt checked action machine := by
  rw [CallsAt, ending_congr same, after_congr same]
  exact .refused _ (Along.raise fault machine)

theorem Calls.goes {action : Exec α} (along : Along (Goes checked) action) : Calls checked action :=
  fun machine => .refused _ (along machine)

theorem Calls.view_bind {look : Machine → β} {following : β → Exec α}
    (rest : ∀ value, Calls checked (following value)) :
    Calls checked ((fun machine => .ok (look machine) machine : Exec β) >>= following) :=
  fun machine => rest (look machine) machine

theorem Calls.courses {action : Exec α} (calls : Calls checked action) :
    Courses checked .host action := fun machine => .called (calls machine)

/-- The place from which the running fiber is entered. -/
def entryPoint (machine : Machine) : EntryPoint where
  stackBase := machine.fiber.stack.size
  rootDepth := machine.fiber.stack.depth
  previous := machine.fiber.state
  outermost := machine.fiber.isOutermost

theorem runWithThis_eq {callee this : Value} {arguments : List Value}
    (awake : machine.fiber.state ≠ .suspended) :
    runWithThis engine callee this arguments machine =
      (attempt (beginEntry engine (entryPoint machine) callee this arguments) >>=
        finishEntry engine (entryPoint machine)) (machine.withState .running) := by
  rw [runWithThis, ok_bind (show ofFiber id machine = .ok machine.fiber machine from rfl),
    if_neg awake]
  rfl

/-- Calling a value while nothing is active is an outermost entry. -/
theorem entry_of_runWithThis (courses : engine.Courses checked)
    (outer : machine.fiber.isOutermost = true) (awake : machine.fiber.state ≠ .suspended)
    (callee this : Value) (arguments : List Value) :
    machine.Course checked .entry
      ((runWithThis engine callee this arguments).ending machine)
      ((runWithThis engine callee this arguments).after machine) := by
  rw [ending_congr (runWithThis_eq awake), after_congr (runWithThis_eq awake)]
  exact entry_of_begins courses (.run outer awake) (Courses.beginEntry courses _ _ _ _ _) outer

theorem Calls.runWithThis (courses : engine.Courses checked) (callee this : Value)
    (arguments : List Value) : Calls checked (Exec.runWithThis engine callee this arguments) := by
  intro machine
  by_cases asleep : machine.fiber.state = .suspended
  · exact .of_raise (runWithThis_of_suspended engine asleep callee this arguments)
  · cases outer : machine.fiber.isOutermost with
    | true => exact .entered (entry_of_runWithThis courses outer asleep callee this arguments)
    | false =>
        have course : CourseAt checked .script _ (machine.withState .running) :=
          Courses.beginEntry courses (entryPoint machine) callee this arguments _
        -- Something is active in the fiber, so that it cannot be suspended.
        have remains : ∀ value next, Exec.beginEntry engine (entryPoint machine) callee this
            arguments (machine.withState .running) ≠ .ok (.suspended value) next := by
          intro value next suspends
          rcases outermost_of_beginEntry courses suspends with idle | idle
          · exact absurd (idle.symm.trans outer) (by simp)
          · rw [CourseAt, ending_of_eq_ok suspends, after_of_eq_ok suspends] at course
            rw [(course.matches (by simp)).isOutermost] at idle
            exact absurd (idle.symm.trans outer) (by simp)
        have same := (runWithThis_eq asleep).trans
          (attempt_finishEntry outer remains)
        rw [CallsAt, ending_congr same, after_congr same, ending_ensuring, after_ensuring]
        exact .reentered outer asleep (course.settled _)

theorem wakeup_of_none {value : Value} (asleep : machine.fiber.state = .suspended)
    (nowhere : machine.fiber.suspended = none) :
    wakeup engine value machine =
      .error (.raised .missingSuspension) (machine.record .missingSuspension) := by
  rw [wakeup, ok_bind (show ofFiber (·.state) machine = .ok machine.fiber.state machine from rfl)]
  dsimp only
  rw [if_pos asleep, ok_bind (show ofFiber (·.suspended) machine =
    .ok machine.fiber.suspended machine from rfl), nowhere]
  rfl

theorem wakeup_eq {value : Value} {point : SuspendPoint}
    (asleep : machine.fiber.state = .suspended) (here : machine.fiber.suspended = some point) :
    wakeup engine value machine =
      (attempt (continueAt engine point value) >>= finishEntry engine
        { stackBase := point.stackBase, rootDepth := point.rootDepth, previous := .idle,
          outermost := true })
        (machine.mapFiber fun fiber => { fiber with state := .running, suspended := none }) := by
  rw [wakeup, ok_bind (show ofFiber (·.state) machine = .ok machine.fiber.state machine from rfl)]
  dsimp only
  rw [if_pos asleep, ok_bind (show ofFiber (·.suspended) machine =
    .ok machine.fiber.suspended machine from rfl), here]
  rfl

/-- Waking a suspended fiber is an outermost entry. -/
theorem entry_of_wakeup (courses : engine.Courses checked) {point : SuspendPoint}
    (asleep : machine.fiber.state = .suspended) (here : machine.fiber.suspended = some point)
    (value : Value) :
    machine.Course checked .entry ((wakeup engine value).ending machine)
      ((wakeup engine value).after machine) := by
  rw [ending_congr (wakeup_eq asleep here), after_congr (wakeup_eq asleep here)]
  exact entry_of_begins courses (.wakeup asleep) (Courses.continueAt courses _ _ _) rfl

theorem Calls.wakeup (courses : engine.Courses checked) (value : Value) :
    Calls checked (Exec.wakeup engine value) := by
  intro machine
  by_cases asleep : machine.fiber.state = .suspended
  · cases here : machine.fiber.suspended with
    | none => exact .of_raise (wakeup_of_none asleep here)
    | some point => exact .entered (entry_of_wakeup courses asleep here value)
  · exact .of_raise (wakeup_of_not_suspended engine asleep value)

/-! ## Threads -/

theorem inThread_of_none {ref : Ref .thread} {action : Exec α}
    (absent : (machine.heap.get ref : Option Fiber) = none) :
    inThread ref action machine =
      .error (.raised .threadRunning) (machine.record .threadRunning) := by
  rw [inThread, ok_bind (show read ref machine = .ok (machine.heap.get ref) machine from rfl),
    absent]
  rfl

theorem inThread_eq {ref : Ref .thread} {action : Exec α} {fiber : Fiber}
    (present : (machine.heap.get ref : Option Fiber) = some fiber) :
    inThread ref action machine =
      match action (machine.entered ref fiber) with
      | .ok value next => .ok value (next.leaving ref .done)
      | .error (.raised fault) next => .error (.raised fault) (next.leaving ref (.failed fault))
      | .error .exhausted next => .error .exhausted next := by
  rw [inThread, ok_bind (show read ref machine = .ok (machine.heap.get ref) machine from rfl),
    present]
  show (attempt (ensuring (leaveThread ref) action) >>= _) (machine.entered ref fiber) = _
  cases result : action (machine.entered ref fiber) with
  | ok value next =>
      have tried : attempt (ensuring (leaveThread ref) action) (machine.entered ref fiber) =
          .ok (.ok value) (leaveThread ref next) := by
        rw [attempt, ensuring, result]
      rw [ok_bind tried]
      rfl
  | error stop next =>
      cases stop with
      | raised fault =>
          have tried : attempt (ensuring (leaveThread ref) action) (machine.entered ref fiber) =
              .ok (.error fault) (leaveThread ref next) := by
            rw [attempt, ensuring, result]
          rw [ok_bind tried]
          rfl
      | exhausted =>
          have tried : attempt (ensuring (leaveThread ref) action) (machine.entered ref fiber) =
              .error .exhausted next := by
            rw [attempt, ensuring, result]
          rw [error_bind tried]

theorem get?_of_get_eq_some {heap : Heap} {ref : Ref .thread} {fiber : Fiber}
    (present : (heap.get ref : Option Fiber) = some fiber) : heap.get? ref = some (some fiber) := by
  cases there : heap.get? ref with
  | none =>
      rw [Heap.get, there] at present
      exact absurd present (by simp [Content.absent])
  | some own =>
      rw [Heap.get_of_get?_eq_some there] at present
      rw [present]

theorem Courses.inThread {action : Exec α} (calls : Calls checked action)
    (ref : Ref .thread) : Courses checked .host (Exec.inThread ref action) := by
  intro machine
  cases present : (machine.heap.get ref : Option Fiber) with
  | none => exact .congr (inThread_of_none present) (Courses.raise .threadRunning machine)
  | some fiber =>
      have inside := calls (machine.entered ref fiber)
      have visits : Exec.inThread ref action machine = _ := inThread_eq present
      rw [CallsAt] at inside
      rw [CourseAt]
      have visited := Machine.Course.visited (get?_of_get_eq_some present) inside
      cases result : action (machine.entered ref fiber) with
      | ok value next =>
          rw [result] at visits
          rw [ending_of_eq_ok result, after_of_eq_ok result] at visited
          rw [ending_of_eq_ok visits, after_of_eq_ok visits]
          exact visited
      | error stop next =>
          rw [result] at visits
          cases stop with
          | raised fault =>
              rw [ending_of_raised result, after_of_eq_error result] at visited
              rw [ending_of_raised visits, after_of_eq_error visits]
              exact visited
          | exhausted =>
              rw [ending_of_exhausted result, after_of_eq_error result] at visited
              rw [ending_of_exhausted visits, after_of_eq_error visits]
              exact visited

end Exec

/-! ## Host functions -/

namespace Exec.Along

open Machine

variable {relation : Machine → Machine → Prop} [Overlooks relation]

theorem closureOver (routine : Routine) : Along relation (Exec.closureOver routine) := by
  have cells : ∀ captures : List Capture,
      Along relation (captures.mapM fun _ => @Exec.alloc .cell .null) := by
    intro captures
    induction captures with
    | nil => exact .pure []
    | cons capture rest ih =>
        rw [List.mapM_cons]
        exact (alloc _ (by decide) (by decide)).bind fun _ => ih.bind fun _ => .pure _
  rw [Exec.closureOver, Array.mapM_eq_mapM_toList]
  exact ((cells _).map _).bind fun _ => (alloc _ (by decide) (by decide)).bind fun _ => .pure _

theorem loadRoutine (prototype : Prototype) : Along relation (Exec.loadRoutine prototype) := by
  rw [Exec.loadRoutine]
  split
  · exact .pure _
  · exact raise _

theorem newRoutine (routine : Routine) : Along relation (Exec.newRoutine routine) :=
  .change fun machine => Overlooks.aside machine machine.held (machine.routines.push routine)
    machine.printed machine.handler

theorem newClosure (value : Value) : Along relation (Exec.newClosure value) := by
  cases value with
  | routine index =>
      refine (Along.view _).bind fun machine => ?_
      split
      · exact closureOver _
      · exact closureOver _
  | _ => exact raise _

end Exec.Along

namespace Exec.Courses

open Machine

variable {checked : Prop} {engine : Engine}

theorem settle : Courses checked .host (modify Machine.settle : Exec Unit) := by
  refine loud (fun machine => .single ?_) Touching.settle Tallying.settle
  exact .culled rfl rfl (·.release _) (machine.heap.culls_release _)

theorem collect : Courses checked .host (modifyGet Machine.collect : Exec Nat) := by
  refine loud (fun machine => .single ?_) Touching.collect Tallying.collect
  exact .culled rfl rfl (·.collect _ _) (machine.heap.culls_collect _)

theorem setThreadFunction (ref : Ref .thread) (entry : Value) :
    Courses checked .host (Exec.setThreadFunction ref entry) := by
  have sets : Along (Goes checked)
      (Exec.onFiber fun fiber => { fiber with entry := some entry }) := by
    refine fun machine => ⟨Hushes.path ?_, Touching.setEntry entry machine,
      Tallying.setEntry entry machine⟩
    exact hushes_of_stack rfl rfl rfl
  have checks : ∀ allowed : Bool, Along (Goes checked) (do
      unless allowed do Exec.raise (.threadFunction entry.typeName)
      Exec.onFiber fun fiber => { fiber with entry := some entry }) := by
    intro allowed
    cases allowed with
    | true => exact sets
    | false => exact (Along.raise _).bind fun _ => sets
  exact inThread (.goes (checks _)) ref

/-- All that host functions are offered takes a course. -/
theorem service (courses : engine.Courses checked) {manners : Manners} {action : Exec α}
    (serves : engine.Serves manners action) : Courses checked .host action := by
  induction serves with
  | operates _ operates => exact .operates courses operates
  | quiet operates => exact .operates .spent operates
  | bind _ _ first further => exact first.bind further
  | keeping indices _ ih => exact keeping indices ih
  | attempt _ _ ih => exact ih.attempt
  | passOn _ fault => exact .passOn fault
  | adjust look printed handler =>
      exact goes (.change fun machine => Overlooks.aside machine machine.held machine.routines
        (printed machine) (handler machine))
  | settle => exact settle
  | collect => exact collect
  | closureOver _ routine => exact goes (.closureOver routine)
  | loadFunction prototype => exact goes ((Along.loadRoutine prototype).bind Along.closureOver)
  | loadPrototype prototype => exact goes ((Along.loadRoutine prototype).bind Along.newRoutine)
  | newClosure value => exact goes (.newClosure value)
  | runWithThis _ callee this arguments =>
      exact (Calls.runWithThis courses callee this arguments).courses
  | wakeup _ value => exact (Calls.wakeup courses value).courses
  | resumeGenerator _ ref => exact resumeGenerator courses ref
  | newThread => exact loud .newThread Touching.newThread Tallying.newThread
  | setThreadFunction ref entry => exact setThreadFunction ref entry
  | threadCall ref arguments =>
      refine inThread (.view_bind fun entry => ?_) ref
      split
      · exact .goes (.raise _)
      · exact .view_bind fun _ => .runWithThis courses _ _ _
  | threadWakeup ref value => exact inThread (.wakeup courses value) ref

end Exec.Courses

/-! ## Engines -/

namespace Engine

open Exec

/-- With one step more everything takes a course, if it does so with fewer. -/
theorem Courses.onward {checked : Prop} {inner : Engine} (courses : inner.Courses checked)
    {stop : Machine → Bool} (heeds : checked → ∀ machine, stop machine = false → machine.Whole)
    (steps : Nat) {native : String → Exec NativeReturn}
    (natives : ∀ symbol, Exec.Courses checked .host (native symbol)) :
    (Engine.onward stop inner steps native).Courses checked where
  calls callee base count machine :=
    Exec.Courses.watch_bind fun _ => Exec.Courses.callAt courses callee base count machine
  runs root := Exec.Courses.nestLoop root (Exec.Courses.loopUntil courses heeds root steps)
  natives symbol _ := Exec.Courses.watch_bind fun _ => natives symbol _
  alone suspends := isOutermost_of_nestLoop (Sheltered.loopUntil stop _ steps) suspends

/-- Whatever the number of steps, everything that the engine runs takes a course. -/
theorem courses_until {host : Host} {manners : Manners} (serves : host.Serves manners)
    (stop : Machine → Bool) (steps : Nat) : (Engine.until stop host steps).Courses False := by
  induction steps with
  | zero => exact .spent
  | succ steps ih => exact ih.onward False.elim steps fun symbol => .service ih (serves symbol _)

end Engine

end ScriptMachine
