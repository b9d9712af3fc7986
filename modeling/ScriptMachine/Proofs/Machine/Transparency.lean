import ScriptMachine.Proofs.Machine.Waking

/-!
# Suspension is transparent

For the outermost run loop of a fiber it makes no difference whether a function of the host suspends
the fiber, which is then woken with a value, or replies with the value itself.  What has been said
of engines is carried over here to hosts, and to entries in the running fiber or in that of a
thread, which is put back into the heap whenever it is suspended.
-/

namespace ScriptMachine

open Exec

variable {α : Type}

/-! ## Hosts -/

/-- A function of the host is another one. -/
def Host.answering (host : Host) (name : String) (answer : Exec NativeReturn) : Host :=
  fun symbol engine => if symbol = name then answer else host symbol engine

/-- What the host runs on if everything is cut short where a function is called and the fiber could
not be suspended. -/
def Host.outermost (host : Host) (name : String) (answer : Exec NativeReturn) (steps : Nat) :
    Engine :=
  ((Engine.ofHost (host.answering name .exhaust) steps).answering name answer).looping steps

/-- Only one function of the host suspends fibers. -/
def Host.SuspendsBy (host : Host) (name : String) : Prop :=
  ∀ symbol, symbol ≠ name → ∀ engine, (host symbol engine).Avoids NativeReturn.Suspends

section Hosts

variable {host : Host} {manners : Manners} {name : String} {answer : Exec NativeReturn}
  {reply : Nat → Value} {look : Machine → Value}

theorem Host.Monotone.answering (monotone : host.Monotone) (name : String)
    {answer other : Exec NativeReturn} (below : answer.Below (fun _ => True) other) :
    (host.answering name answer).Below (host.answering name other) := by
  intro symbol engine wider less
  rw [Host.answering, Host.answering]
  split
  · exact below
  · exact monotone symbol engine wider less

/-- What the host runs on ends as it would if the function were not cut short. -/
theorem Host.Monotone.looping (monotone : host.Monotone) {steps total more : Nat}
    (le : steps + 2 ≤ more) (le' : total + 2 ≤ more) :
    (((Engine.ofHost (host.answering name .exhaust) steps).answering name answer).looping
      total).Below (fun _ => True) (Engine.ofHost (host.answering name answer) more) := by
  have below : ∀ {most : Nat}, steps ≤ most →
      (Engine.ofHost (host.answering name .exhaust) steps).Below (fun _ => True)
        (Engine.ofHost (host.answering name answer) most) := fun le =>
    Engine.below_ofHost (monotone.answering name (.exhaust fun _ => trivial)) le
  have inner : ∀ {most : Nat}, steps ≤ most →
      ((Engine.ofHost (host.answering name .exhaust) steps).answering name answer).Below
        (fun _ => True) (Engine.ofHost (host.answering name answer) (most + 1)) := by
    intro most le
    have wider := below (Nat.le_succ_of_le le)
    refine ⟨wider.calls, wider.runs, fun symbol => ?_⟩
    by_cases asks : symbol = name
    · have same : ((Engine.ofHost (host.answering name .exhaust) steps).answering name
          answer).native symbol = (Engine.ofHost (host.answering name answer) (most + 1)).native
            symbol := by
        show (if symbol = name then _ else _) = (if symbol = name then _ else _)
        rw [if_pos asks, if_pos asks]
      rw [same]
      exact .refl _
    · show Exec.Below (if symbol = name then _ else _) _ _
      rw [if_neg asks]
      exact wider.natives symbol
  obtain ⟨more, rfl⟩ : ∃ fewer, more = fewer + 2 := ⟨more - 2, by omega⟩
  refine ⟨(inner (by omega)).calls, fun root => ?_, (inner (by omega)).natives⟩
  have loops : (loopUntil (fun _ => false)
      ((Engine.ofHost (host.answering name .exhaust) steps).answering name answer) root
        total).Below (fun _ => True) (loopUntil (fun _ => false)
          (Engine.ofHost (host.answering name answer) (more + 1)) root (more + 1)) :=
    .loopUntil (inner (by omega)) root (fun _ => .inl rfl) (by omega) fun _ _ => trivial
  rw [loopUntil_never, loopUntil_never] at loops
  exact .nestLoop root loops

theorem Host.Serves.steady_exhausted (serves : host.Serves manners)
    (verified : manners.trusts = false) : (host.answering name .exhaust).Steady manners := by
  intro engine steady symbol
  rw [Host.answering]
  split
  · exact .exhaust
  · exact .served steady (serves symbol engine) verified

theorem Engine.faithful_exhausted (serves : host.Serves manners) (steps : Nat) :
    (Engine.ofHost (host.answering name .exhaust) steps).Faithful False := by
  induction steps with
  | zero => exact Faithful.spent
  | succ steps ih =>
      refine ⟨fun callee base count => ?_, fun root => ?_, fun symbol => ?_⟩
      · exact .callAt ih callee base count
      · exact .nestLoop root (.loop ih root steps)
      · show Exec.Faithful False (if symbol = name then _ else _)
        split
        · exact .exhaust
        · exact .service ih False.elim (serves symbol _)

/-- Run loops of what the host runs on can be followed if the function replies. -/
theorem Engine.sure_replying (serves : host.Serves manners) (verified : manners.trusts = false)
    (steps : Nat) (reply : Nat → Value) :
    ((Engine.ofHost (host.answering name .exhaust) steps).answering name
      (.replying reply)).Sure manners := by
  have steady : (Engine.ofHost (host.answering name .exhaust) steps).Steady manners := by
    rw [← Engine.until_never]
    exact Engine.steady_until (serves.steady_exhausted verified) _ steps
  have faithful : (Engine.ofHost (host.answering name .exhaust) steps).Faithful False :=
    Engine.faithful_exhausted serves steps
  refine ⟨steady.calls, fun symbol => ?_, faithful.calls, faithful.runs, fun symbol => ?_⟩
  · show Exec.Steady manners .all _ (if symbol = name then _ else _)
    split
    · exact .view _
    · exact steady.natives symbol
  · show Exec.Faithful False (if symbol = name then _ else _)
    split
    · exact .view _
    · exact faithful.natives symbol

theorem Host.SuspendsBy.others (suspends : host.SuspendsBy name) (steps : Nat) (symbol : String)
    (other : symbol ≠ name) :
    ((Engine.ofHost (host.answering name .exhaust) steps).native symbol).Avoids
      NativeReturn.Suspends := by
  cases steps with
  | zero => exact .exhaust
  | succ steps =>
      show Avoids (if symbol = name then _ else _) _
      rw [if_neg other]
      exact suspends symbol other _

end Hosts

/-! ## Threads -/

namespace Heap

variable {kind : Kind} {heap : Heap} {ref : Ref kind} {content : Content kind}

/-- An object that gets the content it has stays as it is. -/
theorem set_eq_self (found : heap.get? ref = some content) : heap.set ref content = heap := by
  have same : changeContent (fun _ => content) (heap.object? ref.index) =
      heap.object? ref.index := by
    rw [get?] at found
    cases here : heap.object? ref.index with
    | none => rfl
    | some object =>
        obtain ⟨own, held⟩ := object
        rw [here] at found
        by_cases alike : own = kind
        · subst alike
          have held : held = content := by simpa [contentAs?] using found
          simp [changeContent, held]
        · simp [changeContent, alike]
  refine congrArg (Heap.mk · heap.hidden) (Array.ext_getElem? fun index => ?_)
  rw [Array.getElem?_modify]
  split
  · rename_i here
    subst here
    rw [object?] at same
    cases there : heap.objects[ref.index]? with
    | none => rfl
    | some object =>
        rw [there] at same
        exact congrArg some same
  · rfl

theorem set_set (heap : Heap) (ref : Ref kind) (first second : Content kind) :
    (heap.set ref first).set ref second = heap.set ref second := modify_modify heap ref _ _

end Heap

namespace Machine

variable {before machine after : Machine} {ref : Ref .thread} {fiber : Fiber}

/-- The running fiber is that of a thread that is there for another fiber. -/
structure Away (ref : Ref .thread) (outer : Fiber) (waiting : List Fiber) (machine : Machine) :
    Prop where
  /-- No fiber has more registers than it is allowed. -/
  roomy : machine.Roomy
  /-- The other fiber waits. -/
  waiting : machine.waiting = outer :: waiting
  /-- The thread is being run. -/
  busy : machine.heap.get? ref = some none
  /-- The thread is held. -/
  held : ref.index ∈ machine.held

variable {outer : Fiber} {waiting : List Fiber}

theorem Away.stands (away : before.Away ref outer waiting) (stands : before.Stands after) :
    after.Away ref outer waiting where
  roomy := stands.roomy
  waiting := stands.waiting.trans away.waiting
  busy := stands.lent ref away.held away.busy
  held := stands.held ▸ away.held

theorem Away.left (away : machine.Away ref outer waiting) :
    leaveThread ref machine = { machine with
      heap := machine.heap.set ref (some machine.fiber), fiber := outer, waiting } :=
  leaveThread_eq away.waiting

theorem Away.get (away : machine.Away ref outer waiting) :
    ((leaveThread ref machine).heap.get ref : Option Fiber) = some machine.fiber := by
  rw [away.left]
  refine Heap.get_of_get?_eq_some ?_
  exact (Heap.get?_set away.busy _ ref).trans (if_pos rfl)

/-- A thread that is entered again goes on as it has been left. -/
theorem Away.again (away : machine.Away ref outer waiting) :
    (leaveThread ref machine).entered ref machine.fiber = machine := by
  rw [away.left]
  show { machine with
    heap := (machine.heap.set ref (some machine.fiber)).set ref none
    fiber := machine.fiber
    waiting := outer :: waiting } = machine
  rw [Heap.set_set, Heap.set_eq_self away.busy, ← away.waiting]

end Machine

namespace Exec

open Machine

variable {α : Type} {machine : Machine} {ref : Ref .thread} {fiber : Fiber}

/-- What a computation in a thread comes to in the fiber that has entered the thread. -/
def leaving (ref : Ref .thread) : EStateM.Result Stop Machine α → EStateM.Result Stop Machine α
  | .ok value next => .ok value (next.leaving ref .done)
  | .error (.raised fault) next => .error (.raised fault) (next.leaving ref (.failed fault))
  | .error .exhausted next => .error .exhausted next

theorem inThread_eq_leaving {action : Exec α}
    (present : (machine.heap.get ref : Option Fiber) = some fiber) :
    inThread ref action machine = leaving ref (action (machine.entered ref fiber)) := by
  rw [inThread_eq present]
  cases action (machine.entered ref fiber) with
  | ok value next => rfl
  | error stop next =>
      cases stop with
      | raised | exhausted => rfl

/-- In a thread that has been suspended, a computation goes on where it has been left. -/
theorem inThread_of_left {outer : Fiber} {waiting : List Fiber} {action : Exec α}
    (away : machine.Away ref outer waiting) :
    inThread ref action (leaveThread ref machine) = leaving ref (action machine) := by
  rw [inThread_eq_leaving away.get, away.again]

theorem concludes_leaving {result : EStateM.Result Stop Machine Outcome} :
    Concludes (leaving ref result) ↔ Concludes result := by
  cases result with
  | ok outcome next =>
      cases outcome with
      | completed | suspended => exact Iff.rfl
  | error stop next =>
      cases stop with
      | raised | exhausted => exact Iff.rfl

theorem leaving_eq_suspended {result : EStateM.Result Stop Machine Outcome} {handed : Value}
    {next : Machine} (left : leaving ref result = .ok (.suspended handed) next) :
    ∃ paused, result = .ok (.suspended handed) paused ∧ next = leaveThread ref paused := by
  cases result with
  | ok outcome paused =>
      cases left
      exact ⟨paused, rfl, rfl⟩
  | error stop paused =>
      cases stop with
      | raised | exhausted => cases left

end Exec

/-- Where a fiber is entered: in the running one, or in a thread. -/
abbrev Place := Option (Ref .thread)

/-- Do something in the running fiber, or in a thread. -/
def Exec.inside (place : Place) (action : Exec Outcome) : Exec Outcome :=
  match place with
  | none => action
  | some ref => inThread ref action

namespace Machine

/-- The fiber at a place, unless it is that of a thread that is being run. -/
def fiberIn (machine : Machine) : Place → Option Fiber
  | none => some machine.fiber
  | some ref => machine.heap.get ref

/-- How many host functions the fiber at a place has run. -/
def ranIn (place : Place) (machine : Machine) : Nat :=
  match machine.fiberIn place with
  | some fiber => fiber.counters.nativeCalls
  | none => 0

end Machine

namespace Exec

open Machine

variable {machine : Machine} {ref : Ref .thread} {outer : Fiber} {waiting : List Fiber}
  {wake : Value → Exec Outcome} {history : List (Nat × Value)}
  {result last : EStateM.Result Stop Machine Outcome}

theorem ranIn_left (away : machine.Away ref outer waiting) :
    (leaveThread ref machine).ranIn (some ref) = machine.ran := by
  rw [ranIn, fiberIn, away.get]
  rfl

theorem stands_of_faithful {action : Exec α} {value : α} {next : Machine}
    (faithful : Faithful False action) (roomy : machine.Roomy)
    (done : action machine = .ok value next) : machine.Stands next := by
  have carries := faithful machine roomy
  rw [FaithfulAt, Meets, done] at carries
  exact carries.1

/-- A thread leads where its fiber leads, as the fiber that enters it sees it. -/
theorem Wakes.inThread (faithful : ∀ value, Faithful False (wake value))
    (wakes : Wakes wake Machine.ran result history last)
    (away : ∀ handed paused, result = .ok (.suspended handed) paused →
      paused.Away ref outer waiting) :
    Wakes (fun value => Exec.inThread ref (wake value)) (ranIn (some ref)) (leaving ref result)
      history (leaving ref last) := by
  induction wakes with
  | ended concludes => exact .ended (concludes_leaving.mpr concludes)
  | @woken handed value paused history last wakes ih =>
      have here := away handed paused rfl
      show Wakes _ _ (.ok (.suspended handed) (leaveThread ref paused)) _ _
      rw [← ranIn_left here]
      refine .woken ?_
      rw [inThread_of_left here]
      refine ih fun again next woken => ?_
      exact here.stands (stands_of_faithful (faithful value) here.roomy woken)

theorem Wakes.of_inThread (faithful : ∀ value, Faithful False (wake value))
    (wakes : Wakes (fun value => Exec.inThread ref (wake value)) (ranIn (some ref))
      (leaving ref result) history last)
    (away : ∀ handed paused, result = .ok (.suspended handed) paused →
      paused.Away ref outer waiting) :
    ∃ ended, last = leaving ref ended ∧ Wakes wake Machine.ran result history ended := by
  generalize left : leaving ref result = seen at wakes
  induction wakes generalizing result with
  | ended concludes =>
      subst left
      exact ⟨result, rfl, .ended (concludes_leaving.mp concludes)⟩
  | @woken handed value paused history last wakes ih =>
      obtain ⟨paused, rfl, rfl⟩ := leaving_eq_suspended left
      have here := away handed paused rfl
      obtain ⟨ended, rfl, inner⟩ := @ih (wake value paused)
        (fun again next woken =>
          here.stands (stands_of_faithful (faithful value) here.roomy woken))
        (inThread_of_left here).symm
      refine ⟨ended, rfl, ?_⟩
      rw [ranIn_left here]
      exact .woken inner

end Exec

/-! ## Entries at a place -/

namespace Exec.Wakes

variable {wake wider : Value → Exec Outcome} {ran : Machine → Nat} {history : List (Nat × Value)}
  {result last : EStateM.Result Stop Machine Outcome}

/-- What an entry leads to it also leads to where less is cut short. -/
theorem mono (wakes : Wakes wake ran result history last)
    (below : ∀ value, (wake value).Below (fun _ => True) (wider value)) :
    Wakes wider ran result history last := by
  induction wakes with
  | ended concludes => exact .ended concludes
  | @woken handed value paused history last wakes ih =>
      refine .woken ?_
      have same : wake value paused = wider value paused := by
        refine (below value).eq_of_ends fun next cut => ?_
        rw [cut] at wakes
        cases wakes with
        | ended concludes => exact concludes
      exact same ▸ ih

/-- The entry has not been cut short. -/
theorem ends {action : Exec Outcome} {machine : Machine}
    (wakes : Wakes wake ran (action machine) history last) (next : Machine) :
    action machine ≠ .error .exhausted next := by
  intro cut
  rw [cut] at wakes
  cases wakes with
  | ended concludes => exact concludes

theorem concludes (wakes : Wakes wake ran result history last) : Concludes last := by
  induction wakes with
  | ended concludes => exact concludes
  | woken _ ih => exact ih

end Exec.Wakes

/-- An entry at a place leads to a result when its fiber is woken there with some values. -/
def Engine.Leads (engine : Engine) (place : Place) (callee this : Value) (arguments : List Value)
    (machine : Machine) (history : List (Nat × Value))
    (last : EStateM.Result Stop Machine Outcome) : Prop :=
  Wakes (fun value => inside place (wakeup engine value)) (Machine.ranIn place)
    (inside place (runWithThis engine callee this arguments) machine) history last

/-- Nothing is active in the fiber at a place, nor is it suspended. -/
inductive Machine.Idle (machine : Machine) : Place → Prop
  /-- The running fiber. -/
  | running : machine.fiber.state = .idle → Idle machine none
  /-- That of a thread that somebody holds. -/
  | thread {ref : Ref .thread} {fiber : Fiber} : machine.heap.get ref = some fiber →
      fiber.state = .idle → ref.index ∈ machine.held → Idle machine (some ref)

theorem Exec.Below.inside {action other : Exec Outcome} (place : Place)
    (below : action.Below (fun _ => True) other) :
    (Exec.inside place action).Below (fun _ => True) (Exec.inside place other) := by
  cases place with
  | none => exact below
  | some ref => exact .inThread ref below

theorem Engine.Leads.mono {engine wider : Engine} {place : Place} {callee this : Value}
    {arguments : List Value} {machine : Machine} {history : List (Nat × Value)}
    {last : EStateM.Result Stop Machine Outcome}
    (leads : engine.Leads place callee this arguments machine history last)
    (below : engine.Below (fun _ => True) wider) :
    wider.Leads place callee this arguments machine history last := by
  have first := (Exec.Below.inside place
    (Exec.Below.runWithThis below callee this arguments)).eq_of_ends leads.ends
  rw [Engine.Leads] at leads ⊢
  rw [← first]
  exact leads.mono fun value => .inside place (.wakeup below value)

namespace Machine

variable {machine : Machine} {ref : Ref .thread} {fiber : Fiber}

theorem vacant_of_idle (rest : fiber.AtRest) (idle : fiber.state = .idle) : fiber.Vacant := by
  rcases rest with vacant | paused
  · exact vacant
  · exact absurd (paused.state.symm.trans idle) (by decide)

theorem Roomy.entered (roomy : machine.Roomy) (found : machine.heap.get ref = some fiber) :
    (machine.entered ref fiber).Roomy := by
  refine ⟨roomy.heap.of_get found, fun waiting member => ?_, roomy.heap.set ref (by simp)⟩
  rcases List.mem_cons.mp member with rfl | member
  · exact roomy.fiber
  · exact roomy.waiting waiting member

theorem Roomy.away (roomy : machine.Roomy) (found : machine.heap.get ref = some fiber)
    (held : ref.index ∈ machine.held) :
    (machine.entered ref fiber).Away ref machine.fiber machine.waiting where
  roomy := roomy.entered found
  waiting := rfl
  busy := (Heap.get?_set (get?_of_get_eq_some found) none ref).trans (if_pos rfl)
  held := held

end Machine

section Places

variable {host : Host} {manners : Manners} {name : String} {look : Machine → Value}
  {machine : Machine} {place : Place} {history : List (Nat × Value)}
  {last : EStateM.Result Stop Machine Outcome} {steps : Nat}

theorem Engine.faithful_answering (serves : host.Serves manners) {answer : Exec NativeReturn}
    (plain : Exec.Faithful False answer) (steps total : Nat) :
    (((Engine.ofHost (host.answering name .exhaust) steps).answering name answer).looping
      total).Faithful False := by
  have inner : (Engine.ofHost (host.answering name .exhaust) steps).Faithful False :=
    Engine.faithful_exhausted serves steps
  have natives : ∀ symbol, Exec.Faithful False
      (((Engine.ofHost (host.answering name .exhaust) steps).answering name answer).native
        symbol) := by
    intro symbol
    show Exec.Faithful False (if symbol = name then _ else _)
    split
    · exact plain
    · exact inner.natives symbol
  have answers : ((Engine.ofHost (host.answering name .exhaust) steps).answering name
      answer).Faithful False := ⟨inner.calls, inner.runs, natives⟩
  exact ⟨inner.calls, fun root => .nestLoop root (.loop answers root total), natives⟩

/-- The fiber of a thread that has been suspended is there for the one that has entered it. -/
theorem away_of_entered (serves : host.Serves manners) (roomy : machine.Roomy) {ref : Ref .thread}
    {fiber : Fiber} (found : machine.heap.get ref = some fiber) (held : ref.index ∈ machine.held)
    (callee this : Value) (arguments : List Value) (handed : Value) (paused : Machine)
    (done : runWithThis (host.outermost name (.pausing look) steps) callee this arguments
      (machine.entered ref fiber) = .ok (.suspended handed) paused) :
    paused.Away ref machine.fiber machine.waiting := by
  have faithful := (Engine.faithful_answering serves (.view _) steps steps :
    (host.outermost name (.pausing look) steps).Faithful False)
  have away := roomy.away found held
  exact away.stands
    (stands_of_faithful (.runWithThis faithful callee this arguments) away.roomy done)

variable (serves : host.Serves manners) (verified : manners.trusts = false)
  (suspends : host.SuspendsBy name) (sound : machine.Sound) (roomy : machine.Roomy)
  (rest : machine.fiber.AtRest) (idle : machine.Idle place)

include serves verified suspends sound roomy rest idle

/-- What an entry leads to when it is woken with some values, it leads to when the function replies
with them. -/
theorem replies_of_leads (callee this : Value) (arguments : List Value)
    (leads : (host.outermost name (.pausing look) steps).Leads place callee this arguments machine
      history last) (reply : Nat → Value) :
    history.Pairwise (·.1 < ·.1) ∧ (Recounts reply history → ∃ total,
      inside place
        (runWithThis (((Engine.ofHost (host.answering name .exhaust) steps).answering name
          (.replying reply)).looping total) callee this arguments) machine = last) := by
  have others := suspends.others steps
  have sure := @Engine.sure_replying _ _ name serves verified steps
  cases idle with
  | running idle =>
      exact replies_of_wakes others sure sound roomy (Machine.vacant_of_idle rest idle) leads reply
  | @thread ref fiber found idle held =>
      have faithful : (host.outermost name (.pausing look) steps).Faithful False :=
        Engine.faithful_answering serves (.view _) steps steps
      have vacant := Machine.vacant_of_idle (sound.heap.thread found).2 idle
      have leads : Wakes _ _ (Exec.inThread ref _ machine) history last := leads
      rw [inThread_eq_leaving found] at leads
      obtain ⟨ended, rfl, wakes⟩ := leads.of_inThread (fun value => .wakeup faithful value)
        (away_of_entered serves roomy found held callee this arguments)
      obtain ⟨increasing, replies⟩ := replies_of_wakes others sure (sound.entered found)
        (roomy.entered found) vacant wakes reply
      refine ⟨increasing, fun recounts => ?_⟩
      obtain ⟨total, answered⟩ := replies recounts
      exact ⟨total, (inThread_eq_leaving found).trans (congrArg _ answered)⟩

/-- What an entry leads to when the function replies, it leads to when it is woken with some
values. -/
theorem leads_of_replies (callee this : Value) (arguments : List Value) {reply : Nat → Value}
    (concludes : Concludes last)
    (answered : inside place (runWithThis (host.outermost name (.replying reply) steps) callee this
      arguments) machine = last) :
    ∃ history, Recounts reply history ∧
      (host.outermost name (.pausing look) steps).Leads place callee this arguments machine history
        last := by
  have others := suspends.others steps
  have sure := @Engine.sure_replying _ _ name serves verified steps
  cases idle with
  | running idle =>
      exact wakes_of_replies others sure sound roomy (Machine.vacant_of_idle rest idle) concludes
        answered
  | @thread ref fiber found idle held =>
      have faithful : (host.outermost name (.pausing look) steps).Faithful False :=
        Engine.faithful_answering serves (.view _) steps steps
      have vacant := Machine.vacant_of_idle (sound.heap.thread found).2 idle
      have answered := (inThread_eq_leaving found).symm.trans answered
      subst answered
      obtain ⟨history, recounts, wakes⟩ := @wakes_of_replies _ _ _ _ look _ _ _ _ _ others sure
        (sound.entered found) (roomy.entered found) vacant _
        (concludes_leaving.mp concludes) rfl
      refine ⟨history, recounts, ?_⟩
      show Wakes _ _ (Exec.inThread ref _ machine) _ _
      rw [inThread_eq_leaving found]
      exact wakes.inThread (fun value => .wakeup faithful value)
        (away_of_entered serves roomy found held callee this arguments)

end Places

/-! ## Refusals -/

namespace Machine

/-- What the fiber at a place is doing; a thread that has been entered is running. -/
def stateIn (machine : Machine) (place : Place) : FiberState :=
  ((machine.fiberIn place).map Fiber.state).getD .running

/-- The computation is refused for what the thread is doing, and changes nothing but what has been
written down of faults. -/
def Rebuffs (machine : Machine) (action : Exec Outcome) : Prop :=
  ∃ (fault : Fault) (added : List Incident), fault.family = .thread ∧
    action machine = .error (.raised fault) { machine with incidents := added ++ machine.incidents }

theorem fiberIn_of_stateIn {machine : Machine} {place : Place} {state : FiberState}
    (same : machine.stateIn place = state) (other : state ≠ .running) :
    ∃ fiber, machine.fiberIn place = some fiber ∧ fiber.state = state := by
  cases here : machine.fiberIn place with
  | none =>
      rw [stateIn, here] at same
      exact absurd same.symm other
  | some fiber =>
      rw [stateIn, here] at same
      exact ⟨fiber, rfl, same⟩

end Machine

namespace Exec

open Machine

variable {machine : Machine} {place : Place} {action : Exec Outcome}

/-- What any fiber in such a state refuses is refused at a place. -/
theorem rebuffs_inside
    (refused : ∀ inner : Machine, machine.fiberIn place = some inner.fiber →
      ∃ fault : Fault, fault.family = .thread ∧
        action inner = .error (.raised fault) (inner.record fault)) :
    machine.Rebuffs (inside place action) := by
  cases place with
  | none =>
      obtain ⟨fault, family, refused⟩ := refused machine rfl
      exact ⟨fault, [machine.incident .raised fault], family, refused⟩
  | some ref =>
      cases found : (machine.heap.get ref : Option Fiber) with
      | none =>
          exact ⟨.threadRunning, [machine.incident .raised .threadRunning], rfl,
            inThread_of_none found⟩
      | some fiber =>
          let inner := machine.entered ref fiber
          obtain ⟨fault, family, refused⟩ := refused inner found
          have heap : (machine.heap.set ref none).set ref (some fiber) = machine.heap := by
            rw [Heap.set_set, Heap.set_eq_self (get?_of_get_eq_some found)]
          have left : leaveThread ref (inner.record fault) =
              { machine with
                incidents := inner.incident .raised fault :: machine.incidents } := by
            rw [@leaveThread_eq (inner.record fault) ref machine.fiber machine.waiting rfl]
            show { machine with
              heap := (machine.heap.set ref none).set ref (some fiber)
              incidents := inner.incident .raised fault :: machine.incidents } = _
            rw [heap]
          refine ⟨fault, [machine.incident .surfaced fault, inner.incident .raised fault], family,
            ?_⟩
          show Exec.inThread ref action machine = _
          rw [inThread_eq_leaving found, refused]
          show EStateM.Result.error _
            ((leaveThread ref (inner.record fault)).note .surfaced fault) = _
          rw [left]
          rfl

/-- Nothing is called in a suspended fiber. -/
theorem rebuffs_runWithThis (suspended : machine.stateIn place = .suspended) (engine : Engine)
    (callee this : Value) (arguments : List Value) :
    machine.Rebuffs (inside place (runWithThis engine callee this arguments)) := by
  obtain ⟨fiber, here, state⟩ := fiberIn_of_stateIn suspended (by decide)
  refine rebuffs_inside fun inner same => ⟨.suspendedCall, rfl, ?_⟩
  have same : fiber = inner.fiber := Option.some.inj (here.symm.trans same)
  exact runWithThis_of_suspended engine (same ▸ state) callee this arguments

/-- Only a suspended fiber is woken. -/
theorem rebuffs_wakeup (awake : machine.stateIn place ≠ .suspended) (engine : Engine)
    (value : Value) : machine.Rebuffs (inside place (wakeup engine value)) := by
  refine rebuffs_inside fun inner same => ⟨.notSuspended inner.fiber.state.name, rfl, ?_⟩
  refine wakeup_of_not_suspended engine (fun asleep => awake ?_) value
  rw [stateIn, same]
  exact asleep

end Exec

/-! ## The standard host -/

namespace Exec.Avoids

/-- What ends with a value does not suspend the fiber. -/
theorem value (action : Exec α) (image : α → Value) :
    (action >>= fun found => Pure.pure (.value (image found)) : Exec NativeReturn).Avoids
      NativeReturn.Suspends := .bind fun _ => .pure fun ⟨_, same⟩ => by simp at same

/-- Nor does what ends without one. -/
theorem nothing : (Pure.pure .nothing : Exec NativeReturn).Avoids NativeReturn.Suspends :=
  .pure fun ⟨_, same⟩ => by simp at same

theorem reflection (engine : Engine) {function : Reflection} (other : function ≠ .suspend) :
    (function.perform engine).Avoids NativeReturn.Suspends := by
  cases function with
  | suspend => exact absurd rfl other
  | args => exact .bind fun _ => .value _ _
  | count | this | integer | state | frames => exact .value _ _
  | array => exact .bind fun _ => .value _ _
  | outer => exact .bind fun _ => .value _ _
  | push =>
      refine .bind fun _ => .bind fun bound => ?_
      split
      · exact .bind fun _ => nothing
      · exact nothing
  | sync => exact .bind fun _ => .bind fun _ => .bind fun _ => .value _ _
  | run => exact .bind fun _ => .bind fun _ => .value _ _
  | throw => exact .bind fun _ => .raise _
  | fail => exact .bind fun _ => .raise _
  | resume =>
      refine .bind fun found => ?_
      split
      · exact .value _ _
      · exact nothing
  | wakeup => exact .bind fun _ => .value _ _
  | compare => exact .bind fun _ => .bind fun _ => .value _ _
  | pop =>
      refine .bind fun _ => .bind fun _ => .bind fun _ => .bind fun _ => ?_
      exact .pure fun ⟨_, same⟩ => by simp at same

theorem baseFunction (engine : Engine) {function : BaseFunction} (other : function ≠ .suspend) :
    (function.run engine).Avoids NativeReturn.Suspends := by
  cases function with
  | suspend => exact absurd rfl other
  | print => exact .bind fun _ => .bind fun _ => .bind fun _ => nothing
  | assert => exact .bind fun _ => .bind fun _ => .bind fun _ => nothing
  | len => exact .bind fun _ => .value _ _
  | sort => exact .bind fun _ => .bind fun _ => .bind fun _ => nothing
  | collectGarbage => exact .value _ _
  | newThread =>
      refine .bind fun _ => .bind fun _ => .bind fun _ => ?_
      exact .pure fun ⟨_, same⟩ => by simp at same
  | threadCall => exact .bind fun _ => .bind fun _ => .value _ _
  | threadWakeup => exact .bind fun _ => .bind fun _ => .value _ _
  | threadStatus => exact .bind fun _ => .value _ _
  | getRootTable => exact .value _ _

end Exec.Avoids

theorem suspendsBy_standardHost : standardHost.SuspendsBy "suspend" := by
  intro symbol other engine
  rw [standardHost]
  split
  · rename_i function found
    refine .reflection engine ?_
    rintro rfl
    have named : "suspend" = symbol := by simpa [Reflection.name] using List.find?_some found
    exact other named.symm
  · split
    · rename_i function found
      refine .baseFunction engine ?_
      rintro rfl
      have named : "suspend" = symbol := by simpa [BaseFunction.name] using List.find?_some found
      exact other named.symm
    · exact .nothing

/-! ## Transparency -/

theorem Host.Serves.pausing {host : Host} {manners : Manners} (serves : host.Serves manners)
    (name : String) (look : Machine → Value) :
    (host.answering name (.pausing look)).Serves manners := by
  intro symbol engine
  rw [Host.answering]
  split
  · exact .adjust (fun machine => NativeReturn.suspend (look machine)) Machine.printed
      Machine.handler
  · exact serves symbol engine

/-- It makes no difference whether a function suspends the fiber, which is then woken with a value,
or replies with the value itself: an entry leads to the same result or fault, and to the same
machine.  This holds where the function is called in the outermost run loop of the fiber, or
directly by the host.  Nothing is called in a suspended fiber, and no other is woken. -/
theorem suspension_transparent {host : Host} {manners : Manners} {name : String}
    {look : Machine → Value} (serves : host.Serves manners) (verified : manners.trusts = false)
    (monotone : host.Monotone) (suspends : host.SuspendsBy name) {machine : Machine}
    (commanded : machine.Commanded (host.answering name (.pausing look)) manners) {place : Place}
    (idle : machine.Idle place) (callee this : Value) (arguments : List Value) :
    (∀ steps history last, (host.outermost name (.pausing look) steps).Leads place callee this
        arguments machine history last →
      (∀ more, steps + 2 ≤ more → (Engine.ofHost (host.answering name (.pausing look)) more).Leads
        place callee this arguments machine history last) ∧
      history.Pairwise (·.1 < ·.1) ∧
      ∀ reply, Recounts reply history → ∃ enough, ∀ more, enough ≤ more →
        inside place (runWithThis (Engine.ofHost (host.answering name (.replying reply)) more)
          callee this arguments) machine = last) ∧
    (∀ steps reply last, Concludes last →
      inside place (runWithThis (host.outermost name (.replying reply) steps) callee this
        arguments) machine = last →
      (∀ more, steps + 2 ≤ more → inside place (runWithThis (Engine.ofHost (host.answering name
        (.replying reply)) more) callee this arguments) machine = last) ∧
      ∃ history, Recounts reply history ∧ ∀ more, steps + 2 ≤ more →
        (Engine.ofHost (host.answering name (.pausing look)) more).Leads place callee this
          arguments machine history last) ∧
    ∀ (engine : Engine) (other : Machine) (spot : Place),
      (other.stateIn spot = .suspended → ∀ callee this arguments,
        other.Rebuffs (inside spot (runWithThis engine callee this arguments))) ∧
      (other.stateIn spot ≠ .suspended → ∀ value,
        other.Rebuffs (inside spot (wakeup engine value))) := by
  have pausing := serves.pausing name look
  have controlled := commanded.controlled pausing verified
  have roomy := (commanded.arises.orderly pausing).2
  have real : ∀ {answer : Exec NativeReturn} {steps total more : Nat}, steps + 2 ≤ more →
      total + 2 ≤ more → (inside place (runWithThis (((Engine.ofHost (host.answering name .exhaust)
        steps).answering name answer).looping total) callee this arguments)).Below (fun _ => True)
          (inside place (runWithThis (Engine.ofHost (host.answering name answer) more) callee this
            arguments)) :=
    fun le le' => .inside place (.runWithThis (monotone.looping le le') _ _ _)
  refine ⟨fun steps history last leads => ?_, fun steps reply last concludes answered => ?_,
    fun engine other spot => ⟨fun suspended callee this arguments =>
      rebuffs_runWithThis suspended engine callee this arguments, fun awake value =>
        rebuffs_wakeup awake engine value⟩⟩
  · have replies := replies_of_leads serves verified suspends controlled.sound roomy
      controlled.rest idle callee this arguments leads
    refine ⟨fun more le => leads.mono (monotone.looping le le), (replies fun _ => .null).1,
      fun reply recounts => ?_⟩
    obtain ⟨total, answered⟩ := (replies reply).2 recounts
    refine ⟨steps + total + 2, fun more le => ?_⟩
    have same := (@real (.replying reply) steps total more (by omega) (by omega)).eq_of_ends
      (leads.concludes.ends answered)
    exact same.symm.trans answered
  · obtain ⟨history, recounts, leads⟩ := @leads_of_replies _ _ _ look _ _ _ _ serves verified
      suspends controlled.sound roomy controlled.rest idle callee this arguments _ concludes
      answered
    refine ⟨fun more le => ?_, history, recounts, fun more le =>
      leads.mono (monotone.looping le le)⟩
    have same := (@real (.replying reply) steps steps more le le).eq_of_ends
      (concludes.ends answered)
    exact same.symm.trans answered

/-- A function that asks twice and adds what it is told. -/
def askingTwice : Prototype where
  name := "askingTwice"
  parameters := #["this", "ask"]
  stackSize := 5
  code := #[⟨.call, 2, 1, 3, 1⟩, ⟨.call, 3, 1, 4, 1⟩, ⟨.add, 4, 2, 3, 0⟩, ⟨.ret, 0, 4, 0, 0⟩]

/-- Load the function, for a function of the host that asks. -/
def setUpAsking : Exec Value := do
  let _ask : Ref .native ← Exec.alloc ({ name := "suspend", symbol := "suspend" } : Native)
  Exec.loadFunction askingTwice

theorem suspension_transparent_adding :
    let machine := setUpAsking.after (.create {})
    let pausing := standardHost.answering "suspend" (.pausing fun _ => .null)
    let replying := standardHost.answering "suspend"
      (.replying fun number => .integer (if number = 1 then 20 else 22))
    ∃ next enough, (Engine.ofHost pausing 8).Leads none (.closure ⟨2⟩) (.table ⟨0⟩) [.native ⟨1⟩]
        machine [(1, .integer 20), (2, .integer 22)] (.ok (.completed (.integer 42)) next) ∧
      ∀ more, enough ≤ more → runWithThis (Engine.ofHost replying more) (.closure ⟨2⟩) (.table ⟨0⟩)
        [.native ⟨1⟩] machine = .ok (.completed (.integer 42)) next := by
  intro machine pausing replying
  have commanded : machine.Commanded pausing { wakes := true } := by
    have done : setUpAsking.value? (.create {}) = some (.closure ⟨2⟩) := by decide +kernel
    refine @Machine.Commanded.returned _ _ _ _ _ 0 _ _ (.created {}) (.serves ?_)
      (eq_after_of_value? done)
    exact (Engine.Serves.calm (.alloc .native _ rfl)).bind fun _ => .loadFunction askingTwice
  have idle : machine.Idle none := .running (by decide +kernel)
  have transparent := suspension_transparent serves_standardHost rfl monotone_standardHost
    suspendsBy_standardHost commanded idle (.closure ⟨2⟩) (.table ⟨0⟩) [.native ⟨1⟩]
  let engine := standardHost.outermost "suspend" (.pausing fun _ => .null) 6
  let entry := runWithThis engine (.closure ⟨2⟩) (.table ⟨0⟩) [.native ⟨1⟩]
  let first := entry.after machine
  let second := (wakeup engine (.integer 20)).after first
  let next := (wakeup engine (.integer 22)).after second
  have leads : engine.Leads none (.closure ⟨2⟩) (.table ⟨0⟩) [.native ⟨1⟩] machine
      [(1, .integer 20), (2, .integer 22)] (.ok (.completed (.integer 42)) next) := by
    have asks : entry machine = .ok (.suspended .null) first :=
      eq_after_of_value? (by decide +kernel)
    have again : wakeup engine (.integer 20) first = .ok (.suspended .null) second :=
      eq_after_of_value? (by decide +kernel)
    have ends : wakeup engine (.integer 22) second = .ok (.completed (.integer 42)) next :=
      eq_after_of_value? (by decide +kernel)
    have counted : first.ranIn none = 1 ∧ second.ranIn none = 2 := by decide +kernel
    show Wakes _ _ (entry machine) _ _
    rw [asks, ← counted.1, ← counted.2]
    refine .woken ?_
    show Wakes _ _ (wakeup engine (.integer 20) first) _ _
    rw [again]
    refine .woken ?_
    show Wakes _ _ (wakeup engine (.integer 22) second) _ _
    rw [ends]
    exact .ended trivial
  obtain ⟨real, _, replies⟩ := transparent.1 6 _ _ leads
  obtain ⟨enough, answered⟩ := replies (fun number => .integer (if number = 1 then 20 else 22))
    (by simp [Recounts])
  exact ⟨next, enough, real 8 (Nat.le_refl 8), answered⟩

end ScriptMachine
