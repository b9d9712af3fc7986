import ScriptMachine.Machine.Thread
import ScriptMachine.Proofs.Machine.Entry

/-!
# Threads

What happens in a thread happens to a fiber in which nothing else is active.  The fiber that has
entered the thread waits meanwhile and finds everything as it was; a fault that leaves the thread
has met no live trap there and goes on in the waiting fiber.
-/

namespace ScriptMachine

open Exec

variable {α β : Type}

/-- Where a sound machine has its fiber at rest, the computation leaves it so. -/
def Exec.Restful (manners : Manners) (action : Exec α) : Prop :=
  ∀ machine : Machine, machine.Sound → machine.fiber.AtRest →
    action.Meets machine
      (fun _ next => machine.Rests Fiber.AtRest next ∧ machine.Logs manners none next)
      (machine.Refuses manners) (machine.Reaches manners)

namespace Machine

variable {manners : Manners} {before machine after : Machine} {fault : Fault}

theorem Fails.refuses (fails : before.Fails manners .all fault after) (sound : before.Sound)
    (rest : before.fiber.AtRest) : before.Refuses manners fault after := by
  have rests := fails.keeps.rests sound rest
  exact ⟨rests, fails.pends.escaped rests.sound rests.rest⟩

end Machine

theorem Exec.Steady.restful {manners : Manners} {given : Activity → Prop} {action : Exec α}
    (steady : Steady manners .all given action)
    (rests : ∀ fiber : Fiber, fiber.AtRest → given fiber.activity) : Restful manners action :=
  fun machine sound rest =>
    (steady machine (sound.ready_of_atRest rest) trivial (rests _ rest)).mono
      (fun _ _ returns => ⟨returns.keeps.rests sound rest, returns.logs⟩)
      (fun _ _ fails => fails.refuses sound rest) fun _ => id

/-! ## Entering and leaving -/

theorem Heap.Sound.thread {heap : Heap} (sound : heap.Sound) {ref : Ref .thread} {fiber : Fiber}
    (found : heap.get ref = some fiber) : fiber.SoundIn heap ∧ fiber.AtRest := by
  cases here : heap.get? ref with
  | none =>
      rw [Heap.get, here] at found
      exact absurd found (by simp [Content.absent])
  | some content =>
      rw [Heap.get, here] at found
      exact sound ref content here fiber found

namespace Machine

variable {manners : Manners} {before machine last : Machine}

/-- A thread gets a fiber at rest, or none. -/
theorem Sound.setThread (sound : machine.Sound) (ref : Ref .thread) (content : Option Fiber)
    (fits : ∀ fiber, content = some fiber → fiber.SoundIn machine.heap ∧ fiber.AtRest) :
    { machine with heap := machine.heap.set ref content }.Sound :=
  sound.setHeap (machine.heap.follows_modify ref _ (by decide) (by decide))
    (sound.heap.fits_modify fun _ _ => fits)

/-- The thread has been entered. -/
def entered (machine : Machine) (ref : Ref .thread) (fiber : Fiber) : Machine :=
  { machine with
    heap := machine.heap.set ref none, fiber, waiting := machine.fiber :: machine.waiting }

theorem Sound.entered (sound : machine.Sound) {ref : Ref .thread} {fiber : Fiber}
    (found : machine.heap.get ref = some fiber) : (machine.entered ref fiber).Sound := by
  have emptied := sound.setThread ref none (by simp)
  have follows := machine.heap.follows_modify ref (fun _ => (none : Option Fiber)) (by decide)
    (by decide)
  refine ⟨emptied.heap, follows.fiber (sound.heap.thread found).1, fun other member => ?_,
    emptied.routines, emptied.incidents⟩
  rcases List.mem_cons.mp member with rfl | member
  · exact emptied.fiber
  · exact emptied.waiting other member

theorem Rests.left {ref : Ref .thread} {fiber : Fiber}
    (rests : (machine.entered ref fiber).Rests Fiber.AtRest last) :
    machine.Keeps .all (leaveThread ref last) := by
  have left : leaveThread ref last =
      { last with
        heap := last.heap.set ref (some last.fiber), fiber := machine.fiber,
        waiting := machine.waiting } := by
    rw [leaveThread, rests.waiting]
    rfl
  have put := rests.sound.setThread ref (some last.fiber) fun own same =>
    Option.some.inj same ▸ ⟨rests.sound.fiber, rests.rest⟩
  have waiting : ∀ other ∈ machine.fiber :: machine.waiting,
      other.SoundIn (last.heap.set ref (some last.fiber)) :=
    fun other member => put.waiting other (rests.waiting ▸ member)
  rw [left]
  exact ⟨⟨put.heap, waiting _ (by simp), fun other member => waiting other (by simp [member]),
    put.routines, put.incidents⟩, rfl, .refl .all _, rfl, rests.reporting⟩

theorem incidents_leaveThread (ref : Ref .thread) (machine : Machine) :
    (leaveThread ref machine).incidents = machine.incidents := by
  rw [leaveThread]
  split
  · rfl
  · rfl

/-- A fault that has left a thread is pending in the fiber that has entered it. -/
theorem Escaped.left {ref : Ref .thread} {fiber : Fiber} {fault : Fault}
    (escaped : (machine.entered ref fiber).Escaped manners fault last)
    (keeps : machine.Keeps .all (leaveThread ref last)) :
    machine.Pends manners fault ((leaveThread ref last).note .surfaced fault) := by
  intro honest
  obtain ⟨raised, logs, same, escapes⟩ := escaped honest
  obtain ⟨inner, joined, ordered⟩ := logs honest
  let other := (leaveThread ref last).incident .surfaced fault
  refine ⟨other, fun _ => ⟨other :: inner ++ [], ?_, ?_⟩, rfl, keeps.sound.remains _ fault, rfl⟩
  · rw [List.append_nil]
    exact congrArg (other :: ·) ((incidents_leaveThread ref last).trans joined)
  · exact .surfaced .nil ordered escapes rfl same.symm (congrArg List.length keeps.waiting)
      keeps.reporting

end Machine

namespace Exec

open Machine

variable {manners : Manners} {given : Activity → Prop} {engine : Engine}

/-- The fiber that enters a thread finds everything as it was. -/
theorem Steady.inThread {action : Exec α} (restful : Restful manners action)
    (ref : Ref .thread) : Steady manners .all given (Exec.inThread ref action) := by
  intro machine ready _ _
  refine Meets.read_bind ?_
  split
  · exact ready.sound.fails (machine.allowed_incident rfl .raised)
  · rename_i fiber found
    let inside := machine.entered ref fiber
    have sound : inside.Sound := ready.sound.entered found
    have rest : inside.fiber.AtRest := (ready.sound.heap.thread found).2
    have ran : (Exec.ensuring (leaveThread ref) action).Meets inside
        (fun _ => machine.Returns manners .all)
        (fun fault next => machine.Keeps .all next ∧
          machine.Pends manners fault (next.note .surfaced fault))
        (machine.Reaches manners) := by
      refine ((restful inside sound rest).mono (fun _ _ => id) (fun _ _ => id)
        fun last reaches => ⟨reaches.ready, reaches.logs⟩).ensuring (fun _ last ⟨rests, logs⟩ => ?_)
          fun fault last refuses => ⟨refuses.1.left, refuses.2.left refuses.1.left⟩
      refine ⟨rests.left, fun honest => ?_⟩
      obtain ⟨inner, joined, ordered⟩ := logs honest
      exact ⟨inner, (incidents_leaveThread ref last).trans joined,
        inner.append_nil ▸ .thread .nil ordered⟩
    refine Meets.modify_bind (Meets.modify_bind (ran.attempt_bind ?_ ?_))
    · exact fun value next returns => returns
    · rintro fault next ⟨keeps, pends⟩
      exact ⟨keeps.trans (keeps.sound.note fun raises => absurd raises Bool.false_ne_true), pends⟩

theorem Restful.bind {action : Exec α} {following : α → Exec β} (first : Restful manners action)
    (further : ∀ value, Restful manners (following value)) :
    Restful manners (action >>= following) := by
  intro machine sound rest
  refine (first machine sound rest).bind fun value next ⟨rests, logs⟩ => ?_
  refine (further value next rests.sound rests.rest).mono ?_ ?_ ?_
  · rintro _ last ⟨later, noted⟩
    exact ⟨⟨later.sound, later.rest, later.waiting.trans rests.waiting,
      later.reporting.trans rests.reporting⟩, logs.trans rests.waiting rests.reporting noted⟩
  · rintro fault last ⟨later, escaped⟩
    refine ⟨⟨later.sound, later.rest, later.waiting.trans rests.waiting,
      later.reporting.trans rests.reporting⟩, fun honest => ?_⟩
    obtain ⟨raised, noted, same, escapes⟩ := escaped honest
    exact ⟨raised, logs.trans rests.waiting rests.reporting noted, same, escapes⟩
  · exact fun last => .trans logs

theorem Restful.runWithThis (steady : engine.Steady manners) (callee this : Value)
    (arguments : List Value) : Restful manners (Exec.runWithThis engine callee this arguments) :=
  fun _ sound rest => (meets_runWithThis_atRest steady sound rest callee this arguments).mono
    (fun outcome _ done => ⟨done.1.mono fun _ => outcome.atRest, done.2⟩) (fun _ _ => id)
    fun _ => id

theorem Restful.wakeup (steady : engine.Steady manners) (value : Value) :
    Restful manners (Exec.wakeup engine value) :=
  fun _ sound rest => (meets_wakeup_atRest steady sound rest value).mono
    (fun outcome _ done => ⟨done.1.mono fun _ => outcome.atRest, done.2⟩) (fun _ _ => id)
    fun _ => id

/-! ## Operations on threads -/

theorem Steady.newThread : Steady manners .all given Exec.newThread := by
  intro machine ready _ _
  let fiber := Fiber.create machine.limits.stackSize machine.limits.callDepth true
  have vacant : fiber.Vacant := ⟨⟨rfl, rfl, rfl, rfl⟩, rfl, rfl, rfl, rfl, rfl⟩
  have sound : fiber.SoundIn machine.heap := by
    refine ⟨⟨?_, ?_, .nil, ?_⟩, Nat.zero_le _⟩
    · simp [fiber, Fiber.create, Fiber.activity]
    · simp [fiber, Fiber.create, Fiber.activity, Stacked]
    · simp [fiber, Fiber.create, Fiber.activity]
  have fits : @Content.SoundIn machine.heap .thread (some fiber) :=
    fun own same => Option.some.inj same ▸ ⟨sound, .inl vacant⟩
  exact Machine.Keeps.setHeap (ready.sound.alloc fits)

theorem Steady.setThreadFunction (ref : Ref .thread) (entry : Value) :
    Steady manners .all given (Exec.setThreadFunction ref entry) := by
  have changes : Direct manners .all (onFiber fun fiber => { fiber with entry := some entry }) :=
    .alike fun _ _ => ⟨rfl, rfl, .refl .all _, id, rfl, rfl, rfl, rfl⟩
  have checked : ∀ allowed : Bool, Steady manners .all (fun _ => True) (do
      unless allowed do Exec.raise (.threadFunction entry.typeName)
      onFiber fun fiber => { fiber with entry := some entry }) := by
    intro allowed
    cases allowed with
    | true => exact changes.steady
    | false => exact (raise rfl).bind fun _ => changes.steady
  exact Steady.inThread ((checked _).restful fun _ _ => trivial) ref

theorem Steady.threadCall (steady : engine.Steady manners) (ref : Ref .thread)
    (arguments : List Value) :
    Steady manners .all given (Exec.threadCall engine ref arguments) := by
  have rests : ∀ {β : Type} {action : Exec β}, Steady manners .all (fun _ => True) action →
      Restful manners action := fun steady => steady.restful fun _ _ => trivial
  refine Steady.inThread ((rests (.view _)).bind fun entry => ?_) ref
  cases entry with
  | none => exact rests (.raise rfl)
  | some entry => exact (rests (.view id)).bind fun _ => .runWithThis steady _ _ _

theorem Steady.threadWakeup (steady : engine.Steady manners) (ref : Ref .thread) (value : Value) :
    Steady manners .all given (Exec.threadWakeup engine ref value) :=
  Steady.inThread (.wakeup steady value) ref

/-! ## Loading -/

theorem Steady.closureOver {routine : Routine} (sound : routine.Sound) :
    Steady manners .all given (Exec.closureOver routine) := by
  have cells : ∀ captures : List Capture, Steady manners .all given
      (captures.mapM fun _ => @Exec.alloc .cell .null) := by
    intro captures
    induction captures with
    | nil => exact pure []
    | cons capture rest ih =>
        rw [List.mapM_cons]
        refine bind (fun machine ready _ _ => ?_) fun _ => ih.bind fun _ => pure _
        exact Machine.Keeps.setHeap (ready.sound.alloc trivial)
  have size : ∀ (captures : List Capture) (machine next : Machine) (list : List (Ref .cell)),
      (captures.mapM fun _ => @Exec.alloc .cell .null) machine = .ok list next →
      list.length = captures.length := by
    intro captures
    induction captures with
    | nil =>
        intro machine next list done
        cases done
        rfl
    | cons capture rest ih =>
        intro machine next list done
        rw [List.mapM_cons] at done
        obtain ⟨cell, first, _, done⟩ := bind_eq_ok done
        obtain ⟨others, second, found, done⟩ := bind_eq_ok done
        cases done
        rw [List.length_cons, ih first _ others found, List.length_cons]
  intro machine ready fits holds
  rw [Exec.closureOver, Array.mapM_eq_mapM_toList, map_eq_pure_bind, bind_assoc]
  refine ((cells _ machine ready fits holds).and fun list next => size _ machine next list).bind
    fun list next ⟨returns, length⟩ => ?_
  have closure : Closure.Sound ⟨routine, list.toArray⟩ := ⟨sound, by simpa using length⟩
  exact returns.trans (Machine.Keeps.setHeap (returns.keeps.sound.alloc closure))

theorem Steady.loadRoutine {following : Routine → Exec α}
    (further : ∀ routine : Routine, routine.Sound → Steady manners .all given (following routine))
    (prototype : Prototype) :
    Steady manners .all given (Exec.loadRoutine prototype >>= following) := by
  rw [Exec.loadRoutine]
  split
  · rename_i verified
    have sound : (Routine.load prototype).Sound :=
      ⟨prototype, Prototype.accepted_of_verify verified, rfl⟩
    exact fun machine ready fits holds => further _ sound machine ready fits holds
  · exact fun machine ready _ _ => ready.sound.fails (machine.allowed_incident rfl .raised)

theorem Steady.newClosure (value : Value) :
    Steady manners .all given (Exec.newClosure value) := by
  cases value with
  | routine index =>
      intro machine ready fits holds
      refine Meets.get_bind ?_
      cases found : machine.routines[index]? with
      | none => exact closureOver Routine.sound_default machine ready fits holds
      | some routine =>
          have sound := ready.sound.routines routine (Array.mem_of_getElem? found)
          exact closureOver sound machine ready fits holds
  | _ => exact raise rfl

theorem Steady.newRoutine {routine : Routine} (sound : routine.Sound) :
    Steady manners .all given (Exec.newRoutine routine) := by
  intro machine ready _ _
  have kept := ready.sound
  refine ⟨⟨⟨kept.heap, kept.fiber, kept.waiting, fun other member => ?_, kept.incidents⟩, rfl,
    .refl .all _, rfl, rfl⟩, logs_of_eq rfl⟩
  rcases Array.mem_push.mp member with member | rfl
  · exact kept.routines other member
  · exact sound

end Exec

end ScriptMachine
