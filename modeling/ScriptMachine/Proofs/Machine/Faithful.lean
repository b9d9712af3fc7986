import ScriptMachine.Proofs.Heap.Content
import ScriptMachine.Proofs.Machine.Meets
import ScriptMachine.Proofs.Machine.Operations
import ScriptMachine.Proofs.Machine.Registers

/-!
# Computations that pass an overflow on

A computation is faithful if an overflow of native calls that is raised while it runs is what it
fails with in the end: it neither comes to a result nor runs on.  The one exception is the creation
of a closure, which puts a fault of its own in the place of whatever keeps it from finding a
captured slot; this is written down as a replacement.  Where host functions may catch faults,
nothing is said of overflows.  In any case the same fibers are there in the end, and what the host
holds is still held.  Nothing is assumed about the code, only that no fiber has more registers than
it is allowed.
-/

namespace ScriptMachine

open Exec

variable {α β : Type}

/-! ## Room -/

/-- No thread has more registers than it is allowed. -/
def Heap.Roomy (heap : Heap) : Prop :=
  ∀ (ref : Ref .thread) (fiber : Fiber), heap.get? ref = some (some fiber) → fiber.Roomy

/-- No fiber has more registers than it is allowed. -/
structure Machine.Roomy (machine : Machine) : Prop where
  /-- The running fiber. -/
  fiber : machine.fiber.Roomy
  /-- The waiting fibers. -/
  waiting : ∀ fiber ∈ machine.waiting, fiber.Roomy
  /-- The threads that are not being run. -/
  heap : machine.heap.Roomy

/-- Threads that are held while they are being run are still there, and still being run. -/
def Heap.Lent (held : List Nat) (before after : Heap) : Prop :=
  ∀ ref : Ref .thread, ref.index ∈ held → before.get? ref = some none → after.get? ref = some none

namespace Heap.Roomy

variable {heap after : Heap} {kind : Kind}

theorem alloc (roomy : heap.Roomy) (differ : Kind.thread ≠ kind) (content : Content kind) :
    (heap.alloc content).2.Roomy := by
  intro ref fiber found
  rw [get?_alloc_of_ne differ] at found
  exact roomy ref fiber found

theorem modify (roomy : heap.Roomy) (differ : Kind.thread ≠ kind) (ref : Ref kind)
    (change : Content kind → Content kind) : (heap.modify ref change).Roomy := by
  intro ref fiber found
  rw [get?_modify_of_ne differ] at found
  exact roomy ref fiber found

theorem set (roomy : heap.Roomy) (ref : Ref .thread) {content : Option Fiber}
    (room : ∀ fiber, content = some fiber → fiber.Roomy) : (heap.set ref content).Roomy := by
  intro other fiber found
  rw [Heap.set, get?_modify] at found
  split at found
  · obtain ⟨_, _, same⟩ := Option.map_eq_some_iff.mp found
    exact room fiber same
  · exact roomy other fiber found

theorem of_get (roomy : heap.Roomy) {ref : Ref .thread} {fiber : Fiber}
    (found : heap.get ref = some fiber) : fiber.Roomy := by
  cases here : heap.get? ref with
  | none =>
      rw [Heap.get, here] at found
      exact absurd found (by simp [Content.absent])
  | some content =>
      rw [Heap.get, here] at found
      exact roomy ref fiber (here.trans (congrArg some found))

theorem inert (roomy : heap.Roomy) (inert : heap.Inert after) : after.Roomy := by
  have differ : ∀ {kind : Kind}, kind.isInert = true → Kind.thread ≠ kind := by
    rintro kind inert rfl
    exact absurd inert (by decide)
  induction inert with
  | refl => exact roomy
  | alloc content inert _ ih => exact ih.alloc (differ inert) content
  | modify ref change inert _ ih => exact ih.modify (differ inert) ref change

end Heap.Roomy

namespace Heap.Lent

variable {held : List Nat} {before heap after : Heap} {kind : Kind}

theorem refl (held : List Nat) (heap : Heap) : heap.Lent held heap := fun _ _ => id

theorem trans (first : before.Lent held heap) (second : heap.Lent held after) :
    before.Lent held after := fun ref held => second ref held ∘ first ref held

theorem alloc (held : List Nat) (heap : Heap) (content : Content kind) :
    heap.Lent held (heap.alloc content).2 := by
  intro ref _ found
  rw [get?_eq_some, object?_alloc, if_neg (Nat.ne_of_lt (lt_size_of_get?_eq_some found))]
  exact get?_eq_some.mp found

theorem modify (differ : Kind.thread ≠ kind) (held : List Nat) (heap : Heap) (ref : Ref kind)
    (change : Content kind → Content kind) : heap.Lent held (heap.modify ref change) :=
  fun other _ found => (get?_modify_of_ne differ ref change other).trans found

theorem inert (held : List Nat) (inert : heap.Inert after) : heap.Lent held after := by
  induction inert with
  | refl => exact refl held heap
  | alloc content _ _ ih => exact ih.trans (alloc held _ content)
  | modify ref change inert _ ih =>
      refine ih.trans (modify ?_ held _ ref change)
      rintro rfl
      exact absurd inert (by decide)

end Heap.Lent

/-! ## Faults on their way -/

/-- An overflow has been raised while so many error handlers are being run, and has not been
replaced. -/
structure Overflowed (reporting : Nat) (incidents : List Incident) : Prop where
  /-- An overflow has been raised. -/
  raised : ∃ incident ∈ incidents, incident.reporting = reporting ∧
    incident.occurrence = .raised ∧ incident.fault = .nativeStackOverflow
  /-- No overflow has been replaced. -/
  kept : ∀ incident ∈ incidents, incident.reporting = reporting →
    incident.occurrence ≠ .replaced .nativeStackOverflow

/-- Some incidents are added. -/
structure Machine.Adds (before after : Machine) (added : List Incident) : Prop where
  /-- At least as many error handlers are being run. -/
  reporting : before.reporting ≤ after.reporting
  /-- The incidents are added. -/
  incidents : after.incidents = added ++ before.incidents
  /-- They happen while at least as many error handlers are being run. -/
  later : ∀ incident ∈ added, before.reporting ≤ incident.reporting
  /-- No trap has caught an overflow. -/
  uncaught : ∀ incident ∈ added, ∀ trap, incident.occurrence = .caught trap →
    incident.fault ≠ .nativeStackOverflow

/-- The same fibers are there, and the host holds the same. -/
structure Machine.Stands (before after : Machine) : Prop where
  /-- No fiber has more registers than it is allowed. -/
  roomy : after.Roomy
  /-- The same fibers wait. -/
  waiting : after.waiting = before.waiting
  /-- As many error handlers are being run. -/
  reporting : after.reporting = before.reporting
  /-- The largest number of registers is the same. -/
  maxSlots : after.fiber.stack.maxSlots = before.fiber.stack.maxSlots
  /-- The limits are the same. -/
  limits : after.limits = before.limits
  /-- The same objects are held. -/
  held : after.held = before.held
  /-- Held threads that are being run are still there. -/
  lent : before.heap.Lent before.held after.heap
  /-- The running fiber has not run fewer host functions. -/
  counted : before.fiber.counters.nativeCalls ≤ after.fiber.counters.nativeCalls

/-- The machine has come to a result, or to a fault.  Where host functions leave faults alone, that
is the overflow if there was one. -/
def Machine.Carries (honest : Prop) (before : Machine) (fault : Option Fault) (after : Machine) :
    Prop :=
  before.Stands after ∧ ∃ added, before.Adds after added ∧
    (honest → Overflowed before.reporting added → fault = some .nativeStackOverflow)

/-- The machine has run out of steps.  Where host functions leave faults alone, an overflow is being
shown to an error handler if there was one. -/
def Machine.Cuts (honest : Prop) (before after : Machine) : Prop :=
  ∃ added, before.Adds after added ∧
    (honest → Overflowed before.reporting added → before.reporting < after.reporting)

/-- Nothing that matters for faults has changed. -/
structure Machine.Quiet (before after : Machine) : Prop extends before.Stands after where
  /-- No incident has been added. -/
  incidents : after.incidents = before.incidents

namespace Overflowed

variable {reporting : Nat} {first second : List Incident}

theorem of_append (overflowed : Overflowed reporting (second ++ first)) :
    Overflowed reporting second ∨ Overflowed reporting first := by
  obtain ⟨incident, member, rest⟩ := overflowed.raised
  have kept := fun incident member => overflowed.kept incident (List.mem_append.mpr member)
  rcases List.mem_append.mp member with member | member
  · exact .inl ⟨⟨incident, member, rest⟩, fun other among => kept other (.inl among)⟩
  · exact .inr ⟨⟨incident, member, rest⟩, fun other among => kept other (.inr among)⟩

theorem not_nil : ¬ Overflowed reporting [] := by
  rintro ⟨⟨incident, member, _⟩, _⟩
  exact absurd member (by simp)

end Overflowed

namespace Machine

variable {honest : Prop} {before machine after : Machine} {fault : Option Fault}
  {first second : List Incident}

theorem Adds.trans (begun : before.Adds machine first) (ended : machine.Adds after second) :
    before.Adds after (second ++ first) where
  reporting := Nat.le_trans begun.reporting ended.reporting
  incidents := by rw [ended.incidents, begun.incidents, List.append_assoc]
  later incident member := by
    rcases List.mem_append.mp member with member | member
    · exact Nat.le_trans begun.reporting (ended.later incident member)
    · exact begun.later incident member
  uncaught incident member := by
    rcases List.mem_append.mp member with member | member
    · exact ended.uncaught incident member
    · exact begun.uncaught incident member

theorem Stands.trans (begun : before.Stands machine) (ended : machine.Stands after) :
    before.Stands after where
  roomy := ended.roomy
  waiting := ended.waiting.trans begun.waiting
  reporting := ended.reporting.trans begun.reporting
  maxSlots := ended.maxSlots.trans begun.maxSlots
  limits := ended.limits.trans begun.limits
  held := ended.held.trans begun.held
  lent := begun.lent.trans (begun.held ▸ ended.lent)
  counted := Nat.le_trans begun.counted ended.counted

theorem Quiet.trans (begun : before.Quiet machine) (ended : machine.Quiet after) :
    before.Quiet after :=
  ⟨begun.toStands.trans ended.toStands, ended.incidents.trans begun.incidents⟩

theorem Quiet.carries (quiet : before.Quiet after) (fault : Option Fault) :
    before.Carries honest fault after := by
  refine ⟨quiet.toStands, [], ⟨Nat.le_of_eq quiet.reporting.symm, quiet.incidents, ?_, ?_⟩, ?_⟩
  · simp
  · simp
  · exact fun _ overflowed => absurd overflowed Overflowed.not_nil

/-- Fibers and objects are the same. -/
theorem Roomy.stands (roomy : machine.Roomy) (fiber : after.fiber = machine.fiber)
    (waiting : after.waiting = machine.waiting) (heap : after.heap = machine.heap)
    (reporting : after.reporting = machine.reporting) (limits : after.limits = machine.limits)
    (held : after.held = machine.held) : machine.Stands after where
  roomy := ⟨fiber ▸ roomy.fiber, waiting ▸ roomy.waiting, heap ▸ roomy.heap⟩
  waiting := waiting
  reporting := reporting
  maxSlots := fiber ▸ rfl
  limits := limits
  held := held
  lent := heap ▸ .refl _ _
  counted := fiber ▸ Nat.le_refl _

theorem Roomy.quiet (roomy : machine.Roomy) : machine.Quiet machine :=
  ⟨roomy.stands rfl rfl rfl rfl rfl rfl, rfl⟩

/-- What follows a result or a fault is as faithful as what led there. -/
theorem Carries.join {final last : Option Fault} (begun : before.Carries honest fault machine)
    (ended : machine.Carries honest last after)
    (first : fault = some .nativeStackOverflow → final = some .nativeStackOverflow)
    (second : last = some .nativeStackOverflow → final = some .nativeStackOverflow) :
    before.Carries honest final after := by
  obtain ⟨stands, added, adds, passes⟩ := begun
  obtain ⟨remains, new, further, repeats⟩ := ended
  refine ⟨stands.trans remains, new ++ added, adds.trans further, fun holds overflowed => ?_⟩
  rcases overflowed.of_append with overflowed | overflowed
  · exact second (repeats holds (stands.reporting ▸ overflowed))
  · exact first (passes holds overflowed)

theorem Carries.trans (begun : before.Carries honest none machine)
    (ended : machine.Carries honest fault after) : before.Carries honest fault after :=
  begun.join ended (fun none => absurd none (by simp)) id

/-- What a fault has left behind may be put right. -/
theorem Carries.settle (carries : before.Carries honest fault machine)
    (settles : machine.Carries honest none after) : before.Carries honest fault after :=
  carries.join settles id fun none => absurd none (by simp)

theorem Carries.quiet (carries : before.Carries honest fault machine)
    (quiet : machine.Quiet after) : before.Carries honest fault after :=
  carries.settle (quiet.carries none)

theorem Carries.cuts (begun : before.Carries honest none machine)
    (cuts : machine.Cuts honest after) : before.Cuts honest after := by
  obtain ⟨stands, added, adds, calm⟩ := begun
  obtain ⟨new, further, told⟩ := cuts
  refine ⟨new ++ added, adds.trans further, fun holds overflowed => ?_⟩
  rcases overflowed.of_append with overflowed | overflowed
  · exact stands.reporting ▸ told holds (stands.reporting ▸ overflowed)
  · exact absurd (calm holds overflowed) (by simp)

theorem Carries.roomy (carries : before.Carries honest fault after) : after.Roomy := carries.1.roomy

theorem Carries.maxSlots (carries : before.Carries honest fault after) :
    after.fiber.stack.maxSlots = before.fiber.stack.maxSlots := carries.1.maxSlots

/-- A fault that is not the overflow has come without one. -/
theorem Carries.caught {cause : Fault} (carries : before.Carries honest (some cause) after)
    (mild : cause ≠ .nativeStackOverflow) : before.Carries honest none after := by
  obtain ⟨stands, added, adds, passes⟩ := carries
  exact ⟨stands, added, adds, fun holds overflowed =>
    absurd (Option.some.inj (passes holds overflowed)) mild⟩

/-- Where faults may be caught, nothing is said of overflows. -/
theorem Carries.of_not (carries : before.Carries honest fault after) (dishonest : ¬ honest)
    (other : Option Fault) : before.Carries honest other after := by
  obtain ⟨stands, added, adds, _⟩ := carries
  exact ⟨stands, added, adds, fun holds => absurd holds dishonest⟩

theorem Roomy.stands_note (roomy : machine.Roomy) (occurrence : Occurrence) (fault : Fault) :
    machine.Stands (machine.note occurrence fault) := roomy.stands rfl rfl rfl rfl rfl rfl

theorem adds_note (machine : Machine) {occurrence : Occurrence} {fault : Fault}
    (mild : ∀ trap, occurrence = .caught trap → fault ≠ .nativeStackOverflow) :
    machine.Adds (machine.note occurrence fault) [machine.incident occurrence fault] where
  reporting := Nat.le_refl _
  incidents := rfl
  later := by
    intro incident member
    obtain rfl := List.mem_singleton.mp member
    exact Nat.le_refl _
  uncaught := by
    intro incident member
    obtain rfl := List.mem_singleton.mp member
    exact mild

theorem Roomy.note (roomy : machine.Roomy) {occurrence : Occurrence}
    (mild : ∀ trap, occurrence ≠ .caught trap) (fault : Fault) :
    machine.Carries honest (some fault) (machine.note occurrence fault) := by
  refine ⟨roomy.stands_note occurrence fault, _,
    machine.adds_note fun trap caught => absurd caught (mild trap), fun _ overflowed => ?_⟩
  obtain ⟨incident, member, _, _, same⟩ := overflowed.raised
  obtain rfl := List.mem_singleton.mp member
  exact congrArg some same

theorem Roomy.record (roomy : machine.Roomy) (fault : Fault) :
    machine.Carries honest (some fault) (machine.record fault) := roomy.note (by simp) fault

theorem Roomy.setHeap (roomy : machine.Roomy) {heap : Heap} (room : heap.Roomy)
    (lent : machine.heap.Lent machine.held heap) : machine.Quiet { machine with heap } :=
  ⟨⟨⟨roomy.fiber, roomy.waiting, room⟩, rfl, rfl, rfl, rfl, rfl, lent, Nat.le_refl _⟩, rfl⟩

theorem Roomy.mapStack (roomy : machine.Roomy) {change : Stack → Stack}
    (maxSlots : (change machine.fiber.stack).maxSlots = machine.fiber.stack.maxSlots)
    (room : (change machine.fiber.stack).size ≤ machine.fiber.stack.maxSlots) :
    machine.Quiet (machine.mapStack change) :=
  ⟨⟨⟨Nat.le_trans room (Nat.le_of_eq maxSlots.symm), roomy.waiting, roomy.heap⟩, rfl, rfl,
    maxSlots, rfl, rfl, .refl _ _, Nat.le_refl _⟩, rfl⟩

theorem Roomy.mapFiber (roomy : machine.Roomy) {change : Fiber → Fiber}
    (stack : (change machine.fiber).stack = machine.fiber.stack)
    (counted : machine.fiber.counters.nativeCalls ≤ (change machine.fiber).counters.nativeCalls) :
    machine.Quiet (machine.mapFiber change) := by
  refine ⟨⟨⟨?_, roomy.waiting, roomy.heap⟩, rfl, rfl, congrArg Stack.maxSlots stack, rfl, rfl,
    .refl _ _, counted⟩, rfl⟩
  rw [Fiber.Roomy, Machine.mapFiber, stack]
  exact roomy.fiber

end Machine

/-- The computation comes to a result and does nothing that matters for faults. -/
def Exec.Calm (action : Exec α) : Prop :=
  ∀ machine : Machine, machine.Roomy →
    ∃ value next, action machine = .ok value next ∧ machine.Quiet next

/-- An overflow raised while the computation runs is what it fails with. -/
def Exec.FaithfulAt (honest : Prop) (action : Exec α) (machine : Machine) : Prop :=
  action.Meets machine (fun _ => machine.Carries honest none)
    (fun fault => machine.Carries honest (some fault)) (machine.Cuts honest)

/-- An overflow raised while the computation runs is what it fails with. -/
def Exec.Faithful (honest : Prop) (action : Exec α) : Prop :=
  ∀ machine : Machine, machine.Roomy → action.FaithfulAt honest machine

/-! ## Calm computations -/

namespace Exec.Calm

variable {honest : Prop} {action : Exec α}

theorem faithful (calm : Calm action) : Faithful honest action := by
  intro machine roomy
  obtain ⟨value, next, result, quiet⟩ := calm machine roomy
  rw [FaithfulAt, Meets, result]
  exact quiet.carries none

theorem of_quiet {look : Machine → α} {change : Machine → Machine}
    (quiet : ∀ machine : Machine, machine.Roomy → machine.Quiet (change machine)) :
    Calm fun machine => .ok (look machine) (change machine) :=
  fun machine roomy => ⟨look machine, change machine, rfl, quiet machine roomy⟩

theorem view (look : Machine → α) : Calm fun machine => .ok (look machine) machine :=
  of_quiet fun _ roomy => roomy.quiet

theorem pure (value : α) : Calm (Pure.pure value : Exec α) := view fun _ => value

theorem bind {following : α → Exec β} (first : Calm action)
    (further : ∀ value, Calm (following value)) : Calm (action >>= following) := by
  intro machine roomy
  obtain ⟨value, between, result, quiet⟩ := first machine roomy
  obtain ⟨last, next, rest, after⟩ := further value between quiet.roomy
  exact ⟨last, next, (Exec.ok_bind result).trans rest, quiet.trans after⟩

theorem setHeap {look : Machine → α} {heap : Machine → Heap}
    (roomy : ∀ machine : Machine, machine.heap.Roomy → (heap machine).Roomy)
    (lent : ∀ machine : Machine, machine.heap.Lent machine.held (heap machine)) :
    Calm fun machine => .ok (look machine) { machine with heap := heap machine } :=
  of_quiet fun machine before => before.setHeap (roomy machine before.heap) (lent machine)

theorem update {kind : Kind} (differ : Kind.thread ≠ kind) (ref : Ref kind)
    (change : Content kind → Content kind) : Calm (Exec.update ref change) :=
  setHeap (fun _ roomy => roomy.modify differ ref change) fun _ => .modify differ _ _ ref change

theorem onFiber {change : Fiber → Fiber} (stack : ∀ fiber, (change fiber).stack = fiber.stack)
    (counted : ∀ fiber, (change fiber).counters = fiber.counters) :
    Calm (Exec.onFiber change) :=
  of_quiet fun machine roomy => roomy.mapFiber (stack machine.fiber)
    (Nat.le_of_eq (congrArg Counters.nativeCalls (counted machine.fiber).symm))

theorem onStack {change : Stack → Stack}
    (maxSlots : ∀ stack, (change stack).maxSlots = stack.maxSlots)
    (size : ∀ stack, (change stack).size ≤ stack.size) : Calm (Exec.onStack change) :=
  of_quiet fun _ roomy => roomy.mapStack (maxSlots _) (Nat.le_trans (size _) roomy.fiber)

theorem count {change : Counters → Counters}
    (counted : ∀ counters, (change counters).nativeCalls = counters.nativeCalls) :
    Calm (Exec.count change) :=
  of_quiet fun _ roomy => ⟨⟨⟨roomy.fiber, roomy.waiting, roomy.heap⟩, rfl, rfl, rfl, rfl, rfl,
    .refl _ _, Nat.le_of_eq (counted _).symm⟩, rfl⟩

theorem truncate (size : Nat) : Calm (Exec.truncate size) :=
  onStack (fun _ => rfl) fun stack => by rw [Stack.size_truncate]; omega

theorem leave : Calm (Exec.onStack (·.leave)) := onStack (fun _ => rfl) fun _ => Nat.le_refl _

end Exec.Calm

/-! ## Faithful computations -/

theorem Exec.FaithfulAt.after {honest : Prop} {before machine : Machine} {action : Exec α}
    (faithful : action.FaithfulAt honest machine) (carries : before.Carries honest none machine) :
    action.Meets machine (fun _ => before.Carries honest none)
      (fun fault => before.Carries honest (some fault)) (before.Cuts honest) :=
  faithful.mono (fun _ _ => carries.trans) (fun _ _ => carries.trans) fun _ => carries.cuts

namespace Exec.Faithful

variable {honest : Prop} {action : Exec α}

theorem bind {following : α → Exec β} (first : Faithful honest action)
    (further : ∀ value, Faithful honest (following value)) :
    Faithful honest (action >>= following) := by
  intro machine roomy
  refine (first machine roomy).bind fun value next carries => ?_
  exact (further value next carries.roomy).after carries

theorem view (look : Machine → α) : Faithful honest fun machine => .ok (look machine) machine :=
  (Calm.view look).faithful

theorem pure (value : α) : Faithful honest (Pure.pure value : Exec α) := view fun _ => value

theorem map (faithful : Faithful honest action) (image : α → β) :
    Faithful honest (image <$> action) := by
  have same : image <$> action = action >>= fun value => Pure.pure (image value) :=
    map_eq_pure_bind ..
  rw [same]
  exact faithful.bind fun value => pure (image value)

theorem discard (faithful : Faithful honest action) : Faithful honest (Functor.discard action) :=
  faithful.map _

theorem exhaust : Faithful honest (Exec.exhaust : Exec α) := by
  refine fun machine roomy => ⟨[], ⟨Nat.le_refl _, rfl, ?_, ?_⟩, ?_⟩
  · simp
  · simp
  · exact fun _ overflowed => absurd overflowed Overflowed.not_nil

theorem passOn (fault : Fault) : Faithful honest (Exec.passOn fault : Exec α) :=
  fun _ roomy => roomy.quiet.carries _

theorem raise (fault : Fault) : Faithful honest (Exec.raise fault : Exec α) :=
  fun _ roomy => roomy.record fault

theorem ofExcept (result : Except Fault α) : Faithful honest (Exec.ofExcept result) := by
  cases result with
  | ok value => exact pure value
  | error fault => exact raise fault

theorem ensuring {restore : Machine → Machine} (faithful : Faithful honest action)
    (quiet : ∀ machine : Machine, machine.Roomy → machine.Quiet (restore machine)) :
    Faithful honest (Exec.ensuring restore action) := by
  intro machine roomy
  refine (faithful machine roomy).ensuring ?_ ?_
  · exact fun _ next carries => carries.quiet (quiet next carries.roomy)
  · exact fun _ next carries => carries.quiet (quiet next carries.roomy)

theorem keeping (indices : List Nat) (faithful : Faithful honest action) :
    Faithful honest (Exec.keeping indices action) := by
  intro machine roomy
  let inside : Machine := { machine with held := indices ++ machine.held }
  have room : inside.Roomy := ⟨roomy.fiber, roomy.waiting, roomy.heap⟩
  -- What was held before is held while the computation runs.
  have back : ∀ fault last, inside.Carries honest fault last →
      machine.Carries honest fault { last with held := machine.held } := by
    rintro fault last ⟨stands, added, adds, passes⟩
    have kept := stands.roomy
    exact ⟨⟨⟨kept.fiber, kept.waiting, kept.heap⟩, stands.waiting, stands.reporting,
      stands.maxSlots, stands.limits, rfl,
      fun ref held => stands.lent ref (List.mem_append_right _ held), stands.counted⟩, added,
      ⟨adds.reporting, adds.incidents, adds.later, adds.uncaught⟩, passes⟩
  have ran := (faithful inside room).mono (fun _ _ => id) (fun _ _ => id) fun last cuts => by
    obtain ⟨added, adds, told⟩ := cuts
    exact (⟨added, ⟨adds.reporting, adds.incidents, adds.later, adds.uncaught⟩, told⟩ :
      machine.Cuts honest last)
  exact Meets.get_bind (Meets.modify_bind (ran.ensuring (fun _ => back none) fun fault =>
    back (some fault)))

theorem forM {list : List β} {body : β → Exec Unit}
    (faithful : ∀ item, Faithful honest (body item)) : Faithful honest (list.forM body) := by
  induction list with
  | nil => exact pure ()
  | cons first rest ih => exact (faithful first).bind fun _ => ih

/-! ## Objects and registers -/

theorem alloc {kind : Kind} (differ : Kind.thread ≠ kind) (content : Content kind) :
    Faithful honest (Exec.alloc content) :=
  (Calm.setHeap (fun _ roomy => roomy.alloc differ content) fun machine =>
    .alloc _ machine.heap content).faithful

theorem update {kind : Kind} (differ : Kind.thread ≠ kind) (ref : Ref kind)
    (change : Content kind → Content kind) : Faithful honest (Exec.update ref change) :=
  (Calm.update differ ref change).faithful

theorem onFiber {change : Fiber → Fiber} (stack : ∀ fiber, (change fiber).stack = fiber.stack)
    (counted : ∀ fiber, (change fiber).counters = fiber.counters) :
    Faithful honest (Exec.onFiber change) := (Calm.onFiber stack counted).faithful

theorem count {change : Counters → Counters}
    (counted : ∀ counters, (change counters).nativeCalls = counters.nativeCalls) :
    Faithful honest (Exec.count change) := (Calm.count counted).faithful

/-- Registers are added where there is room for them. -/
theorem extending {room : Stack → Bool} {change : Stack → Stack}
    (maxSlots : ∀ stack, (change stack).maxSlots = stack.maxSlots)
    (size : ∀ stack, room stack = true → stack.size ≤ stack.maxSlots →
      (change stack).size ≤ stack.maxSlots) :
    Faithful honest (Exec.requireRoom room >>= fun _ => Exec.onStack change) := by
  intro machine roomy
  cases fits : room machine.fiber.stack with
  | false =>
      have result : (Exec.requireRoom room >>= fun _ => Exec.onStack change) machine =
          .error (.raised .stackOverflow) (machine.record .stackOverflow) := by
        simp [Exec.requireRoom, Exec.ofFiber, Bind.bind, EStateM.bind, fits, Exec.raise]
      rw [FaithfulAt, Meets, result]
      exact roomy.record _
  | true =>
      have result : (Exec.requireRoom room >>= fun _ => Exec.onStack change) machine =
          .ok () (machine.mapStack change) := by
        simp [Exec.requireRoom, Exec.ofFiber, Bind.bind, EStateM.bind, fits, Pure.pure,
          EStateM.pure, Exec.onStack]
      rw [FaithfulAt, Meets, result]
      exact (roomy.mapStack (maxSlots _) (size _ fits roomy.fiber)).carries none

theorem push (value : Value) : Faithful honest (Exec.push value) :=
  extending (fun _ => rfl) fun stack room _ => stack.size_append_le value room

theorem ensure (size : Nat) : Faithful honest (Exec.ensure size) :=
  extending (fun stack => stack.maxSlots_grow size) fun stack => stack.size_grow_le

theorem setPlace (place : Nat) (value : Value) : Faithful honest (Exec.setPlace place value) :=
  extending (fun stack => stack.maxSlots_put place value) fun stack => stack.size_put_le value

theorem pushFrame (frame : Frame) : Faithful honest (Exec.pushFrame frame) :=
  extending (fun stack => stack.maxSlots_enter frame) fun stack => stack.size_enter_le

theorem truncate (size : Nat) : Faithful honest (Exec.truncate size) :=
  (Calm.truncate size).faithful

theorem resize (size : Nat) : Faithful honest (Exec.resize size) :=
  (truncate size).bind fun _ => ensure size

theorem clearRange (start stop : Nat) : Faithful honest (Exec.clearRange start stop) :=
  Calm.faithful (Calm.onStack (fun _ => rfl) fun stack =>
    Nat.le_of_eq (stack.size_clearRange start stop))

theorem takeRange (start stop : Nat) : Faithful honest (Exec.takeRange start stop) :=
  (view _).bind fun _ => (clearRange start stop).bind fun _ => pure _

theorem frame : Faithful honest Exec.frame := by
  refine (view _).bind fun current => ?_
  cases current with
  | none => exact raise _
  | some current => exact pure current

theorem popFrame : Faithful honest Exec.popFrame :=
  frame.bind fun _ => Calm.leave.faithful.bind fun _ => pure _

theorem goTo (ip : Nat) : Faithful honest (Exec.goTo ip) :=
  Calm.faithful (Calm.onStack (fun _ => rfl) fun _ => Nat.le_refl _)

theorem register (number : UInt8) : Faithful honest (Exec.register number) := view _

theorem setRegister (number : UInt8) (value : Value) :
    Faithful honest (Exec.setRegister number value) :=
  (view _).bind fun _ => setPlace _ value

theorem deliver (target : Option UInt8) (value : Value) :
    Faithful honest (Exec.deliver target value) := by
  cases target with
  | none => exact pure ()
  | some number => exact setRegister number value

theorem deliverDirect (target : Option UInt8) (value : Value) :
    Faithful honest (Access.direct.deliver target value) := by
  cases target with
  | none => exact pure ()
  | some number => exact setRegister number value

theorem literal (index : Int32) : Faithful honest (Exec.literal index) := by
  refine frame.bind fun current => ?_
  dsimp only
  split
  · exact pure _
  · exact raise _

end Exec.Faithful

/-! ## Operations and calls -/

/-- Calls and host functions of the engine are faithful. -/
structure Engine.Faithful (honest : Prop) (engine : Engine) : Prop where
  /-- Calls that wait for their result. -/
  calls : ∀ callee base count, Exec.Faithful honest (engine.callAt callee base count)
  /-- Run loops. -/
  runs : ∀ root, Exec.Faithful honest (engine.runFrames root)
  /-- Host functions. -/
  natives : ∀ symbol, Exec.Faithful honest (engine.native symbol)

namespace Exec.Faithful

variable {honest : Prop} {engine : Engine} (faithful : engine.Faithful honest)

theorem pushArguments (this : Value) (arguments : List Value) :
    Faithful honest (Engine.pushArguments this arguments) :=
  (push this).bind fun _ => forM push

include faithful

theorem callSync (callee this : Value) (arguments : List Value) :
    Faithful honest (engine.callSync callee this arguments) := by
  refine keeping _ ((view _).bind fun base => ensuring ?_ fun machine roomy => ?_)
  · exact (pushArguments this arguments).bind fun _ => faithful.calls callee base _
  · refine roomy.mapStack rfl ?_
    have fits : machine.fiber.stack.size ≤ machine.fiber.stack.maxSlots := roomy.fiber
    rw [Stack.size_truncate]
    omega

theorem operates {action : Exec α} (operates : engine.Operates action) :
    Faithful honest action := by
  induction operates with
  | change result plain inert =>
      intro machine roomy
      rw [FaithfulAt, Meets, Exec.exchange]
      cases made : result machine with
      | error fault => exact roomy.record fault
      | ok made' =>
          obtain ⟨value, heap⟩ := made'
          have inert := inert machine value heap made
          exact (roomy.setHeap (roomy.heap.inert inert) (.inert _ inert)).carries none
  | bind _ _ first further => exact first.bind further
  | keeping indices _ ih => exact ih.keeping indices
  | callSync callee this arguments => exact callSync faithful callee this arguments

theorem operation {action : Exec α} (parallel : engine.Parallel engine action action) :
    Faithful honest action := operates faithful parallel.operates

end Exec.Faithful

end ScriptMachine
