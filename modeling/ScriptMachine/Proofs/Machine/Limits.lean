import Mathlib.Algebra.Order.BigOperators.Group.List
import ScriptMachine.Proofs.Machine.Generators

/-!
# Limits

Every fiber keeps to the limits of its machine, whatever is run in it.  Its stack records every
number of registers that there has been, so that the peak is the largest one that the fiber ever
had.  Run loops and host functions are counted when they begin and when they end, and none begins
where the count has come to its limit.
-/

namespace ScriptMachine

open Exec

variable {α : Type}

/-! ## Registers and frames -/

/-- The fiber keeps to the limits for registers and frames. -/
def Fiber.Accounted (limits : Limits) (fiber : Fiber) : Prop :=
  fiber.stack.Accounted limits.stackSize limits.callDepth

theorem Fiber.Accounted.emptied {limits : Limits} {content : Option Fiber} {fiber : Fiber}
    (accounted : ∀ former, content = some former → former.Accounted limits)
    (same : some fiber = @Content.emptied .thread content) : fiber.Accounted limits := by
  obtain ⟨former, rfl, rfl⟩ := Option.map_eq_some_iff.mp same.symm
  exact (accounted former rfl).apply .drain

namespace Machine

variable {checked : Prop} {part : Part} {before start after machine : Machine} {ending : Ending}

/-- Every fiber keeps to the limits for registers and frames. -/
structure Accounted (machine : Machine) : Prop where
  /-- The running fiber. -/
  fiber : machine.fiber.Accounted machine.limits
  /-- Those that wait for it. -/
  waiting : ∀ fiber ∈ machine.waiting, fiber.Accounted machine.limits
  /-- Those of threads. -/
  threads : ∀ (ref : Ref .thread) (fiber : Fiber), machine.heap.get? ref = some (some fiber) →
    fiber.Accounted machine.limits

theorem accounted_create (limits : Limits) : (Machine.create limits).Accounted := by
  refine ⟨.fresh _ _, by simp [create], fun ref fiber found => ?_⟩
  rw [create, Heap.get?_alloc_of_ne (by decide)] at found
  exact absurd (Heap.lt_size_of_get?_eq_some found) (by simp [Heap.size])

theorem Accounted.at (accounted : machine.Accounted) {post : Post} {fiber : Fiber}
    (found : machine.fiberAt? post = some fiber) : fiber.Accounted machine.limits := by
  cases post with
  | line index =>
      rcases List.mem_cons.mp (List.mem_of_getElem? found) with rfl | member
      · exact accounted.fiber
      · exact accounted.waiting fiber member
  | thread ref => exact accounted.threads ref fiber (Option.join_eq_some_iff.mp found)

theorem Touch.accounted (touch : before.Touch after) (accounted : before.Accounted) :
    after.Accounted := by
  obtain ⟨running, waiting, threads⟩ := accounted
  cases touch with
  | stack operation => exact ⟨running.apply operation, waiting, threads⟩
  | fiber | note | aside => exact ⟨running, waiting, threads⟩
  | heap heap _ same =>
      exact ⟨running, waiting, fun ref fiber found =>
        threads ref fiber ((same ref).symm.trans found)⟩
  | hatched =>
      refine ⟨running, waiting, fun ref fiber found => ?_⟩
      have found := (Heap.get?_alloc _ ref).symm.trans found
      split at found
      · cases found
        exact .fresh _ _
      · exact threads ref fiber found
  | culled heap collector _ left =>
      refine ⟨running, waiting, fun ref fiber found => ?_⟩
      obtain ⟨former, here, same | same⟩ := left ref _ found
      · exact threads ref fiber (here.trans (congrArg some same.symm))
      · exact .emptied (fun own there => threads ref own (here.trans (congrArg some there))) same

theorem Touches.accounted (touches : before.Touches after) (accounted : before.Accounted) :
    after.Accounted := by
  induction touches with
  | refl => exact accounted
  | tail _ touch ih => exact touch.accounted ih

/-- Whatever happens, all fibers keep to the limits. -/
theorem attends_accounted :
    Attends checked fun before after => before.Accounted → after.Accounted where
  refl _ := id
  trans first second accounted := second (first accounted)
  goes goes := goes.touches.accounted
  turns stack waiting heap limits accounted := by
    refine ⟨?_, ?_, ?_⟩
    · rw [limits, Fiber.Accounted, stack]
      exact accounted.fiber
    · rw [limits, waiting]
      exact accounted.waiting
    · rw [limits, heap]
      exact accounted.threads
  enters {before ref fiber} found accounted := by
    refine ⟨accounted.threads ref fiber found, fun own member => ?_, fun other own here => ?_⟩
    · rcases List.mem_cons.mp member with rfl | member
      · exact accounted.fiber
      · exact accounted.waiting own member
    · have here := (Heap.get?_set found none other).symm.trans here
      split at here
      · cases here
      · exact accounted.threads other own here
  leaves {before fiber waiting} ref waits accounted := by
    have front : ∀ own ∈ fiber :: waiting, own.Accounted before.limits :=
      waits ▸ accounted.waiting
    rw [leaveThread_eq waits]
    refine ⟨front fiber List.mem_cons_self, fun own member =>
      front own (List.mem_cons_of_mem _ member), fun other own here => ?_⟩
    have here := (Heap.get?_modify ref other _).symm.trans here
    split at here
    · obtain ⟨_, _, content⟩ := Option.map_eq_some_iff.mp here
      cases content
      exact accounted.fiber
    · exact accounted.threads other own here

end Machine

/-! ## Records that go on -/

/-- The numbers of registers of a fiber are still on record later on. -/
def Fiber.GoesOn (former fiber : Fiber) : Prop := former.stack.sizes <:+ fiber.stack.sizes

namespace Machine

variable {checked : Prop} {part : Part} {before start between after : Machine} {ending : Ending}
  {entered : List Fiber}

/-- What is on record for a fiber is so in another machine as well, where some fibers of threads
have been entered since and not been left. -/
structure Prolongs (before after : Machine) (entered : List Fiber) : Prop where
  /-- No number is lost. -/
  size : before.heap.size ≤ after.heap.size
  /-- The running fiber runs or waits, and the others wait as before. -/
  line : ∃ fiber, after.fiber :: after.waiting = entered ++ fiber :: before.waiting ∧
    before.fiber.GoesOn fiber
  /-- A thread that is left is among those entered, or is not being run as before. -/
  threads : ∀ (ref : Ref .thread) (content : Option Fiber), ref.index < before.heap.size →
    after.heap.get? ref = some content → ∃ former : Option Fiber,
      before.heap.get? ref = some former ∧ (former = none → content = none) ∧
      ∀ own, former = some own → (∃ fiber, content = some fiber ∧ own.GoesOn fiber) ∨
        content = none ∧ ∃ fiber ∈ entered, own.GoesOn fiber

theorem Prolongs.fiber (prolongs : before.Prolongs after []) :
    before.fiber.GoesOn after.fiber ∧ after.waiting = before.waiting := by
  obtain ⟨fiber, same, goesOn⟩ := prolongs.line
  obtain ⟨rfl, waiting⟩ := List.cons.inj same
  exact ⟨goesOn, waiting⟩

theorem Prolongs.thread (prolongs : before.Prolongs after []) {ref : Ref .thread}
    {content : Option Fiber} (within : ref.index < before.heap.size)
    (found : after.heap.get? ref = some content) : ∃ former : Option Fiber,
      before.heap.get? ref = some former ∧ (former = none → content = none) ∧
      ∀ own, former = some own → ∃ fiber, content = some fiber ∧ own.GoesOn fiber := by
  obtain ⟨former, here, idle, runs⟩ := prolongs.threads ref content within found
  exact ⟨former, here, idle, fun own same => (runs own same).resolve_right fun entered =>
    have ⟨_, _, among, _⟩ := entered
    List.not_mem_nil among⟩

/-- Where the registers and frames are the same at both ends, nothing is different. -/
theorem Prolongs.congr (prolongs : start.Prolongs between entered) (before : Machine)
    (stack : start.fiber.stack = before.fiber.stack) (waiting : start.waiting = before.waiting)
    (heap : start.heap = before.heap) : before.Prolongs between entered := by
  refine ⟨heap ▸ prolongs.size, ?_, heap ▸ prolongs.threads⟩
  obtain ⟨fiber, line, goesOn⟩ := prolongs.line
  rw [waiting] at line
  rw [Fiber.GoesOn, stack] at goesOn
  exact ⟨fiber, line, goesOn⟩

theorem Prolongs.settled (prolongs : before.Prolongs between []) (after : Machine)
    (stack : after.fiber.stack = between.fiber.stack) (waiting : after.waiting = between.waiting)
    (heap : after.heap = between.heap) : before.Prolongs after [] := by
  obtain ⟨goesOn, waits⟩ := prolongs.fiber
  refine ⟨heap ▸ prolongs.size, ⟨after.fiber, ?_, ?_⟩, heap ▸ prolongs.threads⟩
  · rw [waiting, waits]
    rfl
  · rw [Fiber.GoesOn, stack]
    exact goesOn

theorem Prolongs.refl (machine : Machine) : machine.Prolongs machine [] := by
  refine ⟨Nat.le_refl _, ⟨_, rfl, List.suffix_rfl⟩, fun ref content _ found => ?_⟩
  exact ⟨content, found, id, fun own same => .inl ⟨own, same, List.suffix_rfl⟩⟩

theorem Prolongs.trans (first : before.Prolongs between [])
    (second : between.Prolongs after entered) : before.Prolongs after entered := by
  obtain ⟨goesOn, waiting⟩ := first.fiber
  refine ⟨first.size.trans second.size, ?_, fun ref content within found => ?_⟩
  · obtain ⟨fiber, line, further⟩ := second.line
    exact ⟨fiber, waiting ▸ line, goesOn.trans further⟩
  · obtain ⟨middle, there, idle, runs⟩ :=
      second.threads ref content (within.trans_le first.size) found
    obtain ⟨former, here, idle', runs'⟩ := first.thread within there
    refine ⟨former, here, fun none => idle (idle' none), fun own same => ?_⟩
    obtain ⟨fiber, rfl, goesOn⟩ := runs' own same
    rcases runs fiber rfl with ⟨last, rfl, further⟩ | ⟨none, last, among, further⟩
    · exact .inl ⟨last, rfl, goesOn.trans further⟩
    · exact .inr ⟨none, last, among, goesOn.trans further⟩

theorem Touch.prolongs (touch : before.Touch after) : before.Prolongs after [] := by
  have left := (Prolongs.refl before).threads
  cases touch with
  | stack operation =>
      exact ⟨Nat.le_refl _, ⟨_, rfl, (Stack.notes_apply operation _).suffix⟩, left⟩
  | fiber | note | aside => exact ⟨Nat.le_refl _, ⟨_, rfl, List.suffix_rfl⟩, left⟩
  | heap heap size same =>
      exact ⟨size, ⟨_, rfl, List.suffix_rfl⟩, fun ref content within found =>
        left ref content within ((same ref).symm.trans found)⟩
  | hatched =>
      refine ⟨(Nat.le_succ _).trans_eq (Heap.size_alloc _).symm, ⟨_, rfl, List.suffix_rfl⟩,
        fun ref content within found => ?_⟩
      have found := (Heap.get?_alloc _ ref).symm.trans found
      rw [if_neg (Nat.ne_of_lt within)] at found
      exact left ref content within found
  | culled heap collector size kept =>
      refine ⟨size.ge, ⟨_, rfl, List.suffix_rfl⟩, fun ref content within found => ?_⟩
      obtain ⟨former, here, rfl | rfl⟩ := kept ref content found
      · exact left ref content within here
      · refine ⟨former, here, fun idle => by rw [idle]; rfl, fun own same => .inl ?_⟩
        subst same
        exact ⟨_, rfl, List.suffix_cons _ _⟩

theorem Touches.prolongs (touches : before.Touches after) : before.Prolongs after [] := by
  induction touches with
  | refl => exact .refl before
  | tail _ touch ih => exact ih.trans touch.prolongs

/-- While a thread is being run, the fiber that has entered it waits. -/
theorem Prolongs.of_entered {ref : Ref .thread} {fiber : Fiber}
    (found : before.heap.get? ref = some (some fiber))
    (prolongs : (before.entered ref fiber).Prolongs after entered) :
    ∃ own, before.Prolongs after (entered ++ [own]) := by
  obtain ⟨own, line, goesOn⟩ := prolongs.line
  refine ⟨own, Nat.le_trans (Heap.size_modify ref _).ge prolongs.size,
    ⟨before.fiber, ?_, List.suffix_rfl⟩, fun other content within left => ?_⟩
  · rw [List.append_assoc]
    exact line
  · obtain ⟨former, here, idle, runs⟩ :=
      prolongs.threads other content (within.trans_eq (Heap.size_modify ref _).symm) left
    have here := (Heap.get?_set found none other).symm.trans here
    split at here
    · rename_i same
      cases here
      subst same
      refine ⟨some fiber, found, fun idle => absurd idle (by simp), fun self same => .inr ?_⟩
      cases same
      exact ⟨idle rfl, own, List.mem_append_right _ List.mem_cons_self, goesOn⟩
    · refine ⟨former, here, idle, fun self same => (runs self same).imp_right fun entered => ?_⟩
      obtain ⟨none, last, among, further⟩ := entered
      exact ⟨none, last, List.mem_append_left _ among, further⟩

/-- A thread that has been run has the record of its fiber when it is left. -/
theorem Prolongs.of_left {ref : Ref .thread} {fiber : Fiber}
    (found : before.heap.get? ref = some (some fiber))
    (prolongs : (before.entered ref fiber).Prolongs after []) :
    before.Prolongs (leaveThread ref after) [] := by
  obtain ⟨goesOn, waiting⟩ := prolongs.fiber
  rw [leaveThread_eq waiting]
  refine ⟨?_, ⟨before.fiber, rfl, List.suffix_rfl⟩, fun other content within left => ?_⟩
  · exact ((Heap.size_modify ref _).ge.trans prolongs.size).trans (Heap.size_modify ref _).ge
  · have inside : other.index < (before.entered ref fiber).heap.size :=
      within.trans_eq (Heap.size_modify ref _).symm
    have left := (Heap.get?_modify ref other _).symm.trans left
    split at left
    · rename_i same
      obtain ⟨_, _, rfl⟩ := Option.map_eq_some_iff.mp left
      obtain rfl : ref = other := congrArg Ref.mk same
      refine ⟨some fiber, found, fun idle => absurd idle (by simp), fun self same => .inl ?_⟩
      cases same
      exact ⟨_, rfl, goesOn⟩
    · rename_i differ
      obtain ⟨former, here, idle, runs⟩ := prolongs.thread inside left
      have here := (Heap.get?_set found none other).symm.trans here
      rw [if_neg fun same => differ (congrArg Ref.index same).symm] at here
      exact ⟨former, here, idle, fun self same => .inl (runs self same)⟩

/-- The records go on through a part of a run; some threads may have been entered where it is cut
short. -/
def RunsOn (before : Machine) (ending : Ending) (after : Machine) : Prop :=
  ∃ entered, before.Prolongs after entered ∧ (ending ≠ .cut → entered = [])

theorem RunsOn.prolongs (runsOn : before.RunsOn ending after) (ends : ending ≠ .cut) :
    before.Prolongs after [] := by
  obtain ⟨entered, prolongs, whole⟩ := runsOn
  exact whole ends ▸ prolongs

theorem Prolongs.runsOn (prolongs : before.Prolongs after []) (ending : Ending) :
    before.RunsOn ending after := ⟨[], prolongs, fun _ => rfl⟩

/-- Something begins before a part of a run, with the same registers and frames. -/
theorem RunsOn.congr (runsOn : start.RunsOn ending after) (before : Machine)
    (stack : start.fiber.stack = before.fiber.stack) (waiting : start.waiting = before.waiting)
    (heap : start.heap = before.heap) : before.RunsOn ending after :=
  have ⟨entered, prolongs, whole⟩ := runsOn
  ⟨entered, prolongs.congr before stack waiting heap, whole⟩

theorem RunsOn.settle (runsOn : before.RunsOn ending after) (restore : Machine → Machine)
    (stack : (restore after).fiber.stack = after.fiber.stack)
    (waiting : (restore after).waiting = after.waiting)
    (heap : (restore after).heap = after.heap) :
    before.RunsOn ending (ending.settle restore after) := by
  cases ending with
  | done | failed => exact ((runsOn.prolongs (by simp)).settled _ stack waiting heap).runsOn _
  | cut => exact runsOn

theorem RunsOn.visited {ref : Ref .thread} {fiber : Fiber}
    (found : before.heap.get? ref = some (some fiber))
    (runsOn : (before.entered ref fiber).RunsOn ending after) :
    before.RunsOn ending (after.leaving ref ending) := by
  cases ending with
  | done => exact ((runsOn.prolongs (by simp)).of_left found).runsOn _
  | failed fault =>
      have left := (runsOn.prolongs (by simp)).of_left found
      exact (left.settled ((leaveThread ref after).note .surfaced fault) rfl rfl rfl).runsOn _
  | cut =>
      obtain ⟨entered, prolongs, _⟩ := runsOn
      obtain ⟨own, outer⟩ := prolongs.of_entered found
      exact ⟨_, outer, fun ends => absurd rfl ends⟩

theorem Begins.runsOn (begins : before.Begins start) (runsOn : start.RunsOn ending after) :
    before.RunsOn ending after := by
  cases begins with
  | run | wakeup => exact runsOn.congr before rfl rfl rfl

/-- The records go on through every part of a run. -/
theorem Course.runsOn (course : Course checked part before ending after) :
    before.RunsOn ending after := by
  induction course with
  | goes ending goes | refused ending goes => exact goes.touches.prolongs.runsOn ending
  | joined _ whole _ first second =>
      obtain ⟨entered, prolongs, ends⟩ := second
      exact ⟨entered, (first.prolongs whole).trans prolongs, ends⟩
  | native _ _ _ ih => exact (ih.settle leaveNative rfl rfl rfl).congr _ rfl rfl rfl
  | looped _ _ ih => exact (ih.settle unnested rfl rfl rfl).congr _ rfl rfl rfl
  | awaited _ ih => exact (ih.settle unawaiting rfl rfl rfl).congr _ rfl rfl rfl
  | called _ ih | entered _ ih => exact ih
  | visited found _ ih => exact ih.visited found
  | @reentered before _ _ _ _ _ ih =>
      exact (ih.settle (withState · before.fiber.state) rfl rfl rfl).congr _ rfl rfl rfl
  | @ended _ _ after state suspended begins _ ih =>
      have inner := (begins.runsOn ih).prolongs (by simp)
      exact (inner.settled (after.mapFiber ({ · with state, suspended })) rfl rfl rfl).runsOn .done
  | interrupted begins _ ih => exact begins.runsOn ih
  | @unheard _ _ after fault state begins _ _ ih =>
      have inner := (begins.runsOn ih).prolongs (by simp)
      exact (inner.settled (after.withState state) rfl rfl rfl).runsOn (.failed fault)
  | @heard _ _ between after fault handler _ state begins _ _ whole _ body shown =>
      have inner := (begins.runsOn body).prolongs (by simp)
      have further := (shown.prolongs whole).congr between rfl rfl rfl
      exact ((inner.trans further).settled (after.told handler) rfl rfl rfl).runsOn (.failed fault)
  | @silenced _ _ between _ _ _ state begins _ _ _ body shown =>
      obtain ⟨entered, prolongs, _⟩ := shown.congr between rfl rfl rfl
      exact ⟨entered, ((begins.runsOn body).prolongs (by simp)).trans prolongs,
        fun ends => absurd rfl ends⟩

end Machine

/-! ## Run loops and host functions -/

/-- Run loops and host functions are counted, and not more than allowed are active. -/
structure Fiber.Counted (limits : Limits) (fiber : Fiber) : Prop where
  /-- Each of them counts. -/
  active : fiber.nativeCalls = fiber.nesting + fiber.natives.length
  /-- Not more than allowed are active. -/
  few : fiber.nativeCalls ≤ limits.nativeCalls

/-- No run loop and no host function is active. -/
structure Fiber.Inactive (fiber : Fiber) : Prop where
  /-- No host function is being run. -/
  natives : fiber.natives = []
  /-- None is counted. -/
  nativeCalls : fiber.nativeCalls = 0
  /-- No run loop is active. -/
  nesting : fiber.nesting = 0

namespace Machine

/-- Run loops and host functions are counted in every fiber, and none is active in a thread that is
not being run. -/
structure Counted (machine : Machine) : Prop where
  /-- In the running fiber. -/
  fiber : machine.fiber.Counted machine.limits
  /-- In those that wait for it. -/
  waiting : ∀ fiber ∈ machine.waiting, fiber.Counted machine.limits
  /-- In threads. -/
  threads : ∀ (ref : Ref .thread) (fiber : Fiber), machine.heap.get? ref = some (some fiber) →
    fiber.Inactive

end Machine

theorem Fiber.Inactive.counted {fiber : Fiber} (inactive : fiber.Inactive) (limits : Limits) :
    fiber.Counted limits :=
  ⟨by rw [inactive.natives, inactive.nativeCalls, inactive.nesting]; rfl,
    inactive.nativeCalls ▸ Nat.zero_le _⟩

theorem Fiber.Inactive.emptied {content : Option Fiber} {fiber : Fiber}
    (inactive : ∀ former, content = some former → former.Inactive)
    (same : some fiber = @Content.emptied .thread content) : fiber.Inactive := by
  obtain ⟨former, rfl, rfl⟩ := Option.map_eq_some_iff.mp same.symm
  exact ⟨rfl, (inactive former rfl).nativeCalls, (inactive former rfl).nesting⟩

namespace Machine

variable {checked : Prop} {part : Part} {before start after : Machine} {ending : Ending}

theorem counted_create (limits : Limits) : (Machine.create limits).Counted := by
  refine ⟨⟨rfl, Nat.zero_le _⟩, by simp [create], fun ref fiber found => ?_⟩
  rw [create, Heap.get?_alloc_of_ne (by decide)] at found
  exact absurd (Heap.lt_size_of_get?_eq_some found) (by simp [Heap.size])

/-- The running fiber goes on in another machine with the same threads and waiting fibers. -/
theorem Counted.change (counted : before.Counted)
    (fiber : before.fiber.Counted before.limits → after.fiber.Counted before.limits)
    (waiting : after.waiting = before.waiting) (heap : after.heap = before.heap)
    (limits : after.limits = before.limits) : after.Counted := by
  refine ⟨?_, ?_, ?_⟩
  · rw [limits]
    exact fiber counted.fiber
  · rw [waiting, limits]
    exact counted.waiting
  · rw [heap]
    exact counted.threads

theorem Touch.counted (touch : before.Touch after) (counted : before.Counted) : after.Counted := by
  cases touch with
  | stack | fiber | note | aside =>
    exact counted.change (fun own => ⟨own.active, own.few⟩) rfl rfl rfl
  | heap heap _ threads =>
      exact ⟨counted.fiber, counted.waiting, fun ref fiber found =>
        counted.threads ref fiber ((threads ref).symm.trans found)⟩
  | hatched =>
      refine ⟨counted.fiber, counted.waiting, fun ref fiber found => ?_⟩
      have found := (Heap.get?_alloc _ ref).symm.trans found
      split at found
      · cases found
        exact ⟨rfl, rfl, rfl⟩
      · exact counted.threads ref fiber found
  | culled heap collector _ threads =>
      refine ⟨counted.fiber, counted.waiting, fun ref fiber found => ?_⟩
      obtain ⟨former, here, same | same⟩ := threads ref _ found
      · exact counted.threads ref fiber (here.trans (congrArg some same.symm))
      · exact .emptied (fun own there => counted.threads ref own (here.trans (congrArg some there)))
          same

theorem Touches.counted (touches : before.Touches after) (counted : before.Counted) :
    after.Counted := by
  induction touches with
  | refl => exact counted
  | tail _ touch ih => exact touch.counted ih

/-- Threads that are entered have been inactive, and are so again when they are left. -/
theorem Counted.entered (counted : before.Counted) {ref : Ref .thread} {fiber : Fiber}
    (found : before.heap.get? ref = some (some fiber)) : (before.entered ref fiber).Counted := by
  refine ⟨(counted.threads ref fiber found).counted _, ?_, fun other own here => ?_⟩
  · intro own member
    rcases List.mem_cons.mp member with rfl | member
    · exact counted.fiber
    · exact counted.waiting own member
  · have here := (Heap.get?_set found none other).symm.trans here
    split at here
    · cases here
    · exact counted.threads other own here

theorem Counted.leaveThread (counted : after.Counted) {ref : Ref .thread} {fiber : Fiber}
    {waiting : List Fiber} (waits : after.waiting = fiber :: waiting)
    (inactive : after.fiber.Inactive) : (leaveThread ref after).Counted := by
  have front : ∀ own ∈ fiber :: waiting, own.Counted after.limits := waits ▸ counted.waiting
  rw [leaveThread_eq waits]
  refine ⟨front fiber List.mem_cons_self, fun own member =>
    front own (List.mem_cons_of_mem _ member), fun other own here => ?_⟩
  have here := (Heap.get?_modify ref other _).symm.trans here
  split at here
  · obtain ⟨_, _, content⟩ := Option.map_eq_some_iff.mp here
    cases content
    exact inactive
  · exact counted.threads other own here

theorem Counted.leaving (counted : after.Counted) {ref : Ref .thread} {fiber : Fiber}
    {waiting : List Fiber} (waits : ending ≠ .cut → after.waiting = fiber :: waiting)
    (inactive : ending ≠ .cut → after.fiber.Inactive) : (after.leaving ref ending).Counted := by
  cases ending with
  | done => exact counted.leaveThread (waits (by simp)) (inactive (by simp))
  | failed fault =>
      exact (counted.leaveThread (waits (by simp)) (inactive (by simp))).change id rfl rfl rfl
  | cut => exact counted

theorem Counted.settle {restore : Machine → Machine}
    (back : ending ≠ .cut → after.Counted → (restore after).Counted) (counted : after.Counted) :
    (ending.settle restore after).Counted := by
  cases ending with
  | done | failed => exact back (by simp) counted
  | cut => exact counted

theorem Begins.counted (begins : before.Begins start) (counted : before.Counted) :
    start.Counted := by
  cases begins with
  | run | wakeup => exact counted.change (fun own => ⟨own.active, own.few⟩) rfl rfl rfl

theorem Counted.enterNative (counted : before.Counted) {call : NativeFrame}
    (room : before.fiber.nativeCalls < before.limits.nativeCalls) :
    (before.enterNative call).Counted :=
  counted.change (fun own => ⟨congrArg (· + 1) own.active, room⟩) rfl rfl rfl

theorem Counted.leaveNative {call : NativeFrame} (inner : (before.enterNative call).Matches after)
    (counted : after.Counted) : after.leaveNative.Counted := by
  refine counted.change (fun own => ⟨?_, (Nat.sub_le _ _).trans own.few⟩) rfl rfl rfl
  have natives : after.fiber.natives = call :: before.fiber.natives := inner.natives
  show after.fiber.nativeCalls - 1 = after.fiber.nesting + after.fiber.natives.tail.length
  rw [own.active, natives]
  rfl

theorem Counted.nested (counted : before.Counted)
    (room : before.fiber.nativeCalls < before.limits.nativeCalls) : before.nested.Counted := by
  refine counted.change (fun own => ⟨?_, room⟩) rfl rfl rfl
  show before.fiber.nativeCalls + 1 = before.fiber.nesting + 1 + before.fiber.natives.length
  have active := own.active
  omega

theorem Counted.unnested (inner : before.nested.Matches after) (counted : after.Counted) :
    after.unnested.Counted := by
  refine counted.change (fun own => ⟨?_, (Nat.sub_le _ _).trans own.few⟩) rfl rfl rfl
  have nesting : after.fiber.nesting = before.fiber.nesting + 1 := inner.nesting
  show after.fiber.nativeCalls - 1 = after.fiber.nesting - 1 + after.fiber.natives.length
  have active := own.active
  omega

/-- Run loops and host functions stay counted in a part of a run. -/
theorem Course.counted (course : Course checked part before ending after)
    (counted : before.Counted) :
    after.Counted := by
  have same : ∀ {before after : Machine}, before.Counted →
      (before.fiber.Counted before.limits → after.fiber.Counted before.limits) →
      after.waiting = before.waiting → after.heap = before.heap → after.limits = before.limits →
      after.Counted := Counted.change
  induction course with
  | goes _ goes => exact goes.touches.counted counted
  | joined _ _ _ first second => exact second (first counted)
  | native _ room inner ih =>
      exact .settle (fun ends => .leaveNative (inner.matches ends)) (ih (counted.enterNative room))
  | looped room inner ih =>
      exact .settle (fun ends => .unnested (inner.matches ends)) (ih (counted.nested room))
  | awaited _ ih =>
      refine .settle (fun _ held => same held ?_ rfl rfl rfl) (ih (same counted ?_ rfl rfl rfl))
      · exact fun own => ⟨own.active, own.few⟩
      · exact fun own => ⟨own.active, own.few⟩
  | called _ ih => exact ih counted
  | refused _ goes => exact goes.touches.counted counted
  | visited found inner ih =>
      have inactive := counted.threads _ _ found
      refine (ih (counted.entered found)).leaving (fun ends => (inner.matches ends).waiting)
        fun ends => ?_
      have same := inner.matches ends
      exact ⟨same.natives.trans inactive.natives, same.nativeCalls.trans inactive.nativeCalls,
        same.nesting.trans inactive.nesting⟩
  | reentered _ _ _ ih =>
      refine .settle (fun _ held => same held ?_ rfl rfl rfl) (ih (same counted ?_ rfl rfl rfl))
      · exact fun own => ⟨own.active, own.few⟩
      · exact fun own => ⟨own.active, own.few⟩
  | entered _ ih => exact ih counted
  | ended _ _ begins _ ih =>
      exact same (ih (begins.counted counted)) (fun own => ⟨own.active, own.few⟩) rfl rfl rfl
  | interrupted begins _ ih => exact ih (begins.counted counted)
  | unheard _ begins _ _ ih =>
      exact same (ih (begins.counted counted)) (fun own => ⟨own.active, own.few⟩) rfl rfl rfl
  | heard _ begins _ _ _ _ body shown =>
      refine same (shown (same (body (begins.counted counted)) ?_ rfl rfl rfl)) ?_ rfl rfl rfl
      · exact fun own => ⟨own.active, own.few⟩
      · exact fun own => ⟨own.active, own.few⟩
  | silenced _ begins _ _ _ body shown =>
      refine shown (same (body (begins.counted counted)) ?_ rfl rfl rfl)
      exact fun own => ⟨own.active, own.few⟩

end Machine

/-! ## Machines that arise -/

namespace Machine

variable {host : Host} {manners : Manners} {machine : Machine}

theorem Arises.accounted (arises : machine.Arises host) (serves : host.Serves manners) :
    machine.Accounted := by
  induction arises with
  | created limits => exact accounted_create limits
  | @went before _ _ stop steps _ _ allowed ih =>
      have course := Exec.Courses.service (Engine.courses_until serves stop steps) allowed before
      exact course.along attends_accounted ih

theorem Arises.counted (arises : machine.Arises host) (serves : host.Serves manners) :
    machine.Counted := by
  induction arises with
  | created limits => exact counted_create limits
  | @went before _ _ stop steps _ _ allowed ih =>
      exact (Exec.Courses.service (Engine.courses_until serves stop steps)
        allowed before).counted ih

theorem Counted.at (counted : machine.Counted) {post : Post} {fiber : Fiber}
    (found : machine.fiberAt? post = some fiber) : fiber.Counted machine.limits := by
  cases post with
  | line index =>
      rcases List.mem_cons.mp (List.mem_of_getElem? found) with rfl | member
      · exact counted.fiber
      · exact counted.waiting fiber member
  | thread ref =>
      exact (counted.threads ref fiber (Option.join_eq_some_iff.mp found)).counted _

/-- Wherever a machine arises, registers, frames, run loops and host functions of every fiber are
within the limits.  The peak is the largest number of registers on the record of the fiber, which
ends with the present number and goes on with whatever is done next.  What does not fit changes
neither registers nor frames nor the peak. -/
theorem limits_of_arises (serves : host.Serves manners) (arises : machine.Arises host) :
    (∀ post fiber, machine.fiberAt? post = some fiber →
      fiber.stack.size ≤ machine.limits.stackSize ∧
      fiber.stack.depth ≤ machine.limits.callDepth ∧
      fiber.nativeCalls = fiber.nesting + fiber.natives.length ∧
      fiber.nativeCalls ≤ machine.limits.nativeCalls ∧
      fiber.stack.sizes.head? = some fiber.stack.size ∧
      (∀ size ∈ fiber.stack.sizes, size ≤ machine.limits.stackSize) ∧
      IsGreatest {size | size ∈ fiber.stack.sizes} fiber.stack.peak) ∧
    (∀ {α : Type} {outer : Manners} (stop : Machine → Bool) (steps : Nat) (action : Exec α),
      (Engine.until stop host steps).Serves outer action → ∃ entered,
        machine.Prolongs (action.after machine) entered ∧
        (action.ending machine ≠ .cut → entered = [])) ∧
    ∀ action, Grows action →
      (∀ next, action machine = .ok () next →
        next.fiber.stack.peak = max machine.fiber.stack.peak next.fiber.stack.size) ∧
      ∀ stop next, action machine = .error stop next →
        stop = .raised .stackOverflow ∧ next.fiber.stack = machine.fiber.stack := by
  have accounted := arises.accounted serves
  refine ⟨fun post fiber found => ?_, fun stop steps action allowed => ?_,
    fun action grows => ⟨?_, ?_⟩⟩
  · have own := accounted.at found
    have counted := (arises.counted serves).at found
    exact ⟨own.size_le, own.depth_le, counted.active, counted.few, own.head?_sizes, own.sizes_le,
      own.isGreatest_peak⟩
  · exact (Exec.Courses.service (Engine.courses_until serves stop steps) allowed machine).runsOn
  · exact fun next done => grows.peak_of_ok accounted.fiber.size_le_peak done
  · refine fun stop next failed => grows.stack_of_error ?_ failed
    rw [Fiber.Roomy, accounted.fiber.maxSlots_eq]
    exact accounted.fiber.size_le

theorem serves_runCounting (engine : Engine) : engine.Serves {} (runCounting engine) := by
  refine (Engine.Serves.loadFunction counting).bind fun closure => ?_
  refine (Engine.Serves.operates rfl (.callSync closure .null [])).bind fun value => ?_
  cases value with
  | generator ref => exact .resumeGenerator rfl ref
  | _ => exact .pure _

/-- Inside a generator that uses up all that it is allowed. -/
theorem limits_of_counting :
    let inside := (runCounting untilCounting).after
      (.create { nativeCalls := 1, callDepth := 1, stackSize := 3 })
    (inside.fiber.nativeCalls = 1 ∧ inside.fiber.stack.depth = 1 ∧ inside.fiber.stack.size = 3) ∧
      IsGreatest {size | size ∈ inside.fiber.stack.sizes} 3 ∧
      ((Exec.push .null).after inside).fiber.stack = inside.fiber.stack := by
  intro inside
  have arises : inside.Arises standardHost :=
    .went (.created _) (serves_runCounting untilCounting)
  obtain ⟨fibers, _, grows⟩ := limits_of_arises serves_standardHost arises
  have peak : inside.fiber.stack.peak = 3 := by decide +kernel
  have full : inside.fiber.stack.hasRoom = false := by decide +kernel
  have failed : Exec.push .null inside =
      .error (.raised .stackOverflow) (inside.record .stackOverflow) := by
    rw [Exec.push, requireRoom_bind, full]
    rfl
  refine ⟨by decide +kernel, ?_, ?_⟩
  · rw [← peak]
    exact (fibers (.line 0) inside.fiber rfl).2.2.2.2.2.2
  · rw [after_of_eq_error failed]
    exact ((grows _ (.push .null)).2 _ _ failed).2

/-! ## Nesting across fibers -/

/-- How many run loops and host functions are active in all fibers that run or wait. -/
def active (machine : Machine) : Nat :=
  ((machine.fiber :: machine.waiting).map fun fiber => fiber.nesting + fiber.natives.length).sum

theorem Counted.active_le (counted : machine.Counted) :
    machine.active ≤ (machine.waiting.length + 1) * machine.limits.nativeCalls := by
  have each : ∀ number ∈ (machine.fiber :: machine.waiting).map fun fiber =>
      fiber.nesting + fiber.natives.length, number ≤ machine.limits.nativeCalls := by
    intro number member
    obtain ⟨fiber, among, rfl⟩ := List.mem_map.mp member
    have own : fiber.Counted machine.limits := by
      rcases List.mem_cons.mp among with rfl | among
      · exact counted.fiber
      · exact counted.waiting fiber among
    exact own.active ▸ own.few
  have total := List.sum_le_card_nsmul _ _ each
  rw [List.length_map, List.length_cons, smul_eq_mul] at total
  exact total

/-- Where the running fiber has come to the limit, no host function begins. -/
theorem callNative_of_full (full : machine.limits.nativeCalls ≤ machine.fiber.nativeCalls)
    (engine : Engine) {ref : Ref .native} {base count : Nat}
    (accepted : (machine.heap.get ref : Native).checkArguments
      (machine.fiber.stack.range base (base + count)).toList = .ok ()) :
    callNative engine ref base count machine =
      .error (.raised .nativeStackOverflow) (machine.record .nativeStackOverflow) := by
  rw [callNative, ok_bind (show read ref machine = .ok (machine.heap.get ref) machine from rfl),
    ok_bind (show range base (base + count) machine =
      .ok (machine.fiber.stack.range base (base + count)) machine from rfl), accepted]
  rw [ok_bind (show (Exec.ofExcept (.ok ()) : Exec Unit) machine = .ok () machine from rfl),
    ok_bind (show (get : Exec Machine) machine = .ok machine machine from rfl),
    ok_bind (show ofFiber (·.nativeCalls) machine = .ok machine.fiber.nativeCalls machine from rfl)]
  dsimp only
  rw [if_pos full]
  rfl

/-- Nor does a run loop; its frames are given up. -/
theorem nestLoop_of_full (full : machine.limits.nativeCalls ≤ machine.fiber.nativeCalls)
    (root : Nat) (body : Exec Outcome) :
    ∃ next, nestLoop root body machine = .error (.raised .nativeStackOverflow) next := by
  obtain ⟨unwound, unwinds⟩ := exists_unwindTo machine root
  refine ⟨unwound.record .nativeStackOverflow, ?_⟩
  rw [nestLoop, ok_bind (show (get : Exec Machine) machine = .ok machine machine from rfl),
    ok_bind (show ofFiber (·.nativeCalls) machine = .ok machine.fiber.nativeCalls machine from rfl)]
  dsimp only
  rw [if_pos full, ok_bind unwinds]
  rfl

/-- Wherever a machine arises, each fiber has not more run loops and host functions active than
allowed, so that all of them together have not more than allowed for each fiber that runs or waits.
Where the running fiber has come to the limit, no run loop and no host function begins. -/
theorem active_of_arises (serves : host.Serves manners) (arises : machine.Arises host) :
    (∀ fiber ∈ machine.fiber :: machine.waiting,
      fiber.nesting + fiber.natives.length ≤ machine.limits.nativeCalls) ∧
    machine.active ≤ (machine.waiting.length + 1) * machine.limits.nativeCalls ∧
    (machine.fiber.nesting + machine.fiber.natives.length = machine.limits.nativeCalls →
      (∀ stop steps root, ∃ next, (Engine.until stop host (steps + 1)).runFrames root machine =
        .error (.raised .nativeStackOverflow) next) ∧
      ∀ engine ref base count, (machine.heap.get ref : Native).checkArguments
          (machine.fiber.stack.range base (base + count)).toList = .ok () →
        callNative engine ref base count machine =
          .error (.raised .nativeStackOverflow) (machine.record .nativeStackOverflow)) := by
  have counted := arises.counted serves
  refine ⟨fun fiber member => ?_, counted.active_le, fun full => ?_⟩
  · obtain ⟨index, found⟩ := List.getElem?_of_mem member
    have own : fiber.Counted machine.limits := @Counted.at machine counted (.line index) fiber found
    exact own.active ▸ own.few
  · have full : machine.limits.nativeCalls ≤ machine.fiber.nativeCalls := by
      rw [counted.fiber.active, full]
    exact ⟨fun stop steps root => nestLoop_of_full full root _,
      fun engine ref base count accepted => callNative_of_full full engine accepted⟩

/-- A function that hands its argument on to the first one. -/
def handingOn : Prototype where
  name := "handingOn"
  parameters := #["this", "callee", "thread", "native"]
  stackSize := 8
  code := #[⟨.move, 6, 2, 0, 0⟩, ⟨.move, 7, 3, 0, 0⟩, ⟨.call, 4, 1, 5, 3⟩, ⟨.ret, 0, 4, 0, 0⟩]

/-- A function that calls its argument. -/
def calling : Prototype where
  name := "calling"
  parameters := #["this", "native"]
  stackSize := 4
  code := #[⟨.call, 2, 1, 3, 1⟩, ⟨.ret, 0, 2, 0, 0⟩]

/-- Call a function of the host from a thread that is entered from a function. -/
def runAcross (engine : Engine) : Exec Outcome := do
  let threadCall ← Exec.alloc ({ name := "threadcall", symbol := "threadcall" } : Native)
  let native ← Exec.alloc ({ name := "count", symbol := "count" } : Native)
  let inner ← Exec.loadFunction calling
  let outer ← Exec.loadFunction handingOn
  let thread ← Exec.newThread
  Exec.setThreadFunction thread inner
  Exec.run engine outer [.native threadCall, .thread thread, .native native]

theorem serves_runAcross (engine : Engine) : engine.Serves {} (runAcross engine) :=
  (Engine.Serves.calm (.alloc .native _ rfl)).bind fun _ =>
    (Engine.Serves.calm (.alloc .native _ rfl)).bind fun _ =>
      (Engine.Serves.loadFunction calling).bind fun inner =>
        (Engine.Serves.loadFunction handingOn).bind fun _ =>
          Engine.Serves.newThread.bind fun thread =>
          (Engine.Serves.setThreadFunction thread inner).bind fun _ => .run rfl _ _

/-- Stop inside the function of the host that the thread calls. -/
def untilAcross : Engine :=
  .until (fun machine => machine.waiting.length == 1 && machine.fiber.natives.length == 1)
    standardHost 8

/-- Two run loops and two functions of the host are active, where two are allowed in a fiber. -/
theorem active_across_threads :
    let inside := (runAcross untilAcross).after (.create { nativeCalls := 2 })
    inside.limits.nativeCalls = 2 ∧ inside.active = 4 ∧ inside.waiting.length = 1 ∧
      inside.active ≤ (inside.waiting.length + 1) * inside.limits.nativeCalls ∧
      ∃ next,
        (standardEngine 8).runFrames 1 inside = .error (.raised .nativeStackOverflow) next := by
  intro inside
  have arises : inside.Arises standardHost := .went (.created _) (serves_runAcross untilAcross)
  obtain ⟨_, total, full⟩ := active_of_arises serves_standardHost arises
  have refuses := (full (by decide +kernel)).1 (fun _ => false) 7 1
  rw [Engine.until_never] at refuses
  exact ⟨by decide +kernel, by decide +kernel, by decide +kernel, total, refuses⟩

end Machine

end ScriptMachine
