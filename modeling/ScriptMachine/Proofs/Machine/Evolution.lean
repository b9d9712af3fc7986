import ScriptMachine.Proofs.Heap.Survival
import ScriptMachine.Proofs.Machine.Soundness

/-!
# Sound machines with another heap

A machine stays sound with another heap as long as the new contents are sound, generators stay
those of the same function, and the closure of a generator that is left is left, too.  This covers
creating and changing objects as well as releasing and collecting them.
-/

namespace ScriptMachine

/-- What happens to the heap of a sound machine. -/
structure Heap.Follows (before after : Heap) : Prop where
  /-- No number is lost. -/
  size : before.size ≤ after.size
  /-- A generator stays one of the same closure. -/
  same : ∀ (ref : Ref .generator) (generator : Generator), ref.index < before.size →
    after.get? ref = some generator →
    ∃ former : Generator, before.get? ref = some former ∧ generator.closure = former.closure
  /-- The closure of a generator is left. -/
  keeps : ∀ (ref : Ref .generator) (generator : Generator) (closure : Closure),
    after.get? ref = some generator → before.get? generator.closure = some closure →
    after.get? generator.closure = some closure

namespace Heap

variable {heap before after : Heap} {kind : Kind}

theorem Follows.runs (follows : before.Follows after) {ref : Ref .generator} {routine : Routine}
    (runs : before.Runs ref routine) : after.Runs ref routine := by
  refine ⟨Nat.lt_of_lt_of_le runs.1 follows.size, fun generator found => ?_⟩
  obtain ⟨former, there, same⟩ := follows.same ref generator runs.1 found
  obtain ⟨closure, held, exact⟩ := runs.2 former there
  exact ⟨closure, follows.keeps ref generator closure found (same ▸ held), exact⟩

theorem Follows.frame (follows : before.Follows after) {maxSlots : Nat} {frame : Frame}
    (sound : frame.SoundIn before maxSlots) : frame.SoundIn after maxSlots where
  closure := sound.closure
  ip := sound.ip
  room := sound.room
  generator ref runs := follows.runs (sound.generator ref runs)

theorem Follows.activity (follows : before.Follows after) {activity : Activity}
    (sound : activity.SoundIn before) : activity.SoundIn after where
  frames frame member := follows.frame (sound.frames frame member)
  stacked := sound.stacked
  ordered := sound.ordered
  owned := sound.owned

theorem Follows.fiber (follows : before.Follows after) {fiber : Fiber}
    (sound : fiber.SoundIn before) : fiber.SoundIn after :=
  ⟨follows.activity sound.activity, sound.room⟩

theorem Follows.sound (follows : before.Follows after)
    (fits : ∀ ⦃kind : Kind⦄ (ref : Ref kind) (content : Content kind),
      after.get? ref = some content → content.SoundIn before) : after.Sound := by
  intro kind ref content found
  have former := fits ref content found
  cases kind with
  | closure => exact former
  | generator =>
      obtain ⟨closure, held, rest⟩ := former
      exact ⟨closure, follows.keeps ref content closure found held, rest⟩
  | thread => exact fun fiber same => ⟨follows.fiber (former fiber same).1, (former fiber same).2⟩
  | _ => trivial

/-! ## Creation -/

theorem follows_alloc (heap : Heap) (content : Content kind) :
    heap.Follows (heap.alloc content).2 := by
  have closures : ∀ (ref : Ref .closure) (closure : Closure), heap.get? ref = some closure →
      (heap.alloc content).2.get? ref = some closure := by
    intro ref closure found
    have here := get?_eq_some.mp found
    rw [get?_eq_some, object?_alloc, if_neg (Nat.ne_of_lt (lt_size_of_get?_eq_some found))]
    exact here
  refine ⟨?_, ?_, fun _ generator closure _ held => closures generator.closure closure held⟩
  · rw [size_alloc]
    exact Nat.le_succ _
  · intro ref generator within found
    rw [get?_eq_some, object?_alloc, if_neg (Nat.ne_of_lt within)] at found
    exact ⟨generator, get?_eq_some.mpr found, rfl⟩

theorem Sound.fits_alloc (sound : heap.Sound) {content : Content kind}
    (fits : content.SoundIn heap) ⦃other : Kind⦄ (ref : Ref other) (found : Content other)
    (here : (heap.alloc content).2.get? ref = some found) : found.SoundIn heap := by
  by_cases differ : other = kind
  · subst differ
    rw [get?_alloc] at here
    split at here
    · obtain rfl := Option.some.inj here
      exact fits
    · exact sound ref found here
  · rw [get?_alloc_of_ne differ] at here
    exact sound ref found here

/-! ## Change -/

theorem follows_modify (heap : Heap) (ref : Ref kind) (change : Content kind → Content kind)
    (notClosure : kind ≠ .closure) (notGenerator : kind ≠ .generator) :
    heap.Follows (heap.modify ref change) := by
  refine ⟨Nat.le_of_eq (size_modify ref change).symm, ?_, ?_⟩
  · intro target generator _ found
    rw [get?_modify_of_ne notGenerator.symm] at found
    exact ⟨generator, found, rfl⟩
  · intro _ generator closure _ held
    rw [get?_modify_of_ne notClosure.symm]
    exact held

theorem follows_modify_generator (heap : Heap) (ref : Ref .generator)
    (change : Generator → Generator)
    (sameClosure : ∀ generator, (change generator).closure = generator.closure) :
    heap.Follows (heap.modify ref change) := by
  refine ⟨Nat.le_of_eq (size_modify ref change).symm, ?_, ?_⟩
  · intro target generator _ found
    rw [get?_modify] at found
    split at found
    · obtain ⟨former, here, rfl⟩ := Option.map_eq_some_iff.mp found
      exact ⟨former, here, sameClosure former⟩
    · exact ⟨generator, found, rfl⟩
  · intro _ generator closure _ held
    rw [get?_modify_of_ne (by decide)]
    exact held

theorem Sound.fits_modify (sound : heap.Sound) {ref : Ref kind}
    {change : Content kind → Content kind}
    (fits : ∀ content, heap.get? ref = some content → (change content).SoundIn heap)
    ⦃other : Kind⦄ (target : Ref other) (found : Content other)
    (here : (heap.modify ref change).get? target = some found) : found.SoundIn heap := by
  by_cases differ : other = kind
  · subst differ
    rw [get?_modify] at here
    split at here
    · rename_i same
      obtain ⟨former, there, rfl⟩ := Option.map_eq_some_iff.mp here
      refine fits former ?_
      rw [get?_eq_some] at there ⊢
      rw [same]
      exact there
    · exact sound target found here
  · rw [get?_modify_of_ne differ] at here
    exact sound target found here

/-! ## Objects that cannot be run -/

theorem Inert.trans {between : Heap} (first : before.Inert between) (second : between.Inert after) :
    before.Inert after := by
  induction second with
  | refl => exact first
  | alloc content inert _ ih => exact .alloc content inert ih
  | modify ref change inert _ ih => exact .modify ref change inert ih

theorem Inert.get?_eq (inert : before.Inert after) (runs : kind.isInert = false)
    (ref : Ref kind) : after.get? ref = before.get? ref := by
  have differ : ∀ {other : Kind}, other.isInert = true → kind ≠ other := by
    rintro _ inert rfl
    exact Bool.false_ne_true (runs.symm.trans inert)
  induction inert with
  | refl => rfl
  | alloc content inert _ ih => rw [get?_alloc_of_ne (differ inert), ih]
  | modify target change inert _ ih => rw [get?_modify_of_ne (differ inert), ih]

theorem Inert.size_le (inert : before.Inert after) : before.size ≤ after.size := by
  induction inert with
  | refl => exact Nat.le_refl _
  | alloc content _ _ ih =>
      rw [size_alloc]
      exact Nat.le_succ_of_le ih
  | modify ref change _ _ ih =>
      rw [size_modify]
      exact ih

theorem Inert.lostIn (inert : before.Inert after) : before.LostIn after := by
  induction inert with
  | refl => exact fun _ lost => lost
  | alloc content _ _ ih => exact ih.trans (lostIn_alloc _ content)
  | modify ref change _ _ ih => exact ih.trans (lostIn_modify _ ref change)

theorem Inert.runs (inert : before.Inert after) {ref : Ref .generator} {routine : Routine}
    (runs : before.Runs ref routine) : after.Runs ref routine := by
  refine ⟨Nat.lt_of_lt_of_le runs.1 inert.size_le, fun generator found => ?_⟩
  rw [inert.get?_eq rfl] at found
  obtain ⟨closure, held, exact⟩ := runs.2 generator found
  exact ⟨closure, (inert.get?_eq rfl generator.closure).trans held, exact⟩

/-! ## Release -/

theorem follows_release (heap : Heap) (external : List Nat) :
    heap.Follows (heap.release external) := by
  refine ⟨Nat.le_of_eq (heap.release_spec external).1.size.symm, ?_, ?_⟩
  · intro ref generator _ found
    exact ⟨generator, get?_of_get?_release found, rfl⟩
  · intro ref generator closure found held
    have refers : generator.closure.index ∈ (heap.release external).referencesAt ref.index := by
      rw [mem_referencesAt]
      exact ⟨_, get?_eq_some.mp found, .inl (by simp [Object.references, Content.references])⟩
    rw [get?_eq_some, object?_release_of_mem refers]
    exact get?_eq_some.mp held

theorem Sound.fits_release (sound : heap.Sound) (external : List Nat) ⦃kind : Kind⦄
    (ref : Ref kind) (content : Content kind)
    (found : (heap.release external).get? ref = some content) : content.SoundIn heap :=
  sound ref content (get?_of_get?_release found)

/-! ## Emptying -/

theorem follows_emptyUnmarked (heap : Heap) (marked : Array Bool) :
    heap.Follows (heap.emptyUnmarked marked) := by
  refine ⟨?_, ?_, fun _ _ _ _ held => get?_closure_emptyUnmarked held⟩
  · exact Nat.le_of_eq (size_emptyUnmarked marked).symm
  · intro ref generator _ found
    obtain ⟨former, here, rfl | rfl⟩ := get?_emptyUnmarked found
    · exact ⟨generator, here, rfl⟩
    · exact ⟨former, here, rfl⟩

end Heap

theorem Content.SoundIn.emptied {heap : Heap} {kind : Kind} {content : Content kind}
    (sound : content.SoundIn heap) : content.emptied.SoundIn heap := by
  cases kind with
  | closure => exact sound
  | generator =>
      obtain ⟨closure, held, fits⟩ := sound
      exact ⟨closure, held, fits.ip, by simp [Content.emptied, Generator.killed]⟩
  | thread =>
      intro fiber same
      obtain ⟨own, rfl, rfl⟩ := Option.map_eq_some_iff.mp same
      obtain ⟨_, rest⟩ := sound own rfl
      refine ⟨⟨⟨by simp [Fiber.activity], by simp [Stacked, Fiber.activity], .nil,
        by simp [Fiber.activity]⟩, Nat.zero_le _⟩, .inl ?_⟩
      have still : own.Still := by
        rcases rest with vacant | paused
        · exact vacant.toStill
        · exact paused.toStill
      exact ⟨⟨rfl, still.nativeCalls, still.nesting, still.syncCalls⟩, rfl, rfl, rfl, rfl, rfl⟩
  | _ => trivial

theorem Content.soundIn_of_isInert {kind : Kind} (content : Content kind) (heap : Heap)
    (inert : kind.isInert = true) : content.SoundIn heap := by
  cases kind with
  | closure | generator | thread => exact absurd inert (by decide)
  | _ => trivial

/-! ## Machines -/

namespace Machine

variable {machine : Machine}

/-- A sound machine stays sound with a heap that follows its own. -/
theorem Sound.setHeap (sound : machine.Sound) {heap : Heap} (follows : machine.heap.Follows heap)
    (fits : ∀ ⦃kind : Kind⦄ (ref : Ref kind) (content : Content kind),
      heap.get? ref = some content → content.SoundIn machine.heap) :
    { machine with heap := heap }.Sound where
  heap := follows.sound fits
  fiber := follows.fiber sound.fiber
  waiting fiber member := follows.fiber (sound.waiting fiber member)
  routines := sound.routines
  incidents := sound.incidents

theorem Sound.alloc (sound : machine.Sound) {kind : Kind} {content : Content kind}
    (fits : content.SoundIn machine.heap) :
    { machine with heap := (machine.heap.alloc content).2 }.Sound :=
  sound.setHeap (machine.heap.follows_alloc content) (sound.heap.fits_alloc fits)

theorem Sound.release (sound : machine.Sound) (external : List Nat) :
    { machine with heap := machine.heap.release external }.Sound :=
  sound.setHeap (machine.heap.follows_release external) (sound.heap.fits_release external)

theorem Sound.emptyUnmarked (sound : machine.Sound) (marked : Array Bool) :
    { machine with heap := machine.heap.emptyUnmarked marked }.Sound := by
  refine sound.setHeap (machine.heap.follows_emptyUnmarked marked) fun kind ref content found => ?_
  obtain ⟨former, here, rfl | rfl⟩ := Heap.get?_emptyUnmarked found
  · exact sound.heap ref content here
  · exact (sound.heap ref former here).emptied

/-- Objects that cannot be run do not matter. -/
theorem Sound.inert (sound : machine.Sound) {heap : Heap} (inert : machine.heap.Inert heap) :
    { machine with heap := heap }.Sound := by
  induction inert with
  | refl => exact sound
  | alloc content inert _ ih =>
      refine ih.setHeap (Heap.follows_alloc _ content) (ih.heap.fits_alloc ?_)
      exact content.soundIn_of_isInert _ inert
  | modify ref change inert _ ih =>
      refine ih.setHeap (Heap.follows_modify _ ref change ?_ ?_) (ih.heap.fits_modify ?_)
      · rintro rfl
        exact absurd inert (by decide)
      · rintro rfl
        exact absurd inert (by decide)
      · exact fun _ _ => Content.soundIn_of_isInert _ _ inert

theorem Sound.collect (sound : machine.Sound) : machine.collect.2.Sound := by
  have released := sound.release machine.external
  have emptied := released.emptyUnmarked
    ((machine.heap.release machine.external).reached machine.external [])
  have settled := emptied.release machine.external
  exact ⟨settled.heap, settled.fiber, settled.waiting, settled.routines, settled.incidents⟩

end Machine

end ScriptMachine
