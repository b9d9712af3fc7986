import Mathlib.Tactic
import ScriptMachine.Heap.Release

/-!
# What a release leaves

The counts are exact: they give how often an object is held from outside and by the objects that
are still there.  An object is discarded when its count has come down to nothing, and every number
comes down to nothing at most once, so the bound on the steps is never reached.  `release_spec`
says what remains: a part of the heap in which everything is held, and as large a part as that can
be.
-/

namespace ScriptMachine.Heap

variable {heap : Heap} {external : List Nat}

/-! ## Counting -/

theorem countP_range_flip {size index : Nat} {before after : Nat → Bool} (within : index < size)
    (was : before index = true) (now : after index = false)
    (same : ∀ other, other ≠ index → before other = after other) :
    (List.range size).countP before = (List.range size).countP after + 1 := by
  obtain ⟨front, back, split⟩ := List.append_of_mem (List.mem_range.mpr within)
  have nodup : (front ++ index :: back).Nodup := split ▸ List.nodup_range
  have apart : index ∉ front ++ back := (List.nodup_middle.mp nodup).notMem
  have agree : ∀ list : List Nat, (∀ other ∈ list, other ∈ front ++ back) →
      list.countP before = list.countP after := by
    intro list part
    apply List.countP_congr
    intro other member
    rw [same other (ne_of_mem_of_not_mem (part other member) apart)]
  rw [split, List.countP_append, List.countP_append, List.countP_cons_of_pos was,
    List.countP_cons_of_neg (by simp [now]), agree front (by simp +contextual),
    agree back (by simp +contextual)]
  omega

theorem getElem?_tally (counts : Array Nat) (indices : List Nat) (index : Nat) :
    (tally counts indices)[index]? = counts[index]?.map (· + indices.count index) := by
  induction indices generalizing counts with
  | nil => simp [tally]
  | cons first rest ih =>
      have step := ih (counts.modify first (· + 1))
      rw [tally] at step ⊢
      rw [List.foldl_cons, step, Array.getElem?_modify]
      by_cases same : first = index
      · subst same
        cases counts[first]? with
        | none => simp
        | some count => simp; omega
      · rw [if_neg same, List.count_cons_of_ne (by simpa using same)]

theorem size_tally (counts : Array Nat) (indices : List Nat) :
    (tally counts indices).size = counts.size := by
  induction indices generalizing counts with
  | nil => rfl
  | cons first rest ih => exact (ih _).trans Array.size_modify

/-- How often an object is held, by objects and from outside. -/
def strongCount (heap : Heap) (external : List Nat) (index : Nat) : Nat :=
  external.count index + heap.innerReferences.count index

theorem getElem?_strongCounts {index : Nat} (within : index < heap.size) :
    (heap.strongCounts external)[index]? = some (heap.strongCount external index) := by
  simp [strongCounts, getElem?_tally, within, strongCount]

theorem lt_of_object? {index : Nat} {object : Object} (here : heap.object? index = some object) :
    index < heap.size := by
  by_contra beyond
  simp only [size, not_lt] at beyond
  simp [object?, beyond] at here

theorem mem_referencesAt {index other : Nat} :
    other ∈ heap.referencesAt index ↔ ∃ object, heap.object? index = some object ∧
      (other ∈ object.references ∨ other ∈ heap.hidden index) := by
  cases here : heap.object? index <;> simp [referencesAt, here]

/-- The same object holds the same. -/
theorem referencesAt_congr {other : Heap} {index : Nat} (hidden : heap.hidden = other.hidden)
    (same : heap.object? index = other.object? index) :
    heap.referencesAt index = other.referencesAt index := by
  rw [referencesAt, referencesAt, hidden, same]

theorem mem_innerReferences {index : Nat} :
    index ∈ heap.innerReferences ↔ ∃ holder, index ∈ heap.referencesAt holder := by
  simp only [innerReferences, List.mem_flatMap, List.mem_range]
  constructor
  · rintro ⟨holder, _, refers⟩
    exact ⟨holder, refers⟩
  · rintro ⟨holder, refers⟩
    obtain ⟨object, here, _⟩ := mem_referencesAt.mp refers
    exact ⟨holder, lt_of_object? here, refers⟩

/-- Something holds the object, from outside or from the heap. -/
def IsHeld (heap : Heap) (external : List Nat) (index : Nat) : Prop :=
  index ∈ external ∨ ∃ holder, index ∈ heap.referencesAt holder

theorem strongCount_pos_iff {index : Nat} :
    0 < heap.strongCount external index ↔ heap.IsHeld external index := by
  rw [strongCount, Nat.add_pos_iff_pos_or_pos, List.count_pos_iff, List.count_pos_iff,
    mem_innerReferences, IsHeld]

/-! ## Removing an object -/

theorem object?_erase (index other : Nat) :
    (heap.erase index).object? other = if other = index then none else heap.object? other := by
  simp only [object?, erase, Array.getElem?_setIfInBounds]
  by_cases same : index = other
  · subst same
    by_cases within : index < heap.objects.size <;> simp [within]
  · simp [same, Ne.symm same]

@[simp]
theorem size_erase (index : Nat) : (heap.erase index).size = heap.size := by
  simp [size, erase]

theorem referencesAt_erase (index other : Nat) :
    (heap.erase index).referencesAt other =
      if other = index then [] else heap.referencesAt other := by
  by_cases same : other = index
  · simp [referencesAt, object?_erase, same]
  · rw [if_neg same]
    exact referencesAt_congr rfl ((object?_erase index other).trans (if_neg same))

/-- Without an object there are as many references less as it had. -/
theorem count_innerReferences_erase {index : Nat} (within : index < heap.size) (target : Nat) :
    (heap.erase index).innerReferences.count target + (heap.referencesAt index).count target =
      heap.innerReferences.count target := by
  obtain ⟨front, back, split⟩ := List.append_of_mem (List.mem_range.mpr within)
  have nodup : (front ++ index :: back).Nodup := split ▸ List.nodup_range
  have apart : index ∉ front ++ back := (List.nodup_middle.mp nodup).notMem
  have agree : ∀ list : List Nat, (∀ other ∈ list, other ∈ front ++ back) →
      list.flatMap (heap.erase index).referencesAt = list.flatMap heap.referencesAt := by
    intro list part
    apply List.flatMap_congr
    intro other member
    rw [referencesAt_erase, if_neg (ne_of_mem_of_not_mem (part other member) apart)]
  rw [innerReferences, innerReferences, size_erase, split, List.flatMap_append, List.flatMap_append,
    List.flatMap_cons, List.flatMap_cons, agree front (by simp +contextual),
    agree back (by simp +contextual), referencesAt_erase, if_pos rfl]
  simp only [List.count_append, List.count_nil]
  omega

/-! ## One step -/

/-- Objects that hold each other or are held from outside. -/
def KeepEachOther (heap : Heap) (external : List Nat) (kept : Nat → Prop) : Prop :=
  ∀ index, kept index → (heap.object? index).isSome ∧
    (index ∈ external ∨ ∃ holder, kept holder ∧ index ∈ heap.referencesAt holder)

/-- A heap from which some objects have been removed, none of them one of several that keep each
other. -/
structure IsPart (origin : Heap) (external : List Nat) (heap : Heap) : Prop where
  /-- No number is lost. -/
  size : heap.size = origin.size
  /-- The objects that are there are the same. -/
  same : ∀ index object, heap.object? index = some object → origin.object? index = some object
  /-- They hold the same beyond their contents. -/
  hidden : heap.hidden = origin.hidden
  /-- Objects that keep each other are there. -/
  keeps : ∀ kept, origin.KeepEachOther external kept →
    ∀ index, kept index → heap.object? index = origin.object? index

theorem IsPart.present {origin : Heap} {index : Nat}
    (part : IsPart origin external heap) (here : (heap.object? index).isSome) :
    (origin.object? index).isSome := by
  obtain ⟨object, here⟩ := Option.isSome_iff_exists.mp here
  exact Option.isSome_of_eq_some (part.same index object here)

theorem IsPart.refers {origin : Heap} {index : Nat}
    (part : IsPart origin external heap) (held : ∃ holder, index ∈ heap.referencesAt holder) :
    ∃ holder, (heap.object? holder).isSome ∧ index ∈ origin.referencesAt holder := by
  obtain ⟨holder, member⟩ := held
  obtain ⟨object, here, member⟩ := mem_referencesAt.mp member
  exact ⟨holder, Option.isSome_of_eq_some here,
    mem_referencesAt.mpr ⟨object, part.same holder object here, part.hidden ▸ member⟩⟩

/-- An object that nothing holds is not one of several that keep each other. -/
theorem IsPart.erase {origin : Heap} {index : Nat} (part : IsPart origin external heap)
    (unheld : ¬heap.IsHeld external index) : IsPart origin external (heap.erase index) where
  size := by rw [size_erase, part.size]
  same := by
    intro other object here
    rw [object?_erase] at here
    split at here
    · exact absurd here (by simp)
    · exact part.same other object here
  hidden := part.hidden
  keeps := by
    intro kept keep other member
    have different : other ≠ index := by
      rintro rfl
      apply unheld
      rcases (keep other member).2 with outside | ⟨holder, held, refers⟩
      · exact .inl outside
      · refine .inr ⟨holder, ?_⟩
        rwa [referencesAt_congr part.hidden (part.keeps kept keep holder held)]
    rw [object?_erase, if_neg different]
    exact part.keeps kept keep other member

namespace Releasing

/-- The numbers with a count. -/
def counted (state : Releasing) : Nat :=
  (List.range state.heap.size).countP fun index => decide (0 < state.counts.getD index 0)

/-- A release on its way, in which an object that has been removed still has to let go of the rest
of what it held. -/
structure Sound (origin : Heap) (external rest : List Nat) (state : Releasing) : Prop where
  /-- Part of the heap is left. -/
  part : IsPart origin external state.heap
  /-- The counts are exact. -/
  counts : ∀ index < state.heap.size,
    state.counts[index]? = some (state.heap.strongCount external index + rest.count index)
  /-- No object is pending twice. -/
  nodup : state.pending.Nodup
  /-- Nothing holds a pending object. -/
  idle : ∀ index ∈ state.pending, state.counts[index]? = some 0
  /-- All objects that nothing holds are pending. -/
  found : ∀ index, (state.heap.object? index).isSome → state.counts[index]? = some 0 →
    index ∈ state.pending
  /-- There are no further counts. -/
  bounded : state.counts.size = state.heap.size

variable {origin : Heap} {rest : List Nat} {state : Releasing}

theorem getElem?_counts_letGo (index other : Nat) :
    (state.letGo index).counts[other]? =
      if index = other then state.counts[other]?.map (· - 1) else state.counts[other]? := by
  rw [letGo, Array.getElem?_modify]

/-- The counts stay exact. -/
theorem Sound.counts_letGo {index : Nat} (sound : Sound origin external (index :: rest) state)
    (other : Nat) (within : other < state.heap.size) : (state.letGo index).counts[other]? =
      some (state.heap.strongCount external other + rest.count other) := by
  rw [getElem?_counts_letGo, sound.counts other within]
  by_cases same : index = other
  · subst same
    simp
  · simp [same]

theorem Sound.size_letGo (sound : Sound origin external rest state) (index : Nat) :
    (state.letGo index).counts.size = state.heap.size := by
  simp [Releasing.letGo, sound.bounded]

theorem Sound.lt_of_count {index count : Nat} (sound : Sound origin external rest state)
    (here : state.counts[index]? = some count) : index < state.heap.size := by
  rw [← sound.bounded]
  exact (Array.getElem?_eq_some_iff.mp here).1

/-- An object that loses its last count becomes pending. -/
theorem Sound.letGo_last {index : Nat} (sound : Sound origin external (index :: rest) state)
    (last : state.counts[index]? = some 1) :
    Sound origin external rest (state.letGo index) ∧
      (state.letGo index).counted + (state.letGo index).pending.length =
        state.counted + state.pending.length := by
  have pending : (state.letGo index).pending = index :: state.pending := by
    simp [Releasing.letGo, last]
  have gone : (state.letGo index).counts[index]? = some 0 := by
    simp [getElem?_counts_letGo, last]
  have fresh : index ∉ state.pending := by
    intro member
    rw [sound.idle index member] at last
    exact absurd last (by simp)
  refine ⟨⟨sound.part, sound.counts_letGo, ?_, ?_, ?_, sound.size_letGo index⟩, ?_⟩
  · rw [pending]
    exact List.nodup_cons.mpr ⟨fresh, sound.nodup⟩
  · intro other member
    rw [pending, List.mem_cons] at member
    rcases member with rfl | member
    · exact gone
    · rw [getElem?_counts_letGo, if_neg (ne_of_mem_of_not_mem member fresh).symm]
      exact sound.idle other member
  · intro other present zero
    rw [pending, List.mem_cons]
    by_cases same : index = other
    · exact .inl same.symm
    · rw [getElem?_counts_letGo, if_neg same] at zero
      exact .inr (sound.found other present zero)
  · have fewer : state.counted = (state.letGo index).counted + 1 := by
      apply countP_range_flip (sound.lt_of_count last)
      · simp [Array.getD_eq_getD_getElem?, last]
      · simp [Array.getD_eq_getD_getElem?, gone]
      · intro other different
        simp [Array.getD_eq_getD_getElem?, getElem?_counts_letGo, Ne.symm different]
    rw [pending, List.length_cons]
    omega

/-- A count that is not the last one stays above zero. -/
theorem Sound.counted_letGo_iff {index : Nat} (sound : Sound origin external (index :: rest) state)
    (further : state.counts[index]? ≠ some 1) {other : Nat} (within : other < state.heap.size) :
    0 < (state.letGo index).counts.getD other 0 ↔ 0 < state.counts.getD other 0 := by
  have exact := sound.counts other within
  simp only [Array.getD_eq_getD_getElem?, getElem?_counts_letGo]
  by_cases same : index = other
  · subst same
    rw [exact] at further ⊢
    simp only [List.count_cons_self, ne_eq, Option.some.injEq] at further
    simp only [if_true, Option.map_some, Option.getD_some, List.count_cons_self]
    omega
  · simp [same]

/-- An object that is held further stays as it is. -/
theorem Sound.letGo_further {index : Nat} (sound : Sound origin external (index :: rest) state)
    (further : state.counts[index]? ≠ some 1) :
    Sound origin external rest (state.letGo index) ∧
      (state.letGo index).counted + (state.letGo index).pending.length =
        state.counted + state.pending.length := by
  have pending : (state.letGo index).pending = state.pending := by
    simp [Releasing.letGo, further]
  refine ⟨⟨sound.part, sound.counts_letGo, ?_, ?_, ?_, sound.size_letGo index⟩, ?_⟩
  · rw [pending]
    exact sound.nodup
  · intro other member
    rw [pending] at member
    rw [getElem?_counts_letGo, sound.idle other member]
    simp
  · intro other present zero
    rw [pending]
    obtain ⟨object, here⟩ := Option.isSome_iff_exists.mp present
    have within : other < state.heap.size := lt_of_object? here
    have same := sound.counted_letGo_iff further within
    rw [Array.getD_eq_getD_getElem?, zero, Array.getD_eq_getD_getElem?,
      sound.counts other within] at same
    simp only [Option.getD_some, Nat.lt_irrefl, false_iff, Nat.not_lt, Nat.le_zero] at same
    refine sound.found other present ?_
    rw [sound.counts other within, same]
  · rw [pending, counted, counted]
    congr 1
    apply List.countP_congr
    intro other member
    simpa using sound.counted_letGo_iff further (List.mem_range.mp member)

/-- Letting go of an object keeps the counts exact; what becomes pending has lost its count. -/
theorem Sound.letGo {index : Nat} (sound : Sound origin external (index :: rest) state) :
    Sound origin external rest (state.letGo index) ∧
      (state.letGo index).counted + (state.letGo index).pending.length =
        state.counted + state.pending.length := by
  by_cases last : state.counts[index]? = some 1
  · exact sound.letGo_last last
  · exact sound.letGo_further last

/-- Letting go of all that an object held. -/
theorem Sound.letGoAll (sound : Sound origin external rest state) :
    Sound origin external [] (rest.foldl Releasing.letGo state) ∧
      (rest.foldl Releasing.letGo state).counted +
          (rest.foldl Releasing.letGo state).pending.length =
        state.counted + state.pending.length := by
  induction rest generalizing state with
  | nil => exact ⟨sound, rfl⟩
  | cons index rest ih =>
      obtain ⟨next, same⟩ := sound.letGo
      obtain ⟨last, sum⟩ := ih next
      exact ⟨last, sum.trans same⟩

/-- Removing a pending object takes it off the list and nothing else. -/
theorem Sound.discard {index : Nat} {pending : List Nat} (sound : Sound origin external [] state)
    (first : state.pending = index :: pending) :
    Sound origin external []
        (({ state with pending } : Releasing).discard index) ∧
      (({ state with pending } : Releasing).discard index).counted +
          (({ state with pending } : Releasing).discard index).pending.length + 1 =
        state.counted + state.pending.length := by
  have nodup := sound.nodup
  rw [first, List.nodup_cons] at nodup
  have idle := sound.idle index (by simp [first])
  have within : index < state.heap.size := sound.lt_of_count idle
  have unheld : ¬state.heap.IsHeld external index := by
    rw [← strongCount_pos_iff]
    have exact := sound.counts index within
    rw [idle] at exact
    simp at exact
    omega
  have erased : Sound origin external (state.heap.referencesAt index)
      { state with heap := state.heap.erase index, pending } := by
    refine ⟨sound.part.erase unheld, ?_, nodup.2, ?_, ?_, by simpa using sound.bounded⟩
    · intro other below
      rw [size_erase] at below
      have exact := sound.counts other below
      have fewer := count_innerReferences_erase within other
      simp only [strongCount, List.count_nil, Nat.add_zero] at exact ⊢
      rw [exact, Nat.add_assoc, fewer]
    · intro other member
      exact sound.idle other (by simp [first, member])
    · intro other present zero
      rw [object?_erase] at present
      by_cases same : other = index
      · simp [same] at present
      · rw [if_neg same] at present
        have member := sound.found other present zero
        simpa [first, same] using member
  obtain ⟨last, sum⟩ := erased.letGoAll
  refine ⟨last, ?_⟩
  have same : ({ state with heap := state.heap.erase index, pending } : Releasing).counted =
      state.counted := by simp [counted]
  rw [same] at sum
  rw [first, List.length_cons, ← Nat.add_assoc]
  exact congrArg (· + 1) sum

/-! ## All steps -/

theorem Sound.isHeld_of_done (sound : Sound origin external [] state) (done : state.pending = [])
    {index : Nat} (present : (state.heap.object? index).isSome) :
    state.heap.IsHeld external index := by
  obtain ⟨object, here⟩ := Option.isSome_iff_exists.mp present
  have exact := sound.counts index (lt_of_object? here)
  rw [← strongCount_pos_iff]
  by_contra zero
  rw [Nat.eq_zero_of_not_pos zero] at exact
  have member := sound.found index present exact
  rw [done] at member
  exact absurd member (by simp)

/-- The bound on the steps is enough to come to an end: then everything that is left is held. -/
theorem Sound.run {steps : Nat} (sound : Sound origin external [] state)
    (enough : state.counted + state.pending.length ≤ steps) :
    IsPart origin external (Releasing.run steps state) ∧
      ∀ index, ((Releasing.run steps state).object? index).isSome →
        (Releasing.run steps state).IsHeld external index := by
  induction steps generalizing state with
  | zero =>
      have done : state.pending = [] := List.length_eq_zero_iff.mp (by omega)
      exact ⟨sound.part, fun _ present => sound.isHeld_of_done done present⟩
  | succ steps ih =>
      cases first : state.pending with
      | nil =>
          rw [Releasing.run, first]
          exact ⟨sound.part, fun _ present => sound.isHeld_of_done first present⟩
      | cons index rest =>
          obtain ⟨next, sum⟩ := sound.discard first
          rw [Releasing.run, first]
          exact ih next (by omega)

/-- With exact counts all objects that nothing holds are pending at the start. -/
theorem sound_start (heap : Heap) (external : List Nat) :
    Sound heap external []
      ⟨heap, heap.strongCounts external, heap.unheld (heap.strongCounts external)⟩ where
  part := ⟨rfl, fun _ _ here => here, rfl, fun _ _ _ _ => rfl⟩
  counts := by
    intro index within
    simpa using getElem?_strongCounts within
  nodup := List.nodup_range.filter _
  idle := by
    intro index member
    have unheld := (List.mem_filter.mp member).2
    simp only [Bool.and_eq_true, beq_iff_eq] at unheld
    exact unheld.2
  found := by
    intro index present zero
    obtain ⟨object, here⟩ := Option.isSome_iff_exists.mp present
    have within : index < heap.size := lt_of_object? here
    simp [unheld, within, here, zero]
  bounded := by simp [strongCounts, size_tally]

theorem counted_start (heap : Heap) (counts : Array Nat) :
    (⟨heap, counts, heap.unheld counts⟩ : Releasing).counted + (heap.unheld counts).length ≤
      heap.size := by
  have split := List.length_eq_countP_add_countP
    (fun index => decide (0 < counts.getD index 0)) (l := List.range heap.size)
  have fewer : (heap.unheld counts).length ≤
      (List.range heap.size).countP fun index => ¬decide (0 < counts.getD index 0) := by
    rw [unheld, ← List.countP_eq_length_filter]
    apply List.countP_mono_left
    intro index _ unheld
    simp at unheld
    simp [Array.getD_eq_getD_getElem?, unheld.2]
  rw [List.length_range] at split
  simp only [counted]
  omega

end Releasing

/-- Every object is held. -/
def Settled (heap : Heap) (external : List Nat) : Prop :=
  ∀ index, (heap.object? index).isSome → heap.IsHeld external index

/-- A release leaves a part of the heap in which everything is held. -/
theorem release_spec (heap : Heap) (external : List Nat) :
    IsPart heap external (heap.release external) ∧ (heap.release external).Settled external :=
  (Releasing.sound_start heap external).run (Releasing.counted_start heap _)

/-- What an object that is left refers to is left. -/
theorem object?_release_of_mem {index other : Nat}
    (refers : other ∈ (heap.release external).referencesAt index) :
    (heap.release external).object? other = heap.object? other := by
  obtain ⟨part, settled⟩ := heap.release_spec external
  let left := fun index => (heap.object? index).isSome ∧
    (((heap.release external).object? index).isSome ∨
      ∃ holder, index ∈ (heap.release external).referencesAt holder)
  have inside : ∀ holder target, target ∈ (heap.release external).referencesAt holder →
      left holder ∧ target ∈ heap.referencesAt holder := by
    intro holder target refers
    obtain ⟨object, here, member⟩ := mem_referencesAt.mp refers
    have before := part.same holder object here
    exact ⟨⟨by simp [before], .inl (by simp [here])⟩,
      mem_referencesAt.mpr ⟨object, before, part.hidden ▸ member⟩⟩
  have keep : heap.KeepEachOther external left := by
    rintro target ⟨present, remains⟩
    refine ⟨present, ?_⟩
    have held : (heap.release external).IsHeld external target :=
      remains.elim (settled target) .inr
    rcases held with outside | ⟨holder, refers⟩
    · exact .inl outside
    · exact .inr ⟨holder, inside holder target refers⟩
  cases before : heap.object? other with
  | some object =>
      rw [← before]
      exact part.keeps left keep other ⟨by simp [before], .inr ⟨index, refers⟩⟩
  | none =>
      cases after : (heap.release external).object? other with
      | none => rfl
      | some object => exact absurd (part.same other object after) (by simp [before])

/-- Nothing is released where everything is held. -/
theorem Settled.release_eq (settled : heap.Settled external) : heap.release external = heap := by
  have none : heap.unheld (heap.strongCounts external) = [] := by
    rw [unheld, List.filter_eq_nil_iff]
    intro index member
    have within : index < heap.size := List.mem_range.mp member
    rw [getElem?_strongCounts within]
    cases here : heap.object? index with
    | none => simp
    | some object =>
        have held := strongCount_pos_iff.mpr (settled index (by simp [here]))
        simp
        omega
  rw [release, none]
  cases heap.size with
  | zero => rfl
  | succ steps => rfl

end ScriptMachine.Heap
