import ScriptMachine.Proofs.Heap.Collection
import ScriptMachine.Proofs.Heap.Content

/-!
# What is left of objects

Releasing removes objects and changes none; a collection empties some first.  What is held from
outside stays, and a thread that is being run has nothing to give up.
-/

namespace ScriptMachine.Heap

variable {heap : Heap} {kind : Kind} {ref : Ref kind} {content : Content kind}

theorem get?_of_get?_release {external : List Nat}
    (found : (heap.release external).get? ref = some content) : heap.get? ref = some content := by
  rw [get?_eq_some] at found ⊢
  exact (heap.release_spec external).1.same _ _ found

theorem get?_emptyUnmarked {marked : Array Bool}
    (found : (heap.emptyUnmarked marked).get? ref = some content) :
    ∃ former : Content kind, heap.get? ref = some former ∧
      (content = former ∨ content = former.emptied) := by
  rw [get?_eq_some, object?_emptyUnmarked] at found
  split at found
  · exact ⟨content, get?_eq_some.mpr found, .inl rfl⟩
  · obtain ⟨object, here, same⟩ := Option.map_eq_some_iff.mp found
    obtain ⟨own, former⟩ := object
    obtain ⟨rfl, rfl⟩ : own = kind ∧ HEq former.emptied content := by
      simpa [Object.emptied] using same
    exact ⟨former, get?_eq_some.mpr here, .inr rfl⟩

theorem get?_closure_emptyUnmarked {marked : Array Bool} {ref : Ref .closure} {closure : Closure}
    (found : heap.get? ref = some closure) :
    (heap.emptyUnmarked marked).get? ref = some closure := by
  rw [get?_eq_some] at found ⊢
  rw [object?_emptyUnmarked, found]
  split
  · rfl
  · rfl

theorem size_emptyUnmarked (marked : Array Bool) :
    (heap.emptyUnmarked marked).size = heap.size := by
  rw [emptyUnmarked, size, size, Array.size_mapIdx]

theorem size_collect (external lent : List Nat) :
    (heap.collect external lent).2.size = heap.size := by
  rw [collect, (Heap.release_spec _ external).1.size, size_emptyUnmarked,
    (heap.release_spec external).1.size]

theorem get?_collect {external lent : List Nat}
    (found : (heap.collect external lent).2.get? ref = some content) :
    ∃ former : Content kind, heap.get? ref = some former ∧
      (content = former ∨ content = former.emptied) := by
  obtain ⟨former, there, same⟩ := get?_emptyUnmarked (get?_of_get?_release found)
  exact ⟨former, get?_of_get?_release there, same⟩

theorem object?_release_of_mem_external {external : List Nat} {index : Nat}
    (held : index ∈ external) : (heap.release external).object? index = heap.object? index := by
  obtain ⟨part, _⟩ := heap.release_spec external
  cases here : heap.object? index with
  | some object =>
      have keep : heap.KeepEachOther external (· = index) := by
        rintro _ rfl
        exact ⟨by simp [here], .inl held⟩
      exact (part.keeps _ keep index rfl).trans here
  | none =>
      cases left : (heap.release external).object? index with
      | none => rfl
      | some object => exact absurd (part.same index object left) (by simp [here])

/-- A thread that is held while it is being run stays through a collection. -/
theorem get?_collect_of_lent {external lent : List Nat} {ref : Ref .thread}
    (held : ref.index ∈ external) (found : heap.get? ref = some none) :
    (heap.collect external lent).2.get? ref = some none := by
  rw [get?_eq_some] at found ⊢
  have settled : (heap.release external).object? ref.index = some ⟨.thread, none⟩ :=
    (object?_release_of_mem_external held).trans found
  rw [collect, object?_release_of_mem_external held, object?_emptyUnmarked, settled]
  split
  · rfl
  · rfl

/-! ## Lost objects -/

/-- There has been an object with the number, and it has been released. -/
def Lost (heap : Heap) (index : Nat) : Prop := index < heap.size ∧ heap.object? index = none

/-- The objects that one heap has lost are lost in the other one. -/
def LostIn (before after : Heap) : Prop := ∀ index, before.Lost index → after.Lost index

theorem LostIn.trans {before between after : Heap} (first : before.LostIn between)
    (second : between.LostIn after) : before.LostIn after :=
  fun index lost => second index (first index lost)

theorem isSome_of_not_lost {index : Nat} (within : index < heap.size) (left : ¬heap.Lost index) :
    (heap.object? index).isSome := by
  rw [Option.isSome_iff_ne_none]
  exact fun none => left ⟨within, none⟩

theorem lostIn_alloc (heap : Heap) (content : Content kind) :
    heap.LostIn (heap.alloc content).2 := by
  rintro index ⟨within, none⟩
  refine ⟨?_, ?_⟩
  · rw [size_alloc]
    exact Nat.lt_succ_of_lt within
  · rw [object?_alloc, if_neg (Nat.ne_of_lt within), none]

theorem lostIn_modify (heap : Heap) (ref : Ref kind) (change : Content kind → Content kind) :
    heap.LostIn (heap.modify ref change) := by
  rintro index ⟨within, none⟩
  refine ⟨?_, ?_⟩
  · rw [size_modify]
    exact within
  · rw [object?_modify, none]
    split <;> rfl

/-- A heap in which only objects of another heap are left, at their numbers. -/
theorem LostIn.of_part {before after : Heap} (size : after.size = before.size)
    (left : ∀ index, (after.object? index).isSome → (before.object? index).isSome) :
    before.LostIn after := by
  rintro index ⟨within, none⟩
  refine ⟨size ▸ within, Option.not_isSome_iff_eq_none.mp fun here => ?_⟩
  simpa [none] using left index here

theorem lostIn_release (heap : Heap) (external : List Nat) :
    heap.LostIn (heap.release external) := by
  obtain ⟨part, _⟩ := heap.release_spec external
  exact .of_part part.size fun _ => part.present

theorem lostIn_trimmed (heap : Heap) (external lent : List Nat) :
    heap.LostIn (heap.trimmed external lent) :=
  .of_part (size_emptyUnmarked _) fun _ here => object?_isSome_trimmed ▸ here

theorem lostIn_collect (heap : Heap) (external lent : List Nat) :
    heap.LostIn (heap.collect external lent).2 :=
  ((heap.lostIn_release external).trans (lostIn_trimmed _ external lent)).trans
    (lostIn_release _ external)

/-! ## Holders outside the heap -/

/-- The objects at all numbers are the same, and so is what they hold beyond their contents. -/
theorem eq_of_object? {other : Heap} (size : heap.size = other.size)
    (hidden : heap.hidden = other.hidden)
    (same : ∀ index, heap.object? index = other.object? index) : heap = other := by
  obtain ⟨objects, beyond⟩ := heap
  obtain ⟨others, _⟩ := other
  obtain rfl := hidden
  refine congrArg (Heap.mk · beyond) (Array.ext size fun index within inside => ?_)
  have here := same index
  rw [object?, object?, Array.getElem?_eq_getElem within, Array.getElem?_eq_getElem inside] at here
  exact here

section

variable {external other : List Nat} (fewer : external ⊆ other)

include fewer

/-- It does not matter if something that is not lost is held from outside as well. -/
theorem release_eq_of_left (more : ∀ index ∈ other,
      index ∈ external ∨ ¬(heap.release external).Lost index) :
    heap.release other = heap.release external := by
  obtain ⟨part, settled⟩ := heap.release_spec external
  obtain ⟨part', settled'⟩ := heap.release_spec other
  -- What either release leaves keeps each other in the one of fewer holders.
  have either : heap.KeepEachOther external fun index =>
      ((heap.release other).object? index).isSome ∨
        ((heap.release external).object? index).isSome := by
    have left : ∀ index, ((heap.release external).object? index).isSome →
        index ∈ external ∨ ∃ holder, (((heap.release other).object? holder).isSome ∨
          ((heap.release external).object? holder).isSome) ∧
            index ∈ heap.referencesAt holder := by
      intro index here
      refine (settled index here).imp_right fun held => ?_
      obtain ⟨holder, there, member⟩ := part.refers held
      exact ⟨holder, .inr there, member⟩
    rintro index (here | here)
    · refine ⟨part'.present here, ?_⟩
      rcases settled' index here with outside | held
      · obtain ⟨object, here⟩ := Option.isSome_iff_exists.mp here
        have within : index < (heap.release external).size :=
          Nat.lt_of_lt_of_eq (lt_of_object? here) (part'.size.trans part.size.symm)
        exact (more index outside).elim .inl fun kept => left index (isSome_of_not_lost within kept)
      · obtain ⟨holder, there, member⟩ := part'.refers held
        exact .inr ⟨holder, .inl there, member⟩
    · exact ⟨part.present here, left index here⟩
  have fewest : heap.KeepEachOther other fun index =>
      ((heap.release external).object? index).isSome := fun index here =>
    ⟨part.present here, (settled index here).imp (@fewer index) part.refers⟩
  refine eq_of_object? (part'.size.trans part.size.symm) (part'.hidden.trans part.hidden.symm)
    fun index => Option.ext fun object => ⟨fun here => ?_, fun here => ?_⟩
  · rw [part.keeps _ either index (.inl (Option.isSome_of_eq_some here))]
    exact part'.same index object here
  · rw [part'.keeps _ fewest index (Option.isSome_of_eq_some here)]
    exact part.same index object here

theorem Reachable.mono {lent : List Nat} {index : Nat}
    (reachable : Reachable heap external lent index) : Reachable heap other lent index := by
  induction reachable with
  | held here outside => exact .held here (fewer outside)
  | lent here why => exact .lent here why
  | withheld withheld here => exact .withheld withheld here
  | step _ reports here ih => exact .step ih reports here

omit fewer in
theorem Reachable.of_more {lent : List Nat}
    (more : ∀ index object, heap.object? index = some object → index ∈ other →
      index ∈ external ∨ Reachable heap external lent index) {index : Nat}
    (reachable : Reachable heap other lent index) : Reachable heap external lent index := by
  induction reachable with
  | held here outside => exact (more _ _ here outside).elim (.held here) id
  | lent here why => exact .lent here why
  | withheld withheld here => exact .withheld withheld here
  | step _ reports here ih => exact .step ih reports here

/-- It does not matter if something that is neither freed nor lost is held from outside as well. -/
theorem collect_eq_of_left {lent : List Nat} (more : ∀ index ∈ other, index ∈ external ∨
      ¬(heap.collect external lent).2.Lost index ∧ index ∉ (heap.collect external lent).1) :
    heap.collect other lent = heap.collect external lent := by
  let live := heap.release external
  have trims : live.LostIn (live.trimmed external lent) := lostIn_trimmed live external lent
  have released : heap.release other = live :=
    release_eq_of_left fewer fun index outside => (more index outside).imp_right fun kept lost =>
      kept.1 (lostIn_release _ external index (trims index lost))
  have reached : ∀ index object, live.object? index = some object → index ∈ other →
      index ∈ external ∨ Reachable live external lent index := by
    refine fun index object here outside => (more index outside).imp_right fun kept => ?_
    by_contra unreachable
    exact kept.2 (mem_collect.mpr ⟨Option.isSome_of_eq_some here, unreachable⟩)
  have marked : ∀ index : Nat, ((live.reached other lent)[index]? = some true) =
      ((live.reached external lent)[index]? = some true) := by
    refine fun index => propext ?_
    rw [getElem?_reached_iff, getElem?_reached_iff]
    exact ⟨.of_more reached, .mono fewer⟩
  have trimmed : live.trimmed other lent = live.trimmed external lent := by
    simp only [Heap.trimmed, emptyUnmarked, marked]
  have freed : live.unmarkedObjects (live.reached other lent) =
      live.unmarkedObjects (live.reached external lent) := by
    refine List.filter_congr fun index _ => ?_
    rw [Bool.eq_iff_iff]
    simp only [Bool.and_eq_true, bne_iff_ne, ne_eq, marked]
  rw [collect, collect, released, freed]
  refine Prod.ext rfl ?_
  show (live.trimmed other lent).release other = _
  rw [trimmed]
  exact release_eq_of_left fewer fun index outside => (more index outside).imp_right And.left

end

end ScriptMachine.Heap
