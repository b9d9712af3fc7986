import ScriptMachine.Heap.Basic

/-!
# Contents of objects

What creating and changing an object does to the contents of all objects.
-/

namespace ScriptMachine.Heap

variable {heap : Heap} {kind other : Kind}

theorem contentAs?_eq_some {object : Option Object} {content : Content kind} :
    contentAs? kind object = some content ↔ object = some ⟨kind, content⟩ := by
  cases object with
  | none => simp [contentAs?]
  | some object =>
      obtain ⟨own, held⟩ := object
      by_cases same : own = kind
      · subst same
        simp [contentAs?]
      · have differ : ¬ (⟨own, held⟩ : Object) = ⟨kind, content⟩ := by
          rintro ⟨⟩
          exact same rfl
        simp [contentAs?, same, differ]

theorem get?_eq_some {ref : Ref kind} {content : Content kind} :
    heap.get? ref = some content ↔ heap.object? ref.index = some ⟨kind, content⟩ :=
  contentAs?_eq_some

theorem get_of_get?_eq_some {ref : Ref kind} {content : Content kind}
    (found : heap.get? ref = some content) : heap.get ref = content := by
  rw [get, found, Option.getD_some]

theorem lt_size_of_get?_eq_some {ref : Ref kind} {content : Content kind}
    (found : heap.get? ref = some content) : ref.index < heap.size := by
  have here := get?_eq_some.mp found
  rw [object?] at here
  by_cases within : ref.index < heap.objects.size
  · exact within
  · simp [Nat.le_of_not_lt within] at here

/-! ## Creation -/

theorem object?_alloc (content : Content kind) (index : Nat) :
    (heap.alloc content).2.object? index =
      if index = heap.size then some ⟨kind, content⟩ else heap.object? index := by
  rw [alloc, object?, object?, Array.getElem?_push, size]
  split
  · simp
  · rfl

theorem size_alloc (content : Content kind) : (heap.alloc content).2.size = heap.size + 1 := by
  rw [alloc, size, Array.size_push, size]

theorem get?_alloc (content : Content kind) (ref : Ref kind) :
    (heap.alloc content).2.get? ref =
      if ref.index = heap.size then some content else heap.get? ref := by
  rw [get?, object?_alloc]
  split
  · exact contentAs?_eq_some.mpr rfl
  · rfl

theorem get?_alloc_of_ne (differ : other ≠ kind) (content : Content kind) (ref : Ref other) :
    (heap.alloc content).2.get? ref = heap.get? ref := by
  refine Option.ext fun found => ?_
  rw [get?_eq_some, get?_eq_some, object?_alloc]
  split
  · rename_i fresh
    have absent : heap.object? ref.index = none := by
      rw [object?, fresh, size]
      simp
    rw [absent]
    refine ⟨fun same => ?_, fun same => absurd same (by simp)⟩
    obtain ⟨rfl, _⟩ := Object.mk.inj (Option.some.inj same)
    exact absurd rfl differ
  · rfl

/-! ## Change -/

theorem size_modify (ref : Ref kind) (change : Content kind → Content kind) :
    (heap.modify ref change).size = heap.size := by
  rw [modify, size, size, Array.size_modify]

theorem object?_modify (ref : Ref kind) (change : Content kind → Content kind) (index : Nat) :
    (heap.modify ref change).object? index =
      if ref.index = index then changeContent change (heap.object? index)
      else heap.object? index := by
  rw [modify, object?, object?, Array.getElem?_modify]
  split
  · cases heap.objects[index]? with
    | none => rfl
    | some object => rfl
  · rfl

theorem get?_modify (ref target : Ref kind) (change : Content kind → Content kind) :
    (heap.modify ref change).get? target =
      if ref.index = target.index then (heap.get? target).map change else heap.get? target := by
  rw [get?, get?, object?_modify]
  split
  · cases heap.object? target.index with
    | none => rfl
    | some object =>
        obtain ⟨own, held⟩ := object
        by_cases same : own = kind
        · subst same
          simp [changeContent, contentAs?]
        · simp [changeContent, contentAs?, same]
  · rfl

theorem get?_modify_of_ne (differ : other ≠ kind) (ref : Ref kind)
    (change : Content kind → Content kind) (target : Ref other) :
    (heap.modify ref change).get? target = heap.get? target := by
  rw [get?, get?, object?_modify]
  split
  · cases heap.object? target.index with
    | none => rfl
    | some object =>
        obtain ⟨own, held⟩ := object
        by_cases same : own = kind
        · subst same
          simp [changeContent, contentAs?, differ.symm]
        · simp [changeContent, same]
  · rfl

theorem get?_set {kind : Kind} {ref : Ref kind} {content : Content kind}
    (found : heap.get? ref = some content) (changed : Content kind) (target : Ref kind) :
    (heap.set ref changed).get? target =
      if target = ref then some changed else heap.get? target := by
  rw [set, get?_modify]
  by_cases same : target = ref
  · rw [if_pos (by rw [same]), if_pos same, same, found, Option.map_some]
  · have apart : ¬ ref.index = target.index := by
      intro level
      cases ref
      cases target
      exact same (by simpa using level.symm)
    rw [if_neg apart, if_neg same]

end ScriptMachine.Heap
