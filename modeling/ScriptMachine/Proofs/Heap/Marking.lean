import ScriptMachine.Proofs.Heap.Reports

/-!
# What the collector marks

Taking away the references that objects report leaves a count to the objects that are held from
outside or otherwise than by reports, so the roots are these objects, what is lent and the threads
that are being run.  `getElem?_reached_iff` says that the marks are exact: the marked objects are
those that can be reached from the roots along the references that objects report.
-/

namespace ScriptMachine.Heap

variable {heap : Heap} {external lent : List Nat}

/-- The object can be reached from one that is lent or being run, or that is held from outside, by
what is lent, or by an object beyond its content. -/
inductive Reachable (heap : Heap) (external lent : List Nat) : Nat → Prop
  /-- The object is held from outside. -/
  | held {index : Nat} {object : Object} :
      heap.object? index = some object → index ∈ external → Reachable heap external lent index
  /-- The object is lent or being run. -/
  | lent {index : Nat} {object : Object} :
      heap.object? index = some object → index ∈ lent ∨ object.isBusy = true →
      Reachable heap external lent index
  /-- An object holds it and does not report it. -/
  | withheld {holder index : Nat} {object : Object} :
      index ∈ heap.withheldAt lent holder → heap.object? index = some object →
      Reachable heap external lent index
  /-- An object that can be reached reports it. -/
  | step {index other : Nat} {object : Object} :
      Reachable heap external lent index → other ∈ heap.reportedAt index →
      heap.object? other = some object → Reachable heap external lent other

theorem Reachable.exists_object {index : Nat} (reachable : Reachable heap external lent index) :
    ∃ object, heap.object? index = some object := by
  cases reachable with
  | held here => exact ⟨_, here⟩
  | lent here => exact ⟨_, here⟩
  | withheld _ here => exact ⟨_, here⟩
  | step _ _ here => exact ⟨_, here⟩

/-- Whatever an object that can be reached holds can be reached. -/
theorem Reachable.holds {index other : Nat} {object : Object}
    (reachable : Reachable heap external lent index) (refers : other ∈ heap.referencesAt index)
    (here : heap.object? other = some object) : Reachable heap external lent other := by
  rcases List.mem_append.mp ((heap.referencesAt_perm lent index).subset refers)
    with reported | withheld
  · exact reachable.step (mem_reportedBy.mp reported).2 here
  · exact .withheld withheld here

/-! ## Roots -/

theorem getElem?_untally (counts : Array Nat) (indices : List Nat) (index : Nat) :
    (untally counts indices)[index]? = counts[index]?.map (· - indices.count index) := by
  induction indices generalizing counts with
  | nil => simp [untally]
  | cons first rest ih =>
      have step := ih (counts.modify first (· - 1))
      rw [untally] at step ⊢
      rw [List.foldl_cons, step, Array.getElem?_modify]
      by_cases same : first = index
      · subst same
        cases counts[first]? with
        | none => simp
        | some count => simp; omega
      · rw [if_neg same, List.count_cons_of_ne (by simpa using same)]

/-- The references to an object are reported or withheld. -/
theorem count_references_split (heap : Heap) (lent indices : List Nat) (target : Nat) :
    (indices.flatMap heap.referencesAt).count target =
      (indices.flatMap (heap.reportedBy lent)).count target +
        (indices.flatMap (heap.withheldAt lent)).count target := by
  induction indices with
  | nil => rfl
  | cons index rest ih =>
      have split := (heap.referencesAt_perm lent index).count_eq target
      rw [List.count_append] at split
      simp only [List.flatMap_cons, List.count_append, ih, split]
      omega

/-- What is left of a count is what is held from outside or withheld. -/
theorem trialCount_pos_iff {index : Nat} (within : index < heap.size) :
    (heap.trialCounts external lent)[index]?.any (0 < ·) = true ↔
      index ∈ external ∨ ∃ holder, index ∈ heap.withheldAt lent holder := by
  have split := count_references_split heap lent (List.range heap.size) index
  have withheld : 0 < ((List.range heap.size).flatMap (heap.withheldAt lent)).count index ↔
      ∃ holder, index ∈ heap.withheldAt lent holder := by
    rw [List.count_pos_iff, List.mem_flatMap]
    constructor
    · rintro ⟨holder, _, member⟩
      exact ⟨holder, member⟩
    · rintro ⟨holder, member⟩
      obtain ⟨object, here, _⟩ := mem_referencesAt.mp (mem_withheldAt.mp member).1
      exact ⟨holder, List.mem_range.mpr (lt_of_object? here), member⟩
  rw [trialCounts, getElem?_untally, getElem?_strongCounts within, ← withheld,
    ← List.count_pos_iff]
  simp only [Option.map_some, Option.any_some, decide_eq_true_eq, strongCount, innerReferences]
  omega

/-- The roots are the objects that are held from outside, lent, being run or withheld. -/
theorem mem_roots_iff {index : Nat} :
    index ∈ heap.roots external lent ↔
      ∃ object, heap.object? index = some object ∧
        (index ∈ lent ∨ object.isBusy = true ∨ index ∈ external ∨
          ∃ holder, index ∈ heap.withheldAt lent holder) := by
  rw [roots, List.mem_filter, List.mem_range]
  cases here : heap.object? index with
  | none => simp
  | some object =>
      have within : index < heap.size := lt_of_object? here
      simp [within, trialCount_pos_iff within, or_assoc]

theorem Reachable.of_root {index : Nat} (root : index ∈ heap.roots external lent) :
    Reachable heap external lent index := by
  obtain ⟨object, here, isLent | isBusy | outside | ⟨holder, withheld⟩⟩ := mem_roots_iff.mp root
  · exact .lent here (.inl isLent)
  · exact .lent here (.inr isBusy)
  · exact .held here outside
  · exact .withheld withheld here

/-- A set with the roots and all that its members report has everything that can be reached. -/
theorem Reachable.mem_of_closed (marked : Nat → Prop)
    (rooted : ∀ index ∈ heap.roots external lent, marked index)
    (closed : ∀ index, marked index → ∀ other ∈ heap.reportedBy lent index,
      (heap.object? other).isSome → marked other)
    {index : Nat} (reachable : Reachable heap external lent index) : marked index := by
  induction reachable with
  | held here outside => exact rooted _ (mem_roots_iff.mpr ⟨_, here, by simp [outside]⟩)
  | lent here why =>
      refine rooted _ (mem_roots_iff.mpr ⟨_, here, ?_⟩)
      rcases why with isLent | isBusy
      · exact .inl isLent
      · exact .inr (.inl isBusy)
  | withheld member here =>
      exact rooted _ (mem_roots_iff.mpr ⟨_, here, .inr (.inr (.inr ⟨_, member⟩))⟩)
  | @step index other object _ reports here ih =>
      by_cases isLent : index ∈ lent
      · -- What is lent does not report the object, which is a root for that.
        have withheld := mem_withheldAt.mpr ⟨mem_referencesAt_of_reported reports, .inl isLent⟩
        exact rooted _ (mem_roots_iff.mpr ⟨_, here, .inr (.inr (.inr ⟨index, withheld⟩))⟩)
      · exact closed index ih other (mem_reportedBy.mpr ⟨isLent, reports⟩) (by simp [here])

/-! ## Visiting -/

/-- The numbers that are not marked. -/
def unmarked (marked : Array Bool) : Nat :=
  (List.range marked.size).countP fun index => marked[index]? == some false

/-- What visiting some objects does to the marks and the list of work. -/
structure Visited (heap : Heap) (children : List Nat) (before after : Array Bool × List Nat) :
    Prop where
  /-- No number is lost. -/
  size : after.1.size = before.1.size
  /-- Marks stay. -/
  stays : ∀ index : Nat, before.1[index]? = some true → after.1[index]? = some true
  /-- The objects that have been visited are marked. -/
  marks : ∀ index ∈ children, index < before.1.size → (heap.object? index).isSome →
    after.1[index]? = some true
  /-- New marks belong to these objects, and they are to be worked on. -/
  fresh : ∀ index : Nat, after.1[index]? = some true → before.1[index]? = some true ∨
    index ∈ children ∧ (heap.object? index).isSome ∧ index ∈ after.2
  /-- Work is not lost. -/
  listed : ∀ index ∈ before.2, index ∈ after.2
  /-- New work is marked. -/
  added : ∀ index ∈ after.2, index ∈ before.2 ∨ after.1[index]? = some true
  /-- For every new mark there is one more object to work on. -/
  sum : unmarked after.1 + after.2.length = unmarked before.1 + before.2.length

theorem visited_one (heap : Heap) (state : Array Bool × List Nat) (child : Nat) :
    Visited heap [child] state (mark.visit heap state child) := by
  by_cases isNew : state.1[child]? = some false ∧ (heap.object? child).isSome
  · obtain ⟨unmarked, present⟩ := isNew
    have within : child < state.1.size := by
      by_contra beyond
      rw [Array.getElem?_eq_none (by omega)] at unmarked
      exact absurd unmarked (by simp)
    have shape : mark.visit heap state child =
        (state.1.setIfInBounds child true, child :: state.2) := by
      simp [mark.visit, unmarked, present]
    have marks : ∀ index, (state.1.setIfInBounds child true)[index]? =
        if child = index then some true else state.1[index]? := by
      intro index
      rw [Array.getElem?_setIfInBounds]
      by_cases same : child = index
      · simp [same, same ▸ within]
      · simp [same]
    rw [shape]
    refine ⟨by simp, ?_, ?_, ?_, ?_, ?_, ?_⟩
    · intro index marked
      simp [marks, marked]
    · intro index member _ _
      simp [marks, List.mem_singleton.mp member]
    · intro index marked
      by_cases same : child = index
      · subst same
        exact .inr ⟨by simp, present, by simp⟩
      · rw [marks, if_neg same] at marked
        exact .inl marked
    · intro index member
      exact List.mem_cons_of_mem child member
    · intro index member
      rcases List.mem_cons.mp member with rfl | member
      · exact .inr (by simp [marks])
      · exact .inl member
    · have fewer :
          Heap.unmarked state.1 = Heap.unmarked (state.1.setIfInBounds child true) + 1 := by
        rw [Heap.unmarked, Heap.unmarked, Array.size_setIfInBounds]
        apply countP_range_flip within
        · simp [unmarked]
        · simp [marks]
        · intro other different
          simp [marks, Ne.symm different]
      simp only [List.length_cons]
      omega
  · have shape : mark.visit heap state child = state := by
      rw [mark.visit, if_neg isNew]
    rw [shape]
    refine ⟨rfl, fun _ marked => marked, ?_, fun _ marked => .inl marked, fun _ member => member,
      fun _ member => .inl member, rfl⟩
    intro index member within present
    obtain rfl := List.mem_singleton.mp member
    cases mark : state.1[index] with
    | true => simp [within, mark]
    | false => exact absurd ⟨by simp [within, mark], present⟩ isNew

theorem visited_foldl (heap : Heap) (children : List Nat) (state : Array Bool × List Nat) :
    Visited heap children state (children.foldl (mark.visit heap) state) := by
  induction children generalizing state with
  | nil =>
      exact ⟨rfl, fun _ marked => marked, by simp, fun _ marked => .inl marked,
        fun _ member => member, fun _ member => .inl member, rfl⟩
  | cons child rest ih =>
      have first := visited_one heap state child
      have later := ih (mark.visit heap state child)
      rw [List.foldl_cons]
      refine ⟨later.size.trans first.size, fun _ marked => later.stays _ (first.stays _ marked),
        ?_, ?_, fun _ member => later.listed _ (first.listed _ member), ?_,
        later.sum.trans first.sum⟩
      · intro index member within present
        rcases List.mem_cons.mp member with rfl | member
        · exact later.stays _ (first.marks _ (by simp) within present)
        · exact later.marks _ member (by rwa [first.size]) present
      · intro index marked
        rcases later.fresh index marked with marked | ⟨member, present, work⟩
        · rcases first.fresh index marked with marked | ⟨member, present, work⟩
          · exact .inl marked
          · refine .inr ⟨?_, present, later.listed index work⟩
            simp [List.mem_singleton.mp member]
        · exact .inr ⟨List.mem_cons_of_mem child member, present, work⟩
      · intro index member
        rcases later.added index member with member | marked
        · rcases first.added index member with member | marked
          · exact .inl member
          · exact .inr (later.stays index marked)
        · exact .inr marked

/-! ## Marking -/

/-- Marks on their way: what has been marked can be reached, and what it reports is marked unless
it is still to be worked on. -/
structure Marking (heap : Heap) (external lent : List Nat) (marked : Array Bool) (work : List Nat) :
    Prop where
  /-- There is a mark for every number. -/
  size : marked.size = heap.size
  /-- What is marked can be reached. -/
  sound : ∀ index : Nat, marked[index]? = some true → Reachable heap external lent index
  /-- The roots are marked. -/
  rooted : ∀ index ∈ heap.roots external lent, marked[index]? = some true
  /-- Work is marked. -/
  listed : ∀ index ∈ work, marked[index]? = some true
  /-- What a marked object reports is marked, unless the object is to be worked on. -/
  closed : ∀ index : Nat, marked[index]? = some true → index ∈ work ∨
    ∀ other ∈ heap.reportedBy lent index, (heap.object? other).isSome → marked[other]? = some true

variable {marked : Array Bool} {work : List Nat}

theorem Marking.step {index : Nat} (marking : Marking heap external lent marked (index :: work))
    {after : Array Bool × List Nat}
    (visited : Visited heap (heap.reportedBy lent index) (marked, work) after) :
    Marking heap external lent after.1 after.2 := by
  have reachable := marking.sound index (marking.listed index (by simp))
  refine ⟨visited.size.trans marking.size, ?_, ?_, ?_, ?_⟩
  · intro other mark
    rcases visited.fresh other mark with mark | ⟨member, present, _⟩
    · exact marking.sound other mark
    · obtain ⟨object, here⟩ := Option.isSome_iff_exists.mp present
      exact .step reachable (mem_reportedBy.mp member).2 here
  · intro root member
    exact visited.stays root (marking.rooted root member)
  · intro other member
    rcases visited.added other member with member | mark
    · exact visited.stays other (marking.listed other (by simp [member]))
    · exact mark
  · intro other mark
    rcases visited.fresh other mark with mark | ⟨_, _, member⟩
    · rcases marking.closed other mark with member | done
      · rcases List.mem_cons.mp member with rfl | member
        · -- The object that has just been worked on: all that it reports has been visited.
          right
          intro child reported present
          obtain ⟨object, here⟩ := Option.isSome_iff_exists.mp present
          exact visited.marks child reported
            (by rw [marking.size]; exact lt_of_object? here) present
        · exact .inl (visited.listed other member)
      · exact .inr fun child reported present => visited.stays child (done child reported present)
    · exact .inl member

/-- Marking comes to an end within the bound on its steps, with a mark on what can be reached. -/
theorem Marking.getElem?_mark_iff {steps : Nat}
    (marking : Marking heap external lent marked work)
    (enough : unmarked marked + work.length ≤ steps) (index : Nat) :
    (heap.mark lent steps marked work)[index]? = some true ↔
      Reachable heap external lent index := by
  have finished : ∀ marked, Marking heap external lent marked [] →
      (marked[index]? = some true ↔ Reachable heap external lent index) := by
    intro marked marking
    refine ⟨marking.sound index, ?_⟩
    intro reachable
    refine reachable.mem_of_closed (fun index => marked[index]? = some true) marking.rooted ?_
    intro index mark
    exact (marking.closed index mark).resolve_left (by simp)
  induction steps generalizing marked work with
  | zero =>
      obtain rfl : work = [] := List.length_eq_zero_iff.mp (by omega)
      rw [mark]
      exact finished marked marking
  | succ steps ih =>
      cases work with
      | nil =>
          rw [mark]
          · exact finished marked marking
          · simp
      | cons first rest =>
          have visited := visited_foldl heap (heap.reportedBy lent first) (marked, rest)
          have sum := visited.sum
          simp only [List.length_cons] at enough sum
          rw [mark]
          exact ih (marking.step visited) (by omega)

/-! ## The start -/

theorem getElem?_foldl_set (indices : List Nat) (marked : Array Bool) (index : Nat) :
    (indices.foldl (fun marked index => marked.setIfInBounds index true) marked)[index]? =
      if index ∈ indices then marked[index]?.map fun _ => true else marked[index]? := by
  induction indices generalizing marked with
  | nil => simp
  | cons first rest ih =>
      rw [List.foldl_cons, ih, Array.getElem?_setIfInBounds]
      by_cases same : first = index
      · subst same
        by_cases within : first < marked.size <;> simp [within]
      · simp [same, Ne.symm same]

theorem size_foldl_set (indices : List Nat) (marked : Array Bool) :
    (indices.foldl (fun marked index => marked.setIfInBounds index true) marked).size =
      marked.size := by
  induction indices generalizing marked with
  | nil => rfl
  | cons first rest ih => exact (ih _).trans Array.size_setIfInBounds

/-- The marks are on the objects that can be reached. -/
theorem getElem?_reached_iff (index : Nat) :
    (heap.reached external lent)[index]? = some true ↔ Reachable heap external lent index := by
  let start := (heap.roots external lent).foldl
    (fun marked index => marked.setIfInBounds index true) (Array.replicate heap.size false)
  have marks : ∀ index < heap.size,
      start[index]? = some (decide (index ∈ heap.roots external lent)) := by
    intro index within
    rw [getElem?_foldl_set]
    by_cases root : index ∈ heap.roots external lent <;> simp [root, within]
  have size : start.size = heap.size := by
    rw [size_foldl_set, Array.size_replicate]
  have onRoots : ∀ index : Nat, start[index]? = some true ↔ index ∈ heap.roots external lent := by
    intro index
    by_cases within : index < heap.size
    · simp [marks index within]
    · rw [Array.getElem?_eq_none (by omega)]
      simp only [reduceCtorEq, false_iff]
      intro root
      exact within (List.mem_range.mp (List.mem_filter.mp root).1)
  have marking : Marking heap external lent start (heap.roots external lent) := by
    refine ⟨size, ?_, fun index root => (onRoots index).mpr root,
      fun index root => (onRoots index).mpr root, fun index mark => .inl ((onRoots index).mp mark)⟩
    intro index mark
    exact .of_root ((onRoots index).mp mark)
  refine marking.getElem?_mark_iff ?_ index
  -- The numbers without a mark and the roots share the numbers among them.
  have split := List.length_eq_countP_add_countP
    (fun index => decide (index ∈ heap.roots external lent)) (l := List.range heap.size)
  have bare : unmarked start = (List.range heap.size).countP
      fun index => ¬decide (index ∈ heap.roots external lent) := by
    rw [unmarked, size]
    apply List.countP_congr
    intro index member
    simp [marks index (List.mem_range.mp member)]
  have taken : (heap.roots external lent).length = (List.range heap.size).countP
      fun index => decide (index ∈ heap.roots external lent) := by
    rw [roots, ← List.countP_eq_length_filter]
    apply List.countP_congr
    intro index member
    simp [List.mem_range.mp member]
  rw [List.length_range] at split
  omega

end ScriptMachine.Heap
