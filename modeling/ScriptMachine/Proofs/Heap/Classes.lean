import Mathlib.Logic.Relation
import ScriptMachine.Heap.Inheritance
import ScriptMachine.Proofs.Heap.Content
import ScriptMachine.Proofs.Object.Members

/-!
# Classes and instances in the heap

A heap of classes and instances grows by creation and derivation of classes, by new members, by
assignments and by instantiation.  A class is derived from an older one, so its lineage has falling
numbers and an instantiation reaches all of it: a locked class has a locked base.  From then on the
map of the class stays as it is, and an instance has one value for each field of its class.
-/

namespace ScriptMachine.Heap

open Relation

variable {heap after later : Heap}

/-! ## Locking -/

theorem lineageFrom_succ (steps : Nat) (ref : Ref .cls) :
    heap.lineageFrom (steps + 1) (some ref) =
      ref :: heap.lineageFrom steps (heap.get ref : Class).base :=
  rfl

theorem mem_lineage_self {ref : Ref .cls} {cls : Class} (found : heap.get? ref = some cls) :
    ref ∈ heap.lineage ref := by
  have within := lt_size_of_get?_eq_some found
  obtain ⟨more, steps⟩ : ∃ more, heap.size = more + 1 := ⟨heap.size - 1, by omega⟩
  rw [lineage, steps, lineageFrom_succ]
  exact List.mem_cons_self

theorem get?_lockAll (refs : List (Ref .cls)) (heap : Heap) (target : Ref .cls) :
    (refs.foldl (fun (locked : Heap) (cls : Ref .cls) =>
      locked.modify cls fun own => { own with locked := true }) heap).get? target =
      (heap.get? target).map fun own : Class =>
        { own with locked := own.locked || decide (target ∈ refs) } := by
  induction refs generalizing heap with
  | nil => simp
  | cons ref rest ih =>
      rw [List.foldl_cons, ih, get?_modify]
      split
      · rename_i level
        have same : target = ref := by
          cases ref
          cases target
          simpa using level.symm
        rw [Option.map_map, same]
        congr 1
        funext own
        simp
      · rename_i differ
        have apart : target ≠ ref := fun same => differ (by rw [same])
        simp [apart]

theorem get?_lockClass (heap : Heap) (ref target : Ref .cls) :
    (heap.lockClass ref).get? target = (heap.get? target).map fun own : Class =>
      { own with locked := own.locked || decide (target ∈ heap.lineage ref) } :=
  get?_lockAll (heap.lineage ref) heap target

theorem get?_lockClass_of_ne {kind : Kind} (differ : kind ≠ .cls) (heap : Heap) (ref : Ref .cls)
    (target : Ref kind) : (heap.lockClass ref).get? target = heap.get? target := by
  rw [lockClass]
  generalize heap.lineage ref = refs
  induction refs generalizing heap with
  | nil => rfl
  | cons ref rest ih => rw [List.foldl_cons, ih, get?_modify_of_ne differ]

theorem size_lockClass (heap : Heap) (ref : Ref .cls) : (heap.lockClass ref).size = heap.size := by
  rw [lockClass]
  generalize heap.lineage ref = refs
  induction refs generalizing heap with
  | nil => rfl
  | cons ref rest ih => rw [List.foldl_cons, ih, size_modify]

/-! ## Instantiation -/

theorem get?_lockClass_self {ref : Ref .cls} {cls : Class} (found : heap.get? ref = some cls) :
    (heap.lockClass ref).get? ref = some { cls with locked := true } := by
  rw [get?_lockClass, found, Option.map_some]
  simp [mem_lineage_self found]

theorem get?_instantiate {ref : Ref .cls} {cls : Class} (found : heap.get? ref = some cls) :
    (heap.instantiate ref).2.get? ref = some { cls with locked := true } := by
  rw [instantiate, get?_alloc_of_ne (by decide)]
  exact get?_lockClass_self found

theorem get?_instantiate_of_ne {kind : Kind} (other : kind ≠ .cls) (differ : kind ≠ .inst)
    (heap : Heap) (ref : Ref .cls) (target : Ref kind) :
    (heap.instantiate ref).2.get? target = heap.get? target := by
  rw [instantiate, get?_alloc_of_ne differ]
  exact get?_lockClass_of_ne other heap ref target

/-! ## Steps -/

/-- What a program does with classes and instances, one use at a time. -/
inductive ClassStep (heap : Heap) : Heap → Prop
  /-- A class without a base. -/
  | create : ClassStep heap (heap.allocClass none).2
  /-- A class with all members of another. -/
  | derive {base : Ref .cls} {parent : Class} : heap.get? base = some parent →
      ClassStep heap (heap.allocClass (some base)).2
  /-- A member is added or replaced. -/
  | newSlot {ref : Ref .cls} {cls changed : Class} {key value : Value} :
      heap.get? ref = some cls → cls.newSlot key value = .ok changed →
      ClassStep heap (heap.set ref changed)
  /-- A member of a class is assigned. -/
  | assign {ref : Ref .cls} {cls changed : Class} {key value : Value} :
      heap.get? ref = some cls → cls.set? key value = some changed →
      ClassStep heap (heap.set ref changed)
  /-- An instance is created; whether its initialiser fails does not matter any more. -/
  | instantiate {ref : Ref .cls} {cls : Class} : heap.get? ref = some cls →
      ClassStep heap (heap.instantiate ref).2
  /-- A field of an instance is assigned. -/
  | assignField {object : Ref .inst} {own changed : Instance} {cls : Class} {key value : Value} :
      heap.get? object = some own → heap.get? own.cls = some cls →
      own.set? cls key value = some changed → ClassStep heap (heap.set object changed)
  /-- Other objects change, and objects go that nothing left refers to. -/
  | elsewhere {after : Heap} : heap.size ≤ after.size →
      (∀ (ref : Ref .cls) (cls : Class), after.get? ref = some cls →
        heap.get? ref = some cls ∧ ∀ base, cls.base = some base → after.get? base ≠ none) →
      (∀ (object : Ref .inst) (own : Instance), after.get? object = some own →
        heap.get? object = some own ∧ after.get? own.cls ≠ none) →
      ClassStep heap after

/-- A heap that has been built up from nothing. -/
abbrev Formed (heap : Heap) : Prop := ReflTransGen ClassStep {} heap

/-- What every use of classes and instances keeps. -/
structure LaidOut (heap : Heap) : Prop where
  /-- Places and hooks follow the members. -/
  follows : ∀ {ref : Ref .cls} {cls : Class}, heap.get? ref = some cls → cls.Follows
  /-- A base is older than what is derived from it, and locked with it. -/
  base : ∀ {ref base : Ref .cls} {cls : Class}, heap.get? ref = some cls →
    cls.base = some base → base.index < ref.index ∧
      ∃ parent : Class, heap.get? base = some parent ∧ (cls.locked = true → parent.locked = true)
  /-- An instance has a value for each field of its class, which is locked. -/
  fields : ∀ {object : Ref .inst} {own : Instance}, heap.get? object = some own →
    ∃ cls : Class, heap.get? own.cls = some cls ∧ cls.locked = true ∧
      own.fields.size = cls.defaults.size

theorem mem_lineageFrom_base (laid : heap.LaidOut) {target base : Ref .cls} {cls : Class}
    (found : heap.get? target = some cls) (derived : cls.base = some base) :
    ∀ (steps : Nat) (start : Option (Ref .cls)), (∀ first, start = some first →
      first.index < steps) → target ∈ heap.lineageFrom steps start →
      base ∈ heap.lineageFrom steps start := by
  intro steps
  induction steps with
  | zero =>
      intro start _ member
      simp [lineageFrom] at member
  | succ steps ih =>
      intro start below member
      cases start with
      | none => simp [lineageFrom] at member
      | some first =>
          have within := below first rfl
          rw [lineageFrom_succ, List.mem_cons] at member ⊢
          right
          rcases member with rfl | further
          · have older := (laid.base found derived).1
            obtain ⟨fewer, rfl⟩ : ∃ fewer, steps = fewer + 1 := ⟨steps - 1, by omega⟩
            rw [get_of_get?_eq_some found, derived, lineageFrom_succ]
            exact List.mem_cons_self
          · refine ih _ ?_ further
            intro second here
            cases present : heap.get? first with
            | none =>
                rw [get, present] at here
                cases here
            | some own =>
                rw [get_of_get?_eq_some present] at here
                have older := (laid.base present here).1
                omega

theorem mem_lineage_base (laid : heap.LaidOut) {ref target base : Ref .cls} {own cls : Class}
    (start : heap.get? ref = some own) (member : target ∈ heap.lineage ref)
    (found : heap.get? target = some cls) (derived : cls.base = some base) :
    base ∈ heap.lineage ref := by
  refine mem_lineageFrom_base laid found derived heap.size (some ref) ?_ member
  intro first same
  cases same
  exact lt_size_of_get?_eq_some start

namespace LaidOut

theorem empty : LaidOut {} := by
  have absent : ∀ {kind : Kind} (ref : Ref kind), ({} : Heap).get? ref = none := fun _ => rfl
  refine ⟨fun found => ?_, fun found => ?_, fun found => ?_⟩
  all_goals
    rw [absent] at found
    cases found

/-- A new class that has an older class as its base. -/
theorem allocClass (laid : heap.LaidOut) {cls : Class} (follows : cls.Follows)
    (isOpen : cls.locked = false)
    (base : ∀ base, cls.base = some base → ∃ parent : Class, heap.get? base = some parent) :
    (@alloc .cls heap cls).2.LaidOut := by
  have kept : ∀ {ref : Ref .cls} {own : Class}, heap.get? ref = some own →
      (@alloc .cls heap cls).2.get? ref = some own := by
    intro ref own found
    have within := lt_size_of_get?_eq_some found
    rw [get?_alloc, if_neg (by omega), found]
  refine ⟨?_, ?_, ?_⟩
  · intro ref own found
    rw [get?_alloc] at found
    split at found
    · cases found
      exact follows
    · exact laid.follows found
  · intro ref above own found derived
    rw [get?_alloc] at found
    split at found
    · rename_i fresh
      cases found
      obtain ⟨parent, present⟩ := base above derived
      refine ⟨?_, parent, kept present, fun locked => ?_⟩
      · rw [fresh]
        exact lt_size_of_get?_eq_some present
      · rw [isOpen] at locked
        cases locked
    · obtain ⟨older, parent, present, locked⟩ := laid.base found derived
      exact ⟨older, parent, kept present, locked⟩
  · intro object own found
    rw [get?_alloc_of_ne (by decide)] at found
    obtain ⟨above, present, locked, size⟩ := laid.fields found
    exact ⟨above, kept present, locked, size⟩

/-- A new instance of a locked class. -/
theorem allocInstance (laid : heap.LaidOut) {ref : Ref .cls} {cls : Class}
    (found : heap.get? ref = some cls) (locked : cls.locked = true) :
    (@alloc .inst heap (.ofClass ref cls)).2.LaidOut := by
  have classes : ∀ target : Ref .cls,
      (@alloc .inst heap (.ofClass ref cls)).2.get? target = heap.get? target :=
    get?_alloc_of_ne (by decide) _
  refine ⟨?_, ?_, ?_⟩
  · intro target own here
    rw [classes] at here
    exact laid.follows here
  · intro target above own here derived
    rw [classes] at here
    simp only [classes]
    exact laid.base here derived
  · intro object own here
    simp only [classes]
    rw [get?_alloc] at here
    split at here
    · cases here
      exact ⟨cls, found, locked, rfl⟩
    · exact laid.fields here

/-- A class gets other members or values, but no other fields once it is locked. -/
theorem setClass (laid : heap.LaidOut) {ref : Ref .cls} {cls changed : Class}
    (found : heap.get? ref = some cls) (follows : changed.Follows)
    (base : changed.base = cls.base) (locked : changed.locked = cls.locked)
    (defaults : cls.locked = true → changed.defaults.size = cls.defaults.size) :
    (heap.set ref changed).LaidOut := by
  have carried : ∀ {target : Ref .cls} {own : Class}, heap.get? target = some own →
      ∃ next : Class, (heap.set ref changed).get? target = some next ∧
        next.locked = own.locked ∧
          (own.locked = true → next.defaults.size = own.defaults.size) := by
    intro target own here
    rw [get?_set found]
    split
    · rename_i same
      rw [same, found] at here
      cases here
      exact ⟨changed, rfl, locked, defaults⟩
    · exact ⟨own, here, rfl, fun _ => rfl⟩
  refine ⟨?_, ?_, ?_⟩
  · intro target own here
    rw [get?_set found] at here
    split at here
    · cases here
      exact follows
    · exact laid.follows here
  · intro target above own here derived
    have before : ∃ old : Class, heap.get? target = some old ∧ old.base = some above ∧
        old.locked = own.locked := by
      rw [get?_set found] at here
      split at here
      · rename_i same
        cases here
        exact ⟨cls, same ▸ found, base ▸ derived, locked.symm⟩
      · exact ⟨own, here, derived, rfl⟩
    obtain ⟨old, present, oldBase, oldLocked⟩ := before
    obtain ⟨older, parent, above, together⟩ := laid.base present oldBase
    obtain ⟨next, here, same, _⟩ := carried above
    exact ⟨older, next, here, fun isLocked => same.trans (together (oldLocked.trans isLocked))⟩
  · intro object own here
    rw [set, get?_modify_of_ne (by decide)] at here
    obtain ⟨above, present, isLocked, size⟩ := laid.fields here
    obtain ⟨next, found, same, sizes⟩ := carried present
    exact ⟨next, found, same.trans isLocked, size.trans (sizes isLocked).symm⟩

theorem lockClass (laid : heap.LaidOut) {ref : Ref .cls} {start : Class}
    (exists_start : heap.get? ref = some start) : (heap.lockClass ref).LaidOut := by
  refine ⟨?_, ?_, ?_⟩
  · intro target own here
    rw [get?_lockClass, Option.map_eq_some_iff] at here
    obtain ⟨old, found, rfl⟩ := here
    exact (laid.follows found).congr rfl rfl rfl rfl rfl
  · intro target above own here derived
    rw [get?_lockClass, Option.map_eq_some_iff] at here
    obtain ⟨old, found, rfl⟩ := here
    obtain ⟨older, parent, present, together⟩ := laid.base found derived
    refine ⟨older, _, by rw [get?_lockClass, present, Option.map_some], fun locked => ?_⟩
    simp only [Bool.or_eq_true, decide_eq_true_eq] at locked ⊢
    exact locked.imp together fun member => mem_lineage_base laid exists_start member found derived
  · intro object own here
    rw [get?_lockClass_of_ne (by decide)] at here
    obtain ⟨cls, found, locked, size⟩ := laid.fields here
    exact ⟨{ cls with locked := cls.locked || decide (own.cls ∈ heap.lineage ref) },
      by rw [get?_lockClass, found, Option.map_some], by simp [locked], size⟩

theorem instantiate (laid : heap.LaidOut) {ref : Ref .cls} {cls : Class}
    (found : heap.get? ref = some cls) : (heap.instantiate ref).2.LaidOut := by
  have present := get?_lockClass_self found
  have own : (heap.lockClass ref).get ref = { cls with locked := true } :=
    get_of_get?_eq_some present
  rw [Heap.instantiate, own]
  exact (laid.lockClass found).allocInstance present rfl

theorem setInstance (laid : heap.LaidOut) {object : Ref .inst} {own changed : Instance}
    (found : heap.get? object = some own) (cls : changed.cls = own.cls)
    (fields : changed.fields.size = own.fields.size) : (heap.set object changed).LaidOut := by
  have classes : ∀ target : Ref .cls, (heap.set object changed).get? target = heap.get? target :=
    get?_modify_of_ne (by decide) _ _
  refine ⟨?_, ?_, ?_⟩
  · intro target above here
    rw [classes] at here
    exact laid.follows here
  · intro target above here
    simp only [classes]
    exact laid.base
  · intro target next here
    simp only [classes]
    rw [get?_set found] at here
    split at here
    · cases here
      rw [cls, fields]
      exact laid.fields found
    · exact laid.fields here

theorem step (laid : heap.LaidOut) (step : ClassStep heap after) : after.LaidOut := by
  cases step with
  | create => exact laid.allocClass .empty rfl (fun _ none => by cases none)
  | @derive base parent found =>
      rw [Heap.allocClass, get_of_get?_eq_some found]
      exact laid.allocClass ((laid.follows found).congr rfl rfl rfl rfl rfl) rfl
        (fun _ same => by cases same; exact ⟨parent, found⟩)
  | newSlot found added =>
      have edited := Class.edited_of_newSlot added
      have isOpen := (Class.open_of_newSlot added).1
      exact laid.setClass found ((laid.follows found).edited edited) edited.base_eq
        edited.locked_eq (fun locked => by rw [isOpen] at locked; cases locked)
  | assign found assigned =>
      have edited := Class.edited_of_set? assigned
      exact laid.setClass found ((laid.follows found).edited edited) edited.base_eq
        edited.locked_eq (fun _ => (Class.frozen_of_set? assigned).2)
  | instantiate found => exact laid.instantiate found
  | assignField found _ assigned =>
      obtain ⟨cls, fields⟩ := Instance.frozen_of_set? assigned
      exact laid.setInstance found cls fields
  | elsewhere _ classes instances =>
      refine ⟨fun here => laid.follows (classes _ _ here).1, ?_, ?_⟩
      · intro target above own here derived
        obtain ⟨found, bases⟩ := classes _ _ here
        obtain ⟨older, parent, present, together⟩ := laid.base found derived
        obtain ⟨still, here⟩ := Option.ne_none_iff_exists'.mp (bases above derived)
        have same := (classes _ _ here).1
        rw [present] at same
        cases same
        exact ⟨older, parent, here, together⟩
      · intro object own here
        obtain ⟨found, stays⟩ := instances _ _ here
        obtain ⟨cls, present, locked, size⟩ := laid.fields found
        obtain ⟨still, here⟩ := Option.ne_none_iff_exists'.mp stays
        have same := (classes _ _ here).1
        rw [present] at same
        cases same
        exact ⟨cls, here, locked, size⟩

theorem of_formed (formed : heap.Formed) : heap.LaidOut := by
  induction formed with
  | refl => exact .empty
  | tail _ next ih => exact ih.step next

end LaidOut

/-! ## Locked classes -/

/-- A class that was locked is still so, with the same map, unless it has gone for good. -/
structure Frozen (ref : Ref .cls) (cls : Class) (heap : Heap) : Prop where
  /-- The number is taken. -/
  within : ref.index < heap.size
  /-- The class is locked and maps the same keys to the same places. -/
  kept : ∀ {own : Class}, heap.get? ref = some own → own.locked = true ∧ own.members = cls.members

namespace Frozen

variable {ref : Ref .cls} {cls : Class}

/-- Nothing happens to the class itself. -/
theorem carried (frozen : heap.Frozen ref cls) (size : heap.size ≤ after.size)
    (same : ∀ {own : Class}, after.get? ref = some own → ∃ old : Class,
      heap.get? ref = some old ∧ own.members = old.members ∧
        (old.locked = true → own.locked = true)) : after.Frozen ref cls where
  within := Nat.lt_of_lt_of_le frozen.within size
  kept := by
    intro own here
    obtain ⟨old, found, members, stays⟩ := same here
    obtain ⟨locked, kept⟩ := frozen.kept found
    exact ⟨stays locked, members.trans kept⟩

theorem alloc {kind : Kind} (frozen : heap.Frozen ref cls) (content : Content kind) :
    (heap.alloc content).2.Frozen ref cls := by
  refine frozen.carried (by rw [size_alloc]; omega) fun {own} here => ⟨own, ?_, rfl, id⟩
  have old : ref.index ≠ heap.size := Nat.ne_of_lt frozen.within
  by_cases same : kind = .cls
  · subst same
    rwa [get?_alloc, if_neg old] at here
  · rwa [get?_alloc_of_ne (Ne.symm same)] at here

theorem lockClass (frozen : heap.Frozen ref cls) (start : Ref .cls) :
    (heap.lockClass start).Frozen ref cls := by
  refine frozen.carried (by rw [size_lockClass]) fun {own} here => ?_
  rw [get?_lockClass, Option.map_eq_some_iff] at here
  obtain ⟨old, found, rfl⟩ := here
  exact ⟨old, found, rfl, fun locked => by simp [locked]⟩

theorem setClass (frozen : heap.Frozen ref cls) {target : Ref .cls} {old changed : Class}
    (found : heap.get? target = some old)
    (kept : old.locked = true → changed.members = old.members ∧ changed.locked = true) :
    (heap.set target changed).Frozen ref cls := by
  refine frozen.carried (by rw [set, size_modify]) fun {own} here => ?_
  rw [get?_set found] at here
  split at here
  · rename_i same
    cases here
    have locked := (frozen.kept (same ▸ found)).1
    exact ⟨old, same ▸ found, (kept locked).1, fun _ => (kept locked).2⟩
  · exact ⟨own, here, rfl, id⟩

theorem step (frozen : heap.Frozen ref cls) (step : ClassStep heap after) :
    after.Frozen ref cls := by
  cases step with
  | create => exact frozen.alloc _
  | derive _ => exact frozen.alloc _
  | newSlot found added =>
      refine frozen.setClass found fun locked => ?_
      rw [(Class.open_of_newSlot added).1] at locked
      cases locked
  | assign found assigned =>
      have edited := Class.edited_of_set? assigned
      exact frozen.setClass found fun locked =>
        ⟨(Class.frozen_of_set? assigned).1, edited.locked_eq.trans locked⟩
  | instantiate _ => exact (frozen.lockClass _).alloc _
  | assignField _ _ _ =>
      refine frozen.carried (by rw [set, size_modify]) fun {own} here => ⟨own, ?_, rfl, id⟩
      rwa [set, get?_modify_of_ne (by decide)] at here
  | elsewhere size classes _ =>
      exact frozen.carried size fun {own} here => ⟨own, (classes ref own here).1, rfl, id⟩

theorem run (frozen : heap.Frozen ref cls) (evolves : ReflTransGen ClassStep heap later) :
    later.Frozen ref cls := by
  induction evolves with
  | refl => exact frozen
  | tail _ next ih => exact ih.step next

end Frozen

/-- What instantiation freezes. -/
structure LayoutFrozen (heap : Heap) : Prop where
  /-- The base of a locked class is locked. -/
  base_locked : ∀ (ref base : Ref .cls) (cls : Class), heap.get? ref = some cls →
    cls.locked = true → cls.base = some base →
    ∃ parent : Class, heap.get? base = some parent ∧ parent.locked = true
  /-- A locked class stays locked and keeps its map, whatever is done later. -/
  members_kept : ∀ (ref : Ref .cls) (cls : Class), heap.get? ref = some cls →
    cls.locked = true → ∀ (later : Heap) (own : Class), ReflTransGen ClassStep heap later →
    later.get? ref = some own → own.locked = true ∧ own.members = cls.members
  /-- A locked class takes no new member. -/
  refused : ∀ (ref : Ref .cls) (cls : Class), heap.get? ref = some cls → cls.locked = true →
    ∀ key value, cls.newSlot key value = .error .lockedClass
  /-- A key leads to a place that exists. -/
  place_exists : ∀ (ref : Ref .cls) (cls : Class), heap.get? ref = some cls →
    ∀ key member, cls.member? key = some member → ∃ value, cls.valueAt? member = some value
  /-- Different keys lead to different places. -/
  places_apart : ∀ (ref : Ref .cls) (cls : Class), heap.get? ref = some cls →
    ∀ key other member, cls.member? key = some member → cls.member? other = some member →
      key.sameKey other = true
  /-- An instance has as many values as its class has fields. -/
  size_eq : ∀ (object : Ref .inst) (own : Instance), heap.get? object = some own →
    ∃ cls : Class, heap.get? own.cls = some cls ∧ own.fields.size = cls.defaults.size
  /-- Reading a field of an instance never misses. -/
  get_field : ∀ (object : Ref .inst) (own : Instance) (cls : Class),
    heap.get? object = some own → heap.get? own.cls = some cls →
    ∀ key index, cls.member? key = some (.field index) →
      ∃ found, own.get? cls key = some found
  /-- Assigning a field of an instance changes this field of this instance alone. -/
  set_field : ∀ (object : Ref .inst) (own : Instance) (cls : Class),
    heap.get? object = some own → heap.get? own.cls = some cls →
    ∀ key index value, cls.member? key = some (.field index) →
      ∃ changed : Instance, own.set? cls key value = some changed ∧
        (heap.set object changed).get? object = some changed ∧
        changed.get? cls key = some value ∧
        (∀ other, key.sameKey other = false → changed.get? cls other = own.get? cls other) ∧
        (∀ ref : Ref .cls, (heap.set object changed).get? ref = heap.get? ref) ∧
        ∀ other : Ref .inst, other ≠ object →
          (heap.set object changed).get? other = heap.get? other

/-- In a heap built up by any uses of classes and instances, instantiation has frozen the layout of
every class that it has locked. -/
theorem layoutFrozen_of_formed (formed : heap.Formed) : heap.LayoutFrozen := by
  have laid := LaidOut.of_formed formed
  have fieldsOf : ∀ {object : Ref .inst} {own : Instance} {cls : Class},
      heap.get? object = some own → heap.get? own.cls = some cls →
      own.fields.size = cls.defaults.size := by
    intro object own cls found present
    obtain ⟨same, here, _, size⟩ := laid.fields found
    rw [present] at here
    cases here
    exact size
  refine ⟨?_, ?_, ?_, ?_, ?_, ?_, ?_, ?_⟩
  · intro ref base cls found locked derived
    obtain ⟨_, parent, present, together⟩ := laid.base found derived
    exact ⟨parent, present, together locked⟩
  · intro ref cls found locked later own evolves here
    have frozen : heap.Frozen ref cls := by
      refine ⟨lt_size_of_get?_eq_some found, fun {same} present => ?_⟩
      rw [found] at present
      cases present
      exact ⟨locked, rfl⟩
    exact (frozen.run evolves).kept here
  · intro ref cls _ locked
    exact Class.newSlot_of_locked locked
  · intro ref cls found key member leads
    exact (laid.follows found).placed.holds leads
  · intro ref cls found key other member first second
    exact (laid.follows found).placed.apart first second
  · intro object own found
    obtain ⟨cls, present, _, size⟩ := laid.fields found
    exact ⟨cls, present, size⟩
  · intro object own cls found present key index isField
    exact Instance.exists_get? (laid.follows present).placed (fieldsOf found present) isField
  · intro object own cls found present key index value isField
    obtain ⟨changed, assigned, read, others⟩ :=
      Instance.exists_set? (laid.follows present).placed (fieldsOf found present) isField value
    refine ⟨changed, assigned, ?_, read, others, ?_, fun other differ => ?_⟩
    · rw [get?_set found, if_pos rfl]
    · exact get?_modify_of_ne (by decide) _ _
    · rw [get?_set found, if_neg differ]

/-- A class with a field, a class derived from it, and an instance of that. -/
theorem layoutFrozen_derived :
    let base := ({} : Class).addField (.integer 7) (.integer 1)
    let classes :=
      ((({} : Heap).allocClass none).2.set (⟨0⟩ : Ref .cls) base).allocClass (some ⟨0⟩)
    (classes.2.instantiate ⟨1⟩).2.LayoutFrozen := by
  intro base classes
  have created : Formed (({} : Heap).allocClass none).2 := .single .create
  have added : ({} : Class).newSlot (.integer 7) (.integer 1) = .ok base := rfl
  have found : (({} : Heap).allocClass none).2.get? (⟨0⟩ : Ref .cls) = some ({} : Class) := rfl
  have extended := created.tail (.newSlot found added)
  have derived : classes.2.Formed := extended.tail (.derive rfl)
  exact layoutFrozen_of_formed (derived.tail (.instantiate rfl))

/-- Hooks and initialiser of a class that the heap has come to hold.  A reserved name that is not
given to a field has its method as the hook, the initialiser likewise; so the only way to keep a
function that is no member any more is to give its name to a field, which leaves hooks and
initialiser as they were. -/
theorem hooks_follow {ref : Ref .cls} {cls : Class} (formed : heap.Formed)
    (found : heap.get? ref = some cls) :
    (∀ hook : Hook, (∀ index, cls.member? (.ofText hook.name) ≠ some (.field index)) →
        ∀ value, cls.hook? hook = some value ↔ ∃ index,
          cls.member? (.ofText hook.name) = some (.method index) ∧
            cls.methods[index]? = some value ∧ value ≠ .null) ∧
      ((∀ index, cls.member? (.ofText Class.initializerName) ≠ some (.field index)) →
        ∀ value, cls.initializer? = some value ↔ ∃ index,
          cls.member? (.ofText Class.initializerName) = some (.method index) ∧
            cls.methods[index]? = some value) ∧
      (∀ (hook : Hook) (field : Nat) (value : Value),
        cls.member? (.ofText hook.name) = some (.field field) → cls.hook? hook = some value →
          ∃ index, cls.methods[index]? = some value ∧
            ∀ key, cls.member? key ≠ some (.method index)) ∧
      (∀ (field : Nat) (value : Value),
        cls.member? (.ofText Class.initializerName) = some (.field field) →
          cls.initializer? = some value →
          ∃ index, cls.methods[index]? = some value ∧
            ∀ key, cls.member? key ≠ some (.method index)) ∧
      ∀ (key value : Value) (index : Nat) (changed : Class),
        cls.member? key = some (.method index) → value.isCallable = false →
          cls.newSlot key value = .ok changed →
          changed.member? key = some (.field cls.defaults.size) ∧
            changed.hook? = cls.hook? ∧ changed.initializer? = cls.initializer? := by
  have follows := (LaidOut.of_formed formed).follows found
  refine ⟨follows.hook?_eq_some_iff, follows.initializer?_eq_some_iff, ?_, ?_, ?_⟩
  · intro hook field value isField kept
    exact follows.orphan_of_hook? isField kept
  · intro field value isField kept
    exact follows.orphan_of_initializer? isField kept
  · intro key value index changed isMethod plain added
    exact Class.newSlot_demotes isMethod plain added

/-- A class whose sum is a function, which is its hook. -/
theorem hooks_follow_sum :
    let cls := (({} : Class).addMethod (.ofText "_add") (.native ⟨9⟩)).recordHook (.ofText "_add")
      (.native ⟨9⟩)
    cls.hook? .add = some (.native ⟨9⟩) ↔ ∃ index,
      cls.member? (.ofText "_add") = some (.method index) ∧
        cls.methods[index]? = some (.native ⟨9⟩) ∧ Value.native ⟨9⟩ ≠ .null := by
  intro cls
  have created : Formed (({} : Heap).allocClass none).2 := .single .create
  have added : ({} : Class).newSlot (.ofText "_add") (.native ⟨9⟩) = .ok cls := rfl
  have found : (({} : Heap).allocClass none).2.get? (⟨0⟩ : Ref .cls) = some ({} : Class) := rfl
  have formed := created.tail (.newSlot found added)
  have present : ((({} : Heap).allocClass none).2.set (⟨0⟩ : Ref .cls) cls).get?
      (⟨0⟩ : Ref .cls) = some cls := rfl
  have isMethod : cls.member? (.ofText "_add") = some (.method 0) := by decide +kernel
  refine (hooks_follow formed present).1 .add (fun index isField => ?_) (.native ⟨9⟩)
  rw [show Hook.name .add = "_add" from rfl, isMethod] at isField
  cases isField

end ScriptMachine.Heap
