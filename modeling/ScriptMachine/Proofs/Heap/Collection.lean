import Mathlib.Data.Set.Card
import ScriptMachine.Proofs.ChainedMap.Rebuild
import ScriptMachine.Proofs.Heap.Marking

/-!
# The collector is exact

What the collector empties keeps few references: those of closures to cells, of generators to
closures and of instances to classes, and whatever it holds beyond its content.  Each of the first
leads to an object of a kind of lower rank, so that they close no circle, and what is held beyond
the content of an object has been marked; so the release that follows frees everything that has been
emptied.  With it go the references that it held beyond its content.  `collect_exact` puts this
together with the exactness of the marks: what is left is the largest part of the marked objects in
which every object is held.
-/

namespace ScriptMachine

/-! ## Emptied objects -/

/-- The references that an object keeps when it is emptied, with the kinds they lead to. -/
def Content.kept : {kind : Kind} → Content kind → List (Kind × Nat)
  | .closure, (closure : Closure) => closure.cells.toList.map fun cell => (.cell, cell.index)
  | .generator, (generator : Generator) => [(.closure, generator.closure.index)]
  | .inst, (object : Instance) => [(.cls, object.cls.index)]
  | _, _ => []

/-- References that are kept lead to kinds of lower rank. -/
def Kind.rank : Kind → Nat
  | .generator => 2
  | .closure | .inst => 1
  | _ => 0

theorem Kind.rank_lt_three (kind : Kind) : kind.rank < 3 := by
  cases kind <;> decide

theorem Content.rank_lt_of_mem_kept {kind target : Kind} {content : Content kind} {index : Nat}
    (member : (target, index) ∈ content.kept) : target.rank < kind.rank := by
  cases kind with
  | closure =>
      simp only [Content.kept, List.mem_map, Prod.mk.injEq] at member
      obtain ⟨_, _, rfl, _⟩ := member
      decide
  | generator =>
      simp only [Content.kept, List.mem_singleton, Prod.mk.injEq] at member
      obtain ⟨rfl, _⟩ := member
      decide
  | inst =>
      simp only [Content.kept, List.mem_singleton, Prod.mk.injEq] at member
      obtain ⟨rfl, _⟩ := member
      decide
  | _ => simp [Content.kept] at member

theorem Content.mem_references_of_mem_kept {kind target : Kind} {content : Content kind}
    {index : Nat} (member : (target, index) ∈ content.kept) : index ∈ content.references := by
  cases kind with
  | closure =>
      simp only [Content.kept, List.mem_map, Prod.mk.injEq] at member
      obtain ⟨cell, inside, _, rfl⟩ := member
      exact List.mem_map.mpr ⟨cell, inside, rfl⟩
  | generator =>
      simp only [Content.kept, List.mem_singleton, Prod.mk.injEq] at member
      simp [Content.references, member.2]
  | inst =>
      simp only [Content.kept, List.mem_singleton, Prod.mk.injEq] at member
      simp [Content.references, member.2]
  | _ => simp [Content.kept] at member

/-- An emptied object refers to nothing but what it keeps. -/
theorem Content.references_emptied {kind : Kind} (content : Content kind) :
    content.emptied.references = content.kept.map (·.2) := by
  rw [← Content.reported_eq]
  cases kind with
  | table =>
      have bare : (Table.entries content).clear.entries = [] := ChainedMap.entries_ofSize _
      simp [Content.emptied, Content.reported, Content.kept, bare]
  | array => rfl
  | cell => rfl
  | closure => simp [Content.emptied, Content.reported, Content.kept]
  | native => rfl
  | generator => rfl
  | cls =>
      have bare : (Class.members content).clear.entries = [] := ChainedMap.entries_ofSize _
      simp [Content.emptied, Content.reported, Content.kept, bare, Value.allReported,
        Value.reported, Value.address?]
  | inst => rfl
  | userdata => rfl
  | thread =>
      cases content with
      | none => rfl
      | some fiber => rfl

namespace Heap

/-- The references that an object keeps lead to objects of the kinds they name. -/
def WellKinded (heap : Heap) : Prop :=
  ∀ index object, heap.object? index = some object →
    ∀ kind target, (kind, target) ∈ object.content.kept →
      ∃ content : Content kind, heap.object? target = some ⟨kind, content⟩

variable {heap : Heap} {external lent : List Nat}

theorem object?_emptyUnmarked (marked : Array Bool) (index : Nat) :
    (heap.emptyUnmarked marked).object? index =
      if marked[index]? = some true then heap.object? index
      else (heap.object? index).map Object.emptied := by
  simp only [object?, emptyUnmarked, Array.getElem?_mapIdx]
  cases heap.objects[index]? with
  | none => simp
  | some object => by_cases mark : marked[index]? = some true <;> simp [mark]

/-! ## Survivors -/

/-- The heap in which everything that is not marked has been emptied. -/
def trimmed (heap : Heap) (external lent : List Nat) : Heap :=
  heap.emptyUnmarked (heap.reached external lent)

theorem hidden_trimmed (heap : Heap) (external lent : List Nat) :
    (heap.trimmed external lent).hidden = heap.hidden := rfl

theorem object?_trimmed_of_reachable {index : Nat}
    (reachable : Reachable heap external lent index) :
    (heap.trimmed external lent).object? index = heap.object? index := by
  rw [trimmed, object?_emptyUnmarked, if_pos ((getElem?_reached_iff index).mpr reachable)]

theorem object?_trimmed_of_not_reachable {index : Nat}
    (unreachable : ¬Reachable heap external lent index) :
    (heap.trimmed external lent).object? index = (heap.object? index).map Object.emptied := by
  rw [trimmed, object?_emptyUnmarked, if_neg (by rwa [getElem?_reached_iff])]

theorem object?_isSome_trimmed {index : Nat} :
    ((heap.trimmed external lent).object? index).isSome = (heap.object? index).isSome := by
  rw [trimmed, object?_emptyUnmarked]
  split
  · rfl
  · exact Option.isSome_map

/-- Objects that can be reached and keep each other survive. -/
theorem object?_release_trimmed {kept : Nat → Prop}
    (reachable : ∀ index, kept index → Reachable heap external lent index)
    (keep : heap.KeepEachOther external kept) {index : Nat} (member : kept index) :
    ((heap.trimmed external lent).release external).object? index = heap.object? index := by
  have same : ∀ index, kept index →
      (heap.trimmed external lent).object? index = heap.object? index :=
    fun index member => object?_trimmed_of_reachable (reachable index member)
  have stay : (heap.trimmed external lent).KeepEachOther external kept := by
    intro index member
    obtain ⟨present, outside | ⟨holder, among, refers⟩⟩ := keep index member
    · exact ⟨same index member ▸ present, .inl outside⟩
    · refine ⟨same index member ▸ present, .inr ⟨holder, among, ?_⟩⟩
      rwa [referencesAt_congr (hidden_trimmed heap external lent) (same holder among)]
  rw [(release_spec _ external).1.keeps _ stay index member, same index member]

/-- A survivor that cannot be reached is held by another one of higher rank. -/
theorem exists_holder_of_unreachable (kinded : heap.WellKinded) {index : Nat} {object : Object}
    (here : ((heap.trimmed external lent).release external).object? index = some object)
    (unreachable : ¬Reachable heap external lent index) :
    ∃ holder other, ((heap.trimmed external lent).release external).object? holder = some other ∧
      ¬Reachable heap external lent holder ∧ object.kind.rank < other.kind.rank := by
  obtain ⟨part, settled⟩ := release_spec (heap.trimmed external lent) external
  have before := part.same index object here
  rw [object?_trimmed_of_not_reachable unreachable, Option.map_eq_some_iff] at before
  obtain ⟨whole, present, rfl⟩ := before
  rcases settled index (by simp [here]) with outside | ⟨holder, refers⟩
  · exact absurd (.held present outside) unreachable
  · obtain ⟨other, survives, member⟩ := mem_referencesAt.mp refers
    have held := part.same holder other survives
    by_cases reached : Reachable heap external lent holder
    · rw [object?_trimmed_of_reachable reached] at held
      have refers := mem_referencesAt.mpr ⟨other, held, part.hidden ▸ member⟩
      exact absurd (reached.holds refers present) unreachable
    · refine ⟨holder, other, survives, reached, ?_⟩
      rw [object?_trimmed_of_not_reachable reached, Option.map_eq_some_iff] at held
      obtain ⟨full, holds, rfl⟩ := held
      rcases member with member | beyond
      · rw [Object.references, Object.emptied, Content.references_emptied, List.mem_map] at member
        obtain ⟨⟨kind, _⟩, kept, rfl⟩ := member
        obtain ⟨content, found⟩ := kinded holder full holds kind _ kept
        obtain rfl : whole = ⟨kind, content⟩ := Option.some.inj (present.symm.trans found)
        exact Content.rank_lt_of_mem_kept kept
      · -- What is held beyond the content of an object has been marked.
        have beyond : index ∈ heap.hidden holder := part.hidden ▸ beyond
        have refers := mem_referencesAt.mpr ⟨full, holds, .inr beyond⟩
        exact absurd (.withheld (mem_withheldAt.mpr ⟨refers, .inr beyond⟩) present) unreachable

/-- Nothing else survives: ranks would grow without end along the holders. -/
theorem reachable_of_object?_release_trimmed (kinded : heap.WellKinded) {index : Nat}
    {object : Object}
    (here : ((heap.trimmed external lent).release external).object? index = some object) :
    Reachable heap external lent index := by
  have bounded : ∀ steps index object,
      ((heap.trimmed external lent).release external).object? index = some object →
      3 ≤ object.kind.rank + steps → Reachable heap external lent index := by
    intro steps
    induction steps with
    | zero =>
        intro index object _ high
        have low := object.kind.rank_lt_three
        omega
    | succ steps ih =>
        intro index object here high
        by_contra unreachable
        obtain ⟨holder, other, survives, unreached, higher⟩ :=
          exists_holder_of_unreachable kinded here unreachable
        exact unreached (ih holder other survives (by omega))
  exact bounded 3 index object here (by omega)

theorem object?_of_object?_release_trimmed (kinded : heap.WellKinded) {index : Nat}
    {object : Object}
    (here : ((heap.trimmed external lent).release external).object? index = some object) :
    heap.object? index = some object := by
  rw [← object?_trimmed_of_reachable (reachable_of_object?_release_trimmed kinded here)]
  exact (release_spec _ external).1.same index object here

/-- The survivors keep each other. -/
theorem keepEachOther_survivors (kinded : heap.WellKinded) :
    heap.KeepEachOther external fun index =>
      (((heap.trimmed external lent).release external).object? index).isSome := by
  obtain ⟨part, settled⟩ := release_spec (heap.trimmed external lent) external
  intro index survives
  refine ⟨?_, (settled index survives).imp_right ?_⟩
  · obtain ⟨object, here⟩ := Option.isSome_iff_exists.mp survives
    exact Option.isSome_of_eq_some (object?_of_object?_release_trimmed kinded here)
  · rintro ⟨holder, refers⟩
    obtain ⟨object, here, member⟩ := mem_referencesAt.mp refers
    exact ⟨holder, Option.isSome_of_eq_some here, mem_referencesAt.mpr
      ⟨object, object?_of_object?_release_trimmed kinded here, part.hidden ▸ member⟩⟩

/-! ## Where everything that is marked is held -/

/-- Whoever has an object on loan holds it or has it from an object that can be reached. -/
def LoansHeld (heap : Heap) (external lent : List Nat) : Prop :=
  ∀ index object, heap.object? index = some object → index ∈ lent ∨ object.isBusy = true →
    index ∈ external ∨
      ∃ holder, Reachable heap external lent holder ∧ index ∈ heap.referencesAt holder

/-- Objects that hold something beyond their contents can be reached. -/
def OwnersReached (heap : Heap) (external lent : List Nat) : Prop :=
  ∀ index object, heap.object? index = some object → heap.hidden index ≠ [] →
    Reachable heap external lent index

/-- All objects that can be reached keep each other. -/
theorem keepEachOther_reachable (loans : heap.LoansHeld external lent)
    (owners : heap.OwnersReached external lent) :
    heap.KeepEachOther external (Reachable heap external lent) := by
  intro index reachable
  obtain ⟨object, here⟩ := reachable.exists_object
  refine ⟨Option.isSome_of_eq_some here, ?_⟩
  cases reachable with
  | held _ outside => exact .inl outside
  | lent here why => exact loans index _ here why
  | @withheld holder _ _ withheld _ =>
      obtain ⟨refers, why⟩ := mem_withheldAt.mp withheld
      obtain ⟨own, present, _⟩ := mem_referencesAt.mp refers
      refine .inr ⟨holder, ?_, refers⟩
      rcases why with isLent | beyond
      · exact .lent present (.inl isLent)
      · exact owners holder own present (List.ne_nil_of_mem beyond)
  | step reached reports _ => exact .inr ⟨_, reached, mem_referencesAt_of_reported reports⟩

/-- What can be reached stays reachable where it and what is held beyond contents are left. -/
theorem Reachable.transfer {other : Heap} (hidden : other.hidden = heap.hidden)
    (same : ∀ index, Reachable heap external lent index → other.object? index = heap.object? index)
    (owners : heap.OwnersReached external lent) {index : Nat}
    (reachable : Reachable heap external lent index) : Reachable other external lent index := by
  induction reachable with
  | held here outside => exact .held ((same _ (.held here outside)).trans here) outside
  | lent here why => exact .lent ((same _ (.lent here why)).trans here) why
  | @withheld holder index object withheld here =>
      obtain ⟨refers, why⟩ := mem_withheldAt.mp withheld
      obtain ⟨own, present, _⟩ := mem_referencesAt.mp refers
      have reached : Reachable heap external lent holder := by
        rcases why with isLent | beyond
        · exact .lent present (.inl isLent)
        · exact owners holder own present (List.ne_nil_of_mem beyond)
      refine .withheld (mem_withheldAt.mpr ⟨?_, why.imp_right fun beyond => hidden ▸ beyond⟩)
        ((same _ (.withheld withheld here)).trans here)
      rwa [referencesAt_congr hidden (same holder reached)]
  | step reached reports here ih =>
      refine .step ih ?_ ((same _ (.step reached reports here)).trans here)
      rwa [reportedAt, same _ reached]

/-! ## The first release -/

theorem WellKinded.release (kinded : heap.WellKinded) : (heap.release external).WellKinded := by
  intro index object here kind target member
  have before := (release_spec heap external).1.same index object here
  obtain ⟨content, found⟩ := kinded index object before kind target member
  refine ⟨content, ?_⟩
  rw [← found]
  exact object?_release_of_mem (mem_referencesAt.mpr
    ⟨object, here, .inl (Content.mem_references_of_mem_kept member)⟩)

/-! ## The collector -/

theorem ncard_eq_countP {size : Nat} {member : Nat → Prop} {test : Nat → Bool}
    (agree : ∀ index, member index ↔ index < size ∧ test index = true) :
    {index | member index}.ncard = (List.range size).countP test := by
  have listed : {index | member index} = ((List.range size).filter test).toFinset := by
    ext index
    simp [agree]
  rw [listed, Set.ncard_coe_finset, List.toFinset_card_of_nodup (List.nodup_range.filter _),
    List.countP_eq_length_filter]

theorem ncard_objects (heap : Heap) :
    {index | (heap.object? index).isSome}.ncard = heap.population := by
  have listed : heap.objects.toList = (List.range heap.size).map heap.object? := by
    apply List.ext_getElem
    · simp [size]
    · intro index within _
      have within : index < heap.objects.size := by simpa using within
      simp [object?, within]
  rw [population, ← Array.countP_toList, listed, List.countP_map]
  apply ncard_eq_countP
  intro index
  simp only [Function.comp_apply, iff_and_self]
  intro present
  obtain ⟨object, here⟩ := Option.isSome_iff_exists.mp present
  exact lt_of_object? here

theorem mem_unmarkedObjects {marked : Array Bool} {index : Nat} :
    index ∈ heap.unmarkedObjects marked ↔
      (heap.object? index).isSome ∧ marked[index]? ≠ some true := by
  rw [unmarkedObjects, List.mem_filter, List.mem_range, Bool.and_eq_true, bne_iff_ne]
  refine ⟨And.right, fun found => ⟨?_, found⟩⟩
  obtain ⟨object, here⟩ := Option.isSome_iff_exists.mp found.1
  exact lt_of_object? here

/-- The collector frees the objects that cannot be reached. -/
theorem mem_collect {index : Nat} :
    index ∈ (heap.collect external lent).1 ↔ ((heap.release external).object? index).isSome ∧
      ¬Reachable (heap.release external) external lent index := by
  rw [collect, mem_unmarkedObjects, ne_eq, getElem?_reached_iff]

theorem length_collect (heap : Heap) (external lent : List Nat) :
    (heap.collect external lent).1.length =
      {index | ((heap.release external).object? index).isSome ∧
        ¬Reachable (heap.release external) external lent index}.ncard := by
  have listed : {index | ((heap.release external).object? index).isSome ∧
      ¬Reachable (heap.release external) external lent index} =
        (heap.collect external lent).1.toFinset := by
    ext index
    simp [mem_collect]
  rw [listed, Set.ncard_coe_finset, List.toFinset_card_of_nodup]
  exact List.nodup_range.filter _

/-- The collector is exact.  After the release of what nothing holds, it frees the objects that
cannot be reached and reports how many they are.  It leaves none of them and changes no other; what
it leaves is the largest part of the objects that can be reached in which each is held from outside
or by another one.  If nothing that holds objects beyond its content is garbage and whoever has an
object on loan holds it, then these are all objects that can be reached, and a second run finds
nothing. -/
theorem collect_exact (heap : Heap) (external lent : List Nat) (kinded : heap.WellKinded) :
    let live := heap.release external
    let rest := (heap.collect external lent).2
    (heap.collect external lent).1.length =
        {index | (live.object? index).isSome ∧ ¬Reachable live external lent index}.ncard ∧
      (∀ index object, rest.object? index = some object →
        Reachable live external lent index ∧ live.object? index = some object) ∧
      (∀ index, (rest.object? index).isSome ↔ ∃ kept : Nat → Prop,
        (∀ member, kept member → Reachable live external lent member) ∧
          live.KeepEachOther external kept ∧ kept index) ∧
      (live.LoansHeld external lent → live.OwnersReached external lent →
        (∀ index, (rest.object? index).isSome ↔ Reachable live external lent index) ∧
          rest.population = {index | Reachable live external lent index}.ncard ∧
          (rest.collect external lent).1 = []) := by
  intro live rest
  have left : ∀ index object, rest.object? index = some object →
      Reachable live external lent index ∧ live.object? index = some object :=
    fun index object here => ⟨reachable_of_object?_release_trimmed kinded.release here,
      object?_of_object?_release_trimmed kinded.release here⟩
  refine ⟨length_collect heap external lent, left, fun index => ⟨fun survives => ?_, ?_⟩,
    fun loans owners => ?_⟩
  · refine ⟨fun index => (rest.object? index).isSome, fun member survives => ?_,
      keepEachOther_survivors kinded.release, survives⟩
    obtain ⟨object, here⟩ := Option.isSome_iff_exists.mp survives
    exact (left member object here).1
  · rintro ⟨kept, reachable, keep, member⟩
    have same : rest.object? index = live.object? index :=
      object?_release_trimmed reachable keep member
    exact same ▸ (keep index member).1
  · have keep := keepEachOther_reachable loans owners
    have same : ∀ index, Reachable live external lent index →
        rest.object? index = live.object? index :=
      fun index => object?_release_trimmed (fun _ reachable => reachable) keep
    have alive : ∀ index, (rest.object? index).isSome ↔ Reachable live external lent index := by
      intro index
      constructor
      · intro survives
        obtain ⟨object, here⟩ := Option.isSome_iff_exists.mp survives
        exact (left index object here).1
      · intro reachable
        obtain ⟨object, here⟩ := reachable.exists_object
        exact Option.isSome_of_eq_some ((same index reachable).trans here)
    refine ⟨alive, ?_, List.eq_nil_iff_forall_not_mem.mpr fun index member => ?_⟩
    · rw [← ncard_objects]
      simp only [alive]
    · obtain ⟨part, settled⟩ := release_spec (live.trimmed external lent) external
      have hidden : rest.hidden = live.hidden := part.hidden
      have again : rest.release external = rest := settled.release_eq
      obtain ⟨survives, unreachable⟩ := mem_collect.mp member
      rw [again] at survives unreachable
      exact unreachable (((alive index).mp survives).transfer hidden same owners)

theorem mem_objects {index : Nat} {object : Object} (here : heap.object? index = some object) :
    object ∈ heap.objects.toList.reduceOption := by
  have found := Option.join_eq_some_iff.mp here
  exact List.reduceOption_mem_iff.mpr (Array.mem_toList_iff.mpr (Array.mem_of_getElem? found))

/-- Whether references lead to objects of the kinds they name can be decided object by object. -/
theorem WellKinded.of_forall (each : ∀ object ∈ heap.objects.toList.reduceOption,
    ∀ part ∈ object.content.kept, (heap.object? part.2).map Object.kind = some part.1) :
    heap.WellKinded := by
  intro index object here kind target member
  obtain ⟨⟨_, content⟩, there, rfl⟩ :=
    Option.map_eq_some_iff.mp (each object (mem_objects here) (kind, target) member)
  exact ⟨content, there⟩

/-- A closure with a cell that holds it, and a table. -/
def ring : Heap where
  objects := #[some ⟨.cell, Value.closure ⟨1⟩⟩,
    some ⟨.closure, { routine := default, cells := #[⟨0⟩] : Closure }⟩, some ⟨.table, ({} : Table)⟩]

theorem collect_exact_ring :
    ring.WellKinded ∧ (ring.release [2]).LoansHeld [2] [] ∧
      (ring.release [2]).OwnersReached [2] [] ∧
      (ring.collect [2] []).2.population =
        {index | Reachable (ring.release [2]) [2] [] index}.ncard := by
  have kinded : ring.WellKinded := .of_forall (by decide)
  have idle : ∀ object ∈ (ring.release [2]).objects.toList.reduceOption,
      object.isBusy = false := by
    decide
  have loans : (ring.release [2]).LoansHeld [2] [] := by
    intro index object here why
    simp [idle object (mem_objects here)] at why
  have owners : (ring.release [2]).OwnersReached [2] [] := fun _ _ _ owns => absurd rfl owns
  exact ⟨kinded, loans, owners, ((collect_exact ring [2] [] kinded).2.2.2 loans owners).2.1⟩

/-- What can be reached, along the references that objects report, from objects that are lent or
held by something that is no object: from outside or beyond the content of an object. -/
inductive Foreseen (heap : Heap) (external lent : List Nat) : Nat → Prop
  /-- A holder outside holds the object. -/
  | held {index : Nat} : index ∈ external → Foreseen heap external lent index
  /-- The object is lent. -/
  | lent {index : Nat} : index ∈ lent → Foreseen heap external lent index
  /-- It is held beyond the content of an object. -/
  | hidden {holder index : Nat} : (heap.object? holder).isSome → index ∈ heap.hidden holder →
      Foreseen heap external lent index
  /-- Such an object reports it. -/
  | step {index other : Nat} : Foreseen heap external lent index →
      other ∈ heap.reportedBy lent index → Foreseen heap external lent other

/-- A thread that is lent, with an array in its register that contains itself. -/
def entered : Heap where
  objects := #[some ⟨.thread, some
      { stack := { slots := #[.array ⟨1⟩], maxSlots := 1, maxFrames := 1 } : Fiber }⟩,
    some ⟨.array, { values := #[.array ⟨1⟩] : Sequence }⟩]

/-- A closure with a cell that holds it, and with an array among the literals of its body. -/
def owning : Heap where
  objects := #[some ⟨.closure, { routine := default, cells := #[⟨1⟩] : Closure }⟩,
    some ⟨.cell, Value.closure ⟨0⟩⟩, some ⟨.array, ({} : Sequence)⟩]
  hidden index := if index = 0 then [2] else []

theorem Foreseen.eq_of_entered {index : Nat} (foreseen : Foreseen entered [0] [0] index) :
    index = 0 := by
  induction foreseen with
  | held outside => simpa using outside
  | lent isLent => simpa using isLent
  | hidden _ beyond => cases beyond
  | step _ reports ih =>
      subst ih
      simp [reportedBy] at reports

theorem Foreseen.eq_of_owning {index : Nat} (foreseen : Foreseen owning [] [] index) :
    index = 2 := by
  induction foreseen with
  | held outside => cases outside
  | lent isLent => cases isLent
  | @hidden holder _ _ beyond =>
      by_cases first : holder = 0 <;> simp [owning, first] at beyond
      exact beyond
  | step _ reports ih =>
      subst ih
      cases reports

/-- Reports alone do not tell what is freed and what is left.  What an object holds that is lent is
not freed, and what garbage holds beyond its content goes with it. -/
theorem collect_not_foreseen :
    (entered.WellKinded ∧ entered.release [0] = entered ∧
      (entered.collect [0] [0]).1.length ≠
        {index | (entered.object? index).isSome ∧ ¬Foreseen entered [0] [0] index}.ncard) ∧
    owning.WellKinded ∧ owning.release [] = owning ∧
      (owning.collect [] []).2.population ≠
        {index | (owning.object? index).isSome ∧ Foreseen owning [] [] index}.ncard := by
  refine ⟨⟨.of_forall (by decide), rfl, ?_⟩, .of_forall (by decide), rfl, ?_⟩
  · have missed : {index | (entered.object? index).isSome ∧ ¬Foreseen entered [0] [0] index} =
        {1} := by
      ext index
      rcases index with _ | _ | index
      · simp [Foreseen.held]
      · have present : (entered.object? 1).isSome = true := rfl
        have apart : ¬Foreseen entered [0] [0] 1 :=
          fun foreseen => absurd foreseen.eq_of_entered (by simp)
        simp [present, apart]
      · simp [object?, entered]
    rw [missed, Set.ncard_singleton]
    decide
  · have kept : {index | (owning.object? index).isSome ∧ Foreseen owning [] [] index} = {2} := by
      ext index
      simp only [Set.mem_ofPred_eq, Set.mem_singleton_iff]
      refine ⟨fun left => left.2.eq_of_owning, ?_⟩
      rintro rfl
      exact ⟨rfl, .hidden (rfl : (owning.object? 0).isSome = true) (by simp [owning])⟩
    rw [kept, Set.ncard_singleton]
    decide

end Heap

end ScriptMachine
