import Mathlib.Logic.Relation
import ScriptMachine.Machine.Slot
import ScriptMachine.Proofs.Heap.Survival

/-!
# Delegates close no circle

Whatever is done with tables, host data and their delegates, following delegates comes to an end.
The relation between a table and its delegate is kept well-founded: a new delegate whose chain does
not hold the table leads away from it, and everything else at most takes delegates away.  So the
chain of a table is as long as the delegates lead, a look-up asks it to its end, and a delegate is
refused for no other reason than that the table stands in its chain.
-/

namespace ScriptMachine

/-! ## Entries -/

namespace Table

variable {own changed rest : Table} {key value : Value}

theorem delegate_of_set? (assigned : own.set? key value = some changed) :
    changed.delegate = own.delegate := by
  obtain ⟨entries, _, rfl⟩ := Option.map_eq_some_iff.mp assigned
  rfl

theorem delegate_of_erase? (erased : own.erase? key = some (value, rest)) :
    rest.delegate = own.delegate := by
  obtain ⟨found, _, same⟩ := Option.map_eq_some_iff.mp erased
  cases same
  rfl

end Table

namespace Heap

open Relation

variable {heap after : Heap} {ref target delegate : Ref .table}

/-- A table has another one as its delegate. -/
def DelegatesTo (heap : Heap) (ref delegate : Ref .table) : Prop :=
  (heap.get ref : Table).delegate = some delegate

theorem lt_size_of_delegatesTo (leads : heap.DelegatesTo ref delegate) :
    ref.index < heap.size := by
  cases found : heap.get? ref with
  | none =>
      rw [DelegatesTo, get, found] at leads
      cases leads
  | some own => exact lt_size_of_get?_eq_some found

theorem delegatesTo_of_get? {own : Table} (found : heap.get? ref = some own)
    (leads : own.delegate = some delegate) : heap.DelegatesTo ref delegate := by
  rw [DelegatesTo, get_of_get?_eq_some found, leads]

/-- Following delegates ends, among tables that have been created. -/
structure Layered (heap : Heap) : Prop where
  /-- A delegate has been created. -/
  created : ∀ {ref delegate : Ref .table}, heap.DelegatesTo ref delegate →
    delegate.index < heap.size
  /-- Whatever holds of a table as soon as it holds of its delegate holds of every table. -/
  ends : WellFounded (Function.swap heap.DelegatesTo)

namespace Layered

theorem acyclic (layered : heap.Layered) (ref : Ref .table) :
    ¬ TransGen heap.DelegatesTo ref ref := by
  intro circle
  have back : TransGen (Function.swap heap.DelegatesTo) ref ref := transGen_swap.mpr circle
  exact layered.ends.transGen.asymmetric _ _ back back

/-! ## What is done with delegates -/

theorem empty : Layered {} := by
  have bare : ∀ ref delegate : Ref .table, ¬ DelegatesTo {} ref delegate := fun _ _ leads =>
    Nat.not_lt_zero _ (lt_size_of_delegatesTo leads)
  refine ⟨fun {ref delegate} leads => absurd leads (bare ref delegate), ⟨fun ref => ?_⟩⟩
  exact ⟨ref, fun delegate leads => absurd leads (bare ref delegate)⟩

theorem fewer (layered : heap.Layered) (size : heap.size ≤ after.size)
    (left : ∀ ref delegate, after.DelegatesTo ref delegate → heap.DelegatesTo ref delegate) :
    after.Layered := by
  constructor
  · intro ref delegate leads
    exact (layered.created (left ref delegate leads)).trans_le size
  · exact Subrelation.wf (fun {delegate ref} leads => left ref delegate leads) layered.ends

/-- A table gets a delegate whose chain does not lead to it. -/
theorem link (layered : heap.Layered) (size : heap.size = after.size)
    (within : delegate.index < heap.size)
    (apart : ¬ ReflTransGen heap.DelegatesTo delegate target)
    (leads : ∀ ref other, after.DelegatesTo ref other →
      if ref = target then other = delegate else heap.DelegatesTo ref other) :
    after.Layered := by
  constructor
  · intro ref other next
    have := leads ref other next
    split at this
    · rw [this, ← size]
      exact within
    · rw [← size]
      exact layered.created this
  · -- first what the delegate leads to, then the table itself, then all others
    have below : ∀ ref, ReflTransGen heap.DelegatesTo delegate ref →
        Acc (Function.swap after.DelegatesTo) ref := by
      intro ref
      induction ref using layered.ends.induction with
      | _ ref ih =>
          intro path
          have differ : ref ≠ target := by
            rintro rfl
            exact apart path
          refine ⟨ref, fun other next => ?_⟩
          have former := leads ref other next
          rw [if_neg differ] at former
          exact ih other former (path.tail former)
    have linked : Acc (Function.swap after.DelegatesTo) target := by
      refine ⟨target, fun other next => ?_⟩
      have fresh := leads target other next
      rw [if_pos rfl] at fresh
      rw [fresh]
      exact below delegate .refl
    refine ⟨fun ref => ?_⟩
    induction ref using layered.ends.induction with
    | _ ref ih =>
        by_cases same : ref = target
        · rw [same]
          exact linked
        · refine ⟨ref, fun other next => ?_⟩
          have former := leads ref other next
          rw [if_neg same] at former
          exact ih other former

/-! ## Chains -/

theorem reaches_of_mem_chainFrom (steps : Nat) {start ref : Ref .table}
    (member : ref ∈ heap.chainFrom steps (some start)) :
    ReflTransGen heap.DelegatesTo start ref := by
  induction steps generalizing start with
  | zero => cases member
  | succ steps ih =>
      rw [chainFrom, List.mem_cons] at member
      rcases member with rfl | further
      · exact .refl
      · cases next : (heap.get start : Table).delegate with
        | none =>
            rw [next] at further
            cases steps <;> cases further
        | some delegate =>
            rw [next] at further
            exact .head next (ih further)

theorem nodup_chainFrom (layered : heap.Layered) (steps : Nat) (start : Option (Ref .table)) :
    (heap.chainFrom steps start).Nodup := by
  induction steps generalizing start with
  | zero => exact List.nodup_nil
  | succ steps ih =>
      cases start with
      | none => exact List.nodup_nil
      | some ref =>
          rw [chainFrom, List.nodup_cons]
          refine ⟨fun member => ?_, ih _⟩
          cases next : (heap.get ref : Table).delegate with
          | none =>
              rw [next] at member
              cases steps <;> cases member
          | some delegate =>
              rw [next] at member
              exact layered.acyclic ref (.head' next (reaches_of_mem_chainFrom steps member))

theorem lt_size_of_reaches (layered : heap.Layered) {start : Ref .table}
    (within : start.index < heap.size) (path : ReflTransGen heap.DelegatesTo start ref) :
    ref.index < heap.size := by
  cases path with
  | refl => exact within
  | tail _ last => exact layered.created last

theorem length_chainFrom_le (layered : heap.Layered) (within : ref.index < heap.size)
    (steps : Nat) : (heap.chainFrom steps (some ref)).length ≤ heap.size := by
  have distinct : ((heap.chainFrom steps (some ref)).map Ref.index).Nodup := by
    refine (layered.nodup_chainFrom steps (some ref)).map ?_
    rintro ⟨first⟩ ⟨second⟩ same
    exact congrArg Ref.mk same
  have inside : (heap.chainFrom steps (some ref)).map Ref.index ⊆ List.range heap.size := by
    intro index member
    obtain ⟨table, there, rfl⟩ := List.mem_map.mp member
    exact List.mem_range.mpr
      (layered.lt_size_of_reaches within (reaches_of_mem_chainFrom steps there))
  have := (distinct.subperm inside).length_le
  rwa [List.length_map, List.length_range] at this

end Layered

theorem chainFrom_none (steps : Nat) : heap.chainFrom steps none = [] := by
  cases steps <;> rfl

/-- A chain that ends before its steps do is as long as the delegates lead. -/
theorem chainFrom_succ_of_length_le (steps : Nat) (start : Option (Ref .table))
    (short : (heap.chainFrom (steps + 1) start).length ≤ steps) :
    heap.chainFrom (steps + 1) start = heap.chainFrom steps start := by
  induction steps generalizing start with
  | zero => exact List.length_eq_zero_iff.mp (Nat.le_zero.mp short)
  | succ steps ih =>
      cases start with
      | none => rfl
      | some ref =>
          rw [chainFrom, List.length_cons] at short
          rw [chainFrom, chainFrom, ih _ (Nat.le_of_succ_le_succ short)]

namespace Layered

theorem chain_eq (layered : heap.Layered) (within : ref.index < heap.size) :
    heap.chain ref = ref :: heap.chainFrom heap.size (heap.get ref : Table).delegate := by
  have short := layered.length_chainFrom_le within (heap.size + 1)
  rw [chain, ← chainFrom_succ_of_length_le heap.size (some ref) short, chainFrom]

theorem chain_of_delegatesTo (layered : heap.Layered) (leads : heap.DelegatesTo ref delegate) :
    heap.chain ref = ref :: heap.chain delegate := by
  rw [layered.chain_eq (lt_size_of_delegatesTo leads), leads, chain]

/-- The chain of a table holds what its delegates lead to, and nothing else. -/
theorem mem_chain_iff (layered : heap.Layered) (within : ref.index < heap.size) :
    target ∈ heap.chain ref ↔ ReflTransGen heap.DelegatesTo ref target := by
  refine ⟨reaches_of_mem_chainFrom heap.size, fun path => ?_⟩
  have own : target.index < heap.size := layered.lt_size_of_reaches within path
  induction path using ReflTransGen.head_induction_on with
  | refl =>
      rw [layered.chain_eq own]
      exact List.mem_cons_self
  | head leads _ ih =>
      rw [layered.chain_of_delegatesTo leads]
      exact List.mem_cons_of_mem _ (ih (layered.created leads))

/-! ## Looking up -/

theorem lookup?_eq (layered : heap.Layered) (within : ref.index < heap.size) (key : Value) :
    heap.lookup? ref key =
      match (heap.get ref : Table).get? key with
      | some value => some value
      | none => (heap.get ref : Table).delegate.bind fun delegate => heap.lookup? delegate key := by
  rw [lookup?, layered.chain_eq within, List.findSome?_cons]
  cases (heap.get ref : Table).get? key with
  | some value => rfl
  | none =>
      cases (heap.get ref : Table).delegate with
      | none =>
          rw [chainFrom_none]
          rfl
      | some delegate => rfl

theorem lookup?_of_delegatesTo (layered : heap.Layered) {key : Value}
    (missing : (heap.get ref : Table).get? key = none) (leads : heap.DelegatesTo ref delegate) :
    heap.lookup? ref key = heap.lookup? delegate key := by
  rw [layered.lookup?_eq (lt_size_of_delegatesTo leads), missing, leads]
  rfl

/-- The first table along the chain that has an entry of its own answers. -/
theorem lookup?_eq_some_iff (layered : heap.Layered) (within : ref.index < heap.size)
    (key value : Value) :
    heap.lookup? ref key = some value ↔ ∃ owner, ReflTransGen heap.DelegatesTo ref owner ∧
      (heap.get owner : Table).get? key = some value ∧
      ∀ earlier, ReflTransGen heap.DelegatesTo ref earlier →
        TransGen heap.DelegatesTo earlier owner → (heap.get earlier : Table).get? key = none := by
  induction ref using layered.ends.induction with
  | _ ref ih =>
      cases own : (heap.get ref : Table).get? key with
      | some found =>
          rw [layered.lookup?_eq within, own]
          constructor
          · intro same
            refine ⟨ref, .refl, own.trans same, fun earlier path back => ?_⟩
            exact absurd (TransGen.trans_right path back) (layered.acyclic ref)
          · rintro ⟨owner, path, here, first⟩
            rcases path.cases_head with rfl | ⟨delegate, leads, further⟩
            · exact own.symm.trans here
            · rw [first ref .refl (.head' leads further)] at own
              cases own
      | none =>
          cases next : (heap.get ref : Table).delegate with
          | none =>
              rw [layered.lookup?_eq within, own, next]
              constructor
              · intro found
                cases found
              · rintro ⟨owner, path, here, _⟩
                rcases path.cases_head with rfl | ⟨delegate, leads, _⟩
                · rw [own] at here
                  cases here
                · rw [DelegatesTo, next] at leads
                  cases leads
          | some delegate =>
              have leads : heap.DelegatesTo ref delegate := next
              rw [layered.lookup?_of_delegatesTo own leads,
                ih delegate leads (layered.created leads)]
              constructor
              · rintro ⟨owner, path, here, first⟩
                refine ⟨owner, .head leads path, here, fun earlier reached before => ?_⟩
                rcases reached.cases_head with rfl | ⟨other, step, further⟩
                · exact own
                · obtain rfl : delegate = other := Option.some.inj (next.symm.trans step)
                  exact first earlier further before
              · rintro ⟨owner, path, here, first⟩
                rcases path.cases_head with rfl | ⟨other, step, further⟩
                · rw [own] at here
                  cases here
                · obtain rfl : delegate = other := Option.some.inj (next.symm.trans step)
                  exact ⟨owner, further, here, fun earlier reached =>
                    first earlier (.head leads reached)⟩

theorem lookup?_eq_none_iff (layered : heap.Layered) (within : ref.index < heap.size)
    (key : Value) :
    heap.lookup? ref key = none ↔ ∀ owner, ReflTransGen heap.DelegatesTo ref owner →
      (heap.get owner : Table).get? key = none := by
  rw [lookup?, List.findSome?_eq_none_iff]
  constructor
  · intro missing owner path
    exact missing owner ((layered.mem_chain_iff within).mpr path)
  · intro missing owner member
    exact missing owner ((layered.mem_chain_iff within).mp member)

end Layered

/-! ## Steps -/

/-- What is done with tables, host data and their delegates, one use at a time. -/
inductive DelegateStep (heap : Heap) : Heap → Prop
  /-- A table without a delegate. -/
  | create {content : Table} : content.delegate = none →
      DelegateStep heap (@alloc .table heap content).2
  /-- An entry of a table is assigned. -/
  | assign {own changed : Table} {ref : Ref .table} {key value : Value} :
      heap.get? ref = some own → own.set? key value = some changed →
      DelegateStep heap (heap.set ref changed)
  /-- An entry is created in a table, or replaced. -/
  | insert {own : Table} {ref : Ref .table} {key value : Value} : heap.get? ref = some own →
      DelegateStep heap (heap.set ref (own.insert key value))
  /-- An entry of a table is removed. -/
  | erase {own rest : Table} {ref : Ref .table} {key value : Value} :
      heap.get? ref = some own → own.erase? key = some (value, rest) →
      DelegateStep heap (heap.set ref rest)
  /-- All entries of a table are removed. -/
  | clear {own : Table} {ref : Ref .table} : heap.get? ref = some own →
      DelegateStep heap (heap.set ref own.clear)
  /-- A table loses its delegate or gets another one, which exists. -/
  | link {ref : Ref .table} {delegate : Option (Ref .table)} {after : Heap} :
      (∀ table, delegate = some table → ∃ own : Table, heap.get? table = some own) →
      heap.setTableDelegate ref delegate = .ok after → DelegateStep heap after
  /-- Host data loses its delegate or gets another one. -/
  | linkData (ref : Ref .userdata) (delegate : Option (Ref .table)) :
      DelegateStep heap (heap.setDataDelegate ref delegate)
  /-- Objects go that nothing holds. -/
  | release (external : List Nat) : DelegateStep heap (heap.release external)
  /-- Objects are emptied that nothing outside reaches. -/
  | collect (external lent : List Nat) : DelegateStep heap (heap.collect external lent).2
  /-- Other objects are created or change. -/
  | elsewhere {after : Heap} : heap.size ≤ after.size →
      (∀ ref : Ref .table, after.get? ref = heap.get? ref) → DelegateStep heap after

theorem delegatesTo_congr (same : ∀ ref : Ref .table, after.get? ref = heap.get? ref)
    (ref delegate : Ref .table) :
    after.DelegatesTo ref delegate ↔ heap.DelegatesTo ref delegate := by
  rw [DelegatesTo, DelegatesTo, get, get, same]

theorem delegatesTo_of_get?_imp
    (former : ∀ (ref : Ref .table) (content : Table), after.get? ref = some content →
      content.delegate = none ∨ ∃ own : Table, heap.get? ref = some own ∧
        content.delegate = own.delegate)
    (ref delegate : Ref .table) (leads : after.DelegatesTo ref delegate) :
    heap.DelegatesTo ref delegate := by
  cases found : after.get? ref with
  | none =>
      rw [DelegatesTo, get, found] at leads
      cases leads
  | some content =>
      rw [DelegatesTo, get_of_get?_eq_some found] at leads
      rcases former ref content found with bare | ⟨own, here, same⟩
      · rw [bare] at leads
        cases leads
      · exact delegatesTo_of_get? here (same.symm.trans leads)

namespace Layered

/-- Only the entries of a table change. -/
theorem set (layered : heap.Layered) {own changed : Table} (found : heap.get? ref = some own)
    (same : changed.delegate = own.delegate) : (heap.set ref changed).Layered := by
  apply layered.fewer (by rw [Heap.set, size_modify])
  apply delegatesTo_of_get?_imp
  intro target content here
  rw [get?_set found] at here
  split at here
  · rename_i level
    cases here
    exact .inr ⟨own, level ▸ found, same⟩
  · exact .inr ⟨content, here, rfl⟩

/-- A table loses its delegate. -/
theorem unlink (layered : heap.Layered) (ref : Ref .table) :
    (heap.modify ref fun (table : Table) => { table with delegate := none }).Layered := by
  apply layered.fewer (by rw [size_modify])
  apply delegatesTo_of_get?_imp
  intro target content here
  rw [get?_modify] at here
  split at here
  · obtain ⟨own, _, rfl⟩ := Option.map_eq_some_iff.mp here
    exact .inl rfl
  · exact .inr ⟨content, here, rfl⟩

theorem setTableDelegate (layered : heap.Layered) {delegate : Option (Ref .table)}
    (created : ∀ table, delegate = some table → ∃ own : Table, heap.get? table = some own)
    (accepted : heap.setTableDelegate ref delegate = .ok after) : after.Layered := by
  rw [Heap.setTableDelegate] at accepted
  split at accepted
  · cases accepted
  · rename_i apart
    cases accepted
    cases delegate with
    | none => exact layered.unlink ref
    | some table =>
        obtain ⟨own, found⟩ := created table rfl
        have within := lt_size_of_get?_eq_some found
        refine layered.link (size_modify _ _).symm within
          (?_ : ¬ ReflTransGen heap.DelegatesTo table ref) ?_
        · intro path
          exact apart ((layered.mem_chain_iff within).mpr path)
        · intro source other leads
          cases here : heap.get? source with
          | none =>
              rw [DelegatesTo, get, get?_modify, here, Option.map_none, ite_self] at leads
              cases leads
          | some held =>
              rw [DelegatesTo, get, get?_modify, here] at leads
              split
              · rename_i same
                rw [same, if_pos rfl] at leads
                exact (Option.some.inj leads).symm
              · rename_i differ
                rw [if_neg (fun level => differ (congrArg Ref.mk level.symm))] at leads
                exact delegatesTo_of_get? here leads

theorem step (layered : heap.Layered) (step : DelegateStep heap after) : after.Layered := by
  cases step with
  | @create content bare =>
      apply layered.fewer (by rw [size_alloc]; exact Nat.le_succ _)
      apply delegatesTo_of_get?_imp
      intro ref own here
      rw [get?_alloc] at here
      split at here
      · cases here
        exact .inl bare
      · exact .inr ⟨own, here, rfl⟩
  | assign found assigned => exact layered.set found (Table.delegate_of_set? assigned)
  | insert found => exact layered.set found rfl
  | erase found erased => exact layered.set found (Table.delegate_of_erase? erased)
  | clear found => exact layered.set found rfl
  | link created accepted => exact layered.setTableDelegate created accepted
  | linkData ref delegate =>
      apply layered.fewer (Nat.le_of_eq (size_modify _ _).symm)
      intro source other
      exact (delegatesTo_congr (fun table => get?_modify_of_ne (by decide) _ _ table) _ _).mp
  | release external =>
      apply layered.fewer (Nat.le_of_eq (heap.release_spec external).1.size.symm)
      apply delegatesTo_of_get?_imp
      intro ref content here
      exact .inr ⟨content, get?_of_get?_release here, rfl⟩
  | collect external lent =>
      apply layered.fewer (Nat.le_of_eq (size_collect external lent).symm)
      apply delegatesTo_of_get?_imp
      intro ref content here
      obtain ⟨former, there, rfl | rfl⟩ := get?_collect here
      · exact .inr ⟨_, there, rfl⟩
      · exact .inl rfl
  | elsewhere size same =>
      apply layered.fewer size
      intro source other
      exact (delegatesTo_congr same source other).mp

end Layered

/-- A heap that has been built up from nothing. -/
abbrev Linked (heap : Heap) : Prop := ReflTransGen DelegateStep {} heap

theorem Layered.of_linked (linked : heap.Linked) : heap.Layered := by
  induction linked with
  | refl => exact .empty
  | tail _ next ih => exact ih.step next

end Heap

/-! ## Setting a delegate -/

namespace Exec

theorem setDelegate_table (ref : Ref .table) (delegate : Option (Ref .table)) (machine : Machine) :
    setDelegate (.table ref) (delegate.elim .null Value.table) machine =
      (ofExcept (machine.heap.setTableDelegate ref delegate) >>= fun changed =>
        modify fun machine => { machine with heap := changed }) machine := by
  cases delegate <;> rfl

/-- A table gets the delegate that a value names, unless it is in the chain of that. -/
theorem setDelegate_eq {heap : Heap} (layered : heap.Layered) {machine : Machine}
    (here : machine.heap = heap) {value : Value} {delegate : Option (Ref .table)}
    (names : value = delegate.elim .null Value.table)
    (created : ∀ table, delegate = some table → ∃ own : Table, heap.get? table = some own)
    (ref : Ref .table) :
    ((∃ table, delegate = some table ∧ Relation.ReflTransGen heap.DelegatesTo table ref) →
      setDelegate (.table ref) value machine =
        .error (.raised .delegateCycle) (machine.record .delegateCycle)) ∧
    ((¬ ∃ table, delegate = some table ∧ Relation.ReflTransGen heap.DelegatesTo table ref) →
      setDelegate (.table ref) value machine =
        .ok () { machine with
          heap := heap.modify ref fun (own : Table) => { own with delegate } }) := by
  have member : ref ∈ heap.chainFrom heap.size delegate ↔
      ∃ table, delegate = some table ∧ Relation.ReflTransGen heap.DelegatesTo table ref := by
    cases delegate with
    | none => simp [Heap.chainFrom_none]
    | some table =>
        obtain ⟨own, found⟩ := created table rfl
        have inside : ref ∈ heap.chain table ↔ _ :=
          layered.mem_chain_iff (Heap.lt_size_of_get?_eq_some found)
        simpa [Heap.chain] using inside
  rw [names, setDelegate_table, here, Heap.setTableDelegate]
  constructor
  · intro circle
    rw [if_pos (member.mpr circle)]
    rfl
  · intro apart
    rw [if_neg (fun inside => apart (member.mp inside))]
    rfl

/-- A value that is neither null nor a table is no delegate. -/
theorem setDelegate_of_ne {value : Value} (given : value ≠ .null)
    (plain : ∀ table, value ≠ .table table) (object : Value) (machine : Machine) :
    setDelegate object value machine = .error (.raised (.delegateValue value.typeName))
      (machine.record (.delegateValue value.typeName)) := by
  cases value with
  | null => exact absurd rfl given
  | table table => exact absurd rfl (plain table)
  | _ => rfl

theorem delegate_cases (value : Value) :
    (∃ delegate : Option (Ref .table), value = delegate.elim .null Value.table) ∨
      value ≠ .null ∧ ∀ table, value ≠ .table table := by
  by_cases empty : value = .null
  · exact .inl ⟨none, empty⟩
  · by_cases plain : ∀ table, value ≠ .table table
    · exact .inr ⟨empty, plain⟩
    · obtain ⟨table, same⟩ := not_forall_not.mp plain
      exact .inl ⟨some table, same⟩

theorem heap_of_setDelegate {machine next : Machine} {object value : Value} {stop : Stop}
    (failed : setDelegate object value machine = .error stop next) : next.heap = machine.heap := by
  obtain ⟨delegate, rfl⟩ | ⟨given, plain⟩ := delegate_cases value
  · cases object with
    | table ref =>
        rw [setDelegate_table] at failed
        cases result : machine.heap.setTableDelegate ref delegate with
        | error fault =>
            rw [result] at failed
            cases failed
            rfl
        | ok changed =>
            rw [result] at failed
            cases failed
    | userdata ref =>
        cases delegate <;> cases failed
    | _ =>
        cases delegate <;> cases failed <;> rfl
  · rw [setDelegate_of_ne given plain] at failed
    cases failed
    rfl

end Exec

namespace Heap

open Relation

variable {heap : Heap}

namespace Layered

theorem setDelegate_refused_iff (layered : heap.Layered) {machine : Machine}
    (here : machine.heap = heap) (ref : Ref .table) {value : Value}
    (created : ∀ table, value = .table table → ∃ own : Table, heap.get? table = some own) :
    (∃ fault next, Exec.setDelegate (.table ref) value machine = .error (.raised fault) next ∧
        fault.family = .structural) ↔
      ∃ table, value = .table table ∧ ReflTransGen heap.DelegatesTo table ref := by
  constructor
  · rintro ⟨fault, next, failed, family⟩
    by_contra apart
    obtain ⟨delegate, names⟩ | ⟨given, plain⟩ := Exec.delegate_cases value
    · have clear : ¬ ∃ table, delegate = some table ∧
          ReflTransGen heap.DelegatesTo table ref := by
        rintro ⟨table, rfl, circle⟩
        exact apart ⟨table, names, circle⟩
      have accepted := (Exec.setDelegate_eq layered here names
        (fun table same => created table (by rw [names, same]; rfl)) ref).2 clear
      rw [accepted] at failed
      cases failed
    · rw [Exec.setDelegate_of_ne given plain] at failed
      cases failed
      cases family
  · rintro ⟨table, rfl, circle⟩
    have refused := (@Exec.setDelegate_eq heap layered machine here _ (some table) rfl
      (by simpa using created) ref).1 ⟨table, rfl, circle⟩
    exact ⟨_, _, refused, rfl⟩

theorem setDelegate_accepted_iff (layered : heap.Layered) {machine : Machine}
    (here : machine.heap = heap) (ref : Ref .table) {value : Value}
    (created : ∀ table, value = .table table → ∃ own : Table, heap.get? table = some own) :
    (∃ next, Exec.setDelegate (.table ref) value machine = .ok () next) ↔
      value = .null ∨
        ∃ table, value = .table table ∧ ¬ ReflTransGen heap.DelegatesTo table ref := by
  constructor
  · rintro ⟨next, accepted⟩
    obtain ⟨delegate, names⟩ | ⟨given, plain⟩ := Exec.delegate_cases value
    · cases delegate with
      | none => exact .inl names
      | some table =>
          refine .inr ⟨table, names, fun circle => ?_⟩
          have refused := (Exec.setDelegate_eq layered here names
            (fun other same => created other (by rw [names, same]; rfl)) ref).1
            ⟨table, rfl, circle⟩
          rw [refused] at accepted
          cases accepted
    · rw [Exec.setDelegate_of_ne given plain] at accepted
      cases accepted
  · rintro (rfl | ⟨table, rfl, apart⟩)
    · exact ⟨_, (@Exec.setDelegate_eq heap layered machine here _ none rfl (by simp) ref).2
        (by simp)⟩
    · exact ⟨_, (@Exec.setDelegate_eq heap layered machine here _ (some table) rfl
        (by simpa using created) ref).2 (by simpa using apart)⟩

end Layered

/-- Accepting a delegate changes the delegate of the table and nothing else. -/
theorem get?_of_setDelegate {machine next : Machine} (here : machine.heap = heap)
    {ref : Ref .table} {value : Value}
    (accepted : Exec.setDelegate (.table ref) value machine = .ok () next) :
    (∃ delegate : Option (Ref .table), value = delegate.elim .null Value.table ∧
      ∀ own : Table, heap.get? ref = some own → next.heap.get? ref = some { own with delegate }) ∧
    (∀ other : Ref .table, other ≠ ref → next.heap.get? other = heap.get? other) ∧
    ∀ kind, kind ≠ .table → ∀ other : Ref kind, next.heap.get? other = heap.get? other := by
  obtain ⟨delegate, rfl⟩ | ⟨given, plain⟩ := Exec.delegate_cases value
  · rw [Exec.setDelegate_table, here, Heap.setTableDelegate] at accepted
    split at accepted
    · cases accepted
    · cases accepted
      refine ⟨⟨delegate, rfl, fun own found => ?_⟩, fun other differ => ?_,
        fun kind differ other => ?_⟩
      · rw [get?_modify, if_pos rfl, found, Option.map_some]
      · rw [get?_modify, if_neg fun level => differ (congrArg Ref.mk level.symm)]
      · exact get?_modify_of_ne differ _ _ other
  · rw [Exec.setDelegate_of_ne given plain] at accepted
    cases accepted

/-- What refusing circles ensures. -/
structure DelegatesInOrder (heap : Heap) : Prop where
  /-- No table is in its own chain. -/
  acyclic : ∀ ref, ¬ TransGen heap.DelegatesTo ref ref
  /-- Following delegates comes to an end. -/
  ends : WellFounded (Function.swap heap.DelegatesTo)
  /-- A delegate is refused exactly if it is the table or has the table in its chain. -/
  refused_iff : ∀ (machine : Machine) (ref : Ref .table) (value : Value), machine.heap = heap →
    (∀ table, value = .table table → ∃ own : Table, heap.get? table = some own) →
    ((∃ fault next, Exec.setDelegate (.table ref) value machine = .error (.raised fault) next ∧
        fault.family = .structural) ↔
      ∃ table, value = .table table ∧ ReflTransGen heap.DelegatesTo table ref)
  /-- Any other table is accepted, and so is no delegate at all. -/
  accepted_iff : ∀ (machine : Machine) (ref : Ref .table) (value : Value), machine.heap = heap →
    (∀ table, value = .table table → ∃ own : Table, heap.get? table = some own) →
    ((∃ next, Exec.setDelegate (.table ref) value machine = .ok () next) ↔
      value = .null ∨ ∃ table, value = .table table ∧ ¬ ReflTransGen heap.DelegatesTo table ref)
  /-- Nothing has changed when a delegate is refused. -/
  kept : ∀ (machine next : Machine) (object value : Value) (stop : Stop), machine.heap = heap →
    Exec.setDelegate object value machine = .error stop next → next.heap = heap
  /-- Only the delegate of the table changes when a delegate is accepted. -/
  changed : ∀ (machine next : Machine) (ref : Ref .table) (value : Value), machine.heap = heap →
    Exec.setDelegate (.table ref) value machine = .ok () next →
    (∃ delegate : Option (Ref .table), value = delegate.elim .null Value.table ∧
      ∀ own : Table, heap.get? ref = some own → next.heap.get? ref = some { own with delegate }) ∧
    (∀ other : Ref .table, other ≠ ref → next.heap.get? other = heap.get? other) ∧
    ∀ kind, kind ≠ .table → ∀ other : Ref kind, next.heap.get? other = heap.get? other
  /-- A look-up asks the table, then its delegate. -/
  lookup_eq : ∀ (ref : Ref .table) (own : Table) (key : Value), heap.get? ref = some own →
    heap.lookup? ref key =
      match own.get? key with
      | some value => some value
      | none => own.delegate.bind fun delegate => heap.lookup? delegate key
  /-- The first table along the chain that has the key as its own answers. -/
  lookup_eq_some_iff : ∀ (ref : Ref .table) (own : Table) (key value : Value),
    heap.get? ref = some own →
    (heap.lookup? ref key = some value ↔ ∃ owner, ReflTransGen heap.DelegatesTo ref owner ∧
      (heap.get owner : Table).get? key = some value ∧
      ∀ earlier, ReflTransGen heap.DelegatesTo ref earlier →
        TransGen heap.DelegatesTo earlier owner → (heap.get earlier : Table).get? key = none)
  /-- There is no answer exactly if no table of the chain has the key. -/
  lookup_eq_none_iff : ∀ (ref : Ref .table) (own : Table) (key : Value),
    heap.get? ref = some own →
    (heap.lookup? ref key = none ↔ ∀ owner, ReflTransGen heap.DelegatesTo ref owner →
      (heap.get owner : Table).get? key = none)

/-- Whatever is done with tables, host data and their delegates, the delegates are in order. -/
theorem delegatesInOrder_of_linked (linked : heap.Linked) : heap.DelegatesInOrder := by
  have layered := Layered.of_linked linked
  constructor
  · exact layered.acyclic
  · exact layered.ends
  · intro machine ref value here created
    exact layered.setDelegate_refused_iff here ref created
  · intro machine ref value here created
    exact layered.setDelegate_accepted_iff here ref created
  · intro machine next object value stop here failed
    rw [Exec.heap_of_setDelegate failed, here]
  · intro machine next ref value here accepted
    exact get?_of_setDelegate here accepted
  · intro ref own key found
    rw [layered.lookup?_eq (lt_size_of_get?_eq_some found), get_of_get?_eq_some found]
  · intro ref own key value found
    exact layered.lookup?_eq_some_iff (lt_size_of_get?_eq_some found) key value
  · intro ref own key found
    exact layered.lookup?_eq_none_iff (lt_size_of_get?_eq_some found) key

/-- Two tables, of which the older delegates to the younger. -/
theorem delegatesInOrder_pair :
    let pair := (@alloc .table (@alloc .table {} ({} : Table)).2 ({} : Table)).2
    let linked := @modify .table pair ⟨0⟩ fun (table : Table) =>
      { table with delegate := some ⟨1⟩ }
    linked.DelegatesInOrder ∧ linked.DelegatesTo ⟨0⟩ ⟨1⟩ := by
  intro pair linked
  have created : pair.Linked := (ReflTransGen.single (.create rfl)).tail (.create rfl)
  have accepted : pair.setTableDelegate ⟨0⟩ (some ⟨1⟩) = .ok linked := by
    rw [Heap.setTableDelegate, if_neg (by decide)]
  have found : ∀ table, some (⟨1⟩ : Ref .table) = some table →
      ∃ own : Table, pair.get? table = some own := by
    rintro _ ⟨⟩
    exact ⟨{}, rfl⟩
  exact ⟨delegatesInOrder_of_linked (created.tail (.link found accepted)), rfl⟩

end Heap

end ScriptMachine
