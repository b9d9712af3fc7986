import ScriptMachine.Proofs.Heap.Content
import ScriptMachine.Proofs.Machine.Meets
import ScriptMachine.Proofs.Machine.Services
import ScriptMachine.Proofs.Object.Sorting

/-!
# Sorting arrays

An array is sorted on the side: comparisons run on the machine, and the array itself is written
once, after the last of them.  So it holds the sorted values of the moment the sort began, or, where
the sort fails, whatever the comparisons have left in it.
-/

namespace ScriptMachine

variable {machine : Machine} {ref : Ref .array}

/-- The machine in which a sort makes its comparisons: it holds the array and its values. -/
def Machine.sorting (machine : Machine) (ref : Ref .array) : Machine :=
  { machine with
    held := Value.addresses (.array ref :: (machine.heap.get ref : Sequence).values.toList) ++
      machine.held }

/-- The machine after the comparisons of a sort, which does not hold the array any longer. -/
def Machine.sorted (machine : Machine) (held : List Nat) : Machine := { machine with held }

theorem sortArray_eq (engine : Engine) (ref : Ref .array) (comparator : Option Value)
    (machine : Machine) :
    let contents : Sequence := machine.heap.get ref
    Exec.sortArray engine ref comparator machine =
      (Exec.ensuring (·.sorted machine.held) (Exec.sortValues
          (Exec.sortOrder engine (.table machine.root) comparator) contents.values) >>=
        Exec.storeSorted ref contents.length) (machine.sorting ref) := rfl

theorem storeSorted_of_same {length : Nat} {sorted : Array Value}
    (same : (machine.heap.get ref : Sequence).length = length) :
    Exec.storeSorted ref length sorted machine =
      .ok () { machine with heap := machine.heap.set ref (Sequence.ofValues sorted) } := by
  show (if (machine.heap.get ref : Sequence).length ≠ length then _ else _ : Exec Unit) machine = _
  rw [if_neg (not_not.mpr same)]
  rfl

theorem storeSorted_of_differ {length : Nat} (sorted : Array Value)
    (differ : (machine.heap.get ref : Sequence).length ≠ length) :
    ∃ fault, Exec.storeSorted ref length sorted machine =
      .error (.raised fault) (machine.record fault) := by
  refine ⟨.resizedDuringSort length (machine.heap.get ref : Sequence).length, ?_⟩
  show (if (machine.heap.get ref : Sequence).length ≠ length then _ else _ : Exec Unit) machine = _
  rw [if_pos differ]
  rfl

/-- An array that has been written holds what was written, even one that is gone, as long as that
had no values. -/
theorem get_set_of_length {heap : Heap} {ref : Ref .array} {values : Array Value}
    (same : (heap.get ref : Sequence).length = values.size) :
    (heap.set ref (Sequence.ofValues values)).get ref = Sequence.ofValues values := by
  rw [Heap.get, Heap.set, Heap.get?_modify, if_pos rfl]
  cases found : heap.get? ref with
  | some content => rfl
  | none =>
      rw [Heap.get, found] at same
      have empty : values = #[] := Array.eq_empty_of_size_eq_zero same.symm
      rw [empty]
      rfl

/-- What sorting an array does.  If that succeeds, the array holds the sorted values of the moment
the sort began.  If it fails, the array is as the comparisons of this sort have left it: it holds
the same values as before, unless one of those comparisons has changed it. -/
def SortsArray (engine : Engine) (ref : Ref .array) (comparator : Option Value)
    (machine : Machine) : Prop :=
  let order := Exec.sortOrder engine (.table machine.root) comparator
  let contents : Sequence := machine.heap.get ref
  match Exec.sortArray engine ref comparator machine with
  | .ok _ next => ∃ sorted stop,
      Quicksort.sort order (contents.values, machine.sorting ref) = .ok () (sorted, stop) ∧
      sorted.Perm contents.values ∧
      (∀ less, Quicksort.Decides order less → sorted.toList.Pairwise fun x y => ¬less y x) ∧
      next.heap.get ref = Sequence.ofValues sorted
  | .error _ next =>
      next.heap.get ref =
        (Quicksort.leaves order contents.values (machine.sorting ref)).2.heap.get ref ∧
      ((∀ made ∈ Quicksort.comparisons order contents.values (machine.sorting ref),
        made.after.heap.get ref = made.before.heap.get ref) → next.heap.get ref = contents)

theorem sortsArray (engine : Engine) (ref : Ref .array) (comparator : Option Value)
    (machine : Machine) : SortsArray engine ref comparator machine := by
  unfold SortsArray
  extract_lets order contents
  have held := (Quicksort.sorts order contents.values (machine.sorting ref)).2
  have kept := Quicksort.leaves_of_kept (fun state => state.heap.get ref) order contents.values
    (machine.sorting ref)
  rw [sortArray_eq]
  have sorting : (Exec.ensuring (·.sorted machine.held) (Exec.sortValues order contents.values))
      (machine.sorting ref) =
      match Quicksort.sort order (contents.values, machine.sorting ref) with
      | .ok _ (sorted, stop) => .ok sorted (stop.sorted machine.held)
      | .error (.raised fault) (_, stop) => .error (.raised fault) (stop.sorted machine.held)
      | .error .exhausted (_, stop) => .error .exhausted stop := by
    rw [Exec.ensuring, Exec.sortValues]
    cases Quicksort.sort order (contents.values, machine.sorting ref) with
    | ok _ next => rfl
    | error cause next => cases cause <;> rfl
  cases ends : Quicksort.sort order (contents.values, machine.sorting ref) with
  | error cause next =>
      have left : Quicksort.leaves order contents.values (machine.sorting ref) = next := by
        rw [Quicksort.leaves, ends]
      rw [left] at kept
      rw [ends] at sorting
      cases cause with
      | raised fault =>
          rw [Exec.error_bind sorting, left]
          exact ⟨rfl, kept⟩
      | exhausted =>
          rw [Exec.error_bind sorting, left]
          exact ⟨rfl, kept⟩
  | ok _ next =>
      have left : Quicksort.leaves order contents.values (machine.sorting ref) = next := by
        rw [Quicksort.leaves, ends]
      obtain ⟨sorted, stop⟩ := next
      rw [left] at kept
      rw [ends] at held sorting
      obtain ⟨perm, ordered, count, _, compares⟩ := held
      by_cases same : (stop.heap.get ref : Sequence).length = contents.length
      · have stored : Exec.storeSorted ref contents.length sorted (stop.sorted machine.held) = _ :=
          storeSorted_of_same same
        rw [(Exec.ok_bind sorting).trans stored]
        refine ⟨sorted, stop, rfl, perm, ordered, get_set_of_length ?_⟩
        exact same.trans perm.size_eq.symm
      · have differ : ((stop.sorted machine.held).heap.get ref : Sequence).length ≠
            contents.length := same
        obtain ⟨fault, raised⟩ := storeSorted_of_differ sorted differ
        rw [(Exec.ok_bind sorting).trans raised, left]
        exact ⟨rfl, kept⟩

/-- Every sort ends and rearranges its values, by a strict partial order it leaves none behind a
value that it is less than, and sorting an array touches it only when the sort is done. -/
theorem sorts_in_order :
    (∀ {α ε σ : Type} (order : α → α → EStateM ε σ Ordering) (values : Array α) (state : σ),
      Quicksort.Sorts order values state) ∧
    (∀ {α ε σ : Type} (compare : α → α → Except ε Ordering), (∀ x, compare x x ≠ .ok .lt) →
      (∀ x y z, compare x y = .ok .lt → compare y z = .ok .lt → compare x z = .ok .lt) →
      ∀ (values after : Array α) (state stop : σ),
        Quicksort.sort (Quicksort.comparing compare) (values, state) = .ok () (after, stop) →
        after.toList.Pairwise fun x y => compare y x ≠ .ok .lt) ∧
    ∀ engine ref comparator machine, SortsArray engine ref comparator machine := by
  refine ⟨Quicksort.sorts, fun compare irrefl trans values after state stop ends => ?_, sortsArray⟩
  have held := (Quicksort.sorts (Quicksort.comparing compare) values state).2
  rw [ends] at held
  exact held.2.1 _ (Quicksort.decides_comparing irrefl trans)

/-- Numbers that differ by at most one count as equal. -/
def Quicksort.compareApart (x y : Nat) : Except Unit Ordering :=
  .ok (if x + 1 < y then .lt else if y + 1 < x then .gt else .eq)

theorem sorts_in_order_apart :
    Quicksort.sort (σ := Unit) (Quicksort.comparing Quicksort.compareApart)
      (#[3, 1, 4, 6, 5, 9, 2, 6], ()) = .ok () (#[1, 3, 2, 5, 4, 6, 6, 9], ()) ∧
    #[1, 3, 2, 5, 4, 6, 6, 9].toList.Pairwise fun x y =>
      Quicksort.compareApart y x ≠ .ok .lt := by
  have less : ∀ x y, Quicksort.compareApart x y = .ok .lt ↔ x + 1 < y := by
    intro x y
    rw [Quicksort.compareApart]
    split
    · simpa
    · split <;> simp only [Except.ok.injEq, reduceCtorEq, false_iff] <;> omega
  have sorted : Quicksort.sort (σ := Unit) (Quicksort.comparing Quicksort.compareApart)
      (#[3, 1, 4, 6, 5, 9, 2, 6], ()) = .ok () (#[1, 3, 2, 5, 4, 6, 6, 9], ()) := rfl
  refine ⟨sorted, sorts_in_order.2.1 Quicksort.compareApart (fun x => ?_) (fun x y z => ?_)
    #[3, 1, 4, 6, 5, 9, 2, 6] #[1, 3, 2, 5, 4, 6, 6, 9] () () sorted⟩
  · rw [Ne, less]
    omega
  · rw [less, less, less]
    omega

end ScriptMachine
