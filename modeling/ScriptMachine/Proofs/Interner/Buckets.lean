import Mathlib.Algebra.Ring.Nat
import Mathlib.Data.Finset.Card
import Mathlib.Data.List.Nodup
import ScriptMachine.Interner

/-!
# Buckets of an interner

`Interner.Lists` says that the buckets of an interner list exactly some copies, each of them once
and in the bucket of its hash, and that the entries have been counted.  Every operation on buckets
is given by what it does to the set of copies that are listed.
-/

namespace ScriptMachine

namespace Interner

/-! ## Powers of two -/

theorem exists_powerOfTwoAbove (n : Nat) : ∃ exponent, powerOfTwoAbove n = 2 ^ exponent := by
  rw [powerOfTwoAbove]
  split
  · exact ⟨0, rfl⟩
  · exact ⟨_, Nat.one_shiftLeft _⟩

theorem le_powerOfTwoAbove (n : Nat) : n ≤ powerOfTwoAbove n := by
  rw [powerOfTwoAbove]
  split
  · assumption
  · rw [Nat.one_shiftLeft]
    have above := @Nat.lt_log2_self (n - 1)
    omega

/-- No smaller power of two is at least the number. -/
theorem powerOfTwoAbove_le_iff {n exponent : Nat} :
    powerOfTwoAbove n ≤ 2 ^ exponent ↔ n ≤ 2 ^ exponent := by
  refine ⟨(le_powerOfTwoAbove n).trans, fun below => ?_⟩
  rw [powerOfTwoAbove]
  split
  · exact Nat.one_le_two_pow
  · rename_i several
    rw [Nat.one_shiftLeft]
    have least := (Nat.log2_lt (n := n - 1) (k := exponent) (by omega)).mpr (by omega)
    exact Nat.pow_le_pow_right (by omega) least

theorem powerOfTwoAbove_mono : Monotone powerOfTwoAbove := by
  intro m n below
  obtain ⟨exponent, power⟩ := exists_powerOfTwoAbove n
  rw [power, powerOfTwoAbove_le_iff, ← power]
  exact below.trans (le_powerOfTwoAbove n)

theorem powerOfTwoAbove_max (m n : Nat) :
    powerOfTwoAbove (max m n) = max (powerOfTwoAbove m) (powerOfTwoAbove n) :=
  powerOfTwoAbove_mono.map_max

theorem powerOfTwoAbove_succ (exponent : Nat) :
    powerOfTwoAbove (2 ^ exponent + 1) = 2 ^ (exponent + 1) := by
  refine (powerOfTwoAbove_le_iff.mpr ?_).antisymm ?_
  · have := Nat.two_pow_pos exponent
    omega
  · obtain ⟨other, power⟩ := exists_powerOfTwoAbove (2 ^ exponent + 1)
    have above := le_powerOfTwoAbove (2 ^ exponent + 1)
    rw [power] at above ⊢
    exact Nat.pow_le_pow_right Nat.two_pos ((Nat.pow_lt_pow_iff_right Nat.one_lt_two).mp above)

/-! ## What operations leave alone -/

variable {interner : Interner}

theorem bucket_setBucket {index : Nat} (inside : index < interner.bucketCount) (other : Nat)
    (handles : List Nat) :
    (interner.setBucket index handles).bucket other =
      if other = index then handles else interner.bucket other := by
  rw [bucket, bucket, setBucket, Array.getD_eq_getD_getElem?, Array.getD_eq_getD_getElem?,
    Array.getElem?_setIfInBounds]
  by_cases same : index = other
  · subst same
    rw [if_pos rfl, if_pos rfl, if_pos (show index < interner.buckets.size from inside),
      Option.getD_some]
  · rw [if_neg same, if_neg (Ne.symm same)]

theorem bucketCount_setBucket (index : Nat) (handles : List Nat) :
    (interner.setBucket index handles).bucketCount = interner.bucketCount :=
  Array.size_setIfInBounds

theorem bucket_of_lt {index : Nat} (inside : index < interner.buckets.toList.length) :
    interner.bucket index = interner.buckets.toList[index] := by
  rw [Array.length_toList] at inside
  rw [bucket, Array.getD_eq_getD_getElem?, Array.getElem?_eq_getElem inside, Option.getD_some,
    Array.getElem_toList]

theorem setBucket_bucket (index : Nat) :
    interner.setBucket index (interner.bucket index) = interner := by
  rw [setBucket, bucket, Array.getD_eq_getD_getElem?]
  congr 1
  refine Array.ext_getElem? fun other => ?_
  rw [Array.getElem?_setIfInBounds]
  split
  · rename_i same
    subst same
    split
    · rename_i inside
      rw [Array.getElem?_eq_getElem inside, Option.getD_some]
    · rename_i beyond
      rw [Array.getElem?_eq_none (Nat.le_of_not_lt beyond)]
  · rfl

theorem swapRemove_perm {handles : List Nat} {position : Nat} (inside : position < handles.length) :
    (swapRemove handles position).Perm (handles.eraseIdx position) := by
  obtain ⟨front, last, rfl⟩ : ∃ front last, handles = front ++ [last] :=
    ⟨_, _, (List.dropLast_append_getLast (List.ne_nil_of_length_pos (by omega))).symm⟩
  have found : (front ++ [last]).getLast? = some last := by simp
  rw [swapRemove, found]
  have moved := List.set_perm_cons_eraseIdx inside last
  obtain ⟨rest, ends⟩ : ∃ rest, (front ++ [last]).set position last = rest ++ [last] := by
    by_cases early : position < front.length
    · exact ⟨_, List.set_append_left position last early⟩
    · refine ⟨front, ?_⟩
      rw [List.set_append_right position last (by omega)]
      rw [List.length_append, List.length_singleton] at inside
      rw [show position - front.length = 0 by omega, List.set_cons_zero]
  dsimp only
  rw [ends] at moved ⊢
  rw [List.dropLast_concat]
  exact (List.perm_append_comm.trans moved).cons_inv

/-! ## Listing copies -/

/-- The bucket of a copy. -/
def home (interner : Interner) (handle : Nat) : Nat :=
  interner.bucketOf (interner.copy handle).hash

/-- The buckets list exactly some copies, each of them once and in the bucket of its hash. -/
structure Lists (interner : Interner) (handles : Finset Nat) : Prop where
  positive : 0 < interner.bucketCount
  mem_iff : ∀ index handle,
    handle ∈ interner.bucket index ↔ handle ∈ handles ∧ interner.home handle = index
  nodup : ∀ index, (interner.bucket index).Nodup
  count_eq : interner.count = handles.card

namespace Lists

variable {handles : Finset Nat} {handle : Nat}

theorem home_lt (lists : interner.Lists handles) (handle : Nat) :
    interner.home handle < interner.bucketCount :=
  Nat.lt_of_le_of_lt Nat.and_le_right (Nat.sub_lt lists.positive Nat.one_pos)

theorem mem_home (lists : interner.Lists handles) (listed : handle ∈ handles) :
    handle ∈ interner.bucket (interner.home handle) := (lists.mem_iff _ _).mpr ⟨listed, rfl⟩

/-- The buckets are the same under another view of the copies, as long as these keep their
hashes. -/
theorem congr {other : Interner} (lists : interner.Lists handles)
    (buckets : other.buckets = interner.buckets) (count : other.count = interner.count)
    (hashes : ∀ handle ∈ handles, (other.copy handle).hash = (interner.copy handle).hash) :
    other.Lists handles where
  positive := by
    rw [bucketCount, buckets]
    exact lists.positive
  mem_iff := by
    intro index handle
    rw [bucket, buckets]
    refine (lists.mem_iff index handle).trans (and_congr_right fun listed => ?_)
    rw [home, home, bucketOf, bucketOf, bucketCount, bucketCount, buckets, hashes handle listed]
  nodup := by
    intro index
    rw [bucket, buckets]
    exact lists.nodup index
  count_eq := count.trans lists.count_eq

theorem mem_entries_iff (lists : interner.Lists handles) :
    handle ∈ interner.entries ↔ handle ∈ handles := by
  rw [entries, List.mem_flatten]
  constructor
  · rintro ⟨bucket, among, listed⟩
    obtain ⟨index, inside, rfl⟩ := List.getElem_of_mem among
    rw [← bucket_of_lt inside] at listed
    exact ((lists.mem_iff _ _).mp listed).1
  · intro listed
    have inside : interner.home handle < interner.buckets.toList.length :=
      Array.length_toList ▸ lists.home_lt handle
    have here := lists.mem_home listed
    rw [bucket_of_lt inside] at here
    exact ⟨_, List.getElem_mem inside, here⟩

theorem nodup_entries (lists : interner.Lists handles) : interner.entries.Nodup := by
  rw [entries, List.nodup_flatten]
  refine ⟨fun bucket among => ?_, List.pairwise_iff_getElem.mpr fun i j inI inJ before => ?_⟩
  · obtain ⟨index, inside, rfl⟩ := List.getElem_of_mem among
    rw [← bucket_of_lt inside]
    exact lists.nodup index
  · rw [← bucket_of_lt inI, ← bucket_of_lt inJ]
    intro handle first second
    have apart := ((lists.mem_iff _ _).mp first).2.symm.trans ((lists.mem_iff _ _).mp second).2
    omega

theorem length_entries (lists : interner.Lists handles) :
    interner.entries.length = handles.card := by
  rw [← List.toFinset_card_of_nodup lists.nodup_entries]
  congr 1
  ext handle
  rw [List.mem_toFinset, lists.mem_entries_iff]

/-- Nothing is dropped from a bucket that lists copies only that somebody holds. -/
theorem prune_eq (lists : interner.Lists handles)
    (held : ∀ handle ∈ handles, interner.isHeld handle) (index : Nat) :
    interner.prune index = interner := by
  have all : (interner.bucket index).filter interner.isHeld = interner.bucket index :=
    List.filter_eq_self.mpr fun handle listed => held handle ((lists.mem_iff _ _).mp listed).1
  rw [prune, all, setBucket_bucket, Nat.sub_self, Nat.sub_zero]

theorem bucket_list (lists : interner.Lists handles) (handle index : Nat) :
    (interner.list handle).bucket index =
      if index = interner.home handle then interner.bucket (interner.home handle) ++ [handle]
      else interner.bucket index := bucket_setBucket (lists.home_lt handle) _ _

theorem list (lists : interner.Lists handles) (fresh : handle ∉ handles) :
    (interner.list handle).Lists (Insert.insert handle handles) where
  positive := (bucketCount_setBucket _ _).symm ▸ lists.positive
  mem_iff := by
    intro index other
    have homes : (interner.list handle).home other = interner.home other := by
      rw [home, home, bucketOf, bucketOf, Interner.list, bucketCount, bucketCount, setBucket,
        Array.size_setIfInBounds]
      rfl
    rw [lists.bucket_list, homes, Finset.mem_insert, or_and_right, ← lists.mem_iff]
    split
    · rename_i here
      rw [List.mem_append, List.mem_singleton, or_comm, here]
      refine or_congr_left (iff_self_and.mpr ?_)
      rintro rfl
      rfl
    · rename_i apart
      refine (or_iff_right ?_).symm
      rintro ⟨rfl, here⟩
      exact apart here.symm
  nodup := by
    intro index
    rw [lists.bucket_list]
    split
    · refine List.nodup_append.mpr ⟨lists.nodup _, List.nodup_singleton _, ?_⟩
      rintro other listed _ new rfl
      rw [List.mem_singleton] at new
      exact fresh (new ▸ ((lists.mem_iff _ _).mp listed).1)
    · exact lists.nodup index
  count_eq := by
    rw [Finset.card_insert_of_notMem fresh, ← lists.count_eq]
    rfl

theorem foldl_list {more : List Nat} (lists : interner.Lists handles) (nodup : more.Nodup)
    (fresh : ∀ handle ∈ more, handle ∉ handles) :
    (more.foldl Interner.list interner).Lists (handles ∪ more.toFinset) := by
  induction more generalizing interner handles with
  | nil => simpa using lists
  | cons handle rest ih =>
      obtain ⟨apart, nodup⟩ := List.nodup_cons.mp nodup
      have here := lists.list (fresh handle (List.mem_cons_self ..))
      have there := ih here nodup fun other among => by
        rw [Finset.mem_insert, not_or]
        exact ⟨fun same => apart (same ▸ among), fresh other (List.mem_cons_of_mem _ among)⟩
      rwa [List.toFinset_cons, Finset.union_insert, ← Finset.insert_union]

theorem empty_buckets (interner : Interner) {buckets : Nat} (positive : 0 < buckets) :
    Lists { interner with buckets := Array.replicate buckets [], count := 0 } ∅ where
  positive := by
    rw [bucketCount, Array.size_replicate]
    exact positive
  mem_iff := by
    intro index handle
    have none : Interner.bucket
        { interner with buckets := Array.replicate buckets [], count := 0 } index = [] := by
      rw [Interner.bucket, Array.getD_eq_getD_getElem?, Array.getElem?_replicate]
      split <;> rfl
    rw [none]
    simp
  nodup := by
    intro index
    rw [Interner.bucket, Array.getD_eq_getD_getElem?, Array.getElem?_replicate]
    split <;> exact List.nodup_nil
  count_eq := rfl

/-- Spreading the copies over another number of buckets loses none of them. -/
theorem resize (lists : interner.Lists handles)
    (held : ∀ handle ∈ handles, interner.isHeld handle) {buckets : Nat} (positive : 0 < buckets) :
    (interner.resize buckets).Lists handles := by
  have all : interner.entries.filter interner.isHeld = interner.entries :=
    List.filter_eq_self.mpr fun handle listed => held handle (lists.mem_entries_iff.mp listed)
  have spread := (empty_buckets interner positive).foldl_list lists.nodup_entries
    fun _ _ => Finset.notMem_empty _
  have same : interner.entries.toFinset = handles := by
    ext handle
    rw [List.mem_toFinset, lists.mem_entries_iff]
  rw [Interner.resize, all]
  rwa [Finset.empty_union, same] at spread

/-- Taking a listed copy off its bucket removes its only entry. -/
theorem unlink_eq (lists : interner.Lists handles) (listed : handle ∈ handles) :
    ∃ rest : List Nat, rest.Perm ((interner.bucket (interner.home handle)).erase handle) ∧
      interner.unlink handle =
        { interner.setBucket (interner.home handle) rest with count := interner.count - 1 } := by
  obtain ⟨position, found⟩ := Option.isSome_iff_exists.mp
    (List.isSome_idxOf?.mpr (lists.mem_home listed))
  refine ⟨_, ?_, by rw [Interner.unlink]; dsimp only; rw [← home, found]⟩
  rw [List.erase_eq_eraseIdx, found]
  exact swapRemove_perm (List.idxOf?_eq_some_iff.mp found).1

/-- Taking a copy off its bucket leaves the other copies listed. -/
theorem unlink (lists : interner.Lists handles) (listed : handle ∈ handles) :
    (interner.unlink handle).Lists (handles.erase handle) := by
  obtain ⟨rest, perm, unlinked⟩ := lists.unlink_eq listed
  have buckets (index : Nat) : (interner.unlink handle).bucket index =
      if index = interner.home handle then rest else interner.bucket index := by
    rw [unlinked]
    exact bucket_setBucket (lists.home_lt handle) _ _
  have size : (interner.unlink handle).bucketCount = interner.bucketCount := by
    rw [unlinked]
    exact bucketCount_setBucket _ _
  have homes (other : Nat) : (interner.unlink handle).home other = interner.home other := by
    rw [home, bucketOf, size, unlinked]
    rfl
  refine ⟨size ▸ lists.positive, fun index other => ?_, fun index => ?_, ?_⟩
  · rw [buckets, homes, Finset.mem_erase, and_assoc, ← lists.mem_iff]
    split
    · rename_i here
      rw [perm.mem_iff, (lists.nodup _).mem_erase_iff, here]
    · rename_i apart
      refine (and_iff_right_of_imp ?_).symm
      rintro among rfl
      exact apart ((lists.mem_iff _ _).mp among).2.symm
  · rw [buckets]
    split
    · exact perm.nodup_iff.mpr ((lists.nodup _).erase handle)
    · exact lists.nodup index
  · rw [unlinked, Finset.card_erase_of_mem listed, ← lists.count_eq]

end Lists

end Interner

end ScriptMachine
