import Mathlib.Data.List.Perm.Basic
import Mathlib.Order.Defs.Unbundled
import Mathlib.Tactic.Linarith
import Mathlib.Tactic.Ring
import ScriptMachine.Object.Quicksort

/-!
# What sorting does

`Quicksort.Rearranges` says that only values of a range have been exchanged, `Quicksort.Compares`
that a number of comparisons have been made one after the other.  Whatever the comparison does, a
sort exchanges values and ends after at most `n * (n - 1) / 2` comparisons, with the first error if
one fails.  Where the comparison decides a strict partial order, no value ends up behind one that
it is less than; equality need not be transitive for that.
-/

namespace ScriptMachine

namespace Quicksort

variable {α β ε σ : Type}

/-! ## Rearranging a range -/

/-- Values of a range have been exchanged, one pair after the other. -/
inductive Rearranges (low high : Nat) (before : Array α) : Array α → Prop
  | none : Rearranges low high before before
  | swap {values : Array α} {i j : Nat} : Rearranges low high before values →
      low ≤ i → i < high → low ≤ j → j < high →
      Rearranges low high before (values.swapIfInBounds i j)

theorem getElem?_swapIfInBounds (values : Array α) (i j k : Nat) :
    (values.swapIfInBounds i j)[k]? =
      if i < values.size ∧ j < values.size then
        if k = i then values[j]? else if k = j then values[i]? else values[k]?
      else values[k]? := by
  unfold Array.swapIfInBounds
  split <;> rename_i first
  · split <;> rename_i second
    · rw [if_pos (And.intro first second), Array.getElem?_swap, Array.getElem?_eq_getElem first,
        Array.getElem?_eq_getElem second]
      grind
    · rw [if_neg fun both => second both.2]
  · rw [if_neg fun both => first both.1]

theorem perm_swapIfInBounds (values : Array α) (i j : Nat) :
    (values.swapIfInBounds i j).Perm values := by
  unfold Array.swapIfInBounds
  split
  · split
    · exact Array.swap_perm _ _
    · exact .refl _
  · exact .refl _

namespace Rearranges

variable {low high : Nat} {before values after : Array α}

theorem single {i j : Nat} (lowI : low ≤ i) (highI : i < high) (lowJ : low ≤ j)
    (highJ : j < high) : Rearranges low high values (values.swapIfInBounds i j) :=
  none.swap lowI highI lowJ highJ

theorem trans (first : Rearranges low high before values)
    (second : Rearranges low high values after) : Rearranges low high before after := by
  induction second with
  | none => exact first
  | swap _ lowI highI lowJ highJ ih => exact ih.swap lowI highI lowJ highJ

theorem widen {low' high' : Nat} (moves : Rearranges low high before after) (lower : low' ≤ low)
    (upper : high ≤ high') : Rearranges low' high' before after := by
  induction moves with
  | none => exact none
  | swap _ lowI highI lowJ highJ ih =>
      exact ih.swap (by omega) (by omega) (by omega) (by omega)

theorem perm (moves : Rearranges low high before after) : after.Perm before := by
  induction moves with
  | none => exact .refl _
  | swap _ _ _ _ _ ih => exact (perm_swapIfInBounds _ _ _).trans ih

theorem size_eq (moves : Rearranges low high before after) : after.size = before.size :=
  moves.perm.size_eq

/-- Values outside the range stay where they are. -/
theorem outside (moves : Rearranges low high before after) {k : Nat} (out : k < low ∨ high ≤ k) :
    after[k]? = before[k]? := by
  induction moves with
  | none => rfl
  | @swap values i j _ lowI highI lowJ highJ ih =>
      have apart : k ≠ i ∧ k ≠ j := by omega
      rw [getElem?_swapIfInBounds, if_neg apart.1, if_neg apart.2, ite_self, ih]

/-- What holds of all values of the range goes on to do so. -/
theorem all (moves : Rearranges low high before after) (holds : α → Prop)
    (all : ∀ k x, low ≤ k → k < high → before[k]? = some x → holds x) :
    ∀ k x, low ≤ k → k < high → after[k]? = some x → holds x := by
  induction moves with
  | none => exact all
  | @swap values i j _ lowI highI lowJ highJ ih =>
      intro k x lowK highK found
      rw [getElem?_swapIfInBounds] at found
      split at found
      · split at found
        · exact ih j x lowJ highJ found
        · split at found
          · exact ih i x lowI highI found
          · exact ih k x lowK highK found
      · exact ih k x lowK highK found

end Rearranges

/-! ## Comparing -/

/-- So many comparisons have been made one after the other, all of them with a result, and have led
from one state to another. -/
inductive Compares (order : α → α → EStateM ε σ Ordering) (start : σ) : Nat → σ → Prop
  | none : Compares order start 0 start
  | next {count : Nat} {state after : σ} {x y : α} {result : Ordering} :
      Compares order start count state → order x y state = .ok result after →
      Compares order start (count + 1) after

theorem Compares.trans {order : α → α → EStateM ε σ Ordering} {start middle stop : σ}
    {count more : Nat} (first : Compares order start count middle)
    (second : Compares order middle more stop) : Compares order start (count + more) stop := by
  induction second with
  | none => exact first
  | next _ result ih => exact ih.next result

/-- After so many comparisons with a result, one more has failed. -/
def Fails (order : α → α → EStateM ε σ Ordering) (start : σ) (count : Nat) (cause : ε)
    (stop : σ) : Prop :=
  ∃ state x y, Compares order start count state ∧ order x y state = .error cause stop

/-- The results of a comparison tell which values are less than which, and that is a strict
partial order. -/
structure Decides (order : α → α → EStateM ε σ Ordering) (less : α → α → Prop) : Prop where
  tells : ∀ {x y state result after}, order x y state = .ok result after →
    (result = .lt ↔ less x y)
  irrefl : ∀ x, ¬less x x
  trans : ∀ {x y z}, less x y → less y z → less x z

/-! ## What parts of a sort do -/

variable {order : α → α → EStateM ε σ Ordering}

/-- A part of a sort rearranges values of a range with at most so many comparisons; if it has a
result, that is as described, and otherwise a comparison has failed. -/
def Does (order : α → α → EStateM ε σ Ordering) (action : Sorting α ε σ β) (values : Array α)
    (low high limit : Nat) (done : β → Array α → Prop) : Prop :=
  ∀ state, match action (values, state) with
    | .ok result (after, stop) => Rearranges low high values after ∧ done result after ∧
        ∃ count ≤ limit, Compares order state count stop
    | .error cause (after, stop) => Rearranges low high values after ∧
        ∃ count < limit, Fails order state count cause stop

namespace Does

variable {action : Sorting α ε σ β} {values : Array α} {low high limit : Nat}
  {done : β → Array α → Prop}

theorem mono (does : Does order action values low high limit done) {low' high' limit' : Nat}
    {done' : β → Array α → Prop} (lower : low' ≤ low) (upper : high ≤ high')
    (more : limit ≤ limit')
    (whenDone : ∀ result after, Rearranges low high values after → done result after →
      done' result after) :
    Does order action values low' high' limit' done' := by
  intro state
  have held := does state
  cases ends : action (values, state) with
  | ok result next =>
      rw [ends] at held
      obtain ⟨moves, holds, count, within, compares⟩ := held
      exact ⟨moves.widen lower upper, whenDone _ _ moves holds, count, by omega, compares⟩
  | error cause next =>
      rw [ends] at held
      obtain ⟨moves, count, within, fails⟩ := held
      exact ⟨moves.widen lower upper, count, by omega, fails⟩

theorem bind {γ : Type} {following : β → Sorting α ε σ γ} (more : Nat)
    {done' : γ → Array α → Prop} (does : Does order action values low high limit done)
    (further : ∀ result after, Rearranges low high values after → done result after →
      Does order (following result) after low high more done') :
    Does order (action >>= following) values low high (limit + more) done' := by
  intro state
  have held := does state
  have unfolded : (action >>= following) (values, state) =
      EStateM.bind action following (values, state) := rfl
  rw [unfolded, EStateM.bind]
  cases ends : action (values, state) with
  | error cause next =>
      rw [ends] at held
      obtain ⟨moves, count, within, fails⟩ := held
      exact ⟨moves, count, by omega, fails⟩
  | ok result next =>
      rw [ends] at held
      obtain ⟨moves, holds, count, within, compares⟩ := held
      have held' := further result next.1 moves holds next.2
      dsimp only
      cases ends' : following result next with
      | ok result' next' =>
          rw [ends'] at held'
          obtain ⟨moves', holds', count', within', compares'⟩ := held'
          exact ⟨moves.trans moves', holds', count + count', by omega, compares.trans compares'⟩
      | error cause next' =>
          rw [ends'] at held'
          obtain ⟨moves', count', within', state', x, y, compares', fails⟩ := held'
          exact ⟨moves.trans moves', count + count', by omega, state', x, y,
            compares.trans compares', fails⟩

theorem bind_congr {γ : Type} {following following' : β → Sorting α ε σ γ} {allowed : β → Prop}
    (does : ∀ values, Does order action values low high limit fun result _ => allowed result)
    (same : ∀ result, allowed result → following result = following' result) :
    action >>= following = action >>= following' := by
  funext start
  show EStateM.bind _ _ _ = EStateM.bind _ _ _
  have held := does start.1 start.2
  rw [EStateM.bind, EStateM.bind]
  cases ends : action start with
  | error cause next => rfl
  | ok result next =>
      rw [ends] at held
      exact congrFun (same result held.2.1) next

theorem pure {result : β} (holds : done result values) :
    Does order (Pure.pure result) values low high 0 done :=
  fun _ => ⟨.none, holds, 0, le_rfl, .none⟩

end Does

variable {values : Array α} {low high : Nat}

theorem does_swapAt {i j : Nat} (lowI : low ≤ i) (highI : i < high) (lowJ : low ≤ j)
    (highJ : j < high) :
    Does order (swapAt i j : Sorting α ε σ Unit) values low high 0
      fun _ after => after = values.swapIfInBounds i j :=
  fun _ => ⟨.single lowI highI lowJ highJ, rfl, 0, le_rfl, .none⟩

theorem does_compareAt (i j : Nat) :
    Does order (compareAt order i j) values low high 1 fun result after => after = values ∧
      ∀ less, Decides order less → ∀ x y, values[i]? = some x → values[j]? = some y →
        (result = .lt ↔ less x y) := by
  intro state
  rw [compareAt]
  cases first : values[i]? with
  | none => exact ⟨.none, ⟨rfl, fun _ _ x y found => by simp at found⟩, 0, Nat.zero_le _, .none⟩
  | some x =>
      cases second : values[j]? with
      | none =>
          exact ⟨.none, ⟨rfl, fun _ _ x y _ found => by simp at found⟩, 0, Nat.zero_le _, .none⟩
      | some y =>
          dsimp only
          cases ends : order x y state with
          | ok result stop =>
              refine ⟨.none, ⟨rfl, fun less decides x' y' first' second' => ?_⟩, 1, le_rfl,
                Compares.none.next ends⟩
              cases first'
              cases second'
              exact decides.tells ends
          | error cause stop => exact ⟨.none, 0, Nat.one_pos, state, x, y, .none, ends⟩

/-- The values of a range from its middle on are not less than the one at the pivot's position, and
those in front of its middle are. -/
def Parted (less : α → α → Prop) (values : Array α) (pivot low middle high : Nat) : Prop :=
  ∀ k x y, values[k]? = some x → values[pivot]? = some y →
    (low ≤ k → k < middle → less x y) ∧ (middle ≤ k → k < high → ¬less x y)

/-- A value that is not less than the pivot stays where it is. -/
theorem Parted.keep {less : α → α → Prop} {last index store : Nat}
    (parted : Parted less values last low store index)
    (outcome : ∀ x y, values[index]? = some x → values[last]? = some y → ¬less x y) :
    Parted less values last low store (index + 1) := by
  intro k x y atK atLast
  refine ⟨(parted k x y atK atLast).1, fun lowK highK => ?_⟩
  rcases Nat.lt_succ_iff_lt_or_eq.mp highK with inside | rfl
  · exact (parted k x y atK atLast).2 lowK inside
  · exact outcome x y atK atLast

/-- A value that is less than the pivot changes places with the first one that is not. -/
theorem Parted.exchange {less : α → α → Prop} {last index store : Nat}
    (parted : Parted less values last low store index) (before : low ≤ store)
    (ahead : store ≤ index) (within : index < last)
    (outcome : ∀ x y, values[index]? = some x → values[last]? = some y → less x y) :
    Parted less (values.swapIfInBounds index store) last low (store + 1) (index + 1) := by
  intro k x y atK atLast
  have size : last < values.size := by
    have inside := (Array.getElem?_eq_some_iff.mp atLast).1
    rwa [(perm_swapIfInBounds values index store).size_eq] at inside
  rw [getElem?_swapIfInBounds, if_pos ⟨by omega, by omega⟩] at atK atLast
  have apart : last ≠ index ∧ last ≠ store := by omega
  rw [if_neg apart.1, if_neg apart.2] at atLast
  refine ⟨fun lowK highK => ?_, fun lowK highK => ?_⟩
  · rcases Nat.lt_succ_iff_lt_or_eq.mp highK with inside | rfl
    · rw [if_neg (by omega), if_neg (by omega)] at atK
      exact (parted k x y atK atLast).1 lowK inside
    · refine outcome x y ?_ atLast
      split at atK
      · rename_i same
        rw [← same]
        exact atK
      · rwa [if_pos rfl] at atK
  · rcases Nat.lt_succ_iff_lt_or_eq.mp highK with inside | rfl
    · rw [if_neg (by omega), if_neg (by omega)] at atK
      exact (parted k x y atK atLast).2 (by omega) inside
    · rw [if_pos rfl] at atK
      exact (parted store x y atK atLast).2 le_rfl (by omega)

/-- A sweep leaves the values that are less than the pivot in front of the others. -/
theorem does_sweep {last : Nat} (steps index store : Nat) (values : Array α)
    (before : low ≤ store) (ahead : store ≤ index) (within : index + steps ≤ last) :
    Does order (sweep order last steps index store) values low (index + steps) steps
      fun result after => store ≤ result ∧ result ≤ store + steps ∧
        ∀ less, Decides order less → Parted less values last low store index →
          Parted less after last low result (index + steps) := by
  induction steps generalizing index store values with
  | zero => exact .pure ⟨le_rfl, le_rfl, fun _ _ parted => parted⟩
  | succ steps ih =>
      have shift : index + (steps + 1) = index + 1 + steps := by omega
      rw [sweep, Nat.add_comm steps 1, Nat.add_comm 1 steps, shift, Nat.add_comm steps 1]
      refine (does_compareAt index last).bind steps fun result after _ held => ?_
      obtain ⟨rfl, tells⟩ := held
      split <;> rename_i outcome
      · refine ((does_swapAt (by omega) (by omega) before (by omega)).bind
          steps (fun _ moved _ same => ?_)).mono le_rfl le_rfl (Nat.zero_add steps).le
            fun _ _ _ held => held
        subst same
        refine (ih (index + 1) (store + 1) _ (by omega) (by omega) (by omega)).mono le_rfl
          le_rfl le_rfl fun result' after' _ held => ⟨by omega, by omega, fun less decides
            parted => ?_⟩
        refine held.2.2 less decides (parted.exchange before ahead (by omega) fun x y atX atY => ?_)
        exact (tells less decides x y atX atY).mp (by simpa using outcome)
      · refine (ih (index + 1) store _ before (by omega) (by omega)).mono le_rfl le_rfl le_rfl
          fun result' after' _ held => ⟨by omega, by omega, fun less decides parted => ?_⟩
        refine held.2.2 less decides (parted.keep fun x y atX atY isLess => ?_)
        exact outcome (by simpa using (tells less decides x y atX atY).mpr isLess)

/-- The pivot of a range stands where it belongs. -/
structure Split (less : α → α → Prop) (values : Array α) (low pivot high : Nat) : Prop where
  front : ∀ k x y, low ≤ k → k < pivot → values[k]? = some x → values[pivot]? = some y → less x y
  back : ∀ k x y, pivot < k → k < high → values[k]? = some x → values[pivot]? = some y → ¬less x y

theorem Parted.split {less : α → α → Prop} {last store : Nat}
    (parted : Parted less values last low store last) (within : store ≤ last)
    (size : last < values.size) :
    Split less (values.swapIfInBounds store last) low store (last + 1) := by
  have inBounds : store < values.size ∧ last < values.size := ⟨by omega, size⟩
  constructor
  · intro k x y lowK highK atK atPivot
    rw [getElem?_swapIfInBounds, if_pos inBounds] at atK atPivot
    rw [if_pos rfl] at atPivot
    rw [if_neg (by omega), if_neg (by omega)] at atK
    exact (parted k x y atK atPivot).1 lowK highK
  · intro k x y lowK highK atK atPivot
    rw [getElem?_swapIfInBounds, if_pos inBounds] at atK atPivot
    rw [if_pos rfl] at atPivot
    rw [if_neg (by omega)] at atK
    split at atK
    · exact (parted store x y atK atPivot).2 le_rfl (by omega)
    · exact (parted k x y atK atPivot).2 (by omega) (by omega)

/-- Parting a range takes one comparison less than it has values. -/
theorem does_part {size : Nat} (several : 1 < size) :
    Does order (part order low size) values low (low + size) (size - 1)
      fun pivot after => low ≤ pivot ∧ pivot < low + size ∧
        ∀ less, Decides order less → low + size ≤ values.size →
          Split less after low pivot (low + size) := by
  obtain ⟨last, rfl⟩ : ∃ last, size = last + 1 := ⟨size - 1, by omega⟩
  rw [part]
  refine ((does_swapAt (by omega) (by omega) (by omega) (by omega)).bind last
    fun _ moved moves _ => ?_).mono le_rfl le_rfl (Nat.zero_add _).le fun _ _ _ => id
  have swept : Does order (sweep order (low + last) last low low) moved low (low + (last + 1)) last
      _ := (does_sweep last low low moved le_rfl le_rfl le_rfl).mono le_rfl (by omega) le_rfl
    fun _ _ _ => id
  refine swept.bind 0 fun store parted moves' held => ?_
  refine (does_swapAt (by omega) (by omega) (by omega) (by omega)).bind 0
    fun _ after _ same => .pure ?_
  subst same
  refine ⟨held.1, by omega, fun less decides inside => ?_⟩
  have parts : Parted less parted (low + last) low store (low + last) :=
    held.2.2 less decides fun _ _ _ _ _ => ⟨fun _ _ => by omega, fun _ _ => by omega⟩
  refine parts.split (by omega) ?_
  rw [moves'.size_eq, moves.size_eq]
  omega

/-- No value of a range is less than one in front of it. -/
def Ascending (less : α → α → Prop) (values : Array α) (low high : Nat) : Prop :=
  ∀ i j x y, low ≤ i → i < j → j < high → values[i]? = some x → values[j]? = some y → ¬less y x

theorem Ascending.congr {less : α → α → Prop} {after : Array α}
    (ascending : Ascending less values low high)
    (same : ∀ k, low ≤ k → k < high → after[k]? = values[k]?) : Ascending less after low high := by
  intro i j x y lowI before highJ atI atJ
  rw [same i lowI (by omega)] at atI
  rw [same j (by omega) highJ] at atJ
  exact ascending i j x y lowI before highJ atI atJ

namespace Split

variable {less : α → α → Prop} {after : Array α} {pivot : Nat}

theorem rearrange_front (split : Split less values low pivot high)
    (moves : Rearranges low pivot values after) : Split less after low pivot high := by
  refine ⟨fun k x y lowK highK atK atPivot => ?_, fun k x y lowK highK atK atPivot => ?_⟩
  · rw [moves.outside (.inr le_rfl)] at atPivot
    exact moves.all (less · y)
      (fun k x lowK highK atK => split.front k x y lowK highK atK atPivot) k x lowK highK atK
  · rw [moves.outside (.inr le_rfl)] at atPivot
    rw [moves.outside (.inr (by omega))] at atK
    exact split.back k x y lowK highK atK atPivot

theorem rearrange_back (split : Split less values low pivot high)
    (moves : Rearranges (pivot + 1) high values after) : Split less after low pivot high := by
  refine ⟨fun k x y lowK highK atK atPivot => ?_, fun k x y lowK highK atK atPivot => ?_⟩
  · rw [moves.outside (.inl (by omega))] at atK atPivot
    exact split.front k x y lowK highK atK atPivot
  · rw [moves.outside (.inl (by omega))] at atPivot
    exact moves.all (¬less · y)
      (fun k x lowK highK atK => split.back k x y lowK highK atK atPivot) k x lowK highK atK

/-- Two parts in order around their pivot are in order. -/
theorem ascending (split : Split less values low pivot high) (decides : Decides order less)
    (inBounds : pivot < values.size) (front : Ascending less values low pivot)
    (back : Ascending less values (pivot + 1) high) : Ascending less values low high := by
  intro i j x y lowI before highJ atI atJ isLess
  have atPivot := Array.getElem?_eq_getElem inBounds
  rcases Nat.lt_trichotomy j pivot with jFront | rfl | jBack
  · exact front i j x y lowI before jFront atI atJ isLess
  · exact decides.irrefl _ (decides.trans isLess (split.front i x y lowI before atI atJ))
  · rcases Nat.lt_trichotomy i pivot with iFront | rfl | iBack
    · have least := split.front i x _ lowI iFront atI atPivot
      exact split.back j y _ jBack highJ atJ atPivot (decides.trans isLess least)
    · exact split.back j y x jBack highJ atJ atI isLess
    · exact back i j x y iBack before highJ atI atJ isLess

end Split

/-- A part of a sort that puts a range in order. -/
def Orders (order : α → α → EStateM ε σ Ordering) (action : Sorting α ε σ Unit) (low high : Nat)
    (limit : Nat) : Prop :=
  ∀ values, Does order action values low high limit fun _ after =>
    ∀ less, Decides order less → high ≤ values.size → Ascending less after low high

section Halves

variable {front back : Sorting α ε σ Unit} {pivot fewer more : Nat}
  (ordersFront : Orders order front low pivot fewer)
  (ordersBack : Orders order back (pivot + 1) high more) (lower : low ≤ pivot)
  (upper : pivot < high)

include ordersFront ordersBack lower upper

theorem does_front_back (values : Array α) :
    Does order (do front; back) values low high (fewer + more) fun _ after =>
      ∀ less, Decides order less → high ≤ values.size → Split less values low pivot high →
        Ascending less after low high := by
  have first : Does order front values low high fewer fun _ after =>
      Rearranges low pivot values after ∧ ∀ less, Decides order less → pivot ≤ values.size →
        Ascending less after low pivot :=
    (ordersFront values).mono le_rfl upper.le le_rfl fun _ _ moves held => ⟨moves, held⟩
  refine first.bind more fun _ middle _ held => ?_
  refine (ordersBack middle).mono (by omega) le_rfl le_rfl fun _ after moves ascends less decides
    inside split => ?_
  have size := held.1.size_eq
  have size' := moves.size_eq
  have front : Ascending less after low pivot :=
    (held.2 less decides (by omega)).congr fun k _ highK => moves.outside (.inl (by omega))
  exact ((split.rearrange_front held.1).rearrange_back moves).ascending decides (by omega) front
    (ascends less decides (by omega))

theorem does_back_front (values : Array α) :
    Does order (do back; front) values low high (more + fewer) fun _ after =>
      ∀ less, Decides order less → high ≤ values.size → Split less values low pivot high →
        Ascending less after low high := by
  have first : Does order back values low high more fun _ after =>
      Rearranges (pivot + 1) high values after ∧ ∀ less, Decides order less →
        high ≤ values.size → Ascending less after (pivot + 1) high :=
    (ordersBack values).mono (by omega) le_rfl le_rfl fun _ _ moves held => ⟨moves, held⟩
  refine first.bind fewer fun _ middle _ held => ?_
  refine (ordersFront middle).mono le_rfl upper.le le_rfl fun _ after moves ascends less decides
    inside split => ?_
  have size := held.1.size_eq
  have size' := moves.size_eq
  have back : Ascending less after (pivot + 1) high :=
    (held.2 less decides inside).congr fun k lowK _ => moves.outside (.inr (by omega))
  exact ((split.rearrange_back held.1).rearrange_front moves).ascending decides (by omega)
    (ascends less decides (by omega)) back

end Halves

/-- The number of pairs of so many values. -/
def pairs (size : Nat) : Nat := size * (size - 1) / 2

theorem pairs_succ (left right : Nat) :
    left + right + (pairs left + pairs right) ≤ pairs (left + right + 1) := by
  have half : ∀ n, 2 * pairs n ≤ n * (n - 1) := fun n => Nat.mul_div_le _ _
  have square : ∀ n, n * (n - 1) + n = n * n := by
    intro n
    cases n <;> simp [Nat.mul_succ]
  have whole : (left + right + 1) * (left + right) =
      left * left + right * right + 2 * (left * right) + left + right := by ring
  have left' := half left
  have right' := half right
  have squareLeft := square left
  have squareRight := square right
  refine (Nat.le_div_iff_mul_le (by omega)).mpr ?_
  rw [Nat.add_sub_cancel, whole]
  omega

/-- Sorting a range makes at most as many comparisons as there are pairs of its values. -/
theorem orders_sortRange (order : α → α → EStateM ε σ Ordering) (depth low size : Nat)
    (enough : size ≤ depth) :
    Orders order (sortRange order depth low size) low (low + size) (pairs size) := by
  induction depth generalizing low size with
  | zero =>
      intro values
      obtain rfl : size = 0 := by omega
      exact .pure fun _ _ _ i j x y => by omega
  | succ depth ih =>
      intro values
      rw [sortRange]
      split
      · exact (Does.pure (fun _ _ _ i j x y => by omega)).mono le_rfl le_rfl (Nat.zero_le _)
          fun _ _ _ => id
      · rename_i several
        refine ((does_part (by omega)).bind (pairs size - (size - 1))
          fun pivot parted moves held => ?_).mono le_rfl le_rfl ?_ fun _ _ _ => id
        · obtain ⟨left, rfl⟩ := Nat.exists_eq_add_of_le held.1
          obtain ⟨right, rfl⟩ : ∃ right, size = left + right + 1 := ⟨size - left - 1, by omega⟩
          have limit := pairs_succ left right
          have front := ih low left (by omega)
          have back := ih (low + left + 1) right (by omega)
          rw [show low + left + 1 + right = low + (left + right + 1) by omega] at back
          have size := moves.size_eq
          dsimp only
          rw [Nat.add_sub_cancel_left low left,
            show left + right + 1 - left - 1 = right by omega]
          split
          · exact (does_front_back front back (by omega) (by omega) parted).mono le_rfl le_rfl
              (by omega) fun _ _ _ held' less decides inside =>
                held' less decides (by omega) (held.2.2 less decides inside)
          · exact (does_back_front front back (by omega) (by omega) parted).mono le_rfl le_rfl
              (by omega) fun _ _ _ held' less decides inside =>
                held' less decides (by omega) (held.2.2 less decides inside)
        · have limit := pairs_succ 0 (size - 1)
          rw [show 0 + (size - 1) + 1 = size by omega] at limit
          omega

/-- The size of a range is a depth at which sorting it is not cut short: any other depth that is as
large makes no difference. -/
theorem sortRange_eq_of_le (depth depth' low size : Nat) (enough : size ≤ depth)
    (enough' : size ≤ depth') :
    sortRange order depth low size = sortRange order depth' low size := by
  induction depth generalizing depth' low size with
  | zero =>
      obtain rfl : size = 0 := by omega
      cases depth' <;> rfl
  | succ depth ih =>
      cases depth' with
      | zero =>
          obtain rfl : size = 0 := by omega
          rfl
      | succ depth' =>
          rw [sortRange, sortRange]
          split
          · rfl
          · rename_i several
            have inside : ∀ values, Does order (part order low size) values low (low + size)
                (size - 1) fun pivot _ => low ≤ pivot ∧ pivot < low + size := fun values =>
              (does_part (by omega)).mono le_rfl le_rfl le_rfl
                fun _ _ _ held => ⟨held.1, held.2.1⟩
            refine Does.bind_congr inside fun pivot held => ?_
            extract_lets left right
            rw [ih depth' low left (by omega) (by omega),
              ih depth' (pivot + 1) right (by omega) (by omega)]

theorem sort_eq (values : Array α) (state : σ) :
    sort order (values, state) = sortRange order values.size 0 values.size (values, state) := rfl

theorem does_sort (order : α → α → EStateM ε σ Ordering) (values : Array α) :
    Does order (sort order) values 0 values.size (pairs values.size) fun _ after =>
      ∀ less, Decides order less → after.toList.Pairwise fun x y => ¬less y x := by
  have ordered : ∀ after, Rearranges 0 (0 + values.size) values after →
      (∀ less, Decides order less → 0 + values.size ≤ values.size →
        Ascending less after 0 (0 + values.size)) →
      ∀ less, Decides order less → after.toList.Pairwise fun x y => ¬less y x := by
    intro after moves ascends less decides
    have ascends := ascends less decides (Nat.zero_add _).le
    refine List.pairwise_iff_getElem.mpr fun i j inI inJ before => ?_
    have size := moves.size_eq
    rw [Array.length_toList] at inI inJ
    exact ascends i j _ _ (Nat.zero_le _) before (by omega)
      (Array.getElem?_eq_getElem inI) (Array.getElem?_eq_getElem inJ)
  exact (orders_sortRange order values.size 0 values.size le_rfl values).mono le_rfl
    (Nat.zero_add _).le le_rfl fun _ after => ordered after

/-- What every sort does: it ends, at whatever depth beyond the number of values it is cut off, and
after at most as many comparisons as there are pairs of values; the values are rearranged, and none
is left behind one that it is less than.  If it fails, that is because a comparison did, the first
one to fail and the last one made. -/
def Sorts (order : α → α → EStateM ε σ Ordering) (values : Array α) (state : σ) : Prop :=
  (∀ depth, values.size ≤ depth →
    sortRange order depth 0 values.size (values, state) = sort order (values, state)) ∧
  match sort order (values, state) with
  | .ok _ (after, stop) => after.Perm values ∧
      (∀ less, Decides order less → after.toList.Pairwise fun x y => ¬less y x) ∧
      ∃ count ≤ pairs values.size, Compares order state count stop
  | .error cause (after, stop) => after.Perm values ∧
      ∃ count < pairs values.size, Fails order state count cause stop

theorem sorts (order : α → α → EStateM ε σ Ordering) (values : Array α) (state : σ) :
    Sorts order values state := by
  refine ⟨fun depth enough => ?_, ?_⟩
  · rw [sort_eq, sortRange_eq_of_le depth values.size 0 values.size enough le_rfl]
  · have held := does_sort order values state
    cases ends : sort order (values, state) with
    | ok result next =>
        rw [ends] at held
        exact ⟨held.1.perm, held.2⟩
    | error cause next =>
        rw [ends] at held
        exact ⟨held.1.perm, held.2⟩

/-! ## The comparisons that a sort makes -/

/-- A comparison that has been made: of which values, and from which state to which. -/
structure Comparison (α σ : Type) where
  left : α
  right : α
  before : σ
  after : σ

/-- A comparison that is put on record, whatever comes of it, the last one first. -/
def recording (order : α → α → EStateM ε σ Ordering) :
    α → α → EStateM ε (σ × List (Comparison α σ)) Ordering := fun x y (state, made) =>
  match order x y state with
  | .ok result after => .ok result (after, ⟨x, y, state, after⟩ :: made)
  | .error cause after => .error cause (after, ⟨x, y, state, after⟩ :: made)

/-- The array and the state that a sort leaves behind, whether it fails or not. -/
def leaves (order : α → α → EStateM ε σ Ordering) (values : Array α) (state : σ) : Array α × σ :=
  match sort order (values, state) with
  | .ok _ next => next
  | .error _ next => next

/-- The comparisons that a sort makes, the last one first. -/
def comparisons (order : α → α → EStateM ε σ Ordering) (values : Array α) (state : σ) :
    List (Comparison α σ) :=
  (leaves (recording order) values (state, [])).2.2

/-- What comes of an action, without the record that it has kept. -/
def forget : EStateM.Result ε (Array α × σ × List (Comparison α σ)) β →
    EStateM.Result ε (Array α × σ) β
  | .ok result (values, state, _) => .ok result (values, state)
  | .error cause (values, state, _) => .error cause (values, state)

/-- One action does what another one does, but for the record that it keeps. -/
def Follows (recorded : Sorting α ε (σ × List (Comparison α σ)) β) (action : Sorting α ε σ β) :
    Prop :=
  ∀ values state made, forget (recorded (values, state, made)) = action (values, state)

namespace Follows

variable {recorded : Sorting α ε (σ × List (Comparison α σ)) β} {action : Sorting α ε σ β}

theorem pure (result : β) :
    Follows (Pure.pure result : Sorting α ε (σ × List (Comparison α σ)) β) (Pure.pure result) :=
  fun _ _ _ => rfl

theorem bind {γ : Type} {following' : β → Sorting α ε (σ × List (Comparison α σ)) γ}
    {following : β → Sorting α ε σ γ} (first : Follows recorded action)
    (further : ∀ result, Follows (following' result) (following result)) :
    Follows (recorded >>= following') (action >>= following) := by
  intro values state made
  show forget (EStateM.bind _ _ _) = EStateM.bind _ _ _
  rw [EStateM.bind, EStateM.bind, ← first values state made]
  cases recorded (values, state, made) with
  | ok result next => exact further result _ _ _
  | error cause next => rfl

theorem swapAt (i j : Nat) :
    Follows (Quicksort.swapAt i j : Sorting α ε (σ × List (Comparison α σ)) Unit)
      (Quicksort.swapAt i j) :=
  fun _ _ _ => rfl

theorem compareAt (i j : Nat) :
    Follows (Quicksort.compareAt (recording order) i j) (Quicksort.compareAt order i j) := by
  intro values state made
  rw [Quicksort.compareAt, Quicksort.compareAt]
  cases values[i]? with
  | none => rfl
  | some x =>
      cases values[j]? with
      | none => rfl
      | some y =>
          dsimp only [recording]
          cases order x y state <;> rfl

theorem sweep (last steps index store : Nat) :
    Follows (Quicksort.sweep (recording order) last steps index store)
      (Quicksort.sweep order last steps index store) := by
  induction steps generalizing index store with
  | zero => exact .pure store
  | succ steps ih =>
      rw [Quicksort.sweep, Quicksort.sweep]
      refine (Follows.compareAt index last).bind fun result => ?_
      split
      · exact (Follows.swapAt index store).bind fun _ => ih _ _
      · exact ih _ _

theorem part (low size : Nat) :
    Follows (Quicksort.part (recording order) low size) (Quicksort.part order low size) := by
  rw [Quicksort.part, Quicksort.part]
  refine (Follows.swapAt _ _).bind fun _ => (Follows.sweep _ _ _ _).bind fun store => ?_
  exact (Follows.swapAt _ _).bind fun _ => .pure store

theorem sortRange (depth low size : Nat) :
    Follows (Quicksort.sortRange (recording order) depth low size)
      (Quicksort.sortRange order depth low size) := by
  induction depth generalizing low size with
  | zero => exact .pure ()
  | succ depth ih =>
      rw [Quicksort.sortRange, Quicksort.sortRange]
      split
      · exact .pure ()
      · refine (Follows.part low size).bind fun pivot => ?_
        dsimp only
        split
        · exact (ih _ _).bind fun _ => ih _ _
        · exact (ih _ _).bind fun _ => ih _ _

end Follows

/-- Keeping a record changes nothing about a sort. -/
theorem forget_sort_recording (values : Array α) (state : σ) (made : List (Comparison α σ)) :
    forget (sort (recording order) (values, state, made)) = sort order (values, state) :=
  Follows.sortRange values.size 0 values.size values state made

/-- What a comparison puts on record is the step that it has made. -/
theorem recording_made {x y : α} {state after : σ × List (Comparison α σ)}
    (ends : (∃ result, recording order x y state = .ok result after) ∨
      ∃ cause, recording order x y state = .error cause after) :
    after.2 = ⟨x, y, state.1, after.1⟩ :: state.2 := by
  dsimp only [recording] at ends
  cases found : order x y state.1 with
  | ok result next =>
      rw [found] at ends
      obtain ⟨_, ends⟩ | ⟨_, ends⟩ := ends <;> cases ends
      rfl
  | error cause next =>
      rw [found] at ends
      obtain ⟨_, ends⟩ | ⟨_, ends⟩ := ends <;> cases ends
      rfl

variable {γ : Type} {view : σ → γ} {state : σ}

/-- What no comparison on record changes is as it was. -/
theorem Compares.keeps {count : Nat} {next : σ × List (Comparison α σ)}
    (compares : Compares (recording order) (state, []) count next)
    (kept : ∀ made ∈ next.2, view made.after = view made.before) : view next.1 = view state := by
  induction compares with
  | none => rfl
  | @next count before after x y result _ ends ih =>
      rw [recording_made (.inl ⟨result, ends⟩)] at kept
      exact (kept _ List.mem_cons_self).trans (ih fun c among => kept c (.tail _ among))

/-- What none of its comparisons changes is after a sort as it was before. -/
theorem leaves_of_kept (view : σ → γ) (order : α → α → EStateM ε σ Ordering) (values : Array α)
    (state : σ)
    (kept : ∀ made ∈ comparisons order values state, view made.after = view made.before) :
    view (leaves order values state).2 = view state := by
  have held := (sorts (recording order) values (state, [])).2
  rw [comparisons, leaves] at kept
  rw [leaves, ← forget_sort_recording values state []]
  cases ends : sort (recording order) (values, state, []) with
  | ok result next =>
      rw [ends] at held kept
      obtain ⟨_, _, count, _, compares⟩ := held
      exact compares.keeps kept
  | error cause next =>
      rw [ends] at held kept
      obtain ⟨_, count, _, before, x, y, compares, fails⟩ := held
      dsimp only at kept
      rw [recording_made (.inr ⟨cause, fails⟩)] at kept
      exact (kept _ List.mem_cons_self).trans
        (compares.keeps fun c among => kept c (.tail _ among))

/-- A comparison that depends on the two values only. -/
def comparing (compare : α → α → Except ε Ordering) : α → α → EStateM ε σ Ordering := fun x y =>
  match compare x y with
  | .ok result => pure result
  | .error cause => throw cause

theorem decides_comparing {compare : α → α → Except ε Ordering}
    (irrefl : ∀ x, compare x x ≠ .ok .lt)
    (trans : ∀ x y z, compare x y = .ok .lt → compare y z = .ok .lt → compare x z = .ok .lt) :
    Decides (comparing (σ := σ) compare) fun x y => compare x y = .ok .lt where
  tells := by
    intro x y state result after ends
    rw [comparing] at ends
    cases outcome : compare x y with
    | error cause =>
        rw [outcome] at ends
        cases ends
    | ok found =>
        rw [outcome] at ends
        cases ends
        simp
  irrefl := irrefl
  trans := trans _ _ _

end Quicksort

end ScriptMachine
