/-!
# Quicksort with a fallible comparison

The comparison is a computation of its own: it may change a state and it may fail.  The sort works
on the array in its own state, so that a failing comparison leaves the array as far permuted as it
was.  The middle value of a range serves as the pivot; the smaller part is sorted first.
-/

namespace ScriptMachine

namespace Quicksort

variable {α ε σ : Type}

/-- Computations on an array beside the state of the comparison. -/
abbrev Sorting (α ε σ : Type) := EStateM ε (Array α × σ)

/-- Compare the values at two positions; positions outside the array count as equal. -/
def compareAt (order : α → α → EStateM ε σ Ordering) (i j : Nat) : Sorting α ε σ Ordering :=
  fun (values, state) =>
    match values[i]?, values[j]? with
    | some x, some y =>
      match order x y state with
      | .ok result next => .ok result (values, next)
      | .error cause next => .error cause (values, next)
    | _, _ => .ok .eq (values, state)

/-- Exchange the values at two positions. -/
def swapAt (i j : Nat) : Sorting α ε σ Unit :=
  modify fun (values, state) => (values.swapIfInBounds i j, state)

/-- Move the values of the next `steps` positions from `index` on that are less than the pivot at
`last` to the front, and report where the front ends. -/
def sweep (order : α → α → EStateM ε σ Ordering) (last : Nat) :
    Nat → Nat → Nat → Sorting α ε σ Nat
  | 0, _, store => return store
  | steps + 1, index, store => do
    if (← compareAt order index last) == .lt then
      swapAt index store
      sweep order last steps (index + 1) (store + 1)
    else
      sweep order last steps (index + 1) store

/-- Part the range of `size` values from `low` on around its middle value, and report the position
of that value. -/
def part (order : α → α → EStateM ε σ Ordering) (low size : Nat) : Sorting α ε σ Nat := do
  let last := low + size - 1
  swapAt (low + size / 2) last
  let store ← sweep order last (size - 1) low low
  swapAt store last
  return store

/-- Sort the range of `size` values from `low` on.  The first argument bounds the depth; the size
is always enough. -/
def sortRange (order : α → α → EStateM ε σ Ordering) : Nat → Nat → Nat → Sorting α ε σ Unit
  | 0, _, _ => return ()
  | depth + 1, low, size => do
    if size ≤ 1 then return ()
    let pivot ← part order low size
    let left := pivot - low
    let right := size - left - 1
    if left < right then
      sortRange order depth low left
      sortRange order depth (pivot + 1) right
    else
      sortRange order depth (pivot + 1) right
      sortRange order depth low left

/-- Sort an array. -/
def sort (order : α → α → EStateM ε σ Ordering) : Sorting α ε σ Unit := do
  let size := (← get).1.size
  sortRange order size 0 size

end Quicksort

end ScriptMachine
