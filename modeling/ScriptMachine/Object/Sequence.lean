import ScriptMachine.Fault
import ScriptMachine.Object.Quicksort

/-!
# Growable arrays

An array of values together with the number of places reserved for it.  Growth at least doubles
the places; a removal that leaves at most a quarter of them in use halves them.
-/

namespace ScriptMachine

/-- A growable array. -/
structure Sequence where
  /-- The values. -/
  values : Array Value := #[]
  /-- The places reserved. -/
  capacity : Nat := 0
deriving Inhabited

namespace Sequence

/-- An array without values that has room for some. -/
def withCapacity (capacity : Nat) : Sequence := { capacity }

/-- An array of the given values. -/
def ofValues (values : Array Value) : Sequence := { values, capacity := values.size }

/-- The number of values. -/
def length (sequence : Sequence) : Nat := sequence.values.size

/-- The places after growing to hold `needed` values. -/
def grown (capacity needed : Nat) : Nat :=
  if needed ≤ capacity then capacity else max (max (2 * capacity) needed) 4

/-- The places after a removal. -/
def shrunk (sequence : Sequence) : Sequence :=
  if 8 < sequence.capacity ∧ sequence.length ≤ sequence.capacity / 4 then
    { sequence with capacity := max sequence.length (sequence.capacity / 2) }
  else sequence

/-- The position of an index that lies in the array. -/
def position (sequence : Sequence) (index : Int64) : Except Fault Nat :=
  if 0 ≤ index.toInt ∧ index.toInt < sequence.length then .ok index.toInt.toNat
  else .error (.arrayIndex index.toInt sequence.length)

/-- The value at an index. -/
def get (sequence : Sequence) (index : Int64) : Except Fault Value := do
  let i ← sequence.position index
  return sequence.values.getD i .null

/-- Replace the value at a position. -/
def put (sequence : Sequence) (position : Nat) (value : Value) : Sequence :=
  { sequence with values := sequence.values.setIfInBounds position value }

/-- Replace the value at an index. -/
def set (sequence : Sequence) (index : Int64) (value : Value) : Except Fault Sequence := do
  let position ← sequence.position index
  return sequence.put position value

/-- Append a value. -/
def push (sequence : Sequence) (value : Value) : Sequence :=
  let capacity := grown sequence.capacity (sequence.length + 1)
  { values := sequence.values.push value, capacity }

/-- The last value. -/
def top (sequence : Sequence) : Except Fault Value :=
  match sequence.values.back? with
  | some value => .ok value
  | none => .error .emptyArray

/-- Remove the last value. -/
def pop (sequence : Sequence) : Except Fault (Value × Sequence) := do
  let value ← sequence.top
  return (value, { sequence with values := sequence.values.pop }.shrunk)

/-- Insert a value before an index; the length itself appends. -/
def insert (sequence : Sequence) (index : Int64) (value : Value) : Except Fault Sequence :=
  if 0 ≤ index.toInt ∧ index.toInt ≤ sequence.length then
    .ok { values := sequence.values.insertIdxIfInBounds index.toInt.toNat value
          capacity := grown sequence.capacity (sequence.length + 1) }
  else .error (.arrayIndex index.toInt sequence.length)

/-- Remove the value at an index. -/
def remove (sequence : Sequence) (index : Int64) : Except Fault (Value × Sequence) := do
  let i ← sequence.position index
  return (sequence.values.getD i .null,
    { sequence with values := sequence.values.eraseIdxIfInBounds i }.shrunk)

/-- Cut the array to a length or fill it up to it. -/
def resize (sequence : Sequence) (length : Nat) (fill : Value) : Sequence :=
  if length ≤ sequence.length then
    { sequence with values := sequence.values.take length }.shrunk
  else
    { values := sequence.values ++ Array.replicate (length - sequence.length) fill
      capacity := grown sequence.capacity length : Sequence }.shrunk

/-- The values from back to front. -/
def reverse (sequence : Sequence) : Sequence :=
  { sequence with values := sequence.values.reverse }

/-- Sort by the order of values without hooks.  Where two values are not ordered the array is left
as far permuted as the sort got. -/
def sort (sequence : Sequence) : Except Fault Unit × Sequence :=
  let order : Value → Value → EStateM Fault Unit Ordering := fun x y =>
    match x.order y with
    | .ok result => pure result
    | .error cause => throw cause
  match Quicksort.sort order (sequence.values, ()) with
  | .ok _ (values, _) => (.ok (), { sequence with values })
  | .error cause (values, _) => (.error cause, { sequence with values })

/-- The array after its values have been moved out. -/
def taken : Sequence := {}

end Sequence

end ScriptMachine
