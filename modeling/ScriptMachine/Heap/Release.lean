import ScriptMachine.Heap.Basic

/-!
# Release by reference counts

An object lives as long as something holds it: another object, or a holder outside the heap such
as a register or the host.  When the last holder lets go the object is released, and with it what
it held itself.  `Heap.release` brings this about at once for everything that has lost its last
holder.  Objects that hold each other in a circle keep each other.
-/

namespace ScriptMachine

namespace Heap

/-- The numbers of the objects that the object with a number holds, in its content and beyond. -/
def referencesAt (heap : Heap) (index : Nat) : List Nat :=
  ((heap.object? index).map fun object => object.references ++ heap.hidden index).getD []

/-- The numbers of all objects referred to by objects, each as often as it is referred to. -/
def innerReferences (heap : Heap) : List Nat := (List.range heap.size).flatMap heap.referencesAt

/-- One more for every listed number. -/
def tally (counts : Array Nat) (indices : List Nat) : Array Nat :=
  indices.foldl (fun counts index => counts.modify index (· + 1)) counts

/-- How often every object is held, by objects and from outside. -/
def strongCounts (heap : Heap) (external : List Nat) : Array Nat :=
  tally (tally (Array.replicate heap.size 0) external) heap.innerReferences

/-- Objects being released: the heap, how often its objects are held and which of them have lost
their last holder. -/
structure Releasing where
  /-- The heap. -/
  heap : Heap
  /-- How often the objects are held. -/
  counts : Array Nat
  /-- The objects without a holder. -/
  pending : List Nat

namespace Releasing

/-- One holder less for an object; the last one leaves it pending. -/
def letGo (state : Releasing) (index : Nat) : Releasing :=
  let pending := if state.counts[index]? = some 1 then index :: state.pending else state.pending
  { state with counts := state.counts.modify index (· - 1), pending }

/-- Remove an object that has no holder, and let go what it held. -/
def discard (state : Releasing) (index : Nat) : Releasing :=
  (state.heap.referencesAt index).foldl letGo { state with heap := state.heap.erase index }

/-- Remove pending objects for at most so many steps. -/
def run : Nat → Releasing → Heap
  | 0, state => state.heap
  | steps + 1, state =>
    match state.pending with
    | [] => state.heap
    | index :: rest => run steps (({ state with pending := rest } : Releasing).discard index)

end Releasing

/-- The objects that nothing holds. -/
def unheld (heap : Heap) (counts : Array Nat) : List Nat :=
  (List.range heap.size).filter fun index =>
    (heap.object? index).isSome && counts[index]? == some 0

/-- Release every object that has lost its last holder, and what only such objects held. -/
def release (heap : Heap) (external : List Nat) : Heap :=
  let counts := heap.strongCounts external
  Releasing.run heap.size ⟨heap, counts, heap.unheld counts⟩

end Heap

end ScriptMachine
