import ScriptMachine.Heap.Basic

/-!
# Delegate chains

A table that lacks a key asks its delegate, which may ask its own.  The chain of a table is the
table followed by the chain of its delegate; a look-up takes the first entry along the chain.
Setting a delegate is refused when the table itself stands in the chain of the delegate, so a chain
never visits a table twice and is no longer than the heap.
-/

namespace ScriptMachine.Heap

/-- The tables from one on, following delegates for at most so many steps. -/
def chainFrom (heap : Heap) : Nat → Option (Ref .table) → List (Ref .table)
  | 0, _ => []
  | _, none => []
  | steps + 1, some ref => ref :: heap.chainFrom steps (heap.get ref).delegate

/-- A table, its delegate, the delegate of that, and so on. -/
def chain (heap : Heap) (ref : Ref .table) : List (Ref .table) :=
  heap.chainFrom heap.size (some ref)

/-- The value under a key in the first table of the chain that has it. -/
def lookup? (heap : Heap) (ref : Ref .table) (key : Value) : Option Value :=
  (heap.chain ref).findSome? fun (table : Ref .table) => (heap.get table).get? key

/-- Set or remove the delegate of a table, unless the table would delegate to itself. -/
def setTableDelegate (heap : Heap) (ref : Ref .table) (delegate : Option (Ref .table)) :
    Except Fault Heap :=
  if ref ∈ heap.chainFrom heap.size delegate then .error .delegateCycle
  else .ok (heap.modify ref fun (table : Table) => { table with delegate })

/-- Set or remove the delegate of host data. -/
def setDataDelegate (heap : Heap) (ref : Ref .userdata) (delegate : Option (Ref .table)) : Heap :=
  heap.modify ref fun (data : UserData) => { data with delegate }

end ScriptMachine.Heap
