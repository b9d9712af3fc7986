import ScriptMachine.Heap.Basic

/-!
# Classes in the heap

A class is derived from a class that exists already, so the lineage of a class, the class followed
by its bases, has falling numbers.  Creating an instance locks the whole lineage.
-/

namespace ScriptMachine.Heap

/-- The classes from one on, following bases for at most so many steps. -/
def lineageFrom (heap : Heap) : Nat → Option (Ref .cls) → List (Ref .cls)
  | 0, _ => []
  | _, none => []
  | steps + 1, some ref => ref :: heap.lineageFrom steps (heap.get ref).base

/-- A class, its base, the base of that, and so on. -/
def lineage (heap : Heap) (ref : Ref .cls) : List (Ref .cls) :=
  heap.lineageFrom heap.size (some ref)

/-- A class is another one or derived from it. -/
def derives (heap : Heap) (cls ancestor : Ref .cls) : Bool := ancestor ∈ heap.lineage cls

/-- Create a class with all members of a base. -/
def allocClass (heap : Heap) : Option (Ref .cls) → Ref .cls × Heap
  | some base => heap.alloc ((heap.get base).derive base)
  | none => heap.alloc ({} : Class)

/-- Lock a class and all its bases against new members. -/
def lockClass (heap : Heap) (ref : Ref .cls) : Heap :=
  (heap.lineage ref).foldl
    (fun (locked : Heap) (cls : Ref .cls) =>
      locked.modify cls fun own => { own with locked := true }) heap

/-- Create an instance of a class. -/
def instantiate (heap : Heap) (ref : Ref .cls) : Ref .inst × Heap :=
  let locked := heap.lockClass ref
  locked.alloc (.ofClass ref (locked.get ref) : Instance)

end ScriptMachine.Heap
