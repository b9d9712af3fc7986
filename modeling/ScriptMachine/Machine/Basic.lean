import ScriptMachine.Heap.Collector
import ScriptMachine.Heap.Hooks
import ScriptMachine.Heap.Inheritance

/-!
# The machine

A machine is a heap with a root table, the fiber that is running and the fibers that wait for it.
What keeps objects alive from outside the heap is listed by `Machine.external`: the values that the
host or an unfinished operation holds, the root table, the error handler, and whatever the fibers
that are running or waiting refer to.  A thread that is not being run lives in the heap.
-/

namespace ScriptMachine

/-- The limits of a machine. -/
structure Limits where
  /-- How deeply run loops and host functions may be nested in one fiber. -/
  nativeCalls : Nat := 100
  /-- How many frames a fiber may have. -/
  callDepth : Nat := 1024
  /-- How many registers a fiber may have. -/
  stackSize : Nat := 1048576
deriving DecidableEq, Repr, Inhabited

/-- What happens to a fault. -/
inductive Occurrence where
  /-- It is raised. -/
  | raised
  /-- It is raised in the place of another one. -/
  | replaced (cause : Fault)
  /-- It has left a thread and goes on in the fiber that had entered the thread. -/
  | surfaced
  /-- A trap has caught it. -/
  | caught (trap : Trap)
  /-- It is shown to the error handler. -/
  | reported
deriving DecidableEq

/-- Something that has happened to a fault. -/
structure Incident where
  /-- What has happened. -/
  occurrence : Occurrence
  /-- The fault. -/
  fault : Fault
  /-- How many fibers waited for the running one. -/
  level : Nat
  /-- How many error handlers were being run. -/
  reporting : Nat
  /-- The running fiber. -/
  fiber : Fiber
  /-- The objects. -/
  heap : Heap

/-- A machine. -/
structure Machine where
  /-- Its limits. -/
  limits : Limits
  /-- The objects. -/
  heap : Heap
  /-- The root table. -/
  root : Ref .table
  /-- The fiber that is running. -/
  fiber : Fiber
  /-- The fibers that wait for the running one, the last to be left first. -/
  waiting : List Fiber := []
  /-- The function bodies that are values. -/
  routines : Array Routine := #[]
  /-- The function that is told of errors nobody caught. -/
  handler : Option Value := none
  /-- How many error handlers are being run. -/
  reporting : Nat := 0
  /-- The lines printed. -/
  printed : Array String := #[]
  /-- What the collector has done. -/
  collector : CollectorStats := {}
  /-- The objects held by the host and by unfinished operations. -/
  held : List Nat := []
  /-- What has happened to faults, the last incident first. -/
  incidents : List Incident := []
deriving Inhabited

namespace Machine

/-- A machine with an empty root table. -/
def create (limits : Limits) : Machine :=
  let (root, heap) := Heap.alloc {} ({} : Table)
  { limits, heap, root, fiber := .create limits.stackSize limits.callDepth false }

/-- The numbers of the objects held from outside the heap. -/
def external (machine : Machine) : List Nat :=
  machine.held ++ machine.root.index :: Value.addresses machine.handler.toList ++
    machine.fiber.references ++ machine.waiting.flatMap Fiber.references

/-- Release the objects that nothing holds any more. -/
def settle (machine : Machine) : Machine :=
  { machine with heap := machine.heap.release machine.external }

/-- Free what is not reachable from outside, and report how many objects that were.  Only threads
that are being run are lent to anybody, and these have left the heap. -/
def collect (machine : Machine) : Nat × Machine :=
  let (freed, heap) := machine.heap.collect machine.external []
  (freed.length, { machine with heap, collector := machine.collector.count freed })

/-- What happens to a fault now. -/
def incident (machine : Machine) (occurrence : Occurrence) (fault : Fault) : Incident where
  occurrence := occurrence
  fault := fault
  level := machine.waiting.length
  reporting := machine.reporting
  fiber := machine.fiber
  heap := machine.heap

/-- Write down what happens to a fault. -/
def note (machine : Machine) (occurrence : Occurrence) (fault : Fault) : Machine :=
  { machine with incidents := machine.incident occurrence fault :: machine.incidents }

/-- Write down a fault that is being raised. -/
def record (machine : Machine) (fault : Fault) : Machine := machine.note .raised fault

/-- Change the running fiber. -/
def mapFiber (machine : Machine) (change : Fiber → Fiber) : Machine :=
  { machine with fiber := change machine.fiber }

/-- Change registers and frames of the running fiber. -/
def mapStack (machine : Machine) (change : Stack → Stack) : Machine :=
  { machine with fiber := { machine.fiber with stack := change machine.fiber.stack } }

/-- Change what has been counted for the running fiber. -/
def count (machine : Machine) (change : Counters → Counters) : Machine :=
  { machine with fiber := { machine.fiber with counters := change machine.fiber.counters } }

end Machine

end ScriptMachine
