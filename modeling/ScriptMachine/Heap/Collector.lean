import ScriptMachine.Heap.Release

/-!
# Collection of cycles

Objects that hold each other in a circle outlive their last holder outside it.  The collector
finds them by trial: it takes from the count of every object the references that objects report to
it.  What is left counts the holders outside the heap, so an object with something left is a root.
An object that is lent to a writer is a root, too, and reports nothing, so that what it refers to
keeps something of its count; so is a thread that is being run.  What an object holds beyond its
content is not reported either.  Whatever the roots reach stays as it is; the rest is emptied and
thereby loses its holders.
-/

namespace ScriptMachine

/-! ## Reports -/

/-- The object that a value reports. -/
def Value.reported (value : Value) : List Nat := value.address?.toList

/-- What some values report, one after the other. -/
def Value.allReported (values : Array Value) : List Nat := values.toList.flatMap Value.reported

/-- What a fiber reports: its registers, what its frames run, the host functions it is inside of and
the function that it runs as a thread. -/
def Fiber.reported (fiber : Fiber) : List Nat :=
  Value.allReported fiber.stack.slots ++
    fiber.stack.frames.toList.flatMap (fun frame =>
      frame.ref.index :: frame.generator.toList.map Ref.index) ++
    fiber.natives.map (·.ref.index) ++ fiber.entry.toList.flatMap Value.reported

/-- What the content of an object reports, in this order.  A table and a class go through the nodes
that are not free; the member that a node of a class leads to is a place and no object. -/
def Content.reported : {kind : Kind} → Content kind → List Nat
  | .table, (table : Table) =>
    table.entries.entries.flatMap (fun (key, value) => key.reported ++ value.reported) ++
      table.delegate.toList.map Ref.index
  | .array, (sequence : Sequence) => Value.allReported sequence.values
  | .cell, (value : Value) => value.reported
  | .closure, (closure : Closure) => closure.cells.toList.map Ref.index
  | .native, (native : Native) => Value.allReported native.outers
  | .generator, (generator : Generator) =>
    generator.closure.index :: Value.allReported generator.window
  | .cls, (cls : Class) =>
    cls.base.toList.map Ref.index ++ cls.members.entries.flatMap (fun (key, _) => key.reported) ++
      Value.allReported cls.defaults ++ Value.allReported cls.methods ++
      Value.allReported cls.hooks
  | .inst, (object : Instance) => object.cls.index :: Value.allReported object.fields
  | .userdata, (data : UserData) => data.delegate.toList.map Ref.index
  | .thread, (fiber : Option Fiber) => fiber.toList.flatMap Fiber.reported

/-- What an object reports. -/
def Object.reported (object : Object) : List Nat := Content.reported object.content

/-! ## Emptied objects -/

/-- An object without the references it can give up.  A closure keeps its cells, a generator its
closure and an instance its class. -/
def Content.emptied : {kind : Kind} → Content kind → Content kind
  | .table, (table : Table) => ({ entries := table.entries.clear } : Table)
  | .array, _ => Sequence.taken
  | .cell, _ => Value.null
  | .closure, closure => closure
  | .native, (native : Native) => { native with outers := #[] }
  | .generator, (generator : Generator) => generator.killed
  | .cls, (cls : Class) =>
    ({ members := cls.members.clear, locked := cls.locked } : Class)
  | .inst, (object : Instance) => { object with fields := #[] }
  | .userdata, (data : UserData) => { data with delegate := none }
  | .thread, (fiber : Option Fiber) =>
    fiber.map fun own =>
      { own with
        stack := { own.stack with slots := #[], frames := #[], sizes := 0 :: own.stack.sizes }
        natives := []
        entry := none
        traps := []
        suspended := none
        state := .idle }

/-- An object without the references it can give up. -/
def Object.emptied (object : Object) : Object := { object with content := object.content.emptied }

/-! ## Collecting -/

namespace Heap

/-- Take one from the count of every listed number. -/
def untally (counts : Array Nat) (indices : List Nat) : Array Nat :=
  indices.foldl (fun counts index => counts.modify index (· - 1)) counts

/-- What the object with a number reports where it can be read. -/
def reportedAt (heap : Heap) (index : Nat) : List Nat :=
  ((heap.object? index).map Object.reported).getD []

/-- What an object reports to the collector: nothing while it is lent to a writer. -/
def reportedBy (heap : Heap) (lent : List Nat) (index : Nat) : List Nat :=
  if lent.contains index then [] else heap.reportedAt index

/-- How often every object is held otherwise than objects report, found by taking away the
references that objects report. -/
def trialCounts (heap : Heap) (external lent : List Nat) : Array Nat :=
  untally (heap.strongCounts external) ((List.range heap.size).flatMap (heap.reportedBy lent))

/-- The objects that are held otherwise than objects report, lent or being run. -/
def roots (heap : Heap) (external lent : List Nat) : List Nat :=
  let counts := heap.trialCounts external lent
  (List.range heap.size).filter fun index =>
    match heap.object? index with
    | some object => lent.contains index || object.isBusy || counts[index]?.any (0 < ·)
    | none => false

/-- Mark what objects report, from a list of marked objects on, for at most so many steps. -/
def mark (heap : Heap) (lent : List Nat) : Nat → Array Bool → List Nat → Array Bool
  | 0, marked, _ => marked
  | _, marked, [] => marked
  | steps + 1, marked, index :: rest =>
    let (marked, work) := (heap.reportedBy lent index).foldl visit (marked, rest)
    heap.mark lent steps marked work
where
  /-- Mark an object and put it on the list, unless it is marked already. -/
  visit (state : Array Bool × List Nat) (child : Nat) : Array Bool × List Nat :=
    if state.1[child]? = some false ∧ (heap.object? child).isSome then
      (state.1.setIfInBounds child true, child :: state.2)
    else state

/-- Which objects the roots reach. -/
def reached (heap : Heap) (external lent : List Nat) : Array Bool :=
  let roots := heap.roots external lent
  let marked := roots.foldl (fun marked index => marked.setIfInBounds index true)
    (Array.replicate heap.size false)
  heap.mark lent heap.size marked roots

/-- Empty the objects that are not marked. -/
def emptyUnmarked (heap : Heap) (marked : Array Bool) : Heap :=
  { heap with
    objects := heap.objects.mapIdx fun index object =>
      if marked[index]? = some true then object else object.map Object.emptied }

/-- The objects that are not marked. -/
def unmarkedObjects (heap : Heap) (marked : Array Bool) : List Nat :=
  (List.range heap.size).filter fun index =>
    (heap.object? index).isSome && marked[index]? != some true

/-- Free everything that the roots do not reach, and report which objects that were.  Objects
without any holder are released first and do not count. -/
def collect (heap : Heap) (external lent : List Nat) : List Nat × Heap :=
  let settled := heap.release external
  let marked := settled.reached external lent
  (settled.unmarkedObjects marked, (settled.emptyUnmarked marked).release external)

end Heap

/-- What the collector has done, with a record of the objects freed, which nothing ever reads. -/
structure CollectorStats where
  /-- The number of collections. -/
  collections : Nat := 0
  /-- All objects freed. -/
  freed : Nat := 0
  /-- The objects freed by the last collection. -/
  last : Nat := 0
  /-- The numbers of all objects freed. -/
  record : List Nat := []
deriving DecidableEq, Repr, Inhabited

/-- Count one more collection. -/
def CollectorStats.count (stats : CollectorStats) (freed : List Nat) : CollectorStats where
  collections := stats.collections + 1
  freed := stats.freed + freed.length
  last := freed.length
  record := freed ++ stats.record

end ScriptMachine
