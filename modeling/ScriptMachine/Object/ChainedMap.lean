import ScriptMachine.Value.Basic

/-!
# Chained node arrays

A map from script values, kept in an array of nodes whose size is a power of two.  Every key has
a home node, given by its hash; keys with the same home are linked into a chain that starts there.
A key whose home is taken by a key of another chain drives that key out to a free node; a key whose
home is taken by its own chain goes to a free node itself.  Free nodes are handed out from the top
downward.  The array doubles when it would be more than three quarters full and halves when a
removal leaves it at most a quarter full.  `KeyedMap` has nothing but what these operations make.

The operations take the hash as an argument: they are right for every hash that gives the same
result for keys that are the same.
-/

namespace ScriptMachine

/-- A place for one entry. -/
structure Node (ν : Type) where
  /-- The key and the value, unless the node is free. -/
  entry : Option (Value × ν) := none
  /-- The next node of the chain. -/
  next : Option Nat := none
deriving DecidableEq

namespace Node

/-- A node without an entry. -/
def free {ν : Type} : Node ν := {}

/-- The node has no entry. -/
def isFree {ν : Type} (node : Node ν) : Bool := node.entry.isNone

/-- The node holds the key. -/
def holds {ν : Type} (node : Node ν) (key : Value) : Bool :=
  match node.entry with
  | some (own, _) => own.sameKey key
  | none => false

end Node

/-- A map kept in an array of chained nodes. -/
structure ChainedMap (ν : Type) where
  /-- The nodes. -/
  nodes : Array (Node ν)
  /-- No node at or above this one is handed out any more. -/
  firstFree : Nat
  /-- The number of entries. -/
  used : Nat
deriving DecidableEq

namespace ChainedMap

variable {ν : Type}

/-- The least number of nodes. -/
def leastSize : Nat := 4

/-- A map of so many nodes without entries. -/
def ofSize (size : Nat) : ChainedMap ν where
  nodes := Array.replicate size Node.free
  firstFree := size
  used := 0

/-- The number of nodes that hold so many entries without growing: the first power of two that is
not below the number of nodes needed. -/
def sizeFor (capacity : Nat) : Nat :=
  let needed := max (capacity * 4 / 3 + 1) leastSize
  1 <<< ((needed - 1).log2 + 1)

/-- A map that holds so many entries without growing. -/
def withCapacity (capacity : Nat) : ChainedMap ν := ofSize (sizeFor capacity)

/-- A map without entries. -/
def empty : ChainedMap ν := withCapacity 0

instance : Inhabited (ChainedMap ν) := ⟨empty⟩

/-- The number of nodes. -/
def capacity (map : ChainedMap ν) : Nat := map.nodes.size

/-- The number of entries. -/
def size (map : ChainedMap ν) : Nat := map.used

/-- The node at an index; a free one beyond the end. -/
def node (map : ChainedMap ν) (index : Nat) : Node ν := map.nodes.getD index Node.free

/-- The number of nodes that hold an entry. -/
def occupied (map : ChainedMap ν) : Nat := map.nodes.countP fun node => !node.isFree

/-- The entries in the order of the nodes. -/
def entries (map : ChainedMap ν) : List (Value × ν) := map.nodes.toList.filterMap Node.entry

/-- The first entry at or after a node, with the node to go on from. -/
def next? (map : ChainedMap ν) (cursor : Nat) : Option (Value × ν × Nat) :=
  scanFrom (map.nodes.size - cursor) cursor
where
  /-- Look at so many nodes from an index on. -/
  scanFrom : Nat → Nat → Option (Value × ν × Nat)
    | 0, _ => none
    | steps + 1, index =>
      match (map.node index).entry with
      | none => scanFrom steps (index + 1)
      | some (key, value) => some (key, value, index + 1)

/-- The same map with another node at an index. -/
def setNode (map : ChainedMap ν) (index : Nat) (node : Node ν) : ChainedMap ν :=
  { map with nodes := map.nodes.setIfInBounds index node }

/-- The same map with another successor at an index. -/
def setNext (map : ChainedMap ν) (index : Nat) (next : Option Nat) : ChainedMap ν :=
  { map with nodes := map.nodes.modify index fun node => { node with next } }

/-- The same map with another value at an index. -/
def setValue (map : ChainedMap ν) (index : Nat) (value : ν) : ChainedMap ν :=
  { map with
    nodes := map.nodes.modify index fun node =>
      { node with entry := node.entry.map fun (key, _) => (key, value) } }

/-- Follow a chain for at most so many steps to the node of a key, with the node before it. -/
def walk (map : ChainedMap ν) (key : Value) : Nat → Option Nat → Option Nat →
    Option (Option Nat × Nat)
  | 0, _, _ => none
  | _, _, none => none
  | steps + 1, before, some index =>
    if (map.node index).holds key then some (before, index)
    else map.walk key steps (some index) (map.node index).next

/-- Follow a chain for at most so many steps to the node whose successor is `target`. -/
def predecessor (map : ChainedMap ν) (target : Nat) : Nat → Nat → Nat
  | 0, index => index
  | steps + 1, index =>
    match (map.node index).next with
    | none => index
    | some next => if next = target then index else map.predecessor target steps next

/-- The highest free node below `firstFree`. -/
def freeBelow (map : ChainedMap ν) : Nat → Option Nat
  | 0 => none
  | index + 1 => if (map.node index).isFree then some index else map.freeBelow index

variable (hash : Value → UInt64)

/-- The home node of a key. -/
def home (map : ChainedMap ν) (key : Value) : Nat := (hash key).toNat % map.nodes.size

/-- The node of a key together with the node before it in the chain. -/
def locate? (map : ChainedMap ν) (key : Value) : Option (Option Nat × Nat) :=
  map.walk key map.nodes.size none (some (map.home hash key))

/-- The node of a key. -/
def find? (map : ChainedMap ν) (key : Value) : Option Nat := (map.locate? hash key).map (·.2)

/-- The value under a key. -/
def get? (map : ChainedMap ν) (key : Value) : Option ν :=
  (map.find? hash key).bind fun index => (map.node index).entry.map (·.2)

/-- The key has an entry. -/
def contains (map : ChainedMap ν) (key : Value) : Bool := (map.find? hash key).isSome

/-- Replace the value under a key that has an entry. -/
def replace? (map : ChainedMap ν) (key : Value) (value : ν) : Option (ChainedMap ν) :=
  (map.find? hash key).map fun index => map.setValue index value

/-- A free node for a key that has no entry: its home or, where that is taken, the next one to be
handed out. -/
def spare? (map : ChainedMap ν) (key : Value) : Option Nat :=
  let home := map.home hash key
  if (map.node home).isFree then some home else map.freeBelow map.firstFree

/-- Add an entry for a key that has none, given the free node for it. -/
def addAt (map : ChainedMap ν) (free : Nat) (key : Value) (value : ν) : ChainedMap ν :=
  let home := map.home hash key
  let resident := map.node home
  match resident.entry with
  | none =>
    let placed := map.setNode home ⟨some (key, value), none⟩
    { placed with used := placed.used + 1 }
  | some (residentKey, _) =>
    let residentHome := map.home hash residentKey
    let moved :=
      if residentHome = home then
        (map.setNode free ⟨some (key, value), resident.next⟩).setNext home (some free)
      else
        let before := map.predecessor home map.nodes.size residentHome
        ((map.setNext before (some free)).setNode free resident).setNode home
          ⟨some (key, value), none⟩
    { moved with firstFree := free, used := moved.used + 1 }

/-- Add an entry for a key that has none, if a free node is left for it. -/
def addFitting (map : ChainedMap ν) (key : Value) (value : ν) : ChainedMap ν :=
  match map.spare? hash key with
  | some free => map.addAt hash free key value
  | none => map

/-- The same entries in a new array of at least so many nodes. -/
def rehash (map : ChainedMap ν) (size : Nat) : ChainedMap ν :=
  map.entries.foldl (fun rebuilt entry => rebuilt.addFitting hash entry.1 entry.2)
    (ofSize (max size leastSize))

/-- Make room for one more entry. -/
def reserve (map : ChainedMap ν) : ChainedMap ν :=
  if map.nodes.size * 3 / 4 < map.used + 1 then map.rehash hash (2 * map.nodes.size) else map

/-- Add an entry for a key that has none.  When the free nodes are used up the array is rebuilt,
first with the same size and then with twice the size. -/
def addNew (map : ChainedMap ν) (key : Value) (value : ν) : ChainedMap ν :=
  let roomy := map.reserve hash
  match roomy.spare? hash key with
  | some free => roomy.addAt hash free key value
  | none =>
    let rebuilt := roomy.rehash hash roomy.nodes.size
    match rebuilt.spare? hash key with
    | some free => rebuilt.addAt hash free key value
    | none =>
      (rebuilt.rehash hash (2 * rebuilt.nodes.size)).addFitting hash key value

/-- Add an entry or replace the value of the one that is there. -/
def insert (map : ChainedMap ν) (key : Value) (value : ν) : ChainedMap ν :=
  match map.find? hash key with
  | some index => map.setValue index value
  | none => map.addNew hash key value

/-- Take the entry at an index out of its chain.  When it heads the chain its successor moves into
the home node. -/
def unlink (map : ChainedMap ν) (before : Option Nat) (index : Nat) : ChainedMap ν :=
  match before, (map.node index).next with
  | some previous, next => (map.setNext previous next).setNode index Node.free
  | none, some next => (map.setNode index (map.node next)).setNode next Node.free
  | none, none => map.setNode index Node.free

/-- Half the nodes when at most a quarter of them is used. -/
def shrink (map : ChainedMap ν) : ChainedMap ν :=
  if leastSize < map.nodes.size ∧ map.used ≤ map.nodes.size / 4 then
    map.rehash hash (map.nodes.size / 2)
  else map

/-- Remove the entry of a key and report its value. -/
def erase? (map : ChainedMap ν) (key : Value) : Option (ν × ChainedMap ν) :=
  match map.locate? hash key with
  | none => none
  | some (before, index) =>
    (map.node index).entry.map fun (_, value) =>
      (value, ({ map.unlink before index with used := map.used - 1 } : ChainedMap ν).shrink hash)

/-- Remove all entries and keep the nodes. -/
def clear (map : ChainedMap ν) : ChainedMap ν := ofSize map.nodes.size

/-- A map that has come about from one without entries by the operations of maps. -/
inductive Built : ChainedMap ν → Prop
  /-- There are no entries. -/
  | withCapacity (capacity : Nat) : Built (withCapacity capacity)
  /-- The value of an entry has been replaced. -/
  | replaced {map next : ChainedMap ν} {key : Value} {value : ν} : Built map →
      map.replace? hash key value = some next → Built next
  /-- An entry has been added, or its value has been replaced. -/
  | inserted {map : ChainedMap ν} (key : Value) (value : ν) : Built map →
      Built (map.insert hash key value)
  /-- An entry has been removed. -/
  | erased {map next : ChainedMap ν} {key : Value} {value : ν} : Built map →
      map.erase? hash key = some (value, next) → Built next
  /-- All entries have been removed. -/
  | cleared {map : ChainedMap ν} : Built map → Built map.clear

end ChainedMap

/-- A map under the hash of keys that nothing but the operations of maps can have made. -/
structure KeyedMap (ν : Type) extends ChainedMap ν where
  /-- The operations have made it. -/
  built : toChainedMap.Built Value.keyHash

namespace KeyedMap

variable {ν : Type}

/-- A map that holds so many entries without growing. -/
def withCapacity (capacity : Nat) : KeyedMap ν := ⟨.withCapacity capacity, .withCapacity capacity⟩

/-- A map without entries. -/
def empty : KeyedMap ν := withCapacity 0

instance : Inhabited (KeyedMap ν) := ⟨empty⟩

/-- Replace the value of an entry that exists. -/
def replace? (map : KeyedMap ν) (key : Value) (value : ν) : Option (KeyedMap ν) :=
  match found : map.toChainedMap.replace? Value.keyHash key value with
  | some next => some ⟨next, map.built.replaced found⟩
  | none => none

/-- Add an entry or replace the value of the one that is there. -/
def insert (map : KeyedMap ν) (key : Value) (value : ν) : KeyedMap ν :=
  ⟨map.toChainedMap.insert Value.keyHash key value, map.built.inserted key value⟩

/-- Remove the entry of a key and report its value. -/
def erase? (map : KeyedMap ν) (key : Value) : Option (ν × KeyedMap ν) :=
  match found : map.toChainedMap.erase? Value.keyHash key with
  | some (value, next) => some (value, ⟨next, map.built.erased found⟩)
  | none => none

/-- Remove all entries and keep the nodes. -/
def clear (map : KeyedMap ν) : KeyedMap ν := ⟨map.toChainedMap.clear, map.built.cleared⟩

end KeyedMap

end ScriptMachine
