import Mathlib
import ScriptMachine.Object.ChainedMap

/-!
# Chains of a node array

Every key of a chained map lives in the chain of its home.  `Chains` assigns to each home the list
of the nodes of its chain: the list is linked by successors, starts at the home and holds exactly
the keys with that home.  `Sound` adds what a map keeps beside its chains: free nodes carry no
successor, no key has two nodes and the number of entries is counted correctly.

The main facts are about walks.  A walk from any node comes to an end after fewer steps than there
are nodes, and a search finds the node of a key exactly when a node holds it.
-/

namespace ScriptMachine

namespace Node

variable {ν : Type}

theorem holds_iff {node : Node ν} {key : Value} :
    node.holds key = true ↔ ∃ entry, node.entry = some entry ∧ entry.1.sameKey key = true := by
  obtain ⟨entry, next⟩ := node
  cases entry with
  | none => simp [holds]
  | some entry => simp [holds]

theorem isFree_iff {node : Node ν} : node.isFree = true ↔ node.entry = none := by
  simp [isFree]

end Node

namespace ChainedMap

variable {ν : Type} {hash : Value → UInt64} {map : ChainedMap ν}

/-! ## Single nodes -/

theorem node_of_le {index : Nat} (beyond : map.nodes.size ≤ index) :
    map.node index = Node.free := by
  simp [node, beyond]

theorem node_congr {other : ChainedMap ν} (nodes : other.nodes = map.nodes) :
    other.node = map.node := by
  funext index
  simp [node, nodes]

theorem lt_of_entry {index : Nat} {entry : Value × ν}
    (held : (map.node index).entry = some entry) : index < map.nodes.size := by
  by_contra beyond
  rw [node_of_le (Nat.le_of_not_lt beyond)] at held
  simp [Node.free] at held

@[simp]
theorem size_setNode (index : Nat) (node : Node ν) :
    (map.setNode index node).nodes.size = map.nodes.size := by
  simp [setNode]

@[simp]
theorem size_setNext (index : Nat) (next : Option Nat) :
    (map.setNext index next).nodes.size = map.nodes.size := by
  simp [setNext]

theorem node_setNode {index : Nat} (node : Node ν) (within : index < map.nodes.size) :
    (map.setNode index node).node = Function.update map.node index node := by
  funext other
  by_cases same : other = index
  · subst other
    simp [setNode, ChainedMap.node, within]
  · simp [setNode, ChainedMap.node, Ne.symm same, same]

private theorem modify_eq_setIfInBounds {index : Nat} (change : Node ν → Node ν)
    (within : index < map.nodes.size) :
    map.nodes.modify index change =
      map.nodes.setIfInBounds index (change (map.node index)) := by
  apply Array.ext_getElem?
  intro other
  by_cases same : index = other
  · subst other
    simp [ChainedMap.node, within, Array.getElem_modify]
  · simp [Array.getElem?_modify, same]

theorem setNext_eq_setNode {index : Nat} (next : Option Nat) (within : index < map.nodes.size) :
    map.setNext index next = map.setNode index { map.node index with next } := by
  simp only [setNext, setNode, modify_eq_setIfInBounds _ within]

theorem setValue_eq_setNode {index : Nat} {key : Value} {old : ν} (value : ν)
    (held : (map.node index).entry = some (key, old)) :
    map.setValue index value =
      map.setNode index { map.node index with entry := some (key, value) } := by
  simp only [setValue, setNode, modify_eq_setIfInBounds _ (lt_of_entry held), held,
    Option.map_some]

theorem entry_setNode (index other : Nat) (node : Node ν) :
    ((map.setNode index node).node other).entry =
      if index = other ∧ index < map.nodes.size then node.entry else (map.node other).entry := by
  by_cases within : index < map.nodes.size
  · rw [node_setNode node within]
    by_cases same : other = index
    · simp [same, within]
    · simp [same, Ne.symm same]
  · have same := Array.setIfInBounds_eq_of_size_le (Nat.le_of_not_lt within) (a := node)
    simp [setNode, within, ChainedMap.node, same]

theorem entry_setNext (index other : Nat) (next : Option Nat) :
    ((map.setNext index next).node other).entry = (map.node other).entry := by
  by_cases within : index < map.nodes.size
  · rw [setNext_eq_setNode next within, entry_setNode]
    by_cases same : index = other
    · simp [same]
    · simp [same]
  · have same : (map.setNext index next).nodes = map.nodes := by
      apply Array.ext_getElem?
      intro place
      by_cases equal : index = place
      · subst place
        simp [setNext, Nat.le_of_not_lt within]
      · simp [setNext, Array.getElem?_modify, equal]
    rw [node_congr same]

/-! ## Entries -/

theorem mem_entries_iff {entry : Value × ν} :
    entry ∈ map.entries ↔ ∃ index, (map.node index).entry = some entry := by
  simp only [entries, List.mem_filterMap]
  constructor
  · rintro ⟨node, member, held⟩
    obtain ⟨index, within, rfl⟩ := List.mem_iff_getElem.mp member
    refine ⟨index, ?_⟩
    have inside : index < map.nodes.size := by simpa using within
    simpa [node, inside] using held
  · rintro ⟨index, held⟩
    have within := lt_of_entry held
    refine ⟨map.nodes[index], by simp, ?_⟩
    simpa [node, within] using held

theorem occupied_eq_length_entries : map.occupied = map.entries.length := by
  rw [occupied, entries, List.length_filterMap_eq_countP, ← Array.countP_toList]
  apply List.countP_congr
  intro node _
  cases held : node.entry <;> simp [Node.isFree, held]

private theorem filterMap_set_perm (nodes : List (Node ν)) (index : Nat) (node : Node ν)
    (within : index < nodes.length) :
    ((nodes.set index node).filterMap Node.entry ++ nodes[index].entry.toList).Perm
      (nodes.filterMap Node.entry ++ node.entry.toList) := by
  have split := List.set_eq_take_append_cons_drop (l := nodes) (i := index) (a := node)
  rw [if_pos within] at split
  have whole : nodes = nodes.take index ++ nodes[index] :: nodes.drop (index + 1) := by
    rw [List.getElem_cons_drop, List.take_append_drop]
  have entry_cons : ∀ (first : Node ν) (rest : List (Node ν)),
      (first :: rest).filterMap Node.entry =
        first.entry.toList ++ rest.filterMap Node.entry := by
    intro first rest
    cases held : first.entry <;> simp [held]
  rw [split]
  conv => rhs; rw [whole]
  simp only [List.filterMap_append, entry_cons, List.append_assoc]
  apply List.Perm.append_left
  refine List.perm_append_comm.trans ?_
  rw [← List.append_assoc (nodes[index].entry.toList)]
  exact List.perm_append_comm.append_right _

theorem entries_congr {other : ChainedMap ν} (nodes : other.nodes = map.nodes) :
    other.entries = map.entries := by
  simp [entries, nodes]

/-- Exchanging a node exchanges its entry. -/
theorem entries_setNode_perm {index : Nat} (node : Node ν) (within : index < map.nodes.size) :
    ((map.setNode index node).entries ++ (map.node index).entry.toList).Perm
      (map.entries ++ node.entry.toList) := by
  have exchanged := filterMap_set_perm map.nodes.toList index node (by simpa using within)
  simpa [entries, setNode, ChainedMap.node, within] using exchanged

theorem entries_setNext_perm {index : Nat} (next : Option Nat) (within : index < map.nodes.size) :
    (map.setNext index next).entries.Perm map.entries := by
  rw [setNext_eq_setNode next within]
  exact (List.perm_append_right_iff _).mp
    (entries_setNode_perm { map.node index with next } within)

theorem home_congr {other : ChainedMap ν} (sizes : other.nodes.size = map.nodes.size)
    (key : Value) : other.home hash key = map.home hash key := by
  simp [home, sizes]

/-! ## Linked lists of nodes -/

/-- The nodes of the list are linked in this order, and the last one has no successor. -/
def Linked (node : Nat → Node ν) : List Nat → Prop
  | [] => True
  | index :: rest => (node index).next = rest.head? ∧ Linked node rest

theorem Linked.congr {node other : Nat → Node ν} {chain : List Nat}
    (same : ∀ index ∈ chain, (other index).next = (node index).next)
    (linked : Linked node chain) : Linked other chain := by
  induction chain with
  | nil => trivial
  | cons index rest ih =>
      obtain ⟨next, linked⟩ := linked
      refine ⟨?_, ih (fun other member => same other (by simp [member])) linked⟩
      rw [same index (by simp), next]

theorem Linked.tail {node : Nat → Node ν} {front back : List Nat}
    (linked : Linked node (front ++ back)) : Linked node back := by
  induction front with
  | nil => exact linked
  | cons _ _ ih => exact ih linked.2

/-- A linked list keeps its order of nodes when its end is exchanged for another linked list and
the last node in front of it is linked to the new end. -/
theorem Linked.splice {node other : Nat → Node ν} {front back newBack : List Nat} {last : Nat}
    (linked : Linked node (front ++ back)) (nodup : front.Nodup) (ends : front.getLast? = some last)
    (newLinked : Linked other newBack)
    (same : ∀ index ∈ front, index ≠ last → (other index).next = (node index).next)
    (joint : (other last).next = newBack.head?) : Linked other (front ++ newBack) := by
  induction front with
  | nil => simp at ends
  | cons index rest ih =>
      obtain ⟨next, linked⟩ := linked
      cases rest with
      | nil =>
          obtain rfl : index = last := by simpa using ends
          exact ⟨joint, newLinked⟩
      | cons second rest =>
          obtain ⟨fresh, nodup⟩ := List.nodup_cons.mp nodup
          have ends : (second :: rest).getLast? = some last := by simpa using ends
          have apart : index ≠ last := fun equal => fresh (equal ▸ List.mem_of_getLast? ends)
          refine ⟨?_, ih linked nodup ends fun other member => same other (by simp [member])⟩
          rw [same index (by simp) apart, next]
          rfl

/-! ## The invariant -/

/-- The lists of nodes that make up the chains, one for each home. -/
structure Chains (hash : Value → UInt64) (map : ChainedMap ν) (chain : Nat → List Nat) :
    Prop where
  /-- Successors lead through the chain. -/
  linked : ∀ home, Linked map.node (chain home)
  /-- No node occurs twice. -/
  nodup : ∀ home, (chain home).Nodup
  /-- The chain holds exactly the keys with its home. -/
  mem_iff : ∀ home index, index ∈ chain home ↔
    ∃ entry, (map.node index).entry = some entry ∧ map.home hash entry.1 = home
  /-- The chain starts at its home. -/
  head : ∀ home index, (chain home).head? = some index → index = home

/-- No two entries have the same key. -/
def DistinctKeys (entries : List (Value × ν)) : Prop :=
  (entries.map fun entry => entry.1.keyForm).Nodup

theorem DistinctKeys.of_perm {entries entries' : List (Value × ν)}
    (distinct : DistinctKeys entries) (perm : entries.Perm entries') : DistinctKeys entries' :=
  (perm.map _).nodup_iff.mp distinct

theorem distinctKeys_cons {entry : Value × ν} {entries : List (Value × ν)} :
    DistinctKeys (entry :: entries) ↔
      (∀ other ∈ entries, other.1.sameKey entry.1 = false) ∧ DistinctKeys entries := by
  simp [DistinctKeys, Value.sameKey]

/-- What every operation keeps of a chained map. -/
structure Sound (hash : Value → UInt64) (map : ChainedMap ν) : Prop where
  /-- The number of nodes is a power of two. -/
  powerOfTwo : ∃ exponent, map.nodes.size = 2 ^ exponent
  /-- There are at least so many nodes. -/
  least : leastSize ≤ map.nodes.size
  /-- Only nodes of the array are handed out. -/
  firstFree_le : map.firstFree ≤ map.nodes.size
  /-- A free node has no successor. -/
  free_next : ∀ index, (map.node index).entry = none → (map.node index).next = none
  /-- No two entries have the same key. -/
  distinct : DistinctKeys map.entries
  /-- The keys are arranged in chains. -/
  chained : ∃ chain, Chains hash map chain
  /-- The number of entries. -/
  used_eq : map.used = map.entries.length

namespace Chains

variable {chain : Nat → List Nat}

theorem lt_size (chains : Chains hash map chain) {home index : Nat}
    (member : index ∈ chain home) : index < map.nodes.size := by
  obtain ⟨entry, held, _⟩ := (chains.mem_iff home index).mp member
  exact lt_of_entry held

theorem length_le (chains : Chains hash map chain) (home : Nat) :
    (chain home).length ≤ map.nodes.size := by
  have inside : chain home ⊆ List.range map.nodes.size := by
    intro index member
    exact List.mem_range.mpr (chains.lt_size member)
  simpa using (List.subperm_of_subset (chains.nodup home) inside).length_le

theorem mem_of_entry (chains : Chains hash map chain) {index : Nat} {entry : Value × ν}
    (held : (map.node index).entry = some entry) :
    index ∈ chain (map.home hash entry.1) :=
  (chains.mem_iff _ index).mpr ⟨entry, held, rfl⟩

/-- A chain is empty unless its home is taken by one of its own keys. -/
theorem eq_nil_of_home (chains : Chains hash map chain) {home : Nat}
    (foreign : ∀ entry, (map.node home).entry = some entry → map.home hash entry.1 ≠ home) :
    chain home = [] := by
  cases list : chain home with
  | nil => rfl
  | cons index rest =>
      have same : index = home := chains.head home index (by simp [list])
      subst index
      obtain ⟨entry, held, atHome⟩ := (chains.mem_iff home home).mp (by simp [list])
      exact absurd atHome (foreign entry held)

theorem eq_cons_of_mem (chains : Chains hash map chain) {home index : Nat}
    (member : index ∈ chain home) : ∃ rest, chain home = home :: rest := by
  cases list : chain home with
  | nil => simp [list] at member
  | cons first rest =>
      have same : first = home := chains.head home first (by simp [list])
      exact ⟨rest, by rw [same]⟩

theorem entry_of_mem (chains : Chains hash map chain) {home index : Nat}
    (member : index ∈ chain home) : (map.node index).entry ≠ none := by
  obtain ⟨entry, held, _⟩ := (chains.mem_iff home index).mp member
  simp [held]

/-- A free node is in no chain. -/
theorem notMem_of_free (chains : Chains hash map chain) {index : Nat}
    (isFree : (map.node index).entry = none) (home : Nat) : index ∉ chain home :=
  fun member => chains.entry_of_mem member isFree

theorem home_of_mem (chains : Chains hash map chain) {home index : Nat}
    (member : index ∈ chain home) {entry : Value × ν} (held : (map.node index).entry = some entry) :
    map.home hash entry.1 = home := by
  obtain ⟨own, held', atHome⟩ := (chains.mem_iff home index).mp member
  rw [held] at held'
  obtain rfl := Option.some.inj held'
  exact atHome

end Chains

/-- A node is taken into the chain of a home or out of it: before and after it holds nothing or a
key with that home, and the new list of nodes has it where it holds a key. -/
structure Turns (hash : Value → UInt64) (map changed : ChainedMap ν) (home : Nat) (list : List Nat)
    (index : Nat) : Prop where
  before : ∀ entry, (map.node index).entry = some entry → map.home hash entry.1 = home
  after : ∀ entry, (changed.node index).entry = some entry → map.home hash entry.1 = home
  mem_iff : index ∈ list ↔ (changed.node index).entry ≠ none

/-- One chain is exchanged for another linked list, and the nodes of all other chains stay. -/
theorem Chains.exchange {chain : Nat → List Nat} (chains : Chains hash map chain)
    {changed : ChainedMap ν} {home : Nat} {list : List Nat} (touched : List Nat)
    (sizes : changed.nodes.size = map.nodes.size)
    (linked : Linked changed.node list) (nodup : list.Nodup)
    (head : ∀ index, list.head? = some index → index = home)
    (turns : ∀ index ∈ touched, Turns hash map changed home list index)
    (stays : ∀ index ∉ touched, changed.node index = map.node index)
    (keeps : ∀ index ∉ touched, index ∈ list ↔ index ∈ chain home) :
    Chains hash changed (Function.update chain home list) := by
  have foreign : ∀ other, other ≠ home → ∀ index ∈ chain other,
      changed.node index = map.node index := by
    intro other elsewhere index member
    refine stays index fun among => elsewhere ?_
    obtain ⟨entry, held, atOther⟩ := (chains.mem_iff other index).mp member
    exact atOther.symm.trans ((turns index among).before entry held)
  constructor
  · intro other
    by_cases same : other = home
    · subst other
      rwa [Function.update_self]
    · rw [Function.update_of_ne same]
      refine (chains.linked other).congr fun index member => ?_
      rw [foreign other same index member]
  · intro other
    by_cases same : other = home
    · subst other
      rwa [Function.update_self]
    · rw [Function.update_of_ne same]
      exact chains.nodup other
  · intro other index
    simp only [home_congr sizes]
    by_cases same : other = home
    · rw [same, Function.update_self]
      by_cases among : index ∈ touched
      · have turned := turns index among
        rw [turned.mem_iff, Option.ne_none_iff_exists']
        exact exists_congr fun entry => ⟨fun held => ⟨held, turned.after entry held⟩, And.left⟩
      · rw [keeps index among, chains.mem_iff home index, stays index among]
    · rw [Function.update_of_ne same, chains.mem_iff other index]
      by_cases among : index ∈ touched
      · have turned := turns index among
        constructor
        · rintro ⟨entry, held, atOther⟩
          exact absurd (atOther.symm.trans (turned.before entry held)) same
        · rintro ⟨entry, held, atOther⟩
          exact absurd (atOther.symm.trans (turned.after entry held)) same
      · rw [stays index among]
  · intro other index first
    by_cases same : other = home
    · subst other
      rw [Function.update_self] at first
      exact head index first
    · rw [Function.update_of_ne same] at first
      exact chains.head other index first

/-- A map with other entries is sound when they are different keys in chains and its free nodes and
its count are in order. -/
theorem Sound.rearrange (sound : Sound hash map) {changed : ChainedMap ν}
    {entries : List (Value × ν)} (sizes : changed.nodes.size = map.nodes.size)
    (firstFree_le : changed.firstFree ≤ map.nodes.size)
    (free_next : ∀ index, (changed.node index).entry = none → (changed.node index).next = none)
    (chained : ∃ chain, Chains hash changed chain) (distinct : DistinctKeys entries)
    (perm : changed.entries.Perm entries) (used : changed.used = entries.length) :
    Sound hash changed where
  powerOfTwo := by rw [sizes]; exact sound.powerOfTwo
  least := by rw [sizes]; exact sound.least
  firstFree_le := by rw [sizes]; exact firstFree_le
  free_next := free_next
  distinct := distinct.of_perm perm.symm
  chained := chained
  used_eq := by rw [used, perm.length_eq]

/-- Hashes agree on keys that are the same. -/
def Consistent (hash : Value → UInt64) : Prop :=
  ∀ key other : Value, key.sameKey other = true → hash key = hash other

theorem Consistent.home_eq (consistent : Consistent hash) {key other : Value}
    (same : key.sameKey other = true) : map.home hash key = map.home hash other := by
  simp [home, consistent key other same]

/-! ## Walks -/

/-- From any node on, successors lead through a list of different nodes to an end; all of them have
the home of the first. -/
theorem Sound.linked_from (sound : Sound hash map) (index : Nat) :
    ∃ rest, Linked map.node (index :: rest) ∧ rest.length < map.nodes.size ∧
      ∀ entry, (map.node index).entry = some entry → ∀ other ∈ index :: rest,
        ∃ entry', (map.node other).entry = some entry' ∧
          map.home hash entry'.1 = map.home hash entry.1 := by
  have positive : 0 < map.nodes.size := Nat.lt_of_lt_of_le (by decide) sound.least
  cases held : (map.node index).entry with
  | none => exact ⟨[], ⟨sound.free_next index held, trivial⟩, positive, by simp⟩
  | some entry =>
      obtain ⟨chain, chains⟩ := sound.chained
      have member := chains.mem_of_entry held
      obtain ⟨front, back, split⟩ := List.append_of_mem member
      refine ⟨back, ?_, ?_, ?_⟩
      · have linked := chains.linked (map.home hash entry.1)
        rw [split] at linked
        exact linked.tail
      · have bound := chains.length_le (map.home hash entry.1)
        rw [split] at bound
        simp only [List.length_append, List.length_cons] at bound
        omega
      · intro first firstHeld other inBack
        obtain rfl := Option.some.inj firstHeld
        apply (chains.mem_iff _ other).mp
        rw [split]
        exact List.mem_append_right front inBack

theorem walk_eq_none_of_linked {key : Value} {chain : List Nat} (linked : Linked map.node chain)
    (absent : ∀ index ∈ chain, (map.node index).holds key = false) (steps : Nat)
    (before : Option Nat) : map.walk key steps before chain.head? = none := by
  induction chain generalizing steps before with
  | nil => cases steps <;> simp [walk]
  | cons index rest ih =>
      cases steps with
      | zero => simp [walk]
      | succ steps =>
          obtain ⟨next, linked⟩ := linked
          simp only [List.head?_cons, walk, absent index (by simp), next]
          exact ih linked (fun other member => absent other (by simp [member])) steps (some index)

theorem walk_eq_some_of_linked {key : Value} {front back : List Nat} {index : Nat}
    (linked : Linked map.node (front ++ index :: back))
    (absent : ∀ other ∈ front, (map.node other).holds key = false)
    (present : (map.node index).holds key = true) {steps : Nat} (enough : front.length < steps)
    (before : Option Nat) :
    map.walk key steps before (front ++ index :: back).head? =
      some (front.getLast?.or before, index) := by
  induction front generalizing steps before with
  | nil =>
      obtain ⟨steps, rfl⟩ := Nat.exists_eq_succ_of_ne_zero (Nat.ne_of_gt enough)
      simp [walk, present]
  | cons first rest ih =>
      obtain ⟨steps, rfl⟩ := Nat.exists_eq_succ_of_ne_zero (Nat.ne_of_gt (Nat.zero_lt_of_lt enough))
      obtain ⟨next, linked⟩ := linked
      have shorter : rest.length < steps := by simpa using enough
      have later := ih linked (fun other member => absent other (by simp [member])) shorter
        (some first)
      have next' : (map.node first).next = (rest ++ index :: back).head? := next
      simp only [List.cons_append, List.head?_cons, walk, absent first (by simp), next']
      rw [if_neg (by simp), later]
      cases rest with
      | nil => simp
      | cons second rest => simp [List.getLast?_eq_getLast_of_ne_nil]

/-- The node reached by so many successors. -/
def follow (map : ChainedMap ν) : Nat → Option Nat → Option Nat
  | 0, cursor => cursor
  | steps + 1, cursor => map.follow steps (cursor.bind fun index => (map.node index).next)

theorem follow_of_linked {chain : List Nat} (linked : Linked map.node chain) (steps : Nat) :
    map.follow steps chain.head? = chain[steps]? := by
  induction steps generalizing chain with
  | zero => simp [follow, List.head?_eq_getElem?]
  | succ steps ih =>
      cases chain with
      | nil => simpa [follow] using ih linked
      | cons index rest =>
          obtain ⟨next, linked⟩ := linked
          simpa [follow, next] using ih linked

theorem walk_of_follow_eq_none {steps more : Nat} {cursor : Option Nat}
    (ended : map.follow steps cursor = none) (enough : steps ≤ more) (key : Value)
    (before : Option Nat) :
    map.walk key more before cursor = map.walk key steps before cursor := by
  induction steps generalizing more before cursor with
  | zero =>
      have stopped : cursor = none := ended
      subst cursor
      cases more <;> simp [walk]
  | succ steps ih =>
      obtain ⟨more, rfl⟩ := Nat.exists_eq_add_of_lt enough
      cases cursor with
      | none => simp [walk]
      | some index =>
          simp only [walk]
          split
          · rfl
          · exact ih ended (by omega) (some index)

theorem predecessor_of_follow_eq_none {steps more : Nat} {index : Nat}
    (ended : map.follow steps (some index) = none) (enough : steps ≤ more) (target : Nat) :
    map.predecessor target more index = map.predecessor target steps index := by
  induction steps generalizing more index with
  | zero => simp [follow] at ended
  | succ steps ih =>
      obtain ⟨more, rfl⟩ := Nat.exists_eq_add_of_lt enough
      simp only [follow, Option.bind_some] at ended
      simp only [predecessor]
      cases next : (map.node index).next with
      | none => rfl
      | some successor =>
          rw [next] at ended
          simp only
          split
          · rfl
          · exact ih ended (by omega)

/-- Every walk along successors ends within as many steps as there are nodes, so that a bound on
the number of steps cuts no search short. -/
structure WalksEnd (hash : Value → UInt64) (map : ChainedMap ν) : Prop where
  /-- Successors come to an end. -/
  ends : ∀ index, map.follow map.nodes.size (some index) = none
  /-- The search for a key has come to its end. -/
  search : ∀ key steps, map.nodes.size ≤ steps →
    map.walk key steps none (some (map.home hash key)) = map.locate? hash key
  /-- The search for a predecessor has come to its end. -/
  predecessor : ∀ target index steps, map.nodes.size ≤ steps →
    map.predecessor target steps index = map.predecessor target map.nodes.size index

theorem Sound.walksEnd (sound : Sound hash map) : WalksEnd hash map := by
  have ends : ∀ index, map.follow map.nodes.size (some index) = none := by
    intro index
    obtain ⟨rest, linked, short, _⟩ := sound.linked_from index
    have reached := follow_of_linked linked map.nodes.size
    rw [List.head?_cons] at reached
    rw [reached, List.getElem?_eq_none_iff, List.length_cons]
    exact short
  exact
    { ends
      search := fun key _ enough => walk_of_follow_eq_none (ends _) enough key none
      predecessor := fun target index _ enough =>
        predecessor_of_follow_eq_none (ends index) enough target }

/-! ## Searches -/

theorem Sound.locate?_eq_none (sound : Sound hash map) {key : Value}
    (absent : ∀ index, (map.node index).holds key = false) :
    map.locate? hash key = none := by
  obtain ⟨rest, linked, _, _⟩ := sound.linked_from (map.home hash key)
  exact walk_eq_none_of_linked linked (fun index _ => absent index) _ none

theorem DistinctKeys.node_unique (distinct : DistinctKeys map.entries) {index other : Nat}
    {entry entry' : Value × ν} (held : (map.node index).entry = some entry)
    (held' : (map.node other).entry = some entry') (same : entry.1.keyForm = entry'.1.keyForm) :
    index = other := by
  have within := lt_of_entry held
  have within' := lt_of_entry held'
  have ordered := List.pairwise_iff_getElem.mp
    (List.pairwise_filterMap.mp (List.pairwise_map.mp distinct))
  simp only [node, within, within', Array.getElem?_eq_getElem, Array.getD_eq_getD_getElem?,
    Option.getD_some] at held held'
  rcases Nat.lt_trichotomy index other with before | equal | after
  · exact absurd same (ordered index other (by simpa using within) (by simpa using within') before
      entry (by simpa using held) entry' (by simpa using held'))
  · exact equal
  · exact absurd same.symm (ordered other index (by simpa using within') (by simpa using within)
      after entry' (by simpa using held') entry (by simpa using held))

theorem Sound.holds_unique (sound : Sound hash map) {key : Value} {index other : Nat}
    (present : (map.node index).holds key = true) (present' : (map.node other).holds key = true) :
    index = other := by
  obtain ⟨entry, held, same⟩ := Node.holds_iff.mp present
  obtain ⟨entry', held', same'⟩ := Node.holds_iff.mp present'
  rw [Value.sameKey_iff] at same same'
  exact sound.distinct.node_unique held held' (same.trans same'.symm)

theorem Sound.locate?_eq_some (sound : Sound hash map) (consistent : Consistent hash)
    {chain : Nat → List Nat} (chains : Chains hash map chain) {key : Value} {index : Nat}
    (present : (map.node index).holds key = true) :
    ∃ front back, chain (map.home hash key) = front ++ index :: back ∧
      map.locate? hash key = some (front.getLast?, index) := by
  obtain ⟨entry, held, same⟩ := Node.holds_iff.mp present
  have member := chains.mem_of_entry held
  rw [consistent.home_eq same] at member
  obtain ⟨front, back, split⟩ := List.append_of_mem member
  obtain ⟨tail, starts⟩ := chains.eq_cons_of_mem member
  have bound := chains.length_le (map.home hash key)
  have linked := chains.linked (map.home hash key)
  have nodup := chains.nodup (map.home hash key)
  rw [split] at bound linked nodup
  have absent : ∀ other ∈ front, (map.node other).holds key = false := by
    intro other inFront
    by_contra present'
    have equal := sound.holds_unique present (by simpa using present')
    subst other
    exact (List.nodup_append.mp nodup).2.2 index inFront index (by simp) rfl
  refine ⟨front, back, split, ?_⟩
  have short : front.length < map.nodes.size := by
    simp only [List.length_append, List.length_cons] at bound
    omega
  have found := walk_eq_some_of_linked linked absent present short none
  rw [← split, starts, List.head?_cons, Option.or_none] at found
  exact found

/-- A key is found exactly where a node holds it. -/
theorem Sound.find?_eq_some_iff (sound : Sound hash map) (consistent : Consistent hash)
    {key : Value} {index : Nat} :
    map.find? hash key = some index ↔ (map.node index).holds key = true := by
  constructor
  · intro found
    by_contra absent
    by_cases somewhere : ∃ other, (map.node other).holds key = true
    · obtain ⟨other, present⟩ := somewhere
      obtain ⟨chain, chains⟩ := sound.chained
      obtain ⟨front, back, _, located⟩ := sound.locate?_eq_some consistent chains present
      simp only [find?, located, Option.map_some, Option.some.injEq] at found
      subst other
      exact absent present
    · have nowhere : ∀ other, (map.node other).holds key = false := by simpa using somewhere
      simp [find?, sound.locate?_eq_none nowhere] at found
  · intro present
    obtain ⟨chain, chains⟩ := sound.chained
    obtain ⟨front, back, _, located⟩ := sound.locate?_eq_some consistent chains present
    simp [find?, located]

theorem Sound.find?_eq_none_iff (sound : Sound hash map) (consistent : Consistent hash)
    {key : Value} :
    map.find? hash key = none ↔ ∀ index, (map.node index).holds key = false := by
  constructor
  · intro missing index
    by_contra present
    have found := (sound.find?_eq_some_iff consistent).mpr (by simpa using present)
    rw [missing] at found
    exact absurd found (by simp)
  · intro absent
    simp [find?, sound.locate?_eq_none absent]

end ChainedMap

end ScriptMachine
