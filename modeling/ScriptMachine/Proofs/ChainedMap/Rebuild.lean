import ScriptMachine.Proofs.ChainedMap.Insertion

/-!
# Rebuilding and growing a chained map

While an array is being filled all nodes from `firstFree` on are taken; `Packed` says so.  A packed
map with a free node hands one out, so a rebuild loses no entry as long as the new array has as many
nodes as there are entries.  Making room, shrinking and inserting are sound for that reason, and
the last resort of an insertion, a second rebuild, is never needed.
-/

namespace ScriptMachine.ChainedMap

variable {ν : Type} {hash : Value → UInt64} {map : ChainedMap ν}

theorem length_entries_le (map : ChainedMap ν) : map.entries.length ≤ map.nodes.size := by
  rw [← occupied_eq_length_entries]
  exact Array.countP_le_size

theorem entries_length_of_all_taken
    (taken : ∀ index < map.nodes.size, (map.node index).entry ≠ none) :
    map.entries.length = map.nodes.size := by
  rw [← occupied_eq_length_entries, occupied, Array.countP_eq_size]
  intro node member
  obtain ⟨index, within, rfl⟩ := Array.mem_iff_getElem.mp member
  have held := taken index within
  simpa [ChainedMap.node, within, Node.isFree, Option.isSome_iff_ne_none] using held

/-- All nodes that are not handed out any more are taken. -/
def Packed (map : ChainedMap ν) : Prop :=
  ∀ index, map.firstFree ≤ index → index < map.nodes.size → (map.node index).entry ≠ none

theorem Packed.spare? (packed : map.Packed) (room : map.entries.length < map.nodes.size)
    (hash : Value → UInt64) (key : Value) : ∃ free, map.spare? hash key = some free := by
  cases found : map.spare? hash key with
  | some free => exact ⟨free, rfl⟩
  | none =>
      rw [ChainedMap.spare?] at found
      split at found
      case isTrue => exact absurd found (by simp)
      case isFalse =>
        have taken : ∀ index < map.nodes.size, (map.node index).entry ≠ none := by
          intro index within
          by_cases below : index < map.firstFree
          · exact freeBelow_eq_none found index below
          · exact packed index (Nat.le_of_not_lt below) within
        have full := entries_length_of_all_taken taken
        omega

/-- Adding a key frees no node and takes the one handed out. -/
theorem entry_addAt_ne_none (sound : Sound hash map) {key : Value} (value : ν) {free index : Nat}
    (found : map.spare? hash key = some free)
    (taken : (map.node index).entry ≠ none ∨ index = free) :
    ((map.addAt hash free key value).node index).entry ≠ none := by
  obtain ⟨within, isFree⟩ := sound.spare?_free found
  cases resident : (map.node (map.home hash key)).entry with
  | none =>
      have atHome : map.home hash key = free := by
        simpa [ChainedMap.spare?, Node.isFree, resident] using found
      have shape : (map.addAt hash free key value).nodes =
          (map.setNode (map.home hash key) ⟨some (key, value), none⟩).nodes := by
        simp only [addAt, resident]
      rw [node_congr shape, entry_setNode]
      by_cases same : map.home hash key = index
      · rw [if_pos ⟨same, home_lt sound key⟩]
        simp
      · simpa [same, ← atHome, Ne.symm same] using taken
  | some entry =>
      by_cases own : map.home hash entry.1 = map.home hash key
      · have shape : (map.addAt hash free key value).nodes =
            ((map.setNode free ⟨some (key, value), (map.node (map.home hash key)).next⟩).setNext
              (map.home hash key) (some free)).nodes := by
          simp only [addAt, resident, own, if_true]
        rw [node_congr shape, entry_setNext, entry_setNode]
        by_cases same : free = index
        · rw [if_pos ⟨same, within⟩]
          simp
        · simpa [same, Ne.symm same] using taken
      · let before := map.predecessor (map.home hash key) map.nodes.size (map.home hash entry.1)
        have shape : (map.addAt hash free key value).nodes =
            (((map.setNext before (some free)).setNode free
              (map.node (map.home hash key))).setNode (map.home hash key)
                ⟨some (key, value), none⟩).nodes := by
          simp only [addAt, resident, own, if_false, before]
        rw [node_congr shape, entry_setNode, entry_setNode, entry_setNext]
        by_cases atHome : map.home hash key = index
        · rw [if_pos ⟨atHome, by simpa using home_lt sound key⟩]
          simp
        · by_cases same : free = index
          · rw [if_neg (by simp [atHome]), if_pos ⟨same, by simpa using within⟩]
            simp [resident]
          · simpa [atHome, same, Ne.symm same] using taken

theorem size_addAt (free : Nat) (key : Value) (value : ν) :
    (map.addAt hash free key value).nodes.size = map.nodes.size := by
  cases resident : (map.node (map.home hash key)).entry with
  | none => simp [addAt, resident]
  | some entry =>
      by_cases own : map.home hash entry.1 = map.home hash key
      · simp [addAt, resident, own]
      · simp [addAt, resident, own]

theorem Packed.addAt (packed : map.Packed) (sound : Sound hash map) {key : Value} (value : ν)
    {free : Nat} (found : map.spare? hash key = some free) :
    (map.addAt hash free key value).Packed := by
  intro index above within
  rw [size_addAt] at within
  apply entry_addAt_ne_none sound value found
  cases resident : (map.node (map.home hash key)).entry with
  | none =>
      left
      exact packed index (by simpa [ChainedMap.addAt, resident, setNode] using above) within
  | some entry =>
      have handed : map.freeBelow map.firstFree = some free := by
        simpa [ChainedMap.spare?, Node.isFree, resident] using found
      obtain ⟨_, _, higher⟩ := freeBelow_eq_some handed
      have above : free ≤ index := by simpa [ChainedMap.addAt, resident] using above
      by_cases same : index = free
      · exact .inr same
      · left
        by_cases below : index < map.firstFree
        · exact higher index (by omega) below
        · exact packed index (Nat.le_of_not_lt below) within

/-! ## Rebuilding -/

/-- The entries of a list, put one after the other into a free array of so many nodes. -/
def rebuild (hash : Value → UInt64) (entries : List (Value × ν)) (size : Nat) : ChainedMap ν :=
  entries.foldl (fun rebuilt entry => rebuilt.addFitting hash entry.1 entry.2) (ofSize size)

theorem rehash_eq_rebuild (size : Nat) :
    map.rehash hash size = rebuild hash map.entries (max size leastSize) := rfl

theorem node_ofSize (size index : Nat) : (ofSize size : ChainedMap ν).node index = Node.free := by
  by_cases within : index < size
  · simp [ofSize, node, within]
  · simp [ofSize, node, within]

theorem entries_ofSize (size : Nat) : (ofSize size : ChainedMap ν).entries = [] := by
  simp [ofSize, entries, Node.free]

theorem size_ofSize (size : Nat) : (ofSize size : ChainedMap ν).nodes.size = size := by
  simp [ofSize]

theorem packed_ofSize (size : Nat) : (ofSize size : ChainedMap ν).Packed := by
  intro index above within
  simp only [ofSize, Array.size_replicate] at above within
  omega

theorem sound_ofSize (hash : Value → UInt64) {size : Nat}
    (powerOfTwo : ∃ exponent, size = 2 ^ exponent) (least : leastSize ≤ size) :
    Sound hash (ofSize size : ChainedMap ν) where
  powerOfTwo := by simpa [ofSize] using powerOfTwo
  least := by simpa [ofSize] using least
  firstFree_le := by simp [ofSize]
  free_next := by simp [node_ofSize, Node.free]
  distinct := by simp [entries_ofSize, DistinctKeys]
  chained := ⟨fun _ => [], by constructor <;> simp [node_ofSize, Node.free, Linked]⟩
  used_eq := by simp [entries_ofSize]; rfl

/-- Filling a packed map loses nothing as long as there are enough nodes. -/
theorem Sound.foldl_addFitting (sound : Sound hash map) (packed : map.Packed)
    (entries : List (Value × ν)) (distinct : DistinctKeys (map.entries ++ entries))
    (room : map.entries.length + entries.length ≤ map.nodes.size) :
    let filled := entries.foldl (fun rebuilt entry => rebuilt.addFitting hash entry.1 entry.2) map
    Sound hash filled ∧ filled.Packed ∧ filled.nodes.size = map.nodes.size ∧
      filled.entries.Perm (map.entries ++ entries) := by
  induction entries generalizing map with
  | nil => exact ⟨sound, packed, rfl, by simp⟩
  | cons entry rest ih =>
      simp only [List.length_cons] at room
      obtain ⟨key, value⟩ := entry
      obtain ⟨free, found⟩ := packed.spare? (by omega) hash key
      have lacks : map.Lacks key := by
        rw [lacks_iff]
        intro other member
        have apart := (distinctKeys_cons.mp (distinct.of_perm List.perm_middle)).1
        exact apart other (List.mem_append_left rest member)
      obtain ⟨sound', perm⟩ := sound.addAt value lacks found
      have added : map.addFitting hash key value = map.addAt hash free key value := by
        simp [addFitting, found]
      have order : ((map.addAt hash free key value).entries ++ rest).Perm
          (map.entries ++ (key, value) :: rest) :=
        (perm.append_right rest).trans List.perm_middle.symm
      have count := perm.length_eq
      rw [List.length_cons] at count
      obtain ⟨soundAll, packedAll, sizeAll, permAll⟩ :=
        ih sound' (packed.addAt sound value found) (distinct.of_perm order.symm)
          (by rw [count, size_addAt]; omega)
      simp only [List.foldl_cons, added]
      exact ⟨soundAll, packedAll, by rw [sizeAll, size_addAt], permAll.trans order⟩

/-- A rebuild keeps all entries when it has a node for each. -/
theorem sound_rebuild {entries : List (Value × ν)} (distinct : DistinctKeys entries) {size : Nat}
    (powerOfTwo : ∃ exponent, size = 2 ^ exponent) (least : leastSize ≤ size)
    (room : entries.length ≤ size) :
    Sound hash (rebuild hash entries size) ∧ (rebuild hash entries size).Packed ∧
      (rebuild hash entries size).nodes.size = size ∧
      (rebuild hash entries size).entries.Perm entries := by
  have filled := (sound_ofSize hash powerOfTwo least).foldl_addFitting
    (packed_ofSize size) entries (by simpa [entries_ofSize] using distinct)
    (by simpa [entries_ofSize, size_ofSize] using room)
  simpa [entries_ofSize, size_ofSize, rebuild] using filled

theorem Sound.rehash (sound : Sound hash map) {size : Nat}
    (powerOfTwo : ∃ exponent, size = 2 ^ exponent) (least : leastSize ≤ size)
    (room : map.entries.length ≤ size) :
    Sound hash (map.rehash hash size) ∧ (map.rehash hash size).Packed ∧
      (map.rehash hash size).nodes.size = size ∧
      (map.rehash hash size).entries.Perm map.entries := by
  rw [rehash_eq_rebuild, Nat.max_eq_left least]
  exact sound_rebuild sound.distinct powerOfTwo least room

/-! ## Growing -/

theorem Sound.rehash_double (sound : Sound hash map) :
    Sound hash (map.rehash hash (2 * map.nodes.size)) ∧
      (map.rehash hash (2 * map.nodes.size)).nodes.size = 2 * map.nodes.size ∧
      (map.rehash hash (2 * map.nodes.size)).entries.Perm map.entries := by
  obtain ⟨exponent, power⟩ := sound.powerOfTwo
  have least := sound.least
  have bound := length_entries_le map
  obtain ⟨sound', _, sizes, perm⟩ := sound.rehash ⟨exponent + 1, by rw [power, Nat.pow_succ']⟩
    (by omega) (by omega : map.entries.length ≤ 2 * map.nodes.size)
  exact ⟨sound', sizes, perm⟩

/-- After making room there is a free node. -/
theorem Sound.reserve (sound : Sound hash map) :
    Sound hash (map.reserve hash) ∧ (map.reserve hash).entries.Perm map.entries ∧
      map.entries.length < (map.reserve hash).nodes.size := by
  have bound := length_entries_le map
  have positive : 0 < map.nodes.size := Nat.lt_of_lt_of_le (by decide) sound.least
  rw [ChainedMap.reserve, sound.used_eq]
  split
  · obtain ⟨sound', sizes, perm⟩ := sound.rehash_double
    exact ⟨sound', perm, by omega⟩
  · exact ⟨sound, List.Perm.refl _, by omega⟩

/-- A rebuild of the same size packs a map that has room, so that every key finds a free node. -/
theorem Sound.repack (sound : Sound hash map) :
    Sound hash ((map.reserve hash).rehash hash (map.reserve hash).nodes.size) ∧
      ((map.reserve hash).rehash hash (map.reserve hash).nodes.size).nodes.size =
        (map.reserve hash).nodes.size ∧
      ((map.reserve hash).rehash hash (map.reserve hash).nodes.size).entries.Perm
        (map.reserve hash).entries ∧
      ∀ key, ∃ free,
        ((map.reserve hash).rehash hash (map.reserve hash).nodes.size).spare? hash key =
          some free := by
  obtain ⟨roomy, perm, room⟩ := sound.reserve
  rw [← perm.length_eq] at room
  obtain ⟨rebuilt, packed, sizes, perm'⟩ :=
    roomy.rehash roomy.powerOfTwo roomy.least (Nat.le_of_lt room)
  exact ⟨rebuilt, sizes, perm', packed.spare? (by rw [perm'.length_eq, sizes]; exact room) hash⟩

/-- Adding a new key keeps a map sound and adds its entry. -/
theorem Sound.addNew (sound : Sound hash map) {key : Value} (value : ν) (lacks : map.Lacks key) :
    Sound hash (map.addNew hash key value) ∧
      (map.addNew hash key value).entries.Perm ((key, value) :: map.entries) := by
  obtain ⟨roomy, perm, _⟩ := sound.reserve
  have lacks' := lacks.of_perm perm
  cases found : (map.reserve hash).spare? hash key with
  | some free =>
      obtain ⟨sound', added⟩ := roomy.addAt value lacks' found
      simp only [ChainedMap.addNew, found]
      exact ⟨sound', added.trans (perm.cons _)⟩
  | none =>
      -- The free nodes have all been handed out: a rebuild of the same size packs the array.
      obtain ⟨rebuilt, _, perm', spare⟩ := sound.repack
      obtain ⟨free, found'⟩ := spare key
      obtain ⟨sound', added⟩ := rebuilt.addAt value (lacks'.of_perm perm') found'
      simp only [ChainedMap.addNew, found, found']
      exact ⟨sound', added.trans ((perm'.trans perm).cons _)⟩

/-! ## Replacing values -/

theorem Sound.setValue (sound : Sound hash map) {index : Nat} {key : Value} {old : ν}
    (held : (map.node index).entry = some (key, old)) (value : ν) :
    Sound hash (map.setValue index value) ∧
      ((map.setValue index value).entries ++ [(key, old)]).Perm
        (map.entries ++ [(key, value)]) := by
  have within := lt_of_entry held
  have shape := setValue_eq_setNode value held
  have nodes := node_setNode { map.node index with entry := some (key, value) } within
  rw [← shape] at nodes
  have sizes : (map.setValue index value).nodes.size = map.nodes.size := by rw [shape, size_setNode]
  have perm := entries_setNode_perm { map.node index with entry := some (key, value) } within
  rw [held, ← shape] at perm
  simp only [Option.toList_some] at perm
  have nexts : ∀ other, ((map.setValue index value).node other).next = (map.node other).next := by
    intro other
    rw [nodes]
    by_cases same : other = index
    · simp [same]
    · simp [same]
  have frees : ∀ other, ((map.setValue index value).node other).entry = none →
      (map.node other).entry = none := by
    intro other
    rw [nodes]
    by_cases same : other = index
    · simp [same]
    · simp [same]
  have chained : ∃ chain, Chains hash (map.setValue index value) chain := by
    obtain ⟨chain, chains⟩ := sound.chained
    refine ⟨chain, fun home => (chains.linked home).congr fun other _ => nexts other,
      chains.nodup, ?_, chains.head⟩
    intro home other
    rw [chains.mem_iff home other]
    simp only [home_congr sizes, nodes]
    by_cases same : other = index
    · simp [same, held]
    · simp [same]
  have distinct : DistinctKeys (map.setValue index value).entries := by
    have keys := perm.map fun entry : Value × ν => entry.1.keyForm
    simp only [List.map_append, List.map_cons, List.map_nil, List.perm_append_right_iff] at keys
    exact keys.nodup_iff.mpr sound.distinct
  have count := perm.length_eq
  simp only [List.length_append, List.length_cons, List.length_nil] at count
  refine ⟨sound.rearrange sizes sound.firstFree_le ?_ chained distinct (.refl _) ?_, perm⟩
  · intro other isFree
    rw [nexts other]
    exact sound.free_next other (frees other isFree)
  · change map.used = _
    rw [sound.used_eq]
    omega

end ScriptMachine.ChainedMap
