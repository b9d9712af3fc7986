import ScriptMachine.Proofs.ChainedMap.Refinement

/-!
# The number of nodes

At most three quarters of the nodes are used: making room doubles them before the quarter is
touched, and only a map that uses a quarter of its nodes is halved.  So a rebuild always has a node
for each entry, and a second attempt to add an entry finds a free one.  A map that is made for some
entries keeps its nodes as long as no more keys are added and none is removed.
`Table.performAll_sized` says this of every sequence of operations.
-/

namespace ScriptMachine

namespace ChainedMap

variable {ν : Type} {hash : Value → UInt64} {map : ChainedMap ν}

/-- At most three quarters of the nodes are used. -/
def Roomy (map : ChainedMap ν) : Prop := 4 * map.used ≤ 3 * map.nodes.size

/-! ## Adding -/

@[simp]
theorem size_setValue (index : Nat) (value : ν) :
    (map.setValue index value).nodes.size = map.nodes.size := by
  simp [setValue]

theorem Sound.size_reserve (sound : Sound hash map) :
    (map.reserve hash).nodes.size =
      if map.nodes.size * 3 / 4 < map.used + 1 then 2 * map.nodes.size else map.nodes.size := by
  rw [ChainedMap.reserve]
  split
  · exact sound.rehash_double.2.1
  · rfl

/-- The second attempt to add an entry is never in vain, so the nodes are doubled at most once. -/
theorem Sound.size_addNew (sound : Sound hash map) (key : Value) (value : ν) :
    (map.addNew hash key value).nodes.size = (map.reserve hash).nodes.size := by
  cases found : (map.reserve hash).spare? hash key with
  | some free => simp only [ChainedMap.addNew, found, size_addAt]
  | none =>
      obtain ⟨_, sizes, _, spare⟩ := sound.repack
      obtain ⟨free, found'⟩ := spare key
      simp only [ChainedMap.addNew, found, found', size_addAt, sizes]

theorem Sound.lacks_of_find? (sound : Sound hash map) (consistent : Consistent hash) {key : Value}
    (missing : map.find? hash key = none) : map.Lacks key :=
  (sound.find?_eq_none_iff consistent).mp missing

theorem Sound.used_addNew (sound : Sound hash map) {key : Value} (value : ν)
    (lacks : map.Lacks key) : (map.addNew hash key value).used = map.used + 1 := by
  obtain ⟨sound', perm⟩ := sound.addNew value lacks
  rw [sound'.used_eq, perm.length_eq, List.length_cons, sound.used_eq]

/-- A map keeps its nodes as long as an insertion leaves three quarters of them or less used. -/
theorem Sound.size_insert (sound : Sound hash map) (consistent : Consistent hash) (key : Value)
    (value : ν) (few : (map.insert hash key value).used ≤ map.nodes.size * 3 / 4) :
    (map.insert hash key value).nodes.size = map.nodes.size := by
  cases found : map.find? hash key with
  | some index => simp only [ChainedMap.insert, found, size_setValue]
  | none =>
      simp only [ChainedMap.insert, found] at few ⊢
      rw [sound.used_addNew value (sound.lacks_of_find? consistent found)] at few
      rw [sound.size_addNew, sound.size_reserve, if_neg (Nat.not_lt.mpr few)]

theorem Roomy.insert (roomy : map.Roomy) (sound : Sound hash map) (consistent : Consistent hash)
    (key : Value) (value : ν) : (map.insert hash key value).Roomy := by
  rw [ChainedMap.insert]
  split
  case h_1 index found => rwa [Roomy, size_setValue]
  case h_2 missing =>
    have least : 4 ≤ map.nodes.size := sound.least
    rw [Roomy] at roomy ⊢
    rw [sound.used_addNew value (sound.lacks_of_find? consistent missing), sound.size_addNew,
      sound.size_reserve]
    split
    · omega
    · omega

/-! ## Removing -/

theorem Roomy.shrink (roomy : map.Roomy) (sound : Sound hash map) : (map.shrink hash).Roomy := by
  rw [ChainedMap.shrink]
  split
  case isTrue sparse =>
    obtain ⟨larger, few⟩ := sparse
    obtain ⟨sound', sizes, perm⟩ := sound.rehash_half larger few
    rw [leastSize] at larger
    rw [Roomy, sound'.used_eq, perm.length_eq, ← sound.used_eq, sizes]
    omega
  case isFalse => exact roomy

/-- The node that a key is located at holds an entry of the key. -/
theorem Sound.entry_of_locate? (sound : Sound hash map) (consistent : Consistent hash)
    {key : Value} {before : Option Nat} {index : Nat}
    (located : map.locate? hash key = some (before, index)) :
    ∃ entry, (map.node index).entry = some entry ∧ entry.1.sameKey key = true := by
  have found : map.find? hash key = some index := by rw [ChainedMap.find?, located, Option.map_some]
  exact Node.holds_iff.mp ((sound.find?_eq_some_iff consistent).mp found)

theorem Sound.removed_of_locate? (sound : Sound hash map) (consistent : Consistent hash)
    {key : Value} {before : Option Nat} {index : Nat}
    (located : map.locate? hash key = some (before, index)) :
    Sound hash (map.removed before index) ∧
      (map.removed before index).nodes.size = map.nodes.size := by
  obtain ⟨entry, held, same⟩ := sound.entry_of_locate? consistent located
  obtain ⟨before', located', fewer, without⟩ := sound.removed consistent held same
  obtain rfl : before' = before := by
    rw [located] at located'
    simpa using located'.symm
  exact ⟨fewer, without.sizes⟩

theorem Roomy.erase? (roomy : map.Roomy) (sound : Sound hash map) (consistent : Consistent hash)
    {key : Value} {old : ν} {less : ChainedMap ν}
    (erased : map.erase? hash key = some (old, less)) : less.Roomy := by
  rw [ChainedMap.erase?] at erased
  split at erased
  case h_1 => exact absurd erased (by simp)
  case h_2 before index located =>
    obtain ⟨entry, _, result⟩ := Option.map_eq_some_iff.mp erased
    obtain rfl : (map.removed before index).shrink hash = less := (Prod.mk.inj result).2
    obtain ⟨fewer, sizes⟩ := sound.removed_of_locate? consistent located
    refine Roomy.shrink ?_ fewer
    rw [Roomy] at roomy ⊢
    rw [sizes, ChainedMap.removed]
    dsimp only
    omega

/-! ## Sequences of operations -/

theorem Roomy.perform (roomy : map.Roomy) (sound : Sound hash map) (consistent : Consistent hash)
    (operation : MapOperation ν) : (map.perform hash operation).2.Roomy := by
  cases operation with
  | newSlot key value =>
      rw [ChainedMap.perform]
      split
      · exact roomy.insert sound consistent key value
      · exact roomy
  | set key value =>
      rw [ChainedMap.perform]
      split
      case h_1 assigned replaced =>
        obtain ⟨index, _, rfl⟩ := Option.map_eq_some_iff.mp replaced
        rwa [Roomy, size_setValue]
      case h_2 => exact roomy
  | remove key =>
      rw [ChainedMap.perform]
      split
      case h_1 old less erased => exact roomy.erase? sound consistent erased
      case h_2 => exact roomy
  | clear => exact Nat.zero_le _
  | get key => exact roomy
  | contains key => exact roomy

theorem Represents.roomy_performAll {dictionary : Dictionary ν}
    (represents : Represents hash map dictionary) (consistent : Consistent hash)
    (roomy : map.Roomy) (operations : List (MapOperation ν)) :
    (ScriptMachine.performAll (ChainedMap.perform hash) operations map).2.Roomy := by
  induction operations generalizing map dictionary with
  | nil => exact roomy
  | cons operation rest ih =>
      exact ih (represents.perform consistent operation).2
        (roomy.perform represents.sound consistent operation)

/-- What is true of the nodes of a map after every operation. -/
structure Sized (hash : Value → UInt64) (map : ChainedMap ν) : Prop where
  /-- The number of nodes is a power of two. -/
  powerOfTwo : ∃ exponent, map.nodes.size = 2 ^ exponent
  /-- There are at least four nodes. -/
  least : 4 ≤ map.nodes.size
  /-- The nodes that hold an entry are counted. -/
  used_eq : map.used = map.occupied
  /-- At most three quarters of the nodes are used. -/
  roomy : 4 * map.used ≤ 3 * map.nodes.size
  /-- Twice the nodes hold all entries. -/
  doubled : (map.rehash hash (2 * map.nodes.size)).entries.Perm map.entries
  /-- After making room, as many nodes again hold all entries. -/
  repacked : ((map.reserve hash).rehash hash (map.reserve hash).nodes.size).entries.Perm
    (map.reserve hash).entries
  /-- Where a removal leaves few enough entries, half the nodes hold all of them. -/
  halved : ∀ key before index, map.locate? hash key = some (before, index) →
    leastSize < (map.removed before index).nodes.size →
    (map.removed before index).used ≤ (map.removed before index).nodes.size / 4 →
    ((map.removed before index).rehash hash
      ((map.removed before index).nodes.size / 2)).entries.Perm
      (map.removed before index).entries
  /-- The first or the second attempt to add an entry finds a free node. -/
  attempts : ∀ key value, ∃ target free,
    (target = map.reserve hash ∨
      target = (map.reserve hash).rehash hash (map.reserve hash).nodes.size) ∧
    target.spare? hash key = some free ∧
    map.addNew hash key value = target.addAt hash free key value

theorem Sound.sized (sound : Sound hash map) (consistent : Consistent hash) (roomy : map.Roomy) :
    Sized hash map where
  powerOfTwo := sound.powerOfTwo
  least := sound.least
  used_eq := sound.used_eq.trans occupied_eq_length_entries.symm
  roomy := roomy
  doubled := sound.rehash_double.2.2
  repacked := sound.repack.2.2.1
  halved := by
    intro key before index located larger few
    exact ((sound.removed_of_locate? consistent located).1.rehash_half larger few).2.2
  attempts := by
    intro key value
    cases found : (map.reserve hash).spare? hash key with
    | some free => exact ⟨_, free, .inl rfl, found, by simp only [ChainedMap.addNew, found]⟩
    | none =>
        obtain ⟨free, found'⟩ := sound.repack.2.2.2 key
        exact ⟨_, free, .inr rfl, found', by simp only [ChainedMap.addNew, found, found']⟩

/-! ## Nodes that are enough -/

theorem le_sizeFor (capacity : Nat) : capacity ≤ sizeFor capacity * 3 / 4 := by
  have above := Nat.lt_log2_self (n := max (capacity * 4 / 3 + 1) leastSize - 1)
  have needed := Nat.le_max_left (capacity * 4 / 3 + 1) leastSize
  rw [sizeFor, Nat.one_shiftLeft]
  omega

/-- Different entries with keys among some keys are no more than these. -/
theorem DistinctKeys.length_le {entries : List (Value × ν)} (distinct : DistinctKeys entries)
    {keys : List Value}
    (among : ∀ entry ∈ entries, ∃ own ∈ keys, own.sameKey entry.1 = true) :
    entries.length ≤ keys.length := by
  have inside : (entries.map fun entry => entry.1.keyForm) ⊆ keys.map Value.keyForm := by
    intro form member
    obtain ⟨entry, own, rfl⟩ := List.mem_map.mp member
    obtain ⟨key, listed, same⟩ := among entry own
    exact List.mem_map.mpr ⟨key, listed, Value.sameKey_iff.mp same⟩
  simpa using (List.subperm_of_subset distinct inside).length_le

end ChainedMap

namespace MapOperation

variable {ν : Type}

/-- The operation takes no key away and adds none but the given ones. -/
def AddsAmong (keys : List Value) : MapOperation ν → Prop
  | .newSlot key _ => ∃ own ∈ keys, own.sameKey key = true
  | .remove _ => False
  | _ => True

/-- The operations take no key away and add so many different ones at most. -/
def AddsAtMost (count : Nat) (operations : List (MapOperation ν)) : Prop :=
  ∃ keys : List Value, keys.length ≤ count ∧ ∀ operation ∈ operations, operation.AddsAmong keys

end MapOperation

namespace Dictionary

variable {ν : Type} {dictionary : Dictionary ν} {keys : List Value}

/-- All keys are among the given ones. -/
def Among (keys : List Value) (dictionary : Dictionary ν) : Prop :=
  ∀ entry ∈ dictionary, ∃ own ∈ keys, own.sameKey entry.1 = true

theorem Among.insert (among : dictionary.Among keys) {key : Value} (value : ν)
    (listed : ∃ own ∈ keys, own.sameKey key = true) : (dictionary.insert key value).Among keys := by
  intro entry inside
  rw [Dictionary.insert] at inside
  split at inside
  · obtain ⟨old, member, rfl⟩ := List.mem_map.mp inside
    obtain ⟨own, listed, same⟩ := among old member
    refine ⟨own, listed, ?_⟩
    split
    · exact same
    · exact same
  · rcases List.mem_cons.mp inside with rfl | member
    · exact listed
    · exact among entry member

theorem Among.perform (among : dictionary.Among keys) {operation : MapOperation ν}
    (adds : operation.AddsAmong keys) : (Dictionary.perform operation dictionary).2.Among keys := by
  cases operation with
  | newSlot key value =>
      rw [Dictionary.perform]
      split
      · exact among.insert value adds
      · exact among
  | set key value =>
      rw [Dictionary.perform]
      split
      case isTrue present =>
        intro entry inside
        rw [Dictionary.insert, if_pos present] at inside
        obtain ⟨old, member, rfl⟩ := List.mem_map.mp inside
        obtain ⟨own, listed, same⟩ := among old member
        refine ⟨own, listed, ?_⟩
        split
        · exact same
        · exact same
      case isFalse => exact among
  | remove key => exact adds.elim
  | clear => exact fun entry inside => absurd inside List.not_mem_nil
  | get key => exact among
  | contains key => exact among

end Dictionary

namespace ChainedMap

variable {ν : Type} {hash : Value → UInt64} {map : ChainedMap ν} {dictionary : Dictionary ν}

theorem Sound.size_perform (sound : Sound hash map) (consistent : Consistent hash)
    {operation : MapOperation ν} {keys : List Value} (adds : operation.AddsAmong keys)
    (few : (map.perform hash operation).2.used ≤ map.nodes.size * 3 / 4) :
    (map.perform hash operation).2.nodes.size = map.nodes.size := by
  cases operation with
  | newSlot key value =>
      cases checked : key.checkKey with
      | ok _ =>
          simp only [ChainedMap.perform, checked] at few ⊢
          exact sound.size_insert consistent key value few
      | error _ => simp only [ChainedMap.perform, checked]
  | set key value =>
      rw [ChainedMap.perform]
      split
      case h_1 assigned replaced =>
        obtain ⟨index, _, rfl⟩ := Option.map_eq_some_iff.mp replaced
        exact size_setValue index value
      case h_2 => rfl
  | remove key => exact adds.elim
  | clear => exact size_ofSize map.nodes.size
  | get key => rfl
  | contains key => rfl

/-- As long as the keys are among some that three quarters of the nodes hold, the nodes stay. -/
theorem Represents.size_performAll (represents : Represents hash map dictionary)
    (consistent : Consistent hash) {keys : List Value} (among : dictionary.Among keys)
    (few : keys.length ≤ map.nodes.size * 3 / 4) {operations : List (MapOperation ν)}
    (adds : ∀ operation ∈ operations, operation.AddsAmong keys) :
    (ScriptMachine.performAll (ChainedMap.perform hash) operations map).2.nodes.size =
      map.nodes.size := by
  induction operations generalizing map dictionary with
  | nil => rfl
  | cons operation rest ih =>
      have own := adds operation List.mem_cons_self
      have next := (represents.perform consistent operation).2
      have among' := among.perform own
      have used : (map.perform hash operation).2.used ≤ keys.length := by
        rw [next.sound.used_eq, next.perm.length_eq]
        exact next.distinct.length_le among'
      have size := represents.sound.size_perform consistent own (Nat.le_trans used few)
      have last := ih next among' (by rwa [size])
        fun other member => adds other (List.mem_cons_of_mem operation member)
      exact last.trans size

end ChainedMap

/-- The nodes of a table.  Whatever operations are made on a new map under a hash that is consistent
with the equality of keys, its nodes are a power of two, four or more, of which three quarters are
used at most; every rebuild that an operation may ask for keeps all entries, and an entry is added
by the second attempt at the latest.  As long as no key is removed and no more different keys are
added than the map was made for, its nodes stay the same.  So it is for a table with its own
hash. -/
theorem Table.performAll_sized (hash : Value → UInt64) (consistent : ChainedMap.Consistent hash)
    (capacity : Nat) (operations : List (MapOperation Value)) :
    (ChainedMap.Sized hash
          (performAll (ChainedMap.perform hash) operations (.withCapacity capacity)).2 ∧
        (MapOperation.AddsAtMost capacity operations →
          (performAll (ChainedMap.perform hash) operations (.withCapacity capacity)).2.capacity =
            (ChainedMap.withCapacity capacity : ChainedMap Value).capacity)) ∧
      ChainedMap.Sized Value.keyHash
          (performAll Table.perform operations (.withCapacity capacity)).2.entries.toChainedMap ∧
        (MapOperation.AddsAtMost capacity operations →
          (performAll Table.perform operations (.withCapacity capacity)).2.entries.capacity =
            (Table.withCapacity capacity).entries.capacity) := by
  have sized : ∀ hash, ChainedMap.Consistent hash →
      ChainedMap.Sized hash
          (performAll (ChainedMap.perform hash) operations (.withCapacity capacity)).2 ∧
        (MapOperation.AddsAtMost capacity operations →
          (performAll (ChainedMap.perform hash) operations (.withCapacity capacity)).2.capacity =
            (ChainedMap.withCapacity capacity : ChainedMap Value).capacity) := by
    intro hash consistent
    have fresh := ChainedMap.Represents.withCapacity (ν := Value) hash capacity
    have last := (fresh.performAll consistent operations).2
    have roomy := fresh.roomy_performAll consistent (Nat.zero_le _) operations
    refine ⟨last.sound.sized consistent roomy, ?_⟩
    rintro ⟨keys, few, adds⟩
    have none : Dictionary.Among keys ([] : Dictionary Value) := fun _ inside =>
      absurd inside List.not_mem_nil
    refine fresh.size_performAll consistent none ?_ adds
    rw [ChainedMap.withCapacity, ChainedMap.size_ofSize]
    exact Nat.le_trans few (ChainedMap.le_sizeFor capacity)
  refine ⟨sized hash consistent, ?_⟩
  rw [(performAll_eq operations (.withCapacity capacity)).2]
  exact sized Value.keyHash consistent_keyHash

/-- Three keys with the same hash, one of them written twice. -/
def threeKeys : List (MapOperation Value) :=
  [.newSlot (.integer 1) .null, .newSlot (.integer 2) .null, .newSlot (.integer 1) (.integer 7),
    .newSlot (.integer 3) .null]

theorem Table.performAll_sized_colliding :
    ChainedMap.Consistent (fun _ => 0) ∧ MapOperation.AddsAtMost 3 threeKeys ∧
      (performAll (ChainedMap.perform fun _ => 0) threeKeys (.withCapacity 3)).2.used = 3 ∧
      ChainedMap.Sized (fun _ => 0)
        (performAll (ChainedMap.perform fun _ => 0) threeKeys (.withCapacity 3)).2 ∧
      (performAll (ChainedMap.perform fun _ => 0) threeKeys (.withCapacity 3)).2.capacity = 8 := by
  have consistent : ChainedMap.Consistent (fun _ => 0) := fun _ _ _ => rfl
  have few : MapOperation.AddsAtMost 3 threeKeys :=
    ⟨[.integer 1, .integer 2, .integer 3], Nat.le_refl 3, by
      simp [threeKeys, MapOperation.AddsAmong, Value.sameKey_iff, Value.keyForm]⟩
  obtain ⟨⟨sized, size⟩, _⟩ := performAll_sized (fun _ => 0) consistent 3 threeKeys
  exact ⟨consistent, few, by decide, sized, (size few).trans (by decide)⟩

end ScriptMachine
