import ScriptMachine.Object.Table
import ScriptMachine.Proofs.ChainedMap.Removal

/-!
# Tables are finite maps

A dictionary is a list of entries without two entries of the same key; its operations say what a
table is meant to do.  `Table.performAll_refines` runs a sequence of operations on a dictionary and
on a table: all replies agree, and afterwards the table mirrors the dictionary.  It holds the same
entries, finds the same values, counts and enumerates every entry once, and all walks along its
chains come to an end.
-/

namespace ScriptMachine

/-! ## Operations -/

/-- An operation on a map from keys to values. -/
inductive MapOperation (ν : Type) where
  /-- Add an entry or replace the value of the one that is there. -/
  | newSlot (key : Value) (value : ν)
  /-- Replace the value of an entry that is there. -/
  | set (key : Value) (value : ν)
  /-- Remove an entry. -/
  | remove (key : Value)
  /-- Remove all entries. -/
  | clear
  /-- Read the value of an entry. -/
  | get (key : Value)
  /-- Ask for an entry. -/
  | contains (key : Value)

/-- What an operation reports. -/
inductive MapReply (ν : Type) where
  /-- Whether the key was fit for an entry. -/
  | accepted (fit : Bool)
  /-- Whether there was an entry to assign. -/
  | assigned (found : Bool)
  /-- The value of the entry that has been removed. -/
  | removed (old : Option ν)
  /-- Nothing. -/
  | cleared
  /-- The value of the entry. -/
  | value (found : Option ν)
  /-- Whether there is an entry. -/
  | present (found : Bool)

/-- The replies to some operations, one after the other, and what they make of a map. -/
def performAll {ν σ : Type} (perform : MapOperation ν → σ → MapReply ν × σ) :
    List (MapOperation ν) → σ → List (MapReply ν) × σ
  | [], state => ([], state)
  | operation :: rest, state =>
    let (reply, next) := perform operation state
    let (replies, last) := performAll perform rest next
    (reply :: replies, last)

/-- The key can have an entry: it is neither null nor a pattern without a number. -/
def Value.isFitKey : Value → Bool
  | .null => false
  | .float number => !number.isNaN
  | _ => true

/-- A map as the list of its entries. -/
abbrev Dictionary (ν : Type) := List (Value × ν)

namespace Dictionary

variable {ν : Type}

/-- The value under a key. -/
def lookup? (dictionary : Dictionary ν) (key : Value) : Option ν :=
  (dictionary.find? fun entry => entry.1.sameKey key).map (·.2)

/-- Add an entry or replace the value of the one that is there. -/
def insert (dictionary : Dictionary ν) (key : Value) (value : ν) : Dictionary ν :=
  if (dictionary.lookup? key).isSome then
    dictionary.map fun entry => if entry.1.sameKey key then (entry.1, value) else entry
  else (key, value) :: dictionary

/-- Remove the entry of a key. -/
def erase (dictionary : Dictionary ν) (key : Value) : Dictionary ν :=
  dictionary.filter fun entry => !entry.1.sameKey key

/-- What an operation does to a dictionary. -/
def perform : MapOperation ν → Dictionary ν → MapReply ν × Dictionary ν
  | .newSlot key value, dictionary =>
    if key.isFitKey then (.accepted true, dictionary.insert key value)
    else (.accepted false, dictionary)
  | .set key value, dictionary =>
    if (dictionary.lookup? key).isSome then (.assigned true, dictionary.insert key value)
    else (.assigned false, dictionary)
  | .remove key, dictionary => (.removed (dictionary.lookup? key), dictionary.erase key)
  | .clear, _ => (.cleared, [])
  | .get key, dictionary => (.value (dictionary.lookup? key), dictionary)
  | .contains key, dictionary => (.present (dictionary.lookup? key).isSome, dictionary)

end Dictionary

/-- What an operation does to a chained map. -/
def ChainedMap.perform {ν : Type} (hash : Value → UInt64) :
    MapOperation ν → ChainedMap ν → MapReply ν × ChainedMap ν
  | .newSlot key value, map =>
    match key.checkKey with
    | .ok _ => (.accepted true, map.insert hash key value)
    | .error _ => (.accepted false, map)
  | .set key value, map =>
    match map.replace? hash key value with
    | some assigned => (.assigned true, assigned)
    | none => (.assigned false, map)
  | .remove key, map =>
    match map.erase? hash key with
    | some (old, less) => (.removed (some old), less)
    | none => (.removed none, map)
  | .clear, map => (.cleared, map.clear)
  | .get key, map => (.value (map.get? hash key), map)
  | .contains key, map => (.present (map.contains hash key), map)

/-- What an operation does to a table. -/
def Table.perform : MapOperation Value → Table → MapReply Value × Table
  | .newSlot key value, table =>
    match table.newSlot key value with
    | .ok next => (.accepted true, next)
    | .error _ => (.accepted false, table)
  | .set key value, table =>
    match table.set? key value with
    | some next => (.assigned true, next)
    | none => (.assigned false, table)
  | .remove key, table =>
    match table.erase? key with
    | some (old, next) => (.removed (some old), next)
    | none => (.removed none, table)
  | .clear, table => (.cleared, table.clear)
  | .get key, table => (.value (table.get? key), table)
  | .contains key, table => (.present (table.contains key), table)

/-! ## Dictionaries -/

namespace Dictionary

variable {ν : Type} {dictionary : Dictionary ν} {key : Value} {entry : Value × ν}

open ChainedMap

/-- Beside the entry of a key no entry has the key. -/
theorem eq_append_of_mem (distinct : DistinctKeys dictionary) (member : entry ∈ dictionary)
    (same : entry.1.sameKey key = true) :
    ∃ front back, dictionary = front ++ entry :: back ∧
      (∀ other ∈ front, other.1.sameKey key = false) ∧
      ∀ other ∈ back, other.1.sameKey key = false := by
  obtain ⟨front, back, rfl⟩ := List.append_of_mem member
  have apart := (distinctKeys_cons.mp (distinct.of_perm List.perm_middle)).1
  rw [Value.sameKey_iff] at same
  have differ : ∀ other ∈ front ++ back, other.1.sameKey key = false := by
    intro other inside
    simpa [Value.sameKey, same] using apart other inside
  exact ⟨front, back, rfl, fun other inside => differ other (by simp [inside]),
    fun other inside => differ other (by simp [inside])⟩

theorem lookup?_eq_some (distinct : DistinctKeys dictionary) (member : entry ∈ dictionary)
    (same : entry.1.sameKey key = true) : dictionary.lookup? key = some entry.2 := by
  obtain ⟨front, back, rfl, inFront, _⟩ := eq_append_of_mem distinct member same
  have missed : front.find? (fun entry => entry.1.sameKey key) = none := by
    simpa using inFront
  simp [lookup?, missed, same]

theorem lookup?_eq_none (lacks : ∀ entry ∈ dictionary, entry.1.sameKey key = false) :
    dictionary.lookup? key = none := by
  simpa [lookup?] using lacks

theorem insert_perm (distinct : DistinctKeys dictionary) (member : entry ∈ dictionary)
    (same : entry.1.sameKey key = true) (value : ν) :
    (dictionary.insert key value ++ [entry]).Perm (dictionary ++ [(entry.1, value)]) := by
  rw [insert, lookup?_eq_some distinct member same, Option.isSome_some, if_pos rfl]
  obtain ⟨front, back, rfl, inFront, inBack⟩ := eq_append_of_mem distinct member same
  have kept : ∀ list : Dictionary ν, (∀ other ∈ list, other.1.sameKey key = false) →
      (list.map fun entry => if entry.1.sameKey key then (entry.1, value) else entry) = list := by
    intro list outside
    conv => rhs; rw [← List.map_id list]
    apply List.map_congr_left
    intro other inside
    simp [outside other inside]
  rw [List.map_append, List.map_cons, kept front inFront, kept back inBack, same, if_pos rfl]
  rw [List.append_assoc, List.append_assoc]
  refine List.Perm.append_left front ?_
  refine (List.perm_append_singleton entry _).trans ?_
  exact ((List.perm_append_singleton (entry.1, value) back).symm).cons entry

theorem erase_perm (distinct : DistinctKeys dictionary) (member : entry ∈ dictionary)
    (same : entry.1.sameKey key = true) : (entry :: dictionary.erase key).Perm dictionary := by
  obtain ⟨front, back, rfl, inFront, inBack⟩ := eq_append_of_mem distinct member same
  have kept : ∀ list : Dictionary ν, (∀ other ∈ list, other.1.sameKey key = false) →
      list.filter (fun entry => !entry.1.sameKey key) = list := by
    intro list outside
    rw [List.filter_eq_self]
    intro other inside
    simp [outside other inside]
  rw [erase, List.filter_append, List.filter_cons_of_neg (by simp [same]), kept front inFront,
    kept back inBack]
  exact List.perm_middle.symm

theorem erase_eq_self (lacks : ∀ entry ∈ dictionary, entry.1.sameKey key = false) :
    dictionary.erase key = dictionary := by
  rw [erase, List.filter_eq_self]
  intro other inside
  simp [lacks other inside]

end Dictionary

/-! ## Enumeration -/

namespace ChainedMap

variable {ν : Type} {hash : Value → UInt64} {map : ChainedMap ν}

/-- Asking for the next entry again and again, from a cursor on, yields this list. -/
inductive Enumerates (map : ChainedMap ν) : Nat → List (Value × ν) → Prop
  /-- No entry is left. -/
  | stop {cursor : Nat} : map.next? cursor = none → Enumerates map cursor []
  /-- An entry, and then the rest. -/
  | item {cursor next : Nat} {key : Value} {value : ν} {rest : List (Value × ν)} :
      map.next? cursor = some (key, value, next) → Enumerates map next rest →
      Enumerates map cursor ((key, value) :: rest)

theorem next?_of_entry {cursor : Nat} {key : Value} {value : ν}
    (held : (map.node cursor).entry = some (key, value)) :
    map.next? cursor = some (key, value, cursor + 1) := by
  have within := lt_of_entry held
  obtain ⟨more, steps⟩ : ∃ more, map.nodes.size - cursor = more + 1 :=
    ⟨map.nodes.size - cursor - 1, by omega⟩
  rw [next?, steps, next?.scanFrom, held]

theorem next?_of_free {cursor : Nat} (isFree : (map.node cursor).entry = none)
    (within : cursor < map.nodes.size) : map.next? cursor = map.next? (cursor + 1) := by
  obtain ⟨more, steps⟩ : ∃ more, map.nodes.size - cursor = more + 1 :=
    ⟨map.nodes.size - cursor - 1, by omega⟩
  have later : map.nodes.size - (cursor + 1) = more := by omega
  rw [next?, next?, steps, later, next?.scanFrom, isFree]

theorem Enumerates.of_next?_eq {cursor other : Nat} {listing : List (Value × ν)}
    (same : map.next? cursor = map.next? other) (enumerates : map.Enumerates other listing) :
    map.Enumerates cursor listing := by
  cases enumerates with
  | stop ended => exact .stop (same.trans ended)
  | item found rest => exact .item (same.trans found) rest

/-- From a cursor on all entries of the nodes there are enumerated in order. -/
theorem enumerates_from (left cursor : Nat) (sum : left + cursor = map.nodes.size) :
    map.Enumerates cursor ((map.nodes.toList.drop cursor).filterMap Node.entry) := by
  induction left generalizing cursor with
  | zero =>
      have past : map.nodes.toList.drop cursor = [] := by
        apply List.drop_eq_nil_of_le
        simp only [Array.length_toList]
        omega
      rw [past]
      refine .stop ?_
      rw [next?, show map.nodes.size - cursor = 0 by omega, next?.scanFrom]
  | succ left ih =>
      have within : cursor < map.nodes.size := by omega
      have later := ih (cursor + 1) (by omega)
      have inside : cursor < map.nodes.toList.length := by simpa using within
      have node_eq : map.node cursor = map.nodes.toList[cursor] := by simp [node, within]
      rw [List.drop_eq_getElem_cons inside, ← node_eq]
      cases held : (map.node cursor).entry with
      | none =>
          rw [List.filterMap_cons_none held]
          exact later.of_next?_eq (next?_of_free held within)
      | some entry =>
          obtain ⟨key, value⟩ := entry
          rw [List.filterMap_cons_some held]
          exact .item (next?_of_entry held) later

theorem enumerates_entries (map : ChainedMap ν) : map.Enumerates 0 map.entries := by
  have listing : map.Enumerates 0 ((map.nodes.toList.drop 0).filterMap Node.entry) :=
    enumerates_from map.nodes.size 0 (by simp)
  simpa [entries] using listing

/-! ## One operation -/

/-- A sound map with the entries of a dictionary. -/
structure Represents (hash : Value → UInt64) (map : ChainedMap ν) (dictionary : Dictionary ν) :
    Prop where
  /-- The map is sound. -/
  sound : Sound hash map
  /-- The entries are those of the dictionary. -/
  perm : map.entries.Perm dictionary

theorem Sound.represents (sound : Sound hash map) : Represents hash map map.entries :=
  ⟨sound, .refl _⟩

namespace Represents

variable {dictionary : Dictionary ν}

theorem distinct (represents : Represents hash map dictionary) : DistinctKeys dictionary :=
  represents.sound.distinct.of_perm represents.perm

theorem lacks (represents : Represents hash map dictionary) {key : Value}
    (lacks : map.Lacks key) : ∀ entry ∈ dictionary, entry.1.sameKey key = false := by
  intro entry member
  exact lacks_iff.mp lacks entry (represents.perm.mem_iff.mpr member)

theorem mem (represents : Represents hash map dictionary) {index : Nat} {entry : Value × ν}
    (held : (map.node index).entry = some entry) : entry ∈ dictionary :=
  represents.perm.mem_iff.mp (mem_entries_iff.mpr ⟨index, held⟩)

/-- A key has a node with its entry, or no node at all. -/
theorem cases_key (represents : Represents hash map dictionary) (consistent : Consistent hash)
    (key : Value) :
    (∃ index entry, map.find? hash key = some index ∧ (map.node index).entry = some entry ∧
        entry.1.sameKey key = true ∧ dictionary.lookup? key = some entry.2) ∨
      (map.find? hash key = none ∧ map.Lacks key ∧ dictionary.lookup? key = none) := by
  cases found : map.find? hash key with
  | some index =>
      obtain ⟨entry, held, same⟩ :=
        Node.holds_iff.mp ((represents.sound.find?_eq_some_iff consistent).mp found)
      exact .inl ⟨index, entry, rfl, held, same,
        Dictionary.lookup?_eq_some represents.distinct (represents.mem held) same⟩
  | none =>
      have absent := (represents.sound.find?_eq_none_iff consistent).mp found
      exact .inr ⟨rfl, absent, Dictionary.lookup?_eq_none (represents.lacks absent)⟩

theorem get?_eq (represents : Represents hash map dictionary) (consistent : Consistent hash)
    (key : Value) : map.get? hash key = dictionary.lookup? key := by
  rcases represents.cases_key consistent key with
    ⟨index, entry, found, held, _, lookup⟩ | ⟨found, _, lookup⟩
  · simp [get?, found, held, lookup]
  · simp [get?, found, lookup]

theorem contains_eq (represents : Represents hash map dictionary) (consistent : Consistent hash)
    (key : Value) : map.contains hash key = (dictionary.lookup? key).isSome := by
  rcases represents.cases_key consistent key with
    ⟨index, entry, found, _, _, lookup⟩ | ⟨found, _, lookup⟩
  · simp [contains, found, lookup]
  · simp [contains, found, lookup]

theorem setValue (represents : Represents hash map dictionary) {key : Value} {index : Nat}
    {entry : Value × ν} (held : (map.node index).entry = some entry)
    (same : entry.1.sameKey key = true) (value : ν) :
    Represents hash (map.setValue index value) (dictionary.insert key value) := by
  obtain ⟨sound, exchanged⟩ := represents.sound.setValue held value
  refine ⟨sound, (List.perm_append_right_iff [entry]).mp ?_⟩
  calc
    ((map.setValue index value).entries ++ [entry]).Perm (map.entries ++ [(entry.1, value)]) :=
      exchanged
    List.Perm _ (dictionary ++ [(entry.1, value)]) := represents.perm.append_right _
    List.Perm _ (dictionary.insert key value ++ [entry]) :=
      (Dictionary.insert_perm represents.distinct (represents.mem held) same value).symm

theorem insert (represents : Represents hash map dictionary) (consistent : Consistent hash)
    (key : Value) (value : ν) :
    Represents hash (map.insert hash key value) (dictionary.insert key value) := by
  rcases represents.cases_key consistent key with
    ⟨index, entry, found, held, same, _⟩ | ⟨found, lacks, lookup⟩
  · simpa [ChainedMap.insert, found] using represents.setValue held same value
  · obtain ⟨sound, added⟩ := represents.sound.addNew value lacks
    refine ⟨by simpa [ChainedMap.insert, found] using sound, ?_⟩
    simpa [ChainedMap.insert, found, Dictionary.insert, lookup] using
      added.trans (represents.perm.cons (key, value))

theorem clear (represents : Represents hash map dictionary) :
    Represents hash map.clear [] where
  sound := sound_ofSize hash represents.sound.powerOfTwo represents.sound.least
  perm := by rw [ChainedMap.clear, entries_ofSize]

theorem checkKey_eq_ok_iff (key : Value) : key.checkKey = .ok () ↔ key.isFitKey = true := by
  cases key with
  | float number => cases nan : number.isNaN <;> simp [Value.checkKey, Value.isFitKey, nan]
  | _ => simp [Value.checkKey, Value.isFitKey]

/-- An operation gives the same reply on a map as on the dictionary that it represents, and the
results correspond again. -/
theorem perform (represents : Represents hash map dictionary) (consistent : Consistent hash)
    (operation : MapOperation ν) :
    (ChainedMap.perform hash operation map).1 = (Dictionary.perform operation dictionary).1 ∧
      Represents hash (ChainedMap.perform hash operation map).2
        (Dictionary.perform operation dictionary).2 := by
  cases operation with
  | newSlot key value =>
      cases checked : key.checkKey with
      | ok _ =>
          have fit := (checkKey_eq_ok_iff key).mp checked
          simp only [ChainedMap.perform, Dictionary.perform, checked, fit, if_true]
          exact ⟨trivial, represents.insert consistent key value⟩
      | error fault =>
          have unfit : key.isFitKey = false := by
            by_contra fit
            rw [(checkKey_eq_ok_iff key).mpr (by simpa using fit)] at checked
            exact absurd checked (by simp)
          simp only [ChainedMap.perform, Dictionary.perform, checked, unfit]
          exact ⟨rfl, represents⟩
  | set key value =>
      rcases represents.cases_key consistent key with
        ⟨index, entry, found, held, same, lookup⟩ | ⟨found, _, lookup⟩
      · simp only [ChainedMap.perform, Dictionary.perform, replace?, found, lookup,
          Option.map_some, Option.isSome_some, if_true]
        exact ⟨trivial, represents.setValue held same value⟩
      · simp only [ChainedMap.perform, Dictionary.perform, replace?, found, lookup,
          Option.map_none, Option.isSome_none]
        exact ⟨rfl, represents⟩
  | remove key =>
      rcases represents.cases_key consistent key with
        ⟨index, entry, _, held, same, lookup⟩ | ⟨_, lacks, lookup⟩
      · obtain ⟨less, erased, sound, without⟩ :=
          represents.sound.erase?_eq_some consistent held same
        have abstract :=
          Dictionary.erase_perm represents.distinct (represents.mem held) same
        simp only [ChainedMap.perform, Dictionary.perform, erased, lookup]
        exact ⟨trivial, sound, (without.trans (represents.perm.trans abstract.symm)).cons_inv⟩
      · simp only [ChainedMap.perform, Dictionary.perform, lookup,
          represents.sound.erase?_eq_none lacks,
          Dictionary.erase_eq_self (represents.lacks lacks)]
        exact ⟨trivial, represents⟩
  | clear => exact ⟨rfl, represents.clear⟩
  | get key =>
      simp only [ChainedMap.perform, Dictionary.perform, represents.get?_eq consistent key]
      exact ⟨trivial, represents⟩
  | contains key =>
      simp only [ChainedMap.perform, Dictionary.perform, represents.contains_eq consistent key]
      exact ⟨trivial, represents⟩

/-- The replies to a sequence of operations agree, and so do the results. -/
theorem performAll (represents : Represents hash map dictionary) (consistent : Consistent hash)
    (operations : List (MapOperation ν)) :
    (ScriptMachine.performAll (ChainedMap.perform hash) operations map).1 =
        (ScriptMachine.performAll Dictionary.perform operations dictionary).1 ∧
      Represents hash (ScriptMachine.performAll (ChainedMap.perform hash) operations map).2
        (ScriptMachine.performAll Dictionary.perform operations dictionary).2 := by
  induction operations generalizing map dictionary with
  | nil => exact ⟨rfl, represents⟩
  | cons operation rest ih =>
      obtain ⟨reply, next⟩ := represents.perform consistent operation
      obtain ⟨replies, last⟩ := ih next
      simp only [ScriptMachine.performAll, reply, replies]
      exact ⟨trivial, last⟩

theorem withCapacity (hash : Value → UInt64) (capacity : Nat) :
    Represents hash (ChainedMap.withCapacity capacity : ChainedMap ν) [] where
  sound := by
    have least : leastSize ≤ sizeFor capacity := by
      have above := Nat.lt_log2_self (n := max (capacity * 4 / 3 + 1) leastSize - 1)
      have needed := Nat.le_max_right (capacity * 4 / 3 + 1) leastSize
      rw [sizeFor, Nat.one_shiftLeft]
      omega
    exact sound_ofSize hash ⟨_, Nat.one_shiftLeft _⟩ least
  perm := by rw [ChainedMap.withCapacity, entries_ofSize]

end Represents

/-! ## Sequences of operations -/

/-- What a map and a dictionary have in common. -/
structure Mirrors (hash : Value → UInt64) (map : ChainedMap ν) (dictionary : Dictionary ν) :
    Prop where
  /-- The same values are found. -/
  get? : ∀ key, map.get? hash key = dictionary.lookup? key
  /-- The same keys are present. -/
  contains : ∀ key, map.contains hash key = (dictionary.lookup? key).isSome
  /-- The entries are those of the dictionary, each as often as it is there. -/
  perm : map.entries.Perm dictionary
  /-- No two entries have the same key. -/
  distinct : dictionary.Pairwise fun entry other => entry.1.sameKey other.1 = false
  /-- The number of entries is the number of keys. -/
  size : map.size = dictionary.length
  /-- As many nodes are taken. -/
  occupied : map.occupied = dictionary.length
  /-- The cursor passes through all entries. -/
  enumerates : map.Enumerates 0 map.entries
  /-- The number of nodes is a power of two. -/
  powerOfTwo : ∃ exponent, map.nodes.size = 2 ^ exponent
  /-- All walks end. -/
  walksEnd : WalksEnd hash map
  /-- All walks end in every state of a rebuild with a node for each entry. -/
  rebuilds : ∀ front size, front <+: map.entries → (∃ exponent, size = 2 ^ exponent) →
    leastSize ≤ size → map.entries.length ≤ size → WalksEnd hash (rebuild hash front size)

theorem DistinctKeys.of_prefix {front entries : List (Value × ν)} (distinct : DistinctKeys entries)
    (isPrefix : front <+: entries) : DistinctKeys front :=
  List.Nodup.sublist (isPrefix.sublist.map _) distinct

theorem Represents.mirrors {dictionary : Dictionary ν} (represents : Represents hash map dictionary)
    (consistent : Consistent hash) : Mirrors hash map dictionary where
  get? := represents.get?_eq consistent
  contains := represents.contains_eq consistent
  perm := represents.perm
  distinct := by
    refine (List.pairwise_map.mp represents.distinct).imp ?_
    intro entry other apart
    simpa [Value.sameKey] using apart
  size := represents.sound.used_eq.trans represents.perm.length_eq
  occupied := occupied_eq_length_entries.trans represents.perm.length_eq
  enumerates := enumerates_entries map
  powerOfTwo := represents.sound.powerOfTwo
  walksEnd := represents.sound.walksEnd
  rebuilds := by
    intro front size isPrefix power least room
    have distinct := represents.sound.distinct.of_prefix isPrefix
    exact (sound_rebuild distinct power least
      (Nat.le_trans isPrefix.sublist.length_le room)).1.walksEnd

end ChainedMap

/-! ## Keyed maps -/

theorem Table.consistent_keyHash : ChainedMap.Consistent Value.keyHash := fun _ _ same =>
  Value.keyHash_eq_of_sameKey same

/-- Whatever operations have made, they keep in order. -/
theorem ChainedMap.Built.sound {ν : Type} {hash : Value → UInt64} {map : ChainedMap ν}
    (built : map.Built hash) (consistent : Consistent hash) : map.Sound hash := by
  induction built with
  | withCapacity capacity => exact (Represents.withCapacity hash capacity).sound
  | @replaced map next key value _ found ih =>
      have next := (ih.represents.perform consistent (.set key value)).2.sound
      rwa [perform, found] at next
  | inserted key value _ ih => exact (ih.represents.insert consistent key value).sound
  | @erased map next key value _ found ih =>
      have next := (ih.represents.perform consistent (.remove key)).2.sound
      rwa [perform, found] at next
  | cleared _ ih => exact ih.represents.clear.sound

namespace KeyedMap

variable {ν : Type}

theorem sound (map : KeyedMap ν) : map.toChainedMap.Sound Value.keyHash :=
  map.built.sound Table.consistent_keyHash

theorem map_replace? (map : KeyedMap ν) (key : Value) (value : ν) :
    (map.replace? key value).map toChainedMap =
      map.toChainedMap.replace? Value.keyHash key value := by
  rw [replace?]
  split
  · rename_i found
    exact found.symm
  · rename_i found
    exact found.symm

theorem map_erase? (map : KeyedMap ν) (key : Value) :
    (map.erase? key).map (Prod.map id toChainedMap) =
      map.toChainedMap.erase? Value.keyHash key := by
  rw [erase?]
  split
  · rename_i found
    exact found.symm
  · rename_i found
    exact found.symm

end KeyedMap

/-! ## Tables -/

namespace Table

/-- A table treats its entries as the chained map under the hash of keys does. -/
theorem perform_eq (operation : MapOperation Value) (table : Table) :
    (table.perform operation).1 = (table.entries.perform Value.keyHash operation).1 ∧
      (table.perform operation).2.entries.toChainedMap =
        (table.entries.perform Value.keyHash operation).2 := by
  cases operation with
  | newSlot key value =>
      cases checked : key.checkKey <;>
        simp [Table.perform, ChainedMap.perform, newSlot, Table.insert, KeyedMap.insert, checked,
          bind, Except.bind, pure, Except.pure]
  | set key value =>
      rw [ChainedMap.perform, ← KeyedMap.map_replace?]
      cases replaced : table.entries.replace? key value <;> simp [Table.perform, set?, replaced]
  | remove key =>
      rw [ChainedMap.perform, ← KeyedMap.map_erase?]
      cases erased : table.entries.erase? key <;> simp [Table.perform, erase?, erased]
  | clear => exact ⟨rfl, rfl⟩
  | get key => exact ⟨rfl, rfl⟩
  | contains key => exact ⟨rfl, rfl⟩

theorem performAll_eq (operations : List (MapOperation Value)) (table : Table) :
    (performAll Table.perform operations table).1 =
        (performAll (ChainedMap.perform Value.keyHash) operations table.entries.toChainedMap).1 ∧
      (performAll Table.perform operations table).2.entries.toChainedMap =
        (performAll (ChainedMap.perform Value.keyHash) operations
          table.entries.toChainedMap).2 := by
  induction operations generalizing table with
  | nil => exact ⟨rfl, rfl⟩
  | cons operation rest ih =>
      obtain ⟨reply, entries⟩ := perform_eq operation table
      obtain ⟨replies, last⟩ := ih (table.perform operation).2
      simp only [performAll, ← reply, ← entries, replies, last, and_self]

/-- A table refines a finite map.  Whatever operations are made on a new map under a hash that is
consistent with the equality of keys, it replies as the dictionary does and mirrors it afterwards;
so does a table with its own hash. -/
theorem performAll_refines (hash : Value → UInt64) (consistent : ChainedMap.Consistent hash)
    (capacity : Nat) (operations : List (MapOperation Value)) :
    ((performAll (ChainedMap.perform hash) operations (.withCapacity capacity)).1 =
          (performAll Dictionary.perform operations []).1 ∧
        ChainedMap.Mirrors hash
          (performAll (ChainedMap.perform hash) operations (.withCapacity capacity)).2
          (performAll Dictionary.perform operations []).2) ∧
      (performAll Table.perform operations (.withCapacity capacity)).1 =
          (performAll Dictionary.perform operations []).1 ∧
        ChainedMap.Mirrors Value.keyHash
          (performAll Table.perform operations (.withCapacity capacity)).2.entries.toChainedMap
          (performAll Dictionary.perform operations []).2 := by
  have refines : ∀ hash, ChainedMap.Consistent hash →
      (performAll (ChainedMap.perform hash) operations (.withCapacity capacity)).1 =
          (performAll Dictionary.perform operations []).1 ∧
        ChainedMap.Mirrors hash
          (performAll (ChainedMap.perform hash) operations (.withCapacity capacity)).2
          (performAll Dictionary.perform operations []).2 := by
    intro hash consistent
    obtain ⟨replies, represents⟩ :=
      (ChainedMap.Represents.withCapacity hash capacity).performAll consistent operations
    exact ⟨replies, represents.mirrors consistent⟩
  refine ⟨refines hash consistent, ?_⟩
  obtain ⟨replies, entries⟩ := performAll_eq operations (.withCapacity capacity)
  rw [replies, entries]
  exact refines Value.keyHash consistent_keyHash

/-- Under a constant hash all keys share one chain; removing its head keeps the others. -/
theorem performAll_refines_colliding :
    ChainedMap.Consistent (fun _ => 0) ∧
      ChainedMap.Mirrors (fun _ => 0)
        (performAll (ChainedMap.perform fun _ => 0)
          [.newSlot (.integer 1) Value.null, .newSlot (.integer 2) Value.null,
            .remove (.integer 1)] (.withCapacity 0)).2
        [(.integer 2, Value.null)] :=
  ⟨fun _ _ _ => rfl, (performAll_refines (fun _ => 0) (fun _ _ _ => rfl) 0 _).1.2⟩

end Table

end ScriptMachine
