import ScriptMachine.Proofs.ChainedMap.Refinement

/-!
# Going through a map

Asking for the next entry from a place on leads to the first entry there, with the place behind it.
Replacing values leaves every key at its place, so whoever has come to some place sees the same keys
from there on as before.
-/

namespace ScriptMachine.ChainedMap

variable {ν : Type} {map after : ChainedMap ν} {hash : Value → UInt64} {place : Nat}

/-- The map has come from another one by replacing values of keys that have entries. -/
inductive Overwritten (hash : Value → UInt64) (map : ChainedMap ν) : ChainedMap ν → Prop
  /-- Nothing has been replaced. -/
  | refl : Overwritten hash map map
  /-- A last value has been replaced. -/
  | tail {between after : ChainedMap ν} {key : Value} {value : ν} :
      Overwritten hash map between → between.replace? hash key value = some after →
      Overwritten hash map after

/-- The entries from a place on. -/
def entriesFrom (map : ChainedMap ν) (place : Nat) : List (Value × ν) :=
  (map.nodes.toList.drop place).filterMap Node.entry

/-- The entries from a place on, as they look to someone. -/
def listing (map : ChainedMap ν) (look : ν → Value) (place : Nat) : List (Value × Value) :=
  (map.entriesFrom place).map fun entry => (entry.1, look entry.2)

/-- The key of every node. -/
def nodeKeys (map : ChainedMap ν) : List (Option Value) :=
  map.nodes.toList.map fun node => node.entry.map Prod.fst

/-! ## The next entry -/

theorem entriesFrom_suffix (map : ChainedMap ν) (place : Nat) :
    map.entriesFrom place <:+ map.entries := by
  refine ⟨(map.nodes.toList.take place).filterMap Node.entry, ?_⟩
  rw [entriesFrom, ← List.filterMap_append, List.take_append_drop, entries]

theorem entriesFrom_of_le (beyond : map.nodes.size ≤ place) : map.entriesFrom place = [] := by
  rw [entriesFrom, List.drop_eq_nil_of_le (by simpa using beyond), List.filterMap_nil]

theorem entriesFrom_of_lt (within : place < map.nodes.size) : map.entriesFrom place =
    (map.node place).entry.toList ++ map.entriesFrom (place + 1) := by
  have inside : place < map.nodes.toList.length := by simpa using within
  have same : map.nodes.toList[place] = map.node place := by simp [node, within]
  rw [entriesFrom, List.drop_eq_getElem_cons inside, same, List.filterMap_cons]
  cases (map.node place).entry with
  | none | some => rfl

theorem next?_eq_none (ended : map.entriesFrom place = []) : map.next? place = none := by
  rcases Nat.lt_or_ge place map.nodes.size with within | beyond
  · have enumerates := @enumerates_from _ map (map.nodes.size - place) place (by omega)
    rw [show (map.nodes.toList.drop place).filterMap Node.entry = [] from ended] at enumerates
    cases enumerates with
    | stop none => exact none
  · rw [next?, Nat.sub_eq_zero_of_le beyond, next?.scanFrom]

/-- The next entry is the first one of those from the place on, and the others are those from the
next place on. -/
theorem next?_eq_some {key : Value} {value : ν} {rest : List (Value × ν)}
    (listed : map.entriesFrom place = (key, value) :: rest) :
    ∃ next, map.next? place = some (key, value, next) ∧ next ≤ map.nodes.size ∧
      map.entriesFrom next = rest := by
  induction left : map.nodes.size - place generalizing place with
  | zero =>
      rw [entriesFrom_of_le (Nat.sub_eq_zero_iff_le.mp left)] at listed
      cases listed
  | succ more ih =>
      have within : place < map.nodes.size := by omega
      rw [entriesFrom_of_lt within] at listed
      cases held : (map.node place).entry with
      | none =>
          rw [held] at listed
          obtain ⟨next, found, bound, others⟩ := ih listed (by omega)
          exact ⟨next, (next?_of_free held within).trans found, bound, others⟩
      | some entry =>
          rw [held] at listed
          obtain ⟨rfl, others⟩ := List.cons.inj listed
          exact ⟨place + 1, next?_of_entry held, within, others⟩

/-! ## Replaced values -/

theorem map_fst_entriesFrom (map : ChainedMap ν) (place : Nat) :
    (map.entriesFrom place).map Prod.fst = (map.nodeKeys.drop place).filterMap id := by
  rw [nodeKeys, ← List.map_drop, List.filterMap_map, entriesFrom, List.map_filterMap]
  rfl

theorem nodeKeys_setValue (map : ChainedMap ν) (index : Nat) (value : ν) :
    (map.setValue index value).nodeKeys = map.nodeKeys := by
  refine List.ext_getElem? fun other => ?_
  simp only [nodeKeys, setValue, List.getElem?_map, Array.getElem?_toList, Array.getElem?_modify]
  split
  · rw [Option.map_map]
    refine congrArg (Option.map · _) (funext fun node => ?_)
    cases held : node.entry with
    | none | some => simp [held]
  · rfl

theorem Overwritten.nodeKeys_eq (overwritten : Overwritten hash map after) :
    after.nodeKeys = map.nodeKeys := by
  induction overwritten with
  | refl => rfl
  | tail _ replaced ih =>
      obtain ⟨index, _, rfl⟩ := Option.map_eq_some_iff.mp replaced
      exact (nodeKeys_setValue _ index _).trans ih

/-- From every place on there are the same keys as before. -/
theorem Overwritten.map_fst_entriesFrom_eq (overwritten : Overwritten hash map after)
    (place : Nat) :
    (after.entriesFrom place).map Prod.fst = (map.entriesFrom place).map Prod.fst := by
  rw [map_fst_entriesFrom, map_fst_entriesFrom, overwritten.nodeKeys_eq]

theorem Overwritten.map_fst_listing_eq (overwritten : Overwritten hash map after)
    (look look' : ν → Value) (place : Nat) :
    (after.listing look place).map Prod.fst = (map.listing look' place).map Prod.fst := by
  have same := overwritten.map_fst_entriesFrom_eq place
  simpa [listing, Function.comp_def] using same

theorem Overwritten.size_eq (overwritten : Overwritten hash map after) :
    after.nodes.size = map.nodes.size := by
  have lengths := congrArg List.length overwritten.nodeKeys_eq
  simpa [nodeKeys] using lengths

/-! ## Keys -/

/-- What comes next is an entry. -/
theorem mem_entries_of_next? {key : Value} {value : ν} {next : Nat}
    (found : map.next? place = some (key, value, next)) : (key, value) ∈ map.entries := by
  cases listed : map.entriesFrom place with
  | nil => exact absurd (found.symm.trans (next?_eq_none listed)) (by simp)
  | cons entry rest =>
      obtain ⟨_, first, _⟩ := next?_eq_some listed
      have same := found.symm.trans first
      simp only [Option.some.injEq, Prod.mk.injEq] at same
      obtain ⟨rfl, rfl, _⟩ := same
      exact (entriesFrom_suffix map place).subset (listed ▸ List.mem_cons_self)

/-- What is found under a key is the value of an entry with that key. -/
theorem Sound.get?_eq_some_iff (sound : Sound hash map) (consistent : Consistent hash) {key : Value}
    {value : ν} : map.get? hash key = some value ↔
      ∃ stored : Value, stored.sameKey key = true ∧ (stored, value) ∈ map.entries := by
  have represents := sound.represents
  rw [represents.get?_eq consistent]
  constructor
  · intro found
    rcases represents.cases_key consistent key with
      ⟨index, entry, _, held, same, lookup⟩ | ⟨_, _, lookup⟩
    · obtain rfl : entry.2 = value := Option.some.inj (lookup.symm.trans found)
      exact ⟨entry.1, same, represents.mem held⟩
    · exact absurd (lookup.symm.trans found) (by simp)
  · rintro ⟨stored, same, member⟩
    exact Dictionary.lookup?_eq_some sound.distinct member same

theorem DistinctKeys.listing (distinct : DistinctKeys map.entries) (look : ν → Value) :
    DistinctKeys (map.listing look 0) := by
  rw [DistinctKeys, ChainedMap.listing, List.map_map]
  exact distinct

end ScriptMachine.ChainedMap
