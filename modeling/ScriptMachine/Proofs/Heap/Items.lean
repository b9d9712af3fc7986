import Mathlib.Algebra.Group.Nat.Defs
import ScriptMachine.Machine.Iteration
import ScriptMachine.Proofs.ChainedMap.Traversal

/-!
# The items of containers

A loop goes through the items of a container, which are keys with the values that they have at the
time.  As long as no key is added or removed there are the same keys from every place on, whatever
becomes of the values.
-/

namespace ScriptMachine

namespace Value

/-- Values with their places as keys. -/
def numbered (values : List Value) : List (Value × Value) :=
  values.mapIdx fun place value => (.ofPosition place, value)

/-- The values of some bytes. -/
def ofBytes (bytes : List UInt8) : List Value :=
  bytes.map fun byte => .integer (Int64.ofNat byte.toNat)

variable {values : List Value} {place : Nat}

/-- The cursor for a place that has a number stands for it. -/
theorem position_ofPosition (small : place < 2 ^ 63) :
    (Value.ofPosition place).position = .ok place := by
  have number : (Int64.ofNat place).toInt = place :=
    Int64.toInt_ofNat_of_lt small
  rw [ofPosition, position, number, if_neg (by omega), Int.toNat_natCast]

theorem numbered_drop_of_lt {value : Value} (found : values[place]? = some value) :
    (numbered values).drop place =
      (.ofPosition place, value) :: (numbered values).drop (place + 1) := by
  obtain ⟨within, rfl⟩ := List.getElem?_eq_some_iff.mp found
  rw [List.drop_eq_getElem_cons (by simpa [numbered] using within)]
  simp [numbered]

theorem numbered_drop_of_le (beyond : values[place]? = none) :
    (numbered values).drop place = [] := by
  rw [List.drop_eq_nil_iff, numbered, List.length_mapIdx]
  exact List.getElem?_eq_none_iff.mp beyond

/-- The keys depend on nothing but the number of values. -/
theorem map_fst_numbered (values : List Value) :
    (numbered values).map Prod.fst = (List.range values.length).map ofPosition := by
  refine List.ext_getElem (by simp [numbered]) fun place _ _ => ?_
  simp [numbered]

end Value

/-- The value of a member of a class, null where it has none. -/
def Class.look (cls : Class) (member : Member) : Value := (cls.valueAt? member).getD .null

/-- Looking a member up again finds the member that comes next. -/
theorem Class.getD_get?_of_next? {cls : Class} {place next : Nat} {key : Value} {member : Member}
    (found : cls.next? place = some (key, member, next)) :
    (cls.get? key).getD .null = cls.look member := by
  have listed : (key, member) ∈ cls.members.entries := ChainedMap.mem_entries_of_next? found
  have looked : cls.member? key = some member :=
    (cls.members.sound.get?_eq_some_iff Table.consistent_keyHash).mpr
      ⟨key, Value.sameKey_iff.mpr rfl, listed⟩
  rw [Class.get?, looked]
  rfl

/-- The value of a member of an instance, null where it has none. -/
def Instance.look (object : Instance) (cls : Class) (member : Member) : Value :=
  (object.valueAt? cls member).getD .null

namespace Heap

/-- The items of a container from a place on. -/
def itemsFrom (heap : Heap) (container : Value) (place : Nat) : List (Value × Value) :=
  match container with
  | .array ref => (Value.numbered (heap.get ref : Sequence).values.toList).drop place
  | .string bytes => (Value.numbered (Value.ofBytes bytes.data.toList)).drop place
  | .table ref => (heap.get ref : Table).entries.entriesFrom place
  | .cls ref => (heap.get ref : Class).members.listing (heap.get ref : Class).look place
  | .inst ref =>
    (heap.get (heap.get ref : Instance).cls : Class).members.listing
      ((heap.get ref : Instance).look (heap.get (heap.get ref : Instance).cls)) place
  | _ => []

/-- The items of a container: the values of an array and the bytes of a string under their places,
the entries of a table, the members of a class, and for an instance those of its class with its own
fields. -/
def items (heap : Heap) (container : Value) : List (Value × Value) := heap.itemsFrom container 0

/-- The number of places for items. -/
def places (heap : Heap) : Value → Nat
  | .array ref => (heap.get ref : Sequence).values.size
  | .string bytes => bytes.data.size
  | .table ref => (heap.get ref : Table).entries.nodes.size
  | .cls ref => (heap.get ref : Class).members.nodes.size
  | .inst ref => (heap.get (heap.get ref : Instance).cls : Class).members.nodes.size
  | _ => 0

/-- Loops go through the items of the container, and no hook is asked for them. -/
def Lists (heap : Heap) : Value → Prop
  | .array _ | .string _ | .table _ | .cls _ => True
  | .inst ref => heap.hook? (.inst ref) .nexti = none
  | _ => False

/-- No key has been added or removed: an array has as many values as before, and in the map of a
table or a class nothing but values has been replaced.  The class of an instance has no hook. -/
def KeepsKeys (before after : Heap) : Value → Prop
  | .array ref =>
    (after.get ref : Sequence).values.size = (before.get ref : Sequence).values.size
  | .table ref =>
    (before.get ref : Table).entries.Overwritten Value.keyHash
      (after.get ref : Table).entries.toChainedMap
  | .cls ref =>
    (before.get ref : Class).members.Overwritten Value.keyHash
      (after.get ref : Class).members.toChainedMap
  | .inst ref =>
    (after.get ref : Instance).cls = (before.get ref : Instance).cls ∧
      (before.get (before.get ref : Instance).cls : Class).members.Overwritten Value.keyHash
        (after.get (before.get ref : Instance).cls : Class).members.toChainedMap ∧
      after.hook? (.inst ref) .nexti = none
  | _ => True

variable {before after : Heap} {container : Value}

theorem itemsFrom_suffix (heap : Heap) (container : Value) (place : Nat) :
    heap.itemsFrom container place <:+ heap.items container := by
  cases container with
  | array | string => exact List.drop_suffix _ _
  | table => exact ChainedMap.entriesFrom_suffix _ _
  | cls | inst =>
      exact List.IsSuffix.map _ (ChainedMap.entriesFrom_suffix _ _)
  | _ => exact List.suffix_refl _

/-- From every place on there are the same keys as before. -/
theorem KeepsKeys.map_fst_itemsFrom_eq (keeps : before.KeepsKeys after container) (place : Nat) :
    (after.itemsFrom container place).map Prod.fst =
      (before.itemsFrom container place).map Prod.fst := by
  cases container with
  | array ref =>
      have same : (after.get ref : Sequence).values.size = _ := keeps
      simp only [itemsFrom, List.map_drop, Value.map_fst_numbered, Array.length_toList, same]
  | table ref => exact ChainedMap.Overwritten.map_fst_entriesFrom_eq keeps place
  | cls ref => exact ChainedMap.Overwritten.map_fst_listing_eq keeps _ _ place
  | inst ref =>
      obtain ⟨level, overwritten, _⟩ := keeps
      simp only [itemsFrom, level]
      exact overwritten.map_fst_listing_eq _ _ place
  | _ => rfl

theorem KeepsKeys.places_eq (keeps : before.KeepsKeys after container) :
    after.places container = before.places container := by
  cases container with
  | array ref => exact keeps
  | table ref | cls ref => exact ChainedMap.Overwritten.size_eq keeps
  | inst ref =>
      obtain ⟨level, overwritten, _⟩ := keeps
      have same := overwritten.size_eq
      simpa [places, level] using same
  | _ => rfl

theorem KeepsKeys.lists (keeps : before.KeepsKeys after container)
    (lists : before.Lists container) : after.Lists container := by
  cases container with
  | inst ref => exact keeps.2.2
  | _ => exact lists

end Heap

end ScriptMachine
