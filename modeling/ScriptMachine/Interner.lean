import ScriptMachine.Value.Basic

/-!
# Interning of byte strings

An interner keeps one copy of every byte string that is held.  The numbers of the copies are spread
over buckets by a hash; the number of buckets is a power of two that doubles when there are more
entries than buckets and never falls.  A bucket does not hold the copies it lists: a copy is taken
off its bucket when its last holder releases it, and whoever looks through a bucket drops the
entries of copies that nobody holds.
-/

namespace ScriptMachine

/-- A copy of a string. -/
structure StringCopy where
  /-- The string. -/
  bytes : ByteArray
  /-- The hash of the string. -/
  hash : UInt64
  /-- How often the copy is held. -/
  holders : Nat
deriving DecidableEq, Inhabited

/-- Copies of strings, spread over buckets. -/
structure Interner where
  /-- The copies listed in each bucket, by their numbers. -/
  buckets : Array (List Nat)
  /-- The number of entries in all buckets. -/
  count : Nat := 0
  /-- Every copy that has ever been made. -/
  copies : Array StringCopy := #[]

namespace Interner

/-- The smallest power of two that is at least the given number. -/
def powerOfTwoAbove (n : Nat) : Nat := if n ≤ 1 then 1 else 1 <<< (Nat.log2 (n - 1) + 1)

/-- An interner without strings. -/
def empty (buckets : Nat) : Interner where
  buckets := Array.replicate (powerOfTwoAbove (max 1 buckets)) []

/-- The number of buckets. -/
def bucketCount (interner : Interner) : Nat := interner.buckets.size

/-- The bucket of a hash, by its low bits. -/
def bucketOf (interner : Interner) (hash : UInt64) : Nat :=
  hash.toNat &&& (interner.bucketCount - 1)

/-- The copies listed in a bucket. -/
def bucket (interner : Interner) (index : Nat) : List Nat := interner.buckets.getD index []

/-- All entries, bucket after bucket. -/
def entries (interner : Interner) : List Nat := interner.buckets.toList.flatten

/-- The copy with a number. -/
def copy (interner : Interner) (handle : Nat) : StringCopy := interner.copies.getD handle default

/-- Somebody holds the copy. -/
def isHeld (interner : Interner) (handle : Nat) : Bool := 0 < (interner.copy handle).holders

/-- The number of strings that are held. -/
def size (interner : Interner) : Nat := interner.entries.countP interner.isHeld

/-- Replace the entries of a bucket. -/
def setBucket (interner : Interner) (index : Nat) (handles : List Nat) : Interner :=
  { interner with buckets := interner.buckets.setIfInBounds index handles }

/-- Drop the entries of a bucket whose copies nobody holds. -/
def prune (interner : Interner) (index : Nat) : Interner :=
  let before := interner.bucket index
  let after := before.filter interner.isHeld
  { interner.setBucket index after with
    count := interner.count - (before.length - after.length) }

/-- The copy of a string with a hash, if somebody holds one. -/
def find? (interner : Interner) (hash : UInt64) (bytes : ByteArray) : Option Nat :=
  (interner.bucket (interner.bucketOf hash)).find? fun handle =>
    interner.isHeld handle ∧ (interner.copy handle).hash = hash ∧
      (interner.copy handle).bytes = bytes

/-- List a copy in its bucket. -/
def list (interner : Interner) (handle : Nat) : Interner :=
  let index := interner.bucketOf (interner.copy handle).hash
  { interner.setBucket index (interner.bucket index ++ [handle]) with count := interner.count + 1 }

/-- Spread the copies that are held over another number of buckets. -/
def resize (interner : Interner) (buckets : Nat) : Interner :=
  (interner.entries.filter interner.isHeld).foldl list
    { interner with buckets := Array.replicate buckets [], count := 0 }

/-- List a copy in its bucket; with more entries than buckets there will be twice as many
buckets. -/
def insert (interner : Interner) (handle : Nat) : Interner :=
  let interner := interner.list handle
  if interner.bucketCount < interner.count then interner.resize (2 * interner.bucketCount)
  else interner

/-- Make another copy. -/
def make (interner : Interner) (copy : StringCopy) : Interner :=
  { interner with copies := interner.copies.push copy }

/-- Change how often a copy is held. -/
def setHolders (interner : Interner) (handle holders : Nat) : Interner :=
  { interner with
    copies := interner.copies.setIfInBounds handle { interner.copy handle with holders } }

/-- Remove the entry at a position of a bucket and put the last one in its place. -/
def swapRemove (handles : List Nat) (position : Nat) : List Nat :=
  match handles.getLast? with
  | some last => (handles.set position last).dropLast
  | none => []

/-- Take a copy off its bucket. -/
def unlink (interner : Interner) (handle : Nat) : Interner :=
  let index := interner.bucketOf (interner.copy handle).hash
  match (interner.bucket index).idxOf? handle with
  | some position =>
    { interner.setBucket index (swapRemove (interner.bucket index) position) with
      count := interner.count - 1 }
  | none => interner

/-- Let go of a copy once; the last holder takes it off its bucket. -/
def letGo (interner : Interner) (handle : Nat) : Interner :=
  let interner := interner.setHolders handle ((interner.copy handle).holders - 1)
  if interner.isHeld handle then interner else interner.unlink handle

variable (hash : ByteArray → UInt64)

/-- Hold the copy of a string once more and report it; where nobody holds one, a new copy is
made. -/
def intern (interner : Interner) (bytes : ByteArray) : Nat × Interner :=
  let interner := interner.prune (interner.bucketOf (hash bytes))
  match interner.find? (hash bytes) bytes with
  | some handle =>
    (handle, interner.setHolders handle ((interner.copy handle).holders + 1))
  | none =>
    let handle := interner.copies.size
    (handle, (interner.make ⟨bytes, hash bytes, 1⟩).insert handle)

/-- Hold the copy of a text once more and report it. -/
def internText (interner : Interner) (text : String) : Nat × Interner :=
  interner.intern hash text.toUTF8

/-- Let go of the copy of a string once. -/
def release (interner : Interner) (bytes : ByteArray) : Interner :=
  match interner.find? (hash bytes) bytes with
  | some handle => interner.letGo handle
  | none => interner

end Interner

end ScriptMachine
