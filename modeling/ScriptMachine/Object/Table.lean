import ScriptMachine.Fault
import ScriptMachine.Object.ChainedMap

/-!
# Tables

A table has entries of its own and may name another table as its delegate, which is asked for the
keys that it does not have.  Only the entries of the table itself are changed by its operations.
Null and patterns without a number are refused as keys when an entry is created.
-/

namespace ScriptMachine

/-- A table. -/
structure Table where
  /-- Its own entries. -/
  entries : KeyedMap Value := .empty
  /-- The table that is asked for missing keys. -/
  delegate : Option (Ref .table) := none
deriving Inhabited

namespace Table

/-- A table without entries that holds so many without growing. -/
def withCapacity (capacity : Nat) : Table := { entries := .withCapacity capacity }

/-- The number of entries. -/
def size (table : Table) : Nat := table.entries.size

/-- The value of an entry of the table itself. -/
def get? (table : Table) (key : Value) : Option Value := table.entries.get? Value.keyHash key

/-- The table itself has an entry under the key. -/
def contains (table : Table) (key : Value) : Bool := table.entries.contains Value.keyHash key

/-- Assign an entry that exists. -/
def set? (table : Table) (key value : Value) : Option Table :=
  (table.entries.replace? key value).map fun entries => { table with entries }

/-- Create an entry or replace its value, whatever the key. -/
def insert (table : Table) (key value : Value) : Table :=
  { table with entries := table.entries.insert key value }

/-- Create an entry or replace its value, if the key is fit for one. -/
def newSlot (table : Table) (key value : Value) : Except Fault Table := do
  key.checkKey
  return table.insert key value

/-- Remove an entry and report its value. -/
def erase? (table : Table) (key : Value) : Option (Value × Table) :=
  (table.entries.erase? key).map fun (value, entries) =>
    (value, { table with entries })

/-- Remove all entries. -/
def clear (table : Table) : Table := { table with entries := table.entries.clear }

end Table

end ScriptMachine
