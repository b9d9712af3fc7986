import ScriptMachine.Heap.Delegation

/-!
# Hooks of values

An instance finds its hooks in its class; a table and host data find theirs, under the reserved
names, in the chain of their delegate.  No other value has hooks, and a table is not asked for
hooks of its own.
-/

namespace ScriptMachine

/-- The table that a value delegates to. -/
def Heap.delegate? (heap : Heap) : Value → Option (Ref .table)
  | .table ref => (heap.get ref).delegate
  | .userdata ref => (heap.get ref).delegate
  | _ => none

/-- The hook of a value. -/
def Heap.hook? (heap : Heap) (value : Value) (hook : Hook) : Option Value :=
  match value with
  | .inst ref => (heap.get (heap.get ref).cls).hook? hook
  | other => (heap.delegate? other).bind fun table => heap.lookup? table (.ofText hook.name)

end ScriptMachine
