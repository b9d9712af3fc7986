import ScriptMachine.Value.Basic

/-!
# Data of the host

Host data is opaque to scripts.  It carries a tag and a number of the host, and a delegate through
which scripts find its members and hooks.
-/

namespace ScriptMachine

/-- Data of the host. -/
structure UserData where
  /-- The tag that the host gave it. -/
  tag : UInt64
  /-- The number that the host keeps in it.  A payload that owns script values hides them from the
  heap, which lists them in `Heap.hidden`. -/
  data : Int64
  /-- The table that is asked for members. -/
  delegate : Option (Ref .table) := none
deriving Inhabited

end ScriptMachine
