import ScriptMachine.Proofs.Machine.Quiet

/-!
# What can be touched

Between the beginnings and ends of calls, entries and threads a machine changes in few ways:
registers and frames by the operations of the stack, traps and records, objects, and threads only by
creation and collection.  What a fiber counts of its calls, the limits and the waiting fibers are
not touched.
-/

namespace ScriptMachine

open Exec

variable {α β : Type}

namespace Machine

/-- A thread as it is created. -/
def newFiber (machine : Machine) : Fiber :=
  .create machine.limits.stackSize machine.limits.callDepth true

/-- One thing that is touched. -/
inductive Touch (before : Machine) : Machine → Prop
  /-- Registers or frames. -/
  | stack (operation : Stack.Operation) : Touch before (before.mapStack operation.apply)
  /-- Traps, the place where the fiber is to go on, what it has done, or its function. -/
  | fiber (traps : List Trap) (suspended : Option SuspendPoint) (counters : Counters)
      (entry : Option Value) :
      Touch before (before.mapFiber fun fiber => { fiber with traps, suspended, counters, entry })
  /-- Objects that are no threads. -/
  | heap (heap : Heap) : before.heap.size ≤ heap.size →
      (∀ ref : Ref .thread, heap.get? ref = before.heap.get? ref) →
      Touch before { before with heap }
  /-- The record of faults. -/
  | note (occurrence : Occurrence) (fault : Fault) : occurrence ≠ .surfaced →
      occurrence ≠ .reported → Touch before (before.note occurrence fault)
  /-- What is kept aside. -/
  | aside (held : List Nat) (routines : Array Routine) (printed : Array String)
      (handler : Option Value) : Touch before { before with held, routines, printed, handler }
  /-- A new thread. -/
  | hatched : Touch before
      { before with heap := (@Heap.alloc .thread before.heap (some before.newFiber)).2 }
  /-- Objects that are released or emptied. -/
  | culled (heap : Heap) (collector : CollectorStats) : heap.size = before.heap.size →
      (∀ (ref : Ref .thread) (content : Option Fiber), heap.get? ref = some content →
        ∃ former : Option Fiber, before.heap.get? ref = some former ∧
          (content = former ∨ content = @Content.emptied .thread former)) →
      Touch before { before with heap, collector }

/-- One thing is touched after the other. -/
abbrev Touches : Machine → Machine → Prop := Relation.ReflTransGen Touch

instance : Overlooks Touches where
  refl _ := .refl
  trans _ _ _ := .trans
  stack _ operation _ := .single (.stack operation)
  fiber machine traps suspended counters :=
    .single (.fiber traps suspended counters machine.fiber.entry)
  heap _ heap spares := .single (.heap heap spares.size spares.threads)
  note _ occurrence fault surfaced reported := .single (.note occurrence fault surfaced reported)
  aside _ held routines printed handler := .single (.aside held routines printed handler)

end Machine

namespace Exec.Touching

open Machine

/-! ## Generators -/

theorem setHeap {look : Machine → α} {heap : Machine → Heap}
    (size : ∀ machine : Machine, machine.heap.size ≤ (heap machine).size)
    (threads : ∀ (machine : Machine) (ref : Ref .thread),
      (heap machine).get? ref = machine.heap.get? ref) :
    Along Touches fun machine => .ok (look machine) { machine with heap := heap machine } :=
  .change fun machine => .single (.heap _ (size machine) (threads machine))

theorem update (ref : Ref .generator) (change : Generator → Generator) :
    Along Touches (Exec.update ref change) :=
  setHeap (fun machine => Nat.le_of_eq (machine.heap.size_modify ref change).symm)
    fun _ => Heap.get?_modify_of_ne (by decide) ref change

theorem killGenerator (frame : Frame) : Along Touches (Exec.killGenerator frame) := by
  rw [Exec.killGenerator]
  cases frame.generator with
  | none => exact .pure ()
  | some ref => exact update ref _

theorem returnValue (value : Value) : Along Touches (Exec.returnValue value) :=
  Along.popFrame.bind fun frame => (killGenerator frame).bind fun _ => .leaveFrame frame value

theorem discardFrame : Along Touches Exec.discardFrame := by
  refine (Along.view _).bind fun current => ?_
  cases current with
  | none => exact .pure ()
  | some frame => exact Along.leave.bind fun _ => (killGenerator frame).bind fun _ => .count _

theorem discardFrames (count : Nat) : Along Touches (Exec.discardFrames count) := by
  induction count with
  | zero => exact .pure ()
  | succ count ih => exact discardFrame.bind fun _ => ih

theorem unwindTo (root : Nat) : Along Touches (Exec.unwindTo root) :=
  (Along.view _).bind fun depth => (discardFrames (depth - root)).bind fun _ => .setTraps _

theorem enterTrap (trap : Trap) (fault : Fault) : Along Touches (Exec.enterTrap trap fault) :=
  (Along.view _).bind fun _ => (discardFrames _).bind fun _ => (Along.truncate _).bind fun _ =>
    Along.frame.bind fun _ => (Along.goTo _).bind fun _ => (Along.ensure _).bind fun _ =>
      (Along.setRegister _ _).bind fun _ => (Along.count _).bind fun _ => .noteCaught _ _

theorem recover (fault : Fault) (root : Nat) : Along Touches (Exec.recover fault root) := by
  have gives : Along Touches (Exec.unwindTo root >>= fun _ => (Exec.passOn fault : Exec Unit)) :=
    (unwindTo root).bind fun _ => .passOn fault
  refine (Along.view _).bind fun traps => ?_
  split
  · split
    · exact (Along.setTraps _).bind fun _ => enterTrap _ _
    · exact gives
  · exact gives

theorem yieldValue (value : Value) : Along Touches (Exec.yieldValue value) := by
  refine Along.frame.bind fun frame => ?_
  cases frame.generator with
  | none => exact .raise _
  | some ref =>
      exact (Along.view _).bind fun _ => Along.popFrame.bind fun _ => (Along.view _).bind fun _ =>
        (Along.setTraps _).bind fun _ => (Along.takeRange _ _).bind fun _ =>
          (update ref _).bind fun _ => .leaveFrame _ value

theorem createGenerator (ref : Ref .closure) (base count : Nat) :
    Along Touches (Exec.createGenerator ref base count) := by
  refine (Along.view _).bind fun closure => (Along.prepareArguments _ base count).bind fun _ =>
    (Along.takeRange _ _).bind fun _ => .bind ?_ fun _ => (Along.count _).bind fun _ => .pure _
  exact setHeap (fun _ => (Nat.le_succ _).trans_eq (Heap.size_alloc _).symm)
    fun _ => Heap.get?_alloc_of_ne (by decide) _

theorem pushFrame (frame : Frame) : Along Touches (Exec.pushFrame frame) := by
  intro machine
  have touched : machine.Touch (machine.mapStack (Stack.Operation.pushFrame frame).apply) :=
    .stack (.pushFrame frame)
  show machine.Touches ((Exec.requireRoom (·.admitsFrame frame) >>= fun _ =>
    Exec.onStack (·.enter frame)).after machine)
  rw [after, requireRoom_bind]
  cases room : machine.fiber.stack.admitsFrame frame with
  | false => exact Along.raise (α := Unit) .stackOverflow machine
  | true =>
      have applied : Stack.Operation.apply (.pushFrame frame) machine.fiber.stack =
          machine.fiber.stack.enter frame := if_pos room
      rw [mapStack, applied] at touched
      exact .single touched

theorem resumeInto (ref : Ref .generator) (target : Option UInt8) (isRoot : Bool) :
    Along Touches (Exec.resumeInto ref target isRoot) := by
  refine (Along.view _).bind fun generator => ?_
  split
  · exact .raise _
  · exact .raise _
  · refine (Along.view _).bind fun closure => (Along.view _).bind fun base =>
      (update ref _).bind fun _ => .bind (.attempt (.bind ?_ fun _ => pushFrame _)) fun pushed => ?_
    · rw [forM_array]
      exact .forM Along.push
    · cases pushed with
      | error fault =>
          exact (Along.truncate _).bind fun _ => (update ref _).bind fun _ => .passOn fault
      | ok _ =>
          exact (Along.view _).bind fun _ => (Along.setTraps _).bind fun _ => .count _

/-! ## Threads -/

theorem newThread : Along Touches Exec.newThread :=
  .change fun _ => .single .hatched

theorem setEntry (entry : Value) :
    Along Touches (Exec.onFiber fun fiber => { fiber with entry := some entry }) :=
  .change fun machine => .single (.fiber machine.fiber.traps machine.fiber.suspended
    machine.fiber.counters (some entry))

theorem settle : Along Touches (modify settle : Exec Unit) := by
  refine .change fun machine => .single ?_
  exact .culled _ machine.collector (machine.heap.release_spec machine.external).1.size
    fun ref content found => ⟨content, Heap.get?_of_get?_release found, .inl rfl⟩

theorem collect : Along Touches (modifyGet collect : Exec Nat) := by
  refine .change fun machine => .single ?_
  exact .culled _ _ (Heap.size_collect machine.external []) fun _ _ => Heap.get?_collect

end Exec.Touching

end ScriptMachine
