import ScriptMachine.Proofs.Machine.Changes
import ScriptMachine.Proofs.Machine.History
import ScriptMachine.Proofs.Machine.Run

/-!
# Quiet computations

Most of what a machine does leaves generators and threads alone and adds no frame for a generator.
`Exec.Along` says that a computation leads along a relation however it ends, be it with a result,
with a fault, or cut short.  Quiet computations lead along every relation that takes no notice of
what they do, `Machine.Overlooks`; one of them is `Machine.Hushes`.
-/

namespace ScriptMachine

open Exec

variable {α β : Type}

/-! ## Computations along a relation -/

/-- Wherever the computation starts and however it ends, the machines are related. -/
def Exec.Along (relation : Machine → Machine → Prop) (action : Exec α) : Prop :=
  ∀ machine, relation machine (action.after machine)

namespace Exec

variable {machine next : Machine} {action : Exec α}

theorem after_ok_bind {first : Exec β} {following : β → Exec α} {value : β}
    (result : first machine = .ok value next) :
    (first >>= following).after machine = (following value).after next := by
  rw [after, after, ok_bind result]

theorem after_of_eq_ok {value : α} (result : action machine = .ok value next) :
    action.after machine = next := by
  rw [after, result]

theorem after_of_eq_error {stop : Stop} (result : action machine = .error stop next) :
    action.after machine = next := by
  rw [after, result]

theorem after_attempt (action : Exec α) (machine : Machine) :
    (attempt action).after machine = action.after machine := by
  rw [after, after, attempt]
  cases action machine with
  | ok value next => rfl
  | error stop next =>
      cases stop with
      | raised | exhausted => rfl

theorem after_bind (first : Exec β) (following : β → Exec α) (machine : Machine) :
    (∃ value next, first machine = .ok value next ∧
      (first >>= following).after machine = (following value).after next) ∨
    (first >>= following).after machine = first.after machine := by
  cases result : first machine with
  | ok value next => exact .inl ⟨value, next, rfl, after_ok_bind result⟩
  | error stop next => exact .inr (by rw [after, after, error_bind result, result])

end Exec

namespace Exec.Along

variable {relation wider : Machine → Machine → Prop} {machine : Machine} {action : Exec α}

theorem mono (along : Along relation action) (wide : ∀ before after, relation before after →
    wider before after) : Along wider action :=
  fun machine => wide _ _ (along machine)

theorem change {look : Machine → α} {change : Machine → Machine}
    (related : ∀ machine, relation machine (change machine)) :
    Along relation fun machine => .ok (look machine) (change machine) := related

theorem attempt (along : Along relation action) : Along relation (Exec.attempt action) := by
  intro machine
  rw [after_attempt]
  exact along machine

section

variable [IsPreorder Machine relation]

/-- What has been done first comes before what is done then. -/
theorem bind_at {before : Machine} {first : Exec β} {following : β → Exec α}
    (here : relation before (first.after machine))
    (further : ∀ value next, first machine = .ok value next →
      relation next ((following value).after next)) :
    relation before ((first >>= following).after machine) := by
  rcases after_bind first following machine with ⟨value, next, result, same⟩ | same
  · rw [same]
    rw [after_of_eq_ok result] at here
    exact trans_of relation here (further value next result)
  · rw [same]
    exact here

theorem bind {first : Exec β} {following : β → Exec α} (here : Along relation first)
    (further : ∀ value, Along relation (following value)) :
    Along relation (first >>= following) :=
  fun machine => bind_at (here machine) fun value next _ => further value next

theorem view (look : Machine → α) : Along relation fun machine => .ok (look machine) machine :=
  fun machine => refl_of relation machine

theorem pure (value : α) : Along relation (Pure.pure value : Exec α) := view fun _ => value

theorem exhaust : Along relation (Exec.exhaust : Exec α) := fun machine => refl_of relation machine

theorem passOn (fault : Fault) : Along relation (Exec.passOn fault : Exec α) :=
  fun machine => refl_of relation machine

theorem map (along : Along relation action) (image : α → β) :
    Along relation (image <$> action) := by
  have same : image <$> action = action >>= fun value => Pure.pure (image value) :=
    map_eq_pure_bind ..
  rw [same]
  exact along.bind fun value => pure (image value)

theorem forM {list : List β} {body : β → Exec Unit} (along : ∀ item, Along relation (body item)) :
    Along relation (list.forM body) := by
  induction list with
  | nil => exact pure ()
  | cons first rest ih => exact (along first).bind fun _ => ih

end

end Exec.Along

/-! ## Quiet computations -/

/-- The relation takes no notice of registers, of frames without a generator, of traps and records,
of what is kept aside, and of objects other than generators and threads. -/
class Machine.Overlooks (relation : Machine → Machine → Prop) : Prop
    extends IsPreorder Machine relation where
  /-- Registers have changed, or frames that run no generator. -/
  stack : ∀ (machine : Machine) (operation : Stack.Operation),
    (∀ frame, operation = .pushFrame frame → frame.generator = none) →
    relation machine (machine.mapStack operation.apply)
  /-- Traps have changed, or the place where the fiber is to go on, or what has been counted. -/
  fiber : ∀ (machine : Machine) (traps : List Trap) (suspended : Option SuspendPoint)
    (counters : Counters),
    relation machine (machine.mapFiber fun fiber => { fiber with traps, suspended, counters })
  /-- Objects have been created or changed, but no generator and no thread. -/
  heap : ∀ (machine : Machine) (heap : Heap), machine.heap.Spares heap →
    relation machine { machine with heap }
  /-- A fault has been raised, replaced or caught. -/
  note : ∀ (machine : Machine) (occurrence : Occurrence) (fault : Fault),
    occurrence ≠ .surfaced → occurrence ≠ .reported →
      relation machine (machine.note occurrence fault)
  /-- What is kept aside has changed. -/
  aside : ∀ (machine : Machine) (held : List Nat) (routines : Array Routine)
    (printed : Array String) (handler : Option Value),
    relation machine { machine with held, routines, printed, handler }

namespace Exec.Along

open Machine

variable {relation : Machine → Machine → Prop} [Overlooks relation]

theorem raise (fault : Fault) : Along relation (Exec.raise fault : Exec α) :=
  fun machine => Overlooks.note machine .raised fault (by simp) (by simp)

theorem replaceFault (cause fault : Fault) :
    Along relation (Exec.replaceFault cause fault : Exec α) :=
  fun machine => Overlooks.note machine (.replaced cause) fault (by simp) (by simp)

theorem noteCaught (trap : Trap) (fault : Fault) :
    Along relation (Exec.note (.caught trap) fault) :=
  fun machine => Overlooks.note machine (.caught trap) fault (by simp) (by simp)

theorem ofExcept (result : Except Fault α) : Along relation (Exec.ofExcept result) := by
  cases result with
  | ok value => exact .pure value
  | error fault => exact raise fault

theorem ofResult (result : Except Fault α) : Along relation (Exec.ofResult result) := by
  cases result with
  | ok value => exact .pure value
  | error fault => exact .passOn fault

/-! ### Objects and registers -/

theorem setHeap {look : Machine → α} {heap : Machine → Heap}
    (spares : ∀ machine : Machine, machine.heap.Spares (heap machine)) :
    Along relation fun machine => .ok (look machine) { machine with heap := heap machine } :=
  .change fun machine => Overlooks.heap machine _ (spares machine)

theorem alloc {kind : Kind} (content : Content kind) (plain : kind ≠ .generator)
    (still : kind ≠ .thread) : Along relation (Exec.alloc content) :=
  setHeap fun machine => machine.heap.spares_alloc content plain still

theorem update {kind : Kind} (inert : kind.isInert = true) (ref : Ref kind)
    (change : Content kind → Content kind) : Along relation (Exec.update ref change) :=
  setHeap fun _ => (Heap.Inert.modify ref change inert .refl).spares

theorem newArray (values : Array Value) : Along relation (Exec.newArray values) :=
  (alloc _ (by decide) (by decide)).bind fun _ => .pure _

theorem setTraps (traps : Fiber → List Trap) :
    Along relation (Exec.onFiber fun fiber => { fiber with traps := traps fiber }) :=
  .change fun machine =>
    Overlooks.fiber machine (traps machine.fiber) machine.fiber.suspended machine.fiber.counters

theorem setSuspended (suspended : Option SuspendPoint) :
    Along relation (Exec.onFiber fun fiber => { fiber with suspended }) :=
  .change fun machine =>
    Overlooks.fiber machine machine.fiber.traps suspended machine.fiber.counters

theorem count (change : Counters → Counters) : Along relation (Exec.count change) :=
  .change fun machine => Overlooks.fiber machine machine.fiber.traps machine.fiber.suspended
    (change machine.fiber.counters)

/-- Registers or frames have been changed where there is room for it. -/
theorem operation (operation : Stack.Operation)
    (plain : ∀ frame, operation = .pushFrame frame → frame.generator = none) :
    Along relation (Exec.requireRoom (Stack.Operation.hasRoom · operation) >>= fun _ =>
      Exec.onStack (Stack.Operation.change · operation)) := by
  intro machine
  have changed : relation machine (machine.mapStack operation.apply) :=
    Overlooks.stack machine operation plain
  rw [after, requireRoom_bind]
  cases room : operation.hasRoom machine.fiber.stack with
  | false => exact raise (α := Unit) .stackOverflow machine
  | true =>
      have applied : operation.apply machine.fiber.stack =
          operation.change machine.fiber.stack := if_pos room
      rw [mapStack, applied] at changed
      exact changed

/-- Registers or frames have been given up. -/
theorem onStack (operation : Stack.Operation)
    (plain : ∀ frame, operation = .pushFrame frame → frame.generator = none)
    (room : ∀ stack, operation.hasRoom stack = true) :
    Along relation (Exec.onStack (Stack.Operation.change · operation)) := by
  refine .change fun machine => ?_
  have changed : relation machine (machine.mapStack operation.apply) :=
    Overlooks.stack machine operation plain
  have applied : operation.apply machine.fiber.stack = operation.change machine.fiber.stack :=
    if_pos (room _)
  rwa [mapStack, applied] at changed

theorem push (value : Value) : Along relation (Exec.push value) :=
  operation (.push value) nofun

theorem pushArguments (this : Value) (arguments : List Value) :
    Along relation (Engine.pushArguments this arguments) :=
  (push this).bind fun _ => .forM push

theorem ensure (size : Nat) : Along relation (Exec.ensure size) :=
  operation (.ensure size) nofun

theorem truncate (size : Nat) : Along relation (Exec.truncate size) :=
  onStack (.truncate size) nofun fun _ => rfl

theorem resize (size : Nat) : Along relation (Exec.resize size) :=
  (truncate size).bind fun _ => ensure size

theorem setPlace (place : Nat) (value : Value) : Along relation (Exec.setPlace place value) :=
  operation (.set place value) nofun

theorem clearRange (start stop : Nat) : Along relation (Exec.clearRange start stop) :=
  onStack (.clearRange start stop) nofun fun _ => rfl

theorem takeRange (start stop : Nat) : Along relation (Exec.takeRange start stop) :=
  (Along.view _).bind fun _ => (clearRange start stop).bind fun _ => .pure _

theorem register (number : UInt8) : Along relation (Exec.register number) := .view _

theorem setRegister (number : UInt8) (value : Value) :
    Along relation (Exec.setRegister number value) :=
  (Along.view _).bind fun _ => setPlace _ value

theorem deliver (target : Option UInt8) (value : Value) :
    Along relation (Exec.deliver target value) := by
  cases target with
  | none => exact .pure ()
  | some number => exact setRegister number value

theorem deliverDirect (target : Option UInt8) (value : Value) :
    Along relation (Access.direct.deliver target value) := by
  cases target with
  | none => exact .pure ()
  | some number => exact setRegister number value

/-! ### Frames -/

theorem frame : Along relation Exec.frame := by
  refine (Along.view _).bind fun current => ?_
  cases current with
  | none => exact raise _
  | some current => exact .pure current

theorem literal (index : Int32) : Along relation (Exec.literal index) := by
  refine frame.bind fun current => ?_
  dsimp only
  split
  · exact .pure _
  · exact raise _

theorem leave : Along relation (Exec.onStack (·.leave)) :=
  onStack .popFrame nofun fun _ => rfl

theorem popFrame : Along relation Exec.popFrame :=
  frame.bind fun _ => leave.bind fun _ => .pure _

theorem goTo (ip : Nat) : Along relation (Exec.goTo ip) :=
  onStack (.goTo ip) nofun fun _ => rfl

theorem pushFrame {frame : Frame} (plain : frame.generator = none) :
    Along relation (Exec.pushFrame frame) := by
  refine operation (.pushFrame frame) ?_
  rintro _ ⟨⟩
  exact plain

/-! ### Entering and leaving functions -/

theorem prepareArguments (routine : Routine) (base count : Nat) :
    Along relation (Exec.prepareArguments routine base count) := by
  have collect : Along relation (if routine.isVariadic then do
      let last := routine.parameterCount - 1
      let extra ← Exec.takeRange (base + last) (base + count)
      Exec.setPlace (base + last) (← Exec.newArray extra)
      else Pure.pure () : Exec Unit) := by
    split
    · exact (takeRange _ _).bind fun extra => (newArray extra).bind fun _ => setPlace _ _
    · exact .pure ()
  rw [Exec.prepareArguments]
  split
  · exact collect
  · exact (raise _).bind fun _ => collect

theorem enterClosure (ref : Ref .closure) (base count : Nat) (target : Option UInt8)
    (isRoot : Bool) : Along relation (Exec.enterClosure ref base count target isRoot) :=
  (Along.view _).bind fun closure => (prepareArguments closure.routine base count).bind fun _ =>
    (pushFrame rfl).bind fun _ => Along.count _

theorem leaveFrame (frame : Frame) (value : Value) :
    Along relation (Exec.leaveFrame frame value) := by
  refine (Along.view _).bind fun depth => .bind (setTraps _) fun _ => ?_
  split
  · exact .pure _
  · exact Along.frame.bind fun caller => (resize _).bind fun _ => (deliver _ _).bind fun _ =>
      .pure _

theorem replaceFrame (ref : Ref .closure) (instruction : Instruction) :
    Along relation (Exec.replaceFrame .direct ref instruction) :=
  ((Along.view _).bind fun _ => .pure _).bind fun _ => popFrame.bind fun _ =>
    (takeRange _ _).bind fun _ => (clearRange _ _).bind fun _ =>
      (Along.forM fun _ => setPlace _ _).bind fun _ => (enterClosure _ _ _ _ _).bind fun _ =>
        (Along.count _).bind fun _ => .pure _

/-! ### Traps and jumps -/

theorem pushTrap (target : UInt8) (offset : Int32) :
    Along relation (Exec.pushTrap .direct target offset) := by
  refine frame.bind fun current => ?_
  dsimp only
  split
  · exact (raise _).bind fun _ => (Along.view _).bind fun _ => (Along.view _).bind fun _ =>
      setTraps _
  · exact (Along.view _).bind fun _ => (Along.view _).bind fun _ => setTraps _

theorem popTraps (count : Nat) : Along relation (Exec.popTraps count) := by
  induction count with
  | zero => exact .pure ()
  | succ count ih =>
      refine (Along.view _).bind fun depth => (Along.view _).bind fun traps => ?_
      split
      · split
        · exact .bind (setTraps _) fun _ => ih
        · exact raise _
      · exact raise _

theorem jump (offset : Int32) : Along relation (Exec.jump offset) := by
  refine frame.bind fun current => ?_
  dsimp only
  split
  · exact (raise _).bind fun _ => goTo _
  · exact goTo _

theorem finishIteration (container : UInt8) (exit : Int32) :
    Along relation (Exec.finishIteration .direct container exit) := by
  refine (register _).bind fun container => ?_
  split
  · refine (Along.view _).bind fun generator => ?_
    split
    · exact jump exit
    · exact .pure ()
  · exact .pure ()

theorem fetch : Along relation Exec.fetch := by
  refine frame.bind fun current => ?_
  split
  · exact (goTo _).bind fun _ => .pure _
  · exact .pure _

/-! ### Operands -/

theorem outerCell (index : Int32) : Along relation (Exec.outerCell index) := by
  refine frame.bind fun current => ?_
  split
  · exact (raise _).bind fun _ => ofExcept _
  · exact ofExcept _

theorem readWide (wide : Int32) : Along relation (Access.direct.readWide wide) := register _

theorem operandsEqual (instruction : Instruction) :
    Along relation (Exec.operandsEqual .direct instruction) := by
  refine Along.bind ?_ fun right => (register _).bind fun left => .pure _
  rw [Exec.equalityOperand]
  split
  · exact literal _
  · exact readWide _

theorem shortCircuit (instruction : Instruction) (truth : Bool) :
    Along relation (Exec.shortCircuit .direct instruction truth) := by
  refine (register _).bind fun value => ?_
  split
  · exact (setRegister _ _).bind fun _ => jump _
  · exact .pure ()

theorem append (instruction : Instruction) : Along relation (Exec.append .direct instruction) := by
  refine Along.bind ?_ fun value => (register _).bind fun target => ?_
  · rw [Exec.appended]
    split
    · exact readWide _
    · exact literal _
    · exact .pure _
    · exact raise _
  · split
    · exact update rfl _ _
    · exact raise _

theorem handedOut (instruction : Instruction) :
    Along relation (Exec.handedOut .direct instruction) := by
  rw [Exec.handedOut]
  split
  · exact readWide _
  · exact .pure _

end Exec.Along

/-! ## Generators and threads are left alone -/

/-- Only frames without a generator have been added, and neither generators nor threads changed. -/
structure Machine.Hushes (before after : Machine) : Prop where
  /-- Frames have been removed, or added without a generator. -/
  thins : before.Thins after
  /-- Neither generators nor threads have been changed. -/
  heap : before.heap.Spares after.heap

namespace Machine

theorem Thins.refl (machine : Machine) : machine.Thins machine := ⟨fun _ _ => id, id, rfl⟩

theorem Thins.trans {before between after : Machine} (first : before.Thins between)
    (second : between.Thins after) : before.Thins after :=
  ⟨fun number ref runs => first.fiber number ref (second.fiber number ref runs),
    fun roomy => second.room (first.room roomy), second.waiting.trans first.waiting⟩

instance : IsPreorder Machine Machine.Hushes where
  refl machine := ⟨.refl machine, .refl machine.heap⟩
  trans _ _ _ first second := ⟨first.thins.trans second.thins, first.heap.trans second.heap⟩

/-- Only registers, frames, values and counts have been changed. -/
theorem hushes_of_stack {before after : Machine} (stack : after.fiber.stack = before.fiber.stack)
    (waiting : after.waiting = before.waiting) (heap : after.heap = before.heap) :
    before.Hushes after := by
  refine ⟨⟨fun number ref runs => ?_, fun roomy => ?_, waiting⟩, heap ▸ .refl _⟩
  · rw [Fiber.generatorAt?, stack] at runs
    exact runs
  · rw [Fiber.Roomy, stack]
    exact roomy

/-- No operation makes a frame run a generator, unless it adds the frame. -/
theorem thins_operation (fiber : Fiber) {operation : Stack.Operation}
    (plain : ∀ frame, operation = .pushFrame frame → frame.generator = none) :
    fiber.Thins { fiber with stack := operation.apply fiber.stack } := by
  intro number ref runs
  rw [Stack.Operation.apply] at runs
  split at runs
  · cases operation with
    | push | truncate | clearRange => exact runs
    | ensure size =>
        simp only [Fiber.generatorAt?, Stack.Operation.change, Stack.frames_grow] at runs
        exact runs
    | set place value =>
        simp only [Fiber.generatorAt?, Stack.Operation.change, Stack.frames_put] at runs
        exact runs
    | pushFrame frame =>
        simp only [Fiber.generatorAt?, Stack.Operation.change, Stack.frames_enter,
          Array.getElem?_push] at runs
        split at runs
        · exact absurd runs (by simp [plain frame rfl])
        · exact runs
    | popFrame =>
        simp only [Fiber.generatorAt?, Stack.Operation.change, Stack.leave,
          Array.getElem?_pop] at runs
        split at runs
        · exact runs
        · exact absurd runs (by simp)
    | goTo ip =>
        simp only [Fiber.generatorAt?, Stack.Operation.change, Stack.modifyFrame,
          Array.getElem?_modify] at runs
        split at runs
        · rw [Option.bind_map] at runs
          exact runs
        · exact runs
    | drain => exact absurd runs (by simp [Fiber.generatorAt?, Stack.Operation.change])
  · exact runs

instance : Overlooks Machine.Hushes where
  stack machine operation plain := by
    refine ⟨⟨thins_operation machine.fiber plain, fun roomy => ?_, rfl⟩, .refl _⟩
    exact Fiber.roomy_of_size_le (operation.maxSlots_apply _) (operation.size_apply_le roomy)
  fiber _ _ _ _ := hushes_of_stack rfl rfl rfl
  heap _ _ spares := ⟨⟨fun _ _ => id, id, rfl⟩, spares⟩
  note _ _ _ _ _ := hushes_of_stack rfl rfl rfl
  aside _ _ _ _ _ := hushes_of_stack rfl rfl rfl

end Machine

end ScriptMachine
