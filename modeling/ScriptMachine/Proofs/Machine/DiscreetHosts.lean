import ScriptMachine.Proofs.Machine.DiscreetEntries
import ScriptMachine.Proofs.Machine.Hosts

/-!
# Discreet hosts

`Engine.Attends` describes host functions that use the machine only through what it offers them and,
of all registers, look at none but those of their own call.  The functions of the standard host are
of this kind.  Whatever is run with such functions is oblivious of veils behind which nothing of it
takes place.
-/

namespace ScriptMachine

open Exec

variable {α β : Type}

/-- Computations of a host function that looks at no registers but those of its own call. -/
inductive Engine.Attends (engine : Engine) (manners : Manners) :
    {α : Type} → Exec α → Prop
  | operation {α : Type} {action : Exec α} (allowed : manners.calls = true) :
      engine.Parallel engine action action → Attends engine manners action
  | quiet {α : Type} {action : Exec α} :
      Engine.spent.Parallel .spent action action → Attends engine manners action
  | look {α : Type} (look : Fiber → α)
      (blind : ∀ (fiber : Fiber) (slots : Array Value), slots.size = fiber.stack.slots.size →
        look { fiber with stack := { fiber.stack with slots } } = look fiber) :
      Attends engine manners (Exec.ofFiber look)
  | argument (position : Nat) : Attends engine manners (Exec.argument position)
  | allArguments : Attends engine manners Exec.allArguments
  | bind {α β : Type} {action : Exec α} {following : α → Exec β} :
      Attends engine manners action →
      (∀ value, Attends engine manners (following value)) →
      Attends engine manners (action >>= following)
  | keeping {α : Type} {action : Exec α} (indices : List Nat) :
      Attends engine manners action →
      Attends engine manners (Exec.keeping indices action)
  | attempt {α : Type} {action : Exec α} (allowed : manners.catches = true) :
      Attends engine manners action →
      Attends engine manners (Exec.attempt action)
  | passOn {α : Type} (allowed : manners.catches = true) (fault : Fault) :
      Attends engine manners (Exec.passOn fault : Exec α)
  | adjust {α : Type} (look : Array String → Option Value → α)
      (printed : Array String → Option Value → Array String)
      (handler : Array String → Option Value → Option Value) :
      Attends engine manners fun machine => .ok (look machine.printed machine.handler)
        { machine with
          printed := printed machine.printed machine.handler
          handler := handler machine.printed machine.handler }
  | settle : Attends engine manners (modify Machine.settle)
  | collect : Attends engine manners (modifyGet Machine.collect)
  | loadFunction (prototype : Prototype) :
      Attends engine manners (Exec.loadFunction prototype)
  | loadPrototype (prototype : Prototype) :
      Attends engine manners (Exec.loadPrototype prototype)
  | newClosure (value : Value) : Attends engine manners (Exec.newClosure value)
  | runWithThis (allowed : manners.enters = true) (callee this : Value) (arguments : List Value) :
      Attends engine manners (Exec.runWithThis engine callee this arguments)
  | wakeup (allowed : manners.wakes = true) (value : Value) :
      Attends engine manners (Exec.wakeup engine value)
  | resumeGenerator (allowed : manners.calls = true) (ref : Ref .generator) :
      Attends engine manners (Exec.resumeGenerator engine ref)
  | newThread : Attends engine manners Exec.newThread
  | setThreadFunction (ref : Ref .thread) (entry : Value) :
      Attends engine manners (Exec.setThreadFunction ref entry)
  | threadCall (ref : Ref .thread) (arguments : List Value) :
      Attends engine manners (Exec.threadCall engine ref arguments)
  | threadWakeup (ref : Ref .thread) (value : Value) :
      Attends engine manners (Exec.threadWakeup engine ref value)

/-- All functions of the host look at no registers but those of their own calls. -/
def Host.Attends (host : Host) (manners : Manners) : Prop :=
  ∀ symbol engine, Engine.Attends engine manners (host symbol engine)

namespace Engine.Attends

variable {engine : Engine} {manners : Manners} {action : Exec α}

/-- They use the machine only through what it offers. -/
theorem serves (attends : engine.Attends manners action) :
    engine.Serves manners action := by
  induction attends with
  | operation allowed parallel => exact .operation allowed parallel
  | quiet parallel => exact .quiet parallel.operates
  | look | argument | allArguments => exact .view _
  | bind _ _ first further => exact first.bind further
  | keeping indices _ ih => exact ih.keeping indices
  | attempt allowed _ ih => exact ih.attempt allowed
  | passOn allowed fault => exact .passOn allowed fault
  | adjust look printed handler =>
      exact .adjust (fun machine => look machine.printed machine.handler)
        (fun machine => printed machine.printed machine.handler)
        fun machine => handler machine.printed machine.handler
  | settle => exact .settle
  | collect => exact .collect
  | loadFunction prototype => exact .loadFunction prototype
  | loadPrototype prototype => exact .loadPrototype prototype
  | newClosure value => exact .newClosure value
  | runWithThis allowed => exact .runWithThis allowed _ _ _
  | wakeup allowed => exact .wakeup allowed _
  | resumeGenerator allowed ref => exact .resumeGenerator allowed ref
  | newThread => exact .newThread
  | setThreadFunction ref entry => exact .setThreadFunction ref entry
  | threadCall ref arguments => exact .threadCall ref arguments
  | threadWakeup ref value => exact .threadWakeup ref value

end Engine.Attends

/-- Such a host uses the machine only through what it offers. -/
theorem Host.Attends.serves {host : Host} {manners : Manners}
    (attends : host.Attends manners) : host.Serves manners :=
  fun symbol engine => (attends symbol engine).serves

/-! ## What is offered is discreet -/

namespace Exec.Oblivious

variable {veil : Veil} {machine : Machine}

theorem settle : Oblivious veil (modify Machine.settle : Exec Unit) machine := by
  intro suits
  have lost : machine.LostIn machine.settle := .of_heap rfl (Heap.lostIn_release _ _)
  refine ⟨lost, fun incidents => ⟨suits.congr rfl rfl, fun keeps => ⟨incidents, ?_⟩⟩⟩
  have same : machine.heap.release (veil.machine incidents machine).external =
      machine.heap.release machine.external :=
    Heap.release_eq_of_left (suits.external_subset incidents) fun index outside =>
      (suits.mem_external_or outside).imp_right fun beside gone => keeps index beside (.inr gone)
  exact congrArg (fun heap : Heap => EStateM.Result.ok ()
    { veil.machine incidents machine with heap }) same

theorem collect : Oblivious veil (modifyGet Machine.collect : Exec Nat) machine := by
  intro suits
  refine ⟨machine.lostIn_collect, fun incidents => ⟨suits.congr rfl rfl, fun keeps =>
    ⟨incidents, ?_⟩⟩⟩
  have same : machine.heap.collect (veil.machine incidents machine).external [] =
      machine.heap.collect machine.external [] :=
    Heap.collect_eq_of_left (suits.external_subset incidents) fun index outside =>
      (suits.mem_external_or outside).imp_right fun beside =>
        ⟨fun gone => keeps index beside (.inr gone),
          fun freed => keeps index beside (.inl (List.mem_append_left _ freed))⟩
  exact congrArg (fun result : List Nat × Heap => EStateM.Result.ok result.1.length
    { veil.machine incidents machine with
      heap := result.2, collector := machine.collector.count result.1 }) same

/-! ### Loading -/

theorem closureOver (routine : Routine) :
    Oblivious veil (Exec.closureOver routine) machine := by
  have cells : ∀ (captures : List Capture) (machine : Machine), Oblivious veil
      (captures.mapM fun _ => @Exec.alloc .cell .null) machine := by
    intro captures
    induction captures with
    | nil => exact fun _ => pure []
    | cons capture rest ih =>
        intro machine
        rw [List.mapM_cons]
        exact (alloc _).bind fun _ _ _ => (ih _).bind fun _ _ _ => pure _
  rw [Exec.closureOver, Array.mapM_eq_mapM_toList]
  exact ((cells _ _).map _).bind fun _ _ _ => (alloc _).bind fun _ _ _ => pure _

theorem loadRoutine (prototype : Prototype) :
    Oblivious veil (Exec.loadRoutine prototype) machine := by
  rw [Exec.loadRoutine]
  split
  · exact pure _
  · exact raise _

theorem newClosure (value : Value) : Oblivious veil (Exec.newClosure value) machine := by
  cases value with
  | routine index =>
      refine get_bind ?_ fun _ => rfl
      split
      · exact closureOver _
      · exact closureOver _
  | _ => exact raise _

/-! ### Arguments -/

variable {call : NativeFrame}

theorem argument (current : machine.fiber.natives.head? = some call)
    (high : veil.floor ≤ call.base) (position : Nat) :
    Oblivious veil (Exec.argument position) machine := by
  obtain ⟨rest, listed⟩ := List.head?_eq_some_iff.mp current
  refine ofFiber ?_
  simp only [Veil.fiber, listed, veil.get_stack (Nat.le_add_right_of_le high)]

theorem allArguments (current : machine.fiber.natives.head? = some call)
    (high : veil.floor ≤ call.base) : Oblivious veil Exec.allArguments machine := by
  obtain ⟨rest, listed⟩ := List.head?_eq_some_iff.mp current
  refine ofFiber ?_
  simp only [Veil.fiber, listed, veil.range_stack high]

end Exec.Oblivious

namespace Exec.Discreet

open Machine

variable {manners : Manners} {engine : Engine} {action : Exec α}

end Exec.Discreet

/-! ## Engines -/

namespace Engine.Attends

variable {engine : Engine} {manners : Manners}

theorem pure (value : α) : engine.Attends manners (Pure.pure value) := quiet (.pure value)

theorem raise {fault : Fault} (plain : fault.isPlain = true) :
    engine.Attends manners (Exec.raise fault : Exec α) := quiet (.raise plain)

theorem root : engine.Attends manners fun machine => .ok machine.root machine :=
  quiet (.view fun _ root => root)

theorem run (allowed : manners.enters = true) (callee : Value) (arguments : List Value) :
    engine.Attends manners (Exec.run engine callee arguments) := by
  have runs : engine.Attends manners (do
      let root ← (fun machine => .ok machine.root machine : Exec (Ref .table))
      Exec.runWithThis engine callee (.table root) arguments) :=
    root.bind fun _ => runWithThis allowed _ _ _
  exact runs

/-! ### Arguments -/

theorem natives :
    engine.Attends manners (Exec.ofFiber (·.natives)) := look _ fun _ _ _ => rfl

theorem argumentsFrom (position : Nat) :
    engine.Attends manners (Exec.argumentsFrom position) :=
  allArguments.bind fun _ => pure _

theorem boundValue (index : Nat) : engine.Attends manners (Exec.boundValue index) := by
  refine natives.bind fun natives => ?_
  cases natives with
  | nil => exact pure _
  | cons call _ => exact (quiet (.read call.ref)).bind fun _ => pure _

theorem integerArgument (position : Nat) :
    engine.Attends manners (Exec.integerArgument position) := by
  refine (argument position).bind fun value => ?_
  cases value with
  | integer | float => exact pure _
  | _ => exact raise rfl

theorem arrayArgument (position : Nat) :
    engine.Attends manners (Exec.arrayArgument position) := by
  refine (argument position).bind fun value => ?_
  cases value with
  | array => exact pure _
  | _ => exact raise rfl

theorem threadArgument (position : Nat) :
    engine.Attends manners (Exec.threadArgument position) := by
  refine (argument position).bind fun value => ?_
  cases value with
  | thread => exact pure _
  | _ => exact raise rfl

/-! ### The library -/

theorem length (value : Value) : engine.Attends manners (BaseFunction.length value) := by
  cases value with
  | string => exact pure _
  | array ref | table ref => exact (quiet (.read ref)).bind fun _ => pure _
  | _ => exact raise rfl

theorem assertion (condition message : Value) :
    engine.Attends manners (BaseFunction.assertion condition message) := by
  rw [BaseFunction.assertion]
  split
  · exact pure ()
  · split
    · exact raise rfl
    · exact raise rfl

theorem baseFunction (calls : manners.calls = true)
    (function : BaseFunction) : engine.Attends manners (function.run engine) := by
  cases function with
  | print =>
      exact (argument 1).bind fun _ => (operation calls (.displayText _)).bind fun text =>
        (adjust (fun _ _ => ()) (fun printed _ => printed.push text) fun _ handler => handler).bind
          fun _ => pure _
  | assert =>
      exact (argument 1).bind fun _ => (argument 2).bind fun _ => (assertion _ _).bind fun _ =>
        pure _
  | len => exact (argument 1).bind fun _ => (length _).bind fun _ => pure _
  | sort =>
      exact (arrayArgument 1).bind fun _ => (argument 2).bind fun _ =>
        (operation calls (.sortArray _ _)).bind fun _ => pure _
  | collectGarbage => exact collect.bind fun _ => pure _
  | suspend => exact (argument 1).bind fun _ => pure _
  | newThread =>
      exact newThread.bind fun _ => (argument 1).bind fun _ =>
        (setThreadFunction _ _).bind fun _ => pure _
  | threadCall =>
      exact (threadArgument 1).bind fun _ => (argumentsFrom 2).bind fun _ =>
        (threadCall _ _).bind fun _ => pure _
  | threadWakeup =>
      exact (threadArgument 1).bind fun _ => (argument 2).bind fun _ =>
        (threadWakeup _ _).bind fun _ => pure _
  | threadStatus =>
      exact (threadArgument 1).bind fun _ => (quiet ((Parallel.read _).bind fun _ =>
        .pure _)).bind fun _ => pure _
  | getRootTable =>
      have finds : engine.Attends manners (do
          let root ← (fun machine => .ok machine.root machine : Exec (Ref .table))
          return NativeReturn.value (.table root)) := root.bind fun _ => pure _
      exact finds

theorem reflection (calls : manners.calls = true) (enters : manners.enters = true)
    (wakes : manners.wakes = true) (function : Reflection) :
    engine.Attends manners (function.perform engine) := by
  cases function with
  | args => exact allArguments.bind fun _ => (quiet (.newArray _)).bind fun _ => pure _
  | count => exact bind (look _ fun _ _ _ => rfl) fun _ => pure _
  | this => exact (argument 0).bind fun _ => pure _
  | integer => exact (integerArgument 1).bind fun _ => pure _
  | array => exact (arrayArgument 1).bind fun _ => (quiet (.read _)).bind fun _ => pure _
  | outer => exact (integerArgument 1).bind fun _ => (boundValue _).bind fun _ => pure _
  | push =>
      refine (argument 1).bind fun value => (boundValue 0).bind fun bound => ?_
      cases bound with
      | array ref => exact (quiet (.update ref _ rfl)).bind fun _ => pure _
      | _ => exact pure _
  | sync =>
      exact (argument 1).bind fun _ => (argument 2).bind fun _ => (argumentsFrom 3).bind fun _ =>
        (operation calls (.callSync _ _ _)).bind fun _ => pure _
  | run =>
      exact (argument 1).bind fun _ => (argumentsFrom 2).bind fun _ =>
        (run enters _ _).bind fun _ => pure _
  | throw => exact (argument 1).bind fun _ => raise rfl
  | fail => exact (argument 1).bind fun _ => raise rfl
  | resume =>
      refine (argument 1).bind fun value => ?_
      cases value with
      | generator ref => exact (resumeGenerator calls ref).bind fun _ => pure _
      | _ => exact pure _
  | wakeup => exact (argument 1).bind fun _ => (wakeup wakes _).bind fun _ => pure _
  | suspend => exact (argument 1).bind fun _ => pure _
  | state => exact bind (look _ fun _ _ _ => rfl) fun _ => pure _
  | frames => exact bind (look _ fun _ _ _ => rfl) fun _ => pure _
  | compare =>
      exact (argument 1).bind fun _ => (argument 2).bind fun _ =>
        (operation calls (.order _ _)).bind fun _ => pure _
  | pop =>
      refine (arrayArgument 1).bind fun ref => (quiet (.read ref)).bind fun sequence => ?_
      refine (quiet (.ofPlain ?_)).bind fun _ => (quiet (.write ref _ rfl)).bind fun _ => pure _
      exact (sequence.plain_top).bind fun _ => plain_ok _

end Engine.Attends

end ScriptMachine
