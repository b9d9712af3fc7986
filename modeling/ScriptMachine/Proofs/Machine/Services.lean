import ScriptMachine.Library.Standard
import ScriptMachine.Proofs.Machine.Operations

/-!
# Host functions

`Engine.Serves` describes host functions that use the machine only through what it offers them:
operations on values, calls and entries, generators and threads, loading and collection.  Manners
say what they are allowed beyond that.  The standard host serves with manners that leave faults
alone.
-/

namespace ScriptMachine

variable {α β : Type}

/-- What host functions are allowed. -/
structure Manners where
  /-- They may catch faults. -/
  catches : Bool := false
  /-- They may wake the running fiber. -/
  wakes : Bool := false
  /-- They may make closures over function bodies that have not been verified. -/
  trusts : Bool := false
  /-- They may call values in the running fiber and wait for the result. -/
  calls : Bool := true
  /-- They may start an entry in the running fiber. -/
  enters : Bool := true
deriving DecidableEq

/-- Computations of a host function that uses the machine only through what it offers. -/
inductive Engine.Serves (engine : Engine) (manners : Manners) : {α : Type} → Exec α → Prop
  | operates {α : Type} {action : Exec α} (allowed : manners.calls = true) :
      engine.Operates action → Serves engine manners action
  | quiet {α : Type} {action : Exec α} :
      Engine.spent.Operates action → Serves engine manners action
  | bind {α β : Type} {action : Exec α} {following : α → Exec β} :
      Serves engine manners action → (∀ value, Serves engine manners (following value)) →
      Serves engine manners (action >>= following)
  | keeping {α : Type} {action : Exec α} (indices : List Nat) :
      Serves engine manners action → Serves engine manners (Exec.keeping indices action)
  | attempt {α : Type} {action : Exec α} (allowed : manners.catches = true) :
      Serves engine manners action → Serves engine manners (Exec.attempt action)
  | passOn {α : Type} (allowed : manners.catches = true) (fault : Fault) :
      Serves engine manners (Exec.passOn fault : Exec α)
  | adjust {α : Type} (look : Machine → α) (printed : Machine → Array String)
      (handler : Machine → Option Value) :
      Serves engine manners fun machine =>
        .ok (look machine) { machine with printed := printed machine, handler := handler machine }
  | settle : Serves engine manners (modify Machine.settle)
  | collect : Serves engine manners (modifyGet Machine.collect)
  | closureOver (allowed : manners.trusts = true) (routine : Routine) :
      Serves engine manners (Exec.closureOver routine)
  | loadFunction (prototype : Prototype) : Serves engine manners (Exec.loadFunction prototype)
  | loadPrototype (prototype : Prototype) : Serves engine manners (Exec.loadPrototype prototype)
  | newClosure (value : Value) : Serves engine manners (Exec.newClosure value)
  | runWithThis (allowed : manners.enters = true) (callee this : Value) (arguments : List Value) :
      Serves engine manners (Exec.runWithThis engine callee this arguments)
  | wakeup (allowed : manners.wakes = true) (value : Value) :
      Serves engine manners (Exec.wakeup engine value)
  | resumeGenerator (allowed : manners.calls = true) (ref : Ref .generator) :
      Serves engine manners (Exec.resumeGenerator engine ref)
  | newThread : Serves engine manners Exec.newThread
  | setThreadFunction (ref : Ref .thread) (entry : Value) :
      Serves engine manners (Exec.setThreadFunction ref entry)
  | threadCall (ref : Ref .thread) (arguments : List Value) :
      Serves engine manners (Exec.threadCall engine ref arguments)
  | threadWakeup (ref : Ref .thread) (value : Value) :
      Serves engine manners (Exec.threadWakeup engine ref value)

/-- All functions of the host use the machine only through what it offers. -/
def Host.Serves (host : Host) (manners : Manners) : Prop :=
  ∀ symbol engine, Engine.Serves engine manners (host symbol engine)

/-- The machine in which a computation ends. -/
def Exec.after (action : Exec α) (machine : Machine) : Machine :=
  match action machine with
  | .ok _ next => next
  | .error _ next => next

/-- The host has come to the machine by what it is allowed, and has control of it. -/
inductive Machine.Reached (host : Host) (manners : Manners) : Machine → Prop
  | created (limits : Limits) : Reached host manners (Machine.create limits)
  | returned {machine next : Machine} {α : Type} {steps : Nat} {action : Exec α} {value : α} :
      Reached host manners machine → (Engine.ofHost host steps).Serves manners action →
      action machine = .ok value next → Reached host manners next
  | failed {machine next : Machine} {α : Type} {steps : Nat} {action : Exec α} {fault : Fault} :
      Reached host manners machine → (Engine.ofHost host steps).Serves manners action →
      action machine = .error (.raised fault) next → Reached host manners next

namespace Engine.Serves

variable {engine : Engine} {manners : Manners} {action : Exec α}

theorem operation (allowed : manners.calls = true)
    (parallel : engine.Parallel engine action action) : engine.Serves manners action :=
  operates allowed parallel.operates

theorem calm (parallel : Engine.spent.Parallel .spent action action) :
    engine.Serves manners action := quiet parallel.operates

theorem view (look : Machine → α) :
    engine.Serves manners fun machine => .ok (look machine) machine :=
  quiet (.view look)

theorem pure (value : α) : engine.Serves manners (Pure.pure value) := calm (.pure value)

theorem raise {fault : Fault} (plain : fault.isPlain = true) :
    engine.Serves manners (Exec.raise fault : Exec α) := calm (.raise plain)

theorem loadClosure (bytes : List UInt8) : engine.Serves manners (Exec.loadClosure bytes) := by
  rw [Exec.loadClosure]
  split
  · exact loadFunction _
  · exact raise rfl

theorem run (allowed : manners.enters = true) (callee : Value) (arguments : List Value) :
    engine.Serves manners (Exec.run engine callee arguments) :=
  (view id).bind fun _ => runWithThis allowed _ _ _

/-! ## Arguments -/

theorem argument (position : Nat) : engine.Serves manners (Exec.argument position) := view _

theorem argumentsFrom (position : Nat) : engine.Serves manners (Exec.argumentsFrom position) :=
  (view _).bind fun _ => pure _

theorem boundValue (index : Nat) : engine.Serves manners (Exec.boundValue index) := by
  refine (view _).bind fun natives => ?_
  cases natives with
  | nil => exact pure _
  | cons call _ => exact (calm (.read call.ref)).bind fun _ => pure _

theorem integerArgument (position : Nat) :
    engine.Serves manners (Exec.integerArgument position) := by
  refine (argument position).bind fun value => ?_
  cases value with
  | integer | float => exact pure _
  | _ => exact raise rfl

theorem arrayArgument (position : Nat) : engine.Serves manners (Exec.arrayArgument position) := by
  refine (argument position).bind fun value => ?_
  cases value with
  | array => exact pure _
  | _ => exact raise rfl

theorem threadArgument (position : Nat) :
    engine.Serves manners (Exec.threadArgument position) := by
  refine (argument position).bind fun value => ?_
  cases value with
  | thread => exact pure _
  | _ => exact raise rfl

/-! ## The library -/

theorem length (value : Value) : engine.Serves manners (BaseFunction.length value) := by
  cases value with
  | string => exact pure _
  | array ref | table ref => exact (calm (.read ref)).bind fun _ => pure _
  | _ => exact raise rfl

theorem assertion (condition message : Value) :
    engine.Serves manners (BaseFunction.assertion condition message) := by
  rw [BaseFunction.assertion]
  split
  · exact pure ()
  · split
    · exact raise rfl
    · exact raise rfl

theorem baseFunction (calls : manners.calls = true) (function : BaseFunction) :
    engine.Serves manners (function.run engine) := by
  cases function with
  | print =>
      exact (argument 1).bind fun _ => (operation calls (.displayText _)).bind fun _ =>
        (adjust (fun _ => ()) _ Machine.handler).bind fun _ => pure _
  | assert =>
      exact (argument 1).bind fun _ => (argument 2).bind fun _ => (assertion _ _).bind fun _ =>
        pure _
  | len => exact (argument 1).bind fun _ => (length _).bind fun _ => pure _
  | sort =>
      exact (arrayArgument 1).bind fun _ => (argument 2).bind fun _ =>
        (operation calls (.sortArray _ _)).bind fun _ => pure _
  | collectGarbage => exact collect.bind fun _ => pure _
  | suspend => exact (argument 1).bind fun _ => pure _
  | newThread =>
      exact newThread.bind fun _ => (argument 1).bind fun _ =>
        (setThreadFunction _ _).bind fun _ => pure _
  | threadCall =>
      exact (threadArgument 1).bind fun _ => (argumentsFrom 2).bind fun _ =>
        (threadCall _ _).bind fun _ => pure _
  | threadWakeup =>
      exact (threadArgument 1).bind fun _ => (argument 2).bind fun _ =>
        (threadWakeup _ _).bind fun _ => pure _
  | threadStatus =>
      exact (threadArgument 1).bind fun _ => (calm ((Parallel.read _).bind fun _ =>
        .pure _)).bind fun _ => pure _
  | getRootTable => exact (view id).bind fun _ => pure _

theorem reflection (calls : manners.calls = true) (enters : manners.enters = true)
    (wakes : manners.wakes = true) (function : Reflection) :
    engine.Serves manners (function.perform engine) := by
  cases function with
  | args => exact (view _).bind fun _ => (calm (.newArray _)).bind fun _ => pure _
  | count => exact (view _).bind fun _ => pure _
  | this => exact (argument 0).bind fun _ => pure _
  | integer => exact (integerArgument 1).bind fun _ => pure _
  | array => exact (arrayArgument 1).bind fun _ => (calm (.read _)).bind fun _ => pure _
  | outer => exact (integerArgument 1).bind fun _ => (boundValue _).bind fun _ => pure _
  | push =>
      refine (argument 1).bind fun value => (boundValue 0).bind fun bound => ?_
      cases bound with
      | array ref => exact (calm (.update ref _ rfl)).bind fun _ => pure _
      | _ => exact pure _
  | sync =>
      exact (argument 1).bind fun _ => (argument 2).bind fun _ => (argumentsFrom 3).bind fun _ =>
        (operation calls (.callSync _ _ _)).bind fun _ => pure _
  | run =>
      exact (argument 1).bind fun _ => (argumentsFrom 2).bind fun _ =>
        (run enters _ _).bind fun _ =>
        pure _
  | throw => exact (argument 1).bind fun _ => raise rfl
  | fail => exact (argument 1).bind fun _ => raise rfl
  | resume =>
      refine (argument 1).bind fun value => ?_
      cases value with
      | generator ref => exact (resumeGenerator calls ref).bind fun _ => pure _
      | _ => exact pure _
  | wakeup => exact (argument 1).bind fun _ => (wakeup wakes _).bind fun _ => pure _
  | suspend => exact (argument 1).bind fun _ => pure _
  | state => exact (view _).bind fun _ => pure _
  | frames => exact (view _).bind fun _ => pure _
  | compare =>
      exact (argument 1).bind fun _ => (argument 2).bind fun _ =>
        (operation calls (.order _ _)).bind fun _ => pure _
  | pop =>
      refine (arrayArgument 1).bind fun ref => (calm (.read ref)).bind fun sequence => ?_
      refine (calm (.ofPlain ?_)).bind fun _ => (calm (.write ref _ rfl)).bind fun _ => pure _
      exact (sequence.plain_top).bind fun _ => plain_ok _

end Engine.Serves

/-- The functions of the library use the machine only through what it offers, and leave faults
alone. -/
theorem serves_standardHost : standardHost.Serves { wakes := true } := by
  intro symbol engine
  rw [standardHost]
  split
  · exact .reflection rfl rfl rfl _
  · split
    · exact .baseFunction rfl _
    · exact .pure _

end ScriptMachine
