import ScriptMachine.Proofs.Machine.Balance
import ScriptMachine.Proofs.Machine.Granting
import ScriptMachine.Proofs.Machine.Overflow

/-!
# Suspending a run loop or going on with it

A host function that suspends the fiber is compared with one that replies at once.  As long as the
function is not called, an instruction, a turn and a run loop do the same with either.  Where it is
called, the one run loop ends, and the other one goes on from a machine that differs only in what
has been noted for waking the fiber, and in the register that receives the reply.
-/

namespace ScriptMachine

open Exec

variable {α β : Type}

/-! ## Host functions that ask for a value -/

/-- Ask for a value: hand one out and suspend the fiber until it is woken. -/
def Exec.pausing (look : Machine → Value) : Exec NativeReturn := fun machine =>
  .ok (.suspend (look machine)) machine

/-- Go on at once with the value for the host function that is being run, which is known by its
number among those that the fiber has run. -/
def Exec.replying (reply : Nat → Value) : Exec NativeReturn := fun machine =>
  .ok (.value (reply machine.fiber.counters.nativeCalls)) machine

/-- A function of the host is another one. -/
def Engine.answering (engine : Engine) (name : String) (answer : Exec NativeReturn) : Engine where
  callAt := engine.callAt
  runFrames := engine.runFrames
  native symbol := if symbol = name then answer else engine.native symbol

/-- The computation does not end with such a result. -/
def Exec.Avoids (action : Exec α) (results : α → Prop) : Prop :=
  ∀ machine value next, action machine = .ok value next → ¬ results value

/-- A wish to suspend the fiber. -/
def NativeReturn.Suspends (result : NativeReturn) : Prop := ∃ value, result = .suspend value

/-- A host function wishes to suspend the fiber. -/
def CallStart.Suspends (start : CallStart) : Prop := ∃ value, start = .suspend value

/-- The run loop ends because the fiber is suspended. -/
def Flow.Suspends (flow : Flow) : Prop := ∃ value, flow = .suspend value

/-- The fiber has been suspended. -/
def Outcome.Suspends (outcome : Outcome) : Prop := ∃ value, outcome = .suspended value

namespace Exec.Avoids

variable {results : α → Prop}

theorem bind {action : Exec β} {following : β → Exec α}
    (avoids : ∀ value, (following value).Avoids results) :
    (action >>= following).Avoids results := by
  intro machine value next done
  obtain ⟨found, between, _, rest⟩ := bind_eq_ok done
  exact avoids found between value next rest

theorem pure {value : α} (other : ¬ results value) : Avoids (Pure.pure value) results :=
  fun _ _ _ done => by
    injection done with same
    exact same ▸ other

/-- What has no result has none of those. -/
theorem of_error {action : Exec α}
    (fails : ∀ machine, ∃ stop next, action machine = .error stop next) :
    action.Avoids results := by
  intro machine value next done
  obtain ⟨stop, last, failed⟩ := fails machine
  exact absurd (failed.symm.trans done) (by simp)

theorem raise (fault : Fault) : Avoids (Exec.raise fault) results :=
  of_error fun _ => ⟨_, _, rfl⟩

theorem passOn (fault : Fault) : Avoids (Exec.passOn fault) results :=
  of_error fun _ => ⟨_, _, rfl⟩

theorem exhaust : Avoids Exec.exhaust results := of_error fun _ => ⟨_, _, rfl⟩

end Exec.Avoids

/-- Two computations end in the same way, and not with such a result. -/
def Exec.Agree (results : α → Prop) (machine : Machine) (action other : Exec α) : Prop :=
  action machine = other machine ∧ ∀ value next, action machine = .ok value next → ¬ results value

theorem Exec.Avoids.agree {results : α → Prop} {action other : Exec α}
    (avoids : action.Avoids results) (same : action = other) (machine : Machine) :
    Exec.Agree results machine action other := ⟨congrFun same machine, avoids machine⟩

theorem Exec.Agree.bind {results : α → Prop} {others : β → Prop} {machine : Machine}
    {action other : Exec α} {following : α → Exec β}
    (agree : Exec.Agree results machine action other)
    (avoids : ∀ value, ¬ results value → (following value).Avoids others) :
    Exec.Agree others machine (action >>= following) (other >>= following) := by
  cases result : action machine with
  | ok value next =>
      have joined := @ok_bind _ _ _ _ _ following _ result
      have answered := @ok_bind _ _ _ _ _ following _ (agree.1.symm.trans result)
      refine ⟨joined.trans answered.symm, fun last final ended => ?_⟩
      exact avoids value (agree.2 value next result) _ _ _ (joined.symm.trans ended)
  | error stop next =>
      have joined := @error_bind _ _ _ _ _ following _ result
      have answered := @error_bind _ _ _ _ _ following _ (agree.1.symm.trans result)
      refine ⟨joined.trans answered.symm, fun last final ended => ?_⟩
      exact absurd (joined.symm.trans ended) (by simp)

theorem Exec.ensuring_eq_ok {machine next : Machine} {action : Exec α}
    {restore : Machine → Machine} {value : α}
    (done : Exec.ensuring restore action machine = .ok value next) :
    ∃ last, action machine = .ok value last := by
  rw [Exec.ensuring] at done
  split at done
  · rename_i found last result
    injection done with same
    exact ⟨last, same ▸ result⟩
  · exact absurd done (by simp)
  · exact absurd done (by simp)

theorem Exec.Agree.ensuring {results : α → Prop} {machine : Machine} {action other : Exec α}
    (agree : Exec.Agree results machine action other) (restore : Machine → Machine) :
    Exec.Agree results machine (Exec.ensuring restore action) (Exec.ensuring restore other) := by
  refine ⟨by rw [Exec.ensuring, Exec.ensuring, agree.1], fun value next done => ?_⟩
  obtain ⟨last, ended⟩ := Exec.ensuring_eq_ok done
  exact agree.2 value last ended

theorem Exec.Agree.attempt {results : α → Prop} {machine : Machine} {action other : Exec α}
    (agree : Exec.Agree results machine action other) :
    Exec.Agree (fun result => ∃ value, result = .ok value ∧ results value) machine
      (Exec.attempt action) (Exec.attempt other) := by
  refine ⟨by rw [Exec.attempt, Exec.attempt, agree.1], fun result next done => ?_⟩
  rintro ⟨value, rfl, held⟩
  rw [Exec.attempt] at done
  split at done
  · rename_i found last ended
    injection done with same
    injection same with same
    exact agree.2 _ _ ended (same ▸ held)
  · exact absurd done (by simp)
  · exact absurd done (by simp)

theorem Exec.Agree.ok_bind {results : α → Prop} {machine next : Machine} {action : Exec β}
    {following further : β → Exec α} {value : β} (result : action machine = .ok value next)
    (agree : Exec.Agree results next (following value) (further value)) :
    Exec.Agree results machine (action >>= following) (action >>= further) := by
  rw [Exec.Agree, Exec.ok_bind result, Exec.ok_bind result]
  exact agree

/-! ## Computations that need no host function -/

theorem Exec.Below.eq {action other : Exec α} (below : action.Below (fun _ => False) other) :
    action = other := by
  funext machine
  rcases below machine with ⟨_, _, never⟩ | same
  · exact never.elim
  · exact same

theorem Exec.Below.eq_of_ends {cut : Machine → Prop} {action other : Exec α}
    (below : action.Below cut other) {machine : Machine}
    (ends : ∀ next, action machine ≠ .error .exhausted next) : action machine = other machine := by
  rcases below machine with ⟨next, short, _⟩ | same
  · exact absurd short (ends next)
  · exact same

namespace Exec

variable {engine : Engine} {name : String} {look : Machine → Value} {reply : Nat → Value}

theorem callsBelow_answering (engine : Engine) (name : String) (answer other : Exec NativeReturn) :
    (engine.answering name answer).CallsBelow (fun _ => False) (engine.answering name other) :=
  fun _ _ _ => .refl _

end Exec

namespace Machine

/-- One host function more has been run. -/
def called (machine : Machine) : Machine := machine.count fun counters =>
  { counters with nativeCalls := counters.nativeCalls + 1 }

/-- The fiber is about to be suspended, and goes on with a value in a register. -/
def pausedAt (machine : Machine) (target : Option UInt8) : Machine := machine.mapFiber fun fiber =>
  { fiber with suspended := some ⟨target, 0, 0⟩ }

/-- The register of the current frame that receives a result has received it. -/
def delivered (machine : Machine) (target : Option UInt8) (value : Value) : Machine :=
  match target with
  | some number => machine.mapStack (·.put (machine.fiber.base + number.toNat) value)
  | none => machine

end Machine

namespace Exec

open Machine

variable {manners : Manners} {scope : Scope} {start machine next : Machine} {frame : Frame}
  {engine : Engine} {name : String} (look : Machine → Value) (reply : Nat → Value)

theorem attempt_ok {action : Exec α} {value : α} (result : action machine = .ok value next) :
    attempt action machine = .ok (.ok value) next := by
  rw [attempt, result]

theorem read_bind {kind : Kind} (ref : Ref kind) (following : Content kind → Exec α)
    (machine : Machine) :
    (read ref >>= following) machine = following (machine.heap.get ref) machine := rfl

theorem get_bind (following : Machine → Exec α) (machine : Machine) :
    (get >>= following) machine = following machine machine := rfl

theorem ofFiber_bind (look : Fiber → β) (following : β → Exec α) (machine : Machine) :
    (ofFiber look >>= following) machine = following (look machine.fiber) machine := rfl

theorem ensuring_ok {action : Exec α} {restore : Machine → Machine} {value : α}
    (result : action machine = .ok value next) :
    ensuring restore action machine = .ok value (restore next) := by
  rw [ensuring, result]

theorem deliver_eq {target : Option UInt8}
    (window : ∀ number, target = some number →
      machine.fiber.base + number.toNat < machine.fiber.stack.size) (value : Value) :
    deliver target value machine = .ok () (machine.delivered target value) := by
  cases target with
  | none => rfl
  | some number => exact setRegister_eq rfl (window number rfl) value

/-- A host function is refused, or it is run on its arguments. -/
theorem callNative_cases (ref : Ref .native) (base count : Nat) (machine : Machine) :
    (∃ fault, ∀ engine, callNative engine ref base count machine =
      .error (.raised fault) (machine.record fault)) ∨
    ∀ engine, callNative engine ref base count machine =
      ensuring (·.mapFiber fun fiber =>
          { fiber with nativeCalls := fiber.nativeCalls - 1, natives := fiber.natives.tail })
        (engine.native (machine.heap.get ref : Native).symbol)
        (machine.called.mapFiber fun fiber =>
          { fiber with
            nativeCalls := fiber.nativeCalls + 1
            natives := ⟨ref, base, count⟩ :: fiber.natives }) := by
  cases checked : (machine.heap.get ref : Native).checkArguments
      (machine.fiber.stack.range base (base + count)).toList with
  | error fault =>
      refine .inl ⟨fault, fun engine => ?_⟩
      rw [callNative, read_bind, range, ofFiber_bind, checked]
      rfl
  | ok checks =>
      by_cases full : machine.limits.nativeCalls ≤ machine.fiber.nativeCalls
      · refine .inl ⟨.nativeStackOverflow, fun engine => ?_⟩
        rw [callNative, read_bind, range, ofFiber_bind, checked, ofExcept, pure_bind, get_bind,
          ofFiber_bind, if_pos full]
        rfl
      · refine .inr fun engine => ?_
        rw [callNative, read_bind, range, ofFiber_bind, checked, ofExcept, pure_bind, get_bind,
          ofFiber_bind, if_neg full]
        rfl

/-- A function that asks is suspended or answered, and has no other effect; anything else is the
same. -/
theorem callNative_answering
    (others : ∀ symbol, symbol ≠ name → (engine.native symbol).Avoids NativeReturn.Suspends)
    (ref : Ref .native) (base count : Nat) (machine : Machine) :
    Agree NativeReturn.Suspends machine
        (callNative (engine.answering name (.pausing look)) ref base count)
        (callNative (engine.answering name (.replying reply)) ref base count) ∨
      ∃ handed, callNative (engine.answering name (.pausing look)) ref base count machine =
          .ok (.suspend handed) machine.called ∧
        callNative (engine.answering name (.replying reply)) ref base count machine =
          .ok (.value (reply machine.called.fiber.counters.nativeCalls)) machine.called := by
  rcases callNative_cases ref base count machine with ⟨fault, refused⟩ | runs
  · refine .inl ⟨(refused _).trans (refused _).symm, fun result next done => ?_⟩
    rw [refused] at done
    exact absurd done (by simp)
  · rw [Agree, runs, runs]
    by_cases asks : (machine.heap.get ref : Native).symbol = name
    · have answers : ∀ answer : Exec NativeReturn, (engine.answering name answer).native
          (machine.heap.get ref : Native).symbol = answer := fun _ => if_pos asks
      rw [answers, answers]
      exact .inr ⟨_, rfl, rfl⟩
    · have same : ∀ answer : Exec NativeReturn, (engine.answering name answer).native
          (machine.heap.get ref : Native).symbol =
            engine.native (machine.heap.get ref : Native).symbol := fun _ => if_neg asks
      rw [same, same]
      refine .inl ⟨rfl, fun result next done => ?_⟩
      obtain ⟨last, found⟩ := ensuring_eq_ok done
      exact others _ asks _ _ _ found

theorem callValue_answering
    (others : ∀ symbol, symbol ≠ name → (engine.native symbol).Avoids NativeReturn.Suspends)
    (callee : Value) (base count : Nat) (target : Option UInt8) (isRoot : Bool)
    (machine : Machine) :
    Agree CallStart.Suspends machine
        (callValue (engine.answering name (.pausing look)) callee base count target isRoot)
        (callValue (engine.answering name (.replying reply)) callee base count target isRoot) ∨
      ∃ handed,
        callValue (engine.answering name (.pausing look)) callee base count target isRoot machine =
          .ok (.suspend handed) machine.called ∧
        callValue (engine.answering name (.replying reply)) callee base count target isRoot
          machine =
            .ok (.done (reply machine.called.fiber.counters.nativeCalls)) machine.called := by
  have done : ∀ value, (Pure.pure (.done value) : Exec CallStart).Avoids CallStart.Suspends :=
    fun value => .pure fun ⟨_, same⟩ => by simp at same
  have pushed : (Pure.pure .pushed : Exec CallStart).Avoids CallStart.Suspends :=
    .pure fun ⟨_, same⟩ => by simp at same
  have calls := callsBelow_answering engine name (.pausing look) (.replying reply)
  cases callee with
  | native ref =>
      rcases callNative_answering look reply others ref base count machine with
        agree | ⟨handed, asks, answers⟩
      · refine .inl (agree.bind fun value other => ?_)
        cases value with
        | value value => exact done _
        | nothing => exact done _
        | suspend value => exact absurd ⟨value, rfl⟩ other
      · exact .inr ⟨handed, ok_bind asks, ok_bind answers⟩
  | closure ref =>
      refine .inl (Avoids.agree ?_ rfl machine)
      refine .bind fun closure => ?_
      split
      · exact .bind fun _ => done _
      · exact .bind fun _ => pushed
  | cls ref =>
      exact .inl (Avoids.agree (.bind fun _ => done _)
        (Exec.Below.eq ((Exec.Below.construct calls ref base count).bind fun _ => .refl _))
        machine)
  | _ =>
      refine .inl (Avoids.agree (.bind fun handler => ?_) ?_ machine)
      · cases handler with
        | none => exact .raise _
        | some handler => exact .bind fun _ => .bind fun _ => done _
      · refine Exec.Below.eq ((Exec.Below.refl _).bind fun handler => ?_)
        cases handler with
        | none => exact .refl _
        | some handler =>
            exact (Exec.Below.refl _).bind fun _ => (Exec.Below.callSync calls _ _ _).bind fun _ =>
              .refl _

/-- One computation suspends the fiber where the other one answers. -/
def Parts (reply : Nat → Value) (machine : Machine) (pausing replying : Exec Flow) : Prop :=
  ∃ handed target, (∀ number, target = some number →
      machine.fiber.base + number.toNat < machine.fiber.stack.size) ∧
    pausing machine = .ok (.suspend handed) (machine.called.pausedAt target) ∧
    replying machine = .ok .proceed
      (machine.called.delivered target (reply machine.called.fiber.counters.nativeCalls))

section Turn

variable (others : ∀ symbol, symbol ≠ name → (engine.native symbol).Avoids NativeReturn.Suspends)
  {prototype : Prototype} {instruction : Instruction}

theorem avoids_proceed : (Pure.pure .proceed : Exec Flow).Avoids Flow.Suspends :=
  .pure fun ⟨_, same⟩ => by simp at same

theorem avoids_leaveFrame (frame : Frame) (value : Value) :
    (leaveFrame frame value).Avoids Flow.Suspends := by
  refine .bind fun _ => .bind fun _ => ?_
  split
  · exact .pure fun ⟨_, same⟩ => by simp at same
  · exact .bind fun _ => .bind fun _ => .bind fun _ => avoids_proceed

theorem avoids_returnValue (value : Value) : (returnValue value).Avoids Flow.Suspends :=
  .bind fun _ => .bind fun _ => avoids_leaveFrame _ _

theorem avoids_yieldValue (value : Value) : (yieldValue value).Avoids Flow.Suspends := by
  refine .bind fun frame => ?_
  split
  · exact .raise _
  · exact .bind fun _ => .bind fun _ => .bind fun _ => .bind fun _ => .bind fun _ => .bind fun _ =>
      avoids_leaveFrame _ _

theorem avoids_replaceFrame (ref : Ref .closure) (instruction : Instruction) :
    (replaceFrame .direct ref instruction).Avoids Flow.Suspends :=
  .bind fun _ => .bind fun _ => .bind fun _ => .bind fun _ => .bind fun _ => .bind fun _ =>
    .bind fun _ => avoids_proceed

include others

theorem callInstruction_answering (inside : start.Inside manners scope frame machine)
    (can : machine.fiber.canSuspend = true) (window : frame.Calls instruction) (callee : Value) :
    Agree Flow.Suspends machine
        (callInstruction .direct (engine.answering name (.pausing look)) callee instruction)
        (callInstruction .direct (engine.answering name (.replying reply)) callee instruction) ∨
      Parts reply machine
        (callInstruction .direct (engine.answering name (.pausing look)) callee instruction)
        (callInstruction .direct (engine.answering name (.replying reply)) callee instruction) := by
  let target := instruction.target?.map Access.direct.handOn
  have first : Access.direct.span instruction.second instruction.third.toNat machine =
      .ok (machine.fiber.base + instruction.second.toNat) machine := rfl
  rcases callValue_answering look reply others callee
    (machine.fiber.base + instruction.second.toNat) instruction.third.toNat target false machine
    with agree | ⟨handed, asks, answers⟩
  · left
    refine Agree.ok_bind first (agree.bind fun start other => ?_)
    cases start with
    | pushed => exact avoids_proceed
    | done value => exact .bind fun _ => avoids_proceed
    | suspend value => exact absurd ⟨value, rfl⟩ other
  · right
    have base : machine.fiber.base = frame.base := by
      rw [Fiber.base, inside.current]
      rfl
    have fits : ∀ number, target = some number →
        machine.fiber.base + number.toNat < machine.fiber.stack.size := by
      intro number named
      obtain ⟨own, found, rfl⟩ := Option.map_eq_some_iff.mp named
      rw [base]
      exact Nat.lt_of_lt_of_le (window.target own found) (inside.shaped frame inside.current)
    refine ⟨handed, target, fits, ?_, ?_⟩
    · refine (Exec.ok_bind first).trans ((Exec.ok_bind asks).trans ?_)
      have may : ofFiber (·.canSuspend) machine.called = .ok true machine.called :=
        congrArg (fun may => EStateM.Result.ok may machine.called) can
      refine (Exec.ok_bind may).trans ?_
      rfl
    · refine (Exec.ok_bind first).trans ((Exec.ok_bind answers).trans ?_)
      have handsOn : ∀ value,
          Access.direct.deliver instruction.target? value = deliver target value := by
        intro value
        cases named : instruction.target? with
        | none => simp [target, named, Access.deliver, deliver]
        | some number => simp [target, named, Access.deliver, deliver, Access.direct]
      dsimp only
      rw [handsOn]
      have fits : ∀ number, target = some number →
        machine.called.fiber.base + number.toNat < machine.called.fiber.stack.size := fits
      exact Exec.ok_bind (deliver_eq fits _)

theorem tailCall_answering (inside : start.Inside manners scope frame machine)
    (can : machine.fiber.canSuspend = true) (window : frame.Calls instruction) (callee : Value) :
    Agree Flow.Suspends machine
        (tailCall .direct (engine.answering name (.pausing look)) callee instruction)
        (tailCall .direct (engine.answering name (.replying reply)) callee instruction) ∨
      Parts reply machine
        (tailCall .direct (engine.answering name (.pausing look)) callee instruction)
        (tailCall .direct (engine.answering name (.replying reply)) callee instruction) := by
  have called := callInstruction_answering look reply others inside can window
  cases callee with
  | closure ref =>
      obtain ⟨replaces, opens⟩ : ∃ replaces : Bool, ∀ other : Engine,
          tailCall .direct other (.closure ref) instruction machine =
            (if replaces = true then replaceFrame .direct ref instruction
              else callInstruction .direct other (.closure ref) instruction) machine := by
        obtain ⟨replaces, found⟩ : ∃ replaces, replacesFrame frame (machine.heap.get ref : Closure)
            instruction.third.toNat machine = .ok replaces machine := ⟨_, rfl⟩
        refine ⟨replaces, fun other => ?_⟩
        rw [tailCall, read_bind, Exec.frame_bind inside.current]
        exact Exec.ok_bind found
      rw [Agree, Parts, opens, opens]
      cases replaces with
      | true => exact .inl ((avoids_replaceFrame ref instruction).agree rfl machine)
      | false => exact called (.closure ref)
  | _ => exact called _

theorem dispatch_answering (inside : start.Inside manners scope frame machine)
    (can : machine.fiber.canSuspend = true) (performs : frame.Performs prototype instruction) :
    Agree Flow.Suspends machine
        (dispatch .direct (engine.answering name (.pausing look)) instruction)
        (dispatch .direct (engine.answering name (.replying reply)) instruction) ∨
      Parts reply machine
        (dispatch .direct (engine.answering name (.pausing look)) instruction)
        (dispatch .direct (engine.answering name (.replying reply)) instruction) := by
  have calls := callsBelow_answering engine name (.pausing look) (.replying reply)
  obtain ⟨op, first, wide, second, third⟩ := instruction
  cases op with
  | call =>
      exact callInstruction_answering look reply others inside can (performs.calls (.inl rfl)) _
  | tailCall =>
      exact tailCall_answering look reply others inside can (performs.calls (.inr rfl)) _
  | ret => exact .inl (Avoids.agree (.bind fun _ => avoids_returnValue _) rfl machine)
  | yield => exact .inl (Avoids.agree (.bind fun _ => avoids_yieldValue _) rfl machine)
  | _ =>
      refine .inl (Avoids.agree (.bind fun _ => avoids_proceed) ?_ machine)
      exact Exec.Below.eq ((Exec.Below.perform calls _).bind fun _ => .refl _)

/-- A turn of the run loop suspends the fiber or goes on with a value in the register where the
result is wanted; any other turn is the same. -/
theorem turn_answering (running : start.Running manners scope machine)
    (can : start.fiber.canSuspend = true) (root : Nat) :
    Agree (fun outcome => ∃ value, outcome = some (.suspended value)) machine
        (turn (engine.answering name (.pausing look)) root)
        (turn (engine.answering name (.replying reply)) root) ∨
      ∃ (fetched : Machine) (handed : Value) (target : Option UInt8),
        start.Running manners scope fetched ∧
        fetched.fiber.counters = machine.fiber.counters ∧
        (∀ number, target = some number →
          fetched.fiber.base + number.toNat < fetched.fiber.stack.size) ∧
        turn (engine.answering name (.pausing look)) root machine =
          .ok (some (.suspended handed)) (fetched.called.pausedAt target) ∧
        turn (engine.answering name (.replying reply)) root machine =
          .ok none (fetched.called.delivered target
            (reply fetched.called.fiber.counters.nativeCalls)) := by
  obtain ⟨frame, current⟩ := exists_current running.above
  have inside : start.Inside manners scope frame machine := ⟨running, current⟩
  -- What follows an instruction that does not suspend the fiber does not suspend it either.
  have goesOn : ∀ {instruction next}, fetch machine = .ok instruction next →
      Agree Flow.Suspends next (step (engine.answering name (.pausing look)) instruction)
        (step (engine.answering name (.replying reply)) instruction) →
      Agree (fun outcome => ∃ value, outcome = some (.suspended value)) machine
        (turn (engine.answering name (.pausing look)) root)
        (turn (engine.answering name (.replying reply)) root) := by
    intro instruction next fetched agree
    refine Agree.ok_bind fetched (agree.attempt.bind fun result other => ?_)
    cases result with
    | error fault => exact .bind fun _ => .pure fun ⟨_, same⟩ => by simp at same
    | ok flow =>
        cases flow with
        | proceed => exact .pure fun ⟨_, same⟩ => by simp at same
        | finish value => exact .pure fun ⟨_, same⟩ => by simp at same
        | suspend value => exact absurd ⟨_, rfl, value, rfl⟩ other
  cases fetched : fetch machine with
  | error stop next =>
      have fails : ∀ other : Engine, turn other root machine = .error stop next :=
        fun _ => error_bind fetched
      refine .inl ⟨(fails _).trans (fails _).symm, fun _ _ done => ?_⟩
      exact absurd ((fails _).symm.trans done) (by simp)
  | ok instruction next =>
      cases instruction with
      | none => exact .inl (goesOn fetched ((avoids_returnValue .null).agree rfl next))
      | some instruction =>
          obtain ⟨moved, inside, prototype, performs⟩ := exists_of_fetch inside fetched
          have below := inside.below
          have may : next.fiber.canSuspend = true := by
            have nesting : next.fiber.nesting = start.fiber.nesting := below.nesting
            have natives : next.fiber.natives = start.fiber.natives := below.natives
            have syncCalls : next.fiber.syncCalls = start.fiber.syncCalls := below.syncCalls
            rwa [Fiber.canSuspend, nesting, natives, syncCalls]
          rcases dispatch_answering look reply others inside may performs with agree | parts
          · exact .inl (goesOn fetched agree)
          · obtain ⟨handed, target, fits, asks, answers⟩ := parts
            refine .inr ⟨next, handed, target, inside.toRunning, ?_, fits, ?_, ?_⟩
            · rw [← moved]
              rfl
            · rw [turn, Exec.ok_bind fetched, step, Exec.ok_bind (attempt_ok asks)]
              rfl
            · rw [turn, Exec.ok_bind fetched, step, Exec.ok_bind (attempt_ok answers)]
              rfl

end Turn

end Exec

/-! ## Run loops -/

/-- The run loop has come to the machine without a call that is cut short. -/
structure Machine.Proceeds (manners : Manners) (scope : Scope) (start machine : Machine) :
    Prop where
  /-- It goes on there. -/
  running : start.Running manners scope machine
  /-- The same fibers are there, and the host holds the same. -/
  stands : start.Stands machine

/-- What an engine needs for its run loops to be followed. -/
structure Engine.Sure (engine : Engine) (manners : Manners) : Prop where
  /-- Calls that wait for their result are steady. -/
  calls : engine.SteadyCalls manners
  /-- Host functions are steady. -/
  natives : engine.SteadyNatives manners
  /-- No fiber gets more registers than it is allowed. -/
  faithful : engine.Faithful False

namespace Exec

open Machine

variable {manners : Manners} {scope : Scope} {start machine next : Machine} {engine : Engine}
  {name : String} (look : Machine → Value) (reply : Nat → Value)

theorem proceeds_of_turn (sure : engine.Sure manners) (whole : scope.mark = scope.root)
    (proceeds : start.Proceeds manners scope machine)
    (turned : turn engine scope.root machine = .ok none next) :
    start.Proceeds manners scope next := by
  have meets := meets_turn sure.calls sure.natives proceeds.running
  rw [Meets, turned] at meets
  have carries := Faithful.turn sure.faithful scope.root machine proceeds.stands.roomy
  rw [FaithfulAt, Meets, turned] at carries
  exact ⟨meets.2 (whole ▸ meets.1), proceeds.stands.trans carries.1⟩

/-- The run loop that suspends the fiber has ended, and the other one goes on with a reply. -/
structure LoopParts (reply : Nat → Value) (manners : Manners) (scope : Scope) (steps : Nat)
    (asking answering : Nat → Exec Outcome) (start machine halted : Machine) (handed : Value)
    (target : Option UInt8) (used : Nat) : Prop where
  /-- There the function has been called. -/
  running : start.Running manners scope halted
  counted : machine.fiber.counters.nativeCalls ≤ halted.fiber.counters.nativeCalls
  fits : ∀ number, target = some number →
    halted.fiber.base + number.toNat < halted.fiber.stack.size
  asks : asking steps machine = .ok (.suspended handed) (halted.called.pausedAt target)
  proceeds : start.Proceeds manners scope
    (halted.called.delivered target (reply halted.called.fiber.counters.nativeCalls))
  /-- So many steps have been made. -/
  some : 0 < used
  less : used ≤ steps
  answers : ∀ more, answering (more + used) machine = answering more
    (halted.called.delivered target (reply halted.called.fiber.counters.nativeCalls))

/-- The run loop that suspends the fiber ends, and the other one goes on. -/
theorem loop_answering
    (others : ∀ symbol, symbol ≠ name → (engine.native symbol).Avoids NativeReturn.Suspends)
    (sure : (engine.answering name (.replying reply)).Sure manners)
    (whole : scope.mark = scope.root) (can : start.fiber.canSuspend = true) (steps : Nat)
    (proceeds : start.Proceeds manners scope machine) :
    Agree Outcome.Suspends machine
        (loop (engine.answering name (.pausing look)) scope.root steps)
        (loop (engine.answering name (.replying reply)) scope.root steps) ∨
      ∃ halted handed target used, LoopParts reply manners scope steps
        (loop (engine.answering name (.pausing look)) scope.root)
        (loop (engine.answering name (.replying reply)) scope.root) start machine halted handed
        target used := by
  induction steps generalizing machine with
  | zero => exact .inl (Avoids.exhaust.agree rfl machine)
  | succ steps ih =>
      rcases turn_answering look reply others proceeds.running can scope.root
        with agree | ⟨halted, handed, target, running, counters, fits, asks, answers⟩
      · cases turned : turn (engine.answering name (.pausing look)) scope.root machine with
        | error stop next =>
            have answered := agree.1.symm.trans turned
            rw [Agree, loop, loop, error_bind turned, error_bind answered]
            exact .inl ⟨rfl, fun _ _ done => absurd done (by simp)⟩
        | ok outcome next =>
            have answered := agree.1.symm.trans turned
            cases outcome with
            | some outcome =>
                rw [Agree, loop, loop, Exec.ok_bind turned, Exec.ok_bind answered]
                refine .inl ⟨rfl, fun value last done => ?_⟩
                injection done with same
                rintro ⟨value, rfl⟩
                exact agree.2 _ _ turned ⟨value, congrArg some same⟩
            | none =>
                have counts :=
                  Faithful.turn sure.faithful scope.root machine proceeds.stands.roomy
                rw [FaithfulAt, Meets, answered] at counts
                rcases ih (proceeds_of_turn sure whole proceeds answered) with
                  agree | ⟨halted, handed, target, used, parts⟩
                · rw [Agree, loop, loop, Exec.ok_bind turned, Exec.ok_bind answered]
                  exact .inl agree
                · refine .inr ⟨halted, handed, target, used + 1,
                    { parts with
                      counted := Nat.le_trans counts.1.counted parts.counted
                      asks := ?_
                      some := Nat.succ_pos used
                      less := Nat.succ_le_succ parts.less
                      answers := fun more => ?_ }⟩
                  · rw [loop, Exec.ok_bind turned]
                    exact parts.asks
                  · rw [← Nat.add_assoc, loop, Exec.ok_bind answered]
                    exact parts.answers more
      · refine .inr ⟨halted, handed, target, 1,
          { running, fits
            counted := Nat.le_of_eq (by rw [counters])
            asks := ?_
            proceeds := proceeds_of_turn sure whole proceeds answers
            some := Nat.one_pos
            less := by omega
            answers := fun more => ?_ }⟩
        · rw [loop, Exec.ok_bind asks]
          rfl
        · rw [loop, Exec.ok_bind answers]

end Exec

end ScriptMachine
