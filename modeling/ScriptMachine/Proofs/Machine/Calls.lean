import ScriptMachine.Machine.Activation
import ScriptMachine.Proofs.Machine.Running

/-!
# Calls

Beginning a call either adds a frame or is steady, and so is going on with a generator.  What a
call does to registers stays above the first of its arguments.
-/

namespace ScriptMachine

/-- Host functions of the engine are steady while they run. -/
def Engine.SteadyNatives (engine : Engine) (manners : Manners) : Prop :=
  ∀ symbol, Exec.Steady manners .all
    (fun activity => activity.natives ≠ [] ∧ activity.Calm manners) (engine.native symbol)

theorem Heap.Sound.closure {heap : Heap} (sound : heap.Sound) (ref : Ref .closure) :
    (heap.get ref : Closure).Sound := by
  rw [Heap.get]
  cases found : heap.get? ref with
  | none => exact Closure.sound_default
  | some closure => exact sound ref closure found

namespace Machine

variable {manners : Manners} {machine next last : Machine} {callee : Frame}

/-- A sound frame with its traps is added. -/
theorem Sound.enters (sound : machine.Sound)
    (entered : callee.SoundIn machine.heap machine.fiber.stack.maxSlots)
    (under : machine.fiber.activity.Under callee.base)
    (fits : callee.base ≤ machine.fiber.stack.size) {own : List Trap}
    (placed : ∀ trap ∈ own, trap.frame = machine.fiber.stack.depth ∧ trap.Guards callee) :
    machine.Enters manners callee ((machine.mapStack (·.enter callee)).mapFiber fun fiber =>
      { fiber with traps := own ++ fiber.traps }) := by
  have activity : ((machine.mapStack (·.enter callee)).mapFiber fun fiber =>
      { fiber with traps := own ++ fiber.traps }).fiber.activity =
      { machine.fiber.activity with
        frames := machine.fiber.activity.frames.push callee
        traps := own ++ machine.fiber.activity.traps } := by
    simp [Fiber.activity, mapStack, mapFiber]
  refine ⟨⟨sound.heap, ⟨?_, ?_⟩, sound.waiting, sound.routines, sound.incidents⟩,
    ⟨own, fun trap member => (placed trap member).1, activity⟩, ⟨?_, fun place low => ?_⟩, fits, ?_,
    rfl, rfl, logs_of_eq rfl⟩
  · rw [activity]
    exact sound.fiber.activity.push entered under placed
  · show (machine.fiber.stack.enter callee).size ≤ (machine.fiber.stack.enter callee).maxSlots
    rw [Stack.size_enter, Stack.maxSlots_enter]
    exact Nat.max_le.mpr ⟨sound.fiber.room, entered.room⟩
  · show machine.fiber.stack.size ≤ (machine.fiber.stack.enter callee).size
    rw [Stack.size_enter]
    exact Nat.le_max_left _ _
  · exact Stack.slot_enter _ callee (Nat.lt_of_lt_of_le low fits)
  · show callee.top ≤ (machine.fiber.stack.enter callee).size
    rw [Stack.size_enter]
    exact Nat.le_max_right _ _

theorem Enters.returns (enters : machine.Enters manners callee next)
    (returns : next.Returns manners .all last) : machine.Enters manners callee last where
  sound := returns.keeps.sound
  activity := by
    obtain ⟨own, placed, activity⟩ := enters.activity
    exact ⟨own, placed, returns.keeps.activity.trans activity⟩
  slots := enters.slots.trans (returns.keeps.slots.of_all _)
  room := enters.room
  window := Nat.le_trans enters.window returns.keeps.slots.size_le
  waiting := returns.keeps.waiting.trans enters.waiting
  reporting := returns.keeps.reporting.trans enters.reporting
  logs := enters.logs.trans enters.waiting enters.reporting returns.logs

/-- A generator that gives up its traps stays one of its function. -/
theorem Sound.changeGenerator (sound : machine.Sound) (ref : Ref .generator)
    {change : Generator → Generator}
    (closure : ∀ generator, (change generator).closure = generator.closure)
    (ip : ∀ generator, (change generator).ip = generator.ip)
    (traps : ∀ generator, (change generator).traps = []) :
    { machine with heap := machine.heap.modify ref change }.Sound := by
  refine sound.setHeap (machine.heap.follows_modify_generator ref change closure) ?_
  refine sound.heap.fits_modify fun generator found => ?_
  obtain ⟨function, held, fits⟩ := sound.heap ref generator found
  refine ⟨function, (closure generator).symm ▸ held, (ip generator).symm ▸ fits.ip, ?_⟩
  rw [traps]
  simp

end Machine

namespace Exec

open Machine

variable {manners : Manners} {machine : Machine} {engine : Engine} {given : Activity → Prop}

/-! ## Script functions -/

theorem meets_pushFrame (sound : machine.Sound) (extent : Extent) (callee : Frame) :
    (pushFrame callee).Meets machine
      (fun _ next => next = machine.mapStack (·.enter callee) ∧
        callee.top ≤ machine.fiber.stack.maxSlots)
      (machine.Fails manners extent) (fun _ => False) := by
  cases room : machine.fiber.stack.admitsFrame callee with
  | false =>
      have result : pushFrame callee machine =
          .error (.raised .stackOverflow) (machine.record .stackOverflow) := by
        simp [pushFrame, requireRoom, ofFiber, bind, EStateM.bind, room, raise]
      rw [Meets, result]
      exact sound.fails (machine.allowed_incident rfl .raised)
  | true =>
      have result : pushFrame callee machine = .ok () (machine.mapStack (·.enter callee)) := by
        simp [pushFrame, requireRoom, ofFiber, bind, EStateM.bind, room, pure, EStateM.pure,
          onStack]
      rw [Meets, result]
      refine ⟨rfl, ?_⟩
      simp only [Stack.admitsFrame, Stack.fits, Bool.and_eq_true, decide_eq_true_eq] at room
      exact room.2

theorem Direct.prepareArguments (routine : Routine) (base count : Nat) :
    Direct manners (.below base) (Exec.prepareArguments routine base count) := by
  have collect : Direct manners (.below base) (if routine.isVariadic then do
      let extra ← Exec.takeRange (base + (routine.parameterCount - 1)) (base + count)
      Exec.setPlace (base + (routine.parameterCount - 1)) (← Exec.newArray extra)
    else Pure.pure ()) := by
    split
    · exact (takeRange (Nat.le_add_right _ _) _).bind fun _ => (newArray _).bind fun _ =>
        setPlace (Nat.le_add_right _ _) _
    · exact pure ()
  rw [Exec.prepareArguments]
  split
  · exact collect
  · exact (raise rfl).bind fun _ => collect

theorem meets_enterClosure (manners : Manners) (sound : machine.Sound) {base : Nat}
    (fits : base ≤ machine.fiber.stack.size) (under : machine.fiber.activity.Under base)
    (ref : Ref .closure) (count : Nat) (target : Option UInt8) (isRoot : Bool) :
    (enterClosure ref base count target isRoot).Meets machine
      (fun _ next => ∃ callee, callee.base = base ∧ callee.target = target ∧
        callee.isRoot = isRoot ∧ callee.generator = none ∧ machine.Enters manners callee next)
      (machine.Fails manners (.below base)) (fun _ => False) := by
  have closure := sound.heap.closure ref
  refine Meets.read_bind ?_
  have prepared : Direct manners (.below base) _ :=
    .prepareArguments (machine.heap.get ref : Closure).routine base count
  refine (prepared machine sound fits).bind fun _ prepared ⟨returns, _⟩ => ?_
  let callee : Frame :=
    { ref, closure := machine.heap.get ref, ip := 0, base, target, isRoot }
  refine ((meets_pushFrame returns.keeps.sound (.below base) callee).mono (fun _ _ => id)
    (fun _ _ => returns.fails) fun _ => id).bind ?_
  rintro _ next ⟨rfl, room⟩
  have under : prepared.fiber.activity.Under callee.base := by
    rw [returns.keeps.activity]
    exact under
  have noTraps : ∀ trap ∈ ([] : List Trap),
      trap.frame = prepared.fiber.stack.depth ∧ trap.Guards callee := by simp
  have entered : prepared.Enters manners callee (prepared.mapStack (·.enter callee)) :=
    returns.keeps.sound.enters ⟨closure, Nat.zero_le _, room, by simp [callee]⟩ under
      (Nat.le_trans fits returns.keeps.slots.1) noTraps
  refine ⟨callee, rfl, rfl, rfl, rfl, ?_⟩
  exact returns.enters (Nat.le_refl _) fits
    (entered.returns (entered.sound.alike ⟨rfl, rfl, .refl _ _, id, rfl, rfl, rfl, rfl⟩))

/-! ## Generator functions -/

theorem meets_createGenerator (sound : machine.Sound) {base : Nat}
    (fits : base ≤ machine.fiber.stack.size) {ref : Ref .closure} {closure : Closure}
    (held : machine.heap.get? ref = some closure) (count : Nat) :
    (createGenerator ref base count).Meets machine
      (fun _ => machine.Returns manners (.below base)) (machine.Fails manners (.below base))
      (fun _ => False) := by
  refine Meets.read_bind ?_
  rw [Heap.get_of_get?_eq_some held]
  have taken : Direct manners (.below base) (do
      prepareArguments closure.routine base count
      takeRange base (base + closure.routine.parameterCount)) :=
    (Direct.prepareArguments _ base count).bind fun _ => .takeRange (Nat.le_refl _) _
  have same : (do
      prepareArguments closure.routine base count
      let arguments ← takeRange base (base + closure.routine.parameterCount)
      let rest := Array.replicate (closure.routine.stackSize - arguments.size) Value.null
      let generator ← alloc ({ closure := ref, window := arguments ++ rest } : Generator)
      Exec.count fun counters => { counters with generators := counters.generators + 1 }
      return Value.generator generator) = (do
      let arguments ← (do
        prepareArguments closure.routine base count
        takeRange base (base + closure.routine.parameterCount))
      let rest := Array.replicate (closure.routine.stackSize - arguments.size) Value.null
      let generator ← alloc ({ closure := ref, window := arguments ++ rest } : Generator)
      Exec.count fun counters => { counters with generators := counters.generators + 1 }
      return Value.generator generator : Exec Value) := (bind_assoc ..).symm
  rw [same]
  refine (taken machine sound fits).bind fun arguments next ⟨returns, inert⟩ => ?_
  have held : next.heap.get? ref = some closure := (inert.get?_eq rfl ref).trans held
  let window := arguments ++ Array.replicate (closure.routine.stackSize - arguments.size) Value.null
  have created : next.Returns manners (.below base)
      { next with heap := (@Heap.alloc .generator next.heap { closure := ref, window }).2 } :=
    Keeps.setHeap (returns.keeps.sound.alloc ⟨closure, held, Nat.zero_le _, by simp⟩)
  exact returns.trans (created.trans
    (created.keeps.sound.alike ⟨rfl, rfl, .refl _ _, id, rfl, rfl, rfl, rfl⟩))

/-! ## Host functions -/

theorem Steady.callNative (natives : engine.SteadyNatives manners)
    (calm : ∀ activity, given activity → activity.Calm manners) (ref : Ref .native)
    (base count : Nat) :
    Steady manners .all given (Exec.callNative engine ref base count) := by
  refine (view _).bind fun native => (view _).bind fun arguments => ?_
  refine (Direct.ofPlain (native.plain_checkArguments _)).steady.bind fun _ => ?_
  refine (view _).bind fun former => (view _).bind fun active => ?_
  have run : Steady manners .all given (do
      Exec.onFiber fun fiber =>
        { fiber with
          nativeCalls := fiber.nativeCalls + 1
          natives := ⟨ref, base, count⟩ :: fiber.natives
          counters := { fiber.counters with nativeCalls := fiber.counters.nativeCalls + 1 } }
      Exec.ensuring (·.mapFiber fun fiber =>
        { fiber with nativeCalls := fiber.nativeCalls - 1, natives := fiber.natives.tail })
        (engine.native native.symbol)) := by
    intro machine ready _ holds
    refine Meets.onFiber_bind ?_
    let entered := machine.mapFiber fun fiber =>
      { fiber with
        nativeCalls := fiber.nativeCalls + 1
        natives := ⟨ref, base, count⟩ :: fiber.natives
        counters := { fiber.counters with nativeCalls := fiber.counters.nativeCalls + 1 } }
    have sound : entered.Ready := ready.changeFiber rfl rfl
    have back : ∀ {next}, entered.Keeps .all next → machine.Keeps .all (next.mapFiber fun fiber =>
        { fiber with nativeCalls := fiber.nativeCalls - 1, natives := fiber.natives.tail }) := by
      intro next keeps
      refine ⟨keeps.sound.changeFiber rfl rfl, ?_, keeps.slots, keeps.waiting, keeps.reporting⟩
      exact congrArg (fun activity : Activity =>
        { activity with
          nativeCalls := activity.nativeCalls - 1, natives := activity.natives.tail })
        keeps.activity
    have calm : entered.fiber.activity.Calm manners := calm machine.fiber.activity holds
    have called := natives native.symbol entered sound trivial ⟨List.cons_ne_nil _ _, calm⟩
    refine (called.mono (fun _ _ => id) (fun _ _ => id) fun _ reaches => ?_).ensuring
      (fun _ next returns => ⟨back returns.keeps, returns.logs.same rfl⟩)
      fun fault next fails => ⟨back fails.keeps, fails.pends.settle rfl fun raised remains => ?_⟩
    · exact ⟨reaches.ready, reaches.logs⟩
    · exact remains.same rfl rfl (fun _ _ _ _ => rfl) rfl id
  split
  · exact (raise rfl).bind fun _ => run
  · exact run

/-! ## Classes -/

theorem Steady.construct (calls : engine.SteadyCalls manners) {base : Nat}
    (placed : ∀ activity, given activity → activity.Calm manners ∧ activity.Under base)
    (ref : Ref .cls) (count : Nat) :
    Steady manners (.below base) given (Exec.construct engine ref base count) := by
  refine Steady.bind ?_ fun object => (view _).bind fun cls => ?_
  · exact operation calls (fun _ holds => (placed _ holds).1) (.instantiate ref)
  · split
    · exact pure _
    · refine (Direct.setPlace (Nat.le_refl _) _).steady.bind fun _ =>
        (holding _ (discard ?_)).bind fun _ => pure _
      exact (calls _ base count).mono placed

/-! ## Calls of all values -/

theorem meets_callValue (calls : engine.SteadyCalls manners)
    (natives : engine.SteadyNatives manners) (ready : machine.Ready) {base : Nat}
    (fits : base ≤ machine.fiber.stack.size) (calm : machine.fiber.activity.Calm manners)
    (under : machine.fiber.activity.Under base) (callee : Value) (count : Nat)
    (target : Option UInt8) (isRoot : Bool) :
    (callValue engine callee base count target isRoot).Meets machine
      (fun start next => match start with
        | .pushed => ∃ frame, frame.base = base ∧ frame.target = target ∧
            frame.isRoot = isRoot ∧ machine.Enters manners frame next
        | .done _ | .suspend _ => machine.Returns manners (.below base) next)
      (machine.Fails manners (.below base)) (machine.Reaches manners) := by
  cases callee with
  | closure ref =>
      refine Meets.read_bind ?_
      split
      · rename_i isGenerator
        cases held : machine.heap.get? ref with
        | none =>
            rw [Heap.get, held] at isGenerator
            exact absurd isGenerator (by decide)
        | some closure =>
            exact ((meets_createGenerator ready.sound fits held count).mono (fun _ _ => id)
              (fun _ _ => id) fun _ => False.elim).bind fun _ _ returns => returns
      · refine ((meets_enterClosure manners ready.sound fits under ref count target isRoot).mono
          (fun _ _ => id) (fun _ _ => id) fun _ => False.elim).bind fun _ _ entered => ?_
        obtain ⟨callee, window, target, isRoot, _, enters⟩ := entered
        exact ⟨callee, window, target, isRoot, enters⟩
  | native ref =>
      have called := (Steady.callNative natives (fun _ => id) ref base count).of_all (.below base)
      refine (called machine ready fits calm).bind fun result next returns => ?_
      cases result with
      | value | nothing | suspend => exact returns
  | cls ref =>
      have built : Steady manners (.below base)
          (fun activity => activity.Calm manners ∧ activity.Under base) _ :=
        .construct calls (fun _ => id) ref count
      exact (built machine ready fits ⟨calm, under⟩).bind fun _ _ returns => returns
  | _ =>
      refine Meets.ok_bind rfl ?_
      cases machine.heap.hook? _ .call with
      | none => exact ready.sound.fails (machine.allowed_incident rfl .raised)
      | some handler =>
          refine Meets.ofFiber_bind ?_
          have called : ∀ this arguments, Steady manners (.below base) (Activity.Calm manners)
              (engine.callSync handler this arguments) := .callSync calls (fun _ => id) handler
          exact (called _ _ machine ready fits calm).bind fun _ _ returns => returns

/-! ## Generators -/

/-- The window and the frame of a generator are added together. -/
theorem meets_pushGenerator (manners : Manners) (sound : machine.Sound) (window : Array Value)
    (callee : Frame) (base : callee.base = machine.fiber.stack.size) :
    (window.forM push >>= fun _ => pushFrame callee).Meets machine
      (fun _ next => ∃ pushed, machine.Returns manners (.below callee.base) pushed ∧
        machine.heap.Inert pushed.heap ∧ next = pushed.mapStack (·.enter callee) ∧
        callee.top ≤ pushed.fiber.stack.maxSlots)
      (machine.Fails manners (.below callee.base)) (fun _ => False) := by
  have windowed : Direct manners (.below callee.base) (window.forM push) := by
    rw [forM_array]
    exact .forM .push
  refine (windowed machine sound (Nat.le_of_eq base)).bind fun _ pushed ⟨returns, inert⟩ => ?_
  refine (meets_pushFrame returns.keeps.sound (.below callee.base) callee).mono ?_
    (fun _ _ => returns.fails) fun _ => id
  exact fun _ next ⟨same, room⟩ => ⟨pushed, returns, inert, same, room⟩

theorem meets_resumeInto (manners : Manners) (ready : machine.Ready) (ref : Ref .generator)
    (target : Option UInt8) (isRoot : Bool) :
    (resumeInto ref target isRoot).Meets machine
      (fun _ next => ∃ callee, callee.base = machine.fiber.stack.size ∧ callee.target = target ∧
        callee.isRoot = isRoot ∧ machine.Enters manners callee next)
      (machine.Fails manners .all) (fun _ => False) := by
  have sound := ready.sound
  refine Meets.read_bind ?_
  cases found : machine.heap.get? ref with
  | none =>
      have dead : (machine.heap.get ref : Generator).state = .dead := by
        rw [Heap.get, found]
        rfl
      rw [dead]
      exact sound.fails (machine.allowed_incident rfl .raised)
  | some generator =>
      rw [Heap.get_of_get?_eq_some found]
      obtain ⟨closure, held, fits⟩ := sound.heap ref generator found
      cases generator.state with
      | running => exact sound.fails (machine.allowed_incident rfl .raised)
      | dead => exact sound.fails (machine.allowed_incident rfl .raised)
      | suspended =>
          dsimp only
          refine Meets.read_bind ?_
          rw [Heap.get_of_get?_eq_some held]
          refine Meets.ofFiber_bind (Meets.ok_bind rfl ?_)
          let entered : Machine :=
            { machine with heap := machine.heap.modify ref Generator.entered }
          have entering : machine.Returns manners (.below machine.fiber.stack.size) entered :=
            Keeps.setHeap (sound.changeGenerator ref (fun _ => rfl) (fun _ => rfl) fun _ => rfl)
          let callee : Frame :=
            { ref := generator.closure, closure, ip := generator.ip
              base := machine.fiber.stack.size, target, isRoot, generator := some ref }
          refine (meets_pushGenerator manners entering.keeps.sound generator.window callee
            rfl).attempt_bind ?_ fun fault next fails => ?_
          · rintro _ _ ⟨pushed, returns, inert, rfl, room⟩
            have runs : machine.heap.Runs ref closure.routine := by
              refine ⟨Heap.lt_size_of_get?_eq_some found, fun other same => ?_⟩
              obtain rfl := Option.some.inj (found.symm.trans same)
              exact ⟨closure, held, rfl⟩
            have runs : entered.heap.Runs ref closure.routine :=
              (machine.heap.follows_modify_generator ref Generator.entered fun _ => rfl).runs runs
            have returns : machine.Returns manners (.below callee.base) pushed :=
              entering.trans returns
            have frameSound : callee.SoundIn pushed.heap pushed.fiber.stack.maxSlots := by
              refine ⟨sound.heap generator.closure closure held, fits.ip, room,
                fun other same => ?_⟩
              obtain rfl := Option.some.inj same
              exact inert.runs runs
            have under : pushed.fiber.activity.Under callee.base := by
              rw [returns.keeps.activity]
              exact fun frame current =>
                Nat.le_trans (Nat.le_add_right _ _) (ready.shaped frame current)
            have placed : ∀ trap ∈ generator.traps.map fun trap =>
                ({ frame := (pushed.fiber.stack.enter callee).depth - 1, ip := trap.ip
                   stackTop := machine.fiber.stack.size + trap.offset
                   target := trap.target } : Trap),
                trap.frame = pushed.fiber.stack.depth ∧ trap.Guards callee := by
              intro trap member
              obtain ⟨saved, listed, rfl⟩ := List.mem_map.mp member
              obtain ⟨ip, register, window⟩ := fits.traps saved listed
              refine ⟨?_, ip, register, Nat.add_le_add_left window _⟩
              simp [Stack.depth]
            have enters : pushed.Enters manners callee _ :=
              returns.keeps.sound.enters frameSound under returns.keeps.slots.1 placed
            refine ⟨callee, rfl, rfl, rfl, returns.enters (Nat.le_refl _) (Nat.le_refl _) ?_⟩
            exact enters.returns (enters.sound.alike ⟨rfl, rfl, .refl _ _, id, rfl, rfl, rfl, rfl⟩)
          · have fails := entering.fails fails
            refine Meets.ok_bind rfl (Meets.ok_bind rfl ?_)
            refine ⟨⟨(fails.keeps.sound.truncate _).changeGenerator ref (fun _ => rfl)
              (fun _ => rfl) fun _ => rfl, fails.keeps.activity, ?_, fails.keeps.waiting,
              fails.keeps.reporting⟩, fails.pends.settle rfl fun raised remains => ?_⟩
            · exact Extent.same_truncate fails.keeps.slots.1 fails.keeps.slots.2
            · have cut : raised.Remains (next.mapStack (·.truncate machine.fiber.stack.size)) := by
                refine remains.same rfl rfl (fun frame current place low => ?_) rfl id
                rw [fails.keeps.current] at current
                exact Stack.get_truncate _ (Nat.lt_of_lt_of_le low (ready.shaped frame current))
              exact cut.kill ref

end Exec

end ScriptMachine
