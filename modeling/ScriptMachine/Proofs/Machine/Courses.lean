import ScriptMachine.Proofs.Machine.Course

/-!
# Whatever the machine runs takes a course

Calls, run loops, entries, threads and the host functions that use them are parts of a run as
`Machine.Course` describes them, from whatever machine they start and however they end.  There is
one lemma for each computation of the machine, and one for each means that host functions are
offered.
-/

namespace ScriptMachine

open Exec

variable {α β : Type}

/-! ## Parts of a run -/

/-- From a machine the computation is a part of a run. -/
def Exec.CourseAt (checked : Prop) (doer : Doer) (action : Exec α) (machine : Machine) : Prop :=
  machine.Course checked (.work doer) (action.ending machine) (action.after machine)

/-- From every machine the computation is a part of a run. -/
def Exec.Courses (checked : Prop) (doer : Doer) (action : Exec α) : Prop :=
  ∀ machine, action.CourseAt checked doer machine

namespace Exec

variable {machine next : Machine} {action : Exec α} {fault : Fault}

theorem ending_of_eq_ok {value : α} (result : action machine = .ok value next) :
    action.ending machine = .done := by
  rw [ending, result]

theorem ending_of_raised (result : action machine = .error (.raised fault) next) :
    action.ending machine = .failed fault := by
  rw [ending, result]

theorem ending_of_exhausted (result : action machine = .error .exhausted next) :
    action.ending machine = .cut := by
  rw [ending, result]

theorem ending_congr {action' : Exec α} (same : action machine = action' next) :
    action.ending machine = action'.ending next := by
  rw [ending, ending, same]

theorem after_congr {action' : Exec α} (same : action machine = action' next) :
    action.after machine = action'.after next := by
  rw [after, after, same]

theorem ending_ensuring (restore : Machine → Machine) (action : Exec α) (machine : Machine) :
    (ensuring restore action).ending machine = action.ending machine := by
  rw [ending, ending, ensuring]
  cases action machine with
  | ok value next => rfl
  | error stop next =>
      cases stop with
      | raised | exhausted => rfl

theorem after_ensuring (restore : Machine → Machine) (action : Exec α) (machine : Machine) :
    (ensuring restore action).after machine =
      (action.ending machine).settle restore (action.after machine) := by
  rw [after, after, ending, ensuring]
  cases action machine with
  | ok value next => rfl
  | error stop next =>
      cases stop with
      | raised | exhausted => rfl

/-- What is put right by what follows is put right however the computation ends. -/
theorem attempt_bind_modify (body : Exec β) (restore : Machine → Machine)
    (following : Except Fault β → Exec α) (machine : Machine) :
    (attempt body >>= fun result => (modify restore : Exec Unit) >>= fun _ => following result)
        machine =
      (attempt (ensuring restore body) >>= following) machine := by
  cases result : body machine with
  | ok value next =>
      have left : attempt body machine = .ok (.ok value) next := by rw [attempt, result]
      have right : attempt (ensuring restore body) machine = .ok (.ok value) (restore next) := by
        rw [attempt, ensuring, result]
      rw [ok_bind left, ok_bind right]
      rfl
  | error stop next =>
      cases stop with
      | raised fault =>
          have left : attempt body machine = .ok (.error fault) next := by rw [attempt, result]
          have right : attempt (ensuring restore body) machine =
              .ok (.error fault) (restore next) := by
            rw [attempt, ensuring, result]
          rw [ok_bind left, ok_bind right]
          rfl
      | exhausted =>
          have left : attempt body machine = .error .exhausted next := by rw [attempt, result]
          have right : attempt (ensuring restore body) machine = .error .exhausted next := by
            rw [attempt, ensuring, result]
          rw [error_bind left, error_bind right]

end Exec

namespace Exec.CourseAt

open Machine

variable {checked : Prop} {doer : Doer} {machine next : Machine} {action : Exec α}

theorem goes (goes : machine.Goes checked (action.after machine)) :
    action.CourseAt checked doer machine := Course.goes _ goes

theorem congr {action' : Exec α} (same : action machine = action' machine)
    (course : action'.CourseAt checked doer machine) : action.CourseAt checked doer machine := by
  rw [CourseAt, ending_congr same, after_congr same]
  exact course

/-- What has been done first comes before what is done then. -/
theorem bind {first : Exec β} {following : β → Exec α} (here : first.CourseAt checked doer machine)
    (further : ∀ value next, first machine = .ok value next →
      (following value).CourseAt checked doer next) :
    (first >>= following).CourseAt checked doer machine := by
  rw [CourseAt] at here ⊢
  cases result : first machine with
  | ok value next =>
      rw [ending_of_eq_ok result, after_of_eq_ok result] at here
      rw [ending_congr (ok_bind result), after_congr (ok_bind result)]
      exact .joined here (by simp) (further value next result)
  | error stop next =>
      rw [ending, result, after_of_eq_error result] at here
      rw [ending, error_bind result, after_of_eq_error (error_bind result)]
      cases stop with
      | raised | exhausted => exact here

theorem view_bind {look : Machine → β} {following : β → Exec α}
    (rest : (following (look machine)).CourseAt checked doer machine) :
    ((fun machine => .ok (look machine) machine : Exec β) >>= following).CourseAt checked doer
      machine := rest

/-- A fault that has been raised is not followed by anything. -/
theorem raise_bind (fault : Fault) (following : β → Exec α) :
    (raise fault >>= following).CourseAt checked doer machine :=
  goes (show machine.Goes checked (machine.record fault) from Along.raise (α := Unit) fault machine)

theorem attempt (course : action.CourseAt checked doer machine) :
    (Exec.attempt action).CourseAt checked doer machine := by
  rw [CourseAt] at course ⊢
  rw [after_attempt, ending, Exec.attempt]
  rw [ending] at course
  cases result : action machine with
  | ok value next =>
      rw [result] at course
      exact course
  | error stop next =>
      rw [result] at course
      cases stop with
      | raised fault =>
          -- The fault is a result now.
          exact .joined course (by simp) (.goes .done (refl_of _ _))
      | exhausted => exact course

end Exec.CourseAt

namespace Exec.Courses

open Machine

variable {checked : Prop} {doer : Doer} {action : Exec α}

theorem goes (along : Along (Goes checked) action) : Courses checked doer action :=
  fun machine => .goes (along machine)

theorem loud (travels : Travels checked action) (touching : Along Touches action)
    (tallying : Along (Tallying checked) action) : Courses checked doer action :=
  goes fun machine => ⟨travels machine, touching machine, tallying machine⟩

theorem bind {first : Exec β} {following : β → Exec α} (here : Courses checked doer first)
    (further : ∀ value, Courses checked doer (following value)) :
    Courses checked doer (first >>= following) :=
  fun machine => (here machine).bind fun value next _ => further value next

theorem view (look : Machine → α) :
    Courses checked doer fun machine => .ok (look machine) machine := goes (.view look)

theorem pure (value : α) : Courses checked doer (Pure.pure value : Exec α) := view fun _ => value

theorem raise (fault : Fault) : Courses checked doer (Exec.raise fault : Exec α) :=
  goes (.raise fault)

theorem passOn (fault : Fault) : Courses checked doer (Exec.passOn fault : Exec α) :=
  goes (.passOn fault)

theorem exhaust : Courses checked doer (Exec.exhaust : Exec α) := goes .exhaust

theorem attempt (courses : Courses checked doer action) :
    Courses checked doer (Exec.attempt action) :=
  fun machine => (courses machine).attempt

theorem map (courses : Courses checked doer action) (image : α → β) :
    Courses checked doer (image <$> action) := by
  have same : image <$> action = action >>= fun value => Pure.pure (image value) :=
    map_eq_pure_bind ..
  rw [same]
  exact courses.bind fun value => pure (image value)

theorem discard (courses : Courses checked doer action) :
    Courses checked doer (Functor.discard action) := courses.map _

/-- What is put right afterwards goes along. -/
theorem ensuring {restore : Machine → Machine} (courses : Courses checked doer action)
    (back : ∀ machine : Machine, machine.Goes checked (restore machine)) :
    Courses checked doer (Exec.ensuring restore action) := by
  intro machine
  have here := courses machine
  rw [CourseAt] at here ⊢
  rw [ending_ensuring, after_ensuring]
  cases ending : action.ending machine with
  | cut =>
      rw [ending] at here
      exact here
  | done | failed =>
      rw [ending] at here
      exact .joined here (by simp) (.goes _ (back _))

theorem keeping (indices : List Nat) (courses : Courses checked doer action) :
    Courses checked doer (Exec.keeping indices action) := by
  refine (view _).bind fun machine => .bind (goes ?_) fun _ => courses.ensuring fun next => ?_
  · exact .change fun machine => Overlooks.aside machine (indices ++ machine.held) machine.routines
      machine.printed machine.handler
  · exact Overlooks.aside next machine.held next.routines next.printed next.handler

end Exec.Courses

/-! ## Brackets -/

namespace Exec.CourseAt

open Machine

variable {checked : Prop} {doer : Doer} {machine : Machine} {action : Exec α}

theorem native {body : Exec α} (call : NativeFrame)
    (room : machine.fiber.nativeCalls < machine.limits.nativeCalls)
    (same : action machine = Exec.ensuring leaveNative body (machine.enterNative call))
    (course : body.CourseAt checked .host (machine.enterNative call)) :
    action.CourseAt checked doer machine := by
  rw [CourseAt, ending_congr same, after_congr same, ending_ensuring, after_ensuring]
  exact .native call room course

theorem looped {body : Exec α} (room : machine.fiber.nativeCalls < machine.limits.nativeCalls)
    (same : action machine = Exec.ensuring unnested body machine.nested)
    (course : body.CourseAt checked .script machine.nested) :
    action.CourseAt checked doer machine := by
  rw [CourseAt, ending_congr same, after_congr same, ending_ensuring, after_ensuring]
  exact .looped room course

theorem awaited {body : Exec α}
    (same : action machine = Exec.ensuring unawaiting body machine.awaiting)
    (course : body.CourseAt checked .script machine.awaiting) :
    action.CourseAt checked doer machine := by
  rw [CourseAt, ending_congr same, after_congr same, ending_ensuring, after_ensuring]
  exact .awaited course

end Exec.CourseAt

/-! ## Calls -/

/-- Whatever the engine runs takes a course. -/
structure Engine.Courses (checked : Prop) (engine : Engine) : Prop where
  /-- Calls that wait for their result. -/
  calls : ∀ {doer : Doer} callee base count,
    Exec.Courses checked doer (engine.callAt callee base count)
  /-- Run loops. -/
  runs : ∀ {doer : Doer} root, Exec.Courses checked doer (engine.runFrames root)
  /-- Host functions. -/
  natives : ∀ symbol, Exec.Courses checked .host (engine.native symbol)
  /-- A run loop suspends the fiber only when nothing else is active in it. -/
  alone : ∀ {root value machine next}, engine.runFrames root machine = .ok (.suspended value) next →
    next.fiber.isOutermost = true

theorem Engine.Courses.spent {checked : Prop} : Engine.spent.Courses checked where
  calls _ _ _ := .exhaust
  runs _ := .exhaust
  natives _ := .exhaust
  alone suspends := by cases suspends

namespace Exec.Courses

open Machine

variable {checked : Prop} {doer : Doer}

section

variable {engine : Engine} (courses : engine.Courses checked)

include courses

omit courses in
theorem resumeInto (ref : Ref .generator) (target : Option UInt8) {machine : Machine}
    (poised : checked → machine.Poised) :
    (Exec.resumeInto ref target false).CourseAt checked doer machine :=
  .goes ⟨Travels.resumeInto ref target false machine, Touching.resumeInto ref target false machine,
    Tallying.resumeInto ref target false fun wanted _ => (poised wanted).exists_used⟩

omit courses in
/-- A frame that ends its run loop may stand anywhere. -/
theorem resumeRoot (ref : Ref .generator) :
    Courses checked doer (Exec.resumeInto ref none true) :=
  loud (.resumeInto ref none true) (Touching.resumeInto ref none true)
    fun _ => Tallying.resumeInto ref none true fun _ inner => absurd inner (by decide)

theorem callSync (callee this : Value) (arguments : List Value) :
    Courses checked doer (engine.callSync callee this arguments) := by
  refine keeping _ ((view _).bind fun base => ensuring ?_ (Along.truncate base))
  exact (goes (.pushArguments this arguments)).bind fun _ => courses.calls callee base _

theorem operates {action : Exec α} (operates : engine.Operates action) :
    Courses checked doer action := by
  induction operates with
  | change result plain inert =>
      refine goes fun machine => ?_
      rw [after, Exec.exchange]
      cases made : result machine with
      | error fault => exact Along.raise (α := Unit) fault machine
      | ok made' =>
          obtain ⟨value, heap⟩ := made'
          exact Overlooks.heap machine heap (inert machine value heap made).spares
  | bind _ _ first further => exact first.bind further
  | keeping indices _ ih => exact keeping indices ih
  | callSync callee this arguments => exact callSync courses callee this arguments

theorem operation {action : Exec α} (parallel : engine.Parallel engine action action) :
    Courses checked doer action := operates courses parallel.operates

theorem callNative (ref : Ref .native) (base count : Nat) :
    Courses checked doer (Exec.callNative engine ref base count) := by
  refine (view _).bind fun native => (view _).bind fun arguments =>
    (goes (.ofExcept _)).bind fun _ machine => .view_bind (.view_bind ?_)
  dsimp only
  split
  · exact .raise_bind _ _
  · rename_i room
    exact .native ⟨ref, base, count⟩ (Nat.lt_of_not_le room) rfl (courses.natives _ _)

theorem construct (ref : Ref .cls) (base count : Nat) :
    Courses checked doer (Exec.construct engine ref base count) := by
  refine (operation courses (.instantiate ref)).bind fun object => (view _).bind fun cls => ?_
  split
  · exact .pure _
  · refine (goes (.setPlace _ _)).bind fun _ => .bind ?_ fun _ => .pure _
    exact keeping _ (courses.calls _ base count).discard

theorem callValue (callee : Value) (base count : Nat) (target : Option UInt8) (isRoot : Bool) :
    Courses checked doer (Exec.callValue engine callee base count target isRoot) := by
  cases callee with
  | closure ref =>
      refine fun machine => .view_bind ?_
      split
      · rename_i generates
        obtain ⟨closure, held⟩ := Travels.exists_of_isGenerator generates
        refine .bind (.goes ⟨?_, ?_, ?_⟩) fun _ _ _ => pure _ _
        · exact Travels.createGenerator held base count
        · exact Touching.createGenerator ref base count machine
        · exact Tallying.createGenerator held base count
      · exact goes ((Along.enterClosure ref base count target isRoot).bind fun _ => .pure _) machine
  | native ref =>
      refine (callNative courses ref base count).bind fun returned => ?_
      cases returned with
      | value | nothing | suspend => exact .pure _
  | cls ref => exact (construct courses ref base count).bind fun _ => .pure _
  | _ =>
      refine (view _).bind fun handler => ?_
      cases handler with
      | none => exact goes (.raise _)
      | some handler =>
          exact (view _).bind fun _ => (callSync courses _ _ _).bind fun _ => .pure _

omit courses in
/-- A call that waits for its result is counted until it has one. -/
theorem awaiting {body : Exec β} {following : Except Fault β → Exec α}
    (courses : Courses checked .script body)
    (further : ∀ result, Courses checked doer (following result)) :
    Courses checked doer (do
      Exec.onFiber fun fiber => { fiber with syncCalls := fiber.syncCalls + 1 }
      let result ← Exec.attempt body
      Exec.onFiber fun fiber => { fiber with syncCalls := fiber.syncCalls - 1 }
      following result) := by
  intro machine
  let waits : Exec β := fun machine => Exec.ensuring unawaiting body machine.awaiting
  have waited : (Exec.attempt waits >>= following).CourseAt checked doer machine :=
    .bind (.attempt (.awaited rfl (courses _))) fun result next _ => further result next
  refine .congr ?_ waited
  rw [ok_bind (show Exec.onFiber _ machine = .ok () machine.awaiting from rfl)]
  exact attempt_bind_modify body unawaiting following machine.awaiting

omit courses in
/-- Then registers are put right, and the result is handed on. -/
theorem handOn (size : Nat) (result : Except Fault Outcome) : Courses checked doer (do
    Exec.resize size
    match ← Exec.ofResult result with
    | .completed value => return value
    | .suspended _ => Exec.raise .nestedSuspension : Exec Value) := by
  refine (goes (.resize size)).bind fun _ => (goes (.ofResult result)).bind fun outcome => ?_
  cases outcome with
  | completed value => exact pure value
  | suspended value => exact raise _

theorem callAt (callee : Value) (base count : Nat) :
    Courses checked doer (Exec.callAt engine callee base count) := by
  refine (view _).bind fun size => (view _).bind fun root => awaiting ?_ fun result =>
    handOn size result
  refine (callValue courses callee base count none true).bind fun start => ?_
  cases start with
  | pushed => exact courses.runs _
  | done value => exact pure _
  | suspend value => exact raise _

theorem resumeGenerator (ref : Ref .generator) :
    Courses checked doer (Exec.resumeGenerator engine ref) := by
  refine (view _).bind fun size => (view _).bind fun root => awaiting ?_ fun result =>
    handOn size result
  exact (resumeRoot ref).bind fun _ => courses.runs _

/-! ### Captured variables -/

theorem captureCell (creator : Closure) (source : CaptureSource) :
    Courses checked doer (Exec.captureCell .direct engine creator source) := by
  have fresh : ∀ value : Content .cell, Along (Goes checked) (Exec.alloc value) :=
    fun value => .alloc value (by decide) (by decide)
  cases source with
  | register number =>
      rw [Exec.captureCell]
      split
      · exact goes ((Along.raise _).bind fun _ => (Along.register _).bind fresh)
      · exact goes ((Along.register _).bind fresh)
  | outer index => exact goes (.ofExcept _)
  | symbol name =>
      refine (goes (.register 0)).bind fun this =>
        (operation courses (.getSlot _ _)).attempt.bind fun found => ?_
      cases found with
      | ok value => exact goes (fresh value)
      | error cause => exact goes (.replaceFault _ _)

theorem captureCells (creator : Closure) (captures : List Capture) (cells : Array (Ref .cell)) :
    Courses checked doer (Exec.captureCells .direct engine creator captures cells) := by
  induction captures generalizing cells with
  | nil => exact .pure cells
  | cons capture rest ih =>
      exact (keeping _ (captureCell courses creator capture.source)).bind fun _ => ih _

theorem makeClosure (target : UInt8) (index : Int32) :
    Courses checked doer (Exec.makeClosure .direct engine target index) := by
  refine (goes .frame).bind fun current => ?_
  dsimp only
  split
  · exact goes (.raise _)
  · exact (captureCells courses _ _ _).bind fun cells => goes
      ((Along.alloc _ (by decide) (by decide)).bind fun _ => Along.setRegister target _)

/-! ## Instructions -/

omit courses in
theorem toFirst {instruction : Instruction} {value : Exec Value}
    (courses : Courses checked doer value) :
    Courses checked doer (Exec.toFirst .direct instruction value) :=
  courses.bind fun _ => goes (.setRegister _ _)

theorem callInstruction (callee : Value) (instruction : Instruction) :
    Courses checked doer (Exec.callInstruction .direct engine callee instruction) := by
  refine .bind (goes ((Along.view _).bind fun _ => .pure _)) fun base =>
    (callValue courses callee _ _ _ _).bind fun start => ?_
  cases start with
  | pushed => exact .pure _
  | done value => exact goes ((Along.deliverDirect _ _).bind fun _ => .pure _)
  | suspend value =>
      refine (view _).bind fun can => ?_
      split
      · exact (goes (.setSuspended _)).bind fun _ => pure _
      · exact fun _ => .raise_bind _ _

theorem tailCall (callee : Value) (instruction : Instruction) :
    Courses checked doer (Exec.tailCall .direct engine callee instruction) := by
  cases callee with
  | closure ref =>
      refine (view _).bind fun closure => (goes .frame).bind fun current =>
        .bind ?_ fun replaces => ?_
      · exact (view _).bind fun _ => (view _).bind fun _ => pure _
      · split
        · exact goes (.replaceFrame ref instruction)
        · exact callInstruction courses _ _
  | _ => exact callInstruction courses _ _

theorem iterationStep (container cursor : Value) (registers : IterationRegisters)
    (other : ∀ ref, container ≠ .generator ref) :
    Courses checked doer (Exec.iterationStep .direct engine container cursor registers) := by
  cases container with
  | generator ref => exact absurd rfl (other ref)
  | _ => exact operation courses (.iterationStep _ _ _ (by simp))

omit courses in
/-- A window stays in use when a register is assigned. -/
theorem poised_of_setRegister {machine next : Machine} (poised : machine.Poised)
    {number : UInt8} {value : Value}
    (assigned : Exec.setRegister number value machine = .ok () next) : next.Poised := by
  have assigns : (Exec.setPlace (machine.fiber.base + number.toNat) value).Meets machine _ _ _ :=
    meets_setPlace _ value
  change Exec.setPlace (machine.fiber.base + number.toNat) value machine = _ at assigned
  rw [Meets, assigned] at assigns
  subst assigns
  have frames := machine.fiber.stack.frames_put (machine.fiber.base + number.toNat) value
  refine ⟨?_, fun frame current => ?_⟩
  · show 0 < (machine.fiber.stack.put _ value).frames.size
    rw [frames]
    exact poised.above
  have current : (machine.fiber.stack.put _ value).current? = some frame := current
  rw [Stack.current?, frames] at current
  obtain ⟨used, owns⟩ := poised.whole frame current
  refine ⟨Nat.le_trans used ?_, owns⟩
  show _ ≤ (machine.fiber.stack.put _ value).size
  rw [Stack.size_put]
  exact Nat.le_max_left _ _

omit courses in
theorem iterationStep_generator (ref : Ref .generator) (cursor : Value)
    (registers : IterationRegisters) {machine : Machine} (poised : checked → machine.Poised) :
    (Exec.iterationStep .direct engine (.generator ref) cursor registers).CourseAt checked doer
      machine := by
  refine .view_bind ?_
  split
  · exact pure _ machine
  · cases cursor.position with
    | error fault => exact .raise_bind fault _
    | ok position =>
        refine .view_bind ?_
        refine .bind (goes (.setRegister _ _) machine) fun _ keyed assigned => ?_
        refine .bind (goes (.setRegister _ _) keyed) fun _ counted later => ?_
        refine .bind (resumeInto ref _ fun wanted => ?_) fun _ next _ => pure _ next
        exact poised_of_setRegister (poised_of_setRegister (poised wanted) assigned) later

theorem iterate (container first : UInt8) (exit : Int32) {machine : Machine}
    (poised : checked → machine.Poised) :
    (Exec.iterate .direct engine container first exit).CourseAt checked doer machine := by
  refine .view_bind ?_
  cases IterationRegisters.ofFirst first with
  | error fault => exact .raise_bind fault _
  | ok registers =>
      refine .view_bind (.view_bind (.bind ?_ fun step next _ => goes ?_ next))
      · dsimp only
        generalize machine.fiber.stack.get (machine.fiber.base + container.toNat) = operand
        cases operand with
        | generator ref => exact iterationStep_generator ref _ _ poised
        | _ => exact iterationStep courses _ _ _ (by simp) machine
      · cases step with
        | item key value next =>
            exact (Along.setRegister _ _).bind fun _ => (Along.setRegister _ _).bind fun _ =>
              Along.setRegister _ _
        | resumed => exact .pure ()
        | done => exact Along.jump exit

theorem newObject (instruction : Instruction) :
    Courses checked doer (Exec.newObject .direct engine instruction) := by
  rw [Exec.newObject]
  split
  · exact goes ((Along.alloc _ (by decide) (by decide)).bind fun _ => .pure _)
  · exact goes ((Along.alloc _ (by decide) (by decide)).bind fun _ => .pure _)
  · exact operates courses (.newClass _)
  · exact goes (.raise _)

theorem prepareCall (instruction : Instruction) {key : Exec Value}
    (keyed : Along (Goes checked) key) :
    Courses checked doer (Exec.prepareCall .direct engine instruction key) :=
  (goes (.register _)).bind fun _ => (goes keyed).bind fun _ =>
    (operation courses (.getSlot _ _)).bind fun _ =>
      goes ((Along.setRegister _ _).bind fun _ => Along.setRegister _ _)

theorem arithInstruction (op : ArithOp) (instruction : Instruction) :
    Courses checked doer (Exec.arithInstruction .direct engine op instruction) :=
  (goes (.readWide _)).bind fun _ => (goes (.register _)).bind fun _ =>
    toFirst (operation courses (.arith _ _ _))

theorem perform (instruction : Instruction) (fresh : instruction.op ≠ .resume)
    (single : instruction.op ≠ .foreach) :
    Courses checked doer (Exec.perform .direct engine instruction) := by
  have readWide : ∀ wide, Courses checked doer (Access.direct.readWide wide) := fun wide =>
    goes (.readWide wide)
  have register : ∀ number, Courses checked doer (Access.direct.read number) := fun number =>
    goes (.register number)
  have literal : ∀ index, Courses checked doer (Access.direct.literal index) := fun index =>
    goes (.literal index)
  obtain ⟨op, first, wide, second, third⟩ := instruction
  cases op with
  | load => exact toFirst (literal _)
  | loadInt | loadFloat | loadBool => exact goes (.setRegister _ _)
  | loadNulls =>
      exact goes (.bind ((Along.view _).bind fun _ => .pure _) fun _ =>
        (Along.ensure _).bind fun _ => Along.clearRange _ _)
  | loadRoot => exact goes ((Along.view _).bind fun _ => Along.setRegister _ _)
  | move => exact toFirst (readWide _)
  | get =>
      exact (readWide _).bind fun _ => (register _).bind fun _ =>
        toFirst (operation courses (.getSlot _ _))
  | getK =>
      exact (register _).bind fun _ => (literal _).bind fun _ =>
        toFirst (operation courses (.getSlot _ _))
  | set =>
      exact (readWide _).bind fun _ => (register _).bind fun _ => (register _).bind fun _ =>
        (operation courses (.setSlot _ _ _)).bind fun _ => goes (.deliverDirect _ _)
  | newSlot =>
      exact (readWide _).bind fun _ => (register _).bind fun _ => (register _).bind fun _ =>
        (operation courses (.newSlot _ _ _)).bind fun _ => goes (.deliverDirect _ _)
  | delete =>
      exact (readWide _).bind fun _ => (register _).bind fun _ =>
        toFirst (operation courses (.deleteSlot _ _))
  | add | sub | mul | div | mod => exact arithInstruction courses _ _
  | bitw =>
      refine (readWide _).bind fun left => (register _).bind fun right => ?_
      split
      · exact toFirst (goes (.ofExcept _))
      · exact goes (.raise _)
  | neg => exact toFirst ((readWide _).bind fun _ => operation courses (.negate _))
  | not => exact toFirst ((readWide _).bind fun _ => .pure _)
  | cmp =>
      refine (readWide _).bind fun left => (register _).bind fun right => ?_
      split
      · exact toFirst ((operation courses (.order _ _)).bind fun _ => .pure _)
      · exact goes (.raise _)
  | eq | ne => exact toFirst ((goes (.operandsEqual _)).bind fun _ => .pure _)
  | jmp => exact goes (.jump _)
  | jz =>
      refine (register _).bind fun value => ?_
      split
      · exact .pure ()
      · exact goes (.jump _)
  | and | or => exact goes (.shortCircuit _ _)
  | prepCall => exact prepareCall courses _ (.readWide _)
  | prepCallK => exact prepareCall courses _ (.literal _)
  | closure => exact makeClosure courses _ _
  | getOuter => exact (goes (.outerCell _)).bind fun _ => toFirst (view _)
  | setOuter =>
      exact (register _).bind fun _ => goes ((Along.outerCell _).bind fun _ =>
        (Along.update rfl _ _).bind fun _ => Along.deliverDirect _ _)
  | newObj => exact toFirst (newObject courses _)
  | appendArray => exact goes (.append _)
  | delegate =>
      exact (readWide _).bind fun _ => (register _).bind fun _ =>
        (operation courses (.setDelegate _ _)).bind fun _ => goes (.setRegister _ _)
  | instanceOf =>
      exact (readWide _).bind fun _ => (register _).bind fun _ =>
        toFirst ((operation courses (.instanceOf _ _)).bind fun _ => .pure _)
  | typeOf => exact toFirst ((readWide _).bind fun _ => operation courses (.typeOf _))
  | pushTrap => exact goes (.pushTrap _ _)
  | popTrap => exact goes (.popTraps _)
  | throw => exact (register _).bind fun _ => goes (.raise _)
  | resume => exact absurd rfl fresh
  | foreach => exact absurd rfl single
  | postForeach => exact goes (.finishIteration _ _)
  | call | tailCall | ret | yield => exact .pure ()

/-- Instructions that go on with a generator do so above a window that is in use. -/
theorem performAt (instruction : Instruction) {machine : Machine}
    (poised : checked → machine.Poised) :
    (Exec.perform .direct engine instruction).CourseAt checked doer machine := by
  obtain ⟨op, first, wide, second, third⟩ := instruction
  cases op with
  | resume =>
      refine .view_bind ?_
      split
      · exact resumeInto _ _ poised
      · exact raise _ machine
  | foreach => exact iterate courses _ _ _ poised
  | _ => exact perform courses _ (by simp) (by simp) machine

/-! ## Run loops -/

section

omit courses

variable {machine : Machine}

/-- Reading an operand changes nothing. -/
theorem exists_handedOut (instruction : Instruction) (machine : Machine) :
    ∃ value, Exec.handedOut .direct instruction machine = .ok value machine := by
  rw [Exec.handedOut]
  cases instruction.target? with
  | none => exact ⟨.null, rfl⟩
  | some number => exact ⟨_, rfl⟩

/-- Going on at another instruction changes no window. -/
theorem whole_goTo (whole : machine.Whole) (ip : Nat) :
    (machine.mapStack (·.modifyFrame ({ · with ip }))).Whole := by
  intro frame current
  have place := current
  simp only [Machine.mapStack, Stack.modifyFrame, Stack.current?, Stack.depth,
    Array.back?_eq_getElem?, Array.size_modify, Array.getElem?_modify, if_pos] at place
  obtain ⟨former, there, rfl⟩ := Option.map_eq_some_iff.mp place
  refine whole former ?_
  rw [Stack.current?, Array.back?_eq_getElem?]
  exact there

theorem poised_of_fetch (whole : machine.Whole) {instruction : Option Instruction} {next : Machine}
    (fetched : Exec.fetch machine = .ok instruction next) : next.Poised := by
  cases current : machine.fiber.stack.current? with
  | none =>
      rw [Exec.fetch, error_bind (Travels.frame_of_none current)] at fetched
      exact absurd fetched (by simp)
  | some frame =>
      have above : 0 < machine.fiber.stack.depth := by
        have place := getElem?_of_current current
        exact Nat.lt_of_le_of_lt (Nat.zero_le _) (Array.getElem?_eq_some_iff.mp place).1
      rw [Exec.fetch, Exec.frame_bind current] at fetched
      cases found : frame.closure.routine.code[frame.ip]? with
      | none =>
          rw [found] at fetched
          injection fetched with _ same
          exact same ▸ ⟨above, whole⟩
      | some instruction =>
          rw [found] at fetched
          injection fetched with _ same
          exact same ▸ ⟨(depth_goTo _ _).symm ▸ above, whole_goTo whole _⟩

end

theorem dispatch (instruction : Instruction) {machine : Machine}
    (poised : checked → machine.Poised) :
    (Exec.dispatch .direct engine instruction).CourseAt checked doer machine := by
  rw [Exec.dispatch]
  split
  · exact ((goes (.readWide _)).bind fun _ => callInstruction courses _ _) machine
  · exact ((goes (.readWide _)).bind fun _ => tailCall courses _ _) machine
  · exact ((goes (.handedOut _)).bind fun _ =>
      loud (.returnValue _) (Touching.returnValue _) (Tallying.returnValue _)) machine
  · obtain ⟨value, looked⟩ := exists_handedOut instruction machine
    refine .congr (ok_bind looked) (.goes ⟨?_, ?_, ?_⟩)
    · exact Travels.yieldValue value poised
    · exact Touching.yieldValue value machine
    · exact Tallying.yieldValue value machine
  · exact .bind (performAt courses _ poised) fun _ next _ => pure _ next

theorem step (instruction : Option Instruction) {machine : Machine}
    (poised : checked → machine.Poised) :
    (Exec.step engine instruction).CourseAt checked doer machine := by
  cases instruction with
  | none =>
      exact loud (.returnValue .null) (Touching.returnValue .null) (Tallying.returnValue .null)
        machine
  | some instruction => exact dispatch courses instruction poised

theorem turn (root : Nat) {machine : Machine} (whole : checked → machine.Whole) :
    (Exec.turn engine root).CourseAt checked doer machine := by
  refine .bind (goes .fetch machine) fun instruction next fetched => ?_
  refine .bind (.attempt (step courses instruction fun wanted => ?_)) fun result last _ => ?_
  · exact poised_of_fetch (whole wanted) fetched
  · split
    · exact pure _ _
    · exact pure _ _
    · exact pure _ _
    · exact ((loud (.recover _ root) (Touching.recover _ root)
        (Tallying.recover _ root)).bind fun _ => pure _) last

omit courses in
theorem watch_bind {stop : Machine → Bool} {action : Exec α} {machine : Machine}
    (rest : stop machine = false → action.CourseAt checked doer machine) :
    (Exec.watch stop >>= fun _ => action).CourseAt checked doer machine := by
  cases found : stop machine with
  | true =>
      have stops : Exec.watch stop machine = .error .exhausted machine := by
        rw [Exec.watch, found]
        rfl
      exact .congr (error_bind stops) (exhaust machine)
  | false =>
      have goes : Exec.watch stop machine = .ok () machine := by
        rw [Exec.watch, found]
        rfl
      exact .congr (ok_bind goes) (rest found)

theorem loopUntil {stop : Machine → Bool}
    (heeds : checked → ∀ machine, stop machine = false → machine.Whole) (root steps : Nat) :
    Courses checked doer (Exec.loopUntil stop engine root steps) := by
  induction steps with
  | zero => exact exhaust
  | succ steps ih =>
      refine fun machine => watch_bind fun goes => ?_
      refine .bind (turn courses root fun wanted => heeds wanted machine goes)
        fun outcome next _ => ?_
      cases outcome with
      | none => exact ih next
      | some outcome => exact pure _ _

omit courses in
theorem nestLoop (root : Nat) {body : Exec Outcome} (courses : Courses checked .script body) :
    Courses checked doer (Exec.nestLoop root body) := by
  refine fun machine => .view_bind (.view_bind ?_)
  dsimp only
  split
  · exact (loud (.unwindTo root) (Touching.unwindTo root) (Tallying.unwindTo root)).bind
      (fun _ _ => .raise_bind _ _) machine
  · rename_i room
    exact .looped (Nat.lt_of_not_le room) rfl (courses _)

end

end Exec.Courses

/-! ## Suspension -/

namespace Exec

variable {machine next : Machine} {action : Exec α} {value : α}

theorem eq_ok_of_attempt (tried : attempt action machine = .ok (.ok value) next) :
    action machine = .ok value next := by
  rw [attempt] at tried
  cases result : action machine with
  | ok value next =>
      rw [result] at tried
      cases tried
      rfl
  | error stop next =>
      rw [result] at tried
      cases stop with
      | raised | exhausted => cases tried

theorem eq_ok_of_ensuring {restore : Machine → Machine}
    (done : ensuring restore action machine = .ok value next) :
    ∃ inner, action machine = .ok value inner ∧ next = restore inner := by
  rw [ensuring] at done
  cases result : action machine with
  | ok value inner =>
      rw [result] at done
      cases done
      exact ⟨inner, rfl, rfl⟩
  | error stop inner =>
      rw [result] at done
      cases stop with
      | raised | exhausted => cases done

end Exec

/-- A result that is looked for comes only from a run loop in which the fiber can be suspended. -/
def Exec.Sheltered (wanted : α → Prop) (action : Exec α) : Prop :=
  ∀ ⦃machine next value⦄, action machine = .ok value next → wanted value →
    next.fiber.canSuspend = true

namespace Exec.Sheltered

variable {wanted : α → Prop} {engine : Engine}

theorem bind {first : Exec β} {following : β → Exec α}
    (last : ∀ value, Sheltered wanted (following value)) :
    Sheltered wanted (first >>= following) := by
  intro machine next value done wish
  obtain ⟨found, between, _, rest⟩ := bind_eq_ok done
  exact last found rest wish

theorem pure {value : α} (unwanted : ¬ wanted value) :
    Sheltered wanted (Pure.pure value : Exec α) := by
  intro machine next found done wish
  cases done
  exact absurd wish unwanted

theorem raise (fault : Fault) : Sheltered wanted (Exec.raise fault : Exec α) :=
  fun _ _ _ done => by cases done

/-- A run loop that is asked to suspend the fiber does so. -/
def Suspends (flow : Flow) : Prop := ∃ value, flow = .suspend value

theorem leaveFrame (frame : Frame) (value : Value) :
    Sheltered Suspends (Exec.leaveFrame frame value) := by
  refine bind fun depth => bind fun _ => ?_
  split
  · exact pure (by simp [Suspends])
  · exact bind fun _ => bind fun _ => bind fun _ => pure (by simp [Suspends])

theorem returnValue (value : Value) : Sheltered Suspends (Exec.returnValue value) :=
  bind fun frame => bind fun _ => leaveFrame frame value

theorem yieldValue (value : Value) : Sheltered Suspends (Exec.yieldValue value) := by
  refine bind fun frame => ?_
  split
  · exact raise _
  · exact bind fun _ => bind fun _ => bind fun _ => bind fun _ => bind fun _ => bind fun _ =>
      leaveFrame _ value

theorem callInstruction (callee : Value) (instruction : Instruction) :
    Sheltered Suspends (Exec.callInstruction .direct engine callee instruction) := by
  refine bind fun base => bind fun start => ?_
  cases start with
  | pushed => exact pure (by simp [Suspends])
  | done value => exact bind fun _ => pure (by simp [Suspends])
  | suspend value =>
      intro machine next flow done _
      obtain ⟨can, between, looked, rest⟩ := bind_eq_ok done
      cases looked
      dsimp only at rest
      split at rest
      · rename_i can
        cases rest
        exact can
      · cases rest

theorem tailCall (callee : Value) (instruction : Instruction) :
    Sheltered Suspends (Exec.tailCall .direct engine callee instruction) := by
  cases callee with
  | closure ref =>
      refine bind fun closure => bind fun frame => bind fun replaces => ?_
      split
      · exact bind fun _ => bind fun _ => bind fun _ => bind fun _ => bind fun _ => bind fun _ =>
          bind fun _ => pure (by simp [Suspends])
      · exact callInstruction _ _
  | _ => exact callInstruction _ _

theorem step (instruction : Option Instruction) :
    Sheltered Suspends (Exec.step engine instruction) := by
  cases instruction with
  | none => exact returnValue .null
  | some instruction =>
      rw [Exec.step, Exec.dispatch]
      split
      · exact bind fun _ => callInstruction _ _
      · exact bind fun _ => tailCall _ _
      · exact bind fun _ => returnValue _
      · exact bind fun _ => yieldValue _
      · exact bind fun _ => pure (by simp [Suspends])

theorem turn (root : Nat) :
    Sheltered (fun outcome => ∃ value, outcome = some (.suspended value))
      (Exec.turn engine root) := by
  refine bind fun instruction machine next outcome done suspends => ?_
  obtain ⟨result, between, tried, rest⟩ := bind_eq_ok done
  obtain ⟨value, rfl⟩ := suspends
  split at rest
  · cases rest
  · cases rest
  · cases rest
    exact step instruction (eq_ok_of_attempt tried) ⟨_, rfl⟩
  · obtain ⟨_, _, _, rest⟩ := bind_eq_ok rest
    cases rest

theorem loopUntil (stop : Machine → Bool) (root steps : Nat) :
    Sheltered (fun outcome => ∃ value, outcome = .suspended value)
      (Exec.loopUntil stop engine root steps) := by
  induction steps with
  | zero => exact fun _ _ _ done => by cases done
  | succ steps ih =>
      refine bind fun _ machine next outcome done suspends => ?_
      obtain ⟨ended, between, turned, rest⟩ := bind_eq_ok done
      cases ended with
      | none => exact ih rest suspends
      | some outcome =>
          cases rest
          obtain ⟨value, rfl⟩ := suspends
          exact turn root turned ⟨value, rfl⟩

end Exec.Sheltered

/-- When the run loop has ended, nothing is active any more. -/
theorem Exec.isOutermost_of_nestLoop {root : Nat} {body : Exec Outcome} {value : Value}
    {machine next : Machine}
    (sheltered : Sheltered (fun outcome => ∃ value, outcome = .suspended value) body)
    (suspends : nestLoop root body machine = .ok (.suspended value) next) :
    next.fiber.isOutermost = true := by
  obtain ⟨machine', between, looked, rest⟩ := bind_eq_ok suspends
  cases looked
  obtain ⟨active, between, looked, rest⟩ := bind_eq_ok rest
  cases looked
  dsimp only at rest
  split at rest
  · obtain ⟨_, _, _, rest⟩ := bind_eq_ok rest
    cases rest
  · obtain ⟨inner, ended, rfl⟩ := eq_ok_of_ensuring rest
    have can := sheltered ended ⟨value, rfl⟩
    simp only [Fiber.canSuspend, Bool.and_eq_true, beq_iff_eq] at can
    simp [Fiber.isOutermost, Machine.mapFiber, can]

end ScriptMachine
