import ScriptMachine.Proofs.Machine.Run
import ScriptMachine.Proofs.Machine.Services

/-!
# Computations that are cut short

A computation that has not been cut short ends in the same way with more steps.  `Exec.Below` says
so of two computations, and where the first one may be cut short.  Whatever is put together of
computations that are related in this way is related too.  So engines with more steps, or that are
stopped less often, and hosts whose functions give up less often, lead to the same results.  What a
host does with one engine by the means it is offered can also be done with another one.
-/

namespace ScriptMachine

open Exec

variable {α β : Type}

/-- The computation is cut short at a machine where it may be, or it ends as the other one. -/
def Exec.Below (action : Exec α) (cut : Machine → Prop) (other : Exec α) : Prop :=
  ∀ machine, (∃ next, action machine = .error .exhausted next ∧ cut next) ∨
    action machine = other machine

/-- Calls of an engine are cut short, or they end as those of the other one. -/
def Engine.CallsBelow (engine : Engine) (cut : Machine → Prop) (other : Engine) : Prop :=
  ∀ callee base count, (engine.callAt callee base count).Below cut (other.callAt callee base count)

/-- Host functions of an engine are cut short, or they end as those of the other one. -/
def Engine.NativesBelow (engine : Engine) (cut : Machine → Prop) (other : Engine) : Prop :=
  ∀ symbol, (engine.native symbol).Below cut (other.native symbol)

/-- Whatever an engine runs is cut short, or it ends as with the other one. -/
structure Engine.Below (engine : Engine) (cut : Machine → Prop) (other : Engine) : Prop where
  /-- Calls that wait for their result. -/
  calls : engine.CallsBelow cut other
  /-- Run loops. -/
  runs : ∀ root, (engine.runFrames root).Below cut (other.runFrames root)
  /-- Host functions. -/
  natives : engine.NativesBelow cut other

namespace Exec.Below

variable {cut : Machine → Prop} {action other last : Exec α}

theorem refl (action : Exec α) : action.Below cut action := fun _ => .inr rfl

theorem exhaust (everywhere : ∀ machine, cut machine) : (Exec.exhaust : Exec α).Below cut other :=
  fun machine => .inl ⟨machine, rfl, everywhere machine⟩

theorem bind {following following' : α → Exec β} (first : action.Below cut other)
    (rest : ∀ value, (following value).Below cut (following' value)) :
    (action >>= following).Below cut (other >>= following') := by
  intro machine
  rcases first machine with ⟨next, short, here⟩ | same
  · exact .inl ⟨next, error_bind short, here⟩
  · cases result : action machine with
    | ok value next =>
        rw [ok_bind result, ok_bind (same.symm.trans result)]
        exact rest value next
    | error stop next =>
        exact .inr ((error_bind result).trans (error_bind (same.symm.trans result)).symm)

theorem map (below : action.Below cut other) (image : α → β) :
    (image <$> action).Below cut (image <$> other) := by
  rw [map_eq_pure_bind, map_eq_pure_bind]
  exact below.bind fun _ => refl _

theorem discard (below : action.Below cut other) :
    (Functor.discard action).Below cut (Functor.discard other) := below.map _

theorem attempt (below : action.Below cut other) :
    (Exec.attempt action).Below cut (Exec.attempt other) := by
  intro machine
  rcases below machine with ⟨next, short, here⟩ | same
  · exact .inl ⟨next, by rw [Exec.attempt, short], here⟩
  · exact .inr (by rw [Exec.attempt, Exec.attempt, same])

theorem ensuring (below : action.Below cut other) (restore : Machine → Machine) :
    (Exec.ensuring restore action).Below cut (Exec.ensuring restore other) := by
  intro machine
  rcases below machine with ⟨next, short, here⟩ | same
  · exact .inl ⟨next, by rw [Exec.ensuring, short], here⟩
  · exact .inr (by rw [Exec.ensuring, Exec.ensuring, same])

theorem keeping (below : action.Below cut other) (indices : List Nat) :
    (Exec.keeping indices action).Below cut (Exec.keeping indices other) :=
  (refl _).bind fun _ => (refl _).bind fun _ => below.ensuring _

theorem ite {condition : Prop} [Decidable condition] {action' other' : Exec α}
    (yes : action.Below cut other) (no : action'.Below cut other') :
    (if condition then action else action').Below cut (if condition then other else other') := by
  split
  · exact yes
  · exact no

/-! ## Operations -/

theorem toFirst (instruction : Instruction) {value value' : Exec Value}
    (below : value.Below cut value') :
    (Exec.toFirst .direct instruction value).Below cut (Exec.toFirst .direct instruction value') :=
  below.bind fun _ => refl _

variable {engine wider : Engine}

section

variable (calls : engine.CallsBelow cut wider)

include calls

theorem callSync (callee this : Value) (arguments : List Value) :
    (engine.callSync callee this arguments).Below cut (wider.callSync callee this arguments) := by
  refine keeping ((refl _).bind fun base => ensuring ?_ _) _
  exact (refl _).bind fun _ => calls callee base _

theorem operation (parallel : engine.Parallel wider action other) : action.Below cut other := by
  induction parallel with
  | change => exact refl _
  | bind _ _ first rest => exact first.bind rest
  | keeping indices _ ih => exact ih.keeping indices
  | callSync callee this arguments => exact callSync calls callee this arguments

theorem captureCell (creator : Closure) (source : CaptureSource) :
    (Exec.captureCell .direct engine creator source).Below cut
      (Exec.captureCell .direct wider creator source) := by
  cases source with
  | register | outer => exact refl _
  | symbol name =>
      refine (refl _).bind fun this => (operation calls (.getSlot _ _)).attempt.bind fun found => ?_
      cases found with
      | ok | error => exact refl _

theorem captureCells (creator : Closure) (captures : List Capture) (cells : Array (Ref .cell)) :
    (Exec.captureCells .direct engine creator captures cells).Below cut
      (Exec.captureCells .direct wider creator captures cells) := by
  induction captures generalizing cells with
  | nil => exact refl _
  | cons capture rest ih =>
      exact ((captureCell calls creator capture.source).keeping _).bind fun cell => ih _

theorem makeClosure (target : UInt8) (index : Int32) :
    (Exec.makeClosure .direct engine target index).Below cut
      (Exec.makeClosure .direct wider target index) := by
  refine (refl _).bind fun frame => ?_
  extract_lets nested
  cases nested with
  | none => exact refl _
  | some routine => exact (captureCells calls _ _ _).bind fun _ => refl _

theorem newObject (instruction : Instruction) :
    (Exec.newObject .direct engine instruction).Below cut
      (Exec.newObject .direct wider instruction) := by
  rw [Exec.newObject, Exec.newObject]
  cases ObjectForm.ofCode? instruction.third with
  | none => exact refl _
  | some form =>
      cases form with
      | table | array => exact refl _
      | cls =>
          dsimp only
          rw [Exec.newClass_eq, Exec.newClass_eq]
          exact (refl _).bind fun base => operation calls (.deriveClass base)

theorem prepareCall (instruction : Instruction) (key : Exec Value) :
    (Exec.prepareCall .direct engine instruction key).Below cut
      (Exec.prepareCall .direct wider instruction key) :=
  (refl _).bind fun _ => (refl _).bind fun _ => (operation calls (.getSlot _ _)).bind fun _ =>
    refl _

theorem arithInstruction (op : ArithOp) (instruction : Instruction) :
    (Exec.arithInstruction .direct engine op instruction).Below cut
      (Exec.arithInstruction .direct wider op instruction) :=
  (refl _).bind fun _ => (refl _).bind fun _ => toFirst _ (operation calls (.arith _ _ _))

theorem iterationStep (container cursor : Value) (registers : IterationRegisters) :
    (Exec.iterationStep .direct engine container cursor registers).Below cut
      (Exec.iterationStep .direct wider container cursor registers) := by
  cases container with
  | generator ref => exact refl _
  | _ => exact operation calls (.iterationStep _ _ _ (by simp))

theorem iterate (container first : UInt8) (exit : Int32) :
    (Exec.iterate .direct engine container first exit).Below cut
      (Exec.iterate .direct wider container first exit) :=
  (refl _).bind fun _ => (refl _).bind fun _ => (refl _).bind fun _ =>
    (iterationStep calls _ _ _).bind fun _ => refl _

/-- Instructions that go on with the next one use an engine for calls only. -/
theorem perform (instruction : Instruction) :
    (Exec.perform .direct engine instruction).Below cut
      (Exec.perform .direct wider instruction) := by
  obtain ⟨op, first, wide, second, third⟩ := instruction
  cases op with
  | get =>
      exact (refl _).bind fun _ => (refl _).bind fun _ => toFirst _ (operation calls (.getSlot _ _))
  | getK =>
      exact (refl _).bind fun _ => (refl _).bind fun _ => toFirst _ (operation calls (.getSlot _ _))
  | set =>
      exact (refl _).bind fun _ => (refl _).bind fun _ => (refl _).bind fun _ =>
        (operation calls (.setSlot _ _ _)).bind fun _ => refl _
  | newSlot =>
      exact (refl _).bind fun _ => (refl _).bind fun _ => (refl _).bind fun _ =>
        (operation calls (.newSlot _ _ _)).bind fun _ => refl _
  | delete =>
      exact (refl _).bind fun _ => (refl _).bind fun _ =>
        toFirst _ (operation calls (.deleteSlot _ _))
  | add | sub | mul | div | mod => exact arithInstruction calls _ _
  | neg => exact toFirst _ ((refl _).bind fun _ => operation calls (.negate _))
  | cmp =>
      refine (refl _).bind fun left => (refl _).bind fun right => ?_
      cases CompareOp.ofCode? third with
      | none => exact refl _
      | some op => exact toFirst _ ((operation calls (.order _ _)).bind fun _ => refl _)
  | prepCall | prepCallK => exact prepareCall calls _ _
  | closure => exact makeClosure calls first wide
  | newObj => exact toFirst _ (newObject calls _)
  | typeOf => exact toFirst _ ((refl _).bind fun _ => operation calls (.typeOf _))
  | foreach => exact iterate calls first second wide
  | _ => exact refl _

end

/-! ## Calls -/

theorem callNative (natives : engine.NativesBelow cut wider) (ref : Ref .native)
    (base count : Nat) :
    (Exec.callNative engine ref base count).Below cut (Exec.callNative wider ref base count) := by
  refine (refl _).bind fun native => (refl _).bind fun arguments => (refl _).bind fun _ =>
    (refl _).bind fun former => (refl _).bind fun active => ?_
  have runs := (refl (Exec.onFiber fun fiber =>
    { fiber with
      nativeCalls := fiber.nativeCalls + 1
      natives := ⟨ref, base, count⟩ :: fiber.natives
      counters := { fiber.counters with nativeCalls := fiber.counters.nativeCalls + 1 } })).bind
    fun _ => (natives native.symbol).ensuring (·.mapFiber fun fiber =>
      { fiber with nativeCalls := fiber.nativeCalls - 1, natives := fiber.natives.tail })
  exact ite ((refl _).bind fun _ => runs) runs

theorem construct (calls : engine.CallsBelow cut wider) (ref : Ref .cls) (base count : Nat) :
    (Exec.construct engine ref base count).Below cut (Exec.construct wider ref base count) := by
  refine (refl _).bind fun object => (refl _).bind fun cls => ?_
  cases cls.initializer? with
  | none => exact refl _
  | some initializer =>
      exact (refl _).bind fun _ => ((calls _ _ _).discard.keeping _).bind fun _ => refl _

theorem callValue (calls : engine.CallsBelow cut wider) (natives : engine.NativesBelow cut wider)
    (callee : Value) (base count : Nat) (target : Option UInt8) (isRoot : Bool) :
    (Exec.callValue engine callee base count target isRoot).Below cut
      (Exec.callValue wider callee base count target isRoot) := by
  cases callee with
  | closure ref => exact refl _
  | native ref => exact (callNative natives ref base count).bind fun _ => refl _
  | cls ref => exact (construct calls ref base count).bind fun _ => refl _
  | _ =>
      refine (refl _).bind fun handler => ?_
      cases handler with
      | none => exact refl _
      | some handler =>
          exact (refl _).bind fun _ => (callSync calls _ _ _).bind fun _ => refl _

theorem callAt (below : engine.Below cut wider) (callee : Value) (base count : Nat) :
    (Exec.callAt engine callee base count).Below cut (Exec.callAt wider callee base count) := by
  refine (refl _).bind fun size => (refl _).bind fun root => (refl _).bind fun _ =>
    (attempt ?_).bind fun _ => refl _
  refine (callValue below.calls below.natives callee base count none true).bind fun start => ?_
  cases start with
  | pushed => exact below.runs root
  | done | suspend => exact refl _

theorem resumeGenerator (below : engine.Below cut wider) (ref : Ref .generator) :
    (Exec.resumeGenerator engine ref).Below cut (Exec.resumeGenerator wider ref) :=
  (refl _).bind fun _ => (refl _).bind fun _ => (refl _).bind fun _ =>
    (attempt ((refl _).bind fun _ => below.runs _)).bind fun _ => refl _

/-! ## Run loops -/

theorem callInstruction (below : engine.Below cut wider) (callee : Value)
    (instruction : Instruction) :
    (Exec.callInstruction .direct engine callee instruction).Below cut
      (Exec.callInstruction .direct wider callee instruction) :=
  (refl _).bind fun _ => (callValue below.calls below.natives _ _ _ _ _).bind fun _ => refl _

theorem tailCall (below : engine.Below cut wider) (callee : Value) (instruction : Instruction) :
    (Exec.tailCall .direct engine callee instruction).Below cut
      (Exec.tailCall .direct wider callee instruction) := by
  cases callee with
  | closure ref =>
      exact (refl _).bind fun _ => (refl _).bind fun _ => (refl _).bind fun _ =>
        ite (refl _) (callInstruction below _ _)
  | _ => exact callInstruction below _ _

theorem dispatch (below : engine.Below cut wider) (instruction : Instruction) :
    (Exec.dispatch .direct engine instruction).Below cut
      (Exec.dispatch .direct wider instruction) := by
  obtain ⟨op, first, wide, second, third⟩ := instruction
  cases op with
  | call => exact (refl _).bind fun _ => callInstruction below _ _
  | tailCall => exact (refl _).bind fun _ => tailCall below _ _
  | ret | yield => exact refl _
  | _ => exact (perform below.calls _).bind fun _ => refl _

theorem turn (below : engine.Below cut wider) (root : Nat) :
    (Exec.turn engine root).Below cut (Exec.turn wider root) := by
  refine (refl _).bind fun instruction => (attempt ?_).bind fun _ => refl _
  cases instruction with
  | none => exact refl _
  | some instruction => exact dispatch below instruction

/-- The machine is one where the first engine may be stopped, or both are stopped there or both go
on. -/
theorem watch {stop stop' : Machine → Bool}
    (stops : ∀ machine, stop machine = stop' machine ∨ stop machine = true ∧ cut machine) :
    (Exec.watch stop).Below cut (Exec.watch stop') := by
  intro machine
  rcases stops machine with same | ⟨stopped, here⟩
  · exact .inr (by rw [Exec.watch, Exec.watch, same])
  · refine .inl ⟨machine, ?_, here⟩
    rw [Exec.watch, stopped]
    rfl

theorem loopUntil (below : engine.Below cut wider) (root : Nat) {stop stop' : Machine → Bool}
    (stops : ∀ machine, stop machine = stop' machine ∨ stop machine = true ∧ cut machine)
    {steps more : Nat} (le : steps ≤ more) (fewer : steps < more → ∀ machine, cut machine) :
    (Exec.loopUntil stop engine root steps).Below cut
      (Exec.loopUntil stop' wider root more) := by
  induction steps generalizing more with
  | zero =>
      cases more with
      | zero => exact refl _
      | succ more => exact exhaust (fewer (Nat.succ_pos more))
  | succ steps ih =>
      obtain ⟨more, rfl⟩ : ∃ fewer, more = fewer + 1 := ⟨more - 1, by omega⟩
      refine (watch stops).bind fun _ => (turn below root).bind fun outcome => ?_
      cases outcome with
      | none => exact ih (Nat.le_of_succ_le_succ le) fun lt => fewer (Nat.succ_lt_succ lt)
      | some outcome => exact refl _

theorem nestLoop (root : Nat) {body body' : Exec Outcome} (below : body.Below cut body') :
    (Exec.nestLoop root body).Below cut (Exec.nestLoop root body') := by
  refine (refl _).bind fun former => (refl _).bind fun active => ?_
  have nested := (refl (Exec.onFiber fun fiber =>
    { fiber with nativeCalls := fiber.nativeCalls + 1, nesting := fiber.nesting + 1 })).bind
    fun _ => below.ensuring (·.mapFiber fun fiber =>
      { fiber with nativeCalls := fiber.nativeCalls - 1, nesting := fiber.nesting - 1 })
  exact ite ((refl _).bind fun _ => (refl _).bind fun _ => nested) nested

/-! ## Entries -/

theorem report (calls : engine.CallsBelow cut wider) (fault : Fault) :
    (Exec.report engine fault).Below cut (Exec.report wider fault) := by
  refine (refl _).bind fun machine => ?_
  cases machine.handler with
  | none => exact refl _
  | some handler =>
      exact (refl _).bind fun _ => (refl _).bind fun _ =>
        (callSync calls _ _ _).attempt.discard.bind fun _ => refl _

theorem finishEntry (calls : engine.CallsBelow cut wider) (point : EntryPoint)
    (result : Except Fault Outcome) :
    (Exec.finishEntry engine point result).Below cut (Exec.finishEntry wider point result) := by
  cases result with
  | ok outcome =>
      cases outcome with
      | completed | suspended => exact refl _
  | error fault =>
      exact (refl _).bind fun _ => (refl _).bind fun _ => (refl _).bind fun _ =>
        ite ((report calls fault).bind fun _ => refl _) (refl _)

theorem beginEntry (below : engine.Below cut wider) (point : EntryPoint) (callee this : Value)
    (arguments : List Value) :
    (Exec.beginEntry engine point callee this arguments).Below cut
      (Exec.beginEntry wider point callee this arguments) := by
  refine (refl _).bind fun _ =>
    (callValue below.calls below.natives callee _ _ none true).bind fun start => ?_
  cases start with
  | pushed => exact below.runs _
  | done | suspend => exact refl _

theorem runWithThis (below : engine.Below cut wider) (callee this : Value)
    (arguments : List Value) :
    (Exec.runWithThis engine callee this arguments).Below cut
      (Exec.runWithThis wider callee this arguments) := by
  refine (refl _).bind fun fiber => ?_
  extract_lets point enter enter'
  have enters : ∀ done, (enter done).Below cut (enter' done) := fun _ =>
    (refl _).bind fun _ => (beginEntry below point callee this arguments).attempt.bind fun result =>
      finishEntry below.calls point result
  exact ite ((refl _).bind enters) (enters ())

theorem run (below : engine.Below cut wider) (callee : Value) (arguments : List Value) :
    (Exec.run engine callee arguments).Below cut (Exec.run wider callee arguments) :=
  (refl _).bind fun _ => runWithThis below _ _ _

theorem continueAt (below : engine.Below cut wider) (point : SuspendPoint) (value : Value) :
    (Exec.continueAt engine point value).Below cut (Exec.continueAt wider point value) :=
  (refl _).bind fun _ => ite (refl _) ((refl _).bind fun _ => below.runs _)

theorem wakeup (below : engine.Below cut wider) (value : Value) :
    (Exec.wakeup engine value).Below cut (Exec.wakeup wider value) := by
  refine (refl _).bind fun state => ?_
  extract_lets wake wake'
  have wakes : ∀ done, (wake done).Below cut (wake' done) := by
    intro _
    refine (refl _).bind fun suspended => ?_
    cases suspended with
    | none => exact refl _
    | some point =>
        exact (refl _).bind fun _ => (continueAt below point value).attempt.bind fun result =>
          finishEntry below.calls _ result
  exact ite (wakes ()) ((refl _).bind wakes)

/-! ## Threads -/

theorem inThread (ref : Ref .thread) (below : action.Below cut other) :
    (Exec.inThread ref action).Below cut (Exec.inThread ref other) := by
  refine (refl _).bind fun content => ?_
  cases content with
  | none => exact refl _
  | some fiber =>
      exact (refl _).bind fun _ => (refl _).bind fun _ => (below.ensuring _).attempt.bind fun _ =>
        refl _

theorem threadCall (below : engine.Below cut wider) (ref : Ref .thread) (arguments : List Value) :
    (Exec.threadCall engine ref arguments).Below cut (Exec.threadCall wider ref arguments) := by
  refine inThread ref ((refl _).bind fun entry => ?_)
  cases entry with
  | none => exact refl _
  | some entry => exact run below entry arguments

theorem threadWakeup (below : engine.Below cut wider) (ref : Ref .thread) (value : Value) :
    (Exec.threadWakeup engine ref value).Below cut (Exec.threadWakeup wider ref value) :=
  inThread ref (wakeup below value)

/-! ## The library -/

theorem baseFunction (below : engine.Below cut wider) (function : BaseFunction) :
    (function.run engine).Below cut (function.run wider) := by
  cases function with
  | print =>
      exact (refl _).bind fun _ => (operation below.calls (.displayText _)).bind fun _ => refl _
  | sort =>
      exact (refl _).bind fun _ => (refl _).bind fun _ =>
        (operation below.calls (.sortArray _ _)).bind fun _ => refl _
  | threadCall =>
      exact (refl _).bind fun _ => (refl _).bind fun _ => (threadCall below _ _).bind fun _ =>
        refl _
  | threadWakeup =>
      exact (refl _).bind fun _ => (refl _).bind fun _ => (threadWakeup below _ _).bind fun _ =>
        refl _
  | _ => exact refl _

theorem reflection (below : engine.Below cut wider) (function : Reflection) :
    (function.perform engine).Below cut (function.perform wider) := by
  cases function with
  | sync =>
      exact (refl _).bind fun _ => (refl _).bind fun _ => (refl _).bind fun _ =>
        (callSync below.calls _ _ _).bind fun _ => refl _
  | run =>
      exact (refl _).bind fun _ => (refl _).bind fun _ => (run below _ _).bind fun _ => refl _
  | resume =>
      refine (refl _).bind fun value => ?_
      cases value with
      | generator ref => exact (resumeGenerator below ref).bind fun _ => refl _
      | _ => exact refl _
  | wakeup => exact (refl _).bind fun _ => (wakeup below _).bind fun _ => refl _
  | compare =>
      exact (refl _).bind fun _ => (refl _).bind fun _ =>
        (operation below.calls (.order _ _)).bind fun _ => refl _
  | _ => exact refl _

end Exec.Below

/-! ## Engines -/

namespace Engine

variable {engine wider : Engine} {cut : Machine → Prop}

theorem Below.refl (engine : Engine) : engine.Below cut engine :=
  ⟨fun _ _ _ => .refl _, fun _ => .refl _, fun _ => .refl _⟩

/-- One step more keeps engines related, if their functions are. -/
theorem Below.onward (below : engine.Below cut wider) {stop stop' : Machine → Bool}
    (stops : ∀ machine, stop machine = stop' machine ∨ stop machine = true ∧ cut machine)
    {steps more : Nat} (le : steps ≤ more) (fewer : steps < more → ∀ machine, cut machine)
    {native native' : String → Exec NativeReturn}
    (natives : ∀ symbol, (native symbol).Below cut (native' symbol)) :
    (Engine.onward stop engine steps native).Below cut
      (Engine.onward stop' wider more native') where
  calls callee base count := (Exec.Below.watch stops).bind fun _ => .callAt below callee base count
  runs root := .nestLoop root (.loopUntil below root stops le fewer)
  natives symbol := (Exec.Below.watch stops).bind fun _ => natives symbol

/-! ### What hosts do with another engine -/

theorem Operates.exists_below (calls : engine.CallsBelow cut wider) {action : Exec α}
    (operates : wider.Operates action) :
    ∃ narrow, engine.Operates narrow ∧ narrow.Below cut action := by
  induction operates with
  | change result plain inert => exact ⟨_, .change result plain inert, .refl _⟩
  | bind _ _ first further =>
      obtain ⟨narrow, operates, below⟩ := first
      choose following operate rest using further
      exact ⟨narrow >>= following, operates.bind operate, below.bind rest⟩
  | keeping indices _ ih =>
      obtain ⟨narrow, operates, below⟩ := ih
      exact ⟨Exec.keeping indices narrow, operates.keeping indices, below.keeping indices⟩
  | callSync callee this arguments =>
      exact ⟨_, .callSync callee this arguments, .callSync calls callee this arguments⟩

/-- What a host does by the means that one engine offers it can do with an engine that is cut short
earlier, and be cut short where that engine is. -/
theorem Serves.exists_below {manners : Manners} (below : engine.Below cut wider) {action : Exec α}
    (serves : wider.Serves manners action) :
    ∃ narrow, engine.Serves manners narrow ∧ narrow.Below cut action := by
  induction serves with
  | operates allowed operates =>
      obtain ⟨narrow, operates, short⟩ := Operates.exists_below below.calls operates
      exact ⟨narrow, .operates allowed operates, short⟩
  | quiet operates => exact ⟨_, .quiet operates, .refl _⟩
  | bind _ _ first further =>
      obtain ⟨narrow, serves, short⟩ := first
      choose following serve rest using further
      exact ⟨narrow >>= following, serves.bind serve, short.bind rest⟩
  | keeping indices _ ih =>
      obtain ⟨narrow, serves, short⟩ := ih
      exact ⟨Exec.keeping indices narrow, serves.keeping indices, short.keeping indices⟩
  | attempt allowed _ ih =>
      obtain ⟨narrow, serves, short⟩ := ih
      exact ⟨Exec.attempt narrow, serves.attempt allowed, short.attempt⟩
  | passOn allowed fault => exact ⟨_, .passOn allowed fault, .refl _⟩
  | adjust look printed handler => exact ⟨_, .adjust look printed handler, .refl _⟩
  | settle => exact ⟨_, .settle, .refl _⟩
  | collect => exact ⟨_, .collect, .refl _⟩
  | closureOver allowed routine => exact ⟨_, .closureOver allowed routine, .refl _⟩
  | loadFunction prototype => exact ⟨_, .loadFunction prototype, .refl _⟩
  | loadPrototype prototype => exact ⟨_, .loadPrototype prototype, .refl _⟩
  | newClosure value => exact ⟨_, .newClosure value, .refl _⟩
  | runWithThis allowed callee this arguments =>
      exact ⟨_, .runWithThis allowed callee this arguments,
        .runWithThis below callee this arguments⟩
  | wakeup allowed value => exact ⟨_, .wakeup allowed value, .wakeup below value⟩
  | resumeGenerator allowed ref =>
      exact ⟨_, .resumeGenerator allowed ref, .resumeGenerator below ref⟩
  | newThread => exact ⟨_, .newThread, .refl _⟩
  | setThreadFunction ref entry => exact ⟨_, .setThreadFunction ref entry, .refl _⟩
  | threadCall ref arguments =>
      exact ⟨_, .threadCall ref arguments, .threadCall below ref arguments⟩
  | threadWakeup ref value => exact ⟨_, .threadWakeup ref value, .threadWakeup below ref value⟩

end Engine

/-! ## Hosts -/

/-- Functions of a host are cut short, or they end as those of another one, and so they do with an
engine that is cut short earlier. -/
def Host.Below (host other : Host) : Prop :=
  ∀ (symbol : String) (engine wider : Engine), engine.Below (fun _ => True) wider →
    (host symbol engine).Below (fun _ => True) (other symbol wider)

/-- With more steps the functions of the host end as they have ended with fewer. -/
def Host.Monotone (host : Host) : Prop := host.Below host

/-- With more steps whatever has not been cut short ends in the same way. -/
theorem Engine.below_ofHost {host other : Host} (below : host.Below other) {steps more : Nat}
    (le : steps ≤ more) :
    (Engine.ofHost host steps).Below (fun _ => True) (Engine.ofHost other more) := by
  rw [← Engine.until_never, ← Engine.until_never]
  induction steps generalizing more with
  | zero =>
      exact ⟨fun _ _ _ => .exhaust fun _ => trivial, fun _ => .exhaust fun _ => trivial,
        fun _ => .exhaust fun _ => trivial⟩
  | succ steps ih =>
      obtain ⟨more, rfl⟩ : ∃ fewer, more = fewer + 1 := ⟨more - 1, by omega⟩
      have le := Nat.le_of_succ_le_succ le
      rw [Engine.until_succ, Engine.until_succ]
      exact (ih le).onward (fun _ => .inl rfl) le (fun _ _ => trivial) fun symbol =>
        below symbol _ _ (ih le)

theorem monotone_standardHost : standardHost.Monotone := by
  intro symbol engine wider below
  rw [standardHost, standardHost]
  cases Reflection.ofName? symbol with
  | some function => exact .reflection below function
  | none =>
      cases BaseFunction.ofName? symbol with
      | some function => exact .baseFunction below function
      | none => exact .refl _

end ScriptMachine
