import ScriptMachine.Proofs.Machine.Touches
import ScriptMachine.Proofs.Machine.Windows

/-!
# Frames and the functions of their generators

A frame that runs a generator is one of the generator's function, with the body and the captured
variables that the function has.  It stands above the window of the frame that has resumed the
generator, if that window was in use.  `Machine.Tallies` says so of all fibers, and whatever a
machine does keeps it.
-/

namespace ScriptMachine

open Exec

variable {α β : Type}

/-- The frames of a fiber that run generators are in order.  That they stand above others depends on
windows that are in use, so it holds where windows are checked. -/
structure Fiber.Tallies (checked : Prop) (heap : Heap) (fiber : Fiber) : Prop where
  /-- The frame is one of the generator's function. -/
  function : ∀ (number : Nat) (frame : Frame) ref, fiber.stack.frames[number]? = some frame →
    frame.generator = some ref → heap.Closes ref frame.ref frame.closure
  /-- Its window starts above that of the frame below, which waits for the value. -/
  clear : checked → ∀ (number : Nat) (frame : Frame), fiber.stack.frames[number]? = some frame →
    frame.generator ≠ none → frame.isRoot = false → ∃ (lower : Nat) (below : Frame),
      number = lower + 1 ∧ fiber.stack.frames[lower]? = some below ∧ below.top ≤ frame.base

namespace Machine

/-- Generators have functions, and the frames that run them are in order, whatever fiber they
belong to. -/
structure Tallies (checked : Prop) (machine : Machine) : Prop where
  /-- The function of a generator exists. -/
  functions : ∀ (ref : Ref .generator) (generator : Generator), machine.heap.get? ref =
    some generator → ∃ closure : Closure, machine.heap.get? generator.closure = some closure
  /-- The frames of all fibers are in order. -/
  fibers : ∀ post fiber, machine.fiberAt? post = some fiber → fiber.Tallies checked machine.heap

end Machine

/-! ## Heaps -/

namespace Heap

variable {before after : Heap}

theorem Follows.closes (follows : before.Follows after) {ref : Ref .generator}
    {function : Ref .closure} {closure : Closure} (closes : before.Closes ref function closure) :
    after.Closes ref function closure := by
  refine ⟨Nat.lt_of_lt_of_le closes.1 follows.size, fun generator found => ?_⟩
  obtain ⟨former, there, same⟩ := follows.same ref generator closes.1 found
  obtain ⟨rfl, held⟩ := closes.2 former there
  exact ⟨same, same ▸ follows.keeps ref generator closure found (same ▸ held)⟩

theorem Spares.follows (spares : before.Spares after) : before.Follows after where
  size := spares.size
  same ref generator _ found := ⟨generator, (spares.generators ref).symm.trans found, rfl⟩
  keeps _ generator closure _ held := spares.closures generator.closure closure held

theorem Culls.follows {external : List Nat} (culls : before.Culls external after) :
    before.Follows after where
  size := Nat.le_of_eq culls.size.symm
  same ref generator _ found := by
    obtain ⟨former, there, rfl | rfl⟩ := culls.generators ref generator found
    · exact ⟨generator, there, rfl⟩
    · exact ⟨former, there, rfl⟩
  keeps := culls.closures

end Heap

/-! ## Fibers -/

namespace Fiber.Tallies

variable {checked : Prop} {heap later : Heap} {fiber other : Fiber}

theorem follows (tallies : fiber.Tallies checked heap) (follows : heap.Follows later) :
    fiber.Tallies checked later :=
  ⟨fun number frame ref found runs => follows.closes (tallies.function number frame ref found runs),
    tallies.clear⟩

theorem of_frames (tallies : fiber.Tallies checked heap)
    (same : other.stack.frames = fiber.stack.frames) : other.Tallies checked heap := by
  constructor
  · rw [same]
    exact tallies.function
  · rw [same]
    exact tallies.clear

theorem of_empty (empty : fiber.stack.frames = #[]) : fiber.Tallies checked heap := by
  constructor
  · rw [empty]
    exact fun _ _ _ found => absurd found (by simp)
  · rw [empty]
    exact fun _ _ _ found => absurd found (by simp)

/-- A frame is added, and it is in order if it runs a generator. -/
theorem push {frame : Frame} (tallies : fiber.Tallies checked heap)
    (added : other.stack.frames = fiber.stack.frames.push frame)
    (function : ∀ ref, frame.generator = some ref → heap.Closes ref frame.ref frame.closure)
    (clear : checked → frame.generator ≠ none → frame.isRoot = false →
      ∃ below, fiber.stack.current? = some below ∧ below.top ≤ frame.base) :
    other.Tallies checked heap := by
  have low : ∀ {number : Nat} {below : Frame}, fiber.stack.frames[number]? = some below →
      other.stack.frames[number]? = some below := by
    intro number below found
    have within : number < fiber.stack.frames.size := (Array.getElem?_eq_some_iff.mp found).1
    rw [added, Array.getElem?_push, if_neg (Nat.ne_of_lt within)]
    exact found
  refine ⟨fun number own ref found runs => ?_, fun wanted number own found generates inner => ?_⟩
  · rw [added, Array.getElem?_push] at found
    split at found
    · obtain rfl := Option.some.inj found
      exact function ref runs
    · exact tallies.function number own ref found runs
  · rw [added, Array.getElem?_push] at found
    split at found
    · rename_i last
      obtain rfl := Option.some.inj found
      obtain ⟨below, current, under⟩ := clear wanted generates inner
      rw [Stack.current?, Array.back?_eq_getElem?] at current
      have within := (Array.getElem?_eq_some_iff.mp current).1
      exact ⟨_, below, by omega, low current, under⟩
    · obtain ⟨lower, below, same, there, under⟩ :=
        tallies.clear wanted number own found generates inner
      exact ⟨lower, below, same, low there, under⟩

/-- Whatever happens to registers and to frames that run no generator, frames stay in order. -/
theorem operation (tallies : fiber.Tallies checked heap) (operation : Stack.Operation)
    (plain : ∀ frame, operation = .pushFrame frame → frame.generator = none) :
    Fiber.Tallies checked heap { fiber with stack := operation.apply fiber.stack } := by
  rw [Stack.Operation.apply]
  split
  swap
  · exact tallies
  cases operation with
  | push | truncate | clearRange => exact tallies.of_frames rfl
  | ensure size => exact tallies.of_frames (Stack.frames_grow ..)
  | set place value => exact tallies.of_frames (Stack.frames_put ..)
  | pushFrame frame =>
      have none := plain frame rfl
      refine tallies.push (Stack.frames_enter ..) (fun ref runs => ?_)
        fun _ generates => absurd none generates
      rw [none] at runs
      cases runs
  | popFrame =>
      refine ⟨fun number frame ref here => ?_, fun wanted number frame here generates inner => ?_⟩
      all_goals
        have here : fiber.stack.frames.pop[number]? = some frame := here
        rw [Array.getElem?_pop] at here
        split at here
        swap
        · cases here
      · exact tallies.function number frame ref here
      · rename_i within
        obtain ⟨lower, below, rfl, there, under⟩ :=
          tallies.clear wanted number frame here generates inner
        refine ⟨lower, below, rfl, ?_, under⟩
        show fiber.stack.frames.pop[lower]? = some below
        rw [Array.getElem?_pop, if_pos (by omega)]
        exact there
  | goTo ip =>
      have changed : ∀ number : Nat, (fiber.stack.modifyFrame ({ · with ip })).frames[number]? =
          fiber.stack.frames[number]?.map fun frame =>
            if fiber.stack.depth - 1 = number then { frame with ip } else frame := by
        intro number
        rw [Stack.modifyFrame, Array.getElem?_modify]
        split
        · rfl
        · exact Option.map_id'.symm
      refine ⟨fun number frame ref here => ?_, fun wanted number frame here generates inner => ?_⟩
      · obtain ⟨former, there, rfl⟩ := Option.map_eq_some_iff.mp ((changed number).symm.trans here)
        have closes := tallies.function number former ref there
        split
        · exact closes
        · exact closes
      · obtain ⟨former, there, rfl⟩ := Option.map_eq_some_iff.mp ((changed number).symm.trans here)
        have alike : ∀ (same : Prop) [Decidable same] (own : Frame),
            (if same then { own with ip } else own).generator = own.generator ∧
            (if same then { own with ip } else own).isRoot = own.isRoot ∧
            (if same then { own with ip } else own).base = own.base ∧
            (if same then { own with ip } else own).top = own.top := by
          intro same _ own
          split
          · exact ⟨rfl, rfl, rfl, rfl⟩
          · exact ⟨rfl, rfl, rfl, rfl⟩
        obtain ⟨generator, isRoot, base, _⟩ := alike (fiber.stack.depth - 1 = number) former
        obtain ⟨lower, below, rfl, lies, under⟩ := tallies.clear wanted number former there
          (generator ▸ generates) (isRoot ▸ inner)
        refine ⟨lower, _, rfl, (changed lower).trans (congrArg _ lies), ?_⟩
        rw [base, (alike (fiber.stack.depth - 1 = lower) below).2.2.2]
        exact under
  | drain => exact of_empty rfl

end Fiber.Tallies

/-! ## Machines -/

namespace Machine

variable {checked : Prop} {machine before after : Machine}

theorem fiberAt?_thread_eq_some {thread : Ref .thread} {fiber : Fiber} :
    machine.fiberAt? (.thread thread) = some fiber ↔
      machine.heap.get? thread = some (some fiber) := Option.join_eq_some_iff

/-- If the frames of one machine are in order, so are those of the other. -/
def Tallying (checked : Prop) (before after : Machine) : Prop :=
  before.Tallies checked → after.Tallies checked

/-- Every fiber has been there before, or its frames are in order. -/
theorem Tallies.of_origin (tallies : before.Tallies checked)
    (follows : before.heap.Follows after.heap)
    (fresh : ∀ (ref : Ref .generator) (generator : Generator), before.heap.size ≤ ref.index →
      after.heap.get? ref = some generator →
      ∃ closure : Closure, after.heap.get? generator.closure = some closure)
    (was : ∀ post fiber, after.fiberAt? post = some fiber → fiber.Tallies checked after.heap ∨
      ∃ origin former, before.fiberAt? origin = some former ∧
        fiber.stack.frames = former.stack.frames) : after.Tallies checked where
  functions ref generator found := by
    by_cases new : before.heap.size ≤ ref.index
    · exact fresh ref generator new found
    · obtain ⟨former, there, same⟩ := follows.same ref generator (Nat.lt_of_not_le new) found
      obtain ⟨closure, held⟩ := tallies.functions ref former there
      exact ⟨closure, follows.keeps ref generator closure found (same ▸ held)⟩
  fibers post fiber here := by
    rcases was post fiber here with own | ⟨origin, former, there, same⟩
    · exact own
    · exact ((tallies.fibers origin former there).follows follows).of_frames same

/-- A fiber that waits, or that of a thread, has been there before. -/
theorem exists_fiberAt? (waiting : after.waiting = before.waiting)
    (threads : ∀ (ref : Ref .thread) (fiber : Fiber), after.heap.get? ref = some (some fiber) →
      fiber.stack.frames = #[] ∨ before.heap.get? ref = some (some fiber))
    {post : Post} {fiber : Fiber} (here : after.fiberAt? post = some fiber) :
    fiber = after.fiber ∨ fiber.stack.frames = #[] ∨
      ∃ origin, before.fiberAt? origin = some fiber := by
  cases post with
  | line index =>
      cases index with
      | zero => exact .inl (Option.some.inj here).symm
      | succ index =>
          refine .inr (.inr ⟨.line (index + 1), ?_⟩)
          have here : after.waiting[index]? = some fiber := here
          rw [waiting] at here
          exact here
  | thread ref =>
      refine .inr ((threads ref fiber (fiberAt?_thread_eq_some.mp here)).imp_right fun there => ?_)
      exact ⟨.thread ref, fiberAt?_thread_eq_some.mpr there⟩

/-- Objects have changed, while the fibers are the same or have been emptied. -/
theorem Tallies.of_heap (tallies : before.Tallies checked)
    (frames : after.fiber.stack.frames = before.fiber.stack.frames)
    (waiting : after.waiting = before.waiting) (follows : before.heap.Follows after.heap)
    (fresh : ∀ (ref : Ref .generator) (generator : Generator), before.heap.size ≤ ref.index →
      after.heap.get? ref = some generator →
      ∃ closure : Closure, after.heap.get? generator.closure = some closure)
    (threads : ∀ (ref : Ref .thread) (fiber : Fiber), after.heap.get? ref = some (some fiber) →
      fiber.stack.frames = #[] ∨ before.heap.get? ref = some (some fiber)) :
    after.Tallies checked := by
  refine tallies.of_origin follows fresh fun post fiber here => ?_
  obtain rfl | empty | ⟨origin, there⟩ := exists_fiberAt? waiting threads here
  · exact .inr ⟨.line 0, before.fiber, rfl, frames⟩
  · exact .inl (.of_empty empty)
  · exact .inr ⟨origin, fiber, there, rfl⟩

theorem Tallies.fiber (tallies : before.Tallies checked) :
    before.fiber.Tallies checked before.heap := tallies.fibers (.line 0) before.fiber rfl

/-- The running fiber has changed, and its frames are in order. -/
theorem Tallies.of_fiber (tallies : before.Tallies checked) (heap : after.heap = before.heap)
    (waiting : after.waiting = before.waiting) (own : after.fiber.Tallies checked before.heap) :
    after.Tallies checked := by
  refine tallies.of_origin (heap ▸ Heap.Spares.follows (.refl _)) (fun ref generator _ found => ?_)
    fun post fiber here => ?_
  · rw [heap] at found ⊢
    exact tallies.functions ref generator found
  · obtain rfl | empty | ⟨origin, there⟩ :=
      exists_fiberAt? waiting (fun ref fiber found => .inr (heap ▸ found)) here
    · exact .inl (heap ▸ own)
    · exact .inl (.of_empty empty)
    · exact .inr ⟨origin, fiber, there, rfl⟩

/-- Nothing has happened to frames and objects. -/
theorem Tallies.of_stack (tallies : before.Tallies checked)
    (stack : after.fiber.stack = before.fiber.stack) (waiting : after.waiting = before.waiting)
    (heap : after.heap = before.heap) : after.Tallies checked :=
  tallies.of_fiber heap waiting (tallies.fiber.of_frames (congrArg Stack.frames stack))

instance : Overlooks (Tallying checked) where
  refl _ := id
  trans _ _ _ first second tallies := second (first tallies)
  stack _ operation plain tallies :=
    tallies.of_fiber rfl rfl (tallies.fiber.operation operation plain)
  fiber _ _ _ _ tallies := tallies.of_stack rfl rfl rfl
  heap machine heap spares tallies := by
    refine tallies.of_heap rfl rfl spares.follows (fun ref generator _ found => ?_)
      fun ref fiber found => .inr ((spares.threads ref).symm.trans found)
    obtain ⟨closure, held⟩ :=
      tallies.functions ref generator ((spares.generators ref).symm.trans found)
    exact ⟨closure, spares.closures _ closure held⟩
  note _ _ _ _ _ tallies := tallies.of_stack rfl rfl rfl
  aside _ _ _ _ _ tallies := tallies.of_stack rfl rfl rfl

end Machine

namespace Exec.Tallying

open Machine

variable {checked : Prop}

/-! ## Generators -/

theorem update (ref : Ref .generator) (change : Generator → Generator)
    (same : ∀ generator, (change generator).closure = generator.closure) :
    Along (Tallying checked) (Exec.update ref change) := by
  intro machine tallies
  refine tallies.of_heap rfl rfl (machine.heap.follows_modify_generator ref change same)
    (fun target generator new found => ?_) fun thread fiber found => .inr ?_
  · have within := Heap.lt_size_of_get?_eq_some
      (show (machine.heap.modify ref change).get? target = some generator from found)
    rw [Heap.size_modify] at within
    exact absurd within (Nat.not_lt_of_le new)
  · exact (Heap.get?_modify_of_ne (by decide) ref change thread).symm.trans found

theorem killGenerator (frame : Frame) : Along (Tallying checked) (Exec.killGenerator frame) := by
  rw [Exec.killGenerator]
  cases frame.generator with
  | none => exact .pure ()
  | some ref => exact update ref _ fun _ => rfl

theorem returnValue (value : Value) : Along (Tallying checked) (Exec.returnValue value) :=
  Along.popFrame.bind fun frame => (killGenerator frame).bind fun _ => .leaveFrame frame value

theorem discardFrame : Along (Tallying checked) Exec.discardFrame := by
  refine (Along.view _).bind fun current => ?_
  cases current with
  | none => exact .pure ()
  | some frame => exact Along.leave.bind fun _ => (killGenerator frame).bind fun _ => .count _

theorem discardFrames (count : Nat) : Along (Tallying checked) (Exec.discardFrames count) := by
  induction count with
  | zero => exact .pure ()
  | succ count ih => exact discardFrame.bind fun _ => ih

theorem unwindTo (root : Nat) : Along (Tallying checked) (Exec.unwindTo root) :=
  (Along.view _).bind fun depth => (discardFrames (depth - root)).bind fun _ => .setTraps _

theorem enterTrap (trap : Trap) (fault : Fault) :
    Along (Tallying checked) (Exec.enterTrap trap fault) :=
  (Along.view _).bind fun _ => (discardFrames _).bind fun _ => (Along.truncate _).bind fun _ =>
    Along.frame.bind fun _ => (Along.goTo _).bind fun _ => (Along.ensure _).bind fun _ =>
      (Along.setRegister _ _).bind fun _ => (Along.count _).bind fun _ => .noteCaught _ _

theorem recover (fault : Fault) (root : Nat) :
    Along (Tallying checked) (Exec.recover fault root) := by
  have gives : Along (Tallying checked)
      (Exec.unwindTo root >>= fun _ => (Exec.passOn fault : Exec Unit)) :=
    (unwindTo root).bind fun _ => .passOn fault
  refine (Along.view _).bind fun traps => ?_
  split
  · split
    · exact (Along.setTraps _).bind fun _ => enterTrap _ _
    · exact gives
  · exact gives

theorem yieldValue (value : Value) : Along (Tallying checked) (Exec.yieldValue value) := by
  refine Along.frame.bind fun frame => ?_
  cases frame.generator with
  | none => exact .raise _
  | some ref =>
      exact (Along.view _).bind fun _ => Along.popFrame.bind fun _ => (Along.view _).bind fun _ =>
        (Along.setTraps _).bind fun _ => (Along.takeRange _ _).bind fun _ =>
          (update ref (Generator.left · _ _ _) fun _ => rfl).bind fun _ => .leaveFrame _ value

/-- A new generator is one of a function that exists. -/
theorem createGenerator {machine : Machine} {ref : Ref .closure} {closure : Closure}
    (held : machine.heap.get? ref = some closure) (base count : Nat) :
    machine.Tallying checked ((Exec.createGenerator ref base count).after machine) := by
  have prepared : machine.Hushes _ := Along.prepareArguments closure.routine base count machine
  rw [Exec.createGenerator, after_ok_bind (show read ref machine =
    .ok (machine.heap.get ref) machine from rfl), Heap.get_of_get?_eq_some held]
  refine Along.bind_at (Along.prepareArguments closure.routine base count machine)
    fun _ next result tallies => ?_
  rw [after_of_eq_ok result] at prepared
  have held := prepared.heap.closures ref closure held
  refine tallies.of_heap rfl rfl (next.heap.follows_alloc _) (fun target generator new found => ?_)
    fun thread fiber found => .inr ?_
  · have found : (@Heap.alloc .generator next.heap _).2.get? target = some generator := found
    rw [Heap.get?_alloc] at found
    split at found
    · obtain rfl := Option.some.inj found
      exact ⟨closure, Heap.get?_alloc_of_get? held⟩
    · exact absurd (Heap.lt_size_of_get?_eq_some found) (Nat.not_lt_of_le new)
  · exact (Heap.get?_alloc_of_ne (by decide) _ _).symm.trans found

/-- Going on with a generator adds its frame, above the window of the current frame if that is in
use. -/
theorem resumeInto {machine : Machine} (ref : Ref .generator) (target : Option UInt8)
    (isRoot : Bool)
    (used : checked → isRoot = false → ∃ frame, machine.fiber.stack.current? = some frame ∧
      frame.top ≤ machine.fiber.stack.size) :
    machine.Tallying checked ((Exec.resumeInto ref target isRoot).after machine) := by
  intro tallies
  cases state : (machine.heap.get ref : Generator).state with
  | running =>
      rw [after_of_eq_error (resumeInto_of_running state target isRoot)]
      have raises : Along (Tallying checked) (Exec.raise .resumeActive : Exec Unit) := .raise _
      exact raises machine tallies
  | dead =>
      rw [after_of_eq_error (resumeInto_of_dead state target isRoot)]
      have raises : Along (Tallying checked) (Exec.raise .resumeDead : Exec Unit) := .raise _
      exact raises machine tallies
  | suspended =>
      obtain ⟨own, found, state⟩ := exists_of_suspended state
      have enters := meets_resumeInto_reenters found state target isRoot
      have resumes := meets_resumeInto_suspended found state target isRoot
      rw [Meets] at enters resumes
      cases result : Exec.resumeInto ref target isRoot machine with
      | ok value next =>
          rw [result] at enters resumes
          rw [after_of_eq_ok result]
          obtain ⟨frame, enters⟩ := enters
          have running : Machine.Tallies checked _ := update ref Generator.entered (fun _ => rfl)
            machine tallies
          refine running.of_fiber enters.heap resumes.waiting
            (running.fiber.push enters.frames (fun other runs => ?_) fun wanted _ inner => ?_)
          · obtain rfl : ref = other := Option.some.inj (enters.generator.symm.trans runs)
            obtain ⟨closure, held⟩ := tallies.functions ref own found
            refine (machine.heap.follows_modify_generator ref Generator.entered
              fun _ => rfl).closes ?_
            refine ⟨Heap.lt_size_of_get?_eq_some found, fun generator here => ?_⟩
            obtain rfl := Option.some.inj (found.symm.trans here)
            refine ⟨enters.function.symm, ?_⟩
            rw [enters.function, enters.closure, held, Heap.get_of_get?_eq_some held]
          · rw [enters.base]
            exact used wanted (enters.isRoot.symm.trans inner)
      | error stop next =>
          rw [result] at enters resumes
          rw [after_of_eq_error result]
          cases stop with
          | exhausted => exact absurd resumes id
          | raised fault =>
              obtain ⟨_, heap, activity, room, waiting⟩ := resumes
              have dead : Machine.Tallies checked _ := update ref Generator.killed (fun _ => rfl)
                machine tallies
              exact dead.of_fiber heap waiting
                (dead.fiber.of_frames (congrArg Activity.frames activity))

/-! ## Threads -/

theorem newThread : Along (Tallying checked) Exec.newThread := by
  intro machine tallies
  refine tallies.of_heap rfl rfl (machine.heap.follows_alloc _)
    (fun ref generator new found => ?_) fun thread fiber found => ?_
  · have found : (@Heap.alloc .thread machine.heap _).2.get? ref = some generator := found
    rw [Heap.get?_alloc_of_ne (by decide)] at found
    exact absurd (Heap.lt_size_of_get?_eq_some found) (Nat.not_lt_of_le new)
  · have found : (@Heap.alloc .thread machine.heap _).2.get? thread = some (some fiber) := found
    rw [Heap.get?_alloc] at found
    split at found
    · obtain rfl := Option.some.inj (Option.some.inj found)
      exact .inl rfl
    · exact .inr found

theorem setEntry (entry : Value) : Along (Tallying checked)
    (Exec.onFiber fun fiber => { fiber with entry := some entry }) :=
  fun _ tallies => tallies.of_stack rfl rfl rfl

/-- Objects have been released or emptied. -/
theorem culled {machine next : Machine} {external : List Nat}
    (fiber : next.fiber = machine.fiber) (waiting : next.waiting = machine.waiting)
    (culls : machine.heap.Culls external next.heap)
    (threads : ∀ (ref : Ref .thread) (content : Option Fiber), next.heap.get? ref = some content →
      ∃ former : Option Fiber, machine.heap.get? ref = some former ∧
        (content = former ∨ content = @Content.emptied .thread former)) :
    machine.Tallying checked next := by
  refine fun tallies => tallies.of_heap (fiber ▸ rfl) waiting culls.follows
    (fun ref generator new found => ?_) fun ref own found => ?_
  · have within := Heap.lt_size_of_get?_eq_some found
    rw [culls.size] at within
    exact absurd within (Nat.not_lt_of_le new)
  · obtain ⟨former, there, rfl | emptied⟩ := threads ref _ found
    · exact .inr there
    · obtain ⟨own, rfl, rfl⟩ := Option.map_eq_some_iff.mp emptied.symm
      exact .inl rfl

theorem settle : Along (Tallying checked) (modify Machine.settle : Exec Unit) :=
  fun machine => culled rfl rfl (machine.heap.culls_release machine.external)
    fun _ content found => ⟨content, Heap.get?_of_get?_release found, .inl rfl⟩

theorem collect : Along (Tallying checked) (modifyGet Machine.collect : Exec Nat) :=
  fun machine => culled rfl rfl (machine.heap.culls_collect machine.external)
    fun _ _ found => Heap.get?_collect found

end Exec.Tallying

/-! ## Machines at rest -/

namespace Machine

variable {checked : Prop} {machine : Machine}

theorem tallies_create (limits : Limits) : (Machine.create limits).Tallies checked := by
  have none : ∀ (ref : Ref .generator) (generator : Generator),
      (Machine.create limits).heap.get? ref ≠ some generator := by
    intro ref generator found
    rw [create, Heap.get?_alloc_of_ne (by decide)] at found
    exact absurd (Heap.lt_size_of_get?_eq_some found) (by simp [Heap.size])
  refine ⟨fun ref generator found => absurd found (none ref generator), fun post fiber here => ?_⟩
  have frames : fiber.stack.frames = #[] := by
    cases post with
    | line index =>
        cases index with
        | zero => exact Option.some.inj here ▸ rfl
        | succ index => cases here
    | thread ref =>
        have found : (Machine.create limits).heap.get? ref = some (some fiber) :=
          fiberAt?_thread_eq_some.mp here
        rw [create, Heap.get?_alloc_of_ne (by decide)] at found
        exact absurd (Heap.lt_size_of_get?_eq_some found) (by simp [Heap.size])
  exact .of_empty frames

/-- The heap of a machine that enters or leaves a thread is the same but for the thread. -/
theorem Tallies.of_set {next : Machine} {ref : Ref .thread} {content : Option Fiber}
    (tallies : machine.Tallies checked) (heap : next.heap = machine.heap.set ref content)
    (was : ∀ post fiber, next.fiberAt? post = some fiber →
      ∃ origin, machine.fiberAt? origin = some fiber) : next.Tallies checked := by
  refine tallies.of_origin ?_ (fun target generator new found => ?_) fun post fiber here => ?_
  · rw [heap]
    exact machine.heap.follows_modify ref _ (by decide) (by decide)
  · have within := Heap.lt_size_of_get?_eq_some found
    rw [heap, Heap.set, Heap.size_modify] at within
    exact absurd within (Nat.not_lt_of_le new)
  · obtain ⟨origin, there⟩ := was post fiber here
    exact .inr ⟨origin, fiber, there, rfl⟩

/-- Entering a thread moves its fiber. -/
theorem Tallying.entered {ref : Ref .thread} {fiber : Fiber}
    (found : machine.heap.get? ref = some (some fiber)) :
    machine.Tallying checked (machine.entered ref fiber) := by
  have heap : (machine.entered ref fiber).heap = machine.heap.set ref none := rfl
  refine fun tallies => tallies.of_set heap fun post own here => ?_
  cases post with
  | line index =>
      cases index with
      | zero =>
          obtain rfl := Option.some.inj here
          exact ⟨.thread ref, fiberAt?_thread_eq_some.mpr found⟩
      | succ index => exact ⟨.line index, here⟩
  | thread other =>
      have there : (machine.heap.set ref none).get? other = some (some own) :=
        fiberAt?_thread_eq_some.mp here
      rw [Heap.set, Heap.get?_modify] at there
      split at there
      · obtain ⟨_, _, same⟩ := Option.map_eq_some_iff.mp there
        cases same
      · exact ⟨.thread other, fiberAt?_thread_eq_some.mpr there⟩

/-- Leaving a thread moves it back. -/
theorem Tallying.left {fiber : Fiber} {waiting : List Fiber} (ref : Ref .thread)
    (waits : machine.waiting = fiber :: waiting) :
    machine.Tallying checked (leaveThread ref machine) := by
  rw [leaveThread, waits]
  let next : Machine :=
    { machine with fiber, waiting, heap := machine.heap.set ref (some machine.fiber) }
  have heap : next.heap = machine.heap.set ref (some machine.fiber) := rfl
  refine fun tallies => tallies.of_set heap fun post own here => ?_
  have lined : ∀ index : Nat, (fiber :: waiting)[index]? = some own →
      ∃ origin, machine.fiberAt? origin = some own := by
    intro index there
    refine ⟨.line (index + 1), ?_⟩
    show machine.waiting[index]? = some own
    rw [waits]
    exact there
  cases post with
  | line index => exact lined index here
  | thread other =>
      have there : (machine.heap.set ref (some machine.fiber)).get? other = some (some own) :=
        fiberAt?_thread_eq_some.mp here
      rw [Heap.set, Heap.get?_modify] at there
      split at there
      · obtain ⟨_, _, same⟩ := Option.map_eq_some_iff.mp there
        obtain rfl := Option.some.inj same
        exact ⟨.line 0, rfl⟩
      · exact ⟨.thread other, fiberAt?_thread_eq_some.mpr there⟩

end Machine

end ScriptMachine
