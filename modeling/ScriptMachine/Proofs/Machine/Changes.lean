import Mathlib.Logic.Relation
import ScriptMachine.Proofs.Machine.Evolution
import ScriptMachine.Proofs.Machine.Faithful

/-!
# Frames and generators

A generator is run by one frame at most, wherever the frame is: in the fiber that is running, in one
that waits for it, or in that of a thread in the heap.  `Machine.Change` lists all that can happen
to generators, frames and threads, with everything else left open.  Each change keeps frames and
generators paired, and drops the dead dead.
-/

namespace ScriptMachine

/-- The generator that the frame with a number runs. -/
def Fiber.generatorAt? (fiber : Fiber) (number : Nat) : Option (Ref .generator) :=
  fiber.stack.frames[number]?.bind Frame.generator

/-- What the frames of the fiber run has been run by the frames with the same numbers before. -/
def Fiber.Thins (before after : Fiber) : Prop :=
  ∀ number ref, after.generatorAt? number = some ref → before.generatorAt? number = some ref

/-- A fiber refers to the generators that its frames run. -/
theorem Fiber.mem_references_of_generatorAt? {fiber : Fiber} {number : Nat} {ref : Ref .generator}
    (runs : fiber.generatorAt? number = some ref) : ref.index ∈ fiber.references := by
  obtain ⟨frame, here, runs⟩ := Option.bind_eq_some_iff.mp runs
  have member : frame ∈ fiber.stack.frames.toList :=
    Array.mem_toList_iff.mpr (Array.mem_of_getElem? here)
  have refers : ref.index ∈ frame.references := by simp [Frame.references, runs]
  have among := List.mem_flatMap.mpr ⟨frame, member, refers⟩
  simp only [Fiber.references, List.mem_append]
  exact .inl (.inl (.inr among))

/-- Where a fiber is to be found. -/
inductive Post where
  /-- It goes on after so many others have been left; the first one is running. -/
  | line (index : Nat)
  /-- It is that of a thread that is not being run. -/
  | thread (ref : Ref .thread)

/-- Where a fiber was before a thread was entered. -/
def Post.beforeEntering (thread : Ref .thread) : Post → Post
  | .line 0 => .thread thread
  | .line (index + 1) => .line index
  | .thread other => .thread other

/-- Where a fiber was before a thread was left. -/
def Post.beforeLeaving (thread : Ref .thread) : Post → Post
  | .line index => .line (index + 1)
  | .thread other => if other = thread then .line 0 else .thread other

namespace Machine

/-- The fiber at a post. -/
def fiberAt? (machine : Machine) : Post → Option Fiber
  | .line index => (machine.fiber :: machine.waiting)[index]?
  | .thread ref => Option.join (α := Fiber) (machine.heap.get? ref)

/-- The generator that a frame of the fiber at a post runs. -/
def generatorAt? (machine : Machine) (post : Post) (number : Nat) : Option (Ref .generator) :=
  (machine.fiberAt? post).bind (·.generatorAt? number)

/-- Frames and the generators that they run belong together one to one. -/
structure Paired (machine : Machine) : Prop where
  /-- A generator that a frame runs is running. -/
  running : ∀ post number ref, machine.generatorAt? post number = some ref →
    ∃ generator : Generator, machine.heap.get? ref = some generator ∧ generator.state = .running
  /-- No generator is run by two frames. -/
  single : ∀ post number post' number' ref, machine.generatorAt? post number = some ref →
    machine.generatorAt? post' number' = some ref → post = post' ∧ number = number'

end Machine

/-! ## Heaps -/

namespace Heap

/-- Neither generators nor threads have been changed, and no closure is gone. -/
structure Spares (before after : Heap) : Prop where
  /-- No number is lost. -/
  size : before.size ≤ after.size
  /-- Generators are the same. -/
  generators : ∀ ref : Ref .generator, after.get? ref = before.get? ref
  /-- Threads are the same. -/
  threads : ∀ ref : Ref .thread, after.get? ref = before.get? ref
  /-- Closures are left. -/
  closures : ∀ (ref : Ref .closure) (closure : Closure), before.get? ref = some closure →
    after.get? ref = some closure

/-- Some objects are gone or have been emptied, but nothing that is held from outside, and nothing
that the frames of a thread run. -/
structure Culls (external : List Nat) (before after : Heap) : Prop where
  /-- No number is lost. -/
  size : after.size = before.size
  /-- What is held from outside is the same. -/
  held : ∀ index ∈ external, after.object? index = before.object? index
  /-- So is a thread with a frame that runs a generator, and the generator with it. -/
  threads : ∀ (ref : Ref .thread) (fiber : Fiber) (number : Nat) (generator : Ref .generator),
    after.get? ref = some (some fiber) → fiber.generatorAt? number = some generator →
    before.get? ref = some (some fiber) ∧
      after.object? generator.index = before.object? generator.index
  /-- A generator that is left is the same, or its activation has ended. -/
  generators : ∀ (ref : Ref .generator) (generator : Generator), after.get? ref = some generator →
    ∃ former : Generator, before.get? ref = some former ∧
      (generator = former ∨ generator = former.killed)
  /-- The closure of a generator that is left is left, too. -/
  closures : ∀ (ref : Ref .generator) (generator : Generator) (closure : Closure),
    after.get? ref = some generator → before.get? generator.closure = some closure →
    after.get? generator.closure = some closure

/-- The generator keeps as many registers as an activation of its function has.  The function body
that has been loaded has at least the registers of its parameters. -/
def Fills (heap : Heap) (generator : Generator) : Prop :=
  ∃ closure : Closure, heap.get? generator.closure = some closure ∧
    (closure.routine.parameterCount ≤ closure.routine.stackSize →
      generator.window.size = closure.routine.stackSize)

variable {heap before between after : Heap} {external : List Nat} {kind : Kind}

theorem Spares.refl (heap : Heap) : heap.Spares heap :=
  ⟨Nat.le_refl _, fun _ => rfl, fun _ => rfl, fun _ _ found => found⟩

theorem Spares.trans (first : before.Spares between) (second : between.Spares after) :
    before.Spares after where
  size := Nat.le_trans first.size second.size
  generators ref := (second.generators ref).trans (first.generators ref)
  threads ref := (second.threads ref).trans (first.threads ref)
  closures ref closure found := second.closures ref closure (first.closures ref closure found)

theorem Inert.spares (inert : before.Inert after) : before.Spares after :=
  ⟨inert.size_le, inert.get?_eq rfl, inert.get?_eq rfl,
    fun ref _ found => (inert.get?_eq rfl ref).trans found⟩

theorem spares_alloc (heap : Heap) (content : Content kind) (plain : kind ≠ .generator)
    (still : kind ≠ .thread) : heap.Spares (heap.alloc content).2 := by
  refine ⟨?_, get?_alloc_of_ne plain.symm content, get?_alloc_of_ne still.symm content, ?_⟩
  · rw [size_alloc]
    exact Nat.le_succ _
  · intro ref closure found
    rw [get?_eq_some] at found ⊢
    rw [object?_alloc, if_neg]
    · exact found
    · exact Nat.ne_of_lt (lt_size_of_get?_eq_some (get?_eq_some.mpr found))

theorem get?_alloc_of_get? {content : Content kind} {other : Kind} {ref : Ref other}
    {found : Content other} (here : heap.get? ref = some found) :
    (heap.alloc content).2.get? ref = some found := by
  have within := lt_size_of_get?_eq_some here
  rw [get?_eq_some] at here ⊢
  rw [object?_alloc, if_neg (Nat.ne_of_lt within)]
  exact here

/-- Changing an object twice is one change. -/
theorem modify_modify (heap : Heap) (ref : Ref kind) (first second : Content kind → Content kind) :
    (heap.modify ref first).modify ref second = heap.modify ref fun content =>
      second (first content) := by
  have contents : ∀ object : Option Object, changeContent second (changeContent first object) =
      changeContent (fun content => second (first content)) object := by
    intro object
    cases object with
    | none => rfl
    | some object =>
        obtain ⟨own, content⟩ := object
        by_cases same : own = kind
        · subst same
          simp [changeContent]
        · simp [changeContent, same]
  refine congrArg (Heap.mk · heap.hidden) (Array.ext_getElem? fun index => ?_)
  simp only [modify, Array.getElem?_modify]
  split
  · rw [Option.map_map]
    exact congrArg (fun change => Option.map change heap.objects[index]?) (funext contents)
  · rfl

/-! ### Release and collection -/

theorem Culls.trans (first : before.Culls external between)
    (second : between.Culls external after) :
    before.Culls external after where
  size := second.size.trans first.size
  held index outside := (second.held index outside).trans (first.held index outside)
  threads ref fiber number generator found runs := by
    obtain ⟨former, same⟩ := second.threads ref fiber number generator found runs
    obtain ⟨origin, before⟩ := first.threads ref fiber number generator former runs
    exact ⟨origin, same.trans before⟩
  generators ref generator found := by
    obtain ⟨former, there, same⟩ := second.generators ref generator found
    obtain ⟨origin, here, before⟩ := first.generators ref former there
    refine ⟨origin, here, ?_⟩
    rcases same with rfl | rfl
    · exact before
    · rcases before with rfl | rfl
      · exact .inr rfl
      · exact .inr rfl
  closures ref generator closure found held := by
    obtain ⟨former, there, same⟩ := second.generators ref generator found
    have alike : generator.closure = former.closure := by
      rcases same with rfl | rfl
      · rfl
      · rfl
    refine second.closures ref generator closure found ?_
    rw [alike] at held ⊢
    exact first.closures ref former closure there held

/-- A thread refers to the generators that its frames run. -/
theorem mem_referencesAt_of_generatorAt? {ref : Ref .thread} {fiber : Fiber} {number : Nat}
    {generator : Ref .generator} (found : heap.get? ref = some (some fiber))
    (runs : fiber.generatorAt? number = some generator) :
    generator.index ∈ heap.referencesAt ref.index :=
  mem_referencesAt.mpr
    ⟨_, get?_eq_some.mp found, .inl (Fiber.mem_references_of_generatorAt? runs)⟩

theorem culls_release (heap : Heap) (external : List Nat) :
    heap.Culls external (heap.release external) where
  size := (heap.release_spec external).1.size
  held _ outside := object?_release_of_mem_external outside
  threads _ _ _ _ found runs :=
    ⟨get?_of_get?_release found,
      object?_release_of_mem (mem_referencesAt_of_generatorAt? found runs)⟩
  generators _ generator found := ⟨generator, get?_of_get?_release found, .inl rfl⟩
  closures := (heap.follows_release external).keeps

/-- An emptied thread has no frames. -/
theorem generatorAt?_emptied {content : Option Fiber} {fiber : Fiber}
    (same : some fiber = @Content.emptied .thread content) (number : Nat) :
    fiber.generatorAt? number = none := by
  obtain ⟨own, rfl, rfl⟩ := Option.map_eq_some_iff.mp same.symm
  simp [Fiber.generatorAt?]

theorem culls_emptyUnmarked (heap : Heap) (external : List Nat) :
    heap.Culls external (heap.emptyUnmarked (heap.reached external [])) := by
  have kept : ∀ index, Reachable heap external [] index →
      (heap.emptyUnmarked (heap.reached external [])).object? index = heap.object? index := by
    intro index reachable
    rw [object?_emptyUnmarked, if_pos ((getElem?_reached_iff index).mpr reachable)]
  have absent : ∀ index, heap.object? index = none →
      (heap.emptyUnmarked (heap.reached external [])).object? index = none := by
    intro index nothing
    rw [object?_emptyUnmarked, nothing]
    split
    · rfl
    · rfl
  refine ⟨size_emptyUnmarked _, fun index outside => ?_,
    fun ref fiber number generator found runs => ?_, fun ref generator found => ?_,
    (heap.follows_emptyUnmarked _).keeps⟩
  · cases here : heap.object? index with
    | none => exact absent index here
    | some object => exact (kept index (.held here outside)).trans here
  · -- A thread that has been emptied has no frames, so this one can be reached.
    have reachable : Reachable heap external [] ref.index := by
      by_contra unreachable
      have marked : (heap.reached external [])[ref.index]? ≠ some true := fun mark =>
        unreachable ((getElem?_reached_iff ref.index).mp mark)
      rw [get?_eq_some, object?_emptyUnmarked, if_neg marked] at found
      obtain ⟨⟨kind, content⟩, _, emptied⟩ := Option.map_eq_some_iff.mp found
      obtain ⟨rfl, same⟩ : kind = .thread ∧ HEq content.emptied (some fiber) := by
        simpa [Object.emptied] using emptied
      rw [generatorAt?_emptied (eq_of_heq same).symm] at runs
      exact absurd runs (by simp)
    have former : heap.get? ref = some (some fiber) := by
      rw [get?_eq_some] at found ⊢
      exact (kept _ reachable).symm.trans found
    refine ⟨former, ?_⟩
    have refers := mem_referencesAt_of_generatorAt? former runs
    cases here : heap.object? generator.index with
    | none => exact absent _ here
    | some object =>
        have reached := reachable.holds refers here
        exact (kept _ reached).trans here
  · exact get?_emptyUnmarked found

theorem culls_collect (heap : Heap) (external : List Nat) :
    heap.Culls external (heap.collect external []).2 :=
  (culls_release heap external).trans
    ((culls_emptyUnmarked _ external).trans (culls_release _ external))

end Heap

/-! ## Changes -/

namespace Machine

/-- The machines have the same fibers waiting, and the frames of the running one have run before
what they run now. -/
structure Thins (before after : Machine) : Prop where
  /-- No frame has been added that runs a generator. -/
  fiber : before.fiber.Thins after.fiber
  /-- The running fiber has no more registers than it is allowed, if that has been so. -/
  room : before.fiber.Roomy → after.fiber.Roomy
  /-- The same fibers wait. -/
  waiting : after.waiting = before.waiting

/-- The frame of a generator has been left. -/
structure Drops (before after : Machine) (ref : Ref .generator) : Prop where
  /-- Some frame has run the generator and does so no more. -/
  frame : ∃ left, before.fiber.generatorAt? left = some ref ∧
    ∀ number other, after.fiber.generatorAt? number = some other →
      before.fiber.generatorAt? number = some other ∧ number ≠ left
  /-- The running fiber has no more registers than it is allowed, if that has been so. -/
  room : before.fiber.Roomy → after.fiber.Roomy
  /-- The same fibers wait. -/
  waiting : after.waiting = before.waiting

/-- What happens to generators, frames and threads, one thing after the other.  Where windows are
checked, a generator is left with all registers of its activation. -/
inductive Change (checked : Prop) (before after : Machine) : Prop
  /-- Frames have been removed, or added without a generator. -/
  | quiet (thins : before.Thins after) (heap : before.heap.Spares after.heap)
  /-- A generator has been created. -/
  | created (generator : Generator) (fills : before.heap.Fills generator)
      (state : generator.state = .suspended) (thins : before.Thins after)
      (heap : after.heap = (@Heap.alloc .generator before.heap generator).2)
  /-- A thread has been created. -/
  | hatched (fiber : Fiber) (frames : ∀ number, fiber.generatorAt? number = none)
      (small : fiber.Roomy) (thins : before.Thins after)
      (heap : after.heap = (@Heap.alloc .thread before.heap fiber).2)
  /-- A frame has been added for a generator that was suspended. -/
  | resumed (ref : Ref .generator) (generator : Generator) (added : Nat)
      (found : before.heap.get? ref = some generator) (state : generator.state = .suspended)
      (fiber : ∀ number other, after.fiber.generatorAt? number = some other →
        before.fiber.generatorAt? number = some other ∨ number = added ∧ other = ref)
      (room : before.fiber.Roomy → after.fiber.Roomy) (waiting : after.waiting = before.waiting)
      (heap : after.heap = before.heap.modify ref Generator.entered)
  /-- There was no room for the frame of a generator that was suspended. -/
  | failed (ref : Ref .generator) (generator : Generator)
      (found : before.heap.get? ref = some generator) (state : generator.state = .suspended)
      (thins : before.Thins after) (heap : after.heap = before.heap.modify ref Generator.killed)
  /-- The activation of a generator has ended. -/
  | ended (ref : Ref .generator) (drops : before.Drops after ref)
      (heap : after.heap = before.heap.modify ref Generator.killed)
  /-- The activation of a generator has been left, to go on with it later. -/
  | yielded (ref : Ref .generator) (window : Array Value) (ip : Nat) (traps : List SavedTrap)
      (fills : checked → ∀ generator : Generator, before.heap.get? ref = some generator →
        before.heap.Fills (generator.left window ip traps))
      (drops : before.Drops after ref)
      (heap : after.heap = before.heap.modify ref (Generator.left · window ip traps))
  /-- A thread has been entered. -/
  | entered (ref : Ref .thread) (found : before.heap.get? ref = some (some after.fiber))
      (waiting : after.waiting = before.fiber :: before.waiting)
      (heap : after.heap = before.heap.set ref none)
  /-- A thread has been left. -/
  | left (ref : Ref .thread) (waiting : before.waiting = after.fiber :: after.waiting)
      (heap : after.heap = before.heap.set ref (some before.fiber))
  /-- Objects have been released or emptied. -/
  | culled (fiber : after.fiber = before.fiber) (waiting : after.waiting = before.waiting)
      (room : before.heap.Roomy → after.heap.Roomy)
      (heap : before.heap.Culls before.external after.heap)

/-- One change after the other. -/
abbrev Path (checked : Prop) : Machine → Machine → Prop := Relation.ReflTransGen (Change checked)

variable {before after : Machine} {checked : Prop}

theorem generatorAt?_line_succ (machine : Machine) (index number : Nat) :
    machine.generatorAt? (.line (index + 1)) number =
      machine.waiting[index]?.bind (·.generatorAt? number) := by
  rw [generatorAt?, fiberAt?, List.getElem?_cons_succ]

theorem generatorAt?_thread_eq_some {machine : Machine} {thread : Ref .thread} {number : Nat}
    {ref : Ref .generator} : machine.generatorAt? (.thread thread) number = some ref ↔
      ∃ fiber : Fiber, machine.heap.get? thread = some (some fiber) ∧
        fiber.generatorAt? number = some ref := by
  rw [generatorAt?, fiberAt?, Option.bind_eq_some_iff]
  refine exists_congr fun fiber => and_congr_left fun _ => ?_
  exact Option.join_eq_some_iff

/-- Generators and frames stay paired where every frame that runs a generator now has been found at
one post before, and the generator goes on running. -/
theorem Paired.of_origin (paired : before.Paired) (origin : Post → Post)
    (was : ∀ post number ref, after.generatorAt? post number = some ref →
      before.generatorAt? (origin post) number = some ref)
    (apart : ∀ post number post' number' ref, after.generatorAt? post number = some ref →
      after.generatorAt? post' number' = some ref → origin post = origin post' → post = post')
    (runs : ∀ post number ref (generator : Generator), after.generatorAt? post number = some ref →
      before.heap.get? ref = some generator → generator.state = .running →
      ∃ later : Generator, after.heap.get? ref = some later ∧ later.state = .running) :
    after.Paired where
  running post number ref here := by
    obtain ⟨generator, found, state⟩ := paired.running _ _ _ (was post number ref here)
    exact runs post number ref generator here found state
  single post number post' number' ref here there := by
    obtain ⟨same, numbers⟩ :=
      paired.single _ _ _ _ ref (was _ _ _ here) (was _ _ _ there)
    exact ⟨apart _ _ _ _ ref here there same, numbers⟩

/-- Fibers that wait, and those of threads, are where they were. -/
theorem was_of_line {number : Nat} {ref : Ref .generator} {post : Post}
    (fiber : ∀ ref, after.fiber.generatorAt? number = some ref →
      before.fiber.generatorAt? number = some ref)
    (waiting : after.waiting = before.waiting)
    (threads : ∀ ref : Ref .thread, after.heap.get? ref = before.heap.get? ref)
    (here : after.generatorAt? post number = some ref) :
    before.generatorAt? post number = some ref := by
  cases post with
  | line index =>
      cases index with
      | zero => exact fiber ref here
      | succ index =>
          rw [generatorAt?_line_succ] at here ⊢
          rw [← waiting]
          exact here
  | thread thread =>
      rw [generatorAt?_thread_eq_some] at here ⊢
      rw [← threads thread]
      exact here

theorem Thins.was (thins : before.Thins after)
    (threads : ∀ ref : Ref .thread, after.heap.get? ref = before.heap.get? ref) (post : Post)
    (number : Nat) (ref : Ref .generator) (here : after.generatorAt? post number = some ref) :
    before.generatorAt? post number = some ref :=
  was_of_line (thins.fiber number) thins.waiting threads here

/-- A generator that a fiber in line runs is held from outside the heap. -/
theorem mem_external_of_generatorAt? {machine : Machine} {index number : Nat}
    {ref : Ref .generator} (runs : machine.generatorAt? (.line index) number = some ref) :
    ref.index ∈ machine.external := by
  obtain ⟨fiber, here, runs⟩ := Option.bind_eq_some_iff.mp runs
  have refers := Fiber.mem_references_of_generatorAt? runs
  rw [external, List.mem_append, List.mem_append]
  cases index with
  | zero =>
      obtain rfl := Option.some.inj here
      exact .inl (.inr refers)
  | succ index =>
      have here : machine.waiting[index]? = some fiber := by
        rw [← List.getElem?_cons_succ]
        exact here
      exact .inr (List.mem_flatMap.mpr ⟨fiber, List.mem_of_getElem? here, refers⟩)

/-- A suspended generator is run by no frame. -/
theorem Paired.ne_of_suspended (paired : before.Paired) {ref other : Ref .generator}
    {generator : Generator} (found : before.heap.get? ref = some generator)
    (state : generator.state ≠ .running) {post : Post} {number : Nat}
    (runs : before.generatorAt? post number = some other) : other ≠ ref := by
  rintro rfl
  obtain ⟨own, here, running⟩ := paired.running post number other runs
  rw [found] at here
  obtain rfl := Option.some.inj here
  exact state running

/-- A generator that no frame runs any more may be changed. -/
theorem Paired.modify (paired : before.Paired) {ref : Ref .generator}
    {change : Generator → Generator} (heap : after.heap = before.heap.modify ref change)
    (was : ∀ post number other, after.generatorAt? post number = some other →
      before.generatorAt? post number = some other)
    (free : ∀ post number other, after.generatorAt? post number = some other → other ≠ ref) :
    after.Paired := by
  refine paired.of_origin id was (fun _ _ _ _ _ _ _ => id)
    fun post number other generator here found state => ⟨generator, ?_, state⟩
  rw [heap, Heap.get?_modify, if_neg]
  · exact found
  · exact fun same => free post number other here (congrArg Ref.mk same).symm

theorem threads_modify_generator {ref : Ref .generator} {change : Generator → Generator}
    (heap : after.heap = before.heap.modify ref change) (thread : Ref .thread) :
    after.heap.get? thread = before.heap.get? thread := by
  rw [heap]
  exact Heap.get?_modify_of_ne (by decide) ref change thread

/-- The one frame of a generator has been left. -/
theorem Paired.leave (paired : before.Paired) {ref : Ref .generator}
    (drops : before.Drops after ref) {change : Generator → Generator}
    (heap : after.heap = before.heap.modify ref change) : after.Paired := by
  obtain ⟨⟨left, ran, rest⟩, _, waiting⟩ := drops
  have was : ∀ post number other, after.generatorAt? post number = some other →
      before.generatorAt? post number = some other := fun post number other here =>
    was_of_line (fun other runs => (rest number other runs).1) waiting
      (threads_modify_generator heap) here
  refine paired.modify heap was fun post number other here same => ?_
  obtain rfl := same
  obtain ⟨rfl, same⟩ := paired.single post number (.line 0) left other (was _ _ _ here) ran
  exact (rest number other here).2 same

theorem Paired.resume (paired : before.Paired) {ref : Ref .generator} {generator : Generator}
    {added : Nat} (found : before.heap.get? ref = some generator)
    (state : generator.state = .suspended)
    (fiber : ∀ number other, after.fiber.generatorAt? number = some other →
      before.fiber.generatorAt? number = some other ∨ number = added ∧ other = ref)
    (waiting : after.waiting = before.waiting)
    (heap : after.heap = before.heap.modify ref Generator.entered) : after.Paired := by
  have was : ∀ post number other, after.generatorAt? post number = some other →
      before.generatorAt? post number = some other ∨
        post = .line 0 ∧ number = added ∧ other = ref := by
    intro post number other here
    by_cases first : post = .line 0
    · subst first
      rcases fiber number other here with former | ⟨same, new⟩
      · exact .inl former
      · exact .inr ⟨rfl, same, new⟩
    · refine .inl ?_
      cases post with
      | line index =>
          cases index with
          | zero => exact absurd rfl first
          | succ index =>
              rw [generatorAt?_line_succ] at here ⊢
              rw [← waiting]
              exact here
      | thread thread =>
          rw [generatorAt?_thread_eq_some] at here ⊢
          rw [← threads_modify_generator heap thread]
          exact here
  have differ : ∀ {post number other}, before.generatorAt? post number = some other →
      other ≠ ref := fun runs =>
    paired.ne_of_suspended found (by rw [state]; decide) runs
  constructor
  · intro post number other here
    rcases was post number other here with former | ⟨_, _, rfl⟩
    · obtain ⟨own, there, running⟩ := paired.running post number other former
      refine ⟨own, ?_, running⟩
      rw [heap, Heap.get?_modify, if_neg]
      · exact there
      · exact fun same => differ former (congrArg Ref.mk same).symm
    · refine ⟨generator.entered, ?_, rfl⟩
      rw [heap, Heap.get?_modify, if_pos rfl, found]
      rfl
  · intro post number post' number' other here there
    rcases was _ _ _ here with former | ⟨rfl, rfl, rfl⟩
    · rcases was _ _ _ there with former' | ⟨_, _, rfl⟩
      · exact paired.single _ _ _ _ other former former'
      · exact absurd rfl (differ former)
    · rcases was _ _ _ there with former' | ⟨rfl, rfl, _⟩
      · exact absurd rfl (differ former')
      · exact ⟨rfl, rfl⟩

/-- Entering a thread moves its fiber to the front of the line. -/
theorem Paired.enter (paired : before.Paired) {thread : Ref .thread}
    (found : before.heap.get? thread = some (some after.fiber))
    (waiting : after.waiting = before.fiber :: before.waiting)
    (heap : after.heap = before.heap.set thread none) : after.Paired := by
  have gone : ∀ other number ref, after.generatorAt? (.thread other) number = some ref →
      other ≠ thread ∧ before.generatorAt? (.thread other) number = some ref := by
    intro other number ref here
    rw [generatorAt?_thread_eq_some] at here ⊢
    obtain ⟨fiber, there, runs⟩ := here
    rw [heap, Heap.set, Heap.get?_modify] at there
    split at there
    · obtain ⟨_, _, same⟩ := Option.map_eq_some_iff.mp there
      exact absurd same (by simp)
    · rename_i differ
      exact ⟨fun same => differ (congrArg Ref.index same).symm, fiber, there, runs⟩
  refine paired.of_origin (Post.beforeEntering thread) ?_ ?_ ?_
  · intro post number ref here
    cases post with
    | line index =>
        cases index with
        | zero => exact generatorAt?_thread_eq_some.mpr ⟨after.fiber, found, here⟩
        | succ index =>
            rw [generatorAt?_line_succ, waiting] at here
            exact here
    | thread other => exact (gone other number ref here).2
  · intro post number post' number' ref here there same
    cases post with
    | line index =>
        cases post' with
        | line index' =>
            cases index with
            | zero =>
                cases index' with
                | zero => rfl
                | succ index' => exact absurd same (by simp [Post.beforeEntering])
            | succ index =>
                cases index' with
                | zero => exact absurd same (by simp [Post.beforeEntering])
                | succ index' => rw [Post.line.inj same]
        | thread other =>
            cases index with
            | zero => exact absurd (Post.thread.inj same).symm (gone other number' ref there).1
            | succ index => exact absurd same (by simp [Post.beforeEntering])
    | thread other =>
        cases post' with
        | line index' =>
            cases index' with
            | zero => exact absurd (Post.thread.inj same) (gone other number ref here).1
            | succ index' => exact absurd same (by simp [Post.beforeEntering])
        | thread other' => exact same
  · intro post number ref generator here there state
    refine ⟨generator, ?_, state⟩
    rw [heap]
    exact (Heap.get?_modify_of_ne (by decide) _ _ _).trans there

/-- Leaving a thread moves its fiber back. -/
theorem Paired.quit (paired : before.Paired) {thread : Ref .thread}
    (waiting : before.waiting = after.fiber :: after.waiting)
    (heap : after.heap = before.heap.set thread (some before.fiber)) : after.Paired := by
  have own : ∀ number ref, after.generatorAt? (.thread thread) number = some ref →
      before.generatorAt? (.line 0) number = some ref := by
    intro number ref here
    obtain ⟨fiber, there, runs⟩ := generatorAt?_thread_eq_some.mp here
    rw [heap, Heap.set, Heap.get?_modify, if_pos rfl] at there
    obtain ⟨_, _, same⟩ := Option.map_eq_some_iff.mp there
    obtain rfl := Option.some.inj same
    exact runs
  have others : ∀ other number ref, other ≠ thread →
      after.generatorAt? (.thread other) number = some ref →
      before.generatorAt? (.thread other) number = some ref := by
    intro other number ref differ here
    rw [generatorAt?_thread_eq_some] at here ⊢
    rw [heap, Heap.set, Heap.get?_modify, if_neg] at here
    · exact here
    · exact fun same => differ (congrArg Ref.mk same).symm
  have line : ∀ index other,
      Post.beforeLeaving thread (.line index) ≠ Post.beforeLeaving thread (.thread other) := by
    intro index other same
    by_cases this : other = thread
    · simp [Post.beforeLeaving, this] at same
    · simp [Post.beforeLeaving, this] at same
  refine paired.of_origin (Post.beforeLeaving thread) ?_ ?_ ?_
  · intro post number ref here
    cases post with
    | line index =>
        show before.generatorAt? (.line (index + 1)) number = some ref
        rw [generatorAt?_line_succ, waiting]
        exact here
    | thread other =>
        by_cases this : other = thread
        · subst this
          simpa [Post.beforeLeaving] using own number ref here
        · simpa [Post.beforeLeaving, this] using others other number ref this here
  · intro post number post' number' ref here there same
    cases post with
    | line index =>
        cases post' with
        | line index' => rw [Nat.succ.inj (Post.line.inj same)]
        | thread other => exact absurd same (line index other)
    | thread other =>
        cases post' with
        | line index' => exact absurd same.symm (line index' other)
        | thread other' =>
            by_cases this : other = thread
            · by_cases this' : other' = thread
              · rw [this, this']
              · simp [Post.beforeLeaving, this, this'] at same
            · by_cases this' : other' = thread
              · simp [Post.beforeLeaving, this, this'] at same
              · simpa [Post.beforeLeaving, this, this'] using same
  · intro post number ref generator here there state
    refine ⟨generator, ?_, state⟩
    rw [heap]
    exact (Heap.get?_modify_of_ne (by decide) _ _ _).trans there

/-- Objects that frames run are neither released nor emptied. -/
theorem Paired.cull (paired : before.Paired) (fiber : after.fiber = before.fiber)
    (waiting : after.waiting = before.waiting)
    (heap : before.heap.Culls before.external after.heap) : after.Paired := by
  have line : ∀ index number ref, after.generatorAt? (.line index) number = some ref →
      before.generatorAt? (.line index) number = some ref := by
    intro index number ref here
    rw [generatorAt?, fiberAt?, fiber, waiting] at here
    exact here
  have same : ∀ post number ref, after.generatorAt? post number = some ref →
      before.generatorAt? post number = some ref ∧
        after.heap.get? ref = before.heap.get? ref := by
    intro post number ref here
    cases post with
    | line index =>
        have former := line index number ref here
        refine ⟨former, ?_⟩
        rw [Heap.get?, Heap.get?, heap.held _ (mem_external_of_generatorAt? former)]
    | thread thread =>
        obtain ⟨own, found, runs⟩ := generatorAt?_thread_eq_some.mp here
        obtain ⟨former, object⟩ := heap.threads thread own number ref found runs
        refine ⟨generatorAt?_thread_eq_some.mpr ⟨own, former, runs⟩, ?_⟩
        rw [Heap.get?, Heap.get?, object]
  refine paired.of_origin id (fun post number ref here => (same post number ref here).1)
    (fun _ _ _ _ _ _ _ => id) fun post number ref generator here found state => ?_
  exact ⟨generator, (same post number ref here).2.trans found, state⟩

/-- Whatever happens, frames and generators stay paired. -/
theorem Change.paired (change : Change checked before after) (paired : before.Paired) :
    after.Paired := by
  cases change with
  | quiet thins heap =>
      refine paired.of_origin id (thins.was heap.threads) (fun _ _ _ _ _ _ _ => id)
        fun post number ref generator _ found state => ⟨generator, ?_, state⟩
      exact (heap.generators ref).trans found
  | created generator fills state thins heap =>
      have threads : ∀ ref : Ref .thread, after.heap.get? ref = before.heap.get? ref := fun ref =>
        heap ▸ Heap.get?_alloc_of_ne (by decide) _ ref
      refine paired.of_origin id (thins.was threads) (fun _ _ _ _ _ _ _ => id)
        fun post number ref own _ found state => ⟨own, ?_, state⟩
      exact heap ▸ Heap.get?_alloc_of_get? found
  | hatched fiber frames small thins heap =>
      refine paired.of_origin id (fun post number ref here => ?_) (fun _ _ _ _ _ _ _ => id)
        fun post number ref own _ found state => ⟨own, ?_, state⟩
      · cases post with
        | line index =>
            cases index with
            | zero => exact thins.fiber number ref here
            | succ index =>
                rw [generatorAt?_line_succ, thins.waiting] at here
                exact (generatorAt?_line_succ before index number).trans here
        | thread thread =>
            rw [generatorAt?_thread_eq_some] at here
            obtain ⟨own, found, runs⟩ := here
            rw [heap, Heap.get?_alloc] at found
            split at found
            · obtain rfl := Option.some.inj (Option.some.inj found)
              exact absurd ((frames number).symm.trans runs) (by simp)
            · exact generatorAt?_thread_eq_some.mpr ⟨own, found, runs⟩
      · exact heap ▸ Heap.get?_alloc_of_get? found
  | resumed ref generator added found state fiber room waiting heap =>
      exact paired.resume found state fiber waiting heap
  | failed ref generator found state thins heap =>
      have was := thins.was (threads_modify_generator heap)
      refine paired.modify heap was fun post number other here => ?_
      exact paired.ne_of_suspended found (by rw [state]; decide) (was post number other here)
  | ended ref drops heap => exact paired.leave drops heap
  | yielded ref window ip traps fills drops heap => exact paired.leave drops heap
  | entered ref found waiting heap => exact paired.enter found waiting heap
  | left ref waiting heap => exact paired.quit waiting heap
  | culled fiber waiting room heap => exact paired.cull fiber waiting heap

end Machine

/-! ## What stays true of a generator -/

/-- What is said of the generator holds, if it still exists. -/
def Heap.Knows (heap : Heap) (ref : Ref .generator) (known : Generator → Prop) : Prop :=
  ref.index < heap.size ∧ ∀ generator : Generator, heap.get? ref = some generator →
    known generator

namespace Heap

variable {heap before after : Heap} {ref : Ref .generator} {known : Generator → Prop}

theorem Knows.of_same (knows : before.Knows ref known) (size : before.size ≤ after.size)
    (same : after.get? ref = before.get? ref) : after.Knows ref known :=
  ⟨Nat.lt_of_lt_of_le knows.1 size, fun generator found => knows.2 generator (same ▸ found)⟩

theorem Knows.alloc (knows : heap.Knows ref known) {kind : Kind} (content : Content kind) :
    (heap.alloc content).2.Knows ref known := by
  refine knows.of_same ?_ ?_
  · rw [size_alloc]
    exact Nat.le_succ _
  · rw [get?, get?, object?_alloc, if_neg (Nat.ne_of_lt knows.1)]

theorem Knows.modify (knows : heap.Knows ref known) {target : Ref .generator}
    {change : Generator → Generator}
    (stays : target = ref → ∀ generator : Generator, heap.get? ref = some generator →
      known (change generator)) : (heap.modify target change).Knows ref known := by
  refine ⟨?_, fun generator found => ?_⟩
  · rw [size_modify]
    exact knows.1
  · rw [get?_modify] at found
    split at found
    · rename_i same
      obtain ⟨former, here, rfl⟩ := Option.map_eq_some_iff.mp found
      exact stays (congrArg Ref.mk same) former here
    · exact knows.2 generator found

theorem Knows.set (knows : heap.Knows ref known) (thread : Ref .thread)
    (content : Option Fiber) : (heap.set thread content).Knows ref known :=
  knows.of_same (Nat.le_of_eq (size_modify thread _).symm) (get?_modify_of_ne (by decide) _ _ _)

theorem Culls.knows {external : List Nat} (culls : before.Culls external after)
    (knows : before.Knows ref known)
    (killed : ∀ generator, known generator → known generator.killed) :
    after.Knows ref known := by
  refine ⟨culls.size ▸ knows.1, fun generator found => ?_⟩
  obtain ⟨former, here, rfl | rfl⟩ := culls.generators ref generator found
  · exact knows.2 generator here
  · exact killed former (knows.2 former here)

/-- The generator is dead, if it still exists. -/
def Buries (heap : Heap) (ref : Ref .generator) : Prop :=
  ref.index < heap.size ∧ ∀ generator : Generator, heap.get? ref = some generator →
    generator.state = .dead

/-- The generator is not running, if it still exists. -/
def Idle (heap : Heap) (ref : Ref .generator) : Prop :=
  ∀ generator : Generator, heap.get? ref = some generator → generator.state ≠ .running

/-- The generator is one of a function, if it still exists, and then the function exists, too. -/
def Closes (heap : Heap) (ref : Ref .generator) (function : Ref .closure) (closure : Closure) :
    Prop :=
  heap.Knows ref fun generator =>
    generator.closure = function ∧ heap.get? function = some closure

end Heap

namespace Machine

variable {before after : Machine} {checked : Prop} {ref : Ref .generator}
  {known : Generator → Prop}

/-- A generator whose frame has been left has been running. -/
theorem Paired.running_of_drops (paired : before.Paired) (drops : before.Drops after ref) :
    ∃ generator : Generator, before.heap.get? ref = some generator ∧
      generator.state = .running := by
  obtain ⟨⟨number, ran, _⟩, _⟩ := drops
  exact paired.running (.line 0) number ref ran

/-- What is said of a generator stays true, if it does when the generator is entered, left or
killed. -/
theorem Change.knows (change : Change checked before after) (paired : before.Paired)
    (knows : before.heap.Knows ref known)
    (entered : ∀ generator, known generator → generator.state = .suspended →
      known generator.entered)
    (killed : ∀ generator, known generator → known generator.killed)
    (left : ∀ (generator : Generator) window ip traps, before.heap.get? ref = some generator →
      known generator → generator.state = .running → known (generator.left window ip traps)) :
    after.heap.Knows ref known := by
  cases change with
  | quiet thins heap => exact knows.of_same heap.size (heap.generators ref)
  | created generator fills state thins heap => exact heap ▸ knows.alloc _
  | hatched fiber frames small thins heap => exact heap ▸ knows.alloc _
  | resumed target generator added found state fiber room waiting heap =>
      rw [heap]
      refine knows.modify fun same own here => ?_
      subst same
      obtain rfl := Option.some.inj (found.symm.trans here)
      exact entered generator (knows.2 generator found) state
  | failed target generator found state thins heap =>
      exact heap ▸ knows.modify fun _ own here => killed own (knows.2 own here)
  | ended target drops heap =>
      exact heap ▸ knows.modify fun _ own here => killed own (knows.2 own here)
  | yielded target window ip traps fills drops heap =>
      rw [heap]
      refine knows.modify fun same own here => ?_
      subst same
      obtain ⟨running, found, state⟩ := paired.running_of_drops drops
      obtain rfl := Option.some.inj (found.symm.trans here)
      exact left running window ip traps found (knows.2 running found) state
  | entered thread found waiting heap => exact heap ▸ knows.set _ _
  | left thread waiting heap => exact heap ▸ knows.set _ _
  | culled fiber waiting room heap => exact heap.knows knows killed

/-- Whatever happens, the dead stay dead. -/
theorem Change.buries (change : Change checked before after) (paired : before.Paired)
    (buries : before.heap.Buries ref) : after.heap.Buries ref :=
  change.knows paired buries (fun _ dead asleep => absurd (dead.symm.trans asleep) (by decide))
    (fun _ _ => rfl) fun _ _ _ _ _ dead runs => absurd (dead.symm.trans runs) (by decide)

/-- The function of a generator that is left is left. -/
theorem Change.keeps_closure (change : Change checked before after) {generator : Generator}
    {closure : Closure} (found : after.heap.get? ref = some generator)
    (held : before.heap.get? generator.closure = some closure) :
    after.heap.get? generator.closure = some closure := by
  have modified : ∀ {target : Ref .generator} {update : Generator → Generator},
      after.heap = before.heap.modify target update →
      after.heap.get? generator.closure = some closure := fun heap =>
    heap ▸ (Heap.get?_modify_of_ne (by decide) _ _ _).trans held
  have set : ∀ {thread : Ref .thread} {content : Option Fiber},
      after.heap = before.heap.set thread content →
      after.heap.get? generator.closure = some closure := fun heap =>
    heap ▸ (Heap.get?_modify_of_ne (by decide) _ _ _).trans held
  cases change with
  | quiet thins heap => exact heap.closures _ closure held
  | created own fills state thins heap => exact heap ▸ Heap.get?_alloc_of_get? held
  | hatched fiber frames small thins heap => exact heap ▸ Heap.get?_alloc_of_get? held
  | resumed target own added found state fiber room waiting heap => exact modified heap
  | failed target own found state thins heap => exact modified heap
  | ended target drops heap => exact modified heap
  | yielded target window ip traps fills drops heap => exact modified heap
  | entered thread found waiting heap => exact set heap
  | left thread waiting heap => exact set heap
  | culled fiber waiting room heap => exact heap.closures ref generator closure found held

/-- Whatever happens, a generator stays one of its function. -/
theorem Change.closes (change : Change checked before after) (paired : before.Paired)
    {function : Ref .closure} {closure : Closure}
    (closes : before.heap.Closes ref function closure) :
    after.heap.Closes ref function closure := by
  have same : after.heap.Knows ref fun generator => generator.closure = function :=
    change.knows paired ⟨closes.1, fun generator found => (closes.2 generator found).1⟩
      (fun _ same _ => same) (fun _ same => same) fun _ _ _ _ _ same _ => same
  refine ⟨same.1, fun generator found => ⟨same.2 generator found, ?_⟩⟩
  have held : before.heap.get? function = some closure := by
    cases was : before.heap.get? ref with
    | some former => exact (closes.2 former was).2
    | none =>
        have gone : after.heap.Knows ref fun _ => False :=
          change.knows paired ⟨closes.1, fun _ found => absurd (was.symm.trans found) (by simp)⟩
            (fun _ none _ => none) (fun _ none => none) fun _ _ _ _ _ none _ => none
        exact (gone.2 generator found).elim
  obtain rfl := same.2 generator found
  exact change.keeps_closure found held

end Machine

/-! ## Windows of suspended generators -/

/-- Suspended generators keep all registers of their activations. -/
def Heap.Stocked (heap : Heap) : Prop :=
  ∀ (ref : Ref .generator) (generator : Generator), heap.get? ref = some generator →
    generator.state = .suspended → heap.Fills generator

namespace Heap

variable {heap before after : Heap}

theorem Fills.mono {generator : Generator} (fills : before.Fills generator)
    (closures : ∀ closure : Closure, before.get? generator.closure = some closure →
      after.get? generator.closure = some closure) : after.Fills generator := by
  obtain ⟨closure, found, size⟩ := fills
  exact ⟨closure, closures closure found, size⟩

theorem Stocked.alloc (stocked : heap.Stocked) {kind : Kind} {content : Content kind}
    (fills : ∀ (ref : Ref .generator) (generator : Generator), ref.index = heap.size →
      (heap.alloc content).2.get? ref = some generator → heap.Fills generator) :
    (heap.alloc content).2.Stocked := by
  intro ref generator found state
  have former : heap.Fills generator := by
    by_cases new : ref.index = heap.size
    · exact fills ref generator new found
    · refine stocked ref generator ?_ state
      rw [get?, object?_alloc, if_neg new] at found
      exact found
  exact former.mono fun closure => get?_alloc_of_get?

theorem Stocked.modify (stocked : heap.Stocked) {target : Ref .generator}
    {change : Generator → Generator}
    (fills : ∀ generator : Generator, heap.get? target = some generator →
      (change generator).state = .suspended → heap.Fills (change generator)) :
    (heap.modify target change).Stocked := by
  intro ref generator found state
  have former : heap.Fills generator := by
    rw [get?_modify] at found
    split at found
    · rename_i same
      obtain rfl : target = ref := congrArg Ref.mk same
      obtain ⟨own, here, rfl⟩ := Option.map_eq_some_iff.mp found
      exact fills own here state
    · exact stocked ref generator found state
  exact former.mono fun closure held => (get?_modify_of_ne (by decide) _ _ _).trans held

theorem Stocked.set (stocked : heap.Stocked) (thread : Ref .thread) (content : Option Fiber) :
    (heap.set thread content).Stocked := by
  intro ref generator found state
  rw [Heap.set, get?_modify_of_ne (by decide)] at found
  exact (stocked ref generator found state).mono fun closure held =>
    (get?_modify_of_ne (by decide) _ _ _).trans held

theorem Culls.stocked {external : List Nat} (culls : before.Culls external after)
    (stocked : before.Stocked) : after.Stocked := by
  intro ref generator found state
  obtain ⟨former, here, rfl | rfl⟩ := culls.generators ref generator found
  · exact (stocked ref generator here state).mono fun closure =>
      culls.closures ref generator closure found
  · exact absurd state (by simp [Generator.killed])

end Heap

namespace Machine

variable {before after : Machine} {checked : Prop} {ref : Ref .generator}

/-- Where windows are checked, suspended generators keep all their registers. -/
theorem Change.stocked (change : Change True before after) (stocked : before.heap.Stocked) :
    after.heap.Stocked := by
  cases change with
  | quiet thins heap =>
      intro ref generator found state
      rw [heap.generators] at found
      exact (stocked ref generator found state).mono fun closure => heap.closures _ closure
  | created generator fills state thins heap =>
      rw [heap]
      refine stocked.alloc fun ref own new found => ?_
      rw [Heap.get?_alloc, if_pos new] at found
      exact Option.some.inj found ▸ fills
  | hatched fiber frames small thins heap =>
      rw [heap]
      refine stocked.alloc fun ref own new found => ?_
      rw [Heap.get?_alloc_of_ne (by decide)] at found
      exact absurd new (Nat.ne_of_lt (Heap.lt_size_of_get?_eq_some found))
  | resumed target generator added found state fiber room waiting heap =>
      exact heap ▸ stocked.modify fun own _ running => absurd running (by simp [Generator.entered])
  | failed target generator found state thins heap =>
      exact heap ▸ stocked.modify fun own _ dead => absurd dead (by simp [Generator.killed])
  | ended target drops heap =>
      exact heap ▸ stocked.modify fun own _ dead => absurd dead (by simp [Generator.killed])
  | yielded target window ip traps fills drops heap =>
      exact heap ▸ stocked.modify fun own found _ => fills trivial own found
  | entered thread found waiting heap => exact heap ▸ stocked.set _ _
  | left thread waiting heap => exact heap ▸ stocked.set _ _
  | culled fiber waiting room heap => exact heap.stocked stocked

/-- Whatever happens, no fiber has more registers than it is allowed. -/
theorem Change.roomy (change : Change checked before after) (roomy : before.Roomy) :
    after.Roomy := by
  have running : ∀ {heap : Heap}, after.heap = heap → heap.Roomy →
      (before.fiber.Roomy → after.fiber.Roomy) → after.waiting = before.waiting → after.Roomy :=
    fun same heap room waiting =>
      ⟨room roomy.fiber, fun fiber member => roomy.waiting fiber (waiting ▸ member), same ▸ heap⟩
  have changed : ∀ {target : Ref .generator} {update : Generator → Generator},
      (before.heap.modify target update).Roomy := roomy.heap.modify (by decide) _ _
  cases change with
  | quiet thins heap =>
      refine running rfl (fun ref fiber found => ?_) thins.room thins.waiting
      exact roomy.heap ref fiber ((heap.threads ref).symm.trans found)
  | created generator fills state thins heap =>
      exact running heap (roomy.heap.alloc (by decide) _) thins.room thins.waiting
  | hatched fiber frames small thins heap =>
      refine running heap (fun ref own found => ?_) thins.room thins.waiting
      rw [Heap.get?_alloc] at found
      split at found
      · exact Option.some.inj (Option.some.inj found) ▸ small
      · exact roomy.heap ref own found
  | resumed target generator added found state fiber room waiting heap =>
      exact running heap changed room waiting
  | failed target generator found state thins heap =>
      exact running heap changed thins.room thins.waiting
  | ended target drops heap => exact running heap changed drops.room drops.waiting
  | yielded target window ip traps fills drops heap =>
      exact running heap changed drops.room drops.waiting
  | entered thread found waiting heap =>
      refine ⟨roomy.heap thread after.fiber found, fun fiber member => ?_, ?_⟩
      · rw [waiting] at member
        rcases List.mem_cons.mp member with rfl | member
        · exact roomy.fiber
        · exact roomy.waiting fiber member
      · exact heap ▸ roomy.heap.set thread (by simp)
  | left thread waiting heap =>
      have front : ∀ fiber ∈ after.fiber :: after.waiting, fiber.Roomy := waiting ▸ roomy.waiting
      refine ⟨front after.fiber List.mem_cons_self, fun fiber member =>
        front fiber (List.mem_cons_of_mem _ member), ?_⟩
      rw [heap]
      exact roomy.heap.set thread fun fiber same => Option.some.inj same ▸ roomy.fiber
  | culled fiber waiting room heap =>
      exact running rfl (room roomy.heap) (fun roomy => fiber ▸ roomy) waiting

/-! ## One change after the other -/

namespace Path

theorem roomy (path : before.Path checked after) (roomy : before.Roomy) : after.Roomy := by
  induction path with
  | refl => exact roomy
  | tail _ change ih => exact change.roomy ih

theorem paired (path : before.Path checked after) (paired : before.Paired) : after.Paired := by
  induction path with
  | refl => exact paired
  | tail _ change ih => exact change.paired ih

theorem buries (path : before.Path checked after) (paired : before.Paired)
    (buries : before.heap.Buries ref) : after.heap.Buries ref := by
  induction path with
  | refl => exact buries
  | tail earlier change ih => exact change.buries (Path.paired earlier paired) ih

theorem closes (path : before.Path checked after) (paired : before.Paired)
    {function : Ref .closure} {closure : Closure}
    (closes : before.heap.Closes ref function closure) :
    after.heap.Closes ref function closure := by
  induction path with
  | refl => exact closes
  | tail earlier change ih => exact change.closes (Path.paired earlier paired) ih

theorem stocked (path : before.Path True after) (stocked : before.heap.Stocked) :
    after.heap.Stocked := by
  induction path with
  | refl => exact stocked
  | tail _ change ih => exact change.stocked ih

end Path

/-! ## Generators at rest -/

/-- Whatever happens, the generator is never running. -/
def Bypasses (ref : Ref .generator) : Machine → Machine → Prop :=
  Relation.ReflTransGen fun before after => Change False before after ∧ after.heap.Idle ref

namespace Bypasses

theorem path (bypasses : Bypasses ref before after) : before.Path False after :=
  Relation.ReflTransGen.mono (fun _ _ => And.left) _ _ bypasses

/-- A suspended generator that is not gone on with is left as it is, or it is dead or gone. -/
theorem eq_of_suspended (bypasses : Bypasses ref before after) (paired : before.Paired)
    {own later : Generator} (found : before.heap.get? ref = some own)
    (state : own.state = .suspended) (there : after.heap.get? ref = some later)
    (asleep : later.state = .suspended) : later = own := by
  have kept : after.heap.Idle ref ∧
      after.heap.Knows ref fun generator => generator.state = .suspended → generator = own := by
    clear there asleep
    induction bypasses with
    | refl =>
        have here : ∀ generator, before.heap.get? ref = some generator → generator = own :=
          fun generator other => Option.some.inj (other.symm.trans found)
        refine ⟨fun generator other => ?_, Heap.lt_size_of_get?_eq_some found,
          fun generator other _ => here generator other⟩
        rw [here generator other, state]
        decide
    | tail earlier last ih =>
        refine ⟨last.2, last.1.knows ((Bypasses.path earlier).paired paired) ih.2 ?_ ?_ ?_⟩
        · exact fun _ _ _ running => absurd running (by simp [Generator.entered])
        · exact fun _ _ dead => absurd dead (by simp [Generator.killed])
        · exact fun generator _ _ _ other _ running => absurd running (ih.1 generator other)
  exact kept.2.2 later there asleep

end Bypasses

end Machine

end ScriptMachine
