import ScriptMachine.Proofs.Machine.Loops
import ScriptMachine.Proofs.Machine.TailCalls
import ScriptMachine.Proofs.Machine.Yielding

/-!
# Laps of loops

A loop makes a lap when it goes from its head to its body and its body leads back.  As long as the
body leaves the registers of the loop and the keys of the container alone, there is one lap for
every item, and over a generator one for every value that the generator yields.
-/

namespace ScriptMachine

open Exec

/-! ## Laps -/

/-- Nobody adds a key to the container or removes one, and nobody else goes on with it when it is a
generator, which is left waiting. -/
def Machine.Preserves (container : Value) (before after : Machine) : Prop :=
  match container with
  | .generator ref =>
    Bypasses ref before after ∧ (after.heap.get ref : Generator).state = .suspended
  | _ => before.heap.KeepsKeys after.heap container

namespace Loop

open Machine

/-- The loop goes from its head to its body by its two instructions. -/
def Enters (loop : Loop) (index : Nat) (engine engine' : Engine) (head entry : Machine) : Prop :=
  ∃ post, Proceeds engine head post ∧ loop.At index (loop.head + 1) post ∧
    Proceeds engine' post entry ∧ loop.At index (loop.head + 2) entry

/-- The body of the loop has been completed: the frame is at the head again, and neither the
registers for the container and the cursor nor the container itself have been changed. -/
structure Completes (loop : Loop) (host : Host) (root index : Nat) (container : Value)
    (entry back : Machine) : Prop where
  /-- The run loop leads back. -/
  stays : Stays host root index entry back
  /-- The frame is at the head. -/
  stands : loop.At index loop.head back
  /-- The container and the cursor are in their registers. -/
  registers : ∀ number ∈ [loop.container.toNat, loop.first.toNat + 2],
    back.register number = entry.register number
  /-- The container is left alone. -/
  preserves : entry.Preserves container back

/-- The loop has made some laps: it has entered its body so many times and completed it. -/
inductive Laps (loop : Loop) (host : Host) (root index : Nat) (container : Value)
    (enters : Machine → Machine → Prop) : Nat → Machine → Machine → Prop
  /-- The loop begins. -/
  | zero (head : Machine) : Laps loop host root index container enters 0 head head
  /-- It makes one more lap. -/
  | succ {laps : Nat} {start head entry back : Machine} :
      Laps loop host root index container enters laps start head → enters head entry →
      loop.Completes host root index container entry back →
      Laps loop host root index container enters (laps + 1) start back

/-- The loop goes through the items of its container by itself. -/
def EntersBy (loop : Loop) (host : Host) (index : Nat) (head entry : Machine) : Prop :=
  ∃ steps steps', loop.Enters index (.ofHost host steps) (.ofHost host steps') head entry

/-- The loop is at its head after some laps, and what follows the place of its cursor are the items
that it has not shown. -/
structure Stands (loop : Loop) (manners : Manners) (root index : Nat) (container : Value)
    (laps : Nat) (start head : Machine) : Prop where
  /-- The run loop goes on with the next instruction. -/
  works : head.Works manners root
  /-- The frame is at the head. -/
  stands : loop.At index loop.head head
  /-- The container is in its register. -/
  reads : head.register loop.container.toNat = container
  /-- The loop goes through its items by itself. -/
  lists : head.heap.Lists container
  /-- It has as many places as at the beginning. -/
  places : head.heap.places container = start.heap.places container
  /-- It has the same keys as at the beginning. -/
  keys : (head.heap.items container).map Prod.fst = (start.heap.items container).map Prod.fst
  /-- The cursor stands for the place of the next item. -/
  cursor : ∃ place, (head.register (loop.first.toNat + 2)).position = .ok place ∧
    head.heap.itemsFrom container place = (head.heap.items container).drop laps

/-- After some laps the loop shows the next item to its body, or it leaves. -/
structure Shows (loop : Loop) (index : Nat) (container : Value) (laps : Nat)
    (start head : Machine) : Prop where
  /-- There are no more laps than items. -/
  bound : laps ≤ (start.heap.items container).length
  /-- The keys are those that there have been at the beginning. -/
  keys : (head.heap.items container).map Prod.fst = (start.heap.items container).map Prod.fst
  /-- With the next lap, the body has the next key and its current value. -/
  next : laps < (start.heap.items container).length → ∃ entry,
    (∀ engine engine' : Engine, loop.Enters index engine engine' head entry) ∧
      entry.heap = head.heap ∧ entry.register loop.container.toNat = container ∧
      (entry.heap.items container)[laps]? =
        some (entry.register loop.first.toNat, entry.register (loop.first.toNat + 1))
  /-- After the last item the frame goes on behind the loop. -/
  leaves : laps = (start.heap.items container).length → ∃ exited,
    (∀ engine : Engine, Proceeds engine head exited) ∧ loop.At index loop.exit exited

variable {loop : Loop} {host : Host} {manners : Manners} {root index laps : Nat}
  {machine start head entry back : Machine} {container : Value}

theorem Enters.eq {engine engine' : Engine} {other : Machine}
    (enters : loop.Enters index engine engine' head entry)
    (same : loop.Enters index engine engine' head other) : other = entry := by
  obtain ⟨post, first, _, second, _⟩ := enters
  obtain ⟨post', first', _, second', _⟩ := same
  obtain rfl := first.eq first'
  exact second.eq second'

/-- A run loop that carries out an instruction of the frame goes on with the next one. -/
theorem works_of_proceeds {steps ip : Nat} {after : Machine}
    (steady : ∀ steps, (Engine.ofHost host steps).Steady manners)
    (works : machine.Works manners root) (le : root ≤ index) (stands : loop.At index ip machine)
    (proceeds : Proceeds (.ofHost host steps) machine after)
    (deep : index < after.fiber.stack.depth) : after.Works manners root := by
  have stays : Stays host root index machine after :=
    .turned (proceeds.turn_eq root) deep (.refl after)
  have floors : machine.Floors root index 0 :=
    ⟨fun _ _ => Nat.zero_le _, fun _ _ _ => Nat.zero_le _⟩
  exact (stays.upholds steady works le (by rw [stands.depth]; exact Nat.lt_succ_self _) floors).1

/-- The container is in none of the other registers of the loop. -/
theorem Apart.other (apart : loop.Apart) : loop.container.toNat ∉
    [loop.first.toNat, loop.first.toNat + 1, loop.first.toNat + 2] := by
  have container := apart.container
  simp only [List.mem_cons, List.not_mem_nil, or_false, not_or]
  omega

namespace Stands

/-- The next item is shown to the body. -/
theorem item (stands : loop.Stands manners root index container laps start head)
    (steady : ∀ steps, (Engine.ofHost host steps).Steady manners) (le : root ≤ index)
    (apart : loop.Apart) {key value : Value} {rest : List (Value × Value)}
    (listed : (head.heap.items container).drop laps = (key, value) :: rest) :
    ∃ entry cursor, (∀ engine engine' : Engine, loop.Enters index engine engine' head entry) ∧
      entry.heap = head.heap ∧ entry.register loop.container.toNat = container ∧
      entry.register loop.first.toNat = key ∧ entry.register (loop.first.toNat + 1) = value ∧
      entry.register (loop.first.toNat + 2) = .ofPosition cursor ∧
      cursor ≤ head.heap.places container ∧ head.heap.itemsFrom container cursor = rest := by
  obtain ⟨place, position, following⟩ := stands.cursor
  obtain ⟨cursor, post, bound, others, shows, moves, key, value, next⟩ :=
    stands.stands.item stands.works.ready apart stands.lists stands.reads position
      (following.trans listed)
  have works : post.Works manners root := works_of_proceeds steady stands.works le stands.stands
    (shows (.ofHost host 0)) (by rw [moves.stands.depth]; exact Nat.lt_succ_self _)
  have reads : post.register loop.container.toNat = container :=
    (moves.registers _ apart.other).trans stands.reads
  have more : ¬ Exhausted post.heap (post.register loop.container.toNat) := by
    rintro ⟨ref, generator, _⟩
    have lists := stands.lists
    rw [← reads, generator] at lists
    exact lists
  obtain ⟨entry, enters, later⟩ := moves.stands.check works.ready more
  have registers := fun number => later.registers number List.not_mem_nil
  exact ⟨entry, cursor, fun engine engine' =>
    ⟨post, shows engine, moves.stands, enters engine', later.stands⟩,
    later.heap.trans moves.heap, (registers _).trans reads, (registers _).trans key,
    (registers _).trans value, (registers _).trans next, bound, others⟩

/-- After the last item the loop is left. -/
theorem done (stands : loop.Stands manners root index container laps start head)
    (apart : loop.Apart) (listed : (head.heap.items container).drop laps = []) :
    ∃ exited, (∀ engine : Engine, Proceeds engine head exited) ∧
      loop.At index loop.exit exited := by
  obtain ⟨place, position, following⟩ := stands.cursor
  obtain ⟨exited, leaves, moves⟩ := stands.stands.done stands.works.ready apart stands.lists
    stands.reads position (following.trans listed)
  exact ⟨exited, leaves, moves.stands⟩

/-- Where the loop enters its body, there is an item left. -/
theorem listed (stands : loop.Stands manners root index container laps start head)
    (apart : loop.Apart) {engine engine' : Engine}
    (enters : loop.Enters index engine engine' head entry) :
    (head.heap.items container).drop laps ≠ [] := by
  intro ended
  obtain ⟨exited, leaves, left⟩ := stands.done apart ended
  obtain ⟨post, proceeds, stays, _⟩ := enters
  obtain rfl := (leaves engine).eq proceeds
  obtain ⟨_, frame, current, inside, contains⟩ := stays
  obtain ⟨_, other, present, out, _⟩ := left
  obtain rfl := Option.some.inj (current.symm.trans present)
  exact contains.outside.1 (out.symm.trans inside)

/-- Completing the body, the loop has made one more lap. -/
theorem completes (stands : loop.Stands manners root index container laps start head)
    (steady : ∀ steps, (Engine.ofHost host steps).Steady manners) (le : root ≤ index)
    (apart : loop.Apart) (small : start.heap.places container < 2 ^ 63)
    (enters : loop.EntersBy host index head entry)
    (completes : loop.Completes host root index container entry back) :
    loop.Stands manners root index container (laps + 1) start back := by
  obtain ⟨steps, steps', enters⟩ := enters
  obtain ⟨⟨key, value⟩, rest, listed⟩ := List.exists_cons_of_ne_nil (stands.listed apart enters)
  obtain ⟨next, cursor, shows, heap, reads, _, _, place, bound, others⟩ :=
    stands.item steady le apart listed
  obtain rfl := (shows _ _).eq enters
  obtain ⟨post, proceeds, inside, enters, standing⟩ := enters
  have same := completes.registers
  have keeps : entry.heap.KeepsKeys back.heap container := by
    have preserves := completes.preserves
    have lists := stands.lists
    cases container with
    | generator ref => exact lists.elim
    | _ => exact preserves
  rw [heap] at keeps
  have keys := keeps.map_fst_itemsFrom_eq
  have deep : index < entry.fiber.stack.depth := by
    rw [standing.depth]
    exact Nat.lt_succ_self _
  have stays : Stays host root index head back :=
    .turned (proceeds.turn_eq root) (by rw [inside.depth]; exact Nat.lt_succ_self _)
      (.turned (enters.turn_eq root) deep completes.stays)
  have floors : head.Floors root index 0 :=
    ⟨fun _ _ => Nat.zero_le _, fun _ _ _ => Nat.zero_le _⟩
  have works := (stays.upholds steady stands.works le
    (by rw [stands.stands.depth]; exact Nat.lt_succ_self _) floors).1
  refine ⟨works, completes.stands, (same _ (by simp)).trans reads,
    keeps.lists stands.lists, keeps.places_eq.trans stands.places, (keys 0).trans stands.keys,
    cursor, ?_, ?_⟩
  · rw [same _ (by simp), place]
    exact Value.position_ofPosition (Nat.lt_of_le_of_lt (stands.places ▸ bound) small)
  · -- What follows the cursor is as long as before, and all that there is at the end.
    have suffix := back.heap.itemsFrom_suffix container cursor
    have whole : (back.heap.items container).length = (head.heap.items container).length := by
      have same := congrArg List.length (keys 0)
      rwa [List.length_map, List.length_map] at same
    have left : (back.heap.itemsFrom container cursor).length = rest.length := by
      simpa [others] using congrArg List.length (keys cursor)
    have passed : (head.heap.items container).length - laps = rest.length + 1 := by
      simpa using congrArg List.length listed
    rw [List.suffix_iff_eq_drop.mp suffix, whole, left]
    congr 1
    omega

theorem shows (stands : loop.Stands manners root index container laps start head)
    (steady : ∀ steps, (Engine.ofHost host steps).Steady manners) (le : root ≤ index)
    (apart : loop.Apart) (bound : laps ≤ (start.heap.items container).length) :
    loop.Shows index container laps start head := by
  have whole : (head.heap.items container).length = (start.heap.items container).length := by
    simpa using congrArg List.length stands.keys
  refine ⟨bound, stands.keys, fun more => ?_, fun last => ?_⟩
  · have inside : laps < (head.heap.items container).length := whole ▸ more
    obtain ⟨entry, cursor, enters, heap, reads, key, value, _⟩ :=
      stands.item steady le apart (List.drop_eq_getElem_cons inside)
    refine ⟨entry, enters, heap, reads, ?_⟩
    rw [heap, key, value, List.getElem?_eq_getElem inside]
    rfl
  · exact stands.done apart (List.drop_eq_nil_of_le (by omega))

end Stands

/-- After any number of laps the loop shows the next item, or it leaves. -/
theorem Laps.stands {laps : Nat}
    (made : loop.Laps host root index container (loop.EntersBy host index) laps start head)
    (steady : ∀ steps, (Engine.ofHost host steps).Steady manners) (le : root ≤ index)
    (apart : loop.Apart) (small : start.heap.places container < 2 ^ 63)
    (begins : loop.Stands manners root index container 0 start start) :
    loop.Stands manners root index container laps start head ∧
      laps ≤ (start.heap.items container).length := by
  induction made with
  | zero => exact ⟨begins, Nat.zero_le _⟩
  | @succ laps start head entry back _ enters completes ih =>
      obtain ⟨stands, _⟩ := ih small begins
      refine ⟨stands.completes steady le apart small enters completes, ?_⟩
      have whole : (head.heap.items container).length = (start.heap.items container).length := by
        simpa using congrArg List.length stands.keys
      obtain ⟨_, _, enters⟩ := enters
      have more := mt List.drop_eq_nil_iff.mpr (stands.listed apart enters)
      omega

end Loop

/-! ## Generators -/

namespace Loop

open Machine

/-- The loop has gone on with its generator, whose frame is the current one. -/
def Awaits (host : Host) (root index : Nat) (head last : Machine) : Prop :=
  last.fiber.stack.depth = index + 2 ∧ ∃ steps entered,
    Proceeds (.ofHost host steps) head entered ∧ Stays host root (index + 1) entered last

/-- The generator that the loop has gone on with yields a value. -/
def Yields (host : Host) (root index : Nat) (value : Value) (head post : Machine) : Prop :=
  ∃ last next instruction steps, Awaits host root index head last ∧
    fetch last = .ok (some instruction) next ∧ instruction.op = .yield ∧
    handedOut .direct instruction next = .ok value next ∧
    Proceeds (.ofHost host steps) last post

/-- The generator that the loop has gone on with returns a value. -/
def Returns (host : Host) (root index : Nat) (value : Value) (head post : Machine) : Prop :=
  ∃ last next instruction steps, Awaits host root index head last ∧
    fetch last = .ok instruction next ∧ next.returned? instruction = some value ∧
    Proceeds (.ofHost host steps) last post

/-- The loop goes from its head to its body with a value that its generator has yielded. -/
def EntersWith (host : Host) (root index : Nat) (head entry : Machine) : Prop :=
  ∃ value post steps, Yields host root index value head post ∧
    Proceeds (.ofHost host steps) post entry

/-- The loop is at its head after some laps, and its generator waits. -/
structure Waits (loop : Loop) (manners : Manners) (root index : Nat) (ref : Ref .generator)
    (laps : Nat) (head : Machine) : Prop where
  /-- The run loop goes on with the next instruction. -/
  works : head.Works manners root
  /-- Frames and generators belong to each other. -/
  paired : head.Paired
  /-- The frame is at the head. -/
  stands : loop.At index loop.head head
  /-- The generator is in its register. -/
  reads : head.register loop.container.toNat = .generator ref
  /-- It is suspended. -/
  state : (head.heap.get ref : Generator).state = .suspended
  /-- The cursor is the number of laps, as far as there are such numbers. -/
  cursor : (head.register (loop.first.toNat + 2)).position = (Value.ofPosition laps).position
  /-- There are no more laps than such numbers. -/
  small : laps ≤ 2 ^ 63

variable {loop : Loop} {host : Host} {manners : Manners} {root index laps : Nat}
  {machine start head entry back : Machine} {ref : Ref .generator} {own : Generator} {place : Nat}

/-- Key and cursor have been assigned for the next value of a generator. -/
def counted (loop : Loop) (machine : Machine) (place : Nat) : Machine :=
  (machine.assigned loop.first.toNat (.ofPosition place)).assigned (loop.first.toNat + 2)
    (.ofPosition (place + 1))

/-- A loop goes on with its generator. -/
theorem meets_iterate_generator (apart : loop.Apart)
    (used : machine.fiber.base + (loop.first.toNat + 2) < machine.fiber.stack.size)
    (reads : machine.register loop.container.toNat = .generator ref)
    (found : machine.heap.get? ref = some own) (state : own.state = .suspended)
    (position : (machine.register (loop.first.toNat + 2)).position = .ok place)
    (engine : Engine) (exit : Int32) :
    (iterate .direct engine loop.container loop.first exit).Meets machine
      (fun _ entered => ∃ frame, (loop.counted machine place).Reenters ref own
        (some (loop.first + 1)) false frame [] entered)
      (fun fault _ => fault = .stackOverflow) fun _ => False := by
  have first : machine.fiber.base + loop.first.toNat < machine.fiber.stack.size := by omega
  let keyed := machine.assigned loop.first.toNat (.ofPosition place)
  have keyed_size : keyed.fiber.stack.size = machine.fiber.stack.size := size_assigned first
  have keyed_base : keyed.fiber.base = machine.fiber.base := base_assigned
  have second : keyed.fiber.base + (loop.first + 2).toNat < keyed.fiber.stack.size := by
    rw [apart.toNat_cursor]
    omega
  have counted : keyed.assigned (loop.first + 2).toNat (.ofPosition (place + 1)) =
      loop.counted machine place := by
    rw [apart.toNat_cursor]
    rfl
  have alive : (machine.heap.get ref : Generator).state ≠ .dead := by
    rw [Heap.get_of_get?_eq_some found, state]
    decide
  have held : (loop.counted machine place).heap.get? ref = some own := found
  have resumes : (iterationStep .direct engine (.generator ref)
      (machine.register (loop.first.toNat + 2))
        ⟨loop.first, loop.first + 1, loop.first + 2⟩).Meets machine
      (fun step entered => step = .resumed ∧ ∃ frame,
        (loop.counted machine place).Reenters ref own (some (loop.first + 1)) false frame []
          entered)
      (fun fault _ => fault = .stackOverflow) fun _ => False := by
    refine Meets.read_bind ?_
    rw [if_neg alive, position]
    refine Meets.ok_bind rfl
      (Meets.ok_bind (write_eq first _) (Meets.ok_bind (write_eq second _) ?_))
    rw [counted]
    exact (meets_resumeInto_reenters held state _ _).bind fun _ _ entered => ⟨rfl, entered⟩
  rw [Meets, iterate_eq apart reads]
  refine resumes.bind ?_
  rintro _ entered ⟨rfl, reenters⟩
  exact reenters

/-- While the generator that a loop has gone on with runs, its frame stands above the frame of the
loop, which has assigned its key and its cursor and is left alone. -/
structure Lends (loop : Loop) (index : Nat) (ref : Ref .generator) (frame : Frame)
    (counted machine : Machine) : Prop where
  /-- The frame of the loop goes on with the second instruction. -/
  below : machine.fiber.stack.frames[index]? = some { frame with ip := loop.head + 1 }
  /-- That of the generator stands above its window. -/
  above : ∃ upper, machine.fiber.stack.frames[index + 1]? = some upper ∧
    upper.generator = some ref ∧ upper.target = some (loop.first + 1) ∧ upper.isRoot = false ∧
    frame.top ≤ upper.base
  /-- The registers below are the same. -/
  slots : ∀ place < frame.top,
    machine.fiber.stack.slots[place]? = counted.fiber.stack.slots[place]?

/-- The value of the generator has been handed to the loop. -/
structure Receives (loop : Loop) (index : Nat) (ref : Ref .generator) (frame : Frame)
    (state : GeneratorState) (value : Value) (counted post : Machine) : Prop where
  /-- The frame of the loop goes on with the second instruction. -/
  stands : loop.At index (loop.head + 1) post
  /-- The value is in its register, and the others are the same. -/
  registers : ∀ number, frame.base + number < frame.top → post.register number =
    if number = loop.first.toNat + 1 then value else counted.register number
  /-- The generator is in a state. -/
  state : (post.heap.get ref : Generator).state = state

theorem At.resumes (stands : loop.At index loop.head machine) (ready : machine.Ready)
    (apart : loop.Apart) (reads : machine.register loop.container.toNat = .generator ref)
    (found : machine.heap.get? ref = some own) (state : own.state = .suspended)
    (position : (machine.register (loop.first.toNat + 2)).position = .ok place) (engine : Engine) :
    ∃ instruction, fetch machine = .ok (some instruction) (machine.goneTo (loop.head + 1)) ∧
      (step engine (some instruction)).Meets (machine.goneTo (loop.head + 1))
        (fun flow entered => flow = .proceed ∧ ∃ frame,
          (loop.counted (machine.goneTo (loop.head + 1)) place).Reenters ref own
            (some (loop.first + 1)) false frame [] entered)
        (fun fault _ => fault = .stackOverflow) fun _ => False := by
  obtain ⟨instruction, fetches, op, first, used⟩ := stands.foreach ready
  have registers := stands.register_goneTo (loop.head + 1)
  obtain ⟨_, frame, current, _⟩ := stands
  rw [← registers] at reads position
  have used : (machine.goneTo (loop.head + 1)).fiber.base + (loop.first.toNat + 2) <
      (machine.goneTo (loop.head + 1)).fiber.stack.size := by
    rw [base_goneTo current]
    exact used
  have held : (machine.goneTo (loop.head + 1)).heap.get? ref = some own := found
  have iterated :=
    meets_iterate_generator apart used reads held state position engine instruction.wide
  refine ⟨instruction, fetches.fetched, ?_⟩
  have container := fetches.container
  obtain ⟨_, origin, wide, second, third⟩ := instruction
  obtain rfl : _ = Opcode.foreach := op
  obtain rfl : origin = loop.container := container
  obtain rfl : second = loop.first := first
  exact iterated.bind fun _ entered reenters => ⟨rfl, reenters⟩

/-- When a loop has gone on with its generator, the frame of the generator stands above. -/
theorem lends_of_reenters {frame upper : Frame} {entered : Machine}
    (stands : loop.At index loop.head machine) (ready : machine.Ready)
    (current : machine.fiber.stack.current? = some frame)
    (reenters : (loop.counted (machine.goneTo (loop.head + 1)) place).Reenters ref own
      (some (loop.first + 1)) false upper [] entered) :
    entered.fiber.stack.depth = index + 2 ∧
      loop.Lends index ref frame (loop.counted (machine.goneTo (loop.head + 1)) place) entered := by
  let moved := machine.goneTo (loop.head + 1)
  let counted := loop.counted moved place
  have frames : counted.fiber.stack.frames = moved.fiber.stack.frames :=
    (Stack.frames_put ..).trans (Stack.frames_put ..)
  have depth : counted.fiber.stack.frames.size = index + 1 := by
    rw [frames]
    exact (depth_goTo _ _).trans stands.depth
  have present : moved.fiber.stack.current? = some { frame with ip := loop.head + 1 } :=
    current_goTo current _
  have lower : counted.fiber.stack.frames[index]? = some { frame with ip := loop.head + 1 } := by
    have place := getElem?_of_current present
    rwa [← frames, show moved.fiber.stack.depth - 1 = index by
      rw [show moved.fiber.stack.depth = index + 1 from (depth_goTo _ _).trans stands.depth]
      rfl] at place
  have size : machine.fiber.stack.size ≤ counted.fiber.stack.size := by
    show _ ≤ (Stack.put _ _ _).size
    rw [Stack.size_put]
    refine Nat.le_trans ?_ (Nat.le_max_left _ _)
    show _ ≤ (Stack.put _ _ _).size
    rw [Stack.size_put]
    exact Nat.le_max_left _ _
  have window : frame.top ≤ counted.fiber.stack.size :=
    Nat.le_trans (ready.shaped frame current) size
  refine ⟨?_, ⟨?_, ⟨upper, ?_, reenters.generator, reenters.target, reenters.isRoot, ?_⟩,
    fun other low => ?_⟩⟩
  · rw [Stack.depth, reenters.frames, Array.size_push, depth]
  · have low : index ≠ counted.fiber.stack.frames.size := by omega
    rw [reenters.frames]
    exact Array.getElem?_push.trans ((if_neg low).trans lower)
  · rw [reenters.frames, Array.getElem?_push, if_pos depth.symm]
  · rw [reenters.base]
    exact window
  · exact reenters.slots other (Nat.lt_of_lt_of_le low window) (by simp)

/-- Whatever the generator does, its frame stands above that of the loop. -/
theorem Lends.upheld {frame : Frame} {counted last : Machine}
    (lends : loop.Lends index ref frame counted machine)
    (upholds : machine.Upholds (index + 1) frame.top last) :
    loop.Lends index ref frame counted last := by
  obtain ⟨upper, there, runs, target, isRoot, high⟩ := lends.above
  obtain ⟨later, here, succeeds⟩ := upholds.frame upper there
  refine ⟨(upholds.frames index (Nat.lt_succ_self _)).trans lends.below,
    ⟨later, here, succeeds.generator.trans runs, succeeds.target.trans target,
      succeeds.isRoot.trans isRoot, succeeds.base ▸ high⟩,
    fun place low => (upholds.slots place low).trans (lends.slots place low)⟩

theorem Lends.floors {root : Nat} {frame : Frame} {counted : Machine}
    (lends : loop.Lends index ref frame counted machine) :
    machine.Floors root (index + 1) frame.top := by
  obtain ⟨upper, there, _, _, _, high⟩ := lends.above
  refine ⟨fun other found => ?_, fun _ other found => ?_⟩
  · obtain rfl := Option.some.inj (there.symm.trans found)
    exact high
  · obtain rfl := Option.some.inj (lends.below.symm.trans found)
    exact Nat.le_refl _

/-- The next instruction of the generator changes nothing by itself. -/
theorem Lends.fetched {frame : Frame} {counted next : Machine} {instruction : Option Instruction}
    (lends : loop.Lends index ref frame counted machine)
    (depth : machine.fiber.stack.depth = index + 2)
    (fetched : fetch machine = .ok instruction next) :
    loop.Lends index ref frame counted next ∧ next.fiber.stack.depth = index + 2 ∧
      ∃ upper, next.fiber.stack.current? = some upper ∧ upper.generator = some ref ∧
        upper.target = some (loop.first + 1) ∧ upper.isRoot = false ∧ frame.top ≤ upper.base := by
  obtain ⟨upper, there, runs, target, isRoot, high⟩ := lends.above
  obtain ⟨current, ip, last, moved, same, others⟩ := current_of_fetch fetched
  have place := getElem?_of_current last
  rw [depth] at place
  obtain rfl := Option.some.inj (there.symm.trans place)
  have slots : next.fiber.stack.slots = machine.fiber.stack.slots := by
    obtain ⟨_, _, ⟨_, rfl⟩ | ⟨_, _, rfl⟩⟩ := fetch_cases fetched
    · rfl
    · rfl
  have here := getElem?_of_current moved
  rw [same, depth] at here
  exact ⟨⟨(others index (by omega)).trans lends.below, ⟨_, here, runs, target, isRoot, high⟩,
    slots ▸ lends.slots⟩, same.trans depth, _, moved, runs, target, isRoot, high⟩

theorem paired_of_fetch {next : Machine} {instruction : Option Instruction}
    (paired : machine.Paired) (fetched : fetch machine = .ok instruction next) : next.Paired := by
  have path : machine.Path False _ := Travels.of_hushed Along.fetch machine
  rw [after_of_eq_ok fetched] at path
  exact path.paired paired

/-- The generator exists as long as its frame does. -/
theorem Lends.exists_own {frame : Frame} {counted : Machine}
    (lends : loop.Lends index ref frame counted machine) (paired : machine.Paired) :
    ∃ own : Generator, machine.heap.get? ref = some own := by
  obtain ⟨upper, there, runs, _⟩ := lends.above
  obtain ⟨own, found, _⟩ := paired.running (.line 0) (index + 1) ref
    (Option.bind_eq_some_iff.mpr
      ⟨machine.fiber, rfl, Option.bind_eq_some_iff.mpr ⟨upper, there, runs⟩⟩)
  exact ⟨own, found⟩

/-- Below the frame of the generator is that of the loop. -/
theorem Lends.pops {frame : Frame} {counted : Machine}
    (lends : loop.Lends index ref frame counted machine)
    (depth : machine.fiber.stack.depth = index + 2) :
    machine.fiber.stack.frames.pop.back? = some { frame with ip := loop.head + 1 } := by
  have size : machine.fiber.stack.frames.size = index + 2 := depth
  rw [Array.back?_eq_getElem?, Array.size_pop, Array.getElem?_pop, size, if_pos (by omega)]
  exact lends.below

/-- The frame of the loop receives a value. -/
theorem Lends.receives {frame : Frame} {counted post : Machine} {state : GeneratorState}
    {value : Value} (lends : loop.Lends index ref frame counted machine)
    (depth : machine.fiber.stack.depth = index + 2)
    (contains : loop.In frame.closure.routine.code) (base : counted.fiber.base = frame.base)
    (frames : post.fiber.stack.frames = machine.fiber.stack.frames.pop)
    (slots : ∀ place < frame.top, post.fiber.stack.get place =
      if some (frame.base + (loop.first.toNat + 1)) = some place then value
      else machine.fiber.stack.get place)
    (ends : (post.heap.get ref : Generator).state = state) :
    loop.Receives index ref frame state value counted post := by
  have size : machine.fiber.stack.frames.size = index + 2 := depth
  have current : post.fiber.stack.current? = some { frame with ip := loop.head + 1 } := by
    rw [Stack.current?, frames]
    exact lends.pops depth
  refine ⟨⟨?_, _, current, rfl, contains⟩, fun number low => ?_, ends⟩
  · rw [Stack.depth, frames, Array.size_pop, size]
    rfl
  · have kept : machine.fiber.stack.get (frame.base + number) =
        counted.fiber.stack.get (frame.base + number) := by
      have same := lends.slots _ low
      rw [Stack.get, Stack.get, Array.getD_eq_getD_getElem?, Array.getD_eq_getD_getElem?, same]
    have here : post.fiber.base = frame.base := by
      rw [Fiber.base, current]
      rfl
    rw [Machine.register, Machine.register, here, base, slots _ low, kept]
    simp only [Option.some.injEq, Nat.add_left_cancel_iff, eq_comm]

/-- The generator yields a value. -/
theorem Lends.yields {frame : Frame} {counted next post : Machine} {instruction : Instruction}
    {value : Value} {engine : Engine} (lends : loop.Lends index ref frame counted machine)
    (ready : machine.Ready) (paired : machine.Paired)
    (depth : machine.fiber.stack.depth = index + 2) (apart : loop.Apart)
    (contains : loop.In frame.closure.routine.code) (base : counted.fiber.base = frame.base)
    (fetched : fetch machine = .ok (some instruction) next) (yields : instruction.op = .yield)
    (handed : handedOut .direct instruction next = .ok value next)
    (proceeds : Proceeds engine machine post) :
    loop.Receives index ref frame .suspended value counted post := by
  obtain ⟨lends, deep, upper, current, runs, target, isRoot, high⟩ := lends.fetched depth fetched
  obtain ⟨own, found⟩ := lends.exists_own (paired_of_fetch paired fetched)
  have pops := lends.pops deep
  have hands : (step engine (some instruction)).Meets next
      (fun flow after => next.Leaves upper value flow after ∧
        (after.heap.get ref : Generator).state = .suspended)
      (fun fault after => (fault = .stackOverflow ∧ (next.mapStack (·.leave)).Misses upper) ∧
        (after.heap.get ref : Generator).state = .suspended) fun _ => False := by
    rw [step, dispatch, yields]
    refine Meets.ok_bind handed (meets_yieldValue_leaves (ready_of_fetch ready fetched) current runs
      value (fun _ => ⟨_, pops, high⟩) fun stored heap => ?_)
    have hushes : stored.Hushes _ := Along.leaveFrame upper value stored
    have kept := hushes.heap.generators ref
    rw [heap, Heap.get?_modify, if_pos rfl, found] at kept
    rw [Heap.get_of_get?_eq_some kept]
    rfl
  obtain ⟨leaves, state⟩ := hands.of_ok (proceeds.step_eq fetched)
  obtain ⟨_, caller, present, _, slots⟩ := leaves.inner isRoot
  have below : caller = { frame with ip := loop.head + 1 } := by
    rw [Stack.current?, leaves.frames, pops] at present
    exact (Option.some.inj present).symm
  subst below
  refine lends.receives deep contains base leaves.frames (fun place low => ?_) state
  rw [slots place low, target, Option.map_some, apart.toNat_value]

/-- The generator returns a value. -/
theorem Lends.returns {frame : Frame} {counted next post : Machine}
    {instruction : Option Instruction} {value : Value} {engine : Engine}
    (lends : loop.Lends index ref frame counted machine) (ready : machine.Ready)
    (paired : machine.Paired) (depth : machine.fiber.stack.depth = index + 2) (apart : loop.Apart)
    (contains : loop.In frame.closure.routine.code) (base : counted.fiber.base = frame.base)
    (fetched : fetch machine = .ok instruction next)
    (returned : next.returned? instruction = some value) (proceeds : Proceeds engine machine post) :
    loop.Receives index ref frame .dead value counted post := by
  obtain ⟨lends, deep, upper, current, runs, target, isRoot, high⟩ := lends.fetched depth fetched
  obtain ⟨own, found⟩ := lends.exists_own (paired_of_fetch paired fetched)
  have pops := lends.pops deep
  have hands := meets_step_returns engine (ready_of_fetch ready fetched).sound current
    (fun _ => by omega) returned
  have hands := hands.of_ok (proceeds.step_eq fetched)
  obtain ⟨_, caller, present, _, slots⟩ := hands.inner isRoot
  have below : caller = { frame with ip := loop.head + 1 } :=
    (Option.some.inj (pops.symm.trans present)).symm
  subst below
  refine lends.receives deep contains base hands.frames (fun place low => ?_) ?_
  · rw [slots place low, target, Option.map_some, apart.toNat_value]
    rfl
  · have heap : post.heap = next.heap.modify ref Generator.killed := by
      rw [hands.heap]
      show Heap.ending _ upper = _
      rw [Heap.ending, runs]
    have kept : post.heap.get? ref = some own.killed := by
      rw [heap, Heap.get?_modify, if_pos rfl, found]
      rfl
    rw [Heap.get_of_get?_eq_some kept]
    rfl

/-! ### Laps over a generator -/

theorem position_ofPosition_eq_ok (small : laps ≤ 2 ^ 63)
    (position : (Value.ofPosition laps).position = .ok place) : place = laps ∧ laps < 2 ^ 63 := by
  rcases Nat.lt_or_eq_of_le small with less | rfl
  · rw [Value.position_ofPosition less] at position
    exact ⟨(Except.ok.inj position).symm, less⟩
  · have negative : (Int64.ofNat (2 ^ 63)).toInt < 0 := by decide
    rw [Value.ofPosition, Value.position, if_pos negative] at position
    cases position

/-- A loop whose cursor stands for no place does not go on. -/
theorem not_proceeds_of_position {fault : Fault} {engine : Engine} {entered : Machine}
    (stands : loop.At index loop.head machine) (ready : machine.Ready) (apart : loop.Apart)
    (reads : machine.register loop.container.toNat = .generator ref)
    (state : (machine.heap.get ref : Generator).state = .suspended)
    (position : (machine.register (loop.first.toNat + 2)).position = .error fault) :
    ¬ Proceeds engine machine entered := by
  intro proceeds
  obtain ⟨instruction, fetches, op, first, _⟩ := stands.foreach ready
  have registers := stands.register_goneTo (loop.head + 1)
  rw [← registers] at reads position
  have done := proceeds.step_eq fetches.fetched
  let moved := machine.goneTo (loop.head + 1)
  have fails : iterate .direct engine loop.container loop.first instruction.wide moved =
      .error (.raised fault) (moved.record fault) := by
    rw [iterate_eq apart reads]
    refine error_bind ?_
    have reading : read ref moved = .ok (moved.heap.get ref) moved := rfl
    have alive : (moved.heap.get ref : Generator).state ≠ .dead := by
      rw [show (moved.heap.get ref : Generator).state = _ from state]
      decide
    rw [iterationStep, ok_bind reading, if_neg alive, position]
    rfl
  have container := fetches.container
  obtain ⟨_, origin, wide, second, third⟩ := instruction
  obtain rfl : _ = Opcode.foreach := op
  obtain rfl : origin = loop.container := container
  obtain rfl : second = loop.first := first
  rw [show step engine (some ⟨.foreach, loop.container, wide, loop.first, third⟩) moved =
    .error (.raised fault) (moved.record fault) from error_bind fails] at done
  cases done

end Loop

namespace Exec.Stays

open Machine

variable {host : Host} {root index : Nat} {machine between last : Machine}

theorem trans (first : Stays host root index machine between)
    (second : Stays host root index between last) : Stays host root index machine last := by
  induction first with
  | refl => exact second
  | turned turned deep _ ih => exact .turned turned deep (ih second)
  | woken turned asleep woken _ ih => exact .woken turned asleep woken (ih second)

theorem mono {lower : Nat} (stays : Stays host root index machine last) (le : lower ≤ index) :
    Stays host root lower machine last := by
  induction stays with
  | refl => exact .refl _
  | turned turned deep _ ih => exact .turned turned (Nat.lt_of_le_of_lt le deep) ih
  | woken turned asleep woken _ ih => exact .woken turned asleep woken ih

/-- What happens to generators, frames and threads meanwhile is in order. -/
theorem path (courses : ∀ steps, (Engine.ofHost host steps).Courses False)
    (stays : Stays host root index machine last) : machine.Path False last := by
  have turns : ∀ {steps : Nat} {machine next : Machine} {outcome : Option Outcome},
      turn (.ofHost host steps) root machine = .ok outcome next → machine.Path False next := by
    intro steps machine next outcome turned
    have course : (turn (.ofHost host steps) root).CourseAt False .script machine :=
      Courses.turn (courses steps) root False.elim
    have path := course.path
    rwa [after_of_eq_ok turned] at path
  induction stays with
  | refl => exact .refl
  | turned turned _ _ ih => exact (turns turned).trans ih
  | @woken machine halted asleep next last steps value reply turned rests woken _ ih =>
      have wakes := ((Calls.wakeup (courses 1) reply).courses asleep).path
      rw [after_of_eq_error woken] at wakes
      exact (turns turned).trans (rests.path.trans (wakes.trans ih))

end Exec.Stays

namespace Loop

open Machine

variable {loop : Loop} {host : Host} {manners : Manners} {root index laps : Nat}
  {head last entry post back : Machine} {ref : Ref .generator} {frame : Frame} {value : Value}

/-- What the loop has assigned when it has gone on with its generator. -/
def countedAt (loop : Loop) (head : Machine) (laps : Nat) : Machine :=
  loop.counted (head.goneTo (loop.head + 1)) laps

theorem At.register_countedAt (stands : loop.At index loop.head head) (laps number : Nat) :
    (loop.countedAt head laps).register number =
      if loop.first.toNat + 2 = number then .ofPosition (laps + 1)
      else if loop.first.toNat = number then .ofPosition laps else head.register number := by
  rw [countedAt, counted, register_assigned, register_assigned, stands.register_goneTo]

/-- How the machine is when the loop has gone on with its generator. -/
structure Lent (loop : Loop) (manners : Manners) (root index laps : Nat) (ref : Ref .generator)
    (frame : Frame) (head last : Machine) : Prop where
  /-- The run loop goes on with the next instruction. -/
  works : last.Works manners root
  /-- Frames and generators belong to each other. -/
  paired : last.Paired
  /-- There has been a number for the key. -/
  small : laps < 2 ^ 63
  /-- The frame of the generator stands above that of the loop. -/
  lends : loop.Lends index ref frame (loop.countedAt head laps) last
  /-- The registers of the loop belong to its frame. -/
  base : (loop.countedAt head laps).fiber.base = frame.base
  /-- The loop is in the code of its frame. -/
  contains : loop.In frame.closure.routine.code

section Laps

variable (serves : host.Serves manners) (verified : manners.trusts = false) (le : root ≤ index)
  (apart : loop.Apart)

include serves verified le

/-- Where the frame of the loop stays, the run loop goes on and what happens is in order. -/
theorem works_and_paired (works : head.Works manners root) (paired : head.Paired)
    (deep : index < head.fiber.stack.depth) (stays : Stays host root index head last) :
    last.Works manners root ∧ last.Paired := by
  have floors : head.Floors root index 0 :=
    ⟨fun _ _ => Nat.zero_le _, fun _ _ _ => Nat.zero_le _⟩
  refine ⟨(stays.upholds (Engine.steady_ofHost serves verified) works le deep floors).1, ?_⟩
  refine (stays.path fun steps => ?_).paired paired
  rw [← Engine.until_never]
  exact Engine.courses_until serves _ steps

include apart

/-- When the loop has gone on with its generator, the frame of the loop waits for a value. -/
theorem Waits.lent (waits : loop.Waits manners root index ref laps head)
    (awaits : Awaits host root index head last) : Stays host root index head last ∧
      ∃ frame, head.fiber.stack.current? = some frame ∧
        loop.Lent manners root index laps ref frame head last := by
  obtain ⟨depth, steps, entered, proceeds, stays⟩ := awaits
  obtain ⟨own, found, asleep⟩ := exists_of_suspended waits.state
  have stood := waits.stands
  obtain ⟨tall, frame, current, _, contains⟩ := stood
  have ready := waits.works.ready
  cases position : (head.register (loop.first.toNat + 2)).position with
  | error fault =>
      exact absurd proceeds (not_proceeds_of_position waits.stands ready apart waits.reads
        waits.state position)
  | ok place =>
      obtain ⟨rfl, small⟩ :=
        position_ofPosition_eq_ok waits.small (waits.cursor.symm.trans position)
      obtain ⟨instruction, fetched, resumes⟩ := waits.stands.resumes ready apart waits.reads found
        asleep position (.ofHost host steps)
      obtain ⟨_, upper, reenters⟩ := resumes.of_ok (proceeds.step_eq fetched)
      obtain ⟨deep, lends⟩ := lends_of_reenters waits.stands ready current reenters
      have enters : Stays host root index head entered :=
        .turned (proceeds.turn_eq root) (by omega) (.refl entered)
      obtain ⟨works, paired⟩ := works_and_paired serves verified le waits.works waits.paired
        (by omega) enters
      have upholds := (stays.upholds (Engine.steady_ofHost serves verified) works
        (Nat.le_succ_of_le le) (by omega) lends.floors).2
      have whole := enters.trans (stays.mono (Nat.le_succ index))
      obtain ⟨works, paired⟩ := works_and_paired serves verified le waits.works waits.paired
        (by omega) whole
      refine ⟨whole, frame, current, works, paired, small, lends.upheld upholds, ?_, contains⟩
      have base : head.fiber.base = frame.base := by
        rw [Fiber.base, current]
        rfl
      rw [countedAt, counted, base_assigned, base_assigned, base_goneTo current, base]

/-- The frame of the loop receives what the generator yields. -/
theorem Waits.yields (waits : loop.Waits manners root index ref laps head)
    (yields : Yields host root index value head post) :
    Stays host root index head post ∧ laps < 2 ^ 63 ∧
      ∃ frame, head.fiber.stack.current? = some frame ∧
        loop.Receives index ref frame .suspended value (loop.countedAt head laps) post := by
  obtain ⟨last, next, instruction, steps, awaits, fetched, op, handed, proceeds⟩ := yields
  obtain ⟨stays, frame, current, lent⟩ := waits.lent serves verified le apart awaits
  have receives := lent.lends.yields lent.works.ready lent.paired awaits.1 apart lent.contains
    lent.base fetched op handed proceeds
  have deep : index < post.fiber.stack.depth := by
    rw [receives.stands.depth]
    exact Nat.lt_succ_self _
  exact ⟨stays.trans (.turned (proceeds.turn_eq root) deep (.refl post)), lent.small, frame,
    current, receives⟩

/-- So does it receive what the generator returns. -/
theorem Waits.returns (waits : loop.Waits manners root index ref laps head)
    (returns : Returns host root index value head post) :
    Stays host root index head post ∧ laps < 2 ^ 63 ∧
      ∃ frame, head.fiber.stack.current? = some frame ∧
        loop.Receives index ref frame .dead value (loop.countedAt head laps) post := by
  obtain ⟨last, next, instruction, steps, awaits, fetched, returned, proceeds⟩ := returns
  obtain ⟨stays, frame, current, lent⟩ := waits.lent serves verified le apart awaits
  have receives := lent.lends.returns lent.works.ready lent.paired awaits.1 apart lent.contains
    lent.base fetched returned proceeds
  have deep : index < post.fiber.stack.depth := by
    rw [receives.stands.depth]
    exact Nat.lt_succ_self _
  exact ⟨stays.trans (.turned (proceeds.turn_eq root) deep (.refl post)), lent.small, frame,
    current, receives⟩

/-- With a value of its generator the loop enters its body. -/
theorem Waits.enters (waits : loop.Waits manners root index ref laps head)
    (yields : Yields host root index value head post) :
    laps < 2 ^ 63 ∧ Stays host root index head post ∧ loop.At index (loop.head + 1) post ∧
      ∃ entry, (∀ engine : Engine, Proceeds engine post entry) ∧
        loop.At index (loop.head + 2) entry ∧
        entry.register loop.container.toNat = .generator ref ∧
        entry.register loop.first.toNat = .ofPosition laps ∧
        entry.register (loop.first.toNat + 1) = value ∧
        entry.register (loop.first.toNat + 2) = .ofPosition (laps + 1) := by
  obtain ⟨stays, small, frame, current, receives⟩ := waits.yields serves verified le apart yields
  have works := (works_and_paired serves verified le waits.works waits.paired
    (by rw [waits.stands.depth]; exact Nat.lt_succ_self _) stays).1
  have window := waits.stands.window waits.works.ready current
  have assigned := waits.stands.register_countedAt laps
  have other := apart.container
  have reads : post.register loop.container.toNat = .generator ref := by
    rw [receives.registers _ (window _ (by simp [registers])), if_neg (by omega), assigned,
      if_neg (by omega), if_neg (by omega), waits.reads]
  have more : ¬ Exhausted post.heap (post.register loop.container.toNat) := by
    rintro ⟨target, same, dead⟩
    obtain rfl : ref = target := Value.generator.inj (reads.symm.trans same)
    exact absurd (receives.state.symm.trans dead) (by decide)
  obtain ⟨entry, enters, moves⟩ := receives.stands.check works.ready more
  have kept := fun number => moves.registers number List.not_mem_nil
  refine ⟨small, stays, receives.stands, entry, enters, moves.stands, (kept _).trans reads,
    ?_, ?_, ?_⟩
  · rw [kept, receives.registers _ (window _ (by simp [registers])), if_neg (by omega), assigned,
      if_neg (by omega), if_pos rfl]
  · rw [kept, receives.registers _ (window _ (by simp [registers])), if_pos rfl]
  · rw [kept, receives.registers _ (window _ (by simp [registers])), if_neg (by omega), assigned,
      if_pos rfl]

/-- When its generator returns, the loop is left. -/
theorem Waits.leaves (waits : loop.Waits manners root index ref laps head)
    (returns : Returns host root index value head post) :
    ∃ exited, (∀ engine : Engine, Proceeds engine post exited) ∧ loop.At index loop.exit exited ∧
      (exited.heap.get ref : Generator).state = .dead := by
  obtain ⟨stays, small, frame, current, receives⟩ := waits.returns serves verified le apart returns
  have works := (works_and_paired serves verified le waits.works waits.paired
    (by rw [waits.stands.depth]; exact Nat.lt_succ_self _) stays).1
  have window := waits.stands.window waits.works.ready current
  have other := apart.container
  have reads : post.register loop.container.toNat = .generator ref := by
    rw [receives.registers _ (window _ (by simp [registers])), if_neg (by omega),
      waits.stands.register_countedAt laps, if_neg (by omega), if_neg (by omega), waits.reads]
  obtain ⟨exited, leaves, moves⟩ := receives.stands.leave works.ready ⟨ref, reads, receives.state⟩
  exact ⟨exited, leaves, moves.stands, by rw [moves.heap]; exact receives.state⟩

/-- Completing the body, the loop has made one more lap. -/
theorem Waits.completes (waits : loop.Waits manners root index ref laps head)
    (enters : EntersWith host root index head entry)
    (completes : loop.Completes host root index (.generator ref) entry back) :
    loop.Waits manners root index ref (laps + 1) back := by
  obtain ⟨value, post, steps, yields, proceeds⟩ := enters
  obtain ⟨small, stays, inside, next, begins, standing, reads, key, _, cursor⟩ :=
    waits.enters serves verified le apart yields
  obtain rfl := (begins _).eq proceeds
  have same := completes.registers
  have deep : index < entry.fiber.stack.depth := by
    rw [standing.depth]
    exact Nat.lt_succ_self _
  have whole : Stays host root index head back :=
    stays.trans (.turned (proceeds.turn_eq root) deep completes.stays)
  obtain ⟨works, paired⟩ := works_and_paired serves verified le waits.works waits.paired
    (by rw [waits.stands.depth]; exact Nat.lt_succ_self _) whole
  refine ⟨works, paired, completes.stands, (same _ (by simp)).trans reads,
    completes.preserves.2, ?_, small⟩
  rw [same _ (by simp), cursor]

/-- After any number of laps the generator waits. -/
theorem Laps.waits {start : Machine}
    (made : loop.Laps host root index (.generator ref) (EntersWith host root index) laps start head)
    (begins : loop.Waits manners root index ref 0 start) :
    loop.Waits manners root index ref laps head := by
  induction made with
  | zero => exact begins
  | succ _ enters completes ih =>
      exact (ih begins).completes serves verified le apart enters completes

end Laps

/-- After some laps over a generator, the loop goes on with it.  With a value that it yields the
body is entered, and when it returns the loop is left. -/
structure Supplies (loop : Loop) (host : Host) (root index : Nat) (ref : Ref .generator)
    (laps : Nat) (head : Machine) : Prop where
  /-- There are no more laps than numbers for the keys. -/
  bound : laps ≤ 2 ^ 63
  /-- The next instruction goes on with the generator. -/
  resumes : laps < 2 ^ 63 → ∀ engine : Engine, ∃ instruction,
    fetch head = .ok (some instruction) (head.goneTo (loop.head + 1)) ∧
      (step engine (some instruction)).Meets (head.goneTo (loop.head + 1))
        (fun flow entered => flow = .proceed ∧ entered.fiber.stack.depth = index + 2 ∧
          entered.fiber.stack.current?.bind Frame.generator = some ref)
        (fun fault _ => fault = .stackOverflow) fun _ => False
  /-- With a value that it yields, the body has the number of the lap as key. -/
  yields : ∀ value post, Yields host root index value head post →
    ∃ entry, (∀ engine : Engine, Proceeds engine post entry) ∧ loop.At index (loop.head + 2) entry ∧
      entry.register loop.container.toNat = .generator ref ∧
      entry.register loop.first.toNat = .ofPosition laps ∧
      entry.register (loop.first.toNat + 1) = value
  /-- When it returns, the frame goes on behind the loop. -/
  returns : ∀ value post, Returns host root index value head post →
    ∃ exited, (∀ engine : Engine, Proceeds engine post exited) ∧ loop.At index loop.exit exited ∧
      (exited.heap.get ref : Generator).state = .dead

theorem Waits.supplies (serves : host.Serves manners) (verified : manners.trusts = false)
    (le : root ≤ index) (apart : loop.Apart)
    (waits : loop.Waits manners root index ref laps head) :
    loop.Supplies host root index ref laps head where
  bound := waits.small
  resumes less engine := by
    obtain ⟨own, found, asleep⟩ := exists_of_suspended waits.state
    have ready := waits.works.ready
    have position := waits.cursor.trans (Value.position_ofPosition less)
    obtain ⟨frame, current, _⟩ := waits.stands.frame
    obtain ⟨instruction, fetched, resumes⟩ :=
      waits.stands.resumes ready apart waits.reads found asleep position engine
    refine ⟨instruction, fetched,
      resumes.mono (fun flow entered held => ?_) (fun _ _ => id) fun _ => id⟩
    obtain ⟨goesOn, upper, reenters⟩ := held
    refine ⟨goesOn, (lends_of_reenters waits.stands ready current reenters).1, ?_⟩
    rw [Stack.current?, reenters.frames, Array.back?_push]
    exact reenters.generator
  yields value post yields := by
    obtain ⟨_, _, _, entry, enters, standing, reads, key, shown, _⟩ :=
      waits.enters serves verified le apart yields
    exact ⟨entry, enters, standing, reads, key, shown⟩
  returns _ _ returns := waits.leaves serves verified le apart returns

end Loop

/-- A loop is about to begin: its frame is at the head, the container is in its register, and the
cursor is null. -/
structure Loop.Begins (loop : Loop) (manners : Manners) (root index : Nat) (container : Value)
    (start : Machine) : Prop where
  /-- The run loop goes on with the next instruction. -/
  works : start.Works manners root
  /-- It runs the frame. -/
  le : root ≤ index
  /-- The registers of the loop have byte numbers, and the container is in none of them. -/
  apart : loop.Apart
  /-- The frame is at the head. -/
  stands : loop.At index loop.head start
  /-- The container is in its register. -/
  reads : start.register loop.container.toNat = container
  /-- The cursor is null. -/
  cursor : start.register (loop.first.toNat + 2) = .null

theorem Loop.Begins.waits {loop : Loop} {manners : Manners} {root index : Nat}
    {ref : Ref .generator} {start : Machine}
    (begins : loop.Begins manners root index (.generator ref) start) (paired : start.Paired)
    (state : (start.heap.get ref : Generator).state = .suspended) :
    loop.Waits manners root index ref 0 start := by
  refine ⟨begins.works, paired, begins.stands, begins.reads, state, ?_, Nat.zero_le _⟩
  rw [begins.cursor, Value.position_ofPosition (Nat.two_pow_pos 63)]
  rfl

/-- A function with a loop over an array of two numbers. -/
def looping : Prototype where
  name := "looping"
  stackSize := 5
  code := #[⟨.newObj, 1, 0, 0, ObjectForm.array.code⟩,
    ⟨.appendArray, 1, 7, AppendSource.integer.code, 0⟩,
    ⟨.appendArray, 1, 9, AppendSource.integer.code, 0⟩,
    ⟨.foreach, 1, 2, 2, 0⟩, ⟨.postForeach, 1, 1, 0, 0⟩, ⟨.jmp, 0, -3, 0, 0⟩,
    ⟨.ret, 255, 0, 0, 0⟩]

/-- The loop of that function. -/
def numbers : Loop := ⟨3, 1, 2, 6⟩

/-- A function with a loop over its argument. -/
def following : Prototype where
  name := "following"
  parameters := #["this", "values"]
  stackSize := 5
  code := #[⟨.foreach, 1, 2, 2, 0⟩, ⟨.postForeach, 1, 1, 0, 0⟩, ⟨.jmp, 0, -3, 0, 0⟩,
    ⟨.ret, 255, 0, 0, 0⟩]

end ScriptMachine
