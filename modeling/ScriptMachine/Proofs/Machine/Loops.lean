import ScriptMachine.Proofs.Heap.Items
import ScriptMachine.Proofs.Machine.Generators
import ScriptMachine.Proofs.Machine.Staying

/-!
# Loops

A loop over a container has two instructions at its head: one that assigns the next key and value or
leaves the loop, and one that leaves it when the container is a generator that has returned.  In all
sound machines they do so without a fault, as long as the registers of the loop have byte numbers
and the container is in none that the loop assigns.
-/

namespace ScriptMachine

open Exec

/-- A loop over a container. -/
structure Loop where
  /-- The place of its first instruction. -/
  head : Nat
  /-- The register of the container. -/
  container : UInt8
  /-- The first of its three registers, which are for the key, the value and the cursor. -/
  first : UInt8
  /-- The place where it goes on after the last item. -/
  exit : Nat

namespace Loop

/-- The loop is in the code.  Its body comes behind the two instructions of its head. -/
structure In (loop : Loop) (code : Array Instruction) : Prop where
  /-- The first instruction asks for the next item. -/
  next : ∃ instruction, code[loop.head]? = some instruction ∧ instruction.op = .foreach ∧
    instruction.first = loop.container ∧ instruction.second = loop.first ∧
    ((loop.head + 1 : Nat) : Int) + instruction.wide.toInt = loop.exit
  /-- The second one asks whether a generator has returned. -/
  check : ∃ instruction, code[loop.head + 1]? = some instruction ∧ instruction.op = .postForeach ∧
    instruction.first = loop.container ∧
    ((loop.head + 2 : Nat) : Int) + instruction.wide.toInt = loop.exit
  /-- The loop is left to another place than its body. -/
  outside : loop.exit ≠ loop.head + 1 ∧ loop.exit ≠ loop.head + 2

/-- The three registers have byte numbers, and the container is in none of them. -/
structure Apart (loop : Loop) : Prop where
  /-- The registers have byte numbers. -/
  bytes : loop.first.toNat + 2 < 256
  /-- The container is not among them. -/
  container : loop.container.toNat < loop.first.toNat ∨ loop.first.toNat + 2 < loop.container.toNat

/-- All registers of the loop. -/
def registers (loop : Loop) : List Nat :=
  [loop.container.toNat, loop.first.toNat, loop.first.toNat + 1, loop.first.toNat + 2]

/-- The current frame, which is at a place among the frames, has the loop in its code and goes on at
an instruction. -/
structure At (loop : Loop) (index ip : Nat) (machine : Machine) : Prop where
  /-- There are no frames above. -/
  depth : machine.fiber.stack.depth = index + 1
  /-- The frame has the loop in its code. -/
  frame : ∃ frame, machine.fiber.stack.current? = some frame ∧ frame.ip = ip ∧
    loop.In frame.closure.routine.code

end Loop

namespace Machine

/-- The value of a register of the current frame. -/
def register (machine : Machine) (number : Nat) : Value :=
  machine.fiber.stack.get (machine.fiber.base + number)

/-- A register of the current frame has been assigned. -/
def assigned (machine : Machine) (number : Nat) (value : Value) : Machine :=
  machine.mapStack (·.put (machine.fiber.base + number) value)

/-- The current frame goes on at another instruction. -/
def goneTo (machine : Machine) (ip : Nat) : Machine :=
  machine.mapStack (·.modifyFrame ({ · with ip }))

variable {machine : Machine} {number other ip : Nat} {value : Value} {frame : Frame}

@[simp]
theorem current_assigned :
    (machine.assigned number value).fiber.stack.current? = machine.fiber.stack.current? := by
  rw [Stack.current?, Stack.current?]
  exact congrArg Array.back? (Stack.frames_put _ _ _)

@[simp]
theorem depth_assigned :
    (machine.assigned number value).fiber.stack.depth = machine.fiber.stack.depth :=
  congrArg Array.size (Stack.frames_put _ _ _)

@[simp]
theorem base_assigned : (machine.assigned number value).fiber.base = machine.fiber.base := by
  rw [Fiber.base, current_assigned, Fiber.base]

@[simp]
theorem heap_assigned : (machine.assigned number value).heap = machine.heap := rfl

theorem size_assigned (used : machine.fiber.base + number < machine.fiber.stack.size) :
    (machine.assigned number value).fiber.stack.size = machine.fiber.stack.size := by
  show (machine.fiber.stack.put _ value).size = _
  rw [Stack.size_put]
  omega

theorem register_assigned : (machine.assigned number value).register other =
    if number = other then value else machine.register other := by
  rw [register, base_assigned]
  show (machine.fiber.stack.put _ value).get _ = _
  rw [Stack.get_put]
  simp only [Nat.add_left_cancel_iff, register]

@[simp]
theorem heap_goneTo : (machine.goneTo ip).heap = machine.heap := rfl

theorem base_goneTo (current : machine.fiber.stack.current? = some frame) :
    (machine.goneTo ip).fiber.base = machine.fiber.base := by
  have moved : (machine.goneTo ip).fiber.stack.current? = some { frame with ip } :=
    current_goTo current ip
  rw [Fiber.base, moved, Fiber.base, current]
  rfl

theorem register_goneTo (current : machine.fiber.stack.current? = some frame) :
    (machine.goneTo ip).register number = machine.register number := by
  rw [register, base_goneTo current]
  rfl

end Machine

namespace Loop

open Machine

variable {loop : Loop} {index ip : Nat} {machine : Machine}

theorem At.goneTo (stands : loop.At index ip machine) (place : Nat) :
    loop.At index place (machine.goneTo place) := by
  obtain ⟨depth, frame, current, _, contains⟩ := stands
  exact ⟨(depth_goTo _ _).trans depth, _, current_goTo current place, rfl, contains⟩

theorem At.assigned (stands : loop.At index ip machine) (number : Nat) (value : Value) :
    loop.At index ip (machine.assigned number value) := by
  obtain ⟨depth, frame, current, place, contains⟩ := stands
  exact ⟨depth_assigned.trans depth, frame, current_assigned.trans current, place, contains⟩

theorem At.register_goneTo (stands : loop.At index ip machine) (place number : Nat) :
    (machine.goneTo place).register number = machine.register number := by
  obtain ⟨_, frame, current, _⟩ := stands
  exact Machine.register_goneTo current

/-- The frame of the loop goes on at an instruction, and nothing else has changed but some of its
registers. -/
structure Moves (loop : Loop) (index ip : Nat) (numbers : List Nat) (before after : Machine) :
    Prop where
  /-- The frame goes on there. -/
  stands : loop.At index ip after
  /-- The objects are the same. -/
  heap : after.heap = before.heap
  /-- So are all other registers of the frame. -/
  registers : ∀ number, number ∉ numbers → after.register number = before.register number

/-- The next instruction of the frame, with the machine in which it is carried out. -/
structure Fetches (loop : Loop) (machine next : Machine) (instruction : Instruction) : Prop where
  /-- It comes next. -/
  fetched : fetch machine = .ok (some instruction) next
  /-- It looks at the container. -/
  container : instruction.first = loop.container
  /-- It can leave the loop. -/
  leaves : jump instruction.wide next = .ok () (next.goneTo loop.exit)

end Loop

namespace Exec

open Machine

variable {machine next : Machine} {frame : Frame} {instruction : Instruction}

theorem fetch_eq (current : machine.fiber.stack.current? = some frame)
    (found : frame.closure.routine.code[frame.ip]? = some instruction) :
    fetch machine = .ok (some instruction) (machine.goneTo (frame.ip + 1)) := by
  rw [fetch, Exec.frame_bind current, found]
  rfl

theorem jump_eq {offset : Int32} {place : Nat} (current : machine.fiber.stack.current? = some frame)
    (target : (frame.ip : Int) + offset.toInt = place)
    (within : place ≤ frame.closure.routine.code.size) :
    jump offset machine = .ok () (machine.goneTo place) := by
  rw [jump, Exec.frame_bind current]
  dsimp only
  rw [target, if_neg (by omega)]
  rfl

/-- The next instruction is carried out without a fault, and the run loop goes on. -/
def Proceeds (engine : Engine) (machine after : Machine) : Prop :=
  ∃ instruction next, fetch machine = .ok instruction next ∧
    step engine instruction next = .ok .proceed after

theorem Proceeds.turn_eq {engine : Engine} {after : Machine}
    (proceeds : Proceeds engine machine after) (root : Nat) :
    turn engine root machine = .ok none after := by
  obtain ⟨instruction, next, fetched, done⟩ := proceeds
  have tried : attempt (step engine instruction) next = .ok (.ok .proceed) after := by
    rw [attempt, done]
  rw [turn, ok_bind fetched, ok_bind tried]
  rfl

theorem Proceeds.step_eq {engine : Engine} {after : Machine} {instruction : Option Instruction}
    (proceeds : Proceeds engine machine after) (fetched : fetch machine = .ok instruction next) :
    step engine instruction next = .ok .proceed after := by
  obtain ⟨_, _, same, done⟩ := proceeds
  rw [fetched] at same
  injection same with first second
  subst first second
  exact done

theorem Proceeds.eq {engine : Engine} {after other : Machine}
    (proceeds : Proceeds engine machine after) (same : Proceeds engine machine other) :
    other = after := by
  have first := proceeds.turn_eq 0
  rw [same.turn_eq 0] at first
  injection first

theorem step_foreach {engine : Engine} {after : Machine} (op : instruction.op = .foreach)
    (iterated : iterate .direct engine instruction.first instruction.second instruction.wide
      machine = .ok () after) :
    step engine (some instruction) machine = .ok .proceed after := by
  obtain ⟨_, first, wide, second, third⟩ := instruction
  obtain rfl : _ = Opcode.foreach := op
  exact ok_bind iterated

theorem step_postForeach {engine : Engine} {after : Machine} (op : instruction.op = .postForeach)
    (finished : finishIteration .direct instruction.first instruction.wide machine =
      .ok () after) :
    step engine (some instruction) machine = .ok .proceed after := by
  obtain ⟨_, first, wide, second, third⟩ := instruction
  obtain rfl : _ = Opcode.postForeach := op
  exact ok_bind finished

end Exec

namespace Loop

open Machine

variable {loop : Loop} {index : Nat} {machine : Machine}

/-- The instruction at the place of the frame comes next. -/
theorem At.fetches {ip : Nat} {instruction : Instruction} {frame : Frame} (ready : machine.Ready)
    (current : machine.fiber.stack.current? = some frame) (place : frame.ip = ip)
    (found : frame.closure.routine.code[ip]? = some instruction)
    (jumps : instruction.op.isJump = true) (container : instruction.first = loop.container)
    (target : ((ip + 1 : Nat) : Int) + instruction.wide.toInt = loop.exit) :
    loop.Fetches machine (machine.goneTo (ip + 1)) instruction := by
  subst place
  have moved : (machine.goneTo (frame.ip + 1)).fiber.stack.current? =
      some { frame with ip := frame.ip + 1 } := current_goTo current _
  have sound := ready.sound.fiber.activity.frames frame
    (Array.mem_of_getElem? (getElem?_of_current current))
  obtain ⟨prototype, performs⟩ := sound.performs found
  have within := (performs.jump jumps).2
  refine ⟨fetch_eq current found, container, jump_eq moved target ?_⟩
  dsimp only at within ⊢
  omega

/-- The registers of the loop belong to the window of its frame. -/
theorem At.window (stands : loop.At index loop.head machine) (ready : machine.Ready)
    {frame : Frame} (current : machine.fiber.stack.current? = some frame) :
    ∀ number ∈ loop.registers, frame.base + number < frame.top := by
  obtain ⟨_, other, present, place, contains⟩ := stands
  obtain rfl := Option.some.inj (present.symm.trans current)
  obtain ⟨instruction, found, op, container, first, _⟩ := contains.next
  have sound := ready.sound.fiber.activity.frames other
    (Array.mem_of_getElem? (getElem?_of_current current))
  obtain ⟨prototype, performs⟩ := sound.performs (place ▸ found)
  have admits : prototype.Admits (.register ((instruction.second.toNat : Int) + 2)) :=
    performs.admits (by simp [Instruction.operands, op])
  have inside : ((instruction.second.toNat : Int) + 2) < prototype.stackSize := admits.2
  have size : other.closure.routine.stackSize = prototype.stackSize := performs.stackSize_eq
  have low : other.base + instruction.first.toNat < other.top :=
    performs.lt_top (by simp [Instruction.operands, op])
  rw [first, ← size] at inside
  rw [container] at low
  intro number member
  have cases : number = loop.container.toNat ∨ number ≤ loop.first.toNat + 2 := by
    simp only [registers, List.mem_cons, List.not_mem_nil, or_false] at member
    omega
  rcases cases with rfl | small
  · exact low
  · rw [Frame.top]
    omega

theorem At.foreach (stands : loop.At index loop.head machine) (ready : machine.Ready) :
    ∃ instruction, loop.Fetches machine (machine.goneTo (loop.head + 1)) instruction ∧
      instruction.op = .foreach ∧ instruction.second = loop.first ∧
      machine.fiber.base + (loop.first.toNat + 2) < machine.fiber.stack.size := by
  have stood := stands
  obtain ⟨_, frame, current, place, contains⟩ := stands
  obtain ⟨instruction, found, op, container, first, target⟩ := contains.next
  refine ⟨instruction, At.fetches ready current place found (by rw [op]; rfl) container target, op,
    first, ?_⟩
  rw [Fiber.base, current]
  exact Nat.lt_of_lt_of_le (stood.window ready current _ (by simp [registers]))
    (ready.shaped frame current)

theorem At.postForeach (stands : loop.At index (loop.head + 1) machine) (ready : machine.Ready) :
    ∃ instruction, loop.Fetches machine (machine.goneTo (loop.head + 2)) instruction ∧
      instruction.op = .postForeach := by
  obtain ⟨_, frame, current, place, contains⟩ := stands
  obtain ⟨instruction, found, op, container, target⟩ := contains.check
  exact ⟨instruction, At.fetches ready current place found (by rw [op]; rfl) container target, op⟩

end Loop

/-! ## Items -/

namespace IterationStep

variable {key value : Value} {place : Nat} {rest : List (Value × Value)}

theorem ofElement_of_nil {values : List Value} (listed : (Value.numbered values).drop place = []) :
    ofElement values[place]? place = .done := by
  cases found : values[place]? with
  | none => rfl
  | some element =>
      rw [Value.numbered_drop_of_lt found] at listed
      cases listed

theorem ofElement_of_cons {values : List Value}
    (listed : (Value.numbered values).drop place = (key, value) :: rest) :
    place + 1 ≤ values.length ∧ (Value.numbered values).drop (place + 1) = rest ∧
      ofElement values[place]? place = .item key value (.ofPosition (place + 1)) := by
  cases found : values[place]? with
  | none =>
      rw [Value.numbered_drop_of_le found] at listed
      cases listed
  | some element =>
      rw [Value.numbered_drop_of_lt found] at listed
      obtain ⟨same, others⟩ := List.cons.inj listed
      obtain ⟨rfl, rfl⟩ := Prod.mk.inj same
      exact ⟨(List.getElem?_eq_some_iff.mp found).1, others, rfl⟩

variable {ν : Type} {map : ChainedMap ν} {look : ν → Value}

theorem ofEntry_of_nil (listed : map.listing look place = []) :
    ofEntry (fun _ => look) (map.next? place) = .done := by
  rw [ChainedMap.next?_eq_none (List.map_eq_nil_iff.mp listed)]
  rfl

theorem ofEntry_of_cons (listed : map.listing look place = (key, value) :: rest) :
    ∃ next, next ≤ map.nodes.size ∧ map.listing look next = rest ∧
      ofEntry (fun _ => look) (map.next? place) = .item key value (.ofPosition next) := by
  obtain ⟨entry, entries, first, same, others⟩ := List.map_eq_cons_iff.mp listed
  obtain ⟨next, found, bound, later⟩ := ChainedMap.next?_eq_some first
  obtain ⟨rfl, rfl⟩ := Prod.mk.inj same
  refine ⟨next, bound, (congrArg (List.map _) later).trans others, ?_⟩
  rw [found]
  rfl

end IterationStep

namespace Exec

open Machine

variable {container cursor key value : Value} {machine : Machine} {place : Nat}
  {rest : List (Value × Value)}

theorem iterationStep_array {ref : Ref .array} (position : cursor.position = .ok place)
    (access : Access) (engine : Engine) (registers : IterationRegisters) :
    iterationStep access engine (.array ref) cursor registers machine =
      .ok (.ofElement (machine.heap.get ref : Sequence).values.toList[place]? place) machine := by
  rw [iterationStep, position, Array.getElem?_toList]
  rfl

theorem iterationStep_string {bytes : ByteArray} (position : cursor.position = .ok place)
    (access : Access) (engine : Engine) (registers : IterationRegisters) :
    iterationStep access engine (.string bytes) cursor registers machine =
      .ok (.ofElement (Value.ofBytes bytes.data.toList)[place]? place) machine := by
  rw [iterationStep, position, Value.ofBytes, List.getElem?_map, Array.getElem?_toList]
  rfl

theorem iterationStep_table {ref : Ref .table} (position : cursor.position = .ok place)
    (access : Access) (engine : Engine) (registers : IterationRegisters) :
    iterationStep access engine (.table ref) cursor registers machine =
      .ok (.ofEntry (fun _ value => value)
        ((machine.heap.get ref : Table).entries.next? place)) machine := by
  rw [iterationStep, position]
  rfl

theorem iterationStep_cls {ref : Ref .cls} (position : cursor.position = .ok place)
    (access : Access) (engine : Engine) (registers : IterationRegisters) :
    iterationStep access engine (.cls ref) cursor registers machine =
      .ok (.ofEntry (fun _ => (machine.heap.get ref : Class).look)
        ((machine.heap.get ref : Class).members.next? place)) machine := by
  have again : ∀ cls : Class, IterationStep.ofEntry (fun key _ => (cls.get? key).getD .null)
      (cls.next? place) = .ofEntry (fun _ => cls.look) (cls.members.next? place) := by
    intro cls
    cases found : cls.next? place with
    | none => rw [show cls.members.next? place = none from found]; rfl
    | some item =>
        obtain ⟨key, member, next⟩ := item
        rw [show cls.members.next? place = _ from found, IterationStep.ofEntry,
          Class.getD_get?_of_next? found]
        rfl
  rw [iterationStep, position, ← again]
  rfl

theorem iterationStep_inst {ref : Ref .inst} (plain : machine.heap.hook? (.inst ref) .nexti = none)
    (position : cursor.position = .ok place) (access : Access) (engine : Engine)
    (registers : IterationRegisters) :
    iterationStep access engine (.inst ref) cursor registers machine =
      .ok (.ofEntry
        (fun _ => (machine.heap.get ref : Instance).look
          (machine.heap.get (machine.heap.get ref : Instance).cls))
        ((machine.heap.get (machine.heap.get ref : Instance).cls : Class).members.next? place))
        machine := by
  have asked : hookStep? engine (.inst ref) cursor machine = .ok none machine := by
    have hooks : hook? (.inst ref) .nexti machine = .ok none machine :=
      congrArg (EStateM.Result.ok · machine) plain
    rw [hookStep?, ok_bind hooks]
    rfl
  rw [iterationStep, ok_bind asked, position]
  rfl

/-- A step leaves the loop when there are no more items. -/
theorem iterationStep_done (lists : machine.heap.Lists container)
    (position : cursor.position = .ok place) (listed : machine.heap.itemsFrom container place = [])
    (access : Access) (engine : Engine) (registers : IterationRegisters) :
    iterationStep access engine container cursor registers machine = .ok .done machine := by
  cases container with
  | array ref => rw [iterationStep_array position, IterationStep.ofElement_of_nil listed]
  | string bytes => rw [iterationStep_string position, IterationStep.ofElement_of_nil listed]
  | table ref =>
      rw [iterationStep_table position, ChainedMap.next?_eq_none listed]
      rfl
  | cls ref => rw [iterationStep_cls position, IterationStep.ofEntry_of_nil listed]
  | inst ref => rw [iterationStep_inst lists position, IterationStep.ofEntry_of_nil listed]
  | _ => exact lists.elim

/-- A step reports the first item, and the others are those from the next place on. -/
theorem iterationStep_item (lists : machine.heap.Lists container)
    (position : cursor.position = .ok place)
    (listed : machine.heap.itemsFrom container place = (key, value) :: rest) :
    ∃ next, next ≤ machine.heap.places container ∧ machine.heap.itemsFrom container next = rest ∧
      ∀ (access : Access) (engine : Engine) (registers : IterationRegisters),
        iterationStep access engine container cursor registers machine =
          .ok (.item key value (.ofPosition next)) machine := by
  cases container with
  | array ref =>
      obtain ⟨bound, others, item⟩ := IterationStep.ofElement_of_cons listed
      refine ⟨place + 1, bound, others, fun access engine registers => ?_⟩
      rw [iterationStep_array position, item]
  | string bytes =>
      obtain ⟨bound, others, item⟩ := IterationStep.ofElement_of_cons listed
      rw [Value.ofBytes, List.length_map] at bound
      refine ⟨place + 1, bound, others, fun access engine registers => ?_⟩
      rw [iterationStep_string position, item]
  | table ref =>
      obtain ⟨next, found, bound, others⟩ := ChainedMap.next?_eq_some listed
      refine ⟨next, bound, others, fun access engine registers => ?_⟩
      rw [iterationStep_table position, found]
      rfl
  | cls ref =>
      obtain ⟨next, bound, others, item⟩ := IterationStep.ofEntry_of_cons listed
      refine ⟨next, bound, others, fun access engine registers => ?_⟩
      rw [iterationStep_cls position, item]
  | inst ref =>
      obtain ⟨next, bound, others, item⟩ := IterationStep.ofEntry_of_cons listed
      refine ⟨next, bound, others, fun access engine registers => ?_⟩
      rw [iterationStep_inst lists position, item]
  | _ => exact lists.elim

end Exec

/-! ## The head of a loop -/

namespace Loop

open Machine

variable {loop : Loop} {index place : Nat} {machine next : Machine} {container key value : Value}
  {rest : List (Value × Value)}

theorem Apart.ofFirst_eq (apart : loop.Apart) :
    IterationRegisters.ofFirst loop.first = .ok ⟨loop.first, loop.first + 1, loop.first + 2⟩ := by
  rw [IterationRegisters.ofFirst, if_pos apart.bytes]

theorem Apart.toNat_value (apart : loop.Apart) :
    (loop.first + 1).toNat = loop.first.toNat + 1 := by
  have bytes := apart.bytes
  rw [UInt8.toNat_add]
  exact Nat.mod_eq_of_lt (Nat.lt_of_succ_lt bytes)

theorem Apart.toNat_cursor (apart : loop.Apart) :
    (loop.first + 2).toNat = loop.first.toNat + 2 := by
  rw [UInt8.toNat_add]
  exact Nat.mod_eq_of_lt apart.bytes

/-- An item and the next cursor are in the registers of the loop. -/
def filled (loop : Loop) (machine : Machine) (key value cursor : Value) : Machine :=
  ((machine.assigned loop.first.toNat key).assigned (loop.first.toNat + 1) value).assigned
    (loop.first.toNat + 2) cursor

theorem read_eq {number : UInt8} (reads : machine.register number.toNat = value) :
    Access.direct.read number machine = .ok value machine :=
  congrArg (EStateM.Result.ok · machine) reads

theorem write_eq {number : UInt8}
    (used : machine.fiber.base + number.toNat < machine.fiber.stack.size) (value : Value) :
    Access.direct.write number value machine = .ok () (machine.assigned number.toNat value) :=
  setPlace_eq used value

/-- What a loop does with a step. -/
def goesOn (loop : Loop) (exit : Int32) : IterationStep → Exec Unit
  | .item key value next => do
    Access.direct.write loop.first key
    Access.direct.write (loop.first + 1) value
    Access.direct.write (loop.first + 2) next
  | .resumed => return ()
  | .done => jump exit

theorem iterate_eq (apart : loop.Apart) (reads : machine.register loop.container.toNat = container)
    {engine : Engine} {exit : Int32} :
    iterate .direct engine loop.container loop.first exit machine =
      (iterationStep .direct engine container (machine.register (loop.first.toNat + 2))
        ⟨loop.first, loop.first + 1, loop.first + 2⟩ >>= loop.goesOn exit) machine := by
  have registers : ofExcept (IterationRegisters.ofFirst loop.first) machine =
      .ok ⟨loop.first, loop.first + 1, loop.first + 2⟩ machine := by
    rw [apart.ofFirst_eq]
    rfl
  rw [iterate, ok_bind (read_eq reads), ok_bind registers]
  exact ok_bind (read_eq (congrArg machine.register apart.toNat_cursor))

/-- A loop that finds an item assigns its registers. -/
theorem iterate_item (apart : loop.Apart) (lists : machine.heap.Lists container)
    (used : machine.fiber.base + (loop.first.toNat + 2) < machine.fiber.stack.size)
    (reads : machine.register loop.container.toNat = container)
    (position : (machine.register (loop.first.toNat + 2)).position = .ok place)
    (listed : machine.heap.itemsFrom container place = (key, value) :: rest) :
    ∃ next, next ≤ machine.heap.places container ∧ machine.heap.itemsFrom container next = rest ∧
      ∀ (engine : Engine) (exit : Int32),
        iterate .direct engine loop.container loop.first exit machine =
          .ok () (loop.filled machine key value (.ofPosition next)) := by
  obtain ⟨next, bound, others, steps⟩ := iterationStep_item lists position listed
  refine ⟨next, bound, others, fun engine exit => ?_⟩
  have first : machine.fiber.base + loop.first.toNat < machine.fiber.stack.size := by omega
  let keyed := machine.assigned loop.first.toNat key
  have keyed_size : keyed.fiber.stack.size = machine.fiber.stack.size := size_assigned first
  have keyed_base : keyed.fiber.base = machine.fiber.base := base_assigned
  have second : keyed.fiber.base + (loop.first + 1).toNat < keyed.fiber.stack.size := by
    rw [apart.toNat_value]
    omega
  let valued := keyed.assigned (loop.first + 1).toNat value
  have valued_size : valued.fiber.stack.size = keyed.fiber.stack.size := size_assigned second
  have valued_base : valued.fiber.base = keyed.fiber.base := base_assigned
  have third : valued.fiber.base + (loop.first + 2).toNat < valued.fiber.stack.size := by
    rw [apart.toNat_cursor]
    omega
  rw [filled, ← apart.toNat_value, ← apart.toNat_cursor]
  rw [iterate_eq apart reads]
  calc (iterationStep .direct engine container (machine.register (loop.first.toNat + 2))
        ⟨loop.first, loop.first + 1, loop.first + 2⟩ >>= loop.goesOn exit) machine
    _ = loop.goesOn exit (.item key value (.ofPosition next)) machine := ok_bind (steps _ _ _)
    _ = Access.direct.write (loop.first + 2) (.ofPosition next) valued := by
        rw [goesOn, ok_bind (write_eq first key), ok_bind (write_eq second value)]
    _ = .ok () (valued.assigned (loop.first + 2).toNat (.ofPosition next)) := write_eq third _

/-- A loop that finds no item is left. -/
theorem iterate_done (apart : loop.Apart) (lists : machine.heap.Lists container)
    (reads : machine.register loop.container.toNat = container)
    (position : (machine.register (loop.first.toNat + 2)).position = .ok place)
    (listed : machine.heap.itemsFrom container place = []) (engine : Engine) (exit : Int32) :
    iterate .direct engine loop.container loop.first exit machine = jump exit machine := by
  rw [iterate_eq apart reads]
  exact ok_bind (iterationStep_done lists position listed _ _ _)

theorem Moves.of_goneTo (stands : loop.At index place machine) (ip : Nat) :
    loop.Moves index ip [] machine (machine.goneTo ip) :=
  ⟨stands.goneTo ip, rfl, fun number _ => stands.register_goneTo ip number⟩

theorem Moves.trans {ip : Nat} {numbers : List Nat} {last : Machine}
    (moves : loop.Moves index place [] machine next)
    (later : loop.Moves index ip numbers next last) :
    loop.Moves index ip numbers machine last :=
  ⟨later.stands, later.heap.trans moves.heap, fun number other =>
    (later.registers number other).trans (moves.registers number List.not_mem_nil)⟩

theorem moves_filled (stands : loop.At index place machine) (key value cursor : Value) :
    loop.Moves index place [loop.first.toNat, loop.first.toNat + 1, loop.first.toNat + 2] machine
      (loop.filled machine key value cursor) := by
  have heap : (loop.filled machine key value cursor).heap = machine.heap := by
    rw [filled, heap_assigned, heap_assigned, heap_assigned]
  refine ⟨((stands.assigned _ key).assigned _ value).assigned _ cursor, heap,
    fun number other => ?_⟩
  obtain ⟨apartKey, apartValue, apartCursor⟩ :
      number ≠ loop.first.toNat ∧ number ≠ loop.first.toNat + 1 ∧
        number ≠ loop.first.toNat + 2 := by simpa using other
  rw [filled, register_assigned, if_neg apartCursor.symm, register_assigned,
    if_neg apartValue.symm, register_assigned, if_neg apartKey.symm]

theorem registers_filled (key value cursor : Value) :
    (loop.filled machine key value cursor).register loop.first.toNat = key ∧
      (loop.filled machine key value cursor).register (loop.first.toNat + 1) = value ∧
      (loop.filled machine key value cursor).register (loop.first.toNat + 2) = cursor := by
  simp [filled, register_assigned]

/-- The first instruction of a loop shows the next item. -/
theorem At.item (stands : loop.At index loop.head machine) (ready : machine.Ready)
    (apart : loop.Apart) (lists : machine.heap.Lists container)
    (reads : machine.register loop.container.toNat = container)
    (position : (machine.register (loop.first.toNat + 2)).position = .ok place)
    (listed : machine.heap.itemsFrom container place = (key, value) :: rest) :
    ∃ cursor after, cursor ≤ machine.heap.places container ∧
      machine.heap.itemsFrom container cursor = rest ∧
      (∀ engine : Engine, Proceeds engine machine after) ∧
      loop.Moves index (loop.head + 1)
        [loop.first.toNat, loop.first.toNat + 1, loop.first.toNat + 2] machine after ∧
      after.register loop.first.toNat = key ∧ after.register (loop.first.toNat + 1) = value ∧
      after.register (loop.first.toNat + 2) = .ofPosition cursor := by
  obtain ⟨instruction, fetches, op, first, used⟩ := stands.foreach ready
  have moves := Moves.of_goneTo stands (loop.head + 1)
  have registers := fun number => moves.registers number List.not_mem_nil
  obtain ⟨_, frame, current, _⟩ := stands
  rw [← registers] at reads position
  have used : (machine.goneTo (loop.head + 1)).fiber.base + (loop.first.toNat + 2) <
      (machine.goneTo (loop.head + 1)).fiber.stack.size := by
    rw [base_goneTo current]
    exact used
  have listing : (machine.goneTo (loop.head + 1)).heap.Lists container := lists
  obtain ⟨cursor, bound, others, iterates⟩ := iterate_item apart listing used reads position listed
  refine ⟨cursor, _, bound, others, fun engine => ⟨_, _, fetches.fetched, step_foreach op ?_⟩,
    moves.trans (moves_filled moves.stands key value (.ofPosition cursor)),
    registers_filled key value (.ofPosition cursor)⟩
  rw [fetches.container, first]
  exact iterates engine instruction.wide

/-- The first instruction of a loop leaves it when there are no more items. -/
theorem At.done (stands : loop.At index loop.head machine) (ready : machine.Ready)
    (apart : loop.Apart) (lists : machine.heap.Lists container)
    (reads : machine.register loop.container.toNat = container)
    (position : (machine.register (loop.first.toNat + 2)).position = .ok place)
    (listed : machine.heap.itemsFrom container place = []) :
    ∃ after, (∀ engine : Engine, Proceeds engine machine after) ∧
      loop.Moves index loop.exit [] machine after := by
  obtain ⟨instruction, fetches, op, first, _⟩ := stands.foreach ready
  have moves := Moves.of_goneTo stands (loop.head + 1)
  have registers := fun number => moves.registers number List.not_mem_nil
  rw [← registers] at reads position
  refine ⟨_, fun engine => ⟨_, _, fetches.fetched, step_foreach op ?_⟩,
    moves.trans (Moves.of_goneTo moves.stands loop.exit)⟩
  have listing : (machine.goneTo (loop.head + 1)).heap.Lists container := lists
  rw [fetches.container, first]
  exact (iterate_done apart listing reads position listed engine _).trans fetches.leaves

/-- The container is a generator that has returned. -/
def Exhausted (heap : Heap) (container : Value) : Prop :=
  ∃ ref, container = .generator ref ∧ (heap.get ref : Generator).state = .dead

/-- The second instruction of a loop goes on with the body. -/
theorem At.check (stands : loop.At index (loop.head + 1) machine) (ready : machine.Ready)
    (more : ¬ Exhausted machine.heap (machine.register loop.container.toNat)) :
    ∃ after, (∀ engine : Engine, Proceeds engine machine after) ∧
      loop.Moves index (loop.head + 2) [] machine after := by
  obtain ⟨instruction, fetches, op⟩ := stands.postForeach ready
  have moves := Moves.of_goneTo stands (loop.head + 2)
  have registers := fun number => moves.registers number List.not_mem_nil
  refine ⟨_, fun engine => ⟨_, _, fetches.fetched, step_postForeach op ?_⟩, moves⟩
  rw [fetches.container, finishIteration, ok_bind (read_eq (registers _))]
  cases found : machine.register loop.container.toNat with
  | generator ref =>
      have alive : (machine.heap.get ref : Generator).state ≠ .dead := fun dead =>
        more ⟨ref, found, dead⟩
      have reading : read ref (machine.goneTo (loop.head + 2)) =
          .ok (machine.heap.get ref) (machine.goneTo (loop.head + 2)) := rfl
      dsimp only
      rw [ok_bind reading, if_neg alive]
      rfl
  | _ => rfl

/-- The second instruction of a loop leaves it when the generator has returned. -/
theorem At.leave (stands : loop.At index (loop.head + 1) machine) (ready : machine.Ready)
    (ended : Exhausted machine.heap (machine.register loop.container.toNat)) :
    ∃ after, (∀ engine : Engine, Proceeds engine machine after) ∧
      loop.Moves index loop.exit [] machine after := by
  obtain ⟨instruction, fetches, op⟩ := stands.postForeach ready
  have moves := Moves.of_goneTo stands (loop.head + 2)
  have registers := fun number => moves.registers number List.not_mem_nil
  refine ⟨_, fun engine => ⟨_, _, fetches.fetched, step_postForeach op ?_⟩,
    moves.trans (Moves.of_goneTo moves.stands loop.exit)⟩
  obtain ⟨ref, found, dead⟩ := ended
  have reading : read ref (machine.goneTo (loop.head + 2)) =
      .ok (machine.heap.get ref) (machine.goneTo (loop.head + 2)) := rfl
  rw [fetches.container, finishIteration, ok_bind (read_eq (registers _)), found]
  dsimp only
  rw [ok_bind reading, if_pos dead]
  exact fetches.leaves

end Loop

end ScriptMachine
