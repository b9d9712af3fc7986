import ScriptMachine.Proofs.Machine.Quiet
import ScriptMachine.Proofs.Machine.Steady

/-!
# Registers behind a veil

A veil hides one register of the running fiber, or registers of the fibers that wait for it:
another machine might have other values there, and hold some more objects with them.  A computation
is oblivious of the veil if it ends in the same way in both machines, which then differ by nothing
but what is behind the veil and by the incidents written down, unless it has lost one of the objects
that the other machine holds besides.  Computations are oblivious as long as they keep to the
registers in front of the veil.
-/

namespace ScriptMachine

open Exec

variable {α β : Type}

/-! ## Lost objects -/

namespace Machine

/-- The object with a number has been released, or a collection has freed it. -/
def Lost (machine : Machine) (index : Nat) : Prop :=
  index ∈ machine.collector.record ∨ machine.heap.Lost index

/-- The objects that one machine has lost are lost in the other one. -/
def LostIn (before after : Machine) : Prop := ∀ index, before.Lost index → after.Lost index

variable {machine next : Machine}

theorem LostIn.refl (machine : Machine) : machine.LostIn machine := fun _ => id

theorem LostIn.trans {last : Machine} (first : machine.LostIn next) (second : next.LostIn last) :
    machine.LostIn last := fun index lost => second index (first index lost)

instance : IsPreorder Machine LostIn where
  refl := .refl
  trans _ _ _ := .trans

/-- Objects have been lost from the heap only. -/
theorem LostIn.of_heap (collector : next.collector = machine.collector)
    (heap : machine.heap.LostIn next.heap) : machine.LostIn next :=
  fun index => Or.imp (fun freed => collector ▸ freed) (heap index)

/-- Nothing has happened to the objects. -/
theorem LostIn.of_eq (collector : next.collector = machine.collector)
    (heap : next.heap = machine.heap) : machine.LostIn next :=
  .of_heap collector (heap ▸ fun _ => id)

theorem lostIn_collect (machine : Machine) : machine.LostIn machine.collect.2 :=
  fun index => Or.imp (List.mem_append_right _) (Heap.lostIn_collect _ _ _ index)

end Machine

/-! ## Veils -/

/-- What is hidden, and what might be there as well. -/
structure Veil where
  /-- The registers of the running fiber from this place on are in front of the veil. -/
  floor : Nat
  /-- The hidden register of the running fiber, if there is one, and another value for it. -/
  hidden : Option (Fin floor × Value)
  /-- The waiting fibers with other registers. -/
  waiting : List Fiber
  /-- The objects that the other machine may hold besides. -/
  besides : List Nat

namespace Veil

variable (veil : Veil)

/-- The registers of the other machine. -/
def slots (slots : Array Value) : Array Value :=
  match veil.hidden with
  | some (place, value) => slots.setIfInBounds place value
  | none => slots

/-- The registers and frames of the other machine. -/
def stack (stack : Stack) : Stack := { stack with slots := veil.slots stack.slots }

/-- The running fiber of the other machine. -/
def fiber (fiber : Fiber) : Fiber := { fiber with stack := veil.stack fiber.stack }

/-- The other machine, in which other incidents have been written down. -/
def machine (incidents : List Incident) (machine : Machine) : Machine :=
  { machine with fiber := veil.fiber machine.fiber, waiting := veil.waiting, incidents }

/-- One of the registers below a place refers to an object. -/
def Refers (floor : Nat) (slots : Array Value) (index : Nat) : Prop :=
  ∃ place < floor, slots[place]?.bind Value.address? = some index

/-- The veil can hang in the machine. -/
structure Suits (veil : Veil) (machine : Machine) : Prop where
  /-- The registers behind the veil are in use. -/
  room : veil.floor ≤ machine.fiber.stack.size
  /-- With what is behind the veil the other machine holds all objects that this one holds. -/
  fewer : ∀ index, Refers veil.floor machine.fiber.stack.slots index ∨
      index ∈ machine.waiting.flatMap Fiber.references →
    Refers veil.floor (veil.slots machine.fiber.stack.slots) index ∨
      index ∈ veil.waiting.flatMap Fiber.references
  /-- It holds none besides but those that it may. -/
  more : ∀ index, Refers veil.floor (veil.slots machine.fiber.stack.slots) index ∨
      index ∈ veil.waiting.flatMap Fiber.references →
    (Refers veil.floor machine.fiber.stack.slots index ∨
      index ∈ machine.waiting.flatMap Fiber.references) ∨ index ∈ veil.besides

/-- None of the objects that the other machine may hold besides has been lost. -/
def Keeps (machine : Machine) : Prop := ∀ index ∈ veil.besides, ¬machine.Lost index

theorem keeps_of_lostIn {machine next : Machine} (lost : machine.LostIn next)
    (keeps : veil.Keeps next) : veil.Keeps machine :=
  fun index beside here => keeps index beside (lost index here)

/-- The registers refer to an object behind the veil or in front of it. -/
theorem mem_addresses (slots : Array Value) (floor index : Nat) :
    index ∈ Value.addresses slots.toList ↔ Refers floor slots index ∨
      ∃ place : Nat, floor ≤ place ∧ slots[place]?.bind Value.address? = some index := by
  rw [Value.addresses, List.mem_filterMap]
  constructor
  · rintro ⟨value, member, refers⟩
    obtain ⟨place, found⟩ := Array.getElem?_of_mem (Array.mem_toList_iff.mp member)
    have refers : slots[place]?.bind Value.address? = some index := by
      rw [found]
      exact refers
    rcases Nat.lt_or_ge place floor with low | high
    · exact .inl ⟨place, low, refers⟩
    · exact .inr ⟨place, high, refers⟩
  · have found : ∀ place : Nat, slots[place]?.bind Value.address? = some index →
        ∃ value ∈ slots.toList, value.address? = some index := by
      intro place refers
      obtain ⟨value, found, refers⟩ := Option.bind_eq_some_iff.mp refers
      exact ⟨value, Array.mem_toList_iff.mpr (Array.mem_of_getElem? found), refers⟩
    rintro (⟨place, _, refers⟩ | ⟨place, _, refers⟩)
    · exact found place refers
    · exact found place refers

/-! ### Registers in front of the veil -/

@[simp]
theorem size_slots (slots : Array Value) : (veil.slots slots).size = slots.size := by
  rw [Veil.slots]
  split
  · exact Array.size_setIfInBounds
  · rfl

theorem getElem?_slots {place : Nat} (high : veil.floor ≤ place) (slots : Array Value) :
    (veil.slots slots)[place]? = slots[place]? := by
  rw [Veil.slots]
  split
  · rename_i hidden value _
    rw [Array.getElem?_setIfInBounds, if_neg (Nat.ne_of_lt (Nat.lt_of_lt_of_le hidden.isLt high))]
  · rfl

/-- What is behind the veil does not depend on what is in front of it. -/
theorem getElem?_slots_congr {before after : Array Value}
    (same : ∀ place < veil.floor, after[place]? = before[place]?) (place : Nat)
    (low : place < veil.floor) : (veil.slots after)[place]? = (veil.slots before)[place]? := by
  rw [Veil.slots, Veil.slots]
  split
  · rename_i hidden value _
    have inUse : hidden.val < after.size ↔ hidden.val < before.size := by
      have absent := congrArg (· = none) (same hidden hidden.isLt)
      simp only [Array.getElem?_eq_none_iff, eq_iff_iff] at absent
      omega
    rw [Array.getElem?_setIfInBounds, Array.getElem?_setIfInBounds, same place low]
    simp only [inUse]
  · exact same place low

theorem refers_congr {floor : Nat} {before after : Array Value}
    (same : ∀ place < floor, after[place]? = before[place]?) {index : Nat} :
    Refers floor after index ↔ Refers floor before index :=
  exists_congr fun place => and_congr_right fun low => by rw [same place low]

@[simp]
theorem size_stack (stack : Stack) : (veil.stack stack).size = stack.size := veil.size_slots _

theorem get_stack {place : Nat} (high : veil.floor ≤ place) (stack : Stack) :
    (veil.stack stack).get place = stack.get place := by
  rw [Stack.get_eq, Stack.get_eq]
  exact congrArg (Option.getD · _) (veil.getElem?_slots high stack.slots)

theorem range_stack {start : Nat} (high : veil.floor ≤ start) (stop : Nat) (stack : Stack) :
    (veil.stack stack).range start stop = stack.range start stop := by
  refine Array.ext_getElem? fun place => ?_
  simp only [Stack.range, Array.getElem?_extract, Veil.stack, veil.size_slots]
  rw [veil.getElem?_slots (Nat.le_add_right_of_le high)]

/-- Registers in front of the veil are assigned. -/
theorem slots_setIfInBounds {place : Nat} (high : veil.floor ≤ place) (value : Value)
    (slots : Array Value) :
    (veil.slots slots).setIfInBounds place value =
      veil.slots (slots.setIfInBounds place value) := by
  rw [Veil.slots, Veil.slots]
  split
  · rename_i hidden other _
    exact Array.setIfInBounds_comm _ _ (Nat.ne_of_lt (Nat.lt_of_lt_of_le hidden.isLt high))
  · rfl

/-- Registers are added. -/
theorem slots_append {slots : Array Value} (room : veil.floor ≤ slots.size) (added : Array Value) :
    veil.slots slots ++ added = veil.slots (slots ++ added) := by
  rw [Veil.slots, Veil.slots]
  split
  · rename_i hidden other _
    exact (Array.setIfInBounds_append_left (Nat.lt_of_lt_of_le hidden.isLt room)).symm
  · rfl

theorem append_stack {stack : Stack} (room : veil.floor ≤ stack.size) (value : Value) :
    (veil.stack stack).append value = veil.stack (stack.append value) := by
  have pushed : (veil.slots stack.slots).push value = veil.slots (stack.slots.push value) := by
    rw [Array.push_eq_append, Array.push_eq_append, veil.slots_append room]
  simp only [Stack.append, veil.size_stack]
  exact congrArg (fun slots : Array Value => { stack.append value with slots }) pushed

theorem grow_stack {stack : Stack} (room : veil.floor ≤ stack.size) (size : Nat) :
    (veil.stack stack).grow size = veil.stack (stack.grow size) := by
  rw [Stack.grow, Stack.grow, veil.size_stack]
  split
  · exact congrArg (fun slots : Array Value =>
      { stack with slots, peak := max stack.peak size, sizes := size :: stack.sizes })
      (veil.slots_append room _)
  · rfl

theorem truncate_stack (size : Nat) (stack : Stack) :
    (veil.stack stack).truncate size = veil.stack (stack.truncate size) := by
  have cut : (veil.slots stack.slots).shrink size = veil.slots (stack.slots.shrink size) := by
    rw [Veil.slots, Veil.slots]
    split
    · refine Array.ext_getElem? fun place => ?_
      simp only [Array.shrink_eq_take, Array.take_eq_extract, Array.getElem?_extract,
        Array.getElem?_setIfInBounds, Array.size_setIfInBounds, Array.size_extract]
      grind
    · rfl
  rw [Stack.truncate, veil.size_stack]
  exact congrArg (fun slots : Array Value => { stack.truncate size with slots }) cut

theorem put_stack {stack : Stack} (room : veil.floor ≤ stack.size) {place : Nat}
    (high : veil.floor ≤ place) (value : Value) :
    (veil.stack stack).put place value = veil.stack (stack.put place value) := by
  rw [Stack.put, veil.grow_stack room]
  exact congrArg (fun slots : Array Value => { stack.grow (place + 1) with slots })
    (veil.slots_setIfInBounds high value _)

theorem clearRange_stack {start : Nat} (high : veil.floor ≤ start) (stop : Nat) (stack : Stack) :
    (veil.stack stack).clearRange start stop = veil.stack (stack.clearRange start stop) := by
  have filled : ∀ (count index : Nat) (slots : Array Value), veil.floor ≤ index →
      Stack.clearRange.fill count index (veil.slots slots) =
        veil.slots (Stack.clearRange.fill count index slots) := by
    intro count
    induction count with
    | zero => exact fun _ _ _ => rfl
    | succ count ih =>
        intro index slots high
        rw [Stack.clearRange.fill, Stack.clearRange.fill, veil.slots_setIfInBounds high]
        exact ih (index + 1) _ (Nat.le_succ_of_le high)
  simp only [Stack.clearRange, veil.size_stack]
  exact congrArg (fun slots : Array Value => { stack with slots }) (filled _ _ _ high)

end Veil

/-! ### Veils that stay -/

namespace Veil.Suits

variable {veil : Veil} {start machine next : Machine}

/-- Nothing has happened behind the veil. -/
theorem of_slots (suits : veil.Suits machine) (room : veil.floor ≤ next.fiber.stack.size)
    (slots : ∀ place < veil.floor,
      next.fiber.stack.slots[place]? = machine.fiber.stack.slots[place]?)
    (waiting : next.waiting = machine.waiting) : veil.Suits next where
  room := room
  fewer index := by
    rw [refers_congr (veil.getElem?_slots_congr slots), refers_congr slots, waiting]
    exact suits.fewer index
  more index := by
    rw [refers_congr (veil.getElem?_slots_congr slots), refers_congr slots, waiting]
    exact suits.more index

/-- Nothing has happened to the registers. -/
theorem congr (suits : veil.Suits machine)
    (stack : next.fiber.stack.slots = machine.fiber.stack.slots)
    (waiting : next.waiting = machine.waiting) : veil.Suits next :=
  suits.of_slots (Nat.le_trans suits.room (Nat.le_of_eq (congrArg Array.size stack).symm))
    (fun place _ => congrArg (·[place]?) stack) waiting

/-- Registers in front of the veil refer to the same objects in both machines. -/
theorem front_iff (veil : Veil) (slots : Array Value) (index : Nat) :
    (∃ place : Nat, veil.floor ≤ place ∧
        (veil.slots slots)[place]?.bind Value.address? = some index) ↔
      ∃ place : Nat, veil.floor ≤ place ∧ slots[place]?.bind Value.address? = some index :=
  exists_congr fun place => and_congr_right fun high => by rw [veil.getElem?_slots high]

/-- The fibers of the other machine refer to all that the fibers of this one refer to. -/
theorem mem_references (suits : veil.Suits machine) {index : Nat}
    (refers : index ∈ machine.fiber.references ∨
      index ∈ machine.waiting.flatMap Fiber.references) :
    index ∈ (veil.fiber machine.fiber).references ∨
      index ∈ veil.waiting.flatMap Fiber.references := by
  have fewer := suits.fewer index
  simp only [Fiber.references, List.mem_append, Veil.fiber, Veil.stack,
    mem_addresses machine.fiber.stack.slots veil.floor,
    mem_addresses (veil.slots machine.fiber.stack.slots) veil.floor, front_iff] at refers ⊢
  grind

/-- They refer to nothing besides but what the machine may hold. -/
theorem mem_references_or (suits : veil.Suits machine) {index : Nat}
    (refers : index ∈ (veil.fiber machine.fiber).references ∨
      index ∈ veil.waiting.flatMap Fiber.references) :
    (index ∈ machine.fiber.references ∨ index ∈ machine.waiting.flatMap Fiber.references) ∨
      index ∈ veil.besides := by
  have more := suits.more index
  simp only [Fiber.references, List.mem_append, Veil.fiber, Veil.stack,
    mem_addresses machine.fiber.stack.slots veil.floor,
    mem_addresses (veil.slots machine.fiber.stack.slots) veil.floor, front_iff] at refers ⊢
  grind

/-- Whatever is held from outside is held from outside in the other machine. -/
theorem external_subset (suits : veil.Suits machine) (incidents : List Incident) :
    machine.external ⊆ (veil.machine incidents machine).external := by
  intro index outside
  have refers := @mem_references _ _ suits index
  simp only [Machine.external, Veil.machine, List.mem_append] at outside ⊢
  grind

theorem mem_external_or (suits : veil.Suits machine) {incidents : List Incident} {index : Nat}
    (outside : index ∈ (veil.machine incidents machine).external) :
    index ∈ machine.external ∨ index ∈ veil.besides := by
  have refers := @mem_references_or _ _ suits index
  simp only [Machine.external, Veil.machine, List.mem_append] at outside ⊢
  grind

end Veil.Suits

/-! ## Oblivious computations -/

/-- The ends of a computation in both machines, which are alike if nothing has been lost that the
other machine may hold besides. -/
def Veil.Covers (veil : Veil) : EStateM.Result Stop Machine α → EStateM.Result Stop Machine α → Prop
  | .ok value next, other => veil.Suits next ∧ (veil.Keeps next → ∃ incidents,
      other = .ok value (veil.machine incidents next))
  | .error (.raised fault) next, other => veil.Suits next ∧ (veil.Keeps next → ∃ incidents,
      other = .error (.raised fault) (veil.machine incidents next))
  | .error .exhausted next, other => veil.Keeps next → ∃ last, other = .error .exhausted last

/-- From a machine the computation does not look behind the veil. -/
def Exec.Oblivious (veil : Veil) (action : Exec α) (machine : Machine) : Prop :=
  veil.Suits machine → machine.LostIn (action.after machine) ∧
    ∀ incidents, veil.Covers (action machine) (action (veil.machine incidents machine))

namespace Exec.Oblivious

variable {veil : Veil} {action : Exec α} {machine next : Machine}

theorem of_suits (oblivious : veil.Suits machine → Oblivious veil action machine) :
    Oblivious veil action machine := fun suits => oblivious suits suits

/-- Only what a computation does in both machines matters. -/
theorem congr {other : Exec α} (oblivious : Oblivious veil other machine)
    (same : action machine = other machine) (also : ∀ incidents,
      action (veil.machine incidents machine) = other (veil.machine incidents machine)) :
    Oblivious veil action machine := by
  intro suits
  obtain ⟨lost, covers⟩ := oblivious suits
  rw [Exec.after, same]
  exact ⟨lost, fun incidents => also incidents ▸ covers incidents⟩

/-- It does not matter how the other machine ends where something has been lost. -/
theorem covers_of_keeps {other last : EStateM.Result Stop Machine α}
    (covers : veil.Covers (action machine) other)
    (same : veil.Keeps (action.after machine) → veil.Covers (action machine) last) :
    veil.Covers (action machine) last := by
  rw [Exec.after] at same
  cases result : action machine with
  | ok value next =>
      rw [result] at covers same
      exact ⟨covers.1, fun keeps => (same keeps).2 keeps⟩
  | error stop next =>
      rw [result] at covers same
      cases stop with
      | raised fault => exact ⟨covers.1, fun keeps => (same keeps).2 keeps⟩
      | exhausted => exact fun keeps => same keeps keeps

theorem bind {following : α → Exec β} (first : Oblivious veil action machine)
    (further : ∀ value next, action machine = .ok value next →
      Oblivious veil (following value) next) :
    Oblivious veil (action >>= following) machine := by
  intro suits
  obtain ⟨lost, covers⟩ := first suits
  have hangs : ∀ value next, action machine = .ok value next → veil.Suits next := by
    intro value next result
    have covers := covers machine.incidents
    rw [result] at covers
    exact covers.1
  refine ⟨Along.bind_at lost fun value next result =>
    (further value next result (hangs value next result)).1, fun incidents => ?_⟩
  have covers := covers incidents
  cases result : action machine with
  | ok value next =>
      rw [result] at covers
      obtain ⟨stays, rest⟩ := further value next result covers.1
      rw [Exec.ok_bind result]
      refine covers_of_keeps (rest incidents) fun keeps => ?_
      obtain ⟨others, same⟩ := covers.2 (veil.keeps_of_lostIn stays keeps)
      rw [Exec.ok_bind same]
      exact rest others
  | error stop next =>
      rw [result] at covers
      rw [error_bind result]
      cases stop with
      | raised fault =>
          exact ⟨covers.1, fun keeps => (covers.2 keeps).imp fun _ same => error_bind same⟩
      | exhausted => exact fun keeps => (covers keeps).imp fun _ same => error_bind same

/-- What the first computation leads to is known where the second one begins. -/
theorem bind_meets {following : α → Exec β} {done : α → Machine → Prop}
    {failed : Fault → Machine → Prop} {cut : Machine → Prop}
    (meets : action.Meets machine done failed cut) (first : Oblivious veil action machine)
    (further : ∀ value next, done value next → Oblivious veil (following value) next) :
    Oblivious veil (action >>= following) machine :=
  first.bind fun value next result => further value next (meets.of_ok result)

/-- The first computation has a result that is known. -/
theorem ok_bind {following : α → Exec β} {value : α} (result : action machine = .ok value next)
    (first : Oblivious veil action machine) (further : Oblivious veil (following value) next) :
    Oblivious veil (action >>= following) machine := by
  refine first.bind fun other last found => ?_
  obtain ⟨rfl, rfl⟩ := EStateM.Result.ok.inj (result.symm.trans found)
  exact further

/-- The machine is changed in front of the veil. -/
theorem change {look : Machine → α} {change : Machine → Machine}
    (seen : ∀ incidents, look (veil.machine incidents machine) = look machine)
    (same : ∀ incidents, change (veil.machine incidents machine) =
      veil.machine incidents (change machine))
    (suits : veil.Suits machine → veil.Suits (change machine))
    (lost : machine.LostIn (change machine)) :
    Oblivious veil (fun machine => .ok (look machine) (change machine)) machine := by
  refine fun hangs => ⟨lost, fun incidents => ⟨suits hangs, fun _ => ⟨incidents, ?_⟩⟩⟩
  show EStateM.Result.ok (look (veil.machine incidents machine)) _ = _
  rw [seen, same]

theorem view {look : Machine → α}
    (same : ∀ incidents, look (veil.machine incidents machine) = look machine) :
    Oblivious veil (fun machine => .ok (look machine) machine) machine :=
  change same (fun _ => rfl) id (.refl machine)

theorem pure (value : α) : Oblivious veil (Pure.pure value : Exec α) machine :=
  have views : Oblivious veil (fun machine => .ok value machine) machine := view fun _ => rfl
  views

theorem exhaust : Oblivious veil (Exec.exhaust : Exec α) machine :=
  fun _ => ⟨.refl machine, fun _ _ => ⟨_, rfl⟩⟩

theorem passOn (fault : Fault) : Oblivious veil (Exec.passOn fault : Exec α) machine :=
  fun suits => ⟨.refl machine, fun incidents => ⟨suits, fun _ => ⟨incidents, rfl⟩⟩⟩

/-- A fault is written down in both machines. -/
theorem fail {occurrence : Occurrence} {fault : Fault} : Oblivious veil
    (fun machine => .error (.raised fault) (machine.note occurrence fault) : Exec α) machine :=
  fun suits => ⟨.of_eq rfl rfl, fun _ => ⟨suits.congr rfl rfl, fun _ => ⟨_, rfl⟩⟩⟩

theorem raise (fault : Fault) : Oblivious veil (Exec.raise fault : Exec α) machine := fail

theorem replaceFault (cause fault : Fault) :
    Oblivious veil (Exec.replaceFault cause fault : Exec α) machine := fail

theorem surface (fault : Fault) : Oblivious veil (Exec.surface fault : Exec α) machine := fail

theorem note (occurrence : Occurrence) (fault : Fault) :
    Oblivious veil (Exec.note occurrence fault) machine :=
  fun suits => ⟨.of_eq rfl rfl, fun _ => ⟨suits.congr rfl rfl, fun _ => ⟨_, rfl⟩⟩⟩

theorem ofExcept (result : Except Fault α) : Oblivious veil (Exec.ofExcept result) machine := by
  cases result with
  | ok value => exact pure value
  | error fault => exact raise fault

theorem ofResult (result : Except Fault α) : Oblivious veil (Exec.ofResult result) machine := by
  cases result with
  | ok value => exact pure value
  | error fault => exact passOn fault

theorem map (oblivious : Oblivious veil action machine) (image : α → β) :
    Oblivious veil (image <$> action) machine := by
  rw [map_eq_pure_bind]
  exact oblivious.bind fun value _ _ => pure (image value)

theorem discard (oblivious : Oblivious veil action machine) :
    Oblivious veil (Functor.discard action) machine := oblivious.map _

theorem attempt (oblivious : Oblivious veil action machine) :
    Oblivious veil (Exec.attempt action) machine := by
  intro suits
  obtain ⟨lost, covers⟩ := oblivious suits
  rw [← after_attempt] at lost
  refine ⟨lost, fun incidents => ?_⟩
  have covers := covers incidents
  rw [Exec.attempt, Exec.attempt]
  cases result : action machine with
  | ok value next =>
      rw [result] at covers
      exact ⟨covers.1, fun keeps => (covers.2 keeps).imp fun _ same => by rw [same]⟩
  | error stop next =>
      rw [result] at covers
      cases stop with
      | raised fault =>
          exact ⟨covers.1, fun keeps => (covers.2 keeps).imp fun _ same => by rw [same]⟩
      | exhausted => exact fun keeps => (covers keeps).imp fun _ same => by rw [same]

/-- A computation whose fault is looked at by what follows it. -/
theorem attempt_bind {following : Except Fault α → Exec β} {done : α → Machine → Prop}
    {failed : Fault → Machine → Prop} {cut : Machine → Prop}
    (meets : action.Meets machine done failed cut) (oblivious : Oblivious veil action machine)
    (whenDone : ∀ value next, done value next → Oblivious veil (following (.ok value)) next)
    (whenFailed : ∀ fault next, failed fault next →
      Oblivious veil (following (.error fault)) next) :
    Oblivious veil (Exec.attempt action >>= following) machine := by
  refine bind_meets meets.attempt oblivious.attempt fun result next ended => ?_
  cases result with
  | ok value => exact whenDone value next ended
  | error fault => exact whenFailed fault next ended

/-- What is put right afterwards is put right in both machines, behind a veil that has hung for the
while or behind the same one. -/
theorem covers_ensuring {inner : Veil} {restore : Machine → Machine} {ended : Machine → Prop}
    (beside : inner.besides = veil.besides) (oblivious : Oblivious inner action machine)
    (meets : action.Meets machine (fun _ => ended) (fun _ => ended) fun _ => True)
    (restores : ∀ next, inner.Suits next → ended next → next.LostIn (restore next) ∧
      veil.Suits (restore next) ∧ ∀ incidents,
        restore (inner.machine incidents next) = veil.machine incidents (restore next))
    (suits : inner.Suits machine) :
    machine.LostIn ((Exec.ensuring restore action).after machine) ∧ ∀ incidents,
      veil.Covers (Exec.ensuring restore action machine)
        (Exec.ensuring restore action (inner.machine incidents machine)) := by
  have keep : ∀ {next last : Machine}, next.LostIn last → veil.Keeps last → inner.Keeps next :=
    fun lost keeps => inner.keeps_of_lostIn lost fun index member => keeps index (beside ▸ member)
  obtain ⟨stays, covers⟩ := oblivious suits
  have hangs := covers machine.incidents
  rw [Exec.after] at stays ⊢
  rw [Exec.ensuring]
  rw [Meets] at meets
  cases result : action machine with
  | ok value next =>
      rw [result] at stays covers hangs meets
      obtain ⟨lost, suits, same⟩ := restores next hangs.1 meets
      refine ⟨stays.trans lost, fun incidents => ⟨suits, fun keeps => ?_⟩⟩
      obtain ⟨others, found⟩ := (covers incidents).2 (keep lost keeps)
      rw [Exec.ensuring, found]
      exact ⟨others, congrArg (EStateM.Result.ok value) (same others)⟩
  | error stop next =>
      rw [result] at stays covers hangs meets
      cases stop with
      | raised fault =>
          obtain ⟨lost, suits, same⟩ := restores next hangs.1 meets
          refine ⟨stays.trans lost, fun incidents => ⟨suits, fun keeps => ?_⟩⟩
          obtain ⟨others, found⟩ := (covers incidents).2 (keep lost keeps)
          rw [Exec.ensuring, found]
          exact ⟨others, congrArg (EStateM.Result.error (Stop.raised fault)) (same others)⟩
      | exhausted =>
          refine ⟨stays, fun incidents keeps => ?_⟩
          obtain ⟨last, found⟩ := covers incidents (keep (.refl next) keeps)
          exact ⟨last, by rw [Exec.ensuring, found]⟩

theorem ensuring {restore : Machine → Machine} (oblivious : Oblivious veil action machine)
    (same : ∀ incidents next, restore (veil.machine incidents next) =
      veil.machine incidents (restore next))
    (suits : ∀ next, veil.Suits next → veil.Suits (restore next))
    (lost : ∀ next : Machine, next.LostIn (restore next)) :
    Oblivious veil (Exec.ensuring restore action) machine := by
  have meets : action.Meets machine (fun _ _ => True) (fun _ _ => True) fun _ => True := by
    rw [Meets]
    split <;> trivial
  exact covers_ensuring rfl oblivious meets fun next hangs _ =>
    ⟨lost next, suits next hangs, fun incidents => same incidents next⟩

/-! ### Computations of one step -/

theorem get_bind {following : Machine → Exec α}
    (further : Oblivious veil (following machine) machine)
    (same : ∀ incidents, following (veil.machine incidents machine) = following machine) :
    Oblivious veil (get >>= following) machine := by
  refine fun suits => ⟨(further suits).1, fun incidents => ?_⟩
  show veil.Covers (following machine machine) (following (veil.machine incidents machine) _)
  rw [same]
  exact (further suits).2 incidents

/-- The following computation makes the same of what it finds in both machines. -/
theorem view_bind {look : Machine → β} {following : β → Exec α}
    (same : ∀ incidents, following (look (veil.machine incidents machine)) =
      following (look machine))
    (further : Oblivious veil (following (look machine)) machine) :
    Oblivious veil ((fun machine => .ok (look machine) machine : Exec β) >>= following)
      machine := by
  refine fun suits => ⟨(further suits).1, fun incidents => ?_⟩
  show veil.Covers (following (look machine) machine)
    (following (look (veil.machine incidents machine)) _)
  rw [same]
  exact (further suits).2 incidents

theorem ofFiber {look : Fiber → α} (same : look (veil.fiber machine.fiber) = look machine.fiber) :
    Oblivious veil (Exec.ofFiber look) machine := view fun _ => same

theorem ofFiber_bind {look : Fiber → β} {following : β → Exec α}
    (further : Oblivious veil (following (look machine.fiber)) machine)
    (same : look (veil.fiber machine.fiber) = look machine.fiber) :
    Oblivious veil (Exec.ofFiber look >>= following) machine := ok_bind rfl (ofFiber same) further

theorem onFiber {change : Fiber → Fiber}
    (same : change (veil.fiber machine.fiber) = veil.fiber (change machine.fiber))
    (slots : (change machine.fiber).stack.slots = machine.fiber.stack.slots) :
    Oblivious veil (Exec.onFiber change) machine :=
  Oblivious.change (fun _ => rfl)
    (fun incidents => congrArg
      (fun fiber => { veil.machine incidents machine with fiber }) same)
    (fun suits => suits.congr slots rfl) (.of_eq rfl rfl)

theorem onFiber_bind {change : Fiber → Fiber} {following : Unit → Exec α}
    (further : Oblivious veil (following ()) (machine.mapFiber change))
    (same : change (veil.fiber machine.fiber) = veil.fiber (change machine.fiber))
    (slots : (change machine.fiber).stack.slots = machine.fiber.stack.slots) :
    Oblivious veil (Exec.onFiber change >>= following) machine :=
  ok_bind rfl (onFiber same slots) further

theorem read {kind : Kind} (ref : Ref kind) : Oblivious veil (Exec.read ref) machine :=
  view fun _ => rfl

theorem read_bind {kind : Kind} {ref : Ref kind} {following : Content kind → Exec α}
    (further : Oblivious veil (following (machine.heap.get ref)) machine) :
    Oblivious veil (Exec.read ref >>= following) machine := ok_bind rfl (read ref) further

theorem hook? (value : Value) (hook : Hook) : Oblivious veil (Exec.hook? value hook) machine :=
  view fun _ => rfl

theorem alloc {kind : Kind} (content : Content kind) :
    Oblivious veil (Exec.alloc content) machine :=
  have allocates : Oblivious veil (fun machine => .ok (machine.heap.alloc content).1
    { machine with heap := (machine.heap.alloc content).2 }) machine :=
    change (fun _ => rfl) (fun _ => rfl) (fun suits => suits.congr rfl rfl)
      (.of_heap rfl (Heap.lostIn_alloc _ content))
  allocates

theorem update {kind : Kind} (ref : Ref kind) (change : Content kind → Content kind) :
    Oblivious veil (Exec.update ref change) machine :=
  Oblivious.change (fun _ => rfl) (fun _ => rfl) (fun suits => suits.congr rfl rfl)
    (.of_heap rfl (Heap.lostIn_modify _ ref change))

theorem newArray (values : Array Value) : Oblivious veil (Exec.newArray values) machine :=
  (alloc _).bind fun _ _ _ => pure _

theorem count (change : Counters → Counters) : Oblivious veil (Exec.count change) machine :=
  Oblivious.change (fun _ => rfl) (fun _ => rfl) (fun suits => suits.congr rfl rfl)
    (.of_eq rfl rfl)

theorem keeping (indices : List Nat)
    (oblivious : Oblivious veil action { machine with held := indices ++ machine.held }) :
    Oblivious veil (Exec.keeping indices action) machine := by
  have kept : Oblivious veil (Exec.ensuring (fun next => { next with held := machine.held }) action)
      { machine with held := indices ++ machine.held } :=
    ensuring oblivious (fun _ _ => rfl) (fun _ suits => suits.congr rfl rfl) fun _ => .of_eq rfl rfl
  exact fun suits => kept (suits.congr rfl rfl)

theorem holding (values : List Value)
    (oblivious : Oblivious veil action
      { machine with held := Value.addresses values ++ machine.held }) :
    Oblivious veil (Exec.holding values action) machine := keeping _ oblivious

theorem forM {list : List β} {body : β → Exec Unit}
    (oblivious : ∀ item machine, Oblivious veil (body item) machine) (machine : Machine) :
    Oblivious veil (list.forM body) machine := by
  induction list generalizing machine with
  | nil => exact pure ()
  | cons first rest ih => exact (oblivious first machine).bind fun _ next _ => ih next

/-! ### Registers and frames -/

theorem onStack {change : Stack → Stack}
    (same : veil.floor ≤ machine.fiber.stack.size →
      change (veil.stack machine.fiber.stack) = veil.stack (change machine.fiber.stack))
    (room : veil.floor ≤ machine.fiber.stack.size →
      veil.floor ≤ (change machine.fiber.stack).size)
    (slots : veil.floor ≤ machine.fiber.stack.size → ∀ place < veil.floor,
      (change machine.fiber.stack).slots[place]? = machine.fiber.stack.slots[place]?) :
    Oblivious veil (Exec.onStack change) machine :=
  of_suits fun hangs => Oblivious.change (fun _ => rfl)
    (fun incidents => congrArg (fun stack : Stack =>
      { veil.machine incidents machine with fiber := { machine.fiber with stack } })
      (same hangs.room))
    (fun suits => suits.of_slots (room hangs.room) (slots hangs.room) rfl) (.of_eq rfl rfl)

/-- Frames and instruction pointers are in front of the veil. -/
theorem onFrames {change : Stack → Stack}
    (same : change (veil.stack machine.fiber.stack) = veil.stack (change machine.fiber.stack))
    (slots : (change machine.fiber.stack).slots = machine.fiber.stack.slots) :
    Oblivious veil (Exec.onStack change) machine :=
  onStack (fun _ => same)
    (fun room => Nat.le_trans room (Nat.le_of_eq (congrArg Array.size slots).symm))
    fun _ place _ => congrArg (·[place]?) slots

theorem requireRoom {room : Stack → Bool}
    (seen : room (veil.stack machine.fiber.stack) = room machine.fiber.stack) :
    Oblivious veil (Exec.requireRoom room) machine := by
  refine ofFiber_bind ?_ seen
  split
  · exact pure ()
  · exact raise _

theorem requireRoom_bind {room : Stack → Bool} {following : Unit → Exec α}
    (seen : room (veil.stack machine.fiber.stack) = room machine.fiber.stack)
    (further : Oblivious veil (following ()) machine) :
    Oblivious veil (Exec.requireRoom room >>= following) machine := by
  have stays : (Exec.requireRoom room).Meets machine (fun _ next => next = machine)
      (fun _ _ => True) fun _ => True := by
    rw [← bind_pure (Exec.requireRoom room)]
    exact Meets.room_bind trivial fun _ => rfl
  refine bind_meets stays (requireRoom seen) ?_
  rintro _ _ rfl
  exact further

theorem push (value : Value) : Oblivious veil (Exec.push value) machine := by
  refine requireRoom_bind ?_ (onStack (veil.append_stack · value) (fun room => ?_)
    fun room place low => Stack.slot_append _ value (Nat.lt_of_lt_of_le low room))
  · rw [Stack.hasRoom, veil.size_stack]
    rfl
  · rw [Stack.size_append]
    exact Nat.le_succ_of_le room

theorem ensure (size : Nat) : Oblivious veil (Exec.ensure size) machine := by
  refine requireRoom_bind rfl (onStack (veil.grow_stack · size) (fun room => ?_)
    fun room place low => Stack.slot_grow _ size (Nat.lt_of_lt_of_le low room))
  rw [Stack.size_grow]
  exact Nat.le_trans room (Nat.le_max_left _ _)

theorem truncate {size : Nat} (high : veil.floor ≤ size) :
    Oblivious veil (Exec.truncate size) machine := by
  refine onStack (fun _ => veil.truncate_stack size _) (fun room => ?_)
    fun _ place low => Stack.slot_truncate _ (Nat.lt_of_lt_of_le low high)
  rw [Stack.size_truncate]
  exact Nat.le_min.mpr ⟨room, high⟩

theorem resize {size : Nat} (high : veil.floor ≤ size) :
    Oblivious veil (Exec.resize size) machine := (truncate high).bind fun _ _ _ => ensure size

theorem setPlace {place : Nat} (high : veil.floor ≤ place) (value : Value) :
    Oblivious veil (Exec.setPlace place value) machine := by
  refine requireRoom_bind ?_ (onStack (veil.put_stack · high value) (fun room => ?_)
    fun room other low => Stack.slot_put _ value (Nat.lt_of_lt_of_le low room) ?_)
  · rw [Stack.admits, veil.size_stack]
    rfl
  · rw [Stack.size_put]
    exact Nat.le_trans room (Nat.le_max_left _ _)
  · exact Nat.ne_of_gt (Nat.lt_of_lt_of_le low high)

theorem range {start : Nat} (high : veil.floor ≤ start) (stop : Nat) :
    Oblivious veil (Exec.range start stop) machine := ofFiber (veil.range_stack high stop _)

theorem clearRange {start : Nat} (high : veil.floor ≤ start) (stop : Nat) :
    Oblivious veil (Exec.clearRange start stop) machine :=
  onStack (fun _ => veil.clearRange_stack high stop _)
    (fun room => Nat.le_trans room (Nat.le_of_eq (Stack.size_clearRange _ _ _).symm))
    fun _ _ low => Stack.slot_clearRange _ stop (Nat.lt_of_lt_of_le low high)

theorem takeRange {start : Nat} (high : veil.floor ≤ start) (stop : Nat) :
    Oblivious veil (Exec.takeRange start stop) machine :=
  (range high stop).bind fun _ _ _ => (clearRange high stop).bind fun _ _ _ => pure _

theorem pushFrame (frame : Frame) : Oblivious veil (Exec.pushFrame frame) machine := by
  refine requireRoom_bind rfl (onStack (fun room => ?_) (fun room => ?_)
    fun room place low => Stack.slot_enter _ frame (Nat.lt_of_lt_of_le low room))
  · exact congrArg (Stack.addFrame · frame) (veil.grow_stack room frame.top)
  · rw [Stack.size_enter]
    exact Nat.le_trans room (Nat.le_max_left _ _)

theorem frame_bind {following : Frame → Exec α}
    (further : ∀ frame, machine.fiber.stack.current? = some frame →
      Oblivious veil (following frame) machine) :
    Oblivious veil (Exec.frame >>= following) machine := by
  rw [Exec.frame, bind_assoc]
  refine ofFiber_bind ?_ rfl
  cases current : machine.fiber.stack.current? with
  | none => exact (raise _).bind fun frame next result => absurd result (by simp [Exec.raise])
  | some frame =>
      rw [pure_bind]
      exact further frame current

theorem frame : Oblivious veil Exec.frame machine := by
  rw [← bind_pure Exec.frame]
  exact frame_bind fun frame _ => pure frame

theorem popFrame : Oblivious veil Exec.popFrame machine :=
  frame.bind fun _ _ _ => bind (onFrames rfl rfl) fun _ _ _ => pure _

theorem goTo (ip : Nat) : Oblivious veil (Exec.goTo ip) machine :=
  onFrames rfl rfl

theorem register {number : UInt8} (high : veil.floor ≤ machine.fiber.base) :
    Oblivious veil (Exec.register number) machine :=
  ofFiber (veil.get_stack (Nat.le_add_right_of_le high) _)

theorem setRegister {number : UInt8} (high : veil.floor ≤ machine.fiber.base) (value : Value) :
    Oblivious veil (Exec.setRegister number value) machine :=
  ofFiber_bind (setPlace (Nat.le_add_right_of_le high) value) rfl

theorem deliver (target : Option UInt8) (high : veil.floor ≤ machine.fiber.base) (value : Value) :
    Oblivious veil (Exec.deliver target value) machine := by
  cases target with
  | none => exact pure ()
  | some number => exact setRegister high value

end Exec.Oblivious

end ScriptMachine
