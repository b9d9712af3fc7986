import ScriptMachine.Proofs.Machine.DiscreetHosts
import ScriptMachine.Proofs.Machine.Staying

/-!
# Literals and spare registers

Some instructions find an operand in the literals of their function, and others find it in a
register.  An instruction of the first kind ends like the load of its literal into a spare register,
followed by the instruction of the second kind: what is run to look up a slot does not look at the
register, which is behind a veil.  What the register has held is held no longer after the load, so
that it may be lost then.  Where it is not, the same garbage is collected.
-/

namespace ScriptMachine

open Exec

variable {α β : Type}

/-! ## Plain forms -/

namespace Instruction

/-- The wide operand that names a register. -/
def wideRegister (number : UInt8) : Int32 := .ofNat number.toNat

theorem lowByte_wideRegister (number : UInt8) : lowByte (wideRegister number) = number := by
  have small := number.toNat_lt
  have exact : (wideRegister number).toInt = number.toNat := by
    rw [wideRegister, Int32.toInt_ofNat_of_lt (by omega)]
  rw [lowByte, exact]
  refine UInt8.toNat_inj.mp ?_
  rw [UInt8.toNat_ofNat']
  omega

/-- The instruction that finds in a register what this one finds in the literals of its function. -/
def withRegister? (instruction : Instruction) (number : UInt8) : Option Instruction :=
  let ⟨op, first, _, second, third⟩ := instruction
  match op with
  | .getK => some ⟨.get, first, wideRegister second, number, third⟩
  | .prepCallK => some ⟨.prepCall, first, wideRegister number, second, third⟩
  | .appendArray =>
    if AppendSource.ofCode? second = some .literal then
      some ⟨.appendArray, first, wideRegister number, AppendSource.register.code, third⟩
    else none
  | .eq | .ne => if third = 1 then some ⟨op, first, wideRegister number, second, 0⟩ else none
  | _ => none

/-- The instruction looks up a slot. -/
def looksUp (instruction : Instruction) : Bool :=
  match instruction.op with
  | .get | .getK | .prepCall | .prepCallK => true
  | _ => false

end Instruction

/-- Load a literal into a register and carry out an instruction. -/
def Exec.loadAnd (engine : Engine) (number : UInt8) (literal : Int32) (instruction : Instruction) :
    Exec Flow := do
  let _ ← dispatch .direct engine ⟨.load, number, literal, 0, 0⟩
  dispatch .direct engine instruction

/-! ## Machines that are alike -/

/-- The stacks differ in nothing but the register at a place. -/
structure Stack.SameBut (place : Nat) (stack other : Stack) : Prop where
  /-- As many registers are in use. -/
  size : other.size = stack.size
  /-- The other registers are the same. -/
  slots : ∀ index ≠ place, other.slots[index]? = stack.slots[index]?
  /-- Everything else is the same. -/
  rest : other = { stack with slots := other.slots }

/-- The machines are in the same frame and differ in nothing but one of its registers and the
incidents written down. -/
structure Machine.AlikeBut (frame : Frame) (number : UInt8) (machine other : Machine) : Prop where
  /-- The frame. -/
  current : machine.fiber.stack.current? = some frame
  /-- The registers and frames are the same but for the register. -/
  stack : machine.fiber.stack.SameBut (frame.base + number.toNat) other.fiber.stack
  /-- Everything else is the same. -/
  rest : other = { machine.mapStack fun _ => other.fiber.stack with incidents := other.incidents }

/-- The computations end alike, with the same result or the same fault; or neither of them ends. -/
inductive Exec.EndAlike (frame : Frame) (number : UInt8) :
    EStateM.Result Stop Machine α → EStateM.Result Stop Machine α → Prop
  | ok {value : α} {next other : Machine} (alike : next.AlikeBut frame number other) :
      EndAlike frame number (.ok value next) (.ok value other)
  | raised {fault : Fault} {next other : Machine} (alike : next.AlikeBut frame number other) :
      EndAlike frame number (.error (.raised fault) next) (.error (.raised fault) other)
  | exhausted {next other : Machine} :
      EndAlike frame number (.error .exhausted next) (.error .exhausted other)

theorem Stack.put_of_lt {stack : Stack} {place : Nat} (within : place < stack.size)
    (value : Value) :
    stack.put place value = { stack with slots := stack.slots.setIfInBounds place value } := by
  rw [Stack.put, Stack.grow, if_neg (Nat.not_lt_of_le within)]
  rfl

namespace Stack.SameBut

variable {place : Nat} {stack other : Stack}

theorem symm (same : stack.SameBut place other) : other.SameBut place stack where
  size := same.size.symm
  slots index apart := (same.slots index apart).symm
  rest := by rw [same.rest]

theorem assigned (place : Nat) (value : Value) (stack : Stack) :
    stack.SameBut place { stack with slots := stack.slots.setIfInBounds place value } where
  size := Array.size_setIfInBounds
  slots _ apart := Array.getElem?_setIfInBounds_ne (Ne.symm apart)
  rest := rfl

theorem grow (same : stack.SameBut place other) (size : Nat) :
    (stack.grow size).SameBut place (other.grow size) := by
  obtain ⟨sizes, slots, rest⟩ := same
  have sized : other.slots.size = stack.slots.size := sizes
  rw [Stack.grow, Stack.grow, sizes]
  split
  · refine ⟨?_, fun index apart => ?_, ?_⟩
    · simp only [Stack.size, Array.size_append, sized]
    · simp only [Array.getElem?_append, sized, slots index apart]
    · rw [rest]
  · exact ⟨sizes, slots, rest⟩

/-- A register is assigned. -/
theorem put (same : stack.SameBut place other) (index : Nat) (value : Value) :
    (stack.put index value).SameBut place (other.put index value) := by
  obtain ⟨sizes, slots, rest⟩ := same.grow (index + 1)
  have sized : (other.grow (index + 1)).slots.size = (stack.grow (index + 1)).slots.size := sizes
  rw [Stack.put, Stack.put, Stack.assign, Stack.assign]
  refine ⟨?_, fun also apart => ?_, ?_⟩
  · simp only [Stack.size, Array.size_setIfInBounds, sized]
  · simp only [Array.getElem?_setIfInBounds, sized, slots also apart]
  · rw [rest]

end Stack.SameBut

namespace Machine.AlikeBut

variable {frame : Frame} {number : UInt8} {machine other : Machine}

theorem base (alike : machine.AlikeBut frame number other) : machine.fiber.base = frame.base :=
  base_of_current alike.current

theorem base_other (alike : machine.AlikeBut frame number other) :
    other.fiber.base = frame.base := by
  rw [Fiber.base, Stack.current?, alike.stack.rest]
  exact alike.base

/-- The other registers hold the same. -/
theorem get (alike : machine.AlikeBut frame number other) {place : Nat}
    (apart : place ≠ frame.base + number.toNat) :
    other.fiber.stack.get place = machine.fiber.stack.get place := by
  rw [Stack.get_eq, Stack.get_eq, alike.stack.slots _ apart]

theorem register (alike : machine.AlikeBut frame number other) {also : UInt8}
    (differ : also ≠ number) :
    register also machine = .ok (machine.fiber.stack.get (frame.base + also.toNat)) machine ∧
      register also other = .ok (machine.fiber.stack.get (frame.base + also.toNat)) other := by
  have apart : frame.base + also.toNat ≠ frame.base + number.toNat := fun same =>
    differ (UInt8.toNat_inj.mp (Nat.add_left_cancel same))
  constructor
  · rw [← alike.base]
    rfl
  · rw [← alike.get apart, ← alike.base_other]
    rfl

/-- What is written down does not matter. -/
theorem incidents (alike : machine.AlikeBut frame number other) (left right : List Incident) :
    { machine with incidents := left }.AlikeBut frame number { other with incidents := right } where
  current := alike.current
  stack := alike.stack
  rest := congrArg ({ · with incidents := right }) alike.rest

/-- A register is assigned. -/
theorem put (alike : machine.AlikeBut frame number other) (place : Nat) (value : Value) :
    (machine.mapStack (·.put place value)).AlikeBut frame number
      (other.mapStack (·.put place value)) where
  current := by
    rw [Machine.mapStack, Stack.current?, Stack.frames_put]
    exact alike.current
  stack := alike.stack.put place value
  rest := congrArg (Machine.mapStack · (·.put place value)) alike.rest

end Machine.AlikeBut

namespace Exec.EndAlike

open Machine

variable {frame : Frame} {number : UInt8} {machine other : Machine}

theorem bind {first second : Exec α} {following further : α → Exec β}
    (alike : EndAlike frame number (first machine) (second other))
    (rest : ∀ value next twin, next.AlikeBut frame number twin →
      EndAlike frame number (following value next) (further value twin)) :
    EndAlike frame number ((first >>= following) machine) ((second >>= further) other) := by
  cases result : first machine with
  | ok value next =>
      rw [result] at alike
      generalize ended : second other = same at alike
      cases alike with
      | ok alike =>
          rw [ok_bind result, ok_bind ended]
          exact rest value next _ alike
  | error stop next =>
      rw [result] at alike
      generalize ended : second other = same at alike
      rw [error_bind result]
      cases alike with
      | raised alike =>
          rw [error_bind ended]
          exact .raised alike
      | exhausted =>
          rw [error_bind ended]
          exact .exhausted

theorem pure (alike : machine.AlikeBut frame number other) (value : α) :
    EndAlike frame number ((Pure.pure value : Exec α) machine) ((Pure.pure value : Exec α) other) :=
  .ok alike

/-- Both computations begin by finding a value. -/
theorem found {first second : Exec α} {value : α} (left : first machine = .ok value machine)
    (right : second other = .ok value other) {following further : α → Exec β}
    (rest : EndAlike frame number (following value machine) (further value other)) :
    EndAlike frame number ((first >>= following) machine) ((second >>= further) other) := by
  rw [ok_bind left, ok_bind right]
  exact rest

/-- Another register is read. -/
theorem register_bind (alike : machine.AlikeBut frame number other) {also : UInt8}
    (differ : also ≠ number) {following further : Value → Exec α}
    (rest : ∀ value, EndAlike frame number (following value machine) (further value other)) :
    EndAlike frame number ((register also >>= following) machine)
      ((register also >>= further) other) :=
  have ⟨left, right⟩ := alike.register differ
  found left right (rest _)

theorem raise (alike : machine.AlikeBut frame number other) (fault : Fault) :
    EndAlike frame number ((Exec.raise fault : Exec α) machine)
      ((Exec.raise fault : Exec α) other) :=
  .raised (alike.incidents _ _)

/-- Registers are assigned. -/
theorem setRegister (alike : machine.AlikeBut frame number other) (also : UInt8) (value : Value) :
    EndAlike frame number (Exec.setRegister also value machine)
      (Exec.setRegister also value other) := by
  have place : ∀ {machine : Machine}, machine.fiber.base = frame.base →
      Exec.setRegister also value machine = setPlace (frame.base + also.toNat) value machine :=
    fun {machine} base => congrArg (setPlace · value machine)
      (congrArg (· + also.toNat) base)
  have admits : other.fiber.stack.admits (frame.base + also.toNat) =
      machine.fiber.stack.admits (frame.base + also.toNat) := by
    rw [Stack.admits, Stack.admits, alike.stack.size, alike.stack.rest]
    rfl
  rw [place alike.base, place alike.base_other, setPlace, requireRoom_bind, requireRoom_bind,
    admits]
  split
  · exact .ok (alike.put _ value)
  · exact raise alike .stackOverflow

theorem update (alike : machine.AlikeBut frame number other) {kind : Kind} (ref : Ref kind)
    (change : Content kind → Content kind) :
    EndAlike frame number (Exec.update ref change machine) (Exec.update ref change other) :=
  .ok ⟨alike.current, alike.stack, congrArg
    (fun machine : Machine => { machine with heap := machine.heap.modify ref change }) alike.rest⟩

/-- The result of a computation is assigned to a register. -/
theorem toFirst {left right : Exec Value}
    (alike : EndAlike frame number (left machine) (right other)) (instruction also : Instruction)
    (same : also.first = instruction.first) :
    EndAlike frame number (Exec.toFirst .direct instruction left machine)
      (Exec.toFirst .direct also right other) := by
  refine alike.bind fun value _ _ alike => ?_
  rw [same]
  exact setRegister alike _ value

end Exec.EndAlike

/-! ## What a register has held -/

/-- Nothing has been lost that the value refers to. -/
def Machine.Retains (machine : Machine) (value : Value) : Prop :=
  ∀ index, value.address? = some index → ¬machine.Lost index

theorem Machine.Retains.of_lostIn {machine next : Machine} {value : Value}
    (retains : next.Retains value) (lost : machine.LostIn next) : machine.Retains value :=
  fun index refers gone => retains index refers (lost index gone)

/-- The computations end alike, unless something has been lost in the second machine that a value
refers to. -/
def Exec.AgreeAt (frame : Frame) (number : UInt8) (held : Value) (first second : Exec α)
    (machine other : Machine) : Prop :=
  (second.after other).Retains held → EndAlike frame number (first machine) (second other)

theorem Exec.lostIn_setRegister (number : UInt8) (value : Value) :
    Along Machine.LostIn (Exec.setRegister number value) := by
  refine .bind (.view _) fun base => .bind (.bind (.view _) fun room => ?_) fun _ =>
    .change fun machine => .of_eq rfl rfl
  split
  · exact .pure _
  · exact fun machine => .of_eq rfl rfl

namespace Exec.AgreeAt

variable {frame : Frame} {number : UInt8} {held : Value} {machine other : Machine}
  {first second : Exec α} {following further : α → Exec β}

/-- What follows loses nothing more. -/
theorem bind (agree : AgreeAt frame number held first second machine other)
    (keeps : ∀ value, Along Machine.LostIn (further value))
    (rest : ∀ value next twin, next.AlikeBut frame number twin →
      EndAlike frame number (following value next) (further value twin)) :
    AgreeAt frame number held (first >>= following) (second >>= further) machine other := by
  intro retains
  have lost : (second.after other).LostIn ((second >>= further).after other) :=
    Along.bind_at (.refl _) fun value next _ => keeps value next
  exact (agree (retains.of_lostIn lost)).bind rest

theorem found {value : α} (left : first machine = .ok value machine)
    (right : second other = .ok value other)
    (rest : AgreeAt frame number held (following value) (further value) machine other) :
    AgreeAt frame number held (first >>= following) (second >>= further) machine other := by
  intro retains
  rw [after_ok_bind right] at retains
  exact .found left right (rest retains)

/-- The result of the computation is assigned to a register. -/
theorem toFirst {first second : Exec Value}
    (agree : AgreeAt frame number held first second machine other) (instruction also : Instruction)
    (same : also.first = instruction.first) :
    AgreeAt frame number held (Exec.toFirst .direct instruction first)
      (Exec.toFirst .direct also second) machine other := by
  refine agree.bind (fun value => lostIn_setRegister _ value) fun value _ _ alike => ?_
  rw [same]
  exact .setRegister alike _ value

end Exec.AgreeAt

/-! ## Spare registers -/

/-- The register belongs to the window of the frame, and the instruction does not use it. -/
structure Frame.Spares (frame : Frame) (instruction : Instruction) (number : UInt8) : Prop where
  /-- It belongs to the window. -/
  window : number.toNat < frame.closure.routine.stackSize
  /-- It is not an operand. -/
  unused : .byteRegister number ∉ instruction.operands

/-! ## Instructions -/

/-- The register of the current frame can hold the value. -/
structure Machine.Lends (machine : Machine) (manners : Manners) (frame : Frame) (number : UInt8)
    (value : Value) : Prop where
  /-- The machine is sound. -/
  ready : machine.Ready
  /-- The frame is the current one. -/
  current : machine.fiber.stack.current? = some frame
  /-- There is nothing to wake. -/
  calm : machine.fiber.activity.Calm manners
  /-- The register is in use. -/
  within : frame.base + number.toNat < machine.fiber.stack.size
  /-- The value refers to nothing. -/
  plain : value.address? = none

/-- The machine with a value in a register of the frame. -/
def Machine.loaded (machine : Machine) (frame : Frame) (number : UInt8) (value : Value) : Machine :=
  machine.mapStack fun stack =>
    { stack with slots := stack.slots.setIfInBounds (frame.base + number.toNat) value }

/-- Behind the veil, a register in use holds what it holds in the machine. -/
def Machine.veil (machine : Machine) (place : Fin machine.fiber.stack.size) : Veil where
  floor := machine.fiber.stack.size
  hidden := some (place, machine.fiber.stack.get place)
  waiting := machine.waiting
  besides := (machine.fiber.stack.get place).address?.toList

namespace Machine.Lends

variable {manners : Manners} {machine : Machine} {frame : Frame} {number : UInt8} {value : Value}
  {engine : Engine} (lends : machine.Lends manners frame number value)

include lends

theorem alike : machine.AlikeBut frame number (machine.loaded frame number value) :=
  ⟨lends.current, .assigned _ value _, rfl⟩

/-- The value has been loaded. -/
theorem register : register number (machine.loaded frame number value) =
    .ok value (machine.loaded frame number value) := by
  have base := lends.alike.base_other
  have within : frame.base + number.toNat < machine.fiber.stack.slots.size := lends.within
  have found : (machine.loaded frame number value).fiber.stack.get
      ((machine.loaded frame number value).fiber.base + number.toNat) = value := by
    rw [base, Stack.get_eq, loaded, mapStack, Array.getElem?_setIfInBounds_self_of_lt within]
    rfl
  exact congrArg (EStateM.Result.ok · _) found

theorem setRegister_eq :
    setRegister number value machine = .ok () (machine.loaded frame number value) := by
  rw [Exec.setRegister_eq lends.alike.base lends.within, mapStack, Stack.put_of_lt lends.within]
  rfl

theorem keeps_loaded :
    machine.Keeps (.below frame.base) (machine.loaded frame number value) := by
  have writes : SteadyIn manners frame (setRegister number value) := .write number value
  have fits : frame.base ≤ machine.fiber.stack.size :=
    Nat.le_trans (Nat.le_add_right _ _) (Nat.le_of_lt lends.within)
  exact ((writes machine lends.ready fits ⟨lends.current, lends.calm⟩).of_ok
    lends.setRegister_eq).keeps

/-- Behind the veil the register is as it has been. -/
theorem veil_loaded : (machine.veil ⟨_, lends.within⟩).machine machine.incidents
    (machine.loaded frame number value) = machine := by
  have within : frame.base + number.toNat < machine.fiber.stack.slots.size := lends.within
  have former : (machine.fiber.stack.slots.setIfInBounds (frame.base + number.toNat)
      value).setIfInBounds (frame.base + number.toNat)
        (machine.fiber.stack.get (frame.base + number.toNat)) = machine.fiber.stack.slots := by
    refine Array.ext_getElem? fun index => ?_
    rw [Array.setIfInBounds_setIfInBounds, Array.getElem?_setIfInBounds]
    split
    · rename_i same
      rw [Stack.get_eq, ← same, Array.getElem?_eq_getElem within]
      rfl
    · rfl
  exact congrArg (fun slots => { machine with
    fiber := { machine.fiber with stack := { machine.fiber.stack with slots } } }) former

/-- With the value in the register the machine holds the same objects but for the one that the
register has held. -/
theorem suits_veil :
    (machine.veil ⟨_, lends.within⟩).Suits (machine.loaded frame number value) := by
  let place := frame.base + number.toNat
  let former := machine.fiber.stack.get place
  let slots := machine.fiber.stack.slots.setIfInBounds place value
  have inUse : place < machine.fiber.stack.slots.size := lends.within
  have assigned : ∀ other : Nat, slots[other]?.bind Value.address? =
      if place = other then none else machine.fiber.stack.slots[other]?.bind Value.address? := by
    intro other
    rw [Array.getElem?_setIfInBounds, if_pos inUse]
    split
    · exact lends.plain
    · rfl
  have restored : ∀ other : Nat, (slots.setIfInBounds place former)[other]?.bind Value.address? =
      if place = other then former.address? else slots[other]?.bind Value.address? := by
    intro other
    rw [Array.getElem?_setIfInBounds, Array.size_setIfInBounds, if_pos inUse]
    split <;> rfl
  refine ⟨Nat.le_of_eq Array.size_setIfInBounds.symm, fun index => Or.imp_left ?_, fun index => ?_⟩
  · rintro ⟨other, low, refers⟩
    refine ⟨other, low, (restored other).trans ?_⟩
    rw [if_neg]
    · exact refers
    · rintro rfl
      exact absurd ((assigned place).symm.trans refers) (by simp)
  · rintro (⟨other, low, refers⟩ | waits)
    · have refers := (restored other).symm.trans refers
      split at refers
      · exact .inr (Option.mem_toList.mpr refers)
      · exact .inl (.inl ⟨other, low, refers⟩)
    · exact .inl (.inr waits)

/-- An operation on values does not depend on the register, unless what the register has held is
lost. -/
theorem operates (discreet : engine.Discreet manners) {action : Exec α}
    (parallel : engine.Parallel engine action action) :
    AgreeAt frame number (machine.fiber.stack.get (frame.base + number.toNat)) action action machine
      (machine.loaded frame number value) := by
  intro retains
  let loaded := machine.loaded frame number value
  let veil := machine.veil ⟨_, lends.within⟩
  have keeps : machine.Keeps (.below frame.base) loaded := lends.keeps_loaded
  have ready : loaded.Ready := keeps.ready lends.ready
  have holds : Activity.At manners frame loaded.fiber.activity :=
    keeps.activity ▸ ⟨lends.current, lends.calm⟩
  have discreet : Discreet manners .all machine.fiber.stack.size (Activity.At manners frame)
      action := .operation discreet (fun _ holds => holds.2) parallel
  have meets := discreet.steady loaded ready trivial holds
  have covers := (discreet.oblivious (Nat.le_refl _) ready trivial holds
    (lends.suits_veil : veil.Suits loaded)).2 machine.incidents
  have kept : veil.Keeps (action.after loaded) := fun index beside =>
    retains index (Option.mem_toList.mp beside)
  have alike : ∀ (next : Machine) (incidents : List Incident), loaded.Keeps .all next →
      (veil.machine incidents next).AlikeBut frame number next := fun next incidents stays =>
    ⟨stays.current.trans (keeps.current.trans lends.current), (Stack.SameBut.assigned _ _ _).symm,
      congrArg (fun waiting => { next with waiting }) stays.waiting⟩
  rw [lends.veil_loaded] at covers
  rw [Exec.after] at kept
  rw [Meets] at meets
  cases result : action loaded with
  | ok found next =>
      rw [result] at meets covers kept
      obtain ⟨incidents, same⟩ := covers.2 kept
      rw [same]
      exact .ok (alike next incidents meets.keeps)
  | error stop next =>
      rw [result] at meets covers kept
      cases stop with
      | raised fault =>
          obtain ⟨incidents, same⟩ := covers.2 kept
          rw [same]
          exact .raised (alike next incidents meets.keeps)
      | exhausted =>
          obtain ⟨other, same⟩ := covers kept
          rw [same]
          exact .exhausted

end Machine.Lends

/-! ## Instructions -/

theorem Exec.readWide_wideRegister (number : UInt8) :
    Access.direct.readWide (Instruction.wideRegister number) = register number :=
  congrArg register (Instruction.lowByte_wideRegister number)

namespace Exec.AgreeAt

open Instruction

variable {manners : Manners} {machine : Machine} {frame : Frame} {number : UInt8} {value : Value}
  {engine : Engine} {first second third : UInt8} {wide : Int32}

variable (lends : machine.Lends manners frame number value)

include lends

theorem register_bind {also : UInt8} (differ : also ≠ number) {following further : Value → Exec α}
    {held : Value} (rest : ∀ object, AgreeAt frame number held (following object) (further object)
      machine (machine.loaded frame number value)) :
    AgreeAt frame number held (register also >>= following) (register also >>= further) machine
      (machine.loaded frame number value) :=
  have ⟨left, right⟩ := lends.alike.register differ
  found left right (rest _)

variable (found : Exec.literal wide machine = .ok value machine)
  (discreet : engine.Discreet manners)

include found discreet

theorem getK (apart : second ≠ number) :
    AgreeAt frame number (machine.fiber.stack.get (frame.base + number.toNat))
      (dispatch .direct engine ⟨.getK, first, wide, second, third⟩)
      (dispatch .direct engine ⟨.get, first, wideRegister second, number, third⟩) machine
      (machine.loaded frame number value) := by
  obtain ⟨left, right⟩ := lends.alike.register apart
  rw [← readWide_wideRegister] at right
  refine .bind (.found left right (.found found lends.register ?_)) (fun _ => .pure _)
    fun _ _ _ alike => .pure alike _
  exact .toFirst (lends.operates discreet (.getSlot _ _)) _ _ rfl

theorem prepCallK (apart : second ≠ number) :
    AgreeAt frame number (machine.fiber.stack.get (frame.base + number.toNat))
      (dispatch .direct engine ⟨.prepCallK, first, wide, second, third⟩)
      (dispatch .direct engine ⟨.prepCall, first, wideRegister number, second, third⟩) machine
      (machine.loaded frame number value) := by
  have key := lends.register
  rw [← readWide_wideRegister] at key
  refine .bind (register_bind lends apart fun object => .found found key ?_) (fun _ => .pure _)
    fun _ _ _ alike => .pure alike _
  refine (lends.operates discreet (.getSlot _ _)).bind (fun function => ?_)
    fun function _ _ alike => ?_
  · exact .bind (lostIn_setRegister third object) fun _ => lostIn_setRegister first function
  · exact (EndAlike.setRegister alike third object).bind fun _ _ _ alike =>
      EndAlike.setRegister alike first function

end Exec.AgreeAt

namespace Exec.EndAlike

open Instruction

variable {manners : Manners} {machine : Machine} {frame : Frame} {number : UInt8} {value : Value}
  {engine : Engine} {first second third : UInt8} {wide : Int32}
  (lends : machine.Lends manners frame number value)
  (found : Exec.literal wide machine = .ok value machine)

include lends found

theorem appendArray (apart : first ≠ number)
    (named : AppendSource.ofCode? second = some .literal) :
    EndAlike frame number
      (dispatch .direct engine ⟨.appendArray, first, wide, second, third⟩ machine)
      (dispatch .direct engine
        ⟨.appendArray, first, wideRegister number, AppendSource.register.code, third⟩
        (machine.loaded frame number value)) := by
  have item : appended .direct ⟨.appendArray, first, wide, second, third⟩ machine =
      .ok value machine := by
    simp only [appended, named]
    exact found
  have held := lends.register
  have loaded : appended .direct
      ⟨.appendArray, first, wideRegister number, AppendSource.register.code, third⟩
      (machine.loaded frame number value) = .ok value (machine.loaded frame number value) := by
    rw [← readWide_wideRegister] at held
    exact held
  refine .bind (.found item loaded (.register_bind lends.alike apart fun array => ?_))
    fun _ _ _ alike => .pure alike _
  cases array with
  | array ref => exact .update lends.alike ref _
  | _ => exact .raise lends.alike _

theorem operandsEqual (op : Opcode) (apart : second ≠ number) :
    EndAlike frame number
      (Exec.operandsEqual .direct ⟨op, first, wide, second, 1⟩ machine)
      (Exec.operandsEqual .direct ⟨op, first, wideRegister number, second, 0⟩
        (machine.loaded frame number value)) := by
  have held := lends.register
  rw [← readWide_wideRegister] at held
  have rest : ∀ object : Value, EndAlike frame number
      ((Pure.pure (object.scriptEqual value) : Exec Bool) machine)
      ((Pure.pure (object.scriptEqual value) : Exec Bool) (machine.loaded frame number value)) :=
    fun _ => .pure lends.alike _
  exact .found found held (.register_bind lends.alike apart rest)

end Exec.EndAlike

namespace Machine.Lends

open Instruction

variable {manners : Manners} {machine : Machine} {frame : Frame} {number : UInt8} {value : Value}
  {engine : Engine} {instruction plain : Instruction}
  (lends : machine.Lends manners frame number value)

include lends

/-- The literal has been loaded, and the instruction goes on with the register. -/
theorem loadAnd (found : Exec.literal instruction.wide machine = .ok value machine) :
    Exec.loadAnd engine number instruction.wide plain machine =
      dispatch .direct engine plain (machine.loaded frame number value) := by
  have loads : dispatch .direct engine ⟨.load, number, instruction.wide, 0, 0⟩ machine =
      .ok .proceed (machine.loaded frame number value) :=
    ok_bind ((ok_bind found).trans lends.setRegister_eq)
  exact ok_bind loads

theorem agrees (discreet : engine.Discreet manners)
    (found : Exec.literal instruction.wide machine = .ok value machine)
    (form : instruction.withRegister? number = some plain)
    (unused : .byteRegister number ∉ instruction.operands)
    (retains : instruction.looksUp = true →
      ((Exec.loadAnd engine number instruction.wide plain).after machine).Retains
        (machine.fiber.stack.get (frame.base + number.toNat))) :
    EndAlike frame number (dispatch .direct engine instruction machine)
      (Exec.loadAnd engine number instruction.wide plain machine) := by
  rw [Exec.after, lends.loadAnd found] at retains
  rw [lends.loadAnd found]
  obtain ⟨op, first, wide, second, third⟩ := instruction
  have apart : ∀ {also : UInt8},
      .byteRegister also ∈ (⟨op, first, wide, second, third⟩ : Instruction).operands →
      also ≠ number := by
    rintro also member rfl
    exact unused member
  cases op with
  | getK =>
      obtain rfl := Option.some.inj form
      exact AgreeAt.getK lends found discreet (apart (by simp [Instruction.operands]))
        (retains rfl)
  | prepCallK =>
      obtain rfl := Option.some.inj form
      exact AgreeAt.prepCallK lends found discreet (apart (by simp [Instruction.operands]))
        (retains rfl)
  | appendArray =>
      dsimp only [withRegister?] at form
      split at form
      · rename_i named
        obtain rfl := Option.some.inj form
        exact .appendArray lends found (apart (by simp [Instruction.operands])) named
      · cases form
  | eq | ne =>
      dsimp only [withRegister?] at form
      split at form
      · rename_i isLiteral
        obtain rfl : third = 1 := isLiteral
        obtain rfl := Option.some.inj form
        have differ : second ≠ number := apart (by simp [Instruction.operands])
        refine .bind (.toFirst ?_ _ _ rfl) fun _ _ _ alike => .pure alike _
        exact (EndAlike.operandsEqual lends found _ differ).bind fun _ _ _ alike => .pure alike _
      · cases form
  | _ => cases form

end Machine.Lends

/-- A function that calls the function that it has captured. -/
def collecting : Prototype where
  name := "collecting"
  parameters := #["this", "key"]
  captures := #[⟨"collect", .register 1⟩]
  stackSize := 4
  code := #[⟨.getOuter, 2, 0, 0, 0⟩, ⟨.call, 2, 2, 3, 1⟩, ⟨.ret, 0, 2, 0, 0⟩]

/-- A function that looks up a slot of a table whose hook calls its argument, and holds an array
that contains itself. -/
def holding : Prototype where
  name := "holding"
  parameters := #["this", "collect"]
  literals := #[.string "_get", .string "missing"]
  stackSize := 7
  code := #[⟨.newObj, 2, 0, 0, 0⟩, ⟨.newObj, 3, 0, 0, 0⟩, ⟨.load, 4, 0, 0, 0⟩,
    ⟨.closure, 5, 0, 0, 0⟩, ⟨.newSlot, 255, 3, 4, 5⟩, ⟨.delegate, 2, 2, 3, 0⟩,
    ⟨.newObj, 4, 0, 0, 1⟩, ⟨.appendArray, 4, 4, 0, 0⟩, ⟨.getK, 5, 1, 2, 0⟩, ⟨.ret, 0, 5, 0, 0⟩]
  functions := [collecting]

/-- Load the function and run it on the function that collects garbage. -/
def runHolding (engine : Engine) : Exec Outcome := do
  let collect ← Exec.alloc BaseFunction.collectGarbage.toNative
  let closure ← Exec.loadFunction holding
  Exec.run engine closure [.native collect]

/-- Stop where the slot is to be looked up. -/
def untilLookup : Engine :=
  .until (fun machine => machine.fiber.stack.frames.map Frame.ip == #[8]) standardHost 16

/-- The slot is to be looked up. -/
def lookup : Machine := (runHolding untilLookup).after (.create {})

end ScriptMachine
