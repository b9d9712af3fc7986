import ScriptMachine.Machine.Fiber

/-!
# Registers

What the operations on registers do to the number of registers and to the value at each place.
Places beyond the last register read as null, so that adding registers changes no value.
-/

namespace ScriptMachine

namespace Stack

variable (stack : Stack) (size start stop place other : Nat) (value : Value) (frame : Frame)

theorem get_eq : stack.get place = (stack.slots[place]?).getD .null :=
  Array.getD_eq_getD_getElem?

/-! ## Growing -/

@[simp]
theorem size_grow : (stack.grow size).size = max stack.size size := by
  rw [grow]
  split
  · simp only [Stack.size, Array.size_append, Array.size_replicate]
    simp only [Stack.size] at *
    omega
  · omega

@[simp]
theorem maxSlots_grow : (stack.grow size).maxSlots = stack.maxSlots := by
  rw [grow]
  split <;> rfl

@[simp]
theorem frames_grow : (stack.grow size).frames = stack.frames := by
  rw [grow]
  split <;> rfl

theorem slot_grow {place : Nat} (within : place < stack.size) :
    (stack.grow size).slots[place]? = stack.slots[place]? := by
  rw [grow]
  split
  · exact Array.getElem?_append_left within
  · rfl

@[simp]
theorem get_grow : (stack.grow size).get place = stack.get place := by
  rw [get_eq, get_eq]
  by_cases within : place < stack.size
  · rw [slot_grow stack size within]
  · have outside : stack.slots[place]? = none := Array.getElem?_eq_none (Nat.le_of_not_lt within)
    rw [outside, grow]
    split
    · show (stack.slots ++ Array.replicate _ Value.null)[place]?.getD .null = _
      rw [Array.getElem?_append_right (Nat.le_of_not_lt within), Array.getElem?_replicate]
      split
      · rfl
      · rfl
    · rw [outside]

@[simp]
theorem size_append : (stack.append value).size = stack.size + 1 := Array.size_push _

theorem slot_append {place : Nat} (within : place < stack.size) :
    (stack.append value).slots[place]? = stack.slots[place]? := by
  have differ : place ≠ stack.slots.size := Nat.ne_of_lt within
  show (stack.slots.push value)[place]? = _
  rw [Array.getElem?_push, if_neg differ]

@[simp]
theorem size_enter : (stack.enter frame).size = max stack.size frame.top :=
  stack.size_grow frame.top

@[simp]
theorem maxSlots_enter : (stack.enter frame).maxSlots = stack.maxSlots :=
  stack.maxSlots_grow frame.top

@[simp]
theorem frames_enter : (stack.enter frame).frames = stack.frames.push frame := by
  rw [enter, addFrame, frames_grow]

theorem slot_enter {place : Nat} (within : place < stack.size) :
    (stack.enter frame).slots[place]? = stack.slots[place]? :=
  stack.slot_grow frame.top within

/-! ## Room -/

theorem size_append_le (room : stack.hasRoom = true) :
    (stack.append value).size ≤ stack.maxSlots := by
  have room : stack.size < stack.maxSlots := by simpa [hasRoom] using room
  rw [size_append]
  exact room

theorem size_grow_le {size : Nat} (room : stack.fits size = true)
    (within : stack.size ≤ stack.maxSlots) : (stack.grow size).size ≤ stack.maxSlots := by
  have room : size ≤ stack.maxSlots := by simpa [fits] using room
  rw [size_grow]
  exact Nat.max_le.mpr ⟨within, room⟩

/-- A frame that is added ends within the limit on registers. -/
theorem top_le_of_admitsFrame {frame : Frame} (room : stack.admitsFrame frame = true) :
    frame.top ≤ stack.maxSlots := by
  have room : stack.depth < stack.maxFrames ∧ frame.top ≤ stack.maxSlots := by
    simpa [admitsFrame, fits] using room
  exact room.2

/-- Whether there is room for a frame is asked of a machine word, if its function has no more
registers than a stream can say. -/
theorem top_lt_size {frame : Frame} (base : frame.base ≤ stack.maxSlots)
    (limited : stack.maxSlots + UInt32.size ≤ UInt64.size)
    (compact : frame.closure.routine.stackSize < UInt32.size) : frame.top < UInt64.size := by
  rw [Frame.top]
  omega

theorem size_enter_le {frame : Frame} (room : stack.admitsFrame frame = true)
    (within : stack.size ≤ stack.maxSlots) : (stack.enter frame).size ≤ stack.maxSlots := by
  rw [size_enter]
  exact Nat.max_le.mpr ⟨within, stack.top_le_of_admitsFrame room⟩

/-! ## Shrinking -/

@[simp]
theorem size_truncate : (stack.truncate size).size = min stack.size size := by
  simp only [truncate, Stack.size, Array.size_shrink]
  omega

theorem slot_truncate {size place : Nat} (within : place < size) :
    (stack.truncate size).slots[place]? = stack.slots[place]? := by
  show (stack.slots.shrink size)[place]? = _
  rw [Array.shrink_eq_take, Array.take_eq_extract, Array.getElem?_extract]
  split
  · rw [Nat.zero_add]
  · rename_i outside
    rw [Array.getElem?_eq_none (by omega)]

theorem get_truncate {size place : Nat} (within : place < size) :
    (stack.truncate size).get place = stack.get place := by
  rw [get_eq, get_eq, slot_truncate stack within]

/-! ## Having exactly so many -/

theorem size_truncate_grow : ((stack.truncate size).grow size).size = size := by
  rw [size_grow, size_truncate]
  omega

theorem slot_truncate_grow {size place : Nat} (within : place < stack.size) (low : place < size) :
    ((stack.truncate size).grow size).slots[place]? = stack.slots[place]? := by
  rw [slot_grow, slot_truncate stack low]
  rw [size_truncate]
  omega

theorem get_truncate_grow {size place : Nat} (low : place < size) :
    ((stack.truncate size).grow size).get place = stack.get place := by
  rw [get_grow, get_truncate stack low]

/-! ## Changing -/

theorem size_fill (count index : Nat) (slots : Array Value) :
    (clearRange.fill count index slots).size = slots.size := by
  induction count generalizing index slots with
  | zero => rfl
  | succ count ih => rw [clearRange.fill, ih, Array.size_setIfInBounds]

theorem getElem?_fill {count index place : Nat} (before : place < index) (slots : Array Value) :
    (clearRange.fill count index slots)[place]? = slots[place]? := by
  induction count generalizing index slots with
  | zero => rfl
  | succ count ih =>
      rw [clearRange.fill, ih (Nat.lt_succ_of_lt before), Array.getElem?_setIfInBounds,
        if_neg (Nat.ne_of_gt before)]

@[simp]
theorem size_clearRange : (stack.clearRange start stop).size = stack.size := size_fill _ _ _

theorem slot_clearRange {start place : Nat} (before : place < start) :
    (stack.clearRange start stop).slots[place]? = stack.slots[place]? := getElem?_fill before _

@[simp]
theorem size_put : (stack.put place value).size = max stack.size (place + 1) := by
  rw [put, assign, Stack.size, Array.size_setIfInBounds]
  exact stack.size_grow (place + 1)

@[simp]
theorem maxSlots_put : (stack.put place value).maxSlots = stack.maxSlots :=
  stack.maxSlots_grow (place + 1)

@[simp]
theorem frames_put : (stack.put place value).frames = stack.frames :=
  stack.frames_grow (place + 1)

theorem size_put_le {place : Nat} (room : stack.admits place = true)
    (within : stack.size ≤ stack.maxSlots) : (stack.put place value).size ≤ stack.maxSlots := by
  have room : place < stack.size ∨ place + 1 ≤ stack.maxSlots := by
    simpa [admits, fits] using room
  rw [size_put]
  omega

theorem slot_put {place other : Nat} (within : other < stack.size) (differ : place ≠ other) :
    (stack.put place value).slots[other]? = stack.slots[other]? := by
  show ((stack.grow (place + 1)).slots.setIfInBounds place value)[other]? = _
  rw [Array.getElem?_setIfInBounds, if_neg differ, stack.slot_grow (place + 1) within]

theorem get_put : (stack.put place value).get other =
    if place = other then value else stack.get other := by
  -- The place is in use after growing.
  have wide : place < (stack.grow (place + 1)).slots.size := by
    have grown := stack.size_grow (place + 1)
    rw [Stack.size] at grown
    omega
  rw [get_eq]
  show ((stack.grow (place + 1)).slots.setIfInBounds place value)[other]?.getD .null = _
  rw [Array.getElem?_setIfInBounds]
  split
  · rfl
  · rw [← get_eq, get_grow]

end Stack

/-- The fiber has no more registers than it is allowed. -/
def Fiber.Roomy (fiber : Fiber) : Prop := fiber.stack.size ≤ fiber.stack.maxSlots

theorem Fiber.roomy_of_size_le {fiber : Fiber} {maxSlots : Nat}
    (same : fiber.stack.maxSlots = maxSlots) (size : fiber.stack.size ≤ maxSlots) :
    fiber.Roomy := by
  rw [Roomy, same]
  exact size

end ScriptMachine
