import ScriptMachine.Proofs.Heap.Classes
import ScriptMachine.Proofs.Machine.Balance
import ScriptMachine.Proofs.Machine.Travels

/-!
# The windows of new activations

Whatever way a function is entered, its first instruction finds its arguments in the first registers
of its window: one for each parameter, and further ones as an array in the last parameter where the
function asks for that.  What it finds in the other registers depends on the way.  A call made by an
instruction, or by a class that constructs an instance, leaves there what the caller has left, and
so does a call in the place of a frame, beyond the window of that frame; all other ways leave null.
-/

namespace ScriptMachine

namespace Stack

variable (stack : Stack) (start stop place : Nat) (value : Value)

theorem get_beyond {place : Nat} (beyond : stack.size ≤ place) : stack.get place = .null := by
  rw [get_eq, Array.getElem?_eq_none beyond]
  rfl

theorem slot_congr {other : Stack} {place : Nat} (used : place < stack.size)
    (there : place < other.size) (same : stack.get place = other.get place) :
    stack.slots[place]? = other.slots[place]? := by
  have used : place < stack.slots.size := used
  have there : place < other.slots.size := there
  rw [get_eq, get_eq, Array.getElem?_eq_getElem used, Array.getElem?_eq_getElem there] at same
  rw [Array.getElem?_eq_getElem used, Array.getElem?_eq_getElem there]
  exact congrArg some same

theorem get_append : (stack.append value).get place =
    if place = stack.size then value else stack.get place := by
  rw [get_eq, get_eq]
  show (stack.slots.push value)[place]?.getD .null = _
  rw [Array.getElem?_push, Stack.size]
  split <;> rfl

theorem getElem?_fill_all (count index : Nat) (slots : Array Value) :
    (clearRange.fill count index slots)[place]? =
      if index ≤ place ∧ place < index + count then slots[place]?.map fun _ => .null
      else slots[place]? := by
  induction count generalizing index slots with
  | zero =>
      rw [clearRange.fill, if_neg (by omega)]
  | succ count ih =>
      rw [clearRange.fill, ih, Array.getElem?_setIfInBounds]
      by_cases here : index = place
      · subst here
        have passed : ¬ (index + 1 ≤ index ∧ index < index + 1 + count) := by omega
        have reached : index ≤ index ∧ index < index + (count + 1) := by omega
        rw [if_neg passed, if_pos rfl, if_pos reached]
        by_cases within : index < slots.size
        · simp [within]
        · simp [within]
      · rw [if_neg here]
        by_cases later : index + 1 ≤ place ∧ place < index + 1 + count
        · rw [if_pos later, if_pos (by omega)]
        · rw [if_neg later, if_neg (by omega)]

theorem get_clearRange : (stack.clearRange start stop).get place =
    if start ≤ place ∧ place < stop then .null else stack.get place := by
  rw [get_eq, get_eq]
  show (clearRange.fill (min stop stack.size - start) start stack.slots)[place]?.getD .null = _
  rw [getElem?_fill_all]
  by_cases used : place < stack.size
  · split
    · rw [if_pos (by omega)]
      cases stack.slots[place]? <;> rfl
    · rw [if_neg (by omega)]
  · have outside : stack.slots[place]? = none := Array.getElem?_eq_none (Nat.le_of_not_lt used)
    simp [outside]

/-- The values of some registers from a place on. -/
def values (count : Nat) : List Value := (List.range count).map fun index =>
  stack.get (start + index)

theorem values_succ (count : Nat) :
    stack.values start (count + 1) = stack.get start :: stack.values (start + 1) count := by
  simp only [values, List.range_succ_eq_map, List.map_cons, List.map_map, Nat.add_zero]
  congr 2
  funext index
  simp only [Function.comp, Nat.succ_eq_add_one]
  congr 1
  omega

theorem values_congr {other : Stack} {count : Nat}
    (same : ∀ index < count, other.get (start + index) = stack.get (start + index)) :
    other.values start count = stack.values start count := by
  apply List.map_congr_left
  intro index within
  exact same index (List.mem_range.mp within)

theorem getD_range (count more index : Nat) :
    (stack.range start (start + count) ++ Array.replicate more Value.null).getD index .null =
      if index < count then stack.get (start + index) else .null := by
  rw [Array.getD_eq_getD_getElem?, Array.getElem?_append, get_eq, range, Array.getElem?_extract,
    Array.getElem?_replicate, Array.size_extract]
  by_cases taken : index < min (start + count) stack.slots.size - start
  · rw [if_pos taken, if_pos taken, if_pos (by omega)]
  · rw [if_neg taken]
    have outside : (if index < count then stack.slots[start + index]?.getD .null else .null) =
        Value.null := by
      split
      · rw [Array.getElem?_eq_none (by omega)]
        rfl
      · rfl
    rw [outside]
    split <;> rfl

theorem drop_values (skipped more : Nat) :
    (stack.values start (skipped + more)).drop skipped = stack.values (start + skipped) more := by
  simp [values, List.range_add, Nat.add_assoc]

theorem toList_range {count : Nat} (used : start + count ≤ stack.size) :
    (stack.range start (start + count)).toList = stack.values start count := by
  apply List.ext_getElem
  · simp [range, values, Stack.size] at used ⊢
    omega
  · intro index low high
    have inside : start + index < stack.slots.size := by
      simp [values, Stack.size] at used high
      omega
    simp [range, values, get_eq, inside]

end Stack

/-! ## What a callee receives -/

namespace Routine

/-- The number of parameters that receive one argument each. -/
def fixedCount (routine : Routine) : Nat :=
  if routine.isVariadic then routine.parameterCount - 1 else routine.parameterCount

/-- The number of registers that the arguments fill. -/
def filledCount (routine : Routine) : Nat :=
  if routine.isVariadic then routine.parameterCount - 1 + 1 else routine.parameterCount

/-- The arguments of a call stand in the parameters, which begin at a place; further arguments are
in an array.  A register behind the parameters is null where a further argument has been, and has
what was left in it otherwise. -/
structure Receives (routine : Routine) (arguments : List Value) (base : Nat) (left : Nat → Value)
    (machine : Machine) : Prop where
  /-- One argument for each fixed parameter. -/
  fixed : ∀ index < routine.fixedCount,
    arguments[index]? = some (machine.fiber.stack.get (base + index))
  /-- An array of the further arguments in the last parameter. -/
  extra : routine.isVariadic = true → 0 < routine.parameterCount → ∃ ref : Ref .array,
    machine.fiber.stack.get (base + routine.fixedCount) = .array ref ∧
      machine.heap.get? ref =
        some (Sequence.ofValues (arguments.drop routine.fixedCount).toArray)
  /-- The other registers. -/
  rest : ∀ index, routine.filledCount ≤ index → machine.fiber.stack.get (base + index) =
    if index < arguments.length then .null else left index

/-- The arguments behind those for the fixed parameters stand in an array. -/
def Packs (routine : Routine) (arguments : List Value) (base : Nat) (machine : Machine) : Prop :=
  routine.isVariadic = true → ∃ ref : Ref .array,
    machine.fiber.stack.get (base + routine.fixedCount) = .array ref ∧
      machine.heap.get? ref =
        some (Sequence.ofValues (arguments.drop routine.fixedCount).toArray)

end Routine

/-- The machine stands at the first instruction of a closure, whose registers begin at a place. -/
structure Machine.Opens (machine : Machine) (closure : Closure) (arguments : List Value)
    (base : Nat) (left : Nat → Value) : Prop where
  /-- The frame is the current one and has not begun. -/
  frame : ∃ frame, machine.fiber.stack.current? = some frame ∧ frame.closure = closure ∧
    frame.base = base ∧ frame.ip = 0
  /-- Its registers are in use. -/
  within : base + closure.routine.stackSize ≤ machine.fiber.stack.size
  /-- Its registers. -/
  receives : closure.routine.Receives arguments base left machine

/-- The trap of an activation that goes on in the frame with a number and with registers from a
place on. -/
def SavedTrap.restored (trap : SavedTrap) (number base : Nat) : Trap where
  frame := number
  ip := trap.ip
  stackTop := base + trap.offset
  target := trap.target

/-- The activation of a suspended generator goes on in a new frame, with registers above all others.
Nothing else has changed but the registers at some places. -/
structure Machine.Reenters (before : Machine) (ref : Ref .generator) (own : Generator)
    (target : Option UInt8) (isRoot : Bool) (frame : Frame) (places : List Nat) (after : Machine) :
    Prop where
  /-- The frame runs the generator. -/
  generator : frame.generator = some ref
  /-- A register of the frame below waits for the value. -/
  target : frame.target = target
  /-- The frame ends its run loop, or it does not. -/
  isRoot : frame.isRoot = isRoot
  /-- It is one of the function of the generator. -/
  function : frame.ref = own.closure
  /-- It has the function's body and captured variables. -/
  closure : frame.closure = before.heap.get own.closure
  /-- It stands where the activation has been left. -/
  ip : frame.ip = own.ip
  /-- Its window starts above all registers. -/
  base : frame.base = before.fiber.stack.size
  /-- It is the current one. -/
  frames : after.fiber.stack.frames = before.fiber.stack.frames.push frame
  /-- The traps of the activation are its own. -/
  traps : after.fiber.traps =
    own.traps.map (·.restored before.fiber.stack.depth before.fiber.stack.size) ++
      before.fiber.traps
  /-- The window is in use. -/
  within : frame.top ≤ after.fiber.stack.size
  /-- The registers of the activation are in the window. -/
  registers : ∀ index, after.fiber.stack.get (before.fiber.stack.size + index) =
    own.window.getD index .null
  /-- Other registers are the same. -/
  slots : ∀ place < before.fiber.stack.size, place ∉ places →
    after.fiber.stack.slots[place]? = before.fiber.stack.slots[place]?
  /-- The generator is running. -/
  heap : after.heap = before.heap.modify ref Generator.entered

namespace Routine.Receives

variable {machine next : Machine} {routine : Routine} {base count : Nat}

theorem length_values : (machine.fiber.stack.values base count).length = count := by
  simp [Stack.values]

theorem getElem?_values {index : Nat} (within : index < count) :
    (machine.fiber.stack.values base count)[index]? =
      some (machine.fiber.stack.get (base + index)) := by
  simp [Stack.values, within]

/-- Arguments for fixed parameters stay where they are. -/
theorem fixedOnly (plain : routine.isVariadic = false) (all : count = routine.parameterCount) :
    routine.Receives (machine.fiber.stack.values base count) base
      (fun index => machine.fiber.stack.get (base + index)) machine where
  fixed := by
    intro index within
    rw [Routine.fixedCount, plain] at within
    exact getElem?_values (all ▸ within)
  extra := by
    intro variadic _
    rw [plain] at variadic
    cases variadic
  rest := by
    intro index beyond
    have beyond : count ≤ index := by simpa [Routine.filledCount, plain, ← all] using beyond
    rw [length_values, if_neg (by omega)]

/-- Further arguments give way to the array of them. -/
theorem collected (variadic : routine.isVariadic = true)
    (enough : routine.parameterCount - 1 ≤ count) (ref : Ref .array)
    (slots : ∀ place, next.fiber.stack.get place =
      if base + (routine.parameterCount - 1) = place then .array ref
      else if base + (routine.parameterCount - 1) ≤ place ∧ place < base + count then .null
      else machine.fiber.stack.get place)
    (held : next.heap.get? ref = some (Sequence.ofValues
      ((machine.fiber.stack.values base count).drop (routine.parameterCount - 1)).toArray)) :
    routine.Receives (machine.fiber.stack.values base count) base
        (fun index => machine.fiber.stack.get (base + index)) next ∧
      routine.Packs (machine.fiber.stack.values base count) base next := by
  have fixed : routine.fixedCount = routine.parameterCount - 1 := by
    rw [Routine.fixedCount, variadic, if_pos rfl]
  have packs : routine.Packs (machine.fiber.stack.values base count) base next :=
    fun _ => ⟨ref, by rw [fixed, slots, if_pos rfl], fixed ▸ held⟩
  refine ⟨⟨fun index within => ?_, fun variadic _ => packs variadic, fun index beyond => ?_⟩, packs⟩
  · rw [fixed] at within
    rw [getElem?_values (by omega), slots, if_neg (by omega), if_neg (by omega)]
  · rw [Routine.filledCount, variadic, if_pos rfl] at beyond
    rw [length_values, slots, if_neg (by omega)]
    by_cases given : index < count
    · rw [if_pos (by omega), if_pos given]
    · rw [if_neg (by omega), if_neg given]

/-- What a callee receives depends on registers and arrays only. -/
theorem congr {arguments : List Value} {left : Nat → Value}
    (receives : routine.Receives arguments base left machine)
    (slots : ∀ place, next.fiber.stack.get place = machine.fiber.stack.get place)
    (arrays : ∀ (ref : Ref .array) (sequence : Sequence), machine.heap.get? ref = some sequence →
      next.heap.get? ref = some sequence) : routine.Receives arguments base left next where
  fixed := by
    intro index within
    rw [slots]
    exact receives.fixed index within
  extra := by
    intro variadic named
    obtain ⟨ref, here, held⟩ := receives.extra variadic named
    exact ⟨ref, (slots _).trans here, arrays ref _ held⟩
  rest := by
    intro index beyond
    rw [slots]
    exact receives.rest index beyond

end Routine.Receives

namespace Exec

variable {machine : Machine} {routine : Routine} {base count : Nat}

/-- Arguments in registers are handed to the parameters. -/
theorem meets_prepareArguments (accepts : routine.accepts count = true)
    (used : base + count ≤ machine.fiber.stack.size) :
    (prepareArguments routine base count).Meets machine
      (fun _ next => (routine.Receives (machine.fiber.stack.values base count) base
          (fun index => machine.fiber.stack.get (base + index)) next ∧
        routine.Packs (machine.fiber.stack.values base count) base next) ∧
        machine.fiber.stack.size ≤ next.fiber.stack.size)
      (fun fault _ => fault = .stackOverflow) (fun _ => False) := by
  rw [prepareArguments, if_pos accepts]
  refine Meets.ok_bind rfl ?_
  rw [Routine.accepts] at accepts
  cases variadic : routine.isVariadic with
  | false =>
      have all : count = routine.parameterCount := by simpa [variadic] using accepts
      exact ⟨⟨.fixedOnly variadic all, fun packs => absurd (variadic.symm.trans packs) (by decide)⟩,
        le_rfl⟩
  | true =>
      have enough : routine.parameterCount - 1 ≤ count := by simpa [variadic] using accepts
      have taken : (machine.fiber.stack.range (base + (routine.parameterCount - 1))
          (base + count)).toList = (machine.fiber.stack.values base count).drop
            (routine.parameterCount - 1) := by
        obtain ⟨more, rfl⟩ : ∃ more, count = routine.parameterCount - 1 + more :=
          ⟨count - (routine.parameterCount - 1), by omega⟩
        rw [← Nat.add_assoc] at used ⊢
        rw [Stack.toList_range _ _ used, Stack.drop_values]
      refine Meets.ok_bind rfl ?_
      refine Meets.ok_bind rfl ?_
      refine Meets.room_bind rfl fun _ => ?_
      refine ⟨Routine.Receives.collected variadic enough ⟨machine.heap.size⟩ (fun place => ?_) ?_,
        ?_⟩
      · show Stack.get (Stack.put _ _ _) place = _
        rw [Stack.get_put]
        split
        · rfl
        · show Stack.get (Stack.clearRange _ _ _) place = _
          rw [Stack.get_clearRange]
      · rw [← taken, Array.toArray_toList]
        exact (Heap.get?_alloc _ _).trans (if_pos rfl)
      · show _ ≤ Stack.size (Stack.put _ _ _)
        rw [Stack.size_put]
        show _ ≤ max (Stack.size (Stack.clearRange _ _ _)) _
        rw [Stack.size_clearRange]
        exact Nat.le_max_left _ _

variable {closure : Closure} {ref : Ref .closure}

/-- A function is entered with arguments in registers. -/
theorem meets_enterClosure_window (found : machine.heap.get? ref = some closure)
    (accepts : closure.routine.accepts count = true)
    (used : base + count ≤ machine.fiber.stack.size) (target : Option UInt8) (isRoot : Bool) :
    (enterClosure ref base count target isRoot).Meets machine
      (fun _ next => next.Opens closure (machine.fiber.stack.values base count) base
          (fun index => machine.fiber.stack.get (base + index)) ∧
        closure.routine.Packs (machine.fiber.stack.values base count) base next)
      (fun fault _ => fault = .stackOverflow) (fun _ => False) := by
  refine Meets.read_bind ?_
  rw [Heap.get_of_get?_eq_some found]
  refine (meets_prepareArguments accepts used).bind fun _ next prepared => ?_
  obtain ⟨⟨receives, packs⟩, _⟩ := prepared
  have pushed : (pushFrame { ref, closure, ip := 0, base, target, isRoot }).Meets next
      (fun _ last => last = next.mapStack (·.enter
        { ref, closure, ip := 0, base, target, isRoot }))
      (fun fault _ => fault = .stackOverflow) (fun _ => False) :=
    Meets.room_bind rfl fun _ => rfl
  refine pushed.bind fun _ last same => ?_
  subst same
  have slots : ∀ place, (next.mapStack (·.enter
      { ref, closure, ip := 0, base, target, isRoot })).fiber.stack.get place =
        next.fiber.stack.get place := fun place => Stack.get_grow _ _ place
  refine ⟨⟨⟨{ ref, closure, ip := 0, base, target, isRoot }, ?_, rfl, rfl, rfl⟩, ?_,
    receives.congr slots fun _ _ => id⟩, fun variadic => ?_⟩
  · show (Stack.enter _ _).current? = _
    rw [Stack.current?, Stack.frames_enter, Array.back?_push]
  · show _ ≤ (Stack.enter _ _).size
    rw [Stack.size_enter]
    exact Nat.le_max_right _ _
  · obtain ⟨array, here, held⟩ := packs variadic
    exact ⟨array, (slots _).trans here, held⟩

theorem meets_callValue_window (engine : Engine) (found : machine.heap.get? ref = some closure)
    (plain : closure.routine.isGenerator = false)
    (accepts : closure.routine.accepts count = true)
    (used : base + count ≤ machine.fiber.stack.size) (target : Option UInt8) (isRoot : Bool) :
    (callValue engine (.closure ref) base count target isRoot).Meets machine
      (fun start next => start = .pushed ∧
        next.Opens closure (machine.fiber.stack.values base count) base
          (fun index => machine.fiber.stack.get (base + index)) ∧
        closure.routine.Packs (machine.fiber.stack.values base count) base next)
      (fun fault _ => fault = .stackOverflow) (fun _ => False) := by
  refine Meets.read_bind ?_
  rw [Heap.get_of_get?_eq_some found, if_neg (by simp [plain])]
  refine (meets_enterClosure_window found accepts used target isRoot).bind fun _ _ opens => ?_
  exact ⟨rfl, opens⟩

/-! ## Arguments above all registers -/

/-- Values are added as registers. -/
theorem meets_pushAll (values : List Value) (machine : Machine) :
    (values.forM push).Meets machine
      (fun _ next => next.heap = machine.heap ∧
        next.fiber.stack.size = machine.fiber.stack.size + values.length ∧
        ∀ place, next.fiber.stack.get place =
          if machine.fiber.stack.size ≤ place ∧ place < machine.fiber.stack.size + values.length
          then values.getD (place - machine.fiber.stack.size) .null
          else machine.fiber.stack.get place)
      (fun fault _ => fault = .stackOverflow) (fun _ => False) := by
  induction values generalizing machine with
  | nil => exact ⟨rfl, rfl, fun place => by rw [if_neg (by simp)]⟩
  | cons value rest ih =>
      have pushed : (push value).Meets machine
          (fun _ next => next = machine.mapStack (·.append value))
          (fun fault _ => fault = .stackOverflow) (fun _ => False) :=
        Meets.room_bind rfl fun _ => rfl
      refine pushed.bind fun _ next same => ?_
      subst same
      refine (ih _).mono (fun _ last pushed => ?_) (fun _ _ => id) fun _ => id
      obtain ⟨heap, size, slots⟩ := pushed
      have grown : (machine.mapStack (·.append value)).fiber.stack.size =
          machine.fiber.stack.size + 1 := Stack.size_append _ _
      have appended : ∀ place, (machine.mapStack (·.append value)).fiber.stack.get place =
          if place = machine.fiber.stack.size then value else machine.fiber.stack.get place :=
        fun place => Stack.get_append _ place value
      refine ⟨heap, by rw [size, grown, List.length_cons]; omega, fun place => ?_⟩
      rw [slots, grown, appended, List.length_cons]
      by_cases first : place = machine.fiber.stack.size
      · subst first
        rw [if_neg (by omega), if_pos rfl, if_pos (by omega), Nat.sub_self]
        rfl
      · rw [if_neg first]
        by_cases among : machine.fiber.stack.size + 1 ≤ place ∧
            place < machine.fiber.stack.size + 1 + rest.length
        · obtain ⟨offset, here⟩ : ∃ offset, place = machine.fiber.stack.size + 1 + offset :=
            ⟨place - (machine.fiber.stack.size + 1), by omega⟩
          have before : place - machine.fiber.stack.size = offset + 1 := by omega
          have after : place - (machine.fiber.stack.size + 1) = offset := by omega
          rw [if_pos among, if_pos (by omega), before, after, List.getD_cons_succ]
        · rw [if_neg among, if_neg (by omega)]

/-- The arguments are all that stands above the registers that were in use. -/
theorem meets_pushArguments_window (this : Value) (arguments : List Value) (machine : Machine) :
    (Engine.pushArguments this arguments).Meets machine
      (fun _ next => next.heap = machine.heap ∧
        next.fiber.stack.size = machine.fiber.stack.size + (arguments.length + 1) ∧
        next.fiber.stack.values machine.fiber.stack.size (arguments.length + 1) =
          this :: arguments ∧
        ∀ index, arguments.length + 1 ≤ index →
          next.fiber.stack.get (machine.fiber.stack.size + index) = .null)
      (fun fault _ => fault = .stackOverflow) (fun _ => False) := by
  have all : Engine.pushArguments this arguments = (this :: arguments).forM push := rfl
  rw [all]
  refine (meets_pushAll (this :: arguments) machine).mono (fun _ next pushed => ?_)
    (fun _ _ => id) fun _ => id
  obtain ⟨heap, size, slots⟩ := pushed
  refine ⟨heap, size, List.ext_getElem (by simp [Stack.values]) fun index low high => ?_,
    fun index beyond => ?_⟩
  · simp only [Stack.values, List.getElem_map, List.getElem_range]
    rw [slots, if_pos (by omega), Nat.add_sub_cancel_left,
      List.getD_eq_getElem _ _ high]
  · rw [slots, if_neg (by simp only [List.length_cons]; omega)]
    exact Stack.get_beyond _ (Nat.le_add_right _ _)

end Exec

theorem Machine.Opens.left_congr {machine : Machine} {closure : Closure} {arguments : List Value}
    {base : Nat} {left other : Nat → Value} (opens : machine.Opens closure arguments base left)
    (same : ∀ index, arguments.length ≤ index → left index = other index) :
    machine.Opens closure arguments base other where
  frame := opens.frame
  within := opens.within
  receives := by
    refine ⟨opens.receives.fixed, opens.receives.extra, fun index beyond => ?_⟩
    rw [opens.receives.rest index beyond]
    split
    · rfl
    · exact same index (by omega)

theorem Machine.Opens.congr {machine next : Machine} {closure : Closure} {arguments : List Value}
    {base : Nat} {left : Nat → Value} (opens : machine.Opens closure arguments base left)
    (stack : next.fiber.stack = machine.fiber.stack) (heap : next.heap = machine.heap) :
    next.Opens closure arguments base left where
  frame := stack ▸ opens.frame
  within := stack ▸ opens.within
  receives := opens.receives.congr (fun place => by rw [stack]) fun ref sequence => by
    rw [heap]
    exact id

namespace Exec

variable {machine : Machine} {base count : Nat} {closure : Closure} {ref : Ref .closure}

/-- The engine with one step is cut short at the first instruction, unless run loops are nested too
deeply. -/
theorem meets_runFrames_cut (host : Host) (root : Nat) (machine : Machine) :
    ((Engine.ofHost host 1).runFrames root).Meets machine (fun _ _ => False)
      (fun fault _ => fault = .nativeStackOverflow)
      (fun entered => entered.fiber.stack = machine.fiber.stack ∧
        entered.heap = machine.heap) := by
  refine Meets.get_bind (Meets.ofFiber_bind ?_)
  have nested : (do
      onFiber fun fiber =>
        { fiber with nativeCalls := fiber.nativeCalls + 1, nesting := fiber.nesting + 1 }
      ensuring (·.mapFiber fun fiber =>
        { fiber with nativeCalls := fiber.nativeCalls - 1, nesting := fiber.nesting - 1 })
        (exhaust : Exec Outcome)).Meets machine (fun _ _ => False)
      (fun fault _ => fault = Fault.nativeStackOverflow)
      (fun entered => entered.fiber.stack = machine.fiber.stack ∧
        entered.heap = machine.heap) := ⟨rfl, rfl⟩
  split
  · obtain ⟨next, unwound⟩ := exists_unwindTo machine root
    exact Meets.ok_bind unwound rfl
  · exact nested

/-- The host enters a function. -/
theorem meets_beginEntry_window (host : Host) (point : EntryPoint)
    (start : point.stackBase = machine.fiber.stack.size)
    (found : machine.heap.get? ref = some closure)
    (plain : closure.routine.isGenerator = false) (this : Value) (arguments : List Value)
    (accepts : closure.routine.accepts (arguments.length + 1) = true) :
    (beginEntry (.ofHost host 1) point (.closure ref) this arguments).Meets machine
      (fun _ _ => False)
      (fun fault _ => fault = .stackOverflow ∨ fault = .nativeStackOverflow)
      (fun entered => entered.Opens closure (this :: arguments) machine.fiber.stack.size
        fun _ => .null) := by
  refine ((meets_pushArguments_window this arguments machine).mono (fun _ _ => id)
    (fun _ _ => .inl) fun _ => False.elim).bind fun _ next pushed => ?_
  obtain ⟨heap, size, values, above⟩ := pushed
  rw [start]
  refine ((meets_callValue_window _ (heap ▸ found) plain accepts (Nat.le_of_eq size.symm) none
    true).mono (fun _ _ => id) (fun _ _ => .inl) fun _ => False.elim).bind fun begun last held => ?_
  obtain ⟨rfl, opens, _⟩ := held
  refine (meets_runFrames_cut host point.rootDepth last).mono (fun _ _ => id) (fun _ _ => .inr)
    fun entered same => ?_
  rw [values] at opens
  refine (opens.left_congr fun index beyond => ?_).congr same.1 same.2
  exact above index beyond

theorem meets_resize (size : Nat) (machine : Machine) :
    (resize size).Meets machine (fun _ _ => True) (fun fault _ => fault = .stackOverflow)
      (fun _ => False) :=
  have grown : (ensure size).Meets (machine.mapStack (·.truncate size)) (fun _ _ => True)
      (fun fault _ => fault = Fault.stackOverflow) (fun _ => False) :=
    Meets.room_bind rfl fun _ => trivial
  Meets.ok_bind rfl grown

/-- A function is called with arguments in registers, and its result is awaited. -/
theorem meets_callAt_window (found : machine.heap.get? ref = some closure)
    (plain : closure.routine.isGenerator = false)
    (accepts : closure.routine.accepts count = true)
    (used : base + count ≤ machine.fiber.stack.size) :
    (callAt .spent (.closure ref) base count).Meets machine (fun _ _ => False)
      (fun fault _ => fault = .stackOverflow)
      (fun entered => entered.Opens closure (machine.fiber.stack.values base count) base
        fun index => machine.fiber.stack.get (base + index)) := by
  refine Meets.ofFiber_bind (Meets.ofFiber_bind (Meets.onFiber_bind ?_))
  refine Meets.attempt_bind ?begun (fun _ _ (never : False) => never.elim)
    fun fault next (overflow : fault = .stackOverflow) => ?surfaces
  case begun =>
    have found : (machine.mapFiber fun fiber =>
        { fiber with syncCalls := fiber.syncCalls + 1 }).heap.get? ref = some closure := found
    refine ((meets_callValue_window .spent found plain accepts used none true).mono
      (fun _ _ => id) (fun _ _ => id) fun _ => False.elim).bind fun start next held => ?_
    obtain ⟨rfl, opens, _⟩ := held
    exact opens
  case surfaces =>
    refine Meets.onFiber_bind ?_
    exact ((meets_resize machine.fiber.stack.size _).mono (fun _ _ => id) (fun _ _ => id)
      fun _ => False.elim).bind fun _ _ _ => overflow

/-- A function is called with a receiver and arguments, and its result is awaited. -/
theorem meets_callSync_window (host : Host) (found : machine.heap.get? ref = some closure)
    (plain : closure.routine.isGenerator = false) (this : Value) (arguments : List Value)
    (accepts : closure.routine.accepts (arguments.length + 1) = true) :
    ((Engine.ofHost host 1).callSync (.closure ref) this arguments).Meets machine
      (fun _ _ => False) (fun fault _ => fault = .stackOverflow)
      (fun entered => entered.Opens closure (this :: arguments) machine.fiber.stack.size
        fun _ => .null) := by
  rw [Engine.callSync, holding, keeping]
  refine Meets.get_bind (Meets.modify_bind ?_)
  refine Meets.ensuring ?_ (fun _ _ => id) (fun _ _ => id)
  refine Meets.ofFiber_bind ?_
  refine Meets.ensuring ?_ (fun _ _ => id) (fun _ _ => id)
  refine ((meets_pushArguments_window this arguments _).mono (fun _ _ => id) (fun _ _ => id)
    fun _ => False.elim).bind fun _ next pushed => ?_
  obtain ⟨heap, size, values, above⟩ := pushed
  refine (meets_callAt_window (heap ▸ found) plain accepts (Nat.le_of_eq size.symm)).mono
    (fun _ _ => id) (fun _ _ => id) fun entered opens => ?_
  rw [values] at opens
  exact opens.left_congr fun index beyond => above index beyond

end Exec

/-! ## Calls of a frame -/

/-- A frame calls the value in a register with arguments in registers of its window. -/
structure Machine.Calls (machine : Machine) (frame : Frame) (instruction : Instruction)
    (callee : Value) : Prop where
  /-- The frame is the current one. -/
  current : machine.fiber.stack.current? = some frame
  /-- The callee stands in a register. -/
  callee : machine.fiber.stack.get
    (frame.base + (Instruction.lowByte instruction.wide).toNat) = callee
  /-- There is a receiver. -/
  receiver : 0 < instruction.third.toNat
  /-- The arguments belong to the window. -/
  window : frame.base + instruction.second.toNat + instruction.third.toNat ≤ frame.top
  /-- The window is in use. -/
  used : frame.top ≤ machine.fiber.stack.size

namespace Exec

variable {machine next : Machine} {frame : Frame} {instruction : Instruction} {callee : Value}
  {closure : Closure} {ref : Ref .closure}

/-- Accepted code calls with arguments in its window. -/
theorem calls_of_fetch (ready : machine.Ready)
    (fetched : fetch machine = .ok (some instruction) next)
    (calls : instruction.op = .call ∨ instruction.op = .tailCall)
    (current : next.fiber.stack.current? = some frame) :
    next.Calls frame instruction (next.fiber.stack.get
      (frame.base + (Instruction.lowByte instruction.wide).toNat)) := by
  obtain ⟨before, present⟩ : ∃ before, machine.fiber.stack.current? = some before := by
    cases present : machine.fiber.stack.current? with
    | some before => exact ⟨before, rfl⟩
    | none =>
        rw [fetch, Exec.frame] at fetched
        simp [ofFiber, present, bind, EStateM.bind, raise] at fetched
  rw [fetch, Exec.frame_bind present] at fetched
  cases found : before.closure.routine.code[before.ip]? with
  | none =>
      rw [found] at fetched
      injection fetched with same
      cases same
  | some other =>
      rw [found] at fetched
      injection fetched with same reached
      cases same
      subst reached
      have moved := Machine.current_goTo present (before.ip + 1)
      rw [show (machine.mapStack (·.modifyFrame ({ · with ip := before.ip + 1 }))).fiber.stack =
        machine.fiber.stack.modifyFrame ({ · with ip := before.ip + 1 }) from rfl] at current
      obtain rfl := Option.some.inj (moved.symm.trans current)
      have sound := ready.sound.fiber.activity.frames before
        (Array.mem_of_getElem? (Machine.getElem?_of_current present))
      obtain ⟨prototype, performs⟩ := sound.performs found
      have admitted : ∀ operand ∈ instruction.operands, prototype.Admits operand :=
        fun _ => performs.admits
      have some_argument : 0 < instruction.third := by
        refine of_decide_eq_true (admitted (.variant (decide (0 < instruction.third))) ?_)
        obtain ⟨op, first, wide, second, third⟩ := instruction
        rcases calls with rfl | rfl <;> simp [Instruction.operands]
      have last_argument := admitted
        (.register ((instruction.second.toNat : Int) + instruction.third.toNat - 1)) (by
          obtain ⟨op, first, wide, second, third⟩ := instruction
          rcases calls with rfl | rfl <;> simp [Instruction.operands])
      have receiver : 0 < instruction.third.toNat := by
        simpa [UInt8.lt_iff_toNat_lt] using some_argument
      refine ⟨moved, rfl, receiver, ?_, ready.shaped before present⟩
      have inside := last_argument.2
      rw [← performs.stackSize_eq] at inside
      simp only [Frame.top] at inside ⊢
      omega

section Caller

variable (calls : machine.Calls frame instruction callee)

include calls

theorem base_of_calls : machine.fiber.base = frame.base := by
  rw [Fiber.base, calls.current]
  rfl

theorem readWide_of_calls :
    Access.direct.readWide instruction.wide machine = .ok callee machine := by
  show EStateM.Result.ok (machine.fiber.stack.get
    (machine.fiber.base + (Instruction.lowByte instruction.wide).toNat)) machine = _
  rw [base_of_calls calls, calls.callee]

theorem span_of_calls (count : Nat) : Access.direct.span instruction.second count machine =
    .ok (frame.base + instruction.second.toNat) machine := by
  show EStateM.Result.ok (machine.fiber.base + instruction.second.toNat) machine = _
  rw [base_of_calls calls]

end Caller

/-- A call instruction enters a function in the registers of its arguments. -/
theorem meets_callInstruction_packs (calls : machine.Calls frame instruction (.closure ref))
    (engine : Engine) (found : machine.heap.get? ref = some closure)
    (plain : closure.routine.isGenerator = false)
    (accepts : closure.routine.accepts instruction.third.toNat = true) :
    (callInstruction .direct engine (.closure ref) instruction).Meets machine
      (fun flow next => flow = .proceed ∧ next.Opens closure
          (machine.fiber.stack.values (frame.base + instruction.second.toNat)
            instruction.third.toNat) (frame.base + instruction.second.toNat)
          (fun index =>
            machine.fiber.stack.get (frame.base + instruction.second.toNat + index)) ∧
        closure.routine.Packs (machine.fiber.stack.values
          (frame.base + instruction.second.toNat) instruction.third.toNat)
          (frame.base + instruction.second.toNat) next)
      (fun fault _ => fault = .stackOverflow) (fun _ => False) := by
  refine Meets.ok_bind (span_of_calls calls _) ?_
  have used := Nat.le_trans calls.window calls.used
  refine (meets_callValue_window engine found plain accepts used _ false).bind
    fun start next held => ?_
  obtain ⟨rfl, opens⟩ := held
  exact ⟨rfl, opens⟩

theorem meets_callInstruction_window (calls : machine.Calls frame instruction (.closure ref))
    (engine : Engine) (found : machine.heap.get? ref = some closure)
    (plain : closure.routine.isGenerator = false)
    (accepts : closure.routine.accepts instruction.third.toNat = true) :
    (callInstruction .direct engine (.closure ref) instruction).Meets machine
      (fun flow next => flow = .proceed ∧ next.Opens closure
        (machine.fiber.stack.values (frame.base + instruction.second.toNat)
          instruction.third.toNat) (frame.base + instruction.second.toNat)
        fun index => machine.fiber.stack.get (frame.base + instruction.second.toNat + index))
      (fun fault _ => fault = .stackOverflow) (fun _ => False) :=
  (meets_callInstruction_packs calls engine found plain accepts).mono
    (fun _ _ ⟨goesOn, opens, _⟩ => ⟨goesOn, opens⟩) (fun _ _ => id) fun _ => id

/-- Values move to consecutive registers in use. -/
theorem meets_setAll (values : List Value) (start offset : Nat) (machine : Machine)
    (used : start + offset + values.length ≤ machine.fiber.stack.size) :
    ((values.zipIdx offset).forM fun (value, index) => setPlace (start + index) value).Meets
      machine
      (fun _ next => next.heap = machine.heap ∧ next.fiber.stack.size = machine.fiber.stack.size ∧
        ∀ place, next.fiber.stack.get place =
          if start + offset ≤ place ∧ place < start + offset + values.length
          then values.getD (place - (start + offset)) .null
          else machine.fiber.stack.get place)
      (fun fault _ => fault = Fault.stackOverflow) (fun _ => False) := by
  induction values generalizing machine offset with
  | nil => exact ⟨rfl, rfl, fun place => by rw [if_neg (by simp)]⟩
  | cons value rest ih =>
      rw [List.length_cons] at used
      refine Meets.ok_bind (setPlace_eq (by omega) value) ?_
      have size : (machine.mapStack (·.put (start + offset) value)).fiber.stack.size =
          machine.fiber.stack.size := by
        show Stack.size (Stack.put _ _ _) = _
        rw [Stack.size_put]
        omega
      have put : ∀ place, (machine.mapStack (·.put (start + offset) value)).fiber.stack.get place =
          if start + offset = place then value else machine.fiber.stack.get place :=
        fun place => Stack.get_put _ _ place _
      refine (ih (offset + 1) _ (by rw [size]; omega)).mono (fun _ last moved => ?_)
        (fun _ _ => id) fun _ => id
      obtain ⟨heap, same, slots⟩ := moved
      refine ⟨heap, same.trans size, fun place => ?_⟩
      rw [slots, put, List.length_cons]
      by_cases first : start + offset = place
      · subst first
        rw [if_neg (by omega), if_pos rfl, if_pos (by omega), Nat.sub_self]
        rfl
      · rw [if_neg first]
        by_cases among : start + (offset + 1) ≤ place ∧ place < start + (offset + 1) + rest.length
        · obtain ⟨further, here⟩ : ∃ further, place = start + (offset + 1) + further :=
            ⟨place - (start + (offset + 1)), by omega⟩
          have before : place - (start + offset) = further + 1 := by omega
          have after : place - (start + (offset + 1)) = further := by omega
          rw [if_pos among, if_pos (by omega), before, after, List.getD_cons_succ]
        · rw [if_neg among, if_neg (by omega)]

/-- A call in the place of a frame enters a function where the window of the frame began, and
clears that window but for the arguments. -/
theorem meets_replaceFrame_packs (calls : machine.Calls frame instruction (.closure ref))
    (found : machine.heap.get? ref = some closure)
    (accepts : closure.routine.accepts instruction.third.toNat = true) :
    (replaceFrame .direct ref instruction).Meets machine
      (fun flow next => flow = .proceed ∧ next.Opens closure
          (machine.fiber.stack.values (frame.base + instruction.second.toNat)
            instruction.third.toNat) frame.base
          (fun index => if frame.base + index < frame.top then .null
            else machine.fiber.stack.get (frame.base + index)) ∧
        closure.routine.Packs (machine.fiber.stack.values
          (frame.base + instruction.second.toNat) instruction.third.toNat) frame.base next)
      (fun fault _ => fault = .stackOverflow) (fun _ => False) := by
  have window := calls.window
  have used := calls.used
  refine Meets.ok_bind (span_of_calls calls _) ?_
  refine Meets.ok_bind (popFrame_eq calls.current) ?_
  refine Meets.ok_bind rfl ?_
  refine Meets.ok_bind rfl ?_
  let first := frame.base + instruction.second.toNat
  let count := instruction.third.toNat
  let cleared := ((machine.mapStack (·.leave)).mapStack
    (·.clearRange first (first + count))).mapStack (·.clearRange frame.base frame.top)
  have size : cleared.fiber.stack.size = machine.fiber.stack.size := by
    show Stack.size (Stack.clearRange (Stack.clearRange _ _ _) _ _) = _
    rw [Stack.size_clearRange, Stack.size_clearRange]
    rfl
  have slots : ∀ place, frame.base ≤ place → cleared.fiber.stack.get place =
      if place < frame.top then .null else machine.fiber.stack.get place := by
    intro place high
    show Stack.get (Stack.clearRange (Stack.clearRange _ _ _) _ _) place = _
    rw [Stack.get_clearRange, Stack.get_clearRange]
    by_cases inside : place < frame.top
    · rw [if_pos ⟨high, inside⟩, if_pos inside]
    · rw [if_neg (by omega), if_neg (by omega), if_neg inside]
      rfl
  have taken : ((machine.mapStack (·.leave)).fiber.stack.range first (first + count)).toList =
      machine.fiber.stack.values first count :=
    Stack.toList_range machine.fiber.stack first (Nat.le_trans window used)
  show (((((machine.mapStack (·.leave)).fiber.stack.range first (first + count)).toList.zipIdx
    0).forM fun (value, index) => setPlace (frame.base + index) value) >>= _).Meets cleared _ _ _
  rw [taken]
  have length : (machine.fiber.stack.values first count).length = count := by
    simp [Stack.values]
  refine (meets_setAll _ frame.base 0 cleared (by rw [length, size]; omega)).bind
    fun _ moved held => ?_
  obtain ⟨heap, same, values⟩ := held
  rw [length] at values
  have present : moved.heap.get? ref = some closure := heap ▸ found
  have room : frame.base + count ≤ moved.fiber.stack.size := by omega
  refine (meets_enterClosure_window present accepts room frame.target frame.isRoot).bind
    fun _ last ⟨opens, packs⟩ => ⟨rfl, ?_⟩
  have arguments : moved.fiber.stack.values frame.base count =
      machine.fiber.stack.values first count := by
    refine List.ext_getElem (by simp [Stack.values]) fun index low high => ?_
    have given : index < count := length ▸ high
    simp only [Stack.values, List.getElem_map, List.getElem_range]
    rw [values, if_pos (by omega), Nat.add_zero, Nat.add_sub_cancel_left]
    simp [Stack.values, given]
  rw [arguments] at opens packs
  refine ⟨(opens.left_congr fun index beyond => ?_).congr rfl rfl, packs⟩
  rw [length] at beyond
  rw [values, if_neg (by omega), slots _ (Nat.le_add_right _ _)]

theorem meets_replaceFrame_window (calls : machine.Calls frame instruction (.closure ref))
    (found : machine.heap.get? ref = some closure)
    (accepts : closure.routine.accepts instruction.third.toNat = true) :
    (replaceFrame .direct ref instruction).Meets machine
      (fun flow next => flow = .proceed ∧ next.Opens closure
        (machine.fiber.stack.values (frame.base + instruction.second.toNat)
          instruction.third.toNat) frame.base
        fun index => if frame.base + index < frame.top then .null
          else machine.fiber.stack.get (frame.base + index))
      (fun fault _ => fault = .stackOverflow) (fun _ => False) :=
  (meets_replaceFrame_packs calls found accepts).mono
    (fun _ _ ⟨goesOn, opens, _⟩ => ⟨goesOn, opens⟩) (fun _ _ => id) fun _ => id

/-- The initialiser of a class is called with the instance in the place of the receiver. -/
theorem meets_construct_window (host : Host) {target : Ref .cls} {cls : Class} {base count : Nat}
    (held : machine.heap.get? target = some cls)
    (initializer : cls.initializer? = some (.closure ref))
    (found : machine.heap.get? ref = some closure)
    (plain : closure.routine.isGenerator = false)
    (accepts : closure.routine.accepts count = true) (receiver : 0 < count)
    (used : base + count ≤ machine.fiber.stack.size) :
    (construct (.ofHost host 1) target base count).Meets machine (fun _ _ => False)
      (fun fault _ => fault = .stackOverflow)
      (fun entered => entered.Opens closure
        (.inst (machine.heap.instantiate target).1 ::
          (machine.fiber.stack.values base count).tail) base
        fun index => machine.fiber.stack.get (base + index)) := by
  let created : Machine := { machine with heap := (machine.heap.instantiate target).2 }
  let object := (machine.heap.instantiate target).1
  have initialized : (created.heap.get target : Class).initializer? = some (.closure ref) := by
    rw [Heap.get_of_get?_eq_some (Heap.get?_instantiate held)]
    exact initializer
  refine Meets.ok_bind (show _ = EStateM.Result.ok object created from rfl) ?_
  refine Meets.ok_bind (show _ = EStateM.Result.ok (created.heap.get target) created from rfl) ?_
  rw [initialized]
  have first : base < created.fiber.stack.size := by
    show base < machine.fiber.stack.size
    omega
  refine Meets.ok_bind (setPlace_eq first (.inst object)) ?_
  let placed := created.mapStack (·.put base (.inst object))
  have size : placed.fiber.stack.size = machine.fiber.stack.size := by
    show Stack.size (Stack.put _ _ _) = _
    rw [Stack.size_put]
    exact Nat.max_eq_left first
  have slots : ∀ place, placed.fiber.stack.get place =
      if base = place then .inst object else machine.fiber.stack.get place :=
    fun place => Stack.get_put _ base place _
  have present : placed.heap.get? ref = some closure :=
    (Heap.get?_instantiate_of_ne (by decide) (by decide) machine.heap target ref).trans found
  have arguments : placed.fiber.stack.values base count =
      .inst object :: (machine.fiber.stack.values base count).tail := by
    obtain ⟨more, rfl⟩ : ∃ more, count = more + 1 := ⟨count - 1, by omega⟩
    rw [Stack.values_succ, Stack.values_succ, slots, if_pos rfl, List.tail_cons]
    congr 1
    refine Stack.values_congr _ _ fun index _ => ?_
    rw [slots, if_neg (by omega)]
  have called : ∀ other : Machine, other.heap = placed.heap → other.fiber = placed.fiber →
      (callAt .spent (.closure ref) base count).Meets other (fun _ _ => False)
        (fun fault _ => fault = .stackOverflow)
        (fun entered => entered.Opens closure
          (.inst object :: (machine.fiber.stack.values base count).tail) base
          fun index => machine.fiber.stack.get (base + index)) := by
    intro other heap fiber
    refine (meets_callAt_window (heap ▸ present) plain accepts
      (by rw [fiber, size]; exact used)).mono (fun _ _ => id) (fun _ _ => id)
      fun entered opens => ?_
    rw [fiber, arguments] at opens
    refine opens.left_congr fun index beyond => ?_
    rw [List.length_cons] at beyond
    rw [slots, if_neg (by omega)]
  have awaited : (holding [.cls target, .inst object] do
      discard ((Engine.ofHost host 1).callAt (.closure ref) base count)).Meets placed
      (fun _ _ => False) (fun fault _ => fault = .stackOverflow)
      (fun entered => entered.Opens closure
        (.inst object :: (machine.fiber.stack.values base count).tail) base
        fun index => machine.fiber.stack.get (base + index)) := by
    rw [holding, keeping]
    refine Meets.get_bind (Meets.modify_bind ?_)
    refine Meets.ensuring ?_ (fun _ _ => id) (fun _ _ => id)
    exact Meets.map (called _ rfl rfl)
  exact awaited.bind fun _ _ => False.elim

/-! ## Generators -/

/-- Going on with a generator puts its registers above all others. -/
theorem meets_resumeInto_reenters {generator : Ref .generator} {own : Generator}
    (held : machine.heap.get? generator = some own) (waits : own.state = .suspended)
    (target : Option UInt8) (isRoot : Bool) :
    (resumeInto generator target isRoot).Meets machine
      (fun _ entered => ∃ frame, machine.Reenters generator own target isRoot frame [] entered)
      (fun fault _ => fault = .stackOverflow) (fun _ => False) := by
  refine Meets.read_bind ?_
  rw [Heap.get_of_get?_eq_some held, waits]
  refine Meets.read_bind (Meets.ofFiber_bind (Meets.modify_bind ?_))
  let frame : Frame :=
    { ref := own.closure, closure := machine.heap.get own.closure, ip := own.ip
      base := machine.fiber.stack.size, target, isRoot, generator := some generator }
  let active : Machine := { machine with heap := machine.heap.modify generator Generator.entered }
  have pushed : (do
      own.window.forM push
      pushFrame frame).Meets active
      (fun _ next => next.heap = active.heap ∧ next.fiber.traps = machine.fiber.traps ∧
        next.fiber.stack.frames = machine.fiber.stack.frames.push frame ∧
        frame.top ≤ next.fiber.stack.size ∧
        (∀ index, next.fiber.stack.get (machine.fiber.stack.size + index) =
          own.window.getD index .null) ∧
        ∀ place < machine.fiber.stack.size,
          next.fiber.stack.slots[place]? = machine.fiber.stack.slots[place]?)
      (fun fault _ => fault = Fault.stackOverflow) (fun _ => False) := by
    rw [forM_array]
    have registers := meets_pushAll own.window.toList active
    have mirrors := meets_pushWindow own.window.toList active
    refine (registers.and fun _ _ result => mirrors.of_ok result).bind fun _ next both => ?_
    obtain ⟨⟨heap, size, slots⟩, mirrors⟩ := both
    have frames : next.fiber.stack.frames = machine.fiber.stack.frames :=
      congrArg Activity.frames mirrors.activity
    have enough : machine.fiber.stack.size ≤ next.fiber.stack.size := by
      rw [size]
      exact Nat.le_add_right _ _
    refine Meets.room_bind rfl fun _ =>
      ⟨heap, congrArg Activity.traps mirrors.activity, ?_, ?_, fun index => ?_, fun place low => ?_⟩
    · show (Stack.enter _ _).frames = _
      rw [Stack.frames_enter, frames]
    · show _ ≤ (Stack.enter _ _).size
      rw [Stack.size_enter]
      exact Nat.le_max_right _ _
    · refine (Stack.get_grow _ _ _).trans ((slots _).trans ?_)
      have outside : active.fiber.stack.get (machine.fiber.stack.size + index) = .null :=
        Stack.get_beyond _ (Nat.le_add_right _ _)
      by_cases inside : index < own.window.size
      · rw [if_pos ⟨Nat.le_add_right _ _, by
          rw [Array.length_toList]
          exact Nat.add_lt_add_left inside _⟩]
        show own.window.toList.getD (machine.fiber.stack.size + index -
          machine.fiber.stack.size) .null = _
        rw [Nat.add_sub_cancel_left]
        simp [inside]
      · rw [if_neg (by
          rw [Array.length_toList]
          exact fun among => inside (Nat.lt_of_add_lt_add_left among.2)), outside]
        simp [inside]
    · refine (Stack.slot_enter _ frame (Nat.lt_of_lt_of_le low enough)).trans ?_
      have value := slots place
      rw [if_neg fun among => Nat.not_lt_of_le among.1 low] at value
      exact Stack.slot_congr _ (Nat.lt_of_lt_of_le low enough) low value
  refine pushed.attempt_bind (fun _ next held => ?_) fun fault next overflow => overflow
  obtain ⟨heap, traps, frames, within, registers, slots⟩ := held
  have number : next.fiber.stack.depth - 1 = machine.fiber.stack.depth := by
    rw [Stack.depth, frames, Array.size_push]
    rfl
  refine ⟨frame, rfl, rfl, rfl, rfl, rfl, rfl, rfl, frames, ?_, within, registers,
    fun place low _ => slots place low, heap⟩
  show _ ++ next.fiber.traps = _
  rw [traps, number]
  rfl

/-- A generator function captures its arguments; the first resumption enters it with them. -/
theorem meets_createGenerator_window {base count : Nat}
    (found : machine.heap.get? ref = some closure)
    (accepts : closure.routine.accepts count = true)
    (used : base + count ≤ machine.fiber.stack.size) :
    (createGenerator ref base count).Meets machine
      (fun value created => ∃ (generator : Ref .generator) (own : Generator),
        value = .generator generator ∧ created.heap.get? generator = some own ∧
        ∀ (later : Machine) (target : Option UInt8) (isRoot : Bool),
          later.heap.get? generator = some own → later.heap.get? ref = some closure →
          (∀ array : Ref .array, own.window[closure.routine.fixedCount]? = some (.array array) →
            later.heap.get? array = created.heap.get? array) →
          (resumeInto generator target isRoot).Meets later
            (fun _ entered => entered.Opens closure (machine.fiber.stack.values base count)
              later.fiber.stack.size fun _ => .null)
            (fun fault _ => fault = .stackOverflow) (fun _ => False))
      (fun fault _ => fault = .stackOverflow) (fun _ => False) := by
  refine Meets.read_bind ?_
  rw [Heap.get_of_get?_eq_some found]
  refine (meets_prepareArguments accepts used).bind fun _ prepared held => ?_
  obtain ⟨⟨receives, _⟩, _⟩ := held
  refine Meets.ok_bind rfl (Meets.ok_bind rfl ?_)
  let parameters := closure.routine.parameterCount
  let taken := prepared.fiber.stack.range base (base + parameters)
  let own : Generator :=
    { closure := ref
      window := taken ++ Array.replicate (closure.routine.stackSize - taken.size) Value.null }
  let created : Machine := { prepared with heap := (@Heap.alloc .generator prepared.heap own).2 }
  have window : ∀ index, own.window.getD index .null =
      if index < parameters then prepared.fiber.stack.get (base + index) else .null :=
    Stack.getD_range prepared.fiber.stack base parameters _
  have fixed_le : closure.routine.fixedCount ≤ parameters := by
    rw [Routine.fixedCount]
    split
    · exact Nat.sub_le _ _
    · exact le_rfl
  refine ⟨⟨prepared.heap.size⟩, own, rfl, ?_, ?_⟩
  · exact (Heap.get?_alloc _ _).trans (if_pos rfl)
  · intro later target isRoot held present arrays
    refine (meets_resumeInto_reenters held rfl target isRoot).mono
      (fun _ entered opened => ?_) (fun _ _ => id) fun _ => id
    obtain ⟨frame, reenters⟩ := opened
    have body : frame.closure = closure :=
      reenters.closure.trans (Heap.get_of_get?_eq_some present)
    have slots := reenters.registers
    have same : ∀ array : Ref .array, entered.heap.get? array = later.heap.get? array :=
      fun array => reenters.heap ▸ Heap.get?_modify_of_ne (by decide) _ _ _
    have within :
        later.fiber.stack.size + closure.routine.stackSize ≤ entered.fiber.stack.size := by
      rw [← body, ← reenters.base]
      exact reenters.within
    refine ⟨⟨frame, ?_, body, reenters.base, reenters.ip⟩, within,
      ⟨fun index few => ?_, fun variadic named => ?_, fun index beyond => ?_⟩⟩
    · rw [Stack.current?, reenters.frames, Array.back?_push]
    · rw [receives.fixed index few, slots, window, if_pos]
      exact Nat.lt_of_lt_of_le few fixed_le
    · obtain ⟨array, here, values⟩ := receives.extra variadic named
      have inside : closure.routine.fixedCount < parameters := by
        rw [Routine.fixedCount, variadic, if_pos rfl]
        exact Nat.sub_one_lt_of_lt named
      have last := window closure.routine.fixedCount
      rw [if_pos inside, here] at last
      refine ⟨array, (slots _).trans last, ?_⟩
      rw [same, arrays array]
      · exact (Heap.get?_alloc_of_ne (by decide) _ _).trans values
      · rw [Array.getD_eq_getD_getElem?] at last
        cases value : own.window[closure.routine.fixedCount]? with
        | none =>
            rw [value] at last
            cases last
        | some found =>
            rw [value] at last
            exact congrArg some last
    · rw [slots, window, if_neg]
      · split <;> rfl
      · have filled : parameters ≤ closure.routine.filledCount := by
          rw [Routine.filledCount]
          split
          · exact Nat.le_succ_of_pred_le le_rfl
          · exact le_rfl
        exact Nat.not_lt_of_le (Nat.le_trans filled beyond)

end Exec

/-! ## All ways to enter a function -/

open Exec

/-- The registers that the first instruction of a closure finds, however it is entered.  An engine
with one step is cut short there.  The arguments are as they should be on every way; what differs is
what is left in the other registers. -/
structure Closure.Opening (host : Host) (ref : Ref .closure) (closure : Closure)
    (machine : Machine) : Prop where
  /-- The host runs the function: all other registers are null. -/
  run : ∀ (point : EntryPoint) (this : Value) (arguments : List Value),
    closure.routine.isGenerator = false → closure.routine.accepts (arguments.length + 1) = true →
    point.stackBase = machine.fiber.stack.size →
    (beginEntry (.ofHost host 1) point (.closure ref) this arguments).Meets machine
      (fun _ _ => False) (fun fault _ => fault = .stackOverflow ∨ fault = .nativeStackOverflow)
      (fun entered => entered.Opens closure (this :: arguments) machine.fiber.stack.size
        fun _ => .null)
  /-- The host or a hook calls it and waits for the result: all other registers are null. -/
  callSync : ∀ (this : Value) (arguments : List Value),
    closure.routine.isGenerator = false → closure.routine.accepts (arguments.length + 1) = true →
    ((Engine.ofHost host 1).callSync (.closure ref) this arguments).Meets machine
      (fun _ _ => False) (fun fault _ => fault = .stackOverflow)
      (fun entered => entered.Opens closure (this :: arguments) machine.fiber.stack.size
        fun _ => .null)
  /-- A call instruction: the other registers have what the caller left there. -/
  call : ∀ (engine : Engine) (frame : Frame) (instruction : Instruction),
    machine.Calls frame instruction (.closure ref) → instruction.op = .call →
    closure.routine.isGenerator = false →
    closure.routine.accepts instruction.third.toNat = true →
    (step engine (some instruction)).Meets machine
      (fun flow next => flow = .proceed ∧ next.Opens closure
        (machine.fiber.stack.values (frame.base + instruction.second.toNat)
          instruction.third.toNat) (frame.base + instruction.second.toNat)
        fun index => machine.fiber.stack.get (frame.base + instruction.second.toNat + index))
      (fun fault _ => fault = .stackOverflow) (fun _ => False)
  /-- A call in the place of its frame: the window of the frame is cleared, and registers beyond it
  have what was left there.  Where that is not possible, it is a call. -/
  tailCall : ∀ (engine : Engine) (frame : Frame) (instruction : Instruction) (replaced : Bool),
    machine.Calls frame instruction (.closure ref) → instruction.op = .tailCall →
    closure.routine.isGenerator = false →
    closure.routine.accepts instruction.third.toNat = true →
    replacesFrame frame closure instruction.third.toNat machine = .ok replaced machine →
    (step engine (some instruction)).Meets machine
      (fun flow next => flow = .proceed ∧ if replaced then
          next.Opens closure (machine.fiber.stack.values
            (frame.base + instruction.second.toNat) instruction.third.toNat) frame.base
            fun index => if frame.base + index < frame.top then .null
              else machine.fiber.stack.get (frame.base + index)
        else next.Opens closure
          (machine.fiber.stack.values (frame.base + instruction.second.toNat)
            instruction.third.toNat) (frame.base + instruction.second.toNat)
          fun index => machine.fiber.stack.get (frame.base + instruction.second.toNat + index))
      (fun fault _ => fault = .stackOverflow) (fun _ => False)
  /-- The initialiser of a class: the instance takes the place of the receiver, and the other
  registers have what was left there. -/
  construct : ∀ (target : Ref .cls) (cls : Class) (base count : Nat),
    machine.heap.get? target = some cls → cls.initializer? = some (.closure ref) →
    closure.routine.isGenerator = false → closure.routine.accepts count = true → 0 < count →
    base + count ≤ machine.fiber.stack.size →
    (Exec.construct (.ofHost host 1) target base count).Meets machine (fun _ _ => False)
      (fun fault _ => fault = .stackOverflow)
      (fun entered => entered.Opens closure
        (.inst (machine.heap.instantiate target).1 ::
          (machine.fiber.stack.values base count).tail) base
        fun index => machine.fiber.stack.get (base + index))
  /-- A generator, when it is resumed for the first time: all other registers are null. -/
  generator : ∀ base count : Nat, closure.routine.accepts count = true →
    base + count ≤ machine.fiber.stack.size →
    (createGenerator ref base count).Meets machine
      (fun value created => ∃ (generator : Ref .generator) (own : Generator),
        value = .generator generator ∧ created.heap.get? generator = some own ∧
        ∀ (later : Machine) (target : Option UInt8) (isRoot : Bool),
          later.heap.get? generator = some own → later.heap.get? ref = some closure →
          (∀ array : Ref .array, own.window[closure.routine.fixedCount]? = some (.array array) →
            later.heap.get? array = created.heap.get? array) →
          (resumeInto generator target isRoot).Meets later
            (fun _ entered => entered.Opens closure (machine.fiber.stack.values base count)
              later.fiber.stack.size fun _ => .null)
            (fun fault _ => fault = .stackOverflow) (fun _ => False))
      (fun fault _ => fault = .stackOverflow) (fun _ => False)

/-- What every function that exists finds in its registers, and that accepted code calls with
arguments in its window. -/
theorem windows_open (host : Host) (machine : Machine) :
    (∀ (ref : Ref .closure) (closure : Closure), machine.heap.get? ref = some closure →
      closure.Opening host ref machine) ∧
    ∀ (next : Machine) (frame : Frame) (instruction : Instruction), machine.Ready →
      fetch machine = .ok (some instruction) next →
      instruction.op = .call ∨ instruction.op = .tailCall →
      next.fiber.stack.current? = some frame →
      next.Calls frame instruction (next.fiber.stack.get
        (frame.base + (Instruction.lowByte instruction.wide).toNat)) := by
  refine ⟨fun ref closure found => ⟨?_, ?_, ?_, ?_, ?_, ?_⟩, fun next frame instruction ready
    fetched calls current => calls_of_fetch ready fetched calls current⟩
  · intro point this arguments plain accepts start
    exact meets_beginEntry_window host point start found plain this arguments accepts
  · intro this arguments plain accepts
    exact meets_callSync_window host found plain this arguments accepts
  · intro engine frame instruction calls isCall plain accepts
    rw [step, dispatch, isCall]
    exact Meets.ok_bind (readWide_of_calls calls)
      (meets_callInstruction_window calls engine found plain accepts)
  · intro engine frame instruction replaced calls isCall plain accepts replaces
    rw [step, dispatch, isCall]
    refine Meets.ok_bind (readWide_of_calls calls) ?_
    refine Meets.read_bind (Meets.frame_bind calls.current ?_)
    rw [Heap.get_of_get?_eq_some found]
    refine Meets.ok_bind replaces ?_
    cases replaced with
    | true => exact meets_replaceFrame_window calls found accepts
    | false => exact meets_callInstruction_window calls engine found plain accepts
  · intro target cls base count held initializer plain accepts receiver used
    exact meets_construct_window host held initializer found plain accepts receiver used
  · intro base count accepts used
    exact meets_createGenerator_window found accepts used

/-- A function that returns a register it has not assigned. -/
def unassigned : Prototype where
  name := "unassigned"
  parameters := #["this"]
  stackSize := 2
  code := #[⟨.ret, 0, 1, 0, 0⟩]

/-- A function that has a number in a register above the arguments of a call. -/
def leaving : Prototype where
  name := "leaving"
  parameters := #["this", "callee"]
  stackSize := 6
  code := #[⟨.loadInt, 4, 42, 0, 0⟩, ⟨.call, 5, 1, 3, 1⟩, ⟨.ret, 0, 5, 0, 0⟩]

/-- Load the functions and run one on the other. -/
def runLeaving (engine : Engine) : Exec Outcome := do
  let callee ← Exec.loadFunction unassigned
  let closure ← Exec.loadFunction leaving
  Exec.run engine closure [callee]

theorem serves_runLeaving (engine : Engine) {manners : Manners} (enters : manners.enters = true) :
    engine.Serves manners (runLeaving engine) :=
  (Engine.Serves.loadFunction unassigned).bind fun _ =>
    (Engine.Serves.loadFunction leaving).bind fun _ => .run enters _ _

/-- The callee finds the number of its caller in the register that it has not assigned. -/
theorem windows_open_leaving :
    (step (standardEngine 8) (some ⟨.call, 5, 1, 3, 1⟩)).Meets
      (fetch.after ((runLeaving untilCall).after (.create {})))
      (fun _ next => next.fiber.stack.get 4 = .integer 42)
      (fun fault _ => fault = .stackOverflow) (fun _ => False) := by
  let machine := (runLeaving untilCall).after (.create {})
  let next := fetch.after machine
  have occurs : machine.Occurs standardHost { wakes := true } :=
    .running (.created {}) (.serves (serves_runLeaving _ rfl))
      (eq_after_of_isCut (by decide +kernel))
  have ready : machine.Ready := (occurs.ready serves_standardHost rfl).1
  have fetched : fetch machine = .ok (some ⟨.call, 5, 1, 3, 1⟩) next :=
    eq_after_of_value? (by decide +kernel)
  have bases : next.fiber.stack.current?.map Frame.base = some 0 := by decide +kernel
  obtain ⟨frame, current, base⟩ := Option.map_eq_some_iff.mp bases
  have calls := (windows_open standardHost machine).2 next frame _ ready fetched (.inl rfl) current
  have callee : next.fiber.stack.get 1 = .closure ⟨1⟩ := by decide +kernel
  have number : next.fiber.stack.get 4 = .integer 42 := by decide +kernel
  have place : next.fiber.stack.get (frame.base +
      (Instruction.lowByte (⟨.call, 5, 1, 3, 1⟩ : Instruction).wide).toNat) =
        .closure ⟨1⟩ := by
    rw [base]
    exact callee
  rw [place] at calls
  have looks : (next.heap.get? (⟨1⟩ : Ref .closure)).map (fun closure : Closure =>
      (closure.routine.isGenerator, closure.routine.accepts 1, closure.routine.filledCount)) =
        some (false, true, 1) := by decide +kernel
  obtain ⟨closure, found, same⟩ := Option.map_eq_some_iff.mp looks
  obtain ⟨plain, rest⟩ := Prod.mk.inj same
  obtain ⟨accepts, filled⟩ := Prod.mk.inj rest
  have opening := (windows_open standardHost next).1 ⟨1⟩ closure found
  refine (opening.call (standardEngine 8) frame _ calls rfl plain accepts).mono
    (fun flow last opened => ?_) (fun _ _ => id) fun _ => id
  have read := opened.2.receives.rest 1 (Nat.le_of_eq filled)
  rw [base] at read
  exact read.trans number

end ScriptMachine
