import Mathlib.Order.Bounds.Basic
import ScriptMachine.Proofs.Machine.Meets
import ScriptMachine.Proofs.Machine.Registers

/-!
# What has been done with registers and frames

Registers and frames come and go by a few operations, each of which leaves the stack alone where
there is no room for it.  Whatever the operations have been, the stack is within its limits, and the
peak that it remembers is the largest number of registers on its record.
-/

namespace ScriptMachine

open Exec

namespace Stack

/-- What is done with registers and frames. -/
inductive Operation where
  /-- A register is added. -/
  | push (value : Value)
  /-- There are to be at least so many registers. -/
  | ensure (size : Nat)
  /-- The registers from a place on are dropped. -/
  | truncate (size : Nat)
  /-- The registers of a range become null. -/
  | clearRange (start stop : Nat)
  /-- A register is assigned. -/
  | set (place : Nat) (value : Value)
  /-- A frame is added with its window. -/
  | pushFrame (frame : Frame)
  /-- The current frame is removed. -/
  | popFrame
  /-- The current frame goes on at an instruction. -/
  | goTo (ip : Nat)
  /-- All registers and frames are given up. -/
  | drain

namespace Operation

/-- There is room for what the operation adds. -/
def hasRoom (stack : Stack) : Operation → Bool
  | push _ => stack.hasRoom
  | ensure size => stack.fits size
  | set place _ => stack.admits place
  | pushFrame frame => stack.admitsFrame frame
  | truncate _ | clearRange _ _ | popFrame | goTo _ | drain => true

/-- What the operation does where there is room. -/
def change (stack : Stack) : Operation → Stack
  | push value => stack.append value
  | ensure size => stack.grow size
  | truncate size => stack.truncate size
  | clearRange start stop => stack.clearRange start stop
  | set place value => stack.put place value
  | pushFrame frame => stack.enter frame
  | popFrame => stack.leave
  | goTo ip => stack.modifyFrame ({ · with ip })
  | drain => { stack with slots := #[], frames := #[], sizes := 0 :: stack.sizes }

/-- The stack after an operation, which leaves it alone where there is no room. -/
def apply (operation : Operation) (stack : Stack) : Stack :=
  if operation.hasRoom stack then operation.change stack else stack

end Operation

/-! ## Limits -/

theorem maxFrames_grow (stack : Stack) (size : Nat) :
    (stack.grow size).maxFrames = stack.maxFrames := by
  rw [grow]
  split <;> rfl

theorem peak_grow {stack : Stack} (low : stack.size ≤ stack.peak) (size : Nat) :
    (stack.grow size).peak = max stack.peak (stack.grow size).size := by
  rw [size_grow, grow]
  split
  · show max stack.peak size = _
    omega
  · show stack.peak = _
    omega

namespace Operation

variable {stack : Stack}

@[simp]
theorem maxSlots_apply (operation : Operation) (stack : Stack) :
    (operation.apply stack).maxSlots = stack.maxSlots := by
  rw [apply]
  split
  · cases operation with
    | ensure | set | pushFrame => exact stack.maxSlots_grow _
    | _ => rfl
  · rfl

@[simp]
theorem maxFrames_apply (operation : Operation) (stack : Stack) :
    (operation.apply stack).maxFrames = stack.maxFrames := by
  rw [apply]
  split
  · cases operation with
    | ensure | set | pushFrame => exact stack.maxFrames_grow _
    | _ => rfl
  · rfl

theorem size_apply_le (operation : Operation) (within : stack.size ≤ stack.maxSlots) :
    (operation.apply stack).size ≤ stack.maxSlots := by
  rw [apply]
  split
  · rename_i room
    cases operation with
    | push value => exact stack.size_append_le value room
    | ensure size => exact stack.size_grow_le room within
    | truncate size =>
        show (stack.truncate size).size ≤ _
        rw [size_truncate]
        omega
    | clearRange start stop =>
        show (stack.clearRange start stop).size ≤ _
        rwa [size_clearRange]
    | set place value => exact stack.size_put_le value room within
    | pushFrame frame => exact stack.size_enter_le room within
    | popFrame | goTo => exact within
    | drain => exact Nat.zero_le _
  · exact within

theorem depth_apply_le (operation : Operation) (within : stack.depth ≤ stack.maxFrames) :
    (operation.apply stack).depth ≤ stack.maxFrames := by
  rw [apply]
  split
  · rename_i room
    cases operation with
    | push | truncate | clearRange => exact within
    | ensure size =>
        show (stack.grow size).frames.size ≤ _
        rwa [frames_grow]
    | set place value =>
        show (stack.put place value).frames.size ≤ _
        rwa [frames_put]
    | pushFrame frame =>
        show (stack.enter frame).frames.size ≤ _
        rw [frames_enter, Array.size_push]
        have above : stack.depth < stack.maxFrames := by
          simpa using (Bool.and_eq_true_iff.mp room).1
        exact above
    | popFrame =>
        show stack.frames.pop.size ≤ _
        rw [Array.size_pop]
        exact (Nat.sub_le _ _).trans within
    | goTo ip =>
        show (stack.frames.modify _ _).size ≤ _
        rwa [Array.size_modify]
    | drain => exact Nat.zero_le _
  · exact within

/-- The peak is raised to the number of registers, if that is larger. -/
theorem peak_apply (operation : Operation) (low : stack.size ≤ stack.peak) :
    (operation.apply stack).peak = max stack.peak (operation.apply stack).size := by
  rw [apply]
  split
  · cases operation with
    | push value =>
        show max stack.peak (stack.size + 1) = max stack.peak (stack.append value).size
        rw [size_append]
    | ensure size => exact peak_grow low size
    | truncate size =>
        show stack.peak = max stack.peak (stack.truncate size).size
        rw [size_truncate]
        omega
    | clearRange start stop =>
        show stack.peak = max stack.peak (stack.clearRange start stop).size
        rw [size_clearRange]
        omega
    | set place value =>
        show (stack.grow (place + 1)).peak = max stack.peak (stack.put place value).size
        rw [peak_grow low, size_grow, size_put]
    | pushFrame frame => exact peak_grow low frame.top
    | popFrame | goTo => exact (Nat.max_eq_left low).symm
    | drain => exact (Nat.max_eq_left (Nat.zero_le _)).symm
  · omega

end Operation

/-! ## The record -/

/-- The number of registers is put on record, unless it is the same as before. -/
def Notes (stack next : Stack) : Prop :=
  next.sizes = stack.sizes ∧ next.size = stack.size ∨ next.sizes = next.size :: stack.sizes

theorem notes_grow (stack : Stack) (size : Nat) : stack.Notes (stack.grow size) := by
  rw [Notes, size_grow, grow]
  split
  · rename_i small
    exact .inr (congrArg (· :: stack.sizes) (Nat.max_eq_right small.le).symm)
  · rename_i large
    exact .inl ⟨rfl, Nat.max_eq_left (Nat.le_of_not_lt large)⟩

theorem notes_truncate (stack : Stack) (size : Nat) : stack.Notes (stack.truncate size) := by
  rw [Notes, size_truncate, truncate]
  dsimp only
  split
  · rename_i less
    exact .inr (congrArg (· :: stack.sizes) (Nat.min_eq_right less.le).symm)
  · rename_i all
    exact .inl ⟨rfl, Nat.min_eq_left (Nat.le_of_not_lt all)⟩

theorem notes_apply (operation : Operation) (stack : Stack) :
    stack.Notes (operation.apply stack) := by
  rw [Operation.apply]
  split
  · cases operation with
    | push value => exact .inr (congrArg (· :: stack.sizes) (stack.size_append value).symm)
    | ensure size => exact stack.notes_grow size
    | truncate size => exact stack.notes_truncate size
    | clearRange start stop => exact .inl ⟨rfl, stack.size_clearRange start stop⟩
    | set place value =>
        have grown := stack.notes_grow (place + 1)
        rwa [Notes, size_grow, ← stack.size_put place value] at grown
    | pushFrame frame => exact stack.notes_grow frame.top
    | popFrame | goTo => exact .inl ⟨rfl, rfl⟩
    | drain => exact .inr rfl
  · exact .inl ⟨rfl, rfl⟩

/-- What is on record stays there. -/
theorem Notes.suffix {stack next : Stack} (notes : stack.Notes next) :
    stack.sizes <:+ next.sizes := by
  rcases notes with ⟨same, _⟩ | more
  · exact same ▸ List.suffix_rfl
  · exact more ▸ List.suffix_cons _ _

/-- The stack keeps to its limits and has done so at all times: the number of registers is the last
one on record, none on record is more than allowed, and the peak is the largest one. -/
structure Accounted (maxSlots maxFrames : Nat) (stack : Stack) : Prop where
  /-- So many registers are allowed. -/
  maxSlots_eq : stack.maxSlots = maxSlots
  /-- So many frames are allowed. -/
  maxFrames_eq : stack.maxFrames = maxFrames
  /-- There are not more frames than allowed. -/
  depth_le : stack.depth ≤ maxFrames
  /-- The number of registers is the last one on record. -/
  head?_sizes : stack.sizes.head? = some stack.size
  /-- There have never been more registers than allowed. -/
  sizes_le : ∀ size ∈ stack.sizes, size ≤ maxSlots
  /-- The peak is the largest number on record. -/
  isGreatest_peak : IsGreatest {size | size ∈ stack.sizes} stack.peak

namespace Accounted

variable {maxSlots maxFrames : Nat} {stack : Stack}

theorem size_mem (accounted : stack.Accounted maxSlots maxFrames) : stack.size ∈ stack.sizes :=
  List.mem_of_head? accounted.head?_sizes

theorem size_le (accounted : stack.Accounted maxSlots maxFrames) : stack.size ≤ maxSlots :=
  accounted.sizes_le _ accounted.size_mem

theorem size_le_peak (accounted : stack.Accounted maxSlots maxFrames) : stack.size ≤ stack.peak :=
  accounted.isGreatest_peak.2 accounted.size_mem

/-- A stack without registers and frames. -/
theorem fresh (maxSlots maxFrames : Nat) :
    ({ maxSlots, maxFrames } : Stack).Accounted maxSlots maxFrames where
  maxSlots_eq := rfl
  maxFrames_eq := rfl
  depth_le := Nat.zero_le _
  head?_sizes := rfl
  sizes_le _ among := List.mem_singleton.mp among ▸ Nat.zero_le _
  isGreatest_peak := ⟨List.mem_singleton_self 0, fun _ among => (List.mem_singleton.mp among).le⟩

/-- Every operation keeps the record right. -/
theorem apply (accounted : stack.Accounted maxSlots maxFrames) (operation : Operation) :
    (operation.apply stack).Accounted maxSlots maxFrames := by
  obtain ⟨rfl, rfl, depth, head, sizes, peak⟩ := accounted
  have within : stack.size ≤ stack.maxSlots := sizes _ (List.mem_of_head? head)
  have size := operation.size_apply_le within
  have raised := operation.peak_apply (peak.2 (List.mem_of_head? head))
  refine ⟨operation.maxSlots_apply stack, operation.maxFrames_apply stack,
    operation.depth_apply_le depth, ?_, ?_, ?_⟩
  · rcases notes_apply operation stack with ⟨same, unchanged⟩ | more
    · rw [same, unchanged, head]
    · rw [more]
      rfl
  · rcases notes_apply operation stack with ⟨same, _⟩ | more
    · rwa [same]
    · rw [more]
      exact fun number among => (List.mem_cons.mp among).elim (· ▸ size) (sizes number)
  · rw [raised]
    rcases notes_apply operation stack with ⟨same, unchanged⟩ | more
    · rw [same, unchanged, Nat.max_eq_left (peak.2 (List.mem_of_head? head))]
      exact peak
    · rw [more, Nat.max_comm]
      have joined := peak.insert (operation.apply stack).size
      simpa only [Set.insert_def, Set.mem_ofPred_eq, List.mem_cons] using joined

end Accounted

end Stack

/-! ## Refusal -/

namespace Exec

variable {machine next : Machine} {stop : Stop}

/-- The operations that need room. -/
inductive Grows : Exec Unit → Prop
  | push (value : Value) : Grows (push value)
  | ensure (size : Nat) : Grows (ensure size)
  | resize (size : Nat) : Grows (resize size)
  | setPlace (place : Nat) (value : Value) : Grows (setPlace place value)
  | pushFrame (frame : Frame) : Grows (pushFrame frame)

theorem requireRoom_bind (room : Stack → Bool) (change : Stack → Stack) (machine : Machine) :
    (requireRoom room >>= fun _ => onStack change) machine =
      if room machine.fiber.stack then .ok () (machine.mapStack change)
      else .error (.raised .stackOverflow) (machine.record .stackOverflow) := by
  rw [requireRoom, bind_assoc, ok_bind (show ofFiber (room ·.stack) machine =
    .ok (room machine.fiber.stack) machine from rfl)]
  cases room machine.fiber.stack with
  | true => rfl
  | false => rfl

theorem stack_of_requireRoom {room : Stack → Bool} {change : Stack → Stack}
    (failed : (requireRoom room >>= fun _ => onStack change) machine = .error stop next) :
    stop = .raised .stackOverflow ∧ room machine.fiber.stack = false ∧
      next.fiber.stack = machine.fiber.stack := by
  rw [requireRoom_bind] at failed
  cases fits : room machine.fiber.stack with
  | true =>
      rw [fits] at failed
      cases failed
  | false =>
      rw [fits] at failed
      cases failed
      exact ⟨rfl, rfl, rfl⟩

/-- Where there is no room, registers, frames and peak stay as they are. -/
theorem Grows.stack_of_error {action : Exec Unit} (grows : Grows action)
    (roomy : machine.fiber.Roomy) (failed : action machine = .error stop next) :
    stop = .raised .stackOverflow ∧ next.fiber.stack = machine.fiber.stack := by
  cases grows with
  | push | ensure | setPlace | pushFrame =>
      obtain ⟨overflow, _, same⟩ := stack_of_requireRoom failed
      exact ⟨overflow, same⟩
  | resize size =>
      obtain ⟨overflow, small, same⟩ := @stack_of_requireRoom
        (machine.mapStack (·.truncate size)) _ _ _ _ failed
      -- What does not fit is more than there is, so that nothing has been dropped.
      have beyond : machine.fiber.stack.maxSlots < size := by
        simpa [Stack.fits, Machine.mapStack, Stack.truncate] using small
      have all : machine.fiber.stack.slots.shrink size = machine.fiber.stack.slots := by
        rw [Array.shrink_eq_take, Array.take_eq_extract]
        exact Array.extract_eq_self_of_le (roomy.trans beyond.le)
      refine ⟨overflow, same.trans ?_⟩
      show machine.fiber.stack.truncate size = _
      rw [Stack.truncate, all, if_neg (Nat.not_lt_of_le (roomy.trans beyond.le))]

/-- Where there is room, the peak is raised to the number of registers. -/
theorem peak_of_requireRoom (operation : Stack.Operation)
    (low : machine.fiber.stack.size ≤ machine.fiber.stack.peak)
    (done : (requireRoom (Stack.Operation.hasRoom · operation) >>= fun _ =>
      onStack (Stack.Operation.change · operation)) machine = .ok () next) :
    next.fiber.stack.peak = max machine.fiber.stack.peak next.fiber.stack.size := by
  have raised := operation.peak_apply low
  rw [requireRoom_bind] at done
  cases room : operation.hasRoom machine.fiber.stack with
  | false =>
      rw [room] at done
      cases done
  | true =>
      rw [room] at done
      rw [Stack.Operation.apply, if_pos room] at raised
      cases done
      exact raised

theorem Grows.peak_of_ok {action : Exec Unit} (grows : Grows action)
    (low : machine.fiber.stack.size ≤ machine.fiber.stack.peak)
    (done : action machine = .ok () next) :
    next.fiber.stack.peak = max machine.fiber.stack.peak next.fiber.stack.size := by
  cases grows with
  | push value => exact peak_of_requireRoom (.push value) low done
  | ensure size => exact peak_of_requireRoom (.ensure size) low done
  | setPlace place value => exact peak_of_requireRoom (.set place value) low done
  | pushFrame frame => exact peak_of_requireRoom (.pushFrame frame) low done
  | resize size =>
      refine @peak_of_requireRoom (machine.mapStack (·.truncate size)) _ (.ensure size) ?_ done
      show (machine.fiber.stack.truncate size).size ≤ machine.fiber.stack.peak
      rw [Stack.size_truncate]
      exact (Nat.min_le_left _ _).trans low

end Exec

end ScriptMachine
