import ScriptMachine.Machine.Loading
import ScriptMachine.Proofs.Heap.Content
import ScriptMachine.Proofs.Interner.Exactness
import ScriptMachine.Proofs.Machine.Meets
import ScriptMachine.Proofs.Stream.RoundTrip
import ScriptMachine.Proofs.Text.Lossy

/-!
# A saved function is its source

Loading a prototype changes nothing that the way back does not restore: literals become values
that stand for the same literals, and a verified prototype already has room for its parameters.  So
the stream of a closure over a loaded prototype is the stream of the prototype, and what is loaded
from that stream is saved as the same stream again.
-/

namespace ScriptMachine

/-! ## Literals -/

/-- The value of a literal and what becomes of the interner; a text is held there. -/
def Literal.intern (hash : ByteArray → UInt64) (interner : Interner) :
    Literal → Value × Interner
  | .string text =>
    let (handle, interner) := interner.intern hash text.toUTF8
    (.string (interner.copy handle).bytes, interner)
  | other => (other.toValue, interner)

/-- The copy that interning reports is a copy of the string. -/
theorem Interner.bytes_copy_intern (hash : ByteArray → UInt64) (interner : Interner)
    (bytes : ByteArray) :
    ((interner.intern hash bytes).2.copy (interner.intern hash bytes).1).bytes = bytes := by
  rw [intern]
  generalize interner.prune _ = pruned
  cases found : pruned.find? (hash bytes) bytes with
  | some handle =>
      have tested := List.find?_some found
      obtain ⟨held, -, same⟩ := of_decide_eq_true tested
      have made : handle < pruned.copies.size := by
        by_contra beyond
        have absent : pruned.copy handle = default := by simp [copy, beyond]
        rw [isHeld, absent] at held
        exact absurd held (by decide)
      rw [copy_setHolders made, if_pos rfl]
      exact same
  | none =>
      rw [copy_eq (copies_insert _ _), copy_make, if_pos rfl]

theorem Literal.intern_eq (hash : ByteArray → UInt64) (interner : Interner) (literal : Literal) :
    (literal.intern hash interner).1 = literal.toValue := by
  cases literal with
  | string text => exact congrArg Value.string (Interner.bytes_copy_intern hash interner _)
  | _ => rfl

@[simp]
theorem Literal.toLiteral_toValue (literal : Literal) : literal.toValue.toLiteral = literal := by
  cases literal with
  | string text => exact congrArg Literal.string (Text.lossy_toUTF8 text)
  | _ => rfl

/-! ## Function bodies -/

namespace Routine

mutual

/-- A prototype comes back from the routine it was loaded into. -/
theorem toPrototype_load : (prototype : Prototype) → prototype.Accepted →
    (load prototype).toPrototype = prototype
  | ⟨name, source, literals, parameters, captures, lines, code, stackSize, isGenerator, isVariadic,
      functions⟩, accepted => by
    cases accepted with
    | intro frame _ _ nested _ =>
        have room : max stackSize parameters.size = stackSize := Nat.max_eq_left frame
        have same : (literals.map Literal.toValue).map Value.toLiteral = literals := by
          simp [Function.comp_def]
        rw [load, toPrototype, room, same, toPrototypeAll_loadAll functions nested]

theorem toPrototypeAll_loadAll : (list : List Prototype) →
    (∀ prototype ∈ list, prototype.Accepted) → toPrototypeAll (loadAll list) = list
  | [], _ => by rw [loadAll, toPrototypeAll]
  | first :: rest, accepted => by
    rw [loadAll, toPrototypeAll, toPrototype_load first (accepted first List.mem_cons_self),
      toPrototypeAll_loadAll rest fun _ member => accepted _ (List.mem_cons_of_mem _ member)]

end

end Routine

/-! ## Closures -/

namespace Exec

/-- Creating objects one after the other succeeds and gives as many of them. -/
theorem mapM_alloc_eq_ok {α : Type} {kind : Kind} (content : Content kind) (list : List α)
    (machine : Machine) :
    ∃ refs next, (list.mapM fun _ => alloc content) machine = .ok refs next ∧
      refs.length = list.length := by
  induction list generalizing machine with
  | nil => exact ⟨[], machine, rfl, rfl⟩
  | cons first rest ih =>
      let created := machine.heap.alloc content
      obtain ⟨refs, next, others, length⟩ := ih { machine with heap := created.2 }
      have own : alloc content machine = .ok created.1 { machine with heap := created.2 } := rfl
      refine ⟨created.1 :: refs, next, ?_, congrArg (· + 1) length⟩
      rw [List.mapM_cons, ok_bind own, ok_bind others]
      rfl

/-- Loading creates a closure over the routine with a cell for every captured variable. -/
theorem closureOver_eq_ok (routine : Routine) (machine : Machine) :
    ∃ ref next cells, closureOver routine machine = .ok (.closure ref) next ∧
      next.heap.get ref = ({ routine, cells } : Closure) ∧
      cells.size = routine.captures.size := by
  obtain ⟨refs, next, created, length⟩ :=
    @mapM_alloc_eq_ok _ .cell .null routine.captures.toList machine
  let made := @Heap.alloc .closure next.heap { routine, cells := refs.toArray }
  refine ⟨made.1, { next with heap := made.2 }, refs.toArray, ?_, ?_, length⟩
  · rw [closureOver, Array.mapM_eq_mapM_toList, map_eq_pure_bind, bind_assoc, ok_bind created]
    rfl
  · exact Heap.get_of_get?_eq_some ((Heap.get?_alloc _ _).trans (if_pos rfl))

theorem loadFunction_eq {prototype : Prototype} (verified : prototype.verify = .ok ()) :
    loadFunction prototype = closureOver (Routine.load prototype) := by
  rw [loadFunction, loadRoutine, verified]
  rfl

/-- A closure that captures nothing is saved as its prototype. -/
theorem saveClosure_eq_ok {machine : Machine} {ref : Ref .closure} {closure : Closure}
    (here : machine.heap.get ref = closure) (plain : closure.cells.size = 0) :
    saveClosure (.closure ref) machine =
      .ok (Stream.encode closure.routine.toPrototype) machine := by
  have found : read ref machine = .ok closure machine := congrArg (EStateM.Result.ok · machine) here
  rw [saveClosure, ok_bind found, Array.size_eq_zero_iff.mp plain]
  rfl

/-- A closure that captures something is not saved. -/
theorem saveClosure_eq_error {machine : Machine} {ref : Ref .closure} {closure : Closure}
    (here : machine.heap.get ref = closure) (captures : closure.cells.size ≠ 0) :
    saveClosure (.closure ref) machine =
      .error (.raised .capturedValues) (machine.record .capturedValues) := by
  have found : read ref machine = .ok closure machine := congrArg (EStateM.Result.ok · machine) here
  have some : closure.cells.isEmpty = false := by
    rwa [Array.isEmpty_eq_false_iff, ne_eq, ← Array.size_eq_zero_iff]
  rw [saveClosure, ok_bind found, some]
  rfl

end Exec

/-! ## Prototypes -/

namespace Prototype

/-- Texts, lists and frames of the whole tree have sizes that fit four bytes. -/
def Compact (prototype : Prototype) : Prop :=
  ∀ function : Prototype, function.Within prototype →
    function.Fits ∧ function.stackSize < 2 ^ 32

variable {prototype : Prototype}

theorem Compact.reads_back (compact : prototype.Compact) :
    Stream.decode (Stream.encode prototype) = .ok prototype := by
  obtain ⟨reader, read⟩ :=
    Stream.stream_encode_append (fun function inside => (compact function inside).1) []
  have small := narrowed_eq_self_iff prototype |>.mpr fun function inside =>
    (compact function inside).2
  rw [List.append_nil] at read
  rw [Stream.decode, read, small]
  rfl

/-- A verified prototype loads in every machine, into a closure whose body is this prototype
again. -/
theorem loadFunction_eq_ok (verified : prototype.verify = .ok ()) (machine : Machine) :
    ∃ ref next cells, Exec.loadFunction prototype machine = .ok (.closure ref) next ∧
      next.heap.get ref = (⟨Routine.load prototype, cells⟩ : Closure) ∧
      cells.size = prototype.captures.size := by
  have closes := Exec.closureOver_eq_ok (Routine.load prototype) machine
  rwa [Routine.captures_load, ← Exec.loadFunction_eq verified] at closes

/-- Loading a verified prototype and going back gives the prototype.  Without captured variables
the loaded closure is saved as the stream of the prototype; with some it is not saved.  The stream
of a compact prototype loads in every machine, into a closure over the same prototype, which is
saved as the same stream. -/
theorem saved_is_source (prototype : Prototype) (verified : prototype.verify = .ok ()) :
    ((Routine.load prototype).toPrototype = prototype ∧
      ∀ hash interner, ∀ literal ∈ prototype.literals,
        (literal.intern hash interner).1 = literal.toValue ∧
        (literal.intern hash interner).1.toLiteral = literal) ∧
    (∀ machine, ∃ ref next, Exec.loadFunction prototype machine = .ok (.closure ref) next ∧
      (prototype.captures.size = 0 →
        Exec.saveClosure (.closure ref) next = .ok (Stream.encode prototype) next) ∧
      (prototype.captures.size ≠ 0 → ∃ fault last,
        Exec.saveClosure (.closure ref) next = .error (.raised fault) last ∧
        fault.family = .structural)) ∧
    (prototype.Compact → ∀ machine, ∃ ref next,
      Exec.loadClosure (Stream.encode prototype) machine = .ok (.closure ref) next ∧
      (next.heap.get ref : Closure).routine.toPrototype = prototype ∧
      (prototype.captures.size = 0 →
        Exec.saveClosure (.closure ref) next = .ok (Stream.encode prototype) next)) := by
  have returns := Routine.toPrototype_load prototype (accepted_of_verify verified)
  have saves {ref : Ref .closure} {cells : Array (Ref .cell)} {next : Machine}
      (here : next.heap.get ref = (⟨Routine.load prototype, cells⟩ : Closure))
      (plain : cells.size = 0) :
      Exec.saveClosure (.closure ref) next = .ok (Stream.encode prototype) next := by
    rw [Exec.saveClosure_eq_ok here plain, returns]
  refine ⟨⟨returns, fun hash interner literal _ => ?_⟩, fun machine => ?_,
    fun compact machine => ?_⟩
  · rw [Literal.intern_eq]
    exact ⟨rfl, literal.toLiteral_toValue⟩
  · obtain ⟨ref, next, cells, loads, here, size⟩ := loadFunction_eq_ok verified machine
    refine ⟨ref, next, loads, fun plain => saves here (size.trans plain), fun captures => ?_⟩
    exact ⟨_, _, Exec.saveClosure_eq_error here (size ▸ captures), rfl⟩
  · obtain ⟨ref, next, cells, loads, here, size⟩ := loadFunction_eq_ok verified machine
    refine ⟨ref, next, ?_, ?_, fun plain => saves here (size.trans plain)⟩
    · rw [Exec.loadClosure, compact.reads_back]
      exact loads
    · rw [here]
      exact returns

/-- A program with a text beyond ASCII, a float that is no number and a nested function. -/
def greeting : Prototype :=
  { name := "main"
    literals := #[.string "größe 𝄞", .float ⟨0x7FF8000000000001⟩, .null]
    parameters := #["this"]
    stackSize := 3
    lines := #[⟨1, 0⟩]
    code := #[⟨.load, 1, 0, 0, 0⟩, ⟨.closure, 2, 0, 0, 0⟩, ⟨.ret, 1, 0, 0, 0⟩]
    functions := [{ name := "inner", captures := #[⟨"x", .register 1⟩], stackSize := 1 }] }

theorem saved_is_source_greeting :
    greeting.verify = .ok () ∧ (Routine.load greeting).toPrototype = greeting ∧
      greeting.Compact ∧ ∃ ref next,
        Exec.loadClosure (Stream.encode greeting) default = .ok (.closure ref) next ∧
        Exec.saveClosure (.closure ref) next = .ok (Stream.encode greeting) next := by
  have verified : greeting.verify = .ok () := by rfl
  have compact : greeting.Compact := by
    rw [Compact, forall_within]
    refine ⟨⟨?_, by decide⟩, ?_⟩
    · constructor <;> simp [greeting, Literal.Fits] <;> decide
    · intro nested member
      obtain rfl := List.mem_singleton.mp member
      rw [forall_within]
      refine ⟨⟨?_, by decide⟩, by simp⟩
      constructor <;> simp [Capture.Fits, CaptureSource.Fits] <;> decide
  obtain ⟨⟨returns, -⟩, -, loads⟩ := saved_is_source greeting verified
  obtain ⟨ref, next, loaded, -, saved⟩ := loads compact default
  exact ⟨verified, returns, compact, ref, next, loaded, saved rfl⟩

end Prototype

end ScriptMachine
