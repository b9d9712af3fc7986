import ScriptMachine.Proofs.Heap.Content
import ScriptMachine.Proofs.Machine.Soundness
import ScriptMachine.Proofs.Machine.Services

/-!
# Faults and traps in the order of events

A fault that is raised while a trap is live is caught by the innermost one, and nothing else happens
before that, except that the creation of a closure may put another fault in its place.  `Orderly`
says so of the incidents of an entry, the last one first: at most one fault is pending at a time.
What happens in a thread or in an error handler that the entry starts is orderly by itself; a fault
that leaves it has met no live trap there.
-/

namespace ScriptMachine

/-! ## What a fault leaves -/

/-- The fault makes its way from here. -/
def Occurrence.begins : Occurrence → Bool
  | .raised | .replaced _ | .surfaced => true
  | .caught _ | .reported => false

/-- The fiber is suspended, and all its traps belong to the run loop that has been suspended, whose
first frame is the first of the fiber. -/
def Fiber.Dormant (fiber : Fiber) : Prop :=
  fiber.state = .suspended ∧ ∀ trap ∈ fiber.traps, ∀ index frame, 0 < index → index ≤ trap.frame →
    fiber.stack.frames[index]? = some frame → frame.isRoot = false

/-- One past the last register of the frame below a depth that the window above leaves alone. -/
def Stack.reach (stack : Stack) : Nat → Nat
  | 0 => 0
  | index + 1 =>
    (stack.frames[index]?).elim 0 fun frame =>
      (stack.frames[index + 1]?).elim frame.top fun above => min frame.top above.base

theorem Stack.reach_succ_le_top {stack : Stack} {index : Nat} {frame : Frame}
    (found : stack.frames[index]? = some frame) : stack.reach (index + 1) ≤ frame.top := by
  rw [reach, found, Option.elim_some]
  cases stack.frames[index + 1]? with
  | none => exact Nat.le_refl _
  | some above => exact Nat.min_le_left _ _

theorem Stack.reach_le_base {stack : Stack} {index : Nat} {above : Frame}
    (found : stack.frames[index]? = some above) : stack.reach index ≤ above.base := by
  cases index with
  | zero => exact Nat.zero_le _
  | succ index =>
      rw [reach, found]
      cases stack.frames[index]? with
      | none => exact Nat.zero_le _
      | some frame => exact Nat.min_le_right _ _

/-- Fewer frames reach no further. -/
theorem Stack.reach_mono {stack : Stack} (stacked : Stacked stack.frames) {low high : Nat}
    (le : low ≤ high) (deep : high ≤ stack.depth) : stack.reach low ≤ stack.reach high := by
  rcases Nat.eq_or_lt_of_le le with rfl | lt
  · exact Nat.le_refl _
  · have within : low < stack.frames.size := Nat.lt_of_lt_of_le lt deep
    have outer : stack.frames[low]? = some stack.frames[low] := Array.getElem?_eq_getElem within
    refine Nat.le_trans (reach_le_base outer) ?_
    obtain ⟨index, rfl⟩ : ∃ index, high = index + 1 := ⟨high - 1, by omega⟩
    have inside : index < stack.frames.size := deep
    have inner : stack.frames[index]? = some stack.frames[index] := Array.getElem?_eq_getElem inside
    have base := stacked low index _ _ (by omega) outer inner
    have top := Nat.le_trans base (Nat.le_add_right _ stack.frames[index].closure.routine.stackSize)
    rw [reach, inner, Option.elim_some]
    cases found : stack.frames[index + 1]? with
    | none => exact top
    | some above =>
        exact Nat.le_min.mpr ⟨top, stacked low (index + 1) _ _ (by omega) outer found⟩

namespace Incident

/-- Frames have been given up since the fault was raised, and nothing else has happened: the rest is
as it was. -/
structure Remains (raised : Incident) (machine : Machine) : Prop where
  /-- The windows lay one above the other. -/
  stacked : Stacked raised.fiber.stack.frames
  /-- The frames that are left are the same. -/
  frames : ∀ index < machine.fiber.stack.depth,
    machine.fiber.stack.frames[index]? = raised.fiber.stack.frames[index]?
  /-- The traps are the same, unless nothing can catch the fault. -/
  traps : raised.fault.isFatal = false → machine.fiber.traps = raised.fiber.traps
  /-- The registers of the current frame are the same as far as no window lay above them. -/
  registers : ∀ place < raised.fiber.stack.reach machine.fiber.stack.depth,
    machine.fiber.stack.get place = raised.fiber.stack.get place
  /-- The generators are the same, or have ended. -/
  generators : ∀ ref : Ref .generator, machine.heap.get? ref = raised.heap.get? ref ∨
    machine.heap.get? ref = (raised.heap.get? ref).map Generator.killed
  /-- The generators of the frames that are gone have ended. -/
  ended : ∀ index frame ref, machine.fiber.stack.depth ≤ index →
    raised.fiber.stack.frames[index]? = some frame → frame.generator = some ref →
    machine.heap.get? ref = (raised.heap.get? ref).map Generator.killed
  /-- The fiber is suspended only if it was. -/
  suspended : machine.fiber.state = .suspended → raised.fiber.state = .suspended

/-- A trap has caught the fault. -/
structure Resumes (raised : Incident) (trap : Trap) (caught : Incident) : Prop where
  /-- It was the innermost one, and it alone is gone. -/
  traps : raised.fiber.traps = trap :: caught.fiber.traps
  /-- It has caught the same fault. -/
  fault : caught.fault = raised.fault
  /-- Exactly the frames above the one with the trap are gone. -/
  depth : caught.fiber.stack.depth = trap.frame + 1
  /-- The frames below it are the same. -/
  below : ∀ index < trap.frame,
    caught.fiber.stack.frames[index]? = raised.fiber.stack.frames[index]?
  /-- The frame goes on at the handler, with the error in a register.  All other registers are the
  same as far as no window lay above them. -/
  resumed : ∃ frame, raised.fiber.stack.frames[trap.frame]? = some frame ∧
    caught.fiber.stack.frames[trap.frame]? = some { frame with ip := trap.ip } ∧
    caught.fiber.stack.get (frame.base + trap.target.toNat) = raised.fault.toValue ∧
    ∀ place < raised.fiber.stack.reach (trap.frame + 1), place ≠ frame.base + trap.target.toNat →
      caught.fiber.stack.get place = raised.fiber.stack.get place
  /-- The generators of the frames that are gone have ended, and are dead. -/
  ended : ∀ index frame ref, trap.frame < index →
    raised.fiber.stack.frames[index]? = some frame → frame.generator = some ref →
    caught.heap.get? ref = (raised.heap.get? ref).map Generator.killed

/-- No trap could catch the fault: it is fatal, there was no trap, or all traps belong to frames
that were suspended. -/
def Escapes (raised : Incident) : Prop :=
  raised.fault.isFatal = true ∨ raised.fiber.traps = [] ∨ raised.fiber.Dormant

/-- What happens next answers the fault: the innermost trap catches it, or the creation of a closure
puts another fault in its place. -/
def Answers (next raised : Incident) : Prop :=
  next.occurrence = .replaced raised.fault ∨
    ∃ trap, next.occurrence = .caught trap ∧ raised.Resumes trap next

variable {raised : Incident} {machine next : Machine}

theorem Remains.depth_le (remains : raised.Remains machine) :
    machine.fiber.stack.depth ≤ raised.fiber.stack.depth := by
  refine Nat.le_of_not_lt fun deeper => ?_
  have within : raised.fiber.stack.depth < machine.fiber.stack.frames.size := deeper
  have same := remains.frames _ within
  have absent : raised.fiber.stack.frames[raised.fiber.stack.depth]? = none :=
    Array.getElem?_eq_none (Nat.le_refl _)
  rw [Array.getElem?_eq_getElem within, absent] at same
  exact absurd same (by simp)

theorem Remains.escapes (remains : raised.Remains machine) (traps : machine.fiber.traps = []) :
    raised.Escapes := by
  cases fatal : raised.fault.isFatal with
  | true => exact .inl fatal
  | false => exact .inr (.inl ((remains.traps fatal).symm.trans traps))

/-- Registers beyond the window of the current frame may be dropped or added. -/
theorem Remains.same (remains : raised.Remains machine)
    (frames : next.fiber.stack.frames = machine.fiber.stack.frames)
    (traps : next.fiber.traps = machine.fiber.traps)
    (registers : ∀ frame, machine.fiber.stack.current? = some frame → ∀ place < frame.top,
      next.fiber.stack.get place = machine.fiber.stack.get place)
    (heap : next.heap = machine.heap)
    (state : next.fiber.state = .suspended → machine.fiber.state = .suspended) :
    raised.Remains next := by
  have depth : next.fiber.stack.depth = machine.fiber.stack.depth := congrArg Array.size frames
  refine ⟨remains.stacked, ?_, ?_, ?_, heap ▸ remains.generators, ?_,
    fun suspended => remains.suspended (state suspended)⟩
  · rw [depth, frames]
    exact remains.frames
  · rw [traps]
    exact remains.traps
  · intro place low
    rw [depth] at low
    rw [← remains.registers place low]
    cases count : machine.fiber.stack.depth with
    | zero =>
        rw [count] at low
        exact absurd low (Nat.not_lt_zero _)
    | succ index =>
        have within : index < machine.fiber.stack.frames.size :=
          Nat.lt_of_lt_of_eq (Nat.lt_succ_self index) count.symm
        have current : machine.fiber.stack.current? = some machine.fiber.stack.frames[index] := by
          rw [Stack.current?, Array.back?_eq_getElem?, ← Array.getElem?_eq_getElem within]
          exact congrArg (machine.fiber.stack.frames[·]?) (by rw [Stack.depth] at count; omega)
        refine registers _ current place (Nat.lt_of_lt_of_le low ?_)
        rw [count]
        refine Stack.reach_succ_le_top ?_
        rw [← remains.frames index within, Array.getElem?_eq_getElem within]
  · rw [depth, heap]
    exact remains.ended

theorem Remains.kill (remains : raised.Remains machine) (ref : Ref .generator) :
    raised.Remains { machine with heap := machine.heap.modify ref Generator.killed } where
  stacked := remains.stacked
  frames := remains.frames
  traps := remains.traps
  registers := remains.registers
  generators other := by
    show (machine.heap.modify ref Generator.killed).get? other = _ ∨
      (machine.heap.modify ref Generator.killed).get? other = _
    rw [Heap.get?_modify]
    split
    · refine .inr ?_
      rcases remains.generators other with same | ended
      · rw [same]
      · rw [ended, Option.map_map]
        rfl
    · exact remains.generators other
  ended index frame other high found runs := by
    show (machine.heap.modify ref Generator.killed).get? other = _
    rw [Heap.get?_modify, remains.ended index frame other high found runs]
    split
    · rw [Option.map_map]
      rfl
    · rfl
  suspended := remains.suspended

end Incident

/-! ## Order -/

/-- The incidents of an entry are in order, and a fault may be pending.  So many fibers wait for the
one that has been entered, and so many error handlers are being run. -/
inductive Orderly : (level reporting : Nat) → List Incident → Option Incident → Prop
  /-- Nothing has happened. -/
  | nil {level reporting : Nat} : Orderly level reporting [] none
  /-- A fault is raised. -/
  | raised {level reporting : Nat} {log : List Incident} {raised : Incident} :
      Orderly level reporting log none → raised.occurrence = .raised → raised.level = level →
      raised.reporting = reporting → Orderly level reporting (raised :: log) (some raised)
  /-- A fault is raised in the place of the pending one, which has been raised last. -/
  | replaced {level reporting : Nat} {log : List Incident} {raised other : Incident} :
      Orderly level reporting log (some raised) → log.head? = some raised →
      other.occurrence = .replaced raised.fault → other.level = level →
      other.reporting = reporting → Orderly level reporting (other :: log) (some other)
  /-- The innermost trap catches the pending fault, which has been raised last. -/
  | caught {level reporting : Nat} {log : List Incident} {raised caught : Incident} {trap : Trap} :
      Orderly level reporting log (some raised) → log.head? = some raised →
      caught.occurrence = .caught trap → raised.Resumes trap caught → caught.level = level →
      caught.reporting = reporting → Orderly level reporting (caught :: log) none
  /-- A thread is run. -/
  | thread {level reporting : Nat} {log inner : List Incident} :
      Orderly level reporting log none → Orderly (level + 1) reporting inner none →
      Orderly level reporting (inner ++ log) none
  /-- A thread is run, and a fault leaves it that no trap of the thread could catch. -/
  | surfaced {level reporting : Nat} {log inner : List Incident} {raised other : Incident} :
      Orderly level reporting log none → Orderly (level + 1) reporting inner (some raised) →
      raised.Escapes → other.occurrence = .surfaced → other.fault = raised.fault →
      other.level = level → other.reporting = reporting →
      Orderly level reporting (other :: inner ++ log) (some other)
  /-- An error handler is told of the pending fault, which no trap could catch; its own fault is
  dropped. -/
  | handler {level reporting : Nat} {log inner : List Incident} {raised told : Incident}
      {pending : Option Incident} :
      Orderly level reporting log (some raised) → raised.Escapes → told.occurrence = .reported →
      told.fault = raised.fault → told.level = level → told.reporting = reporting →
      Orderly level (reporting + 1) inner pending →
      (∀ raised, pending = some raised → raised.Escapes) →
      Orderly level reporting (inner ++ told :: log) (some raised)

namespace Orderly

variable {level reporting : Nat} {first second log : List Incident} {pending : Option Incident}
  {raised : Incident}

theorem ne_nil (orderly : Orderly level reporting log (some raised)) : log ≠ [] := by
  cases orderly with
  | raised | replaced | surfaced => exact List.cons_ne_nil _ _
  | handler => simp

theorem head?_append (orderly : Orderly level reporting first (some raised))
    (latest : (first ++ second).head? = some raised) : first.head? = some raised := by
  cases first with
  | nil => exact absurd rfl orderly.ne_nil
  | cons next rest => exact latest

theorem trans (begun : Orderly level reporting first none)
    (ended : Orderly level reporting second pending) :
    Orderly level reporting (second ++ first) pending := by
  have moved : ∀ {log : List Incident} {raised : Incident}, log.head? = some raised →
      (log ++ first).head? = some raised := fun latest => by
    rw [List.head?_append, latest]
    rfl
  induction ended with
  | nil => exact begun
  | raised _ occurrence own order ih => exact .raised (ih begun) occurrence own order
  | replaced _ latest occurrence own order ih =>
      exact .replaced (ih begun) (moved latest) occurrence own order
  | caught _ latest occurrence resumes own order ih =>
      exact .caught (ih begun) (moved latest) occurrence resumes own order
  | thread _ inner ih =>
      rw [List.append_assoc]
      exact .thread (ih begun) inner
  | surfaced _ inner escapes occurrence fault own order ih =>
      rw [List.append_assoc]
      exact .surfaced (ih begun) inner escapes occurrence fault own order
  | handler _ met occurrence fault own order inner escapes ih =>
      rw [List.append_assoc, List.cons_append]
      exact .handler (ih begun) met occurrence fault own order inner escapes

/-- The incidents of an entry happen while no fewer error handlers are being run. -/
theorem reporting_le (orderly : Orderly level reporting log pending) :
    ∀ incident ∈ log, reporting ≤ incident.reporting := by
  induction orderly with
  | nil => simp
  | raised _ _ _ order ih | replaced _ _ _ _ order ih | caught _ _ _ _ _ order ih =>
      intro incident member
      rcases List.mem_cons.mp member with rfl | member
      · exact Nat.le_of_eq order.symm
      · exact ih incident member
  | thread _ _ ih inner =>
      intro incident member
      rcases List.mem_append.mp member with member | member
      · exact inner incident member
      · exact ih incident member
  | surfaced _ _ _ _ _ _ order ih inner =>
      intro incident member
      rcases List.mem_append.mp member with member | member
      · rcases List.mem_cons.mp member with rfl | member
        · exact Nat.le_of_eq order.symm
        · exact inner incident member
      · exact ih incident member
  | handler _ _ _ _ _ order _ _ ih inner =>
      intro incident member
      rcases List.mem_append.mp member with member | member
      · exact Nat.le_of_succ_le (inner incident member)
      · rcases List.mem_cons.mp member with rfl | member
        · exact Nat.le_of_eq order.symm
        · exact ih incident member

end Orderly

/-! ## Answers -/

theorem split_of_cons_eq {α : Type} {first item : α} {list later earlier : List α}
    (same : first :: list = later ++ item :: earlier) :
    later = [] ∧ item = first ∨ ∃ rest, later = first :: rest ∧ list = rest ++ item :: earlier := by
  cases later with
  | nil => exact .inl ⟨rfl, (List.cons.inj same).1.symm⟩
  | cons next rest =>
      obtain ⟨rfl, older⟩ := List.cons.inj same
      exact .inr ⟨rest, rfl, older⟩

theorem split_of_append_eq {α : Type} {item : α} {front list later earlier : List α}
    (same : front ++ list = later ++ item :: earlier) :
    (∃ rest, front = later ++ item :: rest) ∨
      ∃ rest, later = front ++ rest ∧ list = rest ++ item :: earlier := by
  induction front generalizing later with
  | nil => exact .inr ⟨later, rfl, same⟩
  | cons first front ih =>
      rcases split_of_cons_eq same with ⟨rfl, rfl⟩ | ⟨rest, rfl, older⟩
      · exact .inl ⟨front, rfl⟩
      · rcases ih older with ⟨later, rfl⟩ | ⟨later, rfl, last⟩
        · exact .inl ⟨later, rfl⟩
        · exact .inr ⟨later, rfl, last⟩

/-- What has happened next after a fault answers it. -/
def Incident.Answered (raised : Incident) (later : List Incident) : Prop :=
  ∃ next, later.getLast? = some next ∧ next.Answers raised

theorem Incident.Answered.append {raised : Incident} {later : List Incident}
    (answered : raised.Answered later) (front : List Incident) :
    raised.Answered (front ++ later) := by
  obtain ⟨next, last, answers⟩ := answered
  refine ⟨next, ?_, answers⟩
  rw [List.getLast?_append, last]
  rfl

/-- The fault has been answered, or it has left the thread in which it was raised. -/
def Incident.Dealt (raised : Incident) (later : List Incident) : Prop :=
  raised.Answered later ∨ ∃ next ∈ later, next.occurrence = .surfaced ∧
    next.fault = raised.fault ∧ next.level + 1 = raised.level

theorem Incident.Dealt.append {raised : Incident} {later : List Incident}
    (dealt : raised.Dealt later) (front : List Incident) : raised.Dealt (front ++ later) := by
  rcases dealt with answered | ⟨next, member, left⟩
  · exact .inl (answered.append front)
  · exact .inr ⟨next, List.mem_append_right front member, left⟩

/-- Every fault that a live trap could catch has been answered at once. -/
def Settled (log : List Incident) : Prop :=
  ∀ later raised earlier, log = later ++ raised :: earlier → raised.occurrence.begins = true →
    ¬raised.Escapes → raised.Answered later

theorem settled_nil : Settled [] :=
  fun _ _ _ same => absurd same (by simp)

theorem Settled.append {first second : List Incident} (later : Settled second)
    (earlier : Settled first) : Settled (second ++ first) := by
  intro front raised rest same begins meets
  rcases split_of_append_eq same with ⟨rest, rfl⟩ | ⟨between, rfl, older⟩
  · exact later front raised rest rfl begins meets
  · exact (earlier between raised rest older begins meets).append second

theorem Settled.cons {log : List Incident} (settled : Settled log) {told : Incident}
    (occurrence : told.occurrence.begins = false) : Settled (told :: log) := by
  intro later raised earlier same begins meets
  rcases split_of_cons_eq same with ⟨rfl, rfl⟩ | ⟨rest, rfl, older⟩
  · exact absurd (occurrence.symm.trans begins) Bool.false_ne_true
  · exact (settled rest raised earlier older begins meets).append [told]

namespace Orderly

variable {level reporting : Nat} {log : List Incident} {pending : Option Incident}
  {raised : Incident}

theorem answered_or_pending (orderly : Orderly level reporting log pending) :
    ∀ later raised earlier, log = later ++ raised :: earlier → raised.occurrence.begins = true →
      ¬raised.Escapes → raised.Answered later ∨ pending = some raised ∧ later = [] := by
  induction orderly with
  | nil => exact fun _ _ _ same => absurd same (by simp)
  | raised _ _ _ _ ih =>
      intro later raised earlier same begins meets
      rcases split_of_cons_eq same with ⟨rfl, rfl⟩ | ⟨rest, rfl, older⟩
      · exact .inr ⟨rfl, rfl⟩
      · have answered := (ih rest raised earlier older begins meets).resolve_right (by simp)
        exact .inl (answered.append [_])
  | replaced _ _ occurrence _ _ ih =>
      intro later raised earlier same begins meets
      rcases split_of_cons_eq same with ⟨rfl, rfl⟩ | ⟨rest, rfl, older⟩
      · exact .inr ⟨rfl, rfl⟩
      · rcases ih rest raised earlier older begins meets with answered | ⟨pending, rfl⟩
        · exact .inl (answered.append [_])
        · obtain rfl := Option.some.inj pending
          exact .inl ⟨_, rfl, .inl occurrence⟩
  | caught _ _ occurrence resumes _ _ ih =>
      intro later raised earlier same begins meets
      rcases split_of_cons_eq same with ⟨rfl, rfl⟩ | ⟨rest, rfl, older⟩
      · rw [occurrence] at begins
        exact absurd begins Bool.false_ne_true
      · rcases ih rest raised earlier older begins meets with answered | ⟨pending, rfl⟩
        · exact .inl (answered.append [_])
        · obtain rfl := Option.some.inj pending
          exact .inl ⟨_, rfl, .inr ⟨_, occurrence, resumes⟩⟩
  | thread _ _ ih inner =>
      intro later raised earlier same begins meets
      rcases split_of_append_eq same with ⟨rest, inside⟩ | ⟨rest, rfl, older⟩
      · exact .inl ((inner later raised rest inside begins meets).resolve_right (by simp))
      · have answered := (ih rest raised earlier older begins meets).resolve_right (by simp)
        exact .inl (answered.append _)
  | surfaced _ _ escapes _ _ _ _ ih inner =>
      intro later raised earlier same begins meets
      rcases split_of_append_eq same with ⟨rest, inside⟩ | ⟨rest, rfl, older⟩
      · rcases split_of_cons_eq inside with ⟨rfl, rfl⟩ | ⟨later, rfl, older⟩
        · exact .inr ⟨rfl, rfl⟩
        · rcases inner later raised rest older begins meets with answered | ⟨pending, _⟩
          · exact .inl (answered.append [_])
          · exact absurd (Option.some.inj pending ▸ escapes) meets
      · have answered := (ih rest raised earlier older begins meets).resolve_right (by simp)
        exact .inl (answered.append _)
  | handler _ escapes occurrence _ _ _ _ dropped ih inner =>
      intro later raised earlier same begins meets
      rcases split_of_append_eq same with ⟨rest, inside⟩ | ⟨rest, rfl, older⟩
      · rcases inner later raised rest inside begins meets with answered | ⟨pending, _⟩
        · exact .inl answered
        · exact absurd (dropped raised pending) meets
      · rcases split_of_cons_eq older with ⟨_, rfl⟩ | ⟨later, rfl, oldest⟩
        · rw [occurrence] at begins
          exact absurd begins Bool.false_ne_true
        · rcases ih later raised earlier oldest begins meets with answered | ⟨pending, _⟩
          · exact .inl ((answered.append [_]).append _)
          · exact absurd (Option.some.inj pending ▸ escapes) meets

theorem settled (orderly : Orderly level reporting log pending)
    (escapes : ∀ raised, pending = some raised → raised.Escapes) : Settled log := by
  intro later raised earlier same begins meets
  rcases orderly.answered_or_pending later raised earlier same begins meets with answered | met
  · exact answered
  · exact absurd (escapes raised met.1) meets

theorem own (orderly : Orderly level reporting log (some raised)) :
    raised.occurrence.begins = true ∧ raised.level = level ∧ raised.reporting = reporting := by
  generalize same : some raised = pending at orderly
  induction orderly with
  | nil | caught | thread => exact absurd same (by simp)
  | raised _ occurrence own order | surfaced _ _ _ occurrence _ own order =>
      obtain rfl := Option.some.inj same
      exact ⟨by rw [occurrence]; rfl, own, order⟩
  | replaced _ _ occurrence own order =>
      obtain rfl := Option.some.inj same
      exact ⟨by rw [occurrence]; rfl, own, order⟩
  | handler _ _ _ _ _ _ _ _ ih => exact ih same

/-- An incident that follows the pending fault when it is answered would be the fault itself. -/
theorem eq_nil_of_latest {later earlier : List Incident} (head : log.head? = some raised)
    (same : log = later ++ raised :: earlier) (begins : raised.occurrence.begins = true)
    (own : raised.reporting = reporting)
    (others : ∀ other ∈ later, reporting < other.reporting ∨ other.occurrence = .reported) :
    later = [] := by
  cases later with
  | nil => rfl
  | cons first rest =>
      rw [same, List.cons_append, List.head?_cons] at head
      obtain rfl := Option.some.inj head
      rcases others first (by simp) with more | told
      · exact absurd own (Nat.ne_of_gt more)
      · rw [told] at begins
        exact absurd begins Bool.false_ne_true

/-- What becomes of a fault that no error handler raises: it is dealt with, or it is the pending
one, of which at most an error handler is told. -/
theorem dealt_or_pending (orderly : Orderly level reporting log pending) :
    ∀ later raised earlier, log = later ++ raised :: earlier → raised.occurrence.begins = true →
      raised.reporting = reporting →
      raised.Dealt later ∨ pending = some raised ∧
        ∀ other ∈ later, reporting < other.reporting ∨ other.occurrence = .reported := by
  induction orderly with
  | nil => exact fun _ _ _ same => absurd same (by simp)
  | raised _ _ _ _ ih =>
      intro later raised earlier same begins own
      rcases split_of_cons_eq same with ⟨rfl, rfl⟩ | ⟨rest, rfl, older⟩
      · exact .inr ⟨rfl, by simp⟩
      · rcases ih rest raised earlier older begins own with dealt | ended
        · exact .inl (dealt.append [_])
        · exact absurd ended.1 (by simp)
  | replaced _ head occurrence _ _ ih =>
      intro later raised earlier same begins own
      rcases split_of_cons_eq same with ⟨rfl, rfl⟩ | ⟨rest, rfl, older⟩
      · exact .inr ⟨rfl, by simp⟩
      · rcases ih rest raised earlier older begins own with dealt | ended
        · exact .inl (dealt.append [_])
        · obtain rfl := Option.some.inj ended.1
          obtain rfl := eq_nil_of_latest head older begins own ended.2
          exact .inl (.inl ⟨_, rfl, .inl occurrence⟩)
  | caught _ head occurrence resumes _ _ ih =>
      intro later raised earlier same begins own
      rcases split_of_cons_eq same with ⟨rfl, rfl⟩ | ⟨rest, rfl, older⟩
      · rw [occurrence] at begins
        exact absurd begins Bool.false_ne_true
      · rcases ih rest raised earlier older begins own with dealt | ended
        · exact .inl (dealt.append [_])
        · obtain rfl := Option.some.inj ended.1
          obtain rfl := eq_nil_of_latest head older begins own ended.2
          exact .inl (.inl ⟨_, rfl, .inr ⟨_, occurrence, resumes⟩⟩)
  | thread _ _ ih inner =>
      intro later raised earlier same begins own
      rcases split_of_append_eq same with ⟨rest, inside⟩ | ⟨rest, rfl, older⟩
      · rcases inner later raised rest inside begins own with dealt | ended
        · exact .inl dealt
        · exact absurd ended.1 (by simp)
      · rcases ih rest raised earlier older begins own with dealt | ended
        · exact .inl (dealt.append _)
        · exact absurd ended.1 (by simp)
  | surfaced _ thread _ occurrence fault level _ ih inner =>
      intro later raised earlier same begins own
      rcases split_of_append_eq same with ⟨rest, inside⟩ | ⟨rest, rfl, older⟩
      · rcases split_of_cons_eq inside with ⟨rfl, rfl⟩ | ⟨later, rfl, older⟩
        · exact .inr ⟨rfl, by simp⟩
        · rcases inner later raised rest older begins own with dealt | ended
          · exact .inl (dealt.append [_])
          · obtain rfl := Option.some.inj ended.1
            refine .inl (.inr ⟨_, List.mem_cons_self, occurrence, fault, ?_⟩)
            rw [level, thread.own.2.1]
      · rcases ih rest raised earlier older begins own with dealt | ended
        · exact .inl (dealt.append _)
        · exact absurd ended.1 (by simp)
  | handler _ _ occurrence _ _ _ handled _ ih _ =>
      intro later raised earlier same begins own
      rcases split_of_append_eq same with ⟨rest, inside⟩ | ⟨rest, rfl, older⟩
      · have more := handled.reporting_le raised (by simp [inside])
        exact absurd own (Nat.ne_of_gt more)
      · rcases split_of_cons_eq older with ⟨_, rfl⟩ | ⟨later, rfl, oldest⟩
        · rw [occurrence] at begins
          exact absurd begins Bool.false_ne_true
        · rcases ih later raised earlier oldest begins own with dealt | ended
          · exact .inl ((dealt.append [_]).append _)
          · refine .inr ⟨ended.1, fun other member => ?_⟩
            rcases List.mem_append.mp member with inside | member
            · exact .inl (handled.reporting_le other inside)
            · rcases List.mem_cons.mp member with rfl | member
              · exact .inr occurrence
              · exact ended.2 other member

end Orderly

namespace Machine

/-- What has happened between two machines is in order, for a host that leaves faults alone. -/
def Logs (manners : Manners) (before : Machine) (pending : Option Incident) (after : Machine) :
    Prop :=
  manners.catches = false → ∃ added, after.incidents = added ++ before.incidents ∧
    Orderly before.waiting.length before.reporting added pending

/-- A fault has been raised last and is pending, for a host that leaves faults alone. -/
def Pends (manners : Manners) (before : Machine) (fault : Fault) (after : Machine) : Prop :=
  manners.catches = false → ∃ raised : Incident, before.Logs manners (some raised) after ∧
    raised.fault = fault ∧ raised.Remains after ∧ after.incidents.head? = some raised

variable {manners : Manners} {before machine after : Machine} {fault : Fault}

theorem logs_of_eq (same : after.incidents = before.incidents) : before.Logs manners none after :=
  fun _ => ⟨[], same, .nil⟩

theorem Logs.trans {pending : Option Incident} (begun : before.Logs manners none machine)
    (waiting : machine.waiting = before.waiting) (reporting : machine.reporting = before.reporting)
    (ended : machine.Logs manners pending after) : before.Logs manners pending after := by
  intro honest
  obtain ⟨first, joined, ordered⟩ := begun honest
  obtain ⟨second, further, orderly⟩ := ended honest
  refine ⟨second ++ first, ?_, ordered.trans ?_⟩
  · rw [further, joined, List.append_assoc]
  · rwa [waiting, reporting] at orderly

theorem Logs.same {pending : Option Incident} (logs : before.Logs manners pending machine)
    (same : after.incidents = machine.incidents) : before.Logs manners pending after := by
  intro honest
  obtain ⟨added, joined, orderly⟩ := logs honest
  exact ⟨added, same.trans joined, orderly⟩

theorem Pends.trans (begun : before.Logs manners none machine)
    (waiting : machine.waiting = before.waiting) (reporting : machine.reporting = before.reporting)
    (ended : machine.Pends manners fault after) : before.Pends manners fault after := by
  intro honest
  obtain ⟨raised, logs, rest⟩ := ended honest
  exact ⟨raised, begun.trans waiting reporting logs, rest⟩

/-- What a fault has left behind may be put right. -/
theorem Pends.settle (pends : before.Pends manners fault machine)
    (incidents : after.incidents = machine.incidents)
    (remains : ∀ raised : Incident, raised.Remains machine → raised.Remains after) :
    before.Pends manners fault after := by
  intro honest
  obtain ⟨raised, logs, same, remained, latest⟩ := pends honest
  exact ⟨raised, logs.same incidents, same, remains raised remained, incidents ▸ latest⟩

theorem Sound.remains (sound : machine.Sound) (occurrence : Occurrence) (fault : Fault) :
    (machine.incident occurrence fault).Remains (machine.note occurrence fault) where
  stacked := sound.fiber.activity.stacked
  frames _ _ := rfl
  traps _ := rfl
  registers _ _ := rfl
  generators _ := .inl rfl
  ended := by
    intro index frame ref high found
    have absent : machine.fiber.stack.frames[index]? = none := Array.getElem?_eq_none high
    exact absurd (absent.symm.trans found) (by simp)
  suspended := id

theorem Sound.pends (sound : machine.Sound) (fault : Fault) :
    machine.Pends manners fault (machine.record fault) := fun _ =>
  ⟨machine.incident .raised fault, fun _ => ⟨[_], rfl, .raised .nil rfl rfl rfl⟩, rfl,
    sound.remains .raised fault, rfl⟩

end Machine

end ScriptMachine
