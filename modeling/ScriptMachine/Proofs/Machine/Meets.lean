import ScriptMachine.Machine.Exec

/-!
# What computations lead to

`Exec.Meets` says what a computation leads to from a machine: one condition for its result, one for
a fault and one for the machine in which it is cut short.  Computations in sequence meet conditions
that meet in the middle.
-/

namespace ScriptMachine.Exec

variable {α β : Type}

/-- What a computation leads to from a machine. -/
def Meets (action : Exec α) (machine : Machine) (done : α → Machine → Prop)
    (failed : Fault → Machine → Prop) (cut : Machine → Prop) : Prop :=
  match action machine with
  | .ok value next => done value next
  | .error (.raised fault) next => failed fault next
  | .error .exhausted next => cut next

variable {machine next : Machine} {done : α → Machine → Prop} {failed : Fault → Machine → Prop}
  {cut : Machine → Prop}

theorem Meets.mono {action : Exec α} (meets : action.Meets machine done failed cut)
    {done' : α → Machine → Prop} {failed' : Fault → Machine → Prop} {cut' : Machine → Prop}
    (whenDone : ∀ value next, done value next → done' value next)
    (whenFailed : ∀ fault next, failed fault next → failed' fault next)
    (whenCut : ∀ next, cut next → cut' next) : action.Meets machine done' failed' cut' := by
  rw [Meets] at meets ⊢
  cases result : action machine with
  | ok value next =>
      rw [result] at meets
      exact whenDone value next meets
  | error stop next =>
      rw [result] at meets
      cases stop with
      | raised fault => exact whenFailed fault next meets
      | exhausted => exact whenCut next meets

theorem Meets.of_ok {action : Exec α} (meets : action.Meets machine done failed cut) {value : α}
    (result : action machine = .ok value next) : done value next := by
  rw [Meets, result] at meets
  exact meets

theorem Meets.of_cut {action : Exec α} (meets : action.Meets machine done failed cut)
    (short : action machine = .error .exhausted next) : cut next := by
  rw [Meets, short] at meets
  exact meets

/-- Whatever is known of a result can be added. -/
theorem Meets.and {action : Exec α} (meets : action.Meets machine done failed cut)
    {also : α → Machine → Prop}
    (holds : ∀ value next, action machine = .ok value next → also value next) :
    action.Meets machine (fun value next => done value next ∧ also value next) failed cut := by
  rw [Meets] at meets ⊢
  cases result : action machine with
  | ok value next =>
      rw [result] at meets
      exact ⟨meets, holds value next result⟩
  | error stop next =>
      rw [result] at meets
      cases stop with
      | raised fault => exact meets
      | exhausted => exact meets

theorem Meets.bind {action : Exec α} {following : α → Exec β} {done' : β → Machine → Prop}
    (meets : action.Meets machine done failed cut)
    (further : ∀ value next, done value next → (following value).Meets next done' failed cut) :
    (action >>= following).Meets machine done' failed cut := by
  rw [Meets] at meets ⊢
  show match EStateM.bind action following machine with
    | .ok value next => done' value next
    | .error (.raised fault) next => failed fault next
    | .error .exhausted next => cut next
  rw [EStateM.bind]
  cases result : action machine with
  | ok value next =>
      rw [result] at meets
      exact further value next meets
  | error stop next =>
      rw [result] at meets
      cases stop with
      | raised fault => exact meets
      | exhausted => exact meets

theorem bind_eq_ok {action : Exec α} {following : α → Exec β} {value : β}
    (done : (action >>= following) machine = .ok value next) :
    ∃ found between, action machine = .ok found between ∧
      following found between = .ok value next := by
  have done : EStateM.bind action following machine = .ok value next := done
  rw [EStateM.bind] at done
  cases result : action machine with
  | error stop between =>
      rw [result] at done
      exact absurd done (by simp)
  | ok found between =>
      rw [result] at done
      exact ⟨found, between, rfl, done⟩

theorem ok_bind {action : Exec β} {following : β → Exec α} {value : β}
    (result : action machine = .ok value next) :
    (action >>= following) machine = following value next := by
  show EStateM.bind action following machine = _
  rw [EStateM.bind, result]

theorem error_bind {action : Exec β} {following : β → Exec α} {stop : Stop}
    (result : action machine = .error stop next) :
    (action >>= following) machine = .error stop next := by
  show EStateM.bind action following machine = _
  rw [EStateM.bind, result]

theorem Meets.ok_bind {action : Exec β} {following : β → Exec α} {value : β}
    (result : action machine = .ok value next)
    (meets : (following value).Meets next done failed cut) :
    (action >>= following).Meets machine done failed cut := by
  rw [Meets, Exec.ok_bind result]
  exact meets

theorem Meets.get_bind {following : Machine → Exec α}
    (meets : (following machine).Meets machine done failed cut) :
    (get >>= following).Meets machine done failed cut := meets

theorem Meets.read_bind {kind : Kind} {ref : Ref kind} {following : Content kind → Exec α}
    (meets : (following (machine.heap.get ref)).Meets machine done failed cut) :
    (read ref >>= following).Meets machine done failed cut := meets

theorem Meets.ofFiber_bind {look : Fiber → β} {following : β → Exec α}
    (meets : (following (look machine.fiber)).Meets machine done failed cut) :
    (ofFiber look >>= following).Meets machine done failed cut := meets

/-- Where registers or frames have no room, the stack overflows. -/
theorem Meets.room_bind {room : Stack → Bool} {following : Unit → Exec α}
    (full : failed .stackOverflow (machine.record .stackOverflow))
    (meets : room machine.fiber.stack = true → (following ()).Meets machine done failed cut) :
    (requireRoom room >>= following).Meets machine done failed cut := by
  have asked : (requireRoom room).Meets machine
      (fun _ next => next = machine ∧ room machine.fiber.stack = true) failed cut := by
    rw [requireRoom]
    refine Meets.ofFiber_bind ?_
    split
    · rename_i has
      exact ⟨rfl, has⟩
    · exact full
  refine asked.bind fun _ next same => ?_
  obtain ⟨rfl, has⟩ := same
  exact meets has

theorem Meets.onFiber_bind {change : Fiber → Fiber} {following : Unit → Exec α}
    (meets : (following ()).Meets (machine.mapFiber change) done failed cut) :
    (onFiber change >>= following).Meets machine done failed cut := meets

theorem Meets.modify_bind {change : Machine → Machine} {following : Unit → Exec α}
    (meets : (following ()).Meets (change machine) done failed cut) :
    ((modify change : Exec Unit) >>= following).Meets machine done failed cut := meets

theorem Meets.attempt {action : Exec α} (meets : action.Meets machine done failed cut) :
    (Exec.attempt action).Meets machine
      (fun result next => match result with
        | .ok value => done value next
        | .error fault => failed fault next)
      (fun _ _ => False) cut := by
  rw [Meets] at meets ⊢
  rw [Exec.attempt]
  cases result : action machine with
  | ok value next =>
      rw [result] at meets
      exact meets
  | error stop next =>
      rw [result] at meets
      cases stop with
      | raised fault => exact meets
      | exhausted => exact meets

/-- A computation whose fault is looked at by what follows it. -/
theorem Meets.attempt_bind {action : Exec α} {following : Except Fault α → Exec β}
    {done' : β → Machine → Prop} {failed' : Fault → Machine → Prop}
    (meets : action.Meets machine done failed cut)
    (whenDone : ∀ value next, done value next →
      (following (.ok value)).Meets next done' failed' cut)
    (whenFailed : ∀ fault next, failed fault next →
      (following (.error fault)).Meets next done' failed' cut) :
    (Exec.attempt action >>= following).Meets machine done' failed' cut := by
  refine (meets.attempt.mono (fun _ _ => id) (fun _ _ => False.elim) fun _ => id).bind
    fun result next held => ?_
  cases result with
  | ok value => exact whenDone value next held
  | error fault => exact whenFailed fault next held

theorem Meets.map {action : Exec α} {image : α → β} {done : β → Machine → Prop}
    (meets : action.Meets machine (fun value => done (image value)) failed cut) :
    (image <$> action).Meets machine done failed cut := by
  have same : image <$> action = action >>= fun value => Pure.pure (image value) :=
    map_eq_pure_bind ..
  rw [same]
  exact meets.bind fun _ _ => id

/-- A computation whose fault and result are dropped. -/
theorem Meets.discard_attempt_bind {action : Exec α} {following : Unit → Exec β}
    {done' : β → Machine → Prop} {failed' : Fault → Machine → Prop}
    (meets : action.Meets machine done failed cut)
    (whenDone : ∀ value next, done value next → (following ()).Meets next done' failed' cut)
    (whenFailed : ∀ fault next, failed fault next → (following ()).Meets next done' failed' cut) :
    (discard (Exec.attempt action) >>= following).Meets machine done' failed' cut := by
  have ends : ((fun _ => ()) <$> Exec.attempt action).Meets machine
      (fun _ next => (following ()).Meets next done' failed' cut) failed' cut := by
    refine (meets.attempt.mono (fun result next held => ?_) (fun _ _ => False.elim)
      fun _ => id).map
    cases result with
    | ok value => exact whenDone value next held
    | error fault => exact whenFailed fault next held
  exact ends.bind fun _ _ => id

theorem Meets.ensuring {action : Exec α} {restore : Machine → Machine}
    (meets : action.Meets machine done failed cut) {done' : α → Machine → Prop}
    {failed' : Fault → Machine → Prop}
    (whenDone : ∀ value next, done value next → done' value (restore next))
    (whenFailed : ∀ fault next, failed fault next → failed' fault (restore next)) :
    (Exec.ensuring restore action).Meets machine done' failed' cut := by
  rw [Meets] at meets ⊢
  rw [Exec.ensuring]
  cases result : action machine with
  | ok value next =>
      rw [result] at meets
      exact whenDone value next meets
  | error stop next =>
      rw [result] at meets
      cases stop with
      | raised fault => exact whenFailed fault next meets
      | exhausted => exact meets

theorem forM_array (array : Array β) (body : β → Exec Unit) :
    array.forM body = array.toList.forM body := by
  rw [Array.forM, ← Array.foldlM_toList]
  induction array.toList with
  | nil => rfl
  | cons first rest ih =>
      rw [List.foldlM_cons]
      exact congrArg _ (funext fun _ => ih)

end ScriptMachine.Exec
