import ScriptMachine.Proofs.Machine.Steady

/-!
# Frames that come and go

What a run loop does to the frames and traps of a fiber.  A run loop works on the frames from some
depth on: `Activity.SameBelow` says that nothing below that depth has changed.
-/

namespace ScriptMachine

namespace Activity

variable {heap : Heap} {activity before between after : Activity} {root : Nat}

/-! ## Traps -/

theorem lt_of_mem_dropWhile {traps : List Trap} {depth : Nat} {trap : Trap}
    (ordered : traps.Pairwise fun inner outer => outer.frame ≤ inner.frame)
    (member : trap ∈ traps.dropWhile fun trap => depth ≤ trap.frame) : trap.frame < depth := by
  induction traps with
  | nil => simp at member
  | cons first rest ih =>
      obtain ⟨above, ordered⟩ := List.pairwise_cons.mp ordered
      rw [List.dropWhile_cons] at member
      split at member
      · exact ih ordered member
      · rename_i low
        have low : first.frame < depth := by simpa using low
        rcases List.mem_cons.mp member with rfl | member
        · exact low
        · exact Nat.lt_of_le_of_lt (above trap member) low

theorem dropWhile_dropWhile {traps : List Trap} {low high : Nat} (le : low ≤ high) :
    (traps.dropWhile fun trap => high ≤ trap.frame).dropWhile (fun trap => low ≤ trap.frame) =
      traps.dropWhile fun trap => low ≤ trap.frame := by
  induction traps with
  | nil => rfl
  | cons first rest ih =>
      rw [List.dropWhile_cons]
      split
      · rename_i above
        have above : high ≤ first.frame := by simpa using above
        rw [ih, List.dropWhile_cons, if_pos (by simpa using Nat.le_trans le above)]
      · rfl

theorem dropWhile_eq_self {traps : List Trap} {depth : Nat}
    (below : ∀ trap ∈ traps, trap.frame < depth) :
    (traps.dropWhile fun trap => depth ≤ trap.frame) = traps := by
  cases traps with
  | nil => rfl
  | cons first rest =>
      have low := below first (by simp)
      rw [List.dropWhile_cons, if_neg (by simpa using low)]

/-- The traps of the last frame are those from its number on. -/
theorem dropWhile_last {traps : List Trap} {size : Nat}
    (below : ∀ trap ∈ traps, trap.frame < size) :
    (traps.dropWhile fun trap => trap.frame == size - 1) =
      traps.dropWhile fun trap => size - 1 ≤ trap.frame := by
  induction traps with
  | nil => rfl
  | cons first rest ih =>
      have low := below first (by simp)
      have same : (first.frame == size - 1) = decide (size - 1 ≤ first.frame) := by
        rw [Bool.eq_iff_iff, beq_iff_eq, decide_eq_true_eq]
        omega
      rw [List.dropWhile_cons, List.dropWhile_cons, same,
        ih fun trap member => below trap (by simp [member])]

theorem SoundIn.lt_size (sound : activity.SoundIn heap) {trap : Trap}
    (member : trap ∈ activity.traps) : trap.frame < activity.frames.size := by
  obtain ⟨frame, found, _⟩ := sound.owned trap member
  exact (Array.getElem?_eq_some_iff.mp found).1

/-! ## Soundness -/

theorem stacked_push {frames : Array Frame} {frame : Frame} (stacked : Stacked frames)
    (under : ∀ last, frames.back? = some last → last.base ≤ frame.base) :
    Stacked (frames.push frame) := by
  intro low high outer inner le first second
  rw [Array.getElem?_push] at first second
  split at second
  · obtain rfl := Option.some.inj second
    split at first
    · obtain rfl := Option.some.inj first
      exact Nat.le_refl _
    · have within := (Array.getElem?_eq_some_iff.mp first).1
      have last : frames[frames.size - 1]? = some frames[frames.size - 1] :=
        Array.getElem?_eq_getElem (by omega)
      refine Nat.le_trans (stacked low (frames.size - 1) _ _ (by omega) first last) (under _ ?_)
      rw [Array.back?_eq_getElem?]
      exact last
  · have within := (Array.getElem?_eq_some_iff.mp second).1
    rw [if_neg (by omega)] at first
    exact stacked low high outer inner le first second

theorem stacked_pop {frames : Array Frame} (stacked : Stacked frames) : Stacked frames.pop := by
  intro low high outer inner le first second
  rw [Array.getElem?_pop] at first second
  split at first
  · split at second
    · exact stacked low high outer inner le first second
    · exact absurd second (by simp)
  · exact absurd first (by simp)

theorem SoundIn.push (sound : activity.SoundIn heap) {frame : Frame} {own : List Trap}
    (entered : frame.SoundIn heap activity.maxSlots) (under : activity.Under frame.base)
    (fits : ∀ trap ∈ own, trap.frame = activity.frames.size ∧ trap.Guards frame) :
    { activity with
      frames := activity.frames.push frame, traps := own ++ activity.traps }.SoundIn heap where
  frames other member := by
    rcases Array.mem_push.mp member with member | rfl
    · exact sound.frames other member
    · exact entered
  stacked := stacked_push sound.stacked under
  ordered := by
    refine List.pairwise_append.mpr ⟨?_, sound.ordered, ?_⟩
    · refine List.pairwise_of_forall_mem_list fun inner first outer second => ?_
      rw [(fits inner first).1, (fits outer second).1]
    · intro inner first outer second
      rw [(fits inner first).1]
      exact Nat.le_of_lt (sound.lt_size second)
  owned trap member := by
    rcases List.mem_append.mp member with own | older
    · obtain ⟨place, guards⟩ := fits trap own
      refine ⟨frame, ?_, guards⟩
      show (activity.frames.push frame)[trap.frame]? = some frame
      rw [place, Array.getElem?_push_size]
    · obtain ⟨owner, found, guards⟩ := sound.owned trap older
      refine ⟨owner, ?_, guards⟩
      show (activity.frames.push frame)[trap.frame]? = some owner
      rw [Array.getElem?_push, if_neg (Nat.ne_of_lt (sound.lt_size older))]
      exact found

theorem SoundIn.pop (sound : activity.SoundIn heap) :
    { activity with
      frames := activity.frames.pop
      traps := activity.traps.dropWhile fun trap =>
        activity.frames.size - 1 ≤ trap.frame }.SoundIn heap where
  frames frame member := by
    obtain ⟨index, found⟩ := Array.mem_iff_getElem?.mp member
    have found : activity.frames.pop[index]? = some frame := found
    rw [Array.getElem?_pop] at found
    split at found
    · exact sound.frames frame (Array.mem_of_getElem? found)
    · exact absurd found (by simp)
  stacked := stacked_pop sound.stacked
  ordered := sound.ordered.sublist (List.dropWhile_sublist _)
  owned trap member := by
    have low := lt_of_mem_dropWhile sound.ordered member
    obtain ⟨owner, found, guards⟩ := sound.owned trap ((List.dropWhile_sublist _).subset member)
    refine ⟨owner, ?_, guards⟩
    show activity.frames.pop[trap.frame]? = some owner
    rw [Array.getElem?_pop, if_pos low]
    exact found

theorem getElem?_goTo {frames : Array Frame} {last ip index : Nat} {frame : Frame}
    (found : (frames.modify last ({ · with ip }))[index]? = some frame) :
    ∃ former, frames[index]? = some former ∧
      (index ≠ last ∧ frame = former ∨ index = last ∧ frame = { former with ip }) := by
  rw [Array.getElem?_modify] at found
  split at found
  · rename_i same
    obtain ⟨former, here, rfl⟩ := Option.map_eq_some_iff.mp found
    exact ⟨former, here, .inr ⟨same.symm, rfl⟩⟩
  · rename_i differ
    exact ⟨frame, found, .inl ⟨Ne.symm differ, rfl⟩⟩

theorem SoundIn.goTo (sound : activity.SoundIn heap) {frame : Frame}
    (found : activity.frames.back? = some frame) {ip : Nat}
    (within : ip ≤ frame.closure.routine.code.size) :
    { activity with
      frames :=
        activity.frames.modify (activity.frames.size - 1) ({ · with ip }) }.SoundIn heap := by
  have last : activity.frames[activity.frames.size - 1]? = some frame := by
    rw [← Array.back?_eq_getElem?]
    exact found
  refine ⟨?_, ?_, sound.ordered, ?_⟩
  · intro other member
    obtain ⟨index, here⟩ := Array.mem_iff_getElem?.mp member
    obtain ⟨former, there, ⟨_, rfl⟩ | ⟨rfl, rfl⟩⟩ := getElem?_goTo here
    · exact sound.frames _ (Array.mem_of_getElem? there)
    · obtain rfl := Option.some.inj (last.symm.trans there)
      have former := sound.frames _ (Array.mem_of_getElem? last)
      exact ⟨former.closure, within, former.room, former.generator⟩
  · intro low high outer inner le first second
    obtain ⟨first', there, same⟩ := getElem?_goTo first
    obtain ⟨second', here, like⟩ := getElem?_goTo second
    have base := sound.stacked low high first' second' le there here
    rcases same with ⟨_, rfl⟩ | ⟨_, rfl⟩ <;> rcases like with ⟨_, rfl⟩ | ⟨_, rfl⟩ <;> exact base
  · intro trap member
    obtain ⟨owner, here, guards⟩ := sound.owned trap member
    show ∃ frame, (activity.frames.modify (activity.frames.size - 1) ({ · with ip }))[trap.frame]? =
        some frame ∧ _
    rw [Array.getElem?_modify]
    split
    · rw [here]
      exact ⟨{ owner with ip }, rfl, guards.ip, guards.target, guards.window⟩
    · exact ⟨owner, here, guards⟩

theorem SoundIn.addTrap (sound : activity.SoundIn heap) {trap : Trap} (owned : activity.Owns trap)
    (inner : trap.frame = activity.frames.size - 1) :
    { activity with traps := trap :: activity.traps }.SoundIn heap where
  frames := sound.frames
  stacked := sound.stacked
  ordered := by
    refine List.pairwise_cons.mpr ⟨fun other member => ?_, sound.ordered⟩
    have := sound.lt_size member
    omega
  owned other member := by
    rcases List.mem_cons.mp member with rfl | member
    · exact owned
    · exact sound.owned other member

theorem SoundIn.dropTraps (sound : activity.SoundIn heap) {traps : List Trap}
    (part : traps.Sublist activity.traps) : { activity with traps }.SoundIn heap where
  frames := sound.frames
  stacked := sound.stacked
  ordered := sound.ordered.sublist part
  owned trap member := sound.owned trap (part.subset member)

/-! ## Run loops -/

/-- Nothing has changed below a depth. -/
structure SameBelow (root : Nat) (before after : Activity) : Prop where
  /-- The frames are the same. -/
  frames : ∀ index, index < root → after.frames[index]? = before.frames[index]?
  /-- The traps are the same. -/
  traps : (after.traps.dropWhile fun trap => root ≤ trap.frame) =
    before.traps.dropWhile fun trap => root ≤ trap.frame
  /-- The largest number of registers is the same. -/
  maxSlots : after.maxSlots = before.maxSlots
  /-- The host functions are the same. -/
  natives : after.natives = before.natives
  /-- As many run loops and host functions are active. -/
  nativeCalls : after.nativeCalls = before.nativeCalls
  /-- As many run loops are active. -/
  nesting : after.nesting = before.nesting
  /-- As many calls that wait for their result are active. -/
  syncCalls : after.syncCalls = before.syncCalls
  /-- The fiber is in the same state. -/
  state : after.state = before.state
  /-- The suspension is the same. -/
  suspended : after.suspended = before.suspended

theorem SameBelow.refl (root : Nat) (activity : Activity) : SameBelow root activity activity :=
  ⟨fun _ _ => rfl, rfl, rfl, rfl, rfl, rfl, rfl, rfl, rfl⟩

theorem SameBelow.trans (first : SameBelow root before between)
    (second : SameBelow root between after) : SameBelow root before after where
  frames index low := (second.frames index low).trans (first.frames index low)
  traps := second.traps.trans first.traps
  maxSlots := second.maxSlots.trans first.maxSlots
  natives := second.natives.trans first.natives
  nativeCalls := second.nativeCalls.trans first.nativeCalls
  nesting := second.nesting.trans first.nesting
  syncCalls := second.syncCalls.trans first.syncCalls
  state := second.state.trans first.state
  suspended := second.suspended.trans first.suspended

theorem dropWhile_append {own traps : List Trap} (above : ∀ trap ∈ own, root ≤ trap.frame) :
    ((own ++ traps).dropWhile fun trap => root ≤ trap.frame) =
      traps.dropWhile fun trap => root ≤ trap.frame :=
  List.dropWhile_append_of_pos fun trap member => by simpa using above trap member

theorem SameBelow.push (deep : root ≤ activity.frames.size) {frame : Frame} {own : List Trap}
    (placed : ∀ trap ∈ own, trap.frame = activity.frames.size) :
    SameBelow root activity
      { activity with frames := activity.frames.push frame, traps := own ++ activity.traps } where
  frames index low := by
    show (activity.frames.push frame)[index]? = activity.frames[index]?
    rw [Array.getElem?_push, if_neg (Nat.ne_of_lt (Nat.lt_of_lt_of_le low deep))]
  traps := dropWhile_append fun trap member => (placed trap member).symm ▸ deep
  maxSlots := rfl
  natives := rfl
  nativeCalls := rfl
  nesting := rfl
  syncCalls := rfl
  state := rfl
  suspended := rfl

theorem SameBelow.pop (deep : root < activity.frames.size) :
    SameBelow root activity
      { activity with
        frames := activity.frames.pop
        traps := activity.traps.dropWhile fun trap => activity.frames.size - 1 ≤ trap.frame } where
  frames index low := by
    show activity.frames.pop[index]? = activity.frames[index]?
    rw [Array.getElem?_pop, if_pos (by omega)]
  traps := dropWhile_dropWhile (by omega)
  maxSlots := rfl
  natives := rfl
  nativeCalls := rfl
  nesting := rfl
  syncCalls := rfl
  state := rfl
  suspended := rfl

theorem SameBelow.goTo (deep : root < activity.frames.size) (ip : Nat) :
    SameBelow root activity
      { activity with
        frames := activity.frames.modify (activity.frames.size - 1) ({ · with ip }) } where
  frames index low := by
    show (activity.frames.modify _ _)[index]? = activity.frames[index]?
    rw [Array.getElem?_modify, if_neg (by omega)]
  traps := rfl
  maxSlots := rfl
  natives := rfl
  nativeCalls := rfl
  nesting := rfl
  syncCalls := rfl
  state := rfl
  suspended := rfl

theorem SameBelow.setTraps {traps : List Trap}
    (same : (traps.dropWhile fun trap => root ≤ trap.frame) =
      activity.traps.dropWhile fun trap => root ≤ trap.frame) :
    SameBelow root activity { activity with traps } :=
  ⟨fun _ _ => rfl, same, rfl, rfl, rfl, rfl, rfl, rfl, rfl⟩

theorem Rooted.push (rooted : activity.Rooted root) {frame : Frame}
    (isRoot : frame.isRoot = true ↔ activity.frames.size = root) (traps : List Trap) :
    { activity with frames := activity.frames.push frame, traps }.Rooted root := by
  intro index other low found
  have found : (activity.frames.push frame)[index]? = some other := found
  rw [Array.getElem?_push] at found
  split at found
  · rename_i last
    obtain rfl := Option.some.inj found
    rw [last]
    exact isRoot
  · exact rooted index other low found

theorem rooted_of_size_eq (depth : activity.frames.size = root) : activity.Rooted root := by
  intro index other low found
  have within := (Array.getElem?_eq_some_iff.mp found).1
  omega

theorem Rooted.pop (rooted : activity.Rooted root) (traps : List Trap) :
    { activity with frames := activity.frames.pop, traps }.Rooted root := by
  intro index other low found
  have found : activity.frames.pop[index]? = some other := found
  rw [Array.getElem?_pop] at found
  split at found
  · exact rooted index other low found
  · exact absurd found (by simp)

theorem Rooted.goTo (rooted : activity.Rooted root) (last ip : Nat) :
    { activity with frames := activity.frames.modify last ({ · with ip }) }.Rooted root := by
  intro index other low found
  have found : (activity.frames.modify last ({ · with ip }))[index]? = some other := found
  rw [Array.getElem?_modify] at found
  split at found
  · obtain ⟨former, here, rfl⟩ := Option.map_eq_some_iff.mp found
    exact rooted index former low here
  · exact rooted index other low found

/-- A fiber that has no frames above a depth does what it did when it had none before. -/
theorem SameBelow.eq {other : Heap} (same : SameBelow root before after)
    (soundBefore : before.SoundIn heap) (soundAfter : after.SoundIn other)
    (depthBefore : before.frames.size = root) (depthAfter : after.frames.size = root) :
    after = before := by
  have frames : after.frames = before.frames := by
    refine Array.ext_getElem? fun index => ?_
    by_cases low : index < root
    · exact same.frames index low
    · rw [Array.getElem?_eq_none (by omega), Array.getElem?_eq_none (by omega)]
  have traps : after.traps = before.traps := by
    have dropped := same.traps
    rwa [dropWhile_eq_self fun trap member => depthAfter ▸ soundAfter.lt_size member,
      dropWhile_eq_self fun trap member => depthBefore ▸ soundBefore.lt_size member] at dropped
  obtain ⟨⟩ := after
  obtain ⟨⟩ := before
  obtain ⟨_, _, rfl, rfl, rfl, rfl, rfl, rfl, rfl⟩ := same
  obtain rfl := frames
  obtain rfl := traps
  rfl

end Activity

end ScriptMachine
