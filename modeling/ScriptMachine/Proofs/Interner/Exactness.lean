import ScriptMachine.Proofs.Interner.Buckets

/-!
# Interning is exact

A client asks an interner for copies of strings and lets go of copies that it holds, in any order.
The invariant `Interner.Holds` relates the interner to the list of what the client holds: the
buckets list exactly the copies that are held, a copy counts how often it is held, and one string
has one copy.  Looking a string up then answers from the list, and growth follows the number of
strings that are held.
-/

namespace ScriptMachine

namespace Interner

/-- The strings that are held. -/
def strings (held : List (Nat × ByteArray)) : Finset ByteArray := (held.map Prod.snd).toFinset

/-- The copies that are held. -/
def handles (held : List (Nat × ByteArray)) : Finset Nat := (held.map Prod.fst).toFinset

/-- An interner that keeps the copies of what is held: handles, each with its string. -/
structure Holds (hash : ByteArray → UInt64) (interner : Interner)
    (held : List (Nat × ByteArray)) : Prop where
  lists : interner.Lists (handles held)
  holders : ∀ handle, (interner.copy handle).holders = (held.map Prod.fst).count handle
  copies : ∀ x ∈ held, (interner.copy x.1).bytes = x.2 ∧ (interner.copy x.1).hash = hash x.2
  apart : ∀ x ∈ held, ∀ y ∈ held, x.2 = y.2 → x.1 = y.1

variable {hash : ByteArray → UInt64} {interner : Interner} {held : List (Nat × ByteArray)}

theorem mem_handles {handle : Nat} : handle ∈ handles held ↔ ∃ x ∈ held, x.1 = handle := by
  rw [handles, List.mem_toFinset, List.mem_map]

theorem mem_strings {bytes : ByteArray} : bytes ∈ strings held ↔ ∃ x ∈ held, x.2 = bytes := by
  rw [strings, List.mem_toFinset, List.mem_map]

theorem handles_concat (x : Nat × ByteArray) :
    handles (held ++ [x]) = Insert.insert x.1 (handles held) := by
  ext handle
  simp only [mem_handles, List.mem_append, List.mem_singleton, Finset.mem_insert]
  aesop

theorem strings_concat (x : Nat × ByteArray) :
    strings (held ++ [x]) = Insert.insert x.2 (strings held) := by
  ext handle
  simp only [mem_strings, List.mem_append, List.mem_singleton, Finset.mem_insert]
  aesop

theorem copy_setHolders {handle : Nat} (made : handle < interner.copies.size)
    (holders other : Nat) :
    (interner.setHolders handle holders).copy other =
      if other = handle then { interner.copy handle with holders } else interner.copy other := by
  rw [copy, setHolders, Array.getD_eq_getD_getElem?, Array.getElem?_setIfInBounds]
  by_cases same : handle = other
  · rw [if_pos same, if_pos made, if_pos same.symm, Option.getD_some]
  · rw [if_neg same, if_neg (Ne.symm same), copy, Array.getD_eq_getD_getElem?]

theorem copy_make (interner : Interner) (made : StringCopy) (other : Nat) :
    (interner.make made).copy other =
      if other = interner.copies.size then made else interner.copy other := by
  rw [copy, copy, make, Array.getD_eq_getD_getElem?, Array.getD_eq_getD_getElem?,
    Array.getElem?_push]
  split <;> rfl

theorem bucketCount_foldl_list (more : List Nat) (interner : Interner) :
    (more.foldl Interner.list interner).bucketCount = interner.bucketCount := by
  induction more generalizing interner with
  | nil => rfl
  | cons handle rest ih => exact (ih _).trans (bucketCount_setBucket _ _)

theorem copies_foldl_list (more : List Nat) (interner : Interner) :
    (more.foldl Interner.list interner).copies = interner.copies := by
  induction more generalizing interner with
  | nil => rfl
  | cons handle rest ih => exact ih _

theorem bucketCount_resize (interner : Interner) (buckets : Nat) :
    (interner.resize buckets).bucketCount = buckets :=
  (bucketCount_foldl_list _ _).trans Array.size_replicate

theorem copies_resize (interner : Interner) (buckets : Nat) :
    (interner.resize buckets).copies = interner.copies := copies_foldl_list _ _

theorem copies_insert (interner : Interner) (handle : Nat) :
    (interner.insert handle).copies = interner.copies := by
  rw [Interner.insert]
  split
  · exact copies_foldl_list _ _
  · rfl

theorem copies_unlink (interner : Interner) (handle : Nat) :
    (interner.unlink handle).copies = interner.copies := by
  rw [Interner.unlink]
  dsimp only
  split <;> rfl

theorem bucketCount_unlink (interner : Interner) (handle : Nat) :
    (interner.unlink handle).bucketCount = interner.bucketCount := by
  rw [Interner.unlink]
  dsimp only
  split
  · exact bucketCount_setBucket _ _
  · rfl

theorem copy_eq {other : Interner} (same : other.copies = interner.copies) (handle : Nat) :
    other.copy handle = interner.copy handle := by rw [copy, copy, same]

namespace Holds

theorem isHeld_iff (holds : Holds hash interner held) {handle : Nat} :
    interner.isHeld handle ↔ handle ∈ handles held := by
  rw [isHeld, decide_eq_true_iff, holds.holders, List.count_pos_iff, handles, List.mem_toFinset]

/-- Two handles are one exactly when their strings are one. -/
theorem same_iff (holds : Holds hash interner held) {x y : Nat × ByteArray} (inX : x ∈ held)
    (inY : y ∈ held) : x.1 = y.1 ↔ x.2 = y.2 := by
  refine ⟨fun same => ?_, holds.apart x inX y inY⟩
  rw [← (holds.copies x inX).1, ← (holds.copies y inY).1, same]

/-- There are as many copies as strings. -/
theorem card_eq (holds : Holds hash interner held) : (handles held).card = (strings held).card := by
  have image : strings held = (handles held).image fun handle => (interner.copy handle).bytes := by
    ext bytes
    simp only [mem_strings, Finset.mem_image, mem_handles]
    constructor
    · rintro ⟨x, among, rfl⟩
      exact ⟨x.1, ⟨x, among, rfl⟩, (holds.copies x among).1⟩
    · rintro ⟨_, ⟨x, among, rfl⟩, rfl⟩
      exact ⟨x, among, (holds.copies x among).1.symm⟩
  rw [image, Finset.card_image_of_injOn]
  intro first inFirst second inSecond same
  obtain ⟨x, among, rfl⟩ := mem_handles.mp (Finset.mem_coe.mp inFirst)
  obtain ⟨y, there, rfl⟩ := mem_handles.mp (Finset.mem_coe.mp inSecond)
  exact (holds.same_iff among there).mpr
    ((holds.copies x among).1.symm.trans (same.trans (holds.copies y there).1))

theorem held_of_listed (holds : Holds hash interner held) :
    ∀ handle ∈ handles held, interner.isHeld handle := fun _ => holds.isHeld_iff.mpr

/-- Every entry is held, so the strings are the entries. -/
theorem size_eq (holds : Holds hash interner held) : interner.size = (strings held).card := by
  rw [size, List.countP_eq_length.mpr, holds.lists.length_entries, holds.card_eq]
  exact fun handle among => holds.held_of_listed handle (holds.lists.mem_entries_iff.mp among)

theorem mem_bucket (holds : Holds hash interner held) {x : Nat × ByteArray} (among : x ∈ held) :
    x.1 ∈ interner.bucket (interner.bucketOf (hash x.2)) := by
  rw [← (holds.copies x among).2]
  exact holds.lists.mem_home (mem_handles.mpr ⟨x, among, rfl⟩)

/-- Looking up a string finds what is held of it. -/
theorem find?_eq_some_iff (holds : Holds hash interner held) {bytes : ByteArray} {handle : Nat} :
    interner.find? (hash bytes) bytes = some handle ↔ (handle, bytes) ∈ held := by
  have sound {found : Nat} (finds : interner.find? (hash bytes) bytes = some found) :
      (found, bytes) ∈ held := by
    have tested := List.find?_some finds
    obtain ⟨isHeld, -, same⟩ := of_decide_eq_true tested
    obtain ⟨x, among, rfl⟩ := mem_handles.mp (holds.isHeld_iff.mp isHeld)
    rwa [← same, (holds.copies x among).1]
  refine ⟨sound, fun among => ?_⟩
  have finds : (interner.find? (hash bytes) bytes).isSome := by
    have isHeld := holds.isHeld_iff.mpr (mem_handles.mpr ⟨_, among, rfl⟩)
    have copied := holds.copies _ among
    exact List.find?_isSome.mpr
      ⟨handle, holds.mem_bucket among, decide_eq_true ⟨isHeld, copied.2, copied.1⟩⟩
  obtain ⟨found, finds⟩ := Option.isSome_iff_exists.mp finds
  exact finds.trans (congrArg some (holds.apart _ (sound finds) _ among rfl))

theorem handle_lt (holds : Holds hash interner held) {x : Nat × ByteArray} (among : x ∈ held) :
    x.1 < interner.copies.size := by
  by_contra beyond
  have isHeld := holds.isHeld_iff.mpr (mem_handles.mpr ⟨x, among, rfl⟩)
  rw [Interner.isHeld, copy, Array.getD_eq_getD_getElem?,
    Array.getElem?_eq_none (Nat.le_of_not_lt beyond)] at isHeld
  exact Bool.false_ne_true isHeld

/-- A copy that is held may be held once more. -/
theorem again (holds : Holds hash interner held) {x : Nat × ByteArray} (among : x ∈ held) :
    Holds hash (interner.setHolders x.1 ((interner.copy x.1).holders + 1)) (held ++ [x]) := by
  have copy := copy_setHolders (holds.handle_lt among) ((interner.copy x.1).holders + 1)
  have still {y : Nat × ByteArray} (there : y ∈ held ++ [x]) : y ∈ held := by
    rcases List.mem_append.mp there with there | same
    · exact there
    · exact List.mem_singleton.mp same ▸ among
  refine ⟨?_, fun handle => ?_, fun y there => ?_, fun y there z also => ?_⟩
  · rw [handles_concat, Finset.insert_eq_of_mem (mem_handles.mpr ⟨x, among, rfl⟩)]
    refine holds.lists.congr rfl rfl fun handle _ => ?_
    rw [copy]
    split
    · rename_i same
      rw [same]
    · rfl
  · rw [copy, List.map_append, List.count_append, ← holds.holders, List.map_singleton,
      List.count_singleton]
    by_cases same : handle = x.1
    · simp [same]
    · simp [same, Ne.symm same]
  · rw [copy]
    have copied := holds.copies y (still there)
    split
    · rename_i same
      rwa [← same]
    · exact copied
  · exact holds.apart y (still there) z (still also)

/-- Spreading the copies over more buckets changes none of them. -/
theorem resize (holds : Holds hash interner held) {buckets : Nat} (positive : 0 < buckets) :
    Holds hash (interner.resize buckets) held := by
  have copy := copy_eq (copies_resize interner buckets)
  refine ⟨holds.lists.resize holds.held_of_listed positive, fun handle => ?_, fun x among => ?_,
    holds.apart⟩
  · rw [copy]
    exact holds.holders handle
  · rw [copy]
    exact holds.copies x among

/-- A string that is not held gets a new copy, held once. -/
theorem fresh (holds : Holds hash interner held) {bytes : ByteArray}
    (missing : ∀ x ∈ held, x.2 ≠ bytes) :
    Holds hash ((interner.make ⟨bytes, hash bytes, 1⟩).insert interner.copies.size)
      (held ++ [(interner.copies.size, bytes)]) := by
  have copy := copy_make interner ⟨bytes, hash bytes, 1⟩
  have unlisted : interner.copies.size ∉ handles held := fun listed =>
    have ⟨_, among, same⟩ := mem_handles.mp listed
    absurd same (holds.handle_lt among).ne
  have old {x : Nat × ByteArray} (among : x ∈ held) :
      (interner.make ⟨bytes, hash bytes, 1⟩).copy x.1 = interner.copy x.1 :=
    (copy x.1).trans (if_neg (holds.handle_lt among).ne)
  have listed : Holds hash ((interner.make ⟨bytes, hash bytes, 1⟩).list interner.copies.size)
      (held ++ [(interner.copies.size, bytes)]) := by
    refine ⟨?_, fun handle => ?_, fun x among => ?_, fun x inX y inY same => ?_⟩
    · rw [handles_concat]
      refine Lists.list (holds.lists.congr rfl rfl fun handle listed => ?_) unlisted
      obtain ⟨x, among, rfl⟩ := mem_handles.mp listed
      rw [old among]
    · refine (congrArg StringCopy.holders (copy handle)).trans ?_
      rw [List.map_append, List.count_append, ← holds.holders, List.map_singleton,
        List.count_singleton]
      by_cases same : handle = interner.copies.size
      · have never : (interner.copy handle).holders = 0 := by
          rw [holds.holders, List.count_eq_zero, same]
          exact fun among => unlisted (List.mem_toFinset.mpr among)
        simp [same, same ▸ never]
      · simp [same, Ne.symm same]
    · rcases List.mem_append.mp among with among | last
      · exact (old among).symm ▸ holds.copies x among
      · obtain rfl := List.mem_singleton.mp last
        have new := (copy interner.copies.size).trans (if_pos rfl)
        exact new.symm ▸ ⟨rfl, rfl⟩
    · rcases List.mem_append.mp inX with inX | lastX <;>
        rcases List.mem_append.mp inY with inY | lastY
      · exact holds.apart x inX y inY same
      · obtain rfl := List.mem_singleton.mp lastY
        exact absurd same (missing x inX)
      · obtain rfl := List.mem_singleton.mp lastX
        exact absurd same.symm (missing y inY)
      · rw [List.mem_singleton.mp lastX, List.mem_singleton.mp lastY]
  rw [Interner.insert]
  split
  · exact listed.resize (Nat.mul_pos Nat.two_pos listed.lists.positive)
  · exact listed

/-- One of the holders of a copy lets go of it. -/
theorem letGo (holds : Holds hash interner held) {x : Nat × ByteArray}
    {rest : List (Nat × ByteArray)} (perm : (x :: rest).Perm held) :
    Holds hash (interner.letGo x.1) rest := by
  have among : x ∈ held := perm.mem_iff.mp (List.mem_cons_self ..)
  have still {y : Nat × ByteArray} (there : y ∈ rest) : y ∈ held :=
    perm.mem_iff.mp (List.mem_cons_of_mem _ there)
  have all : handles held = Insert.insert x.1 (handles rest) := by
    rw [handles, ← List.toFinset_eq_of_perm _ _ (perm.map _), List.map_cons, List.toFinset_cons,
      handles]
  obtain ⟨fewer, eq⟩ : ∃ fewer, fewer = interner.setHolders x.1 ((interner.copy x.1).holders - 1) :=
    ⟨_, rfl⟩
  have copy (handle : Nat) : fewer.copy handle =
      { interner.copy handle with holders := (rest.map Prod.fst).count handle } := by
    have count := holds.holders handle
    rw [← (perm.map _).count_eq, List.map_cons] at count
    rw [eq, copy_setHolders (holds.handle_lt among)]
    split
    · rename_i same
      rw [same, List.count_cons_self] at count
      rw [same, count, Nat.add_sub_cancel]
    · rename_i other
      rw [List.count_cons_of_ne (Ne.symm other)] at count
      rw [← count]
  have lists : fewer.Lists (handles held) :=
    holds.lists.congr (eq ▸ rfl) (eq ▸ rfl) fun handle _ => by rw [copy]
  have held_iff : fewer.isHeld x.1 ↔ x.1 ∈ handles rest := by
    rw [isHeld, copy, decide_eq_true_iff, List.count_pos_iff, handles, List.mem_toFinset]
  have done (last : Interner) (copies : last.copies = fewer.copies)
      (lists : last.Lists (handles rest)) : Holds hash last rest := by
    refine ⟨lists, fun handle => ?_, fun y there => ?_,
      fun y inY z inZ => holds.apart y (still inY) z (still inZ)⟩
    · rw [copy_eq copies, copy]
    · rw [copy_eq copies, copy]
      exact holds.copies y (still there)
  rw [Interner.letGo, ← eq]
  split
  · rename_i isHeld
    refine done _ rfl ?_
    rwa [all, Finset.insert_eq_of_mem (held_iff.mp isHeld)] at lists
  · rename_i unheld
    refine done _ (copies_unlink _ _) ?_
    have unlinked := lists.unlink (mem_handles.mpr ⟨x, among, rfl⟩)
    rwa [all, Finset.erase_insert (mt held_iff.mpr unheld)] at unlinked

/-- Letting go of a string is letting go of its handle. -/
theorem release_eq (holds : Holds hash interner held) {x : Nat × ByteArray} (among : x ∈ held) :
    interner.release hash x.2 = interner.letGo x.1 := by
  rw [release, holds.find?_eq_some_iff.mpr among]

end Holds

/-! ## Growth -/

/-- Where there are as many buckets as a number of strings asks for, one string more than fits
doubles them, which is what the larger number asks for. -/
theorem powerOfTwoAbove_grown {most count : Nat} (below : count ≤ most) :
    (if powerOfTwoAbove most < count + 1 then 2 * powerOfTwoAbove most else powerOfTwoAbove most) =
      powerOfTwoAbove (max most (count + 1)) := by
  obtain ⟨exponent, power⟩ := exists_powerOfTwoAbove most
  have fits := le_powerOfTwoAbove most
  rw [powerOfTwoAbove_max]
  rw [power] at fits ⊢
  split
  · rename_i full
    obtain rfl : count = 2 ^ exponent := by omega
    rw [powerOfTwoAbove_succ, Nat.pow_succ']
    exact (max_eq_right (Nat.le_mul_of_pos_left _ Nat.two_pos)).symm
  · rename_i room
    exact (max_eq_left (powerOfTwoAbove_le_iff.mpr (Nat.le_of_not_lt room))).symm

theorem bucketCount_insert (interner : Interner) (handle : Nat) :
    (interner.insert handle).bucketCount =
      if interner.bucketCount < interner.count + 1 then 2 * interner.bucketCount
      else interner.bucketCount := by
  have listed : (interner.list handle).bucketCount = interner.bucketCount :=
    bucketCount_setBucket _ _
  rw [Interner.insert, apply_ite Interner.bucketCount, bucketCount_resize, listed]
  rfl

/-- An interner with as many buckets as asked for at the start and by the most strings ever held. -/
structure Sized (hash : ByteArray → UInt64) (buckets most : Nat) (interner : Interner)
    (held : List (Nat × ByteArray)) : Prop where
  holds : Holds hash interner held
  bucketCount_eq : interner.bucketCount = powerOfTwoAbove (max buckets most)
  card_le : (strings held).card ≤ most

namespace Sized

variable {buckets most : Nat}

/-- Interning hands out a handle of the string. -/
theorem intern (sized : Sized hash buckets most interner held) (bytes : ByteArray) :
    Sized hash buckets
      (max most (strings (held ++ [((interner.intern hash bytes).1, bytes)])).card)
      (interner.intern hash bytes).2 (held ++ [((interner.intern hash bytes).1, bytes)]) := by
  have holds := sized.holds
  rw [Interner.intern]
  dsimp only
  rw [holds.lists.prune_eq holds.held_of_listed]
  split
  · rename_i handle finds
    have among := holds.find?_eq_some_iff.mp finds
    have same : strings (held ++ [(handle, bytes)]) = strings held := by
      rw [strings_concat, Finset.insert_eq_of_mem (mem_strings.mpr ⟨_, among, rfl⟩)]
    rw [same, max_eq_left sized.card_le]
    exact ⟨holds.again among, sized.bucketCount_eq, same ▸ sized.card_le⟩
  · rename_i finds
    have missing : ∀ x ∈ held, x.2 ≠ bytes := by
      rintro x among rfl
      exact Option.some_ne_none _ ((holds.find?_eq_some_iff.mpr among).symm.trans finds)
    have larger : (strings (held ++ [(interner.copies.size, bytes)])).card =
        (strings held).card + 1 := by
      rw [strings_concat, Finset.card_insert_of_notMem]
      exact fun among => have ⟨x, there, same⟩ := mem_strings.mp among; missing x there same
    refine ⟨holds.fresh missing, ?_, le_max_right _ _⟩
    refine (bucketCount_insert _ _).trans ?_
    rw [larger, ← max_assoc, ← powerOfTwoAbove_grown (sized.card_le.trans (le_max_right _ _)),
      ← sized.bucketCount_eq, ← holds.card_eq, ← holds.lists.count_eq]
    rfl

/-- Letting go leaves the buckets as many as they are. -/
theorem letGo (sized : Sized hash buckets most interner held) {x : Nat × ByteArray}
    {rest : List (Nat × ByteArray)} (perm : (x :: rest).Perm held) :
    Sized hash buckets most (interner.letGo x.1) rest := by
  refine ⟨sized.holds.letGo perm, ?_,
    (Finset.card_le_card fun bytes among => ?_).trans sized.card_le⟩
  · rw [Interner.letGo, apply_ite Interner.bucketCount, bucketCount_unlink, ite_self]
    exact sized.bucketCount_eq
  · obtain ⟨y, there, rfl⟩ := mem_strings.mp among
    exact mem_strings.mpr ⟨y, perm.mem_iff.mp (List.mem_cons_of_mem _ there), rfl⟩

/-- Letting go of a byte string leaves everything as it is if no handle of it is held. -/
theorem release (sized : Sized hash buckets most interner held) (bytes : ByteArray) :
    Sized hash buckets most (interner.release hash bytes) (held.eraseP (·.2 = bytes)) := by
  by_cases missing : ∃ x ∈ held, x.2 = bytes
  · obtain ⟨x, among, same⟩ := missing
    have picks : decide (x.2 = bytes) = true := decide_eq_true same
    obtain ⟨y, front, back, _, same', held_eq, erased⟩ :=
      List.exists_of_eraseP (p := fun y => decide (y.2 = bytes)) among picks
    obtain rfl := of_decide_eq_true same'
    have there : y ∈ held := held_eq ▸ List.mem_append_right _ List.mem_cons_self
    rw [sized.holds.release_eq there, erased]
    exact sized.letGo (held_eq ▸ List.perm_middle.symm)
  · rw [List.eraseP_of_forall_not fun x among same => missing ⟨x, among, of_decide_eq_true same⟩,
      Interner.release]
    split
    · rename_i handle finds
      exact absurd ⟨_, sized.holds.find?_eq_some_iff.mp finds, rfl⟩ missing
    · exact sized

theorem empty (hash : ByteArray → UInt64) (buckets : Nat) :
    Sized hash (max 1 buckets) 0 (Interner.empty buckets) [] := by
  have positive : 0 < powerOfTwoAbove (max 1 buckets) :=
    (le_max_left 1 buckets).trans (le_powerOfTwoAbove _)
  refine ⟨⟨Lists.empty_buckets (Interner.empty 0) positive, fun _ => rfl,
    fun _ among => absurd among List.not_mem_nil, fun _ among => absurd among List.not_mem_nil⟩,
    ?_, Nat.le_refl _⟩
  rw [max_eq_left (Nat.zero_le _)]
  exact Array.size_replicate

end Sized

/-! ## Clients -/

/-- A request of a client. -/
inductive Request where
  /-- Hold the copy of a text. -/
  | text (text : String)
  /-- Hold the copy of a byte string. -/
  | bytes (bytes : ByteArray)
  /-- Let go of the handle at a position in the list of what is held. -/
  | letGo (position : Nat)
  /-- Let go of a handle of a byte string, if one is held. -/
  | release (bytes : ByteArray)

/-- An interner in the hands of a client. -/
structure Client where
  /-- The interner. -/
  interner : Interner
  /-- The handles that are held, each with the string that was asked for, oldest first. -/
  held : List (Nat × ByteArray) := []
  /-- The largest number of strings that were held at once. -/
  most : Nat := 0

namespace Client

/-- The client keeps the handle it is given. -/
def keep (client : Client) (bytes : ByteArray) (answer : Nat × Interner) : Client :=
  let held := client.held ++ [(answer.1, bytes)]
  { interner := answer.2, held, most := max client.most (strings held).card }

/-- The interner serves a request. -/
def serve (hash : ByteArray → UInt64) (client : Client) : Request → Client
  | .text text => client.keep text.toUTF8 (client.interner.internText hash text)
  | .bytes bytes => client.keep bytes (client.interner.intern hash bytes)
  | .letGo position =>
    match client.held[position]? with
    | some x =>
      { client with
        interner := client.interner.letGo x.1, held := client.held.eraseIdx position }
    | none => client
  | .release bytes =>
    { client with
      interner := client.interner.release hash bytes
      held := client.held.eraseP (·.2 = bytes) }

end Client

theorem Sized.serve {buckets : Nat} {client : Client}
    (sized : Sized hash buckets client.most client.interner client.held) (request : Request) :
    Sized hash buckets (client.serve hash request).most (client.serve hash request).interner
      (client.serve hash request).held := by
  cases request with
  | text text => exact sized.intern text.toUTF8
  | bytes bytes => exact sized.intern bytes
  | letGo position =>
      rw [Client.serve]
      split
      · rename_i x there
        obtain ⟨inside, rfl⟩ := List.getElem?_eq_some_iff.mp there
        exact sized.letGo (List.getElem_cons_eraseIdx_perm inside)
      · exact sized
  | release bytes => exact sized.release bytes

theorem Sized.serveAll {buckets : Nat} (requests : List Request) (client : Client)
    (sized : Sized hash buckets client.most client.interner client.held) :
    let last := requests.foldl (Client.serve hash) client
    Sized hash buckets last.most last.interner last.held := by
  induction requests generalizing client with
  | nil => exact sized
  | cons request rest ih => exact ih _ (sized.serve request)

/-- Interning is exact: the client's handles are the same exactly when their strings are, and name
these strings; the interner counts the strings that are held and its entries; each of them is in
the bucket of its hash; and the buckets are as many as asked for at the start, or by the most
strings that were ever held at once. -/
structure Exact (hash : ByteArray → UInt64) (buckets : Nat) (client : Client) : Prop where
  same_iff : ∀ x ∈ client.held, ∀ y ∈ client.held, x.1 = y.1 ↔ x.2 = y.2
  bytes_eq : ∀ x ∈ client.held, (client.interner.copy x.1).bytes = x.2
  size_eq : client.interner.size = (strings client.held).card
  count_eq : client.interner.count = client.interner.entries.length
  mem_bucket : ∀ x ∈ client.held,
    x.1 ∈ client.interner.bucket (client.interner.bucketOf (hash x.2))
  bucketCount_eq : client.interner.bucketCount =
    max (powerOfTwoAbove (max 1 buckets)) (powerOfTwoAbove client.most)

theorem interning_exact (hash : ByteArray → UInt64) (buckets : Nat) (requests : List Request) :
    Exact hash buckets (requests.foldl (Client.serve hash) { interner := empty buckets }) := by
  have sized := Sized.serveAll requests ⟨empty buckets, [], 0⟩ (.empty hash buckets)
  have holds := sized.holds
  exact {
    same_iff := fun x inX y inY => holds.same_iff inX inY
    bytes_eq := fun x among => (holds.copies x among).1
    size_eq := holds.size_eq
    count_eq := holds.lists.count_eq.trans holds.lists.length_entries.symm
    mem_bucket := fun x among => holds.mem_bucket among
    bucketCount_eq := sized.bucketCount_eq.trans (powerOfTwoAbove_max _ _) }

end Interner

end ScriptMachine
