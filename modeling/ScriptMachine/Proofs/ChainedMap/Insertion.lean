import ScriptMachine.Proofs.ChainedMap.Chain

/-!
# Insertion into a chained map

A new key finds its home free, taken by its own chain or taken by a key of another chain.  Each of
the three cases rearranges the chains in one way: a new chain of one node, a node added behind the
head, or a node of another chain moved elsewhere.  In all cases the entries are those from before
and the new one.

A rebuild only inserts into an array that was free in the beginning.  All nodes from `firstFree` on
are then taken, so a free node is found as long as there is one; the rebuilt map has the entries of
the old one.
-/

namespace ScriptMachine.ChainedMap

variable {ν : Type} {hash : Value → UInt64} {map grown moved : ChainedMap ν}
    {chain : Nat → List Nat}

/-! ## Free nodes -/

theorem freeBelow_eq_some {bound index : Nat} (found : map.freeBelow bound = some index) :
    index < bound ∧ (map.node index).entry = none ∧
      ∀ other, index < other → other < bound → (map.node other).entry ≠ none := by
  induction bound with
  | zero => simp [freeBelow] at found
  | succ bound ih =>
      rw [freeBelow] at found
      split at found
      case isTrue isFree =>
        obtain rfl := Option.some.inj found
        refine ⟨Nat.lt_succ_self bound, Node.isFree_iff.mp isFree, ?_⟩
        intro other above below
        omega
      case isFalse taken =>
        obtain ⟨below, entry, above⟩ := ih found
        refine ⟨Nat.lt_succ_of_lt below, entry, ?_⟩
        intro other higher lower
        by_cases top : other = bound
        · subst other
          exact fun isFree => taken (Node.isFree_iff.mpr isFree)
        · exact above other higher (by omega)

theorem freeBelow_eq_none {bound : Nat} (missing : map.freeBelow bound = none) :
    ∀ index < bound, (map.node index).entry ≠ none := by
  induction bound with
  | zero => simp
  | succ bound ih =>
      rw [freeBelow] at missing
      split at missing
      case isTrue => exact absurd missing (by simp)
      case isFalse taken =>
        intro index below
        by_cases top : index = bound
        · subst index
          exact fun isFree => taken (Node.isFree_iff.mpr isFree)
        · exact ih missing index (by omega)

theorem home_lt (sound : Sound hash map) (key : Value) :
    map.home hash key < map.nodes.size :=
  Nat.mod_lt _ (Nat.lt_of_lt_of_le (by decide) sound.least)

/-- The node found for a new key is a free node of the array. -/
theorem Sound.spare?_free (sound : Sound hash map) {key : Value} {free : Nat}
    (found : map.spare? hash key = some free) :
    free < map.nodes.size ∧ (map.node free).entry = none := by
  rw [spare?] at found
  split at found
  case isTrue homeFree =>
    obtain rfl := Option.some.inj found
    exact ⟨home_lt sound key, Node.isFree_iff.mp homeFree⟩
  case isFalse =>
    obtain ⟨below, entry, _⟩ := freeBelow_eq_some found
    exact ⟨Nat.lt_of_lt_of_le below sound.firstFree_le, entry⟩

/-! ## The three ways to change chains -/

/-- A key whose home is free becomes a chain of its own. -/
theorem Chains.place (chains : Chains hash map chain) {key : Value} {value : ν} {home : Nat}
    (home_eq : map.home hash key = home) (homeFree : (map.node home).entry = none)
    (sizes : grown.nodes.size = map.nodes.size)
    (nodes : grown.node = Function.update map.node home ⟨some (key, value), none⟩) :
    Chains hash grown (Function.update chain home [home]) := by
  have homeNode : grown.node home = ⟨some (key, value), none⟩ := by simp [nodes]
  have empty : chain home = [] := by
    apply chains.eq_nil_of_home
    simp [homeFree]
  refine chains.exchange [home] sizes ?_ (List.nodup_singleton home) ?_ ?_ ?_ ?_
  · simp [Linked, homeNode]
  · simp
  · intro index among
    obtain rfl := List.mem_singleton.mp among
    constructor
    · simp [homeFree]
    · simp [homeNode, home_eq]
    · simp [homeNode]
  · intro index outside
    rw [nodes, Function.update_of_ne (by simpa using outside)]
  · simp [empty]

/-- A key whose home heads its own chain goes behind the head. -/
theorem Chains.append (chains : Chains hash map chain) {key : Value} {value : ν} {home free : Nat}
    {rest : List Nat} (home_eq : map.home hash key = home) (starts : chain home = home :: rest)
    (isFree : (map.node free).entry = none) (sizes : grown.nodes.size = map.nodes.size)
    (nodes : grown.node =
      Function.update
        (Function.update map.node free ⟨some (key, value), (map.node home).next⟩) home
        { map.node home with next := some free }) :
    Chains hash grown (Function.update chain home (home :: free :: rest)) := by
  have member : home ∈ chain home := by simp [starts]
  have missing := chains.notMem_of_free isFree home
  have linked := chains.linked home
  have nodup := chains.nodup home
  rw [starts] at missing linked nodup
  obtain ⟨differ, outside⟩ := not_or.mp (List.mem_cons.not.mp missing)
  obtain ⟨fresh, nodup⟩ := List.nodup_cons.mp nodup
  have homeNode : grown.node home = { map.node home with next := some free } := by simp [nodes]
  have freeNode : grown.node free = ⟨some (key, value), (map.node home).next⟩ := by
    simp [nodes, differ]
  have stays : ∀ index, index ≠ home → index ≠ free → grown.node index = map.node index := by
    intro index notHome notFree
    simp [nodes, notHome, notFree]
  refine chains.exchange [home, free] sizes ?_ ?_ ?_ ?_ ?_ ?_
  · refine ⟨by simp [homeNode], by rw [freeNode]; exact linked.1, linked.2.congr ?_⟩
    intro index inRest
    rw [stays index (fun equal => fresh (equal ▸ inRest)) fun equal => outside (equal ▸ inRest)]
  · simp [fresh, Ne.symm differ, outside, nodup]
  · simp
  · intro index among
    rcases List.mem_pair.mp among with rfl | rfl
    · constructor
      · exact fun entry => chains.home_of_mem member
      · rw [homeNode]
        exact fun entry => chains.home_of_mem member
      · simpa [homeNode] using chains.entry_of_mem member
    · constructor
      · simp [isFree]
      · simp [freeNode, home_eq]
      · simp [freeNode]
  · intro index elsewhere
    obtain ⟨notHome, notFree⟩ := not_or.mp (List.mem_pair.not.mp elsewhere)
    exact stays index notHome notFree
  · intro index elsewhere
    obtain ⟨_, notFree⟩ := not_or.mp (List.mem_pair.not.mp elsewhere)
    simp [starts, notFree]

/-- A node behind another one moves to a free node and keeps its place in its chain. -/
theorem Chains.relocate (chains : Chains hash map chain) {home owner free last : Nat}
    {front back : List Nat} (split : chain owner = front ++ home :: back)
    (ends : front.getLast? = some last) (isFree : (map.node free).entry = none)
    (sizes : moved.nodes.size = map.nodes.size)
    (nodes : moved.node =
      Function.update
        (Function.update
          (Function.update map.node last { map.node last with next := some free })
          free (map.node home))
        home Node.free) :
    Chains hash moved (Function.update chain owner (front ++ free :: back)) := by
  have lastFront : last ∈ front := List.mem_of_getLast? ends
  have lastMember : last ∈ chain owner := by simp [split, lastFront]
  have homeMember : home ∈ chain owner := by simp [split]
  have missing := chains.notMem_of_free isFree owner
  have linked := chains.linked owner
  have nodup := chains.nodup owner
  rw [split] at missing linked nodup
  have apart := (List.nodup_append.mp nodup).2.2
  obtain ⟨fresh, nodup⟩ := List.nodup_cons.mp (List.nodup_middle.mp nodup)
  simp only [List.mem_append, List.mem_cons, not_or] at missing fresh
  obtain ⟨freeFront, freeHome, freeBack⟩ := missing
  obtain ⟨homeFront, homeBack⟩ := fresh
  have lastHome : last ≠ home := fun equal => homeFront (equal ▸ lastFront)
  have lastFree : last ≠ free := fun equal => freeFront (equal ▸ lastFront)
  have lastNode : moved.node last = { map.node last with next := some free } := by
    simp [nodes, lastHome, lastFree]
  have freeNode : moved.node free = map.node home := by simp [nodes, freeHome]
  have homeNode : moved.node home = Node.free := by simp [nodes]
  have stays : ∀ index, index ≠ last → index ≠ free → index ≠ home →
      moved.node index = map.node index := by
    intro index notLast notFree notHome
    simp [nodes, notLast, notFree, notHome]
  have backLinked : Linked moved.node (free :: back) := by
    have oldBack : Linked map.node (home :: back) := linked.tail
    refine ⟨by rw [freeNode]; exact oldBack.1, oldBack.2.congr fun index member => ?_⟩
    rw [stays index]
    · exact fun equal => apart last lastFront index (by simp [member]) equal.symm
    · exact fun equal => freeBack (equal ▸ member)
    · exact fun equal => homeBack (equal ▸ member)
  refine chains.exchange [last, free, home] sizes ?_ ?_ ?_ ?_ ?_ ?_
  · refine linked.splice (List.nodup_append.mp nodup).1 ends backLinked ?_ (by rw [lastNode]; rfl)
    intro index member notLast
    rw [stays index notLast]
    · exact fun equal => freeFront (equal ▸ member)
    · exact fun equal => homeFront (equal ▸ member)
  · refine List.nodup_middle.mpr (List.nodup_cons.mpr ⟨?_, nodup⟩)
    simp [freeFront, freeBack]
  · intro index first
    apply chains.head owner index
    cases front with
    | nil => simp at ends
    | cons start front => simpa [split] using first
  · intro index among
    simp only [List.mem_cons, List.not_mem_nil, or_false] at among
    rcases among with rfl | rfl | rfl
    · constructor
      · exact fun entry => chains.home_of_mem lastMember
      · rw [lastNode]
        exact fun entry => chains.home_of_mem lastMember
      · simpa [lastNode, lastFront] using chains.entry_of_mem lastMember
    · constructor
      · simp [isFree]
      · rw [freeNode]
        exact fun entry => chains.home_of_mem homeMember
      · simpa [freeNode] using chains.entry_of_mem homeMember
    · constructor
      · exact fun entry => chains.home_of_mem homeMember
      · simp [homeNode, Node.free]
      · simp [homeNode, Node.free, homeFront, homeBack, Ne.symm freeHome]
  · intro index elsewhere
    simp only [List.mem_cons, List.not_mem_nil, or_false, not_or] at elsewhere
    exact stays index elsewhere.1 elsewhere.2.1 elsewhere.2.2
  · intro index elsewhere
    simp only [List.mem_cons, List.not_mem_nil, or_false, not_or] at elsewhere
    simp [split, elsewhere.2.1, elsewhere.2.2]

/-! ## Adding a key -/

theorem predecessor_of_linked {front back : List Nat} {first target last : Nat}
    (linked : Linked map.node (front ++ target :: back)) (outside : target ∉ front)
    (starts : front.head? = some first) (ends : front.getLast? = some last) {steps : Nat}
    (enough : front.length ≤ steps) : map.predecessor target steps first = last := by
  induction front generalizing first steps with
  | nil => simp at starts
  | cons start front ih =>
      obtain rfl : start = first := by simpa using starts
      obtain ⟨steps, rfl⟩ := Nat.exists_eq_add_of_le' (Nat.zero_lt_of_lt enough)
      obtain ⟨next, linked⟩ := linked
      cases front with
      | nil =>
          have next : (map.node start).next = some target := next
          obtain rfl : start = last := by simpa using ends
          simp [predecessor, next]
      | cons second front =>
          have next : (map.node start).next = some second := next
          have differ : second ≠ target := fun equal => outside (by simp [equal])
          simp only [predecessor, next, differ, if_false]
          exact ih linked (fun member => outside (by simp [member])) rfl
            (by simpa using ends) (by simpa using enough)

/-- No node holds the key. -/
def Lacks (map : ChainedMap ν) (key : Value) : Prop :=
  ∀ index, (map.node index).holds key = false

theorem lacks_iff {key : Value} :
    map.Lacks key ↔ ∀ entry ∈ map.entries, entry.1.sameKey key = false := by
  constructor
  · intro lacks entry member
    obtain ⟨index, held⟩ := mem_entries_iff.mp member
    simpa [Node.holds, held] using lacks index
  · intro differ index
    by_contra holds
    obtain ⟨entry, held, same⟩ := Node.holds_iff.mp (by simpa using holds)
    rw [differ entry (mem_entries_iff.mpr ⟨index, held⟩)] at same
    exact absurd same (by simp)

/-- A map with one more entry is sound when its chains, free nodes and counts are. -/
theorem Sound.extend (sound : Sound hash map) {key : Value} {value : ν} (lacks : map.Lacks key)
    (sizes : grown.nodes.size = map.nodes.size) (firstFree_le : grown.firstFree ≤ map.nodes.size)
    (free_next : ∀ index, (grown.node index).entry = none → (grown.node index).next = none)
    (chained : ∃ chain, Chains hash grown chain)
    (perm : grown.entries.Perm ((key, value) :: map.entries))
    (used : grown.used = map.used + 1) : Sound hash grown := by
  have distinct : DistinctKeys ((key, value) :: map.entries) :=
    distinctKeys_cons.mpr ⟨lacks_iff.mp lacks, sound.distinct⟩
  refine sound.rearrange sizes firstFree_le free_next chained distinct perm ?_
  rw [used, sound.used_eq, List.length_cons]

theorem Sound.addAt_place (sound : Sound hash map) {key : Value} (value : ν)
    (lacks : map.Lacks key) (homeFree : (map.node (map.home hash key)).entry = none) (free : Nat) :
    Sound hash (map.addAt hash free key value) ∧
      (map.addAt hash free key value).entries.Perm ((key, value) :: map.entries) := by
  obtain ⟨chain, chains⟩ := sound.chained
  have within := home_lt sound key
  have shape : (map.addAt hash free key value).nodes =
      (map.setNode (map.home hash key) ⟨some (key, value), none⟩).nodes := by
    simp only [addAt, homeFree]
  have nodes := (node_congr shape).trans (node_setNode _ within)
  have sizes : (map.addAt hash free key value).nodes.size = map.nodes.size := by
    rw [shape, size_setNode]
  have perm : (map.addAt hash free key value).entries.Perm ((key, value) :: map.entries) := by
    have exchanged := entries_setNode_perm ⟨some (key, value), none⟩ within
    rw [homeFree, ← entries_congr shape] at exchanged
    simpa using exchanged.trans List.perm_append_comm
  refine ⟨sound.extend lacks sizes ?_ ?_
    ⟨_, chains.place rfl homeFree sizes nodes⟩ perm ?_, perm⟩
  · simpa [addAt, homeFree, setNode] using sound.firstFree_le
  · intro index isFree
    rw [nodes] at isFree ⊢
    by_cases atHome : index = map.home hash key
    · simp [atHome]
    · rw [Function.update_of_ne atHome] at isFree ⊢
      exact sound.free_next index isFree
  · simp [addAt, homeFree, setNode]

theorem Sound.addAt_append (sound : Sound hash map) {key : Value} (value : ν)
    (lacks : map.Lacks key) {free : Nat} (isFree : (map.node free).entry = none)
    (within : free < map.nodes.size) {resident : Value × ν}
    (taken : (map.node (map.home hash key)).entry = some resident)
    (own : map.home hash resident.1 = map.home hash key) :
    Sound hash (map.addAt hash free key value) ∧
      (map.addAt hash free key value).entries.Perm ((key, value) :: map.entries) := by
  obtain ⟨chain, chains⟩ := sound.chained
  have member := chains.mem_of_entry taken
  rw [own] at member
  obtain ⟨rest, starts⟩ := chains.eq_cons_of_mem member
  have homeLt := home_lt sound key
  have differ : map.home hash key ≠ free := fun equal => by simp [equal, isFree] at taken
  let behind := map.setNode free ⟨some (key, value), (map.node (map.home hash key)).next⟩
  have shape : (map.addAt hash free key value).nodes =
      (behind.setNext (map.home hash key) (some free)).nodes := by
    simp only [addAt, taken, own, if_true, behind]
  have homeLt' : map.home hash key < behind.nodes.size := by simpa [behind] using homeLt
  have nodes : (map.addAt hash free key value).node =
      Function.update
        (Function.update map.node free
          ⟨some (key, value), (map.node (map.home hash key)).next⟩)
        (map.home hash key) { map.node (map.home hash key) with next := some free } := by
    rw [node_congr shape, setNext_eq_setNode _ homeLt', node_setNode _ homeLt',
      node_setNode _ within, Function.update_of_ne differ]
  have sizes : (map.addAt hash free key value).nodes.size = map.nodes.size := by
    rw [shape, size_setNext, size_setNode]
  have perm : (map.addAt hash free key value).entries.Perm ((key, value) :: map.entries) := by
    have exchanged := entries_setNode_perm
      ⟨some (key, value), (map.node (map.home hash key)).next⟩ within
    rw [isFree] at exchanged
    rw [entries_congr shape]
    refine (entries_setNext_perm (some free) homeLt').trans ?_
    simpa using exchanged.trans List.perm_append_comm
  refine ⟨sound.extend lacks sizes ?_ ?_
    ⟨_, chains.append rfl starts isFree sizes nodes⟩ perm ?_, perm⟩
  · simpa [addAt, taken, own] using Nat.le_of_lt within
  · intro index empty
    rw [nodes] at empty ⊢
    by_cases atHome : index = map.home hash key
    · simp [atHome, taken] at empty
    · rw [Function.update_of_ne atHome] at empty ⊢
      by_cases atFree : index = free
      · simp [atFree] at empty
      · rw [Function.update_of_ne atFree] at empty ⊢
        exact sound.free_next index empty
  · simp [addAt, taken, own, setNode, setNext]

/-- The map in which what stood in the home, behind another node, has moved to a free node. -/
def vacated (map : ChainedMap ν) (home free before : Nat) : ChainedMap ν :=
  { ((map.setNext before (some free)).setNode free (map.node home)).setNode home Node.free with
    firstFree := free }

theorem size_vacated (home free before : Nat) :
    (map.vacated home free before).nodes.size = map.nodes.size := by
  simp [vacated]

theorem Sound.vacated (sound : Sound hash map) (chains : Chains hash map chain)
    {home owner free last : Nat} {front back : List Nat}
    (split : chain owner = front ++ home :: back)
    (ends : front.getLast? = some last) (isFree : (map.node free).entry = none)
    (within : free < map.nodes.size) :
    Sound hash (map.vacated home free last) ∧
      ((map.vacated home free last).node home).entry = none ∧
      (map.vacated home free last).entries.Perm map.entries := by
  have homeMember : home ∈ chain owner := by simp [split]
  have lastMember : last ∈ chain owner := by simp [split, List.mem_of_getLast? ends]
  have freeHome : home ≠ free := fun equal =>
    chains.notMem_of_free isFree owner (equal ▸ homeMember)
  let relinked := map.setNext last (some free)
  let shifted := relinked.setNode free (map.node home)
  have shape : (map.vacated home free last).nodes = (shifted.setNode home Node.free).nodes := rfl
  have lastLt := chains.lt_size lastMember
  have freeLt : free < relinked.nodes.size := by simpa [relinked] using within
  have homeLt : home < shifted.nodes.size := by
    simpa [shifted, relinked] using chains.lt_size homeMember
  have nodes : (map.vacated home free last).node =
      Function.update
        (Function.update
          (Function.update map.node last { map.node last with next := some free })
          free (map.node home))
        home Node.free := by
    rw [node_congr shape, node_setNode _ homeLt]
    simp only [shifted]
    rw [node_setNode _ freeLt]
    simp only [relinked]
    rw [setNext_eq_setNode _ lastLt, node_setNode _ lastLt]
  -- Each of the lists still carries what stands in the home, which only changes its node.
  have perm : (map.vacated home free last).entries.Perm map.entries := by
    have cleared := entries_setNode_perm Node.free homeLt
    have copied := entries_setNode_perm (map.node home) freeLt
    have homeEntry : (shifted.node home).entry = (map.node home).entry := by
      simp only [shifted, relinked, entry_setNode, entry_setNext, Ne.symm freeHome, false_and,
        if_false]
    have freeEntry : (relinked.node free).entry = none := by
      simp only [relinked, entry_setNext, isFree]
    rw [homeEntry, ← entries_congr shape] at cleared
    rw [freeEntry] at copied
    refine (List.perm_append_right_iff (map.node home).entry.toList).mp ?_
    calc
      ((map.vacated home free last).entries ++ (map.node home).entry.toList).Perm shifted.entries :=
        by simpa [Node.free] using cleared
      _ |>.Perm (relinked.entries ++ (map.node home).entry.toList) := by simpa using copied
      _ |>.Perm (map.entries ++ (map.node home).entry.toList) :=
        (entries_setNext_perm (some free) lastLt).append_right _
  have sizes : (map.vacated home free last).nodes.size = map.nodes.size :=
    size_vacated home free last
  refine ⟨?_, by simp [nodes, Node.free], perm⟩
  refine sound.rearrange sizes (Nat.le_of_lt within) ?_
    ⟨_, chains.relocate split ends isFree sizes nodes⟩ sound.distinct perm sound.used_eq
  intro index empty
  rw [nodes] at empty ⊢
  by_cases atHome : index = home
  · simp [atHome, Node.free]
  · rw [Function.update_of_ne atHome] at empty ⊢
    by_cases atFree : index = free
    · exact absurd (by simpa [atFree] using empty) (chains.entry_of_mem homeMember)
    · rw [Function.update_of_ne atFree] at empty ⊢
      by_cases atLast : index = last
      · exact absurd (by simpa [atLast] using empty) (chains.entry_of_mem lastMember)
      · rw [Function.update_of_ne atLast] at empty ⊢
        exact sound.free_next index empty

theorem Lacks.of_perm {other : ChainedMap ν} {key : Value} (lacks : map.Lacks key)
    (perm : other.entries.Perm map.entries) : other.Lacks key := by
  rw [lacks_iff] at lacks ⊢
  intro entry member
  exact lacks entry (perm.mem_iff.mp member)

/-- A key whose home is taken by another chain drives the node there out to a free node and is then
placed like one whose home is free. -/
theorem Sound.addAt_evict (sound : Sound hash map) {key : Value} (value : ν)
    (lacks : map.Lacks key) {free : Nat} (isFree : (map.node free).entry = none)
    (within : free < map.nodes.size) {resident : Value × ν}
    (taken : (map.node (map.home hash key)).entry = some resident)
    (foreign : map.home hash resident.1 ≠ map.home hash key) :
    Sound hash (map.addAt hash free key value) ∧
      (map.addAt hash free key value).entries.Perm ((key, value) :: map.entries) := by
  obtain ⟨chain, chains⟩ := sound.chained
  have member := chains.mem_of_entry taken
  obtain ⟨front, back, split⟩ := List.append_of_mem member
  obtain ⟨rest, starts⟩ := chains.eq_cons_of_mem member
  have nodup := chains.nodup (map.home hash resident.1)
  have bound := chains.length_le (map.home hash resident.1)
  have linked := chains.linked (map.home hash resident.1)
  rw [split] at nodup bound linked
  have first : front.head? = some (map.home hash resident.1) := by
    cases front with
    | nil =>
        rw [split] at starts
        exact absurd (List.cons.inj starts).1.symm foreign
    | cons start front =>
        rw [split] at starts
        simpa using (List.cons.inj starts).1
  obtain ⟨last, ends⟩ : ∃ last, front.getLast? = some last := by
    cases front with
    | nil => simp at first
    | cons start front => exact ⟨_, List.getLast?_eq_getLast_of_ne_nil (by simp)⟩
  have outside : map.home hash key ∉ front := fun inFront =>
    (List.nodup_append.mp nodup).2.2 _ inFront _ (by simp) rfl
  have before : map.predecessor (map.home hash key) map.nodes.size (map.home hash resident.1) =
      last := predecessor_of_linked linked outside first ends (by simp at bound; omega)
  obtain ⟨vacated, homeFree, perm⟩ := sound.vacated chains split ends isFree within
  have sameHome : (map.vacated (map.home hash key) free last).home hash key = map.home hash key :=
    home_congr (size_vacated _ _ _) key
  have same : map.addAt hash free key value =
      (map.vacated (map.home hash key) free last).addAt hash free key value := by
    simp only [ChainedMap.addAt, taken, foreign, if_false, before, sameHome, homeFree]
    simp only [ChainedMap.vacated, setNode, Array.setIfInBounds_setIfInBounds]
  obtain ⟨placed, added⟩ :=
    vacated.addAt_place value (lacks.of_perm perm) (by rw [sameHome, homeFree]) free
  rw [same]
  exact ⟨placed, added.trans (perm.cons _)⟩

/-- Adding a key keeps a map sound and adds its entry. -/
theorem Sound.addAt (sound : Sound hash map) {key : Value} (value : ν) (lacks : map.Lacks key)
    {free : Nat} (found : map.spare? hash key = some free) :
    Sound hash (map.addAt hash free key value) ∧
      (map.addAt hash free key value).entries.Perm ((key, value) :: map.entries) := by
  obtain ⟨within, isFree⟩ := sound.spare?_free found
  cases taken : (map.node (map.home hash key)).entry with
  | none => exact sound.addAt_place value lacks taken free
  | some resident =>
      by_cases own : map.home hash resident.1 = map.home hash key
      · exact sound.addAt_append value lacks isFree within taken own
      · exact sound.addAt_evict value lacks isFree within taken own

end ScriptMachine.ChainedMap
