import ScriptMachine.Proofs.ChainedMap.Rebuild

/-!
# Removal from a chained map

A removed node stands behind another one of its chain, or it heads a chain with further nodes, or
it is a chain by itself.  In the first case the node before it is linked past it; in the second its
successor moves into the home, so that the chain still starts there.  In all cases exactly the
removed entry is gone.
-/

namespace ScriptMachine.ChainedMap

variable {ν : Type} {hash : Value → UInt64} {map less : ChainedMap ν} {chain : Nat → List Nat}

/-! ## The three ways to remove a node -/

/-- A node behind another one is taken out of its chain. -/
theorem Chains.bypass (chains : Chains hash map chain) {home index last : Nat}
    {front back : List Nat} (split : chain home = front ++ index :: back)
    (ends : front.getLast? = some last) (sizes : less.nodes.size = map.nodes.size)
    (nodes : less.node =
      Function.update
        (Function.update map.node last { map.node last with next := (map.node index).next })
        index Node.free) :
    Chains hash less (Function.update chain home (front ++ back)) := by
  have lastFront : last ∈ front := List.mem_of_getLast? ends
  have lastMember : last ∈ chain home := by simp [split, lastFront]
  have member : index ∈ chain home := by simp [split]
  have linked := chains.linked home
  have nodup := chains.nodup home
  rw [split] at linked nodup
  have apart := (List.nodup_append.mp nodup).2.2
  obtain ⟨fresh, nodup⟩ := List.nodup_cons.mp (List.nodup_middle.mp nodup)
  obtain ⟨outside, indexBack⟩ := not_or.mp (List.mem_append.not.mp fresh)
  have differ : last ≠ index := fun equal => outside (equal ▸ lastFront)
  have lastNode : less.node last = { map.node last with next := (map.node index).next } := by
    simp [nodes, differ]
  have indexNode : less.node index = Node.free := by simp [nodes]
  have stays : ∀ place, place ≠ last → place ≠ index → less.node place = map.node place := by
    intro place notLast notIndex
    simp [nodes, notLast, notIndex]
  have indexLinked : Linked map.node (index :: back) := linked.tail
  have backLinked : Linked less.node back := by
    refine indexLinked.2.congr fun place inBack => ?_
    rw [stays place]
    · exact fun equal => apart last lastFront place (by simp [inBack]) equal.symm
    · exact fun equal => indexBack (equal ▸ inBack)
  refine chains.exchange [last, index] sizes ?_ nodup ?_ ?_ ?_ ?_
  · refine linked.splice (List.nodup_append.mp nodup).1 ends backLinked ?_ ?_
    · intro place inFront notLast
      rw [stays place notLast fun equal => outside (equal ▸ inFront)]
    · rw [lastNode]
      exact indexLinked.1
  · intro place first
    apply chains.head home place
    cases front with
    | nil => simp at ends
    | cons start front => simpa [split] using first
  · intro place among
    rcases List.mem_pair.mp among with rfl | rfl
    · constructor
      · exact fun entry => chains.home_of_mem lastMember
      · rw [lastNode]
        exact fun entry => chains.home_of_mem lastMember
      · simpa [lastNode, lastFront] using chains.entry_of_mem lastMember
    · constructor
      · exact fun entry => chains.home_of_mem member
      · simp [indexNode, Node.free]
      · simp [indexNode, Node.free, outside, indexBack]
  · intro place elsewhere
    obtain ⟨notLast, notIndex⟩ := not_or.mp (List.mem_pair.not.mp elsewhere)
    exact stays place notLast notIndex
  · intro place elsewhere
    obtain ⟨_, notIndex⟩ := not_or.mp (List.mem_pair.not.mp elsewhere)
    simp [split, notIndex]

/-- A head gives its place to its successor. -/
theorem Chains.promote (chains : Chains hash map chain) {home next : Nat} {rest : List Nat}
    (starts : chain home = home :: next :: rest) (sizes : less.nodes.size = map.nodes.size)
    (nodes : less.node =
      Function.update (Function.update map.node home (map.node next)) next Node.free) :
    Chains hash less (Function.update chain home (home :: rest)) := by
  have homeMember : home ∈ chain home := by simp [starts]
  have nextMember : next ∈ chain home := by simp [starts]
  have linked := chains.linked home
  have nodup := chains.nodup home
  rw [starts] at linked nodup
  obtain ⟨fresh, nodup⟩ := List.nodup_cons.mp nodup
  obtain ⟨nextRest, nodup⟩ := List.nodup_cons.mp nodup
  obtain ⟨differ, homeRest⟩ := not_or.mp (List.mem_cons.not.mp fresh)
  have homeNode : less.node home = map.node next := by simp [nodes, differ]
  have nextNode : less.node next = Node.free := by simp [nodes]
  have stays : ∀ place, place ≠ home → place ≠ next → less.node place = map.node place := by
    intro place notHome notNext
    simp [nodes, notHome, notNext]
  refine chains.exchange [home, next] sizes ?_ (List.nodup_cons.mpr ⟨homeRest, nodup⟩) ?_ ?_ ?_ ?_
  · refine ⟨by rw [homeNode]; exact linked.2.1, linked.2.2.congr fun place inRest => ?_⟩
    rw [stays place (fun equal => homeRest (equal ▸ inRest)) fun equal =>
      nextRest (equal ▸ inRest)]
  · simp
  · intro place among
    rcases List.mem_pair.mp among with rfl | rfl
    · constructor
      · exact fun entry => chains.home_of_mem homeMember
      · rw [homeNode]
        exact fun entry => chains.home_of_mem nextMember
      · simpa [homeNode] using chains.entry_of_mem nextMember
    · constructor
      · exact fun entry => chains.home_of_mem nextMember
      · simp [nextNode, Node.free]
      · simp [nextNode, Node.free, Ne.symm differ, nextRest]
  · intro place elsewhere
    obtain ⟨notHome, notNext⟩ := not_or.mp (List.mem_pair.not.mp elsewhere)
    exact stays place notHome notNext
  · intro place elsewhere
    obtain ⟨_, notNext⟩ := not_or.mp (List.mem_pair.not.mp elsewhere)
    simp [starts, notNext]

/-- A chain of one node vanishes. -/
theorem Chains.vacate (chains : Chains hash map chain) {home : Nat} (single : chain home = [home])
    (sizes : less.nodes.size = map.nodes.size)
    (nodes : less.node = Function.update map.node home Node.free) :
    Chains hash less (Function.update chain home []) := by
  have member : home ∈ chain home := by simp [single]
  have homeNode : less.node home = Node.free := by simp [nodes]
  refine chains.exchange [home] sizes trivial List.nodup_nil ?_ ?_ ?_ ?_
  · simp
  · intro place among
    obtain rfl := List.mem_singleton.mp among
    constructor
    · exact fun entry => chains.home_of_mem member
    · simp [homeNode, Node.free]
    · simp [homeNode, Node.free]
  · intro place elsewhere
    rw [nodes, Function.update_of_ne (by simpa using elsewhere)]
  · simp [single]

/-! ## Removing a key -/

/-- What taking the node of an entry out of its chain leaves behind. -/
structure Without (hash : Value → UInt64) (map : ChainedMap ν) (entry : Value × ν)
    (less : ChainedMap ν) : Prop where
  /-- The number of nodes stays. -/
  sizes : less.nodes.size = map.nodes.size
  /-- The other keys stand in chains. -/
  chained : ∃ chain, Chains hash less chain
  /-- A free node has no successor. -/
  free_next : ∀ index, (less.node index).entry = none → (less.node index).next = none
  /-- Exactly the entry is gone. -/
  perm : (entry :: less.entries).Perm map.entries

theorem Sound.unlink_behind (sound : Sound hash map) (chains : Chains hash map chain)
    {home index last : Nat} {front back : List Nat} (split : chain home = front ++ index :: back)
    (ends : front.getLast? = some last) {entry : Value × ν}
    (held : (map.node index).entry = some entry) :
    Without hash map entry (map.unlink (some last) index) := by
  have within := lt_of_entry held
  have lastMember : last ∈ chain home := by simp [split, List.mem_of_getLast? ends]
  have lastLt := chains.lt_size lastMember
  let relinked := map.setNext last (map.node index).next
  have within' : index < relinked.nodes.size := by simpa [relinked] using within
  have shape : map.unlink (some last) index = relinked.setNode index Node.free := rfl
  have nodes : (map.unlink (some last) index).node =
      Function.update
        (Function.update map.node last { map.node last with next := (map.node index).next })
        index Node.free := by
    rw [shape, node_setNode _ within']
    simp only [relinked]
    rw [setNext_eq_setNode _ lastLt, node_setNode _ lastLt]
  have sizes : (map.unlink (some last) index).nodes.size = map.nodes.size := by
    simp [shape, relinked]
  refine ⟨sizes, ⟨_, chains.bypass split ends sizes nodes⟩, ?_, ?_⟩
  · intro other isFree
    rw [nodes] at isFree ⊢
    by_cases removed : other = index
    · simp [removed, Node.free]
    · rw [Function.update_of_ne removed] at isFree ⊢
      by_cases atLast : other = last
      · subst other
        exact absurd (by simpa using isFree) (chains.entry_of_mem lastMember)
      · rw [Function.update_of_ne atLast] at isFree ⊢
        exact sound.free_next other isFree
  · have exchanged := entries_setNode_perm Node.free within'
    have held' : (relinked.node index).entry = some entry := by
      simp only [relinked, entry_setNext, held]
    rw [held', ← shape] at exchanged
    refine List.Perm.trans ?_ (entries_setNext_perm (map.node index).next lastLt)
    refine (List.perm_append_singleton entry _).symm.trans ?_
    simpa [Node.free] using exchanged

theorem Sound.unlink_single (sound : Sound hash map) (chains : Chains hash map chain)
    {home : Nat} (single : chain home = [home]) {entry : Value × ν}
    (held : (map.node home).entry = some entry) :
    Without hash map entry (map.unlink none home) := by
  have within := lt_of_entry held
  have linked := chains.linked home
  rw [single] at linked
  have shape : map.unlink none home = map.setNode home Node.free := by
    have next : (map.node home).next = none := linked.1
    simp [ChainedMap.unlink, next]
  have nodes : (map.unlink none home).node = Function.update map.node home Node.free := by
    rw [shape, node_setNode _ within]
  have sizes : (map.unlink none home).nodes.size = map.nodes.size := by simp [shape]
  refine ⟨sizes, ⟨_, chains.vacate single sizes nodes⟩, ?_, ?_⟩
  · intro other isFree
    rw [nodes] at isFree ⊢
    by_cases removed : other = home
    · simp [removed, Node.free]
    · rw [Function.update_of_ne removed] at isFree ⊢
      exact sound.free_next other isFree
  · have exchanged := entries_setNode_perm Node.free within
    rw [held, ← shape] at exchanged
    refine (List.perm_append_singleton entry _).symm.trans ?_
    simpa [Node.free] using exchanged

theorem Sound.unlink_head (sound : Sound hash map) (chains : Chains hash map chain)
    {home second : Nat} {rest : List Nat} (starts : chain home = home :: second :: rest)
    {entry : Value × ν} (held : (map.node home).entry = some entry) :
    Without hash map entry (map.unlink none home) := by
  have within := lt_of_entry held
  have linked := chains.linked home
  have nodup := chains.nodup home
  rw [starts] at linked nodup
  have differ : home ≠ second := fun equal => (List.nodup_cons.mp nodup).1 (by simp [equal])
  have secondMember : second ∈ chain home := by simp [starts]
  have secondLt := chains.lt_size secondMember
  obtain ⟨successor, successorHeld, _⟩ := (chains.mem_iff home second).mp secondMember
  let moved := map.setNode home (map.node second)
  have secondLt' : second < moved.nodes.size := by simpa [moved] using secondLt
  have shape : map.unlink none home = moved.setNode second Node.free := by
    have next : (map.node home).next = some second := linked.1
    simp [ChainedMap.unlink, next, moved]
  have nodes : (map.unlink none home).node =
      Function.update (Function.update map.node home (map.node second)) second Node.free := by
    rw [shape, node_setNode _ secondLt', node_setNode _ within]
  have sizes : (map.unlink none home).nodes.size = map.nodes.size := by simp [shape, moved]
  refine ⟨sizes, ⟨_, chains.promote starts sizes nodes⟩, ?_, ?_⟩
  · intro other isFree
    rw [nodes] at isFree ⊢
    by_cases removed : other = second
    · simp [removed, Node.free]
    · rw [Function.update_of_ne removed] at isFree ⊢
      by_cases atHome : other = home
      · simp [atHome, successorHeld] at isFree
      · rw [Function.update_of_ne atHome] at isFree ⊢
        exact sound.free_next other isFree
  · have first := entries_setNode_perm (map.node second) within
    have last := entries_setNode_perm Node.free secondLt'
    have held' : (moved.node second).entry = some successor := by
      simp only [moved]
      rw [node_setNode _ within, Function.update_of_ne (Ne.symm differ), successorHeld]
    rw [held', ← shape] at last
    rw [held, successorHeld] at first
    -- Both sides still carry the successor, which has only changed its node.
    have whole : ((entry :: (map.unlink none home).entries) ++ [successor]).Perm
        (map.entries ++ [successor]) := by
      refine List.Perm.trans ?_ first
      refine (List.perm_append_singleton entry _).symm.trans ?_
      simpa [Node.free] using last.append_right [entry]
    exact (List.perm_append_right_iff _).mp whole

/-- Taking the node of an entry out of its chain removes exactly that entry. -/
theorem Sound.unlink (sound : Sound hash map) (chains : Chains hash map chain) {home index : Nat}
    {front back : List Nat} (split : chain home = front ++ index :: back) {entry : Value × ν}
    (held : (map.node index).entry = some entry) :
    Without hash map entry (map.unlink front.getLast? index) := by
  cases ends : front.getLast? with
  | some last => exact sound.unlink_behind chains split ends held
  | none =>
      obtain rfl : front = [] := by simpa using ends
      obtain rfl : index = home := chains.head home index (by simp [split])
      cases back with
      | nil => exact sound.unlink_single chains split held
      | cons second rest => exact sound.unlink_head chains split held

theorem Without.sound {entry : Value × ν} (without : Without hash map entry less)
    (sound : Sound hash map) (firstFree : less.firstFree = map.firstFree)
    (used : less.used = map.used - 1) : Sound hash less := by
  have distinct := (distinctKeys_cons.mp (sound.distinct.of_perm without.perm.symm)).2
  have count := without.perm.length_eq
  rw [List.length_cons] at count
  refine sound.rearrange without.sizes (firstFree ▸ sound.firstFree_le) without.free_next
    without.chained distinct (.refl _) ?_
  rw [used, sound.used_eq]
  omega

/-- Half the nodes are enough for a quarter of them. -/
theorem Sound.rehash_half (sound : Sound hash map) (larger : leastSize < map.nodes.size)
    (few : map.used ≤ map.nodes.size / 4) :
    Sound hash (map.rehash hash (map.nodes.size / 2)) ∧
      (map.rehash hash (map.nodes.size / 2)).nodes.size = map.nodes.size / 2 ∧
      (map.rehash hash (map.nodes.size / 2)).entries.Perm map.entries := by
  rw [sound.used_eq] at few
  obtain ⟨exponent, power⟩ := sound.powerOfTwo
  -- A power of two above four is at least eight, so its half is one of at least four.
  obtain ⟨smaller, rfl⟩ : ∃ smaller, exponent = smaller + 3 := by
    refine ⟨exponent - 3, ?_⟩
    have big : 2 < exponent := by
      apply (Nat.pow_lt_pow_iff_right (by decide : 1 < 2)).mp
      rw [← power]
      exact larger
    omega
  have half : map.nodes.size / 2 = 2 ^ (smaller + 2) := by
    rw [power, Nat.pow_succ]
    omega
  have least : leastSize ≤ map.nodes.size / 2 := by
    rw [half, Nat.pow_add]
    have positive := Nat.two_pow_pos smaller
    simp only [leastSize]
    omega
  obtain ⟨sound', _, sizes, perm⟩ := sound.rehash ⟨smaller + 2, half⟩ least (by omega)
  exact ⟨sound', sizes, perm⟩

/-- Halving keeps all entries. -/
theorem Sound.shrink (sound : Sound hash map) :
    Sound hash (map.shrink hash) ∧ (map.shrink hash).entries.Perm map.entries := by
  rw [ChainedMap.shrink]
  split
  case isTrue sparse =>
    obtain ⟨sound', _, perm⟩ := sound.rehash_half sparse.1 sparse.2
    exact ⟨sound', perm⟩
  case isFalse => exact ⟨sound, List.Perm.refl _⟩

/-- The map without the entry at an index, before it is shrunk. -/
def removed (map : ChainedMap ν) (before : Option Nat) (index : Nat) : ChainedMap ν :=
  { map.unlink before index with used := map.used - 1 }

/-- The entry of a key is found, and without it the map is sound. -/
theorem Sound.removed (sound : Sound hash map) (consistent : Consistent hash)
    {key : Value} {index : Nat} {entry : Value × ν} (held : (map.node index).entry = some entry)
    (same : entry.1.sameKey key = true) :
    ∃ before, map.locate? hash key = some (before, index) ∧
      Sound hash (map.removed before index) ∧
      Without hash map entry (map.removed before index) := by
  obtain ⟨chain, chains⟩ := sound.chained
  obtain ⟨front, back, split, located⟩ :=
    sound.locate?_eq_some consistent chains (Node.holds_iff.mpr ⟨entry, held, same⟩)
  have without := sound.unlink chains split held
  have firstFree : (map.removed front.getLast? index).firstFree = map.firstFree := by
    simp only [ChainedMap.removed, ChainedMap.unlink]
    split <;> rfl
  have without' : Without hash map entry (map.removed front.getLast? index) :=
    ⟨without.sizes, without.chained.imp fun _ chains => ⟨chains.1, chains.2, chains.3, chains.4⟩,
      without.free_next, without.perm⟩
  exact ⟨front.getLast?, located, without'.sound sound firstFree rfl, without'⟩

/-- Removing a key that has an entry removes exactly that entry and reports its value. -/
theorem Sound.erase?_eq_some (sound : Sound hash map) (consistent : Consistent hash)
    {key : Value} {index : Nat} {entry : Value × ν} (held : (map.node index).entry = some entry)
    (same : entry.1.sameKey key = true) :
    ∃ less, map.erase? hash key = some (entry.2, less) ∧ Sound hash less ∧
      (entry :: less.entries).Perm map.entries := by
  obtain ⟨before, located, fewer, without⟩ := sound.removed consistent held same
  obtain ⟨sound', perm⟩ := fewer.shrink
  refine ⟨(map.removed before index).shrink hash, ?_, sound', (perm.cons entry).trans without.perm⟩
  simp [erase?, located, held, ChainedMap.removed]

theorem Sound.erase?_eq_none (sound : Sound hash map) {key : Value} (lacks : map.Lacks key) :
    map.erase? hash key = none := by
  simp [erase?, sound.locate?_eq_none lacks]

end ScriptMachine.ChainedMap
