import Mathlib.Data.List.Flatten
import ScriptMachine.Heap.Collector
import ScriptMachine.Proofs.Heap.Release

/-!
# What objects report

An object holds what stands in its fields and in the nodes of its maps, free or not, and reports
what its kind goes through when it is asked.  `Content.perm_reported` says of every kind that each
reference of the content is reported exactly as often as it is held, so that taking away the reports
leaves of the count of an object what is held otherwise: from outside, by objects that are lent to a
writer, and beyond the contents of objects.
-/

namespace ScriptMachine

/-! ## Values, nodes and fibers -/

theorem Value.flatMap_reported (values : List Value) :
    values.flatMap Value.reported = Value.addresses values := by
  induction values with
  | nil => rfl
  | cons value rest ih =>
      rw [List.flatMap_cons, ih, Value.addresses, Value.addresses, List.filterMap_cons,
        Value.reported]
      cases value.address? with
      | none => rfl
      | some index => rfl

theorem Value.allReported_eq (values : Array Value) :
    Value.allReported values = Value.addresses values.toList :=
  Value.flatMap_reported values.toList

/-- A free node holds nothing, so that it does not matter whether it is passed over. -/
theorem ChainedMap.flatMap_nodes {ν : Type} (map : ChainedMap ν)
    (references : Value × ν → List Nat) :
    map.nodes.toList.flatMap (fun node => node.entry.toList.flatMap references) =
      map.entries.flatMap references := by
  rw [ChainedMap.entries]
  induction map.nodes.toList with
  | nil => rfl
  | cons node rest ih =>
      rw [List.flatMap_cons, ih, List.filterMap_cons]
      cases node.entry with
      | none => rfl
      | some entry => simp

theorem Table.flatMap_nodes (table : Table) :
    table.entries.nodes.toList.flatMap Node.references =
      table.entries.entries.flatMap fun (key, value) => key.reported ++ value.reported := by
  refine (table.entries.flatMap_nodes fun (key, value) => Value.addresses [key, value]).trans ?_
  refine List.flatMap_congr fun (key, value) _ => ?_
  show Value.addresses [key, value] = key.reported ++ value.reported
  rw [← Value.flatMap_reported]
  simp

theorem Class.flatMap_nodes (cls : Class) :
    cls.members.nodes.toList.flatMap Node.keyReferences =
      cls.members.entries.flatMap fun (key, _) => key.reported := by
  rw [← ChainedMap.flatMap_nodes]
  refine List.flatMap_congr fun node _ => ?_
  rw [Node.keyReferences]
  cases node.entry with
  | none => rfl
  | some entry => simp [← Value.flatMap_reported]

theorem Ref.toList_map_index {kind : Kind} (ref : Option (Ref kind)) :
    ref.toList.map Ref.index = (ref.map Ref.index).toList := by
  cases ref with
  | none => rfl
  | some ref => rfl

theorem Fiber.reported_eq (fiber : Fiber) : fiber.reported = fiber.references := by
  simp only [Fiber.reported, Fiber.references, Value.allReported_eq, Value.flatMap_reported,
    Ref.toList_map_index]
  rfl

/-! ## Objects -/

/-- Every reference of the content of an object is reported, and none is reported twice: the keys
and values of a table with its delegate, a hook both as a method and as a hook, what each frame of a
thread runs. -/
theorem Content.reported_eq {kind : Kind} (content : Content kind) :
    content.reported = content.references := by
  cases kind with
  | table => rw [Content.reported, Content.references, Table.flatMap_nodes, Ref.toList_map_index]
  | array => exact Value.allReported_eq _
  | cell =>
    rw [Content.reported, Content.references, ← Value.flatMap_reported, List.flatMap_singleton]
  | closure => rfl
  | native => exact Value.allReported_eq _
  | generator => exact congrArg _ (Value.allReported_eq _)
  | cls =>
      rw [Content.reported, Content.references, Class.flatMap_nodes, Ref.toList_map_index,
        Value.allReported_eq, Value.allReported_eq, Value.allReported_eq]
  | inst => exact congrArg _ (Value.allReported_eq _)
  | userdata => exact Ref.toList_map_index _
  | thread =>
      cases content with
      | none => rfl
      | some fiber =>
          show fiber.reported ++ [] = fiber.references
          rw [List.append_nil, Fiber.reported_eq]

namespace Heap

variable {heap : Heap} {lent : List Nat}

theorem reportedAt_eq (heap : Heap) (index : Nat) :
    heap.reportedAt index = ((heap.object? index).map Object.references).getD [] := by
  have same : Object.reported = Object.references :=
    funext fun object => Content.reported_eq object.content
  rw [reportedAt, same]

/-- What an object holds otherwise than it reports. -/
def withheldAt (heap : Heap) (lent : List Nat) (index : Nat) : List Nat :=
  if index ∈ lent then heap.referencesAt index
  else if (heap.object? index).isSome then heap.hidden index else []

/-- An object reports what it holds but for what it withholds. -/
theorem referencesAt_perm (heap : Heap) (lent : List Nat) (index : Nat) :
    (heap.referencesAt index).Perm (heap.reportedBy lent index ++ heap.withheldAt lent index) := by
  by_cases isLent : index ∈ lent
  · simp [reportedBy, withheldAt, isLent]
  · refine .of_eq ?_
    rw [reportedBy, withheldAt, if_neg isLent, if_neg (by simpa using isLent), reportedAt_eq,
      referencesAt]
    cases heap.object? index with
    | none => rfl
    | some object => rfl

/-- Holding something otherwise than by a report: an object that is lent holds all it holds in this
way, and any other object what it holds beyond its content. -/
theorem mem_withheldAt {index other : Nat} :
    other ∈ heap.withheldAt lent index ↔ other ∈ heap.referencesAt index ∧
      (index ∈ lent ∨ other ∈ heap.hidden index) := by
  by_cases isLent : index ∈ lent
  · simp [withheldAt, isLent]
  · cases here : heap.object? index with
    | none => simp [withheldAt, isLent, here, mem_referencesAt]
    | some object => simp +contextual [withheldAt, isLent, here, mem_referencesAt]

theorem mem_reportedBy {index other : Nat} :
    other ∈ heap.reportedBy lent index ↔ index ∉ lent ∧ other ∈ heap.reportedAt index := by
  by_cases isLent : index ∈ lent <;> simp [reportedBy, isLent]

/-- What is reported is held. -/
theorem mem_referencesAt_of_reported {index other : Nat}
    (reported : other ∈ heap.reportedAt index) : other ∈ heap.referencesAt index := by
  rw [reportedAt_eq] at reported
  cases here : heap.object? index with
  | none => simp [here] at reported
  | some object =>
      rw [here] at reported
      exact mem_referencesAt.mpr ⟨object, here, .inl reported⟩

end Heap

end ScriptMachine
