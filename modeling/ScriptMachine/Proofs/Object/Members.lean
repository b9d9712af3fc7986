import ScriptMachine.Object.Class
import ScriptMachine.Proofs.ChainedMap.Refinement

/-!
# Members of a class

The map of a class leads from keys to places among the fields and the methods.  Every place that it
leads to exists and belongs to one key.  Besides, the class keeps the place of its initialiser and
the values of its hooks; both follow the method of the reserved name as long as the name is not
given to a field.  A name that turns from a method into a field leaves behind the method it named
last, as a hook or initialiser that no key leads to any more.
-/

namespace ScriptMachine

/-! ## Keys and lookups -/

namespace Value

theorem sameKey_comm (x y : Value) : x.sameKey y = y.sameKey x := by
  rw [Bool.eq_iff_iff, sameKey_iff, sameKey_iff, eq_comm]

theorem sameKey_trans {x y z : Value} (first : x.sameKey y = true) (second : y.sameKey z = true) :
    x.sameKey z = true :=
  sameKey_iff.mpr ((sameKey_iff.mp first).trans (sameKey_iff.mp second))

theorem sameKey_congr {x y : Value} (same : x.sameKey y = true) (z : Value) :
    z.sameKey x = z.sameKey y := by
  rw [Bool.eq_iff_iff, sameKey_iff, sameKey_iff, sameKey_iff.mp same]

/-- Only a string is the same key as it. -/
theorem sameKey_ofText {key : Value} {name : String} :
    key.sameKey (.ofText name) = true ↔ key = .ofText name := by
  rw [sameKey_iff]
  cases key with
  | float number =>
      by_cases isZero : number.isZero <;> simp [keyForm, ofText, isZero]
  | _ => simp [keyForm, ofText]

theorem toText?_eq_some {key : Value} {name : String} :
    key.toText? = some name ↔ key = .ofText name := by
  cases key with
  | string bytes =>
      simp only [toText?, ofText, String.fromUTF8?, string.injEq]
      constructor
      · intro valid
        obtain ⟨_, rfl⟩ : ∃ valid, String.fromUTF8 bytes valid = name := by
          simpa using valid
        rfl
      · rintro rfl
        simp [String.fromUTF8, name.isValidUTF8]
  | _ => simp [toText?, ofText]

end Value

theorem Dictionary.lookup?_insert {ν : Type} (dictionary : Dictionary ν) (key other : Value)
    (value : ν) :
    (dictionary.insert key value).lookup? other =
      if key.sameKey other then some value else dictionary.lookup? other := by
  by_cases present : (dictionary.lookup? key).isSome = true
  · rw [insert, if_pos present, lookup?, List.find?_map, Option.map_map]
    have keeps : (fun entry : Value × ν => entry.1.sameKey other) ∘
        (fun entry : Value × ν => if entry.1.sameKey key then (entry.1, value) else entry) =
          fun entry => entry.1.sameKey other := by
      funext entry
      simp only [Function.comp]
      split <;> rfl
    rw [keeps]
    split
    · rename_i same
      have found : dictionary.lookup? key = dictionary.lookup? other := by
        simp only [lookup?, Value.sameKey_congr same]
      rw [found, lookup?, Option.isSome_map] at present
      obtain ⟨entry, here⟩ := Option.isSome_iff_exists.mp present
      have matches_other : entry.1.sameKey other = true := by
        simpa using List.find?_some here
      rw [here]
      simp [Value.sameKey_congr same, matches_other]
    · rename_i differ
      cases here : dictionary.find? (fun entry => entry.1.sameKey other) with
      | none => simp [lookup?, here]
      | some entry =>
          have matches_other : entry.1.sameKey other = true := by
            simpa using List.find?_some here
          have apart : ¬ entry.1.sameKey key = true := fun same =>
            differ (Value.sameKey_trans (by rwa [Value.sameKey_comm]) matches_other)
          simp [lookup?, here, apart]
  · rw [insert, if_neg present, lookup?, List.find?_cons]
    split
    · rename_i same
      simp [same]
    · rename_i differ
      simp [differ, lookup?]

namespace ChainedMap

variable {ν : Type} {hash : Value → UInt64} {map : ChainedMap ν}

theorem Sound.get?_insert (sound : Sound hash map) (consistent : Consistent hash)
    (key other : Value) (value : ν) :
    (map.insert hash key value).get? hash other =
      if key.sameKey other then some value else map.get? hash other := by
  rw [(sound.represents.insert consistent key value).get?_eq consistent,
    sound.represents.get?_eq consistent, Dictionary.lookup?_insert]

end ChainedMap

namespace Hook

theorem ofName?_eq_some {name : String} {hook : Hook} :
    ofName? name = some hook ↔ name = hook.name := by
  constructor
  · intro found
    have named : (hook.name == name) = true :=
      List.find?_some (p := fun hook : Hook => hook.name == name) found
    exact (beq_iff_eq.mp named).symm
  · rintro rfl
    cases hook <;> decide

theorem ofKey?_eq_some {key : Value} {hook : Hook} :
    ofKey? key = some hook ↔ key = .ofText hook.name := by
  rw [ofKey?, Option.bind_eq_some_iff]
  constructor
  · rintro ⟨name, text, named⟩
    rw [← ofName?_eq_some.mp named]
    exact Value.toText?_eq_some.mp text
  · intro same
    exact ⟨hook.name, Value.toText?_eq_some.mpr same, ofName?_eq_some.mpr rfl⟩

theorem all_index (hook : Hook) : all[hook.index]? = some hook := by
  cases hook <;> rfl

theorem index_injective {hook other : Hook} (same : hook.index = other.index) : hook = other :=
  Option.some.inj ((all_index hook).symm.trans (same ▸ all_index other))

end Hook

/-! ## Edits -/

namespace Class

variable {cls after : Class} {key value : Value} {name : String}

section recordHook

variable (cls : Class) (key value : Value)

@[simp]
theorem recordHook_members : (cls.recordHook key value).members = cls.members := by
  rw [recordHook]
  split <;> rfl

@[simp]
theorem recordHook_defaults : (cls.recordHook key value).defaults = cls.defaults := by
  rw [recordHook]
  split <;> rfl

@[simp]
theorem recordHook_methods : (cls.recordHook key value).methods = cls.methods := by
  rw [recordHook]
  split <;> rfl

@[simp]
theorem recordHook_initializer :
    (cls.recordHook key value).initializer = cls.initializer := by
  rw [recordHook]
  split <;> rfl

@[simp]
theorem recordHook_base : (cls.recordHook key value).base = cls.base := by
  rw [recordHook]
  split <;> rfl

@[simp]
theorem recordHook_locked : (cls.recordHook key value).locked = cls.locked := by
  rw [recordHook]
  split <;> rfl

theorem recordHook_hooks (hook : Hook) :
    (cls.recordHook key value).hooks[hook.index]? =
      if key = .ofText hook.name then cls.hooks[hook.index]?.map fun _ => value
      else cls.hooks[hook.index]? := by
  by_cases same : key = .ofText hook.name
  · rw [if_pos same, recordHook, Hook.ofKey?_eq_some.mpr same, Array.getElem?_setIfInBounds_self]
    by_cases within : hook.index < cls.hooks.size <;> simp [within]
  · rw [if_neg same, recordHook]
    split
    · rename_i named found
      have apart : named.index ≠ hook.index := fun level =>
        same (Hook.index_injective level ▸ Hook.ofKey?_eq_some.mp found)
      exact Array.getElem?_setIfInBounds_ne apart
    · rfl

end recordHook

theorem addMethod_initializer (cls : Class) (key value : Value) :
    (cls.addMethod key value).initializer =
      if key = .ofText initializerName then some cls.methods.size else cls.initializer := by
  simp only [addMethod, beq_iff_eq, Value.toText?_eq_some]

/-- What the addition or the assignment of a member makes of a class. -/
inductive Edited (key value : Value) (cls : Class) : Class → Prop
  /-- A method is replaced. -/
  | method {index : Nat} : cls.member? key = some (.method index) →
      Edited key value cls
        ({ cls with methods := cls.methods.setIfInBounds index value }.recordHook key value)
  /-- The initial value of a field is replaced. -/
  | field {index : Nat} : cls.member? key = some (.field index) →
      Edited key value cls { cls with defaults := cls.defaults.setIfInBounds index value }
  /-- The key gets a new place among the methods. -/
  | newMethod : (∀ index, cls.member? key ≠ some (.method index)) →
      Edited key value cls ((cls.addMethod key value).recordHook key value)
  /-- The key gets a new place among the fields. -/
  | newField : (∀ index, cls.member? key ≠ some (.field index)) →
      Edited key value cls (cls.addField key value)

theorem newSlot_of_locked (locked : cls.locked = true) (key value : Value) :
    cls.newSlot key value = .error .lockedClass := by
  rw [newSlot, if_pos locked]

/-- A class that takes a new member is not locked, and the key is fit for one. -/
theorem open_of_newSlot (added : cls.newSlot key value = .ok after) :
    cls.locked = false ∧ key.checkKey = .ok () := by
  by_cases locked : cls.locked = true
  · rw [newSlot_of_locked locked] at added
    cases added
  · refine ⟨by simpa using locked, ?_⟩
    rw [newSlot, if_neg locked] at added
    cases checked : key.checkKey with
    | ok _ => rfl
    | error fault =>
        rw [checked] at added
        cases added

theorem edited_of_newSlot (added : cls.newSlot key value = .ok after) :
    Edited key value cls after := by
  obtain ⟨unlocked, fit⟩ := open_of_newSlot added
  rw [newSlot, if_neg (by simp [unlocked]), fit] at added
  simp only [bind, Except.bind, pure, Except.pure] at added
  split at added
  · rename_i place _
    cases added
    exact .method place
  · rename_i place _
    cases added
    exact .field place
  · rename_i notMethod
    cases added
    exact .newMethod notMethod
  · rename_i notField
    cases added
    exact .newField notField

theorem edited_of_set? (assigned : cls.set? key value = some after) :
    Edited key value cls after := by
  rw [set?, Option.map_eq_some_iff] at assigned
  obtain ⟨member, place, rfl⟩ := assigned
  cases member with
  | field index => exact .field place
  | method index =>
      have swap : { cls.recordHook key value with
            methods := cls.methods.setIfInBounds index value } =
          { cls with methods := cls.methods.setIfInBounds index value }.recordHook key value := by
        rw [recordHook, recordHook]
        split <;> rfl
      show Edited key value cls { cls.recordHook key value with
        methods := cls.methods.setIfInBounds index value }
      rw [swap]
      exact .method place

/-- An assignment leaves the layout alone. -/
theorem frozen_of_set? (assigned : cls.set? key value = some after) :
    after.members = cls.members ∧ after.defaults.size = cls.defaults.size := by
  rw [set?, Option.map_eq_some_iff] at assigned
  obtain ⟨member, _, rfl⟩ := assigned
  cases member <;> simp

namespace Edited

theorem base_eq (edited : Edited key value cls after) : after.base = cls.base := by
  cases edited <;> simp [addMethod, addField]

theorem locked_eq (edited : Edited key value cls after) : after.locked = cls.locked := by
  cases edited <;> simp [addMethod, addField]

end Edited

/-! ## Places -/

/-- Every place that the members lead to exists and belongs to one key. -/
structure Placed (cls : Class) : Prop where
  /-- A place that a key leads to holds a value. -/
  holds : ∀ {key member}, cls.member? key = some member →
    ∃ value, cls.valueAt? member = some value
  /-- Different keys lead to different places. -/
  apart : ∀ {key other member}, cls.member? key = some member → cls.member? other = some member →
    key.sameKey other = true

theorem member?_insert (cls : Class) (key other : Value) (member : Member) :
    (cls.members.insert key member).get? Value.keyHash other =
      if key.sameKey other then some member else cls.member? other :=
  cls.members.sound.get?_insert Table.consistent_keyHash key other member

theorem member?_empty (key : Value) : ({} : Class).member? key = none :=
  (ChainedMap.Represents.withCapacity Value.keyHash 0).get?_eq Table.consistent_keyHash key

theorem placed_empty : Placed {} where
  holds := by
    intro key member place
    rw [member?_empty] at place
    cases place
  apart := by
    intro key other member place _
    rw [member?_empty] at place
    cases place

namespace Placed

/-- Other values in the same places. -/
theorem refilled (placed : cls.Placed) (members : after.members = cls.members)
    (methods : after.methods.size = cls.methods.size)
    (defaults : after.defaults.size = cls.defaults.size) : after.Placed where
  holds := by
    intro key member place
    rw [member?, members] at place
    obtain ⟨value, held⟩ := placed.holds place
    cases member with
    | field index =>
        obtain ⟨within, _⟩ := Array.getElem?_eq_some_iff.mp held
        exact ⟨after.defaults[index], by simp [valueAt?, defaults, within]⟩
    | method index =>
        obtain ⟨within, _⟩ := Array.getElem?_eq_some_iff.mp held
        exact ⟨after.methods[index], by simp [valueAt?, methods, within]⟩
  apart := by
    intro key other member first second
    rw [member?, members] at first second
    exact placed.apart first second

/-- A key gets a place that no key had. -/
theorem extended (placed : cls.Placed) (key : Value) (member : Member) (value : Value)
    (members : after.members = cls.members.insert key member)
    (fresh : cls.valueAt? member = none) (filled : after.valueAt? member = some value)
    (kept : ∀ {other found}, cls.valueAt? other = some found →
      after.valueAt? other = some found) : after.Placed where
  holds := by
    intro other own place
    rw [member?, members, member?_insert] at place
    split at place
    · cases place
      exact ⟨value, filled⟩
    · obtain ⟨found, held⟩ := placed.holds place
      exact ⟨found, kept held⟩
  apart := by
    have unused : ∀ other, cls.member? other ≠ some member := by
      intro other place
      obtain ⟨found, held⟩ := placed.holds place
      exact absurd (fresh.symm.trans held) (by simp)
    intro first second own firstPlace secondPlace
    rw [member?, members, member?_insert] at firstPlace secondPlace
    split at firstPlace
    · rename_i firstSame
      cases firstPlace
      split at secondPlace
      · rename_i secondSame
        exact Value.sameKey_trans (by rwa [Value.sameKey_comm]) secondSame
      · exact absurd secondPlace (unused second)
    · split at secondPlace
      · cases secondPlace
        exact absurd firstPlace (unused first)
      · exact placed.apart firstPlace secondPlace

theorem edited (placed : cls.Placed) (edited : Edited key value cls after) : after.Placed := by
  cases edited with
  | method => exact placed.refilled (by simp) (by simp) (by simp)
  | field => exact placed.refilled rfl rfl (by simp)
  | newMethod =>
      refine placed.extended key (.method cls.methods.size) value
        (by simp [addMethod]) (by simp [valueAt?]) (by simp [valueAt?, addMethod]) ?_
      intro other found held
      cases other with
      | field index => simpa [valueAt?, addMethod] using held
      | method index =>
          obtain ⟨within, _⟩ := Array.getElem?_eq_some_iff.mp held
          simpa [valueAt?, addMethod, Array.getElem?_push, Nat.ne_of_lt within] using held
  | newField =>
      refine placed.extended key (.field cls.defaults.size) value rfl
        (by simp [valueAt?]) (by simp [valueAt?, addField]) ?_
      intro other found held
      cases other with
      | field index =>
          obtain ⟨within, _⟩ := Array.getElem?_eq_some_iff.mp held
          simpa [valueAt?, addField, Array.getElem?_push, Nat.ne_of_lt within] using held
      | method index => exact held

end Placed

/-! ## Hooks and initialisers -/

/-- A place among the methods is where the class has kept the method of a name last. -/
structure Recalls (cls : Class) (name : String) (place : Option Nat) : Prop where
  /-- The place of the method of the name. -/
  method : ∀ {index}, cls.member? (.ofText name) = some (.method index) → place = some index
  /-- There is none if the name has no member. -/
  absent : cls.member? (.ofText name) = none → place = none
  /-- The place exists, and no other key leads to it. -/
  kept : ∀ {index}, place = some index →
    index < cls.methods.size ∧ ∀ key, cls.member? key = some (.method index) → key = .ofText name

/-- The class keeps its hooks and its initialiser as the methods of the reserved names. -/
structure Follows (cls : Class) : Prop where
  /-- The members have places of their own. -/
  placed : cls.Placed
  /-- The place of the initialiser. -/
  initializer : cls.Recalls initializerName cls.initializer
  /-- The values of the hooks. -/
  hooks : ∀ hook : Hook, ∃ place, cls.Recalls hook.name place ∧
    cls.hooks[hook.index]? = some ((place.bind fun index => cls.methods[index]?).getD .null)

namespace Recalls

theorem congr {place : Option Nat} (recalls : cls.Recalls name place)
    (members : after.members = cls.members) (methods : after.methods.size = cls.methods.size) :
    after.Recalls name place where
  method := by
    intro index here
    exact recalls.method (by rwa [member?, members] at here)
  absent := by
    intro here
    exact recalls.absent (by rwa [member?, members] at here)
  kept := by
    intro index here
    obtain ⟨within, only⟩ := recalls.kept here
    refine ⟨methods ▸ within, fun key leads => only key ?_⟩
    rwa [member?, members] at leads

/-- A key that gets a new method is recalled there. -/
theorem renewed (placed : cls.Placed) (member : after.members =
      cls.members.insert (.ofText name) (.method cls.methods.size))
    (methods : after.methods.size = cls.methods.size + 1) :
    after.Recalls name (some cls.methods.size) where
  method := by
    intro index here
    rw [member?, member, member?_insert, if_pos (by simp [Value.sameKey])] at here
    cases here
    rfl
  absent := by
    intro here
    rw [member?, member, member?_insert, if_pos (by simp [Value.sameKey])] at here
    cases here
  kept := by
    intro index here
    cases here
    refine ⟨by omega, fun key leads => ?_⟩
    rw [member?, member, member?_insert] at leads
    split at leads
    · rename_i same
      exact Value.sameKey_ofText.mp (by rwa [Value.sameKey_comm])
    · obtain ⟨found, held⟩ := placed.holds leads
      simp [valueAt?] at held

/-- What is recalled of a name stays when another key gets a new place, or the name itself gets one
among the fields. -/
theorem extended {place : Option Nat} (recalls : cls.Recalls name place) {member : Member}
    (members : after.members = cls.members.insert key member)
    (methods : cls.methods.size ≤ after.methods.size)
    (differs : key = .ofText name → ∃ index, member = .field index)
    (fresh : ∀ index, member = .method index → cls.methods.size ≤ index) :
    after.Recalls name place where
  method := by
    intro index here
    rw [member?, members, member?_insert] at here
    split at here
    · rename_i same
      obtain ⟨field, isField⟩ := differs (Value.sameKey_ofText.mp same)
      rw [isField] at here
      cases here
    · exact recalls.method here
  absent := by
    intro here
    rw [member?, members, member?_insert] at here
    split at here
    · cases here
    · exact recalls.absent here
  kept := by
    intro index here
    obtain ⟨within, only⟩ := recalls.kept here
    refine ⟨by omega, fun other leads => ?_⟩
    rw [member?, members, member?_insert] at leads
    split at leads
    · have beyond := fresh index (Option.some.inj leads)
      omega
    · exact only other leads

end Recalls

namespace Follows

/-- A class with the same members, methods, hooks and initialiser. -/
theorem congr (follows : cls.Follows) (members : after.members = cls.members)
    (defaults : after.defaults.size = cls.defaults.size) (methods : after.methods = cls.methods)
    (hooks : after.hooks = cls.hooks) (initializer : after.initializer = cls.initializer) :
    after.Follows where
  placed := follows.placed.refilled members (by rw [methods]) defaults
  initializer := initializer ▸ follows.initializer.congr members (by rw [methods])
  hooks := by
    intro hook
    obtain ⟨place, recalls, value⟩ := follows.hooks hook
    exact ⟨place, recalls.congr members (by rw [methods]), by rw [hooks, methods, value]⟩

theorem empty : Follows {} where
  placed := placed_empty
  initializer :=
    ⟨fun here => absurd here (by simp [member?_empty]), fun _ => rfl, fun here => by cases here⟩
  hooks := by
    intro hook
    refine ⟨none, ⟨fun here => absurd here (by simp [member?_empty]), fun _ => rfl,
      fun here => by cases here⟩, ?_⟩
    cases hook <;> rfl

theorem edited (follows : cls.Follows) (edited : Edited key value cls after) :
    after.Follows := by
  have placed := follows.placed.edited edited
  cases edited with
  | field => exact follows.congr rfl (by simp) rfl rfl rfl
  | newField =>
      refine ⟨placed, ?_, fun hook => ?_⟩
      · exact follows.initializer.extended rfl le_rfl (fun _ => ⟨_, rfl⟩)
          (fun index same => by cases same)
      · obtain ⟨place, recalls, found⟩ := follows.hooks hook
        exact ⟨place, recalls.extended rfl le_rfl (fun _ => ⟨_, rfl⟩)
          (fun index same => by cases same), found⟩
  | @method index leads =>
      refine ⟨placed, ?_, fun hook => ?_⟩
      · rw [recordHook_initializer]
        exact follows.initializer.congr (by simp) (by simp)
      · obtain ⟨place, recalls, found⟩ := follows.hooks hook
        refine ⟨place, recalls.congr (by simp) (by simp), ?_⟩
        rw [recordHook_hooks]
        split
        · rename_i named
          have here := recalls.method (named ▸ leads)
          obtain ⟨within, _⟩ := recalls.kept here
          simp [here, found, within]
        · rename_i named
          have elsewhere : place ≠ some index := fun here =>
            named ((recalls.kept here).2 key leads)
          cases place with
          | none => simpa using found
          | some other =>
              have apart : index ≠ other := fun same => elsewhere (by rw [same])
              simpa [Array.getElem?_setIfInBounds_ne apart] using found
  | newMethod =>
      have members : ((cls.addMethod key value).recordHook key value).members =
          cls.members.insert key (.method cls.methods.size) := by
        simp [addMethod]
      have methods : ((cls.addMethod key value).recordHook key value).methods.size =
          cls.methods.size + 1 := by
        simp [addMethod]
      have others : ∀ {name : String} {place : Option Nat}, cls.Recalls name place →
          key ≠ .ofText name →
          ((cls.addMethod key value).recordHook key value).Recalls name place :=
        fun recalls differs => recalls.extended members (by omega)
          (fun same => absurd same differs) (fun index same => by cases same; exact le_rfl)
      refine ⟨placed, ?_, fun hook => ?_⟩
      · rw [recordHook_initializer]
        by_cases named : key = .ofText initializerName
        · rw [addMethod_initializer, if_pos named]
          exact .renewed follows.placed (named ▸ members) methods
        · rw [addMethod_initializer, if_neg named]
          exact others follows.initializer named
      · obtain ⟨place, recalls, found⟩ := follows.hooks hook
        rw [recordHook_hooks, recordHook_methods, addMethod]
        by_cases named : key = .ofText hook.name
        · refine ⟨some cls.methods.size, .renewed follows.placed (named ▸ members) methods, ?_⟩
          simp [named, found]
        · refine ⟨place, others recalls named, ?_⟩
          rw [if_neg named, found]
          cases place with
          | none => rfl
          | some index =>
              have within := (recalls.kept rfl).1
              simp [Array.getElem?_push, Nat.ne_of_lt within]

end Follows

theorem hook?_eq_some {hook : Hook} :
    cls.hook? hook = some value ↔ cls.hooks[hook.index]? = some value ∧ value ≠ .null := by
  rw [hook?]
  split
  · rename_i isNull
    simp only [isNull, reduceCtorEq, Option.some.injEq, false_iff, not_and, not_not]
    exact Eq.symm
  · rename_i other
    constructor
    · intro found
      exact ⟨found, fun isNull => other (isNull ▸ found)⟩
    · exact And.left

namespace Recalls

theorem eq_some_iff {place : Option Nat} (recalls : cls.Recalls name place)
    (notField : ∀ index, cls.member? (.ofText name) ≠ some (.field index)) (index : Nat) :
    place = some index ↔ cls.member? (.ofText name) = some (.method index) := by
  refine ⟨fun here => ?_, recalls.method⟩
  cases leads : cls.member? (.ofText name) with
  | none =>
      rw [recalls.absent leads] at here
      cases here
  | some member =>
      cases member with
      | field other => exact absurd leads (notField other)
      | method other =>
          rw [recalls.method leads] at here
          cases here
          rfl

/-- The method that is recalled of a name given to a field has no key any more. -/
theorem orphan {place : Option Nat} (recalls : cls.Recalls name place) {field index : Nat}
    (isField : cls.member? (.ofText name) = some (.field field)) (here : place = some index)
    (key : Value) : cls.member? key ≠ some (.method index) := by
  intro leads
  rw [(recalls.kept here).2 key leads, isField] at leads
  cases leads

end Recalls

namespace Follows

theorem hook?_eq (follows : cls.Follows) (hook : Hook) :
    ∃ place, cls.Recalls hook.name place ∧ ∀ value, cls.hook? hook = some value ↔
      ∃ index, place = some index ∧ cls.methods[index]? = some value ∧ value ≠ .null := by
  obtain ⟨place, recalls, found⟩ := follows.hooks hook
  refine ⟨place, recalls, fun value => ?_⟩
  rw [hook?_eq_some, found]
  cases place with
  | none => simp [eq_comm]
  | some index =>
      have within := (recalls.kept rfl).1
      simp [within]

/-- A reserved name that is not given to a field has its method as the hook, unless the method is
null. -/
theorem hook?_eq_some_iff (follows : cls.Follows) (hook : Hook)
    (notField : ∀ index, cls.member? (.ofText hook.name) ≠ some (.field index)) (value : Value) :
    cls.hook? hook = some value ↔ ∃ index,
      cls.member? (.ofText hook.name) = some (.method index) ∧
        cls.methods[index]? = some value ∧ value ≠ .null := by
  obtain ⟨place, recalls, found⟩ := follows.hook?_eq hook
  simp only [found, recalls.eq_some_iff notField]

/-- A hook whose name is given to a field is a method that no key leads to. -/
theorem orphan_of_hook? (follows : cls.Follows) {hook : Hook} {field : Nat}
    (isField : cls.member? (.ofText hook.name) = some (.field field))
    (found : cls.hook? hook = some value) :
    ∃ index, cls.methods[index]? = some value ∧
      ∀ key, cls.member? key ≠ some (.method index) := by
  obtain ⟨place, recalls, values⟩ := follows.hook?_eq hook
  obtain ⟨index, here, held, _⟩ := (values value).mp found
  exact ⟨index, held, recalls.orphan isField here⟩

theorem initializer?_eq_some_iff (follows : cls.Follows)
    (notField : ∀ index, cls.member? (.ofText initializerName) ≠ some (.field index))
    (value : Value) :
    cls.initializer? = some value ↔ ∃ index,
      cls.member? (.ofText initializerName) = some (.method index) ∧
        cls.methods[index]? = some value := by
  rw [initializer?, Option.bind_eq_some_iff]
  simp only [follows.initializer.eq_some_iff notField]

theorem orphan_of_initializer? (follows : cls.Follows) {field : Nat}
    (isField : cls.member? (.ofText initializerName) = some (.field field))
    (found : cls.initializer? = some value) :
    ∃ index, cls.methods[index]? = some value ∧
      ∀ key, cls.member? key ≠ some (.method index) := by
  rw [initializer?, Option.bind_eq_some_iff] at found
  obtain ⟨index, here, held⟩ := found
  exact ⟨index, held, follows.initializer.orphan isField here⟩

end Follows

/-- A method that is replaced by a value that cannot be called becomes a field; hooks and
initialiser stay what they were. -/
theorem newSlot_demotes {index : Nat}
    (isMethod : cls.member? key = some (.method index)) (plain : value.isCallable = false)
    (added : cls.newSlot key value = .ok after) :
    after.member? key = some (.field cls.defaults.size) ∧ after.hook? = cls.hook? ∧
      after.initializer? = cls.initializer? := by
  obtain ⟨unlocked, fit⟩ := open_of_newSlot added
  rw [newSlot, if_neg (by simp [unlocked]), fit] at added
  simp only [bind, Except.bind, pure, Except.pure, isMethod, plain, Except.ok.injEq] at added
  subst added
  refine ⟨?_, rfl, rfl⟩
  rw [addField, member?, member?_insert, if_pos (by simp [Value.sameKey])]

end Class

/-! ## Instances -/

namespace Instance

variable {object after : Instance} {cls : Class} {key value : Value}

theorem frozen_of_set? (assigned : object.set? cls key value = some after) :
    after.cls = object.cls ∧ after.fields.size = object.fields.size := by
  rw [set?] at assigned
  split at assigned
  · split at assigned
    · cases assigned
      exact ⟨rfl, by simp⟩
    · cases assigned
  · cases assigned

/-- An instance with a value for each field finds every field. -/
theorem exists_get? (placed : cls.Placed) (fields : object.fields.size = cls.defaults.size)
    {index : Nat} (isField : cls.member? key = some (.field index)) :
    ∃ found, object.get? cls key = some found := by
  obtain ⟨initial, held⟩ := placed.holds isField
  obtain ⟨within, _⟩ := Array.getElem?_eq_some_iff.mp held
  exact ⟨object.fields[index], by simp [get?, isField, valueAt?, fields, within]⟩

/-- An instance with a value for each field can assign every field, and the other keys lead to what
they did before. -/
theorem exists_set? (placed : cls.Placed) (fields : object.fields.size = cls.defaults.size)
    {index : Nat} (isField : cls.member? key = some (.field index)) (value : Value) :
    ∃ after, object.set? cls key value = some after ∧ after.get? cls key = some value ∧
      ∀ other, key.sameKey other = false → after.get? cls other = object.get? cls other := by
  obtain ⟨initial, held⟩ := placed.holds isField
  obtain ⟨within, _⟩ := Array.getElem?_eq_some_iff.mp held
  have inside : index < object.fields.size := fields ▸ within
  refine ⟨_, by simp only [set?, isField, if_pos inside]; rfl, ?_, fun other differ => ?_⟩
  · simp [get?, isField, valueAt?, inside]
  · cases place : cls.member? other with
    | none => simp [get?, place]
    | some member =>
        cases member with
        | method _ => simp [get?, place, valueAt?]
        | field position =>
            have apart : index ≠ position := by
              rintro rfl
              rw [placed.apart isField place] at differ
              cases differ
            simp [get?, place, valueAt?, Array.getElem?_setIfInBounds_ne apart]

end Instance

end ScriptMachine
