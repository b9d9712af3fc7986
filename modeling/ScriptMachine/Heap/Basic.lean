import ScriptMachine.Machine.Fiber
import ScriptMachine.Object.Class
import ScriptMachine.Object.Generator
import ScriptMachine.Object.Sequence
import ScriptMachine.Object.Table
import ScriptMachine.Object.TypeMask
import ScriptMachine.Object.UserData

/-!
# The heap

The heap gives every object a number when it is created and never uses a number again.  An object
is its kind with the content of that kind, so reading through a reference of some kind yields the
content of that kind.  What an object refers to is a list in which an object occurs as often as
it is held; a thread that is being run has lent its content to the machine and refers to nothing.
Beyond its content, an object may hold others where nobody can see them: the payload of host data
may own script values, and so may the literals of function bodies that a host has put together.
-/

namespace ScriptMachine

/-- What an object of a kind consists of. -/
abbrev Content : Kind → Type
  | .table => Table
  | .array => Sequence
  | .cell => Value
  | .closure => Closure
  | .native => Native
  | .generator => Generator
  | .cls => Class
  | .inst => Instance
  | .userdata => UserData
  | .thread => Option Fiber

/-- What stands for the content of an object that does not exist. -/
def Content.absent : (kind : Kind) → Content kind
  | .table => (default : Table)
  | .array => (default : Sequence)
  | .cell => Value.null
  | .closure => (default : Closure)
  | .native => (default : Native)
  | .generator => { closure := ⟨0⟩, state := .dead : Generator }
  | .cls => (default : Class)
  | .inst => (default : Instance)
  | .userdata => (default : UserData)
  | .thread => (none : Option Fiber)

instance (kind : Kind) : Inhabited (Content kind) := ⟨Content.absent kind⟩

/-- An object. -/
structure Object where
  /-- Its kind. -/
  kind : Kind
  /-- Its content. -/
  content : Content kind

/-- The number of the object that a value refers to. -/
def Value.address? : Value → Option Nat
  | .table ref => some ref.index
  | .array ref => some ref.index
  | .closure ref => some ref.index
  | .native ref => some ref.index
  | .generator ref => some ref.index
  | .cls ref => some ref.index
  | .inst ref => some ref.index
  | .userdata ref => some ref.index
  | .thread ref => some ref.index
  | .null | .bool _ | .integer _ | .float _ | .pointer _ | .string _ | .routine _ => none

/-- The numbers of the objects that some values refer to. -/
def Value.addresses (values : List Value) : List Nat := values.filterMap Value.address?

/-- The numbers of the objects that a node of a table holds. -/
def Node.references (node : Node Value) : List Nat :=
  node.entry.toList.flatMap fun (key, value) => Value.addresses [key, value]

/-- The numbers of the objects that the key of a node holds. -/
def Node.keyReferences {ν : Type} (node : Node ν) : List Nat :=
  Value.addresses (node.entry.toList.map (·.1))

/-- The numbers of the objects that a frame refers to. -/
def Frame.references (frame : Frame) : List Nat :=
  frame.ref.index :: (frame.generator.map Ref.index).toList

/-- The numbers of the objects that a fiber refers to. -/
def Fiber.references (fiber : Fiber) : List Nat :=
  Value.addresses fiber.stack.slots.toList ++ fiber.stack.frames.toList.flatMap Frame.references ++
    fiber.natives.map (·.ref.index) ++ Value.addresses fiber.entry.toList

/-- The numbers of the objects that the content of an object holds, each as often as it is held. -/
def Content.references : {kind : Kind} → Content kind → List Nat
  | .table, (table : Table) =>
    table.entries.nodes.toList.flatMap Node.references ++ (table.delegate.map Ref.index).toList
  | .array, (sequence : Sequence) => Value.addresses sequence.values.toList
  | .cell, (value : Value) => Value.addresses [value]
  | .closure, (closure : Closure) => closure.cells.toList.map Ref.index
  | .native, (native : Native) => Value.addresses native.outers.toList
  | .generator, (generator : Generator) =>
    generator.closure.index :: Value.addresses generator.window.toList
  | .cls, (cls : Class) =>
    (cls.base.map Ref.index).toList ++ cls.members.nodes.toList.flatMap Node.keyReferences ++
      Value.addresses cls.defaults.toList ++ Value.addresses cls.methods.toList ++
      Value.addresses cls.hooks.toList
  | .inst, (object : Instance) => object.cls.index :: Value.addresses object.fields.toList
  | .userdata, (data : UserData) => (data.delegate.map Ref.index).toList
  | .thread, (fiber : Option Fiber) => (fiber.map Fiber.references).getD []

/-- The numbers of the objects that the content of an object holds. -/
def Object.references (object : Object) : List Nat := Content.references object.content

/-- The object is a thread that is being run. -/
def Object.isBusy : Object → Bool
  | ⟨.thread, (fiber : Option Fiber)⟩ => fiber.isNone
  | _ => false

/-- The objects by their numbers; nothing stands where an object has been released. -/
structure Heap where
  /-- The objects. -/
  objects : Array (Option Object) := #[]
  /-- What the object with a number holds beyond its content, in the payload of host data or in the
  literals of function bodies.  What a machine creates hides nothing: its host data carries numbers,
  and the literals of the functions it loads refer to nothing. -/
  hidden : Nat → List Nat := fun _ => []
deriving Inhabited

namespace Heap

/-- How many objects have ever been created. -/
def size (heap : Heap) : Nat := heap.objects.size

/-- The object with a number. -/
def object? (heap : Heap) (index : Nat) : Option Object := (heap.objects[index]?).join

/-- How many objects there are. -/
def population (heap : Heap) : Nat := heap.objects.countP Option.isSome

/-- Create an object. -/
def alloc {kind : Kind} (heap : Heap) (content : Content kind) : Ref kind × Heap :=
  (⟨heap.size⟩, { heap with objects := heap.objects.push (some ⟨kind, content⟩) })

/-- The content of an object as that of a kind, if it has that kind. -/
def contentAs? (kind : Kind) : Option Object → Option (Content kind)
  | some ⟨own, content⟩ => if same : own = kind then some (same ▸ content) else none
  | none => none

/-- The content of an object, if it exists. -/
def get? {kind : Kind} (heap : Heap) (ref : Ref kind) : Option (Content kind) :=
  contentAs? kind (heap.object? ref.index)

/-- The content of an object. -/
def get {kind : Kind} (heap : Heap) (ref : Ref kind) : Content kind :=
  (heap.get? ref).getD (Content.absent kind)

/-- Change the content of an object of a kind; others are left alone. -/
def changeContent {kind : Kind} (change : Content kind → Content kind) :
    Option Object → Option Object
  | some ⟨own, content⟩ =>
    if same : own = kind then some ⟨kind, change (same ▸ content)⟩ else some ⟨own, content⟩
  | none => none

/-- Change the content of an object. -/
def modify {kind : Kind} (heap : Heap) (ref : Ref kind) (change : Content kind → Content kind) :
    Heap :=
  { heap with objects := heap.objects.modify ref.index (changeContent change) }

/-- Remove the object with a number. -/
def erase (heap : Heap) (index : Nat) : Heap :=
  { heap with objects := heap.objects.setIfInBounds index none }

/-- Replace the content of an object. -/
def set {kind : Kind} (heap : Heap) (ref : Ref kind) (content : Content kind) : Heap :=
  heap.modify ref fun _ => content

end Heap

end ScriptMachine
