import ScriptMachine.Fault
import ScriptMachine.Object.ChainedMap

/-!
# Classes and instances

A class maps its member names to places: a field is a place among the defaults, a method a place
among the methods.  Deriving a class copies all members of the base, so that look-ups never leave
the class.  A hook is a method with a reserved name; the class keeps its hooks apart.  Once a class
is locked, no member can be added, but existing ones may still be assigned.
-/

namespace ScriptMachine

/-- What a class or a delegate can define for its objects. -/
inductive Hook where
  /-- Sum. -/
  | add
  /-- Difference. -/
  | sub
  /-- Product. -/
  | mul
  /-- Quotient. -/
  | div
  /-- Remainder. -/
  | modulo
  /-- Negation. -/
  | unm
  /-- Assignment of a missing member. -/
  | set
  /-- Reading of a missing member. -/
  | get
  /-- Type name. -/
  | typeof
  /-- Step of an iteration. -/
  | nexti
  /-- Order. -/
  | cmp
  /-- Call of the object. -/
  | call
  /-- Creation of a slot. -/
  | newSlot
  /-- Removal of a slot. -/
  | delSlot
  /-- Text. -/
  | toText
  /-- Derivation of a class. -/
  | inherited
deriving DecidableEq, Repr

namespace Hook

/-- Every hook, in the order of the places. -/
def all : List Hook :=
  [.add, .sub, .mul, .div, .modulo, .unm, .set, .get, .typeof, .nexti, .cmp, .call, .newSlot,
    .delSlot, .toText, .inherited]

/-- The reserved member name. -/
def name : Hook → String
  | .add => "_add"
  | .sub => "_sub"
  | .mul => "_mul"
  | .div => "_div"
  | .modulo => "_modulo"
  | .unm => "_unm"
  | .set => "_set"
  | .get => "_get"
  | .typeof => "_typeof"
  | .nexti => "_nexti"
  | .cmp => "_cmp"
  | .call => "_call"
  | .newSlot => "_newslot"
  | .delSlot => "_delslot"
  | .toText => "_tostring"
  | .inherited => "_inherited"

/-- The name of the hook in mixed case. -/
def title : Hook → String
  | .add => "Add"
  | .sub => "Sub"
  | .mul => "Mul"
  | .div => "Div"
  | .modulo => "Modulo"
  | .unm => "Unm"
  | .set => "Set"
  | .get => "Get"
  | .typeof => "Typeof"
  | .nexti => "Nexti"
  | .cmp => "Cmp"
  | .call => "Call"
  | .newSlot => "NewSlot"
  | .delSlot => "DelSlot"
  | .toText => "ToString"
  | .inherited => "Inherited"

/-- The place of a hook in its class. -/
def index : Hook → Nat
  | .add => 0
  | .sub => 1
  | .mul => 2
  | .div => 3
  | .modulo => 4
  | .unm => 5
  | .set => 6
  | .get => 7
  | .typeof => 8
  | .nexti => 9
  | .cmp => 10
  | .call => 11
  | .newSlot => 12
  | .delSlot => 13
  | .toText => 14
  | .inherited => 15

/-- The hook with a reserved name. -/
def ofName? (name : String) : Option Hook := all.find? fun hook => hook.name == name

/-- The hook that a key names. -/
def ofKey? (key : Value) : Option Hook := key.toText?.bind ofName?

end Hook

/-- The place of a member. -/
inductive Member where
  /-- A place among the fields. -/
  | field (index : Nat)
  /-- A place among the methods. -/
  | method (index : Nat)
deriving DecidableEq, Repr, Inhabited

/-- A class. -/
structure Class where
  /-- The class it is derived from. -/
  base : Option (Ref .cls) := none
  /-- The places of the members. -/
  members : KeyedMap Member := .empty
  /-- The initial values of the fields. -/
  defaults : Array Value := #[]
  /-- The methods. -/
  methods : Array Value := #[]
  /-- The hooks, null where the class has none. -/
  hooks : Array Value := Array.replicate 16 .null
  /-- The place of the method that initialises instances. -/
  initializer : Option Nat := none
  /-- The class has been instantiated. -/
  locked : Bool := false
deriving Inhabited

/-- An instance of a class. -/
structure Instance where
  /-- Its class. -/
  cls : Ref .cls
  /-- The values of its fields. -/
  fields : Array Value
deriving Inhabited

namespace Class

/-- The name of the method that initialises instances. -/
def initializerName : String := "constructor"

/-- A class with all members of a base. -/
def derive (parent : Class) (ref : Ref .cls) : Class :=
  { parent with base := some ref, locked := false }

/-- The place of a member. -/
def member? (cls : Class) (key : Value) : Option Member := cls.members.get? Value.keyHash key

/-- The value of a member in the class itself. -/
def valueAt? (cls : Class) : Member → Option Value
  | .field index => cls.defaults[index]?
  | .method index => cls.methods[index]?

/-- The value of a member: the initial value of a field or a method. -/
def get? (cls : Class) (key : Value) : Option Value := (cls.member? key).bind cls.valueAt?

/-- The method that initialises instances. -/
def initializer? (cls : Class) : Option Value :=
  cls.initializer.bind fun index => cls.methods[index]?

/-- The hook of the class, if it has one. -/
def hook? (cls : Class) (hook : Hook) : Option Value :=
  match cls.hooks[hook.index]? with
  | some .null => none
  | found => found

/-- The next member at or after a place of the member map, with the place to go on from. -/
def next? (cls : Class) (cursor : Nat) : Option (Value × Member × Nat) := cls.members.next? cursor

/-- Remember a method as the hook its key names, if it names one. -/
def recordHook (cls : Class) (key value : Value) : Class :=
  match Hook.ofKey? key with
  | some hook => { cls with hooks := cls.hooks.setIfInBounds hook.index value }
  | none => cls

/-- Give a key a new place among the methods. -/
def addMethod (cls : Class) (key value : Value) : Class :=
  let index := cls.methods.size
  { cls with
    methods := cls.methods.push value
    members := cls.members.insert key (.method index)
    initializer :=
      if key.toText? == some initializerName then some index else cls.initializer }

/-- Give a key a new place among the fields. -/
def addField (cls : Class) (key value : Value) : Class :=
  { cls with
    defaults := cls.defaults.push value
    members := cls.members.insert key (.field cls.defaults.size) }

/-- Add or replace a member.  A member keeps its place as long as it stays a field or stays a
method; otherwise it gets a new one. -/
def newSlot (cls : Class) (key value : Value) : Except Fault Class :=
  if cls.locked then .error .lockedClass
  else do
    key.checkKey
    match cls.member? key, value.isCallable with
    | some (.method index), true =>
      return { cls with methods := cls.methods.setIfInBounds index value }.recordHook key value
    | some (.field index), false =>
      return { cls with defaults := cls.defaults.setIfInBounds index value }
    | _, true => return (cls.addMethod key value).recordHook key value
    | _, false => return cls.addField key value

/-- Assign a member that exists. -/
def set? (cls : Class) (key value : Value) : Option Class :=
  (cls.member? key).map fun
    | .field index => { cls with defaults := cls.defaults.setIfInBounds index value }
    | .method index =>
      { cls.recordHook key value with methods := cls.methods.setIfInBounds index value }

end Class

namespace Instance

/-- A new instance of a class. -/
def ofClass (ref : Ref .cls) (cls : Class) : Instance := ⟨ref, cls.defaults⟩

/-- The value at the place of a member: a field of the instance or a method of its class. -/
def valueAt? (object : Instance) (cls : Class) : Member → Option Value
  | .field index => object.fields[index]?
  | .method index => cls.methods[index]?

/-- The value of a member. -/
def get? (object : Instance) (cls : Class) (key : Value) : Option Value :=
  (cls.member? key).bind (object.valueAt? cls)

/-- Assign a field that exists. -/
def set? (object : Instance) (cls : Class) (key value : Value) : Option Instance :=
  match cls.member? key with
  | some (.field index) =>
    if index < object.fields.size then
      some { object with fields := object.fields.setIfInBounds index value }
    else none
  | _ => none

end Instance

end ScriptMachine
