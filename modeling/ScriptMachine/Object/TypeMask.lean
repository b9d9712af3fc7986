import ScriptMachine.Fault

/-!
# Type masks

A mask text has one group per argument; a group is letters joined by bars, each letter standing
for one or more types.  Blanks mean nothing.  A group is a set of types, held as a word with one
bit per type.
-/

namespace ScriptMachine

/-- Why a mask text cannot be read. -/
inductive MaskError where
  /-- A bar has no letter before it. -/
  | leadingBar (spec : String)
  /-- The character is no letter of the mask language. -/
  | unknownLetter (letter : Char)
  /-- A bar has no letter behind it. -/
  | trailingBar (spec : String)
deriving DecidableEq, Repr

/-- The text of the error. -/
def MaskError.message : MaskError → String
  | .leadingBar spec => s!"'|' without a preceding type in '{spec}'"
  | .unknownLetter letter => s!"invalid type mask character '{letter}'"
  | .trailingBar spec => s!"trailing '|' in '{spec}'"

namespace TypeMask

/-- The bit of the type of a value; script functions and host functions share one. -/
def ofValue : Value → UInt32
  | .null => 1
  | .integer _ => 2
  | .float _ => 4
  | .bool _ => 8
  | .string _ => 16
  | .table _ => 32
  | .array _ => 64
  | .userdata _ => 128
  | .closure _ | .native _ => 256
  | .generator _ => 512
  | .pointer _ => 1024
  | .thread _ => 2048
  | .inst _ => 4096
  | .cls _ => 8192
  | .routine _ => 16384

/-- The types that a letter stands for. -/
def ofLetter? (letter : Char) : Option UInt32 :=
  if letter == 'o' then some 1
  else if letter == 'i' then some 2
  else if letter == 'f' then some 4
  else if letter == 'n' then some 6
  else if letter == 'b' then some 8
  else if letter == 's' then some 16
  else if letter == 't' then some 32
  else if letter == 'a' then some 64
  else if letter == 'u' then some 128
  else if letter == 'c' then some 256
  else if letter == 'g' then some 512
  else if letter == 'p' then some 1024
  else if letter == 'v' then some 2048
  else if letter == 'x' then some 4096
  else if letter == 'y' then some 8192
  else if letter == 'r' then some 16384
  else if letter == '.' then some 0xFFFFFFFF
  else none

/-- What has been read of a mask text. -/
structure State where
  /-- The groups that are complete. -/
  groups : List UInt32 := []
  /-- The group being read, if there is one. -/
  current : Option UInt32 := none
  /-- A bar waits for the next letter. -/
  joining : Bool := false

namespace State

/-- The groups including the one being read. -/
def close (state : State) : List UInt32 := state.groups ++ state.current.toList

/-- Read a letter with its types: it joins the group behind a bar and starts one otherwise. -/
def letter (state : State) (types : UInt32) : State :=
  match state.current with
  | some group =>
    if state.joining then { state with current := some (group ||| types), joining := false }
    else { state with groups := state.close, current := some types }
  | none => { state with current := some types }

/-- Read one character of a mask text. -/
def next (spec : String) (state : State) (c : Char) : Except MaskError State :=
  if c == ' ' then .ok state
  else if c == '|' then
    if state.current.isNone then .error (.leadingBar spec)
    else .ok { state with joining := true }
  else
    match ofLetter? c with
    | some types => .ok (state.letter types)
    | none => .error (.unknownLetter c)

end State

/-- The groups of a mask text. -/
def parse (spec : String) : Except MaskError (List UInt32) := do
  let state ← spec.toList.foldlM (State.next spec) {}
  if state.joining then .error (.trailingBar spec) else .ok state.close

/-- The value has one of the types of the group. -/
def admits (group : UInt32) (value : Value) : Bool := ofValue value &&& group != 0

end TypeMask

/-- How many arguments a host function takes, the receiver included. -/
inductive Arity where
  /-- Any number. -/
  | any
  /-- Exactly so many. -/
  | exactly (count : Nat)
  /-- So many or more. -/
  | atLeast (count : Nat)
deriving DecidableEq, Repr, Inhabited

namespace Arity

/-- Zero allows any number, a positive count demands it exactly, a negative one at least its
magnitude. -/
def ofCount (count : Int) : Arity :=
  if count = 0 then .any
  else if 0 < count then .exactly count.toNat
  else .atLeast count.natAbs

/-- The number of arguments is allowed. -/
def accepts : Arity → Nat → Bool
  | .any, _ => true
  | .exactly count, given => given == count
  | .atLeast count, given => count ≤ given

/-- The rule in messages. -/
def render : Arity → String
  | .any => "any"
  | .exactly count => toString count
  | .atLeast count => s!"at least {count}"

end Arity

/-- A host function as a value: what it is called, which function of the host it stands for, what
arguments it takes and the values bound to it. -/
structure Native where
  /-- The name in messages. -/
  name : String
  /-- The function of the host. -/
  symbol : String
  /-- How many arguments it takes. -/
  arity : Arity := .any
  /-- The types of the leading arguments. -/
  masks : List UInt32 := []
  /-- The values bound to it. -/
  outers : Array Value := #[]
deriving Inhabited

namespace Native

/-- Check the types of arguments from a position on. -/
def checkTypes (name : String) : Nat → List Value → List UInt32 → Except Fault Unit
  | position, value :: values, group :: groups =>
    if TypeMask.admits group value then checkTypes name (position + 1) values groups
    else .error (.argumentMask position name value.typeName)
  | _, _, _ => .ok ()

/-- Check the number and then the types of the arguments, the receiver being the first. -/
def checkArguments (native : Native) (arguments : List Value) : Except Fault Unit :=
  if native.arity.accepts arguments.length then
    checkTypes native.name 0 arguments native.masks
  else .error (.nativeArity native.name arguments.length native.arity.render)

end Native

end ScriptMachine
