import ScriptMachine.Machine.Engine

/-!
# Operators

Integer arithmetic wraps; an integer and a floating-point number are combined as floating-point
numbers.  The sum of a string and anything is the text of both, one after the other.  All other
operands go to the hook of the left one.
-/

namespace ScriptMachine

/-- The binary operators. -/
inductive ArithOp where
  /-- Sum or concatenation. -/
  | add
  /-- Difference. -/
  | sub
  /-- Product. -/
  | mul
  /-- Quotient. -/
  | div
  /-- Remainder. -/
  | mod
deriving DecidableEq, Repr

namespace ArithOp

/-- The sign of the operator. -/
def symbol : ArithOp → String
  | .add => "+"
  | .sub => "-"
  | .mul => "*"
  | .div => "/"
  | .mod => "%"

/-- The hook for the operator. -/
def hook : ArithOp → Hook
  | .add => .add
  | .sub => .sub
  | .mul => .mul
  | .div => .div
  | .mod => .modulo

/-- The operator on integers. -/
def onIntegers : ArithOp → Int64 → Int64 → Except Fault Int64
  | .add, x, y => .ok (x + y)
  | .sub, x, y => .ok (x - y)
  | .mul, x, y => .ok (x * y)
  | .div, x, y => if y = 0 then .error .divisionByZero else .ok (x / y)
  | .mod, x, y => if y = 0 then .error .moduloByZero else .ok (x % y)

/-- The operator on floating-point numbers. -/
def onFloats : ArithOp → Binary64 → Binary64 → Binary64
  | .add, x, y => x.add y
  | .sub, x, y => x.sub y
  | .mul, x, y => x.mul y
  | .div, x, y => x.div y
  | .mod, x, y => x.rem y

end ArithOp

/-- The operation on words. -/
def BitOp.onIntegers (op : BitOp) (x y : Int64) : Int64 :=
  let distance := y &&& 63
  match op with
  | .and => x &&& y
  | .or => x ||| y
  | .xor => x ^^^ y
  | .shl => x <<< distance
  | .shr => x >>> distance
  | .ushr => (x.toUInt64 >>> distance.toUInt64).toInt64

/-- The operation on values. -/
def BitOp.onValues (op : BitOp) : Value → Value → Except Fault Value
  | .integer x, .integer y => .ok (.integer (op.onIntegers x y))
  | x, y => .error (.bitwiseOperands x.typeName y.typeName)

/-- Minus one, zero or one. -/
def orderNumber : Ordering → Int64
  | .lt => -1
  | .eq => 0
  | .gt => 1

/-- The outcome of a comparison as a value. -/
def CompareOp.onOrder : CompareOp → Ordering → Value
  | .gt, order => .bool (order == .gt)
  | .ge, order => .bool (order != .lt)
  | .lt, order => .bool (order == .lt)
  | .le, order => .bool (order != .gt)
  | .threeWay, order => .integer (orderNumber order)

namespace Value

/-- The value has a text of its own and concatenates with anything. -/
def isString : Value → Bool
  | .string _ => true
  | _ => false

/-- The value may define an order by its hook. -/
def hasOwnOrder : Value → Bool
  | .table _ | .inst _ | .userdata _ => true
  | _ => false

end Value

namespace Exec

/-- The text of a value, or of what its hook says instead. -/
def displayText (engine : Engine) (value : Value) : Exec String := do
  if value.isString then return value.display
  match ← hook? value .toText with
  | some handler => return (← engine.callSync handler value []).display
  | none => return value.display

/-- The texts of two values, one after the other. -/
def concatenate (engine : Engine) (x y : Value) : Exec Value := do
  let front ← displayText engine x
  let back ← displayText engine y
  return .ofText (front ++ back)

/-- Apply a binary operator. -/
def arith (engine : Engine) (op : ArithOp) (x y : Value) : Exec Value := do
  match x, y with
  | .integer a, .integer b => return .integer (← ofExcept (op.onIntegers a b))
  | _, _ =>
    match x.toFloat?, y.toFloat? with
    | some a, some b => return .float (op.onFloats a b)
    | _, _ =>
      if op = .add ∧ (x.isString ∨ y.isString) then concatenate engine x y
      else
        match ← hook? x op.hook with
        | some handler => engine.callSync handler x [y]
        | none => raise (.arithmeticOperands op.symbol x.typeName y.typeName)

/-- Negate a value. -/
def negate (engine : Engine) (value : Value) : Exec Value := do
  match value with
  | .integer x => return .integer (-x)
  | .float x => return .float x.neg
  | other =>
    match ← hook? other .unm with
    | some handler => engine.callSync handler other []
    | none => raise (.negation other.typeName)

/-- The order that an integer stands for by its sign. -/
def orderBySign (fault : String → Fault) : Value → Exec Ordering
  | .integer x => return compare x 0
  | other => raise (fault other.typeName)

/-- The order of two values.  Tables, instances and host data compared with their like ask the hook
of the left one. -/
def order (engine : Engine) (x y : Value) : Exec Ordering := do
  let handler ←
    if x.typeName = y.typeName ∧ x.hasOwnOrder then hook? x .cmp else pure none
  match handler with
  | some handler => orderBySign .comparisonHook (← engine.callSync handler x [y])
  | none => ofExcept (x.order y)

/-- The order by which an array is sorted: the order of values, or what a comparator says about two
values. -/
def sortOrder (engine : Engine) (this : Value) : Option Value → Value → Value → Exec Ordering
  | none => order engine
  | some comparator => fun x y => do
    orderBySign .comparator (← engine.callSync comparator this [x, y])

/-- Values sorted by an order that runs on the machine. -/
def sortValues (order : Value → Value → Exec Ordering) (values : Array Value) :
    Exec (Array Value) := fun machine =>
  match Quicksort.sort order (values, machine) with
  | .ok _ (sorted, next) => .ok sorted next
  | .error stop (_, next) => .error stop next

/-- Write sorted values into an array, which must have kept its length. -/
def storeSorted (ref : Ref .array) (length : Nat) (sorted : Array Value) : Exec Unit := do
  let after : Sequence ← read ref
  if after.length ≠ length then raise (.resizedDuringSort length after.length)
  write ref (Sequence.ofValues sorted)

/-- Sort an array, by the order of values or by a comparator.  The array is untouched until the
sort is done. -/
def sortArray (engine : Engine) (ref : Ref .array) (comparator : Option Value) : Exec Unit := do
  let sequence : Sequence ← read ref
  let this := Value.table (← get).root
  let sorted ← holding (.array ref :: sequence.values.toList)
    (sortValues (sortOrder engine this comparator) sequence.values)
  storeSorted ref sequence.length sorted

end Exec

end ScriptMachine
