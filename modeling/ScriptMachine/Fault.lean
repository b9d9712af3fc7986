import ScriptMachine.Bytecode.Verification
import ScriptMachine.Stream.Format
import ScriptMachine.Value.Text

/-!
# Faults

Every way in which running a script can fail, with what it needs to be told.  A fault belongs to a
family, and its message is the name of the family followed by the particulars.  Only the
exhaustion of native calls is fatal: no trap catches it.
-/

namespace ScriptMachine

/-- The families of faults. -/
inductive FaultFamily where
  /-- Registers or frames are exhausted. -/
  | stackOverflow
  /-- Native calls are exhausted. -/
  | nativeStackOverflow
  /-- A value has the wrong type. -/
  | type
  /-- Arithmetic has no result. -/
  | arithmetic
  /-- An index is out of range. -/
  | index
  /-- A key or member is missing. -/
  | lookup
  /-- A structure cannot be changed that way. -/
  | structural
  /-- Arguments do not fit. -/
  | argument
  /-- A generator cannot do that now. -/
  | generator
  /-- A thread cannot do that now. -/
  | thread
  /-- Anything else that goes wrong in a run. -/
  | runtime
  /-- A value was raised. -/
  | thrown
  /-- A stream cannot be read. -/
  | stream
  /-- A prototype is not acceptable. -/
  | verify
deriving DecidableEq, Repr

/-- A fault of a run. -/
inductive Fault where
  /-- Registers or frames are exhausted. -/
  | stackOverflow
  /-- Native calls and run loops are nested too deeply. -/
  | nativeStackOverflow
  /-- The type has no slots to read. -/
  | notIndexable (type : String)
  /-- The type has no slots to assign. -/
  | notAssignable (type : String)
  /-- The type has no slots to create. -/
  | noSlots (type : String)
  /-- The type has no slots to remove. -/
  | noRemoval (type : String)
  /-- The type cannot be called. -/
  | notCallable (type : String)
  /-- The operator has no meaning for the two types. -/
  | arithmeticOperands (symbol left right : String)
  /-- Bitwise operations have no meaning for the two types. -/
  | bitwiseOperands (left right : String)
  /-- The type cannot be negated. -/
  | negation (type : String)
  /-- The two types are not ordered. -/
  | comparison (left right : String)
  /-- The comparison hook returned something else than an integer. -/
  | comparisonHook (type : String)
  /-- The comparator of a sort returned something else than an integer. -/
  | comparator (type : String)
  /-- The type is no array index. -/
  | arrayKey (type : String)
  /-- The type is no string index. -/
  | stringKey (type : String)
  /-- Nothing can be appended to the type. -/
  | append (type : String)
  /-- The right side of an instance test is no class. -/
  | instanceOperands (left right : String)
  /-- The type is no base class. -/
  | inheritance (type : String)
  /-- The type cannot serve as a delegate. -/
  | delegateValue (type : String)
  /-- The type has no delegate. -/
  | delegateOwner (type : String)
  /-- The type cannot be resumed. -/
  | notResumable (type : String)
  /-- The type cannot be iterated. -/
  | notIterable (type : String)
  /-- Host data without the iteration hook cannot be iterated. -/
  | userdataIteration
  /-- A thread cannot run the type. -/
  | threadFunction (type : String)
  /-- The type is no function body. -/
  | notRoutine (type : String)
  /-- The type has no stream form. -/
  | notSerializable (type : String)
  /-- An argument of a host function has the wrong type. -/
  | argumentMask (position : Nat) (name type : String)
  /-- The type has no length. -/
  | noLength (type : String)
  /-- Integer division by zero. -/
  | divisionByZero
  /-- Integer remainder by zero. -/
  | moduloByZero
  /-- An array index is out of range. -/
  | arrayIndex (index : Int) (length : Nat)
  /-- The array has no last value. -/
  | emptyArray
  /-- A string index is out of range. -/
  | stringIndex (index : Int) (length : Nat)
  /-- There is no slot under the key of that text. -/
  | missingKey (key : String)
  /-- Null is no key. -/
  | nullKey
  /-- A pattern without a number is no key. -/
  | nanKey
  /-- The class has instances already. -/
  | lockedClass
  /-- The object refuses new slots. -/
  | slotRefused (type : String)
  /-- The table would be its own delegate. -/
  | delegateCycle
  /-- A closure with captured variables has no stream form. -/
  | capturedValues
  /-- A script function got the wrong number of arguments. -/
  | arity (name : String) (expected got : Nat)
  /-- A host function got the wrong number of arguments. -/
  | nativeArity (name : String) (got : Nat) (expected : String)
  /-- A type mask cannot be read. -/
  | typeMask (cause : String)
  /-- An argument has another type than the host function needs. -/
  | argumentType (position : Nat) (type expected : String)
  /-- There is no generator to yield from. -/
  | yieldOutside
  /-- The generator is running. -/
  | resumeActive
  /-- The generator has finished. -/
  | resumeDead
  /-- The thread is suspended and takes no calls. -/
  | suspendedCall
  /-- The thread is not suspended. -/
  | notSuspended (state : String)
  /-- A suspended thread does not know where to continue. -/
  | missingSuspension
  /-- The thread cannot be suspended from inside a nested call. -/
  | nestedSuspension
  /-- The thread is running. -/
  | threadRunning
  /-- The thread has no function to run. -/
  | noThreadFunction
  /-- There is no frame. -/
  | noFrame
  /-- A literal index is out of range. -/
  | literalRange (index : Int)
  /-- A function index is out of range. -/
  | functionRange (index : Int)
  /-- An outer index is out of range. -/
  | outerRange (index : Nat) (name : String)
  /-- An outer index is negative. -/
  | outerIndex (index : Int)
  /-- A captured register has no byte number. -/
  | captureRegister (number : Nat)
  /-- A jump leaves the instructions. -/
  | jumpOutside (target : Int) (name : String)
  /-- The frame has no trap left to remove. -/
  | trapUnderflow
  /-- The handler of a trap would stand before the instructions. -/
  | trapHandler (target : Int)
  /-- No bitwise operation has that code. -/
  | bitwiseCode (code : Nat)
  /-- No comparison has that code. -/
  | comparisonCode (code : Nat)
  /-- No append source has that code. -/
  | appendCode (code : Nat)
  /-- No object form has that code. -/
  | objectCode (code : Nat)
  /-- The registers of an iteration have no byte numbers. -/
  | iterationRegisters (first : Nat)
  /-- The cursor of an iteration is negative. -/
  | cursorValue (cursor : Int)
  /-- The cursor of an iteration is no integer. -/
  | cursorType (type : String)
  /-- The array changed its length during a sort. -/
  | resizedDuringSort (before after : Nat)
  /-- A host function failed with a text of its own. -/
  | custom (text : String)
  /-- A script or a host function raised a value. -/
  | thrown (value : Value)
  /-- A stream cannot be read. -/
  | stream (cause : StreamError)
  /-- A prototype is not acceptable. -/
  | verify (cause : VerifyError)
deriving DecidableEq

namespace Fault

/-- The family of a fault. -/
def family : Fault → FaultFamily
  | .stackOverflow => .stackOverflow
  | .nativeStackOverflow => .nativeStackOverflow
  | .notIndexable _ | .notAssignable _ | .noSlots _ | .noRemoval _ | .notCallable _
  | .arithmeticOperands _ _ _ | .bitwiseOperands _ _ | .negation _ | .comparison _ _
  | .comparisonHook _ | .comparator _ | .arrayKey _ | .stringKey _ | .append _
  | .instanceOperands _ _ | .inheritance _ | .delegateValue _ | .delegateOwner _
  | .notResumable _ | .notIterable _ | .userdataIteration | .threadFunction _ | .notRoutine _
  | .notSerializable _ | .argumentMask _ _ _ | .noLength _ => .type
  | .divisionByZero | .moduloByZero => .arithmetic
  | .arrayIndex _ _ | .emptyArray | .stringIndex _ _ => .index
  | .missingKey _ => .lookup
  | .nullKey | .nanKey | .lockedClass | .slotRefused _ | .delegateCycle
  | .capturedValues => .structural
  | .arity _ _ _ | .nativeArity _ _ _ | .typeMask _ | .argumentType _ _ _ => .argument
  | .yieldOutside | .resumeActive | .resumeDead => .generator
  | .suspendedCall | .notSuspended _ | .missingSuspension | .nestedSuspension | .threadRunning
  | .noThreadFunction => .thread
  | .noFrame | .literalRange _ | .functionRange _ | .outerRange _ _ | .outerIndex _
  | .captureRegister _ | .jumpOutside _ _ | .trapUnderflow | .trapHandler _ | .bitwiseCode _
  | .comparisonCode _ | .appendCode _ | .objectCode _ | .iterationRegisters _ | .cursorValue _
  | .cursorType _ | .resizedDuringSort _ _ | .custom _ => .runtime
  | .thrown _ => .thrown
  | .stream _ => .stream
  | .verify _ => .verify

/-- The particulars of a fault, without the name of its family. -/
def detail : Fault → String
  | .stackOverflow => ""
  | .nativeStackOverflow => ""
  | .notIndexable type => s!"cannot index '{type}'"
  | .notAssignable type => s!"cannot assign into '{type}'"
  | .noSlots type => s!"cannot create a slot in '{type}'"
  | .noRemoval type => s!"cannot delete a slot from '{type}'"
  | .notCallable type => s!"attempt to call '{type}'"
  | .arithmeticOperands symbol left right => s!"arith op {symbol} between '{left}' and '{right}'"
  | .bitwiseOperands left right => s!"bitwise op between '{left}' and '{right}'"
  | .negation type => s!"attempt to negate '{type}'"
  | .comparison left right => s!"comparison between '{left}' and '{right}'"
  | .comparisonHook type => s!"_cmp must return an integer, got '{type}'"
  | .comparator type => s!"sort comparator must return an integer, got '{type}'"
  | .arrayKey type => s!"indexing array with '{type}'"
  | .stringKey type => s!"indexing string with '{type}'"
  | .append type => s!"cannot append to '{type}'"
  | .instanceOperands left right => s!"cannot apply instanceof between '{left}' and '{right}'"
  | .inheritance type => s!"cannot inherit from '{type}'"
  | .delegateValue type => s!"a '{type}' cannot be a delegate"
  | .delegateOwner type => s!"cannot set the delegate of '{type}'"
  | .notResumable type => s!"cannot resume a '{type}'"
  | .notIterable type => s!"cannot iterate '{type}'"
  | .userdataIteration => "cannot iterate userdata without _nexti"
  | .threadFunction type => s!"a thread cannot run a '{type}'"
  | .notRoutine type => s!"expected a function prototype, got '{type}'"
  | .notSerializable type => s!"cannot serialize a '{type}'"
  | .argumentMask position name type =>
    s!"parameter {position} of '{name}' has an invalid type '{type}'"
  | .noLength type => s!"'{type}' has no length"
  | .divisionByZero => "division by zero"
  | .moduloByZero => "modulo by zero"
  | .arrayIndex index length => s!"index {index} out of range for array of length {length}"
  | .emptyArray => "array is empty"
  | .stringIndex index length => s!"index {index} out of range for string of length {length}"
  | .missingKey key => s!"the index '{key}' does not exist"
  | .nullKey => "null cannot be used as a key"
  | .nanKey => "NaN cannot be used as a key"
  | .lockedClass => "cannot add members to a class that has been instantiated"
  | .slotRefused type => s!"cannot create a slot in '{type}'"
  | .delegateCycle => "delegate chain would contain the table itself"
  | .capturedValues => "cannot serialize a closure with outer values"
  | .arity name expected got =>
    s!"wrong number of parameters: '{name}' expects {expected}, got {got}"
  | .nativeArity name got expected =>
    s!"wrong number of parameters for '{name}': got {got}, expected {expected}"
  | .typeMask cause => cause
  | .argumentType position type expected =>
    s!"parameter {position} has an invalid type '{type}'; expected: '{expected}'"
  | .yieldOutside => "yield outside of a generator"
  | .resumeActive => "resuming an active generator"
  | .resumeDead => "resuming a dead generator"
  | .suspendedCall => "cannot call into a suspended thread"
  | .notSuspended state => s!"cannot wake up a thread that is {state}"
  | .missingSuspension => "missing suspension point"
  | .nestedSuspension => "cannot suspend a thread from a nested call"
  | .threadRunning => "the thread is already running"
  | .noThreadFunction => "the thread has no function"
  | .noFrame => "no active call frame"
  | .literalRange index => s!"literal {index} out of range"
  | .functionRange index => s!"function {index} out of range"
  | .outerRange index name => s!"outer value {index} out of range in '{name}'"
  | .outerIndex index => s!"invalid outer index {index}"
  | .captureRegister number => s!"invalid capture register {number}"
  | .jumpOutside target name => s!"jump to {target} outside of '{name}'"
  | .trapUnderflow => "trap stack underflow"
  | .trapHandler target => s!"trap handler at {target}"
  | .bitwiseCode code => s!"invalid bitwise operation {code}"
  | .comparisonCode code => s!"invalid comparison {code}"
  | .appendCode code => s!"invalid append kind {code}"
  | .objectCode code => s!"invalid object kind {code}"
  | .iterationRegisters first =>
    s!"foreach state registers starting at {first} exceed the register range"
  | .cursorValue cursor => s!"invalid iteration cursor {cursor}"
  | .cursorType type => s!"invalid iteration cursor of type '{type}'"
  | .resizedDuringSort before after => s!"array resized from {before} to {after} during sort"
  | .custom text => text
  | .thrown value => value.display
  | .stream cause => cause.message
  | .verify cause => cause.message

/-- The message of a fault. -/
def message (fault : Fault) : String :=
  match fault.family with
  | .stackOverflow => "Stack overflow"
  | .nativeStackOverflow => "Native stack overflow"
  | .type => "Type error: " ++ fault.detail
  | .arithmetic => "Arithmetic error: " ++ fault.detail
  | .index => "Index error: " ++ fault.detail
  | .lookup => "Lookup error: " ++ fault.detail
  | .structural => "Structural error: " ++ fault.detail
  | .argument => "Argument error: " ++ fault.detail
  | .generator => "Generator error: " ++ fault.detail
  | .thread => "Thread error: " ++ fault.detail
  | .runtime => "Runtime error: " ++ fault.detail
  | .thrown => "Uncaught exception: " ++ fault.detail
  | .stream => "Serialization error: " ++ fault.detail
  | .verify => "Verification error: " ++ fault.detail

/-- No trap catches the fault. -/
def isFatal : Fault → Bool
  | .nativeStackOverflow => true
  | _ => false

/-- The value that scripts see when they catch the fault: a raised value itself, the message of
anything else. -/
def toValue : Fault → Value
  | .thrown value => value
  | other => .ofText other.message

end Fault

namespace Value

/-- Whether a value can be a table key. -/
def checkKey : Value → Except Fault Unit
  | .null => .error .nullKey
  | .float value => if value.isNaN then .error .nanKey else .ok ()
  | _ => .ok ()

/-- The order of bytes from front to back; a beginning comes before its continuations. -/
def compareBytes : List UInt8 → List UInt8 → Ordering
  | [], [] => .eq
  | [], _ :: _ => .lt
  | _ :: _, [] => .gt
  | x :: xs, y :: ys => (compare x y).then (compareBytes xs ys)

/-- The order of values without hooks.  Numbers of different types are compared as floating-point
numbers; where one of them is no number the left counts as less. -/
def order : Value → Value → Except Fault Ordering
  | .integer x, .integer y => .ok (compare x y)
  | .string x, .string y => .ok (compareBytes x.toList y.toList)
  | .bool x, .bool y => .ok (compare x y)
  | .null, .null => .ok .eq
  | x, y =>
    match x.toFloat?, y.toFloat? with
    | some a, some b => .ok ((a.compare? b).getD .lt)
    | _, _ => .error (.comparison x.typeName y.typeName)

end Value

end ScriptMachine
