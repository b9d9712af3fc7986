import ScriptMachine.Bytecode.Instruction
import ScriptMachine.Number.Binary64

/-!
# Compiled functions

A prototype is the immutable result of compiling a function: literals, parameter names, captures,
line table, instructions and the prototypes of the functions nested in it.  `lineFor?` finds the
source line of an instruction by bisection of the line table.
-/

namespace ScriptMachine

/-- An entry of a literal pool. -/
inductive Literal where
  /-- The null value. -/
  | null
  /-- A truth value. -/
  | bool (value : Bool)
  /-- An integer. -/
  | integer (value : Int64)
  /-- A floating-point number. -/
  | float (value : Binary64)
  /-- A text. -/
  | string (value : String)
deriving DecidableEq, Repr, Inhabited

/-- Where a captured variable comes from when its closure is created. -/
inductive CaptureSource where
  /-- A copy of a register of the creating frame. -/
  | register (number : UInt32)
  /-- The cell at an index of the creating closure, shared with it. -/
  | outer (index : UInt32)
  /-- The slot of that name of the receiver of the creating frame. -/
  | symbol (name : String)
deriving DecidableEq, Repr

/-- A captured variable. -/
structure Capture where
  /-- The name of the variable. -/
  name : String
  /-- Where its value comes from. -/
  source : CaptureSource
deriving DecidableEq, Repr

/-- An entry of a line table: instructions from `index` on belong to `line`. -/
structure LineMark where
  /-- The source line. -/
  line : UInt32
  /-- The first instruction of the line. -/
  index : UInt32
deriving DecidableEq, Repr, Inhabited

/-- A compiled function. -/
structure Prototype where
  /-- The name of the function; empty for a function without one. -/
  name : String
  /-- The name of the source file. -/
  source : String := ""
  /-- The literal pool. -/
  literals : Array Literal := #[]
  /-- The parameter names; the first is the receiver. -/
  parameters : Array String := #["this"]
  /-- The captured variables. -/
  captures : Array Capture := #[]
  /-- The line table. -/
  lines : Array LineMark := #[]
  /-- The instructions. -/
  code : Array Instruction := #[]
  /-- The registers of one activation. -/
  stackSize : Nat := 1
  /-- A call creates a generator. -/
  isGenerator : Bool := false
  /-- Further arguments are collected into the last parameter. -/
  isVariadic : Bool := false
  /-- The functions nested in this one. -/
  functions : List Prototype := []

/-- The number of leading entries of a table for which a test holds, by bisection.  The table is
meant to have all such entries in front; on any other table the result is still determined. -/
def bisect (size : Nat) (test : Nat → Bool) : Nat :=
  if size = 0 then 0
  else
    let base := narrow size size 0
    if test base then base + 1 else base
where
  /-- Halve the range of `size` entries from `base` on until one entry is left. -/
  narrow (steps size base : Nat) : Nat :=
    match steps with
    | 0 => base
    | steps + 1 =>
      if size ≤ 1 then base
      else
        let half := size / 2
        narrow steps (size - half) (if test (base + half) then base + half else base)

/-- The source line of the instruction at `index`: that of the last mark at or before it. -/
def LineMark.find? (marks : Array LineMark) (index : Nat) : Option UInt32 :=
  match bisect marks.size fun i => (marks.getD i default).index.toNat ≤ index with
  | 0 => none
  | position + 1 => marks[position]?.map LineMark.line

namespace Prototype

instance : Inhabited Prototype := ⟨{ name := "" }⟩

/-- The number of parameters, the receiver included. -/
def parameterCount (prototype : Prototype) : Nat := prototype.parameters.size

/-- The source line of the instruction at `index`. -/
def lineFor? (prototype : Prototype) (index : Nat) : Option UInt32 :=
  LineMark.find? prototype.lines index

/-- The name shown for a function. -/
def displayName (name : String) : String :=
  if name.isEmpty then "<anonymous>" else name

mutual

/-- Equality of two prototypes as a decision. -/
def decEq : (left right : Prototype) → Decidable (left = right)
  | ⟨n, s, ls, ps, cs, ms, co, k, g, v, fs⟩, ⟨n', s', ls', ps', cs', ms', co', k', g', v', fs'⟩ =>
    match decEqList fs fs' with
    | .isFalse differ => .isFalse fun same => differ (by injection same)
    | .isTrue same =>
      if rest : n = n' ∧ s = s' ∧ ls = ls' ∧ ps = ps' ∧ cs = cs' ∧ ms = ms' ∧ co = co' ∧ k = k' ∧
          g = g' ∧ v = v' then
        .isTrue (by simp [rest, same])
      else
        .isFalse fun equal => rest (by injection equal; simp_all)

/-- Equality of two lists of prototypes as a decision. -/
def decEqList : (left right : List Prototype) → Decidable (left = right)
  | [], [] => .isTrue rfl
  | [], _ :: _ => .isFalse (by simp)
  | _ :: _, [] => .isFalse (by simp)
  | x :: xs, y :: ys =>
    match decEq x y, decEqList xs ys with
    | .isTrue head, .isTrue tail => .isTrue (by rw [head, tail])
    | .isFalse head, _ => .isFalse (by simp [head])
    | _, .isFalse tail => .isFalse (by simp [tail])

end

instance : DecidableEq Prototype := decEq

end Prototype

end ScriptMachine
