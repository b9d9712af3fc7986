import ScriptMachine.Bytecode.Listing
import ScriptMachine.Library.Standard

/-!
# The command line

Three commands work on a file that holds the stream of a closure: one runs it, one lists its
instructions and one verifies it.  A failing command has a message and the causes behind it.
-/

namespace ScriptMachine

/-- A command on a file. -/
inductive Command where
  /-- Run the closure with texts as arguments. -/
  | run (arguments : List String)
  /-- List the instructions. -/
  | list
  /-- Verify the prototype. -/
  | verify
deriving DecidableEq, Repr

/-- What a command leaves behind. -/
structure CommandResult where
  /-- Zero for success. -/
  exitCode : Nat := 0
  /-- What it has printed. -/
  output : String := ""
  /-- What it has complained of. -/
  complaint : String := ""
deriving DecidableEq, Repr

namespace CommandResult

/-- A cause behind its label; further lines of it are indented as far as the first. -/
def renderCause (label cause : String) : String :=
  let margin := String.ofList (List.replicate label.length ' ')
  label ++ cause.replace "\n" ("\n" ++ margin) ++ "\n"

/-- The causes of a failure: one alone stands for itself, several are numbered. -/
def renderCauses : List String → String
  | [] => ""
  | [cause] => "\nCaused by:\n" ++ renderCause "    " cause
  | causes =>
    "\nCaused by:\n" ++
      String.join (causes.zipIdx.map fun (cause, number) => renderCause s!"    {number}: " cause)

/-- A failure with a message and its causes, after something has been printed. -/
def failure (message : String) (causes : List String) (output : String) : CommandResult where
  exitCode := 1
  output := output
  complaint := "Error: " ++ message ++ "\n" ++ renderCauses causes

end CommandResult

/-- The messages of an error of a stream and of the error behind it. -/
def StreamError.causes : StreamError → List String
  | .decode cause => [StreamError.message (.decode cause), cause.message]
  | other => [other.message]

namespace Command

/-- Lines as one text. -/
def joinLines (lines : List String) : String := String.join (lines.map (· ++ "\n"))

/-- Wake a suspended machine with null until its call has returned, at most so many times. -/
def driveToEnd (engine : Engine) : Nat → Outcome → Exec Value
  | _, .completed value => return value
  | 0, .suspended _ => Exec.exhaust
  | turns + 1, .suspended _ => do
    let outcome ← Exec.wakeup engine .null
    driveToEnd engine turns outcome

/-- Run a closure with texts as arguments and print the text of its result, unless it is null. -/
def runClosure (engine : Engine) (turns : Nat) (closure : Value) (arguments : List String) :
    Exec Unit := do
  let outcome ← Exec.run engine closure (arguments.map Value.ofText)
  let value ← driveToEnd engine turns outcome
  unless value.isNull do
    let text ← Exec.displayText engine value
    modify fun machine => { machine with printed := machine.printed.push text }

/-- Run the closure in a stream with at most so many steps. -/
def runStream (steps : Nat) (file : String) (bytes : List UInt8) (arguments : List String) :
    CommandResult :=
  let prepared : Exec Value := do
    BaseFunction.install
    Exec.loadClosure bytes
  match prepared (Machine.create {}) with
  | .error (.raised fault) _ => .failure s!"Failed to load {file}: {fault.message}" [] ""
  | .error .exhausted _ => .failure "out of steps" [] ""
  | .ok closure machine =>
    match runClosure (standardEngine steps) steps closure arguments machine with
    | .ok _ next => { output := joinLines next.printed.toList }
    | .error (.raised fault) next => .failure fault.message [] (joinLines next.printed.toList)
    | .error .exhausted next => .failure "out of steps" [] (joinLines next.printed.toList)

/-- Read a prototype from a stream and go on with it. -/
def withPrototype (file : String) (bytes : List UInt8) (action : Prototype → CommandResult) :
    CommandResult :=
  match Stream.decode bytes with
  | .ok prototype => action prototype
  | .error cause => .failure s!"Failed to decode {file}" cause.causes ""

/-- The listing of a prototype with the name of its source in front. -/
def listPrototype (prototype : Prototype) : CommandResult :=
  let source := if prototype.source.isEmpty then "" else s!"; source {prototype.source}\n"
  { output := source ++ prototype.listing }

/-- The verdict on a prototype. -/
def verifyPrototype (file : String) (prototype : Prototype) : CommandResult :=
  match prototype.verify with
  | .ok _ =>
    let functions := prototype.functionTotal
    let instructions := prototype.instructionTotal
    { output := s!"{file}: ok ({functions} functions, {instructions} instructions)\n" }
  | .error cause => .failure s!"{file} failed verification" [cause.message] ""

/-- Carry out a command on a file with some contents, or on one that does not exist. -/
def execute (command : Command) (steps : Nat) (file : String) (contents : Option (List UInt8)) :
    CommandResult :=
  match contents, command with
  | none, _ => .failure s!"File not found: {file}" [] ""
  | some bytes, .run arguments => runStream steps file bytes arguments
  | some bytes, .list => withPrototype file bytes listPrototype
  | some bytes, .verify => withPrototype file bytes (verifyPrototype file)

end Command

end ScriptMachine
