import ScriptMachine.CommandLine

/-!
# The program

Reads the command and the file and prints what the command leaves behind.
-/

namespace ScriptMachine

/-- The command that a word and further words stand for. -/
def Command.ofWords? (word : String) (arguments : List String) : Option Command :=
  match word with
  | "run" => some (.run arguments)
  | "disasm" => some .list
  | "verify" => some .verify
  | _ => none

/-- The bytes of a file, unless it cannot be read. -/
def readContents (file : String) : IO (Option (List UInt8)) := do
  try return some (← IO.FS.readBinFile file).toList
  catch _ => return none

/-- How many steps the program grants. -/
def grantedSteps : Nat := 1 <<< 60

end ScriptMachine

open ScriptMachine in
/-- Carry out the command that the arguments spell. -/
def main (arguments : List String) : IO UInt32 := do
  match arguments with
  | word :: file :: rest =>
    match Command.ofWords? word rest with
    | some command =>
      let result := command.execute grantedSteps file (← readContents file)
      IO.print result.output
      IO.eprint result.complaint
      return UInt32.ofNat result.exitCode
    | none =>
      IO.eprintln s!"unrecognized subcommand '{word}'"
      return 2
  | _ =>
    IO.eprintln "usage: run FILE [ARGS...] | disasm FILE | verify FILE"
    return 2
