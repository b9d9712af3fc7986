import ScriptMachine.Text.Quoted

/-!
# Fixed-width columns and hexadecimal words

Listings line their columns up with blanks; error messages show words in hexadecimal, filled up
with zeros.
-/

namespace ScriptMachine.Text

/-- The text followed by blanks up to the width. -/
def padRight (width : Nat) (text : String) : String :=
  text ++ String.ofList (List.replicate (width - text.length) ' ')

/-- The text after blanks up to the width. -/
def padLeft (width : Nat) (text : String) : String :=
  String.ofList (List.replicate (width - text.length) ' ') ++ text

/-- A number in hexadecimal with at least the given number of digits. -/
def hexWord (least : Nat) (n : Nat) : String :=
  let digits := hexDigits n
  "0x" ++ String.ofList (List.replicate (least - digits.length) '0' ++ digits)

end ScriptMachine.Text
