/-!
# Quoted text

A quoted text stands between double quotes.  Quotes and backslashes are escaped with a backslash,
the common control characters by their letter and the other control characters by their number.
-/

namespace ScriptMachine.Text

/-- The double quote. -/
def quoteMark : Char := Char.ofNat 34

/-- The backslash. -/
def backslash : Char := Char.ofNat 92

/-- The character has no visible form of its own. -/
def isUnprintable (c : Char) : Bool :=
  c.toNat < 0x20 || (0x7F ≤ c.toNat && c.toNat < 0xA0) || c.toNat == 0xAD

/-- Lower-case hexadecimal digits of a number, without leading zeros. -/
def hexDigits (n : Nat) : List Char := Nat.toDigits 16 n

/-- The character as it stands between quotes. -/
def escapeChar (c : Char) : List Char :=
  if c == quoteMark || c == backslash then [backslash, c]
  else if c == '\n' then [backslash, 'n']
  else if c == '\r' then [backslash, 'r']
  else if c == '\t' then [backslash, 't']
  else if c.toNat == 0 then [backslash, '0']
  else if isUnprintable c then
    backslash :: 'u' :: Char.ofNat 123 :: hexDigits c.toNat ++ [Char.ofNat 125]
  else [c]

/-- The text between double quotes. -/
def quoted (text : String) : String :=
  String.ofList (quoteMark :: text.toList.flatMap escapeChar ++ [quoteMark])

end ScriptMachine.Text
