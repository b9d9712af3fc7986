import ScriptMachine.Number.Layout
import ScriptMachine.Text.Column
import ScriptMachine.Text.Lossy
import ScriptMachine.Value.Basic

/-!
# Texts of values

The display text is what scripts see; the inspection text also names the type.  Objects have no
text of their own: they show their type and the fixed mark `ADDR` in the place of an address.
-/

namespace ScriptMachine.Value

/-- What stands for the address of an object. -/
def addressMark : String := "ADDR"

/-- The text of a value as scripts see it, hooks apart. -/
def display : Value → String
  | .null => "null"
  | .bool value => if value then "true" else "false"
  | .integer value => toString value.toInt
  | .float value => FloatLayout.plain.render value
  | .string bytes => Text.lossy bytes
  | .pointer address => "(userpointer : " ++ Text.hexWord 1 address.toNat ++ ")"
  | other => "(" ++ other.typeName ++ " : " ++ addressMark ++ ")"

/-- The text of a value for inspection. -/
def inspect : Value → String
  | .null => "Null"
  | .bool value => if value then "Bool(true)" else "Bool(false)"
  | .integer value => "Integer(" ++ toString value.toInt ++ ")"
  | .float value => "Float(" ++ FloatLayout.marked.render value ++ ")"
  | .string bytes => "String(" ++ Text.quoted (Text.lossy bytes) ++ ")"
  | .pointer address => "UserPointer(" ++ Text.hexWord 1 address.toNat ++ ")"
  | other => other.typeName ++ "(" ++ addressMark ++ ")"

end ScriptMachine.Value
