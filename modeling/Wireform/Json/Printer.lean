import Wireform.Json.Value
/-! Compact JSON text.

A finite double has the fewest digits that read back, of two equally near
decimals the even one. It is written positionally, with a fraction, while its
first digit stands between the fifth place after the point and the sixteenth
before it, and with an exponent otherwise. A double that is not finite is null.
-/

set_option autoImplicit false

namespace Wireform.Json

namespace Printer

def hexDigit (n : Nat) : Char := Nat.digitChar (n % 16)

def escaped (c : Char) : List Char :=
  if c = '"' then ['\\', '"']
  else if c = '\\' then ['\\', '\\']
  else if c = '\x08' then ['\\', 'b']
  else if c = '\x0c' then ['\\', 'f']
  else if c = '\n' then ['\\', 'n']
  else if c = '\r' then ['\\', 'r']
  else if c = '\t' then ['\\', 't']
  else if c.toNat < 0x20 then ['\\', 'u', '0', '0', hexDigit (c.toNat / 16), hexDigit c.toNat]
  else [c]

def string (text : String) : List Char := '"' :: text.toList.flatMap escaped ++ ['"']

def magnitude (magnitude : Nat) : List Char :=
  let shortest := BinaryFormat.double.shortest .toEven magnitude
  if -5 ≤ shortest.leadingExponent ∧ shortest.leadingExponent ≤ 15 then
    shortest.positional ++ if 0 ≤ shortest.exponent then ['.', '0'] else []
  else shortest.scientific

def float (x : Binary .double) : List Char :=
  if x.isFinite then (if x.isNegative then ['-'] else []) ++ magnitude x.magnitude
  else "null".toList

def commas (parts : List (List Char)) : List Char := [','].intercalate parts

mutual

def value : Value → List Char
  | .null => "null".toList
  | .bool true => "true".toList
  | .bool false => "false".toList
  | .int n => Decimal.intText n
  | .float x => float x
  | .string text => string text
  | .array items => '[' :: commas (values items) ++ [']']
  | .object entries => '\x7b' :: commas (members entries) ++ ['\x7d']

def values : List Value → List (List Char)
  | [] => []
  | first :: rest => value first :: values rest

def members : List (String × Value) → List (List Char)
  | [] => []
  | (key, first) :: rest => (string key ++ ':' :: value first) :: members rest

end

end Printer

/-- The text of a value, with no blanks. -/
def Value.print (value : Value) : String := String.ofList (Printer.value value)

end Wireform.Json
