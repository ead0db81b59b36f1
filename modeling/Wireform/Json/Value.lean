import Wireform.Binary
import Wireform.Json.Document
/-! What JSON documents denote.

An integer of 64 bits, signed or not, is exact. Any other number is a double: the
leading digits that 64 bits hold, scaled by a power of ten in at most a few
rounded steps. A number too large for a double is refused, and so is a string
whose bytes are not UTF-8 or whose surrogates are not in pairs.
-/

set_option autoImplicit false

namespace Wireform.Json

inductive Value where
  | null
  | bool (value : Bool)
  | int (value : Int)
  | float (value : Binary .double)
  | string (value : String)
  | array (items : List Value)
  | object (members : List (String × Value))

/-- Take digits in as long as 64 bits hold the number, and count those left over. -/
def gather (significand : Nat) : List Nat → Nat × Nat
  | [] => (significand, 0)
  | digit :: rest =>
      if 10 * significand + digit < 2 ^ 64 then gather (10 * significand + digit) rest
      else (significand, rest.length + 1)

def scale (magnitude : Nat) (exponent : Int) : Option Nat :=
  if magnitude = 0 then some 0
  else if 308 < exponent then none
  else if 0 ≤ exponent then
    let product := BinaryFormat.double.mul magnitude (BinaryFormat.double.roundDecimal 1 exponent)
    if product < BinaryFormat.double.infinity then some product else none
  else if -308 ≤ exponent then
    some (BinaryFormat.double.div magnitude (BinaryFormat.double.roundDecimal 1 (-exponent)))
  else
    scale (BinaryFormat.double.div magnitude (BinaryFormat.double.roundDecimal 1 308))
      (exponent + 308)
termination_by (-exponent).toNat

namespace Number

def exponentValue? (digits : List Nat) : Option Nat :=
  let n : Nat := digits.foldl (fun acc d => 10 * acc + d) 0
  if n < 2 ^ 31 then some n else none

/-- A number with a fraction, an exponent or more digits than 64 bits hold. -/
def toMagnitude? (number : Number) : Option Nat :=
  let (significand, dropped) := gather 0 number.whole
  let (significand, ignored) := gather significand number.fraction
  let shift : Int := (dropped : Int) - ((number.fraction.length - ignored : Nat) : Int)
  let magnitude := BinaryFormat.double.round significand 1
  match number.exponent with
  | none => scale magnitude shift
  | some (negative, digits) =>
      match exponentValue? digits with
      | some n => scale magnitude (if negative then shift - (n : Int) else shift + (n : Int))
      | none => if significand = 0 ∨ negative then some 0 else none

def toValue? (number : Number) : Option Value :=
  let n : Nat := number.whole.foldl (fun acc d => 10 * acc + d) 0
  let plain := number.fraction.isEmpty && number.exponent.isNone
  if plain && !number.negative && n < 2 ^ 64 then some (.int n)
  else if plain && number.negative && 0 < n && n ≤ 2 ^ 63 then some (.int (-n))
  else number.toMagnitude?.map fun magnitude =>
    .float (Binary.ofMagnitude .double number.negative magnitude)

end Number

def bytesOf? : List Piece → Option Bytes
  | [] => some []
  | .byte value :: rest => (bytesOf? rest).map (value :: ·)
  | .unit high :: .unit low :: rest =>
      if 0xD800 ≤ high ∧ high ≤ 0xDBFF then
        if 0xDC00 ≤ low ∧ low ≤ 0xDFFF then
          let c := Char.ofNat (0x10000 + (high - 0xD800) * 0x400 + (low - 0xDC00))
          (bytesOf? rest).map (Utf8.encode c.toString ++ ·)
        else none
      else if 0xDC00 ≤ high ∧ high ≤ 0xDFFF then none
      else (bytesOf? (.unit low :: rest)).map (Utf8.encode (Char.ofNat high).toString ++ ·)
  | .unit value :: rest =>
      if 0xD800 ≤ value ∧ value ≤ 0xDFFF then none
      else (bytesOf? rest).map (Utf8.encode (Char.ofNat value).toString ++ ·)

def textOf? (pieces : List Piece) : Option String := (bytesOf? pieces).bind Utf8.decode?

namespace Value

def setMember (key : String) (value : Value) : List (String × Value) → List (String × Value)
  | [] => [(key, value)]
  | (other, old) :: rest =>
      if key < other then (key, value) :: (other, old) :: rest
      else if key = other then (key, value) :: rest
      else (other, old) :: setMember key value rest

mutual

/-- The value of a document of at most the given depth. Members are put in the
order of their keys, and of two with one key the later counts. -/
def ofDocument? : Nat → Document → Option Value
  | _, .null => some .null
  | _, .bool value => some (.bool value)
  | _, .number number => number.toValue?
  | _, .string pieces => (textOf? pieces).map .string
  | 0, .array _ => none
  | depth + 1, .array items => (ofItems? depth items).map .array
  | 0, .object _ => none
  | depth + 1, .object members => (ofMembers? depth [] members).map .object

def ofItems? : Nat → List Document → Option (List Value)
  | _, [] => some []
  | depth, first :: rest => do
      let value ← ofDocument? depth first
      let values ← ofItems? depth rest
      some (value :: values)

def ofMembers? : Nat → List (String × Value) → List (List Piece × Document) →
    Option (List (String × Value))
  | _, done, [] => some done
  | depth, done, (pieces, document) :: rest => do
      let key ← textOf? pieces
      let value ← ofDocument? depth document
      ofMembers? depth (setMember key value done) rest

end

end Value

end Wireform.Json
