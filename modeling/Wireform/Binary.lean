import Wireform.Element
import Wireform.FixedWidth
/-! Binary floating-point numbers as their bit patterns, and their decimal texts.

The top bit is the sign; the bits below it, the magnitude, are ordered like the
numbers they stand for. The magnitudes above that of infinity are the NaNs, whose
payloads are kept. A quotient is rounded to the nearest number; a tie goes to the
even neighbour and what is too large goes to infinity.

As a list element a finite number is written positionally with the fewest digits
that read back and without a fraction where it has none; of two equally near
decimals the upper one is written.
-/

set_option autoImplicit false

namespace Wireform

inductive BinaryFormat where
  | single
  | double
  deriving DecidableEq, Repr

namespace BinaryFormat

def bytes : BinaryFormat → Nat
  | single => 4
  | double => 8

/-- The bits of a significand, the leading one included. -/
def precision : BinaryFormat → Nat
  | single => 24
  | double => 53

def exponentBits : BinaryFormat → Nat
  | single => 8
  | double => 11

/-- The exponent of the last place of the least numbers. -/
def minExponent : BinaryFormat → Int
  | single => -149
  | double => -1074

/-- The decimal digits that tell any two numbers of the format apart. -/
def decimalDigits : BinaryFormat → Nat
  | single => 9
  | double => 17

def binade (format : BinaryFormat) : Nat := 2 ^ (format.precision - 1)

def infinity (format : BinaryFormat) : Nat := (2 ^ format.exponentBits - 1) * format.binade

/-- The magnitude of the NaN that arises without a payload. -/
def quietNaN (format : BinaryFormat) : Nat := format.infinity + format.binade / 2

/-- A finite magnitude is `significand * 2 ^ exponent`. -/
def significand (format : BinaryFormat) (magnitude : Nat) : Nat :=
  if magnitude < format.binade then magnitude else magnitude % format.binade + format.binade

def exponent (format : BinaryFormat) (magnitude : Nat) : Int :=
  if magnitude < format.binade then format.minExponent
  else format.minExponent + (magnitude / format.binade : Nat) - 1

def ratio (format : BinaryFormat) (magnitude : Nat) : Nat × Nat :=
  let exponent := format.exponent magnitude
  (format.significand magnitude * 2 ^ exponent.toNat, 2 ^ (-exponent).toNat)

end BinaryFormat

/-- The natural number nearest to a quotient, the even one of two. -/
def roundDiv (num den : Nat) : Nat :=
  let twice := 2 * (num % den)
  if den < twice ∨ (twice = den ∧ num / den % 2 = 1) then num / den + 1 else num / den

def floorLog2 (num den : Nat) : Int :=
  let guess : Int := (num.log2 : Int) - (den.log2 : Int)
  if num * 2 ^ (-guess).toNat < den * 2 ^ guess.toNat then guess - 1 else guess

namespace BinaryFormat

def round (format : BinaryFormat) (num den : Nat) : Nat :=
  if num = 0 then 0
  else
    let last := max format.minExponent (floorLog2 num den - (format.precision - 1 : Nat))
    let places := roundDiv (num * 2 ^ (-last).toNat) (den * 2 ^ last.toNat)
    min format.infinity ((last - format.minExponent).toNat * format.binade + places)

def roundDecimal (format : BinaryFormat) (digits : Nat) (exponent : Int) : Nat :=
  format.round (digits * 10 ^ exponent.toNat) (10 ^ (-exponent).toNat)

example : single.round 1 3 = 0x3eaaaaab := by decide +kernel
example : double.roundDecimal 1 (-1) = 0x3fb999999999999a := by decide +kernel
example : double.roundDecimal 5 (-324) = 1 := by decide +kernel
example : single.roundDecimal 4 38 = single.infinity := by decide +kernel

def mul (format : BinaryFormat) (first second : Nat) : Nat :=
  let (num, den) := format.ratio first
  let (num', den') := format.ratio second
  format.round (num * num') (den * den')

def div (format : BinaryFormat) (first second : Nat) : Nat :=
  let (num, den) := format.ratio first
  let (num', den') := format.ratio second
  format.round (num * den') (den * num')

example : double.mul (double.round 3 1) (double.round 1 2) = double.round 3 2 := by decide +kernel
example : double.div (double.round 1 1) (double.round 3 1) = double.round 1 3 := by decide +kernel

end BinaryFormat

inductive Tie where
  | up
  | toEven
  deriving DecidableEq, Repr

namespace BinaryFormat

/-- The neighbour of a quotient, on the grid of `10 ^ last`, that reads back as
the magnitude; the nearer one where both do. -/
def neighbour? (format : BinaryFormat) (tie : Tie) (magnitude : Nat) (last : Int) : Option Nat :=
  let (num, den) := format.ratio magnitude
  let num := num * 10 ^ (-last).toNat
  let den := den * 10 ^ last.toNat
  let below := num / den
  let above := below + 1
  let readsBack := fun digits => format.roundDecimal digits last = magnitude
  if readsBack below then
    if readsBack above then
      let twice := 2 * (num % den)
      if twice < den ∨ (twice = den ∧ tie = .toEven ∧ below % 2 = 0) then some below
      else some above
    else some below
  else if readsBack above then some above
  else none

def shortest (format : BinaryFormat) (tie : Tie) (magnitude : Nat) : Decimal.Scaled :=
  if magnitude = 0 then ⟨0, 0⟩
  else
    let (num, den) := format.ratio magnitude
    let leading := Decimal.floorLog10 num den
    let found := (List.range format.decimalDigits).findSome? fun (extra : Nat) =>
      let last := leading - extra
      (format.neighbour? tie magnitude last).map fun digits =>
        if digits = 10 ^ (extra + 1) then ⟨1, leading + 1⟩ else ⟨digits, last⟩
    found.getD ⟨0, 0⟩

example : double.shortest .up 1 = ⟨5, -324⟩ := by decide +kernel
example : single.shortest .up 0x3dcccccd = ⟨1, -1⟩ := by decide +kernel
example : double.shortest .toEven 0x3e60000000000000 = ⟨29802322387695312, -24⟩ := by
  decide +kernel
example : double.shortest .up 0x3e60000000000000 = ⟨29802322387695313, -24⟩ := by
  decide +kernel

end BinaryFormat

structure Binary (format : BinaryFormat) where
  bits : BitVec (8 * format.bytes)
  deriving DecidableEq

namespace Binary

variable {format : BinaryFormat}

instance : FixedWidth (Binary format) where
  width := format.bytes
  width_pos := by cases format <;> decide
  toBits := bits
  ofBits := mk
  ofBits_toBits _ := rfl
  toBits_ofBits _ := rfl

def isNegative (x : Binary format) : Bool := x.bits.msb

def magnitude (x : Binary format) : Nat := x.bits.toNat % 2 ^ (8 * format.bytes - 1)

def ofMagnitude (format : BinaryFormat) (negative : Bool) (magnitude : Nat) : Binary format :=
  ⟨BitVec.ofNat _ (if negative then 2 ^ (8 * format.bytes - 1) + magnitude else magnitude)⟩

def isNaN (x : Binary format) : Bool := format.infinity < x.magnitude

def isFinite (x : Binary format) : Bool := x.magnitude < format.infinity

example : (FixedWidth.minimum : Binary .single).isNegative = true := by decide
example : (FixedWidth.minimum : Binary .single).magnitude = 0 := by decide

def text (x : Binary format) : List Char :=
  if x.isNaN then ['N', 'a', 'N']
  else
    let sign := if x.isNegative then ['-'] else []
    sign ++ if x.isFinite then (format.shortest .up x.magnitude).positional else ['i', 'n', 'f']

/-- The magnitude of a decimal. Powers of ten far outside the format are not computed. -/
def magnitudeOf (format : BinaryFormat) (x : Decimal.Scaled) : Nat :=
  let leading := x.leadingExponent
  if x.digits = 0 ∨ leading < -400 then 0
  else if 400 < leading then format.infinity
  else format.roundDecimal x.digits x.exponent

def named? (format : BinaryFormat) (text : List Char) : Option Nat :=
  match String.ofList (text.map Char.toLower) with
  | "inf" | "infinity" => some format.infinity
  | "nan" => some format.quietNaN
  | _ => none

def read? (text : List Char) : Option (Binary format) :=
  let negative := text.head? = some '-'
  let unsigned := if text.head? = some '-' ∨ text.head? = some '+' then text.drop 1 else text
  let magnitude := (named? format unsigned).or ((Decimal.Scaled.read? unsigned).map (magnitudeOf format))
  magnitude.map (ofMagnitude format negative)

instance : Element (Binary format) := ⟨fun x => String.ofList x.text, fun text => read? text.toList⟩

example : (Element.ofText? "-1e-400" : Option (Binary .double)) = some ⟨0x8000000000000000⟩ := by
  decide +kernel

end Binary

end Wireform
