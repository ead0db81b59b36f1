import Wireform.Bytes
/-! Decimal integers and decimal fractions as text.

Reading an integer takes an optional sign and one or more ASCII digits, leading
zeros allowed; writing gives the one text without sign `+` and without leading
zeros. A fraction is digits times a power of ten.
-/

set_option autoImplicit false

namespace Wireform.Decimal

def natText (n : Nat) : List Char := Nat.toDigits 10 n

def intText : Int → List Char
  | .ofNat n => natText n
  | .negSucc n => '-' :: natText (n + 1)

def nat? (text : List Char) : Option Nat :=
  if text ≠ [] ∧ text.all Char.isDigit then some (Nat.ofDigitChars 10 text 0) else none

def int? : List Char → Option Int
  | '+' :: digits => (nat? digits).map Int.ofNat
  | '-' :: digits => (nat? digits).map fun (n : Nat) => -(n : Int)
  | digits => (nat? digits).map Int.ofNat

def intWithin? (low high : Int) (text : List Char) : Option Int :=
  (int? text).filter fun n => low ≤ n ∧ n ≤ high

def int64? (text : List Char) : Option Int := intWithin? (-2 ^ 63) (2 ^ 63 - 1) text

theorem natText_ne_nil (n : Nat) : natText n ≠ [] := Nat.toDigits_ne_nil

theorem isDigit_of_mem_natText {n : Nat} {c : Char} (member : c ∈ natText n) : c.isDigit = true :=
  Nat.isDigit_of_mem_toDigits (by decide) (by decide) member

@[simp] theorem nat?_natText (n : Nat) : nat? (natText n) = some n := by
  have digits : (natText n).all Char.isDigit = true :=
    List.all_eq_true.mpr fun _ member => isDigit_of_mem_natText member
  rw [nat?, if_pos ⟨natText_ne_nil n, digits⟩, natText, Nat.ofDigitChars_toDigits (by decide) (by decide)]

/-- A text that starts with neither sign is read as its digits. -/
theorem int?_of_unsigned {text : List Char} (plus : text.head? ≠ some '+')
    (minus : text.head? ≠ some '-') : int? text = (nat? text).map Int.ofNat := by
  unfold int?
  split
  · simp at plus
  · simp at minus
  · rfl

@[simp] theorem int?_intText (n : Int) : int? (intText n) = some n := by
  cases n with
  | ofNat n =>
    have unsigned {c : Char} (sign : c.isDigit = false) : (natText n).head? ≠ some c := by
      intro first
      have member : c ∈ natText n := List.mem_of_mem_head? first
      simp [isDigit_of_mem_natText member] at sign
    rw [intText, int?_of_unsigned (unsigned (by decide)) (unsigned (by decide)), nat?_natText]
    rfl
  | negSucc n => simp [intText, int?, Int.negSucc_eq]

theorem intWithin?_intText {low high n : Int} (above : low ≤ n) (below : n ≤ high) :
    intWithin? low high (intText n) = some n := by
  simp [intWithin?, above, below]

structure Scaled where
  digits : Nat
  exponent : Int
  deriving DecidableEq, Repr

def floorLog10 (num den : Nat) : Int :=
  let guess : Int := ((natText num).length : Int) - ((natText den).length : Int)
  if num * 10 ^ (-guess).toNat < den * 10 ^ guess.toNat then guess - 1 else guess

namespace Scaled

def positional (x : Scaled) : List Char :=
  let digits := natText x.digits
  let places := (-x.exponent).toNat
  if places = 0 then digits ++ List.replicate x.exponent.toNat '0'
  else if places < digits.length then
    digits.take (digits.length - places) ++ '.' :: digits.drop (digits.length - places)
  else '0' :: '.' :: List.replicate (places - digits.length) '0' ++ digits

def scientific (x : Scaled) : List Char :=
  let digits := natText x.digits
  let leading := x.exponent + (digits.length - 1 : Nat)
  let fraction := if digits.length = 1 then [] else '.' :: digits.drop 1
  let sign := if leading < 0 then '-' else '+'
  digits.take 1 ++ fraction ++ 'e' :: sign :: natText leading.natAbs

def leadingExponent (x : Scaled) : Int := x.exponent + ((natText x.digits).length - 1 : Nat)

example : positional ⟨15, -1⟩ = "1.5".toList := by decide +kernel
example : positional ⟨25, -5⟩ = "0.00025".toList := by decide +kernel
example : positional ⟨3, 4⟩ = "30000".toList := by decide +kernel
example : scientific ⟨15, -11⟩ = "1.5e-10".toList := by decide +kernel
example : scientific ⟨1, 16⟩ = "1e+16".toList := by decide +kernel

/-- An exponent as its digits say, except that one far beyond any use stops growing. -/
def exponentValue (digits : List Char) : Nat :=
  digits.foldl (fun acc c => if acc < 65536 then 10 * acc + (c.toNat - '0'.toNat) else acc) 0

def exponentPart? : List Char → Option Int
  | [] => some 0
  | mark :: rest =>
      if mark ≠ 'e' ∧ mark ≠ 'E' then none
      else
        let negative := rest.head? = some '-'
        let digits := if rest.head? = some '-' ∨ rest.head? = some '+' then rest.drop 1 else rest
        if digits = [] ∨ digits.any (!·.isDigit) then none
        else some (if negative then -(exponentValue digits : Int) else exponentValue digits)

/-- Digits with at most one point among them and an optional exponent. There must
be a digit on either side of the point. -/
def read? (text : List Char) : Option Scaled :=
  let whole := text.takeWhile Char.isDigit
  let rest := text.dropWhile Char.isDigit
  let (fraction, rest) :=
    if rest.head? = some '.' then
      ((rest.drop 1).takeWhile Char.isDigit, (rest.drop 1).dropWhile Char.isDigit)
    else ([], rest)
  if whole = [] ∧ fraction = [] then none
  else (exponentPart? rest).map fun exponent =>
    ⟨Nat.ofDigitChars 10 (whole ++ fraction) 0, exponent - (fraction.length : Int)⟩

example : read? "12.50e-3".toList = some ⟨1250, -5⟩ := by decide +kernel
example : read? ".5".toList = some ⟨5, -1⟩ := by decide +kernel
example : read? ".".toList = none := by decide +kernel

end Scaled

end Wireform.Decimal
