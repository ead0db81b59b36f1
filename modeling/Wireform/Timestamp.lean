import Wireform.Element
/-! Instants of UTC, as list elements in whole milliseconds since 1970.

The instants are those of a library. `Instant` has the operations that list elements use and
`LawfulInstant` what is relied on of them; `Timestamp` is an instance, with a range of its own.
A leap second is the end of the second before it: its nanoseconds run on past 10^9.
-/

set_option autoImplicit false

namespace Wireform

class Instant (α : Type) where
  seconds : α → Int
  nanos : α → Nat
  millis : α → Int
  ofMillis? : Int → Option α
  first : α
  last : α

instance (priority := low) {α : Type} [Instant α] : Element α :=
  ⟨fun t => Element.integerText (Instant.millis t),
    fun text => (Element.integer? 64 text).bind Instant.ofMillis?⟩

section laws

open Instant

class LawfulInstant (α : Type) [Instant α] : Prop where
  ext {t u : α} : seconds t = seconds u → nanos t = nanos u → t = u
  seconds_ge (t : α) : seconds (first : α) ≤ seconds t
  seconds_le (t : α) : seconds t ≤ seconds (last : α)
  nanos_lt (t : α) : nanos t < 2 * 10 ^ 9
  nanos_first : nanos (first : α) = 0
  nanos_last : nanos (last : α) = 10 ^ 9 - 1
  /-- Milliseconds are rounded down. -/
  millis_eq (t : α) : millis t = 1000 * seconds t + (nanos t / 10 ^ 6 : Nat)
  millis_ge (t : α) : -2 ^ 63 ≤ millis t
  millis_lt (t : α) : millis t < 2 ^ 63
  /-- Just the milliseconds between the two ends are those of an instant. -/
  isSome_ofMillis?_iff (n : Int) : (ofMillis? n : Option α).isSome = true ↔
    millis (first : α) ≤ n ∧ n ≤ millis (last : α)
  /-- It starts its millisecond, and never in a leap second. -/
  parts_of_ofMillis? {n : Int} {t : α} : ofMillis? n = some t →
    seconds t = n / 1000 ∧ nanos t = (n % 1000).toNat * 10 ^ 6

theorem Instant.millis_of_ofMillis? {α : Type} [Instant α] [LawfulInstant α] {n : Int} {t : α}
    (made : ofMillis? n = some t) : millis t = n := by
  obtain ⟨seconds, nanos⟩ := LawfulInstant.parts_of_ofMillis? made
  rw [LawfulInstant.millis_eq, seconds, nanos]
  omega

end laws

structure Timestamp where
  seconds : Int
  nanos : Nat
  seconds_ge : -8334601228800 ≤ seconds
  seconds_le : seconds ≤ 8210266876799
  nanos_lt : nanos < 2 * 10 ^ 9
  /-- Only the last second of a minute may be followed by a leap second. -/
  leap : 10 ^ 9 ≤ nanos → seconds % 60 = 59
  deriving DecidableEq, Repr

namespace Timestamp

def ofParts? (seconds : Int) (nanos : Nat) : Option Timestamp :=
  if valid : -8334601228800 ≤ seconds ∧ seconds ≤ 8210266876799 ∧ nanos < 2 * 10 ^ 9 ∧
      (10 ^ 9 ≤ nanos → seconds % 60 = 59) then
    some ⟨seconds, nanos, valid.1, valid.2.1, valid.2.2.1, valid.2.2.2⟩
  else none

/-- Whole milliseconds since 1970, rounded down. -/
def millis (t : Timestamp) : Int := 1000 * t.seconds + (t.nanos / 10 ^ 6 : Nat)

def ofMillis? (millis : Int) : Option Timestamp :=
  ofParts? (millis / 1000) ((millis % 1000).toNat * 10 ^ 6)

instance : Instant Timestamp where
  seconds := seconds
  nanos := nanos
  millis := millis
  ofMillis? := ofMillis?
  first := ⟨-8334601228800, 0, by decide, by decide, by decide, by decide⟩
  last := ⟨8210266876799, 999999999, by decide, by decide, by decide, by decide⟩

theorem isSome_ofMillis?_iff (n : Int) : (ofMillis? n).isSome = true ↔
    -8334601228800000 ≤ n ∧ n ≤ 8210266876799999 := by
  unfold ofMillis? ofParts?
  split
  · simp only [Option.isSome_some, true_iff]
    omega
  · simp only [Option.isSome_none, Bool.false_eq_true, false_iff]
    omega

instance : LawfulInstant Timestamp where
  ext {t u} seconds nanos := by
    cases t
    cases u
    cases seconds
    cases nanos
    rfl
  seconds_ge := seconds_ge
  seconds_le := seconds_le
  nanos_lt := nanos_lt
  nanos_first := rfl
  nanos_last := rfl
  millis_eq _ := rfl
  millis_ge t := by
    have low := t.seconds_ge
    show -2 ^ 63 ≤ t.millis
    simp only [millis]
    omega
  millis_lt t := by
    have high := t.seconds_le
    have nanos := t.nanos_lt
    show t.millis < 2 ^ 63
    simp only [millis]
    omega
  isSome_ofMillis?_iff := isSome_ofMillis?_iff
  parts_of_ofMillis? {n t} made := by
    change ofMillis? n = some t at made
    unfold ofMillis? ofParts? at made
    split at made
    · cases made
      exact ⟨rfl, rfl⟩
    · cases made

end Timestamp

end Wireform
