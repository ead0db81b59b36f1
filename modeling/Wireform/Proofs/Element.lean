import Wireform.Timestamp
/-! Elements whose text reads back.

Truth values, integers and strings all do. An instant of any lawful library does where
it is a whole number of milliseconds outside a leap second, which is all that its text keeps.
-/

set_option autoImplicit false

namespace Wireform

namespace Element

/-- The text of a value is read as this value. -/
def Lossless {α : Type} [Element α] (value : α) : Prop := ofText? (toText value) = some value

theorem lossless_string (text : String) : Lossless text := rfl

theorem lossless_bool (value : Bool) : Lossless value := bool?_boolText value

/-- A signed word is made again from its integer. -/
theorem map_integer?_integerText {α : Type} {ofInt : Int → α} {bits : Nat} {n : Int} {value : α}
    (above : -2 ^ (bits - 1) ≤ n) (below : n < 2 ^ (bits - 1)) (same : ofInt n = value) :
    (integer? bits (integerText n)).map ofInt = some value := by
  rw [integer?_integerText above (Int.le_sub_one_of_lt below), Option.map_some, same]

theorem lossless_int8 (n : Int8) : Lossless n :=
  map_integer?_integerText n.le_toInt n.toInt_lt n.ofInt_toInt

theorem lossless_int16 (n : Int16) : Lossless n :=
  map_integer?_integerText n.le_toInt n.toInt_lt n.ofInt_toInt

theorem lossless_int32 (n : Int32) : Lossless n :=
  map_integer?_integerText n.le_toInt n.toInt_lt n.ofInt_toInt

theorem lossless_int64 (n : Int64) : Lossless n :=
  map_integer?_integerText n.le_toInt n.toInt_lt n.ofInt_toInt

end Element

namespace Instant

variable {α : Type} [Instant α] [LawfulInstant α] {t : α} {n : Int}

/-- An instant that its milliseconds describe in full. -/
structure WholeMillis (t : α) : Prop where
  notLeap : nanos t < 10 ^ 9
  whole : 10 ^ 6 ∣ nanos t

/-- Only a leap second that no second follows has milliseconds past the range. -/
theorem millis_le_last (inside : seconds t < seconds (last : α) ∨ nanos t < 10 ^ 9) :
    millis t ≤ millis (last : α) := by
  have high := LawfulInstant.seconds_le t
  have nanos := LawfulInstant.nanos_lt t
  rw [LawfulInstant.millis_eq, LawfulInstant.millis_eq, LawfulInstant.nanos_last]
  omega

theorem millis_first_le (t : α) : millis (first : α) ≤ millis t := by
  have low := LawfulInstant.seconds_ge t
  rw [LawfulInstant.millis_eq, LawfulInstant.millis_eq, LawfulInstant.nanos_first]
  omega

theorem exists_ofMillis?_millis (inside : seconds t < seconds (last : α) ∨ nanos t < 10 ^ 9) :
    ∃ t' : α, ofMillis? (millis t) = some t' :=
  Option.isSome_iff_exists.mp
    ((LawfulInstant.isSome_ofMillis?_iff _).mpr ⟨millis_first_le t, millis_le_last inside⟩)

theorem ofMillis?_millis (whole : WholeMillis t) : ofMillis? (millis t) = some t := by
  obtain ⟨notLeap, k, same⟩ := whole
  obtain ⟨t', made⟩ := exists_ofMillis?_millis (.inr notLeap)
  obtain ⟨seconds, nanos⟩ := LawfulInstant.parts_of_ofMillis? made
  rw [LawfulInstant.millis_eq] at seconds nanos
  have same : t' = t := LawfulInstant.ext (by omega) (by omega)
  rw [made, same]

theorem WholeMillis.of_ofMillis? (made : ofMillis? n = some t) : WholeMillis t := by
  obtain ⟨_, nanos⟩ := LawfulInstant.parts_of_ofMillis? made
  constructor
  · omega
  · exact ⟨_, nanos.trans (Nat.mul_comm _ _)⟩

/-- The text of an instant is read as its milliseconds, which a word always holds. -/
theorem ofText?_toText (t : α) :
    (Element.ofText? (Element.toText t) : Option α) = ofMillis? (millis t) := by
  have read : Element.integer? 64 (Element.integerText (millis t)) = some (millis t) :=
    Element.integer?_integerText (LawfulInstant.millis_ge t)
      (Int.le_sub_one_of_lt (LawfulInstant.millis_lt t))
  exact congrArg (Option.bind · ofMillis?) read

theorem lossless_iff (t : α) : Element.Lossless t ↔ WholeMillis t := by
  rw [Element.Lossless, ofText?_toText]
  exact ⟨WholeMillis.of_ofMillis?, ofMillis?_millis⟩

end Instant

def Timestamp.WholeMillis (t : Timestamp) : Prop := Instant.WholeMillis t

end Wireform
