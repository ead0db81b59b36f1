import Wireform.ListText.Basic
import Wireform.Proofs.Numeral
/-! The number fields of list text.

A field is a numeral with the separator behind it, and the separator must not
occur earlier in the two together. `number_eq_ok_iff` says that reading accepts
just these fields, whatever text follows them.
-/

set_option autoImplicit false

namespace Wireform.ListText

/-- In a text with the mark behind it, the mark occurs nowhere earlier. -/
def FirstBehind (mark text : List Char) : Prop :=
  ∀ i < text.length, ¬ mark <+: (text ++ mark).drop i

instance (mark text : List Char) : Decidable (FirstBehind mark text) :=
  inferInstanceAs (Decidable (∀ i < text.length, ¬ mark <+: (text ++ mark).drop i))

theorem FirstBehind.not_prefix {mark text : List Char} (first : FirstBehind mark text) (rest : List Char)
    {i : Nat} (before : i < text.length) : ¬ mark <+: (text ++ mark ++ rest).drop i := by
  intro starts
  have tail : (text ++ mark ++ rest).drop i = (text ++ mark).drop i ++ rest :=
    List.drop_append_of_le_length (by rw [List.length_append]; omega)
  rw [tail] at starts
  apply first i before
  apply List.prefix_of_prefix_length_le starts (List.prefix_append _ rest)
  simp only [List.length_drop, List.length_append]
  omega

theorem cut?_eq_some_iff {mark text before behind : List Char} :
    cut? mark text = some (before, behind) ↔
      text = before ++ mark ++ behind ∧ FirstBehind mark before := by
  constructor
  · intro found
    refine ⟨eq_append_of_cut? found, ?_⟩
    induction text generalizing before behind with
    | nil =>
      unfold cut? at found
      split at found
      · cases found
        simp [FirstBehind]
      · cases found
    | cons c rest ih =>
      have whole := eq_append_of_cut? found
      unfold cut? at found
      split at found
      · cases found
        simp [FirstBehind]
      · rename_i elsewhere
        obtain ⟨⟨later, behind'⟩, cut, same⟩ := Option.map_eq_some_iff.mp found
        cases same
        intro i inside
        cases i with
        | zero =>
          -- An occurrence right here would have been cut at.
          intro starts
          apply elsewhere
          rw [List.isPrefixOf_iff_prefix, whole]
          exact List.prefix_append_of_prefix starts
        | succ i => exact ih cut i (Nat.lt_of_succ_lt_succ inside)
  · rintro ⟨rfl, first⟩
    apply cut?_append
    rintro front back rfl nonempty starts
    have inside : front.length < (front ++ back).length := by
      simpa using List.length_pos_iff.mpr nonempty
    apply first.not_prefix behind inside
    simpa using starts

theorem FirstBehind.length_le {mark text other rest tail : List Char} (first : FirstBehind mark text)
    (same : text ++ mark ++ rest = other ++ mark ++ tail) : text.length ≤ other.length := by
  rcases Nat.lt_or_ge other.length text.length with earlier | le
  · refine absurd ?_ (first.not_prefix rest earlier)
    rw [same, List.append_assoc, List.drop_left]
    exact List.prefix_append mark tail
  · exact le

/-- A numeral of 64 bits that, with the separator behind it, is read to its end. -/
structure NumberField (pre digits : List Char) (n : Int) : Prop where
  denotes : Decimal.Denotes digits n
  low : -2 ^ 63 ≤ n
  high : n < 2 ^ 63
  first : FirstBehind pre digits

theorem numberField_iff {pre digits : List Char} {n : Int} :
    NumberField pre digits n ↔ Decimal.int64? digits = some n ∧ FirstBehind pre digits := by
  rw [Decimal.int64?_eq_some_iff]
  constructor
  · rintro ⟨denotes, low, high, first⟩
    exact ⟨⟨denotes, low, high⟩, first⟩
  · rintro ⟨⟨denotes, low, high⟩, first⟩
    exact ⟨denotes, low, high, first⟩

instance (pre digits : List Char) (n : Int) : Decidable (NumberField pre digits n) :=
  decidable_of_iff _ numberField_iff.symm

theorem NumberField.unique {pre digits digits' rest rest' : List Char} {n n' : Int}
    (field : NumberField pre digits n) (field' : NumberField pre digits' n')
    (same : digits ++ pre ++ rest = digits' ++ pre ++ rest') :
    digits = digits' ∧ n = n' ∧ rest = rest' := by
  have cut : cut? pre (digits ++ pre ++ rest) = some (digits, rest) :=
    cut?_eq_some_iff.mpr ⟨rfl, field.first⟩
  rw [same, cut?_eq_some_iff.mpr ⟨rfl, field'.first⟩] at cut
  obtain ⟨rfl, rfl⟩ := Prod.mk.inj (Option.some.inj cut)
  exact ⟨rfl, field.denotes.unique field'.denotes, rfl⟩

theorem number_eq_ok_iff {pre : List Char} {notInteger : TextFault} {place next : Place} {n : Int} :
    number pre notInteger place = .ok (n, next) ↔
      ∃ digits rest, NumberField pre digits n ∧ place.rest = digits ++ pre ++ rest ∧
        next = place.after (digits ++ pre) rest := by
  constructor
  · intro read
    unfold number at read
    split at read
    · cases read
    · rename_i digits rest cut
      obtain ⟨whole, first⟩ := cut?_eq_some_iff.mp cut
      split at read
      · cases read
      · rename_i value numeral
        cases read
        exact ⟨digits, rest, numberField_iff.mpr ⟨numeral, first⟩, whole, rfl⟩
  · rintro ⟨digits, rest, field, whole, rfl⟩
    obtain ⟨numeral, first⟩ := numberField_iff.mp field
    simp only [number, cut?_eq_some_iff.mpr ⟨whole, first⟩, numeral]

end Wireform.ListText
