import Wireform.Proofs.ListText.Grammar
/-! What a limit on the number of elements changes.

The limit is held against the count field before any element is looked at. So it
matters just to the texts that start with a count beyond it; every other fault is
about the form of the text and is the same under any limit.
-/

set_option autoImplicit false

namespace Wireform

/-- A fault in the form of a text. -/
def Fault.IsMalformedText : Fault → Prop
  | .malformedText .. => True
  | _ => False

namespace ListText

variable {pre post text : List Char}

/-- A text starts with a number field for `n`. -/
def Counts (pre text : List Char) (n : Int) : Prop :=
  ∃ digits rest, NumberField pre digits n ∧ text = digits ++ pre ++ rest

theorem counts_iff {n : Int} {notInteger : TextFault} {offset : Nat} :
    Counts pre text n ↔ ∃ next, number pre notInteger ⟨offset, text⟩ = .ok (n, next) := by
  simp only [Counts, number_eq_ok_iff]
  constructor
  · rintro ⟨digits, rest, field, whole⟩
    exact ⟨_, digits, rest, field, whole, rfl⟩
  · rintro ⟨_, digits, rest, field, whole, _⟩
    exact ⟨digits, rest, field, whole⟩

theorem Counts.separator_nonempty {n : Int} (counts : Counts pre text n) : pre ≠ [] := by
  obtain ⟨_, _, field, _⟩ := counts
  exact field.separator_nonempty

theorem Spelling.counts {spelling : Spelling} (wellFormed : spelling.WellFormed pre)
    (post : List Char) : Counts pre (spelling.text pre post) spelling.pieces.length :=
  ⟨_, _, wellFormed.count, rfl⟩

section faults

variable {place : Place}

theorem only_malformed {α : Type} (offset : Nat) (fault : TextFault) :
    Fault.Only Fault.IsMalformedText (.error (.malformedText offset fault) : Except Fault α) :=
  Fault.only_error trivial

theorem number_only (notInteger : TextFault) :
    Fault.Only Fault.IsMalformedText (number pre notInteger place) := by
  unfold number
  split
  · exact only_malformed _ _
  split
  · exact only_malformed _ _
  · exact Fault.only_ok _

theorem terminator_only : Fault.Only Fault.IsMalformedText (terminator post place) := by
  unfold terminator
  split
  · exact Fault.only_ok _
  · exact only_malformed _ _

theorem content_only (field : Nat) (length : Int) :
    Fault.Only Fault.IsMalformedText (content field length place) := by
  unfold content
  split
  · exact Fault.only_ok _
  split
  · exact only_malformed _ _
  dsimp only
  split
  · exact only_malformed _ _
  · exact Fault.only_ok _

theorem element_only : Fault.Only Fault.IsMalformedText (element pre post place) :=
  (number_only _).bind fun _ _ => (content_only _ _).bind fun _ _ =>
    terminator_only.bind fun _ _ => Fault.only_ok _

theorem elements_only (count : Nat) :
    Fault.Only Fault.IsMalformedText (elements pre post count place) := by
  induction count generalizing place with
  | zero => exact Fault.only_ok _
  | succ count ih => exact element_only.bind fun _ _ => ih.bind fun _ _ => Fault.only_ok _

theorem interpret_only {α : Type} [Element α] (item : Option Located) :
    Fault.Only Fault.IsMalformedText (interpret item : Except Fault (Option α)) := by
  unfold interpret
  split
  · exact Fault.only_ok _
  split
  · exact Fault.only_ok _
  · exact only_malformed _ _

end faults

/-- Reading on behind the count field. -/
theorem readLocated_of_number {limit : Nat} {count : Int} {first : Place}
    (counted : number pre .countNotInteger ⟨0, text⟩ = .ok (count, first)) :
    readLocated limit pre post text =
      if count < 0 then .error (.malformedText 0 .negativeCount)
      else if limit < count.toNat then .error (.listTooLong count.toNat limit)
      else elements pre post count.toNat first >>= fun (items, last) =>
        if last.rest.isEmpty then .ok items
        else .error (.malformedText last.offset .trailingText) := by
  have nonempty := (counts_iff.mpr ⟨_, counted⟩).separator_nonempty
  rw [readLocated, if_neg (by simpa using nonempty), counted]
  rfl

theorem readLocated_of_exceeding {limit declared : Nat} (counts : Counts pre text declared)
    (exceeding : limit < declared) :
    readLocated limit pre post text = .error (.listTooLong declared limit) := by
  obtain ⟨first, counted⟩ := counts_iff.mp counts
  rw [readLocated_of_number counted, if_neg (by omega), Int.toNat_natCast, if_pos exceeding]

theorem readLocated_of_within {small large : Nat} (le : small ≤ large)
    (within : ∀ declared : Nat, Counts pre text declared → declared ≤ small) :
    readLocated small pre post text = readLocated large pre post text := by
  cases counted : number pre .countNotInteger ⟨0, text⟩ with
  | error fault =>
    rw [readLocated, readLocated, counted]
    rfl
  | ok result =>
    obtain ⟨count, first⟩ := result
    rw [readLocated_of_number counted, readLocated_of_number counted]
    by_cases negative : count < 0
    · rw [if_pos negative, if_pos negative]
    · obtain ⟨declared, rfl⟩ := Int.eq_ofNat_of_zero_le (Int.not_lt.mp negative)
      have below := within declared (counts_iff.mpr ⟨first, counted⟩)
      rw [Int.toNat_natCast, if_neg (Nat.not_lt.mpr below),
        if_neg (Nat.not_lt.mpr (Nat.le_trans below le))]

/-- A text that cannot be read is malformed or declares too many elements. -/
theorem readLocated_only {limit : Nat} (nonempty : pre ≠ []) :
    Fault.Only (fun fault => fault.IsMalformedText ∨ ∃ declared : Nat,
      Counts pre text declared ∧ limit < declared ∧ fault = .listTooLong declared limit)
      (readLocated limit pre post text) := by
  cases counted : number pre .countNotInteger ⟨0, text⟩ with
  | error fault =>
    rw [readLocated, if_neg (by simpa using nonempty), counted]
    exact Fault.only_error (.inl (number_only _ fault counted))
  | ok result =>
    obtain ⟨count, first⟩ := result
    rw [readLocated_of_number counted]
    split
    · exact Fault.only_error (.inl trivial)
    rename_i nonnegative
    obtain ⟨declared, rfl⟩ := Int.eq_ofNat_of_zero_le (Int.not_lt.mp nonnegative)
    rw [Int.toNat_natCast]
    split
    · rename_i exceeding
      exact Fault.only_error (.inr ⟨declared, counts_iff.mpr ⟨first, counted⟩, exceeding, rfl⟩)
    refine Fault.Only.mono (.bind (elements_only declared) ?_) fun _ => Or.inl
    rintro ⟨items, last⟩ _
    dsimp only
    split
    · exact Fault.only_ok _
    · exact only_malformed _ _

end ListText

end Wireform
