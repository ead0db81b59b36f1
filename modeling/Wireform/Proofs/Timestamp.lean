import Wireform.Proofs.ListFrame
/-! Instants read back to the millisecond.

The text of an instant keeps its milliseconds, and a leap second has those of the second
after it. No second comes after the last one of the range, so the leap second at its end is
written but not read. All of this follows from what is relied on of a library of instants.
-/

set_option autoImplicit false

namespace Wireform

namespace Instant

variable {α : Type} [Instant α] [LawfulInstant α] {t t' : α}

/-- The leap second at the end of the range. -/
def FinalLeap (t : α) : Prop := seconds t = seconds (last : α) ∧ 10 ^ 9 ≤ nanos t

theorem inside_of_not_finalLeap (inside : ¬ FinalLeap t) :
    seconds t < seconds (last : α) ∨ nanos t < 10 ^ 9 := by
  have high := LawfulInstant.seconds_le t
  rw [FinalLeap] at inside
  omega

theorem ofMillis?_millis_eq_none (last : FinalLeap t) :
    (ofMillis? (millis t) : Option α) = none := by
  obtain ⟨late, leap⟩ := last
  rw [← Option.not_isSome_iff_eq_none, LawfulInstant.isSome_ofMillis?_iff]
  rintro ⟨_, within⟩
  rw [LawfulInstant.millis_eq, LawfulInstant.millis_eq, LawfulInstant.nanos_last] at within
  omega

theorem parts_of_ofMillis?_millis (made : ofMillis? (millis t) = some t') :
    (nanos t < 10 ^ 9 → seconds t' = seconds t ∧ nanos t' = nanos t / 10 ^ 6 * 10 ^ 6) ∧
    (10 ^ 9 ≤ nanos t →
      seconds t' = seconds t + 1 ∧ nanos t' = (nanos t - 10 ^ 9) / 10 ^ 6 * 10 ^ 6) := by
  have early := LawfulInstant.nanos_lt t
  obtain ⟨second, part⟩ := LawfulInstant.parts_of_ofMillis? made
  rw [LawfulInstant.millis_eq] at second part
  omega

/-- An instant is read back with its milliseconds and as the same text: as the start of its
millisecond, or for a leap second as a part of the next second. -/
theorem ofText?_toText_of_inside (inside : ¬ FinalLeap t) :
    ∃ t' : α, Element.ofText? (Element.toText t) = some t' ∧
      millis t' = millis t ∧ Element.toText t' = Element.toText t ∧
      (nanos t < 10 ^ 9 → seconds t' = seconds t ∧ nanos t' = nanos t / 10 ^ 6 * 10 ^ 6) ∧
      (10 ^ 9 ≤ nanos t →
        seconds t' = seconds t + 1 ∧ nanos t' = (nanos t - 10 ^ 9) / 10 ^ 6 * 10 ^ 6) := by
  obtain ⟨t', made⟩ := exists_ofMillis?_millis (inside_of_not_finalLeap inside)
  have same := millis_of_ofMillis? made
  exact ⟨t', (ofText?_toText t).trans made, same, congrArg Element.integerText same,
    parts_of_ofMillis?_millis made⟩

theorem ofText?_toText_eq_none (last : FinalLeap t) :
    (Element.ofText? (Element.toText t) : Option α) = none :=
  (ofText?_toText t).trans (ofMillis?_millis_eq_none last)

theorem map_millis_made {list : List (Option α)} (inside : ∀ t, some t ∈ list → ¬ FinalLeap t) :
    (list.map (·.bind fun t => (Element.ofText? (Element.toText t) : Option α))).map
      (·.map millis) = list.map (·.map millis) := by
  rw [List.map_map]
  refine List.map_congr_left fun element member => ?_
  cases element with
  | none => rfl
  | some t =>
    obtain ⟨t', read, same, _⟩ := ofText?_toText_of_inside (inside t member)
    simp [read, same]

variable {separator : Char} {list : List (Option α)} {frame : Bytes}

theorem decodeTyped_of_inside (clear : separator.isDigit = false ∧ separator ≠ '-')
    (encoded : ListFrame.encodeTyped list separator = .ok frame)
    (inside : ∀ t, some t ∈ list → ¬ FinalLeap t) : ∃ list' : List (Option α),
      Decoder.Reads (ListFrame.decodeTyped separator) frame list' ∧
      list'.map (·.map millis) = list.map (·.map millis) := by
  obtain ⟨count, bytes⟩ := ListFrame.within_unbounded encoded
  rw [List.length_map] at count
  refine ⟨_, ListFrame.decodeTypedWithin_reads_made (ListFrame.clear_iff.mpr clear)
    (fun t member => ?_) encoded count bytes, map_millis_made inside⟩
  obtain ⟨t', read, _⟩ := ofText?_toText_of_inside (inside t member)
  exact Option.isSome_iff_exists.mpr ⟨t', read⟩

theorem decodeTyped_of_finalLeap (clear : separator.isDigit = false ∧ separator ≠ '-')
    (encoded : ListFrame.encodeTyped list separator = .ok frame) (member : some t ∈ list)
    (last : FinalLeap t) {cursor : Cursor} {rest : Bytes} (ahead : cursor.unread = frame ++ rest) :
    ∃ offset fits, (ListFrame.decodeTyped separator : Decoder (List (Option α))) cursor =
      (.error (.malformedText offset .elementUnreadable), cursor.skip frame.length fits) := by
  obtain ⟨count, bytes⟩ := ListFrame.within_unbounded encoded
  rw [List.length_map] at count
  exact ListFrame.decodeTypedWithin_of_refused (ListFrame.clear_iff.mpr clear) member
    (ofText?_toText_eq_none last) encoded count bytes ahead

end Instant

namespace Timestamp

def FinalLeap (t : Timestamp) : Prop := t.seconds = 8210266876799 ∧ 10 ^ 9 ≤ t.nanos

instance (t : Timestamp) : Decidable t.FinalLeap := inferInstanceAs (Decidable (_ ∧ _))

theorem finalLeap_iff {t : Timestamp} : t.FinalLeap ↔ Instant.FinalLeap t := Iff.rfl

def floor (t : Timestamp) : Timestamp where
  seconds := t.seconds
  nanos := t.nanos / 10 ^ 6 * 10 ^ 6
  seconds_ge := t.seconds_ge
  seconds_le := t.seconds_le
  nanos_lt := Nat.lt_of_le_of_lt (Nat.div_mul_le_self _ _) t.nanos_lt
  leap := fun late => t.leap (Nat.le_trans late (Nat.div_mul_le_self _ _))

/-- An instant is read back to the millisecond, and so is a list of instants, unless it is or has
the leap second at the end of the range; that is written, but what was written is refused. A leap
second is read as a part of the next second. -/
theorem read_unless_finalLeap (t : Timestamp) (list : List (Option Timestamp)) (separator : Char) :
    (¬ t.FinalLeap → ∃ t' : Timestamp, Element.ofText? (Element.toText t) = some t' ∧
      t'.millis = t.millis ∧ Element.toText t' = Element.toText t ∧
      (t.nanos < 10 ^ 9 → t' = t.floor) ∧
      (10 ^ 9 ≤ t.nanos →
        t'.seconds = t.seconds + 1 ∧ t'.nanos = (t.nanos - 10 ^ 9) / 10 ^ 6 * 10 ^ 6)) ∧
    (t.FinalLeap → (Element.ofText? (Element.toText t) : Option Timestamp) = none) ∧
    ∀ frame : Bytes, separator.isDigit = false → separator ≠ '-' →
      ListFrame.encodeTyped list separator = .ok frame →
      ((∀ u, some u ∈ list → ¬ u.FinalLeap) → ∃ list' : List (Option Timestamp),
        Decoder.Reads (ListFrame.decodeTyped separator) frame list' ∧
        list'.map (·.map millis) = list.map (·.map millis)) ∧
      ((∃ u, some u ∈ list ∧ u.FinalLeap) →
        ∀ (cursor : Cursor) (rest : Bytes), cursor.unread = frame ++ rest → ∃ offset fits,
          (ListFrame.decodeTyped separator : Decoder (List (Option Timestamp))) cursor =
            (.error (.malformedText offset .elementUnreadable), cursor.skip frame.length fits)) := by
  simp only [finalLeap_iff]
  refine ⟨fun inside => ?_, Instant.ofText?_toText_eq_none,
    fun frame noDigit noMinus encoded => ⟨?_, ?_⟩⟩
  · obtain ⟨t', read, same, text, ordinary, leap⟩ := Instant.ofText?_toText_of_inside inside
    exact ⟨t', read, same, text,
      fun early => LawfulInstant.ext (ordinary early).1 (ordinary early).2, leap⟩
  · exact Instant.decodeTyped_of_inside ⟨noDigit, noMinus⟩ encoded
  · rintro ⟨u, member, last⟩ cursor rest ahead
    exact Instant.decodeTyped_of_finalLeap ⟨noDigit, noMinus⟩ encoded member last ahead

theorem read_unless_finalLeap_three : ∃ early june last : Timestamp,
    ofParts? (-1) 999999999 = some early ∧ ofParts? 78796799 1500000000 = some june ∧
    ofParts? 8210266876799 1500000000 = some last ∧
    (∃ t' : Timestamp, Element.ofText? (Element.toText june) = some t' ∧ t'.seconds = 78796800) ∧
    (∃ frame, ListFrame.encodeTyped [some early, none, some june] ',' = .ok frame ∧
      ∃ list' : List (Option Timestamp), Decoder.Reads (ListFrame.decodeTyped ',') frame list' ∧
        list'.map (·.map millis) = [some (-1), none, some 78796800500]) ∧
    (Element.ofText? (Element.toText last) : Option Timestamp) = none ∧
    ∃ frame, ListFrame.encodeTyped [some last] ',' = .ok frame ∧ ∃ offset fits,
      (ListFrame.decodeTyped ',' : Decoder (List (Option Timestamp))) (Cursor.ofBytes frame) =
        (.error (.malformedText offset .elementUnreadable),
          (Cursor.ofBytes frame).skip frame.length fits) := by
  obtain ⟨june, _, lists⟩ := read_unless_finalLeap
    ⟨78796799, 1500000000, by decide, by decide, by decide, by decide⟩
    [some ⟨-1, 999999999, by decide, by decide, by decide, by decide⟩, none,
      some ⟨78796799, 1500000000, by decide, by decide, by decide, by decide⟩] ','
  obtain ⟨_, last, single⟩ := read_unless_finalLeap
    ⟨8210266876799, 1500000000, by decide, by decide, by decide, by decide⟩
    [some ⟨8210266876799, 1500000000, by decide, by decide, by decide, by decide⟩] ','
  refine ⟨_, _, _, rfl, rfl, rfl, ?_,
    ⟨_, rfl, (lists _ (by decide) (by decide) rfl).1 fun u member => ?_⟩, last (by decide), _, rfl,
    (single _ (by decide) (by decide) rfl).2 ⟨_, List.mem_singleton_self _, by decide⟩
      (Cursor.ofBytes _) [] (List.append_nil _).symm⟩
  · obtain ⟨t', read, _, _, _, leap⟩ := june (by decide)
    exact ⟨t', read, (leap (by decide)).1⟩
  · simp only [List.mem_cons, Option.some.injEq, reduceCtorEq, List.not_mem_nil, or_false,
      false_or] at member
    rcases member with rfl | rfl <;> decide

/-- Half a second into the final leap second is a millisecond past the range. Its text is written, at the
offset two of a list, and refused there. -/
theorem last_half_second_unread : ∃ t frame, ofParts? 8210266876799 1500000000 = some t ∧
    Element.toText t = "8210266876800500" ∧
    (Element.ofText? "8210266876800500" : Option Timestamp) = none ∧
    ListFrame.encodeTyped [some t] ',' = .ok frame ∧
    (ListFrame.decodeTyped ',' : Decoder (List (Option Timestamp))).outcome (Cursor.ofBytes frame) =
      .error (.malformedText 2 .elementUnreadable) :=
  ⟨_, _, rfl, rfl, rfl, rfl, rfl⟩

end Timestamp

end Wireform
