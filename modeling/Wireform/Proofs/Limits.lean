import Wireform.Proofs.Layout
/-! Limits cut off and never alter.

A limit on frames refuses just the lengths beyond it, a limit on lists just the counts
beyond it, and any other field is read the same under larger limits. So a configured
codec and the free decoders differ in these two faults alone.
-/

set_option autoImplicit false

namespace Wireform

/-- A length ahead is beyond the limit, whether or not its payload is there. -/
structure Frame.TooLarge (limits : Limits) (start : Cursor) (declared : Nat) : Prop where
  declares : Declares start declared
  exceeding : limits.frame < declared

namespace Content

variable {R : Type} {content : Content R} {limits small large : Limits} {start : Cursor}
  {payload : Bytes} {declared : Nat}

/-- A whole list frame ahead has a count beyond the limit, whatever its elements are. -/
structure TooLong (content : Content R) (limits : Limits) (start : Cursor) (payload : Bytes)
    (declared : Nat) : Prop where
  holds : Frame.Holds start payload
  within : payload.length ≤ limits.frame
  counts : ∃ separator, content.separator? = some separator ∧
    ListFrame.Counts separator payload declared
  exceeding : limits.list < declared

theorem decodeWithin_of_tooLarge (content : Content R) (tooLarge : Frame.TooLarge limits start declared) :
    ∃ fits, content.decodeWithin limits start =
      (.error (.frameTooLarge declared limits.frame), start.skip 4 fits) := by
  rw [content.decodeWithin_eq]
  exact Frame.decodeAs_of_exceeding tooLarge.declares tooLarge.exceeding

theorem decodeWithin_of_tooLong (tooLong : content.TooLong limits start payload declared) :
    ∃ fits, content.decodeWithin limits start =
      (.error (.listTooLong declared limits.list), start.skip (4 + payload.length) fits) := by
  obtain ⟨separator, isList, counts⟩ := tooLong.counts
  rw [← present_of_exceeding isList counts tooLong.exceeding]
  exact content.decodeWithin_of_holds limits tooLong.holds tooLong.within

theorem stops_of_outcome {fault : Fault}
    (failed : (content.decodeWithin limits).outcome start = .error fault) :
    ∃ passed, (Layout.framed content limits).Stops start fault passed := by
  obtain ⟨passed, _, stops, _⟩ := Layout.stops_framed (Prod.ext failed rfl)
  exact ⟨passed, stops⟩

theorem frameTooLarge_iff {max : Nat} :
    (content.decodeWithin limits).outcome start = .error (.frameTooLarge declared max) ↔
      max = limits.frame ∧ Frame.TooLarge limits start declared := by
  constructor
  · intro failed
    obtain ⟨passed, stops⟩ := stops_of_outcome failed
    cases stops with
    | exceeding declares exceeding => exact ⟨rfl, declares, exceeding⟩
    | payload _ _ refusal => cases refusal
  · rintro ⟨rfl, tooLarge⟩
    obtain ⟨_, run⟩ := decodeWithin_of_tooLarge content tooLarge
    exact congrArg Prod.fst run

theorem listTooLong_iff {max : Nat} :
    (content.decodeWithin limits).outcome start = .error (.listTooLong declared max) ↔
      max = limits.list ∧ ∃ payload, content.TooLong limits start payload declared := by
  constructor
  · intro failed
    obtain ⟨passed, stops⟩ := stops_of_outcome failed
    cases stops with
    | payload holds within refusal =>
      cases refusal with
      | tooLong isList counts exceeding =>
        exact ⟨rfl, _, holds, within, ⟨_, isList, counts⟩, exceeding⟩
  · rintro ⟨rfl, payload, tooLong⟩
    obtain ⟨_, run⟩ := decodeWithin_of_tooLong tooLong
    exact congrArg Prod.fst run

theorem decodeWithin_of_within (le : small ≤ large)
    (frames : ∀ declared, ¬ Frame.TooLarge small start declared)
    (lists : ∀ payload declared, ¬ content.TooLong small start payload declared) :
    content.decodeWithin small start = content.decodeWithin large start := by
  have reaches {n : Nat} (declares : Frame.Declares start n) : n ≤ small.frame :=
    Nat.not_lt.mp fun exceeding => frames n ⟨declares, exceeding⟩
  rw [content.decodeWithin_eq, content.decodeWithin_eq]
  cases Frame.front start with
  | cut short => rw [Frame.decodeAs_of_cut short, Frame.decodeAs_of_cut short]
  | negative length below ahead =>
    obtain ⟨_, run⟩ := Frame.decodeAs_of_negative below ahead
    obtain ⟨_, run'⟩ := Frame.decodeAs_of_negative below ahead
    exact run.trans run'.symm
  | missing n declares short =>
    have within := reaches declares
    obtain ⟨_, run⟩ := Frame.decodeAs_of_missing declares within short
    obtain ⟨_, run'⟩ := Frame.decodeAs_of_missing declares (Nat.le_trans within le.1) short
    exact run.trans run'.symm
  | whole payload holds =>
    have within := reaches holds.declares
    have same : content.present small.list payload = content.present large.list payload :=
      present_of_within le.2 fun separator declared isList counts =>
        Nat.not_lt.mp fun exceeding =>
          lists payload declared ⟨holds, within, ⟨separator, isList, counts⟩, exceeding⟩
    obtain ⟨_, run⟩ := Frame.decodeAs_of_holds holds within
    obtain ⟨_, run'⟩ := Frame.decodeAs_of_holds holds (Nat.le_trans within le.1)
    rw [run, run', same]

theorem not_tooLarge_unbounded : ¬ Frame.TooLarge .unbounded start declared := by
  rintro ⟨declares, exceeding⟩
  have below := declares.lt
  simp only [Limits.unbounded] at exceeding
  omega

theorem not_tooLong_unbounded : ¬ content.TooLong .unbounded start payload declared := by
  rintro ⟨_, _, ⟨_, _, _, _, _, _, field, _⟩, exceeding⟩
  have below := field.high
  simp only [Limits.unbounded] at exceeding
  omega

/-- Of two runs under limits, the one under the smaller limits refuses the lengths and the
counts beyond its own and agrees with the other in everything else. Without a codec the
limits are so large that they refuse nothing. -/
theorem limits_only_cut_off (content : Content R) (small large : Limits) (le : small ≤ large)
    (start : Cursor) :
    (∀ declared max,
      (content.decodeWithin small).outcome start = .error (.frameTooLarge declared max) ↔
        max = small.frame ∧ Frame.TooLarge small start declared) ∧
    (∀ declared, Frame.TooLarge small start declared →
      ((content.decodeWithin small).final start).position = start.position + 4) ∧
    (∀ declared max,
      (content.decodeWithin small).outcome start = .error (.listTooLong declared max) ↔
        max = small.list ∧ ∃ payload, content.TooLong small start payload declared) ∧
    (∀ payload declared, content.TooLong small start payload declared →
      ((content.decodeWithin small).final start).position =
        start.position + 4 + payload.length) ∧
    ((∀ declared, ¬ Frame.TooLarge small start declared) →
      (∀ payload declared, ¬ content.TooLong small start payload declared) →
        content.decodeWithin small start = content.decodeWithin large start) ∧
    (∀ {W : Type} (kind : Field W R) (limits : Limits), kind.layout = .framed content limits →
      kind.decode = content.decodeWithin limits) ∧
    ∀ payload declared, ¬ Frame.TooLarge .unbounded start declared ∧
      ¬ content.TooLong .unbounded start payload declared := by
  refine ⟨fun _ _ => frameTooLarge_iff, fun declared tooLarge => ?_, fun _ _ => listTooLong_iff,
    fun payload declared tooLong => ?_, decodeWithin_of_within le,
    fun kind limits => Field.decode_of_framed,
    fun _ _ => ⟨not_tooLarge_unbounded, not_tooLong_unbounded⟩⟩
  · obtain ⟨_, run⟩ := decodeWithin_of_tooLarge content tooLarge
    rw [Decoder.final, run, Cursor.skip_position]
  · obtain ⟨_, run⟩ := decodeWithin_of_tooLong tooLong
    rw [Decoder.final, run, Cursor.skip_position, Nat.add_assoc]

theorem limits_cut_off_count :
    ((list '|').decodeWithin ⟨16, 2⟩).outcome (Cursor.ofBytes [0, 0, 0, 3, 51, 124, 120]) =
        .error (.listTooLong 3 2) ∧
      (((list '|').decodeWithin ⟨16, 2⟩).final
        (Cursor.ofBytes [0, 0, 0, 3, 51, 124, 120])).position = 7 := by
  have tooLong : (list '|').TooLong ⟨16, 2⟩ (Cursor.ofBytes [0, 0, 0, 3, 51, 124, 120])
      [51, 124, 120] 3 :=
    { holds := ⟨3, by decide, by decide⟩
      within := by decide
      counts := ⟨'|', rfl, "3|x", Utf8.decode?_eq_some_iff.mpr rfl, ['3'], ['x'], by decide +kernel, rfl⟩
      exceeding := by decide }
  obtain ⟨_, _, lists, behind, _⟩ := limits_only_cut_off (.list '|') ⟨16, 2⟩ .unbounded
    ⟨by decide, by decide⟩ (Cursor.ofBytes [0, 0, 0, 3, 51, 124, 120])
  exact ⟨(lists 3 2).mpr ⟨rfl, _, tooLong⟩, behind _ _ tooLong⟩

end Content

end Wireform
