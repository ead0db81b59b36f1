import Wireform.Proofs.Layout
/-! Where a field that cannot be read leaves the cursor.

The cursor stands before the field if its leading bytes are cut off, behind its
leading part if nothing of a payload was taken, and behind the whole frame if the
payload is at fault. Reading goes on from there as if so many bytes were skipped.
-/

set_option autoImplicit false

namespace Wireform

/-- The other faults are those of writing, of arguments and of configurations. -/
def Fault.OfReading : Fault → Prop
  | .lengthOverflow _ | .unlistedVariant | .invalidArgument _ | .invalidConfig _ => False
  | _ => True

namespace Layout

variable {R : Type} {layout : Layout R} {start : Cursor} {fault fault' : Fault} {passed passed' : Nat}

theorem Stops.passed_of_short (stops : layout.Stops start fault passed)
    (short : start.remaining < layout.width) : passed = 0 := by
  have enough {α : Type} [FixedWidth α] {value : α} {n : Nat} (width : n = FixedWidth.width α)
      (ahead : FixedWidth.encode value <+: start.unread) : ¬ start.remaining < n := by
    have le := ahead.length_le
    rw [FixedWidth.length_encode, start.length_unread] at le
    exact Nat.not_lt.mpr (width ▸ le)
  -- At every other stop the leading bytes are ahead.
  cases stops with
  | leading _ => rfl
  | flag whole => exact absurd short (enough rfl ⟨[], by rw [whole, List.append_nil]⟩)
  | ordinal ahead _ | negative ahead _ => exact absurd short (enough rfl ahead)
  | exceeding declares _ | missing declares _ _ => exact absurd short (Nat.not_lt.mpr declares.four_le)
  | payload holds _ _ => exact absurd short (Nat.not_lt.mpr holds.declares.four_le)

theorem Stops.framed_cases {content : Content R} {limits : Limits}
    (stops : (framed content limits).Stops start fault passed) (reached : 4 ≤ start.remaining) :
    (passed = 4 ∧ ∀ payload, Frame.Holds start payload → limits.frame < payload.length) ∨
      ∃ payload, Frame.Holds start payload ∧ payload.length ≤ limits.frame ∧
        passed = 4 + payload.length := by
  cases stops with
  | leading short => exact absurd reached (Nat.not_le.mpr short)
  | negative ahead below =>
    refine .inl ⟨rfl, fun payload ⟨length, size, ahead'⟩ => ?_⟩
    have same := FixedWidth.eq_of_ahead ahead ((List.prefix_append _ payload).trans ahead')
    rw [same, size] at below
    omega
  | exceeding declares exceeding =>
    refine .inl ⟨rfl, fun payload holds => ?_⟩
    rwa [declares.unique holds.declares] at exceeding
  | missing declares _ short =>
    refine .inl ⟨rfl, fun payload holds => ?_⟩
    have le := holds.length_le
    rw [declares.unique holds.declares] at short
    omega
  | payload holds within _ => exact .inr ⟨_, holds, within, rfl⟩

theorem Stops.passed_unique (stops : layout.Stops start fault passed)
    (other : layout.Stops start fault' passed') : passed = passed' := by
  rcases Nat.lt_or_ge start.remaining layout.width with short | reached
  · rw [stops.passed_of_short short, other.passed_of_short short]
  -- Behind its leading bytes only a frame can stop at two places, and its payload tells which.
  cases layout with
  | word | ordinal =>
    cases stops <;> cases other <;> first | rfl | omega
  | flagged =>
    cases stops with
    | leading short => exact absurd reached (Nat.not_le.mpr short)
    | flag _ =>
      cases other with
      | leading short => exact absurd reached (Nat.not_le.mpr short)
      | flag _ => rfl
  | framed content limits =>
    rcases stops.framed_cases reached with ⟨rfl, none⟩ | ⟨payload, holds, within, rfl⟩
    · rcases other.framed_cases reached with ⟨rfl, _⟩ | ⟨payload, holds, within, _⟩
      · rfl
      · exact absurd within (Nat.not_le.mpr (none payload holds))
    · rcases other.framed_cases reached with ⟨_, none⟩ | ⟨payload', holds', _, rfl⟩
      · exact absurd within (Nat.not_le.mpr (none payload holds))
      · rw [holds.declares.unique holds'.declares]

theorem Stops.ofReading (stops : layout.Stops start fault passed) : fault.OfReading := by
  cases stops with
  | payload _ _ refusal => cases refusal <;> trivial
  | leading | flag | ordinal | negative | exceeding | missing => trivial

end Layout

namespace Field

variable {W R : Type}

theorem final_of_holds {kind : Field W R} {content : Content R} {limits : Limits} {start : Cursor}
    {payload : Bytes} {value : R} (framed : kind.layout = .framed content limits)
    (holds : Frame.Holds start payload) (read : kind.decode.outcome start = .ok value) :
    (kind.decode.final start) = start.skip (4 + payload.length) holds.length_le := by
  rw [decode_of_framed framed] at read ⊢
  rcases Nat.lt_or_ge limits.frame payload.length with exceeding | within
  · rw [content.decodeWithin_eq] at read
    obtain ⟨_, run⟩ := Frame.decodeAs_of_exceeding holds.declares exceeding
    rw [Decoder.outcome, run] at read
    cases read
  · obtain ⟨_, run⟩ := content.decodeWithin_of_holds limits holds within
    exact congrArg Prod.snd run

/-- Where a field that cannot be read leaves the cursor: what stands ahead says how
many bytes are passed, and they are passed as if they had been skipped. A payload at
fault is passed just as a good one, so the field behind it is read as ever. -/
theorem failed_decode_skips (kind : Field W R) (start : Cursor) (fault : Fault)
    (failed : kind.decode.outcome start = .error fault) :
    ∃ passed, kind.layout.Stops start fault passed ∧
      (∀ fault' passed', kind.layout.Stops start fault' passed' → passed' = passed) ∧
      (kind.decode.final start).position = start.position + passed ∧
      Decoder.advance passed start = (.ok (), kind.decode.final start) ∧
      (∀ {W' R' : Type} (next : Field W' R'), next.decode (kind.decode.final start) =
        (Decoder.advance passed >>= fun _ => next.decode) start) ∧
      (∀ payload, Frame.Holds start payload → passed = 4 + payload.length →
        ∀ {W' R' : Type} (other : Field W' R') (content : Content R') (limits : Limits) (value : R'),
          other.layout = .framed content limits → other.decode.outcome start = .ok value →
            other.decode.final start = kind.decode.final start) ∧
      fault.OfReading := by
  obtain ⟨passed, fits, stops, after⟩ := kind.stops (Prod.ext failed rfl)
  have final : kind.decode.final start = start.skip passed fits := after
  have skipped : Decoder.advance passed start = (.ok (), kind.decode.final start) := by
    rw [final, Decoder.advance_of_le fits]
  refine ⟨passed, stops, fun _ _ other => other.passed_unique stops, ?_, skipped, fun next => ?_,
    fun payload holds same _ _ other content limits value framed read => ?_, stops.ofReading⟩
  · rw [final, Cursor.skip_position]
  · rw [Decoder.bind_of_ok skipped]
  · subst same
    rw [final, final_of_holds framed holds read]

theorem failed_decode_skips_variants :
    (variantList (⟨["a"]⟩ : VariantTable String) '|').decode.outcome
        (Cursor.ofBytes [0, 0, 0, 5, 49, 124, 49, 124, 55, 9]) = .error (.unknownVariant 7) ∧
      (fixed Int8).decode.outcome ((variantList (⟨["a"]⟩ : VariantTable String) '|').decode.final
        (Cursor.ofBytes [0, 0, 0, 5, 49, 124, 49, 124, 55, 9])) = .ok 9 := by
  have failed : (variantList (⟨["a"]⟩ : VariantTable String) '|').decode.outcome
      (Cursor.ofBytes [0, 0, 0, 5, 49, 124, 49, 124, 55, 9]) = .error (.unknownVariant 7) := rfl
  obtain ⟨passed, _, _, position, _, next, _⟩ := failed_decode_skips _ _ _ failed
  have behind : passed = 9 := Nat.add_left_cancel position.symm
  refine ⟨failed, ?_⟩
  rw [Decoder.outcome, next, behind]
  rfl

end Field

end Wireform
