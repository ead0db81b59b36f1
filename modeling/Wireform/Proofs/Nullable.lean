import Wireform.Binary
import Wireform.Nullable
/-! Optional fixed-width values are a prefix-free code.

A value is read from its own bytes whatever follows them, so no encoding starts another one.
The other way round, the bytes that a value was read from are the ones that are written for it,
but for the flag, of which any byte but zero reads as true.
-/

set_option autoImplicit false

namespace Wireform

theorem Decoder.Reads.eq_of_front {α : Type} {decoder : Decoder α} {front bytes : Bytes} {a b : α}
    (reads : Reads decoder front a) (reads' : Reads decoder bytes b) (starts : front <+: bytes) :
    a = b := by
  obtain ⟨rest, same⟩ := starts
  obtain ⟨_, run⟩ := reads (Cursor.ofBytes bytes) rest same.symm
  rw [reads'.whole] at run
  exact (Except.ok.inj (Prod.mk.inj run).1).symm

namespace Sentinel

variable {α : Type} [FixedWidth α] {cursor after : Cursor} {sentinel : Sentinel α}

theorem decode_reads_bare {value : α} (other : FixedWidth.isMinimum value = false) :
    Decoder.Reads decode (FixedWidth.encode value) (bare value) := by
  have reads := decode_reads (bare value)
  simpa [encode, normal, other] using reads

theorem decode_of_unflagged
    (whole : cursor.unread = FixedWidth.encode (FixedWidth.minimum : α)) :
    ∃ fits, (decode : Decoder (Sentinel α)) cursor =
      (.error (.truncated 1 0), cursor.skip (FixedWidth.width α) fits) := by
  obtain ⟨fits, ran⟩ := FixedWidth.decode_of_ahead ⟨[], by rw [whole, List.append_nil]⟩
  have none : (cursor.skip (FixedWidth.width α) fits).remaining = 0 := by
    rw [cursor.remaining_skip, ← cursor.length_unread, whole, FixedWidth.length_encode, Nat.sub_self]
  refine ⟨fits, ?_⟩
  rw [decode, Decoder.bind_of_ok ran, if_pos FixedWidth.isMinimum_minimum, ← none]
  exact Decoder.bind_of_error (Decoder.bind_of_error (Decoder.take_of_lt (by omega)))

/-- What was read is written again, but for the flag of a minimum. -/
theorem encode_of_decode (run : decode cursor = (.ok sentinel, after)) :
    ∃ (bytes : Bytes) (fits : bytes.length ≤ cursor.remaining), bytes <+: cursor.unread ∧
      after = cursor.skip bytes.length fits ∧
      (sentinel.encode = bytes ∨ ∃ flag, flag ≠ 0 ∧ flag ≠ 1 ∧
        bytes = FixedWidth.encode (FixedWidth.minimum : α) ++ [flag] ∧
        sentinel.encode = FixedWidth.encode (FixedWidth.minimum : α) ++ [1]) := by
  rcases FixedWidth.short_or_ahead α cursor with short | ⟨value, rest, whole⟩
  · rw [decode, Decoder.bind_of_error (FixedWidth.decode_of_short short)] at run
    cases run
  by_cases least : FixedWidth.isMinimum value
  · cases (FixedWidth.isMinimum_iff value).mp least
    cases rest with
    | nil =>
      rw [List.append_nil] at whole
      obtain ⟨_, failed⟩ := decode_of_unflagged whole.symm
      cases failed.symm.trans run
    | cons flag rest =>
      have ahead : cursor.unread =
          FixedWidth.encode (FixedWidth.minimum : α) ++ [flag] ++ rest := by
        rw [← whole, List.append_assoc, List.singleton_append]
      obtain ⟨fits, read⟩ := decode_reads_byte (α := α) flag cursor rest ahead
      cases read.symm.trans run
      refine ⟨_, fits, ⟨rest, ahead.symm⟩, rfl, ?_⟩
      -- Of the flags only zero and one are written.
      by_cases zero : flag = 0
      · subst zero
        exact .inl rfl
      by_cases one : flag = 1
      · subst one
        exact .inl rfl
      · refine .inr ⟨flag, zero, one, rfl, ?_⟩
        rw [if_pos (by simpa using zero)]
        rfl
  · have other : FixedWidth.isMinimum value = false := by simpa using least
    obtain ⟨fits, read⟩ := decode_reads_bare other cursor rest whole.symm
    cases read.symm.trans run
    refine ⟨_, fits, ⟨rest, whole⟩, rfl, .inl ?_⟩
    rw [encode, if_neg least]

end Sentinel

namespace Nullable

variable {α : Type} [FixedWidth α]

theorem length_encode_none : (encode (none : Option α)).length = FixedWidth.width α + 1 := by
  simp [encode, Sentinel.ofOption, Sentinel.encode]

theorem length_encode_some (value : α) : (encode (some value)).length =
    if FixedWidth.isMinimum value then FixedWidth.width α + 1 else FixedWidth.width α := by
  by_cases least : FixedWidth.isMinimum value <;>
    simp [encode, Sentinel.ofOption, Sentinel.encode, least]

theorem length_encode_iff (value : Option α) :
    ((encode value).length = FixedWidth.width α + 1 ↔
      value = none ∨ value = some FixedWidth.minimum) ∧
    ((encode value).length = FixedWidth.width α ↔
      ¬ (value = none ∨ value = some FixedWidth.minimum)) := by
  cases value with
  | none => simp [length_encode_none]
  | some value =>
    rw [length_encode_some]
    by_cases least : FixedWidth.isMinimum value
    · simp [(FixedWidth.isMinimum_iff value).mp least]
    · have other : value ≠ FixedWidth.minimum := mt (FixedWidth.isMinimum_iff value).mpr least
      simp [least, other]

theorem encode_toOption (sentinel : Sentinel α) :
    Nullable.encode sentinel.toOption = sentinel.encode := by
  rw [encode, Sentinel.ofOption_toOption, Sentinel.encode_normal]

/-- Optional values of a fixed width are a canonical prefix-free code: each is read back from
its bytes whatever follows, and just an absent value and the reserved pattern take one byte more
than the width. No encoding starts another one. A sentinel is read back as it is, but for a bare
minimum. And the bytes from which a value is read are those that are written for it, except that
a flag which is neither zero nor one is written as one. -/
theorem canonical_prefix_free (α : Type) [FixedWidth α] :
    (∀ value : Option α, Decoder.Reads decode (encode value) value ∧
      ((encode value).length = FixedWidth.width α + 1 ↔
        value = none ∨ value = some FixedWidth.minimum) ∧
      ((encode value).length = FixedWidth.width α ↔
        ¬ (value = none ∨ value = some FixedWidth.minimum))) ∧
    (∀ value other : Option α, encode value <+: encode other → value = other) ∧
    (∀ sentinel : Sentinel α, sentinel ≠ .bare FixedWidth.minimum →
      Decoder.Reads Sentinel.decode sentinel.encode sentinel) ∧
    Decoder.Reads Sentinel.decode (Sentinel.bare (FixedWidth.minimum : α)).encode
      (.minimum : Sentinel α) ∧
    ∀ (cursor after : Cursor) (value : Option α), decode cursor = (.ok value, after) →
      ∃ (bytes : Bytes) (fits : bytes.length ≤ cursor.remaining), bytes <+: cursor.unread ∧
        after = cursor.skip bytes.length fits ∧
        (encode value = bytes ∨ ∃ flag, flag ≠ 0 ∧ flag ≠ 1 ∧
          bytes = FixedWidth.encode (FixedWidth.minimum : α) ++ [flag] ∧
          encode value = FixedWidth.encode (FixedWidth.minimum : α) ++ [1]) := by
  refine ⟨fun value => ⟨decode_reads value, length_encode_iff value⟩, ?_, ?_, ?_, ?_⟩
  · intro value other starts
    exact (decode_reads value).eq_of_front (decode_reads other) starts
  · intro sentinel other
    have reads := sentinel.decode_reads
    cases sentinel with
    | absent | minimum => exact reads
    | bare value =>
      have least : ¬ FixedWidth.isMinimum value := by
        intro least
        exact other (congrArg _ ((FixedWidth.isMinimum_iff value).mp least))
      rwa [Sentinel.normal, if_neg least] at reads
  · have reads := (Sentinel.bare (FixedWidth.minimum : α)).decode_reads
    rwa [Sentinel.normal, if_pos FixedWidth.isMinimum_minimum] at reads
  · intro cursor after value run
    obtain ⟨sentinel, read, rfl⟩ : ∃ sentinel : Sentinel α,
        Sentinel.decode cursor = (.ok sentinel, after) ∧ sentinel.toOption = value := by
      rw [decode, Decoder.bind_apply] at run
      split at run
      · rename_i sentinel middle ran
        cases run
        exact ⟨sentinel, ran, rfl⟩
      · cases run
    rw [encode_toOption]
    exact Sentinel.encode_of_decode read

theorem canonical_prefix_free_negative_zero :
    ¬ encode (none : Option (Binary .single)) <+:
      encode (some (FixedWidth.minimum : Binary .single)) ∧
    Decoder.Reads (Sentinel.decode : Decoder (Sentinel (Binary .single)))
      (Sentinel.minimum : Sentinel (Binary .single)).encode .minimum ∧
    ∃ after, (decode : Decoder (Option (Binary .single))) (Cursor.ofBytes [0x80, 0, 0, 0, 7, 9]) =
        (.ok (some FixedWidth.minimum), after) ∧
      ∃ (bytes : Bytes) (fits : bytes.length ≤ 6), bytes <+: [0x80, 0, 0, 0, 7, 9] ∧
        after = (Cursor.ofBytes [0x80, 0, 0, 0, 7, 9]).skip bytes.length fits ∧
        bytes ≠ encode (some (FixedWidth.minimum : Binary .single)) ∧
        ∃ flag, flag ≠ 0 ∧ flag ≠ 1 ∧
          bytes = FixedWidth.encode (FixedWidth.minimum : Binary .single) ++ [flag] := by
  obtain ⟨_, free, reads, _, back⟩ := canonical_prefix_free (Binary .single)
  refine ⟨fun starts => ?_, reads .minimum (by decide), _, rfl, ?_⟩
  · cases free none _ starts
  obtain ⟨bytes, fits, starts, same, written⟩ :=
    back (Cursor.ofBytes [0x80, 0, 0, 0, 7, 9]) _ (some FixedWidth.minimum) rfl
  have other : bytes ≠ encode (some (FixedWidth.minimum : Binary .single)) := by
    rintro rfl
    revert starts
    decide
  obtain written | ⟨flag, zero, one, ahead, _⟩ := written
  · exact absurd written.symm other
  · exact ⟨bytes, fits, starts, same, other, flag, zero, one, ahead⟩

end Nullable

end Wireform
