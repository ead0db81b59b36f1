import Wireform.Field
/-! Decoders depend on exactly the bytes that they consume.

A decoder that does not run out of bytes has settled on a front of the unread
bytes: before any other rest it ends in the same way, and on less than this front
it runs out. The decoders of all kinds of field are built from `take` in ways
that keep this (`Local.bind`).
-/

set_option autoImplicit false

namespace Wireform

-- The same position in a buffer that ends earlier, but not before it.
def Cursor.cutAt (cursor : Cursor) (n : Nat) (reached : cursor.position ≤ n) : Cursor where
  buffer := cursor.buffer.take n
  position := cursor.position
  position_le := by
    have := cursor.position_le
    rw [List.length_take]
    omega

theorem Cursor.unread_cutAt (cursor : Cursor) {n : Nat} (reached : cursor.position ≤ n) :
    (cursor.cutAt n reached).unread = cursor.unread.take (n - cursor.position) :=
  List.drop_take

theorem Cursor.extract_eq_take (cursor : Cursor) (stop : Nat) :
    cursor.buffer.extract cursor.position stop = cursor.unread.take (stop - cursor.position) := rfl

namespace Decoder

variable {α β : Type}

/-- The outcome of a read that does not fit. -/
def Starved (result : Except Fault α) : Prop :=
  ∃ needed remaining, result = .error (.truncated needed remaining)

/-- With these bytes ahead the result is decided, and with less it is not. -/
structure Settles (decoder : Decoder α) (bytes : Bytes) (result : Except Fault α) : Prop where
  ends : Ends decoder bytes result
  starves : ∀ (cursor : Cursor) (missing : Bytes), missing ≠ [] →
    cursor.unread ++ missing = bytes → Starved (decoder.outcome cursor)

/-- Every run either settles on the bytes that it consumes or runs out of bytes. -/
def Local (decoder : Decoder α) : Prop :=
  ∀ cursor : Cursor, Starved (decoder.outcome cursor) ∨
    ∃ bytes result, bytes <+: cursor.unread ∧ Settles decoder bytes result

theorem local_ofExcept (result : Except Fault α) : Local (ofExcept result) := by
  intro cursor
  refine .inr ⟨[], result, List.nil_prefix, ends_ofExcept result, ?_⟩
  intro _ missing nonempty none
  exact absurd (List.append_eq_nil_iff.mp none).2 nonempty

theorem local_pure (value : α) : Local (pure value) := local_ofExcept (.ok value)

theorem local_fail (fault : Fault) : Local (fail fault : Decoder α) := local_ofExcept (.error fault)

theorem local_take (n : Nat) : Local (take n) := by
  intro cursor
  by_cases fits : n ≤ cursor.remaining
  · have length : (cursor.unread.take n).length = n := by
      rw [List.length_take, cursor.length_unread]
      exact Nat.min_eq_left fits
    refine .inr ⟨cursor.unread.take n, .ok (cursor.unread.take n), List.take_prefix _ _,
      reads_take length, ?_⟩
    intro other missing nonempty whole
    have short : other.remaining < n := by
      rw [← other.length_unread, ← length, ← whole, List.length_append]
      exact Nat.lt_add_of_pos_right (List.length_pos_iff.mpr nonempty)
    exact ⟨_, _, congrArg Prod.fst (take_of_lt short)⟩
  · exact .inl ⟨_, _, congrArg Prod.fst (take_of_lt (Nat.lt_of_not_le fits))⟩

theorem starved_bind {first : Decoder α} {next : α → Decoder β} {cursor : Cursor}
    (starved : Starved (first.outcome cursor)) : Starved ((first >>= next).outcome cursor) := by
  obtain ⟨needed, remaining, same⟩ := starved
  have run : first cursor = (.error (.truncated needed remaining), (first cursor).2) :=
    Prod.ext same rfl
  exact ⟨needed, remaining, congrArg Prod.fst (bind_of_error run)⟩

theorem outcome_bind_of_ok {first : Decoder α} {next : α → Decoder β} {cursor after : Cursor}
    {value : α} (run : first cursor = (.ok value, after)) :
    (first >>= next).outcome cursor = (next value).outcome after :=
  congrArg Prod.fst (bind_of_ok run)

theorem Settles.bind_error {first : Decoder α} {next : α → Decoder β} {bytes : Bytes} {fault : Fault}
    (settles : Settles first bytes (.error fault)) :
    Settles (first >>= next) bytes (.error fault) := by
  constructor
  · intro cursor rest ahead
    obtain ⟨fits, run⟩ := settles.ends cursor rest ahead
    exact ⟨fits, bind_of_error run⟩
  · intro cursor missing nonempty whole
    exact starved_bind (settles.starves cursor missing nonempty whole)

theorem Settles.bind_ok {first : Decoder α} {next : α → Decoder β} {front back : Bytes} {value : α}
    {result : Except Fault β} (settles : Settles first front (.ok value))
    (settles' : Settles (next value) back result) :
    Settles (first >>= next) (front ++ back) result := by
  refine ⟨Reads.bind_ends settles.ends settles'.ends, fun cursor missing nonempty whole => ?_⟩
  by_cases reached : front <+: cursor.unread
  · -- What is there reaches into the back, on which the second decoder starves.
    obtain ⟨middle, ahead⟩ := reached
    obtain ⟨fits, run⟩ := settles.ends cursor middle ahead.symm
    rw [outcome_bind_of_ok run]
    apply settles'.starves _ missing nonempty
    rw [cursor.unread_skip, ← ahead, List.drop_left]
    rw [← ahead, List.append_assoc] at whole
    exact List.append_cancel_left whole
  · -- What is there stops inside the front, on which already the first one starves.
    apply starved_bind
    rcases List.append_eq_append_iff.mp whole with ⟨middle, split, _⟩ | ⟨middle, split, _⟩
    · apply settles.starves cursor middle _ split.symm
      rintro rfl
      exact reached ⟨[], by rw [split, List.append_nil, List.append_nil]⟩
    · exact absurd ⟨middle, split.symm⟩ reached

theorem Local.bind {first : Decoder α} {next : α → Decoder β} (here : Local first)
    (later : ∀ value, Local (next value)) : Local (first >>= next) := by
  intro cursor
  rcases here cursor with starved | ⟨front, result, ⟨rest, ahead⟩, settles⟩
  · exact .inl (starved_bind starved)
  · cases result with
    | error fault => exact .inr ⟨front, _, ⟨rest, ahead⟩, settles.bind_error⟩
    | ok value =>
      obtain ⟨fits, run⟩ := settles.ends cursor rest ahead.symm
      rcases later value (cursor.skip front.length fits) with starved | ⟨back, result, found, settles'⟩
      · exact .inl (by rwa [outcome_bind_of_ok run])
      · refine .inr ⟨front ++ back, result, ?_, settles.bind_ok settles'⟩
        rw [cursor.unread_skip, ← ahead, List.drop_left] at found
        rw [← ahead]
        exact (List.prefix_append_right_inj front).mpr found

/-- A run that does not starve has settled on the bytes up to where it ends. -/
theorem Local.settles {decoder : Decoder α} (here : Local decoder) {start : Cursor}
    (settled : ¬ Starved (decoder.outcome start)) :
    ∃ bytes, bytes <+: start.unread ∧ Settles decoder bytes (decoder.outcome start) ∧
      (decoder.final start).position = start.position + bytes.length := by
  rcases here start with starved | ⟨bytes, result, ⟨rest, ahead⟩, settles⟩
  · exact absurd starved settled
  · obtain ⟨fits, run⟩ := settles.ends start rest ahead.symm
    have same : decoder.outcome start = result := congrArg Prod.fst run
    refine ⟨bytes, ⟨rest, ahead⟩, same ▸ settles, ?_⟩
    rw [final, run, Cursor.skip_position]

end Decoder

open Decoder

namespace FixedWidth

theorem local_decode {α : Type} [FixedWidth α] : Local (decode : Decoder α) :=
  (local_take _).bind fun _ => local_pure _

end FixedWidth

theorem Flag.local_decode : Local Flag.decode :=
  (local_take 1).bind fun _ => local_pure _

theorem Flag.local_decodeOption : Local Flag.decodeOption :=
  (local_take 1).bind fun _ => local_pure _

theorem Sentinel.local_decode {α : Type} [FixedWidth α] : Local (decode : Decoder (Sentinel α)) := by
  apply FixedWidth.local_decode.bind
  intro value
  split
  · exact Flag.local_decode.bind fun _ => local_pure _
  · exact local_pure _

theorem Nullable.local_decode {α : Type} [FixedWidth α] : Local (decode : Decoder (Option α)) :=
  Sentinel.local_decode.bind fun _ => local_pure _

namespace Frame

theorem local_readLength : Local readLength :=
  FixedWidth.local_decode.bind fun _ => local_pure _

theorem local_decodeBytesWithin (limit : Nat) : Local (decodeBytesWithin limit) := by
  apply local_readLength.bind
  intro length
  cases length with
  | none => exact local_pure _
  | some length =>
    dsimp only
    split
    · exact local_fail _
    · exact (local_take length).bind fun _ => local_pure _

theorem local_decodeStringWithin (limit : Nat) : Local (decodeStringWithin limit) :=
  (local_decodeBytesWithin limit).bind fun _ => local_ofExcept _

end Frame

namespace VariantTable

variable {E : Type}

theorem local_decode (table : VariantTable E) : Local table.decode :=
  FixedWidth.local_decode.bind fun _ => local_pure _

theorem local_decodeStrict (table : VariantTable E) : Local table.decodeStrict :=
  FixedWidth.local_decode.bind fun _ => local_ofExcept _

end VariantTable

namespace ListFrame

variable (limits : Limits) (separator : Char)

theorem local_decodeWithin : Local (decodeWithin limits separator) := by
  apply (Frame.local_decodeStringWithin limits.frame).bind
  intro text
  cases text with
  | none => exact local_pure _
  | some text => exact local_ofExcept _

theorem local_decodeTypedWithin {α : Type} [Element α] :
    Local (decodeTypedWithin limits separator : Decoder (List (Option α))) := by
  apply (Frame.local_decodeStringWithin limits.frame).bind
  intro text
  cases text with
  | none => exact local_pure _
  | some text => exact local_ofExcept _

theorem local_decodeVariantsWithin {E : Type} (table : VariantTable E) :
    Local (decodeVariantsWithin table limits separator) :=
  (local_decodeTypedWithin limits separator).bind fun _ => local_ofExcept _

end ListFrame

theorem ObjectCodec.local_decodeWithin {α : Type} (codec : ObjectCodec α) (limit : Nat) :
    Local (codec.decodeWithin limit) := by
  apply FixedWidth.local_decode.bind
  intro length
  split
  · exact local_fail _
  split
  · exact local_fail _
  · exact (local_take _).bind fun _ => local_ofExcept _

theorem Field.local_decode {W R : Type} (kind : Field W R) : Local kind.decode := by
  cases kind with
  | bool => exact Flag.local_decode
  | optionalBool => exact Flag.local_decodeOption
  | fixed => exact FixedWidth.local_decode
  | nullable => exact Nullable.local_decode
  | sentinel => exact Sentinel.local_decode
  | string => exact Frame.local_decodeStringWithin _
  | bytes => exact Frame.local_decodeBytesWithin _
  | variant table => exact table.local_decode
  | strictVariant table => exact table.local_decodeStrict
  | list separator => exact ListFrame.local_decodeWithin _ separator
  | typedList _ separator => exact ListFrame.local_decodeTypedWithin _ separator
  | variantList table separator => exact ListFrame.local_decodeVariantsWithin _ separator table
  | object capability => exact capability.local_decodeWithin _
  | codecString codec => exact Frame.local_decodeStringWithin _
  | codecBytes codec => exact Frame.local_decodeBytesWithin _
  | codecList codec => exact ListFrame.local_decodeWithin _ _
  | codecTypedList _ codec => exact ListFrame.local_decodeTypedWithin _ _
  | codecVariantList codec table => exact ListFrame.local_decodeVariantsWithin _ _ table
  | codecObject codec capability => exact capability.local_decodeWithin _

/-- A field that is read, or refused for anything but missing bytes, is decided by the
bytes it consumes: nothing before or behind them matters, and none can be left out. -/
theorem Field.decode_depends_on_consumed {W R : Type} (kind : Field W R) (start : Cursor)
    (settled : ¬ Starved (kind.decode.outcome start)) (stop : Nat)
    (ends : (kind.decode.final start).position = stop) :
    start.position ≤ stop ∧ (kind.decode.final start).buffer = start.buffer ∧
    (∀ other : Cursor, other.position = start.position → stop ≤ other.buffer.length →
      other.buffer.extract start.position stop = start.buffer.extract start.position stop →
        kind.decode.outcome other = kind.decode.outcome start ∧
        (kind.decode.final other).position = stop ∧
        (kind.decode.final other).buffer = other.buffer) ∧
    ∀ (cut : Nat) (reached : start.position ≤ cut), cut < stop →
      Starved (kind.decode.outcome (start.cutAt cut reached)) := by
  obtain ⟨bytes, ⟨rest, ahead⟩, settles, final⟩ := kind.local_decode.settles settled
  have consumed : stop - start.position = bytes.length := by omega
  have front : start.unread.take bytes.length = bytes := by rw [← ahead, List.take_left]
  refine ⟨by omega, ?_, fun other position long agree => ?_, fun cut reached early => ?_⟩
  · obtain ⟨_, run⟩ := settles.ends start rest ahead.symm
    rw [Decoder.final, run, Cursor.skip_buffer]
  · -- Agreeing on the consumed bytes is having them ahead.
    rw [start.extract_eq_take, ← position, other.extract_eq_take, position, consumed, front] at agree
    have ahead' := List.take_append_drop bytes.length other.unread
    rw [agree] at ahead'
    obtain ⟨_, run⟩ := settles.ends other _ ahead'.symm
    refine ⟨?_, ?_, ?_⟩
    · rw [Decoder.outcome, run]
    · rw [Decoder.final, run, Cursor.skip_position]
      omega
    · rw [Decoder.final, run, Cursor.skip_buffer]
  · apply settles.starves _ (bytes.drop (cut - start.position))
    · simp only [ne_eq, List.drop_eq_nil_iff]
      omega
    · rw [start.unread_cutAt, ← ahead, List.take_append_of_le_length (by omega),
        List.take_append_drop]

/-- The flag behind a reserved pattern is part of the field. -/
theorem Field.decode_depends_on_flag :
    (Field.nullable Int8).decode.outcome ⟨[3, 0x80, 1], 1, by decide⟩ = .ok (some (-128)) ∧
      Starved ((Field.nullable Int8).decode.outcome ⟨[7, 0x80], 1, by decide⟩) := by
  have read : (Field.nullable Int8).decode ⟨[7, 0x80, 1, 9], 1, by decide⟩ =
      (.ok (some (-128)), ⟨[7, 0x80, 1, 9], 3, by decide⟩) := rfl
  have outcome : (Field.nullable Int8).decode.outcome ⟨[7, 0x80, 1, 9], 1, by decide⟩ =
      .ok (some (-128)) := congrArg Prod.fst read
  have settled : ¬ Starved
      ((Field.nullable Int8).decode.outcome ⟨[7, 0x80, 1, 9], 1, by decide⟩) := by
    rintro ⟨_, _, truncated⟩
    rw [outcome] at truncated
    cases truncated
  obtain ⟨_, _, same, starved⟩ := decode_depends_on_consumed (.nullable Int8)
    ⟨[7, 0x80, 1, 9], 1, by decide⟩ settled 3 rfl
  refine ⟨?_, starved 2 (by decide) (by decide)⟩
  rw [(same ⟨[3, 0x80, 1], 1, by decide⟩ rfl (by decide) rfl).1, outcome]

end Wireform
