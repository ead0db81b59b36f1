import Wireform.Field
import Wireform.Proofs.ListFrame
/-! Every kind of field reads back what it wrote.

Most kinds do so for every value that they write. `Field.Faithful` says what the
others need: lists a separator that is not ambiguous and elements whose text reads
back, objects a capability that undoes itself.
-/

set_option autoImplicit false

namespace Wireform

namespace VariantTable

/-- Four bytes are read as the variant of their ordinal. -/
theorem decode_reads_ordinal {E : Type} (table : VariantTable E) (ordinal : Int32) :
    Decoder.Reads table.decode (FixedWidth.encode ordinal) (table.variant? ordinal) :=
  (FixedWidth.decode_reads ordinal).map (Decoder.reads_pure _)

theorem decodeStrict_ends {E : Type} (table : VariantTable E) (ordinal : Int32) :
    Decoder.Ends table.decodeStrict (FixedWidth.encode ordinal) (table.variant ordinal) :=
  (FixedWidth.decode_reads ordinal).map_ends (Decoder.ends_ofExcept _)

variable {E : Type} [DecidableEq E] {table : VariantTable E} {variant : E} {frame : Bytes}

theorem encode_eq_ok_iff : table.encode variant = .ok frame ↔
    ∃ ordinal, table.ordinal variant = .ok ordinal ∧ FixedWidth.encode ordinal = frame := by
  simp only [encode, Fault.bind_eq_ok_iff, Fault.pure_eq_ok_iff]

theorem decode_reads (encoded : table.encode variant = .ok frame) :
    Decoder.Reads table.decode frame (some variant) := by
  obtain ⟨ordinal, found, rfl⟩ := encode_eq_ok_iff.mp encoded
  rw [← variant?_of_ordinal? (ordinal_eq_ok_iff.mp found)]
  exact table.decode_reads_ordinal ordinal

theorem decodeStrict_reads (encoded : table.encode variant = .ok frame) :
    Decoder.Reads table.decodeStrict frame variant := by
  obtain ⟨ordinal, found, rfl⟩ := encode_eq_ok_iff.mp encoded
  rw [Decoder.Reads, ← variant_of_ordinal found]
  exact table.decodeStrict_ends ordinal

end VariantTable

namespace ObjectCodec

variable {α : Type} {codec : ObjectCodec α} {value : α} {frame : Bytes}

def Faithful (codec : ObjectCodec α) (value : α) : Prop :=
  ∀ payload, codec.toBytes value = .ok payload → codec.ofBytes payload = .ok value

theorem encode_eq_ok_iff : codec.encode value = .ok frame ↔
    ∃ payload, codec.toBytes value = .ok payload ∧ Frame.encodeBytes (some payload) = .ok frame := by
  simp only [encode, payload, Frame.encodeBytes, Fault.bind_eq_ok_iff, Fault.mapError_eq_ok_iff]

theorem decodeWithin_reads {limit : Nat} (faithful : codec.Faithful value)
    (encoded : codec.encode value = .ok frame) (within : frame.length - 4 ≤ limit) :
    Decoder.Reads (codec.decodeWithin limit) frame value := by
  obtain ⟨payload, written, framed⟩ := encode_eq_ok_iff.mp encoded
  rw [(Frame.length_of_encodeBytes framed).2, Nat.add_sub_cancel] at within
  obtain ⟨length, fits, rfl⟩ := Frame.encodeBytes_some_eq_ok_iff.mp framed
  have size := Frame.toInt_of_length? fits
  have read : codec.value payload = .ok value :=
    Fault.mapError_eq_ok_iff.mpr (faithful payload written)
  refine (FixedWidth.decode_reads length).bind ?_
  rw [if_neg (by omega), size, Int.toNat_natCast, if_neg (Nat.not_lt.mpr within)]
  refine (Decoder.reads_take rfl).map ?_
  rw [read]
  exact Decoder.reads_ofExcept value

theorem within_unbounded (encoded : codec.encode value = .ok frame) :
    frame.length - 4 ≤ Limits.unbounded.frame := by
  obtain ⟨payload, _, framed⟩ := encode_eq_ok_iff.mp encoded
  obtain ⟨small, length⟩ := Frame.length_of_encodeBytes framed
  simp only [Limits.unbounded]
  omega

end ObjectCodec

namespace Codec

variable {codec : Codec} {frame : Bytes}

theorem checkLength_eq_ok_iff {length : Nat} :
    codec.checkLength length = .ok () ↔ length ≤ codec.config.maxListLen := by
  unfold checkLength
  split
  · simp only [reduceCtorEq, false_iff]
    omega
  · simp only [true_iff]
    omega

theorem checkFrame_eq_ok_iff {checked : Bytes} : codec.checkFrame frame = .ok checked ↔
    frame = checked ∧ frame.length - 4 ≤ codec.config.maxFrameLen := by
  unfold checkFrame
  split
  · simp only [reduceCtorEq, false_iff]
    omega
  · simp only [Except.ok.injEq, iff_self_and]
    omega

theorem clear_separator (codec : Codec) : ¬ ListText.Ambiguous [codec.separator] :=
  ListFrame.clear_iff.mpr ((Config.fault?_eq_none_iff codec.config).mp codec.usable).2.2.2

theorem encodeList_eq_ok_iff {list : List (Option String)} : codec.encodeList list = .ok frame ↔
    ListFrame.encode list codec.separator = .ok frame ∧
      list.length ≤ codec.config.limits.list ∧ frame.length - 4 ≤ codec.config.limits.frame := by
  simp only [encodeList, Fault.bind_eq_ok_iff, checkFrame_eq_ok_iff]
  constructor
  · rintro ⟨_, count, _, encoded, rfl, bytes⟩
    exact ⟨encoded, checkLength_eq_ok_iff.mp count, bytes⟩
  · rintro ⟨encoded, count, bytes⟩
    exact ⟨(), checkLength_eq_ok_iff.mpr count, frame, encoded, rfl, bytes⟩

theorem encodeTypedList_eq {α : Type} [Element α] (codec : Codec) (list : List (Option α)) :
    codec.encodeTypedList list = codec.encodeList (list.map (·.map Element.toText)) := by
  rw [encodeTypedList, encodeList, List.length_map]
  rfl

theorem decodeList_reads {list : List (Option String)} (encoded : codec.encodeList list = .ok frame) :
    Decoder.Reads codec.decodeList frame list := by
  obtain ⟨encoded, count, bytes⟩ := encodeList_eq_ok_iff.mp encoded
  exact ListFrame.decodeWithin_reads codec.clear_separator encoded count bytes

theorem decodeTypedList_reads {α : Type} [Element α] {list : List (Option α)}
    (lossless : ∀ value, some value ∈ list → Element.Lossless value)
    (encoded : codec.encodeTypedList list = .ok frame) :
    Decoder.Reads codec.decodeTypedList frame list := by
  rw [encodeTypedList_eq, encodeList_eq_ok_iff, List.length_map] at encoded
  obtain ⟨encoded, count, bytes⟩ := encoded
  exact ListFrame.decodeTypedWithin_reads codec.clear_separator lossless encoded count bytes

theorem decodeVariants_reads {E : Type} [DecidableEq E] {table : VariantTable E}
    {list : List (Option E)} (encoded : codec.encodeVariants table list = .ok frame) :
    Decoder.Reads (codec.decodeVariants table) frame list := by
  obtain ⟨numbers, numbered, encoded⟩ := Fault.bind_eq_ok_iff.mp encoded
  rw [encodeTypedList_eq, encodeList_eq_ok_iff, List.length_map,
    ListFrame.length_ordinals numbered] at encoded
  obtain ⟨encoded, count, bytes⟩ := encoded
  exact ListFrame.decodeVariantsWithin_reads codec.clear_separator
    (Fault.bind_eq_ok_iff.mpr ⟨numbers, numbered, encoded⟩) count bytes

theorem decodeObject_reads {α : Type} {capability : ObjectCodec α} {value : α}
    (faithful : capability.Faithful value)
    (encoded : codec.encodeObject capability value = .ok frame) :
    Decoder.Reads (codec.decodeObject capability) frame value := by
  simp only [encodeObject, Fault.bind_eq_ok_iff, checkFrame_eq_ok_iff] at encoded
  obtain ⟨_, encoded, rfl, bytes⟩ := encoded
  exact ObjectCodec.decodeWithin_reads faithful encoded bytes

end Codec

namespace Field

/-- What a kind needs in order to read a value back. -/
def Faithful {W R : Type} : Field W R → W → Prop
  | list separator, _ | variantList _ separator, _ => separator.isDigit = false ∧ separator ≠ '-'
  | typedList _ separator, values =>
      (separator.isDigit = false ∧ separator ≠ '-') ∧
        ∀ value, some value ∈ values → Element.Lossless value
  | codecTypedList _ _, values => ∀ value, some value ∈ values → Element.Lossless value
  | object capability, value | codecObject _ capability, value => capability.Faithful value
  | codecString codec, text => ∀ s, text = some s → s.utf8ByteSize ≤ codec.config.maxFrameLen
  | codecBytes codec, payload => ∀ p, payload = some p → p.length ≤ codec.config.maxFrameLen
  | _, _ => True

theorem decode_reads {W R : Type} {kind : Field W R} {value : W} {frame : Bytes}
    (faithful : kind.Faithful value) (encoded : kind.encode value = .ok frame) :
    Decoder.Reads kind.decode frame (kind.readBack value) := by
  cases kind with
  | bool =>
    cases encoded
    exact Flag.decode_reads value
  | optionalBool =>
    cases encoded
    exact Flag.decodeOption_reads value
  | fixed =>
    cases encoded
    exact FixedWidth.decode_reads value
  | nullable =>
    cases encoded
    exact Nullable.decode_reads value
  | sentinel =>
    cases encoded
    exact Sentinel.decode_reads value
  | string =>
    refine Frame.decodeStringWithin_reads encoded fun text same => ?_
    subst same
    have small := (Frame.length_of_encodeString encoded).1
    simp only [Limits.unbounded]
    omega
  | bytes =>
    refine Frame.decodeBytesWithin_reads encoded fun payload same => ?_
    subst same
    have small := (Frame.length_of_encodeBytes encoded).1
    simp only [Limits.unbounded]
    omega
  | variant => exact VariantTable.decode_reads encoded
  | strictVariant => exact VariantTable.decodeStrict_reads encoded
  | list separator =>
    obtain ⟨count, bytes⟩ := ListFrame.within_unbounded encoded
    exact ListFrame.decodeWithin_reads (ListFrame.clear_iff.mpr faithful) encoded count bytes
  | typedList _ separator =>
    obtain ⟨clear, lossless⟩ := faithful
    obtain ⟨count, bytes⟩ := ListFrame.within_unbounded encoded
    rw [List.length_map] at count
    exact ListFrame.decodeTypedWithin_reads (ListFrame.clear_iff.mpr clear) lossless encoded count bytes
  | variantList table separator =>
    exact ListFrame.decodeVariants_reads (ListFrame.clear_iff.mpr faithful) encoded
  | object capability =>
    exact ObjectCodec.decodeWithin_reads faithful encoded (ObjectCodec.within_unbounded encoded)
  | codecString codec => exact Frame.decodeStringWithin_reads encoded faithful
  | codecBytes codec => exact Frame.decodeBytesWithin_reads encoded faithful
  | codecList codec => exact Codec.decodeList_reads encoded
  | codecTypedList _ codec => exact Codec.decodeTypedList_reads faithful encoded
  | codecVariantList codec table => exact Codec.decodeVariants_reads encoded
  | codecObject codec capability => exact Codec.decodeObject_reads faithful encoded

end Field

end Wireform
