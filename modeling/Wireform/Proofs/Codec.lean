import Wireform.Proofs.Field
import Wireform.Proofs.Limits
/-! A codec writes just what it would read back.

Writing counts the elements and measures the frame, reading looks at the declared
count and the declared length. They are the same numbers, so a written frame keeps
the limits just where the decoders accept it (`Content.within_of_accepted`).
-/

set_option autoImplicit false

namespace Wireform

theorem Frame.holds_of_encodeBytes {payload frame : Bytes}
    (encoded : encodeBytes (some payload) = .ok frame) : Holds (Cursor.ofBytes frame) payload := by
  obtain ⟨length, fits, rfl⟩ := encodeBytes_some_eq_ok_iff.mp encoded
  exact ⟨length, toInt_of_length? fits, List.prefix_rfl⟩

theorem ObjectCodec.decodeWithin_of_encodeBytes {α : Type} {capability : ObjectCodec α}
    {payload frame : Bytes} {limit : Nat} (framed : Frame.encodeBytes (some payload) = .ok frame)
    (within : payload.length ≤ limit) : capability.decodeWithin limit (Cursor.ofBytes frame) =
      ((capability.ofBytes payload).mapError .capability, (Cursor.ofBytes frame).toEnd) := by
  have length := (Frame.length_of_encodeBytes framed).2
  obtain ⟨fits, run⟩ := Content.decodeWithin_of_holds (.object capability) ⟨limit, 0⟩
    (Frame.holds_of_encodeBytes framed) within
  rw [Cursor.skip_ofBytes fits (by omega)] at run
  exact run

theorem ListFrame.counts_of_write {separator : Char} {list : List (Option String)} {text : String}
    (clear : ¬ ListText.Ambiguous [separator]) (small : text.utf8ByteSize < 2 ^ 63)
    (written : ListText.write list separator.toString none = .ok text) :
    Counts separator (Utf8.encode text) list.length := by
  have wellFormed := ListText.wellFormed_canonical clear (ListText.fits_of_write written small)
  have counts := ListText.Spelling.counts wellFormed []
  refine ⟨text, Utf8.decode?_encode text, ?_⟩
  rw [ListText.toList_of_write written, ← ListText.Spelling.length_canonical list]
  simpa using counts

/-- A written list that is accepted keeps the limits, whatever its elements are read as. -/
theorem Content.within_of_accepted {R : Type} {content : Content R} {limits : Limits}
    {separator : Char} {list : List (Option String)} {frame : Bytes} {read : R}
    (isList : content.separator? = some separator) (clear : ¬ ListText.Ambiguous [separator])
    (encoded : ListFrame.encode list separator = .ok frame)
    (accepted : (content.decodeWithin limits).outcome (Cursor.ofBytes frame) = .ok read) :
    list.length ≤ limits.list ∧ frame.length - 4 ≤ limits.frame := by
  obtain ⟨text, written, framed⟩ := ListFrame.encode_eq_ok_iff.mp encoded
  obtain ⟨small, length⟩ := Frame.length_of_encodeString framed
  have holds : Frame.Holds (Cursor.ofBytes frame) (Utf8.encode text) :=
    Frame.holds_of_encodeBytes framed
  -- Beyond either limit the decoder refuses before it looks at any element.
  have bytes : (Utf8.encode text).length ≤ limits.frame := by
    refine Nat.not_lt.mp fun exceeding => ?_
    obtain ⟨_, run⟩ := content.decodeWithin_of_tooLarge ⟨holds.declares, exceeding⟩
    rw [Decoder.outcome, run] at accepted
    cases accepted
  have count : list.length ≤ limits.list := by
    refine Nat.not_lt.mp fun exceeding => ?_
    have tooLong : content.TooLong limits (Cursor.ofBytes frame) (Utf8.encode text) list.length :=
      { holds
        within := bytes
        counts := ⟨separator, isList, ListFrame.counts_of_write clear (by omega) written⟩
        exceeding }
    obtain ⟨_, run⟩ := decodeWithin_of_tooLong tooLong
    rw [Decoder.outcome, run] at accepted
    cases accepted
  rw [Utf8.length_encode] at bytes
  exact ⟨count, by omega⟩

namespace Codec

/-- A codec's writer gives what the free one does, for just the frames that the codec
accepts, and these it reads back. -/
structure WritesAccepted {α : Type} (written free : Except Fault Bytes) (decoder : Decoder α)
    (value : α) : Prop where
  written_iff : ∀ frame, written = .ok frame ↔
    free = .ok frame ∧ ∃ read, decoder.outcome (Cursor.ofBytes frame) = .ok read
  reads : ∀ frame, written = .ok frame →
    decoder (Cursor.ofBytes frame) = (.ok value, (Cursor.ofBytes frame).toEnd)

theorem WritesAccepted.bind {α β : Type} {first : Except Fault α}
    {write free : α → Except Fault Bytes} {decoder : Decoder β} {value : β}
    (later : ∀ a, first = .ok a → WritesAccepted (write a) (free a) decoder value) :
    WritesAccepted (first >>= write) (first >>= free) decoder value := by
  cases first with
  | ok a => exact later a rfl
  | error fault =>
    refine ⟨fun frame => ⟨fun failed => ?_, fun ⟨failed, _⟩ => ?_⟩, fun frame failed => ?_⟩
    all_goals cases failed

variable {codec : Codec} {frame : Bytes}

theorem writesAccepted_of_reads {α : Type} (content : Content α) {list : List (Option String)}
    {value : α} (isList : content.separator? = some codec.separator)
    (reads : ∀ frame, codec.encodeList list = .ok frame →
      Decoder.Reads (content.decodeWithin codec.config.limits) frame value) :
    WritesAccepted (codec.encodeList list) (ListFrame.encode list codec.separator)
      (content.decodeWithin codec.config.limits) value where
  written_iff frame := by
    constructor
    · intro written
      have run := (reads frame written).whole
      exact ⟨(encodeList_eq_ok_iff.mp written).1, value, congrArg Prod.fst run⟩
    · rintro ⟨encoded, read, accepted⟩
      exact encodeList_eq_ok_iff.mpr
        ⟨encoded, Content.within_of_accepted isList codec.clear_separator encoded accepted⟩
  reads frame written := (reads frame written).whole

theorem writesAccepted_list (codec : Codec) (list : List (Option String)) :
    WritesAccepted (codec.encodeList list) (ListFrame.encode list codec.separator)
      codec.decodeList list :=
  writesAccepted_of_reads (.list codec.separator) rfl fun _ => decodeList_reads

theorem writesAccepted_typedList {α : Type} [Element α] (codec : Codec) {list : List (Option α)}
    (lossless : ∀ value, some value ∈ list → Element.Lossless value) :
    WritesAccepted (codec.encodeTypedList list) (ListFrame.encodeTyped list codec.separator)
      codec.decodeTypedList list := by
  have reads : ∀ frame, codec.encodeTypedList list = .ok frame →
      Decoder.Reads codec.decodeTypedList frame list := fun _ => decodeTypedList_reads lossless
  rw [encodeTypedList_eq] at reads ⊢
  exact writesAccepted_of_reads (.typedList α codec.separator) rfl reads

theorem writesAccepted_variants {E : Type} [DecidableEq E] (codec : Codec) (table : VariantTable E)
    (list : List (Option E)) :
    WritesAccepted (codec.encodeVariants table list)
      (ListFrame.encodeVariants table list codec.separator) (codec.decodeVariants table) list := by
  refine WritesAccepted.bind fun numbers numbered => ?_
  have reads : ∀ frame, codec.encodeTypedList numbers = .ok frame →
      Decoder.Reads (codec.decodeVariants table) frame list := fun frame written =>
    decodeVariants_reads (Fault.bind_eq_ok_iff.mpr ⟨numbers, numbered, written⟩)
  rw [encodeTypedList_eq] at reads ⊢
  exact writesAccepted_of_reads (.variantList table codec.separator) rfl reads

theorem config_of_ofConfig {config : Config} (usable : ofConfig config = .ok codec) :
    codec.config = config := by
  unfold ofConfig at usable
  split at usable
  · cases usable
    rfl
  · cases usable

theorem decodeObject_of_encode {α : Type} {capability : ObjectCodec α} {value : α}
    (written : codec.encodeObject capability value = .ok frame) :
    ∃ payload, capability.toBytes value = .ok payload ∧
      codec.decodeObject capability (Cursor.ofBytes frame) =
        ((capability.ofBytes payload).mapError .capability, (Cursor.ofBytes frame).toEnd) := by
  simp only [encodeObject, Fault.bind_eq_ok_iff, checkFrame_eq_ok_iff] at written
  obtain ⟨_, encoded, rfl, bytes⟩ := written
  obtain ⟨payload, made, framed⟩ := ObjectCodec.encode_eq_ok_iff.mp encoded
  have length := (Frame.length_of_encodeBytes framed).2
  have within : payload.length ≤ codec.config.maxFrameLen := by omega
  exact ⟨payload, made, ObjectCodec.decodeWithin_of_encodeBytes framed within⟩

/-- What a codec under a usable configuration writes is just what it accepts back: lists of
strings, lists of elements whose text reads back, and lists of variants are written as
without a codec wherever their frame is accepted, and then read back whole. An object that is
written is taken whole too, and read as its capability reads the payload that it made. -/
theorem writes_what_it_accepts {config : Config} {codec : Codec}
    (usable : Codec.ofConfig config = .ok codec) :
    (∀ list : List (Option String),
      WritesAccepted (codec.encodeList list) (ListFrame.encode list config.listSeparator)
        codec.decodeList list) ∧
    (∀ {α : Type} [Element α] (list : List (Option α)),
      (∀ value, some value ∈ list → Element.Lossless value) →
        WritesAccepted (codec.encodeTypedList list) (ListFrame.encodeTyped list config.listSeparator)
          codec.decodeTypedList list) ∧
    (∀ {E : Type} [DecidableEq E] (table : VariantTable E) (list : List (Option E)),
      WritesAccepted (codec.encodeVariants table list)
        (ListFrame.encodeVariants table list config.listSeparator) (codec.decodeVariants table) list) ∧
    ∀ {α : Type} (capability : ObjectCodec α) (value : α) (frame : Bytes),
      codec.encodeObject capability value = .ok frame →
        ∃ payload, capability.toBytes value = .ok payload ∧
          codec.decodeObject capability (Cursor.ofBytes frame) =
            ((capability.ofBytes payload).mapError .capability, (Cursor.ofBytes frame).toEnd) := by
  obtain rfl := config_of_ofConfig usable
  exact ⟨codec.writesAccepted_list, fun _ => codec.writesAccepted_typedList,
    codec.writesAccepted_variants, fun _ _ _ => decodeObject_of_encode⟩

theorem writes_what_it_accepts_at_limits :
    ∃ codec : Codec, Codec.ofConfig ⟨8, 2, '|'⟩ = .ok codec ∧
      (codec.encodeList [some "a", none] = .ok [0, 0, 0, 8, 50, 124, 49, 124, 97, 45, 49, 124] ∧
        codec.decodeList (Cursor.ofBytes [0, 0, 0, 8, 50, 124, 49, 124, 97, 45, 49, 124]) =
          (.ok [some "a", none],
            (Cursor.ofBytes [0, 0, 0, 8, 50, 124, 49, 124, 97, 45, 49, 124]).toEnd)) ∧
      (codec.encodeTypedList [some (7 : Int8), none] =
          .ok [0, 0, 0, 8, 50, 124, 49, 124, 55, 45, 49, 124] ∧
        codec.decodeTypedList (Cursor.ofBytes [0, 0, 0, 8, 50, 124, 49, 124, 55, 45, 49, 124]) =
          (.ok [some (7 : Int8), none],
            (Cursor.ofBytes [0, 0, 0, 8, 50, 124, 49, 124, 55, 45, 49, 124]).toEnd)) ∧
      (codec.encodeVariants ⟨["x", "y"]⟩ [none, some "y"] =
          .ok [0, 0, 0, 8, 50, 124, 45, 49, 124, 49, 124, 49] ∧
        codec.decodeVariants ⟨["x", "y"]⟩
            (Cursor.ofBytes [0, 0, 0, 8, 50, 124, 45, 49, 124, 49, 124, 49]) =
          (.ok [none, some "y"],
            (Cursor.ofBytes [0, 0, 0, 8, 50, 124, 45, 49, 124, 49, 124, 49]).toEnd)) ∧
      codec.encodeObject (.verbatim (fun _ => .ok ()) fun _ => .error "no") [1, 2, 3, 4, 5, 6, 7, 8] =
          .ok [0, 0, 0, 8, 1, 2, 3, 4, 5, 6, 7, 8] ∧
        codec.decodeObject (.verbatim (fun _ => .ok ()) fun _ => .error "no")
            (Cursor.ofBytes [0, 0, 0, 8, 1, 2, 3, 4, 5, 6, 7, 8]) =
          (.error (.capability "no"), (Cursor.ofBytes [0, 0, 0, 8, 1, 2, 3, 4, 5, 6, 7, 8]).toEnd) := by
  have usable : Codec.ofConfig ⟨8, 2, '|'⟩ = .ok ⟨⟨8, 2, '|'⟩, by decide⟩ := rfl
  obtain ⟨lists, typedLists, variantLists, objects⟩ := writes_what_it_accepts usable
  refine ⟨_, usable, ⟨rfl, (lists _).reads _ rfl⟩, ⟨rfl, (typedLists _ fun n _ => ?_).reads _ rfl⟩,
    ⟨rfl, (variantLists _ _).reads _ rfl⟩, rfl, ?_⟩
  · exact Element.lossless_int8 n
  · obtain ⟨payload, made, read⟩ :=
      objects (.verbatim (fun _ => .ok ()) fun _ => .error "no") [1, 2, 3, 4, 5, 6, 7, 8] _ rfl
    cases made
    exact read

end Codec

end Wireform
