import Wireform.Proofs.Codec
/-! Objects in frames and as text.

The frames of objects are written and read apart from those of bytes, and the two are proved
to go together: they differ in what a negative length means and in what is made of a payload,
and in nothing else. As text a payload has one character per byte, so every text of such
characters is that of one payload, which is handed to the capability as if it had come in a
frame.
-/

set_option autoImplicit false

namespace Wireform.ObjectCodec

variable {α : Type} {codec : ObjectCodec α} {value : α} {payload : Bytes}

theorem encode_of_toBytes (made : codec.toBytes value = .ok payload) :
    codec.encode value = Frame.encodeBytes (some payload) := by
  rw [encode, ObjectCodec.payload, made]
  rfl

theorem encode_of_refused {text : String} (refused : codec.toBytes value = .error text) :
    codec.encode value = .error (.capability text) := by
  rw [encode, ObjectCodec.payload, refused]
  rfl

theorem decodeWithin_eq (codec : ObjectCodec α) (limit : Nat) : codec.decodeWithin limit =
    Frame.decodeAs limit (fun length => .error (.negativeLength length)) codec.value := rfl

/-- Objects, bytes and strings are framed alike. An object is written as the bytes that its
capability makes of it. The three readings of a frame end at the same place: they have the same
fault where the frame itself is at fault; a negative length is a fault of an object and stands
for absent bytes and an absent string; and of the bytes of a payload an object is what its
capability makes of them, and a string is the text that has them as its UTF-8, if one has. -/
theorem framed_as_bytes (codec : ObjectCodec α) :
    (∀ value, codec.encode value =
      match codec.toBytes value with
      | .ok payload => Frame.encodeBytes (some payload)
      | .error text => .error (.capability text)) ∧
    ∀ (start : Cursor) (limit : Nat), ∃ after : Cursor,
      (∃ fault : Fault, fault.OfFraming ∧
        Frame.decodeBytesWithin limit start = (.error fault, after) ∧
        codec.decodeWithin limit start = (.error fault, after) ∧
        Frame.decodeStringWithin limit start = (.error fault, after)) ∨
      (∃ length : Int32, length.toInt < 0 ∧ FixedWidth.encode length <+: start.unread ∧
        Frame.decodeBytesWithin limit start = (.ok none, after) ∧
        codec.decodeWithin limit start = (.error (.negativeLength length), after) ∧
        Frame.decodeStringWithin limit start = (.ok none, after)) ∨
      ∃ payload : Bytes, Frame.Holds start payload ∧
        Frame.decodeBytesWithin limit start = (.ok (some payload), after) ∧
        codec.decodeWithin limit start = ((codec.ofBytes payload).mapError .capability, after) ∧
        (∀ text, Utf8.encode text = payload →
          Frame.decodeStringWithin limit start = (.ok (some text), after)) ∧
        ((∀ text, Utf8.encode text ≠ payload) →
          Frame.decodeStringWithin limit start = (.error .invalidUtf8, after)) := by
  refine ⟨fun value => ?_, fun start limit => ?_⟩
  · cases made : codec.toBytes value with
    | ok payload => exact encode_of_toBytes made
    | error text => exact encode_of_refused made
  · rw [Frame.decodeBytesWithin_eq, Frame.decodeStringWithin_eq, decodeWithin_eq]
    cases Frame.framing limit start with
    | refused fault after framing run =>
      exact ⟨after, .inl ⟨fault, framing, run _ _, run _ _, run _ _⟩⟩
    | negative length after below ahead run =>
      exact ⟨after, .inr (.inl ⟨length, below, ahead, run _ _, run _ _, run _ _⟩)⟩
    | whole payload after holds run =>
      refine ⟨after, .inr (.inr ⟨payload, holds, run _ _, run _ _, fun text same => ?_,
        fun none => ?_⟩)⟩
      · rw [run, Frame.text_of_encode same]
      · rw [run, Frame.text_of_invalid none]

section text

variable {offset : Nat} {text : List Char} {c : Char} {byte : UInt8} {fault : Fault}

theorem toNat_latin1 (byte : UInt8) : (latin1 byte).toNat = byte.toNat := by
  have small := byte.toNat_lt
  have valid : byte.toNat.isValidChar := .inl (by omega)
  rw [latin1, Char.ofNat, dif_pos valid]
  rfl

theorem latin1_eq_iff (inside : c.toNat ≤ 0xFF) :
    latin1 byte = c ↔ byte = UInt8.ofNat c.toNat := by
  constructor
  · rintro rfl
    rw [toNat_latin1, UInt8.ofNat_toNat]
  · rintro rfl
    have same : (UInt8.ofNat c.toNat).toNat = c.toNat :=
      UInt8.toNat_ofNat_of_lt' (Nat.lt_succ_of_le inside)
    rw [latin1, same, Char.ofNat_toNat]

theorem bytesOfLatin1_eq_ok_iff :
    bytesOfLatin1 offset text = .ok payload ↔ payload.map latin1 = text := by
  induction text generalizing offset payload with
  | nil =>
    rw [bytesOfLatin1, Except.ok.injEq, List.map_eq_nil_iff]
    exact eq_comm
  | cons c rest ih =>
    rw [bytesOfLatin1, List.map_eq_cons_iff]
    split
    · rename_i outside
      simp only [reduceCtorEq, false_iff]
      rintro ⟨byte, _, _, rfl, _⟩
      have small := byte.toNat_lt
      rw [toNat_latin1] at outside
      omega
    · rename_i inside
      simp only [Fault.bind_eq_ok_iff, Fault.pure_eq_ok_iff, ih, latin1_eq_iff (Nat.not_lt.mp inside)]
      constructor
      · rintro ⟨bytes, later, rfl⟩
        exact ⟨_, bytes, rfl, rfl, later⟩
      · rintro ⟨_, bytes, rfl, rfl, later⟩
        exact ⟨bytes, later, rfl⟩

/-- Another text is refused for its first character that is no byte. -/
theorem bytesOfLatin1_eq_error_iff : bytesOfLatin1 offset text = .error fault ↔
    ∃ before c behind, text = before ++ c :: behind ∧ (∀ b ∈ before, b.toNat ≤ 0xFF) ∧
      0xFF < c.toNat ∧
      fault = .malformedText (offset + ListText.utf8Size before) .outsideLatin1 := by
  -- The offset is that of the text that is left, so it grows along the induction.
  induction text generalizing offset with
  | nil => simp [bytesOfLatin1]
  | cons c rest ih =>
    rw [bytesOfLatin1]
    split
    · rename_i outside
      rw [Except.error.injEq]
      constructor
      · rintro rfl
        exact ⟨[], c, rest, rfl, by simp, outside, rfl⟩
      · rintro ⟨before, d, behind, same, inside, _, rfl⟩
        cases before with
        | nil => rfl
        | cons b before =>
          cases same
          exact absurd (inside c List.mem_cons_self) (Nat.not_le.mpr outside)
    · rename_i inside
      simp only [Fault.bind_eq_error_iff, ih]
      constructor
      · rintro (⟨before, d, behind, rfl, others, outside, rfl⟩ | ⟨_, _, done⟩)
        · refine ⟨c :: before, d, behind, rfl, ?_, outside, ?_⟩
          · exact List.forall_mem_cons.mpr ⟨Nat.not_lt.mp inside, others⟩
          · rw [ListText.utf8Size, Nat.add_assoc]
        · cases done
      · rintro ⟨before, d, behind, same, others, outside, rfl⟩
        cases before with
        | nil =>
          cases same
          exact absurd outside inside
        | cons b before =>
          cases same
          refine .inl ⟨before, d, behind, rfl, (List.forall_mem_cons.mp others).2, outside, ?_⟩
          rw [ListText.utf8Size, Nat.add_assoc]

theorem utf8Size_of_byte (inside : c.toNat ≤ 0xFF) :
    c.utf8Size = 1 + if 0x80 ≤ c.toNat then 1 else 0 := by
  have code : c.val.toNat = c.toNat := rfl
  have one : (0x7F : UInt32).toNat = 0x7F := rfl
  have two : (0x7FF : UInt32).toNat = 0x7FF := rfl
  split
  · refine Char.utf8Size_eq_two_iff.mpr ?_
    rw [UInt32.lt_iff_toNat_lt, UInt32.le_iff_toNat_le]
    omega
  · refine Char.utf8Size_eq_one_iff.mpr ?_
    rw [UInt32.le_iff_toNat_le]
    omega

theorem utf8Size_of_bytes (inside : ∀ c ∈ text, c.toNat ≤ 0xFF) :
    ListText.utf8Size text = text.length + text.countP (0x80 ≤ ·.toNat) := by
  induction text with
  | nil => rfl
  | cons c rest ih =>
    obtain ⟨here, others⟩ := List.forall_mem_cons.mp inside
    rw [ListText.utf8Size, utf8Size_of_byte here, ih others, List.length_cons, List.countP_cons]
    simp only [decide_eq_true_eq]
    omega

theorem toText_of_toBytes (made : codec.toBytes value = .ok payload) :
    codec.toText value = .ok (String.ofList (payload.map latin1)) := by
  rw [toText, ObjectCodec.payload, made]
  rfl

theorem ofText_of_payload {text : String} (codec : ObjectCodec α)
    (same : payload.map latin1 = text.toList) : codec.ofText text = codec.value payload := by
  rw [ofText, bytesOfLatin1_eq_ok_iff.mpr same]
  rfl

theorem ofText_of_outside {text : String} (codec : ObjectCodec α)
    (refused : bytesOfLatin1 0 text.toList = .error fault) : codec.ofText text = .error fault := by
  rw [ofText, refused]
  rfl

theorem exists_payload_iff :
    (∃ payload : Bytes, payload.map latin1 = text) ↔ ∀ c ∈ text, c.toNat ≤ 0xFF := by
  constructor
  · rintro ⟨payload, rfl⟩ c member
    obtain ⟨byte, _, rfl⟩ := List.mem_map.mp member
    have small := byte.toNat_lt
    rw [toNat_latin1]
    omega
  · intro inside
    cases read : bytesOfLatin1 0 text with
    | ok payload => exact ⟨payload, bytesOfLatin1_eq_ok_iff.mp read⟩
    | error fault =>
      obtain ⟨before, c, behind, rfl, _, outside, _⟩ := bytesOfLatin1_eq_error_iff.mp read
      exact absurd (inside c (by simp)) (Nat.not_le.mpr outside)

theorem payload_unique {other : Bytes} (same : payload.map latin1 = text)
    (same' : other.map latin1 = text) : other = payload := by
  have read : bytesOfLatin1 0 text = .ok payload := bytesOfLatin1_eq_ok_iff.mpr same
  exact Except.ok.inj ((bytesOfLatin1_eq_ok_iff.mpr same').symm.trans read)

end text

/-- The text of an object and its frame carry the same payload: where one can be written the
other can, and both are read as the capability reads the payload. A text whose characters are
all bytes is that of just one payload, and this the capability is handed; what it reads as
itself is written as the same text. Any other text is refused at its first character that is
no byte, by whatever capability, and the bytes before it are counted from the characters. -/
theorem text_carries_payload :
    (∀ {α : Type} (codec : ObjectCodec α) (value : α) (payload : Bytes),
      codec.toBytes value = .ok payload → payload.length < 2 ^ 31 →
        ∃ text frame, codec.toText value = .ok text ∧ codec.encode value = .ok frame ∧
          codec.ofText text = (codec.ofBytes payload).mapError .capability ∧
          codec.decode (Cursor.ofBytes frame) =
            ((codec.ofBytes payload).mapError .capability, (Cursor.ofBytes frame).toEnd)) ∧
    ∀ text : String,
      ((∀ c ∈ text.toList, c.toNat ≤ 0xFF) → ∃ payload : Bytes,
        payload.map latin1 = text.toList ∧
        (∀ other : Bytes, other.map latin1 = text.toList → other = payload) ∧
        (∀ {α : Type} (codec : ObjectCodec α),
          codec.ofText text = (codec.ofBytes payload).mapError .capability) ∧
        ∀ codec : ObjectCodec Bytes, codec.ofBytes payload = .ok payload →
          codec.toBytes payload = .ok payload →
            (codec.ofText text >>= codec.toText) = .ok text) ∧
      ((∃ c ∈ text.toList, 0xFF < c.toNat) → ∃ before c behind,
        text.toList = before ++ c :: behind ∧ (∀ b ∈ before, b.toNat ≤ 0xFF) ∧ 0xFF < c.toNat ∧
        (String.ofList before).utf8ByteSize = before.length + before.countP (0x80 ≤ ·.toNat) ∧
        ∀ {α : Type} (codec : ObjectCodec α), codec.ofText text =
          .error (.malformedText (String.ofList before).utf8ByteSize .outsideLatin1)) := by
  refine ⟨fun codec value payload made small => ?_, fun text => ⟨fun inside => ?_, ?_⟩⟩
  · have framed := Frame.encodeBytes_some_eq_ok_iff.mpr
      ⟨_, Frame.length?_eq_ok_iff.mpr ⟨small, rfl⟩, rfl⟩
    have within : payload.length ≤ Limits.unbounded.frame := by
      simp only [Limits.unbounded]
      omega
    exact ⟨_, _, toText_of_toBytes made, (encode_of_toBytes made).trans framed,
      codec.ofText_of_payload String.toList_ofList.symm, decodeWithin_of_encodeBytes framed within⟩
  · obtain ⟨payload, same⟩ := exists_payload_iff.mpr inside
    refine ⟨payload, same, fun other => payload_unique same,
      fun codec => codec.ofText_of_payload same, fun codec read written => ?_⟩
    have value : codec.ofText text = .ok payload := by
      rw [codec.ofText_of_payload same, ObjectCodec.value, read]
      rfl
    have whole : codec.toText payload = .ok text := by
      rw [toText_of_toBytes written, same, String.ofList_toList]
    exact Fault.bind_eq_ok_iff.mpr ⟨payload, value, whole⟩
  · rintro ⟨c, member, outside⟩
    cases read : bytesOfLatin1 0 text.toList with
    | ok payload =>
      have inside := exists_payload_iff.mp ⟨payload, bytesOfLatin1_eq_ok_iff.mp read⟩
      exact absurd (inside c member) (Nat.not_le.mpr outside)
    | error fault =>
      obtain ⟨before, d, behind, whole, inside, first, rfl⟩ := bytesOfLatin1_eq_error_iff.mp read
      rw [Nat.zero_add, ← ListText.utf8ByteSize_ofList] at read
      refine ⟨before, d, behind, whole, inside, first, ?_, fun codec => codec.ofText_of_outside read⟩
      rw [ListText.utf8ByteSize_ofList, utf8Size_of_bytes inside]

theorem text_carries_payload_two_bytes :
    ((verbatim (fun _ => .ok ()) fun _ => .ok ()).ofText "éA" >>=
        (verbatim (fun _ => .ok ()) fun _ => .ok ()).toText) = .ok "éA" ∧
      (∃ text frame, (verbatim (fun _ => .ok ()) fun _ => .error "no").toText [0xE9, 0x41] = .ok text ∧
        (verbatim (fun _ => .ok ()) fun _ => .error "no").encode [0xE9, 0x41] = .ok frame ∧
        (verbatim (fun _ => .ok ()) fun _ => .error "no").ofText text = .error (.capability "no") ∧
        (verbatim (fun _ => .ok ()) fun _ => .error "no").decode (Cursor.ofBytes frame) =
          (.error (.capability "no"), (Cursor.ofBytes frame).toEnd)) ∧
      (verbatim (fun _ => .ok ()) fun _ => .ok ()).ofText "é€" =
        .error (.malformedText 2 .outsideLatin1) := by
  refine ⟨?_, text_carries_payload.1 _ _ [0xE9, 0x41] rfl (by decide), ?_⟩
  · obtain ⟨payload, _, _, _, restored⟩ := (text_carries_payload.2 "éA").1 (by simp)
    exact restored _ rfl rfl
  · obtain ⟨before, c, behind, whole, inside, outside, _, refused⟩ :=
      (text_carries_payload.2 "é€").2 ⟨'€', by decide, by decide⟩
    rw [refused]
    cases before with
    | nil =>
      cases whole
      exact absurd outside (by decide)
    | cons b rest =>
      cases rest with
      | nil =>
        cases whole
        rfl
      | cons d rest =>
        have length : 2 = rest.length + (behind.length + 1) + 1 + 1 := by
          simpa using congrArg List.length whole
        omega

end Wireform.ObjectCodec
