import Wireform.Config
import Wireform.ListFrame
import Wireform.Proofs.Element
import Wireform.Proofs.Interpretation
import Wireform.Proofs.ListText.Size
/-! Lists in frames read back.

A separator that is not ambiguous loses no list that fits a frame, and an
ambiguous one already loses a list of one element. The main statement says both of
list text and of frames.
-/

set_option autoImplicit false

namespace Wireform

theorem Frame.length_of_encodeString {text : String} {frame : Bytes}
    (encoded : encodeString (some text) = .ok frame) :
    text.utf8ByteSize < 2 ^ 31 ∧ frame.length = text.utf8ByteSize + 4 :=
  length_of_encodeBytes encoded

theorem Frame.decodeStringWithin_reads_some {text : String} {frame : Bytes} {limit : Nat}
    (encoded : encodeString (some text) = .ok frame) (within : frame.length - 4 ≤ limit) :
    Decoder.Reads (decodeStringWithin limit) frame (some text) := by
  refine decodeStringWithin_reads encoded fun text' same => ?_
  cases same
  rwa [(length_of_encodeString encoded).2, Nat.add_sub_cancel] at within

namespace ListFrame

open ListText (Ambiguous Fits)

variable {list : List (Option String)} {separator : Char} {frame : Bytes} {limits : Limits}

theorem encode_eq_ok_iff : encode list separator = .ok frame ↔
    ∃ text, ListText.write list separator.toString none = .ok text ∧
      Frame.encodeString (some text) = .ok frame :=
  Fault.bind_eq_ok_iff

/-- A list is refused for its size alone. -/
theorem encode_only (list : List (Option String)) (separator : Char) :
    Fault.Only (fun fault => ∃ n, 2 ^ 31 ≤ n ∧ fault = .lengthOverflow n)
      (encode list separator) := by
  intro fault failed
  have nonempty : separator.toString ≠ "" := by simp
  obtain ⟨text, written⟩ := ListText.exists_write nonempty none list
  rcases Fault.bind_eq_error_iff.mp failed with unwritten | ⟨_, _, overflow⟩
  · cases written.symm.trans unwritten
  · rcases Fault.bind_eq_error_iff.mp overflow with overflow | ⟨_, _, done⟩
    · unfold Frame.length? at overflow
      split at overflow
      · cases overflow
      · rename_i exceeding
        cases overflow
        exact ⟨_, Nat.not_lt.mp exceeding, rfl⟩
    · cases done

theorem within_unbounded (encoded : encode list separator = .ok frame) :
    list.length ≤ Limits.unbounded.list ∧ frame.length - 4 ≤ Limits.unbounded.frame := by
  obtain ⟨text, written, framed⟩ := encode_eq_ok_iff.mp encoded
  obtain ⟨small, length⟩ := Frame.length_of_encodeString framed
  have count := (ListText.fits_of_write written (by omega)).count
  simp only [Limits.unbounded]
  omega

theorem encode_located (clear : ¬ Ambiguous [separator])
    (encoded : encode list separator = .ok frame) (count : list.length ≤ limits.list)
    (bytes : frame.length - 4 ≤ limits.frame) :
    ∃ text items, Decoder.Reads (Frame.decodeStringWithin limits.frame) frame (some text) ∧
      ListText.readLocated limits.list separator.toString.toList [] text.toList = .ok items ∧
      items.map (·.map fun item => String.ofList item.content) = list := by
  obtain ⟨text, written, framed⟩ := encode_eq_ok_iff.mp encoded
  have small := (Frame.length_of_encodeString framed).1
  have fits := ListText.fits_of_write written (by omega)
  have wellFormed := ListText.wellFormed_canonical clear fits
  obtain ⟨items, located, contents⟩ :=
    ListText.readLocated_write written (by simpa using wellFormed) count
  exact ⟨text, items, Frame.decodeStringWithin_reads_some framed bytes, located, contents⟩

theorem decodeWithin_reads (clear : ¬ Ambiguous [separator])
    (encoded : encode list separator = .ok frame) (count : list.length ≤ limits.list)
    (bytes : frame.length - 4 ≤ limits.frame) :
    Decoder.Reads (decodeWithin limits separator) frame list := by
  obtain ⟨text, items, reads, located, contents⟩ := encode_located clear encoded count bytes
  refine reads.map ?_
  have read : ListText.readWithin limits.list text separator.toString none = .ok list :=
    Fault.bind_eq_ok_iff.mpr ⟨items, located, congrArg Except.ok contents⟩
  dsimp only
  rw [read]
  exact Decoder.reads_ofExcept list

section typed

variable {α : Type} [Element α] {list : List (Option α)}

/-- A list reads back as what is made of the texts of its values. -/
theorem decodeTypedWithin_reads_made (clear : ¬ Ambiguous [separator])
    (made : ∀ value, some value ∈ list → (Element.ofText? (Element.toText value) : Option α).isSome)
    (encoded : encodeTyped list separator = .ok frame) (count : list.length ≤ limits.list)
    (bytes : frame.length - 4 ≤ limits.frame) :
    Decoder.Reads (decodeTypedWithin limits separator) frame
      (list.map (·.bind fun value => (Element.ofText? (Element.toText value) : Option α))) := by
  obtain ⟨text, items, reads, located, contents⟩ :=
    encode_located clear encoded (by rwa [List.length_map]) bytes
  refine reads.map ?_
  have read : ListText.readTypedWithin limits.list text separator.toString none =
      .ok (list.map (·.bind fun value => (Element.ofText? (Element.toText value) : Option α))) := by
    refine Fault.bind_eq_ok_iff.mpr
      ⟨items, located, (ListText.mapM_interpret_eq_ok_iff contents).mpr ⟨fun string member => ?_, ?_⟩⟩
    · obtain ⟨element, inside, present⟩ := List.mem_map.mp member
      obtain ⟨value, rfl, rfl⟩ := Option.map_eq_some_iff.mp present
      exact made value inside
    · simp [List.map_map, Function.comp_def, Option.bind_map]
  dsimp only
  rw [read]
  exact Decoder.reads_ofExcept _

theorem decodeTypedWithin_of_refused {cursor : Cursor} {rest : Bytes} {value : α}
    (clear : ¬ Ambiguous [separator]) (member : some value ∈ list)
    (refused : (Element.ofText? (Element.toText value) : Option α) = none)
    (encoded : encodeTyped list separator = .ok frame) (count : list.length ≤ limits.list)
    (bytes : frame.length - 4 ≤ limits.frame) (ahead : cursor.unread = frame ++ rest) :
    ∃ offset fits, (decodeTypedWithin limits separator : Decoder (List (Option α))) cursor =
      (.error (.malformedText offset .elementUnreadable), cursor.skip frame.length fits) := by
  obtain ⟨text, items, reads, located, contents⟩ :=
    encode_located clear encoded (by rwa [List.length_map]) bytes
  obtain ⟨fits, run⟩ := reads cursor rest ahead
  cases result : (items.mapM ListText.interpret : Except Fault (List (Option α))) with
  | ok values =>
    have all := ((ListText.mapM_interpret_eq_ok_iff contents).mp result).1
    have made := all _ (List.mem_map.mpr ⟨some value, member, rfl⟩)
    rw [refused] at made
    cases made
  | error fault =>
    have first := result
    rw [ListText.interpret_eq_attempt, mapM_attempt_eq_error_iff] at first
    obtain ⟨_, item, _, rfl⟩ := first
    refine ⟨item.offset, fits, ?_⟩
    rw [decodeTypedWithin, Decoder.bind_of_ok run]
    have read : ListText.readTypedWithin limits.list text separator.toString none = .error _ :=
      Fault.bind_eq_error_iff.mpr (.inr ⟨items, located, result⟩)
    dsimp only
    rw [read]
    rfl

theorem decodeTypedWithin_reads (clear : ¬ Ambiguous [separator])
    (lossless : ∀ value, some value ∈ list → Element.Lossless value)
    (encoded : encodeTyped list separator = .ok frame) (count : list.length ≤ limits.list)
    (bytes : frame.length - 4 ≤ limits.frame) :
    Decoder.Reads (decodeTypedWithin limits separator) frame list := by
  have same :
      list.map (·.bind fun value => (Element.ofText? (Element.toText value) : Option α)) = list := by
    refine (List.map_congr_left fun element member => ?_).trans list.map_id
    cases element with
    | none => rfl
    | some value => exact lossless value member
  have reads := decodeTypedWithin_reads_made clear (fun value member =>
    Option.isSome_iff_exists.mpr ⟨value, lossless value member⟩) encoded count bytes
  rwa [same] at reads

end typed

theorem decodeVariantsWithin_ends {E : Type} {table : VariantTable E}
    {numbers : List (Option Int32)} (clear : ¬ Ambiguous [separator])
    (encoded : encodeTyped numbers separator = .ok frame) (count : numbers.length ≤ limits.list)
    (bytes : frame.length - 4 ≤ limits.frame) :
    Decoder.Ends (decodeVariantsWithin table limits separator) frame (variants table numbers) := by
  have lossless : ∀ n, some n ∈ numbers → Element.Lossless n := fun n _ => Element.lossless_int32 n
  exact (decodeTypedWithin_reads clear lossless encoded count bytes).map_ends
    (Decoder.ends_ofExcept _)

section variants

variable {E : Type} [DecidableEq E] {table : VariantTable E} {list : List (Option E)}

theorem length_ordinals {numbers : List (Option Int32)}
    (numbered : ordinals table list = .ok numbers) : numbers.length = list.length :=
  (Fault.mapM_eq_ok_iff.mp numbered).length_eq.symm

theorem variants_of_ordinals {numbers : List (Option Int32)}
    (numbered : ordinals table list = .ok numbers) : variants table numbers = .ok list := by
  rw [ordinals, Fault.mapM_eq_ok_iff] at numbered
  rw [variants, Fault.mapM_eq_ok_iff]
  refine numbered.flip.imp fun number variant same => ?_
  cases variant with
  | none =>
    cases same
    rfl
  | some variant =>
    obtain ⟨ordinal, found, rfl⟩ := Fault.map_eq_ok_iff.mp same
    exact Fault.map_eq_ok_iff.mpr ⟨variant, VariantTable.variant_of_ordinal found, rfl⟩

theorem decodeVariantsWithin_reads (clear : ¬ Ambiguous [separator])
    (encoded : encodeVariants table list separator = .ok frame) (count : list.length ≤ limits.list)
    (bytes : frame.length - 4 ≤ limits.frame) :
    Decoder.Reads (decodeVariantsWithin table limits separator) frame list := by
  obtain ⟨numbers, numbered, encoded⟩ := Fault.bind_eq_ok_iff.mp encoded
  have within : numbers.length ≤ limits.list := length_ordinals numbered ▸ count
  rw [Decoder.Reads, ← variants_of_ordinals numbered]
  exact decodeVariantsWithin_ends clear encoded within bytes

/-- What is written under one table is ordinals to a reader, who may have another one. -/
theorem decodeVariants_ends (reader : VariantTable E) (clear : ¬ Ambiguous [separator])
    (encoded : encodeVariants table list separator = .ok frame) :
    ∃ numbers, ordinals table list = .ok numbers ∧
      Decoder.Ends (decodeVariants reader separator) frame (variants reader numbers) := by
  obtain ⟨numbers, numbered, encoded⟩ := Fault.bind_eq_ok_iff.mp encoded
  obtain ⟨count, bytes⟩ := within_unbounded encoded
  rw [List.length_map] at count
  exact ⟨numbers, numbered, decodeVariantsWithin_ends clear encoded count bytes⟩

theorem decodeVariants_reads (clear : ¬ Ambiguous [separator])
    (encoded : encodeVariants table list separator = .ok frame) :
    Decoder.Reads (decodeVariants table separator) frame list := by
  obtain ⟨numbers, numbered, ends⟩ := decodeVariants_ends table clear encoded
  rwa [variants_of_ordinals numbered] at ends

end variants

theorem length_listText_misread {c : Char} (ambiguous : Ambiguous [c]) :
    (ListText.listText [c] [] ((ListText.misread [c]).map (·.map String.toList))).length ≤ 24 := by
  have one : Decimal.intText 1 = ['1'] := rfl
  have minusOne : Decimal.intText (-1) = ['-', '1'] := rfl
  rcases ListText.misread_cases ambiguous with ⟨digits, same⟩ | ⟨_, same⟩
  · have numeral := Decimal.natText_ofDigitChars digits Nat.one_pos
    obtain ⟨d, small, rfl⟩ := Decimal.exists_digitChar (digits c (List.mem_singleton.mpr rfl))
    rw [Nat.ofDigitChars_cons_digitChar_of_lt_ten small, Nat.ofDigitChars_nil] at same numeral
    have length : Decimal.intText (10 + d) = ['1', d.digitChar] := numeral
    have written : ListText.listText [d.digitChar] []
        ((ListText.misread [d.digitChar]).map (·.map String.toList)) =
          ['1', d.digitChar, '1', d.digitChar, d.digitChar] ++ List.replicate (10 + d) 'a' := by
      simp [same, ListText.listText, ListText.elementText, ListText.numberField, one, length]
    rw [written, List.length_append, List.length_replicate]
    simp only [List.length_cons, List.length_nil]
    omega
  · have written : ListText.listText [c] [] ((ListText.misread [c]).map (·.map String.toList)) =
        ['1', c, '-', '1', c] := by
      simp [same, ListText.listText, ListText.elementText, ListText.numberField, one, minusOne]
    rw [written]
    exact Nat.le_of_ble_eq_true rfl

theorem exists_encode_misread (ambiguous : Ambiguous [separator]) :
    ∃ frame, encode (ListText.misread [separator]) separator = .ok frame := by
  have nonempty : separator.toString ≠ "" := by simp
  obtain ⟨text, written⟩ := ListText.exists_write nonempty none (ListText.misread [separator])
  have whole := ListText.toList_of_write written
  rw [ListText.Spelling.text_canonical] at whole
  have size := ListText.utf8Size_le text.toList
  have length : text.toList.length ≤ 24 := by
    rw [whole]
    simpa using length_listText_misread ambiguous
  rw [← ListText.utf8ByteSize_ofList, String.ofList_toList] at size
  have small : (Utf8.encode text).length < 2 ^ 31 := by
    rw [Utf8.length_encode]
    omega
  have fits := Frame.length?_eq_ok_iff.mpr ⟨small, rfl⟩
  have framed := Frame.encodeBytes_some_eq_ok_iff.mpr ⟨_, fits, rfl⟩
  exact ⟨_, encode_eq_ok_iff.mpr ⟨text, written, framed⟩⟩

theorem decode_misread_ne (ambiguous : Ambiguous [separator])
    (encoded : encode (ListText.misread [separator]) separator = .ok frame) :
    (decode separator).outcome (Cursor.ofBytes frame) ≠ .ok (ListText.misread [separator]) := by
  obtain ⟨text, written, framed⟩ := encode_eq_ok_iff.mp encoded
  have within := (within_unbounded encoded).2
  obtain ⟨_, run⟩ := Frame.decodeStringWithin_reads_some framed within (Cursor.ofBytes frame) []
    (by simp)
  have outcome : (decode separator).outcome (Cursor.ofBytes frame) =
      ListText.readWithin Limits.unbounded.list text separator.toString none := by
    rw [Decoder.outcome, decode, decodeWithin, Decoder.bind_of_ok run]
    rfl
  rw [outcome]
  have single : separator.toString.toList = [separator] := by simp
  rw [← single] at ambiguous written ⊢
  exact ListText.readWithin_misread_ne (by simp) ambiguous written

theorem exists_validate_iff : (∃ config : Config, config.listSeparator = separator ∧
    config.validate = .ok config) ↔ separator.isDigit = false ∧ separator ≠ '-' := by
  constructor
  · rintro ⟨config, rfl, accepted⟩
    rw [Config.validate_eq_ok_iff, Config.fault?_eq_none_iff] at accepted
    exact accepted.2.2.2
  · intro clear
    refine ⟨⟨1, 1, separator⟩, rfl, ?_⟩
    rw [Config.validate_eq_ok_iff, Config.fault?_eq_none_iff]
    exact ⟨Nat.one_pos, Nat.one_lt_two_pow (by decide), Nat.one_pos, clear⟩

theorem clear_iff : ¬ Ambiguous [separator] ↔ separator.isDigit = false ∧ separator ≠ '-' := by
  rw [ListText.ambiguous_singleton, not_or, Bool.not_eq_true]

/-- Which separators lose nothing. In texts these are all but the ambiguous ones; in
frames they are those that a configuration may have. -/
theorem lossless_iff_clear :
    (∀ (pre : String) (post : Option String) (list : List (Option String)),
      ¬ Ambiguous pre.toList → Fits list →
        ∃ text, ListText.write list pre post = .ok text ∧ ListText.read text pre post = .ok list) ∧
    (∀ (pre : String) (post : Option String),
      pre ≠ "" → Ambiguous pre.toList → pre.length ≤ 15 →
        ∃ list text, Fits list ∧ ListText.write list pre post = .ok text ∧
          ListText.read text pre post ≠ .ok list) ∧
    ∀ separator : Char,
      ((∀ list frame, encode list separator = .ok frame →
          (decode separator).outcome (Cursor.ofBytes frame) = .ok list) ↔
        ∃ config : Config, config.listSeparator = separator ∧ config.validate = .ok config) ∧
      ((∃ config : Config, config.listSeparator = separator ∧ config.validate = .ok config) ↔
        separator.isDigit = false ∧ separator ≠ '-') := by
  refine ⟨fun pre post list clear fits => ?_, fun pre post nonempty ambiguous short => ?_,
    fun separator => ⟨?_, exists_validate_iff⟩⟩
  · obtain ⟨text, written⟩ := ListText.exists_write (ListText.nonempty_of_clear clear) post list
    have count := fits.count
    have within : list.length ≤ Limits.unbounded.list := by
      simp only [Limits.unbounded]
      omega
    exact ⟨text, written, ListText.readWithin_of_clear clear fits within written⟩
  · obtain ⟨text, written⟩ := ListText.exists_write nonempty post (ListText.misread pre.toList)
    exact ⟨_, text, ListText.fits_misread ambiguous (by rwa [String.length_toList]), written,
      ListText.readWithin_misread_ne nonempty ambiguous written⟩
  · rw [exists_validate_iff, ← clear_iff]
    constructor
    · intro lossless ambiguous
      obtain ⟨frame, encoded⟩ := exists_encode_misread ambiguous
      exact decode_misread_ne ambiguous encoded (lossless _ frame encoded)
    · intro clear list frame encoded
      obtain ⟨count, bytes⟩ := within_unbounded encoded
      obtain ⟨_, run⟩ := decodeWithin_reads clear encoded count bytes (Cursor.ofBytes frame) []
        (by simp)
      rw [Decoder.outcome, decode, run]

/-- A separator that starts with a digit may be clear, and one of several characters
ambiguous. -/
theorem lossless_one_comma_and_minus_one_minus :
    (∃ text, ListText.write [some "1,", none] "1," (some "-1") = .ok text ∧
        ListText.read text "1," (some "-1") = .ok [some "1,", none]) ∧
      ∃ list text, Fits list ∧ ListText.write list "-1-" none = .ok text ∧
        ListText.read text "-1-" none ≠ .ok list := by
  have clear : ¬ Ambiguous "1,".toList := by
    rintro (digits | ⟨n, repeated⟩)
    · exact absurd (digits ',' (by decide)) (by decide)
    · exact absurd (ListText.mem_of_prefix_replicate repeated (c := ',') (by decide)) (by decide)
  have fits : Fits [some "1,", none] := by
    refine ⟨by decide, fun text member => ?_⟩
    obtain rfl : text = "1," := by simpa using member
    decide
  exact ⟨lossless_iff_clear.1 "1," (some "-1") _ clear fits,
    lossless_iff_clear.2.1 "-1-" none (by decide) (.inr ⟨2, by decide⟩) (by decide)⟩

end ListFrame

end Wireform
