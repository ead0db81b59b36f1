import Wireform.Proofs.Codec
import Wireform.Proofs.ListText.Shortest
/-! What a codec reads it can write again.

The text of a value is no longer than any text that the value is read from, and the
ordinal of a variant is no greater than any that it is read from. So the elements get no
longer, and with them their lengths and the whole payload; the frame that is written again
keeps every limit that the frame kept that was read.
-/

set_option autoImplicit false

namespace Wireform

open ListText (NoLonger)

namespace Element

/-- Whatever text a value is read from, its own text is no longer and reads back. -/
structure Shortens (α : Type) [Element α] : Prop where
  noLonger : ∀ (text : String) (value : α), ofText? text = some value →
    NoLonger (toText value).toList text.toList
  lossless : ∀ (text : String) (value : α), ofText? text = some value → Lossless value

theorem shortens_string : Shortens String where
  noLonger text value read := by
    cases read
    exact .refl _
  lossless _ value _ := lossless_string value

theorem boolText_of_bool? {text : String} {value : Bool} (read : bool? text = some value) :
    boolText value = text := by
  unfold bool? at read
  split at read
  · rename_i same
    cases read
    exact same.symm
  split at read
  · rename_i same
    cases read
    exact same.symm
  · cases read

theorem shortens_bool : Shortens Bool where
  noLonger text value read := by
    have same : toText value = text := boolText_of_bool? read
    rw [same]
    exact .refl _
  lossless _ value _ := lossless_bool value

theorem integer?_eq_some_iff {bits : Nat} {text : String} {n : Int} : integer? bits text = some n ↔
    Decimal.Denotes text.toList n ∧ -2 ^ (bits - 1) ≤ n ∧ n < 2 ^ (bits - 1) := by
  rw [integer?, Decimal.intWithin?_eq_some_iff, Int.le_sub_one_iff]

theorem noLonger_integerText {text : String} {n : Int} (denotes : Decimal.Denotes text.toList n) :
    NoLonger (integerText n).toList text.toList := by
  have le := denotes.length_intText_le
  rw [integerText, String.toList_ofList]
  refine ⟨le, ?_⟩
  rwa [ListText.utf8Size_intText, ListText.utf8Size_of_denotes denotes]

theorem noLonger_word {α : Type} {ofInt : Int → α} {toInt : α → Int} {bits : Nat} {text : String}
    {value : α} (same : ∀ n, -2 ^ (bits - 1) ≤ n → n < 2 ^ (bits - 1) → toInt (ofInt n) = n)
    (read : (integer? bits text).map ofInt = some value) :
    NoLonger (integerText (toInt value)).toList text.toList := by
  obtain ⟨n, numeral, rfl⟩ := Option.map_eq_some_iff.mp read
  obtain ⟨denotes, low, high⟩ := integer?_eq_some_iff.mp numeral
  rw [same n low high]
  exact noLonger_integerText denotes

theorem shortens_int8 : Shortens Int8 where
  noLonger _ _ read := noLonger_word (fun _ => Int8.toInt_ofInt_of_le) read
  lossless _ value _ := lossless_int8 value

theorem shortens_int16 : Shortens Int16 where
  noLonger _ _ read := noLonger_word (fun _ => Int16.toInt_ofInt_of_le) read
  lossless _ value _ := lossless_int16 value

theorem shortens_int32 : Shortens Int32 where
  noLonger _ _ read := noLonger_word (fun _ => Int32.toInt_ofInt_of_le) read
  lossless _ value _ := lossless_int32 value

theorem shortens_int64 : Shortens Int64 where
  noLonger _ _ read := noLonger_word (fun _ => Int64.toInt_ofInt_of_le) read
  lossless _ value _ := lossless_int64 value

theorem shortens_instant {α : Type} [Instant α] [LawfulInstant α] : Shortens α where
  noLonger text value read := by
    obtain ⟨millis, read, made⟩ := Option.bind_eq_some_iff.mp read
    have same := Instant.millis_of_ofMillis? made
    subst same
    exact noLonger_integerText (integer?_eq_some_iff.mp read).1
  lossless text value read := by
    obtain ⟨millis, _, made⟩ := Option.bind_eq_some_iff.mp read
    exact (Instant.lossless_iff value).mpr (.of_ofMillis? made)

end Element

/-- The ordinal of a variant is the first of those that it is read from. -/
theorem VariantTable.ordinal_of_variant {E : Type} [DecidableEq E] {table : VariantTable E}
    {variant : E} {read : Int32} (found : table.variant read = .ok variant) :
    ∃ index : Nat, index ≤ read.toInt ∧ table.ordinal variant = .ok (Int32.ofNat index) := by
  obtain ⟨index, same, here⟩ := variant?_eq_some_iff.mp (variant_eq_ok_iff.mp found)
  have below := read.toInt_lt
  obtain ⟨first, le, numbered, _⟩ := exists_ordinal?_of_getElem? here (by omega)
  exact ⟨first, by omega, ordinal_eq_ok_iff.mpr numbered⟩

namespace ListText

/-- Texts that are no longer than the elements that were cut up. -/
def Shorter (texts : List (Option String)) (items : List (Option Located)) : Prop :=
  List.Forall₂ (fun text item =>
    Option.Rel NoLonger (text.map String.toList) (item.map Located.content)) texts items

theorem shorter_self (items : List (Option Located)) :
    Shorter (items.map (·.map fun item => String.ofList item.content)) items := by
  refine List.forall₂_map_left_iff.mpr (List.forall₂_same.mpr fun item _ => ?_)
  have same : (item.map fun item => String.ofList item.content).map String.toList =
      item.map Located.content := by
    simp [Function.comp_def]
  rw [same]
  exact rel_noLonger_refl _

theorem Shorter.of_located {pre post : List Char} {spelling : Spelling} {texts : List (Option String)}
    (shorter : Shorter texts (spelling.located pre post)) :
    List.Forall₂ (fun content? piece => Option.Rel NoLonger content? piece.content?)
      (texts.map (·.map String.toList)) spelling.pieces := by
  have contents := Piece.content_locateAll pre post (utf8Size (spelling.count ++ pre)) spelling.pieces
  have paired : List.Forall₂ (Option.Rel NoLonger) (texts.map (·.map String.toList))
      ((spelling.located pre post).map (·.map Located.content)) :=
    List.forall₂_map_left_iff.mpr (List.forall₂_map_right_iff.mpr shorter)
  rw [Spelling.located, contents] at paired
  exact List.forall₂_map_right_iff.mp paired

theorem utf8ByteSize_write_le {pre written : String} {post : Option String} {spelling : Spelling}
    {texts : List (Option String)} (wrote : write texts pre post = .ok written)
    (wellFormed : spelling.WellFormed pre.toList)
    (shorter : Shorter texts (spelling.located pre.toList (post.getD "").toList)) :
    written.utf8ByteSize ≤ utf8Size (spelling.text pre.toList (post.getD "").toList) := by
  rw [utf8ByteSize_eq, toList_of_write wrote, Spelling.text_canonical]
  exact utf8Size_listText_le _ wellFormed shorter.of_located

section typed

variable {α : Type} [Element α]

theorem interpret_cases {item : Option Located} {value? : Option α}
    (read : interpret item = .ok value?) :
    (item = none ∧ value? = none) ∨ ∃ located value, item = some located ∧ value? = some value ∧
      Element.ofText? (String.ofList located.content) = some value := by
  unfold interpret at read
  split at read
  · cases read
    exact .inl ⟨rfl, rfl⟩
  split at read
  · cases read
    rename_i located _ value text
    exact .inr ⟨located, value, rfl, rfl, text⟩
  · cases read

theorem rel_noLonger_of_interpret {item : Option Located} {value? : Option α}
    (shortens : Element.Shortens α) (read : interpret item = .ok value?) :
    Option.Rel NoLonger ((value?.map Element.toText).map String.toList)
      (item.map Located.content) := by
  rcases interpret_cases read with ⟨rfl, rfl⟩ | ⟨located, value, rfl, rfl, text⟩
  · exact .none
  · have shorter := shortens.noLonger _ _ text
    rw [String.toList_ofList] at shorter
    exact .some shorter

theorem shorter_of_mapM_interpret {items : List (Option Located)} {values : List (Option α)}
    (shortens : Element.Shortens α) (read : items.mapM interpret = .ok values) :
    Shorter (values.map (·.map Element.toText)) items := by
  rw [Fault.mapM_eq_ok_iff] at read
  refine List.forall₂_map_left_iff.mpr (read.flip.imp fun value? item read => ?_)
  exact rel_noLonger_of_interpret shortens read

theorem lossless_of_mapM_interpret {items : List (Option Located)} {values : List (Option α)}
    (shortens : Element.Shortens α) (read : items.mapM interpret = .ok values) (value : α)
    (member : some value ∈ values) : Element.Lossless value := by
  rw [Fault.mapM_eq_ok_iff] at read
  induction read with
  | nil => cases member
  | cons here _ ih =>
    rcases List.mem_cons.mp member with rfl | later
    · rcases interpret_cases here with ⟨_, absent⟩ | ⟨_, _, _, same, text⟩
      · cases absent
      · cases same
        exact shortens.lossless _ _ text
    · exact ih later

end typed

end ListText

namespace ListFrame

open ListText (Shorter Located interpret)

variable {E : Type} [DecidableEq E] {table : VariantTable E}

theorem noLonger_ordinal {index : Nat} {read : Int32} (le : index ≤ read.toInt) :
    NoLonger (Element.toText (Int32.ofNat index)).toList (Element.toText read).toList := by
  have below := read.toInt_lt
  have same : (Int32.ofNat index).toInt = index := Int32.toInt_ofNat_of_lt (by omega)
  obtain ⟨n, number⟩ := Int.eq_ofNat_of_zero_le (Int.le_trans (Int.natCast_nonneg index) le)
  have digits : (Decimal.intText index).length ≤ (Decimal.intText n).length :=
    Decimal.length_natText_mono (by omega)
  show NoLonger (Element.integerText (Int32.ofNat index).toInt).toList
    (Element.integerText read.toInt).toList
  rw [same, number, Element.integerText, Element.integerText, String.toList_ofList,
    String.toList_ofList]
  refine ⟨digits, ?_⟩
  rwa [ListText.utf8Size_intText, ListText.utf8Size_intText]

theorem exists_ordinals {items : List (Option Located)} {numbers : List (Option Int32)}
    {list : List (Option E)} (read : items.mapM interpret = .ok numbers)
    (found : variants table numbers = .ok list) :
    ∃ firsts, ordinals table list = .ok firsts ∧
      Shorter (firsts.map (·.map Element.toText)) items := by
  rw [Fault.mapM_eq_ok_iff] at read
  rw [variants, Fault.mapM_eq_ok_iff] at found
  induction read generalizing list with
  | nil =>
    cases found
    exact ⟨[], rfl, .nil⟩
  | cons here _ ih =>
    cases found with
    | cons variant others =>
      obtain ⟨firsts, numbered, shorter⟩ := ih others
      rw [ordinals, Fault.mapM_eq_ok_iff] at numbered
      simp only [ordinals, Fault.mapM_eq_ok_iff]
      rcases ListText.interpret_cases here with ⟨rfl, rfl⟩ | ⟨located, number, rfl, rfl, text⟩
      · cases variant
        exact ⟨none :: firsts, .cons rfl numbered, .cons .none shorter⟩
      · obtain ⟨variant, entry, rfl⟩ := Fault.map_eq_ok_iff.mp variant
        obtain ⟨index, le, first⟩ := VariantTable.ordinal_of_variant entry
        have read := Element.shortens_int32.noLonger _ _ text
        rw [String.toList_ofList] at read
        exact ⟨some (Int32.ofNat index) :: firsts,
          .cons (Fault.map_eq_ok_iff.mpr ⟨_, first, rfl⟩) numbered,
          .cons (.some ((noLonger_ordinal le).trans read)) shorter⟩

end ListFrame

namespace Codec

variable {codec : Codec}

/-- What is read from a frame can be written again, in no more bytes, and then read back. -/
def Reemits {α : Type} (decoder : Decoder α) (encode : α → Except Fault Bytes) : Prop :=
  ∀ (cursor : Cursor) (n : Nat) (value : α), Frame.Declares cursor n →
    decoder.outcome cursor = .ok value →
    ∃ frame, encode value = .ok frame ∧ frame.length ≤ 4 + n ∧
      decoder (Cursor.ofBytes frame) = (.ok value, (Cursor.ofBytes frame).toEnd)

/-- A list whose texts are no longer than the elements in a payload is written where the
payload keeps the limits. -/
theorem exists_encodeList_of_shorter {payload : Bytes} {items : List (Option ListText.Located)}
    {texts : List (Option String)}
    (cut : ListFrame.cutUp codec.config.limits.list codec.separator payload = .ok items)
    (small : payload.length < 2 ^ 31) (within : payload.length ≤ codec.config.limits.frame)
    (shorter : ListText.Shorter texts items) :
    ∃ frame, codec.encodeList texts = .ok frame ∧ frame.length ≤ 4 + payload.length := by
  unfold ListFrame.cutUp at cut
  split at cut
  · cases cut
  rename_i text decoded
  obtain rfl := Utf8.encode_of_decode? decoded
  rw [Utf8.length_encode] at small within ⊢
  obtain ⟨spelling, wellFormed, count, whole, rfl⟩ := ListText.readLocated_eq_ok_iff.mp cut
  have single : codec.separator.toString.toList = [codec.separator] := by simp
  have nonempty : codec.separator.toString ≠ "" := by simp
  obtain ⟨written, wrote⟩ := ListText.exists_write nonempty none texts
  have le : written.utf8ByteSize ≤ text.utf8ByteSize := by
    rw [ListText.utf8ByteSize_eq text, ← whole]
    rw [← single] at wellFormed shorter ⊢
    exact ListText.utf8ByteSize_write_le wrote wellFormed shorter
  have fits := Frame.length?_eq_ok_iff.mpr ⟨Nat.lt_of_le_of_lt le small, rfl⟩
  have framed : Frame.encodeString (some written) = .ok _ :=
    Frame.encodeBytes_some_eq_ok_iff.mpr ⟨_, fits, rfl⟩
  have length := (Frame.length_of_encodeString framed).2
  refine ⟨_, encodeList_eq_ok_iff.mpr
    ⟨ListFrame.encode_eq_ok_iff.mpr ⟨written, wrote, framed⟩, ?_, ?_⟩, ?_⟩
  · rwa [shorter.of_located.length_eq.symm, List.length_map] at count
  · omega
  · omega

theorem exists_holds_of_outcome {α : Type} {content : Content α} {limits : Limits}
    {cursor : Cursor} {n : Nat} {value : α} (declares : Frame.Declares cursor n)
    (read : (content.decodeWithin limits).outcome cursor = .ok value) :
    ∃ payload, Frame.Holds cursor payload ∧ payload.length = n ∧ n ≤ limits.frame ∧
      content.present limits.list payload = .ok value := by
  rw [Decoder.outcome, content.decodeWithin_eq] at read
  rcases Nat.lt_or_ge limits.frame n with exceeding | within
  · obtain ⟨_, run⟩ := Frame.decodeAs_of_exceeding declares exceeding
    rw [run] at read
    cases read
  cases Frame.front cursor with
  | cut short => exact absurd declares.four_le (Nat.not_le.mpr short)
  | negative length below ahead =>
    obtain ⟨_, size, ahead'⟩ := declares
    cases FixedWidth.eq_of_ahead ahead ahead'
    omega
  | missing m other short =>
    cases declares.unique other
    obtain ⟨_, run⟩ := Frame.decodeAs_of_missing declares within short
    rw [run] at read
    cases read
  | whole payload holds =>
    cases declares.unique holds.declares
    obtain ⟨_, run⟩ := Frame.decodeAs_of_holds holds within
    rw [run] at read
    exact ⟨payload, holds, rfl, within, read⟩

theorem reemits_of_present {α : Type} (content : Content α) {encode : α → Except Fault Bytes}
    (again : ∀ (payload : Bytes) (value : α),
      content.present codec.config.limits.list payload = .ok value →
      ∃ items texts, ListFrame.cutUp codec.config.limits.list codec.separator payload = .ok items ∧
        ListText.Shorter texts items ∧ encode value = codec.encodeList texts ∧
        ∀ frame, encode value = .ok frame →
          Decoder.Reads (content.decodeWithin codec.config.limits) frame value) :
    Reemits (content.decodeWithin codec.config.limits) encode := by
  intro cursor n value declares read
  obtain ⟨payload, holds, rfl, within, present⟩ := exists_holds_of_outcome declares read
  obtain ⟨items, texts, cut, shorter, same, reads⟩ := again payload value present
  obtain ⟨frame, written, le⟩ :=
    exists_encodeList_of_shorter cut holds.declares.lt within shorter
  rw [← same] at written
  exact ⟨frame, written, le, (reads frame written).whole⟩

theorem reemits_list (codec : Codec) : Reemits codec.decodeList codec.encodeList := by
  refine reemits_of_present (.list codec.separator) fun payload list present => ?_
  obtain ⟨items, cut, made⟩ := Fault.bind_eq_ok_iff.mp present
  obtain rfl := Fault.pure_eq_ok_iff.mp made
  exact ⟨items, _, cut, ListText.shorter_self items, rfl, fun _ => decodeList_reads⟩

theorem reemits_typedList {α : Type} [Element α] (codec : Codec) (shortens : Element.Shortens α) :
    Reemits codec.decodeTypedList fun list : List (Option α) => codec.encodeTypedList list := by
  refine reemits_of_present (.typedList α codec.separator) fun payload list present => ?_
  obtain ⟨items, cut, read⟩ := Fault.bind_eq_ok_iff.mp present
  exact ⟨items, _, cut, ListText.shorter_of_mapM_interpret shortens read, codec.encodeTypedList_eq list,
    fun _ => decodeTypedList_reads (ListText.lossless_of_mapM_interpret shortens read)⟩

theorem reemits_variants {E : Type} [DecidableEq E] (codec : Codec) (table : VariantTable E) :
    Reemits (codec.decodeVariants table) (codec.encodeVariants table) := by
  refine reemits_of_present (.variantList table codec.separator)
    fun payload list present => ?_
  obtain ⟨items, cut, present⟩ := Fault.bind_eq_ok_iff.mp present
  obtain ⟨numbers, read, found⟩ := Fault.bind_eq_ok_iff.mp present
  obtain ⟨firsts, numbered, shorter⟩ := ListFrame.exists_ordinals read found
  refine ⟨items, _, cut, shorter, ?_, fun _ => decodeVariants_reads⟩
  rw [encodeVariants, numbered, ← encodeTypedList_eq]
  rfl

/-- Whatever list a codec reads from a frame that is not absent, it writes in a frame that is
no longer, and reads this frame as the same list. A variant may be read from any of the
ordinals that its table has for it. -/
theorem reemits_what_it_reads (codec : Codec) :
    Reemits codec.decodeList codec.encodeList ∧
    (Reemits codec.decodeTypedList fun list : List (Option Bool) => codec.encodeTypedList list) ∧
    (Reemits codec.decodeTypedList fun list : List (Option Int8) => codec.encodeTypedList list) ∧
    (Reemits codec.decodeTypedList fun list : List (Option Int16) => codec.encodeTypedList list) ∧
    (Reemits codec.decodeTypedList fun list : List (Option Int32) => codec.encodeTypedList list) ∧
    (Reemits codec.decodeTypedList fun list : List (Option Int64) => codec.encodeTypedList list) ∧
    (Reemits codec.decodeTypedList fun list : List (Option String) => codec.encodeTypedList list) ∧
    (Reemits codec.decodeTypedList fun list : List (Option Timestamp) =>
      codec.encodeTypedList list) ∧
    ∀ {E : Type} [DecidableEq E] (table : VariantTable E),
      Reemits (codec.decodeVariants table) (codec.encodeVariants table) :=
  ⟨codec.reemits_list, codec.reemits_typedList Element.shortens_bool,
    codec.reemits_typedList Element.shortens_int8, codec.reemits_typedList Element.shortens_int16,
    codec.reemits_typedList Element.shortens_int32, codec.reemits_typedList Element.shortens_int64,
    codec.reemits_typedList Element.shortens_string,
    codec.reemits_typedList Element.shortens_instant, codec.reemits_variants⟩

theorem reemits_signed_and_padded :
    (Codec.decodeTypedList ⟨⟨10, 1, '|'⟩, by decide⟩).outcome
        (Cursor.ofBytes ([0, 0, 0, 10] ++ Utf8.encode "01|+4|-007")) = .ok [some (-7 : Int8)] ∧
    ∃ frame, Codec.encodeTypedList ⟨⟨10, 1, '|'⟩, by decide⟩ [some (-7 : Int8)] = .ok frame ∧
      frame.length ≤ 14 ∧
      Codec.decodeTypedList ⟨⟨10, 1, '|'⟩, by decide⟩ (Cursor.ofBytes frame) =
        (.ok [some (-7 : Int8)], (Cursor.ofBytes frame).toEnd) := by
  have reads : (Codec.decodeTypedList ⟨⟨10, 1, '|'⟩, by decide⟩).outcome
      (Cursor.ofBytes ([0, 0, 0, 10] ++ Utf8.encode "01|+4|-007")) = .ok [some (-7 : Int8)] := by
    decide +kernel
  have declares : Frame.Declares
      (Cursor.ofBytes ([0, 0, 0, 10] ++ Utf8.encode "01|+4|-007")) 10 :=
    ⟨10, rfl, by decide +kernel⟩
  obtain ⟨_, _, int8, _⟩ := reemits_what_it_reads ⟨⟨10, 1, '|'⟩, by decide⟩
  exact ⟨reads, int8 _ 10 _ declares reads⟩

end Codec

end Wireform
