import Wireform.ListFrame
import Wireform.Object
import Wireform.Proofs.Frame
import Wireform.Proofs.ListText.Limit
/-! What the payload of a frame is read as.

`Content` lists the readings of a payload. Each decoder of sized fields reads a frame
and then its payload (`Content.decodeWithin_eq`), and the limit on lists matters to
the payload alone. `Content.Refusal` says which faults a payload can have.
-/

set_option autoImplicit false

namespace Wireform

namespace ListFrame

/-- The elements in a payload, each with the place of its length. -/
def cutUp (limit : Nat) (separator : Char) (payload : Bytes) :
    Except Fault (List (Option ListText.Located)) :=
  match Utf8.decode? payload with
  | none => .error .invalidUtf8
  | some text => ListText.readLocated limit [separator] [] text.toList

def Counts (separator : Char) (payload : Bytes) (declared : Nat) : Prop :=
  ∃ text, Utf8.decode? payload = some text ∧ ListText.Counts [separator] text.toList declared

variable {separator : Char} {payload : Bytes}

theorem cutUp_of_exceeding {limit declared : Nat} (counts : Counts separator payload declared)
    (exceeding : limit < declared) :
    cutUp limit separator payload = .error (.listTooLong declared limit) := by
  obtain ⟨text, read, counts⟩ := counts
  rw [cutUp, read]
  exact ListText.readLocated_of_exceeding counts exceeding

theorem cutUp_of_within {small large : Nat} (le : small ≤ large)
    (within : ∀ declared, Counts separator payload declared → declared ≤ small) :
    cutUp small separator payload = cutUp large separator payload := by
  unfold cutUp
  cases read : Utf8.decode? payload with
  | none => rfl
  | some text =>
    exact ListText.readLocated_of_within le fun declared counts => within declared ⟨text, read, counts⟩

theorem cutUp_only {limit : Nat} :
    Fault.Only (fun fault => (fault = .invalidUtf8 ∧ Utf8.decode? payload = none) ∨
      fault.IsMalformedText ∨ ∃ declared : Nat,
        Counts separator payload declared ∧ limit < declared ∧ fault = .listTooLong declared limit)
      (cutUp limit separator payload) := by
  unfold cutUp
  cases read : Utf8.decode? payload with
  | none => exact Fault.only_error (.inl ⟨rfl, rfl⟩)
  | some text =>
    refine (ListText.readLocated_only (by simp)).mono fun fault => ?_
    rintro (malformed | ⟨declared, counts, exceeding, same⟩)
    · exact .inr (.inl malformed)
    · exact .inr (.inr ⟨declared, ⟨text, read, counts⟩, exceeding, same⟩)

theorem variants_only {E : Type} (table : VariantTable E) (list : List (Option Int32)) :
    Fault.Only (fun fault => ∃ ordinal, table.variant? ordinal = none ∧ fault = .unknownVariant ordinal)
      (variants table list) := by
  refine Fault.only_mapM (fun element => ?_) list
  cases element with
  | none => exact Fault.only_ok none
  | some ordinal =>
    dsimp only
    unfold VariantTable.variant
    cases found : table.variant? ordinal with
    | none => exact Fault.only_error ⟨ordinal, found, rfl⟩
    | some variant => exact Fault.only_ok (some variant)

theorem decodeText_eq {β : Type} {limits : Limits} {read : String → Except Fault β}
    {finish : List (Option ListText.Located) → Except Fault β} (empty : β)
    (reading : ∀ text, read text =
      ListText.readLocated limits.list [separator] [] text.toList >>= finish) :
    (Frame.decodeStringWithin limits.frame >>= fun
      | none => pure empty
      | some text => Decoder.ofExcept (read text)) =
    Frame.decodeAs limits.frame (fun _ => .ok empty)
      (fun payload => cutUp limits.list separator payload >>= finish) := by
  calc
    _ = Frame.decodeStringWithin limits.frame >>= fun text => Decoder.ofExcept (match text with
          | none => .ok empty
          | some text => read text) := by
      congr 1
      funext text
      cases text <;> rfl
    _ = _ := by
      rw [Frame.decodeStringWithin_eq, Frame.decodeAs_bind]
      congr 1
      funext payload
      cases decoded : Utf8.decode? payload with
      | none =>
        simp only [Frame.text, cutUp, decoded]
        rfl
      | some text =>
        simp only [Frame.text, cutUp, decoded]
        exact reading text

end ListFrame

/-- What a payload is read as. -/
inductive Content : Type → Type 1 where
  | string : Content (Option String)
  | bytes : Content (Option Bytes)
  | object {α : Type} (capability : ObjectCodec α) : Content α
  | list (separator : Char) : Content (List (Option String))
  | typedList (α : Type) [Element α] (separator : Char) : Content (List (Option α))
  | variantList {E : Type} (table : VariantTable E) (separator : Char) : Content (List (Option E))

namespace Content

def decodeWithin {R : Type} (limits : Limits) : Content R → Decoder R
  | string => Frame.decodeStringWithin limits.frame
  | bytes => Frame.decodeBytesWithin limits.frame
  | object capability => capability.decodeWithin limits.frame
  | list separator => ListFrame.decodeWithin limits separator
  | typedList _ separator => ListFrame.decodeTypedWithin limits separator
  | variantList table separator => ListFrame.decodeVariantsWithin table limits separator

def separator? {R : Type} : Content R → Option Char
  | list separator | typedList _ separator | variantList _ separator => some separator
  | _ => none

def IsText {R : Type} : Content R → Prop
  | bytes | object _ => False
  | _ => True

/-- What a negative length stands for. Only objects have no absent form. -/
def absent {R : Type} : Content R → Int32 → Except Fault R
  | string, _ => .ok none
  | bytes, _ => .ok none
  | object _, length => .error (.negativeLength length)
  | list _, _ => .ok []
  | typedList _ _, _ => .ok []
  | variantList _ _, _ => .ok []

/-- What a payload that is there stands for, if it has no more than `limit` elements. -/
def present {R : Type} (limit : Nat) : Content R → Bytes → Except Fault R
  | string, payload => Frame.text (some payload)
  | bytes, payload => .ok (some payload)
  | object capability, payload => capability.value payload
  | list separator, payload => do
      let items ← ListFrame.cutUp limit separator payload
      return items.map (·.map fun item => String.ofList item.content)
  | typedList _ separator, payload => do
      let items ← ListFrame.cutUp limit separator payload
      items.mapM ListText.interpret
  | variantList table separator, payload => do
      let items ← ListFrame.cutUp limit separator payload
      let ordinals ← items.mapM ListText.interpret
      ListFrame.variants table ordinals

variable {R : Type} {content : Content R}

theorem decodeWithin_eq (content : Content R) (limits : Limits) :
    content.decodeWithin limits =
      Frame.decodeAs limits.frame content.absent (content.present limits.list) := by
  have typed {α : Type} [Element α] (separator : Char) :
      (ListFrame.decodeTypedWithin limits separator : Decoder (List (Option α))) =
        Frame.decodeAs limits.frame (fun _ => .ok []) fun payload =>
          ListFrame.cutUp limits.list separator payload >>= fun items =>
            items.mapM ListText.interpret :=
    ListFrame.decodeText_eq [] fun text => by
      rw [ListText.readTypedWithin, show separator.toString.toList = [separator] by simp]
      rfl
  cases content with
  | string => exact Frame.decodeStringWithin_eq limits.frame
  | bytes => exact Frame.decodeBytesWithin_eq limits.frame
  | object capability => rfl
  | list separator =>
    refine ListFrame.decodeText_eq [] fun text => ?_
    rw [ListText.readWithin, show separator.toString.toList = [separator] by simp]
    rfl
  | typedList _ separator => exact typed separator
  | variantList table separator =>
    show ListFrame.decodeTypedWithin limits separator >>= _ = _
    rw [typed, Frame.decodeAs_bind]
    congr 1
    funext payload
    exact LawfulMonad.bind_assoc _ _ _

theorem decodeWithin_of_holds (content : Content R) (limits : Limits) {start : Cursor}
    {payload : Bytes} (holds : Frame.Holds start payload) (within : payload.length ≤ limits.frame) :
    ∃ fits, content.decodeWithin limits start =
      (content.present limits.list payload, start.skip (4 + payload.length) fits) := by
  rw [content.decodeWithin_eq]
  exact Frame.decodeAs_of_holds holds within

theorem present_of_exceeding {separator : Char} {payload : Bytes} {limit declared : Nat}
    (isList : content.separator? = some separator)
    (counts : ListFrame.Counts separator payload declared) (exceeding : limit < declared) :
    content.present limit payload = .error (.listTooLong declared limit) := by
  have cut := ListFrame.cutUp_of_exceeding counts exceeding
  cases content with
  | string | bytes | object => cases isList
  | list | typedList | variantList =>
    cases isList
    rw [present, cut]
    rfl

theorem present_of_within {payload : Bytes} {small large : Nat} (le : small ≤ large)
    (within : ∀ separator declared, content.separator? = some separator →
      ListFrame.Counts separator payload declared → declared ≤ small) :
    content.present small payload = content.present large payload := by
  cases content with
  | string | bytes | object => rfl
  | list separator | typedList _ separator | variantList _ separator =>
    have cut := ListFrame.cutUp_of_within le fun declared => within separator declared rfl
    rw [present, present, cut]

/-- Why a payload cannot be read. -/
inductive Refusal (limit : Nat) (payload : Bytes) : {R : Type} → Content R → Fault → Prop where
  | notUtf8 {R : Type} {content : Content R} :
      content.IsText → Utf8.decode? payload = none → Refusal limit payload content .invalidUtf8
  | malformed {R : Type} {content : Content R} {separator : Char} {offset : Nat} {fault : TextFault} :
      content.separator? = some separator →
        Refusal limit payload content (.malformedText offset fault)
  | tooLong {R : Type} {content : Content R} {separator : Char} {declared : Nat} :
      content.separator? = some separator → ListFrame.Counts separator payload declared →
        limit < declared → Refusal limit payload content (.listTooLong declared limit)
  | refused {α : Type} {capability : ObjectCodec α} {text : String} :
      capability.ofBytes payload = .error text →
        Refusal limit payload (.object capability) (.capability text)
  | unknownVariant {E : Type} {table : VariantTable E} {separator : Char} {ordinal : Int32} :
      table.variant? ordinal = none →
        Refusal limit payload (.variantList table separator) (.unknownVariant ordinal)

theorem Refusal.ofMalformedText {limit : Nat} {payload : Bytes} {separator : Char} {fault : Fault}
    (isList : content.separator? = some separator) (malformed : fault.IsMalformedText) :
    Refusal limit payload content fault := by
  cases fault with
  | malformedText => exact .malformed isList
  | _ => cases malformed

theorem isText_of_separator? {separator : Char} (isList : content.separator? = some separator) :
    content.IsText := by
  cases content with
  | bytes | object => cases isList
  | string | list | typedList | variantList => trivial

theorem cutUp_refusal {limit : Nat} {payload : Bytes} {separator : Char}
    (isList : content.separator? = some separator) :
    Fault.Only (Refusal limit payload content) (ListFrame.cutUp limit separator payload) := by
  refine ListFrame.cutUp_only.mono fun fault => ?_
  rintro (⟨rfl, notUtf8⟩ | malformed | ⟨declared, counts, exceeding, rfl⟩)
  · exact .notUtf8 (isText_of_separator? isList) notUtf8
  · exact .ofMalformedText isList malformed
  · exact .tooLong isList counts exceeding

theorem present_refusal (content : Content R) (limit : Nat) (payload : Bytes) :
    Fault.Only (Refusal limit payload content) (content.present limit payload) := by
  have interpreted {R : Type} {content : Content R} {α : Type} [Element α] {separator : Char}
      (isList : content.separator? = some separator) (items : List (Option ListText.Located)) :
      Fault.Only (Refusal limit payload content)
        (items.mapM ListText.interpret : Except Fault (List (Option α))) :=
    Fault.only_mapM (fun item => (ListText.interpret_only item).mono fun _ => .ofMalformedText isList)
      items
  cases content with
  | string =>
    rw [present, Frame.text]
    cases read : Utf8.decode? payload with
    | none => exact Fault.only_error (.notUtf8 trivial read)
    | some text => exact Fault.only_ok (some text)
  | bytes => exact Fault.only_ok (some payload)
  | object capability =>
    rw [present, ObjectCodec.value]
    cases read : capability.ofBytes payload with
    | error text => exact Fault.only_error (.refused read)
    | ok value => exact Fault.only_ok value
  | list separator => exact (cutUp_refusal rfl).bind fun _ _ => Fault.only_ok _
  | typedList _ separator => exact (cutUp_refusal rfl).bind fun items _ => interpreted rfl items
  | variantList table separator =>
    refine (cutUp_refusal rfl).bind fun items _ => (interpreted rfl items).bind fun list _ => ?_
    refine (ListFrame.variants_only table list).mono fun fault => ?_
    rintro ⟨ordinal, unknown, rfl⟩
    exact .unknownVariant unknown

end Content

end Wireform
