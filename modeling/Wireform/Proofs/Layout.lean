import Wireform.Field
import Wireform.Proofs.Content
/-! How fields lie in a buffer, and where one that cannot be read is left.

Four layouts cover all kinds of field. A layout settles where a failing read stops
(`Layout.Stops`), and `Field.stops` proves that every failing read stops there.
-/

set_option autoImplicit false

namespace Wireform

/-- How a field lies in a buffer. -/
inductive Layout : Type → Type 1 where
  /-- So many bytes, whatever they are. -/
  | word {R : Type} (width : Nat) : Layout R
  /-- A word with a flag behind its reserved pattern. -/
  | flagged {R : Type} (α : Type) [FixedWidth α] : Layout R
  /-- An ordinal that has to be that of a variant. -/
  | ordinal {E : Type} (table : VariantTable E) : Layout E
  /-- A length and a payload, read under limits. -/
  | framed {R : Type} (content : Content R) (limits : Limits) : Layout R

/-- The bytes that every field of a layout starts with. -/
def Layout.width {R : Type} : Layout R → Nat
  | word width => width
  | flagged α => FixedWidth.width α
  | ordinal _ | framed _ _ => 4

def Field.layout {W R : Type} : Field W R → Layout R
  | bool | optionalBool => .word 1
  | fixed α => .word (FixedWidth.width α)
  | nullable α | sentinel α => .flagged α
  | variant _ => .word 4
  | strictVariant table => .ordinal table
  | string => .framed .string .unbounded
  | bytes => .framed .bytes .unbounded
  | list separator => .framed (.list separator) .unbounded
  | typedList α separator => .framed (.typedList α separator) .unbounded
  | variantList table separator => .framed (.variantList table separator) .unbounded
  | object capability => .framed (.object capability) .unbounded
  | codecString codec => .framed .string codec.config.limits
  | codecBytes codec => .framed .bytes codec.config.limits
  | codecList codec => .framed (.list codec.separator) codec.config.limits
  | codecTypedList α codec => .framed (.typedList α codec.separator) codec.config.limits
  | codecVariantList codec table => .framed (.variantList table codec.separator) codec.config.limits
  | codecObject codec capability => .framed (.object capability) codec.config.limits

/-- The faults of a field that cannot be read, and how far the cursor has moved then. -/
inductive Layout.Stops (start : Cursor) : {R : Type} → Layout R → Fault → Nat → Prop where
  /-- The leading bytes are not all there. -/
  | leading {R : Type} {layout : Layout R} : start.remaining < layout.width →
      Stops start layout (.truncated layout.width start.remaining) 0
  /-- The buffer ends between the reserved pattern and its flag. -/
  | flag {R α : Type} [FixedWidth α] : start.unread = FixedWidth.encode (FixedWidth.minimum : α) →
      Stops start (.flagged α : Layout R) (.truncated 1 0) (FixedWidth.width α)
  | ordinal {E : Type} {table : VariantTable E} {ordinal : Int32} :
      FixedWidth.encode ordinal <+: start.unread → table.variant? ordinal = none →
        Stops start (.ordinal table) (.unknownVariant ordinal) 4
  | negative {α : Type} {capability : ObjectCodec α} {limits : Limits} {length : Int32} :
      FixedWidth.encode length <+: start.unread → length.toInt < 0 →
        Stops start (.framed (.object capability) limits) (.negativeLength length) 4
  | exceeding {R : Type} {content : Content R} {limits : Limits} {n : Nat} :
      Frame.Declares start n → limits.frame < n →
        Stops start (.framed content limits) (.frameTooLarge n limits.frame) 4
  /-- The payload is not all there. -/
  | missing {R : Type} {content : Content R} {limits : Limits} {n : Nat} :
      Frame.Declares start n → n ≤ limits.frame → start.remaining - 4 < n →
        Stops start (.framed content limits) (.truncated n (start.remaining - 4)) 4
  | payload {R : Type} {content : Content R} {limits : Limits} {payload : Bytes} {fault : Fault} :
      Frame.Holds start payload → payload.length ≤ limits.frame →
        content.Refusal limits.list payload fault →
          Stops start (.framed content limits) fault (4 + payload.length)

namespace Layout

variable {R : Type} {start after : Cursor} {fault : Fault}

/-- A failing run stops where its layout says. -/
def StopsAt (layout : Layout R) (start : Cursor) (fault : Fault) (after : Cursor) : Prop :=
  ∃ passed fits, layout.Stops start fault passed ∧ after = start.skip passed fits

theorem stopsAt_leading (layout : Layout R) (short : start.remaining < layout.width) :
    layout.StopsAt start (.truncated layout.width start.remaining) start :=
  ⟨0, Nat.zero_le _, .leading short, rfl⟩

theorem stops_take {f : Bytes → R} {n : Nat}
    (run : (Decoder.take n >>= fun bytes => pure (f bytes)) start = (.error fault, after)) :
    (word n : Layout R).StopsAt start fault after := by
  rcases Decoder.bind_error run with failed | ⟨_, _, _, failed⟩
  · obtain ⟨short, rfl, rfl⟩ := Decoder.take_error failed
    exact stopsAt_leading (word n) short
  · cases failed

theorem stops_word_bind {α : Type} [FixedWidth α] {next : α → Decoder R} (layout : Layout R)
    (width : layout.width = FixedWidth.width α)
    (run : (FixedWidth.decode >>= next) start = (.error fault, after)) :
    layout.StopsAt start fault after ∨
      ∃ (value : α) (fits : FixedWidth.width α ≤ start.remaining),
        FixedWidth.encode value <+: start.unread ∧
        next value (start.skip _ fits) = (.error fault, after) := by
  rcases FixedWidth.short_or_ahead α start with short | ⟨value, ahead⟩
  · rw [Decoder.bind_of_error (FixedWidth.decode_of_short short), ← width] at run
    cases run
    exact .inl (stopsAt_leading layout (width ▸ short))
  · obtain ⟨fits, ran⟩ := FixedWidth.decode_of_ahead ahead
    rw [Decoder.bind_of_ok ran] at run
    exact .inr ⟨value, fits, ahead, run⟩

theorem stops_variant {E : Type} {table : VariantTable E}
    (run : table.decode start = (.error fault, after)) :
    (word 4 : Layout (Option E)).StopsAt start fault after := by
  rcases stops_word_bind (word 4) rfl run with stops | ⟨_, _, _, failed⟩
  · exact stops
  · cases failed

theorem stops_ordinal {E : Type} {table : VariantTable E}
    (run : table.decodeStrict start = (.error fault, after)) :
    (ordinal table).StopsAt start fault after := by
  rcases stops_word_bind (ordinal table) rfl run with stops | ⟨number, fits, ahead, failed⟩
  · exact stops
  · rw [VariantTable.variant] at failed
    split at failed
    · cases failed
    · rename_i unknown
      cases failed
      exact ⟨4, fits, .ordinal ahead unknown, rfl⟩

theorem stops_sentinel {α : Type} [FixedWidth α]
    (run : (Sentinel.decode : Decoder (Sentinel α)) start = (.error fault, after)) :
    (flagged α : Layout R).StopsAt start fault after := by
  rcases FixedWidth.short_or_ahead α start with short | ⟨value, rest, whole⟩
  · rw [Sentinel.decode, Decoder.bind_of_error (FixedWidth.decode_of_short short)] at run
    cases run
    exact stopsAt_leading (flagged α) short
  obtain ⟨fits, ran⟩ := FixedWidth.decode_of_ahead ⟨rest, whole⟩
  rw [Sentinel.decode, Decoder.bind_of_ok ran] at run
  split at run
  · rename_i least
    rcases Decoder.bind_error run with failed | ⟨_, _, _, failed⟩
    · rcases Decoder.bind_error failed with failed | ⟨_, _, _, failed⟩
      · obtain ⟨short, rfl, rfl⟩ := Decoder.take_error failed
        -- No byte is left for the flag, so the pattern is all that was ahead.
        have left := start.remaining_skip _ fits
        have total : start.remaining = FixedWidth.width α + rest.length := by
          rw [← start.length_unread, ← whole, List.length_append, FixedWidth.length_encode]
        obtain rfl : rest = [] := List.length_eq_zero_iff.mp (by omega)
        rw [List.append_nil, (FixedWidth.isMinimum_iff value).mp least] at whole
        rw [show (start.skip _ fits).remaining = 0 by omega]
        exact ⟨_, fits, .flag whole.symm, rfl⟩
      · cases failed
    · cases failed
  · cases run

theorem stops_framed {content : Content R} {limits : Limits}
    (run : content.decodeWithin limits start = (.error fault, after)) :
    (framed content limits).StopsAt start fault after := by
  rw [content.decodeWithin_eq] at run
  cases Frame.front start with
  | cut short =>
    rw [Frame.decodeAs_of_cut short] at run
    cases run
    exact stopsAt_leading (framed content limits) short
  | negative length below ahead =>
    obtain ⟨fits, ran⟩ := Frame.decodeAs_of_negative below ahead
    obtain ⟨failed, rfl⟩ := Prod.mk.inj (ran.symm.trans run)
    cases content with
    | object capability =>
      cases failed
      exact ⟨4, fits, .negative ahead below, rfl⟩
    | string | bytes | list | typedList | variantList => cases failed
  | missing n declares short =>
    rcases Nat.lt_or_ge limits.frame n with exceeding | within
    · obtain ⟨fits, ran⟩ := Frame.decodeAs_of_exceeding declares exceeding
      cases ran.symm.trans run
      exact ⟨4, fits, .exceeding declares exceeding, rfl⟩
    · obtain ⟨fits, ran⟩ := Frame.decodeAs_of_missing declares within short
      cases ran.symm.trans run
      exact ⟨4, fits, .missing declares within short, rfl⟩
  | whole payload holds =>
    rcases Nat.lt_or_ge limits.frame payload.length with exceeding | within
    · obtain ⟨fits, ran⟩ := Frame.decodeAs_of_exceeding holds.declares exceeding
      cases ran.symm.trans run
      exact ⟨4, fits, .exceeding holds.declares exceeding, rfl⟩
    · obtain ⟨fits, ran⟩ := Frame.decodeAs_of_holds holds within
      obtain ⟨failed, rfl⟩ := Prod.mk.inj (ran.symm.trans run)
      exact ⟨_, fits, .payload holds within (content.present_refusal _ payload fault failed), rfl⟩

end Layout

namespace Field

variable {W R : Type} {kind : Field W R} {start after : Cursor} {fault : Fault}

theorem width_pos (kind : Field W R) : 0 < kind.layout.width := by
  cases kind with
  | fixed | nullable | sentinel => exact FixedWidth.width_pos
  | bool | optionalBool => exact Nat.one_pos
  | variant | strictVariant | string | bytes | list | typedList | variantList | object
  | codecString | codecBytes | codecList | codecTypedList | codecVariantList | codecObject =>
    exact Nat.succ_pos 3

theorem decode_of_framed {content : Content R} {limits : Limits}
    (framed : kind.layout = .framed content limits) : kind.decode = content.decodeWithin limits := by
  cases kind <;> cases framed <;> rfl

theorem decode_of_short_framed {content : Content R} {limits : Limits}
    (framed : kind.layout = .framed content limits) (short : start.remaining < 4) :
    kind.decode start = (.error (.truncated 4 start.remaining), start) := by
  rw [decode_of_framed framed, content.decodeWithin_eq]
  exact Frame.decodeAs_of_cut short

theorem decode_of_short (short : start.remaining < kind.layout.width) :
    kind.decode start = (.error (.truncated kind.layout.width start.remaining), start) := by
  cases kind with
  | bool | optionalBool | fixed => exact Decoder.bind_of_error (Decoder.take_of_lt short)
  | nullable =>
    exact Decoder.bind_of_error (Decoder.bind_of_error (FixedWidth.decode_of_short short))
  | sentinel | variant | strictVariant =>
    exact Decoder.bind_of_error (FixedWidth.decode_of_short short)
  | string | bytes | list | typedList | variantList | object
  | codecString | codecBytes | codecList | codecTypedList | codecVariantList | codecObject =>
    exact decode_of_short_framed rfl short

theorem stops (run : kind.decode start = (.error fault, after)) :
    kind.layout.StopsAt start fault after := by
  cases kind with
  | bool | optionalBool | fixed => exact Layout.stops_take run
  | nullable =>
    rcases Decoder.bind_error run with failed | ⟨_, _, _, failed⟩
    · exact Layout.stops_sentinel failed
    · cases failed
  | sentinel => exact Layout.stops_sentinel run
  | variant => exact Layout.stops_variant run
  | strictVariant => exact Layout.stops_ordinal run
  | string | bytes | list | typedList | variantList | object
  | codecString | codecBytes | codecList | codecTypedList | codecVariantList | codecObject =>
    exact Layout.stops_framed run

end Field

end Wireform
