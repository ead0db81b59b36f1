import Wireform.Decoder
/-! Values of a fixed number of bytes, written big-endian.

An integer is written in two's complement. The least pattern of a width (top bit
set, all others clear) is the one that optional values reserve.
-/

set_option autoImplicit false

namespace Wireform

/-- A type whose values are exactly the words of `width` bytes. -/
class FixedWidth (α : Type) where
  width : Nat
  width_pos : 0 < width
  toBits : α → BitVec (8 * width)
  ofBits : BitVec (8 * width) → α
  ofBits_toBits (value : α) : ofBits (toBits value) = value
  toBits_ofBits (bits : BitVec (8 * width)) : toBits (ofBits bits) = bits

instance : FixedWidth Int8 :=
  ⟨1, by decide, Int8.toBitVec, Int8.ofBitVec, Int8.ofBitVec_toBitVec, Int8.toBitVec_ofBitVec⟩

instance : FixedWidth Int16 :=
  ⟨2, by decide, Int16.toBitVec, Int16.ofBitVec, Int16.ofBitVec_toBitVec, Int16.toBitVec_ofBitVec⟩

instance : FixedWidth Int32 :=
  ⟨4, by decide, Int32.toBitVec, Int32.ofBitVec, Int32.ofBitVec_toBitVec, Int32.toBitVec_ofBitVec⟩

instance : FixedWidth Int64 :=
  ⟨8, by decide, Int64.toBitVec, Int64.ofBitVec, Int64.ofBitVec_toBitVec, Int64.toBitVec_ofBitVec⟩

namespace FixedWidth

variable {α : Type} [FixedWidth α]

def minimum : α := ofBits (BitVec.intMin _)

def isMinimum (value : α) : Bool := toBits value == BitVec.intMin _

def encode (value : α) : Bytes := BigEndian.toBytes (toBits value)

def decode : Decoder α := do
  let bytes ← Decoder.take (width α)
  return ofBits (BigEndian.ofBytes (width α) bytes)

theorem toBits_inj {first second : α} : toBits first = toBits second ↔ first = second :=
  ⟨fun same => by rw [← ofBits_toBits first, same, ofBits_toBits], congrArg toBits⟩

theorem isMinimum_iff (value : α) : isMinimum value = true ↔ value = minimum := by
  have least : toBits (minimum : α) = BitVec.intMin _ := toBits_ofBits _
  rw [isMinimum, beq_iff_eq, ← least, toBits_inj]

@[simp] theorem isMinimum_minimum : isMinimum (minimum : α) = true :=
  (isMinimum_iff _).mpr rfl

@[simp] theorem length_encode (value : α) : (encode value).length = width α := by
  simp [encode]

theorem ofBytes_encode (value : α) :
    ofBits (BigEndian.ofBytes (width α) (encode value)) = value := by
  rw [encode, BigEndian.ofBytes_toBytes, ofBits_toBits]

theorem encode_ofBytes {bytes : Bytes} (length : bytes.length = width α) :
    encode (ofBits (BigEndian.ofBytes (width α) bytes) : α) = bytes := by
  rw [encode, toBits_ofBits, BigEndian.toBytes_ofBytes length]

theorem decode_reads (value : α) : Decoder.Reads decode (encode value) value := by
  refine (Decoder.reads_take (length_encode value)).map ?_
  rw [ofBytes_encode]
  exact Decoder.reads_pure value

section ahead

variable {cursor : Cursor}

/-- Either too few bytes are ahead or those of a value are. -/
theorem short_or_ahead (α : Type) [FixedWidth α] (cursor : Cursor) :
    cursor.remaining < width α ∨ ∃ value : α, encode value <+: cursor.unread := by
  rcases Nat.lt_or_ge cursor.remaining (width α) with short | enough
  · exact .inl short
  · have length : (cursor.unread.take (width α)).length = width α := by
      rw [List.length_take, cursor.length_unread]
      exact Nat.min_eq_left enough
    refine .inr ⟨ofBits (BigEndian.ofBytes (width α) (cursor.unread.take (width α))), ?_⟩
    rw [encode_ofBytes length]
    exact List.take_prefix _ _

theorem decode_of_short (short : cursor.remaining < width α) :
    (decode : Decoder α) cursor = (.error (.truncated (width α) cursor.remaining), cursor) :=
  Decoder.bind_of_error (Decoder.take_of_lt short)

theorem decode_of_ahead {value : α} (ahead : encode value <+: cursor.unread) :
    ∃ fits, decode cursor = (.ok value, cursor.skip (width α) fits) := by
  obtain ⟨rest, same⟩ := ahead
  have run := decode_reads value cursor rest same.symm
  rwa [length_encode] at run

theorem eq_of_ahead {first second : α} (ahead : encode first <+: cursor.unread)
    (ahead' : encode second <+: cursor.unread) : first = second := by
  have same : encode first = encode second :=
    (List.prefix_of_prefix_length_le ahead ahead' (by simp)).eq_of_length (by simp)
  rw [← ofBytes_encode first, same, ofBytes_encode]

end ahead

end FixedWidth

example : FixedWidth.encode (5 : Int32) = [0, 0, 0, 5] := by decide
example : FixedWidth.encode (-2 : Int16) = [0xFF, 0xFE] := by decide
example : (FixedWidth.minimum : Int8) = -128 := by decide

end Wireform
