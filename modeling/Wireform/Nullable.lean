import Wireform.FixedWidth
/-! Truth values and optional fixed-width values.

A truth value has one byte: a zero is false and any other byte is true; the byte
255 stands for an absent value where one is allowed. Of a wider type the least
pattern is reserved: after it a flag byte tells the value that really has this
pattern from an absent one. Every other value is written at its bare width.
-/

set_option autoImplicit false

namespace Wireform

namespace Flag

def encode : Bool → Bytes
  | false => [0]
  | true => [1]

def decode : Decoder Bool := do
  let bytes ← Decoder.take 1
  return bytes != [0]

def encodeOption : Option Bool → Bytes
  | none => [0xFF]
  | some value => encode value

def decodeOption : Decoder (Option Bool) := do
  let bytes ← Decoder.take 1
  return if bytes = [0xFF] then none else some (bytes != [0])

@[simp] theorem length_encode (value : Bool) : (encode value).length = 1 := by
  cases value <;> rfl

@[simp] theorem length_encodeOption (value : Option Bool) : (encodeOption value).length = 1 := by
  cases value <;> simp [encodeOption]

theorem decode_reads_byte (byte : UInt8) : Decoder.Reads decode [byte] (byte != 0) := by
  refine (Decoder.reads_take rfl).map ?_
  have same : ([byte] != [0]) = (byte != 0) := by simp [bne]
  rw [same]
  exact Decoder.reads_pure _

theorem decode_reads (value : Bool) : Decoder.Reads decode (encode value) value := by
  cases value
  · exact decode_reads_byte 0
  · exact decode_reads_byte 1

theorem decodeOption_reads (value : Option Bool) :
    Decoder.Reads decodeOption (encodeOption value) value := by
  refine (Decoder.reads_take (length_encodeOption value)).map ?_
  match value with
  | none => exact Decoder.reads_pure none
  | some false => exact Decoder.reads_pure (some false)
  | some true => exact Decoder.reads_pure (some true)

end Flag

/-- What an optional value looks like on the wire. -/
inductive Sentinel (α : Type) where
  | absent
  | minimum
  /-- Any value but the least. -/
  | bare (value : α)
  deriving DecidableEq, Repr

namespace Sentinel

variable {α : Type} [FixedWidth α]

def ofOption : Option α → Sentinel α
  | none => .absent
  | some value => if FixedWidth.isMinimum value then .minimum else .bare value

def toOption : Sentinel α → Option α
  | absent => none
  | minimum => some FixedWidth.minimum
  | bare value => some value

def encode : Sentinel α → Bytes
  | absent => FixedWidth.encode (FixedWidth.minimum : α) ++ Flag.encode false
  | minimum => FixedWidth.encode (FixedWidth.minimum : α) ++ Flag.encode true
  | bare value =>
      -- A bare minimum could not be read back bare.
      if FixedWidth.isMinimum value then
        FixedWidth.encode (FixedWidth.minimum : α) ++ Flag.encode true
      else FixedWidth.encode value

def decode : Decoder (Sentinel α) := do
  let value ← FixedWidth.decode
  -- Only the reserved pattern has a flag behind it.
  if FixedWidth.isMinimum value then
    let present ← Flag.decode
    return if present then .minimum else .absent
  else
    return .bare value

/-- The form that reading gives back. -/
def normal : Sentinel α → Sentinel α
  | bare value => if FixedWidth.isMinimum value then .minimum else .bare value
  | other => other

@[simp] theorem toOption_ofOption (value : Option α) : (ofOption value).toOption = value := by
  cases value with
  | none => rfl
  | some value =>
    by_cases least : FixedWidth.isMinimum value
    · simp [ofOption, toOption, (FixedWidth.isMinimum_iff value).mp least]
    · simp [ofOption, toOption, least]

theorem ofOption_toOption (sentinel : Sentinel α) : ofOption sentinel.toOption = sentinel.normal := by
  cases sentinel with
  | absent => rfl
  | minimum => simp [toOption, ofOption, normal]
  | bare value => rfl

theorem encode_normal (sentinel : Sentinel α) : sentinel.normal.encode = sentinel.encode := by
  cases sentinel with
  | absent => rfl
  | minimum => rfl
  | bare value => by_cases least : FixedWidth.isMinimum value <;> simp [normal, encode, least]

/-- The reserved pattern and a byte after it read as what the byte says. -/
theorem decode_reads_byte (byte : UInt8) :
    Decoder.Reads (decode : Decoder (Sentinel α))
      (FixedWidth.encode (FixedWidth.minimum : α) ++ [byte])
      (if byte != 0 then minimum else absent) := by
  refine (FixedWidth.decode_reads (FixedWidth.minimum : α)).bind ?_
  rw [if_pos FixedWidth.isMinimum_minimum]
  exact (Flag.decode_reads_byte byte).map (Decoder.reads_pure _)

theorem decode_reads (sentinel : Sentinel α) :
    Decoder.Reads decode sentinel.encode sentinel.normal := by
  cases sentinel with
  | absent => exact decode_reads_byte 0
  | minimum => exact decode_reads_byte 1
  | bare value =>
    by_cases least : FixedWidth.isMinimum value
    · simpa [encode, normal, least, Flag.encode] using decode_reads_byte (α := α) 1
    · simp only [encode, normal, least, Bool.false_eq_true, ↓reduceIte]
      refine (FixedWidth.decode_reads value).map ?_
      rw [if_neg least]
      exact Decoder.reads_pure _

end Sentinel

namespace Nullable

variable {α : Type} [FixedWidth α]

def encode (value : Option α) : Bytes := (Sentinel.ofOption value).encode

def decode : Decoder (Option α) := do
  let sentinel ← Sentinel.decode
  return sentinel.toOption

theorem decode_reads (value : Option α) : Decoder.Reads decode (encode value) value := by
  refine (Sentinel.decode_reads (Sentinel.ofOption value)).map ?_
  rw [← Sentinel.ofOption_toOption, Sentinel.toOption_ofOption, Sentinel.toOption_ofOption]
  exact Decoder.reads_pure value

example : encode (none : Option Int32) = [0x80, 0, 0, 0, 0] := by decide
example : encode (some (-2147483648) : Option Int32) = [0x80, 0, 0, 0, 1] := by decide
example : encode (some 7 : Option Int32) = [0, 0, 0, 7] := by decide

end Nullable

end Wireform
