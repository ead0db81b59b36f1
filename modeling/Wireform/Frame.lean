import Wireform.Config
import Wireform.FixedWidth
/-! Payloads behind their length.

A frame is a four-byte signed length and that many bytes. Any negative length
stands for an absent payload and -1 is the one written. The length is checked
against the limit before the payload is looked for.
-/

set_option autoImplicit false

namespace Wireform.Frame

def length? (n : Nat) : Except Fault Int32 :=
  if n < 2 ^ 31 then .ok (Int32.ofNat n) else .error (.lengthOverflow n)

def absentLength : Int32 := -1

def encodeBytes : Option Bytes → Except Fault Bytes
  | none => .ok (FixedWidth.encode absentLength)
  | some payload => do
      let length ← length? payload.length
      return FixedWidth.encode length ++ payload

def encodeString (text : Option String) : Except Fault Bytes :=
  encodeBytes (text.map Utf8.encode)

/-- A length, or none where it is negative. -/
def readLength : Decoder (Option Nat) := do
  let length : Int32 ← FixedWidth.decode
  return if length.toInt < 0 then none else some length.toInt.toNat

/-- A payload of at most `limit` bytes, or none where it is absent. -/
def decodeBytesWithin (limit : Nat) : Decoder (Option Bytes) := do
  match ← readLength with
  | none => return none
  | some length =>
      if limit < length then Decoder.fail (.frameTooLarge length limit)
      else
        let payload ← Decoder.take length
        return some payload

def decodeBytes : Decoder (Option Bytes) := decodeBytesWithin Limits.unbounded.frame

def text : Option Bytes → Except Fault (Option String)
  | none => .ok none
  | some payload =>
      match Utf8.decode? payload with
      | some text => .ok (some text)
      | none => .error .invalidUtf8

def decodeStringWithin (limit : Nat) : Decoder (Option String) := do
  let payload ← decodeBytesWithin limit
  Decoder.ofExcept (text payload)

def decodeString : Decoder (Option String) := decodeStringWithin Limits.unbounded.frame

theorem length?_eq_ok_iff {n : Nat} {length : Int32} :
    length? n = .ok length ↔ n < 2 ^ 31 ∧ length = Int32.ofNat n := by
  unfold length?
  split
  · simp_all [eq_comm]
  · simp_all only [reduceCtorEq, false_and]

theorem toInt_of_length? {n : Nat} {length : Int32} (fits : length? n = .ok length) :
    length.toInt = n := by
  obtain ⟨small, rfl⟩ := length?_eq_ok_iff.mp fits
  exact Int32.toInt_ofNat_of_lt small

theorem readLength_reads {n : Nat} {length : Int32} (fits : length? n = .ok length) :
    Decoder.Reads readLength (FixedWidth.encode length) (some n) := by
  refine (FixedWidth.decode_reads length).map ?_
  have same := toInt_of_length? fits
  rw [if_neg (by omega), same, Int.toNat_natCast]
  exact Decoder.reads_pure (some n)

theorem readLength_reads_absent :
    Decoder.Reads readLength (FixedWidth.encode absentLength) none := by
  refine (FixedWidth.decode_reads absentLength).map ?_
  rw [if_pos (by decide)]
  exact Decoder.reads_pure none

theorem encodeBytes_some_eq_ok_iff {payload frame : Bytes} :
    encodeBytes (some payload) = .ok frame ↔
      ∃ length, length? payload.length = .ok length ∧ frame = FixedWidth.encode length ++ payload := by
  simp only [encodeBytes]
  cases length? payload.length with
  | ok length => simp [bind, Except.bind, pure, Except.pure, eq_comm]
  | error fault => simp [bind, Except.bind]

theorem length_of_encodeBytes {payload frame : Bytes} (encoded : encodeBytes (some payload) = .ok frame) :
    payload.length < 2 ^ 31 ∧ frame.length = payload.length + 4 := by
  obtain ⟨length, fits, rfl⟩ := encodeBytes_some_eq_ok_iff.mp encoded
  refine ⟨(length?_eq_ok_iff.mp fits).1, ?_⟩
  rw [List.length_append, FixedWidth.length_encode, Nat.add_comm]
  rfl

/-- A frame reads back under every limit that its payload keeps. -/
theorem decodeBytesWithin_reads {value : Option Bytes} {frame : Bytes} {limit : Nat}
    (encoded : encodeBytes value = .ok frame)
    (within : ∀ payload, value = some payload → payload.length ≤ limit) :
    Decoder.Reads (decodeBytesWithin limit) frame value := by
  cases value with
  | none =>
    cases encoded
    exact readLength_reads_absent.map (Decoder.reads_pure none)
  | some payload =>
    obtain ⟨length, fits, rfl⟩ := encodeBytes_some_eq_ok_iff.mp encoded
    refine (readLength_reads fits).bind ?_
    simp only [if_neg (Nat.not_lt.mpr (within payload rfl))]
    exact (Decoder.reads_take rfl).map (Decoder.reads_pure _)

theorem text_of_encode {payload : Bytes} {string : String} (same : Utf8.encode string = payload) :
    text (some payload) = .ok (some string) := by
  rw [text, Utf8.decode?_eq_some_iff.mpr same]

theorem text_of_invalid {payload : Bytes} (invalid : ∀ string, Utf8.encode string ≠ payload) :
    text (some payload) = .error .invalidUtf8 := by
  have undecoded : Utf8.decode? payload = none := Option.eq_none_iff_forall_ne_some.mpr
    fun string read => invalid string (Utf8.encode_of_decode? read)
  rw [text, undecoded]

theorem text_map_encode (value : Option String) : text (value.map Utf8.encode) = .ok value := by
  cases value with
  | none => rfl
  | some string => exact text_of_encode rfl

theorem decodeStringWithin_reads {value : Option String} {frame : Bytes} {limit : Nat}
    (encoded : encodeString value = .ok frame)
    (within : ∀ text, value = some text → text.utf8ByteSize ≤ limit) :
    Decoder.Reads (decodeStringWithin limit) frame value := by
  refine (decodeBytesWithin_reads encoded ?_).map ?_
  · intro payload found
    obtain ⟨text, rfl, rfl⟩ := Option.map_eq_some_iff.mp found
    simpa using within text rfl
  · rw [text_map_encode]
    exact Decoder.reads_ofExcept value

end Wireform.Frame
