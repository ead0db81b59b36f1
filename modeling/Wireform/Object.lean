import Wireform.Frame
/-! Objects whose payload is the business of a capability.

A frame around an object has no absent form. The text form of a payload has one
character of the same code per byte.
-/

set_option autoImplicit false

namespace Wireform

/-- A way to turn values into bytes and back. Either direction may refuse. -/
structure ObjectCodec (α : Type) where
  toBytes : α → Except String Bytes
  ofBytes : Bytes → Except String α

namespace ObjectCodec

variable {α : Type}

def payload (codec : ObjectCodec α) (value : α) : Except Fault Bytes :=
  (codec.toBytes value).mapError .capability

def value (codec : ObjectCodec α) (payload : Bytes) : Except Fault α :=
  (codec.ofBytes payload).mapError .capability

def encode (codec : ObjectCodec α) (value : α) : Except Fault Bytes := do
  let payload ← codec.payload value
  let length ← Frame.length? payload.length
  return FixedWidth.encode length ++ payload

def decodeWithin (codec : ObjectCodec α) (limit : Nat) : Decoder α := do
  let length : Int32 ← FixedWidth.decode
  if length.toInt < 0 then Decoder.fail (.negativeLength length)
  else if limit < length.toInt.toNat then
    Decoder.fail (.frameTooLarge length.toInt.toNat limit)
  else
    let payload ← Decoder.take length.toInt.toNat
    Decoder.ofExcept (codec.value payload)

def decode (codec : ObjectCodec α) : Decoder α := codec.decodeWithin Limits.unbounded.frame

def latin1 (byte : UInt8) : Char := Char.ofNat byte.toNat

-- The offset is that of the first character, in the bytes of the whole text.
def bytesOfLatin1 (offset : Nat) : List Char → Except Fault Bytes
  | [] => .ok []
  | c :: rest =>
      if 0xFF < c.toNat then .error (.malformedText offset .outsideLatin1)
      else do
        let bytes ← bytesOfLatin1 (offset + c.utf8Size) rest
        return UInt8.ofNat c.toNat :: bytes

def toText (codec : ObjectCodec α) (value : α) : Except Fault String := do
  let payload ← codec.payload value
  return String.ofList (payload.map latin1)

def ofText (codec : ObjectCodec α) (text : String) : Except Fault α := do
  let payload ← bytesOfLatin1 0 text.toList
  codec.value payload

/-- Payloads that are their own value, apart from those that a check refuses. -/
def verbatim (writable readable : Bytes → Except String Unit) : ObjectCodec Bytes where
  toBytes bytes := (writable bytes).map fun _ => bytes
  ofBytes bytes := (readable bytes).map fun _ => bytes

end ObjectCodec

end Wireform
