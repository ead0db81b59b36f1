import Wireform.Codec
import Wireform.Nullable
/-! The kinds of field that a message is made of, and reading them one after another.

A kind says what is written and what reading gives back; the two differ only for
a variant read leniently. Reading consumes exactly what writing wrote, so a message
is its fields laid end to end without marks between them.
-/

set_option autoImplicit false

namespace Wireform

inductive Field : Type → Type → Type 1 where
  | bool : Field Bool Bool
  | optionalBool : Field (Option Bool) (Option Bool)
  | fixed (α : Type) [FixedWidth α] : Field α α
  | nullable (α : Type) [FixedWidth α] : Field (Option α) (Option α)
  | sentinel (α : Type) [FixedWidth α] : Field (Sentinel α) (Sentinel α)
  | string : Field (Option String) (Option String)
  | bytes : Field (Option Bytes) (Option Bytes)
  | variant {E : Type} [DecidableEq E] (table : VariantTable E) : Field E (Option E)
  | strictVariant {E : Type} [DecidableEq E] (table : VariantTable E) : Field E E
  | list (separator : Char) : Field (List (Option String)) (List (Option String))
  | typedList (α : Type) [Element α] (separator : Char) :
      Field (List (Option α)) (List (Option α))
  | variantList {E : Type} [DecidableEq E] (table : VariantTable E) (separator : Char) :
      Field (List (Option E)) (List (Option E))
  | object {α : Type} (capability : ObjectCodec α) : Field α α
  | codecString (codec : Codec) : Field (Option String) (Option String)
  | codecBytes (codec : Codec) : Field (Option Bytes) (Option Bytes)
  | codecList (codec : Codec) : Field (List (Option String)) (List (Option String))
  | codecTypedList (α : Type) [Element α] (codec : Codec) :
      Field (List (Option α)) (List (Option α))
  | codecVariantList {E : Type} [DecidableEq E] (codec : Codec) (table : VariantTable E) :
      Field (List (Option E)) (List (Option E))
  | codecObject {α : Type} (codec : Codec) (capability : ObjectCodec α) : Field α α

namespace Field

def encode {W R : Type} : Field W R → W → Except Fault Bytes
  | bool, value => .ok (Flag.encode value)
  | optionalBool, value => .ok (Flag.encodeOption value)
  | fixed _, value => .ok (FixedWidth.encode value)
  | nullable _, value => .ok (Nullable.encode value)
  | sentinel _, value => .ok (Sentinel.encode value)
  | string, value | codecString _, value => Frame.encodeString value
  | bytes, value | codecBytes _, value => Frame.encodeBytes value
  | variant table, value | strictVariant table, value => table.encode value
  | list separator, value => ListFrame.encode value separator
  | typedList _ separator, value => ListFrame.encodeTyped value separator
  | variantList table separator, value => ListFrame.encodeVariants table value separator
  | object capability, value => capability.encode value
  | codecList codec, value => codec.encodeList value
  | codecTypedList _ codec, value => codec.encodeTypedList value
  | codecVariantList codec table, value => codec.encodeVariants table value
  | codecObject codec capability, value => codec.encodeObject capability value

def decode {W R : Type} : Field W R → Decoder R
  | bool => Flag.decode
  | optionalBool => Flag.decodeOption
  | fixed _ => FixedWidth.decode
  | nullable _ => Nullable.decode
  | sentinel _ => Sentinel.decode
  | string => Frame.decodeString
  | bytes => Frame.decodeBytes
  | variant table => table.decode
  | strictVariant table => table.decodeStrict
  | list separator => ListFrame.decode separator
  | typedList _ separator => ListFrame.decodeTyped separator
  | variantList table separator => ListFrame.decodeVariants table separator
  | object capability => capability.decode
  | codecString codec => codec.decodeString
  | codecBytes codec => codec.decodeBytes
  | codecList codec => codec.decodeList
  | codecTypedList _ codec => codec.decodeTypedList
  | codecVariantList codec table => codec.decodeVariants table
  | codecObject codec capability => codec.decodeObject capability

/-- What reading gives back for a value that was written. -/
def readBack {W R : Type} : Field W R → W → R
  | bool, value => value
  | optionalBool, value => value
  | @fixed _ _, value => value
  | @nullable _ _, value => value
  | @sentinel _ _, value => Sentinel.normal value
  | string, value => value
  | bytes, value => value
  | @variant _ _ _, value => some value
  | @strictVariant _ _ _, value => value
  | list _, value => value
  | @typedList _ _ _, value => value
  | @variantList _ _ _ _, value => value
  | object _, value => value
  | codecString _, value => value
  | codecBytes _, value => value
  | codecList _, value => value
  | @codecTypedList _ _ _, value => value
  | @codecVariantList _ _ _ _, value => value
  | codecObject _ _, value => value

end Field

/-- The bytes of all buffers in order. An absent one has none. -/
def Message.concat (buffers : List (Option Bytes)) : Bytes :=
  buffers.flatMap fun buffer => buffer.getD []

theorem Message.concat_append (first second : List (Option Bytes)) :
    concat (first ++ second) = concat first ++ concat second :=
  List.flatMap_append

/-- One read of a session. -/
inductive Step : Type → Type 1 where
  | advance (n : Nat) : Step Unit
  | take (n : Nat) : Step Bytes
  | takeVector (n : Nat) : Step (Vector UInt8 n)
  | takeRest : Step Bytes
  | field {W R : Type} (kind : Field W R) : Step R

def Step.decoder {R : Type} : Step R → Decoder R
  | advance n => Decoder.advance n
  | take n => Decoder.take n
  | takeVector n => Decoder.takeVector n
  | takeRest => Decoder.takeRest
  | field kind => kind.decode

namespace Decoder

variable {α : Type}

def here : Decoder Cursor := fun cursor => (.ok cursor, cursor)

def peek (decoder : Decoder α) : Decoder α := fun cursor => ((decoder cursor).1, cursor)

-- Each decoder runs from where the one before ended, failed or not. Every outcome
-- comes with the cursor after it.
def trace : List (Decoder α) → Cursor → List (Except Fault α × Cursor)
  | [], _ => []
  | decoder :: rest, cursor => decoder cursor :: trace rest (decoder cursor).2

def traceEnd (decoders : List (Decoder α)) (cursor : Cursor) : Cursor :=
  decoders.foldl (fun cursor decoder => (decoder cursor).2) cursor

end Decoder

end Wireform
