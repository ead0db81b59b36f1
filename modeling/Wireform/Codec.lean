import Wireform.Config
import Wireform.ListFrame
import Wireform.Object
/-! A codec under a usable configuration.

It writes only what it would read back: besides the bounds on reading it refuses
to write a list or a payload beyond its own limits.
-/

set_option autoImplicit false

namespace Wireform

structure Codec where
  config : Config
  usable : config.fault? = none

namespace Codec

instance : Inhabited Codec := ⟨⟨default, Config.fault?_default⟩⟩

def ofConfig (config : Config) : Except Fault Codec :=
  match usable : config.fault? with
  | none => .ok ⟨config, usable⟩
  | some fault => .error (.invalidConfig fault)

def separator (codec : Codec) : Char := codec.config.listSeparator

def decodeString (codec : Codec) : Decoder (Option String) :=
  Frame.decodeStringWithin codec.config.maxFrameLen

def decodeBytes (codec : Codec) : Decoder (Option Bytes) :=
  Frame.decodeBytesWithin codec.config.maxFrameLen

def checkLength (codec : Codec) (length : Nat) : Except Fault Unit :=
  if codec.config.maxListLen < length then .error (.listTooLong length codec.config.maxListLen)
  else .ok ()

def checkFrame (codec : Codec) (frame : Bytes) : Except Fault Bytes :=
  -- The first four bytes are the length of the payload behind them.
  if codec.config.maxFrameLen < frame.length - 4 then
    .error (.frameTooLarge (frame.length - 4) codec.config.maxFrameLen)
  else .ok frame

def encodeList (codec : Codec) (list : List (Option String)) : Except Fault Bytes := do
  codec.checkLength list.length
  let frame ← ListFrame.encode list codec.separator
  codec.checkFrame frame

def decodeList (codec : Codec) : Decoder (List (Option String)) :=
  ListFrame.decodeWithin codec.config.limits codec.separator

def encodeTypedList {α : Type} [Element α] (codec : Codec) (list : List (Option α)) :
    Except Fault Bytes := do
  codec.checkLength list.length
  let frame ← ListFrame.encodeTyped list codec.separator
  codec.checkFrame frame

def decodeTypedList {α : Type} [Element α] (codec : Codec) : Decoder (List (Option α)) :=
  ListFrame.decodeTypedWithin codec.config.limits codec.separator

def encodeVariants {E : Type} [DecidableEq E] (codec : Codec) (table : VariantTable E)
    (list : List (Option E)) : Except Fault Bytes := do
  let ordinals ← ListFrame.ordinals table list
  codec.encodeTypedList ordinals

def decodeVariants {E : Type} (codec : Codec) (table : VariantTable E) :
    Decoder (List (Option E)) :=
  ListFrame.decodeVariantsWithin table codec.config.limits codec.separator

def encodeObject {α : Type} (codec : Codec) (capability : ObjectCodec α) (value : α) :
    Except Fault Bytes := do
  let frame ← capability.encode value
  codec.checkFrame frame

def decodeObject {α : Type} (codec : Codec) (capability : ObjectCodec α) : Decoder α :=
  capability.decodeWithin codec.config.maxFrameLen

end Codec

end Wireform
