import Wireform.Frame
import Wireform.ListText.Basic
import Wireform.VariantTable
/-! Lists in frames.

The payload is the list's text with one character as separator and no
terminator. An absent frame reads as the empty list. Enumerations travel as
lists of ordinals.
-/

set_option autoImplicit false

namespace Wireform.ListFrame

def encode (list : List (Option String)) (separator : Char) : Except Fault Bytes := do
  let text ← ListText.write list separator.toString none
  Frame.encodeString (some text)

def encodeTyped {α : Type} [Element α] (list : List (Option α)) (separator : Char) :
    Except Fault Bytes :=
  encode (list.map (·.map Element.toText)) separator

/-- The ordinals of a list of variants, up to the first that has none. -/
def ordinals {E : Type} [DecidableEq E] (table : VariantTable E) (list : List (Option E)) :
    Except Fault (List (Option Int32)) :=
  list.mapM fun
    | none => .ok none
    | some variant => (table.ordinal variant).map some

/-- The variants of a list of ordinals, up to the first that has none. -/
def variants {E : Type} (table : VariantTable E) (list : List (Option Int32)) :
    Except Fault (List (Option E)) :=
  list.mapM fun
    | none => .ok none
    | some ordinal => (table.variant ordinal).map some

def encodeVariants {E : Type} [DecidableEq E] (table : VariantTable E) (list : List (Option E))
    (separator : Char) : Except Fault Bytes := do
  let list ← ordinals table list
  encodeTyped list separator

def decodeWithin (limits : Limits) (separator : Char) : Decoder (List (Option String)) := do
  match ← Frame.decodeStringWithin limits.frame with
  | none => return []
  | some text => Decoder.ofExcept (ListText.readWithin limits.list text separator.toString none)

def decodeTypedWithin {α : Type} [Element α] (limits : Limits) (separator : Char) :
    Decoder (List (Option α)) := do
  match ← Frame.decodeStringWithin limits.frame with
  | none => return []
  | some text =>
      Decoder.ofExcept (ListText.readTypedWithin limits.list text separator.toString none)

def decodeVariantsWithin {E : Type} (table : VariantTable E) (limits : Limits) (separator : Char) :
    Decoder (List (Option E)) := do
  let list ← decodeTypedWithin limits separator
  Decoder.ofExcept (variants table list)

def decode (separator : Char) : Decoder (List (Option String)) :=
  decodeWithin Limits.unbounded separator

def decodeTyped {α : Type} [Element α] (separator : Char) : Decoder (List (Option α)) :=
  decodeTypedWithin Limits.unbounded separator

def decodeVariants {E : Type} (table : VariantTable E) (separator : Char) :
    Decoder (List (Option E)) :=
  decodeVariantsWithin table Limits.unbounded separator

end Wireform.ListFrame
