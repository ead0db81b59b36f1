import Wireform.Decimal
/-! Values that can stand in a list, by their canonical text. -/

set_option autoImplicit false

namespace Wireform

class Element (α : Type) where
  toText : α → String
  ofText? : String → Option α

namespace Element

instance : Element String := ⟨id, some⟩

def boolText : Bool → String
  | true => "true"
  | false => "false"

def bool? (text : String) : Option Bool :=
  if text = "true" then some true else if text = "false" then some false else none

instance : Element Bool := ⟨boolText, bool?⟩

def integerText (n : Int) : String := String.ofList (Decimal.intText n)

/-- An integer that a signed word of `bits` bits holds. -/
def integer? (bits : Nat) (text : String) : Option Int :=
  Decimal.intWithin? (-2 ^ (bits - 1)) (2 ^ (bits - 1) - 1) text.toList

instance : Element Int8 := ⟨fun n => integerText n.toInt, fun text => (integer? 8 text).map Int8.ofInt⟩

instance : Element Int16 :=
  ⟨fun n => integerText n.toInt, fun text => (integer? 16 text).map Int16.ofInt⟩

instance : Element Int32 :=
  ⟨fun n => integerText n.toInt, fun text => (integer? 32 text).map Int32.ofInt⟩

instance : Element Int64 :=
  ⟨fun n => integerText n.toInt, fun text => (integer? 64 text).map Int64.ofInt⟩

theorem integer?_integerText {bits : Nat} {n : Int} (above : -2 ^ (bits - 1) ≤ n)
    (below : n ≤ 2 ^ (bits - 1) - 1) : integer? bits (integerText n) = some n := by
  rw [integer?, integerText, String.toList_ofList, Decimal.intWithin?_intText above below]

theorem bool?_boolText (value : Bool) : bool? (boolText value) = some value := by
  cases value <;> decide

end Element

end Wireform
