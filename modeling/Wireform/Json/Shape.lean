import Wireform.Json.Printer
import Wireform.Object
/-! JSON documents of a known shape, as object payloads.

A record is an object that has each of its fields once, in any order and among
any others, or an array of just its fields in order. What a record has no use for
is not looked into. Arrays and objects nest at most 127 deep where they are.
-/

set_option autoImplicit false

namespace Wireform.Json

structure Shape (α : Type) where
  toValue : α → Value
  /-- The value of a document that may nest to the given depth. -/
  ofDocument? : Nat → Document → Option α

namespace Shape

def any : Shape Value := ⟨id, Value.ofDocument?⟩

def string : Shape String where
  toValue := .string
  ofDocument?
    | _, .string pieces => textOf? pieces
    | _, _ => none

/-- A natural number of 32 bits, written without fraction or exponent. -/
def word32 : Shape UInt32 where
  toValue n := .int n.toNat
  ofDocument?
    | _, .number number =>
        match number.toValue? with
        | some (.int n) => if 0 ≤ n ∧ n < 2 ^ 32 then some (UInt32.ofNat n.toNat) else none
        | _ => none
    | _, _ => none

/-- A double; an integer is rounded to one. -/
def double : Shape (Binary .double) where
  toValue := .float
  ofDocument?
    | _, .number number =>
        match number.toValue? with
        | some (.int n) =>
            some (Binary.ofMagnitude .double (n < 0) (BinaryFormat.double.round n.natAbs 1))
        | some (.float x) => some x
        | _ => none
    | _, _ => none

variable {α β : Type}

def optional (shape : Shape α) : Shape (Option α) where
  toValue
    | none => .null
    | some value => shape.toValue value
  ofDocument?
    | _, .null => some none
    | depth, document => (shape.ofDocument? depth document).map some

def list (shape : Shape α) : Shape (List α) where
  toValue items := .array (items.map shape.toValue)
  ofDocument?
    | depth + 1, .array items => items.mapM (shape.ofDocument? depth)
    | _, _ => none

end Shape

structure Fields (α : Type) where
  members : α → List (String × Value)
  /-- The fields among members by name. -/
  ofMembers? : Nat → List (String × Document) → Option α
  /-- The fields at the front of a list of documents, and the rest of it. -/
  ofItems? : Nat → List Document → Option (α × List Document)

namespace Fields

variable {α β : Type}

def one (name : String) (shape : Shape α) : Fields α where
  members value := [(name, shape.toValue value)]
  ofMembers? depth members :=
    match members.filter (·.1 = name) with
    | [(_, document)] => shape.ofDocument? depth document
    | _ => none
  ofItems?
    | _, [] => none
    | depth, first :: rest => (shape.ofDocument? depth first).map fun value => (value, rest)

def and (first : Fields α) (second : Fields β) : Fields (α × β) where
  members value := first.members value.1 ++ second.members value.2
  ofMembers? depth members := do
    let x ← first.ofMembers? depth members
    let y ← second.ofMembers? depth members
    some (x, y)
  ofItems? depth items := do
    let (x, items) ← first.ofItems? depth items
    let (y, items) ← second.ofItems? depth items
    some ((x, y), items)

end Fields

namespace Shape

variable {α : Type}

def record (fields : Fields α) : Shape α where
  toValue value := .object (fields.members value)
  ofDocument?
    | depth + 1, .object members => do
        let members ← members.mapM fun (pieces, document) => (textOf? pieces).map (·, document)
        fields.ofMembers? depth members
    | depth + 1, .array items =>
        match fields.ofItems? depth items with
        | some (value, []) => some value
        | _ => none
    | _, _ => none

def maxDepth : Nat := 127

def read? (shape : Shape α) (bytes : Bytes) : Option α :=
  (Document.read? bytes).bind (shape.ofDocument? maxDepth)

/-- The capability that writes values as compact JSON text. -/
def codec (shape : Shape α) : ObjectCodec α where
  toBytes value := .ok (Utf8.encode (shape.toValue value).print)
  ofBytes bytes :=
    match shape.read? bytes with
    | some value => .ok value
    | none => .error "not a JSON document of the expected shape"

end Shape

end Wireform.Json
