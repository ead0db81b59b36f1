import Wireform.Bytes
/-! JSON documents as they are written.

A document keeps what a value forgets: the digits of a number, the escapes of a
string, members that repeat a key. Reading checks the grammar alone, at any
depth; what numbers and strings denote is settled where they are used.
-/

set_option autoImplicit false

namespace Wireform.Json

/-- A number by its digits. There is no fraction where `fraction` is empty. -/
structure Number where
  negative : Bool
  whole : List Nat
  fraction : List Nat
  /-- Whether the exponent is negative, and its digits. -/
  exponent : Option (Bool × List Nat)
  deriving DecidableEq, Repr

/-- A piece of a string: a byte of UTF-8, or an escaped unit of UTF-16. -/
inductive Piece where
  | byte (value : UInt8)
  | unit (value : Nat)
  deriving DecidableEq, Repr

inductive Document where
  | null
  | bool (value : Bool)
  | number (value : Number)
  | string (pieces : List Piece)
  | array (items : List Document)
  | object (members : List (List Piece × Document))

/-- A reader takes what it needs from the front of a text whose characters are
bytes, and gives what it read and the rest. -/
abbrev Reader (α : Type) : Type := List Char → Option (α × List Char)

namespace Reader

def isBlank (c : Char) : Bool := c = ' ' || c = '\t' || c = '\n' || c = '\r'

def skipBlanks (text : List Char) : List Char := text.dropWhile isBlank

def digitValue (c : Char) : Nat := c.toNat - '0'.toNat

def digits (text : List Char) : List Nat × List Char :=
  ((text.takeWhile Char.isDigit).map digitValue, text.dropWhile Char.isDigit)

def whole : Reader (List Nat)
  | '0' :: rest => if (rest.takeWhile Char.isDigit).isEmpty then some ([0], rest) else none
  | text =>
      let (ds, rest) := digits text
      if ds.isEmpty then none else some (ds, rest)

def fraction : Reader (List Nat)
  | '.' :: rest =>
      let (ds, rest) := digits rest
      if ds.isEmpty then none else some (ds, rest)
  | text => some ([], text)

def exponent : Reader (Option (Bool × List Nat)) := fun text =>
  if text.head? = some 'e' ∨ text.head? = some 'E' then
    let signed := text.drop 1
    let negative := signed.head? = some '-'
    let (ds, rest) := digits (if negative ∨ signed.head? = some '+' then signed.drop 1 else signed)
    if ds.isEmpty then none else some (some (decide negative, ds), rest)
  else some (none, text)

def number : Reader Number := fun text => do
  let negative := text.head? = some '-'
  let (whole, rest) ← whole (if negative then text.drop 1 else text)
  let (fraction, rest) ← fraction rest
  let (exponent, rest) ← exponent rest
  some (⟨decide negative, whole, fraction, exponent⟩, rest)

def hexDigit? (c : Char) : Option Nat :=
  if c.isDigit then some (digitValue c)
  else if 'a' ≤ c ∧ c ≤ 'f' then some (c.toNat - 'a'.toNat + 10)
  else if 'A' ≤ c ∧ c ≤ 'F' then some (c.toNat - 'A'.toNat + 10)
  else none

def escape : Reader Piece
  | '"' :: rest => some (.byte 0x22, rest)
  | '\\' :: rest => some (.byte 0x5C, rest)
  | '/' :: rest => some (.byte 0x2F, rest)
  | 'b' :: rest => some (.byte 0x08, rest)
  | 'f' :: rest => some (.byte 0x0C, rest)
  | 'n' :: rest => some (.byte 0x0A, rest)
  | 'r' :: rest => some (.byte 0x0D, rest)
  | 't' :: rest => some (.byte 0x09, rest)
  | 'u' :: rest => do
      let ds ← (rest.take 4).mapM hexDigit?
      if ds.length = 4 then some (.unit (ds.foldl (fun acc d => 16 * acc + d) 0), rest.drop 4)
      else none
  | _ => none

def string : Nat → Reader (List Piece)
  | 0, _ => none
  | _ + 1, [] => none
  | fuel + 1, c :: rest =>
      if c = '"' then some ([], rest)
      else if c.toNat < 0x20 then none
      else do
        let (piece, rest) ← if c = '\\' then escape rest else some (.byte (UInt8.ofNat c.toNat), rest)
        let (pieces, rest) ← string fuel rest
        some (piece :: pieces, rest)

mutual

def value : Nat → Reader Document
  | 0, _ => none
  | fuel + 1, text =>
      match skipBlanks text with
      | 'n' :: 'u' :: 'l' :: 'l' :: rest => some (.null, rest)
      | 't' :: 'r' :: 'u' :: 'e' :: rest => some (.bool true, rest)
      | 'f' :: 'a' :: 'l' :: 's' :: 'e' :: rest => some (.bool false, rest)
      | '"' :: rest => (string rest.length rest).map fun (pieces, rest) => (.string pieces, rest)
      | '[' :: rest =>
          match skipBlanks rest with
          | ']' :: rest => some (.array [], rest)
          | rest => (items fuel rest).map fun (items, rest) => (.array items, rest)
      | '\x7b' :: rest =>
          match skipBlanks rest with
          | '\x7d' :: rest => some (.object [], rest)
          | rest => (members fuel rest).map fun (members, rest) => (.object members, rest)
      | rest => (number rest).map fun (n, rest) => (.number n, rest)

def items : Nat → Reader (List Document)
  | 0, _ => none
  | fuel + 1, text => do
      let (first, rest) ← value fuel text
      match skipBlanks rest with
      | ']' :: rest => some ([first], rest)
      | ',' :: rest => do
          let (others, rest) ← items fuel rest
          some (first :: others, rest)
      | _ => none

def members : Nat → Reader (List (List Piece × Document))
  | 0, _ => none
  | fuel + 1, text =>
      match skipBlanks text with
      | '"' :: rest => do
          let (key, rest) ← string rest.length rest
          match skipBlanks rest with
          | ':' :: rest => do
              let (first, rest) ← value fuel rest
              match skipBlanks rest with
              | '\x7d' :: rest => some ([(key, first)], rest)
              | ',' :: rest => do
                  let (others, rest) ← members fuel rest
                  some ((key, first) :: others, rest)
              | _ => none
          | _ => none
      | _ => none

end

end Reader

/-- The document that a byte string spells, with nothing but blanks around it. -/
def Document.read? (bytes : Bytes) : Option Document := do
  let text := bytes.map fun byte => Char.ofNat byte.toNat
  let (document, rest) ← Reader.value (2 * text.length + 2) text
  if (Reader.skipBlanks rest).isEmpty then some document else none

end Wireform.Json
