import Wireform.Config
/-! Configurations as flat TOML documents: lines of `key = value` where a value is
an integer or a string.

Tables, dotted keys and the other kinds of value have no use in a flat document
and are not read. Each reader takes what it needs from the front of a text and
gives the value and the rest. Of a configuration, keys left out take their
defaults; a key that is not known, or a value of another kind, is refused.
-/

set_option autoImplicit false

namespace Wireform.Toml

inductive Value where
  | integer (n : Int)
  | string (text : String)
  deriving DecidableEq, Repr

abbrev Reader (α : Type) : Type := List Char → Option (α × List Char)

def isBlank (c : Char) : Bool := c = ' ' || c = '\t'

def isPlain (c : Char) : Bool := c = '\t' || (0x20 ≤ c.toNat && c.toNat ≠ 0x7F)

def isBare (c : Char) : Bool := c.isAlphanum || c = '_' || c = '-'

def skipBlanks (text : List Char) : List Char := text.dropWhile isBlank

def newline? : List Char → Option (List Char)
  | '\n' :: rest => some rest
  | '\r' :: '\n' :: rest => some rest
  | _ => none

def hexDigit? (c : Char) : Option Nat :=
  if c.isDigit then some (c.toNat - '0'.toNat)
  else if 'a' ≤ c ∧ c ≤ 'f' then some (c.toNat - 'a'.toNat + 10)
  else if 'A' ≤ c ∧ c ≤ 'F' then some (c.toNat - 'A'.toNat + 10)
  else none

def codePoint (count : Nat) : Reader Char := fun text => do
  let digits ← (text.take count).mapM hexDigit?
  let code := digits.foldl (fun acc d => 16 * acc + d) 0
  if digits.length = count ∧ code.isValidChar then some (Char.ofNat code, text.drop count) else none

def escape : Reader Char
  | 'b' :: rest => some ('\x08', rest)
  | 't' :: rest => some ('\t', rest)
  | 'n' :: rest => some ('\n', rest)
  | 'f' :: rest => some ('\x0c', rest)
  | 'r' :: rest => some ('\r', rest)
  | '"' :: rest => some ('"', rest)
  | '\\' :: rest => some ('\\', rest)
  | 'u' :: rest => codePoint 4 rest
  | 'U' :: rest => codePoint 8 rest
  | _ => none

/-- What is left behind a backslash at the end of a line: the line break and all
blanks and line breaks after it are passed over. -/
def continuation? (text : List Char) : Option (List Char) := do
  let rest ← newline? (skipBlanks text)
  some (skip rest.length rest)
where
  skip : Nat → List Char → List Char
    | 0, text => text
    | fuel + 1, text =>
        match newline? (skipBlanks text) with
        | some rest => skip fuel rest
        | none => skipBlanks text

inductive Quote where
  | basic
  | literal

def Quote.mark : Quote → Char
  | basic => '"'
  | literal => '\''

def lineString (quote : Quote) : Nat → Reader (List Char)
  | 0, _ => none
  | _ + 1, [] => none
  | fuel + 1, c :: rest =>
      if c = quote.mark then some ([], rest)
      else do
        let (c, rest) ←
          match quote, c with
          | .basic, '\\' => escape rest
          | _, c => if isPlain c then some (c, rest) else none
        let (text, rest) ← lineString quote fuel rest
        some (c :: text, rest)

/-- The rest of a string over several lines, up to and with its three closing
quotes. One or two more quotes may stand right before those. -/
def blockString (quote : Quote) : Nat → Reader (List Char)
  | 0, _ => none
  | _ + 1, [] => none
  | fuel + 1, c :: rest =>
      if c = quote.mark then
        let run := 1 + (rest.takeWhile (· = quote.mark)).length
        if 3 ≤ run then
          let extra := min (run - 3) 2
          some (List.replicate extra c, rest.drop (extra + 2))
        else do
          let (text, rest) ← blockString quote fuel rest
          some (c :: text, rest)
      else
        match quote, c with
        | .basic, '\\' =>
            match continuation? rest with
            | some rest => blockString quote fuel rest
            | none => do
                let (c, rest) ← escape rest
                let (text, rest) ← blockString quote fuel rest
                some (c :: text, rest)
        | _, c =>
            match newline? (c :: rest) with
            | some rest => do
                let (text, rest) ← blockString quote fuel rest
                some ('\n' :: text, rest)
            | none =>
                if isPlain c then do
                  let (text, rest) ← blockString quote fuel rest
                  some (c :: text, rest)
                else none

/-- A string behind its opening quote. A line break right after three opening
quotes does not belong to it. -/
def quoted (quote : Quote) (text : List Char) : Option (List Char × List Char) :=
  if [quote.mark, quote.mark].isPrefixOf text then
    let body := text.drop 2
    blockString quote text.length ((newline? body).getD body)
  else lineString quote text.length text

/-- Digits of a base with single underscores between them. -/
def digits (digit? : Char → Option Nat) : Nat → Reader (List Nat)
  | 0, _ => none
  | _ + 1, [] => none
  | fuel + 1, c :: rest => do
      let d ← digit? c
      match rest with
      | '_' :: more => do
          let (ds, rest) ← digits digit? fuel more
          some (d :: ds, rest)
      | [] => some ([d], [])
      | next :: _ =>
          if (digit? next).isSome then do
            let (ds, rest) ← digits digit? fuel rest
            some (d :: ds, rest)
          else some ([d], rest)

def natural (base : Nat) : Reader Nat := fun text => do
  let digit? := fun c => (hexDigit? c).filter (· < base)
  let (ds, rest) ← digits digit? text.length text
  some (ds.foldl (fun acc d => base * acc + d) 0, rest)

def decimal : Reader Nat
  | '0' :: rest => some (0, rest)
  | text => natural 10 text

/-- An integer of 64 bits. Only a decimal one can have a sign. -/
def integer : Reader Int := fun text => do
  let (n, rest) ←
    match text with
    | '0' :: 'x' :: rest => (natural 16 rest).map fun (n, rest) => ((n : Int), rest)
    | '0' :: 'o' :: rest => (natural 8 rest).map fun (n, rest) => ((n : Int), rest)
    | '0' :: 'b' :: rest => (natural 2 rest).map fun (n, rest) => ((n : Int), rest)
    | '+' :: rest => (decimal rest).map fun (n, rest) => ((n : Int), rest)
    | '-' :: rest => (decimal rest).map fun (n, rest) => (-(n : Int), rest)
    | text => (decimal text).map fun (n, rest) => ((n : Int), rest)
  if -2 ^ 63 ≤ n ∧ n ≤ 2 ^ 63 - 1 then some (n, rest) else none

def value : Reader Value
  | '"' :: rest => (quoted .basic rest).map fun (text, rest) => (.string (String.ofList text), rest)
  | '\'' :: rest => (quoted .literal rest).map fun (text, rest) => (.string (String.ofList text), rest)
  | text => (integer text).map fun (n, rest) => (.integer n, rest)

def key : Reader String
  | '"' :: rest => (lineString .basic rest.length rest).map fun (text, rest) => (String.ofList text, rest)
  | '\'' :: rest =>
      (lineString .literal rest.length rest).map fun (text, rest) => (String.ofList text, rest)
  | text =>
      let name := text.takeWhile isBare
      if name.isEmpty then none else some (String.ofList name, text.dropWhile isBare)

def lineEnd? (text : List Char) : Option (List Char) :=
  let rest :=
    match skipBlanks text with
    | '#' :: comment => comment.dropWhile isPlain
    | rest => rest
  if rest.isEmpty then some [] else newline? rest

def entry : Reader (String × Value) := fun text => do
  let (key, rest) ← key text
  match skipBlanks rest with
  | '=' :: rest => do
      let (value, rest) ← value (skipBlanks rest)
      let rest ← lineEnd? rest
      some ((key, value), rest)
  | _ => none

def entries? : Nat → List Char → Option (List (String × Value))
  | 0, text => if text.isEmpty then some [] else none
  | fuel + 1, text =>
      let text := skipBlanks text
      if text.isEmpty then some []
      else
        match lineEnd? text with
        | some rest => entries? fuel rest
        | none => do
            let (first, rest) ← entry text
            let others ← entries? fuel rest
            some (first :: others)

/-- The entries of a document in order. No key comes twice. -/
def read? (source : String) : Option (List (String × Value)) := do
  let text := source.toList
  let text := if text.head? = some '\uFEFF' then text.drop 1 else text
  let entries ← entries? text.length text
  if (entries.map Prod.fst).Nodup then some entries else none

example : read? "a = 0x1_0 # hex\r\n\"b\" = 'x'" =
    some [("a", .integer 16), ("b", .string "x")] := by decide +kernel
example : read? "a = 01" = none := by decide +kernel
example : read? "a = \"\"\"\n;\"\"\"\"" = some [("a", .string ";\"")] := by decide +kernel

end Wireform.Toml

namespace Wireform.Config

def limit? (standard : Nat) : Option Toml.Value → Option Nat
  | none => some standard
  | some (.integer n) => if 0 ≤ n then some n.toNat else none
  | some (.string _) => none

def separator? (standard : Char) : Option Toml.Value → Option Char
  | none => some standard
  | some (.integer _) => none
  | some (.string text) =>
      match text.toList with
      | [c] => some c
      | _ => none

def ofEntries? (entries : List (String × Toml.Value)) : Option Config := do
  let standard : Config := default
  let frame ← limit? standard.maxFrameLen (entries.lookup "max_frame_len")
  let list ← limit? standard.maxListLen (entries.lookup "max_list_len")
  let separator ← separator? standard.listSeparator (entries.lookup "list_separator")
  let known := ["max_frame_len", "max_list_len", "list_separator"]
  if entries.all fun entry => known.contains entry.1 then some ⟨frame, list, separator⟩ else none

def ofToml (source : String) : Except Fault Config :=
  match (Toml.read? source).bind ofEntries? with
  | none => .error (.invalidConfig (.source "expected lines that set known keys to values of their kind"))
  | some config => config.validate

end Wireform.Config
