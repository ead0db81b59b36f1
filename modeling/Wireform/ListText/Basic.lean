import Wireform.Config
import Wireform.Element
/-! Lists as text.

The text is the number of elements and then, for each element, its length in
characters and its content, or -1 for an absent element. The separator `pre`
follows every number and the terminator `post` every element. Contents are cut
out by length, so they may hold either.

A number reaches up to the first separator after its start, so reading looks for
the separator in length fields only. Faults carry the byte offset of the field,
terminator or tail they are about. The value of an element is read only once the
whole list has been cut up, so a fault of the list comes before one of an element.
-/

set_option autoImplicit false

namespace Wireform.ListText

def numberField (pre : List Char) (n : Int) : List Char := Decimal.intText n ++ pre

def elementText (pre post : List Char) : Option (List Char) → List Char
  | none => numberField pre (-1) ++ post
  | some content => numberField pre content.length ++ content ++ post

def listText (pre post : List Char) (list : List (Option (List Char))) : List Char :=
  numberField pre list.length ++ list.flatMap (elementText pre post)

/-- The text of a list. An absent terminator is an empty one. -/
def write (list : List (Option String)) (pre : String) (post : Option String) :
    Except Fault String :=
  if pre.isEmpty then .error .emptySeparator
  else .ok (String.ofList
    (listText pre.toList (post.getD "").toList (list.map (·.map String.toList))))

/-- Where reading stands in a text: the bytes passed so far and what is left. -/
structure Place where
  offset : Nat
  rest : List Char
  deriving DecidableEq, Repr

def utf8Size : List Char → Nat
  | [] => 0
  | c :: rest => c.utf8Size + utf8Size rest

def Place.after (place : Place) (passed rest : List Char) : Place :=
  ⟨place.offset + utf8Size passed, rest⟩

@[simp] theorem utf8Size_append (first second : List Char) :
    utf8Size (first ++ second) = utf8Size first + utf8Size second := by
  induction first with
  | nil => simp [utf8Size]
  | cons c rest ih => simp [utf8Size, ih, Nat.add_assoc]

@[simp] theorem Place.rest_after (place : Place) (passed rest : List Char) :
    (place.after passed rest).rest = rest := rfl

@[simp] theorem Place.offset_after (place : Place) (passed rest : List Char) :
    (place.after passed rest).offset = place.offset + utf8Size passed := rfl

theorem Place.after_nil (place : Place) : place.after [] place.rest = place := rfl

@[simp] theorem Place.after_after (place : Place) (first second rest rest' : List Char) :
    (place.after first rest).after second rest' = place.after (first ++ second) rest' := by
  simp [after, Nat.add_assoc]

/-- The content of an element and the offset of its length. -/
structure Located where
  offset : Nat
  content : List Char
  deriving DecidableEq, Repr

/-- What stands before the first occurrence of `mark`, and what stands behind it. -/
def cut? (mark : List Char) : List Char → Option (List Char × List Char)
  | [] => if mark.isEmpty then some ([], []) else none
  | c :: rest =>
      if mark.isPrefixOf (c :: rest) then some ([], (c :: rest).drop mark.length)
      else (cut? mark rest).map fun (before, behind) => (c :: before, behind)

theorem eq_append_of_cut? {mark text before behind : List Char}
    (found : cut? mark text = some (before, behind)) : text = before ++ mark ++ behind := by
  induction text generalizing before behind with
  | nil =>
    unfold cut? at found
    split at found
    · cases found
      simp_all
    · cases found
  | cons c rest ih =>
    unfold cut? at found
    split at found
    · rename_i starts
      cases found
      obtain ⟨tail, same⟩ := List.isPrefixOf_iff_prefix.mp starts
      rw [← same, List.drop_left, List.nil_append]
    · obtain ⟨⟨before', behind'⟩, cut, same⟩ := Option.map_eq_some_iff.mp found
      cases same
      rw [ih cut]
      rfl

theorem cut?_append {mark before : List Char} (behind : List Char)
    (first : ∀ front back, before = front ++ back → back ≠ [] →
      ¬ mark <+: back ++ mark ++ behind) :
    cut? mark (before ++ mark ++ behind) = some (before, behind) := by
  induction before with
  | nil =>
    cases text : mark ++ behind with
    | nil =>
      obtain ⟨rfl, rfl⟩ := List.append_eq_nil_iff.mp text
      rfl
    | cons c rest =>
      have starts : mark.isPrefixOf (c :: rest) = true :=
        List.isPrefixOf_iff_prefix.mpr (text ▸ List.prefix_append mark behind)
      rw [List.nil_append, text, cut?, if_pos starts, ← text, List.drop_left]
  | cons c rest ih =>
    have later : cut? mark (rest ++ mark ++ behind) = some (rest, behind) :=
      ih fun front back same => first (c :: front) back (by rw [same]; rfl)
    have elsewhere : mark.isPrefixOf (c :: (rest ++ mark ++ behind)) = false := by
      rw [Bool.eq_false_iff]
      intro starts
      exact first [] (c :: rest) rfl (by simp) (List.isPrefixOf_iff_prefix.mp starts)
    rw [List.cons_append, List.cons_append, cut?, elsewhere, later]
    rfl

/-- The number at a place and the place behind its separator. -/
def number (pre : List Char) (notInteger : TextFault) (place : Place) :
    Except Fault (Int × Place) :=
  match cut? pre place.rest with
  | none => .error (.malformedText place.offset .missingSeparator)
  | some (digits, rest) =>
      match Decimal.int64? digits with
      | none => .error (.malformedText place.offset notInteger)
      | some n => .ok (n, place.after (digits ++ pre) rest)

def terminator (post : List Char) (place : Place) : Except Fault Place :=
  if post.isPrefixOf place.rest then .ok (place.after post (place.rest.drop post.length))
  else .error (.malformedText place.offset .missingTerminator)

/-- The content of `length` characters behind the length field that starts at `field`. -/
def content (field : Nat) (length : Int) (place : Place) :
    Except Fault (Option Located × Place) :=
  if length = -1 then .ok (none, place)
  else if length < 0 then .error (.malformedText field .negativeLength)
  else
    let taken := place.rest.take length.toNat
    if taken.length < length.toNat then .error (.malformedText field .elementPastEnd)
    else .ok (some ⟨field, taken⟩, place.after taken (place.rest.drop length.toNat))

def element (pre post : List Char) (place : Place) : Except Fault (Option Located × Place) := do
  let (length, inside) ← number pre .lengthNotInteger place
  let (item, behind) ← content place.offset length inside
  let next ← terminator post behind
  return (item, next)

def elements (pre post : List Char) : Nat → Place → Except Fault (List (Option Located) × Place)
  | 0, place => .ok ([], place)
  | count + 1, place => do
      let (item, next) ← element pre post place
      let (items, last) ← elements pre post count next
      return (item :: items, last)

/-- All elements of a text, of which there may be at most `limit`. -/
def readLocated (limit : Nat) (pre post text : List Char) : Except Fault (List (Option Located)) :=
  if pre.isEmpty then .error .emptySeparator
  else do
    let (count, first) ← number pre .countNotInteger ⟨0, text⟩
    if count < 0 then .error (.malformedText 0 .negativeCount)
    else if limit < count.toNat then .error (.listTooLong count.toNat limit)
    else
      let (items, last) ← elements pre post count.toNat first
      if last.rest.isEmpty then .ok items
      else .error (.malformedText last.offset .trailingText)

def readWithin (limit : Nat) (text pre : String) (post : Option String) :
    Except Fault (List (Option String)) := do
  let items ← readLocated limit pre.toList (post.getD "").toList text.toList
  return items.map (·.map fun item => String.ofList item.content)

def read (text pre : String) (post : Option String) : Except Fault (List (Option String)) :=
  readWithin Limits.unbounded.list text pre post

section typed

variable {α : Type} [Element α]

def writeTyped (list : List (Option α)) (pre : String) (post : Option String) :
    Except Fault String :=
  write (list.map (·.map Element.toText)) pre post

def interpret : Option Located → Except Fault (Option α)
  | none => .ok none
  | some item =>
      match Element.ofText? (String.ofList item.content) with
      | some value => .ok (some value)
      | none => .error (.malformedText item.offset .elementUnreadable)

def readTypedWithin (limit : Nat) (text pre : String) (post : Option String) :
    Except Fault (List (Option α)) := do
  let items ← readLocated limit pre.toList (post.getD "").toList text.toList
  items.mapM interpret

def readTyped (text pre : String) (post : Option String) : Except Fault (List (Option α)) :=
  readTypedWithin Limits.unbounded.list text pre post

end typed

end Wireform.ListText
