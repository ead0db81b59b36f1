import Wireform.ListText.Basic
/-! Reading list text by byte offsets.

This reader keeps a byte offset into the whole text and takes slices by offsets. A slice
that does not end between two characters of the text crashes it, and so does a round of the
loop over the elements beyond those that it is given.
-/

set_option autoImplicit false

namespace Wireform.ListText.Slices

/-- A computation that can crash or fail. -/
abbrev Checked (α : Type) : Type := ExceptT Fault Option α

def crash {α : Type} : Checked α := ExceptT.mk none

/-- A text cut at a byte offset, which may not be inside a character or past the end. -/
def splitBytes? : Nat → List Char → Option (List Char × List Char)
  | 0, text => some ([], text)
  | _ + 1, [] => none
  | n + 1, c :: rest =>
      if c.utf8Size ≤ n + 1 then
        (splitBytes? (n + 1 - c.utf8Size) rest).map fun (front, back) => (c :: front, back)
      else none

theorem splitBytes?_append (front back : List Char) :
    splitBytes? (utf8Size front) (front ++ back) = some (front, back) := by
  induction front with
  | nil => rw [utf8Size, splitBytes?, List.nil_append]
  | cons c front ih =>
    obtain ⟨size, same⟩ := Nat.exists_eq_add_one.mpr c.utf8Size_pos
    rw [utf8Size, same, Nat.add_right_comm, List.cons_append, splitBytes?, if_pos (by omega), same,
      show size + utf8Size front + 1 - (size + 1) = utf8Size front by omega, ih]
    rfl

theorem splitBytes?_eq_some_iff {n : Nat} {text front back : List Char} :
    splitBytes? n text = some (front, back) ↔ text = front ++ back ∧ utf8Size front = n := by
  constructor
  · intro cut
    fun_induction splitBytes? n text generalizing front with
    | case1 text =>
      cases cut
      exact ⟨rfl, rfl⟩
    | case2 => cases cut
    | case3 n c rest fits ih =>
      obtain ⟨⟨front, _⟩, cut, same⟩ := Option.map_eq_some_iff.mp cut
      cases same
      obtain ⟨rfl, size⟩ := ih cut
      refine ⟨rfl, ?_⟩
      rw [utf8Size, size]
      omega
    | case4 => cases cut
  · rintro ⟨rfl, rfl⟩
    exact splitBytes?_append front back

def sliceFrom (text : List Char) (start : Nat) : Checked (List Char) :=
  liftM ((splitBytes? start text).map Prod.snd)

def sliceTo (text : List Char) (stop : Nat) : Checked (List Char) :=
  liftM ((splitBytes? stop text).map Prod.fst)

def find? (mark text : List Char) : Option Nat :=
  (cut? mark text).map fun (before, _) => utf8Size before

def boundaries : List Char → List Nat
  | [] => [0]
  | c :: rest => 0 :: (boundaries rest).map (c.utf8Size + ·)

theorem getElem?_boundaries {text : List Char} {n stop : Nat} :
    (boundaries text)[n]? = some stop ↔ n ≤ text.length ∧ utf8Size (text.take n) = stop := by
  induction text generalizing n stop with
  | nil => cases n <;> simp [boundaries, utf8Size, eq_comm]
  | cons c rest ih =>
    cases n with
    | zero => simp [boundaries, utf8Size]
    | succ n =>
      simp only [boundaries, List.getElem?_cons_succ, List.getElem?_map, Option.map_eq_some_iff, ih,
        List.length_cons, Nat.add_le_add_iff_right, List.take_succ_cons, utf8Size]
      constructor
      · rintro ⟨_, ⟨le, rfl⟩, rfl⟩
        exact ⟨le, rfl⟩
      · rintro ⟨le, rfl⟩
        exact ⟨_, ⟨le, rfl⟩, rfl⟩

section reader

variable (text pre post : List Char)

def number (notInteger : TextFault) (start : Nat) : Checked (Int × Nat) := do
  let rest ← sliceFrom text start
  match find? pre rest with
  | none => throw (.malformedText start .missingSeparator)
  | some stop =>
      match Decimal.int64? (← sliceTo rest stop) with
      | none => throw (.malformedText start notInteger)
      | some n => return (n, start + stop + utf8Size pre)

def content (field : Nat) (length : Int) (start : Nat) : Checked (Option Located × Nat) := do
  if length = -1 then return (none, start)
  else if length < 0 then throw (.malformedText field .negativeLength)
  else
    let rest ← sliceFrom text start
    match (boundaries rest)[length.toNat]? with
    | none => throw (.malformedText field .elementPastEnd)
    | some stop =>
        let taken ← sliceTo rest stop
        return (some ⟨field, taken⟩, start + utf8Size taken)

def terminator (start : Nat) : Checked Nat := do
  if post.isPrefixOf (← sliceFrom text start) then return start + utf8Size post
  else throw (.malformedText start .missingTerminator)

def element (start : Nat) : Checked (Option Located × Nat) := do
  let (length, inside) ← number text pre .lengthNotInteger start
  let (item, behind) ← content text start length inside
  let next ← terminator text post behind
  return (item, next)

/-- The loop over `count` elements, for so many rounds at most. -/
def elements : Nat → Nat → Nat → Checked (List (Option Located) × Nat)
  | _, 0, start => return ([], start)
  | 0, _ + 1, _ => crash
  | rounds + 1, count + 1, start => do
      let (item, next) ← element text pre post start
      let (items, last) ← elements rounds count next
      return (item :: items, last)

def readLocated (limit rounds : Nat) : Checked (List (Option Located)) := do
  if pre.isEmpty then throw .emptySeparator
  else
    let (count, first) ← number text pre .countNotInteger 0
    if count < 0 then throw (.malformedText 0 .negativeCount)
    else if limit < count.toNat then throw (.listTooLong count.toNat limit)
    else
      let (items, last) ← elements text pre post rounds count.toNat first
      if last = utf8Size text then return items
      else throw (.malformedText last .trailingText)

end reader

def read (rounds : Nat) (text pre : String) (post : Option String) :
    Checked (List (Option String)) := do
  let items ← readLocated text.toList pre.toList (post.getD "").toList Limits.unbounded.list rounds
  return items.map (·.map fun item => String.ofList item.content)

end Wireform.ListText.Slices
