import Wireform.Proofs.ListText.NumberField
/-! How a list can be spelled.

A spelling keeps what a list leaves open: the numerals chosen for the count and
for every length. The steps of the reader are described by the pieces of text
that they accept.
-/

set_option autoImplicit false

namespace Wireform.ListText

/-- The length that is written for an element. -/
def elementLength : Option (List Char) → Int
  | none => -1
  | some content => content.length

/-- One element as it stands in a text: the numeral of its length and its content. -/
structure Piece where
  digits : List Char
  content? : Option (List Char)
  deriving DecidableEq, Repr

namespace Piece

def text (pre post : List Char) (piece : Piece) : List Char :=
  piece.digits ++ pre ++ piece.content?.getD [] ++ post

def WellFormed (pre : List Char) (piece : Piece) : Prop :=
  NumberField pre piece.digits (elementLength piece.content?)

instance (pre : List Char) (piece : Piece) : Decidable (piece.WellFormed pre) :=
  inferInstanceAs (Decidable (NumberField _ _ _))

/-- The element that is read from a piece whose length starts at `offset`. -/
def locate (offset : Nat) (piece : Piece) : Option Located :=
  piece.content?.map (Located.mk offset)

def locateAll (pre post : List Char) : Nat → List Piece → List (Option Located)
  | _, [] => []
  | offset, piece :: rest =>
      piece.locate offset :: locateAll pre post (offset + utf8Size (piece.text pre post)) rest

theorem content_locate (offset : Nat) (piece : Piece) :
    (piece.locate offset).map Located.content = piece.content? := by
  simp [locate, Function.comp_def]

theorem content_locateAll (pre post : List Char) (offset : Nat) (pieces : List Piece) :
    (locateAll pre post offset pieces).map (·.map Located.content) = pieces.map content? := by
  induction pieces generalizing offset with
  | nil => rfl
  | cons piece rest ih => simp [locateAll, content_locate, ih]

theorem getElem?_locateAll (pre post : List Char) (offset : Nat) (pieces : List Piece) (i : Nat) :
    (locateAll pre post offset pieces)[i]? =
      pieces[i]?.map (locate (offset + utf8Size ((pieces.take i).flatMap (text pre post)))) := by
  induction pieces generalizing offset i with
  | nil => rfl
  | cons piece rest ih =>
    cases i with
    | zero => rfl
    | succ i => simp [locateAll, ih, Nat.add_assoc]

end Piece

/-- A whole list as it stands in a text. -/
structure Spelling where
  count : List Char
  pieces : List Piece
  deriving DecidableEq, Repr

namespace Spelling

def text (pre post : List Char) (spelling : Spelling) : List Char :=
  spelling.count ++ pre ++ spelling.pieces.flatMap (Piece.text pre post)

structure WellFormed (pre : List Char) (spelling : Spelling) : Prop where
  count : NumberField pre spelling.count spelling.pieces.length
  pieces : ∀ piece ∈ spelling.pieces, piece.WellFormed pre

instance (pre : List Char) (spelling : Spelling) : Decidable (spelling.WellFormed pre) :=
  decidable_of_iff (NumberField pre spelling.count spelling.pieces.length ∧
      ∀ piece ∈ spelling.pieces, piece.WellFormed pre)
    ⟨fun wellFormed => ⟨wellFormed.1, wellFormed.2⟩,
      fun wellFormed => ⟨wellFormed.count, wellFormed.pieces⟩⟩

/-- The list that is spelled. -/
def list (spelling : Spelling) : List (Option String) :=
  spelling.pieces.map fun piece => piece.content?.map String.ofList

/-- The elements of the list, each with the place of its length. -/
def located (pre post : List Char) (spelling : Spelling) : List (Option Located) :=
  Piece.locateAll pre post (utf8Size (spelling.count ++ pre)) spelling.pieces

theorem list_located (pre post : List Char) (spelling : Spelling) :
    (spelling.located pre post).map (·.map fun item => String.ofList item.content) =
      spelling.list := by
  have contents := Piece.content_locateAll pre post (utf8Size (spelling.count ++ pre)) spelling.pieces
  have texts := congrArg (List.map (Option.map String.ofList)) contents
  simpa [located, list, Function.comp_def] using texts

end Spelling

theorem elementLength_eq_neg_one {content? : Option (List Char)} :
    elementLength content? = -1 ↔ content? = none := by
  cases content? <;> simp [elementLength]

/-- The content of an element can be told from what follows it by its length. -/
theorem content_unique {content? other? : Option (List Char)} {rest rest' : List Char}
    (lengths : elementLength content? = elementLength other?)
    (same : content?.getD [] ++ rest = other?.getD [] ++ rest') :
    content? = other? ∧ rest = rest' := by
  cases content? with
  | none =>
    rw [elementLength, eq_comm, elementLength_eq_neg_one] at lengths
    subst lengths
    exact ⟨rfl, same⟩
  | some content =>
    cases other? with
    | none => exact absurd (elementLength_eq_neg_one.mp lengths) (by simp)
    | some other =>
      obtain ⟨rfl, behind⟩ := List.append_inj same (Int.ofNat.inj lengths)
      exact ⟨rfl, behind⟩

theorem terminator_eq_ok_iff {post : List Char} {place next : Place} :
    terminator post place = .ok next ↔
      ∃ rest, place.rest = post ++ rest ∧ next = place.after post rest := by
  constructor
  · intro read
    unfold terminator at read
    split at read
    · rename_i starts
      obtain ⟨rest, same⟩ := List.isPrefixOf_iff_prefix.mp starts
      cases read
      exact ⟨rest, same.symm, by rw [← same, List.drop_left]⟩
    · cases read
  · rintro ⟨rest, same, rfl⟩
    have starts : post.isPrefixOf place.rest = true :=
      List.isPrefixOf_iff_prefix.mpr ⟨rest, same.symm⟩
    rw [terminator, if_pos starts, same, List.drop_left]

theorem content_eq_ok_iff {field : Nat} {length : Int} {place next : Place} {item : Option Located} :
    content field length place = .ok (item, next) ↔
      ∃ content? rest, length = elementLength content? ∧ place.rest = content?.getD [] ++ rest ∧
        item = content?.map (Located.mk field) ∧ next = place.after (content?.getD []) rest := by
  constructor
  · intro read
    unfold content at read
    split at read
    · rename_i absent
      cases read
      exact ⟨none, place.rest, absent, rfl, rfl, place.after_nil.symm⟩
    split at read
    · cases read
    dsimp only at read
    split at read
    · cases read
    · rename_i nonnegative enough
      cases read
      -- Enough was left, so what was taken has the length that was declared.
      refine ⟨some _, _, ?_, (List.take_append_drop _ _).symm, rfl, rfl⟩
      rw [List.length_take] at enough
      rw [elementLength, List.length_take]
      omega
  · rintro ⟨content?, rest, rfl, whole, rfl, rfl⟩
    cases content? with
    | none =>
      cases (show place.rest = rest from whole)
      rfl
    | some taken =>
      have front : place.rest.take taken.length = taken := by
        rw [whole, Option.getD_some, List.take_left]
      have back : place.rest.drop taken.length = rest := by
        rw [whole, Option.getD_some, List.drop_left]
      rw [content, elementLength, if_neg (by omega), if_neg (by omega), Int.toNat_natCast, front, back]
      simp

theorem element_eq_ok_iff {pre post : List Char} {place next : Place} {item : Option Located} :
    element pre post place = .ok (item, next) ↔
      ∃ piece rest, Piece.WellFormed pre piece ∧ place.rest = piece.text pre post ++ rest ∧
        item = piece.locate place.offset ∧ next = place.after (piece.text pre post) rest := by
  simp only [element, Fault.bind_eq_ok_iff, Fault.pure_eq_ok_iff, Prod.exists, number_eq_ok_iff,
    content_eq_ok_iff, terminator_eq_ok_iff, Prod.mk.injEq]
  constructor
  · rintro ⟨_, _, ⟨digits, _, field, whole, rfl⟩, _, _, ⟨content?, _, rfl, inside, rfl, rfl⟩,
      _, ⟨rest, behind, rfl⟩, rfl, rfl⟩
    rw [Place.rest_after] at inside behind
    subst inside behind
    refine ⟨⟨digits, content?⟩, rest, field, ?_, rfl, ?_⟩
    · simp [whole, Piece.text]
    · simp [Piece.text]
  · rintro ⟨piece, rest, wellFormed, whole, rfl, rfl⟩
    have fields : place.rest = piece.digits ++ pre ++ (piece.content?.getD [] ++ (post ++ rest)) := by
      simp [whole, Piece.text]
    refine ⟨_, _, ⟨piece.digits, _, wellFormed, fields, rfl⟩, _, _,
      ⟨piece.content?, post ++ rest, rfl, rfl, rfl, rfl⟩, _, ⟨rest, rfl, rfl⟩, rfl, ?_⟩
    simp [Piece.text]

theorem elements_eq_ok_iff {pre post : List Char} {count : Nat} {place last : Place}
    {items : List (Option Located)} :
    elements pre post count place = .ok (items, last) ↔
      ∃ pieces rest, pieces.length = count ∧ (∀ piece ∈ pieces, Piece.WellFormed pre piece) ∧
        place.rest = pieces.flatMap (Piece.text pre post) ++ rest ∧
        items = Piece.locateAll pre post place.offset pieces ∧
        last = place.after (pieces.flatMap (Piece.text pre post)) rest := by
  induction count generalizing place last items with
  | zero =>
    simp only [elements, List.length_eq_zero_iff, Except.ok.injEq, Prod.mk.injEq]
    constructor
    · rintro ⟨rfl, rfl⟩
      exact ⟨[], place.rest, rfl, by simp, rfl, rfl, place.after_nil.symm⟩
    · rintro ⟨_, rest, rfl, _, whole, rfl, rfl⟩
      cases (show place.rest = rest from whole)
      exact ⟨rfl, place.after_nil.symm⟩
  | succ count ih =>
    simp only [elements, Fault.bind_eq_ok_iff, Fault.pure_eq_ok_iff, Prod.exists, element_eq_ok_iff,
      Prod.mk.injEq, ih]
    constructor
    · rintro ⟨_, _, ⟨piece, _, wellFormed, whole, rfl, rfl⟩, _, _,
        ⟨pieces, rest, rfl, others, tail, rfl, rfl⟩, rfl, rfl⟩
      rw [Place.rest_after] at tail
      subst tail
      refine ⟨piece :: pieces, rest, rfl, List.forall_mem_cons.mpr ⟨wellFormed, others⟩, ?_, rfl, ?_⟩
      · simp [whole]
      · simp
    · rintro ⟨pieces, rest, length, all, whole, rfl, rfl⟩
      obtain ⟨piece, pieces, rfl⟩ := List.exists_cons_of_length_eq_add_one length
      obtain ⟨wellFormed, others⟩ := List.forall_mem_cons.mp all
      refine ⟨_, _, ⟨piece, _, wellFormed, ?_, rfl, rfl⟩, _, _,
        ⟨pieces, rest, Nat.succ.inj length, others, rfl, rfl, rfl⟩, rfl, ?_⟩
      · simp [whole]
      · simp

end Wireform.ListText
