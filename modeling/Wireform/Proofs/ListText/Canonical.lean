import Wireform.Proofs.ListText.Grammar
/-! The spelling that is written.

Writing chooses the shortest numeral for every number. No other spelling has the
same text, so what was written reads back just where the written spelling is
well formed (`readWithin_write_iff`).
-/

set_option autoImplicit false

namespace Wireform.ListText

variable {pre post : List Char}

def Piece.canonical (content? : Option (List Char)) : Piece :=
  ⟨Decimal.intText (elementLength content?), content?⟩

def Spelling.canonical (list : List (Option String)) : Spelling where
  count := Decimal.intText list.length
  pieces := list.map fun element => Piece.canonical (element.map String.toList)

theorem Piece.text_canonical (content? : Option (List Char)) :
    (canonical content?).text pre post = elementText pre post content? := by
  cases content? <;> simp [canonical, text, elementText, numberField, elementLength]

theorem Spelling.text_canonical (list : List (Option String)) :
    (canonical list).text pre post = listText pre post (list.map (·.map String.toList)) := by
  simp [text, canonical, listText, numberField, List.flatMap_map, Piece.text_canonical]

theorem Spelling.list_canonical (list : List (Option String)) : (canonical list).list = list := by
  simp [Spelling.list, canonical, Piece.canonical, Function.comp_def]

theorem Spelling.length_canonical (list : List (Option String)) :
    (canonical list).pieces.length = list.length := List.length_map _

/-- Where a shortest numeral was written, no other number field of its number is found. -/
theorem NumberField.eq_intText {digits rest tail : List Char} {n : Int}
    (field : NumberField pre digits n)
    (same : digits ++ pre ++ rest = Decimal.intText n ++ pre ++ tail) :
    digits = Decimal.intText n ∧ rest = tail := by
  -- The separator found first bounds the numeral from above, its number from below.
  have le := field.first.length_le same
  have ge := field.denotes.length_intText_le
  rw [List.append_assoc, List.append_assoc] at same
  obtain ⟨digits, behind⟩ := List.append_inj same (Nat.le_antisymm le ge)
  exact ⟨digits, List.append_cancel_left behind⟩

theorem Piece.eq_canonical {piece : Piece} {rest tail : List Char}
    (wellFormed : piece.WellFormed pre)
    (same : piece.text pre post ++ rest = (canonical piece.content?).text pre post ++ tail) :
    piece = canonical piece.content? ∧ rest = tail := by
  have fields : piece.digits ++ pre ++ (piece.content?.getD [] ++ (post ++ rest)) =
      Decimal.intText (elementLength piece.content?) ++ pre ++
        (piece.content?.getD [] ++ (post ++ tail)) := by
    simpa [text, canonical] using same
  obtain ⟨digits, inside⟩ := NumberField.eq_intText wellFormed fields
  refine ⟨?_, List.append_cancel_left (List.append_cancel_left inside)⟩
  rw [canonical, ← digits]

theorem Piece.eq_canonical_all {pieces : List Piece}
    (wellFormed : ∀ piece ∈ pieces, piece.WellFormed pre)
    (same : pieces.flatMap (Piece.text pre post) =
      pieces.flatMap fun piece => (canonical piece.content?).text pre post) :
    pieces = pieces.map fun piece => canonical piece.content? := by
  induction pieces with
  | nil => rfl
  | cons piece pieces ih =>
    obtain ⟨here, others⟩ := List.forall_mem_cons.mp wellFormed
    obtain ⟨first, behind⟩ := Piece.eq_canonical here same
    rw [List.map_cons, ← first, ← ih others behind]

theorem Spelling.wellFormed_canonical_iff {list : List (Option String)} :
    (canonical list).WellFormed pre ↔
      NumberField pre (Decimal.intText list.length) list.length ∧
        ∀ element ∈ list, (Piece.canonical (element.map String.toList)).WellFormed pre := by
  constructor
  · rintro ⟨count, pieces⟩
    rw [length_canonical] at count
    exact ⟨count, fun element member => pieces _ (List.mem_map.mpr ⟨element, member, rfl⟩)⟩
  · rintro ⟨count, elements⟩
    refine ⟨?_, ?_⟩
    · rw [length_canonical]
      exact count
    · intro piece member
      obtain ⟨element, inside, rfl⟩ := List.mem_map.mp member
      exact elements element inside

theorem Spelling.canonical_list (spelling : Spelling) : canonical spelling.list =
    ⟨Decimal.intText spelling.pieces.length,
      spelling.pieces.map fun piece => Piece.canonical piece.content?⟩ := by
  simp [canonical, list, Function.comp_def]

/-- A spelling with the text that is written for its list is the written one. -/
theorem Spelling.eq_canonical {spelling : Spelling} (wellFormed : spelling.WellFormed pre)
    (same : spelling.text pre post = (canonical spelling.list).text pre post) :
    spelling = canonical spelling.list := by
  rw [canonical_list, text, text, List.flatMap_map] at same
  obtain ⟨count, behind⟩ := wellFormed.count.eq_intText same
  have pieces := Piece.eq_canonical_all wellFormed.pieces behind
  rw [canonical_list, ← count, ← pieces]

theorem toList_of_write {text pre : String} {post : Option String} {list : List (Option String)}
    (written : write list pre post = .ok text) :
    text.toList = (Spelling.canonical list).text pre.toList (post.getD "").toList := by
  unfold write at written
  split at written
  · cases written
  · cases written
    rw [String.toList_ofList, Spelling.text_canonical]

theorem readWithin_write_iff {limit : Nat} {text pre : String} {post : Option String}
    {list : List (Option String)} (written : write list pre post = .ok text) :
    readWithin limit text pre post = .ok list ↔
      (Spelling.canonical list).WellFormed pre.toList ∧ list.length ≤ limit := by
  rw [readWithin_eq_ok_iff, toList_of_write written]
  constructor
  · rintro ⟨spelling, wellFormed, within, whole, rfl⟩
    rw [← Spelling.length_canonical, ← Spelling.eq_canonical wellFormed whole]
    exact ⟨wellFormed, within⟩
  · rintro ⟨wellFormed, within⟩
    refine ⟨Spelling.canonical list, wellFormed, ?_, rfl, Spelling.list_canonical list⟩
    rwa [Spelling.length_canonical]

/-- The elements of a written text, each with the place of its length. -/
theorem readLocated_write {limit : Nat} {text pre : String} {post : Option String}
    {list : List (Option String)} (written : write list pre post = .ok text)
    (wellFormed : (Spelling.canonical list).WellFormed pre.toList) (within : list.length ≤ limit) :
    ∃ items, readLocated limit pre.toList (post.getD "").toList text.toList = .ok items ∧
      items.map (·.map fun item => String.ofList item.content) = list := by
  refine ⟨_, readLocated_eq_ok_iff.mpr ⟨Spelling.canonical list, wellFormed, ?_,
    (toList_of_write written).symm, rfl⟩, ?_⟩
  · rwa [Spelling.length_canonical]
  · rw [Spelling.list_located, Spelling.list_canonical]

end Wireform.ListText
