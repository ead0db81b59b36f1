import Wireform.Proofs.ListText.Spelling
/-! The reader against its grammar.

The main statement: a text reads as a list exactly where a well-formed spelling of
the list writes it, and no text has two.
-/

set_option autoImplicit false

namespace Wireform.ListText

variable {pre post text : List Char}

theorem NumberField.separator_nonempty {digits : List Char} {n : Int}
    (field : NumberField pre digits n) : pre ≠ [] := by
  rintro rfl
  exact field.first 0 (List.length_pos_iff.mpr field.denotes.nonempty) List.nil_prefix

theorem readLocated_eq_ok_iff {limit : Nat} {items : List (Option Located)} :
    readLocated limit pre post text = .ok items ↔
      ∃ spelling : Spelling, spelling.WellFormed pre ∧ spelling.pieces.length ≤ limit ∧
        spelling.text pre post = text ∧ spelling.located pre post = items := by
  constructor
  · intro read
    unfold readLocated at read
    split at read
    · cases read
    obtain ⟨⟨count, first⟩, counted, read⟩ := Fault.bind_eq_ok_iff.mp read
    obtain ⟨digits, rest, field, whole, rfl⟩ := number_eq_ok_iff.mp counted
    dsimp only at read
    split at read
    · cases read
    split at read
    · cases read
    rename_i nonnegative within
    obtain ⟨⟨found, last⟩, cutUp, read⟩ := Fault.bind_eq_ok_iff.mp read
    obtain ⟨pieces, tail, length, wellFormed, inner, rfl, rfl⟩ := elements_eq_ok_iff.mp cutUp
    dsimp only at read
    split at read
    · rename_i exhausted
      cases read
      -- A count that is not negative is the number of the pieces cut up.
      have counts : ((pieces.length : Nat) : Int) = count := by omega
      have nothing : tail = [] := List.isEmpty_iff.mp exhausted
      refine ⟨⟨digits, pieces⟩, ⟨counts ▸ field, wellFormed⟩, ?_, ?_, ?_⟩
      · rw [length]
        exact Nat.le_of_not_lt within
      · rw [Place.rest_after, nothing, List.append_nil] at inner
        rw [Spelling.text, ← inner]
        exact whole.symm
      · simp [Spelling.located]
    · cases read
  · rintro ⟨spelling, wellFormed, within, rfl, rfl⟩
    have counted : number pre .countNotInteger ⟨0, spelling.text pre post⟩ = .ok (_, _) :=
      number_eq_ok_iff.mpr ⟨_, _, wellFormed.count, rfl, rfl⟩
    have cutUp {offset : Nat} : elements pre post spelling.pieces.length
        ⟨offset, spelling.pieces.flatMap (Piece.text pre post)⟩ = .ok (_, _) :=
      elements_eq_ok_iff.mpr
        ⟨spelling.pieces, [], rfl, wellFormed.pieces, (List.append_nil _).symm, rfl, rfl⟩
    unfold readLocated
    rw [if_neg (by simpa using wellFormed.count.separator_nonempty)]
    refine Fault.bind_eq_ok_iff.mpr ⟨_, counted, ?_⟩
    dsimp only
    rw [if_neg (by omega), if_neg (by simpa using within), Int.toNat_natCast]
    refine Fault.bind_eq_ok_iff.mpr ⟨_, cutUp, ?_⟩
    simp [Spelling.located]

/-- A piece and what follows it can be told apart. -/
theorem Piece.unique {piece piece' : Piece} {rest rest' : List Char}
    (wellFormed : piece.WellFormed pre) (wellFormed' : piece'.WellFormed pre)
    (same : piece.text pre post ++ rest = piece'.text pre post ++ rest') :
    piece = piece' ∧ rest = rest' := by
  have fields : piece.digits ++ pre ++ (piece.content?.getD [] ++ (post ++ rest)) =
      piece'.digits ++ pre ++ (piece'.content?.getD [] ++ (post ++ rest')) := by
    simpa [text] using same
  -- The numerals agree first, and with them the lengths that cut out the contents.
  obtain ⟨digits, lengths, inside⟩ := NumberField.unique wellFormed wellFormed' fields
  obtain ⟨contents, behind⟩ := content_unique lengths inside
  cases piece
  cases piece'
  cases digits
  cases contents
  exact ⟨rfl, List.append_cancel_left behind⟩

theorem Piece.unique_all {pieces pieces' : List Piece} (length : pieces.length = pieces'.length)
    (wellFormed : ∀ piece ∈ pieces, piece.WellFormed pre)
    (wellFormed' : ∀ piece ∈ pieces', piece.WellFormed pre)
    (same : pieces.flatMap (Piece.text pre post) = pieces'.flatMap (Piece.text pre post)) :
    pieces = pieces' := by
  induction pieces generalizing pieces' with
  | nil => exact (List.length_eq_zero_iff.mp length.symm).symm
  | cons piece pieces ih =>
    obtain ⟨piece', pieces', rfl⟩ := List.exists_cons_of_length_eq_add_one length.symm
    obtain ⟨here, others⟩ := List.forall_mem_cons.mp wellFormed
    obtain ⟨here', others'⟩ := List.forall_mem_cons.mp wellFormed'
    obtain ⟨rfl, behind⟩ := Piece.unique here here' same
    rw [ih (Nat.succ.inj length) others others' behind]

theorem Spelling.unique {spelling spelling' : Spelling} (wellFormed : spelling.WellFormed pre)
    (wellFormed' : spelling'.WellFormed pre) (same : spelling.text pre post = spelling'.text pre post) :
    spelling = spelling' := by
  obtain ⟨count, lengths, behind⟩ := NumberField.unique wellFormed.count wellFormed'.count same
  have pieces := Piece.unique_all (Int.ofNat.inj lengths) wellFormed.pieces wellFormed'.pieces behind
  cases spelling
  cases spelling'
  cases count
  cases pieces
  rfl

theorem readWithin_eq_ok_iff {limit : Nat} {text pre : String} {post : Option String}
    {list : List (Option String)} : readWithin limit text pre post = .ok list ↔
      ∃ spelling : Spelling, spelling.WellFormed pre.toList ∧ spelling.pieces.length ≤ limit ∧
        spelling.text pre.toList (post.getD "").toList = text.toList ∧ spelling.list = list := by
  simp only [readWithin, Fault.bind_eq_ok_iff, Fault.pure_eq_ok_iff, readLocated_eq_ok_iff]
  constructor
  · rintro ⟨_, ⟨spelling, wellFormed, within, whole, rfl⟩, rfl⟩
    exact ⟨spelling, wellFormed, within, whole, (spelling.list_located _ _).symm⟩
  · rintro ⟨spelling, wellFormed, within, whole, rfl⟩
    exact ⟨_, ⟨spelling, wellFormed, within, whole, rfl⟩, spelling.list_located _ _⟩

/-- A text reads as a list just where some choice of numerals writes the list so,
and the text leaves no choice. -/
theorem read_eq_ok_iff_spelled (text pre : String) (post : Option String)
    (list : List (Option String)) :
    (read text pre post = .ok list ↔
      ∃ spelling : Spelling, spelling.WellFormed pre.toList ∧
        spelling.text pre.toList (post.getD "").toList = text.toList ∧ spelling.list = list) ∧
    ∀ spelling spelling' : Spelling,
      spelling.WellFormed pre.toList → spelling'.WellFormed pre.toList →
      spelling.text pre.toList (post.getD "").toList = text.toList →
      spelling'.text pre.toList (post.getD "").toList = text.toList → spelling = spelling' := by
  constructor
  · rw [read, readWithin_eq_ok_iff]
    constructor
    · rintro ⟨spelling, wellFormed, _, rest⟩
      exact ⟨spelling, wellFormed, rest⟩
    · rintro ⟨spelling, wellFormed, rest⟩
      -- A count of 64 bits never exceeds the size that bounds a free list.
      have high := wellFormed.count.high
      refine ⟨spelling, wellFormed, ?_, rest⟩
      show spelling.pieces.length ≤ 2 ^ 64 - 1
      omega
  · intro spelling spelling' wellFormed wellFormed' whole whole'
    exact Spelling.unique wellFormed wellFormed' (whole.trans whole'.symm)

theorem read_signed_and_padded :
    read "+2|-01|03|a|b" "|" none = .ok [none, some "a|b"] ∧
      ∀ spelling : Spelling, spelling.WellFormed ['|'] →
        spelling.text ['|'] [] = "+2|-01|03|a|b".toList →
        spelling = ⟨['+', '2'], [⟨['-', '0', '1'], none⟩, ⟨['0', '3'], some ['a', '|', 'b']⟩]⟩ := by
  have wellFormed : Spelling.WellFormed ['|']
      ⟨['+', '2'], [⟨['-', '0', '1'], none⟩, ⟨['0', '3'], some ['a', '|', 'b']⟩]⟩ := by
    decide +kernel
  obtain ⟨reads, unique⟩ := read_eq_ok_iff_spelled "+2|-01|03|a|b" "|" none [none, some "a|b"]
  exact ⟨reads.mpr ⟨_, wellFormed, by decide +kernel, by decide +kernel⟩,
    fun spelling other whole => unique _ _ other wellFormed whole (by decide +kernel)⟩

end Wireform.ListText
