import Mathlib.Data.List.Forall2
import Wireform.Proofs.ListText.Size
/-! The text that is written is the shortest.

A numeral ends with the digits that are written for its number, so every other
spelling of a list is longer, and so is one of a list with longer contents. Under
most separators the shortest text reads back too: shortening a numeral can bring a
separator forward just where that is a beginning of `-1-1-1`.
-/

set_option autoImplicit false

namespace Wireform.ListText

variable {pre : List Char}

theorem utf8Size_eq_length {text : List Char} (ascii : ∀ c ∈ text, c.utf8Size = 1) :
    utf8Size text = text.length := by
  induction text with
  | nil => rfl
  | cons c rest ih =>
    obtain ⟨here, others⟩ := List.forall_mem_cons.mp ascii
    rw [utf8Size, here, ih others, List.length_cons, Nat.add_comm]

theorem utf8Size_of_isDigit {c : Char} (digit : c.isDigit = true) : c.utf8Size = 1 := by
  obtain ⟨_, high⟩ := Char.isDigit_iff_toNat.mp digit
  have high : c.toNat ≤ 57 := high
  refine Char.utf8Size_eq_one_iff.mpr (UInt32.le_iff_toNat_le.mpr ?_)
  exact Nat.le_trans high (by decide)

theorem utf8Size_of_denotes {digits : List Char} {n : Int} (denotes : Decimal.Denotes digits n) :
    utf8Size digits = digits.length := by
  have ascii {text : List Char} {m : Nat} (digits : Decimal.Digits text m) :
      utf8Size text = text.length :=
    utf8Size_eq_length fun c member => utf8Size_of_isDigit (digits.digit c member)
  cases denotes with
  | unsigned digits => exact ascii digits
  | plus digits | minus digits =>
    rw [utf8Size, ascii digits, List.length_cons, Nat.add_comm]
    rfl

/-- No more characters and no more bytes. -/
structure NoLonger (short long : List Char) : Prop where
  characters : short.length ≤ long.length
  bytes : utf8Size short ≤ utf8Size long

theorem NoLonger.refl (text : List Char) : NoLonger text text := ⟨Nat.le_refl _, Nat.le_refl _⟩

theorem NoLonger.trans {short middle long : List Char} (first : NoLonger short middle)
    (second : NoLonger middle long) : NoLonger short long :=
  ⟨Nat.le_trans first.characters second.characters, Nat.le_trans first.bytes second.bytes⟩

section elements

variable {short long : Option (List Char)}

theorem rel_noLonger_refl (content? : Option (List Char)) :
    Option.Rel NoLonger content? content? := by
  cases content? with
  | none => exact .none
  | some content => exact .some (.refl content)

theorem length_intText_elementLength_le (shorter : Option.Rel NoLonger short long) :
    (Decimal.intText (elementLength short)).length ≤
      (Decimal.intText (elementLength long)).length := by
  cases shorter with
  | none => exact Nat.le_refl _
  | some shorter => exact Decimal.length_natText_mono shorter.characters

theorem utf8Size_getD_le (shorter : Option.Rel NoLonger short long) :
    utf8Size (short.getD []) ≤ utf8Size (long.getD []) := by
  cases shorter with
  | none => exact Nat.le_refl _
  | some shorter => exact shorter.bytes

end elements

theorem utf8Size_intText (n : Int) : utf8Size (Decimal.intText n) = (Decimal.intText n).length :=
  utf8Size_of_denotes (Decimal.denotes_intText n)

namespace Piece

theorem utf8Size_text {piece : Piece} (post : List Char) (wellFormed : piece.WellFormed pre) :
    utf8Size (piece.text pre post) = piece.digits.length + utf8Size pre +
      utf8Size (piece.content?.getD []) + utf8Size post := by
  simp only [text, utf8Size_append, utf8Size_of_denotes wellFormed.denotes]

theorem utf8Size_elementText_le {piece : Piece} {content? : Option (List Char)} (post : List Char)
    (wellFormed : piece.WellFormed pre) (shorter : Option.Rel NoLonger content? piece.content?) :
    utf8Size (elementText pre post content?) ≤ utf8Size (piece.text pre post) := by
  have numeral := Nat.le_trans (length_intText_elementLength_le shorter)
    wellFormed.denotes.length_intText_le
  have contents := utf8Size_getD_le shorter
  rw [utf8Size_text post wellFormed, ← text_canonical]
  simp only [text, canonical, utf8Size_append, utf8Size_intText]
  omega

/-- Only the written numeral makes an element as short as it can be. -/
theorem digits_of_utf8Size_le {piece : Piece} (post : List Char) (wellFormed : piece.WellFormed pre)
    (short : utf8Size (piece.text pre post) ≤ utf8Size (elementText pre post piece.content?)) :
    piece.digits = Decimal.intText (elementLength piece.content?) := by
  apply wellFormed.denotes.eq_intText
  rw [utf8Size_text post wellFormed, ← text_canonical] at short
  simp only [text, canonical, utf8Size_append, utf8Size_intText] at short
  omega

end Piece

theorem utf8Size_flatMap_le {pieces : List Piece} {contents : List (Option (List Char))}
    (post : List Char) (wellFormed : ∀ piece ∈ pieces, piece.WellFormed pre)
    (shorter : List.Forall₂ (fun content? piece => Option.Rel NoLonger content? piece.content?)
      contents pieces) :
    utf8Size (contents.flatMap (elementText pre post)) ≤
      utf8Size (pieces.flatMap (Piece.text pre post)) := by
  induction shorter with
  | nil => exact Nat.le_refl _
  | cons here _ ih =>
    obtain ⟨first, others⟩ := List.forall_mem_cons.mp wellFormed
    simp only [List.flatMap_cons, utf8Size_append]
    exact Nat.add_le_add (Piece.utf8Size_elementText_le post first here) (ih others)

theorem utf8Size_listText_le {spelling : Spelling} {contents : List (Option (List Char))}
    (post : List Char) (wellFormed : spelling.WellFormed pre)
    (shorter : List.Forall₂ (fun content? piece => Option.Rel NoLonger content? piece.content?)
      contents spelling.pieces) :
    utf8Size (listText pre post contents) ≤ utf8Size (spelling.text pre post) := by
  have count := wellFormed.count.denotes.length_intText_le
  rw [← shorter.length_eq] at count
  have rest := utf8Size_flatMap_le post wellFormed.pieces shorter
  simp only [listText, numberField, Spelling.text, utf8Size_append, utf8Size_intText,
    utf8Size_of_denotes wellFormed.count.denotes]
  omega

/-- Every number of a spelling has the numeral that is written for it. -/
structure Spelling.IsCanonical (spelling : Spelling) : Prop where
  count : spelling.count = Decimal.intText spelling.pieces.length
  lengths : ∀ piece ∈ spelling.pieces,
    piece.digits = Decimal.intText (elementLength piece.content?)

theorem Spelling.isCanonical_iff {spelling : Spelling} :
    spelling.IsCanonical ↔ spelling = canonical spelling.list := by
  rw [canonical_list]
  constructor
  · rintro ⟨count, lengths⟩
    have pieces : spelling.pieces.map (fun piece => Piece.canonical piece.content?) =
        spelling.pieces := by
      refine (List.map_congr_left fun piece member => ?_).trans (List.map_id spelling.pieces)
      rw [Piece.canonical, ← lengths piece member]
      rfl
    rw [pieces, ← count]
  · intro same
    refine ⟨congrArg Spelling.count same, fun piece member => ?_⟩
    rw [congrArg Spelling.pieces same] at member
    obtain ⟨_, _, rfl⟩ := List.mem_map.mp member
    rfl

theorem forall₂_content? (pieces : List Piece) :
    List.Forall₂ (fun content? piece => Option.Rel NoLonger content? piece.content?)
      (pieces.map Piece.content?) pieces :=
  List.forall₂_map_left_iff.mpr (List.forall₂_same.mpr fun piece _ => rel_noLonger_refl piece.content?)

theorem Piece.digits_of_flatMap_le {pieces : List Piece} (post : List Char)
    (wellFormed : ∀ piece ∈ pieces, piece.WellFormed pre)
    (short : utf8Size (pieces.flatMap (Piece.text pre post)) ≤
      utf8Size ((pieces.map content?).flatMap (elementText pre post))) :
    ∀ piece ∈ pieces, piece.digits = Decimal.intText (elementLength piece.content?) := by
  induction pieces with
  | nil => simp
  | cons piece rest ih =>
    obtain ⟨first, others⟩ := List.forall_mem_cons.mp wellFormed
    have here := utf8Size_elementText_le post first (rel_noLonger_refl _)
    have later := utf8Size_flatMap_le post others (forall₂_content? rest)
    simp only [List.map_cons, List.flatMap_cons, utf8Size_append] at short
    -- Neither part can make up for the other, so both are as short as they can be.
    exact List.forall_mem_cons.mpr
      ⟨digits_of_utf8Size_le post first (by omega), ih others (by omega)⟩

namespace Spelling

variable {spelling : Spelling} (post : List Char)

theorem map_toList_list (spelling : Spelling) :
    spelling.list.map (·.map String.toList) = spelling.pieces.map Piece.content? := by
  simp [list, Function.comp_def]

theorem utf8Size_written_le (wellFormed : spelling.WellFormed pre) :
    utf8Size ((canonical spelling.list).text pre post) ≤ utf8Size (spelling.text pre post) := by
  rw [text_canonical, map_toList_list]
  exact utf8Size_listText_le post wellFormed (forall₂_content? spelling.pieces)

theorem isCanonical_of_utf8Size_le (wellFormed : spelling.WellFormed pre)
    (short : utf8Size (spelling.text pre post) ≤
      utf8Size ((canonical spelling.list).text pre post)) : spelling.IsCanonical := by
  have count := wellFormed.count.denotes.length_intText_le
  have rest := utf8Size_flatMap_le post wellFormed.pieces (forall₂_content? spelling.pieces)
  rw [text_canonical, map_toList_list] at short
  simp only [listText, numberField, text, List.length_map, utf8Size_append, utf8Size_intText,
    utf8Size_of_denotes wellFormed.count.denotes] at short
  exact ⟨wellFormed.count.denotes.eq_intText (by omega),
    Piece.digits_of_flatMap_le post wellFormed.pieces (by omega)⟩

end Spelling

section readBack

theorem FirstBehind.of_suffix {mark text back : List Char} (first : FirstBehind mark text)
    (suffix : back <:+ text) : FirstBehind mark back := by
  obtain ⟨front, rfl⟩ := suffix
  intro i inside starts
  apply first (front.length + i) (by rw [List.length_append]; omega)
  rwa [List.append_assoc, ← List.drop_drop, List.drop_left]

theorem NumberField.firstBehind_natText {digits : List Char} {n : Int}
    (field : NumberField pre digits n) : FirstBehind pre (Decimal.natText n.natAbs) :=
  field.first.of_suffix field.denotes.natText_suffix

theorem NumberField.shortest_natural {digits : List Char} {n : Nat}
    (field : NumberField pre digits n) : NumberField pre (Decimal.intText n) n :=
  ⟨Decimal.denotes_intText n, field.low, field.high, field.firstBehind_natText⟩

theorem NumberField.shortest_minusOne_iff {digits : List Char} (field : NumberField pre digits (-1)) :
    NumberField pre (Decimal.intText (-1)) (-1) ↔
      ¬ ∃ n, pre <+: (List.replicate n ['-', '1']).flatten := by
  constructor
  · rintro shortest ⟨n, repeated⟩
    exact shortest.first 0 (by decide) (prefix_append_of_replicate repeated)
  · intro clear
    refine ⟨Decimal.denotes_intText (-1), field.low, field.high, fun i inside starts => ?_⟩
    cases i with
    | zero => exact clear (prefix_replicate (by decide) starts)
    | succ i => exact field.firstBehind_natText i (Nat.lt_of_succ_lt_succ inside) starts

theorem Piece.wellFormed_canonical_iff {piece : Piece} (wellFormed : piece.WellFormed pre) :
    (canonical piece.content?).WellFormed pre ↔
      (piece.content? = none → ¬ ∃ n, pre <+: (List.replicate n ['-', '1']).flatten) := by
  obtain ⟨digits, content?⟩ := piece
  cases content? with
  | none =>
    exact (NumberField.shortest_minusOne_iff wellFormed).trans
      ⟨fun clear _ => clear, fun clear => clear rfl⟩
  | some content => exact iff_of_true (NumberField.shortest_natural wellFormed) nofun

/-- Where a list was read, its written text reads back but for a separator that could
start with the sign of -1. -/
theorem Spelling.wellFormed_written_iff {spelling : Spelling} (wellFormed : spelling.WellFormed pre) :
    (canonical spelling.list).WellFormed pre ↔
      (none ∈ spelling.list → ¬ ∃ n, pre <+: (List.replicate n ['-', '1']).flatten) := by
  have absent : none ∈ spelling.list ↔ ∃ piece ∈ spelling.pieces, piece.content? = none := by
    simp [list]
  rw [canonical_list, absent]
  constructor
  · rintro ⟨_, pieces⟩ ⟨piece, member, same⟩
    have written := pieces _ (List.mem_map.mpr ⟨piece, member, rfl⟩)
    exact (Piece.wellFormed_canonical_iff (wellFormed.pieces piece member)).mp written same
  · intro clear
    refine ⟨?_, fun written member => ?_⟩
    · rw [List.length_map]
      exact wellFormed.count.shortest_natural
    · obtain ⟨piece, inside, rfl⟩ := List.mem_map.mp member
      exact (Piece.wellFormed_canonical_iff (wellFormed.pieces piece inside)).mpr
        fun same => clear ⟨piece, inside, same⟩

end readBack

/-- A text that reads as a list is no shorter than the text that is written for the list,
and as short only where it is that text, which is where each of its numbers has the numeral
that is written for it. The written text reads as the list too, but for absent elements
under a separator that is a beginning of `-1-1-1`. -/
theorem write_shortest (text pre : String) (post : Option String) (list : List (Option String))
    (reads : read text pre post = .ok list) :
    ∃ written, write list pre post = .ok written ∧
      written.utf8ByteSize ≤ text.utf8ByteSize ∧
      (written.utf8ByteSize = text.utf8ByteSize ↔ written = text) ∧
      (∃ spelling : Spelling, spelling.WellFormed pre.toList ∧
        spelling.text pre.toList (post.getD "").toList = text.toList ∧ spelling.list = list ∧
        (write list pre post = .ok text ↔ spelling.IsCanonical)) ∧
      (read written pre post = .ok list ↔
        (none ∈ list → ¬ ∃ n, pre.toList <+: (List.replicate n ['-', '1']).flatten)) := by
  obtain ⟨spelling, wellFormed, within, whole, rfl⟩ := readWithin_eq_ok_iff.mp reads
  have nonempty : pre ≠ "" := by
    simpa using wellFormed.count.separator_nonempty
  obtain ⟨written, wrote⟩ := exists_write nonempty post spelling.list
  have chars := toList_of_write wrote
  have same : written = text ↔ spelling.IsCanonical := by
    rw [Spelling.isCanonical_iff, ← String.toList_inj, chars, ← whole]
    exact ⟨fun same => spelling.eq_canonical wellFormed same.symm, fun same => by rw [← same]⟩
  have le := spelling.utf8Size_written_le (post.getD "").toList wellFormed
  rw [← chars, whole, ← utf8ByteSize_eq, ← utf8ByteSize_eq] at le
  refine ⟨written, wrote, le, ⟨fun sizes => ?_, congrArg String.utf8ByteSize⟩,
    ⟨spelling, wellFormed, whole, rfl, ?_⟩, ?_⟩
  · rw [same]
    apply Spelling.isCanonical_of_utf8Size_le (post.getD "").toList wellFormed
    rw [← chars, whole, ← utf8ByteSize_eq, ← utf8ByteSize_eq]
    exact Nat.le_of_eq sizes.symm
  · rw [wrote, Except.ok.injEq, same]
  · rw [read, readWithin_write_iff wrote, spelling.wellFormed_written_iff wellFormed]
    rw [← Spelling.length_canonical, Spelling.canonical_list, List.length_map]
    exact and_iff_left within

theorem write_shortest_minus_one :
    read "1-1--01-1-" "-1-" none = .ok [none] ∧ write [none] "-1-" none = .ok "1-1--1-1-" ∧
      "1-1--1-1-".utf8ByteSize < "1-1--01-1-".utf8ByteSize ∧
      read "1-1--1-1-" "-1-" none ≠ .ok [none] := by
  have reads : read "1-1--01-1-" "-1-" none = .ok [none] := by decide +kernel
  obtain ⟨written, wrote, le, same, _, back⟩ := write_shortest "1-1--01-1-" "-1-" none [none] reads
  cases wrote
  refine ⟨reads, rfl, Nat.lt_of_le_of_ne le fun sizes => ?_, fun again => ?_⟩
  · exact absurd (same.mp sizes) (by decide)
  · exact back.mp again (by simp) ⟨2, by decide⟩

end Wireform.ListText
