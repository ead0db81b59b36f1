import Wireform.ListText.Slices
import Wireform.Proofs.ListText.FirstFault
import Wireform.Proofs.ListText.Shortest
/-! Reading by byte offsets is safe.

Every offset that the reader reaches has the rest of the text behind it, so no slice crashes
it, and every element takes a byte of its length and one of the separator, so the loop ends
with the text, whatever count was declared.
-/

set_option autoImplicit false

namespace Wireform.ListText.Slices

variable {α β γ δ : Type} {text pre post : List Char}

/-- The first computation does not crash and goes as the second one, with related values. -/
inductive Follows (related : α → β → Prop) : Checked α → Except Fault β → Prop where
  | value {a : α} {b : β} : related a b → Follows related (pure a) (.ok b)
  | fault (fault : Fault) : Follows related (throw fault) (.error fault)

theorem Follows.bind {related : α → β → Prop} {further : γ → δ → Prop} {checked : Checked α}
    {plain : Except Fault β} {next : α → Checked γ} {next' : β → Except Fault δ}
    (first : Follows related checked plain)
    (later : ∀ a b, plain = .ok b → related a b → Follows further (next a) (next' b)) :
    Follows further (checked >>= next) (plain >>= next') := by
  cases first with
  | value here => exact later _ _ rfl here
  | fault fault => exact .fault fault

theorem Follows.run_eq {checked : Checked α} {plain : Except Fault α}
    (follows : Follows (· = ·) checked plain) : checked.run = some plain := by
  cases follows with
  | value same => exact congrArg (some ∘ Except.ok) same
  | fault fault => rfl

/-- Where both readers stand at the same place of a text. -/
structure At (text : List Char) (start : Nat) (place : Place) : Prop where
  offset : place.offset = start
  rest : sliceFrom text start = pure place.rest

theorem sliceFrom_eq_pure_iff {start : Nat} {rest : List Char} :
    sliceFrom text start = pure rest ↔ ∃ passed, text = passed ++ rest ∧ utf8Size passed = start := by
  constructor
  · intro slice
    cases cut : splitBytes? start text with
    | none =>
      rw [sliceFrom, cut] at slice
      cases slice
    | some parts =>
      obtain ⟨passed, rest'⟩ := parts
      rw [sliceFrom, cut] at slice
      cases slice
      exact ⟨passed, splitBytes?_eq_some_iff.mp cut⟩
  · rintro ⟨passed, whole, size⟩
    rw [sliceFrom, splitBytes?_eq_some_iff.mpr ⟨whole, size⟩]
    rfl

theorem sliceTo_append (front back : List Char) :
    sliceTo (front ++ back) (utf8Size front) = pure front := by
  rw [sliceTo, splitBytes?_append]
  rfl

theorem sliceTo_take (text : List Char) (n : Nat) :
    sliceTo text (utf8Size (text.take n)) = pure (text.take n) := by
  have slice := sliceTo_append (text.take n) (text.drop n)
  rwa [List.take_append_drop] at slice

theorem At.after {start : Nat} {place : Place} {passed rest : List Char} (here : At text start place)
    (split : place.rest = passed ++ rest) :
    At text (start + utf8Size passed) (place.after passed rest) := by
  obtain ⟨front, whole, size⟩ := sliceFrom_eq_pure_iff.mp here.rest
  refine ⟨by rw [Place.offset_after, here.offset], sliceFrom_eq_pure_iff.mpr ⟨front ++ passed, ?_, ?_⟩⟩
  · rw [whole, split, List.append_assoc, Place.rest_after]
  · rw [utf8Size_append, size]

theorem At.add_utf8Size {start : Nat} {place : Place} (here : At text start place) :
    start + utf8Size place.rest = utf8Size text := by
  obtain ⟨front, whole, size⟩ := sliceFrom_eq_pure_iff.mp here.rest
  rw [whole, utf8Size_append, size]

def Reaches (text : List Char) (found : α × Nat) (result : α × Place) : Prop :=
  found.1 = result.1 ∧ At text found.2 result.2

variable {start : Nat} {place : Place}

theorem number_follows (here : At text start place) (notInteger : TextFault) :
    Follows (Reaches text) (number text pre notInteger start)
      (ListText.number pre notInteger place) := by
  obtain rfl := here.offset
  rw [number, here.rest, pure_bind, find?, ListText.number]
  cases cut : cut? pre place.rest with
  | none => exact .fault _
  | some parts =>
    obtain ⟨digits, behind⟩ := parts
    have whole := eq_append_of_cut? cut
    have slice : sliceTo place.rest (utf8Size digits) = pure digits := by
      rw [whole, List.append_assoc]
      exact sliceTo_append _ _
    dsimp only [Option.map_some]
    rw [slice, pure_bind]
    cases Decimal.int64? digits with
    | none => exact .fault _
    | some n =>
      refine .value ⟨rfl, ?_⟩
      dsimp only
      rw [Nat.add_assoc, ← utf8Size_append]
      exact here.after whole

theorem content_follows (here : At text start place) (field : Nat) (length : Int) :
    Follows (Reaches text) (content text field length start)
      (ListText.content field length place) := by
  unfold content ListText.content
  split
  · exact .value ⟨rfl, here⟩
  split
  · exact .fault _
  rw [here.rest, pure_bind]
  -- The bytes of the content are as many as the next characters have, if there are enough.
  cases found : (boundaries place.rest)[length.toNat]? with
  | none =>
    have short : (place.rest.take length.toNat).length < length.toNat := by
      rw [List.length_take]
      by_contra enough
      rw [getElem?_boundaries.mpr ⟨by omega, rfl⟩] at found
      cases found
    rw [if_pos short]
    exact .fault _
  | some stop =>
    obtain ⟨le, rfl⟩ := getElem?_boundaries.mp found
    have enough : ¬ (place.rest.take length.toNat).length < length.toNat := by
      rw [List.length_take]
      omega
    dsimp only
    rw [sliceTo_take, pure_bind, if_neg enough]
    exact .value ⟨rfl, here.after (List.take_append_drop length.toNat place.rest).symm⟩

theorem terminator_follows (here : At text start place) :
    Follows (At text) (terminator text post start) (ListText.terminator post place) := by
  obtain rfl := here.offset
  rw [terminator, here.rest, pure_bind, ListText.terminator]
  split
  · rename_i starts
    obtain ⟨rest, same⟩ := List.isPrefixOf_iff_prefix.mp starts
    refine .value (here.after ?_)
    rw [← same, List.drop_left]
  · exact .fault _

theorem element_follows (here : At text start place) :
    Follows (Reaches text) (element text pre post start) (ListText.element pre post place) := by
  refine (number_follows here _).bind ?_
  rintro ⟨length, inside⟩ ⟨_, inside'⟩ _ ⟨rfl, there⟩
  rw [here.offset]
  refine (content_follows there _ _).bind ?_
  rintro ⟨item, behind⟩ ⟨_, behind'⟩ _ ⟨rfl, there⟩
  exact (terminator_follows there).bind fun next next' _ there => .value ⟨rfl, there⟩

/-- An element with its length has at least one digit, the separator and the terminator. -/
theorem utf8Size_of_element {item : Option Located} {next : Place}
    (read : ListText.element pre post place = .ok (item, next)) :
    pre ≠ [] ∧ 1 + utf8Size pre + utf8Size post + utf8Size next.rest ≤ utf8Size place.rest := by
  obtain ⟨piece, rest, wellFormed, whole, rfl, rfl⟩ := element_eq_ok_iff.mp read
  have digit := List.length_pos_iff.mpr wellFormed.denotes.nonempty
  refine ⟨wellFormed.separator_nonempty, ?_⟩
  rw [whole, utf8Size_append, Piece.utf8Size_text post wellFormed, Place.rest_after]
  omega

theorem elements_follows (rounds count : Nat) (enough : utf8Size place.rest < 2 * rounds)
    (here : At text start place) :
    Follows (Reaches text) (elements text pre post rounds count start)
      (ListText.elements pre post count place) := by
  induction count generalizing rounds start place with
  | zero =>
    rw [elements]
    exact .value ⟨rfl, here⟩
  | succ count ih =>
    obtain ⟨rounds, rfl⟩ := Nat.exists_eq_add_one.mpr (show 0 < rounds by omega)
    refine (element_follows here).bind ?_
    rintro ⟨item, next⟩ ⟨_, next'⟩ read ⟨rfl, there⟩
    obtain ⟨nonempty, shorter⟩ := utf8Size_of_element read
    -- The two bytes that an element uses up at least pay for its round.
    have separator := length_le_utf8Size pre
    have positive := List.length_pos_iff.mpr nonempty
    refine (ih rounds (by dsimp only at *; omega) there).bind ?_
    rintro ⟨items, last⟩ ⟨_, last'⟩ _ ⟨rfl, there⟩
    exact .value ⟨rfl, there⟩

theorem readLocated_follows (limit rounds : Nat) (enough : utf8Size text < 2 * rounds) :
    Follows (· = ·) (readLocated text pre post limit rounds)
      (ListText.readLocated limit pre post text) := by
  have here : At text 0 ⟨0, text⟩ := ⟨rfl, sliceFrom_eq_pure_iff.mpr ⟨[], rfl, rfl⟩⟩
  unfold readLocated ListText.readLocated
  split
  · exact .fault _
  refine (number_follows here _).bind ?_
  rintro ⟨count, first⟩ ⟨_, first'⟩ counted ⟨rfl, there⟩
  dsimp only
  split
  · exact .fault _
  split
  · exact .fault _
  have enough : utf8Size first'.rest < 2 * rounds := by
    have size := there.add_utf8Size
    dsimp only at size
    omega
  refine (elements_follows rounds _ enough there).bind ?_
  rintro ⟨items, last⟩ ⟨_, last'⟩ _ ⟨rfl, there⟩
  have exhausted : last = utf8Size text ↔ last'.rest.isEmpty := by
    have size := there.add_utf8Size
    have bytes := length_le_utf8Size last'.rest
    dsimp only at size
    rw [List.isEmpty_iff_length_eq_zero]
    constructor
    · omega
    · intro none
      rw [← size, List.eq_nil_of_length_eq_zero none]
      rfl
  dsimp only
  rw [if_congr exhausted rfl rfl, there.offset]
  split
  · exact .value rfl
  · exact .fault _

theorem read_follows (rounds : Nat) (text pre : String) (post : Option String)
    (enough : text.utf8ByteSize < 2 * rounds) :
    Follows (· = ·) (read rounds text pre post) (ListText.read text pre post) := by
  rw [utf8ByteSize_eq] at enough
  refine (readLocated_follows _ rounds enough).bind ?_
  rintro items _ _ rfl
  exact .value rfl

/-- A text can be cut at its valid positions and nowhere else. -/
theorem isSome_splitBytes?_iff {n : Nat} {text : String} :
    (splitBytes? n text.toList).isSome ↔ (⟨n⟩ : String.Pos.Raw).IsValid text := by
  rw [Option.isSome_iff_exists, String.Pos.Raw.isValid_iff_exists_append]
  constructor
  · rintro ⟨⟨front, back⟩, cut⟩
    obtain ⟨whole, rfl⟩ := splitBytes?_eq_some_iff.mp cut
    refine ⟨String.ofList front, String.ofList back, ?_, ?_⟩
    · rw [← String.toList_inj, whole]
      simp
    · rw [← utf8ByteSize_ofList]
      rfl
  · rintro ⟨front, back, rfl, end_⟩
    refine ⟨(front.toList, back.toList), splitBytes?_eq_some_iff.mpr ⟨by simp, ?_⟩⟩
    rw [← utf8ByteSize_eq]
    exact (congrArg String.Pos.Raw.byteIdx end_).symm

section faults

theorem splits_of_elementFault {offset : Nat} {reason : TextFault}
    (fault : ElementFault pre post text offset reason) :
    ∃ front back, text = front ++ back ∧ utf8Size front = offset := by
  cases fault with
  | length => exact ⟨[], text, rfl, rfl⟩
  | @terminator piece behind opens =>
    refine ⟨piece.digits ++ pre ++ piece.content?.getD [], behind, ?_, rfl⟩
    rw [opens.whole, List.append_assoc (piece.digits ++ pre)]

theorem splits_of_malformed {limit offset : Nat} {reason : TextFault}
    (failed : ListText.readLocated limit pre post text = .error (.malformedText offset reason))
    (nonempty : pre ≠ []) : ∃ front back, text = front ++ back ∧ utf8Size front = offset := by
  obtain ⟨rfl, _⟩ | ⟨start, c, rest, further, begins, _, fault, rfl⟩ :=
    (readLocated_malformed_iff nonempty).mp failed
  · exact ⟨[], text, rfl, rfl⟩
  generalize c - start.pieces.length = missing at fault
  have inner : ∃ front back, rest = front ++ back ∧ utf8Size front = further := by
    cases fault with
    | element fault => exact splits_of_elementFault fault
    | trailing => exact ⟨[], rest, rfl, rfl⟩
  obtain ⟨front, back, rfl, rfl⟩ := inner
  refine ⟨start.text pre post ++ front, back, ?_, utf8Size_append _ _⟩
  rw [begins.whole, List.append_assoc]

end faults

theorem mul_le_utf8Size_flatMap {pieces : List Piece} (post : List Char)
    (wellFormed : ∀ piece ∈ pieces, piece.WellFormed pre) :
    pieces.length * (1 + utf8Size pre + utf8Size post) ≤
      utf8Size (pieces.flatMap (Piece.text pre post)) := by
  induction pieces with
  | nil => simp
  | cons piece rest ih =>
    obtain ⟨here, others⟩ := List.forall_mem_cons.mp wellFormed
    have digit := List.length_pos_iff.mpr here.denotes.nonempty
    have later := ih others
    rw [List.flatMap_cons, utf8Size_append, Piece.utf8Size_text post here, List.length_cons,
      Nat.add_mul, Nat.one_mul]
    omega

theorem le_utf8Size_of_wellFormed {spelling : Spelling} (post : List Char)
    (wellFormed : spelling.WellFormed pre) :
    (1 + utf8Size pre) + spelling.pieces.length * (1 + utf8Size pre + utf8Size post) ≤
      utf8Size (spelling.text pre post) := by
  have digit := List.length_pos_iff.mpr wellFormed.count.denotes.nonempty
  have elements := mul_le_utf8Size_flatMap post wellFormed.pieces
  simp only [Spelling.text, utf8Size_append, utf8Size_of_denotes wellFormed.count.denotes]
  omega

theorem malformed_of_error {text pre : String} {post : Option String} {fault : Fault}
    (nonempty : pre ≠ "") (failed : ListText.read text pre post = .error fault) :
    ∃ offset reason, fault = .malformedText offset reason ∧ offset ≤ text.utf8ByteSize ∧
      (⟨offset⟩ : String.Pos.Raw).IsValid text := by
  have located := read_eq_error_iff.mp failed
  have nonempty : pre.toList ≠ [] := by simpa using nonempty
  rcases readLocated_only nonempty fault located with malformed | ⟨declared, counts, exceeding, _⟩
  · cases fault with
    | malformedText offset reason =>
      obtain ⟨front, back, whole, size⟩ := splits_of_malformed located nonempty
      refine ⟨offset, reason, rfl, ?_, isSome_splitBytes?_iff.mp ?_⟩
      · rw [utf8ByteSize_eq, whole, utf8Size_append]
        omega
      · rw [splitBytes?_eq_some_iff.mpr ⟨whole, size⟩, Option.isSome_some]
    | _ => exact malformed.elim
  · obtain ⟨_, _, field, _⟩ := counts
    exact absurd field.le_unbounded (Nat.not_le.mpr exceeding)

theorem invalidArgument_iff {text pre : String} {post : Option String} :
    (∃ reason, ListText.read text pre post = .error (.invalidArgument reason)) ↔ pre = "" := by
  constructor
  · rintro ⟨reason, failed⟩
    by_contra nonempty
    obtain ⟨_, _, same, _⟩ := malformed_of_error nonempty failed
    cases same
  · rintro rfl
    exact ⟨_, rfl⟩

/-- Reading is safe on any text. It never cuts the text at a place that is not one of its
positions, its loop ends with the text whatever count and lengths stand there, and but for an
empty separator it fails with a fault of the text, at one of its positions. A list that it
returns takes no more elements than there are bytes for. -/
theorem read_safe (text pre : String) (post : Option String) :
    (read (text.utf8ByteSize / 2 + 1) text pre post).run = some (ListText.read text pre post) ∧
    (∀ n, (splitBytes? n text.toList).isSome ↔ (⟨n⟩ : String.Pos.Raw).IsValid text) ∧
    ((∃ reason, ListText.read text pre post = .error (.invalidArgument reason)) ↔ pre = "") ∧
    (∀ fault, pre ≠ "" → ListText.read text pre post = .error fault →
      ∃ offset reason, fault = .malformedText offset reason ∧ offset ≤ text.utf8ByteSize ∧
        (⟨offset⟩ : String.Pos.Raw).IsValid text) ∧
    ∀ list, ListText.read text pre post = .ok list →
      (1 + pre.utf8ByteSize) +
        list.length * (1 + pre.utf8ByteSize + (post.getD "").utf8ByteSize) ≤ text.utf8ByteSize := by
  refine ⟨(read_follows _ text pre post (by omega)).run_eq, fun _ => isSome_splitBytes?_iff,
    invalidArgument_iff, fun _ => malformed_of_error, ?_⟩
  intro list reads
  obtain ⟨spelling, wellFormed, _, whole, rfl⟩ := readWithin_eq_ok_iff.mp reads
  rw [utf8ByteSize_eq, utf8ByteSize_eq, utf8ByteSize_eq, ← whole, Spelling.list, List.length_map]
  exact le_utf8Size_of_wellFormed _ wellFormed

/-- A declared count of 2^63 - 1 costs no more rounds than the text has room for. -/
theorem read_safe_largest_count :
    (read 12 "9223372036854775807|1|a" "|" none).run =
      some (.error (.malformedText 23 .missingSeparator)) ∧
    (⟨23⟩ : String.Pos.Raw).IsValid "9223372036854775807|1|a" := by
  have fails : ListText.read "9223372036854775807|1|a" "|" none =
      .error (.malformedText 23 .missingSeparator) := by decide +kernel
  obtain ⟨checked, _, _, faults, _⟩ := read_safe "9223372036854775807|1|a" "|" none
  obtain ⟨_, _, same, _, valid⟩ := faults _ (by decide) fails
  cases same
  exact ⟨checked.trans (congrArg some fails), valid⟩

end Wireform.ListText.Slices
