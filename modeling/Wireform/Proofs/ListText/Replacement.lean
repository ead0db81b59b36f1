import Wireform.Proofs.ListText.FirstFault
import Wireform.Proofs.ListText.Size
/-! Contents do not influence how a text is read.

A gap is a spelling without the content of one of its elements. Whatever content of the
declared length fills it, the same fields stand around it, so the reader finds the same
elements and the same fault behind them. The main statement compares the two readings.
-/

set_option autoImplicit false

namespace Wireform.ListText

variable {pre post : List Char}

/-- A spelling but for the content of one of its elements. -/
structure Gap where
  count : List Char
  before : List Piece
  digits : List Char
  after : List Piece

namespace Gap

variable {gap : Gap} {old new text rest : List Char} {c : Nat}

def fill (gap : Gap) (content : List Char) : Spelling where
  count := gap.count
  pieces := gap.before ++ ⟨gap.digits, some content⟩ :: gap.after

def front (pre post : List Char) (gap : Gap) : List Char :=
  gap.count ++ pre ++ gap.before.flatMap (Piece.text pre post) ++ gap.digits ++ pre

def back (pre post : List Char) (gap : Gap) : List Char :=
  post ++ gap.after.flatMap (Piece.text pre post)

theorem text_fill (pre post : List Char) (gap : Gap) (content : List Char) :
    (gap.fill content).text pre post = gap.front pre post ++ content ++ gap.back pre post := by
  simp [fill, front, back, Spelling.text, Piece.text]

theorem length_fill (gap : Gap) (content : List Char) :
    (gap.fill content).pieces.length = gap.before.length + (gap.after.length + 1) :=
  List.length_append

theorem list_fill (gap : Gap) (old new : List Char) :
    (gap.fill new).list = (gap.fill old).list.set gap.before.length (some (String.ofList new)) := by
  simp [fill, Spelling.list]

theorem getElem?_list_fill (gap : Gap) (content : List Char) :
    (gap.fill content).list[gap.before.length]? = some (some (String.ofList content)) := by
  simp [fill, Spelling.list]

theorem wellFormed_fill (same : new.length = old.length)
    (wellFormed : ∀ piece ∈ (gap.fill old).pieces, piece.WellFormed pre) :
    ∀ piece ∈ (gap.fill new).pieces, piece.WellFormed pre := by
  simp only [fill, List.forall_mem_append, List.forall_mem_cons] at wellFormed ⊢
  obtain ⟨before, here, after⟩ := wellFormed
  refine ⟨before, ?_, after⟩
  rw [Piece.WellFormed, elementLength] at here ⊢
  rwa [same]

theorem begins_fill (same : new.length = old.length)
    (begins : (gap.fill old).Begins pre post text c rest) :
    (gap.fill new).Begins pre post
      (gap.front pre post ++ new ++ (gap.back pre post ++ rest)) c rest where
  count := begins.count
  pieces := wellFormed_fill same begins.pieces
  few := by
    rw [length_fill, ← gap.length_fill old]
    exact begins.few
  whole := by rw [text_fill, List.append_assoc _ (gap.back pre post)]

end Gap

/-- Reading gets past element `i`, whose content stands between `front` and `back`: the count
allows for it, and it is read with its length, its content and its terminator. -/
def Passes (pre post : List Char) (i : Nat) (front content back : List Char) : Prop :=
  ∃ (count : Int) (first next : Place) (items : List (Option Located)) (offset : Nat),
    number pre .countNotInteger ⟨0, front ++ content ++ back⟩ = .ok (count, first) ∧ i < count ∧
    elements pre post (i + 1) first = .ok (items, next) ∧
    items[i]? = some (some ⟨offset, content⟩) ∧ back = post ++ next.rest

section passes

variable {i c : Nat} {front old back rest : List Char}

theorem Passes.exists_gap (passes : Passes pre post i front old back) :
    ∃ (gap : Gap) (c : Nat) (rest : List Char), i = gap.before.length ∧ gap.after = [] ∧
      (gap.fill old).Begins pre post (front ++ old ++ back) c rest ∧
      front = gap.front pre post ∧ back = post ++ rest := by
  obtain ⟨count, first, next, items, offset, counted, below, cutUp, here, behind⟩ := passes
  obtain ⟨numeral, inside, field, whole, rfl⟩ := number_eq_ok_iff.mp counted
  obtain ⟨pieces, rest, length, wellFormed, inner, rfl, rfl⟩ := elements_eq_ok_iff.mp cutUp
  obtain ⟨c, rfl⟩ := Int.eq_ofNat_of_zero_le (by omega : 0 ≤ count)
  rw [Place.rest_after] at inner behind
  subst inner behind
  -- The element is the last piece of those that were read.
  rw [Piece.getElem?_locateAll] at here
  obtain ⟨⟨digits, content?⟩, found, located⟩ := Option.map_eq_some_iff.mp here
  obtain ⟨content, rfl, same⟩ := Option.map_eq_some_iff.mp located
  cases same
  have last : pieces = pieces.take i ++ [⟨digits, some old⟩] := by
    calc
      pieces = pieces.take (i + 1) := by rw [← length, List.take_length]
      _ = pieces.take i ++ [⟨digits, some old⟩] := by rw [List.take_add_one, found]; rfl
  have filled : (⟨numeral, pieces.take i, digits, []⟩ : Gap).fill old = ⟨numeral, pieces⟩ := by
    rw [Gap.fill, ← last]
  have text : front ++ old ++ (post ++ rest) =
      (⟨numeral, pieces⟩ : Spelling).text pre post ++ rest := by
    rw [Spelling.text, List.append_assoc (numeral ++ pre)]
    exact whole
  refine ⟨⟨numeral, pieces.take i, digits, []⟩, c, rest, ?_, rfl, ?_, ?_, rfl⟩
  · rw [List.length_take]
    omega
  · rw [filled]
    have few : pieces.length ≤ c := by omega
    exact ⟨field, wellFormed, few, text⟩
  · rw [← filled, Gap.text_fill] at text
    simpa [Gap.back] using text

theorem Passes.exists_gap_of_begins {start : Spelling} (passes : Passes pre post i front old back)
    (begins : start.Begins pre post (front ++ old ++ back) c rest) (reached : i < start.pieces.length) :
    ∃ gap : Gap, i = gap.before.length ∧ start = gap.fill old ∧ front = gap.front pre post ∧
      back = gap.back pre post ++ rest := by
  obtain ⟨gap, _, rest', rfl, none, begins', rfl, rfl⟩ := passes.exists_gap
  obtain ⟨count, digits, same⟩ := begins'.same_count begins
  -- The gap was found in the shortest start that has the element; this one goes on behind it.
  have le : (gap.fill old).pieces.length ≤ start.pieces.length := by
    rw [gap.length_fill, none]
    exact reached
  obtain ⟨more, pieces, behind⟩ := Piece.append_of_length_le le begins'.pieces begins.pieces same
  refine ⟨{ gap with after := more }, rfl, ?_, rfl, ?_⟩
  · cases start
    simp_all [Gap.fill]
  · simp [Gap.back, behind]

theorem Passes.lt_count {start : Spelling} (passes : Passes pre post i front old back)
    (begins : start.Begins pre post (front ++ old ++ back) c rest) : i < c := by
  obtain ⟨gap, _, _, rfl, _, begins', _⟩ := passes.exists_gap
  obtain ⟨_, rfl, _⟩ := begins'.same_count begins
  have few := begins'.few
  rw [gap.length_fill] at few
  omega

theorem Passes.begins_of_malformed {limit offset : Nat} {reason : TextFault}
    (passes : Passes pre post i front old back)
    (failed : readLocated limit pre post (front ++ old ++ back) =
      .error (.malformedText offset reason)) :
    ∃ (start : Spelling) (c : Nat) (rest : List Char) (further : Nat),
      start.Begins pre post (front ++ old ++ back) c rest ∧ i < start.pieces.length ∧ c ≤ limit ∧
      FaultBehind pre post rest (c - start.pieces.length) further reason ∧
      offset = utf8Size (start.text pre post) + further := by
  obtain ⟨gap, c', rest', rfl, _, begins', _⟩ := passes.exists_gap
  rcases (readLocated_malformed_iff begins'.count.separator_nonempty).mp failed with
    ⟨_, fault⟩ | ⟨start, c, rest, further, begins, within, fault, offset⟩
  · -- The count was read, so nothing is wrong there.
    have counts : Counts pre (front ++ old ++ back) c' :=
      ⟨_, _, begins'.count, by rw [begins'.whole, Spelling.text, List.append_assoc (_ ++ pre)]⟩
    exact absurd counts (exists_countFault_iff.mp ⟨reason, fault⟩ c')
  · have le := (fault.isPrefix begins begins').2.2.length_le
    rw [gap.length_fill] at le
    exact ⟨start, c, rest, further, begins, by omega, within, fault, offset⟩

end passes

theorem read_eq_ok_iff_begins {text pre : String} {post : Option String}
    {list : List (Option String)} : read text pre post = .ok list ↔
      ∃ spelling : Spelling, spelling.Begins pre.toList (post.getD "").toList text.toList
        spelling.pieces.length [] ∧ spelling.list = list := by
  rw [read, readWithin_eq_ok_iff]
  constructor
  · rintro ⟨spelling, wellFormed, _, whole, rfl⟩
    refine ⟨spelling, ⟨wellFormed.count, wellFormed.pieces, Nat.le_refl _, ?_⟩, rfl⟩
    rw [List.append_nil, whole]
  · rintro ⟨spelling, begins, rfl⟩
    refine ⟨spelling, ⟨begins.count, begins.pieces⟩, begins.count.le_unbounded, ?_, rfl⟩
    rw [begins.whole, List.append_nil]

/-- Two texts that differ in the content of an element which reading gets past, with as many
characters in both, are read alike. Where the one is a list, the other is the list with the new
content in this place; where the one is malformed, the other is for the same reason, as many
bytes further on as its content is longer. -/
theorem read_replaced_content {front old new back pre : String} {post : Option String} {i : Nat}
    (passes : Passes pre.toList (post.getD "").toList i front.toList old.toList back.toList)
    (same : new.length = old.length) :
    (∀ list, read (front ++ old ++ back) pre post = .ok list →
      list[i]? = some (some old) ∧
        read (front ++ new ++ back) pre post = .ok (list.set i (some new))) ∧
    ∀ offset reason, read (front ++ old ++ back) pre post = .error (.malformedText offset reason) →
      ∃ offset' : Nat,
        read (front ++ new ++ back) pre post = .error (.malformedText offset' reason) ∧
        (offset' : Int) = offset + (new.utf8ByteSize - old.utf8ByteSize) := by
  rw [← String.length_toList, ← String.length_toList] at same
  have parts (content : String) :
      (front ++ content ++ back).toList = front.toList ++ content.toList ++ back.toList := by
    simp
  constructor
  · intro list reads
    obtain ⟨spelling, begins, rfl⟩ := read_eq_ok_iff_begins.mp reads
    rw [parts] at begins
    obtain ⟨gap, rfl, rfl, before, behind⟩ :=
      passes.exists_gap_of_begins begins (passes.lt_count begins)
    refine ⟨by rw [gap.getElem?_list_fill, String.ofList_toList], ?_⟩
    refine read_eq_ok_iff_begins.mpr ⟨gap.fill new.toList, ?_, ?_⟩
    · rw [parts, before, behind, gap.length_fill, ← gap.length_fill old.toList]
      exact Gap.begins_fill same begins
    · rw [gap.list_fill old.toList, String.ofList_toList]
  · intro offset reason failed
    rw [read_eq_error_iff, parts] at failed
    obtain ⟨start, c, rest, further, begins, reached, within, fault, rfl⟩ :=
      passes.begins_of_malformed failed
    obtain ⟨gap, rfl, rfl, before, behind⟩ := passes.exists_gap_of_begins begins reached
    have replaced := Gap.begins_fill same begins
    refine ⟨utf8Size ((gap.fill new.toList).text pre.toList (post.getD "").toList) + further, ?_, ?_⟩
    · rw [read_eq_error_iff, parts, before, behind]
      refine (readLocated_malformed_iff replaced.count.separator_nonempty).mpr
        (.inr ⟨_, c, rest, further, replaced, within, ?_, rfl⟩)
      rwa [gap.length_fill, ← gap.length_fill old.toList]
    · simp only [Gap.text_fill, utf8Size_append, utf8ByteSize_eq]
      omega

theorem read_replaced_content_marks :
    Passes ['|'] [';'] 0 "2|3|".toList "abc".toList ";5|x;".toList ∧ "é|9".length = "abc".length ∧
    read "2|3|abc;5|x;" "|" (some ";") = .error (.malformedText 8 .elementPastEnd) ∧
    read "2|3|é|9;5|x;" "|" (some ";") = .error (.malformedText 9 .elementPastEnd) := by
  have passes : Passes "|".toList ((some ";").getD "").toList 0 "2|3|".toList "abc".toList
      ";5|x;".toList :=
    ⟨2, ⟨2, "3|abc;5|x;".toList⟩, ⟨8, "5|x;".toList⟩, [some ⟨2, "abc".toList⟩], 2,
      rfl, by decide, rfl, rfl, rfl⟩
  have failed : read "2|3|abc;5|x;" "|" (some ";") = .error (.malformedText 8 .elementPastEnd) := rfl
  have length : "é|9".length = "abc".length := rfl
  obtain ⟨offset, fails, moved⟩ := (read_replaced_content passes length).2 8 _ failed
  have sizes : "é|9".utf8ByteSize = 4 ∧ "abc".utf8ByteSize = 3 := ⟨rfl, rfl⟩
  obtain rfl : offset = 9 := by omega
  exact ⟨passes, length, failed, fails⟩

end Wireform.ListText
