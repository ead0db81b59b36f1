import Wireform.Proofs.ListText.Limit
/-! Where a text that is no list goes wrong.

Reading stops at the first thing that is not as the grammar has it: at the count, behind
the last whole element if no length with enough content stands there, behind a content
without its terminator, or behind the last element if text is left over. The main
statement says so of every malformed text, with the offset and the reason of the fault.
-/

set_option autoImplicit false

namespace Wireform.ListText

variable {pre post text : List Char}

theorem cut?_eq_none_iff {mark text : List Char} : cut? mark text = none ↔ ¬ mark <:+: text := by
  induction text with
  | nil =>
    rw [cut?]
    split
    · simp_all
    · simp_all
  | cons c rest ih =>
    rw [List.infix_cons_iff, not_or, ← ih, cut?]
    split
    · rename_i starts
      simp [List.isPrefixOf_iff_prefix.mp starts]
    · rename_i elsewhere
      rw [Option.map_eq_none_iff]
      exact (and_iff_right (mt List.isPrefixOf_iff_prefix.mpr elsewhere)).symm

/-- Why no number field stands at the start of a text. -/
inductive NumberFault (pre text : List Char) (notInteger : TextFault) : TextFault → Prop where
  | missing : ¬ pre <:+: text → NumberFault pre text notInteger .missingSeparator
  /-- What stands before the first separator is no numeral of 64 bits. -/
  | notInteger {before behind : List Char} : text = before ++ pre ++ behind →
      FirstBehind pre before →
      (∀ n : Int, -2 ^ 63 ≤ n → n < 2 ^ 63 → ¬ Decimal.Denotes before n) →
        NumberFault pre text notInteger notInteger

theorem number_eq_error_iff {notInteger : TextFault} {place : Place} {fault : Fault} :
    number pre notInteger place = .error fault ↔
      ∃ reason, NumberFault pre place.rest notInteger reason ∧
        fault = .malformedText place.offset reason := by
  have unreadable {before : List Char} : Decimal.int64? before = none ↔
      ∀ n : Int, -2 ^ 63 ≤ n → n < 2 ^ 63 → ¬ Decimal.Denotes before n := by
    rw [Option.eq_none_iff_forall_ne_some]
    simp only [Ne, Decimal.int64?_eq_some_iff]
    exact ⟨fun none n low high denotes => none n ⟨denotes, low, high⟩,
      fun none n ⟨denotes, low, high⟩ => none n low high denotes⟩
  constructor
  · intro failed
    unfold number at failed
    split at failed
    · rename_i absent
      cases failed
      exact ⟨_, .missing (cut?_eq_none_iff.mp absent), rfl⟩
    · rename_i before behind cut
      obtain ⟨whole, first⟩ := cut?_eq_some_iff.mp cut
      split at failed
      · rename_i none
        cases failed
        exact ⟨_, .notInteger whole first (unreadable.mp none), rfl⟩
      · cases failed
  · rintro ⟨reason, number, rfl⟩
    cases number with
    | missing absent => simp only [ListText.number, cut?_eq_none_iff.mpr absent]
    | notInteger whole first none =>
      simp only [ListText.number, cut?_eq_some_iff.mpr ⟨whole, first⟩, unreadable.mpr none]

theorem exists_numberFault_iff {notInteger : TextFault} :
    (∃ reason, NumberFault pre text notInteger reason) ↔ ∀ n, ¬ Counts pre text n := by
  have settled (n : Int) : Counts pre text n ↔
      ∃ next, number pre notInteger ⟨0, text⟩ = .ok (n, next) := counts_iff
  simp only [settled, not_exists]
  constructor
  · rintro ⟨reason, fault⟩ n next read
    rw [number_eq_error_iff.mpr ⟨reason, fault, rfl⟩] at read
    cases read
  · intro none
    cases read : number pre notInteger ⟨0, text⟩ with
    | ok result => exact absurd read (none result.1 result.2)
    | error fault =>
      obtain ⟨reason, fault, _⟩ := number_eq_error_iff.mp read
      exact ⟨reason, fault⟩

theorem Counts.unique {n m : Int} (counts : Counts pre text n) (other : Counts pre text m) : n = m := by
  obtain ⟨digits, rest, field, whole⟩ := counts
  obtain ⟨digits', rest', field', whole'⟩ := other
  exact (field.unique field' (whole.symm.trans whole')).2.1

inductive CountFault (pre text : List Char) : TextFault → Prop where
  | number {reason : TextFault} : NumberFault pre text .countNotInteger reason →
      CountFault pre text reason
  | negative {n : Int} : n < 0 → Counts pre text n → CountFault pre text .negativeCount

theorem exists_countFault_iff :
    (∃ reason, CountFault pre text reason) ↔ ∀ c : Nat, ¬ Counts pre text c := by
  constructor
  · rintro ⟨reason, fault⟩ c counts
    cases fault with
    | number fault => exact exists_numberFault_iff.mp ⟨reason, fault⟩ c counts
    | negative below other =>
      have same := counts.unique other
      omega
  · intro none
    by_cases some : ∃ n, Counts pre text n
    · obtain ⟨n, counts⟩ := some
      refine ⟨_, .negative (Int.not_le.mp fun nonnegative => ?_) counts⟩
      obtain ⟨c, rfl⟩ := Int.eq_ofNat_of_zero_le nonnegative
      exact none c counts
    · obtain ⟨reason, fault⟩ := exists_numberFault_iff.mpr (not_exists.mp some)
      exact ⟨reason, .number fault⟩

/-- A length and the content that it declares stand at the start of a text. -/
structure Piece.Opens (pre : List Char) (piece : Piece) (text behind : List Char) : Prop where
  wellFormed : piece.WellFormed pre
  whole : text = piece.digits ++ pre ++ (piece.content?.getD [] ++ behind)

theorem Piece.Opens.counts {piece : Piece} {behind : List Char}
    (opens : piece.Opens pre text behind) : Counts pre text (elementLength piece.content?) :=
  ⟨_, _, opens.wellFormed, opens.whole⟩

/-- Why no length with enough content behind it stands at the start of a text. -/
inductive LengthFault (pre text : List Char) : TextFault → Prop where
  | number {reason : TextFault} : NumberFault pre text .lengthNotInteger reason →
      LengthFault pre text reason
  /-- Of the negative lengths only -1 stands for an element. -/
  | negative {n : Int} : n < -1 → Counts pre text n → LengthFault pre text .negativeLength
  | pastEnd {n : Nat} {digits rest : List Char} : NumberField pre digits n →
      text = digits ++ pre ++ rest → rest.length < n → LengthFault pre text .elementPastEnd

theorem exists_lengthFault_iff :
    (∃ reason, LengthFault pre text reason) ↔
      ¬ ∃ (piece : Piece) (behind : List Char), piece.Opens pre text behind := by
  constructor
  · rintro ⟨reason, fault⟩ ⟨piece, behind, opens⟩
    cases fault with
    | number fault => exact exists_numberFault_iff.mp ⟨reason, fault⟩ _ opens.counts
    | negative below counts =>
      have same := counts.unique opens.counts
      cases content : piece.content? <;> simp only [content, elementLength] at same <;> omega
    | @pastEnd n digits rest field whole short =>
      obtain ⟨_, same, inside⟩ :=
        field.unique opens.wellFormed (whole.symm.trans opens.whole)
      cases content : piece.content? with
      | none =>
        simp only [content, elementLength] at same
        omega
      | some text =>
        simp only [content, elementLength, Option.getD_some] at same inside
        rw [inside, List.length_append] at short
        omega
  · intro none
    by_cases some : ∃ n, Counts pre text n
    · obtain ⟨n, counts⟩ := some
      obtain ⟨digits, rest, field, whole⟩ := counts
      rcases Int.lt_or_le n (-1) with below | above
      · exact ⟨_, .negative below ⟨digits, rest, field, whole⟩⟩
      rcases Int.lt_or_eq_of_le above with above | rfl
      · obtain ⟨n, rfl⟩ := Int.eq_ofNat_of_zero_le (Int.add_one_le_of_lt above)
        refine ⟨_, .pastEnd field whole (Nat.not_le.mp fun enough => ?_)⟩
        have taken : (rest.take n).length = n := by
          rw [List.length_take]
          exact Nat.min_eq_left enough
        refine none ⟨⟨digits, some (rest.take n)⟩, rest.drop n, ?_, ?_⟩
        · rw [Piece.WellFormed, elementLength, taken]
          exact field
        · rw [whole, Option.getD_some, List.take_append_drop]
      · exact absurd ⟨⟨digits, .none⟩, rest, field, whole⟩ none
    · obtain ⟨reason, fault⟩ := exists_numberFault_iff.mpr (not_exists.mp some)
      exact ⟨reason, .number fault⟩

theorem content_eq_error_iff {field : Nat} {length : Int} {place : Place} {fault : Fault} :
    content field length place = .error fault ↔
      length < -1 ∧ fault = .malformedText field .negativeLength ∨
        ∃ n : Nat, length = n ∧ place.rest.length < n ∧
          fault = .malformedText field .elementPastEnd := by
  constructor
  · intro failed
    unfold content at failed
    split at failed
    · cases failed
    split at failed
    · cases failed
      exact .inl ⟨by omega, rfl⟩
    dsimp only at failed
    split at failed
    · rename_i short
      cases failed
      rw [List.length_take] at short
      exact .inr ⟨length.toNat, by omega, by omega, rfl⟩
    · cases failed
  · rintro (⟨below, rfl⟩ | ⟨n, rfl, short, rfl⟩)
    · rw [content, if_neg (by omega), if_pos (by omega)]
    · rw [content, if_neg (by omega), if_neg (by omega), Int.toNat_natCast]
      dsimp only
      rw [if_pos]
      rw [List.length_take]
      omega

theorem terminator_eq_error_iff {place : Place} {fault : Fault} :
    terminator post place = .error fault ↔
      ¬ post <+: place.rest ∧ fault = .malformedText place.offset .missingTerminator := by
  rw [terminator, ← List.isPrefixOf_iff_prefix]
  split
  · rename_i starts
    simp [starts]
  · rename_i missing
    rw [Except.error.injEq, and_iff_right missing, eq_comm]

/-- What is wrong at the start of a text where a whole element should stand, and how many
bytes behind the start. -/
inductive ElementFault (pre post text : List Char) : Nat → TextFault → Prop where
  | length {reason : TextFault} : LengthFault pre text reason → ElementFault pre post text 0 reason
  | terminator {piece : Piece} {behind : List Char} : piece.Opens pre text behind →
      ¬ post <+: behind →
        ElementFault pre post text
          (utf8Size (piece.digits ++ pre ++ piece.content?.getD [])) .missingTerminator

theorem element_eq_error_iff {place : Place} {fault : Fault} :
    element pre post place = .error fault ↔
      ∃ offset reason, ElementFault pre post place.rest offset reason ∧
        fault = .malformedText (place.offset + offset) reason := by
  simp only [element, Fault.bind_eq_error_iff, Prod.exists, number_eq_error_iff, number_eq_ok_iff,
    content_eq_error_iff, content_eq_ok_iff, terminator_eq_error_iff]
  constructor
  · rintro (⟨reason, fault, rfl⟩ | ⟨n, _, ⟨digits, rest, field, whole, rfl⟩,
      (⟨below, rfl⟩ | ⟨m, rfl, short, rfl⟩) | ⟨_, _, ⟨content?, behind, rfl, inside, rfl, rfl⟩,
        ⟨missing, rfl⟩ | ⟨_, _, done⟩⟩⟩)
    · exact ⟨0, reason, .length (.number fault), rfl⟩
    · exact ⟨0, _, .length (.negative below ⟨digits, rest, field, whole⟩), rfl⟩
    · exact ⟨0, _, .length (.pastEnd field whole short), rfl⟩
    · rw [Place.rest_after] at inside missing
      subst inside
      have opens : Piece.Opens pre ⟨digits, content?⟩ place.rest behind := ⟨field, whole⟩
      refine ⟨_, _, .terminator opens missing, ?_⟩
      simp
    · cases done
  · rintro ⟨offset, reason, fault, rfl⟩
    cases fault with
    | length fault =>
      cases fault with
      | number fault => exact .inl ⟨reason, fault, rfl⟩
      | negative below counts =>
        obtain ⟨digits, rest, field, whole⟩ := counts
        exact .inr ⟨_, _, ⟨digits, rest, field, whole, rfl⟩, .inl (.inl ⟨below, rfl⟩)⟩
      | pastEnd field whole short =>
        exact .inr ⟨_, _, ⟨_, _, field, whole, rfl⟩, .inl (.inr ⟨_, rfl, short, rfl⟩)⟩
    | @terminator piece behind opens missing =>
      refine .inr ⟨_, _, ⟨piece.digits, _, opens.wellFormed, opens.whole, rfl⟩,
        .inr ⟨_, _, ⟨piece.content?, behind, rfl, rfl, rfl, rfl⟩, .inl ⟨missing, ?_⟩⟩⟩
      simp

theorem elements_eq_error_iff {count : Nat} {place : Place} {fault : Fault} :
    elements pre post count place = .error fault ↔
      ∃ (pieces : List Piece) (rest : List Char) (offset : Nat) (reason : TextFault),
        pieces.length < count ∧ (∀ piece ∈ pieces, piece.WellFormed pre) ∧
        place.rest = pieces.flatMap (Piece.text pre post) ++ rest ∧
        ElementFault pre post rest offset reason ∧
        fault = .malformedText
          (place.offset + utf8Size (pieces.flatMap (Piece.text pre post)) + offset) reason := by
  induction count generalizing place with
  | zero =>
    constructor
    · intro failed
      cases failed
    · rintro ⟨_, _, _, _, below, _⟩
      exact absurd below (Nat.not_lt_zero _)
  | succ count ih =>
    simp only [elements, Fault.bind_eq_error_iff, Prod.exists, element_eq_error_iff,
      element_eq_ok_iff, ih]
    -- The first element is at fault, or the others are behind it.
    constructor
    · rintro (⟨offset, reason, fault, rfl⟩ | ⟨_, _, ⟨piece, _, wellFormed, whole, rfl, rfl⟩,
        ⟨pieces, rest, offset, reason, below, others, inner, fault, rfl⟩ | ⟨_, _, _, done⟩⟩)
      · exact ⟨[], place.rest, offset, reason, Nat.succ_pos count, by simp, rfl, fault, rfl⟩
      · rw [Place.rest_after] at inner
        subst inner
        refine ⟨piece :: pieces, rest, offset, reason, Nat.succ_lt_succ below,
          List.forall_mem_cons.mpr ⟨wellFormed, others⟩, ?_, fault, ?_⟩
        · simp [whole]
        · simp [Nat.add_assoc]
      · cases done
    · rintro ⟨pieces, rest, offset, reason, below, all, whole, fault, rfl⟩
      cases pieces with
      | nil =>
        cases (show place.rest = rest from whole)
        exact .inl ⟨offset, reason, fault, rfl⟩
      | cons piece pieces =>
        obtain ⟨wellFormed, others⟩ := List.forall_mem_cons.mp all
        refine .inr ⟨_, _, ⟨piece, _, wellFormed, ?_, rfl, rfl⟩,
          .inl ⟨pieces, rest, offset, reason, Nat.lt_of_succ_lt_succ below, others, rfl, fault, ?_⟩⟩
        · simp [whole]
        · simp [Nat.add_assoc]

/-- What is wrong behind the elements that a text starts with where so many more are missing,
and how many bytes behind them. -/
inductive FaultBehind (pre post rest : List Char) : Nat → Nat → TextFault → Prop where
  | element {missing offset : Nat} {reason : TextFault} :
      ElementFault pre post rest offset reason → FaultBehind pre post rest (missing + 1) offset reason
  | trailing : rest ≠ [] → FaultBehind pre post rest 0 0 .trailingText

theorem toEnd_eq_error_iff {c : Nat} {place : Place} {fault : Fault} :
    (elements pre post c place >>= fun (items, last) =>
        if last.rest.isEmpty then .ok items
        else .error (.malformedText last.offset .trailingText)) = .error fault ↔
      ∃ (pieces : List Piece) (rest : List Char) (further : Nat) (reason : TextFault),
        pieces.length ≤ c ∧ (∀ piece ∈ pieces, piece.WellFormed pre) ∧
        place.rest = pieces.flatMap (Piece.text pre post) ++ rest ∧
        FaultBehind pre post rest (c - pieces.length) further reason ∧
        fault = .malformedText
          (place.offset + utf8Size (pieces.flatMap (Piece.text pre post)) + further) reason := by
  rw [Fault.bind_eq_error_iff, elements_eq_error_iff]
  constructor
  · rintro (⟨pieces, rest, further, reason, below, wellFormed, whole, fault, rfl⟩ |
      ⟨⟨items, last⟩, cutUp, left⟩)
    · refine ⟨pieces, rest, further, reason, Nat.le_of_lt below, wellFormed, whole, ?_, rfl⟩
      rw [show c - pieces.length = c - pieces.length - 1 + 1 by omega]
      exact .element fault
    · obtain ⟨pieces, rest, rfl, wellFormed, whole, rfl, rfl⟩ := elements_eq_ok_iff.mp cutUp
      dsimp only at left
      split at left
      · cases left
      rename_i nonempty
      cases left
      refine ⟨pieces, rest, 0, _, Nat.le_refl _, wellFormed, whole, ?_, rfl⟩
      rw [Nat.sub_self]
      exact .trailing (by simpa using nonempty)
  · rintro ⟨pieces, rest, further, reason, few, wellFormed, whole, fault, rfl⟩
    generalize left : c - pieces.length = missing at fault
    cases fault with
    | element fault =>
      exact .inl ⟨pieces, rest, further, reason, by omega, wellFormed, whole, fault, rfl⟩
    | trailing nonempty =>
      refine .inr ⟨_, elements_eq_ok_iff.mpr
        ⟨pieces, rest, by omega, wellFormed, whole, rfl, rfl⟩, ?_⟩
      simp [nonempty]

/-- A text starts with the count `c` and with elements, of which there are no more. -/
structure Spelling.Begins (pre post text : List Char) (start : Spelling) (c : Nat)
    (rest : List Char) : Prop where
  count : NumberField pre start.count c
  pieces : ∀ piece ∈ start.pieces, piece.WellFormed pre
  few : start.pieces.length ≤ c
  whole : text = start.text pre post ++ rest

theorem readLocated_malformed_iff {limit offset : Nat} {reason : TextFault} (nonempty : pre ≠ []) :
    readLocated limit pre post text = .error (.malformedText offset reason) ↔
      offset = 0 ∧ CountFault pre text reason ∨
        ∃ (start : Spelling) (c : Nat) (rest : List Char) (further : Nat),
          start.Begins pre post text c rest ∧ c ≤ limit ∧
            FaultBehind pre post rest (c - start.pieces.length) further reason ∧
            offset = utf8Size (start.text pre post) + further := by
  constructor
  · intro failed
    cases counted : number pre .countNotInteger ⟨0, text⟩ with
    | error fault =>
      rw [readLocated, if_neg (by simpa using nonempty), counted] at failed
      cases failed
      obtain ⟨reason, fault, same⟩ := number_eq_error_iff.mp counted
      cases same
      exact .inl ⟨rfl, .number fault⟩
    | ok result =>
      obtain ⟨count, first⟩ := result
      rw [readLocated_of_number counted] at failed
      split at failed
      · rename_i below
        cases failed
        exact .inl ⟨rfl, .negative below (counts_iff.mpr ⟨first, counted⟩)⟩
      split at failed
      · cases failed
      rename_i nonnegative within
      obtain ⟨c, rfl⟩ := Int.eq_ofNat_of_zero_le (Int.not_lt.mp nonnegative)
      rw [Int.toNat_natCast] at failed within
      obtain ⟨digits, behind, field, whole, rfl⟩ := number_eq_ok_iff.mp counted
      obtain ⟨pieces, rest, further, reason, few, wellFormed, inner, fault, same⟩ :=
        toEnd_eq_error_iff.mp failed
      cases same
      cases (show text = _ from whole)
      cases (show behind = _ from inner)
      refine .inr ⟨⟨digits, pieces⟩, c, rest, further, ⟨field, wellFormed, few, ?_⟩,
        Nat.not_lt.mp within, fault, ?_⟩
      · simp [Spelling.text]
      · simp [Spelling.text, Nat.add_assoc]
  · rintro (⟨rfl, fault⟩ | ⟨start, c, rest, further, begins, within, fault, rfl⟩)
    · cases fault with
      | number fault =>
        have failed : number pre .countNotInteger ⟨0, text⟩ = .error _ :=
          number_eq_error_iff.mpr ⟨reason, fault, rfl⟩
        rw [readLocated, if_neg (by simpa using nonempty), failed]
        rfl
      | negative below counts =>
        obtain ⟨first, counted⟩ := counts_iff.mp counts
        rw [readLocated_of_number counted, if_pos below]
    · have whole : text = start.count ++ pre ++
          (start.pieces.flatMap (Piece.text pre post) ++ rest) := by
        simp [begins.whole, Spelling.text]
      have counted : number pre .countNotInteger ⟨0, text⟩ = .ok (_, _) :=
        number_eq_ok_iff.mpr ⟨_, _, begins.count, whole, rfl⟩
      rw [readLocated_of_number counted, if_neg (by omega), Int.toNat_natCast,
        if_neg (Nat.not_lt.mpr within)]
      refine toEnd_eq_error_iff.mpr ⟨start.pieces, rest, further, reason, begins.few, begins.pieces,
        rfl, fault, ?_⟩
      simp [Spelling.text, Nat.add_assoc]

theorem exists_elementFault_iff : (∃ offset reason, ElementFault pre post text offset reason) ↔
    ¬ ∃ (piece : Piece) (rest : List Char),
      piece.WellFormed pre ∧ text = piece.text pre post ++ rest := by
  constructor
  · rintro ⟨offset, reason, fault⟩ ⟨piece, rest, wellFormed, whole⟩
    have read : element pre post ⟨0, text⟩ = .ok (_, _) :=
      element_eq_ok_iff.mpr ⟨piece, rest, wellFormed, whole, rfl, rfl⟩
    rw [element_eq_error_iff.mpr ⟨offset, reason, fault, rfl⟩] at read
    cases read
  · intro none
    cases read : element pre post ⟨0, text⟩ with
    | ok result =>
      obtain ⟨piece, rest, wellFormed, whole, _⟩ := element_eq_ok_iff.mp read
      exact absurd ⟨piece, rest, wellFormed, whole⟩ none
    | error fault =>
      obtain ⟨offset, reason, fault, _⟩ := element_eq_error_iff.mp read
      exact ⟨offset, reason, fault⟩

theorem Piece.append_of_length_le {pieces pieces' : List Piece} {rest rest' : List Char}
    (le : pieces.length ≤ pieces'.length) (wellFormed : ∀ piece ∈ pieces, piece.WellFormed pre)
    (wellFormed' : ∀ piece ∈ pieces', piece.WellFormed pre)
    (same : pieces.flatMap (Piece.text pre post) ++ rest =
      pieces'.flatMap (Piece.text pre post) ++ rest') :
    ∃ more, pieces' = pieces ++ more ∧ rest = more.flatMap (Piece.text pre post) ++ rest' := by
  -- By induction on the shorter list: the same text starts with the same piece.
  induction pieces generalizing pieces' with
  | nil => exact ⟨pieces', rfl, same⟩
  | cons piece pieces ih =>
    obtain ⟨piece', pieces', rfl⟩ := List.exists_cons_of_length_pos (Nat.zero_lt_of_lt le)
    obtain ⟨here, others⟩ := List.forall_mem_cons.mp wellFormed
    obtain ⟨here', others'⟩ := List.forall_mem_cons.mp wellFormed'
    simp only [List.flatMap_cons, List.append_assoc] at same
    obtain ⟨rfl, behind⟩ := Piece.unique here here' same
    obtain ⟨more, rfl, after⟩ := ih (Nat.le_of_succ_le_succ le) others others' behind
    exact ⟨more, rfl, after⟩

section begins

variable {start start' : Spelling} {c c' : Nat} {rest rest' : List Char}

theorem Spelling.Begins.same_count (begins : start.Begins pre post text c rest)
    (other : start'.Begins pre post text c' rest') :
    start.count = start'.count ∧ c = c' ∧
      start.pieces.flatMap (Piece.text pre post) ++ rest =
        start'.pieces.flatMap (Piece.text pre post) ++ rest' := by
  have same := begins.whole.symm.trans other.whole
  simp only [Spelling.text, List.append_assoc] at same
  rw [← List.append_assoc, ← List.append_assoc start'.count] at same
  obtain ⟨count, counts, behind⟩ := begins.count.unique other.count same
  exact ⟨count, Int.ofNat.inj counts, behind⟩

theorem FaultBehind.isPrefix {further : Nat} {reason : TextFault}
    (fault : FaultBehind pre post rest (c - start.pieces.length) further reason)
    (begins : start.Begins pre post text c rest) (other : start'.Begins pre post text c' rest') :
    c' = c ∧ start'.count = start.count ∧ start'.pieces <+: start.pieces := by
  obtain ⟨count, rfl, inner⟩ := begins.same_count other
  refine ⟨rfl, count.symm, ?_⟩
  rcases Nat.lt_or_ge start.pieces.length start'.pieces.length with longer | le
  case inr =>
    obtain ⟨more, same, _⟩ :=
      Piece.append_of_length_le le other.pieces begins.pieces inner.symm
    exact ⟨more, same.symm⟩
  obtain ⟨more, same, behind⟩ :=
    Piece.append_of_length_le (Nat.le_of_lt longer) begins.pieces other.pieces inner
  have few := other.few
  generalize left : c - start.pieces.length = missing at fault
  cases fault with
  | element fault =>
    -- The next element of the longer way stands where the fault should be.
    cases more with
    | nil => simp [same] at longer
    | cons piece more =>
      exfalso
      apply exists_elementFault_iff.mp ⟨_, _, fault⟩
      refine ⟨piece, more.flatMap (Piece.text pre post) ++ rest', other.pieces piece ?_, ?_⟩
      · simp [same]
      · rw [behind, List.flatMap_cons, List.append_assoc]
  | trailing nonempty => omega

end begins

theorem read_eq_error_iff {text pre : String} {post : Option String} {fault : Fault} :
    read text pre post = .error fault ↔
      readLocated Limits.unbounded.list pre.toList (post.getD "").toList text.toList =
        .error fault := by
  simp [read, readWithin, Fault.bind_eq_error_iff, pure, Except.pure]

theorem NumberField.le_unbounded {digits : List Char} {c : Nat} (field : NumberField pre digits c) :
    c ≤ Limits.unbounded.list := by
  -- A count has 64 bits with its sign, the size that bounds a free list without one.
  have high := field.high
  show c ≤ 2 ^ 64 - 1
  omega

/-- A text is malformed just where something of its form is wrong first: no count stands at
its start, or behind the whole elements that it starts with, of which the count may not be
exceeded, the next length with its content or the next terminator is missing, or there is
text left over. The offset and the reason are those of this fault, and the elements before
it are as many as there are. -/
theorem malformed_iff_first_fault (text pre : String) (post : Option String) (offset : Nat)
    (reason : TextFault) (nonempty : pre ≠ "") :
    (read text pre post = .error (.malformedText offset reason) ↔
      offset = 0 ∧ CountFault pre.toList text.toList reason ∨
      ∃ (start : Spelling) (c : Nat) (rest : List Char) (further : Nat),
        start.Begins pre.toList (post.getD "").toList text.toList c rest ∧
        FaultBehind pre.toList (post.getD "").toList rest (c - start.pieces.length) further reason ∧
        offset = utf8Size (start.text pre.toList (post.getD "").toList) + further) ∧
    ((∃ reason, CountFault pre.toList text.toList reason) ↔
      ∀ c : Nat, ¬ Counts pre.toList text.toList c) ∧
    (∀ rest : List Char, (∃ reason, LengthFault pre.toList rest reason) ↔
      ¬ ∃ (piece : Piece) (behind : List Char), piece.Opens pre.toList rest behind) ∧
    ∀ (start : Spelling) (c : Nat) (rest : List Char) (further : Nat) (reason : TextFault),
      start.Begins pre.toList (post.getD "").toList text.toList c rest →
      FaultBehind pre.toList (post.getD "").toList rest (c - start.pieces.length) further reason →
      ∀ (start' : Spelling) (c' : Nat) (rest' : List Char),
        start'.Begins pre.toList (post.getD "").toList text.toList c' rest' →
        c' = c ∧ start'.pieces.length ≤ start.pieces.length ∧
          ((∃ further reason, FaultBehind pre.toList (post.getD "").toList rest'
            (c' - start'.pieces.length) further reason) → start' = start) := by
  refine ⟨?_, exists_countFault_iff, fun rest => exists_lengthFault_iff, ?_⟩
  · rw [read_eq_error_iff, readLocated_malformed_iff (by simpa using nonempty)]
    apply or_congr_right
    constructor
    · rintro ⟨start, c, rest, further, begins, _, fault, whole⟩
      exact ⟨start, c, rest, further, begins, fault, whole⟩
    · rintro ⟨start, c, rest, further, begins, fault, whole⟩
      exact ⟨start, c, rest, further, begins, begins.count.le_unbounded, fault, whole⟩
  · intro start c rest further reason begins fault start' c' rest' other
    obtain ⟨rfl, count, elements⟩ := fault.isPrefix begins other
    refine ⟨rfl, elements.length_le, ?_⟩
    rintro ⟨_, _, fault'⟩
    obtain ⟨_, _, elements'⟩ := fault'.isPrefix other begins
    have pieces := elements.eq_of_length_le elements'.length_le
    cases start
    cases start'
    cases count
    cases pieces
    rfl

theorem first_fault_missing_terminator :
    "|" ≠ "" ∧ read "2|1|é;3|xy;" "|" (some ";") =
      .error (.malformedText 12 .missingTerminator) := by
  refine ⟨by decide, (malformed_iff_first_fault _ _ _ _ _ (by decide)).1.mpr (.inr ?_)⟩
  refine ⟨⟨['2'], [⟨['1'], some ['é']⟩]⟩, 2, ['3', '|', 'x', 'y', ';'], 5, ?_, .element ?_, ?_⟩
  · exact ⟨by decide +kernel, by decide +kernel, by decide, by decide +kernel⟩
  · have opens : Piece.Opens ['|'] ⟨['3'], some ['x', 'y', ';']⟩ ['3', '|', 'x', 'y', ';'] [] :=
      ⟨by decide +kernel, rfl⟩
    exact .terminator opens (by decide)
  · decide +kernel

end Wireform.ListText
