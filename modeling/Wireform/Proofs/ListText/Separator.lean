import Mathlib.Logic.Basic
import Mathlib.Tactic.ByContra
import Wireform.Proofs.ListText.Canonical
/-! Separators that no number can hide.

An occurrence of the separator inside a number and the separator behind it makes
the separator periodic, with a tail of the number as its period. So the numbers
that are written, which are -1 and the natural numbers, are safe from all but two
families of separators.
-/

set_option autoImplicit false

namespace Wireform.ListText

/-- A separator that can be taken for part of a number: digits only, or a
beginning of `-1-1-1` and so on. -/
def Ambiguous (pre : List Char) : Prop :=
  (∀ c ∈ pre, c.isDigit = true) ∨ ∃ n, pre <+: (List.replicate n ['-', '1']).flatten

variable {pre post : List Char}

theorem prefix_replicate_append {period : List Char} (shift : pre <+: period ++ pre) (n : Nat) :
    pre <+: (List.replicate n period).flatten ++ pre := by
  induction n with
  | zero => exact List.prefix_rfl
  | succ n ih =>
    rw [List.replicate_succ, List.flatten_cons, List.append_assoc]
    exact shift.trans ((List.prefix_append_right_inj period).mpr ih)

theorem prefix_replicate {period : List Char} (nonempty : period ≠ []) (shift : pre <+: period ++ pre) :
    ∃ n, pre <+: (List.replicate n period).flatten := by
  refine ⟨pre.length, List.prefix_of_prefix_length_le (prefix_replicate_append shift pre.length)
    (List.prefix_append _ pre) ?_⟩
  have step := Nat.mul_le_mul_left pre.length (List.length_pos_iff.mpr nonempty)
  simpa [List.length_flatten] using step

theorem prefix_append_of_replicate {period : List Char} {n : Nat}
    (repeated : pre <+: (List.replicate n period).flatten) : pre <+: period ++ pre := by
  -- Both are beginnings of one repetition more.
  have shifted : period ++ pre <+: (List.replicate (n + 1) period).flatten := by
    rw [List.replicate_succ, List.flatten_cons]
    exact (List.prefix_append_right_inj period).mpr repeated
  have longer : pre <+: (List.replicate (n + 1) period).flatten := by
    rw [List.replicate_succ', List.flatten_append]
    exact List.prefix_append_of_prefix repeated
  exact List.prefix_of_prefix_length_le longer shifted (by simp)

/-- A separator that is found too early repeats a tail of the text before it. -/
theorem exists_period {text : List Char} (early : ¬ FirstBehind pre text) :
    ∃ front period n, text = front ++ period ∧ period ≠ [] ∧
      pre <+: (List.replicate n period).flatten := by
  simp only [FirstBehind, not_forall, not_not] at early
  obtain ⟨i, before, starts⟩ := early
  have nonempty : text.drop i ≠ [] := by simpa using before
  rw [List.drop_append_of_le_length (Nat.le_of_lt before)] at starts
  obtain ⟨n, repeated⟩ := prefix_replicate nonempty starts
  exact ⟨text.take i, text.drop i, n, (List.take_append_drop i text).symm, nonempty, repeated⟩

theorem mem_of_prefix_replicate {period : List Char} {n : Nat}
    (repeated : pre <+: (List.replicate n period).flatten) {c : Char} (member : c ∈ pre) :
    c ∈ period := by
  obtain ⟨block, inBlocks, inside⟩ := List.mem_flatten.mp (repeated.subset member)
  rwa [List.eq_of_mem_replicate inBlocks] at inside

theorem firstBehind_natText (clear : ¬ Ambiguous pre) (n : Nat) :
    FirstBehind pre (Decimal.natText n) := by
  by_contra early
  obtain ⟨front, period, _, whole, _, repeated⟩ := exists_period early
  apply clear
  refine .inl fun c member => Decimal.isDigit_of_mem_natText (n := n) ?_
  rw [whole]
  exact List.mem_append_right front (mem_of_prefix_replicate repeated member)

theorem firstBehind_minusOne (clear : ¬ Ambiguous pre) : FirstBehind pre ['-', '1'] := by
  by_contra early
  obtain ⟨front, period, n, whole, nonempty, repeated⟩ := exists_period early
  apply clear
  -- The tails of `-1` that are not empty are `-1` itself and `1`.
  cases front with
  | nil => exact .inr ⟨n, whole ▸ repeated⟩
  | cons sign front =>
    cases front with
    | nil =>
      cases whole
      refine .inl fun c member => ?_
      rw [List.mem_singleton.mp (mem_of_prefix_replicate repeated member)]
      decide
    | cons digit front =>
      simp only [List.cons_append, List.cons.injEq, List.nil_eq, List.append_eq_nil_iff] at whole
      exact absurd whole.2.2.2 nonempty

/-- The numeral that is written for a length or a count. -/
theorem numberField_intText (clear : ¬ Ambiguous pre) {n : Int} (low : -1 ≤ n) (high : n < 2 ^ 63) :
    NumberField pre (Decimal.intText n) n := by
  refine ⟨Decimal.denotes_intText n, by omega, high, ?_⟩
  cases n with
  | ofNat n => exact firstBehind_natText clear n
  | negSucc n =>
    obtain rfl : n = 0 := by omega
    exact firstBehind_minusOne clear

/-- A list whose count and lengths fit 64 bits. -/
structure Fits (list : List (Option String)) : Prop where
  count : list.length < 2 ^ 63
  lengths : ∀ text, some text ∈ list → text.length < 2 ^ 63

theorem wellFormed_canonical (clear : ¬ Ambiguous pre) {list : List (Option String)}
    (fits : Fits list) : (Spelling.canonical list).WellFormed pre := by
  have count := fits.count
  refine Spelling.wellFormed_canonical_iff.mpr
    ⟨numberField_intText clear (by omega) (by omega), fun element member => ?_⟩
  cases element with
  | none => exact numberField_intText clear (Int.le_refl _) (by decide)
  | some text =>
    have length := fits.lengths text member
    rw [← String.length_toList] at length
    exact numberField_intText clear (n := text.toList.length) (by omega) (by omega)

/-- A list that an ambiguous separator loses. The length of its element holds the
separator behind its first character. -/
def misread (pre : List Char) : List (Option String) :=
  if pre.all Char.isDigit then
    [some (String.ofList (List.replicate (Nat.ofDigitChars 10 pre 1) 'a'))]
  else [none]

theorem misread_cases (ambiguous : Ambiguous pre) :
    (∀ c ∈ pre, c.isDigit = true) ∧
        misread pre = [some (String.ofList (List.replicate (Nat.ofDigitChars 10 pre 1) 'a'))] ∨
      (∃ n, pre <+: (List.replicate n ['-', '1']).flatten) ∧ misread pre = [none] := by
  by_cases digits : ∀ c ∈ pre, c.isDigit = true
  · exact .inl ⟨digits, if_pos (List.all_eq_true.mpr digits)⟩
  · exact .inr ⟨ambiguous.resolve_left digits, if_neg (mt List.all_eq_true.mp digits)⟩

theorem fits_misread (ambiguous : Ambiguous pre) (short : pre.length ≤ 15) : Fits (misread pre) := by
  rcases misread_cases ambiguous with ⟨digits, same⟩ | ⟨_, same⟩
  · rw [same]
    refine ⟨by simp, fun text member => ?_⟩
    have below := Decimal.ofDigitChars_lt digits 1
    have power : 10 ^ pre.length ≤ 10 ^ 15 := Nat.pow_le_pow_right (by decide) short
    simp only [List.mem_singleton, Option.some.injEq] at member
    simp only [member, String.length_ofList, List.length_replicate]
    omega
  · rw [same]
    exact ⟨by simp, by simp⟩

theorem not_wellFormed_misread (nonempty : pre ≠ []) (ambiguous : Ambiguous pre) :
    ¬ (Spelling.canonical (misread pre)).WellFormed pre := by
  intro wellFormed
  have elements := (Spelling.wellFormed_canonical_iff.mp wellFormed).2
  rcases misread_cases ambiguous with ⟨digits, same⟩ | ⟨⟨n, repeated⟩, same⟩
  · rw [same] at elements
    have field := elements _ (List.mem_singleton.mpr rfl)
    have numeral : (Piece.canonical ((some (String.ofList
        (List.replicate (Nat.ofDigitChars 10 pre 1) 'a'))).map String.toList)).digits = '1' :: pre := by
      simp only [Piece.canonical, Option.map_some, String.toList_ofList, elementLength,
        List.length_replicate]
      exact Decimal.natText_ofDigitChars digits Nat.one_pos
    -- Behind the leading 1 the whole separator stands a first time.
    have first := field.first
    rw [numeral] at first
    apply first 1 (by simpa using List.length_pos_iff.mpr nonempty)
    exact List.prefix_append pre pre
  · rw [same] at elements
    have field := elements _ (List.mem_singleton.mpr rfl)
    exact field.first 0 (by decide) (prefix_append_of_replicate repeated)

theorem exists_write {pre : String} (nonempty : pre ≠ "") (post : Option String)
    (list : List (Option String)) : ∃ text, write list pre post = .ok text := by
  have filled : pre.isEmpty = false := by simpa using nonempty
  rw [write, filled]
  exact ⟨_, rfl⟩

theorem nonempty_of_clear {pre : String} (clear : ¬ Ambiguous pre.toList) : pre ≠ "" := by
  rintro rfl
  exact clear (.inl (by simp))

theorem readWithin_of_clear {limit : Nat} {text pre : String} {post : Option String}
    {list : List (Option String)} (clear : ¬ Ambiguous pre.toList) (fits : Fits list)
    (within : list.length ≤ limit) (written : write list pre post = .ok text) :
    readWithin limit text pre post = .ok list :=
  (readWithin_write_iff written).mpr ⟨wellFormed_canonical clear fits, within⟩

theorem readWithin_misread_ne {limit : Nat} {text pre : String} {post : Option String}
    (nonempty : pre ≠ "") (ambiguous : Ambiguous pre.toList)
    (written : write (misread pre.toList) pre post = .ok text) :
    readWithin limit text pre post ≠ .ok (misread pre.toList) := by
  intro same
  apply not_wellFormed_misread (by simpa using nonempty) ambiguous
  exact ((readWithin_write_iff written).mp same).1

/-- Of the separators of one character just the digits and the minus sign are ambiguous. -/
theorem ambiguous_singleton {c : Char} : Ambiguous [c] ↔ c.isDigit = true ∨ c = '-' := by
  rw [Ambiguous, List.forall_mem_singleton]
  refine or_congr_right ⟨?_, ?_⟩
  · rintro ⟨n, repeated⟩
    cases n with
    | zero => simp at repeated
    | succ n => simpa [List.replicate_succ] using repeated
  · rintro rfl
    exact ⟨1, by simp⟩

end Wireform.ListText
