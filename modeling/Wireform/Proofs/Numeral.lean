import Wireform.Decimal
/-! What a decimal numeral denotes, and that reading accepts just the numerals. -/

set_option autoImplicit false

namespace Wireform.Decimal

/-- One or more ASCII digits and the number they spell. -/
structure Digits (text : List Char) (n : Nat) : Prop where
  nonempty : text ≠ []
  digit : ∀ c ∈ text, c.isDigit = true
  spells : Nat.ofDigitChars 10 text 0 = n

/-- An optional sign and digits, leading zeros allowed. -/
inductive Denotes : List Char → Int → Prop where
  | unsigned {digits : List Char} {n : Nat} : Digits digits n → Denotes digits n
  | plus {digits : List Char} {n : Nat} : Digits digits n → Denotes ('+' :: digits) n
  | minus {digits : List Char} {n : Nat} : Digits digits n → Denotes ('-' :: digits) (-n)

theorem Denotes.nonempty {text : List Char} {n : Int} (denotes : Denotes text n) : text ≠ [] := by
  cases denotes with
  | unsigned digits => exact digits.nonempty
  | plus _ => simp
  | minus _ => simp

theorem Digits.head_ne {text : List Char} {n : Nat} (digits : Digits text n) {sign : Char}
    (notDigit : sign.isDigit = false) : text.head? ≠ some sign := by
  intro first
  have digit := digits.digit sign (List.mem_of_mem_head? first)
  rw [notDigit] at digit
  cases digit

theorem nat?_eq_some_iff {text : List Char} {n : Nat} : nat? text = some n ↔ Digits text n := by
  constructor
  · intro read
    unfold nat? at read
    split at read
    · rename_i valid
      exact ⟨valid.1, List.all_eq_true.mp valid.2, Option.some.inj read⟩
    · cases read
  · intro digits
    rw [nat?, if_pos ⟨digits.nonempty, List.all_eq_true.mpr digits.digit⟩, digits.spells]

theorem int?_eq_some_iff {text : List Char} {n : Int} : int? text = some n ↔ Denotes text n := by
  constructor
  · intro read
    unfold int? at read
    split at read
    · obtain ⟨m, digits, rfl⟩ := Option.map_eq_some_iff.mp read
      exact .plus (nat?_eq_some_iff.mp digits)
    · obtain ⟨m, digits, rfl⟩ := Option.map_eq_some_iff.mp read
      exact .minus (nat?_eq_some_iff.mp digits)
    · obtain ⟨m, digits, rfl⟩ := Option.map_eq_some_iff.mp read
      exact .unsigned (nat?_eq_some_iff.mp digits)
  · intro denotes
    cases denotes with
    | unsigned digits =>
      rw [int?_of_unsigned (digits.head_ne (by decide)) (digits.head_ne (by decide)),
        nat?_eq_some_iff.mpr digits]
      rfl
    | plus digits => simp [int?, nat?_eq_some_iff.mpr digits]
    | minus digits => simp [int?, nat?_eq_some_iff.mpr digits]

theorem intWithin?_eq_some_iff {low high n : Int} {text : List Char} :
    intWithin? low high text = some n ↔ Denotes text n ∧ low ≤ n ∧ n ≤ high := by
  rw [intWithin?, Option.filter_eq_some_iff, int?_eq_some_iff, decide_eq_true_iff]

theorem int64?_eq_some_iff {text : List Char} {n : Int} :
    int64? text = some n ↔ Denotes text n ∧ -2 ^ 63 ≤ n ∧ n < 2 ^ 63 := by
  rw [int64?, intWithin?_eq_some_iff, Int.le_sub_one_iff]

theorem denotes_intText (n : Int) : Denotes (intText n) n := int?_eq_some_iff.mp (int?_intText n)

theorem Denotes.unique {text : List Char} {first second : Int} (left : Denotes text first)
    (right : Denotes text second) : first = second := by
  have read := int?_eq_some_iff.mpr left
  rw [int?_eq_some_iff.mpr right] at read
  exact (Option.some.inj read).symm

theorem exists_digitChar {c : Char} (digit : c.isDigit = true) : ∃ d < 10, c = Nat.digitChar d := by
  obtain ⟨low, high⟩ := Char.isDigit_iff_toNat.mp digit
  have low : 48 ≤ c.toNat := low
  have high : c.toNat ≤ 57 := high
  have codes : ∀ d < 10, (Nat.digitChar d).toNat = 48 + d := by decide
  refine ⟨c.toNat - 48, by omega, Char.toNat_inj.mp ?_⟩
  rw [codes _ (by omega)]
  omega

theorem ofDigitChars_lt {text : List Char} (digit : ∀ c ∈ text, c.isDigit = true) (init : Nat) :
    Nat.ofDigitChars 10 text init < (init + 1) * 10 ^ text.length := by
  induction text generalizing init with
  | nil => simp
  | cons c rest ih =>
    obtain ⟨here, others⟩ := List.forall_mem_cons.mp digit
    obtain ⟨d, small, rfl⟩ := exists_digitChar here
    rw [Nat.ofDigitChars_cons_digitChar_of_lt_ten small, List.length_cons, Nat.pow_succ',
      ← Nat.mul_assoc]
    apply Nat.lt_of_lt_of_le (ih others _)
    exact Nat.mul_le_mul_right _ (by omega)

/-- Digits behind a number without leading zeros are its further digits. -/
theorem natText_ofDigitChars {text : List Char} (digit : ∀ c ∈ text, c.isDigit = true) {init : Nat}
    (positive : 0 < init) : natText (Nat.ofDigitChars 10 text init) = natText init ++ text := by
  induction text generalizing init with
  | nil => simp
  | cons c rest ih =>
    obtain ⟨here, others⟩ := List.forall_mem_cons.mp digit
    obtain ⟨d, small, rfl⟩ := exists_digitChar here
    -- The first digit joins the number in front, which stays positive.
    have digits : natText (10 * init + d) = natText init ++ [d.digitChar] := by
      rw [natText, ← Nat.toDigits_append_toDigits (by decide) positive small,
        Nat.toDigits_of_lt_base small]
      rfl
    rw [Nat.ofDigitChars_cons_digitChar_of_lt_ten small, ih others (by omega), digits]
    simp

/-- Digits end with those that are written for their number. -/
theorem Digits.natText_suffix {text : List Char} {n : Nat} (digits : Digits text n) :
    natText n <:+ text := by
  induction text with
  | nil => exact absurd rfl digits.nonempty
  | cons c rest ih =>
    obtain ⟨here, others⟩ := List.forall_mem_cons.mp digits.digit
    obtain ⟨d, small, rfl⟩ := exists_digitChar here
    have spells : Nat.ofDigitChars 10 rest d = n := by
      rw [← digits.spells, Nat.ofDigitChars_cons_digitChar_of_lt_ten small]
      simp
    cases d with
    | succ d =>
      rw [← spells, natText_ofDigitChars others (Nat.succ_pos d), natText,
        Nat.toDigits_of_lt_base small]
      exact List.suffix_rfl
    | zero =>
      cases rest with
      | nil =>
        cases spells
        exact List.suffix_rfl
      | cons next rest => exact (ih ⟨by simp, others, spells⟩).trans (List.suffix_cons _ _)

theorem Digits.length_natText_le {text : List Char} {n : Nat} (digits : Digits text n) :
    (natText n).length ≤ text.length :=
  digits.natText_suffix.length_le

theorem Denotes.length_intText_le {text : List Char} {n : Int} (denotes : Denotes text n) :
    (intText n).length ≤ text.length := by
  cases denotes with
  | unsigned digits => exact digits.length_natText_le
  | plus digits => exact Nat.le_succ_of_le digits.length_natText_le
  | @minus _ n digits =>
    cases n with
    -- Minus zero is written without its sign.
    | zero => exact Nat.le_succ_of_le digits.length_natText_le
    | succ n => exact Nat.succ_le_succ digits.length_natText_le

theorem length_natText_mono {small large : Nat} (le : small ≤ large) :
    (natText small).length ≤ (natText large).length := by
  have filled : 0 < (natText large).length := List.length_pos_iff.mpr (natText_ne_nil large)
  have below : large < 10 ^ (natText large).length :=
    (Nat.length_toDigits_le_iff (by decide) filled).mp (Nat.le_refl _)
  exact (Nat.length_toDigits_le_iff (by decide) filled).mpr (Nat.lt_of_le_of_lt le below)

theorem Denotes.natText_suffix {text : List Char} {n : Int} (denotes : Denotes text n) :
    natText n.natAbs <:+ text := by
  cases denotes with
  | unsigned digits => exact digits.natText_suffix
  | plus digits => exact digits.natText_suffix.trans (List.suffix_cons _ _)
  | minus digits =>
    rw [Int.natAbs_neg]
    exact digits.natText_suffix.trans (List.suffix_cons _ _)

/-- No other numeral is as short as the one that is written. -/
theorem Denotes.eq_intText {text : List Char} {n : Int} (denotes : Denotes text n)
    (short : text.length ≤ (intText n).length) : text = intText n := by
  cases denotes with
  | unsigned digits => exact (digits.natText_suffix.eq_of_length_le short).symm
  | plus digits =>
    exact absurd (Nat.le_trans short digits.length_natText_le) (Nat.not_succ_le_self _)
  | @minus _ n digits =>
    cases n with
    | zero => exact absurd (Nat.le_trans short digits.length_natText_le) (Nat.not_succ_le_self _)
    | succ n =>
      have same := digits.natText_suffix.eq_of_length_le (Nat.le_of_succ_le_succ short)
      exact congrArg ('-' :: ·) same.symm

end Wireform.Decimal
