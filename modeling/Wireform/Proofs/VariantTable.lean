import Wireform.Proofs.Field
/-! Tables that grow at their end.

An entry keeps its ordinal when others are put behind it, and an ordinal that is new has no
variant in the older table. So whoever reads with the older table reads what it knows as
before, and refuses the rest: nothing is taken for another variant.
-/

set_option autoImplicit false

namespace Wireform

namespace VariantTable

variable {E : Type}

/-- The length of a table fits an ordinal, and so does every position in it. -/
def Fits (table : VariantTable E) : Prop := table.entries.length < 2 ^ 31

instance (table : VariantTable E) : Decidable table.Fits := Nat.decLt _ _

/-- The lenient and the strict reader take the same bytes and agree on them, but that for the
ordinal of no variant one has no variant and the other a fault. -/
inductive ReadersAgree (table : VariantTable E) (cursor : Cursor) : Prop where
  | cut (lenient : table.decode cursor = (.error (.truncated 4 cursor.remaining), cursor))
      (strict : table.decodeStrict cursor = (.error (.truncated 4 cursor.remaining), cursor))
  | known (variant : E) (after : Cursor) (lenient : table.decode cursor = (.ok (some variant), after))
      (strict : table.decodeStrict cursor = (.ok variant, after))
  | unknown (ordinal : Int32) (after : Cursor) (ahead : FixedWidth.encode ordinal <+: cursor.unread)
      (unlisted : table.variant? ordinal = none) (lenient : table.decode cursor = (.ok none, after))
      (strict : table.decodeStrict cursor = (.error (.unknownVariant ordinal), after))

section entries

variable {table : VariantTable E} {extension : VariantTable E} {variant : E} {ordinal : Int32}

theorem Fits.of_append (fits : (table.append extension).Fits) : table.Fits := by
  simp only [Fits, append, List.length_append] at fits ⊢
  omega

theorem mem_append_iff : variant ∈ (table.append extension).entries ↔
    variant ∈ table.entries ∨ variant ∈ extension.entries :=
  List.mem_append

theorem variant?_eq_none_iff : table.variant? ordinal = none ↔
    ordinal.toInt < 0 ∨ table.entries.length ≤ ordinal.toInt := by
  unfold variant?
  split
  · rename_i below
    simp [below]
  · rename_i nonnegative
    rw [List.getElem?_eq_none_iff]
    omega

theorem mem_of_variant? (found : table.variant? ordinal = some variant) :
    variant ∈ table.entries := by
  obtain ⟨_, _, here⟩ := variant?_eq_some_iff.mp found
  exact List.mem_of_getElem? here

theorem variant_eq_error (unknown : table.variant? ordinal = none) :
    table.variant ordinal = .error (.unknownVariant ordinal) := by
  rw [VariantTable.variant, unknown]

theorem readersAgree (table : VariantTable E) (cursor : Cursor) : table.ReadersAgree cursor := by
  rcases FixedWidth.short_or_ahead Int32 cursor with short | ⟨ordinal, rest, ahead⟩
  · have cut := FixedWidth.decode_of_short short
    exact .cut (Decoder.bind_of_error cut) (Decoder.bind_of_error cut)
  · obtain ⟨_, lenient⟩ := table.decode_reads_ordinal ordinal cursor rest ahead.symm
    obtain ⟨_, strict⟩ := table.decodeStrict_ends ordinal cursor rest ahead.symm
    cases found : table.variant? ordinal with
    | none =>
      rw [found] at lenient
      rw [variant_eq_error found] at strict
      exact .unknown ordinal _ ⟨rest, ahead⟩ found lenient strict
    | some variant =>
      rw [found] at lenient
      rw [variant_eq_ok_iff.mpr found] at strict
      exact .known variant _ lenient strict

variable [DecidableEq E]

theorem exists_ordinal? (fits : table.Fits) (listed : variant ∈ table.entries) :
    ∃ ordinal, table.ordinal? variant = some ordinal := by
  obtain ⟨index, inside, same⟩ := List.getElem_of_mem listed
  obtain ⟨first, _, found, _⟩ := exists_ordinal?_of_getElem?
    (List.getElem?_eq_some_iff.mpr ⟨inside, same⟩) (Nat.lt_trans inside fits)
  exact ⟨_, found⟩

theorem ordinal?_eq_none_iff (fits : table.Fits) :
    table.ordinal? variant = none ↔ variant ∉ table.entries := by
  constructor
  · intro unnumbered listed
    obtain ⟨ordinal, found⟩ := exists_ordinal? fits listed
    cases unnumbered.symm.trans found
  · intro unlisted
    cases found : table.ordinal? variant with
    | none => rfl
    | some ordinal => exact absurd (mem_of_variant? (variant?_of_ordinal? found)) unlisted

theorem encode_of_ordinal? (found : table.ordinal? variant = some ordinal) :
    table.encode variant = .ok (FixedWidth.encode ordinal) :=
  encode_eq_ok_iff.mpr ⟨ordinal, ordinal_eq_ok_iff.mpr found, rfl⟩

theorem encode_eq_unlisted_iff (fits : table.Fits) :
    table.encode variant = .error .unlistedVariant ↔ variant ∉ table.entries := by
  rw [← ordinal?_eq_none_iff fits]
  cases found : table.ordinal? variant with
  | some ordinal => simp [encode_of_ordinal? found]
  | none =>
    rw [encode, VariantTable.ordinal, found]
    simp [bind, Except.bind]

theorem variant?_of_added (found : (table.append extension).ordinal? variant = some ordinal)
    (added : variant ∉ table.entries) : table.variant? ordinal = none := by
  cases read : table.variant? ordinal with
  | none => rfl
  | some other =>
    have same := variant?_append extension read
    rw [variant?_of_ordinal? found] at same
    cases same
    exact absurd (mem_of_variant? read) added

theorem length_le_of_added (found : (table.append extension).ordinal? variant = some ordinal)
    (added : variant ∉ table.entries) : table.entries.length ≤ ordinal.toInt := by
  have nonnegative : ¬ ordinal.toInt < 0 := fun below => by
    have unknown : (table.append extension).variant? ordinal = none :=
      variant?_eq_none_iff.mpr (.inl below)
    cases unknown.symm.trans (variant?_of_ordinal? found)
  exact (variant?_eq_none_iff.mp (variant?_of_added found added)).resolve_left nonnegative

end entries

section lists

variable [DecidableEq E] {table extension : VariantTable E} {separator : Char}
  {list : List (Option E)} {frame : Bytes}

theorem ordinals_of_listed (fits : table.Fits)
    (listed : ∀ variant, some variant ∈ list → variant ∈ table.entries) :
    ListFrame.ordinals table list = .ok (list.map (·.bind table.ordinal?)) := by
  rw [ListFrame.ordinals_eq_mapM_attempt, mapM_attempt_eq_ok_iff]
  refine ⟨fun variant member => ?_, rfl⟩
  exact Option.isSome_iff_exists.mpr (exists_ordinal? fits (listed variant member))

theorem encodeVariants_of_listed (separator : Char) (fits : table.Fits)
    (listed : ∀ variant, some variant ∈ list → variant ∈ table.entries) :
    ListFrame.encodeVariants table list separator =
      ListFrame.encodeTyped (list.map (·.bind table.ordinal?)) separator := by
  rw [ListFrame.encodeVariants, ordinals_of_listed fits listed]
  rfl

theorem encodeVariants_eq_unlisted_iff (fits : table.Fits) :
    ListFrame.encodeVariants table list separator = .error .unlistedVariant ↔
      ∃ variant, some variant ∈ list ∧ variant ∉ table.entries := by
  simp only [← ordinal?_eq_none_iff fits]
  rw [← exists_firstRefused_iff, ListFrame.encodeVariants, Fault.bind_eq_error_iff,
    ListFrame.ordinals_eq_mapM_attempt, mapM_attempt_eq_error_iff]
  constructor
  · rintro (⟨i, variant, refused, _⟩ | ⟨numbers, _, failed⟩)
    · exact ⟨i, variant, refused⟩
    · obtain ⟨_, _, overflow⟩ := ListFrame.encode_only _ _ _ failed
      cases overflow
  · rintro ⟨i, variant, refused⟩
    exact .inl ⟨i, variant, refused, rfl⟩

theorem encodeVariants_append (separator : Char) (fits : (table.append extension).Fits)
    (listed : ∀ variant, some variant ∈ list → variant ∈ table.entries) :
    ListFrame.encodeVariants (table.append extension) list separator =
      ListFrame.encodeVariants table list separator := by
  have listed' : ∀ variant, some variant ∈ list → variant ∈ (table.append extension).entries :=
    fun variant member => mem_append_iff.mpr (.inl (listed variant member))
  rw [encodeVariants_of_listed separator fits listed',
    encodeVariants_of_listed separator fits.of_append listed]
  -- The two lists of ordinals are the same element by element.
  congr 1
  refine List.map_congr_left fun element member => ?_
  cases element with
  | none => rfl
  | some variant =>
    obtain ⟨ordinal, found⟩ := exists_ordinal? fits.of_append (listed variant member)
    exact (ordinal?_append extension found).trans found.symm

/-- Under the shorter table a list is refused for its first variant that only the longer one
has, by the ordinal that was written for it. -/
theorem variants_of_added {numbers : List (Option Int32)} {i : Nat} {variant : E}
    (fits : (table.append extension).Fits)
    (numbered : ListFrame.ordinals (table.append extension) list = .ok numbers)
    (first : FirstRefused table.ordinal? list i variant) :
    ∃ ordinal, (table.append extension).ordinal? variant = some ordinal ∧
      ListFrame.variants table numbers = .error (.unknownVariant ordinal) := by
  rw [ListFrame.ordinals_eq_mapM_attempt, mapM_attempt_eq_ok_iff] at numbered
  obtain ⟨all, rfl⟩ := numbered
  have added : variant ∉ table.entries := (ordinal?_eq_none_iff fits.of_append).mp first.refused
  obtain ⟨ordinal, found⟩ := Option.isSome_iff_exists.mp
    (all variant (List.mem_of_getElem? first.here))
  have unknown : table.variant? ordinal = none := variant?_of_added found added
  refine ⟨ordinal, found, ?_⟩
  rw [ListFrame.variants_eq_mapM_attempt, mapM_attempt_eq_error_iff]
  refine ⟨i, ordinal, first.map_bind found unknown ?_, rfl⟩
  intro other number known written
  obtain ⟨ordinal', found'⟩ := Option.isSome_iff_exists.mp known
  cases written.symm.trans (ordinal?_append extension found')
  exact Option.isSome_iff_exists.mpr ⟨other, variant?_of_ordinal? found'⟩

end lists

variable [DecidableEq E]

/-- A table by itself: which variants it refuses to write and how it writes the others, what its
ordinals stand for, and how its two readers differ. -/
structure Orderly (table : VariantTable E) (separator : Char) : Prop where
  refuses_iff : ∀ variant, table.encode variant = .error .unlistedVariant ↔ variant ∉ table.entries
  refusesList_iff : ∀ list, ListFrame.encodeVariants table list separator = .error .unlistedVariant ↔
    ∃ variant, some variant ∈ list ∧ variant ∉ table.entries
  /-- A list of entries is written as that of their ordinals, unless it is too long for a frame. -/
  writesList : ∀ list, (∀ variant, some variant ∈ list → variant ∈ table.entries) →
    ListFrame.encodeVariants table list separator =
        ListFrame.encodeTyped (list.map (·.bind table.ordinal?)) separator ∧
      ∀ fault, ListFrame.encodeVariants table list separator = .error fault →
        ∃ n, 2 ^ 31 ≤ n ∧ fault = .lengthOverflow n
  /-- Of equal entries the first one counts. -/
  first : ∀ (index : Nat) (inside : index < table.entries.length),
    table.variant? (Int32.ofNat index) = some table.entries[index] ∧
      ∃ first ≤ index, table.ordinal table.entries[index] = .ok (Int32.ofNat first) ∧
        table.entries[first]? = some table.entries[index] ∧
        ∀ earlier < first, table.entries[earlier]? ≠ some table.entries[index]
  beyond : ∀ ordinal, table.variant? ordinal = none ↔
    ordinal.toInt < 0 ∨ table.entries.length ≤ ordinal.toInt
  readers : ∀ cursor, table.ReadersAgree cursor

theorem orderly {table : VariantTable E} (fits : table.Fits) (separator : Char) :
    table.Orderly separator where
  refuses_iff _ := encode_eq_unlisted_iff fits
  refusesList_iff _ := encodeVariants_eq_unlisted_iff fits
  writesList list listed := by
    have written := encodeVariants_of_listed separator fits listed
    refine ⟨written, fun fault failed => ?_⟩
    exact ListFrame.encode_only _ separator fault (written.symm.trans failed)
  first index inside := by
    have here := List.getElem?_eq_getElem inside
    have small := Nat.lt_trans inside fits
    obtain ⟨first, le, found, same, before⟩ := exists_ordinal?_of_getElem? here small
    exact ⟨(variant?_ofNat small).trans here, first, le, ordinal_eq_ok_iff.mpr found, same, before⟩
  beyond _ := variant?_eq_none_iff
  readers := table.readersAgree

/-- What the entries of a table and those that are put behind them come to, for writers and
readers of either version. -/
structure Compatible (table extension : VariantTable E) (separator : Char) : Prop where
  /-- An entry has one ordinal in both versions, and either reads what the other writes. -/
  kept : ∀ variant ∈ table.entries, ∃ ordinal, ∀ version ∈ [table, table.append extension],
    version.ordinal variant = .ok ordinal ∧
      version.encode variant = .ok (FixedWidth.encode ordinal) ∧
      Decoder.Reads version.decode (FixedWidth.encode ordinal) (some variant) ∧
      Decoder.Reads version.decodeStrict (FixedWidth.encode ordinal) variant
  keptLists : ∀ list, (∀ variant, some variant ∈ list → variant ∈ table.entries) →
    ListFrame.encodeVariants (table.append extension) list separator =
        ListFrame.encodeVariants table list separator ∧
      ∀ frame, ListFrame.encodeVariants table list separator = .ok frame →
        ∀ version ∈ [table, table.append extension],
          Decoder.Reads (ListFrame.decodeVariants version separator) frame list
  /-- A variant that only the longer table has is known to be unknown to the shorter one. -/
  added : ∀ variant ∈ extension.entries, variant ∉ table.entries → ∃ ordinal : Int32,
    (table.append extension).ordinal variant = .ok ordinal ∧
      table.entries.length ≤ ordinal.toInt ∧
      (table.append extension).encode variant = .ok (FixedWidth.encode ordinal) ∧
      Decoder.Reads table.decode (FixedWidth.encode ordinal) none ∧
      Decoder.Ends table.decodeStrict (FixedWidth.encode ordinal) (.error (.unknownVariant ordinal))
  /-- A list is refused by its first such variant. -/
  addedLists : ∀ list frame,
    ListFrame.encodeVariants (table.append extension) list separator = .ok frame →
      (∃ variant, some variant ∈ list ∧ variant ∉ table.entries) →
        ∃ i variant ordinal, FirstRefused table.ordinal? list i variant ∧
          variant ∈ extension.entries ∧ (table.append extension).ordinal variant = .ok ordinal ∧
          Decoder.Ends (ListFrame.decodeVariants table separator) frame
            (.error (.unknownVariant ordinal))

/-- A table may grow at its end. Its entries keep their ordinals, so that what is written for them
under one version is read under the other; what is written for an entry that is new has an ordinal
that the older version refuses, alone and in lists, so it is never read as another variant; and
what neither version lists is not written. -/
theorem append_compatible (table extension : VariantTable E) (separator : Char)
    (fits : (table.append extension).Fits) (clear : separator.isDigit = false ∧ separator ≠ '-') :
    table.Orderly separator ∧ (table.append extension).Orderly separator ∧
      Compatible table extension separator := by
  have unambiguous := ListFrame.clear_iff.mpr clear
  refine ⟨orderly fits.of_append separator, orderly fits separator, ?_⟩
  constructor
  case kept =>
    intro variant listed
    obtain ⟨ordinal, found⟩ := exists_ordinal? fits.of_append listed
    have both : ∀ version ∈ [table, table.append extension],
        version.ordinal? variant = some ordinal :=
      List.forall_mem_cons.mpr
        ⟨found, List.forall_mem_singleton.mpr (ordinal?_append extension found)⟩
    refine ⟨ordinal, fun version member => ?_⟩
    have encoded := encode_of_ordinal? (both version member)
    exact ⟨ordinal_eq_ok_iff.mpr (both version member), encoded, decode_reads encoded,
      decodeStrict_reads encoded⟩
  case keptLists =>
    intro list listed
    have same := encodeVariants_append separator fits listed
    refine ⟨same, fun frame encoded => List.forall_mem_cons.mpr
      ⟨?_, List.forall_mem_singleton.mpr ?_⟩⟩
    · exact ListFrame.decodeVariants_reads unambiguous encoded
    · exact ListFrame.decodeVariants_reads unambiguous (same.trans encoded)
  case added =>
    intro variant listed added
    obtain ⟨ordinal, found⟩ := exists_ordinal? fits (mem_append_iff.mpr (.inr listed))
    have unknown := variant?_of_added found added
    refine ⟨ordinal, ordinal_eq_ok_iff.mpr found, length_le_of_added found added,
      encode_of_ordinal? found, ?_, ?_⟩
    · rw [← unknown]
      exact table.decode_reads_ordinal ordinal
    · rw [← variant_eq_error unknown]
      exact table.decodeStrict_ends ordinal
  case addedLists =>
    rintro list frame encoded ⟨other, member, new⟩
    obtain ⟨numbers, numbered, ends⟩ :=
      ListFrame.decodeVariants_ends table unambiguous encoded
    obtain ⟨i, variant, first⟩ := exists_firstRefused_iff.mpr
      ⟨other, member, (ordinal?_eq_none_iff fits.of_append).mpr new⟩
    obtain ⟨ordinal, found, refused⟩ := variants_of_added fits numbered first
    rw [refused] at ends
    have listed := mem_append_iff.mp (mem_of_variant? (variant?_of_ordinal? found))
    have outside := (ordinal?_eq_none_iff fits.of_append).mp first.refused
    exact ⟨i, variant, ordinal, first, listed.resolve_left outside, ordinal_eq_ok_iff.mpr found, ends⟩

theorem append_compatible_duplicates :
    (∀ version ∈ [⟨["a", "b", "a"]⟩, append ⟨["a", "b", "a"]⟩ ⟨["b", "c", "d"]⟩],
      ListFrame.encodeVariants version [some "b", none, some "a"] '|' =
        .ok [0, 0, 0, 11, 51, 124, 49, 124, 49, 45, 49, 124, 49, 124, 48]) ∧
    ListFrame.encodeVariants (append ⟨["a", "b", "a"]⟩ ⟨["b", "c", "d"]⟩)
        [none, some "b", some "d", some "c"] '|' =
      .ok [0, 0, 0, 14, 52, 124, 45, 49, 124, 49, 124, 49, 49, 124, 53, 49, 124, 52] ∧
    (ListFrame.decodeVariants (⟨["a", "b", "a"]⟩ : VariantTable String) '|').outcome
        (Cursor.ofBytes [0, 0, 0, 14, 52, 124, 45, 49, 124, 49, 124, 49, 49, 124, 53, 49, 124, 52]) =
      .error (.unknownVariant 5) := by
  obtain ⟨older, newer, compatible⟩ :=
    append_compatible ⟨["a", "b", "a"]⟩ ⟨["b", "c", "d"]⟩ '|' (by decide) (by decide)
  have encoded : ListFrame.encodeVariants (append ⟨["a", "b", "a"]⟩ ⟨["b", "c", "d"]⟩)
      [none, some "b", some "d", some "c"] '|' =
        .ok [0, 0, 0, 14, 52, 124, 45, 49, 124, 49, 124, 49, 49, 124, 53, 49, 124, 52] :=
    (newer.writesList _ (by simp [append])).1
  refine ⟨List.forall_mem_cons.mpr ⟨?_, List.forall_mem_singleton.mpr ?_⟩, encoded, ?_⟩
  · exact (older.writesList _ (by simp)).1
  · exact (newer.writesList _ (by simp [append])).1
  · obtain ⟨i, variant, ordinal, first, _, found, ends⟩ :=
      compatible.addedLists _ _ encoded ⟨"c", by decide, by decide⟩
    obtain ⟨_, run⟩ := ends (Cursor.ofBytes _) [] (List.append_nil _).symm
    rw [Decoder.outcome, run]
    rcases i with _ | _ | _ | i
    · cases first.here
    · cases first.here
      exact absurd first.refused (by decide)
    · cases first.here
      cases found
      rfl
    · exact absurd (first.before 2 (by omega) "d" rfl) (by decide)

end VariantTable

end Wireform
