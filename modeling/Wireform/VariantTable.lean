import Wireform.FixedWidth
/-! Enumerations by position in a fixed table.

The ordinal of a variant is its first position, so a table may only grow at its
end. An ordinal is written as a four-byte integer.
-/

set_option autoImplicit false

namespace Wireform

structure VariantTable (E : Type) where
  entries : List E
  deriving DecidableEq, Repr

namespace VariantTable

variable {E : Type}

/-- The first position of a variant, where it fits an ordinal. -/
def ordinal? [DecidableEq E] (table : VariantTable E) (variant : E) : Option Int32 := do
  let index ← table.entries.idxOf? variant
  if index < 2 ^ 31 then some (Int32.ofNat index) else none

def variant? (table : VariantTable E) (ordinal : Int32) : Option E :=
  if ordinal.toInt < 0 then none else table.entries[ordinal.toInt.toNat]?

def append (table extension : VariantTable E) : VariantTable E :=
  ⟨table.entries ++ extension.entries⟩

def ordinal [DecidableEq E] (table : VariantTable E) (variant : E) : Except Fault Int32 :=
  match table.ordinal? variant with
  | some ordinal => .ok ordinal
  | none => .error .unlistedVariant

def variant (table : VariantTable E) (ordinal : Int32) : Except Fault E :=
  match table.variant? ordinal with
  | some variant => .ok variant
  | none => .error (.unknownVariant ordinal)

def encode [DecidableEq E] (table : VariantTable E) (variant : E) : Except Fault Bytes := do
  let ordinal ← table.ordinal variant
  return FixedWidth.encode ordinal

def decode (table : VariantTable E) : Decoder (Option E) := do
  let ordinal ← FixedWidth.decode
  return table.variant? ordinal

-- Here an ordinal without a variant is a fault; above it reads as none.
def decodeStrict (table : VariantTable E) : Decoder E := do
  let ordinal ← FixedWidth.decode
  Decoder.ofExcept (table.variant ordinal)

variable {table : VariantTable E} {variant : E} {ordinal : Int32}

/-- A variant has an ordinal just where it has a first position that fits one. -/
theorem ordinal?_eq_some_iff [DecidableEq E] : table.ordinal? variant = some ordinal ↔
    ∃ index, table.entries.idxOf? variant = some index ∧ index < 2 ^ 31 ∧
      ordinal = Int32.ofNat index := by
  unfold ordinal?
  cases table.entries.idxOf? variant with
  | none => simp
  | some index =>
    show (if index < 2 ^ 31 then some (Int32.ofNat index) else none) = some ordinal ↔ _
    constructor
    · intro found
      split at found
      · rename_i small
        exact ⟨index, rfl, small, (Option.some.inj found).symm⟩
      · cases found
    · rintro ⟨_, same, small, rfl⟩
      cases same
      rw [if_pos small]

theorem variant?_eq_some_iff : table.variant? ordinal = some variant ↔
    ∃ index : Nat, ordinal.toInt = index ∧ table.entries[index]? = some variant := by
  unfold variant?
  constructor
  · intro found
    split at found
    · cases found
    · rename_i nonnegative
      exact ⟨ordinal.toInt.toNat, by omega, found⟩
  · rintro ⟨index, same, here⟩
    rw [same, if_neg (by omega), Int.toNat_natCast, here]

theorem variant?_ofNat {index : Nat} (small : index < 2 ^ 31) :
    table.variant? (Int32.ofNat index) = table.entries[index]? := by
  have same := Int32.toInt_ofNat_of_lt small
  rw [variant?, if_neg (by omega), same, Int.toNat_natCast]

theorem variant?_of_ordinal? [DecidableEq E] (found : table.ordinal? variant = some ordinal) :
    table.variant? ordinal = some variant := by
  obtain ⟨index, first, small, rfl⟩ := ordinal?_eq_some_iff.mp found
  obtain ⟨inside, same, _⟩ := List.idxOf?_eq_some_iff.mp first
  rw [variant?_ofNat small, List.getElem?_eq_getElem inside, same]

/-- An entry has the ordinal of the first one that is equal to it. -/
theorem exists_ordinal?_of_getElem? [DecidableEq E] {index : Nat}
    (here : table.entries[index]? = some variant) (small : index < 2 ^ 31) :
    ∃ first ≤ index, table.ordinal? variant = some (Int32.ofNat first) ∧
      table.entries[first]? = some variant ∧
      ∀ earlier < first, table.entries[earlier]? ≠ some variant := by
  obtain ⟨inside, rfl⟩ := List.getElem?_eq_some_iff.mp here
  obtain ⟨first, found⟩ := Option.isSome_iff_exists.mp
    (List.isSome_idxOf?.mpr (List.getElem_mem inside))
  obtain ⟨inside', same, before⟩ := List.idxOf?_eq_some_iff.mp found
  have le : first ≤ index := Nat.not_lt.mp fun later => before index later rfl
  refine ⟨first, le, ordinal?_eq_some_iff.mpr ⟨first, found, Nat.lt_of_le_of_lt le small, rfl⟩,
    List.getElem?_eq_some_iff.mpr ⟨inside', same⟩, fun earlier less equal => ?_⟩
  obtain ⟨_, equal⟩ := List.getElem?_eq_some_iff.mp equal
  exact before earlier less equal

theorem ordinal_eq_ok_iff [DecidableEq E] :
    table.ordinal variant = .ok ordinal ↔ table.ordinal? variant = some ordinal := by
  unfold VariantTable.ordinal
  cases table.ordinal? variant <;> simp

theorem variant_eq_ok_iff : table.variant ordinal = .ok variant ↔
    table.variant? ordinal = some variant := by
  unfold VariantTable.variant
  cases table.variant? ordinal <;> simp

theorem variant_of_ordinal [DecidableEq E] (found : table.ordinal variant = .ok ordinal) :
    table.variant ordinal = .ok variant :=
  variant_eq_ok_iff.mpr (variant?_of_ordinal? (ordinal_eq_ok_iff.mp found))

theorem ordinal?_append [DecidableEq E] (extension : VariantTable E)
    (found : table.ordinal? variant = some ordinal) :
    (table.append extension).ordinal? variant = some ordinal := by
  obtain ⟨index, first, small, rfl⟩ := ordinal?_eq_some_iff.mp found
  refine ordinal?_eq_some_iff.mpr ⟨index, ?_, small, rfl⟩
  rw [append, List.idxOf?, List.findIdx?_append]
  rw [List.idxOf?] at first
  rw [first]
  rfl

theorem variant?_append (extension : VariantTable E) (found : table.variant? ordinal = some variant) :
    (table.append extension).variant? ordinal = some variant := by
  obtain ⟨index, same, here⟩ := variant?_eq_some_iff.mp found
  obtain ⟨inside, _⟩ := List.getElem?_eq_some_iff.mp here
  exact variant?_eq_some_iff.mpr ⟨index, same, (List.getElem?_append_left inside).trans here⟩

end VariantTable

end Wireform
