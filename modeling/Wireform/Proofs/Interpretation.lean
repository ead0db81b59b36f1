import Mathlib.Data.List.Forall2
import Wireform.ListFrame
import Wireform.Proofs.ListText.FirstFault
/-! What is made of the elements of a list.

A list is cut up as a whole before anything is made of its elements, and these are taken in
order. So a list of values or of variants fails wherever the list of texts or of ordinals
under it does, and else at its first element from which nothing can be made.
-/

set_option autoImplicit false

namespace Wireform

theorem Fault.mapM_eq_ok_iff {α : Type*} {β : Type} {f : α → Except Fault β} {list : List α}
    {results : List β} :
    list.mapM f = .ok results ↔ List.Forall₂ (fun a b => f a = .ok b) list results := by
  induction list generalizing results with
  | nil =>
    rw [List.mapM_nil, pure_eq_ok_iff, List.forall₂_nil_left_iff]
    exact eq_comm
  | cons a rest ih =>
    simp only [List.mapM_cons, bind_eq_ok_iff, pure_eq_ok_iff, ih, List.forall₂_cons_left_iff]
    constructor
    · rintro ⟨b, here, others, later, rfl⟩
      exact ⟨b, others, here, later, rfl⟩
    · rintro ⟨b, others, here, later, rfl⟩
      exact ⟨b, here, others, later, rfl⟩

section attempt

variable {α β γ : Type}

/-- The first element of a list from which nothing can be made. -/
structure FirstRefused (make : α → Option β) (list : List (Option α)) (i : Nat) (a : α) : Prop where
  here : list[i]? = some (some a)
  refused : make a = none
  before : ∀ j < i, ∀ b, list[j]? = some (some b) → (make b).isSome

variable {make : α → Option β} {list : List (Option α)} {i : Nat} {a : α}

theorem firstRefused_cons_zero {element : Option α} :
    FirstRefused make (element :: list) 0 a ↔ element = some a ∧ make a = none := by
  constructor
  · rintro ⟨here, refused, _⟩
    exact ⟨Option.some.inj here, refused⟩
  · rintro ⟨rfl, refused⟩
    exact ⟨rfl, refused, fun j before => absurd before (Nat.not_lt_zero j)⟩

theorem firstRefused_cons_succ {element : Option α} :
    FirstRefused make (element :: list) (i + 1) a ↔
      (∀ b, element = some b → (make b).isSome) ∧ FirstRefused make list i a := by
  constructor
  · rintro ⟨here, refused, before⟩
    refine ⟨fun b same => before 0 (Nat.succ_pos i) b (congrArg some same), here, refused, ?_⟩
    exact fun j inside => before (j + 1) (Nat.succ_lt_succ inside)
  · rintro ⟨first, here, refused, before⟩
    refine ⟨here, refused, fun j inside b found => ?_⟩
    cases j with
    | zero => exact first b (Option.some.inj found)
    | succ j => exact before j (Nat.lt_of_succ_lt_succ inside) b found

theorem firstRefused_map {make : γ → Option β} {f : α → γ} {c : γ} :
    FirstRefused make (list.map (·.map f)) i c ↔ ∃ a, FirstRefused (make ∘ f) list i a ∧ f a = c := by
  have found {j : Nat} {c : γ} : (list.map (·.map f))[j]? = some (some c) ↔
      ∃ a, list[j]? = some (some a) ∧ f a = c := by
    rw [List.getElem?_map, Option.map_eq_some_iff]
    constructor
    · rintro ⟨element, there, same⟩
      obtain ⟨a, rfl, value⟩ := Option.map_eq_some_iff.mp same
      exact ⟨a, there, value⟩
    · rintro ⟨a, there, rfl⟩
      exact ⟨some a, there, rfl⟩
  constructor
  · rintro ⟨here, refused, before⟩
    obtain ⟨a, there, rfl⟩ := found.mp here
    refine ⟨a, ⟨there, refused, fun j inside b there => ?_⟩, rfl⟩
    exact before j inside _ (found.mpr ⟨b, there, rfl⟩)
  · rintro ⟨a, ⟨here, refused, before⟩, rfl⟩
    refine ⟨found.mpr ⟨a, here, rfl⟩, refused, fun j inside c there => ?_⟩
    obtain ⟨b, there', rfl⟩ := found.mp there
    exact before j inside b there'

theorem exists_firstRefused_iff :
    (∃ i a, FirstRefused make list i a) ↔ ∃ a, some a ∈ list ∧ make a = none := by
  constructor
  · rintro ⟨i, a, refused⟩
    exact ⟨a, List.mem_of_getElem? refused.here, refused.refused⟩
  · rintro ⟨a, member, refused⟩
    induction list with
    | nil => cases member
    | cons element rest ih =>
      by_cases first : ∃ b, element = some b ∧ make b = none
      · obtain ⟨b, rfl, refused⟩ := first
        exact ⟨0, b, firstRefused_cons_zero.mpr ⟨rfl, refused⟩⟩
      · have later : some a ∈ rest := by
          rcases List.mem_cons.mp member with same | later
          · exact absurd ⟨a, same.symm, refused⟩ first
          · exact later
        obtain ⟨i, b, found⟩ := ih later
        refine ⟨i + 1, b, firstRefused_cons_succ.mpr ⟨fun d same => ?_, found⟩⟩
        exact Option.isSome_iff_ne_none.mpr fun refused => first ⟨d, same, refused⟩

/-- The first refused element keeps its place where another list is made first, if nothing is
made from what is made of it, and something from all that is made of the others. -/
theorem FirstRefused.map_bind {δ : Type} {first : α → Option γ} {next : γ → Option δ} {c : γ}
    (refused : FirstRefused make list i a) (made : first a = some c) (stops : next c = none)
    (passes : ∀ b d, (make b).isSome → first b = some d → (next d).isSome) :
    FirstRefused next (list.map (·.bind first)) i c where
  here := by
    rw [List.getElem?_map, refused.here]
    exact congrArg some made
  refused := stops
  before j inside d found := by
    rw [List.getElem?_map, Option.map_eq_some_iff] at found
    obtain ⟨element, there, same⟩ := found
    obtain ⟨b, rfl, made⟩ := Option.bind_eq_some_iff.mp same
    exact passes b d (refused.before j inside b there) made

/-- What is made of an element, which may be absent, or the fault where nothing is. -/
def attempt (make : α → Option β) (refuse : α → Fault) : Option α → Except Fault (Option β)
  | none => .ok none
  | some a =>
      match make a with
      | some b => .ok (some b)
      | none => .error (refuse a)

variable {refuse : α → Fault} {values : List (Option β)} {fault : Fault}

theorem attempt_eq_ok_iff {element : Option α} {value : Option β} :
    attempt make refuse element = .ok value ↔
      (∀ a, element = some a → (make a).isSome) ∧ value = element.bind make := by
  cases element with
  | none =>
    rw [attempt, Except.ok.injEq, eq_comm]
    simp
  | some a =>
    rw [attempt]
    cases made : make a with
    | none => simp [made]
    | some b =>
      rw [Except.ok.injEq, eq_comm]
      simp [made]

theorem attempt_eq_error_iff {element : Option α} :
    attempt make refuse element = .error fault ↔
      ∃ a, element = some a ∧ make a = none ∧ fault = refuse a := by
  cases element with
  | none => simp [attempt]
  | some a =>
    rw [attempt]
    cases made : make a with
    | none =>
      rw [Except.error.injEq, eq_comm]
      simp [made]
    | some b => simp [made]

theorem mapM_attempt_eq_ok_iff : list.mapM (attempt make refuse) = .ok values ↔
    (∀ a, some a ∈ list → (make a).isSome) ∧ values = list.map (·.bind make) := by
  induction list generalizing values with
  | nil =>
    rw [List.mapM_nil, Fault.pure_eq_ok_iff, eq_comm]
    simp
  | cons element rest ih =>
    simp only [List.mapM_cons, Fault.bind_eq_ok_iff, Fault.pure_eq_ok_iff, attempt_eq_ok_iff, ih,
      List.mem_cons, List.map_cons]
    constructor
    · rintro ⟨_, ⟨first, rfl⟩, _, ⟨others, rfl⟩, rfl⟩
      refine ⟨fun a member => ?_, rfl⟩
      rcases member with same | member
      · exact first a same.symm
      · exact others a member
    · rintro ⟨all, rfl⟩
      exact ⟨_, ⟨fun a same => all a (.inl same.symm), rfl⟩, _,
        ⟨fun a member => all a (.inr member), rfl⟩, rfl⟩

theorem mapM_attempt_eq_error_iff : list.mapM (attempt make refuse) = .error fault ↔
    ∃ i a, FirstRefused make list i a ∧ fault = refuse a := by
  induction list with
  | nil =>
    simp only [List.mapM_nil]
    constructor
    · intro failed
      cases failed
    · rintro ⟨_, _, ⟨here, _, _⟩, _⟩
      cases here
  | cons element rest ih =>
    simp only [List.mapM_cons, Fault.bind_eq_error_iff, attempt_eq_error_iff, attempt_eq_ok_iff, ih]
    -- The first element is refused, or it is not and one of the others is.
    constructor
    · rintro (⟨a, rfl, refused, rfl⟩ | ⟨_, ⟨first, rfl⟩, ⟨i, a, later, rfl⟩ | ⟨_, _, done⟩⟩)
      · exact ⟨0, a, firstRefused_cons_zero.mpr ⟨rfl, refused⟩, rfl⟩
      · exact ⟨i + 1, a, firstRefused_cons_succ.mpr ⟨first, later⟩, rfl⟩
      · cases done
    · rintro ⟨i, a, refused, rfl⟩
      cases i with
      | zero =>
        obtain ⟨rfl, nothing⟩ := firstRefused_cons_zero.mp refused
        exact .inl ⟨a, rfl, nothing, rfl⟩
      | succ i =>
        obtain ⟨first, later⟩ := firstRefused_cons_succ.mp refused
        exact .inr ⟨_, ⟨first, rfl⟩, .inl ⟨i, a, later, rfl⟩⟩

end attempt

namespace ListText

/-- The offset of the length of an element: all bytes in front of it. -/
def Spelling.lengthOffset (pre post : List Char) (spelling : Spelling) (i : Nat) : Nat :=
  utf8Size (Spelling.text pre post { spelling with pieces := spelling.pieces.take i })

theorem Spelling.getElem?_located (pre post : List Char) (spelling : Spelling) (i : Nat) :
    (spelling.located pre post)[i]? =
      spelling.pieces[i]?.map (Piece.locate (spelling.lengthOffset pre post i)) := by
  rw [located, Piece.getElem?_locateAll, ← utf8Size_append]
  rfl

theorem Spelling.offset_located {pre post : List Char} {spelling : Spelling} {i : Nat}
    {item : Located}
    (found : (spelling.located pre post)[i]? = some (some item)) :
    item.offset = spelling.lengthOffset pre post i := by
  rw [getElem?_located] at found
  obtain ⟨piece, _, same⟩ := Option.map_eq_some_iff.mp found
  obtain ⟨content, _, rfl⟩ := Option.map_eq_some_iff.mp same
  rfl

variable {α : Type} [Element α] {text pre : String} {post : Option String} {fault : Fault}

theorem interpret_eq_attempt : (interpret : Option Located → Except Fault (Option α)) =
    attempt (fun item => Element.ofText? (String.ofList item.content))
      fun item => .malformedText item.offset .elementUnreadable := by
  funext item
  cases item <;> rfl

theorem map_bind_contents (items : List (Option Located)) :
    items.map (·.bind fun item => (Element.ofText? (String.ofList item.content) : Option α)) =
      (items.map (·.map fun item => String.ofList item.content)).map (·.bind Element.ofText?) := by
  rw [List.map_map]
  apply List.map_congr_left
  intro item _
  cases item <;> rfl

theorem read_eq_ok_iff {strings : List (Option String)} : read text pre post = .ok strings ↔
    ∃ items, readLocated Limits.unbounded.list pre.toList (post.getD "").toList text.toList =
        .ok items ∧ items.map (·.map fun item => String.ofList item.content) = strings := by
  simp only [read, readWithin, Fault.bind_eq_ok_iff, Fault.pure_eq_ok_iff]

theorem mapM_interpret_eq_ok_iff {items : List (Option Located)} {values : List (Option α)}
    {strings : List (Option String)}
    (contents : items.map (·.map fun item => String.ofList item.content) = strings) :
    items.mapM interpret = .ok values ↔
      (∀ string, some string ∈ strings → (Element.ofText? string : Option α).isSome) ∧
      values = strings.map (·.bind Element.ofText?) := by
  subst contents
  rw [interpret_eq_attempt, mapM_attempt_eq_ok_iff, map_bind_contents]
  refine and_congr_left fun _ => ⟨fun all string member => ?_, fun all item member => ?_⟩
  · obtain ⟨element, inside, present⟩ := List.mem_map.mp member
    obtain ⟨item, rfl, rfl⟩ := Option.map_eq_some_iff.mp present
    exact all item inside
  · exact all _ (List.mem_map.mpr ⟨some item, member, rfl⟩)

theorem readTyped_eq_ok_iff {values : List (Option α)} : readTyped text pre post = .ok values ↔
    ∃ strings, read text pre post = .ok strings ∧
      (∀ string, some string ∈ strings → (Element.ofText? string : Option α).isSome) ∧
      values = strings.map (·.bind Element.ofText?) := by
  simp only [readTyped, readTypedWithin, Fault.bind_eq_ok_iff, read_eq_ok_iff]
  constructor
  · rintro ⟨items, located, read⟩
    exact ⟨_, ⟨items, located, rfl⟩, (mapM_interpret_eq_ok_iff rfl).mp read⟩
  · rintro ⟨_, ⟨items, located, contents⟩, read⟩
    exact ⟨items, located, (mapM_interpret_eq_ok_iff contents).mpr read⟩

theorem readTyped_eq_error_iff :
    (readTyped text pre post : Except Fault (List (Option α))) = .error fault ↔
      read text pre post = .error fault ∨
      ∃ (spelling : Spelling) (i : Nat) (string : String),
        spelling.WellFormed pre.toList ∧
        spelling.text pre.toList (post.getD "").toList = text.toList ∧
        read text pre post = .ok spelling.list ∧
        FirstRefused (Element.ofText? : String → Option α) spelling.list i string ∧
        fault = .malformedText (spelling.lengthOffset pre.toList (post.getD "").toList i)
          .elementUnreadable := by
  simp only [readTyped, readTypedWithin, Fault.bind_eq_error_iff, interpret_eq_attempt,
    mapM_attempt_eq_error_iff, read_eq_error_iff]
  apply or_congr_right
  constructor
  · rintro ⟨items, located, i, item, refused, rfl⟩
    obtain ⟨spelling, wellFormed, _, whole, rfl⟩ := readLocated_eq_ok_iff.mp located
    have contents := spelling.list_located pre.toList (post.getD "").toList
    refine ⟨spelling, i, String.ofList item.content, wellFormed, whole,
      read_eq_ok_iff.mpr ⟨_, located, contents⟩, ?_, ?_⟩
    · rw [← contents]
      exact firstRefused_map.mpr ⟨item, refused, rfl⟩
    · rw [Spelling.offset_located refused.here]
  · rintro ⟨spelling, i, string, wellFormed, whole, _, refused, rfl⟩
    rw [← spelling.list_located pre.toList (post.getD "").toList] at refused
    obtain ⟨item, first, rfl⟩ := firstRefused_map.mp refused
    refine ⟨_, readLocated_eq_ok_iff.mpr
      ⟨spelling, wellFormed, wellFormed.count.le_unbounded, whole, rfl⟩, i, item, first, ?_⟩
    rw [Spelling.offset_located first.here]

end ListText

namespace Decoder

variable {α β : Type} {first : Decoder α} {f : α → Except Fault β} {cursor after : Cursor}

theorem bind_ofExcept_eq_ok_iff {b : β} :
    (first >>= fun a => ofExcept (f a)) cursor = (.ok b, after) ↔
      ∃ a, first cursor = (.ok a, after) ∧ f a = .ok b := by
  rw [bind_apply]
  cases first cursor with
  | mk result final =>
    cases result with
    | error fault => simp
    | ok a => simp [and_assoc, and_comm]

theorem bind_ofExcept_eq_error_iff {fault : Fault} :
    (first >>= fun a => ofExcept (f a)) cursor = (.error fault, after) ↔
      first cursor = (.error fault, after) ∨
        ∃ a, first cursor = (.ok a, after) ∧ f a = .error fault := by
  rw [bind_apply]
  cases first cursor with
  | mk result final =>
    cases result with
    | error fault => simp
    | ok a => simp [and_assoc, and_comm]

end Decoder

namespace ListFrame

variable {E : Type} {table : VariantTable E} {separator : Char} {cursor after : Cursor}

theorem variants_eq_mapM_attempt (table : VariantTable E) (ordinals : List (Option Int32)) :
    variants table ordinals = ordinals.mapM (attempt table.variant? .unknownVariant) := by
  unfold variants
  congr 1
  funext element
  cases element with
  | none => rfl
  | some ordinal =>
    simp only [attempt, VariantTable.variant]
    cases table.variant? ordinal <;> rfl

theorem ordinals_eq_mapM_attempt [DecidableEq E] (table : VariantTable E) (list : List (Option E)) :
    ordinals table list = list.mapM (attempt table.ordinal? fun _ => .unlistedVariant) := by
  unfold ordinals
  congr 1
  funext element
  cases element with
  | none => rfl
  | some variant =>
    simp only [attempt, VariantTable.ordinal]
    cases table.ordinal? variant <;> rfl

theorem decodeVariants_eq_ok_iff {list : List (Option E)} :
    decodeVariants table separator cursor = (.ok list, after) ↔
      ∃ ordinals : List (Option Int32), decodeTyped separator cursor = (.ok ordinals, after) ∧
        (∀ ordinal, some ordinal ∈ ordinals → (table.variant? ordinal).isSome) ∧
        list = ordinals.map (·.bind table.variant?) := by
  rw [decodeVariants, decodeVariantsWithin, Decoder.bind_ofExcept_eq_ok_iff]
  simp only [variants_eq_mapM_attempt, mapM_attempt_eq_ok_iff]
  rfl

theorem decodeVariants_eq_error_iff {fault : Fault} :
    decodeVariants table separator cursor = (.error fault, after) ↔
      (decodeTyped separator : Decoder (List (Option Int32))) cursor = (.error fault, after) ∨
      ∃ (ordinals : List (Option Int32)) (i : Nat) (ordinal : Int32),
        decodeTyped separator cursor = (.ok ordinals, after) ∧
        FirstRefused table.variant? ordinals i ordinal ∧ fault = .unknownVariant ordinal := by
  rw [decodeVariants, decodeVariantsWithin, Decoder.bind_ofExcept_eq_error_iff]
  simp only [variants_eq_mapM_attempt, mapM_attempt_eq_error_iff, exists_and_left]
  rfl

/-- Lists of values and of variants are the lists of texts and of ordinals under them, with a
value or a variant made of each element that is there. They fail as those do, wherever that
is, and else at the first element from which nothing is made: a value at the offset of its
length, a variant by its ordinal. The variant of an ordinal is the entry at its position. -/
theorem made_in_order :
    (∀ {α : Type} [Element α] (text pre : String) (post : Option String),
      (∀ values : List (Option α), ListText.readTyped text pre post = .ok values ↔
        ∃ strings, ListText.read text pre post = .ok strings ∧
          (∀ string, some string ∈ strings → (Element.ofText? string : Option α).isSome) ∧
          values = strings.map (·.bind Element.ofText?)) ∧
      ∀ fault, (ListText.readTyped text pre post : Except Fault (List (Option α))) = .error fault ↔
        ListText.read text pre post = .error fault ∨
        ∃ (spelling : ListText.Spelling) (i : Nat) (string : String),
          spelling.WellFormed pre.toList ∧
          spelling.text pre.toList (post.getD "").toList = text.toList ∧
          ListText.read text pre post = .ok spelling.list ∧
          FirstRefused (Element.ofText? : String → Option α) spelling.list i string ∧
          fault = .malformedText (spelling.lengthOffset pre.toList (post.getD "").toList i)
            .elementUnreadable) ∧
    ∀ {E : Type} (table : VariantTable E),
      (∀ ordinal variant, table.variant? ordinal = some variant ↔
        ∃ index : Nat, ordinal.toInt = index ∧ table.entries[index]? = some variant) ∧
      ∀ (separator : Char) (cursor after : Cursor),
        (∀ list, decodeVariants table separator cursor = (.ok list, after) ↔
          ∃ ordinals : List (Option Int32), decodeTyped separator cursor = (.ok ordinals, after) ∧
            (∀ ordinal, some ordinal ∈ ordinals → (table.variant? ordinal).isSome) ∧
            list = ordinals.map (·.bind table.variant?)) ∧
        ∀ fault, decodeVariants table separator cursor = (.error fault, after) ↔
          (decodeTyped separator : Decoder (List (Option Int32))) cursor = (.error fault, after) ∨
          ∃ (ordinals : List (Option Int32)) (i : Nat) (ordinal : Int32),
            decodeTyped separator cursor = (.ok ordinals, after) ∧
            FirstRefused table.variant? ordinals i ordinal ∧ fault = .unknownVariant ordinal := by
  refine ⟨fun text pre post => ⟨fun values => ?_, fun fault => ?_⟩,
    fun table => ⟨fun ordinal variant => ?_, fun separator cursor after => ⟨fun list => ?_, fun fault => ?_⟩⟩⟩
  · exact ListText.readTyped_eq_ok_iff
  · exact ListText.readTyped_eq_error_iff
  · exact VariantTable.variant?_eq_some_iff
  · exact decodeVariants_eq_ok_iff
  · exact decodeVariants_eq_error_iff

/-- Of two numbers beyond eight bits the first is refused, at the byte where its length stands.
Of two ordinals without a variant the first is named. -/
theorem made_in_order_third_refused :
    (ListText.readTyped "+4é-1é1é73é3004é1000" "é" none : Except Fault (List (Option Int8))) =
      .error (.malformedText 12 .elementUnreadable) ∧
    (ListText.readTyped "2|1|7-1|" "|" none : Except Fault (List (Option Int8))) =
      .ok [some 7, none] ∧
    decodeVariants (⟨['x', 'y']⟩ : VariantTable Char) '|' (Cursor.ofBytes
        [0, 0, 0, 15, 52, 124, 49, 124, 49, 45, 49, 124, 49, 124, 57, 50, 124, 45, 52]) =
      (.error (.unknownVariant 9), (Cursor.ofBytes
        [0, 0, 0, 15, 52, 124, 49, 124, 49, 45, 49, 124, 49, 124, 57, 50, 124, 45, 52]).toEnd) := by
  refine ⟨?_, ?_, ?_⟩
  · refine ((made_in_order.1 _ _ _).2 _).mpr (.inr ?_)
    refine ⟨⟨['+', '4'], [⟨['-', '1'], none⟩, ⟨['1'], some ['7']⟩, ⟨['3'], some ['3', '0', '0']⟩,
      ⟨['4'], some ['1', '0', '0', '0']⟩]⟩, 2, "300", ?_, ?_, rfl, ?_, ?_⟩
    · decide +kernel
    · decide +kernel
    · refine firstRefused_cons_succ.mpr ⟨nofun, ?_⟩
      refine firstRefused_cons_succ.mpr ⟨fun _ seven => by cases seven; rfl, ?_⟩
      exact firstRefused_cons_zero.mpr ⟨rfl, rfl⟩
    · decide +kernel
  · refine ((made_in_order.1 _ _ _).1 _).mpr ⟨[some "7", none], rfl, fun string member => ?_, rfl⟩
    simp only [List.mem_cons, Option.some.injEq, reduceCtorEq, List.not_mem_nil, or_false] at member
    cases member
    rfl
  · refine (((made_in_order.2 _).2 _ _ _).2 _).mpr (.inr ?_)
    refine ⟨[some 1, none, some 9, some (-4)], 2, 9, rfl, ?_, rfl⟩
    refine firstRefused_cons_succ.mpr ⟨fun _ one => by cases one; rfl, ?_⟩
    refine firstRefused_cons_succ.mpr ⟨nofun, ?_⟩
    exact firstRefused_cons_zero.mpr ⟨rfl, rfl⟩

end ListFrame

end Wireform
