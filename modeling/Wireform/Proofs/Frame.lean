import Wireform.Frame
/-! Every way in which the reading of a frame can go.

`Frame.Front` tells apart what may stand at a cursor: a length that is cut off, a
negative one, one that reaches beyond the buffer, or a whole frame. All decoders of
frames are `Frame.decodeAs` with their own readings of a negative length and of a
payload, and one lemma for each front says how `decodeAs` ends there.
-/

set_option autoImplicit false

namespace Wireform

/-- The faults that a frame has whatever is made of it. -/
def Fault.OfFraming : Fault → Prop
  | .truncated .. | .frameTooLarge .. => True
  | _ => False

namespace Frame

/-- The length of a payload stands ahead, whether or not the payload does. -/
def Declares (cursor : Cursor) (n : Nat) : Prop :=
  ∃ length : Int32, length.toInt = n ∧ FixedWidth.encode length <+: cursor.unread

/-- A whole frame stands ahead. -/
def Holds (cursor : Cursor) (payload : Bytes) : Prop :=
  ∃ length : Int32, length.toInt = payload.length ∧
    FixedWidth.encode length ++ payload <+: cursor.unread

variable {cursor : Cursor} {payload : Bytes} {n : Nat}

theorem Holds.declares (holds : Holds cursor payload) : Declares cursor payload.length := by
  obtain ⟨length, size, ahead⟩ := holds
  exact ⟨length, size, (List.prefix_append _ payload).trans ahead⟩

theorem Declares.four_le (declares : Declares cursor n) : 4 ≤ cursor.remaining := by
  obtain ⟨length, _, ahead⟩ := declares
  have le := ahead.length_le
  rwa [FixedWidth.length_encode, cursor.length_unread] at le

theorem Declares.lt (declares : Declares cursor n) : n < 2 ^ 31 := by
  obtain ⟨length, size, _⟩ := declares
  have below := length.toInt_lt
  omega

theorem Holds.length_le (holds : Holds cursor payload) : 4 + payload.length ≤ cursor.remaining := by
  obtain ⟨length, _, ahead⟩ := holds
  have le := ahead.length_le
  rwa [List.length_append, FixedWidth.length_encode, cursor.length_unread] at le

theorem Declares.unique {m : Nat} (declares : Declares cursor n) (other : Declares cursor m) :
    n = m := by
  obtain ⟨length, size, ahead⟩ := declares
  obtain ⟨length', size', ahead'⟩ := other
  rw [FixedWidth.eq_of_ahead ahead ahead', size'] at size
  exact Int.ofNat.inj size.symm

/-- What stands where a frame is to be read. -/
inductive Front (cursor : Cursor) : Prop where
  | cut (short : cursor.remaining < 4)
  | negative (length : Int32) (below : length.toInt < 0)
      (ahead : FixedWidth.encode length <+: cursor.unread)
  | missing (n : Nat) (declares : Declares cursor n) (short : cursor.remaining - 4 < n)
  | whole (payload : Bytes) (holds : Holds cursor payload)

theorem front (cursor : Cursor) : Front cursor := by
  rcases FixedWidth.short_or_ahead Int32 cursor with short | ⟨length, ahead⟩
  · exact .cut short
  rcases Int.lt_or_le length.toInt 0 with below | nonnegative
  · exact .negative length below ahead
  obtain ⟨n, size⟩ := Int.eq_ofNat_of_zero_le nonnegative
  obtain ⟨rest, whole⟩ := ahead
  have total : cursor.remaining = 4 + rest.length := by
    rw [← cursor.length_unread, ← whole, List.length_append, FixedWidth.length_encode]
    rfl
  rcases Nat.lt_or_ge rest.length n with short | enough
  · exact .missing n ⟨length, size, rest, whole⟩ (by omega)
  · have taken : (rest.take n).length = n := by
      rw [List.length_take]
      exact Nat.min_eq_left enough
    refine .whole (rest.take n) ⟨length, by rw [taken, size], rest.drop n, ?_⟩
    rw [List.append_assoc, List.take_append_drop, whole]

section decodeAs

variable {α β : Type} {limit : Nat} {absent : Int32 → Except Fault α}
  {present : Bytes → Except Fault α}

/-- A frame of at most `limit` bytes, by what a negative length and a payload are read as. -/
def decodeAs (limit : Nat) (absent : Int32 → Except Fault α) (present : Bytes → Except Fault α) :
    Decoder α := do
  let length : Int32 ← FixedWidth.decode
  if length.toInt < 0 then Decoder.ofExcept (absent length)
  else if limit < length.toInt.toNat then
    Decoder.fail (.frameTooLarge length.toInt.toNat limit)
  else
    let payload ← Decoder.take length.toInt.toNat
    Decoder.ofExcept (present payload)

theorem decodeAs_bind (f : α → Except Fault β) :
    (decodeAs limit absent present >>= fun value => Decoder.ofExcept (f value)) =
      decodeAs limit (fun length => absent length >>= f) (fun payload => present payload >>= f) := by
  unfold decodeAs
  rw [bind_assoc]
  congr 1
  funext length
  split
  · exact Decoder.ofExcept_bind _ _
  split
  · exact Decoder.fail_bind _ _
  · rw [bind_assoc]
    congr 1
    funext payload
    exact Decoder.ofExcept_bind _ _

theorem decodeBytesWithin_eq (limit : Nat) : decodeBytesWithin limit =
    decodeAs limit (fun _ => .ok none) (fun payload => .ok (some payload)) := by
  unfold decodeBytesWithin readLength decodeAs
  rw [bind_assoc]
  congr 1
  funext length
  rw [pure_bind]
  by_cases below : length.toInt < 0
  · rw [if_pos below, if_pos below]
    rfl
  · rw [if_neg below, if_neg below]
    rfl

theorem decodeStringWithin_eq (limit : Nat) : decodeStringWithin limit =
    decodeAs limit (fun _ => .ok none) (fun payload => text (some payload)) := by
  unfold decodeStringWithin
  rw [decodeBytesWithin_eq, decodeAs_bind]
  rfl

theorem decodeAs_of_cut (short : cursor.remaining < 4) :
    decodeAs limit absent present cursor = (.error (.truncated 4 cursor.remaining), cursor) :=
  Decoder.bind_of_error (FixedWidth.decode_of_short short)

theorem decodeAs_of_negative {length : Int32} (below : length.toInt < 0)
    (ahead : FixedWidth.encode length <+: cursor.unread) :
    ∃ fits, decodeAs limit absent present cursor = (absent length, cursor.skip 4 fits) := by
  obtain ⟨fits, run⟩ := FixedWidth.decode_of_ahead ahead
  refine ⟨fits, ?_⟩
  rw [decodeAs, Decoder.bind_of_ok run, if_pos below]
  rfl

theorem decodeAs_of_exceeding (declares : Declares cursor n) (exceeding : limit < n) :
    ∃ fits, decodeAs limit absent present cursor =
      (.error (.frameTooLarge n limit), cursor.skip 4 fits) := by
  obtain ⟨length, size, ahead⟩ := declares
  obtain ⟨fits, run⟩ := FixedWidth.decode_of_ahead ahead
  refine ⟨fits, ?_⟩
  rw [decodeAs, Decoder.bind_of_ok run, size, Int.toNat_natCast, if_neg (by omega), if_pos exceeding]
  rfl

theorem decodeAs_of_missing (declares : Declares cursor n) (within : n ≤ limit)
    (short : cursor.remaining - 4 < n) :
    ∃ fits, decodeAs limit absent present cursor =
      (.error (.truncated n (cursor.remaining - 4)), cursor.skip 4 fits) := by
  obtain ⟨length, size, ahead⟩ := declares
  obtain ⟨fits, run⟩ := FixedWidth.decode_of_ahead ahead
  refine ⟨fits, ?_⟩
  rw [decodeAs, Decoder.bind_of_ok run, size, Int.toNat_natCast, if_neg (by omega),
    if_neg (by omega)]
  have left : (cursor.skip 4 fits).remaining = cursor.remaining - 4 := cursor.remaining_skip 4 fits
  rw [← left]
  exact Decoder.bind_of_error (Decoder.take_of_lt (left ▸ short))

theorem decodeAs_of_holds (holds : Holds cursor payload) (within : payload.length ≤ limit) :
    ∃ fits, decodeAs limit absent present cursor =
      (present payload, cursor.skip (4 + payload.length) fits) := by
  obtain ⟨length, size, rest, whole⟩ := holds
  have ends : Decoder.Ends (decodeAs limit absent present) (FixedWidth.encode length ++ payload)
      (present payload) := by
    refine (FixedWidth.decode_reads length).bind_ends ?_
    rw [size, Int.toNat_natCast, if_neg (by omega), if_neg (by omega)]
    exact (Decoder.reads_take rfl).map_ends (Decoder.ends_ofExcept (present payload))
  have run := ends cursor rest whole.symm
  rwa [List.length_append, FixedWidth.length_encode] at run

/-- What a frame comes to, whatever is made of it: it is refused as a frame, or its negative
length or its payload is what is asked. -/
inductive Framing (limit : Nat) (start : Cursor) : Prop where
  | refused (fault : Fault) (after : Cursor) (framing : fault.OfFraming)
      (run : ∀ {α : Type} (absent : Int32 → Except Fault α) (present : Bytes → Except Fault α),
        decodeAs limit absent present start = (.error fault, after))
  | negative (length : Int32) (after : Cursor) (below : length.toInt < 0)
      (ahead : FixedWidth.encode length <+: start.unread)
      (run : ∀ {α : Type} (absent : Int32 → Except Fault α) (present : Bytes → Except Fault α),
        decodeAs limit absent present start = (absent length, after))
  | whole (payload : Bytes) (after : Cursor) (holds : Holds start payload)
      (run : ∀ {α : Type} (absent : Int32 → Except Fault α) (present : Bytes → Except Fault α),
        decodeAs limit absent present start = (present payload, after))

theorem framing (limit : Nat) (start : Cursor) : Framing limit start := by
  -- The limit is looked at before the payload, so it does not matter whether that is there.
  have exceeds {n : Nat} (declares : Declares start n) (exceeding : limit < n) :
      Framing limit start := by
    refine .refused (.frameTooLarge n limit) (start.skip 4 declares.four_le) trivial ?_
    intro _ absent present
    exact (decodeAs_of_exceeding declares exceeding).2
  cases front start with
  | cut short =>
    exact .refused (.truncated 4 start.remaining) start trivial fun _ _ => decodeAs_of_cut short
  | negative length below ahead =>
    have enough : 4 ≤ start.remaining := (FixedWidth.decode_of_ahead ahead).1
    refine .negative length (start.skip 4 enough) below ahead fun absent present => ?_
    exact (decodeAs_of_negative below ahead).2
  | missing n declares short =>
    rcases Nat.lt_or_ge limit n with exceeding | within
    · exact exceeds declares exceeding
    · refine .refused (.truncated n (start.remaining - 4)) (start.skip 4 declares.four_le) trivial ?_
      intro _ absent present
      exact (decodeAs_of_missing declares within short).2
  | whole payload holds =>
    rcases Nat.lt_or_ge limit payload.length with exceeding | within
    · exact exceeds holds.declares exceeding
    · refine .whole payload (start.skip (4 + payload.length) holds.length_le) holds ?_
      intro _ absent present
      exact (decodeAs_of_holds holds within).2

end decodeAs

end Frame

end Wireform
