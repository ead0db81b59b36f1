import Wireform.Field
import Wireform.Proofs.Consumption
import Wireform.Proofs.Layout
/-! Any reads in any order with one cursor.

Whatever a read finds, it moves the cursor over some of the bytes ahead and touches
nothing else (`Operation.skips`). Hence over a whole session the passed bytes are
the front of the buffer, piece by piece. A field that is read has passed at least
one byte, so reading until the buffer is exhausted comes to an end.
-/

set_option autoImplicit false

namespace Wireform

/-- The number of bytes that a plain read asks for. -/
def Step.size? {R : Type} : Step R → Option Nat
  | advance n | take n | takeVector n => some n
  | takeRest | field _ => none

/-- The bytes that a plain read hands out. -/
def Step.bytes? {R : Type} : Step R → R → Option Bytes
  | take _, bytes | takeRest, bytes => some bytes
  | takeVector _, bytes => some bytes.toList
  | advance _, _ | field _, _ => none

def Step.IsField {R : Type} : Step R → Prop
  | field _ => True
  | _ => False

/-- A read together with the type of what it gives. -/
structure Operation : Type 1 where
  Result : Type
  step : Step Result

namespace Operation

def outcome (operation : Operation) (cursor : Cursor) : Except Fault operation.Result :=
  operation.step.decoder.outcome cursor

def next (operation : Operation) (cursor : Cursor) : Cursor := operation.step.decoder.final cursor

/-- The bytes from where an operation starts to where it leaves the cursor. -/
def region (operation : Operation) (cursor : Cursor) : Bytes :=
  cursor.buffer.extract cursor.position (operation.next cursor).position

/-- Where operations leave the cursor, each going on from the one before even if that failed. -/
def nextAll (operations : List Operation) (cursor : Cursor) : Cursor :=
  operations.foldl (fun cursor operation => operation.next cursor) cursor

def regions : List Operation → Cursor → List Bytes
  | [], _ => []
  | operation :: rest, cursor => operation.region cursor :: regions rest (operation.next cursor)

structure Safe (operation : Operation) (before : Cursor) : Prop where
  buffer : (operation.next before).buffer = before.buffer
  forward : before.position ≤ (operation.next before).position
  inside : (operation.next before).position ≤ before.buffer.length
  refused : ∀ n fault, operation.step.size? = some n → operation.outcome before = .error fault →
    operation.next before = before ∧ fault = .truncated n before.remaining ∧ before.remaining < n
  granted : ∀ n, operation.step.size? = some n → n ≤ before.remaining →
    (∃ value, operation.outcome before = .ok value) ∧
      (operation.next before).position = before.position + n
  handed : ∀ value bytes, operation.outcome before = .ok value →
    operation.step.bytes? value = some bytes → bytes = operation.region before
  /-- A field that does not run out of bytes is read from those that are passed. -/
  decided : operation.step.IsField → ¬ Decoder.Starved (operation.outcome before) →
    operation.outcome (Cursor.ofBytes (operation.region before)) = operation.outcome before
  advances : operation.step.IsField → ∀ value, operation.outcome before = .ok value →
    before.position < (operation.next before).position

end Operation

namespace Step

variable {R : Type} {step : Step R} {n : Nat} {before : Cursor}

theorem decoder_of_short (asks : step.size? = some n) (short : before.remaining < n) :
    step.decoder before = (.error (.truncated n before.remaining), before) := by
  cases step with
  | advance =>
    cases asks
    exact Decoder.bind_of_error (Decoder.take_of_lt short)
  | take =>
    cases asks
    exact Decoder.take_of_lt short
  | takeVector =>
    cases asks
    exact dif_neg (Nat.not_le.mpr short)
  | takeRest | field => cases asks

theorem decoder_of_fits (asks : step.size? = some n) (fits : n ≤ before.remaining) :
    ∃ value, step.decoder before = (.ok value, before.skip n fits) ∧
      ∀ bytes, step.bytes? value = some bytes → bytes = before.unread.take n := by
  cases step with
  | advance =>
    cases asks
    exact ⟨(), Decoder.advance_of_le fits, fun _ none => by cases none⟩
  | take =>
    cases asks
    exact ⟨_, Decoder.take_of_le fits, fun _ same => (Option.some.inj same).symm⟩
  | takeVector =>
    cases asks
    exact ⟨_, dif_pos fits, fun _ same => (Option.some.inj same).symm⟩
  | takeRest | field => cases asks

end Step

namespace Field

variable {W R : Type} {kind : Field W R} {before : Cursor}

/-- A field that is read takes some of the bytes ahead, since nothing is read from none. -/
theorem reads_of_ok {value : R} (read : kind.decode.outcome before = .ok value) :
    ∃ bytes, bytes ≠ [] ∧ bytes <+: before.unread ∧ Decoder.Reads kind.decode bytes value := by
  have settled : ¬ Decoder.Starved (kind.decode.outcome before) := by
    rintro ⟨_, _, starved⟩
    rw [read] at starved
    cases starved
  obtain ⟨bytes, ahead, settles, _⟩ := kind.local_decode.settles settled
  rw [read] at settles
  refine ⟨bytes, ?_, ahead, settles.ends⟩
  -- From an exhausted buffer it would be read as well, but its leading bytes are not there.
  rintro rfl
  obtain ⟨_, run⟩ := settles.ends (Cursor.ofBytes []) [] rfl
  have short : (Cursor.ofBytes []).remaining < kind.layout.width := kind.width_pos
  rw [decode_of_short short] at run
  cases run

theorem final_skips (kind : Field W R) (before : Cursor) :
    ∃ n fits, kind.decode.final before = before.skip n fits := by
  cases run : kind.decode.outcome before with
  | error fault =>
    obtain ⟨passed, fits, _, after⟩ := kind.stops (Prod.ext run rfl)
    exact ⟨passed, fits, after⟩
  | ok value =>
    obtain ⟨bytes, _, ⟨rest, ahead⟩, reads⟩ := reads_of_ok run
    obtain ⟨fits, run'⟩ := reads before rest ahead.symm
    exact ⟨bytes.length, fits, congrArg Prod.snd run'⟩

theorem position_lt_of_ok {value : R} (read : kind.decode.outcome before = .ok value) :
    before.position < (kind.decode.final before).position := by
  obtain ⟨bytes, nonempty, ⟨rest, ahead⟩, reads⟩ := reads_of_ok read
  obtain ⟨_, run⟩ := reads before rest ahead.symm
  rw [Decoder.final, run, Cursor.skip_position]
  exact Nat.lt_add_of_pos_right (List.length_pos_iff.mpr nonempty)

theorem outcome_ofBytes (settled : ¬ Decoder.Starved (kind.decode.outcome before)) :
    kind.decode.outcome (Cursor.ofBytes
      (before.buffer.extract before.position (kind.decode.final before).position)) =
        kind.decode.outcome before := by
  obtain ⟨bytes, ⟨rest, ahead⟩, settles, position⟩ := kind.local_decode.settles settled
  rw [before.extract_eq_take, position, Nat.add_sub_cancel_left, ← ahead, List.take_left]
  obtain ⟨_, run⟩ := settles.ends (Cursor.ofBytes bytes) [] (List.append_nil bytes).symm
  rw [Decoder.outcome, run]

theorem remaining_lt_of_ok {value : R} {after : Cursor} (run : kind.decode before = (.ok value, after)) :
    after.remaining < before.remaining := by
  have later := position_lt_of_ok (congrArg Prod.fst run)
  obtain ⟨n, fits, skipped⟩ := kind.final_skips before
  have final : kind.decode.final before = after := congrArg Prod.snd run
  rw [skipped, Cursor.skip_position] at later
  rw [← final, skipped, Cursor.remaining_skip]
  omega

end Field

namespace Operation

variable {before : Cursor}

/-- Whatever is read, the cursor moves on over bytes that are there. -/
theorem skips (operation : Operation) (before : Cursor) :
    ∃ n fits, operation.next before = before.skip n fits := by
  obtain ⟨R, step⟩ := operation
  cases asks : step.size? with
  | some n =>
    rcases Nat.lt_or_ge before.remaining n with short | fits
    · exact ⟨0, Nat.zero_le _, congrArg Prod.snd (Step.decoder_of_short asks short)⟩
    · obtain ⟨value, run, _⟩ := Step.decoder_of_fits asks fits
      exact ⟨n, fits, congrArg Prod.snd run⟩
  | none =>
    cases step with
    | advance | take | takeVector => cases asks
    | takeRest =>
      exact ⟨before.remaining, Nat.le_refl _, Cursor.ext rfl before.position_add_remaining.symm⟩
    | field kind => exact kind.final_skips before

theorem region_of_skip {operation : Operation} {n : Nat} {fits : n ≤ before.remaining}
    (next : operation.next before = before.skip n fits) :
    operation.region before = before.unread.take n := by
  rw [region, next, before.extract_eq_take, Cursor.skip_position, Nat.add_sub_cancel_left]

theorem refused {operation : Operation} {n : Nat} {fault : Fault}
    (asks : operation.step.size? = some n) (failed : operation.outcome before = .error fault) :
    operation.next before = before ∧ fault = .truncated n before.remaining ∧ before.remaining < n := by
  rcases Nat.lt_or_ge before.remaining n with short | fits
  · have run := Step.decoder_of_short asks short
    cases (congrArg Prod.fst run).symm.trans failed
    exact ⟨congrArg Prod.snd run, rfl, short⟩
  · obtain ⟨value, run, _⟩ := Step.decoder_of_fits asks fits
    cases (congrArg Prod.fst run).symm.trans failed

theorem granted {operation : Operation} {n : Nat} (asks : operation.step.size? = some n)
    (fits : n ≤ before.remaining) : (∃ value, operation.outcome before = .ok value) ∧
      (operation.next before).position = before.position + n := by
  obtain ⟨value, run, _⟩ := Step.decoder_of_fits asks fits
  have next : operation.next before = before.skip n fits := congrArg Prod.snd run
  exact ⟨⟨value, congrArg Prod.fst run⟩, by rw [next, Cursor.skip_position]⟩

theorem handed {operation : Operation} {value : operation.Result} {bytes : Bytes}
    (read : operation.outcome before = .ok value) (gives : operation.step.bytes? value = some bytes) :
    bytes = operation.region before := by
  cases asks : operation.step.size? with
  | some n =>
    rcases Nat.lt_or_ge before.remaining n with short | fits
    · cases (congrArg Prod.fst (Step.decoder_of_short asks short)).symm.trans read
    · obtain ⟨value', run, same⟩ := Step.decoder_of_fits asks fits
      cases (congrArg Prod.fst run).symm.trans read
      have next : operation.next before = before.skip n fits := congrArg Prod.snd run
      rw [same bytes gives, region_of_skip next]
  | none =>
    obtain ⟨R, step⟩ := operation
    cases step with
    | advance | take | takeVector => cases asks
    | field => cases gives
    | takeRest =>
      cases read
      cases gives
      exact (List.take_of_length_le (Nat.le_of_eq (List.length_drop ..))).symm

theorem safe (operation : Operation) (before : Cursor) : operation.Safe before := by
  obtain ⟨n, fits, next⟩ := operation.skips before
  exact
    { buffer := by rw [next, Cursor.skip_buffer]
      forward := by
        rw [next, Cursor.skip_position]
        exact Nat.le_add_right _ _
      inside := by
        have inside := (operation.next before).position_le
        rwa [next, Cursor.skip_buffer, ← next] at inside
      refused := fun _ _ => refused
      granted := fun _ => granted
      handed := fun _ _ => handed
      decided := by
        obtain ⟨R, step⟩ := operation
        cases step with
        | field kind => exact fun _ settled => Field.outcome_ofBytes settled
        | advance | take | takeVector | takeRest => exact False.elim
      advances := by
        obtain ⟨R, step⟩ := operation
        cases step with
        | field kind => exact fun _ value read => Field.position_lt_of_ok read
        | advance | take | takeVector | takeRest => exact False.elim }

theorem consumed_next (operation : Operation) (before : Cursor) :
    (operation.next before).consumed = before.consumed ++ operation.region before := by
  obtain ⟨n, fits, next⟩ := operation.skips before
  rw [region_of_skip next, next]
  exact List.take_add

theorem consumed_nextAll (operations : List Operation) (cursor : Cursor) :
    (nextAll operations cursor).consumed = cursor.consumed ++ (regions operations cursor).flatten := by
  -- By induction over the operations, from wherever the ones before have left the cursor.
  induction operations generalizing cursor with
  | nil => exact (List.append_nil _).symm
  | cons operation rest ih =>
    rw [nextAll, List.foldl_cons]
    rw [regions, List.flatten_cons, ← List.append_assoc, ← consumed_next]
    exact ih _

theorem buffer_nextAll (operations : List Operation) (cursor : Cursor) :
    (nextAll operations cursor).buffer = cursor.buffer := by
  induction operations generalizing cursor with
  | nil => rfl
  | cons operation rest ih => exact (ih _).trans (operation.safe cursor).buffer

end Operation

structure FieldKind : Type 1 where
  W : Type
  R : Type
  kind : Field W R

-- Fields in order until the buffer is exhausted or one cannot be read: how many were
-- read by then, after those that are done.
def FieldKind.drain (kinds : Nat → FieldKind) (done : Nat) (cursor : Cursor) : Nat × Cursor :=
  if cursor.isExhausted then (done, cursor)
  else
    match run : (kinds done).kind.decode cursor with
    | (.ok _, after) => drain kinds (done + 1) after
    | (.error _, after) => (done, after)
termination_by cursor.remaining
decreasing_by exact Field.remaining_lt_of_ok run

theorem FieldKind.drain_le (kinds : Nat → FieldKind) (done : Nat) (cursor : Cursor) :
    (drain kinds done cursor).1 ≤ done + cursor.remaining := by
  fun_induction drain kinds done cursor with
  | case1 done cursor _ => exact Nat.le_add_right _ _
  | case2 done cursor _ value after run ih =>
    have less := Field.remaining_lt_of_ok run
    omega
  | case3 done cursor _ fault after run => exact Nat.le_add_right _ _

namespace Operation

/-- At every point of every session with one cursor, whatever was read before and whether
or not it could be: the cursor stands inside the buffer it was made of, what the reads
have passed is the front of that buffer, any further read is safe, and any loop that
reads fields from there to the end of the buffer reads at most as many as there are bytes. -/
theorem session_safe (buffer : Bytes) (operations : List Operation) :
    (nextAll operations (Cursor.ofBytes buffer)).buffer = buffer ∧
    (nextAll operations (Cursor.ofBytes buffer)).position +
      (nextAll operations (Cursor.ofBytes buffer)).remaining = buffer.length ∧
    (regions operations (Cursor.ofBytes buffer)).flatten =
      buffer.take (nextAll operations (Cursor.ofBytes buffer)).position ∧
    (∀ operation : Operation, operation.Safe (nextAll operations (Cursor.ofBytes buffer))) ∧
    ∀ kinds : Nat → FieldKind,
      (FieldKind.drain kinds 0 (nextAll operations (Cursor.ofBytes buffer))).1 ≤ buffer.length := by
  have same : (nextAll operations (Cursor.ofBytes buffer)).buffer = buffer :=
    buffer_nextAll operations (Cursor.ofBytes buffer)
  have inside := (nextAll operations (Cursor.ofBytes buffer)).position_add_remaining
  have passed := consumed_nextAll operations (Cursor.ofBytes buffer)
  rw [same] at inside
  rw [Cursor.consumed, same] at passed
  refine ⟨same, inside, passed.symm, fun operation => operation.safe _, fun kinds => ?_⟩
  have bound := FieldKind.drain_le kinds 0 (nextAll operations (Cursor.ofBytes buffer))
  omega

-- A refused field is passed whole, a read that does not fit passes nothing.
example : regions [⟨_, .field .string⟩, ⟨_, .take 9⟩, ⟨_, .takeRest⟩]
    (Cursor.ofBytes [0, 0, 0, 1, 0xFF, 7, 8]) = [[0, 0, 0, 1, 0xFF], [], [7, 8]] := rfl

end Operation

end Wireform
