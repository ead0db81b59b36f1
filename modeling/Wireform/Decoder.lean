import Wireform.Cursor
import Wireform.Fault
/-! Reading from a cursor.

A decoder answers with a value or a fault and always says where it leaves the
cursor, so reading can go on after a failure. A read that does not fit leaves
the cursor where it was.
-/

set_option autoImplicit false

namespace Wireform

def Decoder (α : Type) : Type := Cursor → Except Fault α × Cursor

namespace Decoder

variable {α β : Type}

/-- Read on with the value of a first decoder, or stop where it failed. -/
def andThen (first : Decoder α) (next : α → Decoder β) : Decoder β := fun cursor =>
  match first cursor with
  | (.ok value, after) => next value after
  | (.error fault, after) => (.error fault, after)

instance : Monad Decoder where
  pure value := fun cursor => (.ok value, cursor)
  bind := andThen

def outcome (decoder : Decoder α) (cursor : Cursor) : Except Fault α := (decoder cursor).1

def final (decoder : Decoder α) (cursor : Cursor) : Cursor := (decoder cursor).2

/-- A result already at hand, with nothing read. -/
def ofExcept (result : Except Fault α) : Decoder α := fun cursor => (result, cursor)

def fail (fault : Fault) : Decoder α := ofExcept (.error fault)

def take (n : Nat) : Decoder Bytes := fun cursor =>
  if fits : n ≤ cursor.remaining then (.ok (cursor.unread.take n), cursor.skip n fits)
  else (.error (.truncated n cursor.remaining), cursor)

def takeVector (n : Nat) : Decoder (Vector UInt8 n) := fun cursor =>
  if fits : n ≤ cursor.remaining then
    (.ok ⟨(cursor.unread.take n).toArray, by simp [fits]⟩, cursor.skip n fits)
  else (.error (.truncated n cursor.remaining), cursor)

def advance (n : Nat) : Decoder Unit := do
  let _ ← take n
  return ()

def takeRest : Decoder Bytes := fun cursor => (.ok cursor.unread, cursor.toEnd)

@[simp] theorem pure_apply (value : α) (cursor : Cursor) :
    (pure value : Decoder α) cursor = (.ok value, cursor) := rfl

@[simp] theorem ofExcept_apply (result : Except Fault α) (cursor : Cursor) :
    ofExcept result cursor = (result, cursor) := rfl

@[simp] theorem fail_apply (fault : Fault) (cursor : Cursor) :
    (fail fault : Decoder α) cursor = (.error fault, cursor) := rfl

theorem bind_apply (first : Decoder α) (next : α → Decoder β) (cursor : Cursor) :
    (first >>= next) cursor =
      match first cursor with
      | (.ok value, after) => next value after
      | (.error fault, after) => (.error fault, after) := rfl

theorem bind_of_ok {first : Decoder α} {next : α → Decoder β} {cursor after : Cursor} {value : α}
    (run : first cursor = (.ok value, after)) : (first >>= next) cursor = next value after := by
  simp [bind_apply, run]

theorem bind_of_error {first : Decoder α} {next : α → Decoder β} {cursor after : Cursor}
    {fault : Fault} (run : first cursor = (.error fault, after)) :
    (first >>= next) cursor = (.error fault, after) := by
  simp [bind_apply, run]

/-- A chain fails in its first part or in what follows it. -/
theorem bind_error {first : Decoder α} {next : α → Decoder β} {cursor after : Cursor} {fault : Fault}
    (run : (first >>= next) cursor = (.error fault, after)) :
    first cursor = (.error fault, after) ∨
      ∃ value middle, first cursor = (.ok value, middle) ∧ next value middle = (.error fault, after) := by
  rw [bind_apply] at run
  split at run
  · rename_i value middle ran
    exact .inr ⟨value, middle, ran, run⟩
  · rename_i ran
    cases run
    exact .inl ran

theorem ofExcept_bind (result : Except Fault α) (f : α → Except Fault β) :
    (ofExcept result >>= fun value => ofExcept (f value)) = ofExcept (result >>= f) := by
  funext cursor
  cases result <;> rfl

theorem fail_bind (fault : Fault) (next : α → Decoder β) : fail fault >>= next = fail fault := rfl

theorem map_id (decoder : Decoder α) : id <$> decoder = decoder := by
  funext cursor
  show andThen decoder (fun value => pure (id value)) cursor = decoder cursor
  unfold andThen
  cases decoder cursor with
  | mk result after => cases result <;> rfl

theorem bind_assoc {γ : Type} (decoder : Decoder α) (f : α → Decoder β) (g : β → Decoder γ) :
    decoder >>= f >>= g = decoder >>= fun value => f value >>= g := by
  funext cursor
  show andThen (andThen decoder f) g cursor = andThen decoder (fun x => andThen (f x) g) cursor
  unfold andThen
  cases decoder cursor with
  | mk result after => cases result <;> rfl

instance : LawfulMonad Decoder :=
  LawfulMonad.mk' Decoder map_id (fun _ _ => rfl) bind_assoc

theorem take_of_le {n : Nat} {cursor : Cursor} (fits : n ≤ cursor.remaining) :
    take n cursor = (.ok (cursor.unread.take n), cursor.skip n fits) := by
  simp [take, fits]

theorem take_of_lt {n : Nat} {cursor : Cursor} (short : cursor.remaining < n) :
    take n cursor = (.error (.truncated n cursor.remaining), cursor) := by
  simp [take, Nat.not_le.mpr short]

theorem take_error {n : Nat} {cursor after : Cursor} {fault : Fault}
    (run : take n cursor = (.error fault, after)) :
    cursor.remaining < n ∧ fault = .truncated n cursor.remaining ∧ after = cursor := by
  rcases Nat.lt_or_ge cursor.remaining n with short | enough
  · rw [take_of_lt short] at run
    cases run
    exact ⟨short, rfl, rfl⟩
  · rw [take_of_le enough] at run
    cases run

theorem advance_of_le {n : Nat} {cursor : Cursor} (fits : n ≤ cursor.remaining) :
    advance n cursor = (.ok (), cursor.skip n fits) :=
  bind_of_ok (take_of_le fits)

/-- Wherever these bytes are ahead the decoder takes just them and has this result. -/
def Ends (decoder : Decoder α) (bytes : Bytes) (result : Except Fault α) : Prop :=
  ∀ (cursor : Cursor) (rest : Bytes), cursor.unread = bytes ++ rest →
    ∃ fits, decoder cursor = (result, cursor.skip bytes.length fits)

/-- The decoder takes just these bytes, whatever stands before and behind them,
and gives this value. -/
def Reads (decoder : Decoder α) (bytes : Bytes) (value : α) : Prop :=
  Ends decoder bytes (.ok value)

theorem ends_ofExcept (result : Except Fault α) : Ends (ofExcept result) [] result :=
  fun _ _ _ => ⟨Nat.zero_le _, rfl⟩

theorem reads_ofExcept (value : α) : Reads (ofExcept (.ok value)) [] value :=
  ends_ofExcept (.ok value)

theorem reads_pure (value : α) : Reads (pure value) [] value := reads_ofExcept value

/-- A buffer of just these bytes is taken whole. -/
theorem Ends.whole {decoder : Decoder α} {bytes : Bytes} {result : Except Fault α}
    (ends : Ends decoder bytes result) :
    decoder (Cursor.ofBytes bytes) = (result, (Cursor.ofBytes bytes).toEnd) := by
  obtain ⟨fits, run⟩ := ends (Cursor.ofBytes bytes) [] (List.append_nil bytes).symm
  rw [run, Cursor.skip_ofBytes fits rfl]

theorem reads_take {n : Nat} {bytes : Bytes} (length : bytes.length = n) :
    Reads (take n) bytes bytes := by
  subst length
  intro cursor rest ahead
  have fits : bytes.length ≤ cursor.remaining := by
    rw [← cursor.length_unread, ahead, List.length_append]
    exact Nat.le_add_right _ _
  exact ⟨fits, by rw [take_of_le fits, ahead, List.take_left]⟩

/-- Where a first decoder and then a second one end, their chain ends. -/
theorem Reads.bind_ends {first : Decoder α} {next : α → Decoder β} {front back : Bytes} {a : α}
    {result : Except Fault β} (reads : Reads first front a) (ends : Ends (next a) back result) :
    Ends (first >>= next) (front ++ back) result := by
  intro cursor rest ahead
  obtain ⟨fits, run⟩ := reads cursor (back ++ rest) (by rw [ahead, List.append_assoc])
  -- The second decoder starts where the first one ended.
  have ahead' : (cursor.skip front.length fits).unread = back ++ rest := by
    rw [cursor.unread_skip, ahead, List.append_assoc, List.drop_left]
  obtain ⟨fits', run'⟩ := ends _ rest ahead'
  have total : (front ++ back).length ≤ cursor.remaining := by
    rw [cursor.remaining_skip] at fits'
    rw [List.length_append]
    omega
  refine ⟨total, ?_⟩
  rw [bind_of_ok run, run']
  congr 1
  apply Cursor.ext
  · rfl
  · simp [Nat.add_assoc]

theorem Reads.bind {first : Decoder α} {next : α → Decoder β} {front back : Bytes} {a : α} {b : β}
    (reads : Reads first front a) (reads' : Reads (next a) back b) :
    Reads (first >>= next) (front ++ back) b :=
  reads.bind_ends reads'

/-- A last step that reads nothing more. -/
theorem Reads.map_ends {first : Decoder α} {next : α → Decoder β} {bytes : Bytes} {a : α}
    {result : Except Fault β} (reads : Reads first bytes a) (ends : Ends (next a) [] result) :
    Ends (first >>= next) bytes result := by
  simpa using reads.bind_ends ends

theorem Reads.map {first : Decoder α} {next : α → Decoder β} {bytes : Bytes} {a : α} {b : β}
    (reads : Reads first bytes a) (reads' : Reads (next a) [] b) : Reads (first >>= next) bytes b :=
  reads.map_ends reads'

end Decoder

end Wireform
