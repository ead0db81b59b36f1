import Mathlib.Algebra.GroupWithZero.Nat
import Mathlib.Data.List.Forall2
import Wireform.Field
import Wireform.Proofs.Field
/-! Messages read back.

Since every field reads back whatever follows it, fields of any kinds can be laid
end to end: reading them in order with one cursor gives every value back and ends
just before what follows the last.
-/

set_option autoImplicit false

namespace Wireform

theorem Message.concat_eq_flatten (buffers : List (Option Bytes)) :
    concat buffers = (buffers.filterMap id).flatten := by
  induction buffers with
  | nil => rfl
  | cons buffer rest ih =>
    cases buffer with
    | none => exact ih
    | some bytes => exact congrArg (bytes ++ ·) ih

/-- A value together with the kind of field that it is written as. -/
structure Entry : Type 1 where
  W : Type
  R : Type
  kind : Field W R
  value : W

namespace Entry

def encode (entry : Entry) : Except Fault Bytes := entry.kind.encode entry.value

def Faithful (entry : Entry) : Prop := entry.kind.Faithful entry.value

def read (entry : Entry) (cursor : Cursor) : Except Fault entry.R := entry.kind.decode.outcome cursor

def expected (entry : Entry) : entry.R := entry.kind.readBack entry.value

/-- Where one cursor stands after fields have been read with it in order. -/
def readAll (entries : List Entry) (cursor : Cursor) : Cursor :=
  entries.foldl (fun cursor entry => entry.kind.decode.final cursor) cursor

def ReadsFrom (entry : Entry) (frame : Bytes) : Prop :=
  Decoder.Reads entry.kind.decode frame entry.expected

variable {entries : List Entry} {frames : List Bytes}

theorem readsFrom_of_encode (faithful : ∀ entry ∈ entries, entry.Faithful)
    (encoded : entries.mapM encode = .ok frames) : List.Forall₂ ReadsFrom entries frames := by
  have pairs := (List.forall₂_and_left _ _).mpr ⟨faithful, Fault.mapM_eq_ok_iff.mp encoded⟩
  exact pairs.imp fun entry frame ⟨faithful, encoded⟩ => Field.decode_reads faithful encoded

theorem readAll_of_readsFrom (reads : List.Forall₂ ReadsFrom entries frames) (cursor : Cursor)
    (rest : Bytes) (ahead : cursor.unread = frames.flatten ++ rest) :
    (readAll entries cursor).unread = rest ∧
      (readAll entries cursor).position = cursor.position + (frames.map List.length).sum := by
  -- By induction over the fields, from wherever the ones before have left the cursor.
  induction reads generalizing cursor with
  | nil => exact ⟨ahead, rfl⟩
  | @cons entry frame entries frames here _ ih =>
    rw [List.flatten_cons, List.append_assoc] at ahead
    obtain ⟨fits, run⟩ := here cursor _ ahead
    have next : entry.kind.decode.final cursor = cursor.skip frame.length fits := by
      rw [Decoder.final, run]
    have behind : (cursor.skip frame.length fits).unread = frames.flatten ++ rest := by
      rw [cursor.unread_skip, ahead, List.drop_left]
    obtain ⟨unread, position⟩ := ih _ behind
    rw [readAll, List.foldl_cons, next]
    refine ⟨unread, position.trans ?_⟩
    rw [Cursor.skip_position, List.map_cons, List.sum_cons, Nat.add_assoc]

theorem read_of_readsFrom (reads : List.Forall₂ ReadsFrom entries frames) (cursor : Cursor)
    (rest : Bytes) (ahead : cursor.unread = frames.flatten ++ rest) (i : Nat)
    (inside : i < entries.length) :
    entries[i].read (readAll (entries.take i) cursor) = .ok entries[i].expected := by
  have inside' : i < frames.length := reads.length_eq ▸ inside
  -- Split off the frames before the field and those behind it.
  have whole : frames = frames.take i ++ frames[i] :: frames.drop (i + 1) := by
    rw [← List.drop_eq_getElem_cons inside', List.take_append_drop]
  rw [whole, List.flatten_append, List.flatten_cons, List.append_assoc, List.append_assoc] at ahead
  obtain ⟨unread, _⟩ := readAll_of_readsFrom (List.forall₂_take i reads) cursor _ ahead
  obtain ⟨_, run⟩ := reads.get inside inside' _ _ unread
  exact congrArg Prod.fst run

end Entry

/-- Fields of any kinds, written side by side with absent buffers anywhere among them and
any bytes behind them, are read in order with one cursor: each gives its value back and
ends where its buffer does, and what is left are the bytes behind. Of the elements that a
typed list may hold, truth values, integers, strings and whole milliseconds are faithful. -/
theorem Message.read_concat :
    (∀ (entries : List Entry) (frames : List Bytes) (buffers : List (Option Bytes)) (rest : Bytes),
      (∀ entry ∈ entries, entry.Faithful) → entries.mapM Entry.encode = .ok frames →
      buffers.filterMap id = frames →
      ∀ start : Cursor, start = Cursor.ofBytes (concat (buffers ++ [some rest])) →
        (∀ (i : Nat) (inside : i < entries.length),
          entries[i].read (Entry.readAll (entries.take i) start) = .ok entries[i].expected ∧
          (Entry.readAll (entries.take (i + 1)) start).position =
            ((frames.take (i + 1)).map List.length).sum) ∧
        Decoder.takeRest (Entry.readAll entries start) =
          (.ok rest, (Entry.readAll entries start).toEnd)) ∧
    (∀ value : Bool, Element.Lossless value) ∧ (∀ n : Int8, Element.Lossless n) ∧
    (∀ n : Int16, Element.Lossless n) ∧ (∀ n : Int32, Element.Lossless n) ∧
    (∀ n : Int64, Element.Lossless n) ∧ (∀ text : String, Element.Lossless text) ∧
    ∀ t : Timestamp, t.WholeMillis → Element.Lossless t := by
  refine ⟨?_, Element.lossless_bool, Element.lossless_int8, Element.lossless_int16,
    Element.lossless_int32, Element.lossless_int64, Element.lossless_string,
    fun t whole => (Instant.lossless_iff t).mpr whole⟩
  intro entries frames buffers rest faithful encoded interleaved start fresh
  have reads := Entry.readsFrom_of_encode faithful encoded
  have ahead : start.unread = frames.flatten ++ rest := by
    rw [fresh, Cursor.unread_ofBytes, concat_append, concat_eq_flatten buffers, interleaved]
    simp [concat]
  refine ⟨fun i inside => ⟨Entry.read_of_readsFrom reads start rest ahead i inside, ?_⟩, ?_⟩
  · have front := List.take_append_drop (i + 1) frames
    rw [← front, List.flatten_append, List.append_assoc] at ahead
    obtain ⟨_, position⟩ :=
      Entry.readAll_of_readsFrom (List.forall₂_take (i + 1) reads) start _ ahead
    rw [position, fresh]
    exact Nat.zero_add _
  · obtain ⟨unread, _⟩ := Entry.readAll_of_readsFrom reads start rest ahead
    rw [Decoder.takeRest, unread]

theorem Message.read_concat_minimum_and_list :
    Entry.read ⟨_, _, .typedList Bool ',', [some true, none]⟩
        (Entry.readAll [⟨_, _, .nullable Int8, some (-128)⟩]
          (Cursor.ofBytes (concat [none, some [0x80, 1], none,
            some [0, 0, 0, 11, 50, 44, 52, 44, 116, 114, 117, 101, 45, 49, 44], some [7, 9]]))) =
      .ok [some true, none] := by
  have faithful : ∀ entry ∈ ([⟨_, _, .nullable Int8, some (-128)⟩,
      ⟨_, _, .typedList Bool ',', [some true, none]⟩] : List Entry), entry.Faithful := by
    intro entry member
    simp only [List.mem_cons, List.not_mem_nil, or_false] at member
    rcases member with rfl | rfl
    · trivial
    · exact ⟨by decide, fun value _ => Element.lossless_bool value⟩
  exact ((Message.read_concat.1 _ _ [none, some [0x80, 1], none,
    some [0, 0, 0, 11, 50, 44, 52, 44, 116, 114, 117, 101, 45, 49, 44]] [7, 9] faithful
    (by rfl) rfl _ rfl).1 1 (by decide)).1

end Wireform
