import Wireform.Bytes
/-! A forward-only read position in a buffer. -/

set_option autoImplicit false

namespace Wireform

structure Cursor where
  buffer : Bytes
  position : Nat
  position_le : position ≤ buffer.length

namespace Cursor

@[ext] theorem ext {first second : Cursor} (buffer : first.buffer = second.buffer)
    (position : first.position = second.position) : first = second := by
  cases first
  cases second
  cases buffer
  cases position
  rfl

def ofBytes (buffer : Bytes) : Cursor := ⟨buffer, 0, Nat.zero_le _⟩

def consumed (cursor : Cursor) : Bytes := cursor.buffer.take cursor.position

/-- The bytes from the position to the end. -/
def unread (cursor : Cursor) : Bytes := cursor.buffer.drop cursor.position

def remaining (cursor : Cursor) : Nat := cursor.buffer.length - cursor.position

def isExhausted (cursor : Cursor) : Bool := cursor.position == cursor.buffer.length

def skip (cursor : Cursor) (n : Nat) (fits : n ≤ cursor.remaining) : Cursor where
  buffer := cursor.buffer
  position := cursor.position + n
  position_le := by
    have := cursor.position_le
    unfold remaining at fits
    omega

def toEnd (cursor : Cursor) : Cursor := ⟨cursor.buffer, cursor.buffer.length, Nat.le_refl _⟩

@[simp] theorem length_unread (cursor : Cursor) : cursor.unread.length = cursor.remaining := by
  simp [unread, remaining]

theorem position_add_remaining (cursor : Cursor) :
    cursor.position + cursor.remaining = cursor.buffer.length :=
  Nat.add_sub_cancel' cursor.position_le

@[simp] theorem skip_buffer (cursor : Cursor) (n : Nat) (fits : n ≤ cursor.remaining) :
    (cursor.skip n fits).buffer = cursor.buffer := rfl

@[simp] theorem skip_position (cursor : Cursor) (n : Nat) (fits : n ≤ cursor.remaining) :
    (cursor.skip n fits).position = cursor.position + n := rfl

theorem unread_skip (cursor : Cursor) (n : Nat) (fits : n ≤ cursor.remaining) :
    (cursor.skip n fits).unread = cursor.unread.drop n := by
  simp [unread, skip, List.drop_drop]

@[simp] theorem remaining_skip (cursor : Cursor) (n : Nat) (fits : n ≤ cursor.remaining) :
    (cursor.skip n fits).remaining = cursor.remaining - n := by
  simp [remaining, Nat.sub_add_eq]

@[simp] theorem unread_ofBytes (buffer : Bytes) : (ofBytes buffer).unread = buffer := rfl

theorem skip_ofBytes {buffer : Bytes} {n : Nat} (fits : n ≤ (ofBytes buffer).remaining)
    (whole : n = buffer.length) : (ofBytes buffer).skip n fits = (ofBytes buffer).toEnd :=
  Cursor.ext rfl ((Nat.zero_add n).trans whole)

end Cursor

end Wireform
