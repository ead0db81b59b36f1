/-! Byte strings, as big-endian words and as UTF-8 text.

A word of `n` bytes is a `BitVec (8 * n)`. `BigEndian.toBytes` and
`BigEndian.ofBytes` are inverse to each other on byte strings of that length, and
`Utf8.decode?` reads exactly what `Utf8.encode` writes.
-/

set_option autoImplicit false

-- A power is taken by recursion on the exponent, also where those of a monoid are in scope.
attribute [default_instance 20000, instance (2000)] instPowNat

namespace Wireform

abbrev Bytes := List UInt8

namespace BigEndian

/-- The last `n` base-256 digits of a number, most significant first. -/
def digits : Nat → Nat → Bytes
  | 0, _ => []
  | n + 1, v => UInt8.ofNat (v / 256 ^ n) :: digits n v

/-- The number that base-256 digits denote, most significant first. -/
def value : Bytes → Nat
  | [] => 0
  | byte :: rest => byte.toNat * 256 ^ rest.length + value rest

@[simp] theorem length_digits (n v : Nat) : (digits n v).length = n := by
  induction n with
  | zero => rfl
  | succ n ih => simp [digits, ih]

theorem value_lt (bytes : Bytes) : value bytes < 256 ^ bytes.length := by
  induction bytes with
  | nil => simp [value]
  | cons byte rest ih =>
    have top : byte.toNat ≤ 255 := Nat.le_of_lt_succ byte.toNat_lt
    have scaled := Nat.mul_le_mul_right (256 ^ rest.length) top
    simp only [value, List.length_cons, Nat.pow_succ]
    omega

theorem value_digits (n v : Nat) : value (digits n v) = v % 256 ^ n := by
  induction n with
  | zero => simp [digits, value, Nat.mod_one]
  | succ n ih =>
    have split : v % 256 ^ (n + 1) = v % 256 ^ n + 256 ^ n * (v / 256 ^ n % 256) := Nat.mod_pow_succ
    simp only [digits, value, length_digits, ih, UInt8.toNat_ofNat', split]
    rw [Nat.mul_comm, Nat.add_comm]

theorem digits_add_mul (n v k : Nat) : digits n (v + 256 ^ n * k) = digits n v := by
  induction n generalizing k with
  | zero => rfl
  | succ n ih =>
    have shift : v + 256 ^ (n + 1) * k = v + 256 ^ n * (256 * k) := by
      rw [Nat.pow_succ, Nat.mul_assoc]
    have head : UInt8.ofNat ((v + 256 ^ n * (256 * k)) / 256 ^ n) = UInt8.ofNat (v / 256 ^ n) := by
      rw [Nat.add_mul_div_left _ _ (Nat.pow_pos (by decide))]
      apply UInt8.toNat.inj
      simp only [UInt8.toNat_ofNat']
      omega
    simp only [digits, shift, ih, head]

theorem digits_value (bytes : Bytes) : digits bytes.length (value bytes) = bytes := by
  induction bytes with
  | nil => rfl
  | cons byte rest ih =>
    have small := value_lt rest
    have head : (byte.toNat * 256 ^ rest.length + value rest) / 256 ^ rest.length = byte.toNat := by
      rw [Nat.mul_comm, Nat.mul_add_div (Nat.pow_pos (by decide)), Nat.div_eq_of_lt small,
        Nat.add_zero]
    simp only [List.length_cons, digits, value, head, UInt8.ofNat_toNat]
    rw [Nat.add_comm, Nat.mul_comm, digits_add_mul, ih]

def toBytes {n : Nat} (word : BitVec (8 * n)) : Bytes := digits n word.toNat

def ofBytes (n : Nat) (bytes : Bytes) : BitVec (8 * n) := BitVec.ofNat (8 * n) (value bytes)

@[simp] theorem length_toBytes {n : Nat} (word : BitVec (8 * n)) : (toBytes word).length = n :=
  length_digits n _

theorem pow_bytes (n : Nat) : 2 ^ (8 * n) = 256 ^ n := by rw [Nat.pow_mul]

@[simp] theorem ofBytes_toBytes {n : Nat} (word : BitVec (8 * n)) :
    ofBytes n (toBytes word) = word := by
  apply BitVec.eq_of_toNat_eq
  simp only [ofBytes, toBytes, BitVec.toNat_ofNat, value_digits, pow_bytes, Nat.mod_mod]
  exact Nat.mod_eq_of_lt (pow_bytes n ▸ word.isLt)

theorem toBytes_ofBytes {n : Nat} {bytes : Bytes} (length : bytes.length = n) :
    toBytes (ofBytes n bytes) = bytes := by
  subst length
  have small := value_lt bytes
  simp only [toBytes, ofBytes, BitVec.toNat_ofNat, pow_bytes, Nat.mod_eq_of_lt small, digits_value]

end BigEndian

namespace Utf8

def encode (text : String) : Bytes := text.toByteArray.data.toList

def decode? (bytes : Bytes) : Option String := String.fromUTF8? ⟨bytes.toArray⟩

@[simp] theorem decode?_encode (text : String) : decode? (encode text) = some text := by
  have same : (⟨text.toByteArray.data.toList.toArray⟩ : ByteArray) = text.toByteArray := rfl
  simp only [decode?, encode, same, String.fromUTF8?, text.isValidUTF8, ↓reduceDIte]
  rfl

theorem encode_of_decode? {bytes : Bytes} {text : String} (read : decode? bytes = some text) :
    encode text = bytes := by
  simp only [decode?, String.fromUTF8?] at read
  split at read
  · cases read
    rfl
  · cases read

theorem decode?_eq_some_iff {bytes : Bytes} {text : String} :
    decode? bytes = some text ↔ encode text = bytes :=
  ⟨encode_of_decode?, fun same => same ▸ decode?_encode text⟩

@[simp] theorem length_encode (text : String) : (encode text).length = text.utf8ByteSize := rfl

end Utf8

end Wireform
