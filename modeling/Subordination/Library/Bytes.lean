import Mathlib.Data.List.Basic
import Mathlib.Tactic.Ring

/-!
# Integers as bytes

Fixed-width integers laid out as bytes in either byte order, and the two facts
every codec over them needs: the layout has exactly the given width, and reading
it back gives the integer modulo the width.
-/

namespace Subordination.Library

/-- The order in which the bytes of an integer are laid out. -/
inductive Endian where
  /-- The least significant byte first. -/
  | little
  /-- The most significant byte first. -/
  | big
  deriving DecidableEq, Repr

/-- The `w` least significant bytes of `n`, the least significant first. -/
def leBytes : ℕ → ℕ → List UInt8
  | 0, _ => []
  | w + 1, n => UInt8.ofNat n :: leBytes w (n / 256)

/-- The integer whose bytes are given, the least significant first. -/
def ofLeBytes : List UInt8 → ℕ
  | [] => 0
  | b :: bs => b.toNat + 256 * ofLeBytes bs

@[simp] theorem length_leBytes (w n : ℕ) : (leBytes w n).length = w := by
  induction w generalizing n with
  | zero => rfl
  | succ w ih => simp [leBytes, ih]

theorem ofLeBytes_leBytes (w n : ℕ) : ofLeBytes (leBytes w n) = n % 256 ^ w := by
  induction w generalizing n with
  | zero => simp [leBytes, ofLeBytes, Nat.mod_one]
  | succ w ih =>
    rw [leBytes, ofLeBytes, ih, pow_succ, Nat.mul_comm (256 ^ w), Nat.mod_mul]
    simp

theorem leBytes_ofLeBytes (bs : List UInt8) : leBytes bs.length (ofLeBytes bs) = bs := by
  induction bs with
  | nil => rfl
  | cons b bs ih =>
    have hb := b.toNat_lt
    have hlow : UInt8.ofNat (b.toNat + 256 * ofLeBytes bs) = b := by
      rw [← UInt8.toNat_inj, UInt8.toNat_ofNat']
      omega
    have hhigh : (b.toNat + 256 * ofLeBytes bs) / 256 = ofLeBytes bs := by omega
    rw [List.length_cons, ofLeBytes, leBytes, hlow, hhigh, ih]

theorem ofLeBytes_lt (bs : List UInt8) : ofLeBytes bs < 256 ^ bs.length := by
  induction bs with
  | nil => decide
  | cons b bs ih =>
    have hb := b.toNat_lt
    rw [List.length_cons, ofLeBytes, pow_succ]
    omega

/-- Lay out the `w` least significant bytes of `n` in the order `e`. -/
def Endian.encode (e : Endian) (w n : ℕ) : List UInt8 :=
  match e with
  | .little => leBytes w n
  | .big => (leBytes w n).reverse

/-- Read an integer laid out in the order `e`. -/
def Endian.decode (e : Endian) (bs : List UInt8) : ℕ :=
  match e with
  | .little => ofLeBytes bs
  | .big => ofLeBytes bs.reverse

@[simp] theorem Endian.length_encode (e : Endian) (w n : ℕ) : (e.encode w n).length = w := by
  cases e <;> simp [Endian.encode]

/-- Reading back `w` bytes gives the integer modulo `256 ^ w`. -/
theorem Endian.decode_encode (e : Endian) (w n : ℕ) : e.decode (e.encode w n) = n % 256 ^ w := by
  cases e <;> simp [Endian.encode, Endian.decode, ofLeBytes_leBytes]

theorem Endian.decode_encode_of_lt (e : Endian) {w n : ℕ} (h : n < 256 ^ w) :
    e.decode (e.encode w n) = n := by
  rw [e.decode_encode, Nat.mod_eq_of_lt h]

/-- Laying out the integer with the given bytes gives these bytes. -/
theorem Endian.encode_decode (e : Endian) (bs : List UInt8) : e.encode bs.length (e.decode bs) = bs := by
  cases e with
  | little => exact leBytes_ofLeBytes bs
  | big =>
    have hreverse := leBytes_ofLeBytes bs.reverse
    rw [List.length_reverse] at hreverse
    rw [Endian.encode, Endian.decode, hreverse, List.reverse_reverse]

theorem Endian.decode_lt (e : Endian) (bs : List UInt8) : e.decode bs < 256 ^ bs.length := by
  cases e with
  | little => exact ofLeBytes_lt bs
  | big => simpa [Endian.decode] using ofLeBytes_lt bs.reverse

end Subordination.Library
