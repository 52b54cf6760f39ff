import Mathlib.Data.List.Basic
import Mathlib.Tactic.Ring

/-!
# Byte strings and little-endian words

A byte string is a list of bytes.  Everything the parsers and the serializers
below read is a little-endian word at an offset, so this file has the one
reader and the one writer they share, over byte strings and widths, together
with the laws the proofs use: reading back what was written, reading beside it,
and reading through a slice.

## Main definitions

* `slice bs off len` — the `len` bytes from `off` on.
* `ofLE`, `toLE w`
* `readLE bs off w` — the word of width `w` at `off`, when it is in range.
* `putBytes bs off src` — overwrite the bytes from `off` on.
-/

namespace TradutorLinux

open List

/-- A C++ `std::string`, `std::span<const std::byte>` or Rust `[u8]`. -/
abbrev ByteString := List UInt8

def text (s : String) : ByteString := s.toUTF8.data.toList

/-! ### Slices -/

/-- The `len` bytes of `bs` from `off` on; shorter when `bs` ends before. -/
def slice (bs : ByteString) (off len : ℕ) : ByteString := (bs.drop off).take len

/-- The range `[off, off + len)` lies in a buffer of the given size. -/
def inRange (size off len : ℕ) : Bool := decide (off ≤ size) && decide (len ≤ size - off)

variable {off len : ℕ}

@[simp] theorem inRange_iff {size : ℕ} : inRange size off len ↔ off + len ≤ size := by
  simp only [inRange, Bool.and_eq_true, decide_eq_true_eq]
  omega

theorem not_inRange_iff {s : ℕ} : (!inRange s off len) ↔ s < off + len := by
  rw [Bool.not_eq_true', Bool.eq_false_iff, ne_eq, inRange_iff, not_le]

theorem length_slice (bs : ByteString) (off len : ℕ) :
    (slice bs off len).length = min len (bs.length - off) := by
  simp [slice]

variable {bs : ByteString}

theorem length_slice_of_le (h : off + len ≤ bs.length) : (slice bs off len).length = len := by
  rw [length_slice]
  omega

theorem getElem?_slice (bs : ByteString) (off len i : ℕ) :
    (slice bs off len)[i]? = if i < len then bs[off + i]? else none := by
  simp [slice, getElem?_take, getElem?_drop]

theorem slice_slice (bs : ByteString) {o' len' : ℕ} (h : o' + len' ≤ len) :
    slice (slice bs off len) o' len' = slice bs (off + o') len' := by
  apply ext_getElem?
  intro i
  simp only [getElem?_slice]
  by_cases hi : i < len'
  · simp [hi, show o' + i < len by omega, add_assoc]
  · simp [hi]

/-! ### Words -/

/-- The natural with the given little-endian bytes. -/
def ofLE : ByteString → ℕ
  | [] => 0
  | b :: bs => b.toNat + 256 * ofLE bs

/-- The `w` little-endian bytes of `n`. -/
def toLE : ℕ → ℕ → ByteString
  | 0, _ => []
  | w + 1, n => UInt8.ofNat n :: toLE w (n / 256)

@[simp] theorem length_toLE (w n : ℕ) : (toLE w n).length = w := by
  induction w generalizing n with
  | zero => rfl
  | succ w ih => simp [toLE, length_cons, ih]

theorem ofLE_lt (bs : ByteString) : ofLE bs < 256 ^ bs.length := by
  induction bs with
  | nil => simp [ofLE]
  | cons b bs ih =>
    have hb : b.toNat < 256 := b.toNat_lt
    rw [ofLE, length_cons, pow_succ]
    omega

theorem ofLE_toLE (w n : ℕ) : ofLE (toLE w n) = n % 256 ^ w := by
  induction w generalizing n with
  | zero => simp [ofLE, toLE, Nat.mod_one]
  | succ w ih =>
    have hb : (UInt8.ofNat n).toNat = n % 256 := by simp
    rw [toLE, ofLE, ih, hb, pow_succ', Nat.mod_mul]

variable {w : ℕ}

theorem ofLE_toLE_of_lt {n : ℕ} (h : n < 256 ^ w) : ofLE (toLE w n) = n := by
  rw [ofLE_toLE, Nat.mod_eq_of_lt h]

theorem ofLE_append (xs ys : ByteString) :
    ofLE (xs ++ ys) = ofLE xs + 256 ^ xs.length * ofLE ys := by
  induction xs with
  | nil => simp [ofLE]
  | cons b xs ih =>
    rw [cons_append, ofLE, ofLE, ih, length_cons, pow_succ]
    ring

theorem ofLE_replicate_zero (n : ℕ) : ofLE (List.replicate n 0) = 0 := by
  induction n with
  | zero => rfl
  | succ n ih => simp [replicate_succ, ofLE, ih]

/-- The word of width `w` at `off`; nothing when it is not wholly in range. -/
def readLE (bs : ByteString) (off w : ℕ) : Option ℕ :=
  if inRange bs.length off w then some (ofLE (slice bs off w)) else none

theorem readLE_of_le (h : off + w ≤ bs.length) :
    readLE bs off w = some (ofLE (slice bs off w)) := by
  rw [readLE, if_pos (inRange_iff.2 h)]

theorem readLE_of_lt (h : bs.length < off + w) : readLE bs off w = none := by
  rw [readLE, if_neg (mt inRange_iff.1 (not_le.2 h))]

/-! ### Overwriting -/

/-- The buffer with `src` copied over its bytes from `off` on. -/
def putBytes (bs : ByteString) (off : ℕ) (src : ByteString) : ByteString :=
  bs.take off ++ src ++ bs.drop (off + src.length)

variable {src : ByteString}

@[simp] theorem length_putBytes
    (h : off + src.length ≤ bs.length) : (putBytes bs off src).length = bs.length := by
  simp only [putBytes, length_append, length_take, length_drop]
  omega

theorem getElem?_putBytes (h : off + src.length ≤ bs.length) (i : ℕ) :
    (putBytes bs off src)[i]? =
      if off ≤ i ∧ i < off + src.length then src[i - off]? else bs[i]? := by
  have ht : (bs.take off).length = off := by
    rw [length_take]; omega
  unfold putBytes
  rw [append_assoc]
  by_cases hl : i < off
  · rw [getElem?_append_left (by omega), if_neg (by omega), getElem?_take, if_pos hl]
  rw [getElem?_append_right (by omega), ht]
  by_cases hh : i < off + src.length
  · rw [getElem?_append_left (by omega), if_pos ⟨by omega, hh⟩]
  · rw [getElem?_append_right (by omega), if_neg (by omega), getElem?_drop]
    congr 1
    omega

/-- What was written is read back. -/
theorem slice_putBytes_self
    (h : off + src.length ≤ bs.length) : slice (putBytes bs off src) off src.length = src := by
  apply ext_getElem?
  intro i
  rw [getElem?_slice, getElem?_putBytes h]
  by_cases hi : i < src.length
  · rw [if_pos hi, if_pos ⟨by omega, by omega⟩, Nat.add_sub_cancel_left]
  · rw [if_neg hi, getElem?_eq_none (by omega)]

theorem slice_putBytes_of_disjoint {a n : ℕ}
    (h : off + src.length ≤ bs.length) (hd : a + n ≤ off ∨ off + src.length ≤ a) :
    slice (putBytes bs off src) a n = slice bs a n := by
  apply ext_getElem?
  intro i
  rw [getElem?_slice, getElem?_slice, getElem?_putBytes h]
  by_cases hi : i < n
  · rw [if_pos hi, if_pos hi, if_neg (by omega)]
  · rw [if_neg hi, if_neg hi]

end TradutorLinux
