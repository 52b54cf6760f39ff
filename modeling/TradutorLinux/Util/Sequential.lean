import TradutorLinux.Util.Bytes

/-!
# Files read from their beginning

A file of words and strings, each string behind its length.  The reader takes
one after the other from the bytes that are left.

## Main definitions

* `takeLE w`, `takeBytes n` — a word, and a string, off the front.

## Main results

* `takeLE_append`, `takeBytes_append`
-/

namespace TradutorLinux

variable {w n : ℕ} {bytes front rest : ByteString}

/-- A little-endian word of `w` bytes off the front. -/
def takeLE (w : ℕ) (bytes : ByteString) : Option (ℕ × ByteString) :=
  if bytes.length < w then none else some (ofLE (bytes.take w), bytes.drop w)

/-- The first `n` bytes, off the front. -/
def takeBytes (n : ℕ) (bytes : ByteString) : Option (ByteString × ByteString) :=
  if bytes.length < n then none else some (bytes.take n, bytes.drop n)

/-- **A word that was written is taken off.** -/
theorem takeLE_append (h : n < 256 ^ w) : takeLE w (toLE w n ++ rest) = some (n, rest) := by
  have hl : ¬(toLE w n ++ rest).length < w := by simp
  unfold takeLE
  rw [if_neg hl, List.take_left' (length_toLE w n), List.drop_left' (length_toLE w n),
    ofLE_toLE_of_lt h]

/-- **A string that was written is taken off.** -/
theorem takeBytes_append : takeBytes front.length (front ++ rest) = some (front, rest) := by
  have hl : ¬(front ++ rest).length < front.length := by simp
  unfold takeBytes
  rw [if_neg hl, List.take_left, List.drop_left]

end TradutorLinux
