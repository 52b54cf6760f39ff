import Mathlib.Data.List.TakeDrop

/-!
# Files with a cursor

A file is a list with a position, which may stand behind the end.  A read gives
what is there and no more; a write behind the end fills the gap, and a write in
the middle leaves what follows it alone.

## Main definitions

* `CursorFile` — contents and a position.
* `CursorFile.read`, `CursorFile.write`, `CursorFile.setSize` — the operations.

## Main results

* `CursorFile.getElem?_write`, `CursorFile.length_write` — **what a write leaves.**
-/

namespace TradutorLinux

open List

universe u

variable {α : Type u} {filler : α}

theorem getElem?_takeD (n : ℕ) (l : List α) (i : ℕ) :
    (l.takeD n filler)[i]? = if i < n then some (l[i]?.getD filler) else none := by
  induction n generalizing l i with
  | zero => simp
  | succ n ih =>
    cases i with
    | zero => cases l <;> simp [List.takeD]
    | succ i => cases l <;> simp [List.takeD, getElem?_replicate, ih]

/-- A file and its cursor. -/
@[ext]
structure CursorFile (α : Type u) where
  contents : List α
  position : ℕ

namespace CursorFile

variable (filler) (f : CursorFile α)

/-- What a read of `n` elements gets; the cursor goes behind it. -/
def read (n : ℕ) : List α := (f.contents.drop f.position).take n

def write (input : List α) : CursorFile α where
  contents := f.contents.takeD f.position filler ++ input ++
    f.contents.drop (f.position + input.length)
  position := f.position + input.length

/-- The file is cut or filled up; the cursor does not stay behind its end. -/
def setSize (n : ℕ) : CursorFile α where
  contents := f.contents.takeD n filler
  position := min f.position n

variable {filler f}

theorem length_write (i : List α) : (f.write filler i).contents.length =
    max f.contents.length (f.position + i.length) := by
  simp only [write, length_append, takeD_length, length_drop]
  omega

/-- **A write fills the gap before it, and replaces exactly the elements it writes.** -/
theorem getElem?_write (ip : List α) (i : ℕ) : (f.write filler ip).contents[i]? =
    if i < f.position then some (f.contents[i]?.getD filler)
    else if i < f.position + ip.length then ip[i - f.position]?
    else f.contents[i]? := by
  have hg : (f.contents.takeD f.position filler).length = f.position := takeD_length ..
  show (_ ++ _ ++ _)[i]? = _
  split
  · next hi => rw [append_assoc, getElem?_append_left (by omega), getElem?_takeD, if_pos hi]
  next hi =>
  split
  · next hn =>
    rw [getElem?_append_left (by rw [length_append, hg]; exact hn),
      getElem?_append_right (by omega), hg]
  · next hn =>
    rw [getElem?_append_right (by rw [length_append, hg]; omega), length_append,
      hg, getElem?_drop, Nat.add_sub_cancel' (by omega)]

end CursorFile
end TradutorLinux
