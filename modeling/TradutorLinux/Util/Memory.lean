import TradutorLinux.Util.Bytes

/-!
# Mapped memory

A private mapping: its bytes and the protection of its pages, by the offset
from its start.  Offsets are the RVAs of an image.

## Main definitions

* `Memory.copy`, `Memory.fill` — `memcpy` and `memset` into the mapping.
* `Memory.protect` — `mprotect` of the pages that begin in a range.
* `Memory.readLE` — a little-endian word of the mapping.

## Main results

* `byte_copy`, `byte_fill` — which bytes change, and to what.
* `bytes_copy_of_disjoint` — what lies outside the copied range keeps its value.
-/

namespace TradutorLinux

open List

/-- What `mprotect` grants. -/
structure Prot where
  read : Bool
  write : Bool
  exec : Bool
deriving DecidableEq, Repr

namespace Prot

def none : Prot := ⟨false, false, false⟩
def readOnly : Prot := ⟨true, false, false⟩
def readWrite : Prot := ⟨true, true, false⟩
def readExec : Prot := ⟨true, false, true⟩
def readWriteExec : Prot := ⟨true, true, true⟩

end Prot

/-- A mapping of `size` bytes; `prot` is indexed by page number. -/
structure Memory where
  size : ℕ
  byte : ℕ → UInt8
  prot : ℕ → Prot

namespace Memory

variable {m : Memory}

/-- A fresh anonymous mapping. -/
def zeroed (size : ℕ) : Memory := ⟨size, fun _ => 0, fun _ => Prot.readWrite⟩

/-- The `len` bytes from `off` on. -/
def bytes (m : Memory) (off len : ℕ) : ByteString := (List.range' off len).map m.byte

/-- `memcpy` of `src` to `off`. -/
def copy (m : Memory) (off : ℕ) (src : ByteString) : Memory :=
  { m with byte := fun a =>
      if off ≤ a ∧ a < off + src.length then src.getD (a - off) 0 else m.byte a }

/-- `memset` of `len` bytes from `off` on to zero. -/
def fill (m : Memory) (off len : ℕ) : Memory :=
  { m with byte := fun a => if off ≤ a ∧ a < off + len then 0 else m.byte a }

/-- `mprotect` of the pages that begin in `[start, start + len)`; `start` is
the beginning of one. -/
def protect (m : Memory) (page start len : ℕ) (prot : Prot) : Memory :=
  { m with prot := fun n =>
      if start ≤ n * page ∧ n * page < start + len then prot else m.prot n }

/-- The word of width `w` at `off`; nothing when it is not wholly mapped. -/
def readLE (m : Memory) (off w : ℕ) : Option ℕ :=
  if inRange m.size off w then some (ofLE (m.bytes off w)) else none

/-! ### Bytes -/

@[simp] theorem length_bytes (m : Memory) (o len : ℕ) : (m.bytes o len).length = len := by
  simp [bytes]

theorem getElem?_bytes (m : Memory) (o l i : ℕ) :
    (m.bytes o l)[i]? = if i < l then some (m.byte (o + i)) else none := by
  by_cases hi : i < l
  · simp [bytes, hi]
  · simp [bytes, hi]

theorem bytes_congr {m m' : Memory} {o len : ℕ}
    (h : ∀ a, o ≤ a → a < o + len → m.byte a = m'.byte a) : m.bytes o len = m'.bytes o len := by
  refine map_congr_left fun a ha => ?_
  rw [mem_range'_1] at ha
  exact h a ha.1 ha.2

@[simp] theorem prot_copy (o : ℕ) (s : ByteString) : (m.copy o s).prot = m.prot := rfl

theorem byte_copy (m : Memory) (o : ℕ) (s : ByteString) (a : ℕ) : (m.copy o s).byte a =
      if o ≤ a ∧ a < o + s.length then s.getD (a - o) 0 else m.byte a := rfl

theorem byte_fill (m : Memory) (o l a : ℕ) :
    (m.fill o l).byte a = if o ≤ a ∧ a < o + l then 0 else m.byte a := rfl

theorem bytes_copy_self (m : Memory) (o : ℕ) (src : ByteString) :
    (m.copy o src).bytes o src.length = src := by
  apply ext_getElem?
  intro i
  rw [getElem?_bytes, byte_copy]
  by_cases hi : i < src.length
  · rw [if_pos hi, if_pos (by omega), Nat.add_sub_cancel_left, getD_eq_getElem?_getD,
      getElem?_eq_getElem hi, Option.getD_some]
  · rw [if_neg hi, getElem?_eq_none (not_lt.1 hi)]

theorem bytes_copy_of_disjoint {o len a : ℕ} {s : ByteString}
    (h : o + s.length ≤ a ∨ a + len ≤ o) : (m.copy o s).bytes a len = m.bytes a len := by
  refine bytes_congr fun b he hl => ?_
  rw [byte_copy, if_neg (by omega)]

theorem bytes_copy_take {o l k : ℕ} {src : ByteString} (h : m.bytes o l = src) :
    (m.copy o (src.take k)).bytes o l = src := by
  subst h
  refine bytes_congr fun b hl ht => ?_
  rw [byte_copy]
  split
  · next hb =>
    have hk : b - o < k := by
      have he := length_take_le k (m.bytes o l)
      omega
    rw [getD_eq_getElem?_getD, getElem?_take_of_lt hk, getElem?_bytes,
      if_pos (by omega), Option.getD_some, Nat.add_sub_cancel' hl]
  · rfl

end Memory
end TradutorLinux
