import Mathlib.Algebra.BigOperators.Intervals
import Mathlib.Tactic.Ring

/-!
# The sizes of strings and arrays

A string is one block: four bytes with its length in bytes, the bytes, and a zero unit.
An array is a descriptor with its bounds and a block of 8 bytes for each element.

## Main definitions

* `Bstr`, `SafeArray` — the sizes of the blocks, and the numbers that they hold.
* `AllocCall` — a call that makes one of them.
* `AllocCall.Fits` — the blocks hold what the call and the readers address, and the
  readers give back what was asked for.

## Main results

* `allocCall_fits_iff`
-/

namespace TradutorLinux

open Option

/-! ### Strings -/

/-- A string: the size of its block, the length in front, and where the zero unit goes. -/
structure Bstr where
  size : ℕ
  byteLen : BitVec 32
  terminator : ℕ

namespace Bstr

/-- The block of a string, null where `malloc` has none. -/
def alloc (malloc : Bool) (byte_len : BitVec 32) (terminator : ℕ) : Option Bstr :=
  let total_size := 4 + byte_len.toNat + 2
  if malloc = true then some ⟨total_size, byte_len, terminator⟩ else none

/-- `tl_SysAllocStringLen`. -/
def sysAllocStringLen (malloc : Bool) (len : BitVec 32) : Option Bstr :=
  alloc malloc (len * 2#32) (4 + len.toNat * 2)

/-- `tl_SysAllocString`; `char_len` are the units up to the terminator, `none` is null. -/
def sysAllocString (malloc : Bool) (sz : Option ℕ) : Option Bstr :=
  match sz with
  | none => none
  | some char_len => alloc malloc (BitVec.ofNat 32 (char_len * 2)) (4 + char_len * 2)

/-- `tl_SysAllocStringByteLen`. -/
def sysAllocStringByteLen (malloc : Bool) (len : BitVec 32) : Option Bstr :=
  alloc malloc len (4 + len.toNat)

variable (b : Bstr)

/-- `tl_SysStringLen`. -/
def sysStringLen : BitVec 32 := b.byteLen / 2#32

/-- `tl_SysStringByteLen`. -/
def sysStringByteLen : BitVec 32 := b.byteLen

/-- The block holds `bytes` bytes between length and terminator, the readers say so. -/
structure Fits (bytes : ℕ) : Prop where
  size : 4 + bytes + 2 ≤ b.size
  terminator : b.terminator + 2 ≤ b.size
  byteLen : b.sysStringByteLen.toNat = bytes
  len : b.sysStringLen.toNat = bytes / 2

variable {b}

theorem fits_iff {malloc : Bool} {v : BitVec 32} {n : ℕ} :
    (∀ b ∈ alloc malloc v (4 + n), b.Fits n) ↔ (malloc → v.toNat = n) := by
  cases malloc with
  | false => simp [alloc]
  | true =>
    simp only [alloc, if_true, mem_some_iff, forall_eq', forall_const]
    constructor
    · intro h
      exact h.byteLen
    · intro h
      refine ⟨by simp [h], by simp [h], h, ?_⟩
      simp [sysStringLen, BitVec.toNat_udiv, h]

end Bstr

/-! ### Arrays -/

/-- `GuestSafeArrayBound`. -/
structure SafeArrayBound where
  cElements : BitVec 32
  lLbound : BitVec 32

/-- The last index of a dimension, as a number that cannot wrap. -/
def SafeArrayBound.upper (b : SafeArrayBound) : ℤ := b.lLbound.toInt + b.cElements.toNat - 1

/-- `GuestSafeArray`, with the size of its block; `pvData` is the size of the block of the
elements. -/
structure SafeArray where
  size : ℕ
  cDims : BitVec 16
  cbElements : BitVec 32
  pvData : Option ℕ
  rgsabound : ℕ → SafeArrayBound

namespace SafeArray

/-- The loop over the dimensions, in 64 bits. -/
def totalElements (rgsabound : ℕ → SafeArrayBound) : ℕ → BitVec 64
  | 0 => 1
  | i + 1 => totalElements rgsabound i * (rgsabound i).cElements.setWidth 64

/-- `tl_SafeArrayCreate`; `calloc` tells which of the two allocations succeed. -/
def safeArrayCreate (calloc : Bool × Bool) (cDims : BitVec 32)
    (rgsabound : Option (ℕ → SafeArrayBound)) : Option SafeArray :=
  match rgsabound with
  | none => none
  | some rgsabound =>
    if cDims = 0 then none
    else
      let data_size := (totalElements rgsabound cDims.toNat * 8#64).toNat
      if calloc.1 = true then
        some {
          size := 32 + if 1 < cDims.toNat then (cDims.toNat - 1) * 8 else 0
          cDims := cDims.setWidth 16
          cbElements := 8
          pvData := if calloc.2 = true then some (if 0 < data_size then data_size else 8) else none
          rgsabound }
      else none

/-- `tl_SafeArrayCreateVector`. -/
def safeArrayCreateVector (calloc : Bool × Bool) (lLbound cElements : BitVec 32) :
    Option SafeArray :=
  safeArrayCreate calloc 1 (some fun _ => ⟨cElements, lLbound⟩)

variable (psa : SafeArray)

/-- `tl_SafeArrayGetDim`. -/
def getDim : ℕ := psa.cDims.toNat

/-- `tl_SafeArrayGetUBound`; `none` is the error for a dimension that there is not.  The sum of
the source is signed; where it overflows, which is undefined there, it wraps around here. -/
def getUBound (nDim : ℕ) : Option (BitVec 32) :=
  if nDim = 0 ∨ psa.cDims.toNat < nDim then none
  else
    let bound := psa.rgsabound (nDim - 1)
    some (bound.lLbound + bound.cElements - 1#32)

/-- `tl_SafeArrayGetLBound`. -/
def getLBound (nDim : ℕ) : Option (BitVec 32) :=
  if nDim = 0 ∨ psa.cDims.toNat < nDim then none else some (psa.rgsabound (nDim - 1)).lLbound

def dataBytes (bounds : ℕ → SafeArrayBound) (n : ℕ) : ℕ :=
  8 * ∏ i ∈ Finset.range n, (bounds i).cElements.toNat

/-- The descriptor holds its bounds, the other block the elements of `n` dimensions, and
the readers give back the dimensions and the bounds. -/
structure Fits (n : ℕ) (bounds : ℕ → SafeArrayBound) : Prop where
  descriptor : 24 + n * 8 ≤ psa.size
  data : dataBytes bounds n ≤ psa.pvData.getD 0
  dim : psa.getDim = n
  lower : ∀ i < n, (psa.getLBound (i + 1)).map BitVec.toInt = some (bounds i).lLbound.toInt
  upper : ∀ i < n, (psa.getUBound (i + 1)).map BitVec.toInt = some (bounds i).upper

theorem toNat_totalElements (bounds : ℕ → SafeArrayBound) (n : ℕ) :
    (totalElements bounds n).toNat
      = (∏ i ∈ Finset.range n, (bounds i).cElements.toNat) % 2 ^ 64 := by
  induction n with
  | zero => simp [totalElements]
  | succ n ih =>
    rw [totalElements, BitVec.toNat_mul, ih, Finset.prod_range_succ, BitVec.toNat_setWidth]
    simp [Nat.mul_mod]

theorem toInt_upper (b : SafeArrayBound) :
    (b.lLbound + b.cElements - 1#32).toInt = b.upper
      ↔ -2 ^ 31 ≤ b.upper ∧ b.upper < 2 ^ 31 := by
  simp only [SafeArrayBound.upper, BitVec.toInt_eq_toNat_cond, BitVec.toNat_add,
    BitVec.toNat_sub, BitVec.toNat_ofNat]
  omega

theorem toNat_data_size (bounds : ℕ → SafeArrayBound) (n : ℕ) :
    (totalElements bounds n * 8#64).toNat = dataBytes bounds n % 2 ^ 64 := by
  rw [BitVec.toNat_mul, toNat_totalElements, dataBytes, BitVec.toNat_ofNat]
  omega

theorem data_iff (calloc : Bool) (p : ℕ) :
    p ≤ (if calloc then
        some (if 0 < p % 2 ^ 64 then p % 2 ^ 64 else 8) else none).getD 0
      ↔ p = 0 ∨ calloc ∧ p < 2 ^ 64 := by
  cases calloc with
  | false => simp
  | true =>
    simp only [if_true, getD_some, true_and]
    split_ifs <;> omega

/-- The dimensions have 16 bits, the bytes of the elements 64 and the last indices 32; and
the block of the elements is there. -/
def Bounded (calloc : Bool × Bool) (n : ℕ) (bounds : ℕ → SafeArrayBound) : Prop :=
  calloc.1 = true → n < 2 ^ 16
    ∧ (dataBytes bounds n = 0 ∨ calloc.2 = true ∧ dataBytes bounds n < 2 ^ 64)
    ∧ ∀ i < n, -2 ^ 31 ≤ (bounds i).upper ∧ (bounds i).upper < 2 ^ 31

theorem upper_iff {a : SafeArray} {i : ℕ} (hi : i < a.cDims.toNat) :
    (a.getUBound (i + 1)).map BitVec.toInt = some (a.rgsabound i).upper
      ↔ -2 ^ 31 ≤ (a.rgsabound i).upper ∧ (a.rgsabound i).upper < 2 ^ 31 := by
  have hn : ¬a.cDims.toNat < i + 1 := by omega
  rw [← toInt_upper, getUBound, if_neg (by simp [hn])]
  simp

theorem fits_iff (calloc : Bool × Bool) (n : BitVec 32) (bounds : ℕ → SafeArrayBound) :
    (∀ a ∈ safeArrayCreate calloc n (some bounds), a.Fits n.toNat bounds)
      ↔ (n ≠ 0 → Bounded calloc n.toNat bounds) := by
  by_cases h0 : n = 0
  · simp [safeArrayCreate, h0]
  by_cases hc : calloc.1
  swap
  · simp [safeArrayCreate, Bounded, hc]
  simp only [safeArrayCreate, Bounded, h0, hc, if_true, if_false, mem_some_iff,
    forall_eq', not_false_eq_true, ne_eq, forall_const, toNat_data_size]
  rw [← data_iff]
  have hw : (n.setWidth 16).toNat = n.toNat ↔ n.toNat < 2 ^ 16 := by
    rw [BitVec.toNat_setWidth]
    omega
  constructor
  · intro h
    have hd := hw.1 h.dim
    refine ⟨hd, h.data, ?_⟩
    intro i hi
    exact (upper_iff (hi.trans_eq (hw.2 hd).symm)).1 (h.upper i hi)
  · rintro ⟨hd, h, hu⟩
    refine ⟨?_, h, hw.2 hd, ?_, ?_⟩
    · simp only
      split_ifs <;> omega
    · intro i hi
      simp [getLBound, hw.2 hd, Nat.not_lt.2 hi]
    · intro i hi
      exact (upper_iff (hi.trans_eq (hw.2 hd).symm)).2 (hu i hi)

end SafeArray

/-! ### Calls -/

/-- A call, with the answers of the heap. -/
inductive AllocCall
  | sysAllocString (malloc : Bool) (sz : Option ℕ)
  | sysAllocStringLen (malloc : Bool) (len : BitVec 32)
  | sysAllocStringByteLen (malloc : Bool) (len : BitVec 32)
  | safeArrayCreate (calloc : Bool × Bool) (cDims : BitVec 32)
      (rgsabound : Option (ℕ → SafeArrayBound))
  | safeArrayCreateVector (calloc : Bool × Bool) (lLbound cElements : BitVec 32)

namespace AllocCall

open SafeArray (Bounded)

/-- The call returns null, or what it allocates fits what was asked for. -/
def Fits : AllocCall → Prop
  | sysAllocString m sz => ∀ b ∈ Bstr.sysAllocString m sz, b.Fits (sz.getD 0 * 2)
  | sysAllocStringLen m len => ∀ b ∈ Bstr.sysAllocStringLen m len, b.Fits (len.toNat * 2)
  | sysAllocStringByteLen m len => ∀ b ∈ Bstr.sysAllocStringByteLen m len, b.Fits len.toNat
  | safeArrayCreate c n bounds =>
    ∀ f ∈ bounds, ∀ a ∈ SafeArray.safeArrayCreate c n bounds, a.Fits n.toNat f
  | safeArrayCreateVector c l n =>
    ∀ a ∈ SafeArray.safeArrayCreateVector c l n, a.Fits 1 fun _ => ⟨n, l⟩

/-- No number of the call wraps, and an array gets the block of its elements. -/
def InRange : AllocCall → Prop
  | sysAllocString m sz => ∀ n ∈ sz, m = true → n < 2 ^ 31
  | sysAllocStringLen m len => m = true → len.toNat < 2 ^ 31
  | sysAllocStringByteLen _ _ => True
  | safeArrayCreate c n bounds => ∀ f ∈ bounds, n ≠ 0 → Bounded c n.toNat f
  | safeArrayCreateVector c l n => Bounded c 1 fun _ => ⟨n, l⟩

/-- **The blocks fit exactly when nothing wraps.** -/
theorem allocCall_fits_iff (c : AllocCall) : c.Fits ↔ c.InRange := by
  cases c with
  | sysAllocString m sz =>
    cases sz with
    | none => simp [Fits, InRange, Bstr.sysAllocString]
    | some n =>
      simp only [Fits, InRange, Bstr.sysAllocString, getD_some, Bstr.fits_iff,
        mem_some_iff, forall_eq', BitVec.toNat_ofNat]
      apply forall_congr'
      intro
      omega
  | sysAllocStringLen m len =>
    simp only [Fits, InRange, Bstr.sysAllocStringLen, Bstr.fits_iff, BitVec.toNat_mul,
      BitVec.toNat_ofNat]
    apply forall_congr'
    intro
    omega
  | sysAllocStringByteLen m len =>
    simp only [Fits, InRange, Bstr.sysAllocStringByteLen, Bstr.fits_iff, implies_true]
  | safeArrayCreate c n bounds =>
    apply forall₂_congr
    rintro f rfl
    exact SafeArray.fits_iff c n f
  | safeArrayCreateVector c l n =>
    refine (SafeArray.fits_iff c 1 fun _ => ⟨n, l⟩).trans ?_
    simp [InRange]

/-- **A string of `2 ^ 31` units gets a block of six bytes.** -/
theorem not_allocCall_fits : ¬∀ c : AllocCall, c.Fits := by
  intro h
  have hs := (h (sysAllocStringLen true 0x80000000#32) _ rfl).size
  simp at hs

end AllocCall

end TradutorLinux
