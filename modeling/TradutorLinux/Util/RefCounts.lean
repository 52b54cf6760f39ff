import Mathlib.Data.UInt

/-!
# Objects with reference counts

A list of objects, each at an address and with a count of 32 bits.  A reference
is added to the object at an address, or taken away, and with the last one the
object is removed.

## Main definitions

* `retain`, `release` — a reference is added, or taken away.
* `refcountAt`

## Main results

* `refcountAt_retain`, `refcountAt_release`, `refcountAt_append` — **each operation
  changes the count at one address.**
-/

namespace TradutorLinux

open List

universe u

/-- An object with its address and its reference count. -/
structure Counted (ε : Type u) where
  address : ℕ
  value : ε
  refcount : UInt32 := 1

namespace Counted

variable {ε : Type u}

/-- The first object at the address gets a reference. -/
def retain : List (Counted ε) → ℕ → List (Counted ε)
  | [], _ => []
  | c :: rest, a =>
    if c.address = a then { c with refcount := c.refcount + 1 } :: rest else c :: retain rest a

/-- The first object at the address loses a reference, and is removed with the last one. -/
def release : List (Counted ε) → ℕ → List (Counted ε)
  | [], _ => []
  | c :: rest, a =>
    if c.address = a then
      if c.refcount - 1 = 0 then rest else { c with refcount := c.refcount - 1 } :: rest
    else c :: release rest a

/-- The count of the first object at the address. -/
def refcountAt (l : List (Counted ε)) (a : ℕ) : Option UInt32 :=
  (l.find? fun c => decide (c.address = a)).map refcount

def addresses (l : List (Counted ε)) : List ℕ := l.map address

variable {l : List (Counted ε)} {a b : ℕ}

theorem refcountAt_cons (c : Counted ε) :
    refcountAt (c :: l) a = if c.address = a then some c.refcount else refcountAt l a := by
  unfold refcountAt
  by_cases h : c.address = a <;> simp [h]

theorem refcountAt_eq_none_iff : refcountAt l a = none ↔ a ∉ addresses l := by
  unfold refcountAt addresses
  simp

theorem addresses_retain : addresses (retain l a) = addresses l := by
  induction l with
  | nil => rfl
  | cons c r ih =>
    rw [retain]
    split
    · rfl
    · exact congrArg (c.address :: ·) ih

theorem addresses_release_sublist : (addresses (release l a)).Sublist (addresses l) := by
  induction l with
  | nil => exact List.Sublist.refl []
  | cons c r ih =>
    rw [release]
    split
    · split
      · exact sublist_cons_self _ _
      · exact List.Sublist.refl _
    · exact ih.cons_cons _

/-- **A reference more at one address.** -/
theorem refcountAt_retain : refcountAt (retain l a) b =
      if a = b then (refcountAt l a).map (· + 1) else refcountAt l b := by
  induction l with
  | nil => split <;> rfl
  | cons c r ih =>
    rw [retain]
    by_cases hc : c.address = a
    · simp only [hc, if_true, refcountAt_cons]
      by_cases ha : a = b <;> simp [ha]
    simp only [hc, if_false, refcountAt_cons, ih]
    by_cases ha : a = b
    · subst ha
      simp [hc]
    · simp [ha]

/-- **A reference less at one address; at the last there is no object any more.** -/
theorem refcountAt_release (hn : (addresses l).Nodup) : refcountAt (release l a) b =
      if a = b then (refcountAt l a).bind fun n => if n - 1 = 0 then none else some (n - 1)
      else refcountAt l b := by
  induction l with
  | nil => split <;> rfl
  | cons c r ih =>
    obtain ⟨hnot, hr⟩ := nodup_cons.1 hn
    rw [release]
    by_cases hc : c.address = a
    · have hg : refcountAt r a = none := refcountAt_eq_none_iff.2 (hc ▸ hnot)
      simp only [hc, if_true, refcountAt_cons, Option.bind_some]
      by_cases ha : a = b
      · subst ha
        split <;> simp [refcountAt_cons, hg]
      · split <;> simp [refcountAt_cons, ha]
    · simp only [hc, if_false, refcountAt_cons, ih hr]
      by_cases ha : a = b
      · subst ha
        simp [hc]
      · simp [ha]

/-- A new object behind the others, at an address where there is none. -/
theorem refcountAt_append (c : Counted ε) (hf : refcountAt l c.address = none) :
    refcountAt (l ++ [c]) b = if c.address = b then some c.refcount else refcountAt l b := by
  induction l with
  | nil => exact refcountAt_cons c
  | cons d r ih =>
    rw [refcountAt_cons] at hf
    split at hf
    · cases hf
    next hn =>
    rw [cons_append, refcountAt_cons, refcountAt_cons, ih hf]
    by_cases hd : d.address = b
    · simp [hd, show ¬c.address = b by rintro rfl; exact hn hd]
    · simp [hd]

theorem release_of_none (h : refcountAt l a = none) : release l a = l := by
  induction l with
  | nil => rfl
  | cons c r ih =>
    rw [refcountAt_cons] at h
    split at h
    · cases h
    · next hn => rw [release, if_neg hn, ih h]

end Counted
end TradutorLinux
