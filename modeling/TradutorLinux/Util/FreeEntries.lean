import Mathlib.Data.List.Basic

/-!
# Tables that give out their lowest free entry

A table is a list of entries, each free or with a value; behind its end
everything is free.  An insertion takes the lowest free entry, as a kernel does
with its descriptors.

## Main definitions

* `Entries.entry`, `Entries.lowestFree`, `Entries.insert`, `Entries.erase`.

## Main results

* `Entries.entry_insert`, `Entries.entry_erase` — **what the two changes do to every
  entry.**
* `Entries.entry_lowestFree` — the entry an insertion takes was free.
-/

namespace TradutorLinux

open List

universe u

/-- A table: the values of the entries in use. -/
structure Entries (α : Type u) where
  entries : List (Option α)
deriving DecidableEq

namespace Entries

variable {α : Type u} {t : Entries α} {n k : ℕ} {a x : α}

def entry (t : Entries α) (n : ℕ) : Option α := t.entries[n]?.join

/-- The first entry that is free. -/
def lowestFree (t : Entries α) : ℕ := t.entries.findIdx Option.isNone

/-- The lowest free entry gets a value. -/
def insert (t : Entries α) (a : α) : Entries α :=
  if t.lowestFree < t.entries.length then ⟨t.entries.set t.lowestFree (some a)⟩
  else ⟨t.entries ++ [some a]⟩

/-- An entry becomes free. -/
def erase (t : Entries α) (n : ℕ) : Entries α := ⟨t.entries.set n none⟩

theorem lowestFree_le : t.lowestFree ≤ t.entries.length := findIdx_le_length

theorem entry_lowestFree : t.entry t.lowestFree = none := by
  unfold entry
  by_cases h : t.lowestFree < t.entries.length
  · have hn := findIdx_getElem (w := h)
    rw [getElem?_eq_getElem h]
    exact Option.isNone_iff_eq_none.1 hn
  · rw [getElem?_eq_none (by omega)]
    rfl

theorem entry_insert : (t.insert a).entry n = if n = t.lowestFree then some a else t.entry n := by
  unfold entry insert
  have he := lowestFree_le (t := t)
  split
  · next h =>
    by_cases hn : t.lowestFree = n
    · subst hn
      simp [h]
    · simp [hn, Ne.symm hn]
  · next h =>
    have hl : t.lowestFree = t.entries.length := by omega
    rw [hl]
    rcases Nat.lt_trichotomy n t.entries.length with hn | hn | hn
    · rw [getElem?_append_left hn]
      simp [Nat.ne_of_lt hn]
    · subst hn
      simp
    · rw [getElem?_eq_none (by simp; omega), getElem?_eq_none (by omega)]
      simp [Nat.ne_of_gt hn]

theorem entry_erase : (t.erase k).entry n = if n = k then none else t.entry n := by
  unfold entry erase
  by_cases hk : k = n
  · subst hk
    by_cases hl : k < t.entries.length <;> simp [hl]
  · simp [hk, Ne.symm hk]

theorem entry_of_erase (h : (t.erase k).entry n = some x) : n ≠ k ∧ t.entry n = some x := by
  rw [entry_erase] at h
  split at h
  · cases h
  · next hn => exact ⟨hn, h⟩

end Entries
end TradutorLinux
