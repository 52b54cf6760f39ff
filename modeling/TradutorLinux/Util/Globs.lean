import Mathlib.Data.List.Forall2

/-!
# Patterns with stars

A pattern is a list whose elements take one element of a word each, except for
the stars, which take any number of them.  A star may also be an element that
takes one; an eager match then lets it take that one and no other.

## Main definitions

* `Glob.Matches` — what a pattern means.
* `Glob.Eager` — the matches in which an element takes what it can take.

## Main results

* `Glob.matches_of_eager`, `Glob.eager_iff` — eager matches are matches, and all of them where no
  star can take an element as such.
* `Glob.eager_behind` — **the last star decides**: elements that took one each cannot do better.
-/

namespace TradutorLinux

open List

/-- Which elements of a pattern are stars, and what an element takes. -/
structure Glob (α : Type) where
  star : α → Bool
  takes : α → α → Bool

namespace Glob

variable {α : Type} {g : Glob α} {p seg u n : List α}

/-- The word matches the pattern. -/
def Matches (g : Glob α) : List α → List α → Prop
  | [], n => n = []
  | a :: p, n =>
    if g.star a then ∃ k, g.Matches p (n.drop k)
    else ∃ c rest, n = c :: rest ∧ g.takes a c = true ∧ g.Matches p rest

/-- The word matches, and an element that can take the next one does so. -/
def Eager (g : Glob α) : List α → List α → Prop
  | [], n => n = []
  | a :: p, [] => g.star a = true ∧ g.Eager p []
  | a :: p, c :: n =>
    if g.takes a c then g.Eager p n else g.star a = true ∧ ∃ k, g.Eager p ((c :: n).drop k)

theorem matches_of_eager (h : g.Eager p n) : g.Matches p n := by
  induction p generalizing n with
  | nil => cases n <;> exact h
  | cons a p ih =>
    cases n with
    | nil =>
      rw [Matches, if_pos h.1]
      exact ⟨0, ih h.2⟩
    | cons c n =>
      rw [Eager] at h
      rw [Matches]
      split at h
      · next ht =>
        split
        · exact ⟨1, ih h⟩
        · exact ⟨c, n, rfl, ht, ih h⟩
      · obtain ⟨hs, k, hk⟩ := h
        rw [if_pos hs]
        exact ⟨k, ih hk⟩

theorem eager_iff (hn : ∀ a ∈ p, g.star a → ∀ c ∈ n, g.takes a c = false) :
    g.Eager p n ↔ g.Matches p n := by
  refine ⟨matches_of_eager, fun h => ?_⟩
  induction p generalizing n with
  | nil => cases n <;> exact h
  | cons a p ih =>
    have hr : ∀ {k : ℕ}, g.Matches p (n.drop k) → g.Eager p (n.drop k) := fun {k} =>
      ih fun b hb hs c hc => hn b (mem_cons_of_mem a hb) hs c (mem_of_mem_drop hc)
    rw [Matches] at h
    split at h
    · next hs =>
      obtain ⟨k, hk⟩ := h
      cases n with
      | nil => exact ⟨hs, by simpa using hr hk⟩
      | cons c n =>
        rw [Eager, hn a mem_cons_self hs c mem_cons_self, if_neg Bool.false_ne_true]
        exact ⟨hs, k, hr hk⟩
    · obtain ⟨c, r, rfl, ht, hm⟩ := h
      rw [Eager, if_pos ht]
      exact hr (k := 1) hm

/-- What an element leaves to the pattern behind it. -/
theorem eager_star {a : α} (h : g.Eager (a :: p) n) : ∃ k, g.Eager p (n.drop k) := by
  cases n with
  | nil => exact ⟨0, h.2⟩
  | cons c n =>
    rw [Eager] at h
    split at h
    · exact ⟨1, h⟩
    · exact h.2

/-- **The last star decides.**  When the elements of `seg` took one element each, a match of the
whole from anywhere behind leaves no more to the rest of the pattern. -/
theorem eager_behind (ht : List.Forall₂ (fun a c => g.takes a c) seg u) {k : ℕ}
    (h : g.Eager (seg ++ p) ((u ++ n).drop k)) : ∃ j, g.Eager p (n.drop j) := by
  induction ht generalizing k with
  | nil => exact ⟨k, h⟩
  | @cons a c seg u ha _ ih =>
    cases k with
    | zero =>
      -- nothing has been skipped, so the element takes what it took
      rw [cons_append, cons_append, drop_zero, Eager, if_pos ha] at h
      exact ih (k := 0) h
    | succ k =>
      rw [cons_append, cons_append, drop_succ_cons] at h
      obtain ⟨j, hj⟩ := eager_star h
      rw [drop_drop] at hj
      exact ih hj

end Glob
end TradutorLinux
