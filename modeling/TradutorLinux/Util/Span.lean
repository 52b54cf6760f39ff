import Mathlib.Data.List.Pairwise
import Mathlib.Tactic.Common

/-!
# Spans of addresses

Half-open intervals given by a base and a size, spans that do not meet, and
lists of spans that tile an interval without a gap.

## Main definitions

* `Span.Has`, `Span.Within`, `Span.Apart`.
* `Tiles lo hi l` — the spans of `l` follow one another from `lo` to `hi`, and
  none of them is empty.

## Main results

* `Tiles.exists_has` — **every address of a tiled interval is in one of the
  tiles**, and `Tiles.pairwise_apart`: in no other.
* `Tiles.append` — tilings may be joined.
-/

namespace TradutorLinux

/-- The addresses from `base` on, `size` of them. -/
structure Span where
  base : ℕ
  size : ℕ
deriving DecidableEq, Repr

namespace Span

def stop (s : Span) : ℕ := s.base + s.size

def Has (s : Span) (a : ℕ) : Prop := s.base ≤ a ∧ a < s.stop

def Within (s t : Span) : Prop := t.base ≤ s.base ∧ s.stop ≤ t.stop

/-- One of the spans ends before the other begins. -/
def Apart (s t : Span) : Prop := s.stop ≤ t.base ∨ t.stop ≤ s.base

instance (s : Span) (a : ℕ) : Decidable (s.Has a) := inferInstanceAs (Decidable (_ ∧ _))
instance (s t : Span) : Decidable (s.Apart t) := inferInstanceAs (Decidable (_ ∨ _))

variable {s t : Span} {a : ℕ}

@[simp] theorem stop_mk (b size : ℕ) : (Span.mk b size).stop = b + size := rfl

theorem Apart.symm (h : s.Apart t) : t.Apart s := Or.symm h

instance : Std.Symm Apart := ⟨fun _ _ => Apart.symm⟩

theorem Apart.not_has (h : s.Apart t) (hs : s.Has a) : ¬ t.Has a := by
  rintro ⟨hl, hh⟩
  rcases h with h | h
  · exact absurd (Nat.lt_of_lt_of_le hs.2 h) (Nat.not_lt.2 hl)
  · exact absurd (Nat.lt_of_lt_of_le hh h) (Nat.not_lt.2 hs.1)

theorem apart_of_not_has (hs : 0 < s.size) (ht : 0 < t.size)
    (h : ∀ a, s.Has a → ¬ t.Has a) : s.Apart t := by
  unfold Apart Has stop at *
  by_contra hm
  rcases Nat.le_total s.base t.base with hl | hl
  · exact h t.base ⟨hl, by omega⟩ ⟨Nat.le_refl _, by omega⟩
  · exact h s.base ⟨Nat.le_refl _, by omega⟩ ⟨hl, by omega⟩

theorem Apart.base_ne (h : s.Apart t) (hs : 0 < s.size) (ht : 0 < t.size) : s.base ≠ t.base := by
  intro heq
  unfold Apart stop at h
  omega

end Span

/-! ### Tilings -/

/-- The spans of `l` follow one another from `lo` to `hi`, none of them empty. -/
def Tiles : ℕ → ℕ → List Span → Prop
  | lo, hi, [] => lo = hi
  | lo, hi, s :: l => s.base = lo ∧ 0 < s.size ∧ Tiles s.stop hi l

namespace Tiles

variable {lo mid hi a : ℕ} {l l' : List Span} {s : Span}

@[simp] theorem nil_iff : Tiles lo hi [] ↔ lo = hi := Iff.rfl

@[simp] theorem cons_iff :
    Tiles lo hi (s :: l) ↔ s.base = lo ∧ 0 < s.size ∧ Tiles s.stop hi l := Iff.rfl

theorem single (h : lo < hi) : Tiles lo hi [⟨lo, hi - lo⟩] := by
  rw [cons_iff, nil_iff, Span.stop_mk]
  exact ⟨rfl, by dsimp only; omega, by omega⟩

theorem le (h : Tiles lo hi l) : lo ≤ hi := by
  induction l generalizing lo with
  | nil => exact Nat.le_of_eq h
  | cons s l ih =>
    obtain ⟨rfl, -, hr⟩ := h
    exact Nat.le_trans (Nat.le_add_right _ _) (ih hr)

theorem append (h : Tiles lo mid l) (h' : Tiles mid hi l') : Tiles lo hi (l ++ l') := by
  induction l generalizing lo with
  | nil =>
    obtain rfl : lo = mid := h
    exact h'
  | cons s l ih => exact ⟨h.1, h.2.1, ih h.2.2⟩

theorem bounds (h : Tiles lo hi l) (hs : s ∈ l) : lo ≤ s.base ∧ s.stop ≤ hi ∧ 0 < s.size := by
  induction l generalizing lo with
  | nil => cases hs
  | cons t l ih =>
    obtain ⟨rfl, hp, hr⟩ := h
    rcases List.mem_cons.1 hs with rfl | hs
    · exact ⟨Nat.le_refl _, hr.le, hp⟩
    · obtain ⟨hl, hh, hsi⟩ := ih hr hs
      exact ⟨Nat.le_trans (Nat.le_add_right _ _) hl, hh, hsi⟩

/-- **Every address of a tiled interval is in one of the tiles.** -/
theorem exists_has (h : Tiles lo hi l) (hl : lo ≤ a) (hhi : a < hi) : ∃ s ∈ l, s.Has a := by
  induction l generalizing lo with
  | nil =>
    obtain rfl : lo = hi := h
    omega
  | cons s l ih =>
    obtain ⟨rfl, hp, hr⟩ := h
    by_cases ha : a < s.stop
    · exact ⟨s, List.mem_cons_self, hl, ha⟩
    · obtain ⟨t, ht, hh⟩ := ih hr (Nat.not_lt.1 ha)
      exact ⟨t, List.mem_cons_of_mem _ ht, hh⟩

theorem pairwise_apart (h : Tiles lo hi l) : l.Pairwise Span.Apart := by
  induction l generalizing lo with
  | nil => exact List.Pairwise.nil
  | cons s l ih =>
    obtain ⟨-, -, hr⟩ := h
    exact List.Pairwise.cons (fun t ht => .inl (hr.bounds ht).1) (ih hr)

end Tiles
end TradutorLinux
