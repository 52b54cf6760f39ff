import Mathlib.Logic.Function.Basic

/-!
# Blocks with one owner

Places hold blocks of a heap: a place holds one block or none, no block is held in
two places, and every live block is held somewhere.  A block is freed where it is
held, and a place that holds nothing may take a new block or that of another
place.

## Main definitions

* `Ownership`

## Main results

* `Ownership.acquire`, `Ownership.release`, `Ownership.transfer` — **the changes
  of hands that keep it.**
* `Ownership.nothing_live` — if no place holds anything, nothing is live.
-/

namespace TradutorLinux

open Function

universe u v w

variable {π : Type u} {α : Type v} {κ : Type w}

/-- Every place holds a live block of its kind, no two the same, and together they hold all of
them. -/
structure Ownership (own : π → Option (κ × α)) (live : α → Option κ) : Prop where
  sound : ∀ p k a, own p = some (k, a) → live a = some k
  unique : ∀ p q k l a, own p = some (k, a) → own q = some (l, a) → p = q
  complete : ∀ a k, live a = some k → ∃ p, own p = some (k, a)

namespace Ownership

variable {own : π → Option (κ × α)} {live : α → Option κ}

theorem empty : Ownership (fun _ : π => none) (fun _ : α => (none : Option κ)) :=
  ⟨nofun, nofun, nofun⟩

/-- No block is left behind. -/
theorem nothing_live (h : Ownership own live) (hn : ∀ p, own p = none) (a : α) : live a = none := by
  cases ha : live a with
  | none => rfl
  | some k =>
    obtain ⟨p, hp⟩ := h.complete a k ha
    rw [hn p] at hp
    cases hp

variable [DecidableEq π] [DecidableEq α]

theorem acquire (h : Ownership own live) {p : π} {a : α} (hp : own p = none) (ha : live a = none)
    (k : κ) : Ownership (update own p (some (k, a))) (update live a (some k)) := by
  have hf : ∀ q l, own q ≠ some (l, a) := by
    intro q l hq
    rw [h.sound q l a hq] at ha
    cases ha
  refine ⟨fun q l b hq => ?_, fun q r l m b hq hr => ?_, fun b l hb => ?_⟩
  · by_cases hqp : q = p
    · subst hqp
      rw [update_self] at hq
      cases hq
      rw [update_self]
    · rw [update_of_ne hqp] at hq
      have hba : b ≠ a := by
        rintro rfl
        exact hf q l hq
      rw [update_of_ne hba]
      exact h.sound q l b hq
  · by_cases hqp : q = p
    · by_cases hrp : r = p
      · rw [hqp, hrp]
      subst hqp
      rw [update_self] at hq
      rw [update_of_ne hrp] at hr
      cases hq
      exact absurd hr (hf r m)
    · rw [update_of_ne hqp] at hq
      by_cases hrp : r = p
      · subst hrp
        rw [update_self] at hr
        cases hr
        exact absurd hq (hf q l)
      · rw [update_of_ne hrp] at hr
        exact h.unique q r l m b hq hr
  · by_cases hba : b = a
    · subst hba
      rw [update_self] at hb
      cases hb
      exact ⟨p, update_self ..⟩
    · rw [update_of_ne hba] at hb
      obtain ⟨q, hq⟩ := h.complete b l hb
      have hqp : q ≠ p := by
        rintro rfl
        rw [hp] at hq
        cases hq
      exact ⟨q, by rw [update_of_ne hqp, hq]⟩

/-- A block is freed where it is held. -/
theorem release (h : Ownership own live) {p : π} {k : κ} {a : α} (hp : own p = some (k, a)) :
    Ownership (update own p none) (update live a none) := by
  refine ⟨fun q l b hq => ?_, fun q r l m b hq hr => ?_, fun b l hb => ?_⟩
  · by_cases hqp : q = p
    · rw [hqp, update_self] at hq
      cases hq
    rw [update_of_ne hqp] at hq
    have ha : b ≠ a := by
      rintro rfl
      exact hqp (h.unique q p l k b hq hp)
    rw [update_of_ne ha]
    exact h.sound q l b hq
  · by_cases hqp : q = p
    · rw [hqp, update_self] at hq
      cases hq
    by_cases hrp : r = p
    · rw [hrp, update_self] at hr
      cases hr
    · rw [update_of_ne hqp] at hq
      rw [update_of_ne hrp] at hr
      exact h.unique q r l m b hq hr
  · by_cases ha : b = a
    · rw [ha, update_self] at hb
      cases hb
    rw [update_of_ne ha] at hb
    obtain ⟨q, hq⟩ := h.complete b l hb
    have hqp : q ≠ p := by
      rintro rfl
      rw [hp] at hq
      cases hq
      exact ha rfl
    exact ⟨q, by rw [update_of_ne hqp, hq]⟩

theorem transfer (h : Ownership own live) {p q : π} {x : κ × α} (hp : own p = some x)
    (hq : own q = none) : Ownership (update (update own p none) q (some x)) live := by
  obtain ⟨k, a⟩ := x
  have hs := h.sound p k a hp
  have hr := h.release hp
  have hn : update own p none q = none := by
    by_cases hqp : q = p
    · rw [hqp, update_self]
    · rw [update_of_ne hqp, hq]
  have ha := hr.acquire hn (update_self ..) k
  have hl : update (update live a none) a (some k) = live := by
    rw [update_idem, ← hs, update_eq_self]
  rwa [hl] at ha

end Ownership
end TradutorLinux
