import Mathlib.Data.Finset.Basic
import TradutorLinux.Util.Runs

/-!
# What the calls under way hold

Every resource is in nobody's hands, in those of the callers, or held by one call
that is under way, in some way that the call's arguments and place determine.

## Main definitions

* `Exact`

## Main results

* `Exact.start_one`, `Exact.move_one` — **a call that begins or goes on changes the
  holder of what it takes or gives, and leaves the others.**
* `Exact.unheld` — what is held once no call is under way.
* `Lists.insert`, `Lists.erase`, `Lists.keep` — what happens to a table when a
  resource changes hands.
-/

namespace TradutorLinux

open Function Pool

universe u v w t

variable {ρ : Type u} {μ : Type v} {κ : Type w} {φ : Type t}

/-- Who has a resource. -/
inductive Holder (μ : Type v)
  | nobody
  | callers
  | call (i : ℕ) (m : μ)
deriving DecidableEq

/-- The calls hold exactly what the map says; `holds` tells what a call holds of a resource. -/
def Exact (holds : κ → φ → ρ → Option μ) (p : Pool κ φ) (holder : ρ → Holder μ) : Prop :=
  ∀ a i m, holder a = .call i m ↔ ∃ k x, p.At i k x ∧ holds k x a = some m

namespace Exact

variable {holds : κ → φ → ρ → Option μ} {p : Pool κ φ} {holder holder' : ρ → Holder μ}

theorem nil : Exact holds [] fun _ : ρ => (.nobody : Holder μ) := by
  intro a i m
  simp [Pool.At]

variable {k : κ}

variable {i : ℕ}

section

variable (h : Exact holds p holder)
include h

variable {x : φ} {a : ρ} {m : μ}

theorem held (ha : p.At i k x) (hm : holds k x a = some m) : holder a = .call i m :=
  (h a i m).2 ⟨k, x, ha, hm⟩

theorem holds_of (ha : p.At i k x) (hm : holder a = .call i m) : holds k x a = some m := by
  obtain ⟨k', x', ha', hm'⟩ := (h a i m).1 hm
  obtain ⟨rfl, rfl⟩ := ha.unique ha'
  exact hm'

theorem lt_length (hm : holder a = .call i m) : i < p.length := by
  obtain ⟨k, x, ha, -⟩ := (h a i m).1 hm
  exact ha.lt_length

/-- **A new call takes some resources from no other call.** -/
theorem start (hn : ∀ a m, holder' a = .call p.length m ↔ holds k x a = some m)
    (hold : ∀ a i m, i ≠ p.length → (holder' a = .call i m ↔ holder a = .call i m)) :
    Exact holds (p.start k x) holder' := by
  intro a i m
  by_cases hi : i = p.length
  · subst hi
    rw [hn]
    constructor
    · intro hm
      exact ⟨k, x, at_start.2 (.inr ⟨rfl, rfl, rfl⟩), hm⟩
    · rintro ⟨k', x', ha, hm⟩
      rcases at_start.1 ha with hb | ⟨-, rfl, rfl⟩
      · exact absurd hb.lt_length (lt_irrefl _)
      · exact hm
  · rw [hold a i m hi, h a i m]
    refine exists_congr fun k' => exists_congr fun x' => and_congr_left fun _ => ?_
    rw [at_start]
    simp [hi]

variable {y : φ}

/-- **A call that goes on holds what it holds at its new place, and leaves the other calls
theirs.** -/
theorem move (ha : p.At i k x) (hn : ∀ a m, holder' a = .call i m ↔ holds k y a = some m)
    (hold : ∀ a j m, j ≠ i → (holder' a = .call j m ↔ holder a = .call j m)) :
    Exact holds (p.move i y) holder' := by
  intro a j m
  by_cases hj : j = i
  · subst hj
    rw [hn]
    constructor
    · intro hm
      exact ⟨k, y, (at_move ha).2 (by simp), hm⟩
    · rintro ⟨k', x', ha', hm⟩
      rw [at_move ha, if_pos rfl] at ha'
      obtain ⟨rfl, rfl⟩ := ha'
      exact hm
  · rw [hold a j m hj, h a j m]
    refine exists_congr fun k' => exists_congr fun x' => and_congr_left fun _ => ?_
    rw [at_move ha, if_neg (Ne.symm hj)]

theorem start_one [DecidableEq ρ]
    {n : Holder μ} (ha : ∀ j m, holder a ≠ .call j m) (hn : ∀ j m, n = .call j m →
      j = p.length) (hi : ∀ m, n = .call p.length m ↔ holds k x a = some m)
    (ho : ∀ b, b ≠ a → holds k x b = none) : Exact holds (p.start k x) (update holder a n) := by
  refine h.start (fun b m => ?_) fun b j m hj => ?_
  · by_cases hb : b = a
    · subst hb
      rw [update_self, hi]
    rw [update_of_ne hb, ho b hb]
    constructor
    · intro hm
      exact absurd (h.lt_length hm) (lt_irrefl _)
    · intro hm
      cases hm
  · by_cases hb : b = a
    · subst hb
      rw [update_self]
      constructor
      · intro hm
        exact absurd (hn j m hm) hj
      · intro hm
        exact absurd hm (ha j m)
    · rw [update_of_ne hb]

theorem move_one [DecidableEq ρ]
    (ht : p.At i k x) {n : Holder μ} (ha : ∀ j m, holder a = .call j m → j = i)
    (hn : ∀ j m, n = .call j m → j = i) (hi : ∀ m, n = .call i m ↔ holds k y a = some m)
    (ho : ∀ b, b ≠ a → holds k y b = holds k x b) :
    Exact holds (p.move i y) (update holder a n) := by
  refine h.move ht (fun b m => ?_) fun b j m hj => ?_
  · by_cases hb : b = a
    · subst hb
      rw [update_self, hi]
    · rw [update_of_ne hb, ho b hb]
      exact ⟨h.holds_of ht, h.held ht⟩
  · by_cases hb : b = a
    · subst hb
      rw [update_self]
      constructor
      · intro hm
        exact absurd (hn j m hm) hj
      · intro hm
        exact absurd (ha j m hm) hj
    · rw [update_of_ne hb]

theorem move_same (ha : p.At i k x)
    (hs : ∀ a, holds k y a = holds k x a) : Exact holds (p.move i y) holder := by
  refine h.move ha (fun a m => ?_) fun _ _ _ _ => Iff.rfl
  rw [hs]
  exact ⟨h.holds_of ha, h.held ha⟩

theorem unheld (hn : ∀ i k x, p.At i k x → ∀ a, holds k x a = none) (a : ρ) (i : ℕ) (m : μ) :
    holder a ≠ .call i m := by
  intro hm
  obtain ⟨k, x, ha, hh⟩ := (h a i m).1 hm
  rw [hn i k x ha a] at hh
  cases hh

end

end Exact

/-! ### Tables -/

section Lists

variable [DecidableEq ρ] {P : Holder μ → Bool} {S : Finset ρ} {holder : ρ → Holder μ}
  {a : ρ} {n : Holder μ}

/-- The table has the resources whose holders are of the kind. -/
def Lists (P : Holder μ → Bool) (S : Finset ρ) (holder : ρ → Holder μ) : Prop :=
  ∀ a, a ∈ S ↔ P (holder a) = true

theorem Lists.insert (h : Lists P S holder) (a : ρ) (hn : P n) :
    Lists P (insert a S) (update holder a n) := by
  intro b
  by_cases hb : b = a
  · subst hb
    simp [hn]
  · simp [hb, h b]

theorem Lists.erase (h : Lists P S holder) (a : ρ) (hn : P n = false) :
    Lists P (S.erase a) (update holder a n) := by
  intro b
  by_cases hb : b = a
  · subst hb
    simp [hn]
  · simp [hb, h b]

theorem Lists.keep (h : Lists P S holder) (a : ρ) (hn : P n = P (holder a)) :
    Lists P S (update holder a n) := by
  intro b
  by_cases hb : b = a
  · subst hb
    simp [hn, h b]
  · simp [hb, h b]

end Lists
end TradutorLinux
