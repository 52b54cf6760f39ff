import Mathlib.Data.Finset.Card

/-!
# Chains of links

Entries of a table may link to one another.  Following the links from an entry
either ends at an entry without a link, or goes on for ever; in a table of `n`
entries a chain that takes `n` steps never ends.

## Main definitions

* `follow next k i` — the entry `k` links behind `i`.
* `Ends next i` — the chain of `i` ends.

## Main results

* `ends_iff_of_closed` — in a table of `n` entries a chain ends iff it has
  fewer than `n` links.
-/

namespace TradutorLinux

variable {next ne : ℕ → Option ℕ}

/-- The entry `k` links behind `i`, when the chain is that long. -/
def follow (next : ℕ → Option ℕ) : ℕ → ℕ → Option ℕ
  | 0, i => some i
  | k + 1, i => (next i).bind (follow next k)

/-- The chain of `i` comes to an entry without a link. -/
def Ends (next : ℕ → Option ℕ) (i : ℕ) : Prop := ∃ k j, follow next k i = some j ∧ next j = none

theorem follow_add (a b i : ℕ) : follow ne (a + b) i = (follow ne a i).bind (follow ne b) := by
  induction a generalizing i with
  | zero => rw [Nat.zero_add]; rfl
  | succ a ih =>
    rw [show a + 1 + b = a + b + 1 by omega, follow, follow]
    cases ne i with
    | none => rfl
    | some j => exact ih j

variable {k i j : ℕ}

theorem follow_of_end (hk : follow ne k i = some j) (hj : ne j = none) (a : ℕ)
    (ha : k < a) : follow ne a i = none := by
  obtain ⟨b, rfl⟩ : ∃ b, a = k + (b + 1) := ⟨a - k - 1, by omega⟩
  rw [follow_add, hk]
  change (ne j).bind (follow ne b) = none
  rw [hj]
  rfl

theorem ends_of_next (h : ne i = some j) : Ends ne i ↔ Ends ne j := by
  constructor
  · rintro ⟨k, e, hk, he⟩
    cases k with
    | zero =>
      obtain rfl : i = e := by simpa [follow] using hk
      rw [h] at he
      cases he
    | succ k =>
      rw [follow, h] at hk
      exact ⟨k, e, hk, he⟩
  · rintro ⟨k, e, hk, he⟩
    exact ⟨k + 1, e, by rw [follow, h]; exact hk, he⟩

theorem ends_of_none (h : ne i = none) : Ends ne i := ⟨0, i, rfl, h⟩

theorem ends_follow (h : follow ne k i = some j) : Ends ne i ↔ Ends ne j := by
  induction k generalizing i with
  | zero =>
    obtain rfl : i = j := by simpa [follow] using h
    exact Iff.rfl
  | succ k ih =>
    rw [follow] at h
    cases hi : ne i with
    | none => rw [hi] at h; cases h
    | some m =>
      rw [hi] at h
      rw [ends_of_next hi]
      exact ih h

theorem follow_loop (h : follow ne k i = some i) (m : ℕ) : follow ne (m * k) i = some i := by
  induction m with
  | zero => rw [Nat.zero_mul]; rfl
  | succ m ih =>
    rw [Nat.succ_mul, follow_add, ih]
    exact h

theorem not_ends_of_loop (hk : 0 < k) (h : follow ne k i = some i) : ¬Ends ne i := by
  rintro ⟨e, j, he, hj⟩
  have hr := follow_loop h (e + 1)
  rw [follow_of_end he hj _ (lt_of_lt_of_le (Nat.lt_succ_self e)
    (Nat.le_mul_of_pos_right _ hk))] at hr
  cases hr

section Closed

variable {n : ℕ}

theorem follow_lt (hc : ∀ i j, ne i = some j → j < n) (hi : i < n)
    (h : follow ne k i = some j) : j < n := by
  induction k generalizing i with
  | zero =>
    obtain rfl : i = j := by simpa [follow] using h
    exact hi
  | succ k ih =>
    rw [follow] at h
    cases hm : ne i with
    | none => rw [hm] at h; cases h
    | some m =>
      rw [hm] at h
      exact ih (hc i m hm) h

/-- **A chain of a table with `n` entries that ends has fewer than `n` links.** -/
theorem follow_eq_none_of_ends (hc : ∀ i j, ne i = some j → j < n) (hi : i < n)
    (h : Ends ne i) : follow ne n i = none := by
  obtain ⟨k, e, hk, he⟩ := h
  rcases lt_or_ge k n with ht | hg
  · exact follow_of_end hk he n ht
  -- otherwise the first `n + 1` entries are not distinct, and the chain is a loop
  have hal : ∀ a ≤ n, ∃ j, follow ne a i = some j := by
    intro a ha
    obtain ⟨b, hb⟩ : ∃ b, k = a + b := ⟨k - a, by omega⟩
    rw [hb, follow_add] at hk
    cases hj : follow ne a i with
    | none => rw [hj] at hk; cases hk
    | some j => exact ⟨j, rfl⟩
  let entry : ℕ → ℕ := fun a => (follow ne a i).getD 0
  have hn : ∀ a ≤ n, follow ne a i = some (entry a) := by
    intro a ha
    obtain ⟨j, hj⟩ := hal a ha
    simp [entry, hj, Option.getD_some]
  have hm : ∀ a ∈ Finset.range (n + 1), entry a ∈ Finset.range n := by
    intro a ha
    rw [Finset.mem_range] at ha ⊢
    exact follow_lt hc hi (hn a (by omega))
  obtain ⟨a, ha, b, hb, hne, heq⟩ := Finset.exists_ne_map_eq_of_card_lt_of_maps_to (by simp) hm
  rw [Finset.mem_range] at ha hb
  have hl : ∀ a b, a < b → b ≤ n → entry a = entry b → False := by
    intro a b hab hbn heq
    obtain ⟨c, rfl⟩ : ∃ c, b = a + c := ⟨b - a, by omega⟩
    have hr : follow ne c (entry a) = some (entry a) := by
      have hb := hn (a + c) hbn
      rwa [follow_add, hn a (by omega), ← heq] at hb
    exact not_ends_of_loop (by omega) hr ((ends_follow (hn a (by omega))).1 ⟨k, e, hk, he⟩)
  rcases lt_or_ge a b with hab | hab
  · exact (hl a b hab (by omega) heq).elim
  · exact (hl b a (by omega) (by omega) heq.symm).elim

theorem ends_of_follow_eq_none (h : follow ne k i = none) : Ends ne i := by
  induction k generalizing i with
  | zero => cases h
  | succ k ih =>
    rw [follow] at h
    cases hi : ne i with
    | none => exact ends_of_none hi
    | some j =>
      rw [hi] at h
      exact (ends_of_next hi).2 (ih h)

theorem ends_iff_of_closed (hc : ∀ i j, ne i = some j → j < n) (hi : i < n) :
    Ends ne i ↔ follow ne n i = none :=
  ⟨follow_eq_none_of_ends hc hi, ends_of_follow_eq_none⟩

end Closed

end TradutorLinux
