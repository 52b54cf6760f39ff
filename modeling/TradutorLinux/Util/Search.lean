import Mathlib.Data.List.Basic

/-!
# Searching a list

`std::find_if`, as the index it finds, and the loop of `std::upper_bound` for a
test that holds from some point of the list on.

## Main definitions

* `upperBound above l` — the first element of `l` that is `above`, by halving.
* `Partitioned above l` — once `above`, all later elements are.

## Main results

* `findIdx?_some` — what the first index that passes a test says of the list.
* `upperBound_spec` — **in a partitioned list the search splits it**: nothing
  in front of the result is above, everything from it on is.
-/

namespace TradutorLinux

open List

variable {α : Type*}

/-! ### The first match -/

theorem findIdx?_some {p : α → Bool} {l : List α} {i : ℕ} (h : l.findIdx? p = some i) :
    ∃ a, l[i]? = some a ∧ p a ∧ ∀ j b, j < i → l[j]? = some b → p b = false := by
  obtain ⟨hi, hp, he⟩ := findIdx?_eq_some_iff_getElem.1 h
  refine ⟨l[i], getElem?_eq_getElem hi, hp, fun j b hj hb => ?_⟩
  obtain ⟨hj', rfl⟩ := List.getElem?_eq_some_iff.1 hb
  simpa using he j hj

theorem getD_of_getElem? {l : List α} {i : ℕ} {a d : α} (h : l[i]? = some a) : l.getD i d = a := by
  rw [getD_eq_getElem?_getD, h, Option.getD_some]

/-! ### Binary search -/

/-- The loop: `count` elements from `first` on are left.  Each round more than
halves them, so the length of the list is fuel enough. -/
def upperBoundLoop (above : α → Bool) (l : List α) : ℕ → ℕ → ℕ → ℕ
  | 0, first, _ => first
  | fuel + 1, first, count =>
    if count = 0 then first
    else
      match l[first + count / 2]? with
      | none => first
      | some middle =>
        if above middle then upperBoundLoop above l fuel first (count / 2)
        else upperBoundLoop above l fuel (first + count / 2 + 1) (count - count / 2 - 1)

def upperBound (above : α → Bool) (l : List α) : ℕ := upperBoundLoop above l l.length 0 l.length

/-- Behind an element that is above, all are. -/
def Partitioned (above : α → Bool) (l : List α) : Prop :=
  l.Pairwise fun a b => above a = true → above b = true

/-- The result `k` of a search: nothing in front of it is above, everything from it on is. -/
structure Splits (above : α → Bool) (l : List α) (k : ℕ) : Prop where
  le : k ≤ l.length
  below : ∀ i a, i < k → l[i]? = some a → above a = false
  above : ∀ i a, k ≤ i → l[i]? = some a → above a = true

namespace Partitioned

variable {above ab : α → Bool} {l : List α}

theorem above_of_le (h : Partitioned ab l) {i j : ℕ} {a b : α} (hi : l[i]? = some a)
    (hj : l[j]? = some b) (hij : i ≤ j) (ha : ab a) : ab b := by
  rcases Nat.eq_or_lt_of_le hij with rfl | hl
  · rw [hi] at hj
    cases hj
    exact ha
  · obtain ⟨hi', rfl⟩ := List.getElem?_eq_some_iff.1 hi
    obtain ⟨hj', rfl⟩ := List.getElem?_eq_some_iff.1 hj
    exact pairwise_iff_getElem.1 h i j hi' hj' hl ha

end Partitioned

variable {above ab : α → Bool} {l : List α}

/-- One half of the list is settled in each round. -/
theorem upperBoundLoop_spec (h : Partitioned ab l) (fu : ℕ) : ∀ f n, f + n ≤ l.length → n ≤ fu →
      (∀ i a, i < f → l[i]? = some a → ab a = false) →
      (∀ i a, f + n ≤ i → l[i]? = some a → ab a) →
      Splits ab l (upperBoundLoop ab l fu f n) := by
  induction fu with
  | zero =>
    intro f n hl hf hb hab
    obtain rfl : n = 0 := Nat.le_zero.1 hf
    exact ⟨hl, hb, hab⟩
  | succ fu ih =>
    intro f n hl hf hb hab
    unfold upperBoundLoop
    split
    · next hz =>
      subst hz
      exact ⟨hl, hb, hab⟩
    · next hp =>
      have hm : f + n / 2 < l.length := by omega
      have hg := getElem?_eq_getElem hm
      rw [hg]
      dsimp only
      split
      · next hu =>
        refine ih f (n / 2) (by omega) (by omega) hb fun i a hi ha => ?_
        exact h.above_of_le hg ha hi hu
      · next hd =>
        refine ih _ _ (by omega) (by omega) (fun i a hi ha => ?_) fun i a hi ha =>
          hab i a (by omega) ha
        by_contra hu
        rw [Bool.not_eq_false] at hu
        exact hd (h.above_of_le ha hg (by omega) hu)

/-- **In a partitioned list the search splits it.** -/
theorem upperBound_spec (h : Partitioned ab l) : Splits ab l (upperBound ab l) := by
  refine upperBoundLoop_spec h l.length 0 l.length (by omega) (Nat.le_refl _) (fun i a hi _ => ?_)
    fun i a hi ha => ?_
  · omega
  · obtain ⟨hl, -⟩ := List.getElem?_eq_some_iff.1 ha
    omega

end TradutorLinux
