import Mathlib.Data.List.Basic
import Mathlib.Data.Nat.Find

/-!
# The first place of some elements

A memory is a function of places.  A search of the first `last` places finds the
first one from which on the elements lie.

## Main definitions

* `search`

## Main results

* `search_eq_some`
-/

namespace TradutorLinux

open List

variable {α : Type*} [DecidableEq α] {mem : ℕ → α} {elements e es : List α} {place pl p last : ℕ}

/-- The elements lie in the memory from the place on. -/
def occursAt (memory : ℕ → α) : ℕ → List α → Bool
  | _, [] => true
  | place, a :: elements => decide (memory place = a) && occursAt memory (place + 1) elements

/-- The first of `n` places from `place` on. -/
def searchFrom (memory : ℕ → α) (elements : List α) : ℕ → ℕ → Option ℕ
  | 0, _ => none
  | n + 1, place =>
    if occursAt memory place elements = true then some place
    else searchFrom memory elements n (place + 1)

/-- The first place where the elements lie in front of `last`. -/
def search (memory : ℕ → α) (last : ℕ) (elements : List α) : Option ℕ :=
  searchFrom memory elements (last + 1 - elements.length) 0

@[simp] theorem occursAt_nil (mem : ℕ → α) (p : ℕ) : occursAt mem p [] := rfl

@[simp] theorem occursAt_cons {a : α} : occursAt mem p (a :: es) ↔
      mem p = a ∧ occursAt mem (p + 1) es := by
  simp [occursAt]

theorem occursAt_append {f b : List α} : occursAt mem p (f ++ b) ↔
      occursAt mem p f ∧ occursAt mem (p + f.length) b := by
  induction f generalizing p with
  | nil => simp
  | cons a f ih =>
    rw [cons_append, occursAt_cons, ih, occursAt_cons, length_cons, and_assoc,
      Nat.add_right_comm, Nat.add_assoc]

theorem map_of_occursAt (h : occursAt mem place elements) :
    (List.range elements.length).map (fun i => mem (place + i)) = elements := by
  induction elements generalizing place with
  | nil => rfl
  | cons a elements ih =>
    obtain ⟨hh, ht⟩ := occursAt_cons.1 h
    rw [length_cons, range_succ_eq_map, map_cons, map_map, Nat.add_zero, hh]
    congr 1
    refine Eq.trans ?_ (ih ht)
    apply map_congr_left
    intro i _
    show mem (place + (i + 1)) = mem (place + 1 + i)
    rw [Nat.add_right_comm, Nat.add_assoc]

theorem mem_of_occursAt {i : ℕ} (h : occursAt mem place elements)
    (hi : i < elements.length) : mem (place + i) ∈ elements := by
  have hm := mem_map_of_mem (f := fun i => mem (place + i)) (mem_range.2 hi)
  rwa [map_of_occursAt h] at hm

theorem searchFrom_eq_some {n f : ℕ} : searchFrom mem elements n f = some place ↔
      f ≤ place ∧ place < f + n ∧ occursAt mem place elements ∧
        ∀ o, f ≤ o → o < place → occursAt mem o elements = false := by
  induction n generalizing f with
  | zero =>
    constructor
    · intro h
      cases h
    · rintro ⟨hl, ht, -⟩
      omega
  | succ n ih =>
    unfold searchFrom
    cases hf : occursAt mem f elements with
    | true =>
      constructor
      · intro h
        cases h
        exact ⟨le_refl _, by omega, hf, fun o hl ht => by omega⟩
      · rintro ⟨hl, -, -, hb⟩
        rcases Nat.eq_or_lt_of_le hl with rfl | ht
        · rfl
        · cases (hb f (le_refl _) ht).symm.trans hf
    | false =>
      rw [if_neg Bool.false_ne_true, ih]
      constructor
      · rintro ⟨hl, ht, hp, hb⟩
        refine ⟨by omega, by omega, hp, ?_⟩
        intro o ho hh
        rcases Nat.eq_or_lt_of_le ho with rfl | hl'
        · exact hf
        · exact hb o hl' hh
      · rintro ⟨hl, ht, hp, hb⟩
        have hn : f ≠ place := by
          rintro rfl
          cases hf.symm.trans hp
        exact ⟨by omega, by omega, hp, fun o ho => hb o (by omega)⟩

/-- **A search finds the first place where the elements lie.** -/
theorem search_eq_some : search mem last es = some p ↔
      p + es.length ≤ last ∧ occursAt mem p es ∧ ∀ o < p, occursAt mem o es = false := by
  unfold search
  rw [searchFrom_eq_some]
  constructor
  · rintro ⟨-, hl, hp, hb⟩
    exact ⟨by omega, hp, fun o => hb o (Nat.zero_le _)⟩
  · rintro ⟨he, hp, hb⟩
    exact ⟨Nat.zero_le _, by omega, hp, fun o _ => hb o⟩

end TradutorLinux
