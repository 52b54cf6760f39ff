import Mathlib.Data.List.Basic
import Mathlib.Data.Option.Basic

/-!
# First choices

What a list is searched for first.

* `find?_orElse_eq_iff` — two passes over a list against one.
-/

namespace TradutorLinux

open List

universe u

variable {α : Type u} {p q : α → Bool} {l : List α}

/-- A pass that takes `p` before one that takes `q` finds the first of either only if no `p`
comes behind it. -/
theorem find?_orElse_eq_iff (hpq : ∀ x ∈ l, ¬(p x ∧ q x)) :
    (l.find? p).or (l.find? q) = l.find? (fun x => p x || q x) ↔
      ((∃ x ∈ l.find? fun x => p x || q x, q x = true) → l.find? p = none) := by
  induction l with
  | nil => simp
  | cons x l ih =>
    have ih' := ih fun y hy => hpq y (mem_cons_of_mem _ hy)
    have hx := hpq x mem_cons_self
    rw [find?_cons, find?_cons, find?_cons]
    cases hp : p x with
    | true =>
      have hq : q x = false := by simpa [hp] using hx
      simp [hq]
    | false =>
      cases hq : q x with
      | false => simpa using ih'
      | true =>
        cases hf : l.find? p with
        | none => simp
        | some y =>
          have hy : p y := find?_some hf
          have hn : y ≠ x := by
            rintro rfl
            rw [hp] at hy
            cases hy
          simpa [hq] using hn

end TradutorLinux
