import Mathlib.Data.Nat.Notation
import Mathlib.Logic.Basic

/-!
# Two programs that agree

Two fallible programs agree when both succeed, with related results, or both
fail, with related errors.  Agreement is closed under the ways programs are
put together, so two programs written for the same purpose are compared step
by step: `Agree.bind` for a sequence, `Agree.ite` for a test.

## Main definitions

* `Agree E R x y` — the programs `x` and `y` agree, on errors up to `E` and on
  results up to `R`.

## Main results

* `Agree.bind` — agreement of two sequences.
* `Agree.ite` — agreement of two tests.
-/

namespace TradutorLinux

universe u v

variable {ε ε' : Type u} {α β γ δ : Type v}

/-- Both succeed with results in `R`, or both fail with errors in `E`. -/
def Agree (E : ε → ε' → Prop) (R : α → β → Prop) : Except ε α → Except ε' β → Prop
  | .ok a, .ok b => R a b
  | .error e, .error e' => E e e'
  | _, _ => False

variable {x : Except ε α} {f : α → Except ε γ}

namespace Agree

variable {E : ε → ε' → Prop} {R : α → β → Prop} {S : γ → δ → Prop}

@[simp] theorem ok_ok {a : α} {b : β} : Agree E R (.ok a) (.ok b) ↔ R a b := Iff.rfl

@[simp] theorem error_error {e : ε} {e' : ε'} :
    Agree E R (.error e : Except ε α) (.error e' : Except ε' β) ↔ E e e' := Iff.rfl

variable {y : Except ε' β}

theorem mono {R' : α → β → Prop} (h : Agree E R x y)
    (hR : ∀ a b, R a b → R' a b) : Agree E R' x y := by
  cases x <;> cases y
  · exact h
  · exact h
  · exact h
  · exact hR _ _ h

theorem and_left {P : α → Prop} (h : Agree E R x y)
    (hP : ∀ a, x = .ok a → P a) : Agree E (fun a b => R a b ∧ P a) x y := by
  cases x <;> cases y
  · exact h
  · exact h
  · exact h
  · exact ⟨h, hP _ rfl⟩

/-- **Two sequences agree when their first steps do, and their continuations
do on related results.** -/
theorem bind {g : β → Except ε' δ} (h : Agree E R x y) (hf : ∀ a b, R a b → Agree E S (f a) (g b)) :
    Agree E S (x >>= f) (y >>= g) := by
  cases x <;> cases y
  · exact h
  · exact h.elim
  · exact h.elim
  · exact hf _ _ h

theorem bind_ok_left {S : γ → β → Prop} {f : α → γ}
    (h : Agree E R x y) (hf : ∀ a b, R a b → S (f a) b) :
    Agree E S (x >>= fun a => .ok (f a)) y := by
  cases x <;> cases y
  · exact h
  · exact h.elim
  · exact h.elim
  · exact hf _ _ h

/-- Two equivalent tests agree when their branches do. -/
theorem ite {p q : Prop} [Decidable p] [Decidable q] {x x' : Except ε α} {y y' : Except ε' β}
    (hpq : p ↔ q) (ht : p → Agree E R x y) (he : ¬p → Agree E R x' y') :
    Agree E R (if p then x else x') (if q then y else y') := by
  by_cases hp : p
  · rw [if_pos hp, if_pos (hpq.1 hp)]
    exact ht hp
  · rw [if_neg hp, if_neg fun hq => hp (hpq.2 hq)]
    exact he hp

theorem isOk_iff (h : Agree E R x y) : (∃ a, x = .ok a) ↔ ∃ b, y = .ok b := by
  cases x <;> cases y
  · simp
  · exact h.elim
  · exact h.elim
  · simp

theorem of_ok (h : Agree E R x y) {a : α} {b : β} (hx : x = .ok a) (hy : y = .ok b) : R a b := by
  subst hx hy
  exact h

theorem of_error (h : Agree E R x y) {e : ε} {e' : ε'}
    (hx : x = .error e) (hy : y = .error e') : E e e' := by
  subst hx hy
  exact h

end Agree

/-! ### Sequences of one program -/

@[simp] theorem ok_bind {a : α} : (Except.ok a >>= f) = f a := rfl

@[simp] theorem error_bind {e : ε} : ((Except.error e : Except ε α) >>= f) = .error e := rfl

theorem bind_of_ok {a : α} {y : Except ε γ} (hx : x = .ok a) (hf : f a = y) : (x >>= f) = y := by
  rw [hx, ok_bind, hf]

theorem bind_eq_ok {c : γ} : (x >>= f) = .ok c ↔ ∃ a, x = .ok a ∧ f a = .ok c := by
  cases x with
  | error e => simp
  | ok a => simp

theorem guard_eq_ok {p : Prop} [Decidable p] {e : ε} {x : Except ε γ} {c : γ} :
    (if p then .error e else x) = .ok c ↔ ¬p ∧ x = .ok c := by
  by_cases hp : p <;> simp [hp]

theorem exists_ok (h : x.isOk) : ∃ a, x = .ok a := by
  cases x with
  | error e => cases h
  | ok a => exact ⟨a, rfl⟩

/-! ### Loops of one program -/

/-- The results of `f` at `index`, `index + 1`, …, `remaining` of them. -/
def collect (f : ℕ → Except ε α) : ℕ → ℕ → Except ε (List α)
  | _, 0 => .ok []
  | index, remaining + 1 =>
    f index >>= fun a => collect f (index + 1) remaining >>= fun as => .ok (a :: as)

end TradutorLinux
