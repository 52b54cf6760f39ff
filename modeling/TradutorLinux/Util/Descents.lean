import Mathlib.Data.List.Infix
import Mathlib.Data.List.Nodup
import Mathlib.Order.WellFounded

/-!
# Descents along links

Entries link to other entries.  A descent from an entry takes one link after the
other and ends before the first entry at which it has to stop, or where there is
no link.  A descent that never stops does not exist, so that the relation is
meant for loops that may not end.

## Main definitions

* `Descent next stop o l` — from `o` the entries `l` are passed.

## Main results

* `Descent.unique`, `Descent.nodup` — there is one descent, and it passes no
  entry twice.
* `Descent.total` — **of two descents from one entry one is the beginning of the
  other.**
* `Descent.upto_eq`
-/

namespace TradutorLinux

open List

universe u

variable {α : Type u} {next : α → Option α} {stop stop' : α → Prop}

/-- The entries a descent passes before it stops. -/
inductive Descent (next : α → Option α) (stop : α → Prop) : Option α → List α → Prop
  | ended : Descent next stop none []
  | stopped {a : α} : stop a → Descent next stop (some a) []
  | step {a : α} {l : List α} : ¬stop a → Descent next stop (next a) l →
      Descent next stop (some a) (a :: l)

namespace Descent

variable {o : Option α} {l l' : List α} {a : α}

theorem cons_of_not_stop (h : Descent next stop (some a) l) (ha : ¬stop a) :
    ∃ l', l = a :: l' ∧ Descent next stop (next a) l' := by
  cases h with
  | stopped hs => exact absurd hs ha
  | step _ hr => exact ⟨_, rfl, hr⟩

theorem nil_of_stop (h : Descent next stop (some a) l) (ha : stop a) : l = [] := by
  cases h with
  | stopped _ => rfl
  | step hnot _ => exact absurd ha hnot

section

variable (h : Descent next stop o l)
include h

/-- **Two descents from one entry: the one that stops first is the beginning of the other.** -/
theorem total (h' : Descent next stop' o l') : l <+: l' ∨ l' <+: l := by
  induction h generalizing l' with
  | ended => exact .inl nil_prefix
  | stopped _ => exact .inl nil_prefix
  | step _ _ ih =>
    cases h' with
    | stopped _ => exact .inr nil_prefix
    | step _ hr =>
      rcases ih hr with hl | hl
      · exact .inl (cons_prefix_cons.2 ⟨rfl, hl⟩)
      · exact .inr (cons_prefix_cons.2 ⟨rfl, hl⟩)

theorem unique (h' : Descent next stop o l') : l = l' := by
  induction h generalizing l' with
  | ended =>
    cases h'
    rfl
  | stopped hs => exact (h'.nil_of_stop hs).symm
  | step hnot _ ih =>
    obtain ⟨l', rfl, hr⟩ := h'.cons_of_not_stop hnot
    rw [ih hr]

theorem of_append {l₁ l₂ : List α} (hl : l = l₁ ++ a :: l₂) :
    Descent next stop (some a) (a :: l₂) := by
  induction h generalizing l₁ with
  | ended => cases l₁ <;> cases hl
  | stopped _ => cases l₁ <;> cases hl
  | step hnot hr ih =>
    cases l₁ with
    | nil =>
      obtain ⟨rfl, rfl⟩ := List.cons.inj hl
      exact .step hnot hr
    | cons b l₁ =>
      obtain ⟨rfl, rfl⟩ := List.cons.inj hl
      exact ih rfl

theorem not_stop (ha : a ∈ l) : ¬stop a := by
  obtain ⟨l₁, l₂, rfl⟩ := append_of_mem ha
  have hr := h.of_append rfl
  intro hs
  cases hr.nil_of_stop hs

/-- **No entry is passed twice.** -/
theorem nodup : l.Nodup := by
  induction h with
  | ended => exact nodup_nil
  | stopped _ => exact nodup_nil
  | @step a l hnot hr ih =>
    refine nodup_cons.2 ⟨fun ha => ?_, ih⟩
    -- the descent from the second visit would be the whole descent again
    obtain ⟨l₁, l₂, rfl⟩ := append_of_mem ha
    have hg := hr.of_append (a := a) rfl
    have hl := congrArg List.length (hg.unique (.step hnot hr))
    simp at hl
    omega

end

end Descent

/-! ### Links that lead down -/

/-- Every entry links to a smaller one, if it has a link. -/
def Down (next : ℕ → Option ℕ) : Prop := ∀ a b, next a = some b → b < a

variable {down : ℕ → Option ℕ} {stop : ℕ → Prop}

theorem exists_descent (h : Down down) (stop : ℕ → Prop) (o : Option ℕ) :
    ∃ l, Descent down stop o l := by
  cases o with
  | none => exact ⟨[], .ended⟩
  | some a =>
    induction a using Nat.strong_induction_on with
    | _ a ih =>
      by_cases ha : stop a
      · exact ⟨[], .stopped ha⟩
      cases hb : down a with
      | none => exact ⟨[a], .step ha (hb ▸ .ended)⟩
      | some b =>
        obtain ⟨l, hl⟩ := ih b (h a b hb)
        exact ⟨a :: l, .step ha (hb ▸ hl)⟩

/-- **The descent to a bound goes on from the one to just above it by the bound, if that is
on the way.** -/
theorem Descent.upto_eq (h : Down down) {bound : ℕ} {o : Option ℕ} {ab uo : List ℕ}
    (ha : Descent down (· ≤ bound) o ab) (hu : Descent down (· < bound) o uo) :
    uo = ab ++ (if bound ∈ uo then [bound] else []) := by
  induction ha generalizing uo with
  | ended =>
    cases hu
    simp
  | @stopped a hs =>
    cases hu with
    | stopped hlt => simp
    | @step _ l hnot hr =>
      obtain rfl : a = bound := by omega
      have hl : l = [] := by
        cases hb : down a with
        | none =>
          rw [hb] at hr
          cases hr
          rfl
        | some b =>
          rw [hb] at hr
          exact hr.nil_of_stop (h a b hb)
      subst hl
      simp
  | @step a l hnot _ ih =>
    obtain ⟨l', rfl, hr⟩ := hu.cons_of_not_stop (by omega)
    have hn : bound ≠ a := by omega
    have ht := ih hr
    simpa [hn] using ht

end TradutorLinux
