import Mathlib.Tactic.Common

/-!
# Loops with a bound

A loop whose body either goes on from a new state or leaves with a result, run
for at most a number of rounds.

## Main definitions

* `runBounded step bound s` — the loop: its result, or the state in which the
  bound has stopped it.
* `Reaches step n s r` — without a bound, the loop leaves with `r` in round `n`.

## Main results

* `runBounded_eq_inr`
* `Reaches.stopped` — otherwise the bound stops it on its way to that round.
-/

namespace TradutorLinux

variable {σ ρ : Type*}

/-- At most `bound` rounds of `step`. -/
def runBounded (step : σ → σ ⊕ ρ) : ℕ → σ → σ ⊕ ρ
  | 0, s => .inl s
  | bound + 1, s =>
    match step s with
    | .inl s' => runBounded step bound s'
    | .inr r => .inr r

/-- The loop leaves in round `n`. -/
inductive Reaches (step : σ → σ ⊕ ρ) : ℕ → σ → ρ → Prop
  | leave {s : σ} {r : ρ} : step s = .inr r → Reaches step 0 s r
  | round {n : ℕ} {s s' : σ} {r : ρ} : step s = .inl s' → Reaches step n s' r →
      Reaches step (n + 1) s r

variable {step st : σ → σ ⊕ ρ}
variable {n : ℕ} {s : σ} {r : ρ}

/-- There is one round in which a loop leaves. -/
theorem Reaches.unique {m : ℕ} {r' : ρ} (h : Reaches st n s r)
    (h' : Reaches st m s r') : n = m ∧ r = r' := by
  induction h generalizing m with
  | leave hs =>
    cases h' with
    | leave hs' =>
      rw [hs] at hs'
      exact ⟨rfl, Sum.inr.inj hs'⟩
    | round hs' _ =>
      rw [hs] at hs'
      cases hs'
  | round hs _ ih =>
    cases h' with
    | leave hs' =>
      rw [hs] at hs'
      cases hs'
    | round hs' hr =>
      rw [hs] at hs'
      cases hs'
      obtain ⟨rfl, rfl⟩ := ih hr
      exact ⟨rfl, rfl⟩

/-- **The loop has a result when it leaves below the bound.** -/
theorem runBounded_eq_inr {b : ℕ} : runBounded st b s = .inr r ↔ ∃ n < b, Reaches st n s r := by
  induction b generalizing s with
  | zero =>
    constructor
    · intro h
      cases h
    · rintro ⟨n, hn, -⟩
      exact absurd hn (Nat.not_lt_zero n)
  | succ b ih =>
    unfold runBounded
    constructor
    · intro h
      split at h
      · next s' hs =>
        obtain ⟨n, hn, hr⟩ := ih.1 h
        exact ⟨n + 1, Nat.succ_lt_succ hn, .round hs hr⟩
      · next r' hs =>
        cases h
        exact ⟨0, Nat.succ_pos b, .leave hs⟩
    · rintro ⟨n, hn, hr⟩
      cases hr with
      | leave hs => rw [hs]
      | round hs he =>
        rw [hs]
        exact ih.2 ⟨_, Nat.lt_of_succ_lt_succ hn, he⟩

theorem Reaches.runBounded_iff {bound : ℕ} (h : Reaches st n s r) :
    runBounded st bound s = .inr r ↔ n < bound := by
  rw [runBounded_eq_inr]
  constructor
  · rintro ⟨m, hm, hr⟩
    rw [(h.unique hr).1]
    exact hm
  · exact fun hn => ⟨n, hn, h⟩

/-- A loop that leaves later is stopped on its way. -/
theorem Reaches.stopped (h : Reaches st n s r) {b : ℕ} (hb : b ≤ n) :
    ∃ s', runBounded st b s = .inl s' ∧ Reaches st (n - b) s' r := by
  induction b generalizing n s with
  | zero => exact ⟨s, rfl, h⟩
  | succ b ih =>
    cases h with
    | leave hs => exact absurd hb (Nat.not_succ_le_zero b)
    | @round n s s' r hs he =>
      obtain ⟨s'', hu, hr⟩ := ih he (Nat.le_of_succ_le_succ hb)
      refine ⟨s'', ?_, ?_⟩
      · unfold runBounded
        rw [hs]
        exact hu
      · rw [Nat.add_sub_add_right]
        exact hr

/-- **What every round keeps** holds of the result, and of the state in which the
bound stops the loop. -/
theorem runBounded_induction (st : σ → σ ⊕ ρ) (m : σ → Prop) (f : ρ → Prop)
    (ro : ∀ s s', m s → st s = .inl s' → m s') (l : ∀ s r, m s → st s = .inr r → f r) (b : ℕ) :
    ∀ s, m s → Sum.elim m f (runBounded st b s) := by
  induction b with
  | zero => exact fun s h => h
  | succ b ih =>
    intro s h
    unfold runBounded
    cases hs : st s with
    | inl s' => exact ih s' (ro s s' h hs)
    | inr r => exact l s r h hs

end TradutorLinux
