import Mathlib.Data.List.Basic
import Mathlib.Logic.Relation

/-!
# Runs of a step function, and calls under way

A machine is a step function on states that is given an action and may refuse
it.  A process whose threads call functions keeps a pool: every call with its
arguments and the place it has reached.

## Main definitions

* `Runs`
* `runAll` — the state a list of actions leads to.
* `EachStep`
* `Pool.At`, `Pool.start`, `Pool.move` — a call of the pool, a new one, and one
  that goes on.

## Main results

* `Runs.keeps`
* `Runs.of_runAll`, `Runs.of_guarded` — a list of actions is a run.
* `eachStep_iff`
* `Pool.at_start`, `Pool.at_move` — the calls after either change.
-/

namespace TradutorLinux

open Option

universe u v

/-! ### Runs -/

section Runs

variable {σ : Type u} {α : Type v} {step st : σ → α → Option σ} {ok : σ → α → Prop}

/-- The runs of `step` whose steps all meet `ok`. -/
def Runs (step : σ → α → Option σ) (ok : σ → α → Prop) : σ → σ → Prop :=
  Relation.ReflTransGen fun s s' => ∃ a, ok s a ∧ step s a = some s'

/-- Any action goes. -/
def Free (_ : σ) (_ : α) : Prop := True

variable {I : σ → Prop} {s s' : σ}

/-- **An invariant of the steps holds all along a run.** -/
theorem Runs.keeps
    (ht : ∀ t a t', I t → ok t a → st t a = some t' → I t')
    (h : Runs st ok s s') (hs : I s) : I s' := by
  induction h with
  | refl => exact hs
  | tail _ hl ih =>
    obtain ⟨a, ho, ha⟩ := hl
    exact ht _ a _ ih ho ha

theorem Runs.refl (s : σ) : Runs st ok s s := Relation.ReflTransGen.refl

variable {t : σ}

theorem Runs.head {t' : σ} {a : α} (ho : ok s a) (ha : st s a = some t)
    (h : Runs st ok t t') : Runs st ok s t' :=
  Relation.ReflTransGen.head ⟨a, ho, ha⟩ h

/-- The actions one after the other. -/
def runAll (step : σ → α → Option σ) (s : σ) : List α → Option σ
  | [] => some s
  | a :: as => (step s a).bind fun s' => runAll step s' as

variable {as : List α}

theorem Runs.of_runAll (h : runAll st s as = some s') : Runs st Free s s' := by
  induction as generalizing s with
  | nil =>
    obtain rfl := some.inj h
    exact Runs.refl s
  | cons a as ih =>
    obtain ⟨t, ha, ht⟩ := bind_eq_some_iff.1 h
    exact Runs.head trivial ha (ih ht)

/-- The machine that refuses what does not meet the condition. -/
def guarded (step : σ → α → Option σ) (ok : σ → α → Prop) [∀ s a, Decidable (ok s a)]
    (s : σ) (a : α) : Option σ :=
  if ok s a then step s a else none

theorem Runs.of_guarded [∀ s a, Decidable (ok s a)]
    (h : runAll (guarded st ok) s as = some s') : Runs st ok s s' := by
  induction as generalizing s with
  | nil =>
    obtain rfl := some.inj h
    exact Runs.refl s
  | cons a as ih =>
    obtain ⟨t, ha, ht⟩ := bind_eq_some_iff.1 h
    unfold guarded at ha
    split at ha
    · next ho => exact Runs.head ho ha (ih ht)
    · cases ha

/-- What holds of every step that the actions make: of the state before, the action, and the
state after. -/
def EachStep (step : σ → α → Option σ) (P : σ → α → σ → Prop) : σ → List α → Prop
  | _, [] => True
  | s, a :: as => ∀ s', step s a = some s' → P s a s' ∧ EachStep step P s' as

variable {P : σ → α → σ → Prop}

instance EachStep.decidable [∀ s a s', Decidable (P s a s')] :
    ∀ (s : σ) (as : List α), Decidable (EachStep st P s as)
  | _, [] => .isTrue trivial
  | s, a :: as =>
    match h : st s a with
    | none => .isTrue fun s' hs => by rw [h] at hs; cases hs
    | some t =>
      have := EachStep.decidable t as
      decidable_of_iff (P s a t ∧ EachStep st P t as)
        ⟨fun hp s' hs => by cases h.symm.trans hs; exact hp, fun hp => hp t h⟩

theorem EachStep.last {t' : σ} {a : α}
    (h : EachStep st P s (as ++ [a])) (hn : runAll st s as = some t)
    (ha : st t a = some t') : P t a t' := by
  induction as generalizing s with
  | nil =>
    cases hn
    exact (h t' ha).1
  | cons b as ih =>
    obtain ⟨u, hu, hr⟩ := bind_eq_some_iff.1 hn
    exact ih (h u hu).2 hr

theorem runAll_append (bs : List α) :
    runAll st s (as ++ bs) = (runAll st s as).bind fun t => runAll st t bs := by
  induction as generalizing s with
  | nil => rfl
  | cons a as ih => simp [runAll, ih, Option.bind_assoc]

theorem runAll_concat (hn : runAll st s as = some t) (a : α) :
    runAll st s (as ++ [a]) = st t a := by
  rw [runAll_append, hn]
  exact bind_fun_some (st t a)

/-- **If every orderly step keeps the invariant and is good under it, the steps of an orderly run
are all good.** -/
theorem EachStep.of_ok (hg : ∀ t a t', I t → ok t a → st t a = some t' → P t a t')
    (hk : ∀ t a t', I t → ok t a → st t a = some t' → I t') (hs : I s)
    (h : EachStep st (fun t a _ => ok t a) s as) : EachStep st P s as := by
  induction as generalizing s with
  | nil => trivial
  | cons a as ih =>
    intro s' hs'
    obtain ⟨ho, hr⟩ := h s' hs'
    exact ⟨hg s a s' hs ho hs', ih (hk s a s' hs ho hs') hr⟩

/-- **If every orderly step keeps the invariant, and under the invariant a step is good exactly
if it is orderly, then the steps of a run are all good exactly if they are all orderly.** -/
theorem eachStep_iff (hg : ∀ t a t', I t → st t a = some t' → (P t a t' ↔ ok t a))
    (hk : ∀ t a t', I t → ok t a → st t a = some t' → I t') (hs : I s) (as : List α) :
    EachStep st P s as ↔ EachStep st (fun t a _ => ok t a) s as := by
  induction as generalizing s with
  | nil => exact Iff.rfl
  | cons a as ih =>
    refine forall₂_congr fun s' hs' => ?_
    constructor
    · rintro ⟨hP, hr⟩
      have ho := (hg s a s' hs hs').1 hP
      exact ⟨ho, (ih (hk s a s' hs ho hs')).1 hr⟩
    · rintro ⟨ho, hr⟩
      exact ⟨(hg s a s' hs hs').2 ho, (ih (hk s a s' hs ho hs')).2 hr⟩

end Runs

/-! ### Calls under way -/

/-- The calls of a process: what each was called with, and where it is. -/
abbrev Pool (κ : Type u) (φ : Type v) := List (κ × φ)

namespace Pool

variable {κ : Type u} {φ : Type v} {p : Pool κ φ}

/-- The call `i` was made with `k` and is at `x`. -/
def At (p : Pool κ φ) (i : ℕ) (k : κ) (x : φ) : Prop := p[i]? = some (k, x)

/-- A new call. -/
def start (p : Pool κ φ) (k : κ) (x : φ) : Pool κ φ := p ++ [(k, x)]

/-- The call `i` goes on to `x`. -/
def move (p : Pool κ φ) (i : ℕ) (x : φ) : Pool κ φ := p.modify i fun t => (t.1, x)

variable {i : ℕ}
variable {k k' : κ} {x x' : φ}

theorem At.unique (h : p.At i k x) (h' : p.At i k' x') : k = k' ∧ x = x' := by
  have heq := h.symm.trans h'
  simpa using heq

theorem At.lt_length (h : p.At i k x) : i < p.length :=
  (List.getElem?_eq_some_iff.1 h).1

theorem at_start : (p.start k x).At i k' x' ↔ p.At i k' x' ∨ i = p.length ∧ k' = k ∧ x' = x := by
  unfold At start
  rcases Nat.lt_trichotomy i p.length with hi | hi | hi
  · rw [List.getElem?_append_left hi]
    simp [Nat.ne_of_lt hi]
  · subst hi
    simp [eq_comm]
  · rw [List.getElem?_eq_none (by simp; omega), List.getElem?_eq_none (Nat.le_of_lt hi)]
    simp [Nat.ne_of_gt hi]

theorem at_move {y : φ} (h : p.At i k x) {j : ℕ} :
    (p.move i y).At j k' x' ↔ if i = j then k' = k ∧ x' = y else p.At j k' x' := by
  unfold At move at *
  by_cases hi : i = j
  · subst hi
    simp [h, eq_comm]
  · simp [hi]

theorem each_start {P : κ → φ → Prop} (h : ∀ i k x, p.At i k x → P k x)
    (hn : P k x) (ha : (p.start k x).At i k' x') : P k' x' := by
  rcases at_start.1 ha with hold | ⟨-, rfl, rfl⟩
  · exact h i k' x' hold
  · exact hn

/-- The same when a call goes on. -/
theorem each_move {P : κ → φ → Prop} (h : ∀ i k x, p.At i k x → P k x) {y : φ}
    (hi : p.At i k x) (hn : P k y) {j : ℕ} (ha : (p.move i y).At j k' x') : P k' x' := by
  rw [at_move hi] at ha
  split at ha
  · obtain ⟨rfl, rfl⟩ := ha
    exact hn
  · exact h j k' x' ha

end Pool
end TradutorLinux
