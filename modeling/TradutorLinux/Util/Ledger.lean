import Mathlib.Data.Nat.Notation
import Mathlib.Logic.Function.Basic

/-!
# Reference counts against a ledger

Handles stand for objects: a handle is issued for a new object, each duplicate
adds a reference to it, each close takes one away, and at some point the object
is destroyed.  The ledger counts what has happened to every object that was ever
issued; the reference counts are what a program keeps.

## Main definitions

* `Ledger` — the objects, numbered in the order in which they were issued.

## Main results

* `Agrees.issue`, `Agrees.duplicate`, `Agrees.close`, `Agrees.destroy` — **each
  operation on a reference count is the one on the ledger.**
* `Agrees.closes_le`, `Agrees.destroyed_iff` — what agreement says of an object.
-/

namespace TradutorLinux

open Function Option

universe u v

/-- What has happened to the objects: the one a handle stands for, and for each object the
references that were added and closed, and what was done each time it was destroyed. -/
structure Ledger (η : Type u) (ε : Type v) where
  issued : ℕ := 0
  current : η → Option ℕ := fun _ => none
  duplicates : ℕ → ℕ := fun _ => 0
  closes : ℕ → ℕ := fun _ => 0
  destroyed : ℕ → List ε := fun _ => []

namespace Ledger

variable {η : Type u} {ε : Type v}

/-- A handle is issued for a new object. -/
def issue [DecidableEq η] (l : Ledger η ε) (h : η) : Ledger η ε :=
  { l with issued := l.issued + 1, current := update l.current h (some l.issued) }

/-- A reference is added to the object of the handle. -/
def duplicate (l : Ledger η ε) (h : η) : Ledger η ε :=
  match l.current h with
  | none => l
  | some o => { l with duplicates := update l.duplicates o (l.duplicates o + 1) }

def close (l : Ledger η ε) (h : η) : Ledger η ε :=
  match l.current h with
  | none => l
  | some o => { l with closes := update l.closes o (l.closes o + 1) }

/-- The object of the handle is destroyed, by `effect`. -/
def destroy (l : Ledger η ε) (h : η) (effect : ε) : Ledger η ε :=
  match l.current h with
  | none => l
  | some o => { l with destroyed := update l.destroyed o (l.destroyed o ++ [effect]) }

/-- The counts `refs` fit the ledger: a count is what is left of the references of an object
that has not been destroyed, and every other object has been destroyed once, after its last
close. -/
structure Agrees (l : Ledger η ε) (refs : η → Option ℕ) : Prop where
  fresh : ∀ h o, l.current h = some o → o < l.issued
  apart : ∀ h h' o, l.current h = some o → l.current h' = some o → h = h'
  unused : ∀ o, l.issued ≤ o → l.duplicates o = 0 ∧ l.closes o = 0 ∧ l.destroyed o = []
  alive : ∀ h n, refs h = some n → ∃ o, l.current h = some o ∧
    n + l.closes o = 1 + l.duplicates o ∧ l.destroyed o = []
  gone : ∀ o < l.issued, (∀ h n, refs h = some n → l.current h ≠ some o) →
    l.closes o = 1 + l.duplicates o ∧ ∃ effect, l.destroyed o = [effect]

variable {l : Ledger η ε} {refs : η → Option ℕ} {h : η} {n : ℕ}

theorem agrees_empty : Agrees ({} : Ledger η ε) fun _ => none where
  fresh := fun h o hc => by cases hc
  apart := fun h h' o hc => by cases hc
  unused := fun _ _ => ⟨rfl, rfl, rfl⟩
  alive := fun h n hr => by cases hr
  gone := fun o ho => absurd ho (Nat.not_lt_zero o)

namespace Agrees

section

variable (ha : l.Agrees refs)
include ha

theorem issue [DecidableEq η] (hf : refs h = none) :
    (l.issue h).Agrees (update refs h (some 1)) where
  fresh := fun h' o hu => by
    simp only [Ledger.issue, update_apply] at hu ⊢
    split at hu
    · cases hu
      exact Nat.lt_succ_self _
    · exact Nat.lt_succ_of_lt (ha.fresh h' o hu)
  apart := fun h₁ h₂ o hc₁ hc₂ => by
    simp only [Ledger.issue, update_apply] at hc₁ hc₂
    split at hc₁ <;> split at hc₂
    · next hq h₂eq => rw [hq, h₂eq]
    · cases hc₁
      exact absurd (ha.fresh h₂ _ hc₂) (Nat.lt_irrefl _)
    · cases hc₂
      exact absurd (ha.fresh h₁ _ hc₁) (Nat.lt_irrefl _)
    · exact ha.apart h₁ h₂ o hc₁ hc₂
  unused := fun o ho => ha.unused o (Nat.le_of_succ_le ho)
  alive := fun h' n hr => by
    simp only [Ledger.issue, update_apply] at hr ⊢
    split at hr
    · next heq =>
      cases hr
      obtain ⟨hp, hc, hd⟩ := ha.unused l.issued (Nat.le_refl _)
      exact ⟨l.issued, if_pos heq, by rw [hp, hc], hd⟩
    · next he =>
      obtain ⟨o, hu, hco, hd⟩ := ha.alive h' n hr
      exact ⟨o, by rw [if_neg he]; exact hu, hco, hd⟩
  gone := fun o ho hn => by
    simp only [Ledger.issue, update_apply] at ho hn ⊢
    have he : o ≠ l.issued := by
      rintro rfl
      exact hn h 1 (if_pos rfl) (if_pos rfl)
    refine ha.gone o (by omega) fun h' n hr hu => ?_
    have hh' : h' ≠ h := by
      rintro rfl
      rw [hf] at hr
      cases hr
    exact hn h' n (by rw [if_neg hh']; exact hr) (by rw [if_neg hh']; exact hu)

theorem change (hf : refs h = some n) {l' : Ledger η ε}
    {rs' : η → Option ℕ} {o : ℕ} (hu : l.current h = some o)
    (hi : l'.issued = l.issued) (hcr : l'.current = l.current)
    (ho : ∀ o', o' ≠ o → l'.duplicates o' = l.duplicates o' ∧ l'.closes o' = l.closes o' ∧
      l'.destroyed o' = l.destroyed o') (hr : ∀ h', h' ≠ h → rs' h' = refs h')
    (hs : (∃ m, rs' h = some m ∧ m + l'.closes o = 1 + l'.duplicates o ∧ l'.destroyed o = []) ∨
      rs' h = none ∧ l'.closes o = 1 + l'.duplicates o ∧ ∃ e, l'.destroyed o = [e]) :
    l'.Agrees rs' where
  fresh := by rw [hcr, hi]; exact ha.fresh
  apart := by rw [hcr]; exact ha.apart
  unused := fun o' ho' => by
    rw [hi] at ho'
    have he : o' ≠ o := by
      rintro rfl
      exact absurd (ha.fresh h o' hu) (Nat.not_lt.2 ho')
    obtain ⟨hp, hc, hd⟩ := ho o' he
    rw [hp, hc, hd]
    exact ha.unused o' ho'
  alive := fun h' m hr' => by
    rw [hcr]
    by_cases hh' : h' = h
    · subst hh'
      rcases hs with ⟨m', hm', hco, hd⟩ | ⟨hn, -⟩
      · cases hr'.symm.trans hm'
        exact ⟨o, hu, hco, hd⟩
      · rw [hn] at hr'
        cases hr'
    · rw [hr h' hh'] at hr'
      obtain ⟨o', hc', hco, hd'⟩ := ha.alive h' m hr'
      have he : o' ≠ o := by
        rintro rfl
        exact hh' (ha.apart h' h o' hc' hu)
      obtain ⟨hp, hc, hd⟩ := ho o' he
      exact ⟨o', hc', by rw [hp, hc]; exact hco, by rw [hd]; exact hd'⟩
  gone := fun o' ho' hn => by
    rw [hi] at ho'
    rw [hcr] at hn
    by_cases he : o' = o
    · subst he
      rcases hs with ⟨m, hm, -⟩ | ⟨-, hdo⟩
      · exact absurd hu (hn h m hm)
      · exact hdo
    · obtain ⟨hp, hc, hd⟩ := ho o' he
      rw [hp, hc, hd]
      refine ha.gone o' ho' fun h' m hr' hc' => ?_
      have hh' : h' ≠ h := by
        rintro rfl
        exact he (some.inj (hc'.symm.trans hu))
      exact hn h' m (by rw [hr h' hh']; exact hr') hc'

theorem duplicate [DecidableEq η] (hr : refs h = some n) :
    (l.duplicate h).Agrees (update refs h (some (n + 1))) := by
  obtain ⟨o, hu, hc, hd⟩ := ha.alive h n hr
  unfold Ledger.duplicate
  rw [hu]
  refine ha.change hr hu rfl rfl (fun o' hn => ⟨update_of_ne hn _ _, rfl, rfl⟩)
    (fun h' hn => update_of_ne hn _ _)
    (.inl ⟨n + 1, update_self h _ _, ?_, hd⟩)
  simp only [update_self]
  omega

theorem close [DecidableEq η] (hr : refs h = some (n + 1)) :
    (l.close h).Agrees (update refs h (some n)) := by
  obtain ⟨o, hu, hc, hd⟩ := ha.alive h (n + 1) hr
  unfold Ledger.close
  rw [hu]
  refine ha.change hr hu rfl rfl (fun o' hn => ⟨rfl, update_of_ne hn _ _, rfl⟩)
    (fun h' hn => update_of_ne hn _ _)
    (.inl ⟨n, update_self h _ _, ?_, hd⟩)
  simp only [update_self]
  omega

theorem destroy [DecidableEq η] (hr : refs h = some 0) (e : ε) :
    (l.destroy h e).Agrees (update refs h none) := by
  obtain ⟨o, hu, hc, hd⟩ := ha.alive h 0 hr
  unfold Ledger.destroy
  rw [hu]
  refine ha.change hr hu rfl rfl (fun o' hn => ⟨rfl, rfl, update_of_ne hn _ _⟩)
    (fun h' hn => update_of_ne hn _ _)
    (.inr ⟨update_self h _ _, ?_, e, ?_⟩)
  · simpa using hc
  · simp [update_self, hd, List.nil_append]

theorem closeLast [DecidableEq η] (hr : refs h = some 1) (e : ε) :
    ((l.close h).destroy h e).Agrees (update refs h none) := by
  have h₁ := ha.close hr
  have h₂ := h₁.destroy (update_self h _ _) e
  rwa [update_idem] at h₂

theorem closes_le {o : ℕ} (ho : o < l.issued) : l.closes o ≤ 1 + l.duplicates o := by
  by_cases hl : ∃ h n, refs h = some n ∧ l.current h = some o
  · obtain ⟨h, n, hr, hu⟩ := hl
    obtain ⟨o', hc', hc, -⟩ := ha.alive h n hr
    cases hu.symm.trans hc'
    omega
  · have hg := ha.gone o ho fun h n hr hu => hl ⟨h, n, hr, hu⟩
    omega

/-- An object is destroyed once, and exactly when its references are closed and no handle
keeps it. -/
theorem destroyed_iff {o : ℕ} (ho : o < l.issued) :
    (l.destroyed o).length ≤ 1 ∧ (l.destroyed o ≠ [] ↔ l.closes o = 1 + l.duplicates o ∧
      ∀ h, l.current h = some o → refs h ≠ some 0) := by
  by_cases hal : ∃ h n, refs h = some n ∧ l.current h = some o
  · obtain ⟨h, n, hr, hu⟩ := hal
    obtain ⟨o', hc', hc, hd⟩ := ha.alive h n hr
    cases hu.symm.trans hc'
    refine ⟨by rw [hd]; exact Nat.zero_le 1, fun he => absurd hd he, fun ⟨hl, hk⟩ => ?_⟩
    obtain rfl : n = 0 := by omega
    exact absurd hr (hk h hu)
  · have hn : ∀ h n, refs h = some n → l.current h ≠ some o :=
      fun h n hr hu => hal ⟨h, n, hr, hu⟩
    obtain ⟨hl, e, hd⟩ := ha.gone o ho hn
    refine ⟨by rw [hd]; exact Nat.le_refl 1, fun _ => ⟨hl, fun h hu hr => ?_⟩, fun _ => ?_⟩
    · exact hn h 0 hr hu
    · rw [hd]
      exact List.cons_ne_nil _ _

end

end Agrees
end Ledger
end TradutorLinux
