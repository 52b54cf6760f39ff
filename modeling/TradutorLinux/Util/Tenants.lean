import TradutorLinux.Util.Runs

/-!
# Calls on a table whose slots are used again

A slot of a table holds one object after the other; `tenant` numbers the objects
each slot has held.  A call keeps the slot and the object it found there, and
some of the places it can reach are behind the lookup and before its end.

## Main definitions

* `Lodging` — what a call keeps of its lookup, and where it depends on it.

## Main results

* `Lodging.current_start`, `Lodging.current_move`, `Lodging.current_relet` —
  **a slot given to a new object disturbs no call if none is under way there.**
-/

namespace TradutorLinux

universe u v

/-- The slot and the object a call has found, and the places at which it is under way. -/
structure Lodging (κ : Type u) (φ : Type v) where
  slot : κ → ℕ
  object : κ → ℕ
  live : φ → Bool

namespace Lodging

variable {κ : Type u} {φ : Type v} (l : Lodging κ φ) {p : Pool κ φ} {tenant tt te : ℕ → ℕ}

/-- No call that is under way is at the slot `j`. -/
def NoneAt (p : Pool κ φ) (j : ℕ) : Prop :=
  ∀ t ∈ p, l.live t.2 = true → l.slot t.1 ≠ j

instance (j : ℕ) : Decidable (l.NoneAt p j) := inferInstanceAs (Decidable (∀ t ∈ p, _))

/-- A call under way is at the object it found. -/
def Current (p : Pool κ φ) (tenant : ℕ → ℕ) : Prop :=
  ∀ i k x, p.At i k x → l.live x = true → tenant (l.slot k) = l.object k

variable {l}

theorem NoneAt.slot_ne {j i : ℕ} {k : κ} {x : φ} (h : l.NoneAt p j) (ha : p.At i k x)
    (hx : l.live x) : l.slot k ≠ j :=
  h (k, x) (List.mem_of_getElem? ha) hx

theorem current_nil : l.Current ([] : Pool κ φ) tenant := by
  intro i k x ha
  simp [Pool.At] at ha

theorem current_start (h : l.Current p tenant) {k : κ} {x : φ}
    (hk : tenant (l.slot k) = l.object k) : l.Current (p.start k x) tenant := by
  intro i k' x' ha
  exact Pool.each_start (P := fun k x => l.live x → tenant (l.slot k) = l.object k)
    h (fun _ => hk) ha

theorem current_move (h : l.Current p tenant) {i : ℕ} {k : κ} {x y : φ} (ha : p.At i k x)
    (hy : l.live y → l.live x) : l.Current (p.move i y) tenant := by
  intro j k' x' ha'
  exact Pool.each_move (P := fun k x => l.live x → tenant (l.slot k) = l.object k)
    h ha (fun hl => h i k x ha (hy hl)) ha'

theorem current_relet (h : l.Current p te) {j n : ℕ} (hn : l.NoneAt p j) :
    l.Current p (Function.update te j n) := by
  intro i k x ha hx
  rw [Function.update_of_ne (hn.slot_ne ha hx)]
  exact h i k x ha hx

end Lodging
end TradutorLinux
