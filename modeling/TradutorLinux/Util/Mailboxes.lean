import Mathlib.Data.List.Basic

/-!
# Mailboxes

Messages are sent to boxes, each of them first in, first out, and are taken from
the boxes one by one.  Some boxes are looked into before others.  Messages may
be lost from a box, whichever they are.

## Main definitions

* `Mailboxes` — what has been sent to which box, what waits in each, and what has been taken.
* `Mailboxes.send`, `Mailboxes.take` — a message is sent, or taken.

## Main results

* `Mailboxes.sound_send`, `Mailboxes.sound_take`, `Mailboxes.sound_lose` — **nothing is taken twice,
  and a message is overtaken only by one of another box that is not looked into later.**
-/

namespace TradutorLinux

open List Function

/-- Messages are numbered in the order in which they are sent. -/
structure Mailboxes (κ : Type*) where
  /-- The box of every message that has been sent. -/
  sent : List κ := []
  waiting : κ → List ℕ := fun _ => []
  taken : List ℕ := []

namespace Mailboxes

variable {κ : Type*} {first f : κ → κ → Prop} {m m' : Mailboxes κ} {k : κ} {a b n : ℕ}

/-- The message `b` may be taken after `a` although it was sent before. -/
def Overtaken (first : κ → κ → Prop) (m : Mailboxes κ) (a b : ℕ) : Prop :=
  ∃ j k, m.sent[a]? = some j ∧ m.sent[b]? = some k ∧ k ≠ j ∧ ¬ first k j

/-- What holds in every run. -/
structure Sound (first : κ → κ → Prop) (m : Mailboxes κ) : Prop where
  ordered : ∀ k, (m.waiting k).Pairwise (· < ·)
  sent : ∀ k, ∀ n ∈ m.waiting k, m.sent[n]? = some k
  known : ∀ n ∈ m.taken, n < m.sent.length
  untaken : ∀ k, ∀ n ∈ m.waiting k, n ∉ m.taken
  nodup : m.taken.Nodup
  behind : ∀ a ∈ m.taken, ∀ k, ∀ b ∈ m.waiting k, b < a → Overtaken first m a b
  order : m.taken.Pairwise fun a b => a < b ∨ Overtaken first m a b

theorem sound_empty : Sound f ({} : Mailboxes κ) where
  ordered _ := List.Pairwise.nil
  sent _ _ hn := by cases hn
  known _ hn := by cases hn
  untaken _ _ hn := by cases hn
  nodup := nodup_nil
  behind _ ha := by cases ha
  order := List.Pairwise.nil

theorem sound_lose (h : Sound f m) {w : κ → List ℕ} (hl : ∀ k, (w k).Sublist (m.waiting k)) :
    Sound f { m with waiting := w } where
  ordered k := (h.ordered k).sublist (hl k)
  sent k n hn := h.sent k n ((hl k).subset hn)
  known := h.known
  untaken k n hn := h.untaken k n ((hl k).subset hn)
  nodup := h.nodup
  behind a ha k b hb := h.behind a ha k b ((hl k).subset hb)
  order := h.order

/-! ### Steps -/

variable [DecidableEq κ]

def send (m : Mailboxes κ) (k : κ) : Mailboxes κ :=
  { m with
      sent := m.sent ++ [k]
      waiting := update m.waiting k (m.waiting k ++ [m.sent.length]) }

def take (m : Mailboxes κ) (k : κ) (n : ℕ) (rest : List ℕ) : Mailboxes κ :=
  { m with waiting := update m.waiting k rest, taken := m.taken ++ [n] }

theorem Overtaken.send (h : Overtaken f m a b) (k : κ) : Overtaken f (m.send k) a b := by
  obtain ⟨i, j, ha, hb, ho⟩ := h
  refine ⟨i, j, ?_, ?_, ho⟩
  · exact (getElem?_append_left (List.getElem?_eq_some_iff.1 ha).1).trans ha
  · exact (getElem?_append_left (List.getElem?_eq_some_iff.1 hb).1).trans hb

theorem sound_send (h : Sound f m) (k : κ) : Sound f (m.send k) := by
  have hl : ∀ j, ∀ n ∈ m.waiting j, n < m.sent.length := by
    intro j n hn
    exact (List.getElem?_eq_some_iff.1 (h.sent j n hn)).1
  -- what waits afterwards waited before, or is the message that is sent
  have hm : ∀ j, ∀ n ∈ (m.send k).waiting j, n ∈ m.waiting j ∨ j = k ∧ n = m.sent.length := by
    intro j n hn
    by_cases hj : j = k
    · subst hj
      have hx : (m.send j).waiting j = m.waiting j ++ [m.sent.length] := update_self _ _ _
      rw [hx] at hn
      rcases mem_append.1 hn with hn | hn
      · exact .inl hn
      · exact .inr ⟨rfl, mem_singleton.1 hn⟩
    · have hx : (m.send k).waiting j = m.waiting j := update_of_ne hj _ _
      rw [hx] at hn
      exact .inl hn
  refine { ordered := ?_, sent := ?_, known := ?_, untaken := ?_, nodup := h.nodup,
           behind := ?_, order := h.order.imp ?_ }
  · intro j
    by_cases hj : j = k
    · subst hj
      have hx : (m.send j).waiting j = m.waiting j ++ [m.sent.length] := update_self _ _ _
      rw [hx, pairwise_append]
      refine ⟨h.ordered j, pairwise_singleton _ _, ?_⟩
      intro a ha b hb
      rw [mem_singleton.1 hb]
      exact hl j a ha
    · have hx : (m.send k).waiting j = m.waiting j := update_of_ne hj _ _
      rw [hx]
      exact h.ordered j
  · intro j n hn
    rcases hm j n hn with hn | ⟨rfl, rfl⟩
    · exact (getElem?_append_left (hl j n hn)).trans (h.sent j n hn)
    · show (m.sent ++ [j])[m.sent.length]? = some j
      rw [getElem?_append_right (Nat.le_refl _), Nat.sub_self]
      rfl
  · intro n hn
    show n < (m.sent ++ [k]).length
    rw [length_append]
    exact Nat.lt_add_right _ (h.known n hn)
  · intro j n hn
    rcases hm j n hn with hn | ⟨-, rfl⟩
    · exact h.untaken j n hn
    · exact fun ht => Nat.lt_irrefl _ (h.known _ ht)
  · intro a ha j b hb hba
    rcases hm j b hb with hb | ⟨-, rfl⟩
    · exact (h.behind a ha j b hb hba).send k
    · exact absurd (h.known a ha) (Nat.not_lt.2 (Nat.le_of_lt hba))
  · intro a b hab
    exact hab.imp_right fun ho => ho.send k

theorem sound_take (h : Sound f m) {rest : List ℕ} (hh : m.waiting k = n :: rest)
    (he : ∀ j, f j k → m.waiting j = []) : Sound f (m.take k n rest) := by
  have hr := h.ordered k
  rw [hh, pairwise_cons] at hr
  have hn : n ∈ m.waiting k := by
    rw [hh]
    exact mem_cons_self
  -- what waits afterwards waited before, and is another message
  have hm : ∀ j, ∀ b ∈ (m.take k n rest).waiting j, b ∈ m.waiting j ∧ (j = k → n < b) := by
    intro j b hb
    by_cases hj : j = k
    · subst hj
      have ho : (m.take j n rest).waiting j = rest := update_self _ _ _
      rw [ho] at hb
      rw [hh]
      exact ⟨mem_cons_of_mem n hb, fun _ => hr.1 b hb⟩
    · have ho : (m.take k n rest).waiting j = m.waiting j := update_of_ne hj _ _
      rw [ho] at hb
      exact ⟨hb, fun heq => absurd heq hj⟩
  have hne : ∀ j, ∀ b ∈ (m.take k n rest).waiting j, b ≠ n := by
    rintro j b hb rfl
    obtain ⟨hb, hs⟩ := hm j b hb
    have ho := (h.sent j b hb).symm.trans (h.sent k b hn)
    exact Nat.lt_irrefl _ (hs (Option.some.inj ho))
  refine { ordered := ?_, sent := ?_, known := ?_, untaken := ?_, nodup := ?_, behind := ?_,
           order := ?_ }
  · intro j
    by_cases hj : j = k
    · subst hj
      have ho : (m.take j n rest).waiting j = rest := update_self _ _ _
      rw [ho]
      exact hr.2
    · have ho : (m.take k n rest).waiting j = m.waiting j := update_of_ne hj _ _
      rw [ho]
      exact h.ordered j
  · intro j b hb
    exact h.sent j b (hm j b hb).1
  · intro a ha
    rcases mem_append.1 ha with ha | ha
    · exact h.known a ha
    · rw [mem_singleton.1 ha]
      exact (List.getElem?_eq_some_iff.1 (h.sent k n hn)).1
  · intro j b hb ht
    rcases mem_append.1 ht with ht | ht
    · exact h.untaken j b (hm j b hb).1 ht
    · exact hne j b hb (mem_singleton.1 ht)
  · refine nodup_append.2 ⟨h.nodup, pairwise_singleton _ _, ?_⟩
    intro a ha b hb hab
    rw [mem_singleton.1 hb] at hab
    exact h.untaken k n hn (hab ▸ ha)
  · intro a ha j b hb hba
    obtain ⟨hw, hs⟩ := hm j b hb
    rcases mem_append.1 ha with ha | ha
    · exact h.behind a ha j b hw hba
    -- an older message waits in another box, and not in one that is looked into before
    have han := mem_singleton.1 ha
    subst han
    refine ⟨k, j, h.sent k a hn, h.sent j b hw, ?_, ?_⟩
    · intro hk
      exact absurd (hs hk) (Nat.not_lt.2 (Nat.le_of_lt hba))
    · intro hf
      rw [he j hf] at hw
      cases hw
  · refine pairwise_append.2 ⟨h.order, pairwise_singleton _ _, ?_⟩
    intro a ha b hb
    rw [mem_singleton.1 hb]
    rcases Nat.lt_trichotomy a n with hl | heq | hg
    · exact .inl hl
    · exact absurd (heq ▸ ha) (h.untaken k n hn)
    · exact .inr (h.behind a ha k n hn hg)

end Mailboxes
end TradutorLinux
