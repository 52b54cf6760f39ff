import TradutorLinux.Util.Agree
import Mathlib.Data.List.Forall2

/-!
# Fallible loops

A loop whose body fails, goes on from a new state or leaves with a result.  When
every round makes a measure smaller, a bound above the measure is never reached,
so the loop runs until it leaves.

## Main definitions

* `iterate step exhausted n s` — at most `n` rounds.
* `Loop` — a step, and the measure that bounds its rounds.
* `eachAgainst f` — a loop over a list whose body sees what it has made so far.

## Main results

* `iterate_invariant`, `iterate_agree`
* `eachAgainst_eq_ok`
-/

namespace TradutorLinux

open List

variable {ε ε' σ σ' ρ ρ' : Type}

/-- At most `n` rounds of `step`; `exhausted` when there is no result then. -/
def iterate (step : σ → Except ε (σ ⊕ ρ)) (exhausted : ε) : ℕ → σ → Except ε ρ
  | 0, _ => .error exhausted
  | n + 1, s =>
    step s >>= fun next =>
      match next with
      | .inl s' => iterate step exhausted n s'
      | .inr r => .ok r

/-- A loop: its body, and a measure of the states. -/
structure Loop (ε σ ρ : Type) where
  step : σ → Except ε (σ ⊕ ρ)
  measure : σ → ℕ
  decreases : ∀ s s', step s = .ok (.inl s') → measure s' < measure s

variable {step : σ → Except ε (σ ⊕ ρ)} {exhausted e : ε}

/-- **What every round keeps** holds where the loop leaves. -/
theorem iterate_invariant {P : σ → Prop} {Q : ρ → Prop}
    (ho : ∀ s s', P s → step s = .ok (.inl s') → P s')
    (hl : ∀ s r, P s → step s = .ok (.inr r) → Q r) {n : ℕ} {r : ρ} :
    ∀ {s : σ}, P s → iterate step e n s = .ok r → Q r := by
  induction n with
  | zero => intro s _ h; cases h
  | succ n ih =>
    intro s hs h
    obtain ⟨ne, hn, hr⟩ := bind_eq_ok.1 h
    cases ne with
    | inl s' => exact ih (ho s s' hs hn) hr
    | inr r' =>
      obtain rfl := Except.ok.inj hr
      exact hl s r' hs hn

theorem iterate_keeps {step : σ → Except ε (σ ⊕ σ)} {P : σ → Prop}
    (ht : ∀ s ne, P s → step s = .ok ne → P (ne.elim id id)) {n : ℕ} {s r : σ} :
    P s → iterate step e n s = .ok r → P r :=
  iterate_invariant (fun s _ hs => ht s _ hs) fun s _ hs => ht s _ hs

theorem iterate_agree {st' : σ' → Except ε' (σ' ⊕ ρ')} {e' : ε'}
    {E : ε → ε' → Prop} {R : σ → σ' → Prop} {S : ρ → ρ' → Prop}
    (hs : ∀ s s', R s s' → Agree E (Sum.LiftRel R S) (step s) (st' s')) (he : E e e') (n : ℕ) :
    ∀ {s : σ} {s' : σ'}, R s s' → Agree E S (iterate step e n s) (iterate st' e' n s') := by
  induction n with
  | zero => intro s s' _; exact he
  | succ n ih =>
    intro s s' h
    refine (hs s s' h).bind fun ne n' hn => ?_
    cases hn with
    | inl hr => exact ih hr
    | inr hl => exact hl

namespace Loop

variable (loop : Loop ε σ ρ)

/-- The loop, with the bound that its measure gives. -/
def run (exhausted : ε) (s : σ) : Except ε ρ :=
  iterate loop.step exhausted (loop.measure s + 1) s

end Loop

/-! ### Loops over a list -/

variable {α β : Type}

/-- Each value in turn, against what has been made of those before it. -/
def eachAgainst (f : List β → α → Except ε β) : List β → List α → Except ε (List β)
  | _, [] => .ok []
  | seen, a :: rest =>
    f seen a >>= fun b => eachAgainst f (seen ++ [b]) rest >>= fun bs => .ok (b :: bs)

/-- **Each value is right, and right next to all before it.** -/
theorem eachAgainst_eq_ok {f : List β → α → Except ε β} {P : α → β → Prop} {R : β → β → Prop}
    (hf : ∀ se a b, f se a = .ok b ↔ P a b ∧ ∀ s ∈ se, R s b) {as : List α} :
    ∀ {se bs : List β}, eachAgainst f se as = .ok bs ↔
      List.Forall₂ P as bs ∧ bs.Pairwise R ∧ ∀ s ∈ se, ∀ b ∈ bs, R s b := by
  induction as with
  | nil =>
    intro se bs
    constructor
    · intro h
      cases h
      exact ⟨.nil, .nil, fun s _ b hb => absurd hb not_mem_nil⟩
    · rintro ⟨h, -, -⟩
      cases h
      rfl
  | cons a r ih =>
    intro se bs
    constructor
    · intro h
      obtain ⟨b, hi, h⟩ := bind_eq_ok.1 h
      obtain ⟨bs', hr, h⟩ := bind_eq_ok.1 h
      cases h
      obtain ⟨hb, hse⟩ := (hf se a b).1 hi
      obtain ⟨ha, hp, he⟩ := ih.1 hr
      refine ⟨.cons hb ha, pairwise_cons.2 ⟨fun c hc => ?_, hp⟩, fun s hs c hc => ?_⟩
      · exact he b (by simp) c hc
      · rcases mem_cons.1 hc with rfl | hc
        · exact hse s hs
        · exact he s (mem_append_left _ hs) c hc
    · rintro ⟨ha, hp, he⟩
      cases ha with
      | @cons _ b _ bs' hb ha =>
        obtain ⟨hi, hp⟩ := pairwise_cons.1 hp
        have hh := (hf se a b).2 ⟨hb, fun s hs => he s hs b mem_cons_self⟩
        have ht : eachAgainst f (se ++ [b]) r = .ok bs' := by
          refine ih.2 ⟨ha, hp, fun s hs c hc => ?_⟩
          rcases mem_append.1 hs with hs | hs
          · exact he s hs c (mem_cons_of_mem _ hc)
          · rw [mem_singleton.1 hs]
            exact hi c hc
        exact bind_of_ok hh (bind_of_ok ht rfl)

/-- A loop that only tests its values. -/
theorem eachAgainst_check {f : List α → α → Except ε α} {Q : α → Prop} {R : α → α → Prop}
    (hf : ∀ se a b, f se a = .ok b ↔ (Q a ∧ a = b) ∧ ∀ s ∈ se, R s b) {as bs : List α} :
    eachAgainst f [] as = .ok bs ↔ as = bs ∧ (∀ a ∈ as, Q a) ∧ as.Pairwise R := by
  rw [eachAgainst_eq_ok hf, forall₂_and_left, forall₂_eq_eq_eq]
  constructor
  · rintro ⟨⟨hQ, rfl⟩, hp, -⟩
    exact ⟨rfl, hQ, hp⟩
  · rintro ⟨rfl, hQ, hp⟩
    exact ⟨⟨hQ, rfl⟩, hp, fun s hs => absurd hs not_mem_nil⟩

theorem exists_eachAgainst {f : List α → α → Except ε α} {Q : α → Prop} {R : α → α → Prop}
    (hf : ∀ se a b, f se a = .ok b ↔ (Q a ∧ a = b) ∧ ∀ s ∈ se, R s b) {as : List α} :
    (∃ bs, eachAgainst f [] as = .ok bs) ↔ (∀ a ∈ as, Q a) ∧ as.Pairwise R := by
  simp [eachAgainst_check hf]

end TradutorLinux
