import Mathlib.Data.Fintype.Card

/-!
# Sweeps over a finite graph

The nodes of a graph are live or not, and a live node names others.  A sweep
takes a node away with all that it leads to: it goes down into the live nodes
that the node names, one after the other, and takes the node away last.

## Main definitions

* `sweep`

## Main results

* `exists_rank` — in a finite graph without cycles every node has a rank below the
  number of nodes, and the rank goes down along a link.
* `sweep_eq` — **without cycles a sweep ends, and takes away exactly what is below
  its node**, also where several nodes name one.
-/

namespace TradutorLinux

open Function List

universe u

variable {α : Type u}

/-! ### Graphs without cycles -/

open Classical in
/-- The nodes that are strictly below are fewer the deeper a node is. -/
theorem exists_rank [Fintype α] {r : α → α → Prop} (ha : ∀ a, ¬ Relation.TransGen r a a) :
    ∃ ra : α → ℕ, (∀ a b, r a b → ra b < ra a) ∧ ∀ a, ra a < Fintype.card α := by
  refine ⟨fun a => (Finset.univ.filter fun b => Relation.TransGen r a b).card, ?_, ?_⟩
  · intro a b hb
    apply Finset.card_lt_card
    rw [Finset.ssubset_iff_of_subset]
    · refine ⟨b, ?_, ?_⟩
      · simpa using Relation.TransGen.single hb
      · simpa using ha b
    · intro c hc
      simp only [Finset.mem_filter, Finset.mem_univ, true_and] at hc ⊢
      exact hc.head hb
  · intro a
    apply Finset.card_lt_univ_of_notMem (x := a)
    simpa using ha a

/-- With new edges from one node to nodes that do not lead to it there are still no cycles. -/
theorem acyclic_add {r r' : α → α → Prop} {m : α} {q : α → Prop}
    (hy : ∀ a, ¬ Relation.TransGen r a a) (ha : ∀ a b, r' a b → r a b ∨ a = m ∧ q b)
    (hq : ∀ b, q b → ¬ Relation.ReflTransGen r b m) (a : α) : ¬ Relation.TransGen r' a a := by
  -- a path has no new edge, or goes through `m` and a node behind a new edge
  have hp : ∀ b, Relation.TransGen r' a b → Relation.TransGen r a b ∨
      Relation.ReflTransGen r a m ∧ ∃ c, q c ∧ Relation.ReflTransGen r c b := by
    intro b hab
    induction hab with
    | single h =>
      rcases ha _ _ h with hold | ⟨rfl, hn⟩
      · exact .inl (.single hold)
      · exact .inr ⟨.refl, _, hn, .refl⟩
    | tail _ h ih =>
      rcases ih with ih | ⟨hm, c, hc, hb⟩
      · rcases ha _ _ h with hold | ⟨rfl, hn⟩
        · exact .inl (ih.tail hold)
        · exact .inr ⟨ih.to_reflTransGen, _, hn, .refl⟩
      · rcases ha _ _ h with hold | ⟨rfl, hn⟩
        · exact .inr ⟨hm, c, hc, hb.tail hold⟩
        · exact absurd hb (hq c hc)
  intro hs
  rcases hp a hs with hold | ⟨hm, c, hc, hca⟩
  · exact hy a hold
  · exact hq c hc (hca.trans hm)

theorem acyclic_mono {r r' : α → α → Prop} (ha : ∀ a, ¬ Relation.TransGen r a a)
    (hl : ∀ a b, r' a b → r a b) (a : α) : ¬ Relation.TransGen r' a a := by
  intro hs
  have hold : ∀ b, Relation.TransGen r' a b → Relation.TransGen r a b := by
    intro b hb
    induction hb with
    | single h => exact .single (hl _ _ h)
    | tail _ h ih => exact ih.tail (hl _ _ h)
  exact ha a (hold a hs)

/-! ### Sweeps -/

/-- A live node names another live node. -/
def Link (kids : α → List α) (live : α → Bool) (a b : α) : Prop :=
  live a = true ∧ live b = true ∧ b ∈ kids a

/-- A node leads to another. -/
def LinkBelow (kids : α → List α) (live : α → Bool) : α → α → Prop :=
  Relation.ReflTransGen (Link kids live)

variable [DecidableEq α]

/-- What is live once `a` has been taken away, by a recursion that is at most `n` deep. -/
def sweep (kids : α → List α) : ℕ → (α → Bool) → α → Option (α → Bool)
  | 0, _, _ => none
  | n + 1, live, a =>
    ((kids a).foldlM (fun live c =>
      if c ≠ a ∧ live c = true then sweep kids n live c else some live) live).map fun live =>
        update live a false

variable {kids k ks : α → List α} {live le li live' l' : α → Bool} {a b c : α} {n : ℕ}

omit [DecidableEq α] in
theorem LinkBelow.head_cases (h : LinkBelow ks li a b) :
    b = a ∨ ∃ c, Link ks li a c ∧ LinkBelow ks li c b := by
  rcases Relation.ReflTransGen.cases_head h with rfl | ⟨c, ha, hc⟩
  · exact .inl rfl
  · exact .inr ⟨c, ha, hc⟩

omit [DecidableEq α] in
theorem Link.mono (hl : ∀ x, l' x → li x) (h : Link ks l' a b) : Link ks li a b :=
  ⟨hl a h.1, hl b h.2.1, h.2.2⟩

omit [DecidableEq α] in
theorem LinkBelow.mono (he : ∀ x, l' x → li x) (h : LinkBelow ks l' a b) : LinkBelow ks li a b := by
  induction h with
  | refl => exact .refl
  | tail _ hl ih => exact ih.tail (hl.mono he)

/-- What is live once the nodes `done` have been taken away. -/
def Swept (kids : α → List α) (live : α → Bool) (done : List α) (live' : α → Bool) : Prop :=
  ∀ b, live' b = true ↔ live b = true ∧ ¬ ∃ c ∈ done, live c = true ∧ LinkBelow kids live c b

omit [DecidableEq α] in
theorem Swept.below {de : List α} (h : Swept ks li de l') (hb : l' b)
    (hc : LinkBelow ks li c b) : LinkBelow ks l' c b := by
  induction hc with
  | refl => exact .refl
  | @tail x y hcx hy ih =>
    have hx : l' x := by
      rw [h]
      refine ⟨hy.1, ?_⟩
      rintro ⟨d, hd, hl, hdx⟩
      exact ((h y).1 hb).2 ⟨d, hd, hl, hdx.tail hy⟩
    exact (ih hx).tail ⟨hx, hb, hy.2.2⟩

omit [DecidableEq α] in
/-- One more node is taken away. -/
theorem Swept.snoc {de : List α} (h : Swept ks li de l') {live'' : α → Bool} (hc : l' c)
    (hs : ∀ b, live'' b ↔ l' b ∧ ¬ LinkBelow ks l' c b) : Swept ks li (de ++ [c]) live'' := by
  intro b
  rw [hs]
  constructor
  · rintro ⟨hb, hnot⟩
    refine ⟨((h b).1 hb).1, ?_⟩
    rintro ⟨d, hd, hl, hdb⟩
    rcases mem_append.1 hd with hd | hd
    · exact ((h b).1 hb).2 ⟨d, hd, hl, hdb⟩
    · rw [mem_singleton] at hd
      subst hd
      exact hnot (h.below hb hdb)
  · rintro ⟨hb, hnot⟩
    refine ⟨(h b).2 ⟨hb, ?_⟩, ?_⟩
    · rintro ⟨d, hd, hl, hdb⟩
      exact hnot ⟨d, mem_append_left _ hd, hl, hdb⟩
    · intro hcb
      refine hnot ⟨c, by simp, ((h c).1 hc).1, hcb.mono ?_⟩
      intro x hx
      exact ((h x).1 hx).1

omit [DecidableEq α] in
/-- A node that is not live any more, or never was, takes nothing more away. -/
theorem Swept.skip {de : List α} (h : Swept k le de live') (hc : live' c = false) :
    Swept k le (de ++ [c]) live' := by
  intro b
  rw [h b]
  refine and_congr_right fun _ => not_congr ⟨?_, ?_⟩
  · rintro ⟨d, hd, hl, hb⟩
    exact ⟨d, mem_append_left _ hd, hl, hb⟩
  · rintro ⟨d, hd, hl, hb⟩
    rcases mem_append.1 hd with hd | hd
    · exact ⟨d, hd, hl, hb⟩
    rw [mem_singleton] at hd
    subst hd
    -- the node has gone with another, and so has what is below it
    have hg : ¬(le d ∧ ¬ ∃ c ∈ de, le c ∧ LinkBelow k le c d) := by
      rw [← h d, hc]
      exact Bool.false_ne_true
    obtain ⟨e, he, hel, hed⟩ := not_not.1 fun hn => hg ⟨hl, hn⟩
    exact ⟨e, he, hel, hed.trans hb⟩

theorem sweep_subset (h : sweep ks n li a = some l') (hb : l' b) : li b := by
  induction n generalizing li l' a with
  | zero => cases h
  | succ n ih =>
    have ho : ∀ (r : List α) (nw l : α → Bool), r.foldlM (fun li c =>
        if c ≠ a ∧ li c then sweep ks n li c else some li) nw = some l →
        l b → nw b := by
      intro r
      induction r with
      | nil =>
        intro nw l hf hl
        cases hf
        exact hl
      | cons c r i =>
        intro nw l hf hl
        rw [foldlM_cons] at hf
        obtain ⟨ne, hn, hr⟩ := Option.bind_eq_some_iff.1 hf
        have hm := i ne l hr hl
        split at hn
        · exact ih hn hm
        · cases hn
          exact hm
    obtain ⟨l, hf, rfl⟩ := Option.map_eq_some_iff.1 h
    by_cases ha : b = a
    · rw [ha, update_self] at hb
      cases hb
    · rw [update_of_ne ha] at hb
      exact ho _ _ _ hf hb

/-- **A sweep takes away what is below its node, and nothing else.** -/
theorem sweep_eq {ra : α → ℕ} (hr : ∀ a b, Link k le a b → ra b < ra a)
    (ha : le a) (hn : ra a < n) :
    ∃ live', sweep k n le a = some live' ∧
      ∀ b, live' b ↔ le b ∧ ¬ LinkBelow k le a b := by
  induction n generalizing le a with
  | zero => exact absurd hn (Nat.not_lt_zero _)
  | succ n ih =>
    -- the loop over the nodes that `a` names, from any of them on
    have hl : ∀ (r de : List α) (nw : α → Bool), (∀ c ∈ r, c ∈ k a) →
        Swept k le de nw → ∃ live', r.foldlM (fun le c =>
          if c ≠ a ∧ le c then sweep k n le c else some le) nw = some live' ∧
          Swept k le (de ++ r) live' := by
      intro r
      induction r with
      | nil =>
        intro de nw _ ho
        exact ⟨nw, rfl, by rwa [append_nil]⟩
      | cons c r i =>
        intro de nw hk ho
        have hu : ∀ x, nw x → le x := fun x hx => ((ho x).1 hx).1
        obtain ⟨next, hnx, hs⟩ : ∃ next,
            (if c ≠ a ∧ nw c then sweep k n nw c else some nw) = some next ∧
              Swept k le (de ++ [c]) next := by
          by_cases hc : nw c
          · have hi : Link k le a c := ⟨ha, hu c hc, hk c mem_cons_self⟩
            have ht := hr a c hi
            have hne : c ≠ a := by
              rintro rfl
              exact lt_irrefl _ ht
            rw [if_pos ⟨hne, hc⟩]
            obtain ⟨next, hnx, hw⟩ := ih (fun x y hy => hr x y (hy.mono hu)) hc (by omega)
            exact ⟨next, hnx, ho.snoc hc hw⟩
          · rw [if_neg fun h => hc h.2]
            exact ⟨nw, rfl, ho.skip (by simpa using hc)⟩
        obtain ⟨live', hre, hl'⟩ := i (de ++ [c]) next (fun d hd => hk d (mem_cons_of_mem _ hd)) hs
        refine ⟨live', ?_, by simpa using hl'⟩
        rw [foldlM_cons, hnx]
        exact hre
    obtain ⟨s, hf, hs⟩ := hl (k a) [] le (fun _ => id) (by simp [Swept])
    refine ⟨update s a false, ?_, ?_⟩
    · unfold sweep
      rw [hf]
      rfl
    · intro b
      by_cases hb : b = a
      · subst hb
        have he : LinkBelow k le b b := .refl
        simp [he]
      · rw [update_of_ne hb, hs b]
        refine and_congr_right fun hbl => not_congr ⟨?_, ?_⟩
        · rintro ⟨c, hc, hcl, hcb⟩
          exact hcb.head ⟨ha, hcl, by simpa using hc⟩
        · intro hab
          obtain ⟨c, hac, hcb⟩ := hab.head_cases.resolve_left hb
          exact ⟨c, by simpa using hac.2.2, hac.2.1, hcb⟩

end TradutorLinux
