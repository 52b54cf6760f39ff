import TradutorLinux.Pe.Reader
import TradutorLinux.Util.Chains

/-!
# The cycle check of the exception directory

The reader walks every chain of `CHAININFO` records and marks the entries it
has passed: an entry on the current path is met again exactly when the chain
runs into a cycle.  Here the walk is shown to accept the chains that end.

## Main results

* `walkChain_spec`, `walkChains_ok_iff`
-/

namespace TradutorLinux.Pe
namespace PeParser

open List

def link (targets : List (Option ℕ)) (i : ℕ) : Option ℕ := targets.getD i none

def mark (marks : List ChainState) (i : ℕ) : ChainState := marks.getD i .unvisited

theorem mark_set {ms : List ChainState} {c : ℕ} (hc : c < ms.length) (st : ChainState)
    (i : ℕ) : mark (ms.set c st) i = if i = c then st else mark ms i := by
  unfold mark
  simp only [getD_eq_getElem?_getD, getElem?_set]
  by_cases hi : i = c
  · subst hi
    simp [hc]
  · rw [if_neg fun h => hi h.symm, if_neg hi]

theorem mark_foldl_done {n : ℕ} (p : List ℕ) :
    ∀ ms : List ChainState, ms.length = n → (∀ i ∈ p, i < n) →
      (p.foldl (fun ms ix => ms.set ix .done) ms).length = n ∧
      ∀ i, mark (p.foldl (fun ms ix => ms.set ix .done) ms) i =
        if i ∈ p then .done else mark ms i := by
  induction p with
  | nil => intro ms hl _; exact ⟨hl, fun i => rfl⟩
  | cons j p ih =>
    intro ms hl ht
    have hj : j < ms.length := by rw [hl]; exact ht j (by simp)
    obtain ⟨hl', hm⟩ := ih (ms.set j .done) (by rw [length_set, hl])
      fun i hi => ht i (by simp [hi])
    refine ⟨hl', fun i => ?_⟩
    rw [foldl_cons, hm, mark_set hj]
    by_cases hij : i = j
    · simp [hij]
    · by_cases hi : i ∈ p <;> simp [hi, hij]

theorem length_le_of_nodup {n : ℕ} {p : List ℕ} (hn : p.Nodup)
    (hl : ∀ i ∈ p, i < n) : p.length ≤ n := by
  rw [← toFinset_card_of_nodup hn, ← Finset.card_range n]
  refine Finset.card_le_card fun i hi => ?_
  rw [mem_toFinset] at hi
  exact Finset.mem_range.2 (hl i hi)

section Walk

variable {ts : List (Option ℕ)} {n : ℕ}

/-- **One walk.**  The path leads to the current entry and holds the entries
marked `onPath`, and the chains of the entries marked `done` end; then the walk
succeeds iff the chain of the current entry ends, and the new path entries end. -/
theorem walkChain_spec (hcl : ∀ i j, link ts i = some j → j < n) (f : ℕ) :
    ∀ ms c path, ms.length = n → c < n → path.Nodup → (∀ i ∈ path, i < n) →
      f + path.length = n + 1 →
      (∀ i, mark ms i = .onPath ↔ i ∈ path) →
      (∀ i ∈ path, ∃ k, 0 < k ∧ follow (link ts) k i = some c) →
      (∀ i, mark ms i = .done → Ends (link ts) i) →
      match walkChain ts f ms c path with
      | none => ¬Ends (link ts) c
      | some (marks', path') =>
        Ends (link ts) c ∧ marks'.length = n ∧ (∀ i ∈ path', i < n) ∧
          (∀ i, mark marks' i = .onPath ↔ i ∈ path') ∧
          (∀ i, mark marks' i = .done → Ends (link ts) i) ∧
          ∀ i ∈ path', i ∈ path ∨ Ends (link ts) i := by
  induction f with
  | zero =>
    intro ms c path _ _ ho ht hf
    have := length_le_of_nodup ho ht
    omega
  | succ f ih =>
    intro ms c path hle hu ho ht hf hp hl hd
    have hmark : ms.getD c .unvisited = mark ms c := rfl
    have hlink : ts.getD c none = link ts c := rfl
    rw [walkChain, hmark, hlink]
    cases hm : mark ms c with
    | onPath =>
      obtain ⟨k, hk, hlo⟩ := hl c ((hp c).1 hm)
      exact not_ends_of_loop hk hlo
    | done => exact ⟨hd c hm, hle, ht, hp, hd, fun i hi => .inl hi⟩
    | unvisited =>
      have hc : c < ms.length := by rw [hle]; exact hu
      have hne : c ∉ path := fun hin => by rw [(hp c).2 hin] at hm; cases hm
      have hl' : ∀ i ∈ c :: path, i < n := by
        intro i hi
        rcases mem_cons.1 hi with rfl | hi
        · exact hu
        · exact ht i hi
      have hp' : ∀ i, mark (ms.set c .onPath) i = .onPath ↔ i ∈ c :: path := by
        intro i
        rw [mark_set hc, mem_cons]
        by_cases hi : i = c
        · simp [hi]
        · simp [hi, hp]
      have hd' : ∀ i, mark (ms.set c .onPath) i = .done → Ends (link ts) i := by
        intro i hi
        rw [mark_set hc] at hi
        by_cases hic : i = c
        · rw [if_pos hic] at hi; cases hi
        · rw [if_neg hic] at hi; exact hd i hi
      cases hn : link ts c with
      | none =>
        refine ⟨ends_of_none hn, by rw [length_set, hle], hl', hp', hd', ?_⟩
        intro i hi
        rcases mem_cons.1 hi with rfl | hi
        · exact .inr (ends_of_none hn)
        · exact .inl hi
      | some next =>
        have hs : ∀ i ∈ c :: path, ∃ k, 0 < k ∧ follow (link ts) k i = some next := by
          intro i hi
          rcases mem_cons.1 hi with rfl | hi
          · exact ⟨1, Nat.one_pos, by rw [follow, hn]; rfl⟩
          obtain ⟨k, -, hk⟩ := hl i hi
          refine ⟨k + 1, Nat.succ_pos k, ?_⟩
          rw [follow_add, hk]
          change (link ts c).bind (follow (link ts) 0) = some next
          rw [hn]
          rfl
        have hrec := ih (ms.set c .onPath) next (c :: path) (by rw [length_set, hle])
          (hcl c next hn) (nodup_cons.2 ⟨hne, ho⟩) hl'
          (by rw [length_cons]; omega) hp' hs hd'
        dsimp only
        cases hw : walkChain ts f (ms.set c .onPath) next (c :: path) with
        | none =>
          rw [hw] at hrec
          exact fun h => hrec ((ends_of_next hn).1 h)
        | some r =>
          rw [hw] at hrec
          obtain ⟨he, hl'', ht'', hp'', hd'', hn''⟩ := hrec
          have hr := (ends_of_next hn).2 he
          refine ⟨hr, hl'', ht'', hp'', hd'', fun i hi => ?_⟩
          rcases hn'' i hi with hin | hi
          · rcases mem_cons.1 hin with rfl | hin
            · exact .inr hr
            · exact .inl hin
          · exact .inr hi

/-- **The check passes iff every chain ends.** -/
theorem walkChains_ok_iff (hta : ts.length = n) (ho : ∀ i j, link ts i = some j → j < n) (r : ℕ) :
    ∀ start ms, start + r ≤ n → ms.length = n → (∀ i, mark ms i ≠ .onPath) →
      (∀ i, mark ms i = .done → Ends (link ts) i) →
      ((walkChains ts start r ms = .ok () ∧ ∀ i, start ≤ i → i < start + r → Ends (link ts) i) ∨
        (∃ e, walkChains ts start r ms = .error e ∧ e.status = .malformed) ∧
          ∃ i, start ≤ i ∧ i < start + r ∧ ¬Ends (link ts) i) := by
  induction r with
  | zero =>
    intro start ms _ _ _ _
    exact .inl ⟨rfl, fun i h1 h2 => by omega⟩
  | succ r ih =>
    intro start ms hle hl hc hd
    have hr : ∀ ms', ms'.length = n → (∀ i, mark ms' i ≠ .onPath) →
        (∀ i, mark ms' i = .done → Ends (link ts) i) → Ends (link ts) start →
        ((walkChains ts (start + 1) r ms' = .ok () ∧
            ∀ i, start ≤ i → i < start + (r + 1) → Ends (link ts) i) ∨
          (∃ e, walkChains ts (start + 1) r ms' = .error e ∧ e.status = .malformed) ∧
            ∃ i, start ≤ i ∧ i < start + (r + 1) ∧ ¬Ends (link ts) i) := by
      intro ms' hl' hc' hd' ht
      rcases ih (start + 1) ms' (by omega) hl' hc' hd' with ⟨hk, ha⟩ | ⟨her, i, h1, h2, h3⟩
      · refine .inl ⟨hk, fun i h1 h2 => ?_⟩
        rcases lt_or_ge start i with hlt | hg
        · exact ha i (by omega) (by omega)
        · obtain rfl : i = start := by omega
          exact ht
      · exact .inr ⟨her, i, by omega, by omega, h3⟩
    unfold walkChains
    by_cases hm : ms.getD start .unvisited = .done
    · rw [if_pos hm]
      exact hr ms hl hc hd (hd start hm)
    rw [if_neg hm]
    have hs := walkChain_spec ho (n + 1) ms start [] hl (by omega) nodup_nil
      (by simp) (by simp) (fun i => by simp [hc i]) (by simp) hd
    rw [hta]
    cases hw : walkChain ts (n + 1) ms start [] with
    | none =>
      rw [hw] at hs
      exact .inr ⟨⟨_, rfl, rfl⟩, start, le_refl _, by omega, hs⟩
    | some re =>
      obtain ⟨ms', p'⟩ := re
      rw [hw] at hs
      obtain ⟨he, hl', ht', hp', hd', hn'⟩ := hs
      obtain ⟨hl'', hm''⟩ := mark_foldl_done p' ms' hl' ht'
      refine hr _ hl'' (fun i => ?_) (fun i hi => ?_) he
      · rw [hm'']
        by_cases hi : i ∈ p'
        · rw [if_pos hi]; exact nofun
        · rw [if_neg hi]; exact fun h => hi ((hp' i).1 h)
      · rw [hm''] at hi
        by_cases hn : i ∈ p'
        · exact (hn' i hn).elim (fun h => by simp at h) id
        · rw [if_neg hn] at hi
          exact hd' i hi

end Walk

end PeParser
end TradutorLinux.Pe
