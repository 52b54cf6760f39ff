import TradutorLinux.Pe.Chains
import TradutorLinux.Pe.Stages

/-!
# The function table of an accepted image

What `parse_runtime_functions` checks, as one statement about the table it
leaves: the intervals are proper, in order and in the image, every `CHAININFO`
names an entry, and every chain ends.

## Main definitions

* `chainLink`

## Main results

* `functionTable_of_parsePe`
-/

namespace TradutorLinux.Pe

open List PeParser

open PeParser (findChainedIndex chainedTargets walkChains link mark)

/-- The entry that the entry `i` is chained to. -/
def chainLink (functions : List RuntimeFunction) (i : ℕ) : Option ℕ :=
  (functions[i]?).bind fun f =>
    if f.unwind.hasChainedFunction then findChainedIndex functions f.unwind else none

/-- A function table as the reader accepts it. -/
structure FunctionTable (sizeOfImage : UInt32) (functions : List RuntimeFunction) : Prop where
  interval : ∀ f ∈ functions,
    f.beginRva.toNat < f.endRva.toNat ∧ f.endRva.toNat ≤ sizeOfImage.toNat
  apart : functions.Pairwise fun f g => f.endRva.toNat ≤ g.beginRva.toNat
  chained : ∀ f ∈ functions, f.unwind.hasChainedFunction = true →
    ∃ j, findChainedIndex functions f.unwind = some j
  ends : ∀ i, i < functions.length → Ends (chainLink functions) i

theorem FunctionTable.nil (s : UInt32) : FunctionTable s [] where
  interval := by simp
  apart := List.Pairwise.nil
  chained := by simp
  ends := by simp

namespace PeParser

variable {p p' : PeParser}

theorem readRuntimeFunctions_spec {d re : ℕ} :
    ∀ {i : ℕ} {pe : Option UInt32} {fn : List RuntimeFunction},
      p.readRuntimeFunctions d i re pe = .ok fn →
      (∀ f ∈ fn, f.beginRva.toNat < f.endRva.toNat ∧
        f.endRva.toNat ≤ p.parserState.sizeOfImage.toNat) ∧
      fn.Pairwise (fun f g => f.endRva.toNat ≤ g.beginRva.toNat) ∧
      ∀ s, pe = some s → ∀ f ∈ fn, s.toNat ≤ f.beginRva.toNat := by
  induction re with
  | zero =>
    intro i pe fn h
    cases h
    simp
  | succ re ih =>
    intro i pe fn h
    dsimp only [readRuntimeFunctions] at h
    split at h
    · cases h
    next hi =>
    split at h
    · cases h
    next ho =>
    obtain ⟨uw, -, h⟩ := bind_eq_ok.1 h
    obtain ⟨r, he, h⟩ := bind_eq_ok.1 h
    cases h
    obtain ⟨hr, ha, hb⟩ := ih he
    rw [not_or, ge_iff_le, UInt32.not_le, gt_iff_lt, UInt32.not_lt, UInt32.lt_iff_toNat_lt,
      UInt32.le_iff_toNat_le] at hi
    have hn := hb _ rfl
    refine ⟨?_, pairwise_cons.2 ⟨hn, ha⟩, ?_⟩
    · intro f hf
      rcases mem_cons.1 hf with rfl | hf
      · exact hi
      · exact hr f hf
    · intro s hs f hf
      rw [hs, Option.any_some, decide_eq_true_iff, UInt32.not_lt, UInt32.le_iff_toNat_le] at ho
      rcases mem_cons.1 hf with rfl | hf
      · exact ho
      · -- a later function begins behind the end of this one
        exact ho.trans (hi.1.le.trans (hn f hf))

theorem chainedTargets_spec {fn : List RuntimeFunction} :
    ∀ {r : List RuntimeFunction} {ts : List (Option ℕ)}, chainedTargets fn r = .ok ts →
      ts = r.map (fun f =>
        if f.unwind.hasChainedFunction then findChainedIndex fn f.unwind else none) ∧
      ∀ f ∈ r, f.unwind.hasChainedFunction →
        ∃ j, findChainedIndex fn f.unwind = some j := by
  intro r
  induction r with
  | nil =>
    intro ts h
    cases h
    simp
  | cons f r ih =>
    intro ts h
    unfold chainedTargets at h
    split at h
    · next hc =>
      split at h
      · cases h
      next t ht =>
      obtain ⟨ts', hr, h⟩ := bind_eq_ok.1 h
      cases h
      obtain ⟨rfl, ha⟩ := ih hr
      refine ⟨by simp [hc, ht], ?_⟩
      intro g hg hh
      rcases mem_cons.1 hg with rfl | hg
      · exact ⟨t, ht⟩
      · exact ha g hg hh
    · next hc =>
      obtain ⟨ts', hr, h⟩ := bind_eq_ok.1 h
      cases h
      obtain ⟨rfl, ha⟩ := ih hr
      refine ⟨by simp [hc], ?_⟩
      intro g hg hh
      rcases mem_cons.1 hg with rfl | hg
      · exact absurd hh hc
      · exact ha g hg hh

theorem findChainedIndex_eq_some {fn : List RuntimeFunction} {uw : UnwindInfo} {j : ℕ}
    (h : findChainedIndex fn uw = some j) :
    ∃ f, fn[j]? = some f ∧ f.beginRva = uw.chainedBeginRva ∧
      f.endRva = uw.chainedEndRva ∧ f.unwindInfoRva = uw.chainedUnwindInfoRva := by
  unfold findChainedIndex at h
  split at h
  · cases h
  next i hi =>
  split at h
  · cases h
  next f hf =>
  split at h
  · cases h
  next he =>
  cases h
  rw [not_or, not_or, not_not, not_not, not_not] at he
  exact ⟨f, hf, he⟩

theorem parseRuntimeFunctions_table (h : p.parseRuntimeFunctions = .ok p')
    (hn : p.parserState.runtimeFunctions = []) :
    FunctionTable p.parserState.sizeOfImage p'.parserState.runtimeFunctions := by
  dsimp only [parseRuntimeFunctions] at h
  split at h
  · cases h
    rw [hn]
    exact .nil _
  split at h
  · cases h
  split at h
  · split at h
    · cases h
      obtain ⟨ws, hw⟩ := recordUninitializedDirectory_eq p (text "exceções")
      rw [hw, hn]
      exact .nil _
    · cases h
  split at h
  · cases h
  simp only [bind_eq_ok] at h
  obtain ⟨functions, hu, ts, ht, _, hwa, h⟩ := h
  cases h
  obtain ⟨hin, ha, -⟩ := readRuntimeFunctions_spec hu
  obtain ⟨rfl, hc⟩ := chainedTargets_spec ht
  have hl : link (functions.map fun f =>
      if f.unwind.hasChainedFunction then findChainedIndex functions f.unwind else none) =
      chainLink functions := by
    funext i
    unfold link chainLink
    rw [getD_eq_getElem?_getD, getElem?_map]
    cases functions[i]? <;> rfl
  have ho : ∀ i j, chainLink functions i = some j → j < functions.length := by
    intro i j hj
    obtain ⟨f, -, hf⟩ := Option.bind_eq_some_iff.1 hj
    split at hf
    · obtain ⟨g, hg, -⟩ := findChainedIndex_eq_some hf
      exact (List.getElem?_eq_some_iff.1 hg).1
    · cases hf
  have hm : ∀ i, mark (List.replicate functions.length .unvisited) i = .unvisited := by
    intro i
    unfold mark
    rw [getD_eq_getElem?_getD, getElem?_replicate]
    split <;> rfl
  -- the walk over the chains has not failed, so all of them end
  rcases walkChains_ok_iff (length_map _) (by rw [hl]; exact ho) functions.length 0
    (List.replicate functions.length .unvisited) (by omega) length_replicate
    (fun i => by rw [hm]; exact nofun) (fun i h => by rw [hm] at h; cases h) with
    ⟨-, he⟩ | ⟨⟨e, hr, -⟩, -⟩
  · rw [hl] at he
    refine ⟨hin, ha, hc, fun i hi => he i (Nat.zero_le _) ?_⟩
    rw [zero_add]
    exact hi
  · rw [hr] at hwa
    cases hwa

end PeParser

theorem readHeaders_runtimeFunctions {d : ByteString} {p : PeParser}
    (h : readHeaders d = .ok p) : p.parserState.runtimeFunctions = [] := by
  simp only [readHeaders, bind_eq_ok] at h
  obtain ⟨n, -, c, -, i, hi, ss, -, h⟩ := h
  cases h
  dsimp only [readOptionalHeader] at hi
  repeat (split at hi; · cases hi)
  cases hi
  rfl

theorem runtimeFunctions_of_parsePe {d : ByteString} {r : ParseResult}
    (h : parsePe d = .ok r) : ∃ p₀ p q, readHeaders d = .ok p₀ ∧ SameHeaders p₀ p ∧
      p.parserState.runtimeFunctions = [] ∧ p.parseRuntimeFunctions = .ok q ∧
      r.info.runtimeFunctions = q.parserState.runtimeFunctions ∧
      r.info.sizeOfImage = p.parserState.sizeOfImage := by
  simp only [parsePe, bind_eq_ok] at h
  obtain ⟨p₀, hp₀, p₁, hp₁, p₂, hp₂, p₃, hp₃, p₄, hp₄, p₅, hp₅, p₆, hp₆, h⟩ := h
  cases h
  have hs := ((SameHeaders.parseRuntimeFunctions hp₄).trans
    ((SameHeaders.parseTlsDirectory hp₅).trans (SameHeaders.parseRelocations hp₆))).sizeOfImage
  refine ⟨p₀, p₃, p₄, hp₀, (SameHeaders.parseExports hp₁).trans ((SameHeaders.parseImports
    hp₂).trans (SameHeaders.parseDelayImports hp₃)), ?_, hp₄, ?_, hs⟩
  · have hn := readHeaders_runtimeFunctions hp₀
    obtain ⟨di, rfl, -⟩ := parseDelayImports_ok hp₃
    obtain ⟨i, rfl, -⟩ := parseImports_ok hp₂
    obtain ⟨_, o, e, rfl, -⟩ := parseExports_ok hp₁
    exact hn
  · obtain ⟨_, _, rfl⟩ := parseRelocations_ok hp₆
    obtain ⟨_, _, rfl⟩ := parseTlsDirectory_ok hp₅
    rfl

/-- **The function table of an accepted image.** -/
theorem functionTable_of_parsePe {d : ByteString} {r : ParseResult} (h : parsePe d = .ok r) :
    FunctionTable r.info.sizeOfImage r.info.runtimeFunctions := by
  obtain ⟨p₀, p, q, -, -, hn, hq, hf, hs⟩ := runtimeFunctions_of_parsePe h
  rw [hf, hs]
  exact PeParser.parseRuntimeFunctions_table hq hn

end TradutorLinux.Pe
