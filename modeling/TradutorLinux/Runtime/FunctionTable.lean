import TradutorLinux.Pe.Builder
import TradutorLinux.Pe.FunctionTable
import TradutorLinux.Runtime.Unwind

/-!
# The function tables of the registered images

The unwinder searches a function table by halving, and follows a chain for as
many steps as the table has entries.  It checks neither the order nor the
chains: on the tables of accepted images both are as it needs them.

## Main definitions

* `ViewOf info view` — the view is of a mapped image with these headers.
* `Registered images` — every view is of an accepted image.

## Main results

* `findFunctionInImage_iff`
* `unwinder_total` — **the table operations are total**: also every chain ends
  in fewer steps than the table has entries, and its failures do not occur.
-/

namespace TradutorLinux.Runtime

open List UnwindImageView

open Pe (RuntimeFunction UnwindCode UnwindInfo FunctionTable PeInfo chainLink)

variable {view v : UnwindImageView} {images im : UnwindImages} {t : GuestThread}

/-! ### Registered images -/

/-- The view of a mapped image. -/
structure ViewOf (info : PeInfo) (view : UnwindImageView) : Prop where
  mapped : view.base ≠ 0
  functions : view.functions = info.runtimeFunctions
  size : info.sizeOfImage.toNat ≤ view.size.toNat

/-- Every view is of an accepted image, or empty. -/
def Registered (images : UnwindImages) : Prop :=
  ∀ view, view = images.main ∨ view ∈ images.modules →
    view = {} ∨ ∃ data r, Pe.parsePe data = .ok r ∧ ViewOf r.info view

/-- A view whose table the reader has checked. -/
structure Sound (view : UnwindImageView) : Prop where
  mapped : view.functions ≠ [] → view.base ≠ 0
  table : ∃ sizeOfImage, FunctionTable sizeOfImage view.functions ∧
    (view.functions ≠ [] → sizeOfImage.toNat ≤ view.size.toNat)

theorem ViewOf.sound {d : ByteString} {r : Pe.ParseResult} (hp : Pe.parsePe d = .ok r)
    (h : ViewOf r.info view) : Sound view := by
  refine ⟨fun _ => h.mapped, r.info.sizeOfImage, ?_, fun _ => h.size⟩
  rw [h.functions]
  exact Pe.functionTable_of_parsePe hp

theorem sound_empty : Sound {} := ⟨fun h => absurd rfl h, 0, .nil 0, fun h => absurd rfl h⟩

theorem Registered.sound (h : Registered images) (re : ViewRef) : Sound (images.view re) := by
  have hv : ∀ view, view = images.main ∨ view ∈ images.modules → Sound view := by
    intro view hv
    rcases h view hv with rfl | ⟨d, r, hp, ho⟩
    · exact sound_empty
    · exact ho.sound hp
  cases re with
  | main => exact hv _ (.inl rfl)
  | module i =>
    change Sound (images.modules.getD i {})
    rw [getD_eq_getElem?_getD]
    cases hg : images.modules[i]? with
    | none => exact sound_empty
    | some module => exact hv _ (.inr (mem_of_getElem? hg))

/-! ### The search -/

/-- The entry contains the address. -/
def Contains (view : UnwindImageView) (pc : UInt64) (fn : RuntimeFunction) : Prop :=
  view.base ≤ pc ∧ fn.beginRva.toNat ≤ (pc - view.base).toNat ∧
    (pc - view.base).toNat < fn.endRva.toNat

theorem partitioned_of_apart {functions : List RuntimeFunction}
    (hi : ∀ f ∈ functions, f.beginRva.toNat < f.endRva.toNat)
    (ha : functions.Pairwise fun f g => f.endRva.toNat ≤ g.beginRva.toNat) (r : ℕ) :
    Partitioned (fun fn => decide (r < fn.beginRva.toNat)) functions := by
  refine ha.imp_of_mem ?_
  intro f g hf _ hg
  simp only [decide_eq_true_iff]
  have := hi f hf
  omega

/-- **The search finds the entry that contains the address.** -/
theorem findFunctionInImage_iff (h : Sound v) {pc : UInt64} {i : ℕ} :
    v.findFunctionInImage pc = some i ↔ ∃ fn, v.functions[i]? = some fn ∧ Contains v pc fn := by
  obtain ⟨sizeOfImage, ht, hs⟩ := h.table
  have hp := upperBound_spec (partitioned_of_apart
    (fun f hf => (ht.interval f hf).1) ht.apart (pc - v.base).toNat)
  dsimp only [findFunctionInImage]
  generalize upperBound (fun fn => decide ((pc - v.base).toNat < fn.beginRva.toNat))
    v.functions = k at hp
  constructor
  · intro hfi
    split at hfi
    · cases hfi
    next hin =>
    rw [not_or, not_or, UInt64.not_lt] at hin
    split at hfi
    · cases hfi
    next ix =>
    split at hfi
    · cases hfi
    next fn hfn =>
    split at hfi
    · next hc =>
      cases hfi
      exact ⟨fn, hfn, hin.2.1, hc⟩
    · cases hfi
  · rintro ⟨fn, hfn, hba, hb, hd⟩
    have hm := mem_of_getElem? hfn
    have he : v.functions ≠ [] := ne_nil_of_mem hm
    have hin : ¬(v.base = 0 ∨ pc < v.base ∨ pc - v.base ≥ v.size ∨ v.functions = []) := by
      have hl := (ht.interval fn hm).2
      have hs := hs he
      rw [not_or, not_or, not_or, UInt64.not_lt, ge_iff_le, UInt64.not_le, UInt64.lt_iff_toNat_lt]
      exact ⟨h.mapped he, hba, by omega, he⟩
    rw [if_neg hin]
    -- the entry is the last one that is not above
    have hlt : i < k := by
      by_contra hge
      have ha := hp.above i fn (not_lt.1 hge) hfn
      rw [decide_eq_true_iff] at ha
      omega
    have hk : k = i + 1 := by
      by_contra hk
      have hn : i + 1 < v.functions.length := by
        have := hp.le
        omega
      have hg := getElem?_eq_getElem hn
      have hbe := hp.below (i + 1) _ (by omega) hg
      rw [decide_eq_false_iff_not] at hbe
      obtain ⟨hi, rfl⟩ := List.getElem?_eq_some_iff.1 hfn
      have := pairwise_iff_getElem.1 ht.apart i (i + 1) hi hn (Nat.lt_succ_self i)
      omega
    subst hk
    dsimp only
    rw [hfn]
    dsimp only
    rw [if_pos ⟨hb, hd⟩]

/-! ### The chains -/

/-- The entry that the unwinder goes to from the entry `i`. -/
def chainNext (view : UnwindImageView) (i : ℕ) : Option ℕ :=
  (view.functions[i]?).bind view.findChainedFunction

theorem findChainedFunction_eq (h : Sound v) {fn : RuntimeFunction} {j : ℕ}
    (hc : fn.unwind.hasChainedFunction)
    (hf : Pe.PeParser.findChainedIndex v.functions fn.unwind = some j) :
    v.findChainedFunction fn = some j := by
  obtain ⟨s, ht, -⟩ := h.table
  obtain ⟨tg, hr, hb, he, hin⟩ := Pe.PeParser.findChainedIndex_eq_some hf
  obtain ⟨hj, hg⟩ := List.getElem?_eq_some_iff.1 hr
  unfold findChainedFunction
  rw [if_pos hc, findIdx?_eq_some_iff_getElem]
  refine ⟨hj, by simp [hg, hb, he, hin], fun i hi => ?_⟩
  -- an entry in front of the target begins at another address
  have ha := pairwise_iff_getElem.1 ht.apart i j (by omega) hj hi
  have hn := (ht.interval _ (getElem_mem (l := v.functions) (n := i) (by omega))).1
  rw [hg, hb] at ha
  have hne : v.functions[i].beginRva ≠ fn.unwind.chainedBeginRva := by
    intro heq
    rw [heq] at hn
    omega
  simp [hne]

theorem chainNext_eq (h : Sound v) : chainNext v = chainLink v.functions := by
  obtain ⟨s, ht, -⟩ := h.table
  funext i
  unfold chainNext chainLink
  cases hf : v.functions[i]? with
  | none => rfl
  | some fn =>
    change v.findChainedFunction fn = _
    cases hc : fn.unwind.hasChainedFunction with
    | false =>
      unfold findChainedFunction
      simp [hc]
    | true =>
      obtain ⟨j, hj⟩ := ht.chained fn (mem_of_getElem? hf) hc
      rw [findChainedFunction_eq h hc hj]
      simp [hc, hj]

theorem chainNext_lt {i j : ℕ} (hn : chainNext v i = some j) : j < v.functions.length := by
  obtain ⟨fn, -, hf⟩ := Option.bind_eq_some_iff.1 hn
  unfold findChainedFunction at hf
  split at hf
  · exact (findIdx?_eq_some_iff_getElem.1 hf).1
  · cases hf

theorem follow_chainNext (h : Sound v) {i : ℕ} (hi : i < v.functions.length) :
    follow (chainNext v) v.functions.length i = none := by
  obtain ⟨s, ht, -⟩ := h.table
  refine follow_eq_none_of_ends (fun _ _ => chainNext_lt) hi ?_
  rw [chainNext_eq h]
  exact ht.ends i hi

theorem not_chained_of_chainNext (h : Sound v) {i : ℕ} {fn : RuntimeFunction}
    (hf : v.functions[i]? = some fn) (hn : chainNext v i = none) :
    fn.unwind.hasChainedFunction = false := by
  obtain ⟨s, ht, -⟩ := h.table
  unfold chainNext at hn
  rw [hf] at hn
  by_contra hc
  rw [Bool.not_eq_false] at hc
  obtain ⟨j, hj⟩ := ht.chained fn (mem_of_getElem? hf) hc
  have : v.findChainedFunction fn = none := hn
  rw [findChainedFunction_eq h hc hj] at this
  cases this

/-! ### The walk -/

/-- The two failures of a walk over a chain. -/
def ChainFailure (detail : ByteString) : Prop :=
  detail = text "CHAININFO inválido" ∨ detail = text "CHAININFO cíclico"

theorem applyCodes_error {uw : UnwindInfo} {po : UInt64} {cs : List UnwindCode} :
    ∀ {st : UnwindState} {detail : ByteString},
      applyCodes t uw po cs st = .error detail → ¬ChainFailure detail := by
  induction cs with
  | nil =>
    intro st detail h
    cases h
  | cons c cs ih =>
    intro st detail h
    unfold applyCodes at h
    split at h
    · exact ih h
    split at h
    · dsimp only at h
      split at h
      · cases h
        unfold ChainFailure
        decide
      · exact ih h
    · split at h
      · cases h
        unfold ChainFailure
        decide
      · exact ih h

theorem unwindChain_error (h : Sound v) {r : ℕ} :
    ∀ {c : ℕ} {fp : UInt64} {st : UnwindState} {detail : ByteString},
      c < v.functions.length → follow (chainNext v) r c = none →
      unwindChain t v r c fp st = .error detail →
      ¬ChainFailure detail := by
  induction r with
  | zero =>
    intro c fp st detail _ he
    cases he
  | succ r ih =>
    intro c fp st detail ht he hw
    have hfn := getElem?_eq_getElem ht
    unfold unwindChain at hw
    rw [hfn] at hw
    dsimp only at hw
    split at hw
    · next hc =>
      cases hw
      exact applyCodes_error hc
    split at hw
    · cases hw
    next hh =>
    have hn : chainNext v c = v.findChainedFunction v.functions[c] := by
      unfold chainNext
      rw [hfn]
      rfl
    cases hf : v.findChainedFunction v.functions[c] with
    | none =>
      rw [hf] at hn
      exact absurd (not_chained_of_chainNext h hfn hn) (by simpa using hh)
    | some ch =>
      rw [hf] at hw hn
      refine ih (chainNext_lt hn) ?_ hw
      rwa [follow, hn] at he

theorem virtualUnwind_error (h : Registered im) {hy : UInt32}
    {ib cp fe : UInt64} {c : ContextAmd64} {detail : ByteString}
    (hf : virtualUnwind im t hy ib cp fe c = .error detail) : ¬ChainFailure detail := by
  unfold virtualUnwind at hf
  split at hf
  · next f cf ht hc =>
    dsimp only at hf
    split at hf
    · cases hf
      unfold ChainFailure
      decide
    next i hl =>
    split at hf
    · cases hf
      unfold ChainFailure
      decide
    split at hf
    · cases hf
      unfold ChainFailure
      decide
    have hs := h.sound f.view
    have hi := (List.getElem?_eq_some_iff.1 hl).1
    split at hf
    · next hw =>
      cases hf
      refine unwindChain_error hs hi ?_ hw
      rw [follow_add, follow_chainNext hs hi]
      rfl
    split at hf
    · cases hf
      unfold ChainFailure
      decide
    · split at hf <;> cases hf
  · cases hf
    unfold ChainFailure
    decide

/-- The table operations of the unwinder never fail: the search finds the entry
that contains an address, a chain comes to an entry without one in fewer steps
than the table has entries, and a call never fails on a chain. -/
structure TablesTotal (images : UnwindImages) : Prop where
  search : ∀ ref pc i, (images.view ref).findFunctionInImage pc = some i ↔
    ∃ fn, (images.view ref).functions[i]? = some fn ∧ Contains (images.view ref) pc fn
  chains : ∀ ref i, i < (images.view ref).functions.length →
    ∃ k j fn, k < (images.view ref).functions.length ∧
      follow (chainNext (images.view ref)) k i = some j ∧
      (images.view ref).functions[j]? = some fn ∧ fn.unwind.hasChainedFunction = false
  failures : ∀ t pointers handlerType imageBase controlPc functionEntry context detail,
    (rtlVirtualUnwind images t pointers handlerType imageBase controlPc functionEntry
      context).failure = some detail →
    detail ≠ text "CHAININFO inválido" ∧ detail ≠ text "CHAININFO cíclico"

/-- **The table operations of the unwinder are total** on the tables of accepted images. -/
theorem unwinder_total (h : Registered images) : TablesTotal images := by
  refine ⟨fun ref pc i => findFunctionInImage_iff (h.sound ref), fun ref i hi => ?_, ?_⟩
  · have hs := h.sound ref
    obtain ⟨k, j, hk, hj⟩ : Ends (chainNext (images.view ref)) i := by
      rw [ends_iff_of_closed (fun _ _ => chainNext_lt) hi]
      exact follow_chainNext hs hi
    have ht := follow_lt (fun _ _ => chainNext_lt) hi hk
    have hn := getElem?_eq_getElem ht
    refine ⟨k, j, _, ?_, hk, hn, not_chained_of_chainNext hs hn hj⟩
    by_contra hg
    -- a chain that long would not be over yet
    have hl := follow_chainNext hs hi
    obtain ⟨b, hb⟩ := Nat.exists_eq_add_of_le (not_lt.mp hg)
    rw [hb, follow_add, hl] at hk
    cases hk
  · intro t ps ha ib cp fe c d hf
    rw [← not_or]
    unfold rtlVirtualUnwind at hf
    split at hf
    · cases hf
      decide
    split at hf
    · next hu =>
      cases hf
      exact virtualUnwind_error h hu
    split at hf
    · cases hf
      decide
    split at hf
    · cases hf
      decide
    split at hf <;> cases hf
    decide

/-- An image with a function, and a second one that is chained to it. -/
def chainedFunctions : ByteString :=
  Pe.buildFunctions
    [{ beginRva := 0x1000, endRva := 0x1010 },
     { beginRva := 0x1010, endRva := 0x1020, flags := 4
       tail := toLE 4 0x1000 ++ toLE 4 0x1010 ++ toLE 4 256 }]

theorem unwinder_total_chainedFunctions : ∃ r, Pe.parsePe chainedFunctions = .ok r ∧
    r.info.runtimeFunctions.map (fun fn => fn.unwind.hasChainedFunction) = [false, true] ∧
    TablesTotal
      ⟨⟨0x140000000, 0x3000, r.info.exceptionDirectoryRva, r.info.runtimeFunctions⟩, []⟩ := by
  have he : (Pe.parsePe chainedFunctions).toOption.map (fun r =>
      (r.info.sizeOfImage, r.info.runtimeFunctions.map fun fn => fn.unwind.hasChainedFunction)) =
      some (0x3000, [false, true]) := by
    decide +kernel
  cases hp : Pe.parsePe chainedFunctions with
  | error f =>
    rw [hp] at he
    cases he
  | ok r =>
    rw [hp] at he
    obtain ⟨hs, hc⟩ := Prod.mk.inj (Option.some.inj he)
    have hv : ViewOf r.info
        ⟨0x140000000, 0x3000, r.info.exceptionDirectoryRva, r.info.runtimeFunctions⟩ :=
      ⟨(by decide : (0x140000000 : UInt64) ≠ 0), rfl, by
        rw [hs]
        exact (by decide : (0x3000 : UInt32).toNat ≤ (0x3000 : UInt64).toNat)⟩
    refine ⟨r, rfl, hc, unwinder_total ?_⟩
    intro view hm
    rcases hm with rfl | hm
    · exact .inr ⟨chainedFunctions, r, hp, hv⟩
    · cases hm

end TradutorLinux.Runtime
