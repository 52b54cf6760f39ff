import Mathlib.Data.List.Perm.Lattice
import Mathlib.Order.Nat
import TradutorLinux.Process.LocalStorage
import TradutorLinux.Util.Runs

/-!
# What the threads of a process find in their storage

The values of the runtime agree with what the threads own as long as no value is left
behind: an index that is free then has no value in any thread, so its next owner finds
null everywhere, and a thread that has ended has none that a callback waits for.

## Main definitions

* `TlsSound`, `FlsSound` — the agreement, for each kind of storage.

## Main results

* `FlsSound.freed_perm`, `storage_correct`
-/

namespace TradutorLinux.Process

open List Function

/-! ### The agreement -/

/-- The TLS values are what is owned; an index that is free has none. -/
structure TlsSound (s : LocalStorage) (o : Owned) : Prop where
  absent : ∀ t, s.threadCount ≤ t → s.thread t = .absent
  values : ∀ t i, (s.thread t).phase ≠ .left → i < kTlsMinimumAvailable →
    (s.thread t).tlsSlots i = if s.tlsUsed i then o.tls t i else 0
  teb : ∀ t slots, (s.thread t).teb = some slots → ∀ i, i < kTlsMinimumAvailable →
    slots i = (s.thread t).tlsSlots i
  created : ∀ t, (s.thread t).phase = .created → (s.thread t).tlsSlots = fun _ => 0

/-- The FLS values of a live thread are what it owns; an index that is free has none, and neither
has one with a callback in a thread that has ended or is about to. -/
structure FlsSound (s : LocalStorage) (o : Owned) : Prop where
  absent : ∀ t, s.threadCount ≤ t → s.thread t = .absent ∧ o.fls t = fun _ => 0
  nodup : s.flsThreads.Nodup
  listed : ∀ object ∈ s.flsThreads, object < s.objectCount
  kept_lt : ∀ slot object, s.kept slot = some object → object < s.objectCount
  kept_inj : ∀ a b object, s.kept a = some object → s.kept b = some object → a = b
  live : ∀ t, (s.thread t).phase.live = true → ∃ object, (s.thread t).flsValues = some object ∧
    object ∈ s.flsThreads ∧ ∀ i, i < kMaxFlsSlots → (s.flsSlots i).used = true →
      s.values object i = o.fls t i
  idle : ∀ t, (s.thread t).phase.live = false → (s.thread t).flsValues = none
  apart : ∀ t u object, (s.thread t).flsValues = some object →
    (s.thread u).flsValues = some object → t = u
  created : ∀ t, (s.thread t).phase = .created → o.fls t = (fun _ => 0) ∧
    ∃ slot object, (s.thread t).slot = some slot ∧ slot < kMaxThreads ∧
      s.kept slot = some object ∧ object ∉ s.flsThreads ∧ s.values object = fun _ => 0
  pending : ∀ t u slot, (s.thread t).phase = .created → (s.thread u).phase = .created →
    (s.thread t).slot = some slot → (s.thread u).slot = some slot → t = u
  unused : ∀ object ∈ s.flsThreads, s.alive object = true → ∀ i, i < kMaxFlsSlots →
    (s.flsSlots i).used = false → s.values object i = 0
  ended : ∀ object ∈ s.flsThreads, s.alive object = true →
    (∀ t, (s.thread t).flsValues ≠ some object) → ∀ i, i < kMaxFlsSlots →
      (s.flsSlots i).calls = true → s.values object i = 0
  finishing : ∀ t object, (s.thread t).phase = .finishing → (s.thread t).flsValues = some object →
    ∀ i, i < kMaxFlsSlots → (s.flsSlots i).calls = true → s.values object i = 0

/-- Both parts. -/
structure Sound (s : LocalStorage) (o : Owned) : Prop where
  tls : TlsSound s o
  fls : FlsSound s o

section Steps

variable {s s' : LocalStorage} {o o' : Owned} {t i : ℕ} {v : Pointer}
  {executable e : Pointer → Bool}

namespace LocalStorage

theorem alive_iff {object : ℕ} : s.alive object ↔
    (∃ t < s.threadCount, (s.thread t).flsValues = some object) ∨
      ∃ sl < kMaxThreads, s.kept sl = some object := by
  simp [alive]

theorem alive_congr (hc : s'.threadCount = s.threadCount)
    (hv : ∀ t, (s'.thread t).flsValues = (s.thread t).flsValues)
    (hk : s'.kept = s.kept) : s'.alive = s.alive := by
  funext object
  rw [Bool.eq_iff_iff, alive_iff, alive_iff, hc, hk]
  simp [hv]

end LocalStorage

/-- A thread of which only the TLS values change. -/
structure SameFls (thread thread' : GuestThread) : Prop where
  phase : thread'.phase = thread.phase
  slot : thread'.slot = thread.slot
  flsValues : thread'.flsValues = thread.flsValues

theorem sameFls_setTls (ht : s'.thread = update s.thread t ((s.thread t).setTls i v))
    (u : ℕ) : SameFls (s.thread u) (s'.thread u) := by
  rw [ht]
  by_cases hu : u = t
  · subst hu
    rw [update_self]
    exact ⟨rfl, rfl, rfl⟩
  · rw [update_of_ne hu]
    exact ⟨rfl, rfl, rfl⟩

theorem FlsSound.congr (h : FlsSound s o) (hf : o'.fls = o.fls)
    (hh : ∀ t, SameFls (s.thread t) (s'.thread t))
    (hb : ∀ t, s.threadCount ≤ t → s'.thread t = .absent)
    (hs : (s'.threadCount, s'.kept, s'.flsSlots, s'.objectCount, s'.values, s'.flsThreads) =
      (s.threadCount, s.kept, s.flsSlots, s.objectCount, s.values, s.flsThreads)) :
    FlsSound s' o' := by
  simp only [Prod.mk.injEq] at hs
  obtain ⟨hc, hk, hl, ho, hv, hr⟩ := hs
  have ha : s'.alive = s.alive := LocalStorage.alive_congr hc (fun t => (hh t).flsValues) hk
  obtain ⟨h1, h2, h3, h4, h5, h6, h7, h8, h9, h0, h11, h12, h13⟩ := h
  constructor <;> simp only [hc, hk, hl, ho, hv, hr, ha, hf,
    (hh _).phase, (hh _).slot, (hh _).flsValues]
  · exact fun t ht => ⟨hb t ht, (h1 t ht).2⟩
  all_goals assumption

/-! ### Steps of TLS -/

theorem toNat_index (h : i < kMaxFlsSlots) : (UInt64.ofNat i).toNat = i := by
  rw [UInt64.toNat_ofNat', Nat.mod_eq_of_lt]
  exact h.trans (by decide)

theorem ofNat_index_ne (h : i < kMaxFlsSlots) : UInt64.ofNat i ≠ 0xFFFFFFFF := by
  intro heq
  have hv := congrArg UInt64.toNat heq
  rw [toNat_index h] at hv
  exact absurd (hv ▸ h) (by decide)

theorem find?_index {n : ℕ} {u : ℕ → Bool} (h : (List.range n).find? (fun i => !u i) = some i) :
    i < n ∧ u i = false := by
  have hm := mem_of_find?_eq_some h
  have hu := find?_some h
  exact ⟨mem_range.1 hm, by simpa using hu⟩

theorem tlsIndexAllocated_iff : s.tlsIndexAllocated i ↔ i < kTlsMinimumAvailable ∧ s.tlsUsed i := by
  simp [LocalStorage.tlsIndexAllocated]

theorem GuestThread.ne_absent {th : GuestThread} (h : th.phase.live) : th ≠ .absent := by
  rintro rfl
  cases h

theorem after_tlsAlloc (o : Owned) (s : LocalStorage) (t : ℕ) (hi : i < kMaxFlsSlots)
    (ou : StorageOutcome) (hr : ou.result = .ofNat i) :
    o.after s t .tlsAlloc ou = { o with tls := Owned.resetAt o.tls i } := by
  show (if ou.result = kTlsOutOfIndexes then o
    else { o with tls := Owned.resetAt o.tls ou.result.toNat }) = _
  rw [hr, if_neg (show ¬ UInt64.ofNat i = kTlsOutOfIndexes from ofNat_index_ne hi),
    toNat_index hi]

theorem Sound.tlsAlloc (h : Sound s o) :
    Sound s.tlsAlloc.state (o.after s t .tlsAlloc s.tlsAlloc) ∧ s.tlsAlloc.callbacks = [] := by
  unfold LocalStorage.tlsAlloc
  cases hf : (List.range kTlsMinimumAvailable).find? fun i => !s.tlsUsed i with
  | none => exact ⟨h, rfl⟩
  | some i =>
    obtain ⟨hi, hr⟩ := find?_index hf
    have hl : i < kMaxFlsSlots := hi.trans (by decide)
    have ho := after_tlsAlloc o s t hl (LocalStorage.succeed
      { s with tlsUsed := update s.tlsUsed i true } (.ofNat i)) rfl
    refine ⟨⟨?_, ?_⟩, rfl⟩
    · rw [ho]
      refine { h.tls with values := fun u j hu hj => ?_ }
      have hv := h.tls.values u j hu hj
      show (s.thread u).tlsSlots j = if update s.tlsUsed i true j then
        Owned.resetAt o.tls i u j else 0
      unfold Owned.resetAt
      by_cases hji : j = i
      · subst hji
        rw [hr] at hv
        rw [hv, update_self, update_self]
        rfl
      · rw [update_of_ne hji, update_of_ne hji]
        exact hv
    · rw [ho]
      exact h.fls.congr rfl (fun u => ⟨rfl, rfl, rfl⟩) h.tls.absent rfl

theorem TlsSound.read (h : TlsSound s o) (hp : (s.thread t).phase ≠ .left)
    (hi : s.tlsIndexAllocated i) : (s.tlsGetValue t i).result = o.tls t i := by
  obtain ⟨hl, hu⟩ := tlsIndexAllocated_iff.1 hi
  have hv := h.values t i hp hl
  rw [hu, if_pos rfl] at hv
  unfold LocalStorage.tlsGetValue
  rw [if_neg (not_le.2 hl)]
  cases ht : (s.thread t).teb with
  | none => exact hv
  | some ss =>
    dsimp only
    rw [if_pos (show i < kTebSlots from hl)]
    exact (h.teb t ss ht i hl).trans hv

theorem TlsSound.setTls (h : TlsSound s o) (hl : (s.thread t).phase.live)
    (hc : s'.threadCount = s.threadCount)
    (ht : s'.thread = update s.thread t ((s.thread t).setTls i v))
    (hv : ∀ u j, (s.thread u).phase ≠ .left → j < kTlsMinimumAvailable →
      (if u = t ∧ j = i then v else (s.thread u).tlsSlots j) =
        if s'.tlsUsed j then o'.tls u j else 0) : TlsSound s' o' where
  absent u hu := by
    rw [hc] at hu
    have hn : u ≠ t := by
      rintro rfl
      exact GuestThread.ne_absent hl (h.absent u hu)
    rw [ht, update_of_ne hn]
    exact h.absent u hu
  values u j hu hj := by
    have hp := (sameFls_setTls ht u).phase
    rw [hp] at hu
    rw [← hv u j hu hj, ht]
    by_cases hut : u = t
    · subst hut
      rw [update_self]
      by_cases hi : j = i
      · rw [if_pos ⟨rfl, hi⟩, hi]
        exact update_self ..
      · rw [if_neg fun hand => hi hand.2]
        exact update_of_ne hi ..
    · rw [update_of_ne hut, if_neg fun hand => hut hand.1]
  teb u ss he j hj := by
    rw [ht] at he ⊢
    by_cases hut : u = t
    · subst hut
      rw [update_self] at he ⊢
      obtain ⟨ss, hs, rfl⟩ := Option.map_eq_some_iff.1 he
      show (if i < kTebSlots then update ss i v else ss) j = update (s.thread u).tlsSlots i v j
      by_cases hi : j = i
      · subst hi
        rw [if_pos (show j < kTebSlots from hj), update_self, update_self]
      have hold := h.teb u ss hs j hj
      rw [update_of_ne hi, ← hold]
      split
      · exact update_of_ne hi ..
      · rfl
    · rw [update_of_ne hut] at he ⊢
      exact h.teb u ss he j hj
  created u hu := by
    have hp := (sameFls_setTls ht u).phase
    rw [hp] at hu
    have hut : u ≠ t := by
      rintro rfl
      rw [hu] at hl
      cases hl
    rw [ht, update_of_ne hut]
    exact h.created u hu

theorem Sound.tlsSetValue (h : Sound s o) (hl : (s.thread t).phase.live) :
    Sound (s.tlsSetValue t i v).state (o.after s t (.tlsSetValue i v) (s.tlsSetValue t i v)) ∧
      (s.tlsSetValue t i v).callbacks = [] := by
  unfold LocalStorage.tlsSetValue
  split
  · next hi =>
    obtain ⟨hlt, hus⟩ := tlsIndexAllocated_iff.1 hi
    have hs : TlsSound (s.setThread t ((s.thread t).setTls i v))
        { o with tls := Owned.setAt o.tls t i v } := by
      refine h.tls.setTls hl rfl rfl fun u j hu hj => ?_
      show _ = if s.tlsUsed j then Owned.setAt o.tls t i v u j else 0
      have hv := h.tls.values u j hu hj
      unfold Owned.setAt
      by_cases ht : u = t
      · subst ht
        rw [update_self]
        by_cases hji : j = i
        · subst hji
          rw [if_pos ⟨rfl, rfl⟩, hus, update_self]
          rfl
        · rw [if_neg fun hand => hji hand.2, update_of_ne hji]
          exact hv
      · rw [if_neg fun hand => ht hand.1, update_of_ne ht]
        exact hv
    exact ⟨⟨hs, h.fls.congr rfl (sameFls_setTls rfl) hs.absent rfl⟩, rfl⟩
  · exact ⟨h, rfl⟩

theorem Sound.tlsFree (h : Sound s o) (hl : (s.thread t).phase.live)
    (ho : ∀ u < s.threadCount, u ≠ t → (s.thread u).phase ≠ .left → (s.thread u).tlsSlots i = 0) :
    Sound (s.tlsFree t i).state o ∧ (s.tlsFree t i).callbacks = [] := by
  unfold LocalStorage.tlsFree
  split
  · have ht : TlsSound { s.setThread t ((s.thread t).setTls i 0) with
        tlsUsed := update s.tlsUsed i false } o := by
      refine h.tls.setTls hl rfl rfl fun u j hu hj => ?_
      show _ = if update s.tlsUsed i false j then o.tls u j else 0
      have hv := h.tls.values u j hu hj
      by_cases hi : j = i
      · subst hi
        rw [update_self, if_neg Bool.false_ne_true]
        split
        · rfl
        next hot =>
        by_cases hc : u < s.threadCount
        · exact ho u hc (fun hut => hot ⟨hut, rfl⟩) hu
        · rw [h.tls.absent u (not_lt.1 hc)]
          rfl
      · rw [if_neg fun hand => hi hand.2, update_of_ne hi]
        exact hv
    exact ⟨⟨ht, h.fls.congr rfl (sameFls_setTls rfl) ht.absent rfl⟩, rfl⟩
  · exact ⟨h, rfl⟩

/-! ### Steps of FLS -/

theorem flsIndexAllocated_iff : s.flsIndexAllocated i ↔ i < kMaxFlsSlots ∧ (s.flsSlots i).used := by
  simp [LocalStorage.flsIndexAllocated]

theorem calls_iff {sl : FlsSlot} : sl.calls ↔ sl.used ∧ sl.callback ≠ 0 := by
  simp [FlsSlot.calls]

theorem values_setValue (ob i : ℕ) (v : Pointer) (x j : ℕ) :
    (s.setValue ob i v).values x j = if x = ob ∧ j = i then v else s.values x j := by
  show update s.values ob (update (s.values ob) i v) x j = _
  by_cases hx : x = ob
  · subst hx
    rw [update_self]
    by_cases hj : j = i
    · rw [hj, update_self, if_pos ⟨rfl, rfl⟩]
    · rw [update_of_ne hj, if_neg fun hand => hj hand.2]
  · rw [update_of_ne hx, if_neg fun hand => hx hand.1]

theorem flsSlots_setFlsSlot (i : ℕ) (sl : FlsSlot) (j : ℕ) :
    (s.setFlsSlot i sl).flsSlots j = if j = i then sl else s.flsSlots j :=
  update_apply ..

theorem setAt_apply (vs : ℕ → ℕ → Pointer) (t i : ℕ) (v : Pointer) (u j : ℕ) :
    Owned.setAt vs t i v u j = if u = t ∧ j = i then v else vs u j := by
  unfold Owned.setAt
  by_cases hu : u = t
  · subst hu
    rw [update_self]
    by_cases hj : j = i
    · rw [hj, update_self, if_pos ⟨rfl, rfl⟩]
    · rw [update_of_ne hj, if_neg fun hand => hj hand.2]
  · rw [update_of_ne hu, if_neg fun hand => hu hand.1]

theorem resetAt_apply (vs : ℕ → ℕ → Pointer) (i u j : ℕ) :
    Owned.resetAt vs i u j = if j = i then 0 else vs u j := by
  unfold Owned.resetAt
  rw [update_apply]

namespace FlsSound

variable {object ot ob : ℕ}

section

variable (h : FlsSound s o)
include h

theorem lt_threadCount (hn : s.thread t ≠ .absent) : t < s.threadCount := by
  by_contra hg
  exact hn (h.absent t (not_lt.1 hg)).1

theorem alive_of_flsValues (ho : (s.thread t).flsValues = some object) : s.alive object := by
  refine LocalStorage.alive_iff.2 (.inl ⟨t, h.lt_threadCount ?_, ho⟩)
  intro ha
  rw [ha] at ho
  cases ho

theorem live_of_flsValues (hl : (s.thread t).phase.live) (ho : (s.thread t).flsValues = some ob) :
    ob ∈ s.flsThreads ∧ ∀ i, i < kMaxFlsSlots → (s.flsSlots i).used →
      s.values ob i = o.fls t i := by
  obtain ⟨ob', ho', hr⟩ := h.live t hl
  cases ho.symm.trans ho'
  exact hr

theorem live_of_some (ho : (s.thread t).flsValues = some ob) : (s.thread t).phase.live := by
  by_contra hd
  rw [h.idle t (Bool.eq_false_iff.2 hd)] at ho
  cases ho

theorem ensure_eq (hl : (s.thread t).phase.live) : s.ensureFlsThreadValues t = s := by
  obtain ⟨ob, ho, -⟩ := h.live t hl
  simp [LocalStorage.ensureFlsThreadValues, ho]

theorem setValue (hl : (s.thread t).phase.live)
    (hb : (s.thread t).flsValues = some object) (hus : (s.flsSlots i).used)
    (hf : (s.thread t).phase = .finishing → v = 0 ∨ (s.flsSlots i).callback = 0) :
    FlsSound (s.setValue object i v) { o with fls := Owned.setAt o.fls t i v } where
  absent u hu := by
    obtain ⟨hab, hw⟩ := h.absent u hu
    refine ⟨hab, funext fun j => ?_⟩
    have he : u ≠ t := by
      rintro rfl
      exact GuestThread.ne_absent hl hab
    show Owned.setAt o.fls t i v u j = 0
    rw [setAt_apply, if_neg fun hand => he hand.1, hw]
  nodup := h.nodup
  listed := h.listed
  kept_lt := h.kept_lt
  kept_inj := h.kept_inj
  live u hu := by
    obtain ⟨ob', ho', hli, hv⟩ := h.live u hu
    refine ⟨ob', ho', hli, fun j hj hju => ?_⟩
    show _ = Owned.setAt o.fls t i v u j
    rw [values_setValue, setAt_apply]
    by_cases ht : u = t
    · subst ht
      cases hb.symm.trans ho'
      by_cases hi : j = i
      · rw [if_pos ⟨rfl, hi⟩, if_pos ⟨rfl, hi⟩]
      · rw [if_neg fun hand => hi hand.2, if_neg fun hand => hi hand.2]
        exact hv j hj hju
    · have ho : ob' ≠ object := by
        rintro rfl
        exact ht (h.apart u t ob' ho' hb)
      rw [if_neg fun hand => ho hand.1, if_neg fun hand => ht hand.1]
      exact hv j hj hju
  idle := h.idle
  apart := h.apart
  created u hu := by
    obtain ⟨hw, sl, ob', hs, hlt, hk, hli, hz⟩ := h.created u hu
    have he : u ≠ t := by
      rintro rfl
      rw [show (s.thread u).phase = .created from hu] at hl
      cases hl
    refine ⟨funext fun j => ?_, sl, ob', hs, hlt, hk, hli, funext fun j => ?_⟩
    · show Owned.setAt o.fls t i v u j = 0
      rw [setAt_apply, if_neg fun hand => he hand.1, hw]
    · have ho : ob' ≠ object := by
        rintro rfl
        exact hli (h.live_of_flsValues hl hb).1
      rw [values_setValue, if_neg fun hand => ho hand.1, hz]
  pending := h.pending
  unused x hx ha j hj hju := by
    have hi : j ≠ i := by
      rintro rfl
      rw [show (s.flsSlots j).used = false from hju] at hus
      cases hus
    rw [values_setValue, if_neg fun hand => hi hand.2]
    exact h.unused x hx ha j hj hju
  ended x hx ha hn j hj hc := by
    have ho : x ≠ object := fun heq => hn t (heq ▸ hb)
    rw [values_setValue, if_neg fun hand => ho hand.1]
    exact h.ended x hx ha hn j hj hc
  finishing u x hu hx j hj hc := by
    rw [values_setValue]
    split
    · next hand =>
      obtain ⟨rfl, rfl⟩ := hand
      cases h.apart u t x hx hb
      exact (hf hu).resolve_right (calls_iff.1 hc).2
    · exact h.finishing u x hu hx j hj hc

/-- An index gets an owner. -/
theorem alloc (hf : (s.flsSlots i).used = false) (cb : Pointer) :
    FlsSound (s.setFlsSlot i ⟨true, cb⟩) { o with fls := Owned.resetAt o.fls i } where
  absent u hu := by
    obtain ⟨hb, ho⟩ := h.absent u hu
    refine ⟨hb, funext fun j => ?_⟩
    show Owned.resetAt o.fls i u j = 0
    rw [resetAt_apply, ho, ite_self]
  nodup := h.nodup
  listed := h.listed
  kept_lt := h.kept_lt
  kept_inj := h.kept_inj
  live u hu := by
    obtain ⟨ob', ho', hl, hv⟩ := h.live u hu
    refine ⟨ob', ho', hl, fun j hj hju => ?_⟩
    show s.values ob' j = Owned.resetAt o.fls i u j
    rw [resetAt_apply]
    by_cases hi : j = i
    · subst hi
      rw [if_pos rfl]
      exact h.unused ob' hl (h.alive_of_flsValues ho') j hj hf
    · rw [if_neg hi]
      refine hv j hj ?_
      rwa [flsSlots_setFlsSlot, if_neg hi] at hju
  idle := h.idle
  apart := h.apart
  created u hu := by
    obtain ⟨ho, hr⟩ := h.created u hu
    refine ⟨funext fun j => ?_, hr⟩
    show Owned.resetAt o.fls i u j = 0
    rw [resetAt_apply, ho, ite_self]
  pending := h.pending
  unused x hx ha j hj hju := by
    by_cases hi : j = i
    · subst hi
      rw [flsSlots_setFlsSlot, if_pos rfl] at hju
      cases hju
    · rw [flsSlots_setFlsSlot, if_neg hi] at hju
      exact h.unused x hx ha j hj hju
  ended x hx ha hn j hj hc := by
    by_cases hi : j = i
    · subst hi
      exact h.unused x hx ha j hj hf
    · rw [flsSlots_setFlsSlot, if_neg hi] at hc
      exact h.ended x hx ha hn j hj hc
  finishing u x hu hx j hj hc := by
    by_cases hi : j = i
    · subst hi
      exact h.unused x (h.live_of_flsValues (h.live_of_some hx) hx).1 (h.alive_of_flsValues hx) j
        hj hf
    · rw [flsSlots_setFlsSlot, if_neg hi] at hc
      exact h.finishing u x hu hx j hj hc

theorem cleanup (hl : (s.thread t).phase.live) (hb : (s.thread t).flsValues = some object) :
    FlsSound { s with values := update s.values object fun i =>
          if i < kMaxFlsSlots ∧ (s.flsSlots i).calls then 0 else s.values object i } { o with
        fls := update o.fls t fun i =>
          if i < kMaxFlsSlots ∧ (s.flsSlots i).calls then 0 else o.fls t i } := by
  have hp : ∀ (vs : ℕ → ℕ → Pointer) (x y j : ℕ),
      update vs x (fun i => if i < kMaxFlsSlots ∧ (s.flsSlots i).calls then 0
        else vs x i) y j = 0 ∨
      update vs x (fun i => if i < kMaxFlsSlots ∧ (s.flsSlots i).calls then 0
        else vs x i) y j = vs y j := by
    intro vs x y j
    by_cases hy : y = x
    · subst hy
      rw [update_self]
      split
      · exact .inl rfl
      · exact .inr rfl
    · exact .inr (by rw [update_of_ne hy])
  have hk : ∀ x j, s.values x j = 0 → update s.values object
      (fun i => if i < kMaxFlsSlots ∧ (s.flsSlots i).calls then 0
        else s.values object i) x j = 0 := by
    intro x j hz
    rcases hp s.values object x j with heq | heq
    · exact heq
    · rw [heq, hz]
  have ho : ∀ u, o.fls u = (fun _ => 0) → update o.fls t
      (fun i => if i < kMaxFlsSlots ∧ (s.flsSlots i).calls then 0 else o.fls t i) u =
        fun _ => 0 := by
    intro u hz
    funext j
    rcases hp o.fls t u j with heq | heq
    · exact heq
    · rw [heq, hz]
  refine
    { absent := fun u hu => ⟨(h.absent u hu).1, ho u (h.absent u hu).2⟩
      nodup := h.nodup, listed := h.listed, kept_lt := h.kept_lt, kept_inj := h.kept_inj
      live := fun u hu => ?_
      idle := h.idle, apart := h.apart
      created := fun u hu => ?_
      pending := h.pending
      unused := fun x hx ha j hj hju => hk x j (h.unused x hx ha j hj hju)
      ended := fun x hx ha hn j hj hc =>
        hk x j (h.ended x hx ha hn j hj hc)
      finishing := fun u x hu hx j hj hc => hk x j (h.finishing u x hu hx j hj hc) }
  · obtain ⟨ob', ho', hi, hv⟩ := h.live u hu
    refine ⟨ob', ho', hi, fun j hj hju => ?_⟩
    show update s.values object _ ob' j = update o.fls t _ u j
    by_cases ht : u = t
    · subst ht
      cases hb.symm.trans ho'
      rw [update_self, update_self, hv j hj hju]
    · have hot : ob' ≠ object := by
        rintro rfl
        exact ht (h.apart u t ob' ho' hb)
      rw [update_of_ne hot, update_of_ne ht]
      exact hv j hj hju
  · obtain ⟨hz, sl, ob', hs, hlt, he, hi, hv⟩ := h.created u hu
    exact ⟨ho u hz, sl, ob', hs, hlt, he, hi,
      funext fun j => hk ob' j (congrFun hv j)⟩

/-- A live thread whose values are handed over goes on to a phase in which it keeps its object as
long as it lives. -/
theorem setThread {thread : GuestThread} (hl : (s.thread t).phase.live)
    (hd : ∀ object, (s.thread t).flsValues = some object → ∀ i, i < kMaxFlsSlots →
      (s.flsSlots i).calls → s.values object i = 0) (hp : thread.phase ≠ .created)
    (hv : thread.flsValues = if thread.phase.live then (s.thread t).flsValues else none) :
    FlsSound (s.setThread t thread) o := by
  have hs : (s.setThread t thread).thread t = thread := update_self ..
  have ho : ∀ {u}, u ≠ t → (s.setThread t thread).thread u = s.thread u :=
    fun hu => update_of_ne hu ..
  have hb : ∀ {u x}, ((s.setThread t thread).thread u).flsValues = some x →
      (s.thread u).flsValues = some x := by
    intro u x hu
    by_cases ht : u = t
    · subst ht
      rw [hs, hv] at hu
      split at hu
      · exact hu
      · cases hu
    · rwa [ho ht] at hu
  have hc : ∀ {u}, ((s.setThread t thread).thread u).phase = .created → u ≠ t := by
    rintro u hu rfl
    rw [hs] at hu
    exact hp hu
  have ha : ∀ x, (s.setThread t thread).alive x → s.alive x := by
    intro x hx
    rcases LocalStorage.alive_iff.1 hx with ⟨u, hu, hux⟩ | hk
    · exact LocalStorage.alive_iff.2 (.inl ⟨u, hu, hb hux⟩)
    · exact LocalStorage.alive_iff.2 (.inr hk)
  refine
    { absent := fun u hu => ?_
      nodup := h.nodup, listed := h.listed, kept_lt := h.kept_lt, kept_inj := h.kept_inj
      live := fun u hu => ?_
      idle := fun u hu => ?_
      apart := fun u w x hu hw => h.apart u w x (hb hu) (hb hw)
      created := fun u hu => ?_
      pending := fun u w sl hu hw hsl hs' => ?_
      unused := fun x hx hx' => h.unused x hx (ha x hx')
      ended := fun x hx hx' hn => ?_
      finishing := fun u x hu hx => ?_ }
  · obtain ⟨hab, how⟩ := h.absent u hu
    have ht : u ≠ t := by
      rintro rfl
      exact GuestThread.ne_absent hl hab
    exact ⟨(ho ht).trans hab, how⟩
  · by_cases ht : u = t
    · subst ht
      rw [hs] at hu ⊢
      rw [hv, if_pos hu]
      exact h.live u hl
    · rw [ho ht] at hu ⊢
      exact h.live u hu
  · by_cases ht : u = t
    · subst ht
      rw [hs] at hu ⊢
      rw [hv, hu, if_neg Bool.false_ne_true]
    · rw [ho ht] at hu ⊢
      exact h.idle u hu
  · have ht := hc hu
    rw [ho ht] at hu ⊢
    exact h.created u hu
  · have ht := hc hu
    have hwt := hc hw
    rw [ho ht] at hu hsl
    rw [ho hwt] at hw hs'
    exact h.pending u w sl hu hw hsl hs'
  · -- An object that no thread has any more is that of this thread, or was one of those before.
    by_cases hm : (s.thread t).flsValues = some x
    · exact hd x hm
    · refine h.ended x hx (ha x hx') fun u hu => hn u ?_
      have ht : u ≠ t := fun heq => hm (heq ▸ hu)
      rw [ho ht]
      exact hu
  · by_cases ht : u = t
    · exact hd x (ht ▸ hb hx)
    · rw [ho ht] at hu hx
      exact h.finishing u x hu hx

theorem leave (hf : (s.thread t).phase = .finishing) : FlsSound (s.leaveThread t) o :=
  h.setThread (by rw [hf]; rfl) (fun x hx => h.finishing t x hf hx) (nofun) rfl

theorem create {slot : ℕ} (hs : s.slotFree slot) : FlsSound (s.createThread slot) o := by
  simp only [LocalStorage.slotFree, Bool.and_eq_true, decide_eq_true_eq, all_eq_true,
    mem_range, Bool.or_eq_true, bne_iff_ne, beq_iff_eq] at hs
  obtain ⟨hp, hf⟩ := hs
  have ht : ∀ u, (s.createThread slot).thread u = if u = s.threadCount then
      ⟨.created, some slot, fun _ => 0, none, none⟩ else s.thread u :=
    fun u => update_apply ..
  have hk : ∀ a, (s.createThread slot).kept a =
      if a = slot then some s.objectCount else s.kept a := fun a => update_apply ..
  have hv : ∀ x, x < s.objectCount → (s.createThread slot).values x = s.values x :=
    fun x hx => update_of_ne (ne_of_lt hx) ..
  have hold : ∀ u x, ((s.createThread slot).thread u).flsValues = some x →
      u ≠ s.threadCount ∧ (s.thread u).flsValues = some x := by
    intro u x hu
    rw [ht] at hu
    split at hu
    · cases hu
    · next hn => exact ⟨hn, hu⟩
  have hal : ∀ x, x < s.objectCount → (s.createThread slot).alive x →
      s.alive x := by
    intro x hlt hx
    rcases LocalStorage.alive_iff.1 hx with ⟨u, -, hux⟩ | ⟨a, ha, hax⟩
    · exact h.alive_of_flsValues (hold u x hux).2
    rw [hk] at hax
    split at hax
    · cases hax
      exact absurd hlt (lt_irrefl _)
    · exact LocalStorage.alive_iff.2 (.inr ⟨a, ha, hax⟩)
  -- Whoever is created already has another place.
  have hap : ∀ u, (s.thread u).phase = .created → (s.thread u).slot ≠ some slot := by
    intro u hu hs
    have hlt := h.lt_threadCount (t := u) fun hab => by rw [hab] at hu; cases hu
    rcases hf u hlt with hn | hl
    · exact hn hs
    · rw [hl] at hu
      cases hu
  refine
    { absent := fun u hu => ?_
      nodup := h.nodup
      listed := fun x hx => Nat.lt_succ_of_lt (h.listed x hx)
      kept_lt := fun a x hx => ?_
      kept_inj := fun a b x ha hb => ?_
      live := fun u hu => ?_
      idle := fun u hu => ?_
      apart := fun u w x hu hw => h.apart u w x (hold u x hu).2 (hold w x hw).2
      created := fun u hu => ?_
      pending := fun u w p hu hw hp hp' => ?_
      unused := fun x hx hx' j hj hju => ?_
      ended := fun x hx hx' he j hj hc => ?_
      finishing := fun u x hu hx j hj hc => ?_ }
  · have hu' : s.threadCount + 1 ≤ u := hu
    rw [ht, if_neg (by omega)]
    exact h.absent u (by omega)
  · rw [hk] at hx
    split at hx
    · cases hx
      exact Nat.lt_succ_self _
    · exact Nat.lt_succ_of_lt (h.kept_lt a x hx)
  · rw [hk] at ha hb
    split at ha <;> split at hb
    · next ha' hb' => rw [ha', hb']
    · cases ha
      exact absurd (h.kept_lt b _ hb) (lt_irrefl _)
    · cases hb
      exact absurd (h.kept_lt a _ ha) (lt_irrefl _)
    · exact h.kept_inj a b x ha hb
  · rw [ht] at hu
    split at hu
    · cases hu
    next hn =>
    obtain ⟨ob', ho', hi, hr⟩ := h.live u hu
    refine ⟨ob', ?_, hi, fun j hj hju => ?_⟩
    · rw [ht, if_neg hn]
      exact ho'
    · rw [hv ob' (h.listed ob' hi)]
      exact hr j hj hju
  · rw [ht] at hu ⊢
    split
    · rfl
    · next hn =>
      rw [if_neg hn] at hu
      exact h.idle u hu
  · rw [ht] at hu ⊢
    split
    · next hut =>
      refine ⟨(h.absent u hut.ge).2, slot, s.objectCount, rfl, hp, ?_, fun hm => ?_, ?_⟩
      · rw [hk, if_pos rfl]
      · exact lt_irrefl _ (h.listed _ hm)
      · exact update_self ..
    · next hn =>
      rw [if_neg hn] at hu
      obtain ⟨ho, p, ob', hp', hlt, ho', hi, hz⟩ := h.created u hu
      have hot : p ≠ slot := fun heq => hap u hu (heq ▸ hp')
      refine ⟨ho, p, ob', hp', hlt, ?_, hi, ?_⟩
      · rw [hk, if_neg hot]
        exact ho'
      · rw [hv ob' (h.kept_lt p ob' ho')]
        exact hz
  · rw [ht] at hu hp hw hp'
    split at hu <;> split at hw
    · next hut hwt => rw [hut, hwt]
    · next hut hwt =>
      rw [if_pos hut] at hp
      rw [if_neg hwt] at hp'
      cases hp
      exact absurd hp' (hap w hw)
    · next hut hwt =>
      rw [if_neg hut] at hp
      rw [if_pos hwt] at hp'
      cases hp'
      exact absurd hp (hap u hu)
    · next hut hwt =>
      rw [if_neg hut] at hp
      rw [if_neg hwt] at hp'
      exact h.pending u w p hu hw hp hp'
  · rw [hv x (h.listed x hx)]
    exact h.unused x hx (hal x (h.listed x hx) hx') j hj hju
  · rw [hv x (h.listed x hx)]
    refine h.ended x hx (hal x (h.listed x hx) hx') (fun u hu => ?_) j hj hc
    refine he u ?_
    rw [ht, if_neg]
    · exact hu
    · rintro rfl
      rw [(h.absent _ (le_refl _)).1] at hu
      cases hu
  · obtain ⟨hn, hx⟩ := hold u x hx
    rw [ht, if_neg hn] at hu
    have hi := (h.live_of_flsValues (h.live_of_some hx) hx).1
    rw [hv x (h.listed x hi)]
    exact h.finishing u x hu hx j hj hc

theorem start (hph : (s.thread t).phase = .created)
    (hb : (s.thread t).slot.bind s.kept = some object) : FlsSound (s.startThread t object) o := by
  obtain ⟨ho, sl, ob', hs, hlt, hk, hl, hz⟩ := h.created t hph
  rw [hs, Option.bind_some, hk] at hb
  cases hb
  have hh : ∀ u, (s.startThread t object).thread u = if u = t then
      { s.thread t with phase := .running, teb := some fun _ => 0, flsValues := some object }
      else s.thread u := fun u => update_apply ..
  have hot : ∀ u, (s.thread u).flsValues ≠ some object := by
    intro u hu
    exact hl (h.live_of_flsValues (h.live_of_some hu) hu).1
  have ha : ∀ x, (s.startThread t object).alive x → s.alive x := by
    intro x hx
    rcases LocalStorage.alive_iff.1 hx with ⟨u, hu, hux⟩ | hr
    · rw [hh] at hux
      split at hux
      · cases hux
        exact LocalStorage.alive_iff.2 (.inr ⟨sl, hlt, hk⟩)
      · exact LocalStorage.alive_iff.2 (.inl ⟨u, hu, hux⟩)
    · exact LocalStorage.alive_iff.2 (.inr hr)
  have hm : ∀ x, x ∈ (s.startThread t object).flsThreads ↔ x ∈ s.flsThreads ∨ x = object := by
    intro x
    show x ∈ s.flsThreads ++ [object] ↔ _
    rw [mem_append, mem_singleton]
  refine
    { absent := fun u hu => ?_
      nodup := ?_
      listed := fun x hx => ?_
      kept_lt := h.kept_lt, kept_inj := h.kept_inj
      live := fun u hu => ?_
      idle := fun u hu => ?_
      apart := fun u w x hu hw => ?_
      created := fun u hu => ?_
      pending := fun u w p hu hw hp hp' => ?_
      unused := fun x hx hx' j hj hju => ?_
      ended := fun x hx hx' hn j hj hc => ?_
      finishing := fun u x hu hx j hj hc => ?_ }
  · have hne : u ≠ t := by
      rintro rfl
      rw [(h.absent u hu).1] at hph
      cases hph
    rw [hh, if_neg hne]
    exact h.absent u hu
  · exact h.nodup.append (nodup_singleton object) (disjoint_singleton.2 hl)
  · rcases (hm x).1 hx with hx | rfl
    · exact h.listed x hx
    · exact h.kept_lt sl x hk
  · rw [hh] at hu
    split at hu
    · next ht =>
      refine ⟨object, by rw [hh, if_pos ht], (hm object).2 (.inr rfl), ?_⟩
      intro j _ _
      show s.values object j = o.fls u j
      rw [hz, ht, ho]
    · next ht =>
      obtain ⟨ob', hb', hl', he⟩ := h.live u hu
      exact ⟨ob', by rw [hh, if_neg ht]; exact hb',
        (hm ob').2 (.inl hl'), he⟩
  · rw [hh] at hu ⊢
    split
    · next ht => rw [if_pos ht] at hu; cases hu
    · next ht =>
      rw [if_neg ht] at hu
      exact h.idle u hu
  · rw [hh] at hu hw
    split at hu <;> split at hw
    · next ht hwt => rw [ht, hwt]
    · cases hu
      exact absurd hw (hot w)
    · cases hw
      exact absurd hu (hot u)
    · exact h.apart u w x hu hw
  · rw [hh] at hu ⊢
    split
    · next ht => rw [if_pos ht] at hu; cases hu
    next ht =>
    rw [if_neg ht] at hu
    obtain ⟨ho', p, ob', hp, hpl, hk', hl', hz'⟩ :=
      h.created u hu
    refine ⟨ho', p, ob', hp, hpl, hk', fun hx => ?_, hz'⟩
    rcases (hm ob').1 hx with hx | rfl
    · exact hl' hx
    · have hsa := h.kept_inj p sl _ hk' hk
      rw [hsa] at hp
      exact ht (h.pending u t sl hu hph hp hs)
  · rw [hh] at hu hp hw hp'
    split at hu <;> split at hw
    · cases hu
    · cases hu
    · cases hw
    next ht hwt =>
    rw [if_neg ht] at hp
    rw [if_neg hwt] at hp'
    exact h.pending u w p hu hw hp hp'
  · rcases (hm x).1 hx with hx | rfl
    · exact h.unused x hx (ha x hx') j hj hju
    · exact congrFun hz j
  · rcases (hm x).1 hx with hx | rfl
    · refine h.ended x hx (ha x hx') (fun u hu => ?_) j hj hc
      have ht : u ≠ t := by
        rintro rfl
        rw [h.idle u (by rw [hph]; rfl)] at hu
        cases hu
      refine hn u ?_
      rw [hh, if_neg ht]
      exact hu
    · exact absurd (by rw [hh, if_pos rfl]) (hn t)
  · rw [hh] at hu hx
    split at hu
    · cases hu
    · next ht =>
      rw [if_neg ht] at hx
      exact h.finishing u x hu hx j hj hc

end

end FlsSound

/-! ### `FlsFree` -/

theorem freeLoop_values (cb : Pointer) (i : ℕ) (l : List ℕ) :
    ∀ (vs : ℕ → ℕ → Pointer) (x j : ℕ), (LocalStorage.freeLoop cb i l vs).2 x j =
      if x ∈ l ∧ j = i ∧ cb ≠ 0 then 0 else vs x j := by
  induction l with
  | nil => intro vs x j; exact (if_neg fun hand => not_mem_nil hand.1).symm
  | cons ob r ih =>
    intro vs x j
    rw [LocalStorage.freeLoop]
    by_cases hc : cb ≠ 0 ∧ vs ob i ≠ 0
    · rw [if_pos hc]
      show (LocalStorage.freeLoop cb i r _).2 x j = _
      rw [ih]
      by_cases hx : x = ob
      · subst hx
        rw [update_self]
        by_cases hj : j = i
        · subst hj
          rw [update_self, ite_self, if_pos ⟨mem_cons_self, rfl, hc.1⟩]
        · rw [update_of_ne hj, if_neg fun hand => hj hand.2.1, if_neg fun hand => hj hand.2.1]
      · rw [update_of_ne hx]
        simp [mem_cons, hx, false_or]
    · rw [if_neg hc, ih]
      by_cases hx : x = ob
      · subst hx
        by_cases hj : j = i ∧ cb ≠ 0
        · have hz : vs x j = 0 := by
            rw [hj.1]
            by_contra hn
            exact hc ⟨hj.2, hn⟩
          rw [hz, ite_self, ite_self]
        · rw [if_neg fun hand => hj hand.2, if_neg fun hand => hj hand.2]
      · simp [mem_cons, hx, false_or]

theorem freeLoop_callbacks {cb : Pointer} (i : ℕ) {l : List ℕ} (hn : l.Nodup) :
    ∀ vs : ℕ → ℕ → Pointer, (LocalStorage.freeLoop cb i l vs).1 =
      if cb ≠ 0 then l.filterMap fun x => if vs x i ≠ 0 then some (cb, vs x i) else none
      else [] := by
  induction l with
  | nil => intro vs; exact (ite_self _).symm
  | cons object r ih =>
    intro vs
    obtain ⟨hnot, hr⟩ := nodup_cons.1 hn
    rw [LocalStorage.freeLoop]
    by_cases hc : cb ≠ 0
    · rw [if_pos hc]
      by_cases hv : vs object i ≠ 0
      · have hf : ((object :: r).filterMap fun x =>
            if vs x i ≠ 0 then some (cb, vs x i) else none) =
            (cb, vs object i) :: r.filterMap fun x =>
              if vs x i ≠ 0 then some (cb, vs x i) else none :=
          filterMap_cons_some (if_pos hv)
        rw [if_pos ⟨hc, hv⟩, hf]
        show _ :: (LocalStorage.freeLoop cb i r _).1 = _
        rw [ih hr, if_pos hc]
        congr 1
        refine filterMap_congr fun x hx => ?_
        have ho : x ≠ object := fun heq => hnot (heq ▸ hx)
        rw [update_of_ne ho]
      · have hf : ((object :: r).filterMap fun x =>
            if vs x i ≠ 0 then some (cb, vs x i) else none) =
            r.filterMap fun x => if vs x i ≠ 0 then some (cb, vs x i) else none :=
          filterMap_cons_none (if_neg hv)
        rw [if_neg fun hand => hv hand.2, ih hr, if_pos hc, hf]
    · rw [if_neg fun hand => hc hand.1, ih hr, if_neg hc, if_neg hc]

theorem FlsSound.object_eq {object : ℕ} (ho : (s.thread t).flsValues = some object) :
    s.object t = object := by
  rw [LocalStorage.object, ho, Option.getD_some]

/-- **The callbacks of a freed index are those of the values that are owned.** -/
theorem FlsSound.freed_perm (h : FlsSound s o) (hi : s.flsIndexAllocated i) :
    (s.flsFree i).callbacks.Perm (o.freed s i) := by
  obtain ⟨ht, hus⟩ := flsIndexAllocated_iff.1 hi
  have hcl : (s.flsFree i).callbacks = (LocalStorage.freeLoop (s.flsSlots i).callback i
      (s.flsThreads.filter s.alive) s.values).1 := by
    rw [LocalStorage.flsFree, if_pos hi]
  rw [hcl, freeLoop_callbacks i (h.nodup.filter _), Owned.freed]
  by_cases hc : (s.flsSlots i).calls
  · rw [if_pos hc, if_pos (calls_iff.1 hc).2]
    set call : ℕ → Option Callback := fun x =>
      if s.values x i ≠ 0 then some ((s.flsSlots i).callback, s.values x i) else none with hca
    have hb : ∀ u ∈ s.liveThreads, (s.thread u).flsValues = some (s.object u) ∧
        s.object u ∈ s.flsThreads ∧ s.values (s.object u) i = o.fls u i := by
      intro u hu
      obtain ⟨ob, hb, hs, hr⟩ := h.live u (mem_filter.1 hu).2
      rw [FlsSound.object_eq hb]
      exact ⟨hb, hs, hr i ht hus⟩
    have ho : (s.liveThreads.filterMap fun u =>
        if o.fls u i ≠ 0 then some ((s.flsSlots i).callback, o.fls u i) else none) =
        (s.liveThreads.map s.object).filterMap call := by
      rw [filterMap_map]
      refine filterMap_congr fun u hu => ?_
      show _ = call (s.object u)
      rw [hca]
      simp [(hb u hu).2.2]
    have hh : (s.flsThreads.filter s.alive).filterMap call = ((s.flsThreads.filter s.alive).filter
          fun x => decide (x ∈ s.liveThreads.map s.object)).filterMap call := by
      refine Eq.trans ?_ filterMap_filter.symm
      refine filterMap_congr fun x hx => ?_
      obtain ⟨hs, ha⟩ := mem_filter.1 hx
      split
      · rfl
      next hn =>
      -- The object is one of a thread that has ended.
      have hz : s.values x i = 0 := by
        refine h.ended x hs ha (fun u hu => hn ?_) i ht hc
        have hl := h.live_of_some hu
        have hco := h.lt_threadCount (GuestThread.ne_absent hl)
        exact decide_eq_true (mem_map.2
          ⟨u, mem_filter.2 ⟨mem_range.2 hco, hl⟩, FlsSound.object_eq hu⟩)
      rw [hca]
      exact if_neg fun he => he hz
    rw [ho, hh]
    refine List.Perm.filterMap call ((perm_ext_iff_of_nodup ?_ ?_).2 fun x => ?_)
    · exact (h.nodup.filter _).filter _
    · refine List.Nodup.map_on (fun u hu w hw heq => ?_) (nodup_range.filter _)
      exact h.apart u w (s.object u) (hb u hu).1 (heq ▸ (hb w hw).1)
    · rw [mem_filter, mem_filter, decide_eq_true_eq]
      constructor
      · exact fun hx => hx.2
      · intro hx
        obtain ⟨u, hu, rfl⟩ := mem_map.1 hx
        exact ⟨⟨(hb u hu).2.1, h.alive_of_flsValues (hb u hu).1⟩, hx⟩
  · have hnu : ¬ (s.flsSlots i).callback ≠ 0 := fun he => hc (calls_iff.2 ⟨hus, he⟩)
    rw [if_neg hc, if_neg hnu]

theorem FlsSound.free (h : FlsSound s o) (hi : s.flsIndexAllocated i)
    (ho : (s.flsSlots i).callback = 0 →
      ∀ ob ∈ s.flsThreads, s.alive ob → s.values ob i = 0) : FlsSound (s.flsFree i).state o := by
  have hst : (s.flsFree i).state = { s.setFlsSlot i ⟨false, 0⟩ with
      flsThreads := s.flsThreads.filter s.alive
      values := (LocalStorage.freeLoop (s.flsSlots i).callback i (s.flsThreads.filter s.alive)
        s.values).2 } := by
    rw [LocalStorage.flsFree, if_pos hi]
  have hs : ∀ j, (s.flsFree i).state.flsSlots j = if j = i then ⟨false, 0⟩ else s.flsSlots j := by
    intro j
    rw [hst]
    exact flsSlots_setFlsSlot i ⟨false, 0⟩ j
  have hv : ∀ x j, (s.flsFree i).state.values x j =
      if x ∈ s.flsThreads.filter s.alive ∧ j = i ∧ (s.flsSlots i).callback ≠ 0 then 0
      else s.values x j := by
    intro x j
    rw [hst]
    exact freeLoop_values _ i _ s.values x j
  have ht : ∀ x j, j ≠ i → (s.flsFree i).state.values x j = s.values x j := by
    intro x j hj
    rw [hv, if_neg fun hand => hj hand.2.1]
  have hn : ∀ {j : ℕ}, ((s.flsFree i).state.flsSlots j).calls → j ≠ i := by
    rintro j hc rfl
    rw [hs, if_pos rfl] at hc
    cases hc
  have ha : (s.flsFree i).state.alive = s.alive := by
    rw [hst]
    exact LocalStorage.alive_congr rfl (fun _ => rfl) rfl
  have hsa : ((s.flsFree i).state.threadCount, (s.flsFree i).state.thread,
      (s.flsFree i).state.kept, (s.flsFree i).state.objectCount, (s.flsFree i).state.flsThreads) =
      (s.threadCount, s.thread, s.kept, s.objectCount, s.flsThreads.filter s.alive) := by
    rw [hst]
    rfl
  simp only [Prod.mk.injEq] at hsa
  obtain ⟨hco, hh, hk, he, hth⟩ := hsa
  constructor <;> simp only [hco, hh, hk, he, hth, ha]
  · exact h.absent
  · exact h.nodup.filter _
  · exact fun x hx => h.listed x (mem_of_mem_filter hx)
  · exact h.kept_lt
  · exact h.kept_inj
  · intro u hu
    obtain ⟨ob, hb, hl, hr⟩ := h.live u hu
    refine ⟨ob, hb, mem_filter.2 ⟨hl, h.alive_of_flsValues hb⟩, fun j hj hju => ?_⟩
    have hji : j ≠ i := by
      rintro rfl
      rw [hs, if_pos rfl] at hju
      cases hju
    rw [hs, if_neg hji] at hju
    rw [ht ob j hji]
    exact hr j hj hju
  · exact h.idle
  · exact h.apart
  · intro u hu
    obtain ⟨hw, sl, ob, hsl, hlt, hk', hl, hz⟩ := h.created u hu
    refine ⟨hw, sl, ob, hsl, hlt, hk',
      fun hm => hl (mem_of_mem_filter hm), funext fun j => ?_⟩
    rw [hv, if_neg fun hand => hl (mem_of_mem_filter hand.1), hz]
  · exact h.pending
  · intro x hx hx' j hj hju
    have hl := mem_of_mem_filter hx
    by_cases hji : j = i
    · subst hji
      rw [hv]
      split
      · rfl
      · next hand => exact ho (by_contra fun hn => hand ⟨hx, rfl, hn⟩) x hl hx'
    · rw [hs, if_neg hji] at hju
      rw [ht x j hji]
      exact h.unused x hl hx' j hj hju
  · intro x hx hx' hno j hj hc
    have hji := hn hc
    rw [hs, if_neg hji] at hc
    rw [ht x j hji]
    exact h.ended x (mem_of_mem_filter hx) hx' hno j hj hc
  · intro u x hu hx j hj hc
    have hji := hn hc
    rw [hs, if_neg hji] at hc
    rw [ht x j hji]
    exact h.finishing u x hu hx j hj hc

/-! ### All steps -/

theorem TlsSound.setThread {th : GuestThread} (h : TlsSound s o)
    (hh : s'.thread = update s.thread t th) (hus : s'.tlsUsed = s.tlsUsed)
    (hc : s.threadCount ≤ s'.threadCount) (hl : t < s'.threadCount)
    (hp : (s.thread t).phase ≠ .left) (hs : th.tlsSlots = (s.thread t).tlsSlots)
    (he : ∀ ss, th.teb = some ss → ∀ i, i < kTlsMinimumAvailable → ss i = th.tlsSlots i)
    (hr : th.phase = .created → th.tlsSlots = fun _ => 0) : TlsSound s' o where
  absent u hu := by
    have hn : u ≠ t := by
      rintro rfl
      exact absurd hl (not_lt.2 hu)
    rw [hh, update_of_ne hn]
    exact h.absent u (hc.trans hu)
  values u i hu hi := by
    rw [hh] at hu ⊢
    rw [hus]
    by_cases ht : u = t
    · subst ht
      rw [update_self, hs]
      exact h.values u i hp hi
    · rw [update_of_ne ht] at hu ⊢
      exact h.values u i hu hi
  teb u ss hu i hi := by
    rw [hh] at hu ⊢
    by_cases ht : u = t
    · subst ht
      rw [update_self] at hu ⊢
      exact he ss hu i hi
    · rw [update_of_ne ht] at hu ⊢
      exact h.teb u ss hu i hi
  created u hu := by
    rw [hh] at hu ⊢
    by_cases ht : u = t
    · subst ht
      rw [update_self] at hu ⊢
      exact hr hu
    · rw [update_of_ne ht] at hu ⊢
      exact h.created u hu

theorem ThreadPhase.live.ne_left {ph : ThreadPhase} (h : ph.live) : ph ≠ .left := by
  rintro rfl
  cases h

theorem after_flsAlloc (o : Owned) (s : LocalStorage) (t : ℕ) (cb : Pointer)
    (hi : i < kMaxFlsSlots) (ou : StorageOutcome) (hr : ou.result = .ofNat i) :
    o.after s t (.flsAlloc cb) ou = { o with fls := Owned.resetAt o.fls i } := by
  show (if ou.result = kFlsOutOfIndexes then o
    else { o with fls := Owned.resetAt o.fls ou.result.toNat }) = _
  rw [hr, if_neg (show ¬ UInt64.ofNat i = kFlsOutOfIndexes from ofNat_index_ne hi),
    toNat_index hi]

theorem Sound.flsAlloc (h : Sound s o) (cb : Pointer) : Sound (s.flsAlloc e cb).state
      (o.after s t (.flsAlloc cb) (s.flsAlloc e cb)) ∧
      (s.flsAlloc e cb).callbacks = [] := by
  unfold LocalStorage.flsAlloc
  split
  · exact ⟨h, rfl⟩
  cases hf : (List.range kMaxFlsSlots).find? fun i => !(s.flsSlots i).used with
  | none => exact ⟨h, rfl⟩
  | some i =>
    obtain ⟨hi, hr⟩ := find?_index hf
    have ho := after_flsAlloc o s t cb hi (LocalStorage.succeed
      (s.setFlsSlot i ⟨true, cb⟩) (.ofNat i)) rfl
    refine ⟨⟨?_, ?_⟩, rfl⟩
    · rw [ho]
      exact { h.tls with }
    · rw [ho]
      exact h.fls.alloc hr cb

theorem Sound.flsSetValue (h : Sound s o) (hl : (s.thread t).phase.live)
    (ho : (s.thread t).phase = .finishing → v = 0 ∨ (s.flsSlots i).callback = 0) :
    Sound (s.flsSetValue t i v).state (o.after s t (.flsSetValue i v) (s.flsSetValue t i v)) := by
  unfold LocalStorage.flsSetValue
  split
  · next hi =>
    obtain ⟨ob, hb, -⟩ := h.fls.live t hl
    obtain ⟨-, hu⟩ := flsIndexAllocated_iff.1 hi
    rw [h.fls.ensure_eq hl]
    dsimp only
    rw [FlsSound.object_eq hb]
    exact ⟨{ h.tls with }, h.fls.setValue hl hb hu ho⟩
  · exact h

theorem cleanup_eq {ob : ℕ} (ho : (s.thread t).flsValues = some ob) :
    s.cleanupCurrentFlsValues t =
      { state := { s with
          values := update s.values ob fun i =>
            if i < kMaxFlsSlots ∧ (s.flsSlots i).calls then 0 else s.values ob i }
        result := 0, lastError := 0
        callbacks := (List.range kMaxFlsSlots).filterMap fun i =>
          if (s.flsSlots i).calls ∧ s.values ob i ≠ 0 then
            some ((s.flsSlots i).callback, s.values ob i)
          else none } := by
  simp [LocalStorage.cleanupCurrentFlsValues, ho]

theorem Sound.cleanup (h : Sound s o) (hl : (s.thread t).phase.live) :
    Sound (s.cleanupCurrentFlsValues t).state
      (o.after s t .exitThread (s.cleanupCurrentFlsValues t)) ∧
      (s.cleanupCurrentFlsValues t).callbacks = o.finished s t := by
  obtain ⟨ob, ho, -, hr⟩ := h.fls.live t hl
  rw [cleanup_eq ho]
  refine ⟨⟨{ h.tls with },
    h.fls.cleanup hl ho⟩, filterMap_congr fun i hi => ?_⟩
  by_cases hc : (s.flsSlots i).calls
  · rw [hr i (mem_range.1 hi) (calls_iff.1 hc).1]
  · rw [if_neg fun hand => hc hand.1, if_neg fun hand => hc hand.1]

theorem Sound.finish (h : Sound s o) (hp : (s.thread t).phase = .running) :
    Sound (s.finishThread t).state (o.after s t .finish (s.finishThread t)) := by
  have hl : (s.thread t).phase.live := by
    rw [hp]
    rfl
  obtain ⟨hc, -⟩ := h.cleanup hl
  obtain ⟨ob, ho, -⟩ := h.fls.live t hl
  have ht := h.fls.lt_threadCount (GuestThread.ne_absent hl)
  rw [cleanup_eq ho] at hc
  rw [LocalStorage.finishThread, cleanup_eq ho]
  refine ⟨hc.tls.setThread rfl rfl (le_refl _) ht (ThreadPhase.live.ne_left hl) rfl
    (h.tls.teb t) (nofun), ?_⟩
  refine hc.fls.setThread hl (fun ob' ho' i hi ha => ?_)
    (nofun) rfl
  cases ho.symm.trans ho'
  show update s.values ob _ ob i = 0
  rw [update_self]
  exact if_pos ⟨hi, ha⟩

variable {a : ℕ × StorageCall}

/-- **An orderly step keeps the storage in agreement with what is owned.** -/
theorem Sound.step {ou : StorageOutcome} (h : Sound s o)
    (ho : Orderly (s, o) a) (hs : s.step e a = some ou) :
    Sound ou.state (o.after s a.1 a.2 ou) := by
  obtain ⟨t, c⟩ := a
  unfold LocalStorage.step at hs
  split at hs
  · next hl =>
    have ht := h.fls.lt_threadCount (GuestThread.ne_absent hl)
    cases c with
    | tlsAlloc => cases hs; exact h.tlsAlloc.1
    | tlsGetValue ix =>
      cases hs
      unfold LocalStorage.tlsGetValue
      split
      · exact h
      · split
        · split <;> exact h
        · exact h
    | tlsSetValue ix va => cases hs; exact (h.tlsSetValue hl).1
    | tlsFree ix => cases hs; exact (h.tlsFree hl ho).1
    | flsAlloc cb => cases hs; exact (h.flsAlloc cb).1
    | flsGetValue ix =>
      cases hs
      unfold LocalStorage.flsGetValue
      split
      · rw [h.fls.ensure_eq hl]
        exact h
      · exact h
    | flsSetValue ix va => cases hs; exact h.flsSetValue hl ho
    | flsFree ix =>
      cases hs
      show Sound (s.flsFree ix).state o
      by_cases hi : s.flsIndexAllocated ix
      · refine ⟨?_, h.fls.free hi ho⟩
        rw [LocalStorage.flsFree, if_pos hi]
        exact { h.tls with }
      · rw [LocalStorage.flsFree, if_neg hi]
        exact h
    | createThread sl =>
      simp only [LocalStorage.call] at hs
      split at hs
      · next hso =>
        cases hs
        have ha := h.tls.absent s.threadCount (le_refl _)
        refine ⟨h.tls.setThread rfl rfl (Nat.le_succ _) (Nat.lt_succ_self _) ?_ ?_
          (fun ss hsl => by cases hsl) (fun _ => rfl), h.fls.create hso⟩
        · rw [ha]
          exact nofun
        · rw [ha]
          rfl
      · cases hs
    | start => cases hs
    | exitThread => cases hs; exact (h.cleanup hl).1
    | finish =>
      simp only [LocalStorage.call] at hs
      split at hs
      · next hp => cases hs; exact h.finish hp
      · cases hs
    | leave =>
      simp only [LocalStorage.call] at hs
      split at hs
      · next hp =>
        cases hs
        exact ⟨h.tls.setThread rfl rfl (le_refl _) ht (ThreadPhase.live.ne_left hl) rfl
          (fun ss hsl => by cases hsl) (nofun),
          h.fls.leave hp.1⟩
      · cases hs
  · split at hs
    · next ob hc hp hb =>
      cases hs
      obtain rfl : c = .start := hc
      have ht : t < s.threadCount := by
        refine h.fls.lt_threadCount fun ha => ?_
        rw [show s.thread t = .absent from ha] at hp
        cases hp
      have hn : (s.thread t).phase ≠ .left := by
        rw [show (s.thread t).phase = .created from hp]
        exact nofun
      refine ⟨h.tls.setThread rfl rfl (le_refl _) ht hn rfl (fun ss hsl i hi => ?_)
        (nofun), h.fls.start hp hb⟩
      cases hsl
      exact (congrFun (h.tls.created t hp) i).symm
    · cases hs

/-- **In agreement every call is correct.** -/
theorem Sound.correct {outcome : StorageOutcome} (h : Sound s o)
    (hs : s.step executable a = some outcome) : Correct s o a.1 a.2 outcome := by
  obtain ⟨t, c⟩ := a
  unfold LocalStorage.step at hs
  split at hs
  · next hl =>
    cases c with
    | tlsAlloc => cases hs; exact (h.tlsAlloc (t := t)).2
    | tlsGetValue ix =>
      cases hs
      refine ⟨fun hi => h.tls.read (ThreadPhase.live.ne_left hl) hi, ?_⟩
      unfold LocalStorage.tlsGetValue
      split
      · rfl
      · split
        · split <;> rfl
        · rfl
    | tlsSetValue ix va => cases hs; exact (h.tlsSetValue hl).2
    | tlsFree ix =>
      cases hs
      show (s.tlsFree t ix).callbacks = []
      unfold LocalStorage.tlsFree
      split <;> rfl
    | flsAlloc cb => cases hs; exact (h.flsAlloc (t := t) cb).2
    | flsGetValue ix =>
      cases hs
      refine ⟨fun hi => ?_, ?_⟩
      · obtain ⟨object, ho, -, hr⟩ := h.fls.live t hl
        obtain ⟨ht, hu⟩ := flsIndexAllocated_iff.1 hi
        simp only [LocalStorage.flsGetValue, if_pos hi, h.fls.ensure_eq hl, FlsSound.object_eq ho]
        exact hr ix ht hu
      · unfold LocalStorage.flsGetValue
        split <;> rfl
    | flsSetValue ix va =>
      cases hs
      show (s.flsSetValue t ix va).callbacks = []
      unfold LocalStorage.flsSetValue
      split <;> rfl
    | flsFree ix =>
      cases hs
      show (s.flsFree ix).callbacks.Perm (if s.flsIndexAllocated ix then o.freed s ix
        else [])
      by_cases hi : s.flsIndexAllocated ix
      · rw [if_pos hi]
        exact h.fls.freed_perm hi
      · rw [if_neg hi, LocalStorage.flsFree, if_neg hi]
        exact List.Perm.refl []
    | createThread sl =>
      simp only [LocalStorage.call] at hs
      split at hs
      · cases hs; rfl
      · cases hs
    | start => cases hs
    | exitThread => cases hs; exact List.Perm.of_eq (h.cleanup hl).2
    | finish =>
      simp only [LocalStorage.call] at hs
      split at hs
      · cases hs; exact List.Perm.of_eq (h.cleanup hl).2
      · cases hs
    | leave =>
      simp only [LocalStorage.call] at hs
      split at hs
      · next hp =>
        cases hs
        refine ⟨fun i hi hc => ?_, rfl⟩
        obtain ⟨object, ho, -, hr⟩ := h.fls.live t hl
        rw [← hr i hi (calls_iff.1 hc).1]
        exact h.fls.finishing t object hp.1 ho i hi hc
      · cases hs
  · split at hs
    · next object ha _ _ =>
      cases hs
      obtain rfl : c = .start := ha
      rfl
    · cases hs

/-! ### Runs of a process -/

theorem sound_start : Sound LocalStorage.start Owned.nothing := by
  have ht : ∀ u, LocalStorage.start.thread u = if u = 0 then
      ⟨.running, none, fun _ => 0, some fun _ => 0, some 0⟩ else .absent := by
    intro u
    simp [LocalStorage.start, update_apply]
  have hv : ∀ u x, (LocalStorage.start.thread u).flsValues = some x → u = 0 ∧ x = 0 := by
    intro u x hu
    rw [ht] at hu
    split at hu
    · next h0 => cases hu; exact ⟨h0, rfl⟩
    · cases hu
  have hp : ∀ u, (LocalStorage.start.thread u).phase = .running ∨
      (LocalStorage.start.thread u).phase = .absent := by
    intro u
    rw [ht]
    split
    · exact .inl rfl
    · exact .inr rfl
  have hr : ∀ u ph, (LocalStorage.start.thread u).phase = ph → ph ≠ .running →
      ph = .absent := by
    intro u ph hu hn
    rcases hp u with heq | heq
    · exact absurd (hu.symm.trans heq) hn
    · exact hu.symm.trans heq
  have ha : ∀ u, LocalStorage.start.threadCount ≤ u →
      LocalStorage.start.thread u = .absent := by
    intro u hu
    rw [ht, if_neg]
    rintro rfl
    exact absurd hu (by decide)
  refine ⟨⟨ha, fun u i _ _ => ?_, fun u ss hs i _ => ?_, fun u hu => ?_⟩,
    { absent := fun u hu => ⟨ha u hu, rfl⟩
      nodup := nodup_singleton 0
      listed := fun x hx => by cases mem_singleton.1 hx; exact Nat.zero_lt_one
      kept_lt := fun a x hx => by cases hx
      kept_inj := fun a b x hx => by cases hx
      live := fun u hu => ?_
      idle := fun u hu => ?_
      apart := fun u w x hu hw => (hv u x hu).1.trans (hv w x hw).1.symm
      created := fun u hu => ?_
      pending := fun u w sl hu => ?_
      unused := fun x hx hx' i hi hus => rfl
      ended := fun x hx hx' ho i hi hc => rfl
      finishing := fun u x hu hx i hi hc => rfl }⟩
  · rw [ht]
    split <;> rfl
  · rw [ht] at hs ⊢
    split at hs
    · next h0 => cases hs; rw [if_pos h0]
    · cases hs
  · cases hr u .created hu (by decide)
  · refine ⟨0, ?_, mem_singleton_self 0, fun i _ hus => by cases hus⟩
    rw [ht] at hu ⊢
    split
    · rfl
    · next h0 => rw [if_neg h0] at hu; cases hu
  · rw [ht] at hu ⊢
    split
    · next h0 => rw [if_pos h0] at hu; cases hu
    · rfl
  · cases hr u .created hu (by decide)
  · cases hr u .created hu (by decide)

/-- **In an orderly run every call is correct**: a thread finds at an index what it has set there
since the index was allocated, and nothing before; and the callback of an index is run once for
each value that is owned when the index is freed or the thread ends. -/
theorem storage_correct {s : LocalStorage × Owned} {outcome : StorageOutcome}
    (h : Runs (storageStep executable) Orderly (LocalStorage.start, Owned.nothing) s)
    (hstep : s.1.step executable a = some outcome) : Correct s.1 s.2 a.1 a.2 outcome := by
  refine Sound.correct (Runs.keeps (I := fun s => Sound s.1 s.2) ?_ h sound_start) hstep
  intro s a s' hs ho hn
  obtain ⟨outcome, hu, rfl⟩ := Option.map_eq_some_iff.mp hn
  exact hs.step ho hu

end Steps

/-- A thread ends with a value in an index with a callback. -/
theorem storage_correct_threadEnd : ∃ s : LocalStorage × Owned, ∃ outcome,
    s.1.step (fun _ => true) (1, .finish) = some outcome ∧ outcome.callbacks = [(7, 9)] ∧
      Correct s.1 s.2 1 .finish outcome := by
  have hr : ((runAll (guarded (storageStep fun _ => true) Orderly)
      (LocalStorage.start, Owned.nothing)
      [(0, .flsAlloc 7), (0, .createThread 0), (1, .start), (1, .flsSetValue 0 9),
        (0, .tlsAlloc), (1, .tlsSetValue 0 3)]).bind
      fun s => (s.1.step (fun _ => true) (1, .finish)).map (·.callbacks)) = some [(7, 9)] := by
    decide +kernel
  obtain ⟨s, hs, hl⟩ := Option.bind_eq_some_iff.mp hr
  obtain ⟨outcome, ho, hc⟩ := Option.map_eq_some_iff.mp hl
  exact ⟨s, outcome, ho, hc, storage_correct (Runs.of_guarded hs) ho⟩

/-- The index that the main thread frees and allocates again still has the value of the other
thread. -/
theorem not_storage_correct : ¬ ∀ (executable : Pointer → Bool) (s : LocalStorage × Owned)
    (a : ℕ × StorageCall) (outcome : StorageOutcome),
    Runs (storageStep executable) Free (LocalStorage.start, Owned.nothing) s →
      s.1.step executable a = some outcome → Correct s.1 s.2 a.1 a.2 outcome := by
  intro hal
  have hu : ((runAll (storageStep fun _ => true) (LocalStorage.start, Owned.nothing)
      [(0, .createThread 0), (1, .start), (0, .tlsAlloc), (1, .tlsSetValue 0 5), (0, .tlsFree 0),
        (0, .tlsAlloc)]).bind
      fun s => (s.1.step (fun _ => true) (1, .tlsGetValue 0)).map fun outcome =>
        ([outcome.result, s.2.tls 1 0], s.1.tlsIndexAllocated 0)) = some ([5, 0], true) := by
    decide +kernel
  obtain ⟨s, hs, hl⟩ := Option.bind_eq_some_iff.mp hu
  obtain ⟨outcome, ht, hv⟩ := Option.map_eq_some_iff.mp hl
  simp only [Prod.mk.injEq, List.cons.injEq, and_true] at hv
  obtain ⟨⟨he, ho⟩, ha⟩ := hv
  have hr := (hal _ s (1, .tlsGetValue 0) outcome (Runs.of_runAll hs) ht).1 ha
  rw [he, ho] at hr
  cases hr

end TradutorLinux.Process
