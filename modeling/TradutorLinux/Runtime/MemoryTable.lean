import TradutorLinux.Runtime.VirtualMemory
import TradutorLinux.Util.Search

/-!
# The table of allocations

What every run of the memory functions keeps of the table: the slots in use are
page-aligned, the regions of an allocation tile it, and no page belongs to two
live slots.  A `MEM_FREE` record may stay behind under a view that is mapped over
it later.

## Main definitions

* `SlotInv`, `TableInv`, `TableStep`, `MemoryCall`, `Admissible`

## Main results

* `TableStep.inv`, `run_step`
-/

namespace TradutorLinux.Runtime

open List

/-! ### Pages and protections -/

theorem pageCount_pos {len : ℕ} (h : 0 < len) : 0 < pageCount len := by
  unfold pageCount pageSize
  omega

variable {a : ℕ}

theorem has_pageSpan {sta len : ℕ} (hl : sta % pageSize = 0)
    (ha : Span.Has ⟨sta, len⟩ a) : (pageSpan sta len).Has (a / pageSize) := by
  dsimp only [Span.Has, Span.stop, pageSpan, pageCount, pageSize] at *
  omega

theorem apart_of_pageSpan {s t l m : ℕ} (hs : s % pageSize = 0) (ht : t % pageSize = 0)
    (hl : 0 < l) (hm : 0 < m) (h : (pageSpan s l).Apart (pageSpan t m)) :
    Span.Apart ⟨s, l⟩ ⟨t, m⟩ :=
  Span.apart_of_not_has hl hm fun _ hsa ha => h.not_has (has_pageSpan hs hsa) (has_pageSpan ht ha)

namespace Pages

variable {ps : Pages} {p : ℕ}

theorem map_of_has {sta len : ℕ} {prot : Prot}
    (h : (pageSpan sta len).Has p) : ps.map sta len prot p = some prot := if_pos h

theorem map_of_not_has {sta len : ℕ} {pr : Prot}
    (h : ¬ (pageSpan sta len).Has p) : ps.map sta len pr p = ps p := if_neg h

theorem unmap_of_not_has {sta len : ℕ} (h : ¬ (pageSpan sta len).Has p) :
    ps.unmap sta len p = ps p := if_neg h

/-- `mprotect` maps no page and unmaps none. -/
theorem isSome_protectFrom (re : ℕ → Option Errno) (pr : Prot) (q n : ℕ) :
    ∀ p ps, ((protectFrom re pr n p ps).2 q).isSome = (ps q).isSome := by
  induction n with
  | zero => exact fun _ _ => rfl
  | succ n ih =>
    intro p ps
    unfold protectFrom
    split
    · rfl
    · rfl
    next p' hm hr =>
    rw [ih, Function.update_apply]
    split
    · next hq =>
      subst hq
      rw [hm]
      rfl
    · rfl

@[simp] theorem isSome_protect (ps : Pages) (re : ℕ → Option Errno) (sta len : ℕ)
    (p : Prot) (q : ℕ) : ((ps.protect re sta len p).2 q).isSome = (ps q).isSome := by
  unfold protect
  split
  · rfl
  · exact isSome_protectFrom re p q _ _ _

end Pages

/-! ### Slots -/

variable {s : AllocationSlot}

namespace AllocationSlot

def live (s : AllocationSlot) : Bool := s.address ≠ 0 && (s.view || s.state ≠ kMemFree)

def span (s : AllocationSlot) : Span := ⟨s.address, s.size⟩

def pages (s : AllocationSlot) : Span := pageSpan s.address s.size

theorem live_iff : s.live ↔ s.address ≠ 0 ∧ (s.view ∨ s.state ≠ kMemFree) := by
  simp [live]

theorem released_iff : s.released ↔ s.view = false ∧ s.state = kMemFree ∧ s.address ≠ 0 := by
  simp [released, and_assoc]

theorem available_iff : s.available ↔ s.address = 0 ∨ s.view = false ∧ s.state = kMemFree := by
  simp [available]

theorem not_live_of_available (h : s.available) : s.live = false := by
  rw [available_iff] at h
  rw [Bool.eq_false_iff, ne_eq, live_iff]
  rintro ⟨ha, hv | hs⟩
  · rcases h with h | h
    · exact ha h
    · rw [h.1] at hv
      cases hv
  · rcases h with h | h
    · exact ha h
    · exact hs h.2

theorem not_live_of_released (h : s.released) : s.live = false := by
  obtain ⟨hv, hs, -⟩ := released_iff.1 h
  exact not_live_of_available (available_iff.2 (.inr ⟨hv, hs⟩))

@[simp] theorem live_empty : ({} : AllocationSlot).live = false := rfl

@[simp] theorem released_empty : ({} : AllocationSlot).released = false := rfl

end AllocationSlot

/-- The states of an allocation and of its regions: all of it is free, all of it
is reserved, or all of its regions are committed. -/
def RegionStates (s : AllocationSlot) : Prop :=
  (s.state = kMemFree ∧ s.regions = [⟨0, s.size, kMemFree, 0⟩]) ∨
  (s.state = kMemReserve ∧ s.regions = [⟨0, s.size, kMemReserve, 0⟩]) ∨
  ((s.state = kMemCommit ∨ s.state = 0) ∧ ∀ r ∈ s.regions, r.state = kMemCommit)

/-- The invariant of a slot in use. -/
structure SlotInv (s : AllocationSlot) : Prop where
  aligned : s.address % pageSize = 0
  positive : 0 < s.size
  fits : s.address + pageCount s.size * pageSize ≤ 2 ^ 47
  viewState : s.view = true → s.regions = [] ∧ s.state = kMemCommit
  whole : s.view = false → s.size % pageSize = 0
  tiles : s.view = false → Tiles 0 s.size (s.regions.map AllocationRegion.span)
  states : s.view = false → RegionStates s

/-- The invariant of the table. -/
structure TableInv (vm : VirtualMemory) : Prop where
  slot : ∀ s ∈ vm.slots, s.address ≠ 0 → SlotInv s
  empty : ∀ s ∈ vm.slots, s.address = 0 → s.regions = []
  mapped : ∀ s ∈ vm.slots, s.live = true → ∀ p, s.pages.Has p → (vm.pages p).isSome
  apart : ∀ (i j : ℕ) (s t : AllocationSlot), i ≠ j → vm.slots[i]? = some s →
    vm.slots[j]? = some t → s.live = true → t.live = true → s.pages.Apart t.pages
  released : ∀ s ∈ vm.slots, ∀ t ∈ vm.slots, s.live = true → s.view = false →
    t.released = true → s.span.Apart t.span
  user : ∀ p, 2 ^ 35 ≤ p → vm.pages p = none

namespace TableInv

variable {vm : VirtualMemory}

theorem span_apart (hinv : TableInv vm) {i j : ℕ} {s t : AllocationSlot} (hj : i ≠ j)
    (hs : vm.slots[i]? = some s) (ht : vm.slots[j]? = some t) (hl : s.live)
    (hl' : t.live) : s.span.Apart t.span := by
  have hsi := hinv.slot s (mem_of_getElem? hs) (AllocationSlot.live_iff.1 hl).1
  have hi := hinv.slot t (mem_of_getElem? ht) (AllocationSlot.live_iff.1 hl').1
  exact apart_of_pageSpan hsi.aligned hi.aligned hsi.positive hi.positive
    (hinv.apart i j s t hj hs ht hl hl')

/-- **One slot changes.**  When the new one is live, its pages are those of no
other live slot, and an allocation also stays away from the `MEM_FREE` records. -/
theorem set (hinv : TableInv vm) {i : ℕ} {ps : Pages}
    {vm' : VirtualMemory} (hs : vm'.slots = vm.slots.set i s) (hpa : vm'.pages = ps)
    (hsl : s.address ≠ 0 → SlotInv s) (he : s.address = 0 → s.regions = [])
    (hma : s.live → ∀ p, s.pages.Has p → (ps p).isSome)
    (hke : ∀ (j : ℕ) (t : AllocationSlot), j ≠ i → vm.slots[j]? = some t → t.live →
      ∀ p, t.pages.Has p → (ps p).isSome) (ha : s.live → ∀ (j : ℕ) (t : AllocationSlot), j ≠ i →
      vm.slots[j]? = some t → t.live → s.pages.Apart t.pages)
    (hf : s.live → s.view = false → ∀ (j : ℕ) (t : AllocationSlot), j ≠ i →
      vm.slots[j]? = some t → t.released → s.span.Apart t.span)
    (hrec : s.released → ∀ (j : ℕ) (t : AllocationSlot), j ≠ i →
      vm.slots[j]? = some t → t.live → t.view = false → t.span.Apart s.span)
    (hus : ∀ p, 2 ^ 35 ≤ p → ps p = none) : TableInv vm' := by
  -- a slot of the new table is the new one, or an old one at another index
  have hg : ∀ j t, vm'.slots[j]? = some t →
      (j = i ∧ t = s) ∨ (j ≠ i ∧ vm.slots[j]? = some t) := by
    intro j t ht
    rw [hs, getElem?_set] at ht
    split at ht
    · next hi =>
      split at ht
      · exact .inl ⟨hi.symm, (Option.some.inj ht).symm⟩
      · cases ht
    · next hi => exact .inr ⟨fun h => hi h.symm, ht⟩
  have hm : ∀ t ∈ vm'.slots, t = s ∨ ∃ j, j ≠ i ∧ vm.slots[j]? = some t := by
    intro t ht
    obtain ⟨j, hj⟩ := getElem?_of_mem ht
    rcases hg j t hj with ⟨-, rfl⟩ | ⟨hn, ho⟩
    · exact .inl rfl
    · exact .inr ⟨j, hn, ho⟩
  constructor
  · intro t ht hd
    rcases hm t ht with rfl | ⟨j, -, ho⟩
    · exact hsl hd
    · exact hinv.slot t (mem_of_getElem? ho) hd
  · intro t ht hd
    rcases hm t ht with rfl | ⟨j, -, ho⟩
    · exact he hd
    · exact hinv.empty t (mem_of_getElem? ho) hd
  · intro t ht hl p hp
    rw [hpa]
    rcases hm t ht with rfl | ⟨j, hn, ho⟩
    · exact hma hl p hp
    · exact hke j t hn ho hl p hp
  · intro j k t u hjk ht hu hl hl'
    rcases hg j t ht with ⟨rfl, rfl⟩ | ⟨hj, ht⟩
    · rcases hg k u hu with ⟨rfl, rfl⟩ | ⟨hk, hu⟩
      · exact absurd rfl hjk
      · exact ha hl k u hk hu hl'
    · rcases hg k u hu with ⟨rfl, rfl⟩ | ⟨hk, hu⟩
      · exact (ha hl' j t hj ht hl).symm
      · exact hinv.apart j k t u hjk ht hu hl hl'
  · intro t ht u hu hl hv hr
    rcases hm t ht with rfl | ⟨j, hj, ht⟩
    · rcases hm u hu with rfl | ⟨k, hk, hu⟩
      · rw [AllocationSlot.not_live_of_released hr] at hl
        cases hl
      · exact hf hl hv k u hk hu hr
    · rcases hm u hu with rfl | ⟨k, -, hu⟩
      · exact hrec hr j t hj ht hl hv
      · exact hinv.released t (mem_of_getElem? ht) u (mem_of_getElem? hu) hl hv hr
  · rw [hpa]
    exact hus

end TableInv

/-! ### Steps of the table -/

/-- A live allocation or view, as its owner knows it. -/
structure LiveMapping where
  address : ℕ
  size : ℕ
  view : Bool
deriving DecidableEq, Repr

def AllocationSlot.mapping (s : AllocationSlot) : LiveMapping := ⟨s.address, s.size, s.view⟩

/-- What a call does to the live mappings. -/
inductive Effect
  | kept
  | added (m : LiveMapping)
  | removed (address : ℕ) (view : Bool)
deriving DecidableEq, Repr

/-- Some slots that are not live are emptied. -/
def Drops (f : AllocationSlot → AllocationSlot) : Prop :=
  ∀ s, f s = s ∨ (f s = {} ∧ s.live = false)

theorem drops_id : Drops id := fun _ => .inl rfl

/-- The pages of the live slots stay mapped, those of the kernel are never. -/
structure KeepsPages (slots : List AllocationSlot) (pages : Pages) : Prop where
  mapped : ∀ s ∈ slots, s.live = true → ∀ p, s.pages.Has p → (pages p).isSome
  user : ∀ p, 2 ^ 35 ≤ p → pages p = none

/-- **All that a call can do to the table.** -/
inductive TableStep (vm : VirtualMemory) (slots : List AllocationSlot) (pages : Pages) :
    Effect → Prop
  /-- No live slot changes. -/
  | keep (f : AllocationSlot → AllocationSlot) (hdrops : Drops f)
      (hslots : slots = vm.slots.map f) (hpages : KeepsPages vm.slots pages) :
      TableStep vm slots pages .kept
  /-- A slot that was not live is left without an address. -/
  | vacate (f : AllocationSlot → AllocationSlot) (hdrops : Drops f) (i : ℕ)
      (s t : AllocationSlot) (hslots : slots = (vm.slots.map f).set i s)
      (ht : (vm.slots.map f)[i]? = some t) (hlive : t.live = false) (haddress : s.address = 0)
      (hview : s.view = false) (hregions : s.regions = [])
      (hpages : KeepsPages vm.slots pages) : TableStep vm slots pages .kept
  /-- A live allocation changes its state or its protection. -/
  | update (i : ℕ) (s t : AllocationSlot) (hslots : slots = vm.slots.set i s)
      (ht : vm.slots[i]? = some t) (hlive : t.live = true) (hlive' : s.live = true)
      (hmapping : s.mapping = t.mapping) (hview : t.view = false) (hinv : SlotInv s)
      (hpages : KeepsPages vm.slots pages) : TableStep vm slots pages .kept
  /-- A new allocation, away from the `MEM_FREE` records. -/
  | allocate (f : AllocationSlot → AllocationSlot) (hdrops : Drops f) (i : ℕ)
      (s t : AllocationSlot) (hslots : slots = (vm.slots.map f).set i s)
      (ht : (vm.slots.map f)[i]? = some t) (hdead : t.live = false) (hlive : s.live = true)
      (hview : s.view = false) (hinv : SlotInv s)
      (hapart : ∀ u ∈ vm.slots, u.live = true → s.pages.Apart u.pages)
      (hfree : ∀ u ∈ vm.slots.map f, u.released = true → s.span.Apart u.span)
      (hmapped : ∀ p, s.pages.Has p → (pages p).isSome)
      (hpages : KeepsPages vm.slots pages) : TableStep vm slots pages (.added s.mapping)
  /-- A new view, in the first slot without an address. -/
  | view (i : ℕ) (s : AllocationSlot) (hslots : slots = vm.slots.set i s)
      (hi : vm.slots.findIdx? (fun t => t.address = 0) = some i) (hlive : s.live = true)
      (hview : s.view = true) (hinv : SlotInv s)
      (hapart : ∀ u ∈ vm.slots, u.live = true → s.pages.Apart u.pages)
      (hmapped : ∀ p, s.pages.Has p → (pages p).isSome)
      (hpages : KeepsPages vm.slots pages) : TableStep vm slots pages (.added s.mapping)
  /-- An allocation becomes a `MEM_FREE` record. -/
  | release (i : ℕ) (t : AllocationSlot) (hslots : slots = vm.slots.set i t.release)
      (ht : vm.slots[i]? = some t) (hlive : t.live = true) (hview : t.view = false)
      (hpages : ∀ (j : ℕ) (u : AllocationSlot), j ≠ i → vm.slots[j]? = some u → u.live = true →
        ∀ p, u.pages.Has p → (pages p).isSome)
      (huser : ∀ p, 2 ^ 35 ≤ p → pages p = none) :
      TableStep vm slots pages (.removed t.address false)
  /-- The slot of a view is emptied. -/
  | unmap (i : ℕ) (t : AllocationSlot) (hslots : slots = vm.slots.set i {})
      (ht : vm.slots[i]? = some t) (hlive : t.live = true) (hview : t.view = true)
      (hpages : ∀ (j : ℕ) (u : AllocationSlot), j ≠ i → vm.slots[j]? = some u → u.live = true →
        ∀ p, u.pages.Has p → (pages p).isSome)
      (huser : ∀ p, 2 ^ 35 ≤ p → pages p = none) :
      TableStep vm slots pages (.removed t.address true)

theorem TableStep.same {vm : VirtualMemory} {ps : Pages} (h : KeepsPages vm.slots ps) :
    TableStep vm vm.slots ps .kept := .keep id drops_id (map_id _).symm h

variable {f : AllocationSlot → AllocationSlot}

theorem Drops.getElem? (hd : Drops f)
    {slo : List AllocationSlot} {i : ℕ} (h : (slo.map f)[i]? = some s) :
    slo[i]? = some s ∨ s = {} := by
  rw [getElem?_map, Option.map_eq_some_iff] at h
  obtain ⟨t, ht, rfl⟩ := h
  rcases hd t with heq | ⟨heq, -⟩
  · rw [heq]
    exact .inl ht
  · exact .inr heq

theorem Drops.getElem?_live (hd : Drops f) {slo : List AllocationSlot} {i : ℕ} (hl : s.live) :
    (slo.map f)[i]? = some s ↔ slo[i]? = some s := by
  constructor
  · intro h
    rcases hd.getElem? h with h | rfl
    · exact h
    · cases hl
  · intro h
    rw [getElem?_map, h, Option.map_some]
    rcases hd s with heq | ⟨-, he⟩
    · rw [heq]
    · rw [he] at hl
      cases hl

namespace TableInv

variable {vm vm' : VirtualMemory}

theorem drops (hinv : TableInv vm) (hd : Drops f)
    (hsl : vm'.slots = vm.slots.map f) (hp : KeepsPages vm.slots vm'.pages) : TableInv vm' := by
  have hm : ∀ s ∈ vm'.slots, s ∈ vm.slots ∨ s = {} := by
    intro s hs
    obtain ⟨i, hi⟩ := getElem?_of_mem hs
    rw [hsl] at hi
    exact (hd.getElem? hi).imp_left mem_of_getElem?
  constructor
  · intro s hs ha
    rcases hm s hs with hs | rfl
    · exact hinv.slot s hs ha
    · exact absurd rfl ha
  · intro s hs ha
    rcases hm s hs with hs | rfl
    · exact hinv.empty s hs ha
    · rfl
  · intro s hs hl
    rcases hm s hs with hs | rfl
    · exact hp.mapped s hs hl
    · cases hl
  · intro i j s t hj hs ht hl hl'
    rw [hsl, hd.getElem?_live hl] at hs
    rw [hsl, hd.getElem?_live hl'] at ht
    exact hinv.apart i j s t hj hs ht hl hl'
  · intro s hs t ht hl hv hr
    rcases hm s hs with hs | rfl
    · rcases hm t ht with ht | rfl
      · exact hinv.released s hs t ht hl hv hr
      · cases hr
    · cases hl
  · exact hp.user

end TableInv

theorem AllocationSlot.not_live_of_address (h : s.address = 0) :
    s.live = false := not_live_of_available (available_iff.2 (.inl h))

theorem AllocationSlot.not_released_of_address (h : s.address = 0) : s.released = false := by
  rw [Bool.eq_false_iff, ne_eq, released_iff]
  exact fun hr => hr.2.2 h

theorem AllocationSlot.not_released_of_live (h : s.live) : s.released = false := by
  rw [Bool.eq_false_iff]
  intro hr
  rw [not_live_of_released hr] at h
  cases h

theorem AllocationSlot.pages_congr {s t : AllocationSlot} (h : s.mapping = t.mapping) :
    s.pages = t.pages ∧ s.span = t.span := by
  obtain ⟨ha, hs, -⟩ := LiveMapping.mk.inj h
  unfold AllocationSlot.pages AllocationSlot.span
  rw [ha, hs]
  exact ⟨rfl, rfl⟩

theorem AllocationSlot.released_release (h : s.live) : s.release.released :=
  released_iff.2 ⟨rfl, rfl, (live_iff.1 h).1⟩

theorem SlotInv.release (hinv : SlotInv s) (hv : s.view = false) : SlotInv s.release where
  aligned := hinv.aligned
  positive := hinv.positive
  fits := hinv.fits
  viewState := nofun
  whole := fun _ => hinv.whole hv
  tiles := fun _ => Tiles.single hinv.positive
  states := fun _ => .inl ⟨rfl, rfl⟩

/-- **Every step keeps the invariant.** -/
theorem TableStep.inv {vm vm' : VirtualMemory} {e : Effect}
    (hst : TableStep vm vm'.slots vm'.pages e) (hinv : TableInv vm) : TableInv vm' := by
  -- the table without the dropped records, under the new pages
  have hr : ∀ f, Drops f → KeepsPages vm.slots vm'.pages →
      TableInv { vm with slots := vm.slots.map f, pages := vm'.pages } :=
    fun f hd hpa => hinv.drops hd rfl hpa
  cases hst with
  | keep f hd hs hpa => exact hinv.drops hd hs hpa
  | vacate f hd i s t hs ht hl had hv hg hpa =>
    have he := AllocationSlot.not_live_of_address had
    have hnot := AllocationSlot.not_released_of_address had
    refine (hr f hd hpa).set hs rfl (fun h => absurd had h)
      (fun _ => hg) (fun h => ?_) (fun j u _ hu hl p hp => ?_) (fun h => ?_)
      (fun h => ?_) (fun h => ?_) hpa.user
    · rw [he] at h
      cases h
    · exact (hr f hd hpa).mapped u (mem_of_getElem? hu) hl p hp
    · rw [he] at h
      cases h
    · rw [he] at h
      cases h
    · rw [hnot] at h
      cases h
  | update i s t hs ht hl hl' hm hv hsi hpa =>
    have hme := mem_of_getElem? ht
    obtain ⟨hsa, hsp⟩ := AllocationSlot.pages_congr hm
    have he := AllocationSlot.not_released_of_live hl'
    refine hinv.set hs rfl (fun _ => hsi) (fun h => ?_) (fun _ p hp => ?_)
      (fun j u _ hu hul p hp => hpa.mapped u (mem_of_getElem? hu) hul p hp)
      (fun _ j u hj hu hul => ?_) (fun _ _ j u _ hu hul => ?_) (fun h => ?_) hpa.user
    · exact absurd h (AllocationSlot.live_iff.1 hl').1
    · exact hpa.mapped t hme hl p (hsa ▸ hp)
    · rw [hsa]
      exact hinv.apart i j t u hj.symm ht hu hl hul
    · rw [hsp]
      exact hinv.released t hme u (mem_of_getElem? hu) hl hv hul
    · rw [he] at h
      cases h
  | allocate f hd i s t hs ht he hl hv hsi ha hf hma hpa =>
    have hnot := AllocationSlot.not_released_of_live hl
    refine (hr f hd hpa).set hs rfl (fun _ => hsi) (fun h => ?_)
      (fun _ => hma) (fun j u _ hu hul p hp => ?_) (fun _ j u _ hu hul => ?_)
      (fun _ _ j u _ hu hul => ?_) (fun h => ?_) hpa.user
    · exact absurd h (AllocationSlot.live_iff.1 hl).1
    · exact (hr f hd hpa).mapped u (mem_of_getElem? hu) hul p hp
    · exact ha u (mem_of_getElem? ((hd.getElem?_live hul).1 hu)) hul
    · exact hf u (mem_of_getElem? hu) hul
    · rw [hnot] at h
      cases h
  | view i s hs hi hl hv hsi ha hma hpa =>
    have hnot := AllocationSlot.not_released_of_live hl
    refine hinv.set hs rfl (fun _ => hsi) (fun h => ?_) (fun _ => hma)
      (fun j u _ hu hul p hp => hpa.mapped u (mem_of_getElem? hu) hul p hp)
      (fun _ j u _ hu hul => ha u (mem_of_getElem? hu) hul) (fun _ h => ?_) (fun h => ?_)
      hpa.user
    · exact absurd h (AllocationSlot.live_iff.1 hl).1
    · rw [hv] at h
      cases h
    · rw [hnot] at h
      cases h
  | release i t hs ht hl hv hpa hus =>
    have hre := AllocationSlot.released_release hl
    have he := AllocationSlot.not_live_of_released hre
    have hti := hinv.slot t (mem_of_getElem? ht) (AllocationSlot.live_iff.1 hl).1
    refine hinv.set hs rfl (fun _ => hti.release hv) (fun h => ?_) (fun h => ?_) hpa
      (fun h => ?_) (fun h => ?_) (fun _ j u hj hu hul _ => ?_) hus
    · exact absurd h (AllocationSlot.live_iff.1 hl).1
    · rw [he] at h
      cases h
    · rw [he] at h
      cases h
    · rw [he] at h
      cases h
    · have hsp : u.span.Apart t.span := hinv.span_apart hj hu ht hul hl
      exact hsp
  | unmap i t hs ht hl hv hpa hus =>
    exact hinv.set hs rfl (fun h => absurd rfl h) (fun _ => rfl) (nofun) hpa
      (nofun) (nofun) (nofun) hus

/-! ### Regions -/

variable {sl : AllocationSlot} {si : ℕ}

theorem containsRange_iff :
    containsRange sl a si ↔ sl.address ≠ 0 ∧ sl.size ≠ 0 ∧ a ≠ 0 ∧
      sl.address ≤ a ∧ a + si ≤ sl.address + sl.size := by
  unfold containsRange
  split
  · next h => exact ⟨fun hf => absurd hf Bool.false_ne_true, fun ha => by omega⟩
  · split
    · next h => exact ⟨fun hf => absurd hf Bool.false_ne_true, fun ha => by omega⟩
    · rw [decide_eq_true_eq]
      omega

variable {r : AllocationRegion} {pn : UInt32}
variable {off : ℕ}

theorem tiles_splitRegion {st : ℕ} (hp : 0 < r.size) (hl : off < st) :
    Tiles r.offset (r.offset + r.size) ((splitRegion off st pn r).map AllocationRegion.span) := by
  unfold splitRegion AllocationRegion.span
  dsimp only
  split
  · simp [hp]
  · next hm => split <;> split <;> simp [Span.stop] <;> omega

theorem state_splitRegion {st : ℕ} {r r' : AllocationRegion}
    (h : r' ∈ splitRegion off st pn r) : r'.state = r.state := by
  dsimp only [splitRegion] at h
  split at h
  · rw [mem_singleton.1 h]
  simp only [mem_append, mem_singleton] at h
  rcases h with (h | rfl) | h
  · split at h
    · rw [mem_singleton.1 h]
    · cases h
  · rfl
  · split at h
    · rw [mem_singleton.1 h]
    · cases h

theorem tiles_flatMap {c : AllocationRegion → List AllocationRegion} {hi : ℕ}
    (hc : ∀ r, 0 < r.size → Tiles r.offset (r.offset + r.size)
      ((c r).map AllocationRegion.span)) (rs : List AllocationRegion) :
    ∀ lo, Tiles lo hi (rs.map AllocationRegion.span) →
      Tiles lo hi ((rs.flatMap c).map AllocationRegion.span) := by
  induction rs with
  | nil => exact fun _ h => h
  | cons r rs ih =>
    intro lo h
    obtain ⟨rfl, hp, hr⟩ := h
    rw [flatMap_cons, map_append]
    exact (hc r hp).append (ih _ hr)

variable {upd : List AllocationRegion}

theorem buildAllocationProtection_some
    (h : buildAllocationProtection sl off si pn = some upd) :
    0 < si ∧ off + si ≤ sl.size ∧ upd = sl.regions.flatMap (splitRegion off (off + si) pn) := by
  unfold buildAllocationProtection at h
  split at h
  · cases h
  split at h
  · cases h
  · split at h
    · cases h
    · exact ⟨by omega, by omega, (Option.some.inj h).symm⟩

theorem findAllocationRegion_some
    (h : findAllocationRegion sl a = some r) :
    r ∈ sl.regions ∧ sl.address ≤ a ∧ a < sl.address + sl.size ∧ r.span.Has (a - sl.address) := by
  unfold findAllocationRegion at h
  split at h
  · cases h
  have hf := find?_some h
  rw [Bool.and_eq_true, decide_eq_true_eq, decide_eq_true_eq] at hf
  refine ⟨mem_of_find?_eq_some h, by omega, by omega, hf.1, ?_⟩
  dsimp only [AllocationRegion.span, Span.stop]
  omega

theorem RegionStates.committed (h : RegionStates s)
    (hr : r ∈ s.regions) (hs : r.state = kMemCommit) :
    (s.state = kMemCommit ∨ s.state = 0) ∧ ∀ r ∈ s.regions, r.state = kMemCommit := by
  rcases h with ⟨-, he⟩ | ⟨-, he⟩ | h
  · rw [he, mem_singleton] at hr
    rw [hr] at hs
    exact absurd hs (by decide : kMemFree ≠ kMemCommit)
  · rw [he, mem_singleton] at hr
    rw [hr] at hs
    exact absurd hs (by decide : kMemReserve ≠ kMemCommit)
  · exact h

theorem RegionStates.reserved (h : RegionStates s)
    (hs : s.state = kMemReserve) : s.regions = [⟨0, s.size, kMemReserve, 0⟩] := by
  rcases h with ⟨hf, -⟩ | ⟨-, hr⟩ | ⟨hc | hz, -⟩
  · rw [hf] at hs
    exact absurd hs (by decide)
  · exact hr
  · rw [hc] at hs
    exact absurd hs (by decide)
  · rw [hz] at hs
    exact absurd hs (by decide)

theorem SlotInv.commit (hinv : SlotInv s) (hv : s.view = false)
    (hs : s.state = kMemReserve) (p : UInt32) : SlotInv (s.commit p) := by
  have he : (s.commit p).regions = [⟨0, s.size, kMemCommit, p⟩] := by
    unfold AllocationSlot.commit
    rw [(hinv.states hv).reserved hs]
  exact
    { aligned := hinv.aligned
      positive := hinv.positive
      fits := hinv.fits
      viewState := fun h => by
        rw [show (s.commit p).view = s.view from rfl, hv] at h
        cases h
      whole := fun _ => hinv.whole hv
      tiles := fun _ => by
        rw [he]
        exact Tiles.single hinv.positive
      states := fun _ => by
        refine .inr (.inr ⟨.inl rfl, fun r hr => ?_⟩)
        rw [he] at hr
        rw [mem_singleton.1 hr] }

theorem RegionStates.build (h : RegionStates s) (hr : r ∈ s.regions) (hs : r.state = kMemCommit)
    (hb : buildAllocationProtection s off si pn = some upd) : ∀ r ∈ upd, r.state = kMemCommit := by
  obtain ⟨-, -, rfl⟩ := buildAllocationProtection_some hb
  obtain ⟨-, ha⟩ := h.committed hr hs
  intro r' hr'
  obtain ⟨r₀, hr₀, hp⟩ := mem_flatMap.1 hr'
  rw [state_splitRegion hp]
  exact ha r₀ hr₀

theorem state_reprotect (s : AllocationSlot) (ha : ∀ r ∈ upd, r.state = kMemCommit) :
    (s.reprotect upd).state = kMemCommit ∨ (s.reprotect upd).state = 0 := by
  dsimp only [AllocationSlot.reprotect]
  split
  · exact .inl (ha _ mem_cons_self)
  · exact .inr rfl

theorem SlotInv.reprotect (hinv : SlotInv s) (hv : s.view = false) (hr : r ∈ s.regions)
    (hs : r.state = kMemCommit) (hb : buildAllocationProtection s off si pn = some upd) :
    SlotInv (s.reprotect upd) := by
  have hc := (hinv.states hv).build hr hs hb
  obtain ⟨hp, -, rfl⟩ := buildAllocationProtection_some hb
  exact
    { aligned := hinv.aligned
      positive := hinv.positive
      fits := hinv.fits
      viewState := fun h => by
        rw [show (s.reprotect _).view = s.view from rfl, hv] at h
        cases h
      whole := fun _ => hinv.whole hv
      tiles := fun _ =>
        tiles_flatMap (fun r hi => tiles_splitRegion hi (by omega)) _ _ (hinv.tiles hv)
      states := fun _ => .inr (.inr ⟨state_reprotect s hc, hc⟩) }

/-! ### The calls -/

namespace KeepsPages

variable {slots slo : List AllocationSlot} {pages ps : Pages} {sta len : ℕ}

theorem map (h : KeepsPages slo ps) {prot : Prot}
    (hf : sta + pageCount len * pageSize ≤ 2 ^ 47) (ha : sta % pageSize = 0) :
    KeepsPages slo (ps.map sta len prot) where
  mapped := fun s hs hl p hp => by
    by_cases hn : (pageSpan sta len).Has p
    · rw [Pages.map_of_has hn]
      rfl
    · rw [Pages.map_of_not_has hn]
      exact h.mapped s hs hl p hp
  user := fun p hp => by
    rw [Pages.map_of_not_has, h.user p hp]
    unfold Span.Has Span.stop pageSpan pageSize at *
    dsimp only
    omega

theorem unmap (h : KeepsPages slo ps)
    (ha : ∀ s ∈ slo, s.live → (pageSpan sta len).Apart s.pages) :
    KeepsPages slo (ps.unmap sta len) where
  mapped := fun s hs hl p hp => by
    rw [Pages.unmap_of_not_has fun hn => (ha s hs hl).not_has hn hp]
    exact h.mapped s hs hl p hp
  user := fun p hp => by
    unfold Pages.unmap
    split
    · rfl
    · exact h.user p hp

theorem protect (h : KeepsPages slo ps) (re : ℕ → Option Errno) (sta len : ℕ)
    (pr : Prot) : KeepsPages slo (ps.protect re sta len pr).2 where
  mapped := fun s hs hl p hp => by
    rw [Pages.isSome_protect]
    exact h.mapped s hs hl p hp
  user := fun p hp => by
    rw [← Option.isNone_iff_eq_none, ← Option.not_isSome, Pages.isSome_protect, h.user p hp]
    rfl

end KeepsPages

variable {vm : VirtualMemory}

theorem TableInv.keepsPages (hinv : TableInv vm) :
    KeepsPages vm.slots vm.pages := ⟨hinv.mapped, hinv.user⟩

/-- `mmap` returns page-aligned memory of the process where none is mapped. -/
structure MmapServes (pages : Pages) (len : ℕ) (result : ℕ) : Prop where
  length : 0 < len
  positive : 0 < result
  aligned : result % pageSize = 0
  fits : result + pageCount len * pageSize ≤ 2 ^ 47
  unmapped : ∀ p, (pageSpan result len).Has p → pages p = none

theorem MmapServes.apart {len rt : ℕ} (h : MmapServes vm.pages len rt) (hinv : TableInv vm)
    (hs : s ∈ vm.slots) (hl : s.live) : (pageSpan rt len).Apart s.pages := by
  have hi := hinv.slot s hs (AllocationSlot.live_iff.1 hl).1
  refine Span.apart_of_not_has (pageCount_pos h.length) (pageCount_pos hi.positive)
    fun p hp hp' => ?_
  have hm := hinv.mapped s hs hl p hp'
  rw [h.unmapped p hp] at hm
  cases hm

theorem alignToPage_mod (v : UInt64) : (alignToPage v).toNat % pageSize = 0 := by
  unfold alignToPage kPageBits pageSize
  rw [toNat_roundUp (by decide)]
  exact Nat.mul_mod_left _ _

theorem commitReservation_step (hinv : TableInv vm) (hos : HostAnswers) (b al : ℕ) (p : UInt32) :
    TableStep vm (commitReservation hos b al p vm).2.slots
      (commitReservation hos b al p vm).2.pages .kept := by
  have hs := TableStep.same hinv.keepsPages
  unfold commitReservation
  split
  · exact hs
  next i hf =>
  obtain ⟨t, ht, hm, -⟩ := findIdx?_some hf
  rw [getD_of_getElem? ht]
  dsimp only
  rw [Bool.and_eq_true, Bool.not_eq_true', containsRange_iff] at hm
  obtain ⟨hv, hr⟩ := hm
  have hp := hinv.keepsPages.protect hos.refuse t.address t.size (protToHost p)
  split
  · exact hs
  next hb =>
  rw [not_or, not_or, not_not, not_not, not_not] at hb
  have hl : t.live := by
    rw [AllocationSlot.live_iff, hb.2.1]
    exact ⟨hr.1, .inr (by decide)⟩
  have hc : (t.commit p).live :=
    AllocationSlot.live_iff.2 ⟨hr.1, .inr (by decide : kMemCommit ≠ kMemFree)⟩
  have hi := hinv.slot t (mem_of_getElem? ht) hr.1
  split
  · next e ps heq =>
    rw [heq] at hp
    exact .same hp
  · next ps heq =>
    rw [heq] at hp
    exact .update i (t.commit p) t rfl ht hl hc rfl hv (hi.commit hv hb.2.1 p) hp

theorem drops_overlapsReleased (rt al : ℕ) :
    Drops fun s => if overlapsReleased rt al s then {} else s := by
  intro s
  dsimp only
  split
  · next h =>
    unfold overlapsReleased at h
    rw [Bool.and_eq_true] at h
    exact .inr ⟨rfl, AllocationSlot.not_live_of_released h.1⟩
  · exact .inl rfl

variable {result res rt aligned ad al : ℕ}

theorem released_apart (ha : 0 < al) {slo : List AllocationSlot}
    (hs : s ∈ slo.map fun s => if overlapsReleased rt al s then {} else s)
    (hr : s.released) : Span.Apart ⟨rt, al⟩ s.span := by
  obtain ⟨t, -, rfl⟩ := mem_map.1 hs
  split at hr
  · cases hr
  next hnot =>
  rw [if_neg hnot]
  unfold overlapsReleased at hnot
  rw [hr, Bool.true_and, Bool.or_eq_true, Bool.and_eq_true, Bool.and_eq_true] at hnot
  simp only [decide_eq_true_eq] at hnot
  dsimp only [Span.Apart, AllocationSlot.span, Span.stop]
  omega

theorem SlotInv.allocationSlot (ay p : UInt32)
    {ps : Pages} (hs : MmapServes ps al rt) (hw : al % pageSize = 0) :
    SlotInv (allocationSlot rt al ay p) where
  aligned := hs.aligned
  positive := hs.length
  fits := hs.fits
  viewState := nofun
  whole := fun _ => hw
  tiles := fun _ => Tiles.single hs.length
  states := fun _ => by
    unfold Runtime.allocationSlot
    cases commits ay with
    | true =>
      refine .inr (.inr ⟨.inl rfl, fun r hr => ?_⟩)
      rw [mem_singleton.1 hr]
      rfl
    | false => exact .inr (.inl ⟨rfl, rfl⟩)

theorem live_allocationSlot {ay p : UInt32} (hr : 0 < rt) : (allocationSlot rt al ay p).live := by
  rw [AllocationSlot.live_iff]
  refine ⟨ne_of_gt hr, .inr ?_⟩
  show (if commits ay then kMemCommit else kMemReserve) ≠ kMemFree
  split <;> decide

variable {ss : NtStatus}

theorem insertAllocation_step {vm mapped : VirtualMemory} (hinv : TableInv vm)
    (hos : HostAnswers) (ay pr : UInt32) {pt : Prot}
    (he : MmapServes vm.pages al rt) (hw : al % pageSize = 0) {vm' : VirtualMemory}
    (heq : insertAllocation hos rt al ay pr mapped = (ss, vm'))
    (hsl : mapped.slots = vm.slots) (ha : mapped.pages = vm.pages.map rt al pt) :
    TableStep vm vm'.slots vm'.pages (if ss = .success then .added ⟨rt, al, false⟩ else .kept) := by
  have hk : KeepsPages vm.slots mapped.pages := ha ▸ hinv.keepsPages.map he.fits he.aligned
  have hm : ∀ vm₁ : VirtualMemory, vm₁.pages = mapped.pages →
      KeepsPages vm.slots (vm₁.munmap hos rt al).pages := by
    intro vm₁ he₁
    unfold VirtualMemory.munmap
    split
    · refine KeepsPages.unmap (he₁ ▸ hk) fun s hs hl => he.apart hinv hs hl
    · exact he₁ ▸ hk
  have hs₁ : ∀ vm₁ : VirtualMemory, (vm₁.munmap hos rt al).slots = vm₁.slots := by
    intro vm₁
    unfold VirtualMemory.munmap
    split <;> rfl
  unfold insertAllocation at heq
  rw [hsl] at heq
  split at heq
  · -- the limit
    cases heq
    refine .keep id drops_id ?_ (hm mapped rfl)
    rw [hs₁, hsl, map_id]
  · dsimp only at heq
    split at heq
    · -- no slot is available
      cases heq
      exact .keep _ (drops_overlapsReleased rt al) (hs₁ _) (hm _ rfl)
    · next i hf =>
      obtain ⟨t, ht, hv, -⟩ := findIdx?_some hf
      have hd := AllocationSlot.not_live_of_available hv
      split at heq
      · cases heq
        refine .allocate _ (drops_overlapsReleased rt al) i _ t rfl ht hd
          (live_allocationSlot he.positive) rfl
          (SlotInv.allocationSlot ay pr he hw)
          (fun u hu hl => he.apart hinv hu hl)
          (fun u hu hr => released_apart he.length hu hr)
          (fun p hp => ?_) hk
        have hn : (pageSpan rt al).Has p := hp
        show (mapped.pages p).isSome
        rw [ha, Pages.map_of_has hn]
        rfl
      · -- no memory for the regions
        cases heq
        exact .vacate _ (drops_overlapsReleased rt al) i _ t (hs₁ _) ht hd rfl rfl
          rfl (hm _ rfl)

/-- `NtFreeVirtualMemory`. -/
theorem ntFreeVirtualMemory_step (hinv : TableInv vm) (hos : HostAnswers)
    (re : NtRegion) (ft : UInt32) {vm' : VirtualMemory}
    (heq : ntFreeVirtualMemory hos re ft vm = (ss, vm')) :
    TableStep vm vm'.slots vm'.pages
      (if ss = .success then .removed re.base false else .kept) := by
  have hs := TableStep.same hinv.keepsPages
  obtain ⟨b, si⟩ := re
  unfold ntFreeVirtualMemory at heq
  split at heq
  · cases heq
    exact hs
  next hr =>
  split at heq
  · cases heq
    exact hs
  next i hf =>
  obtain ⟨t, ht, hm, -⟩ := findIdx?_some hf
  rw [getD_of_getElem? ht] at heq
  simp only [Bool.and_eq_true, Bool.not_eq_true', decide_eq_true_eq] at hm
  obtain ⟨⟨hv, rfl⟩, hst⟩ := hm
  have hl : t.live := AllocationSlot.live_iff.2 ⟨fun h => hr (.inl h), .inr hst⟩
  cases heq
  refine .release i t rfl ht hl hv (fun j u hj hu hul p hp => ?_) fun p hp => ?_
  · have hma := hinv.mapped u (mem_of_getElem? hu) hul p hp
    have ha := hinv.apart j i u t hj hu ht hul hl
    unfold VirtualMemory.munmap
    split
    · dsimp only
      rw [Pages.unmap_of_not_has (ha.not_has hp)]
      exact hma
    · exact hma
  · have hus := hinv.user p hp
    unfold VirtualMemory.munmap
    split
    · dsimp only
      unfold Pages.unmap
      split
      · rfl
      · exact hus
    · exact hus

/-- `NtProtectVirtualMemory`. -/
theorem ntProtectVirtualMemory_step (hinv : TableInv vm)
    (hos : HostAnswers) (ms : List MapsEntry) (b si : UInt64) (np : UInt32) :
    TableStep vm (ntProtectVirtualMemory hos ms b si np vm).vm.slots
      (ntProtectVirtualMemory hos ms b si np vm).vm.pages .kept := by
  have hs := TableStep.same hinv.keepsPages
  have hk := fun sta len p => hinv.keepsPages.protect hos.refuse sta len p
  unfold ntProtectVirtualMemory
  split
  · exact hs
  dsimp only
  split
  · next i hf =>
    obtain ⟨t, ht, hm, -⟩ := findIdx?_some hf
    rw [Bool.and_eq_true, Bool.not_eq_true', containsRange_iff] at hm
    obtain ⟨hv, ha⟩ := hm
    have hi := hinv.slot t (mem_of_getElem? ht) ha.1
    unfold protectTracked
    rw [getD_of_getElem? ht]
    dsimp only
    split
    · exact hs
    next r hr =>
    obtain ⟨he, -, -, -⟩ := findAllocationRegion_some hr
    split
    · exact hs
    next hst =>
    rw [ne_eq, not_not] at hst
    split
    · exact hs
    next upd hb =>
    have hp := hk (alignDownToPage b).toNat (protectSize b si).toNat (protToHost np)
    split
    · exact hs
    split
    · next heq =>
      rw [heq] at hp
      exact .same hp
    · next heq =>
      rw [heq] at hp
      obtain ⟨hc, -⟩ := (hi.states hv).committed he hst
      have hl : t.live := by
        refine AllocationSlot.live_iff.2 ⟨ha.1, .inr ?_⟩
        rcases hc with h | h <;> rw [h] <;> decide
      have hsi := hi.reprotect hv he hst hb
      have hl' : (t.reprotect upd).live := by
        refine AllocationSlot.live_iff.2 ⟨ha.1, .inr ?_⟩
        rcases state_reprotect t ((hi.states hv).build he hst hb) with
          h | h <;> rw [h] <;> decide
      exact .update i (t.reprotect upd) t rfl ht hl hl' rfl hv hsi hp
  · split
    · exact hs
    unfold protectUntracked
    have hp := hk (alignDownToPage b).toNat (protectSize b si).toNat (protToHost np)
    dsimp only
    split
    · next heq =>
      rw [heq] at hp
      exact .same hp
    · next heq =>
      rw [heq] at hp
      exact .same hp

/-! ### Runs -/

/-- A call of the guest, or a change of the process's other mappings. -/
inductive MemoryCall
  | virtualAlloc (address : ℕ) (size : UInt64) (allocationType protect : UInt32)
  | virtualFree (address : ℕ) (size : UInt64) (freeType : UInt32)
  | virtualProtect (maps : List MapsEntry) (address size : UInt64) (newProtection : UInt32)
      (oldProtection : ℕ)
  | mapViewOfFile (mapping : Option FileMapping) (desiredAccess : UInt32) (offset bytes : UInt64)
  | unmapViewOfFile (base : ℕ)
  | hostPages (pages : Pages)

namespace MemoryCall

def run (host : HostAnswers) : MemoryCall → VirtualMemory → VirtualMemory
  | virtualAlloc address size allocationType protect, vm =>
    (Runtime.virtualAlloc host address size allocationType protect vm).2
  | virtualFree address size freeType, vm => (Runtime.virtualFree host address size freeType vm).2
  | virtualProtect maps address size newProtection oldProtection, vm =>
    (Runtime.virtualProtect host maps address size newProtection oldProtection vm).2
  | mapViewOfFile mapping desiredAccess offset bytes, vm =>
    (Runtime.mapViewOfFile host mapping desiredAccess offset bytes vm).2
  | unmapViewOfFile base, vm => (Runtime.unmapViewOfFile host base vm).2
  | hostPages pages, vm => { vm with pages := pages }

/-- What the caller learns of the live mappings from the result of a call. -/
def effect (host : HostAnswers) : MemoryCall → VirtualMemory → Effect
  | virtualAlloc address size allocationType protect, vm =>
    let result := (Runtime.virtualAlloc host address size allocationType protect vm).1
    if result ≠ 0 && !commitsReservation address allocationType then
      .added ⟨result, (alignToPage size).toNat, false⟩
    else .kept
  | virtualFree address size freeType, vm =>
    if (Runtime.virtualFree host address size freeType vm).1 then .removed address false else .kept
  | mapViewOfFile (some mapping) desiredAccess offset bytes, vm =>
    let result := (Runtime.mapViewOfFile host (some mapping) desiredAccess offset bytes vm).1
    if result ≠ 0 then .added ⟨result, (viewSize mapping offset bytes).toNat, true⟩ else .kept
  | unmapViewOfFile base, vm =>
    if (Runtime.unmapViewOfFile host base vm).1 then .removed base true else .kept
  | _, _ => .kept

/-- The bytes that a call asks `mmap` for. -/
def mapLength : MemoryCall → Option ℕ
  | virtualAlloc _ size _ _ => some (alignToPage size).toNat
  | mapViewOfFile (some mapping) _ offset bytes => some (viewSize mapping offset bytes).toNat
  | _ => none

end MemoryCall

/-- What the host promises about a call. -/
structure Admissible (host : HostAnswers) (call : MemoryCall) (vm : VirtualMemory) : Prop where
  mmap : ∀ len result, call.mapLength = some len → host.mmap = .ok result →
    MmapServes vm.pages len result
  pages : ∀ pages, call = .hostPages pages → KeepsPages vm.slots pages

section

variable (hinv : TableInv vm)
include hinv

section

variable (host hos : HostAnswers)
include host

/-- `NtAllocateVirtualMemory`. -/
theorem ntAllocateVirtualMemory_step (re : NtRegion) (ay p : UInt32)
    (hse : ∀ res, host.mmap = .ok res →
      MmapServes vm.pages (alignToPage re.size).toNat res) {r' : NtRegion} {vm' : VirtualMemory}
    (heq : ntAllocateVirtualMemory host re ay p vm = (ss, r', vm')) :
    TableStep vm vm'.slots vm'.pages
      (if ss = .success ∧ commitsReservation re.base ay = false then
        .added ⟨r'.base, (alignToPage re.size).toNat, false⟩ else .kept) ∧
    (ss = .success → commitsReservation re.base ay = false → r'.base ≠ 0) := by
  have ha := TableStep.same hinv.keepsPages
  unfold ntAllocateVirtualMemory at heq
  split at heq
  · obtain ⟨rfl, -, rfl⟩ := heq
    exact ⟨ha, nofun⟩
  dsimp only at heq
  split at heq
  · obtain ⟨rfl, -, rfl⟩ := heq
    exact ⟨ha, nofun⟩
  split at heq
  · next ho =>
    have hs := commitReservation_step hinv host re.base (alignToPage re.size).toNat p
    rw [if_neg (by rw [ho]; simp)]
    split at heq
    · next vm₁ hc =>
      rw [hc] at hs
      obtain ⟨-, -, rfl⟩ := heq
      exact ⟨hs, fun _ h => by rw [ho] at h; cases h⟩
    · next vm₁ _ hc =>
      rw [hc] at hs
      obtain ⟨-, -, rfl⟩ := heq
      exact ⟨hs, fun _ h => by rw [ho] at h; cases h⟩
  · next ho =>
    rw [Bool.not_eq_true] at ho
    split at heq
    · obtain ⟨rfl, -, rfl⟩ := heq
      exact ⟨ha, nofun⟩
    next res hr =>
    have hn := hse res hr
    split at heq
    · next vm₁ hi =>
      obtain ⟨rfl, rfl, rfl⟩ := heq
      have hs := insertAllocation_step hinv host ay p hn (alignToPage_mod re.size) hi rfl rfl
      rw [if_pos ⟨rfl, ho⟩]
      exact ⟨hs, fun _ _ => ne_of_gt hn.positive⟩
    · next vm₁ hf hi =>
      obtain ⟨rfl, -, rfl⟩ := heq
      have hs := insertAllocation_step hinv host ay p hn (alignToPage_mod re.size) hi rfl rfl
      have he : ss ≠ .success := fun h => hf h
      rw [if_neg he] at hs
      rw [if_neg fun h => he h.1]
      exact ⟨hs, fun h => absurd h he⟩

/-- `VirtualAlloc`. -/
theorem virtualAlloc_step (a : ℕ) (si : UInt64) (ay p : UInt32)
    (ha : Admissible host (.virtualAlloc a si ay p) vm) :
    TableStep vm ((MemoryCall.virtualAlloc a si ay p).run host vm).slots
      ((MemoryCall.virtualAlloc a si ay p).run host vm).pages
      ((MemoryCall.virtualAlloc a si ay p).effect host vm) := by
  unfold MemoryCall.run MemoryCall.effect virtualAlloc
  cases hn : ntAllocateVirtualMemory host ⟨a, si⟩ ay p vm with
  | mk ss re =>
    obtain ⟨hs, he⟩ := ntAllocateVirtualMemory_step hinv host ⟨a, si⟩ ay
      p (fun res hr => ha.mmap _ _ rfl hr) hn
    cases ss with
    | success =>
      simp only [hn]
      cases hc : commitsReservation a ay with
      | true =>
        rw [hc] at hs
        simpa using hs
      | false =>
        rw [if_pos ⟨rfl, hc⟩] at hs
        rw [if_pos (by simpa using he rfl hc)]
        exact hs
    | _ =>
      simp only [hn]
      exact hs

/-- `VirtualFree`. -/
theorem virtualFree_step (a : ℕ) (si : UInt64) (ft : UInt32) :
    TableStep vm ((MemoryCall.virtualFree a si ft).run host vm).slots
      ((MemoryCall.virtualFree a si ft).run host vm).pages
      ((MemoryCall.virtualFree a si ft).effect host vm) := by
  unfold MemoryCall.run MemoryCall.effect virtualFree
  cases hn : ntFreeVirtualMemory host ⟨a, si⟩ ft vm with
  | mk ss vm' =>
    have hs := ntFreeVirtualMemory_step hinv host ⟨a, si⟩ ft hn
    cases ss with
    | success =>
      simp only [hn]
      exact hs
    | _ =>
      simp only [hn]
      exact hs

/-- `VirtualProtect`. -/
theorem virtualProtect_step (ms : List MapsEntry) (a si : UInt64) (n : UInt32) (o : ℕ) :
    TableStep vm (virtualProtect host ms a si n o vm).2.slots
      (virtualProtect host ms a si n o vm).2.pages .kept := by
  have hs := ntProtectVirtualMemory_step hinv host ms a si n
  unfold virtualProtect
  split
  · exact .same hinv.keepsPages
  dsimp only
  split
  · split
    · exact hs
    · exact hs
  all_goals exact hs

/-- `MapViewOfFile`. -/
theorem mapViewOfFile_step (mp : FileMapping) (desiredAccess : UInt32) (off bs : UInt64)
    (ha : Admissible host (.mapViewOfFile (some mp) desiredAccess off bs) vm) :
    TableStep vm
      ((MemoryCall.mapViewOfFile (some mp) desiredAccess off bs).run host vm).slots
      ((MemoryCall.mapViewOfFile (some mp) desiredAccess off bs).run host vm).pages
      ((MemoryCall.mapViewOfFile (some mp) desiredAccess off bs).effect host vm) := by
  unfold MemoryCall.run MemoryCall.effect mapViewOfFile
  cases hre : host.mmap with
  | error e => exact .same hinv.keepsPages
  | ok res =>
    dsimp only
    have hr := ha.mmap _ _ rfl hre
    have hk : KeepsPages vm.slots (vm.pages.map res (viewSize mp off bs).toNat
        (if viewWrites desiredAccess then Prot.readWrite else Prot.readOnly)) :=
      hinv.keepsPages.map hr.fits hr.aligned
    generalize (if viewWrites desiredAccess then Prot.readWrite else Prot.readOnly) = prot at hk ⊢
    cases hf : vm.slots.findIdx? (fun s => decide (s.address = 0)) with
    | none =>
      rw [VirtualMemory.slots_setLastError, VirtualMemory.pages_setLastError]
      unfold VirtualMemory.munmap
      split
      · exact .same (hk.unmap fun s hs hl => hr.apart hinv hs hl)
      · exact .same hk
    | some i =>
      obtain ⟨t, ht, he, -⟩ := findIdx?_some hf
      rw [decide_eq_true_eq] at he
      have hg := hinv.empty t (mem_of_getElem? ht) he
      dsimp only
      rw [if_pos (ne_of_gt hr.positive), getD_of_getElem? ht]
      have hl : (viewSlot t res (viewSize mp off bs).toNat
          (viewWrites desiredAccess)).live :=
        AllocationSlot.live_iff.2 ⟨ne_of_gt hr.positive, .inl rfl⟩
      refine .view i _ rfl hf hl rfl ?_ (fun u hu hul => hr.apart hinv hu hul)
        (fun p hp => ?_) hk
      · exact
          { aligned := hr.aligned
            positive := hr.length
            fits := hr.fits
            viewState := fun _ => ⟨hg, rfl⟩
            whole := nofun
            tiles := nofun
            states := nofun }
      · have hn : (pageSpan res (viewSize mp off bs).toNat).Has p := hp
        show (vm.pages.map _ _ _ p).isSome
        rw [Pages.map_of_has hn]
        rfl

/-- `UnmapViewOfFile`; when `munmap` fails the slot is lost but the caller is
told that the view is still there. -/
theorem unmapViewOfFile_step (b : ℕ) :
    ∃ e, TableStep vm ((MemoryCall.unmapViewOfFile b).run host vm).slots
        ((MemoryCall.unmapViewOfFile b).run host vm).pages e ∧
      (host.unmaps → e = (MemoryCall.unmapViewOfFile b).effect host vm) := by
  have hs := TableStep.same hinv.keepsPages
  dsimp only [MemoryCall.run, MemoryCall.effect, unmapViewOfFile]
  split
  · exact ⟨.kept, hs, fun _ => rfl⟩
  next hb =>
  cases hf : findView vm.slots b with
  | none => exact ⟨.kept, hs, fun _ => rfl⟩
  | some i =>
    obtain ⟨t, ht, hm, -⟩ := findIdx?_some hf
    simp only [Bool.and_eq_true, decide_eq_true_eq] at hm
    obtain ⟨⟨hv, rfl⟩, -⟩ := hm
    have hl : t.live := AllocationSlot.live_iff.2 ⟨hb, .inl hv⟩
    simp only [getD_of_getElem? ht]
    refine ⟨.removed t.address true, ?_, fun hn => ?_⟩
    · split
      · refine .unmap i t rfl ht hl hv (fun j u hj hu hul p hp => ?_) fun p hp => ?_
        · have ha := hinv.apart j i u t hj hu ht hul hl
          show (vm.pages.unmap t.address t.size p).isSome
          rw [Pages.unmap_of_not_has (ha.not_has hp)]
          exact hinv.mapped u (mem_of_getElem? hu) hul p hp
        · show vm.pages.unmap t.address t.size p = none
          unfold Pages.unmap
          split
          · rfl
          · exact hinv.user p hp
      · exact .unmap i t rfl ht hl hv
          (fun j u _ hu hul p hp => hinv.mapped u (mem_of_getElem? hu) hul p hp) hinv.user
    · rw [if_pos hn]
      rfl

end

/-- **Every call is a step of the table**, and its result tells which one unless
`UnmapViewOfFile` fails in `munmap`. -/
theorem run_step {host : HostAnswers} {c : MemoryCall} (ha : Admissible host c vm) :
    ∃ e, TableStep vm (c.run host vm).slots (c.run host vm).pages e ∧
      (host.unmaps ∨ (∀ b, c ≠ .unmapViewOfFile b) → e = c.effect host vm) := by
  cases c with
  | virtualAlloc a si ay p => exact ⟨_, virtualAlloc_step hinv host a si ay p ha, fun _ => rfl⟩
  | virtualFree a si ft => exact ⟨_, virtualFree_step hinv host a si ft, fun _ => rfl⟩
  | virtualProtect ms a si n o =>
    exact ⟨_, virtualProtect_step hinv host ms a si n o, fun _ => rfl⟩
  | mapViewOfFile mp da off bs =>
    cases mp with
    | none => exact ⟨_, .same hinv.keepsPages, fun _ => rfl⟩
    | some mp => exact ⟨_, mapViewOfFile_step hinv host mp da off bs ha, fun _ => rfl⟩
  | unmapViewOfFile b =>
    obtain ⟨e, hs, he⟩ := unmapViewOfFile_step hinv host b
    refine ⟨e, hs, fun h => he ?_⟩
    exact h.elim id fun hn => absurd rfl (hn b)
  | hostPages pages => exact ⟨_, .same (ha.pages pages rfl), fun _ => rfl⟩

end

/-- The states of all runs. -/
inductive MemoryReachable : VirtualMemory → Prop
  | initial (pages : Pages) (limit : ℕ) (huser : ∀ p, 2 ^ 35 ≤ p → pages p = none) :
      MemoryReachable (VirtualMemory.initial pages limit)
  | step {vm : VirtualMemory} {host : HostAnswers} {call : MemoryCall} :
      MemoryReachable vm → Admissible host call vm → MemoryReachable (call.run host vm)

theorem TableInv.initial {ps : Pages} {l : ℕ} (hu : ∀ p, 2 ^ 35 ≤ p → ps p = none) :
    TableInv (VirtualMemory.initial ps l) where
  slot := fun s hs ha => absurd (by rw [eq_of_mem_replicate hs]) ha
  empty := fun s hs _ => by rw [eq_of_mem_replicate hs]
  mapped := fun s hs hl => by
    rw [eq_of_mem_replicate hs] at hl
    cases hl
  apart := fun i j s t _ hs _ hl _ => by
    rw [eq_of_mem_replicate (mem_of_getElem? hs)] at hl
    cases hl
  released := fun s hs t _ hl => by
    rw [eq_of_mem_replicate hs] at hl
    cases hl
  user := hu

/-- **The invariant holds in every run.** -/
theorem MemoryReachable.inv (hr : MemoryReachable vm) : TableInv vm := by
  induction hr with
  | initial ps l hu => exact TableInv.initial hu
  | step _ ha ih =>
    obtain ⟨e, hs, -⟩ := run_step ih ha
    exact hs.inv ih

end TradutorLinux.Runtime
