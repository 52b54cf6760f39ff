import TradutorLinux.Runtime.MemoryTable

/-!
# The live mappings of a guest

What the guest knows of its memory is the list of the allocations and views that
it was given and has not returned.  The table stands for that list, and a query
answers from the right slot, as long as no view is mapped over a `MEM_FREE`
record that precedes it in the table.

## Main definitions

* `Run ok vm live` — a run whose calls are all `ok`, with the live mappings that
  their results tell of.
* `Clean`

## Main results

* `run_coherent`
-/

namespace TradutorLinux.Runtime

open List Option AllocationSlot MemoryCall

/-! ### The mappings of a table -/

def HasMapping (slots : List AllocationSlot) (m : LiveMapping) : Prop :=
  ∃ s ∈ slots, s.live = true ∧ s.mapping = m

/-- A live slot other than the one at `i` stands for the mapping. -/
def OtherMapping (slots : List AllocationSlot) (i : ℕ) (m : LiveMapping) : Prop :=
  ∃ (j : ℕ) (s : AllocationSlot), j ≠ i ∧ slots[j]? = some s ∧ s.live = true ∧ s.mapping = m

variable {slots ss : List AllocationSlot} {m : LiveMapping}

theorem hasMapping_drops {f : AllocationSlot → AllocationSlot} (hd : Drops f) :
    HasMapping (ss.map f) m ↔ HasMapping ss m := by
  constructor
  · rintro ⟨s, hs, hl, hm⟩
    obtain ⟨i, hi⟩ := getElem?_of_mem hs
    exact ⟨s, mem_of_getElem? ((hd.getElem?_live hl).1 hi), hl, hm⟩
  · rintro ⟨s, hs, hl, hm⟩
    obtain ⟨i, hi⟩ := getElem?_of_mem hs
    exact ⟨s, mem_of_getElem? ((hd.getElem?_live hl).2 hi), hl, hm⟩

variable {i : ℕ} {t : AllocationSlot}

theorem hasMapping_split (ht : ss[i]? = some t) :
    HasMapping ss m ↔ (t.live ∧ t.mapping = m) ∨ OtherMapping ss i m := by
  constructor
  · rintro ⟨s, hs, hl, hm⟩
    obtain ⟨j, hj⟩ := getElem?_of_mem hs
    by_cases hi : j = i
    · rw [hi, ht] at hj
      cases hj
      exact .inl ⟨hl, hm⟩
    · exact .inr ⟨j, s, hi, hj, hl, hm⟩
  · rintro (⟨hl, hm⟩ | ⟨j, s, -, hj, hl, hm⟩)
    · exact ⟨t, mem_of_getElem? ht, hl, hm⟩
    · exact ⟨s, mem_of_getElem? hj, hl, hm⟩

variable {s : AllocationSlot}

theorem otherMapping_set : OtherMapping (ss.set i s) i m ↔ OtherMapping ss i m := by
  constructor
  · rintro ⟨j, u, hj, hu, hr⟩
    rw [getElem?_set_ne (Ne.symm hj)] at hu
    exact ⟨j, u, hj, hu, hr⟩
  · rintro ⟨j, u, hj, hu, hr⟩
    refine ⟨j, u, hj, ?_, hr⟩
    rw [getElem?_set_ne (Ne.symm hj)]
    exact hu

theorem hasMapping_set {s : AllocationSlot} (ht : ss[i]? = some t) :
    HasMapping (ss.set i s) m ↔ (s.live ∧ s.mapping = m) ∨ OtherMapping ss i m := by
  obtain ⟨hi, -⟩ := List.getElem?_eq_some_iff.1 ht
  rw [hasMapping_split (getElem?_set_self hi), otherMapping_set]

/-- The table stands for the list of live mappings. -/
def Represents (vm : VirtualMemory) (live : List LiveMapping) : Prop :=
  ∀ m, m ∈ live ↔ HasMapping vm.slots m

/-- The live mappings after a call. -/
def Effect.apply : Effect → List LiveMapping → List LiveMapping
  | .kept, live => live
  | .added m, live => m :: live
  | .removed address view, live =>
    live.filter fun m => ¬(m.address = address ∧ m.view = view)

variable {live l : List LiveMapping}

theorem mem_removed {vm : VirtualMemory} (hi : TableInv vm)
    (hr : Represents vm l) (ht : vm.slots[i]? = some t) (hl : t.live) :
    m ∈ Effect.apply (.removed t.address t.view) l ↔ OtherMapping vm.slots i m := by
  unfold Effect.apply
  rw [mem_filter, hr m, hasMapping_split ht, decide_eq_true_eq]
  constructor
  · rintro ⟨⟨-, rfl⟩ | ho, hn⟩
    · exact absurd ⟨rfl, rfl⟩ hn
    · exact ho
  · rintro ⟨j, u, hj, hu, hul, rfl⟩
    refine ⟨.inr ⟨j, u, hj, hu, hul, rfl⟩, fun heq => ?_⟩
    have ha := hi.span_apart hj hu ht hul hl
    have hu' := hi.slot u (mem_of_getElem? hu) (AllocationSlot.live_iff.1 hul).1
    have ht' := hi.slot t (mem_of_getElem? ht) (AllocationSlot.live_iff.1 hl).1
    exact ha.base_ne hu'.positive ht'.positive heq.1

variable {vm vm' : VirtualMemory}

theorem TableStep.represents {e : Effect}
    (hst : TableStep vm vm'.slots vm'.pages e) (hn : TableInv vm)
    (hr : Represents vm l) : Represents vm' (e.apply l) := by
  intro m
  cases hst with
  | keep f hdr hs hp =>
    rw [hs, hasMapping_drops hdr]
    exact hr m
  | vacate f hdr i s t hs ht hl had hv hg hp =>
    have hd := not_live_of_address had
    rw [hs, hasMapping_set ht, hd]
    have hold := hr m
    rw [← hasMapping_drops hdr, hasMapping_split ht, hl] at hold
    simpa [Effect.apply] using hold
  | update i s t hs ht hl hl' hma hv hsi hp =>
    have hold := hr m
    rw [hasMapping_split ht, hl] at hold
    rw [hs, hasMapping_set ht, hl', hma]
    exact hold
  | allocate f hdr i s t hs ht hd hl hv hsi ha hf hmp hp =>
    have hold := hr m
    rw [← hasMapping_drops hdr, hasMapping_split ht, hd] at hold
    rw [hs, hasMapping_set ht, Effect.apply, mem_cons, hold, hl]
    simp [eq_comm]
  | view i s hs hi hl hv hsi ha hmp hp =>
    obtain ⟨t, ht, he, -⟩ := findIdx?_some hi
    have hd := not_live_of_address (of_decide_eq_true he)
    have hold := hr m
    rw [hasMapping_split ht, hd] at hold
    rw [hs, hasMapping_set ht, Effect.apply, mem_cons, hold, hl]
    simp [eq_comm]
  | release i t hs ht hl hv hp hu =>
    have hd := not_live_of_released (released_release hl)
    have hm := mem_removed hn hr ht hl (m := m)
    rw [hv] at hm
    rw [hs, hasMapping_set ht, hd, hm]
    simp
  | unmap i t hs ht hl hv hp hu =>
    have hm := mem_removed hn hr ht hl (m := m)
    rw [hv] at hm
    rw [hs, hasMapping_set ht, hm]
    simp

/-! ### Stale records -/

/-- No view lies over a `MEM_FREE` record that precedes it in the table. -/
def NoStale (vm : VirtualMemory) : Prop :=
  ∀ (i j : ℕ) (s t : AllocationSlot), j < i → vm.slots[i]? = some s → vm.slots[j]? = some t →
    s.live = true → s.view = true → t.released = true → s.span.Apart t.span

/-- A view at `base` does not lie over a record in front of the first slot
without an address, which it will take. -/
def CleanView (vm : VirtualMemory) (base size : ℕ) : Prop :=
  ∀ (i j : ℕ) (t : AllocationSlot), vm.slots.findIdx? (fun s => s.address = 0) = some i →
    j < i → vm.slots[j]? = some t → t.released = true → Span.Apart ⟨base, size⟩ t.span

theorem NoStale.set (hs : NoStale vm) (hsl : vm'.slots = vm.slots.set i s)
    (ho : s.live → s.view → ∀ (j : ℕ) (t : AllocationSlot), j < i →
      vm.slots[j]? = some t → t.released → s.span.Apart t.span)
    (hn : s.released → ∀ (j : ℕ) (t : AllocationSlot), j ≠ i →
      vm.slots[j]? = some t → t.live → t.span.Apart s.span) : NoStale vm' := by
  intro k j u t hjk hu ht hl hv hr
  rw [hsl, getElem?_set] at hu ht
  by_cases hk : i = k
  · have hj : i ≠ j := by omega
    rw [if_neg hj] at ht
    rw [if_pos hk] at hu
    split at hu
    · cases hu
      exact ho hl hv j t (by omega) ht hr
    · cases hu
  · rw [if_neg hk] at hu
    by_cases hj : i = j
    · rw [if_pos hj] at ht
      split at ht
      · cases ht
        exact hn hr k u (Ne.symm hk) hu hl
      · cases ht
    · rw [if_neg hj] at ht
      exact hs k j u t hjk hu ht hl hv hr

theorem NoStale.drops (hst : NoStale vm) {f : AllocationSlot → AllocationSlot} (hd : Drops f)
    (hsl : vm'.slots = vm.slots.map f) : NoStale vm' := by
  intro i j s t hj hs ht hl hv hr
  rw [hsl, hd.getElem?_live hl] at hs
  rw [hsl] at ht
  rcases hd.getElem? ht with ht | rfl
  · exact hst i j s t hj hs ht hl hv hr
  · cases hr

theorem TableStep.noStale {e : Effect}
    (hse : TableStep vm vm'.slots vm'.pages e) (hn : TableInv vm) (hst : NoStale vm)
    (hc : ∀ m, e = .added m → m.view → CleanView vm m.address m.size) : NoStale vm' := by
  have ho : ∀ f, Drops f → NoStale { vm with slots := vm.slots.map f } :=
    fun f hr => hst.drops hr rfl
  cases hse with
  | keep f hr hs hp => exact hst.drops hr hs
  | vacate f hr i s t hs ht hl had hv hg hp =>
    refine (ho f hr).set hs (fun h => ?_) fun h => ?_
    · rw [not_live_of_address had] at h
      cases h
    · rw [not_released_of_address had] at h
      cases h
  | update i s t hs ht hl hl' hm hv hsi hp =>
    have hsa : s.view = t.view := (LiveMapping.mk.inj hm).2.2
    refine hst.set hs (fun _ h => ?_) fun h => ?_
    · rw [hsa, hv] at h
      cases h
    · rw [not_released_of_live hl'] at h
      cases h
  | allocate f hr i s t hs ht hd hl hv hsi ha hf hma hp =>
    refine (ho f hr).set hs (fun _ h => ?_) fun h => ?_
    · rw [hv] at h
      cases h
    · rw [not_released_of_live hl] at h
      cases h
  | view i s hs hi hl hv hsi ha hma hp =>
    refine hst.set hs (fun _ _ j t hj ht he => ?_) fun h => ?_
    · exact hc s.mapping rfl hv i j t hi hj ht he
    · rw [not_released_of_live hl] at h
      cases h
  | release i t hs ht hl hv hp hus =>
    refine hst.set hs (fun h => ?_) fun _ j u hj hu hul => ?_
    · rw [not_live_of_released (released_release hl)] at h
      cases h
    · have hsp : u.span.Apart t.span := hn.span_apart hj hu ht hul hl
      exact hsp
  | unmap i t hs ht hl hv hp hus => exact hst.set hs (nofun) nofun

/-! ### Queries -/

/-- The information is about the mapping: it names its base and its kind, is not
that of free memory, and speaks of no byte outside it. -/
structure Reports (info : NtMemoryInformation) (m : LiveMapping) : Prop where
  allocation : info.allocationBase = m.address
  kind : info.type = if m.view then kMemMapped else kMemPrivate
  state : info.state ≠ kMemFree
  within : Span.Within ⟨info.baseAddress, info.regionSize⟩ ⟨m.address, m.size⟩

variable {a : ℕ}

/-- **The query finds the slot of a live mapping.** -/
theorem findSlot_of_live {vm : VirtualMemory} (hn : TableInv vm) (hst : NoStale vm)
    (hs : s ∈ vm.slots) (hl : s.live) (ha : s.span.Has a) : findSlot vm.slots a = some s := by
  obtain ⟨i, hi⟩ := getElem?_of_mem hs
  have hh : ∀ u : AllocationSlot,
      (u.address ≠ 0 && u.address ≤ a && a < u.address + u.size) ↔
        u.address ≠ 0 ∧ u.span.Has a := by
    intro u
    simp [AllocationSlot.span, Span.Has, Span.stop, and_assoc]
  have he := (hh s).2 ⟨(AllocationSlot.live_iff.1 hl).1, ha⟩
  unfold findSlot
  cases hf : vm.slots.find? fun u => u.address ≠ 0 && u.address ≤ a && a < u.address + u.size with
  | none =>
    rw [find?_eq_none] at hf
    exact absurd he (hf s hs)
  | some u =>
    obtain ⟨hu, j, hj, rfl, hb⟩ := find?_eq_some_iff_getElem.1 hf
    obtain ⟨hd, hha⟩ := (hh _).1 hu
    have hg := getElem?_eq_getElem hj
    rcases Nat.lt_trichotomy i j with hij | rfl | hji
    · -- an earlier slot does not hold the address
      obtain ⟨hi', rfl⟩ := List.getElem?_eq_some_iff.1 hi
      have hnot := hb i hij
      rw [he] at hnot
      cases hnot
    · exact hg.symm.trans hi
    · exfalso
      by_cases hul : (vm.slots[j]).live
      · exact (hn.span_apart (ne_of_lt hji) hg hi hul hl).not_has hha ha
      -- a slot in use that is not live is a record
      have hr : (vm.slots[j]).released := by
        rw [AllocationSlot.live_iff] at hul
        simp only [not_and, not_or, ne_eq, not_not, Bool.not_eq_true] at hul
        obtain ⟨hv, ht⟩ := hul hd
        exact released_iff.2 ⟨hv, ht, hd⟩
      cases hv : s.view with
      | false => exact (hn.released s hs _ (getElem_mem hj) hl hv hr).not_has ha hha
      | true => exact (hst i j s _ hji hi hg hl hv hr).not_has ha hha

theorem answeringRegion_mem (hi : SlotInv s) (hv : s.view = false)
    {offset : ℕ} (ho : offset < s.size) :
    answeringRegion s offset ∈ s.regions ∧ (answeringRegion s offset).span.Has offset := by
  obtain ⟨sp, hs, ha⟩ := (hi.tiles hv).exists_has (Nat.zero_le offset) ho
  obtain ⟨r, hr, rfl⟩ := mem_map.1 hs
  have hh : ∀ r : AllocationRegion,
      (r.offset ≤ offset && offset - r.offset < r.size) ↔ r.span.Has offset := by
    intro r
    rw [Bool.and_eq_true, decide_eq_true_eq, decide_eq_true_eq]
    dsimp only [Span.Has, AllocationRegion.span, Span.stop]
    omega
  unfold answeringRegion
  cases hf : s.regions.find? fun r => r.offset ≤ offset && offset - r.offset < r.size with
  | none =>
    rw [find?_eq_none] at hf
    exact absurd ((hh r).2 ha) (hf r hr)
  | some r' =>
    have hfi := find?_some hf
    exact ⟨mem_of_find?_eq_some hf, (hh r').1 hfi⟩

theorem slotInformation_reports (hi : SlotInv s) (hl : s.live) (ha : s.span.Has a) :
    Reports (slotInformation s a) s.mapping := by
  have ho : a - s.address < s.size := by
    have hh := ha
    dsimp only [Span.Has, AllocationSlot.span, Span.stop] at hh
    omega
  -- the region is inside the slot, and not free
  have hg : (answeringRegion s (a - s.address)).state ≠ kMemFree ∧
      (answeringRegion s (a - s.address)).offset + (answeringRegion s (a - s.address)).size ≤
        s.size := by
    cases hv : s.view with
    | true =>
      obtain ⟨hr, hs⟩ := hi.viewState hv
      unfold answeringRegion
      rw [hr]
      constructor
      · show s.state ≠ kMemFree
        rw [hs]
        decide
      · show 0 + s.size ≤ s.size
        omega
    | false =>
      obtain ⟨hm, -⟩ := answeringRegion_mem hi hv ho
      obtain ⟨-, ht, -⟩ := (hi.tiles hv).bounds (mem_map_of_mem hm)
      refine ⟨?_, ht⟩
      rcases hi.states hv with ⟨hf, -⟩ | ⟨-, hr⟩ | ⟨-, hal⟩
      · rcases (AllocationSlot.live_iff.1 hl).2 with h | h
        · rw [hv] at h
          cases h
        · exact absurd hf h
      · rw [hr] at hm
        rw [mem_singleton.1 hm]
        exact (by decide : kMemReserve ≠ kMemFree)
      · rw [hal _ hm]
        decide
  obtain ⟨hs, ht⟩ := hg
  constructor
  · exact if_neg hs
  · exact if_neg hs
  · exact hs
  · dsimp only [Span.Within, slotInformation, AllocationSlot.mapping, Span.stop]
    omega

/-! ### Coherence -/

/-- The table and its queries agree with the live mappings. -/
structure Coherent (vm : VirtualMemory) (live : List LiveMapping) : Prop where
  represents : Represents vm live
  answers : ∀ m ∈ live, ∀ a, Span.Has ⟨m.address, m.size⟩ a → ∀ maps,
    ∃ info, ntQueryVirtualMemory maps a vm = .ok info ∧ Reports info m
  queries : ∀ m ∈ live, ∀ a, Span.Has ⟨m.address, m.size⟩ a → ∀ maps buffer length info,
    (virtualQuery maps a buffer length vm).1 = some info → Reports info m
  apart : ∀ (i j : ℕ) (s t : AllocationSlot), i ≠ j → vm.slots[i]? = some s →
    vm.slots[j]? = some t → s.live = true → t.live = true → s.span.Apart t.span
  tiles : ∀ s ∈ vm.slots, s.address ≠ 0 → s.view = false →
    Tiles 0 s.size (s.regions.map AllocationRegion.span)

theorem Coherent.of_inv {vm : VirtualMemory} (hi : TableInv vm)
    (ht : NoStale vm) (hr : Represents vm live) : Coherent vm live := by
  have hn : ∀ m ∈ live, ∀ a, Span.Has ⟨m.address, m.size⟩ a → ∀ ms,
      ∃ io, ntQueryVirtualMemory ms a vm = .ok io ∧ Reports io m := by
    intro m hm a ha ms
    obtain ⟨s, hs, hl, rfl⟩ := (hr m).1 hm
    have hu := (AllocationSlot.live_iff.1 hl).1
    have hsi := hi.slot s hs hu
    refine ⟨slotInformation s a, ?_, slotInformation_reports hsi hl ha⟩
    have he : a ≠ 0 := by
      have hle : s.address ≤ a := ha.1
      omega
    unfold ntQueryVirtualMemory
    rw [if_neg he, findSlot_of_live hi ht hs hl ha]
  refine ⟨hr, hn, ?_, fun i j s t => hi.span_apart, fun s hs hu hv =>
    (hi.slot s hs hu).tiles hv⟩
  intro m hm a ha ms b le io heq
  obtain ⟨i', ho, hp⟩ := hn m hm a ha ms
  unfold virtualQuery at heq
  rw [ho] at heq
  split at heq
  · cases heq
  dsimp only at heq
  split at heq
  · cases heq
    exact hp
  · cases heq

/-- The runs whose calls are all `ok`, with the live mappings that the results of
the calls tell of. -/
inductive Run (ok : HostAnswers → MemoryCall → VirtualMemory → Prop) :
    VirtualMemory → List LiveMapping → Prop
  | initial (pages : Pages) (limit : ℕ) (huser : ∀ p, 2 ^ 35 ≤ p → pages p = none) :
      Run ok (VirtualMemory.initial pages limit) []
  | step {vm : VirtualMemory} {live : List LiveMapping} {host : HostAnswers} {call : MemoryCall} :
      Run ok vm live → Admissible host call vm → ok host call vm →
      Run ok (call.run host vm) ((call.effect host vm).apply live)

/-- `MapViewOfFile` gets no address of a `MEM_FREE` record that precedes its
slot, and `UnmapViewOfFile` does not fail in `munmap`. -/
def Clean (host : HostAnswers) (call : MemoryCall) (vm : VirtualMemory) : Prop :=
  match call with
  | .mapViewOfFile (some mapping) _ offset bytes =>
    ∀ result, host.mmap = .ok result →
      CleanView vm result (viewSize mapping offset bytes).toNat
  | .unmapViewOfFile _ => host.unmaps = true
  | _ => True

theorem Clean.view {host : HostAnswers} {c : MemoryCall} {vm : VirtualMemory}
    (hc : Clean host c vm) (hm : c.effect host vm = .added m)
    (hv : m.view) : CleanView vm m.address m.size := by
  cases c with
  | virtualAlloc a si ay p =>
    dsimp only [effect] at hm
    split at hm
    · cases hm
      cases hv
    · cases hm
  | mapViewOfFile mp da o bs =>
    cases mp with
    | none => cases hm
    | some mp =>
      unfold effect mapViewOfFile at hm
      cases hr : host.mmap with
      | error e =>
        rw [hr] at hm
        cases hm
      | ok r =>
        simp only [hr] at hm
        split at hm
        · cases hm
        by_cases hz : r = 0
        · rw [if_neg (fun h => h hz)] at hm
          cases hm
        · rw [if_pos hz] at hm
          cases hm
          exact hc r hr
  | virtualFree a si ft =>
    dsimp only [effect] at hm
    split at hm <;> cases hm
  | unmapViewOfFile b =>
    dsimp only [effect] at hm
    split at hm <;> cases hm
  | virtualProtect ms a si n ol => cases hm
  | hostPages pg => cases hm

theorem Run.inv {vm : VirtualMemory} (hr : Run Clean vm live) :
    TableInv vm ∧ NoStale vm ∧ Represents vm live := by
  induction hr with
  | initial p li hu =>
    refine ⟨TableInv.initial hu, fun i j s t _ hs _ hl => ?_, fun m => ?_⟩
    · rw [eq_of_mem_replicate (mem_of_getElem? hs)] at hl
      cases hl
    · refine ⟨fun hm => absurd hm not_mem_nil, ?_⟩
      rintro ⟨s, hs, hl, -⟩
      rw [eq_of_mem_replicate hs] at hl
      cases hl
  | @step vm live host call _ hd hc ih =>
    obtain ⟨hi, ha, he⟩ := ih
    obtain ⟨e, hst, hf⟩ := run_step hi hd
    have ht : host.unmaps ∨ ∀ base, call ≠ .unmapViewOfFile base := by
      cases call with
      | unmapViewOfFile base => exact .inl hc
      | _ => exact .inr fun base h => by cases h
    obtain rfl := hf ht
    exact ⟨hst.inv hi, hst.noStale hi ha fun m hm hv => hc.view hm hv,
      hst.represents hi he⟩

/-- **In every run of clean calls the memory is coherent**: a query of a byte of
a live mapping answers for that mapping, the live slots are disjoint, and the
regions of an allocation tile it. -/
theorem run_coherent {vm : VirtualMemory} {live : List LiveMapping} (hrun : Run Clean vm live) :
    Coherent vm live := by
  obtain ⟨hi, hs, hr⟩ := hrun.inv
  exact Coherent.of_inv hi hs hr

/-! ### A view at the address of a released allocation -/

def servingAt (address : ℕ) : HostAnswers := { mmap := .ok address }

def onePage : VirtualMemory :=
  (MemoryCall.virtualAlloc 0 0x1000 0x3000 kPageReadWrite).run (servingAt 0x10000)
    (VirtualMemory.initial (fun _ => none) 0)

/-- And released. -/
def oneRecord : VirtualMemory :=
  (MemoryCall.virtualFree 0x10000 0 kMemRelease).run {} onePage

def pageView : MemoryCall := .mapViewOfFile (some ⟨false, 0x1000⟩) 0x0002 0 0

theorem pages_oneRecord (p : ℕ) : oneRecord.pages p = none := by
  change Pages.unmap (Pages.map (fun _ => none) 0x10000 0x1000 Prot.readWrite) 0x10000 0x1000 p =
    none
  unfold Pages.unmap Pages.map
  split
  · rfl
  · rfl

theorem run_oneRecord {ok : HostAnswers → MemoryCall → VirtualMemory → Prop}
    (ha : ok (servingAt 0x10000) (.virtualAlloc 0 0x1000 0x3000 kPageReadWrite)
      (VirtualMemory.initial (fun _ => none) 0))
    (hfr : ok {} (.virtualFree 0x10000 0 kMemRelease) onePage) : Run ok oneRecord [] := by
  have hi : Run ok (VirtualMemory.initial (fun _ => none) 0) [] := .initial _ _ fun _ _ => rfl
  have hf : Run ok onePage [⟨0x10000, 0x1000, false⟩] := by
    refine hi.step ⟨fun le r hl hr => ?_, fun p h => by cases h⟩ ha
    cases hl
    cases hr
    exact ⟨by decide, by decide, by decide, by decide, fun _ _ => rfl⟩
  refine hf.step ⟨fun le r hl => ?_, fun p h => by cases h⟩ hfr
  cases hl

theorem run_pageView {ok : HostAnswers → MemoryCall → VirtualMemory → Prop}
    (hr : Run ok oneRecord []) (hp : 0 < a) (ha : a % pageSize = 0)
    (hf : a + pageSize ≤ 2 ^ 47) (ho : ok (servingAt a) pageView oneRecord) :
    Run ok (pageView.run (servingAt a) oneRecord)
      ((pageView.effect (servingAt a) oneRecord).apply []) := by
  refine hr.step ⟨fun le r hl he => ?_, fun pg h => by cases h⟩ ho
  cases hl
  cases he
  exact ⟨by decide, hp, ha, hf, fun p _ => pages_oneRecord p⟩

theorem run_coherent_besideRecord :
    Coherent (pageView.run (servingAt 0x20000) oneRecord) [⟨0x20000, 0x1000, true⟩] := by
  have hrec : Run Clean oneRecord [] := run_oneRecord trivial trivial
  have hr := run_pageView hrec (a := 0x20000) (by decide) (by decide) (by decide)
    fun r he i j t hi hj ht hl => by
      cases he
      have hf : oneRecord.slots.findIdx? (fun s => s.address = 0) = some 1 := by decide +kernel
      cases hf.symm.trans hi
      obtain rfl : j = 0 := by omega
      have hs : oneRecord.slots[0]?.map AllocationSlot.span = some ⟨0x10000, 0x1000⟩ := by
        decide +kernel
      rw [ht] at hs
      rw [some.inj hs]
      decide
  exact run_coherent hr

/-- The view takes the address of the released allocation, whose record answers
for it. -/
theorem not_coherent_overRecord :
    Run (fun _ _ _ => True) (pageView.run (servingAt 0x10000) oneRecord) [⟨0x10000, 0x1000, true⟩] ∧
    (ntQueryVirtualMemory none 0x10000 (pageView.run (servingAt 0x10000) oneRecord)).toOption.map
      NtMemoryInformation.state = some kMemFree ∧
    ¬ Coherent (pageView.run (servingAt 0x10000) oneRecord) [⟨0x10000, 0x1000, true⟩] := by
  have hs : (ntQueryVirtualMemory none 0x10000
      (pageView.run (servingAt 0x10000) oneRecord)).toOption.map NtMemoryInformation.state =
      some kMemFree := by
    decide +kernel
  refine ⟨?_, hs, fun hc => ?_⟩
  · exact run_pageView (run_oneRecord trivial trivial) (by decide) (by decide) (by decide) trivial
  · obtain ⟨i, ho, hr⟩ := hc.answers _ mem_cons_self 0x10000 ⟨le_refl _, by decide⟩ none
    rw [ho] at hs
    exact hr.state (some.inj hs)

end TradutorLinux.Runtime
