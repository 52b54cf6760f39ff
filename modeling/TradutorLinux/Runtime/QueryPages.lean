import TradutorLinux.Runtime.MemoryProtect

/-!
# What a memory query says of the pages

A query answers from the table, or from `/proc/self/maps`, and never looks at the
pages.  What it says of them is true as long as the calls keep the two together:
`VirtualProtect` on a view changes pages of a slot whose record it leaves alone,
and so do an `mprotect` that stops in the middle and a `munmap` that fails.

## Main definitions

* `PageIs`, `QueryAnswer`, `PagesTrue`, `QueryCareful`

## Main results

* `careful_step`, `virtualQuery_iff`
-/

namespace TradutorLinux.Runtime

open List Pages

/-- The permissions of a page, as `/proc/self/maps` shows them. -/
def permsOf (prot : Prot) : ByteString :=
  [if prot.read then 114 else 45, if prot.write then 119 else 45, if prot.exec then 120 else 45]

/-- What a state and a protection say of a page: the host has given it that protection, or would
report that one for it; a reserved page gives no access, and a free one is not there. -/
inductive PageIs : Option Prot → UInt32 → UInt32 → Prop
  | committed {prot : Prot} {protect : UInt32} :
      prot = protToHost protect ∨ protect = hostToWinProtect (permsOf prot) →
      PageIs (some prot) kMemCommit protect
  | reserved {protect : UInt32} : PageIs (some Prot.none) kMemReserve protect
  | free {protect : UInt32} : PageIs none kMemFree protect

/-- What a query promises: the interval holds the address and lies in one record, and its pages
below the kernel's have the reported state and protection. -/
structure QueryAnswer (vm : VirtualMemory) (maps : Option (List MapsEntry)) (a : ℕ)
    (info : NtMemoryInformation) : Prop where
  placed : Placed vm maps a info
  pages : ∀ b, Span.Has ⟨info.baseAddress, info.regionSize⟩ b → b < 2 ^ 47 →
    PageIs (vm.pages (b / pageSize)) info.state info.protect

/-- The entries of `/proc/self/maps` show the user's pages as they are. -/
def MapsTrue (vm : VirtualMemory) (maps : Option (List MapsEntry)) : Prop :=
  ∀ entries, maps = some entries → ∀ e ∈ entries, ∀ b, e.start ≤ b → b < e.stop → b < 2 ^ 47 →
    ∃ prot, vm.pages (b / pageSize) = some prot ∧ (e.perms.getD []).take 3 = permsOf prot

/-- What a query from the table says of an address: the state, and the protection. -/
def shownAt (s : AllocationSlot) (a : ℕ) : UInt32 × UInt32 :=
  ((answeringRegion s (a - s.address)).state, (answeringRegion s (a - s.address)).protect)

def SlotTrue (pages : Pages) (s : AllocationSlot) : Prop :=
  ∀ a, s.span.Has a → PageIs (pages (a / pageSize)) (shownAt s a).1 (shownAt s a).2

/-- What the table shows is true of the pages. -/
def PagesTrue (vm : VirtualMemory) : Prop := ∀ s ∈ vm.slots, s.address ≠ 0 → SlotTrue vm.pages s

/-- A call keeps the table and the pages together: `munmap` does not fail; an `mprotect` changes
nothing, or all of a range that the table finds in an allocation, or pages of no live slot; a view
is not mapped over a `MEM_FREE` record; and the rest of the process leaves the pages of the table
alone. -/
def QueryCareful (host : HostAnswers) (call : MemoryCall) (vm : VirtualMemory) : Prop :=
  host.unmaps = true ∧
  match call with
  | .virtualAlloc address size allocationType protect =>
    commitsReservation address allocationType = true →
      Accepted vm.pages host.refuse address (alignToPage size).toNat ∨
      Harmless vm.pages host.refuse address (alignToPage size).toNat (protToHost protect)
  | .virtualProtect _ base size newProtection _ =>
    HostHarmless host base size newProtection vm ∨
    if (rangeAllocation vm base size).isSome then HostAccepts host base size vm
    else ∀ s ∈ vm.slots, s.live = true →
      (pageSpan (alignDownToPage base).toNat (protectSize base size).toNat).Apart s.pages
  | .mapViewOfFile (some mapping) _ offset bytes =>
    ∀ result, host.mmap = .ok result → ∀ s ∈ vm.slots, s.released = true →
      (pageSpan result (viewSize mapping offset bytes).toNat).Apart s.pages
  | .hostPages pages => ∀ s ∈ vm.slots, s.address ≠ 0 → ∀ p, s.pages.Has p → pages p = vm.pages p
  | _ => True

/-! ### One slot -/

variable {s t : AllocationSlot} {ps ps' : Pages} {vm vm' : VirtualMemory} {a : ℕ}

theorem shownAt_single {st p : UInt32} (hr : s.regions = [⟨0, s.size, st, p⟩])
    (ha : s.span.Has a) : shownAt s a = (st, p) := by
  have hl : s.address ≤ a := ha.1
  have hh : a < s.address + s.size := ha.2
  have hf : a - s.address < s.size := by omega
  unfold shownAt answeringRegion
  rw [hr]
  simp [hf]

theorem shownAt_nil (hr : s.regions = []) : shownAt s a = (s.state, s.protect) := by
  unfold shownAt
  rw [answeringRegion_nil hr]

theorem recordedAt_eq_shownAt (hi : SlotInv s) (hv : s.view = false) (ha : s.span.Has a) :
    recordedAt s a = some (shownAt s a) := by
  have hl : s.address ≤ a := ha.1
  have hh : a < s.address + s.size := ha.2
  obtain ⟨hm, hs⟩ := answeringRegion_mem hi hv (show a - s.address < s.size by omega)
  exact recordedAt_of_mem (hi.tiles hv) ha hm hs

theorem shownAt_released (hi : SlotInv s) (hr : s.released) (ha : s.span.Has a) :
    shownAt s a = (kMemFree, 0) := by
  obtain ⟨hv, hst, -⟩ := AllocationSlot.released_iff.1 hr
  refine shownAt_single ?_ ha
  rcases hi.states hv with ⟨-, h⟩ | ⟨h, -⟩ | ⟨h | h, -⟩
  · exact h
  · rw [hst] at h
    exact absurd h (by decide)
  · rw [hst] at h
    exact absurd h (by decide)
  · rw [hst] at h
    exact absurd h (by decide)

theorem slotTrue_released_iff (hi : SlotInv s) (hr : s.released) :
    SlotTrue ps s ↔ ∀ a, s.span.Has a → ps (a / pageSize) = none := by
  constructor
  · intro h a ha
    have hp := h a ha
    rw [shownAt_released hi hr ha] at hp
    generalize ps (a / pageSize) = page at hp
    cases hp
    rfl
  · intro h a ha
    rw [shownAt_released hi hr ha, h a ha]
    exact .free

theorem live_or_released (h : s.address ≠ 0) : s.live ∨ s.released := by
  rw [AllocationSlot.live_iff, AllocationSlot.released_iff]
  cases s.view with
  | true => exact .inl ⟨h, .inl rfl⟩
  | false =>
    by_cases hs : s.state = kMemFree
    · exact .inr ⟨rfl, hs, h⟩
    · exact .inl ⟨h, .inr hs⟩

theorem has_pageSpan_iff {st len : ℕ} (hs : st % pageSize = 0) (hl : len % pageSize = 0) :
    (pageSpan st len).Has (a / pageSize) ↔ Span.Has ⟨st, len⟩ a := by
  dsimp only [Span.Has, Span.stop, pageSpan, pageCount, pageSize] at *
  omega

theorem has_pages_of_range {st len p : ℕ} (hi : SlotInv s) (hs : st % pageSize = 0)
    (hl : s.address ≤ st) (hh : st + len ≤ s.address + s.size)
    (hp : (pageSpan st len).Has p) : s.pages.Has p := by
  have ha := hi.aligned
  dsimp only [AllocationSlot.pages, Span.Has, Span.stop, pageSpan, pageCount, pageSize] at *
  omega

/-! ### Other slots -/

/-- The pages of the live slots stay as they are, and where a record has none, none comes
about. -/
structure Spares (vm : VirtualMemory) (i : ℕ) (pages : Pages) : Prop where
  live : ∀ (j : ℕ) (t : AllocationSlot), j ≠ i → vm.slots[j]? = some t → t.live = true →
    ∀ p, t.pages.Has p → pages p = vm.pages p
  released : ∀ t ∈ vm.slots, t.released = true → ∀ a, t.span.Has a →
    vm.pages (a / pageSize) = none → pages (a / pageSize) = none

theorem SlotTrue.spared (hi : TableInv vm) (ht : PagesTrue vm) {j i : ℕ} (hj : j ≠ i)
    (htj : vm.slots[j]? = some t) (hu : t.address ≠ 0) (hp : Spares vm i ps) : SlotTrue ps t := by
  have hm := mem_of_getElem? htj
  have hti := hi.slot t hm hu
  have hold := ht t hm hu
  rcases live_or_released hu with hl | hr
  · intro a ha
    rw [hp.live j t hj htj hl _ (has_pageSpan hti.aligned ha)]
    exact hold a ha
  · rw [slotTrue_released_iff hti hr] at hold ⊢
    exact fun a ha => hp.released t hm hr a ha (hold a ha)

/-- **One slot changes and the others are spared.** -/
theorem PagesTrue.set (hi : TableInv vm) (ht : PagesTrue vm) {i : ℕ}
    (hs : vm'.slots = vm.slots.set i s) (hn : s.address ≠ 0 → SlotTrue vm'.pages s)
    (hp : Spares vm i vm'.pages) : PagesTrue vm' := by
  intro t hm hu
  obtain ⟨j, hj⟩ := getElem?_of_mem hm
  rw [hs, getElem?_set] at hj
  split at hj
  · split at hj
    · cases hj
      exact hn hu
    · cases hj
  · next hne => exact SlotTrue.spared hi ht (Ne.symm hne) hj hu hp

theorem PagesTrue.keep (hi : TableInv vm) (ht : PagesTrue vm) (hs : vm'.slots = vm.slots)
    (hp : Spares vm vm.slots.length vm'.pages) : PagesTrue vm' := by
  intro t hm hu
  rw [hs] at hm
  obtain ⟨j, hj⟩ := getElem?_of_mem hm
  exact SlotTrue.spared hi ht (ne_of_lt (List.getElem?_eq_some_iff.1 hj).1) hj hu hp

theorem PagesTrue.drops (ht : PagesTrue vm) {f : AllocationSlot → AllocationSlot} (hd : Drops f) :
    PagesTrue { vm with slots := vm.slots.map f } := by
  intro t hm hu
  obtain ⟨u, hu', rfl⟩ := mem_map.1 hm
  rcases hd u with heq | ⟨heq, -⟩
  · rw [heq] at hu ⊢
    exact ht u hu' hu
  · rw [heq] at hu
    exact absurd rfl hu

theorem PagesTrue.congr (ht : PagesTrue vm) (hs : vm'.slots = vm.slots)
    (hp : vm'.pages = vm.pages) : PagesTrue vm' := by
  intro s hm
  rw [hs] at hm
  rw [hp]
  exact ht s hm

theorem Spares.protect {i st len : ℕ} {re : ℕ → Option Errno} {prot : Prot}
    (h : ∀ (j : ℕ) (t : AllocationSlot), j ≠ i → vm.slots[j]? = some t → t.live = true →
      ∀ p, t.pages.Has p → ¬(pageSpan st len).Has p) :
    Spares vm i (vm.pages.protect re st len prot).2 where
  live j t hj ht hl p hp := by
    unfold Pages.protect
    split
    · rfl
    · exact (protectFrom_apply re prot p (pageCount len) (st / pageSize) vm.pages).2
        fun hh => h j t hj ht hl p hp hh.1
  released t hm hr a ha hn := by
    rw [← Option.not_isSome_iff_eq_none, isSome_protect, hn]
    exact Bool.false_ne_true

theorem Spares.unmap {i st len : ℕ}
    (h : ∀ (j : ℕ) (t : AllocationSlot), j ≠ i → vm.slots[j]? = some t → t.live = true →
      ∀ p, t.pages.Has p → ¬(pageSpan st len).Has p) : Spares vm i (vm.pages.unmap st len) where
  live j t hj ht hl p hp := unmap_of_not_has (h j t hj ht hl p hp)
  released t hm hr a ha hn := by
    unfold Pages.unmap
    split
    · rfl
    · exact hn

theorem Spares.map {i st len : ℕ} {prot : Prot} (hi : TableInv vm)
    (hs : MmapServes vm.pages len st)
    (h : ∀ t ∈ vm.slots, t.released = true → ∀ a, t.span.Has a →
      ¬(pageSpan st len).Has (a / pageSize)) : Spares vm i (vm.pages.map st len prot) where
  live j t hj ht hl p hp :=
    map_of_not_has fun hh => (hs.apart hi (mem_of_getElem? ht) hl).not_has hh hp
  released t hm hr a ha hn := by rw [map_of_not_has (h t hm hr a ha), hn]

theorem unmap_map {st len : ℕ} {prot : Prot} (hs : MmapServes ps len st) :
    (ps.map st len prot).unmap st len = ps := by
  funext p
  unfold Pages.unmap Pages.map
  split
  next h => exact (hs.unmapped p h).symm
  next => rfl

/-! ### The calls -/

theorem commitReservation_true (hi : TableInv vm) (ht : PagesTrue vm) (host : HostAnswers)
    (b al : ℕ) (p : UInt32) (hc : Accepted vm.pages host.refuse b al ∨
      Harmless vm.pages host.refuse b al (protToHost p)) :
    PagesTrue (commitReservation host b al p vm).2 := by
  unfold commitReservation
  split
  · exact ht
  next i hf =>
  obtain ⟨t, hti, hm, -⟩ := findIdx?_some hf
  rw [getD_of_getElem? hti]
  dsimp only
  rw [Bool.and_eq_true, Bool.not_eq_true', containsRange_iff] at hm
  obtain ⟨hv, hu, -⟩ := hm
  split
  · exact ht
  next hb =>
  rw [not_or, not_or, not_not, not_not, not_not] at hb
  obtain ⟨rfl, hst, rfl⟩ := hb
  have hsi := hi.slot t (mem_of_getElem? hti) hu
  have hl : t.live := AllocationSlot.live_iff.2 ⟨hu, .inr (by rw [hst]; decide)⟩
  have hno : (vm.pages.protect host.refuse t.address t.size (protToHost p)).1 = none ↔
      Accepted vm.pages host.refuse t.address t.size := protect_eq_none
  have hsame : (vm.pages.protect host.refuse t.address t.size (protToHost p)).2 = vm.pages ↔
      Harmless vm.pages host.refuse t.address t.size (protToHost p) := protect_eq_self
  have hsp : Spares vm i (vm.pages.protect host.refuse t.address t.size (protToHost p)).2 :=
    .protect fun j u hj hu' hl' q hq => (hi.apart j i u t hj hu' hti hl' hl).not_has hq
  split
  · next e pages heq =>
    rw [heq] at hno hsame
    have hh := hsame.2 (hc.resolve_left fun ha => by cases hno.2 ha)
    exact ht.congr rfl hh
  · next pages heq =>
    have ha := hno.1 (by rw [heq])
    rw [heq] at hsp
    refine ht.set hi rfl (fun _ a ha' => ?_) hsp
    have hr : (t.commit p).regions = [⟨0, t.size, kMemCommit, p⟩] := by
      unfold AllocationSlot.commit
      rw [(hsi.states hv).reserved hst]
    have hps : pages (a / pageSize) = some (protToHost p) := by
      have hh := @protect_of_accepted _ _ _ _ (protToHost p) ha (a / pageSize)
      have hin : (pageSpan t.address t.size).Has (a / pageSize) := has_pageSpan hsi.aligned ha'
      rwa [heq, if_pos hin] at hh
    rw [shownAt_single hr ha']
    show PageIs (pages (a / pageSize)) _ _
    rw [hps]
    exact .committed (.inl rfl)

theorem insertAllocation_true {vm mapped : VirtualMemory} (hi : TableInv vm) (ht : PagesTrue vm)
    {host : HostAnswers} (hu : host.unmaps = true) {rt al : ℕ} (ay p : UInt32)
    (hs : MmapServes vm.pages al rt) (hw : al % pageSize = 0) (hsl : mapped.slots = vm.slots)
    (hpa : mapped.pages = vm.pages.map rt al
      (if commits ay then protToHost p else Prot.none)) :
    PagesTrue (insertAllocation host rt al ay p mapped).2 := by
  -- after `munmap` the pages are those of before
  have hm : ∀ vm₁ : VirtualMemory, vm₁.pages = mapped.pages →
      (vm₁.munmap host rt al).slots = vm₁.slots ∧ (vm₁.munmap host rt al).pages = vm.pages := by
    intro vm₁ h₁
    unfold VirtualMemory.munmap
    rw [if_pos hu, h₁, hpa]
    exact ⟨rfl, unmap_map hs⟩
  obtain ⟨slots, hsm⟩ : ∃ slots, slots = vm.slots.map fun s =>
      if overlapsReleased rt al s then {} else s := ⟨_, rfl⟩
  have hi' : TableInv { vm with slots := slots } :=
    hi.drops (drops_overlapsReleased rt al) hsm hi.keepsPages
  have ht' : PagesTrue { vm with slots := slots } := by
    rw [hsm]
    exact ht.drops (drops_overlapsReleased rt al)
  unfold insertAllocation
  rw [hsl, ← hsm]
  split
  · obtain ⟨hs₁, hp₁⟩ := hm mapped rfl
    exact ht.congr (hs₁.trans hsl) hp₁
  dsimp only
  split
  · obtain ⟨hs₁, hp₁⟩ := hm { mapped with slots := slots } rfl
    exact ht'.congr hs₁ hp₁
  next i hf =>
  split
  · refine ht'.set hi' rfl (fun _ a ha => ?_) ?_
    · have hh : (pageSpan rt al).Has (a / pageSize) := has_pageSpan hs.aligned ha
      rw [shownAt_single rfl ha]
      dsimp only
      rw [hpa, map_of_has hh]
      cases commits ay with
      | true => exact .committed (.inl rfl)
      | false => exact .reserved
    · -- the records that are left are apart from the new pages
      dsimp only
      rw [hpa]
      refine Spares.map hi' hs fun t hm hr a ha hp => ?_
      rw [has_pageSpan_iff hs.aligned hw] at hp
      rw [hsm] at hm
      exact (released_apart hs.length hm hr).not_has hp ha
  · obtain ⟨hs₁, hp₁⟩ := hm { mapped with
      slots := slots.set i
        { allocationSlot rt al ay p with address := 0, size := 0, regions := [] } } rfl
    refine ht'.set hi' hs₁ (fun h => absurd rfl h) ?_
    rw [hp₁]
    exact ⟨fun _ _ _ _ _ _ _ => rfl, fun _ _ _ _ _ hn => hn⟩

theorem virtualAlloc_true (hi : TableInv vm) (ht : PagesTrue vm) {host : HostAnswers}
    {ad : ℕ} {size : UInt64} {ay p : UInt32}
    (hadm : Admissible host (.virtualAlloc ad size ay p) vm)
    (hc : QueryCareful host (.virtualAlloc ad size ay p) vm) :
    PagesTrue ((MemoryCall.virtualAlloc ad size ay p).run host vm) := by
  obtain ⟨hu, hc⟩ := hc
  have hn : PagesTrue (ntAllocateVirtualMemory host ⟨ad, size⟩ ay p vm).2.2 := by
    unfold ntAllocateVirtualMemory
    split
    · exact ht
    dsimp only
    split
    · exact ht
    split
    · next hr =>
      have hb := commitReservation_true hi ht host ad (alignToPage size).toNat p (hc hr)
      split
      · next heq =>
        rwa [heq] at hb
      · next heq =>
        rwa [heq] at hb
    · split
      · exact ht
      next res hr =>
      have hb := @insertAllocation_true vm { vm with
        pages := vm.pages.map res (alignToPage size).toNat
          (if commits ay then protToHost p else Prot.none) } hi ht host hu
        res _ ay p (hadm.mmap _ res rfl hr) (alignToPage_mod size) rfl rfl
      split
      · next heq =>
        rwa [heq] at hb
      · next heq =>
        rwa [heq] at hb
  show PagesTrue (virtualAlloc host ad size ay p vm).2
  unfold virtualAlloc
  split
  · next heq =>
    rwa [heq] at hn
  · next heq =>
    rwa [heq] at hn

theorem virtualFree_true (hi : TableInv vm) (ht : PagesTrue vm) {host : HostAnswers}
    (hu : host.unmaps = true) (ad : ℕ) (size : UInt64) (ft : UInt32) :
    PagesTrue ((MemoryCall.virtualFree ad size ft).run host vm) := by
  have hn : PagesTrue (ntFreeVirtualMemory host ⟨ad, size⟩ ft vm).2 := by
    unfold ntFreeVirtualMemory
    split
    · exact ht
    next hr =>
    split
    · exact ht
    next i hf =>
    obtain ⟨t, hti, hm, -⟩ := findIdx?_some hf
    simp only [Bool.and_eq_true, Bool.not_eq_true', decide_eq_true_eq] at hm
    obtain ⟨⟨hv, hb⟩, hst⟩ := hm
    dsimp only at hb hr
    have ha : t.address ≠ 0 := fun h => hr (.inl (by rw [← hb, h]))
    have hl : t.live := AllocationSlot.live_iff.2 ⟨ha, .inr hst⟩
    have hsi := hi.slot t (mem_of_getElem? hti) ha
    rw [getD_of_getElem? hti]
    unfold VirtualMemory.munmap
    dsimp only
    rw [if_pos hu]
    refine ht.set hi rfl (fun _ => ?_) (.unmap fun j u hj hu' hl' q hq => ?_)
    · refine (slotTrue_released_iff (hsi.release hv) (AllocationSlot.released_release hl)).2
        fun b hb' => ?_
      have hh : (pageSpan ad t.size).Has (b / pageSize) := hb ▸ has_pageSpan hsi.aligned hb'
      exact if_pos hh
    · rw [← hb]
      exact (hi.apart j i u t hj hu' hti hl' hl).not_has hq
  show PagesTrue (virtualFree host ad size ft vm).2
  unfold virtualFree
  split
  · next heq =>
    rwa [heq] at hn
  · next heq =>
    rwa [heq] at hn

theorem mapViewOfFile_true (hi : TableInv vm) (ht : PagesTrue vm) {host : HostAnswers}
    {mp : FileMapping} {da : UInt32} {off bs : UInt64}
    (hadm : Admissible host (.mapViewOfFile (some mp) da off bs) vm)
    (hc : QueryCareful host (.mapViewOfFile (some mp) da off bs) vm) :
    PagesTrue ((MemoryCall.mapViewOfFile (some mp) da off bs).run host vm) := by
  obtain ⟨hu, hc⟩ := hc
  show PagesTrue (mapViewOfFile host (some mp) da off bs vm).2
  unfold mapViewOfFile
  cases hr : host.mmap with
  | error e => exact ht
  | ok res =>
    have hs := hadm.mmap _ res rfl hr
    have hap := hc res hr
    dsimp only
    split
    · unfold VirtualMemory.munmap
      rw [if_pos hu]
      exact ht.congr rfl (unmap_map hs)
    · next i hf =>
      obtain ⟨t, hti, he, -⟩ := findIdx?_some hf
      rw [decide_eq_true_eq] at he
      have hg := hi.empty t (mem_of_getElem? hti) he
      refine ht.set hi rfl (fun _ a ha => ?_) (.map hi hs fun u hm hr' a ha => ?_)
      · rw [getD_of_getElem? hti] at ha ⊢
        have hh : (pageSpan res (viewSize mp off bs).toNat).Has (a / pageSize) :=
          has_pageSpan hs.aligned ha
        have hv := shownAt_nil (s := viewSlot t res (viewSize mp off bs).toNat (viewWrites da))
          (a := a) hg
        rw [hv]
        show PageIs (vm.pages.map res _ _ _) _ _
        rw [map_of_has hh]
        unfold viewSlot
        cases viewWrites da with
        | true => exact .committed (.inl rfl)
        | false => exact .committed (.inl rfl)
      · have hsi := hi.slot u hm (AllocationSlot.released_iff.1 hr').2.2
        exact fun hp => (hap u hm hr').not_has hp (has_pageSpan hsi.aligned ha)

theorem unmapViewOfFile_true (hi : TableInv vm) (ht : PagesTrue vm) {host : HostAnswers}
    (hu : host.unmaps = true) (b : ℕ) : PagesTrue ((MemoryCall.unmapViewOfFile b).run host vm) := by
  dsimp only [MemoryCall.run, unmapViewOfFile]
  split
  · exact ht
  next hb =>
  cases hf : findView vm.slots b with
  | none => exact ht
  | some i =>
    obtain ⟨t, hti, hm, -⟩ := findIdx?_some hf
    simp only [Bool.and_eq_true, decide_eq_true_eq] at hm
    obtain ⟨⟨hv, rfl⟩, -⟩ := hm
    have hl : t.live := AllocationSlot.live_iff.2 ⟨hb, .inl hv⟩
    simp only [getD_of_getElem? hti]
    exact ht.set hi rfl (fun h => absurd rfl h)
      (.unmap fun j u hj hu' hl' q hq => (hi.apart j i u t hj hu' hti hl' hl).not_has hq)

/-- All of the range gets the protection, in the pages and in the record. -/
theorem SlotTrue.reprotect {st len : ℕ} {re : ℕ → Option Errno} {np : UInt32}
    {u : List AllocationRegion} {r : AllocationRegion} (h : SlotTrue ps s) (hi : SlotInv s)
    (hv : s.view = false) (hb : buildAllocationProtection s (st - s.address) len np = some u)
    (hr : r ∈ s.regions) (hc : r.state = kMemCommit) (hs : st % pageSize = 0)
    (hl : len % pageSize = 0) (hlo : s.address ≤ st) (ha : Accepted ps re st len) :
    SlotTrue (ps.protect re st len (protToHost np)).2 (s.reprotect u) := by
  intro a hat
  have hrt := recordedAt_eq_shownAt (hi.reprotect hv hr hc hb) hv hat
  rw [recordedAt_build hi hv hb hr hc hat, recordedAt_eq_shownAt hi hv hat] at hrt
  have hin : st - s.address ≤ a - s.address ∧ a - s.address < st - s.address + len ↔
      (pageSpan st len).Has (a / pageSize) := by
    rw [has_pageSpan_iff hs hl]
    have hle : s.address ≤ a := hat.1
    dsimp only [Span.Has, Span.stop]
    omega
  rw [protect_of_accepted ha]
  simp only [hin] at hrt
  split at hrt
  next hp =>
    rw [if_pos hp, ← Option.some.inj hrt]
    exact .committed (.inl rfl)
  next hp =>
    rw [if_neg hp, ← Option.some.inj hrt]
    exact h a hat

/-- `VirtualProtect`. -/
theorem ntProtect_true (hi : TableInv vm) (ht : PagesTrue vm) {host : HostAnswers}
    (ms : List MapsEntry) {b si : UInt64} {np : UInt32} {o : ℕ}
    (hc : QueryCareful host (.virtualProtect ms b si np o) vm) :
    PagesTrue (ntProtectVirtualMemory host ms b si np vm).vm := by
  have hc := hc.2
  dsimp only at hc
  rcases ntProtect_cases hi host ms b si np with ⟨-, ss, hrec, ho⟩ | ⟨-, -, hk⟩
  · have hstart : (alignDownToPage b).toNat % pageSize = 0 := by
      rw [toNat_alignDownToPage]
      exact Nat.mul_mod_left _ _
    -- the record stays, and so do the pages of the live slots
    have hsame : (ntProtectVirtualMemory host ms b si np vm).vm.slots = vm.slots →
        HostHarmless host b si np vm ∨ (∀ s ∈ vm.slots, s.live = true →
          (pageSpan (alignDownToPage b).toNat (protectSize b si).toNat).Apart s.pages) →
        PagesTrue (ntProtectVirtualMemory host ms b si np vm).vm := by
      rintro hsl (hh | hout)
      · exact ht.congr hsl (ho.pages.trans (protect_eq_self.2 hh))
      · refine ht.keep hi hsl ?_
        rw [ho.pages]
        exact .protect fun j t _ htj hl p hp hh =>
          (hout t (mem_of_getElem? htj) hl).not_has hh hp
    by_cases ha : HostAccepts host b si vm
    · obtain ⟨-, hsl⟩ := ho.accepted ha
      rcases hrec with ⟨hnone, rfl⟩ | ⟨i, t, u, hsome, hti, hco, hbu, rfl⟩
      · rw [hnone] at hc
        exact hsame hsl (hc.imp_right fun h => by simpa using h)
      · -- all of the range gets the protection, and its record
        obtain ⟨t', hti', hv, hu, hlo, hhi⟩ := rangeAllocation_some hsome
        cases hti.symm.trans hti'
        have hsi := hi.slot t (mem_of_getElem? hti) hu
        obtain ⟨r, hr, -⟩ := exists_region hsi hv
          (a := t.address) ⟨le_refl _, Nat.lt_add_of_pos_right hsi.positive⟩
        have hold := ht t (mem_of_getElem? hti) hu
        refine ht.set hi hsl (fun _ => ?_) ?_
        · rw [ho.pages]
          exact hold.reprotect hsi hv hbu hr (hco.2.2 r hr) hstart (alignToPage_mod _) hlo ha
        · rw [ho.pages]
          refine .protect fun j u' hj htj hl q hq hh => ?_
          exact (hi.apart j i u' t hj htj hti hl hco.1).not_has hq
            (has_pages_of_range hsi hstart hlo hhi hh)
    · refine hsame (ho.refused ha).2 (hc.imp_right fun h => ?_)
      split at h
      · exact absurd h ha
      · exact h
  · rw [hk]
    exact ht

/-- **A careful call keeps the table true of the pages.** -/
theorem careful_step (hi : TableInv vm) (ht : PagesTrue vm) {host : HostAnswers}
    {call : MemoryCall} (hadm : Admissible host call vm) (hc : QueryCareful host call vm) :
    PagesTrue (call.run host vm) := by
  cases call with
  | virtualAlloc ad size ay p => exact virtualAlloc_true hi ht hadm hc
  | virtualFree ad size ft => exact virtualFree_true hi ht hc.1 ad size ft
  | virtualProtect ms b si np o =>
    by_cases hz : o = 0
    · show PagesTrue (virtualProtect host ms b si np o vm).2
      unfold virtualProtect
      rw [if_pos hz]
      exact ht
    · obtain ⟨hsl, hpa, -⟩ := virtualProtect_result host ms b si np hz vm
      exact (ntProtect_true hi ht ms hc).congr hsl hpa
  | mapViewOfFile mp da off bs =>
    cases mp with
    | none => exact ht
    | some mp => exact mapViewOfFile_true hi ht hadm hc
  | unmapViewOfFile b => exact unmapViewOfFile_true hi ht hc.1 b
  | hostPages pages =>
    intro s hm hu a ha
    have hsi := hi.slot s hm hu
    have hp := hc.2 s hm hu _ (has_pageSpan hsi.aligned ha)
    show PageIs (pages (a / pageSize)) _ _
    rw [hp]
    exact ht s hm hu a ha

/-- **The table is true of the pages in every run of careful calls.** -/
theorem Run.pagesTrue {live : List LiveMapping} (hr : Run QueryCareful vm live) :
    TableInv vm ∧ PagesTrue vm := by
  induction hr with
  | initial p li hu =>
    refine ⟨TableInv.initial hu, fun s hs ha => ?_⟩
    rw [eq_of_mem_replicate hs] at ha
    exact absurd rfl ha
  | @step vm live host call _ hadm hc ih =>
    obtain ⟨hi, ht⟩ := ih
    obtain ⟨e, hst, -⟩ := run_step hi hadm
    exact ⟨hst.inv hi, careful_step hi ht hadm hc⟩

/-! ### What an answer says -/

theorem PageIs.reported {page : Option Prot} {st p : UInt32} (h : PageIs page st p) :
    PageIs page st (reportedProtect st p) := by
  cases h with
  | committed hp => exact .committed hp
  | reserved => exact .reserved
  | free => exact .free

theorem hostToWinProtect_eq {bs : ByteString} {prot : Prot} (h : bs.take 3 = permsOf prot) :
    hostToWinProtect bs = hostToWinProtect (permsOf prot) := by
  have hi : ∀ i < 3, bs[i]? = (permsOf prot)[i]? := by
    intro i hi
    rw [← h, getElem?_take_of_lt hi]
  unfold hostToWinProtect
  rw [hi 0 (by decide), hi 1 (by decide), hi 2 (by decide)]

/-- The region that answers for an address answers for the whole interval. -/
theorem answeringRegion_eq (hi : SlotInv s) {b : ℕ} (ha : s.span.Has a)
    (hb : Span.Has ⟨(slotInformation s a).baseAddress, (slotInformation s a).regionSize⟩ b) :
    s.span.Has b ∧ answeringRegion s (b - s.address) = answeringRegion s (a - s.address) := by
  dsimp only [AllocationSlot.span, Span.Has, Span.stop, slotInformation] at ha hb ⊢
  cases hv : s.view with
  | true =>
    obtain ⟨hr, -⟩ := hi.viewState hv
    rw [answeringRegion_nil hr] at hb ⊢
    rw [answeringRegion_nil hr]
    dsimp only at hb ⊢
    exact ⟨by omega, rfl⟩
  | false =>
    obtain ⟨hme, hha⟩ := answeringRegion_mem hi hv (show a - s.address < s.size by omega)
    obtain ⟨-, hst, -⟩ := (hi.tiles hv).bounds (mem_map_of_mem hme)
    dsimp only [AllocationRegion.span, Span.Has, Span.stop] at hha hst
    refine ⟨by omega, ?_⟩
    -- both offsets lie in the one tile
    obtain ⟨hme', hhb⟩ := answeringRegion_mem hi hv (show b - s.address < s.size by omega)
    refine tile_unique (hi.tiles hv) hme' hme hhb ?_
    dsimp only [AllocationRegion.span, Span.Has, Span.stop]
    omega

/-- **What an answer says of the pages of its interval is true.** -/
theorem query_pages {maps : Option (List MapsEntry)} (hi : TableInv vm) (ht : PagesTrue vm)
    (hm : MapsTrue vm maps) {info : NtMemoryInformation}
    (h : ntQueryVirtualMemory maps a vm = .ok info) :
    ∀ b, Span.Has ⟨info.baseAddress, info.regionSize⟩ b → b < 2 ^ 47 →
      PageIs (vm.pages (b / pageSize)) info.state info.protect := by
  intro b hb hk
  unfold ntQueryVirtualMemory at h
  split at h
  · cases h
  cases hl : findSlot vm.slots a with
  | some s =>
    rw [hl] at h
    cases h
    obtain ⟨hs, hu, hh⟩ := findSlot_some hl
    have hsi := hi.slot s hs hu
    have hbounds := answeringRegion_eq hsi hh hb
    have hp := ht s hs hu b hbounds.1
    unfold shownAt at hp
    rw [hbounds.2] at hp
    exact hp.reported
  | none =>
    rw [hl] at h
    cases hms : maps with
    | none =>
      rw [hms] at h
      cases h
    | some es =>
      rw [hms] at h
      dsimp only at h
      cases hn : findMapsEntry es a with
      | none =>
        rw [hn] at h
        cases h
      | some e =>
        rw [hn] at h
        cases h
        obtain ⟨he, hst, hsp⟩ := findMapsEntry_some hn
        dsimp only [Span.Has, Span.stop, entryInformation] at hb ⊢
        obtain ⟨prot, hp, hperms⟩ := hm es hms e he b hb.1 (by omega) hk
        rw [hp]
        exact .committed (.inr (hostToWinProtect_eq hperms))

theorem queryAnswer_iff {maps : Option (List MapsEntry)} (hi : TableInv vm) (ht : PagesTrue vm)
    (hm : MapsTrue vm maps) {info : NtMemoryInformation}
    (h : ntQueryVirtualMemory maps a vm = .ok info) :
    QueryAnswer vm maps a info ↔ FirstHalf vm maps a := by
  rw [← query_iff hi h]
  exact ⟨fun ha => ha.placed, fun hp => ⟨hp, query_pages hi ht hm h⟩⟩

/-- **A query of a reachable table is placed, and the walk is sound, exactly in first halves; and
after careful calls the whole answer is true exactly in the first half of the record that
answers.** -/
theorem virtualQuery_iff {vm : VirtualMemory} (hreach : MemoryReachable vm)
    (maps : Option (List MapsEntry)) (a : ℕ) :
    (∀ info, ntQueryVirtualMemory maps a vm = .ok info →
      (Placed vm maps a info ↔ FirstHalf vm maps a)) ∧
    (WalkSound vm maps a ↔ ∀ n b, visited vm maps a n = some b → FirstHalf vm maps b) ∧
    ∀ live, Run QueryCareful vm live → MapsTrue vm maps →
      (∀ info, ntQueryVirtualMemory maps a vm = .ok info →
        (QueryAnswer vm maps a info ↔ FirstHalf vm maps a)) ∧
      (∀ buffer length info, (virtualQuery maps a buffer length vm).1 = some info →
        (QueryAnswer vm maps a info ↔ FirstHalf vm maps a)) := by
  refine ⟨fun info h => query_iff hreach.inv h, walk_iff hreach.inv, fun live hr hm => ?_⟩
  obtain ⟨hi, ht⟩ := hr.pagesTrue
  refine ⟨fun info h => queryAnswer_iff hi ht hm h, fun buffer length info h => ?_⟩
  unfold virtualQuery at h
  split at h
  · cases h
  cases hq : ntQueryVirtualMemory maps a vm with
  | error ss =>
    rw [hq] at h
    cases h
  | ok i' =>
    rw [hq] at h
    dsimp only at h
    split at h
    · cases h
      exact queryAnswer_iff hi ht hm hq
    · cases h

/-- The first quarter of the page. -/
theorem virtualQuery_iff_onePage : ∃ info, ntQueryVirtualMemory none 0x10400 onePage = .ok info ∧
    QueryAnswer onePage none 0x10400 info := by
  have ha : (answeringRecord onePage none 0x10400).map MemoryRecord.span =
      some ⟨0x10000, 0x1000⟩ := by
    decide +kernel
  have hs : (ntQueryVirtualMemory none 0x10400 onePage).toOption.isSome = true := by decide +kernel
  have hrun : Run QueryCareful onePage [⟨0x10000, 0x1000, false⟩] := by
    refine (Run.initial (fun _ => none) 0 fun _ _ => rfl).step
      ⟨fun l r hl hr => ?_, fun p h => by cases h⟩ ⟨rfl, fun h => ?_⟩
    · cases hl
      cases hr
      exact ⟨by decide, by decide, by decide, by decide, fun _ _ => rfl⟩
    · exact absurd h (by decide)
  cases hq : ntQueryVirtualMemory none 0x10400 onePage with
  | error ss =>
    rw [hq] at hs
    cases hs
  | ok info =>
    refine ⟨info, rfl, (((virtualQuery_iff reachable_onePage none 0x10400).2.2 _ hrun
      fun es h => by cases h).1 info hq).mpr ?_⟩
    intro r hr
    rw [hr] at ha
    rw [Option.some.inj ha]
    decide

/-- In the middle of the page the answer is the interval in front of it; and after
`VirtualProtect` on a view it has a protection that the page does not have. -/
theorem not_queryAnswer_onePage : (MemoryReachable onePage ∧
      (ntQueryVirtualMemory none 0x10800 onePage).toOption.map
        (fun info => (info.baseAddress, info.regionSize)) = some (0x10000, 0x800) ∧
      ∀ info, ntQueryVirtualMemory none 0x10800 onePage = .ok info →
        ¬ QueryAnswer onePage none 0x10800 info) ∧
    ∃ vm, MemoryReachable vm ∧ FirstHalf vm none 0x20000 ∧ vm.pages 32 = some Prot.readOnly ∧
      (ntQueryVirtualMemory none 0x20000 vm).toOption.map NtMemoryInformation.protect =
        some kPageReadWrite ∧
      ∀ info, ntQueryVirtualMemory none 0x20000 vm = .ok info →
        ¬ QueryAnswer vm none 0x20000 info := by
  have hi : (ntQueryVirtualMemory none 0x10800 onePage).toOption.map
      (fun info => (info.baseAddress, info.regionSize)) = some (0x10000, 0x800) := by
    decide +kernel
  obtain ⟨vm, hvm⟩ : ∃ vm, vm =
      (MemoryCall.virtualProtect [] 0x20000 0x1000 kPageReadOnly 8).run {} splitBesideView :=
    ⟨_, rfl⟩
  have hreach : MemoryReachable vm :=
    hvm ▸ reachable_splitBesideView.step ⟨fun _ _ hl => (by cases hl), fun p h => by cases h⟩
  have ha : (answeringRecord vm none 0x20000).map MemoryRecord.span = some ⟨0x20000, 0x1000⟩ := by
    rw [hvm]
    decide +kernel
  have hpage : vm.pages 32 = some Prot.readOnly := by
    rw [hvm]
    decide +kernel
  have hq : (ntQueryVirtualMemory none 0x20000 vm).toOption.map
      (fun info => (info.baseAddress, info.regionSize, info.state, info.protect)) =
      some (0x20000, 0x1000, kMemCommit, kPageReadWrite) := by
    rw [hvm]
    decide +kernel
  refine ⟨⟨reachable_onePage, hi, fun info hq ha => ?_⟩, vm, hreach, fun r hr => ?_, hpage, ?_,
    fun info h hans => ?_⟩
  · rw [hq] at hi
    obtain ⟨hb, hs⟩ := Prod.mk.inj (Option.some.inj hi)
    have hl : 0x10800 < info.baseAddress + info.regionSize := ha.placed.contains.2
    omega
  · rw [hr] at ha
    rw [Option.some.inj ha]
    decide
  · obtain ⟨info, hinfo, heq⟩ := Option.map_eq_some_iff.1 hq
    rw [hinfo, Option.map_some, (Prod.mk.inj (Prod.mk.inj (Prod.mk.inj heq).2).2).2]
  · rw [h] at hq
    obtain ⟨hb, hq⟩ := Prod.mk.inj (Option.some.inj hq)
    obtain ⟨hs, hq⟩ := Prod.mk.inj hq
    obtain ⟨hst, hpr⟩ := Prod.mk.inj hq
    have hp := hans.pages 0x20000 (by rw [hb, hs]; decide) (by decide)
    rw [hst, hpr] at hp
    change PageIs (vm.pages 32) kMemCommit kPageReadWrite at hp
    rw [hpage] at hp
    cases hp with
    | committed h => revert h; decide

end TradutorLinux.Runtime
