import TradutorLinux.Runtime.LiveMappings

/-!
# The interval of a memory query

`NtQueryVirtualMemory` answers with the beginning of the region that holds the
address and with the number of bytes from the address to its end.  The two
describe an interval that holds the address only when it lies in the first half
of the region.

## Main definitions

* `Placed`
* `visited`, `WalkSound` — the walk over the address space from query to query.

## Main results

* `query_iff`, `walk_iff`
-/

namespace TradutorLinux.Runtime

open Option List

variable {vm : VirtualMemory} {maps ms : Option (List MapsEntry)} {a : ℕ}

/-- A range of addresses with one state and one protection. -/
structure MemoryRecord where
  span : Span
  state : UInt32
  protect : UInt32
deriving DecidableEq, Repr

def reportedProtect (state protect : UInt32) : UInt32 := if state = kMemCommit then protect else 0

def regionRecord (s : AllocationSlot) (r : AllocationRegion) : MemoryRecord :=
  ⟨⟨s.address + r.offset, r.size⟩, r.state, reportedProtect r.state r.protect⟩

def slotRecord (s : AllocationSlot) : MemoryRecord :=
  ⟨s.span, s.state, reportedProtect s.state s.protect⟩

def entryRecord (e : MapsEntry) : MemoryRecord :=
  ⟨⟨e.start, e.stop - e.start⟩, kMemCommit, hostToWinProtect (e.perms.getD [])⟩

/-- The regions of allocations, the views, and the entries of the maps. -/
inductive Tracked (vm : VirtualMemory) (maps : Option (List MapsEntry)) : MemoryRecord → Prop
  | region {s : AllocationSlot} {r : AllocationRegion} : s ∈ vm.slots → s.address ≠ 0 →
      r ∈ s.regions → Tracked vm maps (regionRecord s r)
  | view {s : AllocationSlot} : s ∈ vm.slots → s.address ≠ 0 → s.regions = [] →
      Tracked vm maps (slotRecord s)
  | entry {entries : List MapsEntry} {e : MapsEntry} : maps = some entries → e ∈ entries →
      Tracked vm maps (entryRecord e)

/-- The interval holds the address, and it lies in one record that has the reported state and
protection. -/
structure Placed (vm : VirtualMemory) (maps : Option (List MapsEntry)) (a : ℕ)
    (info : NtMemoryInformation) : Prop where
  contains : Span.Has ⟨info.baseAddress, info.regionSize⟩ a
  uniform : ∃ record, Tracked vm maps record ∧
    Span.Within ⟨info.baseAddress, info.regionSize⟩ record.span ∧
    info.state = record.state ∧ info.protect = record.protect

def answeringRecord (vm : VirtualMemory) (maps : Option (List MapsEntry)) (a : ℕ) :
    Option MemoryRecord :=
  if a = 0 then none
  else
    match findSlot vm.slots a with
    | some s => some (regionRecord s (answeringRegion s (a - s.address)))
    | none => (maps.bind fun entries => findMapsEntry entries a).map entryRecord

/-- The address lies in the first half of the record that answers for it. -/
def FirstHalf (vm : VirtualMemory) (maps : Option (List MapsEntry)) (a : ℕ) : Prop :=
  ∀ record, answeringRecord vm maps a = some record →
    2 * (a - record.span.base) < record.span.size

/-! ### What a query answers -/

theorem findSlot_some {ss : List AllocationSlot} {s : AllocationSlot}
    (h : findSlot ss a = some s) : s ∈ ss ∧ s.address ≠ 0 ∧ s.span.Has a := by
  have hh := find?_some h
  simp only [Bool.and_eq_true, decide_eq_true_eq] at hh
  exact ⟨mem_of_find?_eq_some h, hh.1.1, hh.1.2, hh.2⟩

theorem findMapsEntry_some {es : List MapsEntry} {e : MapsEntry}
    (h : findMapsEntry es a = some e) : e ∈ es ∧ e.start ≤ a ∧ a < e.stop := by
  have hh := find?_some h
  simp only [Bool.and_eq_true, decide_eq_true_eq] at hh
  exact ⟨mem_of_find?_eq_some h, hh.1, hh.2⟩

theorem answeringRegion_nil {s : AllocationSlot} (h : s.regions = []) (o : ℕ) :
    answeringRegion s o = ⟨0, s.size, s.state, s.protect⟩ := by
  unfold answeringRegion
  rw [h]
  rfl

/-- **What a successful query has found**: a record with the address, from whose
beginning the interval starts and whose remaining bytes it counts. -/
theorem query_cases (hiv : TableInv vm) {i : NtMemoryInformation}
    (h : ntQueryVirtualMemory ms a vm = .ok i) :
    ∃ r, answeringRecord vm ms a = some r ∧ Tracked vm ms r ∧
      r.span.Has a ∧ i.baseAddress = r.span.base ∧
      i.regionSize = r.span.size - (a - r.span.base) ∧
      i.state = r.state ∧ i.protect = r.protect := by
  unfold ntQueryVirtualMemory at h
  unfold answeringRecord
  split at h
  · cases h
  next hz =>
  rw [if_neg hz]
  cases hl : findSlot vm.slots a with
  | some s =>
    rw [hl] at h
    cases h
    obtain ⟨hs, hu, hh⟩ := findSlot_some hl
    have hsi := hiv.slot s hs hu
    have hb := hh
    dsimp only [AllocationSlot.span, Span.Has, Span.stop] at hb
    -- the region that answers is a tracked one and holds the offset
    have hg : Tracked vm ms (regionRecord s (answeringRegion s (a - s.address))) ∧
        (answeringRegion s (a - s.address)).span.Has (a - s.address) := by
      cases hv : s.view with
      | false =>
        obtain ⟨hme, hi⟩ := answeringRegion_mem hsi hv (show a - s.address < s.size by omega)
        exact ⟨.region hs hu hme, hi⟩
      | true =>
        obtain ⟨hr, -⟩ := hsi.viewState hv
        rw [answeringRegion_nil hr]
        refine ⟨.view hs hu hr, Nat.zero_le _, ?_⟩
        dsimp only [AllocationRegion.span, Span.stop]
        omega
    obtain ⟨ht, hi⟩ := hg
    dsimp only [AllocationRegion.span, Span.Has, Span.stop] at hi
    refine ⟨_, rfl, ht, ?_, rfl, ?_, rfl, rfl⟩
    · dsimp only [regionRecord, Span.Has, Span.stop]
      omega
    · dsimp only [slotInformation, regionRecord]
      omega
  | none =>
    rw [hl] at h
    cases hm : ms with
    | none =>
      rw [hm] at h
      cases h
    | some es =>
      rw [hm] at h
      dsimp only at h
      cases hn : findMapsEntry es a with
      | none =>
        rw [hn] at h
        cases h
      | some e =>
        rw [hn] at h
        cases h
        obtain ⟨he, hst, ho⟩ := findMapsEntry_some hn
        refine ⟨entryRecord e, by simp [hn], .entry rfl he, ?_, rfl, ?_, rfl, rfl⟩
        · dsimp only [entryRecord, Span.Has, Span.stop]
          omega
        · dsimp only [entryInformation, entryRecord]
          omega

/-- **An answer is placed exactly in the first half of the record.** -/
theorem query_iff (hi : TableInv vm) {i : NtMemoryInformation}
    (h : ntQueryVirtualMemory ms a vm = .ok i) : Placed vm ms a i ↔ FirstHalf vm ms a := by
  obtain ⟨r, ha, ht, hha, hb, hsi, hs, hp⟩ := query_cases hi h
  unfold Span.Has Span.stop at hha
  have hf : FirstHalf vm ms a ↔ 2 * (a - r.span.base) < r.span.size := by
    constructor
    · exact fun hh => hh r ha
    · intro hl r' ha'
      rw [ha] at ha'
      cases ha'
      exact hl
  rw [hf]
  constructor
  · rintro ⟨hc, -⟩
    dsimp only [Span.Has, Span.stop] at hc
    omega
  · intro hl
    refine ⟨?_, r, ht, ?_, hs, hp⟩
    · dsimp only [Span.Has, Span.stop]
      omega
    · dsimp only [Span.Within, Span.stop]
      omega

/-! ### The walk -/

/-- The next address of the walk: the end of the interval. -/
def nextAddress (vm : VirtualMemory) (maps : Option (List MapsEntry)) (a : ℕ) : Option ℕ :=
  (ntQueryVirtualMemory maps a vm).toOption.map fun info => info.baseAddress + info.regionSize

/-- The addresses of the walk from `a`. -/
def visited (vm : VirtualMemory) (maps : Option (List MapsEntry)) (a : ℕ) : ℕ → Option ℕ
  | 0 => some a
  | n + 1 => (visited vm maps a n).bind (nextAddress vm maps)

/-- The walk ascends with each step and ends. -/
def WalkSound (vm : VirtualMemory) (maps : Option (List MapsEntry)) (a : ℕ) : Prop :=
  (∀ n b c, visited vm maps a n = some b → nextAddress vm maps b = some c → b < c) ∧
    ∃ n, visited vm maps a n = none

theorem nextAddress_some {b c : ℕ} (h : nextAddress vm ms b = some c) :
    ∃ i, ntQueryVirtualMemory ms b vm = .ok i ∧ c = i.baseAddress + i.regionSize := by
  unfold nextAddress at h
  cases hq : ntQueryVirtualMemory ms b vm with
  | error ss =>
    rw [hq] at h
    cases h
  | ok i =>
    rw [hq] at h
    exact ⟨i, rfl, (some.inj h).symm⟩

theorem exists_bound {α : Type*} (f : α → ℕ) (l : List α) : ∃ bound, ∀ x ∈ l, f x ≤ bound := by
  induction l with
  | nil => exact ⟨0, fun x hx => absurd hx not_mem_nil⟩
  | cons y l ih =>
    obtain ⟨bound, hb⟩ := ih
    refine ⟨max (f y) bound, fun x hx => ?_⟩
    rcases mem_cons.1 hx with rfl | hx
    · exact le_max_left _ _
    · exact le_trans (hb x hx) (le_max_right _ _)

theorem exists_nextAddress_le (hi : TableInv vm) (ms : Option (List MapsEntry)) :
    ∃ bound, ∀ b c, nextAddress vm ms b = some c → c ≤ bound := by
  obtain ⟨sb, hl⟩ := exists_bound (fun s : AllocationSlot => s.address + s.size) vm.slots
  obtain ⟨entryBound, hn⟩ := exists_bound MapsEntry.stop (ms.getD [])
  refine ⟨max sb entryBound, fun b c hc => ?_⟩
  obtain ⟨i, hq, rfl⟩ := nextAddress_some hc
  obtain ⟨re, -, ha, hh, hba, hz, -, -⟩ := query_cases hi hq
  unfold Span.Has Span.stop at hh
  have hst : re.span.base + re.span.size ≤ max sb entryBound := by
    cases ha with
    | @region s r hs hu hr =>
      have hsi := hi.slot s hs hu
      have hb := hl s hs
      have hv : s.view = false := by
        rw [Bool.eq_false_iff]
        intro hv
        rw [(hsi.viewState hv).1] at hr
        cases hr
      obtain ⟨-, ht, -⟩ := (hsi.tiles hv).bounds (mem_map_of_mem hr)
      unfold AllocationRegion.span Span.stop at ht
      unfold regionRecord
      dsimp only at ht hb ⊢
      omega
    | @view s hs hu hg => exact le_trans (hl s hs) (le_max_left _ _)
    | @entry entries e hm he =>
      rw [hm] at hn
      have hb := hn e he
      dsimp only [entryRecord] at hh ⊢
      omega
  omega

/-- **The walk ascends and ends exactly when it stays in first halves.** -/
theorem walk_iff (hi : TableInv vm) :
    WalkSound vm ms a ↔ ∀ n b, visited vm ms a n = some b → FirstHalf vm ms b := by
  have hs : ∀ b c, nextAddress vm ms b = some c → (b < c ↔ FirstHalf vm ms b) := by
    intro b c hc
    obtain ⟨i, hq, rfl⟩ := nextAddress_some hc
    rw [← query_iff hi hq]
    obtain ⟨r, -, hr, hh, hba, hsi, hst, hp⟩ := query_cases hi hq
    unfold Span.Has Span.stop at hh
    constructor
    · intro ht
      have ho : i.baseAddress ≤ b := by omega
      refine ⟨⟨ho, ht⟩, r, hr, ?_, hst, hp⟩
      dsimp only [Span.Within, Span.stop]
      omega
    · exact fun ha => ha.contains.2
  constructor
  · rintro ⟨has, -⟩ n b hb
    cases hn : nextAddress vm ms b with
    | some c => exact (hs b c hn).1 (has n b c hb hn)
    | none =>
      intro r ha
      -- a record that answers makes the query succeed
      unfold answeringRecord at ha
      unfold nextAddress ntQueryVirtualMemory at hn
      split at ha
      · cases ha
      next hz =>
      rw [if_neg hz] at hn
      cases hsl : findSlot vm.slots b with
      | some s =>
        rw [hsl] at hn
        cases hn
      | none =>
        rw [hsl] at hn ha
        cases hm : ms with
        | none =>
          rw [hm] at ha
          cases ha
        | some es =>
          rw [hm] at hn ha
          dsimp only [bind_some] at hn ha
          cases he : findMapsEntry es b with
          | none =>
            rw [he] at ha
            cases ha
          | some e =>
            rw [he] at hn
            cases hn
  · intro hha
    have has : ∀ n b c, visited vm ms a n = some b → nextAddress vm ms b = some c →
        b < c := fun n b c hb hc => (hs b c hc).2 (hha n b hb)
    refine ⟨has, ?_⟩
    by_contra hne
    rw [not_exists] at hne
    -- the walk would climb beyond every bound
    have hl : ∀ n, ∃ b, visited vm ms a n = some b ∧ n ≤ b := by
      intro n
      induction n with
      | zero => exact ⟨a, rfl, Nat.zero_le a⟩
      | succ n ih =>
        obtain ⟨b, hb, hle⟩ := ih
        obtain ⟨c, hc⟩ := ne_none_iff_exists'.1 (hne (n + 1))
        have hn := hc
        rw [visited, hb, bind_some] at hn
        have ht := has n b c hb hn
        exact ⟨c, hc, by omega⟩
    obtain ⟨bo, hbo⟩ := exists_nextAddress_le hi ms
    obtain ⟨b, hb, -⟩ := hl bo
    obtain ⟨c, hc, hle⟩ := hl (bo + 1)
    rw [visited, hb, bind_some] at hc
    have hca := hbo b c hc
    omega

/-! ### One page -/

theorem reachable_onePage : MemoryReachable onePage := by
  refine (MemoryReachable.initial (fun _ => none) 0 fun _ _ => rfl).step
    ⟨fun l r hl hr => ?_, fun p h => by cases h⟩
  cases hl
  cases hr
  exact ⟨by decide, by decide, by decide, by decide, fun _ _ => rfl⟩

/-- **In every run what is live has pages of its own, all of them mapped, and its regions tile
it.** -/
theorem MemoryReachable.layout {vm : VirtualMemory} (hr : MemoryReachable vm) :
    (∀ (i j : ℕ) (s t : AllocationSlot), i ≠ j → vm.slots[i]? = some s → vm.slots[j]? = some t →
      s.live → t.live → s.pages.Apart t.pages) ∧
    ∀ s ∈ vm.slots, s.live → (∀ p, s.pages.Has p → (vm.pages p).isSome) ∧
      (s.view = false → Tiles 0 s.size (s.regions.map AllocationRegion.span)) := by
  have h := hr.inv
  refine ⟨h.apart, fun s hs hl => ⟨h.mapped s hs hl, ?_⟩⟩
  exact (h.slot s hs (AllocationSlot.live_iff.1 hl).1).tiles

/-- An allocation of two pages whose first is read-only, and a view. -/
def splitBesideView : VirtualMemory :=
  pageView.run (servingAt 0x20000)
    ((MemoryCall.virtualProtect [] 0x10000 0x1000 kPageReadOnly 8).run {}
      ((MemoryCall.virtualAlloc 0 0x2000 0x3000 kPageReadWrite).run (servingAt 0x10000)
        (VirtualMemory.initial (fun _ => none) 0)))

theorem reachable_splitBesideView : MemoryReachable splitBesideView := by
  refine (((MemoryReachable.initial (fun _ => none) 0 fun _ _ => rfl).step
    ⟨fun l r hl hr => ?_, fun p h => by cases h⟩).step
    ⟨fun _ _ hl => (by cases hl), fun p h => by cases h⟩).step
    ⟨fun l r hl hr => ?_, fun p h => by cases h⟩
  · cases hl
    cases hr
    exact ⟨by decide, by decide, by decide, by decide, fun _ _ => rfl⟩
  · cases hl
    cases hr
    refine ⟨by decide, by decide, by decide, by decide, fun p hp => ?_⟩
    obtain rfl : p = 32 := by
      obtain ⟨hl, hh⟩ := hp
      have hl' : 32 ≤ p := hl
      have hh' : p < 33 := hh
      omega
    decide +kernel

theorem layout_splitBesideView : ∃ s t, splitBesideView.slots[0]? = some s ∧
    splitBesideView.slots[1]? = some t ∧ s.regions.length = 2 ∧ t.view = true ∧
    s.pages.Apart t.pages ∧ Tiles 0 s.size (s.regions.map AllocationRegion.span) ∧
    ∀ p, t.pages.Has p → (splitBesideView.pages p).isSome := by
  have hs : splitBesideView.slots[0]?.map (fun s => (s.live, s.view, s.regions.length)) =
      some (true, false, 2) := by decide +kernel
  have ht : splitBesideView.slots[1]?.map (fun s => (s.live, s.view)) = some (true, true) := by
    decide +kernel
  obtain ⟨s, hs₀, hs⟩ := map_eq_some_iff.1 hs
  obtain ⟨t, ht₀, ht⟩ := map_eq_some_iff.1 ht
  simp only [Prod.mk.injEq] at hs ht
  obtain ⟨hap, hlay⟩ := reachable_splitBesideView.layout
  exact ⟨s, t, hs₀, ht₀, hs.2.2, ht.2, hap 0 1 s t (by decide) hs₀ ht₀ hs.1 ht.1,
    (hlay s (mem_of_getElem? hs₀) hs.1).2 hs.2.1, (hlay t (mem_of_getElem? ht₀) ht.1).1⟩

end TradutorLinux.Runtime
