import TradutorLinux.Runtime.MemoryQuery
import Mathlib.Data.List.Forall2

/-!
# What a change of protection changes

`NtProtectVirtualMemory` rounds the range to pages and passes it to `mprotect`,
which stops at the first page that it cannot change.  The sum of the size and the
offset in the first page may wrap around, a range outside every allocation may
run into one, and an `mprotect` that fails may already have changed pages.

## Main definitions

* `Touches`, `recordedAt`, `ProtectApplied`, `ProtectKept`, `ReachesHost`, `Accepted`,
  `Harmless`

## Main results

* `protect_iff`
-/

namespace TradutorLinux.Runtime

open List Function Pages

/-! ### `mprotect` -/

/-- The pages from `first` to `q` can all be changed. -/
def AcceptedTo (pages : Pages) (refuse : ℕ → Option Errno) (first q : ℕ) : Prop :=
  ∀ p, first ≤ p → p ≤ q → (pages p).isSome = true ∧ refuse p = none

variable {refuse re : ℕ → Option Errno} {pages ps : Pages}

theorem AcceptedTo.update {pr : Prot} {f q : ℕ} (hm : (ps f).isSome) (hr : re f = none) :
    AcceptedTo (update ps f (some pr)) re (f + 1) q ↔ AcceptedTo ps re f q := by
  constructor
  · intro h p hp hq
    rcases eq_or_lt_of_le hp with rfl | hl
    · exact ⟨hm, hr⟩
    · have ha := h p hl hq
      rwa [update_of_ne (ne_of_gt hl)] at ha
  · intro h p hp hq
    rw [update_of_ne (by omega)]
    exact h p (by omega) hq

/-- **The pages after an `mprotect`**: those in front of the first that cannot be
changed have the new protection. -/
theorem protectFrom_apply (re : ℕ → Option Errno) (pr : Prot) (q n : ℕ) :
    ∀ f ps, (Span.Has ⟨f, n⟩ q ∧ AcceptedTo ps re f q →
        (protectFrom re pr n f ps).2 q = some pr) ∧
      (¬ (Span.Has ⟨f, n⟩ q ∧ AcceptedTo ps re f q) →
        (protectFrom re pr n f ps).2 q = ps q) := by
  induction n with
  | zero =>
    intro f ps
    refine ⟨fun h => ?_, fun _ => rfl⟩
    have hh := h.1
    dsimp only [Span.Has, Span.stop] at hh
    omega
  | succ n ih =>
    intro f ps
    have hs : Span.Has ⟨f, n + 1⟩ q ↔ q = f ∨ Span.Has ⟨f + 1, n⟩ q := by
      dsimp only [Span.Has, Span.stop]
      omega
    unfold protectFrom
    cases hm : ps f with
    | none =>
      refine ⟨fun h => ?_, fun _ => rfl⟩
      have hf := (h.2 f (le_refl _) h.1.1).1
      rw [hm] at hf
      cases hf
    | some o =>
      cases he : re f with
      | some e =>
        refine ⟨fun h => ?_, fun _ => rfl⟩
        have hf := (h.2 f (le_refl _) h.1.1).2
        rw [he] at hf
        cases hf
      | none =>
        have ho : (ps f).isSome := by
          rw [hm]
          rfl
        obtain ⟨hi, hu⟩ := ih (f + 1) (update ps f (some pr))
        by_cases hq : q = f
        · -- the first page has been changed and is not visited again
          subst hq
          have hnot : ¬ (Span.Has ⟨q + 1, n⟩ q ∧
              AcceptedTo (update ps q (some pr)) re (q + 1) q) := by
            rintro ⟨⟨hl, -⟩, -⟩
            exact Nat.not_succ_le_self q hl
          rw [hu hnot, update_self]
          refine ⟨fun _ => rfl, fun h => ?_⟩
          refine absurd ⟨hs.2 (.inl rfl), fun p hp hpq => ?_⟩ h
          obtain rfl := le_antisymm hpq hp
          exact ⟨ho, he⟩
        · constructor
          · rintro ⟨hh, ha⟩
            have hr := (hs.1 hh).resolve_left hq
            exact hi ⟨hr, (AcceptedTo.update ho he).2 ha⟩
          · intro h
            have hnot : ¬ (Span.Has ⟨f + 1, n⟩ q ∧
                AcceptedTo (update ps f (some pr)) re (f + 1) q) := by
              rintro ⟨hr, ha⟩
              exact h ⟨hs.2 (.inr hr), (AcceptedTo.update ho he).1 ha⟩
            rw [hu hnot, update_of_ne hq]

theorem protectFrom_eq_none (re : ℕ → Option Errno) (pr : Prot) (n : ℕ) :
    ∀ f ps, (protectFrom re pr n f ps).1 = none ↔
      ∀ p, Span.Has ⟨f, n⟩ p → (ps p).isSome ∧ re p = none := by
  induction n with
  | zero =>
    intro f ps
    refine ⟨fun _ p hp => ?_, fun _ => rfl⟩
    dsimp only [Span.Has, Span.stop] at hp
    omega
  | succ n ih =>
    intro f ps
    have hs : ∀ p, Span.Has ⟨f, n + 1⟩ p ↔ p = f ∨ Span.Has ⟨f + 1, n⟩ p := by
      intro p
      dsimp only [Span.Has, Span.stop]
      omega
    unfold protectFrom
    cases hm : ps f with
    | none =>
      refine ⟨fun h => absurd h (by simp), fun h => ?_⟩
      have hf := (h f ((hs f).2 (.inl rfl))).1
      rw [hm] at hf
      cases hf
    | some o =>
      cases he : re f with
      | some e =>
        refine ⟨fun h => absurd h (by simp), fun h => ?_⟩
        have hf := (h f ((hs f).2 (.inl rfl))).2
        rw [he] at hf
        cases hf
      | none =>
        rw [ih]
        constructor
        · intro h p hp
          rcases (hs p).1 hp with rfl | hr
          · rw [hm]
            exact ⟨rfl, he⟩
          · have hl : f + 1 ≤ p := hr.1
            have ha := h p hr
            rwa [update_of_ne (by omega)] at ha
        · intro h p hr
          have hl : f + 1 ≤ p := hr.1
          rw [update_of_ne (by omega)]
          exact h p ((hs p).2 (.inr hr))

/-- Every page of the range can be changed. -/
def Accepted (pages : Pages) (refuse : ℕ → Option Errno) (start len : ℕ) : Prop :=
  start + len < 2 ^ 64 ∧
    ∀ p, (pageSpan start len).Has p → (pages p).isSome = true ∧ refuse p = none

/-- The pages that are changed before `mprotect` stops had the protection
before. -/
def Harmless (pages : Pages) (refuse : ℕ → Option Errno) (start len : ℕ) (prot : Prot) : Prop :=
  2 ^ 64 ≤ start + len ∨
    ∀ p, (pageSpan start len).Has p → AcceptedTo pages refuse (start / pageSize) p →
      pages p = some prot

variable {st len : ℕ}

theorem protect_eq_none {p : Prot} : (ps.protect re st len p).1 = none ↔ Accepted ps re st len := by
  unfold Pages.protect Accepted
  split
  · next h => exact ⟨fun hn => absurd hn (by simp), fun ha => absurd ha.1 (by omega)⟩
  · next h =>
    rw [protectFrom_eq_none]
    exact ⟨fun ha => ⟨by omega, ha⟩, fun ha => ha.2⟩

theorem Accepted.to {p : ℕ} (h : Accepted ps re st len) (hp : (pageSpan st len).Has p) :
    AcceptedTo ps re (st / pageSize) p :=
  fun q hq hqp => h.2 q ⟨hq, lt_of_le_of_lt hqp hp.2⟩

theorem protect_of_accepted {pr : Prot} (h : Accepted ps re st len) (p : ℕ) :
    (ps.protect re st len pr).2 p = if (pageSpan st len).Has p then some pr else ps p := by
  unfold Pages.protect
  rw [if_neg (not_le.2 h.1)]
  obtain ⟨hi, ho⟩ := protectFrom_apply re pr p (pageCount len) (st / pageSize) ps
  split
  · next hp => exact hi ⟨hp, h.to hp⟩
  · next hp => exact ho fun ha => hp ha.1

/-- An `mprotect` leaves all pages as they were exactly when it is harmless. -/
theorem protect_eq_self {prot : Prot} :
    (ps.protect re st len prot).2 = ps ↔ Harmless ps re st len prot := by
  unfold Pages.protect Harmless
  split
  · next h => exact ⟨fun _ => .inl h, fun _ => rfl⟩
  next h =>
  have ha := fun p => protectFrom_apply re prot p (pageCount len) (st / pageSize) ps
  constructor
  · intro hs
    refine .inr fun p hp hc => ?_
    have hp' := (ha p).1 ⟨hp, hc⟩
    rwa [hs] at hp'
  · rintro (hw | hh)
    · exact absurd hw h
    · funext p
      by_cases hp : (pageSpan st len).Has p ∧ AcceptedTo ps re (st / pageSize) p
      · rw [(ha p).1 hp, hh p hp.1 hp.2]
      · exact (ha p).2 hp

/-! ### The range of a call -/

/-- Some of the `size` bytes from `base` on are on the page. -/
def Touches (base size p : ℕ) : Prop := p * pageSize < base + size ∧ base < (p + 1) * pageSize

instance (base size p : ℕ) : Decidable (Touches base size p) := inferInstanceAs (Decidable (_ ∧ _))

/-- The number of bytes that `mprotect` is asked for does not wrap around. -/
def NoWrap (base size : UInt64) : Prop := size.toNat + base.toNat % pageSize + 4095 < 2 ^ 64

instance (base size : UInt64) : Decidable (NoWrap base size) :=
  inferInstanceAs (Decidable (_ < _))

theorem toNat_alignDownToPage (b : UInt64) :
    (alignDownToPage b).toNat = b.toNat / pageSize * pageSize :=
  toNat_roundDown (by decide) b

variable {base b size si : UInt64}

theorem toNat_protectSize (h : NoWrap b si) : (protectSize b si).toNat =
      (si.toNat + b.toNat % pageSize + 4095) / pageSize * pageSize := by
  unfold NoWrap at h
  have hd := toNat_alignDownToPage b
  have hl : (alignDownToPage b).toNat ≤ b.toNat := by
    rw [hd]
    exact Nat.div_mul_le_self _ _
  have hh : (b - alignDownToPage b).toNat = b.toNat % pageSize := by
    rw [UInt64.toNat_sub_of_le _ _ (UInt64.le_iff_toNat_le.2 hl), hd]
    unfold pageSize
    omega
  have hs : (si + (b - alignDownToPage b)).toNat = si.toNat + b.toNat % pageSize := by
    rw [UInt64.toNat_add, hh, Nat.mod_eq_of_lt (by omega)]
  unfold protectSize alignToPage
  rw [toNat_roundUp_of_lt (by decide) (by rw [hs]; exact h), hs]
  rfl

theorem has_pageSpan_iff_touches (hs : si ≠ 0) (h : NoWrap b si) (p : ℕ) :
    (pageSpan (alignDownToPage b).toNat (protectSize b si).toNat).Has p ↔
      Touches b.toNat si.toNat p := by
  have hp : si.toNat ≠ 0 := fun hz => hs (UInt64.toNat_inj.1 hz)
  rw [toNat_alignDownToPage, toNat_protectSize h]
  dsimp only [pageSpan, pageCount, Span.Has, Span.stop, Touches, pageSize]
  omega

theorem bytes_iff_touches (hs : si ≠ 0) (h : NoWrap b si) (a : ℕ) : (alignDownToPage b).toNat ≤ a ∧
        a < (alignDownToPage b).toNat + (protectSize b si).toNat ↔
      Touches b.toNat si.toNat (a / pageSize) := by
  have hp : si.toNat ≠ 0 := fun hz => hs (UInt64.toNat_inj.1 hz)
  rw [toNat_alignDownToPage, toNat_protectSize h]
  unfold Touches pageSize
  omega

theorem touches_of_wrap (h : ¬ NoWrap b si) : Touches b.toNat si.toNat (2 ^ 52 - 1) := by
  have hb := b.toNat_lt
  unfold NoWrap pageSize at h
  unfold Touches pageSize
  omega

/-! ### The records of an allocation -/

/-- The state and the protection that an allocation has for a byte. -/
def recordedAt (s : AllocationSlot) (a : ℕ) : Option (UInt32 × UInt32) :=
  (findAllocationRegion s a).map fun r => (r.state, r.protect)

variable {r : AllocationRegion}

theorem tile_unique {lo hi o : ℕ} {rs : List AllocationRegion}
    (h : Tiles lo hi (rs.map AllocationRegion.span)) {r' : AllocationRegion}
    (hr : r ∈ rs) (hr' : r' ∈ rs) (ho : r.span.Has o) (ho' : r'.span.Has o) : r = r' := by
  have ha := pairwise_map.1 h.pairwise_apart
  by_contra hn
  have hm := ha.forall hr hr' hn
  exact hm.not_has ho ho'

variable {s : AllocationSlot}
variable {a : ℕ}

theorem recordedAt_of_mem
    (ht : Tiles 0 s.size (s.regions.map AllocationRegion.span)) (ha : s.span.Has a)
    (hr : r ∈ s.regions) (hs : r.span.Has (a - s.address)) :
    recordedAt s a = some (r.state, r.protect) := by
  have hl : s.address ≤ a := ha.1
  have hi : a < s.address + s.size := ha.2
  have hh : (r.offset ≤ a - s.address && a - s.address - r.offset < r.size) := by
    dsimp only [Span.Has, AllocationRegion.span, Span.stop] at hs
    rw [Bool.and_eq_true, decide_eq_true_eq, decide_eq_true_eq]
    omega
  unfold recordedAt
  cases hf : findAllocationRegion s a with
  | some r' =>
    obtain ⟨hr', -, -, hh'⟩ := findAllocationRegion_some hf
    rw [tile_unique ht hr hr' hs hh']
    rfl
  | none =>
    unfold findAllocationRegion at hf
    rw [if_neg (by omega), find?_eq_none] at hf
    exact absurd hh (hf r hr)

theorem exists_region (hi : SlotInv s) (hv : s.view = false)
    (ha : s.span.Has a) : ∃ r ∈ s.regions, r.span.Has (a - s.address) := by
  have hl : s.address ≤ a := ha.1
  have hh : a < s.address + s.size := ha.2
  obtain ⟨sp, hp, hs⟩ := (hi.tiles hv).exists_has (a := a - s.address) (Nat.zero_le _)
    (by omega)
  obtain ⟨r, hr, rfl⟩ := mem_map.1 hp
  exact ⟨r, hr, hs⟩

/-- A piece of a region has the new protection inside of the range and the old
one outside. -/
theorem protect_splitRegion {off : ℕ} {p : UInt32} {r' : AllocationRegion}
    (h : r' ∈ splitRegion off st p r) {o : ℕ} (ho : r'.span.Has o) :
    r'.protect = if off ≤ o ∧ o < st then p else r.protect := by
  dsimp only [AllocationRegion.span, Span.Has, Span.stop] at ho
  dsimp only [splitRegion] at h
  split at h
  · obtain rfl := mem_singleton.1 h
    rw [if_neg (by omega)]
  simp only [mem_append, mem_singleton] at h
  rcases h with (h | rfl) | h
  · split at h
    · obtain rfl := mem_singleton.1 h
      dsimp only at ho
      rw [if_neg (by omega)]
    · cases h
  · dsimp only at ho
    rw [if_pos (by omega)]
  · split at h
    · obtain rfl := mem_singleton.1 h
      dsimp only at ho
      rw [if_neg (by omega)]
    · cases h

/-- **The records after a change of protection.** -/
theorem recordedAt_build (hi : SlotInv s) (hv : s.view = false)
    {o si : ℕ} {p : UInt32} {u : List AllocationRegion}
    (hb : buildAllocationProtection s o si p = some u) (hr : r ∈ s.regions)
    (hs : r.state = kMemCommit) (ha : s.span.Has a) :
    recordedAt (s.reprotect u) a =
      if o ≤ a - s.address ∧ a - s.address < o + si then some (kMemCommit, p)
      else recordedAt s a := by
  have hi' := hi.reprotect hv hr hs hb
  have hc := ((hi.states hv).committed hr hs).2
  obtain ⟨ho, -, rfl⟩ := buildAllocationProtection_some hb
  obtain ⟨r₀, hr₀, hh⟩ := exists_region hi hv ha
  have hold := recordedAt_of_mem (hi.tiles hv) ha hr₀ hh
  -- the piece of the region that has the byte
  have hsi : 0 < r₀.size := ((hi.tiles hv).bounds (mem_map_of_mem hr₀)).2.2
  have he : Tiles r₀.offset (r₀.offset + r₀.size)
      ((splitRegion o (o + si) p r₀).map AllocationRegion.span) :=
    tiles_splitRegion hsi (by omega)
  obtain ⟨sp, hsp, hn⟩ := he.exists_has hh.1 hh.2
  obtain ⟨pi, hp, rfl⟩ := mem_map.1 hsp
  have hm : pi ∈ s.regions.flatMap (splitRegion o (o + si) p) := mem_flatMap.2 ⟨r₀, hr₀, hp⟩
  have hsa : (s.reprotect (s.regions.flatMap (splitRegion o (o + si) p))).span.Has a := ha
  rw [recordedAt_of_mem (hi'.tiles hv) hsa hm hn, hold, state_splitRegion hp,
    hc r₀ hr₀, protect_splitRegion hp hn]
  split <;> rfl

/-! ### What a call promises -/

/-- A live allocation whose regions are all committed. -/
def AllocationSlot.Committed (s : AllocationSlot) : Prop :=
  s.live = true ∧ s.view = false ∧ ∀ r ∈ s.regions, r.state = kMemCommit

/-- What a success makes of a slot. -/
structure SlotProtected (base size : ℕ) (newProtect : UInt32) (s s' : AllocationSlot) : Prop where
  mapping : s'.mapping = s.mapping
  recorded : s.Committed → ∀ a, s.span.Has a → recordedAt s' a =
    if Touches base size (a / pageSize) then some (kMemCommit, newProtect) else recordedAt s a
  same : (¬ s.Committed ∨ ∀ a, s.span.Has a → ¬ Touches base size (a / pageSize)) → s' = s

/-- The touched pages are in no live slot. -/
def OutsideLive (vm : VirtualMemory) (base size : ℕ) : Prop :=
  ∀ s ∈ vm.slots, s.live = true → ∀ p, Touches base size p → ¬ s.pages.Has p

/-- What a success promises. -/
structure ProtectApplied (base size : ℕ) (newProtect : UInt32) (vm vm' : VirtualMemory) :
    Prop where
  pages : ∀ p, vm'.pages p =
    if Touches base size p then some (protToHost newProtect) else vm.pages p
  recorded : List.Forall₂ (SlotProtected base size newProtect) vm.slots vm'.slots
  place : (∃ s ∈ vm.slots, s.Committed ∧ ∀ p, Touches base size p → s.pages.Has p) ∨
    OutsideLive vm base size

/-- What a failure promises. -/
def ProtectKept (vm vm' : VirtualMemory) : Prop := vm'.slots = vm.slots ∧ vm'.pages = vm.pages

/-- The promise of `NtProtectVirtualMemory`. -/
def ProtectOutcome (base size : UInt64) (newProtect : UInt32) (vm : VirtualMemory)
    (result : NtProtectResult) : Prop :=
  (result.status = .success → ProtectApplied base.toNat size.toNat newProtect vm result.vm) ∧
    (result.status ≠ .success → ProtectKept vm result.vm)

/-- The promise of `VirtualProtect`: when it returns 0, no page has changed its
protection. -/
def VirtualProtectOutcome (base size : UInt64) (newProtect : UInt32) (vm : VirtualMemory)
    (result : Bool × VirtualMemory) : Prop :=
  (result.1 = true → ProtectApplied base.toNat size.toNat newProtect vm result.2) ∧
    (result.1 = false → result.2.pages = vm.pages)

/-! ### When a call gets to the host -/

/-- The allocation that the table finds for the rounded range. -/
def rangeAllocation (vm : VirtualMemory) (base size : UInt64) : Option ℕ :=
  findPrivateAllocation vm.slots (alignDownToPage base).toNat (protectSize base size).toNat

/-- The checks before `mprotect` are passed. -/
structure ReachesHost (host : HostAnswers) (base size : UInt64) (newProtect : UInt32)
    (vm : VirtualMemory) : Prop where
  nonnull : base ≠ 0
  nonempty : size ≠ 0
  valid : isValidProtect newProtect = true
  tracked : ∀ (i : ℕ) (s : AllocationSlot), rangeAllocation vm base size = some i →
    vm.slots[i]? = some s →
    s.Committed ∧ (protectSize base size).toNat ≠ 0 ∧ host.regionMemory = true
  untracked : rangeAllocation vm base size = none →
    ∀ s ∈ vm.slots, s.view = false → containsRange s base.toNat 1 = false

/-- `mprotect` can change every page that it is asked for. -/
def HostAccepts (host : HostAnswers) (base size : UInt64) (vm : VirtualMemory) : Prop :=
  Accepted vm.pages host.refuse (alignDownToPage base).toNat (protectSize base size).toNat

/-- `mprotect` changes nothing before it stops. -/
def HostHarmless (host : HostAnswers) (base size : UInt64) (newProtect : UInt32)
    (vm : VirtualMemory) : Prop :=
  Harmless vm.pages host.refuse (alignDownToPage base).toNat (protectSize base size).toNat
    (protToHost newProtect)

/-- How a call ends that has got to `mprotect`, with the slots of a success. -/
structure HostOutcome (host : HostAnswers) (start len : ℕ) (prot : Prot) (vm : VirtualMemory)
    (slots : List AllocationSlot) (result : NtProtectResult) : Prop where
  pages : result.vm.pages = (vm.pages.protect host.refuse start len prot).2
  accepted : Accepted vm.pages host.refuse start len →
    result.status = .success ∧ result.vm.slots = slots
  refused : ¬ Accepted vm.pages host.refuse start len →
    result.status ≠ .success ∧ result.vm.slots = vm.slots

theorem protectStatus_ne_success (e : Errno) : protectStatus e ≠ .success := by
  cases e <;> simp [protectStatus]

theorem exists_build (hi : SlotInv s) (hv : s.view = false)
    {offset si : ℕ} (hp : 0 < si) (hf : offset + si ≤ s.size) (p : UInt32) :
    ∃ updated, buildAllocationProtection s offset si p = some updated := by
  have hb : ∀ r ∈ s.regions, r.offset + r.size ≤ s.size := fun r hr =>
    ((hi.tiles hv).bounds (mem_map_of_mem hr)).2.1
  obtain ⟨sp, hs, ha⟩ := (hi.tiles hv).exists_has (a := offset) (Nat.zero_le _) (by omega)
  obtain ⟨r, hr, rfl⟩ := mem_map.1 hs
  have hl : r.offset ≤ offset := ha.1
  have hh : offset < r.offset + r.size := ha.2
  unfold buildAllocationProtection
  rw [if_neg (by omega), if_neg, if_neg]
  · exact ⟨_, rfl⟩
  · -- the region of the first byte is changed
    rw [all_eq_true]
    intro h
    have hr' := h r hr
    rw [Bool.or_eq_true, decide_eq_true_eq, decide_eq_true_eq] at hr'
    omega
  · rw [any_eq_true]
    rintro ⟨r', hr', h⟩
    have he := hb r' hr'
    rw [Bool.or_eq_true, decide_eq_true_eq, decide_eq_true_eq] at h
    omega

variable {vm : VirtualMemory}

theorem rangeAllocation_some {i : ℕ} (h : rangeAllocation vm b si = some i) :
    ∃ s, vm.slots[i]? = some s ∧ s.view = false ∧ s.address ≠ 0 ∧
      s.address ≤ (alignDownToPage b).toNat ∧
      (alignDownToPage b).toNat + (protectSize b si).toNat ≤ s.address + s.size := by
  obtain ⟨s, hs, hm, -⟩ := findIdx?_some h
  rw [Bool.and_eq_true, Bool.not_eq_true', containsRange_iff] at hm
  exact ⟨s, hs, hm.1, hm.2.1, hm.2.2.2.2.1, hm.2.2.2.2.2⟩

/-- Both ends of a call publish the result of `mprotect` in the same way. -/
theorem hostOutcome_protect (host : HostAnswers) (st len : ℕ) (p : Prot)
    (vm : VirtualMemory) (ss : List AllocationSlot) (o : UInt32) (si a : UInt64) :
    HostOutcome host st len p vm ss (match vm.pages.protect host.refuse st len p with
      | (some e, ps) => ⟨protectStatus e, 0, si, { vm with pages := ps }⟩
      | (none, ps) => ⟨.success, o, a, { vm with pages := ps, slots := ss }⟩) := by
  have hn : (vm.pages.protect host.refuse st len p).1 = none ↔
      Accepted vm.pages host.refuse st len := protect_eq_none
  cases heq : vm.pages.protect host.refuse st len p with
  | mk ans ps =>
    rw [heq] at hn
    cases ans with
    | some e =>
      refine ⟨by rw [heq], fun h => ?_, fun _ => ⟨protectStatus_ne_success e, rfl⟩⟩
      exact absurd (hn.2 h) (by simp)
    | none =>
      refine ⟨by rw [heq], fun _ => ⟨rfl, rfl⟩, fun h => ?_⟩
      exact absurd (hn.1 rfl) h

theorem protectTracked_cases {i : ℕ}
    (hs : vm.slots[i]? = some s) (hi : SlotInv s) (hv : s.view = false)
    (hu : s.address ≠ 0) (host : HostAnswers) {start : ℕ} (si : UInt64) {a : UInt64}
    (np : UInt32) (hl : s.address ≤ start) (hh : start + a.toNat ≤ s.address + s.size) :
    ((s.Committed ∧ a.toNat ≠ 0 ∧ host.regionMemory) ∧
      ∃ u, buildAllocationProtection s (start - s.address) a.toNat np =
          some u ∧ HostOutcome host start a.toNat (protToHost np) vm
          (vm.slots.set i (s.reprotect u)) (protectTracked host i start si a np vm)) ∨
    (¬ (s.Committed ∧ a.toNat ≠ 0 ∧ host.regionMemory) ∧
      (protectTracked host i start si a np vm).status ≠ .success ∧
      (protectTracked host i start si a np vm).vm = vm) := by
  unfold protectTracked
  rw [getD_of_getElem? hs]
  dsimp only
  split
  · next he =>
    refine .inr ⟨fun h => ?_, by simp, rfl⟩
    have hsp : s.span.Has start := ⟨hl, show start < s.address + s.size by omega⟩
    obtain ⟨r, hr, hha⟩ := exists_region hi hv hsp
    have hrec := recordedAt_of_mem (hi.tiles hv) hsp hr hha
    unfold recordedAt at hrec
    rw [he] at hrec
    cases hrec
  · next r he =>
    obtain ⟨hme, -, -, -⟩ := findAllocationRegion_some he
    split
    · next ht => exact .inr ⟨fun h => ht (h.1.2.2 r hme), by simp, rfl⟩
    next ht =>
    rw [ne_eq, not_not] at ht
    obtain ⟨hc, ha⟩ := (hi.states hv).committed hme ht
    have hco : s.Committed := by
      refine ⟨AllocationSlot.live_iff.2 ⟨hu, .inr ?_⟩, hv, ha⟩
      rcases hc with h | h <;> rw [h] <;> decide
    split
    · next hb =>
      refine .inr ⟨fun h => ?_, by simp, rfl⟩
      obtain ⟨u, hp⟩ := exists_build hi hv (pos_of_ne_zero h.2.1)
        (show start - s.address + a.toNat ≤ s.size by omega) np
      rw [hb] at hp
      cases hp
    · next u hb =>
      obtain ⟨ho, -, -⟩ := buildAllocationProtection_some hb
      split
      · next hm =>
        refine .inr ⟨fun h => ?_, by simp, rfl⟩
        rw [h.2.2] at hm
        cases hm
      · next hm =>
        rw [Bool.not_eq_true', Bool.not_eq_false] at hm
        exact .inl ⟨⟨hco, ne_of_gt ho, hm⟩, u, hb,
          hostOutcome_protect host start _ _ vm _ _ si a⟩

/-- The slots that a success leaves: those of before, or the allocation of the
range with its new regions. -/
def RecordedSlots (vm : VirtualMemory) (base size : UInt64) (newProtect : UInt32)
    (slots : List AllocationSlot) : Prop :=
  (rangeAllocation vm base size = none ∧ slots = vm.slots) ∨
    ∃ (i : ℕ) (s : AllocationSlot) (updated : List AllocationRegion),
      rangeAllocation vm base size = some i ∧ vm.slots[i]? = some s ∧ s.Committed ∧
      buildAllocationProtection s ((alignDownToPage base).toNat - s.address)
        (protectSize base size).toNat newProtect = some updated ∧
      slots = vm.slots.set i (s.reprotect updated)

/-- **What `NtProtectVirtualMemory` does**: it gets to `mprotect`, or it fails
and changes nothing. -/
theorem ntProtect_cases (hin : TableInv vm) (host : HostAnswers)
    (ms : List MapsEntry) (b si : UInt64) (np : UInt32) :
    (ReachesHost host b si np vm ∧ ∃ ss, RecordedSlots vm b si np ss ∧
        HostOutcome host (alignDownToPage b).toNat (protectSize b si).toNat (protToHost np) vm ss
          (ntProtectVirtualMemory host ms b si np vm)) ∨
    (¬ ReachesHost host b si np vm ∧ (ntProtectVirtualMemory host ms b si np vm).status ≠ .success ∧
      (ntProtectVirtualMemory host ms b si np vm).vm = vm) := by
  unfold ntProtectVirtualMemory
  split
  · next ha =>
    refine .inr ⟨fun h => ?_, by simp, rfl⟩
    rcases ha with hb | hsi | hv
    · exact h.nonnull hb
    · exact h.nonempty hsi
    · rw [h.valid] at hv
      cases hv
  · next ha =>
    rw [not_or, not_or, Bool.not_eq_false] at ha
    obtain ⟨hb, hsi, hv⟩ := ha
    dsimp only
    split
    · next i hf =>
      have hr : rangeAllocation vm b si = some i := hf
      obtain ⟨s, hs, hvi, hu, hl, hh⟩ := rangeAllocation_some hr
      have hsn := hin.slot s (mem_of_getElem? hs) hu
      rcases protectTracked_cases hs hsn hvi hu host si np hl hh with
        ⟨he, updated, hbu, hou⟩ | ⟨he, hfa⟩
      · refine .inl ⟨⟨hb, hsi, hv, fun j t hj ht => ?_, fun h => ?_⟩, _,
          .inr ⟨i, s, updated, hr, hs, he.1, hbu, rfl⟩, hou⟩
        · cases hr.symm.trans hj
          cases hs.symm.trans ht
          exact he
        · rw [hr] at h
          cases h
      · exact .inr ⟨fun h => he (h.tracked i s hr hs), hfa⟩
    · next hf =>
      have hr : rangeAllocation vm b si = none := hf
      split
      · next hn =>
        refine .inr ⟨fun h => ?_, by simp, rfl⟩
        rw [any_eq_true] at hn
        obtain ⟨s, hs, hm⟩ := hn
        rw [Bool.and_eq_true, Bool.not_eq_true'] at hm
        have ho := h.untracked hr s hs hm.1
        rw [hm.2] at ho
        cases ho
      · next hn =>
        refine .inl ⟨⟨hb, hsi, hv, fun i s hi _ => ?_, fun _ s hs hvi => ?_⟩, vm.slots,
          .inl ⟨hr, rfl⟩, hostOutcome_protect host _ _ _ vm vm.slots _ si _⟩
        · rw [hr] at hi
          cases hi
        · rw [Bool.eq_false_iff]
          intro hc
          refine hn (any_eq_true.2 ⟨s, hs, ?_⟩)
          rw [hvi, hc]
          rfl

/-! ### When the promise is kept -/

/-- The rounded range is that of the caller, and one that is outside every
allocation runs into none. -/
def RangeFits (base size : UInt64) (vm : VirtualMemory) : Prop :=
  NoWrap base size ∧ (rangeAllocation vm base size = none → OutsideLive vm base.toNat size.toNat)

/-- `NtProtectVirtualMemory` keeps its promise: where the call gets to
`mprotect`, either it can change all of a range that fits, or it changes
nothing. -/
def NtProtectSound (host : HostAnswers) (base size : UInt64) (newProtect : UInt32)
    (vm : VirtualMemory) : Prop :=
  ReachesHost host base size newProtect vm →
    (HostAccepts host base size vm → RangeFits base size vm) ∧
    (¬ HostAccepts host base size vm → HostHarmless host base size newProtect vm)

variable {newProtect np : UInt32}

theorem protectApplied_of_fits (hin : TableInv vm) {host : HostAnswers} (hz : si ≠ 0)
    {ss : List AllocationSlot} {rs : NtProtectResult} (hrec : RecordedSlots vm b si np ss)
    (hou : HostOutcome host (alignDownToPage b).toNat (protectSize b si).toNat
      (protToHost np) vm ss rs) (hac : HostAccepts host b si vm) (hf : RangeFits b si vm) :
    ProtectApplied b.toNat si.toNat np vm rs.vm := by
  have hp := has_pageSpan_iff_touches hz hf.1
  have hb := bytes_iff_touches hz hf.1
  have hsl := (hou.accepted hac).2
  have happ : ∀ p, rs.vm.pages p =
      if Touches b.toNat si.toNat p then some (protToHost np) else vm.pages p := by
    intro p
    rw [hou.pages, protect_of_accepted hac]
    simp [hp]
  rcases hrec with ⟨hn, rfl⟩ | ⟨i, s, u, hso, hs, hc, hbu, rfl⟩
  · -- outside of the allocations no record changes
    have hot := hf.2 hn
    refine ⟨happ, ?_, .inr hot⟩
    rw [hsl, forall₂_same]
    intro s hs
    refine ⟨rfl, fun hc a ha => ?_, fun _ => rfl⟩
    have hi := hin.slot s hs (AllocationSlot.live_iff.1 hc.1).1
    rw [if_neg]
    exact fun ho => hot s hs hc.1 _ ho (has_pageSpan hi.aligned ha)
  · obtain ⟨t, ht, -, hu, hw, hh⟩ := rangeAllocation_some hso
    cases hs.symm.trans ht
    have hm := mem_of_getElem? hs
    have hi := hin.slot s hm hu
    have hv := hc.2.1
    obtain ⟨r, hr, -⟩ := exists_region hi hv
      (a := s.address) ⟨le_refl _, Nat.lt_add_of_pos_right hi.positive⟩
    have hst := hc.2.2 r hr
    -- the touched pages are among those of the allocation
    have his : ∀ a, Touches b.toNat si.toNat (a / pageSize) → s.span.Has a := by
      intro a ho
      obtain ⟨hfi, hl⟩ := (hb a).2 ho
      exact ⟨le_trans hw hfi, lt_of_lt_of_le hl hh⟩
    refine ⟨happ, ?_, .inl ⟨s, hm, hc, fun p ho => ?_⟩⟩
    · rw [hsl, forall₂_iff_get]
      refine ⟨(length_set ..).symm, fun j hj hj' => ?_⟩
      rw [get_eq_getElem, get_eq_getElem, getElem_set]
      split
      · next hij =>
        subst hij
        obtain rfl : vm.slots[i] = s := Option.some.inj ((getElem?_eq_getElem hj).symm.trans hs)
        refine ⟨rfl, fun _ a ha => ?_, fun hno => ?_⟩
        · rw [recordedAt_build hi hv hbu hr hst ha]
          have ha' : vm.slots[i].address ≤ a := ha.1
          have hra := hb a
          congr 1
          rw [← hra]
          refine propext ⟨fun h => ?_, fun h => ?_⟩ <;> omega
        · -- the first byte of the range is touched
          rcases hno with hno | hno
          · exact absurd hc hno
          have ho := (hb (alignDownToPage b).toNat).1 ⟨le_refl _, by
              have := (buildAllocationProtection_some hbu).1
              omega⟩
          exact absurd ho (hno _ (his _ ho))
      · next hij =>
        refine ⟨rfl, fun hli a ha => ?_, fun _ => rfl⟩
        rw [if_neg]
        intro ho
        have hg := getElem?_eq_getElem hj
        have hap := hin.span_apart hij hs hg hc.1 hli.1
        exact hap.not_has (his a ho) ha
    · have hsa : Touches b.toNat si.toNat (p * pageSize / pageSize) := by
        rw [Nat.mul_div_cancel p (by decide)]
        exact ho
      have hha := has_pageSpan hi.aligned (his _ hsa)
      rwa [Nat.mul_div_cancel p (by decide)] at hha

theorem containsRange_of_touches (hn : SlotInv s) (hv : s.view = false)
    (hu : s.address ≠ 0) (hs : si ≠ 0) (hw : NoWrap b si)
    (hi : ∀ p, Touches b.toNat si.toNat p → s.pages.Has p) :
    containsRange s (alignDownToPage b).toNat (protectSize b si).toNat := by
  have ha := hn.aligned
  have hh := hn.whole hv
  have hp := has_pageSpan_iff_touches hs hw
  have ho : si.toNat ≠ 0 := fun hz => hs (UInt64.toNat_inj.1 hz)
  have ht := toNat_alignDownToPage b
  have he := toNat_protectSize hw
  -- the first page and the last one
  have hf := hi _ ((hp (b.toNat / pageSize)).1 (by
    unfold pageSpan pageCount Span.Has Span.stop pageSize at *
    dsimp only
    omega))
  have hl := hi _ ((hp (b.toNat / pageSize +
      (si.toNat + b.toNat % pageSize + 4095) / pageSize - 1)).1 (by
    unfold pageSpan pageCount Span.Has Span.stop pageSize at *
    dsimp only
    omega))
  rw [containsRange_iff]
  dsimp only [AllocationSlot.pages, pageSpan, pageCount, Span.Has, Span.stop, pageSize] at *
  omega

theorem fits_of_protectApplied {vm vm' : VirtualMemory} (hi : TableInv vm)
    {host : HostAnswers} (hsi : size ≠ 0)
    (hp : vm'.pages = (vm.pages.protect host.refuse (alignDownToPage base).toNat
      (protectSize base size).toNat (protToHost newProtect)).2)
    (ha : ProtectApplied base.toNat size.toNat newProtect vm vm') : RangeFits base size vm := by
  have hw : NoWrap base size := by
    by_contra hw
    -- no page can be changed at the end of the address space
    have hl := ha.pages (2 ^ 52 - 1)
    rw [if_pos (touches_of_wrap hw), hp] at hl
    have ho := isSome_protect vm.pages host.refuse (alignDownToPage base).toNat
      (protectSize base size).toNat (protToHost newProtect) (2 ^ 52 - 1)
    rw [hl, hi.user _ (by decide)] at ho
    cases ho
  refine ⟨hw, fun hn => ?_⟩
  rcases ha.place with ⟨s, hs, hc, hin⟩ | ht
  · -- the table would have found the allocation
    have hu := (AllocationSlot.live_iff.1 hc.1).1
    have hco := containsRange_of_touches (hi.slot s hs hu) hc.2.1 hu hsi hw hin
    have hno := findIdx?_eq_none_iff.1 hn s hs
    rw [hc.2.1, hco] at hno
    cases hno
  · exact ht

theorem ntProtect_iff (hi : TableInv vm) (host : HostAnswers)
    (ms : List MapsEntry) (b si : UInt64) (np : UInt32) :
    ProtectOutcome b si np vm (ntProtectVirtualMemory host ms b si np vm) ↔
    NtProtectSound host b si np vm := by
  rcases ntProtect_cases hi host ms b si np with
    ⟨hr, slots, hrec, ho⟩ | ⟨hr, hf, hv⟩
  · constructor
    · rintro ⟨hu, hfa⟩ -
      refine ⟨fun ha => ?_, fun he => ?_⟩
      · exact fits_of_protectApplied hi hr.nonempty ho.pages (hu (ho.accepted ha).1)
      · have hk := (hfa (ho.refused he).1).2
        rw [ho.pages] at hk
        exact protect_eq_self.1 hk
    · intro hs
      obtain ⟨hfi, hh⟩ := hs hr
      by_cases ha : HostAccepts host b si vm
      · refine ⟨fun _ => ?_, fun hn => absurd (ho.accepted ha).1 hn⟩
        exact protectApplied_of_fits hi hr.nonempty hrec ho ha (hfi ha)
      · refine ⟨fun h => absurd h (ho.refused ha).1, fun _ => ?_⟩
        refine ⟨(ho.refused ha).2, ?_⟩
        rw [ho.pages]
        exact protect_eq_self.2 (hh ha)
  · refine ⟨fun _ h => absurd h hr, fun _ => ⟨fun h => absurd h hf, fun _ => ?_⟩⟩
    rw [hv]
    exact ⟨rfl, rfl⟩

/-! ### `VirtualProtect` -/

/-- The pages when `mprotect` has changed all that it was asked for. -/
def changedPages (base size : UInt64) (newProtect : UInt32) (vm : VirtualMemory) : Pages := fun p =>
  if (pageSpan (alignDownToPage base).toNat (protectSize base size).toNat).Has p then
    some (protToHost newProtect)
  else vm.pages p

/-- All of these pages have the protection already. -/
def AlreadyProtected (base size : UInt64) (newProtect : UInt32) (vm : VirtualMemory) : Prop :=
  ∀ p, (pageSpan (alignDownToPage base).toNat (protectSize base size).toNat).Has p →
    vm.pages p = some (protToHost newProtect)

/-- `VirtualProtect` keeps its promise: as `NtProtectVirtualMemory`, and where
the old protection cannot be written after the change, nothing has changed. -/
def VirtualProtectSound (host : HostAnswers) (base size : UInt64) (newProtect : UInt32)
    (oldProtection : ℕ) (vm : VirtualMemory) : Prop :=
  oldProtection ≠ 0 → ReachesHost host base size newProtect vm →
    (HostAccepts host base size vm →
      if (changedPages base size newProtect vm).guestWritable oldProtection 4 = true then
        RangeFits base size vm
      else AlreadyProtected base size newProtect vm) ∧
    (¬ HostAccepts host base size vm → HostHarmless host base size newProtect vm)

theorem changedPages_eq {host : HostAnswers} (h : HostAccepts host b si vm) :
    (vm.pages.protect host.refuse (alignDownToPage b).toNat (protectSize b si).toNat
      (protToHost np)).2 = changedPages b si np vm :=
  funext fun p => protect_of_accepted h p

theorem changedPages_eq_self :
    changedPages b si np vm = vm.pages ↔ AlreadyProtected b si np vm := by
  constructor
  · intro h p hp
    have ha := congrFun h p
    unfold changedPages at ha
    rw [if_pos hp] at ha
    exact ha.symm
  · intro h
    funext p
    unfold changedPages
    split
    · next hp => exact (h p hp).symm
    · rfl

theorem virtualProtect_result (host : HostAnswers) (ms : List MapsEntry) (b si : UInt64)
    (np : UInt32) {o : ℕ} (hold : o ≠ 0) (vm : VirtualMemory) :
    let result := ntProtectVirtualMemory host ms b si np vm
    let virtual := virtualProtect host ms b si np o vm
    virtual.2.slots = result.vm.slots ∧ virtual.2.pages = result.vm.pages ∧ (virtual.1 ↔
        result.status = .success ∧ result.vm.pages.guestWritable o 4) := by
  unfold virtualProtect
  rw [if_neg hold]
  dsimp only
  cases (ntProtectVirtualMemory host ms b si np vm).status with
  | success =>
    dsimp only
    split
    · next hw => exact ⟨rfl, rfl, by simp [hw]⟩
    · next hw => exact ⟨rfl, rfl, by simp [hw]⟩
  | _ => exact ⟨rfl, rfl, by simp⟩

theorem ProtectApplied.congr {b si : ℕ} {vm vm' v'' : VirtualMemory}
    (h : ProtectApplied b si np vm vm') (hs : v''.slots = vm'.slots)
    (hp : v''.pages = vm'.pages) : ProtectApplied b si np vm v'' where
  pages := hp ▸ h.pages
  recorded := hs ▸ h.recorded
  place := h.place

theorem virtualProtect_iff (hv : TableInv vm) (host : HostAnswers)
    (ms : List MapsEntry) (b si : UInt64) (np : UInt32) (op : ℕ) :
    VirtualProtectOutcome b si np vm (virtualProtect host ms b si np op vm) ↔
    VirtualProtectSound host b si np op vm := by
  by_cases hold : op = 0
  · refine ⟨fun _ h => absurd hold h, fun _ => ?_⟩
    unfold VirtualProtectOutcome virtualProtect
    rw [if_pos hold]
    exact ⟨fun h => absurd h (by simp), fun _ => rfl⟩
  · obtain ⟨hl, hp, ht⟩ := virtualProtect_result host ms b si np hold vm
    unfold VirtualProtectOutcome VirtualProtectSound
    rw [hp, ← Bool.not_eq_true, ht]
    rcases ntProtect_cases hv host ms b si np with
      ⟨hr, slots, hrec, ho⟩ | ⟨hr, hf, hm⟩
    · by_cases ha : HostAccepts host b si vm
      · -- the old protection is written after the change
        have hc := ho.pages.trans (changedPages_eq ha)
        have hst := (ho.accepted ha).1
        rw [hst, hc, changedPages_eq_self]
        by_cases hw : (changedPages b si np vm).guestWritable op 4
        · simp only [if_pos hw]
          constructor
          · rintro ⟨hu, -⟩ - -
            refine ⟨fun _ => ?_, fun hn => absurd ha hn⟩
            exact fits_of_protectApplied hv hr.nonempty (hp.trans ho.pages)
              (hu ⟨trivial, hw⟩)
          · intro hs
            refine ⟨fun _ => ?_, fun hn => absurd ⟨trivial, hw⟩ hn⟩
            have hfi := (hs hold hr).1 ha
            exact (protectApplied_of_fits hv hr.nonempty hrec ho ha hfi).congr hl hp
        · simp only [if_neg hw]
          constructor
          · rintro ⟨-, hi⟩ - -
            exact ⟨fun _ => hi fun h => hw h.2, fun hn => absurd ha hn⟩
          · intro hs
            refine ⟨fun h => absurd h.2 hw, fun _ => ?_⟩
            exact (hs hold hr).1 ha
      · have hst := (ho.refused ha).1
        rw [ho.pages, protect_eq_self]
        constructor
        · rintro ⟨-, hi⟩ - -
          exact ⟨fun h => absurd h ha, fun _ => hi fun h => hst h.1⟩
        · intro hs
          refine ⟨fun h => absurd h.1 hst, fun _ => ?_⟩
          exact (hs hold hr).2 ha
    · refine ⟨fun _ _ h => absurd h hr, fun _ => ⟨fun h => absurd h.1 hf, fun _ => ?_⟩⟩
      rw [hm]

/-- **When the two functions keep their promise**, in every reachable state. -/
theorem protect_iff {vm : VirtualMemory} (hreach : MemoryReachable vm) (host : HostAnswers)
    (maps : List MapsEntry) (base size : UInt64) (newProtect : UInt32) (oldProtection : ℕ) :
    (ProtectOutcome base size newProtect vm
        (ntProtectVirtualMemory host maps base size newProtect vm) ↔
      NtProtectSound host base size newProtect vm) ∧
    (VirtualProtectOutcome base size newProtect vm
        (virtualProtect host maps base size newProtect oldProtection vm) ↔
      VirtualProtectSound host base size newProtect oldProtection vm) :=
  ⟨ntProtect_iff hreach.inv host maps base size newProtect,
    virtualProtect_iff hreach.inv host maps base size newProtect oldProtection⟩

/-- The page of an allocation is made read-only. -/
theorem protect_iff_onePage :
    (ntProtectVirtualMemory {} [] 0x10800 0x10 kPageReadOnly onePage).status = .success ∧
    ProtectOutcome 0x10800 0x10 kPageReadOnly onePage
      (ntProtectVirtualMemory {} [] 0x10800 0x10 kPageReadOnly onePage) := by
  have hs : (rangeAllocation onePage 0x10800 0x10).isSome = true := by decide +kernel
  have ha : HostAccepts {} 0x10800 0x10 onePage := by
    refine ⟨by decide, fun p hp => ⟨?_, rfl⟩⟩
    obtain rfl : p = 16 := by
      obtain ⟨hl, hh⟩ := hp
      have hl' : 16 ≤ p := hl
      have hh' : p < 17 := hh
      omega
    decide +kernel
  refine ⟨by decide +kernel, ?_⟩
  refine (protect_iff reachable_onePage {} [] 0x10800 0x10 kPageReadOnly 0).1.mpr fun _ => ?_
  refine ⟨fun _ => ⟨by decide, fun hn => ?_⟩, fun ho => absurd ha ho⟩
  rw [hn] at hs
  cases hs

/-- A range of `2 ^ 64 - 1` bytes is protected with success and nothing changes;
a page loses its protection although `VirtualProtect` returns 0. -/
theorem not_protectOutcome : (MemoryReachable (VirtualMemory.initial (fun _ => none) 0) ∧
      ¬ ProtectOutcome 0x10000 0xFFFFFFFFFFFFFFFF kPageReadOnly
        (VirtualMemory.initial (fun _ => none) 0)
        (ntProtectVirtualMemory {} [] 0x10000 0xFFFFFFFFFFFFFFFF kPageReadOnly
          (VirtualMemory.initial (fun _ => none) 0))) ∧
    (MemoryReachable onePage ∧ ¬ VirtualProtectOutcome 0x10000 0x1000 kPageReadOnly onePage
        (virtualProtect {} [] 0x10000 0x1000 kPageReadOnly 8 onePage)) := by
  refine ⟨⟨.initial _ _ fun _ _ => rfl, fun ho => ?_⟩, reachable_onePage, fun ho => ?_⟩
  · have hs : (ntProtectVirtualMemory {} [] 0x10000 0xFFFFFFFFFFFFFFFF kPageReadOnly
        (VirtualMemory.initial (fun _ => none) 0)).status = .success := by
      decide +kernel
    have hp := (ho.1 hs).pages 16
    have hk : (ntProtectVirtualMemory {} [] 0x10000 0xFFFFFFFFFFFFFFFF kPageReadOnly
        (VirtualMemory.initial (fun _ => none) 0)).vm.pages 16 = none := by
      decide +kernel
    rw [hk, if_pos (by decide)] at hp
    cases hp
  · have hf : (virtualProtect {} [] 0x10000 0x1000 kPageReadOnly 8 onePage).1 = false := by
      decide +kernel
    have hp := congrFun (ho.2 hf) 16
    have hc : (virtualProtect {} [] 0x10000 0x1000 kPageReadOnly 8 onePage).2.pages 16 ≠
        onePage.pages 16 := by
      decide +kernel
    exact hc hp

end TradutorLinux.Runtime
