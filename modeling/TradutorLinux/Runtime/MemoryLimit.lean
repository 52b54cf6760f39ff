import TradutorLinux.Runtime.LiveMappings
import Mathlib.Algebra.BigOperators.Group.List.Basic

/-!
# The memory limit under threads

`NtAllocateVirtualMemory` checks the limit of the guest twice: once before it
does anything, and once more, under the same lock as the change of the table,
after `mmap`.  The threads of a guest may be interleaved between the locked
sections.  The second check keeps the sum of the allocations below the limit; the
first one also refuses calls that add nothing to it.

## Main definitions

* `ThreadState`, `Section`, `stepThread`, `Threads`, `LimitRun`
* `Fits` — the condition under which the first check lets a commit pass.

## Main results

* `liveBytes_le_limit`, `limit_sound`
-/

namespace TradutorLinux.Runtime

open Function Option List

/-! ### The sum of the allocations -/

def AllocationSlot.weight (s : AllocationSlot) : ℕ :=
  if s.view = true ∨ s.address = 0 ∨ s.state = kMemFree then 0 else s.size

def liveBytes (slots : List AllocationSlot) : ℕ := (slots.map AllocationSlot.weight).sum

theorem liveBytes_cons (s : AllocationSlot) (slots : List AllocationSlot) :
    liveBytes (s :: slots) = s.weight + liveBytes slots := by
  simp [liveBytes]

theorem usedMemory_eq (ss : List AllocationSlot) : ∀ u, u ≤ 2 ^ 64 - 1 → usedMemory ss u =
      if u + liveBytes ss ≤ 2 ^ 64 - 1 then some (u + liveBytes ss) else none := by
  induction ss with
  | nil =>
    intro u hu
    exact (if_pos hu).symm
  | cons s ss ih =>
    intro u hu
    rw [liveBytes_cons]
    unfold usedMemory AllocationSlot.weight
    split
    · rw [ih u hu, zero_add]
    · split
      · rw [if_neg (by omega)]
      · rw [ih _ (by omega), add_assoc]

variable {vm : VirtualMemory}

/-- When the check lets a request pass. -/
theorem guestMemoryLimitExceeded_eq_false {r : ℕ} (hl : 0 < vm.limit) (hw : vm.limit < 2 ^ 64) :
    guestMemoryLimitExceeded vm r = false ↔ liveBytes vm.slots + r ≤ vm.limit := by
  unfold guestMemoryLimitExceeded
  rw [if_neg (Nat.ne_of_gt hl), usedMemory_eq vm.slots 0 (Nat.zero_le _), Nat.zero_add]
  by_cases hs : liveBytes vm.slots ≤ 2 ^ 64 - 1
  · rw [if_pos hs]
    rw [Bool.or_eq_false_iff, decide_eq_false_iff_not, decide_eq_false_iff_not]
    omega
  · rw [if_neg hs]
    constructor
    · intro h
      cases h
    · omega

variable {i : ℕ} {s : AllocationSlot}

theorem liveBytes_set {slots : List AllocationSlot} {t : AllocationSlot} (ht : slots[i]? = some t) :
    liveBytes (slots.set i s) + t.weight = liveBytes slots + s.weight := by
  induction slots generalizing i with
  | nil => simp at ht
  | cons u slots ih =>
    cases i with
    | zero =>
      cases ht
      rw [set_cons_zero, liveBytes_cons, liveBytes_cons]
      omega
    | succ i =>
      have hr := ih ht
      rw [set_cons_succ, liveBytes_cons, liveBytes_cons]
      omega

theorem liveBytes_set_le {ss : List AllocationSlot} {n : ℕ} {t : AllocationSlot}
    (ht : ss[i]? = some t) (hf : t.weight = 0) (hs : s.weight ≤ n) :
    liveBytes (ss.set i s) ≤ liveBytes ss + n := by
  have he := liveBytes_set (s := s) ht
  omega

theorem weight_of_not_live (h : s.live = false) : s.weight = 0 := by
  unfold AllocationSlot.weight
  split
  · rfl
  · next hc =>
    rw [not_or, not_or, Bool.not_eq_true] at hc
    rw [AllocationSlot.live_iff.2 ⟨hc.2.1, .inr hc.2.2⟩] at h
    cases h

theorem liveBytes_drops {f : AllocationSlot → AllocationSlot} (hd : Drops f)
    (slots : List AllocationSlot) : liveBytes (slots.map f) = liveBytes slots := by
  induction slots with
  | nil => rfl
  | cons s slots ih =>
    rw [map_cons, liveBytes_cons, liveBytes_cons, ih]
    rcases hd s with heq | ⟨heq, he⟩
    · rw [heq]
    · rw [heq, weight_of_not_live he]
      rfl

@[simp] theorem slots_munmap (vm : VirtualMemory) (host : HostAnswers) (s le : ℕ) :
    (vm.munmap host s le).slots = vm.slots := by
  unfold VirtualMemory.munmap
  split <;> rfl

@[simp] theorem limit_munmap (vm : VirtualMemory) (host : HostAnswers) (s le : ℕ) :
    (vm.munmap host s le).limit = vm.limit := by
  unfold VirtualMemory.munmap
  split <;> rfl

/-! ### The locked sections -/

attribute [local simp] kMemFree

theorem liveBytes_commitReservation (host : HostAnswers) (b a : ℕ) (p : UInt32)
    (vm : VirtualMemory) :
    liveBytes (commitReservation host b a p vm).2.slots = liveBytes vm.slots ∧
      (commitReservation host b a p vm).2.limit = vm.limit := by
  unfold commitReservation
  split
  · exact ⟨rfl, rfl⟩
  next i hf =>
  obtain ⟨t, ht, hm, -⟩ := findIdx?_some hf
  rw [Bool.and_eq_true, Bool.not_eq_true', containsRange_iff] at hm
  obtain ⟨hv, ha, -⟩ := hm
  rw [getD_of_getElem? ht]
  dsimp only
  split
  · exact ⟨rfl, rfl⟩
  next hb =>
  rw [not_or, not_or, not_not, not_not, not_not] at hb
  split
  · exact ⟨rfl, rfl⟩
  refine ⟨?_, rfl⟩
  have hs := liveBytes_set (s := t.commit p) ht
  have hw : (t.commit p).weight = t.weight := by
    have hr : ¬ (t.view ∨ t.address = 0 ∨ t.state = kMemFree) := by
      rw [hv, hb.2.1]
      simp [ha, kMemReserve]
    have hc : ¬ ((t.commit p).view ∨ (t.commit p).address = 0 ∨
        (t.commit p).state = kMemFree) := by
      change ¬ (t.view ∨ t.address = 0 ∨ kMemCommit = kMemFree)
      rw [hv]
      simp [ha, kMemCommit]
    unfold AllocationSlot.weight
    rw [if_neg hr, if_neg hc]
    rfl
  dsimp only
  omega

theorem liveBytes_insertAllocation (host : HostAnswers) (r aligned : ℕ)
    (ay p : UInt32) (hl : 0 < vm.limit)
    (hw : vm.limit < 2 ^ 64) (hle : liveBytes vm.slots ≤ vm.limit) :
    liveBytes (insertAllocation host r aligned ay p vm).2.slots ≤ vm.limit ∧
      (insertAllocation host r aligned ay p vm).2.limit = vm.limit := by
  have hd := liveBytes_drops (drops_overlapsReleased r aligned) vm.slots
  unfold insertAllocation
  split
  · rw [slots_munmap, limit_munmap]
    exact ⟨hle, rfl⟩
  next he =>
  rw [Bool.not_eq_true, guestMemoryLimitExceeded_eq_false hl hw] at he
  dsimp only
  split
  · rw [slots_munmap, limit_munmap]
    dsimp only
    exact ⟨by omega, rfl⟩
  · next i hi =>
    obtain ⟨t, ht, ha, -⟩ := findIdx?_some hi
    have hf := weight_of_not_live (AllocationSlot.not_live_of_available ha)
    rw [← hd] at hle he
    split
    · refine ⟨le_trans (liveBytes_set_le ht hf ?_) he, rfl⟩
      unfold AllocationSlot.weight
      split
      · exact Nat.zero_le _
      · exact le_refl _
    · rw [slots_munmap, limit_munmap]
      refine ⟨le_trans (liveBytes_set_le (n := 0) ht hf ?_) hle, rfl⟩
      -- a slot without an address counts for nothing
      exact le_of_eq (if_pos (.inr (.inl rfl)))

/-- Freeing adds nothing. -/
theorem liveBytes_ntFreeVirtualMemory (host : HostAnswers) (r : NtRegion)
    (ft : UInt32) (vm : VirtualMemory) :
    liveBytes (ntFreeVirtualMemory host r ft vm).2.slots ≤ liveBytes vm.slots ∧
      (ntFreeVirtualMemory host r ft vm).2.limit = vm.limit := by
  unfold ntFreeVirtualMemory
  split
  · exact ⟨le_refl _, rfl⟩
  split
  · exact ⟨le_refl _, rfl⟩
  next i hf =>
  obtain ⟨t, ht, -, -⟩ := findIdx?_some hf
  rw [getD_of_getElem? ht]
  have hs := liveBytes_set (s := t.release) ht
  have hw : t.release.weight = 0 := if_pos (.inr (.inr rfl))
  dsimp only
  refine ⟨by omega, ?_⟩
  rw [limit_munmap]

/-! ### Threads -/

/-- The arguments of `NtAllocateVirtualMemory`. -/
structure AllocateCall where
  region : NtRegion
  allocationType : UInt32
  protect : UInt32
deriving DecidableEq, Repr

namespace AllocateCall

def aligned (call : AllocateCall) : ℕ := (alignToPage call.region.size).toNat

def commitsReservation (call : AllocateCall) : Bool :=
  Runtime.commitsReservation call.region.base call.allocationType

def accepted (call : AllocateCall) : Bool :=
  allocateAccepts call.region.size call.allocationType call.protect

end AllocateCall

/-- Where a thread stands: outside a call with the last result, past the first
check of one, or with its new mapping in front of the last section. -/
inductive ThreadState
  | returned (status : NtStatus)
  | refused (call : AllocateCall)
  | checked (call : AllocateCall)
  | mapped (call : AllocateCall) (result : ℕ)
deriving DecidableEq, Repr

/-- The thread may start a call. -/
def ThreadState.outside : ThreadState → Bool
  | .returned _ | .refused _ => true
  | _ => false

/-- The next section of a thread. -/
inductive Section
  | allocate (call : AllocateCall)
  | commit (host : HostAnswers)
  | map (host : HostAnswers)
  | insert (host : HostAnswers)
  | free (host : HostAnswers) (region : NtRegion) (freeType : UInt32)

/-- One section, when it is the next of the thread. -/
def stepThread : Section → VirtualMemory → ThreadState → Option (VirtualMemory × ThreadState)
  | .allocate call, vm, t =>
    if t.outside then
      if !call.accepted then some (vm, .returned .invalidParameter)
      else if guestMemoryLimitExceeded vm call.aligned then some (vm, .refused call)
      else some (vm, .checked call)
    else none
  | .commit host, vm, .checked call =>
    if call.commitsReservation then
      match commitReservation host call.region.base call.aligned call.protect vm with
      | (status, vm) => some (vm, .returned status)
    else none
  | .map host, vm, .checked call =>
    if call.commitsReservation then none
    else
      match host.mmap with
      | .error _ => some (vm, .returned .noMemory)
      | .ok result =>
        let prot := if commits call.allocationType then protToHost call.protect else Prot.none
        some ({ vm with pages := vm.pages.map result call.aligned prot }, .mapped call result)
  | .insert host, vm, .mapped call result =>
    let refused := guestMemoryLimitExceeded vm call.aligned
    match insertAllocation host result call.aligned call.allocationType call.protect vm with
    | (status, vm) => some (vm, if refused then .refused call else .returned status)
  | .free host region freeType, vm, t =>
    if t.outside then
      match ntFreeVirtualMemory host region freeType vm with
      | (status, vm) => some (vm, .returned status)
    else none
  | _, _, _ => none

/-- The sections of a call that no other thread interrupts. -/
def runAlone (host : HostAnswers) (call : AllocateCall) (vm : VirtualMemory) :
    Option (VirtualMemory × ThreadState) :=
  (stepThread (.allocate call) vm (.returned .success)).bind fun first =>
    match first.2 with
    | .checked call =>
      let second := if call.commitsReservation then .commit host else .map host
      (stepThread second first.1 first.2).bind fun next =>
        match next.2 with
        | .mapped _ _ => stepThread (.insert host) next.1 next.2
        | _ => some next
    | _ => some first

/-- The result of the call a thread has left. -/
def ThreadState.status : ThreadState → Option NtStatus
  | .returned status => some status
  | .refused _ => some .noMemory
  | _ => none

/-- The threads of a guest over their memory. -/
structure Threads where
  vm : VirtualMemory
  thread : ℕ → ThreadState

/-- All interleavings of calls that are `ok` where they start. -/
inductive LimitRun (limit : ℕ) (ok : AllocateCall → VirtualMemory → Prop) : Threads → Prop
  | initial (pages : Pages) :
      LimitRun limit ok ⟨VirtualMemory.initial pages limit, fun _ => .returned .success⟩
  | step {st : Threads} {i : ℕ} {sec : Section} {vm : VirtualMemory} {t : ThreadState} :
      LimitRun limit ok st → (∀ call, sec = .allocate call → ok call st.vm) →
      stepThread sec st.vm (st.thread i) = some (vm, t) →
      LimitRun limit ok ⟨vm, update st.thread i t⟩

/-- A call that adds no memory: it commits a reservation, or asks for nothing. -/
def AllocateCall.addsNothing (call : AllocateCall) : Prop :=
  call.commitsReservation = true ∨ call.aligned = 0

def Refused (st : Threads) : Prop := ∃ i call, st.thread i = .refused call ∧ call.addsNothing

/-- A commit starts where its size would fit once more below the limit. -/
def Fits (call : AllocateCall) (vm : VirtualMemory) : Prop :=
  call.commitsReservation = true → liveBytes vm.slots + call.aligned ≤ vm.limit

theorem insertAllocation_exceeded (host : HostAnswers) (r a : ℕ)
    (ay p : UInt32) (vm : VirtualMemory) (h : guestMemoryLimitExceeded vm a) :
    (insertAllocation host r a ay p vm).1 = .noMemory := by
  unfold insertAllocation
  rw [if_pos h]

attribute [local simp] runAlone stepThread ThreadState.outside AllocateCall.accepted
  ThreadState.status AllocateCall.aligned AllocateCall.commitsReservation

/-- **The sections of one thread are `NtAllocateVirtualMemory`.** -/
theorem runAlone_eq (host : HostAnswers) (c : AllocateCall) (vm : VirtualMemory) :
    (runAlone host c vm).map (fun r => (r.2.status, r.1)) =
      some (some (ntAllocateVirtualMemory host c.region c.allocationType c.protect vm).1,
        (ntAllocateVirtualMemory host c.region c.allocationType c.protect vm).2.2) := by
  obtain ⟨re, a, p⟩ := c
  unfold ntAllocateVirtualMemory
  cases ha : allocateAccepts re.size a p with
  | false => simp [ha]
  | true =>
    cases hl : guestMemoryLimitExceeded vm (alignToPage re.size).toNat with
    | true => simp [ha, hl]
    | false =>
      have hf : stepThread (.allocate ⟨re, a, p⟩) vm
          (.returned .success) = some (vm, .checked ⟨re, a, p⟩) := by
        simp [ha, hl]
      unfold runAlone
      rw [hf, bind_some]
      cases hc : commitsReservation re.base a with
      | true =>
        cases hcm : commitReservation host re.base (alignToPage re.size).toNat p vm with
        | mk ss vm' =>
          cases ss <;>
            simp [hc, hl, hcm]
      | false =>
        cases hm : host.mmap with
        | error e => simp [hc, hl, hm]
        | ok rs =>
          generalize hp : { vm with
            pages := vm.pages.map rs (alignToPage re.size).toNat
              (if commits a then protToHost p else Prot.none) } = mapped
          have he := insertAllocation_exceeded host rs (alignToPage re.size).toNat a p mapped
          cases hi : insertAllocation host rs (alignToPage re.size).toNat a p mapped with
          | mk ss vm' =>
            rw [hi] at he
            cases hr : guestMemoryLimitExceeded mapped (alignToPage re.size).toNat with
            | true =>
              obtain rfl : ss = .noMemory := he hr
              simp [hc, hl, hm, hp, hi, hr]
            | false =>
              cases ss <;>
                simp [hc, hl, hm, hp, hi, hr]

/-! ### Interleavings -/

/-- What every section keeps: the limit, and the sum below it. -/
structure LimitInv (limit : ℕ) (vm : VirtualMemory) : Prop where
  bound : vm.limit = limit
  sum : liveBytes vm.slots ≤ limit

/-- When a section refuses a call for the limit. -/
inductive Refuses (vm : VirtualMemory) : Section → ThreadState → AllocateCall → Prop
  | first {t : ThreadState} {call : AllocateCall} :
      guestMemoryLimitExceeded vm call.aligned = true → Refuses vm (.allocate call) t call
  | second {host : HostAnswers} {call : AllocateCall} {result : ℕ} :
      guestMemoryLimitExceeded vm call.aligned = true →
      Refuses vm (.insert host) (.mapped call result) call

variable {limit l : ℕ}
variable {vm' : VirtualMemory} {t : ThreadState}

/-- **What one section does**: it keeps the limit, it refuses a call only where
the check fails, and it leaves a mapping only for a call that adds memory. -/
theorem stepThread_cases {se : Section} {vm : VirtualMemory} {t' : ThreadState} (hp : 0 <
  l) (hw : l < 2 ^ 64) (hi : LimitInv l vm) (h : stepThread se vm t = some (vm', t')) :
    LimitInv l vm' ∧ (∀ c, t' = .refused c → Refuses vm se t c) ∧
      ∀ c r, t' = .mapped c r → c.commitsReservation = false := by
  obtain ⟨rfl, hs⟩ := hi
  cases se with
  | allocate c =>
    simp only [stepThread] at h
    split at h
    · split at h
      · cases h
        exact ⟨⟨rfl, hs⟩, by simp, by simp⟩
      split at h
      · next he =>
        cases h
        refine ⟨⟨rfl, hs⟩, fun c' hr => ?_, by simp⟩
        cases hr
        exact .first he
      · cases h
        exact ⟨⟨rfl, hs⟩, by simp, by simp⟩
    · cases h
  | commit host =>
    cases t with
    | checked c =>
      simp only [stepThread] at h
      split at h
      · have hk := liveBytes_commitReservation host c.region.base c.aligned c.protect vm
        cases h
        exact ⟨⟨hk.2, hk.1 ▸ hs⟩, by simp, by simp⟩
      · cases h
    | _ => cases h
  | map host =>
    cases t with
    | checked c =>
      simp only [stepThread] at h
      split at h
      · cases h
      next hc =>
      split at h
      · cases h
        exact ⟨⟨rfl, hs⟩, by simp, by simp⟩
      · cases h
        refine ⟨⟨rfl, hs⟩, by simp, fun c' r hm => ?_⟩
        cases hm
        exact Bool.not_eq_true _ ▸ hc
    | _ => cases h
  | insert host =>
    cases t with
    | mapped c r =>
      have hk := liveBytes_insertAllocation host r c.aligned c.allocationType
        c.protect hp hw hs
      cases h
      refine ⟨⟨hk.2, hk.1⟩, fun c' hr => ?_, fun c' r' hm => ?_⟩
      · split at hr
        · next he =>
          cases hr
          exact .second he
        · cases hr
      · split at hm <;> cases hm
    | _ => cases h
  | free host re ft =>
    simp only [stepThread] at h
    split at h
    · have hk := liveBytes_ntFreeVirtualMemory host re ft vm
      cases h
      exact ⟨⟨hk.2, le_trans hk.1 hs⟩, by simp, by simp⟩
    · cases h

theorem liveBytes_initial (p : Pages) (l : ℕ) :
    liveBytes (VirtualMemory.initial p l).slots = 0 := by
  have he : ({} : AllocationSlot).weight = 0 := rfl
  unfold liveBytes VirtualMemory.initial
  rw [map_replicate, he, sum_replicate]
  rfl

variable {ok : AllocateCall → VirtualMemory → Prop}
variable {st : Threads}

/-- Every interleaving keeps the limit, and a thread with a mapping is in a call
that adds memory. -/
theorem LimitRun.inv (hp : 0 < l) (hw : l < 2 ^ 64) (hr : LimitRun
  l ok st) : LimitInv l st.vm ∧
      ∀ i c r, st.thread i = .mapped c r → c.commitsReservation = false := by
  induction hr with
  | initial p => exact ⟨⟨rfl, (liveBytes_initial p l).symm ▸ Nat.zero_le _⟩, by simp⟩
  | @step st i sec vm t _ _ hs ih =>
    obtain ⟨hi, hm, ha⟩ := stepThread_cases hp hw ih.1 hs
    refine ⟨hi, fun j c r hj => ?_⟩
    dsimp only at hj
    rw [update_apply] at hj
    split at hj
    · exact ha c r hj
    · exact ih.2 j c r hj

/-- The limit holds in every interleaving. -/
theorem liveBytes_le_limit (hp : 0 < limit) (hw : limit < 2 ^ 64) (hr :
  LimitRun limit ok st) : liveBytes st.vm.slots ≤ limit := (hr.inv hp hw).1.sum

theorem not_exceeded {l r : ℕ} (hp : 0 < l) (hw : l < 2 ^ 64) (hi : LimitInv l vm)
    (hf : liveBytes vm.slots + r ≤ l) : guestMemoryLimitExceeded vm r = false := by
  obtain ⟨rfl, -⟩ := hi
  exact (guestMemoryLimitExceeded_eq_false hp hw).2 hf

/-- While every commit starts where its size fits once more, no call that adds
nothing is refused for the limit. -/
theorem not_refused (hp : 0 < l) (hw : l < 2 ^ 64) (hu : LimitRun l Fits st) : ¬ Refused st := by
  induction hu with
  | initial p =>
    rintro ⟨i, c, hr, -⟩
    cases hr
  | @step st i sec vm t hu hk hs ih =>
    obtain ⟨hi, hm⟩ := hu.inv hp hw
    obtain ⟨-, hrf, -⟩ := stepThread_cases hp hw hi hs
    rintro ⟨j, c, hr, hnot⟩
    dsimp only at hr
    rw [update_apply] at hr
    split at hr
    · -- a call for nothing passes each check, and a commit that fits passes the first
      have hz : c.aligned = 0 → guestMemoryLimitExceeded st.vm c.aligned = false := by
        intro hz
        exact not_exceeded hp hw hi (by rw [hz]; exact hi.sum)
      have hc := hrf c hr
      generalize hthread : st.thread i = u at hc
      cases hc' : c.commitsReservation with
      | true =>
        cases hc with
        | first he =>
          have hf := hk c rfl hc'
          rw [hi.bound] at hf
          rw [not_exceeded hp hw hi hf] at he
          cases he
        | second he =>
          rw [hm i _ _ hthread] at hc'
          cases hc'
      | false =>
        rcases hnot with ho | hn
        · rw [ho] at hc'
          cases hc'
        cases hc with
        | first he =>
          rw [hz hn] at he
          cases he
        | second he =>
          rw [hz hn] at he
          cases he
    · exact ih ⟨j, c, hr, hnot⟩

/-- A commit is refused where it starts exactly when its size does not fit once
more below the limit. -/
theorem refused_iff (hp : 0 < l) (hw : l < 2 ^ 64) (hn : LimitInv l vm) {t :
  ThreadState} (ht : t.outside) {c : AllocateCall} (ha : c.accepted) :
    stepThread (.allocate c) vm t = some (vm, .refused c) ↔ l < liveBytes vm.slots + c.aligned := by
  obtain ⟨rfl, -⟩ := hn
  have hi : guestMemoryLimitExceeded vm c.aligned = false ↔
      liveBytes vm.slots + c.aligned ≤ vm.limit :=
    guestMemoryLimitExceeded_eq_false hp hw
  simp only [stepThread]
  rw [if_pos ht, if_neg (by rw [ha]; simp)]
  cases he : guestMemoryLimitExceeded vm c.aligned with
  | true =>
    rw [he] at hi
    rw [if_pos rfl]
    simpa using hi
  | false =>
    have hl := hi.1 he
    simp
    exact hl

/-- **The limit holds in every interleaving; a commit is refused for it exactly
where its size does not fit once more; and while every commit starts where it
fits, no call that adds nothing is refused.** -/
theorem limit_sound {limit : ℕ} (hpos : 0 < limit) (hword : limit < 2 ^ 64) :
    (∀ st, LimitRun limit (fun _ _ => True) st → liveBytes st.vm.slots ≤ limit ∧
      ∀ i call, (st.thread i).outside = true → call.accepted = true →
        (stepThread (.allocate call) st.vm (st.thread i) = some (st.vm, .refused call) ↔
          limit < liveBytes st.vm.slots + call.aligned)) ∧
    ∀ st, LimitRun limit Fits st → ¬ Refused st := by
  refine ⟨fun st hr => ⟨liveBytes_le_limit hpos hword hr, ?_⟩,
    fun st hr => not_refused hpos hword hr⟩
  intro i call ho ha
  exact refused_iff hpos hword (hr.inv hpos hword).1 ho ha

/-! ### A reservation of the whole limit -/

def reservePage : AllocateCall := ⟨⟨0, 0x1000⟩, kMemReserve, kPageReadWrite⟩

/-- Commits the page at `0x10000`. -/
def commitPage : AllocateCall := ⟨⟨0x10000, 0x1000⟩, kMemCommit, kPageReadWrite⟩

theorem LimitRun.next {vm : VirtualMemory} {th : ℕ → ThreadState} {t' : ThreadState}
    {se : Section} (hr : LimitRun l ok ⟨vm, update th i t⟩)
    (ho : ∀ c, se = .allocate c → ok c vm) (hs : stepThread se vm t = some (vm',
    t')) : LimitRun l ok ⟨vm', update th i t'⟩ := by
  have hn := hr.step (i := i) ho (by
    dsimp only
    rw [update_self]
    exact hs)
  rwa [update_idem] at hn

theorem LimitRun.alone {vm : VirtualMemory} {th : ℕ → ThreadState}
    (hu : LimitRun l ok ⟨vm, update th i (.returned .success)⟩)
    {host : HostAnswers} {c : AllocateCall} (ho : ok c vm)
    (ha : runAlone host c vm = some (vm', t)) : LimitRun l ok ⟨vm', update th i t⟩ := by
  obtain ⟨⟨vm₁, t₁⟩, hf, hr⟩ := bind_eq_some_iff.1 ha
  have hc := hu.next (fun c' h => by cases h; exact ho) hf
  split at hr
  · obtain ⟨⟨vm₂, t₂⟩, hs, hl⟩ := bind_eq_some_iff.1 hr
    have hn := hc.next (fun c' h => by split at h <;> cases h) hs
    split at hl
    · exact hn.next (fun c' h => by cases h) hl
    · cases hl
      exact hn
  · cases hr
    exact hc

def limitedMemory (limit : ℕ) : VirtualMemory := VirtualMemory.initial (fun _ => none) limit

def reservedPage (limit : ℕ) : VirtualMemory :=
  ((runAlone (servingAt 0x10000) reservePage (limitedMemory limit)).map Prod.fst).getD
    (limitedMemory limit)

theorem run_commitPage (l : ℕ) (ok : AllocateCall → VirtualMemory → Prop)
    (hrs : ok reservePage (limitedMemory l)) (hm : ok commitPage (reservedPage l))
    (ha : (runAlone (servingAt 0x10000) reservePage (limitedMemory l)).map Prod.snd =
      some (.returned .success))
    (hs : (stepThread (.allocate commitPage) (reservedPage l) (.returned .success)).map
      Prod.snd = some t) : ∃ st, LimitRun l ok st ∧ st.thread 1 = t := by
  have hi : LimitRun l ok ⟨limitedMemory l,
      update (fun _ => .returned .success) 0 (.returned .success)⟩ := by
    rw [update_eq_self]
    exact .initial _
  obtain ⟨⟨vm₁, t₁⟩, heq, rfl⟩ := map_eq_some_iff.1 ha
  have hv : reservedPage l = vm₁ := by
    unfold reservedPage
    rw [heq]
    rfl
  have hr := hi.alone hrs heq
  rw [update_eq_self, ← update_eq_self 1 fun _ => ThreadState.returned .success, ← hv] at hr
  obtain ⟨⟨vm₂, t₂⟩, hc, rfl⟩ := map_eq_some_iff.1 hs
  have hn := hr.next (fun c h => by cases h; exact hm) hc
  refine ⟨_, hn, ?_⟩
  dsimp only
  rw [update_self]

/-- Under a limit of two pages the commit passes the check. -/
theorem limit_sound_twoPages :
    ∃ st, LimitRun 0x2000 Fits st ∧ st.thread 1 = .checked commitPage ∧ ¬ Refused st := by
  have he : Fits reservePage (limitedMemory 0x2000) := fun h => absurd h (by decide)
  have hc : Fits commitPage (reservedPage 0x2000) := fun _ => by decide +kernel
  obtain ⟨st, hr, ht⟩ := run_commitPage 0x2000 Fits he hc
    (show _ = _ by decide +kernel) (show _ = some (.checked commitPage) by decide +kernel)
  exact ⟨st, hr, ht, (limit_sound (by decide) (by decide)).2 st hr⟩

/-- Under a limit of one page, which the reservation fills, the commit is
refused although it adds nothing. -/
theorem refused_onePage :
    ∃ st, LimitRun 0x1000 (fun _ _ => True) st ∧ st.thread 1 = .refused commitPage ∧
      Refused st := by
  obtain ⟨st, hr, ht⟩ := run_commitPage 0x1000 (fun _ _ => True) trivial trivial
    (show _ = _ by decide +kernel) (show _ = some (.refused commitPage) by decide +kernel)
  exact ⟨st, hr, ht, 1, commitPage, ht, .inl (by decide)⟩

end TradutorLinux.Runtime
