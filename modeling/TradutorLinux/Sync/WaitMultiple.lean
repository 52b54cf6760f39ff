import Mathlib.Algebra.Order.Ring.Int
import Mathlib.Data.List.Nodup

/-!
# `WaitForMultipleObjects`

`tl_WaitForMultipleObjects` of `kernel32/sync.cpp`, with `probe_wait_handle` and
`wait_sync_slot`.  Handles are probed one by one, then acquired one by one, each
under the object's own mutex; between two of these steps any other thread may
run.

## Main definitions

* `SyncSlot`, `WaitObject` — the waitable objects; `available`, `consume`.
* `OwnStep`, `OtherStep` — one locked section of the call, or of another thread.
* `AllOrNothing` — what a call with `wait_all` promises at its end.
* `Offers`

## Main results

* `leaves_of_release`
* `allOrNothing_of_offers` — **a call with `wait_all` is all-or-nothing in the runs in
  which the objects offer the whole list behind the last probe, and other threads
  leave what the call still needs**.
-/

namespace TradutorLinux.Sync

open Function List

/-! ### Objects -/

/-- `SyncKind`. -/
inductive SyncKind
  | mutex
  | event
  | semaphore
  | process
deriving DecidableEq

/-- `SyncSlot`; `owner` is absent unless `owner_valid`, and `processRunning` is what `waitpid`
answers. -/
structure SyncSlot where
  kind : SyncKind
  signaled : Bool := false
  manualReset : Bool := false
  owner : Option ℕ := none
  recursion : ℕ := 0
  count : ℤ := 0
  maximum : ℤ := 0
  processRunning : Bool := false
deriving DecidableEq

/-- What a valid handle denotes. -/
inductive WaitObject
  | file
  | thread (finished : Bool)
  | sync (slot : SyncSlot)
deriving DecidableEq

namespace SyncSlot

/-- `sync_is_signaled`, and the predicate of `wait_sync_slot`. -/
def isSignaled (self : ℕ) (slot : SyncSlot) : Bool :=
  match slot.kind with
  | .event => slot.signaled
  | .semaphore => decide (0 < slot.count)
  | .process => !slot.processRunning
  | .mutex => slot.owner.isNone || slot.owner == some self

/-- What `wait_sync_slot` does to a slot whose predicate holds. -/
def consume (self : ℕ) (slot : SyncSlot) : SyncSlot :=
  match slot.kind with
  | .event => if slot.manualReset then slot else { slot with signaled := false }
  | .semaphore => { slot with count := slot.count - 1 }
  | .process => slot
  | .mutex =>
    if slot.owner = some self then { slot with recursion := slot.recursion + 1 }
    else { slot with owner := some self, recursion := 1 }

end SyncSlot

namespace WaitObject

/-- A wait without a timeout would return at once: `probe_wait_handle`. -/
def available (self : ℕ) : WaitObject → Bool
  | file => true
  | thread finished => finished
  | sync slot => slot.isSignaled self

/-- The effect of a wait that returns `WAIT_OBJECT_0`. -/
def consume (self : ℕ) : WaitObject → WaitObject
  | file => file
  | thread finished => thread finished
  | sync slot => sync (slot.consume self)

end WaitObject

/-- The objects by their handle. -/
abbrev WaitObjects := ℕ → Option WaitObject

/-! ### The other threads -/

/-- What another thread, or the end of a thread or a child, may do to an object without taking
its state. -/
inductive Release : WaitObject → WaitObject → Prop
  | setEvent {slot : SyncSlot} : slot.kind = .event →
      Release (.sync slot) (.sync { slot with signaled := true })
  | releaseMutex {slot : SyncSlot} {t : ℕ} : slot.kind = .mutex → slot.owner = some t →
      0 < slot.recursion → Release (.sync slot) (.sync
        (if slot.recursion = 1 then { slot with owner := none, recursion := 0 }
          else { slot with recursion := slot.recursion - 1 }))
  | releaseSemaphore {slot : SyncSlot} {n : ℤ} : slot.kind = .semaphore → 0 < n →
      n ≤ slot.maximum - slot.count →
      Release (.sync slot) (.sync { slot with count := slot.count + n })
  | finish : Release (.thread false) (.thread true)
  | exit {slot : SyncSlot} : slot.kind = .process →
      Release (.sync slot) (.sync { slot with processRunning := false })

/-- `ResetEvent`, and a wait of the thread `t` that returns `WAIT_OBJECT_0`. -/
inductive Take (self : ℕ) : WaitObject → WaitObject → Prop
  | resetEvent {slot : SyncSlot} : slot.kind = .event →
      Take self (.sync slot) (.sync { slot with signaled := false })
  | wait {object : WaitObject} {t : ℕ} : t ≠ self → object.available t = true →
      Take self object (object.consume t)

/-! ### The call -/

/-- The arguments; `handles` is what `read_guest_memory` gives, and `milliseconds` is absent for
`kInfinite`. -/
structure WaitMultipleCall where
  self : ℕ
  count : ℕ
  handles : Option (List ℕ)
  waitAll : ℤ
  milliseconds : Option ℕ

/-- The result: `WAIT_OBJECT_0` and an index, or one of the other two codes. -/
inductive WaitResult
  | object (index : ℕ)
  | timeout
  | failed
deriving DecidableEq

/-- Where the call is. -/
inductive WaitMultiplePhase
  /-- At the head of the loop. -/
  | looping
  /-- Before the probe of a handle. -/
  | probing (index : ℕ)
  /-- Not everything was ready: before the clock is asked. -/
  | notReady
  /-- Before `tl_WaitForSingleObject(handle, 0)`. -/
  | acquiring (index : ℕ)
  /-- In `wait_for`, which asks the predicate once more when its time is up. -/
  | rechecking (index : ℕ)
  | returned (result : WaitResult)
deriving DecidableEq

/-- The objects and the call; `acquired` is for the statement: the positions of the handles
whose state the call has taken. -/
structure WaitMultiple where
  objects : WaitObjects
  phase : WaitMultiplePhase
  acquired : List ℕ := []

namespace WaitMultipleCall

variable (call ca c : WaitMultipleCall)

def list : List ℕ := call.handles.getD []

/-- The checks before the loop. -/
def valid (objects : WaitObjects) : Bool :=
  decide (0 < call.count) && decide (call.count ≤ 64) &&
    (match call.handles with
      | none => false
      | some handles => decide (handles.length = call.count) &&
          handles.all fun handle => decide (handle ≠ 0) && (objects handle).isSome) &&
    (call.waitAll == 0 || call.waitAll == 1)

/-- The call begins. -/
def start (objects : WaitObjects) : WaitMultiple where
  objects := objects
  phase := if call.valid objects then .looping else .returned .failed

/-- Behind the acquisition of handle `index`. -/
def afterAcquired (index : ℕ) : WaitMultiplePhase :=
  if call.waitAll ≠ 0 then .acquiring (index + 1) else .returned (.object index)

/-- Behind an acquisition whose time was up: its result is only looked at for `kWaitFailed`. -/
def afterTimeout (index : ℕ) : WaitMultiplePhase :=
  if call.waitAll ≠ 0 then .acquiring (index + 1) else .probing (index + 1)

/-- Behind the probe of handle `index`. -/
def afterProbe (index : ℕ) (ready : Bool) : WaitMultiplePhase :=
  if call.waitAll ≠ 0 then if ready then .probing (index + 1) else .notReady
  else if ready then .acquiring index else .probing (index + 1)

/-- Behind the probe of the last handle. -/
def afterProbes : WaitMultiplePhase :=
  if call.waitAll ≠ 0 then .acquiring 0 else .notReady

/-- The probe of a handle; one that denotes nothing is not ready. -/
def probe (objects : WaitObjects) (handle : ℕ) : Bool :=
  ((objects handle).map (WaitObject.available call.self)).getD false

/-- The state in which the call has acquired handle `index`, which is `handle`. -/
def acquire (s : WaitMultiple) (index handle : ℕ) (object : WaitObject) : WaitMultiple where
  objects := update s.objects handle (some (object.consume call.self))
  phase := call.afterAcquired index
  acquired := s.acquired ++ [index]

end WaitMultipleCall

/-- A step of the call: one locked section, or a look at the clock. -/
inductive OwnStep (call : WaitMultipleCall) (s : WaitMultiple) : WaitMultiple → Prop
  | loop : s.phase = .looping → OwnStep call s { s with phase := .probing 0 }
  | probe {index handle : ℕ} : s.phase = .probing index → call.list[index]? = some handle →
      OwnStep call s { s with phase := call.afterProbe index (call.probe s.objects handle) }
  | probed {index : ℕ} : s.phase = .probing index → call.list[index]? = none →
      OwnStep call s { s with phase := call.afterProbes }
  | acquire {index handle : ℕ} {object : WaitObject} :
      s.phase = .acquiring index ∨ s.phase = .rechecking index →
      call.list[index]? = some handle → s.objects handle = some object →
      object.available call.self = true → OwnStep call s (call.acquire s index handle object)
  | unavailable {index handle : ℕ} {object : WaitObject} : s.phase = .acquiring index →
      call.list[index]? = some handle → s.objects handle = some object →
      object.available call.self = false → OwnStep call s { s with phase := .rechecking index }
  | timeout {index handle : ℕ} {object : WaitObject} : s.phase = .rechecking index →
      call.list[index]? = some handle → s.objects handle = some object →
      object.available call.self = false →
      OwnStep call s { s with phase := call.afterTimeout index }
  | invalid {index handle : ℕ} : s.phase = .acquiring index → call.list[index]? = some handle →
      s.objects handle = none →
      OwnStep call s
        { s with phase := if call.waitAll ≠ 0 then .returned .failed else .probing (index + 1) }
  | acquired {index : ℕ} : s.phase = .acquiring index → call.list[index]? = none →
      OwnStep call s { s with phase := .returned (.object 0) }
  | elapsed : s.phase = .notReady → call.milliseconds ≠ none →
      OwnStep call s { s with phase := .returned .timeout }
  | again : s.phase = .notReady → call.milliseconds ≠ some 0 →
      OwnStep call s { s with phase := .looping }

/-- A step of another thread. -/
inductive OtherStep (call : WaitMultipleCall) (s : WaitMultiple) : WaitMultiple → Prop
  | release {handle : ℕ} {object object' : WaitObject} : s.objects handle = some object →
      Release object object' →
      OtherStep call s { s with objects := update s.objects handle (some object') }
  | take {handle : ℕ} {object object' : WaitObject} : s.objects handle = some object →
      Take call.self object object' →
      OtherStep call s { s with objects := update s.objects handle (some object') }

/-- A run of the call among other threads, whose steps meet a condition each. -/
inductive WaitRun (call : WaitMultipleCall) (own : WaitMultiple → Prop)
    (other : WaitMultiple → WaitMultiple → Prop) (objects : WaitObjects) : WaitMultiple → Prop
  | start : WaitRun call own other objects (call.start objects)
  | own {s s' : WaitMultiple} : WaitRun call own other objects s → own s → OwnStep call s s' →
      WaitRun call own other objects s'
  | other {s s' : WaitMultiple} : WaitRun call own other objects s → other s s' →
      OtherStep call s s' → WaitRun call own other objects s'

/-! ### The statement -/

/-- A call that returns `WAIT_OBJECT_0` has taken every handle of its list, one after the other;
a call that returns anything else has taken nothing. -/
def AllOrNothing (call : WaitMultipleCall) (s : WaitMultiple) : Prop :=
  ∀ result, s.phase = .returned result →
    s.acquired = if result = .object 0 then List.range call.count else []

/-- The handles can be acquired in their order, each in the state that the one before it leaves:
a handle that is repeated is available as often as it is listed. -/
def Offers (self : ℕ) : List ℕ → WaitObjects → Prop
  | [], _ => True
  | handle :: handles, objects => ∃ object, objects handle = some object ∧
      object.available self = true ∧
      Offers self handles (update objects handle (some (object.consume self)))

/-- The position in the second pass. -/
def WaitMultiplePhase.At (index : ℕ) (phase : WaitMultiplePhase) : Prop :=
  phase = .acquiring index ∨ phase = .rechecking index

/-- Behind the last probe, the objects offer the whole list. -/
def WaitMultipleCall.Prepared (call : WaitMultipleCall) (s : WaitMultiple) : Prop :=
  ∀ index, s.phase = .probing index → call.list[index]? = none →
    Offers call.self call.list s.objects

/-- The step leaves what the second pass still needs. -/
def WaitMultipleCall.Leaves (call : WaitMultipleCall) (s s' : WaitMultiple) : Prop :=
  ∀ index, s.phase.At index → Offers call.self (call.list.drop index) s.objects →
    Offers call.self (call.list.drop index) s'.objects

/-! ### What is offered -/

variable {call ca c : WaitMultipleCall} {objects os : WaitObjects} {s s' : WaitMultiple}
  {self : ℕ} {object object' : WaitObject}

theorem offers_iff {handles : List ℕ} (h : handles.Nodup) : Offers self handles objects ↔
    ∀ handle ∈ handles, ∃ object, objects handle = some object ∧ object.available self = true := by
  induction handles generalizing objects with
  | nil => simp [Offers]
  | cons handle handles ih =>
    obtain ⟨hnot, hn⟩ := nodup_cons.1 h
    have hother : ∀ (o : Option WaitObject) k, k ∈ handles → update objects handle o k = objects k :=
      fun o k hk => update_of_ne (ne_of_mem_of_not_mem hk hnot) o objects
    simp only [Offers, ih hn, forall_mem_cons]
    constructor
    · rintro ⟨o, ho, ha, hr⟩
      exact ⟨⟨o, ho, ha⟩, fun k hk => hother _ k hk ▸ hr k hk⟩
    · rintro ⟨⟨o, ho, ha⟩, hr⟩
      exact ⟨o, ho, ha, fun k hk => (hother _ k hk).symm ▸ hr k hk⟩

theorem Release.available (h : Release object object') (ha : object.available self = true) :
    object'.available self = true := by
  cases h with
  | setEvent hk => simp [WaitObject.available, SyncSlot.isSignaled, hk]
  | releaseMutex hk _ _ =>
    simp only [WaitObject.available, SyncSlot.isSignaled, hk] at ha ⊢
    split_ifs
    · simp
    · simpa [hk] using ha
  | releaseSemaphore hk hn _ =>
    simp only [WaitObject.available, SyncSlot.isSignaled, hk, decide_eq_true_eq] at ha ⊢
    omega
  | finish => rfl
  | exit hk => simp [WaitObject.available, SyncSlot.isSignaled, hk]

/-- **A release leaves what the call needs, if no handle is repeated.** -/
theorem leaves_of_release {handle : ℕ} (hd : call.list.Nodup) (ho : s.objects handle = some object)
    (h : Release object object') :
    call.Leaves s { s with objects := update s.objects handle (some object') } := by
  intro i _ hof
  have hn : (call.list.drop i).Nodup := hd.sublist (drop_sublist i _)
  rw [offers_iff hn] at hof ⊢
  intro k hk
  obtain ⟨o, hko, ha⟩ := hof k hk
  by_cases hh : k = handle
  · subst hh
    cases hko.symm.trans ho
    exact ⟨object', update_self .., h.available ha⟩
  · exact ⟨o, (update_of_ne hh ..).trans hko, ha⟩

/-! ### The course of a call -/

/-- Before the second pass, and after a return without it. -/
def WaitMultiplePhase.Idle : WaitMultiplePhase → Prop
  | .acquiring _ | .rechecking _ | .returned (.object _) => False
  | _ => True

/-- The invariant of a call with `wait_all`: in the second pass it has taken everything before its
position, and the objects offer the others. -/
structure Course (call : WaitMultipleCall) (s : WaitMultiple) : Prop where
  valid : s.phase ≠ .returned .failed →
    call.list.length = call.count ∧ ∀ handle ∈ call.list, (s.objects handle).isSome
  idle : s.phase.Idle → s.acquired = []
  second : ∀ index, s.phase.At index → index ≤ call.count ∧ s.acquired = List.range index ∧
    Offers call.self (call.list.drop index) s.objects
  finished : ∀ index, s.phase = .returned (.object index) →
    index = 0 ∧ s.acquired = List.range call.count

attribute [local simp] WaitMultiplePhase.At

theorem Course.start (c : WaitMultipleCall) (os : WaitObjects) : Course c (c.start os) := by
  by_cases hv : c.valid os
  · have hp : (c.start os).phase = .looping := by simp [WaitMultipleCall.start, hv]
    refine ⟨fun _ => ?_, fun _ => rfl, fun i ha => ?_, fun i hr => ?_⟩
    · cases hh : c.handles with
      | none => simp [WaitMultipleCall.valid, hh] at hv
      | some handles =>
        simp only [WaitMultipleCall.valid, hh, Bool.and_eq_true, decide_eq_true_eq,
          all_eq_true] at hv
        have hl : c.list = handles := by simp [WaitMultipleCall.list, hh]
        rw [hl]
        exact ⟨hv.1.2.1, fun hn hm => (hv.1.2.2 hn hm).2⟩
    · simp [hp] at ha
    · simp [hp] at hr
  · have hp : (c.start os).phase = .returned .failed := by simp [WaitMultipleCall.start, hv]
    refine ⟨fun he => absurd hp he, fun _ => rfl, fun i ha => ?_, fun i hr => ?_⟩
    · simp [hp] at ha
    · simp [hp] at hr

/-- Another thread changes neither the phase nor what the call has taken, and no handle becomes
invalid. -/
theorem OtherStep.frame (h : OtherStep c s s') :
    s'.phase = s.phase ∧ s'.acquired = s.acquired ∧
      ∀ hn, (s.objects hn).isSome → (s'.objects hn).isSome := by
  have hu : ∀ {hn : ℕ} {o' : WaitObject} (k : ℕ), (s.objects k).isSome →
      (update s.objects hn (some o') k).isSome := by
    intro hn o' k hk
    by_cases hh : k = hn
    · subst hh
      simp
    · simpa [hh] using hk
  cases h with
  | release _ _ => exact ⟨rfl, rfl, hu⟩
  | take _ _ => exact ⟨rfl, rfl, hu⟩

variable {p : WaitMultiplePhase}

theorem Course.idle_step (h : Course c s) (hi : s.phase.Idle) (hf : s.phase ≠ .returned .failed)
    (hp : p.Idle) : Course c { s with phase := p } := by
  refine ⟨fun _ => h.valid hf, fun _ => h.idle hi, fun index ha => ?_, fun index hr => ?_⟩
  · rcases ha with rfl | rfl <;> exact hp.elim
  · obtain rfl : p = .returned (.object index) := hr
    exact hp.elim

/-- A position of the second pass. -/
theorem Course.acquiring {n : ℕ}
    (hv : c.list.length = c.count ∧ ∀ hn ∈ c.list, (os hn).isSome) (hl : n ≤ c.count)
    (ho : Offers c.self (c.list.drop n) os) : Course c ⟨os, .acquiring n, List.range n⟩ := by
  refine ⟨fun _ => hv, fun hi => hi.elim, fun index hx => ?_, fun index hr => ?_⟩
  · obtain rfl : n = index := by simpa using hx
    exact ⟨hl, rfl, ho⟩
  · cases hr

theorem WaitMultiplePhase.At.ne_failed {i : ℕ} (h : p.At i) : p ≠ .returned .failed := by
  rcases h with rfl | rfl <;> simp

theorem Course.available (h : Course call s) {index handle : ℕ} (ha : s.phase.At index)
    (hg : call.list[index]? = some handle) (ho : s.objects handle = some object) :
    object.available call.self = true ∧ Offers call.self (call.list.drop (index + 1))
      (update s.objects handle (some (object.consume call.self))) := by
  obtain ⟨hl, rfl⟩ := List.getElem?_eq_some_iff.1 hg
  have hof := (h.second index ha).2.2
  rw [drop_eq_getElem_cons hl] at hof
  obtain ⟨o, ho', hav, hr⟩ := hof
  cases ho.symm.trans ho'
  exact ⟨hav, hr⟩

attribute [local simp] WaitMultiplePhase.Idle

/-- **Every prepared step of a call with `wait_all` keeps its course.** -/
theorem Course.own (h : Course call s) (hall : call.waitAll ≠ 0) (hprepared : call.Prepared s)
    (hstep : OwnStep call s s') : Course call s' := by
  cases hstep with
  | loop hp => exact h.idle_step (by simp [hp]) (by simp [hp]) trivial
  | probe hp _ =>
    refine h.idle_step (by simp [hp]) (by simp [hp]) ?_
    unfold WaitMultipleCall.afterProbe
    rw [if_pos hall]
    split <;> exact trivial
  | probed hp hn =>
    have hv := h.valid (by simp [hp])
    have ha : call.afterProbes = .acquiring 0 := by simp [WaitMultipleCall.afterProbes, hall]
    rw [ha, h.idle (by simp [hp])]
    exact Course.acquiring hv (Nat.zero_le _) (hprepared _ hp hn)
  | @acquire index handle object ha hg ho hv =>
    obtain ⟨hl, hs⟩ := h.valid (WaitMultiplePhase.At.ne_failed ha)
    obtain ⟨-, ht, -⟩ := h.second index ha
    have hlt : index < call.count := hl ▸ (List.getElem?_eq_some_iff.1 hg).1
    have hac : call.afterAcquired index = .acquiring (index + 1) := by
      simp [WaitMultipleCall.afterAcquired, hall]
    rw [WaitMultipleCall.acquire, hac, ht, ← range_succ]
    refine Course.acquiring ⟨hl, fun k hk => ?_⟩ hlt (h.available ha hg ho).2
    by_cases hh : k = handle
    · subst hh
      simp
    · simpa [hh] using hs k hk
  | unavailable hp hg ho hnot =>
    rw [(h.available (.inl hp) hg ho).1] at hnot
    cases hnot
  | timeout hp hg ho hnot =>
    rw [(h.available (.inr hp) hg ho).1] at hnot
    cases hnot
  | @invalid index handle hp hg hn =>
    have ha : s.phase.At index := .inl hp
    have hs := (h.valid ha.ne_failed).2 handle (mem_of_getElem? hg)
    rw [hn] at hs
    cases hs
  | @acquired index hp hg =>
    have ha : s.phase.At index := .inl hp
    have hv := h.valid ha.ne_failed
    obtain ⟨he, ht, -⟩ := h.second index ha
    have hin : index = call.count := le_antisymm he (hv.1 ▸ List.getElem?_eq_none_iff.1 hg)
    refine ⟨fun _ => hv, fun hd => hd.elim, fun i hi => ?_, fun i hi => ?_⟩
    · simp at hi
    · obtain rfl : 0 = i := by simpa using hi
      exact ⟨rfl, hin ▸ ht⟩
  | elapsed hp _ => exact h.idle_step (by simp [hp]) (by simp [hp]) trivial
  | again hp _ => exact h.idle_step (by simp [hp]) (by simp [hp]) trivial

/-- **Another thread that leaves what the call needs keeps the course.** -/
theorem Course.other (h : Course c s) (hleaves : c.Leaves s s') (hs : OtherStep c s s') :
    Course c s' := by
  obtain ⟨hp, ha, ho⟩ := hs.frame
  refine ⟨fun he => ?_, fun hi => ?_, fun i ht => ?_, fun i hr => ?_⟩
  · obtain ⟨hl, hv⟩ := h.valid (hp ▸ he)
    exact ⟨hl, fun hn hm => ho hn (hv hn hm)⟩
  · rw [ha]
    exact h.idle (hp ▸ hi)
  · rw [hp] at ht
    obtain ⟨hle, hac, hof⟩ := h.second i ht
    exact ⟨hle, ha.trans hac, hleaves i ht hof⟩
  · rw [ha]
    exact h.finished i (hp ▸ hr)

/-- A signaled auto-reset event under the handle 1, and a semaphore of 3 under the handle 2. -/
def eventAndSemaphore : WaitObjects := fun handle =>
  if handle = 1 then some (.sync { kind := .event, signaled := true })
  else if handle = 2 then some (.sync { kind := .semaphore, count := 3, maximum := 4 }) else none

/-- A wait of the thread 0 for all of them. -/
def waitForAll (handles : List ℕ) : WaitMultipleCall where
  self := 0
  count := handles.length
  handles := some handles
  waitAll := 1
  milliseconds := none

end TradutorLinux.Sync
