import TradutorLinux.Sync.WaitMultiple
import TradutorLinux.Util.Tenants

/-!
# Waits on objects of a table whose slots are used again

`g_syncs`, with `tl_CreateMutexA`, `tl_CreateEventA`, `tl_CreateSemaphoreA`, the
allocation of `tl_CreateProcessA`, `find_sync_slot`, `clear_sync_slot`,
`wait_sync_slot` and `wait_process_slot`, and the functions that change a slot.
A creation and a clear hold `g_sync_mutex` and are one step; the rest of the
functions hold a slot's own mutex, or none, so that a creation and a clear can
come between any two of their steps.

## Main definitions

* `TableSlot` — a `SyncSlot` with its flag and its mutex; `predicate`, `take`.
* `SlotWaitPhase`
* `ObjectTable.step` — one step of one of the threads.
* `WaitReturn.Faithful`
* `ObjectTable.Orderly` — the steps that leave the waits their objects.

## Main results

* `ObjectTable.Sound.step` — **in orderly steps every wait stays on its object.**
-/

namespace TradutorLinux.Sync

open Function

open Option

/-! ### The slots -/

/-- `GuestContext::syncs.size()`. -/
def kSyncSlots : ℕ := 256

/-- A slot of `g_syncs`; `locked` is its mutex. -/
structure TableSlot extends SyncSlot where
  used : Bool := false
  locked : Bool := false

/-- What is created: `tl_CreateMutexA`, `tl_CreateEventA`, `tl_CreateSemaphoreA`,
`tl_CreateProcessA`. -/
inductive NewObject
  | mutex (initialOwner : Bool)
  | event (manualReset initialState : Bool)
  | semaphore (initialCount maximumCount : ℤ)
  | process

/-- The checks of the arguments. -/
def NewObject.valid : NewObject → Bool
  | .semaphore initialCount maximumCount =>
    !(decide (initialCount < 0) || decide (maximumCount ≤ 0) ||
      decide (maximumCount < initialCount))
  | _ => true

variable {slot sl : TableSlot}

namespace TableSlot

/-- The fields a creation by the thread `self` writes. -/
def create (self : ℕ) (slot : TableSlot) : NewObject → TableSlot
  | .mutex initialOwner => { slot with
      used := true
      kind := .mutex
      signaled := !initialOwner
      owner := if initialOwner then some self else none
      recursion := if initialOwner then 1 else 0 }
  | .event manualReset initialState => { slot with
      used := true
      kind := .event
      signaled := initialState
      manualReset := manualReset }
  | .semaphore initialCount maximumCount => { slot with
      used := true
      kind := .semaphore
      count := initialCount
      maximum := maximumCount }
  | .process => { slot with
      used := true
      kind := .process
      processRunning := true
      signaled := false
      manualReset := false
      owner := none
      count := 0
      maximum := 0 }

/-- `clear_sync_slot`: the kind stays, and nobody is notified. -/
def clear (slot : TableSlot) : TableSlot :=
  { slot with
    used := false
    signaled := false
    manualReset := false
    owner := none
    recursion := 0
    count := 0
    maximum := 0
    processRunning := false }

/-- The predicate of `wait_sync_slot`. -/
def predicate (self : ℕ) (slot : TableSlot) : Bool :=
  if !slot.used then true
  else match slot.kind with
    | .event => slot.signaled
    | .semaphore => decide (0 < slot.count)
    | .mutex | .process => slot.owner.isNone || slot.owner == some self

/-- What `wait_sync_slot` does to the slot before it returns `kWaitObject0`. -/
def take (self : ℕ) (slot : TableSlot) : TableSlot :=
  match slot.kind with
  | .event => if slot.manualReset then slot else { slot with signaled := false }
  | .semaphore => { slot with count := slot.count - 1 }
  | .mutex | .process =>
    if slot.owner = some self then { slot with recursion := slot.recursion + 1 }
    else { slot with owner := some self, recursion := 1 }

@[simp] theorem used_take {se : ℕ} : (sl.take se).used = sl.used := by
  unfold take
  split
  · split <;> rfl
  · rfl
  · split <;> rfl
  · split <;> rfl

@[simp] theorem used_create {se : ℕ} {o : NewObject} : (sl.create se o).used := by
  cases o <;> rfl

end TableSlot

/-- The functions that find a slot and then change it: `tl_SetEvent`, `tl_ResetEvent`,
`tl_ReleaseMutex`, `tl_ReleaseSemaphore`, the `wait_process_slot` of
`tl_GetExitCodeProcess` and `tl_TerminateProcess`, and `tl_CloseHandle` of the last handle;
`previousWritable` when `previous_count` is null or can be written. -/
inductive SlotOp
  | setEvent
  | resetEvent
  | releaseMutex
  | releaseSemaphore (releaseCount : ℤ) (previousWritable : Bool)
  | reap
  | close
deriving DecidableEq

namespace SlotOp

/-- What the lookup of the function accepts. -/
def accepts (slot : TableSlot) : SlotOp → Bool
  | .setEvent | .resetEvent => slot.used && slot.kind == .event
  | .releaseMutex => slot.used && slot.kind == .mutex
  | .releaseSemaphore releaseCount _ =>
    slot.used && slot.kind == .semaphore && decide (0 < releaseCount)
  | .reap => slot.used && slot.kind == .process
  | .close => slot.used

/-- Whether the function takes the slot's mutex. -/
def locks : SlotOp → Bool
  | .reap | .close => false
  | _ => true

/-- What the function, called by `self`, does to the slot it has found. -/
def apply (self : ℕ) (slot : TableSlot) : SlotOp → TableSlot
  | .setEvent => { slot with signaled := true }
  | .resetEvent => { slot with signaled := false }
  | .releaseMutex =>
    if slot.owner = some self ∧ slot.recursion ≠ 0 then
      if slot.recursion = 1 then { slot with owner := none, recursion := 0 }
      else { slot with recursion := slot.recursion - 1 }
    else slot
  | .releaseSemaphore releaseCount previousWritable =>
    if slot.maximum - slot.count < releaseCount ∨ previousWritable = false then slot
    else { slot with count := slot.count + releaseCount }
  | .reap => { slot with processRunning := false }
  | .close => slot.clear

theorem used_apply {se : ℕ} {op : SlotOp} (h : op ≠ .close) : (op.apply se sl).used = sl.used := by
  cases op with
  | close => exact absurd rfl h
  | releaseMutex =>
    show (ite _ _ _ : TableSlot).used = _
    split
    · split <;> rfl
    · rfl
  | releaseSemaphore n w =>
    show (ite _ _ _ : TableSlot).used = _
    split <;> rfl
  | setEvent => rfl
  | resetEvent => rfl
  | reap => rfl

end SlotOp

/-! ### The waits -/

/-- A call of `tl_WaitForSingleObject` that has found a slot; `object` numbers the object that
was there, and `milliseconds` is absent for `kInfinite`. -/
structure SlotWait where
  self : ℕ
  slot : ℕ
  object : ℕ
  milliseconds : Option ℕ

/-- What a wait has returned; for the statement, the object whose state it has taken, and
whether its own object was open when it returned. -/
structure WaitReturn where
  result : WaitResult
  taken : Option ℕ
  objectOpen : Bool
deriving DecidableEq

/-- Where a wait is. -/
inductive SlotWaitPhase
  /-- Before the kind is read. -/
  | found
  /-- In `wait` or `wait_for`, which look at the predicate under the slot's mutex. -/
  | waiting
  /-- The predicate held; the mutex is kept from here on. -/
  | awake
  /-- The slot was in use. -/
  | checked
  /-- At the head of `wait_process_slot`. -/
  | processFound
  /-- At the head of its loop. -/
  | processPolling
  | returned (r : WaitReturn)
  /-- The thread has left through the exit of the process. -/
  | unwound
deriving DecidableEq

namespace SlotWaitPhase

def live : SlotWaitPhase → Bool
  | .returned _ | .unwound => false
  | _ => true

/-- The wait no longer asks whether the slot is in use. -/
def committed : SlotWaitPhase → Bool
  | .checked | .processPolling => true
  | _ => false

theorem live_of_committed {x : SlotWaitPhase} (h : x.committed) : x.live := by
  cases x <;> first | rfl | cases h

end SlotWaitPhase

/-- A call of one of the other functions that has found a slot. -/
structure SlotCall where
  self : ℕ
  slot : ℕ
  op : SlotOp

/-- The waits under way, and those of them that no longer ask. -/
def SlotWait.lodging : Lodging SlotWait SlotWaitPhase where
  slot := SlotWait.slot
  object := SlotWait.object
  live := SlotWaitPhase.live

def SlotWait.commitment : Lodging SlotWait SlotWaitPhase where
  slot := SlotWait.slot
  object := SlotWait.object
  live := SlotWaitPhase.committed

/-- A wait takes state from its own object only, and where that was closed it fails or times
out and takes nothing. -/
def WaitReturn.Faithful (object : ℕ) (r : WaitReturn) : Prop :=
  (∀ o, r.taken = some o → o = object) ∧
  (r.objectOpen = false → (r.result = .failed ∨ r.result = .timeout) ∧ r.taken = none)

/-! ### The table -/

/-- `g_syncs`, the number of the object each slot has held last, the waits and the other
calls, with whether they are done. -/
structure ObjectTable where
  slots : ℕ → TableSlot := fun _ => { kind := .event }
  tenant : ℕ → ℕ := fun _ => 0
  waits : Pool SlotWait SlotWaitPhase := []
  calls : Pool SlotCall Bool := []

/-- One step: a creation, the lookup of a call, or the next section of a call. -/
inductive ObjectAction
  | create (self : ℕ) (object : NewObject)
  | wait (self slot : ℕ) (milliseconds : Option ℕ)
  | readKind (i : ℕ)
  | look (i : ℕ) (timeUp : Bool)
  | check (i : ℕ)
  | finish (i : ℕ) (exits : Bool)
  | enterProcess (i : ℕ)
  | poll (i : ℕ) (exits exited timeUp : Bool)
  | call (self slot : ℕ) (op : SlotOp)
  | apply (i : ℕ)

namespace ObjectTable

variable {s s' : ObjectTable}

def freeSlot (s : ObjectTable) : Option ℕ :=
  (List.range kSyncSlots).find? fun j => !(s.slots j).used

/-- `find_sync_slot`. -/
def findSyncSlot (s : ObjectTable) (slot : ℕ) : Bool :=
  decide (slot < kSyncSlots) && (s.slots slot).used

def isOpen (s : ObjectTable) (k : SlotWait) : Bool :=
  (s.slots k.slot).used && s.tenant k.slot == k.object

/-- The wait `i` goes on. -/
def goTo (s : ObjectTable) (i : ℕ) (x : SlotWaitPhase) : ObjectTable :=
  { s with waits := s.waits.move i x }

/-- The slot `j` is written. -/
def write (s : ObjectTable) (j : ℕ) (slot : TableSlot) : ObjectTable :=
  { s with slots := update s.slots j slot }

/-- The wait `i` returns. -/
def ret (s : ObjectTable) (i : ℕ) (k : SlotWait) (result : WaitResult) (taken : Option ℕ) :
    ObjectTable :=
  s.goTo i (.returned ⟨result, taken, s.isOpen k⟩)

/-- The slot's mutex is taken or given back. -/
def setLocked (s : ObjectTable) (j : ℕ) (locked : Bool) : ObjectTable :=
  s.write j { s.slots j with locked := locked }

/-- The predicate of `wait_sync_slot`, under the slot's mutex.  `wait_for` gives up only
when it does not hold. -/
def lookAt (s : ObjectTable) (i : ℕ) (k : SlotWait) (timeUp : Bool) : Option ObjectTable :=
  let slot := s.slots k.slot
  if slot.locked then none
  else if slot.predicate k.self then some ((s.setLocked k.slot true).goTo i .awake)
  else if timeUp ∧ k.milliseconds ≠ none then some (s.ret i k .timeout none)
  else some s

/-- Behind the wait: a slot that is not in use is a failure. -/
def checkUsed (s : ObjectTable) (i : ℕ) (k : SlotWait) : ObjectTable :=
  if (s.slots k.slot).used then s.goTo i .checked
  else (s.setLocked k.slot false).ret i k .failed none

/-- The end of `wait_sync_slot`; `exits` when the exit of the process was asked for and the
thread is the one that has to leave, which it does with the mutex held. -/
def takeFrom (s : ObjectTable) (i : ℕ) (k : SlotWait) (exits : Bool) : ObjectTable :=
  if exits then s.goTo i .unwound
  else
    (s.write k.slot { (s.slots k.slot).take k.self with locked := false }).ret i k (.object 0)
      (some (s.tenant k.slot))

/-- The first check of `wait_process_slot`. -/
def enterWait (s : ObjectTable) (i : ℕ) (k : SlotWait) : ObjectTable :=
  let slot := s.slots k.slot
  if !slot.used ∨ slot.kind ≠ .process then s.ret i k .failed none
  else s.goTo i .processPolling

/-- One round of the loop of `wait_process_slot`; `exited` is the answer of `waitpid`. -/
def pollProcess (s : ObjectTable) (i : ℕ) (k : SlotWait) (exits exited timeUp : Bool) :
    ObjectTable :=
  let slot := s.slots k.slot
  if !slot.processRunning then s.ret i k (.object 0) none
  else if exits then s.goTo i .unwound
  else if exited then
    (s.write k.slot { slot with processRunning := false }).ret i k (.object 0)
      (some (s.tenant k.slot))
  else if k.milliseconds = some 0 ∨ (timeUp ∧ k.milliseconds ≠ none) then s.ret i k .timeout none
  else s

/-- The next section of the call `i`, if it is at `x`. -/
def atWait (s : ObjectTable) (i : ℕ) (x : SlotWaitPhase)
    (f : SlotWait → Option ObjectTable) : Option ObjectTable :=
  s.waits[i]?.bind fun t => if t.2 = x then f t.1 else none

def step (s : ObjectTable) : ObjectAction → Option ObjectTable
  | .create self object =>
    if object.valid then
      match s.freeSlot with
      | none => some s
      | some j => some { s.write j ((s.slots j).create self object) with
          tenant := update s.tenant j (s.tenant j + 1) }
    else some s
  | .wait self slot milliseconds =>
    if s.findSyncSlot slot then some { s with
      waits := s.waits.start ⟨self, slot, s.tenant slot, milliseconds⟩ .found }
    else some s
  | .readKind i => s.atWait i .found fun k =>
    some (s.goTo i (if (s.slots k.slot).kind = .process then .processFound else .waiting))
  | .look i timeUp => s.atWait i .waiting fun k => s.lookAt i k timeUp
  | .check i => s.atWait i .awake fun k => some (s.checkUsed i k)
  | .finish i exits => s.atWait i .checked fun k => some (s.takeFrom i k exits)
  | .enterProcess i => s.atWait i .processFound fun k => some (s.enterWait i k)
  | .poll i exits exited timeUp => s.atWait i .processPolling fun k =>
    some (s.pollProcess i k exits exited timeUp)
  | .call self slot op =>
    if s.findSyncSlot slot ∧ op.accepts (s.slots slot) then some { s with
      calls := s.calls.start ⟨self, slot, op⟩ false }
    else some s
  | .apply i => s.calls[i]?.bind fun t =>
    if t.2 ∨ (t.1.op.locks ∧ (s.slots t.1.slot).locked) then none
    else some { s.write t.1.slot (t.1.op.apply t.1.self (s.slots t.1.slot)) with
      calls := s.calls.move i true }

/-! ### Orderly steps -/

/-- **No slot is given to a new object while a wait that found it for an earlier one is under
way, and none is cleared under a wait that no longer asks whether it is in use.** -/
def Orderly (s : ObjectTable) : ObjectAction → Prop
  | .create _ _ => ∀ j ∈ s.freeSlot, SlotWait.lodging.NoneAt s.waits j
  | .apply i => ∀ t ∈ s.calls[i]?, t.1.op = .close → SlotWait.commitment.NoneAt s.waits t.1.slot
  | _ => True

instance (s : ObjectTable) (a : ObjectAction) : Decidable (s.Orderly a) := by
  cases a <;> unfold Orderly <;> infer_instance

/-- Every wait that has returned has kept to its object. -/
def Faithful (s : ObjectTable) : Prop :=
  ∀ i k r, s.waits.At i k (.returned r) → r.Faithful k.object

/-- The waits under way are at their objects, and those that no longer ask are right not
to. -/
structure Sound (s : ObjectTable) : Prop where
  current : SlotWait.lodging.Current s.waits s.tenant
  inUse : ∀ i k x, s.waits.At i k x → x.committed = true → (s.slots k.slot).used = true
  faithful : s.Faithful

/-! ### What a step of a wait keeps -/

section Steps

variable {i j : ℕ} {k : SlotWait} {x y : SlotWaitPhase}

theorem used_write (sl : TableSlot) (h : sl.used = (s.slots j).used) (j' : ℕ) :
    ((s.write j sl).slots j').used = (s.slots j').used := by
  unfold write
  by_cases hj : j' = j
  · subst hj
    simpa using h
  · simp [update_of_ne hj]

theorem Sound.write (h : s.Sound) (sl : TableSlot) (hu : sl.used = (s.slots j).used) :
    (s.write j sl).Sound where
  current := h.current
  inUse i k x ha hx := by
    rw [used_write sl hu]
    exact h.inUse i k x ha hx
  faithful := h.faithful

theorem Sound.setLocked (h : s.Sound) (l : Bool) : (s.setLocked j l).Sound :=
  h.write { s.slots j with locked := l } rfl

theorem Sound.faithful_at (h : s.Sound) (i : ℕ) (k : SlotWait) (x : SlotWaitPhase)
    (ha : s.waits.At i k x) (r : WaitReturn) (hr : x = .returned r) : r.Faithful k.object := by
  subst hr
  exact h.faithful i k r ha

theorem Sound.goTo (h : s.Sound) (ha : s.waits.At i k x) (hx : x.live)
    (hc : y.committed → (s.slots k.slot).used)
    (hr : ∀ r, y = .returned r → r.Faithful k.object) : (s.goTo i y).Sound where
  current := Lodging.current_move h.current ha fun _ => hx
  inUse _ _ _ hat' := Pool.each_move
    (P := fun k x => SlotWaitPhase.committed x → (s.slots (SlotWait.slot k)).used)
    h.inUse ha hc hat'
  faithful _ _ r hat' := Pool.each_move
    (P := fun k x => ∀ r, x = .returned r → WaitReturn.Faithful (SlotWait.object k) r)
    h.faithful_at ha hr hat' r rfl

theorem isOpen_iff : s.isOpen k ↔
    (s.slots k.slot).used ∧ s.tenant k.slot = k.object := by
  simp [isOpen]

theorem Sound.retNothing {re : WaitResult} (h : s.Sound) (ha : s.waits.At i k x)
    (hx : x.live) (he : re = .failed ∨ re = .timeout) : (s.ret i k re none).Sound := by
  apply h.goTo ha hx
  · intro hy
    cases hy
  · rintro r hr
    obtain rfl := SlotWaitPhase.returned.inj hr
    exact ⟨nofun, fun _ => ⟨he, rfl⟩⟩

theorem Sound.retOpen {re : WaitResult} {t : Option ℕ} (h : s.Sound)
    (ha : s.waits.At i k x) (hx : x.live) (hu : (s.slots k.slot).used)
    (ht : ∀ o, t = some o → o = s.tenant k.slot) : (s.ret i k re t).Sound := by
  have he : s.tenant k.slot = k.object := h.current i k x ha hx
  have hop : s.isOpen k := isOpen_iff.2 ⟨hu, he⟩
  apply h.goTo ha hx
  · intro hy
    cases hy
  · rintro r hr
    obtain rfl := SlotWaitPhase.returned.inj hr
    refine ⟨fun o ho => (ht o ho).trans he, fun hc => ?_⟩
    rw [hop] at hc
    cases hc

theorem at_of_getElem? {t : SlotWait × SlotWaitPhase} (h : s.waits[i]? = some t) :
    s.waits.At i t.1 t.2 := h

theorem atWait_eq_some {f : SlotWait → Option ObjectTable} (h : s.atWait i x f = some s') :
    ∃ k, s.waits.At i k x ∧ f k = some s' := by
  obtain ⟨t, ht, hs⟩ := bind_eq_some_iff.1 h
  split at hs
  · next hx =>
    subst hx
    exact ⟨t.1, at_of_getElem? ht, hs⟩
  · cases hs

theorem Sound.lookAt {tu : Bool} (h : s.Sound) (ha : s.waits.At i k .waiting)
    (hs : s.lookAt i k tu = some s') : s'.Sound := by
  dsimp only [ObjectTable.lookAt] at hs
  split at hs
  · cases hs
  split at hs
  · cases hs
    exact (h.setLocked true).goTo ha rfl nofun nofun
  split at hs
  · cases hs
    exact h.retNothing ha rfl (.inr rfl)
  · cases hs
    exact h

theorem Sound.checkUsed (h : s.Sound) (ha : s.waits.At i k .awake) : (s.checkUsed i k).Sound := by
  unfold ObjectTable.checkUsed
  split
  · next hu => exact h.goTo ha rfl (fun _ => hu) nofun
  · exact (h.setLocked false).retNothing ha rfl (.inl rfl)

theorem Sound.takeFrom {es : Bool} (h : s.Sound) (ha : s.waits.At i k .checked) :
    (s.takeFrom i k es).Sound := by
  have hu : (s.slots k.slot).used := h.inUse i k _ ha rfl
  unfold ObjectTable.takeFrom
  split
  · exact h.goTo ha rfl nofun nofun
  set sl : TableSlot := { (s.slots k.slot).take k.self with locked := false }
  have hf : sl.used = (s.slots k.slot).used := TableSlot.used_take
  apply (h.write sl hf).retOpen ha rfl
  · rw [used_write sl hf]
    exact hu
  · rintro o ho
    exact (some.inj ho).symm

theorem Sound.enterWait (h : s.Sound) (ha : s.waits.At i k .processFound) :
    (s.enterWait i k).Sound := by
  dsimp only [ObjectTable.enterWait]
  split
  · exact h.retNothing ha rfl (.inl rfl)
  next hc =>
  apply h.goTo ha rfl
  · intro _
    by_contra hu
    exact hc (.inl (by simpa using hu))
  · rintro r hr
    cases hr

theorem Sound.pollProcess {es e tu : Bool} (h : s.Sound) (ha : s.waits.At i k .processPolling) :
    (s.pollProcess i k es e tu).Sound := by
  have hu : (s.slots k.slot).used := h.inUse i k _ ha rfl
  dsimp only [ObjectTable.pollProcess]
  split
  · exact h.retOpen ha rfl hu nofun
  split
  · exact h.goTo ha rfl nofun nofun
  split
  · set sl : TableSlot := { s.slots k.slot with processRunning := false }
    apply (h.write sl rfl).retOpen ha rfl
    · rw [used_write sl rfl]
      exact hu
    · rintro o ho
      exact (some.inj ho).symm
  split
  · exact h.retNothing ha rfl (.inr rfl)
  · exact h

/-! ### What the other steps keep -/

theorem Sound.create {se : ℕ} {o : NewObject} (h : s.Sound)
    (hn : SlotWait.lodging.NoneAt s.waits j) :
    Sound { s.write j ((s.slots j).create se o) with
      tenant := update s.tenant j (s.tenant j + 1) } where
  current := Lodging.current_relet h.current hn
  inUse i k x ha hx := by
    have he : k.slot ≠ j := hn.slot_ne ha (SlotWaitPhase.live_of_committed hx)
    have hs : (s.write j ((s.slots j).create se o)).slots k.slot = s.slots k.slot :=
      update_of_ne he _ _
    show ((s.write j ((s.slots j).create se o)).slots k.slot).used
    rw [hs]
    exact h.inUse i k x ha hx
  faithful := h.faithful

theorem Sound.wait {se sl : ℕ} {ms : Option ℕ} (h : s.Sound) :
    Sound { s with waits := s.waits.start ⟨se, sl, s.tenant sl, ms⟩ .found } where
  current := Lodging.current_start h.current rfl
  inUse i k x hat := Pool.each_start
    (P := fun k x => SlotWaitPhase.committed x → (s.slots (SlotWait.slot k)).used)
    h.inUse (fun hx => by cases hx) hat
  faithful i k r hat := Pool.each_start
    (P := fun k x => ∀ r, x = .returned r → WaitReturn.Faithful (SlotWait.object k) r)
    h.faithful_at (fun r hr => by cases hr) hat r rfl

theorem Sound.clear (h : s.Sound)
    (hn : SlotWait.commitment.NoneAt s.waits j) : (s.write j sl).Sound where
  current := h.current
  inUse i k x ha hx := by
    have hs : (s.write j sl).slots k.slot = s.slots k.slot := update_of_ne (hn.slot_ne ha hx) _ _
    rw [hs]
    exact h.inUse i k x ha hx
  faithful := h.faithful

theorem Sound.withCalls (h : s.Sound) (cs : Pool SlotCall Bool) : Sound { s with calls := cs } where
  current := h.current
  inUse := h.inUse
  faithful := h.faithful

/-- **An orderly step leaves every wait on its object.** -/
theorem Sound.step {a : ObjectAction} (h : s.Sound) (ho : s.Orderly a)
    (hs : s.step a = some s') : s'.Sound := by
  cases a with
  | create se o =>
    simp only [ObjectTable.step] at hs
    split at hs
    · cases hf : s.freeSlot with
      | none =>
        rw [hf] at hs
        cases hs
        exact h
      | some j =>
        rw [hf] at hs
        cases hs
        exact h.create (ho j hf)
    · cases hs
      exact h
  | wait se sl ms =>
    simp only [ObjectTable.step] at hs
    split at hs
    · cases hs
      exact h.wait
    · cases hs
      exact h
  | readKind i =>
    simp only [ObjectTable.step] at hs
    obtain ⟨k, ha, hk⟩ := atWait_eq_some hs
    cases hk
    apply h.goTo ha rfl
    · split <;> exact nofun
    · split <;> exact fun r hr => by cases hr
  | look i tu =>
    simp only [ObjectTable.step] at hs
    obtain ⟨k, ha, hk⟩ := atWait_eq_some hs
    exact h.lookAt ha hk
  | check i =>
    simp only [ObjectTable.step] at hs
    obtain ⟨k, ha, hk⟩ := atWait_eq_some hs
    cases hk
    exact h.checkUsed ha
  | finish i es =>
    simp only [ObjectTable.step] at hs
    obtain ⟨k, ha, hk⟩ := atWait_eq_some hs
    cases hk
    exact h.takeFrom ha
  | enterProcess i =>
    simp only [ObjectTable.step] at hs
    obtain ⟨k, ha, hk⟩ := atWait_eq_some hs
    cases hk
    exact h.enterWait ha
  | poll i es e tu =>
    simp only [ObjectTable.step] at hs
    obtain ⟨k, ha, hk⟩ := atWait_eq_some hs
    cases hk
    exact h.pollProcess ha
  | call se sl op =>
    simp only [ObjectTable.step] at hs
    split at hs
    · cases hs
      exact h.withCalls _
    · cases hs
      exact h
  | apply i =>
    obtain ⟨t, ht, hk⟩ := bind_eq_some_iff.1 hs
    split at hk
    · cases hk
    cases hk
    refine Sound.withCalls ?_ _
    by_cases hc : t.1.op = .close
    · exact h.clear (ho t ht hc)
    · exact h.write _ (SlotOp.used_apply hc)

theorem sound_start : Sound {} where
  current := Lodging.current_nil
  inUse i k x hat := by simp [Pool.At] at hat
  faithful i k r hat := by simp [Pool.At] at hat

end Steps
end ObjectTable
end TradutorLinux.Sync
