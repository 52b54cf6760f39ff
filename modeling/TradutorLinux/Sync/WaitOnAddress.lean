import TradutorLinux.Util.Bytes

/-!
# `WaitOnAddress` and its wake-ups

`tl_WaitOnAddress`, `tl_WakeByAddressSingle` and `tl_WakeByAddressAll` of
`kernel32/sync.cpp`.  Every address has a version of its own, and all addresses
share the mutex `g_wait_address_mutex` and the condition variable
`g_wait_address_cv`.  A step is one section under the mutex, one notification,
or something that happens to a thread asleep in the condition variable.

A version is an `int`, which has no defined value after `2 ^ 31 - 1` wake-ups of
one address: the runs have no more.

## Main definitions

* `AddressWaits` — guest memory, the versions, and the threads in the two calls.
* `AddressWaits.Step`, `AddressWaits.Reachable` — every interleaving.
* `Blocked`, `Released`

## Main results

* `wakes_iff`
-/

namespace TradutorLinux.Sync

open Function List

/-! ### The calls -/

/-- The arguments of `tl_WaitOnAddress`; `milliseconds` is absent for `kInfinite`. -/
structure AddressWaitCall where
  address : ℕ
  compareAddress : ℕ
  addressSize : ℕ
  milliseconds : Option ℕ

/-- How `tl_WaitOnAddress` ends: 1, or 0 and the error it sets. -/
inductive AddressWaitEnd
  | success
  | timeout
  | invalidParameter
deriving DecidableEq

abbrev GuestBytes := ℕ → Option UInt8

/-- `read_guest_memory`. -/
def readGuestMemory (memory : GuestBytes) (address : ℕ) : ℕ → Option ByteString
  | 0 => some []
  | size + 1 => do
    let byte ← memory address
    let bytes ← readGuestMemory memory (address + 1) size
    return byte :: bytes

variable {call ca c : AddressWaitCall}

namespace AddressWaitCall

/-- `values_differ`: that the two values differ, or that one is not readable. -/
def valuesDiffer (call : AddressWaitCall) (memory : GuestBytes) : Option AddressWaitEnd :=
  match readGuestMemory memory call.address call.addressSize,
    readGuestMemory memory call.compareAddress call.addressSize with
  | some current, some expected => if current ≠ expected then some .success else none
  | _, _ => some .invalidParameter

/-- What happens before the mutex is taken: the call ends, or goes on to wait. -/
def begin (call : AddressWaitCall) (memory : GuestBytes) : Option AddressWaitEnd :=
  if call.address = 0 ∨ call.compareAddress = 0 then some .invalidParameter
  else if call.addressSize ≠ 1 ∧ call.addressSize ≠ 2 ∧ call.addressSize ≠ 4 ∧
      call.addressSize ≠ 8 then some .invalidParameter
  else if call.address % call.addressSize ≠ 0 then some .invalidParameter
  else call.valuesDiffer memory

/-- The predicate of the wait: the end it leads to, when it is true. -/
def pred (call : AddressWaitCall) (memory : GuestBytes) (version startVersion : ℤ) :
    Option AddressWaitEnd :=
  if version ≠ startVersion then some .success else call.valuesDiffer memory

theorem pred_of_ne {mem : GuestBytes} {v sv : ℤ}
    (h : v ≠ sv) : c.pred mem v sv = some .success := by
  simp [pred, h]

end AddressWaitCall

/-! ### Threads -/

/-- Where a thread is in `tl_WaitOnAddress`. -/
inductive WaitPhase
  /-- Before `g_wait_address_mutex`. -/
  | called
  /-- Asleep in `g_wait_address_cv`. -/
  | waiting (startVersion : ℤ)
  /-- Out of the condition variable, on its way to the mutex and the predicate. -/
  | woken (startVersion : ℤ) (timedOut : Bool)
  | returned (result : AddressWaitEnd)
deriving DecidableEq

/-- Inside the wait that has begun with `startVersion`. -/
def WaitPhase.Inside (startVersion : ℤ) (phase : WaitPhase) : Prop :=
  phase = .waiting startVersion ∨ ∃ timedOut, phase = .woken startVersion timedOut

/-- One call of `tl_WaitOnAddress`. -/
@[ext]
structure AddressWaiter where
  call : AddressWaitCall
  phase : WaitPhase

/-- What `notify_all` does to a thread. -/
def AddressWaiter.notified (w : AddressWaiter) : AddressWaiter :=
  match w.phase with
  | .waiting startVersion => { w with phase := .woken startVersion false }
  | _ => w

inductive WakeKind
  | single
  | all
deriving DecidableEq

/-- One call of `tl_WakeByAddressSingle` or `tl_WakeByAddressAll`, after its section under
the mutex; `done` once it has notified. -/
structure AddressWaker where
  kind : WakeKind
  done : Bool := false

/-- The process, as far as the three functions see it. -/
structure AddressWaits where
  memory : GuestBytes
  versions : ℕ → ℤ := fun _ => 0
  waiters : List AddressWaiter := []
  wakers : List AddressWaker := []

namespace AddressWaits

variable {s s' : AddressWaits}

/-- The thread moves to another phase. -/
def setPhase (s : AddressWaits) (i : ℕ) (phase : WaitPhase) : AddressWaits :=
  { s with waiters := s.waiters.modify i fun w => { w with phase := phase } }

/-- The thread `i` of the list is in `phase` of `call`. -/
def At (s : AddressWaits) (i : ℕ) (call : AddressWaitCall) (phase : WaitPhase) : Prop :=
  s.waiters[i]? = some ⟨call, phase⟩

/-- The thread sleeps in the condition variable. -/
def Waiting (s : AddressWaits) (i : ℕ) : Prop :=
  ∃ call startVersion, s.At i call (.waiting startVersion)

/-- The section of `tl_WaitOnAddress` that decides whether to sleep. -/
def enterPhase (s : AddressWaits) (call : AddressWaitCall) : WaitPhase :=
  match call.pred s.memory (s.versions call.address) (s.versions call.address) with
  | some result => .returned result
  | none => .waiting (s.versions call.address)

/-- The predicate after a wake-up: back to the guest, or to sleep again unless the time is up. -/
def resumePhase (s : AddressWaits) (call : AddressWaitCall) (startVersion : ℤ)
    (timedOut : Bool) : WaitPhase :=
  match call.pred s.memory (s.versions call.address) startVersion with
  | some result => .returned result
  | none => if timedOut then .returned .timeout else .waiting startVersion

/-- The address may be woken: it is not null, and its version, an `int`, can grow. -/
def Wakeable (s : AddressWaits) (address : ℕ) : Prop :=
  address ≠ 0 ∧ s.versions address < 0x7FFFFFFF

/-- The section of both wake functions. -/
def bump (s : AddressWaits) (address : ℕ) (kind : WakeKind) : AddressWaits :=
  { s with
    versions := update s.versions address (s.versions address + 1)
    wakers := s.wakers ++ [{ kind := kind }] }

/-- The waker has notified. -/
def finish (s : AddressWaits) (j : ℕ) : AddressWaits :=
  { s with wakers := s.wakers.modify j fun w => { w with done := true } }

/-- The notification of the waker `j`; `notify_one` takes any thread that sleeps. -/
inductive Notify (s : AddressWaits) (j : ℕ) : AddressWaits → Prop
  | one {i : ℕ} {call : AddressWaitCall} {startVersion : ℤ} :
      s.wakers[j]? = some ⟨.single, false⟩ → s.At i call (.waiting startVersion) →
      Notify s j ((s.setPhase i (.woken startVersion false)).finish j)
  | nobody : s.wakers[j]? = some ⟨.single, false⟩ → (∀ i, ¬s.Waiting i) →
      Notify s j (s.finish j)
  | all : s.wakers[j]? = some ⟨.all, false⟩ →
      Notify s j ({ s with waiters := s.waiters.map AddressWaiter.notified }.finish j)

/-- One step of any thread, of the guest's memory, or of the clock. -/
inductive Step (s : AddressWaits) : AddressWaits → Prop
  | store (memory : GuestBytes) : Step s { s with memory := memory }
  | wait (call : AddressWaitCall) : Step s
      { s with waiters := s.waiters ++
          [⟨call, ((call.begin s.memory).map WaitPhase.returned).getD .called⟩] }
  | enter {i : ℕ} {call : AddressWaitCall} : s.At i call .called →
      Step s (s.setPhase i (s.enterPhase call))
  | spurious {i : ℕ} {call : AddressWaitCall} {startVersion : ℤ} :
      s.At i call (.waiting startVersion) → Step s (s.setPhase i (.woken startVersion false))
  | timeout {i : ℕ} {call : AddressWaitCall} {startVersion : ℤ} :
      s.At i call (.waiting startVersion) → call.milliseconds.isSome →
      Step s (s.setPhase i (.woken startVersion true))
  | resume {i : ℕ} {call : AddressWaitCall} {startVersion : ℤ} {timedOut : Bool} :
      s.At i call (.woken startVersion timedOut) →
      Step s (s.setPhase i (s.resumePhase call startVersion timedOut))
  | wake (address : ℕ) (kind : WakeKind) : s.Wakeable address → Step s (s.bump address kind)
  | notify {j : ℕ} {s' : AddressWaits} : Notify s j s' → Step s s'

/-- What any interleaving reaches. -/
def Reachable (s : AddressWaits) : Prop :=
  ∃ memory, Relation.ReflTransGen Step { memory := memory } s

/-! ### The statement -/

/-- The thread is inside the wait for `address`. -/
def Blocked (s : AddressWaits) (address i : ℕ) : Prop :=
  ∃ call startVersion, call.address = address ∧
    (s.At i call (.waiting startVersion) ∨ ∃ timedOut, s.At i call (.woken startVersion timedOut))

/-- The thread has left the condition variable and its predicate is true, or it has returned. -/
def Released (s : AddressWaits) (i : ℕ) : Prop :=
  ∃ call, (∃ result, s.At i call (.returned result)) ∨
    ∃ startVersion timedOut, s.At i call (.woken startVersion timedOut) ∧
      (call.pred s.memory (s.versions call.address) startVersion).isSome

/-- `before` is the state in which a wake-up of `address` starts, `during` one in which it is
about to notify. -/
def Wakes (kind : WakeKind) (address : ℕ) (before during : AddressWaits) : Prop :=
  before.Reachable ∧ before.Wakeable address ∧
    Relation.ReflTransGen Step (before.bump address kind) during ∧
    during.wakers[before.wakers.length]? = some ⟨kind, false⟩

/-- Whoever is notified, a thread that was blocked on the address is released. -/
def WakesOne (address : ℕ) (before during : AddressWaits) : Prop :=
  ∀ after, Notify during before.wakers.length after →
    ∃ i, before.Blocked address i ∧ after.Released i

/-- All that were blocked on the address are released. -/
def WakesAll (address : ℕ) (before during : AddressWaits) : Prop :=
  ∀ after, Notify during before.wakers.length after →
    ∀ i, before.Blocked address i → after.Released i

/-! ### What a step does to a thread -/

theorem blocked_iff {ad i : ℕ} : s.Blocked ad i ↔ ∃ c startVersion p, c.address = ad ∧ s.At i c p ∧
      p.Inside startVersion := by
  constructor
  · rintro ⟨c, startVersion, ha, ht | ⟨t, ht⟩⟩
    · exact ⟨c, startVersion, _, ha, ht, .inl rfl⟩
    · exact ⟨c, startVersion, _, ha, ht, .inr ⟨t, rfl⟩⟩
  · rintro ⟨c, startVersion, p, ha, ht, rfl | ⟨t, rfl⟩⟩
    · exact ⟨c, startVersion, ha, .inl ht⟩
    · exact ⟨c, startVersion, ha, .inr ⟨t, ht⟩⟩

theorem At.unique {i : ℕ} {c c' : AddressWaitCall} {p phase' : WaitPhase}
    (h : s.At i c p) (h' : s.At i c' phase') : c = c' ∧ p = phase' := by
  have heq := h.symm.trans h'
  simpa using heq

theorem at_setPhase {i k : ℕ} {p phase' : WaitPhase} : (s.setPhase i p).At k c phase' ↔
      if i = k then phase' = p ∧ ∃ o, s.At k c o else s.At k c phase' := by
  unfold At setPhase
  rw [getElem?_modify]
  by_cases hi : i = k
  · subst hi
    cases s.waiters[i]? with
    | none => simp
    | some w => simp [AddressWaiter.ext_iff, and_comm, eq_comm]
  · simp [hi]

variable {phase ph p : WaitPhase}

@[simp] theorem at_finish {j i : ℕ} : (s.finish j).At i call phase ↔ s.At i call phase := Iff.rfl

theorem At.setPhase {i : ℕ} {o phase : WaitPhase}
    (h : s.At i call o) : (s.setPhase i phase).At i call phase := by
  rw [at_setPhase, if_pos rfl]
  exact ⟨rfl, o, h⟩

theorem At.setPhase_of_ne {i k : ℕ} {phase ph' : WaitPhase}
    (h : s.At k call phase) (hn : i ≠ k) : (s.setPhase i ph').At k call phase := by
  rw [at_setPhase, if_neg hn]
  exact h

theorem at_notified {i : ℕ} (h : s.At i c p) :
    ({ s with waiters := s.waiters.map AddressWaiter.notified } : AddressWaits).At i c
      (match p with | .waiting startVersion => .woken startVersion false | p => p) := by
  unfold At at h ⊢
  simp only [getElem?_map, h, Option.map_some]
  cases p <;> rfl

theorem Notify.frame {j : ℕ} (h : Notify s j s') :
    s'.memory = s.memory ∧ s'.versions = s.versions := by
  cases h <;> exact ⟨rfl, rfl⟩

theorem Notify.at_of_not_waiting {j i : ℕ}
    (h : Notify s j s') (ha : s.At i call phase) (hp : ∀ v, phase ≠ .waiting v) :
    s'.At i call phase := by
  cases h with
  | @one k call' v _ hk =>
    refine At.setPhase_of_ne ha fun hi => ?_
    subst hi
    exact hp v (ha.unique hk).2
  | nobody _ _ => exact ha
  | all _ =>
    have hn := at_notified ha
    cases phase with
    | waiting v => exact absurd rfl (hp v)
    | called => exact hn
    | woken v t => exact hn
    | returned r => exact hn

/-- A notification moves a thread inside the wait at most out of the condition variable. -/
theorem Notify.at_inside {j i : ℕ} {v : ℤ} (h : Notify s j s') (ha : s.At i c p) (hn : p.Inside v) :
    ∃ ph', s'.At i c ph' ∧ ph'.Inside v := by
  rcases hn with rfl | ⟨timedOut, rfl⟩
  · cases h with
    | @one k call' v' _ hk =>
      by_cases hi : k = i
      · subst hi
        obtain ⟨rfl, hv⟩ := ha.unique hk
        obtain rfl := WaitPhase.waiting.inj hv
        exact ⟨_, At.setPhase (s := s) hk, .inr ⟨false, rfl⟩⟩
      · exact ⟨_, At.setPhase_of_ne (s := s) ha hi, .inl rfl⟩
    | nobody _ _ => exact ⟨_, ha, .inl rfl⟩
    | all _ => exact ⟨_, at_notified ha, .inr ⟨false, rfl⟩⟩
  · exact ⟨_, h.at_of_not_waiting ha (by simp), .inr ⟨timedOut, rfl⟩⟩

attribute [local simp] WaitPhase.Inside

/-- **A thread inside a wait stays in it or returns**. -/
theorem Step.at_inside {i : ℕ} {v : ℤ} (h : Step s s') (ha : s.At i c p) (hi : p.Inside v) :
    ∃ ph', s'.At i c ph' ∧ (ph'.Inside v ∨ ∃ r, ph' = .returned r) := by
  have hm : ∀ {k : ℕ} {c' : AddressWaitCall} {o n : WaitPhase}, s.At k c' o →
      (o.Inside v → n.Inside v ∨ ∃ r, n = .returned r) →
      ∃ ph', (s.setPhase k n).At i c ph' ∧ (ph'.Inside v ∨ ∃ r, ph' = .returned r) := by
    intro k c' o n hk hn
    by_cases hki : k = i
    · subst hki
      obtain ⟨rfl, rfl⟩ := ha.unique hk
      exact ⟨_, At.setPhase ha, hn hi⟩
    · exact ⟨_, At.setPhase_of_ne ha hki, .inl hi⟩
  cases h with
  | store m => exact ⟨_, ha, .inl hi⟩
  | wait c' =>
    refine ⟨p, ?_, .inl hi⟩
    unfold At at ha ⊢
    rw [getElem?_append_left (List.getElem?_eq_some_iff.1 ha).1]
    exact ha
  | enter hk => exact hm hk (by simp)
  | spurious hk => exact hm hk (by simp)
  | timeout hk _ => exact hm hk (by simp)
  | @resume k c' v' timedOut hk =>
    refine hm hk fun hv => ?_
    obtain rfl : v' = v := by simpa using hv
    unfold resumePhase
    split
    · exact .inr ⟨_, rfl⟩
    · cases timedOut
      · exact .inl (.inl rfl)
      · exact .inr ⟨_, rfl⟩
  | wake ad kind _ => exact ⟨_, ha, .inl hi⟩
  | notify hnotify =>
    obtain ⟨ph', ha', hi'⟩ := hnotify.at_inside ha hi
    exact ⟨ph', ha', .inl hi'⟩

theorem Step.at_returned {i : ℕ} {r : AddressWaitEnd}
    (h : Step s s') (ha : s.At i c (.returned r)) : s'.At i c (.returned r) := by
  have hm : ∀ {k : ℕ} {c' : AddressWaitCall} {o n : WaitPhase}, s.At k c' o →
      (∀ r, o ≠ .returned r) → (s.setPhase k n).At i c (.returned r) := by
    intro k c' o n hk hold
    refine At.setPhase_of_ne ha fun hi => ?_
    subst hi
    exact hold r (hk.unique ha).2
  cases h with
  | store mem => exact ha
  | wait c' =>
    unfold At at ha ⊢
    rw [getElem?_append_left (List.getElem?_eq_some_iff.1 ha).1]
    exact ha
  | enter hk => exact hm hk (by simp)
  | spurious hk => exact hm hk (by simp)
  | timeout hk _ => exact hm hk (by simp)
  | resume hk => exact hm hk (by simp)
  | wake ad kind _ => exact ha
  | notify hn => exact hn.at_of_not_waiting ha (by simp)

theorem Step.versions_le (h : Step s s') (address : ℕ) :
    s.versions address ≤ s'.versions address := by
  cases h with
  | wake a kind _ =>
    change _ ≤ update s.versions a (s.versions a + 1) address
    by_cases ha : address = a
    · subst ha
      simp
    · simp [ha]
  | notify hn => rw [hn.frame.2]
  | _ => exact le_refl _

/-! ### Runs -/

/-- No wait has begun with a version still to come. -/
def StartsBelow (s : AddressWaits) : Prop :=
  ∀ i call phase startVersion, s.At i call phase → phase.Inside startVersion →
    startVersion ≤ s.versions call.address

theorem Step.startsBelow (h : Step s s') (hs : s.StartsBelow) : s'.StartsBelow := by
  -- the thread that moves is inside the wait it was in, or begins with the version of now
  have hm : ∀ {k : ℕ} {c' : AddressWaitCall} {o n : WaitPhase}, s.At k c' o →
      (∀ v, n.Inside v → o.Inside v ∨ v = s.versions c'.address) →
      (s.setPhase k n).StartsBelow := by
    intro k c' o n hk hn i call phase v ha hi
    rw [at_setPhase] at ha
    split at ha
    · next hki =>
      subst hki
      obtain ⟨rfl, o', hold'⟩ := ha
      obtain ⟨rfl, rfl⟩ := hk.unique hold'
      rcases hn v hi with hold | rfl
      · exact hs k c' o v hk hold
      · exact le_refl _
    · exact hs i call phase v ha hi
  cases h with
  | store memory => exact hs
  | wait c' =>
    intro i call phase v ha hi
    unfold At at ha
    rw [getElem?_append] at ha
    split at ha
    · exact hs i call phase v ha hi
    rw [getElem?_singleton] at ha
    split at ha
    · obtain ⟨rfl, rfl⟩ : c' = call ∧ _ = phase := by simpa using ha
      cases hb : AddressWaitCall.begin c' s.memory <;>
        simp [hb] at hi
    · cases ha
  | @enter k c' hk =>
    refine hm hk fun v hv => .inr ?_
    unfold enterPhase at hv
    split at hv
    · simp at hv
    · have ht : s.versions c'.address = v := by simpa using hv
      exact ht.symm
  | spurious hk => exact hm hk (by simp)
  | timeout hk _ => exact hm hk (by simp)
  | @resume k c' v' timedOut hk =>
    refine hm hk fun v hv => .inl ?_
    unfold resumePhase at hv
    split at hv
    · simp at hv
    · cases timedOut <;> simp_all
  | wake a kind he =>
    intro i call phase v ha hi
    exact (hs i call phase v ha hi).trans ((Step.wake a kind he).versions_le call.address)
  | @notify j _ hnot =>
    intro i call phase v ha hi
    cases hnot with
    | one _ hk => exact hm hk (by simp) i call phase v ha hi
    | nobody _ _ => exact hs i call phase v ha hi
    | all _ =>
      unfold At at ha
      simp only [getElem?_map, finish, Option.map_eq_some_iff] at ha
      obtain ⟨⟨c', ph'⟩, hw, heq⟩ := ha
      have hold := hs i c' ph' v hw
      cases ph' with
      | waiting v' =>
        obtain ⟨rfl, rfl⟩ : c' = call ∧ WaitPhase.woken v' false = phase := by
          simpa [AddressWaiter.notified] using heq
        obtain rfl : v' = v := by simpa using hi
        exact hold (.inl rfl)
      | _ =>
        obtain ⟨rfl, rfl⟩ := AddressWaiter.mk.inj heq
        exact hold hi

theorem Reachable.startsBelow (h : s.Reachable) : s.StartsBelow := by
  obtain ⟨mem, hr⟩ := h
  induction hr with
  | refl => exact fun i c p v ha => by simp [At] at ha
  | tail _ hs ih => exact hs.startsBelow ih

theorem run_inside {i : ℕ} {v : ℤ}
    (hr : Relation.ReflTransGen Step s s') (ha : s.At i c p) (hi : p.Inside v) :
    s.versions c.address ≤ s'.versions c.address ∧
      ∃ ph', s'.At i c ph' ∧ (ph'.Inside v ∨ ∃ r, ph' = .returned r) := by
  induction hr with
  | refl => exact ⟨le_refl _, p, ha, .inl hi⟩
  | tail _ hs ih =>
    obtain ⟨hl, ph', ha', hp' | ⟨r, rfl⟩⟩ := ih
    · exact ⟨hl.trans (hs.versions_le _), hs.at_inside ha' hp'⟩
    · exact ⟨hl.trans (hs.versions_le _), _, hs.at_returned ha', .inr ⟨r, rfl⟩⟩

/-! ### The wake-ups -/

variable {kind : WakeKind} {address ad i : ℕ} {before b during d after : AddressWaits}

/-- Where a thread is, that was blocked on the address, when the wake-up is about to notify: in
its wait, with a version that is over, or back in the guest. -/
theorem Wakes.outdated (h : Wakes kind ad b d) (hb : b.Blocked ad i) : ∃ c p, d.At i c p ∧
      ((∃ v, p.Inside v ∧ d.versions c.address ≠ v) ∨ ∃ r, p = .returned r) := by
  obtain ⟨hr, -, hu, -⟩ := h
  obtain ⟨c, v, p, rfl, ha, hi⟩ := blocked_iff.1 hb
  have hv : v ≤ b.versions c.address := hr.startsBelow i c p v ha hi
  obtain ⟨hl, ph', ha', hp'⟩ := run_inside hu (s := b.bump c.address kind) ha hi
  have hm : (b.bump c.address kind).versions c.address =
      b.versions c.address + 1 := update_self ..
  refine ⟨c, ph', ha', hp'.imp_left fun hn => ⟨v, hn, ?_⟩⟩
  omega

theorem released_of_not_waiting (ha : after.At i c p)
    (hp : (∃ v, p.Inside v ∧ after.versions c.address ≠ v) ∨ ∃ r, p = .returned r)
    (hw : ¬after.Waiting i) : after.Released i := by
  refine ⟨c, ?_⟩
  rcases hp with ⟨v, rfl | ⟨t, rfl⟩, hn⟩ | ⟨r, rfl⟩
  · exact absurd ⟨c, v, ha⟩ hw
  · refine .inr ⟨v, t, ha, ?_⟩
    rw [AddressWaitCall.pred_of_ne hn]
    rfl
  · exact .inl ⟨r, ha⟩

theorem Wakes.released (h : Wakes kind ad b d) (hb : b.Blocked ad i)
    (hnot : Notify d b.wakers.length after) (hw : ¬after.Waiting i) : after.Released i := by
  obtain ⟨c, p, ha, hp⟩ := h.outdated hb
  rcases hp with ⟨v, hi, hn⟩ | ⟨r, rfl⟩
  · obtain ⟨ph', ha', hi'⟩ := hnot.at_inside ha hi
    refine released_of_not_waiting ha' (.inl ⟨v, hi', ?_⟩) hw
    rw [hnot.frame.2]
    exact hn
  · exact released_of_not_waiting (hnot.at_of_not_waiting ha (by simp)) (.inr ⟨r, rfl⟩) hw

theorem not_waiting_of_notified {k : ℕ} {v : ℤ} (h : s.At k call (.waiting v)) (j : ℕ) :
    ¬((s.setPhase k (.woken v false)).finish j).Waiting k := by
  rintro ⟨c', v', ha⟩
  have hp := (At.unique (at_finish.1 ha) (At.setPhase h)).2
  cases hp

/-- **Wake-ups.**  `WakeByAddressSingle` releases a thread that was blocked on the address,
whoever is notified, exactly when such a thread does not sleep any more or only such threads
sleep; `WakeByAddressAll` releases all of them. -/
theorem wakes_iff (address : ℕ) (before during : AddressWaits) :
    (Wakes .single address before during → (∃ i, before.Blocked address i) →
      (WakesOne address before during ↔
        (∃ i, before.Blocked address i ∧ ¬during.Waiting i) ∨
          ∀ i, during.Waiting i → before.Blocked address i)) ∧
    (Wakes .all address before during → WakesAll address before during) := by
  constructor
  · intro h hs
    constructor
    · intro hwa
      by_contra hc
      push Not at hc
      obtain ⟨hl, k, hk, ho⟩ := hc
      obtain ⟨call, v, ha⟩ := hk
      -- the notification goes to the thread that was not blocked on the address
      obtain ⟨i, hb, call', he⟩ := hwa _ (.one h.2.2.2 ha)
      obtain ⟨c'', v', hi⟩ := hl i hb
      have hne : k ≠ i := fun hki => ho (hki ▸ hb)
      have hi' : ((during.setPhase k (.woken v false)).finish before.wakers.length).At i c''
          (.waiting v') := At.setPhase_of_ne hi hne
      rcases he with ⟨r, hr⟩ | ⟨v'', t, hr, -⟩
      · exact WaitPhase.noConfusion (hi'.unique hr).2
      · exact WaitPhase.noConfusion (hi'.unique hr).2
    · rintro (⟨i, hb, hi⟩ | hon) after ht
      · refine ⟨i, hb, h.released hb ht ?_⟩
        rintro ⟨call, v, ha⟩
        obtain ⟨call', phase, ha', hp⟩ := h.outdated hb
        have hnot : ∀ v, phase ≠ .waiting v := by
          rintro v rfl
          exact hi ⟨call', v, ha'⟩
        exact hnot v ((ht.at_of_not_waiting ha' hnot).unique ha).2
      · have hw := h.2.2.2
        cases ht with
        | @one k call v hj hk =>
          have hb := hon k ⟨call, v, hk⟩
          exact ⟨k, hb, h.released hb (.one hj hk) (not_waiting_of_notified hk _)⟩
        | nobody hj hn =>
          obtain ⟨i, hb⟩ := hs
          exact ⟨i, hb, h.released hb (.nobody hj hn) (hn i)⟩
        | all hj =>
          rw [hw] at hj
          cases hj
  · intro h after ht i hb
    refine h.released hb ht ?_
    have hw := h.2.2.2
    cases ht with
    | one hj _ =>
      rw [hw] at hj
      cases hj
    | nobody hj _ =>
      rw [hw] at hj
      cases hj
    | all hj =>
      rintro ⟨call, v, ha⟩
      obtain ⟨call', phase, ha', -⟩ := h.outdated hb
      have hp := ((at_notified ha').unique (at_finish.mp ha)).2
      cases phase <;> cases hp

/-! ### Two threads -/

/-- A wait on four zero bytes at `address`, without a timeout. -/
def zeroWait (address : ℕ) : AddressWaitCall := ⟨address, 24, 4, none⟩

def twoAsleep (first second : ℕ) : AddressWaits where
  memory := fun _ => some 0
  waiters := [⟨zeroWait first, .waiting 0⟩, ⟨zeroWait second, .waiting 0⟩]

theorem wakes_twoAsleep (f snd : ℕ) (kind : WakeKind) (ad : ℕ)
    (ha : ad ≠ 0) (hf : (zeroWait f).begin (fun _ => some 0) = none)
    (hs : (zeroWait snd).begin (fun _ => some 0) = none) :
    Wakes kind ad (twoAsleep f snd) ((twoAsleep f snd).bump ad kind) := by
  refine ⟨⟨fun _ => some 0, ?_⟩, ⟨ha, show (0 : ℤ) < 0x7FFFFFFF by decide⟩, .refl, rfl⟩
  have ho : Relation.ReflTransGen Step { memory := fun _ => some 0 }
      { memory := fun _ => some 0, waiters := [⟨zeroWait f, .waiting 0⟩] } := by
    have hc := Step.wait (s := { memory := fun _ => some 0 }) (zeroWait f)
    rw [hf] at hc
    have he := @Step.enter { memory := fun _ => some 0, waiters := [⟨_, .called⟩] } 0
      (zeroWait f) rfl
    exact (Relation.ReflTransGen.single hc).tail he
  have hc := Step.wait (s := { memory := fun _ => some 0, waiters := [⟨zeroWait f, .waiting 0⟩] })
    (zeroWait snd)
  rw [hs] at hc
  have he := @Step.enter
    { memory := fun _ => some 0, waiters := [⟨zeroWait f, .waiting 0⟩, ⟨_, .called⟩] } 1
    (zeroWait snd) rfl
  exact (ho.tail hc).tail he

/-- A wake-up of one address goes to the thread asleep on another: nobody is released. -/
theorem not_wakesOne_twoAsleep :
    Wakes .single 8 (twoAsleep 8 16) ((twoAsleep 8 16).bump 8 .single) ∧
      (twoAsleep 8 16).Blocked 8 0 ∧
      ¬WakesOne 8 (twoAsleep 8 16) ((twoAsleep 8 16).bump 8 .single) := by
  refine ⟨wakes_twoAsleep 8 16 .single 8 (by decide) rfl rfl, ⟨zeroWait 8, 0, rfl, .inl rfl⟩, ?_⟩
  intro hw
  obtain ⟨i, hb, call, he⟩ := hw _ (@Notify.one _ _ 1 (zeroWait 16) 0 rfl rfl)
  obtain ⟨c', v, hd, ha⟩ := hb
  match i with
  | 0 =>
    -- the thread on the address still sleeps
    rcases he with ⟨r, hr⟩ | ⟨v', t, hr, -⟩ <;> cases hr
  | 1 =>
    rcases ha with ha | ⟨t, ha⟩
    · cases ha
      cases hd
    · cases ha
  | i + 2 => rcases ha with ha | ⟨t, ha⟩ <;> cases ha

/-- With both threads on the address, both wake-ups work. -/
theorem wakes_iff_twoAsleep : WakesOne 8 (twoAsleep 8 8) ((twoAsleep 8 8).bump 8 .single) ∧
      WakesAll 8 (twoAsleep 8 8) ((twoAsleep 8 8).bump 8 .all) := by
  have hs := wakes_twoAsleep 8 8 .single 8 (by decide) rfl rfl
  have ha := wakes_twoAsleep 8 8 .all 8 (by decide) rfl rfl
  have hz : (twoAsleep 8 8).Blocked 8 0 := ⟨zeroWait 8, 0, rfl, .inl rfl⟩
  have ho : (twoAsleep 8 8).Blocked 8 1 := ⟨zeroWait 8, 0, rfl, .inl rfl⟩
  refine ⟨((wakes_iff 8 _ _).1 hs ⟨0, hz⟩).mpr (.inr fun i hi => ?_), (wakes_iff 8 _ _).2 ha⟩
  obtain ⟨call, v, ht⟩ := hi
  match i with
  | 0 => exact hz
  | 1 => exact ho
  | i + 2 => cases ht

end AddressWaits
end TradutorLinux.Sync
