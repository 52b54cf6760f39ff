import TradutorLinux.Sync.ObjectTable

/-!
# I/O completion ports

`g_iocp_slots`, with `tl_CreateIoCompletionPort`, `tl_PostQueuedCompletionStatus`,
`tl_GetQueuedCompletionStatus` and `close_iocp_handle`.  A lookup takes no mutex,
a post and a get hold the slot's, a creation holds `g_iocp_mutex` only, and a
close holds both.  At the end the ports stand beside the objects of `g_syncs`.

## Main definitions

* `PortTable.step` — one step of one of the threads.
* `PortReturn.Faithful`
* `PortTable.Fifo` — the packets of a port, those it has given out, and to whom.
* `PortTable.Orderly` — the steps that leave the calls their ports.
* `Waiting`

## Main results

* `PortTable.Sound.step` — in orderly steps every call stays on its port.
* `waits_faithful`
-/

namespace TradutorLinux.Sync

open Function Option List Pool Lodging

/-! ### The calls -/

/-- `g_iocp_slots.size()`. -/
def kIocpSlots : ℕ := 64

structure IoCompletionPacket where
  bytesTransferred : ℕ
  completionKey : ℕ
  overlapped : ℕ
deriving DecidableEq

/-- `IoCompletionPortSlot`; `locked` is its mutex. -/
structure PortSlot where
  used : Bool := false
  queue : List IoCompletionPacket := []
  locked : Bool := false

/-- `tl_GetQueuedCompletionStatus` and `tl_PostQueuedCompletionStatus`; `milliseconds` is
absent for `INFINITE`. -/
inductive PortOp
  | get (milliseconds : Option ℕ)
  | post (packet : IoCompletionPacket)

/-- A call that has found a slot; `object` numbers the port that was there. -/
structure PortCall where
  slot : ℕ
  object : ℕ
  op : PortOp

/-- What a get has returned, where no packet is `WAIT_TIMEOUT`; for the statement, the port it
has taken the packet from, and whether its own port was open when it returned. -/
structure PortReturn where
  packet : Option IoCompletionPacket
  taken : Option ℕ
  objectOpen : Bool
deriving DecidableEq

/-- Where a call is. -/
inductive PortPhase
  | found
  /-- The predicate held; the mutex is kept from here on. -/
  | awake
  | returned (r : PortReturn)
  | posted
  /-- The thread has left through the exit of the process. -/
  | unwound
deriving DecidableEq

namespace PortPhase

/-- The call still uses the slot. -/
def live : PortPhase → Bool
  | .found | .awake => true
  | _ => false

/-- The packet the call has returned. -/
def packet : PortPhase → Option IoCompletionPacket
  | .returned r => r.packet
  | _ => none

end PortPhase

def PortCall.lodging : Lodging PortCall PortPhase where
  slot := PortCall.slot
  object := PortCall.object
  live := PortPhase.live

/-- A get takes a packet of its own port only, and where that was closed it takes none. -/
def PortReturn.Faithful (object : ℕ) (r : PortReturn) : Prop :=
  (∀ o, r.taken = some o → o = object) ∧
  (r.objectOpen = false → r.packet = none ∧ r.taken = none)

/-! ### The table -/

/-- `g_iocp_slots`, the slot of a creation that holds `g_iocp_mutex`, the number of the port
each slot has held last, and the calls; for the statement, the packets posted to the port of
each slot, and those it has given out with the calls that got them. -/
structure PortTable where
  slots : ℕ → PortSlot := fun _ => {}
  creating : Option ℕ := none
  tenant : ℕ → ℕ := fun _ => 0
  calls : Pool PortCall PortPhase := []
  exitPending : Bool := false
  posted : ℕ → List IoCompletionPacket := fun _ => []
  delivered : ℕ → List (ℕ × IoCompletionPacket) := fun _ => []

/-- One step: either half of a creation, a close, the lookup of a call, or the next section of
a call; `exits` when the thread leaves if the exit of the process was asked for. -/
inductive PortAction
  | beginCreate
  | endCreate
  | close (slot : ℕ)
  | call (slot : ℕ) (op : PortOp)
  | look (i : ℕ) (timeUp exits : Bool)
  | finish (i : ℕ) (exits : Bool)
  | push (i : ℕ)
  | requestExit

namespace PortTable

variable {s s' : PortTable}

def freeSlot (s : PortTable) : Option ℕ :=
  (List.range kIocpSlots).find? fun j => !(s.slots j).used

/-- `find_iocp_slot`. -/
def findIocpSlot (s : PortTable) (slot : ℕ) : Bool :=
  decide (slot < kIocpSlots) && (s.slots slot).used

def isOpen (s : PortTable) (k : PortCall) : Bool :=
  (s.slots k.slot).used && s.tenant k.slot == k.object

/-- The call `i` goes on. -/
def goTo (s : PortTable) (i : ℕ) (x : PortPhase) : PortTable :=
  { s with calls := s.calls.move i x }

/-- The slot `j` is written. -/
def write (s : PortTable) (j : ℕ) (slot : PortSlot) : PortTable :=
  { s with slots := update s.slots j slot }

/-- The slot's mutex is taken or given back. -/
def setLocked (s : PortTable) (j : ℕ) (locked : Bool) : PortTable :=
  s.write j { s.slots j with locked := locked }

/-- `WAIT_TIMEOUT`. -/
def timeOut (s : PortTable) (i : ℕ) (k : PortCall) : PortTable :=
  s.goTo i (.returned ⟨none, none, s.isOpen k⟩)

/-- `tl_GetQueuedCompletionStatus` looks at its predicate, under the slot's mutex.  Without
time to wait it looks for the exit of the process before. -/
def lookAt (s : PortTable) (i : ℕ) (k : PortCall) (milliseconds : Option ℕ)
    (timeUp exits : Bool) : Option PortTable :=
  let slot := s.slots k.slot
  if slot.locked then none
  else if milliseconds = some 0 ∧ s.exitPending ∧ exits then
    some ((s.setLocked k.slot true).goTo i .unwound)
  else if !slot.queue.isEmpty || s.exitPending then
    some ((s.setLocked k.slot true).goTo i .awake)
  else if milliseconds = some 0 ∨ (timeUp ∧ milliseconds ≠ none) then some (s.timeOut i k)
  else some s

/-- The first packet goes to the call `i`. -/
def deliver (s : PortTable) (i : ℕ) (k : PortCall) (packet : IoCompletionPacket)
    (queue : List IoCompletionPacket) : PortTable :=
  { (s.write k.slot { s.slots k.slot with queue := queue, locked := false }).goTo i
      (.returned ⟨some packet, some (s.tenant k.slot), s.isOpen k⟩) with
    delivered := update s.delivered k.slot (s.delivered k.slot ++ [(i, packet)]) }

/-- The end of `tl_GetQueuedCompletionStatus`. -/
def takeFrom (s : PortTable) (i : ℕ) (k : PortCall) (milliseconds : Option ℕ)
    (exits : Bool) : PortTable :=
  if milliseconds ≠ some 0 ∧ s.exitPending ∧ exits then s.goTo i .unwound
  else match (s.slots k.slot).queue with
    | [] => (s.setLocked k.slot false).timeOut i k
    | packet :: queue => s.deliver i k packet queue

/-- The locked section of `tl_PostQueuedCompletionStatus`. -/
def pushTo (s : PortTable) (i : ℕ) (k : PortCall) (packet : IoCompletionPacket) : PortTable :=
  { (s.write k.slot { s.slots k.slot with queue := (s.slots k.slot).queue ++ [packet] }).goTo i
      .posted with
    posted := update s.posted k.slot (s.posted k.slot ++ [packet]) }

/-- The first half of a creation: the slot is in use from here on. -/
def claim (s : PortTable) (j : ℕ) : PortTable :=
  { s.write j { s.slots j with used := true } with
    creating := some j
    tenant := update s.tenant j (s.tenant j + 1) }

/-- The second half: the queue is emptied. -/
def emptyQueue (s : PortTable) (j : ℕ) : PortTable :=
  { s.write j { s.slots j with queue := [] } with
    creating := none
    posted := update s.posted j []
    delivered := update s.delivered j [] }

def step (s : PortTable) : PortAction → Option PortTable
  | .beginCreate =>
    if s.creating ≠ none then none
    else match s.freeSlot with
      | none => some s
      | some j => some (s.claim j)
  | .endCreate => s.creating.map s.emptyQueue
  | .close slot =>
    if kIocpSlots ≤ slot then some s
    else if s.creating ≠ none then none
    else if !(s.slots slot).used then some s
    else if (s.slots slot).locked then none
    else some (s.write slot { s.slots slot with queue := [], used := false })
  | .call slot op =>
    if s.findIocpSlot slot then some { s with
      calls := s.calls.start ⟨slot, s.tenant slot, op⟩ .found }
    else some s
  | .look i timeUp exits => s.calls[i]?.bind fun t =>
    match t.1.op, t.2 with
    | .get milliseconds, .found => s.lookAt i t.1 milliseconds timeUp exits
    | _, _ => none
  | .finish i exits => s.calls[i]?.bind fun t =>
    match t.1.op, t.2 with
    | .get milliseconds, .awake => some (s.takeFrom i t.1 milliseconds exits)
    | _, _ => none
  | .push i => s.calls[i]?.bind fun t =>
    match t.1.op, t.2 with
    | .post packet, .found =>
      if (s.slots t.1.slot).locked then none else some (s.pushTo i t.1 packet)
    | _, _ => none
  | .requestExit => some { s with exitPending := true }

/-! ### Orderly steps -/

/-- **No slot is given to a new port while a call that found it for an earlier one is under
way, no call is made on it before the creation is done, and no packet is posted to a port
that has been closed.** -/
def Orderly (s : PortTable) : PortAction → Prop
  | .beginCreate => ∀ j ∈ s.freeSlot, PortCall.lodging.NoneAt s.calls j
  | .call slot _ => s.creating ≠ some slot
  | .push i => ∀ t ∈ s.calls[i]?, (s.slots t.1.slot).used = true
  | _ => True

instance (s : PortTable) (a : PortAction) : Decidable (s.Orderly a) := by
  cases a <;> unfold Orderly <;> infer_instance

/-- Every get that has returned has kept to its port. -/
def Faithful (s : PortTable) : Prop :=
  ∀ i k r, s.calls.At i k (.returned r) → r.Faithful k.object

/-- A port is open once its creation is done. -/
def Open (s : PortTable) (j : ℕ) : Prop := (s.slots j).used = true ∧ s.creating ≠ some j

/-- The call `c` has returned the packet `p` of the port in the slot `j`. -/
def Got (s : PortTable) (j c : ℕ) (p : IoCompletionPacket) : Prop :=
  ∃ k x, s.calls.At c k x ∧ k.slot = j ∧ k.object = s.tenant j ∧ x.packet = some p

/-- **The packets posted to the port are those it has given out, in that order, and those
that wait; each that was given out was given to one call, and that call has returned it.** -/
structure Fifo (s : PortTable) (j : ℕ) : Prop where
  order : s.posted j = (s.delivered j).map Prod.snd ++ (s.slots j).queue
  once : ((s.delivered j).map Prod.fst).Nodup
  got : ∀ c p, (c, p) ∈ s.delivered j ↔ s.Got j c p

/-- The call was made on the slot's port or an earlier one; the port that is being created is
not known to any call. -/
def Past (s : PortTable) (k : PortCall) : Prop :=
  k.object ≤ s.tenant k.slot ∧ (s.creating = some k.slot → k.object < s.tenant k.slot)

/-- What orderly steps keep. -/
structure Sound (s : PortTable) : Prop where
  current : PortCall.lodging.Current s.calls s.tenant
  past : ∀ i k x, s.calls.At i k x → s.Past k
  free : ∀ j, (s.slots j).used = false → (s.slots j).queue = []
  fifo : ∀ j, s.Open j → s.Fifo j
  faithful : s.Faithful

section Steps

variable {i j c : ℕ} {k : PortCall} {x y : PortPhase} {p : IoCompletionPacket}

/-! ### What a call has got -/

theorem got_goTo (ha : s.calls.At i k x) : (s.goTo i y).Got j c p ↔
    if c = i then k.slot = j ∧ k.object = s.tenant j ∧ y.packet = some p else s.Got j c p := by
  constructor
  · rintro ⟨k', x', ha', hs, ho, hp⟩
    have hm := (at_move ha).1 ha'
    split at hm
    · next hc =>
      obtain ⟨rfl, rfl⟩ := hm
      rw [if_pos hc.symm]
      exact ⟨hs, ho, hp⟩
    · next hc =>
      rw [if_neg (Ne.symm hc)]
      exact ⟨k', x', hm, hs, ho, hp⟩
  · intro h
    split at h
    · next hc =>
      subst hc
      exact ⟨k, y, (at_move ha).2 (by simp), h⟩
    · next hc =>
      obtain ⟨k', x', ha', hr⟩ := h
      refine ⟨k', x', (at_move ha).2 ?_, hr⟩
      rw [if_neg (Ne.symm hc)]
      exact ha'

theorem not_got (ha : s.calls.At i k x) (hx : x.packet = none) : ¬s.Got j i p := by
  rintro ⟨k', x', ha', -, -, hp⟩
  obtain ⟨-, rfl⟩ := ha.unique ha'
  rw [hx] at hp
  cases hp

theorem got_goTo_of_none (ha : s.calls.At i k x) (hx : x.packet = none) (hy : y.packet = none) :
    (s.goTo i y).Got j c p ↔ s.Got j c p := by
  rw [got_goTo ha]
  split
  · next hc =>
    subst hc
    simp [hy, not_got ha hx]
  · rfl

theorem got_start : Got { s with calls := s.calls.start k .found } j c p ↔ s.Got j c p := by
  constructor
  · rintro ⟨k', x', ha', hs, ho, hp⟩
    rcases at_start.1 ha' with hold | ⟨-, -, rfl⟩
    · exact ⟨k', x', hold, hs, ho, hp⟩
    · cases hp
  · rintro ⟨k', x', ha', hr⟩
    exact ⟨k', x', at_start.2 (.inl ha'), hr⟩

theorem Fifo.of_eq (h : s.Fifo j) (hp : s'.posted j = s.posted j)
    (hd : s'.delivered j = s.delivered j)
    (hq : (s'.slots j).queue = (s.slots j).queue)
    (hg : ∀ c p, s'.Got j c p ↔ s.Got j c p) : s'.Fifo j where
  order := by rw [hp, hd, hq]; exact h.order
  once := by rw [hd]; exact h.once
  got c p := by rw [hd, hg]; exact h.got c p

/-! ### What a step of a call keeps -/

theorem Sound.faithful_at (h : s.Sound) (i : ℕ) (k : PortCall) (x : PortPhase)
    (ha : s.calls.At i k x) (r : PortReturn) (hr : x = .returned r) : r.Faithful k.object := by
  subst hr
  exact h.faithful i k r ha

theorem packet_of_live (hx : x.live) : x.packet = none := by
  cases x with
  | returned r => cases hx
  | _ => rfl

theorem Sound.goTo (h : s.Sound) (ha : s.calls.At i k x) (hx : x.live)
    (hy : y.packet = none) (hr : ∀ r, y = .returned r → r.Faithful k.object) :
    (s.goTo i y).Sound where
  current := current_move h.current ha fun _ => hx
  past _ _ _ hat' := each_move (P := fun k _ => s.Past k) h.past ha (h.past i k x ha) hat'
  free := h.free
  fifo j hj := (h.fifo j hj).of_eq rfl rfl rfl fun _ _ =>
    got_goTo_of_none ha (packet_of_live hx) hy
  faithful _ _ r hat' := each_move
    (P := fun k x => ∀ r, x = .returned r → PortReturn.Faithful (PortCall.object k) r)
    h.faithful_at ha hr hat' r rfl

theorem slots_setLocked (l : Bool) (j' : ℕ) :
    ((s.setLocked j l).slots j').used = (s.slots j').used ∧
      ((s.setLocked j l).slots j').queue = (s.slots j').queue := by
  unfold setLocked write
  by_cases hj : j' = j
  · subst hj
    simp
  · simp [update_of_ne hj]

theorem Sound.setLocked (h : s.Sound) (l : Bool) : (s.setLocked j l).Sound where
  current := h.current
  past := h.past
  free j' hj' := by
    rw [(slots_setLocked l j').1] at hj'
    rw [(slots_setLocked l j').2]
    exact h.free j' hj'
  fifo j' hj' := by
    unfold Open at hj'
    rw [(slots_setLocked l j').1] at hj'
    exact (h.fifo j' hj').of_eq rfl rfl (slots_setLocked l j').2 fun _ _ => Iff.rfl
  faithful := h.faithful

theorem Sound.timeOut (h : s.Sound) (ha : s.calls.At i k x) (hx : x.live) :
    (s.timeOut i k).Sound := by
  apply h.goTo ha hx rfl
  rintro r hr
  obtain rfl := PortPhase.returned.inj hr
  exact ⟨nofun, fun _ => ⟨rfl, rfl⟩⟩

theorem Sound.lookAt {ms : Option ℕ} {tu es : Bool} (h : s.Sound) (ha : s.calls.At i k .found)
    (hs : s.lookAt i k ms tu es = some s') : s'.Sound := by
  dsimp only [PortTable.lookAt] at hs
  split at hs
  · cases hs
  split at hs
  · cases hs
    exact (h.setLocked true).goTo ha rfl rfl nofun
  split at hs
  · cases hs
    exact (h.setLocked true).goTo ha rfl rfl nofun
  split at hs
  · cases hs
    exact h.timeOut ha rfl
  · cases hs
    exact h

/-! ### A packet is given out -/

section Deliver

variable {queue q : List IoCompletionPacket}

theorem slots_deliver_self : (s.deliver i k p q).slots k.slot =
    { s.slots k.slot with queue := q, locked := false } :=
  update_self ..

theorem slots_deliver_of_ne (hj : j ≠ k.slot) : (s.deliver i k p q).slots j = s.slots j :=
  update_of_ne hj ..

theorem got_deliver (ha : s.calls.At i k x) {p' : IoCompletionPacket} :
    (s.deliver i k p q).Got j c p' ↔
      if c = i then k.slot = j ∧ k.object = s.tenant j ∧ some p = some p' else s.Got j c p' :=
  got_goTo (s := s) ha

theorem Fifo.deliver (hf : s.Fifo k.slot) (ha : s.calls.At i k x) (hx : x.packet = none)
    (ht : s.tenant k.slot = k.object) (hq : (s.slots k.slot).queue = p :: q) :
    (s.deliver i k p q).Fifo k.slot := by
  have hd : (s.deliver i k p q).delivered k.slot =
      s.delivered k.slot ++ [(i, p)] := update_self ..
  constructor
  · rw [hd, slots_deliver_self]
    show s.posted k.slot = _
    rw [hf.order, hq]
    simp
  · have hn : i ∉ (s.delivered k.slot).map Prod.fst := by
      intro hi
      obtain ⟨⟨_, p'⟩, hm, rfl⟩ := mem_map.1 hi
      exact not_got ha hx ((hf.got _ p').1 hm)
    rw [hd, map_append]
    exact hf.once.append (nodup_singleton i) (by simpa using hn)
  · intro c p'
    rw [got_deliver ha, hd, mem_append, hf.got]
    split
    · next hc =>
      subst hc
      simp [not_got ha hx, ht, eq_comm]
    · next hc => simp [hc]

theorem Fifo.deliver_of_ne (hf : s.Fifo j) (ha : s.calls.At i k x) (hx : x.packet = none)
    (hj : j ≠ k.slot) : (s.deliver i k p q).Fifo j := by
  refine hf.of_eq rfl (update_of_ne hj ..) (by rw [slots_deliver_of_ne hj]) ?_
  intro c p'
  rw [got_deliver ha]
  split
  · next hc =>
    subst hc
    simp [not_got ha hx, Ne.symm hj]
  · rfl

theorem Sound.deliver (h : s.Sound) (ha : s.calls.At i k .awake)
    (hq : (s.slots k.slot).queue = p :: q) : (s.deliver i k p q).Sound := by
  have hu : (s.slots k.slot).used := by
    by_contra hf
    rw [h.free k.slot (by simpa using hf)] at hq
    cases hq
  have ht : s.tenant k.slot = k.object := h.current i k _ ha rfl
  have hi : s.isOpen k := by simp [isOpen, hu, ht]
  constructor
  case current => exact current_move h.current ha nofun
  case past =>
    exact fun _ _ _ ha' => each_move (P := fun k _ => s.Past k)
      h.past ha (h.past i k _ ha) ha'
  case free =>
    intro j hj
    by_cases hk : j = k.slot
    · subst hk
      rw [slots_deliver_self] at hj
      rw [hu] at hj
      cases hj
    · rw [slots_deliver_of_ne hk] at hj ⊢
      exact h.free j hj
  case fifo =>
    rintro j ⟨hj, he⟩
    by_cases hk : j = k.slot
    · subst hk
      exact (h.fifo _ ⟨hu, he⟩).deliver ha rfl ht hq
    · rw [slots_deliver_of_ne hk] at hj
      exact (h.fifo j ⟨hj, he⟩).deliver_of_ne ha rfl hk
  case faithful =>
    intro _ _ r ha'
    refine each_move
      (P := fun k x => ∀ r, x = .returned r → PortReturn.Faithful (PortCall.object k) r)
      h.faithful_at ha ?_ ha' r rfl
    rintro r hr
    obtain rfl := PortPhase.returned.inj hr
    refine ⟨fun o ho => (some.inj ho).symm.trans ht, fun hc => ?_⟩
    rw [hi] at hc
    cases hc

theorem Sound.takeFrom {ms : Option ℕ} {es : Bool} (h : s.Sound)
    (ha : s.calls.At i k .awake) : (s.takeFrom i k ms es).Sound := by
  unfold PortTable.takeFrom
  split
  · exact h.goTo ha rfl rfl nofun
  cases hq : (s.slots k.slot).queue with
  | nil => exact (h.setLocked false).timeOut ha rfl
  | cons pa q => exact h.deliver ha hq

end Deliver

/-! ### A packet is posted -/

theorem slots_pushTo_self : (s.pushTo i k p).slots k.slot =
    { s.slots k.slot with queue := (s.slots k.slot).queue ++ [p] } :=
  update_self ..

theorem slots_pushTo_of_ne (hj : j ≠ k.slot) : (s.pushTo i k p).slots j = s.slots j :=
  update_of_ne hj ..

theorem got_pushTo (ha : s.calls.At i k x) (hx : x.packet = none) {p' : IoCompletionPacket} :
    (s.pushTo i k p).Got j c p' ↔ s.Got j c p' :=
  got_goTo_of_none (s := s) ha hx rfl

/-- **A packet for an open port goes to the end of its queue.** -/
theorem Sound.pushTo (h : s.Sound) (ha : s.calls.At i k .found)
    (hu : (s.slots k.slot).used) : (s.pushTo i k p).Sound where
  current := current_move h.current ha nofun
  past _ _ _ hat' := each_move (P := fun k _ => s.Past k) h.past ha (h.past i k _ ha) hat'
  free j hj := by
    by_cases hk : j = k.slot
    · subst hk
      rw [slots_pushTo_self] at hj
      rw [hu] at hj
      cases hj
    · rw [slots_pushTo_of_ne hk] at hj ⊢
      exact h.free j hj
  fifo := by
    rintro j ⟨hj, hc⟩
    by_cases hk : j = k.slot
    · subst hk
      have hf := h.fifo _ ⟨hu, hc⟩
      have hp : (s.pushTo i k p).posted k.slot = s.posted k.slot ++ [p] := update_self ..
      constructor
      · rw [hp, slots_pushTo_self, hf.order, append_assoc]
        rfl
      · exact hf.once
      · intro c p'
        rw [got_pushTo ha rfl]
        exact hf.got c p'
    · rw [slots_pushTo_of_ne hk] at hj
      refine (h.fifo j ⟨hj, hc⟩).of_eq (update_of_ne hk ..) rfl ?_ ?_
      · rw [slots_pushTo_of_ne hk]
      · exact fun c p' => got_pushTo ha rfl
  faithful _ _ r hat' := each_move
    (P := fun k x => ∀ r, x = .returned r → PortReturn.Faithful (PortCall.object k) r)
    h.faithful_at ha (fun r hr => by cases hr) hat' r rfl

/-! ### Creation, lookup and close -/

theorem slots_write_of_ne {sl : PortSlot} {j' : ℕ} (hj : j' ≠ j) :
    (s.write j sl).slots j' = s.slots j' :=
  update_of_ne hj ..

theorem Sound.claim (h : s.Sound) (hn : PortCall.lodging.NoneAt s.calls j)
    (hc : s.creating = none) : (s.claim j).Sound where
  current := current_relet h.current hn
  past i k x hat := by
    have hl := (h.past i k x hat).1
    by_cases hjk : k.slot = j
    · have ht : (s.claim j).tenant k.slot = s.tenant k.slot + 1 := by
        rw [hjk]
        exact update_self ..
      rw [Past, ht]
      omega
    · have ht : (s.claim j).tenant k.slot = s.tenant k.slot := update_of_ne hjk ..
      rw [Past, ht]
      exact ⟨hl, fun hk => absurd (some.inj hk).symm hjk⟩
  free j' hj' := by
    by_cases hj : j' = j
    · subst hj
      simp [PortTable.claim, PortTable.write] at hj'
    · have hs : (s.claim j).slots j' = s.slots j' := update_of_ne hj ..
      rw [hs] at hj' ⊢
      exact h.free j' hj'
  fifo j' ho := by
    have hj : j' ≠ j := fun hj => ho.2 (congrArg some hj.symm)
    have hs : (s.claim j).slots j' = s.slots j' := update_of_ne hj ..
    have ht : (s.claim j).tenant j' = s.tenant j' := update_of_ne hj ..
    have hold : s.Open j' := ⟨by rw [← hs]; exact ho.1, by rw [hc]; nofun⟩
    refine (h.fifo j' hold).of_eq rfl rfl (by rw [hs]) ?_
    intro c p
    unfold Got
    rw [ht]
    rfl
  faithful := h.faithful

/-- The claimed slot is a new port. -/
theorem Sound.emptyQueue (h : s.Sound) (hc : s.creating = some j) : (s.emptyQueue j).Sound where
  current := h.current
  past i k x hat := ⟨(h.past i k x hat).1, nofun⟩
  free j' hj' := by
    by_cases hj : j' = j
    · subst hj
      simp [PortTable.emptyQueue, PortTable.write]
    · have hs : (s.emptyQueue j).slots j' = s.slots j' := update_of_ne hj ..
      rw [hs] at hj' ⊢
      exact h.free j' hj'
  fifo j' hopen := by
    by_cases hj : j' = j
    · subst hj
      have hp : (s.emptyQueue j').posted j' = [] := update_self ..
      have hd : (s.emptyQueue j').delivered j' = [] := update_self ..
      constructor
      · simp [PortTable.emptyQueue, PortTable.write]
      · simp [hd]
      · intro c p
        rw [hd]
        constructor
        · nofun
        · rintro ⟨k, x, hat, rfl, hb, -⟩
          have hl := (h.past c k x hat).2 hc
          have heq : k.object = s.tenant k.slot := hb
          omega
    · have hs : (s.emptyQueue j).slots j' = s.slots j' := update_of_ne hj ..
      have hold : s.Open j' := ⟨by rw [← hs]; exact hopen.1, by rw [hc]; simpa using Ne.symm hj⟩
      exact (h.fifo j' hold).of_eq (update_of_ne hj ..) (update_of_ne hj ..)
        (by rw [hs]) fun _ _ => Iff.rfl
  faithful := h.faithful

theorem Sound.close (h : s.Sound) :
    (s.write j { s.slots j with queue := [], used := false }).Sound where
  current := h.current
  past := h.past
  free j' hj' := by
    by_cases hj : j' = j
    · subst hj
      simp [PortTable.write]
    · rw [slots_write_of_ne hj] at hj' ⊢
      exact h.free j' hj'
  fifo j' hopen := by
    have hj : j' ≠ j := by
      rintro rfl
      simp [Open, PortTable.write] at hopen
    have hold : s.Open j' := by
      rwa [Open, slots_write_of_ne hj] at hopen
    exact (h.fifo j' hold).of_eq rfl rfl (by rw [slots_write_of_ne hj]) fun _ _ => Iff.rfl
  faithful := h.faithful

theorem Sound.call {sl : ℕ} {op : PortOp} (h : s.Sound) (hc : s.creating ≠ some sl) :
    Sound { s with calls := s.calls.start ⟨sl, s.tenant sl, op⟩ .found } where
  current := current_start h.current rfl
  past _ _ _ hat := each_start (P := fun k _ => s.Past k)
    h.past ⟨le_rfl, fun hk => absurd hk hc⟩ hat
  free := h.free
  fifo j hj := (h.fifo j hj).of_eq rfl rfl rfl fun _ _ => got_start
  faithful _ _ r hat := each_start
    (P := fun k x => ∀ r, x = .returned r → PortReturn.Faithful (PortCall.object k) r)
    h.faithful_at (fun r hr => by cases hr) hat r rfl

/-- **An orderly step leaves every call on its port, and the packets of the open ports in
order.** -/
theorem Sound.step {a : PortAction} (h : s.Sound) (ho : s.Orderly a)
    (hs : s.step a = some s') : s'.Sound := by
  cases a with
  | beginCreate =>
    simp only [PortTable.step] at hs
    split at hs
    · cases hs
    next hc =>
    cases hf : s.freeSlot with
    | none =>
      rw [hf] at hs
      cases hs
      exact h
    | some j =>
      rw [hf] at hs
      cases hs
      exact h.claim (ho j hf) (not_not.1 hc)
  | endCreate =>
    obtain ⟨j, hj, rfl⟩ := map_eq_some_iff.1 hs
    exact h.emptyQueue hj
  | close sl =>
    simp only [PortTable.step] at hs
    split at hs
    · cases hs
      exact h
    split at hs
    · cases hs
    split at hs
    · cases hs
      exact h
    split at hs
    · cases hs
    · cases hs
      exact h.close
  | call sl op =>
    simp only [PortTable.step] at hs
    split at hs
    · cases hs
      exact h.call ho
    · cases hs
      exact h
  | look i tu es =>
    obtain ⟨⟨k, x⟩, ha, hk⟩ := bind_eq_some_iff.1 hs
    split at hk
    · next hop hx =>
      obtain rfl : x = .found := hx
      exact h.lookAt ha hk
    · cases hk
  | finish i es =>
    obtain ⟨⟨k, x⟩, ha, hk⟩ := bind_eq_some_iff.1 hs
    split at hk
    · next hop hx =>
      obtain rfl : x = .awake := hx
      cases hk
      exact h.takeFrom ha
    · cases hk
  | push i =>
    obtain ⟨⟨k, x⟩, ha, hk⟩ := bind_eq_some_iff.1 hs
    split at hk
    · next hop hx =>
      obtain rfl : x = .found := hx
      split at hk
      · cases hk
      · cases hk
        exact h.pushTo ha (ho _ ha)
    · cases hk
  | requestExit =>
    cases hs
    exact { h with fifo := fun j hj => (h.fifo j hj).of_eq rfl rfl rfl fun _ _ => Iff.rfl }

theorem sound_start : Sound {} where
  current := current_nil
  past i k x hat := by simp [Pool.At] at hat
  free _ _ := rfl
  fifo j hj := absurd hj.1 (by simp)
  faithful i k r hat := by simp [Pool.At] at hat

end Steps
end PortTable

/-! ### The process -/

/-- The synchronization objects and the completion ports of a process. -/
structure Waiting where
  objects : ObjectTable := {}
  ports : PortTable := {}

inductive WaitingAction
  | object (a : ObjectAction)
  | port (a : PortAction)

namespace Waiting

variable {s s' : Waiting}

def step (s : Waiting) : WaitingAction → Option Waiting
  | .object a => (s.objects.step a).map fun objects => { s with objects := objects }
  | .port a => (s.ports.step a).map fun ports => { s with ports := ports }

/-- Both tables are used in order. -/
def Orderly (s : Waiting) : WaitingAction → Prop
  | .object a => s.objects.Orderly a
  | .port a => s.ports.Orderly a

instance (s : Waiting) (a : WaitingAction) : Decidable (s.Orderly a) := by
  cases a <;> unfold Orderly <;> infer_instance

/-- **A wait, or a get, takes from the object it was started on only, and none where that was
closed before it returned; an open port has given out the packets posted to it in order and
once each.** -/
structure Correct (s : Waiting) : Prop where
  waits : s.objects.Faithful
  gets : s.ports.Faithful
  ports : ∀ j, s.ports.Open j → s.ports.Fifo j

/-- What orderly steps keep. -/
structure Sound (s : Waiting) : Prop where
  objects : s.objects.Sound
  ports : s.ports.Sound

theorem Sound.correct (h : s.Sound) : s.Correct where
  waits := h.objects.faithful
  gets := h.ports.faithful
  ports := h.ports.fifo

theorem Sound.step {a : WaitingAction} (h : s.Sound) (ho : s.Orderly a)
    (hs : s.step a = some s') : s'.Sound := by
  cases a with
  | object a =>
    obtain ⟨os, ha, rfl⟩ := map_eq_some_iff.1 hs
    exact ⟨h.objects.step ho ha, h.ports⟩
  | port a =>
    obtain ⟨ps, ha, rfl⟩ := map_eq_some_iff.1 hs
    exact ⟨h.objects, h.ports.step ho ha⟩

/-- **In every run whose steps are orderly, waits keep to their objects and ports to their
packets.** -/
theorem waits_faithful (h : Runs step Orderly {} s) : s.Correct :=
  (h.keeps (I := Sound) (fun _ _ _ hs ho ha => hs.step ho ha)
    ⟨ObjectTable.sound_start, PortTable.sound_start⟩).correct

/-- An auto-reset event is waited for and set, and two packets go through a port. -/
theorem waits_faithful_served : ∃ s : Waiting, Runs step Orderly {} s ∧
    s.objects.waits.map Prod.snd = [.returned ⟨.object 0, some 1, true⟩] ∧
    (s.ports.delivered 0).map (fun t => t.2.completionKey) = [5] ∧
    (s.ports.slots 0).queue.map IoCompletionPacket.completionKey = [6] ∧ s.Correct := by
  have hu : ((runAll (guarded step Orderly) {}
      [.object (.create 1 (.event false false)), .object (.wait 1 0 none),
        .object (.readKind 0), .object (.look 0 false), .object (.call 2 0 .setEvent),
        .object (.apply 0), .object (.look 0 false), .object (.check 0),
        .object (.finish 0 false), .port .beginCreate, .port .endCreate,
        .port (.call 0 (.get none)), .port (.look 0 false false),
        .port (.call 0 (.post ⟨1, 5, 0⟩)), .port (.push 1),
        .port (.call 0 (.post ⟨1, 6, 0⟩)), .port (.push 2),
        .port (.look 0 false false), .port (.finish 0 false)]).map fun s =>
      (s.objects.waits.map Prod.snd, (s.ports.delivered 0).map (fun t => t.2.completionKey),
        (s.ports.slots 0).queue.map IoCompletionPacket.completionKey)) =
      some ([.returned ⟨.object 0, some 1, true⟩], [5], [6]) := by
    decide +kernel
  obtain ⟨s, hs, heq⟩ := map_eq_some_iff.mp hu
  obtain ⟨hw, he⟩ := Prod.mk.inj heq
  obtain ⟨hd, hq⟩ := Prod.mk.inj he
  have hr := Runs.of_guarded hs
  exact ⟨s, hr, hw, hd, hq, waits_faithful hr⟩

/-- A thread waits for an event; the event is closed, another is created in its slot and set,
and the wait returns `WAIT_OBJECT_0` with the signal of the other. -/
theorem not_waits_faithful : ¬∀ s : Waiting, Runs step Free {} s → s.Correct := by
  intro h
  have hr : ((runAll step {} [.object (.create 1 (.event false false)), .object (.wait 1 0 none),
        .object (.readKind 0), .object (.look 0 false), .object (.call 2 0 .close),
        .object (.apply 0), .object (.create 2 (.event false false)),
        .object (.call 2 0 .setEvent), .object (.apply 1), .object (.look 0 false),
        .object (.check 0), .object (.finish 0 false)]).map fun s =>
      s.objects.waits.map fun t => (t.1.object, t.2)) =
      some [(1, .returned ⟨.object 0, some 2, false⟩)] := by
    decide +kernel
  obtain ⟨s, hs, heq⟩ := map_eq_some_iff.mp hr
  have ha := congrArg (fun l => l[0]?) heq
  simp only [getElem?_map, getElem?_cons_zero, map_eq_some_iff] at ha
  obtain ⟨⟨k, x⟩, ht, hx⟩ := ha
  obtain ⟨ho, rfl⟩ := Prod.mk.inj hx
  have hf := (h s (Runs.of_runAll hs)).waits 0 k _ ht
  have hc := hf.2 rfl
  exact absurd hc.2 (by simp)

end Waiting
end TradutorLinux.Sync
