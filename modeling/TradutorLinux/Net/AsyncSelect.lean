import Mathlib.Data.List.Induction
import TradutorLinux.Net.Sockets

/-!
# Notifications of `WSAAsyncSelect`

`refresh_async_select_locked` posts a message for an event once, and then only
after the notification has been cleared.  `tl_recv`, `tl_send`, `tl_accept` and
`tl_connect` clear some of their events when they come back to the mutex;
`tl_recvfrom` and `tl_sendto` clear nothing.  A message that the queue rejects
counts as notified all the same.

## Main definitions

* `SocketSlot.holds` — that the condition of an event holds, by what `poll` says.
* `Enabled`
* `Winsock.Disciplined` — a refresh posts exactly the events whose conditions
  hold and that are enabled.
* `Winsock.Rearming` — a call that enables an event again clears it, and the
  queue takes every message.

## Main results

* `mem_posted_iff`, `async_select_disciplined`
-/

namespace TradutorLinux.Winsock

open List Function

open Winsock (Action)

/-! ### What a refresh has to do -/

namespace SocketFunction

/-- The events that a call of the function enables again. -/
def reenables : SocketFunction → EventMask
  | recv => fun e => decide (e = .read ∨ e = .oob ∨ e = .close)
  | recvfrom => fun e => decide (e = .read ∨ e = .oob)
  | send | sendto => fun e => decide (e = .write)
  | accept => fun e => decide (e = .accept)
  | connect => fun e => decide (e = .connect)
  | bind | listen | shutdown => noEvents

end SocketFunction

/-- The event may be posted again after this; a registration begins with all events enabled. -/
def Note.enables (e : NetEvent) : Note → Bool
  | registered => true
  | called f => f.reenables e
  | posted _ _ => false

/-- A message for the event has reached the queue. -/
def Note.delivers (e : NetEvent) : Note → Bool
  | posted message accepted => accepted && decide (message.event = e)
  | _ => false

/-- Since every message for the event that has reached the queue, it was enabled again. -/
def Enabled (journal : List Note) (e : NetEvent) : Prop :=
  ∀ newer note older, journal = newer ++ note :: older → note.delivers e = true →
    ∃ later ∈ newer, later.enables e = true

namespace SocketSlot

def Watches (slot : SocketSlot) (e : NetEvent) : Prop :=
  slot.used = true ∧ slot.asyncWindow ≠ 0 ∧ slot.asyncEvents e = true

def holds (slot : SocketSlot) (answer : PollAnswer) (e : NetEvent) : Bool :=
  match answer, e with
  | .interrupted, _ => false
  | .failed _, e => decide (e = .close)
  | .ready r, .connect => slot.connectEnds r
  | .ready r, .oob => r.urgent
  | .ready r, .write => r.writable
  | .ready r, .accept => r.readable && slot.listening
  | .ready r, .read => r.readable && !slot.listening && !r.eof
  | .ready r, .close =>
    r.readable && !slot.listening && r.eof || r.error || r.hangup || r.invalid

/-- A message for the event has been posted and nothing has cleared it. -/
def Muted (slot : SocketSlot) (e : NetEvent) : Prop :=
  slot.Watches e ∧ slot.asyncNotifiedEvents e = true

end SocketSlot

variable {s s' t : Winsock} {e : NetEvent}

/-- Whatever `poll` says, a refresh posts one message for each event that is watched, whose
condition holds and that is enabled, and no other. -/
def Disciplined (s : Winsock) : Prop :=
  ∀ i answer, let messages := ((s.sockets i).refreshAsyncSelect (kSocketHandleBase + i) answer).2
    (messages.map AsyncMessage.event).Nodup ∧
      ∀ e, (s.sockets i).Watches e →
        ((∃ m ∈ messages, m.event = e) ↔
          (s.sockets i).holds answer e = true ∧ Enabled (s.journal i) e)

/-- A call ends at its socket, having cleared some events.  Of what is muted there, it clears
exactly what it enables again, and nothing if the slot holds another socket by now. -/
def EndsWell (s : Winsock) (c : SocketLookup) (cleared : EventMask) : Prop :=
  ∀ i, s.resolveIfCurrent c.handle c.generation = some i → ∀ e, (s.sockets i).Muted e →
    (cleared e = true ↔ s.lives i = c.life ∧ c.function.reenables e = true)

/-- No event stays muted that the step enables again, and the queue takes what is posted. -/
def Rearming (s : Winsock) : Action → Prop
  | .turnAway f handle =>
    ∀ i, s.findSocket handle = some i → ∀ e, (s.sockets i).Muted e → f.reenables e = false
  | .abandon n => ∀ c, s.calls.At n (.on c) .resolved → s.EndsWell c noEvents
  | .systemCall n _ =>
    ∀ c, s.calls.At n (.on c) .resolved → c.function.publishes = false → s.EndsWell c noEvents
  | .publish n =>
    (∀ c outcome, s.calls.At n (.on c) (.issued outcome) → s.EndsWell c c.function.clears) ∧
      ∀ c fd life, s.calls.At n (.on c) (.opened fd life) → s.EndsWell c c.function.clears
  | .refreshAsyncSelect answers accepts =>
    ∀ i, i < kSocketSlots → ∀ e, (s.sockets i).Watches e →
      (s.sockets i).holds (answers i) e = true → (s.sockets i).asyncNotifiedEvents e = false →
        accepts i e = true
  | _ => True

/-! ### The journal -/

attribute [local simp] Note.delivers Note.enables

theorem enabled_cons {n : Note} {jo : List Note} : Enabled (n :: jo) e ↔
      n.enables e ∨ n.delivers e = false ∧ Enabled jo e := by
  have hk : n.delivers e → n.enables e = false := by cases n <;> simp
  constructor
  · intro h
    by_cases he : n.enables e
    · exact .inl he
    refine .inr ⟨?_, fun ne n' o heq hd => ?_⟩
    · by_contra hd
      obtain ⟨l, hm, -⟩ := h [] n jo rfl (by simpa using hd)
      cases hm
    · obtain ⟨l, hm, hl⟩ := h (n :: ne) n' o (by rw [heq]; rfl) hd
      rcases mem_cons.1 hm with rfl | hm
      · exact absurd hl he
      · exact ⟨l, hm, hl⟩
  · intro h ne n' o heq hd
    cases ne with
    | nil =>
      obtain ⟨rfl, -⟩ := List.cons.inj heq
      rcases h with he | ⟨hnot, -⟩
      · rw [hk hd] at he
        cases he
      · rw [hnot] at hd
        cases hd
    | cons f ne =>
      obtain ⟨rfl, ht⟩ := List.cons.inj heq
      rcases h with he | ⟨-, hj⟩
      · exact ⟨n, mem_cons_self .., he⟩
      · obtain ⟨l, hm, hl⟩ := hj ne n' o ht hd
        exact ⟨l, mem_cons_of_mem _ hm, hl⟩

theorem enabled_registered {jo : List Note} : Enabled (.registered :: jo) e :=
  enabled_cons.2 (.inl rfl)

variable {f : SocketFunction}

theorem enabled_called {jo : List Note} :
    Enabled (.called f :: jo) e ↔ f.reenables e ∨ Enabled jo e := by
  rw [enabled_cons]
  simp

attribute [local simp] postNotes

/-- After a list of messages an event is enabled if it was, and none of them has reached the
queue. -/
theorem enabled_postNotes {ms : List AsyncMessage} {a : NetEvent → Bool} {jo : List Note} :
    Enabled (postNotes ms a ++ jo) e ↔ Enabled jo e ∧ ¬((∃ m ∈ ms, m.event = e) ∧ a e) := by
  induction ms using List.reverseRecOn with
  | nil => simp
  | append_singleton ms m ih =>
    have hc : postNotes (ms ++ [m]) a ++ jo = .posted m (a m.event) :: (postNotes ms a ++ jo) := by
      simp
    rw [hc, enabled_cons, ih]
    by_cases hm : m.event = e
    · subst hm
      by_cases ha : a m.event = true <;> simp [ha]
    · simp [hm]

/-! ### The messages of a refresh -/

/-- A slot and its messages after some calls of `post_async_event_locked`, as the slot before
and the events tell. -/
structure Posted (slot : SocketSlot) (attempts : List (NetEvent × ℕ))
    (r : SocketSlot × List AsyncMessage) : Prop where
  used : r.1.used = slot.used
  window : r.1.asyncWindow = slot.asyncWindow
  events : r.1.asyncEvents = slot.asyncEvents
  messages : ∀ e, (∃ m ∈ r.2, m.event = e) ↔
    slot.asyncWindow ≠ 0 ∧ slot.asyncEvents e = true ∧ slot.asyncNotifiedEvents e = false ∧
      e ∈ attempts.map Prod.fst
  notified : ∀ e, r.1.asyncNotifiedEvents e = true ↔
    slot.asyncNotifiedEvents e = true ∨ ∃ m ∈ r.2, m.event = e
  nodup : (r.2.map AsyncMessage.event).Nodup

theorem posted_foldl {sl : SocketSlot} {hnd : ℕ} {c : Bool} (atts : List (NetEvent × ℕ)) :
    Posted sl atts (atts.foldl (postAsyncEvent hnd) ({ sl with connecting := c }, [])) := by
  induction atts using List.reverseRecOn with
  | nil => exact ⟨rfl, rfl, rfl, by simp, by simp, by simp⟩
  | append_singleton atts att ih =>
    rw [foldl_append, foldl_cons, foldl_nil]
    generalize atts.foldl (postAsyncEvent hnd) ({ sl with connecting := c }, []) = r at ih ⊢
    obtain ⟨event, er⟩ := att
    dsimp only [postAsyncEvent]
    rw [ih.window, ih.events]
    have hme : ∀ e, e ∈ (atts ++ [(event, er)]).map Prod.fst ↔
        e ∈ atts.map Prod.fst ∨ e = event := by simp
    split
    · next hs =>
      -- the event is not watched, or has a message already
      refine ⟨ih.used, ih.window, ih.events, fun e => ?_, ih.notified, ih.nodup⟩
      rw [ih.messages e, hme]
      constructor
      · rintro ⟨hw, he, hn, hi⟩
        exact ⟨hw, he, hn, .inl hi⟩
      · rintro ⟨hw, he, hn, hi | rfl⟩
        · exact ⟨hw, he, hn, hi⟩
        · rcases hs with hz | hf | ht
          · exact absurd hz hw
          · rw [hf] at he
            cases he
          · rcases (ih.notified e).1 ht with hold | hne
            · rw [hold] at hn
              cases hn
            · exact (ih.messages e).1 hne
    · next hp =>
      obtain ⟨hw, he, hn⟩ : sl.asyncWindow ≠ 0 ∧ sl.asyncEvents event ∧
          r.1.asyncNotifiedEvents event = false := by simpa using hp
      have ho : sl.asyncNotifiedEvents event = false ∧ ¬∃ m ∈ r.2, m.event = event := by
        have hnot := (ih.notified event).not.1 (by simp [hn])
        rw [not_or] at hnot
        exact ⟨by simpa using hnot.1, hnot.2⟩
      have hd : ∀ e, (∃ m ∈ r.2 ++ [⟨sl.asyncWindow, r.1.asyncMessage, hnd,
          packedLparam event er, event⟩], m.event = e) ↔
          (∃ m ∈ r.2, m.event = e) ∨ event = e := by
        simp [or_and_right, exists_or]
      refine ⟨ih.used, rfl, rfl, fun e => ?_, fun e => ?_, ?_⟩
      · rw [hd, ih.messages e, hme]
        constructor
        · rintro (⟨hw, he, hn, hi⟩ | rfl)
          · exact ⟨hw, he, hn, .inl hi⟩
          · exact ⟨hw, he, ho.1, .inr rfl⟩
        · rintro ⟨hw, he, hn, hi | rfl⟩
          · exact .inl ⟨hw, he, hn, hi⟩
          · exact .inr rfl
      · rw [hd, Bool.or_eq_true, ih.notified e, decide_eq_true_eq, or_assoc, eq_comm (a := e)]
      · rw [map_append, map_singleton, nodup_append]
        refine ⟨ih.nodup, by simp, fun a ha b hb => ?_⟩
        obtain rfl := mem_singleton.1 hb
        rintro rfl
        obtain ⟨m, hm, heq⟩ := mem_map.1 ha
        exact ho.2 ⟨m, hm, heq⟩

theorem mem_asyncAttempts {sl : SocketSlot} {r : Readiness} (he : sl.asyncEvents e) :
    e ∈ (sl.asyncAttempts (r.requested sl.asyncEvents)).map Prod.fst ↔
      sl.holds (.ready r) e := by
  have hi : ∀ {c : Bool} {x : NetEvent × ℕ},
      e ∈ (if c then [x] else []).map Prod.fst ↔ c ∧ e = x.1 := by
    intro c x
    cases c <;> simp
  simp only [SocketSlot.asyncAttempts, map_append, mem_append, hi]
  cases hl : sl.listening <;> cases hc : sl.connecting <;> cases e <;>
    simp only [SocketSlot.holds, SocketSlot.connectEnds, Readiness.requested, he, hl, hc] <;>
    cases r.readable <;> cases r.writable <;> simp

attribute [local simp] SocketSlot.holds

theorem posted_refresh {sl : SocketSlot} {hd : ℕ} {ans : PollAnswer} :
    ∃ a, Posted sl a (sl.refreshAsyncSelect hd ans) ∧
      ∀ e, sl.Watches e → (e ∈ a.map Prod.fst ↔ sl.holds ans e) := by
  have hs : ∀ a, Posted sl a (a.foldl (postAsyncEvent hd) (sl, [])) := fun a =>
    @posted_foldl sl hd sl.connecting a
  unfold SocketSlot.refreshAsyncSelect
  split
  · next hk =>
    refine ⟨[], hs [], fun e he => ?_⟩
    obtain ⟨hu, hw, hv⟩ := he
    rcases hk with hun | hz | hn
    · rw [hun] at hu
      cases hu
    · exact absurd hz hw
    · rw [EventMask.any_of hv] at hn
      cases hn
  · split
    · exact ⟨[], hs [], by simp⟩
    · next er => exact ⟨[(.close, er)], hs _, by simp⟩
    · exact ⟨_, posted_foldl _, fun e he => mem_asyncAttempts he.2.2⟩

/-- **A refresh posts the watched events whose conditions hold and that are not notified.** -/
theorem mem_posted_iff {sl : SocketSlot} {hd : ℕ} {ans : PollAnswer} (he : sl.Watches e) :
    (∃ m ∈ (sl.refreshAsyncSelect hd ans).2, m.event = e) ↔
      sl.holds ans e ∧ sl.asyncNotifiedEvents e = false := by
  obtain ⟨a, hp, ha⟩ := @posted_refresh sl hd ans
  rw [hp.messages e, ha e he]
  constructor
  · rintro ⟨-, -, hn, hh⟩
    exact ⟨hh, hn⟩
  · rintro ⟨hh, hn⟩
    exact ⟨he.2.1, he.2.2, hn, hh⟩

/-! ### The invariant -/

/-- What a slot has marked as notified is what its journal has not enabled again. -/
def Faithful (slot : SocketSlot) (journal : List Note) : Prop :=
  ∀ e, slot.Watches e → (slot.asyncNotifiedEvents e = false ↔ Enabled journal e)

section Faithful

variable {slot sl slot' : SocketSlot} {journal jo : List Note}

/-- Two slots with the same registration. -/
structure SameWatch (slot slot' : SocketSlot) : Prop where
  used : slot'.used = slot.used
  window : slot'.asyncWindow = slot.asyncWindow
  events : slot'.asyncEvents = slot.asyncEvents

theorem SameWatch.watches (hs : SameWatch sl slot') : slot'.Watches e ↔ sl.Watches e := by
  unfold SocketSlot.Watches
  rw [hs.used, hs.window, hs.events]

theorem Faithful.congr (h : Faithful slot journal) (hs : SameWatch slot slot')
    (hn : slot'.asyncNotifiedEvents = slot.asyncNotifiedEvents) : Faithful slot' journal := by
  intro e he
  rw [hn]
  exact h e (hs.watches.1 he)

theorem faithful_of_window (h : sl.asyncWindow = 0) : Faithful sl journal :=
  fun _ he => absurd h he.2.1

theorem faithful_registered (h : sl.asyncNotifiedEvents = noEvents) :
    Faithful sl (.registered :: jo) := by
  intro e _
  rw [h]
  exact iff_of_true rfl enabled_registered

theorem Faithful.ended (h : Faithful sl jo) {c : EventMask}
    {sa : Prop} [Decidable sa] (hs : SameWatch sl slot')
    (hn : ∀ e, slot'.asyncNotifiedEvents e = (sl.asyncNotifiedEvents e && !c e))
    (hd : ∀ e, sl.Muted e → (c e ↔ sa ∧ f.reenables e)) :
    Faithful slot' (if sa then .called f :: jo else jo) := by
  intro e he'
  have he := hs.watches.1 he'
  have hold := h e he
  rw [hn e]
  by_cases hm : sl.asyncNotifiedEvents e
  · have hc := hd e ⟨he, hm⟩
    have hnot : ¬Enabled jo e := fun hen => by
      rw [hold.2 hen] at hm
      cases hm
    split
    · next ha => simp [hm, hc, ha, enabled_called, hnot]
    · next ho => simp [hm, hc, ho, hnot]
  · have hen : Enabled jo e := hold.1 (by simpa using hm)
    have hn' : Enabled (if sa then .called f :: jo else jo) e := by
      split
      · exact enabled_called.2 (.inr hen)
      · exact hen
    simp [hm, hn']

theorem Faithful.refreshed (h : Faithful sl jo) {hd : ℕ} {ans : PollAnswer} {a : NetEvent → Bool}
    (ha : ∀ e, sl.Watches e → sl.holds ans e →
      sl.asyncNotifiedEvents e = false → a e) :
    Faithful (sl.refreshAsyncSelect hd ans).1
      (postNotes (sl.refreshAsyncSelect hd ans).2 a ++ jo) := by
  obtain ⟨att, ho, -⟩ := @posted_refresh sl hd ans
  intro e he'
  have he : sl.Watches e := (SameWatch.mk ho.used ho.window ho.events).watches.1 he'
  have hp := @mem_posted_iff e sl hd ans he
  rw [enabled_postNotes, ← h e he, ← Bool.not_eq_true, ho.notified e, not_or, Bool.not_eq_true]
  refine and_congr_right fun hn => not_congr ⟨fun hm => ⟨hm, ?_⟩, fun hm => hm.1⟩
  obtain ⟨hh, -⟩ := hp.1 hm
  exact ha e he hh hn

end Faithful

/-! ### Steps -/

def AllFaithful (s : Winsock) : Prop := ∀ i, Faithful (s.sockets i) (s.journal i)

namespace AllFaithful

variable {i : ℕ}

theorem write (h : s.AllFaithful) {sl : SocketSlot} {jo : List Note} (hs : Faithful sl jo) :
    ({ s with
        sockets := update s.sockets i sl
        journal := update s.journal i jo } : Winsock).AllFaithful := by
  intro j
  show Faithful (update s.sockets i sl j) (update s.journal i jo j)
  by_cases hj : j = i
  · subst hj
    rw [update_self, update_self]
    exact hs
  · rw [update_of_ne hj, update_of_ne hj]
    exact h j

theorem setSlot (h : s.AllFaithful) {sl : SocketSlot}
    (hs : Faithful sl (s.journal i)) : (s.setSlot i sl).AllFaithful := by
  have hw := h.write (i := i) hs
  rwa [update_eq_self] at hw

theorem note (h : s.AllFaithful) {ev : Note}
    (hs : Faithful (s.sockets i) (ev :: s.journal i)) : (s.note i ev).AllFaithful := by
  have hw := h.write (i := i) hs
  rwa [update_eq_self] at hw

theorem of_slots (h : s.AllFaithful) {ss : ℕ → SocketSlot}
    (hs : ∀ i, SameWatch (s.sockets i) (ss i) ∧
      (ss i).asyncNotifiedEvents = (s.sockets i).asyncNotifiedEvents) :
    ({ s with sockets := ss } : Winsock).AllFaithful := fun i =>
  (h i).congr (hs i).1 (hs i).2

attribute [local simp] noEvents

theorem called (h : s.AllFaithful) (hd : ∀ e, (s.sockets i).Muted e → f.reenables e = false) :
    (s.note i (.called f)).AllFaithful := by
  refine h.note ?_
  have hn : ∀ e, (s.sockets i).Muted e →
      (noEvents e ↔ True ∧ f.reenables e) := fun e hm => by
    simp [hd e hm]
  have he := (h i).ended ⟨rfl, rfl, rfl⟩ (fun e => (Bool.and_true _).symm) hn
  rwa [if_pos trivial] at he

variable {c : SocketLookup}

theorem publish (h : s.AllFaithful) {o : Outcome} (hd : s.EndsWell c c.function.clears) :
    ((s.publish c o).noteCall c).AllFaithful := by
  have hk : ∀ (f : SocketFunction) (sl : SocketSlot), SameWatch sl (f.publish o sl) ∧
      ∀ e, (f.publish o sl).asyncNotifiedEvents e =
        (sl.asyncNotifiedEvents e && !f.clears e) := by
    intro f sl
    cases f <;> cases o <;> refine ⟨⟨rfl, rfl, rfl⟩, fun e => ?_⟩ <;>
      simp [SocketFunction.publish, SocketFunction.clears, SocketSlot.clearAsyncNotification]
  have hq := @Quiet.publish s c o
  unfold Winsock.noteCall
  rw [hq.resolveIfCurrent, hq.lives]
  rcases hr : s.resolveIfCurrent c.handle c.generation with _ | i
  · simp only [Winsock.publish, hr]
    exact h
  obtain ⟨hs, hn⟩ := hk c.function (s.sockets i)
  have he := (h i).ended hs hn (hd i hr)
  simp only [Winsock.publish, hr]
  split
  · next hl =>
    rw [if_pos hl] at he
    exact h.write he
  · next ho =>
    rw [if_neg ho] at he
    exact h.setSlot he

theorem noteCall (h : s.AllFaithful) (he : s.EndsWell c noEvents) : (s.noteCall c).AllFaithful := by
  unfold Winsock.noteCall
  split
  · next i hi =>
    split
    · next hl =>
      refine h.called fun e hm => ?_
      have hf := he i hi e hm
      simpa [hl] using hf
    · exact h
  · exact h

/-- A new socket watches nothing. -/
theorem install (h : s.AllFaithful) {ty : ℤ} {fd l : ℕ} : (s.install ty fd l).AllFaithful := by
  intro j
  unfold Winsock.install
  split
  · exact h j
  next i hi =>
  dsimp only
  by_cases hj : j = i
  · subst hj
    rw [update_self]
    exact faithful_of_window rfl
  · rw [update_of_ne hj, update_of_ne hj]
    exact h j

/-- The slot that a new socket takes has nothing muted, the others are as before. -/
theorem endsWell_install {ty : ℤ} {fd l : ℕ} {cleared : EventMask}
    (he : s.EndsWell c cleared) : (s.install ty fd l).EndsWell c cleared := by
  rcases hf : s.freeSlot with _ | i
  · have hc : s.install ty fd l = s.closeDescriptor fd := by
      unfold Winsock.install
      rw [hf]
    rw [hc]
    exact he
  · intro j hj e hm
    by_cases hi : j = i
    · subst hi
      exact absurd (install_self hf).2.2.1 hm.1.2.1
    obtain ⟨hs, hl⟩ := @install_of_ne s ty i fd l hf j hi
    obtain ⟨hfi, hg⟩ := resolveIfCurrent_eq_some.1 hj
    obtain ⟨hh, ht, hu⟩ := findSocket_eq_some.1 hfi
    rw [hs] at hu hg hm
    rw [hl]
    exact he j (resolveIfCurrent_eq_some.2 ⟨findSocket_eq_some.2 ⟨hh, ht, hu⟩, hg⟩) e hm

end AllFaithful

/-- **A step that rearms keeps the slots faithful to their journals.** -/
theorem AllFaithful.step {a : Action} (h : s.AllFaithful) (ho : s.Rearming a)
    (hs : s.step a = some s') : s'.AllFaithful := by
  cases a with
  | socket ty =>
    obtain ⟨-, hs⟩ := Option.ite_none_left_eq_some.1 hs
    cases hs
    exact h
  | closesocket hn =>
    dsimp only [Winsock.step] at hs
    split at hs
    · cases hs
    · split at hs <;> cases hs
      · exact h.setSlot (faithful_of_window rfl)
      · exact AllFaithful.setSlot (s := s.closeDescriptor _) h (faithful_of_window rfl)
  | resolve f hn =>
    change s.resolve f hn = some s' at hs
    unfold Winsock.resolve at hs
    split at hs
    · cases hs
    · obtain ⟨-, hs⟩ := Option.ite_none_left_eq_some.1 hs
      cases hs
      exact h
  | turnAway f hn =>
    dsimp only [Winsock.step] at hs
    split at hs
    · cases hs
    next i hi =>
    obtain ⟨-, heq⟩ := Option.ite_none_right_eq_some.1 hs
    cases heq
    exact h.called (ho i hi)
  | abandon n =>
    dsimp only [Winsock.step] at hs
    split at hs
    · next c ha =>
      obtain ⟨-, heq⟩ := Option.ite_none_left_eq_some.1 hs
      cases heq
      exact h.noteCall (ho c ha)
    · cases hs
  | systemCall n o =>
    dsimp only [Winsock.step] at hs
    split at hs
    · next c ha =>
      obtain ⟨-, hs⟩ := Option.ite_none_left_eq_some.1 hs
      obtain ⟨-, hs⟩ := Option.ite_none_left_eq_some.1 hs
      split at hs
      · cases hs
        exact h
      split at hs
      · cases hs
        exact h
      next he =>
      cases hs
      refine h.noteCall ?_
      by_cases hp : c.function.publishes
      · -- `listen` has failed, and enables nothing
        obtain ⟨hl, -⟩ := not_not.1 fun hnot => he ⟨hp, hnot⟩
        intro i _ e _
        simp [noEvents, SocketFunction.reenables, hl]
      · exact ho c ha (by simpa using hp)
    · cases hs
  | addressFault n =>
    dsimp only [Winsock.step] at hs
    split at hs
    · cases hs
      exact h
    · cases hs
  | publish n =>
    dsimp only [Winsock.step] at hs
    split at hs
    · cases hs
      exact h.install
    · next c fd l ha =>
      cases hs
      exact h.install.publish (endsWell_install (ho.2 c fd l ha))
    · next c o ha =>
      cases hs
      exact h.publish (ho.1 c o ha)
    · cases hs
  | wsaAsyncSelect hn w m es fc =>
    dsimp only [Winsock.step] at hs
    split at hs
    · cases hs
    obtain ⟨-, hs⟩ := Option.ite_none_left_eq_some.1 hs
    obtain ⟨-, hs⟩ := Option.ite_none_left_eq_some.1 hs
    cases hs
    exact h.write (faithful_registered rfl)
  | wsaEventSelect hn ev ed es fc =>
    dsimp only [Winsock.step] at hs
    split at hs
    · cases hs
    obtain ⟨-, hs⟩ := Option.ite_none_left_eq_some.1 hs
    obtain ⟨-, hs⟩ := Option.ite_none_left_eq_some.1 hs
    cases hs
    exact h.setSlot (faithful_of_window rfl)
  | wsaCloseEvent ev =>
    obtain ⟨-, hs⟩ := Option.ite_none_left_eq_some.1 hs
    cases hs
    refine h.of_slots fun i => ?_
    split <;> exact ⟨⟨rfl, rfl, rfl⟩, rfl⟩
  | refreshWsaEvents ans =>
    cases hs
    refine h.of_slots fun i => ?_
    unfold SocketSlot.refreshWsaEvents
    split
    · split
      · exact ⟨⟨rfl, rfl, rfl⟩, rfl⟩
      · split <;> exact ⟨⟨rfl, rfl, rfl⟩, rfl⟩
    · exact ⟨⟨rfl, rfl, rfl⟩, rfl⟩
  | refreshAsyncSelect ans ac =>
    cases hs
    intro i
    by_cases hi : i < kSocketSlots
    · simpa only [refreshAsync, asyncRound, if_pos hi] using (h i).refreshed (ho i hi)
    · simpa only [refreshAsync, if_neg hi] using h i

theorem AllFaithful.disciplined (h : s.AllFaithful) : s.Disciplined := by
  intro i ans
  obtain ⟨a, hp, -⟩ := @posted_refresh (s.sockets i) (kSocketHandleBase + i) ans
  refine ⟨hp.nodup, fun e he => ?_⟩
  rw [mem_posted_iff he, h i e he]

/-- **In a run whose steps rearm, every refresh posts exactly the events whose conditions hold
and that a call has enabled since their last message.** -/
theorem async_select_disciplined {s₀ : Winsock} (h₀ : s₀.Initial)
    (hrun : Runs Winsock.step Rearming s₀ s) : s.Disciplined := by
  have hi : s₀.AllFaithful := by
    intro i
    rw [h₀.unused i]
    exact faithful_of_window rfl
  exact (hrun.keeps (fun _ _ _ h ho hs => h.step ho hs) hi).disciplined

/-- The socket can be read, and the queue takes the message. -/
def readable : PollAnswer := .ready { readable := true }

/-- A socket is registered for `FD_READ`, and its message has been posted. -/
def notifying : List Action :=
  [.socket kSockDgram, .publish 0, .wsaAsyncSelect kSocketHandleBase 1 1 1 true,
    .refreshAsyncSelect (fun _ => readable) fun _ _ => true]

theorem runs_notifying : Runs Winsock.step Rearming threeFiles
      ((runAll Winsock.step threeFiles notifying).getD threeFiles) := by
  refine Runs.head (a := .socket kSockDgram) trivial rfl
    (Runs.head (a := .publish 0) ⟨fun c o ha => ?_, fun c fd l ha => ?_⟩ rfl
      (Runs.head (a := .wsaAsyncSelect kSocketHandleBase 1 1 1 true) trivial rfl
        (Runs.head (a := .refreshAsyncSelect (fun _ => readable) fun _ _ => true)
          (fun _ _ _ _ _ _ => rfl) rfl (Runs.refl _))))
  · cases (Prod.mk.inj (Option.some.inj ha)).2
  · cases (Prod.mk.inj (Option.some.inj ha)).1

/-- The message is answered with `recv`, and the next refresh finds the socket readable again. -/
def renotifying : List Action :=
  [.resolve .recv kSocketHandleBase, .systemCall 1 .success, .publish 1,
    .refreshAsyncSelect (fun _ => readable) fun _ _ => true]

theorem runs_renotifying : Runs Winsock.step Rearming threeFiles
      ((runAll Winsock.step threeFiles (notifying ++ renotifying)).getD threeFiles) := by
  refine runs_notifying.trans (Runs.head (a := .resolve .recv kSocketHandleBase) trivial rfl
    (Runs.head (a := .systemCall 1 .success) (fun c ha hp => ?_) rfl
      (Runs.head (a := .publish 1) ⟨fun c o ha => ?_, fun c fd l ha => ?_⟩ rfl
        (Runs.head (a := .refreshAsyncSelect (fun _ => readable) fun _ _ => true)
          (fun _ _ _ _ _ _ => rfl) rfl (Runs.refl _)))))
  · cases (Prod.mk.inj (Option.some.inj ha)).1
    cases hp
  · cases (Prod.mk.inj (Option.some.inj ha)).1
    intro i hi e hm
    cases hi
    have hread : e = .read := by
      have hn := hm.2
      cases e with
      | read => rfl
      | _ => exact absurd hn (by decide +kernel)
    rw [hread]
    decide +kernel
  · cases (Prod.mk.inj (Option.some.inj ha)).2

/-- Both refreshes have posted. -/
theorem async_select_disciplined_renotifying : ∃ s, Runs Winsock.step Rearming threeFiles s ∧
    s.Disciplined ∧ ((s.journal 0).filter (Note.delivers .read)).length = 2 :=
  ⟨_, runs_renotifying, async_select_disciplined threeFiles_initial runs_renotifying,
    by decide +kernel⟩

/-- **After `recvfrom` a socket that can be read again posts nothing.** -/
theorem not_async_select_disciplined :
    ¬∀ s₀ s : Winsock, s₀.Initial → Runs Winsock.step Free s₀ s → s.Disciplined := by
  intro ha
  have hd : (runAll Winsock.step threeFiles
      (notifying ++ [.resolve .recvfrom kSocketHandleBase, .systemCall 1 .success])).map (fun s =>
        ((s.sockets 0).used && (s.sockets 0).asyncWindow != 0 && (s.sockets 0).asyncEvents .read &&
          (s.sockets 0).holds readable .read &&
          ((s.sockets 0).refreshAsyncSelect kSocketHandleBase readable).2.isEmpty,
          (s.journal 0).head?)) = some (true, some (.called .recvfrom)) := by
    decide +kernel
  obtain ⟨s, hr, heq⟩ := Option.map_eq_some_iff.mp hd
  obtain ⟨⟨⟨⟨⟨hu, hw⟩, hv⟩, hh⟩, hn⟩, hj⟩ := by
    simpa only [Prod.mk.injEq, Bool.and_eq_true] using heq
  have ht : (s.sockets 0).Watches .read := ⟨hu, by simpa using hw, hv⟩
  have he : Enabled (s.journal 0) .read := by
    obtain ⟨o, hc⟩ := head?_eq_some_iff.mp hj
    rw [hc]
    exact enabled_called.mpr (.inl rfl)
  have hp := ((ha threeFiles s threeFiles_initial (Runs.of_runAll hr) 0 readable).2 .read
    ht).mpr ⟨hh, he⟩
  obtain ⟨m, hm, -⟩ := hp
  rw [Nat.add_zero, List.isEmpty_iff.mp hn] at hm
  cases hm

end TradutorLinux.Winsock
