import TradutorLinux.Net.AsyncSelect

/-!
# The two back ends of the network events

`refresh_wsa_events_locked` records the events of a socket that
`WSAEventSelect` has registered, `refresh_async_select_locked` posts those of one
that `WSAAsyncSelect` has registered.  Their loops are copies of each other but
for one step: only the second peeks at a readable socket to tell an orderly
shutdown of the peer from data.

## Main definitions

* `errnoToWsa` — the error codes.
* `KernelAnswer`

## Main results

* `mem_recorded_iff`, `mem_postedEvents_iff` — an event is recorded, or posted,
  exactly if the mask has it and it was attempted.
* `backends_agree_iff`
-/

namespace TradutorLinux.Winsock

open List Function Prod

/-! ### Errors -/

def kEintr : ℕ := 4

/-- `errno_to_wsa`, with the numbers of Linux. -/
def errnoToWsa (error : ℕ) : ℕ :=
  match error with
  | 4 => 10004
  | 9 => 10009
  | 13 | 1 => 10013
  | 24 => 10024
  | 98 => 10048
  | 99 => 10049
  | 97 => 10047
  | 11 | 115 | 114 => 10035
  | 103 => 10053
  | 111 => 10061
  | 104 => 10054
  | 89 => 10039
  | 113 => 10065
  | 106 => 10056
  | 22 => 10022
  | 90 => 10040
  | 100 => 10050
  | 102 => 10052
  | 101 => 10051
  | 105 => 10055
  | 92 => 10042
  | 93 => 10043
  | 107 => 10057
  | 95 => 10045
  | 91 => 10041
  | 108 => 10058
  | 110 => 10060
  | _ => 10022

theorem errnoToWsa_lt (e : ℕ) : errnoToWsa e < 2 ^ 16 := by
  unfold errnoToWsa
  split <;> decide

/-! ### What the kernel answers -/

/-- The answers of a round: `poll` fails with an error or gives `revents`; `getsockopt` fails
with one or gives `SO_ERROR`; the peek reads one byte, finds the end, or fails. -/
structure KernelAnswer where
  poll : Except ℕ Readiness
  socketError : Except ℕ ℕ := .ok 0
  peek : ℤ := -1

namespace KernelAnswer

/-- `wsa_error`. -/
def wsaError (a : KernelAnswer) : ℕ :=
  match a.socketError with
  | .error errno => errnoToWsa errno
  | .ok error => if error = 0 then 0 else errnoToWsa error

/-- The round as the loops see it. -/
def toPoll (a : KernelAnswer) : PollAnswer :=
  match a.poll with
  | .error errno => if errno = kEintr then .interrupted else .failed (errnoToWsa errno)
  | .ok revents => .ready { revents with eof := a.peek = 0, soError := a.wsaError }

theorem wsaError_lt (a : KernelAnswer) : a.wsaError < 2 ^ 16 := by
  unfold wsaError
  split
  · exact errnoToWsa_lt _
  · split
    · decide
    · exact errnoToWsa_lt _

end KernelAnswer

/-! ### Recording -/

/-- `pending_events` and `event_errors` of a slot. -/
structure PendingEvents where
  pending : EventMask := noEvents
  errors : NetEvent → ℕ := fun _ => 0

/-- `set_pending_event`; `event_index` gives every event a place of its own. -/
def setPendingEvent (mask : EventMask) (p : PendingEvents) (attempt : NetEvent × ℕ) :
    PendingEvents :=
  let (event, error) := attempt
  if mask event = false then p
  else ⟨update p.pending event true, update p.errors event error⟩

namespace SocketSlot

variable (slot sl s : SocketSlot)

/-- The calls of `set_pending_event` that an answer of `poll` leads to, in order. -/
def eventAttempts (revents : Readiness) : List (NetEvent × ℕ) :=
  let connecting := slot.connecting && !slot.connectEnds revents
  (if slot.connectEnds revents then [(.connect, revents.soError)] else []) ++
  (if revents.urgent then [(.oob, 0)] else []) ++
  (if revents.writable && !connecting then [(.write, 0)] else []) ++
  (if revents.readable then [(if slot.listening then .accept else .read, 0)] else []) ++
  (if revents.error || revents.hangup || revents.invalid then
    [(.close, if revents.invalid then kWsaENotSocket else 0)] else [])

/-- One round of the loop of `refresh_wsa_events_locked`. -/
def refreshPending (p : PendingEvents) (answer : PollAnswer) : PendingEvents :=
  if slot.used = false ∨ slot.eventHandle = 0 ∨ slot.networkEvents.any = false then p
  else match answer with
    | .interrupted => p
    | .failed error => setPendingEvent slot.networkEvents p (.close, error)
    | .ready readiness =>
      (slot.eventAttempts (readiness.requested slot.networkEvents)).foldl
        (setPendingEvent slot.networkEvents) p

/-- The slot as `tl_WSAEventSelect` leaves it. -/
def registerEvent (event : ℕ) (mask : EventMask) : SocketSlot :=
  { slot with
    eventHandle := event
    networkEvents := mask
    asyncWindow := 0
    asyncMessage := 0
    asyncEvents := noEvents
    asyncNotifiedEvents := noEvents }

/-- The slot as `tl_WSAAsyncSelect` leaves it. -/
def registerAsync (window message : ℕ) (mask : EventMask) : SocketSlot :=
  { slot with
    eventHandle := 0
    networkEvents := noEvents
    asyncWindow := window
    asyncMessage := message
    asyncEvents := mask
    asyncNotifiedEvents := noEvents }

/-- The events that a round of `refresh_wsa_events_locked` records, with their errors, when
nothing is pending. -/
def recorded (event : ℕ) (mask : EventMask) (a : KernelAnswer) : Set (NetEvent × ℕ) :=
  { x | ((slot.registerEvent event mask).refreshPending {} a.toPoll).pending x.1 = true ∧
    ((slot.registerEvent event mask).refreshPending {} a.toPoll).errors x.1 = x.2 }

/-- The events that a round of `refresh_async_select_locked` posts, with the errors that their
messages carry, when nothing is notified. -/
def postedEvents (handle window message : ℕ) (mask : EventMask) (a : KernelAnswer) :
    Set (NetEvent × ℕ) :=
  { x | ∃ m ∈ ((slot.registerAsync window message mask).refreshAsyncSelect handle a.toPoll).2,
    m.event = x.1 ∧ m.lparam / 2 ^ 16 = x.2 }

end SocketSlot

/-! ### What is recorded and what is posted -/

variable {slot sl s : SocketSlot} {mask ma : EventMask} {attempts : List (NetEvent × ℕ)}
  {x : NetEvent × ℕ}

theorem foldl_setPendingEvent (hn : (attempts.map fst).Nodup) (p : PendingEvents)
    (hw : ∀ a ∈ attempts, p.pending a.1 = false) :
    (attempts.foldl (setPendingEvent mask) p).pending x.1 ∧
        (attempts.foldl (setPendingEvent mask) p).errors x.1 = x.2 ↔
      p.pending x.1 ∧ p.errors x.1 = x.2 ∨ mask x.1 ∧ x ∈ attempts := by
  induction attempts generalizing p with
  | nil => simp
  | cons att attempts ih =>
    obtain ⟨event, er⟩ := att
    obtain ⟨hh, ht⟩ := nodup_cons.1 hn
    have hv : ∀ a ∈ attempts, a.1 ≠ event := by
      intro a ha heq
      exact hh (mem_map.2 ⟨a, ha, heq⟩)
    have hr : ∀ a ∈ attempts, (setPendingEvent mask p (event, er)).pending a.1 = false := by
      intro a ha
      dsimp only [setPendingEvent]
      split
      · exact hw a (mem_cons_of_mem _ ha)
      · show update p.pending event true a.1 = false
        rw [update_of_ne (hv a ha)]
        exact hw a (mem_cons_of_mem _ ha)
    rw [foldl_cons, ih ht _ hr]
    have hf := hw (event, er) mem_cons_self
    unfold setPendingEvent
    dsimp only at hf ⊢
    obtain ⟨e, err⟩ := x
    by_cases hma : mask event = false
    · rw [if_pos hma]
      simp only [mem_cons, Prod.mk.injEq]
      constructor
      · rintro (hold | ⟨hm, hme⟩)
        · exact .inl hold
        · exact .inr ⟨hm, .inr hme⟩
      · rintro (hold | ⟨hm, ⟨rfl, -⟩ | hme⟩)
        · exact .inl hold
        · rw [hma] at hm
          cases hm
        · exact .inr ⟨hm, hme⟩
    · rw [if_neg hma]
      by_cases he : e = event
      · subst he
        have ho : (e, err) ∉ attempts := fun hme => hv _ hme rfl
        simp [hf, ho, hma, eq_comm]
      · simp [he]

def asyncMessageFor (slot : SocketSlot) (handle : ℕ) (attempt : NetEvent × ℕ) : AsyncMessage :=
  ⟨slot.asyncWindow, slot.asyncMessage, handle, packedLparam attempt.1 attempt.2, attempt.1⟩

theorem foldl_postAsyncEvent_messages {handle : ℕ} (hn : (attempts.map fst).Nodup)
    (hw : slot.asyncWindow ≠ 0) (ms : List AsyncMessage)
    (he : ∀ a ∈ attempts, slot.asyncNotifiedEvents a.1 = false) :
    (attempts.foldl (postAsyncEvent handle) (slot, ms)).2 =
      ms ++ (attempts.filter fun a => slot.asyncEvents a.1).map (asyncMessageFor slot handle) := by
  induction attempts generalizing slot ms with
  | nil => simp
  | cons att attempts ih =>
    obtain ⟨event, er⟩ := att
    obtain ⟨hh, ht⟩ := nodup_cons.1 hn
    have hf := he (event, er) mem_cons_self
    have hr : ∀ a ∈ attempts, slot.asyncNotifiedEvents a.1 = false := fun a ha =>
      he a (mem_cons_of_mem _ ha)
    rw [foldl_cons]
    by_cases hm : slot.asyncEvents event
    · let marked : SocketSlot := { slot with
        asyncNotifiedEvents := fun e => slot.asyncNotifiedEvents e || decide (e = event) }
      have hs : postAsyncEvent handle (slot, ms) (event, er) =
          (marked, ms ++ [asyncMessageFor slot handle (event, er)]) := by
        simp [postAsyncEvent, hw, hm, hf, asyncMessageFor, marked]
      have hst : ∀ a ∈ attempts, marked.asyncNotifiedEvents a.1 = false := by
        intro a ha
        have hne : a.1 ≠ event := fun heq => hh (mem_map.2 ⟨a, ha, heq⟩)
        simp [hr a ha, hne, marked]
      have hma : marked.asyncWindow ≠ 0 := hw
      rw [hs, ih ht hma _ hst, append_assoc]
      simp only [filter_cons, hm, if_true, map_cons, singleton_append]
      rfl
    · have hs : postAsyncEvent handle (slot, ms) (event, er) = (slot, ms) := by
        simp [postAsyncEvent, hm]
      rw [hs, ih ht hw _ hr]
      simp only [filter_cons, hm]
      rfl

theorem packedLparam_div (ev : NetEvent) {error : ℕ} (h : error < 2 ^ 16) :
    packedLparam ev error / 2 ^ 16 = error := by
  have hb : 2 ^ ev.bit < 2 ^ 16 := by cases ev <;> decide
  unfold packedLparam
  generalize 2 ^ ev.bit = bit at hb ⊢
  omega

theorem nodup_attempts {c u w r co : Bool} {ce cl : ℕ} (l : Bool) :
    (((if c then [(NetEvent.connect, ce)] else []) ++ (if u then [(NetEvent.oob, 0)] else []) ++
      (if w then [(NetEvent.write, 0)] else []) ++
      (if r then [(if l then NetEvent.accept else NetEvent.read, 0)] else []) ++
      (if co then [(NetEvent.close, cl)] else [])).map fst).Nodup := by
  cases c <;> cases u <;> cases w <;> cases r <;> cases co <;>
    cases l <;> simp

namespace SocketSlot

/-- What the rounds of the two loops attempt. -/
def attemptsOf (attempts : Readiness → List (NetEvent × ℕ)) (mask : EventMask) :
    PollAnswer → List (NetEvent × ℕ)
  | .interrupted => []
  | .failed error => [(.close, error)]
  | .ready readiness => attempts (readiness.requested mask)

theorem nodup_eventAttempts (s : SocketSlot) (ans : PollAnswer) :
    ((attemptsOf s.eventAttempts ma ans).map fst).Nodup := by
  cases ans with
  | interrupted => simp [attemptsOf]
  | failed e => simp [attemptsOf]
  | ready r => exact nodup_attempts s.listening

theorem nodup_asyncAttempts (s : SocketSlot) (ans : PollAnswer) :
    ((attemptsOf s.asyncAttempts ma ans).map fst).Nodup := by
  cases ans with
  | interrupted => simp [attemptsOf]
  | failed e => simp [attemptsOf]
  | ready r => exact nodup_attempts s.listening

theorem error_lt_of_mem_asyncAttempts {a : KernelAnswer}
    (h : x ∈ attemptsOf s.asyncAttempts ma a.toPoll) : x.2 < 2 ^ 16 := by
  unfold KernelAnswer.toPoll at h
  split at h
  · next e _ =>
    split at h
    · simp [attemptsOf] at h
    · obtain rfl : x = (.close, errnoToWsa e) := by simpa [attemptsOf] using h
      exact errnoToWsa_lt e
  · have hi : ∀ {c : Bool} {y : NetEvent × ℕ}, x ∈ (if c then [y] else []) → x = y := by
      intro c y
      cases c <;> simp
    simp only [attemptsOf, asyncAttempts, mem_append] at h
    rcases h with (((h | h) | h) | h) | h
    · obtain rfl := hi h
      exact a.wsaError_lt
    · obtain rfl := hi h
      decide
    · obtain rfl := hi h
      decide
    · obtain rfl := hi h
      exact Nat.two_pow_pos 16
    · obtain rfl := hi h
      split <;> decide

/-- The close that an answer tells of. -/
def closeAttempt (revents : Readiness) : NetEvent × ℕ :=
  (.close, if revents.invalid then kWsaENotSocket else 0)

/-- A peek at a socket that does not listen finds the end of the stream. -/
def peerClosed (slot : SocketSlot) (revents : Readiness) : Bool :=
  revents.readable && !slot.listening && revents.eof

variable {revents re rs : Readiness}

theorem asyncAttempts_of_open (h : slot.peerClosed revents = false) :
    slot.asyncAttempts revents = slot.eventAttempts revents := by
  have ho : (revents.readable && !slot.listening && revents.eof) = false := h
  simp [asyncAttempts, eventAttempts, ho, Bool.not_false, Bool.and_true, Bool.false_or]

theorem mem_asyncAttempts_of_closed (h : s.peerClosed rs) : x ∈ s.asyncAttempts rs ↔
      x.1 ≠ .read ∧ (x ∈ s.eventAttempts rs ∨ x = closeAttempt rs) := by
  have hc : (rs.readable && !s.listening && rs.eof) := h
  simp only [Bool.and_eq_true, Bool.not_eq_true'] at hc
  have hi : ∀ {c : Bool} {y : NetEvent × ℕ}, x ∈ (if c then [y] else []) ↔
      c ∧ x = y := by
    intro c y
    cases c <;> simp
  simp only [asyncAttempts, eventAttempts, mem_append, hi, hc, closeAttempt]
  obtain ⟨e, er⟩ := x
  cases e <;> simp

theorem mem_eventAttempts_of_closed (h : s.peerClosed rs) :
    (.read, 0) ∈ s.eventAttempts rs ∧ ((∃ e, (.close, e) ∈ s.eventAttempts rs) ↔
        (rs.error || rs.hangup || rs.invalid)) := by
  have hc : (rs.readable && !s.listening && rs.eof) := h
  simp only [Bool.and_eq_true, Bool.not_eq_true'] at hc
  simp [eventAttempts, hc, mem_append]

/-- **What is recorded.** -/
theorem mem_recorded_iff {ev : ℕ} {a : KernelAnswer} (he : ev ≠ 0) : x ∈ s.recorded ev ma a ↔
      s.used ∧ ma x.1 ∧ x ∈ attemptsOf s.eventAttempts ma a.toPoll := by
  show _ ∧ _ ↔ _
  by_cases hru : s.used = false ∨ ev = 0 ∨ ma.any = false
  · have hs : (s.registerEvent ev ma).refreshPending {} a.toPoll = {} := if_pos hru
    rw [hs]
    constructor
    · rintro ⟨hp, -⟩
      cases hp
    · rintro ⟨hu, hm, -⟩
      rcases hru with hun | hz | hn
      · rw [hun] at hu
        cases hu
      · exact absurd hz he
      · rw [EventMask.any_of hm] at hn
        cases hn
  · have hr : (s.registerEvent ev ma).refreshPending {} a.toPoll =
        (attemptsOf s.eventAttempts ma a.toPoll).foldl (setPendingEvent ma) {} := by
      refine (if_neg hru).trans ?_
      cases a.toPoll <;> rfl
    have hu : s.used := by simpa using (not_or.1 hru).1
    rw [hr, foldl_setPendingEvent (s.nodup_eventAttempts _) _ fun _ _ => rfl]
    simp [hu, noEvents]

/-- **What is posted.** -/
theorem mem_postedEvents_iff {han wi mes : ℕ} {a : KernelAnswer} (hw : wi ≠ 0) :
    x ∈ s.postedEvents han wi mes ma a ↔
      s.used ∧ ma x.1 ∧ x ∈ attemptsOf s.asyncAttempts ma a.toPoll := by
  show (∃ m ∈ _, _) ↔ _
  by_cases hru : s.used = false ∨ wi = 0 ∨ ma.any = false
  · have hs : ((s.registerAsync wi mes ma).refreshAsyncSelect han a.toPoll).2 =
        [] := congrArg snd (if_pos hru)
    rw [hs]
    constructor
    · rintro ⟨m, hm, -⟩
      cases hm
    · rintro ⟨hu, ha, -⟩
      rcases hru with hun | hz | hn
      · rw [hun] at hu
        cases hu
      · exact absurd hz hw
      · rw [EventMask.any_of ha] at hn
        cases hn
  · have hr : ∃ c, (s.registerAsync wi mes ma).refreshAsyncSelect han a.toPoll =
        (attemptsOf s.asyncAttempts ma a.toPoll).foldl (postAsyncEvent han)
          ({ s.registerAsync wi mes ma with connecting := c }, []) := by
      cases hp : a.toPoll with
      | interrupted => exact ⟨s.connecting, if_neg hru⟩
      | failed e => exact ⟨s.connecting, if_neg hru⟩
      | ready r => exact ⟨_, if_neg hru⟩
    have hu : s.used := by simpa using (not_or.1 hru).1
    obtain ⟨c, hr⟩ := hr
    rw [hr, foldl_postAsyncEvent_messages (s.nodup_asyncAttempts _) hw _ fun _ _ => rfl]
    simp only [nil_append, mem_map, mem_filter, exists_exists_and_eq_and]
    constructor
    · rintro ⟨y, ⟨hy, ha⟩, hv, he⟩
      rw [show (asyncMessageFor _ han y).lparam = packedLparam y.1 y.2 from rfl,
        packedLparam_div _ (error_lt_of_mem_asyncAttempts hy)] at he
      obtain rfl : y = x := Prod.ext hv he
      exact ⟨hu, ha, hy⟩
    · rintro ⟨-, ha, hx⟩
      exact ⟨x, ⟨hx, ha⟩, rfl, packedLparam_div _ (error_lt_of_mem_asyncAttempts hx)⟩

/-! ### The comparison -/

def PeerShutDown (slot : SocketSlot) (a : KernelAnswer) : Prop :=
  slot.used = true ∧ slot.listening = false ∧ a.peek = 0 ∧
    ∃ revents, a.poll = .ok revents ∧ revents.readable = true

/-- The end of a stream is a close, and no data. -/
def TellsEnd (mask : EventMask) (events : Set (NetEvent × ℕ)) : Prop :=
  (mask .close = true → ∃ error, (.close, error) ∈ events) ∧ ∀ error, (.read, error) ∉ events

/-- The end of the stream makes a difference to the mask: it asks for reads, or for closes
that nothing else announces. -/
def EndMatters (mask : EventMask) (a : KernelAnswer) : Prop :=
  mask .read = true ∨ mask .close = true ∧
    ∃ revents, a.poll = .ok revents ∧ (revents.error || revents.hangup || revents.invalid) = false

theorem peerClosed_iff {a : KernelAnswer} (hp : a.poll = .ok rs)
    (hu : s.used) (hm : ma .read ∨ ma .close) :
    s.peerClosed ({ rs with eof := a.peek = 0, soError := a.wsaError }.requested ma) =
      true ↔ s.PeerShutDown a := by
  have ha : (ma .read || ma .accept || ma .close) := by rcases hm with h | h <;> simp [h]
  have ho : (∃ r, a.poll = .ok r ∧ r.readable) ↔ rs.readable := by simp [hp]
  unfold PeerShutDown
  rw [ho]
  simp only [peerClosed, Readiness.requested, ha, hu, Bool.and_true, Bool.and_eq_true,
    Bool.not_eq_true', decide_eq_true_eq, true_and]
  tauto

theorem toPoll_of_ok {a : KernelAnswer} (hp : a.poll = .ok rs) :
    a.toPoll = .ready { rs with eof := a.peek = 0, soError := a.wsaError } := by
  unfold KernelAnswer.toPoll
  rw [hp]

section Agreement

variable {event et ev window wi : ℕ} {a : KernelAnswer} (handle han message mes : ℕ)

theorem tellsEnd_postedEvents (hw : wi ≠ 0) (hd : s.PeerShutDown a) :
    TellsEnd ma (s.postedEvents han wi mes ma a) := by
  obtain ⟨hu, -, -, rs, hp, -⟩ := id hd
  constructor
  · intro hc
    have hl := (peerClosed_iff hp hu (.inr hc)).2 hd
    have ha : ∃ asked, s.peerClosed asked ∧
        attemptsOf s.asyncAttempts ma a.toPoll = s.asyncAttempts asked :=
      ⟨_, hl, by rw [toPoll_of_ok hp]; rfl⟩
    obtain ⟨asked, ha, he⟩ := ha
    refine ⟨(closeAttempt asked).2, (mem_postedEvents_iff hw).2 ⟨hu, hc, ?_⟩⟩
    rw [he]
    exact (mem_asyncAttempts_of_closed ha).2 ⟨by simp, .inr rfl⟩
  · intro e hm
    obtain ⟨-, hr, ht⟩ := (mem_postedEvents_iff hw).1 hm
    have hl := (peerClosed_iff hp hu (.inl hr)).2 hd
    rw [toPoll_of_ok hp] at ht
    exact ((mem_asyncAttempts_of_closed hl).1 ht).1 rfl

theorem recorded_ne_postedEvents (he : ev ≠ 0) (hw : wi ≠ 0)
    (hd : s.PeerShutDown a) (ht : EndMatters ma a) :
    s.recorded ev ma a ≠ s.postedEvents han wi mes ma a := by
  intro heq
  obtain ⟨hc, hr⟩ : TellsEnd ma (s.postedEvents han wi mes ma a) :=
    tellsEnd_postedEvents han mes hw hd
  obtain ⟨hu, -, -, rs, hp, -⟩ := id hd
  rw [← heq] at hc hr
  rcases ht with hm | ⟨hm, revents', hp', hq⟩
  · have ho := (peerClosed_iff hp hu (.inl hm)).2 hd
    apply hr 0
    refine (mem_recorded_iff he).2 ⟨hu, hm, ?_⟩
    rw [toPoll_of_ok hp]
    exact (mem_eventAttempts_of_closed ho).1
  · obtain rfl : rs = revents' := by
      rw [hp] at hp'
      exact Except.ok.inj hp'
    have ho := (peerClosed_iff hp hu (.inr hm)).2 hd
    obtain ⟨e, hme⟩ := hc hm
    obtain ⟨-, -, ha⟩ := (mem_recorded_iff he).1 hme
    rw [toPoll_of_ok hp] at ha
    have hl := (mem_eventAttempts_of_closed ho).2.1 ⟨e, ha⟩
    exact Bool.false_ne_true (hq.symm.trans hl)

/-- Elsewhere they tell the same. -/
theorem recorded_eq_postedEvents (he : ev ≠ 0) (hw : wi ≠ 0)
    (h : ¬(s.PeerShutDown a ∧ EndMatters ma a)) :
    s.recorded ev ma a = s.postedEvents han wi mes ma a := by
  ext x
  rw [mem_recorded_iff he, mem_postedEvents_iff hw]
  refine and_congr_right fun hu => and_congr_right fun hm => ?_
  cases hp : a.poll with
  | error e =>
    unfold KernelAnswer.toPoll
    rw [hp]
    dsimp only
    split <;> rfl
  | ok rs =>
    rw [toPoll_of_ok hp]
    simp only [attemptsOf]
    generalize ha : ({ rs with eof := a.peek = 0, soError := a.wsaError } :
      Readiness).requested ma = asked
    by_cases ho : s.peerClosed asked
    · have hd : ma .read ∨ ma .close → s.PeerShutDown a := by
        intro hn
        rw [← ha] at ho
        exact (peerClosed_iff hp hu hn).1 ho
      have hr : ma .read = false := by
        by_contra hr
        have hr : ma .read := by simpa using hr
        exact h ⟨hd (.inl hr), .inl hr⟩
      have hl : ma .close → (asked.error || asked.hangup || asked.invalid) := by
        intro hc
        by_contra hq
        have hq : (rs.error || rs.hangup || rs.invalid) = false := by
          simpa [← ha, Readiness.requested] using hq
        exact h ⟨hd (.inr hc), .inr ⟨hc, rs, hp, hq⟩⟩
      -- the mask leaves reads out, and a close is attempted in both loops
      have ht : x = closeAttempt asked → x ∈ s.eventAttempts asked := by
        rintro rfl
        have hl := hl hm
        simp [eventAttempts, closeAttempt, hl]
      rw [mem_asyncAttempts_of_closed ho]
      constructor
      · intro hx
        refine ⟨fun heq => ?_, .inl hx⟩
        rw [heq, hr] at hm
        cases hm
      · rintro ⟨-, hx | hx⟩
        · exact hx
        · exact ht hx
    · rw [asyncAttempts_of_open (by simpa using ho)]

end Agreement

/-- **The back ends agree exactly if no end of a stream is found that matters to the mask.** -/
theorem backends_agree_iff (slot : SocketSlot) (handle event window message : ℕ) (mask : EventMask)
    (a : KernelAnswer) (hevent : event ≠ 0) (hwindow : window ≠ 0) :
    (slot.recorded event mask a = slot.postedEvents handle window message mask a ∧
        (slot.PeerShutDown a → TellsEnd mask (slot.recorded event mask a) ∧
          TellsEnd mask (slot.postedEvents handle window message mask a))) ↔
      ¬(slot.PeerShutDown a ∧ EndMatters mask a) := by
  constructor
  · rintro ⟨heq, -⟩ ⟨hd, hm⟩
    exact recorded_ne_postedEvents handle message hevent hwindow hd hm heq
  · intro h
    have heq := recorded_eq_postedEvents handle message hevent hwindow h
    refine ⟨heq, fun hd => ?_⟩
    rw [heq]
    exact ⟨tellsEnd_postedEvents handle message hwindow hd,
      tellsEnd_postedEvents handle message hwindow hd⟩

/-- It applies to a socket with data to read. -/
theorem backends_agree_iff_data : (5 : ℕ) ≠ 0 ∧ (7 : ℕ) ≠ 0 ∧
      ((({ used := true } : SocketSlot).recorded 5 (eventMask 1)
            { poll := .ok { readable := true }, peek := 1 } =
          ({ used := true } : SocketSlot).postedEvents 3 7 1024 (eventMask 1)
            { poll := .ok { readable := true }, peek := 1 } ∧
        (({ used := true } : SocketSlot).PeerShutDown
            { poll := .ok { readable := true }, peek := 1 } →
          TellsEnd (eventMask 1) (({ used := true } : SocketSlot).recorded 5 (eventMask 1)
            { poll := .ok { readable := true }, peek := 1 }) ∧
          TellsEnd (eventMask 1) (({ used := true } : SocketSlot).postedEvents 3 7 1024
            (eventMask 1) { poll := .ok { readable := true }, peek := 1 }))) ↔
        ¬(({ used := true } : SocketSlot).PeerShutDown
            { poll := .ok { readable := true }, peek := 1 } ∧
          EndMatters (eventMask 1) { poll := .ok { readable := true }, peek := 1 })) :=
  ⟨by decide, by decide, backends_agree_iff _ _ _ _ _ _ _ (by decide) (by decide)⟩

/-- The peer of a stream has shut it down: the mask asks for `FD_READ` and `FD_CLOSE`, and the
first back end records a read and no close. -/
theorem not_backends_agree : ({ used := true } : SocketSlot).recorded 5 (eventMask 33)
        { poll := .ok { readable := true }, peek := 0 } ≠
      ({ used := true } : SocketSlot).postedEvents 3 7 1024 (eventMask 33)
        { poll := .ok { readable := true }, peek := 0 } ∧
    ({ used := true } : SocketSlot).PeerShutDown { poll := .ok { readable := true }, peek := 0 } ∧
    (.read, 0) ∈ ({ used := true } : SocketSlot).recorded 5 (eventMask 33)
        { poll := .ok { readable := true }, peek := 0 } ∧
    ∀ error, (.close, error) ∉ ({ used := true } : SocketSlot).recorded 5 (eventMask 33)
        { poll := .ok { readable := true }, peek := 0 } := by
  have hd : ({ used := true } : SocketSlot).PeerShutDown
      { poll := .ok { readable := true }, peek := 0 } := ⟨rfl, rfl, rfl, _, rfl, rfl⟩
  refine ⟨?_, hd, ⟨by decide, by decide⟩, ?_⟩
  · exact recorded_ne_postedEvents _ _ (by decide) (by decide) hd (.inl (by decide))
  · rintro error ⟨hp, -⟩
    have hn : ¬((({ used := true } : SocketSlot).registerEvent 5 (eventMask 33)).refreshPending
        {} (KernelAnswer.toPoll { poll := .ok { readable := true }, peek := 0 })).pending .close =
          true := by decide
    exact hn hp

end SocketSlot

end TradutorLinux.Winsock
