import TradutorLinux.Net.InternetSlots

/-!
# The timeouts of the WinINet handles

A request takes each of its timeouts from the first slot on the way to its session that has
one.  A new slot has 30000 ms already, so that the way ends at the request itself.

## Main definitions

* `internetSetOption` — the call that sets a timeout.
* `Timeouts`
* `Timeouts.inherited` — what the connection and the session of a handle give it.

## Main results

* `timeouts_inherited_iff`
-/

namespace TradutorLinux.WinInet

open Function Option InternetSlots

open TradutorLinux.Runtime (kErrorSuccess kErrorInvalidHandle kErrorInvalidParameter)
open Process (GuestPointer)

def kInternetOptionConnectTimeout : UInt32 := 2
def kInternetOptionSendTimeout : UInt32 := 5
def kInternetOptionReceiveTimeout : UInt32 := 6

/-- The options that `InternetSetOptionW` knows. -/
inductive TimeoutOption
  | connect
  | send
  | receive
deriving DecidableEq

def timeoutOption (option : UInt32) : Option TimeoutOption :=
  if option = kInternetOptionConnectTimeout then some .connect
  else if option = kInternetOptionSendTimeout then some .send
  else if option = kInternetOptionReceiveTimeout then some .receive
  else none

def TimeoutOption.member : TimeoutOption → InternetSlot → UInt32
  | .connect => InternetSlot.connectTimeoutMs
  | .send => InternetSlot.sendTimeoutMs
  | .receive => InternetSlot.receiveTimeoutMs

def TimeoutOption.store (timeout : UInt32) : TimeoutOption → InternetSlot → InternetSlot
  | .connect, slot => { slot with connectTimeoutMs := timeout }
  | .send, slot => { slot with sendTimeoutMs := timeout }
  | .receive, slot => { slot with receiveTimeoutMs := timeout }

/-- The arguments of `InternetSetOptionW`. -/
structure OptionArgs where
  internet : ℕ
  option : UInt32
  buffer : GuestPointer UInt32
  bufferLength : UInt32

def OptionArgs.parse (a : OptionArgs) : Except UInt32 (TimeoutOption × UInt32) :=
  if !given a.buffer ∨ a.bufferLength ≠ 4 then .error kErrorInvalidParameter
  else match timeoutOption a.option, a.buffer.mapped.head? with
    | none, _ => .error kErrorNotSupported
    | some _, none => .error kErrorInvalidParameter
    | some option, some timeout =>
      if timeout = 0 ∨ 600000 < timeout then .error kErrorInvalidParameter
      else .ok (option, timeout)

/-- `tl_InternetSetOptionW`. -/
def internetSetOption (slots : InternetSlots) (a : OptionArgs) : InternetSlots × InternetReply :=
  match a.parse, slots.findHandleLocked a.internet with
  | .error error, _ => (slots, ⟨0, error⟩)
  | .ok _, none => (slots, ⟨0, kErrorInvalidHandle⟩)
  | .ok (option, timeout), some index =>
    (update slots index (option.store timeout (slots index)), ⟨1, kErrorSuccess⟩)

/-! ### What is set on the handles -/

/-- A handle that was issued: the one that it was opened on, and what was set on it. -/
structure IssuedHandle where
  parent : Option ℕ := none
  timeouts : TimeoutOption → Option UInt32 := fun _ => none

/-- The table; the handles in the order in which they were issued, whether or not they have been
closed since; and which of them is in a slot. -/
structure Timeouts where
  slots : InternetSlots := noSlots
  count : ℕ := 0
  handles : ℕ → IssuedHandle := fun _ => {}
  holder : ℕ → ℕ := fun _ => 0

inductive TimeoutAction
  | call (c : InternetCall)
  | setOption (args : OptionArgs)

def openedIn (c : InternetCall) (reply : InternetReply) : Option ℕ :=
  match c with
  | .openSession _ | .connect _ | .openRequest _ =>
    if reply.value = 0 then none else some (reply.value - kInternetHandleBase)
  | _ => none

namespace Timeouts

variable (s : Timeouts)

def issue (slots : InternetSlots) (index : ℕ) : Timeouts where
  slots := slots
  count := s.count + 1
  handles := update s.handles s.count { parent := (slots index).parent.map s.holder }
  holder := update s.holder index s.count

def record (handle : ℕ) (option : TimeoutOption) (timeout : UInt32) : ℕ → IssuedHandle :=
  update s.handles handle { s.handles handle with
    timeouts := update (s.handles handle).timeouts option (some timeout) }

def step (s : Timeouts) : TimeoutAction → Option Timeouts
  | .call c => (s.slots.call c).map fun (slots, reply) =>
    match openedIn c reply with
    | none => { s with slots := slots }
    | some index => s.issue slots index
  | .setOption a =>
    let slots := (internetSetOption s.slots a).1
    match a.parse, s.slots.findHandleLocked a.internet with
    | .ok (option, timeout), some index =>
      some { s with slots := slots, handles := s.record (s.holder index) option timeout }
    | _, _ => some { s with slots := slots }

/-- What was set on the handle that this one was opened on, or else on the one behind it. -/
def inherited (handle : ℕ) (option : TimeoutOption) : UInt32 :=
  let set := fun h => (s.handles h).timeouts option
  ((s.handles handle).parent.bind fun parent =>
    (set parent).or ((s.handles parent).parent.bind set)).getD 30000

def due (handle : ℕ) (option : TimeoutOption) : UInt32 :=
  ((s.handles handle).timeouts option).getD (s.inherited handle option)

end Timeouts

/-! ### What the calls do to the timeouts -/

section Calls

variable {slots slo slots' ss' : InternetSlots} {c : InternetCall} {reply : InternetReply}

/-- The live slots were live before, with the same timeouts. -/
def SameTimeouts (slots slots' : InternetSlots) : Prop :=
  ∀ i, (slots' i).used = true →
    (slots i).used = true ∧ ∀ option : TimeoutOption, option.member (slots' i) = option.member (slots i)

theorem SameTimeouts.refl : SameTimeouts slots slots := fun _ hu => ⟨hu, fun _ => rfl⟩

theorem SameTimeouts.trans {slots'' : InternetSlots} (h : SameTimeouts slo ss')
    (h' : SameTimeouts ss' slots'') : SameTimeouts slo slots'' := by
  intro i hu
  obtain ⟨hu', hm⟩ := h' i hu
  exact ⟨(h i hu').1, fun op => (hm op).trans ((h i hu').2 op)⟩

theorem sameTimeouts_update {ix : ℕ} {sl : InternetSlot} (h : sl.used → (slo ix).used ∧
      ∀ op : TimeoutOption, op.member sl = op.member (slo ix)) :
    SameTimeouts slo (update slo ix sl) := by
  intro i
  by_cases hi : i = ix
  · subst hi
    simpa using h
  · simp [hi]

/-- A call opens a handle in a slot with the default timeouts, or leaves the timeouts. -/
inductive Opens (slots : InternetSlots) (c : InternetCall) : InternetSlots × InternetReply → Prop
  | opened (index : ℕ) (slot : InternetSlot) (reply : InternetReply) :
      openedIn c reply = some index → (∀ option : TimeoutOption, option.member slot = 30000) →
      Opens slots c (update slots index slot, reply)
  | kept (slots' : InternetSlots) (reply : InternetReply) : openedIn c reply = none →
      SameTimeouts slots slots' → Opens slots c (slots', reply)

theorem opens_allocate {sl : InternetSlot} {ix : ℕ}
    (hs : ∀ op : TimeoutOption, op.member sl = 30000)
    (ho : ∀ reply : InternetReply, openedIn c reply =
      if reply.value = 0 then none else some (reply.value - kInternetHandleBase))
    (ha : slo.allocateHandleLocked sl = some (ss', ix)) :
    Opens slo c (ss', ⟨handleValue ix, kErrorSuccess⟩) := by
  obtain ⟨i', -, heq⟩ := map_eq_some_iff.1 ha
  cases heq
  refine .opened ix sl _ ?_ hs
  rw [ho, if_neg]
  · simp [handleValue]
  · simp [handleValue, kInternetHandleBase]

theorem opens_internetOpen (a : OpenArgs) : Opens slo (.openSession a) (internetOpen slo a) := by
  unfold internetOpen
  cases (if given a.userAgent then copyWideZ a.userAgent else some []) with
  | none => exact .kept _ _ rfl .refl
  | some ag =>
    dsimp only
    split
    · exact .kept _ _ rfl .refl
    split
    · exact .kept _ _ rfl .refl
    · next ha => exact opens_allocate (by rintro ⟨⟩ <;> rfl) (fun _ => rfl) ha

theorem opens_internetConnect (a : ConnectArgs) :
    Opens slo (.connect a) (internetConnect slo a) := by
  unfold internetConnect
  cases copyWideZ a.serverName with
  | none => exact .kept _ _ rfl .refl
  | some se =>
    dsimp only
    split
    · exact .kept _ _ rfl .refl
    cases slo.findKind a.internet .session with
    | none => exact .kept _ _ rfl .refl
    | some p =>
      dsimp only
      split
      · exact .kept _ _ rfl .refl
      · next ha => exact opens_allocate (by rintro ⟨⟩ <;> rfl) (fun _ => rfl) ha

theorem opens_httpOpenRequest (a : RequestArgs) :
    Opens slo (.openRequest a) (httpOpenRequest slo a) := by
  unfold httpOpenRequest
  cases a.parse with
  | none => exact .kept _ _ rfl .refl
  | some ss =>
    cases slo.findKind a.connect .connection with
    | none => exact .kept _ _ rfl .refl
    | some p =>
      dsimp only
      split
      · exact .kept _ _ rfl .refl
      · next ha => exact opens_allocate (by rintro ⟨⟩ <;> rfl) (fun _ => rfl) ha

theorem sameTimeouts_addHeaders (a : HeadersArgs) :
    SameTimeouts slo (httpAddRequestHeaders slo a).1 := by
  unfold httpAddRequestHeaders
  cases a.text with
  | none => exact .refl
  | some t =>
    cases slo.findKind a.request .request with
    | none => exact .refl
    | some ix =>
      dsimp only
      cases mergeHeaders (slo ix).headers t a.modifiers with
      | none => exact .refl
      | some hs => exact sameTimeouts_update fun hu => ⟨hu, by rintro ⟨⟩ <;> rfl⟩

theorem sendRequest_timeouts {request r' : InternetSlot} {t : ByteString} {a : SendArgs}
    {es : Bool} (hs : sendRequest request t a es = some (r', reply)) :
    r'.used = request.used ∧ ∀ op : TimeoutOption, op.member r' = op.member request := by
  dsimp only [sendRequest] at hs
  split at hs
  · cases hs
    exact ⟨rfl, fun _ => rfl⟩
  split at hs
  · cases hs
    exact ⟨rfl, by rintro ⟨⟩ <;> rfl⟩
  split at hs
  · cases htransport : a.transport <;> rw [htransport] at hs <;> cases hs <;>
      exact ⟨rfl, by rintro ⟨⟩ <;> rfl⟩
  · cases hs

theorem sameTimeouts_send {a : SendArgs} (hs : httpSendRequest slots a = some (slots', reply)) :
    SameTimeouts slots slots' := by
  unfold httpSendRequest at hs
  split at hs
  · cases hs
    exact .refl
  split at hs
  · cases hs
    exact .refl
  split at hs
  · cases hs
    exact .refl
  · obtain ⟨⟨r, r'⟩, hr, heq⟩ := map_eq_some_iff.1 hs
    cases heq
    obtain ⟨hu, hm⟩ := sendRequest_timeouts hr
    exact sameTimeouts_update fun h => ⟨hu ▸ h, hm⟩

theorem sameTimeouts_closeSlots {a n : ℕ}
    (h : closeSlots a slots n = some slots') : SameTimeouts slots slots' := by
  induction n generalizing slots' with
  | zero =>
    cases h
    exact .refl
  | succ n ih =>
    obtain ⟨t, ht, hc⟩ := bind_eq_some_iff.1 h
    refine (ih ht).trans ?_
    unfold closeSlot at hc
    split at hc
    · obtain ⟨b, -, rfl⟩ := map_eq_some_iff.1 hc
      split
      · exact sameTimeouts_update (nofun)
      · exact .refl
    · cases hc
      exact .refl

theorem opens_call {x : InternetSlots × InternetReply} (h : slo.call c = some x) :
    Opens slo c x := by
  cases c with
  | openSession a => exact some.inj h ▸ opens_internetOpen a
  | connect a => exact some.inj h ▸ opens_internetConnect a
  | openRequest a => exact some.inj h ▸ opens_httpOpenRequest a
  | addHeaders a => exact some.inj h ▸ .kept _ _ rfl (sameTimeouts_addHeaders a)
  | send a => exact .kept _ _ rfl (sameTimeouts_send h)
  | closeHandle ie =>
    refine .kept _ _ rfl ?_
    dsimp only [InternetSlots.call, internetCloseHandle] at h
    split at h
    · cases h
      exact .refl
    · obtain ⟨t, ht, rfl⟩ := map_eq_some_iff.1 h
      exact sameTimeouts_closeSlots ht

end Calls

/-! ### Runs -/

namespace Timeouts

variable {s s' : Timeouts} {i : ℕ} {option op : TimeoutOption}

/-- Every live slot has what was set on its handle, or the default. -/
structure Sound (s : Timeouts) : Prop where
  own : ∀ i, (s.slots i).used = true → ∀ option : TimeoutOption,
    option.member (s.slots i) = ((s.handles (s.holder i)).timeouts option).getD 30000
  lt : ∀ i, (s.slots i).used = true → s.holder i < s.count
  apart : ∀ i j, (s.slots i).used = true → (s.slots j).used = true →
    s.holder i = s.holder j → i = j
  positive : ∀ handle option timeout, (s.handles handle).timeouts option = some timeout →
    timeout ≠ 0

theorem Sound.kept {slots : InternetSlots} (h : s.Sound) (hs : SameTimeouts s.slots slots) :
    Sound { s with slots := slots } where
  own i hused option := ((hs i hused).2 option).trans (h.own i (hs i hused).1 option)
  lt i hused := h.lt i (hs i hused).1
  apart i j hi hj := h.apart i j (hs i hi).1 (hs j hj).1
  positive := h.positive

/-- A call that opens a handle. -/
theorem Sound.issue {ix : ℕ} {sl : InternetSlot} (h : s.Sound)
    (hl : ∀ op : TimeoutOption, op.member sl = 30000) :
    (s.issue (update s.slots ix sl) ix).Sound := by
  have hold : ∀ {i}, i ≠ ix → (update s.slots ix sl i).used →
      (s.slots i).used := fun hi hu => by rwa [update_of_ne hi] at hu
  constructor <;> dsimp only [Timeouts.issue]
  · intro i hu op
    by_cases hi : i = ix
    · subst hi
      simp [hl]
    · have ht := h.lt i (hold hi hu)
      rw [update_of_ne hi, update_of_ne hi, update_of_ne ht.ne]
      exact h.own i (hold hi hu) op
  · intro i hu
    by_cases hi : i = ix
    · simp [hi]
    · rw [update_of_ne hi]
      exact Nat.lt_succ_of_lt (h.lt i (hold hi hu))
  · intro i j hi hj heq
    by_cases hii : i = ix <;> by_cases hjj : j = ix
    · rw [hii, hjj]
    · rw [hii, update_self, update_of_ne hjj] at heq
      exact absurd heq.symm (h.lt j (hold hjj hj)).ne
    · rw [hjj, update_self, update_of_ne hii] at heq
      exact absurd heq (h.lt i (hold hii hi)).ne
    · rw [update_of_ne hii, update_of_ne hjj] at heq
      exact h.apart i j (hold hii hi) (hold hjj hj) heq
  · intro hn op t hs
    by_cases hh : hn = s.count
    · simp [hh] at hs
    · rw [update_of_ne hh] at hs
      exact h.positive hn op t hs

theorem member_store (t : UInt32) (o o' : TimeoutOption) (slot : InternetSlot) :
    o'.member (o.store t slot) = if o' = o then t else o'.member slot := by
  cases o <;> cases o' <;> rfl

theorem OptionArgs.parse_pos {a : OptionArgs} {t : UInt32} (h : a.parse = .ok (op, t)) : t ≠ 0 := by
  unfold OptionArgs.parse at h
  split at h
  · cases h
  split at h
  · cases h
  · cases h
  split at h
  · cases h
  · next hr =>
    cases h
    exact fun hz => hr (.inl hz)

theorem Sound.setOption {ti : UInt32} (h : s.Sound) (hi : (s.slots i).used) (hp : ti ≠ 0) :
    Sound { s with
      slots := update s.slots i (op.store ti (s.slots i))
      handles := s.record (s.holder i) op ti } := by
  have hu : ∀ j, (update s.slots i (op.store ti (s.slots i)) j).used = (s.slots j).used := by
    intro j
    by_cases hj : j = i
    · subst hj
      rw [update_self]
      cases op <;> rfl
    · rw [update_of_ne hj]
  constructor <;> simp only [hu]
  · intro j hl o
    unfold record
    by_cases hj : j = i
    · subst hj
      rw [update_self, update_self, member_store]
      by_cases ho : o = op
      · simp [ho]
      · simp [ho, h.own j hl o]
    · rw [update_of_ne hj, update_of_ne fun heq => hj (h.apart j i hl hi heq)]
      exact h.own j hl o
  · exact h.lt
  · exact h.apart
  · intro hn o t hs
    unfold record at hs
    by_cases hh : hn = s.holder i
    · rw [hh, update_self] at hs
      dsimp only at hs
      by_cases ho : o = op
      · rw [ho, update_self] at hs
        cases hs
        exact hp
      · rw [update_of_ne ho] at hs
        exact h.positive _ o t hs
    · rw [update_of_ne hh] at hs
      exact h.positive hn o t hs

theorem Sound.step {a : TimeoutAction} (h : s.Sound) (hs : s.step a = some s') : s'.Sound := by
  cases a with
  | call c =>
    obtain ⟨x, hc, heq⟩ := map_eq_some_iff.1 hs
    cases opens_call hc with
    | opened ix sl _ ho hl =>
      simp only [ho] at heq
      exact heq ▸ h.issue hl
    | kept _ _ ho ha =>
      simp only [ho] at heq
      exact heq ▸ h.kept ha
  | setOption a =>
    simp only [Timeouts.step, internetSetOption] at hs
    cases hp : a.parse with
    | error error =>
      rw [hp] at hs
      cases hs
      exact h
    | ok p =>
      cases hf : s.slots.findHandleLocked a.internet with
      | none =>
        rw [hp, hf] at hs
        cases hs
        exact h
      | some ix =>
        rw [hp, hf] at hs
        cases hs
        exact h.setOption (filter_eq_some_iff.1 hf).2 (OptionArgs.parse_pos hp)

theorem sound_start : ({} : Timeouts).Sound where
  own i hused := by cases hused
  lt i hused := by cases hused
  apart i j hused := by cases hused
  positive handle op timeout h := by cases h

theorem Sound.effective (h : s.Sound) (hu : (s.slots i).used) (op : TimeoutOption) :
    s.slots.effectiveTimeoutLocked op.member kWalk i =
      some (((s.handles (s.holder i)).timeouts op).getD 30000) := by
  have ho := h.own i hu op
  have hn : op.member (s.slots i) ≠ 0 := by
    rw [ho]
    cases hs : (s.handles (s.holder i)).timeouts op with
    | none => simp
    | some t => exact h.positive _ op t hs
  rw [kWalk, effectiveTimeoutLocked, if_pos hn, ho]

end Timeouts

/-- **Along every run a live handle, a request above all, has the timeout that is due to it
exactly if that was set on the handle itself, or if its connection and its session give it the
default.** -/
theorem timeouts_inherited_iff {s : Timeouts} (h : Runs Timeouts.step Free {} s) {i : ℕ}
    (hused : (s.slots i).used = true) (option : TimeoutOption) :
    s.slots.effectiveTimeoutLocked option.member kWalk i =
        some (s.due (s.holder i) option) ↔
      ((s.handles (s.holder i)).timeouts option).isSome ∨
        s.inherited (s.holder i) option = 30000 := by
  have hs : s.Sound := Runs.keeps (I := Timeouts.Sound)
    (fun _ _ _ ht _ he => ht.step he) h Timeouts.sound_start
  rw [hs.effective hused, Timeouts.due, some.injEq]
  cases (s.handles (s.holder i)).timeouts option with
  | none => simp [eq_comm]
  | some t => simp

/-- The connection gets a timeout before its request is opened. -/
def connectionTimeout : List TimeoutAction :=
  (openedRequest.take 2).map .call ++
    [.setOption ⟨handleValue 1, kInternetOptionSendTimeout, ⟨4096, [5000]⟩, 4⟩] ++
    (openedRequest.drop 2).map .call

/-- What the run of these actions leaves to the request in slot 2: whether it is one, what was set
on it, what is due to it, and what it is sent with. -/
theorem connectionTimeout_run : (runAll Timeouts.step {} connectionTimeout).map (fun s =>
      ((s.slots 2).used, (s.slots 2).kind, s.inherited (s.holder 2) .connect,
        s.due (s.holder 2) .send,
        s.slots.effectiveTimeoutLocked TimeoutOption.send.member kWalk 2)) =
    some (true, .request, 30000, 5000, some 30000) := by decide +kernel

/-- The request is sent with 30000 ms, and not with the 5000 ms of its connection. -/
theorem not_timeouts_inherited : ∃ s, Runs Timeouts.step Free {} s ∧ (s.slots 2).used = true ∧
    (s.slots 2).kind = .request ∧ s.due (s.holder 2) .send = 5000 ∧
    s.slots.effectiveTimeoutLocked TimeoutOption.send.member kWalk 2 =
      some 30000 := by
  obtain ⟨s, hr, ha⟩ := map_eq_some_iff.mp connectionTimeout_run
  simp only [Prod.mk.injEq] at ha
  exact ⟨s, Runs.of_runAll hr, ha.1, ha.2.1, ha.2.2.2.1, ha.2.2.2.2⟩

/-- Its time to connect is the default all the way. -/
theorem timeouts_inherited_connect : ∃ s, Runs Timeouts.step Free {} s ∧
    s.slots.effectiveTimeoutLocked TimeoutOption.connect.member kWalk 2 =
      some (s.due (s.holder 2) .connect) := by
  obtain ⟨s, hr, ha⟩ := map_eq_some_iff.mp connectionTimeout_run
  simp only [Prod.mk.injEq] at ha
  exact ⟨s, Runs.of_runAll hr, (timeouts_inherited_iff (Runs.of_runAll hr) ha.1 .connect).mpr
    (.inr ha.2.2.1)⟩

end TradutorLinux.WinInet
