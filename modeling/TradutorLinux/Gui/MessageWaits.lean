import TradutorLinux.Gui.PeekAgrees

/-!
# Waiting for messages

`MsgWaitForMultipleObjects` tells that there is something to do from the handles, from the
queues of the windows and from the request to quit.  `PeekMessage` has other sources.

## Main definitions

* `MessageWait` — the handles and the state; `MessageWait.result` — what the call returns.
* `MessageWait.Exact` — what it is to return.
* `Elsewhere` — `PeekMessage` finds a message where the call does not look.

## Main results

* `messageWait_exact_iff`
-/

namespace TradutorLinux

open List MessageState

variable {κ : Type}

/-- What a wait returns: `WAIT_OBJECT_0` with an index, `WAIT_TIMEOUT` or `WAIT_FAILED`. -/
inductive WaitResult
  | object (i : ℕ)
  | timeout
  | failed
deriving DecidableEq

/-- A call with no time to wait, on the GUI thread and after `tl_WSAPumpAsyncSelect`; `signalled`
are the handles in their order. -/
structure MessageWait (κ : Type) where
  signalled : List Bool
  waitAll : Bool
  state : MessageState κ

/-- The loop over `g_windows`. -/
def MessageState.looked (s : MessageState κ) : Bool :=
  (finRange 512).any fun i =>
    s.used i && ((s.slots i).pending.isSome || !(s.slots i).queuedMessages.isEmpty)

namespace MessageWait

variable (b : GuiBackend κ) (now : ℕ) (w : MessageWait κ)

/-- `tl_MsgWaitForMultipleObjectsEx`; `tl_MsgWaitForMultipleObjects` does not use `wait_all`. -/
def result : WaitResult :=
  if 64 < w.signalled.length then .failed
  else match w.signalled.findIdx? id with
    | some i => .object i
    | none =>
      if w.state.looked = true then .object w.signalled.length
      else if w.state.quitRequested = true then .object w.signalled.length
      else .timeout

/-- There is a message or a request to quit. -/
def Available : Prop :=
  (b.peekMessage false now .null w.state).2.isSome = true ∨ w.state.quitRequested = true

instance : Decidable (w.Available b now) := inferInstanceAs (Decidable (_ ∨ _))

/-- The first handle that is signalled, else a message, else nothing; and all of them. -/
structure Exact : Prop where
  any : w.waitAll = false → w.result = match w.signalled.findIdx? id with
    | some i => .object i
    | none => if w.Available b now then .object w.signalled.length else .timeout
  all : w.waitAll = true → ∀ i < w.signalled.length, w.result = .object i →
    ∀ h ∈ w.signalled, h = true

end MessageWait

/-- The sources that only `PeekMessage` has: messages of other threads, messages that it has left,
events of the native windows, timers and the painting. -/
def Elsewhere (b : GuiBackend κ) (now : ℕ) (s : MessageState κ) : Prop :=
  (∃ m ∈ s.crossThread, s.used m.window = true)
    ∨ (∃ i, s.used i = true ∧ (s.pendingNative i).isSome = true)
    ∨ (b.nativeLoop .null b.translateNativeWindowEvent (finRange 512)
        (s.withoutGone .null)).2.isSome = true
    ∨ (∃ i, s.used i = true ∧ ((s.slots i).timers.due now).isSome = true)
    ∨ ∃ i, s.used i = true ∧ (s.slots i).renderPending = true

/-- The condition. -/
def MessageWait.Covered (b : GuiBackend κ) (now : ℕ) (w : MessageWait κ) : Prop :=
  if w.waitAll = true then 64 < w.signalled.length ∨ true ∉ w.signalled ∨ false ∉ w.signalled
  else w.signalled.length ≤ 64 ∧ (true ∈ w.signalled ∨ w.state.looked = true
    ∨ w.state.quitRequested = true ∨ ¬Elsewhere b now w.state)

variable {b : GuiBackend κ} {now : ℕ} {s : MessageState κ} {w : MessageWait κ}

theorem looked_iff : s.looked ↔ ∃ i, s.used i ∧
    ((s.slots i).pending.isSome ∨ (s.slots i).queuedMessages ≠ []) := by
  simp [looked]

theorem crossThread_iff (s : MessageState κ) :
    ((s.withoutGone .null).crossThread.find? fun m => WindowHandle.null.matches m.window).isSome
      ↔ ∃ m ∈ s.crossThread, s.used m.window := by
  show ((s.discardGone .null s.crossThread).find? _).isSome ↔ _
  rw [find_discardGone]
  simp [WindowHandle.matches]

theorem timerOrPaint_iff : (s.timerOrPaint now .null).isSome ↔
    (∃ i, s.used i ∧ ((s.slots i).timers.due now).isSome)
      ∨ ∃ i, s.used i ∧ (s.slots i).renderPending := by
  rw [timerOrPaint, Option.isSome_or, Bool.or_eq_true]
  simp only [← Option.ne_none_iff_isSome, ne_eq, firstSlot_eq_none]
  simp [WindowHandle.matches, Option.ne_none_iff_isSome]

theorem peekMessage_isSome_iff : (b.peekMessage false now .null s).2.isSome
    ↔ s.looked ∨ Elsewhere b now s := by
  have hc := crossThread_iff s
  rw [looked_iff, Elsewhere, ← hc]
  unfold GuiBackend.peekMessage peekWaiting
  dsimp only [takeCrossThread]
  cases hf : (s.withoutGone .null).crossThread.find?
      fun m => WindowHandle.null.matches m.window with
  | some m => simp
  | none =>
    dsimp only
    have hp : ∀ i, (s.withoutGone .null).peekFromSlot false now i = none
        ↔ ¬(s.withoutGone .null).WaitsAt i := fun i => peekFromSlot_eq_none
    rcases firstSlot_ready .null hp with
      ⟨i, ⟨s', m⟩, ⟨hu, -, hw⟩, -, -, hs⟩ | ⟨hno, hs⟩
    · rw [hs]
      refine iff_of_true rfl ?_
      rcases hw with h | h
      · exact .inr (.inr (.inl ⟨i, hu, h⟩))
      · exact .inl ⟨i, hu, h⟩
    · rw [hs]
      dsimp only
      cases ha : b.nativeLoop .null b.translateNativeWindowEvent (finRange 512)
          (s.withoutGone .null) with
      | mk t f =>
        cases f with
        | some f => simp
        | none =>
          have ht := nativeLoop_eq_none ha
          dsimp only
          rw [peekTimer_or_peekPaint]
          have hn : ∀ i, s.used i → ¬s.WaitsAt i := fun i hu h => hno i ⟨hu, rfl, h⟩
          have htp : (t.timerOrPaint now .null).isSome ↔
              (∃ i, s.used i ∧ ((s.slots i).timers.due now).isSome)
                ∨ ∃ i, s.used i ∧ (s.slots i).renderPending := by
            rw [ht]
            exact timerOrPaint_iff
          cases ho : t.timerOrPaint now .null with
          | some n => exact iff_of_true rfl (.inr (.inr (.inr (.inr (htp.1 (ho ▸ rfl))))))
          | none =>
            rw [ho] at htp
            refine iff_of_false Bool.false_ne_true ?_
            rintro (⟨i, hu, h⟩ | h | ⟨i, hu, h⟩ | h | h)
            · exact hn i hu (.inr h)
            · cases h
            · exact hn i hu (.inl h)
            · cases h
            · cases htp.2 h

theorem available_iff : w.Available b now
    ↔ (w.state.looked ∨ w.state.quitRequested) ∨ Elsewhere b now w.state := by
  rw [MessageWait.Available, peekMessage_isSome_iff, or_right_comm]

theorem findIdx?_none_iff {l : List Bool} : l.findIdx? id = none ↔ true ∉ l := by
  simp [findIdx?_eq_none_iff]

theorem any_iff (b : GuiBackend κ) (now : ℕ) (w : MessageWait κ) :
    (w.result = match w.signalled.findIdx? id with
      | some i => .object i
      | none => if w.Available b now then .object w.signalled.length else .timeout)
      ↔ w.signalled.length ≤ 64 ∧ (true ∈ w.signalled ∨ w.state.looked
        ∨ w.state.quitRequested ∨ ¬Elsewhere b now w.state) := by
  rw [MessageWait.result]
  by_cases hl : 64 < w.signalled.length
  · rw [if_pos hl]
    refine iff_of_false ?_ fun h => absurd h.1 (Nat.not_le.2 hl)
    split
    · simp
    · split_ifs <;> simp
  rw [if_neg hl]
  cases hf : w.signalled.findIdx? id with
  | some i =>
    have hs : true ∈ w.signalled := by
      by_contra h
      cases (findIdx?_none_iff.2 h).symm.trans hf
    simp [hs, Nat.le_of_not_lt hl]
  | none =>
    have hs := findIdx?_none_iff.1 hf
    have ha : w.Available b now ↔ _ := available_iff
    simp only [hs, false_or, Nat.le_of_not_lt hl, true_and]
    by_cases hk : w.state.looked
    · simp [ha.2 (.inl (.inl hk)), hk]
    · by_cases hq : w.state.quitRequested
      · simp [ha.2 (.inl (.inr hq)), hq]
      · have he : w.Available b now ↔ Elsewhere b now w.state := by simp [ha, hk, hq]
        by_cases h : w.Available b now <;> simp [hk, hq, h, ← he]

theorem all_iff (w : MessageWait κ) :
    (∀ i < w.signalled.length, w.result = .object i → ∀ h ∈ w.signalled, h)
      ↔ 64 < w.signalled.length ∨ true ∉ w.signalled ∨ false ∉ w.signalled := by
  have ha : (∀ h ∈ w.signalled, h) ↔ false ∉ w.signalled := by simp
  rw [MessageWait.result, ha]
  by_cases hl : 64 < w.signalled.length
  · simp [hl]
  cases hf : w.signalled.findIdx? id with
  | some i =>
    have hs : true ∈ w.signalled := by
      by_contra h
      cases (findIdx?_none_iff.2 h).symm.trans hf
    have hi := (findIdx?_eq_some_iff_findIdx_eq.1 hf).1
    simp only [hl, hs, not_true_eq_false, false_or]
    exact ⟨fun h => h i hi rfl, fun h _ _ _ => h⟩
  | none =>
    have hs := findIdx?_none_iff.1 hf
    simp only [hs, not_false_eq_true, true_or, or_true, iff_true]
    intro i hi h
    exfalso
    revert h
    split_ifs <;> simp [hi.ne']

/-- **The call is right unless a message is elsewhere only**, or some handles but not all are
signalled when it is to wait for all. -/
theorem messageWait_exact_iff (b : GuiBackend κ) (now : ℕ) (w : MessageWait κ) :
    w.Exact b now ↔ w.Covered b now := by
  rw [MessageWait.Covered]
  constructor
  · intro h
    split_ifs with hw
    · exact (all_iff w).1 (h.all hw)
    · exact (any_iff b now w).1 (h.any (Bool.eq_false_of_not_eq_true hw))
  · intro h
    refine ⟨fun hw => (any_iff b now w).2 ?_, fun hw => (all_iff w).2 ?_⟩
    · simpa [hw] using h
    · simpa [hw] using h

/-- **A message of another thread does not end the wait.** -/
theorem not_messageWait_exact :
    ¬∀ (b : GuiBackend Unit) (now : ℕ) (w : MessageWait Unit), w.Exact b now := by
  intro h
  let b : GuiBackend Unit :=
    { nextWindowEvent := fun _ r => ({}, r)
      renderControls := fun _ s => s
      handleControlMouse := fun _ _ s => s
      handleControlKey := fun _ _ s => s }
  let s : MessageState Unit :=
    { windows := { slots := fun _ => { used := true } }
      rest := ()
      crossThread := [⟨0, 1, 0, 0, 0⟩] }
  have := ((h b 0 ⟨[], false, s⟩).any rfl)
  revert this
  decide +kernel

end TradutorLinux
