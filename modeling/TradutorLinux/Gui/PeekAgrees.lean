import TradutorLinux.Gui.NativeMessages
import TradutorLinux.Gui.Retrieving

/-!
# Peeking and getting

`PeekMessage` with `PM_REMOVE` and `GetMessage` are two copies of one search, with
the queue of the other threads in another place.  They agree on every state that
asks for none of what only one of them does.

## Main definitions

* `PeekAgrees` — the two agree on a state, and a message that was left comes once.
* `PeekCareful`

## Main results

* `peekAgrees_iff`
-/

namespace TradutorLinux

open Function Option

variable {κ : Type} {b : GuiBackend κ} {s s' t : MessageState κ} {window : WindowHandle}
  {i j : WindowIndex} {now : ℕ}

/-! ### What is to be true, and the condition -/

/-- When `GetMessage` has a message, `PeekMessage` has the same and leaves the same state.  A
message that `PeekMessage` leaves is what both have next, and then the state is as if it had been
removed at once. -/
structure PeekAgrees (b : GuiBackend κ) (now : ℕ) (window : WindowHandle) (s : MessageState κ) :
    Prop where
  returns : ∀ s' message, b.getMessage now window s = (s', some message) →
    b.peekMessage true now window s = (s', some message)
  leaves : ∀ s' message, b.peekMessage false now window s = (s', some message) →
    b.peekMessage true now window s' =
      ((b.peekMessage true now window s).1, some message) ∧
    b.getMessage now window s' = ((b.peekMessage true now window s).1, some message)

/-- The condition.  The guest has not asked to quit; no message of another thread is there for the
filter while a message waits at a window; the first thing that waits is no character without the
handle of its window; and if a native window is next, its message is no painting that is pending
as well, the window is still there when its controls are done with the event, and they leave no
message at a window before it. -/
structure PeekCareful (b : GuiBackend κ) (window : WindowHandle) (s : MessageState κ) : Prop where
  quit : s.quitRequested = false
  crossThread : ∀ i, s.Ready window i →
    ∀ message ∈ s.crossThread, window.matches message.window = false
  character : ∀ i, s.Ready window i → (∀ j < i, ¬ s.Ready window j) → s.pendingNative i = none →
    ∀ character, (s.slots i).pending = some character → character.hwnd = some i
  native : (∀ i, ¬ s.Ready window i) → (∀ message ∈ s.crossThread,
      window.matches message.window = true → s.used message.window = false) →
    ∀ t i message, b.nativeLoop window b.translateNativeWindowEvent (List.finRange 512)
        (s.withoutGone window) = (t, some (i, message)) →
      (message.message = kWmPaint → (t.slots i).renderPending = false) ∧ t.used i = true ∧
        ∀ j < i, ¬ t.Ready window j

/-! ### The translations -/

/-- **The two translations are the same.** -/
theorem getNativeMessage_eq (s : MessageState κ) (i : WindowIndex) (event : WindowEvent) :
    b.getNativeMessage s i event = b.translateNativeWindowEvent s i event := by
  unfold GuiBackend.getNativeMessage GuiBackend.translateNativeWindowEvent
  cases event.type with
  | press =>
    dsimp only
    split <;> rfl
  | release =>
    dsimp only
    split <;> rfl
  | mouseMove =>
    dsimp only
    split <;> rfl
  | rightPress =>
    dsimp only
    split <;> rfl
  | _ => rfl

theorem translate_eq_none {ev : WindowEvent}
    (h : b.translateNativeWindowEvent s i ev = (s', none)) : s' = s := by
  unfold GuiBackend.translateNativeWindowEvent at h
  cases ht : ev.type <;> rw [ht] at h <;> dsimp only at h
  case idle =>
    cases h
    rfl
  case rightRelease =>
    split at h
    · cases h
      rfl
    · cases h
  case rightPress => split at h <;> cases h
  case press => split at h <;> cases h
  case release => split at h <;> cases h
  all_goals cases h

/-- The sources of messages that the controls do not see. -/
structure SameSources (s s' : MessageState κ) : Prop where
  pendingNative : s'.pendingNative = s.pendingNative
  crossThread : s'.crossThread = s.crossThread
  quitRequested : s'.quitRequested = s.quitRequested

theorem sameSources_updateKeyboardState (ev : WindowEvent) :
    SameSources s (s.updateKeyboardState ev) := by
  have hk : ∀ (s : MessageState κ) (k : ℕ) (d : Bool), SameSources s (s.updateKey k d) := by
    intro s k d
    unfold MessageState.updateKey
    split <;> exact ⟨rfl, rfl, rfl⟩
  have ht : ∀ {s₁ s₂ s₃ : MessageState κ}, SameSources s₁ s₂ → SameSources s₂ s₃ →
      SameSources s₁ s₃ := fun h h' => ⟨h'.pendingNative.trans h.pendingNative,
    h'.crossThread.trans h.crossThread, h'.quitRequested.trans h.quitRequested⟩
  have hm := ht (ht (hk s 0x10 (ev.modifiers &&& 1 ≠ 0))
    (hk _ 0x11 (ev.modifiers &&& 2 ≠ 0))) (hk _ 0x12 (ev.modifiers &&& 4 ≠ 0))
  dsimp only [MessageState.updateKeyboardState]
  split
  · exact ht hm (hk _ _ _)
  · split
    · exact ht hm (hk _ _ _)
    · exact hm

theorem sameSources_translate (s : MessageState κ) (i : WindowIndex) (ev : WindowEvent) :
    SameSources s (b.translateNativeWindowEvent s i ev).1 := by
  have hk := sameSources_updateKeyboardState (s := s) ev
  unfold GuiBackend.translateNativeWindowEvent
  cases ev.type with
  | resize =>
    show SameSources s (s.recordWindowResize i ev)
    unfold MessageState.recordWindowResize
    split <;> exact ⟨rfl, rfl, rfl⟩
  | press =>
    dsimp only
    split <;> exact ⟨rfl, rfl, rfl⟩
  | release =>
    dsimp only
    split <;> exact ⟨rfl, rfl, rfl⟩
  | rightPress =>
    dsimp only
    split <;> exact ⟨rfl, rfl, rfl⟩
  | rightRelease =>
    dsimp only
    split <;> exact ⟨rfl, rfl, rfl⟩
  | keyDown =>
    dsimp only
    split
    · exact { hk with }
    · exact { hk with }
  | keyUp => exact hk
  | _ => exact ⟨rfl, rfl, rfl⟩

/-! ### The loop over the native windows -/

theorem nativeLoop_eq_some {l : List WindowIndex} {message : GuestMsg}
    (h : b.nativeLoop window b.translateNativeWindowEvent l s = (t, some (i, message))) :
    s.used i ∧ window.matches i ∧ SameSources s t := by
  induction l generalizing s with
  | nil => cases h
  | cons ix l ih =>
    unfold GuiBackend.nativeLoop at h
    split at h
    · next hi =>
      dsimp only at h
      cases he : b.translateNativeWindowEvent
          { s with rest := (b.nextWindowEvent ix s.rest).2 } ix
          (b.nextWindowEvent ix s.rest).1 with
      | mk s₁ f =>
        rw [he] at h
        cases f with
        | some m' =>
          cases h
          have hs := sameSources_translate (b := b)
            { s with rest := (b.nextWindowEvent i s.rest).2 } i (b.nextWindowEvent i s.rest).1
          rw [he] at hs
          exact ⟨hi.1, hi.2.2, hs.pendingNative, hs.crossThread, hs.quitRequested⟩
        | none =>
          rw [translate_eq_none he] at h
          obtain ⟨hu, hm, hs⟩ := ih h
          exact ⟨hu, hm, hs.pendingNative, hs.crossThread, hs.quitRequested⟩
    · exact ih h

theorem nativeLoop_eq_none {l : List WindowIndex}
    (h : b.nativeLoop window b.translateNativeWindowEvent l s = (t, none)) :
    t = { s with rest := t.rest } := by
  induction l generalizing s with
  | nil =>
    cases h
    rfl
  | cons ix l ih =>
    unfold GuiBackend.nativeLoop at h
    split at h
    · dsimp only at h
      cases he : b.translateNativeWindowEvent
          { s with rest := (b.nextWindowEvent ix s.rest).2 } ix
          (b.nextWindowEvent ix s.rest).1 with
      | mk s₁ f =>
        rw [he] at h
        cases f with
        | some message => cases h
        | none =>
          rw [translate_eq_none he] at h
          exact ih (s := { s with rest := (b.nextWindowEvent ix s.rest).2 }) h
    · exact ih h

/-! ### Messages that are left -/

theorem leavePending_true (now : ℕ) (i : WindowIndex) (p : PendingNativeMessage) :
    (t.leavePending true now i p).1 =
      (t.leavePending false now i p).1.resetPendingNative now i := rfl

theorem leavePending_true_eq (t : MessageState κ) (now : ℕ) (i : WindowIndex)
    (p : PendingNativeMessage) : (t.leavePending true now i p).1 = { t.setSlot i { t.slots i with
          timers := if p.isTimer then
            (t.slots i).timers.restart now p.message.wparam else (t.slots i).timers
          renderPending := if p.isPaint then false else (t.slots i).renderPending } with
        pendingNative := update t.pendingNative i none } := by
  dsimp only [MessageState.leavePending, MessageState.resetPendingNative]
  rw [if_pos rfl, update_self]
  rw [update_idem]
  rfl

theorem leavePending_of_none (now : ℕ) (p : PendingNativeMessage) (h : t.pendingNative i = none) :
    t.leavePending true now i p = (t.setSlot i { t.slots i with
          timers := if p.isTimer then
            (t.slots i).timers.restart now p.message.wparam else (t.slots i).timers
          renderPending := if p.isPaint then false else (t.slots i).renderPending },
        p.message) := by
  have hu : update t.pendingNative i none = t.pendingNative := by rw [← h, update_eq_self]
  refine Prod.ext ?_ rfl
  rw [leavePending_true_eq, hu]
  rfl

theorem ready_leavePending {p : PendingNativeMessage} (hj : j ≠ i) :
    (t.leavePending false now i p).1.Ready window j ↔ t.Ready window j := by
  have hn : (t.leavePending false now i p).1.pendingNative j = t.pendingNative j :=
    update_of_ne hj _ _
  unfold MessageState.Ready MessageState.WaitsAt
  rw [hn]
  rfl

/-- **A message that is left is what both functions have next**, if no slot before is ready. -/
theorem next_leavePending (b : GuiBackend κ) (now : ℕ) (pending : PendingNativeMessage)
    (hquit : t.quitRequested = false)
    (hc : ∀ message ∈ t.crossThread, window.matches message.window = false)
    (hu : t.used i) (ha : window.matches i) (hfi : ∀ j < i, ¬ t.Ready window j) :
    b.peekMessage true now window (t.leavePending false now i pending).1 =
        ((t.leavePending true now i pending).1, some ⟨pending.message, none⟩) ∧
      b.getMessage now window (t.leavePending false now i pending).1 =
        ((t.leavePending true now i pending).1, some ⟨pending.message, none⟩) := by
  rw [leavePending_true]
  have hn : (t.leavePending false now i pending).1.pendingNative i = some pending :=
    update_self _ _ _
  have hb : ∀ j < i, ¬ (t.leavePending false now i pending).1.Ready window j := by
    intro j hj
    rw [ready_leavePending (ne_of_lt hj)]
    exact hfi j hj
  have hu : (t.leavePending false now i pending).1.used i := hu
  have hc : ∀ message ∈ (t.leavePending false now i pending).1.crossThread,
      window.matches message.window = false := hc
  have hquit : (t.leavePending false now i pending).1.quitRequested = false := hquit
  generalize (t.leavePending false now i pending).1 = u at *
  have hp : u.firstSlot window (u.peekFromSlot true now) =
      some (u.resetPendingNative now i, ⟨pending.message, none⟩) := by
    refine firstSlot_of_first hu ha ?_ ?_
    · dsimp only [MessageState.peekFromSlot]
      rw [hn]
      rfl
    · intro j hj hju hm
      exact peekFromSlot_eq_none.2 fun hw => hb j hj ⟨hju, hm, hw⟩
  have hg : u.firstSlot window (u.getFromSlot now) =
      some (u.resetPendingNative now i, ⟨pending.message, none⟩) := by
    refine firstSlot_of_first hu ha ?_ ?_
    · dsimp only [MessageState.getFromSlot]
      rw [hn]
    · intro j hj hju hm
      exact getFromSlot_eq_none.2 fun hw => hb j hj ⟨hju, hm, hw⟩
  constructor
  · unfold GuiBackend.peekMessage MessageState.peekWaiting
    rw [takeCrossThread_of_not_matches hc]
    dsimp only
    rw [hp]
  · unfold GuiBackend.getMessage MessageState.getWaiting
    rw [hquit, if_neg Bool.false_ne_true, hg]

/-! ### What `PeekMessage` keeps -/

theorem firstSlot_map {α β : Type} (s : MessageState κ) (f : WindowIndex → Option α) (g : α → β) :
    (s.firstSlot window fun i => (f i).map g) = (s.firstSlot window f).map g := by
  unfold MessageState.firstSlot
  rw [List.map_findSome?]
  congr 1
  funext i
  rw [comp_apply]
  split <;> rfl

def MessageState.timerOrPaint (s : MessageState κ) (now : ℕ) (window : WindowHandle) :
    Option (WindowIndex × PendingNativeMessage) :=
  (s.firstSlot window fun i => ((s.slots i).timers.due now).map fun timer =>
      (i, { message := { hwnd := some i, message := kWmTimer, wparam := timer.id },
            isTimer := true })).or
    (s.firstSlot window fun i =>
      if (s.slots i).renderPending = true then
        some (i, { message := { hwnd := some i, message := kWmPaint }, isPaint := true })
      else none)

theorem timerOrPaint_eq_some {p : PendingNativeMessage}
    (h : s.timerOrPaint now window = some (i, p)) : s.used i ∧ window.matches i := by
  rcases or_eq_some_iff.1 h with h | ⟨-, h⟩
  · obtain ⟨j, hu, hm, hf, -⟩ := firstSlot_eq_some h
    obtain ⟨ti, -, heq⟩ := map_eq_some_iff.1 hf
    cases heq
    exact ⟨hu, hm⟩
  · obtain ⟨j, hu, hm, hf, -⟩ := firstSlot_eq_some h
    split at hf
    · cases hf
      exact ⟨hu, hm⟩
    · cases hf

theorem peekTimer_or_peekPaint (s : MessageState κ) (r : Bool) (now : ℕ) (window : WindowHandle) :
    (s.peekTimer r now window).or (s.peekPaint r now window) =
      (s.timerOrPaint now window).map fun n => s.leavePending r now n.1 n.2 := by
  unfold MessageState.timerOrPaint MessageState.peekTimer MessageState.peekPaint
  rw [map_or, ← firstSlot_map, ← firstSlot_map]
  refine congrArg₂ Option.or (firstSlot_congr fun i _ _ => ?_) (firstSlot_congr fun i _ _ => ?_)
  · rw [map_map]
    rfl
  · split <;> rfl

theorem fireTimer_eq_restartTimer {timers : List GuestTimer} {ti : GuestTimer}
    (hd : (timers.map GuestTimer.id).Nodup)
    (h : (timers.find? fun ti => ti.deadline ≤ now) = some ti) :
    fireTimer now timers = restartTimer now ti.id timers := by
  induction timers with
  | nil => cases h
  | cons f timers ih =>
    rw [List.map_cons, List.nodup_cons] at hd
    rw [List.find?_cons] at h
    unfold fireTimer restartTimer
    cases hu : decide (f.deadline ≤ now) with
    | true =>
      rw [hu] at h
      cases h
      rw [if_pos (of_decide_eq_true hu), if_pos rfl]
    | false =>
      rw [hu] at h
      have hm : ti.id ∈ timers.map GuestTimer.id :=
        List.mem_map_of_mem (List.mem_of_find?_eq_some h)
      have hn : f.id ≠ ti.id := by
        intro heq
        rw [heq] at hd
        exact hd.1 hm
      rw [if_neg (of_decide_eq_false hu), if_neg hn, ih hd.2 h]

/-- **`GetMessage` takes the message of a timer or of the painting as if it had been left**, if
nothing else is left at a window. -/
theorem getTimer_or_getPaint
    (hn : ∀ i, s.used i → window.matches i → s.pendingNative i = none) :
    (s.getTimer now window).or (s.getPaint window) =
      (s.timerOrPaint now window).map fun n => s.leavePending true now n.1 n.2 := by
  rw [← peekTimer_or_peekPaint]
  refine congrArg₂ Option.or (firstSlot_congr ?_) (firstSlot_congr ?_)
  · intro i hu hm
    dsimp only
    cases hd : (s.slots i).timers.due now with
    | none => rfl
    | some ti =>
      have hf : (s.slots i).timers.fire now = (s.slots i).timers.restart now ti.id := by
        unfold GuestTimers.fire GuestTimers.restart
        congr 1
        exact fireTimer_eq_restartTimer (s.slots i).timers.distinct hd
      rw [map_some, map_some, leavePending_of_none _ _ (hn i hu hm), hf]
      rfl
  · intro i hu hm
    rw [leavePending_of_none _ _ (hn i hu hm)]
    dsimp only
    split <;> rfl

/-- What `PeekMessage` comes to, one source after the other. -/
inductive PeekOutcome (b : GuiBackend κ) (now : ℕ) (window : WindowHandle) (s : MessageState κ) :
    MessageState κ × Option QueuedMessage → Prop
  | crossThread {s' : MessageState κ} {message : QueuedMessage}
      (hcross : s.takeCrossThread true window = (s', some message)) :
      PeekOutcome b now window s (s', some message)
  | slot {s₁ s' : MessageState κ} {message : QueuedMessage} {i : WindowIndex}
      (hcross : s.takeCrossThread true window = (s₁, none)) (hready : s₁.Ready window i)
      (hfirst : ∀ j < i, ¬ s₁.Ready window j) (hslot : FromSlot s₁ i s' message) :
      PeekOutcome b now window s (s', some message)
  | left {s₁ t : MessageState κ} {i : WindowIndex} {pending : PendingNativeMessage}
      (hcross : s.takeCrossThread true window = (s₁, none)) (hnone : ∀ j, ¬ s₁.Ready window j)
      (hsame : SameSources s₁ t) (hused : s₁.used i = true) :
      PeekOutcome b now window s
        ((t.leavePending true now i pending).1, some ⟨pending.message, none⟩)
  | nothing {s₁ t : MessageState κ} (hcross : s.takeCrossThread true window = (s₁, none))
      (hnone : ∀ j, ¬ s₁.Ready window j) (hsame : SameSources s₁ t) :
      PeekOutcome b now window s (t, none)

theorem peekOutcome (b : GuiBackend κ) (now : ℕ) (window : WindowHandle) (s : MessageState κ) :
    PeekOutcome b now window s (b.peekMessage true now window s) := by
  unfold GuiBackend.peekMessage MessageState.peekWaiting
  cases hc : s.takeCrossThread true window with
  | mk s₁ f =>
    cases f with
    | some message => exact .crossThread hc
    | none =>
      dsimp only
      have hf : ∀ i, s₁.peekFromSlot true now i = none ↔ ¬ s₁.WaitsAt i := fun i =>
        peekFromSlot_eq_none
      rcases firstSlot_ready window hf with
        ⟨i, ⟨s', message⟩, hrd, hfi, hf, hl⟩ | ⟨hno, hl⟩
      · rw [hl]
        exact .slot hc hrd hfi (fromSlot_peekFromSlot hf)
      · rw [hl]
        dsimp only
        cases ha : b.nativeLoop window b.translateNativeWindowEvent (List.finRange 512) s₁ with
        | mk t f =>
          cases f with
          | some f =>
            obtain ⟨hu, -, hs⟩ := nativeLoop_eq_some ha
            exact .left hc hno hs hu
          | none =>
            have ht := nativeLoop_eq_none ha
            have hs : SameSources s₁ t := by
              rw [ht]
              exact ⟨rfl, rfl, rfl⟩
            dsimp only
            rw [peekTimer_or_peekPaint]
            cases hn : t.timerOrPaint now window with
            | none => exact .nothing hc hno hs
            | some n =>
              have hu := (timerOrPaint_eq_some hn).1
              rw [ht] at hu
              exact .left hc hno hs hu

/-- `PeekMessage` does not look at the request to quit, and of the messages of other threads it
takes what the loop over them takes. -/
theorem keeps_peekMessage (b : GuiBackend κ) (now : ℕ) (window : WindowHandle)
    (s : MessageState κ) :
    (b.peekMessage true now window s).1.quitRequested = s.quitRequested ∧
      (b.peekMessage true now window s).1.crossThread =
        (s.takeCrossThread true window).1.crossThread := by
  have hquit : (s.takeCrossThread true window).1.quitRequested = s.quitRequested := by
    dsimp only [MessageState.takeCrossThread]
    split <;> rfl
  generalize hr : b.peekMessage true now window s = r
  have ho := hr ▸ peekOutcome b now window s
  cases ho with
  | crossThread hc =>
    rw [hc] at hquit ⊢
    exact ⟨hquit, rfl⟩
  | slot hc _ _ hl =>
    rw [hc] at hquit ⊢
    exact ⟨hl.quitRequested.trans hquit, hl.crossThread⟩
  | left hc _ hs _ =>
    rw [hc] at hquit ⊢
    rw [leavePending_true_eq]
    exact ⟨hs.quitRequested.trans hquit, hs.crossThread⟩
  | nothing hc _ hs =>
    rw [hc] at hquit ⊢
    exact ⟨hs.quitRequested.trans hquit, hs.crossThread⟩

theorem pendingNative_peekMessage (b : GuiBackend κ) (now : ℕ)
    (hc : ∀ message ∈ s.crossThread, window.matches message.window = false)
    (h : s.used i → ∃ j < i, s.Ready window j) :
    (b.peekMessage true now window s).1.pendingNative i = s.pendingNative i := by
  have ht : s.takeCrossThread true window = (s, none) := takeCrossThread_of_not_matches hc
  generalize hr : b.peekMessage true now window s = r
  have hou := hr ▸ peekOutcome b now window s
  cases hou with
  | crossThread ho => cases ht.symm.trans ho
  | @slot _ _ _ k hno hrd hfi hl =>
    cases ht.symm.trans hno
    have hn : i ≠ k := by
      rintro rfl
      obtain ⟨j, hj, he⟩ := h hrd.1
      exact hfi j hj he
    exact (hl.other i hn).2
  | @left _ t k pending hno hrd hs hu =>
    cases ht.symm.trans hno
    have hn : i ≠ k := by
      rintro rfl
      obtain ⟨j, -, he⟩ := h hu
      exact hrd j he
    rw [leavePending_true_eq]
    show update t.pendingNative k none i = s.pendingNative i
    rw [update_of_ne hn, hs.pendingNative]
  | nothing hno _ hs =>
    cases ht.symm.trans hno
    rw [hs.pendingNative]

theorem stays_leavePending (b : GuiBackend κ) (now : ℕ) (pending : PendingNativeMessage)
    (hc : ∀ message ∈ t.crossThread, window.matches message.window = false)
    (h : t.used i → ∃ j < i, t.Ready window j) :
    (b.peekMessage true now window (t.leavePending false now i pending).1).1.pendingNative i =
      some pending := by
  have hl : (t.leavePending false now i pending).1.pendingNative i = some pending :=
    update_self _ _ _
  have hrd : (t.leavePending false now i pending).1.used i →
      ∃ j < i, (t.leavePending false now i pending).1.Ready window j := by
    intro hu
    obtain ⟨j, hj, hrd⟩ := h hu
    exact ⟨j, hj, (ready_leavePending (ne_of_lt hj)).2 hrd⟩
  have hc : ∀ message ∈ (t.leavePending false now i pending).1.crossThread,
      window.matches message.window = false := hc
  rw [pendingNative_peekMessage b now hc hrd, hl]

/-! ### Nothing is asked but to quit -/

theorem not_agrees_of_quit (h : s.quitRequested) : ¬ PeekAgrees b now window s := by
  intro ha
  have hg : b.getMessage now window s = (s.deliverQuit.1, some s.deliverQuit.2) := by
    unfold GuiBackend.getMessage MessageState.getWaiting
    rw [if_pos h]
  have hk := (keeps_peekMessage b now window s).1
  rw [ha.returns _ _ hg, h] at hk
  cases hk

/-! ### A message waits at a slot -/

section

variable (hquit : s.quitRequested = false) (hrd : s.Ready window i)
  (hfi : ∀ j < i, ¬ s.Ready window j)

include hrd hfi

theorem firstSlot_getFromSlot : s.firstSlot window (s.getFromSlot now) = s.getFromSlot now i := by
  cases hf : s.getFromSlot now i with
  | none => exact absurd hrd.2.2 (getFromSlot_eq_none.1 hf)
  | some f =>
    refine firstSlot_of_first hrd.1 hrd.2.1 hf fun j hj hu hm => ?_
    exact getFromSlot_eq_none.2 fun hw => hfi j hj ⟨hu, hm, hw⟩

theorem firstSlot_peekFromSlot (r : Bool) :
    s.firstSlot window (s.peekFromSlot r now) = s.peekFromSlot r now i := by
  cases hf : s.peekFromSlot r now i with
  | none => exact absurd hrd.2.2 (peekFromSlot_eq_none.1 hf)
  | some f =>
    refine firstSlot_of_first hrd.1 hrd.2.1 hf fun j hj hu hm => ?_
    exact peekFromSlot_eq_none.2 fun hw => hfi j hj ⟨hu, hm, hw⟩

include hquit

theorem getMessage_of_ready {message : QueuedMessage}
    (hg : s.getFromSlot now i = some (s', message)) :
    b.getMessage now window s = (s', some message) := by
  unfold GuiBackend.getMessage MessageState.getWaiting
  rw [hquit, if_neg Bool.false_ne_true, firstSlot_getFromSlot hrd hfi, hg]

omit hquit in
theorem peekMessage_of_ready {r : Bool} {message : QueuedMessage}
    (hc : ∀ message ∈ s.crossThread, window.matches message.window = false)
    (hp : s.peekFromSlot r now i = some (s', message)) :
    b.peekMessage r now window s = (s', some message) := by
  unfold GuiBackend.peekMessage MessageState.peekWaiting
  rw [takeCrossThread_of_not_matches hc]
  dsimp only
  rw [firstSlot_peekFromSlot hrd hfi, hp]

theorem not_agrees_of_crossThread {message : CrossThreadWindowMessage}
    (he : message ∈ s.crossThread) (hm : window.matches message.window) :
    ¬ PeekAgrees b now window s := by
  intro ha
  cases hg : s.getFromSlot now i with
  | none => exact getFromSlot_eq_none.1 hg hrd.2.2
  | some f =>
    have hp := ha.returns _ _ (getMessage_of_ready hquit hrd hfi hg)
    have hk := (keeps_peekMessage b now window s).2
    have hl := length_takeCrossThread he hm
    rw [hp] at hk
    rw [← hk, (fromSlot_getFromSlot hg).crossThread] at hl
    exact lt_irrefl _ hl

theorem agrees_iff_of_ready
    (hc : ∀ message ∈ s.crossThread, window.matches message.window = false) :
    PeekAgrees b now window s ↔ (s.pendingNative i = none →
      ∀ character, (s.slots i).pending = some character → character.hwnd = some i) := by
  constructor
  · intro ha hn character he
    have hg : s.getFromSlot now i = some (s.setSlot i { s.slots i with pending := none },
        ⟨{ character with hwnd := some i }, none⟩) := by
      dsimp only [MessageState.getFromSlot]
      rw [hn, he]
    have hp : s.peekFromSlot true now i = some (s.setSlot i { s.slots i with pending := none },
        ⟨character, none⟩) := by
      dsimp only [MessageState.peekFromSlot]
      rw [hn, he]
      rfl
    have hr := ha.returns _ _ (getMessage_of_ready hquit hrd hfi hg)
    rw [peekMessage_of_ready hrd hfi hc hp] at hr
    have hm := some.inj (congrArg Prod.snd hr)
    exact congrArg (fun q => q.msg.hwnd) hm
  · intro hh
    -- the two functions take the same from the slot
    have hs : s.peekFromSlot true now i = s.getFromSlot now i ∧
        (s.peekFromSlot false now i).map Prod.snd = (s.getFromSlot now i).map Prod.snd := by
      dsimp only [MessageState.peekFromSlot, MessageState.getFromSlot]
      cases hn : s.pendingNative i with
      | some p => exact ⟨rfl, rfl⟩
      | none =>
        cases he : (s.slots i).pending with
        | some character =>
          have hwnd := hh hn character he
          have heq : { character with hwnd := some i } = character := by rw [← hwnd]
          dsimp only
          rw [heq]
          exact ⟨rfl, rfl⟩
        | none => cases (s.slots i).queuedMessages <;> exact ⟨rfl, rfl⟩
    cases hg : s.getFromSlot now i with
    | none => exact absurd hrd.2.2 (getFromSlot_eq_none.1 hg)
    | some f =>
      rw [hg] at hs
      obtain ⟨hre, hk⟩ := hs
      have hgm := getMessage_of_ready (b := b) hquit hrd hfi hg
      have hpm := peekMessage_of_ready (b := b) hrd hfi hc hre
      obtain ⟨⟨s₁, m₁⟩, hp, hm⟩ := map_eq_some_iff.1 hk
      subst hm
      cases peekFromSlot_false hp
      constructor
      · intro s₂ m₂ ho
        cases hgm.symm.trans ho
        exact hpm
      · intro s₂ m₂ ho
        cases (peekMessage_of_ready hrd hfi hc hp).symm.trans ho
        rw [hpm]
        exact ⟨rfl, hgm⟩

end

/-! ### No message waits at a slot -/

section

variable (hquit : s.quitRequested = false) (hno : ∀ i, ¬ s.Ready window i)

theorem withoutGone_withoutGone (s : MessageState κ) (window : WindowHandle) :
    (s.withoutGone window).withoutGone window = s.withoutGone window := by
  have hc : (s.withoutGone window).discardGone window (s.discardGone window s.crossThread) =
      s.discardGone window (s.discardGone window s.crossThread) := by
    have hw : (s.withoutGone window).windows = s.windows := rfl
    exact discardGone_congr hw _
  have hs := hc.trans (discardGone_discardGone _)
  unfold MessageState.withoutGone at hs ⊢
  rw [hs]

theorem takeCrossThread_withoutGone (s : MessageState κ) (r : Bool) (window : WindowHandle) :
    (s.withoutGone window).takeCrossThread r window = s.takeCrossThread r window := by
  unfold MessageState.takeCrossThread
  rw [withoutGone_withoutGone]

include hquit hno

theorem getWaiting_of_not_ready : s.getWaiting now window = s.takeCrossThread true window := by
  unfold MessageState.getWaiting
  have hs : s.firstSlot window (s.getFromSlot now) = none := by
    apply firstSlot_eq_none.2
    intro i hu hm
    exact getFromSlot_eq_none.2 fun hw => hno i ⟨hu, hm, hw⟩
  rw [hquit, if_neg Bool.false_ne_true, hs]

/-- **The two functions take the same message of another thread.** -/
theorem agrees_of_live {message : CrossThreadWindowMessage} (he : message ∈ s.crossThread)
    (hm : window.matches message.window) (hus : s.used message.window) :
    PeekAgrees b now window s := by
  have hs : (s.crossThread.find? fun message =>
      window.matches message.window && s.used message.window).isSome := by
    rw [List.find?_isSome]
    exact ⟨message, he, by simp [hm, hus]⟩
  obtain ⟨f, hf⟩ := isSome_iff_exists.1 hs
  have ht : ∀ r, ∃ s₁, s.takeCrossThread r window =
      (s₁, some ⟨f.msg, some f.post⟩) ∧ (r = false → s₁ = s.withoutGone window) := by
    intro r
    rw [← find_discardGone] at hf
    dsimp only [MessageState.takeCrossThread, MessageState.withoutGone]
    rw [hf]
    refine ⟨_, rfl, ?_⟩
    rintro rfl
    rfl
  have hp : ∀ {u s₁ : MessageState κ} {r : Bool} {q : QueuedMessage},
      u.takeCrossThread r window = (s₁, some q) → b.peekMessage r now window u = (s₁, some q) := by
    intro u s₁ r q h
    unfold GuiBackend.peekMessage MessageState.peekWaiting
    rw [h]
  have hg : ∀ {u s₁ : MessageState κ} {q : QueuedMessage},
      u.quitRequested = false → (∀ i, ¬ u.Ready window i) →
      u.takeCrossThread true window = (s₁, some q) → b.getMessage now window u = (s₁, some q) := by
    intro u s₁ q hquit hno h
    unfold GuiBackend.getMessage
    rw [getWaiting_of_not_ready hquit hno, h]
  obtain ⟨s₁, hr, -⟩ := ht true
  obtain ⟨u, hk, hu⟩ := ht false
  have hu := hu rfl
  subst hu
  have ha := (takeCrossThread_withoutGone s true window).trans hr
  constructor
  · intro s' q h
    cases (hg hquit hno hr).symm.trans h
    exact hp hr
  · intro s' q h
    cases (hp hk).symm.trans h
    rw [hp hr]
    exact ⟨hp ha, hg hquit hno ha⟩

variable (hgn : ∀ message ∈ s.crossThread,
  window.matches message.window = true → s.used message.window = false)

omit hquit hno in
include hgn in
theorem takeCrossThread_of_gone (r : Bool) :
    s.takeCrossThread r window = (s.withoutGone window, none) := by
  rw [← takeCrossThread_withoutGone]
  exact takeCrossThread_of_not_matches (s := s.withoutGone window) (not_matches_of_discardGone hgn)

omit hquit in
include hgn in
theorem peekWaiting_of_gone (r : Bool) :
    s.peekWaiting r now window = (s.withoutGone window, none) := by
  unfold MessageState.peekWaiting
  rw [takeCrossThread_of_gone hgn]
  dsimp only
  have hs : (s.withoutGone window).firstSlot window
      ((s.withoutGone window).peekFromSlot r now) = none := by
    apply firstSlot_eq_none.2
    intro i hu hm
    exact peekFromSlot_eq_none.2 fun hw => hno i ⟨hu, hm, hw⟩
  rw [hs]

omit hquit in
theorem pendingNative_of_not_ready (hu : s.used i) (hm : window.matches i) :
    s.pendingNative i = none := by
  by_contra hs
  exact hno i ⟨hu, hm, .inl (isSome_iff_ne_none.2 hs)⟩

include hgn

theorem agrees_iff_of_native {message : GuestMsg}
    (ha : b.nativeLoop window b.translateNativeWindowEvent (List.finRange 512)
      (s.withoutGone window) = (t, some (i, message))) :
    PeekAgrees b now window s ↔
      (message.message = kWmPaint → (t.slots i).renderPending = false) ∧ t.used i ∧
        ∀ j < i, ¬ t.Ready window j := by
  obtain ⟨hu, hm, hs⟩ := nativeLoop_eq_some ha
  have htr : b.getNativeMessage = b.translateNativeWindowEvent := by
    funext s i event
    exact getNativeMessage_eq s i event
  have hge : b.getMessage now window s = (t, some ⟨message, none⟩) := by
    unfold GuiBackend.getMessage
    rw [getWaiting_of_not_ready hquit hno, takeCrossThread_of_gone hgn]
    dsimp only
    rw [htr, ha]
  have hp : ∀ remove, b.peekMessage remove now window s = ((t.leavePending remove now i
        { message := message, isPaint := message.message = kWmPaint }).1,
        some ⟨message, none⟩) := by
    intro remove
    unfold GuiBackend.peekMessage
    rw [peekWaiting_of_gone hno hgn]
    dsimp only
    rw [ha]
    rfl
  have hc : ∀ message ∈ t.crossThread, window.matches message.window = false := by
    rw [hs.crossThread]
    exact not_matches_of_discardGone hgn
  have hquit : t.quitRequested = false := hs.quitRequested.trans hquit
  have he : t.pendingNative i = none := by
    rw [hs.pendingNative]
    exact pendingNative_of_not_ready hno hu hm
  have hl := leavePending_of_none now
    { message := message, isPaint := decide (message.message = kWmPaint) } he
  constructor
  · intro hg
    constructor
    · intro hpa
      -- `PeekMessage` has taken the painting
      have hr := hg.returns _ _ hge
      rw [hp true, hl] at hr
      have hsl := congrArg (fun r => (r.1.slots i).renderPending) hr
      rw [← hsl]
      show (update t.slots i _ i).renderPending = false
      rw [update_self]
      exact if_pos (decide_eq_true hpa)
    · by_contra hnot
      have hst : t.used i → ∃ j < i, t.Ready window j := by
        intro hu
        by_contra hno
        refine hnot ⟨hu, ?_⟩
        intro j hj hrd
        exact hno ⟨j, hj, hrd⟩
      have hn := (hg.leaves _ _ (hp false)).1
      rw [hp true] at hn
      have hk := stays_leavePending b now
        { message := message, isPaint := decide (message.message = kWmPaint) } hc hst
      rw [hn, hl] at hk
      cases he.symm.trans hk
  · rintro ⟨hpa, hu, hfi⟩
    have ht : (t.leavePending true now i
        { message := message, isPaint := decide (message.message = kWmPaint) }).1 = t := by
      rw [hl]
      have ho : (if decide (message.message = kWmPaint) then false
          else (t.slots i).renderPending) = (t.slots i).renderPending := by
        split
        · next h => rw [hpa (of_decide_eq_true h)]
        · rfl
      rw [ho, if_neg Bool.false_ne_true]
      unfold MessageState.setSlot
      rw [update_eq_self]
    have hn := next_leavePending b now
      { message := message, isPaint := decide (message.message = kWmPaint) } hquit hc hu
      hm hfi
    constructor
    · intro s' q h
      cases hge.symm.trans h
      rw [hp true, ht]
    · intro s' q h
      cases (hp false).symm.trans h
      rw [hp true]
      exact hn

theorem agrees_of_not_native
    (ha : b.nativeLoop window b.translateNativeWindowEvent (List.finRange 512)
      (s.withoutGone window) = (t, none)) : PeekAgrees b now window s := by
  have ht := nativeLoop_eq_none ha
  have hr : b.getNativeMessage = b.translateNativeWindowEvent := by
    funext s i event
    exact getNativeMessage_eq s i event
  have hc : ∀ message ∈ t.crossThread, window.matches message.window = false := by
    rw [ht]
    exact not_matches_of_discardGone hgn
  have hrd : ∀ i, ¬ t.Ready window i := by
    rw [ht]
    exact hno
  have hq : t.quitRequested = false := by
    rw [ht]
    exact hquit
  have hg : b.getMessage now window s = match t.timerOrPaint now window with
      | some (i, p) => ((t.leavePending true now i p).1, some ⟨p.message, none⟩)
      | none => (t, none) := by
    unfold GuiBackend.getMessage
    rw [getWaiting_of_not_ready hquit hno, takeCrossThread_of_gone hgn]
    dsimp only
    rw [hr, ha]
    dsimp only
    rw [getTimer_or_getPaint fun i => pendingNative_of_not_ready hrd]
    cases t.timerOrPaint now window <;> rfl
  have hp : ∀ r, b.peekMessage r now window s = match t.timerOrPaint now window with
      | some (i, p) => ((t.leavePending r now i p).1, some ⟨p.message, none⟩)
      | none => (t, none) := by
    intro r
    unfold GuiBackend.peekMessage
    rw [peekWaiting_of_gone hno hgn]
    dsimp only
    rw [ha]
    dsimp only
    rw [peekTimer_or_peekPaint]
    cases t.timerOrPaint now window <;> rfl
  constructor
  · intro s' q h
    rw [hp true, ← hg]
    exact h
  · intro s' q h
    rw [hp false] at h
    rw [hp true]
    cases hn : t.timerOrPaint now window with
    | none =>
      rw [hn] at h
      cases h
    | some n =>
      obtain ⟨i, p⟩ := n
      rw [hn] at h
      cases h
      obtain ⟨hu, hm⟩ := timerOrPaint_eq_some hn
      exact next_leavePending b now p hq hc hu hm fun j _ => hrd j

end

/-! ### The condition decides it -/

/-- **`PeekMessage` and `GetMessage` agree on a state if and only if it meets the condition.** -/
theorem peekAgrees_iff (b : GuiBackend κ) (now : ℕ) (window : WindowHandle) (s : MessageState κ) :
    PeekAgrees b now window s ↔ PeekCareful b window s := by
  cases hquit : s.quitRequested with
  | true =>
    refine iff_of_false (not_agrees_of_quit hquit) ?_
    intro ha
    cases ha.quit.symm.trans hquit
  | false =>
    have hw : ∀ i, s.getFromSlot now i = none ↔ ¬ s.WaitsAt i := fun i => getFromSlot_eq_none
    rcases firstSlot_ready window hw with ⟨i, -, hrd, hfi, -, -⟩ | ⟨hno, -⟩
    · by_cases hc : ∀ message ∈ s.crossThread, window.matches message.window = false
      · rw [agrees_iff_of_ready hquit hrd hfi hc]
        constructor
        · intro hh
          refine ⟨hquit, fun _ _ => hc, ?_, fun hno => absurd hrd (hno i)⟩
          intro j hj hf
          rcases lt_trichotomy i j with ht | rfl | hg
          · exact absurd hrd (hf i ht)
          · exact hh
          · exact absurd hj (hfi j hg)
        · intro ha
          exact ha.character i hrd hfi
      · refine iff_of_false ?_ fun ha => hc (ha.crossThread i hrd)
        simp only [not_forall, Bool.not_eq_false] at hc
        obtain ⟨message, he, hm⟩ := hc
        exact not_agrees_of_crossThread hquit hrd hfi he hm
    · by_cases hgn : ∀ message ∈ s.crossThread,
          window.matches message.window = true → s.used message.window = false
      · cases hn : b.nativeLoop window b.translateNativeWindowEvent (List.finRange 512)
          (s.withoutGone window) with
        | mk t f =>
          cases f with
          | none =>
            refine iff_of_true (agrees_of_not_native hquit hno hgn hn) ?_
            refine ⟨hquit, fun i h => absurd h (hno i), fun i h => absurd h (hno i), ?_⟩
            intro _ _ t' i message hs
            cases hn.symm.trans hs
          | some f =>
            obtain ⟨i, message⟩ := f
            rw [agrees_iff_of_native hquit hno hgn hn]
            constructor
            · intro ho
              refine ⟨hquit, fun i h => absurd h (hno i), fun i h => absurd h (hno i), ?_⟩
              intro _ _ t' i' m' hs
              cases hn.symm.trans hs
              exact ho
            · intro ha
              exact ha.native hno hgn t i message hn
      · have hl := hgn
        simp only [not_forall, Bool.not_eq_false] at hl
        obtain ⟨message, he, hm, hu⟩ := hl
        refine iff_of_true (agrees_of_live hquit hno he hm hu) ?_
        exact ⟨hquit, fun i h => absurd h (hno i), fun i h => absurd h (hno i),
          fun _ h => absurd h hgn⟩

/-- The two functions do not agree on every state: a guest that has asked to quit gets `WM_QUIT`
from `GetMessage`, and nothing from `PeekMessage`. -/
theorem not_peekAgrees : ¬ ∀ (b : GuiBackend Unit) (now : ℕ) (window : WindowHandle)
    (s : MessageState Unit), PeekAgrees b now window s := by
  intro h
  let b : GuiBackend Unit :=
    { nextWindowEvent := fun _ r => ({}, r)
      renderControls := fun _ s => s
      handleControlMouse := fun _ _ s => s
      handleControlKey := fun _ _ s => s }
  let s : MessageState Unit := { rest := (), quitRequested := true, quitCode := 3 }
  have hg : (b.getMessage 0 .null s).2 = some ⟨{ message := kWmQuit, wparam := 3 }, none⟩ := rfl
  have hp : (b.peekMessage true 0 .null s).2 = none := by decide +kernel
  have hr := (h b 0 .null s).returns _ _ (Prod.ext rfl hg)
  rw [hr] at hp
  cases hp

end TradutorLinux
