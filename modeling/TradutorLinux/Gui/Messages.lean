import TradutorLinux.Gui.Windows

/-!
# Messages

A message comes to the guest from the queue of its window, from the queue of the
messages that other threads post, or from the native windows, the timers and the
painting.  `GetMessage` and `PeekMessage` look into the two queues first, each in
its own order.

## Main definitions

* `GuestMsg`, `MessageSlot`, `MessageState` — messages, and where they wait.
* `MessageState.postMessage` — a message is posted, by the GUI thread or another one.
* `MessageState.getWaiting`, `MessageState.peekWaiting` — `GetMessage` and `PeekMessage` up to the
  native windows.
-/

namespace TradutorLinux

/-! ### Messages -/

/-- `MSG`, without the fields that are always zero. -/
structure GuestMsg where
  hwnd : Option WindowIndex := none
  message : ℕ := 0
  wparam : ℕ := 0
  lparam : ℤ := 0
deriving DecidableEq

/-- A message in a queue.  If it was posted, the number says which of the posted messages it is;
the source has no such number, and nothing looks at it. -/
structure QueuedMessage where
  msg : GuestMsg
  post : Option ℕ := none
deriving DecidableEq

/-- A message that another thread posted. -/
structure CrossThreadWindowMessage where
  window : WindowIndex
  message : ℕ
  wparam : ℕ
  lparam : ℤ
  post : ℕ
deriving DecidableEq

def CrossThreadWindowMessage.msg (m : CrossThreadWindowMessage) : GuestMsg :=
  { hwnd := some m.window, message := m.message, wparam := m.wparam, lparam := m.lparam }

/-- A message that `PeekMessage` has made and not removed. -/
structure PendingNativeMessage where
  message : GuestMsg
  isTimer : Bool := false
  isPaint : Bool := false
deriving DecidableEq

structure GuestTimer where
  id : ℕ
  deadline : ℕ
  interval : ℕ
deriving DecidableEq

/-- The first timer of a number starts again. -/
def restartTimer (now id : ℕ) : List GuestTimer → List GuestTimer
  | [] => []
  | timer :: timers =>
    if timer.id = id then { timer with deadline := now + timer.interval } :: timers
    else timer :: restartTimer now id timers

/-- The first timer that is due starts again. -/
def fireTimer (now : ℕ) : List GuestTimer → List GuestTimer
  | [] => []
  | timer :: timers =>
    if timer.deadline ≤ now then { timer with deadline := now + timer.interval } :: timers
    else timer :: fireTimer now timers

theorem map_id_restartTimer (n id : ℕ) (ts : List GuestTimer) :
    (restartTimer n id ts).map GuestTimer.id = ts.map GuestTimer.id := by
  induction ts with
  | nil => rfl
  | cons t ts ih =>
    unfold restartTimer
    split
    · rfl
    · exact congrArg (t.id :: ·) ih

theorem map_id_fireTimer (n : ℕ) (ts : List GuestTimer) :
    (fireTimer n ts).map GuestTimer.id = ts.map GuestTimer.id := by
  induction ts with
  | nil => rfl
  | cons t ts ih =>
    unfold fireTimer
    split
    · rfl
    · exact congrArg (t.id :: ·) ih

/-- The timers of a window.  No number is there twice, since `SetTimer` changes the timer of its
number if there is one. -/
structure GuestTimers where
  list : List GuestTimer := []
  distinct : (list.map GuestTimer.id).Nodup := by exact List.nodup_nil

namespace GuestTimers

variable (timers ts : GuestTimers)

def restart (now id : ℕ) : GuestTimers where
  list := restartTimer now id timers.list
  distinct := map_id_restartTimer now id timers.list ▸ timers.distinct

def fire (now : ℕ) : GuestTimers where
  list := fireTimer now timers.list
  distinct := map_id_fireTimer now timers.list ▸ timers.distinct

def due (now : ℕ) : Option GuestTimer := timers.list.find? fun timer => timer.deadline ≤ now

end GuestTimers

/-- What a slot holds besides its window; `pending` is the character that a key was translated
to. -/
structure MessageSlot where
  pending : Option GuestMsg := none
  queuedMessages : List QueuedMessage := []
  native : Bool := false
  renderPending : Bool := false
  lastKey : UInt8 := 0
  leftButtonDown : Bool := false
  openMenuIndex : ℤ := -1
  trayRegistered : Bool := false
  trayIconId : ℕ := 0
  trayCallbackMessage : ℕ := 0
  timers : GuestTimers := {}

/-- The windows, what their slots hold, and the rest of the interface. -/
structure GuiState (κ : Type) where
  windows : WindowState := {}
  slots : WindowIndex → MessageSlot := fun _ => {}
  rest : κ

/-- With what only the message functions see: the messages that `PeekMessage` has left, the keys,
the messages of other threads, how many messages have been posted, and the request to quit. -/
structure MessageState (κ : Type) extends GuiState κ where
  pendingNative : WindowIndex → Option PendingNativeMessage := fun _ => none
  keyboardState : ℕ → UInt8 := fun _ => 0
  crossThread : List CrossThreadWindowMessage := []
  posted : ℕ := 0
  quitRequested : Bool := false
  quitCode : ℕ := 0

def kMaxCrossThreadWindowMessages : ℕ := 4096

def kWmQuit : ℕ := 0x12

/-- A window is one that the filter lets through. -/
def WindowHandle.matches : WindowHandle → WindowIndex → Bool
  | null, _ => true
  | slot window, index => window = index
  | other, _ => false

namespace MessageState

variable {κ : Type} (s : MessageState κ)

def used (index : WindowIndex) : Bool := (s.windows.slots index).used

def setSlot (index : WindowIndex) (slot : MessageSlot) : MessageState κ :=
  { s with slots := Function.update s.slots index slot }

/-! ### Windows come and go -/

/-- A call changes the windows.  A slot that is freed is emptied, and so is one that a control
takes; a window of the desktop takes the slot as it is.  What `PeekMessage` has left goes in either
case. -/
def afterWindows (windows : WindowState) : MessageState κ :=
  let same := fun index =>
    (windows.slots index).used = (s.windows.slots index).used ∧
      (windows.slots index).serial = (s.windows.slots index).serial
  { s with
      windows := windows
      slots := fun index =>
        if same index then s.slots index
        else if (s.windows.slots index).used = false ∧ (windows.slots index).used = true ∧
            (windows.slots index).isControl = false then s.slots index
        else {}
      pendingNative := fun index => if same index then s.pendingNative index else none }

/-! ### Posting -/

def queueWindowMessage (index : WindowIndex) (message wparam : ℕ) (lparam : ℤ) (post : Option ℕ) :
    MessageState κ :=
  let slot := s.slots index
  s.setSlot index { slot with
    queuedMessages := slot.queuedMessages ++
      [⟨{ hwnd := some index, message := message, wparam := wparam, lparam := lparam }, post⟩] }

/-- `PostMessageA`, by the GUI thread or by another one; the window, if the message is posted. -/
def postMessage (gui : Bool) (window : WindowHandle) (message wparam : ℕ) (lparam : ℤ) :
    MessageState κ × Option WindowIndex :=
  if gui = false then
    match s.windows.registeredWindow window with
    | none => (s, none)
    | some index =>
      if kMaxCrossThreadWindowMessages ≤ s.crossThread.length then (s, none)
      else
        ({ s with
            crossThread := s.crossThread ++ [⟨index, message, wparam, lparam, s.posted⟩]
            posted := s.posted + 1 }, some index)
  else match s.windows.findWindowSlot window with
    | none => (s, none)
    | some index =>
      ({ s.queueWindowMessage index message wparam lparam (some s.posted) with
          posted := s.posted + 1 }, some index)

/-! ### The queues of the windows -/

/-- `reset_pending_native`. -/
def resetPendingNative (now : ℕ) (index : WindowIndex) : MessageState κ :=
  let slot := s.slots index
  match s.pendingNative index with
  | none => s
  | some pending =>
    { s.setSlot index { slot with
        timers := if pending.isTimer = true then slot.timers.restart now pending.message.wparam
          else slot.timers
        renderPending := if pending.isPaint = true then false else slot.renderPending } with
      pendingNative := Function.update s.pendingNative index none }

/-- What `GetMessage` takes from a slot. -/
def getFromSlot (now : ℕ) (index : WindowIndex) : Option (MessageState κ × QueuedMessage) :=
  let slot := s.slots index
  match s.pendingNative index, slot.pending, slot.queuedMessages with
  | some pending, _, _ => some (s.resetPendingNative now index, ⟨pending.message, none⟩)
  | none, some pending, _ =>
    some (s.setSlot index { slot with pending := none },
      ⟨{ pending with hwnd := some index }, none⟩)
  | none, none, queued :: messages =>
    some (s.setSlot index { slot with queuedMessages := messages }, queued)
  | none, none, [] => none

/-- What `PeekMessage` finds in a slot, and takes from it if it is to remove the message. -/
def peekFromSlot (remove : Bool) (now : ℕ) (index : WindowIndex) :
    Option (MessageState κ × QueuedMessage) :=
  let slot := s.slots index
  match s.pendingNative index, slot.pending, slot.queuedMessages with
  | some pending, _, _ =>
    some (if remove = true then s.resetPendingNative now index else s, ⟨pending.message, none⟩)
  | none, some pending, _ =>
    some (if remove = true then s.setSlot index { slot with pending := none } else s,
      ⟨pending, none⟩)
  | none, none, queued :: messages =>
    some (if remove = true then s.setSlot index { slot with queuedMessages := messages } else s,
      queued)
  | none, none, [] => none

/-- The loop over the slots, which ends at the first one where something is found. -/
def firstSlot {α : Type} (window : WindowHandle) (find : WindowIndex → Option α) : Option α :=
  (List.finRange 512).findSome? fun index =>
    if s.used index = true ∧ window.matches index = true then find index else none

/-! ### The queue of the other threads -/

/-- The messages up to the first one that passes the filter and has a window; those that pass the
filter and have none are thrown away. -/
def discardGone (window : WindowHandle) :
    List CrossThreadWindowMessage → List CrossThreadWindowMessage
  | [] => []
  | message :: messages =>
    if window.matches message.window = true then
      if s.used message.window = true then message :: messages
      else discardGone window messages
    else message :: discardGone window messages

def withoutGone (window : WindowHandle) : MessageState κ :=
  { s with crossThread := s.discardGone window s.crossThread }

/-- The loop over the messages of other threads: the first one that passes the filter and has a
window, taken off if it is to be removed. -/
def takeCrossThread (remove : Bool) (window : WindowHandle) :
    MessageState κ × Option QueuedMessage :=
  let s := s.withoutGone window
  match s.crossThread.find? fun message => window.matches message.window with
  | none => (s, none)
  | some message =>
    ({ s with
        crossThread := if remove = true then
          s.crossThread.eraseP fun message => window.matches message.window else s.crossThread },
      some ⟨message.msg, some message.post⟩)

/-! ### Retrieving -/

/-- `deliver_quit_message`. -/
def deliverQuit : MessageState κ × QueuedMessage :=
  ({ s with quitRequested := false }, ⟨{ message := kWmQuit, wparam := s.quitCode }, none⟩)

/-- `GetMessageA` up to the native windows. -/
def getWaiting (now : ℕ) (window : WindowHandle) : MessageState κ × Option QueuedMessage :=
  if s.quitRequested = true then
    let (s, message) := s.deliverQuit
    (s, some message)
  else match s.firstSlot window (s.getFromSlot now) with
    | some (s, message) => (s, some message)
    | none => s.takeCrossThread true window

/-- `PeekMessageA` up to the native windows. -/
def peekWaiting (remove : Bool) (now : ℕ) (window : WindowHandle) :
    MessageState κ × Option QueuedMessage :=
  match s.takeCrossThread remove window with
  | (s, some message) => (s, some message)
  | (s, none) =>
    match s.firstSlot window (s.peekFromSlot remove now) with
    | some (s, message) => (s, some message)
    | none => (s, none)

end MessageState
end TradutorLinux
