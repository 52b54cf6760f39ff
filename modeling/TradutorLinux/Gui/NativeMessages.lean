import TradutorLinux.Gui.Messages

/-!
# Messages of the native windows

When no message waits, `GetMessage` and `PeekMessage` ask the native windows for
events and make messages of them, each with a translation of its own; then come
the timers and the painting.

## Main definitions

* `WindowEvent`, `GuiBackend`
* `GuiBackend.getNativeMessage`, `GuiBackend.translateNativeWindowEvent` — the translations of
  `GetMessage` and `PeekMessage`.
* `GuiBackend.getMessage`, `GuiBackend.peekMessage` — the two functions.
-/

namespace TradutorLinux

/-! ### Events -/

inductive WindowEventType
  | idle | redraw | resize | press | release | rightPress | rightRelease | mouseMove | keyDown
  | keyUp | closeRequested
deriving DecidableEq

structure WindowEvent where
  type : WindowEventType := .idle
  x : ℤ := 0
  y : ℤ := 0
  character : UInt8 := 0
  keysym : ℕ := 0
  modifiers : UInt8 := 0
deriving DecidableEq

/-- What the message functions call: the backend's next event of a window, and what the controls
of a window do when it is drawn, or when the mouse or a key is used in it. -/
structure GuiBackend (κ : Type) where
  nextWindowEvent : WindowIndex → κ → WindowEvent × κ
  renderControls : WindowIndex → GuiState κ → GuiState κ
  handleControlMouse : WindowIndex → WindowEvent → GuiState κ → GuiState κ
  handleControlKey : WindowIndex → WindowEvent → GuiState κ → GuiState κ

def kWmSize : ℕ := 0x0005
def kWmPaint : ℕ := 0x000F
def kWmClose : ℕ := 0x0010
def kWmKeyDown : ℕ := 0x0100
def kWmKeyUp : ℕ := 0x0101
def kWmSysKeyDown : ℕ := 0x0104
def kWmSysKeyUp : ℕ := 0x0105
def kWmTimer : ℕ := 0x0113
def kWmMouseMove : ℕ := 0x0200
def kWmLButtonDown : ℕ := 0x0201
def kWmLButtonUp : ℕ := 0x0202
def kWmRButtonDown : ℕ := 0x0204
def kWmRButtonUp : ℕ := 0x0205
def kWmTrayIcon : ℕ := 0x0401
def kMkLButton : ℕ := 0x0001
def kMkRButton : ℕ := 0x0002
def kMaxGuestWindowDimension : ℤ := 8192

/-! ### Keys -/

def keyMessageId (event : WindowEvent) : ℕ :=
  let altKey := event.keysym = 0xFFE9 ∨ event.keysym = 0xFFEA
  let systemKey := event.modifiers &&& 4 ≠ 0 ∨ altKey
  if event.type = .keyDown then if systemKey then kWmSysKeyDown else kWmKeyDown
  else if event.type = .keyUp then if systemKey then kWmSysKeyUp else kWmKeyUp
  else 0

/-- The virtual keys that have a keysym of their own. -/
def specialKeys : List (ℕ × ℕ) :=
  [(0xFF08, 0x08), (0xFF09, 0x09), (0xFF0D, 0x0D), (0xFF1B, 0x1B), (0xFF51, 0x25), (0xFF52, 0x26),
    (0xFF53, 0x27), (0xFF54, 0x28), (0xFFFF, 0x2E), (0xFFC1, 0x73), (0xFFE1, 0x10), (0xFFE2, 0x10),
    (0xFFE3, 0x11), (0xFFE4, 0x11), (0xFFE9, 0x12), (0xFFEA, 0x12)]

def keydownVkey (keysym : ℕ) (character : UInt8) : ℕ :=
  match specialKeys.find? fun key => key.1 = keysym with
  | some (_, vkey) => vkey
  | none =>
    if 0x61 ≤ keysym ∧ keysym ≤ 0x7A then keysym - 0x20
    else if 0x41 ≤ keysym ∧ keysym ≤ 0x5A ∨ 0x30 ≤ keysym ∧ keysym ≤ 0x39 then keysym
    else
      let value := character.toNat
      if 0x61 ≤ value ∧ value ≤ 0x7A then value - 0x20 else value

/-- `mouse_lparam`. -/
def mouseLparam (x y : ℤ) : ℤ := y % 0x10000 * 0x10000 + x % 0x10000

namespace MessageState

variable {κ : Type} (s : MessageState κ)

/-- The interface changes. -/
def gui (f : GuiState κ → GuiState κ) : MessageState κ := { s with toGuiState := f s.toGuiState }

def updateKey (key : ℕ) (down : Bool) : MessageState κ :=
  if key < 256 then
    { s with
        keyboardState := Function.update s.keyboardState key (if down = true then 0x80 else 0) }
  else s

def updateKeyboardState (event : WindowEvent) : MessageState κ :=
  let s := s.updateKey 0x10 (event.modifiers &&& 1 ≠ 0)
  let s := s.updateKey 0x11 (event.modifiers &&& 2 ≠ 0)
  let s := s.updateKey 0x12 (event.modifiers &&& 4 ≠ 0)
  let key := keydownVkey event.keysym event.character
  if event.type = .keyDown then s.updateKey key true
  else if event.type = .keyUp then s.updateKey key false
  else s

/-! ### Controls -/

/-- The topmost control of a window at a place, those with a window procedure first. -/
def findControlAt (parent : WindowIndex) (x y : ℤ) : Option WindowIndex :=
  let here := fun (registered : Bool) (index : WindowIndex) =>
    let slot := s.windows.slots index
    decide (slot.used = true ∧ slot.isControl = true ∧
      slot.parent.map WindowPointer.slot = some parent ∧ slot.visible = true ∧
      slot.wndproc = registered ∧ slot.x ≤ x ∧ x < slot.x + slot.width ∧ slot.y ≤ y ∧
      y < slot.y + slot.height)
  ((List.finRange 512).reverse.find? (here true)).or
    ((List.finRange 512).reverse.find? (here false))

def eventControl (parent : WindowIndex) (event : WindowEvent) : Option WindowIndex :=
  if 0 ≤ (s.slots parent).openMenuIndex then none else s.findControlAt parent event.x event.y

/-- The loop of `window_drawing_target`, for at most `n` rounds: the window of the desktop that a
control is in, and where. -/
def drawingLoop : ℕ → WindowIndex → ℤ × ℤ → Option (WindowIndex × ℤ × ℤ)
  | 0, current, offset => some (current, offset)
  | n + 1, current, (x, y) =>
    let slot := s.windows.slots current
    if slot.isControl = true then
      match slot.parent with
      | none => none
      | some parent =>
        if s.used parent.slot = true then drawingLoop n parent.slot (x + slot.x, y + slot.y)
        else none
    else some (current, (x, y))

def windowDrawingTarget (index : WindowIndex) : Option (ℤ × ℤ) :=
  if s.used index = true then
    match s.drawingLoop kMaxGuestWindows index (0, 0) with
    | none => none
    | some (current, offset) =>
      if (s.windows.slots current).isControl = false ∧ (s.slots current).native = true then
        some offset
      else none
  else none

/-- The control that gets the mouse itself, and its place in the window: `target.native` of the
control that `logical_child_mouse_message` lets through. -/
def mouseTarget (control : Option WindowIndex) : Option (WindowIndex × ℤ × ℤ) :=
  control.bind fun control =>
    let slot := s.windows.slots control
    if slot.wndproc = true ∧ slot.isControl = true ∧ slot.parent.isSome = true then
      (s.windowDrawingTarget control).map fun offset => (control, offset)
    else none

/-- The control that gets the keys itself. -/
def keyTarget : Option WindowIndex :=
  s.windows.focused.bind fun control =>
    let slot := s.windows.slots control
    if slot.used = true ∧ slot.isControl = true ∧ slot.wndproc = true then some control else none

/-- `record_window_resize`. -/
def recordWindowResize (index : WindowIndex) (event : WindowEvent) : MessageState κ :=
  if event.x ≤ 0 ∨ event.y ≤ 0 ∨ kMaxGuestWindowDimension < event.x ∨
      kMaxGuestWindowDimension < event.y then s
  else { s with windows := s.windows.setSlot index { s.windows.slots index with
    width := event.x, height := event.y } }

end MessageState

/-! ### Translations -/

namespace GuiBackend

variable {κ : Type} (b : GuiBackend κ)

/-- What `GetMessage` makes of an event. -/
def getNativeMessage (s : MessageState κ) (index : WindowIndex) (event : WindowEvent) :
    MessageState κ × Option GuestMsg :=
  match event.type with
  | .redraw =>
    (s.gui (b.renderControls index), some { hwnd := some index, message := kWmPaint })
  | .resize =>
    (s.recordWindowResize index event,
      some { hwnd := some index, message := kWmSize, lparam := mouseLparam event.x event.y })
  | .press =>
    let control := s.eventControl index event
    let s := s.gui (b.handleControlMouse index event)
    let s := s.setSlot index { s.slots index with leftButtonDown := true }
    (s, some <| match s.mouseTarget control with
      | some (control, x, y) =>
        { hwnd := some control, message := kWmLButtonDown, wparam := kMkLButton,
          lparam := mouseLparam (event.x - x) (event.y - y) }
      | none =>
        { hwnd := some index, message := kWmLButtonDown, wparam := kMkLButton,
          lparam := mouseLparam event.x event.y })
  | .release =>
    let control := s.eventControl index event
    let s := s.gui (b.handleControlMouse index event)
    let s := s.setSlot index { s.slots index with leftButtonDown := false }
    (s, some <| match s.mouseTarget control with
      | some (control, x, y) =>
        { hwnd := some control, message := kWmLButtonUp,
          lparam := mouseLparam (event.x - x) (event.y - y) }
      | none =>
        { hwnd := some index, message := kWmLButtonUp, lparam := mouseLparam event.x event.y })
  | .mouseMove =>
    let control := s.eventControl index event
    let s := s.gui (b.handleControlMouse index event)
    let wparam := if (s.slots index).leftButtonDown = true then kMkLButton else 0
    (s, some <| match s.mouseTarget control with
      | some (control, x, y) =>
        { hwnd := some control, message := kWmMouseMove, wparam := wparam,
          lparam := mouseLparam (event.x - x) (event.y - y) }
      | none =>
        { hwnd := some index, message := kWmMouseMove, wparam := wparam,
          lparam := mouseLparam event.x event.y })
  | .keyDown =>
    let s := s.updateKeyboardState event
    let (s, target) := match s.keyTarget with
      | some control => (s, control)
      | none => (s.gui (b.handleControlKey index event), index)
    (s.setSlot target { s.slots target with lastKey := event.character },
      some { hwnd := some target, message := keyMessageId event,
             wparam := keydownVkey event.keysym event.character })
  | .rightPress =>
    let slot := s.slots index
    (s, some <| if slot.trayRegistered = true then
        { hwnd := some index,
          message := if slot.trayCallbackMessage ≠ 0 then slot.trayCallbackMessage else kWmTrayIcon,
          wparam := slot.trayIconId, lparam := kWmRButtonUp }
      else
        { hwnd := some index, message := kWmRButtonDown, wparam := kMkRButton,
          lparam := mouseLparam event.x event.y })
  | .rightRelease =>
    if (s.slots index).trayRegistered = true then (s, none)
    else
      (s, some { hwnd := some index, message := kWmRButtonUp,
                 lparam := mouseLparam event.x event.y })
  | .keyUp =>
    let s := s.updateKeyboardState event
    let target := s.keyTarget.getD index
    (s, some { hwnd := some target, message := keyMessageId event,
               wparam := keydownVkey event.keysym event.character })
  | .closeRequested => (s, some { hwnd := some index, message := kWmClose })
  | .idle => (s, none)

/-- `translate_native_window_event`, with the test for idle windows that `PeekMessage` makes
before it. -/
def translateNativeWindowEvent (s : MessageState κ) (index : WindowIndex) (event : WindowEvent) :
    MessageState κ × Option GuestMsg :=
  let setMessage := fun (hwnd : WindowIndex) (message wparam : ℕ) (lparam : ℤ) =>
    some { hwnd := some hwnd, message := message, wparam := wparam, lparam := lparam : GuestMsg }
  match event.type with
  | .idle => (s, none)
  | .redraw => (s.gui (b.renderControls index), setMessage index kWmPaint 0 0)
  | .resize =>
    (s.recordWindowResize index event, setMessage index kWmSize 0 (mouseLparam event.x event.y))
  | .press =>
    let control := s.eventControl index event
    let s := s.gui (b.handleControlMouse index event)
    let s := s.setSlot index { s.slots index with leftButtonDown := true }
    match s.mouseTarget control with
    | some (control, x, y) =>
      (s, setMessage control kWmLButtonDown kMkLButton (mouseLparam (event.x - x) (event.y - y)))
    | none => (s, setMessage index kWmLButtonDown kMkLButton (mouseLparam event.x event.y))
  | .release =>
    let control := s.eventControl index event
    let s := s.gui (b.handleControlMouse index event)
    let s := s.setSlot index { s.slots index with leftButtonDown := false }
    match s.mouseTarget control with
    | some (control, x, y) =>
      (s, setMessage control kWmLButtonUp 0 (mouseLparam (event.x - x) (event.y - y)))
    | none => (s, setMessage index kWmLButtonUp 0 (mouseLparam event.x event.y))
  | .mouseMove =>
    let control := s.eventControl index event
    let s := s.gui (b.handleControlMouse index event)
    let (hwnd, x, y) := match s.mouseTarget control with
      | some (control, x, y) => (control, event.x - x, event.y - y)
      | none => (index, event.x, event.y)
    let wparam := if (s.slots index).leftButtonDown = true then kMkLButton else 0
    (s, setMessage hwnd kWmMouseMove wparam (mouseLparam x y))
  | .keyDown =>
    let s := s.updateKeyboardState event
    let (s, target) := match s.keyTarget with
      | some control => (s, control)
      | none => (s.gui (b.handleControlKey index event), index)
    (s.setSlot target { s.slots target with lastKey := event.character },
      setMessage target (keyMessageId event) (keydownVkey event.keysym event.character) 0)
  | .rightPress =>
    let slot := s.slots index
    if slot.trayRegistered = true then
      (s, setMessage index
        (if slot.trayCallbackMessage ≠ 0 then slot.trayCallbackMessage else kWmTrayIcon)
        slot.trayIconId kWmRButtonUp)
    else (s, setMessage index kWmRButtonDown kMkRButton (mouseLparam event.x event.y))
  | .rightRelease =>
    if (s.slots index).trayRegistered = true then (s, none)
    else (s, setMessage index kWmRButtonUp 0 (mouseLparam event.x event.y))
  | .keyUp =>
    let s := s.updateKeyboardState event
    let target := s.keyTarget.getD index
    (s, setMessage target (keyMessageId event) (keydownVkey event.keysym event.character) 0)
  | .closeRequested => (s, setMessage index kWmClose 0 0)

/-- The loop over the native windows: each is asked for one event, up to the first message. -/
def nativeLoop (window : WindowHandle)
    (translate : MessageState κ → WindowIndex → WindowEvent → MessageState κ × Option GuestMsg) :
    List WindowIndex → MessageState κ → MessageState κ × Option (WindowIndex × GuestMsg)
  | [], s => (s, none)
  | index :: indices, s =>
    if s.used index = true ∧ (s.slots index).native = true ∧ window.matches index = true then
      let (event, rest) := b.nextWindowEvent index s.rest
      match translate { s with rest := rest } index event with
      | (s, some message) => (s, some (index, message))
      | (s, none) => nativeLoop window translate indices s
    else nativeLoop window translate indices s

end GuiBackend

/-! ### Timers and painting -/

namespace MessageState

variable {κ : Type} (s : MessageState κ)

/-- `GetMessage` and the timers. -/
def getTimer (now : ℕ) (window : WindowHandle) : Option (MessageState κ × GuestMsg) :=
  s.firstSlot window fun index =>
    let slot := s.slots index
    (slot.timers.due now).map fun timer =>
      (s.setSlot index { slot with timers := slot.timers.fire now },
        { hwnd := some index, message := kWmTimer, wparam := timer.id })

/-- `GetMessage` and the painting. -/
def getPaint (window : WindowHandle) : Option (MessageState κ × GuestMsg) :=
  s.firstSlot window fun index =>
    let slot := s.slots index
    if slot.renderPending = true then
      some (s.setSlot index { slot with renderPending := false },
        { hwnd := some index, message := kWmPaint })
    else none

/-- `PeekMessage` leaves a message at a window, and takes it again if it is to remove it. -/
def leavePending (remove : Bool) (now : ℕ) (index : WindowIndex) (pending : PendingNativeMessage) :
    MessageState κ × GuestMsg :=
  let s := { s with pendingNative := Function.update s.pendingNative index (some pending) }
  (if remove = true then s.resetPendingNative now index else s, pending.message)

/-- `PeekMessage` and the timers. -/
def peekTimer (remove : Bool) (now : ℕ) (window : WindowHandle) :
    Option (MessageState κ × GuestMsg) :=
  s.firstSlot window fun index =>
    ((s.slots index).timers.due now).map fun timer =>
      s.leavePending remove now index
        { message := { hwnd := some index, message := kWmTimer, wparam := timer.id },
          isTimer := true }

/-- `PeekMessage` and the painting. -/
def peekPaint (remove : Bool) (now : ℕ) (window : WindowHandle) :
    Option (MessageState κ × GuestMsg) :=
  s.firstSlot window fun index =>
    if (s.slots index).renderPending = true then
      some (s.leavePending remove now index
        { message := { hwnd := some index, message := kWmPaint }, isPaint := true })
    else none

end MessageState

/-! ### The two functions -/

namespace GuiBackend

variable {κ : Type} (b : GuiBackend κ)

/-- `GetMessageA` on the GUI thread, with a `MSG` that can be written, up to where it would wait.
It returns 0 for `WM_QUIT` and 1 for every other message. -/
def getMessage (now : ℕ) (window : WindowHandle) (s : MessageState κ) :
    MessageState κ × Option QueuedMessage :=
  match s.getWaiting now window with
  | (s, some message) => (s, some message)
  | (s, none) =>
    match b.nativeLoop window b.getNativeMessage (List.finRange 512) s with
    | (s, some (_, message)) => (s, some ⟨message, none⟩)
    | (s, none) =>
      match (s.getTimer now window).or (s.getPaint window) with
      | some (s, message) => (s, some ⟨message, none⟩)
      | none => (s, none)

/-- `PeekMessageA`, with and without `PM_REMOVE`; it returns 1 if it finds a message. -/
def peekMessage (remove : Bool) (now : ℕ) (window : WindowHandle) (s : MessageState κ) :
    MessageState κ × Option QueuedMessage :=
  match s.peekWaiting remove now window with
  | (s, some message) => (s, some message)
  | (s, none) =>
    match b.nativeLoop window b.translateNativeWindowEvent (List.finRange 512) s with
    | (s, some (index, message)) =>
      let (s, message) := s.leavePending remove now index
        { message := message, isPaint := message.message = kWmPaint }
      (s, some ⟨message, none⟩)
    | (s, none) =>
      match (s.peekTimer remove now window).or (s.peekPaint remove now window) with
      | some (s, message) => (s, some ⟨message, none⟩)
      | none => (s, none)

end GuiBackend
end TradutorLinux
