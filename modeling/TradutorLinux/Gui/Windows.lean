import Mathlib.Data.Int.Notation
import Mathlib.Data.Nat.Notation
import Mathlib.Logic.Function.Basic

/-!
# Windows

Windows live in 512 slots and name their parents by the address of the slot.
The creation of a window calls its procedure twice before it is accepted, and
the destruction calls it once; what the guest calls in between comes before the
outer call goes on.

## Main definitions

* `WindowSlot`, `WindowState`
* `WindowCall` — what the guest does: a call, or the return from a window procedure.
* `WindowState.step` — up to where the guest is next.
* `windowOrigin`
-/

namespace TradutorLinux

/-! ### Slots -/

abbrev WindowIndex := Fin 512

/-- A pointer to a slot.  The serial number says which of the windows that the slot holds, one
after the other, it was when the pointer was set; the source has no such number, and nothing in
the calls looks at it. -/
structure WindowPointer where
  slot : WindowIndex
  serial : ℕ
deriving DecidableEq

/-- A slot, with the serial number of its window. -/
structure WindowSlot where
  used : Bool := false
  wndproc : Bool := false
  isControl : Bool := false
  edit : Bool := false
  parent : Option WindowPointer := none
  x : ℤ := 0
  y : ℤ := 0
  width : ℤ := 0
  height : ℤ := 0
  visible : Bool := true
  enabled : Bool := true
  destroying : Bool := false
  serial : ℕ := 0
deriving DecidableEq

/-- A handle, as the guest passes it. -/
inductive WindowHandle
  | null
  | slot (index : WindowIndex)
  | other
deriving DecidableEq

/-- A call that waits for a window procedure to return, with the serial number of its window. -/
inductive WindowFrame
  /-- `WM_NCCREATE` or `WM_CREATE` of a new window. -/
  | creating (created : Bool) (topLevel : Bool) (parent : Option WindowIndex)
      (window : WindowPointer)
  /-- `WM_DESTROY`. -/
  | destroying (window : WindowPointer)
deriving DecidableEq

/-- The window that a call is about. -/
def WindowFrame.window : WindowFrame → WindowPointer
  | creating _ _ _ window => window
  | destroying window => window

/-- `g_windows`, how many windows there have been, the tables that name windows, and the calls
that wait, the innermost one first. -/
structure WindowState where
  slots : WindowIndex → WindowSlot := fun _ => {}
  allocated : ℕ := 0
  focused : Option WindowIndex := none
  captured : Option WindowIndex := none
  registered : List WindowIndex := []
  waiting : List WindowFrame := []

def kMaxGuestWindows : ℕ := 512

/-! ### Calls -/

/-- What `CreateWindowExA` is called with, as far as it decides how the window is made: the class,
if it is registered, with whether it has a window procedure; the built-in control of its name, with
whether it is an edit control; whether the class is given by an atom. -/
structure CreateWindowRequest where
  gui : Bool := true
  registered : Option Bool
  builtin : Option Bool := none
  atom : Bool := false
  parent : WindowHandle
  /-- The style says so, or the backend has mapped a window of its own. -/
  visible : Bool := true
  enabled : Bool := true
  /-- The position, and the size once it has been made sensible. -/
  x : ℤ := 0
  y : ℤ := 0
  width : ℤ := 1
  height : ℤ := 1
  /-- The backend makes the native window. -/
  native : Bool := true
  /-- `TL_SKIP_TOPLEVEL_WM_CREATE` is set. -/
  skipCreate : Bool := false

/-- What the guest does. -/
inductive WindowCall
  | createWindow (request : CreateWindowRequest)
  | destroyWindow (window : WindowHandle)
  | setParent (child newParent : WindowHandle)
  | setFocus (gui : Bool) (window : WindowHandle)
  | setCapture (gui : Bool) (window : WindowHandle)
  | releaseCapture (gui : Bool)
  /-- The innermost window procedure returns. -/
  | windowProcedureReturns (result : ℤ)

/-- What the guest gets: a window procedure of its own is called, or a call returns. -/
inductive WindowAnswer
  | called (window : WindowIndex)
  | handle (window : Option WindowIndex)
  | truth (ok : Bool)
deriving DecidableEq

namespace WindowState

variable (s : WindowState)

def findWindowSlot (handle : WindowHandle) : Option WindowIndex :=
  match handle with
  | .slot index => if (s.slots index).used = true then some index else none
  | _ => none

def setSlot (index : WindowIndex) (slot : WindowSlot) : WindowState :=
  { s with slots := Function.update s.slots index slot }

/-- `register_window_handle`. -/
def registerWindowHandle (index : WindowIndex) : WindowState :=
  if index ∈ s.registered ∨ kMaxGuestWindows ≤ s.registered.length then s
  else { s with registered := s.registered ++ [index] }

/-- `unregister_window_handle`. -/
def unregisterWindowHandle (index : WindowIndex) : WindowState :=
  { s with registered := s.registered.erase index }

/-- `is_registered_window_handle`; the slot, if the handle is registered. -/
def registeredWindow (window : WindowHandle) : Option WindowIndex :=
  match window with
  | .slot index => if index ∈ s.registered then some index else none
  | _ => none

def pointerTo (index : WindowIndex) : WindowPointer := ⟨index, (s.slots index).serial⟩

/-! ### Creation -/

/-- The window procedure of a new window is called, if there is one; a call of a null pointer does
not come back. -/
def callNew (created topLevel : Bool) (parent : Option WindowIndex) (window : WindowPointer) :
    Option (WindowState × WindowAnswer) :=
  if (s.slots window.slot).wndproc = true then
    some ({ s with waiting := .creating created topLevel parent window :: s.waiting },
      .called window.slot)
  else none

/-- A creation that `WM_NCCREATE` or `WM_CREATE` rejects. -/
def reject (window : WindowPointer) : WindowState :=
  (s.unregisterWindowHandle window.slot).setSlot window.slot {}

def focusElsewhere (parent : Option WindowIndex) : Bool :=
  match s.focused with
  | none => true
  | some focused => decide ((s.slots focused).parent.map WindowPointer.slot ≠ parent)

/-- The end of a creation; a child may get the focus. -/
def accept (topLevel : Bool) (parent : Option WindowIndex) (index : WindowIndex) :
    WindowState × WindowAnswer :=
  if topLevel = false ∧ s.focusElsewhere parent = true ∧ (s.slots index).edit = true ∧
      (s.slots index).visible = true ∧ (s.slots index).enabled = true then
    ({ s with focused := some index }, .handle (some index))
  else (s, .handle (some index))

def takeSlot (index : WindowIndex) (slot : WindowSlot) : WindowState :=
  { s with
      slots := Function.update s.slots index { slot with serial := s.allocated + 1 }
      allocated := s.allocated + 1 }

/-- `CreateWindowExA`, up to the first call of the window procedure. -/
def createWindow (request : CreateWindowRequest) : Option (WindowState × WindowAnswer) :=
  let child := decide (request.parent ≠ .null)
  let generic := request.registered.isNone && !request.atom && child
  let registeredChild := request.registered.isSome && child
  if child = false ∧ request.gui = false then some (s, .handle none)
  else if request.registered.isNone = true ∧
      (request.atom = true ∨ request.builtin.isNone = true ∧ generic = false) then
    some (s, .handle none)
  else match (List.finRange 512).find? fun index => (s.slots index).used = false with
    | none => some (s, .handle none)
    | some index =>
      if request.atom = false ∧
          (request.builtin.isSome = true ∨ generic = true ∨ registeredChild = true) then
        match s.findWindowSlot request.parent with
        | none => some (s, .handle none)
        | some parent =>
          let s := (s.takeSlot index
            { used := true, wndproc := request.registered.getD false, isControl := true,
              edit := request.builtin.getD false, parent := some (s.pointerTo parent),
              x := request.x, y := request.y, width := request.width, height := request.height,
              visible := request.visible,
              enabled := request.enabled }).registerWindowHandle index
          if registeredChild = true then s.callNew false false (some parent) (s.pointerTo index)
          else some (s.accept false (some parent) index)
      else if request.native = false then some (s, .handle none)
      else
        -- the fields that are not set keep what the free slot holds
        let s := (s.takeSlot index { s.slots index with
          used := true, wndproc := request.registered.getD false, x := request.x, y := request.y,
          width := request.width, height := request.height,
          visible := request.visible }).registerWindowHandle index
        if request.skipCreate = true then some (s.accept true none index)
        else s.callNew false true none (s.pointerTo index)

/-! ### Destruction -/

/-- The loop over the slots: the children of a window are freed. -/
def freeChildren (index : WindowIndex) : WindowState :=
  (List.finRange 512).foldl (fun s child =>
    if (s.slots child).used = true ∧ (s.slots child).parent.map WindowPointer.slot = some index then
      let s := s.unregisterWindowHandle child
      let s := if s.focused = some child then { s with focused := none } else s
      s.setSlot child {}
    else s) s

/-- The end of `DestroyWindow`. -/
def finishDestroy (window : WindowPointer) : WindowState × WindowAnswer :=
  (s.setSlot window.slot {}, .truth true)

/-- `DestroyWindow`, up to `WM_DESTROY`. -/
def destroyWindow (window : WindowHandle) : WindowState × WindowAnswer :=
  match s.findWindowSlot window with
  | none => (s, .truth false)
  | some index =>
    let s := s.unregisterWindowHandle index
    if (s.slots index).destroying = true then (s, .truth true)
    else
      let pointer := s.pointerTo index
      let s := (s.setSlot index { s.slots index with destroying := true }).freeChildren index
      let s := if s.focused = some index then { s with focused := none } else s
      if (s.slots index).wndproc = true then
        ({ s with waiting := .destroying pointer :: s.waiting }, .called index)
      else s.finishDestroy pointer

/-! ### Returns -/

/-- The innermost window procedure returns to the call that waits for it. -/
def windowProcedureReturns (result : ℤ) : Option (WindowState × WindowAnswer) :=
  match s.waiting with
  | [] => none
  | .destroying window :: waiting => some ({ s with waiting := waiting }.finishDestroy window)
  | .creating false topLevel parent window :: waiting =>
    let s := { s with waiting := waiting }
    if result = 0 then some (s.reject window, .handle none)
    else s.callNew true topLevel parent window
  | .creating true topLevel parent window :: waiting =>
    let s := { s with waiting := waiting }
    if result = -1 then some (s.reject window, .handle none)
    else some (s.accept topLevel parent window.slot)

/-! ### The other calls -/

def setParent (child newParent : WindowHandle) : WindowState × WindowAnswer :=
  match s.findWindowSlot child with
  | none => (s, .handle none)
  | some index =>
    let slot := s.slots index
    (s.setSlot index { slot with parent := (s.findWindowSlot newParent).map s.pointerTo },
      .handle (slot.parent.map WindowPointer.slot))

def setFocus (gui : Bool) (window : WindowHandle) : WindowState × WindowAnswer :=
  if gui = false then (s, .handle none)
  else match s.findWindowSlot window with
    | none => (s, .handle none)
    | some index =>
      if (s.slots index).isControl = false then (s, .handle none)
      else ({ s with focused := some index }, .handle s.focused)

def setCapture (gui : Bool) (window : WindowHandle) : WindowState × WindowAnswer :=
  if gui = false then (s, .handle none)
  else if window = .null then ({ s with captured := none }, .handle s.captured)
  else match s.findWindowSlot window with
    | none => (s, .handle s.captured)
    | some index => ({ s with captured := some index }, .handle s.captured)

def releaseCapture (gui : Bool) : WindowState × WindowAnswer :=
  if gui = false then (s, .truth false) else ({ s with captured := none }, .truth true)

/-- One thing that the guest does; nothing if a null pointer is called, or if no window procedure
is there to return. -/
def step : WindowCall → Option (WindowState × WindowAnswer)
  | .createWindow request => s.createWindow request
  | .destroyWindow window => some (s.destroyWindow window)
  | .setParent child newParent => some (s.setParent child newParent)
  | .setFocus gui window => some (s.setFocus gui window)
  | .setCapture gui window => some (s.setCapture gui window)
  | .releaseCapture gui => some (s.releaseCapture gui)
  | .windowProcedureReturns result => s.windowProcedureReturns result

/-! ### The walk upwards -/

/-- The loop of `GetWindowRect` over the parents, for at most `n` rounds: the position on the
desktop. -/
def windowOrigin : ℕ → Option WindowPointer → ℤ × ℤ → Option (ℤ × ℤ)
  | _, none, position => some position
  | 0, some _, _ => none
  | n + 1, some parent, (left, top) =>
    let slot := s.slots parent.slot
    windowOrigin n slot.parent (left + slot.x, top + slot.y)

/-- `GetWindowRect`, if its walk ends. -/
def getWindowRect (index : WindowIndex) : Option (ℤ × ℤ × ℤ × ℤ) :=
  let slot := s.slots index
  (s.windowOrigin kMaxGuestWindows slot.parent (slot.x, slot.y)).map fun (left, top) =>
    (left, top, left + slot.width, top + slot.height)

end WindowState

theorem used_of_findWindowSlot {s : WindowState} {w : WindowHandle} {i : WindowIndex}
    (h : s.findWindowSlot w = some i) : (s.slots i).used := by
  unfold WindowState.findWindowSlot at h
  split at h
  · split at h
    · next hu =>
      cases h
      exact hu
    · cases h
  · cases h

end TradutorLinux
