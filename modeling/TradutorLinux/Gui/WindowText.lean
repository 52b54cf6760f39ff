import TradutorLinux.Process.Unicode
import TradutorLinux.Util.Runs

/-!
# The text of a window

A slot has two strings, `text` and `window_title`.  The readers take the first unless it is
empty; an edit control changes the first alone.

## Main definitions

* `TextSlot` — the two strings of a window, and what decides who changes them.
* `TextSlot.step` — the calls, the messages and the keys that set the text.
* `TextState`

## Main results

* `text_reads_back`
-/

namespace TradutorLinux

open Process

/-- What the controls do with `WM_SETTEXT`: an edit control takes it, lists, tabs and trees let
nothing through to a procedure. -/
inductive TextKind
  | edit
  | items
  | other
deriving DecidableEq

/-- `WindowSlot`; `procedure` is the guest's window procedure, and tells whether it hands
`WM_SETTEXT` on to `DefWindowProcW` or to `DefWindowProcA`. -/
structure TextSlot where
  isControl : Bool
  kind : TextKind
  procedure : Option Bool
  text : ByteString
  windowTitle : ByteString

/-- A key in an edit control. -/
inductive EditKey
  | back
  | character (c : UInt8)

/-- What sets a text; a text has been copied from the guest, or could not be.  `misread` is what
a procedure of the other width finds in its place. -/
inductive TextAction
  | setWindowTextA (t : Option ByteString)
  | setWindowTextW (t : Option (List UInt16))
  | sendMessageA (t : Option ByteString) (misread : Option (List UInt16))
  | sendMessageW (t : Option (List UInt16)) (misread : Option (List UInt16))
    (narrow : Option ByteString)
  | key (k : EditKey)

namespace TextSlot

variable (s : TextSlot)

/-- `CreateWindowExA`: a control gets the name in both strings, a window of the desktop as its
title. -/
def create (isControl : Bool) (kind : TextKind) (procedure : Option Bool) (name : ByteString) :
    TextSlot :=
  ⟨isControl, kind, procedure, if isControl = true then name else [], name⟩

/-- `tl_SetWindowTextA`, also from `DefWindowProcA`. -/
def setWindowTextA (t : Option ByteString) : TextSlot :=
  match t with
  | some t => { s with text := t, windowTitle := t }
  | none => s

/-- `tl_SetWindowTextW`, also from `DefWindowProcW`; the copy of the UTF-8 has a limit as well. -/
def setWindowTextW (t : Option (List UInt16)) : TextSlot :=
  match t with
  | some t => if (wideToUtf8 t).length < 65535 then s.setWindowTextA (some (wideToUtf8 t)) else s
  | none => s

/-- `tl_SendMessageA` with `WM_SETTEXT`. -/
def sendMessageA (t : Option ByteString) (misread : Option (List UInt16)) : TextSlot :=
  if s.isControl = true ∧ s.kind = .items then s
  else if s.isControl = true ∧ s.kind = .edit then
    match t with
    | some t => { s with text := t }
    | none => s
  else match s.procedure with
    | some true => s.setWindowTextW misread
    | some false => s.setWindowTextA t
    | none => s

/-- `tl_SendMessageW` with `WM_SETTEXT`: a control gets UTF-8. -/
def sendMessageW (t misread : Option (List UInt16)) (narrow : Option ByteString) : TextSlot :=
  if s.isControl = true then
    match t with
    | some t =>
      s.sendMessageA (if (wideToUtf8 t).length < 65535 then some (wideToUtf8 t) else none) misread
    | none => s
  else match s.procedure with
    | some true => s.setWindowTextW t
    | some false => s.setWindowTextA narrow
    | none => s

/-- What a key makes of the text. -/
def typed (k : EditKey) (t : ByteString) : ByteString :=
  match k with
  | .back => t.dropLast
  -- a signed `char`: from 0x80 on it is negative
  | .character c => if 0x20 ≤ c ∧ c < 0x7F then t ++ [c] else t

/-- `handle_control_key`, with the focus. -/
def controlKey (k : EditKey) : TextSlot :=
  if s.isControl = true ∧ s.kind = .edit then { s with text := typed k s.text } else s

def step : TextAction → TextSlot
  | .setWindowTextA t => s.setWindowTextA t
  | .setWindowTextW t => s.setWindowTextW t
  | .sendMessageA t misread => s.sendMessageA t misread
  | .sendMessageW t misread narrow => s.sendMessageW t misread narrow
  | .key k => s.controlKey k

/-! ### The readers -/

/-- What all of them read. -/
def source : ByteString := if s.text ≠ [] then s.text else s.windowTitle

/-- `tl_GetWindowTextA` and `tl_GetWindowTextW`, with a capacity that is positive. -/
def getWindowTextA (capacity : ℕ) : ByteString := s.source.take (capacity - 1)

def getWindowTextW (capacity : ℕ) : List UInt16 := (utf8ToWide s.source).take (capacity - 1)

def getWindowTextLengthA : ℕ := s.source.length

def getWindowTextLengthW : ℕ := (utf8ToWide s.source).length

end TextSlot

/-! ### What is to be read -/

/-- A text as bytes and as units. -/
structure SpokenText where
  bytes : ByteString
  units : List UInt16

/-- A text that was given as bytes, or as units. -/
def SpokenText.ofBytes (t : ByteString) : SpokenText := ⟨t, utf8ToWide t⟩

def SpokenText.ofUnits (t : List UInt16) : SpokenText := ⟨wideToUtf8 t, t⟩

/-- A window, and the text that was last set; nothing in the source holds that one. -/
structure TextState where
  slot : TextSlot
  last : SpokenText

namespace TextState

variable (s : TextState)

/-- The text after an action that sets one; units are refused when their bytes are too many. -/
def lastAfter : TextAction → SpokenText
  | .setWindowTextA (some t) | .sendMessageA (some t) _ => .ofBytes t
  | .setWindowTextW (some t) | .sendMessageW (some t) _ _ =>
    if (wideToUtf8 t).length < 65535 then .ofUnits t else s.last
  | .key k =>
    if s.slot.isControl = true ∧ s.slot.kind = .edit then
      .ofBytes (TextSlot.typed k s.last.bytes)
    else s.last
  | _ => s.last

def step (a : TextAction) : TextState := ⟨s.slot.step a, s.lastAfter a⟩

/-- The four readers give the text that was last set, cut to the capacity. -/
structure ReadsBack : Prop where
  narrow : ∀ n > 0, s.slot.getWindowTextA n = s.last.bytes.take (n - 1)
  wide : ∀ n > 0, s.slot.getWindowTextW n = s.last.units.take (n - 1)
  lengthA : s.slot.getWindowTextLengthA = s.last.bytes.length
  lengthW : s.slot.getWindowTextLengthW = s.last.units.length

end TextState

/-! ### The condition -/

namespace TextAction

/-- Units that come back from UTF-8. -/
def Comes (t : List UInt16) : Prop := utf8ToWide (wideToUtf8 t) = t

/-- A message is delivered to a window: an edit control has no title if the text is empty, and
another window has a procedure that hands the message on, in the width that it comes in. -/
def Reaches (s : TextSlot) (wide : Bool) (t : ByteString) : Prop :=
  if s.isControl = true ∧ s.kind = .edit then t ≠ [] ∨ s.windowTitle = []
  else (s.isControl = true → s.kind ≠ .items) ∧ s.procedure = some wide

/-- The condition on a step: units are well formed, messages are delivered, and a key that makes
a text empty finds no title. -/
def Delivered (s : TextState) : TextAction → Prop
  | setWindowTextW (some t) => Comes t
  | sendMessageA (some t) _ => Reaches s.slot false t
  | sendMessageW (some t) _ _ => Comes t ∧ Reaches s.slot (!s.slot.isControl) (wideToUtf8 t)
  | sendMessageA none misread => misread = none ∨ s.slot.procedure ≠ some true
  | sendMessageW none _ narrow => narrow = none ∨ s.slot.procedure ≠ some false
  | key k => s.slot.isControl = true ∧ s.slot.kind = .edit →
    TextSlot.typed k s.slot.text ≠ [] ∨ s.slot.windowTitle = []
  | _ => True

end TextAction

namespace TextState

variable {s : TextState} {a : TextAction}

/-- What the steps keep: the readers look at the last text, which is the first string of an edit
control. -/
structure Sound (s : TextState) : Prop where
  source : s.slot.source = s.last.bytes
  units : utf8ToWide s.last.bytes = s.last.units
  edit : s.slot.isControl = true ∧ s.slot.kind = .edit → s.slot.text = s.last.bytes

theorem Sound.readsBack (h : Sound s) : s.ReadsBack := by
  constructor
  · intro n _
    rw [TextSlot.getWindowTextA, h.source]
  · intro n _
    rw [TextSlot.getWindowTextW, h.source, h.units]
  · rw [TextSlot.getWindowTextLengthA, h.source]
  · rw [TextSlot.getWindowTextLengthW, h.source, h.units]

theorem sound_both (s : TextSlot) {t : SpokenText} (ht : utf8ToWide t.bytes = t.units) :
    Sound ⟨s.setWindowTextA (some t.bytes), t⟩ := by
  refine ⟨?_, ht, fun _ => rfl⟩
  exact ite_self _

theorem sound_first {s : TextSlot} {t : SpokenText} (ht : utf8ToWide t.bytes = t.units)
    (h : t.bytes ≠ [] ∨ s.windowTitle = []) : Sound ⟨{ s with text := t.bytes }, t⟩ := by
  refine ⟨?_, ht, fun _ => rfl⟩
  rw [TextSlot.source]
  split_ifs with h'
  · rfl
  · exact (h.resolve_left h').trans (not_not.1 h').symm

theorem sound_sendMessageA {s : TextSlot} {t : SpokenText} {m : Option (List UInt16)}
    (ht : utf8ToWide t.bytes = t.units) (h : TextAction.Reaches s false t.bytes) :
    Sound ⟨s.sendMessageA (some t.bytes) m, t⟩ := by
  unfold TextAction.Reaches at h
  unfold TextSlot.sendMessageA
  split_ifs at h with he
  · rw [if_neg (by simp [he.2]), if_pos he]
    exact sound_first ht h
  · rw [if_neg fun hk => h.1 hk.1 hk.2, if_neg he, h.2]
    exact sound_both s ht

theorem sendMessageA_none {s : TextSlot} {m : Option (List UInt16)}
    (h : (s.isControl ∧ s.kind = .edit) ∨ m = none ∨ s.procedure ≠ some true) :
    s.sendMessageA none m = s := by
  unfold TextSlot.sendMessageA
  split_ifs with hk he
  · rfl
  · rfl
  · match hp : s.procedure with
    | none => rfl
    | some false => rfl
    | some true =>
      obtain rfl := (h.resolve_left he).resolve_right fun h => h hp
      rfl

theorem sound_setWindowTextW (h : Sound s) {t : List UInt16} (ht : TextAction.Comes t) :
    Sound ⟨s.slot.setWindowTextW (some t),
      if (wideToUtf8 t).length < 65535 then .ofUnits t else s.last⟩ := by
  simp only [TextSlot.setWindowTextW]
  split_ifs
  · exact sound_both s.slot (t := .ofUnits t) ht
  · exact h

/-- **Every step that is delivered sets what the readers look at.** -/
theorem sound_step (h : Sound s) (ha : a.Delivered s) : Sound (s.step a) := by
  cases a with
  | setWindowTextA t =>
    cases t with
    | none => exact h
    | some t => exact sound_both s.slot (t := .ofBytes t) rfl
  | setWindowTextW t =>
    cases t with
    | none => exact h
    | some t => exact sound_setWindowTextW h ha
  | sendMessageA t m =>
    cases t with
    | none =>
      simp only [step, TextSlot.step, sendMessageA_none (.inr ha)]
      exact h
    | some t => exact sound_sendMessageA (t := .ofBytes t) rfl ha
  | sendMessageW t m n =>
    simp only [step, TextSlot.step, TextSlot.sendMessageW]
    split_ifs with hc
    · cases t with
      | none => exact h
      | some t =>
        obtain ⟨ht, hr⟩ := ha
        rw [hc] at hr
        simp only [lastAfter]
        split_ifs
        · exact sound_sendMessageA (t := .ofUnits t) ht hr
        · rw [sendMessageA_none]
          · exact h
          · by_cases he : s.slot.isControl ∧ s.slot.kind = .edit
            · exact .inl he
            · rw [TextAction.Reaches, if_neg he] at hr
              exact .inr (.inr (by simp [hr.2]))
    · have he : ¬(s.slot.isControl ∧ s.slot.kind = .edit) := fun he => hc he.1
      cases t with
      | none =>
        match hp : s.slot.procedure with
        | none => exact h
        | some true => exact h
        | some false =>
          obtain rfl := ha.resolve_right fun h => h hp
          exact h
      | some t =>
        obtain ⟨ht, hr⟩ := ha
        rw [Bool.eq_false_of_not_eq_true hc, TextAction.Reaches, if_neg he] at hr
        simp only [hr.2]
        exact sound_setWindowTextW h ht
  | key k =>
    simp only [step, TextSlot.step, lastAfter, TextSlot.controlKey]
    split_ifs with he
    · have hk := ha he
      rw [h.edit he] at hk ⊢
      exact sound_first (t := .ofBytes _) rfl hk
    · exact h

/-- **The text reads back in the runs whose steps are delivered.** -/
theorem text_reads_back (isControl : Bool) (kind : TextKind) (procedure : Option Bool)
    (name : SpokenText) {s : TextState} (hn : utf8ToWide name.bytes = name.units)
    (h : Runs (fun s a => some (step s a)) (fun s a => a.Delivered s)
      ⟨.create isControl kind procedure name.bytes, name⟩ s) : s.ReadsBack := by
  refine Sound.readsBack (h.keeps (fun t a t' ht ha hs => ?_) ?_)
  · cases hs
    exact sound_step ht ha
  · cases isControl with
    | true => exact ⟨ite_self _, hn, fun _ => rfl⟩
    | false => exact ⟨rfl, hn, fun he => absurd he.1 Bool.false_ne_true⟩

/-- An edit control that gets a message and three keys, of which it refuses one. -/
theorem text_reads_back_edit :
    ((((⟨.create true .edit none [], .ofBytes []⟩ : TextState).step
      (.sendMessageA (some [65]) none)).step (.key (.character 66))).step
      (.key (.character 0xE9))).step (.key .back) |>.ReadsBack :=
  text_reads_back true .edit none (.ofBytes []) rfl
    (.head (a := .sendMessageA (some [65]) none) (Or.inr rfl) rfl <|
      .head (a := .key (.character 66)) (fun _ => .inr rfl) rfl <|
      .head (a := .key (.character 0xE9)) (fun _ => .inr rfl) rfl <|
      .head (a := .key .back) (fun _ => .inr rfl) rfl (.refl _))

/-- **The title of an edit control comes back when its text is made empty.** -/
theorem not_text_reads_back : ¬∀ (isControl : Bool) (kind : TextKind) (procedure : Option Bool)
    (name : ByteString) (s : TextState), Runs (fun s a => some (step s a)) Free
      ⟨.create isControl kind procedure name, .ofBytes name⟩ s → s.ReadsBack := by
  intro h
  have := (h true .edit none [65] _ (.head (a := .sendMessageA (some []) none) trivial rfl
    (.refl _))).lengthA
  revert this
  decide

end TextState

end TradutorLinux
