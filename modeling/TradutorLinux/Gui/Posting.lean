import Mathlib.Data.List.TakeWhile
import TradutorLinux.Gui.Retrieving
import TradutorLinux.Util.Mailboxes

/-!
# Posted messages

The messages that the GUI thread posts wait at their windows, and those of other
threads in a queue of their own.  Neither `GetMessage` nor `PeekMessage` compares
the two, and both look at the windows by the number of the slot: posted messages
come once, but not in the order in which they were posted.

## Main definitions

* `Posting`, `PostingCall`
* `PostsAsPosted` — what is to be true of the messages retrieved.
* `PostsKept` — what is true of them.

## Main results

* `posts_kept`
-/

namespace TradutorLinux

open List Function Option WindowState Prod MessageState

/-! ### Runs -/

/-- A message that has been posted, by the GUI thread or by another one, and the window that its
slot held. -/
structure PostedMessage where
  gui : Bool
  window : WindowPointer
  message : ℕ
  wparam : ℕ
  lparam : ℤ
deriving DecidableEq

def PostedMessage.msg (post : PostedMessage) : GuestMsg :=
  { hwnd := some post.window.slot, message := post.message, wparam := post.wparam,
    lparam := post.lparam }

/-- A posted message that has been retrieved, and the window that its slot held by then. -/
structure Retrieval where
  number : ℕ
  msg : GuestMsg
  window : Option WindowPointer
deriving DecidableEq

/-- A state, with the messages that have been posted and retrieved so far. -/
structure Posting (κ : Type) where
  state : MessageState κ
  posts : List PostedMessage := []
  retrieved : List Retrieval := []

/-- What happens, one after the other.  Retrievals have no window filter. -/
inductive PostingCall
  | postMessage (gui : Bool) (window : WindowHandle) (message wparam : ℕ) (lparam : ℤ)
  | getMessage (now : ℕ)
  | peekMessage (now : ℕ) (remove : Bool)
  | window (call : WindowCall)
  /-- A control puts a message into the queue of a window. -/
  | queueMessage (index : WindowIndex) (message wparam : ℕ) (lparam : ℤ)
  /-- A native message or a character comes to wait at a window, or goes. -/
  | pend (index : WindowIndex) (native : Option PendingNativeMessage) (character : Option GuestMsg)
  | postQuit (code : ℕ)

namespace Posting

variable {κ : Type} (p : Posting κ)

def post (gui : Bool) (message wparam : ℕ) (lparam : ℤ)
    (posted : MessageState κ × Option WindowIndex) : Posting κ :=
  { p with
      state := posted.1
      posts := match posted.2 with
        | some index =>
          p.posts ++ [⟨gui, p.state.windows.pointerTo index, message, wparam, lparam⟩]
        | none => p.posts }

def retrieve (found : MessageState κ × Option QueuedMessage) : Posting κ :=
  { p with
      state := found.1
      retrieved := match found.2 with
        | some ⟨msg, some number⟩ =>
          p.retrieved ++ [⟨number, msg, msg.hwnd.map p.state.windows.pointerTo⟩]
        | _ => p.retrieved }

def step : PostingCall → Option (Posting κ)
  | .postMessage gui window message wparam lparam =>
    some (p.post gui message wparam lparam (p.state.postMessage gui window message wparam lparam))
  | .getMessage now => some (p.retrieve (p.state.getWaiting now .null))
  | .peekMessage now remove =>
    let found := p.state.peekWaiting remove now .null
    some (if remove = true then p.retrieve found else { p with state := found.1 })
  | .window call => (p.state.windows.step call).map fun (windows, _) =>
    { p with state := p.state.afterWindows windows }
  | .queueMessage index message wparam lparam =>
    some { p with state := p.state.queueWindowMessage index message wparam lparam none }
  | .pend index native character =>
    some { p with state :=
      { p.state.setSlot index { p.state.slots index with pending := character } with
        pendingNative := update p.state.pendingNative index native } }
  | .postQuit code =>
    some { p with state := { p.state with quitRequested := true, quitCode := code } }

def run (calls : List PostingCall) : Option (Posting κ) := calls.foldlM step p

end Posting

/-! ### What is to be true, and what is true -/

def WindowState.Alive (w : WindowState) (window : WindowPointer) : Prop :=
  (w.slots window.slot).used = true ∧ (w.slots window.slot).serial = window.serial

def MessageState.Waits {κ : Type} (s : MessageState κ) (n : ℕ) : Prop :=
  (∃ i, ∃ queued ∈ (s.slots i).queuedMessages, queued.post = some n) ∨
    ∃ message ∈ s.crossThread, message.post = n

variable {κ : Type} {p p' : Posting κ}

/-- A posted message that has not been retrieved waits, or its window is gone. -/
def NoneMissing (p : Posting κ) : Prop :=
  ∀ n post, p.posts[n]? = some post → n ∈ p.retrieved.map Retrieval.number ∨ p.state.Waits n ∨
    ¬ p.state.windows.Alive post.window

/-- Posted messages come in the order in which they were posted, and at the windows that they were
posted to. -/
structure PostsAsPosted (p : Posting κ) : Prop where
  order : (p.retrieved.map Retrieval.number).Pairwise (· < ·)
  window : ∀ r ∈ p.retrieved, ∃ post, p.posts[r.number]? = some post ∧ r.msg = post.msg ∧
    r.window = some post.window
  missing : NoneMissing p

/-- A later message may come before an earlier one if it was posted by another thread than that, or
if the GUI thread posted both and the slot of its window is before the slot of the other. -/
def Overtakes (posts : List PostedMessage) (later earlier : ℕ) : Prop :=
  ∃ x y, posts[later]? = some x ∧ posts[earlier]? = some y ∧
    (x.gui ≠ y.gui ∨ x.gui = true ∧ y.gui = true ∧ x.window.slot < y.window.slot)

/-- Posted messages come once, with the handle that they were posted to; those of the GUI thread at
the very window; in order, but for those that overtake. -/
structure PostsKept (p : Posting κ) : Prop where
  once : (p.retrieved.map Retrieval.number).Nodup
  order : (p.retrieved.map Retrieval.number).Pairwise fun a b => a < b ∨ Overtakes p.posts a b
  window : ∀ r ∈ p.retrieved, ∃ post, p.posts[r.number]? = some post ∧ r.msg = post.msg ∧
    (post.gui = true → r.window = some post.window)
  missing : NoneMissing p

/-! ### Windows stay or go -/

/-- A window that is there afterwards was there before, or is new. -/
structure WindowState.Evolves (w w' : WindowState) : Prop where
  allocated : w.allocated ≤ w'.allocated
  serials : (∀ i, (w.slots i).serial ≤ w.allocated) → ∀ i, (w'.slots i).serial ≤ w'.allocated
  alive : ∀ i, (w'.slots i).used = true →
    ((w.slots i).used = true ∧ (w'.slots i).serial = (w.slots i).serial) ∨
      w.allocated < (w'.slots i).serial

section Evolves

variable {w w' w'' : WindowState} {i : WindowIndex}

theorem evolves_of_slots (hs : w'.slots = w.slots) (ha : w'.allocated = w.allocated) :
    w.Evolves w' where
  allocated := le_of_eq ha.symm
  serials h i := by
    rw [hs, ha]
    exact h i
  alive i hi := by
    rw [hs] at hi ⊢
    exact .inl ⟨hi, rfl⟩

theorem WindowState.Evolves.trans (h : w.Evolves w') (h' : w'.Evolves w'') : w.Evolves w'' where
  allocated := h.allocated.trans h'.allocated
  serials hw := h'.serials (h.serials hw)
  alive i hi := by
    rcases h'.alive i hi with ⟨hu, hs⟩ | hn
    · rw [hs]
      exact h.alive i hu
    · exact .inr (lt_of_le_of_lt h.allocated hn)

theorem WindowState.Evolves.alive_of (h : w.Evolves w') {window : WindowPointer}
    (he : window.serial ≤ w.allocated) (ha : w'.Alive window) : w.Alive window := by
  rcases h.alive _ ha.1 with ⟨hu, hs⟩ | hn
  · exact ⟨hu, hs.symm.trans ha.2⟩
  · rw [ha.2] at hn
    exact absurd hn (not_lt.2 he)

theorem evolves_setSlot {slot : WindowSlot} (hu : slot.used → (w.slots i).used)
    (hr : slot.serial = (w.slots i).serial ∨ slot = {}) : w.Evolves (w.setSlot i slot) := by
  have hs : (w.setSlot i slot).slots i = slot := update_self _ _ _
  have ho : ∀ j, j ≠ i → (w.setSlot i slot).slots j = w.slots j := fun j hj => update_of_ne hj _ _
  refine { allocated := le_refl _, serials := ?_, alive := ?_ }
  · intro h j
    by_cases hj : j = i
    · rw [hj, hs]
      rcases hr with hr | he
      · rw [hr]
        exact h i
      · rw [he]
        exact Nat.zero_le _
    · rw [ho j hj]
      exact h j
  · intro j hj
    by_cases hi : j = i
    · rw [hi, hs] at hj ⊢
      rcases hr with hr | he
      · exact .inl ⟨hu hj, hr⟩
      · rw [he] at hj
        cases hj
    · rw [ho j hi] at hj ⊢
      exact .inl ⟨hj, rfl⟩

theorem evolves_takeSlot (s : WindowSlot) :
    w.Evolves ((w.takeSlot i s).registerWindowHandle i) := by
  have hr : (w.takeSlot i s).Evolves ((w.takeSlot i s).registerWindowHandle i) := by
    unfold registerWindowHandle
    split <;> exact evolves_of_slots rfl rfl
  refine WindowState.Evolves.trans ?_ hr
  have hs : (w.takeSlot i s).slots i = { s with serial := w.allocated + 1 } := update_self _ _ _
  have ho : ∀ j, j ≠ i → (w.takeSlot i s).slots j = w.slots j := fun j hj => update_of_ne hj _ _
  refine { allocated := Nat.le_succ _, serials := ?_, alive := ?_ }
  · intro h j
    show ((w.takeSlot i s).slots j).serial ≤ w.allocated + 1
    by_cases hj : j = i
    · exact le_of_eq (by rw [hj, hs])
    · rw [ho j hj]
      exact (h j).trans (Nat.le_succ _)
  · intro j hj
    by_cases hi : j = i
    · rw [hi, hs]
      exact .inr (Nat.lt_succ_self _)
    · rw [ho j hi] at hj ⊢
      exact .inl ⟨hj, rfl⟩

variable {a : WindowAnswer}

theorem evolves_callNew {c tl : Bool} {pa : Option WindowIndex} {wi : WindowPointer}
    (hs : w.callNew c tl pa wi = some (w', a)) : w.Evolves w' := by
  unfold callNew at hs
  split at hs
  · cases hs
    exact evolves_of_slots rfl rfl
  · cases hs

theorem evolves_accept (tl : Bool) (pa : Option WindowIndex) (ix : WindowIndex) :
    w.Evolves (w.accept tl pa ix).1 := by
  unfold WindowState.accept
  split <;> exact evolves_of_slots rfl rfl

theorem evolves_createWindow {r : CreateWindowRequest}
    (hs : w.createWindow r = some (w', a)) : w.Evolves w' := by
  have ha : w.Evolves w := evolves_of_slots rfl rfl
  dsimp only [WindowState.createWindow] at hs
  split at hs
  · cases hs
    exact ha
  split at hs
  · cases hs
    exact ha
  split at hs
  · cases hs
    exact ha
  next ix _ =>
  split at hs
  · split at hs
    · cases hs
      exact ha
    · split at hs
      · exact (evolves_takeSlot _).trans (evolves_callNew hs)
      · obtain rfl := congrArg fst (some.inj hs)
        exact (evolves_takeSlot _).trans (evolves_accept _ _ _)
  · split at hs
    · cases hs
      exact ha
    · split at hs
      · obtain rfl := congrArg fst (some.inj hs)
        exact (evolves_takeSlot _).trans (evolves_accept _ _ _)
      · exact (evolves_takeSlot _).trans (evolves_callNew hs)

theorem evolves_freeChildren : w.Evolves (w.freeChildren i) := by
  have hl : ∀ (l : List WindowIndex) (w : WindowState), w.Evolves (l.foldl (fun s ch =>
      if (s.slots ch).used ∧ (s.slots ch).parent.map WindowPointer.slot = some i then
        (if (s.unregisterWindowHandle ch).focused = some ch then
          { s.unregisterWindowHandle ch with focused := none }
        else s.unregisterWindowHandle ch).setSlot ch {}
      else s) w) := by
    intro l
    induction l with
    | nil => exact fun w => evolves_of_slots rfl rfl
    | cons ch l ih =>
      intro w
      rw [foldl_cons]
      refine WindowState.Evolves.trans ?_ (ih _)
      split
      · have ht : w.Evolves (if (w.unregisterWindowHandle ch).focused = some ch then
            { w.unregisterWindowHandle ch with focused := none }
          else w.unregisterWindowHandle ch) := by
          split <;> exact evolves_of_slots rfl rfl
        exact ht.trans (evolves_setSlot (nofun) (.inr rfl))
      · exact evolves_of_slots rfl rfl
  exact hl _ w

theorem evolves_destroyWindow (wi : WindowHandle) : w.Evolves (w.destroyWindow wi).1 := by
  have hl : ∀ (t : WindowState) (i : WindowIndex), t.Evolves (t.freeChildren i) := fun _ _ =>
    evolves_freeChildren
  unfold WindowState.destroyWindow
  generalize freeChildren = loop at hl
  cases hw : w.findWindowSlot wi with
  | none => exact evolves_of_slots rfl rfl
  | some i =>
    have hu : w.Evolves (w.unregisterWindowHandle i) := evolves_of_slots rfl rfl
    dsimp only
    split
    · exact hu
    have hm : (w.unregisterWindowHandle i).Evolves ((w.unregisterWindowHandle i).setSlot i
        { (w.unregisterWindowHandle i).slots i with destroying := true }) :=
      evolves_setSlot id (.inl rfl)
    have hc := (hu.trans hm).trans (hl _ i)
    generalize loop _ i = t at hc ⊢
    have hf : w.Evolves (if t.focused = some i then { t with focused := none } else t) := by
      refine hc.trans ?_
      split <;> exact evolves_of_slots rfl rfl
    generalize (if t.focused = some i then { t with focused := none } else t) = u at hf ⊢
    split
    · exact hf.trans (evolves_of_slots rfl rfl)
    · exact hf.trans (evolves_setSlot (nofun) (.inr rfl))

theorem evolves_windowProcedureReturns {r : ℤ}
    (hs : w.windowProcedureReturns r = some (w', a)) : w.Evolves w' := by
  have hp : ∀ wa, w.Evolves { w with waiting := wa } := fun _ => evolves_of_slots rfl rfl
  have hr : ∀ (t : WindowState) (wi : WindowPointer), t.Evolves (t.reject wi) := by
    intro t wi
    have hu : t.Evolves (t.unregisterWindowHandle wi.slot) := evolves_of_slots rfl rfl
    exact hu.trans (evolves_setSlot (nofun) (.inr rfl))
  unfold WindowState.windowProcedureReturns at hs
  split at hs
  · cases hs
  · cases hs
    exact (hp _).trans (evolves_setSlot (nofun) (.inr rfl))
  · split at hs
    · cases hs
      exact (hp _).trans (hr _ _)
    · exact (hp _).trans (evolves_callNew hs)
  · split at hs
    · cases hs
      exact (hp _).trans (hr _ _)
    · obtain rfl := congrArg fst (some.inj hs)
      exact (hp _).trans (evolves_accept _ _ _)

theorem evolves_window_step {c : WindowCall} (hs : w.step c = some (w', a)) : w.Evolves w' := by
  cases c with
  | createWindow re => exact evolves_createWindow hs
  | destroyWindow wi =>
    obtain rfl := congrArg fst (some.inj hs)
    exact evolves_destroyWindow wi
  | setParent ch np =>
    obtain rfl := congrArg fst (some.inj hs)
    unfold WindowState.setParent
    split
    · exact evolves_of_slots rfl rfl
    · exact evolves_setSlot id (.inl rfl)
  | setFocus g wi =>
    obtain rfl := congrArg fst (some.inj hs)
    unfold WindowState.setFocus
    repeat' split
    all_goals exact evolves_of_slots rfl rfl
  | setCapture g wi =>
    obtain rfl := congrArg fst (some.inj hs)
    unfold WindowState.setCapture
    repeat' split
    all_goals exact evolves_of_slots rfl rfl
  | releaseCapture g =>
    obtain rfl := congrArg fst (some.inj hs)
    unfold WindowState.releaseCapture
    split <;> exact evolves_of_slots rfl rfl
  | windowProcedureReturns r => exact evolves_windowProcedureReturns hs

end Evolves

/-! ### Where posted messages wait -/

/-- The box that a posted message waits in: the queue of its window, or the one for other
threads. -/
def PostedMessage.box (post : PostedMessage) : Option WindowIndex :=
  if post.gui = true then some post.window.slot else none

/-- The posted messages that wait in a box, with their numbers. -/
def MessageState.box {κ : Type} (s : MessageState κ) : Option WindowIndex → List (GuestMsg × ℕ)
  | some i => (s.slots i).queuedMessages.filterMap fun queued =>
    queued.post.map fun n => (queued.msg, n)
  | none => s.crossThread.map fun message => (message.msg, message.post)

theorem box_some (s : MessageState κ) (i : WindowIndex) : s.box (some i) =
    (s.slots i).queuedMessages.filterMap fun q => q.post.map fun n => (q.msg, n) :=
  rfl

theorem box_none (s : MessageState κ) :
    s.box none = s.crossThread.map fun m => (m.msg, m.post) := rfl

/-- The windows are looked at by the number of the slot. -/
def SlotBefore : Option WindowIndex → Option WindowIndex → Prop
  | some i, some j => i < j
  | _, _ => False

/-- The boxes, and what has been sent to them and taken from them. -/
def Posting.mail (p : Posting κ) : Mailboxes (Option WindowIndex) where
  sent := p.posts.map PostedMessage.box
  waiting k := (p.state.box k).map snd
  taken := p.retrieved.map Retrieval.number

theorem waits_iff (s : MessageState κ) (n : ℕ) : s.Waits n ↔ ∃ k, ∃ e ∈ s.box k, e.2 = n := by
  constructor
  · rintro (⟨i, q, hq, hp⟩ | ⟨m, hm, hp⟩)
    · refine ⟨some i, (q.msg, n), mem_filterMap.2 ⟨q, hq, ?_⟩, rfl⟩
      rw [hp]
      rfl
    · exact ⟨none, (m.msg, m.post), mem_map.2 ⟨m, hm, rfl⟩, hp⟩
  · rintro ⟨k, e, he, rfl⟩
    cases k with
    | some i =>
      obtain ⟨q, hq, hs⟩ := mem_filterMap.1 he
      obtain ⟨n, hp, rfl⟩ := map_eq_some_iff.1 hs
      exact .inl ⟨i, q, hq, hp⟩
    | none =>
      obtain ⟨m, hm, rfl⟩ := mem_map.1 he
      exact .inr ⟨m, hm, rfl⟩

/-- What holds in every run. -/
structure PostingSound (p : Posting κ) : Prop where
  mail : Mailboxes.Sound SlotBefore p.mail
  count : p.state.posted = p.posts.length
  serials : ∀ i, (p.state.windows.slots i).serial ≤ p.state.windows.allocated
  posts : ∀ post ∈ p.posts, post.window.serial ≤ p.state.windows.allocated
  boxes : ∀ k, ∀ e ∈ p.state.box k, ∃ post, p.posts[e.2]? = some post ∧ post.box = k ∧
    e.1 = post.msg ∧ (post.gui = true → p.state.windows.Alive post.window)
  window : ∀ r ∈ p.retrieved, ∃ post, p.posts[r.number]? = some post ∧ r.msg = post.msg ∧
    (post.gui = true → r.window = some post.window)
  missing : NoneMissing p

theorem box_of_gui {po : PostedMessage} (h : po.gui) : po.box = some po.window.slot := if_pos h

theorem overtakes_of_overtaken {a b : ℕ} (h : Mailboxes.Overtaken SlotBefore p.mail a b) :
    Overtakes p.posts a b := by
  obtain ⟨j, k, ha, hb, hn, hnot⟩ := h
  have ha' : (p.posts.map PostedMessage.box)[a]? = some j := ha
  have hb' : (p.posts.map PostedMessage.box)[b]? = some k := hb
  rw [getElem?_map] at ha' hb'
  obtain ⟨x, hx, rfl⟩ := map_eq_some_iff.1 ha'
  obtain ⟨y, hy, rfl⟩ := map_eq_some_iff.1 hb'
  refine ⟨x, y, hx, hy, ?_⟩
  cases hxg : x.gui with
  | false =>
    cases hg : y.gui with
    | false =>
      -- both wait in the queue for other threads
      unfold PostedMessage.box at hn
      rw [hxg, hg] at hn
      exact absurd rfl hn
    | true => exact .inl Bool.false_ne_true
  | true =>
    cases hg : y.gui with
    | false => exact .inl (Ne.symm Bool.false_ne_true)
    | true =>
      rw [box_of_gui hxg, box_of_gui hg] at hn hnot
      refine .inr ⟨rfl, rfl, ?_⟩
      rcases lt_trichotomy x.window.slot y.window.slot with hl | heq | ht
      · exact hl
      · exact absurd (congrArg some heq.symm) hn
      · exact absurd ht hnot

theorem postsKept_of_sound (h : PostingSound p) : PostsKept p where
  once := h.mail.nodup
  order := h.mail.order.imp fun ha => ha.imp_right overtakes_of_overtaken
  window := h.window
  missing := h.missing

theorem sound_no_posts (r : κ) : PostingSound { state := { rest := r } : Posting κ } where
  mail := by
    have hm : Posting.mail { state := { rest := r } : Posting κ } = {} := by
      unfold Posting.mail
      congr 1
      funext k
      cases k <;> rfl
    rw [hm]
    exact Mailboxes.sound_empty
  count := rfl
  serials _ := Nat.zero_le _
  posts _ hp := by cases hp
  boxes k e he := by cases k <;> cases he
  window _ hr := by cases hr
  missing n post hp := by cases hp

/-! ### A message is posted, lost or retrieved -/

variable {s : MessageState κ}

theorem sound_less (h : PostingSound p)
    (hv : p.state.windows.Evolves s.windows) (ho : s.posted = p.state.posted)
    (hl : ∀ k, (s.box k).Sublist (p.state.box k))
    (hk : ∀ i, ∀ e ∈ s.box (some i), (s.windows.slots i).used ∧
      (s.windows.slots i).serial = (p.state.windows.slots i).serial)
    (hlo : ∀ k, ∀ e ∈ p.state.box k, e ∈ s.box k ∨
      ∀ po, p.posts[e.2]? = some po → ¬ s.windows.Alive po.window) :
    PostingSound { p with state := s } where
  mail := Mailboxes.sound_lose h.mail fun k => (hl k).map snd
  count := ho.trans h.count
  serials := hv.serials h.serials
  posts po hp := (h.posts po hp).trans hv.allocated
  boxes k e he := by
    obtain ⟨po, hp, hb, hm, ha⟩ := h.boxes k e ((hl k).subset he)
    refine ⟨po, hp, hb, hm, fun hi => ?_⟩
    have hs := box_of_gui hi
    rw [hb] at hs
    subst hs
    obtain ⟨hu, hr⟩ := hk _ e he
    exact ⟨hu, hr.trans (ha hi).2⟩
  window := h.window
  missing n po hp := by
    rcases h.missing n po hp with ht | hw | hg
    · exact .inl ht
    · obtain ⟨k, e, he, rfl⟩ := (waits_iff _ _).1 hw
      rcases hlo k e he with hst | hg
      · exact .inr (.inl ((waits_iff _ _).2 ⟨k, e, hst, rfl⟩))
      · exact .inr (.inr (hg po hp))
    · refine .inr (.inr fun ha => hg (hv.alive_of ?_ ha))
      exact h.posts po (mem_of_getElem? hp)

theorem sound_same (h : PostingSound p)
    (hw : s.windows = p.state.windows) (hp : s.posted = p.state.posted)
    (hs : ∀ k, s.box k = p.state.box k) : PostingSound { p with state := s } := by
  refine sound_less h (evolves_of_slots (by rw [hw]) (by rw [hw])) hp ?_ ?_ ?_
  · intro k
    rw [hs]
  · intro i e he
    rw [hs] at he
    obtain ⟨po, -, hb, -, ha⟩ := h.boxes _ e he
    have hg : po.gui := by
      cases hg : po.gui with
      | true => rfl
      | false =>
        unfold PostedMessage.box at hb
        rw [hg] at hb
        cases hb
    have hl := (box_of_gui hg).symm.trans hb
    rw [hw]
    exact ⟨some.inj hl ▸ (ha hg).1, rfl⟩
  · intro k e he
    rw [hs]
    exact .inl he

theorem sound_retrieve (h : PostingSound p)
    (hi : s.windows = p.state.windows) (hpo : s.posted = p.state.posted)
    {k : Option WindowIndex} {ms : GuestMsg} {n : ℕ} {re : List (GuestMsg × ℕ)}
    (hb : p.state.box k = (ms, n) :: re) (hs : s.box k = re)
    (ho : ∀ j, j ≠ k → s.box j = p.state.box j) (hf : ∀ j, SlotBefore j k → p.state.box j = []) :
    PostingSound { p with
      state := s
      retrieved := p.retrieved ++ [⟨n, ms, ms.hwnd.map p.state.windows.pointerTo⟩] } := by
  have hl : ∀ j, (s.box j).Sublist (p.state.box j) := by
    intro j
    by_cases hj : j = k
    · rw [hj, hs, hb]
      exact sublist_cons_self _ _
    · rw [ho j hj]
  have hm : Mailboxes.Sound SlotBefore (p.mail.take k n (re.map snd)) := by
    refine Mailboxes.sound_take h.mail ?_ ?_
    · show (p.state.box k).map snd = n :: re.map snd
      rw [hb]
      rfl
    · intro j hj
      show (p.state.box j).map snd = []
      rw [hf j hj]
      rfl
  have hwa : (fun j => (s.box j).map snd) =
      update (fun j => (p.state.box j).map snd) k (re.map snd) := by
    funext j
    by_cases hj : j = k
    · rw [hj, update_self, hs]
    · rw [update_of_ne hj, ho j hj]
  refine { mail := ?_, count := hpo.trans h.count, serials := hi ▸ h.serials,
           posts := hi ▸ h.posts, boxes := ?_, window := ?_, missing := ?_ }
  · have heq : Posting.mail { p with
        state := s
        retrieved := p.retrieved ++ [⟨n, ms, ms.hwnd.map p.state.windows.pointerTo⟩] } =
        p.mail.take k n (re.map snd) := by
      unfold Posting.mail Mailboxes.take
      rw [map_append, hwa]
      rfl
    rw [heq]
    exact hm
  · intro j e he
    show ∃ po, p.posts[e.2]? = some po ∧ po.box = j ∧ e.1 = po.msg ∧
      (po.gui → s.windows.Alive po.window)
    rw [hi]
    exact h.boxes j e ((hl j).subset he)
  · intro r hr
    rcases mem_append.1 hr with hr | hr
    · exact h.window r hr
    rw [mem_singleton.1 hr]
    obtain ⟨po, hp, -, hms, ha⟩ := h.boxes k (ms, n) (by
      rw [hb]
      exact mem_cons_self)
    refine ⟨po, hp, hms, fun hu => ?_⟩
    have hms : ms = po.msg := hms
    rw [hms]
    -- the slot holds the window that the message was posted to
    show some (p.state.windows.pointerTo po.window.slot) = some po.window
    unfold pointerTo
    rw [(ha hu).2]
  · intro m po hp
    rcases h.missing m po hp with ht | hw | hg
    · refine .inl ?_
      show m ∈ (p.retrieved ++ [_]).map Retrieval.number
      rw [map_append]
      exact mem_append_left _ ht
    · obtain ⟨j, e, he, rfl⟩ := (waits_iff _ _).1 hw
      by_cases hj : j = k
      · rw [hj, hb] at he
        rcases mem_cons.1 he with rfl | he
        · refine .inl ?_
          show n ∈ (p.retrieved ++ [_]).map Retrieval.number
          rw [map_append]
          exact mem_append_right _ mem_cons_self
        · exact .inr (.inl ((waits_iff _ _).2 ⟨k, e, hs ▸ he, rfl⟩))
      · exact .inr (.inl ((waits_iff _ _).2 ⟨j, e, ho j hj ▸ he, rfl⟩))
    · exact .inr (.inr (hi ▸ hg))

theorem sound_post (h : PostingSound p) (post : PostedMessage)
    (hi : s.windows = p.state.windows) (hp : s.posted = p.state.posted + 1)
    (hs : s.box post.box = p.state.box post.box ++ [(post.msg, p.state.posted)])
    (ho : ∀ j, j ≠ post.box → s.box j = p.state.box j)
    (hse : post.window.serial ≤ p.state.windows.allocated)
    (ha : post.gui → p.state.windows.Alive post.window) :
    PostingSound { p with state := s, posts := p.posts ++ [post] } := by
  have hold : ∀ {n : ℕ} {x : PostedMessage}, p.posts[n]? = some x →
      (p.posts ++ [post])[n]? = some x := by
    intro n x hx
    exact (getElem?_append_left (List.getElem?_eq_some_iff.1 hx).1).trans hx
  have hne : (p.posts ++ [post])[p.state.posted]? = some post := by
    rw [h.count, getElem?_append_right (le_refl _), Nat.sub_self]
    rfl
  have hm : ∀ j, ∀ e ∈ p.state.box j, e ∈ s.box j := by
    intro j e he
    by_cases hj : j = post.box
    · rw [hj, hs]
      exact mem_append_left _ (hj ▸ he)
    · rw [ho j hj]
      exact he
  have hwa : (fun j => (s.box j).map snd) = update
      (fun j => (p.state.box j).map snd) post.box
      ((p.state.box post.box).map snd ++ [p.posts.length]) := by
    funext j
    by_cases hj : j = post.box
    · rw [hj, update_self, hs, map_append, h.count]
      rfl
    · rw [update_of_ne hj, ho j hj]
  refine { mail := ?_, count := ?_, serials := hi ▸ h.serials, posts := ?_, boxes := ?_,
           window := ?_, missing := ?_ }
  · have heq : Posting.mail { p with state := s, posts := p.posts ++ [post] } =
        p.mail.send post.box := by
      unfold Posting.mail Mailboxes.send
      rw [map_append, hwa, length_map]
      rfl
    rw [heq]
    exact Mailboxes.sound_send h.mail _
  · show s.posted = (p.posts ++ [post]).length
    rw [hp, h.count, length_append]
    rfl
  · intro x hx
    show x.window.serial ≤ s.windows.allocated
    rw [hi]
    rcases mem_append.1 hx with hx | hx
    · exact h.posts x hx
    · rw [mem_singleton.1 hx]
      exact hse
  · intro j e he
    show ∃ x, (p.posts ++ [post])[e.2]? = some x ∧ x.box = j ∧ e.1 = x.msg ∧
      (x.gui → s.windows.Alive x.window)
    rw [hi]
    have hc : e ∈ p.state.box j ∨ j = post.box ∧ e = (post.msg, p.state.posted) := by
      by_cases hj : j = post.box
      · rw [hj, hs] at he
        rw [hj]
        exact (mem_append.1 he).imp_right fun he => ⟨rfl, mem_singleton.1 he⟩
      · exact .inl (ho j hj ▸ he)
    rcases hc with he | ⟨rfl, rfl⟩
    · obtain ⟨x, hx, hre⟩ := h.boxes j e he
      exact ⟨x, hold hx, hre⟩
    · exact ⟨post, hne, rfl, rfl, ha⟩
  · intro r hr
    obtain ⟨x, hx, hre⟩ := h.window r hr
    exact ⟨x, hold hx, hre⟩
  · intro n x hx
    rcases lt_or_ge n p.posts.length with hl | hge
    · rw [getElem?_append_left hl] at hx
      rcases h.missing n x hx with ht | hw | hg
      · exact .inl ht
      · obtain ⟨j, e, he, rfl⟩ := (waits_iff _ _).1 hw
        exact .inr (.inl ((waits_iff _ _).2 ⟨j, e, hm j e he, rfl⟩))
      · exact .inr (.inr (hi ▸ hg))
    · -- the message that is posted waits
      have hn : n = p.posts.length := by
        have hl := (List.getElem?_eq_some_iff.1 hx).1
        rw [length_append, length_singleton] at hl
        omega
      refine .inr (.inl ((waits_iff _ _).2 ⟨post.box, (post.msg, p.state.posted), ?_, ?_⟩))
      · show (post.msg, p.state.posted) ∈ s.box post.box
        rw [hs]
        exact mem_append_right _ mem_cons_self
      · exact h.count.trans hn.symm

/-! ### Retrieving -/

section

variable (h : PostingSound p)
include h

theorem used_of_box {i : WindowIndex} {e : GuestMsg × ℕ}
    (he : e ∈ p.state.box (some i)) : (p.state.windows.slots i).used ∧
      ∀ po, p.posts[e.2]? = some po → po.window = p.state.windows.pointerTo i := by
  obtain ⟨po, hp, hb, -, ha⟩ := h.boxes _ e he
  have hg : po.gui := by
    cases hg : po.gui with
    | true => rfl
    | false =>
      unfold PostedMessage.box at hb
      rw [hg] at hb
      cases hb
  have hs := some.inj ((box_of_gui hg).symm.trans hb)
  subst hs
  refine ⟨(ha hg).1, fun o ho => ?_⟩
  cases hp.symm.trans ho
  unfold pointerTo
  rw [(ha hg).2]

theorem sound_fromSlot {i : WindowIndex} {q : QueuedMessage} (hf : FromSlot p.state i s q)
    (hb : ∀ j < i, p.state.used j → (p.state.slots j).queuedMessages = []) :
    PostingSound (p.retrieve (s, some q)) := by
  have ho : ∀ k, k ≠ some i → s.box k = p.state.box k := by
    intro k hk
    cases k with
    | none => rw [box_none, box_none, hf.crossThread]
    | some j => rw [box_some, box_some, (hf.other j fun heq => hk (congrArg some heq)).1]
  have hs : s.box (some i) = p.state.box (some i) → PostingSound { p with state := s } := by
    intro heq
    refine sound_same h hf.windows hf.posted fun k => ?_
    by_cases hk : k = some i
    · rw [hk]
      exact heq
    · exact ho k hk
  obtain ⟨m, po⟩ := q
  rcases hf.self with ⟨hn, hq⟩ | hq
  · subst hn
    apply hs
    rw [box_some, box_some, hq]
  · cases po with
    | none =>
      apply hs
      rw [box_some, box_some, hq]
      rfl
    | some n =>
      refine sound_retrieve h hf.windows hf.posted ?_ rfl ho ?_
      · rw [box_some, hq]
        rfl
      · intro k hk
        cases k with
        | none => exact hk.elim
        | some j =>
          have hj : j < i := hk
          -- the queue of a slot before is empty if it is in use, and else nothing waits there
          cases hu : p.state.used j with
          | true =>
            rw [box_some, hb j hj hu]
            rfl
          | false =>
            apply eq_nil_iff_forall_not_mem.2
            intro e he
            exact Bool.false_ne_true (hu.symm.trans (used_of_box h he).1)

/-- Messages of other threads are thrown away, as long as their windows are not there. -/
theorem sound_withoutGone : PostingSound { p with state := p.state.withoutGone .null } := by
  unfold withoutGone
  rw [discardGone_null]
  refine sound_less h (evolves_of_slots rfl rfl) rfl ?_ ?_ ?_
  · intro k
    cases k with
    | none => exact (dropWhile_sublist _).map _
    | some i => exact List.Sublist.refl _
  · intro i e he
    exact ⟨(used_of_box h (i := i) he).1, rfl⟩
  · intro k e he
    cases k with
    | some i => exact .inl he
    | none =>
      have hal := takeWhile_append_dropWhile
        (p := fun m : CrossThreadWindowMessage => !p.state.used m.window)
        (l := p.state.crossThread)
      obtain ⟨m, hm, rfl⟩ := mem_map.1 he
      rw [← hal] at hm
      rcases mem_append.1 hm with ht | hl
      · refine .inr fun po hp ha => ?_
        obtain ⟨o, ho, -, hms, -⟩ := h.boxes none _ he
        cases hp.symm.trans ho
        have hs : m.window = po.window.slot := some.inj (congrArg GuestMsg.hwnd hms)
        have hg := mem_takeWhile_imp ht
        rw [hs] at hg
        have hu : p.state.used po.window.slot := ha.1
        rw [hu] at hg
        cases hg
      · exact .inl (mem_map.2 ⟨m, hl, rfl⟩)

theorem sound_takeCrossThread : PostingSound (p.retrieve (p.state.takeCrossThread true .null)) := by
  have hd := sound_withoutGone h
  unfold withoutGone at hd
  dsimp only [takeCrossThread, withoutGone]
  generalize p.state.discardGone .null p.state.crossThread = ms at hd ⊢
  cases ms with
  | nil => exact hd
  | cons m ms =>
    refine sound_retrieve (s := { p.state with crossThread := ms }) (k := none) hd
      rfl rfl rfl rfl ?_ ?_
    · intro j hj
      cases j with
      | none => exact absurd rfl hj
      | some i => rfl
    · intro j hj
      cases j <;> exact hj.elim

theorem sound_peekCrossThread :
    PostingSound { p with state := (p.state.takeCrossThread false .null).1 } := by
  have hd := sound_withoutGone h
  unfold withoutGone at hd
  dsimp only [takeCrossThread, withoutGone]
  generalize p.state.discardGone .null p.state.crossThread = ms at hd ⊢
  cases ms with
  | nil => exact hd
  | cons m ms => exact hd

theorem sound_getWaiting (n : ℕ) : PostingSound (p.retrieve (p.state.getWaiting n .null)) := by
  unfold getWaiting
  split
  · exact sound_same h rfl rfl fun k => by cases k <;> rfl
  split
  · next s q hd =>
    obtain ⟨i, -, -, hf, hb⟩ := firstSlot_eq_some hd
    refine sound_fromSlot h (fromSlot_getFromSlot hf) fun j hj hu => ?_
    exact queue_of_not_waitsAt (getFromSlot_eq_none.1 (hb j hj hu rfl))
  · exact sound_takeCrossThread h

theorem sound_peekWaiting (n : ℕ) :
    PostingSound (p.retrieve (p.state.peekWaiting true n .null)) := by
  have hc := sound_takeCrossThread h
  unfold peekWaiting
  split
  · next s m hd =>
    rwa [hd] at hc
  · next s hd =>
    have hw : s.windows = p.state.windows := by
      have hf : (p.state.takeCrossThread true .null).1.windows = p.state.windows := by
        dsimp only [takeCrossThread]
        split <;> rfl
      rwa [hd] at hf
    rw [hd] at hc
    split
    · next s' q hl =>
      obtain ⟨i, -, -, hi, hb⟩ := firstSlot_eq_some hl
      have hs := sound_fromSlot hc (fromSlot_peekFromSlot hi) fun j hj hu =>
        queue_of_not_waitsAt (peekFromSlot_eq_none.1 (hb j hj hu rfl))
      have hr : p.retrieve (s', some q) =
          Posting.retrieve { p with state := s } (s', some q) := by
        unfold Posting.retrieve
        rw [hw]
      rw [hr]
      exact hs
    · exact hc

theorem sound_peekWaiting_keep (n : ℕ) :
    PostingSound { p with state := (p.state.peekWaiting false n .null).1 } := by
  have hc := sound_peekCrossThread h
  unfold peekWaiting
  split
  · next s m hd =>
    rwa [hd] at hc
  · next s hd =>
    rw [hd] at hc
    split
    · next s' q hs =>
      obtain ⟨i, -, -, hf, -⟩ := firstSlot_eq_some hs
      rw [peekFromSlot_false hf]
      exact hc
    · exact hc

end

/-! ### Steps and runs -/

theorem sound_postMessage (h : PostingSound p) (g : Bool) (wi : WindowHandle)
    (m wp : ℕ) (l : ℤ) : PostingSound (p.post g m wp l (p.state.postMessage g wi m wp l)) := by
  unfold MessageState.postMessage
  split
  · next hg =>
    split
    · exact h
    next index hr =>
    split
    · exact h
    subst hg
    refine sound_post h ⟨false, p.state.windows.pointerTo index, m, wp, l⟩
      rfl rfl ?_ ?_ (h.serials index) nofun
    · exact map_append
    · intro j hj
      cases j with
      | none => exact absurd rfl hj
      | some i => rfl
  · next hg =>
    have hg := Bool.eq_true_of_not_eq_false hg
    split
    · exact h
    next index hf =>
    subst hg
    have hs : (p.state.queueWindowMessage index m wp l
        (some p.state.posted)).slots index = { p.state.slots index with
          queuedMessages := (p.state.slots index).queuedMessages ++
            [⟨{ hwnd := some index, message := m, wparam := wp, lparam := l },
              some p.state.posted⟩] } := update_self _ _ _
    refine sound_post h ⟨true, p.state.windows.pointerTo index, m, wp, l⟩
      rfl rfl ?_ ?_ (h.serials index) fun _ => ⟨used_of_findWindowSlot hf, rfl⟩
    · show (((p.state.queueWindowMessage index m wp l
        (some p.state.posted)).slots index).queuedMessages.filterMap fun q =>
          q.post.map fun n => (q.msg, n)) = _
      rw [hs, filterMap_append]
      rfl
    · intro j hj
      cases j with
      | none => rfl
      | some i =>
        have hi : i ≠ index := fun heq => hj (congrArg some heq)
        have hl : (p.state.queueWindowMessage index m wp l
            (some p.state.posted)).slots i = p.state.slots i := update_of_ne hi _ _
        exact congrArg (List.filterMap _) (congrArg MessageSlot.queuedMessages hl)

theorem sound_editSlot (h : PostingSound p) {i : WindowIndex}
    {sl : MessageSlot} (hw : s.windows = p.state.windows)
    (hp : s.posted = p.state.posted) (hc : s.crossThread = p.state.crossThread)
    (hs : s.slots = update p.state.slots i sl) (hl : (sl.queuedMessages.filterMap fun q =>
      q.post.map fun n => (q.msg, n)) = p.state.box (some i)) :
    PostingSound { p with state := s } := by
  refine sound_same h hw hp fun k => ?_
  cases k with
  | none => rw [box_none, box_none, hc]
  | some j =>
    by_cases hj : j = i
    · subst hj
      rw [box_some, hs, update_self]
      exact hl
    · rw [box_some, hs, update_of_ne hj]
      rfl

theorem sound_afterWindows (h : PostingSound p) {ws : WindowState}
    (hv : p.state.windows.Evolves ws) :
    PostingSound { p with state := p.state.afterWindows ws } := by
  have hl : ∀ i, (p.state.afterWindows ws).slots i =
      if (ws.slots i).used = (p.state.windows.slots i).used ∧
          (ws.slots i).serial = (p.state.windows.slots i).serial then p.state.slots i
      else if (p.state.windows.slots i).used = false ∧ (ws.slots i).used ∧
          (ws.slots i).isControl = false then p.state.slots i
      else {} := fun _ => rfl
  -- what waits at a window afterwards waited there before, and the window is the same
  have hb : ∀ i, (p.state.afterWindows ws).box (some i) = p.state.box (some i) ∧
      ((ws.slots i).used = (p.state.windows.slots i).used ∧
          (ws.slots i).serial = (p.state.windows.slots i).serial ∨
        p.state.box (some i) = []) ∨
      (p.state.afterWindows ws).box (some i) = [] ∧
        ¬((ws.slots i).used = (p.state.windows.slots i).used ∧
          (ws.slots i).serial = (p.state.windows.slots i).serial) := by
    intro i
    by_cases hs : (ws.slots i).used = (p.state.windows.slots i).used ∧
        (ws.slots i).serial = (p.state.windows.slots i).serial
    · refine .inl ⟨?_, .inl hs⟩
      rw [box_some, hl, if_pos hs]
      rfl
    · by_cases hn : (p.state.windows.slots i).used = false ∧ (ws.slots i).used ∧
          (ws.slots i).isControl = false
      · refine .inl ⟨?_, .inr ?_⟩
        · rw [box_some, hl, if_neg hs, if_pos hn]
          rfl
        · apply eq_nil_iff_forall_not_mem.2
          intro e he
          exact Bool.false_ne_true (hn.1.symm.trans (used_of_box h he).1)
      · refine .inr ⟨?_, hs⟩
        rw [box_some, hl, if_neg hs, if_neg hn]
        rfl
  refine sound_less h hv rfl ?_ ?_ ?_
  · intro k
    cases k with
    | none => exact List.Sublist.refl _
    | some i =>
      rcases hb i with ⟨heq, -⟩ | ⟨hm, -⟩
      · rw [heq]
      · rw [hm]
        exact nil_sublist _
  · intro i e he
    rcases hb i with ⟨heq, hs | hm⟩ | ⟨hm, -⟩
    · rw [heq] at he
      exact ⟨hs.1.trans (used_of_box h he).1, hs.2⟩
    · rw [heq, hm] at he
      cases he
    · rw [hm] at he
      cases he
  · intro k e he
    cases k with
    | none => exact .inl he
    | some i =>
      rcases hb i with ⟨heq, -⟩ | ⟨-, hc⟩
      · exact .inl (heq ▸ he)
      refine .inr fun po hp ha => hc ?_
      obtain ⟨hu, hw⟩ := used_of_box h he
      have hw := hw po hp
      rw [hw] at ha
      exact ⟨ha.1.trans hu.symm, ha.2⟩

theorem sound_posting_step (h : PostingSound p) {c : PostingCall}
    (hs : p.step c = some p') : PostingSound p' := by
  cases c with
  | postMessage g window m wp l =>
    cases hs
    exact sound_postMessage h g window m wp l
  | getMessage nw =>
    cases hs
    exact sound_getWaiting h nw
  | peekMessage nw r =>
    cases hs
    cases r with
    | true => exact sound_peekWaiting h nw
    | false => exact sound_peekWaiting_keep h nw
  | window c =>
    obtain ⟨⟨ws, a⟩, hw, rfl⟩ := map_eq_some_iff.1 hs
    exact sound_afterWindows h (evolves_window_step hw)
  | queueMessage ix m wp l =>
    cases hs
    refine sound_editSlot h rfl rfl rfl rfl ?_
    rw [filterMap_append]
    exact append_nil _
  | pend ix n ch =>
    cases hs
    exact sound_editSlot h rfl rfl rfl rfl rfl
  | postQuit co =>
    cases hs
    exact sound_same h rfl rfl fun k => by cases k <;> rfl

theorem sound_posting_run (cs : List PostingCall) :
    ∀ p : Posting κ, PostingSound p → p.run cs = some p' → PostingSound p' := by
  induction cs with
  | nil =>
    intro p h hu
    cases hu
    exact h
  | cons c cs ih =>
    intro p h hu
    obtain ⟨t, hs, hr⟩ := bind_eq_some_iff.1 hu
    exact ih t (sound_posting_step h hs) hr

/-- **In every run a posted message is retrieved once, or waits, or its window is gone.** -/
theorem posts_kept (rest : κ) (calls : List PostingCall)
    (hrun : Posting.run { state := { rest := rest } } calls = some p') : PostsKept p' :=
  postsKept_of_sound (sound_posting_run calls _ (sound_no_posts rest) hrun)

/-- Two windows; a message is posted to the second and one to the first, and both are retrieved. -/
def twoPosts : List PostingCall :=
  [.window (.createWindow { registered := some true, parent := .null, skipCreate := true }),
    .window (.createWindow { registered := some true, parent := .null, skipCreate := true }),
    .postMessage true (.slot 1) 0x400 1 2, .postMessage true (.slot 0) 0x401 3 4,
    .getMessage 0, .getMessage 0]

theorem twoPosts_retrieved : (Posting.run { state := { rest := () } } twoPosts).map
    (fun p => p.retrieved.map Retrieval.number) = some [1, 0] := by decide +kernel

theorem posts_kept_two : ∃ p', Posting.run { state := { rest := () } } twoPosts = some p' ∧
    PostsKept p' := by
  obtain ⟨p', hr, -⟩ := map_eq_some_iff.mp twoPosts_retrieved
  exact ⟨p', hr, posts_kept () twoPosts hr⟩

/-- **Posted messages do not always come in the order in which they were posted.** -/
theorem not_posts_as_posted : ¬ ∀ calls p',
    Posting.run { state := { rest := () } } calls = some p' → PostsAsPosted p' := by
  intro h
  obtain ⟨p', hr, hn⟩ := map_eq_some_iff.mp twoPosts_retrieved
  have ho := (h twoPosts p' hr).order
  rw [hn] at ho
  exact absurd ho (by decide)

end TradutorLinux
