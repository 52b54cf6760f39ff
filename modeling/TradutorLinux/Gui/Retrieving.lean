import Mathlib.Order.Fin.Basic
import TradutorLinux.Gui.Messages

/-!
# What the loops find

The loop over the slots ends at the first slot where a message waits, and the
loop over the messages of other threads at the first one whose window is there.

## Main definitions

* `FromSlot`

## Main results

* `firstSlot_eq_some`, `firstSlot_eq_none` — what the loop over the slots finds.
* `find_discardGone` — what the loop over the messages of other threads finds.
-/

namespace TradutorLinux

open List Function MessageState

variable {κ : Type} {s s' : MessageState κ} {win : WindowHandle} {i j : WindowIndex}

/-! ### The loop over the slots -/

theorem firstSlot_eq_some {α : Type} {f : WindowIndex → Option α} {a : α}
    (h : s.firstSlot win f = some a) :
    ∃ i, s.used i ∧ win.matches i ∧ f i = some a ∧
      ∀ j < i, s.used j → win.matches j → f j = none := by
  obtain ⟨l, i, r, hs, hi, hb⟩ := findSome?_eq_some_iff.1 h
  obtain ⟨⟨hu, ha⟩, hf⟩ := Option.ite_none_right_eq_some.1 hi
  refine ⟨i, hu, ha, hf, ?_⟩
  intro j hji hj hm
  -- the slots before are those with a smaller number
  have he : j ∈ l ++ i :: r := hs ▸ mem_finRange j
  have ho : (l ++ i :: r).Pairwise (· < ·) := hs ▸ pairwise_lt_finRange 512
  rcases mem_append.1 he with hl | hr
  · have hn := hb j hl
    rwa [if_pos ⟨hj, hm⟩] at hn
  · rcases mem_cons.1 hr with rfl | hr
    · exact absurd hji (lt_irrefl _)
    · have ht := (pairwise_cons.1 (pairwise_append.1 ho).2.1).1 j hr
      exact absurd hji (lt_asymm ht)

theorem firstSlot_eq_none {α : Type} {f : WindowIndex → Option α} : s.firstSlot win f = none ↔
      ∀ i, s.used i → win.matches i → f i = none := by
  unfold firstSlot
  rw [findSome?_eq_none_iff]
  constructor
  · intro h i hu hm
    have hi := h i (mem_finRange i)
    rwa [if_pos ⟨hu, hm⟩] at hi
  · intro h i _
    split
    · next hi => exact h i hi.1 hi.2
    · rfl

theorem firstSlot_of_first {α : Type} {f : WindowIndex → Option α} {a : α}
    (hu : s.used i) (hm : win.matches i) (hf : f i = some a)
    (hb : ∀ j < i, s.used j → win.matches j → f j = none) : s.firstSlot win f = some a := by
  cases hi : s.firstSlot win f with
  | none => cases (firstSlot_eq_none.1 hi i hu hm).symm.trans hf
  | some a' =>
    obtain ⟨j, hju, ha, hj, he⟩ := firstSlot_eq_some hi
    rcases lt_trichotomy i j with hl | rfl | hg
    · cases (he i hl hu hm).symm.trans hf
    · exact hj.symm.trans hf
    · cases (hb j hg hju ha).symm.trans hj

theorem firstSlot_congr {α : Type} {f find' : WindowIndex → Option α}
    (h : ∀ i, s.used i → win.matches i → f i = find' i) :
    s.firstSlot win f = s.firstSlot win find' := by
  unfold firstSlot
  congr 1
  funext i
  split
  · next hi => exact h i hi.1 hi.2
  · rfl

/-! ### What waits at a slot -/

def MessageState.WaitsAt (s : MessageState κ) (i : WindowIndex) : Prop :=
  (s.pendingNative i).isSome = true ∨ (s.slots i).pending.isSome = true ∨
    (s.slots i).queuedMessages ≠ []

/-- A message waits at a slot that is in use and passes the filter. -/
def MessageState.Ready (s : MessageState κ) (window : WindowHandle) (i : WindowIndex) : Prop :=
  s.used i = true ∧ window.matches i = true ∧ s.WaitsAt i

/-- A message is taken from a slot: one that was not posted, or the first of its queue. -/
structure FromSlot (s : MessageState κ) (i : WindowIndex) (s' : MessageState κ)
    (queued : QueuedMessage) : Prop where
  windows : s'.windows = s.windows
  posted : s'.posted = s.posted
  crossThread : s'.crossThread = s.crossThread
  quitRequested : s'.quitRequested = s.quitRequested
  other : ∀ j, j ≠ i → s'.slots j = s.slots j ∧ s'.pendingNative j = s.pendingNative j
  self : queued.post = none ∧ (s'.slots i).queuedMessages = (s.slots i).queuedMessages ∨
    (s.slots i).queuedMessages = queued :: (s'.slots i).queuedMessages

variable {queued q : QueuedMessage}

theorem fromSlot_setSlot {slot : MessageSlot}
    (hs : q.post = none ∧ slot.queuedMessages = (s.slots i).queuedMessages ∨
      (s.slots i).queuedMessages = q :: slot.queuedMessages) :
    FromSlot s i (s.setSlot i slot) q where
  windows := rfl
  posted := rfl
  crossThread := rfl
  quitRequested := rfl
  other j hj := ⟨update_of_ne hj _ _, rfl⟩
  self := by
    have hl : (s.setSlot i slot).slots i = slot := update_self _ _ _
    rw [hl]
    exact hs

variable {now : ℕ}

theorem fromSlot_resetPendingNative {m : GuestMsg} :
    FromSlot s i (s.resetPendingNative now i) ⟨m, none⟩ := by
  dsimp only [resetPendingNative]
  cases hn : s.pendingNative i with
  | none =>
    exact { windows := rfl, posted := rfl, crossThread := rfl, quitRequested := rfl,
            other := fun _ _ => ⟨rfl, rfl⟩, self := .inl ⟨rfl, rfl⟩ }
  | some p =>
    refine { windows := rfl, posted := rfl, crossThread := rfl, quitRequested := rfl,
             other := fun j hj => ⟨update_of_ne hj _ _, update_of_ne hj _ _⟩,
             self := .inl ⟨rfl, ?_⟩ }
    show (update s.slots i _ i).queuedMessages = _
    rw [update_self]

theorem getFromSlot_cases (s : MessageState κ) (now : ℕ) (i : WindowIndex) :
    (∃ p, s.pendingNative i = some p ∧
      s.getFromSlot now i = some (s.resetPendingNative now i, ⟨p.message, none⟩)) ∨
    (∃ p, s.pendingNative i = none ∧ (s.slots i).pending = some p ∧
      s.getFromSlot now i = some (s.setSlot i { s.slots i with pending := none },
        ⟨{ p with hwnd := some i }, none⟩)) ∨
    (∃ q ms, s.pendingNative i = none ∧ (s.slots i).pending = none ∧
      (s.slots i).queuedMessages = q :: ms ∧ s.getFromSlot now i =
        some (s.setSlot i { s.slots i with queuedMessages := ms }, q)) ∨
    (¬ s.WaitsAt i ∧ (s.slots i).queuedMessages = [] ∧ s.getFromSlot now i = none) := by
  dsimp only [getFromSlot, MessageState.WaitsAt]
  cases hn : s.pendingNative i with
  | some p => exact .inl ⟨p, rfl, rfl⟩
  | none =>
    cases hp : (s.slots i).pending with
    | some p => exact .inr (.inl ⟨p, rfl, rfl, rfl⟩)
    | none =>
      cases hm : (s.slots i).queuedMessages with
      | cons q ms => exact .inr (.inr (.inl ⟨q, ms, rfl, rfl, rfl, rfl⟩))
      | nil => exact .inr (.inr (.inr ⟨by simp, rfl, rfl⟩))

theorem peekFromSlot_cases (s : MessageState κ) (r : Bool) (now : ℕ) (i : WindowIndex) :
    (∃ p, s.pendingNative i = some p ∧ s.peekFromSlot r now i =
      some (if r then s.resetPendingNative now i else s, ⟨p.message, none⟩)) ∨
    (∃ p, s.pendingNative i = none ∧ (s.slots i).pending = some p ∧ s.peekFromSlot r now i =
        some (if r then s.setSlot i { s.slots i with pending := none } else s, ⟨p, none⟩)) ∨
    (∃ q ms, s.pendingNative i = none ∧ (s.slots i).pending = none ∧
      (s.slots i).queuedMessages = q :: ms ∧ s.peekFromSlot r now i =
        some (if r then s.setSlot i { s.slots i with queuedMessages := ms }
          else s, q)) ∨
    (¬ s.WaitsAt i ∧ (s.slots i).queuedMessages = [] ∧ s.peekFromSlot r now i = none) := by
  dsimp only [peekFromSlot, MessageState.WaitsAt]
  cases hn : s.pendingNative i with
  | some p => exact .inl ⟨p, rfl, rfl⟩
  | none =>
    cases hp : (s.slots i).pending with
    | some p => exact .inr (.inl ⟨p, rfl, rfl, rfl⟩)
    | none =>
      cases hm : (s.slots i).queuedMessages with
      | cons q ms => exact .inr (.inr (.inl ⟨q, ms, rfl, rfl, rfl, rfl⟩))
      | nil => exact .inr (.inr (.inr ⟨by simp, rfl, rfl⟩))

theorem fromSlot_getFromSlot
    (h : s.getFromSlot now i = some (s', queued)) : FromSlot s i s' queued := by
  rcases getFromSlot_cases s now i with ⟨_, -, heq⟩ | ⟨_, -, -, heq⟩ | ⟨_, _, -, -, hq, heq⟩ |
    ⟨-, -, heq⟩ <;> rw [heq] at h <;> cases h
  · exact fromSlot_resetPendingNative
  · exact fromSlot_setSlot (.inl ⟨rfl, rfl⟩)
  · exact fromSlot_setSlot (.inr hq)

theorem fromSlot_peekFromSlot
    (h : s.peekFromSlot true now i = some (s', queued)) : FromSlot s i s' queued := by
  rcases peekFromSlot_cases s true now i with ⟨_, -, heq⟩ | ⟨_, -, -, heq⟩ |
    ⟨_, _, -, -, hq, heq⟩ | ⟨-, -, heq⟩ <;> rw [heq] at h <;> cases h
  · exact fromSlot_resetPendingNative
  · exact fromSlot_setSlot (.inl ⟨rfl, rfl⟩)
  · exact fromSlot_setSlot (.inr hq)

theorem peekFromSlot_false (h : s.peekFromSlot false now i = some (s', q)) : s' = s := by
  rcases peekFromSlot_cases s false now i with ⟨_, -, heq⟩ | ⟨_, -, -, heq⟩ |
    ⟨_, _, -, -, -, heq⟩ | ⟨-, -, heq⟩ <;> rw [heq] at h <;> cases h <;> rfl

theorem getFromSlot_eq_none : s.getFromSlot now i = none ↔ ¬ s.WaitsAt i := by
  rcases getFromSlot_cases s now i with ⟨_, hn, heq⟩ | ⟨_, -, hp, heq⟩ |
    ⟨_, _, -, -, hq, heq⟩ | ⟨hnot, -, heq⟩
  · simp [heq, MessageState.WaitsAt, hn]
  · simp [heq, MessageState.WaitsAt, hp]
  · simp [heq, MessageState.WaitsAt, hq]
  · simp [heq, hnot]

theorem peekFromSlot_eq_none {r : Bool} : s.peekFromSlot r now i = none ↔ ¬ s.WaitsAt i := by
  rcases peekFromSlot_cases s r now i with ⟨_, hn, heq⟩ | ⟨_, -, hp, heq⟩ |
    ⟨_, _, -, -, hq, heq⟩ | ⟨hnot, -, heq⟩
  · simp [heq, MessageState.WaitsAt, hn]
  · simp [heq, MessageState.WaitsAt, hp]
  · simp [heq, MessageState.WaitsAt, hq]
  · simp [heq, hnot]

theorem queue_of_not_waitsAt (h : ¬ s.WaitsAt i) : (s.slots i).queuedMessages = [] := by
  by_contra hq
  exact h (.inr (.inr hq))

theorem firstSlot_ready {α : Type} (win : WindowHandle) {f : WindowIndex → Option α}
    (hf : ∀ i, f i = none ↔ ¬ s.WaitsAt i) :
    (∃ i a, s.Ready win i ∧ (∀ j < i, ¬ s.Ready win j) ∧ f i = some a ∧
      s.firstSlot win f = some a) ∨
    ((∀ i, ¬ s.Ready win i) ∧ s.firstSlot win f = none) := by
  cases hfi : s.firstSlot win f with
  | none =>
    refine .inr ⟨?_, rfl⟩
    rintro i ⟨hu, hm, hw⟩
    exact (hf i).1 (firstSlot_eq_none.1 hfi i hu hm) hw
  | some a =>
    obtain ⟨i, hu, hm, hi, hb⟩ := firstSlot_eq_some hfi
    have hw : s.WaitsAt i := by
      by_contra hnot
      cases ((hf i).2 hnot).symm.trans hi
    refine .inl ⟨i, a, ⟨hu, hm, hw⟩, ?_, hi, rfl⟩
    rintro j hj ⟨hju, ha, hjw⟩
    exact (hf j).1 (hb j hj hju ha) hjw

/-! ### Messages of other threads -/

theorem discardGone_null (s : MessageState κ) (l : List CrossThreadWindowMessage) :
    s.discardGone .null l = l.dropWhile fun m => !s.used m.window := by
  induction l with
  | nil => rfl
  | cons m l ih =>
    rw [dropWhile_cons]
    unfold discardGone
    cases s.used m.window with
    | true => rfl
    | false => exact ih

theorem discardGone_congr (h : s'.windows = s.windows) (l : List CrossThreadWindowMessage) :
    s'.discardGone win l = s.discardGone win l := by
  induction l with
  | nil => rfl
  | cons m l ih =>
    unfold discardGone MessageState.used
    rw [ih, h]

/-- What is found is the first message that passes the filter and has a window. -/
theorem find_discardGone (l : List CrossThreadWindowMessage) :
    ((s.discardGone win l).find? fun m => win.matches m.window) =
      l.find? fun m => win.matches m.window && s.used m.window := by
  induction l with
  | nil => rfl
  | cons m l ih =>
    unfold discardGone
    rw [find?_cons]
    cases hm : win.matches m.window with
    | false =>
      rw [if_neg Bool.false_ne_true, find?_cons, hm]
      exact ih
    | true =>
      cases hu : s.used m.window with
      | true =>
        rw [if_pos rfl, if_pos rfl, find?_cons, hm]
        rfl
      | false => exact ih

theorem discardGone_of_not_matches {l : List CrossThreadWindowMessage}
    (h : ∀ m ∈ l, win.matches m.window = false) : s.discardGone win l = l := by
  induction l with
  | nil => rfl
  | cons m l ih =>
    unfold discardGone
    rw [h m mem_cons_self, if_neg Bool.false_ne_true, ih fun o ho => h o (mem_cons_of_mem _ ho)]

theorem discardGone_discardGone (l : List CrossThreadWindowMessage) :
    s.discardGone win (s.discardGone win l) = s.discardGone win l := by
  induction l with
  | nil => rfl
  | cons m l ih =>
    rw [discardGone]
    cases hm : win.matches m.window with
    | false =>
      rw [if_neg Bool.false_ne_true, discardGone, hm, if_neg Bool.false_ne_true, ih]
    | true =>
      cases hu : s.used m.window with
      | true =>
        rw [if_pos rfl, if_pos rfl, discardGone, hm, hu, if_pos rfl, if_pos rfl]
      | false => exact ih

theorem not_matches_of_discardGone {l : List CrossThreadWindowMessage}
    (h : ∀ m ∈ l, win.matches m.window → s.used m.window = false) :
    ∀ m ∈ s.discardGone win l, win.matches m.window = false := by
  have hn : (s.discardGone win l).find? (fun m => win.matches m.window) = none := by
    rw [find_discardGone, find?_eq_none]
    intro m hm
    cases ha : win.matches m.window with
    | false => simp
    | true => simp [h m hm ha]
  intro m hm
  exact Bool.eq_false_of_not_eq_true (find?_eq_none.1 hn m hm)

theorem length_discardGone_le (s : MessageState κ) (win : WindowHandle)
    (l : List CrossThreadWindowMessage) : (s.discardGone win l).length ≤ l.length := by
  induction l with
  | nil => exact le_refl _
  | cons m l ih =>
    unfold discardGone
    split
    · split
      · exact le_refl _
      · exact ih.trans (Nat.le_succ _)
    · exact Nat.succ_le_succ ih

theorem length_takeCrossThread {m : CrossThreadWindowMessage}
    (hme : m ∈ s.crossThread) (ha : win.matches m.window) :
    (s.takeCrossThread true win).1.crossThread.length < s.crossThread.length := by
  dsimp only [takeCrossThread, withoutGone]
  cases hf : (s.discardGone win s.crossThread).find? fun m => win.matches m.window with
  | none =>
    -- the message is not there any more
    show (s.discardGone win s.crossThread).length < s.crossThread.length
    refine lt_of_le_of_ne (length_discardGone_le _ _ _) fun he => ?_
    have hs : ∀ l : List CrossThreadWindowMessage,
        (s.discardGone win l).length = l.length → s.discardGone win l = l := by
      intro l
      induction l with
      | nil => exact fun _ => rfl
      | cons f l ih =>
        intro hl
        unfold discardGone at hl ⊢
        split at hl
        · next hi =>
          rw [if_pos hi]
          split at hl
          · next hu => rw [if_pos hu]
          · have hle := length_discardGone_le s win l
            rw [length_cons] at hl
            omega
        · next hi => rw [if_neg hi, ih (Nat.succ.inj hl)]
    rw [hs _ he] at hf
    exact find?_eq_none.1 hf m hme ha
  | some fo =>
    show ((s.discardGone win s.crossThread).eraseP
      fun m => win.matches m.window).length < s.crossThread.length
    have hm := mem_of_find?_eq_some hf
    have he : ((s.discardGone win s.crossThread).eraseP
        fun m => win.matches m.window).length =
        (s.discardGone win s.crossThread).length - 1 :=
      length_eraseP_of_mem hm (by simpa using find?_some hf)
    have hp := length_pos_of_mem hm
    have hle := length_discardGone_le s win s.crossThread
    omega

theorem takeCrossThread_of_not_matches {r : Bool}
    (h : ∀ m ∈ s.crossThread, win.matches m.window = false) :
    s.takeCrossThread r win = (s, none) := by
  have hs : s.withoutGone win = s := by
    unfold withoutGone
    rw [discardGone_of_not_matches h]
  dsimp only [takeCrossThread]
  rw [hs]
  have hn : (s.crossThread.find? fun m => win.matches m.window) = none := by
    rw [find?_eq_none]
    intro m hm
    rw [h m hm]
    exact Bool.false_ne_true
  rw [hn]

end TradutorLinux
