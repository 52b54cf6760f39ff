import Mathlib.Tactic.Common

/-!
# Critical sections

The table of critical sections of `winapi.cpp` (`find_cs_entry`,
`alloc_cs_entry`) and the functions of `kernel32/sync.cpp` that use it.  The
guest's address stands for the section; the mutex of its table entry locks.  A
step is one section under `g_cs_mutex` or one operation on a mutex.

## Main definitions

* `CriticalSections`, `CsAction`, `CriticalSections.step`, `CsAction.Careful`

## Main results

* `Inv.exclusive` — **in every interleaving of careful steps two threads are never
  inside the same section**.
-/

namespace TradutorLinux.Sync

open Function List

open Option

/-! ### The table -/

/-- `CriticalSectionEntry`; `owner` and `recursion` are the state of its recursive
`pthread_mutex_t`. -/
structure CriticalSectionEntry where
  guestAddress : ℕ := 0
  used : Bool := false
  owner : Option ℕ := none
  recursion : ℕ := 0
deriving DecidableEq

/-- The size of `g_critical_sections`. -/
def kCriticalSections : ℕ := 256

/-- What a thread is about to do; `attempt` for `TryEnterCriticalSection`. -/
inductive CsPhase
  | idle
  /-- `find_cs_entry` has found nothing. -/
  | allocating (address : ℕ) (attempt : Bool)
  | locking (address entry : ℕ) (attempt : Bool)
  | unlocking (address entry : ℕ)
deriving DecidableEq

/-- The table, the threads, and how many times every thread has entered and not left a section. -/
structure CriticalSections where
  entries : List CriticalSectionEntry := List.replicate kCriticalSections {}
  threads : ℕ → CsPhase := fun _ => .idle
  inside : ℕ → ℕ → ℕ := fun _ _ => 0

def CriticalSectionEntry.For (address : ℕ) (e : CriticalSectionEntry) : Prop :=
  e.used = true ∧ e.guestAddress = address

instance (address : ℕ) (e : CriticalSectionEntry) : Decidable (e.For address) :=
  inferInstanceAs (Decidable (_ ∧ _))

/-- `find_cs_entry`. -/
def findCsEntry (entries : List CriticalSectionEntry) (address : ℕ) : Option ℕ :=
  entries.findIdx? fun e => e.For address

/-- The first entry that is not used, which `alloc_cs_entry` takes. -/
def freeCsEntry (entries : List CriticalSectionEntry) : Option ℕ :=
  entries.findIdx? fun e => !e.used

/-- The entry that `alloc_cs_entry` makes. -/
def newCsEntry (address : ℕ) : CriticalSectionEntry where
  guestAddress := address
  used := true

namespace CriticalSectionEntry

/-- `pthread_mutex_lock` and `pthread_mutex_trylock` of a recursive mutex; absent when it is
another thread's. -/
def lock (t : ℕ) (e : CriticalSectionEntry) : Option CriticalSectionEntry :=
  if e.owner = none then some { e with owner := some t, recursion := 1 }
  else if e.owner = some t then some { e with recursion := e.recursion + 1 }
  else none

/-- `pthread_mutex_unlock` of a recursive mutex; it refuses a thread that does not own it. -/
def unlock (t : ℕ) (e : CriticalSectionEntry) : CriticalSectionEntry :=
  if e.owner ≠ some t then e
  else if e.recursion = 1 then { e with owner := none, recursion := 0 }
  else { e with recursion := e.recursion - 1 }

end CriticalSectionEntry

/-! ### Steps -/

/-- A step of the thread `t`. -/
inductive CsAction
  /-- `InitializeCriticalSection`. -/
  | init (t address : ℕ)
  | delete (t address : ℕ)
  /-- `EnterCriticalSection` or `TryEnterCriticalSection` up to `find_cs_entry`. -/
  | enter (t address : ℕ) (attempt : Bool)
  | alloc (t : ℕ)
  | lock (t : ℕ)
  /-- `LeaveCriticalSection` up to `find_cs_entry`. -/
  | leave (t address : ℕ)
  | unlock (t : ℕ)
deriving DecidableEq

namespace CriticalSections

variable (s : CriticalSections)

def setPhase (t : ℕ) (phase : CsPhase) : CriticalSections :=
  { s with threads := update s.threads t phase }

def setEntry (i : ℕ) (e : CriticalSectionEntry) : CriticalSections :=
  { s with entries := s.entries.set i e }

/-- The thread is now `n` times inside the section. -/
def setInside (t address n : ℕ) : CriticalSections :=
  { s with inside := update s.inside t (update (s.inside t) address n) }

/-- The call of `EnterCriticalSection` or of a successful `TryEnterCriticalSection` returns. -/
def entered (t address : ℕ) : CriticalSections :=
  (s.setPhase t .idle).setInside t address (s.inside t address + 1)

/-- One step, if the thread can take it.  The calls return at once for the null section. -/
def step : CsAction → Option CriticalSections
  | .init t address =>
    if s.threads t ≠ .idle then none
    else if address = 0 then some s
    else match freeCsEntry s.entries with
      | some i => some (s.setEntry i (newCsEntry address))
      | none => some s
  | .delete t address =>
    if s.threads t ≠ .idle then none
    else if address = 0 then some s
    else match findCsEntry s.entries address with
      | some i => some (s.setEntry i {})
      | none => some s
  | .enter t address attempt =>
    if s.threads t ≠ .idle then none
    -- `EnterCriticalSection` has no other way to say that it locked nothing
    else if address = 0 then if attempt then some s else some (s.entered t address)
    else match findCsEntry s.entries address with
      | some i => some (s.setPhase t (.locking address i attempt))
      | none => some (s.setPhase t (.allocating address attempt))
  | .alloc t =>
    match s.threads t with
    | .allocating address attempt =>
      match freeCsEntry s.entries with
      | some i =>
        some ((s.setEntry i (newCsEntry address)).setPhase t (.locking address i attempt))
      | none =>
        -- `EnterCriticalSection` returns all the same
        if attempt then some (s.setPhase t .idle) else some (s.entered t address)
    | _ => none
  | .lock t =>
    match s.threads t with
    | .locking address i attempt =>
      match (s.entries[i]?).bind (CriticalSectionEntry.lock t) with
      | some e => some ((s.setEntry i e).entered t address)
      | none => if attempt then some (s.setPhase t .idle) else none
    | _ => none
  | .leave t address =>
    if s.threads t ≠ .idle ∨ s.inside t address = 0 then none
    else if address = 0 then some (s.setInside t address (s.inside t address - 1))
    else match findCsEntry s.entries address with
      | some i =>
        some ((s.setPhase t (.unlocking address i)).setInside t address (s.inside t address - 1))
      | none => some (s.setInside t address (s.inside t address - 1))
  | .unlock t =>
    match s.threads t with
    | .unlocking _ i =>
      match s.entries[i]? with
      | some e => some ((s.setEntry i (e.unlock t)).setPhase t .idle)
      | none => none
    | _ => none

/-- Two threads are never inside the same section. -/
def Exclusive : Prop :=
  ∀ t t' address, 0 < s.inside t address → 0 < s.inside t' address → t = t'

/-! ### Careful steps -/

/-- The section has no entry yet, and there is one left for it. -/
def Fresh (address : ℕ) : Prop :=
  (∀ e ∈ s.entries, ¬e.For address) ∧ ∃ e ∈ s.entries, e.used = false

/-- No thread is inside the section or about to lock or unlock an entry of it. -/
def Unused (address : ℕ) : Prop :=
  ∀ t, s.inside t address = 0 ∧ (∀ i attempt, s.threads t ≠ .locking address i attempt) ∧
    ∀ i, s.threads t ≠ .unlocking address i

end CriticalSections

/-- The step makes an entry only for a section that has none, finds room for it, deletes
only a section that is not in use, and does not enter the null section. -/
def CsAction.Careful (s : CriticalSections) : CsAction → Prop
  | .init _ address => address = 0 ∨ s.Fresh address
  | .enter _ address attempt => address ≠ 0 ∨ attempt = true
  | .alloc t => ∀ address attempt, s.threads t = .allocating address attempt → s.Fresh address
  | .delete _ address => address = 0 ∨ s.Unused address
  | _ => True

/-- A run of careful steps from the empty table. -/
inductive CriticalSections.Run : CriticalSections → Prop
  | start : Run {}
  | step {s s' : CriticalSections} (action : CsAction) : Run s → action.Careful s →
      s.step action = some s' → Run s'

/-! ### The invariant -/

/-- 1 while the thread is about to unlock an entry of the section. -/
def CsPhase.unlocks (address : ℕ) : CsPhase → ℕ
  | .unlocking a _ => if a = address then 1 else 0
  | _ => 0

@[simp] theorem CsPhase.unlocks_idle (ad : ℕ) : CsPhase.idle.unlocks ad = 0 := rfl

@[simp] theorem CsPhase.unlocks_allocating (ad a : ℕ) (att : Bool) :
    (CsPhase.allocating a att).unlocks ad = 0 := rfl

@[simp] theorem CsPhase.unlocks_locking (ad a i : ℕ) (att : Bool) :
    (CsPhase.locking a i att).unlocks ad = 0 := rfl

@[simp] theorem CsPhase.unlocks_unlocking (ad a i : ℕ) :
    (CsPhase.unlocking a i).unlocks ad = if a = ad then 1 else 0 := rfl

/-- The section that the thread is about to enter. -/
def CsPhase.entering : CsPhase → Option ℕ
  | .allocating address _ => some address
  | .locking address _ _ => some address
  | _ => none

namespace CriticalSections

variable {s s' : CriticalSections} {t address add ad i : ℕ} {e e' : CriticalSectionEntry}

/-- No thread is inside the null section or about to enter it. -/
def NullFree (s : CriticalSections) : Prop :=
  ∀ t, s.inside t 0 = 0 ∧ (s.threads t).entering ≠ some 0

/-- How many times the thread has locked an entry of the section, and not unlocked it. -/
def holds (s : CriticalSections) (t address : ℕ) : ℕ :=
  s.inside t address + (s.threads t).unlocks address

/-- The entry `i` stands for the section. -/
def Entry (s : CriticalSections) (address i : ℕ) (e : CriticalSectionEntry) : Prop :=
  s.entries[i]? = some e ∧ e.For address

/-- The mutex counts what its owner holds, and nobody else holds anything. -/
def Counts (s : CriticalSections) (address : ℕ) (e : CriticalSectionEntry) : Prop :=
  ∀ t, (e.owner = some t → e.recursion = s.holds t address ∧ 0 < e.recursion) ∧
    (e.owner ≠ some t → s.holds t address = 0)

structure Inv (s : CriticalSections) : Prop where
  unique : ∀ address i j e e', s.Entry address i e → s.Entry address j e' → i = j
  locking : ∀ t address i attempt, s.threads t = .locking address i attempt →
    ∃ e, s.Entry address i e
  unlocking : ∀ t address i, s.threads t = .unlocking address i → ∃ e, s.Entry address i e
  counts : ∀ address i e, s.Entry address i e → s.Counts address e
  present : ∀ t address, 0 < s.holds t address → ∃ i e, s.Entry address i e

theorem findCsEntry_eq_some (h : findCsEntry s.entries ad = some i) : ∃ e, s.Entry ad i e := by
  obtain ⟨hl, hf, -⟩ := findIdx?_eq_some_iff_getElem.1 h
  exact ⟨_, getElem?_eq_getElem hl, of_decide_eq_true hf⟩

theorem findCsEntry_eq_none (h : findCsEntry s.entries ad = none) : ∀ j e, ¬s.Entry ad j e := by
  intro j e hy
  have hnot := findIdx?_eq_none_iff.1 h e (mem_of_getElem? hy.1)
  simp [hy.2] at hnot

theorem freeCsEntry_eq_some (h : freeCsEntry s.entries = some i) :
    i < s.entries.length ∧ ∀ ad e, ¬s.Entry ad i e := by
  obtain ⟨hl, hu, -⟩ := findIdx?_eq_some_iff_getElem.1 h
  refine ⟨hl, fun ad e hy => ?_⟩
  have hg := hy.1
  rw [getElem?_eq_getElem hl] at hg
  cases hg
  simp [hy.2.1] at hu

theorem entry_set {es : List CriticalSectionEntry} {j : ℕ} {e' : CriticalSectionEntry}
    (hi : i < s.entries.length) (he : es = s.entries.set i e) :
    (es[j]? = some e' ∧ e'.For ad) ↔ if i = j then e' = e ∧ e.For ad else s.Entry ad j e' := by
  subst he
  rw [getElem?_set]
  by_cases hj : i = j
  · subst hj
    simp only [if_true, hi]
    constructor
    · rintro ⟨heq, hf⟩
      cases heq
      exact ⟨rfl, hf⟩
    · rintro ⟨rfl, hf⟩
      exact ⟨rfl, hf⟩
  · simp only [if_neg hj]
    exact Iff.rfl

theorem Inv.start : Inv {} := by
  have hn : ∀ ad i e, ¬({} : CriticalSections).Entry ad i e := by
    rintro ad i e ⟨hg, hf, -⟩
    have hm := mem_of_getElem? hg
    obtain rfl := eq_of_mem_replicate hm
    cases hf
  refine ⟨fun ad i j e e' h => absurd h (hn _ _ _), ?_, ?_,
    fun ad i e h => absurd h (hn _ _ _), ?_⟩
  · intro t ad i a h
    cases h
  · intro t ad i h
    cases h
  · intro t ad h
    exact absurd h (Nat.lt_irrefl 0)

theorem Inv.newEntry (h : s.Inv) (hr : freeCsEntry s.entries = some i)
    (hf : ∀ j e, ¬s.Entry ad j e) : (s.setEntry i (newCsEntry ad)).Inv := by
  obtain ⟨hl, hu⟩ := freeCsEntry_eq_some hr
  have hn : ∀ {a j : ℕ} {e : CriticalSectionEntry}, (s.setEntry i (newCsEntry ad)).Entry a j e ↔
        if i = j then e = newCsEntry ad ∧ (newCsEntry ad).For a else s.Entry a j e :=
    fun {a j e} => entry_set hl rfl
  -- an entry that stood for a section still does
  have hke : ∀ {a j : ℕ} {e : CriticalSectionEntry}, s.Entry a j e →
      (s.setEntry i (newCsEntry ad)).Entry a j e := by
    intro a j e hold
    rw [hn, if_neg]
    · exact hold
    · rintro rfl
      exact hu a e hold
  refine ⟨fun a j k e e' hj hk => ?_, fun t a j att hp => ?_, fun t a j hp => ?_,
    fun a j e hj => ?_, fun t a hs => ?_⟩
  · rw [hn] at hj hk
    split at hj
    · next hi =>
      split at hk
      · next hik => exact hi.symm.trans hik
      · exact absurd hk (hj.2.2 ▸ hf k e')
    · split at hk
      · exact absurd hj (hk.2.2 ▸ hf j e)
      · exact h.unique a j k e e' hj hk
  · obtain ⟨e, he⟩ := h.locking t a j att hp
    exact ⟨e, hke he⟩
  · obtain ⟨e, he⟩ := h.unlocking t a j hp
    exact ⟨e, hke he⟩
  · rw [hn] at hj
    split at hj
    · obtain ⟨rfl, -, rfl⟩ := hj
      -- whoever held the section would have an entry for it
      refine fun t => ⟨fun ho => (by cases ho), fun _ => ?_⟩
      by_contra hne
      obtain ⟨k, e', he'⟩ := h.present t ad (Nat.pos_of_ne_zero hne)
      exact hf k e' he'
    · exact h.counts a j e hj
  · obtain ⟨k, e, he⟩ := h.present t a hs
    exact ⟨k, e, hke he⟩

theorem Inv.move (h : s.Inv) (ht : s'.entries = s.entries)
    (hh : ∀ t ad, s'.holds t ad = s.holds t ad)
    (hl : ∀ t ad i att, s'.threads t = .locking ad i att →
      s.threads t = .locking ad i att ∨ ∃ e, s.Entry ad i e)
    (hu : ∀ t ad i, s'.threads t = .unlocking ad i →
      s.threads t = .unlocking ad i ∨ ∃ e, s.Entry ad i e) : s'.Inv := by
  have hn : ∀ {a j : ℕ} {e : CriticalSectionEntry}, s'.Entry a j e ↔ s.Entry a j e := by
    intro a j e
    unfold Entry
    rw [ht]
  refine ⟨fun a j k e e' hj hk => ?_, fun t a j att hp => ?_, fun t a j hp => ?_,
    fun a j e hj => ?_, fun t a ho => ?_⟩
  · exact h.unique a j k e e' (hn.1 hj) (hn.1 hk)
  · rcases hl t a j att hp with hold | ⟨e, he⟩
    · obtain ⟨e, he⟩ := h.locking t a j att hold
      exact ⟨e, hn.2 he⟩
    · exact ⟨e, hn.2 he⟩
  · rcases hu t a j hp with hold | ⟨e, he⟩
    · obtain ⟨e, he⟩ := h.unlocking t a j hold
      exact ⟨e, hn.2 he⟩
    · exact ⟨e, hn.2 he⟩
  · intro t
    rw [hh]
    exact h.counts a j e (hn.1 hj) t
  · rw [hh] at ho
    obtain ⟨k, e, he⟩ := h.present t a ho
    exact ⟨k, e, hn.2 he⟩

theorem Inv.relock (h : s.Inv) (hn : s.Entry address i e) (hf : e'.For address)
    (het : s'.entries = s.entries.set i e')
    (ht : ∀ u, u ≠ t → s'.threads u = s.threads u) (hi : s'.threads t = .idle)
    (hh : ∀ u a, a ≠ address → s'.holds u a = s.holds u a)
    (hc : s'.Counts address e') : s'.Inv := by
  have hs : ∀ {a j : ℕ} {e'' : CriticalSectionEntry}, s'.Entry a j e'' ↔
      if i = j then e'' = e' ∧ e'.For a else s.Entry a j e'' :=
    fun {a j e''} => entry_set (List.getElem?_eq_some_iff.1 hn.1).1 het
  -- the same positions stand for the same sections
  have hold : ∀ {a j : ℕ} {e'' : CriticalSectionEntry}, s'.Entry a j e'' →
      ∃ e'', s.Entry a j e'' := by
    intro a j e'' hj
    rw [hs] at hj
    split at hj
    · next hij =>
      obtain ⟨rfl, hf'⟩ := hj
      obtain rfl : address = a := hf.2.symm.trans hf'.2
      exact ⟨e, hij ▸ hn⟩
    · exact ⟨e'', hj⟩
  have hke : ∀ {a j : ℕ} {e'' : CriticalSectionEntry}, s.Entry a j e'' →
      ∃ e'', s'.Entry a j e'' := by
    intro a j e'' hj
    by_cases hij : i = j
    · subst hij
      cases hn.1.symm.trans hj.1
      obtain rfl : address = a := hn.2.2.symm.trans hj.2.2
      exact ⟨e', by rw [hs, if_pos rfl]; exact ⟨rfl, hf⟩⟩
    · exact ⟨e'', by rw [hs, if_neg hij]; exact hj⟩
  refine ⟨fun a j k e₁ e₂ hj hk => ?_, fun u a j att hp => ?_, fun u a j hp => ?_,
    fun a j e₁ hj => ?_, fun u a ho => ?_⟩
  · obtain ⟨_, hj'⟩ := hold hj
    obtain ⟨_, hk'⟩ := hold hk
    exact h.unique a j k _ _ hj' hk'
  · have hne : u ≠ t := by
      rintro rfl
      rw [hi] at hp
      cases hp
    obtain ⟨_, he⟩ := h.locking u a j att ((ht u hne).symm.trans hp)
    exact hke he
  · have hne : u ≠ t := by
      rintro rfl
      rw [hi] at hp
      cases hp
    obtain ⟨_, he⟩ := h.unlocking u a j ((ht u hne).symm.trans hp)
    exact hke he
  · rw [hs] at hj
    split at hj
    · obtain ⟨rfl, hf'⟩ := hj
      obtain rfl : address = a := hf.2.symm.trans hf'.2
      exact hc
    · next hij =>
      have hne : a ≠ address := by
        rintro rfl
        exact hij (h.unique a i j e e₁ hn hj)
      intro u
      rw [hh u a hne]
      exact h.counts a j e₁ hj u
  · by_cases ha : a = address
    · subst ha
      obtain ⟨e'', he''⟩ := hke hn
      exact ⟨i, e'', he''⟩
    · rw [hh u a ha] at ho
      obtain ⟨k, _, he⟩ := h.present u a ho
      obtain ⟨e'', he''⟩ := hke he
      exact ⟨k, e'', he''⟩

theorem Inv.delete (h : s.Inv) (hf : findCsEntry s.entries ad = some i)
    (hu : s.Unused ad) : (s.setEntry i {}).Inv := by
  obtain ⟨e₀, he₀⟩ := findCsEntry_eq_some hf
  have hs : ∀ {a j : ℕ} {e : CriticalSectionEntry}, (s.setEntry i {}).Entry a j e ↔
      if i = j then e = {} ∧ ({} : CriticalSectionEntry).For a else s.Entry a j e :=
    fun {a j e} => entry_set (List.getElem?_eq_some_iff.1 he₀.1).1 rfl
  have hold : ∀ {a j : ℕ} {e : CriticalSectionEntry}, (s.setEntry i {}).Entry a j e →
      s.Entry a j e := by
    intro a j e hj
    rw [hs] at hj
    split at hj
    · cases hj.2.1
    · exact hj
  have hke : ∀ {a j : ℕ} {e : CriticalSectionEntry}, a ≠ ad → s.Entry a j e →
      (s.setEntry i {}).Entry a j e := by
    intro a j e hn hj
    rw [hs, if_neg]
    · exact hj
    · rintro rfl
      cases he₀.1.symm.trans hj.1
      exact hn (hj.2.2.symm.trans he₀.2.2)
  refine ⟨fun a j k e e' hj hk => h.unique a j k e e' (hold hj) (hold hk),
    fun t a j att hp => ?_, fun t a j hp => ?_,
    fun a j e hj => h.counts a j e (hold hj), fun t a ho => ?_⟩
  · obtain ⟨e, he⟩ := h.locking t a j att hp
    refine ⟨e, hke ?_ he⟩
    rintro rfl
    exact (hu t).2.1 j att hp
  · obtain ⟨e, he⟩ := h.unlocking t a j hp
    refine ⟨e, hke ?_ he⟩
    rintro rfl
    exact (hu t).2.2 j hp
  · obtain ⟨k, e, he⟩ := h.present t a ho
    refine ⟨k, e, hke ?_ he⟩
    rintro rfl
    have hp : (s.threads t).unlocks a = 0 := by
      cases ht : s.threads t with
      | unlocking b j =>
        have hn : b ≠ a := by
          rintro rfl
          exact (hu t).2.2 j ht
        simp [hn]
      | _ => rfl
    have hz : s.holds t a = 0 := by
      unfold holds
      rw [(hu t).1, hp]
    exact absurd (hz ▸ ho) (Nat.lt_irrefl 0)

/-! ### Every step keeps the invariant -/

theorem holds_setPhase {ph : CsPhase} (u a : ℕ) (h : ph.unlocks a = (s.threads t).unlocks a) :
    (s.setPhase t ph).holds u a = s.holds u a := by
  unfold holds setPhase
  by_cases hu : u = t
  · subst hu
    simp [h]
  · simp [hu]

theorem holds_entered (hi : ∀ a, (s.threads t).unlocks a = 0) (u a : ℕ) :
    (s.entered t ad).holds u a = s.holds u a + if u = t ∧ a = ad then 1 else 0 := by
  unfold entered setInside setPhase holds
  by_cases hu : u = t
  · subst hu
    by_cases ha : a = ad
    · subst ha
      simp [hi]
    · simp [ha, hi]
  · simp [hu]

theorem lock_eq_some (ad : ℕ) (h : e.lock t = some e') : (e'.For ad ↔ e.For ad) ∧
    e'.owner = some t ∧
    ((e.owner = none ∧ e'.recursion = 1) ∨
      (e.owner = some t ∧ e'.recursion = e.recursion + 1)) := by
  unfold CriticalSectionEntry.lock at h
  split at h
  · next hn =>
    cases h
    exact ⟨Iff.rfl, rfl, .inl ⟨hn, rfl⟩⟩
  · split at h
    · next ho =>
      cases h
      exact ⟨Iff.rfl, ho, .inr ⟨ho, rfl⟩⟩
    · cases h

attribute [local simp] setInside

theorem Inv.lock (h : s.Inv) {att : Bool} (hp : s.threads t = .locking ad i att)
    (hg : s.entries[i]? = some e) (hl : e.lock t = some e') :
    ((s.setEntry i e').entered t ad).Inv := by
  obtain ⟨e₀, he₀⟩ := h.locking t ad i att hp
  cases hg.symm.trans he₀.1
  obtain ⟨hf, ho, hrec⟩ := lock_eq_some ad hl
  have hh : ∀ u a, ((s.setEntry i e').entered t ad).holds u a =
      s.holds u a + if u = t ∧ a = ad then 1 else 0 :=
    holds_entered (s := s.setEntry i e') fun a => by
      change (s.threads t).unlocks a = 0
      rw [hp]
      rfl
  refine h.relock (t := t) he₀ (hf.2 he₀.2) rfl (fun u hu => ?_) ?_
    (fun u a ha => by simp [hh, ha]) fun u => ?_
  · simp [entered, setPhase, setEntry, hu]
  · simp [entered, setPhase]
  · rw [hh]
    by_cases hu : u = t
    · subst hu
      refine ⟨fun _ => ?_, fun hne => absurd ho hne⟩
      simp only [and_self, if_true]
      have hc := h.counts ad i e he₀ u
      rcases hrec with ⟨hn, he⟩ | ⟨hw, hs⟩
      · rw [he, hc.2 (by simp [hn])]
        exact ⟨rfl, Nat.one_pos⟩
      · rw [hs, (hc.1 hw).1]
        exact ⟨rfl, Nat.succ_pos _⟩
    · simp only [hu, false_and, if_false, Nat.add_zero]
      refine ⟨fun ho' => ?_, fun _ => (h.counts ad i e he₀ u).2 ?_⟩
      · exact absurd (some.inj (ho'.symm.trans ho)) hu
      · rcases hrec with ⟨hn, -⟩ | ⟨hw, -⟩
        · simp [hn]
        · rw [hw]
          exact fun heq => hu (some.inj heq).symm

theorem Inv.unlock (h : s.Inv) (hp : s.threads t = .unlocking ad i)
    (hg : s.entries[i]? = some e) : ((s.setEntry i (e.unlock t)).setPhase t .idle).Inv := by
  obtain ⟨e₀, he₀⟩ := h.unlocking t ad i hp
  cases hg.symm.trans he₀.1
  -- the thread that unlocks owns the mutex
  have hh : s.holds t ad = s.inside t ad + 1 := by
    unfold holds
    rw [hp]
    simp
  have hc := h.counts ad i e he₀
  have ho : e.owner = some t := by
    by_contra he
    rw [(hc t).2 he] at hh
    omega
  have hrec := (hc t).1 ho
  have hl : (e.unlock t).For ad ∧
      ((e.unlock t).owner = none ∧ e.recursion = 1 ∨ (e.unlock t).owner = some t ∧
        (e.unlock t).recursion = e.recursion - 1 ∧ e.recursion ≠ 1) := by
    unfold CriticalSectionEntry.unlock
    rw [if_neg (not_not_intro ho)]
    split
    · next hon => exact ⟨he₀.2, .inl ⟨rfl, hon⟩⟩
    · next he => exact ⟨he₀.2, .inr ⟨ho, rfl, he⟩⟩
  have hm : ∀ u a, ((s.setEntry i (e.unlock t)).setPhase t .idle).holds u a =
      s.holds u a - if u = t ∧ a = ad then 1 else 0 := by
    intro u a
    unfold holds setPhase setEntry
    by_cases hu : u = t
    · subst hu
      by_cases ha : a = ad
      · subst ha
        simp [hp]
      · simp [hp, ha, Ne.symm ha]
    · simp [hu]
  refine h.relock (t := t) he₀ hl.1 rfl (fun u hu => ?_) ?_
    (fun u a ha => by simp [hm, ha]) fun u => ?_
  · simp [setPhase, setEntry, hu]
  · simp [setPhase]
  · rw [hm]
    by_cases hu : u = t
    · subst hu
      simp only [and_self, if_true]
      rcases hl.2 with ⟨hn, hon⟩ | ⟨hw, hr, he⟩
      · refine ⟨fun ho' => ?_, fun _ => by omega⟩
        rw [hn] at ho'
        cases ho'
      · exact ⟨fun _ => ⟨by omega, by omega⟩, fun hnot => absurd hw hnot⟩
    · simp only [hu, false_and, if_false, Nat.sub_zero]
      refine ⟨fun ho' => ?_, fun _ => (hc u).2 ?_⟩
      · rcases hl.2 with ⟨hn, -⟩ | ⟨hw, -⟩
        · rw [hn] at ho'
          cases ho'
        · exact absurd (some.inj (ho'.symm.trans hw)) hu
      · rw [ho]
        exact fun heq => hu (some.inj heq).symm

/-- A thread goes to a phase in which it holds what it held, and which names an entry of its
section. -/
theorem Inv.setPhase (h : s.Inv) {ph : CsPhase} (hn : ∀ a, ph.unlocks a = (s.threads t).unlocks a)
    (hl : ∀ ad i att, ph = .locking ad i att → ∃ e, s.Entry ad i e)
    (hun : ∀ ad i, ph ≠ .unlocking ad i) : (s.setPhase t ph).Inv := by
  refine h.move rfl (fun u a => holds_setPhase u a (hn a)) (fun u a j att hu => ?_)
    fun u a j hu => ?_
  · by_cases ht : u = t
    · subst ht
      exact .inr (hl a j att ((update_self ..).symm.trans hu))
    · exact .inl ((update_of_ne ht ..).symm.trans hu)
  · by_cases ht : u = t
    · subst ht
      exact absurd ((update_self ..).symm.trans hu) (hun a j)
    · exact .inl ((update_of_ne ht ..).symm.trans hu)

theorem NullFree.setPhase (h : s.NullFree) {ph : CsPhase} (hp : ph.entering ≠ some 0) :
    (s.setPhase t ph).NullFree := by
  intro u
  refine ⟨(h u).1, ?_⟩
  unfold CriticalSections.setPhase
  by_cases hu : u = t
  · subst hu
    simpa using hp
  · simpa [hu] using (h u).2

theorem NullFree.setInside (h : s.NullFree) {n : ℕ} (hn : ad ≠ 0) :
    (s.setInside t ad n).NullFree := by
  intro u
  refine ⟨?_, (h u).2⟩
  by_cases hu : u = t
  · subst hu
    simpa [Ne.symm hn] using (h u).1
  · simpa [hu] using (h u).1

theorem NullFree.entered (h : s.NullFree) (hn : ad ≠ 0) : (s.entered t ad).NullFree :=
  (h.setPhase (by simp [CsPhase.entering])).setInside hn

/-- **A careful step enters the null section in no thread.** -/
theorem NullFree.step (h : s.NullFree) {ac : CsAction} (hc : ac.Careful s)
    (hs : s.step ac = some s') : s'.NullFree := by
  cases ac with
  | init t ad =>
    simp only [CriticalSections.step] at hs
    split_ifs at hs
    · exact some.inj hs ▸ h
    · split at hs
      all_goals exact some.inj hs ▸ h
  | delete t ad =>
    simp only [CriticalSections.step] at hs
    split_ifs at hs
    · exact some.inj hs ▸ h
    · split at hs
      all_goals exact some.inj hs ▸ h
  | enter t ad att =>
    simp only [CriticalSections.step] at hs
    split_ifs at hs with hi hz ha
    · exact some.inj hs ▸ h
    · exact absurd (hc.resolve_left (not_not_intro hz)) ha
    · split at hs
      all_goals exact some.inj hs ▸ h.setPhase (by simpa [CsPhase.entering] using hz)
  | alloc t =>
    simp only [CriticalSections.step] at hs
    split at hs
    · next ad att hp =>
      have hz : ad ≠ 0 := by simpa [hp, CsPhase.entering] using (h t).2
      split at hs
      · exact some.inj hs ▸ NullFree.setPhase (s := s.setEntry _ _) h
          (by simpa [CsPhase.entering] using hz)
      · split_ifs at hs
        · exact some.inj hs ▸ h.setPhase (by simp [CsPhase.entering])
        · exact some.inj hs ▸ h.entered hz
    · cases hs
  | lock t =>
    simp only [CriticalSections.step] at hs
    split at hs
    · next ad i att hp =>
      have hz : ad ≠ 0 := by simpa [hp, CsPhase.entering] using (h t).2
      split at hs
      · exact some.inj hs ▸ NullFree.entered (s := s.setEntry _ _) h hz
      · split_ifs at hs
        exact some.inj hs ▸ h.setPhase (by simp [CsPhase.entering])
    · cases hs
  | leave t ad =>
    simp only [CriticalSections.step] at hs
    split_ifs at hs with hin hz
    · exact absurd (hz ▸ (h t).1) (not_or.1 hin).2
    · split at hs
      · exact some.inj hs ▸ (h.setPhase (by simp [CsPhase.entering])).setInside hz
      · exact some.inj hs ▸ h.setInside hz
  | unlock t =>
    simp only [CriticalSections.step] at hs
    split at hs
    · split at hs
      · exact some.inj hs ▸ NullFree.setPhase (s := s.setEntry _ _) h
          (by simp [CsPhase.entering])
      · cases hs
    · cases hs

attribute [local simp] CriticalSections.setPhase

/-- **A careful step keeps the invariant.** -/
theorem Inv.step (h : s.Inv) (hz : s.NullFree) {ac : CsAction} (hc : ac.Careful s)
    (hs : s.step ac = some s') : s'.Inv := by
  cases ac with
  | init t ad =>
    simp only [CriticalSections.step] at hs
    split_ifs at hs with hi hn
    · exact some.inj hs ▸ h
    split at hs
    · next i hr =>
      cases hs
      exact h.newEntry hr fun j e he => (hc.resolve_left hn).1 e (mem_of_getElem? he.1) he.2
    · cases hs
      exact h
  | delete t ad =>
    simp only [CriticalSections.step] at hs
    split_ifs at hs with hi hn
    · exact some.inj hs ▸ h
    split at hs
    · next i hf =>
      cases hs
      exact h.delete hf (hc.resolve_left hn)
    · cases hs
      exact h
  | enter t ad att =>
    simp only [CriticalSections.step] at hs
    split_ifs at hs with hi hn ha
    · exact some.inj hs ▸ h
    · exact absurd (hc.resolve_left (not_not_intro hn)) ha
    have hp : s.threads t = .idle := not_not.1 hi
    split at hs
    · next i hf =>
      cases hs
      refine h.setPhase (fun a => by simp [hp]) (fun a j a' heq => ?_) (by simp)
      obtain ⟨rfl, rfl, -⟩ := CsPhase.locking.inj heq
      exact findCsEntry_eq_some hf
    · cases hs
      exact h.setPhase (fun a => by simp [hp]) (by simp) (by simp)
  | alloc t =>
    simp only [CriticalSections.step] at hs
    split at hs
    · next ad att hp =>
      obtain ⟨hw, e₀, hm, hun⟩ := hc ad att hp
      split at hs
      · next i hr =>
        cases hs
        have hv := h.newEntry hr fun j e he => hw e (mem_of_getElem? he.1) he.2
        refine hv.setPhase (t := t) (fun a => ?_) (fun a j a' heq => ?_) (by simp)
        · change _ = (s.threads t).unlocks a
          simp [hp]
        · obtain ⟨rfl, rfl, -⟩ := CsPhase.locking.inj heq
          have hlt := (freeCsEntry_eq_some hr).1
          exact ⟨newCsEntry ad,
            (entry_set (s := s) hlt rfl).2 (by rw [if_pos rfl]; exact ⟨rfl, rfl, rfl⟩)⟩
      · next hn =>
        -- there is room
        have hus := findIdx?_eq_none_iff.1 hn e₀ hm
        simp [hun] at hus
    · cases hs
  | lock t =>
    simp only [CriticalSections.step] at hs
    split at hs
    · next ad i att hp =>
      split at hs
      · next e' hl =>
        cases hs
        obtain ⟨e, hg, hl⟩ := bind_eq_some_iff.1 hl
        exact h.lock hp hg hl
      · split at hs
        · cases hs
          exact h.setPhase (fun a => by simp [hp]) (by simp) (by simp)
        · cases hs
    · cases hs
  | leave t ad =>
    simp only [CriticalSections.step] at hs
    split at hs
    · cases hs
    next hin =>
    push Not at hin
    obtain ⟨hp, ho⟩ := hin
    have hnz : ad ≠ 0 := by
      rintro rfl
      exact ho (hz t).1
    rw [if_neg hnz] at hs
    split at hs
    · next i hf =>
      cases hs
      refine h.move rfl (fun u a => ?_) (fun u a j att hu => ?_) fun u a j hu => ?_
      · unfold holds setInside CriticalSections.setPhase
        by_cases ht : u = t
        · subst ht
          by_cases ha : a = ad
          · subst ha
            simpa [hp] using Nat.sub_add_cancel (Nat.pos_of_ne_zero ho)
          · simp [hp, ha, Ne.symm ha]
        · simp [ht]
      · by_cases ht : u = t
        · subst ht
          simp at hu
        · exact .inl (by simpa [ht] using hu)
      · by_cases ht : u = t
        · subst ht
          obtain ⟨rfl, rfl⟩ : ad = a ∧ i = j := by
            simpa using hu
          exact .inr (findCsEntry_eq_some hf)
        · exact .inl (by simpa [ht] using hu)
    · next hn =>
      -- a thread inside the section finds its entry
      obtain ⟨i, e, he⟩ := h.present t ad
        (Nat.add_pos_left (Nat.pos_of_ne_zero ho) _)
      exact absurd he (findCsEntry_eq_none hn i e)
  | unlock t =>
    simp only [CriticalSections.step] at hs
    split at hs
    · next ad i hp =>
      split at hs
      · next e hg =>
        cases hs
        exact h.unlock hp hg
      · cases hs
    · cases hs

theorem Run.inv (h : Run s) : s.Inv ∧ s.NullFree := by
  induction h with
  | start => exact ⟨Inv.start, fun _ => ⟨rfl, nofun⟩⟩
  | step a _ hc hs ih => exact ⟨ih.1.step ih.2 hc hs, ih.2.step hc hs⟩

theorem Inv.exclusive (h : s.Inv) : s.Exclusive := by
  intro t t' ad ht ht'
  obtain ⟨i, e, he⟩ := h.present t ad (Nat.add_pos_left ht _)
  have ho : ∀ {u}, 0 < s.inside u ad → e.owner = some u := by
    intro u hu
    by_contra hn
    have hz := (h.counts ad i e he u).2 hn
    unfold holds at hz
    omega
  exact some.inj ((ho ht).symm.trans (ho ht'))

end CriticalSections
end TradutorLinux.Sync
