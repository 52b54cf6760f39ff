import Mathlib.Data.List.Count
import TradutorLinux.Sync.CriticalSections

/-!
# SRW locks

The pool of SRW locks of `kernel32/sync.cpp`: `get_or_create_srw` finds or makes
the entry of an address in one section, and an entry is never given back.  The
entry's `shared_mutex` locks.

## Main definitions

* `SrwLocks`, `SrwAction`, `SrwLocks.step`, `SrwAction.Careful`

## Main results

* `locks_exclude`
-/

namespace TradutorLinux.Sync

open List Function Option

/-! ### The pool -/

inductive SrwMode
  | exclusive
  | shared
deriving DecidableEq

/-- `InternalSrwLock`; `exclusive` and `shared` are who holds its `shared_mutex`. -/
structure SrwLock where
  used : Bool := false
  exclusive : Option ℕ := none
  shared : List ℕ := []
deriving DecidableEq

def kMaxSrwLocks : ℕ := 256

/-- What a thread is about to do; `attempt` for `TryAcquireSRWLockExclusive`. -/
inductive SrwPhase
  | idle
  | locking (mode : SrwMode) (address entry : ℕ) (attempt : Bool)
  | unlocking (mode : SrwMode) (address entry : ℕ)
deriving DecidableEq

/-- The pool, `g_srw_map`, the threads, and how many times every thread has acquired and not
released a lock. -/
structure SrwLocks where
  pool : List SrwLock := List.replicate kMaxSrwLocks {}
  map : ℕ → Option ℕ := fun _ => none
  threads : ℕ → SrwPhase := fun _ => .idle
  inside : SrwMode → ℕ → ℕ → ℕ := fun _ _ _ => 0

namespace SrwLock

/-- `lock` and `lock_shared`; absent while they would block. -/
def lock (t : ℕ) (mode : SrwMode) (l : SrwLock) : Option SrwLock :=
  match mode with
  | .exclusive => if l.exclusive = none ∧ l.shared = [] then some { l with exclusive := some t }
      else none
  | .shared => if l.exclusive = none then some { l with shared := t :: l.shared } else none

/-- `unlock` and `unlock_shared`. -/
def unlock (t : ℕ) (mode : SrwMode) (l : SrwLock) : SrwLock :=
  match mode with
  | .exclusive => { l with exclusive := none }
  | .shared => { l with shared := l.shared.erase t }

end SrwLock

/-! ### Steps -/

/-- A step of the thread `t`. -/
inductive SrwAction
  /-- `AcquireSRWLockExclusive` and `AcquireSRWLockShared` up to `get_or_create_srw`. -/
  | acquire (t address : ℕ) (mode : SrwMode)
  /-- `TryAcquireSRWLockExclusive` up to `get_or_create_srw`. -/
  | attempt (t address : ℕ)
  | lock (t : ℕ)
  /-- `ReleaseSRWLockExclusive` and `ReleaseSRWLockShared` up to `get_or_create_srw`. -/
  | release (t address : ℕ) (mode : SrwMode)
  | unlock (t : ℕ)
deriving DecidableEq

namespace SrwLocks

variable (s : SrwLocks)

/-- The entry `i` is now the one of the address. -/
def create (address i : ℕ) : SrwLocks :=
  { s with
    pool := s.pool.modify i fun l => { l with used := true }
    map := update s.map address (some i) }

/-- `get_or_create_srw`. -/
def getOrCreate (address : ℕ) : SrwLocks × Option ℕ :=
  match s.map address with
  | some i => (s, some i)
  | none =>
    match s.pool.findIdx? fun l => !l.used with
    | some i => (s.create address i, some i)
    | none => (s, none)

def setPhase (t : ℕ) (phase : SrwPhase) : SrwLocks :=
  { s with threads := update s.threads t phase }

def setLock (i : ℕ) (l : SrwLock) : SrwLocks := { s with pool := s.pool.set i l }

/-- The thread now holds the lock `n` times in the mode. -/
def setInside (mode : SrwMode) (t address n : ℕ) : SrwLocks :=
  { s with
    inside := update s.inside mode
      (update (s.inside mode) t (update (s.inside mode t) address n)) }

/-- The acquiring call returns. -/
def entered (mode : SrwMode) (t address : ℕ) : SrwLocks :=
  (s.setPhase t .idle).setInside mode t address (s.inside mode t address + 1)

/-- One step, if the thread can take it. -/
def step : SrwAction → Option SrwLocks
  | .acquire t address mode =>
    if s.threads t ≠ .idle then none
    else match s.getOrCreate address with
      | (s, some i) => some (s.setPhase t (.locking mode address i false))
      | (s, none) => some (s.entered mode t address)
  | .attempt t address =>
    if s.threads t ≠ .idle then none
    else if address = 0 then some (s.entered .exclusive t address)
    else match s.getOrCreate address with
      | (s, some i) => some (s.setPhase t (.locking .exclusive address i true))
      | (s, none) => some (s.entered .exclusive t address)
  | .lock t =>
    match s.threads t with
    | .locking mode address i attempt =>
      match (s.pool[i]?).bind (SrwLock.lock t mode) with
      | some l => some ((s.setLock i l).entered mode t address)
      | none => if attempt then some (s.setPhase t .idle) else none
    | _ => none
  | .release t address mode =>
    if s.threads t ≠ .idle ∨ s.inside mode t address = 0 then none
    else match s.getOrCreate address with
      | (s, some i) => some ((s.setPhase t (.unlocking mode address i)).setInside mode t address
          (s.inside mode t address - 1))
      | (s, none) => some (s.setInside mode t address (s.inside mode t address - 1))
  | .unlock t =>
    match s.threads t with
    | .unlocking mode _ i =>
      match s.pool[i]? with
      | some l => some ((s.setLock i (l.unlock t mode)).setPhase t .idle)
      | none => none
    | _ => none

/-- While a thread holds a lock exclusively, no other thread holds it. -/
def Exclusive : Prop :=
  ∀ t t' address mode, 0 < s.inside .exclusive t address → 0 < s.inside mode t' address → t = t'

/-- The lock has an entry, or there is one left for it. -/
def Room (address : ℕ) : Prop := (s.map address).isSome ∨ ∃ l ∈ s.pool, l.used = false

end SrwLocks

/-- The step finds or makes the entry of its lock, and does not attempt the null lock. -/
def SrwAction.Careful (s : SrwLocks) : SrwAction → Prop
  | .acquire _ address _ => s.Room address
  | .attempt _ address => address ≠ 0 ∧ s.Room address
  | _ => True

/-- A run of careful steps from the empty pool. -/
inductive SrwLocks.Run : SrwLocks → Prop
  | start : Run {}
  | step {s s' : SrwLocks} (action : SrwAction) : Run s → action.Careful s →
      s.step action = some s' → Run s'

/-! ### The invariant -/

/-- 1 while the thread is about to unlock the lock. -/
def SrwPhase.unlocks (mode : SrwMode) (address : ℕ) : SrwPhase → ℕ
  | .unlocking m a _ => if m = mode ∧ a = address then 1 else 0
  | _ => 0

@[simp] theorem SrwPhase.unlocks_idle (mo : SrwMode) (ad : ℕ) :
    SrwPhase.idle.unlocks mo ad = 0 := rfl

@[simp] theorem SrwPhase.unlocks_locking (mo m : SrwMode) (ad a i : ℕ) (att : Bool) :
    (SrwPhase.locking m a i att).unlocks mo ad = 0 := rfl

@[simp] theorem SrwPhase.unlocks_unlocking (mo m : SrwMode) (ad a i : ℕ) :
    (SrwPhase.unlocking m a i).unlocks mo ad = if m = mo ∧ a = ad then 1 else 0 :=
  rfl

namespace SrwLocks

variable {s s' : SrwLocks} {t address add ad i : ℕ} {mode mo : SrwMode} {l l' : SrwLock}

/-- How many times the thread has locked the lock, and not unlocked it. -/
def holds (s : SrwLocks) (mode : SrwMode) (t address : ℕ) : ℕ :=
  s.inside mode t address + (s.threads t).unlocks mode address

/-- The mutex knows who holds it, and how. -/
structure Counts (s : SrwLocks) (address : ℕ) (l : SrwLock) : Prop where
  exclusive : ∀ t, s.holds .exclusive t address = if l.exclusive = some t then 1 else 0
  shared : ∀ t, s.holds .shared t address = l.shared.count t
  alone : l.exclusive ≠ none → l.shared = []

structure Inv (s : SrwLocks) : Prop where
  injective : ∀ a b i, s.map a = some i → s.map b = some i → a = b
  mapped : ∀ a i, s.map a = some i → ∃ l, s.pool[i]? = some l ∧ l.used = true ∧ s.Counts a l
  unused : ∀ (i : ℕ) (l : SrwLock), s.pool[i]? = some l → l.used = false →
    l.exclusive = none ∧ l.shared = []
  locking : ∀ t mode a i attempt, s.threads t = .locking mode a i attempt → s.map a = some i
  unlocking : ∀ t mode a i, s.threads t = .unlocking mode a i → s.map a = some i
  present : ∀ mode t a, 0 < s.holds mode t a → (s.map a).isSome

theorem Inv.start : Inv {} where
  injective := fun a b i h => by cases h
  mapped := fun a i h => by cases h
  unused := fun i l h _ => by
    obtain rfl := eq_of_mem_replicate (mem_of_getElem? h)
    exact ⟨rfl, rfl⟩
  locking := fun t mo a i att h => by cases h
  unlocking := fun t mo a i h => by cases h
  present := fun mo t a h => absurd h (Nat.lt_irrefl 0)

theorem map_create {a j : ℕ} (h : (s.create ad i).map a = some j) :
    (a = ad ∧ i = j) ∨ (a ≠ ad ∧ s.map a = some j) := by
  by_cases ha : a = ad
  · subst ha
    exact .inl ⟨rfl, by simpa [create] using h⟩
  · exact .inr ⟨ha, by simpa [create, ha] using h⟩

theorem create_map_of_some {a j : ℕ} (hm : s.map address = none) (h : s.map a = some j) :
    (s.create address i).map a = some j := by
  have hn : a ≠ address := by
    rintro rfl
    rw [hm] at h
    cases h
  exact (update_of_ne hn ..).trans h

theorem getElem?_create (j : ℕ) : (s.create ad i).pool[j]? =
    if i = j then (s.pool[j]?).map fun l => { l with used := true } else s.pool[j]? := by
  unfold create
  by_cases hi : i = j
  · simp [hi]
  · simp [hi]

theorem Inv.create (h : s.Inv) (hm : s.map ad = none) {l : SrwLock}
    (hg : s.pool[i]? = some l) (hn : l.used = false) : (s.create ad i).Inv := by
  -- an entry in use is not the new one
  have he : ∀ {a j}, s.map a = some j → i ≠ j := by
    rintro a j ha rfl
    obtain ⟨l', hl, hu, -⟩ := h.mapped a i ha
    cases hg.symm.trans hl
    rw [hn] at hu
    cases hu
  -- nobody holds a lock without an entry
  have hno : ∀ mo t, s.holds mo t ad = 0 := by
    intro mo t
    by_contra ho
    have hs := h.present mo t ad (Nat.pos_of_ne_zero ho)
    rw [hm] at hs
    cases hs
  obtain ⟨hx, hh⟩ := h.unused i l hg hn
  refine ⟨fun a b j ha hb => ?_, fun a j ha => ?_, fun j l' hl' hnot => ?_,
    fun t mo a j att hp => create_map_of_some hm (h.locking t mo a j att hp),
    fun t mo a j hp => create_map_of_some hm (h.unlocking t mo a j hp),
    fun mo t a ho => ?_⟩
  · rcases map_create ha with ⟨rfl, rfl⟩ | ⟨-, ha'⟩
    · rcases map_create hb with ⟨rfl, -⟩ | ⟨-, hb'⟩
      · rfl
      · exact absurd rfl (he hb')
    · rcases map_create hb with ⟨rfl, rfl⟩ | ⟨-, hb'⟩
      · exact absurd rfl (he ha')
      · exact h.injective a b j ha' hb'
  · rcases map_create ha with ⟨rfl, rfl⟩ | ⟨-, ha⟩
    · refine ⟨{ l with used := true }, ?_, rfl, fun t => ?_, fun t => ?_, fun _ => hh⟩
      · rw [getElem?_create, if_pos rfl, hg]
        rfl
      · exact (hno .exclusive t).trans (by simp [hx])
      · exact (hno .shared t).trans (by simp [hh])
    · obtain ⟨l', hl', hu, hc⟩ := h.mapped a j ha
      refine ⟨l', ?_, hu, hc.exclusive, hc.shared, hc.alone⟩
      rw [getElem?_create, if_neg (he ha), hl']
  · rw [getElem?_create] at hl'
    split at hl'
    · obtain ⟨l₀, -, rfl⟩ := map_eq_some_iff.1 hl'
      cases hnot
    · exact h.unused j l' hl' hnot
  · obtain ⟨j, hj⟩ := isSome_iff_exists.1 (h.present mo t a ho)
    rw [create_map_of_some hm hj]
    rfl

theorem Inv.getOrCreate (h : s.Inv) (hr : s.Room ad) :
    ∃ s' i, s.getOrCreate ad = (s', some i) ∧ s'.Inv ∧ s'.map ad = some i ∧
      s'.threads = s.threads ∧ s'.inside = s.inside := by
  unfold SrwLocks.getOrCreate
  cases hm : s.map ad with
  | some i => exact ⟨s, i, rfl, h, hm, rfl, rfl⟩
  | none =>
    cases hf : s.pool.findIdx? fun l => !l.used with
    | none =>
      rcases hr with hs | ⟨l, he, hn⟩
      · rw [hm] at hs
        cases hs
      · have hu := findIdx?_eq_none_iff.1 hf l he
        simp [hn] at hu
    | some i =>
      obtain ⟨hl, hn, -⟩ := findIdx?_eq_some_iff_getElem.1 hf
      exact ⟨s.create ad i, i, rfl, h.create hm (getElem?_eq_getElem hl) (by simpa using hn),
        update_self .., rfl, rfl⟩

theorem Inv.move (h : s.Inv) (hp : s'.pool = s.pool) (hm : s'.map = s.map)
    (hh : ∀ mo u a, s'.holds mo u a = s.holds mo u a)
    (ho : ∀ u mo a i att, s'.threads u = .locking mo a i att → s.map a = some i)
    (hn : ∀ u mo a i, s'.threads u = .unlocking mo a i → s.map a = some i) : s'.Inv := by
  refine ⟨fun a b j => ?_, fun a j => ?_, fun j l => ?_, fun u mo a j att hu => ?_,
    fun u mo a j hu => ?_, fun mo u a => ?_⟩
  · rw [hm]
    exact h.injective a b j
  · rw [hm, hp]
    intro ha
    obtain ⟨l, hl, hs, hc⟩ := h.mapped a j ha
    refine ⟨l, hl, hs, fun u => ?_, fun u => ?_, hc.alone⟩
    · rw [hh]
      exact hc.exclusive u
    · rw [hh]
      exact hc.shared u
  · rw [hp]
    exact h.unused j l
  · rw [hm]
    exact ho u mo a j att hu
  · rw [hm]
    exact hn u mo a j hu
  · rw [hh, hm]
    exact h.present mo u a

theorem Inv.setPhase (h : s.Inv) {ph : SrwPhase}
    (hn : ∀ mo a, ph.unlocks mo a = (s.threads t).unlocks mo a)
    (hl : ∀ mo a i att, ph = .locking mo a i att → s.map a = some i)
    (hun : ∀ mo a i, ph ≠ .unlocking mo a i) : (s.setPhase t ph).Inv := by
  refine h.move rfl rfl (fun mo u a => ?_) (fun u mo a j att hu => ?_) fun u mo a j hu => ?_
  · unfold holds SrwLocks.setPhase
    by_cases ht : u = t
    · subst ht
      simp [hn]
    · simp [ht]
  · by_cases ht : u = t
    · subst ht
      exact hl mo a j att ((update_self ..).symm.trans hu)
    · exact h.locking u mo a j att ((update_of_ne ht ..).symm.trans hu)
  · by_cases ht : u = t
    · subst ht
      exact absurd ((update_self ..).symm.trans hu) (hun mo a j)
    · exact h.unlocking u mo a j ((update_of_ne ht ..).symm.trans hu)

/-- The mutex of a lock changes hands: only what is held of this lock changes. -/
theorem Inv.relock (h : s.Inv) (hm : s.map ad = some i) (hg : s.pool[i]? = some l)
    (hp : s'.pool = s.pool.set i l') (hm' : s'.map = s.map) (hs : l'.used = l.used)
    (hr : ∀ u, u ≠ t → s'.threads u = s.threads u) (hi : s'.threads t = .idle)
    (hh : ∀ mo u a, a ≠ ad → s'.holds mo u a = s.holds mo u a) (hc : s'.Counts ad l') : s'.Inv := by
  have hl : i < s.pool.length := (List.getElem?_eq_some_iff.1 hg).1
  obtain ⟨l₀, hl₀, hu₀, -⟩ := h.mapped ad i hm
  cases hg.symm.trans hl₀
  refine ⟨fun a b j => ?_, fun a j ha => ?_, fun j l₁ hl₁ hnot => ?_,
    fun u mo a j att hu => ?_, fun u mo a j hu => ?_, fun mo u a ho => ?_⟩
  · rw [hm']
    exact h.injective a b j
  · rw [hm'] at ha
    by_cases haa : a = ad
    · subst haa
      cases hm.symm.trans ha
      exact ⟨l', by rw [hp, getElem?_set_self hl], hs.trans hu₀, hc⟩
    · obtain ⟨l₁, hl₁, hu₁, hc₁⟩ := h.mapped a j ha
      have hj : i ≠ j := by
        rintro rfl
        exact haa (h.injective a ad i ha hm)
      refine ⟨l₁, by rw [hp, getElem?_set_ne hj, hl₁], hu₁, fun u => ?_, fun u => ?_, hc₁.alone⟩
      · rw [hh _ u a haa]
        exact hc₁.exclusive u
      · rw [hh _ u a haa]
        exact hc₁.shared u
  · rw [hp] at hl₁
    by_cases hj : i = j
    · subst hj
      rw [getElem?_set_self hl] at hl₁
      cases hl₁
      rw [hs.trans hu₀] at hnot
      cases hnot
    · rw [getElem?_set_ne hj] at hl₁
      exact h.unused j l₁ hl₁ hnot
  · rw [hm']
    have ht : u ≠ t := by
      rintro rfl
      rw [hi] at hu
      cases hu
    exact h.locking u mo a j att ((hr u ht).symm.trans hu)
  · rw [hm']
    have ht : u ≠ t := by
      rintro rfl
      rw [hi] at hu
      cases hu
    exact h.unlocking u mo a j ((hr u ht).symm.trans hu)
  · rw [hm']
    by_cases haa : a = ad
    · subst haa
      rw [hm]
      rfl
    · rw [hh mo u a haa] at ho
      exact h.present mo u a ho

/-! ### Every step keeps the invariant -/

theorem holds_entered (hi : ∀ m a, (s.threads t).unlocks m a = 0) (m : SrwMode) (u a : ℕ) :
    (s.entered mo t ad).holds m u a = s.holds m u a + if m = mo ∧ u = t ∧ a = ad then 1 else 0 := by
  unfold entered setInside SrwLocks.setPhase holds
  by_cases hm : m = mo
  · subst hm
    by_cases hu : u = t
    · subst hu
      by_cases ha : a = ad
      · subst ha
        simp [hi]
      · simp [ha, hi]
    · simp [hu]
  · by_cases hu : u = t
    · subst hu
      simp [hm, hi]
    · simp [hm, hu]

attribute [local simp] setInside

theorem Inv.lock (h : s.Inv) {att : Bool}
    (hp : s.threads t = .locking mo ad i att) (hg : s.pool[i]? = some l)
    (hl : l.lock t mo = some l') : ((s.setLock i l').entered mo t ad).Inv := by
  have hm := h.locking t mo ad i att hp
  obtain ⟨l₀, hl₀, -, hc⟩ := h.mapped ad i hm
  cases hg.symm.trans hl₀
  have hh : ∀ m u a, ((s.setLock i l').entered mo t ad).holds m u a =
      s.holds m u a + if m = mo ∧ u = t ∧ a = ad then 1 else 0 :=
    holds_entered (s := s.setLock i l') fun m a => by
      change (s.threads t).unlocks m a = 0
      rw [hp]
      rfl
  have hu : l'.used = l.used := by
    cases mo
    all_goals
      simp only [SrwLock.lock] at hl
      split at hl
      · cases hl
        rfl
      · cases hl
  refine h.relock (t := t) hm hg rfl rfl hu (fun u ht => ?_) ?_
    (fun m u a ha => by simp [hh, ha]) ?_
  · simp [entered, SrwLocks.setPhase, setLock, ht]
  · simp [entered, SrwLocks.setPhase]
  · cases mo with
    | exclusive =>
      simp only [SrwLock.lock] at hl
      split at hl
      · next hf =>
        cases hl
        refine ⟨fun u => ?_, fun u => ?_, fun _ => hf.2⟩
        · rw [hh, hc.exclusive u, hf.1]
          by_cases ht : u = t
          · simp [ht]
          · simp [ht, Ne.symm ht]
        · rw [hh, hc.shared u]
          simp
      · cases hl
    | shared =>
      simp only [SrwLock.lock] at hl
      split at hl
      · next hf =>
        cases hl
        refine ⟨fun u => ?_, fun u => ?_, fun hn => absurd hf hn⟩
        · rw [hh, hc.exclusive u]
          simp
        · rw [hh, hc.shared u, count_cons]
          by_cases ht : u = t
          · simp [ht]
          · simp [ht, Ne.symm ht]
      · cases hl

theorem Inv.unlock (h : s.Inv) (hp : s.threads t = .unlocking mode address i)
    (hg : s.pool[i]? = some l) : ((s.setLock i (l.unlock t mode)).setPhase t .idle).Inv := by
  have hmp := h.unlocking t mode address i hp
  obtain ⟨l₀, hl₀, -, hc⟩ := h.mapped address i hmp
  cases hg.symm.trans hl₀
  have hs : 0 < s.holds mode t address := by
    unfold holds
    rw [hp]
    simp
  have hm : ∀ m u a, ((s.setLock i (l.unlock t mode)).setPhase t .idle).holds m u a =
      s.holds m u a - if m = mode ∧ u = t ∧ a = address then 1 else 0 := by
    intro m u a
    unfold holds SrwLocks.setPhase setLock
    by_cases hu : u = t
    · subst hu
      by_cases hma : m = mode ∧ a = address
      · obtain ⟨rfl, rfl⟩ := hma
        simp [hp]
      · have hn : ¬(mode = m ∧ address = a) := fun heq => hma ⟨heq.1.symm, heq.2.symm⟩
        simp [update_self, hp, SrwPhase.unlocks_idle, SrwPhase.unlocks_unlocking,
          if_neg hn, true_and, if_neg hma, Nat.sub_zero]
    · simp [hu]
  refine h.relock (t := t) hmp hg rfl rfl (by cases mode <;> rfl) (fun u hu => ?_) ?_
    (fun m u a ha => by simp [hm, ha]) ?_
  · simp [SrwLocks.setPhase, setLock, hu]
  · simp [SrwLocks.setPhase]
  · cases mode with
    | exclusive =>
      -- the thread that unlocks is the one that holds
      have ho : l.exclusive = some t := by
        by_contra hn
        rw [hc.exclusive t, if_neg hn] at hs
        exact absurd hs (Nat.lt_irrefl 0)
      refine ⟨fun u => ?_, fun u => ?_, fun hn => absurd rfl hn⟩
      · rw [hm, hc.exclusive u, ho]
        by_cases hu : u = t
        · simp [SrwLock.unlock, hu]
        · simp [SrwLock.unlock, hu, Ne.symm hu]
      · rw [hm, hc.shared u]
        simp [SrwLock.unlock]
    | shared =>
      refine ⟨fun u => ?_, fun u => ?_, fun hn => ?_⟩
      · change _ = if l.exclusive = some u then 1 else 0
        rw [hm, hc.exclusive u]
        simp
      · rw [hm, hc.shared u]
        by_cases hu : u = t
        · subst hu
          simp [SrwLock.unlock]
        · simp [SrwLock.unlock, hu, count_erase_of_ne hu]
      · change l.shared.erase t = []
        rw [hc.alone hn]
        rfl

theorem Inv.found (h : s.Inv) (hi : s.threads t = .idle) (hm : s.map ad = some i)
    (att : Bool) : (s.setPhase t (.locking mo ad i att)).Inv := by
  refine h.setPhase (fun m a => by simp [hi]) (fun m a j a' heq => ?_) (by simp)
  obtain ⟨-, rfl, rfl, -⟩ := SrwPhase.locking.inj heq
  exact hm

/-- **A careful step keeps the invariant.** -/
theorem Inv.step (h : s.Inv) {ac : SrwAction} (hc : ac.Careful s)
    (hs : s.step ac = some s') : s'.Inv := by
  cases ac with
  | acquire t ad mo =>
    simp only [SrwLocks.step] at hs
    split at hs
    · cases hs
    next hi =>
    obtain ⟨s₁, i, heq, hn, hma, hh, -⟩ := h.getOrCreate hc
    rw [heq] at hs
    cases hs
    exact hn.found (hh ▸ not_not.1 hi) hma false
  | attempt t ad =>
    simp only [SrwLocks.step] at hs
    split at hs
    · cases hs
    next hi =>
    rw [if_neg hc.1] at hs
    obtain ⟨s₁, i, heq, hn, hma, hh, -⟩ := h.getOrCreate hc.2
    rw [heq] at hs
    cases hs
    exact hn.found (hh ▸ not_not.1 hi) hma true
  | lock t =>
    simp only [SrwLocks.step] at hs
    split at hs
    · next mo ad i attempt hp =>
      split at hs
      · next l' hl =>
        cases hs
        obtain ⟨l, hg, hl⟩ := bind_eq_some_iff.1 hl
        exact h.lock hp hg hl
      · split at hs
        · cases hs
          exact h.setPhase (fun m a => by simp [hp]) (by simp) (by simp)
        · cases hs
    · cases hs
  | release t ad mo =>
    simp only [SrwLocks.step] at hs
    split at hs
    · cases hs
    next hin =>
    push Not at hin
    obtain ⟨hi, ho⟩ := hin
    -- a thread that holds the lock finds its entry
    have hso := h.present mo t ad (Nat.add_pos_left (Nat.pos_of_ne_zero ho) _)
    obtain ⟨i, hma⟩ := isSome_iff_exists.1 hso
    have heq : s.getOrCreate ad = (s, some i) := by simp [SrwLocks.getOrCreate, hma]
    rw [heq] at hs
    cases hs
    refine h.move rfl rfl (fun m u a => ?_) (fun u m a j attempt hu => ?_) fun u m a j hu => ?_
    · unfold holds setInside SrwLocks.setPhase
      by_cases ht : u = t
      · subst ht
        by_cases hm : m = mo
        · subst hm
          by_cases ha : a = ad
          · subst ha
            simpa [hi] using Nat.sub_add_cancel (Nat.pos_of_ne_zero ho)
          · simp [hi, ha, Ne.symm ha]
        · simp [hi, hm, Ne.symm hm]
      · by_cases hm : m = mo
        · subst hm
          simp [ht]
        · simp [ht, hm]
    · by_cases ht : u = t
      · subst ht
        simp [SrwLocks.setPhase] at hu
      · exact h.locking u m a j attempt (by simpa [SrwLocks.setPhase, ht] using hu)
    · by_cases ht : u = t
      · subst ht
        obtain ⟨-, rfl, rfl⟩ : mo = m ∧ ad = a ∧ i = j := by
          simpa [SrwLocks.setPhase] using hu
        exact hma
      · exact h.unlocking u m a j (by simpa [SrwLocks.setPhase, ht] using hu)
  | unlock t =>
    simp only [SrwLocks.step] at hs
    split at hs
    · next mo ad i hp =>
      split at hs
      · next l hg =>
        cases hs
        exact h.unlock hp hg
      · cases hs
    · cases hs

theorem Run.inv (h : Run s) : s.Inv := by
  induction h with
  | start => exact Inv.start
  | step a _ hc hs ih => exact ih.step hc hs

theorem Inv.exclusive (h : s.Inv) : s.Exclusive := by
  intro t t' address mode ht ht'
  have hp : 0 < s.holds .exclusive t address := Nat.add_pos_left ht _
  have hp' : 0 < s.holds mode t' address := Nat.add_pos_left ht' _
  obtain ⟨i, hm⟩ := isSome_iff_exists.1 (h.present .exclusive t address hp)
  obtain ⟨l, -, -, hc⟩ := h.mapped address i hm
  have ho : ∀ {u}, 0 < s.holds .exclusive u address → l.exclusive = some u := by
    intro u hu
    by_contra hn
    rw [hc.exclusive u, if_neg hn] at hu
    exact absurd hu (Nat.lt_irrefl 0)
  cases mode with
  | exclusive => exact some.inj ((ho hp).symm.trans (ho hp'))
  | shared =>
    have he := hc.alone (by rw [ho hp]; exact some_ne_none t)
    rw [hc.shared t', he] at hp'
    exact absurd hp' (Nat.lt_irrefl 0)

end SrwLocks

/-! ### Both tables -/

/-- **Mutual exclusion.**  In every interleaving of steps that find or make the one entry of
their lock, no two threads are inside the same critical section, and none holds an SRW lock that
another holds exclusively. -/
theorem locks_exclude (sections : CriticalSections) (locks : SrwLocks) :
    (sections.Run → sections.Exclusive) ∧ (locks.Run → locks.Exclusive) :=
  ⟨fun h => h.inv.1.exclusive, fun h => h.inv.exclusive⟩

/-- The steps one after the other. -/
def CriticalSections.steps (actions : List CsAction) : Option CriticalSections :=
  actions.foldlM CriticalSections.step {}

/-- The steps one after the other. -/
def SrwLocks.steps (actions : List SrwAction) : Option SrwLocks :=
  actions.foldlM SrwLocks.step {}

/-- Two threads enter a new section: both find nothing, each makes an entry, both come in. -/
theorem not_exclusive_race : ∃ s, CriticalSections.steps
    [.enter 0 8 false, .enter 1 8 false, .alloc 0, .alloc 1, .lock 0, .lock 1] = some s ∧
      ¬s.Exclusive := by
  have hi : (CriticalSections.steps
      [.enter 0 8 false, .enter 1 8 false, .alloc 0, .alloc 1, .lock 0, .lock 1]).map
        (fun s => (s.inside 0 8, s.inside 1 8)) = some (1, 1) := by
    decide +kernel
  obtain ⟨s, hs, heq⟩ := map_eq_some_iff.mp hi
  obtain ⟨hz, ho⟩ := Prod.mk.inj heq
  refine ⟨s, hs, fun h => ?_⟩
  exact absurd (h 0 1 8 (by omega) (by omega)) (by decide)

/-- A section that is made before it is entered, and a lock that one thread acquires. -/
theorem locks_exclude_apart : (∃ s, CriticalSections.steps [.init 0 8, .enter 0 8 false, .lock 0] =
      some s ∧ s.Exclusive) ∧
    ∃ s, SrwLocks.steps [.acquire 0 8 .exclusive, .lock 0] = some s ∧ s.Exclusive := by
  constructor
  · refine ⟨_, rfl, (locks_exclude _ {}).1 ?_⟩
    refine ((CriticalSections.Run.start.step (.init 0 8) ?_ rfl).step (.enter 0 8 false)
      (.inl (by decide)) rfl).step (.lock 0) trivial rfl
    refine .inr ⟨fun e he hf => ?_, {}, mem_replicate.mpr ⟨by decide, rfl⟩, rfl⟩
    obtain rfl := eq_of_mem_replicate he
    cases hf.1
  · refine ⟨_, rfl, (locks_exclude {} _).2 ?_⟩
    exact (SrwLocks.Run.start.step (.acquire 0 8 .exclusive)
      (.inr ⟨{}, mem_replicate.mpr ⟨by decide, rfl⟩, rfl⟩) rfl).step (.lock 0) trivial rfl

end TradutorLinux.Sync
