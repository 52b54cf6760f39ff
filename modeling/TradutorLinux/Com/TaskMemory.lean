import TradutorLinux.Util.Holders

/-!
# Task memory under several threads

`CoTaskMemAlloc` registers a block after the heap has given it, `CoTaskMemFree`
forgets a block before the heap gets it back; `CoTaskMemRealloc` lets the heap
move a block first, and then tells the table.  Between the two, the old address
belongs to the heap again.

## Main definitions

* `TaskMemory` — the heap's blocks, `g_task_allocations`, and the calls under way.
* `TaskMemory.step` — one call of the heap, or one section under the mutex.
* `TaskMemory.Abandoned` — a `realloc` has moved away from an address that it
  still has to take from the table.

## Main results

* `task_memory_owned` — **in the runs whose steps are orderly, nothing is freed
  twice or reported as unowned, and at rest the table has the live blocks.**
-/

namespace TradutorLinux

open Function

open Option

/-! ### States -/

/-- A call of `tl_CoTaskMemAlloc`, `tl_CoTaskMemFree` or `tl_CoTaskMemRealloc` that has to do
with the heap; `mine` says that the caller had the block. -/
inductive TaskCall
  | alloc
  | free (p : ℕ) (mine : Bool)
  | realloc (p : ℕ) (mine : Bool)
deriving DecidableEq

/-- The place a call has reached. -/
inductive TaskPhase
  | entered
  /-- `malloc` has given a block. -/
  | allocated (p : ℕ)
  /-- The table has forgotten the block of a `free`. -/
  | erased
  /-- The table has the block of a `realloc`. -/
  | checked
  /-- `std::realloc` has moved the block. -/
  | moved (q : ℕ)
  | returned
deriving DecidableEq

/-- What must not happen: the heap is asked to free or to move a block that is not live, or the
block of a caller is ignored as unowned. -/
inductive TaskFault
  | notLive (p : ℕ)
  | unowned (p : ℕ)
deriving DecidableEq

/-- The task memory of a process.  `given` are the blocks that calls have returned and callers
have not passed back. -/
structure TaskMemory where
  live : Finset ℕ := ∅
  table : Finset ℕ := ∅
  given : Finset ℕ := ∅
  calls : Pool TaskCall TaskPhase := []
  faults : List TaskFault := []

/-- What a thread asks for. -/
inductive TaskRequest
  | alloc (size : ℕ)
  | free (p : ℕ)
  | realloc (p size : ℕ)

/-- The steps; `answer` is what the heap answers. -/
inductive TaskMemory.Action
  | request (r : TaskRequest)
  /-- `std::malloc` -/
  | malloc (i : ℕ) (answer : Option ℕ)
  /-- `insert` -/
  | insert (i : ℕ)
  /-- `erase` -/
  | erase (i : ℕ)
  /-- `std::free` -/
  | release (i : ℕ)
  /-- `contains` -/
  | check (i : ℕ)
  /-- `std::realloc` -/
  | reallocate (i : ℕ) (answer : Option ℕ)
  /-- `erase` and `insert` -/
  | exchange (i : ℕ)

namespace TaskMemory

open TaskMemory (Action)

variable (s : TaskMemory)

/-! ### Steps -/

/-- The caller passes a block, if it has it. -/
def pass (p : ℕ) (k : TaskCall) : TaskMemory :=
  { s with given := s.given.erase p, calls := s.calls.start k .entered }

/-- A call begins; the ones that do not get to the heap are over at once. -/
def request : TaskRequest → TaskMemory
  | .alloc size => if size = 0 then s else { s with calls := s.calls.start .alloc .entered }
  | .free p => if p = 0 then s else s.pass p (.free p (p ∈ s.given))
  | .realloc p size =>
    if p = 0 then
      if size = 0 then s else { s with calls := s.calls.start .alloc .entered }
    else if size = 0 then s.pass p (.free p (p ∈ s.given))
    else s.pass p (.realloc p (p ∈ s.given))

/-- The call `i` goes on. -/
def goOn (i : ℕ) (x : TaskPhase) : TaskMemory := { s with calls := s.calls.move i x }

/-- The call `i` returns with a block for its caller. -/
def returns (i : ℕ) (p : ℕ) : TaskMemory :=
  { s with given := insert p s.given, calls := s.calls.move i .returned }

def fault (f : TaskFault) : TaskMemory := { s with faults := f :: s.faults }

/-- The block of the call is not in the table. -/
def ignored (i p : ℕ) (mine : Bool) : TaskMemory :=
  if mine = true then ((s.returns i p).fault (.unowned p)) else s.goOn i .returned

/-- A step of the calls.  The heap gives only blocks that are not live. -/
def step : Action → Option TaskMemory
  | .request r => some (s.request r)
  | .malloc i answer =>
    match s.calls[i]?, answer with
    | some (.alloc, .entered), none => some (s.goOn i .returned)
    | some (.alloc, .entered), some p =>
      if p = 0 ∨ p ∈ s.live then none
      else some { s.goOn i (.allocated p) with live := insert p s.live }
    | _, _ => none
  | .insert i =>
    match s.calls[i]? with
    | some (.alloc, .allocated p) => some { s.returns i p with table := insert p s.table }
    | _ => none
  | .erase i =>
    match s.calls[i]? with
    | some (.free p mine, .entered) =>
      if p ∈ s.table then some { s.goOn i .erased with table := s.table.erase p }
      else some (s.ignored i p mine)
    | _ => none
  | .release i =>
    match s.calls[i]? with
    | some (.free p _, .erased) =>
      if p ∈ s.live then some { s.goOn i .returned with live := s.live.erase p }
      else some ((s.goOn i .returned).fault (.notLive p))
    | _ => none
  | .check i =>
    match s.calls[i]? with
    | some (.realloc p mine, .entered) =>
      if p ∈ s.table then some (s.goOn i .checked) else some (s.ignored i p mine)
    | _ => none
  | .reallocate i answer =>
    match s.calls[i]? with
    | some (.realloc p _, .checked) =>
      if p ∉ s.live then some ((s.goOn i .returned).fault (.notLive p))
      else match answer with
        | none => some (s.returns i p)
        | some q =>
          if q = p then some (s.returns i p)
          else if q = 0 ∨ q ∈ s.live then none
          else some { s.goOn i (.moved q) with live := insert q (s.live.erase p) }
    | _ => none
  | .exchange i =>
    match s.calls[i]? with
    | some (.realloc p _, .moved q) =>
      some { s.returns i q with table := insert q (s.table.erase p) }
    | _ => none

/-! ### What should hold -/

/-- No call is under way. -/
def AtRest : Prop := ∀ i k x, s.calls.At i k x → x = .returned

/-- A `realloc` has moved away from the address, and the table still has it. -/
def Abandoned (p : ℕ) : Prop := ∃ i mine q, s.calls.At i (.realloc p mine) (.moved q)

/-- The heap gives no abandoned address out again, and what a caller passes that it does not
have is not the block of another. -/
def Orderly : Action → Prop
  | .malloc _ answer => ∀ p, answer = some p → ¬s.Abandoned p
  | .reallocate _ answer => ∀ q, answer = some q → ¬s.Abandoned q
  | .erase i => ∀ p, s.calls.At i (.free p false) .entered → p ∉ s.table
  | .check i => ∀ p, s.calls.At i (.realloc p false) .entered → p ∉ s.table
  | _ => True

/-- Nothing has been freed twice or reported as unowned; at rest, the callers have the live
blocks, and the table has them. -/
def Owned : Prop :=
  s.faults = [] ∧ (s.AtRest → s.table = s.live ∧ s.given = s.live)

/-! ### The invariant -/

/-- How a call holds a block. -/
inductive Mark
  /-- The block is live and not in the table. -/
  | fresh
  /-- The block is live and in the table. -/
  | kept
  /-- The address is in the table and not live. -/
  | gone
deriving DecidableEq

end TaskMemory

open TaskMemory

def TaskCall.holds : TaskCall → TaskPhase → ℕ → Option Mark
  | alloc, .allocated p, a => if a = p then some .fresh else none
  | free p true, .entered, a => if a = p then some .kept else none
  | free p _, .erased, a => if a = p then some .fresh else none
  | realloc p true, .entered, a => if a = p then some .kept else none
  | realloc p _, .checked, a => if a = p then some .kept else none
  | realloc p _, .moved q, a => if a = q then some .fresh else if a = p then some .gone else none
  | _, _, _ => none

namespace TaskMemory

open TaskMemory (Action)

def isGiven : Holder Mark → Bool
  | .callers => true
  | _ => false

def isLive : Holder Mark → Bool
  | .nobody | .call _ .gone => false
  | _ => true

def isListed : Holder Mark → Bool
  | .nobody | .call _ .fresh => false
  | _ => true

/-- Callers, heap and table have what the hands say. -/
structure Sound (s : TaskMemory) (holder : ℕ → Holder Mark) : Prop where
  exact : Exact TaskCall.holds s.calls holder
  given : Lists isGiven s.given holder
  live : Lists isLive s.live holder
  table : Lists isListed s.table holder
  faults : s.faults = []

variable {s s' : TaskMemory} {holder : ℕ → Holder Mark}

attribute [local simp] Lists

theorem sound_new : Sound {} fun _ => .nobody :=
  ⟨Exact.nil, by simp [isGiven], by simp [isLive], by simp [isListed], rfl⟩

/-- At rest there are the callers only. -/
theorem Sound.owned (h : Sound s holder) : s.Owned := by
  refine ⟨h.faults, fun hr => ?_⟩
  have hn : ∀ i k x, s.calls.At i k x → ∀ a, TaskCall.holds k x a = none := by
    intro i k x ht a
    rw [hr i k x ht]
    cases k with
    | alloc => rfl
    | free p mi => cases mi <;> rfl
    | realloc p mi => cases mi <;> rfl
  have hc := h.exact.unheld hn
  have hl : ∀ a, (isListed (holder a) = isLive (holder a)) ∧
      isGiven (holder a) = isLive (holder a) := by
    intro a
    cases ha : holder a with
    | nobody => exact ⟨rfl, rfl⟩
    | callers => exact ⟨rfl, rfl⟩
    | call i m => exact absurd ha (hc a i m)
  constructor
  · ext a
    rw [h.table a, h.live a, (hl a).1]
  · ext a
    rw [h.given a, h.live a, (hl a).2]

/-! ### Steps keep it -/

theorem only_call {p i : ℕ} (h : (holder p = .nobody ∨ holder p = .callers) ∨
    ∃ m, holder p = .call i m) : ∀ j m, holder p = .call j m → j = i := by
  intro j m hm
  rcases h with (heq | heq) | ⟨m', heq⟩
  · rw [heq] at hm
    cases hm
  · rw [heq] at hm
    cases hm
  · rw [heq] at hm
    cases hm
    rfl

theorem sound_alloc (h : Sound s holder) :
    Sound { s with calls := s.calls.start .alloc .entered } holder := by
  refine { h with exact := ?_ }
  refine h.exact.start (fun a m => ?_) fun _ _ _ _ => Iff.rfl
  constructor
  · intro hm
    exact absurd (h.exact.lt_length hm) (lt_irrefl _)
  · intro hm
    cases hm

theorem Sound.pass (h : Sound s holder) {p : ℕ} {k : Bool → TaskCall}
    (hk : ∀ mi a, TaskCall.holds (k mi) .entered a =
      if mi ∧ a = p then some .kept else none) :
    ∃ holder', Sound (s.pass p (k (p ∈ s.given))) holder' := by
  by_cases hp : p ∈ s.given
  · have hc : holder p = .callers := by
      have hl := (h.given p).1 hp
      unfold isGiven at hl
      split at hl
      · assumption
      · cases hl
    refine ⟨update holder p (.call s.calls.length .kept), ?_, ?_, ?_, ?_, h.faults⟩
    · refine h.exact.start_one (fun j m hm => ?_) (fun j m hm => ?_) (fun m => ?_) fun b hb => ?_
      · rw [hc] at hm
        cases hm
      · cases hm
        rfl
      · rw [hk]
        simp [hp]
      · rw [hk]
        simp [hb]
    · exact h.given.erase p rfl
    · exact h.live.keep p (by rw [hc]; rfl)
    · exact h.table.keep p (by rw [hc]; rfl)
  · refine ⟨holder, ?_, ?_, h.live, h.table, h.faults⟩
    · refine h.exact.start (fun a m => ?_) fun _ _ _ _ => Iff.rfl
      rw [hk]
      simp only [hp, decide_false, Bool.false_eq_true, false_and, if_false]
      constructor
      · intro hm
        exact absurd (h.exact.lt_length hm) (lt_irrefl _)
      · intro hm
        cases hm
    · show Lists isGiven (s.given.erase p) holder
      rw [Finset.erase_eq_of_notMem hp]
      exact h.given

attribute [local simp] TaskCall.holds

theorem holds_free (p : ℕ) (mi : Bool) (a : ℕ) : TaskCall.holds (.free p mi) .entered a =
    if mi ∧ a = p then some .kept else none := by
  cases mi <;> simp

theorem holds_realloc (p : ℕ) (mi : Bool) (a : ℕ) : TaskCall.holds (.realloc p mi) .entered a =
      if mi ∧ a = p then some .kept else none := by
  cases mi <;> simp

theorem Sound.request (h : Sound s holder) (r : TaskRequest) :
    ∃ holder', Sound (s.request r) holder' := by
  cases r with
  | alloc si =>
    simp only [TaskMemory.request]
    split
    · exact ⟨holder, h⟩
    · exact ⟨holder, sound_alloc h⟩
  | free p =>
    simp only [TaskMemory.request]
    split
    · exact ⟨holder, h⟩
    · exact h.pass (holds_free p)
  | realloc p si =>
    simp only [TaskMemory.request]
    split
    · split
      · exact ⟨holder, h⟩
      · exact ⟨holder, sound_alloc h⟩
    · split
      · exact h.pass (holds_free p)
      · exact h.pass (holds_realloc p)

theorem Sound.nobody (h : Sound s holder) {q : ℕ} (hl : q ∉ s.live) (hg : ¬s.Abandoned q) :
    holder q = .nobody := by
  rw [h.live q] at hl
  cases hq : holder q with
  | nobody => rfl
  | callers =>
    rw [hq] at hl
    exact absurd rfl hl
  | call i m =>
    rw [hq] at hl
    cases m with
    | fresh => exact absurd rfl hl
    | kept => exact absurd rfl hl
    | gone =>
      obtain ⟨k, x, ha, hm⟩ := (h.exact q i .gone).1 hq
      refine absurd ?_ hg
      unfold TaskCall.holds at hm
      split at hm
      case h_6 mi p =>
        split at hm
        · cases hm
        · split at hm
          · next heq => exact ⟨i, _, _, heq ▸ ha⟩
          · cases hm
      all_goals first
        | (split at hm <;> cases hm)
        | cases hm

theorem Sound.goOn_returned (h : Sound s holder) {i : ℕ} {k : TaskCall} {x : TaskPhase}
    (ha : s.calls.At i k x) (hn : ∀ a, TaskCall.holds k x a = none) :
    Sound (s.goOn i .returned) holder := by
  refine { h with exact := h.exact.move_same ha fun a => ?_ }
  rw [hn]
  cases k with
  | alloc => rfl
  | free p mi => cases mi <;> rfl
  | realloc p mi => cases mi <;> rfl

variable {mine mi : Bool} {i p : ℕ}

section

variable (h : Sound s holder)
include h

theorem Sound.ignored {k : Bool → TaskCall} (hk : ∀ mi a, TaskCall.holds (k mi) .entered a =
      if mi ∧ a = p then some .kept else none)
    (ha : s.calls.At i (k mi) .entered) (hp : p ∉ s.table) : Sound (s.ignored i p mi) holder := by
  cases mi with
  | true =>
    have hh : holder p = .call i .kept := h.exact.held ha (by rw [hk]; simp)
    rw [h.table p, hh] at hp
    exact absurd rfl hp
  | false => exact h.goOn_returned ha fun a => by rw [hk]; simp

theorem Sound.malloc (ha : s.calls.At i .alloc .entered) (hl : p ∉ s.live) (hg : ¬s.Abandoned p) :
    Sound { s.goOn i (.allocated p) with live := insert p s.live }
      (update holder p (.call i .fresh)) := by
  have hn := h.nobody hl hg
  refine ⟨?_, ?_, ?_, ?_, h.faults⟩
  · refine h.exact.move_one ha (only_call (.inl (.inl hn))) (fun j m hm => ?_)
      (fun m => ?_) fun b hb => ?_
    · cases hm
      rfl
    · simp
    · simp [hb]
  · exact h.given.keep p (by rw [hn]; rfl)
  · exact h.live.insert p rfl
  · exact h.table.keep p (by rw [hn]; rfl)

theorem Sound.inserted (ha : s.calls.At i .alloc (.allocated p)) :
    Sound { s.returns i p with table := insert p s.table } (update holder p .callers) := by
  have hf : holder p = .call i .fresh := h.exact.held ha (by simp)
  refine ⟨?_, ?_, ?_, ?_, h.faults⟩
  · refine h.exact.move_one ha (only_call (.inr ⟨_, hf⟩)) (fun j m hm => ?_) (fun m => ?_)
      fun b hb => ?_
    · cases hm
    · simp
    · simp [hb]
  · exact h.given.insert p rfl
  · exact h.live.keep p (by rw [hf]; rfl)
  · exact h.table.insert p rfl

theorem Sound.erased (ha : s.calls.At i (.free p true) .entered) :
    Sound { s.goOn i .erased with table := s.table.erase p }
      (update holder p (.call i .fresh)) := by
  have hk : holder p = .call i .kept := h.exact.held ha (by simp)
  refine ⟨?_, ?_, ?_, ?_, h.faults⟩
  · refine h.exact.move_one ha (only_call (.inr ⟨_, hk⟩)) (fun j m hm => ?_) (fun m => ?_)
      fun b hb => ?_
    · cases hm
      rfl
    · simp
    · simp [hb]
  · exact h.given.keep p (by rw [hk]; rfl)
  · exact h.live.keep p (by rw [hk]; rfl)
  · exact h.table.erase p rfl

theorem Sound.release (ha : s.calls.At i (.free p mi) .erased) :
    p ∈ s.live ∧ Sound { s.goOn i .returned with live := s.live.erase p }
      (update holder p .nobody) := by
  have hf : holder p = .call i .fresh := h.exact.held ha (by cases mi <;> simp)
  refine ⟨?_, ?_, ?_, ?_, ?_, h.faults⟩
  · rw [h.live p, hf]
    rfl
  · refine h.exact.move_one ha (only_call (.inr ⟨_, hf⟩)) (fun j m hm => ?_) (fun m => ?_)
      fun b hb => ?_
    · cases hm
    · cases mi <;> simp
    · cases mi <;> simp [hb]
  · exact h.given.keep p (by rw [hf]; rfl)
  · exact h.live.erase p rfl
  · exact h.table.keep p (by rw [hf]; rfl)

theorem Sound.returns (ha : s.calls.At i (.realloc p mi) .checked) :
    p ∈ s.live ∧ Sound (s.returns i p) (update holder p .callers) := by
  have hk : holder p = .call i .kept := h.exact.held ha (by cases mi <;> simp)
  refine ⟨?_, ?_, ?_, ?_, ?_, h.faults⟩
  · rw [h.live p, hk]
    rfl
  · refine h.exact.move_one ha (only_call (.inr ⟨_, hk⟩)) (fun j m hm => ?_) (fun m => ?_)
      fun b hb => ?_
    · cases hm
    · cases mi <;> simp
    · cases mi <;> simp [hb]
  · exact h.given.insert p rfl
  · exact h.live.keep p (by rw [hk]; rfl)
  · exact h.table.keep p (by rw [hk]; rfl)

theorem Sound.move_two {i p q : ℕ} {k : TaskCall} {x y : TaskPhase}
    (ht : s.calls.At i k x) {next n' : Holder Mark}
    (hp : ∀ j m, holder p = .call j m → j = i) (hq : ∀ j m, holder q = .call j m → j = i)
    (hn : ∀ j m, next = .call j m → j = i) (hn' : ∀ j m, n' = .call j m → j = i)
    (hy : ∀ a m, (if a = q then n' else if a = p then next else holder a) = .call i m ↔
      TaskCall.holds k y a = some m) :
    Exact TaskCall.holds (s.calls.move i y) (update (update holder p next) q n') := by
  have hu : ∀ a, update (update holder p next) q n' a =
      if a = q then n' else if a = p then next else holder a := by
    intro a
    by_cases ha : a = q
    · subst ha
      simp
    · by_cases hap : a = p
      · subst hap
        simp [ha]
      · simp [ha, hap]
  refine h.exact.move ht (fun a m => by rw [hu, hy]) fun a j m hj => ?_
  rw [hu]
  split
  · next ha =>
    subst ha
    exact ⟨fun hm => absurd (hn' j m hm) hj, fun hm => absurd (hq j m hm) hj⟩
  · split
    · next ha =>
      subst ha
      exact ⟨fun hm => absurd (hn j m hm) hj, fun hm => absurd (hp j m hm) hj⟩
    · rfl

theorem Sound.moved {i p q : ℕ}
    (ht : s.calls.At i (.realloc p mi) .checked) (hqp : q ≠ p) (hl : q ∉ s.live)
    (hg : ¬s.Abandoned q) : Sound { s.goOn i (.moved q) with live := insert q (s.live.erase p) }
      (update (update holder p (.call i .gone)) q (.call i .fresh)) := by
  have hk : holder p = .call i .kept := h.exact.held ht (by cases mi <;> simp)
  have hn := h.nobody hl hg
  have hq : update holder p (.call i .gone) q = .nobody := by rw [update_of_ne hqp, hn]
  refine ⟨?_, ?_, ?_, ?_, h.faults⟩
  · refine h.move_two ht (only_call (.inr ⟨_, hk⟩)) (only_call (.inl (.inl hn)))
      (fun j m hm => ?_) (fun j m hm => ?_) fun a m => ?_
    · cases hm
      rfl
    · cases hm
      rfl
    · have ho : a ≠ p → holder a ≠ .call i m := by
        intro ha hm
        have hh := h.exact.holds_of ht hm
        cases mi <;> simp [ha] at hh
      by_cases haq : a = q
      · cases mi <;> simp [haq]
      · by_cases hp : a = p
        · cases mi <;> simp [hp, hqp.symm]
        · cases mi <;> simp [hp, haq, ho hp]
  · exact (h.given.keep p (by rw [hk]; rfl)).keep q (by rw [hq]; rfl)
  · exact (h.live.erase p rfl).insert q rfl
  · exact (h.table.keep p (by rw [hk]; rfl)).keep q (by rw [hq]; rfl)

theorem Sound.exchanged {i p q : ℕ} (ht : s.calls.At i (.realloc p mi) (.moved q)) :
    Sound { s.returns i q with table := insert q (s.table.erase p) }
      (update (update holder p .nobody) q .callers) := by
  have hf : holder q = .call i .fresh := h.exact.held ht (by cases mi <;> simp)
  have hg : p ≠ q → holder p = .call i .gone := fun hn =>
    h.exact.held ht (by cases mi <;> simp [hn])
  have hp : ∃ m, holder p = .call i m := by
    by_cases hq : p = q
    · exact ⟨_, hq ▸ hf⟩
    · exact ⟨_, hg hq⟩
  refine ⟨?_, ?_, ?_, ?_, h.faults⟩
  · refine h.move_two ht (only_call (.inr hp)) (only_call (.inr ⟨_, hf⟩))
      (fun j m hm => ?_) (fun j m hm => ?_) fun a m => ?_
    · cases hm
    · cases hm
    · have ho : a ≠ q → a ≠ p → holder a ≠ .call i m := by
        intro ha hap hm
        have hh := h.exact.holds_of ht hm
        cases mi <;> simp [ha, hap] at hh
      by_cases ha : a = q
      · cases mi <;> simp [ha]
      · by_cases hap : a = p
        · cases mi <;> simp [ha, ← hap]
        · cases mi <;> simp [hap, ha, ho ha hap]
  · obtain ⟨m, hm⟩ := hp
    exact (h.given.keep p (by rw [hm]; rfl)).insert q rfl
  · by_cases hq : p = q
    · subst hq
      rw [update_idem]
      exact h.live.keep p (by rw [hf]; rfl)
    · refine (h.live.keep p (by rw [hg hq]; rfl)).keep q ?_
      rw [update_of_ne (Ne.symm hq), hf]
      rfl
  · exact (h.table.erase p rfl).insert q rfl

/-- **An orderly step changes hands as it should.** -/
theorem Sound.step {a : Action} (ho : s.Orderly a)
    (hs : s.step a = some s') : ∃ holder', Sound s' holder' := by
  cases a with
  | request r =>
    cases hs
    exact h.request r
  | malloc i ans =>
    simp only [TaskMemory.step] at hs
    split at hs
    · next _ hat =>
      cases hs
      exact ⟨holder, h.goOn_returned hat fun _ => rfl⟩
    · next _ p hat =>
      split at hs
      · cases hs
      next hn =>
      cases hs
      rw [not_or] at hn
      exact ⟨_, h.malloc hat hn.2 (ho p rfl)⟩
    · cases hs
  | insert i =>
    simp only [TaskMemory.step] at hs
    split at hs
    · next p hat =>
      cases hs
      exact ⟨_, h.inserted hat⟩
    · cases hs
  | erase i =>
    simp only [TaskMemory.step] at hs
    split at hs
    · next p mi hat =>
      split at hs
      · next hp =>
        cases hs
        cases mi with
        | true => exact ⟨_, h.erased hat⟩
        | false => exact absurd hp (ho p hat)
      · next hp =>
        cases hs
        exact ⟨holder, h.ignored (holds_free p) hat hp⟩
    · cases hs
  | release i =>
    simp only [TaskMemory.step] at hs
    split at hs
    · next p mi hat =>
      obtain ⟨hl, hso⟩ := h.release hat
      rw [if_pos hl] at hs
      cases hs
      exact ⟨_, hso⟩
    · cases hs
  | check i =>
    simp only [TaskMemory.step] at hs
    split at hs
    · next p mi hat =>
      split at hs
      · next hp =>
        cases hs
        cases mi with
        | true => exact ⟨holder, h.exact.move_same hat fun _ => rfl, h.given, h.live, h.table,
            h.faults⟩
        | false => exact absurd hp (ho p hat)
      · next hp =>
        cases hs
        exact ⟨holder, h.ignored (holds_realloc p) hat hp⟩
    · cases hs
  | reallocate i ans =>
    simp only [TaskMemory.step] at hs
    split at hs
    · next p mi hat =>
      obtain ⟨hl, hsa⟩ := h.returns hat
      rw [if_neg (not_not.2 hl)] at hs
      split at hs
      · cases hs
        exact ⟨_, hsa⟩
      next q =>
      split at hs
      · cases hs
        exact ⟨_, hsa⟩
      next hq =>
      split at hs
      · cases hs
      next hn =>
      cases hs
      rw [not_or] at hn
      exact ⟨_, h.moved hat hq hn.2 (ho q rfl)⟩
    · cases hs
  | exchange i =>
    simp only [TaskMemory.step] at hs
    split at hs
    · next p mi q hat =>
      cases hs
      exact ⟨_, h.exchanged hat⟩
    · cases hs

end

end TaskMemory

/-- **Orderly runs lose no block and free none twice.** -/
theorem task_memory_owned {s : TaskMemory} (h : Runs TaskMemory.step Orderly {} s) : s.Owned := by
  obtain ⟨holder, hs⟩ : ∃ holder, Sound s holder := by
    refine h.keeps (I := fun s => ∃ holder, Sound s holder) ?_ ⟨_, sound_new⟩
    rintro t a t' ⟨holder, ht⟩ ho hst
    exact ht.step ho hst
  exact hs.owned

instance (s : TaskMemory) (p : ℕ) : Decidable (s.Abandoned p) :=
  decidable_of_iff ((s.calls.any fun
    | (.realloc p' _, .moved _) => p' = p
    | _ => false) = true) <| by
    rw [List.any_eq_true]
    constructor
    · rintro ⟨c, hm, hc⟩
      obtain ⟨i, hi⟩ := List.getElem?_of_mem hm
      split at hc
      · rw [decide_eq_true_eq] at hc
        exact ⟨i, _, _, hc ▸ hi⟩
      · cases hc
    · rintro ⟨i, mine, q, ha⟩
      exact ⟨_, List.mem_of_getElem? ha, decide_eq_true rfl⟩

instance (s : TaskMemory) : (a : TaskMemory.Action) → Decidable (s.Orderly a)
  | .malloc _ answer => inferInstanceAs (Decidable (∀ p ∈ answer, ¬s.Abandoned p))
  | .reallocate _ answer => inferInstanceAs (Decidable (∀ q ∈ answer, ¬s.Abandoned q))
  | .erase i =>
    decidable_of_iff (∀ c ∈ s.calls[i]?, ∀ p ∈ s.table, c ≠ (.free p false, .entered))
      ⟨fun h p ha hp => h _ ha p hp rfl, fun h _ hc p hp heq => by cases heq; exact h p hc hp⟩
  | .check i =>
    decidable_of_iff (∀ c ∈ s.calls[i]?, ∀ p ∈ s.table, c ≠ (.realloc p false, .entered))
      ⟨fun h p ha hp => h _ ha p hp rfl, fun h _ hc p hp heq => by cases heq; exact h p hc hp⟩
  | .request _ | .insert _ | .release _ | .exchange _ => .isTrue trivial

/-- While a block of one thread is moved from 16 to 48, another thread frees its block. -/
theorem task_memory_owned_two : ∃ s, Runs TaskMemory.step Orderly {} s ∧ s.live = {48} ∧
    s.table = {48} ∧ s.given = {48} ∧ s.Owned := by
  have hn : ((runAll (guarded TaskMemory.step Orderly) {} [.request (.alloc 8),
      .malloc 0 (some 16), .insert 0, .request (.alloc 8), .malloc 1 (some 32), .insert 1,
      .request (.realloc 16 64), .check 2, .request (.free 32), .reallocate 2 (some 48),
      .erase 3, .exchange 2, .release 3]).map fun s => (s.live, s.table, s.given)) =
        some ({48}, {48}, {48}) := by
    decide +kernel
  obtain ⟨s, hs, hf⟩ := Option.map_eq_some_iff.1 hn
  simp only [Prod.mk.injEq] at hf
  exact ⟨s, Runs.of_guarded hs, hf.1, hf.2.1, hf.2.2, task_memory_owned (Runs.of_guarded hs)⟩

/-- A thread resizes the block 16, and the heap moves it to 32; before the table is told, another
thread gets a block, and that is 16 again.  The first thread then takes 16 from the table: the
block is live, and its owner cannot free it. -/
theorem not_task_memory_owned :
    ∃ s, Runs TaskMemory.step Free {} s ∧ s.AtRest ∧ s.live = {16, 32} ∧ s.table = {32} ∧
      ¬s.Owned ∧ ∃ t, Runs TaskMemory.step Free s t ∧ t.faults = [.unowned 16] := by
  have hn : (runAll TaskMemory.step {} [.request (.alloc 8), .malloc 0 (some 16), .insert 0,
      .request (.realloc 16 64), .check 1, .reallocate 1 (some 32), .request (.alloc 8),
      .malloc 2 (some 16), .insert 2, .exchange 1]).map (fun s => (s.live, s.table,
        s.calls.all fun c => c.2 = .returned,
        (runAll TaskMemory.step s [.request (.free 16), .erase 3]).map TaskMemory.faults)) =
      some ({16, 32}, {32}, true, some [.unowned 16]) := by
    decide +kernel
  obtain ⟨s, hs, hf⟩ := Option.map_eq_some_iff.1 hn
  simp only [Prod.mk.injEq, List.all_eq_true, decide_eq_true_eq] at hf
  obtain ⟨hlive, htable, hr, ht⟩ := hf
  obtain ⟨t, ht, hfaults⟩ := Option.map_eq_some_iff.1 ht
  have hrest : s.AtRest := fun i k x ha => hr _ (List.mem_of_getElem? ha)
  refine ⟨s, Runs.of_runAll hs, hrest, hlive, htable, fun ho => ?_, t, Runs.of_runAll ht, hfaults⟩
  have heq := (ho.2 hrest).1
  rw [htable, hlive] at heq
  exact absurd heq (by decide)

end TradutorLinux
