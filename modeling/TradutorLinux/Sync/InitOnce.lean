import TradutorLinux.Util.Memory
import TradutorLinux.Util.Runs

/-!
# One-time initialisation

`tl_InitOnceBeginInitialize` and `tl_InitOnceComplete` of `kernel32/sync.cpp`,
called by any number of threads on one `INIT_ONCE`.  Every access to guest
memory is a step, and may fail; a write that fails may have left its first
bytes.  The state of an `INIT_ONCE` is its word: 2 once it is initialised.

## Main definitions

* `InitOnceCall.next`, `InitOnceCall.writes` — what a call does at each place.
* `InitOnceRun.step` — one step of one of the calls.
* `InitOnceRun.KeepsProtocol` — one initialiser, and the context it leaves.
* `InitOnceRun.Serial` — the steps that do not reach the missing exclusion.

## Main results

* `initOnce_protocol` — **where initialisers come one at a time and leave no
  context, the protocol holds in every state of a run.**
-/

namespace TradutorLinux.Sync

open Option List Memory Pool

/-! ### The calls -/

/-- How a call ends: 1 and what it has written through `pending` and `context`, or 0 and the
error it sets. -/
inductive InitOnceEnd
  | success (pending context : Option ℕ)
  | invalidParameter
  | genFailure
deriving DecidableEq

/-- Where a call is.  `pendingOut` and `contextOut` are before the two writes of
`write_outputs`, `mark` before the write to the `INIT_ONCE`. -/
inductive InitOncePhase
  | called
  | pendingOut (initialise : Bool)
  | contextOut (initialise : Bool)
  | mark
  | returned (result : InitOnceEnd)
deriving DecidableEq

/-- One call of `tl_InitOnceBeginInitialize`; `completed` are the contexts of the
`InitOnceComplete` calls that had returned when it was made. -/
structure InitOnceBegin where
  thread : ℕ
  flags : ℕ
  pending : ℕ
  context : ℕ
  completed : List ℕ := []
deriving DecidableEq

inductive InitOnceCall
  | beginInitialize (call : InitOnceBegin)
  | complete (flags context : ℕ)
deriving DecidableEq

namespace InitOnceBegin

/-- `INIT_ONCE_CHECK_ONLY`. -/
def checkOnly (b : InitOnceBegin) : Bool := b.flags &&& 1 ≠ 0

/-- What the state read from the `INIT_ONCE` leads to. -/
def afterRead (b : InitOnceBegin) (state : ℕ) : InitOncePhase :=
  if b.checkOnly then
    if state = 2 then .pendingOut false else .returned .genFailure
  else if state = 2 then .pendingOut false
  else .pendingOut true

/-- 1, after the outputs of `write_outputs`. -/
def success (b : InitOnceBegin) (initialise : Bool) : InitOnceEnd :=
  .success (if b.pending = 0 then none else some (if initialise then 1 else 0))
    (if b.context = 0 then none else some 0)

end InitOnceBegin

namespace InitOnceCall

def writes (initOnce : ℕ) : InitOnceCall → InitOncePhase → Option (ℕ × ByteString)
  | .beginInitialize b, .pendingOut initialise =>
    if b.pending = 0 then none else some (b.pending, toLE 4 (if initialise then 1 else 0))
  | .beginInitialize b, .contextOut _ =>
    if b.context = 0 then none else some (b.context, toLE 8 0)
  | .beginInitialize _, .mark => some (initOnce, toLE 8 1)
  | .complete _ _, .called => if initOnce = 0 then none else some (initOnce, toLE 8 2)
  | _, _ => none

/-- Where a call is after its access; no access to a null `INIT_ONCE` succeeds. -/
def next (initOnce : ℕ) (memory : Memory) : InitOnceCall → InitOncePhase → Option InitOncePhase
  | .beginInitialize b, .called =>
    if initOnce = 0 then none else some (b.afterRead (ofLE (memory.bytes initOnce 8)))
  | .beginInitialize _, .pendingOut initialise => some (.contextOut initialise)
  | .beginInitialize b, .contextOut initialise =>
    some (if initialise then .mark else .returned (b.success false))
  | .beginInitialize b, .mark => some (.returned (b.success true))
  | .complete _ _, .called => some (.returned (.success none none))
  | _, _ => none

/-- Whether the call is about to read the `INIT_ONCE`. -/
def reads : InitOnceCall → InitOncePhase → Bool
  | .beginInitialize _, .called => true
  | _, _ => false

def completes : InitOnceCall → List ℕ
  | .beginInitialize _ => []
  | .complete _ context => [context]

/-- The call as it is made when `completed` have been completed. -/
def since (completed : List ℕ) : InitOnceCall → InitOnceCall
  | .beginInitialize b => .beginInitialize { b with completed := completed }
  | .complete flags context => .complete flags context

end InitOnceCall

/-! ### Runs -/

/-- Guest memory, the calls on the `INIT_ONCE`, and the contexts of the `InitOnceComplete`
calls that have returned 1. -/
structure InitOnceRun where
  memory : Memory
  calls : Pool InitOnceCall InitOncePhase := []
  completed : List ℕ := []

/-- A new call, the next access of the call `i`, or an access of it that fails after `bytes`. -/
inductive InitOnceAction
  | call (call : InitOnceCall)
  | access (i : ℕ)
  | fail (i bytes : ℕ)

namespace InitOnceRun

/-- The write of a call, or no more than its first `bytes`. -/
def store (memory : Memory) : Option (ℕ × ByteString) → Memory
  | none => memory
  | some (address, bytes) => memory.copy address bytes

def step (initOnce : ℕ) (s : InitOnceRun) : InitOnceAction → Option InitOnceRun
  | .call call => some { s with calls := s.calls.start (call.since s.completed) .called }
  | .access i => do
    let (call, phase) ← s.calls[i]?
    let after ← call.next initOnce s.memory phase
    return {
      memory := store s.memory (call.writes initOnce phase)
      calls := s.calls.move i after
      completed := call.completes ++ s.completed }
  | .fail i bytes => do
    let (call, phase) ← s.calls[i]?
    let failed := s.calls.move i (.returned .invalidParameter)
    match call.writes initOnce phase with
    | some (address, src) =>
      if bytes < src.length then
        return { s with memory := s.memory.copy address (src.take bytes), calls := failed }
      else none
    | none => if call.reads phase then return { s with calls := failed } else none

end InitOnceRun

/-! ### The protocol -/

/-- Between the read of a state other than 2 and the end of the call. -/
def InitOncePhase.initialising : InitOncePhase → Bool
  | .pendingOut initialise | .contextOut initialise => initialise
  | .mark => true
  | _ => false

/-- The call has returned 1 with `*pending` set. -/
def InitOncePhase.told : InitOncePhase → Bool
  | .returned (.success (some 1) _) => true
  | _ => false

/-- The call is going to tell its caller to initialise, or has done so. -/
def InitOnceBegin.bids (b : InitOnceBegin) (phase : InitOncePhase) : Bool :=
  phase.told || (b.pending ≠ 0 && phase.initialising)

variable {b : InitOnceBegin}

attribute [local simp] InitOncePhase.initialising

theorem InitOnceBegin.initialising_afterRead {st : ℕ} :
    (b.afterRead st).initialising ↔ ¬b.checkOnly ∧ st ≠ 2 := by
  unfold afterRead
  by_cases hc : b.checkOnly <;> by_cases hs : st = 2 <;>
    simp [hc, hs]

namespace InitOnceRun

/-- Before the initialisation completes one thread at most has been told to initialise; a call
that succeeds after `InitOnceComplete` reports that nothing is pending, and the context. -/
structure KeepsProtocol (s : InitOnceRun) : Prop where
  one : s.completed = [] → ∀ i j b b' x y, s.calls.At i (.beginInitialize b) x →
    s.calls.At j (.beginInitialize b') y → x.told → y.told → b.thread = b'.thread
  context : ∀ i b pending context,
    s.calls.At i (.beginInitialize b) (.returned (.success pending context)) →
    b.completed ≠ [] → (pending = none ∨ pending = some 0) ∧
      ∀ c ∈ b.completed, context = none ∨ context = some c

/-- The eight bytes of the `INIT_ONCE` are apart from the `len` bytes at `address`. -/
def Apart (initOnce address len : ℕ) : Prop := address + len ≤ initOnce ∨ initOnce + 8 ≤ address

instance (initOnce address len : ℕ) : Decidable (Apart initOnce address len) :=
  inferInstanceAs (Decidable (_ ∨ _))

/-- No call of another thread bids. -/
def Alone (s : InitOnceRun) (thread : ℕ) : Prop :=
  ∀ t ∈ s.calls, match t with
    | (.beginInitialize b, phase) => b.bids phase → b.thread = thread
    | (.complete _ _, _) => True

instance (s : InitOnceRun) (thread : ℕ) : Decidable (s.Alone thread) :=
  @List.decidableBAll _ _ (fun t => match t with
    | (.beginInitialize _, _) => inferInstanceAs (Decidable (_ → _))
    | (.complete _ _, _) => inferInstanceAs (Decidable True)) s.calls

/-- What is asked of an access: a thread reads a state that makes it initialise only when no
other thread bids; outputs are apart from the `INIT_ONCE`, and `*context` is wanted only after
completions without a context; an `INIT_ONCE` is completed when nobody is in the middle of
marking it. -/
def SerialAt (initOnce : ℕ) (s : InitOnceRun) : InitOnceCall → InitOncePhase → Prop
  | .beginInitialize b, .called =>
    b.pending ≠ 0 → ¬b.checkOnly → ofLE (s.memory.bytes initOnce 8) ≠ 2 → s.Alone b.thread
  | .beginInitialize b, .pendingOut _ => b.pending ≠ 0 → Apart initOnce b.pending 4
  | .beginInitialize b, .contextOut _ =>
    b.context ≠ 0 → Apart initOnce b.context 8 ∧ ∀ c ∈ b.completed, c = 0
  | .complete _ _, .called => ∀ t ∈ s.calls, t.2.initialising = false
  | _, _ => True

instance (initOnce : ℕ) (s : InitOnceRun) (call : InitOnceCall) (phase : InitOncePhase) :
    Decidable (s.SerialAt initOnce call phase) := by
  cases call <;> cases phase <;> unfold SerialAt <;> infer_instance

/-- A step that does not reach the missing exclusion, nor the context that is dropped. -/
def Serial (initOnce : ℕ) (s : InitOnceRun) : InitOnceAction → Prop
  | .call _ => True
  | .access i | .fail i _ => ∀ t ∈ s.calls[i]?, s.SerialAt initOnce t.1 t.2

instance (initOnce : ℕ) (s : InitOnceRun) (a : InitOnceAction) :
    Decidable (s.Serial initOnce a) := by
  cases a <;> unfold Serial <;> infer_instance

/-! ### What a step does -/

variable {initOnce ini io : ℕ} {s s' : InitOnceRun}
variable {i : ℕ}

theorem step_access (h : s.step io (.access i) = some s') :
    ∃ c ph af, s.calls.At i c ph ∧ c.next io s.memory ph = some af ∧ s' = {
        memory := store s.memory (c.writes io ph)
        calls := s.calls.move i af
        completed := c.completes ++ s.completed } := by
  simp only [step, bind, bind_eq_some_iff] at h
  obtain ⟨⟨c, ph⟩, ha, af, hn, hs⟩ := h
  exact ⟨c, ph, af, ha, hn, (some.inj hs).symm⟩

theorem step_fail {bs : ℕ} (h : s.step io (.fail i bs) = some s') :
    ∃ c ph, s.calls.At i c ph ∧ s'.completed = s.completed ∧
      s'.calls = s.calls.move i (.returned .invalidParameter) ∧
      (s'.memory = s.memory ∨ ∃ a sr, c.writes io ph = some (a, sr) ∧
        s'.memory = s.memory.copy a (sr.take bs)) := by
  simp only [step, bind, bind_eq_some_iff] at h
  obtain ⟨⟨c, ph⟩, ha, hs⟩ := h
  refine ⟨c, ph, ha, ?_⟩
  cases hw : c.writes io ph with
  | none =>
    simp only [hw] at hs
    split at hs
    · cases hs
      exact ⟨rfl, rfl, .inl rfl⟩
    · cases hs
  | some w =>
    obtain ⟨a, sr⟩ := w
    simp only [hw] at hs
    split at hs
    · cases hs
      exact ⟨rfl, rfl, .inr ⟨a, sr, rfl, rfl⟩⟩
    · cases hs

variable {c : InitOnceCall}

theorem serial_of_at {phase : InitOncePhase}
    (h : ∀ t ∈ s.calls[i]?, s.SerialAt initOnce t.1 t.2) (ha : s.calls.At i c phase) :
    s.SerialAt initOnce c phase := h (c, phase) ha

theorem Alone.thread_eq {thread j : ℕ} {ph : InitOncePhase}
    (h : s.Alone thread) (ha : s.calls.At j (.beginInitialize b) ph) (hb : b.bids ph) :
    b.thread = thread :=
  h (.beginInitialize b, ph) (mem_of_getElem? ha) hb

variable {phase pe ph after af : InitOncePhase}

attribute [local simp] InitOnceBegin.bids InitOnceBegin.success

theorem bids_of_next {mem : Memory}
    (h : (InitOnceCall.beginInitialize b).next initOnce mem phase = some after)
    (hp : phase ≠ .called) (hb : b.bids after) : b.bids phase := by
  cases phase with
  | called => exact absurd rfl hp
  | pendingOut i =>
    cases h
    simpa [InitOncePhase.told] using hb
  | contextOut i =>
    cases h
    cases i with
    | true => simpa [InitOncePhase.told] using hb
    | false => simp [InitOncePhase.told] at hb
  | mark =>
    cases h
    have hn : b.pending ≠ 0 := by
      rintro hz
      simp [InitOncePhase.told, hz] at hb
    simp [hn]
  | returned r => cases h

/-- A write that is allowed beside an initialised `INIT_ONCE` leaves it initialised, also when it
fails half-way. -/
theorem word_copy {ph : InitOncePhase} {a n : ℕ} {sr : ByteString}
    (hs : s.SerialAt io c ph) (hp : ph.initialising = false) (hr : c.writes io ph = some (a, sr))
    (hw : s.memory.bytes io 8 = toLE 8 2) :
    (s.memory.copy a (sr.take n)).bytes io 8 = toLE 8 2 := by
  have ha : ∀ l, sr.length = l → Apart io a l →
      (s.memory.copy a (sr.take n)).bytes io 8 = toLE 8 2 := by
    intro l hl hap
    have he := length_take_le' n sr
    rw [bytes_copy_of_disjoint (by unfold Apart at hap; omega), hw]
  cases c with
  | beginInitialize b =>
    cases ph with
    | pendingOut i =>
      simp only [InitOnceCall.writes] at hr
      split at hr
      · cases hr
      · next hn =>
        cases hr
        exact ha 4 (length_toLE _ _) (hs hn)
    | contextOut i =>
      simp only [InitOnceCall.writes] at hr
      split at hr
      · cases hr
      · next hn =>
        cases hr
        exact ha 8 (length_toLE _ _) (hs hn).1
    | mark => cases hp
    | called => cases hr
    | returned r => cases hr
  | complete fl ct =>
    cases ph with
    | called =>
      simp only [InitOnceCall.writes] at hr
      split at hr
      · cases hr
      · cases hr
        exact bytes_copy_take hw
    | pendingOut i => cases hr
    | contextOut i => cases hr
    | mark => cases hr
    | returned r => cases hr

theorem word_store {ph : InitOncePhase} (hs : s.SerialAt io c ph) (hp : ph.initialising = false)
    (ho : s.memory.bytes io 8 = toLE 8 2) :
    (store s.memory (c.writes io ph)).bytes io 8 = toLE 8 2 := by
  cases hw : c.writes io ph with
  | none => exact ho
  | some w =>
    obtain ⟨a, sr⟩ := w
    have h := word_copy (n := sr.length) hs hp hw ho
    rwa [take_length] at h

/-! ### The invariant -/

/-- What holds of a call: the completions before it are known, and what it returns after one. -/
def Fits (completed : List ℕ) : InitOnceCall → InitOncePhase → Prop
  | .beginInitialize b, phase => (∀ c ∈ b.completed, c ∈ completed) ∧
    ∀ pending context, phase = .returned (.success pending context) → b.completed ≠ [] →
      (pending = none ∨ pending = some 0) ∧ ∀ c ∈ b.completed, context = none ∨ context = some c
  | .complete _ _, _ => True

/-- What the steps keep: threads that bid are one thread, and after a completion the word stays
at 2 and nobody is in the middle of initialising. -/
structure Sound (initOnce : ℕ) (s : InitOnceRun) : Prop where
  fits : ∀ i call phase, s.calls.At i call phase → Fits s.completed call phase
  one : ∀ i j b b' x y, s.calls.At i (.beginInitialize b) x →
    s.calls.At j (.beginInitialize b') y → b.bids x → b'.bids y → b.thread = b'.thread
  word : s.completed ≠ [] → initOnce ≠ 0 → s.memory.bytes initOnce 8 = toLE 8 2
  settled : s.completed ≠ [] → ∀ i call phase, s.calls.At i call phase →
    phase.initialising = false

theorem Fits.mono {co m : List ℕ} {ca : InitOnceCall} {phase : InitOncePhase}
    (h : Fits co ca phase) : Fits (m ++ co) ca phase := by
  cases ca with
  | beginInitialize b => exact ⟨fun c hc => mem_append_right _ (h.1 c hc), h.2⟩
  | complete fl ct => trivial

/-- Who is told that nothing is pending, and when. -/
theorem Fits.next {co : List ℕ} {ca : InitOnceCall} (h : Fits co ca pe) (hs : s.SerialAt ini ca pe)
    (hp : co ≠ [] → pe.initialising = false)
    (hn : ca.next ini s.memory pe = some after) : Fits co ca after := by
  cases ca with
  | complete fl ct => trivial
  | beginInitialize b =>
    refine ⟨h.1, fun p ct hr he => ?_⟩
    obtain ⟨c₀, hc₀⟩ := exists_mem_of_ne_nil _ he
    have hd := hp (ne_nil_of_mem (h.1 c₀ hc₀))
    cases pe with
    | called =>
      simp only [InitOnceCall.next, InitOnceBegin.afterRead] at hn
      subst hr
      repeat' split at hn
      all_goals simp at hn
    | pendingOut i =>
      subst hr
      cases hn
    | contextOut i =>
      obtain rfl : i = false := hd
      cases hn
      obtain ⟨rfl, rfl⟩ := InitOnceEnd.success.inj (InitOncePhase.returned.inj hr)
      refine ⟨by split <;> simp, fun c hc => ?_⟩
      by_cases ho : b.context = 0
      · exact .inl (if_pos ho)
      · rw [if_neg ho, (hs ho).2 c hc]
        exact .inr rfl
    | mark => cases hd
    | returned r => cases hn

theorem initialising_next (hw : io ≠ 0 → s.memory.bytes io 8 = toLE 8 2)
    (hp : ph.initialising = false)
    (hn : c.next io s.memory ph = some af) : af.initialising = false := by
  cases c with
  | beginInitialize b =>
    cases ph with
    | called =>
      simp only [InitOnceCall.next] at hn
      split at hn
      · cases hn
      next he =>
      cases hn
      have ht : ofLE (s.memory.bytes io 8) = 2 := by rw [hw he, ofLE_toLE_of_lt (by decide)]
      simp [InitOnceBegin.afterRead, ht]
    | pendingOut i =>
      cases hn
      exact hp
    | contextOut i =>
      obtain rfl : i = false := hp
      cases hn
      rfl
    | mark => cases hp
    | returned r => cases hn
  | complete fl ct =>
    cases ph with
    | called =>
      cases hn
      rfl
    | pendingOut i => cases hn
    | contextOut i => cases hn
    | mark => cases hn
    | returned r => cases hn

theorem bids_or_alone (he : s.SerialAt io (.beginInitialize b) ph)
    (hn : (InitOnceCall.beginInitialize b).next io s.memory ph = some af)
    (hb : b.bids af) : b.bids ph ∨ s.Alone b.thread := by
  by_cases hp : ph = .called
  · subst hp
    simp only [InitOnceCall.next] at hn
    split at hn
    · cases hn
    cases hn
    simp only [InitOnceBegin.bids, Bool.and_eq_true, Bool.or_eq_true, decide_eq_true_eq]
      at hb
    rcases hb with ht | ⟨hpe, hi⟩
    · simp only [InitOnceBegin.afterRead] at ht
      repeat' split at ht
      all_goals simp [InitOncePhase.told] at ht
    · obtain ⟨hc, hs⟩ := InitOnceBegin.initialising_afterRead.1 hi
      exact .inr (he hpe hc hs)
  · exact .inl (bids_of_next hn hp hb)

theorem one_move (hs : s.Sound io) (ht : s.calls.At i c ph)
    (hi : ∀ b, c = .beginInitialize b → b.bids af → b.bids ph ∨ s.Alone b.thread) :
    ∀ j k b b' x y, (s.calls.move i af).At j (.beginInitialize b) x →
      (s.calls.move i af).At k (.beginInitialize b') y → b.bids x → b'.bids y →
      b.thread = b'.thread := by
  -- the moved call against another one
  have hm : ∀ b j b' y, c = .beginInitialize b → b.bids af →
      s.calls.At j (.beginInitialize b') y → b'.bids y → b.thread = b'.thread := by
    rintro b j b' y rfl hf hj hy
    rcases hi b rfl hf with he | ha
    · exact hs.one i j b b' ph y ht hj he hy
    · exact (ha.thread_eq hj hy).symm
  intro j k b b' x y hj hk hx hy
  rw [at_move ht] at hj hk
  split at hj <;> split at hk
  · rw [InitOnceCall.beginInitialize.inj (hj.1.trans hk.1.symm)]
  · obtain ⟨hb, rfl⟩ := hj
    exact hm b k b' y hb.symm hx hk hy
  · obtain ⟨hb, rfl⟩ := hk
    exact (hm b' j b x hb.symm hy hj hx).symm
  · exact hs.one j k b b' x y hj hk hx hy

theorem Sound.call (h : s.Sound io) (ca : InitOnceCall) :
    Sound io { s with calls := s.calls.start (ca.since s.completed) .called } where
  fits := fun i k x ha => by
    refine each_start h.fits ?_ ha
    cases ca with
    | beginInitialize b => exact ⟨fun c hc => hc, fun p ct hr _ => by cases hr⟩
    | complete fl ct => trivial
  one := fun i j b b' x y hi hj hx hy => by
    rcases at_start.1 hi with hi | ⟨-, -, rfl⟩
    · rcases at_start.1 hj with hj | ⟨-, -, rfl⟩
      · exact h.one i j b b' x y hi hj hx hy
      · simp [InitOncePhase.told] at hy
    · simp [InitOncePhase.told] at hx
  word := h.word
  settled := fun hn i k x ha =>
    each_start (P := fun _ x => x.initialising = false) (h.settled hn) rfl ha

theorem Sound.access (h : s.Sound initOnce) (hl : s.Serial initOnce (.access i))
    (hs : s.step initOnce (.access i) = some s') : s'.Sound initOnce := by
  obtain ⟨c, phase, after, ha, hn, rfl⟩ := step_access hs
  have hr := serial_of_at hl ha
  have hf := fun hp => (h.fits i c phase ha).next hr hp hn
  refine ⟨fun j k x hj => ?_, ?_, ?_, ?_⟩
  · exact each_move (P := Fits (c.completes ++ s.completed))
      (fun j k x hj => (h.fits j k x hj).mono) ha
      (hf fun he => h.settled he i c phase ha).mono hj
  · refine one_move h ha fun b hc hb => ?_
    subst hc
    exact bids_or_alone hr hn hb
  · intro he hi
    cases c with
    | beginInitialize b => exact word_store hr (h.settled he i _ phase ha) (h.word he hi)
    | complete fl ct =>
      cases phase with
      | called =>
        simp only [InitOnceCall.writes, if_neg hi, store]
        have hse := bytes_copy_self s.memory initOnce (toLE 8 2)
        rwa [length_toLE] at hse
      | pendingOut ie => cases hn
      | contextOut ie => cases hn
      | mark => cases hn
      | returned r => cases hn
  · intro he
    cases c with
    | beginInitialize b =>
      refine fun j k x hj => each_move (P := fun _ x => x.initialising = false)
        (h.settled he) ha ?_ hj
      exact initialising_next (h.word he) (h.settled he i _ phase ha) hn
    | complete fl ct =>
      cases phase with
      | called =>
        cases hn
        refine fun j k x hj => each_move (P := fun _ x => x.initialising = false)
          (fun j k x hj => ?_) ha rfl hj
        exact hr (k, x) (mem_of_getElem? hj)
      | pendingOut ie => cases hn
      | contextOut ie => cases hn
      | mark => cases hn
      | returned r => cases hn

theorem Sound.fail {bs : ℕ} (h : s.Sound initOnce) (hr : s.Serial initOnce (.fail i bs))
    (hs : s.step initOnce (.fail i bs) = some s') : s'.Sound initOnce := by
  obtain ⟨c, phase, ha, ho, hc, hm⟩ := step_fail hs
  have he := serial_of_at hr ha
  refine ⟨?_, ?_, ?_, ?_⟩
  · rw [ho, hc]
    refine fun j k x hj => each_move h.fits ha ?_ hj
    have hold := h.fits i c phase ha
    cases c with
    | beginInitialize b => exact ⟨hold.1, fun p ct ht _ => by cases ht⟩
    | complete fl ct => trivial
  · rw [hc]
    refine one_move h ha fun b _ hb => ?_
    simp [InitOncePhase.told] at hb
  · rw [ho]
    intro hn hi
    rcases hm with hsa | ⟨a, sr, hw, hco⟩
    · rw [hsa]
      exact h.word hn hi
    · rw [hco]
      exact word_copy he (h.settled hn i c phase ha) hw (h.word hn hi)
  · rw [ho, hc]
    exact fun hn j k x hj => each_move (P := fun _ x => x.initialising = false)
      (h.settled hn) ha rfl hj

theorem Sound.step {a : InitOnceAction} (h : s.Sound initOnce) (he : s.Serial initOnce a)
    (hs : s.step initOnce a = some s') : s'.Sound initOnce := by
  cases a with
  | call call =>
    cases hs
    exact h.call call
  | access i => exact h.access he hs
  | fail i bs => exact h.fail he hs

theorem sound_start (mem : Memory) : Sound io { memory := mem } where
  fits := fun i c ph ha => by cases ha
  one := fun i j b b' x y hi => by cases hi
  word := fun hn => absurd rfl hn
  settled := fun hn => absurd rfl hn

theorem Sound.keepsProtocol (h : s.Sound io) : s.KeepsProtocol where
  one := fun _ i j b b' x y hi hj hx hy => by
    refine h.one i j b b' x y hi hj ?_ ?_
    · simp [hx]
    · simp [hy]
  context := fun i b p ct ha hn => (h.fits i _ _ ha).2 p ct rfl hn

/-! ### The protocol over runs -/

/-- **In a run whose steps are serial there is one initialiser at a time, and every call after
`InitOnceComplete` reports that nothing is pending and the context.** -/
theorem initOnce_protocol {memory : Memory}
    (h : Runs (step initOnce) (Serial initOnce) { memory := memory } s) : s.KeepsProtocol :=
  (Runs.keeps (fun _ _ _ hd he hs => Sound.step hd he hs) h (sound_start memory)).keepsProtocol

/-- A thread initialises; another one comes after the completion. -/
theorem initOnce_protocol_oneByOne : ∃ s : InitOnceRun,
    Runs (step 16) (Serial 16) { memory := zeroed 4096 } s ∧ s.calls.map Prod.snd =
        [.returned (.success (some 1) (some 0)), .returned (.success none none),
          .returned (.success (some 0) (some 0))] ∧ s.KeepsProtocol := by
  have hr : (runAll (guarded (step 16) (Serial 16)) { memory := zeroed 4096 }
      [.call (.beginInitialize ⟨1, 0, 64, 72, []⟩), .access 0, .access 0, .access 0, .access 0,
        .call (.complete 0 0), .access 1,
        .call (.beginInitialize ⟨2, 0, 96, 104, []⟩), .access 2, .access 2, .access 2]).map
      (fun s => s.calls.map Prod.snd) = some
        [.returned (.success (some 1) (some 0)), .returned (.success none none),
          .returned (.success (some 0) (some 0))] := by decide +kernel
  obtain ⟨s, hs, hc⟩ := map_eq_some_iff.mp hr
  exact ⟨s, Runs.of_guarded hs, hc, initOnce_protocol (Runs.of_guarded hs)⟩

/-- Two threads read the state before either has marked it, and both are told to initialise. -/
theorem not_initOnce_protocol : ¬∀ (initOnce : ℕ) (memory : Memory) (s : InitOnceRun),
    Runs (step initOnce) Free { memory := memory } s → s.KeepsProtocol := by
  intro hl
  let b : ℕ → InitOnceBegin := fun t => ⟨t, 0, 64 * t, 0, []⟩
  have hr : (runAll (step 16) { memory := zeroed 4096 }
      [.call (.beginInitialize (b 1)), .call (.beginInitialize (b 2)), .access 0, .access 1,
        .access 0, .access 0, .access 0, .access 1, .access 1, .access 1]).map
      (fun s => (s.calls, s.completed)) = some
        ([(.beginInitialize (b 1), .returned (.success (some 1) none)),
          (.beginInitialize (b 2), .returned (.success (some 1) none))], []) := by decide +kernel
  obtain ⟨s, hs, hc⟩ := map_eq_some_iff.mp hr
  obtain ⟨hp, ho⟩ := Prod.mk.inj hc
  have ha : ∀ i (hi : i < 2), s.calls.At i (.beginInitialize (b (i + 1)))
      (.returned (.success (some 1) none)) := by
    intro i hi
    rw [hp]
    rcases Nat.lt_succ_iff_lt_or_eq.mp hi with h | rfl
    · obtain rfl : i = 0 := by omega
      rfl
    · rfl
  have hn := (hl 16 _ s (Runs.of_runAll hs)).one ho 0 1 _ _ _ _
    (ha 0 (by decide)) (ha 1 (by decide)) rfl rfl
  cases hn

end InitOnceRun
end TradutorLinux.Sync
