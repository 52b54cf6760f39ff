import Mathlib.Data.List.Perm.Basic
import TradutorLinux.Runtime.ErrorMap

/-!
# Storage of a thread's own

An index of `TlsAlloc` or `FlsAlloc` names one value in every thread.  The values of
TLS stand twice, in the thread block and in an array of the thread; those of FLS stand
in an object that the runtime has a list of, so that `FlsFree` reaches those of all
threads.  `TlsFree` reaches its own thread only, and `FlsFree` leaves the values of an
index without a callback: the next owner of the index finds them.

## Main definitions

* `LocalStorage`
* `LocalStorage.step` — one call of a thread, or a step of its life.
* `Owned`, `Correct`, `Orderly`
-/

namespace TradutorLinux.Process

open Function

open TradutorLinux.Runtime (kErrorInvalidParameter kErrorNotEnoughMemory)

/-! ### The state -/

/-- A `void*`; zero is null. -/
abbrev Pointer := UInt64

/-- An index of FLS. -/
structure FlsSlot where
  used : Bool
  callback : Pointer
deriving DecidableEq, Repr

/-- `cleanup_current_fls_values` has something to do for the index. -/
def FlsSlot.calls (slot : FlsSlot) : Bool := slot.used && slot.callback != 0

/-- Where a thread is in its life.  In `finishing` the callbacks of its last cleanup run. -/
inductive ThreadPhase
  | absent
  | created
  | running
  | finishing
  | left
deriving DecidableEq, Repr

/-- The thread runs code of the guest. -/
def ThreadPhase.live : ThreadPhase → Bool
  | .running | .finishing => true
  | _ => false

/-- A thread of the host with what is `thread_local` in it.  `slot` is its place in the table of
threads, `teb` the TLS slots of its thread block, and `flsValues` the object of its FLS values. -/
structure GuestThread where
  phase : ThreadPhase
  slot : Option ℕ
  tlsSlots : ℕ → Pointer
  teb : Option (ℕ → Pointer)
  flsValues : Option ℕ

/-- The TLS slots of a thread block. -/
def kTebSlots : ℕ := 64

/-- A thread that does not exist. -/
def GuestThread.absent : GuestThread := ⟨.absent, none, fun _ => 0, none, none⟩

def GuestThread.setTls (thread : GuestThread) (index : ℕ) (value : Pointer) : GuestThread :=
  { thread with
    tlsSlots := update thread.tlsSlots index value
    teb := thread.teb.map fun slots =>
      if index < kTebSlots then update slots index value else slots }

/-- The storage of all threads of a process.  `kept` holds the `fls_values` of the table of
threads; an object is alive as long as this table or a thread holds it. -/
structure LocalStorage where
  threadCount : ℕ
  thread : ℕ → GuestThread
  kept : ℕ → Option ℕ
  tlsUsed : ℕ → Bool
  flsSlots : ℕ → FlsSlot
  objectCount : ℕ
  values : ℕ → ℕ → Pointer
  flsThreads : List ℕ

def kTlsMinimumAvailable : ℕ := 64
def kMaxFlsSlots : ℕ := 128
def kMaxThreads : ℕ := 256
def kTlsOutOfIndexes : Pointer := 0xFFFFFFFF
def kFlsOutOfIndexes : Pointer := 0xFFFFFFFF

/-- A callback, and the value it is called with. -/
abbrev Callback := Pointer × Pointer

/-- What a call does: the storage behind it, what it returns, the last error, and the callbacks it
runs, in order. -/
structure StorageOutcome where
  state : LocalStorage
  result : Pointer
  lastError : UInt32
  callbacks : List Callback

namespace LocalStorage

/-- The main thread alone, when its entry point is called. -/
def start : LocalStorage where
  threadCount := 1
  thread := update (fun _ => .absent) 0
    ⟨.running, none, fun _ => 0, some fun _ => 0, some 0⟩
  kept := fun _ => none
  tlsUsed := fun _ => false
  flsSlots := fun _ => ⟨false, 0⟩
  objectCount := 1
  values := fun _ _ => 0
  flsThreads := [0]

variable (s : LocalStorage)

def setThread (t : ℕ) (thread : GuestThread) : LocalStorage :=
  { s with thread := update s.thread t thread }

/-- The weak reference can be locked. -/
def alive (object : ℕ) : Bool :=
  (List.range s.threadCount).any (fun t => (s.thread t).flsValues == some object) ||
    (List.range kMaxThreads).any fun i => s.kept i == some object

def succeed (s : LocalStorage) (result : Pointer) : StorageOutcome := ⟨s, result, 0, []⟩

def fail (result : Pointer) (error : UInt32) : StorageOutcome := ⟨s, result, error, []⟩

/-! ### TLS -/

/-- `tls_index_allocated`. -/
def tlsIndexAllocated (index : ℕ) : Bool :=
  decide (index < kTlsMinimumAvailable) && s.tlsUsed index

/-- `tl_TlsAlloc`. -/
def tlsAlloc : StorageOutcome :=
  match (List.range kTlsMinimumAvailable).find? fun i => !s.tlsUsed i with
  | some i => succeed { s with tlsUsed := update s.tlsUsed i true } (.ofNat i)
  | none => s.fail kTlsOutOfIndexes kErrorNotEnoughMemory

/-- `tl_TlsGetValue`; it does not ask whether the index is allocated. -/
def tlsGetValue (t index : ℕ) : StorageOutcome :=
  if index ≥ kTlsMinimumAvailable then s.fail 0 kErrorInvalidParameter
  else
    match (s.thread t).teb with
    | some slots =>
      if index < kTebSlots then succeed s (slots index)
      else succeed s ((s.thread t).tlsSlots index)
    | none => succeed s ((s.thread t).tlsSlots index)

/-- `tl_TlsSetValue`. -/
def tlsSetValue (t index : ℕ) (value : Pointer) : StorageOutcome :=
  if s.tlsIndexAllocated index then
    succeed (s.setThread t ((s.thread t).setTls index value)) 1
  else s.fail 0 kErrorInvalidParameter

/-- `tl_TlsFree`, which clears the value of its own thread. -/
def tlsFree (t index : ℕ) : StorageOutcome :=
  if s.tlsIndexAllocated index then
    succeed { s.setThread t ((s.thread t).setTls index 0) with
      tlsUsed := update s.tlsUsed index false } 1
  else s.fail 0 kErrorInvalidParameter

/-! ### FLS -/

def setFlsSlot (index : ℕ) (slot : FlsSlot) : LocalStorage :=
  { s with flsSlots := update s.flsSlots index slot }

/-- `tl_FlsAlloc`; a callback has to be code of the image. -/
def flsAlloc (executable : Pointer → Bool) (callback : Pointer) : StorageOutcome :=
  if callback ≠ 0 ∧ executable callback = false then
    s.fail kFlsOutOfIndexes kErrorInvalidParameter
  else
    match (List.range kMaxFlsSlots).find? fun i => !(s.flsSlots i).used with
    | some i =>
      succeed (s.setFlsSlot i ⟨true, callback⟩) (.ofNat i)
    | none => s.fail kFlsOutOfIndexes kErrorNotEnoughMemory

/-- The index may be used. -/
def flsIndexAllocated (index : ℕ) : Bool :=
  decide (index < kMaxFlsSlots) && (s.flsSlots index).used

/-- A new object for a thread that has none, as in `ensure_fls_thread_values`. -/
def ensureFlsThreadValues (t : ℕ) : LocalStorage :=
  match (s.thread t).flsValues with
  | some _ => s
  | none =>
    { s.setThread t { s.thread t with flsValues := some s.objectCount } with
      objectCount := s.objectCount + 1
      values := update s.values s.objectCount fun _ => 0
      flsThreads := s.flsThreads ++ [s.objectCount] }

def object (t : ℕ) : ℕ := (s.thread t).flsValues.getD 0

def setValue (object index : ℕ) (value : Pointer) : LocalStorage :=
  { s with
    values := update s.values object (update (s.values object) index value) }

/-- `tl_FlsGetValue`. -/
def flsGetValue (t index : ℕ) : StorageOutcome :=
  if s.flsIndexAllocated index then
    let s' := s.ensureFlsThreadValues t
    succeed s' (s'.values (s'.object t) index)
  else s.fail 0 kErrorInvalidParameter

/-- `tl_FlsSetValue`. -/
def flsSetValue (t index : ℕ) (value : Pointer) : StorageOutcome :=
  if s.flsIndexAllocated index then
    let s' := s.ensureFlsThreadValues t
    succeed (s'.setValue (s'.object t) index value) 1
  else s.fail 0 kErrorInvalidParameter

/-- The loop of `tl_FlsFree` over the live objects: the callbacks, and the values behind it. -/
def freeLoop (callback : Pointer) (index : ℕ) :
    List ℕ → (ℕ → ℕ → Pointer) → List Callback × (ℕ → ℕ → Pointer)
  | [], values => ([], values)
  | object :: rest, values =>
    if callback ≠ 0 ∧ values object index ≠ 0 then
      let done := freeLoop callback index rest
        (update values object (update (values object) index 0))
      ((callback, values object index) :: done.1, done.2)
    else freeLoop callback index rest values

/-- `tl_FlsFree`. -/
def flsFree (index : ℕ) : StorageOutcome :=
  if s.flsIndexAllocated index then
    let liveThreads := s.flsThreads.filter s.alive
    let done := freeLoop (s.flsSlots index).callback index liveThreads s.values
    { state := { s.setFlsSlot index ⟨false, 0⟩ with
        flsThreads := liveThreads
        values := done.2 }
      result := 1, lastError := 0, callbacks := done.1 }
  else s.fail 0 kErrorInvalidParameter

/-- `cleanup_current_fls_values`. -/
def cleanupCurrentFlsValues (t : ℕ) : StorageOutcome :=
  match (s.thread t).flsValues with
  | none => succeed s 0
  | some object =>
    { state := { s with
        values := update s.values object fun i =>
          if i < kMaxFlsSlots ∧ (s.flsSlots i).calls then 0 else s.values object i }
      result := 0, lastError := 0
      callbacks := (List.range kMaxFlsSlots).filterMap fun i =>
        if (s.flsSlots i).calls ∧ s.values object i ≠ 0 then
          some ((s.flsSlots i).callback, s.values object i)
        else none }

/-! ### The life of a thread -/

/-- No thread of the guest is at the place. -/
def slotFree (slot : ℕ) : Bool :=
  decide (slot < kMaxThreads) && (List.range s.threadCount).all fun t =>
    (s.thread t).slot != some slot || (s.thread t).phase == .left

/-- `tl_CreateThread`: a thread that has still to begin, and its values. -/
def createThread (slot : ℕ) : LocalStorage :=
  { s.setThread s.threadCount ⟨.created, some slot, fun _ => 0, none, none⟩ with
    threadCount := s.threadCount + 1
    kept := update s.kept slot (some s.objectCount)
    objectCount := s.objectCount + 1
    values := update s.values s.objectCount fun _ => 0 }

/-- The thread begins: it gets its thread block and `set_current_fls_thread_values`. -/
def startThread (t object : ℕ) : LocalStorage :=
  { s.setThread t { s.thread t with
      phase := .running, teb := some fun _ => 0, flsValues := some object } with
    flsThreads := s.flsThreads ++ [object] }

/-- The last cleanup of a thread. -/
def finishThread (t : ℕ) : StorageOutcome :=
  let cleaned := s.cleanupCurrentFlsValues t
  { cleaned with state := cleaned.state.setThread t { s.thread t with phase := .finishing } }

/-- The thread lets go of its values and its thread block. -/
def leaveThread (t : ℕ) : LocalStorage :=
  s.setThread t { s.thread t with phase := .left, teb := none, flsValues := none }

end LocalStorage

/-! ### Runs -/

/-- What a thread does. -/
inductive StorageCall
  | tlsAlloc
  | tlsGetValue (index : ℕ)
  | tlsSetValue (index : ℕ) (value : Pointer)
  | tlsFree (index : ℕ)
  | flsAlloc (callback : Pointer)
  | flsGetValue (index : ℕ)
  | flsSetValue (index : ℕ) (value : Pointer)
  | flsFree (index : ℕ)
  | createThread (slot : ℕ)
  | start
  | exitThread
  | finish
  | leave
deriving DecidableEq, Repr

namespace LocalStorage

variable (executable : Pointer → Bool) (s : LocalStorage)

/-- A call of a live thread. -/
def call (t : ℕ) : StorageCall → Option StorageOutcome
  | .tlsAlloc => some s.tlsAlloc
  | .tlsGetValue index => some (s.tlsGetValue t index)
  | .tlsSetValue index value => some (s.tlsSetValue t index value)
  | .tlsFree index => some (s.tlsFree t index)
  | .flsAlloc callback => some (s.flsAlloc executable callback)
  | .flsGetValue index => some (s.flsGetValue t index)
  | .flsSetValue index value => some (s.flsSetValue t index value)
  | .flsFree index => some (s.flsFree index)
  | .createThread slot => if s.slotFree slot then some (succeed (s.createThread slot) 0) else none
  | .exitThread => some (s.cleanupCurrentFlsValues t)
  | .finish => if (s.thread t).phase = .running then some (s.finishThread t) else none
  | .leave =>
    -- Behind the cleanup of the main thread the process ends.
    if (s.thread t).phase = .finishing ∧ t ≠ 0 then some (succeed (s.leaveThread t) 0) else none
  | .start => none

/-- What the thread `t` does next. -/
def step (a : ℕ × StorageCall) : Option StorageOutcome :=
  if (s.thread a.1).phase.live then s.call executable a.1 a.2
  else
    match a.2, (s.thread a.1).phase, (s.thread a.1).slot.bind s.kept with
    | .start, .created, some object => some (succeed (s.startThread a.1 object) 0)
    | _, _, _ => none

/-- The threads that have begun and not ended. -/
def liveThreads : List ℕ :=
  (List.range s.threadCount).filter fun t => (s.thread t).phase.live

end LocalStorage

/-- What the threads own: the value that each has last set at an index, if the index has not been
allocated anew since. -/
structure Owned where
  tls : ℕ → ℕ → Pointer
  fls : ℕ → ℕ → Pointer

namespace Owned

def nothing : Owned := ⟨fun _ _ => 0, fun _ _ => 0⟩

def setAt (values : ℕ → ℕ → Pointer) (t index : ℕ) (value : Pointer) : ℕ → ℕ → Pointer :=
  update values t (update (values t) index value)

/-- The index has a new owner. -/
def resetAt (values : ℕ → ℕ → Pointer) (index : ℕ) : ℕ → ℕ → Pointer :=
  fun t => update (values t) index 0

variable (o : Owned)

/-- The callbacks of a freed index: one for every value that a thread owns there. -/
def freed (s : LocalStorage) (index : ℕ) : List Callback :=
  if (s.flsSlots index).calls then
    s.liveThreads.filterMap fun t =>
      if o.fls t index ≠ 0 then some ((s.flsSlots index).callback, o.fls t index) else none
  else []

/-- The callbacks of a thread that ends: one for every value that it owns. -/
def finished (s : LocalStorage) (t : ℕ) : List Callback :=
  (List.range kMaxFlsSlots).filterMap fun i =>
    if (s.flsSlots i).calls ∧ o.fls t i ≠ 0 then some ((s.flsSlots i).callback, o.fls t i)
    else none

/-- What is owned behind a call: a value that its callback has got is the thread's no more. -/
def after (s : LocalStorage) (t : ℕ) (call : StorageCall) (outcome : StorageOutcome) : Owned :=
  match call with
  | .tlsAlloc =>
    if outcome.result = kTlsOutOfIndexes then o
    else { o with tls := resetAt o.tls outcome.result.toNat }
  | .tlsSetValue index value =>
    if outcome.result = 1 then { o with tls := setAt o.tls t index value } else o
  | .flsAlloc _ =>
    if outcome.result = kFlsOutOfIndexes then o
    else { o with fls := resetAt o.fls outcome.result.toNat }
  | .flsSetValue index value =>
    if outcome.result = 1 then { o with fls := setAt o.fls t index value } else o
  | .exitThread | .finish =>
    { o with fls := update o.fls t fun i =>
        if i < kMaxFlsSlots ∧ (s.flsSlots i).calls then 0 else o.fls t i }
  | _ => o

end Owned

/-- The call is correct: a value is what the thread owns, and the callbacks are those of the values
that are owned, each once.  A thread leaves no value behind that has a callback. -/
def Correct (s : LocalStorage) (o : Owned) (t : ℕ) (call : StorageCall)
    (outcome : StorageOutcome) : Prop :=
  match call with
  | .tlsGetValue index =>
    (s.tlsIndexAllocated index = true → outcome.result = o.tls t index) ∧ outcome.callbacks = []
  | .flsGetValue index =>
    (s.flsIndexAllocated index = true → outcome.result = o.fls t index) ∧ outcome.callbacks = []
  | .flsFree index =>
    outcome.callbacks.Perm (if s.flsIndexAllocated index then o.freed s index else [])
  | .exitThread | .finish => outcome.callbacks.Perm (o.finished s t)
  | .leave => (∀ i, i < kMaxFlsSlots → (s.flsSlots i).calls = true → o.fls t i = 0) ∧
      outcome.callbacks = []
  | _ => outcome.callbacks = []

/-- The step leaves no value to a later owner of an index, and none behind a thread: no other thread
has a value at a TLS index that is freed, none has one at an FLS index that is freed without a
callback, not even a thread that has ended, and the callbacks of the last cleanup of a thread set
no values that have callbacks of their own. -/
def Orderly (s : LocalStorage × Owned) (a : ℕ × StorageCall) : Prop :=
  match a.2 with
  | .tlsFree index => ∀ u < s.1.threadCount, u ≠ a.1 → (s.1.thread u).phase ≠ .left →
      (s.1.thread u).tlsSlots index = 0
  | .flsFree index => (s.1.flsSlots index).callback = 0 →
      ∀ object ∈ s.1.flsThreads, s.1.alive object = true → s.1.values object index = 0
  | .flsSetValue index value => (s.1.thread a.1).phase = .finishing →
      value = 0 ∨ (s.1.flsSlots index).callback = 0
  | _ => True

instance (s : LocalStorage × Owned) (a : ℕ × StorageCall) : Decidable (Orderly s a) := by
  unfold Orderly
  split <;> infer_instance

def storageStep (executable : Pointer → Bool) (s : LocalStorage × Owned) (a : ℕ × StorageCall) :
    Option (LocalStorage × Owned) :=
  (s.1.step executable a).map fun outcome =>
    (outcome.state, s.2.after s.1 a.1 a.2 outcome)

end TradutorLinux.Process
