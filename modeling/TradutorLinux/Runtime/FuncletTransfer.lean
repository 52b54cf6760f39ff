import TradutorLinux.Runtime.Dispatch
import TradutorLinux.Runtime.PrologueUnwind
import TradutorLinux.Util.Align
import TradutorLinux.Util.Runs

/-!
# Transfers to C++ funclets

Between the unwinding of a C++ exception and the code after its `catch`, guest
code runs in funclets: the cleanups of the frame one after the other, and then
the catch.  A funclet returns to a trampoline, whose address the runtime has
written over a word of the guest stack; what it has to put back it keeps in the
thread's `g_cxx_*` variables.

Guest code in a funclet can do anything to its memory.  The words that have been
overwritten, with what they held, and the bytes that guest code has changed
since, are ghosts.

## Main definitions

* `CxxTransfer` — the variables; `GuestStack` — the memory, with the ghosts.
* `prepareCxxCatchTransfer`, `prepareCxxCleanupTransfer`, `cxxCleanupReturn`,
  `cxxCatchReturn`.
* `FuncletRun.step` — a run from a transfer to the end of the catch.
* `FuncletRun.Guarded` — nested throws are refused, the stack and the context
  are those of before.

## Main results

* `funclets_guarded`
-/

namespace TradutorLinux.Runtime

open Option List UInt64

/-! ### Variables of the thread -/

/-- `CleanupActionKind`. -/
inductive CleanupActionKind
  | legacyFrame
  | dtorWithObject
  | dtorWithPointerToObject
  | rva
deriving DecidableEq, Repr

/-- `CleanupAction`. -/
structure CleanupAction where
  actionRva : UInt32 := 0
  objectOffset : UInt32 := 0
  kind : CleanupActionKind := .legacyFrame
deriving DecidableEq, Repr

def kMaxCleanupActions : ℕ := 64
def kCxxCleanupStackOffset : UInt64 := 0x1000

/-- The variables `g_cxx_*`.  `cleanupReturnSlots` holds the entries of the arrays
`g_cxx_cleanup_return_slots` and `g_cxx_cleanup_return_values` that are in use, and
`cleanupActions` those of `g_cxx_cleanup_actions`. -/
structure CxxTransfer where
  catchContext : ContextAmd64
  catchContextReady : Bool
  catchResumeContext : ContextAmd64
  catchResumeContextReady : Bool
  funcletActive : Bool
  catchTarget : UInt64
  catchContinuation : UInt64
  catchContinuationReady : Bool
  catchReturnTarget : UInt64
  catchReturnTargetReady : Bool
  catchReturnPreserveStack : Bool
  catchResumeStack : UInt64
  cleanupContextReady : Bool
  cleanupTarget : UInt64
  cleanupEstablisher : UInt64
  cleanupActions : List CleanupAction
  cleanupIndex : ℕ
  cleanupReturnSlots : List (UInt64 × UInt64)
  catchReturnSlot : UInt64
  catchReturnValue : UInt64
  catchReturnSlotReady : Bool
deriving DecidableEq

/-- `g_cxx_cleanup_count`. -/
def CxxTransfer.cleanupCount (f : CxxTransfer) : ℕ := f.cleanupActions.length

/-- The image of `current_guest_unwind_view()` and the addresses of the two trampolines. -/
structure FuncletHost where
  imageBase : UInt64
  imageSize : UInt64
  cleanupReturnTrampoline : UInt64
  catchReturnTrampoline : UInt64

/-! ### Guest memory -/

/-- The memory of the thread; `mapped` is `validate_mapped_range`. -/
structure GuestMemory where
  thread : GuestThread
  writable : ℕ → Bool
  mapped : UInt64 → ℕ → Bool → Bool

/-- The memory and its history: the words that have been overwritten with a trampoline, with
what they held, and the bytes that guest code has changed since. -/
structure GuestStack extends GuestMemory where
  overwritten : List (UInt64 × Option UInt64) := []
  touched : ℕ → Bool := fun _ => false

namespace GuestStack

/-- The word at an address, if it can be read. -/
def word (g : GuestStack) (address : UInt64) : Option UInt64 :=
  (g.thread.read address.toNat 8).map fun bytes => UInt64.ofNat (ofLE bytes)

/-- `save_guest_stack_value`. -/
def save (g : GuestStack) (stackPointer : UInt64) : Option UInt64 := g.thread.readU64 stackPointer

/-- `write_guest_stack_value`. -/
def write (g : GuestStack) (stackPointer value : UInt64) : Option GuestStack :=
  if g.thread.validStackRange stackPointer 8 ∧
      (List.range' stackPointer.toNat 8).all g.writable then
    some { g with
      thread := { g.thread with
        byte := storeBytes g.thread.byte stackPointer.toNat (toLE 8 value.toNat) } }
  else none

/-- `write_guest_stack_value` of the address of a trampoline. -/
def install (g : GuestStack) (stackPointer trampoline : UInt64) : Option GuestStack :=
  (g.write stackPointer trampoline).map fun g' =>
    { g' with
      overwritten := (stackPointer, g.word stackPointer) :: g.overwritten
      touched := fun a => g.touched a &&
        !(decide (stackPointer.toNat ≤ a) && decide (a < stackPointer.toNat + 8)) }

def after (g : GuestStack) (memory : GuestMemory) : GuestStack :=
  { memory with
    overwritten := g.overwritten
    touched := fun a => g.touched a || decide (memory.thread.byte a ≠ g.thread.byte a) }

/-- `resolve_cleanup_object`: the argument of the cleanup, if it has one. -/
def resolveCleanupObject (g : GuestStack) (action : CleanupAction) (establisher : UInt64) :
    Option (Option UInt64) :=
  if action.kind ≠ .dtorWithObject ∧ action.kind ≠ .dtorWithPointerToObject then some none
  else do
    let slot ← addU64 establisher action.objectOffset.toUInt64
    if action.kind = .dtorWithObject then
      if g.mapped slot 1 true then return some slot else none
    else if g.mapped slot 8 false then
      let argument ← g.word slot
      if argument = 0 ∨ g.mapped argument 1 true = false then none else return some argument
    else none

end GuestStack

/-! ### The transfers -/

/-- A jump to a funclet, with the variables and the memory it finds. -/
structure FuncletJump where
  fields : CxxTransfer
  stack : GuestStack
  context : ContextAmd64

/-- `prepare_cxx_catch_transfer`. -/
def prepareCxxCatchTransfer (host : FuncletHost) (f : CxxTransfer) (g : GuestStack)
    (context : ContextAmd64) (establisher target : UInt64) : Option FuncletJump :=
  let resumeStack := context.register rsp
  let funcletStack := resumeStack - 8
  if resumeStack < 8 ∨ target = 0 ∨ target ≠ f.catchTarget then none
  else do
    let originalReturn ← g.save funcletStack
    let g ← g.install funcletStack host.catchReturnTrampoline
    let funcletContext := (context.setRegister rsp funcletStack).setRegister rdx establisher
    return {
      fields := { f with
        cleanupReturnSlots := []
        catchReturnSlot := funcletStack
        catchReturnValue := originalReturn
        catchReturnSlotReady := true
        catchResumeContext := context
        catchResumeContextReady := true
        catchContext := funcletContext
        catchContextReady := true
        catchReturnTarget := f.catchContinuation
        catchReturnTargetReady := f.catchContinuationReady
        catchReturnPreserveStack := f.catchContinuationReady
        catchResumeStack := resumeStack
        catchContinuation := 0
        catchContinuationReady := false
        funcletActive := true
        cleanupContextReady := false
        catchTarget := 0 }
      stack := g
      context := funcletContext }

/-- The stack of the first cleanup, below the frame of the catch. -/
def cleanupStackOf (stack : UInt64) : UInt64 :=
  if stack ≥ kCxxCleanupStackOffset + 8 then
    roundDown 4 (stack - kCxxCleanupStackOffset - 8) + 8
  else 0

def cleanupContext (context : ContextAmd64) (stack target establisher : UInt64)
    (argument : Option UInt64) : ContextAmd64 :=
  let context : ContextAmd64 :=
    { (context.setRegister rsp stack).setRegister rdx establisher with rip := target }
  match argument with
  | none => context
  | some object => context.setRegister rcx object

/-- `save_cleanup_return_slot`. -/
def saveCleanupReturnSlot (f : CxxTransfer) (g : GuestStack) (stackPointer : UInt64) :
    Option CxxTransfer :=
  if f.cleanupReturnSlots.length ≥ kMaxCleanupActions then none
  else (g.save stackPointer).map fun value =>
    { f with cleanupReturnSlots := f.cleanupReturnSlots ++ [(stackPointer, value)] }

/-- `restore_cleanup_return_slot`. -/
def restoreCleanupReturnSlot (f : CxxTransfer) (g : GuestStack) (index : ℕ)
    (stackPointer : UInt64) : Option GuestStack :=
  match f.cleanupReturnSlots[index]? with
  | none => none
  | some (slot, value) =>
    if stackPointer < 8 ∨ slot ≠ stackPointer - 8 then none else g.write slot value

/-- `prepare_cxx_cleanup_transfer`. -/
def prepareCxxCleanupTransfer (host : FuncletHost) (f : CxxTransfer) (g : GuestStack)
    (actionContext catchContext : ContextAmd64) (establisher cleanupIp catchIp : UInt64) :
    Option FuncletJump :=
  let catchReturnSlot := catchContext.register rsp - 8
  let cleanupStack := cleanupStackOf (catchContext.register rsp)
  if cleanupIp = 0 ∨ cleanupIp ≠ f.cleanupTarget ∨ catchIp = 0 ∨ catchIp ≠ f.catchTarget then none
  else do
    let action ← f.cleanupActions[f.cleanupIndex]?
    let argument ← g.resolveCleanupObject action establisher
    if catchContext.register rsp < 8 ∨ cleanupStack = 0 ∨
        g.thread.validStackRange cleanupStack 8 = false ∨
        g.thread.validStackRange catchReturnSlot 8 = false then none
    else
      let f ← saveCleanupReturnSlot
        { f with cleanupReturnSlots := [], catchReturnSlotReady := false } g cleanupStack
      let originalCatchReturn ← g.save catchReturnSlot
      let g ← g.install cleanupStack host.cleanupReturnTrampoline
      let g ← g.install catchReturnSlot host.catchReturnTrampoline
      return {
        fields := { f with
          catchReturnSlot := catchReturnSlot
          catchReturnValue := originalCatchReturn
          catchReturnSlotReady := true
          catchResumeContext := catchContext
          catchResumeContextReady := true
          catchContext := { (catchContext.setRegister rsp catchReturnSlot).setRegister rdx
            establisher with rip := catchIp }
          catchContextReady := true
          catchReturnTarget := f.catchContinuation
          catchReturnTargetReady := f.catchContinuationReady
          catchReturnPreserveStack := f.catchContinuationReady
          catchResumeStack := catchContext.register rsp
          cleanupContextReady := true
          funcletActive := true
          cleanupEstablisher := establisher
          cleanupTarget := 0 }
        stack := g
        context := cleanupContext actionContext cleanupStack cleanupIp establisher argument }

/-! ### The returns -/

/-- Where a cleanup returns to. -/
inductive CleanupReturn
  | cleanup (jump : FuncletJump)
  | catching (jump : FuncletJump)

/-- The stack of the next cleanup, when the last one has left RSP at `stackPointer`. -/
def nextCleanupStack (stackPointer : UInt64) : Option UInt64 :=
  if stackPointer &&& 0x0F = 0 then addU64 stackPointer 8 else some stackPointer

/-- The part of `tl_cxx_cleanup_return_from_asm` that goes on to another cleanup. -/
def nextCleanup (host : FuncletHost) (f : CxxTransfer) (g : GuestStack) (action : CleanupAction)
    (stackPointer : UInt64) : Option FuncletJump :=
  if action.actionRva.toNat ≥ host.imageSize.toNat then none
  else do
    let target ← addU64 host.imageBase action.actionRva.toUInt64
    let argument ← g.resolveCleanupObject action f.cleanupEstablisher
    let stack ← nextCleanupStack stackPointer
    if g.thread.validStackRange stack 8 = false ∨
        f.cleanupReturnSlots.length ≠ f.cleanupIndex + 1 then none
    else
      let f ← saveCleanupReturnSlot f g stack
      let g ← g.install stack host.cleanupReturnTrampoline
      return {
        fields := { f with
          cleanupIndex := f.cleanupIndex + 1
          cleanupTarget := target
          cleanupContextReady := true }
        stack := g
        context := cleanupContext f.catchContext stack target f.cleanupEstablisher argument }

/-- The part that goes on to the catch. -/
def enterCatch (f : CxxTransfer) (g : GuestStack) : Option FuncletJump :=
  let f := { f with cleanupContextReady := false, funcletActive := false }
  if f.catchReturnSlotReady = false ∨ f.catchContext.register rsp ≠ f.catchReturnSlot ∨
      g.thread.validStackRange f.catchReturnSlot 8 = false then none
  else some {
    fields := { f with
      cleanupTarget := 0
      cleanupEstablisher := 0
      cleanupActions := []
      cleanupIndex := 0
      cleanupReturnSlots := [] }
    stack := g
    context := f.catchContext }

/-- `tl_cxx_cleanup_return_from_asm`; nothing where the thread exits. -/
def cxxCleanupReturn (host : FuncletHost) (f : CxxTransfer) (g : GuestStack)
    (stackPointer : UInt64) : Option CleanupReturn :=
  if host.imageBase = 0 ∨ g.thread.validStackRange stackPointer 1 = false ∨
      f.cleanupContextReady = false ∨ f.catchContextReady = false ∨
      f.catchResumeContextReady = false ∨ f.cleanupIndex ≥ f.cleanupCount ∨
      f.catchContext.rip < host.imageBase ∨
      f.catchContext.rip - host.imageBase ≥ host.imageSize then none
  else do
    let g ← restoreCleanupReturnSlot f g f.cleanupIndex stackPointer
    match f.cleanupActions[f.cleanupIndex + 1]? with
    | some action => (nextCleanup host f g action stackPointer).map .cleanup
    | none => (enterCatch f g).map .catching

/-- `effective_target`. -/
def effectiveTarget (f : CxxTransfer) (targetIp : UInt64) : UInt64 :=
  if targetIp = 0 ∧ f.catchReturnTargetReady = true then f.catchReturnTarget else targetIp

/-- `tl_cxx_catch_return_from_asm`: the context that is resumed. -/
def cxxCatchReturn (host : FuncletHost) (f : CxxTransfer) (g : GuestStack)
    (targetIp stackPointer : UInt64) : Option FuncletJump :=
  let target := effectiveTarget f targetIp
  if host.imageBase = 0 ∨ target < host.imageBase ∨ target - host.imageBase ≥ host.imageSize ∨
      g.thread.validStackRange stackPointer 1 = false ∨ f.catchContextReady = false ∨
      f.catchResumeContextReady = false then none
  else
    let stack := if f.catchReturnPreserveStack then f.catchResumeStack else stackPointer
    if f.catchReturnSlotReady = false ∨ stackPointer < 8 ∨
        f.catchReturnSlot ≠ stackPointer - 8 then none
    else (g.write f.catchReturnSlot f.catchReturnValue).map fun g => {
      fields := { f with
        catchContextReady := false
        catchResumeContextReady := false
        catchReturnTarget := 0
        catchReturnTargetReady := false
        catchReturnPreserveStack := false
        catchResumeStack := 0
        catchReturnSlot := 0
        catchReturnValue := 0
        catchReturnSlotReady := false
        funcletActive := false }
      stack := g
      context := { f.catchResumeContext with rip := target }.setRegister rsp stack }

/-! ### Runs -/

/-- Where the thread is; `failed` is `fail_seh`, and `exited` the exit of a return that is not
accepted. -/
inductive FuncletPhase
  | unwound
  | cleanup (context : ContextAmd64)
  | catching (context : ContextAmd64)
  | resumed (context : ContextAmd64)
  | dispatched (record : ExceptionRecordAmd64)
  | failed
  | exited

def FuncletPhase.executing : FuncletPhase → Bool
  | .cleanup _ | .catching _ => true
  | _ => false

/-- A thread between an unwinding and the end of the catch; `saved` is the context of the
function when the transfer was prepared. -/
structure FuncletRun where
  fields : CxxTransfer
  stack : GuestStack
  phase : FuncletPhase := .unwound
  saved : Option ContextAmd64 := none

/-- What happens: a transfer, guest code in a funclet, the return of a funclet, or an exception
that it raises. -/
inductive FuncletAction
  | prepareCatch (context : ContextAmd64) (establisher target : UInt64)
  | prepareCleanup (actionContext catchContext : ContextAmd64)
      (establisher cleanupIp catchIp : UInt64)
  | guest (memory : GuestMemory)
  | cleanupReturn (stackPointer : UInt64)
  | catchReturn (targetIp stackPointer : UInt64)
  | raise (exception : RaisedException)

namespace FuncletRun

def jump (s : FuncletRun) (phase : ContextAmd64 → FuncletPhase) (j : FuncletJump) : FuncletRun :=
  { s with fields := j.fields, stack := j.stack, phase := phase j.context }

/-- The state after a transfer that may have been refused. -/
def transfer (s : FuncletRun) (saved : ContextAmd64) (phase : ContextAmd64 → FuncletPhase) :
    Option FuncletJump → FuncletRun
  | none => { s with phase := .failed }
  | some j => { s.jump phase j with saved := some saved }

/-- `dispatch_raised_exception` up to the guard for nested exceptions. -/
def raise (s : FuncletRun) (e : RaisedException) : FuncletRun :=
  match raisedRecord { e with funcletActive := s.fields.funcletActive } with
  | .error _ => { s with phase := .failed }
  | .ok record => { s with phase := .dispatched record }

def step (host : FuncletHost) (s : FuncletRun) (a : FuncletAction) : Option FuncletRun :=
  match s.phase, a with
  | .unwound, .prepareCatch context establisher target =>
    some (s.transfer context .catching
      (prepareCxxCatchTransfer host s.fields s.stack context establisher target))
  | .unwound, .prepareCleanup actionContext catchContext establisher cleanupIp catchIp =>
    some (s.transfer catchContext .cleanup (prepareCxxCleanupTransfer host s.fields s.stack
      actionContext catchContext establisher cleanupIp catchIp))
  | .cleanup _, .guest memory | .catching _, .guest memory =>
    some { s with stack := s.stack.after memory }
  | .cleanup _, .raise e | .catching _, .raise e => some (s.raise e)
  | .cleanup _, .cleanupReturn stackPointer =>
    match cxxCleanupReturn host s.fields s.stack stackPointer with
    | none => some { s with phase := .exited }
    | some (.cleanup j) => some (s.jump .cleanup j)
    | some (.catching j) => some (s.jump .catching j)
  | .catching _, .catchReturn targetIp stackPointer =>
    match cxxCatchReturn host s.fields s.stack targetIp stackPointer with
    | none => some { s with phase := .exited }
    | some j => some (s.jump .resumed j)
  | _, _ => none

/-- A thread after an unwinding, with any variables and memory. -/
def start (f : CxxTransfer) (memory : GuestMemory) : FuncletRun :=
  { fields := f, stack := { memory with } }

/-! ### The statement -/

end FuncletRun

/-- Guest code has left the word alone since it was overwritten. -/
def GuestStack.Untouched (g : GuestStack) (address : UInt64) : Prop :=
  ∀ a, address.toNat ≤ a → a < address.toNat + 8 → g.touched a = false

/-- The word, if guest code has left it alone, is what it was. -/
def GuestStack.Settled (g : GuestStack) (w : UInt64 × Option UInt64) : Prop :=
  g.Untouched w.1 → g.word w.1 = w.2

namespace FuncletRun

/-- After the return from the catch the overwritten words are back. -/
def Restored (s : FuncletRun) : Prop :=
  ∀ context, s.phase = .resumed context → ∀ w ∈ s.stack.overwritten, s.stack.Settled w

/-- The context that is resumed is the saved one, at the place that the catch returns. -/
def ResumesSaved (s : FuncletRun) : Prop :=
  ∀ context, s.phase = .resumed context →
    ∃ saved rip, s.saved = some saved ∧ context = { saved with rip := rip }

/-- In a funclet the guard is up, and a C++ throw is refused and changes nothing that was saved;
after the catch everything is as it was. -/
structure Guarded (host : FuncletHost) (s : FuncletRun) : Prop where
  active : s.phase.executing → s.fields.funcletActive = true
  refused : ∀ e s', s.phase.executing → e.code = kCxxException →
    s.step host (.raise e) = some s' →
      s'.phase = .failed ∧ s'.fields = s.fields ∧ s'.stack = s.stack
  restored : s.Restored
  resumes : s.ResumesSaved

/-- No return from the last cleanup. -/
def KeepsGuard (s : FuncletRun) : FuncletAction → Prop
  | .cleanupReturn _ => s.fields.cleanupIndex + 1 < s.fields.cleanupCount
  | _ => True

end FuncletRun
/-! ### Words of the guest stack -/

theorem GuestThread.read_congr {t t' : GuestThread} {ad size : ℕ}
    (h : ∀ a, ad ≤ a → a < ad + size → t'.byte a = t.byte a) :
    t'.read ad size = t.read ad size := by
  unfold read
  induction size generalizing ad with
  | zero => rfl
  | succ size ih =>
    rw [range'_succ, mapM_cons, mapM_cons, h ad (le_refl _) (by omega),
      ih fun a he hl => h a (by omega) (by omega)]

namespace GuestStack

variable {g g' : GuestStack} {address add ad value va v : UInt64}

theorem write_eq_some (h : g.write ad v = some g') : g' = { g with
      thread := { g.thread with
        byte := storeBytes g.thread.byte ad.toNat (toLE 8 v.toNat) } } := by
  unfold write at h
  split at h
  · exact (some.inj h).symm
  · cases h

theorem word_of_save (h : g.save address = some value) : g.word address = some value := by
  unfold save GuestThread.readU64 at h
  split at h
  · exact h
  · cases h

theorem word_write (h : g.write address value = some g') : g'.word address = some value := by
  obtain rfl := write_eq_some h
  unfold word
  rw [GuestThread.read_of_hasBytes (length_toLE 8 value.toNat) (hasBytes_storeBytes _ _ _),
    map_some, ofLE_toLE_of_lt (by simpa using value.toNat_lt), UInt64.ofNat_toNat]

theorem word_congr (h : ∀ a, address.toNat ≤ a → a < address.toNat + 8 →
    g'.thread.byte a = g.thread.byte a) : g'.word address = g.word address := by
  unfold word
  rw [GuestThread.read_congr h]

theorem word_write_of_apart (h : g.write ad v = some g') {other : UInt64}
    (ha : other.toNat + 8 ≤ ad.toNat ∨ ad.toNat + 8 ≤ other.toNat) :
    g'.word other = g.word other := by
  obtain rfl := write_eq_some h
  refine word_congr fun a he hl => storeBytes_apart ?_
  rw [length_toLE]
  omega

theorem install_eq_some {t : UInt64} (h : g.install ad t = some g') : ∃ g₁, g.write ad t = some g₁ ∧
      g'.overwritten = (ad, g.word ad) :: g.overwritten ∧
      (∀ o, g'.word o = g₁.word o) ∧
      ∀ a, g.touched a → g'.touched a = false → ad.toNat ≤ a ∧ a < ad.toNat + 8 := by
  obtain ⟨g₁, hw, rfl⟩ := map_eq_some_iff.1 h
  refine ⟨g₁, hw, ?_, fun _ => rfl, fun a ht hf => ?_⟩
  · rfl
  · simpa [ht] using hf

variable {w : UInt64 × Option UInt64}

theorem Settled.write (h : g.Settled w) (hw : g.write ad v = some g')
    (ha : w.1.toNat + 8 ≤ ad.toNat ∨ ad.toNat + 8 ≤ w.1.toNat) : g'.Settled w := by
  intro hc
  rw [word_write_of_apart hw ha]
  obtain rfl := write_eq_some hw
  exact h hc

theorem settled_write (hw : g.write ad v = some g') :
    g'.Settled (ad, some v) := fun _ => word_write hw

theorem Settled.install {t : UInt64} (h : g.Settled w) (hi : g.install ad t = some g')
    (ha : w.1.toNat + 8 ≤ ad.toNat ∨ ad.toNat + 8 ≤ w.1.toNat) : g'.Settled w := by
  obtain ⟨g₁, hw, -, hwo, ho⟩ := install_eq_some hi
  intro hc
  rw [hwo, word_write_of_apart hw ha]
  refine h fun a hl hlt => ?_
  by_contra ht
  have hn := ho a (by simpa using ht) (hc a hl hlt)
  omega

/-- Guest code does not unsettle the words that it leaves alone. -/
theorem Settled.after (h : g.Settled w) (mem : GuestMemory) : (g.after mem).Settled w := by
  intro hc
  have hk : ∀ a, w.1.toNat ≤ a → a < w.1.toNat + 8 → g.touched a = false ∧
      mem.thread.byte a = g.thread.byte a := by
    intro a he hl
    have ha := hc a he hl
    simpa [GuestStack.after] using ha
  have hw : (g.after mem).word w.1 = g.word w.1 := word_congr fun a he hl => (hk a he hl).2
  rw [hw]
  exact h fun a he hl => (hk a he hl).1

end GuestStack
/-! ### What the transfers keep -/

/-- The overwritten word of the catch, with what it held. -/
def CxxTransfer.catchWord (f : CxxTransfer) : UInt64 × Option UInt64 :=
  (f.catchReturnSlot, some f.catchReturnValue)

/-- What is kept for the return from the catch. -/
structure CatchSaved (f : CxxTransfer) (saved : ContextAmd64) : Prop where
  returnSlot : f.catchReturnSlot.toNat + 8 = (saved.register rsp).toNat
  context : f.catchResumeContext = saved
  stack : f.catchResumeStack = saved.register rsp

/-- In the catch: its own word is overwritten, those of the cleanups below are back. -/
structure InCatch (f : CxxTransfer) (g : GuestStack) (saved : ContextAmd64) : Prop
    extends CatchSaved f saved where
  words : ∀ w ∈ g.overwritten, w = f.catchWord ∨
    g.Settled w ∧ w.1.toNat + 8 ≤ f.catchReturnSlot.toNat

/-- In a cleanup that returns through `slot`, after those of `earlier`: the slots climb by 16
bytes at most, from 0x1000 bytes below the frame. -/
structure InCleanup (f : CxxTransfer) (g : GuestStack) (saved : ContextAmd64)
    (earlier : List (UInt64 × UInt64)) (slot : UInt64 × UInt64) : Prop
    extends CatchSaved f saved where
  slots : f.cleanupReturnSlots = earlier ++ [slot]
  index : earlier ≠ [] → f.cleanupIndex = earlier.length
  below : slot.1.toNat + 0x1000 ≤ (saved.register rsp).toNat + 16 * earlier.length
  few : earlier.length < kMaxCleanupActions
  words : ∀ w ∈ g.overwritten, w = f.catchWord ∨ w = (slot.1, some slot.2) ∨
    g.Settled w ∧ w.1.toNat + 8 ≤ slot.1.toNat

variable {host : FuncletHost} {f f' : CxxTransfer} {g g' : GuestStack} {j : FuncletJump}
  {saved sa : ContextAmd64} {earlier ea : List (UInt64 × UInt64)} {slot sl : UInt64 × UInt64}

theorem toNat_sub_eight {a : UInt64} (h : ¬a < 8) : (a - 8).toNat + 8 = a.toNat := by
  rw [lt_iff_toNat_lt] at h
  have height : (8 : UInt64).toNat = 8 := rfl
  rw [UInt64.toNat_sub_of_le a 8 (by rw [le_iff_toNat_le]; omega)]
  omega

theorem inCatch_of_prepare {c : ContextAmd64} {e t : UInt64} (hf : g.overwritten = [])
    (h : prepareCxxCatchTransfer host f g c e t = some j) :
    InCatch j.fields j.stack c ∧ j.fields.funcletActive := by
  unfold prepareCxxCatchTransfer at h
  simp only at h
  split at h
  · cases h
  next hc =>
  simp only [bind, bind_eq_some_iff] at h
  obtain ⟨v, hs, g₁, hi, hj⟩ := h
  cases hj
  obtain ⟨g₂, -, ho, -, -⟩ := GuestStack.install_eq_some hi
  refine ⟨⟨⟨toNat_sub_eight fun hl => hc (.inl hl), rfl, rfl⟩, fun w hw => ?_⟩, rfl⟩
  rw [ho, hf, mem_singleton, GuestStack.word_of_save hs] at hw
  exact .inl hw

variable {stackPointer st sp : UInt64}

theorem saveCleanupReturnSlot_eq_some (h : saveCleanupReturnSlot f g sp = some f') :
    ∃ v, g.word sp = some v ∧ f.cleanupReturnSlots.length < kMaxCleanupActions ∧
      f' = { f with cleanupReturnSlots := f.cleanupReturnSlots ++ [(sp, v)] } := by
  unfold saveCleanupReturnSlot at h
  split at h
  · cases h
  · next hr =>
    obtain ⟨v, hs, rfl⟩ := map_eq_some_iff.1 h
    exact ⟨v, GuestStack.word_of_save hs, not_le.1 hr, rfl⟩

theorem toNat_cleanupStackOf {sk : UInt64} (h : cleanupStackOf sk ≠ 0) :
    (cleanupStackOf sk).toNat + 0x1000 ≤ sk.toNat := by
  unfold cleanupStackOf at *
  split at h
  · next hg =>
    rw [if_pos hg]
    have ho : (kCxxCleanupStackOffset + 8).toNat = 0x1008 := rfl
    have hk : kCxxCleanupStackOffset.toNat = 0x1000 := rfl
    have height : (8 : UInt64).toNat = 8 := rfl
    rw [ge_iff_le, le_iff_toNat_le, ho] at hg
    have hs : (sk - kCxxCleanupStackOffset - 8).toNat = sk.toNat - 0x1008 := by
      rw [UInt64.toNat_sub_of_le _ 8 (by
          rw [le_iff_toNat_le, UInt64.toNat_sub_of_le _ _ (by
            rw [le_iff_toNat_le]; omega)]
          omega),
        UInt64.toNat_sub_of_le _ _ (by rw [le_iff_toNat_le]; omega)]
      omega
    have hr := toNat_roundDown (by decide : 4 < 64) (sk - kCxxCleanupStackOffset - 8)
    rw [UInt64.toNat_add, hr, hs, height]
    omega
  · exact absurd rfl h

theorem inCleanup_of_prepare {ac : ContextAmd64} {e ci c : UInt64} (hf : g.overwritten = [])
    (h : prepareCxxCleanupTransfer host f g ac sa e ci c = some j) :
    (∃ sl, InCleanup j.fields j.stack sa [] sl) ∧ j.fields.funcletActive := by
  unfold prepareCxxCleanupTransfer at h
  split at h
  · cases h
  simp only [bind, bind_eq_some_iff] at h
  obtain ⟨a, -, ar, -, h⟩ := h
  split at h
  · cases h
  next hh =>
  simp only [bind_eq_some_iff] at h
  obtain ⟨f₁, hs, original, ha, g₁, hl, g₂, hc, hj⟩ := h
  cases hj
  obtain ⟨v, hv, -, rfl⟩ := saveCleanupReturnSlot_eq_some hs
  have hr : ¬sa.register rsp < 8 := fun ht => hh (.inl ht)
  have hb := toNat_cleanupStackOf fun hz => hh (.inr (.inl hz))
  have hcs := toNat_sub_eight hr
  -- the two words are apart, so each keeps its value while the other is written
  obtain ⟨g₃, hwr, hwo, ho, -⟩ := GuestStack.install_eq_some hl
  obtain ⟨g₄, -, hw', -, -⟩ := GuestStack.install_eq_some hc
  have hi : g₁.word (sa.register rsp - 8) = some original := by
    rw [ho, GuestStack.word_write_of_apart hwr (.inr (by omega))]
    exact GuestStack.word_of_save ha
  refine ⟨⟨(cleanupStackOf (sa.register rsp), v), ⟨⟨hcs, rfl, rfl⟩, rfl,
    fun hn => absurd rfl hn, by simpa using hb, by decide, fun w hw => ?_⟩⟩, rfl⟩
  rw [hw', hwo, hf, hi, hv] at hw
  rcases mem_cons.1 hw with rfl | hw
  · exact .inl rfl
  · exact .inr (.inl (mem_singleton.1 hw))

/-- Between two cleanups: the words up to the last slot are back. -/
def Cleaned (f : CxxTransfer) (g : GuestStack) (stackPointer : UInt64) : Prop :=
  ∀ w ∈ g.overwritten, w = f.catchWord ∨ g.Settled w ∧ w.1.toNat + 8 ≤ stackPointer.toNat

theorem InCleanup.restore (h : InCleanup f g saved earlier slot)
    (he : restoreCleanupReturnSlot f g f.cleanupIndex stackPointer = some g') :
    stackPointer.toNat = slot.1.toNat + 8 ∧ Cleaned f g' stackPointer := by
  unfold restoreCleanupReturnSlot at he
  split at he
  · cases he
  next address value hi =>
  -- the index is that of the last slot
  have hl : (address, value) = slot := by
    rw [h.slots] at hi
    rcases eq_nil_or_concat earlier with rfl | ⟨p, l, hpr⟩
    · have hz : f.cleanupIndex < 1 := by
        have ht := (List.getElem?_eq_some_iff.1 hi).1
        simpa using ht
      rw [Nat.lt_one_iff.1 hz] at hi
      exact (some.inj hi).symm
    · rw [h.index (by rw [hpr]; simp), getElem?_append_right (le_refl _), Nat.sub_self] at hi
      exact (some.inj hi).symm
  subst hl
  split at he
  · cases he
  next hp =>
  have hr : ¬stackPointer < 8 := fun ht => hp (.inl ht)
  have hs : address = stackPointer - 8 := by
    by_contra hne
    exact hp (.inr hne)
  have hn : stackPointer.toNat = address.toNat + 8 := by
    rw [hs]
    exact (toNat_sub_eight hr).symm
  refine ⟨hn, fun w hw => ?_⟩
  have ha : g'.overwritten = g.overwritten := by rw [GuestStack.write_eq_some he]
  rw [ha] at hw
  rcases h.words w hw with hc | rfl | ⟨hse, hle⟩
  · exact .inl hc
  · exact .inr ⟨GuestStack.settled_write he, hn.ge⟩
  · have hle : w.1.toNat + 8 ≤ address.toNat := hle
    exact .inr ⟨hse.write he (.inl hle), by omega⟩

theorem nextCleanupStack_eq_some {sp sk : UInt64} (h : nextCleanupStack sp = some sk) :
    sp.toNat ≤ sk.toNat ∧ sk.toNat ≤ sp.toNat + 8 := by
  unfold nextCleanupStack at h
  split at h
  · have ha := addU64_eq_some.1 h
    have height : (8 : UInt64).toNat = 8 := rfl
    omega
  · cases h
    omega

theorem InCleanup.next (h : InCleanup f g sa ea sl) {a : CleanupAction} (hp :
  sp.toNat = sl.1.toNat + 8) (he : Cleaned f g' sp) (hn : nextCleanup host f g' a sp = some j) :
    (∃ sl', InCleanup j.fields j.stack sa (ea ++ [sl]) sl') ∧
      j.fields.funcletActive = f.funcletActive := by
  unfold nextCleanup at hn
  split at hn
  · cases hn
  simp only [bind, bind_eq_some_iff] at hn
  obtain ⟨t, -, ar, -, sk, hs, hn⟩ := hn
  split at hn
  · cases hn
  next hh =>
  simp only [bind_eq_some_iff] at hn
  obtain ⟨f₁, hsl, g₁, hi, hj⟩ := hn
  cases hj
  obtain ⟨v, hv, hr, rfl⟩ := saveCleanupReturnSlot_eq_some hsl
  obtain ⟨g₂, -, ho, -, -⟩ := GuestStack.install_eq_some hi
  obtain ⟨hle, hg⟩ := nextCleanupStack_eq_some hs
  have hl : (ea ++ [sl]).length = ea.length + 1 := by simp
  have hc : f.cleanupIndex + 1 = ea.length + 1 := by
    rw [← hl, ← h.slots]
    by_contra hne
    exact hh (.inr fun heq => hne heq.symm)
  have hb := h.below
  refine ⟨⟨(sk, v), ⟨{ h with }, ?_, fun _ => ?_, ?_, ?_, fun w hw => ?_⟩⟩, rfl⟩
  · rw [h.slots]
  · rw [hl]
    exact hc
  · show sk.toNat + 0x1000 ≤ _
    omega
  · rwa [h.slots] at hr
  · rw [ho] at hw
    rcases mem_cons.1 hw with rfl | hw
    · rw [hv]
      exact .inr (.inl rfl)
    · rcases he w hw with ha | ⟨ht, h8⟩
      · exact .inl ha
      · have hl' : w.1.toNat + 8 ≤ sk.toNat := by omega
        exact .inr (.inr ⟨ht.install hi (.inl hl'), hl'⟩)

theorem InCleanup.enterCatch (h : InCleanup f g sa ea sl)
    (hp : sp.toNat = sl.1.toNat + 8) (hl : Cleaned f g' sp) (he : enterCatch f g' = some j) :
    InCatch j.fields j.stack sa ∧ j.fields.funcletActive = false := by
  unfold TradutorLinux.Runtime.enterCatch at he
  simp only at he
  split at he
  · cases he
  cases he
  refine ⟨⟨{ h with }, fun w hw => ?_⟩, rfl⟩
  rcases hl w hw with hc | ⟨ht, hle⟩
  · exact .inl hc
  have hb := h.below
  have hf := h.few
  have hs := h.returnSlot
  unfold kMaxCleanupActions at hf
  exact .inr ⟨ht, by simp only; omega⟩

/-- **The return of a cleanup**: on to the next one with the guard up, or to the catch with the
guard down. -/
theorem InCleanup.cleanupReturn (h : InCleanup f g sa ea sl)
    {next : CleanupReturn} (hr : cxxCleanupReturn host f g sp = some next) :
    (∃ j sl', next = .cleanup j ∧ f.cleanupIndex + 1 < f.cleanupCount ∧
      InCleanup j.fields j.stack sa (ea ++ [sl]) sl' ∧
      j.fields.funcletActive = f.funcletActive) ∨
    ∃ j, next = .catching j ∧ ¬f.cleanupIndex + 1 < f.cleanupCount ∧
      InCatch j.fields j.stack sa ∧ j.fields.funcletActive = false := by
  unfold cxxCleanupReturn at hr
  split at hr
  · cases hr
  simp only [bind, bind_eq_some_iff] at hr
  obtain ⟨g', hre, hr⟩ := hr
  obtain ⟨hs, hl⟩ := h.restore hre
  split at hr
  · next a hc =>
    obtain ⟨j, hn, rfl⟩ := map_eq_some_iff.1 hr
    obtain ⟨⟨sl', hi⟩, ha⟩ := h.next hs hl hn
    exact .inl ⟨j, sl', rfl, (List.getElem?_eq_some_iff.1 hc).1, hi, ha⟩
  · next hc =>
    obtain ⟨j, he, rfl⟩ := map_eq_some_iff.1 hr
    obtain ⟨hi, ha⟩ := h.enterCatch hs hl he
    exact .inr ⟨j, rfl, not_lt.2 (List.getElem?_eq_none_iff.1 hc), hi, ha⟩

/-- **The return of the catch** puts its word back and resumes the saved context. -/
theorem InCatch.catchReturn (h : InCatch f g sa) {ip sp : UInt64}
    (he : cxxCatchReturn host f g ip sp = some j) :
    (∀ w ∈ j.stack.overwritten, j.stack.Settled w) ∧ ∃ r, j.context = { sa with rip := r } := by
  unfold cxxCatchReturn at he
  simp only at he
  split at he
  · cases he
  split at he
  · cases he
  next hc =>
  obtain ⟨g', hwr, rfl⟩ := map_eq_some_iff.1 he
  have hr : ¬sp < 8 := fun hlt => hc (.inr (.inl hlt))
  have hsl : f.catchReturnSlot = sp - 8 := by
    by_contra hne
    exact hc (.inr (.inr hne))
  have hp : sp = sa.register rsp := by
    have hn := toNat_sub_eight hr
    rw [← hsl, h.returnSlot] at hn
    exact UInt64.toNat_inj.1 hn.symm
  constructor
  · intro w hw
    have ha : g'.overwritten = g.overwritten := by rw [GuestStack.write_eq_some hwr]
    rw [ha] at hw
    rcases h.words w hw with rfl | ⟨ht, hl⟩
    · exact GuestStack.settled_write hwr
    · exact ht.write hwr (.inl hl)
  · have hs : (if f.catchReturnPreserveStack then f.catchResumeStack
        else sp) = sa.register rsp := by
      rw [h.stack, hp, ite_self]
    rw [hs, h.context]
    refine ⟨effectiveTarget f ip, ?_⟩
    unfold ContextAmd64.setRegister
    simp

/-! ### What guest code keeps -/

theorem InCatch.after (h : InCatch f g sa) (mem : GuestMemory) : InCatch f (g.after mem) sa where
  toCatchSaved := h.toCatchSaved
  words := fun w hw => (h.words w hw).imp_right fun ⟨hs, hl⟩ => ⟨hs.after mem, hl⟩

theorem InCleanup.after (h : InCleanup f g sa ea sl) (mem : GuestMemory) :
    InCleanup f (g.after mem) sa ea sl where
  toCatchSaved := h.toCatchSaved
  slots := h.slots
  index := h.index
  below := h.below
  few := h.few
  words := fun w hw => (h.words w hw).imp_right fun hw =>
    hw.imp_right fun ⟨hs, hl⟩ => ⟨hs.after mem, hl⟩

/-! ### Runs -/

namespace FuncletRun

variable {s s' : FuncletRun}

/-- What holds in each phase. -/
def Invariant (s : FuncletRun) : Prop :=
  match s.phase with
  | .unwound => s.stack.overwritten = []
  | .cleanup _ => s.fields.funcletActive = true ∧ ∃ saved earlier slot, s.saved = some saved ∧
      InCleanup s.fields s.stack saved earlier slot
  | .catching _ => ∃ saved, s.saved = some saved ∧ InCatch s.fields s.stack saved
  | .resumed context => (∀ w ∈ s.stack.overwritten, s.stack.Settled w) ∧
      ∃ saved rip, s.saved = some saved ∧ context = { saved with rip := rip }
  | .dispatched _ | .failed | .exited => True

/-- The guard is up in the catch. -/
def CatchActive (s : FuncletRun) : Prop :=
  ∀ context, s.phase = .catching context → s.fields.funcletActive = true

theorem raise_phase (s : FuncletRun) (e : RaisedException) :
    ((s.raise e).phase = .failed ∨ ∃ r, (s.raise e).phase = .dispatched r) ∧
      (s.raise e).fields = s.fields ∧ (s.raise e).stack = s.stack := by
  unfold raise
  split
  · exact ⟨.inl rfl, rfl, rfl⟩
  · next r _ => exact ⟨.inr ⟨r, rfl⟩, rfl, rfl⟩

theorem invariant_raise (s : FuncletRun) (e : RaisedException) : (s.raise e).Invariant := by
  unfold Invariant
  rcases (raise_phase s e).1 with h | ⟨r, h⟩ <;> rw [h] <;> trivial

theorem catchActive_raise (s : FuncletRun) (e : RaisedException) : (s.raise e).CatchActive := by
  intro c hc
  rcases (raise_phase s e).1 with h | ⟨r, h⟩ <;> cases h.symm.trans hc

theorem raise_refused {e : RaisedException} (hc : e.code = kCxxException)
    (ha : s.fields.funcletActive) : (s.raise e).phase = .failed := by
  unfold raise
  split
  · rfl
  next r hrec =>
  exfalso
  unfold raisedRecord at hrec
  simp only [hc, ha, and_self, if_true] at hrec
  split at hrec <;> cases hrec

/-- What one step does: the invariant stays, and only the return from a last cleanup leads to a
catch without the guard. -/
theorem step_spec {a : FuncletAction} (h : s.Invariant) (hs : s.step host a = some s') :
    s'.Invariant ∧ (s.CatchActive → s.KeepsGuard a → s'.CatchActive) ∧
      (¬s.KeepsGuard a → s'.phase = .exited ∨
        s'.phase.executing ∧ s'.fields.funcletActive = false) := by
  unfold step at hs
  split at hs
  · next hp =>
    cases hs
    simp only [Invariant, hp] at h
    refine ⟨?_, fun _ _ => ?_, fun hk => absurd trivial hk⟩
    · unfold transfer
      split
      · trivial
      · next j hj => exact ⟨_, rfl, (inCatch_of_prepare h hj).1⟩
    · unfold transfer
      split
      · intro c ho
        cases ho
      · next j hj => exact fun _ _ => (inCatch_of_prepare h hj).2
  · next hp =>
    cases hs
    simp only [Invariant, hp] at h
    refine ⟨?_, fun _ _ => ?_, fun hk => absurd trivial hk⟩
    · unfold transfer
      split
      · trivial
      · next j hj =>
        obtain ⟨⟨sl, hi⟩, ht⟩ := inCleanup_of_prepare h hj
        exact ⟨ht, _, [], sl, rfl, hi⟩
    · unfold transfer
      split
      · intro c ho
        cases ho
      · intro c ho
        cases ho
  · next c mem hp =>
    cases hs
    simp only [Invariant, hp] at h
    obtain ⟨ht, sa, ea, sl, ha, hi⟩ := h
    refine ⟨?_, fun _ _ c' ho => ?_, fun hk => absurd trivial hk⟩
    · simp only [Invariant, hp]
      exact ⟨ht, sa, ea, sl, ha, hi.after mem⟩
    · cases hp.symm.trans ho
  · next c mem hp =>
    cases hs
    simp only [Invariant, hp] at h
    obtain ⟨sa, ha, hi⟩ := h
    refine ⟨?_, fun hc _ _ _ => hc c hp, fun hk => absurd trivial hk⟩
    simp only [Invariant, hp]
    exact ⟨sa, ha, hi.after mem⟩
  · next c e hp =>
    cases hs
    exact ⟨invariant_raise s e, fun _ _ => catchActive_raise s e, fun hk => absurd trivial hk⟩
  · next c e hp =>
    cases hs
    exact ⟨invariant_raise s e, fun _ _ => catchActive_raise s e, fun hk => absurd trivial hk⟩
  · next c sp hp =>
    simp only [Invariant, hp] at h
    obtain ⟨ht, sa, ea, sl, ha, hi⟩ := h
    split at hs
    · cases hs
      exact ⟨trivial, fun _ _ c' ho => (by cases ho), fun _ => .inl rfl⟩
    · next j hj =>
      cases hs
      rcases hi.cleanupReturn hj with ⟨j', sl', hn, hlt, hi', ha'⟩ | ⟨j', hn, -⟩
      · obtain rfl := CleanupReturn.cleanup.inj hn
        refine ⟨⟨ha'.trans ht, sa, _, sl', ha, hi'⟩,
          fun _ _ c' ho => ?_, fun hk => absurd hlt hk⟩
        cases ho
      · cases hn
    · next j hj =>
      cases hs
      rcases hi.cleanupReturn hj with ⟨j', sl', hn, -⟩ | ⟨j', hn, hl, hi', hia⟩
      · cases hn
      · obtain rfl := CleanupReturn.catching.inj hn
        exact ⟨⟨sa, ha, hi'⟩, fun _ hk => absurd hk hl, fun _ => .inr ⟨rfl, hia⟩⟩
  · next c ip sp hp =>
    simp only [Invariant, hp] at h
    obtain ⟨sa, ha, hi⟩ := h
    split at hs
    · cases hs
      exact ⟨trivial, fun _ _ c' ho => (by cases ho), fun hk => absurd trivial hk⟩
    · next j hj =>
      cases hs
      obtain ⟨hw, ri, ho⟩ := hi.catchReturn hj
      exact ⟨⟨hw, sa, ri, ha, ho⟩,
        fun _ _ c' ho => (by cases ho), fun hk => absurd trivial hk⟩
  · cases hs

theorem Invariant.back (h : s.Invariant) : s.Restored ∧ s.ResumesSaved := by
  constructor
  · intro c hp
    simp only [Invariant, hp] at h
    exact h.1
  · intro c hp
    simp only [Invariant, hp] at h
    exact h.2

attribute [local simp] FuncletPhase.executing

theorem Invariant.guarded (h : s.Invariant) (hc : s.CatchActive) : s.Guarded host := by
  have ha : s.phase.executing → s.fields.funcletActive := by
    intro he
    cases hp : s.phase with
    | cleanup c =>
      simp only [Invariant, hp] at h
      exact h.1
    | catching c => exact hc c hp
    | unwound => simp [hp] at he
    | resumed c => simp [hp] at he
    | dispatched r => simp [hp] at he
    | failed => simp [hp] at he
    | exited => simp [hp] at he
  refine ⟨ha, fun e s' he ho hs => ?_, h.back.1, h.back.2⟩
  have hr : s' = s.raise e := by
    unfold step at hs
    split at hs <;> first | exact (some.inj hs).symm | simp_all
  rw [hr]
  exact ⟨raise_refused ho (ha he), (raise_phase s e).2⟩

theorem invariant_run {mem : GuestMemory} (h : Runs (step host) Free (start f mem) s) :
    s.Invariant :=
  h.keeps (fun _ _ _ hs _ ht => (step_spec hs ht).1) rfl

/-- **Every run is guarded as long as no cleanup is the last one to return, and that return
leaves the catch without the guard; the stack and the context come back in every run.** -/
theorem funclets_guarded (host : FuncletHost) (f : CxxTransfer) (memory : GuestMemory) :
    (∀ s, Runs (step host) KeepsGuard (start f memory) s → s.Guarded host) ∧
    (∀ s a s', Runs (step host) Free (start f memory) s → s.step host a = some s' →
      ¬s.KeepsGuard a → s'.phase = .exited ∨ ¬s'.Guarded host) ∧
    ∀ s, Runs (step host) Free (start f memory) s → s.Restored ∧ s.ResumesSaved := by
  refine ⟨fun s h => ?_, fun s a s' h hs hl => ?_, fun s h => (invariant_run h).back⟩
  · have hb : s.Invariant ∧ s.CatchActive := by
      refine Runs.keeps (I := fun t => t.Invariant ∧ t.CatchActive)
        (fun t a t' ht hk hs => ?_) h ⟨rfl, fun c hc => by cases hc⟩
      exact ⟨(step_spec ht.1 hs).1, (step_spec ht.1 hs).2.1 ht.2 hk⟩
    exact hb.1.guarded hb.2
  · refine ((step_spec (invariant_run h) hs).2.2 hl).imp_right fun ⟨he, hi⟩ hg => ?_
    rw [hg.active he] at hi
    cases hi

/-- After its only cleanup the catch runs without the guard. -/
theorem not_funclets_guarded : ¬∀ (host : FuncletHost) (f : CxxTransfer) (memory : GuestMemory)
    (s : FuncletRun), Runs (step host) Free (start f memory) s → s.Guarded host := by
  intro ha
  let host : FuncletHost := ⟨0x140000000, 0x10000, 0x700000001000, 0x700000002000⟩
  let context : ContextAmd64 := ⟨fun _ => 0x100000, 0x140003000, fun _ => {}⟩
  let memory : GuestMemory := ⟨⟨none, fun _ => some 0⟩, fun _ => true, fun _ _ _ => true⟩
  let f : CxxTransfer := {
    catchContext := context, catchContextReady := false
    catchResumeContext := context, catchResumeContextReady := false
    funcletActive := false
    catchTarget := 0x140002000
    catchContinuation := 0, catchContinuationReady := false
    catchReturnTarget := 0, catchReturnTargetReady := false, catchReturnPreserveStack := false
    catchResumeStack := 0
    cleanupContextReady := false
    cleanupTarget := 0x140001000
    cleanupEstablisher := 0
    cleanupActions := [⟨0x1000, 0, .legacyFrame⟩]
    cleanupIndex := 0
    cleanupReturnSlots := []
    catchReturnSlot := 0, catchReturnValue := 0, catchReturnSlotReady := false }
  have hr : (runAll (step host) (start f memory)
      [.prepareCleanup context context 0x100000 0x140001000 0x140002000,
        .cleanupReturn 0xFF000]).map (fun s => (s.phase.executing, s.fields.funcletActive)) =
      some (true, false) := by decide +kernel
  obtain ⟨s, hs, he⟩ := map_eq_some_iff.mp hr
  obtain ⟨hx, hi⟩ := Prod.mk.inj he
  have hc := (ha host f memory s (Runs.of_runAll hs)).active hx
  rw [hc] at hi
  cases hi

end FuncletRun
end TradutorLinux.Runtime
