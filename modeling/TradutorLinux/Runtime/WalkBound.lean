import TradutorLinux.Runtime.Dispatch

/-!
# How far the walks over the frames go

Both walks look at no more frames than the main image has functions, and 65
more.  The number of frames of a stack does not depend on the number of
functions: a recursion has as many as it has calls.

## Main definitions

* `SearchReaches`, `UnwindReaches`, `SearchInBound`, `UnwindInBound`

## Main results

* `walks_reach_iff`
-/

namespace TradutorLinux.Runtime

open List

variable {guest g : Guest} {main m : UnwindImageView}

/-! ### The search -/

variable {w : FrameWalk}

theorem Invokes.calls {ht : UInt32} {cu : ContextAmd64} {s : SehState} (h : Invokes g m ht w cu s) :
    ∃ c, s.calls = c :: w.seh.calls := by
  cases h with
  | frame f4 ip _ _ _ => exact ⟨_, calls_invokeCxxOrLanguageHandler _ _ _ _ _ _⟩

variable {co : UInt32}

theorem searchStep_inl {w' : FrameWalk}
    (h : searchStep g m co w = .inl w') : w.seh.calls <:+ w'.seh.calls := by
  rcases searchStep_cases g m co w with
    ⟨r, hr, -⟩ | ⟨cursor, hu⟩ | ⟨cursor, s, hi, hs | ⟨r, hr, -⟩⟩
  · rw [hr] at h
    cases h
  · rw [hu] at h
    cases h
    exact suffix_refl _
  · rw [hs] at h
    cases h
    obtain ⟨c, hc⟩ := hi.calls
    rw [hc]
    exact suffix_cons _ _
  · rw [hr] at h
    cases h

theorem searchStep_inr {r : SearchEnd} (h : searchStep g m co w = .inr r) (hr : r.Decided) :
    ∃ c, r.seh.calls = c :: w.seh.calls := by
  rcases searchStep_cases g m co w with
    ⟨r', hr', hn, -⟩ | ⟨cursor, hc⟩ | ⟨cursor, s, hi, hs | ⟨r', hr', -, he⟩⟩
  · rw [hr'] at h
    cases h
    exact absurd hr hn
  · rw [hc] at h
    cases h
  · rw [hs] at h
    cases h
  · rw [hr'] at h
    cases h
    rw [he]
    exact hi.calls

theorem calls_lt_of_decided {n : ℕ} {r : SearchEnd}
    (h : Reaches (searchStep g m co) n w r) (hr : r.Decided) :
    w.seh.calls.length < r.seh.calls.length := by
  induction h with
  | leave hs =>
    obtain ⟨c, hc⟩ := searchStep_inr hs hr
    rw [hc, length_cons]
    exact Nat.lt_succ_self _
  | round hs _ ih => exact lt_of_le_of_lt (searchStep_inl hs).length_le (ih hr)

theorem calls_unhandledException (g : Guest) (m : UnwindImageView) (c : UInt32)
    (s : SehState) : (unhandledException g m c s).2.calls = s.calls := by
  have hf : (unhandledExceptionFilter g m s).2.calls = s.calls := by
    dsimp only [unhandledExceptionFilter]
    split
    · rfl
    · split
      · rfl
      · rfl
  dsimp only [unhandledException]
  split
  · exact hf
  · exact hf

theorem dispatchInvariant_suffix (g : Guest) (m : UnwindImageView)
    (cs : List HandlerCall) : DispatchInvariant g m fun s => cs <:+ s.calls where
  published := fun _ _ _ h => h
  vectored := fun _ _ h => h
  filter := fun _ _ h => h
  consolidation := fun _ _ h => h
  invokes := fun _ w _ s h hi => by
    obtain ⟨c, hc⟩ := hi.calls
    rw [hc]
    exact h.trans (suffix_cons _ _)

/-- The search calls the innermost handler that does not continue it, and
concludes as that handler decides. -/
def SearchReaches (guest : Guest) (main : UnwindImageView) (e : RaisedException)
    (s : SehState) : Prop :=
  ∀ w n r, searchStart guest main e s = .inl w →
    Reaches (searchStep guest main e.code) n w r → r.Decided →
    r.seh.calls <:+ (dispatchRaisedException guest main e s).2.calls ∧
      dispatchRaisedException guest main e s = concludeSearch guest main e.code r

/-- The frame of the handler is among those that the search looks at. -/
def SearchInBound (guest : Guest) (main : UnwindImageView) (e : RaisedException)
    (s : SehState) : Prop :=
  ∀ w n r, searchStart guest main e s = .inl w →
    Reaches (searchStep guest main e.code) n w r → r.Decided →
    n < main.functions.length + 65


theorem searchReaches_iff (g : Guest) (m : UnwindImageView) (e : RaisedException)
    (s : SehState) : SearchReaches g m e s ↔ SearchInBound g m e s := by
  have hi : ∀ w, searchStart g m e s = .inl w →
      dispatchRaisedException g m e s = searchFrames g m e.code w := by
    intro w hs
    unfold dispatchRaisedException
    rw [hs]
  constructor
  · intro h w n r hs hr hd
    by_contra hb
    -- the walk is stopped before the handler is called
    obtain ⟨hc, -⟩ := h w n r hs hr hd
    have hl : frameBound m ≤ n := not_lt.1 hb
    obtain ⟨w', hu, he⟩ := hr.stopped hl
    have ht := calls_lt_of_decided he hd
    rw [hi w hs] at hc
    unfold searchFrames at hc
    rw [hu] at hc
    rw [calls_unhandledException] at hc
    exact absurd hc.length_le (not_le.2 ht)
  · intro h w n r hs hr hd
    have hu := hr.runBounded_iff.2 (h w n r hs hr hd)
    have ho : dispatchRaisedException g m e s =
        concludeSearch g m e.code r := by
      rw [hi w hs]
      unfold searchFrames frameBound
      rw [hu]
    refine ⟨?_, ho⟩
    rw [ho]
    exact (dispatchInvariant_suffix g m r.seh.calls).concludeSearch (suffix_refl _)

/-! ### The unwind -/

/-- The walk gets to the target frame, and does there what is to be done. -/
def UnwindReaches (guest : Guest) (main : UnwindImageView) (targetFrame targetIp : UInt64)
    (record : GuestPointer ExceptionRecordAmd64) (returnValue : UInt64)
    (context : GuestPointer ContextAmd64) (s : SehState) : Prop :=
  ∀ target w n before cursor frame s',
    unwindStart main targetFrame targetIp record returnValue context s = .ok (target, w) →
    Reaches (unwindStep guest main target) n w (.target before cursor frame s') →
    unwindToTarget guest main targetFrame targetIp record returnValue context s =
      finishUnwind guest main target before cursor frame s'

/-- The target frame is among those that the walk looks at. -/
def UnwindInBound (guest : Guest) (main : UnwindImageView) (targetFrame targetIp : UInt64)
    (record : GuestPointer ExceptionRecordAmd64) (returnValue : UInt64)
    (context : GuestPointer ContextAmd64) (s : SehState) : Prop :=
  ∀ target w n before cursor frame s',
    unwindStart main targetFrame targetIp record returnValue context s = .ok (target, w) →
    Reaches (unwindStep guest main target) n w (.target before cursor frame s') →
    n < main.functions.length + 65

theorem unwindReaches_iff (g : Guest) (m : UnwindImageView)
    (tf ip : UInt64) (r : GuestPointer ExceptionRecordAmd64)
    (rv : UInt64) (c : GuestPointer ContextAmd64) (s : SehState) :
    UnwindReaches g m tf ip r rv c s ↔
      UnwindInBound g m tf ip r rv c s := by
  have hn : ∀ t w,
      unwindStart m tf ip r rv c s = .ok (t, w) →
      unwindToTarget g m tf ip r rv c s =
        unwindFrames g m t w := by
    intro t w hs
    unfold unwindToTarget
    rw [hs]
  constructor
  · intro h t w n b cu fr s' hs hr
    by_contra hb
    have hf := h t w n b cu fr s' hs hr
    have hl : frameBound m ≤ n := not_lt.1 hb
    obtain ⟨w', hu, -⟩ := hr.stopped hl
    rw [hn t w hs] at hf
    unfold unwindFrames at hf
    rw [hu] at hf
    exact finishUnwind_ne t b cu fr s' _ (congrArg Prod.fst hf).symm
  · intro h t w n b cu fr s' hs hr
    have hu := hr.runBounded_iff.2 (h t w n b cu fr s' hs hr)
    rw [hn t w hs]
    unfold unwindFrames frameBound
    rw [hu]

/-- **The walks get to the frame that matters exactly when it is among the first
`main.functions.length + 65`.** -/
theorem walks_reach_iff (guest : Guest) (main : UnwindImageView) :
    (∀ e s, SearchReaches guest main e s ↔ SearchInBound guest main e s) ∧
    ∀ targetFrame targetIp record returnValue context s,
      UnwindReaches guest main targetFrame targetIp record returnValue context s ↔
        UnwindInBound guest main targetFrame targetIp record returnValue context s :=
  ⟨searchReaches_iff guest main, unwindReaches_iff guest main⟩

/-! ### A recursion -/

/-- A function without a handler, and its caller with one. -/
def recursiveImage : UnwindImageView where
  base := 0x140000000
  size := 0x3000
  exceptionDirectoryRva := 0x2000
  functions := [{ beginRva := 0x1000, endRva := 0x1010, unwindInfoRva := 0x2100, unwind := {} },
    { beginRva := 0x1010, endRva := 0x1020, unwindInfoRva := 0x2108
      unwind := { flags := 3, handlerRva := 0x1020, handlerDataRva := 0x2110 } }]

/-- The return addresses of 66 calls of the first function and of one of the second. -/
def recursiveStack (a : ℕ) : Option UInt8 :=
  let address := if a < 0x10000 + 8 * 66 then 0x140001008 else 0x140001018
  if a < 0x10000 ∨ 0x10000 + 8 * 68 ≤ a then none else some (UInt8.ofNat (address >>> (8 * (a % 8))))

/-- Every handler continues the execution. -/
def continuingGuest : Guest where
  vectored := fun _ s => (kVectoredContinueSearch, s.world)
  handler := fun dispatcher s => ⟨kExceptionContinueExecution, dispatcher.targetIp, s.world⟩
  fh4Handler := fun dispatcher s => ⟨kExceptionContinueSearch, dispatcher.targetIp, s.world⟩
  filter := fun _ s => (kVectoredContinueSearch, s.world)
  consolidation := fun ip s => (ip, s.world)
  v3Info := fun _ _ => false
  fh4Info := fun _ _ => false
  prepareCxxCleanupTransfer := fun _ _ _ _ _ _ => none
  prepareCxxCatchTransfer := fun _ _ _ _ => none

/-- The context of the innermost call. -/
def recursiveContext : ContextAmd64 where
  register := Function.update (fun _ => 0) rsp 0x10000
  rip := 0x140001008
  floating := fun _ => {}

def recursiveState : SehState where
  world := ⟨[], ⟨none, recursiveStack⟩, {}, recursiveContext, 0⟩
  calls := []

/-- A continuable exception of the guest. -/
def recursiveException : RaisedException :=
  ⟨recursiveContext, 0xE0000001, 0, 0, .null, [], false⟩

/-- The search would be decided within a number of frames. -/
def resumedWithin (bound : ℕ) (w : FrameWalk) : Bool :=
  match runBounded (searchStep continuingGuest recursiveImage recursiveException.code) bound w with
  | .inr (.resumed _) => true
  | _ => false

/-- The handler of the caller is 67 frames away from a recursion in an image with
two functions: the exception counts as unhandled. -/
theorem not_searchReaches_recursive :
    (dispatchRaisedException continuingGuest recursiveImage recursiveException
      recursiveState).1 = .failed 0xE0000001 (text "exceção não tratada") ∧
    ¬ SearchReaches continuingGuest recursiveImage recursiveException recursiveState := by
  have hf : (dispatchRaisedException continuingGuest recursiveImage recursiveException
      recursiveState).1 = .failed 0xE0000001 (text "exceção não tratada") := by
    decide +kernel
  refine ⟨hf, fun ha => ?_⟩
  cases hs : searchStart continuingGuest recursiveImage recursiveException recursiveState with
  | inr e =>
    have hg : (searchStart continuingGuest recursiveImage recursiveException
        recursiveState).isLeft = true := by
      decide +kernel
    rw [hs] at hg
    cases hg
  | inl w =>
    -- one more frame would have been enough
    have he : ((searchStart continuingGuest recursiveImage recursiveException
        recursiveState).elim (fun w => resumedWithin 68 w) fun _ => false) = true := by
      decide +kernel
    rw [hs] at he
    dsimp only [Sum.elim, resumedWithin] at he
    split at he
    · next s hu =>
      obtain ⟨n, -, hr⟩ := runBounded_eq_inr.mp hu
      obtain ⟨-, hc⟩ := ha w n (.resumed s) hs hr trivial
      rw [hc] at hf
      cases hf
    · cases he

end TradutorLinux.Runtime
