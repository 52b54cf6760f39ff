import TradutorLinux.Pe.Handlers
import TradutorLinux.Runtime.FunctionTable
import TradutorLinux.Runtime.WalkBound
import TradutorLinux.Util.Span

/-!
# The dispatchers that handlers get

Both walks take the base and the entry of a dispatcher from the main image.  A
frame of another image that has a handler gets a dispatcher of the main image,
too; but its handler lies outside the main image and is refused.

## Main definitions

* `ImagesPlaced`, `DispatcherSound`

## Main results

* `dispatchers_sound` — **the promise holds of every call, in both walks**.
-/

namespace TradutorLinux.Runtime

open List Option

open Pe (RuntimeFunction UnwindInfo HandlersInImage)

/-! ### Images -/

namespace UnwindImages

def all (images : UnwindImages) : List UnwindImageView := images.main :: images.modules

end UnwindImages

def UnwindImageView.span (view : UnwindImageView) : Span := ⟨view.base.toNat, view.size.toNat⟩

/-- The data of a handler begin in the image, or where it ends. -/
def UnwindImageView.reaches (view : UnwindImageView) (pointer : UInt64) : Prop :=
  view.base.toNat ≤ pointer.toNat ∧ pointer.toNat ≤ view.span.stop

/-- The images of a thread: each is an accepted one, below the end of the address
space, and they are disjoint. -/
structure ImagesPlaced (images : UnwindImages) : Prop where
  registered : Registered images
  fits : ∀ view ∈ images.all, view.span.stop < 2 ^ 64
  disjoint : images.all.Pairwise fun v w => v.span.Apart w.span

variable {v : UnwindImageView} {pc : UInt64}

theorem covers_iff : v.covers pc ↔ v.base ≠ 0 ∧ v.span.Has pc.toNat := by
  unfold UnwindImageView.covers UnwindImageView.span Span.Has Span.stop
  rw [Bool.and_eq_true, Bool.and_eq_true, bne_iff_ne, decide_eq_true_eq, decide_eq_true_eq,
    and_assoc]
  refine and_congr_right fun _ => ?_
  rw [UInt64.le_iff_toNat_le, UInt64.lt_iff_toNat_lt]
  constructor
  · rintro ⟨hl, ht⟩
    rw [UInt64.toNat_sub_of_le _ _ (UInt64.le_iff_toNat_le.2 hl)] at ht
    exact ⟨hl, by dsimp only; omega⟩
  · rintro ⟨hl, ht⟩
    rw [UInt64.toNat_sub_of_le _ _ (UInt64.le_iff_toNat_le.2 hl)]
    dsimp only at hl ht
    exact ⟨hl, by omega⟩

theorem validGuestCode_eq (m : UnwindImageView) (pointer : UInt64) :
    validGuestCode m pointer = m.covers pointer := by
  have hz : m.base ≤ pointer → m.base ≠ 0 → pointer ≠ 0 := by
    intro hl hb hp
    rw [hp, UInt64.le_iff_toNat_le] at hl
    exact hb (UInt64.toNat_inj.1 (Nat.le_zero.1 hl))
  rw [Bool.eq_iff_iff]
  unfold validGuestCode imageRange UnwindImageView.covers
  simp only [Bool.and_eq_true, decide_eq_true_eq, bne_iff_ne, UInt64.lt_iff_toNat_lt]
  constructor
  · rintro ⟨⟨⟨⟨-, hb⟩, hl⟩, ho⟩, hs⟩
    exact ⟨⟨hb, hl⟩, by omega⟩
  · rintro ⟨⟨hb, hl⟩, hs⟩
    exact ⟨⟨⟨⟨hz hl hb, hb⟩, hl⟩, by omega⟩, by omega⟩

namespace ImagesPlaced

variable {im : UnwindImages}

theorem covers_unique (h : ImagesPlaced im) {w : UnwindImageView} (hv : v ∈ im.all)
    (hw : w ∈ im.all) (hc : v.covers pc) (hwc : w.covers pc) : v = w := by
  by_contra hn
  have ha := h.disjoint.forall hv hw hn
  exact ha.not_has (covers_iff.1 hc).2 (covers_iff.1 hwc).2

theorem base_of_reaches (h : ImagesPlaced im) (hv : v ∈ im.all) (hn : im.main.covers pc = false)
    (hc : v.covers pc) {p : UInt64} (hr : v.reaches p) (hm : im.main.covers p) :
    p = im.main.base ∧ im.main.base.toNat = v.span.stop := by
  have hne : im.main ≠ v := by
    rintro rfl
    rw [hc] at hn
    cases hn
  have ha := h.disjoint.forall mem_cons_self hv hne
  have hp := (covers_iff.1 hm).2
  have hb := (covers_iff.1 hc).2
  unfold UnwindImageView.reaches at hr
  unfold Span.Apart at ha
  unfold Span.Has at hp hb
  have heq : p.toNat = im.main.base.toNat := by
    dsimp only [UnwindImageView.span, Span.stop] at *
    omega
  refine ⟨UInt64.toNat_inj.1 heq, ?_⟩
  dsimp only [UnwindImageView.span, Span.stop] at *
  omega

end ImagesPlaced

theorem findImageForPc_some {im : UnwindImages} {r : ViewRef} (h : im.findImageForPc pc = some r) :
    im.view r ∈ im.all ∧ (im.view r).covers pc := by
  unfold UnwindImages.findImageForPc at h
  split at h
  · next hc =>
    cases h
    exact ⟨mem_cons_self, hc⟩
  · obtain ⟨i, hi, rfl⟩ := map_eq_some_iff.1 h
    obtain ⟨view, hv, hc, -⟩ := findIdx?_some hi
    have heq : im.view (.module i) = view := getD_of_getElem? hv
    rw [heq]
    exact ⟨mem_cons_of_mem _ (mem_of_getElem? hv), hc⟩

/-! ### The handler of a frame -/

theorem terminal_mem {t : GuestThread} {r : ℕ} :
    ∀ {c : ℕ} {pc : UInt64} {st : UnwindState} {te : RuntimeFunction}
      {st' : UnwindState}, unwindChain t v r c pc st = .ok (te, st') → te ∈ v.functions := by
  induction r with
  | zero =>
    intro c pc st te st' h
    cases h
  | succ r ih =>
    intro c pc st te st' h
    unfold unwindChain at h
    split at h
    · cases h
    next fn hf =>
    split at h
    · cases h
    split at h
    · cases h
      exact mem_of_getElem? hf
    split at h
    · cases h
    · exact ih h

/-- A record with a handler, in the image that it unwinds a frame of. -/
structure HandlerOf (images : UnwindImages) (pc : UInt64) (frame : UnwoundFrame)
    (found : ResolvedFunction) (terminal : RuntimeFunction) : Prop where
  resolved : images.resolveFunctionByPc pc = some found
  index : frame.index = found.index
  mem : terminal ∈ (images.view found.view).functions
  flags : terminal.unwind.flags &&& (kUnwFlagEHandler ||| kUnwFlagUHandler) ≠ 0
  handler : frame.handler = (images.view found.view).base + terminal.unwind.handlerRva.toUInt64
  data : frame.handlerData =
    (images.view found.view).base + terminal.unwind.handlerDataRva.toUInt64

/-- **Where the handler of a frame comes from.** -/
theorem unwindOne_handler {im : UnwindImages} {t : GuestThread} {hy : UInt32}
    {c cu : ContextAmd64} {fr : UnwoundFrame}
    (h : unwindOne im t hy c = .ok (cu, fr)) (hn : fr.handler ≠ 0) :
    ∃ f terminal, HandlerOf im c.rip fr f terminal := by
  unfold unwindOne at h
  split at h
  · split at h
    · cases h
    · cases h
      exact absurd rfl hn
  next f hf =>
  dsimp only at h
  split at h
  · cases h
  split at h
  · cases h
  split at h
  · cases h
  next o ho =>
  split at h
  · cases h
  cases h
  unfold virtualUnwind at ho
  split at ho
  · next fi cf ht hco =>
    cases hf.symm.trans hco
    dsimp only at ho
    split at ho
    · cases ho
    split at ho
    · cases ho
    next hs =>
    rw [not_or, ne_eq, not_not] at hs
    obtain ⟨rfl, -⟩ := hs
    split at ho
    · cases ho
    split at ho
    · cases ho
    next terminal st hc =>
    split at ho
    · cases ho
    split at ho
    · cases ho
      exact absurd rfl hn
    next hh =>
    cases ho
    rw [not_or, not_or, not_or] at hh
    exact ⟨fi, terminal, hf, rfl, terminal_mem hc, hh.2.2.1, rfl, rfl⟩
  · cases ho

theorem HandlerOf.inImage {im : UnwindImages} (hl : ImagesPlaced im)
    {fr : UnwoundFrame} {f : ResolvedFunction} {t : RuntimeFunction} (h : HandlerOf im pc fr f t)
    (hm : im.view f.view ∈ im.all) :
    (im.view f.view).covers fr.handler ∧ (im.view f.view).reaches fr.handlerData := by
  have hr := hl.registered (im.view f.view) (mem_cons.1 hm)
  have hf := hl.fits _ hm
  have ht := h.mem
  rcases hr with he | ⟨d, r, ha, ho⟩
  · rw [he] at ht
    cases ht
  rw [ho.functions] at ht
  obtain ⟨hh, hd⟩ := Pe.handlersInImage_of_parsePe ha t ht h.flags
  have hs := ho.size
  have hp : ∀ rv : UInt32, rv.toNat ≤ r.info.sizeOfImage.toNat →
      ((im.view f.view).base + rv.toUInt64).toNat = (im.view f.view).base.toNat + rv.toNat := by
    intro rv hv
    dsimp only [UnwindImageView.span, Span.stop] at hf
    rw [UInt64.toNat_add, UInt32.toNat_toUInt64]
    exact Nat.mod_eq_of_lt (by omega)
  unfold UnwindImageView.reaches
  rw [covers_iff, h.handler, h.data, hp _ (le_of_lt hh), hp _ hd]
  dsimp only [UnwindImageView.span, Span.Has, Span.stop]
  exact ⟨⟨ho.mapped, by omega, by omega⟩, by omega, by omega⟩

/-! ### What is promised of a dispatcher -/

/-- The dispatcher agrees with the lookup of its own PC in the image that has it. -/
structure Consistent (images : UnwindImages) (view : UnwindImageView)
    (dispatcher : DispatcherContextAmd64) : Prop where
  member : view ∈ images.all
  contains : view.covers dispatcher.controlPc = true
  only : ∀ other ∈ images.all, other.covers dispatcher.controlPc = true → other = view
  imageBase : dispatcher.imageBase = view.base
  lookup : rtlLookupFunctionEntry images dispatcher.controlPc =
    (dispatcher.functionEntry, dispatcher.imageBase)
  handler : view.covers dispatcher.languageHandler = true

/-- The dispatcher agrees with the lookup of its own PC, and the handler and the data are in the
image that has the PC. -/
def Agrees (call : HandlerCall) : Prop :=
  ∃ view, Consistent call.images view call.dispatcher ∧
    view.covers call.dispatcher.handlerData = true

/-- The dispatcher of a frame of another image: the base and the table are those of the main image,
which does not have the handler, so that the call is refused.  Only data that begin where the
image ends and the main one begins can be taken for data of the main image. -/
structure Misplaced (images : UnwindImages) (main view : UnwindImageView) (found : ResolvedFunction)
    (call : HandlerCall) : Prop where
  resolved : images.resolveFunctionByPc call.dispatcher.controlPc = some found
  imageBase : call.dispatcher.imageBase = main.base
  functionEntry : call.dispatcher.functionEntry = main.rawFunctionEntry found.index
  handler : view.covers call.dispatcher.languageHandler = true ∧
    main.covers call.dispatcher.languageHandler = false
  data : view.reaches call.dispatcher.handlerData
  refused : call.receiver ≠ .refused → call.receiver = .fh4 ∧
    call.dispatcher.handlerData = main.base ∧ main.base.toNat = view.span.stop

/-- What is promised of a call: the PC is in one of the images.  In the main one
the dispatcher agrees with its lookup and somebody gets it; in another one it
relates to the main image and is refused. -/
structure DispatcherSound (main : UnwindImageView) (call : HandlerCall) : Prop where
  image : ∃ ref, call.images.findImageForPc call.dispatcher.controlPc = some ref
  inMain : call.images.findImageForPc call.dispatcher.controlPc = some .main →
    Consistent call.images main call.dispatcher ∧ main.reaches call.dispatcher.handlerData ∧
      call.receiver ≠ .refused
  inModule : ∀ i, call.images.findImageForPc call.dispatcher.controlPc = some (.module i) →
    ∃ found, found.view = .module i ∧
      Misplaced call.images main (call.images.view found.view) found call
  fh4 : call.receiver = .fh4 → main.covers call.dispatcher.handlerData = true

/-- Guest code that attaches and detaches images keeps them disjoint. -/
structure KeepsImages (guest : Guest) (main : UnwindImageView) : Prop where
  vectored : ∀ routine s, ImagesPlaced (s.images main) →
    ImagesPlaced ⟨main, (guest.vectored routine s).2.modules⟩
  handler : ∀ dispatcher s, ImagesPlaced (s.images main) →
    ImagesPlaced ⟨main, (guest.handler dispatcher s).world.modules⟩
  fh4Handler : ∀ dispatcher s, ImagesPlaced (s.images main) →
    ImagesPlaced ⟨main, (guest.fh4Handler dispatcher s).world.modules⟩
  filter : ∀ routine s, ImagesPlaced (s.images main) →
    ImagesPlaced ⟨main, (guest.filter routine s).2.modules⟩
  consolidation : ∀ routine s, ImagesPlaced (s.images main) →
    ImagesPlaced ⟨main, (guest.consolidation routine s).2.modules⟩

/-- **What a call of a handler promises.** -/
theorem Invokes.sound {g : Guest} {main : UnwindImageView} {ht : UInt32}
    {w : FrameWalk} {c : ContextAmd64} {s : SehState}
    (h : Invokes g main ht w c s) (hp : ImagesPlaced (w.seh.images main)) :
    ∃ call, s.calls = call :: w.seh.calls ∧ DispatcherSound main call := by
  cases h with
  | @frame frame fh4 targetIp hon hne hfh4 =>
    obtain ⟨f, t, hh⟩ := unwindOne_handler hon hne
    have hi : (w.seh.images main).findImageForPc w.cursor.rip = some f.view := by
      have hr := hh.resolved
      unfold UnwindImages.resolveFunctionByPc at hr
      split at hr
      · cases hr
      · next r hre =>
        obtain ⟨ix, -, rfl⟩ := map_eq_some_iff.1 hr
        exact hre
    obtain ⟨he, hn⟩ := findImageForPc_some hi
    obtain ⟨hco, ha⟩ := hh.inImage hp he
    refine ⟨_, calls_invokeCxxOrLanguageHandler _ _ _ _ _ _, ⟨f.view, hi⟩,
      fun hm => ?_, fun i hmo => ?_, fun hrec => ?_⟩
    · -- the frame is one of the main image
      have hre : f.view = .main := some.inj (hi.symm.trans hm)
      have hv : (w.seh.images main).view f.view = main := by
        rw [hre]
        rfl
      rw [hv] at he hn hco ha
      refine ⟨⟨he, hn, fun o ho ho' => ?_, rfl, ?_, hco⟩, ha, ?_⟩
      · exact hp.covers_unique ho he ho' hn
      · dsimp only [rtlLookupFunctionEntry, frameDispatcher]
        rw [hh.resolved]
        dsimp only
        rw [hv, hh.index]
      · unfold receiver
        rw [validGuestCode_eq, hco]
        split <;> simp
    · -- the frame is one of another image, and so is its handler
      have hnot : main.covers w.cursor.rip = false := by
        rw [Bool.eq_false_iff]
        intro hc
        have hf : (w.seh.images main).findImageForPc w.cursor.rip = some .main := if_pos hc
        cases hf.symm.trans hmo
      have hother : ∀ {p}, main.covers p → ¬((w.seh.images main).view f.view).covers p := by
        intro p hc hv
        have hs := hp.covers_unique he mem_cons_self hv hc
        rw [hs] at hn
        exact Bool.false_ne_true (hnot.symm.trans hn)
      have hma : main.covers frame.handler = false :=
        Bool.eq_false_iff.2 fun hc => hother hc hco
      refine ⟨f, some.inj (hi.symm.trans hmo), hh.resolved, rfl,
        congrArg main.rawFunctionEntry hh.index, ⟨hco, hma⟩, ha, fun hrec => ?_⟩
      unfold receiver at hrec ⊢
      rw [validGuestCode_eq, hma] at hrec
      by_cases h4 : fh4
      · rw [if_pos h4]
        have hd := hfh4 h4
        unfold SehState.isFh4CxxHandlerData at hd
        rw [Bool.and_eq_true, Bool.and_eq_true] at hd
        refine ⟨rfl, ?_⟩
        exact hp.base_of_reaches he hnot hn ha hd.1.1
      · simp [h4] at hrec
    · have hif4 : fh4 := by
        unfold receiver at hrec
        split at hrec
        · next h => exact h
        · split at hrec <;> cases hrec
      have hd := hfh4 hif4
      unfold SehState.isFh4CxxHandlerData at hd
      rw [Bool.and_eq_true, Bool.and_eq_true] at hd
      exact hd.1.1

theorem dispatchInvariant_sound {g : Guest} {m : UnwindImageView} (hg : KeepsImages g m) :
    DispatchInvariant g m fun s =>
      ImagesPlaced (s.images m) ∧ ∀ c ∈ s.calls, DispatcherSound m c where
  published := fun _ _ _ h => h
  vectored := fun r s h => ⟨hg.vectored r s h.1, h.2⟩
  filter := fun r s h => ⟨hg.filter r s h.1, h.2⟩
  consolidation := fun r s h => ⟨hg.consolidation r s h.1, h.2⟩
  invokes := fun ht w cu s h hi => by
    constructor
    · cases hi with
      | frame f4 ip _ _ _ =>
        dsimp only [invokeCxxOrLanguageHandler]
        split
        · exact hg.fh4Handler _ _ h.1
        · split
          · exact h.1
          · exact hg.handler _ _ h.1
    · obtain ⟨c, hc, hs⟩ := hi.sound h.1
      rw [hc]
      intro other ho
      rcases mem_cons.1 ho with rfl | ho
      · exact hs
      · exact h.2 other ho

/-- **Every call that a dispatch or an unwind makes is sound.** -/
theorem dispatchers_sound {guest : Guest} {main : UnwindImageView} {s : SehState}
    (hguest : KeepsImages guest main) (hplaced : ImagesPlaced (s.images main))
    (hcalls : s.calls = []) :
    (∀ e, ∀ call ∈ (dispatchRaisedException guest main e s).2.calls, DispatcherSound main call) ∧
    ∀ targetFrame targetIp record returnValue context,
      ∀ call ∈ (unwindToTarget guest main targetFrame targetIp record returnValue context s).2.calls,
        DispatcherSound main call := by
  have hs : ImagesPlaced (s.images main) ∧ ∀ call ∈ s.calls, DispatcherSound main call := by
    rw [hcalls]
    exact ⟨hplaced, fun call hc => absurd hc not_mem_nil⟩
  have hi := dispatchInvariant_sound hguest
  refine ⟨fun e => (hi.dispatchRaisedException hs e).2, ?_⟩
  intro targetFrame targetIp record returnValue context
  exact (hi.unwindToTarget hs targetFrame targetIp record returnValue context).2

/-! ### Images with a handler -/

def handlerFunction : ByteString :=
  Pe.buildFunctions [{ beginRva := 0x1000, endRva := 0x1010, flags := 3, tail := toLE 4 0x40 }]

/-- An image of one page, which ends where the data of its handler would begin. -/
def lastRecord : ByteString :=
  let tables := Pe.functionTables 0xff8
    [{ beginRva := 0x800, endRva := 0x810, flags := 3, tail := toLE 4 0x40 }]
  Pe.build
    { sizeOfImage := 0x1000
      directories := [(0, 0), (0, 0), (0, 0), (232, 12)]
      body := tables.1 ++ Pe.zeros (0xff8 - 244) ++ tables.2 }

@[irreducible] def viewAt (data : ByteString) (base : UInt64) : UnwindImageView :=
  match Pe.parsePe data with
  | .ok r =>
    ⟨base, r.info.sizeOfImage.toUInt64, r.info.exceptionDirectoryRva, r.info.runtimeFunctions⟩
  | .error _ => {}

theorem viewAt_of_size {d : ByteString} {size : UInt32}
    (h : (Pe.parsePe d).toOption.map (fun r => r.info.sizeOfImage) = some size)
    (b : UInt64) (hb : b ≠ 0) :
    (∃ r, Pe.parsePe d = .ok r ∧ ViewOf r.info (viewAt d b)) ∧
      (viewAt d b).span = ⟨b.toNat, size.toNat⟩ := by
  cases hp : Pe.parsePe d with
  | error f =>
    rw [hp] at h
    cases h
  | ok r =>
    rw [hp] at h
    have hs : r.info.sizeOfImage = size := some.inj h
    have hv : viewAt d b = ⟨b, r.info.sizeOfImage.toUInt64, r.info.exceptionDirectoryRva,
          r.info.runtimeFunctions⟩ := by
      unfold viewAt
      rw [hp]
    rw [hv, ← hs]
    exact ⟨⟨r, rfl, hb, rfl, by simp⟩, by simp [UnwindImageView.span]⟩

/-- The thread runs at `pc`, and `modules` are attached. -/
def frameState (modules : List UnwindImageView) (pc : UInt64) : SehState where
  world := ⟨modules, ⟨none, fun _ => some 0⟩, {},
    ⟨Function.update (fun _ => 0) rsp 0x10000, pc, fun _ => {}⟩, 0⟩
  calls := []

def frameException (pc : UInt64) : RaisedException :=
  ⟨(frameState [] pc).world.context, 0xE0000001, 0, 0, .null, [], false⟩

/-- The calls of the dispatch of an exception at `pc`. -/
def frameCalls (main : UnwindImageView) (modules : List UnwindImageView) (pc : UInt64) :
    List HandlerCall :=
  (dispatchRaisedException continuingGuest main (frameException pc)
    (frameState modules pc)).2.calls

/-- A call of a handler: the bases and the sizes of the images, the PC of the
frame, the base and the data that the dispatcher has, and who gets it. -/
def HandlerCall.summary (call : HandlerCall) :
    List (UInt64 × UInt64) × UInt64 × UInt64 × UInt64 × Receiver :=
  (call.images.all.map fun view => (view.base, view.size), call.dispatcher.controlPc,
    call.dispatcher.imageBase, call.dispatcher.handlerData, call.receiver)

theorem size_handlerFunction :
    (Pe.parsePe handlerFunction).toOption.map (fun r => r.info.sizeOfImage) = some 0x3000 := by
  decide +kernel

theorem size_lastRecord :
    (Pe.parsePe lastRecord).toOption.map (fun r => r.info.sizeOfImage) = some 0x1000 := by
  decide +kernel

/-- The executable and a DLL are mapped from one file. -/
theorem placed_handlerFunction (pc : UInt64) :
    ImagesPlaced ((frameState [viewAt handlerFunction 0x180000000] pc).images
      (viewAt handlerFunction 0x140000000)) := by
  obtain ⟨hm, hs⟩ :=
    viewAt_of_size size_handlerFunction 0x140000000 (by decide)
  obtain ⟨ho, hms⟩ :=
    viewAt_of_size size_handlerFunction 0x180000000 (by decide)
  refine ⟨fun v he => ?_, fun v he => ?_, ?_⟩
  · rcases he with rfl | he
    · exact .inr ⟨handlerFunction, hm⟩
    · rw [mem_singleton.1 he]
      exact .inr ⟨handlerFunction, ho⟩
  · rcases mem_cons.1 he with rfl | he
    · change (viewAt handlerFunction 0x140000000).span.stop < 2 ^ 64
      rw [hs]
      decide
    · rw [mem_singleton.1 he, hms]
      decide
  · refine List.Pairwise.cons (fun v he => ?_) (pairwise_singleton _ _)
    rw [mem_singleton.1 he]
    change (viewAt handlerFunction 0x140000000).span.Apart _
    rw [hs, hms]
    decide

theorem placed_lastRecord (pc : UInt64) :
    ImagesPlaced ((frameState [] pc).images (viewAt lastRecord 0x140000000)) := by
  obtain ⟨hm, hs⟩ := viewAt_of_size size_lastRecord 0x140000000 (by decide)
  refine ⟨fun v he => ?_, fun v he => ?_, pairwise_singleton _ _⟩
  · rcases he with rfl | he
    · exact .inr ⟨lastRecord, hm⟩
    · exact absurd he not_mem_nil
  · rw [mem_singleton.1 he]
    change (viewAt lastRecord 0x140000000).span.stop < 2 ^ 64
    rw [hs]
    decide

theorem keepsImages_continuingGuest (m : UnwindImageView) : KeepsImages continuingGuest m where
  vectored := fun _ _ h => h
  handler := fun _ _ h => h
  fh4Handler := fun _ _ h => h
  filter := fun _ _ h => h
  consolidation := fun _ _ h => h

/-- A handler of the main image is called. -/
theorem dispatchers_sound_mainFrame :
    (frameCalls (viewAt handlerFunction 0x140000000) [viewAt handlerFunction 0x180000000]
      0x140001008).map HandlerCall.summary =
      [([(0x140000000, 0x3000), (0x180000000, 0x3000)], 0x140001008, 0x140000000, 0x1400000fc,
        .handler)] ∧
    ∀ call ∈ frameCalls (viewAt handlerFunction 0x140000000)
        [viewAt handlerFunction 0x180000000] 0x140001008,
      DispatcherSound (viewAt handlerFunction 0x140000000) call :=
  ⟨by decide +kernel,
    (dispatchers_sound (keepsImages_continuingGuest _) (placed_handlerFunction _) rfl).1 _⟩

theorem Agrees.summary {c : HandlerCall} (h : Agrees c) : ∃ v ∈ c.summary.1, v.1 = c.summary.2.2.1 ∧
      (⟨v.1, v.2, 0, []⟩ : UnwindImageView).covers c.summary.2.1 ∧
      (⟨v.1, v.2, 0, []⟩ : UnwindImageView).covers c.summary.2.2.2.1 := by
  obtain ⟨v, hc, hd⟩ := h
  exact ⟨(v.base, v.size), mem_map.2 ⟨v, hc.member, rfl⟩,
    hc.imageBase.symm, hc.contains, hd⟩

/-- The dispatcher of a frame of the DLL has the base of the main image; and the
data of a handler that is called may begin where the image ends. -/
theorem not_agrees_moduleFrame :
    (ImagesPlaced ((frameState [viewAt handlerFunction 0x180000000] 0x180001008).images
        (viewAt handlerFunction 0x140000000)) ∧
      (frameCalls (viewAt handlerFunction 0x140000000) [viewAt handlerFunction 0x180000000]
        0x180001008).map HandlerCall.summary =
        [([(0x140000000, 0x3000), (0x180000000, 0x3000)], 0x180001008, 0x140000000, 0x1800000fc,
          .refused)] ∧
      ¬ ∀ call ∈ frameCalls (viewAt handlerFunction 0x140000000)
          [viewAt handlerFunction 0x180000000] 0x180001008, Agrees call) ∧
    ImagesPlaced ((frameState [] 0x140000808).images (viewAt lastRecord 0x140000000)) ∧
      (frameCalls (viewAt lastRecord 0x140000000) [] 0x140000808).map HandlerCall.summary =
        [([(0x140000000, 0x1000)], 0x140000808, 0x140000000, 0x140001000, .handler)] ∧
      ¬ ∀ call ∈ frameCalls (viewAt lastRecord 0x140000000) [] 0x140000808, Agrees call := by
  have hmodule : (frameCalls (viewAt handlerFunction 0x140000000)
      [viewAt handlerFunction 0x180000000] 0x180001008).map HandlerCall.summary =
        [([(0x140000000, 0x3000), (0x180000000, 0x3000)], 0x180001008, 0x140000000, 0x1800000fc,
          .refused)] := by
    decide +kernel
  have hl : (frameCalls (viewAt lastRecord 0x140000000) [] 0x140000808).map HandlerCall.summary =
        [([(0x140000000, 0x1000)], 0x140000808, 0x140000000, 0x140001000, .handler)] := by
    decide +kernel
  refine ⟨⟨placed_handlerFunction _, hmodule, fun hal => ?_⟩, placed_lastRecord _, hl,
    fun hal => ?_⟩
  · obtain ⟨call, hc, hs⟩ := mem_map.mp (hmodule ▸ mem_cons_self)
    have ha := (hal call hc).summary
    rw [hs] at ha
    exact absurd ha (by decide)
  · obtain ⟨call, hc, hs⟩ := mem_map.mp (hl ▸ mem_cons_self)
    have ha := (hal call hc).summary
    rw [hs] at ha
    exact absurd ha (by decide)

end TradutorLinux.Runtime
