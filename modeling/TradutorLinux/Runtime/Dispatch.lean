import TradutorLinux.Runtime.Unwind
import TradutorLinux.Util.Loops

/-!
# Dispatch of exceptions

`dispatch_raised_exception` asks the vectored handlers and then the handlers of
the frames, from the innermost one outwards; `unwind_to_target` calls the
termination handlers up to a target frame.  Guest code that runs in between can
change the memory, the record, the context and the attached images; it is a
parameter, as are the decoders of the C++ tables.

## Main definitions

* `SehState`, `Guest` — the state of a dispatch, and what guest code makes of it.
* `invokeCxxOrLanguageHandler`
* `searchStep`, `unwindStep` — one frame of the two walks.
* `dispatchRaisedException`, `unwindToTarget`, `rtlLookupFunctionEntry`.
-/

namespace TradutorLinux.Runtime

/-! ### Types -/

def kExceptionNoncontinuable : UInt32 := 0x1
def kExceptionUnwinding : UInt32 := 0x2
def kExceptionTargetUnwind : UInt32 := 0x20
def kExceptionContinueExecution : Int32 := 0
def kExceptionContinueSearch : Int32 := 1
def kExceptionExecuteHandler : Int32 := 4
def kVectoredContinueExecution : Int32 := 0
def kVectoredContinueSearch : Int32 := -1
def kInvalidDisposition : Int32 := 0x7FFFFFFF
def kStatusUnwindConsolidate : UInt32 := 0x80000029
def kCxxException : UInt32 := 0xE06D7363

/-- The size of `ExceptionRecordAmd64::parameters`. -/
def kExceptionParameters : UInt32 := 15

/-- `ExceptionRecordAmd64`. -/
structure ExceptionRecordAmd64 where
  code : UInt32 := 0
  flags : UInt32 := 0
  address : UInt64 := 0
  parameterCount : UInt32 := 0
  parameters : List UInt64 := []
deriving DecidableEq

/-- `DispatcherContextAmd64` without the pointer to the context. -/
structure DispatcherContextAmd64 where
  controlPc : UInt64
  imageBase : UInt64
  functionEntry : UInt64
  establisherFrame : UInt64
  targetIp : UInt64 := 0
  languageHandler : UInt64
  handlerData : UInt64
deriving DecidableEq

/-- Who gets the dispatcher of a frame: its language handler, the runtime's own
interpreter of FH4 tables, or nobody. -/
inductive Receiver
  | handler
  | fh4
  | refused
deriving DecidableEq, Repr

/-- A frame whose handler was to be called, with the images of that moment. -/
structure HandlerCall where
  images : UnwindImages
  dispatcher : DispatcherContextAmd64
  receiver : Receiver

/-- What guest code can change: the images that the thread has attached, its
memory, the exception record, the context, and the unhandled exception filter. -/
structure SehWorld where
  modules : List UnwindImageView
  thread : GuestThread
  record : ExceptionRecordAmd64
  context : ContextAmd64
  filter : UInt64

/-- The world, and the calls of handlers, the last one first. -/
structure SehState where
  world : SehWorld
  calls : List HandlerCall

/-- What a handler answers; `targetIp` is that of the dispatcher behind the call. -/
structure HandlerAnswer where
  disposition : Int32
  targetIp : UInt64
  world : SehWorld

/-- Guest code, and the parts of the runtime that decode C++ tables. -/
structure Guest where
  vectored : UInt64 → SehState → Int32 × SehWorld
  handler : DispatcherContextAmd64 → SehState → HandlerAnswer
  fh4Handler : DispatcherContextAmd64 → SehState → HandlerAnswer
  filter : UInt64 → SehState → Int32 × SehWorld
  consolidation : UInt64 → SehState → UInt64 × SehWorld
  v3Info : SehState → UInt64 → Bool
  fh4Info : SehState → UInt64 → Bool
  prepareCxxCleanupTransfer : SehState → ContextAmd64 → ContextAmd64 → UInt64 → UInt64 → UInt64 →
    Option ContextAmd64
  prepareCxxCatchTransfer : SehState → ContextAmd64 → UInt64 → UInt64 → Option ContextAmd64

/-- How a dispatch ends: the thread exits with a trace, or jumps to a context. -/
inductive SehEnd
  | failed (code : UInt32) (detail : ByteString)
  | jumped (context : ContextAmd64)
deriving DecidableEq

/-- A pointer of the caller. -/
inductive GuestPointer (α : Type)
  | null
  | inaccessible
  | points (value : α)

def GuestPointer.isNull {α : Type} : GuestPointer α → Bool
  | null => true
  | _ => false

/-! ### Handlers -/

/-- `image_range`, on the main image. -/
def imageRange (main : UnwindImageView) (pointer : UInt64) (size : ℕ) : Bool :=
  pointer ≠ 0 && main.base ≠ 0 && main.base ≤ pointer && size ≤ main.size.toNat &&
    (pointer - main.base).toNat ≤ main.size.toNat - size

/-- `valid_guest_code`. -/
def validGuestCode (main : UnwindImageView) (pointer : UInt64) : Bool := imageRange main pointer 1

namespace SehState

def images (main : UnwindImageView) (s : SehState) : UnwindImages := ⟨main, s.world.modules⟩

/-- `is_fh4_cxx_handler_data`. -/
def isFh4CxxHandlerData (guest : Guest) (main : UnwindImageView) (s : SehState)
    (handlerData : UInt64) : Bool :=
  main.covers handlerData && !guest.v3Info s handlerData && guest.fh4Info s handlerData

/-- `is_supported_cxx_handler_data`. -/
def isSupportedCxxHandlerData (guest : Guest) (main : UnwindImageView) (s : SehState)
    (handlerData : UInt64) : Bool :=
  main.covers handlerData && (guest.v3Info s handlerData || guest.fh4Info s handlerData)

def noncontinuable (s : SehState) : Bool := s.world.record.flags &&& kExceptionNoncontinuable ≠ 0

def withContext (s : SehState) (context : ContextAmd64) : SehState :=
  { s with world := { s.world with context := context } }

end SehState

/-- `invoke_vectored`. -/
def invokeVectored (guest : Guest) (main : UnwindImageView) (routine : UInt64) (s : SehState) :
    Int32 × SehState :=
  if !validGuestCode main routine then (kInvalidDisposition, s)
  else
    let answer := guest.vectored routine s
    (answer.1, { s with world := answer.2 })

/-- `invoke_cxx_or_language_handler`: the disposition, the target of the
dispatcher behind the call, and the state. -/
def invokeCxxOrLanguageHandler (guest : Guest) (main : UnwindImageView) (routine : UInt64)
    (fh4 : Bool) (dispatcher : DispatcherContextAmd64) (s : SehState) :
    Int32 × UInt64 × SehState :=
  let call := fun receiver => ⟨s.images main, dispatcher, receiver⟩ :: s.calls
  if fh4 then
    let answer := guest.fh4Handler dispatcher s
    (answer.disposition, answer.targetIp, ⟨answer.world, call .fh4⟩)
  else if !validGuestCode main routine then
    (kInvalidDisposition, dispatcher.targetIp, { s with calls := call .refused })
  else
    let answer := guest.handler dispatcher s
    (answer.disposition, answer.targetIp, ⟨answer.world, call .handler⟩)

/-- Who gets the dispatcher of a call. -/
def receiver (main : UnwindImageView) (routine : UInt64) (fh4 : Bool) : Receiver :=
  if fh4 then .fh4 else if validGuestCode main routine then .handler else .refused

theorem calls_invokeCxxOrLanguageHandler (gst : Guest) (main : UnwindImageView)
    (r : UInt64) (f4 : Bool) (d : DispatcherContextAmd64) (s : SehState) :
    (invokeCxxOrLanguageHandler gst main r f4 d s).2.2.calls =
      ⟨s.images main, d, receiver main r f4⟩ :: s.calls := by
  dsimp only [invokeCxxOrLanguageHandler, receiver]
  split
  · rfl
  · cases validGuestCode main r with
    | false => rfl
    | true => rfl

/-- The dispatcher of a frame, as both walks build it: its base and its entry are
those of the main image. -/
def frameDispatcher (main : UnwindImageView) (before : ContextAmd64) (frame : UnwoundFrame)
    (targetIp : UInt64) : DispatcherContextAmd64 where
  controlPc := before.rip
  imageBase := main.base
  functionEntry := main.rawFunctionEntry frame.index
  establisherFrame := frame.establisherFrame
  targetIp := targetIp
  languageHandler := frame.handler
  handlerData := frame.handlerData

/-! ### The walk of `unwind_to_target` -/

/-- What a walk carries: the context of the next frame, and the state. -/
structure FrameWalk where
  cursor : ContextAmd64
  seh : SehState

/-- The arguments of `unwind_to_target`; `active` tells whether it has a record. -/
structure UnwindTarget where
  frame : UInt64
  ip : UInt64
  returnValue : UInt64
  active : Bool

/-- The exception code of the record, zero without one. -/
def UnwindTarget.code (target : UnwindTarget) (s : SehState) : UInt32 :=
  if target.active then s.world.record.code else 0

/-- A C++ exception is unwound. -/
def UnwindTarget.cxx (target : UnwindTarget) (s : SehState) : Bool :=
  target.active && s.world.record.code = kCxxException

/-- Where the walk ends: in a failure, or at the target frame. -/
inductive UnwindEnd
  | failed (detail : ByteString) (s : SehState)
  | target (before cursor : ContextAmd64) (frame : UnwoundFrame) (s : SehState)

def matchesTarget (target : UnwindTarget) (s : SehState) (cursor : ContextAmd64)
    (frame : UnwoundFrame) : Bool :=
  frame.establisherFrame = target.frame ||
    (!target.cxx s &&
      (cursor.register rsp - 8 = target.frame || cursor.register rsp = target.frame))

/-- One frame of `unwind_to_target`. -/
def unwindStep (guest : Guest) (main : UnwindImageView) (target : UnwindTarget)
    (w : FrameWalk) : FrameWalk ⊕ UnwindEnd :=
  let s := w.seh
  match unwindOne (s.images main) s.world.thread 0x2 w.cursor with
  | .error detail => .inr (.failed detail s)
  | .ok (cursor, frame) =>
    if frame.hasFunction && matchesTarget target s cursor frame then
      .inr (.target w.cursor cursor frame s)
    else if frame.handler = 0 then .inl ⟨cursor, s.withContext cursor⟩
    else if target.cxx s && !s.isSupportedCxxHandlerData guest main frame.handlerData then
      .inl ⟨cursor, s.withContext cursor⟩
    else
      let fh4 := target.cxx s && s.isFh4CxxHandlerData guest main frame.handlerData
      let dispatcher := frameDispatcher main w.cursor frame (if target.cxx s then 0 else target.ip)
      let (disposition, _, s) := invokeCxxOrLanguageHandler guest main frame.handler fh4 dispatcher s
      if disposition = kInvalidDisposition ∨
          (disposition ≠ kExceptionContinueSearch ∧ disposition ≠ kExceptionContinueExecution) then
        .inr (.failed (text "disposição de termination handler inválida") s)
      else .inl ⟨cursor, s.withContext cursor⟩

/-- `invoke_consolidation_callback`: the new target, if it is one, and the state. -/
def invokeConsolidationCallback (guest : Guest) (main : UnwindImageView) (s : SehState) :
    Option UInt64 × SehState :=
  let record := s.world.record
  let callback := record.parameters.getD 0 0
  if record.code ≠ kStatusUnwindConsolidate ∨ record.parameterCount = 0 ∨ callback = 0 ∨
      validGuestCode main callback = false then
    (none, s)
  else
    let answer := guest.consolidation callback s
    (if validGuestCode main answer.1 then some answer.1 else none, { s with world := answer.2 })

/-- The jump to the target, behind the termination handler of its frame. -/
def jumpToTarget (guest : Guest) (main : UnwindImageView) (target : UnwindTarget)
    (before : ContextAmd64) (supported : Bool) (s : SehState) : SehEnd × SehState :=
  let result := { before with rip := target.ip }.setRegister rax target.returnValue
  let catchTransfer := fun (result : ContextAmd64) (s : SehState) =>
    if supported then
      match guest.prepareCxxCatchTransfer s result target.frame target.ip with
      | none =>
        (.failed s.world.record.code (text "transferência de catch funclet inválida"), s)
      | some result => (.jumped result, s)
    else (.jumped result, s)
  if target.active && s.world.record.code = kStatusUnwindConsolidate then
    match invokeConsolidationCallback guest main s with
    | (none, s) => (.failed s.world.record.code (text "callback de consolidação inválido"), s)
    | (some ip, s) => catchTransfer { result with rip := ip } s
  else catchTransfer result s

/-- What `unwind_to_target` does at the target frame. -/
def finishUnwind (guest : Guest) (main : UnwindImageView) (target : UnwindTarget)
    (before cursor : ContextAmd64) (frame : UnwoundFrame) (s : SehState) : SehEnd × SehState :=
  let cxx := target.cxx s
  let record := s.world.record
  let s : SehState :=
    if target.active then
      { s with world := { s.world with
          record := { record with flags := record.flags ||| kExceptionTargetUnwind } } }
    else s
  let fh4 := cxx && s.isFh4CxxHandlerData guest main frame.handlerData
  let supported := cxx && s.isSupportedCxxHandlerData guest main frame.handlerData
  if (cxx && frame.handler ≠ 0 && !supported) || !target.active || frame.handler = 0 then
    jumpToTarget guest main target before supported s
  else
    let dispatcher := frameDispatcher main before frame target.ip
    let (disposition, targetIp, s) :=
      invokeCxxOrLanguageHandler guest main frame.handler fh4 dispatcher s
    if supported ∧ disposition = kExceptionExecuteHandler ∧ targetIp ≠ 0 then
      match guest.prepareCxxCleanupTransfer s cursor before frame.establisherFrame targetIp
          target.ip with
      | none => (.failed s.world.record.code (text "transferência de cleanup inválida"), s)
      | some action => (.jumped action, s)
    else if disposition ≠ kExceptionContinueSearch ∧ disposition ≠ kExceptionExecuteHandler then
      (.failed s.world.record.code (text "disposição de termination handler C++ inválida"), s)
    else jumpToTarget guest main target before supported s

/-- The loops of both walks run for at most this many frames. -/
def frameBound (main : UnwindImageView) : ℕ := main.functions.length + 64 + 1

/-- The walk of `unwind_to_target`, and what follows it. -/
def unwindFrames (guest : Guest) (main : UnwindImageView) (target : UnwindTarget)
    (w : FrameWalk) : SehEnd × SehState :=
  match runBounded (unwindStep guest main target) (frameBound main) w with
  | .inl w => (.failed (target.code w.seh) (text "frame alvo não encontrado"), w.seh)
  | .inr (.failed detail s) => (.failed (target.code s) detail, s)
  | .inr (.target before cursor frame s) => finishUnwind guest main target before cursor frame s

/-- Where the walk of `unwind_to_target` starts; the detail of a failure before it. -/
def unwindStart (main : UnwindImageView) (targetFrame targetIp : UInt64)
    (record : GuestPointer ExceptionRecordAmd64) (returnValue : UInt64)
    (context : GuestPointer ContextAmd64) (s : SehState) :
    Except ByteString (UnwindTarget × FrameWalk) :=
  if targetFrame = 0 ∨ targetIp = 0 ∨ context.isNull = true ∨
      validGuestCode main targetIp = false then
    .error (text "alvo de unwind inválido")
  else
    match context with
    | .points context =>
      let start := fun (active : Bool) (record : ExceptionRecordAmd64) =>
        (⟨targetFrame, targetIp, returnValue, active⟩,
          ⟨context.setRegister rax returnValue,
            { s with world := { s.world with record := record, context := context } }⟩)
      match record with
      | .null => .ok (start false s.world.record)
      | .inaccessible => .error (text "registro de exceção inacessível")
      | .points record =>
        if record.parameterCount > kExceptionParameters then
          .error (text "registro de exceção inacessível")
        else .ok (start true { record with flags := kExceptionUnwinding })
    | _ => .error (text "contexto de unwind inacessível")

/-- `unwind_to_target`. -/
def unwindToTarget (guest : Guest) (main : UnwindImageView) (targetFrame targetIp : UInt64)
    (record : GuestPointer ExceptionRecordAmd64) (returnValue : UInt64)
    (context : GuestPointer ContextAmd64) (s : SehState) : SehEnd × SehState :=
  match unwindStart main targetFrame targetIp record returnValue context s with
  | .error detail => (.failed 0 detail, s)
  | .ok (target, w) => unwindFrames guest main target w

/-! ### The search of `dispatch_raised_exception` -/

/-- Where the search ends: a frame cannot be unwound, a handler decides, or the
stack ends. -/
inductive SearchEnd
  | unwindFailed (detail : ByteString) (s : SehState)
  | failed (detail : ByteString) (s : SehState)
  | resumed (s : SehState)
  | execute (establisherFrame targetIp : UInt64) (s : SehState)
  | endOfStack (s : SehState)

/-- One frame of the search. -/
def searchStep (guest : Guest) (main : UnwindImageView) (code : UInt32) (w : FrameWalk) :
    FrameWalk ⊕ SearchEnd :=
  let s := w.seh
  match unwindOne (s.images main) s.world.thread 0x1 w.cursor with
  | .error detail =>
    -- the guest stack ends in front of the frames of the host
    if detail = text "frame folha inválido" then .inr (.endOfStack s)
    else .inr (.unwindFailed detail s)
  | .ok (cursor, frame) =>
    if frame.handler = 0 then .inl ⟨cursor, s⟩
    else if code = kCxxException ∧
        s.isSupportedCxxHandlerData guest main frame.handlerData = false then
      .inl ⟨cursor, s⟩
    else
      let fh4 := code = kCxxException && s.isFh4CxxHandlerData guest main frame.handlerData
      let dispatcher := frameDispatcher main w.cursor frame 0
      let (disposition, targetIp, s) :=
        invokeCxxOrLanguageHandler guest main frame.handler fh4 dispatcher s
      if disposition = kExceptionContinueExecution then
        if s.noncontinuable then .inr (.failed (text "exceção não continuável") s)
        else .inr (.resumed s)
      else if disposition = kExceptionExecuteHandler ∧ targetIp ≠ 0 then
        .inr (.execute frame.establisherFrame targetIp s)
      else if disposition ≠ kExceptionContinueSearch then
        .inr (.failed (text "disposição de language handler inválida") s)
      else .inl ⟨cursor, s⟩

/-- `tl_UnhandledExceptionFilter`, which works on copies. -/
def unhandledExceptionFilter (guest : Guest) (main : UnwindImageView) (s : SehState) :
    Int32 × SehState :=
  let world := s.world
  if world.record.parameterCount > kExceptionParameters ∨ world.filter = 0 ∨
      imageRange main world.filter 1 = false then
    (kVectoredContinueSearch, s)
  else
    let (result, after) := guest.filter world.filter s
    let kept : SehState := { s with world := { after with
      record := world.record, context := world.context } }
    if result ≠ kVectoredContinueExecution then (kVectoredContinueSearch, kept)
    else (result, kept.withContext after.context)

/-- The end of a search that no handler has decided. -/
def unhandledException (guest : Guest) (main : UnwindImageView) (code : UInt32) (s : SehState) :
    SehEnd × SehState :=
  let (disposition, s) := unhandledExceptionFilter guest main s
  if disposition = kVectoredContinueExecution ∧ s.noncontinuable = false then
    (.jumped s.world.context, s)
  else (.failed code (text "exceção não tratada"), s)

def concludeSearch (guest : Guest) (main : UnwindImageView) (code : UInt32) :
    SearchEnd → SehEnd × SehState
  | .unwindFailed detail s => (.failed code detail, s)
  | .failed detail s => (.failed code detail, s)
  | .resumed s => (.jumped s.world.context, s)
  | .execute establisherFrame targetIp s =>
    unwindToTarget guest main establisherFrame targetIp (.points s.world.record) 0
      (.points s.world.context) s
  | .endOfStack s => unhandledException guest main code s

def searchFrames (guest : Guest) (main : UnwindImageView) (code : UInt32) (w : FrameWalk) :
    SehEnd × SehState :=
  match runBounded (searchStep guest main code) (frameBound main) w with
  | .inl w => unhandledException guest main code w.seh
  | .inr e => concludeSearch guest main code e

/-- `VectoredHandlerSlot`. -/
structure VectoredHandlerSlot where
  used : Bool := false
  routine : UInt64 := 0
  order : ℤ := 0
deriving DecidableEq

/-- The routines of the used slots, in their order. -/
def vectoredCallbacks (slots : List VectoredHandlerSlot) : List UInt64 :=
  ((slots.filter VectoredHandlerSlot.used).mergeSort fun a b => decide (a.order ≤ b.order)).map
    VectoredHandlerSlot.routine

/-- The loop over the vectored handlers: the state when all continue the search. -/
def vectoredSearch (guest : Guest) (main : UnwindImageView) (code : UInt32) :
    List UInt64 → SehState → SehState ⊕ (SehEnd × SehState)
  | [], s => .inl s
  | routine :: routines, s =>
    let (disposition, s) := invokeVectored guest main routine s
    if disposition = kVectoredContinueExecution then
      if s.noncontinuable then .inr (.failed code (text "exceção não continuável"), s)
      else .inr (.jumped s.world.context, s)
    else if disposition ≠ kVectoredContinueSearch then
      .inr (.failed code (text "VEH inválido"), s)
    else vectoredSearch guest main code routines s

/-- The arguments of `dispatch_raised_exception`, with `g_vectored_handlers` and
`cxx_eh_funclet_active()`. -/
structure RaisedException where
  context : ContextAmd64
  code : UInt32
  flags : UInt32
  parameterCount : UInt32
  parameters : GuestPointer (List UInt64)
  handlers : List VectoredHandlerSlot
  funcletActive : Bool

def RaisedException.record (e : RaisedException) (parameters : List UInt64) :
    ExceptionRecordAmd64 :=
  ⟨e.code, e.flags, e.context.rip, e.parameterCount, parameters⟩

/-- The checks of the arguments: the record, or the detail of the failure. -/
def raisedRecord (e : RaisedException) : Except ByteString ExceptionRecordAmd64 :=
  if e.flags &&& ~~~kExceptionNoncontinuable ≠ 0 ∨ e.parameterCount > kExceptionParameters ∨
      (e.parameterCount ≠ 0 ∧ e.parameters.isNull = true) then
    .error (text "argumentos de RaiseException inválidos")
  else if e.code = kCxxException ∧ e.funcletActive = true then
    .error (text "nested-cxx-exception-unsupported")
  else if e.parameterCount = 0 then .ok (e.record [])
  else
    match e.parameters with
    | .points parameters => .ok (e.record (parameters.take e.parameterCount.toNat))
    | _ => .error (text "argumentos de RaiseException inacessíveis")

/-- Where the search over the frames starts: behind the checks and the vectored
handlers, when nothing has ended the dispatch before. -/
def searchStart (guest : Guest) (main : UnwindImageView) (e : RaisedException) (s : SehState) :
    FrameWalk ⊕ (SehEnd × SehState) :=
  match raisedRecord e with
  | .error detail => .inr (.failed e.code detail, s)
  | .ok record =>
    let s : SehState := { s with world := { s.world with record := record, context := e.context } }
    match vectoredSearch guest main e.code (vectoredCallbacks e.handlers) s with
    | .inl s => .inl ⟨s.world.context, s⟩
    | .inr ended => .inr ended

/-- `dispatch_raised_exception`. -/
def dispatchRaisedException (guest : Guest) (main : UnwindImageView) (e : RaisedException)
    (s : SehState) : SehEnd × SehState :=
  match searchStart guest main e s with
  | .inr ended => ended
  | .inl w => searchFrames guest main e.code w

/-! ### `RtlLookupFunctionEntry` -/

/-- `tl_RtlLookupFunctionEntry` with an image base that can be written: the
pointer to the entry, and the base. -/
def rtlLookupFunctionEntry (images : UnwindImages) (controlPc : UInt64) : UInt64 × UInt64 :=
  match images.resolveFunctionByPc controlPc with
  | none => (0, 0)
  | some found =>
    ((images.view found.view).rawFunctionEntry found.index, (images.view found.view).base)

/-! ### What a frame does -/

namespace SearchEnd

def seh : SearchEnd → SehState
  | unwindFailed _ s | failed _ s | resumed s | execute _ _ s | endOfStack s => s

/-- A handler has not continued the search. -/
def Decided : SearchEnd → Prop
  | unwindFailed _ _ | endOfStack _ => False
  | failed _ _ | resumed _ | execute _ _ _ => True

end SearchEnd

namespace UnwindEnd

def seh : UnwindEnd → SehState
  | failed _ s | target _ _ _ s => s

end UnwindEnd

/-- A handler is called for a frame: the next context, and the state after the call. -/
inductive Invokes (guest : Guest) (main : UnwindImageView) (handlerType : UInt32) (w : FrameWalk) :
    ContextAmd64 → SehState → Prop
  | frame {cursor : ContextAmd64} {frame : UnwoundFrame} (fh4 : Bool) (targetIp : UInt64) :
      unwindOne (w.seh.images main) w.seh.world.thread handlerType w.cursor =
        .ok (cursor, frame) →
      frame.handler ≠ 0 →
      (fh4 = true → w.seh.isFh4CxxHandlerData guest main frame.handlerData = true) →
      Invokes guest main handlerType w cursor (invokeCxxOrLanguageHandler guest main frame.handler
        fh4 (frameDispatcher main w.cursor frame targetIp) w.seh).2.2

variable {gst : Guest} {main : UnwindImageView}

/-- **What a frame of the search does**: without a handler to call it leaves the
state alone and decides nothing. -/
theorem searchStep_cases (gst : Guest) (main : UnwindImageView) (c : UInt32) (w : FrameWalk) :
    (∃ r, searchStep gst main c w = .inr r ∧ ¬ r.Decided ∧ r.seh = w.seh) ∨
    (∃ cu, searchStep gst main c w = .inl ⟨cu, w.seh⟩) ∨
    ∃ cu s, Invokes gst main 0x1 w cu s ∧ (searchStep gst main c w = .inl ⟨cu, s⟩ ∨
        ∃ r, searchStep gst main c w = .inr r ∧ r.Decided ∧ r.seh = s) := by
  dsimp only [searchStep]
  cases ho : unwindOne (w.seh.images main) w.seh.world.thread 0x1 w.cursor with
  | error d =>
    refine .inl ?_
    dsimp only
    split
    · exact ⟨_, rfl, id, rfl⟩
    · exact ⟨_, rfl, id, rfl⟩
  | ok next =>
    obtain ⟨cu, fr⟩ := next
    dsimp only
    split
    · exact .inr (.inl ⟨cu, rfl⟩)
    next hh =>
    split
    · exact .inr (.inl ⟨cu, rfl⟩)
    refine .inr (.inr ⟨cu, _, .frame
      (c = kCxxException && w.seh.isFh4CxxHandlerData gst main fr.handlerData) 0 ho
      hh fun hf => ?_, ?_⟩)
    · rw [Bool.and_eq_true] at hf
      exact hf.2
    · generalize invokeCxxOrLanguageHandler gst main fr.handler _ _ w.seh = answer
      obtain ⟨di, ip, s⟩ := answer
      split
      · split
        · exact .inr ⟨_, rfl, trivial, rfl⟩
        · exact .inr ⟨_, rfl, trivial, rfl⟩
      split
      · exact .inr ⟨_, rfl, trivial, rfl⟩
      split
      · exact .inr ⟨_, rfl, trivial, rfl⟩
      · exact .inl rfl

/-- **What a frame of the unwind does.** -/
theorem unwindStep_cases (gst : Guest) (main : UnwindImageView) (t : UnwindTarget) (w : FrameWalk) :
    (∃ r, unwindStep gst main t w = .inr r ∧ r.seh = w.seh ∧
      ∀ b cu fr s, r = .target b cu fr s → b = w.cursor ∧
        unwindOne (w.seh.images main) w.seh.world.thread 0x2 w.cursor = .ok (cu, fr)) ∨
    (∃ cu, unwindStep gst main t w = .inl ⟨cu, w.seh.withContext cu⟩) ∨
    ∃ cu s, Invokes gst main 0x2 w cu s ∧
      (unwindStep gst main t w = .inl ⟨cu, s.withContext cu⟩ ∨
        ∃ d, unwindStep gst main t w = .inr (.failed d s)) := by
  dsimp only [unwindStep]
  cases ho : unwindOne (w.seh.images main) w.seh.world.thread 0x2 w.cursor with
  | error d => exact .inl ⟨_, rfl, rfl, fun b cu fr s h => by cases h⟩
  | ok next =>
    obtain ⟨cu, fr⟩ := next
    dsimp only
    split
    · refine .inl ⟨_, rfl, rfl, fun b c' fr' s h => ?_⟩
      obtain ⟨rfl, rfl, rfl, -⟩ := UnwindEnd.target.inj h
      exact ⟨rfl, rfl⟩
    split
    · exact .inr (.inl ⟨cu, rfl⟩)
    next hh =>
    split
    · exact .inr (.inl ⟨cu, rfl⟩)
    refine .inr (.inr ⟨cu, _, .frame
      (t.cxx w.seh && w.seh.isFh4CxxHandlerData gst main fr.handlerData)
      (if t.cxx w.seh then 0 else t.ip) ho hh fun hf => ?_, ?_⟩)
    · rw [Bool.and_eq_true] at hf
      exact hf.2
    · generalize invokeCxxOrLanguageHandler gst main fr.handler _ _ w.seh = answer
      obtain ⟨di, ti, s⟩ := answer
      split
      · exact .inr ⟨_, rfl⟩
      · exact .inl rfl

variable {c : UInt32}

theorem SehEnd.failed_ne {c' : UInt32} {d detail' : ByteString}
    (h : d ≠ detail') : SehEnd.failed c d ≠ .failed c' detail' :=
  fun heq => h (SehEnd.failed.inj heq).2

theorem jumpToTarget_ne (t : UnwindTarget) (b : ContextAmd64) (supported : Bool)
    (s : SehState) (c : UInt32) :
    (jumpToTarget gst main t b supported s).1 ≠
      .failed c (text "frame alvo não encontrado") := by
  dsimp only [jumpToTarget]
  split
  · split
    · exact SehEnd.failed_ne (by decide)
    split
    · split
      · exact SehEnd.failed_ne (by decide)
      · simp
    · simp
  · split
    · split
      · exact SehEnd.failed_ne (by decide)
      · simp
    · simp

theorem finishUnwind_ne (t : UnwindTarget) (b cu : ContextAmd64)
    (fr : UnwoundFrame) (s : SehState) (code : UInt32) :
    (finishUnwind gst main t b cu fr s).1 ≠
      .failed code (text "frame alvo não encontrado") := by
  dsimp only [finishUnwind]
  generalize (if t.active then
    { s with world := { s.world with record := { s.world.record with
      flags := s.world.record.flags ||| kExceptionTargetUnwind } } } else s) = s₁
  split
  · exact jumpToTarget_ne _ _ _ _ _
  split
  · split
    · exact SehEnd.failed_ne (by decide)
    · simp
  · split
    · exact SehEnd.failed_ne (by decide)
    · exact jumpToTarget_ne _ _ _ _ _

/-! ### Invariants -/

/-- What guest code and the walks keep of the state. -/
structure DispatchInvariant (guest : Guest) (main : UnwindImageView) (Inv : SehState → Prop) :
    Prop where
  published : ∀ (s : SehState) (record : ExceptionRecordAmd64) (context : ContextAmd64), Inv s →
    Inv { s with world := { s.world with record := record, context := context } }
  vectored : ∀ (routine : UInt64) (s : SehState), Inv s →
    Inv { s with world := (guest.vectored routine s).2 }
  filter : ∀ (routine : UInt64) (s : SehState), Inv s →
    Inv { s with world := (guest.filter routine s).2 }
  consolidation : ∀ (routine : UInt64) (s : SehState), Inv s →
    Inv { s with world := (guest.consolidation routine s).2 }
  invokes : ∀ (handlerType : UInt32) (w : FrameWalk) (cursor : ContextAmd64) (s : SehState),
    Inv w.seh → Invokes guest main handlerType w cursor s → Inv s

namespace DispatchInvariant

variable {Inv : SehState → Prop}

variable {s : SehState}

section

variable (hinv : DispatchInvariant gst main Inv)
include hinv

theorem withContext (h : Inv s) (ct : ContextAmd64) : Inv (s.withContext ct) :=
  hinv.published s s.world.record ct h

theorem jumpToTarget {t : UnwindTarget} {b : ContextAmd64} {su : Bool} (h : Inv s) :
    Inv (Runtime.jumpToTarget gst main t b su s).2 := by
  have hc : Inv (invokeConsolidationCallback gst main s).2 := by
    dsimp only [invokeConsolidationCallback]
    split
    · exact h
    · exact hinv.consolidation _ s h
  dsimp only [Runtime.jumpToTarget]
  split
  · generalize invokeConsolidationCallback gst main s = answer at hc ⊢
    obtain ⟨ip, s'⟩ := answer
    cases ip with
    | none => exact hc
    | some ip =>
      dsimp only at hc ⊢
      split
      · split
        · exact hc
        · exact hc
      · exact hc
  · split
    · split
      · exact h
      · exact h
    · exact h

theorem finishUnwind {t : UnwindTarget} {b cu : ContextAmd64} {fr : UnwoundFrame} (h : Inv s)
    (ho : unwindOne (s.images main) s.world.thread 0x2 b = .ok (cu, fr)) :
    Inv (Runtime.finishUnwind gst main t b cu fr s).2 := by
  dsimp only [Runtime.finishUnwind]
  -- the flag of the target frame does not change how the frame unwinds
  have hf : ∀ s₁ : SehState, s₁ = (if t.active then
      { s with world := { s.world with record := { s.world.record with
        flags := s.world.record.flags ||| kExceptionTargetUnwind } } } else s) →
      Inv s₁ ∧ unwindOne (s₁.images main) s₁.world.thread 0x2 b = .ok (cu, fr) := by
    rintro s₁ rfl
    split
    · exact ⟨hinv.published s _ s.world.context h, ho⟩
    · exact ⟨h, ho⟩
  generalize (if t.active then
    { s with world := { s.world with record := { s.world.record with
      flags := s.world.record.flags ||| kExceptionTargetUnwind } } } else s) = s₁ at hf ⊢
  obtain ⟨hs₁, ho⟩ := hf s₁ rfl
  split
  · exact hinv.jumpToTarget hs₁
  next hh =>
  have hn : fr.handler ≠ 0 := by
    intro hz
    rw [hz] at hh
    simp at hh
  have hc := hinv.invokes 0x2 ⟨b, s₁⟩ cu _ hs₁ (.frame
    (t.cxx s && s₁.isFh4CxxHandlerData gst main fr.handlerData) t.ip ho hn
    fun h4 => by
      rw [Bool.and_eq_true] at h4
      exact h4.2)
  generalize invokeCxxOrLanguageHandler gst main fr.handler _ _ s₁ = answer at hc ⊢
  obtain ⟨d, ti, s₂⟩ := answer
  split
  · split
    · exact hc
    · exact hc
  split
  · exact hc
  · exact hinv.jumpToTarget hc

variable {w : FrameWalk}

/-- **What the walk of `unwind_to_target` keeps.** -/
theorem unwindFrames {target : UnwindTarget} (h : Inv w.seh) :
    Inv (Runtime.unwindFrames gst main target w).2 := by
  have hu := runBounded_induction (unwindStep gst main target) (fun w => Inv w.seh)
    (fun r => Inv r.seh ∧ ∀ b cu fr s, r = .target b cu fr s →
      unwindOne (s.images main) s.world.thread 0x2 b = .ok (cu, fr))
    (fun w w' hw ht => ?_) (fun w r hw ht => ?_) (frameBound main) w h
  · unfold Runtime.unwindFrames
    generalize runBounded (unwindStep gst main target) (frameBound main) w = result at hu
    cases result with
    | inl w' => exact hu
    | inr r =>
      cases r with
      | failed d s => exact hu.1
      | target b cu fr s => exact hinv.finishUnwind hu.1 (hu.2 _ _ _ _ rfl)
  · rcases unwindStep_cases gst main target w with
      ⟨r, hr, -⟩ | ⟨cu, hc⟩ | ⟨cu, s, hi, hs | ⟨d, hr⟩⟩
    · rw [hr] at ht
      cases ht
    · rw [hc] at ht
      cases ht
      exact hinv.withContext hw cu
    · rw [hs] at ht
      cases ht
      exact hinv.withContext (hinv.invokes _ w _ _ hw hi) cu
    · rw [hr] at ht
      cases ht
  · rcases unwindStep_cases gst main target w with
      ⟨r', hr, he, ha⟩ | ⟨cu, hc⟩ | ⟨cu, s, hi, hs | ⟨d, hr⟩⟩
    · rw [hr] at ht
      cases ht
      refine ⟨he ▸ hw, fun b cu fr s h => ?_⟩
      obtain ⟨rfl, ho⟩ := ha b cu fr s h
      rw [h] at he
      obtain rfl : s = w.seh := he
      exact ho
    · rw [hc] at ht
      cases ht
    · rw [hs] at ht
      cases ht
    · rw [hr] at ht
      cases ht
      refine ⟨hinv.invokes _ w _ _ hw hi, fun b cu fr s h => by cases h⟩

/-- **What `unwind_to_target` keeps.** -/
theorem unwindToTarget (h : Inv s) (tf ip : UInt64) (r : GuestPointer ExceptionRecordAmd64)
    (rv : UInt64) (ct : GuestPointer ContextAmd64) :
    Inv (Runtime.unwindToTarget gst main tf ip r rv ct s).2 := by
  unfold Runtime.unwindToTarget
  cases hs : unwindStart main tf ip r rv ct s with
  | error d => exact h
  | ok st =>
    refine hinv.unwindFrames ?_
    unfold unwindStart at hs
    split at hs
    · cases hs
    split at hs
    · split at hs
      · cases hs
        exact hinv.published s _ _ h
      · cases hs
      · split at hs
        · cases hs
        · cases hs
          exact hinv.published s _ _ h
    · cases hs

theorem unhandledException (h : Inv s) : Inv (Runtime.unhandledException gst main c s).2 := by
  have hf : Inv (unhandledExceptionFilter gst main s).2 := by
    dsimp only [unhandledExceptionFilter]
    split
    · exact h
    have hc := hinv.published _ s.world.record s.world.context (hinv.filter s.world.filter s h)
    split
    · exact hc
    · exact hinv.withContext hc _
  dsimp only [Runtime.unhandledException]
  split
  · exact hf
  · exact hf

theorem concludeSearch {r : SearchEnd}
    (h : Inv r.seh) : Inv (Runtime.concludeSearch gst main c r).2 := by
  cases r with
  | unwindFailed d s => exact h
  | failed d s => exact h
  | resumed s => exact h
  | execute ef ip s => exact hinv.unwindToTarget h _ _ _ _ _
  | endOfStack s => exact hinv.unhandledException h

/-- One frame of the search. -/
theorem searchStep (c : UInt32) (h : Inv w.seh) :
    Sum.elim (fun w => Inv w.seh) (fun r => Inv r.seh) (Runtime.searchStep gst main c w) := by
  rcases searchStep_cases gst main c w with
    ⟨r, hr, -, he⟩ | ⟨cursor, hc⟩ | ⟨cursor, s, hi, hs | ⟨r, hr, -, he⟩⟩
  · rw [hr, Sum.elim_inr, he]
    exact h
  · rw [hc]
    exact h
  · rw [hs]
    exact hinv.invokes _ w _ _ h hi
  · rw [hr, Sum.elim_inr, he]
    exact hinv.invokes _ w _ _ h hi

theorem searchFrames
    (h : Inv w.seh) : Inv (Runtime.searchFrames gst main c w).2 := by
  have hr := runBounded_induction (Runtime.searchStep gst main c) (fun w => Inv w.seh)
    (fun r => Inv r.seh)
    (fun w w' hw hs => ?_) (fun w r hw hs => ?_) (frameBound main) w h
  · unfold Runtime.searchFrames
    generalize runBounded (Runtime.searchStep gst main c) (frameBound main) w = result at hr
    cases result with
    | inl w' => exact hinv.unhandledException hr
    | inr r => exact hinv.concludeSearch hr
  · have hk := hinv.searchStep c hw
    rwa [hs] at hk
  · have hk := hinv.searchStep c hw
    rwa [hs] at hk

theorem vectoredSearch (c : UInt32) (rs : List UInt64) : ∀ s, Inv s →
    Sum.elim Inv (fun e => Inv e.2) (Runtime.vectoredSearch gst main c rs s) := by
  induction rs with
  | nil => exact fun s h => h
  | cons r rs ih =>
    intro s h
    have hc : Inv (invokeVectored gst main r s).2 := by
      dsimp only [invokeVectored]
      split
      · exact h
      · exact hinv.vectored r s h
    dsimp only [Runtime.vectoredSearch]
    split
    · split
      · exact hc
      · exact hc
    split
    · exact hc
    · exact ih _ hc

/-- **What `dispatch_raised_exception` keeps.** -/
theorem dispatchRaisedException (h : Inv s) (e : RaisedException) :
    Inv (Runtime.dispatchRaisedException gst main e s).2 := by
  have hs : Sum.elim (fun w : FrameWalk => Inv w.seh) (fun en => Inv en.2)
      (searchStart gst main e s) := by
    unfold searchStart
    split
    · exact h
    next r _ =>
    dsimp only
    have hv := hinv.vectoredSearch e.code (vectoredCallbacks e.handlers) _
      (hinv.published s r e.context h)
    split
    · next s' heq =>
      rwa [heq] at hv
    · next en heq =>
      rwa [heq] at hv
  unfold Runtime.dispatchRaisedException
  split
  · next en heq =>
    rwa [heq] at hs
  · next w heq =>
    rw [heq] at hs
    exact hinv.searchFrames hs

end

end DispatchInvariant

end TradutorLinux.Runtime
