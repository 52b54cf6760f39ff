import TradutorLinux.Runtime.CxxTables
import TradutorLinux.Runtime.FuncletTransfer

/-!
# The C++ exception handlers

`cxx_frame_handler3` and `cxx_frame_handler4`.  In the search phase a handler
looks for a clause that catches the exception, in the unwind phase it makes the
plan of the cleanups before the catch.

## Main definitions

* `findCatch`, `findFh4Catch` — the clause that catches.
* `placeCatchObject`
* `buildCleanupPlan`, `buildFh4CleanupPlan`, `findFh4TargetState` — the plan.
* `cxxFrameHandler3`, `cxxFrameHandler4` — both phases.
-/

namespace TradutorLinux.Runtime

def kCatchableTypeSimple : ℕ := 0x1
def kCatchableTypeByReferenceOnly : ℕ := 0x2
def kHandlerTypeReference : ℕ := 0x8
def kMaxCatchObjectSize : ℕ := 4096
def kMaxFh4ExecutableCleanupActions : ℕ := 16

structure CatchTarget where
  handlerRva : ℕ
  scopeIndex : ℕ
  continuationRva : ℕ := 0
  catchObject : ℕ := 0
  handlerAdjectives : ℕ := 0
  catchable : CatchableType := {}
  hasCatchable : Bool := false
  hasCatchObject : Bool := false
  catchAll : Bool
deriving DecidableEq

/-! ### The search for a clause -/

/-- Whether a clause of FH3 catches the exception. -/
def Handler.catches (image : ImageReader) (record : ExceptionRecordAmd64) (h : Handler) : Bool :=
  h.catchAll || (decide (h.typeRva ≠ 0) &&
    image.range h.typeRva (kTypeDescriptorNameOffset + 1) &&
    (findThrownCatchable image record h.typeRva).isSome)

/-- The inner loop of `find_catch`: nothing when a clause cannot be read. -/
def findHandlerFrom (image : ImageReader) (record : ExceptionRecordAmd64) (handlerMap : ℕ) :
    ℕ → ℕ → Option (Option Handler)
  | 0, _ => some none
  | remaining + 1, index =>
    match readHandler image handlerMap index with
    | none => none
    | some h =>
      if h.catches image record then some (some h)
      else findHandlerFrom image record handlerMap remaining (index + 1)

/-- The test of `find_catch` for the state of a try block. -/
def TryBlock.skips (b : TryBlock) (state : ℤ) : Bool :=
  decide (state < b.tryLow) || decide (b.catchHigh < state)

/-- The loop of `find_catch`. -/
def findCatchFrom (image : ImageReader) (info : FuncInfo) (record : ExceptionRecordAmd64)
    (state : ℤ) : ℕ → ℕ → Option CatchTarget
  | 0, _ => none
  | remaining + 1, index =>
    match readTryBlock image info index with
    | none => none
    | some b =>
      if b.skips state then findCatchFrom image info record state remaining (index + 1)
      else match findHandlerFrom image record b.handlerMap b.handlerCount 0 with
        | none => none
        | some none => findCatchFrom image info record state remaining (index + 1)
        | some (some h) =>
          some { handlerRva := h.handlerRva, scopeIndex := index, catchAll := h.catchAll }

def findCatch (image : ImageReader) (info : FuncInfo) (record : ExceptionRecordAmd64)
    (state : ℤ) : Option CatchTarget :=
  findCatchFrom image info record state info.tryBlockCount 0

/-- The clauses of a try block. -/
def readFh4Handlers (image : ImageReader) (functionBegin handlerMap : ℕ) :
    Option (List Fh4Handler) := do
  let (count, cursor) ← readFh4Unsigned image handlerMap
  if kMaxFh4Handlers < count then none
  else (readMany (readFh4Handler image functionBegin) count cursor).map Prod.fst

/-- What one of the two passes of `find_fh4_catch` makes of a clause. -/
def Fh4Handler.passTarget (image : ImageReader) (record : ExceptionRecordAmd64)
    (tryIndex pass : ℕ) (h : Fh4Handler) : Option CatchTarget :=
  let catchAll := !h.hasType
  if (pass = 0 ∧ catchAll) ∨ (pass = 1 ∧ ¬catchAll) then none
  else
    let catchable? := if catchAll then some {} else findThrownCatchable image record h.typeRva
    catchable?.map fun catchable =>
      { handlerRva := h.handlerRva
        scopeIndex := tryIndex
        continuationRva := h.continuationRvas.headD 0
        catchObject := h.catchObject
        handlerAdjectives := h.adjectives
        catchable := catchable
        hasCatchable := !catchAll
        hasCatchObject := h.hasCatchObject
        catchAll := catchAll }

/-- Both passes: a clause with a type goes before an ellipsis. -/
def fh4PassTarget (image : ImageReader) (record : ExceptionRecordAmd64) (tryIndex : ℕ)
    (handlers : List Fh4Handler) : Option CatchTarget :=
  [0, 1].findSome? fun pass => handlers.findSome? (Fh4Handler.passTarget image record tryIndex pass)

/-- The test of `find_fh4_catch` for the state of a try block. -/
def Fh4TryBlock.skips (b : Fh4TryBlock) (state : ℤ) : Bool :=
  decide (kMaxFh4Entries < b.tryLow) || decide (kMaxFh4Entries < b.tryHigh) ||
    decide (kMaxFh4Entries < b.catchHigh) ||
    (decide (0 ≤ state) && (decide (state < b.tryLow) || decide (b.catchHigh < state)))

/-- The loop of `find_fh4_catch`. -/
def findFh4CatchFrom (image : ImageReader) (functionBegin : ℕ) (record : ExceptionRecordAmd64)
    (state : ℤ) : List Fh4TryBlock → ℕ → Option CatchTarget
  | [], _ => none
  | b :: rest, tryIndex =>
    if b.skips state then findFh4CatchFrom image functionBegin record state rest (tryIndex + 1)
    else if b.handlerMap = 0 then
      findFh4CatchFrom image functionBegin record state rest (tryIndex + 1)
    else match readFh4Handlers image functionBegin b.handlerMap with
      | none => none
      | some handlers =>
        match fh4PassTarget image record tryIndex handlers with
        | some target => some target
        | none => findFh4CatchFrom image functionBegin record state rest (tryIndex + 1)

def findFh4Catch (image : ImageReader) (info : Fh4FuncInfo) (tryMap : List Fh4TryBlock)
    (record : ExceptionRecordAmd64) (state : ℤ) : Option CatchTarget :=
  if state < kInvalidState ∨ kMaxFh4Entries ≤ state then none
  else findFh4CatchFrom image info.functionBegin record state tryMap 0

/-! ### The caught object -/

/-- `add_signed_address`. -/
def addSignedAddress (base : ℕ) (displacement : ℤ) : Option ℕ :=
  if base + displacement < 0 ∨ 2 ^ 64 ≤ base + displacement then none
  else some (base + displacement).toNat

/-- `adjust_catchable_pointer`. -/
def adjustCatchablePointer (t : GuestThread) (type : CatchableType) (source : ℕ) : Option ℕ := do
  if source = 0 then none
  let adjusted ← addSignedAddress source type.memberDisplacement
  let adjusted ←
    if type.vbptrDisplacement = -1 then some adjusted
    else do
      let vbptr ← addSignedAddress adjusted type.vbptrDisplacement
      let vbtable ← (t.read vbptr 8).map ofLE
      if vbtable = 0 then none
      let vbase ← addSignedAddress vbtable type.vbaseDisplacement
      let offset ← (t.read vbase 4).map fun bytes => toI32 (ofLE bytes)
      addSignedAddress adjusted offset
  let _ ← t.read adjusted 1
  some adjusted

/-- `write_guest_memory`. -/
def GuestStack.store (g : GuestStack) (address : ℕ) (bytes : ByteString) : Option GuestStack :=
  if (List.range' address bytes.length).all g.writable then
    some { g with thread := { g.thread with byte := storeBytes g.thread.byte address bytes } }
  else none

/-- What `cxx_frame_handler4` does with the clause it has found: the object, or a reference to
it, goes to the frame. -/
def placeCatchObject (g : GuestStack) (record : ExceptionRecordAmd64) (establisher : UInt64)
    (target : CatchTarget) : Option GuestStack :=
  if !target.hasCatchObject then some g
  else do
    let source := (record.parameters.getD 1 0).toNat
    if record.parameterCount < 2 ∨ source = 0 then none
    if !target.hasCatchable ∨ (target.catchable.properties &&& kCatchableTypeByReferenceOnly ≠ 0 ∧
        target.handlerAdjectives &&& kHandlerTypeReference = 0) then none
    let slot ← addU64 establisher (UInt64.ofNat target.catchObject)
    let adjusted ← adjustCatchablePointer g.thread target.catchable source
    if target.handlerAdjectives &&& kHandlerTypeReference ≠ 0 then
      g.write slot (UInt64.ofNat adjusted)
    else do
      if target.catchable.copyFunction ≠ 0 ∨
          target.catchable.properties &&& kCatchableTypeSimple = 0 ∨
          target.catchable.sizeOrOffset = 0 ∨
          kMaxCatchObjectSize < target.catchable.sizeOrOffset then none
      let object ← g.thread.read adjusted target.catchable.sizeOrOffset
      g.store slot.toNat object

/-! ### The plan of the cleanups -/

/-- Whether an entry of an FH3 unwind map has an action. -/
def UnwindAction.acts (a : UnwindAction) : Bool :=
  !(decide (a.actionRva = 0) || decide (a.actionRva = kMaxU32))

/-- The action of an entry of an FH3 unwind map. -/
def UnwindAction.cleanup (a : UnwindAction) : CleanupAction :=
  { actionRva := UInt32.ofNat a.actionRva, objectOffset := 0, kind := .legacyFrame }

/-- The loop of `build_cleanup_plan`; `remaining` is the room in the array of visited states. -/
def buildCleanupPlanFrom (image : ImageReader) (info : FuncInfo) :
    ℕ → List ℤ → ℤ → List CleanupAction → Option (List CleanupAction)
  | remaining, visited, state, plan =>
    if state = kInvalidState then some plan
    else if !info.validState state then none
    else match remaining with
      | 0 => none
      | remaining + 1 =>
        if visited.contains state then none
        else match readUnwindAction image info state with
          | none => none
          | some action =>
            if !action.acts then some plan
            else if kMaxCleanupActions ≤ plan.length then none
            else buildCleanupPlanFrom image info remaining (visited ++ [state]) action.toState
              (plan ++ [action.cleanup])

def buildCleanupPlan (image : ImageReader) (info : FuncInfo) (state : ℤ) :
    Option (List CleanupAction) :=
  buildCleanupPlanFrom image info kMaxCleanupActions [] state []

def Fh4UnwindEntry.cleanup (e : Fh4UnwindEntry) : CleanupAction :=
  { actionRva := UInt32.ofNat e.actionRva
    objectOffset := UInt32.ofNat e.object
    kind :=
      if e.type = 1 then .dtorWithObject
      else if e.type = 2 then .dtorWithPointerToObject
      else .rva }

/-- A state that may be absent, as the integer of the source. -/
def stateOf (state : Option ℕ) : ℤ := state.elim kInvalidState Nat.cast

/-- The loop of `build_fh4_cleanup_plan`; every round marks a state, so that `fuel` is more
than the states there can be. -/
def buildFh4CleanupPlanFrom (unwindMap : List Fh4UnwindEntry) (targetState : ℤ) :
    ℕ → List ℕ → ℤ → List CleanupAction → Option (List CleanupAction)
  | 0, _, _, _ => none
  | fuel + 1, visited, state, plan =>
    if state = kInvalidState ∨ ¬(targetState = kInvalidState ∨ targetState ≤ state) then some plan
    else if state < 0 ∨ unwindMap.length ≤ state ∨ visited.contains state.toNat then none
    else match unwindMap[state.toNat]? with
      | none => none
      | some entry =>
        if entry.type = 0 then
          buildFh4CleanupPlanFrom unwindMap targetState fuel (state.toNat :: visited)
            (stateOf entry.nextState) plan
        else if kMaxCleanupActions ≤ plan.length ∨ entry.actionRva = 0 ∨
            entry.actionRva = kMaxU32 then none
        else
          buildFh4CleanupPlanFrom unwindMap targetState fuel (state.toNat :: visited)
            (stateOf entry.nextState) (plan ++ [entry.cleanup])

def buildFh4CleanupPlan (unwindMap : List Fh4UnwindEntry) (state targetState : ℤ) :
    Option (List CleanupAction) :=
  buildFh4CleanupPlanFrom unwindMap targetState (kMaxFh4Entries + 2) [] state []

/-- The clauses of a try block up to the first that cannot be read, or that is the target. -/
def hasFh4Target (image : ImageReader) (functionBegin targetRva : ℕ) : ℕ → ℕ → Bool
  | 0, _ => false
  | remaining + 1, cursor =>
    match readFh4Handler image functionBegin cursor with
    | none => false
    | some (h, cursor) =>
      if h.handlerRva = targetRva then true
      else hasFh4Target image functionBegin targetRva remaining cursor

/-- Whether `find_fh4_target_state` takes the try block. -/
def Fh4TryBlock.targets (image : ImageReader) (functionBegin targetRva : ℕ)
    (b : Fh4TryBlock) : Bool :=
  if b.handlerMap = 0 then false
  else match readFh4Unsigned image b.handlerMap with
    | none => false
    | some (count, cursor) =>
      if kMaxFh4Handlers < count then false
      else hasFh4Target image functionBegin targetRva count cursor

/-- The try block `find_fh4_target_state` takes for the target. -/
def findFh4TargetBlock (image : ImageReader) (info : Fh4FuncInfo) (tryMap : List Fh4TryBlock)
    (targetRva : ℕ) : Option ℕ :=
  tryMap.findIdx? (Fh4TryBlock.targets image info.functionBegin targetRva)

def findFh4TargetState (image : ImageReader) (info : Fh4FuncInfo) (tryMap : List Fh4TryBlock)
    (targetRva : ℕ) : ℤ :=
  match (findFh4TargetBlock image info tryMap targetRva).bind (tryMap[·]?) with
  | none => kInvalidState
  | some b => toI32 b.tryLow

/-! ### The handlers -/

/-- What a handler answers. -/
inductive CxxAnswer
  | continueSearch
  | catch (target : CatchTarget) (stack : GuestStack)
  | cleanup (plan : List CleanupAction)

/-- The RVA of the `FuncInfo` behind the handler data, and that of the data. -/
def readFuncInfoRva (image : ImageReader) (d : DispatcherContextAmd64) : Option (ℕ × ℕ) := do
  let handlerData ← image.rvaOf d.handlerData.toNat
  let funcInfo ← image.readU32 handlerData
  some (handlerData, funcInfo)

/-- The RVA of `control_pc`. -/
def controlRva (image : ImageReader) (d : DispatcherContextAmd64) : Option ℕ :=
  if d.controlPc.toNat < image.imageBase ∨ kMaxU32 < d.controlPc.toNat - image.imageBase then none
  else some (d.controlPc.toNat - image.imageBase)

/-- The table and the state `cxx_frame_handler3` works with. -/
def readFrame3 (image : ImageReader) (d : DispatcherContextAmd64) : Option (FuncInfo × ℤ) := do
  let (_, funcInfo) ← readFuncInfoRva image d
  let info ← readFuncInfo image funcInfo
  if !validateUnwindMap image info || !validateIpMap image info then none
  else do
    let control ← controlRva image d
    let state ← currentState image info control
    some (info, state)

def cxxFrameHandler3 (image : ImageReader) (g : GuestStack) (record : ExceptionRecordAmd64)
    (d : DispatcherContextAmd64) : CxxAnswer :=
  if record.code ≠ kCxxException then .continueSearch
  else match readFrame3 image d with
    | none => .continueSearch
    | some (info, state) =>
      if record.flags &&& kExceptionUnwinding ≠ 0 then
        if d.targetIp = 0 then .continueSearch
        else match buildCleanupPlan image info state with
          | none => .continueSearch
          | some plan => if plan.isEmpty then .continueSearch else .cleanup plan
      else match findCatch image info record state with
        | none => .continueSearch
        | some target => .catch target g

/-- The tables and the state `cxx_frame_handler4` works with. -/
structure Fh4Frame where
  info : Fh4FuncInfo
  unwindMap : List Fh4UnwindEntry
  tryMap : List Fh4TryBlock
  state : ℤ

/-- The word behind the handler data lets the handler run in this phase. -/
def gsPermits (image : ImageReader) (handlerData funcInfo : ℕ) (unwinding : Bool) : Bool :=
  if handlerData ≤ kMaxU32 - 4 ∧ handlerData + 4 ≠ funcInfo then
    match image.readU32 (handlerData + 4) with
    | none => true
    | some word =>
      if word &&& 0x03 = 0 then true
      else decide (word &&& (if unwinding then 0x02 else 0x01) ≠ 0)
  else true

def readMapIf {α : Type} (rva : ℕ) (read : ℕ → Option (List α)) : Option (List α) :=
  if rva = 0 then some [] else read rva

def readFrame4 (image : ImageReader) (d : DispatcherContextAmd64) (unwinding : Bool) :
    Option Fh4Frame := do
  let (handlerData, funcInfo) ← readFuncInfoRva image d
  if !gsPermits image handlerData funcInfo unwinding then none
  else do
    let functionEntry ← image.rvaOf d.functionEntry.toNat
    let functionBegin ← image.readU32 functionEntry
    let info ← readFh4FuncInfo image funcInfo functionBegin
    let unwindMap ← readMapIf info.unwindMap (readFh4UnwindMap image)
    let tryMap ← readMapIf info.tryBlockMap (readFh4TryBlockMap image)
    let control ← controlRva image d
    let state ← readFh4IpState image info control
    if 0 ≤ state ∧ unwindMap ≠ [] ∧ unwindMap.length ≤ state then none
    else some { info, unwindMap, tryMap, state }

/-- The plan of `cxx_frame_handler4`, and what becomes of it. -/
def fh4Cleanup (image : ImageReader) (frame : Fh4Frame) (targetIp : ℕ) : CxxAnswer :=
  let targetRva :=
    if image.imageBase < targetIp then (targetIp - image.imageBase) % (kMaxU32 + 1) else 0
  let targetState :=
    if targetRva ≠ 0 then findFh4TargetState image frame.info frame.tryMap targetRva
    else kInvalidState
  match buildFh4CleanupPlan frame.unwindMap frame.state targetState with
  | none => .continueSearch
  | some plan =>
    if plan.isEmpty ∨ kMaxFh4ExecutableCleanupActions < plan.length then .continueSearch
    else .cleanup plan

def cxxFrameHandler4 (image : ImageReader) (g : GuestStack) (record : ExceptionRecordAmd64)
    (d : DispatcherContextAmd64) : CxxAnswer :=
  let unwinding := record.flags &&& kExceptionUnwinding ≠ 0
  if record.code ≠ kCxxException then .continueSearch
  else match readFrame4 image d unwinding with
    | none => .continueSearch
    | some frame =>
      if unwinding then
        if d.targetIp = 0 then .continueSearch
        else fh4Cleanup image frame d.targetIp.toNat
      else match findFh4Catch image frame.info frame.tryMap record frame.state with
        | none => .continueSearch
        | some target =>
          match placeCatchObject g record d.establisherFrame target with
          | none => .continueSearch
          | some g' => .catch target g'

end TradutorLinux.Runtime
