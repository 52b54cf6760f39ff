import TradutorLinux.Runtime.Dispatch

/-!
# Tables of the C++ exception handlers

The tables `cxx_frame_handler3` and `cxx_frame_handler4` interpret, read from the
mapped image: the `FuncInfo` of FH3 with arrays of fixed records, and that of FH4
with records of compressed numbers one behind the other.  A value that is a state
is an integer, where -1 is `kInvalidState`; other numbers are natural.

## Main definitions

* `ImageReader` — the image; `readFh4Unsigned`, `readFh4Disp`.
* `FuncInfo`, `readFuncInfo`, `currentState` — FH3.
* `Fh4FuncInfo`, `readFh4UnwindMap`, `readFh4TryBlockMap`, `readFh4IpState`,
  `readFh4Handler`
* `findThrownCatchable` — the types of the thrown object.
-/

namespace TradutorLinux.Runtime

def kInvalidState : ℤ := -1
def kMaxState : ℤ := 4095
def kMaxTryBlocks : ℕ := 256
def kMaxHandlersPerTry : ℕ := 64
def kMaxIpEntries : ℕ := 4096
def kMaxCatchableTypes : ℕ := 64
def kMaxFh4Entries : ℕ := 4096
def kMaxFh4TryBlocks : ℕ := 256
def kMaxFh4Handlers : ℕ := 64
def kMaxFh4Segments : ℕ := 4096
def kFuncInfoMagicV3 : ℕ := 0x19930522
def kCatchAll : ℕ := 0x40
def kUnwindMapEntrySize : ℕ := 8
def kTryBlockEntrySize : ℕ := 20
def kHandlerMapEntrySize : ℕ := 20
def kIpMapEntrySize : ℕ := 8
def kThrowInfoSize : ℕ := 16
def kCatchableTypeSize : ℕ := 28
def kTypeDescriptorNameOffset : ℕ := 16

/-- The largest `uint32_t`. -/
def kMaxU32 : ℕ := 0xFFFFFFFF

/-! ### The image -/

/-- `ImageReader`: the base of the image, and its `image_size` bytes. -/
structure ImageReader where
  imageBase : ℕ
  bytes : ByteString

/-- The `int32_t` with the bits of a `uint32_t`. -/
def toI32 (raw : ℕ) : ℤ := if raw < 2 ^ 31 then raw else (raw : ℤ) - 2 ^ 32

/-- `ImageReader::add_rva`. -/
def addRva (rva delta : ℕ) : Option ℕ :=
  if kMaxU32 - rva < delta then none else some (rva + delta)

namespace ImageReader

variable (image : ImageReader)

def range (rva size : ℕ) : Bool :=
  decide (image.imageBase ≠ 0) && inRange image.bytes.length rva size

def readU32 (rva : ℕ) : Option ℕ :=
  if image.range rva 4 then some (ofLE (slice image.bytes rva 4)) else none

def readU8 (rva : ℕ) : Option ℕ :=
  if image.range rva 1 then some (ofLE (slice image.bytes rva 1)) else none

def readI32 (rva : ℕ) : Option ℤ := (image.readU32 rva).map toI32

def rangeForCount (rva count stride : ℕ) : Bool := image.range rva (count * stride)

def rvaOf (pointer : ℕ) : Option ℕ :=
  if pointer = 0 ∨ image.imageBase = 0 ∨ pointer < image.imageBase ∨
      image.bytes.length ≤ pointer - image.imageBase ∨ kMaxU32 < pointer - image.imageBase then none
  else some (pointer - image.imageBase)

/-- The word `delta` bytes into a record. -/
def readField (rva delta : ℕ) : Option ℕ := (addRva rva delta).bind image.readU32

/-- The signed word `delta` bytes into a record. -/
def readFieldI32 (rva delta : ℕ) : Option ℤ := (addRva rva delta).bind image.readI32

/-- The byte `delta` behind the cursor. -/
def readByte (rva delta : ℕ) : Option ℕ := (addRva rva delta).bind image.readU8

end ImageReader

/-! ### FH3 -/

structure FuncInfo where
  maxState : ℤ
  unwindMap : ℕ
  tryBlockCount : ℕ
  tryBlockMap : ℕ
  ipMapCount : ℕ
  ipMap : ℕ
  ehFlags : ℕ

namespace FuncInfo

def validState (info : FuncInfo) (state : ℤ) : Bool :=
  decide (state = kInvalidState) || (decide (0 ≤ state) && decide (state < info.maxState))

/-- The number of entries of the unwind map. -/
def unwindCount (info : FuncInfo) : ℕ := info.maxState.toNat

end FuncInfo

def readFuncInfo (image : ImageReader) (rva : ℕ) : Option FuncInfo := do
  let words ← (List.range 10).mapM fun index => image.readField rva (index * 4)
  let word := fun index => words.getD index 0
  if word 0 ≠ kFuncInfoMagicV3 then none
  let info : FuncInfo :=
    { maxState := toI32 (word 1)
      unwindMap := word 2
      tryBlockCount := word 3
      tryBlockMap := word 4
      ipMapCount := word 5
      ipMap := word 6
      ehFlags := word 9 }
  if info.maxState < kInvalidState ∨ kMaxState < info.maxState ∨
      kMaxTryBlocks < info.tryBlockCount ∨ kMaxIpEntries < info.ipMapCount then none
  if image.rangeForCount info.unwindMap info.unwindCount kUnwindMapEntrySize ∧
      image.rangeForCount info.tryBlockMap info.tryBlockCount kTryBlockEntrySize ∧
      image.rangeForCount info.ipMap info.ipMapCount kIpMapEntrySize then some info
  else none

structure UnwindAction where
  toState : ℤ
  actionRva : ℕ
deriving DecidableEq

/-- An entry of the unwind map, with the checks that `validate_unwind_map` and
`read_unwind_action` share. -/
def readUnwindEntry (image : ImageReader) (info : FuncInfo) (index : ℕ) : Option UnwindAction := do
  let entry ← addRva info.unwindMap (index * kUnwindMapEntrySize)
  let toState ← image.readI32 entry
  let actionRva ← image.readField entry 4
  if info.validState toState ∧ (actionRva = kMaxU32 ∨ image.range actionRva 1) then
    some { toState, actionRva }
  else none

def validateUnwindMap (image : ImageReader) (info : FuncInfo) : Bool :=
  (List.range info.unwindCount).all fun index => (readUnwindEntry image info index).isSome

def readUnwindAction (image : ImageReader) (info : FuncInfo) (state : ℤ) : Option UnwindAction :=
  if state = kInvalidState ∨ ¬info.validState state then none
  else readUnwindEntry image info state.toNat

def readIpEntry (image : ImageReader) (info : FuncInfo) (index : ℕ) : Option (ℕ × ℤ) := do
  let entry ← addRva info.ipMap (index * kIpMapEntrySize)
  let ip ← image.readU32 entry
  let state ← image.readFieldI32 entry 4
  some (ip, state)

/-- `validate_ip_map` from the entry `index` on, behind one at `previousIp`. -/
def validateIpMapFrom (image : ImageReader) (info : FuncInfo) : ℕ → ℕ → ℕ → Bool
  | 0, _, _ => true
  | remaining + 1, index, previousIp =>
    match readIpEntry image info index with
    | none => false
    | some (ip, state) =>
      if !image.range ip 1 || !info.validState state ||
          (decide (index ≠ 0) && decide (ip < previousIp)) then false
      else validateIpMapFrom image info remaining (index + 1) ip

def validateIpMap (image : ImageReader) (info : FuncInfo) : Bool :=
  validateIpMapFrom image info info.ipMapCount 0 0

/-- The loop of `current_state`. -/
def currentStateFrom (image : ImageReader) (info : FuncInfo) (controlRva : ℕ) :
    ℕ → ℕ → ℤ → Option ℤ
  | 0, _, state => some state
  | remaining + 1, index, state =>
    match readIpEntry image info index with
    | none => none
    | some (ip, candidate) =>
      if controlRva < ip then some state
      else currentStateFrom image info controlRva remaining (index + 1) candidate

/-- `current_state`; where no entry was found the state is -1, which is valid. -/
def currentState (image : ImageReader) (info : FuncInfo) (controlRva : ℕ) : Option ℤ :=
  (currentStateFrom image info controlRva info.ipMapCount 0 kInvalidState).filter info.validState

/-- An entry of the try map. -/
structure TryBlock where
  tryLow : ℤ
  tryHigh : ℤ
  catchHigh : ℤ
  handlerCount : ℕ
  handlerMap : ℕ

def readTryBlock (image : ImageReader) (info : FuncInfo) (index : ℕ) : Option TryBlock := do
  let entry ← addRva info.tryBlockMap (index * kTryBlockEntrySize)
  let tryLow ← image.readI32 entry
  let tryHigh ← image.readFieldI32 entry 4
  let catchHigh ← image.readFieldI32 entry 8
  let handlerCount ← image.readField entry 12
  let handlerMap ← image.readField entry 16
  if !info.validState tryLow || !info.validState tryHigh || !info.validState catchHigh ||
      decide (tryHigh < tryLow) || decide (kMaxHandlersPerTry < handlerCount) ||
      !image.rangeForCount handlerMap handlerCount kHandlerMapEntrySize then none
  else some { tryLow, tryHigh, catchHigh, handlerCount, handlerMap }

/-- A clause of a handler map, with its checks: an ellipsis has no type. -/
structure Handler where
  adjectives : ℕ
  typeRva : ℕ
  handlerRva : ℕ

def Handler.catchAll (h : Handler) : Bool := h.adjectives &&& kCatchAll ≠ 0

def readHandler (image : ImageReader) (handlerMap index : ℕ) : Option Handler := do
  let handler ← addRva handlerMap (index * kHandlerMapEntrySize)
  let adjectives ← image.readU32 handler
  let typeRva ← image.readField handler 4
  let handlerRva ← image.readField handler 12
  if !image.range handlerRva 1 then none
  let h : Handler := { adjectives, typeRva, handlerRva }
  if h.catchAll ∧ typeRva ≠ 0 then none else some h

/-! ### FH4 -/

/-- A compressed number, and the cursor behind it. -/
def readFh4Unsigned (image : ImageReader) (cursor : ℕ) : Option (ℕ × ℕ) := do
  let first ← image.readU8 cursor
  let (value, length) ←
    if first % 2 = 0 then some (first >>> 1, 1)
    else if first % 4 = 1 then do
      let second ← image.readByte cursor 1
      some (first >>> 2 ||| second <<< 6, 2)
    else if first % 8 = 3 then do
      let second ← image.readByte cursor 1
      let third ← image.readByte cursor 2
      some (first >>> 3 ||| second <<< 5 ||| third <<< 13, 3)
    else if first % 16 = 7 then do
      let second ← image.readByte cursor 1
      let third ← image.readByte cursor 2
      let fourth ← image.readByte cursor 3
      some (first >>> 4 ||| second <<< 4 ||| third <<< 12 ||| fourth <<< 20, 4)
    else do
      let second ← image.readByte cursor 1
      let third ← image.readByte cursor 2
      let fourth ← image.readByte cursor 3
      let fifth ← image.readByte cursor 4
      some (second ||| third <<< 8 ||| fourth <<< 16 ||| fifth <<< 24, 5)
  if kMaxU32 - length < cursor then none else some (value, cursor + length)

/-- A displacement, and the cursor behind it. -/
def readFh4Disp (image : ImageReader) (allowZero : Bool) (cursor : ℕ) : Option (ℕ × ℕ) :=
  if kMaxU32 - 4 < cursor then none
  else do
    let raw ← image.readU32 cursor
    if toI32 raw < 0 ∨ (!allowZero ∧ raw = 0) then none
    else if raw = 0 ∨ image.range raw 1 then some (raw, cursor + 4)
    else none

/-- A field that is there only under a flag. -/
def readIf (present : Bool) (read : ℕ → Option (ℕ × ℕ)) (cursor : ℕ) : Option (ℕ × ℕ) :=
  if present then read cursor else some (0, cursor)

/-- So many records one behind the other. -/
def readMany {α : Type} (read : ℕ → Option (α × ℕ)) : ℕ → ℕ → Option (List α × ℕ)
  | 0, cursor => some ([], cursor)
  | count + 1, cursor => do
    let (a, cursor) ← read cursor
    let (rest, cursor) ← readMany read count cursor
    some (a :: rest, cursor)

structure Fh4FuncInfo where
  header : ℕ
  unwindMap : ℕ
  tryBlockMap : ℕ
  ipMap : ℕ
  frame : ℕ
  functionBegin : ℕ

def readFh4Segments (image : ImageReader) (functionBegin : ℕ) : ℕ → ℕ → ℕ → Option ℕ
  | 0, _, ipMap => some ipMap
  | remaining + 1, cursor, ipMap => do
    let (segmentBegin, cursor) ← readFh4Disp image false cursor
    let (segmentIpMap, cursor) ← readFh4Disp image false cursor
    readFh4Segments image functionBegin remaining cursor
      (if segmentBegin = functionBegin then segmentIpMap else ipMap)

/-- The IP map of a `FuncInfo`, and the cursor behind its field. -/
def readFh4IpMap (image : ImageReader) (header functionBegin cursor : ℕ) : Option (ℕ × ℕ) :=
  if header &&& 0x02 ≠ 0 then do
    let (segmentMap, cursor) ← readFh4Disp image false cursor
    let (segmentCount, segmentCursor) ← readFh4Unsigned image segmentMap
    if kMaxFh4Segments < segmentCount then none
    let ipMap ← readFh4Segments image functionBegin segmentCount segmentCursor 0
    some (ipMap, cursor)
  else readFh4Disp image true cursor

def readFh4FuncInfo (image : ImageReader) (rva functionBegin : ℕ) : Option Fh4FuncInfo := do
  let header ← image.readU8 rva
  if header &&& 0x80 ≠ 0 then none
  let cursor ← addRva rva 1
  let (_, cursor) ← readIf (header &&& 0x04 ≠ 0) (readFh4Unsigned image) cursor
  let (unwindMap, cursor) ← readIf (header &&& 0x08 ≠ 0) (readFh4Disp image true) cursor
  let (tryBlockMap, cursor) ← readIf (header &&& 0x10 ≠ 0) (readFh4Disp image true) cursor
  let (ipMap, cursor) ← readFh4IpMap image header functionBegin cursor
  let (frame, _) ← readIf (header &&& 0x01 ≠ 0) (readFh4Unsigned image) cursor
  some { header, unwindMap, tryBlockMap, ipMap, frame, functionBegin }

/-- An entry of the unwind map; `nextState` is absent for -1. -/
structure Fh4UnwindEntry where
  entryRva : ℕ
  nextOffset : ℕ
  actionRva : ℕ
  object : ℕ
  nextState : Option ℕ
  type : ℕ
deriving DecidableEq

/-- An entry as the first pass of `read_fh4_unwind_map` reads it. -/
def readFh4UnwindEntry (image : ImageReader) (cursor : ℕ) : Option (Fh4UnwindEntry × ℕ) := do
  let (encoded, after) ← readFh4Unsigned image cursor
  let type := encoded &&& 0x03
  let (actionRva, after) ← readIf (type ≠ 0) (readFh4Disp image false) after
  let (object, after) ← readIf (type = 1 ∨ type = 2) (readFh4Unsigned image) after
  some ({ entryRva := cursor, nextOffset := encoded >>> 2, actionRva, object,
          nextState := none, type }, after)

/-- The second pass: an offset that leads before the entries is the end of a chain, and any
other leads to an entry before this one. -/
def fh4NextState (entriesBegin : ℕ) (entries : List Fh4UnwindEntry) (index : ℕ)
    (entry : Fh4UnwindEntry) : Option (Option ℕ) :=
  if entry.entryRva - entriesBegin < entry.nextOffset then some none
  else ((entries.take index).findIdx? fun previous =>
    previous.entryRva = entry.entryRva - entry.nextOffset).map some

def readFh4UnwindMap (image : ImageReader) (mapRva : ℕ) : Option (List Fh4UnwindEntry) := do
  let (count, cursor) ← readFh4Unsigned image mapRva
  if kMaxFh4Entries < count then none
  else do
    let (entries, _) ← readMany (readFh4UnwindEntry image) count cursor
    entries.zipIdx.mapM fun (entry, index) =>
      (fh4NextState cursor entries index entry).map fun nextState =>
        { entry with nextState := nextState }

structure Fh4TryBlock where
  tryLow : ℕ
  tryHigh : ℕ
  catchHigh : ℕ
  handlerMap : ℕ
deriving DecidableEq

def readFh4TryBlock (image : ImageReader) (cursor : ℕ) : Option (Fh4TryBlock × ℕ) := do
  let (tryLow, cursor) ← readFh4Unsigned image cursor
  let (tryHigh, cursor) ← readFh4Unsigned image cursor
  let (catchHigh, cursor) ← readFh4Unsigned image cursor
  let (handlerMap, cursor) ← readFh4Disp image true cursor
  if tryHigh < tryLow ∨ catchHigh < tryHigh then none
  else some ({ tryLow, tryHigh, catchHigh, handlerMap }, cursor)

def readFh4TryBlockMap (image : ImageReader) (mapRva : ℕ) : Option (List Fh4TryBlock) := do
  let (count, cursor) ← readFh4Unsigned image mapRva
  if kMaxFh4TryBlocks < count then none
  else (readMany (readFh4TryBlock image) count cursor).map Prod.fst

/-- An entry of the IP map behind one at `ipOffset`: its offset, and its state. -/
def readFh4IpEntry (image : ImageReader) (ipOffset cursor : ℕ) : Option ((ℕ × ℤ) × ℕ) := do
  let (delta, cursor) ← readFh4Unsigned image cursor
  if kMaxU32 - ipOffset < delta then none
  else do
    let (encodedState, cursor) ← readFh4Unsigned image cursor
    if kMaxFh4Entries < encodedState then none
    else do
      let candidate : ℤ := if encodedState = 0 then kInvalidState else encodedState - 1
      if kMaxFh4Entries ≤ candidate then none else some ((ipOffset + delta, candidate), cursor)

/-- The loop of `read_fh4_ip_state`. -/
def fh4IpStateFrom (image : ImageReader) (controlOffset : ℕ) : ℕ → ℕ → ℕ → ℤ → Option ℤ
  | 0, _, _, state => some state
  | remaining + 1, cursor, ipOffset, state => do
    let ((ipOffset, candidate), cursor) ← readFh4IpEntry image ipOffset cursor
    fh4IpStateFrom image controlOffset remaining cursor ipOffset
      (if ipOffset ≤ controlOffset then candidate else state)

/-- `read_fh4_ip_state`; its last check holds of every state that the loop gives. -/
def readFh4IpState (image : ImageReader) (info : Fh4FuncInfo) (controlRva : ℕ) : Option ℤ :=
  if info.ipMap = 0 then some kInvalidState
  else if controlRva < info.functionBegin then none
  else do
    let (count, cursor) ← readFh4Unsigned image info.ipMap
    if kMaxFh4Entries < count then none
    else fh4IpStateFrom image (controlRva - info.functionBegin) count cursor 0 kInvalidState

structure Fh4Handler where
  adjectives : ℕ
  typeRva : ℕ
  catchObject : ℕ
  handlerRva : ℕ
  continuationRvas : List ℕ
  hasType : Bool
  hasCatchObject : Bool
deriving DecidableEq

/-- A place where the code goes on behind the catch. -/
def readFh4Continuation (image : ImageReader) (isRva : Bool) (functionBegin cursor : ℕ) :
    Option (ℕ × ℕ) :=
  if isRva then readFh4Disp image false cursor
  else do
    let (continuation, cursor) ← readFh4Unsigned image cursor
    if kMaxU32 - functionBegin < continuation then none
    if image.range (continuation + functionBegin) 1 then some (continuation + functionBegin, cursor)
    else none

def readFh4Handler (image : ImageReader) (functionBegin cursor : ℕ) :
    Option (Fh4Handler × ℕ) := do
  let header ← image.readU8 cursor
  if header &&& 0xC0 ≠ 0 ∨ header >>> 4 &&& 0x03 = 0x03 then none
  else do
    let cursor ← addRva cursor 1
    let hasType : Bool := header &&& 0x02 ≠ 0
    let hasCatchObject : Bool := header &&& 0x04 ≠ 0
    let (adjectives, cursor) ← readIf (header &&& 0x01 ≠ 0) (readFh4Unsigned image) cursor
    let (typeRva, cursor) ← readIf hasType (readFh4Disp image false) cursor
    let (catchObject, cursor) ← readIf hasCatchObject (readFh4Unsigned image) cursor
    let (handlerRva, cursor) ← readFh4Disp image false cursor
    let (continuationRvas, cursor) ←
      readMany (readFh4Continuation image (header &&& 0x08 ≠ 0) functionBegin)
        (header >>> 4 &&& 0x03) cursor
    some ({ adjectives, typeRva, catchObject, handlerRva, continuationRvas, hasType,
            hasCatchObject }, cursor)

/-! ### The thrown object -/

structure CatchableType where
  properties : ℕ := 0
  typeRva : ℕ := 0
  memberDisplacement : ℤ := 0
  vbptrDisplacement : ℤ := -1
  vbaseDisplacement : ℤ := 0
  sizeOrOffset : ℕ := 0
  copyFunction : ℕ := 0
deriving DecidableEq

def readCatchableType (image : ImageReader) (rva : ℕ) : Option CatchableType :=
  if !image.range rva kCatchableTypeSize then none
  else do
    let properties ← image.readU32 rva
    let typeRva ← image.readField rva 4
    let memberDisplacement ← image.readFieldI32 rva 8
    let vbptrDisplacement ← image.readFieldI32 rva 12
    let vbaseDisplacement ← image.readFieldI32 rva 16
    let sizeOrOffset ← image.readField rva 20
    let copyFunction ← image.readField rva 24
    if !image.range typeRva (kTypeDescriptorNameOffset + 1) ∨
        (copyFunction ≠ 0 ∧ !image.range copyFunction 1) ∨ 2 ^ 31 ≤ sizeOrOffset then none
    else
      some { properties, typeRva, memberDisplacement, vbptrDisplacement, vbaseDisplacement,
             sizeOrOffset, copyFunction }

/-- The array of catchable types of the exception: its first entry, and their number. -/
def catchableArray (image : ImageReader) (record : ExceptionRecordAmd64) : Option (ℕ × ℕ) := do
  if record.parameterCount < 3 then none
  let throwInfo ← image.rvaOf (record.parameters.getD 2 0).toNat
  if !image.range throwInfo kThrowInfoSize then none
  let array ← image.readField throwInfo 12
  if !image.range array 4 then none
  let count ← image.readU32 array
  if kMaxCatchableTypes < count then none
  let entries ← addRva array 4
  if image.rangeForCount entries count 4 then some (entries, count) else none

/-- The type `index` of the array. -/
def readCatchableEntry (image : ImageReader) (entries index : ℕ) : Option CatchableType :=
  (image.readField entries (index * 4)).bind (readCatchableType image)

/-- The loop of `find_thrown_catchable`. -/
def findCatchableFrom (image : ImageReader) (entries handlerTypeRva : ℕ) :
    ℕ → ℕ → Option CatchableType
  | 0, _ => none
  | remaining + 1, index =>
    match readCatchableEntry image entries index with
    | none => none
    | some candidate =>
      if candidate.typeRva = handlerTypeRva then some candidate
      else findCatchableFrom image entries handlerTypeRva remaining (index + 1)

def findThrownCatchable (image : ImageReader) (record : ExceptionRecordAmd64)
    (handlerTypeRva : ℕ) : Option CatchableType := do
  let (entries, count) ← catchableArray image record
  findCatchableFrom image entries handlerTypeRva count 0

end TradutorLinux.Runtime
