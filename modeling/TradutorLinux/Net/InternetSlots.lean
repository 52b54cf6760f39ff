import Mathlib.Data.List.Infix
import TradutorLinux.Process.GuestStrings
import TradutorLinux.Process.Unicode
import TradutorLinux.Runtime.ErrorMap
import TradutorLinux.Util.Basics
import TradutorLinux.Util.Runs

/-!
# The handles of WinINet

Sessions, connections and requests share one table of slots; a connection keeps
the slot of its session and a request that of its connection.  Every call holds
the one mutex, so that a run is a list of calls.

## Main definitions

* `InternetSlot`
* `descendantOfLocked`, `rootSessionLocked`, `effectiveTimeoutLocked` — the walks
  along the parents; nothing when a walk does not end.
* `parseHeaders`, `mergeHeaders`
* `InternetCall`, `InternetSlots.step` — the calls.
-/

namespace TradutorLinux.WinInet

open Function

open TradutorLinux.Runtime (kErrorSuccess kErrorInvalidHandle kErrorNotEnoughMemory
  kErrorInvalidParameter)
open Process (GuestPointer copyGuestString wideToUtf8)

def kInternetHandleBase : ℕ := 0x0000B10000000000
def kMaxInternetHandles : ℕ := 256
def kMaxUrlLength : ℕ := 4096
def kMaxHeaderLength : ℕ := 16 * 1024
def kMaxBodyLength : ℕ := 16 * 1024 * 1024
def kInternetOpenTypeDirect : UInt32 := 1
def kInternetServiceHttp : UInt32 := 3
def kInternetFlagSecure : UInt32 := 0x00800000
def kHttpAddReqFlagAdd : UInt32 := 0x20000000
def kHttpAddReqFlagReplace : UInt32 := 0x80000000
def kHttpAddReqFlagAddIfNew : UInt32 := 0x10000000
def kErrorNotSupported : UInt32 := 50
def kErrorInternetInvalidOperation : UInt32 := 12016
def kErrorInternetIncorrectHandleType : UInt32 := 12018
def kErrorInternetNameNotResolved : UInt32 := 12007

inductive HandleKind
  | session
  | connection
  | request
deriving DecidableEq

structure Header where
  name : ByteString
  value : ByteString
deriving DecidableEq

/-- A slot of the table; `parent` is absent for `kNpos`. -/
structure InternetSlot where
  used : Bool := false
  kind : HandleKind := .session
  parent : Option ℕ := none
  userAgent : ByteString := []
  host : ByteString := []
  port : UInt16 := 0
  method : ByteString := text "GET"
  objectName : ByteString := text "/"
  headers : List Header := []
  body : ByteString := []
  responseBody : ByteString := []
  rawResponseHeaders : ByteString := []
  statusCode : UInt32 := 0
  connectTimeoutMs : UInt32 := 30000
  sendTimeoutMs : UInt32 := 30000
  receiveTimeoutMs : UInt32 := 30000
  secure : Bool := false
  sent : Bool := false
deriving DecidableEq

/-- The table; only its first `kMaxInternetHandles` slots are ever used. -/
abbrev InternetSlots := ℕ → InternetSlot

/-- The table at the start. -/
def noSlots : InternetSlots := fun _ => {}

/-- What a call returns, a handle or a flag, and the last error. -/
structure InternetReply where
  value : ℕ
  lastError : UInt32
deriving DecidableEq

/-! ### Strings -/

/-- `copy_wide`. -/
def copyWide (source : GuestPointer UInt16) (length : ℕ) : Option ByteString :=
  if source.address = 0 ∨ kMaxUrlLength < length ∨ source.mapped.length < length then none
  else
    let result := wideToUtf8 (source.mapped.take length)
    if result.length ≤ kMaxUrlLength then some result else none

/-- `copy_wide_z`. -/
def copyWideZ (source : GuestPointer UInt16) : Option ByteString := do
  let copy ← copyGuestString source kMaxUrlLength
  let result := wideToUtf8 copy
  if result.length ≤ kMaxUrlLength then some result else none

def lowerAscii (value : ByteString) : ByteString := value.map tolower

def isLoopbackHost (host : ByteString) : Bool :=
  decide (host = text "localhost") || decide (host = text "127.0.0.1")

/-- `parse_object_name`. -/
def parseObjectName (input : ByteString) : Option ByteString :=
  if input = [] ∨ kMaxUrlLength < input.length ∨ input.head? ≠ some 0x2F ∨ 0x23 ∈ input ∨
      text "://" <:+: input then none
  else some input

/-! ### Handles -/

def handleValue (index : ℕ) : ℕ := kInternetHandleBase + index

def handleIndex (handle : ℕ) : Option ℕ :=
  if handle < kInternetHandleBase ∨ kInternetHandleBase + kMaxInternetHandles ≤ handle then none
  else some (handle - kInternetHandleBase)

namespace InternetSlots

variable (slots : InternetSlots)

def findHandleLocked (handle : ℕ) : Option ℕ :=
  (handleIndex handle).filter fun index => (slots index).used

def firstFree : Option ℕ := (List.range kMaxInternetHandles).find? fun index => !(slots index).used

/-- `allocate_handle_locked`, which is given the new contents of the slot. -/
def allocateHandleLocked (slot : InternetSlot) : Option (InternetSlots × ℕ) :=
  slots.firstFree.map fun index => (update slots index slot, index)

/-- The loop of `descendant_of_locked`; a walk that comes to no slot twice has no more than
`fuel` steps. -/
def descendantOfLocked (ancestor : ℕ) : ℕ → Option ℕ → Option Bool
  | 0, _ => none
  | _ + 1, none => some false
  | fuel + 1, some candidate =>
    if candidate = ancestor then some true
    else descendantOfLocked ancestor fuel (slots candidate).parent

/-- The loop of `root_session_locked`. -/
def rootSessionLocked : ℕ → ℕ → Option ℕ
  | 0, _ => none
  | fuel + 1, index =>
    match (slots index).parent with
    | none => some index
    | some parent => rootSessionLocked fuel parent

/-- The loop of `effective_timeout_locked`. -/
def effectiveTimeoutLocked (member : InternetSlot → UInt32) : ℕ → ℕ → Option UInt32
  | 0, _ => none
  | fuel + 1, index =>
    if member (slots index) ≠ 0 then some (member (slots index))
    else match (slots index).parent with
      | none => some 30000
      | some parent => effectiveTimeoutLocked member fuel parent

/-- More steps than there are slots. -/
def kWalk : ℕ := kMaxInternetHandles + 1

/-- `find_handle_locked` for a handle of one kind. -/
def findKind (handle : ℕ) (kind : HandleKind) : Option ℕ :=
  (slots.findHandleLocked handle).filter fun index => decide ((slots index).kind = kind)

end InternetSlots

/-! ### The calls that open and close -/

/-- A pointer argument that may be null. -/
def given {α : Type} (p : GuestPointer α) : Bool := decide (p.address ≠ 0)

/-- The arguments of `InternetOpenW`. -/
structure OpenArgs where
  userAgent : GuestPointer UInt16
  accessType : UInt32
  proxyName : GuestPointer UInt16
  proxyBypass : GuestPointer UInt16
  flags : UInt32

/-- `tl_InternetOpenW`. -/
def internetOpen (slots : InternetSlots) (a : OpenArgs) : InternetSlots × InternetReply :=
  let agent? := if given a.userAgent then copyWideZ a.userAgent else some []
  match agent? with
  | none => (slots, ⟨0, kErrorInvalidParameter⟩)
  | some agent =>
    if a.accessType ≠ kInternetOpenTypeDirect ∨ given a.proxyName ∨ given a.proxyBypass ∨
        a.flags ≠ 0 then
      (slots, ⟨0, kErrorInvalidParameter⟩)
    else match slots.allocateHandleLocked { used := true, kind := .session, userAgent := agent } with
      | none => (slots, ⟨0, kErrorNotEnoughMemory⟩)
      | some (slots', index) => (slots', ⟨handleValue index, kErrorSuccess⟩)

/-- The arguments of `InternetConnectW`. -/
structure ConnectArgs where
  internet : ℕ
  serverName : GuestPointer UInt16
  serverPort : UInt16
  userName : GuestPointer UInt16
  password : GuestPointer UInt16
  service : UInt32
  flags : UInt32
  context : UInt64

/-- `tl_InternetConnectW`. -/
def internetConnect (slots : InternetSlots) (a : ConnectArgs) : InternetSlots × InternetReply :=
  match copyWideZ a.serverName with
  | none => (slots, ⟨0, kErrorInternetNameNotResolved⟩)
  | some server =>
    if !isLoopbackHost (lowerAscii server) ∨ a.serverPort = 0 ∨ a.service ≠ kInternetServiceHttp ∨
        a.flags ≠ 0 ∨ a.context ≠ 0 ∨ given a.userName ∨ given a.password then
      (slots, ⟨0, kErrorInternetNameNotResolved⟩)
    else match slots.findKind a.internet .session with
      | none => (slots, ⟨0, kErrorInternetIncorrectHandleType⟩)
      | some parent =>
        match slots.allocateHandleLocked { used := true, kind := .connection, parent := some parent,
                                           host := lowerAscii server, port := a.serverPort } with
        | none => (slots, ⟨0, kErrorNotEnoughMemory⟩)
        | some (slots', index) => (slots', ⟨handleValue index, kErrorSuccess⟩)

/-- The arguments of `HttpOpenRequestW`. -/
structure RequestArgs where
  connect : ℕ
  verb : GuestPointer UInt16
  objectName : GuestPointer UInt16
  version : GuestPointer UInt16
  referrer : GuestPointer UInt16
  acceptTypes : GuestPointer UInt64
  flags : UInt32
  context : UInt64

/-- What `HttpOpenRequestW` makes of its strings: the method and the object. -/
def RequestArgs.parse (a : RequestArgs) : Option (ByteString × ByteString) := do
  let method ← if given a.verb then copyWideZ a.verb else some (text "GET")
  let object ← copyWideZ a.objectName
  let version ← if given a.version then copyWideZ a.version else some (text "HTTP/1.1")
  if 8 < method.length ∨ version ≠ text "HTTP/1.1" ∨ given a.referrer ∨ given a.acceptTypes ∨
      a.context ≠ 0 ∨ a.flags ≠ kInternetFlagSecure ∨
      ¬(method = text "GET" ∨ method = text "HEAD" ∨ method = text "POST") then none
  else (parseObjectName object).map fun object => (method, object)

/-- `tl_HttpOpenRequestW`. -/
def httpOpenRequest (slots : InternetSlots) (a : RequestArgs) : InternetSlots × InternetReply :=
  match a.parse with
  | none => (slots, ⟨0, kErrorInvalidParameter⟩)
  | some (method, object) =>
    match slots.findKind a.connect .connection with
    | none => (slots, ⟨0, kErrorInternetIncorrectHandleType⟩)
    | some parent =>
      match slots.allocateHandleLocked { used := true, kind := .request, parent := some parent,
                                         method := method, objectName := object,
                                         secure := true } with
      | none => (slots, ⟨0, kErrorNotEnoughMemory⟩)
      | some (slots', index) => (slots', ⟨handleValue index, kErrorSuccess⟩)

/-- One round of the loop of `tl_InternetCloseHandle`. -/
def closeSlot (ancestor : ℕ) (slots : InternetSlots) (index : ℕ) : Option InternetSlots :=
  if (slots index).used then
    (slots.descendantOfLocked ancestor InternetSlots.kWalk (some index)).map fun below =>
      if below then update slots index {} else slots
  else some slots

/-- The first `count` rounds. -/
def closeSlots (ancestor : ℕ) (slots : InternetSlots) : ℕ → Option InternetSlots
  | 0 => some slots
  | count + 1 => (closeSlots ancestor slots count).bind fun s => closeSlot ancestor s count

/-- `tl_InternetCloseHandle`. -/
def internetCloseHandle (slots : InternetSlots) (internet : ℕ) :
    Option (InternetSlots × InternetReply) :=
  match slots.findHandleLocked internet with
  | none => some (slots, ⟨0, kErrorInvalidHandle⟩)
  | some index =>
    (closeSlots index slots kMaxInternetHandles).map fun slots' => (slots', ⟨1, kErrorSuccess⟩)

/-! ### The headers of a request -/

/-- `valid_header_token`. -/
def validHeaderToken (token : ByteString) : Bool :=
  !token.isEmpty && token.all fun c => !(decide (c ≤ 0x20) || decide (0x7F ≤ c) ||
    decide (c = 0x3A) || decide (c = 0x0D) || decide (c = 0x0A))

/-- `prohibited_header`. -/
def prohibitedHeader (name : ByteString) : Bool :=
  let lower := lowerAscii name
  decide (lower = text "cookie") || decide (lower = text "authorization") ||
    (text "proxy-").isPrefixOf lower || decide (lower = text "host")

/-- The lines of a text, which end with CR LF; the last may do so or not. -/
def headerLines (current : ByteString) : ByteString → List ByteString
  | [] => if current = [] then [] else [current]
  | [c] => [current ++ [c]]
  | c :: d :: rest =>
    if c = 0x0D ∧ d = 0x0A then current :: headerLines [] rest
    else headerLines (current ++ [c]) (d :: rest)

def parseHeaderLine (line : ByteString) : Option Header := do
  let colon ← line.idxOf? 0x3A
  let name := line.take colon
  if !validHeaderToken name || prohibitedHeader name then none
  else
    let value := (line.drop (colon + 1)).dropWhile (· = 0x20)
    if value.any fun c => decide (c < 0x20) && decide (c ≠ 0x09) then none
    else some { name, value }

/-- `parse_headers`. -/
def parseHeaders (input : ByteString) : Option (List Header) :=
  if kMaxHeaderLength < input.length then none
  else ((headerLines [] input).mapM parseHeaderLine).filter fun output => !output.isEmpty

def Header.sameName (h h' : Header) : Bool := decide (lowerAscii h.name = lowerAscii h'.name)

/-- One round of the loop of `merge_headers`. -/
def mergeHeader (mode : UInt32) (headers : List Header) (header : Header) : List Header :=
  match headers.findIdx? fun candidate => candidate.sameName header with
  | none => headers ++ [header]
  | some index =>
    if mode = kHttpAddReqFlagReplace then headers.set index header
    else if mode = kHttpAddReqFlagAdd then headers ++ [header]
    else if mode = kHttpAddReqFlagAddIfNew then headers
    else headers.set index header

def kHttpAddReqFlags : UInt32 :=
  kHttpAddReqFlagAdd ||| kHttpAddReqFlagReplace ||| kHttpAddReqFlagAddIfNew

/-- `merge_headers`, on the headers of the request. -/
def mergeHeaders (headers : List Header) (input : ByteString) (modifiers : UInt32) :
    Option (List Header) := do
  let parsed ← parseHeaders input
  if modifiers &&& ~~~kHttpAddReqFlags ≠ 0 then none
  else some (parsed.foldl (mergeHeader (modifiers &&& kHttpAddReqFlags)) headers)

/-- The arguments of `HttpAddRequestHeadersW`. -/
structure HeadersArgs where
  request : ℕ
  headers : GuestPointer UInt16
  headersLength : ℤ
  modifiers : UInt32

def HeadersArgs.text (a : HeadersArgs) : Option ByteString :=
  if !given a.headers ∨ a.headersLength = 0 ∨ a.headersLength < -1 ∨
      kMaxHeaderLength < a.headersLength then none
  else if a.headersLength = -1 then copyWideZ a.headers
  else copyWide a.headers a.headersLength.toNat

/-- `tl_HttpAddRequestHeadersW`. -/
def httpAddRequestHeaders (slots : InternetSlots) (a : HeadersArgs) :
    InternetSlots × InternetReply :=
  match a.text with
  | none => (slots, ⟨0, kErrorInvalidParameter⟩)
  | some text =>
    match slots.findKind a.request .request with
    | none => (slots, ⟨0, kErrorInternetIncorrectHandleType⟩)
    | some index =>
      match mergeHeaders (slots index).headers text a.modifiers with
      | none => (slots, ⟨0, kErrorNotSupported⟩)
      | some headers =>
        (update slots index { slots index with headers := headers }, ⟨1, kErrorSuccess⟩)

/-- What the transport comes back with: an error, or a response. -/
inductive Transport
  | error (lastError : UInt32)
  | response (status : UInt32) (rawHeaders body : ByteString)

/-- The arguments of `HttpSendRequestW`, whether there is memory for the body, and what the
transport comes back with. -/
structure SendArgs where
  request : ℕ
  optionalHeaders : GuestPointer UInt16
  optionalHeadersLength : UInt32
  optionalData : GuestPointer UInt8
  optionalDataLength : UInt32
  memory : Bool
  transport : Transport

/-- The text of the headers, and the checks of the lengths. -/
def SendArgs.text (a : SendArgs) : Option ByteString :=
  if (a.optionalHeadersLength ≠ 0 ∧ !given a.optionalHeaders) ∨
      kMaxHeaderLength < a.optionalHeadersLength.toNat ∨
      kMaxBodyLength < a.optionalDataLength.toNat ∨
      (a.optionalDataLength ≠ 0 ∧ !given a.optionalData) then none
  else if a.optionalHeadersLength = 0 then some []
  else copyWide a.optionalHeaders a.optionalHeadersLength.toNat

def SendArgs.body (a : SendArgs) : Except UInt32 ByteString :=
  if a.optionalDataLength = 0 then .ok []
  else if !a.memory then .error kErrorNotEnoughMemory
  else if a.optionalData.mapped.length < a.optionalDataLength.toNat then
    .error kErrorInvalidParameter
  else .ok (a.optionalData.mapped.take a.optionalDataLength.toNat)

/-- `perform_request_locked`, on the slot of the request. -/
def performRequestLocked (request : InternetSlot) : Transport → InternetSlot × InternetReply
  | .error lastError => (request, ⟨0, lastError⟩)
  | .response status rawHeaders body =>
    ({ request with rawResponseHeaders := rawHeaders, responseBody := body, statusCode := status,
                    sent := true }, ⟨1, kErrorSuccess⟩)

/-- The session of the request is found, and so are its timeouts. -/
def InternetSlots.walksEnd (slots : InternetSlots) (index : ℕ) : Bool :=
  ((slots index).parent.bind (slots.rootSessionLocked kWalk)).isSome &&
    [InternetSlot.connectTimeoutMs, InternetSlot.sendTimeoutMs,
      InternetSlot.receiveTimeoutMs].all fun member =>
        (slots.effectiveTimeoutLocked member kWalk index).isSome

/-- `tl_HttpSendRequestW` from the optional headers on; nothing when a walk does not end. -/
def sendRequest (request : InternetSlot) (text : ByteString) (a : SendArgs) (ends : Bool) :
    Option (InternetSlot × InternetReply) :=
  let merged := if text = [] then some request.headers
    else mergeHeaders request.headers text kHttpAddReqFlagAdd
  match merged with
  | none => some (request, ⟨0, kErrorNotSupported⟩)
  | some headers =>
    let request := { request with headers := headers, body := [] }
    match a.body with
    | .error lastError => some (request, ⟨0, lastError⟩)
    | .ok body =>
      if ends then some (performRequestLocked { request with body := body } a.transport) else none

/-- `tl_HttpSendRequestW`. -/
def httpSendRequest (slots : InternetSlots) (a : SendArgs) :
    Option (InternetSlots × InternetReply) :=
  match a.text with
  | none => some (slots, ⟨0, kErrorInvalidParameter⟩)
  | some text =>
    match slots.findKind a.request .request with
    | none => some (slots, ⟨0, kErrorInternetIncorrectHandleType⟩)
    | some index =>
      if (slots index).sent then some (slots, ⟨0, kErrorInternetInvalidOperation⟩)
      else (sendRequest (slots index) text a (slots.walksEnd index)).map fun (request, reply) =>
        (update slots index request, reply)

/-! ### Runs -/

inductive InternetCall
  | openSession (args : OpenArgs)
  | connect (args : ConnectArgs)
  | openRequest (args : RequestArgs)
  | addHeaders (args : HeadersArgs)
  | send (args : SendArgs)
  | closeHandle (internet : ℕ)

/-- The table after a call, and what it returns; nothing when the call does not end. -/
def InternetSlots.call (slots : InternetSlots) :
    InternetCall → Option (InternetSlots × InternetReply)
  | .openSession a => some (internetOpen slots a)
  | .connect a => some (internetConnect slots a)
  | .openRequest a => some (httpOpenRequest slots a)
  | .addHeaders a => some (httpAddRequestHeaders slots a)
  | .send a => httpSendRequest slots a
  | .closeHandle internet => internetCloseHandle slots internet

def InternetSlots.step (slots : InternetSlots) (c : InternetCall) : Option InternetSlots :=
  (slots.call c).map Prod.fst

def nullPointer {α : Type} : GuestPointer α := ⟨0, []⟩

def guestString (s : String) : GuestPointer UInt16 :=
  ⟨4096, (s.toList.map fun c => UInt16.ofNat c.toNat) ++ [0]⟩

/-- The calls of a program that opens a session, a connection and a request. -/
def openedRequest : List InternetCall :=
  [.openSession ⟨nullPointer, kInternetOpenTypeDirect, nullPointer, nullPointer, 0⟩,
    .connect ⟨handleValue 0, guestString "localhost", 443, nullPointer, nullPointer,
      kInternetServiceHttp, 0, 0⟩,
    .openRequest ⟨handleValue 1, nullPointer, guestString "/", nullPointer, nullPointer,
      nullPointer, kInternetFlagSecure, 0⟩]

end TradutorLinux.WinInet
