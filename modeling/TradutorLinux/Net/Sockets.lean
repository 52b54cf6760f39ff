import Mathlib.Algebra.Group.Nat.Defs
import Mathlib.Data.Int.Notation
import TradutorLinux.Util.FreeEntries
import TradutorLinux.Util.Runs

/-!
# The sockets of WS2_32

The table `g_sockets` of `net/ws2_32.cpp`, the calls that use it, and the
kernel's descriptors below it.  A call of `tl_send` and its like has three steps:
under `g_sockets_mutex` it looks its handle up and copies the descriptor and the
generation; without the mutex it makes its system call on the copy; under the
mutex again it publishes to the slot, if the handle still has that generation.
A thread may be between any two of them while others go on.

The kernel gives out the lowest free descriptor.  Every opening of a descriptor is
an instance of its own, and a socket is the instance it was made for: `lives`
says which socket a slot holds, and `journal` what has happened to it.  Nothing
in the source reads these two.

The return values, `g_wsa_last_error` and the traces are left out, and what the
guest's buffers and addresses hold: a call is refused or fails as its action says.

## Main definitions

* `SocketSlot`, `Winsock` — a slot; the table, the kernel and the calls.
* `Winsock.step` — every step of every call.
-/

namespace TradutorLinux
namespace Winsock

/-! ### Events -/

/-- The bits of `kSupportedNetworkEvents`. -/
inductive NetEvent
  | read
  | write
  | oob
  | accept
  | connect
  | close
deriving DecidableEq

/-- The place of `kFdRead` (1) to `kFdClose` (0x20). -/
def NetEvent.bit : NetEvent → ℕ
  | read => 0
  | write => 1
  | oob => 2
  | accept => 3
  | connect => 4
  | close => 5

abbrev EventMask := NetEvent → Bool

def noEvents : EventMask := fun _ => false

def eventMask (events : ℤ) : EventMask := fun e => events.toNat.testBit e.bit

/-- `events >= 0` and no bit outside `kSupportedNetworkEvents`. -/
def supportedEvents (events : ℤ) : Bool := 0 ≤ events && events < 64

namespace EventMask

def any (m : EventMask) : Bool :=
  m .read || m .write || m .oob || m .accept || m .connect || m .close

theorem any_of {m : EventMask} {e : NetEvent} (h : m e) : any m := by
  cases e <;> simp [any, h]

end EventMask

/-! ### Slots -/

def kSockStream : ℤ := 1
def kSockDgram : ℤ := 2
def kSocketHandleBase : ℕ := 0xB00000000000
def kSocketSlots : ℕ := 256
def kWsaENotSocket : ℕ := 10038

/-- A slot of `g_sockets`; a `fd` of -1 is `none`, a null pointer 0. -/
structure SocketSlot where
  used : Bool := false
  fd : Option ℕ := none
  type : ℤ := 0
  generation : UInt32 := 0
  listening : Bool := false
  connecting : Bool := false
  eventHandle : ℕ := 0
  networkEvents : EventMask := noEvents
  asyncWindow : ℕ := 0
  asyncMessage : ℕ := 0
  asyncEvents : EventMask := noEvents
  asyncNotifiedEvents : EventMask := noEvents

/-- `clear_async_notification`. -/
def SocketSlot.clearAsyncNotification (slot : SocketSlot) (events : EventMask) : SocketSlot :=
  { slot with asyncNotifiedEvents := fun e => slot.asyncNotifiedEvents e && !events e }

/-- What `tl_PostMessageA` is called with. -/
structure AsyncMessage where
  window : ℕ
  message : ℕ
  wparam : ℕ
  lparam : ℕ
  event : NetEvent
deriving DecidableEq

/-- `packed_lparam`: the error in the high word, the event in the low one. -/
def packedLparam (event : NetEvent) (error : ℕ) : ℕ := error % 2 ^ 16 * 2 ^ 16 + 2 ^ event.bit

/-- `post_async_event_locked`, on the slot and the messages posted so far. -/
def postAsyncEvent (handle : ℕ) (r : SocketSlot × List AsyncMessage) (attempt : NetEvent × ℕ) :
    SocketSlot × List AsyncMessage :=
  let (slot, messages) := r
  let (event, error) := attempt
  if slot.asyncWindow = 0 ∨ slot.asyncEvents event = false ∨
      slot.asyncNotifiedEvents event = true then r
  else
    ({ slot with
        asyncNotifiedEvents := fun e => slot.asyncNotifiedEvents e || decide (e = event) },
      messages ++ [⟨slot.asyncWindow, slot.asyncMessage, handle, packedLparam event error, event⟩])

/-- What the kernel has to say about a socket: `revents` of `poll`, had it been asked for
everything, whether a peek finds the end of the stream, and `SO_ERROR` as a WinSock error. -/
structure Readiness where
  readable : Bool := false
  writable : Bool := false
  urgent : Bool := false
  error : Bool := false
  hangup : Bool := false
  invalid : Bool := false
  eof : Bool := false
  soError : ℕ := 0

/-- `descriptor.revents`: `POLLIN`, `POLLOUT` and `POLLPRI` only if the mask asks for them. -/
def Readiness.requested (r : Readiness) (events : EventMask) : Readiness :=
  { r with
    readable := r.readable && (events .read || events .accept || events .close)
    writable := r.writable && (events .write || events .connect)
    urgent := r.urgent && events .oob }

/-- How `poll` ends: with `EINTR`, with another error, or with an answer. -/
inductive PollAnswer
  | interrupted
  | failed (error : ℕ)
  | ready (readiness : Readiness)

namespace SocketSlot

def connectEnds (slot : SocketSlot) (revents : Readiness) : Bool :=
  slot.connecting && (revents.writable || revents.error || revents.hangup)

/-- The calls of `post_async_event_locked` that an answer of `poll` leads to, in order. -/
def asyncAttempts (slot : SocketSlot) (revents : Readiness) : List (NetEvent × ℕ) :=
  let connecting := slot.connecting && !slot.connectEnds revents
  let peerClosed := revents.readable && !slot.listening && revents.eof
  (if slot.connectEnds revents then [(.connect, revents.soError)] else []) ++
  (if revents.urgent then [(.oob, 0)] else []) ++
  (if revents.writable && !connecting then [(.write, 0)] else []) ++
  (if revents.readable && !peerClosed then
    [(if slot.listening then .accept else .read, 0)] else []) ++
  (if peerClosed || revents.error || revents.hangup || revents.invalid then
    [(.close, if revents.invalid then kWsaENotSocket else 0)] else [])

/-- One round of the loop of `refresh_async_select_locked`: the slot, and the messages it has
posted. -/
def refreshAsyncSelect (slot : SocketSlot) (handle : ℕ) (answer : PollAnswer) :
    SocketSlot × List AsyncMessage :=
  if slot.used = false ∨ slot.asyncWindow = 0 ∨ slot.asyncEvents.any = false then (slot, [])
  else match answer with
    | .interrupted => (slot, [])
    | .failed error => postAsyncEvent handle (slot, []) (.close, error)
    | .ready readiness =>
      let revents := readiness.requested slot.asyncEvents
      (slot.asyncAttempts revents).foldl (postAsyncEvent handle)
        ({ slot with connecting := slot.connecting && !slot.connectEnds revents }, [])

/-- One round of `refresh_wsa_events_locked`, of which only `connecting` is kept. -/
def refreshWsaEvents (slot : SocketSlot) (answer : PollAnswer) : SocketSlot :=
  if slot.used = false ∨ slot.eventHandle = 0 ∨ slot.networkEvents.any = false then slot
  else match answer with
    | .ready readiness =>
      let revents := readiness.requested slot.networkEvents
      { slot with connecting := slot.connecting && !slot.connectEnds revents }
    | _ => slot

end SocketSlot

/-! ### Calls -/

/-- The functions that look a socket up, drop the mutex and make a system call. -/
inductive SocketFunction
  | bind
  | listen
  | accept
  | connect
  | send
  | recv
  | sendto
  | recvfrom
  | shutdown
deriving DecidableEq

/-- How a system call ends; `EINPROGRESS` and `EALREADY` are `inProgress`. -/
inductive Outcome
  | success
  | inProgress
  | failure
deriving DecidableEq

namespace SocketFunction

/-- The events that the function passes to `clear_async_notification`. -/
def clears : SocketFunction → EventMask
  | accept => fun e => decide (e = .accept)
  | connect => fun e => decide (e = .connect)
  | send => fun e => decide (e = .write)
  | recv => fun e => decide (e = .read ∨ e = .close)
  | _ => noEvents

/-- The functions that come back to the mutex after their system call. -/
def publishes : SocketFunction → Bool
  | listen | accept | connect | send | recv => true
  | bind | sendto | recvfrom | shutdown => false

/-- The function can end before or with the lookup, on a socket of this type: for its
arguments, or for the type. -/
def refuses (f : SocketFunction) (type : ℤ) : Bool :=
  match f with
  | send | recv | sendto | recvfrom | shutdown => true
  | listen | accept => decide (type ≠ kSockStream)
  | bind | connect => false

/-- What the function writes to the slot that it finds again. -/
def publish (f : SocketFunction) (outcome : Outcome) (slot : SocketSlot) : SocketSlot :=
  match f, outcome with
  | listen, _ => { slot with listening := true }
  | connect, .success => { slot with connecting := false }.clearAsyncNotification f.clears
  | connect, .inProgress => { slot with connecting := true }.clearAsyncNotification f.clears
  | _, _ => slot.clearAsyncNotification f.clears

end SocketFunction

/-- What a call has copied under the mutex; `life` is the socket it has found. -/
structure SocketLookup where
  function : SocketFunction
  handle : ℕ
  fd : Option ℕ
  generation : UInt32
  life : ℕ
deriving DecidableEq

/-- A call of `tl_socket`, or of a function that has looked its handle up. -/
inductive SocketCall
  | socket (type : ℤ)
  | on (lookup : SocketLookup)
deriving DecidableEq

/-- The place a call has reached. -/
inductive CallPhase
  /-- The mutex is free again, the system call is still to come. -/
  | resolved
  /-- `socket` or `accept` has opened a descriptor, for the socket `life`. -/
  | opened (fd life : ℕ)
  /-- The system call is over, the slot is still to be written. -/
  | issued (outcome : Outcome)
  | returned
deriving DecidableEq

/-- What has happened to a socket: it was registered, a call of a function on it has ended,
a message was posted for an event, and the queue has taken it or not. -/
inductive Note
  | registered
  | called (f : SocketFunction)
  | posted (message : AsyncMessage) (accepted : Bool)
deriving DecidableEq

end Winsock

open Winsock

/-- The sockets of the process. -/
structure Winsock where
  sockets : ℕ → SocketSlot := fun _ => {}
  socketGeneration : UInt32 := 0
  descriptors : Entries ℕ
  opened : ℕ
  calls : Pool SocketCall CallPhase := []
  lives : ℕ → ℕ := fun _ => 0
  journal : ℕ → List Note := fun _ => []

/-- The steps: one section under the mutex, or one system call. -/
inductive Winsock.Action
  /-- `::socket` has succeeded. -/
  | socket (type : ℤ)
  | closesocket (handle : ℕ)
  /-- A call has its arguments and looks the handle up. -/
  | resolve (f : SocketFunction) (handle : ℕ)
  /-- A call is refused before or with the lookup. -/
  | turnAway (f : SocketFunction) (handle : ℕ)
  /-- A call fails between the lookup and the system call. -/
  | abandon (n : ℕ)
  | systemCall (n : ℕ) (outcome : Outcome)
  /-- `copy_host_sockaddr` fails after `accept`. -/
  | addressFault (n : ℕ)
  | publish (n : ℕ)
  | wsaAsyncSelect (handle window message : ℕ) (events : ℤ) (fcntl : Bool)
  | wsaEventSelect (handle event : ℕ) (eventValid : Bool) (events : ℤ) (fcntl : Bool)
  | wsaCloseEvent (event : ℕ)
  | refreshWsaEvents (answers : ℕ → PollAnswer)
  /-- `tl_WSAPumpAsyncSelect`; `accepts` is the answer of the message queue. -/
  | refreshAsyncSelect (answers : ℕ → PollAnswer) (accepts : ℕ → NetEvent → Bool)

namespace Winsock

open Winsock (Action)

variable (s : Winsock)

/-! ### Lookups -/

/-- `find_socket`, as the index of the slot. -/
def findSocket (handle : ℕ) : Option ℕ :=
  if kSocketHandleBase ≤ handle ∧ handle < kSocketHandleBase + kSocketSlots ∧
      (s.sockets (handle - kSocketHandleBase)).used = true then
    some (handle - kSocketHandleBase)
  else none

/-- `resolve_if_current_locked`. -/
def resolveIfCurrent (handle : ℕ) (generation : UInt32) : Option ℕ :=
  match s.findSocket handle with
  | some i => if (s.sockets i).generation = generation then some i else none
  | none => none

def freeSlot : Option ℕ := (List.range kSocketSlots).find? fun i => !(s.sockets i).used

def instanceAt (fd : Option ℕ) : Option ℕ := fd.bind s.descriptors.entry

/-! ### The journal -/

/-- Something happens to the socket in a slot. -/
def note (i : ℕ) (event : Note) : Winsock :=
  { s with journal := Function.update s.journal i (event :: s.journal i) }

/-- A call that has found its socket has ended; the socket may be gone. -/
def noteCall (c : SocketLookup) : Winsock :=
  match s.resolveIfCurrent c.handle c.generation with
  | some i => if s.lives i = c.life then s.note i (.called c.function) else s
  | none => s

variable {c : SocketLookup}

@[simp] theorem calls_noteCall : (s.noteCall c).calls = s.calls := by
  unfold noteCall
  split
  · split <;> rfl
  · rfl

/-! ### The steps of a call -/

/-- The call goes on to another place. -/
def move (n : ℕ) (phase : CallPhase) : Winsock := { s with calls := s.calls.move n phase }

theorem calls_move {n : ℕ} {phase : CallPhase} :
    (s.move n phase).calls = s.calls.move n phase := rfl

def setSlot (i : ℕ) (slot : SocketSlot) : Winsock :=
  { s with sockets := Function.update s.sockets i slot }

/-- `close` of a descriptor. -/
def closeDescriptor (fd : ℕ) : Winsock := { s with descriptors := s.descriptors.erase fd }

def openDescriptor : Winsock :=
  { s with descriptors := s.descriptors.insert s.opened, opened := s.opened + 1 }

/-- `snapshot_socket_fd`, and the checks of the type in `tl_listen` and `tl_accept`. -/
def resolve (f : SocketFunction) (handle : ℕ) : Option Winsock :=
  match s.findSocket handle with
  | none => none
  | some i =>
    let slot := s.sockets i
    if (f = .listen ∨ f = .accept) ∧ slot.type ≠ kSockStream then none
    else
      some { s with
        calls := s.calls.start (.on ⟨f, handle, slot.fd, slot.generation, s.lives i⟩) .resolved }

/-- The system call of the function, on the descriptor that was copied. -/
def systemCall (n : ℕ) (c : SocketLookup) (outcome : Outcome) : Option Winsock :=
  if outcome ≠ .failure ∧ s.instanceAt c.fd = none then none
  else if outcome = .inProgress ∧ c.function ≠ .connect then none
  else if c.function = .accept ∧ outcome = .success then
    some (s.openDescriptor.move n (.opened s.descriptors.lowestFree s.opened))
  else if c.function.publishes = true ∧ ¬(c.function = .listen ∧ outcome = .failure) then
    some (s.move n (.issued outcome))
  else some ((s.noteCall c).move n .returned)

/-- The new descriptor gets a slot, or is closed. -/
def install (type : ℤ) (fd life : ℕ) : Winsock :=
  match s.freeSlot with
  | none => s.closeDescriptor fd
  | some i =>
    { s with
      sockets := Function.update s.sockets i
        { s.sockets i with
          used := true
          fd := some fd
          type := type
          generation := s.socketGeneration + 1
          asyncWindow := 0
          asyncMessage := 0
          asyncEvents := noEvents
          asyncNotifiedEvents := noEvents }
      socketGeneration := s.socketGeneration + 1
      lives := Function.update s.lives i life
      journal := Function.update s.journal i [] }

/-- A call comes back to its slot. -/
def publish (c : SocketLookup) (outcome : Outcome) : Winsock :=
  match s.resolveIfCurrent c.handle c.generation with
  | none => s
  | some i => s.setSlot i (c.function.publish outcome (s.sockets i))

@[simp] theorem calls_publish {o : Outcome} : (s.publish c o).calls = s.calls := by
  unfold publish
  split <;> rfl

/-! ### Registrations -/

/-- `tl_WSAAsyncSelect`, once its checks have passed. -/
def asyncSelect (i window message : ℕ) (events : ℤ) : Winsock :=
  (s.setSlot i
    { s.sockets i with
      eventHandle := 0
      networkEvents := noEvents
      asyncWindow := window
      asyncMessage := message
      asyncEvents := eventMask events
      asyncNotifiedEvents := noEvents }).note i .registered

/-- `tl_WSAEventSelect`, once its checks have passed. -/
def eventSelect (i event : ℕ) (events : ℤ) : Winsock :=
  s.setSlot i
    { s.sockets i with
      eventHandle := event
      networkEvents := eventMask events
      asyncWindow := 0
      asyncMessage := 0
      asyncEvents := noEvents
      asyncNotifiedEvents := noEvents }

/-- `tl_WSACloseEvent` leaves no slot with the event. -/
def closeEvent (event : ℕ) : Winsock :=
  { s with
    sockets := fun i =>
      if i < kSocketSlots ∧ (s.sockets i).eventHandle = event then
        { s.sockets i with eventHandle := 0, networkEvents := noEvents }
      else s.sockets i }

/-- `refresh_wsa_events_locked`. -/
def refreshEvents (answers : ℕ → PollAnswer) : Winsock :=
  { s with
    sockets := fun i =>
      if i < kSocketSlots then (s.sockets i).refreshWsaEvents (answers i) else s.sockets i }

def postNotes (messages : List AsyncMessage) (accepts : NetEvent → Bool) : List Note :=
  (messages.map fun m => Note.posted m (accepts m.event)).reverse

/-- The round of `refresh_async_select_locked` for a slot. -/
def asyncRound (answers : ℕ → PollAnswer) (i : ℕ) : SocketSlot × List AsyncMessage :=
  (s.sockets i).refreshAsyncSelect (kSocketHandleBase + i) (answers i)

/-- `refresh_async_select_locked`. -/
def refreshAsync (answers : ℕ → PollAnswer) (accepts : ℕ → NetEvent → Bool) : Winsock :=
  { s with
    sockets := fun i => if i < kSocketSlots then (s.asyncRound answers i).1 else s.sockets i
    journal := fun i =>
      if i < kSocketSlots then
        postNotes (s.asyncRound answers i).2 (accepts i) ++ s.journal i
      else s.journal i }

/-! ### Steps -/

/-- One step of the process; `none` where it has no effect or cannot be taken. -/
def step : Action → Option Winsock
  | .socket type =>
    if type ≠ kSockStream ∧ type ≠ kSockDgram then none
    else
      let s' := s.openDescriptor
      some { s' with
        calls := s'.calls.start (.socket type) (.opened s.descriptors.lowestFree s.opened) }
  | .closesocket handle =>
    match s.findSocket handle with
    | none => none
    | some i =>
      match (s.sockets i).fd with
      | none => some (s.setSlot i {})
      | some fd => some ((s.closeDescriptor fd).setSlot i {})
  | .resolve f handle => s.resolve f handle
  | .turnAway f handle =>
    match s.findSocket handle with
    | none => none
    | some i =>
      if f.refuses (s.sockets i).type then some (s.note i (.called f)) else none
  | .abandon n =>
    match s.calls[n]? with
    | some (.on c, .resolved) =>
      if c.function = .accept ∨ c.function = .shutdown then none
      else some ((s.noteCall c).move n .returned)
    | _ => none
  | .systemCall n outcome =>
    match s.calls[n]? with
    | some (.on c, .resolved) => s.systemCall n c outcome
    | _ => none
  | .addressFault n =>
    match s.calls[n]? with
    | some (.on _, .opened fd _) => some ((s.closeDescriptor fd).move n (.issued .failure))
    | _ => none
  | .publish n =>
    match s.calls[n]? with
    | some (.socket type, .opened fd life) => some ((s.install type fd life).move n .returned)
    | some (.on c, .opened fd life) =>
      some ((((s.install kSockStream fd life).publish c .success).noteCall c).move n .returned)
    | some (.on c, .issued outcome) => some (((s.publish c outcome).noteCall c).move n .returned)
    | _ => none
  | .wsaAsyncSelect handle window message events fcntl =>
    match s.findSocket handle with
    | none => none
    | some i =>
      if supportedEvents events = false ∨ events ≠ 0 ∧ (window = 0 ∨ message = 0) then none
      else if events ≠ 0 ∧ fcntl = false then none
      else some (s.asyncSelect i window message events)
  | .wsaEventSelect handle event eventValid events fcntl =>
    match s.findSocket handle with
    | none => none
    | some i =>
      if supportedEvents events = false ∨ event ≠ 0 ∧ eventValid = false ∨
          event = 0 ∧ events ≠ 0 then none
      else if events ≠ 0 ∧ fcntl = false then none
      else some (s.eventSelect i event events)
  | .wsaCloseEvent event => if event = 0 then none else some (s.closeEvent event)
  | .refreshWsaEvents answers => some (s.refreshEvents answers)
  | .refreshAsyncSelect answers accepts => some (s.refreshAsync answers accepts)

/-- No socket has been made; the descriptors of the process are other files. -/
structure Initial : Prop where
  unused : ∀ i, s.sockets i = {}
  calls : s.calls = []
  opened : ∀ fd x, s.descriptors.entry fd = some x → x < s.opened

def threeFiles : Winsock where
  descriptors := ⟨[some 0, some 1, some 2]⟩
  opened := 3

theorem threeFiles_initial : threeFiles.Initial := by
  refine ⟨fun _ => rfl, rfl, fun fd x hx => ?_⟩
  rcases Nat.lt_or_ge fd 3 with hl | hg
  · have hf : fd = 0 ∨ fd = 1 ∨ fd = 2 := by omega
    rcases hf with rfl | rfl | rfl <;> cases hx <;> decide
  have hn : threeFiles.descriptors.entry fd = none := by
    unfold Entries.entry
    rw [List.getElem?_eq_none hg]
    rfl
  rw [hn] at hx
  cases hx

variable {s} {s' t : Winsock}

/-! ### What a lookup finds -/

theorem findSocket_eq_some {hn i : ℕ} : s.findSocket hn = some i ↔
      hn = kSocketHandleBase + i ∧ i < kSocketSlots ∧ (s.sockets i).used := by
  unfold findSocket
  constructor
  · intro h
    split at h
    · next hc =>
      obtain rfl := Option.some.inj h
      exact ⟨by omega, by omega, hc.2.2⟩
    · cases h
  · rintro ⟨rfl, hl, hu⟩
    have hi : kSocketHandleBase + i - kSocketHandleBase = i := by omega
    rw [hi, if_pos ⟨by omega, by omega, hu⟩]

theorem resolveIfCurrent_eq_some {hn i : ℕ} {g : UInt32} : s.resolveIfCurrent hn g = some i ↔
      s.findSocket hn = some i ∧ (s.sockets i).generation = g := by
  unfold resolveIfCurrent
  constructor
  · intro h
    split at h
    · next j hj =>
      split at h
      · next hg =>
        cases h
        exact ⟨hj, hg⟩
      · cases h
    · cases h
  · rintro ⟨hf, hg⟩
    rw [hf]
    exact if_pos hg

/-! ### Installing a descriptor -/

section Install

variable {type : ℤ} {i fd life l : ℕ}

theorem install_of_ne (hi : s.freeSlot = some i) {j : ℕ} (hj : j ≠ i) :
    (s.install type fd l).sockets j = s.sockets j ∧ (s.install type fd l).lives j = s.lives j := by
  unfold Winsock.install
  rw [hi]
  exact ⟨Function.update_of_ne hj _ _, Function.update_of_ne hj _ _⟩

theorem install_self (hi : s.freeSlot = some i) :
    ((s.install type fd life).sockets i).fd = some fd ∧
      ((s.install type fd life).sockets i).generation = s.socketGeneration + 1 ∧
      ((s.install type fd life).sockets i).asyncWindow = 0 ∧
      (s.install type fd life).lives i = life := by
  unfold Winsock.install
  rw [hi]
  exact ⟨congrArg _ (Function.update_self ..), congrArg _ (Function.update_self ..),
    congrArg _ (Function.update_self ..), Function.update_self ..⟩

theorem install_of_some (hi : s.freeSlot = some i) :
    (s.install type fd l).descriptors = s.descriptors ∧
      (s.install type fd l).opened = s.opened ∧ (s.install type fd l).calls = s.calls := by
  unfold Winsock.install
  rw [hi]
  exact ⟨rfl, rfl, rfl⟩

end Install

/-! ### What does not show in a lookup -/

/-- The slots are the same to every lookup, and so are the kernel's descriptors. -/
structure Quiet (s s' : Winsock) : Prop where
  used : ∀ i, (s'.sockets i).used = (s.sockets i).used
  fd : ∀ i, (s'.sockets i).fd = (s.sockets i).fd
  generation : ∀ i, (s'.sockets i).generation = (s.sockets i).generation
  lives : s'.lives = s.lives
  descriptors : s'.descriptors = s.descriptors
  opened : s'.opened = s.opened

namespace Quiet

theorem refl (s : Winsock) : Quiet s s := ⟨fun _ => rfl, fun _ => rfl, fun _ => rfl, rfl, rfl, rfl⟩

theorem trans (h : Quiet s s') (h' : Quiet s' t) : Quiet s t :=
  ⟨fun i => (h'.used i).trans (h.used i), fun i => (h'.fd i).trans (h.fd i),
    fun i => (h'.generation i).trans (h.generation i), h'.lives.trans h.lives,
    h'.descriptors.trans h.descriptors, h'.opened.trans h.opened⟩

theorem of_slots {ss : ℕ → SocketSlot} {jr : ℕ → List Note}
    (h : ∀ i, (ss i).used = (s.sockets i).used ∧ (ss i).fd = (s.sockets i).fd ∧
      (ss i).generation = (s.sockets i).generation) :
    Quiet s { s with sockets := ss, journal := jr } :=
  ⟨fun i => (h i).1, fun i => (h i).2.1, fun i => (h i).2.2, rfl, rfl, rfl⟩

theorem setSlot {i : ℕ} {sl : SocketSlot} (hu : sl.used = (s.sockets i).used)
    (hf : sl.fd = (s.sockets i).fd) (hg : sl.generation = (s.sockets i).generation) :
    Quiet s (s.setSlot i sl) := by
  refine of_slots fun j => ?_
  by_cases hj : j = i
  · subst hj
    rw [Function.update_self]
    exact ⟨hu, hf, hg⟩
  · rw [Function.update_of_ne hj]
    exact ⟨rfl, rfl, rfl⟩

theorem move {n : ℕ} {x : CallPhase} : Quiet s (s.move n x) :=
  ⟨fun _ => rfl, fun _ => rfl, fun _ => rfl, rfl, rfl, rfl⟩

theorem note {i : ℕ} {ev : Note} : Quiet s (s.note i ev) := of_slots fun _ => ⟨rfl, rfl, rfl⟩

theorem noteCall : Quiet s (s.noteCall c) := by
  unfold Winsock.noteCall
  split
  · split
    · exact note
    · exact refl s
  · exact refl s

theorem publish {o : Outcome} : Quiet s (s.publish c o) := by
  unfold Winsock.publish
  split
  · exact refl s
  next i hi =>
  have hk : ∀ (f : SocketFunction) (sl : SocketSlot),
      (f.publish o sl).used = sl.used ∧ (f.publish o sl).fd = sl.fd ∧
        (f.publish o sl).generation = sl.generation := by
    intro f sl
    cases f <;> cases o <;> exact ⟨rfl, rfl, rfl⟩
  obtain ⟨hu, hf, hg⟩ := hk c.function (s.sockets i)
  exact setSlot hu hf hg

theorem asyncSelect {i w m : ℕ} {e : ℤ} : Quiet s (s.asyncSelect i w m e) := by
  refine (setSlot ?_ ?_ ?_).trans note <;> rfl

theorem closeEvent {ev : ℕ} : Quiet s (s.closeEvent ev) := by
  refine of_slots fun i => ?_
  split <;> exact ⟨rfl, rfl, rfl⟩

theorem refreshEvents {a : ℕ → PollAnswer} : Quiet s (s.refreshEvents a) := by
  refine of_slots fun i => ?_
  unfold SocketSlot.refreshWsaEvents
  split
  · split
    · exact ⟨rfl, rfl, rfl⟩
    · split <;> exact ⟨rfl, rfl, rfl⟩
  · exact ⟨rfl, rfl, rfl⟩

theorem postAsyncEvent_kept {hn : ℕ} {r : SocketSlot × List AsyncMessage} {a : NetEvent × ℕ} :
    (postAsyncEvent hn r a).1.used = r.1.used ∧ (postAsyncEvent hn r a).1.fd = r.1.fd ∧
      (postAsyncEvent hn r a).1.generation = r.1.generation := by
  dsimp only [postAsyncEvent]
  split <;> exact ⟨rfl, rfl, rfl⟩

theorem foldl_postAsyncEvent {hn : ℕ} {a : List (NetEvent × ℕ)} :
    ∀ {r : SocketSlot × List AsyncMessage}, (a.foldl (postAsyncEvent hn) r).1.used = r.1.used ∧
        (a.foldl (postAsyncEvent hn) r).1.fd = r.1.fd ∧
        (a.foldl (postAsyncEvent hn) r).1.generation = r.1.generation := by
  induction a with
  | nil => exact ⟨rfl, rfl, rfl⟩
  | cons att a ih =>
    intro r
    obtain ⟨hu, hf, hg⟩ := @postAsyncEvent_kept hn r att
    rw [List.foldl_cons, ← hu, ← hf, ← hg]
    exact ih

theorem refreshAsync {ans : ℕ → PollAnswer} {a : ℕ → NetEvent → Bool} :
    Quiet s (s.refreshAsync ans a) := by
  refine of_slots fun i => ?_
  unfold asyncRound SocketSlot.refreshAsyncSelect
  split
  · split
    · exact ⟨rfl, rfl, rfl⟩
    · split
      · exact ⟨rfl, rfl, rfl⟩
      · exact postAsyncEvent_kept
      · exact foldl_postAsyncEvent
  · exact ⟨rfl, rfl, rfl⟩

end Quiet

theorem Quiet.findSocket (hq : Quiet s s') {handle : ℕ} :
    s'.findSocket handle = s.findSocket handle := by
  unfold Winsock.findSocket
  rw [hq.used]

theorem Quiet.resolveIfCurrent (hq : Quiet s s') {handle : ℕ} {g : UInt32} :
    s'.resolveIfCurrent handle g = s.resolveIfCurrent handle g := by
  unfold Winsock.resolveIfCurrent
  rw [hq.findSocket]
  split
  · rw [hq.generation]
  · rfl

end Winsock
end TradutorLinux
