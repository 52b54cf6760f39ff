import TradutorLinux.Net.EventSelect

/-!
# The last error of Winsock

Every entry point leaves through a check of its arguments, through a system call that fails, or
at its end, and sets `g_wsa_last_error` there.  `tl_connect` keeps a code that is already set, and
`tl_listen` takes `errno` for a backlog that it has not given to the system.

## Main definitions

* `ErrorCall.exits` — the ways out of the entry points, in their order.
* `ThreadErrors.step` — the calls of a thread.
* `Fresh`
* `ThreadErrors.Clean` — the condition.

## Main results

* `last_error_fresh_iff`
-/

namespace TradutorLinux.Winsock

open List

def kWsaEFault : ℕ := 10014
def kWsaEInvalidArgument : ℕ := 10022
def kWsaENoBufs : ℕ := 10055
def kWsaENoData : ℕ := 11004
def kWsaVerNotSupported : ℕ := 10092

/-- The `errno` of a system call that fails. -/
abbrev SystemAnswer := Option ℕ

/-- A way out of an entry point: a check that fails with a code, or a system call; that of
`tl_connect`, and the backlog of `tl_listen`. -/
inductive SocketExit
  | refuse (holds : Bool) (code : ℕ)
  | system (answer : SystemAnswer)
  | connect (answer : SystemAnswer)
  | backlog (holds : Bool)

/-- The last error of a thread and its `errno`. -/
structure ThreadErrors where
  last : ℕ := 0
  errno : ℕ := 0

/-- What `g_wsa_last_error` is behind an exit that is taken. -/
def SocketExit.code (s : ThreadErrors) : SocketExit → Option ℕ
  | refuse holds code => if holds = true then none else some code
  | system answer => answer.map errnoToWsa
  | connect answer => answer.map fun e => if s.last = 0 then errnoToWsa e else s.last
  | backlog holds => if holds = true then none else some (errnoToWsa s.errno)

/-- The code of the very failure; a backlog is an argument. -/
def SocketExit.own : SocketExit → Option ℕ
  | refuse holds code => if holds = true then none else some code
  | system answer | connect answer => answer.map errnoToWsa
  | backlog holds => if holds = true then none else some kWsaEInvalidArgument

/-- The entry points with what their checks find and what the system answers. -/
inductive ErrorCall
  | wsaStartup (data : Bool) (version : ℕ) (written : Bool)
  | wsaCleanup
  | socket (known : Bool) (answer : SystemAnswer) (slot : Bool)
  | closesocket (found : Bool) (answer : SystemAnswer)
  | bind (found address : Bool) (answer : SystemAnswer)
  | listen (found stream : Bool) (backlog : ℤ) (answer : SystemAnswer)
  | accept (found : Bool) (answer : SystemAnswer) (copied slot : Bool)
  | connect (found address : Bool) (answer : SystemAnswer)
  | send (arguments found memory readable : Bool) (answer : SystemAnswer)
  | recv (arguments found memory : Bool) (answer : SystemAnswer) (written : Bool)
  | sendto (arguments address found memory readable : Bool) (answer : SystemAnswer)
  | recvfrom (arguments found memory : Bool) (answer : SystemAnswer) (written : Bool)
  | getsockname (arguments found : Bool) (answer : SystemAnswer) (written : Bool)
  | shutdown (how : ℤ) (found : Bool) (answer : SystemAnswer)
  | getaddrinfo (arguments hints family service resolved slot written : Bool)
  | freeaddrinfo (found : Bool)
  | inetAddr (copied parsed : Bool)
  | wsaPoll (arguments readable found : Bool) (answer : SystemAnswer) (written : Bool)
  | select (readable timeout : Bool) (answer : SystemAnswer) (written : Bool)
  | ioctlsocket (argument found : Bool) (getFlags setFlags : SystemAnswer)
  | gethostname (arguments : Bool) (answer : SystemAnswer) (written : Bool)
  | inetNtop (arguments readable : Bool) (answer : SystemAnswer) (written : Bool)
  | inetPton (arguments copied parsed : Bool) (answer : SystemAnswer) (written : Bool)
  | wsaAddressToString (arguments readable family : Bool) (answer : SystemAnswer)
      (formatted room written : Bool)
  | getpeername (arguments found : Bool) (answer : SystemAnswer) (written : Bool)
  | setsockopt (found arguments memory readable : Bool) (answer : SystemAnswer)
  | getsockopt (found arguments memory : Bool) (answer : SystemAnswer) (written : Bool)
  | wsaAsyncSelect (found arguments : Bool) (getFlags setFlags : SystemAnswer)
  | wsaEventSelect (found arguments : Bool) (getFlags setFlags : SystemAnswer)
  | wsaCreateEvent (slot : Bool)
  | wsaEvent (found : Bool)
  | wsaWaitForMultipleEvents (arguments readable found : Bool)
  | wsaEnumNetworkEvents (pointer found arguments written : Bool)
  | wsaIoctl (written : Bool)
  | getnameinfo (host serv : Bool)
  | gethostbyname

namespace ErrorCall

/-- A socket that is found, arguments that are right, room, and the guest's memory. -/
def isSocket (holds : Bool) : SocketExit := .refuse holds kWsaENotSocket
def valid (holds : Bool) : SocketExit := .refuse holds kWsaEInvalidArgument
def room (holds : Bool) : SocketExit := .refuse holds kWsaENoBufs
def access (holds : Bool) : SocketExit := .refuse holds kWsaEFault

/-- The check of the version by `tl_WSAStartup`. -/
def versionSupported (version : ℕ) : Bool :=
  let major := version % 0x100
  let minor := version / 0x100 % 0x100
  !(major < 1 || (major == 1 && minor < 1))

/-- The entry points; `wsaEvent` are `tl_WSACloseEvent`, `tl_WSASetEvent` and `tl_WSAResetEvent`,
`gethostbyname` also stands for the others that always succeed, `freeaddrinfo` has no null
pointer. -/
def exits : ErrorCall → List SocketExit
  | wsaStartup d v w =>
    [valid d, .refuse (versionSupported v) kWsaVerNotSupported, valid w]
  | wsaCleanup | gethostbyname => []
  | socket k a s => [valid k, .system a, room s]
  | closesocket f a => [isSocket f, .system a]
  | bind f n a => [isSocket f, valid n, .system a]
  | listen f t b a => [isSocket f, valid t, .backlog (0 ≤ b), .system a]
  | accept f a c s => [isSocket f, .system a, access c, room s]
  | connect f n a => [isSocket f, valid n, .connect a]
  | send v f m r a => [valid v, isSocket f, room m, access r, .system a]
  | recv v f m a w | recvfrom v f m a w =>
    [valid v, isSocket f, room m, .system a, access w]
  | sendto v n f m r a => [valid v, valid n, isSocket f, room m, access r, .system a]
  | getsockname v f a w => [valid v, isSocket f, .system a, access w]
  | shutdown h f a => [valid (h == 0 || h == 1 || h == 2), isSocket f, .system a]
  | freeaddrinfo f => [valid f]
  | getaddrinfo v h f p r s w =>
    [valid v, valid h, valid f, valid p, .refuse r kWsaENoData, room s, access w]
  | inetAddr c p => [valid c, .refuse p kWsaENoData]
  | wsaPoll v r f a w => [valid v, access r, isSocket f, .system a, access w]
  | select r t a w => [access r, access t, .system a, access w]
  | ioctlsocket v f g s => [valid v, isSocket f, .system g, .system s]
  | gethostname v a w => [valid v, .system a, access w]
  | inetNtop v r a w => [valid v, access r, .system a, access w]
  | inetPton v c p a w => [valid v, access c, valid p, .system a, access w]
  | wsaAddressToString v r f a t c w =>
    [valid v, access r, valid f, .system a, valid t, access c, access w]
  | getpeername v f a w => [access v, isSocket f, .system a, access w]
  | setsockopt f v m r a => [isSocket f, valid v, room m, access r, .system a]
  | getsockopt f v m a w => [isSocket f, valid v, room m, .system a, access w]
  | wsaAsyncSelect f v g s | wsaEventSelect f v g s =>
    [isSocket f, valid v, .system g, .system s]
  | wsaCreateEvent s => [room s]
  | wsaEvent f => [valid f]
  | wsaWaitForMultipleEvents v r f => [valid v, access r, valid f]
  | wsaEnumNetworkEvents p f v w => [access p, isSocket f, valid v, access w]
  | wsaIoctl w => [access w]
  | getnameinfo h p => [access h, access p]

end ErrorCall

/-- What a thread does: a call, behind which `errno` is anything, `tl_WSASetLastError`, and what
else changes `errno`. -/
inductive ErrorAction
  | call (c : ErrorCall) (errno : ℕ)
  | setLastError (error : ℕ)
  | other (errno : ℕ)

namespace ThreadErrors

variable (s : ThreadErrors)

def step : ErrorAction → Option ThreadErrors
  | .call c errno => some ⟨(c.exits.findSome? (·.code s)).getD 0, errno⟩
  | .setLastError error => some { s with last := error }
  | .other errno => some { s with errno := errno }

/-- A call of `connect` finds no other code, and a backlog below zero an `errno` for it. -/
def Clean : ErrorAction → Prop
  | .call (.connect true true (some e)) _ => s.last = 0 ∨ s.last = errnoToWsa e
  | .call (.listen true true backlog _) _ =>
    backlog < 0 → errnoToWsa s.errno = kWsaEInvalidArgument
  | _ => True

/-- After a call that fails, `tl_WSAGetLastError` tells its own failure. -/
def Fresh (_ : ThreadErrors) (a : ErrorAction) (s' : ThreadErrors) : Prop :=
  ∀ c errno, a = .call c errno → ∀ code, c.exits.findSome? SocketExit.own = some code →
    s'.last = code

/-! ### Runs -/

open SocketExit ErrorCall

variable {s} {l : List SocketExit}

theorem findSome?_code (h : ∀ e ∈ l, e.code s = e.own) :
    l.findSome? (·.code s) = l.findSome? own := by
  induction l with
  | nil => rfl
  | cons e es ih =>
    have hs := ih fun e he => h e (mem_cons_of_mem _ he)
    rw [findSome?_cons, findSome?_cons, h e mem_cons_self, hs]

theorem fresh_of_code {c : ErrorCall} {n : ℕ} (h : ∀ e ∈ c.exits, e.code s = e.own) :
    s.Fresh (.call c n) ⟨(c.exits.findSome? (·.code s)).getD 0, n⟩ := by
  rintro _ _ ⟨⟩ code hc
  rw [findSome?_code h, hc]
  rfl

theorem fresh_iff_code {c : ErrorCall} {n : ℕ} {s' : ThreadErrors} :
    s.Fresh (.call c n) s' ↔
      ∀ code, c.exits.findSome? SocketExit.own = some code → s'.last = code := by
  constructor
  · exact fun h => h c n rfl
  · rintro h _ _ ⟨⟩
    exact h

/-- **A call leaves its own code exactly if it is clean.** -/
theorem fresh_iff {a : ErrorAction} {s' : ThreadErrors} (hs : s.step a = some s') :
    s.Fresh a s' ↔ s.Clean a := by
  cases a with
  | setLastError => exact iff_of_true (by rintro _ _ ⟨⟩) trivial
  | other => exact iff_of_true (by rintro _ _ ⟨⟩) trivial
  | call c n =>
    cases hs
    cases c with
    | connect f a x =>
      rw [fresh_iff_code]
      cases f <;> cases a <;> cases x <;>
        simp [Clean, exits, own, code, isSocket, valid, or_iff_not_imp_left]
    | listen f t b x =>
      have hb : b < 0 ↔ ¬0 ≤ b := Int.not_le.symm
      rw [fresh_iff_code]
      cases f <;> cases t <;> by_cases h : 0 ≤ b <;> cases x <;>
        simp [Clean, exits, own, code, isSocket, valid, hb, h]
    | _ =>
      refine iff_of_true (fresh_of_code ?_) trivial
      simp [exits, isSocket, valid, room, access, code, own]

/-- **No call of a run leaves a stale code exactly if every call of `connect` and `listen` is
clean.** -/
theorem last_error_fresh_iff (s : ThreadErrors) (as : List ErrorAction) :
    EachStep step Fresh s as ↔ EachStep step (fun s a _ => s.Clean a) s as :=
  eachStep_iff (I := fun _ => True) (fun _ _ _ _ => fresh_iff) (fun _ _ _ _ _ _ => trivial)
    trivial as

/-- **A connection that is refused when it is asked for again is still under way.** -/
theorem not_last_error_fresh : ¬∀ s as, EachStep step Fresh s as := by
  intro h
  have hr := (h {} [.call (.connect true true (some 115)) 115,
    .call (.connect true true (some 111)) 111] _ rfl).2 _ rfl
  have hl := hr.1 _ _ rfl _ rfl
  revert hl
  decide

end ThreadErrors
end TradutorLinux.Winsock
