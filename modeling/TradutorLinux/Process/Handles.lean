import TradutorLinux.Runtime.ErrorMap
import TradutorLinux.Util.Bytes
import TradutorLinux.Util.Ledger
import TradutorLinux.Util.Runs

/-!
# Handles and their references

`tl_CloseHandle` and `tl_DuplicateHandle` of `kernel32/file_io.cpp`, over the
tables of the runtime, and the two sections of `complete_host_thread` of
`thread.cpp`.  A call is one step; a thread that finishes takes two.

A duplicate has the value of its source and adds to the `ref_count` of the slot.
A handle is given by the table and the index that its value lies in.

## Main definitions

* `Handle`, `HandleState`
* `closeHandle`, `duplicateHandle` — the two functions.
* `HandleState.step` — the two functions, the issue of handles and the end of
  threads, in any order.
* `HandleState.Counted` — objects are destroyed once, after their last close.

## Main results

* `handles_counted`
-/

namespace TradutorLinux.Process

open List Function Option

open TradutorLinux.Runtime (kErrorInvalidHandle kErrorInvalidParameter)

/-! ### Tables -/

/-- `HandleObjectType`, as far as the tables use it. -/
inductive HandleObjectType
  | unknown
  | file
  | sync
  | fileMapping
  | thread
  | find
  | snapshot
  | ioCompletionPort
deriving DecidableEq, Repr

/-- `ObjectHeader`. -/
structure ObjectHeader where
  type : HandleObjectType := .unknown
  refCount : UInt32 := 1
deriving DecidableEq

/-- A handle value: the slot it names, or what else it is.  `process` is a value in the range
from `kProcessHandleBase` on. -/
inductive Handle
  | null
  | invalidHandleValue
  | standard (stream : ℕ)
  | token (index : ℕ)
  | file (index : ℕ)
  | thread (index : ℕ)
  | sync (index : ℕ)
  | find (index : ℕ)
  | mapping (index : ℕ)
  | snapshot (index : ℕ)
  | port (index : ℕ)
  | process (pid : ℕ)
  | other (value : ℕ)
deriving DecidableEq, Repr

structure FileSlot where
  used : Bool := false
  header : ObjectHeader := {}
  fd : ℤ := -1
  path : ByteString := []
  deletePending : Bool := false
  unlinked : Bool := false
deriving DecidableEq

def FileSlot.withRefCount (slot : FileSlot) (refCount : UInt32) : FileSlot :=
  { slot with header := { slot.header with refCount := refCount } }

structure SyncSlot where
  used : Bool := false
  header : ObjectHeader := {}
  childResultFd : ℤ := -1
deriving DecidableEq

structure FindSlot where
  used : Bool := false
  header : ObjectHeader := {}
deriving DecidableEq

structure FileMappingSlot where
  used : Bool := false
  header : ObjectHeader := {}
  fd : ℤ := -1
deriving DecidableEq

/-- `teb` and `stack` are the addresses of the two blocks, if the thread has them. -/
structure ThreadSlot where
  used : Bool := false
  header : ObjectHeader := {}
  teb : Option ℕ := none
  stack : Option (ℕ × ℕ) := none
  finished : Bool := false
  joined : Bool := false
  handleClosed : Bool := false
deriving DecidableEq

structure SnapshotSlot where
  used : Bool := false
  header : ObjectHeader := {}
deriving DecidableEq

structure IoCompletionPortSlot where
  used : Bool := false
  header : ObjectHeader := ⟨.ioCompletionPort, 1⟩
deriving DecidableEq

/-- What the destruction of an object does outside its slot. -/
inductive HostEffect
  | close (fd : ℤ)
  | remove (path : ByteString)
  | freeTeb (teb : ℕ)
  | unmap (address size : ℕ)
deriving DecidableEq

/-- The tables, and the ledger of the objects that have been issued. -/
structure HandleState where
  tokens : List Bool
  files : List FileSlot
  threads : List ThreadSlot
  syncs : List SyncSlot
  finds : List FindSlot
  mappings : List FileMappingSlot
  snapshots : List SnapshotSlot
  ports : List IoCompletionPortSlot
  ledger : Ledger Handle (List HostEffect) := {}

def usedSlot {σ : Type} (used : σ → Bool) (table : List σ) (index : ℕ) : Option σ :=
  table[index]?.filter used

/-- How a call ends: with 1, or with 0 and an error. -/
inductive HandleEnd
  | success
  | error (code : UInt32)
deriving DecidableEq

/-- The answers of `unlink` and `rmdir` to a delete-on-close; `failed` has the error that
`errno_to_win32` makes of any other than `ENOENT`. -/
inductive FileRemoval
  | removed
  | missing
  | failed (error : UInt32)
deriving DecidableEq

/-- What a call leaves; `destroyed` when an object has been destroyed. -/
structure HandleOutcome where
  result : HandleEnd
  state : HandleState
  destroyed : Option (List HostEffect) := none

namespace HandleState

variable (s : HandleState)

/-! ### `CloseHandle` -/

/-- `close_token_handle`. -/
def closeTokenHandle : Handle → Option HandleOutcome
  | .token index =>
    if s.tokens[index]? = some true then
      some ⟨.success, { s with tokens := s.tokens.set index false }, none⟩
    else none
  | _ => none

/-- The part of `tl_CloseHandle` for files. -/
def closeFileHandle (removal : FileRemoval) : Handle → Option HandleOutcome
  | .file index =>
    match usedSlot FileSlot.used s.files index with
    | none => some ⟨.error kErrorInvalidHandle, s, none⟩
    | some slot =>
      if slot.header.refCount > 1 then
        let slot := slot.withRefCount (slot.header.refCount - 1)
        some ⟨.success, { s with files := s.files.set index slot }, none⟩
      else
        let s := { s with files := s.files.set index {} }
        if slot.deletePending && !slot.unlinked then
          match removal with
          | .removed => some ⟨.success, s, some [.close slot.fd, .remove slot.path]⟩
          | .missing => some ⟨.success, s, some [.close slot.fd]⟩
          | .failed error => some ⟨.error error, s, some [.close slot.fd]⟩
        else some ⟨.success, s, some [.close slot.fd]⟩
  | _ => none

/-- `get_object_header`. -/
def getObjectHeader : Handle → Option ObjectHeader
  | .thread index => (usedSlot ThreadSlot.used s.threads index).map ThreadSlot.header
  | .sync index => (usedSlot SyncSlot.used s.syncs index).map SyncSlot.header
  | .find index => (usedSlot FindSlot.used s.finds index).map FindSlot.header
  | .mapping index => (usedSlot FileMappingSlot.used s.mappings index).map FileMappingSlot.header
  | .snapshot index => (usedSlot SnapshotSlot.used s.snapshots index).map SnapshotSlot.header
  | _ => none

/-- A write through the pointer that `get_object_header` returns. -/
def setObjectHeader (header : ObjectHeader) : Handle → HandleState
  | .thread index =>
    { s with threads := s.threads.modify index fun slot => { slot with header := header } }
  | .sync index =>
    { s with syncs := s.syncs.modify index fun slot => { slot with header := header } }
  | .find index =>
    { s with finds := s.finds.modify index fun slot => { slot with header := header } }
  | .mapping index =>
    { s with mappings := s.mappings.modify index fun slot => { slot with header := header } }
  | .snapshot index =>
    { s with snapshots := s.snapshots.modify index fun slot => { slot with header := header } }
  | _ => s

/-- The part of `tl_CloseHandle` for objects with a header. -/
def closeReference (h : Handle) : Option HandleOutcome :=
  match s.getObjectHeader h with
  | none => none
  | some header =>
    if header.type = .find then some ⟨.error kErrorInvalidHandle, s, none⟩
    else if header.refCount > 1 then
      some ⟨.success, s.setObjectHeader { header with refCount := header.refCount - 1 } h, none⟩
    else none

/-- The part for synchronization objects, with `clear_sync_slot`. -/
def closeSyncHandle : Handle → Option HandleOutcome
  | .sync index => (usedSlot SyncSlot.used s.syncs index).map fun slot =>
    ⟨.success, { s with syncs := s.syncs.set index {} },
      some (if slot.childResultFd ≥ 0 then [.close slot.childResultFd] else [])⟩
  | _ => none

/-- `close_iocp_handle`. -/
def closeIocpHandle : Handle → Option HandleOutcome
  | .port index => (usedSlot IoCompletionPortSlot.used s.ports index).map fun slot =>
    ⟨.success, { s with ports := s.ports.set index { slot with used := false } }, some []⟩
  | _ => none

/-- The part for file mappings. -/
def closeMappingHandle : Handle → Option HandleOutcome
  | .mapping index => (usedSlot FileMappingSlot.used s.mappings index).map fun slot =>
    ⟨.success, { s with mappings := s.mappings.set index { slot with used := false, fd := -1 } },
      some (if slot.fd ≥ 0 then [.close slot.fd] else [])⟩
  | _ => none

end HandleState

/-- The release of a thread's stack and TEB, by the closer or by the thread. -/
def ThreadSlot.release (slot : ThreadSlot) : ThreadSlot × List HostEffect :=
  ({ slot with
      used := false, teb := none, stack := none
      finished := false, joined := false, handleClosed := false },
    (slot.teb.toList.map .freeTeb) ++ slot.stack.toList.map fun block => .unmap block.1 block.2)

namespace HandleState

variable (s : HandleState)

/-- The part of `tl_CloseHandle` for threads. -/
def closeThreadHandle : Handle → Option HandleOutcome
  | .thread index => (usedSlot ThreadSlot.used s.threads index).map fun slot =>
    if slot.finished && !slot.joined then
      ⟨.success, { s with threads := s.threads.set index slot.release.1 }, some slot.release.2⟩
    else
      ⟨.success, { s with threads := s.threads.set index { slot with handleClosed := true } }, none⟩
  | _ => none

def closeSnapshotHandle : Handle → Option HandleOutcome
  | .snapshot index => (usedSlot SnapshotSlot.used s.snapshots index).map fun _ =>
    ⟨.success, { s with snapshots := s.snapshots.set index {} }, some []⟩
  | _ => none

/-- The part for process identifiers. -/
def closeProcessHandle : Handle → Option HandleOutcome
  | .process _ => some ⟨.success, s, none⟩
  | _ => none

/-- `tl_CloseHandle`: the first part that knows the handle. -/
def closeHandle (removal : FileRemoval) (h : Handle) : HandleOutcome :=
  match h with
  | .null | .invalidHandleValue => ⟨.error kErrorInvalidHandle, s, none⟩
  | .standard _ => ⟨.success, s, none⟩
  | h =>
    (s.closeTokenHandle h <|> s.closeFileHandle removal h <|> s.closeReference h <|>
      s.closeSyncHandle h <|> s.closeIocpHandle h <|> s.closeMappingHandle h <|>
      s.closeThreadHandle h <|> s.closeSnapshotHandle h <|> s.closeProcessHandle h).getD
      ⟨.error kErrorInvalidHandle, s, none⟩

/-! ### `DuplicateHandle` -/

/-- `DUPLICATE_CLOSE_SOURCE`, which `tl_DuplicateHandle` does not read. -/
def kDuplicateCloseSource : UInt32 := 0x1

/-- The part of `tl_DuplicateHandle` for files. -/
def duplicateFileHandle (written : Bool) : Handle → Option HandleOutcome
  | .file index =>
    match usedSlot FileSlot.used s.files index with
    | none => some ⟨.error kErrorInvalidHandle, s, none⟩
    | some slot =>
      if written then
        let slot := slot.withRefCount (slot.header.refCount + 1)
        some ⟨.success, { s with files := s.files.set index slot }, none⟩
      else some ⟨.error kErrorInvalidParameter, s, none⟩
  | _ => none

/-- The part for objects with a header. -/
def duplicateReference (written : Bool) (h : Handle) : Option HandleOutcome :=
  match s.getObjectHeader h with
  | none => none
  | some header =>
    if written then
      some ⟨.success, s.setObjectHeader { header with refCount := header.refCount + 1 } h, none⟩
    else some ⟨.error kErrorInvalidParameter, s, none⟩

/-- The part for values that are their own duplicates. -/
def duplicateValue (written : Bool) : HandleOutcome :=
  if written then ⟨.success, s, none⟩ else ⟨.error kErrorInvalidParameter, s, none⟩

/-- `tl_DuplicateHandle`; `written` is whether the write of `*target_handle` succeeds. -/
def duplicateHandle (targetIsNull written : Bool) (h : Handle) : HandleOutcome :=
  if targetIsNull then ⟨.error kErrorInvalidParameter, s, none⟩
  else
    match h with
    | .null | .invalidHandleValue => ⟨.error kErrorInvalidHandle, s, none⟩
    | .standard _ => s.duplicateValue written
    | h =>
      match s.duplicateFileHandle written h <|> s.duplicateReference written h with
      | some outcome => outcome
      | none =>
        match h with
        | .process _ => s.duplicateValue written
        | _ => ⟨.error kErrorInvalidHandle, s, none⟩

/-! ### Threads that finish -/

/-- The section of `complete_host_thread` under the locks. -/
def finishThread (slot : ThreadSlot) : ThreadSlot :=
  if slot.handleClosed && !slot.joined then { slot with finished := true, joined := true }
  else { slot with finished := true }

/-! ### Runs -/

end HandleState

/-- The kinds of objects that `CloseHandle` releases. -/
def Handle.counted : Handle → Bool
  | .file _ | .thread _ | .sync _ | .mapping _ | .snapshot _ | .port _ => true
  | _ => false

/-- What happens: a handle is issued in a free slot, a slot or a table changes by other
functions, a handle is duplicated or closed, and a thread finishes or releases itself. -/
inductive HandleAction
  | openFile (index : ℕ) (fd : ℤ) (path : ByteString) (deleteOnClose : Bool)
  | createSync (index : ℕ) (childResultFd : ℤ)
  | createPort (index : ℕ)
  | createMapping (index : ℕ) (fd : ℤ)
  | createThread (index : ℕ) (teb : ℕ) (stack : ℕ × ℕ)
  | createSnapshot (index : ℕ)
  | disposition (index : ℕ) (deletePending unlinked : Bool)
  | childResult (index : ℕ) (fd : ℤ)
  | others (tokens : List Bool) (finds : List FindSlot)
  | duplicate (h : Handle) (targetIsNull written : Bool) (options : UInt32)
  | close (h : Handle) (removal : FileRemoval)
  | finish (index : ℕ)
  | release (index : ℕ)

namespace HandleState

variable (s : HandleState)

/-- The ledger after a call of `CloseHandle`. -/
def recordClose (h : Handle) (o : HandleOutcome) : Ledger Handle (List HostEffect) :=
  if h.counted then
    let ledger := if o.result = .success then s.ledger.close h else s.ledger
    match o.destroyed with
    | none => ledger
    | some effects => ledger.destroy h effects
  else s.ledger

/-- The ledger after a call of `DuplicateHandle`: the duplicates that do not close their source. -/
def recordDuplicate (h : Handle) (options : UInt32) (o : HandleOutcome) :
    Ledger Handle (List HostEffect) :=
  if h.counted && o.result = .success && options &&& kDuplicateCloseSource = 0 then
    s.ledger.duplicate h
  else s.ledger

def step (s : HandleState) : HandleAction → Option HandleState
  | .openFile index fd path deleteOnClose =>
    if s.files[index]?.any (!FileSlot.used ·) then some { s with
      files := s.files.set index ⟨true, ⟨.file, 1⟩, fd, path, deleteOnClose, false⟩
      ledger := s.ledger.issue (.file index) }
    else none
  | .createSync index childResultFd =>
    if s.syncs[index]?.any (!SyncSlot.used ·) then some { s with
      syncs := s.syncs.set index ⟨true, ⟨.sync, 1⟩, childResultFd⟩
      ledger := s.ledger.issue (.sync index) }
    else none
  | .createPort index =>
    if s.ports[index]?.any (!IoCompletionPortSlot.used ·) then some { s with
      ports := s.ports.set index ⟨true, ⟨.ioCompletionPort, 1⟩⟩
      ledger := s.ledger.issue (.port index) }
    else none
  | .createMapping index fd =>
    if s.mappings[index]?.any (!FileMappingSlot.used ·) then some { s with
      mappings := s.mappings.set index ⟨true, ⟨.fileMapping, 1⟩, fd⟩
      ledger := s.ledger.issue (.mapping index) }
    else none
  | .createThread index teb stack =>
    if s.threads[index]?.any (!ThreadSlot.used ·) then some { s with
      threads := s.threads.set index ⟨true, ⟨.thread, 1⟩, some teb, some stack, false, false, false⟩
      ledger := s.ledger.issue (.thread index) }
    else none
  | .createSnapshot index =>
    if s.snapshots[index]?.any (!SnapshotSlot.used ·) then some { s with
      snapshots := s.snapshots.set index ⟨true, ⟨.snapshot, 1⟩⟩
      ledger := s.ledger.issue (.snapshot index) }
    else none
  | .disposition index deletePending unlinked =>
    (usedSlot FileSlot.used s.files index).map fun slot => { s with
      files := s.files.set index
        { slot with deletePending := deletePending, unlinked := unlinked } }
  | .childResult index fd =>
    (usedSlot SyncSlot.used s.syncs index).map fun slot => { s with
      syncs := s.syncs.set index { slot with childResultFd := fd } }
  | .others tokens finds => some { s with tokens := tokens, finds := finds }
  | .duplicate h targetIsNull written options =>
    let o := s.duplicateHandle targetIsNull written h
    some { o.state with ledger := s.recordDuplicate h options o }
  | .close h removal =>
    let o := s.closeHandle removal h
    some { o.state with ledger := s.recordClose h o }
  | .finish index =>
    (usedSlot ThreadSlot.used s.threads index).bind fun slot =>
      if slot.finished then none
      else some { s with threads := s.threads.set index (finishThread slot) }
  | .release index =>
    (usedSlot ThreadSlot.used s.threads index).bind fun slot =>
      if slot.joined then some { s with
        threads := s.threads.set index slot.release.1
        ledger := s.ledger.destroy (.thread index) slot.release.2 }
      else none

/-- Empty tables of any sizes. -/
def start (files threads syncs mappings snapshots ports : ℕ) : HandleState where
  tokens := []
  files := replicate files {}
  threads := replicate threads {}
  syncs := replicate syncs {}
  finds := []
  mappings := replicate mappings {}
  snapshots := replicate snapshots {}
  ports := replicate ports {}

/-! ### The statement -/

/-- The handle is that of a thread that still runs, or is on its way out, after its last close. -/
def closedThread : Handle → Bool
  | .thread index => (usedSlot ThreadSlot.used s.threads index).any ThreadSlot.handleClosed
  | _ => false

/-- The object belongs to such a handle, and the thread is not through `complete_host_thread`. -/
def Lingers (object : ℕ) : Prop :=
  ∃ index slot, usedSlot ThreadSlot.used s.threads index = some slot ∧ slot.handleClosed = true ∧
    (slot.finished = true → slot.joined = true) ∧
    s.ledger.current (.thread index) = some object

/-- The object that the handle was issued for last has been destroyed, or there was none. -/
def Dead (h : Handle) : Prop :=
  ∀ object, s.ledger.current h = some object → s.ledger.destroyed object ≠ []

/-- No object is closed more often than its duplicates allow; it is destroyed once, exactly when
the closes have reached that number (and, if it is a thread, when it has finished); then its
handle is refused. -/
structure Counted : Prop where
  closes : ∀ o < s.ledger.issued, s.ledger.closes o ≤ 1 + s.ledger.duplicates o
  once : ∀ o < s.ledger.issued, (s.ledger.destroyed o).length ≤ 1
  exactly : ∀ o < s.ledger.issued, s.ledger.destroyed o ≠ [] ↔
    s.ledger.closes o = 1 + s.ledger.duplicates o ∧ ¬s.Lingers o
  refused : ∀ h removal, h.counted = true → s.Dead h →
    s.closeHandle removal h = ⟨.error kErrorInvalidHandle, s, none⟩

/-- The references of a slot can be counted up. -/
def hasRoom (h : Handle) : Bool :=
  match h with
  | .file index =>
    (usedSlot FileSlot.used s.files index).all fun slot => slot.header.refCount.toNat + 1 < 2 ^ 32
  | h => (s.getObjectHeader h).all fun header => header.refCount.toNat + 1 < 2 ^ 32

/-- The removal of a file that is to be deleted at this close does not fail. -/
def removes (h : Handle) (removal : FileRemoval) : Bool :=
  match h, removal with
  | .file index, .failed _ => (usedSlot FileSlot.used s.files index).all fun slot =>
    slot.header.refCount > 1 || !slot.deletePending || slot.unlinked
  | _, _ => true

/-- A duplicate does not ask to close its source; nobody uses the closed handle of a running
thread; a count does not overflow, and a delete-on-close does not fail. -/
def Orderly (s : HandleState) : HandleAction → Prop
  | .duplicate h _ _ options =>
    options &&& kDuplicateCloseSource = 0 ∧ s.closedThread h = false ∧ s.hasRoom h = true
  | .close h removal => s.closedThread h = false ∧ s.removes h removal = true
  | _ => True

instance (a : HandleAction) : Decidable (Orderly s a) := by
  cases a <;> unfold Orderly <;> infer_instance

/-! ### Slots -/

end HandleState

section Slots

variable {σ : Type} {used ud : σ → Bool} {tbl : List σ} {i j : ℕ} {x slot slo sl : σ}

theorem usedSlot_eq_some : usedSlot ud tbl i = some sl ↔ tbl[i]? = some sl ∧ ud sl := by
  unfold usedSlot
  rw [filter_eq_some_iff]

attribute [local simp] Option.filter

theorem usedSlot_set (h : i < tbl.length) : usedSlot ud (tbl.set i x) j =
    if i = j then (if ud x then some x else none) else usedSlot ud tbl j := by
  unfold usedSlot
  by_cases hi : i = j
  · subst hi
    by_cases hx : ud x = true <;> simp [h, hx]
  · simp [hi]

theorem map_usedSlot_set {f : σ → ℕ} (h : i < tbl.length) : (usedSlot ud (tbl.set i x) j).map f =
      if j = i then (if ud x then some (f x) else none) else (usedSlot ud tbl j).map f := by
  rw [usedSlot_set h]
  by_cases hi : i = j
  · subst hi
    by_cases hx : ud x = true <;> simp [hx]
  · simp [hi, Ne.symm hi]

theorem of_usedSlot {P : σ → Prop} (h : ∀ y ∈ tbl, used y → P y)
    (hs : usedSlot used tbl i = some slot) : P slot :=
  h slot (mem_of_getElem? (usedSlot_eq_some.1 hs).1) (usedSlot_eq_some.1 hs).2

theorem used_of_usedSlot (h : usedSlot ud tbl i = some sl) : ud sl :=
  (usedSlot_eq_some.1 h).2

theorem lt_of_usedSlot (h : usedSlot ud tbl i = some sl) : i < tbl.length :=
  (List.getElem?_eq_some_iff.1 (usedSlot_eq_some.1 h).1).1

theorem free_slot (h : tbl[i]?.any (!ud ·)) : i < tbl.length ∧ usedSlot ud tbl i = none := by
  unfold usedSlot
  cases hi : tbl[i]? with
  | none => simp [hi] at h
  | some sl =>
    refine ⟨(List.getElem?_eq_some_iff.1 hi).1, ?_⟩
    simp [hi] at h
    simp [h]

theorem issued_of_step {s s' : HandleState}
    (h : (if tbl[i]?.any (!ud ·) then some s else none) = some s') :
    i < tbl.length ∧ usedSlot ud tbl i = none ∧ s = s' := by
  obtain ⟨hf, hs⟩ := ite_none_right_eq_some.1 h
  obtain ⟨hl, hn⟩ := free_slot hf
  exact ⟨hl, hn, some.inj hs⟩

theorem usedSlot_replicate {n : ℕ} (h : ud x = false) : usedSlot ud (replicate n x) i = none := by
  unfold usedSlot
  by_cases hi : i < n <;> simp [hi, h]

theorem each_set {P : σ → Prop} (h : ∀ y ∈ tbl, P y) (hx : P x) : ∀ y ∈ tbl.set i x, P y :=
  fun y hy => (mem_or_eq_of_mem_set hy).elim (h y) fun heq => heq ▸ hx

theorem modify_eq_set (f : σ → σ) (h : usedSlot ud tbl i = some sl) :
    tbl.modify i f = tbl.set i (f sl) := by
  rw [modify_eq_set_getElem?, (usedSlot_eq_some.1 h).1]
  rfl

end Slots

/-! ### What the tables keep -/

/-- A header as the functions leave it. -/
structure ObjectHeader.Ok (header : ObjectHeader) (type : HandleObjectType) : Prop where
  type_eq : header.type = type
  pos : header.refCount ≠ 0

/-- A thread's slot: its handle is closed for good only while it runs. -/
structure ThreadSlot.Ok (slot : ThreadSlot) : Prop where
  header : slot.header.Ok .thread
  last : slot.handleClosed = true → slot.finished = true → slot.joined = true
  open_ : slot.handleClosed = false → slot.joined = false

namespace HandleState

/-- The tables are well formed. -/
structure Ok (s : HandleState) : Prop where
  files : ∀ slot ∈ s.files, slot.used = true → slot.header.Ok .file
  threads : ∀ slot ∈ s.threads, slot.used = true → slot.Ok
  syncs : ∀ slot ∈ s.syncs, slot.used = true → slot.header.Ok .sync
  mappings : ∀ slot ∈ s.mappings, slot.used = true → slot.header.Ok .fileMapping
  snapshots : ∀ slot ∈ s.snapshots, slot.used = true → slot.header.Ok .snapshot

/-- The references that a handle has left: those of its slot, and none for the closed handle of
a running thread. -/
def refs (s : HandleState) : Handle → Option ℕ
  | .file i => (usedSlot FileSlot.used s.files i).map fun slot => slot.header.refCount.toNat
  | .thread i => (usedSlot ThreadSlot.used s.threads i).map fun slot =>
    if slot.handleClosed then 0 else slot.header.refCount.toNat
  | .sync i => (usedSlot SyncSlot.used s.syncs i).map fun slot => slot.header.refCount.toNat
  | .mapping i =>
    (usedSlot FileMappingSlot.used s.mappings i).map fun slot => slot.header.refCount.toNat
  | .snapshot i =>
    (usedSlot SnapshotSlot.used s.snapshots i).map fun slot => slot.header.refCount.toNat
  | .port i => (usedSlot IoCompletionPortSlot.used s.ports i).map fun _ => 1
  | _ => none

section Refs

variable {s : HandleState} {i : ℕ}

theorem refs_setFile {x : FileSlot} (h : i < s.files.length) :
    refs { s with files := s.files.set i x } = update s.refs (.file i)
      (if x.used then some x.header.refCount.toNat else none) := by
  funext k
  cases k with
  | file j => simp only [refs, map_usedSlot_set h, update_apply, Handle.file.injEq]
  | _ => rw [update_of_ne (by simp)]; rfl

theorem refs_setThread {x : ThreadSlot} (h : i < s.threads.length) :
    refs { s with threads := s.threads.set i x } = update s.refs (.thread i)
      (if x.used then some (if x.handleClosed then 0 else x.header.refCount.toNat) else none) := by
  funext k
  cases k with
  | thread j => simp only [refs, map_usedSlot_set h, update_apply, Handle.thread.injEq]
  | _ => rw [update_of_ne (by simp)]; rfl

theorem refs_setSync {x : SyncSlot} (h : i < s.syncs.length) :
    refs { s with syncs := s.syncs.set i x } = update s.refs (.sync i)
      (if x.used then some x.header.refCount.toNat else none) := by
  funext k
  cases k with
  | sync j => simp only [refs, map_usedSlot_set h, update_apply, Handle.sync.injEq]
  | _ => rw [update_of_ne (by simp)]; rfl

theorem refs_setMapping {x : FileMappingSlot} (h : i < s.mappings.length) :
    refs { s with mappings := s.mappings.set i x } = update s.refs (.mapping i)
      (if x.used then some x.header.refCount.toNat else none) := by
  funext k
  cases k with
  | mapping j => simp only [refs, map_usedSlot_set h, update_apply, Handle.mapping.injEq]
  | _ => rw [update_of_ne (by simp)]; rfl

theorem refs_setSnapshot {x : SnapshotSlot} (h : i < s.snapshots.length) :
    refs { s with snapshots := s.snapshots.set i x } = update s.refs (.snapshot i)
      (if x.used then some x.header.refCount.toNat else none) := by
  funext k
  cases k with
  | snapshot j => simp only [refs, map_usedSlot_set h, update_apply, Handle.snapshot.injEq]
  | _ => rw [update_of_ne (by simp)]; rfl

theorem refs_setPort {x : IoCompletionPortSlot} (h : i < s.ports.length) :
    refs { s with ports := s.ports.set i x } = update s.refs (.port i)
      (if x.used then some 1 else none) := by
  funext k
  cases k with
  | port j => simp only [refs, map_usedSlot_set h, update_apply, Handle.port.injEq]
  | _ => rw [update_of_ne (by simp)]; rfl

end Refs

/-! ### Headers -/

def objectType : Handle → HandleObjectType
  | .thread _ => .thread
  | .sync _ => .sync
  | .mapping _ => .fileMapping
  | .snapshot _ => .snapshot
  | _ => .unknown

theorem toNat_refCount_sub {n : UInt32} (h : n > 1) : (n - 1).toNat + 1 = n.toNat ∧ n - 1 ≠ 0 := by
  have ho : (1 : UInt32).toNat = 1 := rfl
  rw [gt_iff_lt, UInt32.lt_iff_toNat_lt, ho] at h
  have hs : (n - 1).toNat = n.toNat - 1 := by
    rw [UInt32.toNat_sub_of_le n 1 (by rw [UInt32.le_iff_toNat_le]; omega)]
    rfl
  refine ⟨by omega, fun hz => ?_⟩
  rw [hz] at hs
  have h0 : (0 : UInt32).toNat = 0 := rfl
  omega

theorem toNat_refCount_one {n : UInt32} (hn : n ≠ 0) (h : ¬n > 1) : n.toNat = 1 := by
  have ho : (1 : UInt32).toNat = 1 := rfl
  have hp : n.toNat ≠ 0 := fun hz => hn (UInt32.toNat_inj.1 hz)
  rw [gt_iff_lt, UInt32.lt_iff_toNat_lt, ho] at h
  omega

theorem toNat_refCount_add {n : UInt32} (h : n.toNat + 1 < 2 ^ 32) :
    (n + 1).toNat = n.toNat + 1 ∧ n + 1 ≠ 0 := by
  have ho : (1 : UInt32).toNat = 1 := rfl
  have ha : (n + 1).toNat = n.toNat + 1 := by rw [UInt32.toNat_add, ho, Nat.mod_eq_of_lt h]
  refine ⟨ha, fun hz => ?_⟩
  rw [hz] at ha
  have h0 : (0 : UInt32).toNat = 0 := rfl
  omega

variable {s : HandleState} {h : Handle} {header hea : ObjectHeader}

attribute [local simp] refs

theorem Ok.getObjectHeader (ho : s.Ok) (hu : h.counted)
    (hg : s.getObjectHeader h = some header) (hc : s.closedThread h = false) :
    header.Ok (objectType h) ∧ s.refs h = some header.refCount.toNat ∧
      ∀ hr' : ObjectHeader, hr'.Ok (objectType h) → (s.setObjectHeader hr' h).Ok ∧
        (s.setObjectHeader hr' h).refs = update s.refs h (some hr'.refCount.toNat) := by
  cases h <;> simp only [Handle.counted, Bool.false_eq_true] at hu <;>
    simp only [HandleState.getObjectHeader, map_eq_some_iff, reduceCtorEq] at hg <;>
    obtain ⟨slot, hs, rfl⟩ := hg <;>
    simp [setObjectHeader, modify_eq_set _ hs]
  case thread i =>
    have ht := of_usedSlot ho.threads hs
    simp only [closedThread, hs, any_some] at hc
    refine ⟨ht.header, by simp [hs, hc], fun hr' hh =>
      ⟨{ ho with threads := each_set ho.threads fun _ => { ht with header := hh } },
      ?_⟩⟩
    rw [refs_setThread (lt_of_usedSlot hs)]
    simp [used_of_usedSlot hs, hc]
  case sync i =>
    refine ⟨(of_usedSlot ho.syncs hs :), by simp [hs], fun hr' hh =>
      ⟨{ ho with syncs := each_set ho.syncs fun _ => hh }, ?_⟩⟩
    rw [refs_setSync (lt_of_usedSlot hs)]
    simp [used_of_usedSlot hs]
  case mapping i =>
    refine ⟨(of_usedSlot ho.mappings hs :), by simp [hs], fun hr' hh =>
      ⟨{ ho with mappings := each_set ho.mappings fun _ => hh }, ?_⟩⟩
    rw [refs_setMapping (lt_of_usedSlot hs)]
    simp [used_of_usedSlot hs]
  case snapshot i =>
    refine ⟨(of_usedSlot ho.snapshots hs :), by simp [hs], fun hr' hh =>
      ⟨{ ho with snapshots := each_set ho.snapshots fun _ => hh }, ?_⟩⟩
    rw [refs_setSnapshot (lt_of_usedSlot hs)]
    simp [used_of_usedSlot hs]

/-! ### What `CloseHandle` does -/

/-- A close is refused, takes one reference away, or destroys the object with the last one. -/
inductive Closes (s : HandleState) (h : Handle) (o : HandleOutcome) : Prop
  | refused : s.refs h = none → o = ⟨.error kErrorInvalidHandle, s, none⟩ → Closes s h o
  | released (n : ℕ) : s.refs h = some (n + 1) → o.result = .success → o.destroyed = none →
      o.state.refs = update s.refs h (some n) → Closes s h o
  | destroyed (effects : List HostEffect) : s.refs h = some 1 → o.result = .success →
      o.destroyed = some effects → o.state.refs = update s.refs h none → Closes s h o

variable {removal re r : FileRemoval} {i : ℕ}

theorem closes_reference (hk : s.Ok) (hc : h.counted)
    (hg : s.getObjectHeader h = some hea) (hl : s.closedThread h = false)
    (hm : hea.refCount > 1) {o : HandleOutcome}
    (ho : o = ⟨.success, s.setObjectHeader { hea with refCount := hea.refCount - 1 } h, none⟩) :
    o.state.Ok ∧ Closes s h o := by
  obtain ⟨hh, hr, he⟩ := hk.getObjectHeader hc hg hl
  obtain ⟨hs, hn⟩ := toNat_refCount_sub hm
  obtain ⟨ho', hr'⟩ := he { hea with refCount := hea.refCount - 1 } ⟨hh.type_eq, hn⟩
  subst ho
  exact ⟨ho', .released _ (by rw [hr, hs]) rfl rfl hr'⟩

attribute [local simp] closeHandle closeTokenHandle closeSyncHandle closeIocpHandle
  closeMappingHandle closeThreadHandle closeSnapshotHandle closeProcessHandle

theorem closeHandle_of_none (hc : h.counted) (hn : s.refs h = none) :
    s.closeHandle r h = ⟨.error kErrorInvalidHandle, s, none⟩ := by
  cases h <;> simp only [Handle.counted, Bool.false_eq_true] at hc <;>
    simp only [refs, map_eq_none_iff] at hn <;>
    simp [closeFileHandle, closeReference, HandleState.getObjectHeader, hn]

theorem closeHandle_file : s.closeHandle r (.file i) =
    (s.closeFileHandle r (.file i)).getD ⟨.error kErrorInvalidHandle, s, none⟩ := by
  cases hf : s.closeFileHandle r (.file i) <;>
    simp [hf, closeReference, HandleState.getObjectHeader]

attribute [local simp] FileSlot.withRefCount

theorem closes_file {slot : FileSlot} (hk : s.Ok) (hre : s.removes (.file i) removal)
    (hs : usedSlot FileSlot.used s.files i = some slot) :
    (s.closeHandle removal (.file i)).state.Ok ∧
      Closes s (.file i) (s.closeHandle removal (.file i)) := by
  have hh := of_usedSlot hk.files hs
  have hr : s.refs (.file i) = some slot.header.refCount.toNat := by simp [hs]
  have he : ∀ x : FileSlot, (x.used → x.header.Ok .file) →
      Ok { s with files := s.files.set i x } := fun x hx =>
    { hk with files := each_set hk.files hx }
  by_cases hm : slot.header.refCount > 1
  · obtain ⟨hu, hn⟩ := toNat_refCount_sub hm
    have ho : s.closeHandle removal (.file i) = ⟨.success,
        { s with files := s.files.set i (slot.withRefCount (slot.header.refCount - 1)) },
        none⟩ := by
      simp [closeFileHandle, hs, hm]
    rw [ho]
    refine ⟨he _ fun _ => ⟨hh.type_eq, hn⟩,
      .released (slot.header.refCount - 1).toNat (by rw [hr, hu]) rfl rfl ?_⟩
    rw [refs_setFile (lt_of_usedSlot hs)]
    simp [used_of_usedSlot hs]
  · have hl : s.refs (.file i) = some 1 := by rw [hr, toNat_refCount_one hh.pos hm]
    -- the last close: a removal that fails is excluded
    have ho : ∃ es, s.closeHandle removal (.file i) =
        ⟨.success, { s with files := s.files.set i {} }, some es⟩ := by
      rw [closeHandle_file]
      simp only [closeFileHandle, hs, if_neg hm]
      cases hp : slot.deletePending && !slot.unlinked with
      | false => exact ⟨_, by simp; rfl⟩
      | true =>
        cases removal with
        | removed => exact ⟨_, by simp; rfl⟩
        | missing => exact ⟨_, by simp; rfl⟩
        | failed e =>
          exfalso
          simp [removes, hs, hm] at hre hp
          simp [hp] at hre
    obtain ⟨es, ho⟩ := ho
    rw [ho]
    refine ⟨he _ (nofun), .destroyed es hl rfl rfl ?_⟩
    rw [refs_setFile (lt_of_usedSlot hs)]
    simp

theorem closes_header (hk : s.Ok) (hc : h.counted)
    (hg : s.getObjectHeader h = some hea) (ho : s.closedThread h = false)
    (hl : s.closeReference h = none → s.refs h = some 1 →
      (s.closeHandle r h).state.Ok ∧ Closes s h (s.closeHandle r h)) :
    (s.closeHandle r h).state.Ok ∧ Closes s h (s.closeHandle r h) := by
  obtain ⟨hh, hr, -⟩ := hk.getObjectHeader hc hg ho
  have hf : hea.type ≠ .find := by
    rw [hh.type_eq]
    cases h <;> simp [objectType]
  by_cases hm : hea.refCount > 1
  · refine closes_reference hk hc hg ho hm ?_
    cases h <;> simp only [HandleState.getObjectHeader, reduceCtorEq] at hg <;>
      simp [closeFileHandle, closeReference, HandleState.getObjectHeader, hg, hf, hm]
  · apply hl
    · simp [closeReference, hg, hf, hm]
    · rw [hr, toNat_refCount_one hh.pos hm]

/-- The last close of a thread's handle destroys it when the thread has finished, and leaves it
to the thread otherwise. -/
theorem closes_thread {slot : ThreadSlot} (hk : s.Ok) (hc : s.closedThread (.thread i) = false)
    (hs : usedSlot ThreadSlot.used s.threads i = some slot) :
    (s.closeHandle removal (.thread i)).state.Ok ∧
      Closes s (.thread i) (s.closeHandle removal (.thread i)) := by
  refine closes_header hk rfl (congrArg (Option.map _) hs) hc fun hn hl => ?_
  have ht := of_usedSlot hk.threads hs
  have hop : slot.handleClosed = false := by simpa only [closedThread, hs, any_some] using hc
  have ho : s.closeHandle removal (.thread i) = if slot.finished && !slot.joined then
        ⟨.success, { s with threads := s.threads.set i slot.release.1 }, some slot.release.2⟩
      else ⟨.success,
        { s with threads := s.threads.set i { slot with handleClosed := true } }, none⟩ := by
    simp [closeFileHandle, hn, hs]
  rw [ho, ht.open_ hop]
  cases hfn : slot.finished with
  | true =>
    refine ⟨{ hk with threads := each_set hk.threads (nofun) },
      .destroyed slot.release.2 hl rfl rfl ?_⟩
    simp only [Bool.not_false, Bool.and_self, if_true]
    rw [refs_setThread (lt_of_usedSlot hs)]
    simp [ThreadSlot.release]
  | false =>
    refine ⟨{ hk with threads := each_set hk.threads fun _ => ⟨ht.header, fun _ hi => ?_,
      fun hf => ?_⟩ }, .released 0 hl rfl rfl ?_⟩
    · cases hi
    · cases hf
    · simp only [Bool.not_false, Bool.and_true, Bool.false_eq_true, if_false]
      rw [refs_setThread (lt_of_usedSlot hs)]
      simp [used_of_usedSlot hs]

theorem closeHandle_spec (hk : s.Ok) (hc : h.counted)
    (hcl : s.closedThread h = false) (he : s.removes h r) :
    (s.closeHandle r h).state.Ok ∧ Closes s h (s.closeHandle r h) := by
  cases hr : s.refs h with
  | none =>
    rw [closeHandle_of_none hc hr]
    exact ⟨hk, .refused hr rfl⟩
  | some n =>
    cases h <;> simp only [Handle.counted, Bool.false_eq_true] at hc <;>
      obtain ⟨sl, hs, -⟩ := map_eq_some_iff.1 hr
    case file i => exact closes_file hk he hs
    case thread i => exact closes_thread hk hcl hs
    case sync i =>
      refine closes_header hk rfl (congrArg (Option.map _) hs) rfl fun hn hl => ?_
      have ho : s.closeHandle r (.sync i) = ⟨.success, { s with syncs := s.syncs.set i {} },
          some (if sl.childResultFd ≥ 0 then [.close sl.childResultFd] else [])⟩ := by
        simp [closeFileHandle, hn, hs]
      rw [ho]
      refine ⟨{ hk with syncs := each_set hk.syncs (nofun) }, .destroyed _ hl rfl rfl ?_⟩
      rw [refs_setSync (lt_of_usedSlot hs)]
      simp
    case mapping i =>
      refine closes_header hk rfl (congrArg (Option.map _) hs) rfl fun hn hl => ?_
      have ho : s.closeHandle r (.mapping i) = ⟨.success,
          { s with mappings := s.mappings.set i { sl with used := false, fd := -1 } },
          some (if sl.fd ≥ 0 then [.close sl.fd] else [])⟩ := by
        simp [closeFileHandle, hn, hs]
      rw [ho]
      refine ⟨{ hk with mappings := each_set hk.mappings (nofun) }, .destroyed _ hl rfl rfl ?_⟩
      rw [refs_setMapping (lt_of_usedSlot hs)]
      simp
    case snapshot i =>
      refine closes_header hk rfl (congrArg (Option.map _) hs) rfl fun hn hl => ?_
      have ho : s.closeHandle r (.snapshot i) =
          ⟨.success, { s with snapshots := s.snapshots.set i {} }, some []⟩ := by
        simp [closeFileHandle, hn, hs]
      rw [ho]
      refine ⟨{ hk with snapshots := each_set hk.snapshots (nofun) }, .destroyed _ hl rfl rfl ?_⟩
      rw [refs_setSnapshot (lt_of_usedSlot hs)]
      simp
    case port i =>
      have ho : s.closeHandle r (.port i) =
          ⟨.success, { s with ports := s.ports.set i { sl with used := false } }, some []⟩ := by
        simp [closeFileHandle, closeReference, HandleState.getObjectHeader, hs]
      rw [ho]
      refine ⟨{ hk with }, .destroyed [] (by simp [hs]) rfl rfl ?_⟩
      rw [refs_setPort (lt_of_usedSlot hs)]
      simp

theorem closeHandle_uncounted (hk : s.Ok) (hc : h.counted = false) :
    (s.closeHandle r h).state.Ok ∧ (s.closeHandle r h).state.refs = s.refs := by
  cases h with
  | token i =>
    by_cases hop : s.tokens[i]? = some true
    · have ho : s.closeHandle r (.token i) =
          ⟨.success, { s with tokens := s.tokens.set i false }, none⟩ := by
        simp [hop]
      rw [ho]
      exact ⟨{ hk with }, rfl⟩
    · have ho : s.closeHandle r (.token i) = ⟨.error kErrorInvalidHandle, s, none⟩ := by
        simp [closeFileHandle, closeReference, HandleState.getObjectHeader, hop]
      rw [ho]
      exact ⟨hk, rfl⟩
  | find i =>
    cases hs : usedSlot FindSlot.used s.finds i with
    | none =>
      have ho : s.closeHandle r (.find i) = ⟨.error kErrorInvalidHandle, s, none⟩ := by
        simp [closeFileHandle, closeReference, HandleState.getObjectHeader, hs]
      rw [ho]
      exact ⟨hk, rfl⟩
    | some sl =>
      have hg : s.getObjectHeader (.find i) = some sl.header := by
        simp [HandleState.getObjectHeader, hs]
      simp only [closeHandle, closeTokenHandle, closeFileHandle, closeReference, hg,
        closeSyncHandle, closeIocpHandle, closeMappingHandle, closeThreadHandle,
        closeSnapshotHandle, closeProcessHandle, setObjectHeader]
      split
      · exact ⟨hk, rfl⟩
      · split
        · exact ⟨{ hk with }, rfl⟩
        · exact ⟨hk, rfl⟩
  | null => exact ⟨hk, rfl⟩
  | invalidHandleValue => exact ⟨hk, rfl⟩
  | standard st => exact ⟨hk, rfl⟩
  | process p => exact ⟨hk, rfl⟩
  | other v => exact ⟨hk, rfl⟩
  | _ => cases hc

/-! ### What `DuplicateHandle` does -/

/-- A duplicate fails, or adds a reference. -/
def Duplicates (s : HandleState) (h : Handle) (o : HandleOutcome) : Prop :=
  o.result ≠ .success ∧ o.state = s ∨
    ∃ n, s.refs h = some n ∧ o.result = .success ∧
      o.state.refs = update s.refs h (some (n + 1))

variable {written w : Bool}

theorem duplicates_file (ho : s.Ok) (hr : s.hasRoom (.file i)) :
    (s.duplicateHandle false written (.file i)).state.Ok ∧
      Duplicates s (.file i) (s.duplicateHandle false written (.file i)) := by
  simp only [duplicateHandle, duplicateFileHandle, Bool.false_eq_true, if_false]
  cases hs : usedSlot FileSlot.used s.files i with
  | none => exact ⟨ho, .inl ⟨by simp, rfl⟩⟩
  | some slot =>
    cases written with
    | false => exact ⟨ho, .inl ⟨by simp, rfl⟩⟩
    | true =>
      have hh := of_usedSlot ho.files hs
      obtain ⟨ha, hn⟩ := toNat_refCount_add (by simpa [hasRoom, hs] using hr)
      refine ⟨{ ho with files := each_set ho.files fun _ => ⟨hh.type_eq, hn⟩ },
        .inr ⟨slot.header.refCount.toNat, ?_, rfl, ?_⟩⟩
      · simp [hs]
      · refine (refs_setFile (lt_of_usedSlot hs)).trans ?_
        simp [used_of_usedSlot hs, ha]

attribute [local simp] duplicateHandle duplicateFileHandle

theorem duplicates_reference (hk : s.Ok) (hc : h.counted)
    (hf : ∀ i, h ≠ .file i) (hl : s.closedThread h = false) (hr : s.hasRoom h) :
    (s.duplicateHandle false w h).state.Ok ∧ Duplicates s h (s.duplicateHandle false w h) := by
  have ho : s.duplicateHandle false w h =
      (s.duplicateReference w h).getD ⟨.error kErrorInvalidHandle, s, none⟩ := by
    cases h with
    | file i => exact absurd rfl (hf i)
    | thread i => cases hd : s.duplicateReference w (.thread i) <;>
        simp [hd]
    | sync i => cases hd : s.duplicateReference w (.sync i) <;>
        simp [hd]
    | mapping i => cases hd : s.duplicateReference w (.mapping i) <;>
        simp [hd]
    | snapshot i => cases hd : s.duplicateReference w (.snapshot i) <;>
        simp [hd]
    | port i => rfl
    | _ => cases hc
  rw [ho]
  unfold duplicateReference
  cases hg : s.getObjectHeader h with
  | none => exact ⟨hk, .inl ⟨by simp, rfl⟩⟩
  | some hea =>
    cases w with
    | false => exact ⟨hk, .inl ⟨by simp, rfl⟩⟩
    | true =>
      obtain ⟨hh, hre, he⟩ := hk.getObjectHeader hc hg hl
      have hs : hea.refCount.toNat + 1 < 2 ^ 32 := by
        unfold hasRoom at hr
        split at hr
        · exact absurd rfl (hf _)
        · simpa [hg] using hr
      obtain ⟨ha, hn⟩ := toNat_refCount_add hs
      obtain ⟨ho', hr'⟩ := he { hea with refCount := hea.refCount + 1 } ⟨hh.type_eq, hn⟩
      refine ⟨ho', .inr ⟨hea.refCount.toNat, hre, rfl, ?_⟩⟩
      rw [← ha]
      exact hr'

theorem duplicateHandle_spec {t : Bool} (ho : s.Ok) (hc : h.counted)
    (hl : s.closedThread h = false) (hr : s.hasRoom h) :
    (s.duplicateHandle t w h).state.Ok ∧ Duplicates s h (s.duplicateHandle t w h) := by
  cases t with
  | true => exact ⟨ho, .inl ⟨by simp, rfl⟩⟩
  | false =>
    by_cases hf : ∃ i, h = .file i
    · obtain ⟨i, rfl⟩ := hf
      exact duplicates_file ho hr
    · exact duplicates_reference ho hc (fun i heq => hf ⟨i, heq⟩) hl hr

theorem duplicateHandle_uncounted {t : Bool} (ho : s.Ok) (hc : h.counted = false) :
    (s.duplicateHandle t w h).state.Ok ∧ (s.duplicateHandle t w h).state.refs = s.refs := by
  have hf : ∀ fs, Ok { s with finds := fs } ∧ refs { s with finds := fs } = s.refs :=
    fun fs => ⟨{ ho with }, rfl⟩
  unfold duplicateHandle
  cases t with
  | true => exact ⟨ho, rfl⟩
  | false =>
    cases h with
    | find i =>
      simp only [Bool.false_eq_true, if_false, duplicateFileHandle, duplicateReference]
      cases hg : s.getObjectHeader (.find i) with
      | none => exact ⟨ho, rfl⟩
      | some hea =>
        cases w with
        | false => exact ⟨ho, rfl⟩
        | true => exact hf _
    | standard st => cases w <;> exact ⟨ho, rfl⟩
    | process p => cases w <;> exact ⟨ho, rfl⟩
    | null => exact ⟨ho, rfl⟩
    | invalidHandleValue => exact ⟨ho, rfl⟩
    | token i => exact ⟨ho, rfl⟩
    | other v => exact ⟨ho, rfl⟩
    | _ => cases hc

/-! ### Steps -/

variable {s' : HandleState}

/-- What the steps keep: the tables are well formed, and their counts fit the ledger. -/
structure Sound (s : HandleState) : Prop where
  ok : s.Ok
  agrees : s.ledger.Agrees s.refs

theorem sound_start (fs t sy ms ss ps : ℕ) : (start fs t sy ms ss ps).Sound where
  ok := by
    constructor <;> intro sl hs hu <;> rw [eq_of_mem_replicate hs] at hu <;>
      cases hu
  agrees := by
    have hn : (start fs t sy ms ss ps).refs = fun _ => none := by
      funext h
      cases h <;> simp [start, usedSlot_replicate]
    rw [hn]
    exact Ledger.agrees_empty

theorem Sound.close (hs : s.Sound) (ho : s.Orderly (.close h r)) :
    Sound { (s.closeHandle r h).state with
      ledger := s.recordClose h (s.closeHandle r h) } := by
  by_cases hc : h.counted
  · obtain ⟨hk, hl⟩ := closeHandle_spec hs.ok hc ho.1 ho.2
    refine ⟨{ hk with }, ?_⟩
    show Ledger.Agrees (s.recordClose h (s.closeHandle r h)) (s.closeHandle r h).state.refs
    unfold recordClose
    rw [if_pos hc]
    cases hl with
    | refused _ heq =>
      rw [heq]
      exact hs.agrees
    | released n hr he hd hr' =>
      rw [he, hd, hr']
      exact hs.agrees.close hr
    | destroyed es hr he hd hr' =>
      rw [he, hd, hr']
      exact hs.agrees.closeLast hr es
  · obtain ⟨hk, hr⟩ : (s.closeHandle r h).state.Ok ∧ (s.closeHandle r h).state.refs = s.refs :=
      closeHandle_uncounted hs.ok (Bool.eq_false_iff.2 hc)
    refine ⟨{ hk with }, ?_⟩
    show Ledger.Agrees (s.recordClose h (s.closeHandle r h)) (s.closeHandle r h).state.refs
    unfold recordClose
    rw [if_neg hc, hr]
    exact hs.agrees

theorem Sound.duplicate {t : Bool} {os : UInt32} (hs : s.Sound)
    (ho : s.Orderly (.duplicate h t w os)) :
    Sound { (s.duplicateHandle t w h).state with
      ledger := s.recordDuplicate h os (s.duplicateHandle t w h) } := by
  by_cases hc : h.counted
  · obtain ⟨hk, hd⟩ : (s.duplicateHandle t w h).state.Ok ∧
        Duplicates s h (s.duplicateHandle t w h) :=
      duplicateHandle_spec hs.ok hc ho.2.1 ho.2.2
    refine ⟨{ hk with }, ?_⟩
    show Ledger.Agrees (s.recordDuplicate h os (s.duplicateHandle t w h))
      (s.duplicateHandle t w h).state.refs
    unfold recordDuplicate
    rcases hd with ⟨he, ht⟩ | ⟨n, hr, he, hr'⟩
    · rw [ht]
      simp only [hc, he, decide_false, Bool.and_false, Bool.false_and,
        Bool.false_eq_true, if_false]
      exact hs.agrees
    · rw [hr']
      simp only [hc, he, ho.1, decide_true, Bool.and_self, if_true]
      exact hs.agrees.duplicate hr
  · have hf := Bool.eq_false_iff.2 hc
    obtain ⟨hk, hr⟩ : (s.duplicateHandle t w h).state.Ok ∧
        (s.duplicateHandle t w h).state.refs = s.refs :=
      duplicateHandle_uncounted hs.ok hf
    refine ⟨{ hk with }, ?_⟩
    show Ledger.Agrees (s.recordDuplicate h os (s.duplicateHandle t w h))
      (s.duplicateHandle t w h).state.refs
    unfold recordDuplicate
    rw [hr]
    simp only [hf, Bool.false_and, Bool.false_eq_true, if_false]
    exact hs.agrees

theorem Sound.issue (hs : s.Sound) (ho : s'.Ok) (hf : s.refs h = none)
    (hl : s'.ledger = s.ledger.issue h) (hr : s'.refs = update s.refs h (some 1)) : s'.Sound := by
  refine ⟨ho, ?_⟩
  rw [hr, hl]
  exact hs.agrees.issue hf

theorem Sound.keep (hs : s.Sound) (ho : s'.Ok) (hl : s'.ledger = s.ledger)
    (hr : s'.refs = s.refs) : s'.Sound :=
  ⟨ho, by rw [hl, hr]; exact hs.agrees⟩

theorem Sound.step {a : HandleAction} (hs : s.Sound) (ho : s.Orderly a)
    (ht : s.step a = some s') : s'.Sound := by
  have hk := hs.ok
  cases a with
  | openFile i fd p d =>
    obtain ⟨hlt, hn, rfl⟩ := issued_of_step ht
    refine hs.issue (h := .file i)
      { hk with files := each_set hk.files fun _ => ⟨rfl, by simp⟩ } (by simp [hn]) rfl ?_
    exact refs_setFile hlt
  | createSync i c =>
    obtain ⟨hlt, hn, rfl⟩ := issued_of_step ht
    refine hs.issue (h := .sync i)
      { hk with syncs := each_set hk.syncs fun _ => ⟨rfl, by simp⟩ } (by simp [hn]) rfl ?_
    exact refs_setSync hlt
  | createPort i =>
    obtain ⟨hlt, hn, rfl⟩ := issued_of_step ht
    refine hs.issue (h := .port i) { hk with } (by simp [hn]) rfl ?_
    exact refs_setPort hlt
  | createMapping i fd =>
    obtain ⟨hlt, hn, rfl⟩ := issued_of_step ht
    refine hs.issue (h := .mapping i) { hk with mappings := each_set hk.mappings fun _ => ⟨rfl,
      by simp⟩ } (by simp [hn]) rfl ?_
    exact refs_setMapping hlt
  | createThread i te st =>
    obtain ⟨hlt, hn, rfl⟩ := issued_of_step ht
    refine hs.issue (h := .thread i)
      { hk with threads := each_set hk.threads fun _ => ⟨⟨rfl, by simp⟩, by simp,
      by simp⟩ } (by simp [hn]) rfl ?_
    exact refs_setThread hlt
  | createSnapshot i =>
    obtain ⟨hlt, hn, rfl⟩ := issued_of_step ht
    refine hs.issue (h := .snapshot i) { hk with snapshots := each_set hk.snapshots fun _ =>
      ⟨rfl, by simp⟩ } (by simp [hn]) rfl ?_
    exact refs_setSnapshot hlt
  | disposition i dp u =>
    obtain ⟨slot, hl, rfl⟩ := map_eq_some_iff.1 ht
    refine hs.keep { hk with files := each_set hk.files fun _ => (of_usedSlot hk.files hl :) }
      rfl ?_
    rw [refs_setFile (lt_of_usedSlot hl)]
    exact update_eq_self_iff.2 (by simp [hl, used_of_usedSlot hl])
  | childResult i fd =>
    obtain ⟨slot, hl, rfl⟩ := map_eq_some_iff.1 ht
    refine hs.keep { hk with syncs := each_set hk.syncs fun _ => (of_usedSlot hk.syncs hl :) }
      rfl ?_
    rw [refs_setSync (lt_of_usedSlot hl)]
    exact update_eq_self_iff.2 (by simp [hl, used_of_usedSlot hl])
  | others ts fs =>
    cases ht
    exact hs.keep { hk with } rfl rfl
  | duplicate h t written os =>
    cases ht
    exact hs.duplicate ho
  | close h removal =>
    cases ht
    exact hs.close ho
  | finish i =>
    obtain ⟨slot, hl, hr⟩ := bind_eq_some_iff.1 ht
    have hh := of_usedSlot hk.threads hl
    split at hr
    · cases hr
    cases hr
    have hf : (finishThread slot).used = slot.used ∧ (finishThread slot).header = slot.header ∧
        (finishThread slot).handleClosed = slot.handleClosed := by
      unfold finishThread
      split <;> exact ⟨rfl, rfl, rfl⟩
    refine hs.keep { hk with threads := each_set hk.threads fun _ => ⟨?_, fun hc _ => ?_,
      fun hop => ?_⟩ } rfl ?_
    · rw [hf.2.1]
      exact hh.header
    · rw [hf.2.2] at hc
      unfold finishThread
      cases slot.joined <;> simp [hc]
    · rw [hf.2.2] at hop
      unfold finishThread
      simp [hop, hh.open_ hop]
    · rw [refs_setThread (lt_of_usedSlot hl)]
      exact update_eq_self_iff.2 (by simp [hl, used_of_usedSlot hl, hf.1, hf.2.1, hf.2.2])
  | release i =>
    obtain ⟨slot, hl, hr⟩ := bind_eq_some_iff.1 ht
    have hh := of_usedSlot hk.threads hl
    split at hr
    · next hj =>
      cases hr
      -- only a closed handle leaves the release to the thread
      have hc : slot.handleClosed := by
        by_contra hop
        rw [hh.open_ (Bool.eq_false_iff.2 hop)] at hj
        cases hj
      have hz : s.refs (.thread i) = some 0 := by simp [hl, hc]
      refine ⟨{ hk with threads := each_set hk.threads (nofun) }, ?_⟩
      show Ledger.Agrees (s.ledger.destroy (.thread i) slot.release.2)
        (refs { s with threads := s.threads.set i slot.release.1 })
      rw [refs_setThread (lt_of_usedSlot hl)]
      exact hs.agrees.destroy hz _
    · cases hr

/-! ### The counts of a run -/

theorem Ok.zero (ho : s.Ok) (hz : s.refs h = some 0) :
    ∃ i sl, h = .thread i ∧ usedSlot ThreadSlot.used s.threads i = some sl ∧
      sl.handleClosed := by
  have hp : ∀ {hea : ObjectHeader} {t : HandleObjectType}, hea.Ok t →
      hea.refCount.toNat ≠ 0 := fun hh heq => hh.pos (UInt32.toNat_inj.1 heq)
  cases h <;> simp only [refs, map_eq_some_iff, reduceCtorEq] at hz <;>
    obtain ⟨sl, hs, hc⟩ := hz
  case file i => exact absurd hc (hp (of_usedSlot ho.files hs :))
  case sync i => exact absurd hc (hp (of_usedSlot ho.syncs hs :))
  case mapping i => exact absurd hc (hp (of_usedSlot ho.mappings hs :))
  case snapshot i => exact absurd hc (hp (of_usedSlot ho.snapshots hs :))
  case port i => cases hc
  case thread i =>
    split at hc
    · next hl => exact ⟨i, sl, rfl, hs, hl⟩
    · exact absurd hc (hp (of_usedSlot ho.threads hs).header)

theorem Sound.lingers_iff (hs : s.Sound) {o : ℕ} :
    s.Lingers o ↔ ∃ h, s.ledger.current h = some o ∧ s.refs h = some 0 := by
  constructor
  · rintro ⟨i, sl, hl, hc, -, hu⟩
    exact ⟨.thread i, hu, by simp [hl, hc]⟩
  · rintro ⟨h, hu, hz⟩
    obtain ⟨i, sl, rfl, hl, hc⟩ := hs.ok.zero hz
    exact ⟨i, sl, hl, hc, (of_usedSlot hs.ok.threads hl).last hc, hu⟩

theorem Sound.counted (hs : s.Sound) : s.Counted where
  closes := fun _ ho => hs.agrees.closes_le ho
  once := fun _ ho => (hs.agrees.destroyed_iff ho).1
  exactly := fun o ho => by
    rw [(hs.agrees.destroyed_iff ho).2, hs.lingers_iff]
    push Not
    rfl
  refused := fun h r hc hd => by
    have hn : s.refs h = none := by
      cases hr : s.refs h with
      | none => rfl
      | some n =>
        obtain ⟨o, hu, -, ha⟩ := hs.agrees.alive h n hr
        exact absurd ha (hd o hu)
    exact closeHandle_of_none hc hn

/-- **In a run in which no duplicate asks to close its source and nobody uses the closed handle
of a running thread, every object is destroyed once, exactly when its closes reach its
duplicates and one, and its handle is refused from then on.** -/
theorem handles_counted {files threads syncs mappings snapshots ports : ℕ}
    (h : Runs step Orderly (start files threads syncs mappings snapshots ports) s) : s.Counted :=
  (Runs.keeps (fun _ _ _ hs ho ht => Sound.step hs ho ht) h
    (sound_start files threads syncs mappings snapshots ports)).counted

/-- A file with a duplicate, and a thread that finishes after the close of its handle. -/
theorem handles_counted_fileAndThread : ∃ s : HandleState, Runs step Orderly (start 1 1 0 0 0 0) s ∧
      (List.range s.ledger.issued).map (fun o => (s.ledger.closes o, s.ledger.destroyed o)) =
        [(2, [[.close 7, .remove [97]]]), (1, [[.freeTeb 4096, .unmap 8192 65536]])] ∧
      s.Counted := by
  have hr : (runAll (guarded step Orderly) (start 1 1 0 0 0 0)
      [.openFile 0 7 [97] true, .createThread 0 4096 (8192, 65536),
        .duplicate (.file 0) false true 0, .close (.file 0) .removed, .close (.thread 0) .removed,
        .close (.file 0) .removed, .finish 0, .release 0]).map
      (fun s => (List.range s.ledger.issued).map fun o =>
        (s.ledger.closes o, s.ledger.destroyed o)) =
      some [(2, [[.close 7, .remove [97]]]), (1, [[.freeTeb 4096, .unmap 8192 65536]])] := by
    decide +kernel
  obtain ⟨s, hs, hc⟩ := map_eq_some_iff.mp hr
  exact ⟨s, Runs.of_guarded hs, hc, handles_counted (Runs.of_guarded hs)⟩

/-- A duplicate that was to close its source leaves an event that one close does not destroy. -/
theorem not_handles_counted : ¬∀ (files threads syncs mappings snapshots ports : ℕ)
    (s : HandleState), Runs step Free (start files threads syncs mappings snapshots ports) s →
      s.Counted := by
  intro ha
  have hr : (runAll step (start 0 0 1 0 0 0)
      [.createSync 0 (-1), .duplicate (.sync 0) false true kDuplicateCloseSource,
        .close (.sync 0) .removed]).map
      (fun s => ([s.ledger.issued, s.ledger.closes 0, s.ledger.duplicates 0, s.threads.length],
        s.ledger.destroyed 0)) = some ([1, 1, 0, 0], []) := by decide +kernel
  obtain ⟨s, hs, hc⟩ := map_eq_some_iff.mp hr
  simp only [Prod.mk.injEq, List.cons.injEq, and_true] at hc
  obtain ⟨⟨hi, ho, hu, ht⟩, hd⟩ := hc
  have hn := ha 0 0 1 0 0 0 s (Runs.of_runAll hs)
  refine (hn.exactly 0 (by omega)).mpr ⟨by omega, ?_⟩ hd
  rintro ⟨i, slot, hl, -⟩
  rw [length_eq_zero_iff.mp ht] at hl
  cases hl

end HandleState
end TradutorLinux.Process
