import TradutorLinux.Security.Acl
import TradutorLinux.Util.KeyedLists
import TradutorLinux.Util.Sequential

/-!
# The store of the security descriptors

The DACLs that have been set for the files of a prefix, by path, with the SID of
the user.  They are kept in the memory of the process and in a file of the prefix,
which is written after every change and read at the first use.

A call is given what `key_for_path` makes of its paths, and how the file system
answers while it runs.  The prefix of a process stays the same.  `unsaved` says
that the last save has failed; nothing in the source reads it.

## Main definitions

* `SecurityStore`
* `storeBytes`, `SecurityStore.loadBytes` — the file as it is written and read.
* `SecurityStore.save`, `load`
* `SecurityStore.setDaclForKey`, `removePath`, `renamePath` — the changes.
* `SecurityStore.call` — a call of a run.
-/

namespace TradutorLinux
namespace Security

/-! ### The file -/

/-- `kStoreMagic`. -/
def kStoreMagic : ByteString := text "TLSID10" ++ [0]

def kStoreVersion : ℕ := 1
def kMaxSecurityFileSize : ℕ := 8 * 1024 * 1024

abbrev DaclRecord := ByteString × ByteString

def recordBytes (record : DaclRecord) : ByteString :=
  toLE 4 record.1.length ++ (toLE 4 record.2.length ++ (record.1 ++ record.2))

/-- The file of a SID and of records in an order. -/
def storeBytes (userSid : ByteString) (records : List DaclRecord) : ByteString :=
  kStoreMagic ++ (toLE 4 kStoreVersion ++ (toLE 4 userSid.length ++ (userSid ++
    (toLE 4 records.length ++ records.flatMap recordBytes))))

/-- `unordered_map::emplace`: a record whose path is there is left out. -/
def emplace (records : List DaclRecord) (record : DaclRecord) : List DaclRecord :=
  match lookupKey Prod.fst records record.1 with
  | some _ => records
  | none => records ++ [record]

/-- A record off the front of the file. -/
def takeRecord (bytes : ByteString) : Option (DaclRecord × ByteString) := do
  let (pathSize, bytes) ← takeLE 4 bytes
  let (daclSize, bytes) ← takeLE 4 bytes
  let (path, bytes) ← takeBytes pathSize bytes
  let (dacl, bytes) ← takeBytes daclSize bytes
  if dacl.length < aclHeaderSize then none else some ((path, dacl), bytes)

/-- The loop over the records: the map so far, and what is left unless a record is bad. -/
def loadRecords : ℕ → ByteString → List DaclRecord → List DaclRecord × Option ByteString
  | 0, bytes, records => (records, some bytes)
  | count + 1, bytes, records =>
    match takeRecord bytes with
    | none => (records, none)
    | some (record, rest) => loadRecords count rest (emplace records record)

/-- How a map without an order is iterated. -/
structure Iteration where
  list : List DaclRecord → List DaclRecord
  perm : ∀ records, (list records).Perm records

/-- What the file system answers to `exists`, `file_size` and the reading of a file that is
there. -/
inductive Probe
  | fine
  | existsFails
  | sizeFails
  | readFails
deriving DecidableEq

/-- What a call finds around it: the answers of the file system, the random words, the
order of the map, and whether the save of the load, and that of the call, write the file. -/
structure Surroundings where
  probe : Probe := .fine
  seed : UInt32 × UInt32 × UInt32 := (0, 0, 0)
  order : Iteration := ⟨id, .refl⟩
  loadWrites : Bool := true
  writes : Bool := true

end Security

open Security
open TradutorLinux.Runtime (kErrorSuccess kErrorAccessDenied kErrorInvalidParameter)

/-- The state of a process, and the file of its prefix. -/
structure SecurityStore where
  userSid : ByteString := []
  daclByPath : List DaclRecord := []
  loaded : Bool := false
  unsaved : Bool := false
  file : Option ByteString := none
deriving DecidableEq

namespace SecurityStore

variable (s : SecurityStore)

/-! ### Loading and saving -/

def tooLong (records : List DaclRecord) : Bool :=
  records.any fun r => 2 ^ 32 ≤ r.1.length || 2 ^ 32 ≤ r.2.length

/-- `save_state_locked`. -/
def save (order : Iteration) (writes : Bool) : Bool × SecurityStore :=
  let records := order.list s.daclByPath
  if s.loaded = false ∨ s.userSid = [] then (false, s)
  else if tooLong records then (false, { s with unsaved := true })
  else if writes then
    (true, { s with file := some (storeBytes s.userSid records), unsaved := false })
  else (false, { s with unsaved := true })

/-- `load_state_locked`, from the contents of the file on. -/
def loadBytes (bytes : ByteString) : Bool × SecurityStore :=
  let header : Option (ℕ × ByteString) := do
    let (magic, bytes) ← takeBytes kStoreMagic.length bytes
    let (version, bytes) ← takeLE 4 bytes
    let (sidSize, bytes) ← takeLE 4 bytes
    if magic ≠ kStoreMagic ∨ version ≠ kStoreVersion ∨ sidSize < sidHeaderSize then none
    else some (sidSize, bytes)
  match header.bind fun h => takeBytes h.1 h.2 with
  | none => (false, s)
  | some (sid, bytes) =>
    let s := { s with userSid := sid }
    if sidLength sid ≠ some sid.length then (false, s)
    else match takeLE 4 bytes with
      | none => (false, s)
      | some (count, bytes) =>
        if kMaxAclEntries < count then (false, s)
        else
          let (records, rest) := loadRecords count bytes []
          let s := { s with daclByPath := records }
          if rest = some [] then (true, { s with loaded := true, unsaved := false })
          else (false, s)

/-- `load_state_locked`. -/
def load (e : Surroundings) : Bool × SecurityStore :=
  if s.loaded then (true, s)
  else
    let s := { s with userSid := [], daclByPath := [] }
    match if e.probe = .existsFails then none else s.file with
    | none =>
      let (a, b, c) := e.seed
      save { s with userSid := makeSid [0, 0, 0, 0, 0, 5] [21, a, b, c, 1000], loaded := true }
        e.order e.loadWrites
    | some bytes =>
      if e.probe = .sizeFails ∨ kMaxSecurityFileSize < bytes.length ∨ e.probe = .readFails then
        (false, s)
      else s.loadBytes bytes

/-! ### Changes -/

/-- `set_dacl_for_key_locked`, of a DACL that can be read. -/
def setDaclForKey (key acl : ByteString) (e : Surroundings) : UInt32 × SecurityStore :=
  match acceptedDacl acl with
  | .error code => (code, s)
  | .ok dacl =>
    let (saved, s) :=
      save { s with daclByPath := upsert Prod.fst s.daclByPath (key, dacl) } e.order e.writes
    (if saved then kErrorSuccess else kErrorAccessDenied, s)

def covers (key path : ByteString) : Bool := path == key || (key ++ [0x2F]).isPrefixOf path

/-- `remove_path`; without a key the path is not one of the prefix. -/
def removePath (key : Option ByteString) (e : Surroundings) : SecurityStore :=
  let (loaded, s) := s.load e
  match loaded, key with
  | true, some key =>
    if s.daclByPath.any fun r => covers key r.1 then
      (save { s with daclByPath := s.daclByPath.filter fun r => !covers key r.1 }
        e.order e.writes).2
    else s
  | _, _ => s

def renamed (oldKey newKey : ByteString) (r : DaclRecord) : DaclRecord :=
  (newKey ++ r.1.drop oldKey.length, r.2)

/-- `rename_path`; the records are moved in the order of the map. -/
def renamePath (keys : Option (ByteString × ByteString)) (e : Surroundings) : SecurityStore :=
  let (loaded, s) := s.load e
  match loaded, keys with
  | true, some (oldKey, newKey) =>
    let moved := ((e.order.list s.daclByPath).filter fun r => covers oldKey r.1).map
      (renamed oldKey newKey)
    if moved = [] then s
    else
      let rest := s.daclByPath.filter fun r => !covers oldKey r.1
      (save { s with daclByPath := moved.foldl (upsert Prod.fst) rest } e.order e.writes).2
  | _, _ => s

/-! ### Calls -/

/-- The statuses of `key_for_path` besides success. -/
inductive PathFailure
  | invalidParameter
  | accessDenied
  | fileNotFound
  | internalError
deriving DecidableEq

/-- `path_error`. -/
def pathError : PathFailure → UInt32
  | .invalidParameter => kErrorInvalidParameter
  | .accessDenied => kErrorAccessDenied
  | .fileNotFound => 2
  | .internalError => kErrorNotSupported

/-- A descriptor of the guest that can be read; its DACL is null or a pointer. -/
structure Descriptor where
  revision : UInt8
  daclPresent : Bool
  dacl : Option ByteString

/-- `tl_SetNamedSecurityInfoW`; the DACL is null or what can be read from the pointer on, the
key is what `key_for_wide_path` gives or its error. -/
def setNamedSecurityInfo (fileObject noSacl daclInformation : Bool) (dacl : Option ByteString)
    (key : Except PathFailure ByteString) (e : Surroundings) : UInt32 × SecurityStore :=
  if fileObject = false ∨ noSacl = false then (kErrorNotSupported, s)
  else if daclInformation = true ∧ dacl = none then (kErrorInvalidParameter, s)
  else match key with
    | .error failure => (pathError failure, s)
    | .ok key =>
      let (loaded, s) := s.load e
      if loaded = false then (kErrorAccessDenied, s)
      else match daclInformation, dacl with
        | true, some acl => s.setDaclForKey key acl e
        | _, _ => (kErrorSuccess, s)

/-- `tl_SetFileSecurityW`, which returns whether the error it sets is success. -/
def setFileSecurity (saclInformation daclInformation : Bool) (descriptor : Option Descriptor)
    (key : Except PathFailure ByteString) (e : Surroundings) : UInt32 × SecurityStore :=
  if saclInformation then (kErrorNotSupported, s)
  else match descriptor with
    | none => (kErrorInvalidParameter, s)
    | some d =>
      match d.dacl with
      | none => (kErrorInvalidParameter, s)
      | some acl =>
        if daclInformation = false ∨ d.revision ≠ kSidRevision ∨ d.daclPresent = false then
          (kErrorInvalidParameter, s)
        else match key with
          | .error failure => (pathError failure, s)
          | .ok key =>
            let (loaded, s) := s.load e
            if loaded = false then (kErrorAccessDenied, s) else s.setDaclForKey key acl e

/-- Another process begins. -/
def restart : SecurityStore := { file := s.file }

inductive Call
  | setNamedSecurityInfo (fileObject noSacl daclInformation : Bool) (dacl : Option ByteString)
    (key : Except PathFailure ByteString)
  | setFileSecurity (saclInformation daclInformation : Bool) (descriptor : Option Descriptor)
    (key : Except PathFailure ByteString)
  | removePath (key : Option ByteString)
  | renamePath (keys : Option (ByteString × ByteString))
  | restart

/-- A call, and the code that it reports. -/
def call (e : Surroundings) : Call → Option UInt32 × SecurityStore
  | .setNamedSecurityInfo fileObject noSacl daclInformation dacl key =>
    (s.setNamedSecurityInfo fileObject noSacl daclInformation dacl key e).map some id
  | .setFileSecurity saclInformation daclInformation descriptor key =>
    (s.setFileSecurity saclInformation daclInformation descriptor key e).map some id
  | .removePath key => (none, s.removePath key e)
  | .renamePath keys => (none, s.renamePath keys e)
  | .restart => (none, s.restart)

def dacl (path : ByteString) : Option ByteString :=
  if s.loaded then (lookupKey Prod.fst s.daclByPath path).map Prod.snd else none

end SecurityStore
end TradutorLinux
