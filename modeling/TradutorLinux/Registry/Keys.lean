import TradutorLinux.Registry.Strings
import TradutorLinux.Runtime.ErrorMap
import TradutorLinux.Util.HexFields
import TradutorLinux.Util.KeyedLists

/-!
# The registry of ADVAPI32

The keys and values of `advapi.cpp`.  A key is a slot of a table with the path it was
opened under; the values are a list, each with the path of its key, and are kept in
a text file with a line for each.  The file is read at the first use in a process and
written after every change.

The calls are those behind the two forms of each function, with the strings that
have been copied from the guest.  `bad_alloc` is left out, and so are the arguments
that nothing reads (options, access, class, reserved).

## Main definitions

* `RegistryValue`, `Registry` — a value; the table, the values and their file.
* `Registry.openKey`, `setValue`, `queryValue`, `deleteValue`, `closeKey`.
* `readRegistry`, `writeRegistry`
* `Registry.call` — a call of a run.

## Main results

* `Registry.setValue_cases`, `deleteValue_cases`, `openKey_cases`
-/

namespace TradutorLinux
namespace Advapi

/-! ### Values -/

def kRegSz : UInt32 := 1
def kRegExpandSz : UInt32 := 2
def kErrorFileNotFound : UInt32 := 2
def kErrorMoreData : UInt32 := 234

structure RegistryValue where
  keyPath : ByteString
  valueName : ByteString
  type : UInt32
  data : ByteString
deriving DecidableEq

def RegistryValue.key (v : RegistryValue) : ByteString × ByteString := (v.keyPath, v.valueName)

/-- `is_string_value`. -/
def isStringValue (type : UInt32) : Bool := type == kRegSz || type == kRegExpandSz

/-- `registry_data_for_query`. -/
def registryDataForQuery (v : RegistryValue) (wide : Bool) : ByteString :=
  if isStringValue v.type = false then v.data
  else if wide then utf8StringToWide v.data else utf8StringToAnsi v.data

/-! ### The file -/

/-- A line of the file, without its end. -/
def RegistryValue.line (v : RegistryValue) : ByteString :=
  encodeHex v.keyPath ++ 0x20 :: (encodeHex v.valueName ++ 0x20 ::
    (hexNumber v.type.toNat ++ 0x20 :: encodeHex v.data))

/-- `save_registry_locked`, as the contents of the file. -/
def writeRegistry (values : List RegistryValue) : ByteString :=
  values.flatMap fun v => v.line ++ [0x0A]

/-- `isspace`, which ends a field for `operator>>`. -/
def isSpace (c : UInt8) : Bool := c == 0x20 || (0x09 ≤ c && c ≤ 0x0D)

/-- A line of `load_registry_locked`; more fields than four are not read. -/
def parseLine (line : ByteString) : Option RegistryValue :=
  match words isSpace line with
  | key :: name :: type :: data :: _ => do
    let keyPath ← decodeHex key
    let valueName ← decodeHex name
    let bytes ← decodeHex data
    let number ← parseHexNumber (2 ^ 32) type
    return ⟨keyPath, valueName, .ofNat number, bytes⟩
  | _ => none

/-- The loop over the lines; an empty line has no fields. -/
def readRegistry (file : ByteString) : List RegistryValue :=
  (words (· == 0x0A) file).filterMap parseLine

/-- A value of `ensure_default_registry_keys`, a string with its terminator. -/
def defaultSz (key name value : String) : RegistryValue :=
  ⟨text key, text name, kRegSz, text value ++ [0]⟩

/-- The values that installers ask for. -/
def defaultValues : List RegistryValue :=
  let current := "HKEY_LOCAL_MACHINE\\Software\\Microsoft\\Windows\\CurrentVersion"
  let currentNt := "HKEY_LOCAL_MACHINE\\Software\\Microsoft\\Windows NT\\CurrentVersion"
  [defaultSz current "ProgramFilesDir" "C:\\Program Files",
    defaultSz current "ProgramFilesDir (x86)" "C:\\Program Files (x86)",
    defaultSz current "CommonFilesDir" "C:\\Program Files\\Common Files",
    defaultSz current "SystemRoot" "C:\\windows",
    defaultSz currentNt "ProductName" "Windows 10 Pro",
    defaultSz currentNt "CurrentVersion" "6.3",
    defaultSz currentNt "CurrentBuild" "19045",
    defaultSz currentNt "CurrentBuildNumber" "19045",
    defaultSz currentNt "SystemRoot" "C:\\windows",
    defaultSz "HKEY_CURRENT_USER\\Environment" "TEMP" "C:\\windows\\temp",
    defaultSz "HKEY_CURRENT_USER\\Environment" "TMP" "C:\\windows\\temp"]

/-- `set_default_sz`: a value is added unless its key has one. -/
def setDefault (values : List RegistryValue) (v : RegistryValue) : List RegistryValue :=
  match lookupKey RegistryValue.key values v.key with
  | some _ => values
  | none => values ++ [v]

/-- `ensure_default_registry_keys`. -/
def ensureDefaults (values : List RegistryValue) : List RegistryValue :=
  defaultValues.foldl setDefault values

/-! ### The registry -/

/-- A slot of `g_keys`. -/
structure RegistryKey where
  isOpen : Bool := false
  path : ByteString := []
deriving DecidableEq

/-- A handle: the address of a slot, or another number, of which the low word is read. -/
inductive Hkey
  | slot (index : ℕ)
  | value (word : UInt32)
deriving DecidableEq

/-- A pointer to where an answer goes. -/
inductive GuestOut
  | null
  | writable
  | unwritable
deriving DecidableEq

def kRegistryKeys : ℕ := 256

end Advapi

open Advapi
open TradutorLinux.Runtime (kErrorSuccess kErrorInvalidHandle kErrorNotEnoughMemory
  kErrorInvalidParameter)

/-- The registry of a process, and its file. -/
structure Registry where
  keys : ℕ → RegistryKey := fun _ => {}
  values : List RegistryValue := []
  loaded : Bool := false
  file : ByteString

namespace Registry

variable (s : Registry)

/-- `load_registry_locked`. -/
def load : Registry :=
  if s.loaded then s
  else { s with loaded := true, values := ensureDefaults (s.values ++ readRegistry s.file) }

/-- `save_registry_locked`; the file can be opened or not. -/
def save (opens : Bool) : Registry :=
  if opens then { s with file := writeRegistry s.values } else s

def lookup (path name : ByteString) : Option RegistryValue :=
  lookupKey RegistryValue.key s.values (path, name)

/-- One slot is written. -/
def setKey (i : ℕ) (key : RegistryKey) : Registry :=
  { s with keys := Function.update s.keys i key }

/-- `is_predefined_key`. -/
def isPredefinedKey : Hkey → Bool
  | .value word => 0x80000000 ≤ word && word ≤ 0x80000006
  | .slot _ => false

/-- `predefined_key_prefix`. -/
def predefinedKeyPrefix (word : UInt32) : ByteString :=
  if word = 0x80000000 then text "HKEY_CLASSES_ROOT"
  else if word = 0x80000001 then text "HKEY_CURRENT_USER"
  else if word = 0x80000002 then text "HKEY_LOCAL_MACHINE"
  else if word = 0x80000003 then text "HKEY_USERS"
  else if word = 0x80000005 then text "HKEY_CURRENT_CONFIG"
  else []

/-- `find_key`, as the path of the slot. -/
def findKey : Hkey → Option ByteString
  | .slot i => if i < kRegistryKeys ∧ (s.keys i).isOpen = true then some (s.keys i).path else none
  | .value _ => none

/-- Two parts of a path; an empty one is none. -/
def joinPath (front back : ByteString) : ByteString :=
  if front = [] ∨ back = [] then front ++ back else front ++ 0x5C :: back

/-- `compose_key_path`; nothing where `valid` stays false. -/
def composeKeyPath (key : Hkey) (subkey : ByteString) : Option ByteString :=
  match key with
  | .value word =>
    if isPredefinedKey (.value word) then some (joinPath (predefinedKeyPrefix word) subkey)
    else none
  | .slot i => (s.findKey (.slot i)).map fun path => joinPath path subkey

/-- The first slot that is not open. -/
def freeKey : Option ℕ := (List.range kRegistryKeys).find? fun i => !(s.keys i).isOpen

/-- How a call of `open_key` ends: what it returns, and what it writes to its two pointers. -/
structure OpenAnswer where
  code : UInt32
  handle : Option ℕ := none
  disposition : Option UInt32 := none
deriving DecidableEq

/-- `open_key`. -/
def openKey (key : Hkey) (subkey : ByteString) (result disposition : GuestOut) (create : Bool) :
    OpenAnswer × Registry :=
  if result = .null then (⟨kErrorInvalidParameter, none, none⟩, s)
  else match s.composeKeyPath key subkey with
    | none => (⟨kErrorFileNotFound, none, none⟩, s)
    | some path =>
      if create = false ∧ path = [] then (⟨kErrorFileNotFound, none, none⟩, s)
      else match s.freeKey with
        | none => (⟨kErrorNotEnoughMemory, none, none⟩, s)
        | some i =>
          let s' := s.load
          let existed := s'.values.any fun v => v.keyPath == path
          if result = .unwritable ∨ disposition = .unwritable then
            (⟨kErrorInvalidParameter, none, none⟩, s'.setKey i {})
          else
            (⟨kErrorSuccess, some i,
              if disposition = .null then none else some (if existed then 2 else 1)⟩,
              s'.setKey i ⟨true, path⟩)

/-- What `set_value` keeps of the data. -/
def storedData (type : UInt32) (data : ByteString) (wide : Bool) : ByteString :=
  if data = [] then [] else if isStringValue type then stringValueToUtf8 data wide else data

/-- `set_value`; no data is data that cannot be read. -/
def setValue (key : Hkey) (name : ByteString) (type : UInt32) (data : Option ByteString)
    (wide opens : Bool) : UInt32 × Registry :=
  match data with
  | none => (kErrorInvalidParameter, s)
  | some data =>
    match s.findKey key with
    | none => (kErrorInvalidParameter, s)
    | some path =>
      let s' := s.load
      let stored := storedData type data wide
      if data ≠ [] ∧ isStringValue type = true ∧ stored = [] then (kErrorInvalidParameter, s')
      else
        let values := upsert RegistryValue.key s'.values ⟨path, name, type, stored⟩
        (kErrorSuccess, { s' with values := values }.save opens)

/-- How a call of `query_value` ends: what it returns, and what it writes. -/
structure QueryAnswer where
  code : UInt32
  type : Option UInt32 := none
  data : Option ByteString := none
  size : Option ℕ := none
deriving DecidableEq

/-- `query_value`; `capacity` is what can be read of `data_size`. -/
def queryValue (key : Hkey) (name : ByteString) (type data : GuestOut) (capacity : Option ℕ)
    (sizeWritable wide : Bool) : QueryAnswer × Registry :=
  match capacity with
  | none => (⟨kErrorInvalidParameter, none, none, none⟩, s)
  | some capacity =>
    match s.findKey key with
    | none => (⟨kErrorInvalidParameter, none, none, none⟩, s)
    | some path =>
      let s' := s.load
      match s'.lookup path name with
      | none => (⟨kErrorFileNotFound, none, none, none⟩, s')
      | some v =>
        if type = .unwritable then (⟨kErrorInvalidParameter, none, none, none⟩, s')
        else
          let written := if type = .null then none else some v.type
          let output := registryDataForQuery v wide
          -- the size is a word of 32 bits
          let required := output.length % 2 ^ 32
          if data = .null ∨ capacity < required then
            if sizeWritable = false then (⟨kErrorInvalidParameter, written, none, none⟩, s')
            else (⟨if data = .null then kErrorSuccess else kErrorMoreData, written, none,
              some required⟩, s')
          else if required ≠ 0 ∧ data = .unwritable then
            (⟨kErrorInvalidParameter, written, none, none⟩, s')
          else if sizeWritable = false then
            (⟨kErrorInvalidParameter, written, some (output.take required), none⟩, s')
          else (⟨kErrorSuccess, written, some (output.take required), some required⟩, s')

/-- `delete_value`. -/
def deleteValue (key : Hkey) (name : ByteString) (opens : Bool) : UInt32 × Registry :=
  match s.findKey key with
  | none => (kErrorInvalidHandle, s)
  | some path =>
    let s' := s.load
    match s'.lookup path name with
    | none => (kErrorFileNotFound, s')
    | some _ =>
      let values := s'.values.eraseP fun v => decide (v.key = (path, name))
      (kErrorSuccess, { s' with values := values }.save opens)

/-- `tl_RegCloseKey`. -/
def closeKey (key : Hkey) : UInt32 × Registry :=
  match key, s.findKey key with
  | .slot i, some _ => (kErrorSuccess, s.setKey i {})
  | _, _ => (kErrorInvalidHandle, s)

/-- A process that has not used the registry yet. -/
def started (file : ByteString) : Registry := { file := file }

/-! ### Calls -/

/-- A call with its arguments. -/
inductive Call
  | openKey (key : Hkey) (subkey : ByteString) (result disposition : GuestOut) (create : Bool)
  | setValue (key : Hkey) (name : ByteString) (type : UInt32) (data : Option ByteString)
    (wide opens : Bool)
  | queryValue (key : Hkey) (name : ByteString) (type data : GuestOut) (capacity : Option ℕ)
    (sizeWritable wide : Bool)
  | deleteValue (key : Hkey) (name : ByteString) (opens : Bool)
  | closeKey (key : Hkey)

/-- How a call ends. -/
inductive Answer
  | opened (answer : OpenAnswer)
  | queried (answer : QueryAnswer)
  | returned (code : UInt32)
deriving DecidableEq

def Answer.code : Answer → UInt32
  | opened answer => answer.code
  | queried answer => answer.code
  | returned code => code

def call : Call → Answer × Registry
  | .openKey key subkey result disposition create =>
    let (answer, s') := s.openKey key subkey result disposition create
    (.opened answer, s')
  | .setValue key name type data wide opens =>
    let (code, s') := s.setValue key name type data wide opens
    (.returned code, s')
  | .queryValue key name type data capacity sizeWritable wide =>
    let (answer, s') := s.queryValue key name type data capacity sizeWritable wide
    (.queried answer, s')
  | .deleteValue key name opens =>
    let (code, s') := s.deleteValue key name opens
    (.returned code, s')
  | .closeKey key =>
    let (code, s') := s.closeKey key
    (.returned code, s')

/-! ### What the calls do -/

variable {s}

@[simp] theorem load_loaded : s.load.loaded := by
  unfold load
  split <;> simp_all

@[simp] theorem load_keys : s.load.keys = s.keys := by
  unfold load
  split <;> rfl

theorem load_of_loaded (h : s.loaded) : s.load = s := if_pos h

@[simp] theorem load_load : s.load.load = s.load := load_of_loaded load_loaded

@[simp] theorem save_values (os : Bool) : (s.save os).values = s.values := by cases os <;> rfl

@[simp] theorem save_keys (os : Bool) : (s.save os).keys = s.keys := by cases os <;> rfl

@[simp] theorem save_loaded (os : Bool) : (s.save os).loaded = s.loaded := by cases os <;> rfl

@[simp] theorem load_setKey (i : ℕ) (key : RegistryKey) :
    (s.setKey i key).load = s.load.setKey i key := by
  unfold load setKey
  split <;> rfl

/-- The registry after the load, with other values that have been saved. -/
def saved (s : Registry) (values : List RegistryValue) (opens : Bool) : Registry :=
  { s.load with values := values }.save opens

section

variable {values : List RegistryValue} (opens o os : Bool)

@[simp] theorem saved_values : (s.saved values os).values = values := save_values os

@[simp] theorem saved_keys : (s.saved values os).keys = s.keys := by
  rw [saved, save_keys]
  exact load_keys

@[simp] theorem load_saved : (s.saved values opens).load = s.saved values opens := by
  apply load_of_loaded
  rw [saved, save_loaded]
  exact load_loaded

end

/-- The value that a call of `set_value` puts. -/
def putBy (s : Registry) (key : Hkey) (name : ByteString) (type : UInt32)
    (data : Option ByteString) (wide : Bool) : Option RegistryValue := do
  let data ← data
  let path ← s.findKey key
  if data ≠ [] ∧ isStringValue type = true ∧ storedData type data wide = [] then none
  else some ⟨path, name, type, storedData type data wide⟩

/-- What is put has the path of its handle, the name and type that were given, and the data as
they are kept. -/
theorem putBy_eq_some {k : Hkey} {nm : ByteString} {t : UInt32}
    {d : Option ByteString} {wide : Bool} {v : RegistryValue} (h : s.putBy k nm t d wide = some v) :
    ∃ bs, d = some bs ∧ s.findKey k = some v.keyPath ∧ v.valueName = nm ∧
      v.type = t ∧ v.data = storedData t bs wide := by
  obtain ⟨bs, hd, h⟩ := Option.bind_eq_some_iff.1 h
  obtain ⟨p, hp, h⟩ := Option.bind_eq_some_iff.1 h
  split at h
  · cases h
  · cases h
    exact ⟨bs, hd, hp, rfl, rfl, rfl⟩

/-- The path and name of the value that a call of `delete_value` removes. -/
def removedBy (s : Registry) (key : Hkey) (name : ByteString) :
    Option (ByteString × ByteString) := do
  let path ← s.findKey key
  let _ ← s.load.lookup path name
  return (path, name)

/-- **A call of `set_value` puts its value, or leaves all as it was after the load.** -/
theorem setValue_cases (k : Hkey) (nm : ByteString) (t : UInt32)
    (d : Option ByteString) (w os : Bool) :
    (∃ v, s.putBy k nm t d w = some v ∧ s.setValue k nm t d w os =
        (kErrorSuccess, s.saved (upsert RegistryValue.key s.load.values v) os)) ∨
    (s.putBy k nm t d w = none ∧ ∃ s', (s' = s ∨ s' = s.load) ∧
      s.setValue k nm t d w os = (kErrorInvalidParameter, s')) := by
  unfold putBy setValue
  cases d with
  | none => exact .inr ⟨rfl, s, .inl rfl, rfl⟩
  | some d =>
    cases hk : s.findKey k with
    | none => exact .inr ⟨rfl, s, .inl rfl, rfl⟩
    | some p =>
      by_cases hb : d ≠ [] ∧ isStringValue t ∧ storedData t d w = []
      · exact .inr ⟨if_pos hb, s.load, .inr rfl, if_pos hb⟩
      · exact .inl ⟨_, if_neg hb, if_neg hb⟩

/-- **A call of `delete_value` removes its value, or leaves all as it was after the load.** -/
theorem deleteValue_cases (ke : Hkey) (nm : ByteString) (os : Bool) :
    (∃ k, s.removedBy ke nm = some k ∧ s.deleteValue ke nm os = (kErrorSuccess,
        s.saved (s.load.values.eraseP fun v => decide (v.key = k)) os)) ∨
    (s.removedBy ke nm = none ∧ ∃ c s', c ≠ kErrorSuccess ∧ (s' = s ∨ s' = s.load) ∧
      s.deleteValue ke nm os = (c, s')) := by
  unfold removedBy deleteValue
  cases hk : s.findKey ke with
  | none => exact .inr ⟨rfl, _, s, by decide, .inl rfl, rfl⟩
  | some p =>
    cases hf : s.load.lookup p nm with
    | none => refine .inr ⟨?_, kErrorFileNotFound, s.load, by decide, .inr rfl, ?_⟩ <;> simp [hf]
    | some v => refine .inl ⟨(p, nm), ?_, ?_⟩ <;> simp [hf, saved]

theorem queryValue_cases (k : Hkey) (nm : ByteString) (t d : GuestOut)
    (c : Option ℕ) (sz w : Bool) :
    (s.queryValue k nm t d c sz w).2 = s ∨
      (s.queryValue k nm t d c sz w).2 = s.load := by
  unfold queryValue
  split
  · exact .inl rfl
  split
  · exact .inl rfl
  · dsimp only
    repeat' split
    all_goals exact .inr rfl

/-- **A call of `open_key` opens the first free slot with the composed path, or it opens
nothing.** -/
theorem openKey_cases (k : Hkey) (sub : ByteString) (r d : GuestOut) (c : Bool) :
    (∃ p i, s.composeKeyPath k sub = some p ∧ s.freeKey = some i ∧ (c = false → p ≠ []) ∧
      (s.openKey k sub r d c).1.code = kErrorSuccess ∧
      (s.openKey k sub r d c).1.handle = some i ∧
      (s.openKey k sub r d c).2 = s.load.setKey i ⟨true, p⟩) ∨
    ((s.openKey k sub r d c).1.code ≠ kErrorSuccess ∧
      (s.openKey k sub r d c).1.handle = none ∧
      ((s.openKey k sub r d c).2 = s ∨ ∃ i, s.freeKey = some i ∧
          (s.openKey k sub r d c).2 = s.load.setKey i {})) := by
  have ha : kErrorInvalidParameter ≠ kErrorSuccess := by decide
  have hf : kErrorFileNotFound ≠ kErrorSuccess := by decide
  have hm : kErrorNotEnoughMemory ≠ kErrorSuccess := by decide
  unfold openKey
  split
  · exact .inr ⟨ha, rfl, .inl rfl⟩
  cases hpa : s.composeKeyPath k sub with
  | none => exact .inr ⟨hf, rfl, .inl rfl⟩
  | some p =>
    dsimp only
    split
    · exact .inr ⟨hf, rfl, .inl rfl⟩
    next ho =>
    cases hr : s.freeKey with
    | none => exact .inr ⟨hm, rfl, .inl rfl⟩
    | some i =>
      dsimp only
      split
      · exact .inr ⟨ha, rfl, .inr ⟨i, rfl, rfl⟩⟩
      · exact .inl ⟨p, i, rfl, rfl, fun hc hp => ho ⟨hc, hp⟩, rfl, rfl, rfl⟩

theorem closeKey_cases (k : Hkey) : (∃ i, k = .slot i ∧ (s.findKey k).isSome ∧
      s.closeKey k = (kErrorSuccess, s.setKey i {})) ∨
    s.closeKey k = (kErrorInvalidHandle, s) := by
  unfold closeKey
  cases k with
  | value w => exact .inr rfl
  | slot i =>
    cases hk : s.findKey (.slot i) with
    | none => exact .inr rfl
    | some p => exact .inl ⟨i, rfl, rfl, rfl⟩

def puts (s : Registry) : Call → Option RegistryValue
  | .setValue key name type data wide _ => s.putBy key name type data wide
  | _ => none

/-- **What holds of every value, and of what a call puts, holds of every value afterwards.** -/
theorem forall_values_call {P : RegistryValue → Prop} (hs : ∀ v ∈ s.load.values, P v) {c : Call}
    (hp : ∀ v, s.puts c = some v → P v) : ∀ v ∈ (s.call c).2.load.values, P v := by
  cases c with
  | openKey key sub r di cr =>
    show ∀ v ∈ (s.openKey key sub r di cr).2.load.values, P v
    rcases s.openKey_cases key sub r di cr with
      ⟨path, i, -, -, -, -, -, heq⟩ | ⟨-, -, heq | ⟨i, -, heq⟩⟩
    · rw [heq, load_setKey, load_load]
      exact hs
    · rwa [heq]
    · rw [heq, load_setKey, load_load]
      exact hs
  | setValue key nm t d w opens =>
    show ∀ v ∈ (s.setValue key nm t d w opens).2.load.values, P v
    rcases s.setValue_cases key nm t d w opens with
      ⟨u, hu, heq⟩ | ⟨-, s', rfl | rfl, heq⟩
    · rw [heq, load_saved, saved_values]
      intro v hv
      rcases mem_upsert hv with hold | rfl
      · exact hs v hold
      · exact hp v hu
    · rwa [heq]
    · rwa [heq, load_load]
  | queryValue key nm t d ca sz w =>
    show ∀ v ∈ (s.queryValue key nm t d ca sz w).2.load.values, P v
    rcases s.queryValue_cases key nm t d ca sz w with heq | heq
    · rwa [heq]
    · rwa [heq, load_load]
  | deleteValue key nm opens =>
    show ∀ v ∈ (s.deleteValue key nm opens).2.load.values, P v
    rcases s.deleteValue_cases key nm opens with
      ⟨k, -, heq⟩ | ⟨-, code, s', -, rfl | rfl, heq⟩
    · rw [heq, load_saved, saved_values]
      exact fun v hv => hs v (List.mem_of_mem_eraseP hv)
    · rwa [heq]
    · rwa [heq, load_load]
  | closeKey key =>
    show ∀ v ∈ (s.closeKey key).2.load.values, P v
    rcases s.closeKey_cases key with ⟨i, -, -, heq⟩ | heq
    · rw [heq, load_setKey]
      exact hs
    · rwa [heq]

end Registry
end TradutorLinux
