import Mathlib.Algebra.Order.BigOperators.Group.List
import Mathlib.Data.List.Lex
import TradutorLinux.Process.GuestStrings
import TradutorLinux.Process.Unicode
import TradutorLinux.Runtime.ErrorMap
import TradutorLinux.Util.SortedMap

/-!
# The environment of a process

The runtime keeps the variables of a guest in a map, by their names in capitals.  It
writes the map into a block for the guest, and it reads the block of a child into the
map of the child.  A block comes back as the map it was made from as long as every
entry is shorter than what one string may be, counted in the units of the block, and
the entries are within the limits of the reader, which counts bytes of UTF-8.

## Main definitions

* `Environment`, `Reachable` — the map, and the maps that a process can have.
* `allocateEnvironmentBlockA`, `allocateEnvironmentBlockW`, `parseEntries`,
  `createProcess`
* `Fits units env` — the entries are within the limits of the reader.

## Main results

* `Reachable.entries_ok`
* `parseEntries_block` — what is read of a block.
* `environment_roundTrip`
-/

namespace TradutorLinux.Process

open List SortedMap

open TradutorLinux.Runtime (kErrorInvalidParameter)

/-- The sign between a name and a value. -/
def equalSign : UInt8 := 0x3D

/-! ### The map -/

/-- `toupper` of the "C" locale. -/
def toupper (c : UInt8) : UInt8 := if 0x61 ≤ c ∧ c ≤ 0x7A then c - 0x20 else c

/-- `normalized_name`. -/
def normalizedName (name : ByteString) : ByteString := name.map toupper

/-- `valid_name`. -/
def validName (name : ByteString) : Bool :=
  !name.isEmpty && !name.contains equalSign && !name.contains 0

/-- A variable. -/
structure EnvironmentEntry where
  name : ByteString
  value : ByteString
deriving DecidableEq, Repr

/-- A key in the order of `std::string`, which compares bytes without a sign. -/
def nameKey (name : ByteString) : List ℕ := (normalizedName name).map UInt8.toNat

/-- `environment_entries`. -/
abbrev Environment := SortedMap EnvironmentEntry fun e => nameKey e.name

/-- The variable in a line of the host's environment.  The setting for the test
backend stays with the host. -/
def hostEntry (line : ByteString) : Option EnvironmentEntry :=
  let name := line.takeWhile (· ≠ equalSign)
  if name.length = line.length ∨ name = [] then none
  else if normalizedName name = text "TL_WININET_CA_FILE" then none
  else some ⟨name, line.drop (name.length + 1)⟩

/-- The paths of the prefix that a guest finds in its environment. -/
structure PrefixPaths where
  appDataRoaming : ByteString
  appDataLocal : ByteString
  temp : ByteString

def guestEntries (paths : PrefixPaths) : List EnvironmentEntry :=
  [⟨text "APPDATA", paths.appDataRoaming⟩, ⟨text "LOCALAPPDATA", paths.appDataLocal⟩,
    ⟨text "USERPROFILE", text "C:\\users\\guest"⟩, ⟨text "TEMP", paths.temp⟩,
    ⟨text "TMP", paths.temp⟩, ⟨text "HOMEDRIVE", text "C:"⟩,
    ⟨text "HOMEPATH", text "\\users\\guest"⟩]

/-- `initialize_locked`. -/
def initializeEnvironment (environ : List ByteString) (paths : PrefixPaths) : Environment :=
  .ofList (environ.filterMap hostEntry ++ guestEntries paths)

/-- `set_guest_environment_value`; without a value the variable goes. -/
def setGuestEnvironmentValue (env : Environment) (name : ByteString) (value : Option ByteString) :
    Option Environment :=
  if validName name then
    match value with
    | none => some (env.erase (nameKey name))
    | some value => some (env.insertOrAssign ⟨name, value⟩)
  else none

/-- An `EnvironmentEntryPair`. -/
abbrev EntryPair := ByteString × ByteString

/-- `reset_guest_environment`. -/
def resetGuestEnvironment (entries : List EntryPair) : Environment :=
  .ofList ((entries.filter fun e => validName e.1).map fun e => ⟨e.1, e.2⟩)

/-! ### Blocks -/

/-- An entry of the narrow block. -/
def EnvironmentEntry.ansi (e : EnvironmentEntry) : ByteString :=
  e.name ++ equalSign :: e.value

/-- An entry of `guest_environment_entries_w`. -/
def EnvironmentEntry.wide (e : EnvironmentEntry) : List UInt16 :=
  utf8ToWide e.name ++ 0x3D :: utf8ToWide e.value

/-- Every entry with its terminator, and one more. -/
def environmentBlock {α : Type} [GuestUnit α] (entries : List (List α)) : List α :=
  entries.flatMap (· ++ [terminator]) ++ [terminator]

/-- `allocate_environment_block_a`. -/
def allocateEnvironmentBlockA (env : Environment) : ByteString :=
  environmentBlock (env.entries.map EnvironmentEntry.ansi)

/-- The greatest `std::size_t`. -/
def maxSize : ℕ := 2 ^ 64 - 1

/-- The loop of `checked_environment_block_units`. -/
def checkedUnits (units : ℕ) : List ℕ → Option ℕ
  | [] => if units ≤ maxSize / 2 then some units else none
  | length :: lengths =>
    if length = maxSize ∨ units > maxSize - (length + 1) then none
    else checkedUnits (units + (length + 1)) lengths

/-- `allocate_environment_block_w`. -/
def allocateEnvironmentBlockW (env : Environment) : Option (List UInt16) :=
  let entries := env.entries.map EnvironmentEntry.wide
  (checkedUnits 1 (entries.map List.length)).map fun _ => environmentBlock entries

/-! ### Reading a block -/

def kMaxEnvironmentEntries : ℕ := 4096
def kMaxEnvironmentEntryLength : ℕ := 32768
def kMaxEnvironmentTotalBytes : ℕ := 1024 * 1024

/-- `accept_environment_entry`: how many bytes there are now, and the entries.  An entry
that begins with the sign is passed over. -/
def acceptEnvironmentEntry (entry : ByteString) (totalBytes : ℕ) (result : List EntryPair) :
    Option (ℕ × List EntryPair) :=
  match entry.idxOf? equalSign with
  | some 0 => some (totalBytes, result)
  | none => none
  | some equal =>
    if result.length ≥ kMaxEnvironmentEntries ∨ entry.length > kMaxEnvironmentEntryLength ∨
        entry.length > kMaxEnvironmentTotalBytes - totalBytes then none
    else some (totalBytes + entry.length, result ++ [(entry.take equal, entry.drop (equal + 1))])

section Parse

variable {α : Type} [GuestUnit α] [DecidableEq α]

/-- The loop of the two readers, with how many strings it may still read. -/
def parseEntries (narrow : List α → ByteString) :
    ℕ → GuestPointer α → ℕ → List EntryPair → Option (List EntryPair)
  | 0, _, _, _ => none
  | count + 1, cursor, totalBytes, result =>
    match copyGuestString cursor kMaxEnvironmentEntryLength with
    | none => none
    | some entry =>
      if entry = [] then some result
      else
        match acceptEnvironmentEntry (narrow entry) totalBytes result with
        | none => none
        | some (totalBytes, result) =>
          parseEntries narrow count (cursor.advance (entry.length + 1)) totalBytes result

end Parse

/-- `parse_ansi_environment_block`. -/
def parseAnsiEnvironmentBlock (environment : GuestPointer UInt8) : Option (List EntryPair) :=
  parseEntries id (kMaxEnvironmentEntries + 1) environment 0 []

/-- `parse_wide_environment_block`. -/
def parseWideEnvironmentBlock (environment : GuestPointer UInt16) : Option (List EntryPair) :=
  parseEntries wideToUtf8 (kMaxEnvironmentEntries + 1) environment 0 []

/-! ### The child -/

/-- A block that is given to a child; the flags of the call say which it is. -/
inductive EnvironmentBlock
  | ansi (environment : GuestPointer UInt8)
  | wide (environment : GuestPointer UInt16)

def EnvironmentBlock.parse : EnvironmentBlock → Option (List EntryPair)
  | .ansi environment => parseAnsiEnvironmentBlock environment
  | .wide environment => parseWideEnvironmentBlock environment

/-- The variables that `tl_CreateProcessA` hands over.  A block without any is refused. -/
def childEnvironment : Option EnvironmentBlock → Except UInt32 (List EntryPair)
  | none => .ok []
  | some block =>
    match block.parse with
    | none => .error kErrorInvalidParameter
    | some entries => if entries = [] then .error kErrorInvalidParameter else .ok entries

/-- The environment of the child that `run_created_guest_child` starts. -/
def runCreatedGuestChild (inherited : Environment) (environmentOverride : List EntryPair) :
    Environment :=
  if environmentOverride ≠ [] then resetGuestEnvironment environmentOverride else inherited

/-- The environment of a child of `parent`. -/
def createProcess (parent : Environment) (environment : Option EnvironmentBlock) :
    Except UInt32 Environment :=
  (childEnvironment environment).map (runCreatedGuestChild parent)

/-! ### What a process does -/

def kMaxEnvironmentStringUnits : ℕ := 32768

/-- `tl_SetEnvironmentVariableA` and `tl_SetEnvironmentVariableW`. -/
def setEnvironmentVariable {α : Type} [GuestUnit α] [DecidableEq α] (narrow : List α → ByteString)
    (env : Environment) (name : GuestPointer α) (value : Option (GuestPointer α)) :
    Option Environment :=
  match copyGuestString name kMaxEnvironmentStringUnits, value with
  | none, _ => none
  | some guestName, none => setGuestEnvironmentValue env (narrow guestName) none
  | some guestName, some value =>
    match copyGuestString value kMaxEnvironmentStringUnits with
    | none => none
    | some guestValue => setGuestEnvironmentValue env (narrow guestName) (some (narrow guestValue))

/-- The paths are strings of the host. -/
structure PrefixPaths.Ok (paths : PrefixPaths) : Prop where
  appDataRoaming : (0 : UInt8) ∉ paths.appDataRoaming
  appDataLocal : (0 : UInt8) ∉ paths.appDataLocal
  temp : (0 : UInt8) ∉ paths.temp

/-- The environments of the processes of a guest. -/
inductive Reachable : Environment → Prop
  | initialized {environ : List ByteString} {paths : PrefixPaths}
      (henviron : ∀ line ∈ environ, (0 : UInt8) ∉ line) (hpaths : paths.Ok) :
      Reachable (initializeEnvironment environ paths)
  | assignedA {env env' : Environment} {name : GuestPointer UInt8}
      {value : Option (GuestPointer UInt8)} (henv : Reachable env)
      (hset : setEnvironmentVariable id env name value = some env') : Reachable env'
  | assignedW {env env' : Environment} {name : GuestPointer UInt16}
      {value : Option (GuestPointer UInt16)} (henv : Reachable env)
      (hset : setEnvironmentVariable wideToUtf8 env name value = some env') : Reachable env'
  | created {parent child : Environment} {block : Option EnvironmentBlock}
      (hparent : Reachable parent) (hchild : createProcess parent block = .ok child) :
      Reachable child

/-! ### No terminator in a variable -/

/-- A variable that a block can hold. -/
structure EnvironmentEntry.Ok (e : EnvironmentEntry) : Prop where
  valid : validName e.name = true
  terminated : (0 : UInt8) ∉ e.value

theorem validName_iff {name : ByteString} :
    validName name ↔ name ≠ [] ∧ equalSign ∉ name ∧ (0 : UInt8) ∉ name := by
  simp [validName, and_assoc]

variable {block bl : EnvironmentBlock}

section Reach

variable {env : Environment} {e : EnvironmentEntry}

theorem hostEntry_ok {line : ByteString} (hl : (0 : UInt8) ∉ line)
    (h : hostEntry line = some e) : e.Ok := by
  simp only [hostEntry] at h
  split_ifs at h with hn
  cases h
  refine ⟨validName_iff.2 ⟨fun hi => hn (.inr hi), fun hm => ?_, fun hm => ?_⟩,
    fun hm => hl (mem_of_mem_drop hm)⟩
  · have he := mem_takeWhile_imp hm
    simp at he
  · exact hl (( takeWhile_prefix _).subset hm)

theorem guestEntries_ok {ps : PrefixPaths} (hp : ps.Ok) : ∀ e ∈ guestEntries ps, e.Ok := by
  intro e he
  simp only [guestEntries, mem_cons, not_mem_nil, or_false] at he
  rcases he with rfl | rfl | rfl | rfl | rfl | rfl | rfl
  · exact ⟨show validName (text "APPDATA") = true by decide +kernel, hp.appDataRoaming⟩
  · exact ⟨show validName (text "LOCALAPPDATA") = true by decide +kernel, hp.appDataLocal⟩
  · exact ⟨by decide +kernel, by decide +kernel⟩
  · exact ⟨show validName (text "TEMP") = true by decide +kernel, hp.temp⟩
  · exact ⟨show validName (text "TMP") = true by decide +kernel, hp.temp⟩
  · exact ⟨by decide +kernel, by decide +kernel⟩
  · exact ⟨by decide +kernel, by decide +kernel⟩

theorem setGuestEnvironmentValue_ok {e' : Environment} {nm : ByteString}
    {va : Option ByteString} (hn : ∀ e ∈ env.entries, e.Ok) (hv : ∀ v ∈ va, (0 : UInt8) ∉ v)
    (h : setGuestEnvironmentValue env nm va = some e') : ∀ e ∈ e'.entries, e.Ok := by
  unfold setGuestEnvironmentValue at h
  split_ifs at h with ha
  intro e he
  cases va with
  | none =>
    cases h
    exact hn e (SortedMap.mem_of_mem_erase he)
  | some va =>
    cases h
    rcases mem_insertOrAssign he with rfl | hm
    · exact ⟨ha, hv va rfl⟩
    · exact hn e hm

theorem resetGuestEnvironment_ok {es : List EntryPair} (h : ∀ p ∈ es, (0 : UInt8) ∉ p.2) :
    ∀ e ∈ (resetGuestEnvironment es).entries, e.Ok := by
  intro e he
  obtain ⟨p, hp, rfl⟩ := mem_map.1 (mem_of_mem_ofList he)
  obtain ⟨hm, hv⟩ := mem_filter.1 hp
  exact ⟨hv, h p hm⟩

theorem acceptEnvironmentEntry_ok {en : ByteString} {tb tb' : ℕ}
    {r r' : List EntryPair} (he : (0 : UInt8) ∉ en) (hr : ∀ p ∈ r, (0 : UInt8) ∉ p.2)
    (h : acceptEnvironmentEntry en tb r = some (tb', r')) : ∀ p ∈ r', (0 : UInt8) ∉ p.2 := by
  unfold acceptEnvironmentEntry at h
  split at h
  · cases h
    exact hr
  · cases h
  split_ifs at h
  cases h
  intro p hp
  rcases mem_append.1 hp with hm | hm
  · exact hr p hm
  · cases mem_singleton.1 hm
    exact fun hz => he (mem_of_mem_drop hz)

variable {α : Type} [GuestUnit α] [DecidableEq α] {nar : List α → ByteString}

theorem parseEntries_ok (hn : ∀ s, terminator ∉ s → (0 : UInt8) ∉ nar s) :
    ∀ (n : ℕ) (c : GuestPointer α) (tb : ℕ) (r o : List EntryPair),
      (∀ p ∈ r, (0 : UInt8) ∉ p.2) →
      parseEntries nar n c tb r = some o →
      ∀ p ∈ o, (0 : UInt8) ∉ p.2
  | 0, _, _, _, _, _, h => by cases h
  | n + 1, c, tb, r, o, hr, h => by
    rw [parseEntries] at h
    split at h
    · cases h
    next en hc =>
    split_ifs at h with hm
    · cases h
      exact hr
    split at h
    · cases h
    next tb' r' ha =>
    have he := hn en (copyGuestString_eq_some.1 hc).2.1
    exact parseEntries_ok hn n _ _ _ _ (acceptEnvironmentEntry_ok he hr ha) h

theorem setEnvironmentVariable_ok {e' : Environment} {nm : GuestPointer α}
    {va : Option (GuestPointer α)} (hn : ∀ s, terminator ∉ s → (0 : UInt8) ∉ nar s)
    (he : ∀ e ∈ env.entries, e.Ok) (h : setEnvironmentVariable nar env nm va = some e') :
    ∀ e ∈ e'.entries, e.Ok := by
  unfold setEnvironmentVariable at h
  split at h
  · cases h
  · exact setGuestEnvironmentValue_ok he (fun v hv => by cases hv) h
  split at h
  · cases h
  next gv hc =>
  refine setGuestEnvironmentValue_ok he (fun v hv => ?_) h
  cases hv
  exact hn gv (copyGuestString_eq_some.1 hc).2.1

theorem EnvironmentBlock.parse_ok {es : List EntryPair}
    (h : bl.parse = some es) : ∀ p ∈ es, (0 : UInt8) ∉ p.2 := by
  cases bl with
  | ansi en => exact parseEntries_ok (fun s hs => hs) _ _ _ _ _ (fun p hp => by cases hp) h
  | wide en =>
    exact parseEntries_ok (fun s _ => zero_notMem_wideToUtf8 s) _ _ _ _ _
      (fun p hp => by cases hp) h

theorem createProcess_eq_ok {p child : Environment} (h : createProcess p (some bl) = .ok child) :
    ∃ entries, entries ≠ [] ∧ bl.parse = some entries ∧ child = resetGuestEnvironment entries := by
  simp only [createProcess, childEnvironment] at h
  cases hp : bl.parse with
  | none => rw [hp] at h; cases h
  | some entries =>
    rw [hp] at h
    dsimp only at h
    split_ifs at h with he
    · cases h
    · refine ⟨entries, he, rfl, ?_⟩
      have hc : runCreatedGuestChild p entries = child := by injection h
      rw [← hc, runCreatedGuestChild, if_pos he]

/-- **In every process names and values end where their strings end.** -/
theorem Reachable.entries_ok (h : Reachable env) : ∀ e ∈ env.entries, e.Ok := by
  induction h with
  | initialized hn hp =>
    intro e he
    rcases mem_append.1 (mem_of_mem_ofList he) with hh | hg
    · obtain ⟨line, hl, hen⟩ := mem_filterMap.1 hh
      exact hostEntry_ok (hn line hl) hen
    · exact guestEntries_ok hp e hg
  | assignedA _ ht ih => exact setEnvironmentVariable_ok (fun s hs => hs) ih ht
  | assignedW _ ht ih =>
    exact setEnvironmentVariable_ok (fun s _ => zero_notMem_wideToUtf8 s) ih ht
  | @created parent child bl _ hc ih =>
    cases bl with
    | none =>
      cases hc
      exact ih
    | some bl =>
      obtain ⟨es, -, ha, rfl⟩ := createProcess_eq_ok hc
      exact resetGuestEnvironment_ok (EnvironmentBlock.parse_ok ha)

end Reach

/-! ### What is read of a block -/

section Blocks

variable {α : Type} [GuestUnit α] [DecidableEq α] {nar : List α → ByteString}
  {us : EnvironmentEntry → List α}

/-- The pair that the reader makes of a variable. -/
def EnvironmentEntry.pair (e : EnvironmentEntry) : EntryPair := (e.name, e.value)

theorem idxOf?_append_cons {a : UInt8} {f : ByteString} (b : ByteString)
    (h : a ∉ f) : (f ++ a :: b).idxOf? a = some f.length := by
  induction f with
  | nil => simp [idxOf?_cons]
  | cons c f ih =>
    have hn : (c == a) = false := beq_eq_false_iff_ne.2 fun heq => h (heq ▸ mem_cons_self)
    rw [cons_append, idxOf?_cons, hn, if_neg Bool.false_ne_true,
      ih fun hm => h (mem_cons_of_mem c hm)]
    rfl

theorem acceptEnvironmentEntry_ansi {e : EnvironmentEntry} (he : e.Ok) (totalBytes : ℕ)
    (r : List EntryPair) :
    acceptEnvironmentEntry e.ansi totalBytes r =
      if r.length ≥ kMaxEnvironmentEntries ∨ e.ansi.length > kMaxEnvironmentEntryLength ∨
          e.ansi.length > kMaxEnvironmentTotalBytes - totalBytes then none
      else some (totalBytes + e.ansi.length, r ++ [e.pair]) := by
  obtain ⟨hne, hs, -⟩ := validName_iff.1 he.valid
  have hi : e.ansi.idxOf? equalSign = some e.name.length := idxOf?_append_cons e.value hs
  have hn : e.ansi.take e.name.length = e.name := take_left
  have hv : e.ansi.drop (e.name.length + 1) = e.value := by
    rw [EnvironmentEntry.ansi, ← drop_drop, drop_left]
    rfl
  unfold acceptEnvironmentEntry
  rw [hi]
  split
  · next heq => exact absurd (length_eq_zero_iff.1 (Option.some.inj heq)) hne
  · next heq => cases heq
  · next eq _ heq =>
    cases heq
    rw [hn, hv]
    rfl

omit [DecidableEq α] in
theorem environmentBlock_cons (s : List α) (rest : List (List α)) :
    environmentBlock (s :: rest) = s ++ terminator :: environmentBlock rest := by
  simp [environmentBlock]

/-- The units of a variable, as the reader takes them. -/
structure Spells (narrow : List α → ByteString) (units : EnvironmentEntry → List α)
    (e : EnvironmentEntry) : Prop where
  ok : e.Ok
  terminated : terminator ∉ units e
  ne_nil : units e ≠ []
  narrow_eq : narrow (units e) = e.ansi

/-- What the reader accepts: each variable by itself, and how many bytes there are. -/
theorem parseEntries_block {es : List EnvironmentEntry} (h : ∀ e ∈ es, Spells nar us e) :
    ∀ {n : ℕ} {c : GuestPointer α} {tb : ℕ} {r o : List EntryPair},
      c.Holds (environmentBlock (es.map us)) →
      tb ≤ kMaxEnvironmentTotalBytes → r.length ≤ kMaxEnvironmentEntries →
      (parseEntries nar n c tb r = some o ↔
        o = r ++ es.map EnvironmentEntry.pair ∧ es.length < n ∧
          r.length + es.length ≤ kMaxEnvironmentEntries ∧
          (∀ e ∈ es, (us e).length < kMaxEnvironmentEntryLength ∧
            e.ansi.length ≤ kMaxEnvironmentEntryLength) ∧
          tb + (es.map (·.ansi.length)).sum ≤ kMaxEnvironmentTotalBytes) := by
  induction es with
  | nil =>
    intro n c tb r o hh ht hre
    have hh' : c.Holds ([] ++ terminator :: []) := hh
    cases n with
    | zero => simp [parseEntries]
    | succ n =>
      rw [parseEntries, copyGuestString_holds hh' not_mem_nil,
        if_pos (show [].length < kMaxEnvironmentEntryLength from Nat.zero_lt_succ _)]
      simp [ht, hre, eq_comm]
  | cons e es ih =>
    intro n c tb r o hh ht hre
    have he := h e mem_cons_self
    rw [map_cons, environmentBlock_cons] at hh
    cases n with
    | zero => simp [parseEntries]
    | succ n =>
      rw [parseEntries, copyGuestString_holds hh he.terminated]
      by_cases hs : (us e).length < kMaxEnvironmentEntryLength
      · rw [if_pos hs]
        simp only [if_neg he.ne_nil, he.narrow_eq, acceptEnvironmentEntry_ansi he.ok]
        by_cases hl : r.length ≥ kMaxEnvironmentEntries ∨
            e.ansi.length > kMaxEnvironmentEntryLength ∨
            e.ansi.length > kMaxEnvironmentTotalBytes - tb
        · rw [if_pos hl]
          simp only [reduceCtorEq, false_iff, length_cons, map_cons, sum_cons, forall_mem_cons]
          rintro ⟨-, -, hc, ⟨⟨-, hb⟩, -⟩, hu⟩
          omega
        · rw [if_neg hl]
          have hn : (c.advance ((us e).length + 1)).Holds (environmentBlock (es.map us)) := by
            have hf : (us e).length + 1 = (us e ++ [terminator]).length := by
              rw [length_append, length_singleton]
            rw [hf]
            refine GuestPointer.Holds.advance ?_
            rwa [append_assoc, singleton_append]
          have hle : (r ++ [e.pair]).length = r.length + 1 := by
            rw [length_append, length_singleton]
          rw [ih (fun e' he' => h e' (mem_cons_of_mem e he')) hn (by omega) (by rw [hle]; omega)]
          simp only [hle, length_cons, map_cons, sum_cons,
            forall_mem_cons, append_assoc, singleton_append]
          constructor
          · rintro ⟨ho, hlt, hc, hr, hu⟩
            exact ⟨ho, by omega, by omega, ⟨⟨hs, by omega⟩, hr⟩, by omega⟩
          · rintro ⟨ho, hlt, hc, ⟨-, hr⟩, hu⟩
            exact ⟨ho, by omega, by omega, hr, by omega⟩
      · rw [if_neg hs]
        simp only [reduceCtorEq, false_iff, forall_mem_cons]
        rintro ⟨-, -, -, ⟨⟨hlt, -⟩, -⟩, -⟩
        exact hs hlt

theorem parseEntries_skipped {ls : List (List α)}
    (h : ∀ l ∈ ls, terminator ∉ l ∧ l ≠ [] ∧ (nar l).head? = some equalSign) :
    ∀ {n : ℕ} {cu : GuestPointer α} {tb : ℕ} {result : List EntryPair},
      cu.Holds (environmentBlock ls) →
      parseEntries nar n cu tb result = none ∨ parseEntries nar n cu tb result = some result := by
  induction ls with
  | nil =>
    intro n cu tb result ho
    have hh' : cu.Holds ([] ++ terminator :: []) := ho
    cases n with
    | zero => exact .inl rfl
    | succ n =>
      rw [parseEntries, copyGuestString_holds hh' not_mem_nil,
        if_pos (show [].length < kMaxEnvironmentEntryLength from Nat.zero_lt_succ _)]
      exact .inr (if_pos rfl)
  | cons l ls ih =>
    intro n cu tb result ho
    obtain ⟨hnot, hn, hh⟩ := h l mem_cons_self
    rw [environmentBlock_cons] at ho
    cases n with
    | zero => exact .inl rfl
    | succ n =>
      rw [parseEntries, copyGuestString_holds ho hnot]
      by_cases hs : l.length < kMaxEnvironmentEntryLength
      · have ha : acceptEnvironmentEntry (nar l) tb result = some (tb, result) := by
          obtain ⟨rest, hr⟩ : ∃ rest, nar l = equalSign :: rest := by
            cases hl : nar l with
            | nil => rw [hl] at hh; cases hh
            | cons c rest =>
              rw [hl, head?_cons, Option.some.injEq] at hh
              exact ⟨rest, by rw [hh]⟩
          have hi : (equalSign :: rest).idxOf? equalSign = some 0 :=
            idxOf?_append_cons rest (not_mem_nil (a := equalSign))
          simp [acceptEnvironmentEntry, hr, hi]
        rw [if_pos hs]
        simp only [if_neg hn, ha]
        refine ih (fun l' hl' => h l' (mem_cons_of_mem l hl')) ?_
        have hf : l.length + 1 = (l ++ [terminator]).length := by
          rw [length_append, length_singleton]
        rw [hf]
        refine GuestPointer.Holds.advance ?_
        rwa [append_assoc, singleton_append]
      · exact .inl (by rw [if_neg hs])

end Blocks

/-! ### There and back -/

/-- The entries are within the limits of the reader: how many there are, the units of each, and
the bytes of each and of all in UTF-8. -/
structure Fits {α : Type} (units : EnvironmentEntry → List α) (env : Environment) : Prop where
  count : env.entries.length ≤ kMaxEnvironmentEntries
  units : ∀ e ∈ env.entries, (units e).length < kMaxEnvironmentEntryLength
  bytes : ∀ e ∈ env.entries, e.ansi.length ≤ kMaxEnvironmentEntryLength
  total : (env.entries.map (·.ansi.length)).sum ≤ kMaxEnvironmentTotalBytes

/-- The block is read back as the map, and its child has that map; only a block without
variables makes no child. -/
structure ReadsAs (block : EnvironmentBlock) (env : Environment) : Prop where
  parsed : ∃ entries, block.parse = some entries ∧ resetGuestEnvironment entries = env
  child : ∀ parent, createProcess parent (some block) =
    if env.entries = [] then .error kErrorInvalidParameter else .ok env

/-- Wherever the narrow block is, it is read as the map. -/
def RoundTripsA (env : Environment) : Prop :=
  ∀ environment, environment.Holds (allocateEnvironmentBlockA env) →
    ReadsAs (.ansi environment) env

/-- Wherever the wide block is, it is read as the map. -/
def RoundTripsW (env : Environment) : Prop :=
  ∃ block, allocateEnvironmentBlockW env = some block ∧
    ∀ environment, environment.Holds block → ReadsAs (.wide environment) env

/-- Names and values are text. -/
def HoldsText (env : Environment) : Prop :=
  ∀ e ∈ env.entries, IsUtf8 e.name ∧ IsUtf8 e.value

/-- A block takes the place of the environment of the parent, whatever is in it; from an empty
one, and from one with nothing but lines of a drive, there is no child. -/
structure ReplacesParent : Prop where
  given : ∀ block parent child, createProcess parent (some block) = .ok child →
    ∃ entries, entries ≠ [] ∧ block.parse = some entries ∧ child = resetGuestEnvironment entries
  drivesA : ∀ (environment : GuestPointer UInt8) lines parent,
    (∀ line ∈ lines, (0 : UInt8) ∉ line ∧ line.head? = some equalSign) →
    environment.Holds (environmentBlock lines) →
    createProcess parent (some (.ansi environment)) = .error kErrorInvalidParameter
  drivesW : ∀ (environment : GuestPointer UInt16) lines parent,
    (∀ line ∈ lines, (0 : UInt16) ∉ line ∧ line.head? = some 0x3D) →
    environment.Holds (environmentBlock lines) →
    createProcess parent (some (.wide environment)) = .error kErrorInvalidParameter

section RoundTrip

variable {env : Environment} {e : EnvironmentEntry}

theorem spells_ansi (he : e.Ok) : Spells id EnvironmentEntry.ansi e where
  ok := he
  terminated := by
    have hn := (validName_iff.1 he.valid).2.2
    show (0 : UInt8) ∉ e.name ++ equalSign :: e.value
    rw [mem_append, mem_cons]
    rintro (hm | heq | hm)
    · exact hn hm
    · exact absurd heq (by decide)
    · exact he.terminated hm
  ne_nil := by simp [EnvironmentEntry.ansi]
  narrow_eq := rfl

/-- In text the two entries of a variable are the same characters. -/
theorem spells_wide (he : e.Ok) (hna : IsUtf8 e.name) (hv : IsUtf8 e.value) :
    Spells wideToUtf8 EnvironmentEntry.wide e := by
  obtain ⟨n, hn⟩ := hna
  obtain ⟨vs, hl⟩ := hv
  have ha : e.ansi = utf8 (n ++ '=' :: vs) := by
    rw [EnvironmentEntry.ansi, hn, hl, utf8_append]
    rfl
  have hw : e.wide = utf16 (n ++ '=' :: vs) := by
    rw [EnvironmentEntry.wide, hn, hl, utf8ToWide_encoded, utf8ToWide_encoded, utf16_append]
    rfl
  have hc : ∀ c ∈ n ++ '=' :: vs, c.toNat ≠ 0 := by
    refine toNat_ne_zero_of_mem ?_
    rw [← ha]
    exact (spells_ansi he).terminated
  refine ⟨he, ?_, by simp [EnvironmentEntry.wide], ?_⟩
  · rw [hw]
    exact zero_notMem_utf16 hc
  · rw [hw, ha]
    exact wideToUtf8_encoded hc

theorem resetGuestEnvironment_pairs (ho : ∀ e ∈ env.entries, e.Ok) :
    resetGuestEnvironment (env.entries.map EnvironmentEntry.pair) = env := by
  have hk : (env.entries.map EnvironmentEntry.pair).filter (fun e => validName e.1) =
      env.entries.map EnvironmentEntry.pair := by
    rw [filter_eq_self]
    intro p hp
    obtain ⟨e, he, rfl⟩ := mem_map.1 hp
    exact (ho e he).valid
  rw [resetGuestEnvironment, hk, map_map]
  exact (congrArg SortedMap.ofList (map_id _)).trans (ofList_entries env)

variable {α : Type} {us : EnvironmentEntry → List α}

theorem parseEntries_environment [GuestUnit α] [DecidableEq α] {nar : List α → ByteString}
    (h : ∀ e ∈ env.entries, Spells nar us e) {en : GuestPointer α}
    (hh : en.Holds (environmentBlock (env.entries.map us))) (o : List EntryPair) :
    parseEntries nar (kMaxEnvironmentEntries + 1) en 0 [] = some o ↔
      o = env.entries.map EnvironmentEntry.pair ∧ Fits us env := by
  rw [parseEntries_block h hh (Nat.zero_le _) (Nat.zero_le _)]
  simp only [nil_append, length_nil, zero_add]
  constructor
  · rintro ⟨ho, -, hc, hn, ht⟩
    exact ⟨ho, hc, fun e he => (hn e he).1, fun e he => (hn e he).2, ht⟩
  · rintro ⟨ho, hf⟩
    exact ⟨ho, Nat.lt_succ_of_le hf.count, hf.count,
      fun e he => ⟨hf.units e he, hf.bytes e he⟩, hf.total⟩

theorem readsAs_iff (ho : ∀ e ∈ env.entries, e.Ok) (hp : ∀ o, bl.parse = some o ↔
      o = env.entries.map EnvironmentEntry.pair ∧ Fits us env) : ReadsAs bl env ↔ Fits us env := by
  constructor
  · rintro ⟨⟨es, hn, -⟩, -⟩
    exact ((hp es).1 hn).2
  · intro hf
    have hb := (hp _).2 ⟨rfl, hf⟩
    refine ⟨⟨_, hb, resetGuestEnvironment_pairs ho⟩, fun p => ?_⟩
    simp only [createProcess, childEnvironment, hb, map_eq_nil_iff]
    split_ifs with he
    · rfl
    · have hne : env.entries.map EnvironmentEntry.pair ≠ [] := by rwa [Ne, map_eq_nil_iff]
      show Except.ok (runCreatedGuestChild p _) = _
      rw [runCreatedGuestChild, if_pos hne, resetGuestEnvironment_pairs ho]

theorem roundTripsA_iff (ho : ∀ e ∈ env.entries, e.Ok) :
    RoundTripsA env ↔ Fits EnvironmentEntry.ansi env := by
  have hs : ∀ e ∈ env.entries, Spells id EnvironmentEntry.ansi e :=
    fun e he => spells_ansi (ho e he)
  have hr : ∀ en : GuestPointer UInt8, en.Holds (allocateEnvironmentBlockA env) →
      (ReadsAs (.ansi en) env ↔ Fits EnvironmentEntry.ansi env) :=
    fun en hh => readsAs_iff ho (parseEntries_environment hs hh)
  constructor
  · intro h
    have hh : GuestPointer.Holds ⟨1, allocateEnvironmentBlockA env⟩
        (allocateEnvironmentBlockA env) :=
      ⟨⟨Nat.one_ne_zero, Nat.mod_one 1⟩, prefix_rfl⟩
    exact (hr _ hh).1 (h _ hh)
  · exact fun hf en hh => (hr en hh).2 hf

theorem checkedUnits_eq {ls : List ℕ} : ∀ {us : ℕ}, us + (ls.map (· + 1)).sum ≤ maxSize / 2 →
      checkedUnits us ls = some (us + (ls.map (· + 1)).sum) := by
  induction ls with
  | nil => intro us h; exact if_pos h
  | cons l ls ih =>
    intro us h
    rw [map_cons, sum_cons, ← add_assoc] at h ⊢
    rw [checkedUnits, if_neg (by omega), ih h]

theorem allocateEnvironmentBlockW_eq (hf : Fits EnvironmentEntry.wide env) :
    allocateEnvironmentBlockW env =
      some (environmentBlock (env.entries.map EnvironmentEntry.wide)) := by
  have hs : (((env.entries.map EnvironmentEntry.wide).map List.length).map (· + 1)).sum ≤
      env.entries.length * kMaxEnvironmentEntryLength := by
    rw [map_map, map_map]
    refine (sum_le_card_nsmul _ kMaxEnvironmentEntryLength ?_).trans_eq ?_
    · intro n hn
      obtain ⟨e, he, rfl⟩ := mem_map.1 hn
      exact hf.units e he
    · rw [length_map]
      rfl
  have hc := Nat.mul_le_mul_right kMaxEnvironmentEntryLength hf.count
  have hm : 1 + kMaxEnvironmentEntries * kMaxEnvironmentEntryLength ≤ maxSize / 2 := by decide
  simp only [allocateEnvironmentBlockW]
  rw [checkedUnits_eq (by omega)]
  rfl

theorem roundTripsW_iff (ho : ∀ e ∈ env.entries, e.Ok) (ht : HoldsText env) :
    RoundTripsW env ↔ Fits EnvironmentEntry.wide env := by
  have hs : ∀ e ∈ env.entries, Spells wideToUtf8 EnvironmentEntry.wide e :=
    fun e he => spells_wide (ho e he) (ht e he).1 (ht e he).2
  have hr : ∀ en : GuestPointer UInt16,
      en.Holds (environmentBlock (env.entries.map EnvironmentEntry.wide)) →
      (ReadsAs (.wide en) env ↔ Fits EnvironmentEntry.wide env) :=
    fun en hh => readsAs_iff ho (parseEntries_environment hs hh)
  constructor
  · rintro ⟨bl, hb, h⟩
    obtain ⟨_, -, rfl⟩ := Option.map_eq_some_iff.1 hb
    have hh : GuestPointer.Holds ⟨2, environmentBlock (env.entries.map EnvironmentEntry.wide)⟩
        (environmentBlock (env.entries.map EnvironmentEntry.wide)) :=
      ⟨⟨Nat.succ_ne_zero 1, Nat.mod_self 2⟩, prefix_rfl⟩
    exact (hr _ hh).1 (h _ hh)
  · exact fun hf => ⟨_, allocateEnvironmentBlockW_eq hf, fun en hh => (hr en hh).2 hf⟩

/-- A block of which nothing is kept makes no child. -/
theorem createProcess_skipped {p : Environment} (h : bl.parse = none ∨ bl.parse = some []) :
    createProcess p (some bl) = .error kErrorInvalidParameter := by
  rcases h with h | h
  · simp only [createProcess, childEnvironment, h]
    rfl
  · simp only [createProcess, childEnvironment, h, if_true]
    rfl

theorem head?_wideToUtf8 {l : List UInt16} (h : l.head? = some 0x3D) :
    (wideToUtf8 l).head? = some equalSign := by
  cases l with
  | nil => cases h
  | cons u l =>
    cases h
    rfl

theorem replacesParent : ReplacesParent where
  given _ _ _ h := createProcess_eq_ok h
  drivesA environment lines parent hl hho := by
    refine createProcess_skipped (parseEntries_skipped (fun line hi => ?_) hho)
    obtain ⟨hnot, hh⟩ := hl line hi
    exact ⟨hnot, (fun hn => by rw [hn] at hh; cases hh), hh⟩
  drivesW environment lines parent hl hho := by
    refine createProcess_skipped (parseEntries_skipped (fun line hi => ?_) hho)
    obtain ⟨hnot, hh⟩ := hl line hi
    exact ⟨hnot, (fun hn => by rw [hn] at hh; cases hh), head?_wideToUtf8 hh⟩

end RoundTrip

/-- **The environments that come back from their blocks.**  An environment is read back, and given
to a child, exactly if every entry is shorter than the longest string that is looked for and the
entries are within the limits in UTF-8.  No child is left with the environment of its parent. -/
theorem environment_roundTrip {env : Environment} (henv : Reachable env) (htext : HoldsText env) :
    (RoundTripsA env ↔ Fits EnvironmentEntry.ansi env) ∧
      (RoundTripsW env ↔ Fits EnvironmentEntry.wide env) ∧ ReplacesParent :=
  ⟨roundTripsA_iff henv.entries_ok, roundTripsW_iff henv.entries_ok htext, replacesParent⟩

/-- The entries are within the limits that the source names, whichever way they are counted. -/
structure InLimits (env : Environment) : Prop where
  count : env.entries.length ≤ kMaxEnvironmentEntries
  ansi : ∀ e ∈ env.entries, e.ansi.length ≤ kMaxEnvironmentEntryLength
  wide : ∀ e ∈ env.entries, e.wide.length ≤ kMaxEnvironmentEntryLength
  total : (env.entries.map (·.ansi.length)).sum ≤ kMaxEnvironmentTotalBytes

/-! ### An entry of the greatest length -/

def shortPaths : PrefixPaths := ⟨text "C:\\Roaming", text "C:\\Local", text "C:\\temp"⟩

/-- A guest with `n` letters in the variable A of its host. -/
def lettersEnvironment (n : ℕ) : Environment :=
  initializeEnvironment [0x41 :: equalSign :: replicate n 0x78] shortPaths

theorem lettersEnvironment_entries (n : ℕ) : (lettersEnvironment n).entries =
      ⟨[0x41], replicate n 0x78⟩ :: (initializeEnvironment [] shortPaths).entries := rfl

theorem shortPaths_ok : shortPaths.Ok := ⟨by decide +kernel, by decide +kernel, by decide +kernel⟩

theorem reachable_lettersEnvironment (n : ℕ) : Reachable (lettersEnvironment n) := by
  refine .initialized (fun l hl => ?_) shortPaths_ok
  cases mem_singleton.1 hl
  rw [mem_cons, mem_cons, mem_replicate]
  rintro (h | h | ⟨-, h⟩) <;> exact absurd h (by decide)

theorem utf8_replicate (n : ℕ) : utf8 (replicate n 'x') = replicate n 0x78 := by
  induction n with
  | zero => rfl
  | succ n ih =>
    rw [replicate_succ, replicate_succ, ← ih]
    rfl

theorem utf16_replicate (n : ℕ) : utf16 (replicate n 'x') = replicate n 0x78 := by
  induction n with
  | zero => rfl
  | succ n ih =>
    rw [replicate_succ, replicate_succ, ← ih]
    rfl

theorem isUtf8_text (s : String) : IsUtf8 (text s) :=
  ⟨s.toList, by simp [text, utf8, ← String.utf8Encode_toList, utf8Encode]⟩

theorem holdsText_lettersEnvironment (n : ℕ) : HoldsText (lettersEnvironment n) := by
  intro e he
  rw [lettersEnvironment_entries, mem_cons] at he
  rcases he with rfl | hm
  · exact ⟨⟨['A'], rfl⟩, ⟨_, (utf8_replicate n).symm⟩⟩
  · have hg : e ∈ guestEntries shortPaths := mem_of_mem_ofList hm
    simp only [guestEntries, mem_cons, not_mem_nil, or_false] at hg
    rcases hg with rfl | rfl | rfl | rfl | rfl | rfl | rfl <;>
      exact ⟨isUtf8_text _, isUtf8_text _⟩

theorem length_wide_letters (n : ℕ) :
    (EnvironmentEntry.wide ⟨[0x41], replicate n 0x78⟩).length = n + 2 := by
  have hn : utf8ToWide [0x41] = [0x41] := by decide
  have hv : utf8ToWide (replicate n 0x78) = replicate n 0x78 := by
    rw [← utf8_replicate, utf8ToWide_encoded, utf16_replicate]
  simp only [EnvironmentEntry.wide, hn, hv, length_append, length_cons,
    length_replicate, length_nil]
  omega

theorem length_ansi_letters (n : ℕ) :
    (EnvironmentEntry.ansi ⟨[0x41], replicate n 0x78⟩).length = n + 2 := by
  simp only [EnvironmentEntry.ansi, length_append, length_cons, length_replicate, length_nil]
  omega

theorem inLimits_lettersEnvironment {n : ℕ} (hn : n + 2 ≤ kMaxEnvironmentEntryLength) :
    InLimits (lettersEnvironment n) := by
  have hr : ∀ e ∈ (initializeEnvironment [] shortPaths).entries,
      e.ansi.length ≤ kMaxEnvironmentEntryLength ∧ e.wide.length ≤ kMaxEnvironmentEntryLength := by
    decide +kernel
  have ht : ((initializeEnvironment [] shortPaths).entries.map (·.ansi.length)).sum +
      kMaxEnvironmentEntryLength ≤ kMaxEnvironmentTotalBytes := by
    decide +kernel
  refine ⟨by rw [lettersEnvironment_entries]; exact Nat.le_of_ble_eq_true rfl,
    fun e he => ?_, fun e he => ?_, ?_⟩
  · rw [lettersEnvironment_entries, mem_cons] at he
    rcases he with rfl | hm
    · rw [length_ansi_letters]
      exact hn
    · exact (hr e hm).1
  · rw [lettersEnvironment_entries, mem_cons] at he
    rcases he with rfl | hm
    · rw [length_wide_letters]
      exact hn
    · exact (hr e hm).2
  · rw [lettersEnvironment_entries, map_cons, sum_cons, length_ansi_letters]
    omega

theorem not_roundTripsA_letters {n : ℕ} (hn : kMaxEnvironmentEntryLength ≤ n + 2) :
    ¬ RoundTripsA (lettersEnvironment n) := by
  intro hr
  have hf := (roundTripsA_iff (reachable_lettersEnvironment n).entries_ok).1 hr
  have hm : ⟨[0x41], replicate n 0x78⟩ ∈ (lettersEnvironment n).entries := by
    exact mem_cons_self
  have hs := hf.units _ hm
  rw [length_ansi_letters] at hs
  omega

/-- **An entry of the greatest length does not come back**, though it is within the limits. -/
theorem not_environment_roundTrip :
    ¬ ∀ env, Reachable env → HoldsText env → InLimits env → RoundTripsA env ∧ RoundTripsW env := by
  intro h
  have hl : 32766 + 2 = kMaxEnvironmentEntryLength := by decide
  have hr := h _ (reachable_lettersEnvironment 32766) (holdsText_lettersEnvironment _)
    (inLimits_lettersEnvironment hl.le)
  exact not_roundTripsA_letters hl.ge hr.1

theorem environment_roundTrip_letters :
    RoundTripsA (lettersEnvironment 3) ∧ RoundTripsW (lettersEnvironment 3) := by
  have hn : (lettersEnvironment 3).entries.length ≤ kMaxEnvironmentEntries ∧
      (∀ e ∈ (lettersEnvironment 3).entries, e.ansi.length < kMaxEnvironmentEntryLength ∧
        e.wide.length < kMaxEnvironmentEntryLength) ∧
      ((lettersEnvironment 3).entries.map (·.ansi.length)).sum ≤ kMaxEnvironmentTotalBytes := by
    decide +kernel
  obtain ⟨hc, hu, ht⟩ := hn
  have hb := fun e he => le_of_lt (hu e he).1
  obtain ⟨ha, hw, -⟩ := environment_roundTrip (reachable_lettersEnvironment 3)
    (holdsText_lettersEnvironment 3)
  exact ⟨ha.mpr ⟨hc, fun e he => (hu e he).1, hb, ht⟩, hw.mpr ⟨hc, fun e he => (hu e he).2, hb, ht⟩⟩

end TradutorLinux.Process
