import TradutorLinux.Registry.Persistence

/-!
# The two forms of the registry functions

Every function has a narrow and a wide form, which differ in how they read the
strings of the guest.  Data of a string value are turned into UTF-8 by both.  A
name or a subkey is turned into UTF-8 by the wide form only; the narrow one keeps
its bytes.  So the forms are of one registry as long as names are ASCII.

## Main definitions

* `GuestText`
* `tlRegOpenKeyExA`, … — the entry points.
* `TextCall`, `entry`, `InCodePage`, `FormsAgree`

## Main results

* `copyText_wide`, `copyText_eq_iff`, `queryValue_agree`, `registry_code_pages`
-/

namespace TradutorLinux

open Advapi Process List Option
open TradutorLinux.Runtime (kErrorSuccess kErrorInvalidParameter)

namespace Registry

variable {s s' : Registry}

/-! ### Strings -/

/-- `copy_ansi_string`. -/
def copyAnsiString (value : GuestPointer UInt8) : Option ByteString := copyGuestString value 65535

/-- `copy_wide_string`. -/
def copyWideString (value : GuestPointer UInt16) : Option ByteString :=
  (copyGuestString value 65535).map wideToUtf8

/-- A string of the guest in code page 1252 and in UTF-16: behind each pointer are the same
characters, as far as they are mapped. -/
structure GuestText where
  narrow : GuestPointer UInt8
  wide : GuestPointer UInt16
  aligned : wide.Aligned ↔ narrow.Aligned
  mapped : wide.mapped = wideOf narrow.mapped

/-- The text alone behind both pointers. -/
def GuestText.ofChars (chars : ByteString) : GuestText where
  narrow := ⟨0x1000, chars ++ [0]⟩
  wide := ⟨0x2000, wideOf (chars ++ [0])⟩
  aligned := by simp [GuestPointer.Aligned, GuestUnit.width]
  mapped := rfl

theorem copyAnsiString_ofChars {chars : ByteString} (hz : (0 : UInt8) ∉ chars)
    (hl : chars.length < 65535) : copyAnsiString (GuestText.ofChars chars).narrow = some chars := by
  have hh : (GuestText.ofChars chars).narrow.Holds (chars ++ terminator :: []) :=
    ⟨by simp [GuestText.ofChars, GuestPointer.Aligned, GuestUnit.width], prefix_rfl⟩
  unfold copyAnsiString
  rw [copyGuestString_holds hh hz, if_pos hl]

/-! ### Entry points -/

def tlRegOpenKeyExA (s : Registry) (key : Hkey) (subkey : GuestPointer UInt8)
    (result : GuestOut) : OpenAnswer × Registry :=
  match copyAnsiString subkey with
  | none => (⟨kErrorInvalidParameter, none, none⟩, s)
  | some subkey => s.openKey key subkey result .null false

def tlRegOpenKeyExW (s : Registry) (key : Hkey) (subkey : GuestPointer UInt16)
    (result : GuestOut) : OpenAnswer × Registry :=
  match copyWideString subkey with
  | none => (⟨kErrorInvalidParameter, none, none⟩, s)
  | some subkey => s.openKey key subkey result .null false

/-- The security attributes are null or can be read. -/
def tlRegCreateKeyExA (s : Registry) (key : Hkey) (subkey : GuestPointer UInt8)
    (attributes : Bool) (result disposition : GuestOut) : OpenAnswer × Registry :=
  if attributes = false then (⟨kErrorInvalidParameter, none, none⟩, s)
  else match copyAnsiString subkey with
    | none => (⟨kErrorInvalidParameter, none, none⟩, s)
    | some subkey => s.openKey key subkey result disposition true

def tlRegCreateKeyExW (s : Registry) (key : Hkey) (subkey : GuestPointer UInt16)
    (attributes : Bool) (result disposition : GuestOut) : OpenAnswer × Registry :=
  if attributes = false then (⟨kErrorInvalidParameter, none, none⟩, s)
  else match copyWideString subkey with
    | none => (⟨kErrorInvalidParameter, none, none⟩, s)
    | some subkey => s.openKey key subkey result disposition true

def tlRegQueryValueExA (s : Registry) (key : Hkey) (valueName : GuestPointer UInt8)
    (type data : GuestOut) (dataSize : Option ℕ) (sizeWritable : Bool) : QueryAnswer × Registry :=
  match copyAnsiString valueName with
  | none => (⟨kErrorInvalidParameter, none, none, none⟩, s)
  | some name => s.queryValue key name type data dataSize sizeWritable false

def tlRegQueryValueExW (s : Registry) (key : Hkey) (valueName : GuestPointer UInt16)
    (type data : GuestOut) (dataSize : Option ℕ) (sizeWritable : Bool) : QueryAnswer × Registry :=
  match copyWideString valueName with
  | none => (⟨kErrorInvalidParameter, none, none, none⟩, s)
  | some name => s.queryValue key name type data dataSize sizeWritable true

def tlRegSetValueExA (s : Registry) (key : Hkey) (valueName : GuestPointer UInt8)
    (type : UInt32) (data : Option ByteString) (opens : Bool) : UInt32 × Registry :=
  match copyAnsiString valueName with
  | none => (kErrorInvalidParameter, s)
  | some name => s.setValue key name type data false opens

def tlRegSetValueExW (s : Registry) (key : Hkey) (valueName : GuestPointer UInt16)
    (type : UInt32) (data : Option ByteString) (opens : Bool) : UInt32 × Registry :=
  match copyWideString valueName with
  | none => (kErrorInvalidParameter, s)
  | some name => s.setValue key name type data true opens

def tlRegDeleteValueA (s : Registry) (key : Hkey) (valueName : GuestPointer UInt8)
    (opens : Bool) : UInt32 × Registry :=
  match copyAnsiString valueName with
  | none => (kErrorInvalidParameter, s)
  | some name => s.deleteValue key name opens

def tlRegDeleteValueW (s : Registry) (key : Hkey) (valueName : GuestPointer UInt16)
    (opens : Bool) : UInt32 × Registry :=
  match copyWideString valueName with
  | none => (kErrorInvalidParameter, s)
  | some name => s.deleteValue key name opens

/-! ### Calls in both forms -/

/-- A call whose strings are there in both forms; a query has a buffer for either. -/
inductive TextCall
  | openKeyEx (key : Hkey) (subkey : GuestText) (result : GuestOut)
  | createKeyEx (key : Hkey) (subkey : GuestText) (attributes : Bool)
    (result disposition : GuestOut)
  | queryValueEx (key : Hkey) (name : GuestText) (type data : GuestOut)
    (room wideRoom : Option ℕ) (sizeWritable : Bool)
  | setValueEx (key : Hkey) (name : GuestText) (type : UInt32) (data : Option ByteString)
    (opens : Bool)
  | deleteValue (key : Hkey) (name : GuestText) (opens : Bool)
  | closeKey (key : Hkey)

/-- The data of a call in the wide form: those of a string in UTF-16, others as they are. -/
def wideData (type : UInt32) (data : ByteString) : ByteString :=
  if isStringValue type then bytesLE (wideOf data) else data

/-- The call in one of its forms. -/
def entry (s : Registry) : TextCall → Bool → Answer × Registry
  | .openKeyEx key subkey result, false =>
    (s.tlRegOpenKeyExA key subkey.narrow result).map .opened id
  | .openKeyEx key subkey result, true =>
    (s.tlRegOpenKeyExW key subkey.wide result).map .opened id
  | .createKeyEx key subkey attributes result disposition, false =>
    (s.tlRegCreateKeyExA key subkey.narrow attributes result disposition).map .opened id
  | .createKeyEx key subkey attributes result disposition, true =>
    (s.tlRegCreateKeyExW key subkey.wide attributes result disposition).map .opened id
  | .queryValueEx key name type data room _ sizeWritable, false =>
    (s.tlRegQueryValueExA key name.narrow type data room sizeWritable).map .queried id
  | .queryValueEx key name type data _ wideRoom sizeWritable, true =>
    (s.tlRegQueryValueExW key name.wide type data wideRoom sizeWritable).map .queried id
  | .setValueEx key name type data opens, false =>
    (s.tlRegSetValueExA key name.narrow type data opens).map .returned id
  | .setValueEx key name type data opens, true =>
    (s.tlRegSetValueExW key name.wide type (data.map (wideData type)) opens).map .returned id
  | .deleteValue key name opens, false =>
    (s.tlRegDeleteValueA key name.narrow opens).map .returned id
  | .deleteValue key name opens, true =>
    (s.tlRegDeleteValueW key name.wide opens).map .returned id
  | .closeKey key, _ => (s.closeKey key).map .returned id

/-! ### Names -/

theorem utf8BytesFor_byte (b : UInt8) : if b < 0x80 then utf8BytesFor (cp1252ToUnicode b) = [b]
    else 1 < (utf8BytesFor (cp1252ToUnicode b)).length :=
  forall_byte (P := fun b => if b < 0x80 then utf8BytesFor (cp1252ToUnicode b) = [b]
    else 1 < (utf8BytesFor (cp1252ToUnicode b)).length) (by decide +kernel) b

theorem length_le_utf8Of (a : ByteString) : a.length ≤ (utf8Of a).length := by
  induction a with
  | nil => exact le_refl 0
  | cons b a ih =>
    have hb := utf8BytesFor_byte b
    have hc : (utf8Of (b :: a)).length =
        (utf8BytesFor (cp1252ToUnicode b)).length + (utf8Of a).length := length_append
    rw [hc, length_cons]
    split at hb
    · rw [hb, length_singleton]
      omega
    · omega

/-- **A text is the same in UTF-8 exactly if it is ASCII.** -/
theorem utf8Of_eq_self {a : ByteString} : utf8Of a = a ↔ ∀ b ∈ a, b < 0x80 := by
  induction a with
  | nil => exact iff_of_true rfl nofun
  | cons b a ih =>
    have hy := utf8BytesFor_byte b
    have hc : utf8Of (b :: a) = utf8BytesFor (cp1252ToUnicode b) ++ utf8Of a := rfl
    rw [forall_mem_cons, hc, ← ih]
    split at hy
    · next hb =>
      rw [hy, singleton_append, cons_inj_right]
      exact (and_iff_right hb).symm
    · next hb =>
      refine iff_of_false (fun heq => ?_) fun h => hb h.1
      have hl := congrArg List.length heq
      rw [length_append, length_cons] at hl
      have he := length_le_utf8Of a
      omega

theorem takeWhile_wideOf (l : ByteString) :
    (wideOf l).takeWhile (· ≠ 0) = wideOf (l.takeWhile (· ≠ 0)) := by
  have hu (b : UInt8) : UInt16.ofNat (cp1252ToUnicode b) = 0 ↔ b = 0 :=
    forall_byte (P := fun b => UInt16.ofNat (cp1252ToUnicode b) = 0 ↔ b = 0) (by decide +kernel) b
  induction l with
  | nil => rfl
  | cons b l ih =>
    by_cases hb : b = 0
    · simp [wideOf, hb, (hu 0).2 rfl]
    · have hb' : UInt16.ofNat (cp1252ToUnicode b) ≠ 0 := fun heq => hb ((hu b).1 heq)
      simpa [wideOf, hb, hb'] using ih

theorem copyGuestString_wide (v : GuestText) (l : ℕ) :
    copyGuestString v.wide l = (copyGuestString v.narrow l).map wideOf := by
  rw [copyGuestString_eq, copyGuestString_eq, v.mapped]
  by_cases ha : v.narrow.Aligned
  · rw [if_pos ha, if_pos (v.aligned.2 ha)]
    have hf := takeWhile_wideOf v.narrow.mapped
    simp only [terminated, terminator] at hf ⊢
    rw [hf]
    simp only [wideOf, length_map]
    split <;> rfl
  · rw [if_neg ha, if_neg fun h => ha (v.aligned.1 h)]
    rfl

/-- **The wide form of a name is its UTF-8.** -/
theorem copyText_wide (v : GuestText) :
    copyWideString v.wide = (copyAnsiString v.narrow).map utf8Of := by
  unfold copyWideString copyAnsiString
  rw [copyGuestString_wide]
  cases hc : copyGuestString v.narrow 65535 with
  | none => rfl
  | some a =>
    have hz : (0 : UInt8) ∉ a := (copyGuestString_eq_some.1 hc).2.1
    exact congrArg some (wideToUtf8_wideOf hz)

/-- What the narrow form copies is ASCII. -/
def GuestText.Ascii (value : GuestText) : Prop :=
  ∀ a, copyAnsiString value.narrow = some a → ∀ b ∈ a, b < 0x80

/-- **The forms copy the same name exactly if it is ASCII.** -/
theorem copyText_eq_iff {v : GuestText} :
    copyWideString v.wide = copyAnsiString v.narrow ↔ v.Ascii := by
  rw [copyText_wide]
  unfold GuestText.Ascii
  cases copyAnsiString v.narrow with
  | none => exact iff_of_true rfl nofun
  | some a => simp [utf8Of_eq_self]

/-! ### Data -/

/-- A string value is a text of the code page, and not too long for the size of its wide
form. -/
def HasText (v : RegistryValue) : Prop :=
  isStringValue v.type = true →
    ∃ a, (0 : UInt8) ∉ a ∧ a.length + 1 < 2 ^ 31 ∧ v.data.takeWhile (· ≠ 0) = utf8Of a

/-- The string values are texts of the code page. -/
def Texts (values : List RegistryValue) : Prop := ∀ v ∈ values, HasText v

theorem storedData_wide (t : UInt32) (d : ByteString) :
    storedData t (wideData t d) true = storedData t d false := by
  unfold storedData wideData
  cases isStringValue t with
  | false => rfl
  | true =>
    by_cases hd : d = []
    · rw [hd]
      rfl
    have hn : bytesLE (wideOf d) ≠ [] := by
      rw [← length_pos_iff, length_bytesLE, wideOf, length_map]
      have := length_pos_of_ne_nil hd
      omega
    simp only [if_true, if_neg hd, if_neg hn]
    exact stringValueToUtf8_agree d

theorem takeWhile_storedData {t : UInt32} {d : ByteString} (ht : isStringValue t) :
    (storedData t d false).takeWhile (· ≠ 0) = utf8Of (d.takeWhile (· ≠ 0)) := by
  unfold storedData stringValueToUtf8
  by_cases hd : d = []
  · rw [hd]
    rfl
  · rw [if_neg hd, if_pos ht, if_neg hd, if_neg Bool.false_ne_true, ansiStringToUtf8_eq]
    exact takeWhile_text (zero_notMem_utf8Of (split_text d).1)

/-- **A text is given back in the code page and in UTF-16.** -/
theorem registryDataForQuery_text {v : RegistryValue} {a : ByteString}
    (ht : isStringValue v.type) (hz : (0 : UInt8) ∉ a) (hd : v.data.takeWhile (· ≠ 0) = utf8Of a) :
    registryDataForQuery v false = a ++ [0] ∧
      registryDataForQuery v true = bytesLE (wideOf (a ++ [0])) := by
  have hw : bytesLE (wideOf (a ++ [0])) = bytesLE (wideOf a) ++ [0, 0] := by
    unfold bytesLE wideOf
    rw [map_append, flatMap_append]
    rfl
  have he : (utf8Of a ++ 0 :: []).takeWhile (· ≠ 0) = utf8Of a :=
    takeWhile_text (zero_notMem_utf8Of hz)
  have ht' : ¬isStringValue v.type = false := by simp [ht]
  unfold registryDataForQuery
  rw [if_neg ht', if_neg Bool.false_ne_true, if_neg ht', if_pos rfl, hw,
    ← utf8StringToAnsi_utf8Of hz [], ← utf8StringToWide_utf8Of hz []]
  unfold utf8StringToAnsi utf8StringToWide
  rw [hd, he]
  exact ⟨rfl, rfl⟩

/-! ### Queries -/

def foundUnder (s : Registry) (key : Hkey) (name : ByteString) : Option RegistryValue :=
  (s.findKey key).bind fun path => s.load.lookup path name

/-- The answer with its data in UTF-16. -/
def QueryAnswer.widened (answer : QueryAnswer) : QueryAnswer :=
  { answer with
    data := answer.data.map fun data => bytesLE (wideOf data)
    size := answer.size.map (2 * ·) }

def QueryAnswer.inWideForm (answer : QueryAnswer) (found : Option RegistryValue) : QueryAnswer :=
  if found.any fun v => isStringValue v.type then answer.widened else answer

/-- The buffer of the wide form holds as many characters of a string, or as many bytes of
other data. -/
def RoomsFit (found : Option RegistryValue) : Option ℕ → Option ℕ → Prop
  | none, none => True
  | some room, some wideRoom =>
    ∀ v, found = some v → if isStringValue v.type then wideRoom / 2 = room else wideRoom = room
  | _, _ => False

/-- The answer of `query_value` for the output of a value that was found. -/
def answerFor (valueType : UInt32) (output : ByteString) (type data : GuestOut) (capacity : ℕ)
    (sizeWritable : Bool) : QueryAnswer :=
  let required := output.length % 2 ^ 32
  let written := if type = .null then none else some valueType
  if type = .unwritable then ⟨kErrorInvalidParameter, none, none, none⟩
  else if data = .null ∨ capacity < required then
    if sizeWritable = false then ⟨kErrorInvalidParameter, written, none, none⟩
    else ⟨if data = .null then kErrorSuccess else kErrorMoreData, written, none, some required⟩
  else if required ≠ 0 ∧ data = .unwritable then ⟨kErrorInvalidParameter, written, none, none⟩
  else if sizeWritable = false then
    ⟨kErrorInvalidParameter, written, some (output.take required), none⟩
  else ⟨kErrorSuccess, written, some (output.take required), some required⟩

variable {key : Hkey} {nm : ByteString}

theorem queryValue_found {p : ByteString} {v : RegistryValue}
    (hk : s.findKey key = some p) (hv : s.load.lookup p nm = some v)
    (t d : GuestOut) (c : ℕ) (sz w : Bool) :
    s.queryValue key nm t d (some c) sz w =
      (answerFor v.type (registryDataForQuery v w) t d c sz, s.load) := by
  simp only [queryValue, hk, hv, answerFor]
  repeat' split
  all_goals rfl

theorem queryValue_missing
    (h : s.foundUnder key nm = none) (t d : GuestOut) (c c' : ℕ) (sz w wide' : Bool) :
    s.queryValue key nm t d (some c) sz w = s.queryValue key nm t d (some c') sz wide' := by
  cases hk : s.findKey key with
  | none => simp only [queryValue, hk]
  | some p =>
    have hv : s.load.lookup p nm = none := by rwa [foundUnder, hk] at h
    simp [queryValue, hk, hv]

theorem length_wide (a : ByteString) : (bytesLE (wideOf a)).length = 2 * a.length := by
  rw [length_bytesLE, wideOf, length_map]

/-- **The answer for a text in UTF-16 is that for the text, widened.** -/
theorem answerFor_widened {o : ByteString} (he : o.length < 2 ^ 31)
    {r wr : ℕ} (hr : wr / 2 = r) (vt : UInt32) (t d : GuestOut) (sz : Bool) :
    answerFor vt (bytesLE (wideOf o)) t d wr sz = (answerFor vt o t d r sz).widened := by
  have hs : o.length % 2 ^ 32 = o.length := Nat.mod_eq_of_lt (by omega)
  have hw : (bytesLE (wideOf o)).length % 2 ^ 32 = 2 * o.length := by
    rw [length_wide]
    exact Nat.mod_eq_of_lt (by omega)
  have ht : (bytesLE (wideOf o)).take (2 * o.length) = bytesLE (wideOf o) :=
    take_of_length_le (by rw [length_wide])
  have hl : wr < 2 * o.length ↔ r < o.length := by omega
  have hz : 2 * o.length ≠ 0 ↔ o.length ≠ 0 := by omega
  dsimp only [answerFor, QueryAnswer.widened]
  rw [hs, hw, ht, take_length]
  simp only [hl, hz]
  repeat' split
  all_goals rfl

/-- **The forms of a query give the same data.** -/
theorem queryValue_agree (hte : Texts s.load.values)
    {r wr : Option ℕ} (ho : RoomsFit (s.foundUnder key nm) r wr) (t d : GuestOut) (sz : Bool) :
    s.queryValue key nm t d wr sz true = ((s.queryValue key nm t d r sz false).1.inWideForm
        (s.foundUnder key nm), (s.queryValue key nm t d r sz false).2) := by
  match r, wr, ho with
  | none, none, _ =>
    show (_, s) = (QueryAnswer.inWideForm _ _, s)
    unfold QueryAnswer.inWideForm
    split <;> rfl
  | some r, some wr, ho =>
    cases hf : s.foundUnder key nm with
    | none =>
      rw [queryValue_missing hf t d wr r sz true false]
      rfl
    | some v =>
      obtain ⟨p, hk, hv⟩ := bind_eq_some_iff.1 hf
      have hr := ho v hf
      rw [queryValue_found hk hv, queryValue_found hk hv]
      unfold QueryAnswer.inWideForm
      cases ht : isStringValue v.type with
      | false =>
        have hs : registryDataForQuery v true = registryDataForQuery v false := by
          rw [registryDataForQuery, registryDataForQuery, if_pos ht, if_pos ht]
        rw [ht, if_neg Bool.false_ne_true] at hr
        simp [hr, hs, ht]
      | true =>
        obtain ⟨a, hz, he, hd⟩ := hte v (key_of_lookupKey hv).1 ht
        obtain ⟨hn, hw⟩ := registryDataForQuery_text ht hz hd
        rw [ht, if_pos rfl] at hr
        have hl : (a ++ [0]).length < 2 ^ 31 := by simpa using he
        simp only [any_some, ht, if_true, hn, hw]
        rw [answerFor_widened hl hr]

/-! ### Calls in either form -/

/-- What a query finds. -/
def foundBy (s : Registry) (key : Hkey) (name : GuestText) : Option RegistryValue :=
  (copyAnsiString name.narrow).bind (s.foundUnder key)

def inWideForm (s : Registry) : TextCall → Answer → Answer
  | .queryValueEx key name _ _ _ _ _, .queried answer =>
    .queried (answer.inWideForm (s.foundBy key name))
  | _, answer => answer

/-- Names and subkeys are ASCII, the data of a string are not too long for the size of their
wide form, and the buffers of a query hold as much in both forms. -/
def InCodePage (s : Registry) : TextCall → Prop
  | .openKeyEx _ subkey _ => subkey.Ascii
  | .createKeyEx _ subkey _ _ _ => subkey.Ascii
  | .queryValueEx key name _ _ room wideRoom _ =>
    name.Ascii ∧ RoomsFit (s.foundBy key name) room wideRoom
  | .setValueEx _ name type data _ =>
    name.Ascii ∧
      (isStringValue type = true → ∀ bytes, data = some bytes → bytes.length + 1 < 2 ^ 31)
  | .deleteValue _ name _ => name.Ascii
  | .closeKey _ => True

theorem setValue_agree (key : Hkey) (nm : ByteString) (t : UInt32)
    (d : Option ByteString) (opens : Bool) :
    s.setValue key nm t (d.map (wideData t)) true opens = s.setValue key nm t d false opens := by
  cases d with
  | none => rfl
  | some d =>
    have hn : wideData t d = [] ↔ d = [] := by
      unfold wideData
      split
      · rw [← length_eq_zero_iff, length_wide, ← length_eq_zero_iff]
        omega
      · exact Iff.rfl
    unfold setValue
    simp [map_some, storedData_wide, ne_eq, hn]

variable {t : TextCall}

/-- **The forms of a call do the same.** -/
theorem entry_agree (ht : Texts s.load.values) (h : s.InCodePage t) :
    s.entry t true = (s.inWideForm t (s.entry t false).1, (s.entry t false).2) := by
  cases t with
  | openKeyEx key sub re =>
    have hc := copyText_eq_iff.2 h
    simp only [entry, tlRegOpenKeyExA, tlRegOpenKeyExW, hc]
    rfl
  | createKeyEx key sub att re di =>
    have hc := copyText_eq_iff.2 h
    simp only [entry, tlRegCreateKeyExA, tlRegCreateKeyExW, hc]
    rfl
  | queryValueEx key nm type d r wr sz =>
    obtain ⟨ha, hr⟩ := h
    simp only [entry, tlRegQueryValueExA, tlRegQueryValueExW, copyText_eq_iff.2 ha]
    cases hc : copyAnsiString nm.narrow with
    | none =>
      have hf : s.foundBy key nm = none := by rw [foundBy, hc]; rfl
      simp [inWideForm, hf, QueryAnswer.inWideForm]
    | some a =>
      have hf : s.foundBy key nm = s.foundUnder key a := by rw [foundBy, hc]; rfl
      rw [hf] at hr
      simp only [queryValue_agree ht hr]
      rw [← hf]
      rfl
  | setValueEx key nm type d os =>
    simp only [entry, tlRegSetValueExA, tlRegSetValueExW, copyText_eq_iff.2 h.1]
    cases copyAnsiString nm.narrow with
    | none => rfl
    | some a =>
      simp only [setValue_agree]
      rfl
  | deleteValue key nm os =>
    have hc := copyText_eq_iff.2 h
    simp only [entry, tlRegDeleteValueA, tlRegDeleteValueW, hc]
    rfl
  | closeKey key => rfl

theorem entry_narrow (h : s.InCodePage t) :
    (s.entry t false).2 = s ∨ ∃ c, (s.entry t false).2 = (s.call c).2 ∧
      ∀ v, s.puts c = some v → HasText v := by
  cases t with
  | openKeyEx key sub re =>
    simp only [entry, tlRegOpenKeyExA]
    cases copyAnsiString sub.narrow with
    | none => exact .inl rfl
    | some a => exact .inr ⟨.openKey key a re .null false, rfl, nofun⟩
  | createKeyEx key sub att re di =>
    simp only [entry, tlRegCreateKeyExA]
    split
    · exact .inl rfl
    · cases copyAnsiString sub.narrow with
      | none => exact .inl rfl
      | some a => exact .inr ⟨.openKey key a re di true, rfl, nofun⟩
  | queryValueEx key nm ty d r wr sz =>
    simp only [entry, tlRegQueryValueExA]
    cases copyAnsiString nm.narrow with
    | none => exact .inl rfl
    | some a => exact .inr ⟨.queryValue key a ty d r sz false, rfl, nofun⟩
  | setValueEx key nm ty d os =>
    simp only [entry, tlRegSetValueExA]
    cases copyAnsiString nm.narrow with
    | none => exact .inl rfl
    | some a =>
      refine .inr ⟨.setValue key a ty d false os, rfl, fun v hv ht => ?_⟩
      obtain ⟨bs, hd, -, -, ht', hs⟩ := putBy_eq_some hv
      rw [ht'] at ht
      have hl := h.2 ht bs hd
      refine ⟨bs.takeWhile (· ≠ 0), (split_text bs).1, ?_, ?_⟩
      · have he := ( takeWhile_prefix (fun b : UInt8 => decide (b ≠ 0)) (l := bs)).length_le
        omega
      · rw [hs]
        exact takeWhile_storedData ht
  | deleteValue key nm os =>
    simp only [entry, tlRegDeleteValueA]
    cases copyAnsiString nm.narrow with
    | none => exact .inl rfl
    | some a => exact .inr ⟨.deleteValue key a os, rfl, nofun⟩
  | closeKey key => exact .inr ⟨.closeKey key, rfl, nofun⟩

theorem texts_entry (ht : Texts s.load.values) (h : s.InCodePage t) :
    Texts (s.entry t false).2.load.values := by
  rcases entry_narrow h with heq | ⟨c, heq, hp⟩
  · rwa [heq]
  · rw [heq]
    exact forall_values_call ht hp

/-! ### Runs -/

/-- The calls of a process, each in the form that it says. -/
def formStep (s : Registry) (c : TextCall × Bool) : Option Registry := some (s.entry c.1 c.2).2

/-- In both forms the call returns the same code and leaves the same registry, and what it
writes differs by the conversion only. -/
def FormsAgree (s : Registry) (c : TextCall × Bool) (s' : Registry) : Prop :=
  (s.entry c.1 true).1.code = (s.entry c.1 false).1.code ∧
    s.entry c.1 true = (s.inWideForm c.1 (s.entry c.1 false).1, s') ∧ (s.entry c.1 false).2 = s'

theorem code_inWideForm (t : TextCall) (a : Answer) : (s.inWideForm t a).code = a.code := by
  unfold inWideForm
  split
  · unfold QueryAnswer.inWideForm
    split <;> rfl
  · rfl

theorem defaultValues_ascii :
    ∀ v ∈ defaultValues, (∀ b ∈ v.data, b < 0x80) ∧ v.data.length + 1 < 2 ^ 31 := by
  decide +kernel

theorem texts_started {f : ByteString} (h : Texts (readRegistry f)) :
    Texts (started f).load.values := by
  intro v hv ht
  have hl : (started f).load.values = ensureDefaults (readRegistry f) := by simp [load, started]
  rw [hl] at hv
  rcases mem_ensureDefaults hv with hi | hm
  · exact h v hi ht
  obtain ⟨ha, he⟩ := defaultValues_ascii v hm
  have hf := takeWhile_prefix (fun b : UInt8 => decide (b ≠ 0)) (l := v.data)
  refine ⟨v.data.takeWhile (· ≠ 0), (split_text v.data).1, ?_, ?_⟩
  · have hle := hf.length_le
    omega
  · exact (utf8Of_eq_self.2 fun b hb => ha b (hf.subset hb)).symm

/-- **Along a run whose names are ASCII, a call may be replaced by its other form.** -/
theorem registry_code_pages (file : ByteString) (calls : List (TextCall × Bool))
    (hfile : Texts (readRegistry file))
    (hcalls : EachStep formStep (fun s c _ => s.InCodePage c.1) (started file) calls) :
    EachStep formStep FormsAgree (started file) calls := by
  -- the registry after the call, in whichever form it is made
  have hs {s : Registry} {c : TextCall × Bool} {s' : Registry} (ht : Texts s.load.values)
      (hc : s.InCodePage c.1) (h : formStep s c = some s') : (s.entry c.1 false).2 = s' := by
    obtain ⟨t, w⟩ := c
    cases h
    cases w with
    | false => rfl
    | true =>
      show (s.entry t false).2 = (s.entry t true).2
      rw [entry_agree ht hc]
  refine EachStep.of_ok (I := fun s => Texts s.load.values) ?_ ?_ (texts_started hfile) hcalls
  · intro s c s' ht hc h
    obtain rfl := hs ht hc h
    have ha := entry_agree ht hc
    refine ⟨?_, ha, rfl⟩
    rw [ha]
    exact code_inWideForm c.1 _
  · intro s c s' ht hc h
    rw [← hs ht hc h]
    exact texts_entry ht hc

/-- The calls that make a key, set a value of it and ask for its type. -/
def callsWith (name data : ByteString) : List (TextCall × Bool) :=
  [(.createKeyEx (.value 0x80000001) (.ofChars (text "A")) true .writable .null, false),
    (.setValueEx (.slot 0) (.ofChars name) kRegSz (some data) true, false),
    (.queryValueEx (.slot 0) (.ofChars name) .null .null (some 0) (some 0) true, false)]

theorem ascii_ofChars {chars : ByteString} (hz : (0 : UInt8) ∉ chars)
    (hl : chars.length < 65535) (hs : ∀ b ∈ chars, b < 0x80) : (GuestText.ofChars chars).Ascii := by
  intro a ha
  obtain rfl := some.inj ((copyAnsiString_ofChars hz hl).symm.trans ha)
  exact hs

/-- With an ASCII name either form will do, although the value has a letter with an accent. -/
theorem registry_code_pages_accent :
    EachStep formStep FormsAgree (started []) (callsWith (text "n") [0xE9]) := by
  have hk : (GuestText.ofChars (text "A")).Ascii :=
    ascii_ofChars (by decide) (by decide) (by decide +kernel)
  have hn : (GuestText.ofChars (text "n")).Ascii :=
    ascii_ofChars (by decide) (by decide) (by decide +kernel)
  refine registry_code_pages [] (callsWith (text "n") [0xE9]) nofun fun s₁ _ => ⟨hk, fun s₂ _ =>
    ⟨⟨hn, fun _ bs hb => ?_⟩, fun s₃ _ => ⟨⟨hn, fun v _ => ?_⟩, trivial⟩⟩⟩
  · cases hb
    decide
  · split <;> rfl

/-- A value whose name has a letter with an accent is not found by the wide form. -/
theorem not_registry_code_pages : ¬∀ (file : ByteString) (calls : List (TextCall × Bool)),
      EachStep formStep (fun s c _ => (s.entry c.1 true).1.code = (s.entry c.1 false).1.code)
        (started file) calls := by
  intro h
  have hc := ((h [] (callsWith [0xE9] (text "x")) _ rfl).2 _ rfl).2 _ rfl |>.1
  have hk : copyAnsiString (GuestText.ofChars (text "A")).narrow = some (text "A") :=
    copyAnsiString_ofChars (by decide) (by decide)
  have hn : copyAnsiString (GuestText.ofChars [0xE9]).narrow = some [0xE9] :=
    copyAnsiString_ofChars (by decide) (by decide)
  simp only [entry, tlRegCreateKeyExA, tlRegSetValueExA, tlRegQueryValueExA, tlRegQueryValueExW,
    copyText_wide, hk, hn, map_some] at hc
  revert hc
  decide +kernel

end Registry
end TradutorLinux
