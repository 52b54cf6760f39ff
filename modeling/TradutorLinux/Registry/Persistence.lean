import TradutorLinux.Registry.Keys
import TradutorLinux.Util.Runs

/-!
# What a new process reads of the registry

Every change of the registry writes all values to the file, and a new process
reads them from there and adds the default values that it does not find.  A field
of the file without bytes is not there for the reader: its line is dropped, and a
value with an empty path, name or datum with it.  And a default value that has been
deleted comes back.

## Main definitions

* `KeepsValues`

## Main results

* `parseLine_line`, `restored_iff_kept`, `registry_persistence`
-/

namespace TradutorLinux
namespace Advapi

open List RegistryValue Option

open TradutorLinux.Runtime (kErrorSuccess)

variable {v : RegistryValue} {values vs : List RegistryValue} {k : ByteString × ByteString}

/-! ### Lines -/

/-- No field of the value is empty. -/
def RegistryValue.Complete (v : RegistryValue) : Prop :=
  v.keyPath ≠ [] ∧ v.valueName ≠ [] ∧ v.data ≠ []

instance : Decidable v.Complete := inferInstanceAs (Decidable (_ ∧ _))

theorem isSpace_of_hexValue {c : UInt8} (h : (hexValue c).isSome) :
    isSpace c = false ∧ (c == 0x0A) = false :=
  forall_byte (P := fun c => (hexValue c).isSome → isSpace c = false ∧ (c == 0x0A) = false)
    (by decide +kernel) c h

theorem words_line : words isSpace v.line =
    [encodeHex v.keyPath, encodeHex v.valueName, hexNumber v.type.toNat,
      encodeHex v.data].filter (· ≠ []) := by
  have hs : isSpace 0x20 := rfl
  have hb : ∀ bs : ByteString, ∀ c ∈ encodeHex bs, isSpace c = false :=
    fun _ _ hc => (isSpace_of_hexValue (isSome_hexValue_encodeHex hc)).1
  have hn : ∀ c ∈ hexNumber v.type.toNat, isSpace c = false :=
    fun _ hc => (isSpace_of_hexValue (isSome_hexValue_hexNumber hc)).1
  unfold line
  rw [words_append (hb _) hs, words_append (hb _) hs, words_append hn hs,
    words_self (hb _), ← filter_append, ← filter_append, ← filter_append]
  rfl

/-- **A line gives its value back exactly if no field is empty.** -/
theorem parseLine_line : parseLine v.line = if v.Complete then some v else none := by
  unfold parseLine
  rw [words_line]
  have hu := hexNumber_ne_nil v.type.toNat
  by_cases hk : v.keyPath = [] <;> by_cases hn : v.valueName = [] <;>
    by_cases hd : v.data = [] <;>
    simp [RegistryValue.Complete, encodeHex_eq_nil, hk, hn, hd, hu,
      decodeHex_encodeHex, parseHexNumber_hexNumber v.type.toNat_lt]

theorem filterMap_parseLine (vs : List RegistryValue) :
    (vs.map line).filterMap parseLine = vs.filter fun v => decide v.Complete := by
  induction vs with
  | nil => rfl
  | cons v vs ih => by_cases hv : v.Complete <;> simp [parseLine_line, hv, ih]

/-- **A new process reads the complete values, in their order.** -/
theorem readRegistry_writeRegistry (vs : List RegistryValue) :
    readRegistry (writeRegistry vs) = vs.filter fun v => decide v.Complete := by
  have hl : ∀ v ∈ vs, ∀ c ∈ v.line, (c == 0x0A) = false := by
    intro v _ c hc
    simp only [line, mem_append, mem_cons] at hc
    rcases hc with hc | rfl | hc | rfl | hc | rfl | hc
    · exact (isSpace_of_hexValue (isSome_hexValue_encodeHex hc)).2
    · rfl
    · exact (isSpace_of_hexValue (isSome_hexValue_encodeHex hc)).2
    · rfl
    · exact (isSpace_of_hexValue (isSome_hexValue_hexNumber hc)).2
    · rfl
    · exact (isSpace_of_hexValue (isSome_hexValue_encodeHex hc)).2
  have hn : (vs.map line).filter (· ≠ []) = vs.map line := by
    refine filter_eq_self.2 fun l hm => ?_
    obtain ⟨v, -, rfl⟩ := mem_map.1 hm
    simp [line]
  unfold readRegistry writeRegistry
  rw [words_flatMap hl rfl, hn, filterMap_parseLine]

theorem complete_of_mem_readRegistry {f : ByteString} (h : v ∈ readRegistry f) : v.Complete := by
  obtain ⟨l, -, hl⟩ := mem_filterMap.1 h
  have hw : ∀ w ∈ words isSpace l, w ≠ [] := fun _ => ne_nil_of_mem_words
  unfold parseLine at hl
  split at hl
  · next ke nm t d r heq =>
    rw [heq] at hw
    simp only [bind_eq_bind, bind_eq_some_iff] at hl
    obtain ⟨kp, hk, vn, hn, bs, hd, n, -, hv⟩ := hl
    cases hv
    exact ⟨decodeHex_ne_nil hk (hw _ (by simp)), decodeHex_ne_nil hn (hw _ (by simp)),
      decodeHex_ne_nil hd (hw _ (by simp))⟩
  · cases hl

/-! ### Default values -/

theorem defaultValues_complete : ∀ v ∈ defaultValues, v.Complete := by decide +kernel

theorem lookupKey_setDefault : lookupKey RegistryValue.key (setDefault vs v) k =
      (lookupKey RegistryValue.key vs k).or (lookupKey RegistryValue.key [v] k) := by
  unfold setDefault
  split
  · next u hu =>
    by_cases hk : v.key = k
    · rw [hk] at hu
      rw [hu]
      rfl
    · have hn : lookupKey RegistryValue.key [v] k = none := by simp [lookupKey, hk]
      rw [hn, or_none]
  · exact lookupKey_append

/-- **A key without a value gets its default.** -/
theorem lookupKey_ensureDefaults : lookupKey RegistryValue.key (ensureDefaults vs) k =
      (lookupKey RegistryValue.key vs k).or (lookupKey RegistryValue.key defaultValues k) := by
  unfold ensureDefaults
  generalize defaultValues = ds
  induction ds generalizing vs with
  | nil => exact (or_none ..).symm
  | cons v ds ih =>
    have hc : lookupKey RegistryValue.key (v :: ds) k =
        (lookupKey RegistryValue.key [v] k).or (lookupKey RegistryValue.key ds k) :=
      lookupKey_append (l := [v])
    rw [foldl_cons, ih, lookupKey_setDefault, hc, Option.or_assoc]

theorem mem_setDefault {u : RegistryValue} (h : u ∈ setDefault vs v) : u ∈ vs ∨ u = v := by
  unfold setDefault at h
  split at h
  · exact .inl h
  · simpa using h

theorem mem_ensureDefaults (h : v ∈ ensureDefaults vs) : v ∈ vs ∨ v ∈ defaultValues := by
  unfold ensureDefaults at h
  generalize defaultValues = ds at h ⊢
  induction ds generalizing vs with
  | nil => exact .inl h
  | cons d ds ih =>
    rcases ih h with hs | hm
    · rcases mem_setDefault hs with hold | rfl
      · exact .inl hold
      · exact .inr mem_cons_self
    · exact .inr (mem_cons_of_mem _ hm)

/-! ### What comes back -/

/-- A new process finds under every path and name what is in memory. -/
def Restored (s : Registry) : Prop :=
  ∀ path name, (Registry.started s.file).load.lookup path name = s.lookup path name

/-- The values that are found are complete, and the default ones are among them. -/
def Kept (values : List RegistryValue) : Prop :=
  (∀ k v, lookupKey RegistryValue.key values k = some v → v.Complete) ∧
    ∀ d ∈ defaultValues, lookupKey RegistryValue.key values d.key ≠ none

theorem values_started (f : ByteString) :
    (Registry.started f).load.values = ensureDefaults (readRegistry f) := by
  unfold Registry.load Registry.started
  rw [if_neg Bool.false_ne_true]
  simp

theorem lookup_started {p nm : ByteString} :
    (Registry.started (writeRegistry vs)).load.lookup p nm =
      (lookupKey RegistryValue.key (vs.filter fun v => decide v.Complete) (p, nm)).or
        (lookupKey RegistryValue.key defaultValues (p, nm)) := by
  unfold Registry.lookup
  rw [values_started, lookupKey_ensureDefaults, readRegistry_writeRegistry]

/-- **The values come back exactly if they are kept.** -/
theorem restored_iff_kept {s : Registry} (h : s.file = writeRegistry s.values) :
    Restored s ↔ Kept s.values := by
  have ho : ∀ p nm, s.lookup p nm = lookupKey RegistryValue.key s.values (p, nm) := fun _ _ => rfl
  unfold Restored
  rw [h]
  simp only [lookup_started, ho]
  constructor
  · intro hb
    constructor
    · rintro ⟨p, nm⟩ v hv
      rcases or_eq_some_iff.1 ((hb p nm).trans hv) with hf | ⟨-, hdf⟩
      · have hm := mem_filter.1 (key_of_lookupKey hf).1
        exact of_decide_eq_true hm.2
      · exact defaultValues_complete v (key_of_lookupKey hdf).1
    · intro d hd hn
      have hl := (or_eq_none_iff.1 ((hb d.keyPath d.valueName).trans hn)).2
      exact lookupKey_eq_none.1 hl d hd rfl
  · rintro ⟨hc, he⟩ p nm
    cases hv : lookupKey RegistryValue.key s.values (p, nm) with
    | some v =>
      have hf : lookupKey RegistryValue.key (s.values.filter fun v => decide v.Complete)
          (p, nm) = some v :=
        lookupKey_filter hv (decide_eq_true (hc _ v hv))
      rw [hf, some_or]
    | none =>
      have hf : lookupKey RegistryValue.key (s.values.filter fun v => decide v.Complete)
          (p, nm) = none :=
        lookupKey_eq_none.2 fun u hu => lookupKey_eq_none.1 hv u (mem_of_mem_filter hu)
      rw [hf, none_or]
      refine lookupKey_eq_none.2 fun d hd hk => he d hd ?_
      rw [hk, hv]

/-! ### What a call leaves -/

/-- All that the memory holds is complete, and the default values are there. -/
structure Whole (values : List RegistryValue) : Prop where
  complete : ∀ v ∈ values, v.Complete
  defaults : ∀ d ∈ defaultValues, lookupKey RegistryValue.key values d.key ≠ none

theorem Whole.kept (h : Whole values) : Kept values :=
  ⟨fun _ v hv => h.complete v (key_of_lookupKey hv).1, h.defaults⟩

theorem whole_started (f : ByteString) : Whole (Registry.started f).load.values := by
  rw [values_started]
  constructor
  · intro v hv
    rcases mem_ensureDefaults hv with hf | he
    · exact complete_of_mem_readRegistry hf
    · exact defaultValues_complete v he
  · intro d hd hn
    rw [lookupKey_ensureDefaults, or_eq_none_iff] at hn
    exact lookupKey_eq_none.1 hn.2 d hd rfl

theorem Whole.put (h : Whole vs) (hv : v.Complete) : Whole (upsert RegistryValue.key vs v) := by
  constructor
  · intro u hu
    rcases mem_upsert hu with hold | rfl
    · exact h.complete u hold
    · exact hv
  · intro d hd
    rw [lookupKey_upsert]
    split
    · exact some_ne_none v
    · exact h.defaults d hd

/-- **After a value was put, the values come back exactly if it is complete.** -/
theorem Whole.kept_put (h : Whole vs) : Kept (upsert RegistryValue.key vs v) ↔ v.Complete := by
  refine ⟨fun hk => hk.1 v.key v ?_, fun hv => (h.put hv).kept⟩
  rw [lookupKey_upsert, if_pos rfl]

def without (values : List RegistryValue) (k : ByteString × ByteString) : List RegistryValue :=
  values.eraseP fun v => decide (v.key = k)

/-- A default value stays under its key when the first value of a key is erased. -/
def Spared (values : List RegistryValue) (k : ByteString × ByteString) : Prop :=
  (∃ d ∈ defaultValues, d.key = k) → 1 < (withKey RegistryValue.key values k).length

theorem lookupKey_without {k₀ : ByteString × ByteString} :
    lookupKey RegistryValue.key (without vs k₀) k =
      if k = k₀ then (withKey RegistryValue.key vs k).tail.head?
      else lookupKey RegistryValue.key vs k := by
  rw [lookupKey_eq_head?, lookupKey_eq_head?, without, withKey_eraseP]
  split <;> rfl

theorem Whole.erase (h : Whole vs) (hk : Spared vs k) : Whole (without vs k) := by
  constructor
  · exact fun v hv => h.complete v (mem_of_mem_eraseP hv)
  · intro d hd
    rw [lookupKey_without]
    split
    · next heq =>
      have hm := hk ⟨d, hd, heq⟩
      rw [heq]
      simpa using hm
    · exact h.defaults d hd

/-- **After a value was deleted, the values come back exactly if no default is gone.** -/
theorem Whole.kept_erase (h : Whole vs) : Kept (without vs k) ↔ Spared vs k := by
  refine ⟨fun he => ?_, fun hk => (h.erase hk).kept⟩
  rintro ⟨d, hd, heq⟩
  have hf := he.2 d hd
  rw [lookupKey_without, if_pos heq, heq] at hf
  simpa using hf

end Advapi

/-! ### Runs -/

open Advapi
open TradutorLinux.Runtime (kErrorSuccess)

namespace Registry

variable {s s' : Registry} {c : Call} {values vs : List RegistryValue}

def Call.writesFile : Call → Bool
  | .setValue _ _ _ _ _ opens => opens
  | .deleteValue _ _ opens => opens
  | _ => true

def Call.changesValue : Call → Bool
  | .setValue .. => true
  | .deleteValue .. => true
  | _ => false

/-- The calls of a process whose file can always be opened. -/
def savingStep (s : Registry) (c : Call) : Option Registry :=
  if c.writesFile then some (s.call c).2 else none

/-- If the call has changed a value, a new process finds what is in memory. -/
def LeavesRestored (s : Registry) (c : Call) (s' : Registry) : Prop :=
  c.changesValue = true → (s.call c).1.code = kErrorSuccess → Restored s'

/-- What is put is complete, and a default value is not the one that is removed, unless the
memory has another one under its key. -/
def KeepsValues (s : Registry) : Call → Prop
  | .setValue key name type data wide _ =>
    ∀ v, s.putBy key name type data wide = some v → v.Complete
  | .deleteValue key name _ => ∀ k, s.removedBy key name = some k → Spared s.load.values k
  | _ => True

theorem restored_saved : Restored (s.saved values true) ↔ Kept values := by
  rw [restored_iff_kept (by rw [saved_values]; rfl), saved_values]

theorem load_values_setKey (i : ℕ) (ke : RegistryKey) :
    (s.load.setKey i ke).load.values = s.load.values := by
  rw [load_setKey, load_load]
  rfl

/-- **A call that keeps the values leaves them whole.** -/
theorem whole_step (hs : Whole s.load.values) (ho : KeepsValues s c) :
    Whole (s.call c).2.load.values := by
  cases c with
  | openKey ke sub r di cr =>
    show Whole (s.openKey ke sub r di cr).2.load.values
    rcases s.openKey_cases ke sub r di cr with
      ⟨path, i, -, -, -, -, -, heq⟩ | ⟨-, -, heq | ⟨i, -, heq⟩⟩
    · rwa [heq, load_values_setKey]
    · rwa [heq]
    · rwa [heq, load_values_setKey]
  | setValue ke nm t d w os =>
    show Whole (s.setValue ke nm t d w os).2.load.values
    rcases s.setValue_cases ke nm t d w os with
      ⟨v, hv, heq⟩ | ⟨-, s', rfl | rfl, heq⟩
    · rw [heq]
      rw [load_saved, saved_values]
      exact hs.put (ho v hv)
    · rwa [heq]
    · rwa [heq, load_load]
  | queryValue ke nm t d ca sz w =>
    show Whole (s.queryValue ke nm t d ca sz w).2.load.values
    rcases s.queryValue_cases ke nm t d ca sz w with heq | heq
    · rwa [heq]
    · rwa [heq, load_load]
  | deleteValue ke nm os =>
    show Whole (s.deleteValue ke nm os).2.load.values
    rcases s.deleteValue_cases ke nm os with
      ⟨k, hk, heq⟩ | ⟨-, code, s', -, rfl | rfl, heq⟩
    · rw [heq]
      rw [load_saved, saved_values]
      exact hs.erase (ho k hk)
    · rwa [heq]
    · rwa [heq, load_load]
  | closeKey ke =>
    show Whole (s.closeKey ke).2.load.values
    rcases s.closeKey_cases ke with ⟨i, -, -, heq⟩ | heq
    · rw [heq, load_setKey]
      exact hs
    · rwa [heq]

/-- **The values come back after a call that changes one exactly if it keeps them.** -/
theorem leavesRestored_iff (hs : Whole s.load.values) (ht : savingStep s c = some s') :
    LeavesRestored s c s' ↔ KeepsValues s c := by
  have hr (h : c.changesValue = false) : LeavesRestored s c s' := fun hc =>
    absurd (hc.symm.trans h) (by decide)
  unfold savingStep at ht
  split at ht
  · next hw =>
    cases ht
    cases c with
    | openKey => exact iff_of_true (hr rfl) trivial
    | queryValue => exact iff_of_true (hr rfl) trivial
    | closeKey => exact iff_of_true (hr rfl) trivial
    | setValue ke nm t d w os =>
      obtain rfl : os := hw
      show (true → (s.setValue ke nm t d w true).1 = kErrorSuccess →
        Restored (s.setValue ke nm t d w true).2) ↔ _
      rcases s.setValue_cases ke nm t d w true with
        ⟨v, hv, heq⟩ | ⟨hn, s', -, heq⟩
      · have hb : Restored (s.setValue ke nm t d w true).2 ↔ v.Complete := by
          rw [heq]
          exact restored_saved.trans hs.kept_put
        rw [hb, heq]
        constructor
        · intro h u hu
          cases hu.symm.trans hv
          exact h rfl rfl
        · exact fun h _ _ => h v hv
      · rw [heq]
        have ho : Runtime.kErrorInvalidParameter ≠ kErrorSuccess := by decide
        refine iff_of_true (fun _ hsu => absurd hsu ho) fun u hu => ?_
        cases hu.symm.trans hn
    | deleteValue ke nm os =>
      obtain rfl : os := hw
      show (true → (s.deleteValue ke nm true).1 = kErrorSuccess →
        Restored (s.deleteValue ke nm true).2) ↔ _
      rcases s.deleteValue_cases ke nm true with
        ⟨k, hk, heq⟩ | ⟨hn, code, s', ho, -, heq⟩
      · have hb : Restored (s.deleteValue ke nm true).2 ↔ Spared s.load.values k := by
          rw [heq]
          exact restored_saved.trans hs.kept_erase
        rw [hb, heq]
        constructor
        · intro h u hu
          cases hu.symm.trans hk
          exact h rfl rfl
        · exact fun h _ _ => h k hk
      · rw [heq]
        refine iff_of_true (fun _ hsu => absurd hsu ho) fun u hu => ?_
        cases hu.symm.trans hn
  · cases ht

/-- **A new process finds what was in memory after every change of a run exactly if every
change keeps the values.** -/
theorem registry_persistence (file : ByteString) (calls : List Call) :
    EachStep savingStep LeavesRestored (started file) calls ↔
      EachStep savingStep (fun s c _ => KeepsValues s c) (started file) calls := by
  refine eachStep_iff (I := fun s => Whole s.load.values)
    (fun _ _ _ hs => leavesRestored_iff hs) (fun t c t' hs ho ht => ?_)
    (whole_started file) calls
  unfold savingStep at ht
  split at ht
  · exact Option.some.inj ht ▸ whole_step hs ho
  · cases ht

/-- The key `HKEY_CURRENT_USER\A` is opened, and its unnamed value set. -/
def unnamedCalls : List Call :=
  [.openKey (.value 0x80000001) (text "A") .writable .null true,
    .setValue (.slot 0) [] kRegSz (some (text "x")) false true]

/-- An unnamed value is lost. -/
theorem not_registry_persistence : ¬∀ (file : ByteString) (calls : List Call),
      EachStep savingStep LeavesRestored (started file) calls := by
  intro h
  have hp := (h [] unnamedCalls _ rfl).2 _ rfl
  have hw := whole_step (c := Call.openKey (.value 0x80000001) (text "A") .writable .null true)
    (whole_started []) trivial
  have hc := (leavesRestored_iff hw rfl).mp hp.1
    ⟨text "HKEY_CURRENT_USER\\A", [], kRegSz, text "x" ++ [0]⟩ (by decide +kernel)
  exact hc.2.1 rfl

end Registry
end TradutorLinux
