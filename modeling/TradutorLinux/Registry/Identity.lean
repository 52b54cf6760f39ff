import TradutorLinux.Registry.Keys
import TradutorLinux.Util.Basics
import TradutorLinux.Util.Runs

/-!
# Which key a handle denotes

A handle is given out by an open or a create call, on a predefined root or on
another handle.  The slot keeps the path that the parts give together, joined by
backslashes, and values are found under that path, byte for byte.  So it is the
same whether `A\B` is opened at once or `A` and then `B`; but the case of the
letters counts, a root alone has no values, and a key need not be there to be
opened.

## Main definitions

* `Named`, `KeyIdentity`

## Main results

* `joinPath_assoc`
* `spelled_run` — **a slot has the path that it was opened by.**
* `lookup_run`
* `registry_key_identity` — **all of it, after every run of calls.**
-/

namespace TradutorLinux

open Function List

open Advapi
open TradutorLinux.Runtime (kErrorSuccess kErrorInvalidHandle kErrorInvalidParameter)

namespace Registry

variable {s s' : Registry} {c : Call}

/-! ### Spelling -/

theorem joinPath_nil_left (b : ByteString) : joinPath [] b = b := by simp [joinPath]

theorem joinPath_nil_right (a : ByteString) : joinPath a [] = a := by simp [joinPath]

theorem joinPath_of_ne {a b : ByteString} (ha : a ≠ []) (hb : b ≠ []) :
    joinPath a b = a ++ 0x5C :: b := by
  simp [joinPath, ha, hb]

/-- **Parts may be joined in any order.** -/
theorem joinPath_assoc (a b c : ByteString) :
    joinPath (joinPath a b) c = joinPath a (joinPath b c) := by
  by_cases ha : a = []
  · rw [ha, joinPath_nil_left, joinPath_nil_left]
  by_cases hb : b = []
  · rw [hb, joinPath_nil_left, joinPath_nil_right]
  by_cases hc : c = []
  · rw [hc, joinPath_nil_right, joinPath_nil_right]
  have hab : a ++ 0x5C :: b ≠ [] := by simp
  have hbc : b ++ 0x5C :: c ≠ [] := by simp
  rw [joinPath_of_ne ha hb, joinPath_of_ne hab hc, joinPath_of_ne hb hc, joinPath_of_ne ha hbc,
    append_assoc, cons_append]

/-- The path of a root and of the subkeys that were opened from it one after the other. -/
def spell (origin : UInt32 × List ByteString) : ByteString :=
  origin.2.foldl joinPath (predefinedKeyPrefix origin.1)

/-- **A subkey of two parts is the first part and then the second.** -/
theorem spell_split (r : UInt32) (f ba : List ByteString) {a b : ByteString}
    (ha : a ≠ []) (hb : b ≠ []) :
    spell (r, f ++ (a ++ 0x5C :: b) :: ba) = spell (r, f ++ a :: b :: ba) := by
  unfold spell
  rw [foldl_append, foldl_append, foldl_cons, foldl_cons, foldl_cons,
    ← joinPath_of_ne ha hb, joinPath_assoc]

/-! ### Where a slot comes from -/

/-- The registry of a process, with the root of every slot and the subkeys it was opened
through. -/
structure Named where
  registry : Registry
  origin : ℕ → UInt32 × List ByteString

namespace Named

def originOf (n : Named) (key : Hkey) (subkey : ByteString) : UInt32 × List ByteString :=
  match key with
  | .value word => (word, [subkey])
  | .slot i => ((n.origin i).1, (n.origin i).2 ++ [subkey])

/-- The origins after a call: a slot that was given out has a new one. -/
def originAfter (n : Named) : Call → ℕ → UInt32 × List ByteString
  | .openKey key subkey result disposition create =>
    match (n.registry.openKey key subkey result disposition create).1.handle with
    | some i => update n.origin i (n.originOf key subkey)
    | none => n.origin
  | _ => n.origin

def step (n : Named) (c : Call) : Named := ⟨(n.registry.call c).2, n.originAfter c⟩

/-- The calls of a process one after the other. -/
def run (n : Named) (calls : List Call) : Named := calls.foldl step n

end Named

/-- A new process, whose slots come from nowhere. -/
def named (file : ByteString) : Named := ⟨started file, fun _ => (0, [])⟩

/-- Every open slot has the path that its origin spells. -/
def Spelled (n : Named) : Prop :=
  ∀ i path, n.registry.findKey (.slot i) = some path → path = spell (n.origin i)

/-! ### What a call does to the slots -/

theorem findKey_of_keys_eq (h : s'.keys = s.keys) (key : Hkey) :
    s'.findKey key = s.findKey key := by
  cases key with
  | value w => rfl
  | slot i => rw [findKey, findKey, h]

variable {i : ℕ}

theorem findKey_setKey_of_ne {j : ℕ} (h : j ≠ i) (key : RegistryKey) :
    (s.setKey i key).findKey (.slot j) = s.findKey (.slot j) := by
  simp [findKey, setKey, update_of_ne h]

theorem findKey_setKey_closed (i : ℕ) : (s.setKey i {}).findKey (.slot i) = none := by
  simp [findKey, setKey]

theorem findKey_setKey_open {path p' : ByteString}
    (h : (s.setKey i ⟨true, path⟩).findKey (.slot i) = some p') : p' = path := by
  simp only [findKey, setKey, update_self] at h
  split at h
  · exact (Option.some.inj h).symm
  · cases h

theorem findKey_of_setKey_closed {j : ℕ} {path : ByteString}
    (h : (s.setKey i {}).findKey (.slot j) = some path) : s.findKey (.slot j) = some path := by
  by_cases hj : j = i
  · rw [hj, findKey_setKey_closed] at h
    cases h
  · rwa [findKey_setKey_of_ne hj] at h

variable {n : Named} {key : Hkey}

theorem spelled_composed (h : Spelled n) {sub p : ByteString}
    (hp : n.registry.composeKeyPath key sub = some p) : p = spell (n.originOf key sub) := by
  cases key with
  | value w =>
    simp only [composeKeyPath] at hp
    split at hp
    · exact (Option.some.inj hp).symm
    · cases hp
  | slot i =>
    obtain ⟨pr, ha, rfl⟩ := Option.map_eq_some_iff.1 hp
    obtain rfl := h i pr ha
    unfold Named.originOf spell
    rw [foldl_append]
    rfl

theorem findKey_of_call {path : ByteString} (ho : ∀ key sub r d cr,
      c = .openKey key sub r d cr →
        (s.openKey key sub r d cr).1.handle = none)
    (h : (s.call c).2.findKey (.slot i) = some path) : s.findKey (.slot i) = some path := by
  cases c with
  | openKey key sub r d cr =>
    have hn := ho key sub r d cr rfl
    replace h : (s.openKey key sub r d cr).2.findKey (.slot i) = some path :=
      h
    rcases s.openKey_cases key sub r d cr with
      ⟨_, j, -, -, -, -, hs, -⟩ | ⟨-, -, heq | ⟨j, -, heq⟩⟩
    · cases hs.symm.trans hn
    · rwa [heq] at h
    · rw [heq] at h
      have hl := findKey_of_setKey_closed h
      rwa [findKey_of_keys_eq load_keys] at hl
  | setValue key name t da w os =>
    replace h : (s.setValue key name t da w os).2.findKey (.slot i) = some path := h
    rcases s.setValue_cases key name t da w os with
      ⟨v, -, heq⟩ | ⟨-, s', rfl | rfl, heq⟩
    · rwa [heq, findKey_of_keys_eq (saved_keys os)] at h
    · rwa [heq] at h
    · rw [heq] at h
      rwa [findKey_of_keys_eq load_keys] at h
  | queryValue key name t da ca sz w =>
    replace h : (s.queryValue key name t da ca sz w).2.findKey (.slot i) =
      some path := h
    rcases s.queryValue_cases key name t da ca sz w with heq | heq
    · rwa [heq] at h
    · rw [heq] at h
      rwa [findKey_of_keys_eq load_keys] at h
  | deleteValue key name os =>
    replace h : (s.deleteValue key name os).2.findKey (.slot i) = some path := h
    rcases s.deleteValue_cases key name os with
      ⟨k, -, heq⟩ | ⟨-, code, s', -, rfl | rfl, heq⟩
    · rwa [heq, findKey_of_keys_eq (saved_keys os)] at h
    · rwa [heq] at h
    · rw [heq] at h
      rwa [findKey_of_keys_eq load_keys] at h
  | closeKey key =>
    replace h : (s.closeKey key).2.findKey (.slot i) = some path := h
    rcases s.closeKey_cases key with ⟨j, -, -, heq⟩ | heq
    · rw [heq] at h
      exact findKey_of_setKey_closed h
    · rwa [heq] at h

/-- **A call keeps the spelling of the slots.** -/
theorem Spelled.step (h : Spelled n) (c : Call) : Spelled (n.step c) := by
  -- a slot that no open has given out has the path and the origin of before
  have hr (ho : ∀ key sub r d cr,
      c = .openKey key sub r d cr →
        (n.registry.openKey key sub r d cr).1.handle = none) :
      Spelled (n.step c) := by
    have hi : n.originAfter c = n.origin := by
      cases c with
      | openKey key sub r d cr => rw [Named.originAfter, ho _ _ _ _ _ rfl]
      | _ => rfl
    intro i path hp
    show path = spell (n.originAfter c i)
    rw [hi]
    exact h i path (findKey_of_call ho hp)
  cases c with
  | openKey key sub r d cr =>
    rcases n.registry.openKey_cases key sub r d cr with
      ⟨path, i, hp, -, -, -, hh, heq⟩ | ⟨-, hn, -⟩
    · intro j path' hp'
      replace hp' : (n.registry.openKey key sub r d cr).2.findKey
        (.slot j) = some path' := hp'
      show path' = spell (n.originAfter _ j)
      rw [Named.originAfter, hh]
      rw [heq] at hp'
      by_cases hj : j = i
      · subst hj
        rw [findKey_setKey_open hp', spelled_composed h hp]
        simp
      · rw [findKey_setKey_of_ne hj, findKey_of_keys_eq load_keys] at hp'
        simpa [hj] using h j path' hp'
    · refine hr fun _ _ _ _ _ heq => ?_
      cases heq
      exact hn
  | _ => exact hr nofun

theorem spelled_run (h : Spelled n) (cs : List Call) : Spelled (n.run cs) := by
  induction cs generalizing n with
  | nil => exact h
  | cons c cs ih => exact ih (h.step c)

theorem spelled_named (f : ByteString) : Spelled (named f) := by
  intro i p h
  simp [named, started, findKey] at h

/-! ### What a call does to the values -/

/-- The path and name of the value that a call puts or removes. -/
def changedBy (s : Registry) : Call → Option (ByteString × ByteString)
  | .setValue key name type data wide _ => (s.putBy key name type data wide).map RegistryValue.key
  | .deleteValue key name _ => s.removedBy key name
  | _ => none

variable {path pa p name ne na : ByteString}

/-- **A call changes the value of one path and name at most.** -/
theorem lookup_call (h : s.changedBy c ≠ some (path, name)) :
    (s.call c).2.load.lookup path name = s.load.lookup path name := by
  cases c with
  | openKey key sub r di cr =>
    show (s.openKey key sub r di cr).2.load.lookup path name = _
    rcases s.openKey_cases key sub r di cr with
      ⟨path, i, -, -, -, -, -, heq⟩ | ⟨-, -, heq | ⟨i, -, heq⟩⟩
    · rw [heq, load_setKey, load_load]
      rfl
    · rw [heq]
    · rw [heq, load_setKey, load_load]
      rfl
  | setValue key nm' t d w os =>
    show (s.setValue key nm' t d w os).2.load.lookup path name = _
    rcases s.setValue_cases key nm' t d w os with
      ⟨v, hv, heq⟩ | ⟨-, s', rfl | rfl, heq⟩
    · have he : ¬v.key = (path, name) := fun heq => h (by simp [changedBy, hv, heq])
      rw [heq, load_saved, lookup, saved_values, lookupKey_upsert, if_neg he]
      rfl
    · rw [heq]
    · rw [heq, load_load]
  | queryValue key nm' t d ca sz w =>
    show (s.queryValue key nm' t d ca sz w).2.load.lookup path name = _
    rcases s.queryValue_cases key nm' t d ca sz w with heq | heq
    · rw [heq]
    · rw [heq, load_load]
  | deleteValue key nm' os =>
    show (s.deleteValue key nm' os).2.load.lookup path name = _
    rcases s.deleteValue_cases key nm' os with
      ⟨k, hk, heq⟩ | ⟨-, code, s', -, rfl | rfl, heq⟩
    · have he : ¬(path, name) = k := fun heq => h (by simp [changedBy, hk, heq])
      rw [heq, load_saved, lookup, saved_values, lookupKey_eq_head?, withKey_eraseP, if_neg he,
        ← lookupKey_eq_head?]
      rfl
    · rw [heq]
    · rw [heq, load_load]
  | closeKey key =>
    show (s.closeKey key).2.load.lookup path name = _
    rcases s.closeKey_cases key with ⟨i, -, -, heq⟩ | heq
    · rw [heq, load_setKey]
      rfl
    · rw [heq]

/-- None of the calls puts or removes a value of the path and name. -/
def Unchanged (k : ByteString × ByteString) (n : Named) (calls : List Call) : Prop :=
  EachStep (fun n c => some (n.step c)) (fun n c _ => n.registry.changedBy c ≠ some k) n calls

/-- **A value stays what it is until it is changed.** -/
theorem lookup_run {cs : List Call} (h : Unchanged (path, name) n cs) :
    (n.run cs).registry.load.lookup path name = n.registry.load.lookup path name := by
  induction cs generalizing n with
  | nil => rfl
  | cons c cs ih =>
    obtain ⟨hc, hr⟩ := h _ rfl
    exact (ih hr).trans (lookup_call hc)

/-! ### What the handles of a process denote -/

theorem lookup_put {na : ByteString} {t : UInt32} {d : Option ByteString}
    {w : Bool} {v : RegistryValue} (h : s.putBy key na t d w = some v) (os : Bool) :
    (s.setValue key na t d w os).2.load.lookup v.keyPath v.valueName = some v := by
  rcases s.setValue_cases key na t d w os with ⟨u, hu, heq⟩ | ⟨hn, -⟩
  · cases hu.symm.trans h
    rw [heq, load_saved, lookup, saved_values, lookupKey_upsert, RegistryValue.key, if_pos rfl]
  · cases h.symm.trans hn

theorem queryValue_of_lookup {v : RegistryValue}
    (hk : s.findKey key = some p) (hf : s.load.lookup p na = some v)
    {ca : ℕ} {w : Bool} (hr : (registryDataForQuery v w).length ≤ ca)
    (hs : (registryDataForQuery v w).length < 2 ^ 32) :
    (s.queryValue key na .writable .writable (some ca) true w).1 =
      ⟨kErrorSuccess, some v.type, some (registryDataForQuery v w),
        some (registryDataForQuery v w).length⟩ := by
  have hr' : ¬(GuestOut.writable = .null ∨ ca < (registryDataForQuery v w).length) := by
    rintro (h | h)
    · cases h
    · omega
  unfold queryValue
  simp only [hk, hf, Nat.mod_eq_of_lt hs]
  rw [if_neg nofun, if_neg hr', if_neg (by simp), if_neg (by decide), take_length]
  rfl

/-- What the handles of a process denote. -/
structure KeyIdentity (n : Named) : Prop where
  /-- A handle has the path that its origin spells. -/
  spelled : ∀ i path, n.registry.findKey (.slot i) = some path → path = spell (n.origin i)
  /-- A value that is put through a handle comes back through every handle of the same
  spelling, until that value is changed. -/
  returned : ∀ i name type data wide opens v,
    n.registry.putBy (.slot i) name type data wide = some v →
    ∀ calls, Unchanged v.key (n.step (.setValue (.slot i) name type data wide opens)) calls →
    ∀ n', n' = (n.step (.setValue (.slot i) name type data wide opens)).run calls →
    ∀ j path, n'.registry.findKey (.slot j) = some path → spell (n'.origin j) = spell (n.origin i) →
    ∀ capacity form, (registryDataForQuery v form).length ≤ capacity →
      (registryDataForQuery v form).length < 2 ^ 32 →
      (n'.registry.queryValue (.slot j) name .writable .writable (some capacity) true form).1 =
        ⟨kErrorSuccess, some v.type, some (registryDataForQuery v form),
          some (registryDataForQuery v form).length⟩
  /-- A call changes the value of one path and name at most. -/
  apart : ∀ c path name, n.registry.changedBy c ≠ some (path, name) →
    (n.step c).registry.load.lookup path name = n.registry.load.lookup path name
  /-- A predefined root has no values of its own, and none can be put there. -/
  roots : ∀ word name,
    (∀ type data wide opens,
      n.registry.setValue (.value word) name type data wide opens =
        (kErrorInvalidParameter, n.registry)) ∧
    (∀ type data capacity sizeWritable wide,
      n.registry.queryValue (.value word) name type data capacity sizeWritable wide =
        (⟨kErrorInvalidParameter, none, none, none⟩, n.registry)) ∧
    ∀ opens, n.registry.deleteValue (.value word) name opens = (kErrorInvalidHandle, n.registry)
  /-- Whether a key is there does not matter to an open call. -/
  opened : ∀ key subkey path i create,
    n.registry.composeKeyPath key subkey = some path → n.registry.freeKey = some i →
    (n.registry.openKey key subkey .writable .null create).1 =
      if create = false ∧ path = [] then ⟨kErrorFileNotFound, none, none⟩
      else ⟨kErrorSuccess, some i, none⟩

theorem roots_refused (wo : UInt32) (na : ByteString) : (∀ t d w os,
      s.setValue (.value wo) na t d w os = (kErrorInvalidParameter, s)) ∧
    (∀ t d ca sz w, s.queryValue (.value wo) na t d ca sz w =
        (⟨kErrorInvalidParameter, none, none, none⟩, s)) ∧
    ∀ os, s.deleteValue (.value wo) na os = (kErrorInvalidHandle, s) := by
  refine ⟨fun t d w os => ?_, fun t d ca sz w => ?_, fun os => rfl⟩
  · cases d <;> rfl
  · cases ca <;> rfl

theorem openKey_opened {sub p : ByteString}
    (hp : s.composeKeyPath key sub = some p) (hf : s.freeKey = some i) (cr : Bool) :
    (s.openKey key sub .writable .null cr).1 =
      if cr = false ∧ p = [] then ⟨kErrorFileNotFound, none, none⟩
      else ⟨kErrorSuccess, some i, none⟩ := by
  unfold openKey
  rw [if_neg nofun, hp]
  dsimp only
  split
  · rfl
  · rw [hf]
    rfl

/-- **The handles of a process denote the paths they were opened by, however these were
split.** -/
theorem registry_key_identity (file : ByteString) (calls : List Call) :
    KeyIdentity ((named file).run calls) ∧ ∀ root front back a b, a ≠ [] → b ≠ [] →
        spell (root, front ++ (a ++ 0x5C :: b) :: back) =
          spell (root, front ++ a :: b :: back) := by
  have he := spelled_run (spelled_named file) calls
  refine ⟨⟨he, ?_, fun _ _ _ => lookup_call, roots_refused, ?_⟩,
    fun root front back a b => spell_split root front back⟩
  · intro i name t d w os v hpu cs' hu n' hn' j path hp hs capacity form hr hi
    obtain ⟨-, -, hk, hn, -, -⟩ := putBy_eq_some hpu
    have ht := (lookup_run hu).trans (lookup_put hpu os)
    have hs' : Spelled n' := hn' ▸ spelled_run (he.step _) cs'
    have hp' : path = v.keyPath := by rw [hs' j path hp, hs, he i v.keyPath hk]
    subst hp'
    rw [← hn', hn] at ht
    exact queryValue_of_lookup hp ht hr hi
  · exact fun _ _ _ _ cr hp hf => openKey_opened hp hf cr

/-- **The case of the letters counts, a root is refused, and a key that is not there is
opened.** -/
theorem not_registry_key_identity :
    (¬∀ (file : ByteString) (calls : List Call) (i j : ℕ) (path path' : ByteString),
      ((named file).run calls).registry.findKey (.slot i) = some path →
      ((named file).run calls).registry.findKey (.slot j) = some path' →
      asciiIequals path path' = true →
      ((((named file).run calls).registry.setValue (.slot i) (text "n") kRegSz
        (some (text "x")) false true).2.queryValue (.slot j) (text "n") .null .null (some 0) true
        false).1.code = kErrorSuccess) ∧
    (¬∀ (file : ByteString) (word : UInt32), isPredefinedKey (.value word) = true →
      ((started file).setValue (.value word) (text "n") kRegSz (some (text "x")) false true).1 =
        kErrorSuccess) ∧
    ¬∀ (file subkey path : ByteString) (word : UInt32),
      (started file).composeKeyPath (.value word) subkey = some path →
      (∀ v ∈ (started file).load.values, ¬path <+: v.keyPath) →
      ((started file).openKey (.value word) subkey .writable .null false).1.code =
        kErrorFileNotFound := by
  refine ⟨fun h => ?_, fun h => ?_, fun h => ?_⟩
  · have hc := h [] [.openKey (.value 0x80000001) (text "a") .writable .null true,
      .openKey (.value 0x80000001) (text "A") .writable .null true] 0 1
      (text "HKEY_CURRENT_USER\\a") (text "HKEY_CURRENT_USER\\A") (by decide +kernel)
      (by decide +kernel) (by decide +kernel)
    revert hc
    decide +kernel
  · have hc := h [] 0x80000001 (by decide)
    revert hc
    decide +kernel
  · have hc := h [] (text "a") (text "HKEY_CURRENT_USER\\a") 0x80000001 (by decide +kernel)
      (by decide +kernel)
    revert hc
    decide +kernel

end Registry
end TradutorLinux
