import Mathlib.Data.List.Induction
import TradutorLinux.Process.Unicode
import TradutorLinux.Shell.LogicalCompare

/-!
# Combining paths

`tl_PathCombineW` of `shlwapi.cpp` takes both strings to UTF-8, has `tl_PathCombineA`
put them together in a local buffer, and takes the buffer back to UTF-16.  Each string
is read up to a limit; what is put together has none.

## Main definitions

* `combine` — the two strings, with one backslash between them.
* `pathCombineA`, `pathCombineW`, `textOf`

## Main results

* `combine_utf8` — text may be combined before it is encoded or after.
* `pathCombineW_sound_iff` — **the buffer is large enough, and the result the combination,
  exactly when both strings and the separator have less than 4096 bytes.**
-/

namespace TradutorLinux.Shlwapi

open List Process

/-- `sizeof(buf)`. -/
def sizeofBuf : ℕ := 4096

section Combine

variable {α : Type} [DecidableEq α] (backslash slash : α)

def IsSeparator (c : Option α) : Prop := c = some backslash ∨ c = some slash

instance (c : Option α) : Decidable (IsSeparator backslash slash c) :=
  inferInstanceAs (Decidable (_ ∨ _))

/-- `result` of `tl_PathCombineA`. -/
def combine (dir file : List α) : List α :=
  let result :=
    if dir = [] then []
    else if ¬IsSeparator backslash slash dir.getLast? then dir ++ [backslash] else dir
  let offset := if result ≠ [] ∧ IsSeparator backslash slash file.head? then 1 else 0
  result ++ file.drop offset

/-- How long the combination is. -/
def combinedLength (dir file : List α) : ℕ :=
  dir.length + (if dir = [] ∨ IsSeparator backslash slash dir.getLast? then 0 else 1) +
    (file.length - if dir ≠ [] ∧ IsSeparator backslash slash file.head? then 1 else 0)

theorem length_combine (dir file : List α) :
    (combine backslash slash dir file).length = combinedLength backslash slash dir file := by
  unfold combine combinedLength
  by_cases hd : dir = []
  · simp [hd]
  · by_cases hs : IsSeparator backslash slash dir.getLast?
    · simp [hd, hs]
    · simp [hd, hs]
      omega

end Combine

/-- A null pointer is an empty string. -/
def copied {α : Type} [GuestUnit α] [DecidableEq α] (p : GuestPointer α) : Option (List α) :=
  if p.address = 0 then some [] else copyGuestString p kMaxShlwapiStringUnits

/-- What `tl_PathCombineA` writes. -/
def pathCombineA (dir file : GuestPointer UInt8) : Option ByteString := do
  let dir ← copied dir
  let file ← copied file
  return combine 0x5C 0x2F dir file ++ [terminator]

/-- `c_str()`. -/
def cStr (s : ByteString) : GuestPointer UInt8 := ⟨1, s ++ [terminator]⟩

/-- What comes of a call. -/
inductive Combined
  /-- Nothing is written to `dest`. -/
  | null
  /-- The bytes do not fit the buffer; what the program does from there on is undefined. -/
  | overflow (written : ByteString)
  /-- What was written to the buffer and to `dest`. -/
  | dest (written : ByteString) (result : List UInt16)

/-- `tl_PathCombineW`; `writable` tells how many units may be written to `dest`. -/
def pathCombineW (writable : ℕ → Bool) (dest : ℕ) (dir file : GuestPointer UInt16) : Combined :=
  if dest = 0 then .null
  else
    match copied dir, copied file with
    | some dir, some file =>
      match pathCombineA (cStr (wideToUtf8 dir)) (cStr (wideToUtf8 file)) with
      | none => .null
      | some written =>
        if sizeofBuf < written.length then .overflow written
        else
          let u16 := utf8ToWide (written.takeWhile (· ≠ terminator)) ++ [terminator]
          if writable u16.length then .dest written u16 else .null
    | _, _ => .null

/-! ### Text -/

/-- The characters of wide units, with a question mark for what is none. -/
def textOf (units : List UInt16) : List Char :=
  transcode decodeUtf16 (fun n => [Char.ofNat n]) units.length units

/-- What is read is the number of a character. -/
theorem decodeUtf16_valid (us : List UInt16) :
    (Char.ofNat ((decodeUtf16 us).1.getD 0x3F)).toNat = (decodeUtf16 us).1.getD 0x3F := by
  have hv : ((decodeUtf16 us).1.getD 0x3F).isValidChar := by
    cases us with
    | nil => exact .inl (by decide)
    | cons f r =>
      have ht := f.toNat_lt
      have hsingle : ¬isHighSurrogate f → ¬isLowSurrogate f →
          f.toNat.isValidChar := by
        intro hh hl
        simp only [isHighSurrogate, isLowSurrogate, Bool.and_eq_true, decide_eq_true_eq,
          UInt16.le_iff_toNat_le, UInt16.reduceToNat] at hh hl
        unfold Nat.isValidChar
        omega
      cases r with
      | nil =>
        simp only [decodeUtf16]
        split_ifs with hh hl
        · exact .inl (by decide)
        · exact .inl (by decide)
        · exact hsingle hh hl
      | cons snd r =>
        simp only [decodeUtf16]
        split_ifs with hh hl hl
        · simp only [isHighSurrogate, isLowSurrogate, Bool.and_eq_true, decide_eq_true_eq,
            UInt16.le_iff_toNat_le, UInt16.reduceToNat] at hh hl
          unfold Nat.isValidChar
          simp only [Option.getD_some]
          omega
        · exact .inl (by decide)
        · exact .inl (by decide)
        · exact hsingle hh hl
  rw [Char.ofNat, dif_pos hv]
  rfl

theorem wideToUtf8_eq {units : List UInt16} (h : terminator ∉ units) :
    wideToUtf8 units = utf8 (textOf units) := by
  have ha : units.takeWhile (· ≠ 0) = units := by
    rw [takeWhile_eq_self_iff]
    intro u hu
    have hn : u ≠ 0 := by
      rintro rfl
      exact h hu
    simpa using hn
  have ht : ∀ (ss : ℕ) (units : List UInt16), transcode decodeUtf16 utf8BytesFor ss units =
      utf8 (transcode decodeUtf16 (fun n => [Char.ofNat n]) ss units) := by
    intro ss
    induction ss with
    | zero => exact fun _ => rfl
    | succ ss ih =>
      intro units
      rw [transcode, transcode, apply_ite utf8, utf8_append, ih]
      congr 2
      rw [utf8, flatMap_singleton, ← utf8BytesFor_toNat, decodeUtf16_valid]
  simp only [wideToUtf8, ha]
  exact ht units.length units

theorem mem_utf8EncodeChar {a c : Char} (ha : a.toNat < 0x80) :
    UInt8.ofNat a.toNat ∈ String.utf8EncodeChar c ↔ c = a := by
  rw [← utf8BytesFor_toNat]
  have hn : ∀ k, 0x80 ≤ k → k < 0x100 → UInt8.ofNat a.toNat ≠ .ofNat k := by
    intro k hk hl heq
    have hv := congrArg UInt8.toNat heq
    rw [toNat_ofNat8 (by omega), toNat_ofNat8 hl] at hv
    omega
  have hc := toNat_scalar c
  constructor
  · unfold utf8BytesFor
    split_ifs with h1 h2 h3
    · intro hm
      have hv := congrArg UInt8.toNat (mem_singleton.1 hm)
      rw [toNat_ofNat8 (by omega), toNat_ofNat8 (by omega)] at hv
      exact Char.toNat_inj.1 hv.symm
    · simp only [mem_cons, not_mem_nil, or_false]
      rintro (h | h)
      all_goals exact absurd h (hn _ (by omega) (by omega))
    · simp only [mem_cons, not_mem_nil, or_false]
      rintro (h | h | h)
      all_goals exact absurd h (hn _ (by omega) (by omega))
    · simp only [mem_cons, not_mem_nil, or_false]
      rintro (h | h | h | h)
      all_goals exact absurd h (hn _ (by omega) (by omega))
  · rintro rfl
    rw [utf8BytesFor, if_pos ha]
    exact mem_cons_self

theorem utf8_eq_nil {s : List Char} : utf8 s = [] ↔ s = [] := by
  cases s with
  | nil => simp [utf8]
  | cons c s => simp [utf8, String.utf8EncodeChar_ne_nil]

theorem head?_utf8 {a : Char} (ha : a.toNat < 0x80) (s : List Char) :
    (utf8 s).head? = some (.ofNat a.toNat) ↔ s.head? = some a := by
  cases s with
  | nil => simp [utf8]
  | cons c s =>
    rw [utf8, flatMap_cons, head?_append_of_ne_nil _ String.utf8EncodeChar_ne_nil, head?_cons,
      Option.some_inj]
    constructor
    · exact fun h => (mem_utf8EncodeChar ha).1 (mem_of_mem_head? h)
    · rintro rfl
      rw [← utf8BytesFor_toNat, utf8BytesFor, if_pos ha, head?_cons]

theorem getLast?_utf8 {a : Char} (ha : a.toNat < 0x80) (s : List Char) :
    (utf8 s).getLast? = some (.ofNat a.toNat) ↔ s.getLast? = some a := by
  induction s using List.reverseRecOn with
  | nil => simp [utf8]
  | append_singleton s c _ =>
    have ho : utf8 [c] = String.utf8EncodeChar c := by rw [utf8, flatMap_singleton]
    rw [utf8_append, ho, getLast?_append_of_ne_nil _ String.utf8EncodeChar_ne_nil,
      getLast?_concat, Option.some_inj]
    constructor
    · exact fun h => (mem_utf8EncodeChar ha).1 (mem_of_getLast? h)
    · rintro rfl
      rw [← utf8BytesFor_toNat, utf8BytesFor, if_pos ha, getLast?_singleton]

theorem combine_utf8 (d f : List Char) :
    combine 0x5C 0x2F (utf8 d) (utf8 f) = utf8 (combine '\\' '/' d f) := by
  have ha : IsSeparator 0x5C 0x2F (utf8 d).getLast? ↔ IsSeparator '\\' '/' d.getLast? :=
    or_congr (getLast?_utf8 (a := '\\') (by decide) d) (getLast?_utf8 (a := '/') (by decide) d)
  have he : IsSeparator 0x5C 0x2F (utf8 f).head? ↔ IsSeparator '\\' '/' f.head? :=
    or_congr (head?_utf8 (a := '\\') (by decide) f) (head?_utf8 (a := '/') (by decide) f)
  have ht : IsSeparator '\\' '/' f.head? → (utf8 f).tail = utf8 f.tail := by
    cases f with
    | nil => simp [utf8]
    | cons c f =>
      rintro (h | h)
      all_goals
        obtain rfl := Option.some.inj h
        rfl
  have hc : ∀ s, 0x5C :: utf8 s = utf8 ('\\' :: s) := fun s => rfl
  unfold combine
  simp only [ha, he, utf8_eq_nil]
  by_cases hd : d = []
  · simp [hd, utf8]
  · by_cases hl : IsSeparator '\\' '/' d.getLast?
    · by_cases hh : IsSeparator '\\' '/' f.head?
      · simp [hd, hl, hh, utf8_eq_nil, utf8_append, ht hh]
      · simp [hd, hl, hh, utf8_append]
    · by_cases hh : IsSeparator '\\' '/' f.head?
      · simp [hd, hl, hh, utf8_append, ht hh, hc]
      · simp [hd, hl, hh, utf8_append, hc]

/-! ### The buffer -/

variable {writable : ℕ → Bool} {dest : ℕ} {dir file : GuestPointer UInt16} {s t : List UInt16}

/-- The buffer is large enough and `dest` gets the whole combination. -/
def Combined.Sound (dir file : GuestPointer UInt16) : Combined → Prop
  | .null => True
  | .overflow _ => False
  | .dest written result =>
    written.length ≤ sizeofBuf ∧ ∃ s t, copied dir = some s ∧ copied file = some t ∧
      result = utf16 (combine '\\' '/' (textOf s) (textOf t)) ++ [terminator]

/-- The strings that are put together: what was copied is short enough in UTF-8, too. -/
structure Combines (dir file : GuestPointer UInt16) (s t : List UInt16) : Prop where
  dir : copied dir = some s
  file : copied file = some t
  shortDir : (wideToUtf8 s).length < kMaxShlwapiStringUnits
  shortFile : (wideToUtf8 t).length < kMaxShlwapiStringUnits

theorem terminator_notMem_of_copied {p : GuestPointer UInt16} (h : copied p = some s) :
    terminator ∉ s := by
  unfold copied at h
  split_ifs at h
  · cases h
    exact not_mem_nil
  · exact (copyGuestString_eq_some.1 h).2.1

theorem copied_cStr (us : List UInt16) : copied (cStr (wideToUtf8 us)) =
    if (wideToUtf8 us).length < kMaxShlwapiStringUnits then some (wideToUtf8 us)
    else none := by
  have hh : (cStr (wideToUtf8 us)).Holds (wideToUtf8 us ++ terminator :: []) :=
    ⟨⟨by simp [cStr], by simp [cStr, GuestUnit.width]⟩, prefix_rfl⟩
  rw [copied, if_neg (by simp [cStr]), copyGuestString_holds hh (zero_notMem_wideToUtf8 us)]

theorem pathCombineA_cStr (s t : List UInt16) :
    pathCombineA (cStr (wideToUtf8 s)) (cStr (wideToUtf8 t)) =
      if (wideToUtf8 s).length < kMaxShlwapiStringUnits ∧
        (wideToUtf8 t).length < kMaxShlwapiStringUnits then
        some (combine 0x5C 0x2F (wideToUtf8 s) (wideToUtf8 t) ++ [terminator])
      else none := by
  rw [pathCombineA, copied_cStr, copied_cStr]
  by_cases hs : (wideToUtf8 s).length < kMaxShlwapiStringUnits
  · by_cases ht : (wideToUtf8 t).length < kMaxShlwapiStringUnits
    · simp [hs, ht]
    · simp [hs, ht]
  · simp [hs]

theorem pathCombineW_eq (hd : dest ≠ 0) (hc : Combines dir file s t) :
    pathCombineW writable dest dir file =
      let written := combine 0x5C 0x2F (wideToUtf8 s) (wideToUtf8 t) ++ [terminator]
      let u16 := utf16 (combine '\\' '/' (textOf s) (textOf t)) ++ [terminator]
      if sizeofBuf < written.length then .overflow written
      else if writable u16.length then .dest written u16 else .null := by
  have hs := terminator_notMem_of_copied hc.dir
  have ht := terminator_notMem_of_copied hc.file
  -- no byte of the combination ends it early
  have hz : terminator ∉ combine 0x5C 0x2F (wideToUtf8 s) (wideToUtf8 t) := by
    have hs0 := zero_notMem_wideToUtf8 s
    have ht0 : ∀ n, (0 : UInt8) ∉ (wideToUtf8 t).drop n :=
      fun n hm => zero_notMem_wideToUtf8 t (mem_of_mem_drop hm)
    unfold combine
    refine fun hm => (mem_append.1 hm).elim ?_ (ht0 _)
    split_ifs
    · exact not_mem_nil
    · exact hs0
    · exact fun hm => (mem_append.1 hm).elim hs0 (by decide)
  rw [pathCombineW, if_neg hd, hc.dir, hc.file]
  simp only [pathCombineA_cStr, hc.shortDir, hc.shortFile, and_self, if_true]
  rw [takeWhile_eq_of_terminated hz, ← utf8ToWide_encoded, ← combine_utf8, ← wideToUtf8_eq hs,
    ← wideToUtf8_eq ht]

/-- **`tl_PathCombineW` is right exactly where what it puts together has less than 4096 bytes
in UTF-8.** -/
theorem pathCombineW_sound_iff (writable : ℕ → Bool) (dest : ℕ) (dir file : GuestPointer UInt16) :
    (pathCombineW writable dest dir file).Sound dir file ↔ dest = 0 ∨ ∀ s t, Combines dir file s t →
        combinedLength 0x5C 0x2F (wideToUtf8 s) (wideToUtf8 t) < sizeofBuf := by
  by_cases hd : dest = 0
  · simp [pathCombineW, hd, Combined.Sound]
  by_cases he : ∃ s t, Combines dir file s t
  · obtain ⟨s, t, hc⟩ := he
    have hl : (combine 0x5C 0x2F (wideToUtf8 s) (wideToUtf8 t) ++ [terminator]).length =
        combinedLength 0x5C 0x2F (wideToUtf8 s) (wideToUtf8 t) + 1 := by
      rw [length_append, length_combine, length_singleton]
    rw [pathCombineW_eq hd hc]
    dsimp only
    rw [hl]
    constructor
    · intro ho
      refine .inr fun s' t' hc' => ?_
      obtain rfl := Option.some.inj (hc.dir.symm.trans hc'.dir)
      obtain rfl := Option.some.inj (hc.file.symm.trans hc'.file)
      by_contra hg
      rwa [if_pos (by omega)] at ho
    · intro h
      have hlt := h.resolve_left hd s t hc
      rw [if_neg (by omega)]
      split_ifs
      · exact ⟨by omega, s, t, hc.dir, hc.file, rfl⟩
      · trivial
  · have hn : pathCombineW writable dest dir file = .null := by
      unfold pathCombineW
      rw [if_neg hd]
      split
      · next s t hs ht => rw [pathCombineA_cStr, if_neg fun h => he ⟨s, t, hs, ht, h.1, h.2⟩]
      · rfl
    rw [hn]
    exact ⟨fun _ => .inr fun s t hc => absurd ⟨s, t, hc⟩ he, fun _ => trivial⟩

def longText : List Char := replicate 3000 'a'

/-- The text at address 2. -/
def longName : GuestPointer UInt16 := ⟨2, utf16 longText ++ [terminator]⟩

theorem longName_combines : Combines longName longName (utf16 longText) (utf16 longText) ∧
    (wideToUtf8 (utf16 longText)).length = 3000 := by
  have hh : ∀ c ∈ longText, c.toNat ≠ 0 := by
    intro c hc
    rw [eq_of_mem_replicate hc]
    decide
  have hl : (wideToUtf8 (utf16 longText)).length = 3000 := by
    rw [wideToUtf8_encoded hh, utf8, longText, length_flatMap, map_replicate]
    decide +kernel
  have hlen16 : (utf16 longText).length < kMaxShlwapiStringUnits := by
    rw [utf16, longText, length_flatMap, map_replicate]
    decide +kernel
  have hcopied : copied longName = some (utf16 longText) := by
    rw [copied, if_neg (show longName.address ≠ 0 from two_ne_zero), copyGuestString_eq_some]
    exact ⟨⟨two_ne_zero, rfl⟩, zero_notMem_utf16 hh, hlen16, prefix_rfl⟩
  exact ⟨⟨hcopied, hcopied, by rw [hl]; decide, by rw [hl]; decide⟩, hl⟩

/-- **Two strings of 3000 units do not fit the buffer.** -/
theorem not_pathCombineW_sound :
    ¬∀ (writable : ℕ → Bool) (dest : ℕ) (dir file : GuestPointer UInt16),
      (pathCombineW writable dest dir file).Sound dir file := by
  intro h
  obtain ⟨hc, hl⟩ := longName_combines
  have hs := h (fun _ => true) 1 longName longName
  rw [pathCombineW_eq one_ne_zero hc] at hs
  dsimp only at hs
  rw [if_pos] at hs
  · exact hs
  · rw [length_append, length_combine, combinedLength, hl]
    split_ifs
    all_goals decide

end TradutorLinux.Shlwapi
