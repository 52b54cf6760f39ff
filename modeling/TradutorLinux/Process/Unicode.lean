import Mathlib.Data.List.TakeWhile
import TradutorLinux.Util.Bytes

/-!
# UTF-8 and UTF-16

The runtime keeps its strings in UTF-8 and gives them to the guest in UTF-16.  Both
readers take one code point at a time and put a question mark for what is none, so
text comes through a change of encoding and back as it was.

Masks and shifts of the source are written as remainders, quotients and sums.

## Main definitions

* `decodeUtf8`, `decodeUtf16` — the next code point, and how many units it takes.
* `utf8BytesFor`, `utf16UnitsFor` — the units of a code point.
* `utf8ToWide`, `wideToUtf8` — whole strings.
* `IsUtf8` — the bytes are those of some characters.
* `EndsWhole`, `Resynchronises`

## Main results

* `utf8ToWide_encoded`, `wideToUtf8_encoded` — **the readers on encoded characters.**
* `zero_notMem_wideToUtf8`, `resynchronises_iff`
-/

namespace TradutorLinux.Process

open List Option

/-! ### Reading one code point -/

/-- How many bytes begin with `lead`, and the bits it holds itself. -/
def leadOf (lead : UInt8) : Option (ℕ × ℕ) :=
  if lead.toNat / 0x20 = 0x06 then some (2, lead.toNat % 0x20)
  else if lead.toNat / 0x10 = 0x0E then some (3, lead.toNat % 0x10)
  else if lead.toNat / 0x08 = 0x1E then some (4, lead.toNat % 0x08)
  else none

/-- The bits of the continuation bytes, behind those of `value`. -/
def continued (value : ℕ) : ByteString → Option ℕ
  | [] => some value
  | b :: rest =>
    if b.toNat / 0x40 = 2 then continued (value * 0x40 + b.toNat % 0x40) rest else none

/-- Fewer bytes would have done. -/
def overlong (needed value : ℕ) : Bool :=
  (needed == 2 && decide (value < 0x80)) || (needed == 3 && decide (value < 0x800)) ||
    (needed == 4 && decide (value < 0x10000))

/-- `decode_utf8` at the beginning of the bytes; nothing stands for `kInvalidCodepoint`. -/
def decodeUtf8 : ByteString → Option ℕ × ℕ
  | [] => (none, 0)
  | lead :: rest =>
    if lead < 0x80 then (some lead.toNat, 1)
    else match leadOf lead with
      | none => (none, 1)
      | some (needed, value) =>
        if rest.length + 1 < needed then (none, rest.length + 1)
        else match continued value (rest.take (needed - 1)) with
          | none => (none, 1)
          | some value =>
            if overlong needed value || decide (value > 0x10FFFF) ||
                (decide (0xD800 ≤ value) && decide (value ≤ 0xDFFF)) then (none, needed)
            else (some value, needed)

/-- `utf8_bytes_for`. -/
def utf8BytesFor (codepoint : ℕ) : ByteString :=
  if codepoint < 0x80 then [.ofNat codepoint]
  else if codepoint < 0x800 then
    [.ofNat (0xC0 + codepoint / 0x40), .ofNat (0x80 + codepoint % 0x40)]
  else if codepoint < 0x10000 then
    [.ofNat (0xE0 + codepoint / 0x1000), .ofNat (0x80 + codepoint / 0x40 % 0x40),
      .ofNat (0x80 + codepoint % 0x40)]
  else
    [.ofNat (0xF0 + codepoint / 0x40000), .ofNat (0x80 + codepoint / 0x1000 % 0x40),
      .ofNat (0x80 + codepoint / 0x40 % 0x40), .ofNat (0x80 + codepoint % 0x40)]

/-- The first of two units. -/
def isHighSurrogate (u : UInt16) : Bool := decide (0xD800 ≤ u) && decide (u ≤ 0xDBFF)

/-- The second of two units. -/
def isLowSurrogate (u : UInt16) : Bool := decide (0xDC00 ≤ u) && decide (u ≤ 0xDFFF)

/-- `decode_utf16` at the beginning of the units. -/
def decodeUtf16 : List UInt16 → Option ℕ × ℕ
  | [] => (none, 0)
  | first :: rest =>
    if isHighSurrogate first then
      match rest with
      | [] => (none, 1)
      | second :: _ =>
        if isLowSurrogate second then
          (some ((first.toNat - 0xD800) * 0x400 + (second.toNat - 0xDC00) + 0x10000), 2)
        else (none, 1)
    else if isLowSurrogate first then (none, 1)
    else (some first.toNat, 1)

/-- `utf16_units_for`. -/
def utf16UnitsFor (codepoint : ℕ) : List UInt16 :=
  if codepoint < 0x10000 then [.ofNat codepoint]
  else
    [.ofNat (0xD800 + (codepoint - 0x10000) / 0x400),
      .ofNat (0xDC00 + (codepoint - 0x10000) % 0x400)]

/-! ### Whole strings -/

/-- Decode to the end, with a question mark for what is no code point.  Every step takes a unit
at least, so that there need not be more of them than units. -/
def transcode {α β : Type} (decode : List α → Option ℕ × ℕ) (encode : ℕ → List β) :
    ℕ → List α → List β
  | 0, _ => []
  | steps + 1, units =>
    if units.isEmpty then []
    else
      encode ((decode units).1.getD 0x3F) ++
        transcode decode encode steps (units.drop (decode units).2)

/-- `utf8_to_wide`. -/
def utf8ToWide (bytes : ByteString) : List UInt16 :=
  transcode decodeUtf8 utf16UnitsFor bytes.length bytes

/-- `wide_to_utf8`, which ends at a zero. -/
def wideToUtf8 (units : List UInt16) : ByteString :=
  let front := units.takeWhile (· ≠ 0)
  transcode decodeUtf16 utf8BytesFor front.length front

def utf8 (chars : List Char) : ByteString := chars.flatMap String.utf8EncodeChar

def utf16 (chars : List Char) : List UInt16 := chars.flatMap fun c => utf16UnitsFor c.toNat

/-- The bytes are text. -/
def IsUtf8 (bytes : ByteString) : Prop := ∃ chars, bytes = utf8 chars

/-! ### Code points -/

section Codepoints

variable {n : ℕ} {c : Char}

theorem toNat_scalar (c : Char) :
    c.toNat < 0xD800 ∨ (0xDFFF < c.toNat ∧ c.toNat < 0x110000) := c.valid

theorem utf8BytesFor_toNat (c : Char) : utf8BytesFor c.toNat = String.utf8EncodeChar c := by
  have hc := toNat_scalar c
  have hv : c.val.toNat = c.toNat := rfl
  unfold utf8BytesFor String.utf8EncodeChar
  simp only [hv]
  by_cases h1 : c.toNat < 0x80
  · rw [if_pos h1, if_pos (show c.toNat ≤ 0x7F by omega)]
  rw [if_neg h1, if_neg (show ¬ c.toNat ≤ 0x7F by omega)]
  by_cases h2 : c.toNat < 0x800
  · rw [if_pos h2, if_pos (show c.toNat ≤ 0x7FF by omega),
      show c.toNat / 64 % 32 = c.toNat / 64 by omega, add_comm 0xC0, add_comm 0x80]
  rw [if_neg h2, if_neg (show ¬ c.toNat ≤ 0x7FF by omega)]
  by_cases h3 : c.toNat < 0x10000
  · rw [if_pos h3, if_pos (show c.toNat ≤ 0xFFFF by omega),
      show c.toNat / 4096 % 16 = c.toNat / 4096 by omega, add_comm 0xE0, add_comm 0x80,
      add_comm 0x80]
  · rw [if_neg h3, if_neg (show ¬ c.toNat ≤ 0xFFFF by omega),
      show c.toNat / 262144 % 8 = c.toNat / 262144 by omega, add_comm 0xF0,
      add_comm 0x80, add_comm 0x80, add_comm 0x80]

theorem toNat_ofNat8 (h : n < 0x100) : (UInt8.ofNat n).toNat = n := by
  rw [UInt8.toNat_ofNat', Nat.mod_eq_of_lt (by omega)]

theorem toNat_ofNat16 (h : n < 0x10000) : (UInt16.ofNat n).toNat = n := by
  rw [UInt16.toNat_ofNat', Nat.mod_eq_of_lt (by omega)]

theorem continued_cons {v : ℕ} {rest : ByteString} (h : n < 0x40) :
    continued v (.ofNat (0x80 + n) :: rest) = continued (v * 0x40 + n) rest := by
  rw [continued, toNat_ofNat8 (by omega), if_pos (by omega), show (0x80 + n) % 0x40 = n by omega]

theorem decodeUtf8_lead {l : UInt8} {tail r : ByteString} {needed : ℕ} (v : ℕ)
    (hl : 0x80 ≤ l.toNat) (ho : leadOf l = some (needed, v))
    (he : tail.length + 1 = needed) (hc : continued v tail = some n)
    (hs : overlong needed n = false) (hsc : n < 0xD800 ∨ 0xDFFF < n)
    (ha : n ≤ 0x10FFFF) : decodeUtf8 (l :: tail ++ r) = (some n, needed) := by
  have hm : ¬ l < 0x80 := by exact not_lt.2 hl
  have hu : (decide (0xD800 ≤ n) && decide (n ≤ 0xDFFF)) = false := by
    rw [Bool.and_eq_false_iff, decide_eq_false_iff_not, decide_eq_false_iff_not]
    omega
  have ht : (tail ++ r).take (needed - 1) = tail := by rw [← he, Nat.add_sub_cancel, take_left]
  have hi : ¬ (tail ++ r).length + 1 < needed := by
    rw [length_append]
    omega
  simp only [cons_append, decodeUtf8, if_neg hm, ho, if_neg hi, ht, hc,
    hs, hu, not_lt.2 ha, decide_false, Bool.or_self,
    Bool.false_eq_true, if_false]

/-- A code point of text is read back. -/
theorem decodeUtf8_utf8BytesFor (h : n < 0xD800 ∨ (0xDFFF < n ∧ n < 0x110000)) (rest : ByteString) :
    decodeUtf8 (utf8BytesFor n ++ rest) = (some n, (utf8BytesFor n).length) := by
  have hs : n < 0xD800 ∨ 0xDFFF < n := by omega
  unfold utf8BytesFor
  by_cases h1 : n < 0x80
  · have hl : UInt8.ofNat n < 0x80 := by
      rw [UInt8.lt_iff_toNat_lt, toNat_ofNat8 (by omega)]
      exact h1
    rw [if_pos h1, singleton_append, decodeUtf8, if_pos hl, toNat_ofNat8 (by omega)]
    rfl
  rw [if_neg h1]
  by_cases h2 : n < 0x800
  · rw [if_pos h2]
    refine decodeUtf8_lead (n / 0x40) ?_ ?_ rfl ?_ ?_ hs (by omega)
    · rw [toNat_ofNat8 (by omega)]
      omega
    · rw [leadOf, toNat_ofNat8 (by omega), if_pos (by omega),
        show (0xC0 + n / 0x40) % 0x20 = n / 0x40 by omega]
      rfl
    · rw [continued_cons (by omega), continued]
      congr 1
      omega
    · simp [overlong, h1]
  rw [if_neg h2]
  by_cases h3 : n < 0x10000
  · rw [if_pos h3]
    refine decodeUtf8_lead (n / 0x1000) ?_ ?_ rfl ?_ ?_ hs (by omega)
    · rw [toNat_ofNat8 (by omega)]
      omega
    · rw [leadOf, toNat_ofNat8 (by omega), if_neg (by omega), if_pos (by omega),
        show (0xE0 + n / 0x1000) % 0x10 = n / 0x1000 by omega]
      rfl
    · rw [continued_cons (by omega), continued_cons (by omega), continued]
      congr 1
      omega
    · simp [overlong, h2]
  · rw [if_neg h3]
    refine decodeUtf8_lead (n / 0x40000) ?_ ?_ rfl ?_ ?_ hs (by omega)
    · rw [toNat_ofNat8 (by omega)]
      omega
    · rw [leadOf, toNat_ofNat8 (by omega), if_neg (by omega), if_neg (by omega),
        if_pos (by omega), show (0xF0 + n / 0x40000) % 0x08 = n / 0x40000 by omega]
      rfl
    · rw [continued_cons (by omega), continued_cons (by omega), continued_cons (by omega),
        continued]
      congr 1
      omega
    · simp [overlong, h3]

theorem isHighSurrogate_ofNat (h : n < 0x10000) :
    isHighSurrogate (.ofNat n) = (decide (0xD800 ≤ n) && decide (n ≤ 0xDBFF)) := by
  simp only [isHighSurrogate, UInt16.le_iff_toNat_le, toNat_ofNat16 h]
  rfl

theorem isLowSurrogate_ofNat (h : n < 0x10000) :
    isLowSurrogate (.ofNat n) = (decide (0xDC00 ≤ n) && decide (n ≤ 0xDFFF)) := by
  simp only [isLowSurrogate, UInt16.le_iff_toNat_le, toNat_ofNat16 h]
  rfl

theorem decodeUtf16_utf16UnitsFor (h : n < 0xD800 ∨ (0xDFFF < n ∧ n < 0x110000)) (r : List UInt16) :
    decodeUtf16 (utf16UnitsFor n ++ r) = (some n, (utf16UnitsFor n).length) := by
  unfold utf16UnitsFor
  by_cases h1 : n < 0x10000
  · have hh : isHighSurrogate (.ofNat n) = false := by
      rw [isHighSurrogate_ofNat h1, Bool.and_eq_false_iff, decide_eq_false_iff_not,
        decide_eq_false_iff_not]
      omega
    have hl : isLowSurrogate (.ofNat n) = false := by
      rw [isLowSurrogate_ofNat h1, Bool.and_eq_false_iff, decide_eq_false_iff_not,
        decide_eq_false_iff_not]
      omega
    simp [if_pos h1, decodeUtf16, hh, hl, Bool.false_eq_true, toNat_ofNat16 h1]
  · have hh : isHighSurrogate (.ofNat (0xD800 + (n - 0x10000) / 0x400)) := by
      rw [isHighSurrogate_ofNat (by omega), Bool.and_eq_true, decide_eq_true_iff,
        decide_eq_true_iff]
      omega
    have hl : isLowSurrogate (.ofNat (0xDC00 + (n - 0x10000) % 0x400)) := by
      rw [isLowSurrogate_ofNat (by omega), Bool.and_eq_true, decide_eq_true_iff, decide_eq_true_iff]
      omega
    simp only [if_neg h1, cons_append, nil_append, decodeUtf16, hh, hl, if_true,
      length_cons, length_nil, Prod.mk.injEq, some.injEq, and_true]
    rw [toNat_ofNat16 (by omega), toNat_ofNat16 (by omega)]
    omega

theorem zero_notMem_utf8BytesFor (hz : n ≠ 0) (hm : n < 0x110000) :
    (0 : UInt8) ∉ utf8BytesFor n := by
  have hn : ∀ k, k ≠ 0 → k < 0x100 → (0 : UInt8) ≠ .ofNat k := by
    intro k hk hl heq
    have hv := congrArg UInt8.toNat heq
    rw [toNat_ofNat8 hl] at hv
    exact hk hv.symm
  unfold utf8BytesFor
  split
  · simpa using hn n hz (by omega)
  split
  · simp only [mem_cons, not_mem_nil, or_false, not_or]
    exact ⟨hn _ (by omega) (by omega), hn _ (by omega) (by omega)⟩
  split
  · simp only [mem_cons, not_mem_nil, or_false, not_or]
    exact ⟨hn _ (by omega) (by omega), hn _ (by omega) (by omega), hn _ (by omega) (by omega)⟩
  · simp only [mem_cons, not_mem_nil, or_false, not_or]
    exact ⟨hn _ (by omega) (by omega), hn _ (by omega) (by omega), hn _ (by omega) (by omega),
      hn _ (by omega) (by omega)⟩

theorem zero_notMem_utf16UnitsFor (hz : n ≠ 0) (hm : n < 0x110000) :
    (0 : UInt16) ∉ utf16UnitsFor n := by
  have hn : ∀ k, k ≠ 0 → k < 0x10000 → (0 : UInt16) ≠ .ofNat k := by
    intro k hk hl heq
    have hv := congrArg UInt16.toNat heq
    rw [toNat_ofNat16 hl] at hv
    exact hk hv.symm
  unfold utf16UnitsFor
  split
  · next h => simpa using hn n hz h
  · simp only [mem_cons, not_mem_nil, or_false, not_or]
    exact ⟨hn _ (by omega) (by omega), hn _ (by omega) (by omega)⟩

theorem decodeUtf16_ne_zero {us : List UInt16} (hu : (0 : UInt16) ∉ us) :
    (decodeUtf16 us).1.getD 0x3F ≠ 0 ∧ (decodeUtf16 us).1.getD 0x3F < 0x110000 := by
  cases us with
  | nil => exact ⟨by decide, by decide⟩
  | cons f r =>
    have hf : f.toNat ≠ 0 := by
      intro heq
      exact hu (by rw [show f = 0 from UInt16.toNat_inj.1 heq]; exact mem_cons_self)
    have ht := f.toNat_lt
    cases r with
    | nil =>
      simp only [decodeUtf16]
      split_ifs
      · exact ⟨by decide, by decide⟩
      · exact ⟨by decide, by decide⟩
      · simp only [getD_some]
        omega
    | cons snd r =>
      simp only [decodeUtf16]
      split_ifs with hh hl
      · simp only [isHighSurrogate, isLowSurrogate, Bool.and_eq_true, decide_eq_true_eq,
          UInt16.le_iff_toNat_le] at hh hl
        have hh' : f.toNat ≤ 0xDBFF := hh.2
        have hl' : snd.toNat ≤ 0xDFFF := hl.2
        simp only [getD_some]
        omega
      · exact ⟨by decide, by decide⟩
      · exact ⟨by decide, by decide⟩
      · simp only [getD_some]
        omega

end Codepoints

/-! ### Text -/

section Text

variable {α β : Type} {decode : List α → Option ℕ × ℕ} {encode : ℕ → List β}
  {chars ch cs : List Char}

/-- A reader that finds every character finds all of them. -/
theorem transcode_encoded {us : Char → List α} (hu : ∀ c, us c ≠ [])
    (hd : ∀ c r, decode (us c ++ r) = (some c.toNat, (us c).length)) :
    ∀ (cs : List Char) (ss : ℕ), cs.length ≤ ss →
      transcode decode encode ss (cs.flatMap us) = cs.flatMap fun c => encode c.toNat
  | [], 0, _ => rfl
  | [], _ + 1, _ => rfl
  | c :: cs, 0, h => absurd h (Nat.not_succ_le_zero _)
  | c :: cs, ss + 1, h => by
    have hn : (us c ++ cs.flatMap us).isEmpty = false := by simp [hu c]
    rw [flatMap_cons, transcode, if_neg (by rw [hn]; exact Bool.false_ne_true), hd,
      getD_some, drop_left, flatMap_cons,
      transcode_encoded hu hd cs ss (Nat.le_of_succ_le_succ h)]

theorem length_le_flatMap {us : Char → List α} (hu : ∀ c, us c ≠ [])
    (cs : List Char) : cs.length ≤ (cs.flatMap us).length := by
  induction cs with
  | nil => exact le_refl 0
  | cons c cs ih =>
    have hp := length_pos_of_ne_nil (hu c)
    rw [flatMap_cons, length_append, length_cons]
    omega

theorem utf16UnitsFor_ne_nil (n : ℕ) : utf16UnitsFor n ≠ [] := by
  unfold utf16UnitsFor
  split <;> exact cons_ne_nil _ _

/-- **Text in UTF-8 comes out in UTF-16.** -/
theorem utf8ToWide_encoded (chars : List Char) : utf8ToWide (utf8 chars) = utf16 chars :=
  transcode_encoded (fun _ => String.utf8EncodeChar_ne_nil) (fun c r => by
      rw [← utf8BytesFor_toNat]
      exact decodeUtf8_utf8BytesFor (toNat_scalar c) r)
    chars _ (length_le_flatMap (fun _ => String.utf8EncodeChar_ne_nil) chars)

theorem zero_notMem_utf16 (hh : ∀ c ∈ chars, c.toNat ≠ 0) : (0 : UInt16) ∉ utf16 chars := by
  intro hm
  obtain ⟨c, hc, hm⟩ := mem_flatMap.1 hm
  have ha := toNat_scalar c
  exact zero_notMem_utf16UnitsFor (hh c hc) (by omega) hm

/-- **Text in UTF-16 comes out in UTF-8**, when no character ends it. -/
theorem wideToUtf8_encoded (hc : ∀ c ∈ chars, c.toNat ≠ 0) :
    wideToUtf8 (utf16 chars) = utf8 chars := by
  have hf : (utf16 chars).takeWhile (· ≠ 0) = utf16 chars := by
    rw [takeWhile_eq_self_iff]
    intro u hu
    have hn : u ≠ 0 := fun heq => zero_notMem_utf16 hc (heq ▸ hu)
    simpa using hn
  have ho : transcode decodeUtf16 utf8BytesFor (utf16 chars).length (utf16 chars) =
      chars.flatMap fun c => utf8BytesFor c.toNat := transcode_encoded
    (fun c : Char => utf16UnitsFor_ne_nil c.toNat)
    (fun c r => decodeUtf16_utf16UnitsFor (toNat_scalar c) r) chars (utf16 chars).length
    (length_le_flatMap (fun c => utf16UnitsFor_ne_nil c.toNat) chars)
  simp only [wideToUtf8, hf]
  refine ho.trans ?_
  simp only [utf8BytesFor_toNat, utf8]

theorem zero_notMem_transcode {units : List UInt16} (hu : (0 : UInt16) ∉ units) (ss : ℕ) :
    (0 : UInt8) ∉ transcode decodeUtf16 utf8BytesFor ss units := by
  induction ss generalizing units with
  | zero => exact not_mem_nil
  | succ ss ih =>
    rw [transcode]
    split
    · exact not_mem_nil
    · have hc := decodeUtf16_ne_zero hu
      rw [mem_append, not_or]
      exact ⟨zero_notMem_utf8BytesFor hc.1 hc.2, ih fun hm => hu (mem_of_mem_drop hm)⟩

/-- **No terminator comes out of `wide_to_utf8`.** -/
theorem zero_notMem_wideToUtf8 (units : List UInt16) : (0 : UInt8) ∉ wideToUtf8 units := by
  refine zero_notMem_transcode (fun hm => ?_) _
  have hn := mem_takeWhile_imp hm
  simp at hn

theorem utf8_append (f back : List Char) : utf8 (f ++ back) = utf8 f ++ utf8 back := flatMap_append

theorem utf16_append (f back : List Char) : utf16 (f ++ back) = utf16 f ++ utf16 back :=
  flatMap_append

theorem encoded_comes_back (hc : ∀ c ∈ chars, c.toNat ≠ 0) :
    wideToUtf8 (utf8ToWide (utf8 chars)) = utf8 chars ∧
      utf8ToWide (wideToUtf8 (utf16 chars)) = utf16 chars := by
  rw [utf8ToWide_encoded, wideToUtf8_encoded hc, utf8ToWide_encoded]
  exact ⟨rfl, rfl⟩

/-- **Text comes back from the other encoding.** -/
theorem text_comes_back (hc : ∀ c ∈ chars, c.toNat ≠ 0) :
    wideToUtf8 (utf8ToWide (utf8 chars)) = utf8 chars ∧
      utf8ToWide (wideToUtf8 (utf16 chars)) = utf16 chars :=
  encoded_comes_back hc

theorem text_comes_back_euro : wideToUtf8 (utf8ToWide (utf8 ['€'])) = utf8 ['€'] ∧
    utf8ToWide (wideToUtf8 (utf16 ['€'])) = utf16 ['€'] :=
  text_comes_back (by simp)

theorem toNat_ne_zero_of_mem (hz : (0 : UInt8) ∉ utf8 cs) : ∀ c ∈ cs, c.toNat ≠ 0 := by
  intro c hc hv
  refine hz (mem_flatMap.2 ⟨c, hc, ?_⟩)
  rw [← utf8BytesFor_toNat, hv]
  decide

end Text

/-! ### Malformed bytes -/

/-- No byte that begins three or four stands so late that the end cuts the sequence. -/
def EndsWhole (bytes : ByteString) : Prop :=
  ∀ lead rest needed value, lead :: rest <:+ bytes → leadOf lead = some (needed, value) →
    2 < needed → needed ≤ rest.length + 1

/-- The bytes before an ASCII character and those behind it are read apart. -/
def Resynchronises (x : ByteString) : Prop :=
  ∀ (c : UInt8) (y : ByteString), c < 0x80 →
    utf8ToWide (x ++ c :: y) = utf8ToWide x ++ c.toUInt16 :: utf8ToWide y

section Malformed

variable {b c : UInt8} {r s x y : ByteString} {n v : ℕ}

theorem leadOf_spec (h : leadOf b = some (n, v)) : b.toNat / 0x40 ≠ 2 ∧ ¬b < 0x80 ∧ 2 ≤ n := by
  rw [UInt8.lt_iff_toNat_lt]
  change _ ∧ ¬b.toNat < 0x80 ∧ _
  unfold leadOf at h
  split_ifs at h <;> (cases h; omega)

theorem continued_eq_none (hb : b ∈ s) (hc : b.toNat / 0x40 ≠ 2) : ∀ v, continued v s = none := by
  induction s with
  | nil => cases hb
  | cons a s ih =>
    intro v
    rw [continued]
    split
    · next ha => exact ih ((mem_cons.1 hb).resolve_left fun he => hc (he ▸ ha)) _
    · rfl

/-- A step takes a lead byte and continuation bytes behind it, whatever comes then, or it takes all
that the end has left of a sequence. -/
theorem decodeUtf8_cases (b : UInt8) (r : ByteString) :
    (∃ o k, k ≤ r.length ∧ (∀ s, decodeUtf8 (b :: (r ++ s)) = (o, k + 1)) ∧
      (∀ a ∈ r.take k, a.toNat / 0x40 = 2) ∧
      ∀ n v, leadOf b = some (n, v) → n ≤ r.length + 1) ∨
    ∃ n v, leadOf b = some (n, v) ∧ r.length + 1 < n ∧ decodeUtf8 (b :: r) = (none, r.length + 1) := by
  cases hl : leadOf b with
  | none =>
    refine .inl ⟨if b < 0x80 then some b.toNat else none, 0, Nat.zero_le _, fun s => ?_, by simp,
      by simp⟩
    rw [decodeUtf8, hl]
    split <;> rfl
  | some p =>
    obtain ⟨n, v⟩ := p
    obtain ⟨-, hb, h2⟩ := leadOf_spec hl
    rcases Nat.lt_or_ge (r.length + 1) n with hr | hr
    · exact .inr ⟨n, v, rfl, hr, by simp only [decodeUtf8, hb, hl, hr, if_true, if_false]⟩
    have hd : ∀ s, ¬(r ++ s).length + 1 < n := fun s => by rw [length_append]; omega
    have ht : ∀ s, (r ++ s).take (n - 1) = r.take (n - 1) :=
      fun s => take_append_of_le_length (by omega)
    have hn : ∀ n' v', some (n, v) = some (n', v') → n' ≤ r.length + 1 := by rintro _ _ ⟨⟩; exact hr
    cases hc : continued v (r.take (n - 1)) with
    | none =>
      exact .inl ⟨none, 0, Nat.zero_le _,
        fun s => by simp only [decodeUtf8, hb, hl, hd, ht, hc, if_false], by simp, hn⟩
    | some value =>
      refine .inl ⟨(decodeUtf8 (b :: (r ++ []))).1, n - 1, by omega, fun s => ?_, fun a ha => ?_, hn⟩
      · simp only [decodeUtf8, hb, hl, hd, ht, hc, if_false, Nat.sub_add_cancel (by omega : 1 ≤ n)]
        split <;> rfl
      · by_contra hne
        rw [continued_eq_none ha hne] at hc
        cases hc

/-- An ASCII character among the bytes that a lead byte asks for ends the sequence. -/
theorem decodeUtf8_broken (hl : leadOf b = some (n, v)) (hr : r.length + 1 < n)
    (hy : n ≤ (r ++ c :: y).length + 1) (hc : c < 0x80) :
    decodeUtf8 (b :: (r ++ c :: y)) = (none, 0 + 1) := by
  have hm : c ∈ (r ++ c :: y).take (n - 1) := by
    obtain ⟨m, hm⟩ : ∃ m, n - 1 = r.length + (m + 1) := ⟨n - 2 - r.length, by omega⟩
    rw [hm, take_length_add_append, take_succ_cons]
    exact mem_append_right _ mem_cons_self
  have hn := continued_eq_none hm (by have : c.toNat < 0x80 := hc; omega) v
  simp only [decodeUtf8, (leadOf_spec hl).2.1, hl, not_lt.2 hy, hn, if_false]

theorem transcode_eq (h : s.length ≤ n) : transcode decodeUtf8 utf16UnitsFor n s = utf8ToWide s := by
  have hs : ∀ m (s : ByteString), s.length ≤ m →
      transcode decodeUtf8 utf16UnitsFor (m + 1) s = transcode decodeUtf8 utf16UnitsFor m s := by
    intro m
    induction m with
    | zero =>
      intro s hm
      rw [length_eq_zero_iff.1 (Nat.le_zero.1 hm)]
      rfl
    | succ m ih =>
      rintro (_ | ⟨b, r⟩) hm
      · rfl
      · have hp : 0 < (decodeUtf8 (b :: r)).2 := by
          rcases decodeUtf8_cases b r with ⟨_, k, -, hd, -⟩ | ⟨_, _, -, -, hd⟩
          · rw [← append_nil r, hd]
            exact Nat.succ_pos k
          · rw [hd]
            exact Nat.succ_pos _
        rw [transcode, ih _ (by rw [length_drop]; omega)]
        rfl
  induction n, h using Nat.le_induction with
  | base => rfl
  | succ m hm ih => rw [hs m s hm, ih]

theorem utf8ToWide_of_decode {o : Option ℕ} {k : ℕ} (h : decodeUtf8 (b :: r) = (o, k + 1)) :
    utf8ToWide (b :: r) = utf16UnitsFor (o.getD 0x3F) ++ utf8ToWide (r.drop k) := by
  rw [utf8ToWide, length_cons, transcode, h, transcode_eq]
  · rfl
  · rw [drop_succ_cons, length_drop]
    omega

theorem utf8ToWide_ne_nil (h : s ≠ []) : utf8ToWide s ≠ [] := by
  cases s with
  | nil => exact absurd rfl h
  | cons b r => exact append_ne_nil_of_left_ne_nil (utf16UnitsFor_ne_nil _) _

theorem utf8ToWide_cons (hc : c < 0x80) (y : ByteString) :
    utf8ToWide (c :: y) = c.toUInt16 :: utf8ToWide y := by
  have hd : decodeUtf8 (c :: y) = (some c.toNat, 0 + 1) := if_pos hc
  have hu : utf16UnitsFor c.toNat = [c.toUInt16] := by
    have hn : c.toNat < 0x80 := hc
    rw [utf16UnitsFor, if_pos (by omega)]
    exact congrArg (fun u => [u]) (UInt16.toNat_inj.1 (by simp))
  rw [utf8ToWide_of_decode hd, getD_some, hu]
  rfl

/-- A character with bytes before it is not all that is read. -/
theorem utf8ToWide_concat_ne (hc : c < 0x80) (hq : c ≠ 0x3F) (hr : r ≠ []) :
    utf8ToWide (r ++ [c]) ≠ [c.toUInt16] := by
  obtain ⟨b, r, rfl⟩ := exists_cons_of_ne_nil hr
  intro heq
  rw [cons_append] at heq
  rcases decodeUtf8_cases b (r ++ [c]) with ⟨o, k, hk, hd, ha, -⟩ | ⟨_, _, -, -, hd⟩
  · have hd := append_nil (r ++ [c]) ▸ hd []
    rw [utf8ToWide_of_decode hd] at heq
    have hu : c.toNat < 0x80 := hc
    have hk : k < (r ++ [c]).length := by
      refine lt_of_le_of_ne hk fun hl => ?_
      have := ha c (by rw [take_of_length_le hl.ge]; exact mem_append_right _ mem_cons_self)
      omega
    -- a unit for the first bytes, and one for the character
    have hf := length_pos_of_ne_nil (utf16UnitsFor_ne_nil (o.getD 0x3F))
    have hb := length_pos_of_ne_nil (utf8ToWide_ne_nil (drop_eq_nil_iff.not.2 hk.not_ge))
    have hl := congrArg List.length heq
    rw [length_append, length_singleton] at hl
    omega
  · rw [utf8ToWide_of_decode hd, drop_length] at heq
    have hv := congrArg UInt16.toNat (head_eq_of_cons_eq heq)
    exact hq (UInt8.toNat_inj.1 (by simpa using hv.symm))

theorem endsWhole_drop_iff {k : ℕ} (h : ∀ n v, leadOf b = some (n, v) → n ≤ r.length + 1)
    (ha : ∀ a ∈ r.take k, a.toNat / 0x40 = 2) : EndsWhole (r.drop k) ↔ EndsWhole (b :: r) := by
  refine ⟨fun he lead rest n v hs hl => ?_, fun he lead rest n v hs =>
    he lead rest n v (hs.trans ((drop_suffix k r).trans (suffix_cons b r)))⟩
  rcases suffix_cons_iff.1 hs with heq | ⟨front, rfl⟩
  · obtain ⟨rfl, rfl⟩ := cons.inj heq
    exact fun _ => h n v hl
  refine he lead rest n v ⟨front.drop k, ?_⟩ hl
  -- a lead byte is not among the continuation bytes
  refine (drop_append_of_le_length (le_of_not_gt fun hk => (leadOf_spec hl).1 (ha lead ?_))).symm
  obtain ⟨m, rfl⟩ : ∃ m, k = front.length + (m + 1) := ⟨k - front.length - 1, by omega⟩
  rw [take_length_add_append, take_succ_cons]
  exact mem_append_right _ mem_cons_self

/-- **An ASCII character behind malformed bytes is read as it stands, and so is what follows it,
exactly if the end of the bytes cuts no sequence of three or four.** -/
theorem resynchronises_iff (x : ByteString) : Resynchronises x ↔ EndsWhole x := by
  induction hn : x.length using Nat.strong_induction_on generalizing x with
  | _ m ih =>
  cases x with
  | nil => exact ⟨fun _ l t n v hs => by simp at hs, fun _ c y hc => utf8ToWide_cons hc y⟩
  | cons b r =>
  rcases decodeUtf8_cases b r with ⟨o, k, hk, hd, ha, h⟩ | ⟨n, v, hl, hr, hd⟩
  · -- both sides take the same step
    rw [← endsWhole_drop_iff h ha, ← ih _ (by rw [length_drop, ← hn, length_cons]; omega) _ rfl]
    have hd0 := append_nil r ▸ hd []
    refine forall₃_congr fun c y hc => ?_
    rw [cons_append, utf8ToWide_of_decode (hd _), utf8ToWide_of_decode hd0,
      drop_append_of_le_length hk, append_assoc, append_cancel_left_eq]
  have hx := utf8ToWide_of_decode hd
  rw [drop_length] at hx
  rcases Nat.lt_or_ge 2 n with h2 | h2
  · refine iff_of_false (fun hres => ?_) fun he => (he b r n v suffix_rfl hl h2).not_gt hr
    have hres := hres 0x41 [] (by decide)
    rw [hx, cons_append] at hres
    rcases decodeUtf8_cases b (r ++ [0x41]) with ⟨-, -, -, -, -, hc⟩ | ⟨_, _, -, -, hd⟩
    · -- what was cut is read again
      rw [utf8ToWide_of_decode (decodeUtf8_broken hl hr (hc n v hl) (by decide))] at hres
      refine utf8ToWide_concat_ne (r := r) (c := 0x41) (by decide) (by decide) ?_
        (append_cancel_left hres)
      rintro rfl
      exact (hc n v hl).not_gt h2
    · -- the character goes with the sequence
      rw [utf8ToWide_of_decode hd, drop_length] at hres
      exact absurd (congrArg List.length hres) (by decide)
  · -- two bytes, of which the first is there
    obtain rfl : r = [] := length_eq_zero_iff.1 (by omega)
    refine iff_of_true (fun c y hc => ?_) fun lead rest n' v' hs hl' h2' => ?_
    · have hy := decodeUtf8_broken (y := y) hl hr (by simp; omega) hc
      rw [cons_append, utf8ToWide_of_decode hy, hx, drop_zero, nil_append, utf8ToWide_cons hc]
      rfl
    · obtain ⟨rfl, rfl⟩ := cons.inj ((suffix_cons_iff.1 hs).resolve_right (by simp))
      cases hl.symm.trans hl'
      omega

/-- **The readers resynchronise exactly so, and they come back from each other on text.** -/
theorem utf8_resynchronises_iff (x : ByteString) :
    (Resynchronises x ↔ EndsWhole x) ∧ ∀ chars : List Char, (∀ c ∈ chars, c.toNat ≠ 0) →
      wideToUtf8 (utf8ToWide (utf8 chars)) = utf8 chars ∧
        utf8ToWide (wideToUtf8 (utf16 chars)) = utf16 chars :=
  ⟨resynchronises_iff x, fun _ hc => encoded_comes_back hc⟩

/-- A lead byte and a character at the end are one question mark. -/
theorem not_utf8_resynchronises : ¬Resynchronises [0xE2] := fun h =>
  absurd (h 0x41 [] (by decide)) (by decide)

end Malformed

end TradutorLinux.Process
