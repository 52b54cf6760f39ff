import TradutorLinux.Process.GuestStrings
import TradutorLinux.Process.Unicode

/-!
# Strings of the registry

A string value is kept in UTF-8 with one terminator.  The narrow functions of
`advapi.cpp` take and give it in code page 1252, the wide ones in UTF-16.

## Main definitions

* `cp1252ToUnicode`, `unicodeToCp1252` — one character of the code page.
* `stringValueToUtf8` — what is kept of the data of a call.
* `utf8StringToAnsi`, `utf8StringToWide` — what a query gives back.
* `utf8Of`, `wideOf` — a text of the code page in the two other encodings.

## Main results

* `stringValueToUtf8_agree` — **the same text is kept the same, in whichever form
  it was given.**
* `utf8StringToAnsi_utf8Of`, `utf8StringToWide_utf8Of` — it comes back in both.
-/

namespace TradutorLinux.Advapi

open Process List

/-! ### Code page 1252 -/

/-- `kCp1252Control`: the code points of 0x80 to 0x9F. -/
def kCp1252Control : List ℕ :=
  [0x20AC, 0x0081, 0x201A, 0x0192, 0x201E, 0x2026, 0x2020, 0x2021,
    0x02C6, 0x2030, 0x0160, 0x2039, 0x0152, 0x008D, 0x017D, 0x008F,
    0x0090, 0x2018, 0x2019, 0x201C, 0x201D, 0x2022, 0x2013, 0x2014,
    0x02DC, 0x2122, 0x0161, 0x203A, 0x0153, 0x009D, 0x017E, 0x0178]

/-- `cp1252_to_unicode`. -/
def cp1252ToUnicode (byte : UInt8) : ℕ :=
  if 0x80 ≤ byte ∧ byte ≤ 0x9F then kCp1252Control.getD (byte.toNat - 0x80) 0 else byte.toNat

/-- `unicode_to_cp1252`; its table is the other one backwards. -/
def unicodeToCp1252 (codepoint : ℕ) : Option UInt8 :=
  if codepoint ≤ 0x7F ∨ 0xA0 ≤ codepoint ∧ codepoint ≤ 0xFF then some (.ofNat codepoint)
  else (kCp1252Control.findIdx? (· == codepoint)).map fun i => .ofNat (0x80 + i)

theorem forall_byte {P : UInt8 → Prop} (h : ∀ n < 256, P (.ofNat n)) (b : UInt8) : P b := by
  rw [← UInt8.ofNat_toNat (x := b)]
  exact h b.toNat b.toNat_lt

theorem unicodeToCp1252_cp1252ToUnicode (b : UInt8) :
    unicodeToCp1252 (cp1252ToUnicode b) = some b :=
  forall_byte (P := fun b => unicodeToCp1252 (cp1252ToUnicode b) = some b) (by decide +kernel) b

theorem cp1252ToUnicode_lt (b : UInt8) : cp1252ToUnicode b < 0xD800 :=
  forall_byte (P := fun b => cp1252ToUnicode b < 0xD800) (by decide +kernel) b

theorem cp1252ToUnicode_eq_zero (b : UInt8) : cp1252ToUnicode b = 0 ↔ b = 0 :=
  forall_byte (P := fun b => cp1252ToUnicode b = 0 ↔ b = 0) (by decide +kernel) b

/-! ### What is kept -/

/-- The loop of `ansi_string_to_utf8`, which stops at a terminator. -/
def ansiLoop : ByteString → ByteString
  | [] => []
  | b :: rest =>
    if cp1252ToUnicode b = 0 then [0] else utf8BytesFor (cp1252ToUnicode b) ++ ansiLoop rest

/-- `ansi_string_to_utf8`. -/
def ansiStringToUtf8 (data : ByteString) : ByteString :=
  let result := ansiLoop data
  if result.getLast? = some 0 then result else result ++ [0]

/-- The units of little-endian data. -/
def unitsLE : ByteString → List UInt16
  | low :: high :: rest => .ofNat (low.toNat + 256 * high.toNat) :: unitsLE rest
  | _ => []

def bytesLE (units : List UInt16) : ByteString :=
  units.flatMap fun u => [.ofNat (u.toNat % 256), .ofNat (u.toNat / 256)]

/-- `wide_string_to_utf8`. -/
def wideStringToUtf8 (data : ByteString) : ByteString :=
  if data.length % 2 ≠ 0 then [] else wideToUtf8 (unitsLE data ++ [0]) ++ [0]

/-- `string_value_to_utf8`. -/
def stringValueToUtf8 (data : ByteString) (wide : Bool) : ByteString :=
  if data = [] then [0]
  else if wide then wideStringToUtf8 data else ansiStringToUtf8 data

/-! ### What is given back -/

/-- `utf8_string_to_wide`. -/
def utf8StringToWide (data : ByteString) : ByteString :=
  bytesLE (utf8ToWide (data.takeWhile (· ≠ 0))) ++ [0, 0]

/-- `utf8_string_to_ansi`: a question mark for what the code page does not have. -/
def utf8StringToAnsi (data : ByteString) : ByteString :=
  let front := data.takeWhile (· ≠ 0)
  transcode decodeUtf8 (fun codepoint => [(unicodeToCp1252 codepoint).getD 0x3F])
    front.length front ++ [0]

/-! ### Texts of the code page -/

/-- A text in UTF-8. -/
def utf8Of (chars : ByteString) : ByteString :=
  chars.flatMap fun b => utf8BytesFor (cp1252ToUnicode b)

/-- A text in UTF-16. -/
def wideOf (chars : ByteString) : List UInt16 :=
  chars.map fun b => .ofNat (cp1252ToUnicode b)

/-- The characters of a text. -/
def charsOf (chars : ByteString) : List Char :=
  chars.map fun b => Char.ofNat (cp1252ToUnicode b)

variable {a : ByteString}

theorem toNat_charOf (b : UInt8) : (Char.ofNat (cp1252ToUnicode b)).toNat = cp1252ToUnicode b := by
  unfold Char.ofNat
  rw [dif_pos (.inl (cp1252ToUnicode_lt b))]
  rfl

theorem utf8_charsOf (a : ByteString) : utf8 (charsOf a) = utf8Of a := by
  unfold utf8 charsOf utf8Of
  rw [flatMap_map]
  refine flatMap_congr fun b _ => ?_
  rw [← utf8BytesFor_toNat, toNat_charOf]

theorem utf16_charsOf (a : ByteString) : utf16 (charsOf a) = wideOf a := by
  induction a with
  | nil => rfl
  | cons b a ih =>
    have hu : utf16UnitsFor (cp1252ToUnicode b) = [.ofNat (cp1252ToUnicode b)] :=
      if_pos (lt_trans (cp1252ToUnicode_lt b) (by decide))
    show utf16UnitsFor (Char.ofNat (cp1252ToUnicode b)).toNat ++ utf16 (charsOf a) = _
    rw [ih, toNat_charOf, hu]
    rfl

section

variable (h : (0 : UInt8) ∉ a)
include h

theorem charsOf_ne_zero : ∀ c ∈ charsOf a, c.toNat ≠ 0 := by
  intro c hc hz
  obtain ⟨b, hb, rfl⟩ := mem_map.1 hc
  rw [toNat_charOf, cp1252ToUnicode_eq_zero] at hz
  exact h (hz ▸ hb)

theorem zero_notMem_utf8Of : (0 : UInt8) ∉ utf8Of a := by
  intro hm
  obtain ⟨b, hb, hz⟩ := mem_flatMap.1 hm
  have hl := cp1252ToUnicode_lt b
  refine zero_notMem_utf8BytesFor (fun heq => h ?_) (by omega) hz
  exact (cp1252ToUnicode_eq_zero b).1 heq ▸ hb

theorem zero_notMem_wideOf : (0 : UInt16) ∉ wideOf a := by
  rw [← utf16_charsOf]
  exact zero_notMem_utf16 (charsOf_ne_zero h)

/-- **A text comes from UTF-16 into UTF-8.** -/
theorem wideToUtf8_wideOf : wideToUtf8 (wideOf a) = utf8Of a := by
  rw [← utf16_charsOf, ← utf8_charsOf]
  exact wideToUtf8_encoded (charsOf_ne_zero h)

theorem takeWhile_text {b : ByteString} :
    (a ++ 0 :: b).takeWhile (· ≠ 0) = a := takeWhile_eq_of_terminated h

end

theorem takeWhile_units {units b : List UInt16} (h : (0 : UInt16) ∉ units) :
    (units ++ 0 :: b).takeWhile (· ≠ 0) = units := takeWhile_eq_of_terminated h

/-- What is in front of the first terminator, and what is behind it. -/
theorem split_text (d : ByteString) : (0 : UInt8) ∉ d.takeWhile (· ≠ 0) ∧
      (d = d.takeWhile (· ≠ 0) ∨ ∃ ba, d = d.takeWhile (· ≠ 0) ++ 0 :: ba) := by
  refine ⟨terminator_notMem_takeWhile d, ?_⟩
  have hf := takeWhile_prefix (fun b : UInt8 => decide (b ≠ 0)) (l := d)
  rcases lt_or_ge (d.takeWhile (· ≠ 0)).length d.length with hl | hg
  · exact .inr (eq_terminated_of_lt hl)
  · exact .inl (hf.eq_of_length (le_antisymm hf.length_le hg)).symm

/-! ### What is kept of a text -/

theorem ansiLoop_text (h : (0 : UInt8) ∉ a) (ba : ByteString) :
    ansiLoop (a ++ 0 :: ba) = utf8Of a ++ [0] ∧ ansiLoop a = utf8Of a := by
  induction a with
  | nil => exact ⟨rfl, rfl⟩
  | cons b a ih =>
    obtain ⟨ht, ho⟩ := ih fun hm => h (mem_cons_of_mem _ hm)
    have hb : cp1252ToUnicode b ≠ 0 := fun hz =>
      h ((cp1252ToUnicode_eq_zero b).1 hz ▸ mem_cons_self)
    constructor
    · rw [cons_append, ansiLoop, if_neg hb, ht, ← append_assoc]
      rfl
    · rw [ansiLoop, if_neg hb, ho]
      rfl

theorem ansiStringToUtf8_eq (d : ByteString) :
    ansiStringToUtf8 d = utf8Of (d.takeWhile (· ≠ 0)) ++ [0] := by
  obtain ⟨hz, heq | ⟨b, heq⟩⟩ := split_text d
  · obtain ⟨-, hl⟩ := ansiLoop_text hz []
    have ha : (utf8Of (d.takeWhile (· ≠ 0))).getLast? ≠ some 0 := fun ha =>
      zero_notMem_utf8Of hz (mem_of_getLast? ha)
    dsimp only [ansiStringToUtf8]
    rw [← heq] at hl ha ⊢
    rw [hl, if_neg ha]
  · obtain ⟨hl, -⟩ := ansiLoop_text hz b
    rw [← heq] at hl
    dsimp only [ansiStringToUtf8]
    rw [hl, if_pos (by simp)]

theorem unitsLE_bytesLE (units : List UInt16) : unitsLE (bytesLE units) = units := by
  induction units with
  | nil => rfl
  | cons u units ih =>
    have hu : u.toNat < 65536 := u.toNat_lt
    show UInt16.ofNat ((UInt8.ofNat (u.toNat % 256)).toNat +
      256 * (UInt8.ofNat (u.toNat / 256)).toNat) :: unitsLE (bytesLE units) = u :: units
    rw [ih, toNat_ofNat8 (by omega), toNat_ofNat8 (by omega), Nat.mod_add_div]
    simp

theorem length_bytesLE (us : List UInt16) : (bytesLE us).length = 2 * us.length := by
  induction us with
  | nil => rfl
  | cons u us ih =>
    show (bytesLE us).length + 1 + 1 = 2 * (us.length + 1)
    omega

theorem wideToUtf8_congr {us units' : List UInt16}
    (h : us.takeWhile (· ≠ 0) = units'.takeWhile (· ≠ 0)) : wideToUtf8 us = wideToUtf8 units' := by
  unfold wideToUtf8
  rw [h]

/-- **The wide form of a text is kept as the narrow one is.** -/
theorem stringValueToUtf8_agree (d : ByteString) :
    stringValueToUtf8 (bytesLE (wideOf d)) true = stringValueToUtf8 d false := by
  by_cases hd : d = []
  · subst hd
    rfl
  have hn : bytesLE (wideOf d) ≠ [] := by
    rw [← length_pos_iff, length_bytesLE, wideOf, length_map]
    have := length_pos_of_ne_nil hd
    omega
  have he : ¬(bytesLE (wideOf d)).length % 2 ≠ 0 := by
    rw [length_bytesLE]
    omega
  unfold stringValueToUtf8 wideStringToUtf8
  rw [if_neg hn, if_neg hd, if_pos rfl, if_neg he, if_neg Bool.false_ne_true,
    unitsLE_bytesLE, ansiStringToUtf8_eq]
  obtain ⟨hz, hs⟩ := split_text d
  congr 1
  rw [← wideToUtf8_wideOf hz]
  apply wideToUtf8_congr
  have hse : (wideOf (d.takeWhile (· ≠ 0))).takeWhile (· ≠ 0) = wideOf (d.takeWhile (· ≠ 0)) := by
    rw [takeWhile_eq_self_iff]
    intro u hu
    exact decide_eq_true fun heq => zero_notMem_wideOf hz (heq ▸ hu)
  rw [hse]
  rcases hs with heq | ⟨back, heq⟩
  · rw [← heq] at hz ⊢
    exact takeWhile_units (zero_notMem_wideOf hz)
  have hw : wideOf d = wideOf (d.takeWhile (· ≠ 0)) ++ 0 :: wideOf back := by
    conv_lhs => rw [heq]
    unfold wideOf
    rw [map_append, map_cons]
    rfl
  rw [hw, append_assoc, cons_append]
  exact takeWhile_units (zero_notMem_wideOf hz)

/-! ### What is given back of a text -/

theorem utf8StringToWide_utf8Of (h : (0 : UInt8) ∉ a) (b : ByteString) :
    utf8StringToWide (utf8Of a ++ 0 :: b) = bytesLE (wideOf a) ++ [0, 0] := by
  unfold utf8StringToWide
  rw [takeWhile_text (zero_notMem_utf8Of h), ← utf8_charsOf, utf8ToWide_encoded, utf16_charsOf]

theorem utf8StringToAnsi_utf8Of (h : (0 : UInt8) ∉ a) (b : ByteString) :
    utf8StringToAnsi (utf8Of a ++ 0 :: b) = a ++ [0] := by
  dsimp only [utf8StringToAnsi]
  rw [takeWhile_text (zero_notMem_utf8Of h), ← utf8_charsOf]
  congr 1
  have hr : transcode decodeUtf8 (fun co => [(unicodeToCp1252 co).getD 0x3F])
      (utf8 (charsOf a)).length (utf8 (charsOf a)) =
        (charsOf a).flatMap fun c => [(unicodeToCp1252 c.toNat).getD 0x3F] :=
    transcode_encoded (fun _ => String.utf8EncodeChar_ne_nil) (fun c r => by
        rw [← utf8BytesFor_toNat]
        exact decodeUtf8_utf8BytesFor (toNat_scalar c) r)
      _ _ (length_le_flatMap (fun _ => String.utf8EncodeChar_ne_nil) _)
  rw [hr, charsOf, flatMap_map]
  simp only [toNat_charOf, unicodeToCp1252_cp1252ToUnicode, Option.getD_some]
  exact flatMap_singleton' a

end TradutorLinux.Advapi
