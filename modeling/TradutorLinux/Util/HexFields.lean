import Mathlib.Data.List.TakeWhile
import Mathlib.Data.Nat.Digits.Lemmas
import TradutorLinux.Util.Bytes

/-!
# Hexadecimal fields

A record of a text file is a line, its fields are the words of the line, and each
word is a number or the bytes of a string, in hexadecimal.  A field without bytes
is no word at all.

## Main definitions

* `words`, `encodeHex`, `decodeHex`, `hexNumber`, `parseHexNumber`

## Main results

* `words_append` — **a text is read up to each separator by itself.**
* `decodeHex_encodeHex`, `parseHexNumber_hexNumber`
-/

namespace TradutorLinux

open List Option Nat

universe u

/-! ### Words -/

section Words

variable {α : Type u} {sep : α → Bool}

/-- A word that may be empty, and the words behind it. -/
def consWord (split : List α × List (List α)) : List (List α) :=
  if split.1 = [] then split.2 else split.1 :: split.2

/-- The word at the beginning, which may be empty, and the words behind it. -/
def splitWord (sep : α → Bool) : List α → List α × List (List α)
  | [] => ([], [])
  | a :: l =>
    if sep a then ([], consWord (splitWord sep l))
    else (a :: (splitWord sep l).1, (splitWord sep l).2)

/-- The words between the separators; two separators have no word between them. -/
def words (sep : α → Bool) (l : List α) : List (List α) := consWord (splitWord sep l)

theorem consWord_eq (w : List α) (rest : List (List α)) :
    consWord (w, rest) = [w].filter (· ≠ []) ++ rest := by
  unfold consWord
  by_cases h : w = [] <;> simp [h]

variable {w : List α} {a : α}

theorem splitWord_append (h : ∀ a ∈ w, sep a = false) (ha : sep a) (l : List α) :
    splitWord sep (w ++ a :: l) = (w, words sep l) := by
  induction w with
  | nil => exact if_pos ha
  | cons b w ih =>
    have hb : ¬sep b := by simp [h b mem_cons_self]
    rw [cons_append, splitWord, if_neg hb, ih fun c hc => h c (mem_cons_of_mem _ hc)]

/-- **The word up to a separator, and then the words of the rest.** -/
theorem words_append (h : ∀ a ∈ w, sep a = false) (ha : sep a) (l : List α) :
    words sep (w ++ a :: l) = [w].filter (· ≠ []) ++ words sep l := by
  rw [words, splitWord_append h ha, consWord_eq]

theorem words_self (h : ∀ a ∈ w, sep a = false) : words sep w = [w].filter (· ≠ []) := by
  have hs : splitWord sep w = (w, []) := by
    induction w with
    | nil => rfl
    | cons b w ih =>
      have hb : ¬sep b := by simp [h b mem_cons_self]
      rw [splitWord, if_neg hb, ih fun c hc => h c (mem_cons_of_mem _ hc)]
  rw [words, hs, consWord_eq, append_nil]

theorem ne_nil_of_mem_consWord {split : List α × List (List α)}
    (h : ∀ w ∈ split.2, w ≠ []) : ∀ w ∈ consWord split, w ≠ [] := by
  intro w hw
  unfold consWord at hw
  split at hw
  · exact h w hw
  · next hn =>
    rcases mem_cons.1 hw with rfl | hr
    · exact hn
    · exact h w hr

theorem ne_nil_of_mem_words {l : List α} (h : w ∈ words sep l) : w ≠ [] := by
  have hs : ∀ w ∈ (splitWord sep l).2, w ≠ [] := by
    clear h
    induction l with
    | nil => simp [splitWord]
    | cons a l ih =>
      rw [splitWord]
      split
      · exact ne_nil_of_mem_consWord ih
      · exact ih
  exact ne_nil_of_mem_consWord hs w h

theorem words_flatMap {β : Type} {l : List β} {w : β → List α}
    (h : ∀ b ∈ l, ∀ c ∈ w b, sep c = false) (ha : sep a) :
    words sep (l.flatMap fun b => w b ++ [a]) = (l.map w).filter (· ≠ []) := by
  induction l with
  | nil => rfl
  | cons b l ih =>
    rw [flatMap_cons, append_assoc, singleton_append,
      words_append (h b mem_cons_self) ha, ih fun c hc => h c (mem_cons_of_mem _ hc),
      ← filter_append]
    rfl

end Words

/-! ### Digits -/

/-- `0123456789abcdef`. -/
def hexChar (n : ℕ) : UInt8 := if n < 10 then .ofNat (48 + n) else .ofNat (87 + n)

/-- The value of a digit, in either case. -/
def hexValue (c : UInt8) : Option ℕ :=
  if 48 ≤ c ∧ c ≤ 57 then some (c.toNat - 48)
  else if 97 ≤ c ∧ c ≤ 102 then some (c.toNat - 87)
  else if 65 ≤ c ∧ c ≤ 70 then some (c.toNat - 55)
  else none

theorem hexValue_hexChar : ∀ n < 16, hexValue (hexChar n) = some n := by decide

/-! ### Bytes -/

/-- Two digits a byte. -/
def encodeHex (bytes : ByteString) : ByteString :=
  bytes.flatMap fun b => [hexChar (b.toNat / 16), hexChar (b.toNat % 16)]

/-- A number of one or two digits at the beginning of two characters. -/
def hexPair (high low : UInt8) : Option ℕ :=
  (hexValue high).map fun h =>
    match hexValue low with
    | some l => 16 * h + l
    | none => h

/-- The bytes of the pairs; nothing when a pair has no digit in front, or one character is
left over. -/
def decodeHex : ByteString → Option ByteString
  | [] => some []
  | [_] => none
  | high :: low :: rest => do
    let byte ← hexPair high low
    let bytes ← decodeHex rest
    return .ofNat byte :: bytes

/-- **The bytes of a field are read as they were written.** -/
theorem decodeHex_encodeHex (bytes : ByteString) : decodeHex (encodeHex bytes) = some bytes := by
  induction bytes with
  | nil => rfl
  | cons b bytes ih =>
    have hb : b.toNat < 256 := b.toNat_lt
    have hp : hexPair (hexChar (b.toNat / 16)) (hexChar (b.toNat % 16)) = some b.toNat := by
      unfold hexPair
      rw [hexValue_hexChar _ (by omega), hexValue_hexChar _ (by omega), map_some]
      exact congrArg some (div_add_mod b.toNat 16)
    have hc : encodeHex (b :: bytes) =
        hexChar (b.toNat / 16) :: hexChar (b.toNat % 16) :: encodeHex bytes := rfl
    rw [hc, decodeHex, hp, ih]
    simp

variable {bs : ByteString}

theorem decodeHex_ne_nil {f : ByteString} (h : decodeHex f = some bs) (hn : f ≠ []) : bs ≠ [] := by
  match f with
  | [] => exact absurd rfl hn
  | [_] => cases h
  | high :: low :: rest =>
    obtain ⟨b, -, h⟩ := bind_eq_some_iff.1 h
    obtain ⟨ba, -, h⟩ := bind_eq_some_iff.1 h
    rw [← some.inj h]
    exact cons_ne_nil _ _

theorem encodeHex_eq_nil : encodeHex bs = [] ↔ bs = [] := by
  cases bs <;> simp [encodeHex]

/-! ### Numbers -/

/-- The digits, without leading zeros; 0 has one. -/
def hexNumber (n : ℕ) : ByteString :=
  if n = 0 then [hexChar 0] else ((Nat.digits 16 n).map hexChar).reverse

/-- The number of the digits at the beginning, if there is one and it is below `limit`. -/
def parseHexNumber (limit : ℕ) (bytes : ByteString) : Option ℕ :=
  let digits := (bytes.takeWhile fun c => (hexValue c).isSome).filterMap hexValue
  if digits = [] then none
  else
    let value := ofDigits 16 digits.reverse
    if value < limit then some value else none

theorem filterMap_hexValue {digits : List ℕ} (h : ∀ d ∈ digits, d < 16) :
    (digits.map hexChar).filterMap hexValue = digits := by
  induction digits with
  | nil => rfl
  | cons d digits ih =>
    rw [map_cons, filterMap_cons, hexValue_hexChar d (h d mem_cons_self),
      ih fun c hc => h c (mem_cons_of_mem _ hc)]

theorem exists_digits {b : ℕ} (hb : 1 < b) (n : ℕ) : ∃ ds : List ℕ,
    (if n = 0 then [hexChar 0] else ((Nat.digits b n).map hexChar).reverse) =
      ds.map hexChar ∧ (∀ d ∈ ds, d < b) ∧ ds ≠ [] ∧ ofDigits b ds.reverse = n := by
  by_cases hn : n = 0
  · subst hn
    exact ⟨[0], rfl, by simpa using zero_lt_of_lt hb, cons_ne_nil _ _, rfl⟩
  refine ⟨(Nat.digits b n).reverse, ?_, fun d hd => ?_, ?_, ?_⟩
  · rw [if_neg hn, map_reverse]
  · exact digits_lt_base hb (mem_reverse.1 hd)
  · simpa using digits_ne_nil_iff_ne_zero.2 hn
  · rw [reverse_reverse, ofDigits_digits]

/-- **A number is read as it was written.** -/
theorem parseHexNumber_hexNumber {l n : ℕ} (h : n < l) :
    parseHexNumber l (hexNumber n) = some n := by
  obtain ⟨ds, hi, hl, hn, hv⟩ := exists_digits (b := 16) (by decide) n
  change hexNumber n = _ at hi
  have ha : (hexNumber n).takeWhile (fun c => (hexValue c).isSome) = hexNumber n := by
    rw [hi, takeWhile_eq_self_iff]
    intro c hc
    obtain ⟨d, hd, rfl⟩ := mem_map.1 hc
    rw [hexValue_hexChar d (hl d hd)]
    rfl
  unfold parseHexNumber
  rw [ha, hi, filterMap_hexValue hl, if_neg hn, hv, if_pos h]

theorem hexNumber_ne_nil (n : ℕ) : hexNumber n ≠ [] := by
  unfold hexNumber
  split
  · exact cons_ne_nil _ _
  · next hn => simpa using digits_ne_nil_iff_ne_zero.2 hn

/-- What is written in hexadecimal has only digits. -/
theorem isSome_hexValue_encodeHex {c : UInt8} (h : c ∈ encodeHex bs) : (hexValue c).isSome := by
  obtain ⟨b, -, hc⟩ := mem_flatMap.1 h
  have hb : b.toNat < 256 := b.toNat_lt
  rcases mem_cons.1 hc with rfl | hc
  · rw [hexValue_hexChar _ (by omega)]
    rfl
  · obtain rfl := mem_singleton.1 hc
    rw [hexValue_hexChar _ (by omega)]
    rfl

theorem isSome_hexValue_hexNumber {n : ℕ} {c : UInt8} (h : c ∈ hexNumber n) :
    (hexValue c).isSome := by
  unfold hexNumber at h
  split at h
  · obtain rfl := mem_singleton.1 h
    decide
  · obtain ⟨d, hd, rfl⟩ := mem_map.1 (mem_reverse.1 h)
    rw [hexValue_hexChar d (digits_lt_base (by decide) hd)]
    rfl

end TradutorLinux
