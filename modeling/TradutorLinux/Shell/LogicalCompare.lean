import Mathlib.Data.List.Lex
import Mathlib.Data.Prod.Lex
import TradutorLinux.Process.GuestStrings

/-!
# The logical comparison of strings

`tl_StrCmpLogicalW` of `shlwapi.cpp` goes through two strings with two cursors.
Where both are at a digit it takes both numbers whole; elsewhere it takes one
unit of each, in lower case.

## Main definitions

* `strCmpLoop`, `strCmpLogicalW`
* `Token`, `tokens` — a string as numbers and single units.
* `threeWay`

## Main results

* `strCmpLoop_eq`, `strCmpLogicalW_preorder`
-/

namespace TradutorLinux.Shlwapi

open List Process Nat UInt16

def kMaxShlwapiStringUnits : ℕ := 4096

def isDigit (c : UInt16) : Bool := 0x30 ≤ c && c ≤ 0x39

def lowerUnit (c : UInt16) : UInt16 := if 0x41 ≤ c ∧ c ≤ 0x5A then c + 32 else c

/-- The loop over two numbers of one length. -/
def compareUnits : List UInt16 → List UInt16 → ℤ
  | c :: s, d :: t => if c ≠ d then if c < d then -1 else 1 else compareUnits s t
  | _, _ => 0

/-- Two numbers without leading zeros. -/
def compareNumbers (s t : List UInt16) : ℤ :=
  if s.length ≠ t.length then if s.length < t.length then -1 else 1 else compareUnits s t

variable {c : UInt16} {s : List UInt16}

theorem length_dropWhile_lt (hc : isDigit c) :
    (((c :: s).dropWhile (· = 0x30)).dropWhile isDigit).length < s.length + 1 := by
  have hl : ∀ l : List UInt16, (l.dropWhile isDigit).length ≤ l.length :=
    fun l => (dropWhile_suffix _).length_le
  by_cases hz : c = 0x30
  · rw [dropWhile_cons_of_pos (by simp [hz])]
    exact lt_succ_of_le ((hl _).trans (dropWhile_suffix _).length_le)
  · rw [dropWhile_cons_of_neg (by simp [hz]), dropWhile_cons_of_pos hc]
    exact lt_succ_of_le (hl s)

/-- The loop of `tl_StrCmpLogicalW`, from the cursors on. -/
def strCmpLoop : List UInt16 → List UInt16 → ℤ
  | c :: s, d :: t =>
    if h : isDigit c = true ∧ isDigit d = true then
      let s' := (c :: s).dropWhile (· = 0x30)
      let t' := (d :: t).dropWhile (· = 0x30)
      let result := compareNumbers (s'.takeWhile isDigit) (t'.takeWhile isDigit)
      if result ≠ 0 then result else strCmpLoop (s'.dropWhile isDigit) (t'.dropWhile isDigit)
    else if lowerUnit c ≠ lowerUnit d then if lowerUnit c < lowerUnit d then -1 else 1
    else strCmpLoop s t
  | _ :: _, [] => 1
  | [], _ :: _ => -1
  | [], [] => 0
termination_by s => s.length
decreasing_by
  · exact length_dropWhile_lt h.1
  · exact lt_succ_self _

/-- `tl_StrCmpLogicalW`; `memory` is what is mapped from an address on. -/
def strCmpLogicalW (memory : ℕ → List UInt16) (string1 string2 : ℕ) : ℤ :=
  if string1 = string2 then 0
  else if string1 = 0 then -1
  else if string2 = 0 then 1
  else
    match copyGuestString ⟨string1, memory string1⟩ kMaxShlwapiStringUnits,
      copyGuestString ⟨string2, memory string2⟩ kMaxShlwapiStringUnits with
    | some s, some t => strCmpLoop s t
    | _, _ => 0

/-! ### Tokens -/

/-- A run of digits, or one unit in lower case. -/
inductive Token
  | number (n : ℕ)
  | unit (c : UInt16)

/-- The number that digits are written for. -/
def decimalValue : List UInt16 → ℕ
  | [] => 0
  | c :: s => (c.toNat - 0x30) * 10 ^ s.length + decimalValue s

/-- The maximal runs of digits, and the units between them. -/
def tokens : List UInt16 → List Token
  | [] => []
  | c :: s =>
    if isDigit c then
      .number (decimalValue (c :: s.takeWhile isDigit)) :: tokens (s.dropWhile isDigit)
    else .unit (lowerUnit c) :: tokens s
termination_by s => s.length
decreasing_by
  · exact lt_succ_of_le (dropWhile_suffix _).length_le
  · exact lt_succ_self _

/-- Numbers are ordered as numbers, and stand among the units where the digits stand. -/
def Token.key : Token → ℕ ×ₗ ℕ
  | .number n => toLex (0x30, n)
  | .unit c => toLex (c.toNat, 0)

/-- What a string is compared by. -/
def logicalKey (s : List UInt16) : List (ℕ ×ₗ ℕ) := (tokens s).map Token.key

/-- The sign of a comparison. -/
def threeWay {α : Type} [LinearOrder α] (a b : α) : ℤ :=
  if a < b then -1 else if a = b then 0 else 1

section ThreeWay

variable {α : Type} [LinearOrder α] {a b : α}

theorem threeWay_self : threeWay a a = 0 := by simp [threeWay]

theorem threeWay_of_lt (h : a < b) : threeWay a b = -1 := if_pos h

theorem threeWay_of_gt (h : b < a) : threeWay a b = 1 := by simp [threeWay, h.not_gt, h.ne']

theorem threeWay_of_ne (h : a ≠ b) : threeWay a b = if a < b then -1 else 1 := by simp [threeWay, h]

theorem threeWay_nonpos : threeWay a b ≤ 0 ↔ a ≤ b := by
  rcases lt_trichotomy a b with h | h | h
  · simp [threeWay_of_lt h, h.le]
  · simp [h, threeWay_self]
  · simp [threeWay_of_gt h, h]

theorem threeWay_eq_zero : threeWay a b = 0 ↔ a = b := by
  rcases lt_trichotomy a b with h | h | h
  · simp [threeWay_of_lt h, h.ne]
  · simp [h, threeWay_self]
  · simp [threeWay_of_gt h, h.ne']

theorem threeWay_swap : threeWay b a = -threeWay a b := by
  rcases lt_trichotomy a b with h | h | h
  · rw [threeWay_of_lt h, threeWay_of_gt h]
    rfl
  · rw [h, threeWay_self]
    rfl
  · rw [threeWay_of_gt h, threeWay_of_lt h]

theorem threeWay_cons (s t : List α) :
    threeWay (a :: s) (b :: t) = if a = b then threeWay s t else threeWay a b := by
  have hl : a :: s < b :: t ↔ a < b ∨ a = b ∧ s < t := cons_lt_cons_iff
  by_cases h : a = b
  · rw [if_pos h]
    subst h
    rcases lt_trichotomy s t with h | h | h
    · rw [threeWay_of_lt h, threeWay_of_lt (hl.2 (.inr ⟨rfl, h⟩))]
    · rw [h, threeWay_self, threeWay_self]
    · rw [threeWay_of_gt h, threeWay_of_gt (cons_lt_cons_iff.2 (.inr ⟨rfl, h⟩))]
  · rw [if_neg h, threeWay_of_ne h, threeWay_of_ne fun heq => h (cons.inj heq).1]
    simp [hl, h, false_and, or_false]

theorem threeWay_congr {β : Type} [LinearOrder β] {f : α → β} (hf : StrictMono f) :
    threeWay (f a) (f b) = threeWay a b := by
  simp [threeWay, hf.lt_iff_lt, hf.injective.eq_iff]

end ThreeWay

/-! ### Numbers -/

theorem isDigit_iff : isDigit c ↔ 0x30 ≤ c.toNat ∧ c.toNat ≤ 0x39 := by
  simp [isDigit, le_iff_toNat_le]

theorem decimalValue_lt (hs : ∀ c ∈ s, isDigit c) : decimalValue s < 10 ^ s.length := by
  induction s with
  | nil => simp [decimalValue]
  | cons c s ih =>
    have hr := ih fun d hd => hs d (mem_cons_of_mem c hd)
    have hc := isDigit_iff.1 (hs c mem_cons_self)
    have hmul : (c.toNat - 0x30) * 10 ^ s.length ≤ 9 * 10 ^ s.length :=
      Nat.mul_le_mul_right _ (by omega)
    rw [decimalValue, length_cons, pow_succ]
    omega

variable {t : List UInt16}

theorem compareUnits_eq (hs : ∀ c ∈ s, isDigit c)
    (ht : ∀ c ∈ t, isDigit c) (h : s.length = t.length) :
    compareUnits s t = threeWay (decimalValue s) (decimalValue t) := by
  induction s generalizing t with
  | nil =>
    cases t with
    | nil => rfl
    | cons d t => cases h
  | cons c s ih =>
    cases t with
    | nil => cases h
    | cons d t =>
      have hl : s.length = t.length := succ.inj h
      have hs' : ∀ x ∈ s, isDigit x := fun x hx => hs x (mem_cons_of_mem c hx)
      have ht' : ∀ x ∈ t, isDigit x := fun x hx => ht x (mem_cons_of_mem d hx)
      have hls := decimalValue_lt hs'
      have hltt := decimalValue_lt ht'
      have hc := isDigit_iff.1 (hs c mem_cons_self)
      have hd := isDigit_iff.1 (ht d mem_cons_self)
      rw [hl] at hls
      rw [compareUnits, decimalValue, decimalValue, hl]
      -- the first digit outweighs all that follow
      have he : ∀ x y : ℕ, x < y → ∀ v w : ℕ, v < 10 ^ t.length →
          x * 10 ^ t.length + v < y * 10 ^ t.length + w := by
        intro x y hy v w hv
        have hmul := Nat.mul_le_mul_right (10 ^ t.length) hy
        rw [succ_mul] at hmul
        omega
      rcases lt_trichotomy c.toNat d.toNat with hlt | heq | hg
      · have hn : c ≠ d := fun heq => hlt.ne (congrArg _ heq)
        rw [if_pos hn, if_pos (lt_iff_toNat_lt.2 hlt),
          threeWay_of_lt (he _ _ (by omega) _ _ hls)]
      · rw [UInt16.toNat_inj.1 heq, if_neg (by simp), ih hs' ht' hl]
        exact (threeWay_congr (f := fun v => (d.toNat - 0x30) * 10 ^ t.length + v)
          fun _ _ hv => Nat.add_lt_add_left hv _).symm
      · have hn : c ≠ d := fun heq => hg.ne (congrArg _ heq.symm)
        rw [if_pos hn, if_neg (by rw [lt_iff_toNat_lt]; omega),
          threeWay_of_gt (he _ _ (by omega) _ _ hltt)]

theorem le_decimalValue (hs : ∀ c ∈ s, isDigit c)
    (hh : s.head? ≠ some 0x30) {n : ℕ} (hn : n < s.length) : 10 ^ n ≤ decimalValue s := by
  cases s with
  | nil => cases hn
  | cons c s =>
    have hc := isDigit_iff.1 (hs c mem_cons_self)
    have he : c.toNat ≠ 0x30 := fun heq =>
      hh (congrArg some (UInt16.toNat_inj.1 (heq.trans (by decide))))
    have hmul : 1 * 10 ^ s.length ≤ (c.toNat - 0x30) * 10 ^ s.length :=
      Nat.mul_le_mul_right _ (by omega)
    have hp : 10 ^ n ≤ 10 ^ s.length := Nat.pow_le_pow_right (by decide) (le_of_lt_succ hn)
    rw [decimalValue]
    omega

theorem compareNumbers_eq (hs : ∀ c ∈ s, isDigit c)
    (ht : ∀ c ∈ t, isDigit c) (hs0 : s.head? ≠ some 0x30) (h0 : t.head? ≠ some 0x30) :
    compareNumbers s t = threeWay (decimalValue s) (decimalValue t) := by
  unfold compareNumbers
  rcases lt_trichotomy s.length t.length with hl | heq | hg
  · rw [if_pos hl.ne, if_pos hl,
      threeWay_of_lt ((decimalValue_lt hs).trans_le (le_decimalValue ht h0 hl))]
  · rw [if_neg (not_not.2 heq), compareUnits_eq hs ht heq]
  · rw [if_pos hg.ne', if_neg hg.not_gt,
      threeWay_of_gt ((decimalValue_lt ht).trans_le (le_decimalValue hs hs0 hg))]

/-! ### The loop -/

/-- Leading zeros do not change the number, nor where it ends. -/
theorem dropZeros (s : List UInt16) : decimalValue ((s.dropWhile (· = 0x30)).takeWhile isDigit) =
        decimalValue (s.takeWhile isDigit) ∧
      (s.dropWhile (· = 0x30)).dropWhile isDigit = s.dropWhile isDigit ∧
      ((s.dropWhile (· = 0x30)).takeWhile isDigit).head? ≠ some 0x30 := by
  induction s with
  | nil => simp
  | cons c s ih =>
    by_cases hc : c = 0x30
    · have hi : isDigit 0x30 := by decide
      rw [hc, dropWhile_cons_of_pos (by simp), takeWhile_cons_of_pos hi,
        dropWhile_cons_of_pos hi, decimalValue]
      simpa using ih
    · rw [dropWhile_cons_of_neg (by simp [hc])]
      refine ⟨rfl, rfl, ?_⟩
      by_cases hd : isDigit c
      · simp [hd, hc]
      · simp [hd]

theorem lowerUnit_of_isDigit {d : UInt16} (hc : isDigit c) (hd : ¬isDigit d) :
    lowerUnit c = c ∧ (lowerUnit d ≠ c) ∧
      (c < lowerUnit d ↔ 0x30 < (lowerUnit d).toNat) ∧ (lowerUnit d).toNat ≠ 0x30 := by
  rw [isDigit_iff] at hc hd
  have hl : lowerUnit c = c := by
    unfold lowerUnit
    rw [if_neg]
    simp only [le_iff_toNat_le]
    intro h
    have h41 : (0x41 : UInt16).toNat = 0x41 := rfl
    omega
  have hr : (lowerUnit d).toNat < 0x30 ∨ 0x39 < (lowerUnit d).toNat := by
    unfold lowerUnit
    split
    · next h =>
      simp only [le_iff_toNat_le] at h
      have ha : (d + 32).toNat = d.toNat + 32 := by
        rw [UInt16.toNat_add]
        have h5a : (0x5A : UInt16).toNat = 0x5A := rfl
        have h32 : (32 : UInt16).toNat = 32 := rfl
        omega
      have h41 : (0x41 : UInt16).toNat = 0x41 := rfl
      omega
    · omega
  refine ⟨hl, fun heq => ?_, ?_, by omega⟩
  · rw [heq] at hr
    omega
  · rw [lt_iff_toNat_lt]
    omega

theorem mem_takeWhile_isDigit : ∀ c ∈ s.takeWhile isDigit, isDigit c :=
  fun _ hc => mem_takeWhile_imp hc

theorem logicalKey_digit (s : List UInt16) (hc : isDigit c) :
    logicalKey (c :: s) =
      toLex (0x30, decimalValue (((c :: s).dropWhile (· = 0x30)).takeWhile isDigit)) ::
        logicalKey (((c :: s).dropWhile (· = 0x30)).dropWhile isDigit) := by
  obtain ⟨hv, hr, -⟩ := dropZeros (c :: s)
  rw [hv, hr, takeWhile_cons_of_pos hc, dropWhile_cons_of_pos hc, logicalKey, tokens, if_pos hc]
  rfl

theorem logicalKey_unit (s : List UInt16) (hc : ¬isDigit c) :
    logicalKey (c :: s) = toLex ((lowerUnit c).toNat, 0) :: logicalKey s := by
  rw [logicalKey, tokens, if_neg hc]
  rfl

theorem threeWay_toLex {m n : ℕ} (v w : ℕ) (h : m ≠ n) :
    threeWay (toLex (m, v)) (toLex (n, w)) = if m < n then -1 else 1 := by
  rw [threeWay_of_ne fun heq => h (congrArg Prod.fst (toLex_inj.1 heq))]
  simp [Prod.Lex.toLex_lt_toLex, h, false_and, or_false]

/-- The empty string comes first. -/
theorem logicalKey_pos (c : UInt16) (s : List UInt16) : logicalKey [] < logicalKey (c :: s) := by
  have hn : logicalKey [] = [] := by rw [logicalKey, tokens, map_nil]
  rw [hn]
  by_cases hc : isDigit c
  · rw [logicalKey_digit s hc]
    exact nil_lt_cons _ _
  · rw [logicalKey_unit s hc]
    exact nil_lt_cons _ _

theorem threeWay_units {d : UInt16} (s t : List UInt16) (h : ¬(isDigit c ∧ isDigit d)) :
    threeWay (logicalKey (c :: s)) (logicalKey (d :: t)) =
      if lowerUnit c ≠ lowerUnit d then if lowerUnit c < lowerUnit d then -1 else 1
      else threeWay (logicalKey s) (logicalKey t) := by
  have hf : ∀ {m n : ℕ} (v w : ℕ), m ≠ n → toLex (m, v) ≠ toLex (n, w) :=
    fun v w h heq => h (congrArg Prod.fst (toLex_inj.1 heq))
  by_cases hc : isDigit c
  · have hd : ¬isDigit d := fun hd => h ⟨hc, hd⟩
    obtain ⟨hcc, hn, hl, h3⟩ := lowerUnit_of_isDigit hc hd
    rw [logicalKey_digit s hc, logicalKey_unit t hd, threeWay_cons, if_neg (hf _ _ h3.symm),
      threeWay_toLex _ _ h3.symm, hcc, if_pos hn.symm]
    simp [hl]
  · rw [logicalKey_unit s hc]
    by_cases hd : isDigit d
    · obtain ⟨hdd, hn, hl, h3⟩ := lowerUnit_of_isDigit hd hc
      rw [logicalKey_digit t hd, threeWay_cons, if_neg (hf _ _ h3), threeWay_toLex _ _ h3, hdd,
        if_pos hn]
      have hi : lowerUnit c < d ↔ (lowerUnit c).toNat < 0x30 := by
        have hn' : (lowerUnit c).toNat ≠ d.toNat := fun heq => hn (UInt16.toNat_inj.1 heq)
        rw [lt_iff_toNat_lt] at hl ⊢
        omega
      simp [hi]
    · rw [logicalKey_unit t hd, threeWay_cons]
      by_cases heq : lowerUnit c = lowerUnit d
      · rw [heq, if_pos rfl, if_neg (not_not.2 rfl)]
      · have hn : (lowerUnit c).toNat ≠ (lowerUnit d).toNat := fun h => heq (UInt16.toNat_inj.1 h)
        rw [if_neg (hf _ _ hn), threeWay_toLex _ _ hn, if_pos heq]
        simp [lt_iff_toNat_lt]

/-- **The loop compares the tokens.** -/
theorem strCmpLoop_eq (s t : List UInt16) :
    strCmpLoop s t = threeWay (logicalKey s) (logicalKey t) := by
  have hp : StrictMono fun n : ℕ => toLex (0x30, n) := fun m n hl =>
    Prod.Lex.toLex_lt_toLex.2 (.inr ⟨rfl, hl⟩)
  fun_induction strCmpLoop s t with
  | case1 c s d t h s' t' r hn =>
    have hr : r = _ := compareNumbers_eq mem_takeWhile_isDigit mem_takeWhile_isDigit
      (dropZeros (c :: s)).2.2 (dropZeros (d :: t)).2.2
    rw [← threeWay_congr hp] at hr
    rw [logicalKey_digit s h.1, logicalKey_digit t h.2, threeWay_cons, if_neg, hr]
    intro heq
    rw [hr, heq, threeWay_self] at hn
    exact hn rfl
  | case2 c s d t h s' t' r hz ih =>
    have hr : r = _ := compareNumbers_eq mem_takeWhile_isDigit mem_takeWhile_isDigit
      (dropZeros (c :: s)).2.2 (dropZeros (d :: t)).2.2
    rw [not_not.1 hz] at hr
    rw [logicalKey_digit s h.1, logicalKey_digit t h.2, threeWay_cons, if_pos, ih]
    rw [threeWay_eq_zero.1 hr.symm]
  | case3 c s d t h hn hl => rw [threeWay_units s t h, if_pos hn, if_pos hl]
  | case4 c s d t h hn hl => rw [threeWay_units s t h, if_pos hn, if_neg hl]
  | case5 c s d t h hn ih => rw [threeWay_units s t h, if_neg hn, ih]
  | case6 c s => exact (threeWay_of_gt (logicalKey_pos c s)).symm
  | case7 d t => exact (threeWay_of_lt (logicalKey_pos d t)).symm
  | case8 => exact threeWay_self.symm

/-! ### The function -/

/-- A whole string of the guest that the function copies. -/
structure StringAt (memory : ℕ → List UInt16) (a : ℕ) (s : List UInt16) : Prop where
  holds : GuestPointer.Holds ⟨a, memory a⟩ (s ++ [terminator])
  inside : terminator ∉ s
  short : s.length < kMaxShlwapiStringUnits

theorem StringAt.copied {mem : ℕ → List UInt16} {a : ℕ} (h : StringAt mem a s) :
    copyGuestString ⟨a, mem a⟩ kMaxShlwapiStringUnits = some s :=
  copyGuestString_eq_some.2 ⟨h.holds.1, h.inside, h.short, h.holds.2⟩

theorem strCmpLogicalW_eq {mem : ℕ → List UInt16} {a b : ℕ}
    (ha : StringAt mem a s) (hb : StringAt mem b t) :
    strCmpLogicalW mem a b = threeWay (logicalKey s) (logicalKey t) := by
  have hca := ha.copied
  have hc := hb.copied
  unfold strCmpLogicalW
  split_ifs with heq h1 h2
  · subst heq
    rw [Option.some.inj (hca.symm.trans hc), threeWay_self]
  · exact absurd h1 ha.holds.1.1
  · exact absurd h2 hb.holds.1.1
  · rw [hca, hc]
    exact strCmpLoop_eq s t

/-- **Strings below the limit are compared as their lists of tokens, so that the sign is
that of a total preorder.** -/
theorem strCmpLogicalW_preorder (memory : ℕ → List UInt16) :
    (∀ a b s t, StringAt memory a s → StringAt memory b t →
      strCmpLogicalW memory a b = threeWay (logicalKey s) (logicalKey t) ∧
      strCmpLogicalW memory b a = -strCmpLogicalW memory a b) ∧
    ∀ a b c s t u, StringAt memory a s → StringAt memory b t → StringAt memory c u →
      strCmpLogicalW memory a b ≤ 0 → strCmpLogicalW memory b c ≤ 0 →
      strCmpLogicalW memory a c ≤ 0 := by
  constructor
  · intro a b s t ha hb
    refine ⟨strCmpLogicalW_eq ha hb, ?_⟩
    rw [strCmpLogicalW_eq hb ha, strCmpLogicalW_eq ha hb, threeWay_swap]
  · intro a b c s t u ha hb hc hab hbc
    rw [strCmpLogicalW_eq ha hb, threeWay_nonpos] at hab
    rw [strCmpLogicalW_eq hb hc, threeWay_nonpos] at hbc
    rw [strCmpLogicalW_eq ha hc, threeWay_nonpos]
    exact hab.trans hbc

/-- `"a2"` at 2, `"a10"` at 4 and `"B"` at 6. -/
def threeStrings : ℕ → List UInt16
  | 2 => [0x61, 0x32, 0]
  | 4 => [0x61, 0x31, 0x30, 0]
  | 6 => [0x42, 0]
  | _ => []

theorem threeStrings_at :
    StringAt threeStrings 2 [0x61, 0x32] ∧ StringAt threeStrings 4 [0x61, 0x31, 0x30] ∧
      StringAt threeStrings 6 [0x42] :=
  ⟨⟨⟨by decide, prefix_rfl⟩, by decide, by decide⟩, ⟨⟨by decide, prefix_rfl⟩, by decide, by decide⟩,
    ⟨⟨by decide, prefix_rfl⟩, by decide, by decide⟩⟩

theorem threeStrings_sorted : strCmpLogicalW threeStrings 4 2 = -strCmpLogicalW threeStrings 2 4 ∧
      strCmpLogicalW threeStrings 2 6 ≤ 0 := by
  obtain ⟨h2, h4, h6⟩ := threeStrings_at
  have hl : ∀ {a b s t}, StringAt threeStrings a s → StringAt threeStrings b t →
      strCmpLoop s t = -1 → strCmpLogicalW threeStrings a b ≤ 0 := by
    intro a b s t ha hb h
    rw [strCmpLogicalW_eq ha hb, ← strCmpLoop_eq, h]
    decide
  refine ⟨((strCmpLogicalW_preorder threeStrings).1 2 4 _ _ h2 h4).2,
    (strCmpLogicalW_preorder threeStrings).2 2 4 6 _ _ _ h2 h4 h6 (hl h2 h4 ?_) (hl h4 h6 ?_)⟩
  · simp [strCmpLoop, isDigit, lowerUnit, compareNumbers]
  · simp [strCmpLoop, isDigit, lowerUnit]

/-- `"b"` at 2, as many units as the limit at 4 and `"a"` at 6. -/
def longString : ℕ → List UInt16
  | 2 => [0x62, 0]
  | 4 => replicate kMaxShlwapiStringUnits 0x61 ++ [0]
  | 6 => [0x61, 0]
  | _ => []

theorem longString_inside : (terminator : UInt16) ∉ replicate kMaxShlwapiStringUnits 0x61 :=
  fun hm => absurd (eq_of_mem_replicate hm) (by decide)

theorem longString_not_copied :
    copyGuestString ⟨4, longString 4⟩ kMaxShlwapiStringUnits = none := by
  have hh : GuestPointer.Holds ⟨4, longString 4⟩
      (replicate kMaxShlwapiStringUnits 0x61 ++ terminator :: []) :=
    ⟨by decide, prefix_rfl⟩
  rw [copyGuestString_holds hh longString_inside, length_replicate, if_neg (lt_irrefl _)]

/-- **The order of all strings is not transitive: one of 4096 units is equal to all others.** -/
theorem not_strCmpLogicalW_preorder :
    ¬∀ (memory : ℕ → List UInt16) (a b c : ℕ) (s t u : List UInt16),
      GuestPointer.Holds ⟨a, memory a⟩ (s ++ [terminator]) → terminator ∉ s →
      GuestPointer.Holds ⟨b, memory b⟩ (t ++ [terminator]) → terminator ∉ t →
      GuestPointer.Holds ⟨c, memory c⟩ (u ++ [terminator]) → terminator ∉ u →
      strCmpLogicalW memory a b ≤ 0 → strCmpLogicalW memory b c ≤ 0 →
      strCmpLogicalW memory a c ≤ 0 := by
  intro h
  have h2 : StringAt longString 2 [0x62] := ⟨⟨by decide, prefix_rfl⟩, by decide, by decide⟩
  have h6 : StringAt longString 6 [0x61] := ⟨⟨by decide, prefix_rfl⟩, by decide, by decide⟩
  have hl := h longString 2 4 6 _ (replicate kMaxShlwapiStringUnits 0x61) _ h2.holds h2.inside
    ⟨by decide, prefix_rfl⟩ longString_inside h6.holds h6.inside
    (by simp [strCmpLogicalW, longString_not_copied])
    (by simp [strCmpLogicalW, longString_not_copied])
  rw [strCmpLogicalW_eq h2 h6, ← strCmpLoop_eq] at hl
  simp [strCmpLoop, isDigit, lowerUnit] at hl

end TradutorLinux.Shlwapi
