import TradutorLinux.Security.Acl
import TradutorLinux.Util.HexFields

/-!
# SIDs as texts

`ConvertSidToStringSidW` writes the numbers of a SID between dashes.  The way back reads
each of them as `std::stoul` does: behind white space and a sign, up to the first character
that is not a digit, and what does not fit the SID is cut off.

## Main definitions

* `convertSidToStringSid`, `convertStringSidToSid` — the two calls.
* `SidText` — a text as it is taken apart; `SidText.Readable`, what the code takes, and
  `SidText.Plain`, the texts of SIDs.

## Main results

* `parseStringSid_spelling`, `parseStringSid_inv` — what is accepted.
* `sid_strings`
-/

namespace TradutorLinux.Security

open List

/-! ### Numbers -/

/-- `std::isspace` in the C locale. -/
def isspace (c : UInt8) : Bool := c == 0x20 || (9 ≤ c && c ≤ 13)

def isDigit (base : ℕ) (c : UInt8) : Bool := (hexValue c).any (· < base)

/-- The number of the digits at the front; 0 without one. -/
def leadingNumber (base : ℕ) (s : ByteString) : ℕ :=
  Nat.ofDigits base ((s.takeWhile (isDigit base)).filterMap hexValue).reverse

/-- What `std::stoul` reads behind white space and a plus sign.  A minus sign cannot come: the
texts are what is between dashes. -/
def skipped (s : ByteString) : ByteString :=
  let s := s.dropWhile isspace
  if s.head? = some 0x2B then s.tail else s

/-- `std::stoul` and `std::stoull`, in base 10. -/
def stoul (s : ByteString) : Option ℕ :=
  if (skipped s).head?.any (isDigit 10) ∧ leadingNumber 10 (skipped s) < 2 ^ 64 then
    some (leadingNumber 10 (skipped s))
  else none

/-- `std::stoull` in base 16, of a text that begins with `0x`: without a digit behind it, its 0
is the number. -/
def stoullHex (s : ByteString) : Option ℕ :=
  if leadingNumber 16 (s.drop 2) < 2 ^ 64 then some (leadingNumber 16 (s.drop 2)) else none

/-- `std::to_string`. -/
def toDecimal (n : ℕ) : ByteString :=
  if n = 0 then [hexChar 0] else ((Nat.digits 10 n).map hexChar).reverse

/-! ### The calls -/

/-- The components between dashes; none behind a dash at the end. -/
def sidParts : ByteString → List ByteString
  | [] => []
  | c :: s =>
    if c = 0x2D then [] :: sidParts s
    else match sidParts s with
      | part :: parts => (c :: part) :: parts
      | [] => [[c]]

def parseAuthority (part : ByteString) : Option ByteString :=
  if text "0x" <+: part ∨ text "0X" <+: part then
    (stoullHex part).map fun value => (toLE 6 value).reverse
  else (stoul part).map fun value => [0, 0] ++ (toLE 4 value).reverse

/-- `parse_string_sid`. -/
def parseStringSid (s : ByteString) : Option ByteString :=
  if s.length < 4 ∨ (s.head? ≠ some 0x53 ∧ s.head? ≠ some 0x73) ∨ s[1]? ≠ some 0x2D then none
  else match sidParts (s.drop 2) with
    | revision :: part :: parts => do
      let revision ← stoul revision
      if revision ≠ 1 then none
      else
        let authority ← parseAuthority part
        if 15 < parts.length then none
        else
          let subAuthorities ← parts.mapM stoul
          return makeSid authority (subAuthorities.map UInt32.ofNat)
    | _ => none

/-- `tl_ConvertStringSidToSidW`, of a string; `copy_guest_wstring` takes 255 units at most. -/
def convertStringSidToSid (units : List UInt16) : Option ByteString :=
  if 255 < units.length ∨ units.any (127 < ·) then none
  else parseStringSid (units.map UInt16.toUInt8)

def readSubAuthorities : ℕ → ByteString → List ℕ
  | 0, _ => []
  | n + 1, s => ofLE (s.take 4) :: readSubAuthorities n (s.drop 4)

/-- The authority, in hexadecimal if it has more than 32 bits. -/
def authorityText (authority : ByteString) : ByteString :=
  if authority.take 2 = [0, 0] then toDecimal (ofLE (authority.drop 2).reverse)
  else text "0x" ++ encodeHex authority

/-- `tl_ConvertSidToStringSidW`, of the bytes that `copy_sid` gives. -/
def convertSidToStringSid (sid : ByteString) : List UInt16 :=
  let subs := readSubAuthorities (sid.getD 1 0).toNat (sid.drop sidHeaderSize)
  (text "S-" ++ toDecimal (sid.getD 0 0).toNat ++
    (authorityText (slice sid 2 6) :: subs.map toDecimal).flatMap (0x2D :: ·)).map UInt8.toUInt16

/-! ### What is read of what was written -/

variable {base n : ℕ} {s part pt pa : ByteString} {parts ps : List ByteString}

theorem isDigit_hexChar (h : n < base) (h' : n < 16) : isDigit base (hexChar n) := by
  simp [isDigit, hexValue_hexChar n h', h]

theorem leadingNumber_digits {ds : List ℕ} (h : ∀ d ∈ ds, d < base) (hb : base ≤ 16) :
    leadingNumber base (ds.map hexChar) = Nat.ofDigits base ds.reverse := by
  have h' : ∀ d ∈ ds, d < 16 := fun d hd => (h d hd).trans_le hb
  unfold leadingNumber
  rw [takeWhile_eq_self_iff.2, filterMap_hexValue h']
  intro c hc
  obtain ⟨d, hd, rfl⟩ := mem_map.1 hc
  exact isDigit_hexChar (h d hd) (h' d hd)

/-- A number of 32 bits, in decimal. -/
def IsDecimal (s : ByteString) : Prop :=
  s ≠ [] ∧ s.all (isDigit 10) ∧ leadingNumber 10 s < 2 ^ 32

theorem isDecimal_toDecimal (h : n < 2 ^ 32) :
    IsDecimal (toDecimal n) ∧ leadingNumber 10 (toDecimal n) = n := by
  obtain ⟨ds, hi, hl, hn, hv⟩ := exists_digits (b := 10) (by decide) n
  change toDecimal n = _ at hi
  have hv : leadingNumber 10 (toDecimal n) = n := by rw [hi, leadingNumber_digits hl (by decide), hv]
  refine ⟨⟨by simpa [hi] using hn, ?_, by rwa [hv]⟩, hv⟩
  rw [hi, all_eq_true]
  intro c hc
  obtain ⟨d, hd, rfl⟩ := mem_map.1 hc
  exact isDigit_hexChar (hl d hd) ((hl d hd).trans (by decide))

theorem plain_of_isDigit {c : UInt8} (h : isDigit 10 c) :
    isspace c = false ∧ c ≠ 0x2B ∧ (c < 0x80 ∧ c ≠ 0x2D) ∧ c ≠ 0x78 ∧ c ≠ 0x58 := by
  have hall : ∀ n : Fin 256, isDigit 10 (.ofNat n) → isspace (.ofNat n) = false ∧
      UInt8.ofNat n ≠ 0x2B ∧ (UInt8.ofNat n < 0x80 ∧ UInt8.ofNat n ≠ 0x2D) ∧
        UInt8.ofNat n ≠ 0x78 ∧ UInt8.ofNat n ≠ 0x58 := by decide +kernel
  have hc := hall ⟨c.toNat, c.toNat_lt⟩
  rw [UInt8.ofNat_toNat] at hc
  exact hc h

/-- **A number is read as it is written.** -/
theorem stoul_of_isDecimal (h : IsDecimal s) : stoul s = some (leadingNumber 10 s) := by
  obtain ⟨hn, hd, hl⟩ := h
  obtain ⟨c, r, rfl⟩ := exists_cons_of_ne_nil hn
  have hc : isDigit 10 c := all_eq_true.1 hd c mem_cons_self
  have hs : skipped (c :: r) = c :: r := by simp [skipped, plain_of_isDigit hc]
  unfold stoul
  rw [hs, if_pos ⟨by simpa using hc, hl.trans (by decide)⟩]

theorem sidParts_append (he : pa ≠ []) (hp : 0x2D ∉ pa)
    (hs : s = [] ∨ s.head? = some 0x2D) : sidParts (pa ++ s) = pa :: sidParts s.tail := by
  induction pa with
  | nil => exact absurd rfl he
  | cons c pa ih =>
    simp only [mem_cons, not_or] at hp
    rw [cons_append, sidParts, if_neg (Ne.symm hp.1)]
    by_cases hn : pa = []
    · subst hn
      rcases hs with rfl | hs
      · rfl
      · obtain ⟨t, rfl⟩ := head?_eq_some_iff.1 hs
        rfl
    · rw [ih hn hp.2]

/-- **The components are those that were put together**, also in front of one more dash. -/
theorem sidParts_flatMap (ha : ∀ p ∈ pt :: parts, p ≠ [] ∧ 0x2D ∉ p) (hs : s = [] ∨ s = [0x2D]) :
    sidParts (pt ++ parts.flatMap (0x2D :: ·) ++ s) = pt :: parts := by
  induction parts generalizing pt with
  | nil =>
    obtain ⟨hn, hr⟩ := ha pt mem_cons_self
    rw [flatMap_nil, append_nil]
    rcases hs with rfl | rfl
    · exact sidParts_append hn hr (.inl rfl)
    · exact sidParts_append hn hr (.inr rfl)
  | cons ne parts ih =>
    obtain ⟨hn, hr⟩ := ha pt mem_cons_self
    rw [append_assoc, sidParts_append hn hr (.inr rfl), flatMap_cons]
    exact congrArg (pt :: ·) (ih fun p hp => ha p (mem_cons_of_mem pt hp))

theorem eq_nil_of_sidParts (h : sidParts s = []) : s = [] := by
  cases s with
  | nil => rfl
  | cons c s =>
    unfold sidParts at h
    split at h
    · cases h
    · split at h
      all_goals cases h

/-- **A text is its components between dashes**, and a dash that may stand at the end. -/
theorem eq_of_sidParts (h : sidParts s = pt :: parts) : (∀ p ∈ pt :: parts, 0x2D ∉ p) ∧
    ∃ trailing, (trailing = [] ∨ trailing = [0x2D]) ∧
      s = pt ++ parts.flatMap (0x2D :: ·) ++ trailing := by
  induction s generalizing pt parts with
  | nil => cases h
  | cons c s ih =>
    unfold sidParts at h
    split at h
    · next hc =>
      obtain ⟨rfl, rfl⟩ := cons.inj h
      subst hc
      cases hp : sidParts s with
      | nil => exact ⟨by simp, [0x2D], .inr rfl, by rw [eq_nil_of_sidParts hp]; rfl⟩
      | cons q qs =>
        obtain ⟨hd, tr, ht, rfl⟩ := ih hp
        refine ⟨fun p hm => ?_, tr, ht, rfl⟩
        rcases mem_cons.1 hm with rfl | hm
        · simp
        · exact hd p hm
    · next hc =>
      split at h
      · next q qs hp =>
        obtain ⟨rfl, rfl⟩ := cons.inj h
        obtain ⟨hd, tr, ht, rfl⟩ := ih hp
        refine ⟨fun p hm => ?_, tr, ht, rfl⟩
        rcases mem_cons.1 hm with rfl | hm
        · exact fun hm => (mem_cons.1 hm).elim (Ne.symm hc) (hd q mem_cons_self)
        · exact hd p (mem_cons_of_mem q hm)
      · next hp =>
        obtain ⟨rfl, rfl⟩ := cons.inj h
        exact ⟨by simpa using Ne.symm hc, [], .inl rfl, by rw [eq_nil_of_sidParts hp]; rfl⟩

theorem readSubAuthorities_flatMap (ss : List UInt32) :
    readSubAuthorities ss.length (ss.flatMap fun sub => toLE 4 sub.toNat) =
      ss.map UInt32.toNat := by
  induction ss with
  | nil => rfl
  | cons sub ss ih =>
    have hl := length_toLE 4 sub.toNat
    rw [length_cons, readSubAuthorities, flatMap_cons, take_left' hl, drop_left' hl, ih,
      ofLE_toLE_of_lt sub.toNat_lt, map_cons]

/-- A component that is written, of at most so many characters. -/
def Component (most : ℕ) (part : ByteString) : Prop :=
  part ≠ [] ∧ (∀ c ∈ part, c < 0x80 ∧ c ≠ 0x2D) ∧ part.length ≤ most

theorem hexChar_ascii : ∀ d < 16, hexChar d < 0x80 ∧ hexChar d ≠ 0x2D := by decide

theorem component_toDecimal (h : n < 2 ^ 32) : Component 10 (toDecimal n) := by
  obtain ⟨hn, hd, -⟩ := (isDecimal_toDecimal h).1
  refine ⟨hn, fun c hc => (plain_of_isDigit (all_eq_true.1 hd c hc)).2.2.1, ?_⟩
  unfold toDecimal
  split
  · simp
  · have hl := (Nat.digits_length_le_iff (by decide) n).2 (h.trans (by decide : _ < 10 ^ 10))
    simpa using hl

theorem toLE_ofLE (bytes : ByteString) : toLE bytes.length (ofLE bytes) = bytes := by
  induction bytes with
  | nil => rfl
  | cons b bytes ih =>
    have hb : b.toNat < 256 := b.toNat_lt
    have hh : UInt8.ofNat (b.toNat + 256 * ofLE bytes) = b := by
      apply UInt8.toNat_inj.1
      simp
    have hr : (b.toNat + 256 * ofLE bytes) / 256 = ofLE bytes := by omega
    rw [ofLE, length_cons, toLE, hh, hr, ih]

theorem leadingNumber_encodeHex (bs : ByteString) :
    leadingNumber 16 (encodeHex bs) = ofLE bs.reverse := by
  have hi : encodeHex bs =
      (bs.flatMap fun b => [b.toNat / 16, b.toNat % 16]).map hexChar := by
    simp [encodeHex, map_flatMap]
  rw [hi, leadingNumber_digits _ (le_refl 16)]
  · clear hi
    induction bs with
    | nil => rfl
    | cons b bs ih =>
      have he : (bs.flatMap fun b => [b.toNat / 16, b.toNat % 16]).length =
          2 * bs.length := by simp [length_flatMap, mul_comm]
      have hl : ofLE (b :: bs).reverse =
          ofLE bs.reverse + 256 ^ bs.length * b.toNat := by simp [ofLE_append, ofLE]
      rw [flatMap_cons, reverse_append, Nat.ofDigits_append, ih, length_reverse, he, hl,
        pow_mul]
      congr 2
      simp [Nat.ofDigits_cons]
      omega
  · intro d hd
    obtain ⟨b, -, hb⟩ := mem_flatMap.1 hd
    have ht := b.toNat_lt
    rcases mem_cons.1 hb with rfl | hb
    · omega
    · cases mem_singleton.1 hb
      omega

/-- The component writes the number: in decimal, or in hexadecimal behind `0x`. -/
def WritesAuthority (n : ℕ) (part : ByteString) : Prop :=
  (IsDecimal part ∧ leadingNumber 10 part = n) ∨
    ∃ digits, part = text "0x" ++ digits ∧ digits ≠ [] ∧ digits.all (isDigit 16) ∧
      leadingNumber 16 digits = n ∧ n < 2 ^ 48

theorem not_hex_of_isDecimal (h : IsDecimal part) : ¬(text "0x" <+: part ∨ text "0X" <+: part) := by
  have hc := fun c hc => (plain_of_isDigit (all_eq_true.1 h.2.1 c hc)).2.2.2
  rintro (hx | hx)
  · exact (hc 0x78 (hx.subset (by decide))).1 rfl
  · exact (hc 0x58 (hx.subset (by decide))).2 rfl

theorem parseAuthority_of_writes (h : WritesAuthority n part) :
    parseAuthority part = some (toLE 6 n).reverse := by
  unfold parseAuthority
  rcases h with ⟨hd, rfl⟩ | ⟨digits, rfl, -, -, rfl, hn⟩
  · have hl := hd.2.2
    have hz : toLE 6 (leadingNumber 10 part) = toLE 4 (leadingNumber 10 part) ++ [0, 0] := by
      have h4 : leadingNumber 10 part / 256 / 256 / 256 / 256 = 0 := by omega
      simp [toLE, h4]
    rw [if_neg (not_hex_of_isDecimal hd), stoul_of_isDecimal hd, hz, reverse_append]
    rfl
  · have hm : (text "0x" ++ digits).drop 2 = digits := drop_left' (by decide)
    rw [if_pos (.inl (prefix_append ..)), stoullHex, hm, if_pos (hn.trans (by decide))]
    rfl

/-- **The text of an authority is one component, and gives it back.** -/
theorem parseAuthority_spec {authority : ByteString} (h : authority.length = 6) :
    WritesAuthority (ofLE authority.reverse) (authorityText authority) ∧
      Component 14 (authorityText authority) := by
  obtain ⟨a, b, c, d, e, f, rfl⟩ : ∃ a b c d e f, authority = [a, b, c, d, e, f] := by
    match authority, h with
    | [a, b, c, d, e, f], _ => exact ⟨a, b, c, d, e, f, rfl⟩
  unfold authorityText
  split
  · next hs =>
    have hl : ofLE [f, e, d, c] < 2 ^ 32 := (ofLE_lt [f, e, d, c]).trans_le (by norm_num)
    obtain ⟨hne, hc, hn⟩ := component_toDecimal hl
    obtain ⟨hd, hv⟩ := isDecimal_toDecimal hl
    simp only [take_succ_cons, take_zero, cons.injEq, and_true] at hs
    obtain ⟨rfl, rfl⟩ := hs
    refine ⟨.inl ⟨hd, hv.trans ?_⟩, hne, hc, hn.trans (by decide)⟩
    simp [ofLE]
  · have hv : leadingNumber 16 (encodeHex [a, b, c, d, e, f]) =
        ofLE [f, e, d, c, b, a] := leadingNumber_encodeHex [a, b, c, d, e, f]
    have hd : ∀ x ∈ encodeHex [a, b, c, d, e, f], isDigit 16 x ∧ x < 0x80 ∧ x ≠ 0x2D := by
      intro x hx
      obtain ⟨y, hy, hx⟩ := mem_flatMap.1 hx
      have hl := y.toNat_lt
      obtain ⟨v, hv, rfl⟩ : ∃ v < 16, x = hexChar v := by
        rcases mem_cons.1 hx with rfl | hx
        · exact ⟨_, by omega, rfl⟩
        · exact ⟨_, by omega, mem_singleton.1 hx⟩
      exact ⟨isDigit_hexChar hv hv, hexChar_ascii v hv⟩
    have hm : text "0x" = [0x30, 0x78] := by decide
    refine ⟨.inr ⟨_, rfl, by simp [encodeHex], all_eq_true.2 fun x hx => (hd x hx).1, hv,
      (ofLE_lt [f, e, d, c, b, a]).trans_le (by norm_num)⟩, ?_⟩
    rw [hm]
    refine ⟨by simp, fun x hx => ?_, by simp [encodeHex]⟩
    obtain rfl | rfl | hx : x = 0x30 ∨ x = 0x78 ∨ x ∈ encodeHex [a, b, c, d, e, f] := by
      simpa using hx
    · decide
    · decide
    · exact (hd x hx).2

/-! ### What is accepted -/

/-- A text as it is taken apart: a letter, the components, and what is behind the last of them. -/
structure SidText where
  letter : UInt8
  revision : ByteString
  authority : ByteString
  subAuthorities : List ByteString
  trailing : ByteString

namespace SidText

def spelling (t : SidText) : ByteString :=
  t.letter :: 0x2D :: (t.revision ++ (t.authority :: t.subAuthorities).flatMap (0x2D :: ·) ++
    t.trailing)

/-- What the code takes: numbers as `std::stoul` reads them, and a dash at the end. -/
structure Readable (t : SidText) : Prop where
  letter : t.letter = 0x53 ∨ t.letter = 0x73
  dashes : ∀ part ∈ t.revision :: t.authority :: t.subAuthorities, 0x2D ∉ part
  revision : stoul t.revision = some 1
  authority : (parseAuthority t.authority).isSome
  subAuthorities : ∀ part ∈ t.subAuthorities, (stoul part).isSome
  atMost : t.subAuthorities.length ≤ 15
  trailing : t.trailing = [] ∨ t.trailing = [0x2D]

/-- The texts of SIDs, and nothing else. -/
structure Plain (t : SidText) : Prop where
  letter : t.letter = 0x53
  revision : t.revision = [0x31]
  authority : ∃ n, WritesAuthority n t.authority
  subAuthorities : ∀ part ∈ t.subAuthorities, IsDecimal part
  trailing : t.trailing = []

/-- The SID of the numbers that are written. -/
def sid (t : SidText) (n : ℕ) : ByteString :=
  makeSid (toLE 6 n).reverse (t.subAuthorities.map fun part => .ofNat (leadingNumber 10 part))

end SidText

variable {t : SidText} {a si : ByteString} {ns : List ℕ} {units : List UInt16}

theorem ne_nil_of_stoul (h : (stoul part).isSome) : part ≠ [] := by
  rintro rfl
  revert h
  decide

theorem mapM_stoul (h : ∀ p ∈ ps, (stoul p).isSome) :
    ps.mapM stoul = some (ps.map fun p => (stoul p).getD 0) := by
  induction ps with
  | nil => rfl
  | cons p ps ih =>
    obtain ⟨n, hn⟩ := Option.isSome_iff_exists.1 (h p mem_cons_self)
    simp [hn, ih fun q hq => h q (mem_cons_of_mem p hq)]

theorem isSome_of_mapM_stoul (h : ps.mapM stoul = some ns) : ∀ p ∈ ps, (stoul p).isSome := by
  induction ps generalizing ns with
  | nil => simp
  | cons q ps ih =>
    simp only [mapM_cons, Option.bind_eq_bind, Option.bind_eq_some_iff] at h
    obtain ⟨n, hn, r, hr, -⟩ := h
    intro p hp
    rcases mem_cons.1 hp with rfl | hp
    · exact Option.isSome_of_eq_some hn
    · exact ih hr p hp

theorem SidText.Readable.components (h : t.Readable) :
    sidParts (t.spelling.drop 2) = t.revision :: t.authority :: t.subAuthorities := by
  refine sidParts_flatMap (fun p hp => ⟨?_, h.dashes p hp⟩) h.trailing
  rcases mem_cons.1 hp with rfl | hp
  · exact ne_nil_of_stoul (Option.isSome_of_eq_some h.revision)
  rcases mem_cons.1 hp with rfl | hp
  · intro hn
    have ha := h.authority
    rw [hn] at ha
    revert ha
    decide
  · exact ne_nil_of_stoul (h.subAuthorities p hp)

/-- **What can be read is accepted.** -/
theorem parseStringSid_spelling (h : t.Readable) (ha : parseAuthority t.authority = some a) :
    parseStringSid t.spelling =
      some (makeSid a (t.subAuthorities.map fun p => .ofNat ((stoul p).getD 0))) := by
  have hr : t.revision ≠ [] := ne_nil_of_stoul (Option.isSome_of_eq_some h.revision)
  have hl : 0 < t.revision.length := length_pos_of_ne_nil hr
  unfold parseStringSid
  rw [if_neg, h.components]
  · simp [h.revision, ha, mapM_stoul h.subAuthorities, Nat.not_lt.2 h.atMost, Function.comp_def]
  · have hle := h.letter
    simp [SidText.spelling]
    refine ⟨by omega, fun hn => ?_⟩
    exact hle.resolve_left hn

/-- **Nothing else is.** -/
theorem parseStringSid_inv (h : parseStringSid s = some si) :
    ∃ t : SidText, t.Readable ∧ t.spelling = s := by
  unfold parseStringSid at h
  split at h
  · cases h
  next hh =>
  rw [not_or, not_or, not_not] at hh
  obtain ⟨-, hl, hd⟩ := hh
  match s, hd with
  | c :: _ :: s, hd =>
    obtain rfl := Option.some.inj hd
    split at h
    · next r pa ps hpa =>
      simp only [Option.bind_eq_bind, Option.bind_eq_some_iff, Option.ite_none_left_eq_some] at h
      obtain ⟨n, hr, ho, a, ha, hf, ns, hs, -⟩ := h
      obtain ⟨hdash, tr, ht, heq⟩ := eq_of_sidParts (s := s) hpa
      refine ⟨⟨c, r, pa, ps, tr⟩, ⟨?_, hdash, ?_, Option.isSome_of_eq_some ha,
        isSome_of_mapM_stoul hs, not_lt.1 hf, ht⟩, by rw [SidText.spelling, heq]⟩
      · simpa [or_iff_not_imp_left] using hl
      · rw [hr, not_not.1 ho]
    · cases h

/-- **A text that is written plainly is read as the numbers that it writes.** -/
theorem parseStringSid_plain (h : t.Readable) (hp : t.Plain) (hn : WritesAuthority n t.authority) :
    parseStringSid t.spelling = some (t.sid n) := by
  rw [parseStringSid_spelling h (parseAuthority_of_writes hn), SidText.sid]
  congr 2
  refine map_congr_left fun p hm => ?_
  rw [stoul_of_isDecimal (hp.subAuthorities p hm)]
  rfl

/-! ### SIDs -/

/-- A SID: an authority of 48 bits, and at most 15 sub-authorities. -/
structure Sid where
  authority : ByteString
  subAuthorities : List UInt32
  length_authority : authority.length = 6
  length_le : subAuthorities.length ≤ 15

def Sid.bytes (sid : Sid) : ByteString := makeSid sid.authority sid.subAuthorities

def Sid.written (sid : Sid) : SidText where
  letter := 0x53
  revision := [0x31]
  authority := authorityText sid.authority
  subAuthorities := sid.subAuthorities.map fun sub => toDecimal sub.toNat
  trailing := []

theorem convertSidToStringSid_bytes (si : Sid) :
    convertSidToStringSid si.bytes = si.written.spelling.map UInt8.toUInt16 := by
  have hf := si.length_le
  have hc : (UInt8.ofNat si.subAuthorities.length).toNat = si.subAuthorities.length := by
    rw [UInt8.toNat_ofNat', Nat.mod_eq_of_lt (by omega)]
  have ha : slice si.bytes 2 6 = si.authority := by
    simp [slice, Sid.bytes, makeSid, ← si.length_authority]
  have hs : si.bytes.drop sidHeaderSize =
      si.subAuthorities.flatMap fun sub => toLE 4 sub.toNat := by
    simp [Sid.bytes, makeSid, sidHeaderSize, ← si.length_authority]
  have ho : text "S-" ++ toDecimal (kSidRevision).toNat = [0x53, 0x2D, 0x31] := by decide
  have he : si.bytes.getD 1 0 = .ofNat si.subAuthorities.length := rfl
  unfold convertSidToStringSid
  dsimp only
  rw [ha, hs, he, hc, readSubAuthorities_flatMap, map_map]
  refine congrArg (map _) ((congrArg (· ++ _) ho).trans ?_)
  simp [SidText.spelling, Sid.written, Function.comp_def]

theorem Sid.component_mem (si : Sid) :
    ∀ part ∈ si.written.authority :: si.written.subAuthorities, Component 14 part := by
  intro part hp
  rcases mem_cons.1 hp with rfl | hp
  · exact (parseAuthority_spec si.length_authority).2
  · obtain ⟨sub, -, rfl⟩ := mem_map.1 hp
    obtain ⟨hn, hc, hl⟩ := component_toDecimal sub.toNat_lt
    exact ⟨hn, hc, hl.trans (by decide)⟩

theorem Sid.plain_written (si : Sid) : si.written.Plain := by
  refine ⟨rfl, rfl, ⟨_, (parseAuthority_spec si.length_authority).1⟩, fun part hp => ?_, rfl⟩
  obtain ⟨sub, -, rfl⟩ := mem_map.1 hp
  exact (isDecimal_toDecimal sub.toNat_lt).1

theorem Sid.readable_written (si : Sid) : si.written.Readable := by
  have ha := parseAuthority_of_writes (parseAuthority_spec si.length_authority).1
  have ho : stoul [0x31] = some 1 := by decide
  refine ⟨.inl rfl, fun part hp hd => ?_, ho, Option.isSome_of_eq_some ha,
    fun part hp => ?_, by simpa [Sid.written] using si.length_le, .inl rfl⟩
  · rcases mem_cons.1 hp with rfl | hp
    · cases mem_singleton.1 hd
    · exact ((si.component_mem part hp).2.1 _ hd).2 rfl
  · exact Option.isSome_of_eq_some (stoul_of_isDecimal (si.plain_written.subAuthorities part hp))

theorem Sid.sid_written (si : Sid) : si.written.sid (ofLE si.authority.reverse) = si.bytes := by
  have ha : (toLE 6 (ofLE si.authority.reverse)).reverse = si.authority := by
    rw [← si.length_authority, ← length_reverse, toLE_ofLE, reverse_reverse]
  have hs : ∀ sub : UInt32, UInt32.ofNat (leadingNumber 10 (toDecimal sub.toNat)) = sub :=
    fun sub => by rw [(isDecimal_toDecimal sub.toNat_lt).2, UInt32.ofNat_toNat]
  simp [SidText.sid, Sid.bytes, ha, Sid.written, Function.comp_def, hs]

theorem length_flatMap_dash {ps : List ByteString} (h : ∀ pa ∈ ps, Component 14 pa) :
    (ps.flatMap (0x2D :: ·)).length ≤ 15 * ps.length := by
  induction ps with
  | nil => simp
  | cons pa ps ih =>
    have ha := (h pa mem_cons_self).2.2
    have hr := ih fun p hp => h p (mem_cons_of_mem pa hp)
    simp only [flatMap_cons, length_append, length_cons]
    omega

/-- What `copy_guest_wstring` and the loop over the units let through. -/
def Copied (units : List UInt16) : Prop := units.length ≤ 255 ∧ ∀ u ∈ units, u ≤ 127

theorem convertStringSidToSid_copied (h : Copied units) :
    convertStringSidToSid units = parseStringSid (units.map UInt16.toUInt8) := by
  refine if_neg ?_
  rintro (hl | hu)
  · exact absurd h.1 (Nat.not_le.2 hl)
  · obtain ⟨u, hm, hlt⟩ := any_eq_true.1 hu
    exact absurd (h.2 u hm) (UInt16.not_le.2 (of_decide_eq_true hlt))

theorem copied_of_some (h : convertStringSidToSid units = some si) : Copied units := by
  unfold convertStringSidToSid at h
  split at h
  · cases h
  next hn =>
  rw [not_or] at hn
  refine ⟨not_lt.1 hn.1, fun u hu => UInt16.not_lt.1 fun hlt => hn.2 ?_⟩
  exact any_eq_true.2 ⟨u, hu, decide_eq_true hlt⟩

theorem Sid.copied_written (si : Sid) : Copied (si.written.spelling.map UInt8.toUInt16) := by
  have hc := si.component_mem
  have hn := length_flatMap_dash hc
  have hf := si.length_le
  have hco : si.written.subAuthorities.length = si.subAuthorities.length := length_map ..
  constructor
  · have hl : si.written.spelling.length = 3 +
        ((si.written.authority :: si.written.subAuthorities).flatMap (0x2D :: ·)).length := by
      rw [SidText.spelling, show si.written.revision = [0x31] from rfl,
        show si.written.trailing = [] from rfl]
      simp only [length_cons, length_append, length_nil]
      omega
    rw [length_map, hl]
    rw [length_cons] at hn
    omega
  · intro u hu
    obtain ⟨c, hm, rfl⟩ := mem_map.1 hu
    have hs : c < 0x80 := by
      obtain rfl | rfl | rfl | ⟨part, hp, rfl | hm⟩ : c = 0x53 ∨ c = 0x2D ∨ c = 0x31 ∨
          ∃ part ∈ si.written.authority :: si.written.subAuthorities, c = 0x2D ∨ c ∈ part := by
        simpa only [SidText.spelling, Sid.written, mem_cons, mem_append, mem_flatMap, cons_append,
          nil_append, append_nil] using hm
      · decide
      · decide
      · decide
      · decide
      · exact ((hc part hp).2.1 c hm).1
    have he := UInt8.lt_iff_toNat_lt.1 hs
    rw [UInt16.le_iff_toNat_le]
    simp at he ⊢
    omega

/-- **The text of a SID gives it back.** -/
theorem convertStringSidToSid_convertSidToStringSid (si : Sid) :
    convertStringSidToSid (convertSidToStringSid si.bytes) = some si.bytes := by
  have hm : (si.written.spelling.map UInt8.toUInt16).map UInt16.toUInt8 =
      si.written.spelling := by simp [Function.comp_def]
  rw [convertSidToStringSid_bytes, convertStringSidToSid_copied si.copied_written, hm,
    parseStringSid_plain si.readable_written si.plain_written
      (parseAuthority_spec si.length_authority).1, si.sid_written]

/-! ### Where only the texts of SIDs are accepted -/

/-- What is to be accepted: texts of SIDs alone, each for the numbers that it writes, which fit
the SID. -/
def AcceptsSids (units : List UInt16) : Prop :=
  ∀ si, convertStringSidToSid units = some si → ∃ (t : SidText) (n : ℕ),
    units.map UInt16.toUInt8 = t.spelling ∧ t.Plain ∧ WritesAuthority n t.authority ∧
      si = t.sid n

/-- What can be read in the units is written plainly. -/
def ReadsPlain (units : List UInt16) : Prop :=
  Copied units → ∀ t : SidText, t.Readable → t.spelling = units.map UInt16.toUInt8 → t.Plain

theorem SidText.Plain.components (h : t.Plain) :
    sidParts (t.spelling.drop 2) = t.revision :: t.authority :: t.subAuthorities := by
  have hd : ∀ {p}, IsDecimal p → p ≠ [] ∧ 0x2D ∉ p := fun {p} hp =>
    ⟨hp.1, fun hm => (plain_of_isDigit (all_eq_true.1 hp.2.1 _ hm)).2.2.1.2 rfl⟩
  refine sidParts_flatMap (fun p hp => ?_) (.inl h.trailing)
  rcases mem_cons.1 hp with rfl | hp
  · rw [h.revision]
    decide
  rcases mem_cons.1 hp with rfl | hp
  · obtain ⟨n, hp | ⟨digits, heq, -, hx, -⟩⟩ := h.authority
    · exact hd hp.1
    · have hm : text "0x" = [0x30, 0x78] := by decide
      rw [heq, hm]
      refine ⟨by simp, fun hmem => ?_⟩
      have hin : (0x2D : UInt8) ∈ digits := by simpa using hmem
      have hno := all_eq_true.1 hx _ hin
      revert hno
      decide
  · exact hd (h.subAuthorities p hp)

theorem SidText.Plain.of_spelling {t' : SidText} (h : t.Plain) (h' : t'.Readable)
    (heq : t'.spelling = t.spelling) : t'.Plain := by
  have hc := h'.components
  rw [heq, h.components] at hc
  obtain ⟨hr, hc⟩ := cons.inj hc
  obtain ⟨ha, hs⟩ := cons.inj hc
  obtain ⟨hl, hrest⟩ := cons.inj heq
  have ht : t'.trailing = t.trailing := by
    have hsame := (cons.inj hrest).2
    rw [hr, ha, hs] at hsame
    exact append_cancel_left hsame
  exact ⟨hl.trans h.letter, hr ▸ h.revision, ha ▸ h.authority, hs ▸ h.subAuthorities,
    ht.trans h.trailing⟩

/-- **A SID comes back from its text; and only the texts of SIDs are accepted, exactly where what
can be read is written plainly.** -/
theorem sid_strings (sid : Sid) (units : List UInt16) :
    convertStringSidToSid (convertSidToStringSid sid.bytes) = some sid.bytes ∧
      (AcceptsSids units ↔ ReadsPlain units) := by
  refine ⟨convertStringSidToSid_convertSidToStringSid sid, fun h hc t ht heq => ?_,
    fun h si hs => ?_⟩
  · obtain ⟨a, ha⟩ := Option.isSome_iff_exists.1 ht.authority
    obtain ⟨t', n, hsp, hp, -⟩ := h _ <| by
      rw [convertStringSidToSid_copied hc, ← heq, parseStringSid_spelling ht ha]
    exact hp.of_spelling ht (heq.trans hsp)
  · have hc := copied_of_some hs
    rw [convertStringSidToSid_copied hc] at hs
    obtain ⟨t, ht, heq⟩ := parseStringSid_inv hs
    have hp := h hc t ht heq
    obtain ⟨n, hn⟩ := hp.authority
    refine ⟨t, n, heq.symm, hp, hn, ?_⟩
    rw [← heq, parseStringSid_plain ht hp hn] at hs
    exact (Option.some.inj hs).symm

/-- Two different numbers give one SID, and a small letter, a sign and white space are accepted. -/
theorem not_sid_strings : ¬AcceptsSids ((text "S-1-5-4294967296").map UInt8.toUInt16) ∧
    convertStringSidToSid ((text "S-1-5-4294967296").map UInt8.toUInt16) =
      convertStringSidToSid ((text "s-1-5- +0x-").map UInt8.toUInt16) := by
  refine ⟨fun h => ?_, by decide +kernel⟩
  obtain ⟨t, -, heq, hp, -⟩ := h (makeSid [0, 0, 0, 0, 0, 5] [0]) (by decide +kernel)
  have hc := hp.components
  rw [← heq, show sidParts _ = [text "1", text "5", text "4294967296"] by decide +kernel] at hc
  obtain ⟨-, hc⟩ := cons.inj hc
  have hd := (hp.subAuthorities (text "4294967296") (by simp [← (cons.inj hc).2])).2.2
  revert hd
  decide +kernel

end TradutorLinux.Security
