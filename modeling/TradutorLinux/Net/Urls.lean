import TradutorLinux.Net.InternetSlots
import TradutorLinux.Security.SidStrings

/-!
# URLs

`parse_url` of `wininet.cpp` takes a URL apart with searches for its separators.

## Main definitions

* `parseUrl` — the function.
* `Url`, `Url.spelling` — the parts as they are written, and the text they make.
* `Url.Spelled` — what the parts are made of.
* `ParsedUrl.recomposed` — the text of what was parsed, with its port.

## Main results

* `parseUrl_spelling`, `parseUrl_inv`, `parsesUrl_iff`
-/

namespace TradutorLinux.WinInet

open List
open TradutorLinux.Security (isDigit leadingNumber toDecimal)

structure ParsedUrl where
  scheme : ByteString
  host : ByteString
  port : ℕ
  path : ByteString
  extra : ByteString
  deriving DecidableEq

/-- What is before the first `://`, and what is behind it. -/
def splitScheme : ByteString → Option (ByteString × ByteString)
  | [] => none
  | c :: s =>
    if [0x3A, 0x2F, 0x2F].isPrefixOf (c :: s) then some ([], s.drop 2)
    else (splitScheme s).map fun p => (c :: p.1, p.2)

/-- `std::from_chars` of an `unsigned int`: the number, and what is behind its digits. -/
def fromChars (s : ByteString) : Option (ℕ × ByteString) :=
  if s.takeWhile (isDigit 10) = [] ∨ 2 ^ 32 ≤ leadingNumber 10 s then none
  else some (leadingNumber 10 s, s.dropWhile (isDigit 10))

def parsePort : ByteString → Option ℕ
  | [] => some 443
  | _ :: portText =>
    match fromChars portText with
    | some (port, []) => if port = 0 ∨ 65535 < port then none else some port
    | _ => none

def parseUrl (input : ByteString) : Option ParsedUrl :=
  if input.length = 0 ∨ kMaxUrlLength < input.length ∨ 0x23 ∈ input then none
  else
    match splitScheme input with
    | none => none
    | some (scheme, authorityAndPath) =>
      if lowerAscii scheme ≠ text "https" then none
      else
        let authority := authorityAndPath.takeWhile fun c => c ≠ 0x2F && c ≠ 0x3F
        let suffix := authorityAndPath.dropWhile fun c => c ≠ 0x2F && c ≠ 0x3F
        let colons := 1 < authority.count 0x3A
        -- the first two conditions reject nothing by themselves
        if (authority = [] ∨ 0x40 ∈ authority ∨ colons) ∧ colons then none
        else
          match parsePort (authority.dropWhile (· ≠ 0x3A)) with
          | none => none
          | some port =>
            let path := suffix.takeWhile (· ≠ 0x3F)
            let path := if path = [] then [0x2F] else path
            if path.head? ≠ some 0x2F then none
            else some { scheme := lowerAscii scheme
                        host := lowerAscii (authority.takeWhile (· ≠ 0x3A))
                        port := port
                        path := path
                        extra := suffix.dropWhile (· ≠ 0x3F) }

/-! ### Spelling -/

/-- The parts of a URL. -/
structure Url where
  scheme : ByteString
  host : ByteString
  port : Option ByteString
  path : ByteString
  query : ByteString

namespace Url

def portPart (u : Url) : ByteString := u.port.elim [] (0x3A :: ·)

def spelling (u : Url) : ByteString :=
  u.scheme ++ [0x3A, 0x2F, 0x2F] ++ (u.host ++ u.portPart ++ (u.path ++ u.query))

/-- A decimal number of 1 to 65535. -/
def IsPort (p : ByteString) : Prop :=
  p ≠ [] ∧ (∀ c ∈ p, isDigit 10 c = true) ∧ 0 < leadingNumber 10 p ∧ leadingNumber 10 p ≤ 65535

/-- `https://host[:port][/path][?query]`. -/
structure Spelled (u : Url) : Prop where
  scheme : lowerAscii u.scheme = text "https"
  host : ∀ c ∈ u.host, c ≠ 0x2F ∧ c ≠ 0x3F ∧ c ≠ 0x3A
  port : ∀ p ∈ u.port, IsPort p
  path : u.path = [] ∨ u.path.head? = some 0x2F
  noQuery : 0x3F ∉ u.path
  query : u.query = [] ∨ u.query.head? = some 0x3F
  noFragment : 0x23 ∉ u.spelling
  short : u.spelling.length ≤ kMaxUrlLength

def parsed (u : Url) : ParsedUrl where
  scheme := lowerAscii u.scheme
  host := lowerAscii u.host
  port := u.port.elim 443 (leadingNumber 10)
  path := if u.path = [] then [0x2F] else u.path
  extra := u.query

end Url

/-- `scheme + "://" + host + ":" + port + path + extra`. -/
def ParsedUrl.recomposed (r : ParsedUrl) : ByteString :=
  r.scheme ++ [0x3A, 0x2F, 0x2F] ++ (r.host ++ 0x3A :: toDecimal r.port ++ (r.path ++ r.extra))

/-! ### What is accepted -/

variable {u : Url} {r : ParsedUrl} {input i s t : ByteString} {p : UInt8 → Bool}

theorem span_append (hs : ∀ c ∈ s, p c) (ht : ∀ c ∈ t.head?, p c = false) :
    (s ++ t).takeWhile p = s ∧ (s ++ t).dropWhile p = t := by
  rw [takeWhile_append_of_pos hs, dropWhile_append_of_pos hs]
  cases t with
  | nil => simp
  | cons c t => simp [ht c (by simp)]

theorem splitScheme_append (hs : 0x3A ∉ s) :
    splitScheme (s ++ [0x3A, 0x2F, 0x2F] ++ t) = some (s, t) := by
  induction s with
  | nil => simp [splitScheme]
  | cons c s ih =>
    obtain ⟨hc, hs⟩ := not_or.1 (mt mem_cons.2 hs)
    have hn : ¬(0x3A == c) := by simpa using hc
    simp only [cons_append, splitScheme, isPrefixOf, hn, Bool.false_and, Bool.false_eq_true,
      if_false, append_assoc] at ih ⊢
    rw [ih hs]
    rfl

theorem splitScheme_eq_some : splitScheme i = some (s, t) → i = s ++ [0x3A, 0x2F, 0x2F] ++ t := by
  induction i generalizing s with
  | nil => simp [splitScheme]
  | cons c i ih =>
    intro h
    unfold splitScheme at h
    split_ifs at h with hp
    · obtain ⟨re, hr⟩ := isPrefixOf_iff_prefix.1 hp
      obtain ⟨rfl, rfl⟩ := Prod.mk.inj (Option.some.inj h)
      simp only [cons_append, cons.injEq, nil_append] at hr ⊢
      simp [← hr.1, ← hr.2]
    · obtain ⟨⟨s', t'⟩, hi, heq⟩ := Option.map_eq_some_iff.1 h
      obtain ⟨rfl, rfl⟩ := Prod.mk.inj heq
      rw [ih hi]
      rfl

theorem isDigit_ne {c : UInt8} (hc : isDigit 10 c) : c ≠ 0x2F ∧ c ≠ 0x3F ∧ c ≠ 0x3A ∧ c ≠ 0x23 := by
  refine ⟨?_, ?_, ?_, ?_⟩
  all_goals
    rintro rfl
    revert hc
    decide

theorem parsePort_portPart (h : ∀ p ∈ u.port, Url.IsPort p) :
    parsePort u.portPart = some (u.port.elim 443 (leadingNumber 10)) := by
  unfold Url.portPart
  cases hp : u.port with
  | none => rfl
  | some p =>
    obtain ⟨hn, hd, ho, hl⟩ := h p hp
    have ha := takeWhile_eq_self_iff.2 hd
    have hr := dropWhile_eq_nil_iff.2 hd
    simp only [Option.elim, parsePort, fromChars, ha, hr, hn, false_or]
    rw [if_neg (by omega)]
    exact if_neg (by omega)

theorem portPart_of_parsePort {n : ℕ} (h : parsePort s = some n) (hs : ∀ c ∈ s.head?, c = 0x3A) :
    ∃ po : Option ByteString, s = po.elim [] (0x3A :: ·) ∧ (∀ p ∈ po, Url.IsPort p) ∧
      n = po.elim 443 (leadingNumber 10) := by
  cases s with
  | nil =>
    obtain rfl := Option.some.inj h
    exact ⟨none, rfl, by simp, rfl⟩
  | cons c t =>
    obtain rfl := hs c rfl
    rw [parsePort] at h
    split at h
    · next m hf =>
      unfold fromChars at hf
      split_ifs at hf h with hd hm
      obtain ⟨rfl, hr⟩ := Prod.mk.inj (Option.some.inj hf)
      have hdigits := dropWhile_eq_nil_iff.1 hr
      rw [takeWhile_eq_self_iff.2 hdigits] at hd
      refine ⟨some t, rfl, ?_, (Option.some.inj h).symm⟩
      rintro p ⟨⟩
      exact ⟨fun heq => hd (.inl heq), hdigits, by omega, by omega⟩
    · cases h

theorem not_of_head?_dropWhile {c : UInt8} (h : c ∈ (s.dropWhile p).head?) : p c = false := by
  have hnot := head?_dropWhile_not p s
  rwa [Option.mem_def.1 h] at hnot

theorem count_portPart (h : ∀ p ∈ u.port, Url.IsPort p) :
    (∀ c ∈ u.portPart, c ≠ 0x2F ∧ c ≠ 0x3F) ∧ u.portPart.count 0x3A ≤ 1 := by
  unfold Url.portPart
  cases hp : u.port with
  | none => simp
  | some p =>
    have hd := fun c hc => isDigit_ne ((h p hp).2.1 c hc)
    have ho : p.count 0x3A = 0 := count_eq_zero.2 fun hc => (hd _ hc).2.2.1 rfl
    simp only [Option.elim, count_cons_self, ho, mem_cons]
    refine ⟨?_, le_refl 1⟩
    rintro c (rfl | hc)
    · decide
    · exact ⟨(hd c hc).1, (hd c hc).2.1⟩

theorem colon_notMem_scheme (h : lowerAscii s = text "https") : 0x3A ∉ s := by
  intro hm
  have hl : 0x3A ∈ lowerAscii s := mem_map.2 ⟨0x3A, hm, by decide⟩
  rw [h] at hl
  revert hl
  decide +kernel

theorem Url.Spelled.parsed_path (h : u.Spelled) :
    u.parsed.path.head? = some 0x2F ∧ ∀ c ∈ u.parsed.path, c = 0x2F ∨ c ∈ u.path := by
  unfold Url.parsed
  rcases h.path with hp | hp
  · simp [hp]
  · rw [if_neg fun heq => by simp [heq] at hp]
    exact ⟨hp, fun c hc => .inr hc⟩

/-- **What is spelled as a URL is accepted.** -/
theorem parseUrl_spelling (h : u.Spelled) : parseUrl u.spelling = some u.parsed := by
  obtain ⟨hr, ht⟩ := count_portPart h.port
  have ha := span_append (p := fun c => c ≠ 0x2F && c ≠ 0x3F)
    (s := u.host ++ u.portPart) (t := u.path ++ u.query)
    (fun c hc => by
      rcases mem_append.1 hc with hc | hc
      · simp [(h.host c hc).1, (h.host c hc).2.1]
      · simp [hr c hc])
    (fun c hc => by
      rcases h.path with hp | hp
      · rcases h.query with hq | hq
        · simp [hp, hq] at hc
        · simp_all
      · simp_all)
  have ho := span_append (p := (· ≠ 0x3A)) (s := u.host) (t := u.portPart)
    (fun c hc => by simp [h.host c hc])
    (fun c hc => by
      unfold Url.portPart at hc
      cases hp : u.port with
      | none => simp [hp] at hc
      | some p => simp_all)
  have hpa := span_append (p := (· ≠ 0x3F)) (s := u.path) (t := u.query) (fun c hc => by
      simp only [decide_eq_true_eq]
      exact fun heq => h.noQuery (heq ▸ hc))
    (fun c hc => by
      rcases h.query with hq | hq
      · simp [hq] at hc
      · simp_all)
  have hcolons : ¬1 < (u.host ++ u.portPart).count 0x3A := by
    rw [count_append, count_eq_zero.2 fun hc => (h.host _ hc).2.2 rfl]
    omega
  have hl : u.spelling.length ≠ 0 := by simp [Url.spelling]
  unfold parseUrl
  rw [if_neg (by simp [hl, h.short, h.noFragment]), Url.spelling,
    splitScheme_append (colon_notMem_scheme h.scheme)]
  have hh := h.parsed_path.1
  simp only [Url.parsed] at hh
  simp only [h.scheme, ne_eq, not_true, if_false, ha, hcolons, and_false, ho, hpa,
    parsePort_portPart h.port, hh, Url.parsed]

/-- **Nothing else is.** -/
theorem parseUrl_inv (h : parseUrl input = some r) :
    ∃ u : Url, u.Spelled ∧ u.spelling = input ∧ u.parsed = r := by
  unfold parseUrl at h
  split at h
  · cases h
  next hi =>
  simp only [not_or] at hi
  split at h
  · cases h
  next sc re hs =>
  split at h
  · cases h
  next hsc =>
  dsimp only at h
  generalize ha : re.takeWhile (fun c => c ≠ 0x2F && c ≠ 0x3F) = authority at h
  generalize hf : re.dropWhile (fun c => c ≠ 0x2F && c ≠ 0x3F) = suffix at h
  split at h
  · cases h
  split at h
  · cases h
  next n ho =>
  obtain ⟨po, hr, hpo, rfl⟩ := portPart_of_parsePort ho fun c hc => by
    simpa using not_of_head?_dropWhile hc
  generalize hp : (if suffix.takeWhile (· ≠ 0x3F) = [] then [0x2F]
    else suffix.takeWhile (· ≠ 0x3F)) = path at h
  split at h
  · cases h
  next hh =>
  obtain rfl := Option.some.inj h
  have hspelling : Url.spelling ⟨sc, authority.takeWhile (· ≠ 0x3A), po,
      suffix.takeWhile (· ≠ 0x3F), suffix.dropWhile (· ≠ 0x3F)⟩ = input := by
    rw [Url.spelling, Url.portPart, ← hr, takeWhile_append_dropWhile, takeWhile_append_dropWhile,
      ← ha, ← hf, takeWhile_append_dropWhile, splitScheme_eq_some hs]
  refine ⟨_, ⟨not_not.1 hsc, ?_, hpo, ?_, ?_, ?_, ?_, ?_⟩, hspelling, by rw [Url.parsed, hp]⟩
  · intro c hc
    have hm : c ∈ authority := takeWhile_subset _ hc
    rw [← ha] at hm
    have hnot := mem_takeWhile_imp hm
    have hl := mem_takeWhile_imp hc
    simp_all
  · rw [not_not, ← hp] at hh
    by_cases hn : suffix.takeWhile (· ≠ 0x3F) = []
    · exact .inl hn
    · rw [if_neg hn] at hh
      exact .inr hh
  · exact fun hm => by simpa using mem_takeWhile_imp hm
  · cases hq : (suffix.dropWhile (· ≠ 0x3F)).head? with
    | none => exact .inl (head?_eq_none_iff.1 hq)
    | some c =>
      have hc : c = 0x3F := by simpa using not_of_head?_dropWhile hq
      exact .inr (hc ▸ rfl)
  · rw [hspelling]
    exact hi.2.2
  · rw [hspelling]
    exact not_lt.1 hi.2.1

/-! ### What is parsed again -/

theorem toNat_tolower (c : UInt8) : (tolower c).toNat =
    if 65 ≤ c.toNat ∧ c.toNat ≤ 90 then c.toNat + 32 else c.toNat := by
  have hc : (65 ≤ c ∧ c ≤ 90) ↔ 65 ≤ c.toNat ∧ c.toNat ≤ 90 := by simp [UInt8.le_iff_toNat_le]
  unfold tolower
  simp only [hc]
  split_ifs with h
  · rw [UInt8.toNat_add]
    exact Nat.mod_eq_of_lt (by simp; omega)
  · rfl

theorem tolower_separator {c d : UInt8} (hd : d.toNat < 65) (h : tolower c = d) : c = d := by
  have hv := congrArg UInt8.toNat h
  rw [toNat_tolower] at hv
  apply UInt8.toNat_inj.1
  split_ifs at hv
  · omega
  · exact hv

theorem lowerAscii_lowerAscii (s : ByteString) : lowerAscii (lowerAscii s) = lowerAscii s := by
  have hc : ∀ c, tolower (tolower c) = tolower c := by
    intro c
    apply UInt8.toNat_inj.1
    rw [toNat_tolower, toNat_tolower]
    split_ifs
    all_goals omega
  simp [lowerAscii, hc]

theorem separator_notMem_lowerAscii {d : UInt8} (hd : d.toNat < 65) (h : d ∉ s) :
    d ∉ lowerAscii s := by
  intro hm
  obtain ⟨c, hc, heq⟩ := mem_map.1 hm
  exact h (tolower_separator hd heq ▸ hc)

theorem isPort_toDecimal {n : ℕ} (h0 : 0 < n) (h : n ≤ 65535) :
    Url.IsPort (toDecimal n) ∧ leadingNumber 10 (toDecimal n) = n := by
  obtain ⟨ds, hi, hl, he, hv⟩ := exists_digits (b := 10) (by decide) n
  change toDecimal n = _ at hi
  have hn : leadingNumber 10 (toDecimal n) = n := by
    rw [hi, Security.leadingNumber_digits hl (by decide), hv]
  refine ⟨⟨?_, ?_, by rwa [hn], by rwa [hn]⟩, hn⟩
  · simpa [hi] using he
  · rw [hi]
    intro c hc
    obtain ⟨d, hd, rfl⟩ := mem_map.1 hc
    exact Security.isDigit_hexChar (hl d hd) ((hl d hd).trans (by decide))

/-- The parts of the recomposed text. -/
def Url.again (u : Url) : Url where
  scheme := lowerAscii u.scheme
  host := lowerAscii u.host
  port := some (toDecimal u.parsed.port)
  path := u.parsed.path
  query := u.query

theorem Url.Spelled.again (h : u.Spelled) (hl : u.parsed.recomposed.length ≤ kMaxUrlLength) :
    u.again.Spelled ∧ u.again.parsed = u.parsed := by
  have ho : Url.IsPort (toDecimal u.parsed.port) ∧
      leadingNumber 10 (toDecimal u.parsed.port) = u.parsed.port := by
    cases hp : u.port with
    | none => simpa [Url.parsed, hp] using isPort_toDecimal (n := 443) (by decide) (by decide)
    | some p =>
      have hr := (h.port p hp).2.2
      simpa [Url.parsed, hp] using isPort_toDecimal hr.1 hr.2
  have hnot := h.noFragment
  simp only [Url.spelling, mem_append, not_or] at hnot
  obtain ⟨hh, ha⟩ := h.parsed_path
  refine ⟨⟨?_, ?_, ?_, .inr hh, ?_, h.query, ?_, hl⟩, ?_⟩
  · rw [Url.again, lowerAscii_lowerAscii, h.scheme]
  · intro c hc
    obtain ⟨b, hb, rfl⟩ := mem_map.1 hc
    obtain ⟨h1, h2, h3⟩ := h.host b hb
    exact ⟨fun heq => h1 (tolower_separator (by decide) heq),
      fun heq => h2 (tolower_separator (by decide) heq),
      fun heq => h3 (tolower_separator (by decide) heq)⟩
  · rintro p ⟨⟩
    exact ho.1
  · exact fun hm => (ha _ hm).elim (by decide) h.noQuery
  · have hdigits : 0x23 ∉ toDecimal u.parsed.port := fun hm =>
      (isDigit_ne (ho.1.2.1 _ hm)).2.2.2 rfl
    simp only [Url.spelling, Url.again, Url.portPart, mem_append, not_or, Option.elim, mem_cons]
    exact ⟨⟨separator_notMem_lowerAscii (by decide) hnot.1.1, by decide⟩,
      ⟨separator_notMem_lowerAscii (by decide) hnot.2.1.1, by decide, hdigits⟩,
      fun hm => (ha _ hm).elim (by decide) hnot.2.2.1, hnot.2.2.2⟩
  · have hn : u.again.path ≠ [] := by
      intro heq
      rw [show u.parsed.path = [] from heq] at hh
      cases hh
    rw [Url.parsed, if_neg hn]
    simp only [Url.again, lowerAscii_lowerAscii, Option.elim, ho.2]
    rfl

/-! ### Where only URLs are accepted -/

/-- A host, and no user in front of it. -/
def Url.Hosted (u : Url) : Prop := u.host ≠ [] ∧ 0x40 ∉ u.host

/-- What a text is to be parsed to: a URL to its parts, which make a text that is parsed to them
again, and any other text to nothing. -/
structure ParsesUrl (input : ByteString) : Prop where
  accepts : (parseUrl input).isSome ↔ ∃ u : Url, u.Spelled ∧ u.Hosted ∧ u.spelling = input
  parts : ∀ u : Url, u.Spelled → u.spelling = input → parseUrl input = some u.parsed
  again : ∀ r ∈ parseUrl input, parseUrl r.recomposed = some r
  lower : ∀ r ∈ parseUrl input, lowerAscii r.host = r.host
  path : ∀ r ∈ parseUrl input, r.path.head? = some 0x2F ∧ 0x3F ∉ r.path
  extra : ∀ r ∈ parseUrl input, r.extra = [] ∨ r.extra.head? = some 0x3F

/-- The parts of a text of this form have a host and no user, and the text that has the port and
the path written out is short enough. -/
def ReadsHosted (input : ByteString) : Prop :=
  ∀ u : Url, u.Spelled → u.spelling = input →
    u.Hosted ∧ u.again.spelling.length ≤ kMaxUrlLength

theorem Url.hosted_congr {v : Url} (h : lowerAscii u.host = lowerAscii v.host) (hv : v.Hosted) :
    u.Hosted := by
  refine ⟨fun hn => hv.1 ?_, fun hm => ?_⟩
  · rw [hn] at h
    exact map_eq_nil_iff.1 h.symm
  · exact separator_notMem_lowerAscii (by decide) hv.2 (h ▸ mem_map.2 ⟨0x40, hm, by decide⟩)

theorem length_le_of_parseUrl (h : parseUrl input = some r) : input.length ≤ kMaxUrlLength := by
  obtain ⟨u, hu, rfl, -⟩ := parseUrl_inv h
  exact hu.short

/-- **Only URLs are accepted and what was parsed is parsed again, exactly where a URL has a host
and no user, and leaves room for what it left out.** -/
theorem parsesUrl_iff (input : ByteString) : ParsesUrl input ↔ ReadsHosted input := by
  constructor
  · rintro h u hu rfl
    have hp := parseUrl_spelling hu
    obtain ⟨v, hv, hh, heq⟩ := h.accepts.1 (by rw [hp]; rfl)
    have hsame : u.parsed = v.parsed := by
      have hpv := parseUrl_spelling hv
      rw [heq, hp] at hpv
      exact Option.some.inj hpv
    exact ⟨Url.hosted_congr (congrArg ParsedUrl.host hsame) hh,
      length_le_of_parseUrl (h.again _ hp)⟩
  · intro h
    have hinv : ∀ r ∈ parseUrl input, ∃ u : Url, u.Spelled ∧ u.spelling = input ∧ u.parsed = r :=
      fun r hr => parseUrl_inv hr
    refine ⟨⟨fun ha => ?_, ?_⟩, ?_, fun r hr => ?_, fun r hr => ?_, fun r hr => ?_, fun r hr => ?_⟩
    · obtain ⟨r, hr⟩ := Option.isSome_iff_exists.1 ha
      obtain ⟨u, hu, heq, -⟩ := hinv r hr
      exact ⟨u, hu, (h u hu heq).1, heq⟩
    · rintro ⟨u, hu, -, rfl⟩
      rw [parseUrl_spelling hu]
      rfl
    · rintro u hu rfl
      exact parseUrl_spelling hu
    all_goals obtain ⟨u, hu, heq, rfl⟩ := hinv r hr
    · obtain ⟨ha, hsame⟩ := hu.again (h u hu heq).2
      exact (parseUrl_spelling ha).trans (congrArg some hsame)
    · exact lowerAscii_lowerAscii u.host
    · exact ⟨hu.parsed_path.1, fun hm => (hu.parsed_path.2 _ hm).elim (by decide) hu.noQuery⟩
    · exact hu.query

/-- **An empty authority is accepted.** -/
theorem not_parsesUrl : ¬ParsesUrl (text "https:///x") := by
  have hp : parseUrl (text "https:///x") =
      some ⟨text "https", [], 443, text "/x", []⟩ := by decide +kernel
  intro h
  obtain ⟨u, hu, hh, heq⟩ := h.accepts.1 (by rw [hp]; rfl)
  have hn := congrArg ParsedUrl.host (Option.some.inj (hp.symm.trans (h.parts u hu heq)))
  exact hh.1 (map_eq_nil_iff.1 hn.symm)

end TradutorLinux.WinInet
