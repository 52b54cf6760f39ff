import TradutorLinux.Compat.Types
import TradutorLinux.Util.Iterate

/-!
# The JSON parser of the Rust side

`JsonParser` of `rust/profile_parser.rs`.  Its state is what is left of the
input; the position, which the errors report, is what has been read of it.  The
arrays `files` and `dlls` are read by the same loops with other keys and texts.

A field that has been seen is `some`: that is the flag the source keeps beside
it.  Every round of a loop reads at least one byte, so the loops are `Loop`s
over the length of what is left.

## Main definitions

* `JsonParser.parseString`, `JsonParser.parsePairs`, `JsonParser.parseBackend`.
* `JsonParser.parse` — the document.

## Main results

* `JsonParser.parsed_of_parse` — **the strings of a profile and twenty-four bytes for
  every mapping are no more than the input.**
-/

namespace TradutorLinux.Compat
namespace RustJson

open Option List

/-- `JsonParser`. -/
structure JsonParser where
  input : ByteString

namespace JsonParser

variable (p : JsonParser)

/-- `position`, with `rest` left. -/
def position (rest : ByteString) : ℕ := p.input.length - rest.length

/-- `error`. -/
def error {α : Type} (rest : ByteString) (message : ByteString) : Except Failure α :=
  .error (malformed phaseJson (p.position rest) message)

/-- What a loop would report if it did not read: none of them does. -/
def exhausted : Failure :=
  ⟨statusInternal, errorInternal, phaseNone, unknownOffset, 0, text "panic"⟩

/-! ### Tokens -/

def isWhitespace (byte : UInt8) : Bool :=
  byte == 0x20 || byte == 0x09 || byte == 0x0A || byte == 0x0D || byte == 0x0C || byte == 0x0B

/-- `skip_whitespace`. -/
def skipWhitespace (rest : ByteString) : ByteString := rest.dropWhile isWhitespace

/-- `peek`. -/
def peek (expected : UInt8) (rest : ByteString) : Bool := rest.head? == some expected

/-- `consume`: what is left behind the byte, when it is there. -/
def consume (expected : UInt8) (rest : ByteString) : Option ByteString :=
  if peek expected rest then some rest.tail else none

/-- `consume`, or an error. -/
def expect (expected : UInt8) (message rest : ByteString) : Except Failure ByteString :=
  match consume expected rest with
  | some rest => .ok rest
  | none => p.error rest message

/-- The escapes of a JSON string that the parser knows. -/
def unescape (escaped : UInt8) : Option UInt8 :=
  match escaped with
  | 0x22 => some 0x22
  | 0x5C => some 0x5C
  | 0x2F => some 0x2F
  | 0x62 => some 8
  | 0x66 => some 12
  | 0x6E => some 0x0A
  | 0x72 => some 0x0D
  | 0x74 => some 0x09
  | _ => none

/-- The bytes of a string, up to the closing quote. -/
def stringBytes : ByteString → Except Failure (ByteString × ByteString)
  | [] => p.error [] (text "string JSON sem fechamento")
  | byte :: rest =>
    if byte = 0x22 then .ok ([], rest)
    else if byte = 0x5C then
      match rest with
      | [] => p.error [] (text "escape JSON truncado")
      | escaped :: rest =>
        match unescape escaped with
        | none => p.error rest (text "escape JSON nao suportado")
        | some byte => stringBytes rest >>= fun (output, rest) => .ok (byte :: output, rest)
    else if byte ≤ 0x1F then p.error rest (text "controle em string JSON")
    else stringBytes rest >>= fun (output, rest) => .ok (byte :: output, rest)

/-- `parse_string`. -/
def parseString (rest : ByteString) : Except Failure (ByteString × ByteString) :=
  p.expect 0x22 (text "string JSON invalida") (skipWhitespace rest) >>= fun rest =>
  p.stringBytes rest

/-- The digits of a number, in front of which `value` was read. -/
def digits (value : ℕ) : ByteString → Except Failure (ℕ × ByteString)
  | [] => .ok (value, [])
  | byte :: rest =>
    if isDigit byte then
      let next := value * 10 + (byte.toNat - 0x30)
      if next > u32Max then p.error (byte :: rest) (text "numero schema excede u32")
      else digits next rest
    else .ok (value, byte :: rest)

/-- `parse_u32`. -/
def parseU32 (rest : ByteString) : Except Failure (ℕ × ByteString) :=
  let rest := skipWhitespace rest
  match rest with
  | [] => p.error rest (text "numero schema invalido")
  | byte :: _ =>
    if isDigit byte then p.digits 0 rest else p.error rest (text "numero schema invalido")

/-- What follows a value: the end of the object or the array, or a comma and another value. -/
def separator (close : UInt8) (noComma trailing rest : ByteString) :
    Except Failure (ByteString ⊕ ByteString) :=
  let rest := skipWhitespace rest
  match consume close rest with
  | some rest => .ok (.inr rest)
  | none =>
    p.expect 0x2C noComma rest >>= fun rest =>
    let rest := skipWhitespace rest
    if peek close rest then p.error rest trailing else .ok (.inl rest)

/-! ### What the tokens read -/

variable {p}

theorem length_skipWhitespace (re : ByteString) : (skipWhitespace re).length ≤ re.length :=
  List.Sublist.length_le (dropWhile_sublist _)

theorem length_consume {e : UInt8} {re r' : ByteString}
    (h : consume e re = some r') : r'.length + 1 = re.length := by
  unfold consume at h
  split at h
  · next hp =>
    cases h
    cases re with
    | nil => cases hp
    | cons b re => rfl
  · cases h

theorem length_expect {e : UInt8} {m re r' : ByteString}
    (h : p.expect e m re = .ok r') : r'.length + 1 = re.length := by
  unfold expect at h
  split at h
  · next hc =>
    cases h
    exact length_consume hc
  · cases h

/-- A string is shorter than its token by the last quote, and no byte of it is zero: neither a
control byte nor an escape gives one. -/
theorem stringBytes_spec {re r' output : ByteString} (h : p.stringBytes re = .ok (output, r')) :
    output.length + r'.length + 1 ≤ re.length ∧ 0 ∉ output := by
  fun_induction stringBytes p re generalizing output with
  | case1 => cases h
  | case2 re =>
    cases h
    simp
  | case3 => cases h
  | case4 => cases h
  | case5 e re b hu hq ih =>
    obtain ⟨⟨o', r''⟩, hr, hd⟩ := bind_eq_ok.1 h
    cases hd
    obtain ⟨hl, hn⟩ := ih hr
    simp only [length_cons, mem_cons, not_or]
    refine ⟨by omega, ?_, hn⟩
    rintro rfl
    unfold unescape at hu
    split at hu <;> cases hu
  | case6 => cases h
  | case7 b re hq he hc ih =>
    obtain ⟨⟨o', r''⟩, hr, hd⟩ := bind_eq_ok.1 h
    cases hd
    obtain ⟨hl, hn⟩ := ih hr
    simp only [length_cons, mem_cons, not_or]
    refine ⟨by omega, ?_, hn⟩
    rintro rfl
    exact hc (by decide)

/-- The same with the first quote. -/
theorem parseString_spec {re r' output : ByteString} (h : p.parseString re = .ok (output, r')) :
    output.length + r'.length + 2 ≤ re.length ∧ 0 ∉ output := by
  obtain ⟨r'', hq, hb⟩ := bind_eq_ok.1 h
  have hs := length_skipWhitespace re
  have ho := length_expect hq
  obtain ⟨hr, hn⟩ := stringBytes_spec hb
  exact ⟨by omega, hn⟩

theorem length_digits {v n : ℕ} {re r' : ByteString}
    (h : p.digits v re = .ok (n, r')) : r'.length ≤ re.length := by
  induction re generalizing v with
  | nil =>
    cases h
    exact le_refl _
  | cons b re ih =>
    dsimp only [digits] at h
    split at h
    · split at h
      · cases h
      · exact (ih h).trans (Nat.le_succ _)
    · cases h
      exact le_refl _

theorem length_parseU32 {n : ℕ} {re r' : ByteString}
    (h : p.parseU32 re = .ok (n, r')) : r'.length ≤ re.length := by
  have hs := length_skipWhitespace re
  dsimp only [parseU32] at h
  split at h
  · cases h
  split at h
  · next hr _ =>
    have := length_digits h
    omega
  · cases h

theorem length_separator {c : UInt8} {nc tr re : ByteString}
    {next : ByteString ⊕ ByteString} (h : p.separator c nc tr re = .ok next) :
    (next.elim id id).length + 1 ≤ re.length := by
  have hs := length_skipWhitespace re
  dsimp only [separator] at h
  split at h
  · next r' hl =>
    cases h
    have := length_consume hl
    change r'.length + 1 ≤ re.length
    omega
  · obtain ⟨r', hc, hr⟩ := bind_eq_ok.1 h
    have ho := length_expect hc
    have hs' := length_skipWhitespace r'
    split at hr
    · cases hr
    · cases hr
      change (skipWhitespace r').length + 1 ≤ re.length
      omega

theorem length_bracket {b : UInt8} {m re r' : ByteString}
    (h : p.expect b m (skipWhitespace re) = .ok r') :
    (skipWhitespace r').length + 1 ≤ re.length := by
  have h1 := length_skipWhitespace re
  have h2 := length_expect h
  have h3 := length_skipWhitespace r'
  omega

theorem round_eq_ok {α : Type} {c nc tr : ByteString}
    {f : ByteString → ByteString → Except Failure (α × ByteString)} {re : ByteString}
    {next : (α × ByteString) ⊕ (α × ByteString)} (h : (p.parseString re >>= fun (k, re) =>
      p.expect 0x3A c (skipWhitespace re) >>= fun re =>
      f k re >>= fun (v, re) =>
      p.separator 0x7D nc tr re >>= fun next => .ok (next.map (v, ·) (v, ·))) = .ok next) :
    ∃ k r₁ r₂, f k r₁ = .ok ((next.elim id id).1, r₂) ∧
      k.length + r₁.length + 3 ≤ re.length ∧ (next.elim id id).2.length + 1 ≤ r₂.length := by
  simp only [bind_eq_ok, Prod.exists] at h
  obtain ⟨k, r', hk, r₁, hc, v, r₂, hf, s, hs, h⟩ := h
  have h1 := (parseString_spec hk).1
  have h2 := length_skipWhitespace r'
  have h3 := length_expect hc
  have h4 := length_separator hs
  refine ⟨k, r₁, r₂, ?_⟩
  cases h
  cases s <;> exact ⟨hf, by omega, h4⟩

/-! ### Mappings -/

/-- The keys, the limit and the texts of `parse_files` and of `parse_dlls`. -/
structure PairTexts where
  first : ByteString
  second : ByteString
  limit : ℕ
  invalid : ByteString
  entryInvalid : ByteString
  entryEmpty : ByteString
  noColon : ByteString
  repeated : ByteString
  unknown : ByteString
  entryNoComma : ByteString
  entryTrailing : ByteString
  missing : ByteString
  tooMany : ByteString
  noComma : ByteString
  trailing : ByteString

/-- The two strings of an entry, as far as they have been seen. -/
abbrev Pair := Option ByteString × Option ByteString

variable (p) (t : PairTexts)

/-- The value of a key of an entry. -/
def parsePairField (pair : Pair) (key rest : ByteString) : Except Failure (Pair × ByteString) :=
  if key = t.first ∧ pair.1 = none then
    p.parseString rest >>= fun (value, rest) => .ok ((some value, pair.2), rest)
  else if key = t.second ∧ pair.2 = none then
    p.parseString rest >>= fun (value, rest) => .ok ((pair.1, some value), rest)
  else if key = t.first ∨ key = t.second then p.error rest t.repeated
  else p.error rest t.unknown

/-- A round of the loop over the keys of an entry. -/
def pairStep (s : Pair × ByteString) : Except Failure ((Pair × ByteString) ⊕ (Pair × ByteString)) :=
  p.parseString s.2 >>= fun (key, rest) =>
  p.expect 0x3A t.noColon (skipWhitespace rest) >>= fun rest =>
  p.parsePairField t s.1 key rest >>= fun (pair, rest) =>
  p.separator 0x7D t.entryNoComma t.entryTrailing rest >>= fun next =>
    .ok (next.map (pair, ·) (pair, ·))

/-- What has been read of an entry: every string with its key, the quotes, and what separates. -/
def pairWeight (pair : Pair) : ℕ :=
  (pair.1.elim 0 fun value => value.length + t.first.length + 6) +
    (pair.2.elim 0 fun value => value.length + t.second.length + 6)

variable {p t}

/-- The strings that have been seen of an entry have no zero byte. -/
def NoNulPair (pair : Pair) : Prop :=
  (∀ value, pair.1 = some value → 0 ∉ value) ∧ ∀ value, pair.2 = some value → 0 ∉ value

theorem parsePairField_spec {pa pair' : Pair} {k re r' : ByteString}
    (h : p.parsePairField t pa k re = .ok (pair', r')) :
    pairWeight t pair' + r'.length ≤ pairWeight t pa + re.length + k.length + 4 ∧
      r'.length ≤ re.length ∧ (NoNulPair pa → NoNulPair pair') := by
  unfold parsePairField at h
  split at h
  · next hk =>
    obtain ⟨⟨va, r''⟩, ha, hd⟩ := bind_eq_ok.1 h
    cases hd
    obtain ⟨hl, hn⟩ := parseString_spec ha
    unfold pairWeight
    rw [hk.2, hk.1]
    simp only [elim_some, elim_none]
    refine ⟨by omega, by omega, fun hp => ⟨fun v hv => ?_, hp.2⟩⟩
    cases hv
    exact hn
  · split at h
    · next hk =>
      obtain ⟨⟨va, r''⟩, ha, hd⟩ := bind_eq_ok.1 h
      cases hd
      obtain ⟨hl, hn⟩ := parseString_spec ha
      unfold pairWeight
      rw [hk.2, hk.1]
      simp only [elim_some, elim_none]
      refine ⟨by omega, by omega, fun hp => ⟨hp.1, fun v hv => ?_⟩⟩
      cases hv
      exact hn
    · split at h <;> cases h

theorem pairStep_spec {s : Pair × ByteString} {n : (Pair × ByteString) ⊕ (Pair × ByteString)}
    (h : p.pairStep t s = .ok n) :
    pairWeight t (n.elim id id).1 + (n.elim id id).2.length ≤
      pairWeight t s.1 + s.2.length ∧ (n.elim id id).2.length < s.2.length ∧
      (NoNulPair s.1 → NoNulPair (n.elim id id).1) := by
  obtain ⟨k, r₁, r₂, hf, h1, h2⟩ := round_eq_ok h
  obtain ⟨h3, h4, hn⟩ := parsePairField_spec hf
  exact ⟨by omega, by omega, hn⟩

variable (p t) in
/-- The loop over the keys of an entry. -/
def pairLoop : Loop Failure (Pair × ByteString) (Pair × ByteString) where
  step := p.pairStep t
  measure := fun s => s.2.length
  decreases := fun _ _ h => (pairStep_spec h).2.1

variable (p t) in
/-- An entry of `files` or of `dlls`. -/
def parsePair (rest : ByteString) :
    Except Failure ((ByteString × ByteString) × ByteString) :=
  p.expect 0x7B t.entryInvalid (skipWhitespace rest) >>= fun rest =>
  let rest := skipWhitespace rest
  match consume 0x7D rest with
  | some rest => p.error rest t.entryEmpty
  | none =>
    (p.pairLoop t).run exhausted ((none, none), rest) >>= fun (pair, rest) =>
    match pair with
    | (some first, some second) => .ok ((first, second), rest)
    | _ => p.error rest t.missing

theorem parsePair_spec {re r' : ByteString} {pa : ByteString × ByteString}
    (h : p.parsePair t re = .ok (pa, r')) :
    pa.1.length + pa.2.length + (t.first.length + t.second.length + 12) + r'.length + 1 ≤
      re.length ∧ 0 ∉ pa.1 ∧ 0 ∉ pa.2 := by
  obtain ⟨r₁, hb, h⟩ := bind_eq_ok.1 h
  have he := length_bracket hb
  dsimp only at h
  split at h
  · cases h
  obtain ⟨⟨p', r₂⟩, hl, h⟩ := bind_eq_ok.1 h
  obtain ⟨hw, hp⟩ := iterate_keeps (P := fun s : Pair × ByteString =>
      pairWeight t s.1 + s.2.length ≤ (skipWhitespace r₁).length ∧ NoNulPair s.1)
    (fun s n hs hr => ⟨(pairStep_spec hr).1.trans hs.1, (pairStep_spec hr).2.2 hs.2⟩)
    (by simp [pairWeight, NoNulPair]) hl
  dsimp only at h hw hp
  split at h
  · cases h
    simp only [pairWeight, elim_some] at hw
    dsimp only
    exact ⟨by omega, hp.1 _ rfl, hp.2 _ rfl⟩
  · cases h

/-- The state of the loop over the entries. -/
abbrev Pairs := List (ByteString × ByteString)

variable (p t) in
/-- A round of the loop over the entries. -/
def pairsStep (s : Pairs × ByteString) :
    Except Failure ((Pairs × ByteString) ⊕ (Pairs × ByteString)) :=
  p.parsePair t s.2 >>= fun (pair, rest) =>
  let values := s.1 ++ [pair]
  if values.length > t.limit then
    .error ⟨statusInputTooLarge, errorInputTooLarge, phaseJson, p.position rest, t.limit,
      t.tooMany⟩
  else
    p.separator 0x5D t.noComma t.trailing rest >>= fun next =>
      .ok (next.map (values, ·) (values, ·))

variable (t) in
/-- What has been read of the entries. -/
def pairsWeight (pairs : Pairs) : ℕ :=
  (pairs.map fun pair =>
    pair.1.length + pair.2.length + (t.first.length + t.second.length + 12)).sum

/-- No string of the entries has a zero byte. -/
def NoNulPairs (pairs : Pairs) : Prop := ∀ pair ∈ pairs, 0 ∉ pair.1 ∧ 0 ∉ pair.2

attribute [local simp] pairsWeight

theorem pairsStep_spec {s : Pairs × ByteString}
    {next : (Pairs × ByteString) ⊕ (Pairs × ByteString)} (h : p.pairsStep t s = .ok next) :
    pairsWeight t (next.elim id id).1 + (next.elim id id).2.length ≤
      pairsWeight t s.1 + s.2.length ∧ (next.elim id id).2.length < s.2.length ∧
      (next.elim id id).1.length ≤ t.limit ∧
      (NoNulPairs s.1 → NoNulPairs (next.elim id id).1) := by
  obtain ⟨⟨pa, re⟩, hp, h⟩ := bind_eq_ok.1 h
  obtain ⟨h1, hn⟩ := parsePair_spec hp
  dsimp only at h h1 hn
  split at h
  · cases h
  next hl =>
  obtain ⟨st, he, h⟩ := bind_eq_ok.1 h
  have h2 := length_separator he
  have hw : pairsWeight t (s.1 ++ [pa]) = pairsWeight t s.1 +
      (pa.1.length + pa.2.length + (t.first.length + t.second.length + 12)) := by
    simp
  have ha : NoNulPairs s.1 → NoNulPairs (s.1 ++ [pa]) := fun hs =>
    forall_mem_append.2 ⟨hs, forall_mem_singleton.2 hn⟩
  cases h
  cases st <;> simp only [Sum.map_inl, Sum.map_inr, Sum.elim_inl, Sum.elim_inr, id] at h2 ⊢ <;>
    exact ⟨by omega, by omega, by omega, ha⟩

variable (p t) in
/-- The loop over the entries. -/
def pairsLoop : Loop Failure (Pairs × ByteString) (Pairs × ByteString) where
  step := p.pairsStep t
  measure := fun s => s.2.length
  decreases := fun _ _ h => (pairsStep_spec h).2.1

variable (p t) in
/-- `parse_files` and `parse_dlls`. -/
def parsePairs (rest : ByteString) : Except Failure (Pairs × ByteString) :=
  p.expect 0x5B t.invalid (skipWhitespace rest) >>= fun rest =>
  let rest := skipWhitespace rest
  match consume 0x5D rest with
  | some rest => .ok ([], rest)
  | none => (p.pairsLoop t).run exhausted ([], rest)

theorem parsePairs_spec {re r' : ByteString} {pairs : Pairs}
    (h : p.parsePairs t re = .ok (pairs, r')) :
    pairsWeight t pairs + r'.length + 1 ≤ re.length ∧ pairs.length ≤ t.limit ∧
      NoNulPairs pairs := by
  obtain ⟨r₁, hb, h⟩ := bind_eq_ok.1 h
  have he := length_bracket hb
  dsimp only at h
  split at h
  · next r₂ hc =>
    cases h
    have := length_consume hc
    refine ⟨?_, Nat.zero_le _, nofun⟩
    change 0 + r'.length + 1 ≤ re.length
    omega
  · obtain ⟨hw, hi, hn⟩ := iterate_invariant (P := fun s : Pairs × ByteString =>
        pairsWeight t s.1 + s.2.length ≤ (skipWhitespace r₁).length ∧ NoNulPairs s.1)
      (Q := fun s : Pairs × ByteString =>
        pairsWeight t s.1 + s.2.length ≤ (skipWhitespace r₁).length ∧ s.1.length ≤ t.limit ∧
          NoNulPairs s.1)
      (fun s s' hs hr => ⟨(pairsStep_spec hr).1.trans hs.1, (pairsStep_spec hr).2.2.2 hs.2⟩)
      (fun s s' hs hl => ⟨(pairsStep_spec hl).1.trans hs.1,
        (pairsStep_spec hl).2.2.1, (pairsStep_spec hl).2.2.2 hs.2⟩)
      (by simp [NoNulPairs]) h
    dsimp only at hw
    exact ⟨by omega, hi, hn⟩

/-- `parse_files`. -/
def filesTexts : PairTexts where
  first := text "source"
  second := text "target"
  limit := limitMaxFiles
  invalid := text "campo files invalido"
  entryInvalid := text "entrada files invalida"
  entryEmpty := text "entrada files vazia"
  noColon := text "entrada files sem ':'"
  repeated := text "campo files repetido"
  unknown := text "campo files desconhecido"
  entryNoComma := text "entrada files sem ','"
  entryTrailing := text "virgula final em files"
  missing := text "source e target sao obrigatorios"
  tooMany := text "quantidade de files excede o limite"
  noComma := text "campo files sem ','"
  trailing := text "virgula final em files"

/-- `parse_dlls`. -/
def dllsTexts : PairTexts where
  first := text "module"
  second := text "source"
  limit := limitMaxDlls
  invalid := text "campo dlls invalido"
  entryInvalid := text "entrada dlls invalida"
  entryEmpty := text "entrada dlls vazia"
  noColon := text "entrada dlls sem ':'"
  repeated := text "campo dlls repetido"
  unknown := text "campo dlls desconhecido"
  entryNoComma := text "entrada dlls sem ','"
  entryTrailing := text "virgula final em dlls"
  missing := text "module e source sao obrigatorios"
  tooMany := text "quantidade de dlls excede o limite"
  noComma := text "campo dlls sem ','"
  trailing := text "virgula final em dlls"

variable (p) in
/-- `parse_files`. -/
def parseFiles (rest : ByteString) : Except Failure (List FileMapping × ByteString) :=
  p.parsePairs filesTexts rest >>= fun (pairs, rest) =>
    .ok (pairs.map fun pair => ⟨pair.1, pair.2⟩, rest)

variable (p) in
/-- `parse_dlls`. -/
def parseDlls (rest : ByteString) : Except Failure (List DllMapping × ByteString) :=
  p.parsePairs dllsTexts rest >>= fun (pairs, rest) =>
    .ok (pairs.map fun pair => ⟨pair.1, pair.2⟩, rest)

variable {files : List FileMapping} {dlls : List DllMapping} {rest re r' : ByteString}

theorem parseFiles_spec (h : p.parseFiles re = .ok (files, r')) :
    (files.map fun m => m.source.length + m.target.length + 24).sum +
        r'.length ≤ re.length ∧ files.length ≤ limitMaxFiles ∧
      ∀ m ∈ files, 0 ∉ m.source ∧ 0 ∉ m.target := by
  obtain ⟨⟨ps, r''⟩, hp, hd⟩ := bind_eq_ok.1 h
  cases hd
  obtain ⟨hw, hl, hn⟩ := parsePairs_spec hp
  rw [List.map_map, List.length_map, List.forall_mem_map]
  have hf : pairsWeight filesTexts ps + r'.length ≤ re.length := by omega
  exact ⟨hf, hl, hn⟩

theorem parseDlls_spec (h : p.parseDlls re = .ok (dlls, r')) :
    (dlls.map fun m => m.moduleName.length + m.source.length + 24).sum +
        r'.length ≤ re.length ∧ dlls.length ≤ limitMaxDlls ∧
      ∀ m ∈ dlls, 0 ∉ m.moduleName ∧ 0 ∉ m.source := by
  obtain ⟨⟨ps, r''⟩, hp, hd⟩ := bind_eq_ok.1 h
  cases hd
  obtain ⟨hw, hl, hn⟩ := parsePairs_spec hp
  rw [List.map_map, List.length_map, List.forall_mem_map]
  have hdl : pairsWeight dllsTexts ps + r'.length ≤ re.length := by omega
  exact ⟨hdl, hl, hn⟩

/-! ### The backend -/

/-- The fields of `backend`, as far as they have been seen. -/
abbrev Backend := Option ℕ × Option ByteString

variable (p) in
/-- The value of a key of `backend`. -/
def parseBackendField (backend : Backend) (key rest : ByteString) :
    Except Failure (Backend × ByteString) :=
  if key = text "kind" ∧ backend.1 = none then
    p.parseString rest >>= fun (value, rest) =>
    if value = text "native" then .ok ((some wireBackendNative, backend.2), rest)
    else if value = text "proton" then .ok ((some wireBackendProton, backend.2), rest)
    else p.error rest (text "backend.kind invalido")
  else if key = text "kind" then p.error rest (text "backend.kind repetido")
  else if key = text "min_version" ∧ backend.2 = none then
    p.parseString rest >>= fun (value, rest) => .ok ((backend.1, some value), rest)
  else if key = text "min_version" then p.error rest (text "backend.min_version repetido")
  else p.error rest (text "campo backend desconhecido")

variable (p) in
/-- A round of the loop over the keys of `backend`. -/
def backendStep (s : Backend × ByteString) :
    Except Failure ((Backend × ByteString) ⊕ (Backend × ByteString)) :=
  p.parseString s.2 >>= fun (key, rest) =>
  p.expect 0x3A (text "backend sem ':'") (skipWhitespace rest) >>= fun rest =>
  p.parseBackendField s.1 key rest >>= fun (backend, rest) =>
  p.separator 0x7D (text "backend sem ','") (text "virgula final em backend") rest >>= fun next =>
    .ok (next.map (backend, ·) (backend, ·))

/-- The bytes of `min_version`. -/
def backendWeight (backend : Backend) : ℕ := backend.2.elim 0 List.length

/-- The kind that the loop over `backend` has seen. -/
def KnownKind (backend : Backend) : Prop :=
  ∀ kind, backend.1 = some kind → kind = wireBackendNative ∨ kind = wireBackendProton

theorem parseBackendField_spec {b backend' : Backend} {ke re r' : ByteString}
    (h : p.parseBackendField b ke re = .ok (backend', r')) :
    backendWeight backend' + r'.length ≤ backendWeight b + re.length ∧
      r'.length ≤ re.length ∧ (KnownKind b → KnownKind backend') := by
  unfold parseBackendField at h
  split at h
  · obtain ⟨⟨v, r''⟩, hv, h⟩ := bind_eq_ok.1 h
    have := (parseString_spec hv).1
    dsimp only at h
    split at h
    · cases h
      dsimp only [backendWeight]
      refine ⟨by omega, by omega, fun _ k hk => ?_⟩
      exact .inl (some.inj hk).symm
    · split at h
      · cases h
        dsimp only [backendWeight]
        refine ⟨by omega, by omega, fun _ k hk => ?_⟩
        exact .inr (some.inj hk).symm
      · cases h
  · split at h
    · cases h
    split at h
    · next he =>
      obtain ⟨⟨v, r''⟩, hv, h⟩ := bind_eq_ok.1 h
      have := (parseString_spec hv).1
      cases h
      unfold backendWeight
      rw [he.2]
      simp only [elim_some, elim_none]
      exact ⟨by omega, by omega, id⟩
    · split at h <;> cases h

theorem backendStep_spec {s : Backend × ByteString}
    {n : (Backend × ByteString) ⊕ (Backend × ByteString)} (h : p.backendStep s = .ok n) :
    backendWeight (n.elim id id).1 + (n.elim id id).2.length ≤
      backendWeight s.1 + s.2.length ∧ (n.elim id id).2.length < s.2.length ∧
      (KnownKind s.1 → KnownKind (n.elim id id).1) := by
  obtain ⟨k, r₁, r₂, hf, h1, h2⟩ := round_eq_ok h
  obtain ⟨h3, h4, hk⟩ := parseBackendField_spec hf
  exact ⟨by omega, by omega, hk⟩

variable (p) in
/-- The loop over the keys of `backend`. -/
def backendLoop : Loop Failure (Backend × ByteString) (Backend × ByteString) where
  step := p.backendStep
  measure := fun s => s.2.length
  decreases := fun _ _ h => (backendStep_spec h).2.1

variable (p) in
/-- `parse_backend`. -/
def parseBackend (rest : ByteString) : Except Failure ((ℕ × ByteString) × ByteString) :=
  p.expect 0x7B (text "campo backend invalido") (skipWhitespace rest) >>= fun rest =>
  let rest := skipWhitespace rest
  match consume 0x7D rest with
  | some rest => p.error rest (text "backend vazio")
  | none =>
    p.backendLoop.run exhausted ((none, none), rest) >>= fun (backend, rest) =>
    match backend.1 with
    | some kind => .ok ((kind, backend.2.getD []), rest)
    | none => p.error rest (text "backend.kind e obrigatorio")

theorem parseBackend_spec {re r' : ByteString} {b : ℕ × ByteString}
    (h : p.parseBackend re = .ok (b, r')) :
    b.2.length + r'.length + 1 ≤ re.length ∧
      (b.1 = wireBackendNative ∨ b.1 = wireBackendProton) := by
  obtain ⟨r₁, hb, h⟩ := bind_eq_ok.1 h
  have he := length_bracket hb
  dsimp only at h
  split at h
  · cases h
  obtain ⟨⟨backend', r₂⟩, hl, h⟩ := bind_eq_ok.1 h
  obtain ⟨hw, hk⟩ := iterate_keeps (P := fun s : Backend × ByteString =>
      backendWeight s.1 + s.2.length ≤ (skipWhitespace r₁).length ∧ KnownKind s.1)
    (fun s next hs hr => ⟨(backendStep_spec hr).1.trans hs.1, (backendStep_spec hr).2.2 hs.2⟩)
    (by simp [backendWeight, KnownKind]) hl
  dsimp only at h hw hk
  split at h
  · next k hi =>
    cases h
    have hv : (backend'.2.getD []).length = backendWeight backend' := by
      unfold backendWeight
      cases backend'.2 <;> rfl
    dsimp only
    exact ⟨by omega, hk k hi⟩
  · cases h

/-! ### The document -/

/-- The fields of the document, as far as they have been seen. -/
structure Members where
  schema : Option ℕ := none
  appId : Option ByteString := none
  appSha256 : Option ByteString := none
  appVersion : Option ByteString := none
  files : Option (List FileMapping) := none
  dlls : Option (List DllMapping) := none
  backend : Option (ℕ × ByteString) := none
  extension : Option ByteString := none

/-- The profile with the fields that have been seen. -/
def Members.toModel (members : Members) : ProfileModel where
  schema := members.schema.getD 0
  appId := members.appId.getD []
  appSha256 := members.appSha256.getD []
  appVersion := members.appVersion.getD []
  extension := members.extension.getD []
  files := members.files.getD []
  dlls := members.dlls.getD []
  backendKind := (members.backend.map Prod.fst).getD wireBackendNative
  backendDeclared := members.backend.isSome
  minVersion := (members.backend.map Prod.snd).getD []

variable (p) in
/-- A field that must not have been seen before. -/
def once {α : Type} (seen : Option α) (parse : ByteString → Except Failure (α × ByteString))
    (set : α → Members) (rest : ByteString) : Except Failure (Members × ByteString) :=
  if seen.isSome then p.error rest (text "campo JSON repetido")
  else parse rest >>= fun (value, rest) => .ok (set value, rest)

variable (p) in
/-- The value of a key of the document. -/
def parseMember (m : Members) (key : ByteString) :
    ByteString → Except Failure (Members × ByteString) :=
  if key = text "schema" then p.once m.schema p.parseU32 fun v => { m with schema := some v }
  else if key = text "app_id" then p.once m.appId p.parseString fun v => { m with appId := some v }
  else if key = text "app_sha256" then
    p.once m.appSha256 p.parseString fun v => { m with appSha256 := some v }
  else if key = text "app_version" then
    p.once m.appVersion p.parseString fun v => { m with appVersion := some v }
  else if key = text "files" then p.once m.files p.parseFiles fun v => { m with files := some v }
  else if key = text "dlls" then p.once m.dlls p.parseDlls fun v => { m with dlls := some v }
  else if key = text "backend" then
    p.once m.backend p.parseBackend fun v => { m with backend := some v }
  else if key = text "extension" then
    p.once m.extension p.parseString fun v => { m with extension := some v }
  else fun rest => p.error rest (text "campo JSON desconhecido")

variable (p) in
/-- A round of the loop over the keys of the document. -/
def memberStep (s : Members × ByteString) :
    Except Failure ((Members × ByteString) ⊕ (Members × ByteString)) :=
  p.parseString s.2 >>= fun (key, rest) =>
  p.expect 0x3A (text "faltou ':' apos chave JSON") (skipWhitespace rest) >>= fun rest =>
  p.parseMember s.1 key rest >>= fun (members, rest) =>
  p.separator 0x7D (text "faltou ',' entre campos JSON") (text "virgula final nao permitida")
      rest >>= fun next => .ok (next.map (members, ·) (members, ·))

/-- The strings and the mappings of a profile. -/
def weight (m : ProfileModel) : ℕ :=
  m.appId.length + m.appSha256.length + m.appVersion.length + m.extension.length +
    m.minVersion.length +
    (m.files.map fun mapping => mapping.source.length + mapping.target.length + 24).sum +
    (m.dlls.map fun mapping => mapping.moduleName.length + mapping.source.length + 24).sum

/-- What the fields that have been seen keep: numbers in 32 bits, one of the two
backends, no more mappings than the limits, and no zero byte in them. -/
structure Members.Bounded (members : Members) : Prop where
  schema : ∀ v, members.schema = some v → v ≤ u32Max
  files : ∀ v, members.files = some v → v.length ≤ limitMaxFiles ∧
    ∀ mapping ∈ v, 0 ∉ mapping.source ∧ 0 ∉ mapping.target
  dlls : ∀ v, members.dlls = some v → v.length ≤ limitMaxDlls ∧
    ∀ mapping ∈ v, 0 ∉ mapping.moduleName ∧ 0 ∉ mapping.source
  backend : ∀ v, members.backend = some v → v.1 = wireBackendNative ∨ v.1 = wireBackendProton

theorem le_of_digits {v n : ℕ} {re r' : ByteString} (hv : v ≤ u32Max)
    (h : p.digits v re = .ok (n, r')) : n ≤ u32Max := by
  induction re generalizing v with
  | nil =>
    cases h
    exact hv
  | cons b re ih =>
    dsimp only [digits] at h
    split at h
    · split at h
      · cases h
      · next hl => exact ih (not_lt.1 hl) h
    · cases h
      exact hv

theorem le_of_parseU32 {n : ℕ} {re r' : ByteString}
    (h : p.parseU32 re = .ok (n, r')) : n ≤ u32Max := by
  dsimp only [parseU32] at h
  split at h
  · cases h
  · split at h
    · exact le_of_digits (Nat.zero_le _) h
    · cases h

theorem once_eq_ok {α : Type} {s : Option α}
    {pa : ByteString → Except Failure (α × ByteString)} {set : α → Members} {m' : Members}
    {re r' : ByteString} (h : p.once s pa set re = .ok (m', r')) :
    ∃ v, s = none ∧ pa re = .ok (v, r') ∧ m' = set v := by
  unfold once at h
  split at h
  · cases h
  next hs =>
  obtain ⟨⟨va, r⟩, hv, h⟩ := bind_eq_ok.1 h
  cases h
  exact ⟨va, by simpa using hs, hv, rfl⟩

attribute [local simp] weight Members.toModel

theorem parseMember_spec {m m' : Members} {k re r' : ByteString}
    (h : p.parseMember m k re = .ok (m', r')) :
    weight m'.toModel + r'.length ≤ weight m.toModel + re.length ∧
      r'.length ≤ re.length ∧ (m.Bounded → m'.Bounded) := by
  unfold parseMember at h
  split at h
  · obtain ⟨v, hs, hr, rfl⟩ := once_eq_ok h
    have hl := length_parseU32 hr
    refine ⟨Nat.add_le_add_left hl _, hl, fun hm => { hm with schema := fun w hw => ?_ }⟩
    cases hw
    exact le_of_parseU32 hr
  split at h
  · obtain ⟨v, hs, hr, rfl⟩ := once_eq_ok h
    have hl := (parseString_spec hr).1
    refine ⟨?_, by omega, fun hm => { hm with }⟩
    simp [hs]
    omega
  split at h
  · obtain ⟨v, hs, hr, rfl⟩ := once_eq_ok h
    have hl := (parseString_spec hr).1
    refine ⟨?_, by omega, fun hm => { hm with }⟩
    simp [hs]
    omega
  split at h
  · obtain ⟨v, hs, hr, rfl⟩ := once_eq_ok h
    have hl := (parseString_spec hr).1
    refine ⟨?_, by omega, fun hm => { hm with }⟩
    simp [hs]
    omega
  split at h
  · obtain ⟨v, hs, hr, rfl⟩ := once_eq_ok h
    obtain ⟨he, hf⟩ := parseFiles_spec hr
    refine ⟨?_, by omega, fun hm => { hm with files := fun w hw => ?_ }⟩
    · simp [hs] at he ⊢
      omega
    · cases hw
      exact hf
  split at h
  · obtain ⟨v, hs, hr, rfl⟩ := once_eq_ok h
    obtain ⟨he, hd⟩ := parseDlls_spec hr
    refine ⟨?_, by omega, fun hm => { hm with dlls := fun w hw => ?_ }⟩
    · simp [hs] at he ⊢
      omega
    · cases hw
      exact hd
  split at h
  · obtain ⟨v, hs, hr, rfl⟩ := once_eq_ok h
    obtain ⟨hl, hk⟩ := parseBackend_spec hr
    refine ⟨?_, by omega, fun hm => { hm with backend := fun w hw => ?_ }⟩
    · simp [hs]
      omega
    · cases hw
      exact hk
  split at h
  · obtain ⟨v, hs, hr, rfl⟩ := once_eq_ok h
    have hl := (parseString_spec hr).1
    refine ⟨?_, by omega, fun hm => { hm with }⟩
    simp [hs]
    omega
  · cases h

theorem memberStep_spec {s : Members × ByteString}
    {n : (Members × ByteString) ⊕ (Members × ByteString)} (h : p.memberStep s = .ok n) :
    weight (n.elim id id).1.toModel + (n.elim id id).2.length ≤
      weight s.1.toModel + s.2.length ∧ (n.elim id id).2.length < s.2.length ∧
      (s.1.Bounded → (n.elim id id).1.Bounded) := by
  obtain ⟨k, r₁, r₂, hf, h1, h2⟩ := round_eq_ok h
  obtain ⟨h3, h4, hb⟩ := parseMember_spec hf
  exact ⟨by omega, by omega, hb⟩

variable (p) in
/-- The loop over the keys of the document. -/
def memberLoop : Loop Failure (Members × ByteString) (Members × ByteString) where
  step := p.memberStep
  measure := fun s => s.2.length
  decreases := fun _ _ h => (memberStep_spec h).2.1

variable (p) in
/-- `parse`. -/
def parse : Except Failure ProfileModel :=
  p.expect 0x7B (text "o perfil deve comecar com um objeto JSON")
      (skipWhitespace p.input) >>= fun rest =>
  let rest := skipWhitespace rest
  match consume 0x7D rest with
  | some rest => p.error rest (text "o perfil nao pode ser vazio")
  | none =>
    p.memberLoop.run exhausted ({}, rest) >>= fun (members, rest) =>
    let rest := skipWhitespace rest
    if rest ≠ [] then p.error rest (text "conteudo apos o objeto JSON")
    else if members.schema = none ∨ members.appId = none then
      p.error rest (text "schema e app_id sao obrigatorios")
    else .ok members.toModel

/-! ### What a document gives -/

/-- What the parser promises about the profile of a document of `size` bytes. -/
structure Parsed (size : ℕ) (model : ProfileModel) : Prop where
  weight : weight model ≤ size
  schema : model.schema ≤ u32Max
  files : model.files.length ≤ limitMaxFiles
  dlls : model.dlls.length ≤ limitMaxDlls
  fileBytes : ∀ mapping ∈ model.files, 0 ∉ mapping.source ∧ 0 ∉ mapping.target
  dllBytes : ∀ mapping ∈ model.dlls, 0 ∉ mapping.moduleName ∧ 0 ∉ mapping.source
  backend : model.backendKind = wireBackendNative ∨ model.backendKind = wireBackendProton

/-- **The strings of a profile and twenty-four bytes for every mapping are no more than
the input**, and its numbers are within the limits. -/
theorem parsed_of_parse {model : ProfileModel} (h : p.parse = .ok model) :
    Parsed p.input.length model := by
  obtain ⟨re, hb, h⟩ := bind_eq_ok.1 h
  have he := length_bracket hb
  dsimp only at h
  split at h
  · cases h
  obtain ⟨⟨ms, r'⟩, hl, h⟩ := bind_eq_ok.1 h
  obtain ⟨hi, ho⟩ := iterate_keeps (P := fun s : Members × ByteString =>
      weight s.1.toModel + s.2.length ≤ (skipWhitespace re).length ∧ s.1.Bounded)
    (fun s n hs hr => ⟨(memberStep_spec hr).1.trans hs.1, (memberStep_spec hr).2.2 hs.2⟩)
    ⟨by simp, by simp, by simp, by simp, by simp⟩ hl
  split at h
  · cases h
  split at h
  · cases h
  cases h
  refine ⟨by omega, ?_, ?_, ?_, ?_, ?_, ?_⟩
  · change ms.schema.getD 0 ≤ u32Max
    cases hc : ms.schema with
    | none => exact Nat.zero_le _
    | some v => exact ho.schema v hc
  · change (ms.files.getD []).length ≤ limitMaxFiles
    cases hf : ms.files with
    | none => exact Nat.zero_le _
    | some v => exact (ho.files v hf).1
  · change (ms.dlls.getD []).length ≤ limitMaxDlls
    cases hd : ms.dlls with
    | none => exact Nat.zero_le _
    | some v => exact (ho.dlls v hd).1
  · change ∀ m ∈ ms.files.getD [], 0 ∉ m.source ∧ 0 ∉ m.target
    cases hf : ms.files with
    | none => simp
    | some v => exact (ho.files v hf).2
  · change ∀ m ∈ ms.dlls.getD [], 0 ∉ m.moduleName ∧ 0 ∉ m.source
    cases hd : ms.dlls with
    | none => simp
    | some v => exact (ho.dlls v hd).2
  · change (ms.backend.map Prod.fst).getD wireBackendNative = _ ∨
      (ms.backend.map Prod.fst).getD wireBackendNative = _
    cases ha : ms.backend with
    | none => exact .inl rfl
    | some v => exact ho.backend v ha

end JsonParser
end RustJson
end TradutorLinux.Compat
