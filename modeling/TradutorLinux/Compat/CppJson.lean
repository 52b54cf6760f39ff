import Mathlib.Data.List.DropRight
import TradutorLinux.Compat.RustJson
import TradutorLinux.Util.Basics

/-!
# The JSON parser of the C++ side

`JsonParser` of `compat/profile.cpp`, which a build without Rust uses.  A
function that fails leaves the position where it stopped, here as what is left
of the input; only `parse` makes a text of it.

It is compared with the Rust parser function by function: the two read the same
documents.

## Main definitions

* `parseString`, `parsePairs`, `parseBackend`, `parse`.
* `Same x y` — both succeed with one result, or both fail.

## Main results

* `parse_agree`
-/

namespace TradutorLinux.Compat
namespace CppJson

open Option

open RustJson (JsonParser)

/-! ### Tokens -/

/-- `std::isspace` in the C locale. -/
def isspace (byte : UInt8) : Bool := byte == 0x20 || (0x09 ≤ byte && byte ≤ 0x0D)

/-- `skip_whitespace`. -/
def skipWhitespace (rest : ByteString) : ByteString := rest.dropWhile isspace

/-- `peek_raw`. -/
def peekRaw (expected : UInt8) (rest : ByteString) : Bool := rest.head? == some expected

/-- `consume_raw`. -/
def consumeRaw (expected : UInt8) (rest : ByteString) : Except ByteString ByteString :=
  if peekRaw expected rest then .ok rest.tail else .error rest

/-- The escapes of a JSON string. -/
def unescape (escaped : UInt8) : Option UInt8 :=
  if escaped = 0x22 then some 0x22
  else if escaped = 0x5C then some 0x5C
  else if escaped = 0x2F then some 0x2F
  else if escaped = 0x62 then some 0x08
  else if escaped = 0x66 then some 0x0C
  else if escaped = 0x6E then some 0x0A
  else if escaped = 0x72 then some 0x0D
  else if escaped = 0x74 then some 0x09
  else none

/-- The bytes of a string, up to the closing quote. -/
def stringBytes : ByteString → Except ByteString (ByteString × ByteString)
  | [] => .error []
  | character :: rest =>
    if character = 0x22 then .ok ([], rest)
    else if character = 0x5C then
      match rest with
      | [] => .error []
      | escaped :: rest =>
        match unescape escaped with
        | none => .error rest
        | some byte => stringBytes rest >>= fun (output, rest) => .ok (byte :: output, rest)
    else if character < 0x20 then .error rest
    else stringBytes rest >>= fun (output, rest) => .ok (character :: output, rest)

/-- `parse_string`. -/
def parseString (rest : ByteString) : Except ByteString (ByteString × ByteString) :=
  consumeRaw 0x22 (skipWhitespace rest) >>= fun rest => stringBytes rest

/-- The digits of a number, in front of which `value` was read. -/
def digits (value : ℕ) : ByteString → Except ByteString (ℕ × ByteString)
  | [] => .ok (value, [])
  | byte :: rest =>
    if isDigit byte then
      let digit := byte.toNat - 0x30
      if value > (u32Max - digit) / 10 then .error (byte :: rest)
      else digits (value * 10 + digit) rest
    else .ok (value, byte :: rest)

/-- `parse_uint32`. -/
def parseUint32 (rest : ByteString) : Except ByteString (ℕ × ByteString) :=
  let rest := skipWhitespace rest
  match rest with
  | [] => .error rest
  | byte :: _ => if isDigit byte then digits 0 rest else .error rest

/-- What follows a value: the end of the object or the array, or a comma and another value. -/
def separator (close : UInt8) (rest : ByteString) :
    Except ByteString (ByteString ⊕ ByteString) :=
  let rest := skipWhitespace rest
  match consumeRaw close rest with
  | .ok rest => .ok (.inr rest)
  | .error _ =>
    consumeRaw 0x2C rest >>= fun rest =>
    let rest := skipWhitespace rest
    if peekRaw close rest then .error rest else .ok (.inl rest)

/-! ### The tokens of the two sides -/

/-- Both succeed with one result, or both fail. -/
abbrev Same {α : Type} (x : Except Failure α) (y : Except ByteString α) : Prop :=
  Agree (fun _ _ => True) Eq x y

namespace Same

variable {α β : Type} {x : Except Failure α} {y : Except ByteString α}

theorem bind {f : α → Except Failure β} {g : α → Except ByteString β} (h : Same x y)
    (hf : ∀ a, Same (f a) (g a)) : Same (x >>= f) (y >>= g) :=
  Agree.bind h fun a _ ha => ha ▸ hf a

theorem refl_ok {a : α} : Same (.ok a) (.ok a) := rfl

theorem ok_left (h : Same x y) {a : α} (hy : y = .ok a) : x = .ok a := by
  subst hy
  cases x with
  | error e => exact h.elim
  | ok b => exact congrArg Except.ok h

end Same

theorem isspace_eq : isspace = JsonParser.isWhitespace := by
  funext byte
  have ha : ∀ n : Fin 256, isspace (UInt8.ofFin n) =
      JsonParser.isWhitespace (UInt8.ofFin n) := by decide +kernel
  exact ha byte.toFin

theorem unescape_eq : unescape = JsonParser.unescape := by
  funext byte
  have ha : ∀ n : Fin 256, unescape (UInt8.ofFin n) =
      JsonParser.unescape (UInt8.ofFin n) := by decide +kernel
  exact ha byte.toFin

theorem skipWhitespace_eq : skipWhitespace = JsonParser.skipWhitespace := by
  funext re
  unfold skipWhitespace JsonParser.skipWhitespace
  rw [isspace_eq]

theorem control_iff (b : UInt8) : b ≤ 0x1F ↔ b < 0x20 := by
  change b.toNat ≤ 31 ↔ b.toNat < 32
  omega

variable {p : JsonParser}

theorem consume_agree (e : UInt8) (m re : ByteString) :
    Same (p.expect e m re) (consumeRaw e re) := by
  unfold JsonParser.expect JsonParser.consume consumeRaw
  by_cases hp : JsonParser.peek e re
  · rw [if_pos hp, if_pos (show peekRaw e re from hp)]
    rfl
  · rw [if_neg hp, if_neg (show ¬peekRaw e re from hp)]
    trivial

theorem stringBytes_agree (re : ByteString) : Same (p.stringBytes re) (stringBytes re) := by
  fun_induction JsonParser.stringBytes p re with
  | case1 => trivial
  | case2 re =>
    unfold stringBytes
    exact Same.refl_ok
  | case3 =>
    unfold stringBytes
    trivial
  | case4 e re hu =>
    rw [← unescape_eq] at hu
    unfold stringBytes
    dsimp only
    rw [hu]
    trivial
  | case5 e re b hu hq ih =>
    rw [← unescape_eq] at hu
    unfold stringBytes
    dsimp only
    rw [hu]
    exact ih.bind fun _ => Same.refl_ok
  | case6 b re hq he hc =>
    unfold stringBytes
    rw [if_neg hq, if_neg he, if_pos ((control_iff b).1 hc)]
    trivial
  | case7 b re hq he hc ih =>
    unfold stringBytes
    rw [if_neg hq, if_neg he, if_neg fun h => hc ((control_iff b).2 h)]
    exact ih.bind fun _ => Same.refl_ok

theorem parseString_agree (re : ByteString) : Same (p.parseString re) (parseString re) := by
  unfold JsonParser.parseString parseString
  rw [skipWhitespace_eq]
  exact (consume_agree _ _ _).bind fun re => stringBytes_agree re

theorem overflow_iff {v d : ℕ} (hd : d ≤ 9) : v * 10 + d > u32Max ↔ v > (u32Max - d) / 10 := by
  unfold u32Max
  omega

theorem digit_le {b : UInt8} (h : isDigit b) : b.toNat - 0x30 ≤ 9 := by
  unfold isDigit at h
  rw [Bool.and_eq_true, decide_eq_true_eq, decide_eq_true_eq] at h
  have hl : b.toNat ≤ 0x39 := UInt8.le_iff_toNat_le.1 h.2
  omega

theorem digits_agree (re : ByteString) : ∀ v, Same (p.digits v re) (digits v re) := by
  induction re with
  | nil => intro v; exact Same.refl_ok
  | cons b re ih =>
    intro v
    unfold JsonParser.digits digits
    by_cases hb : isDigit b
    · rw [if_pos hb, if_pos hb]
      refine Agree.ite (overflow_iff (digit_le hb)) (fun _ => ?_) fun _ => ih _
      trivial
    · rw [if_neg hb, if_neg hb]
      exact Same.refl_ok

theorem parseUint32_agree (re : ByteString) : Same (p.parseU32 re) (parseUint32 re) := by
  unfold JsonParser.parseU32 parseUint32
  rw [skipWhitespace_eq]
  cases hr : JsonParser.skipWhitespace re with
  | nil => trivial
  | cons b ta =>
    refine Agree.ite Iff.rfl (fun _ => digits_agree _ _) fun _ => ?_
    trivial

theorem separator_agree (c : UInt8) (nc tr re : ByteString) :
    Same (p.separator c nc tr re) (separator c re) := by
  unfold JsonParser.separator separator
  rw [skipWhitespace_eq]
  dsimp only
  unfold JsonParser.consume consumeRaw
  by_cases hc : JsonParser.peek c (JsonParser.skipWhitespace re)
  · rw [if_pos hc, if_pos (show peekRaw _ _ from hc)]
    exact Same.refl_ok
  · rw [if_neg hc, if_neg (show ¬peekRaw _ _ from hc)]
    refine (consume_agree _ _ _).bind fun re => ?_
    refine Agree.ite Iff.rfl (fun _ => ?_) fun _ => Same.refl_ok
    trivial

/-! ### What the tokens read -/

variable {rest re rest' r' : ByteString}

theorem length_consumeRaw {e : UInt8} (h : consumeRaw e re = .ok r') : r'.length + 1 = re.length :=
  JsonParser.length_expect ((consume_agree (p := ⟨[]⟩) e [] re).ok_left h)

theorem length_parseString {re r' o : ByteString}
    (h : parseString re = .ok (o, r')) : o.length + r'.length + 2 ≤ re.length :=
  (JsonParser.parseString_spec ((parseString_agree (p := ⟨[]⟩) re).ok_left h)).1

theorem length_parseUint32 {n : ℕ} (h : parseUint32 re = .ok (n, r')) : r'.length ≤ re.length :=
  JsonParser.length_parseU32 ((parseUint32_agree (p := ⟨[]⟩) re).ok_left h)

theorem length_separator {c : UInt8} {re : ByteString} {n : ByteString ⊕ ByteString}
    (h : separator c re = .ok n) : (n.elim id id).length + 1 ≤ re.length :=
  JsonParser.length_separator ((separator_agree (p := ⟨[]⟩) c [] [] re).ok_left h)

theorem length_skipWhitespace (re : ByteString) : (skipWhitespace re).length ≤ re.length :=
  List.Sublist.length_le (List.dropWhile_sublist _)

theorem length_round {α : Type} {f : ByteString → ByteString → Except ByteString (α × ByteString)}
    {re : ByteString} {n : (α × ByteString) ⊕ (α × ByteString)}
    (h : (parseString re >>= fun (k, re) =>
      consumeRaw 0x3A (skipWhitespace re) >>= fun re =>
      f k re >>= fun (v, re) =>
      separator 0x7D re >>= fun n => .ok (n.map (v, ·) (v, ·))) = .ok n)
    (hf : ∀ k re v r', f k re = .ok (v, r') →
      r'.length ≤ re.length) : (n.elim id id).2.length < re.length := by
  simp only [bind_eq_ok, Prod.exists] at h
  obtain ⟨k, r', hk, r₁, hc, v, r₂, hv, s, hs, h⟩ := h
  have h1 := length_parseString hk
  have h2 := length_skipWhitespace r'
  have h3 := length_consumeRaw hc
  have h4 := hf _ _ _ _ hv
  have h5 := length_separator hs
  cases h
  cases s <;> simp only [Sum.map_inl, Sum.map_inr, Sum.elim_inl, Sum.elim_inr, id] at h5 ⊢ <;>
    omega

/-! ### Mappings -/

/-- The two strings of an entry, as far as they have been seen. -/
abbrev Pair := Option ByteString × Option ByteString

variable (first second : ByteString)

/-- The value of a key of an entry. -/
def parsePairField (pair : Pair) (key rest : ByteString) :
    Except ByteString (Pair × ByteString) :=
  if key = first then
    if pair.1.isSome then .error rest
    else parseString rest >>= fun (value, rest) => .ok ((some value, pair.2), rest)
  else if key = second then
    if pair.2.isSome then .error rest
    else parseString rest >>= fun (value, rest) => .ok ((pair.1, some value), rest)
  else .error rest

/-- A round of the loop over the keys of an entry. -/
def pairStep (s : Pair × ByteString) :
    Except ByteString ((Pair × ByteString) ⊕ (Pair × ByteString)) :=
  parseString s.2 >>= fun (key, rest) =>
  consumeRaw 0x3A (skipWhitespace rest) >>= fun rest =>
  parsePairField first second s.1 key rest >>= fun (pair, rest) =>
  separator 0x7D rest >>= fun next => .ok (next.map (pair, ·) (pair, ·))

variable {first second} {t : JsonParser.PairTexts}

theorem length_parsePairField {pa p' : Pair} {k re r' : ByteString}
    (h : parsePairField first second pa k re = .ok (p', r')) : r'.length ≤ re.length := by
  unfold parsePairField at h
  split at h
  · split at h
    · cases h
    obtain ⟨⟨v, r''⟩, hv, hd⟩ := bind_eq_ok.1 h
    cases hd
    have := length_parseString hv
    omega
  · split at h
    · split at h
      · cases h
      obtain ⟨⟨v, r''⟩, hv, hd⟩ := bind_eq_ok.1 h
      cases hd
      have := length_parseString hv
      omega
    · cases h

theorem length_pairStep {s : Pair × ByteString}
    {n : (Pair × ByteString) ⊕ (Pair × ByteString)} (h : pairStep first second s = .ok n) :
    (n.elim id id).2.length < s.2.length :=
  length_round h fun _ _ _ _ hf => length_parsePairField hf

variable (first second) in
/-- The loop over the keys of an entry. -/
def pairLoop : Loop ByteString (Pair × ByteString) (Pair × ByteString) where
  step := pairStep first second
  measure := fun s => s.2.length
  decreases := fun _ _ h => length_pairStep h

variable (first second) in
/-- An entry of `files` or of `dlls`. -/
def parsePair (rest : ByteString) : Except ByteString ((ByteString × ByteString) × ByteString) :=
  consumeRaw 0x7B rest >>= fun rest =>
  let rest := skipWhitespace rest
  if peekRaw 0x7D rest then .error rest
  else
    (pairLoop first second).run [] ((none, none), rest) >>= fun (pair, rest) =>
    match pair with
    | (some first, some second) => .ok ((first, second), rest)
    | _ => .error rest

/-- The state of the loop over the entries. -/
abbrev Pairs := List (ByteString × ByteString)

variable (first second) in
/-- A round of the loop over the entries. -/
def pairsStep (s : Pairs × ByteString) :
    Except ByteString ((Pairs × ByteString) ⊕ (Pairs × ByteString)) :=
  parsePair first second s.2 >>= fun (pair, rest) =>
  let values := s.1 ++ [pair]
  separator 0x5D rest >>= fun next => .ok (next.map (values, ·) (values, ·))

theorem parsePairField_agree (hn : t.first ≠ t.second) (pa : Pair) (k re : ByteString) :
    Same (p.parsePairField t pa k re) (parsePairField t.first t.second pa k re) := by
  unfold JsonParser.parsePairField parsePairField
  by_cases hf : k = t.first
  · subst hf
    cases hs : pa.1 with
    | none =>
      simp only [and_true, if_true, isSome_none, Bool.false_eq_true, if_false]
      exact (parseString_agree re).bind fun _ => Same.refl_ok
    | some v =>
      simp only [reduceCtorEq, and_false, if_false, hn, false_and, true_or, if_true,
        isSome_some]
      trivial
  · rw [if_neg fun h => hf h.1, if_neg hf]
    by_cases he : k = t.second
    · subst he
      cases hs : pa.2 with
      | none =>
        simp only [and_true, if_true, isSome_none, Bool.false_eq_true, if_false]
        exact (parseString_agree re).bind fun _ => Same.refl_ok
      | some v =>
        simp only [reduceCtorEq, and_false, if_false, or_true, if_true, isSome_some]
        trivial
    · rw [if_neg fun h => he h.1, if_neg he, if_neg (by tauto)]
      trivial

theorem pairStep_agree (hn : t.first ≠ t.second) (s : Pair × ByteString) :
    Same (p.pairStep t s) (pairStep t.first t.second s) := by
  unfold JsonParser.pairStep pairStep
  rw [skipWhitespace_eq]
  refine (parseString_agree s.2).bind fun k => ?_
  refine (consume_agree _ _ _).bind fun re => ?_
  refine (parsePairField_agree hn s.1 k.1 re).bind fun pa => ?_
  exact (separator_agree _ _ _ _).bind fun _ => Same.refl_ok

theorem run_agree {σ σ' ρ ρ' : Type} {r : Loop Failure σ ρ} {c : Loop ByteString σ' ρ'}
    {R : σ → σ' → Prop} {S : ρ → ρ' → Prop}
    (ht : ∀ s s', R s s' → Agree (fun _ _ => True) (Sum.LiftRel R S) (r.step s) (c.step s'))
    (hm : ∀ s s', R s s' → r.measure s = c.measure s') {e : Failure} {e' : ByteString}
    {s : σ} {s' : σ'} (hs : R s s') : Agree (fun _ _ => True) S (r.run e s) (c.run e' s') := by
  unfold Loop.run
  rw [hm s s' hs]
  exact iterate_agree ht trivial _ hs

theorem run_same {σ ρ : Type} {ru : Loop Failure σ ρ} {c : Loop ByteString σ ρ}
    (ht : ∀ s, Same (ru.step s) (c.step s)) (hm : ru.measure = c.measure)
    {e : Failure} {e' : ByteString} (s : σ) : Same (ru.run e s) (c.run e' s) := by
  refine run_agree (R := Eq) (S := Eq) (fun s s' hs => ?_) (fun s s' hs => hs ▸ congrFun hm s) rfl
  subst hs
  refine (ht s).mono fun n n' hn => ?_
  subst hn
  cases n with
  | inl s' => exact Sum.LiftRel.inl rfl
  | inr r => exact Sum.LiftRel.inr rfl

theorem skipWhitespace_idem (rest : ByteString) :
    JsonParser.skipWhitespace (JsonParser.skipWhitespace rest) =
      JsonParser.skipWhitespace rest := by
  exact List.dropWhile_idempotent _ _

theorem parsePair_agree (hn : t.first ≠ t.second) (re : ByteString) :
    Same (p.parsePair t (JsonParser.skipWhitespace re))
      (parsePair t.first t.second (JsonParser.skipWhitespace re)) := by
  unfold JsonParser.parsePair parsePair
  rw [skipWhitespace_idem, skipWhitespace_eq]
  refine (consume_agree _ _ _).bind fun re => ?_
  dsimp only
  unfold JsonParser.consume
  by_cases hc : JsonParser.peek 0x7D (JsonParser.skipWhitespace re)
  · rw [if_pos hc, if_pos (show peekRaw _ _ from hc)]
    trivial
  rw [if_neg hc, if_neg (show ¬peekRaw _ _ from hc)]
  refine (run_same (pairStep_agree hn) rfl _).bind fun pa => ?_
  obtain ⟨⟨s, tg⟩, r'⟩ := pa
  cases s with
  | none => trivial
  | some s =>
    cases tg with
    | none => trivial
    | some tg => exact Same.refl_ok

theorem length_parsePair {pa : ByteString × ByteString}
    (h : parsePair first second re = .ok (pa, r')) : r'.length < re.length := by
  obtain ⟨r₁, hb, h⟩ := bind_eq_ok.1 h
  have h1 := length_consumeRaw hb
  have h2 := length_skipWhitespace r₁
  dsimp only at h
  split at h
  · cases h
  obtain ⟨⟨p', r₂⟩, hl, h⟩ := bind_eq_ok.1 h
  have he := iterate_keeps
    (P := fun s : Pair × ByteString => s.2.length ≤ (skipWhitespace r₁).length)
    (fun s n hs hr => (length_pairStep hr).le.trans hs) (le_refl _) hl
  split at h
  · cases h
    omega
  · cases h

theorem length_pairsStep {s : Pairs × ByteString}
    {n : (Pairs × ByteString) ⊕ (Pairs × ByteString)} (h : pairsStep first second s = .ok n) :
    (n.elim id id).2.length < s.2.length := by
  obtain ⟨⟨pa, re⟩, hp, h⟩ := bind_eq_ok.1 h
  obtain ⟨st, hs, h⟩ := bind_eq_ok.1 h
  have h1 := length_parsePair hp
  have h2 := length_separator hs
  cases h
  cases st <;> simp only [Sum.map_inl, Sum.map_inr, Sum.elim_inl, Sum.elim_inr, id] at h2 ⊢ <;>
    omega

variable (first second) in
/-- The loop over the entries. -/
def pairsLoop : Loop ByteString (Pairs × ByteString) (Pairs × ByteString) where
  step := pairsStep first second
  measure := fun s => s.2.length
  decreases := fun _ _ h => length_pairsStep h

variable (first second) in
/-- `parse_files` and `parse_dlls`. -/
def parsePairs (rest : ByteString) : Except ByteString (Pairs × ByteString) :=
  consumeRaw 0x5B (skipWhitespace rest) >>= fun rest =>
  let rest := skipWhitespace rest
  match consumeRaw 0x5D rest with
  | .ok rest => .ok ([], rest)
  | .error _ => (pairsLoop first second).run [] ([], rest)

theorem length_parsePairs {ps : Pairs}
    (h : parsePairs first second re = .ok (ps, r')) : r'.length ≤ re.length := by
  obtain ⟨r₁, hb, h⟩ := bind_eq_ok.1 h
  have h1 := length_consumeRaw hb
  have h2 := length_skipWhitespace re
  have h3 := length_skipWhitespace r₁
  dsimp only at h
  split at h
  · next r₂ hc =>
    cases h
    have := length_consumeRaw hc
    omega
  · have hl := iterate_keeps
      (P := fun s : Pairs × ByteString => s.2.length ≤ (skipWhitespace r₁).length)
      (fun s next hs hr => (length_pairsStep hr).le.trans hs) (le_refl _) h
    dsimp only at hl
    omega

theorem skipped_separator {c : UInt8} {nc tr rest rest' : ByteString}
    (h : p.separator c nc tr rest = .ok (.inl rest')) :
    JsonParser.skipWhitespace rest' = rest' := by
  dsimp only [JsonParser.separator] at h
  split at h
  · cases h
  obtain ⟨r₁, -, hr⟩ := bind_eq_ok.1 h
  split at hr
  · cases hr
  · cases hr
    exact skipWhitespace_idem r₁

/-- The keys and the punctuation of an entry. -/
theorem count_le_pairsWeight (pairs : Pairs) (hf : t.first.length = 6)
    (hs : t.second.length = 6) : 24 * pairs.length ≤ JsonParser.pairsWeight t pairs := by
  unfold JsonParser.pairsWeight
  induction pairs with
  | nil => exact le_refl _
  | cons pa pairs ih =>
    simp only [List.map_cons, List.sum_cons, List.length_cons]
    omega

theorem skipped_pairsStep {s s' : Pairs × ByteString} (h : p.pairsStep t s = .ok (.inl s')) :
    JsonParser.skipWhitespace s'.2 = s'.2 := by
  obtain ⟨⟨pa, re⟩, -, h⟩ := bind_eq_ok.1 h
  dsimp only at h
  split at h
  · cases h
  obtain ⟨st, hs, h⟩ := bind_eq_ok.1 h
  cases st with
  | inl r' =>
    cases h
    exact skipped_separator hs
  | inr r' => cases h

/-- What the Rust loop over the entries keeps. -/
def Entries (t : JsonParser.PairTexts) (s s' : Pairs × ByteString) : Prop :=
  s = s' ∧ JsonParser.skipWhitespace s.2 = s.2 ∧
    JsonParser.pairsWeight t s.1 + s.2.length ≤ limitMaxInputBytes

theorem pairsStep_agree (hne : t.first ≠ t.second) (hf : t.first.length = 6)
    (he : t.second.length = 6) (hl : 43690 ≤ t.limit) {s s' : Pairs × ByteString}
    (hs : Entries t s s') :
    Agree (fun _ _ => True) (Sum.LiftRel (Entries t) Eq) (p.pairsStep t s)
      (pairsStep t.first t.second s') := by
  obtain ⟨rfl, hk, hw⟩ := hs
  have hsa : Same (p.pairsStep t s) (pairsStep t.first t.second s) := by
    have hp := parsePair_agree (p := p) hne s.2
    rw [hk] at hp
    refine (hp.and_left fun a ha => (JsonParser.parsePair_spec ha).1).bind ?_
    rintro pair _ ⟨rfl, hr⟩
    have hc := count_le_pairsWeight (s.1 ++ [pair.1]) hf he
    have hu : JsonParser.pairsWeight t (s.1 ++ [pair.1]) = JsonParser.pairsWeight t s.1 +
        (pair.1.1.length + pair.1.2.length + (t.first.length + t.second.length + 12)) := by
      simp [JsonParser.pairsWeight]
    have hfe : ¬(s.1 ++ [pair.1]).length > t.limit := by
      unfold limitMaxInputBytes at hw
      omega
    dsimp only
    rw [if_neg hfe]
    exact (separator_agree _ _ _ _).bind fun _ => Same.refl_ok
  refine (hsa.and_left fun next hn => hn).mono ?_
  rintro next _ ⟨rfl, hn⟩
  cases next with
  | inl s' =>
    refine Sum.LiftRel.inl ⟨rfl, skipped_pairsStep hn, ?_⟩
    exact (JsonParser.pairsStep_spec hn).1.trans hw
  | inr s' => exact Sum.LiftRel.inr rfl

theorem parsePairs_agree (hn : t.first ≠ t.second) (hf : t.first.length = 6)
    (he : t.second.length = 6) (hl : 43690 ≤ t.limit) {re : ByteString}
    (hr : re.length ≤ limitMaxInputBytes) :
    Same (p.parsePairs t re) (parsePairs t.first t.second re) := by
  unfold JsonParser.parsePairs parsePairs
  rw [skipWhitespace_eq]
  have hk := JsonParser.length_skipWhitespace re
  refine ((consume_agree (p := p) 0x5B t.invalid (JsonParser.skipWhitespace re)).and_left
    fun _ h => JsonParser.length_expect h).bind ?_
  rintro rest₁ _ ⟨rfl, ho⟩
  have hs₁ := JsonParser.length_skipWhitespace rest₁
  dsimp only
  unfold JsonParser.consume consumeRaw
  by_cases hc : JsonParser.peek 0x5D (JsonParser.skipWhitespace rest₁)
  · rw [if_pos hc, if_pos (show peekRaw _ _ from hc)]
    exact Same.refl_ok
  rw [if_neg hc, if_neg (show ¬peekRaw _ _ from hc)]
  refine run_agree (R := Entries t) (S := Eq) (fun s s' hs => pairsStep_agree hn hf he hl hs)
    (fun s s' hs => congrArg _ (congrArg Prod.snd hs.1)) ⟨rfl, skipWhitespace_idem rest₁, ?_⟩
  change 0 + (JsonParser.skipWhitespace rest₁).length ≤ _
  omega

/-- `parse_files`. -/
def parseFiles (rest : ByteString) : Except ByteString (List FileMapping × ByteString) :=
  parsePairs (text "source") (text "target") rest >>= fun (pairs, rest) =>
    .ok (pairs.map fun pair => ⟨pair.1, pair.2⟩, rest)

/-- `parse_dlls`. -/
def parseDlls (rest : ByteString) : Except ByteString (List DllMapping × ByteString) :=
  parsePairs (text "module") (text "source") rest >>= fun (pairs, rest) =>
    .ok (pairs.map fun pair => ⟨pair.1, pair.2⟩, rest)

theorem parseFiles_agree {re : ByteString} (hr : re.length ≤ limitMaxInputBytes) :
    Same (p.parseFiles re) (parseFiles re) :=
  (parsePairs_agree (t := JsonParser.filesTexts) (by decide +kernel) (by decide +kernel)
    (by decide +kernel) (by decide) hr).bind fun _ => Same.refl_ok

theorem parseDlls_agree {re : ByteString} (hr : re.length ≤ limitMaxInputBytes) :
    Same (p.parseDlls re) (parseDlls re) :=
  (parsePairs_agree (t := JsonParser.dllsTexts) (by decide +kernel) (by decide +kernel)
    (by decide +kernel) (by decide) hr).bind fun _ => Same.refl_ok

theorem length_parseFiles {fs : List FileMapping}
    (h : parseFiles re = .ok (fs, r')) : r'.length ≤ re.length := by
  obtain ⟨⟨ps, r''⟩, hp, hd⟩ := bind_eq_ok.1 h
  cases hd
  exact length_parsePairs hp

theorem length_parseDlls {ds : List DllMapping}
    (h : parseDlls re = .ok (ds, r')) : r'.length ≤ re.length := by
  obtain ⟨⟨ps, r''⟩, hp, hd⟩ := bind_eq_ok.1 h
  cases hd
  exact length_parsePairs hp

/-! ### The backend -/

/-- The fields of `backend`, as far as they have been seen. -/
abbrev Backend := Option BackendKind × Option ByteString

/-- The value of a key of `backend`. -/
def parseBackendField (backend : Backend) (key rest : ByteString) :
    Except ByteString (Backend × ByteString) :=
  if key = text "kind" then
    if backend.1.isSome then .error rest
    else
      parseString rest >>= fun (kind, rest) =>
      if kind = text "native" then .ok ((some .native, backend.2), rest)
      else if kind = text "proton" then .ok ((some .proton, backend.2), rest)
      else .error rest
  else if key = text "min_version" then
    if backend.2.isSome then .error rest
    else parseString rest >>= fun (value, rest) => .ok ((backend.1, some value), rest)
  else .error rest

/-- A round of the loop over the keys of `backend`. -/
def backendStep (s : Backend × ByteString) :
    Except ByteString ((Backend × ByteString) ⊕ (Backend × ByteString)) :=
  parseString s.2 >>= fun (key, rest) =>
  consumeRaw 0x3A (skipWhitespace rest) >>= fun rest =>
  parseBackendField s.1 key rest >>= fun (backend, rest) =>
  separator 0x7D rest >>= fun next => .ok (next.map (backend, ·) (backend, ·))

theorem length_parseBackendField {b b' : Backend} {k re r' : ByteString}
    (h : parseBackendField b k re = .ok (b', r')) : r'.length ≤ re.length := by
  unfold parseBackendField at h
  split at h
  · split at h
    · cases h
    obtain ⟨⟨v, r''⟩, hv, h⟩ := bind_eq_ok.1 h
    have := length_parseString hv
    dsimp only at h
    split at h
    · cases h
      omega
    · split at h
      · cases h
        omega
      · cases h
  · split at h
    · split at h
      · cases h
      obtain ⟨⟨v, r''⟩, hv, h⟩ := bind_eq_ok.1 h
      have := length_parseString hv
      cases h
      omega
    · cases h

theorem length_backendStep {s : Backend × ByteString}
    {n : (Backend × ByteString) ⊕ (Backend × ByteString)} (h : backendStep s = .ok n) :
    (n.elim id id).2.length < s.2.length :=
  length_round h fun _ _ _ _ hf => length_parseBackendField hf

/-- The loop over the keys of `backend`. -/
def backendLoop : Loop ByteString (Backend × ByteString) (Backend × ByteString) where
  step := backendStep
  measure := fun s => s.2.length
  decreases := fun _ _ h => length_backendStep h

/-- `parse_backend`. -/
def parseBackend (rest : ByteString) : Except ByteString (BackendSelection × ByteString) :=
  consumeRaw 0x7B (skipWhitespace rest) >>= fun rest =>
  let rest := skipWhitespace rest
  match consumeRaw 0x7D rest with
  | .ok rest => .error rest
  | .error _ =>
    backendLoop.run [] ((none, none), rest) >>= fun (backend, rest) =>
    match backend.1 with
    | some kind => .ok (⟨kind, backend.2.getD []⟩, rest)
    | none => .error rest

theorem length_parseBackend {b : BackendSelection}
    (h : parseBackend re = .ok (b, r')) : r'.length ≤ re.length := by
  obtain ⟨r₁, hb, h⟩ := bind_eq_ok.1 h
  have h1 := length_consumeRaw hb
  have h2 := length_skipWhitespace re
  have h3 := length_skipWhitespace r₁
  dsimp only at h
  split at h
  · cases h
  obtain ⟨⟨b', r₂⟩, hl, h⟩ := bind_eq_ok.1 h
  have he := iterate_keeps
    (P := fun s : Backend × ByteString => s.2.length ≤ (skipWhitespace r₁).length)
    (fun s n hs hr => (length_backendStep hr).le.trans hs) (le_refl _) hl
  split at h
  · cases h
    omega
  · cases h

/-- One state of the loop over the keys of `backend`, on the two sides. -/
structure SameBackend (s : JsonParser.Backend × ByteString) (s' : Backend × ByteString) : Prop where
  kind : s'.1.1 = s.1.1.map backendKindOf
  minVersion : s'.1.2 = s.1.2
  rest : s'.2 = s.2

theorem parseBackendField_agree {b : JsonParser.Backend} {b' : Backend}
    (ke re : ByteString) (h : SameBackend (b, re) (b', re)) :
    Agree (fun _ _ => True) SameBackend (p.parseBackendField b ke re)
      (parseBackendField b' ke re) := by
  obtain ⟨k, ve⟩ := b
  obtain ⟨k', v'⟩ := b'
  obtain ⟨hk, hv, -⟩ := h
  dsimp only at hk hv
  subst hk hv
  unfold JsonParser.parseBackendField parseBackendField
  by_cases he : ke = text "kind"
  · subst he
    cases k with
    | none =>
      simp only [and_true, if_true, map_none, isSome_none, Bool.false_eq_true,
        if_false]
      refine Agree.bind (parseString_agree re) ?_
      rintro ⟨v, r'⟩ _ rfl
      refine Agree.ite Iff.rfl (fun _ => ⟨rfl, rfl, rfl⟩) fun _ => ?_
      refine Agree.ite Iff.rfl (fun _ => ⟨rfl, rfl, rfl⟩) fun _ => ?_
      trivial
    | some k =>
      trivial
  · rw [if_neg fun h => he h.1, if_neg he, if_neg he]
    by_cases hv : ke = text "min_version"
    · subst hv
      rw [if_pos rfl]
      cases v' with
      | none =>
        simp only [and_true, if_true, isSome_none, Bool.false_eq_true, if_false]
        refine Agree.bind (parseString_agree re) ?_
        rintro ⟨v, r'⟩ _ rfl
        exact ⟨rfl, rfl, rfl⟩
      | some ve =>
        simp only [reduceCtorEq, and_false, if_false, if_true, isSome_some]
        trivial
    · rw [if_neg fun h => hv h.1, if_neg hv, if_neg hv]
      trivial

theorem backendStep_agree {s : JsonParser.Backend × ByteString} {s' : Backend × ByteString}
    (hs : SameBackend s s') :
    Agree (fun _ _ => True) (Sum.LiftRel SameBackend SameBackend) (p.backendStep s)
      (backendStep s') := by
  unfold JsonParser.backendStep backendStep
  rw [skipWhitespace_eq, hs.rest]
  refine Agree.bind (parseString_agree s.2) ?_
  rintro ⟨k, re⟩ _ rfl
  refine Agree.bind (consume_agree _ _ _) ?_
  rintro rest₁ _ rfl
  refine (parseBackendField_agree k rest₁ { hs with rest := rfl }).bind ?_
  rintro ⟨b, rest₂⟩ ⟨b', r₂'⟩ hbackend
  obtain rfl : r₂' = rest₂ := hbackend.rest
  refine Agree.bind (separator_agree _ _ _ _) ?_
  rintro stop _ rfl
  cases stop with
  | inl re => exact Sum.LiftRel.inl { hbackend with rest := rfl }
  | inr re => exact Sum.LiftRel.inr { hbackend with rest := rfl }

/-- The selection that a backend of the Rust side stands for. -/
def selection (backend : ℕ × ByteString) : BackendSelection :=
  ⟨backendKindOf backend.1, backend.2⟩

theorem parseBackend_agree (re : ByteString) :
    Agree (fun _ _ => True) (fun a b => b = (selection a.1, a.2)) (p.parseBackend re)
      (parseBackend re) := by
  unfold JsonParser.parseBackend parseBackend
  rw [skipWhitespace_eq]
  refine Agree.bind (consume_agree _ _ _) ?_
  rintro rest₁ _ rfl
  dsimp only
  unfold JsonParser.consume consumeRaw
  by_cases hc : JsonParser.peek 0x7D (JsonParser.skipWhitespace rest₁)
  · rw [if_pos hc, if_pos (show peekRaw _ _ from hc)]
    trivial
  rw [if_neg hc, if_neg (show ¬peekRaw _ _ from hc)]
  refine (run_agree (R := SameBackend) (S := SameBackend) (fun s s' hs => backendStep_agree hs)
    (fun s s' hs => congrArg List.length hs.rest.symm) ⟨rfl, rfl, rfl⟩).bind ?_
  rintro ⟨ba, rest₂⟩ ⟨b', r₂'⟩ hbackend
  obtain rfl : r₂' = rest₂ := hbackend.rest
  obtain ⟨k, version⟩ := ba
  obtain ⟨k', v'⟩ := b'
  have hk : k' = k.map backendKindOf := hbackend.kind
  have hv : v' = version := hbackend.minVersion
  subst hk hv
  cases k with
  | none => trivial
  | some k => rfl

/-! ### The document -/

/-- The fields of the document, as far as they have been seen. -/
structure Members where
  schema : Option ℕ := none
  appId : Option ByteString := none
  appSha256 : Option ByteString := none
  appVersion : Option ByteString := none
  files : Option (List FileMapping) := none
  dlls : Option (List DllMapping) := none
  backend : Option BackendSelection := none
  extension : Option ByteString := none

/-- The profile with the fields that have been seen. -/
def Members.toProfile (members : Members) : Profile where
  schema := members.schema.getD 0
  appId := members.appId.getD []
  appSha256 := members.appSha256.getD []
  appVersion := members.appVersion.getD []
  extension := members.extension.getD []
  files := members.files.getD []
  dlls := members.dlls.getD []
  backend := members.backend.getD {}
  backendDeclared := members.backend.isSome
  extensionDeclared := members.extension.isSome

variable (input : ByteString)

/-- `fail`: the text of an error, with the position. -/
def failText (rest message : ByteString) : ByteString :=
  message ++ text " (posição " ++ decimal (input.length - rest.length) ++ text ")"

/-- A function that returns false, and the text of the error then. -/
def orFail {α : Type} (message : ByteString) (x : Except ByteString α) : Except ByteString α :=
  match x with
  | .ok a => .ok a
  | .error rest => .error (failText input rest message)

/-- A field that must not have been seen before. -/
def once {α : Type} (seen : Option α) (parse : ByteString → Except ByteString (α × ByteString))
    (set : α → Members) (message rest : ByteString) : Except ByteString (Members × ByteString) :=
  orFail input message
    (if seen.isSome then .error rest
      else parse rest >>= fun (value, rest) => .ok (set value, rest))

/-- The value of a key of the document. -/
def parseMember (m : Members) (key rest : ByteString) : Except ByteString (Members × ByteString) :=
  if key = text "schema" then
    once input m.schema parseUint32 (fun v => { m with schema := some v })
      (text "campo schema inválido ou repetido") rest
  else if key = text "app_id" then
    once input m.appId parseString (fun v => { m with appId := some v })
      (text "campo app_id inválido ou repetido") rest
  else if key = text "app_sha256" then
    once input m.appSha256 parseString (fun v => { m with appSha256 := some v })
      (text "campo app_sha256 inválido ou repetido") rest
  else if key = text "app_version" then
    once input m.appVersion parseString (fun v => { m with appVersion := some v })
      (text "campo app_version inválido ou repetido") rest
  else if key = text "files" then
    once input m.files parseFiles (fun v => { m with files := some v })
      (text "campo files inválido ou repetido") rest
  else if key = text "dlls" then
    once input m.dlls parseDlls (fun v => { m with dlls := some v })
      (text "campo dlls inválido ou repetido") rest
  else if key = text "backend" then
    once input m.backend parseBackend (fun v => { m with backend := some v })
      (text "campo backend inválido ou repetido") rest
  else if key = text "extension" then
    once input m.extension parseString (fun v => { m with extension := some v })
      (text "campo extension inválido ou repetido") rest
  else .error (failText input rest (text "campo desconhecido: " ++ key))

def memberSeparator (rest : ByteString) : Except ByteString (ByteString ⊕ ByteString) :=
  let rest := skipWhitespace rest
  match consumeRaw 0x7D rest with
  | .ok rest => .ok (.inr rest)
  | .error _ =>
    orFail input (text "faltou ',' entre campos JSON") (consumeRaw 0x2C rest) >>= fun rest =>
    let rest := skipWhitespace rest
    if peekRaw 0x7D rest then .error (failText input rest (text "vírgula final não permitida"))
    else .ok (.inl rest)

/-- A round of the loop over the keys of the document. -/
def memberStep (s : Members × ByteString) :
    Except ByteString ((Members × ByteString) ⊕ (Members × ByteString)) :=
  orFail input (text "chave JSON inválida") (parseString s.2) >>= fun (key, rest) =>
  orFail input (text "faltou ':' após chave JSON") (consumeRaw 0x3A (skipWhitespace rest)) >>=
    fun rest =>
  parseMember input s.1 key rest >>= fun (members, rest) =>
  memberSeparator input rest >>= fun next => .ok (next.map (members, ·) (members, ·))

variable {input}

theorem orFail_eq_ok {α : Type} {m : ByteString} {x : Except ByteString α} {a : α} :
    orFail input m x = .ok a ↔ x = .ok a := by
  unfold orFail
  cases x <;> simp

/-- The text does not matter. -/
theorem agree_orFail {α β : Type} {R : α → β → Prop} {m : ByteString}
    {x : Except Failure α} {y : Except ByteString β} (h : Agree (fun _ _ => True) R x y) :
    Agree (fun _ _ => True) R x (orFail input m y) := by
  cases x <;> cases y
  · trivial
  · exact h.elim
  · exact h.elim
  · exact h

theorem length_once {α : Type} {s : Option α}
    {pa : ByteString → Except ByteString (α × ByteString)} {set : α → Members} {m' : Members}
    {m re r' : ByteString} (h : once input s pa set m re = .ok (m', r'))
    (hp : ∀ v r, pa re = .ok (v, r) → r.length ≤ re.length) : r'.length ≤ re.length := by
  unfold once at h
  rw [orFail_eq_ok] at h
  split at h
  · cases h
  · obtain ⟨⟨va, r⟩, hv, h⟩ := bind_eq_ok.1 h
    cases h
    exact hp va r' hv

theorem length_parseMember {m m' : Members} {k re r' : ByteString}
    (h : parseMember input m k re = .ok (m', r')) : r'.length ≤ re.length := by
  have hs : ∀ v r, parseString re = .ok (v, r) → r.length ≤ re.length := by
    intro v r hr
    have := length_parseString hr
    omega
  unfold parseMember at h
  split at h
  · exact length_once h fun v r hr => length_parseUint32 hr
  split at h
  · exact length_once h hs
  split at h
  · exact length_once h hs
  split at h
  · exact length_once h hs
  split at h
  · exact length_once h fun v r hr => length_parseFiles hr
  split at h
  · exact length_once h fun v r hr => length_parseDlls hr
  split at h
  · exact length_once h fun v r hr => length_parseBackend hr
  split at h
  · exact length_once h hs
  · cases h

theorem memberSeparator_agree (re nc tr : ByteString) :
    Same (p.separator 0x7D nc tr re) (memberSeparator input re) := by
  unfold JsonParser.separator memberSeparator
  rw [skipWhitespace_eq]
  dsimp only
  unfold JsonParser.consume
  by_cases hc : JsonParser.peek 0x7D (JsonParser.skipWhitespace re)
  · have ho : consumeRaw 0x7D (JsonParser.skipWhitespace re) =
        .ok (JsonParser.skipWhitespace re).tail := if_pos hc
    rw [if_pos hc, ho]
    exact Same.refl_ok
  · have ho : consumeRaw 0x7D (JsonParser.skipWhitespace re) =
        .error (JsonParser.skipWhitespace re) := if_neg hc
    rw [if_neg hc, ho]
    refine Same.bind (agree_orFail (consume_agree _ _ _)) fun re => ?_
    refine Agree.ite Iff.rfl (fun _ => ?_) fun _ => Same.refl_ok
    trivial

theorem length_memberStep {s : Members × ByteString}
    {n : (Members × ByteString) ⊕ (Members × ByteString)}
    (h : memberStep input s = .ok n) : (n.elim id id).2.length < s.2.length := by
  simp only [memberStep, bind_eq_ok, Prod.exists] at h
  obtain ⟨k, re, hk, r', hc, ms, r'', hm, st, hs, h⟩ := h
  have h1 := length_parseString (orFail_eq_ok.1 hk)
  have h2 := length_skipWhitespace re
  have h3 := length_consumeRaw (orFail_eq_ok.1 hc)
  have h4 := length_parseMember hm
  have h5 := JsonParser.length_separator
    ((memberSeparator_agree (p := ⟨[]⟩) r'' [] []).ok_left hs)
  cases h
  cases st <;> simp only [Sum.map_inl, Sum.map_inr, Sum.elim_inl, Sum.elim_inr, id] at h5 ⊢ <;>
    omega

variable (input) in
/-- The loop over the keys of the document. -/
def memberLoop : Loop ByteString (Members × ByteString) (Members × ByteString) where
  step := memberStep input
  measure := fun s => s.2.length
  decreases := fun _ _ h => length_memberStep h

variable (input) in
/-- `parse`. -/
def parse : Except ByteString Profile :=
  orFail input (text "o perfil deve começar com um objeto JSON")
      (consumeRaw 0x7B (skipWhitespace input)) >>= fun rest =>
  let rest := skipWhitespace rest
  match consumeRaw 0x7D rest with
  | .ok rest => .error (failText input rest (text "o perfil não pode ser vazio"))
  | .error _ =>
    (memberLoop input).run [] ({}, rest) >>= fun (members, rest) =>
    let rest := skipWhitespace rest
    if rest ≠ [] then .error (failText input rest (text "conteúdo após o objeto JSON"))
    else if members.schema = none ∨ members.appId = none then
      .error (failText input rest (text "schema e app_id são obrigatórios"))
    else .ok members.toProfile

/-! ### The documents of the two sides -/

/-- The fields that have been seen, on the two sides. -/
structure SameMembers (m : JsonParser.Members) (m' : Members) : Prop where
  schema : m'.schema = m.schema
  appId : m'.appId = m.appId
  appSha256 : m'.appSha256 = m.appSha256
  appVersion : m'.appVersion = m.appVersion
  files : m'.files = m.files
  dlls : m'.dlls = m.dlls
  backend : m'.backend = m.backend.map selection
  extension : m'.extension = m.extension

def SameResult (s : JsonParser.Members × ByteString) (s' : Members × ByteString) : Prop :=
  SameMembers s.1 s'.1 ∧ s'.2 = s.2

theorem once_agree {α β : Type} {va : α → β} {s : Option α} {s' : Option β}
    {pa : ByteString → Except Failure (α × ByteString)}
    {p' : ByteString → Except ByteString (β × ByteString)} {set : α → JsonParser.Members}
    {se' : β → Members} {m re : ByteString} (hs : s' = s.map va)
    (hp : Agree (fun _ _ => True) (fun a b => b = (va a.1, a.2)) (pa re) (p' re))
    (he : ∀ v, SameMembers (set v) (se' (va v))) :
    Agree (fun _ _ => True) SameResult (p.once s pa set re) (once input s' p' se' m re) := by
  subst hs
  refine agree_orFail ?_
  refine Agree.ite (by rw [isSome_map]) (fun _ => ?_) fun _ => ?_
  · trivial
  · refine Agree.bind hp ?_
    rintro ⟨v, r⟩ _ rfl
    exact ⟨he v, rfl⟩

theorem agree_id {α : Type} {x : Except Failure (α × ByteString)}
    {y : Except ByteString (α × ByteString)} (h : Same x y) :
    Agree (fun _ _ => True) (fun a b => b = (id a.1, a.2)) x y :=
  h.mono fun _ _ ha => ha.symm

theorem parseMember_agree {m : JsonParser.Members} {m' : Members} (h : SameMembers m m')
    (k : ByteString) {re : ByteString} (hr : re.length ≤ limitMaxInputBytes) :
    Agree (fun _ _ => True) SameResult (p.parseMember m k re) (parseMember input m' k re) := by
  obtain ⟨hs, ha, hh, hv, hf, hd, hb, he⟩ := h
  have hi : ∀ {α : Type} {s s' : Option α}, s' = s → s' = s.map id := by
    intro α s s' heq
    rw [heq, map_id]
    rfl
  unfold JsonParser.parseMember parseMember
  split
  · exact once_agree (hi hs) (agree_id (parseUint32_agree re)) fun v =>
      ⟨rfl, ha, hh, hv, hf, hd, hb, he⟩
  split
  · exact once_agree (hi ha) (agree_id (parseString_agree re)) fun v =>
      ⟨hs, rfl, hh, hv, hf, hd, hb, he⟩
  split
  · exact once_agree (hi hh) (agree_id (parseString_agree re)) fun v =>
      ⟨hs, ha, rfl, hv, hf, hd, hb, he⟩
  split
  · exact once_agree (hi hv) (agree_id (parseString_agree re)) fun v =>
      ⟨hs, ha, hh, rfl, hf, hd, hb, he⟩
  split
  · exact once_agree (hi hf) (agree_id (parseFiles_agree hr)) fun v =>
      ⟨hs, ha, hh, hv, rfl, hd, hb, he⟩
  split
  · exact once_agree (hi hd) (agree_id (parseDlls_agree hr)) fun v =>
      ⟨hs, ha, hh, hv, hf, rfl, hb, he⟩
  split
  · exact once_agree hb (parseBackend_agree re) fun v =>
      ⟨hs, ha, hh, hv, hf, hd, rfl, he⟩
  split
  · exact once_agree (hi he) (agree_id (parseString_agree re)) fun v =>
      ⟨hs, ha, hh, hv, hf, hd, hb, rfl⟩
  · trivial

/-- One state of the loop over the document, with what is left of it within the limit. -/
def SameState (s : JsonParser.Members × ByteString) (s' : Members × ByteString) : Prop :=
  SameResult s s' ∧ s.2.length ≤ limitMaxInputBytes

theorem memberStep_agree {s : JsonParser.Members × ByteString} {s' : Members × ByteString}
    (hs : SameState s s') :
    Agree (fun _ _ => True) (Sum.LiftRel SameState SameState) (p.memberStep s)
      (memberStep input s') := by
  obtain ⟨⟨hb, hr⟩, hi⟩ := hs
  have ha : Agree (fun _ _ => True) (Sum.LiftRel SameResult SameResult) (p.memberStep s)
      (memberStep input s') := by
    unfold JsonParser.memberStep memberStep
    rw [skipWhitespace_eq, hr]
    refine Agree.bind (agree_orFail
      ((parseString_agree s.2).and_left fun _ h => (JsonParser.parseString_spec h).1)) ?_
    rintro ⟨k, re⟩ _ ⟨rfl, hk⟩
    refine Agree.bind (agree_orFail
      ((consume_agree _ _ _).and_left fun _ h => JsonParser.length_expect h)) ?_
    rintro rest₁ _ ⟨rfl, hc⟩
    have hsk := JsonParser.length_skipWhitespace re
    dsimp only at hk
    refine Agree.bind (parseMember_agree hb k (by omega)) ?_
    rintro ⟨ms, rest₂⟩ ⟨ms', r₂'⟩ ⟨hm, hr₂⟩
    obtain rfl : r₂' = rest₂ := hr₂
    refine Agree.bind (memberSeparator_agree _ _ _) ?_
    rintro stop _ rfl
    cases stop with
    | inl re => exact Sum.LiftRel.inl ⟨hm, rfl⟩
    | inr re => exact Sum.LiftRel.inr ⟨hm, rfl⟩
  refine (ha.and_left fun n hn => hn).mono ?_
  rintro n n' ⟨hn, ht⟩
  have hl := (JsonParser.memberStep_spec ht).2.1
  cases hn with
  | inl he =>
    refine Sum.LiftRel.inl ⟨he, ?_⟩
    simp only [Sum.elim_inl, id] at hl
    omega
  | inr he =>
    refine Sum.LiftRel.inr ⟨he, ?_⟩
    simp only [Sum.elim_inr, id] at hl
    omega

/-- One profile on the two sides: the C++ side may take an empty extension as declared. -/
structure SameProfile (model : ProfileModel) (profile : Profile) : Prop where
  eq : profile = { model.toProfile with extensionDeclared := profile.extensionDeclared }
  declared : model.extension ≠ [] → profile.extensionDeclared = true

theorem sameProfile_of_sameMembers {m : JsonParser.Members} {m' : Members}
    (h : SameMembers m m') : SameProfile m.toModel m'.toProfile := by
  obtain ⟨hs, ha, hh, hv, hf, hd, hb, he⟩ := h
  refine ⟨?_, fun hn => ?_⟩
  · unfold Members.toProfile ProfileModel.toProfile JsonParser.Members.toModel
    rw [hs, ha, hh, hv, hf, hd, hb, he]
    cases m.backend <;> rfl
  · change m'.extension.isSome
    rw [he]
    have hg : m.extension.getD [] ≠ [] := hn
    cases hx : m.extension with
    | none =>
      rw [hx] at hg
      exact absurd rfl hg
    | some e => rfl

/-- **The two parsers accept the same documents**, and give the same profiles but for
an empty extension. -/
theorem parse_agree (hi : input.length ≤ limitMaxInputBytes) :
    Agree (fun _ _ => True) SameProfile (⟨input⟩ : JsonParser).parse (parse input) := by
  unfold JsonParser.parse parse
  rw [skipWhitespace_eq]
  have hk := JsonParser.length_skipWhitespace input
  refine Agree.bind (agree_orFail
    ((consume_agree _ _ _).and_left fun _ h => JsonParser.length_expect h)) ?_
  rintro re _ ⟨rfl, hb⟩
  have hs' := JsonParser.length_skipWhitespace re
  dsimp only
  unfold JsonParser.consume
  by_cases hc : JsonParser.peek 0x7D (JsonParser.skipWhitespace re)
  · have ho : consumeRaw 0x7D (JsonParser.skipWhitespace re) =
        .ok (JsonParser.skipWhitespace re).tail := if_pos hc
    rw [if_pos hc, ho]
    trivial
  · have ho : consumeRaw 0x7D (JsonParser.skipWhitespace re) =
        .error (JsonParser.skipWhitespace re) := if_neg hc
    rw [if_neg hc, ho]
    have ht : SameState ({}, JsonParser.skipWhitespace re) ({}, JsonParser.skipWhitespace re) :=
      ⟨⟨⟨rfl, rfl, rfl, rfl, rfl, rfl, rfl, rfl⟩, rfl⟩, by dsimp only at *; omega⟩
    refine Agree.bind (run_agree (R := SameState) (S := SameState)
      (fun s s' hs => memberStep_agree hs)
      (fun s s' hs => congrArg List.length hs.1.2.symm) ht) ?_
    rintro ⟨ms, rest₁⟩ ⟨ms', r₁'⟩ ⟨⟨hm, hr₁⟩, -⟩
    obtain rfl : r₁' = rest₁ := hr₁
    dsimp only at hm ⊢
    refine Agree.ite Iff.rfl (fun _ => ?_) fun _ => ?_
    · trivial
    · refine Agree.ite (by rw [hm.schema, hm.appId]) (fun _ => ?_) fun _ => ?_
      · trivial
      · exact sameProfile_of_sameMembers hm

/-- **What one parser accepts, the other does**, as the same profile. -/
theorem parsers_agree (hi : input.length ≤ limitMaxInputBytes) :
    ((∃ m, (⟨input⟩ : JsonParser).parse = .ok m) ↔ ∃ p, parse input = .ok p) ∧
      ∀ m p, (⟨input⟩ : JsonParser).parse = .ok m → parse input = .ok p → SameProfile m p :=
  ⟨(parse_agree hi).isOk_iff, fun _ _ => (parse_agree hi).of_ok⟩

/-- A document with a file and an extension. -/
def withExtension : ByteString :=
  text "\x7b\"schema\":1,\"app_id\":\"a\",\"extension\":\"e\"," ++
    text "\"files\":[\x7b\"source\":\"x\",\"target\":\"C:/y\"\x7d]\x7d"

theorem parsers_agree_withExtension : ∃ m p, (⟨withExtension⟩ : JsonParser).parse = .ok m ∧
    parse withExtension = .ok p ∧ m.files.length = 1 ∧ SameProfile m p := by
  have hm : (⟨withExtension⟩ : JsonParser).parse.toOption.map (fun m => m.files.length) =
      some 1 := by
    decide +kernel
  cases hp : (⟨withExtension⟩ : JsonParser).parse with
  | error e =>
    rw [hp] at hm
    cases hm
  | ok m =>
    rw [hp] at hm
    obtain ⟨hiff, hsame⟩ := @parsers_agree withExtension (by decide +kernel)
    obtain ⟨p, hc⟩ := hiff.mp ⟨m, hp⟩
    exact ⟨m, p, rfl, hc, Option.some.inj hm, hsame m p hp hc⟩

end CppJson
end TradutorLinux.Compat
