import TradutorLinux.Process.Unicode

/-!
# Names as strings

`format_name` of `crypt32.cpp` writes the attributes of a name one behind the other, each
with a label in front of its value, and puts a value into quotes where it could be taken
for something else.

## Main definitions

* `formatName` — the function; `nameLabel` and `appendNameValue` are its parts.

## Main results

* `nameLabel_append`, `appendNameValue_append`, `formatName_injOn`
-/

namespace TradutorLinux.Crypt32

open List Process

structure NameAttribute where
  oid : ByteString
  value : List UInt16

def knownNames : List (ByteString × ByteString) :=
  [(text "2.5.4.3", text "CN"), (text "2.5.4.4", text "SN"),
    (text "2.5.4.5", text "SERIALNUMBER"), (text "2.5.4.6", text "C"), (text "2.5.4.7", text "L"),
    (text "2.5.4.8", text "S"), (text "2.5.4.10", text "O"), (text "2.5.4.11", text "OU"),
    (text "2.5.4.12", text "T"), (text "2.5.4.42", text "G"), (text "2.5.4.43", text "I"),
    (text "1.2.840.113549.1.9.1", text "E")]

/-- The label of an identifier, where it is not the identifier itself. -/
def knownLabel (oid : ByteString) : ByteString :=
  match knownNames.find? (·.1 = oid) with
  | some known => known.2
  | none => text "OID." ++ oid

def nameLabel (oid : ByteString) (stringType : UInt32) : List UInt16 :=
  if stringType = 1 then []
  else if stringType = 2 then utf8ToWide oid
  else utf8ToWide (knownLabel oid)

def isSpace (c : UInt16) : Bool := c = 0x20 || c = 0x09 || c = 0x0D || c = 0x0A

/-- `, + = " \`, a line feed, `< > # ;`. -/
def isSpecial (c : UInt16) : Bool :=
  c ∈ [0x2C, 0x2B, 0x3D, 0x22, 0x5C, 0x0A, 0x3C, 0x3E, 0x23, 0x3B]

def nameValueNeedsQuotes (value : List UInt16) : Bool :=
  value.isEmpty || value.head?.any isSpace || value.getLast?.any isSpace || value.any isSpecial

/-- What `append_name_value` appends. -/
def appendNameValue (value : List UInt16) (noQuoting : Bool) : List UInt16 :=
  if noQuoting || !nameValueNeedsQuotes value then value
  else 0x22 :: value.flatMap (fun c => if c = 0x22 then [c, 0x22] else [c]) ++ [0x22]

def kSemicolonFlag : UInt32 := 0x40000000
def kCrlfFlag : UInt32 := 0x08000000
def kNoQuotingFlag : UInt32 := 0x10000000
def kReverseFlag : UInt32 := 0x02000000

def separator (stringType : UInt32) : List UInt16 :=
  if stringType &&& kCrlfFlag ≠ 0 then [0x0D, 0x0A]
  else if stringType &&& kSemicolonFlag ≠ 0 then [0x3B, 0x20]
  else [0x2C, 0x20]

/-- One round of the loop, behind the separator. -/
def formatAttribute (stringType : UInt32) (a : NameAttribute) : List UInt16 :=
  let label := nameLabel a.oid (stringType &&& 0xFF)
  (if label = [] then [] else label ++ [0x3D]) ++
    appendNameValue a.value (stringType &&& kNoQuotingFlag ≠ 0)

/-- The loop of `format_name`. -/
def formatAttributes (stringType : UInt32) : List NameAttribute → List UInt16
  | [] => []
  | a :: rest =>
    formatAttribute stringType a ++
      rest.flatMap fun b => separator stringType ++ formatAttribute stringType b

def formatName (attributes : List NameAttribute) (stringType : UInt32) : List UInt16 :=
  formatAttributes stringType
    (if stringType &&& kReverseFlag ≠ 0 then attributes.reverse else attributes)

/-! ### Labels -/

/-- Digits and dots. -/
def IsDotted (oid : ByteString) : Prop :=
  oid ≠ [] ∧ ∀ c ∈ oid, c = 0x2E ∨ (0x30 ≤ c ∧ c ≤ 0x39)

/-- ASCII without an equals sign. -/
def IsLabel (s : ByteString) : Prop := s ≠ [] ∧ ∀ c ∈ s, c < 0x80 ∧ c ≠ 0x3D

instance (s : ByteString) : Decidable (IsLabel s) := inferInstanceAs (Decidable (_ ∧ _))

variable {a b s t : ByteString}

theorem utf8ToWide_ascii (hs : ∀ c ∈ s, c < 0x80) : utf8ToWide s = s.map UInt8.toUInt16 := by
  induction s with
  | nil => rfl
  | cons c s ih =>
    rw [utf8ToWide_cons (hs c mem_cons_self), ih fun d hd => hs d (mem_cons_of_mem c hd), map_cons]

theorem IsDotted.isLabel (h : IsDotted a) : IsLabel a := by
  refine ⟨h.1, fun c hc => ?_⟩
  rcases h.2 c hc with rfl | ⟨hl, hu⟩
  · decide
  · refine ⟨UInt8.lt_of_le_of_lt hu (by decide), ?_⟩
    rintro rfl
    exact absurd hu (by decide)

theorem knownLabel_isLabel (h : IsDotted a) : IsLabel (knownLabel a) := by
  unfold knownLabel
  cases hf : knownNames.find? (·.1 = a) with
  | some k =>
    have ha : ∀ k ∈ knownNames, IsLabel k.2 := by decide +kernel
    exact ha k (mem_of_find?_eq_some hf)
  | none =>
    have ho : ∀ c ∈ text "OID.", c < 0x80 ∧ c ≠ 0x3D := by decide +kernel
    refine ⟨fun hn => h.1 (append_eq_nil_iff.1 hn).2, fun c hc => ?_⟩
    exact (mem_append.1 hc).elim (ho c) (h.isLabel.2 c)

theorem knownLabel_inj (h : knownLabel a = knownLabel b) : a = b := by
  have hn : ∀ k ∈ knownNames, ∀ k' ∈ knownNames, k.2 = k'.2 → k.1 = k'.1 := by decide +kernel
  have ho : ∀ k ∈ knownNames, ¬text "OID." <+: k.2 := by decide +kernel
  unfold knownLabel at h
  cases ha : knownNames.find? (·.1 = a) with
  | some k =>
    have hk : k.1 = a := by simpa using find?_some ha
    cases hb : knownNames.find? (·.1 = b) with
    | some k' =>
      have hk' : k'.1 = b := by simpa using find?_some hb
      rw [ha, hb] at h
      rw [← hk, ← hk']
      exact hn k (mem_of_find?_eq_some ha) k' (mem_of_find?_eq_some hb) h
    | none =>
      rw [ha, hb] at h
      exact absurd ⟨b, h.symm⟩ (ho k (mem_of_find?_eq_some ha))
  | none =>
    cases hb : knownNames.find? (·.1 = b) with
    | some k' =>
      rw [ha, hb] at h
      exact absurd ⟨a, h⟩ (ho k' (mem_of_find?_eq_some hb))
    | none =>
      rw [ha, hb] at h
      exact append_cancel_left h

variable {x y v w sep : List UInt16} {stringType : UInt32}

theorem append_cons_inj {d : UInt16} (hv : d ∉ v) (hw : d ∉ w) (h : v ++ d :: x = w ++ d :: y) :
    v = w ∧ x = y := by
  induction v generalizing w with
  | nil =>
    cases w with
    | nil => exact ⟨rfl, (cons.inj h).2⟩
    | cons e w => exact absurd ((cons.inj h).1 ▸ mem_cons_self) hw
  | cons c v ih =>
    cases w with
    | nil => exact absurd ((cons.inj h).1 ▸ mem_cons_self) hv
    | cons e w =>
      obtain ⟨rfl, ht⟩ := cons.inj h
      obtain ⟨rfl, hx⟩ := ih (not_mem_of_not_mem_cons hv) (not_mem_of_not_mem_cons hw) ht
      exact ⟨rfl, hx⟩

/-- A label ends at its equals sign. -/
theorem nameLabel_append (hty : stringType = 2 ∨ stringType = 3) (ha : IsDotted a) (hb : IsDotted b)
    (h : nameLabel a stringType ++ 0x3D :: x = nameLabel b stringType ++ 0x3D :: y) :
    a = b ∧ x = y := by
  have hl : ∀ {s t : ByteString}, IsLabel s → IsLabel t →
      utf8ToWide s ++ 0x3D :: x = utf8ToWide t ++ 0x3D :: y → s = t ∧ x = y := by
    intro s t hs ht heq
    have hnot : ∀ {s : ByteString}, IsLabel s → 0x3D ∉ s.map UInt8.toUInt16 := by
      intro s hs hm
      obtain ⟨c, hc, hv⟩ := mem_map.1 hm
      refine (hs.2 c hc).2 (UInt8.toNat_inj.1 ?_)
      simpa using congrArg UInt16.toNat hv
    rw [utf8ToWide_ascii fun c hc => (hs.2 c hc).1,
      utf8ToWide_ascii fun c hc => (ht.2 c hc).1] at heq
    obtain ⟨hp, hx⟩ := append_cons_inj (hnot hs) (hnot ht) heq
    refine ⟨map_injective_iff.2 (fun c d hv => ?_) hp, hx⟩
    exact UInt8.toNat_inj.1 (by simpa using congrArg UInt16.toNat hv)
  rcases hty with rfl | rfl
  · exact hl ha.isLabel hb.isLabel h
  · obtain ⟨heq, hx⟩ := hl (knownLabel_isLabel ha) (knownLabel_isLabel hb) h
    exact ⟨knownLabel_inj heq, hx⟩

theorem nameLabel_ne_nil (hty : stringType = 2 ∨ stringType = 3) (ha : IsDotted a) :
    nameLabel a stringType ≠ [] := by
  have hn : ∀ {s : ByteString}, IsLabel s → utf8ToWide s ≠ [] := by
    intro s hs
    rw [utf8ToWide_ascii fun c hc => (hs.2 c hc).1]
    exact fun hi => hs.1 (map_eq_nil_iff.1 hi)
  rcases hty with rfl | rfl
  · exact hn ha.isLabel
  · exact hn (knownLabel_isLabel ha)

/-! ### Values -/

/-- The end of the string, or a separator. -/
def Follows (sep x : List UInt16) : Prop := x = [] ∨ ∃ rest, x = sep ++ rest

theorem quoted_append (hx : x.head? ≠ some 0x22) (hy : y.head? ≠ some 0x22) :
    (v.flatMap fun c => if c = 0x22 then [c, 0x22] else [c]) ++ 0x22 :: x =
      (w.flatMap fun c => if c = 0x22 then [c, 0x22] else [c]) ++ 0x22 :: y → v = w ∧ x = y := by
  induction v generalizing w with
  | nil =>
    cases w with
    | nil => simp
    | cons d w =>
      by_cases hd : d = 0x22
      · intro h
        simp [hd] at h
        simp [h] at hx
      · simp [hd, Ne.symm hd]
  | cons c v ih =>
    cases w with
    | nil =>
      by_cases hc : c = 0x22
      · intro h
        simp [hc] at h
        simp [← h] at hy
      · simp [hc]
    | cons d w =>
      intro h
      have hcd : c = d := by
        by_cases hc : c = 0x22
        · by_cases hd : d = 0x22
          · rw [hc, hd]
          · simp [hc, hd, Ne.symm hd] at h
        · by_cases hd : d = 0x22
          · simp [hc, hd] at h
          · simpa [hc, hd] using (cons.inj (by simpa [hc, hd] using h)).1
      subst hcd
      rw [flatMap_cons, flatMap_cons, append_assoc, append_assoc] at h
      obtain ⟨rfl, hxy⟩ := ih (append_cancel_left h)
      exact ⟨rfl, hxy⟩

theorem separator_shape (stringType : UInt32) : ∃ f d ba,
    separator stringType = f ++ d :: ba ∧ isSpecial d ∧ d ∉ f ∧
      (f ++ d :: ba).head? ≠ some 0x22 := by
  unfold separator
  split_ifs
  · exact ⟨[0x0D], 0x0A, [], rfl, by decide, by decide, by decide⟩
  · exact ⟨[], 0x3B, [0x20], rfl, by decide, by decide, by decide⟩
  · exact ⟨[], 0x2C, [0x20], rfl, by decide, by decide, by decide⟩

theorem plain_of_not_needsQuotes (h : nameValueNeedsQuotes v = false) :
    v ≠ [] ∧ ∀ c ∈ v, isSpecial c = false := by
  simp only [nameValueNeedsQuotes, Bool.or_eq_false_iff, any_eq_false, isEmpty_eq_false_iff,
    Bool.not_eq_true] at h
  exact ⟨h.1.1.1, h.2⟩

/-- **Where a value ends is known from the value.** -/
theorem appendNameValue_append (hx : Follows (separator stringType) x)
    (hy : Follows (separator stringType) y)
    (h : appendNameValue v false ++ x = appendNameValue w false ++ y) : v = w ∧ x = y := by
  obtain ⟨f, d, ba, he, hs, hf, hu⟩ := separator_shape stringType
  rw [he] at hx hy
  have hh : ∀ {x}, Follows (f ++ d :: ba) x → x.head? ≠ some 0x22 := by
    rintro x (rfl | ⟨re, rfl⟩)
    · exact nofun
    · rwa [head?_append_of_ne_nil _ (by simp)]
  -- a value without quotes does not begin with one
  have hp : ∀ {v w x y : List UInt16}, nameValueNeedsQuotes v = false →
      v ++ x ≠ 0x22 :: w ++ [0x22] ++ y := by
    intro v w x y hv heq
    obtain ⟨hn, ha⟩ := plain_of_not_needsQuotes hv
    obtain ⟨c, v, rfl⟩ := exists_cons_of_ne_nil hn
    obtain ⟨rfl, -⟩ := cons.inj heq
    exact absurd (ha _ mem_cons_self) (by decide)
  unfold appendNameValue at h
  cases hv : nameValueNeedsQuotes v with
  | true =>
    cases hw : nameValueNeedsQuotes w with
    | true =>
      simp only [hv, hw, Bool.not_true, Bool.or_self, Bool.false_eq_true, if_false] at h
      rw [cons_append, cons_append, append_assoc, append_assoc] at h
      exact quoted_append (hh hx) (hh hy) (cons.inj h).2
    | false =>
      simp only [hv, hw, Bool.not_true, Bool.not_false, Bool.or_self, Bool.or_true,
        Bool.false_eq_true, if_false, if_true] at h
      exact absurd h.symm (hp hw)
  | false =>
    cases hw : nameValueNeedsQuotes w with
    | true =>
      simp only [hv, hw, Bool.not_true, Bool.not_false, Bool.or_self, Bool.or_true,
        Bool.false_eq_true, if_false, if_true] at h
      exact absurd h (hp hv)
    | false =>
      simp only [hv, hw, Bool.not_false, Bool.or_true, if_true] at h
      have hnot : ∀ {v : List UInt16}, nameValueNeedsQuotes v = false → d ∉ v := by
        intro v hv hm
        rw [(plain_of_not_needsQuotes hv).2 d hm] at hs
        cases hs
      rcases hx with rfl | ⟨r, rfl⟩
      · rcases hy with rfl | ⟨r', rfl⟩
        · exact ⟨by simpa using h, rfl⟩
        · rw [append_nil] at h
          exact absurd (by simp [h]) (hnot hv)
      · rcases hy with rfl | ⟨r', rfl⟩
        · rw [append_nil] at h
          exact absurd (by simp [← h]) (hnot hw)
        · have h' : (v ++ f) ++ d :: (ba ++ r) = (w ++ f) ++ d :: (ba ++ r') := by simpa using h
          obtain ⟨hvw, hr⟩ := append_cons_inj (by simp [hnot hv, hf]) (by simp [hnot hw, hf]) h'
          exact ⟨append_cancel_right hvw, by simp [append_cancel_left hr]⟩

/-! ### Names -/

theorem follows_flatMap (stringType : UInt32) (as : List NameAttribute) :
    Follows (separator stringType)
      (as.flatMap fun b => separator stringType ++ formatAttribute stringType b) := by
  cases as with
  | nil => exact .inl rfl
  | cons a as => exact .inr ⟨_, by rw [flatMap_cons, append_assoc]⟩

section Names

variable (hty : stringType &&& 0xFF = 2 ∨ stringType &&& 0xFF = 3)
  (hq : stringType &&& kNoQuotingFlag = 0) {a b : NameAttribute} {as bs : List NameAttribute}

include hty

theorem formatAttribute_ne_nil (ha : IsDotted a.oid) : formatAttribute stringType a ≠ [] := by
  simp [formatAttribute, nameLabel_ne_nil hty ha]

include hq

theorem formatAttribute_append (ha : IsDotted a.oid) (hb : IsDotted b.oid)
    (hx : Follows (separator stringType) x) (hy : Follows (separator stringType) y)
    (h : formatAttribute stringType a ++ x = formatAttribute stringType b ++ y) :
    a = b ∧ x = y := by
  have hs : ∀ {a : NameAttribute} {x : List UInt16}, IsDotted a.oid →
      formatAttribute stringType a ++ x =
        nameLabel a.oid (stringType &&& 0xFF) ++ 0x3D :: (appendNameValue a.value false ++ x) := by
    intro a x ha
    simp [formatAttribute, nameLabel_ne_nil hty ha, hq]
  rw [hs ha, hs hb] at h
  obtain ⟨ho, hr⟩ := nameLabel_append hty ha hb h
  obtain ⟨hv, hxy⟩ := appendNameValue_append hx hy hr
  cases a
  cases b
  simp_all

theorem formatRest_inj (ha : ∀ a ∈ as, IsDotted a.oid) (hb : ∀ b ∈ bs, IsDotted b.oid)
    (h : (as.flatMap fun b => separator stringType ++ formatAttribute stringType b) =
      bs.flatMap fun b => separator stringType ++ formatAttribute stringType b) : as = bs := by
  have hn : separator stringType ≠ [] := by
    obtain ⟨f, d, ba, hs, -⟩ := separator_shape stringType
    simp [hs]
  induction as generalizing bs with
  | nil =>
    cases bs with
    | nil => rfl
    | cons b bs => simp [hn] at h
  | cons a as ih =>
    cases bs with
    | nil => simp [hn] at h
    | cons b bs =>
      rw [flatMap_cons, flatMap_cons, append_assoc, append_assoc] at h
      obtain ⟨rfl, hr⟩ := formatAttribute_append hty hq (ha a mem_cons_self)
        (hb b mem_cons_self) (follows_flatMap _ as) (follows_flatMap _ bs) (append_cancel_left h)
      rw [ih (fun c hc => ha c (mem_cons_of_mem a hc)) (fun c hc => hb c (mem_cons_of_mem a hc))
        hr]

theorem formatAttributes_inj (ha : ∀ a ∈ as, IsDotted a.oid) (hb : ∀ b ∈ bs, IsDotted b.oid)
    (h : formatAttributes stringType as = formatAttributes stringType bs) : as = bs := by
  cases as with
  | nil =>
    cases bs with
    | nil => rfl
    | cons b bs =>
      have hn := formatAttribute_ne_nil hty (hb b mem_cons_self)
      simp [formatAttributes, hn] at h
  | cons a as =>
    cases bs with
    | nil =>
      have hn := formatAttribute_ne_nil hty (ha a mem_cons_self)
      simp [formatAttributes, hn] at h
    | cons b bs =>
      -- with one more separator in front, all attributes are like those behind the first
      refine formatRest_inj hty hq ha hb ?_
      rw [flatMap_cons, flatMap_cons, append_assoc, append_assoc]
      exact congrArg (separator stringType ++ ·) h

end Names

/-- **Names with the same string are the same.** -/
theorem formatName_injOn (stringType : UInt32)
    (hty : stringType &&& 0xFF = 2 ∨ stringType &&& 0xFF = 3)
    (hq : stringType &&& kNoQuotingFlag = 0) :
    Set.InjOn (formatName · stringType) {as | ∀ a ∈ as, IsDotted a.oid} := by
  intro as ha bs hb h
  unfold formatName at h
  simp only at h
  split_ifs at h
  · refine reverse_injective (formatAttributes_inj hty hq ?_ ?_ h)
    · exact fun a hm => ha a (mem_reverse.mp hm)
    · exact fun b hm => hb b (mem_reverse.mp hm)
  · exact formatAttributes_inj hty hq ha hb h

/-- Labels of X.500 between semicolons, in reverse. -/
theorem formatName_injOn_semicolons :
    Set.InjOn (formatName · 0x42000003) {as | ∀ a ∈ as, IsDotted a.oid} :=
  formatName_injOn 0x42000003 (by decide) (by decide)

end TradutorLinux.Crypt32
