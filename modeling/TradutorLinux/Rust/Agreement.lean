import TradutorLinux.Pe.Stages
import TradutorLinux.Rust.Directories
import TradutorLinux.Rust.UnwindData

/-!
# The two parsers, compared

The C++ parser is documented as the oracle of the Rust parser, which is
canonical for the main image of a native run.  Here the headers and the section
table are compared, and the stages are put together.

The parsers part in three places.  C++ checks the alignments and the entry
point of the optional header (`AlignmentDiverges`); Rust does not.  C++ takes a
directory that is only in virtual memory as absent (`PhantomExports`,
`PhantomExceptions`, `PhantomRelocations`); Rust rejects it.  C++ checks the
shape of the TLS directory and the number of its callbacks (`TlsContract`); Rust
takes a directory it cannot read as absent and has a larger limit.

## Main definitions

* `Contract data` — the parsers reach none of these.

## Main results

* `parse_agree`, `accepted`
-/

namespace TradutorLinux.Rust

open Pe Parser

open Pe (PeInfo PeParser ParseStatus Failure RvaRange ParseResult SameHeaders)

/-! ### Headers -/

/-- The parsers have read the same COFF header, and the optional header and
the section table lie in the file. -/
structure SameCoff (data : ByteString) (c : Pe.CoffHeader) (r : Parser.CoffHeader) : Prop where
  coff : c.coffOffset = r.coff
  machine : c.machine = r.machine
  sectionCount : c.sectionCount = r.sectionCount
  optionalSize : c.optionalSize = r.optionalSize
  characteristics : c.characteristics = r.characteristics
  optional : 112 ≤ r.optionalSize.toNat
  table : r.sectionTable + r.sectionCount.toNat * 40 ≤ data.length

variable {p : PeParser} {q : Parser}

/-- The DOS and the COFF header.  Only C++ looks at `e_lfanew` alone, but the
COFF header behind it is then truncated for both. -/
theorem readCoff_agree (q : Parser) : Agree SameError (SameCoff q.data)
      (Pe.readDosHeader q.data >>= Pe.readCoffHeader q.data)
      (q.readDosHeader >>= q.readCoffHeader) := by
  unfold Pe.readDosHeader Parser.readDosHeader
  by_cases hs : q.data.length < 64
  · rw [if_pos (show q.data.length < kDosHeaderSize from hs),
      if_pos (show q.data.length < dosHeaderSize from hs)]
    exact agree_truncated
  rw [if_neg (show ¬q.data.length < kDosHeaderSize from hs),
    if_neg (show ¬q.data.length < dosHeaderSize from hs),
    getU16_eq (by omega), ok_bind, getU32_eq (by omega), ok_bind]
  dsimp only
  generalize ((Pe.readU32 q.data 60).getD 0).toNat = nt
  by_cases hm : (Pe.readU16 q.data 0).getD 0 ≠ 0x5a4d
  · rw [if_pos (show _ ≠ kDosMagic from hm), if_pos hm]
    exact agree_malformed
  rw [if_neg (show ¬_ ≠ kDosMagic from hm), if_neg hm, ok_bind]
  by_cases hin : nt + 24 ≤ q.data.length
  · rw [if_neg (by simp only [kPeSignatureOffset]; omega), ok_bind]
    have hin' : ¬(!inRange q.data.length nt (4 + coffHeaderSize)) :=
      mt not_inRange_iff.1 (not_lt.2 hin)
    unfold Pe.readCoffHeader Parser.readCoffHeader
    rw [if_neg (show ¬(!inRange q.data.length nt
      (kPeSignatureOffset + kCoffHeaderSize)) from hin'), if_neg hin',
      getU32_eq (by omega), ok_bind]
    refine Agree.ite Iff.rfl (fun _ => agree_malformed) fun _ => ?_
    dsimp only
    rw [getU16_eq (by omega), ok_bind, getU16_eq (by omega), ok_bind,
      getU16_eq (by omega), ok_bind, getU16_eq (by omega), ok_bind]
    refine Agree.ite Iff.rfl (fun _ => .inl rfl) fun _ => ?_
    refine Agree.ite Iff.rfl (fun _ => agree_malformed) fun hopt => ?_
    refine Agree.ite Iff.rfl (fun _ => agree_truncated) fun ht => ?_
    rw [not_or, gt_iff_lt, gt_iff_lt, not_lt, not_lt] at ht
    refine ⟨rfl, rfl, rfl, rfl, rfl, not_lt.1 hopt, ?_⟩
    have hmul := Nat.mul_le_of_le_div _ _ _ ht.2
    have hle := ht.1
    change nt + 4 + 20 + ((Pe.readU16 q.data (nt + 4 + 16)).getD 0).toNat +
      ((Pe.readU16 q.data (nt + 4 + 2)).getD 0).toNat * 40 ≤ _
    change nt + 4 + 20 + ((Pe.readU16 q.data (nt + 4 + 16)).getD 0).toNat ≤ _ at hle
    change ((Pe.readU16 q.data (nt + 4 + 2)).getD 0).toNat * 40 ≤
      q.data.length - (nt + 4 + 20 + ((Pe.readU16 q.data (nt + 4 + 16)).getD 0).toNat) at hmul
    omega
  · have hout : (!inRange q.data.length nt (4 + coffHeaderSize)) :=
      not_inRange_iff.2 (not_le.1 hin)
    have hr : q.readCoffHeader nt =
        truncated phaseCoffHeader nt (4 + coffHeaderSize) (text "cabeçalho NT/COFF truncado") := by
      unfold Parser.readCoffHeader
      rw [if_pos hout]
    rw [hr]
    by_cases hlfa : nt > q.data.length - kPeSignatureOffset
    · rw [if_pos hlfa]
      exact agree_truncated
    rw [if_neg hlfa, ok_bind]
    unfold Pe.readCoffHeader
    rw [if_pos (show (!inRange q.data.length nt
      (kPeSignatureOffset + kCoffHeaderSize)) from hout)]
    exact agree_truncated

/-- A PE32+ optional header whose sizes Rust accepts, while C++ rejects an
alignment or the entry point. -/
def AlignmentDiverges (data : ByteString) (c : Pe.CoffHeader) : Prop :=
  let entryPoint := (Pe.readU32 data (c.optOffset + 16)).getD 0
  let sectionAlignment := (Pe.readU32 data (c.optOffset + 32)).getD 0
  let fileAlignment := (Pe.readU32 data (c.optOffset + 36)).getD 0
  let sizeOfImage := (Pe.readU32 data (c.optOffset + 56)).getD 0
  let sizeOfHeaders := (Pe.readU32 data (c.optOffset + 60)).getD 0
  (Pe.readU16 data c.optOffset).getD 0 = kOptionalMagic64 ∧
    ¬(sizeOfImage = 0 ∨ sizeOfHeaders = 0 ∨ sizeOfHeaders > sizeOfImage ∨ sectionAlignment = 0) ∧
    (validAlignment sectionAlignment fileAlignment sizeOfImage sizeOfHeaders = false ∨
      (entryPoint ≠ 0 ∧ entryPoint ≥ sizeOfImage))

theorem not_validAlignment {sa fa soi soh : UInt32} (h : soi = 0 ∨ soh = 0 ∨ soh > soi ∨ sa = 0) :
    validAlignment sa fa soi soh = false := by
  unfold validAlignment Pe.isPowerOfTwo
  rcases h with h | h | h | h <;> simp [h]

/-- The optional header read by both; the sections are read behind it. -/
structure SameInfo (c : PeInfo) (r : Info) : Prop where
  image : c = Model.toPeInfo { info := r }

variable {data da d : ByteString}

theorem readDirectory_eq (hd : q.data = d) {off n i s : ℕ}
    (hc : n * 8 ≤ s) (hs : off + s ≤ d.length) :
    q.readDirectory off n i = .ok ⟨(Pe.readDirectory d off n i).1,
        (Pe.readDirectory d off n i).2⟩ := by
  subst hd
  unfold Parser.readDirectory Pe.readDirectory
  by_cases hin : n > i
  · rw [if_pos hin, if_pos hin, getU32_eq (by omega), ok_bind,
      getU32_eq (by omega), ok_bind]
    rfl
  · rw [if_neg hin, if_neg hin]

/-- **The optional headers agree, unless only the alignments or the entry point
are wrong.** -/
theorem readOptionalHeader_agree {c : Pe.CoffHeader} {r : Parser.CoffHeader}
    (hco : SameCoff q.data c r) (hdiv : ¬AlignmentDiverges q.data c) :
    Agree SameError SameInfo (Pe.readOptionalHeader q.data c) (q.readOptionalHeader r) := by
  have hopt : c.optOffset = r.opt := by
    unfold Pe.CoffHeader.optOffset Parser.CoffHeader.opt
    rw [hco.coff]
    rfl
  have hend : r.opt + r.optionalSize.toNat ≤ q.data.length := by
    have := hco.table
    unfold Parser.CoffHeader.sectionTable at this
    omega
  have hs := hco.optional
  unfold AlignmentDiverges at hdiv
  unfold Pe.readOptionalHeader Parser.readOptionalHeader Parser.readInfo
  rw [hopt] at hdiv ⊢
  rw [getU16_eq (by omega), ok_bind]
  refine Agree.ite Iff.rfl (fun _ => .inl rfl) fun _ => ?_
  refine Agree.ite Iff.rfl (fun _ => agree_malformed) fun hm => ?_
  rw [not_not] at hm
  rw [getU32_eq (by omega), ok_bind, getU64_eq (by omega), ok_bind,
    getU32_eq (by omega), ok_bind, getU32_eq (by omega), ok_bind,
    getU32_eq (by omega), ok_bind, getU16_eq (by omega), ok_bind, ok_bind]
  generalize hsoi : (Pe.readU32 q.data (r.opt + 56)).getD 0 = sizeOfImage at *
  generalize hsoh : (Pe.readU32 q.data (r.opt + 60)).getD 0 = sizeOfHeaders at *
  generalize hsa : (Pe.readU32 q.data (r.opt + 32)).getD 0 = sectionAlignment at *
  generalize hfa : (Pe.readU32 q.data (r.opt + 36)).getD 0 = fileAlignment at *
  generalize hep : (Pe.readU32 q.data (r.opt + 16)).getD 0 = entryPoint at *
  by_cases hbad : sizeOfImage = 0 ∨ sizeOfHeaders = 0 ∨ sizeOfHeaders > sizeOfImage ∨
      sectionAlignment = 0
  · rw [if_pos (by rw [not_validAlignment hbad]; rfl), if_pos hbad]
    exact agree_malformed
  have hv : validAlignment sectionAlignment fileAlignment sizeOfImage sizeOfHeaders :=
    Bool.of_not_eq_false fun hc => hdiv ⟨hm, hbad, .inl hc⟩
  have he : ¬(entryPoint ≠ 0 ∧ entryPoint ≥ sizeOfImage) := fun hc => hdiv ⟨hm, hbad, .inr hc⟩
  rw [if_neg (by rw [hv]; exact Bool.false_ne_true), if_neg he, if_neg hbad,
    getU32_eq (by omega), ok_bind]
  generalize (Pe.readU32 q.data (r.opt + 108)).getD 0 = number
  rw [hco.optionalSize]
  refine Agree.ite Iff.rfl (fun _ => agree_truncated) fun hfit => ?_
  have hcn : min number.toNat 16 * 8 ≤ r.optionalSize.toNat - 112 := not_lt.1 hfit
  have hf : r.opt + 112 + (r.optionalSize.toNat - 112) ≤ q.data.length := by omega
  have hdir : ∀ i, q.readDirectory (r.opt + optionalHeaderBaseSize) (min number.toNat 16) i =
        .ok ⟨(Pe.readDirectory q.data (r.opt + 112) (min number.toNat 16) i).1,
          (Pe.readDirectory q.data (r.opt + 112) (min number.toNat 16) i).2⟩ :=
    fun i => readDirectory_eq rfl hcn hf
  dsimp only [readDirectories]
  simp only [hdir, ok_bind]
  refine ⟨?_⟩
  rw [hco.characteristics, hco.machine, hco.sectionCount]
  rfl

/-! ### The section table -/

theorem trimmedNameLen_eq (nm : ByteString) (n : ℕ) : trimmedNameLen nm n = trimmedLength nm n := by
  induction n with
  | zero => rfl
  | succ n ih => rw [trimmedNameLen, trimmedLength, ih]

theorem readSection_eq {off : ℕ} (hle : off + 40 ≤ q.data.length) :
    ∃ s, q.readSection off = .ok s ∧ Pe.readSection q.data off = s.toPe := by
  have hn : Reader.bytes q.data off 8 = some (slice q.data off 8) := by
    unfold Reader.bytes
    rw [if_pos (inRange_iff.2 (by omega))]
  have hn' : readBytes q.data off 8 = some (slice q.data off 8) := by
    unfold readBytes
    rw [if_pos (inRange_iff.2 (by omega))]
  unfold Parser.readSection Pe.readSection
  rw [hn, hn']
  dsimp only
  rw [getU32_eq (by omega), ok_bind, getU32_eq (by omega), ok_bind,
    getU32_eq (by omega), ok_bind, getU32_eq (by omega), ok_bind,
    getU32_eq (by omega), ok_bind, trimmedNameLen_eq]
  exact ⟨_, rfl, rfl⟩

theorem readSections_agree {c : PeInfo} {r : Info} (hi : SameInfo c r) (tbl : ℕ) (rem : ℕ) :
    ∀ i, i + rem ≤ 65535 → tbl + (i + rem) * 40 ≤ q.data.length →
      Agree SameError (fun cs rs => cs = rs.map Section.toPe)
        (Pe.readSections q.data c (tbl + i * 40) rem) (q.readSections r tbl i rem) := by
  have hsoh : c.sizeOfHeaders = r.sizeOfHeaders := by rw [hi.image]; rfl
  have hsoi : c.sizeOfImage = r.sizeOfImage := by rw [hi.image]; rfl
  induction rem with
  | zero => intro i _ _; exact rfl
  | succ rem ih =>
    intro i hmax hle
    obtain ⟨s, hs, hpe⟩ : ∃ s, q.readSection (tbl + i * 40) = .ok s ∧
        Pe.readSection q.data (tbl + i * 40) = s.toPe := readSection_eq (by omega)
    dsimp only [Pe.readSections, Parser.readSections]
    have hl : ¬i ≥ maxSections := by unfold maxSections; omega
    rw [if_neg hl, show tbl + i * sectionHeaderSize = tbl + i * 40 from rfl, hs,
      ok_bind, hpe, Section.span_toPe, Section.sectionEnd_toPe, hsoh, hsoi]
    refine Agree.ite Iff.rfl (fun _ => agree_malformed) fun _ => ?_
    refine Agree.ite Iff.rfl (fun _ => agree_malformed) fun _ => ?_
    have hn := ih (i + 1) (by omega) (by omega)
    rw [show tbl + (i + 1) * 40 = tbl + i * 40 + kSectionHeaderSize by
      unfold kSectionHeaderSize; ring] at hn
    refine Agree.bind hn ?_
    rintro _ sections rfl
    exact rfl

/-- The headers as C++ reads them, up to the COFF header. -/
def coffHeader (data : ByteString) : Except Failure Pe.CoffHeader :=
  Pe.readDosHeader data >>= Pe.readCoffHeader data

/-- **The headers agree, unless only the alignments or the entry point are
wrong.** -/
theorem readHeaders_agree (d : ByteString)
    (hdiv : ∀ c, coffHeader d = .ok c → ¬AlignmentDiverges d c) :
    Agree SameError Tracks (Pe.readHeaders d) (Parser.readHeaders { data := d }) := by
  unfold Pe.readHeaders Parser.readHeaders
  rw [← bind_assoc, ← bind_assoc]
  have hco := readCoff_agree { data := d }
  cases hc : coffHeader d with
  | error f =>
    have hc' : (Pe.readDosHeader d >>= Pe.readCoffHeader d) = .error f := hc
    rw [hc'] at hco
    rw [hc']
    cases hr : Parser.readDosHeader { data := d } >>= Parser.readCoffHeader { data := d } with
    | error e => rw [hr] at hco; exact hco
    | ok r => rw [hr] at hco; exact hco.elim
  | ok c =>
    have hc' : (Pe.readDosHeader d >>= Pe.readCoffHeader d) = .ok c := hc
    rw [hc'] at hco
    rw [hc']
    cases hr : Parser.readDosHeader { data := d } >>= Parser.readCoffHeader { data := d } with
    | error e => rw [hr] at hco; exact hco.elim
    | ok r =>
      rw [hr] at hco
      have hs : SameCoff d c r := hco
      rw [ok_bind, ok_bind]
      have hopt : Agree SameError SameInfo (Pe.readOptionalHeader d c)
          (Parser.readOptionalHeader { data := d } r) :=
        readOptionalHeader_agree (q := { data := d }) hs (hdiv c hc)
      refine Agree.bind hopt fun i i' hinfo => ?_
      have ht : c.sectionTableOffset = r.sectionTable := by
        unfold Pe.CoffHeader.sectionTableOffset Parser.CoffHeader.sectionTable
          Pe.CoffHeader.optOffset Parser.CoffHeader.opt
        rw [hs.coff, hs.optionalSize]
        rfl
      rw [ht, hs.sectionCount]
      have hmax : r.sectionCount.toNat < 65536 := r.sectionCount.toNat_lt
      have hsec := readSections_agree hinfo r.sectionTable (q := { data := d })
        r.sectionCount.toNat 0 (by omega) (by have := hs.table; dsimp only; omega)
      refine Agree.bind hsec ?_
      rintro _ sections rfl
      exact ⟨rfl, by rw [hinfo.image]; rfl⟩

/-! ### What the stages keep -/

variable {p' : PeParser}

theorem phantomExceptions_iff (h : SameHeaders p p') :
    Tracks.PhantomExceptions p' ↔ Tracks.PhantomExceptions p := by
  dsimp only [Tracks.PhantomExceptions]
  rw [h.exceptionRva, h.exceptionSize, h.rvaToFileOffset, h.isRvaInUninitializedSection]

theorem phantomRelocations_iff (h : SameHeaders p p') :
    Tracks.PhantomRelocations p' ↔ Tracks.PhantomRelocations p := by
  unfold Tracks.PhantomRelocations Phantom
  rw [h.relocationRva, h.relocationSize, h.rvaToFileOffset, h.isRvaInUninitializedSection]

theorem tlsContract_iff (h : SameHeaders p p') : Tracks.TlsContract p' ↔ Tracks.TlsContract p := by
  unfold Tracks.TlsContract Phantom
  simp [h.tlsRva, h.tlsSize, h.rvaToFileOffset, h.isRvaInUninitializedSection, h.data,
    h.callbacksFileOffset]

/-! ### The whole parsers -/

/-- What `parsePe` does between the headers and the exception directory. -/
def beforeExceptions (p : PeParser) : Except Failure PeParser :=
  p.parseExports >>= PeParser.parseImports >>= PeParser.parseDelayImports

/-- What `parsePe` does between the headers and the TLS directory. -/
def beforeTls (p : PeParser) : Except Failure PeParser :=
  beforeExceptions p >>= PeParser.parseRuntimeFunctions

/-- What `parsePe` does between the headers and the relocations. -/
def beforeRelocations (p : PeParser) : Except Failure PeParser :=
  beforeTls p >>= PeParser.parseTlsDirectory

/-- The parsers reach no place where they part: each test is about the headers
`p`, and bears on files whose earlier directories are in order. -/
structure Contract (data : ByteString) : Prop where
  alignment : ∀ c, coffHeader data = .ok c → ¬AlignmentDiverges data c
  exports : ∀ p, Pe.readHeaders data = .ok p → ¬Tracks.PhantomExports p
  exceptions : ∀ p p', Pe.readHeaders data = .ok p → beforeExceptions p = .ok p' →
    ¬Tracks.PhantomExceptions p
  tls : ∀ p p', Pe.readHeaders data = .ok p → beforeTls p = .ok p' → Tracks.TlsContract p
  relocations : ∀ p p', Pe.readHeaders data = .ok p → beforeRelocations p = .ok p' →
    ¬Tracks.PhantomRelocations p

/-- **On a file that meets the contract the parsers agree**: they accept it
with the same image, or reject it alike. -/
theorem parse_agree (hcon : Contract d) :
    Agree SameError (fun (r : ParseResult) (m : Model) => r.info = m.toPeInfo) (parsePe d)
      (Parser.parse d) := by
  refine Agree.bind ((readHeaders_agree d hcon.alignment).and_left fun _ h => h) ?_
  rintro p₀ q₀ ⟨h₀, hp₀⟩
  have hexp := hcon.exports p₀ hp₀
  refine Agree.bind ((h₀.parseExports_agree hexp).and_left fun _ h => h) ?_
  rintro p₁ q₁ ⟨h₁, hp₁⟩
  have s₁ := SameHeaders.parseExports hp₁
  refine Agree.bind (h₁.parseImports_agree.and_left fun _ h => h) ?_
  rintro p₂ q₂ ⟨h₂, hp₂⟩
  have s₂ := s₁.trans (SameHeaders.parseImports hp₂)
  refine Agree.bind (h₂.parseDelayImports_agree.and_left fun _ h => h) ?_
  rintro p₃ q₃ ⟨h₃, hp₃⟩
  have s₃ := s₂.trans (SameHeaders.parseDelayImports hp₃)
  have hbef₃ : beforeExceptions p₀ = .ok p₃ := by
    unfold beforeExceptions
    rw [hp₁, ok_bind, hp₂, ok_bind, hp₃]
  have hexc := mt (phantomExceptions_iff s₃).1 (hcon.exceptions p₀ p₃ hp₀ hbef₃)
  refine Agree.bind ((h₃.parseRuntimeFunctions_agree hexc).and_left fun _ h => h) ?_
  rintro p₄ q₄ ⟨h₄, hp₄⟩
  have s₄ := s₃.trans (SameHeaders.parseRuntimeFunctions hp₄)
  have hbef₄ : beforeTls p₀ = .ok p₄ := by
    unfold beforeTls
    rw [hbef₃, ok_bind, hp₄]
  have htls := (tlsContract_iff s₄).2 (hcon.tls p₀ p₄ hp₀ hbef₄)
  refine Agree.bind ((h₄.parseTls_agree htls).and_left fun _ h => h) ?_
  rintro p₅ q₅ ⟨h₅, hp₅⟩
  have s₅ := s₄.trans (SameHeaders.parseTlsDirectory hp₅)
  have hbefore₅ : beforeRelocations p₀ = .ok p₅ := by
    unfold beforeRelocations
    rw [hbef₄, ok_bind, hp₅]
  have hrel := mt (phantomRelocations_iff s₅).1 (hcon.relocations p₀ p₅ hp₀ hbefore₅)
  refine Agree.bind (h₅.parseRelocations_agree hrel) ?_
  rintro p₆ q₆ h₆
  exact h₆.image

/-! ### Files that both parsers accept -/

/-- C++ reads the headers only of a file whose alignments and entry point it
accepts. -/
theorem alignment_of_ok {p : PeParser} (h : Pe.readHeaders d = .ok p) :
    ∀ c, coffHeader d = .ok c → ¬AlignmentDiverges d c := by
  rintro c hc ⟨hm, -, hbad⟩
  unfold Pe.readHeaders at h
  rw [← bind_assoc, show (Pe.readDosHeader d >>= Pe.readCoffHeader d) = .ok c from hc, ok_bind] at h
  obtain ⟨i, hi, -⟩ := bind_eq_ok.1 h
  have hno32 : (Pe.readU16 d c.optOffset).getD 0 ≠ kOptionalMagic32 := by rw [hm]; decide
  dsimp only [Pe.readOptionalHeader] at hi
  rw [if_neg hno32, if_neg (not_not.2 hm)] at hi
  rcases hbad with hinv | he
  · rw [if_pos (by rw [hinv]; rfl)] at hi
    cases hi
  · split at hi
    · cases hi
    · cases hi

/-- **Where both parsers accept a file, they report the same image, and the
file meets the contract.** -/
theorem accepted {r : ParseResult} {m : Model} (hpe : parsePe data = .ok r)
    (hr : Parser.parse data = .ok m) : r.info = m.toPeInfo ∧ Contract data := by
  obtain ⟨p₀, hp₀, hpe⟩ := bind_eq_ok.1 hpe
  obtain ⟨q₀, hq₀, hr⟩ := bind_eq_ok.1 hr
  have ha := alignment_of_ok hp₀
  have h₀ := (readHeaders_agree data ha).of_ok hp₀ hq₀
  obtain ⟨p₁, hp₁, hpe⟩ := bind_eq_ok.1 hpe
  obtain ⟨q₁, hq₁, hr⟩ := bind_eq_ok.1 hr
  have hexp : ¬Tracks.PhantomExports p₀ := by
    intro hpha
    obtain ⟨-, e, he, -⟩ := h₀.parseExports_phantom hpha
    rw [hq₁] at he
    cases he
  have h₁ := (h₀.parseExports_agree hexp).of_ok hp₁ hq₁
  have s₁ := SameHeaders.parseExports hp₁
  obtain ⟨p₂, hp₂, hpe⟩ := bind_eq_ok.1 hpe
  obtain ⟨q₂, hq₂, hr⟩ := bind_eq_ok.1 hr
  have h₂ := h₁.parseImports_agree.of_ok hp₂ hq₂
  have s₂ := s₁.trans (SameHeaders.parseImports hp₂)
  obtain ⟨p₃, hp₃, hpe⟩ := bind_eq_ok.1 hpe
  obtain ⟨q₃, hq₃, hr⟩ := bind_eq_ok.1 hr
  have h₃ := h₂.parseDelayImports_agree.of_ok hp₃ hq₃
  have s₃ := s₂.trans (SameHeaders.parseDelayImports hp₃)
  obtain ⟨p₄, hp₄, hpe⟩ := bind_eq_ok.1 hpe
  obtain ⟨q₄, hq₄, hr⟩ := bind_eq_ok.1 hr
  have hexc : ¬Tracks.PhantomExceptions p₃ := by
    intro hpha
    obtain ⟨-, e, he, -⟩ := h₃.parseRuntimeFunctions_phantom hpha
    rw [hq₄] at he
    cases he
  have h₄ := (h₃.parseRuntimeFunctions_agree hexc).of_ok hp₄ hq₄
  have s₄ := s₃.trans (SameHeaders.parseRuntimeFunctions hp₄)
  obtain ⟨p₅, hp₅, hpe⟩ := bind_eq_ok.1 hpe
  obtain ⟨q₅, hq₅, hr⟩ := bind_eq_ok.1 hr
  have htls : Tracks.TlsContract p₄ := by
    by_contra hno
    obtain ⟨⟨e, he, -⟩, -⟩ := h₄.parseTls_contract hno
    rw [hp₅] at he
    cases he
  have h₅ := (h₄.parseTls_agree htls).of_ok hp₅ hq₅
  have s₅ := s₄.trans (SameHeaders.parseTlsDirectory hp₅)
  obtain ⟨p₆, hp₆, hpe⟩ := bind_eq_ok.1 hpe
  obtain ⟨q₆, hq₆, hr⟩ := bind_eq_ok.1 hr
  have hrel : ¬Tracks.PhantomRelocations p₅ := by
    intro hpha
    obtain ⟨-, e, he, -⟩ := h₅.parseRelocations_phantom hpha
    rw [hq₆] at he
    cases he
  have h₆ := (h₅.parseRelocations_agree hrel).of_ok hp₆ hq₆
  cases hpe
  cases hr
  have huni : ∀ p, Pe.readHeaders data = .ok p → p = p₀ := by
    intro p hp
    rw [hp₀] at hp
    cases hp
    rfl
  refine ⟨h₆.image, ha, fun p hp => ?_, fun p _ hp _ => ?_, fun p _ hp _ => ?_,
    fun p _ hp _ => ?_⟩ <;> obtain rfl := huni p hp
  · exact hexp
  · exact mt (phantomExceptions_iff s₃).2 hexc
  · exact (tlsContract_iff s₄).1 htls
  · exact mt (phantomRelocations_iff s₅).2 hrel

end TradutorLinux.Rust
