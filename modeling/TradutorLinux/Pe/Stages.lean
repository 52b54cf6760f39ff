import TradutorLinux.Pe.Reader
import TradutorLinux.Util.Agree

/-!
# The stages of the parser

Each stage of `parsePe` reads one directory and fills in its own fields.  One
inversion lemma a stage says what it does when it succeeds; that the others'
fields stay follows.

## Main definitions

* `SameHeaders p p'` — the fields that later stages look at are the same.

## Main results

* `parseExports_ok`, `parseRelocations_ok`, `parsePe_ok`
-/

namespace TradutorLinux.Pe

variable {p p' p'' : PeParser}

/-! ### The stages -/

namespace PeParser

theorem recordUninitializedDirectory_eq (p : PeParser) (nm : ByteString) :
    ∃ ws, p.recordUninitializedDirectory nm = { p with warnings := ws } := by
  unfold recordUninitializedDirectory
  split
  · exact ⟨_, rfl⟩
  · exact ⟨p.warnings, rfl⟩

/-- The export stage leaves the exports as they are, or reads them from the directory. -/
theorem parseExports_ok (h : p.parseExports = .ok p') : ∃ ws o e, p' = { p with
        warnings := ws
        parserState := { p.parserState with exportOrdinalBase := o, exports := e } } ∧
      (e = p.parserState.exports ∨
        kExportDirectorySize ≤ p.parserState.exportDirectorySize.toNat ∧ ∃ d,
          p.rvaToFileOffset ⟨p.parserState.exportDirectoryRva, p.parserState.exportDirectorySize⟩ =
            some d ∧
          p.readExportTables d = .ok (o, e)) := by
  dsimp only [parseExports] at h
  split at h
  · cases h; exact ⟨_, _, _, rfl, .inl rfl⟩
  split at h
  · cases h
  next hs =>
  split at h
  · split at h
    · cases h
      obtain ⟨ws, hw⟩ := recordUninitializedDirectory_eq p (text "exports")
      exact ⟨ws, _, _, hw, .inl rfl⟩
    · cases h
  · next d hd =>
    obtain ⟨⟨o, e⟩, hr, h⟩ := bind_eq_ok.1 h
    cases h
    exact ⟨_, _, _, rfl, .inr ⟨not_lt.1 hs, d, hd, hr⟩⟩

/-- The descriptors of the import directory were read up to the terminator. -/
def ImportsRead (p : PeParser) (dlls : List ImportedDll) : Prop :=
  ∃ directory,
    p.rvaToFileOffset ⟨p.parserState.importDirectoryRva, p.parserState.importDirectorySize⟩ =
      some directory ∧
    readDescriptors (p.readImportDescriptor directory)
      (text "diretório de imports sem descritor terminador") 0
      (min (p.parserState.importDirectorySize.toNat / kImportDescriptorSize) kMaxImportDlls) =
        .ok dlls

theorem parseImports_ok (h : p.parseImports = .ok p') :
    ∃ ds, p' = { p with parserState := { p.parserState with imports := ds } } ∧
      (ds = p.parserState.imports ∨ ImportsRead p ds) := by
  dsimp only [parseImports] at h
  split at h
  · cases h; exact ⟨_, rfl, .inl rfl⟩
  split at h
  · cases h
  split at h
  · cases h
  next d hd =>
  obtain ⟨ds, hr, h⟩ := bind_eq_ok.1 h
  cases h
  exact ⟨_, rfl, .inr ⟨d, hd, hr⟩⟩

/-- The descriptors of the delay import directory were read up to the terminator. -/
def DelayImportsRead (p : PeParser) (dlls : List ImportedDll) : Prop :=
  ∃ directory,
    p.rvaToFileOffset
        ⟨p.parserState.delayImportDirectoryRva, p.parserState.delayImportDirectorySize⟩ =
      some directory ∧
    readDescriptors (p.readDelayImportDescriptor directory)
      (text "diretório de delay imports sem descritor terminador") 0
      (min (p.parserState.delayImportDirectorySize.toNat / kDelayImportDescriptorSize)
        kMaxImportDlls) =
        .ok dlls

theorem parseDelayImports_ok (h : p.parseDelayImports = .ok p') :
    ∃ ds, p' = { p with parserState := { p.parserState with delayImports := ds } } ∧
      (ds = p.parserState.delayImports ∨ DelayImportsRead p ds) := by
  dsimp only [parseDelayImports] at h
  split at h
  · cases h; exact ⟨_, rfl, .inl rfl⟩
  split at h
  · cases h
  split at h
  · cases h
  next d hd =>
  obtain ⟨ds, hr, h⟩ := bind_eq_ok.1 h
  cases h
  exact ⟨_, rfl, .inr ⟨d, hd, hr⟩⟩

theorem parseRuntimeFunctions_ok (h : p.parseRuntimeFunctions = .ok p') : ∃ ws f, p' = { p with
      warnings := ws
      parserState := { p.parserState with runtimeFunctions := f } } := by
  dsimp only [parseRuntimeFunctions] at h
  split at h
  · cases h; exact ⟨_, _, rfl⟩
  split at h
  · cases h
  split at h
  · split at h
    · cases h
      obtain ⟨ws, hw⟩ := recordUninitializedDirectory_eq p (text "exceções")
      exact ⟨ws, _, hw⟩
    · cases h
  split at h
  · cases h
  simp only [bind_eq_ok] at h
  obtain ⟨f, -, ts, -, -, -, h⟩ := h
  cases h
  exact ⟨_, _, rfl⟩

theorem parseTlsDirectory_ok (h : p.parseTlsDirectory = .ok p') : ∃ ws ti, p' = { p with
      warnings := ws
      parserState := { p.parserState with tlsInfo := ti } } := by
  dsimp only [parseTlsDirectory] at h
  split at h
  · cases h; exact ⟨_, _, rfl⟩
  split at h
  · cases h
  split at h
  · cases h
  split at h
  · split at h
    · cases h
      obtain ⟨ws, hw⟩ := recordUninitializedDirectory_eq p (text "TLS")
      exact ⟨ws, _, hw⟩
    · cases h
  · obtain ⟨cv, -, h⟩ := bind_eq_ok.1 h
    cases h
    exact ⟨_, _, rfl⟩

theorem parseRelocations_ok (h : p.parseRelocations = .ok p') : ∃ ws rs, p' = { p with
      warnings := ws
      parserState := { p.parserState with relocations := rs } } := by
  dsimp only [parseRelocations] at h
  split at h
  · cases h; exact ⟨_, _, rfl⟩
  split at h
  · cases h
  split at h
  · split at h
    · cases h
      obtain ⟨ws, hw⟩ := recordUninitializedDirectory_eq p (text "relocations")
      exact ⟨ws, _, hw⟩
    · cases h
  · obtain ⟨bs, -, h⟩ := bind_eq_ok.1 h
    cases h
    exact ⟨_, _, rfl⟩

end PeParser

/-! ### What the stages keep -/

/-- The input, the section table and the data directories are the same. -/
structure SameHeaders (p p' : PeParser) : Prop where
  data : p'.data = p.data
  imageBase : p'.parserState.imageBase = p.parserState.imageBase
  sizeOfImage : p'.parserState.sizeOfImage = p.parserState.sizeOfImage
  sizeOfHeaders : p'.parserState.sizeOfHeaders = p.parserState.sizeOfHeaders
  sections : p'.parserState.sections = p.parserState.sections
  exportRva : p'.parserState.exportDirectoryRva = p.parserState.exportDirectoryRva
  exportSize : p'.parserState.exportDirectorySize = p.parserState.exportDirectorySize
  importRva : p'.parserState.importDirectoryRva = p.parserState.importDirectoryRva
  importSize : p'.parserState.importDirectorySize = p.parserState.importDirectorySize
  delayImportRva : p'.parserState.delayImportDirectoryRva = p.parserState.delayImportDirectoryRva
  delayImportSize :
    p'.parserState.delayImportDirectorySize = p.parserState.delayImportDirectorySize
  exceptionRva : p'.parserState.exceptionDirectoryRva = p.parserState.exceptionDirectoryRva
  exceptionSize : p'.parserState.exceptionDirectorySize = p.parserState.exceptionDirectorySize
  tlsRva : p'.parserState.tlsDirectoryRva = p.parserState.tlsDirectoryRva
  tlsSize : p'.parserState.tlsDirectorySize = p.parserState.tlsDirectorySize
  relocationRva : p'.parserState.relocationDirectoryRva = p.parserState.relocationDirectoryRva
  relocationSize : p'.parserState.relocationDirectorySize = p.parserState.relocationDirectorySize

namespace SameHeaders

theorem trans (h : SameHeaders p p') (h' : SameHeaders p' p'') : SameHeaders p p'' where
  data := h'.data.trans h.data
  imageBase := h'.imageBase.trans h.imageBase
  sizeOfImage := h'.sizeOfImage.trans h.sizeOfImage
  sizeOfHeaders := h'.sizeOfHeaders.trans h.sizeOfHeaders
  sections := h'.sections.trans h.sections
  exportRva := h'.exportRva.trans h.exportRva
  exportSize := h'.exportSize.trans h.exportSize
  importRva := h'.importRva.trans h.importRva
  importSize := h'.importSize.trans h.importSize
  delayImportRva := h'.delayImportRva.trans h.delayImportRva
  delayImportSize := h'.delayImportSize.trans h.delayImportSize
  exceptionRva := h'.exceptionRva.trans h.exceptionRva
  exceptionSize := h'.exceptionSize.trans h.exceptionSize
  tlsRva := h'.tlsRva.trans h.tlsRva
  tlsSize := h'.tlsSize.trans h.tlsSize
  relocationRva := h'.relocationRva.trans h.relocationRva
  relocationSize := h'.relocationSize.trans h.relocationSize

theorem parseExports (h : p.parseExports = .ok p') : SameHeaders p p' := by
  obtain ⟨_, _, _, rfl, -⟩ := PeParser.parseExports_ok h
  constructor <;> rfl

theorem parseImports (h : p.parseImports = .ok p') : SameHeaders p p' := by
  obtain ⟨_, rfl, -⟩ := PeParser.parseImports_ok h
  constructor <;> rfl

theorem parseDelayImports (h : p.parseDelayImports = .ok p') : SameHeaders p p' := by
  obtain ⟨_, rfl, -⟩ := PeParser.parseDelayImports_ok h
  constructor <;> rfl

theorem parseRuntimeFunctions (h : p.parseRuntimeFunctions = .ok p') : SameHeaders p p' := by
  obtain ⟨_, _, rfl⟩ := PeParser.parseRuntimeFunctions_ok h
  constructor <;> rfl

theorem parseTlsDirectory (h : p.parseTlsDirectory = .ok p') : SameHeaders p p' := by
  obtain ⟨_, _, rfl⟩ := PeParser.parseTlsDirectory_ok h
  constructor <;> rfl

theorem parseRelocations (h : p.parseRelocations = .ok p') : SameHeaders p p' := by
  obtain ⟨_, _, rfl⟩ := PeParser.parseRelocations_ok h
  constructor <;> rfl

section

variable (h : SameHeaders p p')
include h

theorem rvaToFileOffset (r : RvaRange) : p'.rvaToFileOffset r = p.rvaToFileOffset r := by
  unfold PeParser.rvaToFileOffset
  rw [h.data, h.sizeOfHeaders, h.sections]

theorem isRvaInUninitializedSection (range : RvaRange) :
    p'.isRvaInUninitializedSection range = p.isRvaInUninitializedSection range := by
  unfold PeParser.isRvaInUninitializedSection
  rw [h.sections]

theorem callbacksFileOffset (c : UInt64) : p'.callbacksFileOffset c = p.callbacksFileOffset c := by
  unfold PeParser.callbacksFileOffset
  rw [h.imageBase, h.rvaToFileOffset]

theorem readSymbol (l : PeParser.ThunkLoop) (dn : ByteString)
    (ir : UInt32) (s : ℕ) (thunkValue : UInt64) :
    p'.readSymbol l dn ir s thunkValue = p.readSymbol l dn ir s thunkValue := by
  unfold PeParser.readSymbol
  simp [h.data, h.sizeOfImage, h.rvaToFileOffset]

theorem readThunks (l : PeParser.ThunkLoop) (dn : ByteString)
    (ir : UInt32) (tt : ℕ) (remaining : ℕ) :
    ∀ s, p'.readThunks l dn ir tt s remaining = p.readThunks l dn ir tt s remaining := by
  induction remaining with
  | zero => intro s; rfl
  | succ remaining ih =>
    intro s
    unfold PeParser.readThunks
    simp [h.data, h.readSymbol, ih]

theorem readImportDescriptor (directory index : ℕ) :
    p'.readImportDescriptor directory index = p.readImportDescriptor directory index := by
  unfold PeParser.readImportDescriptor
  simp [h.data, h.rvaToFileOffset, h.readThunks]

theorem readDelayImportDescriptor (directory index : ℕ) :
    p'.readDelayImportDescriptor directory index = p.readDelayImportDescriptor directory index := by
  unfold PeParser.readDelayImportDescriptor
  simp [h.data, h.rvaToFileOffset, h.readThunks]

theorem readExportNames (nt ot : ℕ) (r : ℕ) : ∀ i names, p'.readExportNames nt ot i r names =
      p.readExportNames nt ot i r names := by
  induction r with
  | zero => intro i names; rfl
  | succ r ih =>
    intro i names
    unfold PeParser.readExportNames
    simp [h.data, h.rvaToFileOffset, ih]

theorem readExports (o : UInt32) (rs : List UInt32) : ∀ i names, p'.readExports o i rs names =
      p.readExports o i rs names := by
  induction rs with
  | nil => intro i names; rfl
  | cons r rs ih =>
    intro i names
    unfold PeParser.readExports
    simp [h.data, h.sizeOfImage, h.exportRva, h.exportSize, h.rvaToFileOffset, ih]

theorem readExportTables (directory : ℕ) :
    p'.readExportTables directory = p.readExportTables directory := by
  unfold PeParser.readExportTables
  simp [h.data, h.rvaToFileOffset, h.readExportNames, h.readExports]

theorem importsRead {dlls : List ImportedDll} (hr : p.ImportsRead dlls) : p'.ImportsRead dlls := by
  obtain ⟨d, hi, hd⟩ := hr
  refine ⟨d, ?_, ?_⟩
  · rw [h.importRva, h.importSize, h.rvaToFileOffset, hi]
  · rw [h.importSize, funext (h.readImportDescriptor d), hd]

theorem delayImportsRead {dlls : List ImportedDll}
    (hr : p.DelayImportsRead dlls) : p'.DelayImportsRead dlls := by
  obtain ⟨d, hi, hd⟩ := hr
  refine ⟨d, ?_, ?_⟩
  · rw [h.delayImportRva, h.delayImportSize, h.rvaToFileOffset, hi]
  · rw [h.delayImportSize, funext (h.readDelayImportDescriptor d), hd]

end

end SameHeaders

/-! ### The whole parser -/

/-- The state in which the parser ends. -/
def ParseResult.parser (data : ByteString) (r : ParseResult) : PeParser :=
  { data := data, parserState := r.info, warnings := r.warnings }

theorem readHeaders_ok {d : ByteString} (h : readHeaders d = .ok p) :
    p.data = d ∧ p.parserState.imports = [] ∧ p.parserState.delayImports = [] ∧
      p.parserState.exports = [] := by
  simp only [readHeaders, bind_eq_ok] at h
  obtain ⟨n, -, c, -, i, hi, ss, -, h⟩ := h
  cases h
  dsimp only [readOptionalHeader] at hi
  split at hi
  · cases hi
  split at hi
  · cases hi
  split at hi
  · cases hi
  split at hi
  · cases hi
  split at hi
  · cases hi
  · cases hi
    exact ⟨rfl, rfl, rfl, rfl⟩

/-- **The tables of the result are empty, or were read from their directories.** -/
theorem parsePe_ok {data : ByteString} {r : ParseResult} (h : parsePe data = .ok r) :
    (r.info.imports = [] ∨ (r.parser data).ImportsRead r.info.imports) ∧
    (r.info.delayImports = [] ∨ (r.parser data).DelayImportsRead r.info.delayImports) ∧
    (r.info.exports = [] ∨ kExportDirectorySize ≤ r.info.exportDirectorySize.toNat ∧
      ∃ d o, (r.parser data).rvaToFileOffset
          ⟨r.info.exportDirectoryRva, r.info.exportDirectorySize⟩ = some d ∧
        (r.parser data).readExportTables d = .ok (o, r.info.exports)) := by
  simp only [parsePe, bind_eq_ok] at h
  obtain ⟨p₀, hp₀, p₁, hp₁, p₂, hp₂, p₃, hp₃, p₄, hp₄, p₅, hp₅, p₆, hp₆, h⟩ := h
  cases h
  obtain ⟨ha, himp, hde, he⟩ := readHeaders_ok hp₀
  have s₃ := ((SameHeaders.parseRuntimeFunctions hp₄).trans
    (SameHeaders.parseTlsDirectory hp₅)).trans (SameHeaders.parseRelocations hp₆)
  have s₂ := (SameHeaders.parseDelayImports hp₃).trans s₃
  have s₁ := (SameHeaders.parseImports hp₂).trans s₂
  have s₀ := (SameHeaders.parseExports hp₁).trans s₁
  have hf : ParseResult.parser data ⟨p₆.parserState, p₆.warnings⟩ = p₆ := by
    have hd : p₆.data = data := s₀.data.trans ha
    unfold ParseResult.parser
    rw [← hd]
  rw [hf]
  -- each table is the one its own stage has left
  obtain ⟨_, _, rfl⟩ := PeParser.parseRelocations_ok hp₆
  obtain ⟨_, _, rfl⟩ := PeParser.parseTlsDirectory_ok hp₅
  obtain ⟨_, _, rfl⟩ := PeParser.parseRuntimeFunctions_ok hp₄
  obtain ⟨di, rfl, hd'⟩ := PeParser.parseDelayImports_ok hp₃
  obtain ⟨i, rfl, hi'⟩ := PeParser.parseImports_ok hp₂
  obtain ⟨_, o, e, rfl, he'⟩ := PeParser.parseExports_ok hp₁
  refine ⟨?_, ?_, ?_⟩
  · rcases hi' with hk | hr
    · exact .inl (hk.trans himp)
    · exact .inr (s₁.importsRead hr)
  · rcases hd' with hk | hr
    · exact .inl (hk.trans hde)
    · exact .inr (s₂.delayImportsRead hr)
  · rcases he' with hk | ⟨hs, d, hi, hr⟩
    · exact .inl (hk.trans he)
    refine .inr ⟨hs, d, o, ?_, ?_⟩
    · rw [s₀.rvaToFileOffset]
      exact hi
    · rw [s₀.readExportTables]
      exact hr

end TradutorLinux.Pe
