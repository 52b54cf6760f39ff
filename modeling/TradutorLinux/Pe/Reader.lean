import TradutorLinux.Pe.Types
import Mathlib.Data.List.Sort

/-!
# The reader of `pe/pe_reader.cpp`

`parse_pe` walks the headers, the section table and, directory by directory,
the exports, the imports, the delay imports, the unwind data, the TLS
directory and the base relocations of a PE32+ file.  Every loop of the source
is a recursion on what it still has to do: descriptors, thunks and blocks count
down from their limit, the unwind codes from the number of slots.

A read through `ByteReader` out of range leaves the out-parameter as it was,
that is zero: `(readU32 data offset).getD 0`.

## Main definitions

* `PeParser.rvaToFileOffset` — where an RVA range lies in the file.
* `PeParser.parseExports`, …, `PeParser.parseRelocations` — one per directory.
* `parsePe` — the whole parser.
-/

namespace TradutorLinux.Pe

/-! ### Constants -/

def kDosHeaderSize : ℕ := 64
def kPeSignatureOffset : ℕ := 4
def kCoffHeaderSize : ℕ := 20
def kSectionHeaderSize : ℕ := 40
def kOptionalHeader64BaseSize : ℕ := 112
def kDataDirectoryCount : ℕ := 16
def kDataDirectoryEntrySize : ℕ := 8
def kImportDescriptorSize : ℕ := 20
def kDelayImportDescriptorSize : ℕ := 32
def kRuntimeFunctionSize : ℕ := 12
def kUnwindInfoHeaderSize : ℕ := 4
def kUnwindCodeSize : ℕ := 2
def kThunkEntrySize : ℕ := 8
def kBaseRelocBlockHeaderSize : ℕ := 8
def kBaseRelocEntrySize : ℕ := 2
def kImportByNameHintSize : ℕ := 2
def kExportDirectorySize : ℕ := 40

def kDosMagic : UInt16 := 0x5A4D
def kPeSignature : UInt32 := 0x00004550
def kMachineAmd64 : UInt16 := 0x8664
def kOptionalMagic64 : UInt16 := 0x20B
def kOptionalMagic32 : UInt16 := 0x10B
def kOrdinalFlag64 : UInt64 := 0x8000000000000000
def kDelayImportAttrRva : UInt32 := 0x1

def kDirExport : ℕ := 0
def kDirImport : ℕ := 1
def kDirResource : ℕ := 2
def kDirException : ℕ := 3
def kDirBaseReloc : ℕ := 5
def kDirTls : ℕ := 9
def kDirDelayImport : ℕ := 13

def kMaxImportDlls : ℕ := 1024
def kMaxSymbolsPerDll : ℕ := 4096
def kMaxRelocBlocks : ℕ := 4096
def kMaxRuntimeFunctions : ℕ := 65536
def kMaxCString : ℕ := 65535
def kMaxExportFunctions : ℕ := 65536
def kMaxExportNames : ℕ := 65536
def kMaxTlsCallbacks : ℕ := 4096
def kMinFileAlignment : UInt32 := 0x200
def kMaxFileAlignment : UInt32 := 0x10000
def kMaxParseWarnings : ℕ := 64

def kImageFileDll : UInt16 := 0x2000

def kUnwindVersion1 : UInt8 := 1
def kUnwindVersion2 : UInt8 := 2
def kUnwindFlagEHandler : UInt8 := 0x1
def kUnwindFlagUHandler : UInt8 := 0x2
def kUnwindFlagChainInfo : UInt8 := 0x4
def kUnwindKnownFlags : UInt8 :=
  kUnwindFlagEHandler ||| kUnwindFlagUHandler ||| kUnwindFlagChainInfo
def kUnwindOpEpilog : UInt8 := 6
def kUnwindV2EpilogAtFunctionEnd : UInt8 := 0x1

/-- `UINT32_MAX`. -/
def uint32Max : ℕ := 0xFFFFFFFF

def isValidGpr (registerNumber : UInt8) : Bool :=
  decide (registerNumber ≤ 15) && registerNumber != 4

def isPowerOfTwo (value : UInt32) : Bool := value != 0 && value &&& (value - 1) == 0

/-- `fail`. -/
def fail {α : Type} (status : ParseStatus) (message : ByteString) : Except Failure α :=
  .error ⟨status, message⟩

/-! ### The byte reader -/

/-- `ByteReader::read_u16`. -/
def readU16 (data : ByteString) (offset : ℕ) : Option UInt16 :=
  (readLE data offset 2).map UInt16.ofNat

/-- `ByteReader::read_u32`. -/
def readU32 (data : ByteString) (offset : ℕ) : Option UInt32 :=
  (readLE data offset 4).map UInt32.ofNat

/-- `ByteReader::read_u64`. -/
def readU64 (data : ByteString) (offset : ℕ) : Option UInt64 :=
  (readLE data offset 8).map UInt64.ofNat

/-- `ByteReader::read_bytes`. -/
def readBytes (data : ByteString) (offset length : ℕ) : Option ByteString :=
  if inRange data.length offset length then some (slice data offset length) else none

/-- `ByteReader::read_cstring`: the bytes up to the first NUL.  The scan stops
after `kMaxCString` bytes, and a string it did not see the end of is no string. -/
def readCstring (data : ByteString) (offset : ℕ) : Option ByteString :=
  if offset ≥ data.length then none
  else
    let scanned := ((data.drop offset).take kMaxCString).takeWhile (· != 0)
    if offset + scanned.length = data.length ∨ scanned.length ≥ kMaxCString then none
    else some scanned

/-- `RvaRange`. -/
structure RvaRange where
  rva : UInt32
  length : UInt32

/-- The class `PeParser`: the input, `parser_state_` and `warnings_`. -/
structure PeParser where
  data : ByteString
  parserState : PeInfo
  warnings : List ByteString := []

namespace PeParser

/-! ### Addresses -/

/-- `rva_to_file_offset`: the headers map to themselves; otherwise the first
section that covers the address decides, and the range must lie in its raw data. -/
def rvaToFileOffset (p : PeParser) (range : RvaRange) : Option ℕ :=
  let stop := range.rva.toNat + range.length.toNat
  if stop ≤ p.parserState.sizeOfHeaders.toNat ∧ stop ≤ p.data.length then
    some range.rva.toNat
  else
    match p.parserState.sections.find? fun s => s.covers range.rva.toNat with
    | none => none
    | some s =>
      let delta := range.rva.toNat - s.virtualAddress.toNat
      if delta + range.length.toNat > s.rawDataSize.toNat then none
      else
        let fileOffset := s.rawDataPointer.toNat + delta
        if fileOffset + range.length.toNat > p.data.length then none
        else some fileOffset

theorem rvaToFileOffset_le {p : PeParser} {r : RvaRange} {o : ℕ}
    (h : p.rvaToFileOffset r = some o) : o + r.length.toNat ≤ p.data.length := by
  unfold rvaToFileOffset at h
  simp only at h
  split at h
  · next hi =>
    cases h
    exact hi.2
  · split at h
    · cases h
    split at h
    · cases h
    split at h
    · cases h
    · cases h
      omega

/-- `is_rva_in_uninitialized_section`: a section holds the whole range and its
raw data does not reach the start of it. -/
def isRvaInUninitializedSection (p : PeParser) (range : RvaRange) : Bool :=
  if range.length = 0 then false
  else p.parserState.sections.any fun s =>
    decide (s.virtualAddress.toNat ≤ range.rva.toNat) &&
    decide (range.rva.toNat + range.length.toNat ≤ s.sectionEnd) &&
    (s.rawDataSize == 0 ||
      decide (range.rva.toNat - s.virtualAddress.toNat ≥ s.rawDataSize.toNat))

/-- `record_uninitialized_directory`. -/
def recordUninitializedDirectory (p : PeParser) (name : ByteString) : PeParser :=
  if p.warnings.length < kMaxParseWarnings then
    { p with warnings := p.warnings ++
        [text "diretório " ++ name ++
          text (" declarado em seção sem dados físicos (padrão de imagem empacotada " ++
            "UPX/R29): tratado como ausente")] }
  else p

/-! ### Exports -/

/-- The address table: `remaining` entries from `index` on. -/
def readFunctionRvas (data : ByteString) (table : ℕ) : ℕ → ℕ → Except Failure (List UInt32)
  | _, 0 => .ok []
  | index, remaining + 1 =>
    match readU32 data (table + index * 4) with
    | none => fail .truncated (text "tabela de endereços de exports truncada")
    | some rva =>
      readFunctionRvas data table (index + 1) remaining >>= fun rvas => .ok (rva :: rvas)

/-- The name tables: name number `index` goes to the function it names, which
has no name yet (`names` holds `none` there). -/
def readExportNames (p : PeParser) (namesTable ordinalsTable : ℕ) :
    ℕ → ℕ → List (Option ByteString) → Except Failure (List (Option ByteString))
  | _, 0, names => .ok names
  | index, remaining + 1, names =>
    match readU32 p.data (namesTable + index * 4), readU16 p.data (ordinalsTable + index * 2) with
    | some exportNameRva, some functionIndex =>
      if functionIndex.toNat ≥ names.length then
        fail .malformed (text "índice de nome de export inválido")
      else
        match p.rvaToFileOffset ⟨exportNameRva, 1⟩ with
        | none => fail .malformed (text "nome de export fora da imagem")
        | some nameOffset =>
          match readCstring p.data nameOffset with
          | none => fail .malformed (text "nome de export inválido ou repetido")
          | some exportName =>
            if exportName = [] ∨ names[functionIndex.toNat]? ≠ some none then
              fail .malformed (text "nome de export inválido ou repetido")
            else
              readExportNames p namesTable ordinalsTable (index + 1) remaining
                (names.set functionIndex.toNat (some exportName))
    | _, _ => fail .malformed (text "índice de nome de export inválido")

/-- The exports of the address table; a zero entry exports nothing, and an
address inside the export directory is a forwarder. -/
def readExports (p : PeParser) (ordinalBase : UInt32) :
    ℕ → List UInt32 → List (Option ByteString) → Except Failure (List ExportedSymbol)
  | _, [], _ => .ok []
  | index, functionRva :: rvas, names =>
    if functionRva = 0 then readExports p ordinalBase (index + 1) rvas names
    else if functionRva ≥ p.parserState.sizeOfImage then
      fail .malformed (text "RVA de export fora da imagem")
    else
      let exportEnd := p.parserState.exportDirectoryRva.toNat +
        p.parserState.exportDirectorySize.toNat
      let symbol : ByteString → ExportedSymbol := fun forwarder =>
        { byName := (names[index]?.getD none).isSome
          name := (names[index]?.getD none).getD []
          ordinal := UInt16.ofNat (ordinalBase.toNat + index)
          rva := functionRva
          forwarder := forwarder }
      if p.parserState.exportDirectoryRva ≤ functionRva ∧ functionRva.toNat < exportEnd then
        match p.rvaToFileOffset ⟨functionRva, 1⟩ with
        | none => fail .malformed (text "forwarder de export fora do arquivo")
        | some forwarderOffset =>
          match readCstring p.data forwarderOffset with
          | none => fail .malformed (text "forwarder de export inválido")
          | some forwarder =>
            if forwarder = [] then fail .malformed (text "forwarder de export inválido")
            else
              readExports p ordinalBase (index + 1) rvas names >>= fun rest =>
                .ok (symbol forwarder :: rest)
      else
        readExports p ordinalBase (index + 1) rvas names >>= fun rest => .ok (symbol [] :: rest)

/-- The tables of an export directory found at `directory`. -/
def readExportTables (p : PeParser) (directory : ℕ) :
    Except Failure (UInt32 × List ExportedSymbol) :=
  let nameRva := (readU32 p.data (directory + 12)).getD 0
  let ordinalBase := (readU32 p.data (directory + 16)).getD 0
  let functionCount := (readU32 p.data (directory + 20)).getD 0
  let nameCount := (readU32 p.data (directory + 24)).getD 0
  let functionsRva := (readU32 p.data (directory + 28)).getD 0
  let namesRva := (readU32 p.data (directory + 32)).getD 0
  let nameOrdinalsRva := (readU32 p.data (directory + 36)).getD 0
  if nameRva ≠ 0 ∧ p.rvaToFileOffset ⟨nameRva, 1⟩ = none then
    fail .malformed (text "nome da DLL exportadora fora da imagem")
  else if functionCount.toNat > kMaxExportFunctions ∨ nameCount.toNat > kMaxExportNames ∨
      nameCount > functionCount then
    fail .malformed (text "tabelas de exports excedem os limites suportados")
  else if functionCount > 0 ∧ functionsRva = 0 then
    fail .malformed (text "tabela de endereços de exports ausente")
  else if nameCount > 0 ∧ (namesRva = 0 ∨ nameOrdinalsRva = 0) then
    fail .malformed (text "tabelas de nomes de exports ausentes")
  else if ordinalBase > 0xFFFF ∨ functionCount > 0xFFFF - ordinalBase + 1 then
    fail .malformed (text "ordinais de exports excedem 16 bits")
  else
    -- at most 65536 entries, so neither table size leaves 32 bits
    (if functionCount > 0 then
      match p.rvaToFileOffset ⟨functionsRva, functionCount * 4⟩ with
      | none => fail .malformed (text "tabela de endereços de exports fora da imagem")
      | some table => readFunctionRvas p.data table 0 functionCount.toNat
    else .ok []) >>= fun functionRvas =>
    (if nameCount > 0 then
      match p.rvaToFileOffset ⟨namesRva, nameCount * 4⟩,
          p.rvaToFileOffset ⟨nameOrdinalsRva, nameCount * 2⟩ with
      | some namesTable, some ordinalsTable =>
        readExportNames p namesTable ordinalsTable 0 nameCount.toNat
          (List.replicate functionCount.toNat none)
      | _, _ => fail .malformed (text "tabelas de nomes de exports fora da imagem")
    else .ok (List.replicate functionCount.toNat none)) >>= fun names =>
    readExports p ordinalBase 0 functionRvas names >>= fun exports => .ok (ordinalBase, exports)

/-- `parse_exports`. -/
def parseExports (p : PeParser) : Except Failure PeParser :=
  let range : RvaRange := ⟨p.parserState.exportDirectoryRva, p.parserState.exportDirectorySize⟩
  if range.rva = 0 ∧ range.length = 0 then .ok p
  else if range.length.toNat < kExportDirectorySize then
    fail .malformed (text "diretório de exports menor que o descritor IMAGE_EXPORT_DIRECTORY")
  else
    match p.rvaToFileOffset range with
    | none =>
      if p.isRvaInUninitializedSection range then
        .ok (p.recordUninitializedDirectory (text "exports"))
      else fail .malformed (text "diretório de exports fora da imagem")
    | some directory =>
      p.readExportTables directory >>= fun (ordinalBase, exports) =>
        .ok { p with parserState :=
          { p.parserState with exportOrdinalBase := ordinalBase, exports := exports } }

/-! ### Imports -/

/-- Where the thunk loops of `parse_imports` and `parse_delay_imports` differ:
their texts, and whether the IAT slot must lie in the file too. -/
structure ThunkLoop where
  iatText : ByteString
  wideNameText : ByteString
  nameText : ByteString
  unterminatedNameText : ByteString
  unterminatedText : ByteString
  checksIatSlot : Bool

/-- The thunk loop of `parse_imports`. -/
def importThunkLoop : ThunkLoop where
  iatText := text "IAT em RVA "
  wideNameText := text "nome de símbolo de import em RVA "
  nameText := text "nome de símbolo em RVA "
  unterminatedNameText := text "nome de símbolo sem terminação nula (RVA "
  unterminatedText := text "tabela de thunks sem terminador nulo (DLL "
  checksIatSlot := false

/-- The thunk loop of `parse_delay_imports`. -/
def delayImportThunkLoop : ThunkLoop where
  iatText := text "IAT de delay import em RVA "
  wideNameText := text "nome de símbolo de delay import em RVA "
  nameText := text "nome de símbolo de delay import em RVA "
  unterminatedNameText := text "nome de símbolo de delay import sem terminação nula (RVA "
  unterminatedText := text "tabela INT de delay import sem terminador nulo (DLL "
  checksIatSlot := true

/-- The symbol of the non-null thunk number `symbolIndex`. -/
def readSymbol (p : PeParser) (loop : ThunkLoop) (dllName : ByteString) (iatRva : UInt32)
    (symbolIndex : ℕ) (thunkValue : UInt64) : Except Failure ImportedSymbol :=
  -- in 64 bits, so that the slot of a hostile descriptor cannot wrap around
  let iatSlotRva := iatRva.toNat + symbolIndex * kThunkEntrySize
  if iatSlotRva > p.parserState.sizeOfImage.toNat ∨
      iatSlotRva + kThunkEntrySize > p.parserState.sizeOfImage.toNat ∨
      (loop.checksIatSlot = true ∧ p.rvaToFileOffset ⟨UInt32.ofNat iatSlotRva, 8⟩ = none) then
    fail .malformed
      (loop.iatText ++ formatHex iatSlotRva ++ text " fora da imagem (DLL " ++ dllName ++ text ")")
  else if thunkValue &&& kOrdinalFlag64 ≠ 0 then
    .ok { byOrdinal := true, ordinal := (thunkValue &&& 0xFFFF).toUInt16, name := []
          iatRva := UInt32.ofNat iatSlotRva }
  else if thunkValue.toNat > uint32Max then
    fail .malformed (loop.wideNameText ++ formatHex thunkValue.toNat ++ text " fora da imagem")
  else
    match p.rvaToFileOffset ⟨thunkValue.toUInt32, 2⟩ with
    | none => fail .malformed (loop.nameText ++ formatHex thunkValue.toNat ++ text " fora da imagem")
    | some byNameOffset =>
      match readCstring p.data (byNameOffset + kImportByNameHintSize) with
      | none => fail .malformed (loop.unterminatedNameText ++ formatHex thunkValue.toNat ++ text ")")
      | some symbolName =>
        .ok { byOrdinal := false, ordinal := 0, name := symbolName
              iatRva := UInt32.ofNat iatSlotRva }

/-- The thunk loop: the symbols from number `symbolIndex` on, up to the null
thunk, which must come before the end of the file and of the allowance. -/
def readThunks (p : PeParser) (loop : ThunkLoop) (dllName : ByteString) (iatRva : UInt32)
    (thunkTable : ℕ) : ℕ → ℕ → Except Failure (List ImportedSymbol)
  | _, 0 => fail .malformed (loop.unterminatedText ++ dllName ++ text ")")
  | symbolIndex, remaining + 1 =>
    match readU64 p.data (thunkTable + symbolIndex * kThunkEntrySize) with
    | none => fail .malformed (loop.unterminatedText ++ dllName ++ text ")")
    | some thunkValue =>
      if thunkValue = 0 then .ok []
      else
        p.readSymbol loop dllName iatRva symbolIndex thunkValue >>= fun symbol =>
        readThunks p loop dllName iatRva thunkTable (symbolIndex + 1) remaining >>= fun symbols =>
          .ok (symbol :: symbols)

/-- The import descriptor number `index`; nothing for the terminator. -/
def readImportDescriptor (p : PeParser) (directory index : ℕ) :
    Except Failure (Option ImportedDll) :=
  let descriptorOffset := directory + index * kImportDescriptorSize
  let originalFirstThunk := (readU32 p.data descriptorOffset).getD 0
  let nameRva := (readU32 p.data (descriptorOffset + 12)).getD 0
  let firstThunk := (readU32 p.data (descriptorOffset + 16)).getD 0
  if originalFirstThunk = 0 ∧ nameRva = 0 ∧ firstThunk = 0 then .ok none
  else if nameRva = 0 then
    fail .malformed (text "descritor de import sem nome de DLL (índice " ++ decimal index ++ text ")")
  else
    match p.rvaToFileOffset ⟨nameRva, 1⟩ with
    | none =>
      fail .malformed (text "nome de DLL em RVA " ++ formatHex nameRva.toNat ++ text " fora da imagem")
    | some nameOffset =>
      match readCstring p.data nameOffset with
      | none =>
        fail .malformed
          (text "nome de DLL sem terminação nula (RVA " ++ formatHex nameRva.toNat ++ text ")")
      | some dllName =>
        let thunkRva := if originalFirstThunk ≠ 0 then originalFirstThunk else firstThunk
        if thunkRva = 0 ∨ firstThunk = 0 then
          fail .malformed
            (text "descritor de import sem tabela de thunks (índice " ++ decimal index ++ text ")")
        else
          match p.rvaToFileOffset ⟨thunkRva, 8⟩ with
          | none =>
            fail .malformed
              (text "tabela de thunks em RVA " ++ formatHex thunkRva.toNat ++ text " fora da imagem")
          | some thunkTable =>
            p.readThunks importThunkLoop dllName firstThunk thunkTable 0 kMaxSymbolsPerDll >>=
              fun symbols => .ok (some ⟨dllName, symbols⟩)

/-- The delay import descriptor number `index`; nothing for the terminator. -/
def readDelayImportDescriptor (p : PeParser) (directory index : ℕ) :
    Except Failure (Option ImportedDll) :=
  let descriptorOffset := directory + index * kDelayImportDescriptorSize
  let attributes := (readU32 p.data descriptorOffset).getD 0
  let nameRva := (readU32 p.data (descriptorOffset + 4)).getD 0
  let moduleHandleRva := (readU32 p.data (descriptorOffset + 8)).getD 0
  let iatRva := (readU32 p.data (descriptorOffset + 12)).getD 0
  let intRva := (readU32 p.data (descriptorOffset + 16)).getD 0
  let boundIatRva := (readU32 p.data (descriptorOffset + 20)).getD 0
  let unloadIatRva := (readU32 p.data (descriptorOffset + 24)).getD 0
  let timestamp := (readU32 p.data (descriptorOffset + 28)).getD 0
  if attributes = 0 ∧ nameRva = 0 ∧ moduleHandleRva = 0 ∧ iatRva = 0 ∧ intRva = 0 ∧
      boundIatRva = 0 ∧ unloadIatRva = 0 ∧ timestamp = 0 then .ok none
  else if attributes ≠ kDelayImportAttrRva then
    fail .unsupportedMechanism
      (text "atributos de delay import não suportados (esperado 0x1, índice " ++ decimal index ++
        text ")")
  else if nameRva = 0 ∨ iatRva = 0 ∨ intRva = 0 then
    fail .malformed
      (text "descritor de delay import sem nome, INT ou IAT (índice " ++ decimal index ++ text ")")
  else
    match p.rvaToFileOffset ⟨nameRva, 1⟩ with
    | none =>
      fail .malformed
        (text "nome de DLL de delay import em RVA " ++ formatHex nameRva.toNat ++
          text " fora da imagem")
    | some nameOffset =>
      match readCstring p.data nameOffset with
      | none =>
        fail .malformed
          (text "nome de DLL de delay import sem terminação nula (RVA " ++ formatHex nameRva.toNat ++
            text ")")
      | some dllName =>
        match p.rvaToFileOffset ⟨intRva, 8⟩ with
        | none =>
          fail .malformed
            (text "tabela INT de delay import em RVA " ++ formatHex intRva.toNat ++
              text " fora da imagem")
        | some thunkTable =>
          p.readThunks delayImportThunkLoop dllName iatRva thunkTable 0 kMaxSymbolsPerDll >>=
            fun symbols => .ok (some ⟨dllName, symbols⟩)

/-- The descriptor loop of both import directories: descriptors from `index`
on up to the terminator, which must come within the limit. -/
def readDescriptors (readDescriptor : ℕ → Except Failure (Option ImportedDll))
    (unterminated : ByteString) : ℕ → ℕ → Except Failure (List ImportedDll)
  | _, 0 => fail .malformed unterminated
  | index, remaining + 1 =>
    readDescriptor index >>= fun
      | none => .ok []
      | some dll =>
        readDescriptors readDescriptor unterminated (index + 1) remaining >>= fun dlls =>
          .ok (dll :: dlls)

/-- `parse_imports`. -/
def parseImports (p : PeParser) : Except Failure PeParser :=
  let range : RvaRange := ⟨p.parserState.importDirectoryRva, p.parserState.importDirectorySize⟩
  if range.rva = 0 ∧ range.length = 0 then .ok p
  else if range.length.toNat < kImportDescriptorSize then
    fail .malformed (text "diretório de imports menor que um descritor (20 bytes)")
  else
    match p.rvaToFileOffset range with
    | none =>
      fail .malformed
        (text "diretório de imports em RVA " ++ formatHex range.rva.toNat ++ text " fora da imagem")
    | some directory =>
      readDescriptors (p.readImportDescriptor directory)
          (text "diretório de imports sem descritor terminador") 0
          (min (range.length.toNat / kImportDescriptorSize) kMaxImportDlls) >>= fun dlls =>
        .ok { p with parserState := { p.parserState with imports := dlls } }

/-- `parse_delay_imports`. -/
def parseDelayImports (p : PeParser) : Except Failure PeParser :=
  let range : RvaRange :=
    ⟨p.parserState.delayImportDirectoryRva, p.parserState.delayImportDirectorySize⟩
  if range.rva = 0 ∧ range.length = 0 then .ok p
  else if range.length.toNat < kDelayImportDescriptorSize then
    fail .malformed (text "diretório de delay imports menor que um descritor (32 bytes)")
  else
    match p.rvaToFileOffset range with
    | none =>
      fail .malformed
        (text "diretório de delay imports em RVA " ++ formatHex range.rva.toNat ++
          text " fora da imagem")
    | some directory =>
      readDescriptors (p.readDelayImportDescriptor directory)
          (text "diretório de delay imports sem descritor terminador") 0
          (min (range.length.toNat / kDelayImportDescriptorSize) kMaxImportDlls) >>= fun dlls =>
        .ok { p with parserState := { p.parserState with delayImports := dlls } }

/-! ### TLS -/

/-- The callback loop: up to a null entry or the end of the file, `remaining`
callbacks at most. -/
def readTlsCallbacks (data : ByteString) : ℕ → ℕ → Except Failure (List UInt64)
  | offset, 0 =>
    match readU64 data offset with
    | none => .ok []
    | some cbVa =>
      if cbVa = 0 then .ok []
      else fail .malformed (text "diretório TLS excede o limite de callbacks")
  | offset, remaining + 1 =>
    match readU64 data offset with
    | none => .ok []
    | some cbVa =>
      if cbVa = 0 then .ok []
      else readTlsCallbacks data (offset + 8) remaining >>= fun cbVas => .ok (cbVa :: cbVas)

/-- The file offset of the callback table, when its address is one of the image. -/
def callbacksFileOffset (p : PeParser) (callbacksVa : UInt64) : Option ℕ :=
  if callbacksVa ≥ p.parserState.imageBase ∧
      (callbacksVa - p.parserState.imageBase).toNat ≤ uint32Max then
    p.rvaToFileOffset ⟨(callbacksVa - p.parserState.imageBase).toUInt32, 8⟩
  else none

/-- `parse_tls_directory`. -/
def parseTlsDirectory (p : PeParser) : Except Failure PeParser :=
  let range : RvaRange := ⟨p.parserState.tlsDirectoryRva, p.parserState.tlsDirectorySize⟩
  if range.rva = 0 ∧ range.length = 0 then .ok p
  else if range.rva = 0 ∨ range.length = 0 then
    fail .malformed (text "diretório TLS sem RVA ou tamanho")
  else if range.length < 40 then
    fail .malformed (text "diretório TLS menor que a estrutura IMAGE_TLS_DIRECTORY64")
  else
    match p.rvaToFileOffset range with
    | none =>
      if p.isRvaInUninitializedSection range then
        .ok (p.recordUninitializedDirectory (text "TLS"))
      else fail .malformed (text "diretório TLS fora dos dados físicos da imagem")
    | some offset =>
      let callbacksVa := (readU64 p.data (offset + 24)).getD 0
      (match p.callbacksFileOffset callbacksVa with
        | none => .ok []
        | some currentCbOffset =>
          readTlsCallbacks p.data currentCbOffset kMaxTlsCallbacks) >>= fun callbackVas =>
      .ok { p with parserState := { p.parserState with tlsInfo :=
        { startAddressOfRawData := (readU64 p.data offset).getD 0
          endAddressOfRawData := (readU64 p.data (offset + 8)).getD 0
          addressOfIndex := (readU64 p.data (offset + 16)).getD 0
          addressOfCallbacks := callbacksVa
          sizeOfZeroFill := (readU32 p.data (offset + 32)).getD 0
          characteristics := (readU32 p.data (offset + 36)).getD 0
          callbackVas := callbackVas } } }

end PeParser

/-! ### Unwind data -/

/-- `raw_operation`. -/
def rawOperation (rawCode : UInt16) : UInt8 := ((rawCode >>> 8) &&& 0xF).toUInt8

/-- `code_offset`. -/
def codeOffset (rawCode : UInt16) : UInt8 := (rawCode &&& 0xFF).toUInt8

/-- `operation_info`. -/
def operationInfo (rawCode : UInt16) : UInt8 := ((rawCode >>> 12) &&& 0xF).toUInt8

/-- The 12-bit distance of an epilog descriptor from the end of its function. -/
def distanceFromEnd (rawCode : UInt16) : UInt32 :=
  ((operationInfo rawCode).toUInt32 <<< 8) ||| (codeOffset rawCode).toUInt32

/-- What `parse_unwind_info` works on once the header is read: the function,
the header fields the codes depend on, and where the codes lie in the file. -/
structure UnwindReader where
  data : ByteString
  unwindRva : UInt32
  functionBeginRva : UInt32
  functionEndRva : UInt32
  codeCount : ℕ
  frameRegister : UInt8
  frameOffset : UInt8
  codes : ℕ

namespace UnwindReader

/-- `read_raw_code`. -/
def rawCode (u : UnwindReader) (slot : ℕ) : UInt16 :=
  (readU16 u.data (u.codes + slot * kUnwindCodeSize)).getD 0

/-- A text with the address of the record. -/
def emRva (u : UnwindReader) (message : String) : ByteString :=
  text message ++ text " em RVA " ++ formatHex u.unwindRva.toNat

/-- `append_epilog`: the epilog of `epilogSize` bytes that starts
`distance` bytes before the end of the function. -/
def appendEpilog (u : UnwindReader) (epilogSize : UInt8) (distance : UInt32) :
    Except Failure UnwindEpilog :=
  let functionSize := u.functionEndRva - u.functionBeginRva
  if distance < epilogSize.toUInt32 ∨ distance > functionSize then
    fail .malformed (u.emRva "epílogo V2 fora do intervalo da RUNTIME_FUNCTION")
  else
    let beginRva := u.functionEndRva - distance
    let endRva := beginRva.toNat + epilogSize.toNat
    if endRva > u.functionEndRva.toNat then
      fail .malformed (u.emRva "epílogo V2 excede a RUNTIME_FUNCTION")
    else .ok ⟨beginRva, UInt32.ofNat endRva⟩

/-- The loop over the further epilog descriptors, from `slot` on with
`remaining` slots left: their epilogs, and the first slot that is a code. -/
def readEpilogs (u : UnwindReader) (epilogSize : UInt8) :
    ℕ → ℕ → Except Failure (List UnwindEpilog × ℕ)
  | slot, 0 => .ok ([], slot)
  | slot, remaining + 1 =>
    if rawOperation (u.rawCode slot) ≠ kUnwindOpEpilog then .ok ([], slot)
    else if distanceFromEnd (u.rawCode slot) = 0 then .ok ([], slot + 1)
    else
      u.appendEpilog epilogSize (distanceFromEnd (u.rawCode slot)) >>= fun epilog =>
      readEpilogs u epilogSize (slot + 1) remaining >>= fun (epilogs, next) =>
        .ok (epilog :: epilogs, next)

/-- Two neighbours of the sorted list overlap. -/
def hasOverlap : List UnwindEpilog → Bool
  | left :: right :: rest => decide (right.beginRva < left.endRva) || hasOverlap (right :: rest)
  | _ => false

/-- `std::sort` by `begin_rva`. -/
def sortEpilogs (epilogs : List UnwindEpilog) : List UnwindEpilog :=
  epilogs.insertionSort fun left right => left.beginRva ≤ right.beginRva

/-- The epilog descriptors of a version 2 record: the sorted epilogs and the
first slot that is a code. -/
def readEpilogDescriptors (u : UnwindReader) (version : UInt8) :
    Except Failure (List UnwindEpilog × ℕ) :=
  if version = kUnwindVersion2 ∧ u.codeCount ≠ 0 ∧
      rawOperation (u.rawCode 0) = kUnwindOpEpilog then
    let epilogSize := codeOffset (u.rawCode 0)
    let epilogFlags := operationInfo (u.rawCode 0)
    if epilogSize = 0 then
      fail .malformed (u.emRva "descritor de epílogo V2 com tamanho zero")
    else if epilogFlags &&& ~~~kUnwindV2EpilogAtFunctionEnd ≠ 0 then
      fail .unsupportedMechanism (u.emRva "flags de descritor de epílogo V2 não suportadas")
    else
      (if epilogFlags &&& kUnwindV2EpilogAtFunctionEnd ≠ 0 then
        u.appendEpilog epilogSize epilogSize.toUInt32 >>= fun epilog => .ok (epilog, 1)
      else if u.codeCount = 1 then
        fail .malformed (u.emRva "descritor de epílogo V2 sem offset")
      else if rawOperation (u.rawCode 1) ≠ kUnwindOpEpilog then
        fail .malformed (u.emRva "offset de epílogo V2 sem UOP_Epilog")
      else if distanceFromEnd (u.rawCode 1) = 0 then
        fail .malformed (u.emRva "offset de epílogo V2 nulo")
      else
        u.appendEpilog epilogSize (distanceFromEnd (u.rawCode 1)) >>= fun epilog =>
          .ok (epilog, 2)) >>= fun (epilog, slot) =>
      u.readEpilogs epilogSize slot (u.codeCount - slot) >>= fun (epilogs, next) =>
      if hasOverlap (sortEpilogs (epilog :: epilogs)) then
        fail .malformed (u.emRva "epílogos V2 sobrepostos")
      else .ok (sortEpilogs (epilog :: epilogs), next)
  else .ok ([], 0)

/-- The `switch` over the operation: which it is, and how many further slots
its operand takes. -/
def decodeOperation (u : UnwindReader) (operation info : UInt8) :
    Except Failure (UnwindOperation × ℕ) :=
  match operation.toNat with
  | 0 =>
    if isValidGpr info then .ok (.pushNonVol, 0)
    else fail .malformed (text "UWOP_PUSH_NONVOL usa registrador inválido")
  | 1 =>
    if info = 0 then .ok (.allocLarge, 1)
    else if info = 1 then .ok (.allocLarge, 2)
    else fail .malformed (text "UWOP_ALLOC_LARGE com OpInfo inválido")
  | 2 => .ok (.allocSmall, 0)
  | 3 =>
    -- real images use a register here, or repeat FrameOffset (which may be 4)
    if info ≠ 0 ∧ !isValidGpr info ∧ info ≠ u.frameOffset then
      fail .unsupportedMechanism (u.emRva "UWOP_SET_FPREG com OpInfo não suportado")
    else if isValidGpr u.frameRegister then .ok (.setFpReg, 0)
    else
      fail .malformed
        (u.emRva "UWOP_SET_FPREG inválido" ++ text " (FrameRegister=" ++
          decimal u.frameRegister.toNat ++ text ")")
  | 4 =>
    if isValidGpr info then .ok (.saveNonVol, 1)
    else fail .malformed (text "UWOP_SAVE_NONVOL usa registrador inválido")
  | 5 =>
    if isValidGpr info then .ok (.saveNonVolFar, 2)
    else fail .malformed (text "UWOP_SAVE_NONVOL_FAR usa registrador inválido")
  | 8 => .ok (.saveXmm128, 1)
  | 9 => .ok (.saveXmm128Far, 2)
  | 10 =>
    if info > 1 then fail .malformed (text "UWOP_PUSH_MACHFRAME com OpInfo inválido")
    else .ok (.pushMachFrame, 0)
  | _ =>
    fail .unsupportedMechanism
      (u.emRva ("operação de UNWIND_INFO não suportada: " ++ toString operation.toNat))

/-- The operand of the code at `slot`, in bytes. -/
def readOperand (u : UnwindReader) (slot extraSlots : ℕ) (operation : UnwindOperation)
    (info : UInt8) : Except Failure UInt32 :=
  if extraSlots = 1 then
    let value := (readU16 u.data (u.codes + (slot + 1) * kUnwindCodeSize)).getD 0
    match operation with
    | .allocLarge | .saveNonVol => .ok (value.toUInt32 * 8)
    | .saveXmm128 => .ok (value.toUInt32 * 16)
    | _ => .ok 0
  else if extraSlots = 2 then
    let value := (readU32 u.data (u.codes + (slot + 1) * kUnwindCodeSize)).getD 0
    if operation = .saveXmm128Far ∧ value &&& 0xF ≠ 0 then
      fail .malformed (text "UWOP_SAVE_XMM128_FAR com offset não alinhado")
    else .ok value
  else if operation = .allocSmall then .ok (info.toUInt32 * 8 + 8)
  else .ok 0

/-- The code loop from `slot` on: the codes, and whether one of them is an
extended `UWOP_SET_FPREG`.  Each round takes at least one slot, so the fuel is
the number of slots; `previous` is the offset of the code before. -/
def readCodes (u : UnwindReader) :
    ℕ → ℕ → Option UInt8 → Except Failure (List UnwindCode × Bool)
  | 0, _, _ => .ok ([], false)
  | fuel + 1, slot, previous =>
    if slot < u.codeCount then
      let raw := u.rawCode slot
      let info := operationInfo raw
      if (previous.any fun offset => decide (codeOffset raw > offset)) then
        fail .malformed (text "códigos de UNWIND_INFO fora de ordem decrescente")
      else
        u.decodeOperation (rawOperation raw) info >>= fun (operation, extraSlots) =>
        if extraSlots > u.codeCount - slot - 1 then
          fail .malformed (text "operando de UNWIND_INFO truncado")
        else
          u.readOperand slot extraSlots operation info >>= fun operand =>
          readCodes u fuel (slot + (extraSlots + 1)) (some (codeOffset raw)) >>=
            fun (codes, extended) =>
              .ok (⟨codeOffset raw, operation, info, operand⟩ :: codes,
                (decide (operation = .setFpReg) && info != 0) || extended)
    else .ok ([], false)

end UnwindReader

namespace PeParser

/-- The chained function or the handler behind the codes, at `tailRva`. -/
def readUnwindTail (p : PeParser) (tailRva : UInt32) (unwind : UnwindInfo) :
    Except Failure UnwindInfo :=
  if unwind.flags &&& kUnwindFlagChainInfo ≠ 0 then
    if unwind.flags &&& (kUnwindFlagEHandler ||| kUnwindFlagUHandler) ≠ 0 then
      fail .malformed (text "UNWIND_INFO não pode combinar handler e CHAININFO")
    else
      match p.rvaToFileOffset ⟨tailRva, 12⟩ with
      | none => fail .malformed (text "RUNTIME_FUNCTION encadeada truncada")
      | some chain =>
        .ok { unwind with
          chainedBeginRva := (readU32 p.data chain).getD 0
          chainedEndRva := (readU32 p.data (chain + 4)).getD 0
          chainedUnwindInfoRva := (readU32 p.data (chain + 8)).getD 0
          hasChainedFunction := true }
  else if unwind.flags &&& (kUnwindFlagEHandler ||| kUnwindFlagUHandler) ≠ 0 then
    match p.rvaToFileOffset ⟨tailRva, 4⟩ with
    | none => fail .malformed (text "handler de UNWIND_INFO truncado")
    | some handler =>
      let handlerRva := (readU32 p.data handler).getD 0
      let dataRva := tailRva.toNat + 4
      if handlerRva = 0 ∨ p.rvaToFileOffset ⟨handlerRva, 1⟩ = none then
        fail .malformed (text "handler de UNWIND_INFO fora da imagem")
      else if dataRva > p.parserState.sizeOfImage.toNat then
        fail .malformed (text "dados de handler fora da imagem")
      else
        .ok { unwind with handlerRva := handlerRva, handlerDataRva := UInt32.ofNat dataRva }
  else .ok unwind

/-- The codes of a record and what stands behind them. -/
def readUnwindBody (p : PeParser) (u : UnwindReader) (codeEnd : ℕ) (unwind : UnwindInfo) :
    Except Failure UnwindInfo :=
  u.readEpilogDescriptors unwind.version >>= fun (epilogs, slot) =>
  u.readCodes u.codeCount slot none >>= fun (codes, extended) =>
  let alignedTail := (codeEnd + 3) / 4 * 4
  if alignedTail > p.parserState.sizeOfImage.toNat ∨ alignedTail > uint32Max then
    fail .malformed (text "cauda de UNWIND_INFO excede a imagem")
  else
    p.readUnwindTail (UInt32.ofNat alignedTail)
      { unwind with codes := codes, epilogs := epilogs, hasExtendedSetFpreg := extended }

/-- `parse_unwind_info`. -/
def parseUnwindInfo (p : PeParser) (unwindRva functionBeginRva functionEndRva : UInt32) :
    Except Failure UnwindInfo :=
  if unwindRva &&& 0x3 ≠ 0 then
    fail .malformed
      (text "UNWIND_INFO sem alinhamento de 4 bytes em RVA " ++ formatHex unwindRva.toNat)
  else
    match p.rvaToFileOffset ⟨unwindRva, 4⟩ with
    | none =>
      fail .malformed (text "UNWIND_INFO fora da imagem em RVA " ++ formatHex unwindRva.toNat)
    | some header =>
      let headerWord := (readU32 p.data header).getD 0
      let unwind : UnwindInfo :=
        { version := (headerWord &&& 0x7).toUInt8
          flags := ((headerWord >>> 3) &&& 0x1F).toUInt8
          prologSize := ((headerWord >>> 8) &&& 0xFF).toUInt8
          frameRegister := ((headerWord >>> 24) &&& 0x0F).toUInt8
          frameOffset := ((headerWord >>> 28) &&& 0x0F).toUInt8 }
      let codeCount := ((headerWord >>> 16) &&& 0xFF).toNat
      if unwind.version ≠ kUnwindVersion1 ∧ unwind.version ≠ kUnwindVersion2 then
        fail .unsupportedMechanism
          (text "versão de UNWIND_INFO " ++ decimal unwind.version.toNat ++
            text " não suportada em RVA " ++ formatHex unwindRva.toNat ++
            text " (esperado 1 ou 2)")
      else if unwind.flags &&& ~~~kUnwindKnownFlags ≠ 0 then
        fail .unsupportedMechanism
          (text "flags de UNWIND_INFO não suportadas: " ++ formatHex unwind.flags.toNat)
      else
        let codeBytes := codeCount * kUnwindCodeSize
        let codeEnd := unwindRva.toNat + kUnwindInfoHeaderSize + codeBytes
        if codeEnd > p.parserState.sizeOfImage.toNat ∨ codeEnd > uint32Max then
          fail .malformed (text "códigos de UNWIND_INFO excedem a imagem")
        else
          let codes := p.rvaToFileOffset ⟨unwindRva + 4, UInt32.ofNat codeBytes⟩
          if codes = none ∧ codeCount ≠ 0 then
            fail .malformed (text "códigos de UNWIND_INFO truncados")
          else
            p.readUnwindBody
              { data := p.data
                unwindRva := unwindRva
                functionBeginRva := functionBeginRva
                functionEndRva := functionEndRva
                codeCount := codeCount
                frameRegister := unwind.frameRegister
                frameOffset := unwind.frameOffset
                codes := codes.getD 0 }
              codeEnd unwind

/-! ### The exception directory -/

/-- The function table: `remaining` entries from `index` on, in order of
address; `previousEnd` is the end of the function before. -/
def readRuntimeFunctions (p : PeParser) (directory : ℕ) :
    ℕ → ℕ → Option UInt32 → Except Failure (List RuntimeFunction)
  | _, 0, _ => .ok []
  | index, remaining + 1, previousEnd =>
    let offset := directory + index * kRuntimeFunctionSize
    let beginRva := (readU32 p.data offset).getD 0
    let endRva := (readU32 p.data (offset + 4)).getD 0
    let unwindInfoRva := (readU32 p.data (offset + 8)).getD 0
    if beginRva ≥ endRva ∨ endRva > p.parserState.sizeOfImage then
      fail .malformed (text "RUNTIME_FUNCTION com intervalo inválido")
    else if (previousEnd.any fun stop => decide (beginRva < stop)) then
      fail .malformed (text "RUNTIME_FUNCTIONs fora de ordem ou sobrepostos")
    else
      p.parseUnwindInfo unwindInfoRva beginRva endRva >>= fun unwind =>
      readRuntimeFunctions p directory (index + 1) remaining (some endRva) >>= fun functions =>
        .ok (⟨beginRva, endRva, unwindInfoRva, unwind⟩ :: functions)

/-- `find_chained_index`: `std::lower_bound` by begin address on the ordered
table, and the entry found there must be the chained one. -/
def findChainedIndex (functions : List RuntimeFunction) (unwind : UnwindInfo) : Option ℕ :=
  match functions.findIdx? fun function => decide (unwind.chainedBeginRva ≤ function.beginRva) with
  | none => none
  | some index =>
    match functions[index]? with
    | none => none
    | some chained =>
      if chained.beginRva ≠ unwind.chainedBeginRva ∨ chained.endRva ≠ unwind.chainedEndRva ∨
          chained.unwindInfoRva ≠ unwind.chainedUnwindInfoRva then none
      else some index

/-- `chained_targets`, for the entries of `rest`. -/
def chainedTargets (functions : List RuntimeFunction) :
    List RuntimeFunction → Except Failure (List (Option ℕ))
  | [] => .ok []
  | function :: rest =>
    if function.unwind.hasChainedFunction then
      match findChainedIndex functions function.unwind with
      | none => fail .malformed (text "CHAININFO não referencia uma RUNTIME_FUNCTION da tabela")
      | some target => chainedTargets functions rest >>= fun targets => .ok (some target :: targets)
    else chainedTargets functions rest >>= fun targets => .ok (none :: targets)

/-- The mark of an entry in the walk over the chains. -/
inductive ChainState
  | unvisited
  | onPath
  | done
  deriving DecidableEq

/-- One walk along the chain from `current`: the marks with the path set to
`onPath`, and the path; nothing when it meets its own path.  Every round marks
an unvisited entry, so the fuel is one more than the number of entries. -/
def walkChain (targets : List (Option ℕ)) :
    ℕ → List ChainState → ℕ → List ℕ → Option (List ChainState × List ℕ)
  | 0, _, _, _ => none
  | fuel + 1, chainState, current, path =>
    match chainState.getD current .unvisited with
    | .onPath => none
    | .done => some (chainState, path)
    | .unvisited =>
      match targets.getD current none with
      | none => some (chainState.set current .onPath, current :: path)
      | some next =>
        walkChain targets fuel (chainState.set current .onPath) next (current :: path)

/-- The outer loop over the starts: `remaining` of them from `start` on. -/
def walkChains (targets : List (Option ℕ)) : ℕ → ℕ → List ChainState → Except Failure Unit
  | _, 0, _ => .ok ()
  | start, remaining + 1, chainState =>
    if chainState.getD start .unvisited = .done then
      walkChains targets (start + 1) remaining chainState
    else
      match walkChain targets (targets.length + 1) chainState start [] with
      | none => fail .malformed (text "ciclo em CHAININFO de UNWIND_INFO")
      | some (walked, path) =>
        walkChains targets (start + 1) remaining
          (path.foldl (fun marks index => marks.set index .done) walked)

/-- `parse_runtime_functions`. -/
def parseRuntimeFunctions (p : PeParser) : Except Failure PeParser :=
  let range : RvaRange :=
    ⟨p.parserState.exceptionDirectoryRva, p.parserState.exceptionDirectorySize⟩
  if range.rva = 0 ∧ range.length = 0 then .ok p
  else if range.rva = 0 ∨ range.length = 0 ∨ range.length.toNat % kRuntimeFunctionSize ≠ 0 then
    fail .malformed (text "diretório de exceções deve conter RUNTIME_FUNCTIONs completos")
  else
    match p.rvaToFileOffset range with
    | none =>
      if p.isRvaInUninitializedSection range then
        .ok (p.recordUninitializedDirectory (text "exceções"))
      else
        fail .malformed
          (text "diretório de exceções fora da imagem (RVA " ++ formatHex range.rva.toNat ++
            text " size " ++ formatHex range.length.toNat ++ text ")")
    | some directory =>
      let count := range.length.toNat / kRuntimeFunctionSize
      if count > kMaxRuntimeFunctions then
        fail .malformed (text "número excessivo de RUNTIME_FUNCTIONs")
      else
        p.readRuntimeFunctions directory 0 count none >>= fun functions =>
        chainedTargets functions functions >>= fun targets =>
        walkChains targets 0 functions.length
            (List.replicate functions.length .unvisited) >>= fun _ =>
        .ok { p with parserState := { p.parserState with runtimeFunctions := functions } }

/-! ### Base relocations -/

/-- The entries of a block: `remaining` of them from `offset` on. -/
def readRelocEntries (data : ByteString) : ℕ → ℕ → List BaseRelocEntry
  | _, 0 => []
  | offset, remaining + 1 =>
    let rawEntry := (readU16 data offset).getD 0
    ⟨(rawEntry >>> 12) &&& 0xF, rawEntry &&& 0xFFF⟩ ::
      readRelocEntries data (offset + kBaseRelocEntrySize) remaining

/-- The block at `blockOffset`, with `available` bytes of the directory left:
the block and its size. -/
def readRelocBlock (data : ByteString) (blockOffset available : ℕ) :
    Except Failure (BaseRelocBlock × ℕ) :=
  let pageRva := (readU32 data blockOffset).getD 0
  let blockSize := (readU32 data (blockOffset + 4)).getD 0
  if blockSize.toNat < kBaseRelocBlockHeaderSize then
    fail .malformed
      (text "bloco de relocations com tamanho inválido (" ++ decimal blockSize.toNat ++
        text " bytes)")
  else if blockSize.toNat > available then
    fail .malformed (text "bloco de relocations excede o diretório")
  else
    let entryBytes := blockSize.toNat - kBaseRelocBlockHeaderSize
    if entryBytes % kBaseRelocEntrySize ≠ 0 then
      fail .malformed (text "bloco de relocations com entradas truncadas")
    else
      .ok (⟨pageRva, readRelocEntries data (blockOffset + kBaseRelocBlockHeaderSize)
        (entryBytes / kBaseRelocEntrySize)⟩, blockSize.toNat)

/-- The block loop, with `remaining` blocks of the allowance left, and the
check behind it that the blocks fill the directory. -/
def readRelocBlocks (data : ByteString) (directory size : ℕ) :
    ℕ → ℕ → Except Failure (List BaseRelocBlock)
  | consumed, 0 =>
    if consumed + kBaseRelocBlockHeaderSize ≤ size then
      fail .malformed (text "número excessivo de blocos de relocations")
    else if consumed ≠ size then
      fail .malformed (text "diretório de relocations com bytes residuais")
    else .ok []
  | consumed, remaining + 1 =>
    if consumed + kBaseRelocBlockHeaderSize ≤ size then
      readRelocBlock data (directory + consumed) (size - consumed) >>= fun (block, blockSize) =>
      readRelocBlocks data directory size (consumed + blockSize) remaining >>= fun blocks =>
        .ok (block :: blocks)
    else if consumed ≠ size then
      fail .malformed (text "diretório de relocations com bytes residuais")
    else .ok []

/-- `parse_relocations`. -/
def parseRelocations (p : PeParser) : Except Failure PeParser :=
  let range : RvaRange :=
    ⟨p.parserState.relocationDirectoryRva, p.parserState.relocationDirectorySize⟩
  if range.rva = 0 ∧ range.length = 0 then .ok p
  else if range.length.toNat < kBaseRelocBlockHeaderSize then
    fail .malformed
      (text "diretório de relocations menor que o cabeçalho de bloco (8 bytes)")
  else
    match p.rvaToFileOffset range with
    | none =>
      if p.isRvaInUninitializedSection range then
        .ok (p.recordUninitializedDirectory (text "relocations"))
      else
        fail .malformed
          (text "diretório de relocations em RVA " ++ formatHex range.rva.toNat ++
            text " fora da imagem")
    | some directory =>
      readRelocBlocks p.data directory range.length.toNat 0 kMaxRelocBlocks >>= fun blocks =>
        .ok { p with parserState := { p.parserState with relocations := blocks } }

end PeParser

/-! ### Headers -/

def readDosHeader (data : ByteString) : Except Failure ℕ :=
  if data.length < kDosHeaderSize then
    fail .truncated (text "arquivo menor que o cabeçalho DOS (64 bytes)")
  else
    let dosMagic := (readU16 data 0).getD 0
    let eLfanew := (readU32 data 60).getD 0
    if dosMagic ≠ kDosMagic then
      fail .malformed (text "assinatura DOS ausente (esperado 'MZ')")
    else if eLfanew.toNat > data.length - kPeSignatureOffset then
      fail .truncated (text "e_lfanew aponta para fora do arquivo")
    else .ok eLfanew.toNat

/-- What the COFF header says that the rest needs. -/
structure CoffHeader where
  coffOffset : ℕ
  machine : UInt16
  sectionCount : UInt16
  optionalSize : UInt16
  characteristics : UInt16

/-- `opt_offset`. -/
def CoffHeader.optOffset (h : CoffHeader) : ℕ := h.coffOffset + kCoffHeaderSize

/-- `section_table_offset`. -/
def CoffHeader.sectionTableOffset (h : CoffHeader) : ℕ := h.optOffset + h.optionalSize.toNat

def readCoffHeader (data : ByteString) (ntOffset : ℕ) : Except Failure CoffHeader :=
  if !inRange data.length ntOffset (kPeSignatureOffset + kCoffHeaderSize) then
    fail .truncated (text "cabeçalho NT/COFF truncado")
  else if (readU32 data ntOffset).getD 0 ≠ kPeSignature then
    fail .malformed (text "assinatura PE ausente (esperado 'PE\\0\\0')")
  else
    let coffOffset := ntOffset + kPeSignatureOffset
    let h : CoffHeader :=
      { coffOffset := coffOffset
        machine := (readU16 data coffOffset).getD 0
        sectionCount := (readU16 data (coffOffset + 2)).getD 0
        optionalSize := (readU16 data (coffOffset + 16)).getD 0
        characteristics := (readU16 data (coffOffset + 18)).getD 0 }
    if h.machine ≠ kMachineAmd64 then
      fail .unsupportedArchitecture
        (text "arquitetura de máquina " ++ formatHex h.machine.toNat ++
          text " não suportada (esperado AMD64)")
    else if h.optionalSize.toNat < kOptionalHeader64BaseSize then
      fail .malformed (text "SizeOfOptionalHeader menor que o mínimo PE32+ (112 bytes)")
    else if h.sectionTableOffset > data.length ∨
        h.sectionCount.toNat > (data.length - h.sectionTableOffset) / kSectionHeaderSize then
      fail .truncated (text "tabela de seções não cabe no arquivo")
    else .ok h

/-- Data directory number `index`, when the header has that many. -/
def readDirectory (data : ByteString) (directoryOffset directoryCount index : ℕ) :
    UInt32 × UInt32 :=
  if directoryCount > index then
    ((readU32 data (directoryOffset + index * kDataDirectoryEntrySize)).getD 0,
      (readU32 data (directoryOffset + index * kDataDirectoryEntrySize + 4)).getD 0)
  else (0, 0)

/-- The size and alignment fields are those of a loadable image. -/
def validAlignment (sectionAlignment fileAlignment sizeOfImage sizeOfHeaders : UInt32) : Bool :=
  !(sizeOfImage == 0 || sizeOfHeaders == 0 || decide (sizeOfHeaders > sizeOfImage) ||
    !isPowerOfTwo sectionAlignment || !isPowerOfTwo fileAlignment ||
    decide (fileAlignment < kMinFileAlignment) || decide (fileAlignment > kMaxFileAlignment) ||
    decide (sectionAlignment < fileAlignment))

def readOptionalHeader (data : ByteString) (h : CoffHeader) : Except Failure PeInfo :=
  let optMagic := (readU16 data h.optOffset).getD 0
  if optMagic = kOptionalMagic32 then
    fail .unsupportedFormat (text "PE32 (x86) não é suportado; apenas PE32+ x86-64")
  else if optMagic ≠ kOptionalMagic64 then
    fail .malformed
      (text "magic do optional header " ++ formatHex optMagic.toNat ++
        text " não reconhecido (esperado 0x20b)")
  else
    let addressOfEntryPoint := (readU32 data (h.optOffset + 16)).getD 0
    let sectionAlignment := (readU32 data (h.optOffset + 32)).getD 0
    let fileAlignment := (readU32 data (h.optOffset + 36)).getD 0
    let sizeOfImage := (readU32 data (h.optOffset + 56)).getD 0
    let sizeOfHeaders := (readU32 data (h.optOffset + 60)).getD 0
    if !validAlignment sectionAlignment fileAlignment sizeOfImage sizeOfHeaders then
      fail .malformed (text "optional header com alinhamento ou tamanho de imagem inválido")
    else if addressOfEntryPoint ≠ 0 ∧ addressOfEntryPoint ≥ sizeOfImage then
      fail .malformed (text "entry point fora dos limites de SizeOfImage")
    else
      let numberOfRvaAndSizes := (readU32 data (h.optOffset + 108)).getD 0
      let directoryCount := min numberOfRvaAndSizes.toNat kDataDirectoryCount
      if directoryCount * kDataDirectoryEntrySize >
          h.optionalSize.toNat - kOptionalHeader64BaseSize then
        fail .truncated (text "diretórios de dados excedem o optional header")
      else
        let directory :=
          readDirectory data (h.optOffset + kOptionalHeader64BaseSize) directoryCount
        .ok
          { isPe32Plus := true
            isDll := h.characteristics &&& kImageFileDll != 0
            machine := h.machine
            numberOfSections := h.sectionCount
            addressOfEntryPoint := addressOfEntryPoint
            imageBase := (readU64 data (h.optOffset + 24)).getD 0
            sectionAlignment := sectionAlignment
            sizeOfImage := sizeOfImage
            sizeOfHeaders := sizeOfHeaders
            subsystem := (readU16 data (h.optOffset + 68)).getD 0
            exportDirectoryRva := (directory kDirExport).1
            exportDirectorySize := (directory kDirExport).2
            importDirectoryRva := (directory kDirImport).1
            importDirectorySize := (directory kDirImport).2
            resourceDirectoryRva := (directory kDirResource).1
            resourceDirectorySize := (directory kDirResource).2
            exceptionDirectoryRva := (directory kDirException).1
            exceptionDirectorySize := (directory kDirException).2
            relocationDirectoryRva := (directory kDirBaseReloc).1
            relocationDirectorySize := (directory kDirBaseReloc).2
            tlsDirectoryRva := (directory kDirTls).1
            tlsDirectorySize := (directory kDirTls).2
            delayImportDirectoryRva := (directory kDirDelayImport).1
            delayImportDirectorySize := (directory kDirDelayImport).2 }

/-! ### The section table -/

/-- The section header at `offset`. -/
def readSection (data : ByteString) (offset : ℕ) : SectionInfo :=
  let nameBytes := (readBytes data offset 8).getD (List.replicate 8 0)
  { name := nameBytes.take (trimmedLength nameBytes 8)
    virtualSize := (readU32 data (offset + 8)).getD 0
    virtualAddress := (readU32 data (offset + 12)).getD 0
    rawDataSize := (readU32 data (offset + 16)).getD 0
    rawDataPointer := (readU32 data (offset + 20)).getD 0
    characteristics := (readU32 data (offset + 36)).getD 0 }

/-- The section table: `remaining` headers from `offset` on.  A section that
is not empty lies behind the headers and in the image, and its raw data in the file. -/
def readSections (data : ByteString) (info : PeInfo) : ℕ → ℕ → Except Failure (List SectionInfo)
  | _, 0 => .ok []
  | offset, remaining + 1 =>
    let s := readSection data offset
    if s.span ≠ 0 ∧ (s.virtualAddress < info.sizeOfHeaders ∨
        s.sectionEnd > info.sizeOfImage.toNat) then
      fail .malformed (text "seção " ++ s.name ++ text " excede os limites da imagem")
    else if s.rawDataSize > 0 ∧ s.rawDataPointer.toNat + s.rawDataSize.toNat > data.length then
      fail .malformed (text "seção " ++ s.name ++ text ": dados crus excedem o arquivo")
    else
      readSections data info (offset + kSectionHeaderSize) remaining >>= fun sections =>
        .ok (s :: sections)

/-! ### The parser -/

/-- The headers and the section table: the state in which the directories are read. -/
def readHeaders (data : ByteString) : Except Failure PeParser :=
  readDosHeader data >>= fun ntOffset =>
  readCoffHeader data ntOffset >>= fun h =>
  readOptionalHeader data h >>= fun info =>
  readSections data info h.sectionTableOffset h.sectionCount.toNat >>= fun sections =>
    .ok { data := data, parserState := { info with sections := sections } }

/-- `parse_pe`. -/
def parsePe (data : ByteString) : Except Failure ParseResult :=
  readHeaders data >>= fun p =>
  p.parseExports >>= fun p =>
  p.parseImports >>= fun p =>
  p.parseDelayImports >>= fun p =>
  p.parseRuntimeFunctions >>= fun p =>
  p.parseTlsDirectory >>= fun p =>
  p.parseRelocations >>= fun p =>
    .ok ⟨p.parserState, p.warnings⟩

end TradutorLinux.Pe
