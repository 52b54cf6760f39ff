import TradutorLinux.Util.Basics

/-!
# The parsed image

The records of `pe/pe_reader.hpp`: what `parse_pe` reports about a PE32+ file.
Fixed-width fields keep their width, so that a truncating conversion of the
source is a truncating conversion here.

## Main definitions

* `PeInfo` — headers, sections, imports, exports, TLS, unwind data, relocations.
* `Failure`
* `SectionInfo.span`, `SectionInfo.covers` — the range of addresses of a section.
-/

namespace TradutorLinux.Pe

/-- `ParseStatus`. -/
inductive ParseStatus
  | success
  | truncated
  | malformed
  | unsupportedArchitecture
  | unsupportedFormat
  | unsupportedMechanism
  deriving DecidableEq

/-- `SectionInfo`. -/
structure SectionInfo where
  name : ByteString
  virtualAddress : UInt32
  virtualSize : UInt32
  rawDataPointer : UInt32
  rawDataSize : UInt32
  characteristics : UInt32
  deriving DecidableEq

/-- `ImportedSymbol`. -/
structure ImportedSymbol where
  byOrdinal : Bool
  ordinal : UInt16
  name : ByteString
  iatRva : UInt32
  deriving DecidableEq

/-- `ImportedDll`. -/
structure ImportedDll where
  name : ByteString
  symbols : List ImportedSymbol
  deriving DecidableEq

/-- `ExportedSymbol`.  A forwarder has the text `DLL.Function` or
`DLL.#Ordinal`, and its `rva` points at that text. -/
structure ExportedSymbol where
  byName : Bool
  name : ByteString
  ordinal : UInt16
  rva : UInt32
  forwarder : ByteString
  deriving DecidableEq

/-- `BaseRelocEntry`. -/
structure BaseRelocEntry where
  type : UInt16
  offset : UInt16
  deriving DecidableEq

/-- `BaseRelocBlock`. -/
structure BaseRelocBlock where
  pageRva : UInt32
  entries : List BaseRelocEntry
  deriving DecidableEq

/-- `UnwindOperation`. -/
inductive UnwindOperation
  | pushNonVol
  | allocLarge
  | allocSmall
  | setFpReg
  | saveNonVol
  | saveNonVolFar
  | saveXmm128
  | saveXmm128Far
  | pushMachFrame
  deriving DecidableEq

/-- `UnwindCode`; `operand` is already in bytes. -/
structure UnwindCode where
  codeOffset : UInt8
  operation : UnwindOperation
  operationInfo : UInt8
  operand : UInt32
  deriving DecidableEq

/-- `UnwindEpilog`, the interval `[beginRva, endRva)`. -/
structure UnwindEpilog where
  beginRva : UInt32
  endRva : UInt32
  deriving DecidableEq

/-- `UnwindInfo`. -/
structure UnwindInfo where
  version : UInt8 := 0
  flags : UInt8 := 0
  prologSize : UInt8 := 0
  frameRegister : UInt8 := 0
  frameOffset : UInt8 := 0
  codes : List UnwindCode := []
  epilogs : List UnwindEpilog := []
  hasExtendedSetFpreg : Bool := false
  handlerRva : UInt32 := 0
  handlerDataRva : UInt32 := 0
  hasChainedFunction : Bool := false
  chainedBeginRva : UInt32 := 0
  chainedEndRva : UInt32 := 0
  chainedUnwindInfoRva : UInt32 := 0
  deriving DecidableEq

/-- `RuntimeFunction`. -/
structure RuntimeFunction where
  beginRva : UInt32
  endRva : UInt32
  unwindInfoRva : UInt32
  unwind : UnwindInfo
  deriving DecidableEq

/-- `TlsDirectoryInfo`. -/
structure TlsDirectoryInfo where
  startAddressOfRawData : UInt64 := 0
  endAddressOfRawData : UInt64 := 0
  addressOfIndex : UInt64 := 0
  addressOfCallbacks : UInt64 := 0
  sizeOfZeroFill : UInt32 := 0
  characteristics : UInt32 := 0
  callbackVas : List UInt64 := []
  deriving DecidableEq

/-- `PeInfo`. -/
structure PeInfo where
  isPe32Plus : Bool := false
  isDll : Bool := false
  machine : UInt16 := 0
  numberOfSections : UInt16 := 0
  addressOfEntryPoint : UInt32 := 0
  imageBase : UInt64 := 0
  sectionAlignment : UInt32 := 0
  sizeOfImage : UInt32 := 0
  sizeOfHeaders : UInt32 := 0
  subsystem : UInt16 := 0
  importDirectoryRva : UInt32 := 0
  importDirectorySize : UInt32 := 0
  exportDirectoryRva : UInt32 := 0
  exportDirectorySize : UInt32 := 0
  exportOrdinalBase : UInt32 := 0
  resourceDirectoryRva : UInt32 := 0
  resourceDirectorySize : UInt32 := 0
  exceptionDirectoryRva : UInt32 := 0
  exceptionDirectorySize : UInt32 := 0
  relocationDirectoryRva : UInt32 := 0
  relocationDirectorySize : UInt32 := 0
  delayImportDirectoryRva : UInt32 := 0
  delayImportDirectorySize : UInt32 := 0
  tlsDirectoryRva : UInt32 := 0
  tlsDirectorySize : UInt32 := 0
  tlsInfo : TlsDirectoryInfo := {}
  sections : List SectionInfo := []
  imports : List ImportedDll := []
  exports : List ExportedSymbol := []
  delayImports : List ImportedDll := []
  runtimeFunctions : List RuntimeFunction := []
  relocations : List BaseRelocBlock := []
  deriving DecidableEq

/-- A `ParseResult` with a status other than `Success`: it carries no image
and no warnings. -/
structure Failure where
  status : ParseStatus
  errorMessage : ByteString

/-- A `ParseResult` with status `Success`. -/
structure ParseResult where
  info : PeInfo
  warnings : List ByteString

/-! ### The addresses of a section -/

namespace SectionInfo

/-- `section_span`: the larger of the virtual and the raw size. -/
def span (s : SectionInfo) : ℕ := max s.virtualSize.toNat s.rawDataSize.toNat

/-- `section_end`. -/
def sectionEnd (s : SectionInfo) : ℕ := s.virtualAddress.toNat + s.span

/-- The address lies in the section. -/
def covers (s : SectionInfo) (rva : ℕ) : Bool :=
  decide (s.virtualAddress.toNat ≤ rva) && decide (rva < s.sectionEnd)

theorem covers_iff {s : SectionInfo} {r : ℕ} :
    s.covers r ↔ s.virtualAddress.toNat ≤ r ∧ r < s.sectionEnd := by
  simp [covers]

end SectionInfo

/-! ### The section name field -/

/-- The loop that drops the trailing NUL bytes of a section name, from
the end down. -/
def trimmedLength (nameBytes : ByteString) : ℕ → ℕ
  | 0 => 0
  | n + 1 => if nameBytes[n]? = some 0 then trimmedLength nameBytes n else n + 1

end TradutorLinux.Pe
