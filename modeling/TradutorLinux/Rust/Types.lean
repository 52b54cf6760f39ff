import TradutorLinux.Util.Bytes

/-!
# The records of `rust/pe_parser.rs`

The image as the Rust parser holds it, and its errors: a status of the FFI
contract, a code, a phase, the offset of the input the error is about, and a
text.

## Main definitions

* `Model` — the parsed image.
* `PeError`, `peError`, `truncated`, `malformed` — errors and their constructors.
-/

namespace TradutorLinux.Rust

/-! ### Statuses, codes and phases -/

def statusTruncated : ℕ := 1
def statusMalformed : ℕ := 2
def statusUnsupportedArchitecture : ℕ := 3
def statusUnsupportedFormat : ℕ := 4
def statusUnsupportedMechanism : ℕ := 5
def statusBufferTooSmall : ℕ := 7
def statusInputTooLarge : ℕ := 8
def statusOutputTooLarge : ℕ := 9

def errorBufferTooSmall : ℕ := 2
def errorDosHeader : ℕ := 16
def errorPeHeader : ℕ := 17
def errorCoffHeader : ℕ := 18
def errorOptionalHeader : ℕ := 19
def errorSectionTable : ℕ := 20
def errorDirectoryRange : ℕ := 21
def errorImportTable : ℕ := 22
def errorDelayImportTable : ℕ := 23
def errorExportTable : ℕ := 24
def errorTlsDirectory : ℕ := 25
def errorUnwindDirectory : ℕ := 26
def errorRelocationDirectory : ℕ := 27
def errorSerializationLimit : ℕ := 28

def phaseDosHeader : ℕ := 2
def phaseCoffHeader : ℕ := 3
def phaseOptionalHeader : ℕ := 4
def phaseSections : ℕ := 5
def phaseExports : ℕ := 6
def phaseImports : ℕ := 7
def phaseDelayImports : ℕ := 8
def phaseTls : ℕ := 9
def phaseUnwind : ℕ := 10
def phaseRelocations : ℕ := 11
def phaseSerialize : ℕ := 12
def phaseWire : ℕ := 13

/-- `UNKNOWN_OFFSET`, `u64::MAX`. -/
def unknownOffset : ℕ := 0xFFFFFFFFFFFFFFFF

/-! ### Errors -/

/-- `PeError`. -/
structure PeError where
  status : ℕ
  code : ℕ
  phase : ℕ
  inputOffset : ℕ
  detailValue : ℕ
  message : ByteString
  outputRequired : Option ℕ := none

/-- `error`. -/
def peError {α : Type} (status code phase inputOffset detailValue : ℕ) (message : ByteString) :
    Except PeError α :=
  .error { status, code, phase, inputOffset, detailValue, message }

/-- The code a truncation in the given phase is reported under. -/
def truncatedCode (phase : ℕ) : ℕ :=
  if phase = phaseDosHeader then errorDosHeader
  else if phase = phaseCoffHeader then errorCoffHeader
  else if phase = phaseOptionalHeader then errorOptionalHeader
  else if phase = phaseSections then errorSectionTable
  else if phase = phaseUnwind then errorUnwindDirectory
  else errorDirectoryRange

/-- `truncated`. -/
def truncated {α : Type} (phase offset detail : ℕ) (message : ByteString) : Except PeError α :=
  peError statusTruncated (truncatedCode phase) phase offset detail message

/-- `malformed`. -/
def malformed {α : Type} (code phase offset detail : ℕ) (message : ByteString) :
    Except PeError α :=
  peError statusMalformed code phase offset detail message

/-- `output_buffer_too_small`. -/
def outputBufferTooSmall {α : Type} (required : ℕ) : Except PeError α :=
  .error
    { status := statusBufferTooSmall
      code := errorBufferTooSmall
      phase := phaseWire
      inputOffset := unknownOffset
      detailValue := required
      message := text "buffer de saída insuficiente"
      outputRequired := some required }

/-! ### The image -/

/-- `Tls`. -/
structure Tls where
  startAddressOfRawData : UInt64 := 0
  endAddressOfRawData : UInt64 := 0
  addressOfIndex : UInt64 := 0
  addressOfCallbacks : UInt64 := 0
  sizeOfZeroFill : UInt32 := 0
  characteristics : UInt32 := 0
  callbackVas : List UInt64 := []

/-- A pair of the array `Info::directories`: address and size. -/
structure Directory where
  rva : UInt32 := 0
  size : UInt32 := 0

/-- `Info`.  The seven entries of `directories` are fields here, in the order
of the array: imports, exports, resources, exceptions, relocations, delay
imports, TLS. -/
structure Info where
  isPe32Plus : Bool := false
  isDll : Bool := false
  machine : UInt16 := 0
  numberOfSections : UInt16 := 0
  entryPoint : UInt32 := 0
  imageBase : UInt64 := 0
  sectionAlignment : UInt32 := 0
  sizeOfImage : UInt32 := 0
  sizeOfHeaders : UInt32 := 0
  subsystem : UInt16 := 0
  imports : Directory := {}
  exports : Directory := {}
  resources : Directory := {}
  exceptions : Directory := {}
  relocations : Directory := {}
  delayImports : Directory := {}
  tlsDirectory : Directory := {}
  exportOrdinalBase : UInt32 := 0
  tls : Tls := {}

/-- `Section`. -/
structure Section where
  name : ByteString
  virtualAddress : UInt32
  virtualSize : UInt32
  rawDataPointer : UInt32
  rawDataSize : UInt32
  characteristics : UInt32

/-- `Symbol`. -/
structure Symbol where
  byOrdinal : Bool := false
  ordinal : UInt16 := 0
  name : ByteString := []
  iatRva : UInt32 := 0

/-- `Dll`. -/
structure Dll where
  name : ByteString
  symbols : List Symbol

/-- `Export`. -/
structure Export where
  byName : Bool
  name : ByteString
  ordinal : UInt16
  rva : UInt32
  forwarder : ByteString

/-- `RelocEntry`. -/
structure RelocEntry where
  kind : UInt16
  offset : UInt16

/-- `RelocBlock`. -/
structure RelocBlock where
  pageRva : UInt32
  entries : List RelocEntry

/-- `UnwindCode`. -/
structure UnwindCode where
  codeOffset : UInt8
  operation : UInt8
  operationInfo : UInt8
  operand : UInt32

/-- `Epilog`. -/
structure Epilog where
  beginRva : UInt32
  endRva : UInt32

/-- The triple of `Unwind::chained`. -/
structure Chain where
  beginRva : UInt32
  endRva : UInt32
  unwindInfoRva : UInt32

/-- `Unwind`. -/
structure Unwind where
  version : UInt8 := 0
  flags : UInt8 := 0
  prologSize : UInt8 := 0
  frameRegister : UInt8 := 0
  frameOffset : UInt8 := 0
  extendedSetFpreg : Bool := false
  handlerRva : UInt32 := 0
  handlerDataRva : UInt32 := 0
  chained : Option Chain := none
  codes : List UnwindCode := []
  epilogs : List Epilog := []

/-- `RuntimeFunction`. -/
structure RuntimeFunction where
  beginRva : UInt32
  endRva : UInt32
  unwindInfoRva : UInt32
  unwind : Unwind

/-- `Model`. -/
structure Model where
  info : Info := {}
  sections : List Section := []
  imports : List Dll := []
  delayImports : List Dll := []
  exports : List Export := []
  runtimeFunctions : List RuntimeFunction := []
  relocations : List RelocBlock := []

end TradutorLinux.Rust
