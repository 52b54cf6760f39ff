import TradutorLinux.Rust.PeInfo

/-!
# The TLPE decoder

`decode_tlpe_v1` of `pe/rust_pe_parser.cpp`: the C++ side of the wire.  It
trusts nothing: every descriptor, index, string reference and reserved byte is
checked, and the tables must fill the buffer without a gap.

Sums of offsets and counts that were read from the buffer are naturals; where
the source tests for the overflow of a product or a sum, the test is on the
natural.

## Main definitions

* `Decoder.decodeWire` — the image.
-/

namespace TradutorLinux.Pe

/-! ### Constants -/

def kWireHeaderSize : ℕ := 416
def kWireDescriptorSize : ℕ := 24
def kWireDescriptorOffset : ℕ := 32
def kTableCount : ℕ := 16
def kTableReserved : ℕ := 15
def kWireStringRecordHeaderSize : ℕ := 8
def kTableFlagVariableRecords : ℕ := 1

/-- `kExpectedStrides`. -/
def kExpectedStrides : List ℕ := [136, 40, 0, 40, 32, 40, 32, 48, 8, 24, 72, 8, 8, 32, 8, 0]

def kLimitSections : ℕ := 65535
def kLimitImportDlls : ℕ := 1024
def kLimitSymbolsPerDll : ℕ := 4096
def kLimitRelocBlocks : ℕ := 4096
def kLimitRuntimeFunctions : ℕ := 65536
def kLimitStringBytes : ℕ := 65534
def kLimitExportFunctions : ℕ := 65536
def kLimitExportNames : ℕ := 65536
def kLimitTlsCallbacks : ℕ := 65536
def kLimitSerializedBytes : ℕ := 268435456

def kErrorNone : ℕ := 0
def kErrorWireFormat : ℕ := 29
def kPhaseNone : ℕ := 0
def kPhaseSections : ℕ := 5
def kPhaseExports : ℕ := 6
def kPhaseImports : ℕ := 7
def kPhaseDelayImports : ℕ := 8
def kPhaseTls : ℕ := 9
def kPhaseUnwind : ℕ := 10
def kPhaseRelocations : ℕ := 11
def kPhaseWire : ℕ := 13
def kUnknownOffset : ℕ := 0xFFFFFFFFFFFFFFFF
def uint64Max : ℕ := 0xFFFFFFFFFFFFFFFF

/-- The magic bytes `TLPE`. -/
def kWireMagic : ByteString := [0x54, 0x4C, 0x50, 0x45]

/-! ### Types -/

/-- `tl_pe_error_v1` and the text that goes with it. -/
structure WireError where
  code : ℕ := kErrorNone
  phase : ℕ := kPhaseNone
  inputOffset : ℕ := kUnknownOffset
  detailValue : ℕ := 0
  message : ByteString := []

/-- `Descriptor`. -/
structure TableDescriptor where
  offset : ℕ := 0
  count : ℕ := 0
  stride : ℕ := 0
  flags : ℕ := 0
deriving DecidableEq

/-- `StringRecord`. -/
structure StringRecord where
  dataOffset : ℕ
  length : ℕ

/-- `align8`. -/
def align8 (value : ℕ) : ℕ := (value + 7) / 8 * 8

/-- The class `Decoder`. -/
structure Decoder where
  bytes : ByteString

namespace Decoder

variable {α : Type}

/-- `Decoder::fail`: the first failure is the one that is reported. -/
def fail (phase offset detail : ℕ) (message : ByteString) : Except WireError α :=
  .error ⟨kErrorWireFormat, phase, offset, detail, message⟩

/-- A failure of the source that sets no error. -/
def silentFail : Except WireError α := .error {}

/-! ### Readers -/

/-- A little-endian word of `width` bytes. -/
def readWord (d : Decoder) (offset width phase : ℕ) : Except WireError ℕ :=
  match readLE d.bytes offset width with
  | some value => .ok value
  | none => fail phase offset width (text "registro TLPE truncado")

def readU8 (d : Decoder) (offset phase : ℕ) : Except WireError UInt8 :=
  d.readWord offset 1 phase >>= fun value => .ok (UInt8.ofNat value)

def readU16 (d : Decoder) (offset phase : ℕ) : Except WireError UInt16 :=
  d.readWord offset 2 phase >>= fun value => .ok (UInt16.ofNat value)

def readU32 (d : Decoder) (offset phase : ℕ) : Except WireError UInt32 :=
  d.readWord offset 4 phase >>= fun value => .ok (UInt32.ofNat value)

def readU64 (d : Decoder) (offset phase : ℕ) : Except WireError UInt64 :=
  d.readWord offset 8 phase >>= fun value => .ok (UInt64.ofNat value)

/-- `zero_range`. -/
def zeroRange (d : Decoder) (offset length phase : ℕ) : Except WireError Unit :=
  if !inRange d.bytes.length offset length then
    fail phase offset length (text "range TLPE fora do buffer")
  else if (slice d.bytes offset length).all (· == 0) then .ok ()
  else fail phase offset length (text "campo reservado TLPE não está zerado")

/-- `read_ref`. -/
def readRef (d : Decoder) (strings : List StringRecord) (offset phase : ℕ) :
    Except WireError ByteString :=
  d.readWord offset 8 phase >>= fun dataOffset =>
  d.readWord (offset + 8) 4 phase >>= fun length =>
  d.readWord (offset + 12) 4 phase >>= fun reserved =>
  if reserved ≠ 0 then
    fail phase (offset + 12) reserved (text "referência de string TLPE tem flags reservadas")
  else if dataOffset = 0 ∧ length = 0 then .ok []
  else if strings.any fun record => record.dataOffset == dataOffset && record.length == length then
    .ok (slice d.bytes dataOffset length)
  else fail phase offset dataOffset (text "referência de string TLPE inválida")

/-- `fixed_record`: where the record number `index` of a table is. -/
def fixedRecord (d : Decoder) (tables : List TableDescriptor) (table index size phase : ℕ) :
    Except WireError ℕ :=
  let descriptor := tables.getD table {}
  let offset := descriptor.offset + index * descriptor.stride
  if index ≥ descriptor.count ∨ size > descriptor.stride then
    fail phase index size (text "índice de tabela TLPE inválido")
  else if index * descriptor.stride > uint64Max ∨ offset > uint64Max ∨
      !inRange d.bytes.length offset size then
    fail phase index size (text "registro TLPE fora do buffer")
  else .ok offset

/-- `index_range`. -/
def indexRange (tables : List TableDescriptor) (table offset count phase : ℕ) :
    Except WireError Unit :=
  let descriptor := tables.getD table {}
  if offset > descriptor.count ∨ count > descriptor.count - offset then
    fail phase offset count (text "intervalo de índices TLPE inválido")
  else .ok ()

/-! ### The header and the tables -/

def checkHeader (d : Decoder) : Except WireError Unit :=
  if d.bytes.length < kWireHeaderSize ∨ d.bytes.length > kLimitSerializedBytes then
    fail kPhaseWire d.bytes.length kWireHeaderSize (text "tamanho total TLPE inválido")
  else if slice d.bytes 0 4 ≠ kWireMagic then fail kPhaseWire 0 0 (text "magic TLPE inválido")
  else
    d.readWord 4 2 kPhaseWire >>= fun major =>
    d.readWord 6 2 kPhaseWire >>= fun minor =>
    d.readWord 8 4 kPhaseWire >>= fun headerSize =>
    d.readWord 12 8 kPhaseWire >>= fun totalSize =>
    d.readWord 20 4 kPhaseWire >>= fun tableCount =>
    if major ≠ 1 ∨ minor ≠ 0 then
      fail kPhaseWire 4 (major * 4294967296 + minor) (text "versão TLPE não suportada")
    else if headerSize ≠ kWireHeaderSize ∨ totalSize ≠ d.bytes.length ∨
        tableCount ≠ kTableCount then
      fail kPhaseWire 8 totalSize (text "cabeçalho TLPE incompatível")
    else
      d.readWord 24 8 kPhaseWire >>= fun reservedHeader =>
      if reservedHeader ≠ 0 then
        fail kPhaseWire 24 reservedHeader
          (text "campo reservado do cabeçalho TLPE não está zerado")
      else .ok ()

/-- The string records from `cursor` on, and the offset behind them. -/
def checkStrings (d : Decoder) : ℕ → ℕ → Except WireError ℕ
  | cursor, 0 => .ok cursor
  | cursor, remaining + 1 =>
    d.readWord cursor 4 kPhaseWire >>= fun length =>
    d.readWord (cursor + 4) 4 kPhaseWire >>= fun reserved =>
    if length > kLimitStringBytes ∨ reserved ≠ 0 then
      fail kPhaseWire cursor length (text "registro de string TLPE inválido")
    else
      let recordBytes := 8 + length
      let alignedBytes := align8 recordBytes
      if !inRange d.bytes.length cursor alignedBytes then silentFail
      else
        d.zeroRange (cursor + recordBytes) (alignedBytes - recordBytes) kPhaseWire >>= fun _ =>
        checkStrings d (cursor + alignedBytes) remaining

def readDescriptor (d : Decoder) (table : ℕ) : Except WireError TableDescriptor :=
  let descriptorOffset := kWireDescriptorOffset + table * kWireDescriptorSize
  d.readWord descriptorOffset 8 kPhaseWire >>= fun offset =>
  d.readWord (descriptorOffset + 8) 8 kPhaseWire >>= fun count =>
  d.readWord (descriptorOffset + 16) 4 kPhaseWire >>= fun stride =>
  d.readWord (descriptorOffset + 20) 4 kPhaseWire >>= fun flags =>
    .ok ⟨offset, count, stride, flags⟩

/-- The extent of a table that is not empty: the offset behind it. -/
def tableEnd (d : Decoder) (table : ℕ) (descriptor : TableDescriptor) : Except WireError ℕ :=
  let descriptorOffset := kWireDescriptorOffset + table * kWireDescriptorSize
  if table = 2 then
    if descriptor.stride ≠ 0 ∨ descriptor.flags ≠ kTableFlagVariableRecords then
      fail kPhaseWire descriptorOffset descriptor.stride (text "descritor de strings TLPE inválido")
    else if descriptor.count > d.bytes.length / kWireStringRecordHeaderSize then
      fail kPhaseWire descriptorOffset descriptor.count
        (text "quantidade de strings TLPE impossível")
    else d.checkStrings descriptor.offset descriptor.count
  else
    let tableBytes := descriptor.count * descriptor.stride
    if descriptor.stride = 0 ∨ descriptor.flags ≠ 0 ∨
        descriptor.stride ≠ kExpectedStrides.getD table 0 ∨ tableBytes > uint64Max ∨
        !inRange d.bytes.length descriptor.offset tableBytes then
      fail kPhaseWire descriptorOffset descriptor.count (text "tamanho de tabela TLPE inválido")
    else .ok (descriptor.offset + tableBytes)

def readTable (d : Decoder) (table cursor : ℕ) : Except WireError (TableDescriptor × ℕ) :=
  let descriptorOffset := kWireDescriptorOffset + table * kWireDescriptorSize
  d.readDescriptor table >>= fun descriptor =>
  if descriptor.count = 0 then
    if descriptor.offset ≠ 0 ∨ descriptor.stride ≠ 0 ∨ descriptor.flags ≠ 0 then
      fail kPhaseWire descriptorOffset descriptor.count
        (text "descritor vazio TLPE não está zerado")
    else .ok (descriptor, cursor)
  else if table = kTableReserved ∨ descriptor.offset < kWireHeaderSize ∨
      descriptor.offset % 8 ≠ 0 then
    fail kPhaseWire descriptorOffset descriptor.offset (text "offset de tabela TLPE inválido")
  else if descriptor.offset ≠ align8 cursor then
    fail kPhaseWire descriptorOffset descriptor.offset
      (text "tabelas TLPE não estão contíguas e alinhadas")
  else
    d.tableEnd table descriptor >>= fun stop =>
    if stop > d.bytes.length then
      fail kPhaseWire descriptorOffset (stop - descriptor.offset)
        (text "fim de tabela TLPE inválido")
    else .ok (descriptor, stop)

/-- The table loop from `table` on: the descriptors, and the cursor behind the last table. -/
def readTables (d : Decoder) : ℕ → ℕ → ℕ → Except WireError (List TableDescriptor × ℕ)
  | _, 0, cursor => .ok ([], cursor)
  | table, remaining + 1, cursor =>
    d.readTable table cursor >>= fun first =>
    readTables d (table + 1) remaining first.2 >>= fun rest => .ok (first.1 :: rest.1, rest.2)

def readStrings (d : Decoder) : ℕ → ℕ → Except WireError (List StringRecord)
  | _, 0 => .ok []
  | cursor, remaining + 1 =>
    d.readWord cursor 4 kPhaseWire >>= fun length =>
    readStrings d (cursor + align8 (8 + length)) remaining >>= fun strings =>
      .ok (⟨cursor + 8, length⟩ :: strings)

/-! ### The info record -/

/-- The info record, without the tables. -/
def readInfo (d : Decoder) (infoOffset : ℕ) : Except WireError PeInfo :=
  d.readU32 infoOffset kPhaseWire >>= fun infoFlags =>
  d.readU16 (infoOffset + 34) kPhaseWire >>= fun reserved16 =>
  if infoFlags &&& ~~~3 ≠ 0 ∨ reserved16 ≠ 0 then
    fail kPhaseWire infoOffset infoFlags.toNat (text "flags da tabela info TLPE inválidas")
  else
    d.readU16 (infoOffset + 4) kPhaseWire >>= fun machine =>
    d.readU16 (infoOffset + 6) kPhaseWire >>= fun numberOfSections =>
    d.readU32 (infoOffset + 8) kPhaseWire >>= fun addressOfEntryPoint =>
    d.readU64 (infoOffset + 12) kPhaseWire >>= fun imageBase =>
    d.readU32 (infoOffset + 20) kPhaseWire >>= fun sectionAlignment =>
    d.readU32 (infoOffset + 24) kPhaseWire >>= fun sizeOfImage =>
    d.readU32 (infoOffset + 28) kPhaseWire >>= fun sizeOfHeaders =>
    d.readU16 (infoOffset + 32) kPhaseWire >>= fun subsystem =>
    d.readU32 (infoOffset + 92) kPhaseWire >>= fun exportOrdinalBase =>
    d.readU64 (infoOffset + 96) kPhaseWire >>= fun startAddressOfRawData =>
    d.readU64 (infoOffset + 104) kPhaseWire >>= fun endAddressOfRawData =>
    d.readU64 (infoOffset + 112) kPhaseWire >>= fun addressOfIndex =>
    d.readU64 (infoOffset + 120) kPhaseWire >>= fun addressOfCallbacks =>
    d.readU32 (infoOffset + 128) kPhaseWire >>= fun sizeOfZeroFill =>
    d.readU32 (infoOffset + 132) kPhaseWire >>= fun characteristics =>
    let directory := fun index =>
      d.readU32 (infoOffset + 36 + index * 8) kPhaseWire >>= fun rva =>
      d.readU32 (infoOffset + 40 + index * 8) kPhaseWire >>= fun size => .ok (rva, size)
    directory 0 >>= fun imports =>
    directory 1 >>= fun exports =>
    directory 2 >>= fun resources =>
    directory 3 >>= fun exceptions =>
    directory 4 >>= fun relocations =>
    directory 5 >>= fun delayImports =>
    directory 6 >>= fun tls =>
      .ok
        { isPe32Plus := infoFlags &&& 1 != 0
          isDll := infoFlags &&& 2 != 0
          machine := machine
          numberOfSections := numberOfSections
          addressOfEntryPoint := addressOfEntryPoint
          imageBase := imageBase
          sectionAlignment := sectionAlignment
          sizeOfImage := sizeOfImage
          sizeOfHeaders := sizeOfHeaders
          subsystem := subsystem
          importDirectoryRva := imports.1
          importDirectorySize := imports.2
          exportDirectoryRva := exports.1
          exportDirectorySize := exports.2
          exportOrdinalBase := exportOrdinalBase
          resourceDirectoryRva := resources.1
          resourceDirectorySize := resources.2
          exceptionDirectoryRva := exceptions.1
          exceptionDirectorySize := exceptions.2
          relocationDirectoryRva := relocations.1
          relocationDirectorySize := relocations.2
          delayImportDirectoryRva := delayImports.1
          delayImportDirectorySize := delayImports.2
          tlsDirectoryRva := tls.1
          tlsDirectorySize := tls.2
          tlsInfo :=
            { startAddressOfRawData := startAddressOfRawData
              endAddressOfRawData := endAddressOfRawData
              addressOfIndex := addressOfIndex
              addressOfCallbacks := addressOfCallbacks
              sizeOfZeroFill := sizeOfZeroFill
              characteristics := characteristics } }

/-! ### The other tables -/

variable (d : Decoder) (tables : List TableDescriptor) (strings : List StringRecord)

def readSection (index : ℕ) : Except WireError SectionInfo :=
  d.fixedRecord tables 1 index 40 kPhaseSections >>= fun offset =>
  d.readRef strings offset kPhaseSections >>= fun name =>
  d.readU32 (offset + 16) kPhaseSections >>= fun virtualAddress =>
  d.readU32 (offset + 20) kPhaseSections >>= fun virtualSize =>
  d.readU32 (offset + 24) kPhaseSections >>= fun rawDataPointer =>
  d.readU32 (offset + 28) kPhaseSections >>= fun rawDataSize =>
  d.readU32 (offset + 32) kPhaseSections >>= fun characteristics =>
  d.readU32 (offset + 36) kPhaseSections >>= fun reserved =>
  if reserved ≠ 0 then silentFail
  else .ok ⟨name, virtualAddress, virtualSize, rawDataPointer, rawDataSize, characteristics⟩

def readSymbol (symbolTable phase index : ℕ) : Except WireError ImportedSymbol :=
  d.fixedRecord tables symbolTable index 32 phase >>= fun record =>
  d.readU32 record phase >>= fun flags =>
  d.readU16 (record + 4) phase >>= fun ordinal =>
  d.readU16 (record + 6) phase >>= fun reserved =>
  d.readRef strings (record + 8) phase >>= fun name =>
  d.readU32 (record + 24) phase >>= fun iat =>
  d.zeroRange (record + 28) 4 phase >>= fun _ =>
  if flags &&& ~~~1 ≠ 0 ∨ reserved ≠ 0 ∨ (flags &&& 1 ≠ 0 ∧ name ≠ []) then silentFail
  else .ok ⟨flags &&& 1 != 0, ordinal, name, iat⟩

def readDll (dllTable symbolTable phase index : ℕ) : Except WireError ImportedDll :=
  d.fixedRecord tables dllTable index 40 phase >>= fun offset =>
  d.readRef strings offset phase >>= fun name =>
  d.readWord (offset + 16) 8 phase >>= fun symbolOffset =>
  d.readWord (offset + 24) 8 phase >>= fun symbolCount =>
  d.readU32 (offset + 32) phase >>= fun reserved0 =>
  d.readU32 (offset + 36) phase >>= fun reserved1 =>
  if reserved0 ≠ 0 ∨ reserved1 ≠ 0 ∨ symbolCount > kLimitSymbolsPerDll then silentFail
  else
    indexRange tables symbolTable symbolOffset symbolCount phase >>= fun _ =>
    collect (fun item => d.readSymbol tables strings symbolTable phase item) symbolOffset
        symbolCount >>= fun symbols => .ok ⟨name, symbols⟩

/-- `read_dlls`. -/
def readDlls (dllTable symbolTable phase : ℕ) : Except WireError (List ImportedDll) :=
  let count := (tables.getD dllTable {}).count
  if count > kLimitImportDlls then silentFail
  else collect (fun index => d.readDll tables strings dllTable symbolTable phase index) 0 count

/-- The imports and the delay imports; a failure without an error gets one here. -/
def readImports : Except WireError (List ImportedDll × List ImportedDll) :=
  match
    d.readDlls tables strings 3 4 kPhaseImports >>= fun imports =>
    d.readDlls tables strings 5 6 kPhaseDelayImports >>= fun delayImports =>
      .ok (imports, delayImports) with
  | .ok dlls => .ok dlls
  | .error error =>
    if error.message = [] then fail kPhaseWire 0 0 (text "tabela de imports TLPE inválida")
    else .error error

def readExport (index : ℕ) : Except WireError ExportedSymbol :=
  d.fixedRecord tables 7 index 48 kPhaseExports >>= fun offset =>
  d.readU32 offset kPhaseExports >>= fun flags =>
  d.readU16 (offset + 4) kPhaseExports >>= fun ordinal =>
  d.readU16 (offset + 6) kPhaseExports >>= fun reserved16 =>
  d.readU32 (offset + 8) kPhaseExports >>= fun rva =>
  d.zeroRange (offset + 12) 4 kPhaseExports >>= fun _ =>
  if flags &&& ~~~3 ≠ 0 ∨ reserved16 ≠ 0 then silentFail
  else
    d.readRef strings (offset + 16) kPhaseExports >>= fun name =>
    d.readRef strings (offset + 32) kPhaseExports >>= fun forwarder =>
    if (flags &&& 1 = 0 ∧ name ≠ []) ∨ (flags &&& 2 = 0 ∧ forwarder ≠ []) then silentFail
    else .ok ⟨flags &&& 1 != 0, name, ordinal, rva, forwarder⟩

/-- The export loop, which counts the names. -/
def readExports : ℕ → ℕ → ℕ → Except WireError (List ExportedSymbol)
  | _, 0, _ => .ok []
  | index, remaining + 1, nameCount =>
    d.readExport tables strings index >>= fun symbol =>
    let names := if symbol.byName then nameCount + 1 else nameCount
    if symbol.byName ∧ names > kLimitExportNames then
      fail kPhaseExports ((tables.getD 7 {}).offset + index * 48) names
        (text "limite de nomes de exports excedido")
    else
      readExports (index + 1) remaining names >>= fun symbols => .ok (symbol :: symbols)

def readCallback (index : ℕ) : Except WireError UInt64 :=
  d.fixedRecord tables 8 index 8 kPhaseTls >>= fun offset => d.readU64 offset kPhaseTls

/-- `valid_unwind_operation`. -/
def validUnwindOperation (operation : UInt8) : Bool :=
  operation ≤ 5 || operation == 8 || operation == 9 || operation == 10

def readCode (index : ℕ) : Except WireError UnwindCode :=
  d.fixedRecord tables 11 index 8 kPhaseUnwind >>= fun record =>
  d.readU8 record kPhaseUnwind >>= fun codeOffset =>
  d.readU8 (record + 1) kPhaseUnwind >>= fun operation =>
  d.readU8 (record + 2) kPhaseUnwind >>= fun operationInfo =>
  d.zeroRange (record + 3) 1 kPhaseUnwind >>= fun _ =>
  d.readU32 (record + 4) kPhaseUnwind >>= fun operand =>
  if !validUnwindOperation operation then silentFail
  else .ok ⟨codeOffset, Rust.unwindOperation operation, operationInfo, operand⟩

def readEpilog (index : ℕ) : Except WireError UnwindEpilog :=
  d.fixedRecord tables 12 index 8 kPhaseUnwind >>= fun record =>
  d.readU32 record kPhaseUnwind >>= fun beginRva =>
  d.readU32 (record + 4) kPhaseUnwind >>= fun endRva => .ok ⟨beginRva, endRva⟩

def readUnwindInfo (index : ℕ) : Except WireError UnwindInfo :=
  d.fixedRecord tables 10 index 72 kPhaseUnwind >>= fun offset =>
  d.readU8 offset kPhaseUnwind >>= fun version =>
  d.readU8 (offset + 1) kPhaseUnwind >>= fun flags =>
  d.readU8 (offset + 2) kPhaseUnwind >>= fun prologSize =>
  d.readU8 (offset + 3) kPhaseUnwind >>= fun frameRegister =>
  d.readU8 (offset + 4) kPhaseUnwind >>= fun frameOffset =>
  d.readU8 (offset + 5) kPhaseUnwind >>= fun wireFlags =>
  d.readU16 (offset + 6) kPhaseUnwind >>= fun reserved =>
  d.zeroRange (offset + 60) 4 kPhaseUnwind >>= fun _ =>
  d.zeroRange (offset + 64) 8 kPhaseUnwind >>= fun _ =>
  if wireFlags &&& ~~~3 ≠ 0 ∨ reserved ≠ 0 then silentFail
  else
    d.readWord (offset + 8) 8 kPhaseUnwind >>= fun codeOffset =>
    d.readWord (offset + 16) 8 kPhaseUnwind >>= fun codeCount =>
    d.readWord (offset + 24) 8 kPhaseUnwind >>= fun epilogOffset =>
    d.readWord (offset + 32) 8 kPhaseUnwind >>= fun epilogCount =>
    indexRange tables 11 codeOffset codeCount kPhaseUnwind >>= fun _ =>
    indexRange tables 12 epilogOffset epilogCount kPhaseUnwind >>= fun _ =>
    d.readU32 (offset + 40) kPhaseUnwind >>= fun handlerRva =>
    d.readU32 (offset + 44) kPhaseUnwind >>= fun handlerDataRva =>
    d.readU32 (offset + 48) kPhaseUnwind >>= fun chainedBeginRva =>
    d.readU32 (offset + 52) kPhaseUnwind >>= fun chainedEndRva =>
    d.readU32 (offset + 56) kPhaseUnwind >>= fun chainedUnwindInfoRva =>
    collect (fun item => d.readCode tables item) codeOffset codeCount >>= fun codes =>
    collect (fun item => d.readEpilog tables item) epilogOffset epilogCount >>= fun epilogs =>
      .ok
        { version := version
          flags := flags
          prologSize := prologSize
          frameRegister := frameRegister
          frameOffset := frameOffset
          codes := codes
          epilogs := epilogs
          hasExtendedSetFpreg := wireFlags &&& 1 != 0
          handlerRva := handlerRva
          handlerDataRva := handlerDataRva
          hasChainedFunction := wireFlags &&& 2 != 0
          chainedBeginRva := chainedBeginRva
          chainedEndRva := chainedEndRva
          chainedUnwindInfoRva := chainedUnwindInfoRva }

def readFunction (unwindInfos : List UnwindInfo) (index : ℕ) : Except WireError RuntimeFunction :=
  d.fixedRecord tables 9 index 24 kPhaseUnwind >>= fun offset =>
  d.readU32 offset kPhaseUnwind >>= fun beginRva =>
  d.readU32 (offset + 4) kPhaseUnwind >>= fun endRva =>
  d.readU32 (offset + 8) kPhaseUnwind >>= fun unwindInfoRva =>
  d.readWord (offset + 12) 8 kPhaseUnwind >>= fun unwindIndex =>
  d.zeroRange (offset + 20) 4 kPhaseUnwind >>= fun _ =>
  match unwindInfos[unwindIndex]? with
  | none => silentFail
  | some unwind => .ok ⟨beginRva, endRva, unwindInfoRva, unwind⟩

def readRelocEntry (index : ℕ) : Except WireError BaseRelocEntry :=
  d.fixedRecord tables 14 index 8 kPhaseRelocations >>= fun record =>
  d.readU16 record kPhaseRelocations >>= fun type =>
  d.readU16 (record + 2) kPhaseRelocations >>= fun offset =>
  d.zeroRange (record + 4) 4 kPhaseRelocations >>= fun _ => .ok ⟨type, offset⟩

def readRelocBlock (index : ℕ) : Except WireError BaseRelocBlock :=
  d.fixedRecord tables 13 index 32 kPhaseRelocations >>= fun offset =>
  d.readU32 offset kPhaseRelocations >>= fun pageRva =>
  d.zeroRange (offset + 4) 4 kPhaseRelocations >>= fun _ =>
  d.readWord (offset + 8) 8 kPhaseRelocations >>= fun entryOffset =>
  d.readWord (offset + 16) 8 kPhaseRelocations >>= fun entryCount =>
  d.zeroRange (offset + 24) 8 kPhaseRelocations >>= fun _ =>
  indexRange tables 14 entryOffset entryCount kPhaseRelocations >>= fun _ =>
  collect (fun item => d.readRelocEntry tables item) entryOffset entryCount >>= fun entries =>
    .ok ⟨pageRva, entries⟩

/-! ### The decoder -/

def count (table : ℕ) : ℕ := (tables.getD table {}).count

/-- Everything behind the descriptors. -/
def readImage : Except WireError PeInfo :=
  if count tables 0 ≠ 1 ∨ (tables.getD 0 {}).stride ≠ 136 ∨ (tables.getD 0 {}).flags ≠ 0 then
    fail kPhaseWire kWireDescriptorOffset (count tables 0) (text "tabela info TLPE inválida")
  else
    d.readStrings (tables.getD 2 {}).offset (count tables 2) >>= fun strings =>
    d.readInfo (tables.getD 0 {}).offset >>= fun info =>
    if count tables 1 > kLimitSections ∨ info.numberOfSections.toNat ≠ count tables 1 then
      fail kPhaseWire ((tables.getD 0 {}).offset + 6) (count tables 1)
        (text "contagem de seções TLPE inconsistente")
    else
      collect (fun index => d.readSection tables strings index) 0 (count tables 1) >>=
        fun sections =>
      d.readImports tables strings >>= fun dlls =>
      if count tables 7 > kLimitExportFunctions then
        fail kPhaseExports 0 (count tables 7) (text "limite de exports TLPE excedido")
      else
        d.readExports tables strings 0 (count tables 7) 0 >>= fun exports =>
        if count tables 8 > kLimitTlsCallbacks then
          fail kPhaseTls 0 (count tables 8) (text "limite de callbacks TLS excedido")
        else
          collect (fun index => d.readCallback tables index) 0 (count tables 8) >>=
            fun callbackVas =>
          if count tables 10 ≠ count tables 9 ∨ count tables 9 > kLimitRuntimeFunctions then
            fail kPhaseUnwind 0 (count tables 9) (text "tabelas de unwind TLPE inconsistentes")
          else
            collect (fun index => d.readUnwindInfo tables index) 0 (count tables 10) >>=
              fun unwindInfos =>
            collect (fun index => d.readFunction tables unwindInfos index) 0 (count tables 9) >>=
              fun functions =>
            if count tables 13 > kLimitRelocBlocks then
              fail kPhaseRelocations 0 (count tables 13)
                (text "limite de blocos de relocation TLPE excedido")
            else
              collect (fun index => d.readRelocBlock tables index) 0 (count tables 13) >>=
                fun relocations =>
              .ok { info with
                sections := sections
                imports := dlls.1
                delayImports := dlls.2
                exports := exports
                tlsInfo := { info.tlsInfo with callbackVas := callbackVas }
                runtimeFunctions := functions
                relocations := relocations }

/-- `decode_tlpe_v1`. -/
def decodeWire (bytes : ByteString) : Except WireError PeInfo :=
  let d : Decoder := ⟨bytes⟩
  d.checkHeader >>= fun _ =>
  d.readTables 0 kTableCount kWireHeaderSize >>= fun (tables, cursor) =>
  if cursor ≠ bytes.length then
    fail kPhaseWire cursor bytes.length (text "bytes fora das tabelas TLPE")
  else d.readImage tables

end Decoder
end TradutorLinux.Pe
