import TradutorLinux.Rust.PeParser
import TradutorLinux.Util.Records

/-!
# The TLPE wire

How the Rust parser hands its `Model` over: `make_plan` lays out the tables,
`fill_wire` writes them.  A string is written once, into the pool, and referred
to by the offset of its bytes.

`fill_wire` never reads its output, so it is the list of its writes, grouped by
the record they go to, in the order in which it makes them (`wireRecords`).

## Main definitions

* `allStrings` — the string pool.
* `makePlan`, `fillWire`.
-/

namespace TradutorLinux.Rust

/-! ### Constants -/

def wireHeaderSize : ℕ := 416
def wireDescriptorOffset : ℕ := 32
def wireDescriptorSize : ℕ := 24
def wireTableCount : ℕ := 16
def wireFlagVariable : ℕ := 1
def wireStringRecordHeaderSize : ℕ := 8

/-- `STRIDES`. -/
def strides : List ℕ := [136, 40, 0, 40, 32, 40, 32, 48, 8, 24, 72, 8, 8, 32, 8, 0]

def tableInfo : ℕ := 0
def tableSections : ℕ := 1
def tableStrings : ℕ := 2
def tableImportDlls : ℕ := 3
def tableImportSymbols : ℕ := 4
def tableDelayDlls : ℕ := 5
def tableDelaySymbols : ℕ := 6
def tableExports : ℕ := 7
def tableTlsCallbacks : ℕ := 8
def tableRuntimeFunctions : ℕ := 9
def tableUnwindInfos : ℕ := 10
def tableUnwindCodes : ℕ := 11
def tableUnwindEpilogs : ℕ := 12
def tableRelocBlocks : ℕ := 13
def tableRelocEntries : ℕ := 14
def tableReserved : ℕ := 15

/-- `align8`. -/
def align8 (value : ℕ) : ℕ := (value + 7) / 8 * 8

/-! ### The string pool -/

/-- `StringPool::intern`. -/
def intern (pool : List ByteString) (bytes : ByteString) : List ByteString :=
  if bytes ∈ pool then pool else pool ++ [bytes]

/-- The strings of the DLLs, in the order of `all_strings`. -/
def dllStrings (dlls : List Dll) : List ByteString :=
  dlls.flatMap fun dll =>
    dll.name :: (dll.symbols.filter fun symbol => !symbol.byOrdinal).map Symbol.name

def exportStrings (e : Export) : List ByteString :=
  (if e.byName then [e.name] else []) ++ (if e.forwarder = [] then [] else [e.forwarder])

/-- `all_strings`. -/
def allStrings (model : Model) : List ByteString :=
  (model.sections.map Section.name ++ dllStrings model.imports ++ dllStrings model.delayImports ++
    model.exports.flatMap exportStrings).foldl intern []

/-! ### The plan -/

/-- `StringEntry`. -/
structure StringEntry where
  bytes : ByteString
  recordOffset : ℕ
  dataOffset : ℕ

/-- `Descriptor` of the wire. -/
structure WireDescriptor where
  offset : ℕ := 0
  count : ℕ := 0
  stride : ℕ := 0
  flags : ℕ := 0
deriving DecidableEq

/-- `WirePlan`. -/
structure WirePlan where
  descriptors : List WireDescriptor
  strings : List StringEntry
  total : ℕ

/-- `count_symbols`. -/
def countSymbols (dlls : List Dll) : ℕ := (dlls.map fun dll => dll.symbols.length).sum

/-- `counts`: the length of every table. -/
def tableCounts (model : Model) (pool : List ByteString) : List ℕ :=
  [ 1,
    model.sections.length,
    pool.length,
    model.imports.length,
    countSymbols model.imports,
    model.delayImports.length,
    countSymbols model.delayImports,
    model.exports.length,
    model.info.tls.callbackVas.length,
    model.runtimeFunctions.length,
    model.runtimeFunctions.length,
    (model.runtimeFunctions.map fun function => function.unwind.codes.length).sum,
    (model.runtimeFunctions.map fun function => function.unwind.epilogs.length).sum,
    model.relocations.length,
    (model.relocations.map fun block => block.entries.length).sum,
    0 ]

def stringRecordSize (bytes : ByteString) : ℕ := align8 (wireStringRecordHeaderSize + bytes.length)

def planTable (pool : List ByteString) (table count cursor : ℕ) : WireDescriptor × ℕ :=
  if count = 0 then ({}, cursor)
  else
    let cursor := align8 cursor
    if table = tableStrings then
      (⟨cursor, count, 0, wireFlagVariable⟩,
        pool.foldl (fun cursor bytes => cursor + stringRecordSize bytes) cursor)
    else
      let stride := strides.getD table 0
      (⟨cursor, count, stride, 0⟩, cursor + count * stride)

/-- The table loop, from `table` on. -/
def planTables (pool : List ByteString) : ℕ → List ℕ → ℕ → List WireDescriptor × ℕ
  | _, [], cursor => ([], cursor)
  | table, count :: counts, cursor =>
    let first := planTable pool table count cursor
    let rest := planTables pool (table + 1) counts first.2
    (first.1 :: rest.1, rest.2)

/-- The entries of the pool, the first of which is at `cursor`. -/
def stringEntries : ℕ → List ByteString → List StringEntry
  | _, [] => []
  | cursor, bytes :: pool =>
    ⟨bytes, cursor, cursor + wireStringRecordHeaderSize⟩ ::
      stringEntries (cursor + stringRecordSize bytes) pool

def WirePlan.descriptor (plan : WirePlan) (table : ℕ) : WireDescriptor :=
  plan.descriptors.getD table {}

/-- `make_plan`.  A sum that left `usize` would be that of a model larger than
the address space, so the checked sums have no failure here. -/
def makePlan (model : Model) : Except PeError WirePlan :=
  let pool := allStrings model
  let planned := planTables pool 0 (tableCounts model pool) wireHeaderSize
  if planned.2 > maxSerializedBytes then
    peError statusOutputTooLarge errorSerializationLimit phaseSerialize unknownOffset planned.2
      (text "resultado serializado excede 256 MiB")
  else
    .ok
      { descriptors := planned.1
        strings := stringEntries (planned.1.getD tableStrings {}).offset pool
        total := max planned.2 wireHeaderSize }

/-! ### The writes -/

/-- A write of `fill_wire`: an offset in the record, and the bytes. -/
abbrev Field := ℕ × ByteString

def putU8 (offset : ℕ) (value : UInt8) : Field := (offset, toLE 1 value.toNat)
def putU16 (offset : ℕ) (value : UInt16) : Field := (offset, toLE 2 value.toNat)
def putU32 (offset : ℕ) (value : UInt32) : Field := (offset, toLE 4 value.toNat)
def putU64 (offset : ℕ) (value : UInt64) : Field := (offset, toLE 8 value.toNat)

/-- `put_u32` and `put_u64` of a `usize`. -/
def putSize32 (offset value : ℕ) : Field := (offset, toLE 4 value)
def putSize64 (offset value : ℕ) : Field := (offset, toLE 8 value)

/-- `string_index`: the pool has no string twice, so the map and the search agree. -/
def stringIndex (plan : WirePlan) (bytes : ByteString) : Option ℕ :=
  plan.strings.findIdx? fun entry => entry.bytes == bytes

/-- `string_ref`. -/
def stringRef (plan : WirePlan) (offset : ℕ) (value : Option ℕ) : List Field :=
  match value.bind fun index => plan.strings[index]? with
  | none => []
  | some entry => [putSize64 offset entry.dataOffset, putSize32 (offset + 8) entry.bytes.length]

def fixedRecord (plan : WirePlan) (table index : ℕ) (fields : List Field) : Record where
  offset := (plan.descriptor table).offset + index * strides.getD table 0
  size := strides.getD table 0
  fields := fields

@[simp] theorem fields_fixedRecord (p : WirePlan) (t i : ℕ) (fields : List Field) :
    (fixedRecord p t i fields).fields = fields := rfl

def headerRecord (plan : WirePlan) : Record where
  offset := 0
  size := wireDescriptorOffset
  fields := [(0, text "TLPE"), putU16 4 1, putU16 6 0, putSize32 8 wireHeaderSize,
    putSize64 12 plan.total, putSize32 20 wireTableCount]

def descriptorRecord (index : ℕ) (descriptor : WireDescriptor) : Record where
  offset := wireDescriptorOffset + index * wireDescriptorSize
  size := wireDescriptorSize
  fields :=
    if descriptor.count ≠ 0 then
      [putSize64 0 descriptor.offset, putSize64 8 descriptor.count,
        putSize32 16 descriptor.stride, putSize32 20 descriptor.flags]
    else []

def stringRecord (entry : StringEntry) : Record where
  offset := entry.recordOffset
  size := stringRecordSize entry.bytes
  fields := [putSize32 0 entry.bytes.length, (wireStringRecordHeaderSize, entry.bytes)]

def directoryFields (offset : ℕ) (directory : Directory) : List Field :=
  [putU32 offset directory.rva, putU32 (offset + 4) directory.size]

def infoFields (info : Info) : List Field :=
  [ putU32 0 ((if info.isPe32Plus then 1 else 0) ||| (if info.isDll then 2 else 0)),
    putU16 4 info.machine,
    putU16 6 info.numberOfSections,
    putU32 8 info.entryPoint,
    putU64 12 info.imageBase,
    putU32 20 info.sectionAlignment,
    putU32 24 info.sizeOfImage,
    putU32 28 info.sizeOfHeaders,
    putU16 32 info.subsystem ] ++
  directoryFields 36 info.imports ++ directoryFields 44 info.exports ++
  directoryFields 52 info.resources ++ directoryFields 60 info.exceptions ++
  directoryFields 68 info.relocations ++ directoryFields 76 info.delayImports ++
  directoryFields 84 info.tlsDirectory ++
  [ putU32 92 info.exportOrdinalBase,
    putU64 96 info.tls.startAddressOfRawData,
    putU64 104 info.tls.endAddressOfRawData,
    putU64 112 info.tls.addressOfIndex,
    putU64 120 info.tls.addressOfCallbacks,
    putU32 128 info.tls.sizeOfZeroFill,
    putU32 132 info.tls.characteristics ]

def sectionFields (plan : WirePlan) (s : Section) : List Field :=
  stringRef plan 0 (stringIndex plan s.name) ++
  [ putU32 16 s.virtualAddress,
    putU32 20 s.virtualSize,
    putU32 24 s.rawDataPointer,
    putU32 28 s.rawDataSize,
    putU32 32 s.characteristics ]

def dllFields (plan : WirePlan) (symbolIndex : ℕ) (dll : Dll) : List Field :=
  stringRef plan 0 (stringIndex plan dll.name) ++
  [ putSize64 16 (if dll.symbols = [] then 0 else symbolIndex),
    putSize64 24 dll.symbols.length ]

def symbolFields (plan : WirePlan) (symbol : Symbol) : List Field :=
  [ putU32 0 (if symbol.byOrdinal then 1 else 0),
    putU16 4 symbol.ordinal ] ++
  stringRef plan 8 (if symbol.byOrdinal then none else stringIndex plan symbol.name) ++
  [ putU32 24 symbol.iatRva ]

def exportFields (plan : WirePlan) (e : Export) : List Field :=
  [ putU32 0 ((if e.byName then 1 else 0) ||| (if e.forwarder ≠ [] then 2 else 0)),
    putU16 4 e.ordinal,
    putU32 8 e.rva ] ++
  stringRef plan 16 (if e.byName then stringIndex plan e.name else none) ++
  stringRef plan 32 (if e.forwarder = [] then none else stringIndex plan e.forwarder)

def functionFields (index : ℕ) (function : RuntimeFunction) : List Field :=
  [ putU32 0 function.beginRva,
    putU32 4 function.endRva,
    putU32 8 function.unwindInfoRva,
    putSize64 12 index ]

def chainFields : Option Chain → List Field
  | none => []
  | some chain => [putU32 48 chain.beginRva, putU32 52 chain.endRva, putU32 56 chain.unwindInfoRva]

def unwindFields (codeIndex epilogIndex : ℕ) (unwind : Unwind) : List Field :=
  [ putU8 0 unwind.version,
    putU8 1 unwind.flags,
    putU8 2 unwind.prologSize,
    putU8 3 unwind.frameRegister,
    putU8 4 unwind.frameOffset,
    putU8 5 ((if unwind.extendedSetFpreg then 1 else 0) |||
      (if unwind.chained.isSome then 2 else 0)),
    putSize64 8 (if unwind.codes = [] then 0 else codeIndex),
    putSize64 16 unwind.codes.length,
    putSize64 24 (if unwind.epilogs = [] then 0 else epilogIndex),
    putSize64 32 unwind.epilogs.length,
    putU32 40 unwind.handlerRva,
    putU32 44 unwind.handlerDataRva ] ++ chainFields unwind.chained

def codeFields (code : UnwindCode) : List Field :=
  [ putU8 0 code.codeOffset,
    putU8 1 code.operation,
    putU8 2 code.operationInfo,
    putU32 4 code.operand ]

def epilogFields (epilog : Epilog) : List Field :=
  [putU32 0 epilog.beginRva, putU32 4 epilog.endRva]

def blockFields (relocIndex : ℕ) (block : RelocBlock) : List Field :=
  [ putU32 0 block.pageRva,
    putSize64 8 (if block.entries = [] then 0 else relocIndex),
    putSize64 16 block.entries.length ]

def entryFields (entry : RelocEntry) : List Field := [putU16 0 entry.kind, putU16 2 entry.offset]

/-! ### The records -/

/-- The records of a table whose entries have the given fields, from `index` on. -/
def tableRecords {α : Type} (plan : WirePlan) (table : ℕ) (fields : α → List Field) :
    ℕ → List α → List Record
  | _, [] => []
  | index, a :: as =>
    fixedRecord plan table index (fields a) :: tableRecords plan table fields (index + 1) as

def descriptorRecords : ℕ → List WireDescriptor → List Record
  | _, [] => []
  | index, descriptor :: descriptors =>
    descriptorRecord index descriptor :: descriptorRecords (index + 1) descriptors

/-- `write_dlls`, from a DLL and the index of its first symbol on. -/
def dllRecords (plan : WirePlan) (dllTable symbolTable : ℕ) : ℕ → ℕ → List Dll → List Record
  | _, _, [] => []
  | index, symbolIndex, dll :: dlls =>
    fixedRecord plan dllTable index (dllFields plan symbolIndex dll) ::
      tableRecords plan symbolTable (symbolFields plan) symbolIndex dll.symbols ++
      dllRecords plan dllTable symbolTable (index + 1) (symbolIndex + dll.symbols.length) dlls

def functionRecords (plan : WirePlan) : ℕ → ℕ → ℕ → List RuntimeFunction → List Record
  | _, _, _, [] => []
  | index, codeIndex, epilogIndex, function :: functions =>
    fixedRecord plan tableRuntimeFunctions index (functionFields index function) ::
      fixedRecord plan tableUnwindInfos index
        (unwindFields codeIndex epilogIndex function.unwind) ::
      tableRecords plan tableUnwindCodes codeFields codeIndex function.unwind.codes ++
      tableRecords plan tableUnwindEpilogs epilogFields epilogIndex function.unwind.epilogs ++
      functionRecords plan (index + 1) (codeIndex + function.unwind.codes.length)
        (epilogIndex + function.unwind.epilogs.length) functions

/-- The loop over the relocation blocks. -/
def blockRecords (plan : WirePlan) : ℕ → ℕ → List RelocBlock → List Record
  | _, _, [] => []
  | index, relocIndex, block :: blocks =>
    fixedRecord plan tableRelocBlocks index (blockFields relocIndex block) ::
      tableRecords plan tableRelocEntries entryFields relocIndex block.entries ++
      blockRecords plan (index + 1) (relocIndex + block.entries.length) blocks

/-- Everything `fill_wire` writes, in order. -/
def wireRecords (model : Model) (plan : WirePlan) : List Record :=
  headerRecord plan :: descriptorRecords 0 plan.descriptors ++
  plan.strings.map stringRecord ++
  [fixedRecord plan tableInfo 0 (infoFields model.info)] ++
  tableRecords plan tableSections (sectionFields plan) 0 model.sections ++
  dllRecords plan tableImportDlls tableImportSymbols 0 0 model.imports ++
  dllRecords plan tableDelayDlls tableDelaySymbols 0 0 model.delayImports ++
  tableRecords plan tableExports (exportFields plan) 0 model.exports ++
  tableRecords plan tableTlsCallbacks (fun callback => [putU64 0 callback]) 0
    model.info.tls.callbackVas ++
  functionRecords plan 0 0 0 model.runtimeFunctions ++
  blockRecords plan 0 0 model.relocations

/-- `fill_wire`. -/
def fillWire (model : Model) (plan : WirePlan) (output : ByteString) :
    Except PeError ByteString :=
  if output.length < plan.total then outputBufferTooSmall plan.total
  else
    .ok (putRecords (wireRecords model plan)
      (List.replicate plan.total 0 ++ output.drop plan.total))

end TradutorLinux.Rust
