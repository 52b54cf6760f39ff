import TradutorLinux.Rust.Types
import TradutorLinux.Util.Basics
import Mathlib.Data.List.Sort

/-!
# The parser of `rust/pe_parser.rs`

The parser that is canonical for the main image of a native run.  It reads the
same directories as `parse_pe`, in the same order, with its own loops and its
own limits.  Offsets are naturals: a sum of `usize` or `u64` values that are
32-bit words and lengths of the input does not overflow, so the `checked_add`
branches on such sums cannot be taken and have no counterpart here.

## Main definitions

* `Parser.rvaToFileOffset` — where an RVA range lies in the file.
* `Parser.parseExports`, …, `Parser.parseRelocations` — one per directory.
* `Parser.parse` — the whole parser.
-/

namespace TradutorLinux.Rust

/-! ### Limits and sizes -/

def maxSections : ℕ := 65535
def maxImportDlls : ℕ := 1024
def maxSymbolsPerDll : ℕ := 4096
def maxRelocBlocks : ℕ := 4096
def maxRuntimeFunctions : ℕ := 65536
def maxCString : ℕ := 65535
def maxExportFunctions : ℕ := 65536
def maxExportNames : ℕ := 65536
def maxTlsCallbacks : ℕ := 65536
def maxSerializedBytes : ℕ := 268435456

def dosHeaderSize : ℕ := 64
def coffHeaderSize : ℕ := 20
def sectionHeaderSize : ℕ := 40
def optionalHeaderBaseSize : ℕ := 112
def importDescriptorSize : ℕ := 20
def delayImportDescriptorSize : ℕ := 32
def runtimeFunctionSize : ℕ := 12
def unwindHeaderSize : ℕ := 4
def unwindCodeSize : ℕ := 2
def thunkSize : ℕ := 8
def relocBlockHeaderSize : ℕ := 8
def relocEntrySize : ℕ := 2
def exportDirectorySize : ℕ := 40

def machineAmd64 : UInt16 := 0x8664
def optionalMagic32 : UInt16 := 0x10b
def optionalMagic64 : UInt16 := 0x20b
def ordinalFlag64 : UInt64 := 0x8000000000000000
def imageFileDll : UInt16 := 0x2000

def dirExport : ℕ := 0
def dirImport : ℕ := 1
def dirResource : ℕ := 2
def dirException : ℕ := 3
def dirReloc : ℕ := 5
def dirTls : ℕ := 9
def dirDelayImport : ℕ := 13

/-- `u32::MAX`. -/
def u32Max : ℕ := 0xFFFFFFFF

/-- `valid_gpr`. -/
def validGpr (register : UInt8) : Bool := decide (register ≤ 15) && register != 4

/-! ### The reader -/

namespace Reader

/-- `Reader::bytes`. -/
def bytes (data : ByteString) (offset length : ℕ) : Option ByteString :=
  if inRange data.length offset length then some (slice data offset length) else none

/-- `Reader::u16`. -/
def u16 (data : ByteString) (offset : ℕ) : Option UInt16 :=
  (bytes data offset 2).map fun b => UInt16.ofNat (ofLE b)

/-- `Reader::u32`. -/
def u32 (data : ByteString) (offset : ℕ) : Option UInt32 :=
  (bytes data offset 4).map fun b => UInt32.ofNat (ofLE b)

/-- `Reader::u64`. -/
def u64 (data : ByteString) (offset : ℕ) : Option UInt64 :=
  (bytes data offset 8).map fun b => UInt64.ofNat (ofLE b)

/-- The scan of `Reader::cstring`, over at most `limit` bytes. -/
def scanCString : ByteString → ℕ → Option ByteString
  | [], _ => none
  | _, 0 => none
  | b :: rest, limit + 1 =>
    if b = 0 then some [] else (scanCString rest limit).map fun scanned => b :: scanned

/-- `Reader::cstring`. -/
def cstring (data : ByteString) (offset : ℕ) : Option ByteString :=
  if offset ≥ data.length then none else scanCString (data.drop offset) maxCString

end Reader

/-- `Parser`: the input and the image so far. -/
structure Parser where
  data : ByteString
  model : Model := {}

namespace Parser

/-- `get_u16`. -/
def getU16 (q : Parser) (offset phase code : ℕ) : Except PeError UInt16 :=
  match Reader.u16 q.data offset with
  | some value => .ok value
  | none =>
    peError statusTruncated code phase offset 2 (text "leitura de uint16 além do fim da entrada")

/-- `get_u32`. -/
def getU32 (q : Parser) (offset phase code : ℕ) : Except PeError UInt32 :=
  match Reader.u32 q.data offset with
  | some value => .ok value
  | none =>
    peError statusTruncated code phase offset 4 (text "leitura de uint32 além do fim da entrada")

/-- `get_u64`. -/
def getU64 (q : Parser) (offset phase code : ℕ) : Except PeError UInt64 :=
  match Reader.u64 q.data offset with
  | some value => .ok value
  | none =>
    peError statusTruncated code phase offset 8 (text "leitura de uint64 além do fim da entrada")

/-- `section.virtual_size.max(section.raw_data_size)`. -/
def span (s : Section) : ℕ := (max s.virtualSize s.rawDataSize).toNat

/-- `section_end`. -/
def sectionEnd (s : Section) : ℕ := s.virtualAddress.toNat + span s

/-- `rva_to_file_offset`. -/
def rvaToFileOffset (q : Parser) (rva : UInt32) (length phase code : ℕ) : Except PeError ℕ :=
  let stop := rva.toNat + length
  let outside : Except PeError ℕ :=
    malformed code phase rva.toNat length
      (text "RVA não possui intervalo correspondente no arquivo")
  if stop ≤ q.model.info.sizeOfHeaders.toNat ∧ stop ≤ q.data.length then .ok rva.toNat
  else
    match q.model.sections.find? fun s =>
        decide (rva.toNat ≥ s.virtualAddress.toNat) && decide (rva.toNat < sectionEnd s) with
    | none => outside
    | some s =>
      let delta := rva.toNat - s.virtualAddress.toNat
      if delta + length > s.rawDataSize.toNat then outside
      else
        let fileOffset := s.rawDataPointer.toNat + delta
        if fileOffset + length > q.data.length then outside else .ok fileOffset

/-- `cstring_at`. -/
def cstringAt (q : Parser) (offset phase code : ℕ) (message : ByteString) :
    Except PeError ByteString :=
  match Reader.cstring q.data offset with
  | some bytes => .ok bytes
  | none => malformed code phase offset maxCString message

/-! ### Exports -/

/-- The address table: `remaining` entries from `index` on. -/
def readFunctionRvas (q : Parser) (table : ℕ) : ℕ → ℕ → Except PeError (List UInt32)
  | _, 0 => .ok []
  | index, remaining + 1 =>
    q.getU32 (table + index * 4) phaseExports errorExportTable >>= fun value =>
    readFunctionRvas q table (index + 1) remaining >>= fun values => .ok (value :: values)

/-- The name tables: `names` holds `none` where `has_name` is false. -/
def readExportNames (q : Parser) (namesTable ordinalsTable : ℕ) :
    ℕ → ℕ → List (Option ByteString) → Except PeError (List (Option ByteString))
  | _, 0, names => .ok names
  | index, remaining + 1, names =>
    q.getU32 (namesTable + index * 4) phaseExports errorExportTable >>= fun exportNameRva =>
    q.getU16 (ordinalsTable + index * 2) phaseExports errorExportTable >>= fun functionIndex =>
    if functionIndex.toNat ≥ names.length then
      malformed errorExportTable phaseExports (namesTable + index * 4) functionIndex.toNat
        (text "índice de nome de export inválido")
    else
      q.rvaToFileOffset exportNameRva 1 phaseExports errorExportTable >>= fun nameOffset =>
      q.cstringAt nameOffset phaseExports errorExportTable (text "nome de export inválido") >>=
        fun name =>
      if name = [] ∨ names[functionIndex.toNat]? ≠ some none then
        malformed errorExportTable phaseExports nameOffset functionIndex.toNat
          (text "nome de export inválido ou repetido")
      else
        readExportNames q namesTable ordinalsTable (index + 1) remaining
          (names.set functionIndex.toNat (some name))

/-- The forwarder text of an address inside the export directory. -/
def readForwarder (q : Parser) (functionRva : UInt32) : Except PeError ByteString :=
  q.rvaToFileOffset functionRva 1 phaseExports errorExportTable >>= fun offset =>
  q.cstringAt offset phaseExports errorExportTable (text "forwarder de export inválido") >>=
    fun forwarder =>
  if forwarder = [] then
    malformed errorExportTable phaseExports offset functionRva.toNat
      (text "forwarder de export inválido")
  else .ok forwarder

/-- The exports of the address table. -/
def readExports (q : Parser) (directory : ℕ) (ordinalBase : UInt32) :
    ℕ → List UInt32 → List (Option ByteString) → Except PeError (List Export)
  | _, [], _ => .ok []
  | index, functionRva :: rvas, names =>
    if functionRva = 0 then readExports q directory ordinalBase (index + 1) rvas names
    else if functionRva ≥ q.model.info.sizeOfImage then
      malformed errorExportTable phaseExports directory functionRva.toNat
        (text "RVA de export fora da imagem")
    else
      let range := q.model.info.exports
      (if functionRva.toNat ≥ range.rva.toNat ∧
          functionRva.toNat < range.rva.toNat + range.size.toNat then
        q.readForwarder functionRva
      else .ok []) >>= fun forwarder =>
      readExports q directory ordinalBase (index + 1) rvas names >>= fun rest =>
        .ok
          ({ byName := (names[index]?.getD none).isSome
             name := (names[index]?.getD none).getD []
             ordinal := UInt16.ofNat (ordinalBase.toNat + index)
             rva := functionRva
             forwarder := forwarder } :: rest)

/-- The tables of the export directory at `directory`, once its header passes
the checks. -/
def readExportTables (q : Parser) (directory : ℕ)
    (ordinalBase functionCount nameCount functionsRva namesRva nameOrdinalsRva : UInt32) :
    Except PeError (List Export) :=
  if functionCount.toNat > maxExportFunctions ∨ nameCount.toNat > maxExportNames ∨
      nameCount.toNat > functionCount.toNat then
    malformed errorExportTable phaseExports directory functionCount.toNat
      (text "tabelas de exports excedem os limites suportados")
  else if functionCount.toNat > 0 ∧ functionsRva = 0 then
    malformed errorExportTable phaseExports directory 0
      (text "tabela de endereços de exports ausente")
  else if nameCount.toNat > 0 ∧ (namesRva = 0 ∨ nameOrdinalsRva = 0) then
    malformed errorExportTable phaseExports directory nameCount.toNat
      (text "tabelas de nomes de exports ausentes")
  else if ordinalBase > 0xFFFF ∨ functionCount.toNat > 0xFFFF + 1 - ordinalBase.toNat then
    malformed errorExportTable phaseExports directory ordinalBase.toNat
      (text "ordinais de exports excedem 16 bits")
  else
    (if functionCount.toNat > 0 then
      q.rvaToFileOffset functionsRva (functionCount.toNat * 4) phaseExports errorExportTable >>=
        fun table => q.readFunctionRvas table 0 functionCount.toNat
    else .ok []) >>= fun functionRvas =>
    (if nameCount.toNat > 0 then
      q.rvaToFileOffset namesRva (nameCount.toNat * 4) phaseExports errorExportTable >>=
        fun namesTable =>
      q.rvaToFileOffset nameOrdinalsRva (nameCount.toNat * 2) phaseExports errorExportTable >>=
        fun ordinalsTable =>
      q.readExportNames namesTable ordinalsTable 0 nameCount.toNat
        (List.replicate functionCount.toNat none)
    else .ok (List.replicate functionCount.toNat none)) >>= fun names =>
    q.readExports directory ordinalBase 0 functionRvas names

/-- `parse_exports`. -/
def parseExports (q : Parser) : Except PeError Parser :=
  let range := q.model.info.exports
  if range.rva = 0 ∧ range.size = 0 then .ok q
  else if range.size.toNat < exportDirectorySize then
    malformed errorExportTable phaseExports range.rva.toNat range.size.toNat
      (text "diretório de exports menor que IMAGE_EXPORT_DIRECTORY")
  else
    q.rvaToFileOffset range.rva range.size.toNat phaseExports errorExportTable >>= fun directory =>
    q.getU32 (directory + 12) phaseExports errorExportTable >>= fun nameRva =>
    q.getU32 (directory + 16) phaseExports errorExportTable >>= fun ordinalBase =>
    q.getU32 (directory + 20) phaseExports errorExportTable >>= fun functionCount =>
    q.getU32 (directory + 24) phaseExports errorExportTable >>= fun nameCount =>
    q.getU32 (directory + 28) phaseExports errorExportTable >>= fun functionsRva =>
    q.getU32 (directory + 32) phaseExports errorExportTable >>= fun namesRva =>
    q.getU32 (directory + 36) phaseExports errorExportTable >>= fun nameOrdinalsRva =>
    (if nameRva ≠ 0 then q.rvaToFileOffset nameRva 1 phaseExports errorExportTable
      else .ok 0) >>= fun _ =>
    q.readExportTables directory ordinalBase functionCount nameCount functionsRva namesRva
        nameOrdinalsRva >>= fun exports =>
      .ok { q with model :=
        { q.model with
          info := { q.model.info with exportOrdinalBase := ordinalBase }
          exports := exports } }

/-! ### Imports -/

/-- The symbol of the non-null thunk number `symbolIndex`. -/
def readSymbol (q : Parser) (delay : Bool) (phase code : ℕ) (firstThunk : UInt32)
    (symbolIndex thunkOffset : ℕ) (thunkValue : UInt64) : Except PeError Symbol :=
  let iatSlot := firstThunk.toNat + symbolIndex * thunkSize
  if iatSlot > q.model.info.sizeOfImage.toNat ∨
      iatSlot + thunkSize > q.model.info.sizeOfImage.toNat then
    malformed code phase thunkOffset iatSlot (text "IAT fora dos limites da imagem")
  else
    (if delay then q.rvaToFileOffset (UInt32.ofNat iatSlot) thunkSize phase code
      else .ok 0) >>= fun _ =>
    if thunkValue &&& ordinalFlag64 ≠ 0 then
      .ok { byOrdinal := true, ordinal := (thunkValue &&& 0xffff).toUInt16
            iatRva := UInt32.ofNat iatSlot }
    else if thunkValue.toNat > u32Max then
      malformed code phase thunkOffset thunkValue.toNat
        (text "nome de símbolo de import fora da imagem")
    else
      q.rvaToFileOffset thunkValue.toUInt32 2 phase code >>= fun byName =>
      q.cstringAt (byName + 2) phase code (text "nome de símbolo sem terminação nula") >>=
        fun name => .ok { name := name, iatRva := UInt32.ofNat iatSlot }

/-- The thunk loop from `symbolIndex` on. -/
def readThunks (q : Parser) (delay : Bool) (phase code : ℕ) (firstThunk : UInt32)
    (thunkTable : ℕ) : ℕ → ℕ → Except PeError (List Symbol)
  | symbolIndex, 0 =>
    malformed code phase thunkTable symbolIndex (text "tabela de thunks sem terminador nulo")
  | symbolIndex, remaining + 1 =>
    let thunkOffset := thunkTable + symbolIndex * thunkSize
    if !inRange q.data.length thunkOffset thunkSize then
      malformed code phase thunkTable symbolIndex (text "tabela de thunks sem terminador nulo")
    else
      q.getU64 thunkOffset phase code >>= fun thunkValue =>
      if thunkValue = 0 then .ok []
      else
        q.readSymbol delay phase code firstThunk symbolIndex thunkOffset thunkValue >>=
          fun symbol =>
        readThunks q delay phase code firstThunk thunkTable (symbolIndex + 1) remaining >>=
          fun symbols => .ok (symbol :: symbols)

/-- The tuple of descriptor fields `(attributes, original, name_rva,
first_thunk, int_rva)`. -/
structure Descriptor where
  attributes : UInt32
  original : UInt32
  nameRva : UInt32
  firstThunk : UInt32
  intRva : UInt32

/-- The fields of the descriptor at `offset`. -/
def readDescriptorFields (q : Parser) (delay : Bool) (phase code offset : ℕ) :
    Except PeError Descriptor :=
  if delay then
    q.getU32 offset phase code >>= fun attributes =>
    q.getU32 (offset + 4) phase code >>= fun nameRva =>
    q.getU32 (offset + 12) phase code >>= fun firstThunk =>
    q.getU32 (offset + 16) phase code >>= fun intRva =>
      .ok ⟨attributes, 0, nameRva, firstThunk, intRva⟩
  else
    q.getU32 offset phase code >>= fun original =>
    q.getU32 (offset + 12) phase code >>= fun nameRva =>
    q.getU32 (offset + 16) phase code >>= fun firstThunk =>
      .ok ⟨0, original, nameRva, firstThunk, 0⟩

/-- `all_zero`: the terminator.  The `&&` chain of the source stops reading at
the first field that is not zero. -/
def allZero (q : Parser) (delay : Bool) (phase code offset : ℕ) (d : Descriptor) :
    Except PeError Bool :=
  if delay then
    if d.attributes ≠ 0 ∨ d.nameRva ≠ 0 then .ok false
    else
      q.getU32 (offset + 8) phase code >>= fun moduleHandle =>
      if moduleHandle ≠ 0 ∨ d.firstThunk ≠ 0 ∨ d.intRva ≠ 0 then .ok false
      else
        q.getU32 (offset + 20) phase code >>= fun boundIat =>
        if boundIat ≠ 0 then .ok false
        else
          q.getU32 (offset + 24) phase code >>= fun unloadIat =>
          if unloadIat ≠ 0 then .ok false
          else q.getU32 (offset + 28) phase code >>= fun timestamp => .ok (timestamp == 0)
  else .ok (d.original == 0 && d.nameRva == 0 && d.firstThunk == 0)

/-- The descriptor number `index`; nothing for the terminator. -/
def readDescriptor (q : Parser) (delay : Bool) (phase code descriptorSize directory index : ℕ) :
    Except PeError (Option Dll) :=
  let offset := directory + index * descriptorSize
  q.readDescriptorFields delay phase code offset >>= fun d =>
  q.allZero delay phase code offset d >>= fun zero =>
  if zero then .ok none
  else if delay ∧ d.attributes ≠ 1 then
    peError statusUnsupportedMechanism code phase offset d.attributes.toNat
      (text "atributos de delay import não suportados (esperado 0x1)")
  else if d.nameRva = 0 ∨ (delay ∧ (d.firstThunk = 0 ∨ d.intRva = 0)) then
    malformed code phase offset index (text "descritor de import sem nome, INT ou IAT")
  else
    q.rvaToFileOffset d.nameRva 1 phase code >>= fun nameOffset =>
    q.cstringAt nameOffset phase code (text "nome de DLL sem terminação nula") >>= fun dllName =>
    let thunkRva := if delay then d.intRva else if d.original ≠ 0 then d.original else d.firstThunk
    if thunkRva = 0 ∨ d.firstThunk = 0 then
      malformed code phase offset index (text "descritor de import sem tabela de thunks")
    else
      q.rvaToFileOffset thunkRva thunkSize phase code >>= fun thunkTable =>
      q.readThunks delay phase code d.firstThunk thunkTable 0 maxSymbolsPerDll >>= fun symbols =>
        .ok (some ⟨dllName, symbols⟩)

/-- The descriptor loop from `index` on. -/
def readDescriptors (q : Parser) (delay : Bool)
    (phase code descriptorSize directory limit : ℕ) : ℕ → ℕ → Except PeError (List Dll)
  | _, 0 =>
    malformed code phase directory limit (text "diretório de imports sem descritor terminador")
  | index, remaining + 1 =>
    q.readDescriptor delay phase code descriptorSize directory index >>= fun
      | none => .ok []
      | some dll =>
        readDescriptors q delay phase code descriptorSize directory limit (index + 1) remaining >>=
          fun dlls => .ok (dll :: dlls)

/-- `parse_imports`, for the imports and for the delay imports. -/
def parseImports (q : Parser) (delay : Bool) : Except PeError Parser :=
  let range := if delay then q.model.info.delayImports else q.model.info.imports
  let descriptorSize := if delay then delayImportDescriptorSize else importDescriptorSize
  let code := if delay then errorDelayImportTable else errorImportTable
  let phase := if delay then phaseDelayImports else phaseImports
  if range.rva = 0 ∧ range.size = 0 then .ok q
  else if range.size.toNat < descriptorSize then
    malformed code phase range.rva.toNat range.size.toNat
      (text "diretório de imports menor que um descritor")
  else
    q.rvaToFileOffset range.rva range.size.toNat phase code >>= fun directory =>
    let limit := min (range.size.toNat / descriptorSize) maxImportDlls
    q.readDescriptors delay phase code descriptorSize directory limit 0 limit >>= fun dlls =>
      .ok { q with model :=
        if delay then { q.model with delayImports := dlls } else { q.model with imports := dlls } }

/-! ### TLS -/

/-- The callback loop, with `remaining` callbacks of the limit left. -/
def readTlsCallbacks (q : Parser) : ℕ → ℕ → Except PeError (List UInt64)
  | offset, 0 =>
    if !inRange q.data.length offset 8 then .ok []
    else
      q.getU64 offset phaseTls errorTlsDirectory >>= fun callback =>
      if callback = 0 then .ok []
      else
        peError statusInputTooLarge errorTlsDirectory phaseTls offset maxTlsCallbacks
          (text "número de callbacks TLS excede o limite")
  | offset, remaining + 1 =>
    if !inRange q.data.length offset 8 then .ok []
    else
      q.getU64 offset phaseTls errorTlsDirectory >>= fun callback =>
      if callback = 0 then .ok []
      else readTlsCallbacks q (offset + 8) remaining >>= fun callbacks =>
        .ok (callback :: callbacks)

/-- The callbacks of a TLS directory, when their address is one of the image
that lies in the file. -/
def readCallbackVas (q : Parser) (addressOfCallbacks : UInt64) : Except PeError (List UInt64) :=
  if addressOfCallbacks ≥ q.model.info.imageBase then
    let callbacksRva := addressOfCallbacks - q.model.info.imageBase
    if callbacksRva.toNat ≤ u32Max then
      match q.rvaToFileOffset callbacksRva.toUInt32 8 phaseTls errorTlsDirectory with
      | .ok offset => q.readTlsCallbacks offset maxTlsCallbacks
      | .error _ => .ok []
    else .ok []
  else .ok []

/-- `parse_tls`.  A directory that is not wholly in the file is no directory. -/
def parseTls (q : Parser) : Except PeError Parser :=
  let range := q.model.info.tlsDirectory
  if range.rva = 0 ∨ range.size = 0 ∨ range.size < 40 then .ok q
  else
    match q.rvaToFileOffset range.rva range.size.toNat phaseTls errorTlsDirectory with
    | .error _ => .ok q
    | .ok directory =>
      q.getU64 directory phaseTls errorTlsDirectory >>= fun startAddress =>
      q.getU64 (directory + 8) phaseTls errorTlsDirectory >>= fun endAddress =>
      q.getU64 (directory + 16) phaseTls errorTlsDirectory >>= fun addressOfIndex =>
      q.getU64 (directory + 24) phaseTls errorTlsDirectory >>= fun addressOfCallbacks =>
      q.getU32 (directory + 32) phaseTls errorTlsDirectory >>= fun sizeOfZeroFill =>
      q.getU32 (directory + 36) phaseTls errorTlsDirectory >>= fun characteristics =>
      q.readCallbackVas addressOfCallbacks >>= fun callbackVas =>
        .ok { q with model := { q.model with info := { q.model.info with tls :=
          { startAddressOfRawData := startAddress
            endAddressOfRawData := endAddress
            addressOfIndex := addressOfIndex
            addressOfCallbacks := addressOfCallbacks
            sizeOfZeroFill := sizeOfZeroFill
            characteristics := characteristics
            callbackVas := callbackVas } } } }

end Parser

/-! ### Unwind data -/

/-- `operation`. -/
def operation (raw : UInt16) : UInt8 := ((raw >>> 8) &&& 0xf).toUInt8

/-- `code_offset`. -/
def codeOffset (raw : UInt16) : UInt8 := (raw &&& 0xff).toUInt8

/-- `operation_info`. -/
def operationInfo (raw : UInt16) : UInt8 := ((raw >>> 12) &&& 0xf).toUInt8

def epilogDistance (raw : UInt16) : UInt32 :=
  ((operationInfo raw).toUInt32 <<< 8) ||| (codeOffset raw).toUInt32

/-- What the closures of `parse_unwind` capture: the function, the header
fields, and where the header and the codes lie in the file. -/
structure UnwindParser where
  parser : Parser
  functionBegin : UInt32
  functionEnd : UInt32
  header : ℕ
  codeCount : ℕ
  frameRegister : UInt8
  frameOffset : UInt8
  codesOffset : ℕ

namespace UnwindParser

/-- `raw_code`. -/
def rawCode (v : UnwindParser) (slot : ℕ) : Except PeError UInt16 :=
  v.parser.getU16 (v.codesOffset + slot * 2) phaseUnwind errorUnwindDirectory

/-- A malformed record, reported at its header. -/
def malformedAt {α : Type} (v : UnwindParser) (detail : ℕ) (message : String) : Except PeError α :=
  malformed errorUnwindDirectory phaseUnwind v.header detail (text message)

/-- An unsupported record, reported at its header. -/
def unsupportedAt {α : Type} (v : UnwindParser) (detail : ℕ) (message : String) :
    Except PeError α :=
  peError statusUnsupportedMechanism errorUnwindDirectory phaseUnwind v.header detail (text message)

/-- `append_epilog`. -/
def appendEpilog (v : UnwindParser) (epilogSize distance : UInt32) : Except PeError Epilog :=
  let functionSize := v.functionEnd - v.functionBegin
  if distance < epilogSize ∨ distance > functionSize then
    v.malformedAt distance.toNat "epílogo V2 fora do intervalo da RUNTIME_FUNCTION"
  else
    let begin_ := v.functionEnd - distance
    let stop := begin_.toNat + epilogSize.toNat
    if stop > v.functionEnd.toNat then
      v.malformedAt stop "epílogo V2 excede a RUNTIME_FUNCTION"
    else .ok ⟨begin_, UInt32.ofNat stop⟩

/-- The loop over the further epilog descriptors. -/
def readEpilogs (v : UnwindParser) (epilogSize : UInt32) :
    ℕ → ℕ → Except PeError (List Epilog × ℕ)
  | slot, 0 => .ok ([], slot)
  | slot, remaining + 1 =>
    v.rawCode slot >>= fun raw =>
    if operation raw ≠ 6 then .ok ([], slot)
    else if epilogDistance raw = 0 then .ok ([], slot + 1)
    else
      v.appendEpilog epilogSize (epilogDistance raw) >>= fun epilog =>
      readEpilogs v epilogSize (slot + 1) remaining >>= fun (epilogs, next) =>
        .ok (epilog :: epilogs, next)

/-- The first overlap of the sorted list, as the begin of the later epilog. -/
def findOverlap : List Epilog → Option UInt32
  | left :: right :: rest =>
    if right.beginRva < left.endRva then some right.beginRva else findOverlap (right :: rest)
  | _ => none

/-- `sort_by_key` on `begin_rva`. -/
def sortEpilogs (epilogs : List Epilog) : List Epilog :=
  epilogs.insertionSort fun left right => left.beginRva ≤ right.beginRva

/-- The first epilog of a version 2 record with descriptor `first`, and the
slot behind its descriptors. -/
def readFirstEpilog (v : UnwindParser) (first : UInt16) : Except PeError (Epilog × ℕ) :=
  let epilogSize := (codeOffset first).toUInt32
  if operationInfo first &&& 1 ≠ 0 then
    v.appendEpilog epilogSize epilogSize >>= fun epilog => .ok (epilog, 1)
  else if 1 ≥ v.codeCount then v.malformedAt 1 "offset de epílogo V2 sem UOP_Epilog"
  else
    v.rawCode 1 >>= fun raw =>
    if operation raw ≠ 6 then v.malformedAt 1 "offset de epílogo V2 sem UOP_Epilog"
    else if epilogDistance raw = 0 then v.malformedAt 0 "offset de epílogo V2 nulo"
    else v.appendEpilog epilogSize (epilogDistance raw) >>= fun epilog => .ok (epilog, 2)

/-- The epilog descriptors: the sorted epilogs and the first slot that is a
code. -/
def readEpilogDescriptors (v : UnwindParser) (version : UInt8) :
    Except PeError (List Epilog × ℕ) :=
  if version = 2 ∧ v.codeCount > 0 then
    v.rawCode 0 >>= fun first =>
    if operation first ≠ 6 then .ok ([], 0)
    else if codeOffset first = 0 then
      v.malformedAt 0 "descritor de epílogo V2 com tamanho zero"
    else if operationInfo first &&& ~~~1 ≠ 0 then
      v.unsupportedAt (operationInfo first).toNat "flags de epílogo V2 não suportadas"
    else
      v.readFirstEpilog first >>= fun (epilog, slot) =>
      v.readEpilogs (codeOffset first).toUInt32 slot (v.codeCount - slot) >>=
        fun (epilogs, next) =>
      match findOverlap (sortEpilogs (epilog :: epilogs)) with
      | some beginRva => v.malformedAt beginRva.toNat "epílogos V2 sobrepostos"
      | none => .ok (sortEpilogs (epilog :: epilogs), next)
  else .ok ([], 0)

/-- The `match` over the operation: how many further slots its operand takes. -/
def extraSlots (v : UnwindParser) (op info : UInt8) : Except PeError ℕ :=
  match op.toNat with
  | 0 =>
    if !validGpr info then
      v.malformedAt info.toNat "UWOP_PUSH_NONVOL usa registrador inválido"
    else .ok 0
  | 1 =>
    if info = 0 then .ok 1
    else if info = 1 then .ok 2
    else v.malformedAt info.toNat "UWOP_ALLOC_LARGE com OpInfo inválido"
  | 2 => .ok 0
  | 3 =>
    if info ≠ 0 ∧ !validGpr info ∧ info ≠ v.frameOffset then
      v.unsupportedAt info.toNat "UWOP_SET_FPREG estendido não suportado"
    else if !validGpr v.frameRegister then
      v.malformedAt v.frameRegister.toNat "UWOP_SET_FPREG com FrameRegister inválido"
    else .ok 0
  | 4 =>
    if !validGpr info then
      v.malformedAt info.toNat "UWOP_SAVE_NONVOL usa registrador inválido"
    else .ok 1
  | 5 =>
    if !validGpr info then
      v.malformedAt info.toNat "UWOP_SAVE_NONVOL_FAR usa registrador inválido"
    else .ok 2
  | 8 => .ok 1
  | 9 => .ok 2
  | 10 =>
    if info > 1 then v.malformedAt info.toNat "UWOP_PUSH_MACHFRAME com OpInfo inválido"
    else .ok 0
  | _ => v.unsupportedAt op.toNat "operação de UNWIND_INFO não suportada"

/-- The operand of the code at `slot`. -/
def readOperand (v : UnwindParser) (slot extra : ℕ) (op info : UInt8) : Except PeError UInt32 :=
  if extra = 1 then
    v.rawCode (slot + 1) >>= fun value =>
      .ok (if op = 1 ∨ op = 4 then value.toUInt32 * 8
        else if op = 8 then value.toUInt32 * 16
        else 0)
  else if extra = 2 then
    v.rawCode (slot + 1) >>= fun low =>
    v.rawCode (slot + 2) >>= fun high =>
    let operand := low.toUInt32 ||| (high.toUInt32 <<< 16)
    if op = 9 ∧ operand &&& 0xf ≠ 0 then
      v.malformedAt operand.toNat "UWOP_SAVE_XMM128_FAR com offset não alinhado"
    else .ok operand
  else .ok (if op = 2 then info.toUInt32 * 8 + 8 else 0)

/-- The code loop from `slot` on, and whether it met an extended
`UWOP_SET_FPREG`; every round takes at least one slot. -/
def readCodes (v : UnwindParser) :
    ℕ → ℕ → Option UInt8 → Except PeError (List UnwindCode × Bool)
  | 0, _, _ => .ok ([], false)
  | fuel + 1, slot, previous =>
    if slot < v.codeCount then
      v.rawCode slot >>= fun raw =>
      let offset := codeOffset raw
      let op := operation raw
      let info := operationInfo raw
      if (previous.any fun before => decide (offset > before)) then
        v.malformedAt offset.toNat "códigos de UNWIND_INFO fora de ordem decrescente"
      else
        v.extraSlots op info >>= fun extra =>
        if extra > v.codeCount - (slot + 1) then
          v.malformedAt slot "operando de UNWIND_INFO truncado"
        else
          v.readOperand slot extra op info >>= fun operand =>
          readCodes v fuel (slot + (extra + 1)) (some offset) >>= fun (codes, extended) =>
            .ok (⟨offset, op, info, operand⟩ :: codes, (op == 3 && info != 0) || extended)
    else .ok ([], false)

end UnwindParser

namespace Parser

/-- The chained function or the handler behind the codes, at `tailRva`. -/
def readUnwindTail (q : Parser) (header : ℕ) (tailRva : UInt32) (unwind : Unwind) :
    Except PeError Unwind :=
  if unwind.flags &&& 4 ≠ 0 then
    if unwind.flags &&& 3 ≠ 0 then
      malformed errorUnwindDirectory phaseUnwind header unwind.flags.toNat
        (text "UNWIND_INFO combina handler e CHAININFO")
    else
      q.rvaToFileOffset tailRva 12 phaseUnwind errorUnwindDirectory >>= fun chain =>
      q.getU32 chain phaseUnwind errorUnwindDirectory >>= fun beginRva =>
      q.getU32 (chain + 4) phaseUnwind errorUnwindDirectory >>= fun endRva =>
      q.getU32 (chain + 8) phaseUnwind errorUnwindDirectory >>= fun unwindInfoRva =>
        .ok { unwind with chained := some ⟨beginRva, endRva, unwindInfoRva⟩ }
  else if unwind.flags &&& 3 ≠ 0 then
    q.rvaToFileOffset tailRva 4 phaseUnwind errorUnwindDirectory >>= fun handler =>
    q.getU32 handler phaseUnwind errorUnwindDirectory >>= fun handlerRva =>
    if handlerRva = 0 then
      malformed errorUnwindDirectory phaseUnwind handler 0
        (text "handler de UNWIND_INFO fora da imagem")
    else
      q.rvaToFileOffset handlerRva 1 phaseUnwind errorUnwindDirectory >>= fun _ =>
      if tailRva.toNat + 4 > u32Max then
        malformed errorUnwindDirectory phaseUnwind handler tailRva.toNat
          (text "dados de handler excedem uint32")
      else if tailRva + 4 > q.model.info.sizeOfImage then
        malformed errorUnwindDirectory phaseUnwind handler (tailRva + 4).toNat
          (text "dados de handler fora da imagem")
      else .ok { unwind with handlerRva := handlerRva, handlerDataRva := tailRva + 4 }
  else .ok unwind

/-- The codes of a record and what stands behind them. -/
def readUnwindBody (q : Parser) (v : UnwindParser) (codeEnd : ℕ) (unwind : Unwind) :
    Except PeError Unwind :=
  v.readEpilogDescriptors unwind.version >>= fun (epilogs, slot) =>
  v.readCodes v.codeCount slot none >>= fun (codes, extended) =>
  let alignedTail := (codeEnd + 3) / 4 * 4
  if alignedTail > q.model.info.sizeOfImage.toNat ∨ alignedTail > u32Max then
    malformed errorUnwindDirectory phaseUnwind v.header alignedTail
      (text "cauda de UNWIND_INFO excede a imagem")
  else
    q.readUnwindTail v.header (UInt32.ofNat alignedTail)
      { unwind with epilogs := epilogs, codes := codes, extendedSetFpreg := extended }

/-- `parse_unwind`. -/
def parseUnwind (q : Parser) (unwindRva functionBegin functionEnd : UInt32) :
    Except PeError Unwind :=
  if unwindRva &&& 3 ≠ 0 then
    malformed errorUnwindDirectory phaseUnwind unwindRva.toNat unwindRva.toNat
      (text "UNWIND_INFO sem alinhamento de 4 bytes")
  else
    q.rvaToFileOffset unwindRva unwindHeaderSize phaseUnwind errorUnwindDirectory >>= fun header =>
    q.getU32 header phaseUnwind errorUnwindDirectory >>= fun word =>
    let unwind : Unwind :=
      { version := (word &&& 7).toUInt8
        flags := ((word >>> 3) &&& 0x1f).toUInt8
        prologSize := ((word >>> 8) &&& 0xff).toUInt8
        frameRegister := ((word >>> 24) &&& 0xf).toUInt8
        frameOffset := ((word >>> 28) &&& 0xf).toUInt8 }
    let codeCount := ((word >>> 16) &&& 0xff).toNat
    if unwind.version ≠ 1 ∧ unwind.version ≠ 2 then
      peError statusUnsupportedMechanism errorUnwindDirectory phaseUnwind unwindRva.toNat
        unwind.version.toNat (text "versão de UNWIND_INFO não suportada")
    else if unwind.flags &&& ~~~7 ≠ 0 then
      peError statusUnsupportedMechanism errorUnwindDirectory phaseUnwind unwindRva.toNat
        unwind.flags.toNat (text "flags de UNWIND_INFO não suportadas")
    else
      let codeBytes := codeCount * unwindCodeSize
      let codeEnd := unwindRva.toNat + (unwindHeaderSize + codeBytes)
      if codeEnd > q.model.info.sizeOfImage.toNat ∨ codeEnd > u32Max then
        malformed errorUnwindDirectory phaseUnwind header codeEnd
          (text "códigos de UNWIND_INFO excedem a imagem")
      else
        -- `unwind_rva + 4` is at most `code_end`, so it stays in 32 bits
        (if codeCount = 0 then .ok 0
          else q.rvaToFileOffset (unwindRva + 4) codeBytes phaseUnwind errorUnwindDirectory) >>=
          fun codesOffset =>
        q.readUnwindBody
          { parser := q
            functionBegin := functionBegin
            functionEnd := functionEnd
            header := header
            codeCount := codeCount
            frameRegister := unwind.frameRegister
            frameOffset := unwind.frameOffset
            codesOffset := codesOffset }
          codeEnd unwind

/-! ### The exception directory -/

/-- The function table: `remaining` entries from `index` on. -/
def readRuntimeFunctions (q : Parser) (directory : ℕ) :
    ℕ → ℕ → UInt32 → Except PeError (List RuntimeFunction)
  | _, 0, _ => .ok []
  | index, remaining + 1, previousEnd =>
    let offset := directory + index * runtimeFunctionSize
    q.getU32 offset phaseUnwind errorUnwindDirectory >>= fun beginRva =>
    q.getU32 (offset + 4) phaseUnwind errorUnwindDirectory >>= fun endRva =>
    q.getU32 (offset + 8) phaseUnwind errorUnwindDirectory >>= fun unwindInfoRva =>
    if beginRva ≥ endRva ∨ endRva > q.model.info.sizeOfImage then
      malformed errorUnwindDirectory phaseUnwind offset endRva.toNat
        (text "RUNTIME_FUNCTION com intervalo inválido")
    else if index > 0 ∧ beginRva < previousEnd then
      malformed errorUnwindDirectory phaseUnwind offset beginRva.toNat
        (text "RUNTIME_FUNCTIONs fora de ordem ou sobrepostos")
    else
      q.parseUnwind unwindInfoRva beginRva endRva >>= fun unwind =>
      readRuntimeFunctions q directory (index + 1) remaining endRva >>= fun functions =>
        .ok (⟨beginRva, endRva, unwindInfoRva, unwind⟩ :: functions)

def isChained (chain : Chain) (candidate : RuntimeFunction) : Bool :=
  candidate.beginRva == chain.beginRva && candidate.endRva == chain.endRva &&
    candidate.unwindInfoRva == chain.unwindInfoRva

/-- Every chained function of `rest` is an entry of the table. -/
def checkChainTargets (runtime : List RuntimeFunction) (directory : ℕ) :
    List RuntimeFunction → Except PeError Unit
  | [] => .ok ()
  | function :: rest =>
    match function.unwind.chained with
    | none => checkChainTargets runtime directory rest
    | some chain =>
      if runtime.any (isChained chain) then checkChainTargets runtime directory rest
      else
        malformed errorUnwindDirectory phaseUnwind directory chain.beginRva.toNat
          (text "CHAININFO não referencia uma RUNTIME_FUNCTION da tabela")

/-- The entry the chain of `current` leads to. -/
def nextInChain (runtime : List RuntimeFunction) (current : ℕ) : Option ℕ :=
  match runtime[current]? with
  | none => none
  | some function =>
    match function.unwind.chained with
    | none => none
    | some chain => runtime.findIdx? (isChained chain)

/-- The depth loop: `remaining + 1` steps along the chain can all be taken. -/
def followsChain (runtime : List RuntimeFunction) : ℕ → ℕ → Bool
  | remaining, current =>
    match nextInChain runtime current with
    | none => false
    | some next =>
      match remaining with
      | 0 => true
      | remaining + 1 => followsChain runtime remaining next

/-- The loop over the starts: `remaining` of them from `start` on. -/
def checkCycles (runtime : List RuntimeFunction) (directory : ℕ) : ℕ → ℕ → Except PeError Unit
  | _, 0 => .ok ()
  | start, remaining + 1 =>
    if followsChain runtime runtime.length start then
      malformed errorUnwindDirectory phaseUnwind directory start
        (text "ciclo em CHAININFO de UNWIND_INFO")
    else checkCycles runtime directory (start + 1) remaining

/-- `parse_runtime_functions`. -/
def parseRuntimeFunctions (q : Parser) : Except PeError Parser :=
  let range := q.model.info.exceptions
  if range.rva = 0 ∧ range.size = 0 then .ok q
  else if range.rva = 0 ∨ range.size = 0 ∨ range.size.toNat % runtimeFunctionSize ≠ 0 then
    malformed errorUnwindDirectory phaseUnwind range.rva.toNat range.size.toNat
      (text "diretório de exceções deve conter RUNTIME_FUNCTIONs completos")
  else
    q.rvaToFileOffset range.rva range.size.toNat phaseUnwind errorUnwindDirectory >>=
      fun directory =>
    let count := range.size.toNat / runtimeFunctionSize
    if count > maxRuntimeFunctions then
      peError statusInputTooLarge errorUnwindDirectory phaseUnwind directory count
        (text "número excessivo de RUNTIME_FUNCTIONs")
    else
      q.readRuntimeFunctions directory 0 count 0 >>= fun runtime =>
      checkChainTargets runtime directory runtime >>= fun _ =>
      checkCycles runtime directory 0 runtime.length >>= fun _ =>
        .ok { q with model := { q.model with runtimeFunctions := runtime } }

/-! ### Base relocations -/

/-- The entries of a block: `remaining` of them from `offset` on. -/
def readRelocEntries (q : Parser) : ℕ → ℕ → Except PeError (List RelocEntry)
  | _, 0 => .ok []
  | offset, remaining + 1 =>
    q.getU16 offset phaseRelocations errorRelocationDirectory >>= fun raw =>
    readRelocEntries q (offset + 2) remaining >>= fun entries =>
      .ok (⟨raw >>> 12, raw &&& 0xfff⟩ :: entries)

/-- The block at `offset`, with `available` bytes of the directory left. -/
def readRelocBlock (q : Parser) (offset available : ℕ) : Except PeError (RelocBlock × ℕ) :=
  q.getU32 offset phaseRelocations errorRelocationDirectory >>= fun pageRva =>
  q.getU32 (offset + 4) phaseRelocations errorRelocationDirectory >>= fun blockSize =>
  if blockSize.toNat < relocBlockHeaderSize ∨ blockSize.toNat > available then
    malformed errorRelocationDirectory phaseRelocations offset blockSize.toNat
      (text "bloco de relocations com tamanho inválido")
  else
    let entryBytes := blockSize.toNat - relocBlockHeaderSize
    if entryBytes % relocEntrySize ≠ 0 then
      malformed errorRelocationDirectory phaseRelocations offset entryBytes
        (text "bloco de relocations com entradas truncadas")
    else
      q.readRelocEntries (offset + relocBlockHeaderSize) (entryBytes / relocEntrySize) >>=
        fun entries => .ok (⟨pageRva, entries⟩, blockSize.toNat)

/-- The block loop, with `remaining` blocks of the limit left, and the check
behind it. -/
def readRelocBlocks (q : Parser) (directory size : ℕ) :
    ℕ → ℕ → Except PeError (List RelocBlock)
  | consumed, 0 =>
    if consumed + relocBlockHeaderSize ≤ size then
      peError statusInputTooLarge errorRelocationDirectory phaseRelocations (directory + consumed)
        maxRelocBlocks (text "número excessivo de blocos de relocations")
    else if consumed ≠ size then
      malformed errorRelocationDirectory phaseRelocations (directory + consumed) (size - consumed)
        (text "diretório de relocations com bytes residuais")
    else .ok []
  | consumed, remaining + 1 =>
    if consumed + relocBlockHeaderSize ≤ size then
      q.readRelocBlock (directory + consumed) (size - consumed) >>= fun (block, blockSize) =>
      readRelocBlocks q directory size (consumed + blockSize) remaining >>= fun blocks =>
        .ok (block :: blocks)
    else if consumed ≠ size then
      malformed errorRelocationDirectory phaseRelocations (directory + consumed) (size - consumed)
        (text "diretório de relocations com bytes residuais")
    else .ok []

/-- `parse_relocations`. -/
def parseRelocations (q : Parser) : Except PeError Parser :=
  let range := q.model.info.relocations
  if range.rva = 0 ∧ range.size = 0 then .ok q
  else if range.size.toNat < relocBlockHeaderSize then
    malformed errorRelocationDirectory phaseRelocations range.rva.toNat range.size.toNat
      (text "diretório de relocations menor que o cabeçalho de bloco")
  else
    q.rvaToFileOffset range.rva range.size.toNat phaseRelocations errorRelocationDirectory >>=
      fun directory =>
    q.readRelocBlocks directory range.size.toNat 0 maxRelocBlocks >>= fun blocks =>
      .ok { q with model := { q.model with relocations := blocks } }

/-! ### Headers -/

/-- The DOS header: where the NT headers lie.  On a 64-bit host `e_lfanew`
fits in `usize`. -/
def readDosHeader (q : Parser) : Except PeError ℕ :=
  if q.data.length < dosHeaderSize then
    truncated phaseDosHeader 0 dosHeaderSize (text "arquivo menor que o cabeçalho DOS (64 bytes)")
  else
    q.getU16 0 phaseDosHeader errorDosHeader >>= fun dosMagic =>
    q.getU32 60 phaseDosHeader errorDosHeader >>= fun eLfanew =>
    if dosMagic ≠ 0x5a4d then
      malformed errorDosHeader phaseDosHeader 0 dosMagic.toNat
        (text "assinatura DOS ausente (esperado MZ)")
    else .ok eLfanew.toNat

/-- What the COFF header says that the rest needs. -/
structure CoffHeader where
  coff : ℕ
  machine : UInt16
  sectionCount : UInt16
  optionalSize : UInt16
  characteristics : UInt16

/-- `opt`. -/
def CoffHeader.opt (h : CoffHeader) : ℕ := h.coff + coffHeaderSize

/-- `section_table`. -/
def CoffHeader.sectionTable (h : CoffHeader) : ℕ := h.opt + h.optionalSize.toNat

def readCoffHeader (q : Parser) (nt : ℕ) : Except PeError CoffHeader :=
  if !inRange q.data.length nt (4 + coffHeaderSize) then
    truncated phaseCoffHeader nt (4 + coffHeaderSize) (text "cabeçalho NT/COFF truncado")
  else
    q.getU32 nt phaseCoffHeader errorPeHeader >>= fun signature =>
    if signature ≠ 0x4550 then
      malformed errorPeHeader phaseCoffHeader nt 0x4550
        (text "assinatura PE ausente (esperado PE\\0\\0)")
    else
      let coff := nt + 4
      q.getU16 coff phaseCoffHeader errorCoffHeader >>= fun machine =>
      q.getU16 (coff + 2) phaseCoffHeader errorCoffHeader >>= fun sectionCount =>
      q.getU16 (coff + 16) phaseCoffHeader errorCoffHeader >>= fun optionalSize =>
      q.getU16 (coff + 18) phaseCoffHeader errorCoffHeader >>= fun characteristics =>
      let h : CoffHeader := ⟨coff, machine, sectionCount, optionalSize, characteristics⟩
      if machine ≠ machineAmd64 then
        peError statusUnsupportedArchitecture errorCoffHeader phaseCoffHeader coff machine.toNat
          (text "arquitetura de máquina " ++ formatHex machine.toNat ++
            text " não suportada (esperado AMD64)")
      else if optionalSize.toNat < optionalHeaderBaseSize then
        malformed errorOptionalHeader phaseOptionalHeader (coff + coffHeaderSize) optionalSize.toNat
          (text "SizeOfOptionalHeader menor que o mínimo PE32+ (112 bytes)")
      else if h.sectionTable > q.data.length ∨
          sectionCount.toNat > (q.data.length - h.sectionTable) / sectionHeaderSize then
        truncated phaseSections h.sectionTable (sectionCount.toNat * sectionHeaderSize)
          (text "tabela de seções não cabe no arquivo")
      else .ok h

/-- The data directory in slot `index`, when the header has that many. -/
def readDirectory (q : Parser) (directoryOffset directoryCount index : ℕ) :
    Except PeError Directory :=
  if directoryCount > index then
    q.getU32 (directoryOffset + index * 8) phaseOptionalHeader errorOptionalHeader >>= fun rva =>
    q.getU32 (directoryOffset + index * 8 + 4) phaseOptionalHeader errorOptionalHeader >>=
      fun size => .ok ⟨rva, size⟩
  else .ok {}

/-- The loop over `directory_slots`. -/
def readDirectories (q : Parser) (directoryOffset directoryCount : ℕ) (info : Info) :
    Except PeError Info :=
  let directory := q.readDirectory directoryOffset directoryCount
  directory dirImport >>= fun imports =>
  directory dirExport >>= fun exports =>
  directory dirResource >>= fun resources =>
  directory dirException >>= fun exceptions =>
  directory dirReloc >>= fun relocations =>
  directory dirDelayImport >>= fun delayImports =>
  directory dirTls >>= fun tlsDirectory =>
    .ok { info with imports, exports, resources, exceptions, relocations, delayImports,
                    tlsDirectory }

/-- The fields of the optional header. -/
def readInfo (q : Parser) (h : CoffHeader) : Except PeError Info :=
  q.getU32 (h.opt + 16) phaseOptionalHeader errorOptionalHeader >>= fun entryPoint =>
  q.getU64 (h.opt + 24) phaseOptionalHeader errorOptionalHeader >>= fun imageBase =>
  q.getU32 (h.opt + 32) phaseOptionalHeader errorOptionalHeader >>= fun sectionAlignment =>
  q.getU32 (h.opt + 56) phaseOptionalHeader errorOptionalHeader >>= fun sizeOfImage =>
  q.getU32 (h.opt + 60) phaseOptionalHeader errorOptionalHeader >>= fun sizeOfHeaders =>
  q.getU16 (h.opt + 68) phaseOptionalHeader errorOptionalHeader >>= fun subsystem =>
    .ok
      { isPe32Plus := true
        isDll := h.characteristics &&& imageFileDll != 0
        machine := h.machine
        numberOfSections := h.sectionCount
        entryPoint := entryPoint
        imageBase := imageBase
        sectionAlignment := sectionAlignment
        sizeOfImage := sizeOfImage
        sizeOfHeaders := sizeOfHeaders
        subsystem := subsystem }

def readOptionalHeader (q : Parser) (h : CoffHeader) : Except PeError Info :=
  q.getU16 h.opt phaseOptionalHeader errorOptionalHeader >>= fun optionalMagic =>
  if optionalMagic = optionalMagic32 then
    peError statusUnsupportedFormat errorOptionalHeader phaseOptionalHeader h.opt
      optionalMagic.toNat (text "PE32 (x86) não é suportado; apenas PE32+ x86-64")
  else if optionalMagic ≠ optionalMagic64 then
    malformed errorOptionalHeader phaseOptionalHeader h.opt optionalMagic.toNat
      (text "magic do optional header " ++ formatHex optionalMagic.toNat ++
        text " não reconhecido (esperado 0x20b)")
  else
    q.readInfo h >>= fun info =>
    if info.sizeOfImage = 0 ∨ info.sizeOfHeaders = 0 ∨ info.sizeOfHeaders > info.sizeOfImage ∨
        info.sectionAlignment = 0 then
      malformed errorOptionalHeader phaseOptionalHeader h.opt info.sizeOfImage.toNat
        (text ("optional header com SizeOfImage, SizeOfHeaders ou SectionAlignment " ++
          "inválido"))
    else
      q.getU32 (h.opt + 108) phaseOptionalHeader errorOptionalHeader >>= fun numberOfRvaAndSizes =>
      let directoryCount := min numberOfRvaAndSizes.toNat 16
      if directoryCount * 8 > h.optionalSize.toNat - optionalHeaderBaseSize then
        truncated phaseOptionalHeader (h.opt + optionalHeaderBaseSize) (directoryCount * 8)
          (text "diretórios de dados excedem o optional header")
      else q.readDirectories (h.opt + optionalHeaderBaseSize) directoryCount info

/-! ### The section table -/

/-- The loop that drops the trailing NUL bytes of a section name. -/
def trimmedNameLen (nameRaw : ByteString) : ℕ → ℕ
  | 0 => 0
  | n + 1 => if nameRaw[n]? = some 0 then trimmedNameLen nameRaw n else n + 1

/-- The section header at `offset`. -/
def readSection (q : Parser) (offset : ℕ) : Except PeError Section :=
  match Reader.bytes q.data offset 8 with
  | none => truncated phaseSections offset 8 (text "nome de seção truncado")
  | some nameRaw =>
    q.getU32 (offset + 8) phaseSections errorSectionTable >>= fun virtualSize =>
    q.getU32 (offset + 12) phaseSections errorSectionTable >>= fun virtualAddress =>
    q.getU32 (offset + 16) phaseSections errorSectionTable >>= fun rawDataSize =>
    q.getU32 (offset + 20) phaseSections errorSectionTable >>= fun rawDataPointer =>
    q.getU32 (offset + 36) phaseSections errorSectionTable >>= fun characteristics =>
      .ok
        { name := nameRaw.take (trimmedNameLen nameRaw 8)
          virtualAddress := virtualAddress
          virtualSize := virtualSize
          rawDataPointer := rawDataPointer
          rawDataSize := rawDataSize
          characteristics := characteristics }

/-- The section table: `remaining` headers from number `index` on. -/
def readSections (q : Parser) (info : Info) (sectionTable : ℕ) :
    ℕ → ℕ → Except PeError (List Section)
  | _, 0 => .ok []
  | index, remaining + 1 =>
    let offset := sectionTable + index * sectionHeaderSize
    if index ≥ maxSections then
      peError statusInputTooLarge errorSectionTable phaseSections sectionTable index
        (text "número de seções excede o limite")
    else
      q.readSection offset >>= fun s =>
      if span s ≠ 0 ∧ (s.virtualAddress < info.sizeOfHeaders ∨
          sectionEnd s > info.sizeOfImage.toNat) then
        malformed errorSectionTable phaseSections offset (sectionEnd s)
          (text "seção excede os limites da imagem")
      else if s.rawDataSize > 0 ∧
          s.rawDataPointer.toNat + s.rawDataSize.toNat > q.data.length then
        malformed errorSectionTable phaseSections (offset + 20) s.rawDataSize.toNat
          (text "dados crus de seção excedem o arquivo")
      else
        readSections q info sectionTable (index + 1) remaining >>= fun sections =>
          .ok (s :: sections)

/-! ### The parser -/

/-- The headers and the section table. -/
def readHeaders (q : Parser) : Except PeError Parser :=
  q.readDosHeader >>= fun nt =>
  q.readCoffHeader nt >>= fun h =>
  q.readOptionalHeader h >>= fun info =>
  q.readSections info h.sectionTable 0 h.sectionCount.toNat >>= fun sections =>
    .ok { q with model := { q.model with info := info, sections := sections } }

/-- `Parser::parse`, from `Parser::new`. -/
def parse (data : ByteString) : Except PeError Model :=
  readHeaders { data := data } >>= fun q =>
  q.parseExports >>= fun q =>
  q.parseImports false >>= fun q =>
  q.parseImports true >>= fun q =>
  q.parseRuntimeFunctions >>= fun q =>
  q.parseTls >>= fun q =>
  q.parseRelocations >>= fun q => .ok q.model

end Parser
end TradutorLinux.Rust
