import TradutorLinux.Pe.Reader

/-!
# Synthetic images

The builder of `tests/pe_builder.hpp`, for images small enough to evaluate: the
headers, the section table, and behind them `body`.  An image without sections
is mapped at its own file offsets, so an RVA below `SizeOfHeaders` is an offset.

## Main definitions

* `build`
* `importData`, `exportData` — the two tables, placed at a given RVA.
* `buildDll` — a DLL with the given imports and exports.
-/

namespace TradutorLinux.Pe

/-! ### Headers -/

structure SectionSpec where
  name : ByteString
  virtualSize : UInt32
  virtualAddress : UInt32
  rawDataSize : UInt32
  rawDataPointer : UInt32
  characteristics : UInt32 := 0x60000020

structure BuildSpec where
  coffCharacteristics : UInt16 := 0x2022
  entryPoint : UInt32 := 0
  imageBase : UInt64 := 0x140000000
  sectionAlignment : UInt32 := 0x1000
  fileAlignment : UInt32 := 0x200
  sizeOfImage : UInt32 := 0x3000
  sizeOfHeaders : UInt32 := 0x1000
  directories : List (UInt32 × UInt32) := []
  sections : List SectionSpec := []
  body : ByteString := []

def zeros (n : ℕ) : ByteString := List.replicate n 0

def pushU16 (value : UInt16) : ByteString := toLE 2 value.toNat
def pushU32 (value : UInt32) : ByteString := toLE 4 value.toNat
def pushU64 (value : UInt64) : ByteString := toLE 8 value.toNat
def pushCstr (name : ByteString) : ByteString := name ++ [0]

def SectionSpec.encode (s : SectionSpec) : ByteString :=
  s.name ++ zeros (8 - s.name.length) ++ pushU32 s.virtualSize ++ pushU32 s.virtualAddress ++
    pushU32 s.rawDataSize ++ pushU32 s.rawDataPointer ++ zeros 12 ++ pushU32 s.characteristics

/-- The bytes of an image. -/
def build (spec : BuildSpec) : ByteString :=
  pushU16 kDosMagic ++ zeros 58 ++ pushU32 0x40 ++
  pushU32 kPeSignature ++ pushU16 kMachineAmd64 ++ toLE 2 spec.sections.length ++ zeros 12 ++
  toLE 2 (112 + 8 * spec.directories.length) ++ pushU16 spec.coffCharacteristics ++
  pushU16 kOptionalMagic64 ++ zeros 14 ++ pushU32 spec.entryPoint ++ zeros 4 ++
  pushU64 spec.imageBase ++ pushU32 spec.sectionAlignment ++ pushU32 spec.fileAlignment ++
  zeros 16 ++ pushU32 spec.sizeOfImage ++ pushU32 spec.sizeOfHeaders ++ zeros 44 ++
  toLE 4 spec.directories.length ++
  spec.directories.flatMap (fun d => pushU32 d.1 ++ pushU32 d.2) ++
  spec.sections.flatMap SectionSpec.encode ++ spec.body

/-! ### Imports -/

/-- The RVAs of the hint/name entries that begin at `rva`. -/
def hintRvas (rva : ℕ) : List ByteString → List ℕ
  | [] => []
  | symbol :: symbols => rva :: hintRvas (rva + (symbol.length + 3)) symbols

/-- The descriptor of a DLL, and its tables and names, which begin at `rva`. -/
def importBlock (rva : ℕ) (dll : ByteString) (symbols : List ByteString) :
    ByteString × ByteString :=
  let tableSize := 8 * (symbols.length + 1)
  let thunks := (hintRvas (rva + 2 * tableSize) symbols).flatMap (toLE 8) ++ zeros 8
  let hints := symbols.flatMap fun symbol => pushU16 0 ++ pushCstr symbol
  (toLE 4 rva ++ zeros 8 ++ toLE 4 (rva + 2 * tableSize + hints.length) ++
      toLE 4 (rva + tableSize),
    thunks ++ thunks ++ hints ++ pushCstr dll)

def importBlocks (rva : ℕ) : List (ByteString × List ByteString) → ByteString × ByteString
  | [] => (zeros kImportDescriptorSize, [])
  | (dll, symbols) :: dlls =>
    let block := importBlock rva dll symbols
    let blocks := importBlocks (rva + block.2.length) dlls
    (block.1 ++ blocks.1, block.2 ++ blocks.2)

/-- An import directory at `rva`: `make_import_data`. -/
def importData (rva : ℕ) (dlls : List (ByteString × List ByteString)) : ByteString :=
  let blocks := importBlocks (rva + kImportDescriptorSize * (dlls.length + 1)) dlls
  blocks.1 ++ blocks.2

/-! ### Exports -/

/-- What a name is exported as: the code at an RVA, or another export. -/
inductive ExportSpec
  | code (rva : ℕ)
  | forwarder (target : ByteString)

/-- The address table entry of an export whose text would begin at `rva`, and the text. -/
def ExportSpec.entry (rva : ℕ) : ExportSpec → ByteString × ByteString
  | .code target => (toLE 4 target, [])
  | .forwarder target => (toLE 4 rva, pushCstr target)

/-- The addresses, the names' RVAs, and the texts, which begin at `rva`. -/
def exportTables (rva : ℕ) : List (ByteString × ExportSpec) → ByteString × ByteString × ByteString
  | [] => ([], [], [])
  | (name, spec) :: exports =>
    let entry := spec.entry (rva + name.length + 1)
    let texts := pushCstr name ++ entry.2
    let tables := exportTables (rva + texts.length) exports
    (entry.1 ++ tables.1, toLE 4 rva ++ tables.2.1, texts ++ tables.2.2)

/-- An export directory at `rva`, all of it in the directory's own range. -/
def exportData (rva : ℕ) (exports : List (ByteString × ExportSpec)) : ByteString :=
  let n := exports.length
  let tables := exportTables (rva + kExportDirectorySize + 10 * n) exports
  zeros 16 ++ toLE 4 1 ++ toLE 4 n ++ toLE 4 n ++ toLE 4 (rva + kExportDirectorySize) ++
    toLE 4 (rva + kExportDirectorySize + 4 * n) ++ toLE 4 (rva + kExportDirectorySize + 8 * n) ++
    tables.1 ++ tables.2.1 ++ (List.range n).flatMap (toLE 2) ++ tables.2.2

/-- An image without sections that has the given tables, and nothing else. -/
def buildDll (exports : List (ByteString × ExportSpec))
    (imports : List (ByteString × List ByteString)) : ByteString :=
  let rva := 64 + 24 + 112 + 16
  let exportTable := if exports = [] then [] else exportData rva exports
  let importTable := if imports = [] then [] else importData (rva + exportTable.length) imports
  let directory (offset : ℕ) (table : ByteString) : UInt32 × UInt32 :=
    if table = [] then (0, 0) else (UInt32.ofNat offset, UInt32.ofNat table.length)
  build
    { directories := [directory rva exportTable, directory (rva + exportTable.length) importTable]
      body := exportTable ++ importTable }

/-! ### Functions -/

/-- A function and its unwind record; `tail` is what stands behind the codes. -/
structure FunctionSpec where
  beginRva : ℕ
  endRva : ℕ
  flags : UInt8 := 0
  prologSize : UInt8 := 0
  frame : UInt8 := 0
  codes : List (UInt8 × UInt8) := []
  tail : ByteString := []

/-- The record, with the codes as their two bytes, padded to four bytes. -/
def FunctionSpec.unwindInfo (f : FunctionSpec) : ByteString :=
  [1 + 8 * f.flags, f.prologSize, UInt8.ofNat f.codes.length, f.frame] ++
    f.codes.flatMap (fun code => [code.1, code.2]) ++ zeros (2 * (f.codes.length % 2)) ++ f.tail

/-- The function table, and the records, which begin at `rva`. -/
def functionTables (rva : ℕ) : List FunctionSpec → ByteString × ByteString
  | [] => ([], [])
  | f :: functions =>
    let tables := functionTables (rva + f.unwindInfo.length) functions
    (toLE 4 f.beginRva ++ toLE 4 f.endRva ++ toLE 4 rva ++ tables.1, f.unwindInfo ++ tables.2)

/-- An image without sections that has the given functions, and nothing else. -/
def buildFunctions (functions : List FunctionSpec) : ByteString :=
  let rva := 64 + 24 + 112 + 32
  let size := 12 * functions.length
  let tables := functionTables (rva + size) functions
  build
    { directories := [(0, 0), (0, 0), (0, 0), (UInt32.ofNat rva, UInt32.ofNat size)]
      body := tables.1 ++ tables.2 }

/-- A DLL with exports, a forwarder and imports. -/
def forwardingDll : ByteString :=
  buildDll
    [(text "Entry", .code 0x2000), (text "Exit", .forwarder (text "KERNEL32.ExitProcess"))]
    [(text "KERNEL32.dll", [text "GetStdHandle", text "WriteFile"]), (text "shim.dll", [text "f"])]

end TradutorLinux.Pe
