import TradutorLinux.Util.TableWire

/-!
# The TLMS decoder

`decode_tlms_v1` of `package/rust_msix_parser.cpp`, which trusts nothing of what
the Rust side has written.  The text of a failure goes into an empty message, as
it does for the adapter that calls it.

## Main definitions

* `readStrings`
* `decodeWire` — the package.
-/

namespace TradutorLinux.Msix

/-! ### Types -/

/-- `AppxApplication`. -/
structure AppxApplication where
  id : ByteString
  executable : ByteString
  displayName : ByteString
  entryPoint : ByteString
deriving DecidableEq

/-- `AppxPackageInfo`. -/
structure AppxPackageInfo where
  packageName : ByteString := []
  publisher : ByteString := []
  version : ByteString := []
  applications : List AppxApplication := []
  mainExecutable : Option ByteString := none
deriving DecidableEq

/-! ### Constants -/

def kErrorWireFormat : ℕ := 28
def kPhaseWire : ℕ := 9
def kUnknownOffset : ℕ := 0xFFFFFFFFFFFFFFFF
def kWireMagic : ByteString := [0x54, 0x4C, 0x4D, 0x53]
def kWireMajor : ℕ := 1
def kWireMinor : ℕ := 0
def kTableCount : ℕ := 4
def kInfoStride : ℕ := 64
def kApplicationStride : ℕ := 64
def kLimitMaxZipEntries : ℕ := 10000
def kLimitMaxStrings : ℕ := 50000
def kLimitMaxSerializedBytes : ℕ := 67108864

/-- The texts of the TLMS decoder. -/
def dialect : Dialect where
  code := kErrorWireFormat
  phase := kPhaseWire
  truncated := text "registro TLMS truncado"
  outsideBuffer := text "range TLMS fora do buffer"
  notZero := text "campo reservado TLMS não está zerado"
  badRef := text "referência de string TLMS inválida"
  lostRef := text "referência de string TLMS não aponta para registro"
  outsideTable := text "registro TLMS fora da tabela"
  emptyDescriptor := text "descritor vazio TLMS não está zerado"
  badDescriptor := text "descritor TLMS inválido"
  variableOutside := text "tabela variável TLMS fora do buffer"
  badInterval := text "intervalo TLMS inválido"
  overlap := text "tabelas TLMS sobrepostas"

/-- A failure that is set without the decoder. -/
def wireFault {α : Type} (offset detail : ℕ) (message : ByteString) : Except WireFault α :=
  .error ⟨kErrorWireFormat, kPhaseWire, offset, detail, message⟩

/-! ### The string table -/

/-- A word of a string record: the text of the failure is that of the record. -/
def readStringWord (r : Reader) (offset : ℕ) : Except WireFault ℕ :=
  match r.readWord offset 4 with
  | .ok value => .ok value
  | .error fault => .error { fault with message := text "registro de string TLMS inválido" }

/-- The string records from `cursor` on, and the cursor behind them. -/
def readStrings (r : Reader) (stop : ℕ) : ℕ → ℕ → Except WireFault (List StringRef × ℕ)
  | cursor, 0 => .ok ([], cursor)
  | cursor, remaining + 1 =>
    readStringWord r cursor >>= fun length =>
    readStringWord r (cursor + 4) >>= fun reserved =>
    if reserved ≠ 0 then
      wireFault (cursor + 4) reserved (text "registro de string TLMS inválido")
    else if length = 0 then wireFault cursor 0 (text "registro de string TLMS vazio")
    else
      let dataOffset := cursor + 8
      let recordEnd := dataOffset + length
      let next := pad8 recordEnd
      if dataOffset > wordMax ∨ !inRange stop dataOffset length then
        wireFault kUnknownOffset 0 []
      else if recordEnd > wordMax ∨ recordEnd > wordMax - 7 ∨ next > stop then
        wireFault kUnknownOffset 0 (text "registro de string TLMS excede a tabela")
      else
        r.zeroRange recordEnd (next - recordEnd) >>= fun _ =>
        readStrings r stop next remaining >>= fun rest =>
          .ok (⟨dataOffset, length⟩ :: rest.1, rest.2)

/-- The string table: its records end where the buffer does. -/
def readStringTable (r : Reader) (table : WireTable) (stop : ℕ) :
    Except WireFault (List StringRef) :=
  if table.count = 0 then .ok []
  else
    readStrings r stop table.offset table.count >>= fun (strings, cursor) =>
    if cursor ≠ stop then
      wireFault cursor stop (text "tabela de strings TLMS possui bytes extras")
    else .ok strings

/-! ### The decoder -/

def checkHeader (r : Reader) : Except WireFault ℕ :=
  if r.bytes.length < tableHeaderSize then
    wireFault r.bytes.length tableHeaderSize (text "buffer TLMS menor que o cabeçalho")
  else if slice r.bytes 0 4 ≠ kWireMagic then wireFault 0 0 (text "magic TLMS inválido")
  else
    r.readWord 4 2 >>= fun major =>
    r.readWord 6 2 >>= fun minor =>
    r.readWord 8 4 >>= fun headerSize =>
    r.readWord 12 8 >>= fun totalSize =>
    r.readWord 20 4 >>= fun tableCount =>
    r.readWord 24 4 >>= fun headerFlags =>
    r.readWord 28 4 >>= fun headerReserved =>
    if major ≠ kWireMajor ∨ minor ≠ kWireMinor ∨ headerSize ≠ tableHeaderSize ∨
        totalSize ≠ r.bytes.length ∨ totalSize > kLimitMaxSerializedBytes ∨
        tableCount ≠ kTableCount ∨ headerFlags ≠ 0 ∨ headerReserved ≠ 0 then
      wireFault 4 major (text "versão ou cabeçalho TLMS inválido")
    else .ok totalSize

/-- The tables of a wire. -/
structure Tables where
  info : WireTable
  applications : WireTable
  strings : WireTable
  stringsEnd : ℕ

/-- The descriptors, each with its checks. -/
def readTables (r : Reader) (totalSize : ℕ) : Except WireFault Tables :=
  r.readDescriptor 0 >>= fun info =>
  r.readDescriptor 1 >>= fun applications =>
  r.readDescriptor 2 >>= fun strings =>
  r.readDescriptor 3 >>= fun reserved =>
  r.descriptorRange info kInfoStride 0 totalSize >>= fun infoEnd =>
  r.descriptorRange applications kApplicationStride 0 totalSize >>= fun applicationsEnd =>
  r.descriptorRange strings 0 variableRecords totalSize >>= fun stringsEnd =>
  r.descriptorRange reserved 0 0 totalSize >>= fun reservedEnd =>
  if info.count ≠ 1 ∨ applications.count > kLimitMaxZipEntries ∨
      strings.count > kLimitMaxStrings ∨ reserved.count ≠ 0 then
    wireFault kUnknownOffset 0 (text "contagens TLMS inválidas")
  else
    r.rangesDoNotOverlap 0 [(info, infoEnd), (applications, applicationsEnd),
      (strings, stringsEnd), (reserved, reservedEnd)] >>= fun _ =>
      .ok ⟨info, applications, strings, stringsEnd⟩

def readApplication (r : Reader) (table : WireTable) (strings : List StringRef) (index : ℕ) :
    Except WireFault AppxApplication :=
  r.fixedRecord table index >>= fun record =>
  r.readRef strings record >>= fun id =>
  r.readRef strings (record + 16) >>= fun executable =>
  r.readRef strings (record + 32) >>= fun displayName =>
  r.readRef strings (record + 48) >>= fun entryPoint =>
    .ok ⟨id, executable, displayName, entryPoint⟩

/-- `decode_tlms_v1`. -/
def decodeWire (wire : ByteString) : Except WireFault AppxPackageInfo :=
  let r : Reader := ⟨dialect, wire⟩
  checkHeader r >>= fun totalSize =>
  readTables r totalSize >>= fun tables =>
  readStringTable r tables.strings tables.stringsEnd >>= fun strings =>
  r.fixedRecord tables.info 0 >>= fun infoRecord =>
  r.readRef strings infoRecord >>= fun packageName =>
  r.readRef strings (infoRecord + 16) >>= fun publisher =>
  r.readRef strings (infoRecord + 32) >>= fun version =>
  r.readRef strings (infoRecord + 48) >>= fun mainExecutable =>
  collect (fun index => readApplication r tables.applications strings index) 0
      tables.applications.count >>= fun applications =>
    .ok
      { packageName := packageName
        publisher := publisher
        version := version
        applications := applications
        mainExecutable := if mainExecutable = [] then none else some mainExecutable }

end TradutorLinux.Msix
