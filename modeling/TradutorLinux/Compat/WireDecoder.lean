import TradutorLinux.Compat.Rules
import TradutorLinux.Util.Iterate
import TradutorLinux.Util.TableWire

/-!
# The TLPR decoder

`decode_tlpr_v1` of `compat/rust_profile_parser.cpp`: it checks the wire, and
then the profile once more, by the rules of the C++ side.

## Main definitions

* `readStrings`
* `validateDecodedProfile`.
* `decodeWire` — the profile.
-/

namespace TradutorLinux.Compat

/-! ### Constants -/

def kWireMagic : ByteString := [0x54, 0x4C, 0x50, 0x52]
def kWireMajor : ℕ := 1
def kWireMinor : ℕ := 0
def kTableCount : ℕ := 4
def kInfoStride : ℕ := 96
def kFileStride : ℕ := 32
def kDllStride : ℕ := 32
def kInfoFlags : ℕ := 3

/-- The texts of the TLPR decoder. -/
def dialect : Dialect where
  code := errorWireFormat
  phase := phaseWire
  truncated := text "registro TLPR truncado"
  outsideBuffer := text "range TLPR fora do buffer"
  notZero := text "campo reservado TLPR nao esta zerado"
  badRef := text "referencia de string TLPR invalida"
  lostRef := text "referencia de string TLPR sem registro"
  outsideTable := text "registro TLPR fora da tabela"
  emptyDescriptor := text "descritor vazio TLPR nao esta zerado"
  badDescriptor := text "descritor TLPR invalido"
  variableOutside := text "tabela variavel TLPR fora do buffer"
  badInterval := text "intervalo TLPR invalido"
  overlap := text "tabelas TLPR sobrepostas"

def wireFault {α : Type} (offset detail : ℕ) (message : ByteString) : Except WireFault α :=
  .error ⟨errorWireFormat, phaseWire, offset, detail, message⟩

/-! ### Header and tables -/

def checkHeader (r : Reader) : Except WireFault ℕ :=
  if r.bytes.length < tableHeaderSize then
    wireFault r.bytes.length tableHeaderSize (text "buffer TLPR menor que o cabecalho")
  else if slice r.bytes 0 4 ≠ kWireMagic then wireFault 0 0 (text "magic TLPR invalido")
  else if !inRange r.bytes.length 4 2 ∨ !inRange r.bytes.length 6 2 then
    wireFault 4 2 (text "versao TLPR truncada")
  else
    let major := ofLE (slice r.bytes 4 2)
    let minor := ofLE (slice r.bytes 6 2)
    r.readWord 8 4 >>= fun headerSize =>
    r.readWord 12 8 >>= fun totalSize =>
    r.readWord 20 4 >>= fun tableCount =>
    r.readWord 24 4 >>= fun headerFlags =>
    r.readWord 28 4 >>= fun headerReserved =>
    if major ≠ kWireMajor ∨ minor ≠ kWireMinor ∨ headerSize ≠ tableHeaderSize ∨
        totalSize ≠ r.bytes.length ∨ totalSize > limitMaxSerializedBytes ∨
        tableCount ≠ kTableCount ∨ headerFlags ≠ 0 ∨ headerReserved ≠ 0 then
      wireFault 4 major (text "versao ou cabecalho TLPR invalido")
    else .ok totalSize

/-- The tables of a wire. -/
structure Tables where
  info : WireTable
  files : WireTable
  dlls : WireTable
  strings : WireTable
  stringsEnd : ℕ

/-- The descriptors, each with its checks. -/
def readTables (r : Reader) (totalSize : ℕ) : Except WireFault Tables :=
  r.readDescriptor 0 >>= fun info =>
  r.readDescriptor 1 >>= fun files =>
  r.readDescriptor 2 >>= fun dlls =>
  r.readDescriptor 3 >>= fun strings =>
  r.descriptorRange info kInfoStride 0 totalSize >>= fun infoEnd =>
  r.descriptorRange files kFileStride 0 totalSize >>= fun filesEnd =>
  r.descriptorRange dlls kDllStride 0 totalSize >>= fun dllsEnd =>
  r.descriptorRange strings 0 variableRecords totalSize >>= fun stringsEnd =>
  if info.count ≠ 1 ∨ files.count > limitMaxFiles ∨ dlls.count > limitMaxDlls ∨
      strings.count > limitMaxStrings then
    wireFault unknownOffset 0 (text "contagens TLPR invalidas")
  else
    r.rangesDoNotOverlap 0 [(info, infoEnd), (files, filesEnd), (dlls, dllsEnd),
      (strings, stringsEnd)] >>= fun _ =>
      .ok ⟨info, files, dlls, strings, stringsEnd⟩

/-! ### The string table -/

/-- The string records from `cursor` on, in front of which `total` bytes of
strings were read; the cursor and the total behind them. -/
def readStrings (r : Reader) (stop : ℕ) :
    ℕ → ℕ → ℕ → Except WireFault (List StringRef × ℕ × ℕ)
  | total, cursor, 0 => .ok ([], cursor, total)
  | total, cursor, remaining + 1 =>
    r.readWord cursor 4 >>= fun length =>
    r.readWord (cursor + 4) 4 >>= fun reserved =>
    if reserved ≠ 0 ∨ length = 0 ∨ length > limitMaxStringBytes then
      wireFault cursor length (text "registro de string TLPR invalido")
    else
      let dataOffset := cursor + 8
      let recordEnd := dataOffset + length
      let next := pad8 recordEnd
      if dataOffset > wordMax ∨ recordEnd > wordMax ∨ recordEnd > wordMax - 7 ∨ next > stop ∨
          !inRange stop dataOffset length then
        wireFault cursor length (text "registro de string TLPR excede a tabela")
      else
        r.zeroRange recordEnd (next - recordEnd) >>= fun _ =>
        if length > limitMaxStringBytes - total then
          wireFault cursor length (text "tabela de strings TLPR excede o limite")
        else
          readStrings r stop (total + length) next remaining >>= fun rest =>
            .ok (⟨dataOffset, length⟩ :: rest.1, rest.2)

/-- The string table: its records end where the buffer does. -/
def readStringTable (r : Reader) (table : WireTable) (stop : ℕ) :
    Except WireFault (List StringRef) :=
  if table.count = 0 then .ok []
  else
    readStrings r stop 0 table.offset table.count >>= fun (strings, cursor, total) =>
    if cursor ≠ stop ∨ total > limitMaxStringBytes then
      wireFault cursor stop (text "tabela de strings TLPR possui bytes extras")
    else .ok strings

/-! ### The records -/

/-- The info record, as far as it tells the identity and the backend. -/
def readInfo (r : Reader) (tables : Tables) (strings : List StringRef) :
    Except WireFault Profile :=
  r.fixedRecord tables.info 0 >>= fun record =>
  r.readWord record 4 >>= fun schema =>
  r.readWord (record + 4) 4 >>= fun backend =>
  r.readWord (record + 8) 4 >>= fun flags =>
  r.readWord (record + 12) 4 >>= fun reserved =>
  if (schema ≠ 1 ∧ schema ≠ 2 ∧ schema ≠ 3 ∧ schema ≠ 4) ∨
      (backend ≠ wireBackendNative ∧ backend ≠ wireBackendProton) ∨
      flags &&& (u32Max - kInfoFlags) ≠ 0 ∨ reserved ≠ 0 then
    wireFault record schema (text "registro info TLPR invalido")
  else
    let kind := if backend = wireBackendProton then BackendKind.proton else .native
    let backendDeclared := decide (flags &&& 1 ≠ 0)
    r.readRef strings (record + 16) >>= fun appId =>
    r.readRef strings (record + 32) >>= fun appSha256 =>
    r.readRef strings (record + 48) >>= fun appVersion =>
    r.readRef strings (record + 64) >>= fun minVersion =>
    r.readRef strings (record + 80) >>= fun extension =>
    if (schema = 1 ∧ tables.dlls.count ≠ 0) ∨
        (schema ≠ 3 ∧ schema ≠ 4 ∧ backendDeclared = true) ∨
        (schema ≠ 4 ∧ extension ≠ []) ∨ (kind = .native ∧ minVersion ≠ []) then
      wireFault record schema (text "combinacao de schema TLPR invalida")
    else
      let extensionDeclared := decide (flags &&& 2 ≠ 0)
      if extensionDeclared ≠ decide (extension ≠ []) then
        wireFault record schema (text "campo extension TLPR inconsistente")
      else
        .ok
          { schema := schema
            appId := appId
            appSha256 := appSha256
            appVersion := appVersion
            extension := extension
            backend := { kind := kind, minVersion := minVersion }
            backendDeclared := backendDeclared
            extensionDeclared := extensionDeclared }

/-- A record of two references. -/
def readPair {α : Type} (r : Reader) (table : WireTable) (strings : List StringRef)
    (make : ByteString → ByteString → α) (index : ℕ) : Except WireFault α :=
  r.fixedRecord table index >>= fun record =>
  r.readRef strings record >>= fun first =>
  r.readRef strings (record + 16) >>= fun second => .ok (make first second)

/-! ### The rules once more -/

/-- `normalized_dll_module`. -/
def normalizedDllModule (value : ByteString) : Bool :=
  !(value.isEmpty || decide (value.length > 255) || value == [0x2E, 0x64, 0x6C, 0x6C] ||
      !([0x2E, 0x64, 0x6C, 0x6C] : ByteString).isSuffixOf value) &&
    value.all fun byte => (0x61 ≤ byte && byte ≤ 0x7A) || isDigit byte || byte == 0x2D ||
      byte == 0x5F || byte == 0x2E

/-- A mapping of `dlls`, against those before it. -/
def checkDecodedDll (seen : List DllMapping) (mapping : DllMapping) :
    Except WireFault DllMapping :=
  if !normalizedDllModule mapping.moduleName ∨ !isRelativeSource mapping.source ∨
      mapping.source.contains 0 ∨
      seen.any (fun previous => previous.moduleName == mapping.moduleName) then
    wireFault tableHeaderSize seen.length (text "mapeamento de DLL TLPR invalido")
  else .ok mapping

/-- A mapping of `files`, against those before it. -/
def checkDecodedFile (seen : List FileMapping) (mapping : FileMapping) :
    Except WireFault FileMapping :=
  if !isRelativeSource mapping.source ∨ mapping.source.contains 0 ∨ mapping.target.contains 0 ∨
      !isCDrivePathLexicallyConfined mapping.target ∨ !hasTargetFilename mapping.target then
    wireFault tableHeaderSize seen.length (text "mapeamento de arquivo TLPR invalido")
  else if seen.any fun previous => decide (PosixPath.Same previous.source mapping.source) ||
      sameTarget previous.target mapping.target then
    wireFault tableHeaderSize seen.length (text "mapeamento de arquivo TLPR duplicado")
  else .ok mapping

/-- `validate_decoded_profile`. -/
def validateDecodedProfile (profile : Profile) : Except WireFault Unit :=
  if !isSafeAppId profile.appId ∨
      (profile.appSha256 ≠ [] ∧ !isHexString profile.appSha256 64) ∨
      (profile.appVersion ≠ [] ∧ !isValidVersion profile.appVersion) ∨
      (profile.extensionDeclared ∧ !isSafeAppId profile.extension) ∨
      (profile.schema = 1 ∧ profile.dlls ≠ []) ∨
      (profile.schema ≠ 3 ∧ profile.schema ≠ 4 ∧ profile.backendDeclared) ∨
      (profile.schema ≠ 4 ∧ profile.extensionDeclared) ∨
      (profile.backend.kind = .native ∧ profile.backend.minVersion ≠ []) ∨
      (profile.backend.kind = .proton ∧ profile.backend.minVersion ≠ [] ∧
        !isValidBackendMinVersion profile.backend.minVersion) then
    wireFault tableHeaderSize profile.schema (text "modelo de perfil TLPR invalido")
  else
    eachAgainst checkDecodedDll [] profile.dlls >>= fun _ =>
    eachAgainst checkDecodedFile [] profile.files >>= fun _ => .ok ()

/-- `decode_wire_impl`. -/
def decodeWire (wire : ByteString) : Except WireFault Profile :=
  let r : Reader := ⟨dialect, wire⟩
  checkHeader r >>= fun totalSize =>
  readTables r totalSize >>= fun tables =>
  readStringTable r tables.strings tables.stringsEnd >>= fun strings =>
  readInfo r tables strings >>= fun info =>
  collect (readPair r tables.files strings FileMapping.mk) 0 tables.files.count >>= fun files =>
  collect (readPair r tables.dlls strings DllMapping.mk) 0 tables.dlls.count >>= fun dlls =>
  let profile := { info with files := files, dlls := dlls }
  validateDecodedProfile profile >>= fun _ => .ok profile

end TradutorLinux.Compat
