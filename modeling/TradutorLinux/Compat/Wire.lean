import TradutorLinux.Compat.Types
import TradutorLinux.Util.TableWire

/-!
# The TLPR wire

How the Rust profile parser hands a profile over: `serialize` interns the
strings, lays the tables out and fills a buffer with them.

The strings of a profile are in memory, so the checked sums of the layout cannot
leave 64 bits; the two limits it tests are tested here.

## Main definitions

* `WirePlan`, `planWire` — what `serialize` has settled before it writes.
* `serialize`.
-/

namespace TradutorLinux.Compat

open StringPool

/-! ### Constants of the contract -/

def wireMagic : ByteString := [0x54, 0x4C, 0x50, 0x52]
def wireMajor : ℕ := 1
def wireMinor : ℕ := 0
def wireTableCount : ℕ := 4
def wireInfoStride : ℕ := 96
def wireFileStride : ℕ := 32
def wireDllStride : ℕ := 32
def wireInfoFlagBackendDeclared : ℕ := 1
def wireInfoFlagExtensionDeclared : ℕ := 2

/-! ### The layout -/

/-- The strings of the info record, in the order in which they are interned. -/
def ProfileModel.infoStrings (profile : ProfileModel) : List ByteString :=
  [profile.appId, profile.appSha256, profile.appVersion, profile.minVersion, profile.extension]

def FileMapping.strings (mapping : FileMapping) : List ByteString :=
  [mapping.source, mapping.target]

def DllMapping.strings (mapping : DllMapping) : List ByteString :=
  [mapping.moduleName, mapping.source]

def ProfileModel.infoFlags (profile : ProfileModel) : ℕ :=
  (if profile.backendDeclared then wireInfoFlagBackendDeclared else 0) |||
    (if profile.extension ≠ [] then wireInfoFlagExtensionDeclared else 0)

/-- The offsets, the references and the strings. -/
structure WirePlan where
  totalSize : ℕ
  filesOffset : ℕ
  dllsOffset : ℕ
  stringsOffset : ℕ
  infoRefs : List StringRef
  fileRefs : List (List StringRef)
  dllRefs : List (List StringRef)
  stringValues : List ByteString

/-- The layout of a profile. -/
def planWire (profile : ProfileModel) : WirePlan :=
  let info := internAll [] profile.infoStrings
  let files := internRows info.1 (profile.files.map FileMapping.strings)
  let dlls := internRows files.1 (profile.dlls.map DllMapping.strings)
  let pool := dlls.1
  let fileTable := placeTable (tableHeaderSize + wireInfoStride) files.2.length wireFileStride
  let dllTable := placeTable fileTable.2 dlls.2.length wireDllStride
  let strings := placeStrings dllTable.2 pool
  let refs := stringRefs strings.1 pool
  let refRow := fun row : List (Option ℕ) => row.map fun index => refFor index refs
  { totalSize := strings.2
    filesOffset := fileTable.1
    dllsOffset := dllTable.1
    stringsOffset := strings.1
    infoRefs := refRow info.2
    fileRefs := files.2.map refRow
    dllRefs := dlls.2.map refRow
    stringValues := pool }

/-! ### The writes -/

def headerRecord (plan : WirePlan) : Record where
  offset := 0
  size := tableDescriptorOffset
  fields := [(0, wireMagic), (4, toLE 2 wireMajor), (6, toLE 2 wireMinor),
    (8, toLE 4 tableHeaderSize), (12, toLE 8 plan.totalSize), (20, toLE 4 wireTableCount)]

/-- The tables, as `descriptor` is called for them. -/
def WirePlan.infoTable : WireTable := ⟨tableHeaderSize, 1, wireInfoStride, 0⟩

def WirePlan.fileTable (plan : WirePlan) : WireTable :=
  ⟨plan.filesOffset, plan.fileRefs.length, wireFileStride, 0⟩

def WirePlan.dllTable (plan : WirePlan) : WireTable :=
  ⟨plan.dllsOffset, plan.dllRefs.length, wireDllStride, 0⟩

def WirePlan.stringTable (plan : WirePlan) : WireTable :=
  ⟨plan.stringsOffset, plan.stringValues.length, 0, variableRecords⟩

def WirePlan.tables (plan : WirePlan) : List WireTable :=
  [WirePlan.infoTable, plan.fileTable, plan.dllTable, plan.stringTable]

def infoRecord (profile : ProfileModel) (plan : WirePlan) : Record where
  offset := tableHeaderSize
  size := wireInfoStride
  fields := [(0, toLE 4 profile.schema), (4, toLE 4 profile.backendKind),
    (8, toLE 4 profile.infoFlags)] ++ refFields 16 plan.infoRefs

/-- Everything `serialize` writes, in order. -/
def wireRecords (profile : ProfileModel) (plan : WirePlan) : List Record :=
  headerRecord plan :: descriptorWrites 0 plan.tables ++ infoRecord profile plan ::
    rowRecords wireFileStride plan.filesOffset (plan.fileRefs.map (refFields 0)) ++
    rowRecords wireDllStride plan.dllsOffset (plan.dllRefs.map (refFields 0)) ++
    stringRecords plan.stringsOffset plan.stringValues

/-- `serialize`.  The pool fails at the first string too many, whichever that is. -/
def serialize (profile : ProfileModel) : Except Failure ByteString :=
  let plan := planWire profile
  if plan.stringValues.length > limitMaxStrings then
    .error ⟨statusOutputTooLarge, errorOutputTooLarge, phaseSerialize, unknownOffset,
      limitMaxStrings, text "quantidade de strings excede o limite"⟩
  else if plan.totalSize > limitMaxSerializedBytes then
    .error ⟨statusOutputTooLarge, errorOutputTooLarge, phaseSerialize, unknownOffset,
      plan.totalSize, text "saida TLPR excede o limite"⟩
  else .ok (putRecords (wireRecords profile plan) (List.replicate plan.totalSize 0))

end TradutorLinux.Compat
