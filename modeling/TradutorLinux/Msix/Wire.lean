import TradutorLinux.Util.TableWire

/-!
# The TLMS wire

How the Rust manifest parser hands a package over: `plan_wire` interns the
strings and lays the tables out, `write_wire` fills a buffer with them.

The strings of a package are in memory, so the checked sums of the planner
cannot leave 64 bits; the limits it tests are tested here.

## Main definitions

* `PackageModel` — what the parser returns.
* `planWire`, `writeWire`.
-/

namespace TradutorLinux.Msix

open StringPool

/-! ### Constants of the contract -/

def statusMalformed : ℕ := 2
def statusOutputTooLarge : ℕ := 8
def errorOutputTooLarge : ℕ := 4
def errorManifest : ℕ := 27
def phaseManifest : ℕ := 7
def phaseSerialize : ℕ := 8
def unknownOffset : ℕ := 0xFFFFFFFFFFFFFFFF
def wireMagic : ByteString := text "TLMS"
def wireMajor : ℕ := 1
def wireMinor : ℕ := 0
def wireTableCount : ℕ := 4
def wireInfoStride : ℕ := 64
def wireApplicationStride : ℕ := 64
def limitMaxZipEntries : ℕ := 10000
def limitMaxSerializedBytes : ℕ := 67108864
def u32Max : ℕ := 0xFFFFFFFF

/-! ### The model -/

/-- `ApplicationModel`. -/
structure ApplicationModel where
  id : ByteString
  executable : ByteString
  displayName : ByteString
  entryPoint : ByteString
deriving DecidableEq

/-- `PackageModel`. -/
structure PackageModel where
  packageName : ByteString := []
  publisher : ByteString := []
  version : ByteString := []
  mainExecutable : Option ByteString := none
  applications : List ApplicationModel := []
deriving DecidableEq

/-- `Failure`. -/
structure Failure where
  status : ℕ
  code : ℕ
  phase : ℕ
  inputOffset : ℕ
  detailValue : ℕ
  message : ByteString
deriving DecidableEq

def PackageModel.infoStrings (model : PackageModel) : List ByteString :=
  [model.packageName, model.publisher, model.version, model.mainExecutable.getD []]

def ApplicationModel.strings (application : ApplicationModel) : List ByteString :=
  [application.id, application.executable, application.displayName, application.entryPoint]

/-! ### The plan -/

/-- `WirePlan`. -/
structure WirePlan where
  totalSize : ℕ
  infoOffset : ℕ
  applicationsOffset : ℕ
  stringsOffset : ℕ
  infoRefs : List StringRef
  applicationRefs : List (List StringRef)
  stringValues : List ByteString
  stringRefs : List StringRef

/-- The failures of the planner that a size is to blame for. -/
def outputTooLarge (detail : ℕ) (message : ByteString) : Except Failure WirePlan :=
  .error ⟨statusOutputTooLarge, errorOutputTooLarge, phaseSerialize, unknownOffset, detail, message⟩

/-- `plan_wire`. -/
def planWire (model : PackageModel) : Except Failure WirePlan :=
  if model.applications.length > limitMaxZipEntries then
    .error ⟨statusMalformed, errorManifest, phaseManifest, unknownOffset,
      model.applications.length, text "quantidade de aplicacoes excede o limite"⟩
  else
    let info := internAll [] model.infoStrings
    let applications := internRows info.1 (model.applications.map ApplicationModel.strings)
    let pool := applications.1
    let infoOffset := tableHeaderSize
    let table := placeTable (infoOffset + wireInfoStride) applications.2.length
      wireApplicationStride
    let strings := placeStrings table.2 pool
    match pool.find? fun value => decide (value.length > u32Max) with
    | some value => outputTooLarge value.length (text "string TLMS excede o limite de tamanho")
    | none =>
      if strings.2 > limitMaxSerializedBytes then
        outputTooLarge strings.2 (text "resultado TLMS excede o limite de saida")
      else
        let refs := stringRefs strings.1 pool
        .ok
          { totalSize := strings.2
            infoOffset := infoOffset
            applicationsOffset := table.1
            stringsOffset := strings.1
            infoRefs := info.2.map fun index => refFor index refs
            applicationRefs := applications.2.map fun indexes =>
              indexes.map fun index => refFor index refs
            stringValues := pool
            stringRefs := refs }

/-! ### The writes -/

def headerRecord (plan : WirePlan) : Record where
  offset := 0
  size := tableDescriptorOffset
  fields := [(0, wireMagic), (4, toLE 2 wireMajor), (6, toLE 2 wireMinor),
    (8, toLE 4 tableHeaderSize), (12, toLE 8 plan.totalSize), (20, toLE 4 wireTableCount)]

/-- The three calls of `write_descriptor`: the reserved table is left as it is. -/
def descriptors (plan : WirePlan) : List WireTable :=
  [ ⟨plan.infoOffset, 1, wireInfoStride, 0⟩,
    ⟨plan.applicationsOffset, plan.applicationRefs.length, wireApplicationStride, 0⟩,
    ⟨plan.stringsOffset, plan.stringValues.length, 0,
      if plan.stringValues = [] then 0 else variableRecords⟩ ]

def infoRecord (plan : WirePlan) : Record where
  offset := plan.infoOffset
  size := wireInfoStride
  fields := refFields 0 plan.infoRefs

def applicationRecords (plan : WirePlan) : List Record :=
  if plan.applicationsOffset ≠ 0 then
    rowRecords wireApplicationStride plan.applicationsOffset
      (plan.applicationRefs.map (refFields 0))
  else []

/-- Everything `write_wire` writes, in order. -/
def wireRecords (plan : WirePlan) : List Record :=
  headerRecord plan :: (descriptors plan).mapIdx descriptorRecord ++
    infoRecord plan :: applicationRecords plan ++
    stringRecords plan.stringsOffset plan.stringValues

/-- `write_wire`: zeros in the first `total_size` bytes, and then the writes. -/
def writeWire (output : ByteString) (plan : WirePlan) : ByteString :=
  putRecords (wireRecords plan)
    (List.replicate plan.totalSize 0 ++ output.drop plan.totalSize)

end TradutorLinux.Msix
