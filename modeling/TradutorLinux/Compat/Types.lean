import TradutorLinux.Util.Agree
import TradutorLinux.Util.Bytes

/-!
# Compatibility profiles

The profile of an application as the Rust parser and as the C++ side have it.  A
`std::filesystem::path` is its native string: what compares paths says so.

## Main definitions

* `ProfileModel`
* `Profile` — what the runtime works with.
-/

namespace TradutorLinux.Compat

/-! ### Constants of the contract -/

def statusMalformed : ℕ := 1
def statusUnsupportedFormat : ℕ := 2
def statusInvalidArgument : ℕ := 3
def statusBufferTooSmall : ℕ := 4
def statusInputTooLarge : ℕ := 5
def statusOutputTooLarge : ℕ := 6
def statusInternal : ℕ := 7

def errorInputTooLarge : ℕ := 3
def errorOutputTooLarge : ℕ := 4
def errorInternal : ℕ := 5
def errorJsonSyntax : ℕ := 16
def errorSchema : ℕ := 18
def errorIdentity : ℕ := 19
def errorPath : ℕ := 20
def errorBackend : ℕ := 21
def errorWireFormat : ℕ := 22

def phaseNone : ℕ := 0
def phaseInput : ℕ := 1
def phaseJson : ℕ := 2
def phaseSchema : ℕ := 3
def phaseIdentity : ℕ := 4
def phasePaths : ℕ := 5
def phaseSerialize : ℕ := 6
def phaseWire : ℕ := 7

def unknownOffset : ℕ := 0xFFFFFFFFFFFFFFFF
def u32Max : ℕ := 0xFFFFFFFF

def limitMaxInputBytes : ℕ := 1048576
def limitMaxFiles : ℕ := 65535
def limitMaxDlls : ℕ := 65535
def limitMaxStrings : ℕ := 262144
def limitMaxStringBytes : ℕ := 1048576
def limitMaxSerializedBytes : ℕ := 67108864

def wireBackendNative : ℕ := 0
def wireBackendProton : ℕ := 1

/-! ### Types -/

/-- `FileMapping`. -/
structure FileMapping where
  source : ByteString
  target : ByteString
deriving DecidableEq

/-- `DllMapping`. -/
structure DllMapping where
  moduleName : ByteString
  source : ByteString
deriving DecidableEq

/-- `ProfileModel` of the Rust parser. -/
structure ProfileModel where
  schema : ℕ := 0
  appId : ByteString := []
  appSha256 : ByteString := []
  appVersion : ByteString := []
  extension : ByteString := []
  files : List FileMapping := []
  dlls : List DllMapping := []
  backendKind : ℕ := wireBackendNative
  backendDeclared : Bool := false
  minVersion : ByteString := []
deriving DecidableEq

/-- `BackendKind`. -/
inductive BackendKind
  | native
  | proton
deriving DecidableEq

/-- `BackendSelection`. -/
structure BackendSelection where
  kind : BackendKind := .native
  minVersion : ByteString := []
deriving DecidableEq

/-- `Profile`. -/
structure Profile where
  schema : ℕ := 0
  appId : ByteString := []
  appSha256 : ByteString := []
  appVersion : ByteString := []
  extension : ByteString := []
  files : List FileMapping := []
  dlls : List DllMapping := []
  backend : BackendSelection := {}
  backendDeclared : Bool := false
  extensionDeclared : Bool := false
deriving DecidableEq

/-- The kind that a word of the contract stands for. -/
def backendKindOf (kind : ℕ) : BackendKind :=
  if kind = wireBackendProton then .proton else .native

/-- The profile of a model, field by field; an extension is declared when there is one. -/
def ProfileModel.toProfile (model : ProfileModel) : Profile where
  schema := model.schema
  appId := model.appId
  appSha256 := model.appSha256
  appVersion := model.appVersion
  extension := model.extension
  files := model.files
  dlls := model.dlls
  backend := { kind := backendKindOf model.backendKind, minVersion := model.minVersion }
  backendDeclared := model.backendDeclared
  extensionDeclared := decide (model.extension ≠ [])

/-- `Failure` of the Rust parser. -/
structure Failure where
  status : ℕ
  code : ℕ
  phase : ℕ
  inputOffset : ℕ
  detailValue : ℕ
  message : ByteString
deriving DecidableEq

/-- `Failure::malformed`. -/
def malformed (phase offset : ℕ) (message : ByteString) : Failure where
  status := statusMalformed
  code :=
    if phase = phaseSchema then errorSchema
    else if phase = phaseIdentity then errorIdentity
    else if phase = phasePaths then errorPath
    else errorJsonSyntax
  phase := phase
  inputOffset := offset
  detailValue := 0
  message := message

/-- `is_ascii_digit`, `std::isdigit`. -/
def isDigit (byte : UInt8) : Bool := 0x30 ≤ byte && byte ≤ 0x39

/-- `is_ascii_alphanumeric`, `std::isalnum` in the C locale. -/
def isAlnum (byte : UInt8) : Bool :=
  isDigit byte || (0x41 ≤ byte && byte ≤ 0x5A) || (0x61 ≤ byte && byte ≤ 0x7A)

/-- `is_ascii_hexdigit`, `std::isxdigit` in the C locale. -/
def isHexDigit (byte : UInt8) : Bool :=
  isDigit byte || (0x41 ≤ byte && byte ≤ 0x46) || (0x61 ≤ byte && byte ≤ 0x66)

/-- The bytes of names: letters, digits, `-`, `_` and `.`. -/
def isNameByte (byte : UInt8) : Bool :=
  isAlnum byte || byte == 0x2D || byte == 0x5F || byte == 0x2E

/-- `..` occurs in the string. -/
def hasDots : ByteString → Bool
  | [] => false
  | byte :: rest => (byte == 0x2E && rest.head? == some 0x2E) || hasDots rest

end TradutorLinux.Compat
