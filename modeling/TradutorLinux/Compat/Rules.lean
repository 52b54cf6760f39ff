import TradutorLinux.Compat.Types
import TradutorLinux.Util.Basics
import TradutorLinux.Util.Paths

/-!
# The rules of the C++ side

What `compat/path_rules.cpp` says of paths, and the tests of identifiers of
which `profile.cpp` and `rust_profile_parser.cpp` have a copy each.

## Main definitions

* `isRelativeSource`, `isCDrivePathLexicallyConfined`, `sameTarget`.
* `isSafeAppId`, `isHexString`, `isValidVersion`, `isValidBackendMinVersion`.
-/

namespace TradutorLinux.Compat

/-! ### Identifiers -/

/-- `is_safe_app_id`. -/
def isSafeAppId (value : ByteString) : Bool :=
  !(value.isEmpty || decide (value.length > 128) || hasDots value) && value.all isNameByte

/-- `is_hex_string`. -/
def isHexString (value : ByteString) (length : ℕ) : Bool :=
  decide (value.length = length) && value.all isHexDigit

/-- `is_valid_version`. -/
def isValidVersion (value : ByteString) : Bool :=
  !(value.isEmpty || decide (value.length > 128)) && value.all fun byte => !decide (byte < 0x20)

/-- The loop of `is_valid_backend_min_version`. -/
def minVersionLoop (digitSeen componentDigitSeen : Bool) (components : ℕ) : ByteString → Bool
  | [] => digitSeen && componentDigitSeen && decide (1 ≤ components) && decide (components ≤ 2)
  | byte :: rest =>
    if isDigit byte then minVersionLoop true true components rest
    else if byte = 0x2E then
      if !componentDigitSeen then false else minVersionLoop digitSeen false (components + 1) rest
    else false

/-- `is_valid_backend_min_version`. -/
def isValidBackendMinVersion (value : ByteString) : Bool :=
  if value.isEmpty || decide (value.length > 64) then false else minVersionLoop false false 0 value

/-! ### Paths -/

/-- `is_relative_source`. -/
def isRelativeSource (source : ByteString) : Bool :=
  !(source.isEmpty || PosixPath.isAbsolute source) &&
    (PosixPath.elements source).all (fun component => component != [0x2E] &&
      component != [0x2E, 0x2E]) &&
    !source.contains 0x5C

/-- `/` or `\`. -/
def isSeparator (byte : UInt8) : Bool := byte == 0x2F || byte == 0x5C

/-- `is_c_drive_target`. -/
def isCDriveTarget (target : ByteString) : Bool :=
  match target with
  | drive :: colon :: separator :: _ =>
    (drive == 0x43 || drive == 0x63) && colon == 0x3A && isSeparator separator
  | _ => false

/-- `has_target_filename`. -/
def hasTargetFilename (target : ByteString) : Bool :=
  match target.getLast? with
  | some last => !isSeparator last
  | none => false

/-- The loop over the components below drive C: it never goes above it. -/
def staysBelow : ℕ → List ByteString → Bool
  | _, [] => true
  | depth, component :: rest =>
    if component = [] ∨ component = [0x2E] then staysBelow depth rest
    else if component = [0x2E, 0x2E] then
      if depth = 0 then false else staysBelow (depth - 1) rest
    else staysBelow (depth + 1) rest

/-- `is_c_drive_path_lexically_confined`. -/
def isCDrivePathLexicallyConfined (target : ByteString) : Bool :=
  isCDriveTarget target && hasTargetFilename target &&
    staysBelow 0 ((target.drop 3).splitOnP isSeparator)

def normalizeTargetByte (byte : UInt8) : UInt8 := if byte = 0x2F then 0x5C else tolower byte

/-- `same_target`. -/
def sameTarget (first second : ByteString) : Bool :=
  first.map normalizeTargetByte == second.map normalizeTargetByte

end TradutorLinux.Compat
