import TradutorLinux.Util.Basics
import TradutorLinux.Util.StdFilesystem

/-!
# Windows paths under a prefix

`resolve_windows_path` turns the guest's path into one of the host.  A path on
drive C and one that starts at the root are confined: the canonical path has to
lie in `drive_c`, or the result is empty.  Pipes get a file under
`windows/temp`, and relative paths are joined to the current directory or to
`drive_c` as they are.

## Main definitions

* `isPathWithin`, `confinedDrivePath` — the two comparisons with `drive_c`.
* `resolveWindowsPath`.
* `Resolves`
-/

namespace TradutorLinux.Prefix

open FilePath (single ofText)

variable {ν : Type}

/-! ### The directories of a prefix -/

/-- `get_environment_paths(prefix_root).drive_c`. -/
def driveC (root : FilePath) : FilePath := root / single (text "drive_c")

/-- `get_environment_paths(prefix_root).compat_files_dir`. -/
def compatFilesDir (root : FilePath) : FilePath :=
  root / single (text "compat") / single (text "files")

/-- The link of a drive letter. -/
def dosdeviceTarget (root : FilePath) (letter : UInt8) : FilePath :=
  root / single (text "dosdevices") / single [letter, 0x3A]

/-- Where the pipes are; not in `drive_c`. -/
def pipesDir (root : FilePath) : FilePath :=
  root / single (text "windows") / single (text "temp")

/-! ### Confinement -/

/-- `is_path_within`. -/
def isPathWithin (os : Host ν) (candidate parent : FilePath) : Bool :=
  match os.weaklyCanonical candidate with
  | none => false
  | some canonicalCandidate =>
    match os.weaklyCanonical parent with
    | none => false
    | some canonicalParent => decide (canonicalParent.Begins canonicalCandidate)

/-- `confined_drive_path`. -/
def confinedDrivePath (os : Host ν) (root candidate : FilePath) : FilePath :=
  match os.weaklyCanonical candidate with
  | none => {}
  | some canonicalCandidate =>
    match os.weaklyCanonical (driveC root) with
    | none => {}
    | some canonicalDrive =>
      if canonicalDrive.Begins canonicalCandidate then canonicalCandidate else {}

/-! ### The text of a path -/

/-- `std::isalpha`. -/
def isalpha (c : UInt8) : Bool := 0x41 ≤ c && c ≤ 0x5A || 0x61 ≤ c && c ≤ 0x7A

/-- Backslashes as slashes. -/
def normalizeSeparators (winPath : ByteString) : ByteString :=
  winPath.map fun ch => if ch = 0x5C then 0x2F else ch

/-- The path starts with `\\?\`. -/
def isExtended (normalized : ByteString) : Bool := (text "//?/").isPrefixOf normalized

/-- The path behind `\\?\`. -/
def extendedView (normalized : ByteString) : ByteString :=
  if isExtended normalized then normalized.drop 4 else normalized

/-- The path is `\\?\UNC\`, which no drive stands for. -/
def isExtendedUnc (normalized : ByteString) : Bool :=
  isExtended normalized && (text "UNC/").isPrefixOf (extendedView normalized)

/-- The path names a pipe. -/
def isPipe (view : ByteString) : Bool :=
  (text "//./pipe/").isPrefixOf view || (text "/./pipe/").isPrefixOf view

/-- What stands behind the last slash. -/
def pipeName (view : ByteString) : ByteString := (view.reverse.takeWhile (· ≠ 0x2F)).reverse

def driveLetter (view : ByteString) : Option UInt8 :=
  match view with
  | letter :: 0x3A :: _ => if isalpha letter then some (tolower letter) else none
  | _ => none

/-- The path without the slashes in front. -/
def dropSlashes (view : ByteString) : ByteString := view.dropWhile (· = 0x2F)

/-! ### Resolution -/

def pipePath (root : FilePath) (view : ByteString) : FilePath :=
  pipesDir root / single (pipeName view ++ text ".pipe")

/-- The end of the function, which a drive that is not there falls through to: a path from the root
is one in `drive_c`, any other is looked for in the current directory first. -/
def resolveRest (os : Host ν) (root : FilePath) (view : ByteString) : FilePath :=
  if view.head? = some 0x2F then
    confinedDrivePath os root (driveC root / ofText (dropSlashes view))
  else
    match os.cwd with
    | none => driveC root / ofText view
    | some cwd =>
      if os.pathExists (placePath cwd / ofText view) then placePath cwd / ofText view
      else driveC root / ofText view

/-- `resolve_windows_path`. -/
def resolveWindowsPath (os : Host ν) (root : FilePath) (winPath : ByteString) : FilePath :=
  if winPath.isEmpty then {}
  else
    let normalized := normalizeSeparators winPath
    let view := extendedView normalized
    if isExtendedUnc normalized then {}
    else if isPipe view then pipePath root view
    else
      match driveLetter view with
      | none => resolveRest os root view
      | some letter =>
        let target := dosdeviceTarget root letter
        let rest := dropSlashes (view.drop 2)
        if os.pathExists target || os.isSymlink target then
          if letter = 0x63 then confinedDrivePath os root (target / ofText rest)
          else target / ofText rest
        else if letter = 0x63 then confinedDrivePath os root (driveC root / ofText rest)
        else if letter = 0x7A then { absolute := true } / ofText rest
        else resolveRest os root rest

/-- `create_directories` has been called: whether it went well or not, there are no other changes
than directories where nothing was. -/
structure CreatesDirectories (os os' : Host ν) : Prop where
  cwd : os'.cwd = os.cwd
  entry : ∀ place, os'.fs.entry place = os.fs.entry place ∨
    (os.fs.entry place).isMissing = true ∧ (os'.fs.entry place).isDirectory = true

/-- What a call returns, and the host then: the path of a pipe comes with its directory. -/
inductive Resolves (os : Host ν) (root : FilePath) (winPath : ByteString) :
    FilePath → Host ν → Prop
  | pipe {os' : Host ν}
      (h : winPath.isEmpty = false ∧ isExtendedUnc (normalizeSeparators winPath) = false ∧
        isPipe (extendedView (normalizeSeparators winPath)) = true)
      (made : CreatesDirectories os os') :
      Resolves os root winPath (resolveWindowsPath os root winPath) os'
  | other
      (h : ¬(winPath.isEmpty = false ∧ isExtendedUnc (normalizeSeparators winPath) = false ∧
        isPipe (extendedView (normalizeSeparators winPath)) = true)) :
      Resolves os root winPath (resolveWindowsPath os root winPath) os

end TradutorLinux.Prefix
