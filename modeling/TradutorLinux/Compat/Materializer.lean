import TradutorLinux.Compat.Rules
import TradutorLinux.Prefix.WindowsPaths
import TradutorLinux.Util.Syscalls

/-!
# The files of a profile in a prefix

`FileExposure` copies the files of a profile into `drive_c` and takes them back.
All mappings are planned first; then the directories are made that are missing,
and the files are copied, each to a name that has to be free.  What has been made
is recorded with its device and inode, and the files stay open.  A failure takes
everything back, and so does the cleanup when the application has ended.

The kernel's answers to the calls are a list for each of them: what it refuses, how
much it moves, and the identity of what it makes.  A call without an answer
succeeds.

## Main definitions

* `FileExposure`, `Machine`.
* `planMapping`, `makeDirectories`, `copyFileExclusive`.
* `materializeInto`, `cleanup`, `moveAssign`.
-/

namespace TradutorLinux.Compat

open FilePath (dot dotdot single ofText)
open Prefix (driveC compatFilesDir isPathWithin resolveWindowsPath)

/-! ### Types -/

/-- `FileExposureStatus`. -/
inductive FileExposureStatus
  | rejected
  | applied
  | rollbackFailed
  | internalError
deriving DecidableEq

/-- `ExposedFile`. -/
structure ExposedFile where
  source : FilePath
  target : FilePath
deriving DecidableEq

/-- `FileCleanupSummary`. -/
structure FileCleanupSummary where
  filesRemoved : ℕ := 0
  directoriesRemoved : ℕ := 0
  pathsRetained : ℕ := 0
  failed : Bool := false
deriving DecidableEq

/-- `StagedFile`; the descriptor holds an inode. -/
structure StagedFile where
  exposed : ExposedFile
  descriptor : Inode
  device : ℕ
  inode : ℕ
deriving DecidableEq

/-- `StagedDirectory`. -/
structure StagedDirectory where
  path : FilePath
  device : ℕ
  inode : ℕ
deriving DecidableEq

/-- `FileExposure`. -/
structure FileExposure where
  status : FileExposureStatus := .rejected
  error : ByteString := []
  files : List ExposedFile := []
  stagedFiles : List StagedFile := []
  stagedDirectories : List StagedDirectory := []
  cleanupSummary : FileCleanupSummary := {}
  cleanupDone : Bool := false
deriving DecidableEq

/-- The session of the builds that check every mapping with the Rust validator: whether it is there,
and the mappings it rejects, with whether that was an internal error. -/
structure PathValidation where
  available : Bool
  rejects : FileMapping → Option (Bool × ByteString)

/-- What `read` and `write` answer. -/
inductive Transfer
  | moved (count : ℕ)
  | interrupted
  | refused (code : ℕ)
deriving DecidableEq

/-- The answers still to come, call by call.  `checks` are those of the `fstat` and `lstat` of what
has been opened or made, `shows` those of the `lstat` of the cleanup. -/
structure Answers where
  mkdirs : List (Except ℕ (ℕ × ℕ)) := []
  opens : List (Option ℕ) := []
  creates : List (Except ℕ (ℕ × ℕ)) := []
  checks : List (Option ℕ) := []
  reads : List Transfer := []
  writes : List Transfer := []
  closes : List (Option ℕ) := []
  shows : List (Option ℕ) := []
  unlinks : List (Option ℕ) := []
  rmdirs : List (Option ℕ) := []

/-- The world, and how the kernel is going to answer. -/
structure Machine where
  world : World
  answers : Answers

/-- The next answer of a call that may be refused. -/
def refusal (answers : List (Option ℕ)) : Option FsError := answers.head?.join.map .other

/-- The next answer of a call that makes something. -/
def choice (answers : List (Except ℕ (ℕ × ℕ))) : Except FsError (ℕ × ℕ) :=
  match answers.head? with
  | some (.error code) => .error (.other code)
  | some (.ok identity) => .ok identity
  | none => .ok (0, 0)

section Materializer

variable (strerror : FsError → ByteString)

/-! ### Planning -/

/-- `system_error_message`. -/
def systemErrorMessage (operation : ByteString) (error : FsError) : ByteString :=
  operation ++ text ": " ++ strerror error

/-- `read_status`: what is missing is no error. -/
def readStatus (os : Host Inode) (path : FilePath) : Except ByteString (Entry Inode) :=
  match os.lstat path with
  | .ok e => .ok e
  | .error .noent => .ok .missing
  | .error e =>
    .error (systemErrorMessage strerror (text "não foi possível consultar " ++ path.toText) e)

def leadsOut (relative : FilePath) : Bool :=
  relative = single dotdot || (text "../").isPrefixOf relative.toText

/-- The loop of `validate_path_components`. -/
def validateComponents (os : Host Inode) (role : ByteString) :
    FilePath → List FilePath → Except ByteString Unit
  | _, [] => .ok ()
  | current, component :: rest =>
    if component.isEmpty || component = single dot then validateComponents os role current rest
    else if component = single dotdot then .error (role ++ text " fora do diretório permitido")
    else
      match readStatus strerror os (current / component) with
      | .error e => .error e
      | .ok status =>
        if status.isLink then .error (role ++ text " não pode conter symlink")
        else validateComponents os role (current / component) rest

/-- `validate_path_components`. -/
def validatePathComponents (os : Host Inode) (root candidate : FilePath) (role : ByteString) :
    Except ByteString Unit :=
  let relative := candidate.lexicallyRelative root
  if relative.isEmpty || relative = single dot || leadsOut relative then
    .error (role ++ text " fora do diretório permitido")
  else validateComponents strerror os role root (relative.elements.map FilePath.Element.path)

/-- What `target_path` asks of a path that is going to be made. -/
def checkFree (os : Host Inode) (path : FilePath) : Except ByteString Unit :=
  match readStatus strerror os path with
  | .error e => .error e
  | .ok status =>
    if status.isLink then .error (text "destino de arquivo não pode ser um symlink")
    else if !status.isMissing then .error (text "destino de arquivo já existe")
    else .ok ()

def withSlashes (target : ByteString) : ByteString :=
  target.map fun ch => if ch = 0x5C then 0x2F else ch

/-- `target_path`. -/
def targetPath (os : Host Inode) (prefixRoot : FilePath) (target : ByteString) :
    Except ByteString FilePath :=
  if !isCDriveTarget target || !hasTargetFilename target then
    .error (text "destino não começa por C:\\")
  else if !isCDrivePathLexicallyConfined target then
    .error (text "destino de arquivo fora de drive_c")
  else
    let lexicalTarget :=
      (driveC prefixRoot / ofText (withSlashes (target.drop 3))).lexicallyNormal
    if !isPathWithin os lexicalTarget (driveC prefixRoot) then
      .error (text "destino de arquivo fora de drive_c")
    else do
      validatePathComponents strerror os (driveC prefixRoot) lexicalTarget
        (text "destino de arquivo")
      let resolved := resolveWindowsPath os prefixRoot target
      if resolved.isEmpty || !isPathWithin os resolved (driveC prefixRoot) then
        .error (text "destino de arquivo fora de drive_c")
      else
        checkFree strerror os lexicalTarget
        checkFree strerror os resolved
        .ok resolved

/-- The loop of `collect_parent_directories`. -/
def collectParents (os : Host Inode) :
    FilePath → List FilePath → List FilePath → Except ByteString (List FilePath)
  | _, [], required => .ok required
  | current, component :: rest, required =>
    if component.isEmpty || component = single dot then
      collectParents os current rest required
    else if component = single dotdot then
      .error (text "diretório-pai do destino escaparia de drive_c")
    else
      match readStatus strerror os (current / component) with
      | .error e => .error e
      | .ok status =>
        if status.isLink then .error (text "diretório-pai do destino não pode ser um symlink")
        else if !status.isMissing then
          if !status.isDirectory then
            .error (text "diretório-pai do destino não é um diretório")
          else collectParents os (current / component) rest required
        else if (current / component) ∈ required then
          collectParents os (current / component) rest required
        else collectParents os (current / component) rest (required ++ [current / component])

/-- `collect_parent_directories`. -/
def collectParentDirectories (os : Host Inode) (driveC target : FilePath)
    (required : List FilePath) : Except ByteString (List FilePath) :=
  let relative := target.parentPath.lexicallyRelative driveC
  if relative.isEmpty || relative = single dot then .ok required
  else if leadsOut relative then .error (text "diretório-pai do destino escaparia de drive_c")
  else collectParents strerror os driveC (relative.elements.map FilePath.Element.path) required

/-- `regular_source`. -/
def regularSource (os : Host Inode) (source filesDir : FilePath) : Except ByteString Unit :=
  if !isPathWithin os source filesDir then
    .error (text "origem de arquivo ausente ou fora de compat/files")
  else do
    validatePathComponents strerror os filesDir source (text "origem de arquivo")
    match readStatus strerror os source with
    | .error e => .error e
    | .ok status =>
      if status.isLink then .error (text "origem de arquivo não pode ser um symlink")
      else
        match status with
        | .file i =>
          if i.regular then .ok ()
          else .error (text "origem de arquivo ausente ou fora de compat/files")
        | _ => .error (text "origem de arquivo ausente ou fora de compat/files")

/-- One turn of the planning loop: the file to copy, and the directories that are missing. -/
def planMapping (os : Host Inode) (validation : Option PathValidation)
    (sourceRoot targetRoot canonicalDrive : FilePath) (required : List FilePath)
    (mapping : FileMapping) :
    Except (FileExposureStatus × ByteString) (ExposedFile × List FilePath) :=
  match validation.bind (·.rejects mapping) with
  | some (internal, e) => .error (if internal then .internalError else .rejected, e)
  | none =>
    let source := compatFilesDir sourceRoot / ofText mapping.source
    match regularSource strerror os source (compatFilesDir sourceRoot) with
    | .error e => .error (.rejected, e)
    | .ok _ =>
      match targetPath strerror os targetRoot mapping.target with
      | .error e => .error (.rejected, e)
      | .ok target =>
        if !isPathWithin os target canonicalDrive then
          .error (.rejected, text "destino de arquivo fora de drive_c")
        else
          match collectParentDirectories strerror os canonicalDrive target required with
          | .error e => .error (.rejected, e)
          | .ok required => .ok (⟨source, target⟩, required)

/-- The planning loop. -/
def planMappings (os : Host Inode) (validation : Option PathValidation)
    (sourceRoot targetRoot canonicalDrive : FilePath) :
    List FilePath → List FileMapping →
      Except (FileExposureStatus × ByteString) (List ExposedFile × List FilePath)
  | required, [] => .ok ([], required)
  | required, mapping :: rest =>
    match planMapping strerror os validation sourceRoot targetRoot canonicalDrive required
        mapping with
    | .error e => .error e
    | .ok (exposed, required) =>
      match planMappings os validation sourceRoot targetRoot canonicalDrive required rest with
      | .error e => .error e
      | .ok (pending, required) => .ok (exposed :: pending, required)

/-! ### Copying -/

/-- What `write_all` has written, and the error it has stopped at. -/
structure WriteResult where
  moved : ByteString
  failed : Option FsError
  answers : List Transfer

/-- The loop of `write_all`.  A `write` that moves nothing is an error too. -/
def writeAll : List Transfer → ByteString → WriteResult
  | answers, [] => ⟨[], none, answers⟩
  | [], data => ⟨data, none, []⟩
  | .moved count :: answers, data =>
    if count = 0 then ⟨[], some (.other 0), answers⟩
    else
      let rest := writeAll answers (data.drop count)
      { rest with moved := data.take count ++ rest.moved }
  | .interrupted :: answers, data => writeAll answers data
  | .refused code :: answers, _ => ⟨[], some (.other code), answers⟩

def bufferSize : ℕ := 64 * 1024

/-- What the loop of `copy_file_exclusive` has copied, and the message it has stopped with. -/
structure CopyResult where
  moved : ByteString
  failed : Option ByteString
  reads : List Transfer
  writes : List Transfer

/-- The message of a failed `write_all`. -/
def writeError (e : FsError) : ByteString :=
  systemErrorMessage strerror (text "não foi possível gravar arquivo de compatibilidade") e

/-- The loop of `copy_file_exclusive` over what is still to be read. -/
def copyLoop (source : FilePath) :
    List Transfer → List Transfer → ByteString → CopyResult
  | [], writes, left =>
    let written := writeAll writes left
    ⟨written.moved, written.failed.map (writeError strerror), [], written.answers⟩
  | .moved count :: reads, writes, left =>
    if left = [] then ⟨[], none, reads, writes⟩
    else
      let size := min (max count 1) bufferSize
      let written := writeAll writes (left.take size)
      match written.failed with
      | some e => ⟨written.moved, some (writeError strerror e), reads, written.answers⟩
      | none =>
        let rest := copyLoop source reads written.answers (left.drop size)
        { rest with moved := written.moved ++ rest.moved }
  | .interrupted :: reads, writes, left => copyLoop source reads writes left
  | .refused code :: reads, writes, _ =>
    ⟨[], some (systemErrorMessage strerror
      (text "não foi possível ler a origem " ++ source.toText) (.other code)), reads, writes⟩

/-- `copy_file_exclusive`; the message when it fails.  A file that `open` has made is a regular one,
so that only a refused `fstat` ends the call behind it. -/
def copyFileExclusive (x : FileExposure) (m : Machine) (exposed : ExposedFile) :
    Option ByteString × FileExposure × Machine :=
  let openError := fun e => systemErrorMessage strerror
    (text "não foi possível abrir a origem " ++ exposed.source.toText) e
  let m₁ := { m with answers.opens := m.answers.opens.tail }
  match refusal m.answers.opens with
  | some e => (some (openError e), x, m₁)
  | none =>
    match m.world.openRead exposed.source with
    | .error e => (some (openError e), x, m₁)
    | .ok source =>
      let m₂ := { m₁ with answers.checks := m₁.answers.checks.tail }
      match refusal m₁.answers.checks with
      | some e =>
        (some (systemErrorMessage strerror (text "origem de arquivo não é regular") e), x, m₂)
      | none =>
        match source with
        | .file i =>
          if !i.regular then (some (text "origem de arquivo não é regular"), x, m₂)
          else
            let createError := fun e => systemErrorMessage strerror
              (text "não foi possível criar o destino " ++ exposed.target.toText) e
            let m₃ := { m₂ with answers.creates := m₂.answers.creates.tail }
            match choice m₂.answers.creates with
            | .error e => (some (createError e), x, m₃)
            | .ok identity =>
              match m.world.create exposed.target identity with
              | .error .exist => (some (text "destino de arquivo já existe"), x, m₃)
              | .error e => (some (createError e), x, m₃)
              | .ok w =>
                let target := m.world.newInode identity
                let m₄ := { m₃ with answers.checks := m₃.answers.checks.tail }
                match refusal m₃.answers.checks with
                | some e =>
                  let w := w.close target
                  let w := match refusal m₄.answers.unlinks with
                    | some _ => w
                    | none => (w.unlink exposed.target).toOption.getD w
                  (some (systemErrorMessage strerror
                      (text "destino de arquivo criado com tipo inválido") e), x,
                    { world := w, answers := { m₄.answers with
                      unlinks := m₄.answers.unlinks.tail } })
                | none =>
                  let staged : StagedFile := ⟨exposed, target, target.device, target.number⟩
                  let x := { x with stagedFiles := x.stagedFiles ++ [staged] }
                  let copied := copyLoop strerror exposed.source m₄.answers.reads
                    m₄.answers.writes (w.bytes i)
                  let closed := refusal m₄.answers.closes
                  let m₅ : Machine := ⟨w.append target copied.moved, { m₄.answers with
                    reads := copied.reads
                    writes := copied.writes
                    closes := m₄.answers.closes.tail }⟩
                  match copied.failed with
                  | some e => (some e, x, m₅)
                  | none => (closed.map (systemErrorMessage strerror
                      (text "não foi possível fechar arquivo de compatibilidade")), x, m₅)
        | _ => (some (text "origem de arquivo não é regular"), x, m₂)

/-! ### Directories -/

/-- The loop that makes the directories; the message when one cannot be made. -/
def makeDirectories (x : FileExposure) (m : Machine) :
    List FilePath → Option ByteString × FileExposure × Machine
  | [] => (none, x, m)
  | directory :: rest =>
    let makeError := fun e => systemErrorMessage strerror
      (text "não foi possível criar diretório-pai " ++ directory.toText) e
    let m₁ := { m with answers.mkdirs := m.answers.mkdirs.tail }
    match choice m.answers.mkdirs with
    | .error e => (some (makeError e), x, m₁)
    | .ok identity =>
      match m.world.mkdir directory identity with
      | .ok w =>
        let m₂ : Machine := ⟨w, { m₁.answers with checks := m₁.answers.checks.tail }⟩
        match refusal m₁.answers.checks with
        | some e => (some (systemErrorMessage strerror
            (text "diretório-pai criado com tipo inválido") e), x, m₂)
        | none =>
          match w.host.lstat directory with
          | .ok (.directory i) =>
            makeDirectories { x with stagedDirectories := x.stagedDirectories ++
              [⟨directory, i.device, i.number⟩] } m₂ rest
          | _ => (some (systemErrorMessage strerror
              (text "diretório-pai criado com tipo inválido") (.other 0)), x, m₂)
      | .error .exist =>
        match readStatus strerror m.world.host directory with
        | .error e => (some e, x, m₁)
        | .ok status =>
          if status.isLink || !status.isDirectory then
            (some (text "diretório-pai do destino não é um diretório regular"), x, m₁)
          else makeDirectories x m₁ rest
      | .error e => (some (makeError e), x, m₁)

end Materializer

/-! ### Cleanup -/

/-- `same_identity`. -/
def sameIdentity (e : Entry Inode) (device inode : ℕ) : Bool :=
  e.node.any fun i => i.identity == (device, inode)

/-- The descriptor of a staged file is closed, whatever `close` answers. -/
def closeStaged (staged : StagedFile) (summary : FileCleanupSummary) (m : Machine) :
    FileCleanupSummary × Machine :=
  let m' : Machine := ⟨m.world.close staged.descriptor,
    { m.answers with closes := m.answers.closes.tail }⟩
  match refusal m.answers.closes with
  | some _ => ({ summary with failed := true }, m')
  | none => (summary, m')

/-- What the cleanup does about the path of a staged file. -/
def unlinkStaged (staged : StagedFile) (summary : FileCleanupSummary) (m : Machine) :
    FileCleanupSummary × Machine :=
  let m₁ := { m with answers.shows := m.answers.shows.tail }
  match refusal m.answers.shows with
  | some _ => ({ summary with failed := true }, m₁)
  | none =>
    match m.world.host.lstat staged.exposed.target with
    | .error .noent => (summary, m₁)
    | .error _ => ({ summary with failed := true }, m₁)
    | .ok status =>
      if !sameIdentity status staged.device staged.inode then
        ({ summary with pathsRetained := summary.pathsRetained + 1 }, m₁)
      else
        let m₂ := { m₁ with answers.unlinks := m₁.answers.unlinks.tail }
        match refusal m₁.answers.unlinks with
        | some _ => ({ summary with failed := true }, m₂)
        | none =>
          match m.world.unlink staged.exposed.target with
          | .ok w => ({ summary with filesRemoved := summary.filesRemoved + 1 },
              { m₂ with world := w })
          | .error .noent => ({ summary with filesRemoved := summary.filesRemoved + 1 }, m₂)
          | .error _ => ({ summary with failed := true }, m₂)

/-- One turn of the loop over the staged files. -/
def cleanupFile (state : FileCleanupSummary × Machine) (staged : StagedFile) :
    FileCleanupSummary × Machine :=
  let (summary, m) := unlinkStaged staged state.1 state.2
  closeStaged staged summary m

/-- One turn of the loop over the staged directories. -/
def cleanupDirectory (state : FileCleanupSummary × Machine) (staged : StagedDirectory) :
    FileCleanupSummary × Machine :=
  let (summary, m) := state
  let m₁ := { m with answers.shows := m.answers.shows.tail }
  match refusal m.answers.shows with
  | some _ => ({ summary with failed := true }, m₁)
  | none =>
    match m.world.host.lstat staged.path with
    | .error .noent => (summary, m₁)
    | .error _ => ({ summary with failed := true }, m₁)
    | .ok status =>
      if !sameIdentity status staged.device staged.inode then
        ({ summary with pathsRetained := summary.pathsRetained + 1 }, m₁)
      else
        let m₂ := { m₁ with answers.rmdirs := m₁.answers.rmdirs.tail }
        match refusal m₁.answers.rmdirs with
        | some _ => ({ summary with failed := true }, m₂)
        | none =>
          match m.world.rmdir staged.path with
          | .ok w => ({ summary with directoriesRemoved := summary.directoriesRemoved + 1 },
              { m₂ with world := w })
          | .error .noent =>
            ({ summary with directoriesRemoved := summary.directoriesRemoved + 1 }, m₂)
          | .error .notempty =>
            ({ summary with pathsRetained := summary.pathsRetained + 1 }, m₂)
          | .error .exist => ({ summary with pathsRetained := summary.pathsRetained + 1 }, m₂)
          | .error _ => ({ summary with failed := true }, m₂)

/-- `cleanup`: the files and then the directories, the last one first.  What it returns is whether
nothing has failed. -/
def cleanup (x : FileExposure) (m : Machine) : Bool × FileExposure × Machine :=
  if x.cleanupDone then (!x.cleanupSummary.failed, x, m)
  else
    let files := x.stagedFiles.reverse.foldl cleanupFile (x.cleanupSummary, m)
    let (summary, m) := x.stagedDirectories.reverse.foldl cleanupDirectory files
    (!summary.failed, { x with cleanupSummary := summary, cleanupDone := true }, m)

/-! ### Materialization -/

section Materialize

variable (strerror : FsError → ByteString)

/-- The end of `materialize_into` when something has failed: everything is taken back. -/
def abandon (x : FileExposure) (m : Machine) (error : ByteString) : FileExposure × Machine :=
  match cleanup { x with error } m with
  | (true, x, m) => (x, m)
  | (false, x, m) => ({ x with status := .rollbackFailed }, m)

/-- The loop that copies the files. -/
def copyFiles (x : FileExposure) (m : Machine) :
    List ExposedFile → Option ByteString × FileExposure × Machine
  | [] => (none, x, m)
  | exposed :: rest =>
    match copyFileExclusive strerror x m exposed with
    | (some e, x, m) => (some e, x, m)
    | (none, x, m) => copyFiles { x with files := x.files ++ [exposed] } m rest

/-- `FileExposure::materialize_into`; `what` is the text of the exception that `weakly_canonical`
throws. -/
def materializeInto (validation : Option PathValidation) (what : ByteString)
    (sourceRoot targetRoot : FilePath) (files : List FileMapping) (m : Machine) :
    FileExposure × Machine :=
  match readStatus strerror m.world.host (driveC targetRoot) with
  | .error e => ({ error := e }, m)
  | .ok status =>
    if status.isLink || !status.isDirectory then
      ({ error := text "drive_c não é um diretório regular" }, m)
    else
      match m.world.host.weaklyCanonical (driveC targetRoot) with
      | none =>
        ({ status := if validation.isSome then .internalError else .rejected
           error := text "falha interna ao materializar perfil: " ++ what
           cleanupDone := true }, m)
      | some canonicalDrive =>
        if validation.any (!·.available) then
          ({ status := .internalError
             error := text "não foi possível criar a sessão de validação Rust" }, m)
        else
          match planMappings strerror m.world.host validation sourceRoot targetRoot
              canonicalDrive [] files with
          | .error (status, e) => ({ status, error := e }, m)
          | .ok (pending, required) =>
            match makeDirectories strerror {} m required with
            | (some e, x, m) => abandon x m e
            | (none, x, m) =>
              match copyFiles strerror x m pending with
              | (some e, x, m) => abandon x m e
              | (none, x, m) => ({ x with status := .applied }, m)

end Materialize

/-! ### Moves -/

/-- What a move leaves behind: nothing to take back. -/
def movedFrom (x : FileExposure) : FileExposure :=
  { status := x.status, cleanupSummary := x.cleanupSummary, cleanupDone := true }

/-- The move constructor: the new object, and the old one. -/
def moveConstruct (other : FileExposure) : FileExposure × FileExposure := (other, movedFrom other)

/-- The move assignment between two objects: what the target had staged is taken back first. -/
def moveAssign (this other : FileExposure) (m : Machine) :
    FileExposure × FileExposure × Machine :=
  (other, movedFrom other, (cleanup this m).2.2)

end TradutorLinux.Compat
