import Mathlib.Algebra.Order.BigOperators.Group.List
import TradutorLinux.Compat.CppJson
import TradutorLinux.Compat.RoundTrip

/-!
# `load_profile` in its two builds

With Rust, the document goes through the Rust parser, the TLPR wire and the
decoder, and the paths through the Rust validator; without it, the C++ parser
and the rules of `profile.cpp` take their place.  What follows is shared: the
questions to the file system, whose answers are given here as functions.

## Main definitions

* `loadProfileRust`, `loadProfileCpp` — the two builds.

## Main results

* `loadProfileRust_iff`, `loadProfileCpp_iff`, `loadProfile_agree_iff`
-/

namespace TradutorLinux.Compat

open List

/-! ### Results -/

/-- `ProfileStatus`, of a profile that was not loaded. -/
inductive ProfileStatus
  | invalid
  | internalError
deriving DecidableEq

/-- A `ProfileLoadResult` without a profile. -/
structure LoadFailure where
  status : ProfileStatus
  error : ByteString
deriving DecidableEq

/-- `invalid_result`. -/
def invalidResult {α : Type} (error : ByteString) : Except LoadFailure α :=
  .error ⟨.invalid, error⟩

/-- What the file system answers about the sources below `compat/dlls` and
`compat/files`, and about the targets, which `resolve_windows_path` resolves. -/
structure Directories where
  dllWithin : ByteString → Bool
  dllIsSymlink : ByteString → Bool
  dllExists : ByteString → Bool
  dllIsRegular : ByteString → Bool
  fileIsRegular : ByteString → Bool
  fileWithin : ByteString → Bool
  targetInDriveC : ByteString → Bool

/-! ### The checks that both builds have -/

variable (env : Directories)

/-- The checks of a source of `dlls`. -/
def checkDllSource (source : ByteString) : Except LoadFailure Unit :=
  if !isRelativeSource source then
    invalidResult (text "origem de DLL deve ser relativa e usar apenas '/'")
  else if !env.dllWithin source then invalidResult (text "origem de DLL fora de compat/dlls")
  else if env.dllIsSymlink source ∨ (env.dllExists source ∧ !env.dllIsRegular source) then
    invalidResult (text "origem de DLL deve ser um arquivo regular sem symlink")
  else .ok ()

/-- The checks of a mapping of `files`, against those before it. -/
def checkFile (seen : List FileMapping) (mapping : FileMapping) :
    Except LoadFailure FileMapping :=
  if !isRelativeSource mapping.source then
    invalidResult (text "origem de arquivo deve ser relativa e usar apenas '/' ")
  else if !env.fileIsRegular mapping.source ∨ !env.fileWithin mapping.source then
    invalidResult (text "arquivo de origem ausente ou fora de compat/files")
  else if !isCDriveTarget mapping.target ∨ !hasTargetFilename mapping.target then
    invalidResult (text "destino deve ser um arquivo dentro de C:\\")
  else if !env.targetInDriveC mapping.target then
    invalidResult (text "destino de arquivo fora de drive_c")
  else if seen.any fun previous => decide (PosixPath.Same previous.source mapping.source) ||
      sameTarget previous.target mapping.target then
    invalidResult (text "mapeamento de arquivo duplicado")
  else .ok mapping

/-! ### The build with Rust -/

/-- `input_slice`. -/
def inputSlice (input : ByteString) : Except Failure Unit :=
  if input.length > limitMaxInputBytes then
    .error ⟨statusInputTooLarge, errorInputTooLarge, phaseInput, unknownOffset, input.length,
      text "entrada excede o limite"⟩
  else .ok ()

/-- `execute`, which both `tl_profile_parse_v1_size` and `tl_profile_parse_v1_fill` call:
the second gets a buffer of the size that the first has told. -/
def execute (input : ByteString) (identity : Identity) : Except Failure ByteString :=
  inputSlice input >>= fun _ =>
  inputSlice identity.appId >>= fun _ =>
  inputSlice identity.appSha256 >>= fun _ =>
  inputSlice identity.appVersion >>= fun _ =>
  (⟨input⟩ : RustJson.JsonParser).parse >>= fun profile =>
  validateProfile profile identity >>= fun profile => serialize profile

/-- `is_fallback_profile_status`. -/
def isFallbackProfileStatus (status : ℕ) : Bool :=
  status == statusMalformed || status == statusUnsupportedFormat ||
    status == statusInputTooLarge || status == statusOutputTooLarge

/-- `parse_profile_rust`, and what `load_profile` makes of its failures. -/
def parseProfileRust (input : ByteString) (identity : Identity) : Except LoadFailure Profile :=
  match execute input identity with
  | .error failure =>
    .error ⟨if isFallbackProfileStatus failure.status then .invalid else .internalError,
      if failure.message = [] then text "parser Rust rejeitou profile.json" else failure.message⟩
  | .ok wire =>
    if wire.length < tableHeaderSize ∨ wire.length > limitMaxSerializedBytes then
      .error ⟨.internalError, text "tamanho de saida TLPR invalido"⟩
    else
      match decodeWire wire with
      | .error fault =>
        .error ⟨.internalError,
          if fault.message = [] then text "wire TLPR invalido" else fault.message⟩
      | .ok profile => .ok profile

/-- What the Rust path validator says of a path that it does not accept. -/
def validatorError {α : Type} (front role : ByteString) (path message : ByteString) :
    Except LoadFailure α :=
  invalidResult (front ++ text "(validação Rust): " ++ role ++
    text " rejeitado pelo validador Rust: " ++
    if path.length > limitMaxInputBytes then text "input exceeds configured limit" else message)

/-- `RustPathValidationSession::validate_relative_path`: the rule is that of the profile parser. -/
def acceptsRelativePath (path : ByteString) : Bool :=
  decide (path.length ≤ limitMaxInputBytes) && validRelativePath path

/-- `RustPathValidationSession::validate_c_drive_path`. -/
def acceptsCDrivePath (path : ByteString) : Bool :=
  decide (path.length ≤ limitMaxInputBytes) && validCDrivePath path

namespace CppProfile

/-- `normalize_dll_module` of `profile.cpp`. -/
def normalizeDllModule (name : ByteString) : Option ByteString :=
  if name.isEmpty ∨ name.length > 255 ∨
      name.any fun byte => byte == 0x2F || byte == 0x5C || byte == 0x3A then none
  else if !name.all isNameByte then none
  else
    let lower := name.map tolower
    let name := if dllSuffix.isSuffixOf lower then lower else lower ++ dllSuffix
    if name.length > 4 ∧ name ≠ dllSuffix then some name else none

end CppProfile

/-- A mapping of `dlls` in the build with Rust: its module is normalized already. -/
def checkDllRust (seen : List DllMapping) (mapping : DllMapping) :
    Except LoadFailure DllMapping :=
  match CppProfile.normalizeDllModule mapping.moduleName with
  | none => invalidResult (text "módulo de DLL inválido")
  | some _ =>
    if seen.any fun previous => previous.moduleName == mapping.moduleName then
      invalidResult (text "mapeamento de DLL duplicado")
    else if !acceptsRelativePath mapping.source then
      validatorError (text "origem de DLL deve ser relativa e usar apenas '/' ")
        (text "origem relativa") mapping.source (text "relative path is invalid")
    else checkDllSource env mapping.source >>= fun _ => .ok mapping

/-- A mapping of `files` in the build with Rust. -/
def checkFileRust (seen : List FileMapping) (mapping : FileMapping) :
    Except LoadFailure FileMapping :=
  if !acceptsRelativePath mapping.source then
    validatorError (text "origem de arquivo deve ser relativa e usar apenas '/' ")
      (text "origem relativa") mapping.source (text "relative path is invalid")
  else if !acceptsCDrivePath mapping.target then
    validatorError (text "destino de arquivo fora de drive_c ") (text "destino C") mapping.target
      (text "C drive path is invalid")
  else checkFile env seen mapping

/-- `load_profile`, built with Rust. -/
def loadProfileRust (input : ByteString) (identity : Identity) : Except LoadFailure Profile :=
  parseProfileRust input identity >>= fun profile =>
  eachAgainst (checkDllRust env) [] profile.dlls >>= fun dlls =>
  eachAgainst (checkFileRust env) [] profile.files >>= fun files =>
    .ok { profile with dlls := dlls, files := files }

/-! ### The build without -/

/-- The rules for everything but the mappings. -/
def checkFields (profile : Profile) (expected : Identity) : Except LoadFailure Unit :=
  if profile.schema ≠ 1 ∧ profile.schema ≠ 2 ∧ profile.schema ≠ 3 ∧ profile.schema ≠ 4 then
    invalidResult (text "schema de perfil não suportado")
  else if profile.schema = 1 ∧ profile.dlls ≠ [] then
    invalidResult (text "campo dlls requer schema 2")
  else if profile.schema ≠ 3 ∧ profile.schema ≠ 4 ∧ profile.backendDeclared then
    invalidResult (text "campo backend requer schema 3")
  else if profile.schema ≠ 4 ∧ profile.extensionDeclared then
    invalidResult (text "campo extension requer schema 4")
  else if profile.extensionDeclared ∧ !isSafeAppId profile.extension then
    invalidResult (text "extension inválida")
  else if profile.backend.kind = .native ∧ profile.backend.minVersion ≠ [] then
    invalidResult (text "min_version requer backend proton")
  else if profile.backend.kind = .proton ∧ profile.backend.minVersion ≠ [] ∧
      !isValidBackendMinVersion profile.backend.minVersion then
    invalidResult (text "min_version do Proton inválida")
  else if !isSafeAppId profile.appId ∨ profile.appId ≠ expected.appId then
    invalidResult (text "app_id do perfil não corresponde ao aplicativo")
  else if profile.appSha256 ≠ [] ∧ !isHexString profile.appSha256 64 then
    invalidResult (text "app_sha256 deve conter 64 dígitos hexadecimais")
  else if profile.appVersion ≠ [] ∧ !isValidVersion profile.appVersion then
    invalidResult (text "app_version inválida")
  else if profile.appSha256 ≠ [] ∧
      profile.appSha256.map tolower ≠ expected.appSha256.map tolower then
    invalidResult (text "hash SHA-256 do perfil não corresponde ao aplicativo")
  else if profile.appVersion ≠ [] ∧ profile.appVersion ≠ expected.appVersion then
    invalidResult (text "versão do perfil não corresponde ao aplicativo")
  else .ok ()

/-- A mapping of `dlls` in the build without Rust, with its module normalized. -/
def checkDllCpp (seen : List DllMapping) (mapping : DllMapping) :
    Except LoadFailure DllMapping :=
  match CppProfile.normalizeDllModule mapping.moduleName with
  | none => invalidResult (text "módulo de DLL inválido")
  | some moduleName =>
    if seen.any fun previous => previous.moduleName == moduleName then
      invalidResult (text "mapeamento de DLL duplicado")
    else
      checkDllSource env mapping.source >>= fun _ => .ok { mapping with moduleName := moduleName }

/-- The parser of the build without Rust, and what `load_profile` makes of its failure. -/
def parseProfileCpp (input : ByteString) : Except LoadFailure Profile :=
  match CppJson.parse input with
  | .error message => invalidResult message
  | .ok profile => .ok profile

/-- `load_profile`, built without Rust. -/
def loadProfileCpp (input : ByteString) (identity : Identity) : Except LoadFailure Profile :=
  parseProfileCpp input >>= fun profile =>
  checkFields profile identity >>= fun _ =>
  eachAgainst (checkDllCpp env) [] profile.dlls >>= fun dlls =>
  eachAgainst (checkFile env) [] profile.files >>= fun files =>
    .ok { profile with dlls := dlls, files := files }

/-! ### What each check asks for -/

variable {env}

/-- The checks of a source of `dlls`. -/
structure DllSourceRule (env : Directories) (source : ByteString) : Prop where
  relative : isRelativeSource source = true
  within : env.dllWithin source = true
  notSymlink : env.dllIsSymlink source = false
  regular : env.dllExists source = true → env.dllIsRegular source = true

/-- The checks of a mapping of `files`. -/
structure FileSourceRule (env : Directories) (mapping : FileMapping) : Prop where
  relative : isRelativeSource mapping.source = true
  regular : env.fileIsRegular mapping.source = true
  within : env.fileWithin mapping.source = true
  drive : isCDriveTarget mapping.target = true
  filename : hasTargetFilename mapping.target = true
  target : env.targetInDriveC mapping.target = true

/-- Two mappings of `files` that may stand together. -/
def PathsApart (first second : FileMapping) : Prop :=
  ¬PosixPath.Same first.source second.source ∧ sameTarget first.target second.target = false

theorem checkDllSource_eq_ok {source : ByteString} :
    checkDllSource env source = .ok () ↔ DllSourceRule env source := by
  unfold checkDllSource invalidResult
  rw [guard_eq_ok, guard_eq_ok, guard_eq_ok]
  simp only [Bool.not_eq_true', Bool.not_eq_false, not_or, not_and, Bool.not_eq_true, and_true]
  constructor
  · rintro ⟨h1, h2, h3, h4⟩
    exact ⟨h1, h2, h3, h4⟩
  · rintro ⟨h1, h2, h3, h4⟩
    exact ⟨h1, h2, h3, h4⟩

theorem checkFile_eq_ok (se : List FileMapping) (mp same : FileMapping) :
    checkFile env se mp = .ok same ↔
      (FileSourceRule env mp ∧ mp = same) ∧ ∀ s ∈ se, PathsApart s same := by
  unfold checkFile invalidResult PathsApart
  rw [guard_eq_ok, guard_eq_ok, guard_eq_ok, guard_eq_ok, guard_eq_ok]
  simp only [Bool.not_eq_true', Bool.not_eq_false, not_or, Except.ok.injEq, any_eq_true,
    Bool.or_eq_true, decide_eq_true_eq, not_exists, not_and, Bool.not_eq_true]
  constructor
  · rintro ⟨h1, ⟨h2, h3⟩, ⟨h4, h5⟩, h6, h7, rfl⟩
    exact ⟨⟨⟨h1, h2, h3, h4, h5, h6⟩, rfl⟩, h7⟩
  · rintro ⟨⟨⟨h1, h2, h3, h4, h5, h6⟩, rfl⟩, h7⟩
    exact ⟨h1, ⟨h2, h3⟩, ⟨h4, h5⟩, h6, h7, rfl⟩

/-! ### Module names -/

theorem normalizeDllModule_eq (name : ByteString) :
    CppProfile.normalizeDllModule name = normalizeDllModule name := by
  have he : name.isEmpty ↔ name = [] := List.isEmpty_iff
  have ha : (!name.all isNameByte) = name.any fun byte => !isNameByte byte := by
    rw [not_all_eq_any_not]
  unfold CppProfile.normalizeDllModule normalizeDllModule
  rw [ha]
  split
  · next h =>
    rw [if_pos]
    tauto
  · next h =>
    split
    · next hb => exact (if_pos (.inr (.inr (.inr hb)))).symm
    · next hb =>
      refine (if_neg ?_).symm
      tauto

theorem normalizeDllModule_self {name : ByteString} (h : ModuleName name)
    (he : name.length ≤ 255) : normalizeDllModule name = some name := by
  have ha : ∀ n : Fin 256, isModuleByte (UInt8.ofFin n) →
      isNameByte (UInt8.ofFin n) ∧ tolower (UInt8.ofFin n) = UInt8.ofFin n ∧
        (UInt8.ofFin n == 0x2F || UInt8.ofFin n == 0x5C || UInt8.ofFin n == 0x3A) = false := by
    decide +kernel
  have hy : ∀ b : UInt8, isModuleByte b → isNameByte b ∧
      tolower b = b ∧ (b == 0x2F || b == 0x5C || b == 0x3A) = false :=
    fun b => ha b.toFin
  have hb := all_eq_true.1 h.bytes
  have hl : name.map tolower = name := by
    conv_rhs => rw [← map_id name]
    exact map_congr_left fun b hm => (hy b (hb b hm)).2.1
  have hv : ¬(name = [] ∨ name.length > 255 ∨
      name.any (fun b => b == 0x2F || b == 0x5C || b == 0x3A) ∨
      name.any (fun b => !isNameByte b)) := by
    rintro (hc | hc | hc | hc)
    · rw [hc] at h
      exact absurd h.longer (by decide)
    · omega
    · obtain ⟨b, hm, heq⟩ := any_eq_true.1 hc
      rw [(hy b (hb b hm)).2.2] at heq
      cases heq
    · obtain ⟨b, hm, heq⟩ := any_eq_true.1 hc
      rw [(hy b (hb b hm)).1] at heq
      cases heq
  unfold normalizeDllModule
  rw [if_neg hv]
  dsimp only
  rw [hl, if_pos h.suffix, if_pos ⟨h.longer, h.proper⟩]

/-! ### The rules of the builds -/

/-- A mapping of `dlls` and what it becomes, in both builds. -/
structure SharedDllRule (env : Directories) (mapping normalized : DllMapping) : Prop where
  moduleName : normalizeDllModule mapping.moduleName = some normalized.moduleName
  source : normalized.source = mapping.source
  file : DllSourceRule env mapping.source

/-- The rules that both builds have, for what a document says, and the mappings of
`dlls` with their modules normalized. -/
structure SharedRules (env : Directories) (expected : Identity) (p : ProfileModel)
    (normalized : List DllMapping) : Prop where
  fields : FieldRules p expected
  dlls : List.Forall₂ (SharedDllRule env) p.dlls normalized
  modules : normalized.Pairwise fun first second => first.moduleName ≠ second.moduleName
  files : ∀ mapping ∈ p.files, FileSourceRule env mapping
  apart : p.files.Pairwise PathsApart

/-- The rules that only the build with Rust has. -/
structure RustOnlyRules (expected : Identity) (p : ProfileModel)
    (normalized : List DllMapping) : Prop where
  sha256 : expected.appSha256.length ≤ limitMaxInputBytes
  version : expected.appVersion.length ≤ limitMaxInputBytes
  modules : ∀ mapping ∈ normalized, mapping.moduleName.length ≤ 255
  targets : ∀ mapping ∈ p.files, isCDrivePathLexicallyConfined mapping.target = true

/-- The rule that only the build without Rust has. -/
def CppOnlyRule (profile : Profile) : Prop :=
  profile.extensionDeclared = true → profile.extension ≠ []

/-! ### The build with Rust -/

theorem checkDllRust_eq_ok (se : List DllMapping) (m sa : DllMapping) :
    checkDllRust env se m = .ok sa ↔ (((normalizeDllModule m.moduleName).isSome ∧
        acceptsRelativePath m.source ∧ DllSourceRule env m.source) ∧
        m = sa) ∧ ∀ s ∈ se, s.moduleName ≠ sa.moduleName := by
  unfold checkDllRust
  rw [normalizeDllModule_eq]
  cases hn : normalizeDllModule m.moduleName with
  | none => simp [invalidResult]
  | some nm =>
    simp only [invalidResult, validatorError, guard_eq_ok, bind_eq_ok, any_eq_true,
      beq_iff_eq, not_exists, not_and, Bool.not_eq_true', Bool.not_eq_false, Except.ok.injEq,
      Option.isSome_some, true_and]
    constructor
    · rintro ⟨hs, ha, _, ho, rfl⟩
      exact ⟨⟨⟨ha, checkDllSource_eq_ok.1 ho⟩, rfl⟩, hs⟩
    · rintro ⟨⟨⟨ha, ho⟩, rfl⟩, hs⟩
      exact ⟨hs, ha, (), checkDllSource_eq_ok.2 ho, rfl⟩

theorem checkFileRust_eq_ok (se : List FileMapping) (mp same : FileMapping) :
    checkFileRust env se mp = .ok same ↔
      ((acceptsRelativePath mp.source ∧ acceptsCDrivePath mp.target ∧
        FileSourceRule env mp) ∧ mp = same) ∧ ∀ s ∈ se, PathsApart s same := by
  unfold checkFileRust
  simp only [invalidResult, validatorError, guard_eq_ok, Bool.not_eq_true', Bool.not_eq_false,
    checkFile_eq_ok]
  tauto

variable {p : ProfileModel}

theorem length_le_of_parsed {size : ℕ} (h : RustJson.JsonParser.Parsed size p) :
    (∀ mp ∈ p.files, mp.source.length ≤ size ∧ mp.target.length ≤ size) ∧
      ∀ mp ∈ p.dlls, mp.source.length ≤ size := by
  have hw := h.weight
  unfold RustJson.JsonParser.weight at hw
  refine ⟨fun mp hm => ?_, fun mp hm => ?_⟩
  · have ho := le_sum_of_mem (mem_map_of_mem (f := fun mp : FileMapping =>
        mp.source.length + mp.target.length + 24) hm)
    omega
  · have ho := le_sum_of_mem (mem_map_of_mem (f := fun mp : DllMapping =>
        mp.moduleName.length + mp.source.length + 24) hm)
    omega

theorem inputSlice_eq_ok {inp : ByteString} :
    inputSlice inp = .ok () ↔ inp.length ≤ limitMaxInputBytes := by
  unfold inputSlice
  rw [guard_eq_ok, not_lt, and_iff_left rfl]

variable {input inp : ByteString} {identity ide iy : Identity}

theorem execute_eq_ok (hi : inp.length ≤ limitMaxInputBytes) {wire : ByteString} :
    execute inp iy = .ok wire ↔ (iy.appId.length ≤ limitMaxInputBytes ∧
        iy.appSha256.length ≤ limitMaxInputBytes ∧
        iy.appVersion.length ≤ limitMaxInputBytes) ∧
      ∃ p, (⟨inp⟩ : RustJson.JsonParser).parse = .ok p ∧
        ∃ m, Validated p iy m ∧ serialize m = .ok wire := by
  unfold execute
  simp only [bind_eq_ok, validateProfile_eq_ok]
  constructor
  · rintro ⟨_, -, _, ha, _, hs, _, hv, hr⟩
    exact ⟨⟨inputSlice_eq_ok.1 ha, inputSlice_eq_ok.1 hs, inputSlice_eq_ok.1 hv⟩, hr⟩
  · rintro ⟨⟨ha, hs, hv⟩, hr⟩
    exact ⟨(), inputSlice_eq_ok.2 hi, (), inputSlice_eq_ok.2 ha, (),
      inputSlice_eq_ok.2 hs, (), inputSlice_eq_ok.2 hv, hr⟩

theorem length_appId (h : FieldRules p iy) : iy.appId.length ≤ limitMaxInputBytes := by
  have hs := h.appId
  rw [h.expectedAppId] at hs
  unfold safeAppId at hs
  simp only [Bool.and_eq_true, decide_eq_true_eq] at hs
  exact hs.1.1.2.trans (by decide)

variable {profile pe pr : Profile}

theorem parseProfileRust_eq_ok (hi : inp.length ≤ limitMaxInputBytes) :
    parseProfileRust inp iy = .ok pr ↔
      ∃ p m, (⟨inp⟩ : RustJson.JsonParser).parse = .ok p ∧ Validated p iy m ∧
        iy.appSha256.length ≤ limitMaxInputBytes ∧
        iy.appVersion.length ≤ limitMaxInputBytes ∧
        (∀ ma ∈ m.dlls, ma.moduleName.length ≤ 255) ∧
        (m.files.Pairwise fun f snd => ¬PosixPath.Same f.source snd.source) ∧
        pr = m.toProfile := by
  constructor
  · intro h
    unfold parseProfileRust at h
    split at h
    · cases h
    next w hx =>
    obtain ⟨⟨-, hh, hr⟩, p, hp, m, hv, hse⟩ := (execute_eq_ok hi).1 hx
    have hm := deliverable_of_validated (RustJson.JsonParser.parsed_of_parse hp) hi hv
    obtain ⟨out, ho, hd⟩ := delivered_of_serialize hm
    rw [hse] at ho
    cases ho
    split at h
    · cases h
    split at h
    · cases h
    next p' he =>
    cases h
    rw [hd.decodeWire_eq] at he
    obtain ⟨_, ha, hpr⟩ := bind_eq_ok.1 he
    cases hpr
    obtain ⟨hmo, hu⟩ := (validateDecoded_iff hm hv).1 ha
    exact ⟨p, m, hp, hv, hh, hr, hmo, hu, rfl⟩
  · rintro ⟨p, m, hp, hv, hh, hr, hmo, hu, rfl⟩
    have hm := deliverable_of_validated (RustJson.JsonParser.parsed_of_parse hp) hi hv
    obtain ⟨out, ho, hd⟩ := delivered_of_serialize hm
    have hx : execute inp iy = .ok out := (execute_eq_ok hi).2
      ⟨⟨length_appId hv.fields, hh, hr⟩, p, hp, m, hv, ho⟩
    have he : decodeWire out = .ok m.toProfile := by
      rw [hd.decodeWire_eq, (validateDecoded_iff hm hv).2 ⟨hmo, hu⟩]
      rfl
    have ht := hd.planned.le_total
    have hn := hd.length
    have hl := hd.length_le
    have hs : ¬(out.length < tableHeaderSize ∨ out.length > limitMaxSerializedBytes) := by
      unfold dllsEnd at ht
      unfold tableHeaderSize
      omega
    unfold parseProfileRust
    rw [hx]
    dsimp only
    rw [if_neg hs, he]

theorem forall₂_imp_mem {α β : Type} {R S : α → β → Prop} {as : List α} {bs : List β}
    (h : List.Forall₂ R as bs) (himp : ∀ a ∈ as, ∀ b ∈ bs, R a b → S a b) : List.Forall₂ S as bs :=
  forall₂_iff_zip.2 ⟨h.length_eq, fun ha =>
    himp _ (of_mem_zip ha).1 _ (of_mem_zip ha).2 (forall₂_zip h ha)⟩

theorem forall_of_forall₂ {α β : Type} {R : α → β → Prop} {Q : β → Prop} {as : List α}
    {bs : List β} (h : List.Forall₂ R as bs) (himp : ∀ a ∈ as, ∀ b, R a b → Q b) :
    ∀ b ∈ bs, Q b := by
  intro b hb
  obtain ⟨i, hi⟩ := mem_iff_getElem?.1 hb
  obtain ⟨a, ha, hab⟩ := exists_of_forall₂ h hi
  exact himp a (mem_of_getElem? ha) b hab

/-- **What the build with Rust asks for.** -/
theorem loadProfileRust_iff (hi : inp.length ≤ limitMaxInputBytes) :
    loadProfileRust env inp iy = .ok pr ↔ ∃ p ds, (⟨inp⟩ : RustJson.JsonParser).parse = .ok p ∧
        SharedRules env iy p ds ∧ RustOnlyRules iy p ds ∧
        pr = { p with dlls := ds }.toProfile := by
  unfold loadProfileRust
  simp only [bind_eq_ok, parseProfileRust_eq_ok hi, eachAgainst_check checkDllRust_eq_ok,
    eachAgainst_check checkFileRust_eq_ok]
  constructor
  · rintro ⟨_, ⟨p, m, hp, hv, hsh, hve, hmo, -, rfl⟩, _, ⟨rfl, hd, -⟩, _, ⟨rfl, hfi, hap⟩, hpo⟩
    have hs := files_of_validated hv
    change ∀ mapping ∈ m.files, _ at hfi
    change m.files.Pairwise PathsApart at hap
    rw [hs] at hfi hap
    refine ⟨p, m.dlls, hp,
      { hv with dlls := ?_, files := fun f hf => (hfi f hf).2.2, apart := hap },
      ⟨hsh, hve, hmo, fun f hf => ?_⟩, ?_⟩
    · refine forall₂_imp_mem hv.dlls fun a _ b hb hr => { hr with file := ?_ }
      rw [← hr.source]
      exact (hd b hb).2.2
    · have hc := (hfi f hf).2.1
      unfold acceptsCDrivePath at hc
      rw [Bool.and_eq_true] at hc
      exact ((validCDrivePath_iff f.target).1 hc.2).1
    · rw [← Except.ok.inj hpo, ← hs]
      have hre := hv.rest
      rw [← hre]
  · rintro ⟨p, ds, hp, hh, hu, rfl⟩
    have hpr := RustJson.JsonParser.parsed_of_parse hp
    obtain ⟨hfl, hdl⟩ := length_le_of_parsed hpr
    have hdr : ∀ mapping ∈ p.dlls, isRelativeSource mapping.source →
        validRelativePath mapping.source := fun mapping hm he =>
      (validRelativePath_iff _).2 ⟨he, (hpr.dllBytes mapping hm).2⟩
    have hfr : ∀ mapping ∈ p.files, validRelativePath mapping.source :=
      fun mapping hm => (validRelativePath_iff _).2
        ⟨(hh.files mapping hm).relative, (hpr.fileBytes mapping hm).1⟩
    have ht : ∀ mapping ∈ p.files, validCDrivePath mapping.target :=
      fun mapping hm => (validCDrivePath_iff _).2
        ⟨hu.targets mapping hm, (hpr.fileBytes mapping hm).2⟩
    have hv : Validated p iy { p with dlls := ds } := by
      refine ⟨hh.fields, ?_, hh.modules, ?_, ?_, rfl⟩
      · exact forall₂_imp_mem hh.dlls fun a ha b _ hr =>
          ⟨hr.moduleName, hr.source, hdr a ha hr.file.relative⟩
      · exact forall₂_same.2 fun mapping hm => ⟨rfl, hfr mapping hm, ht mapping hm⟩
      · refine hh.apart.imp fun hpa => ⟨fun heq => hpa.1 ?_, hpa.2⟩
        rw [heq]
        exact PosixPath.Same.refl _
    refine ⟨_, ⟨p, _, hp, hv, hu.sha256, hu.version, hu.modules,
      hh.apart.imp fun hpa => hpa.1, rfl⟩, ds, ⟨rfl, ?_, hh.modules⟩, p.files,
      ⟨rfl, fun mapping hm => ?_, hh.apart⟩, rfl⟩
    · have hrl := forall_of_forall₂ (Q := fun b : DllMapping => ModuleName b.moduleName ∧
        acceptsRelativePath b.source ∧ DllSourceRule env b.source) hh.dlls
        fun a ha b hr => by
          have hg := (hdl a ha).trans hi
          rw [hr.source]
          unfold acceptsRelativePath
          rw [hdr a ha hr.file.relative, Bool.and_true, decide_eq_true_eq]
          exact ⟨(moduleName_of_normalize hr.moduleName).1, hg, hr.file⟩
      intro mapping hm
      obtain ⟨hn, hc, ho⟩ := hrl mapping hm
      refine ⟨?_, hc, ho⟩
      rw [normalizeDllModule_self hn (hu.modules mapping hm)]
      rfl
    · have hl := hfl mapping hm
      unfold acceptsRelativePath acceptsCDrivePath
      rw [hfr mapping hm, ht mapping hm]
      simp only [Bool.and_true, decide_eq_true_eq]
      exact ⟨hl.1.trans hi, hl.2.trans hi, hh.files mapping hm⟩

/-! ### The build without -/

theorem checkDllCpp_eq_ok (se : List DllMapping) (m n : DllMapping) :
    checkDllCpp env se m = .ok n ↔ SharedDllRule env m n ∧
      ∀ s ∈ se, s.moduleName ≠ n.moduleName := by
  unfold checkDllCpp
  rw [normalizeDllModule_eq]
  cases hn : normalizeDllModule m.moduleName with
  | none =>
    constructor
    · intro h
      cases h
    · rintro ⟨hr, -⟩
      rw [hr.moduleName] at hn
      cases hn
  | some nm =>
    simp only [invalidResult, guard_eq_ok, bind_eq_ok, any_eq_true, beq_iff_eq, not_exists,
      not_and, Except.ok.injEq]
    constructor
    · rintro ⟨hs, _, ho, rfl⟩
      exact ⟨⟨hn, rfl, checkDllSource_eq_ok.1 ho⟩, hs⟩
    · rintro ⟨⟨hm, ho, hf⟩, hs⟩
      rw [hn] at hm
      cases hm
      refine ⟨hs, (), checkDllSource_eq_ok.2 hf, ?_⟩
      rw [← ho]

theorem checkFields_iff
    (hm : CppJson.SameProfile p profile) (hb : p.backendKind = wireBackendNative ∨
      p.backendKind = wireBackendProton) :
    checkFields profile identity = .ok () ↔ FieldRules p identity ∧ CppOnlyRule profile := by
  obtain ⟨heq, he⟩ := hm
  generalize hf : profile.extensionDeclared = declared at heq he
  subst heq
  unfold checkFields CppOnlyRule
  simp only [invalidResult, guard_eq_ok]
  change ¬(p.schema ≠ 1 ∧ p.schema ≠ 2 ∧ p.schema ≠ 3 ∧ p.schema ≠ 4) ∧
    ¬(p.schema = 1 ∧ p.dlls ≠ []) ∧
    ¬(p.schema ≠ 3 ∧ p.schema ≠ 4 ∧ p.backendDeclared) ∧
    ¬(p.schema ≠ 4 ∧ declared) ∧
    ¬(declared ∧ (!isSafeAppId p.extension)) ∧
    ¬(backendKindOf p.backendKind = .native ∧ p.minVersion ≠ []) ∧
    ¬(backendKindOf p.backendKind = .proton ∧ p.minVersion ≠ [] ∧
      (!isValidBackendMinVersion p.minVersion)) ∧
    ¬((!isSafeAppId p.appId) ∨ p.appId ≠ identity.appId) ∧
    ¬(p.appSha256 ≠ [] ∧ (!isHexString p.appSha256 64)) ∧
    ¬(p.appVersion ≠ [] ∧ (!isValidVersion p.appVersion)) ∧
    ¬(p.appSha256 ≠ [] ∧ p.appSha256.map tolower ≠ identity.appSha256.map tolower) ∧
    ¬(p.appVersion ≠ [] ∧ p.appVersion ≠ identity.appVersion) ∧ True ↔
    FieldRules p identity ∧ (declared → p.extension ≠ [])
  rw [backendKindOf_native hb, backendKindOf_proton, safeAppId_eq, safeAppId_eq, isHex_eq,
    validVersion_eq, validBackendVersion_eq]
  simp only [Bool.not_eq_true', ne_eq, not_and, not_or, Bool.not_eq_false, not_not]
  constructor
  · rintro ⟨h1, h2, h3, h4, h5, h6, h7, h8, h9, h0, h11, h12, -⟩
    refine ⟨⟨by omega, h2, fun hd => ?_, fun hn => not_not.1 fun hs => h4 hs (he hn), h6,
      h7, h8.1, fun hn => h5 (he hn), h9, h0, h8.2, h11, h12⟩, fun hd hi => ?_⟩
    · by_contra hc
      rw [not_or] at hc
      exact h3 hc.1 hc.2 hd
    · have ha := h5 hd
      rw [hi] at ha
      cases ha
  · rintro ⟨h, hp⟩
    refine ⟨by have := h.schema; omega, h.dllsSchema, fun h3 h4 hd =>
      (h.backendSchema hd).elim h3 h4, fun h4 hd => h4 (h.extensionSchema (hp hd)),
      fun hd => h.extension (hp hd), h.nativeVersion, h.protonVersion,
      ⟨h.appId, h.expectedAppId⟩, h.appSha256, h.appVersion, h.expectedSha256,
      h.expectedVersion, trivial⟩

theorem parseProfileCpp_eq_ok :
    parseProfileCpp input = .ok profile ↔ CppJson.parse input = .ok profile := by
  unfold parseProfileCpp invalidResult
  cases CppJson.parse input <;> simp

/-- An extension that is declared where there is one is that of the model. -/
theorem eq_toProfile (hs : CppJson.SameProfile p pr) (hc : CppOnlyRule pr) : pr = p.toProfile := by
  obtain ⟨heq, hde⟩ := hs
  have he : pr.extension = p.extension := by rw [heq]; rfl
  have hf : pr.extensionDeclared = decide (p.extension ≠ []) := by
    rw [Bool.eq_iff_iff, decide_eq_true_eq]
    constructor
    · intro hd
      rw [← he]
      exact hc hd
    · exact hde
  rw [heq, hf]
  rfl

/-- **What the build without Rust asks for.** -/
theorem loadProfileCpp_iff (hi : input.length ≤ limitMaxInputBytes) :
    loadProfileCpp env input identity = .ok profile ↔
      ∃ p parsed ds, (⟨input⟩ : RustJson.JsonParser).parse = .ok p ∧
        CppJson.parse input = .ok parsed ∧ SharedRules env identity p ds ∧ CppOnlyRule parsed ∧
        profile = { p with dlls := ds }.toProfile := by
  have ha := CppJson.parse_agree hi
  unfold loadProfileCpp
  simp only [bind_eq_ok, parseProfileCpp_eq_ok, eachAgainst_eq_ok checkDllCpp_eq_ok,
    eachAgainst_check checkFile_eq_ok]
  constructor
  · rintro ⟨parsed, hpa, _, he, ds, ⟨hd, hm, -⟩, _, ⟨rfl, hf, hap⟩, hpr⟩
    obtain ⟨p, hp⟩ := ha.isOk_iff.2 ⟨parsed, hpa⟩
    have hs := ha.of_ok hp hpa
    have hb := (RustJson.JsonParser.parsed_of_parse hp).backend
    obtain ⟨hr, hc⟩ := (checkFields_iff hs hb).1 he
    obtain rfl := eq_toProfile hs hc
    refine ⟨p, _, ds, hp, hpa, ⟨hr, hd, hm, hf, hap⟩, hc, ?_⟩
    rw [← Except.ok.inj hpr]
    rfl
  · rintro ⟨p, parsed, ds, hp, hpa, hh, hc, rfl⟩
    have hs := ha.of_ok hp hpa
    have hb := (RustJson.JsonParser.parsed_of_parse hp).backend
    have he := (checkFields_iff hs hb).2 ⟨hh.fields, hc⟩
    obtain rfl := eq_toProfile hs hc
    exact ⟨_, hpa, (), he, ds, ⟨hh.dlls, hh.modules, by simp⟩, p.files,
      ⟨rfl, hh.files, hh.apart⟩, rfl⟩

/-! ### The two builds -/

theorem sharedDlls_unique {ds n normalized' : List DllMapping}
    (h : List.Forall₂ (SharedDllRule env) ds n)
    (h' : List.Forall₂ (SharedDllRule env) ds normalized') : n = normalized' := by
  induction h generalizing normalized' with
  | nil =>
    cases h'
    rfl
  | @cons mapping a ds as hr _ ih =>
    cases h' with
    | @cons _ b _ bs hr' he =>
      have hn := hr.moduleName.symm.trans hr'.moduleName
      have hs := hr.source.trans hr'.source.symm
      rw [ih he]
      congr 1
      obtain ⟨bn, bo⟩ := b
      cases Option.some.inj hn
      cases hs
      rfl

/-- **When the two builds give the same result**: never when just one of them has a
rule that refuses what the rules of both accept. -/
theorem loadProfile_agree_iff (hinput : input.length ≤ limitMaxInputBytes) :
    (∀ profile, loadProfileRust env input identity = .ok profile ↔
        loadProfileCpp env input identity = .ok profile) ↔
      ∀ p parsed dlls, (⟨input⟩ : RustJson.JsonParser).parse = .ok p →
        CppJson.parse input = .ok parsed → SharedRules env identity p dlls →
          (RustOnlyRules identity p dlls ↔ CppOnlyRule parsed) := by
  simp only [loadProfileRust_iff hinput, loadProfileCpp_iff hinput]
  constructor
  · intro h p parsed dlls hp ha hs
    constructor
    · intro hr
      obtain ⟨p', pa', ds', -, ha', -, hc, -⟩ := (h _).mp ⟨p, dlls, hp, hs, hr, rfl⟩
      rw [ha] at ha'
      cases ha'
      exact hc
    · intro hc
      obtain ⟨p', ds', hp', hs', hr, -⟩ := (h _).mpr ⟨p, parsed, dlls, hp, ha, hs, hc, rfl⟩
      rw [hp] at hp'
      cases hp'
      rw [sharedDlls_unique hs.dlls hs'.dlls]
      exact hr
  · intro h profile
    constructor
    · rintro ⟨p, dlls, hp, hs, hr, ho⟩
      obtain ⟨parsed, ha⟩ := (CppJson.parse_agree hinput).isOk_iff.mp ⟨p, hp⟩
      exact ⟨p, parsed, dlls, hp, ha, hs, (h p parsed dlls hp ha hs).mp hr, ho⟩
    · rintro ⟨p, parsed, dlls, hp, ha, hs, hc, ho⟩
      exact ⟨p, dlls, hp, hs, (h p parsed dlls hp ha hs).mpr hc, ho⟩

/-- Directories in which every source is a regular file and every target is in `drive_c`. -/
def openDirectories : Directories where
  dllWithin := fun _ => true
  dllIsSymlink := fun _ => false
  dllExists := fun _ => true
  dllIsRegular := fun _ => true
  fileIsRegular := fun _ => true
  fileWithin := fun _ => true
  targetInDriveC := fun _ => true

/-- A document with a file: both builds load it. -/
theorem loadProfile_agree_oneFile :
    loadProfileRust openDirectories oneFile ⟨[0x61], [], []⟩ = .ok oneFileModel.toProfile ↔
      loadProfileCpp openDirectories oneFile ⟨[0x61], [], []⟩ = .ok oneFileModel.toProfile := by
  refine (loadProfile_agree_iff (by decide +kernel)).mpr ?_ oneFileModel.toProfile
  intro p pa ds hp ha hs
  have hm : (⟨oneFile⟩ : RustJson.JsonParser).parse = .ok oneFileModel := by decide +kernel
  have hr : CppJson.parse oneFile = .ok oneFileModel.toProfile := by decide +kernel
  cases hp
  cases ha
  obtain rfl : ds = [] := forall₂_nil_left_iff.mp hs.dlls
  refine iff_of_true ⟨by decide, by decide, by simp, by decide⟩ ?_
  intro hd
  cases hd

def emptyExtension : ByteString :=
  text "\x7b\"schema\":1,\"app_id\":\"a\",\"extension\":\"\"\x7d"

/-- The build with Rust loads it, and the build without refuses it. -/
theorem not_loadProfile_agree_emptyExtension :
    loadProfileRust openDirectories emptyExtension ⟨[0x61], [], []⟩ =
        .ok { schema := 1, appId := [0x61] } ∧
      loadProfileCpp openDirectories emptyExtension ⟨[0x61], [], []⟩ =
        .error ⟨.invalid, text "campo extension requer schema 4"⟩ := by
  constructor <;> decide +kernel

end TradutorLinux.Compat
