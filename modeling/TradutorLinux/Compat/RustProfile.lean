import TradutorLinux.Compat.Rules
import TradutorLinux.Util.Iterate

/-!
# `validate_profile`

The rules that the Rust parser has for a profile, and what it does to the names
of DLL modules: they are lower case afterwards and end in `.dll`.

## Main definitions

* `normalizeDllModule`, `validRelativePath`, `validCDrivePath`.
* `validateProfile`.
* `Validated`

## Main results

* `validRelativePath_iff`, `validCDrivePath_iff`
* `validateProfile_eq_ok`
-/

namespace TradutorLinux.Compat

open List

/-! ### Predicates -/

/-- `safe_app_id`. -/
def safeAppId (value : ByteString) : Bool :=
  !value.isEmpty && decide (value.length ≤ 128) && !hasDots value && value.all isNameByte

/-- `is_hex`. -/
def isHex (value : ByteString) (length : ℕ) : Bool :=
  decide (value.length = length) && value.all isHexDigit

/-- `valid_version`. -/
def validVersion (value : ByteString) : Bool :=
  !value.isEmpty && decide (value.length ≤ 128) && value.all fun byte => decide (byte ≥ 0x20)

/-- The loop of `valid_backend_version`. -/
def backendVersionLoop (components digits : ℕ) : ByteString → Bool
  | [] => decide (digits ≠ 0) && decide (1 ≤ components) && decide (components ≤ 2)
  | byte :: rest =>
    if isDigit byte then backendVersionLoop components (digits + 1) rest
    else if byte = 0x2E ∧ digits ≠ 0 then backendVersionLoop (components + 1) 0 rest
    else false

/-- `valid_backend_version`. -/
def validBackendVersion (value : ByteString) : Bool :=
  if value.isEmpty || decide (value.length > 64) then false else backendVersionLoop 0 0 value

/-- The end of a module name. -/
def dllSuffix : ByteString := [0x2E, 0x64, 0x6C, 0x6C]

/-- `normalize_dll_module`. -/
def normalizeDllModule (value : ByteString) : Option ByteString :=
  if value = [] ∨ value.length > 255 ∨
      value.any (fun byte => byte == 0x2F || byte == 0x5C || byte == 0x3A) ∨
      value.any (fun byte => !isNameByte byte) then none
  else
    let lower := value.map tolower
    let value := if dllSuffix.isSuffixOf lower then lower else lower ++ dllSuffix
    if value.length > 4 ∧ value ≠ dllSuffix then some value else none

/-- `valid_relative_path`. -/
def validRelativePath (value : ByteString) : Bool :=
  !value.isEmpty && value.head? != some 0x2F && !value.contains 0 && !value.contains 0x5C &&
    !(value.splitOn 0x2F).any fun component => component == [0x2E] || component == [0x2E, 0x2E]

/-- `valid_c_drive_path`. -/
def validCDrivePath (value : ByteString) : Bool :=
  match value with
  | drive :: colon :: separator :: rest =>
    (drive == 0x43 || drive == 0x63) && colon == 0x3A && isSeparator separator &&
      !(value.getLast?.any isSeparator) && !value.contains 0 &&
      staysBelow 0 (rest.splitOnP isSeparator)
  | _ => false

/-! ### `validate_profile` -/

/-- What is expected of a profile. -/
structure Identity where
  appId : ByteString
  appSha256 : ByteString
  appVersion : ByteString

/-- A failure without a position in the input. -/
def invalid {α : Type} (code phase : ℕ) (message : ByteString) : Except Failure α :=
  .error ⟨statusMalformed, code, phase, unknownOffset, 0, message⟩

/-- A mapping of `dlls`, with its module normalized, against those before it. -/
def validateDll (seen : List DllMapping) (mapping : DllMapping) : Except Failure DllMapping :=
  match normalizeDllModule mapping.moduleName with
  | none => invalid errorPath phasePaths (text "modulo de DLL invalido")
  | some moduleName =>
    if seen.any fun previous => previous.moduleName == moduleName then
      invalid errorPath phasePaths (text "mapeamento de DLL duplicado")
    else if !validRelativePath mapping.source then
      invalid errorPath phasePaths (text "origem de DLL deve ser relativa e usar apenas '/'")
    else .ok { mapping with moduleName := moduleName }

/-- A mapping of `files`, against those before it. -/
def validateFile (seen : List FileMapping) (mapping : FileMapping) : Except Failure FileMapping :=
  let fail message : Except Failure FileMapping :=
    .error ⟨statusMalformed, errorPath, phasePaths, seen.length, 0, message⟩
  if !validRelativePath mapping.source then
    fail (text "origem de arquivo deve ser relativa e usar apenas '/'")
  else if !validCDrivePath mapping.target then
    fail (text "destino de arquivo fora de drive_c")
  else if seen.any fun previous =>
      previous.source == mapping.source || sameTarget previous.target mapping.target then
    fail (text "mapeamento de arquivo duplicado")
  else .ok mapping

/-- `validate_profile`. -/
def validateProfile (profile : ProfileModel) (expected : Identity) :
    Except Failure ProfileModel :=
  if profile.schema ≠ 1 ∧ profile.schema ≠ 2 ∧ profile.schema ≠ 3 ∧ profile.schema ≠ 4 then
    .error ⟨statusUnsupportedFormat, errorSchema, phaseSchema, unknownOffset, profile.schema,
      text "schema de perfil nao suportado"⟩
  else if profile.schema = 1 ∧ profile.dlls ≠ [] then
    .error (malformed phaseSchema unknownOffset (text "campo dlls requer schema 2"))
  else if profile.schema ≠ 3 ∧ profile.schema ≠ 4 ∧ profile.backendDeclared then
    .error (malformed phaseSchema unknownOffset (text "campo backend requer schema 3"))
  else if profile.schema ≠ 4 ∧ profile.extension ≠ [] then
    .error (malformed phaseSchema unknownOffset (text "campo extension requer schema 4"))
  else if profile.backendKind = wireBackendNative ∧ profile.minVersion ≠ [] then
    invalid errorBackend phaseSchema (text "min_version requer backend proton")
  else if profile.backendKind = wireBackendProton ∧ profile.minVersion ≠ [] ∧
      !validBackendVersion profile.minVersion then
    invalid errorBackend phaseSchema (text "min_version do Proton invalida")
  else if !safeAppId profile.appId ∨ profile.appId ≠ expected.appId then
    invalid errorIdentity phaseIdentity (text "app_id do perfil nao corresponde ao aplicativo")
  else if profile.extension ≠ [] ∧ !safeAppId profile.extension then
    invalid errorSchema phaseSchema (text "extension invalida")
  else if profile.appSha256 ≠ [] ∧ !isHex profile.appSha256 64 then
    invalid errorIdentity phaseIdentity (text "app_sha256 deve conter 64 digitos hexadecimais")
  else if profile.appVersion ≠ [] ∧ !validVersion profile.appVersion then
    invalid errorIdentity phaseIdentity (text "app_version invalida")
  else if profile.appSha256 ≠ [] ∧
      profile.appSha256.map tolower ≠ expected.appSha256.map tolower then
    invalid errorIdentity phaseIdentity
      (text "hash SHA-256 do perfil nao corresponde ao aplicativo")
  else if profile.appVersion ≠ [] ∧ profile.appVersion ≠ expected.appVersion then
    invalid errorIdentity phaseIdentity
      (text "versao do perfil nao corresponde ao aplicativo")
  else
    eachAgainst validateDll [] profile.dlls >>= fun dlls =>
    eachAgainst validateFile [] profile.files >>= fun files =>
      .ok { profile with dlls := dlls, files := files }

/-! ### The rules of the two sides -/

theorem safeAppId_eq (value : ByteString) : isSafeAppId value = safeAppId value := by
  rw [Bool.eq_iff_iff]
  simp [isSafeAppId, safeAppId]

theorem isHex_eq (v : ByteString) (length : ℕ) : isHexString v length = isHex v length := rfl

theorem validVersion_eq (value : ByteString) : isValidVersion value = validVersion value := by
  rw [Bool.eq_iff_iff]
  simp [isValidVersion, validVersion]

theorem minVersionLoop_eq (value : ByteString) :
    ∀ (d : Bool) (cs ds : ℕ), (ds ≠ 0 → d) →
      minVersionLoop d (decide (ds ≠ 0)) cs value =
        backendVersionLoop cs ds value := by
  induction value with
  | nil =>
    intro d cs ds hs
    unfold minVersionLoop backendVersionLoop
    by_cases hd : ds = 0
    · simp [hd]
    · simp [hs hd]
  | cons b r ih =>
    intro d cs ds hs
    unfold minVersionLoop backendVersionLoop
    split
    · have h := ih true cs (ds + 1) fun _ => rfl
      simpa using h
    by_cases ho : b = 0x2E
    · by_cases hd : ds = 0
      · simp [ho, hd]
      · have h := ih d (cs + 1) 0 fun h => absurd rfl h
        simpa [ho, hd] using h
    · simp [ho]

theorem validBackendVersion_eq (value : ByteString) :
    isValidBackendMinVersion value = validBackendVersion value := by
  unfold isValidBackendMinVersion validBackendVersion
  split
  · rfl
  · exact minVersionLoop_eq value false 0 0 fun h => absurd rfl h

/-- The rule of the C++ side, and no byte is zero. -/
theorem validRelativePath_iff (value : ByteString) :
    validRelativePath value ↔ isRelativeSource value ∧ 0 ∉ value := by
  have ho : ([0x2E] : ByteString) ∈ PosixPath.elements value ↔ [0x2E] ∈ value.splitOn 0x2F :=
    PosixPath.mem_elements_iff (by decide) (by decide)
  have ht : ([0x2E, 0x2E] : ByteString) ∈ PosixPath.elements value ↔
      [0x2E, 0x2E] ∈ value.splitOn 0x2F := PosixPath.mem_elements_iff (by decide) (by decide)
  have hc : (PosixPath.elements value).all (fun c => c != [0x2E] &&
      c != [0x2E, 0x2E]) = !(value.splitOn 0x2F).any fun c => c == [0x2E] || c == [0x2E, 0x2E] := by
    rw [Bool.eq_iff_iff]
    simp only [all_eq_true, Bool.and_eq_true, bne_iff_ne, Bool.not_eq_true',
      any_eq_false, Bool.or_eq_true, beq_iff_eq, not_or]
    constructor
    · intro h c hm
      constructor
      · rintro rfl
        exact (h _ (ho.2 hm)).1 rfl
      · rintro rfl
        exact (h _ (ht.2 hm)).2 rfl
    · intro h c hm
      constructor
      · rintro rfl
        exact (h _ (ho.1 hm)).1 rfl
      · rintro rfl
        exact (h _ (ht.1 hm)).2 rfl
  unfold validRelativePath isRelativeSource PosixPath.isAbsolute
  rw [hc]
  simp only [Bool.and_eq_true, Bool.not_eq_true', bne_iff_ne, ne_eq, contains_iff_mem,
    Bool.eq_false_iff, Bool.or_eq_true, beq_iff_eq, not_or]
  tauto

/-- The rule of the C++ side, and no byte is zero. -/
theorem validCDrivePath_iff (value : ByteString) :
    validCDrivePath value ↔ isCDrivePathLexicallyConfined value ∧ 0 ∉ value := by
  unfold validCDrivePath isCDrivePathLexicallyConfined isCDriveTarget
  split
  · next d c s r =>
    have hl : hasTargetFilename (d :: c :: s :: r) =
        !((d :: c :: s :: r).getLast?.any isSeparator) := by
      rfl
    rw [hl]
    simp only [Bool.and_eq_true, Bool.not_eq_true', contains_iff_mem, Bool.eq_false_iff,
      drop_succ_cons, drop_zero, ne_eq]
    tauto
  · simp

/-! ### Module names -/

def isModuleByte (byte : UInt8) : Bool :=
  (0x61 ≤ byte && byte ≤ 0x7A) || isDigit byte || byte == 0x2D || byte == 0x5F || byte == 0x2E

theorem isModuleByte_tolower (b : UInt8) (h : isNameByte b) : isModuleByte (tolower b) := by
  have ha : ∀ n : Fin 256, isNameByte (UInt8.ofFin n) →
      isModuleByte (tolower (UInt8.ofFin n)) := by decide +kernel
  exact ha b.toFin h

/-- A normalized module name: lower case, `.dll` at its end, and something in front of that. -/
structure ModuleName (name : ByteString) : Prop where
  bytes : name.all isModuleByte = true
  suffix : dllSuffix.isSuffixOf name = true
  longer : name.length > 4
  proper : name ≠ dllSuffix

theorem moduleName_of_normalize {v nm : ByteString} (h : normalizeDllModule v = some nm) :
    ModuleName nm ∧ nm.length ≤ v.length + 4 ∧ v.length ≤ 255 := by
  unfold normalizeDllModule at h
  split at h
  · cases h
  next hv =>
  simp only [not_or, not_lt, Bool.not_eq_true, any_eq_false] at hv
  obtain ⟨-, he, -, hby⟩ := hv
  have hl : (v.map tolower).all isModuleByte := by
    rw [all_eq_true]
    intro bt hy
    obtain ⟨b, hb, rfl⟩ := mem_map.1 hy
    exact isModuleByte_tolower b (by simpa using hby b hb)
  dsimp only at h
  split at h
  · next hs =>
    split at h
    · next hn =>
      cases h
      exact ⟨⟨hl, hs, hn.1, hn.2⟩, by simp, he⟩
    · cases h
  · split at h
    · next hn =>
      cases h
      refine ⟨⟨?_, isSuffixOf_iff_suffix.2 (suffix_append _ _), hn.1, hn.2⟩,
        by simp [dllSuffix], he⟩
      rw [all_append, hl]
      decide
    · cases h

/-! ### What passed -/

/-- The rules for everything but the mappings. -/
structure FieldRules (p : ProfileModel) (expected : Identity) : Prop where
  schema : p.schema = 1 ∨ p.schema = 2 ∨ p.schema = 3 ∨ p.schema = 4
  dllsSchema : p.schema = 1 → p.dlls = []
  backendSchema : p.backendDeclared = true → p.schema = 3 ∨ p.schema = 4
  extensionSchema : p.extension ≠ [] → p.schema = 4
  nativeVersion : p.backendKind = wireBackendNative → p.minVersion = []
  protonVersion : p.backendKind = wireBackendProton → p.minVersion ≠ [] →
    validBackendVersion p.minVersion = true
  appId : safeAppId p.appId = true
  extension : p.extension ≠ [] → safeAppId p.extension = true
  appSha256 : p.appSha256 ≠ [] → isHex p.appSha256 64 = true
  appVersion : p.appVersion ≠ [] → validVersion p.appVersion = true
  expectedAppId : p.appId = expected.appId
  expectedSha256 : p.appSha256 ≠ [] → p.appSha256.map tolower = expected.appSha256.map tolower
  expectedVersion : p.appVersion ≠ [] → p.appVersion = expected.appVersion

/-- A mapping of `dlls` and what it becomes. -/
structure DllRule (mapping normalized : DllMapping) : Prop where
  moduleName : normalizeDllModule mapping.moduleName = some normalized.moduleName
  source : normalized.source = mapping.source
  relative : validRelativePath mapping.source = true

/-- A mapping of `files`. -/
structure FileRule (mapping same : FileMapping) : Prop where
  eq : mapping = same
  source : validRelativePath mapping.source = true
  target : validCDrivePath mapping.target = true

/-- Two mappings of `files` that may stand together. -/
def FilesApart (first second : FileMapping) : Prop :=
  first.source ≠ second.source ∧ sameTarget first.target second.target = false

/-- What `validate_profile` makes of a profile. -/
structure Validated (p : ProfileModel) (expected : Identity) (m : ProfileModel) : Prop where
  fields : FieldRules p expected
  dlls : List.Forall₂ DllRule p.dlls m.dlls
  modules : m.dlls.Pairwise fun first second => first.moduleName ≠ second.moduleName
  files : List.Forall₂ FileRule p.files m.files
  apart : m.files.Pairwise FilesApart
  rest : m = { p with dlls := m.dlls, files := m.files }

theorem Validated.fields_result {p m : ProfileModel} {expected : Identity}
    (h : Validated p expected m) : FieldRules m expected := by
  have hl := h.dlls.length_eq
  obtain ⟨hs, hd, hb, hx, hn, hp, ha, ht, hh, hv, hi, he, hev⟩ := h.fields
  rw [h.rest]
  refine ⟨hs, fun ho => ?_, hb, hx, hn, hp, ha, ht, hh, hv, hi, he, hev⟩
  rw [hd ho] at hl
  exact length_eq_zero_iff.1 hl.symm

theorem validateDll_eq_ok (se : List DllMapping) (m n : DllMapping) :
    validateDll se m = .ok n ↔ DllRule m n ∧ ∀ s ∈ se, s.moduleName ≠ n.moduleName := by
  constructor
  · intro h
    unfold validateDll at h
    split at h
    · cases h
    next mn hn =>
    split at h
    · cases h
    next he =>
    split at h
    · cases h
    next ho =>
    cases h
    refine ⟨⟨hn, rfl, by simpa using ho⟩, fun s hs heq => he ?_⟩
    exact any_eq_true.2 ⟨s, hs, beq_iff_eq.2 heq⟩
  · rintro ⟨⟨hn, ho, hr⟩, he⟩
    have ha : ¬(se.any fun p => p.moduleName == n.moduleName) := by
      rw [any_eq_true]
      rintro ⟨s, hs, heq⟩
      exact he s hs (beq_iff_eq.1 heq)
    unfold validateDll
    rw [hn]
    dsimp only
    rw [if_neg ha, hr, if_neg (by simp), ← ho]

theorem validateFile_eq_ok (se : List FileMapping) (m same : FileMapping) :
    validateFile se m = .ok same ↔ FileRule m same ∧ ∀ s ∈ se, FilesApart s same := by
  constructor
  · intro h
    dsimp only [validateFile] at h
    split at h
    · cases h
    next ho =>
    split at h
    · cases h
    next ht =>
    split at h
    · cases h
    next he =>
    cases h
    refine ⟨⟨rfl, by simpa using ho, by simpa using ht⟩, fun s hs => ?_⟩
    have hs' := any_eq_false.1 (Bool.eq_false_iff.2 he) s hs
    simpa [FilesApart] using hs'
  · rintro ⟨⟨rfl, ho, ht⟩, he⟩
    have ha : (se.any fun p => p.source == m.source || sameTarget p.target m.target) = false := by
      rw [any_eq_false]
      intro s hs
      have := he s hs
      simpa [FilesApart] using this
    dsimp only [validateFile]
    rw [ho, ht, ha]
    rfl

/-- **A profile passes exactly when it keeps the rules.** -/
theorem validateProfile_eq_ok {p m : ProfileModel} {e : Identity} :
    validateProfile p e = .ok m ↔ Validated p e m := by
  unfold validateProfile
  simp only [invalid, guard_eq_ok, bind_eq_ok]
  constructor
  · rintro ⟨h1, h2, h3, h4, h5, h6, h7, h8, h9, h0, h11, h12, dlls, hd, fs, hf, h⟩
    cases h
    obtain ⟨hl, ho, -⟩ := (eachAgainst_eq_ok validateDll_eq_ok).1 hd
    obtain ⟨hi, ha, -⟩ := (eachAgainst_eq_ok validateFile_eq_ok).1 hf
    refine ⟨?_, hl, ho, hi, ha, rfl⟩
    simp only [Bool.not_eq_true', ne_eq, not_and, not_or, Bool.not_eq_false, not_not]
      at h1 h2 h3 h4 h5 h6 h7 h8 h9 h0 h11 h12
    refine ⟨by omega, h2, fun he => ?_, fun hn => not_not.1 fun hs => hn (h4 hs), h5, h6,
      h7.1, h8, h9, h0, h7.2, h11, h12⟩
    by_contra hh
    rw [not_or] at hh
    exact h3 hh.1 hh.2 he
  · rintro ⟨h, hl, ho, hi, ha, hm⟩
    have hd := (eachAgainst_eq_ok validateDll_eq_ok).2
      ⟨hl, ho, fun s hs => absurd hs not_mem_nil⟩
    have hf := (eachAgainst_eq_ok validateFile_eq_ok).2
      ⟨hi, ha, fun s hs => absurd hs not_mem_nil⟩
    refine ⟨?_, ?_, ?_, ?_, ?_, ?_, ?_, ?_, ?_, ?_, ?_, ?_, m.dlls, hd, m.files, hf,
      congrArg Except.ok hm.symm⟩
    · have := h.schema
      omega
    · exact fun hc => hc.2 (h.dllsSchema hc.1)
    · exact fun hc => (h.backendSchema hc.2.2).elim hc.1 hc.2.1
    · exact fun hc => hc.1 (h.extensionSchema hc.2)
    · exact fun hc => hc.2 (h.nativeVersion hc.1)
    · intro hc
      simp [h.protonVersion hc.1 hc.2.1] at hc
    · rintro (hc | hc)
      · simp [h.appId] at hc
      · exact hc h.expectedAppId
    · intro hc
      simp [h.extension hc.1] at hc
    · intro hc
      simp [h.appSha256 hc.1] at hc
    · intro hc
      simp [h.appVersion hc.1] at hc
    · exact fun hc => hc.2 (h.expectedSha256 hc.1)
    · exact fun hc => hc.2 (h.expectedVersion hc.1)

end TradutorLinux.Compat
