import TradutorLinux.Pe.Types
import TradutorLinux.Util.Memory

/-!
# The image mapper

`map_image` reserves a mapping, copies the headers and the raw data of the
sections to their RVAs, relocates the image when it did not get its preferred
base, and protects its pages.  `write_image_bytes` patches a mapped image.

What Linux answers is a parameter (`MapHost`); everything else is computed.

## Main definitions

* `imageRegions` — the section table as regions, or why it is refused.
* `applyRelocations`, `mapImage`, `writeImageBytes`.
-/

namespace TradutorLinux.Loader

open Pe (PeInfo SectionInfo)

/-! ### Constants -/

def kImageScnMemExecute : UInt32 := 0x20000000
def kImageScnMemRead : UInt32 := 0x40000000
def kImageScnMemWrite : UInt32 := 0x80000000

def kImageRelBasedAbsolute : UInt16 := 0
def kImageRelBasedDir64 : UInt16 := 10

def kBaseRelocBlockHeaderSize : ℕ := 8
def kMaxRelocBlocks : ℕ := 4096
def kMaxSizeOfImage : ℕ := 0x80000000

/-! ### Types -/

inductive MapStatus
  | invalidImage
  | outOfMemory
deriving DecidableEq, Repr

structure MapFailure where
  status : MapStatus
  message : ByteString
deriving DecidableEq, Repr

inductive SectionPermissions
  | none
  | readOnly
  | readWrite
  | readExecute
  | readWriteExecute
deriving DecidableEq, Repr

structure MapRegion where
  name : ByteString
  rva : UInt32
  size : UInt32
  rawDataPointer : UInt32
  rawDataSize : UInt32
  permissions : SectionPermissions
deriving DecidableEq, Repr

/-- An image in memory; `memory` is absent once it is unmapped. -/
structure MappedImage where
  preferredBase : UInt64 := 0
  base : UInt64 := 0
  size : ℕ := 0
  headersSize : ℕ := 0
  memory : Option Memory := none
  delta : UInt64 := 0
  hasRelocationDirectory : Bool := false
  appliedRelocations : ℕ := 0
  regions : List MapRegion := []

/-- What the host answers during one `map_image`: the page size, the address of
the mapping at the preferred base and at any base, and the `errno` of the
`mprotect` number `n`, if it fails. -/
structure MapHost where
  pageSize : ℕ
  mmapFixed : UInt64 → ℕ → Option UInt64
  mmapAny : ℕ → Option UInt64
  mprotect : ℕ → Option ℕ

def alignDown (value alignment : ℕ) : ℕ := value - value % alignment

def alignUp (value alignment : ℕ) : ℕ :=
  let remainder := value % alignment
  if remainder = 0 then value else value + (alignment - remainder)

namespace MapRegion

def regionEnd (r : MapRegion) : ℕ := r.rva.toNat + r.size.toNat

def covers (r : MapRegion) (rva : ℕ) : Bool :=
  decide (r.rva.toNat ≤ rva) && decide (rva < r.regionEnd)

theorem covers_iff {r : MapRegion} {rv : ℕ} :
    r.covers rv ↔ r.rva.toNat ≤ rv ∧ rv < r.regionEnd := by
  simp [covers]

end MapRegion

/-! ### Permissions -/

/-- `section_permissions`: a section that asks for write and execute gets write. -/
def sectionPermissions (characteristics : UInt32) : SectionPermissions :=
  let read := characteristics &&& kImageScnMemRead ≠ 0
  let write := characteristics &&& kImageScnMemWrite ≠ 0
  let execute := characteristics &&& kImageScnMemExecute ≠ 0
  if execute ∧ write then .readWrite
  else if execute then .readExecute
  else if write then .readWrite
  else if read then .readOnly
  else .none

/-- `to_prot`. -/
def toProt : SectionPermissions → Prot
  | .none => Prot.none
  | .readOnly => Prot.readOnly
  | .readWrite => Prot.readWrite
  | .readExecute => Prot.readExec
  | .readWriteExecute => Prot.readWriteExec

/-- What `permissions_for_page` gathers from one region. -/
def addPermissions (acc : Prot) : SectionPermissions → Prot
  | .none => acc
  | .readOnly => { acc with read := true }
  | .readWrite => { acc with read := true, write := true }
  | .readExecute => { acc with read := true, exec := true }
  | .readWriteExecute => ⟨true, true, true⟩

/-- `permissions_for_page`: the union over the regions that meet the page, with
write winning over execute. -/
def permissionsForPage (regions : List MapRegion) (pageStart pageEnd headersSize : ℕ) :
    SectionPermissions :=
  let acc := regions.foldl
    (fun acc region =>
      if region.rva.toNat ≥ pageEnd ∨ region.regionEnd ≤ pageStart then acc
      else addPermissions acc region.permissions)
    (⟨decide (pageStart < headersSize), false, false⟩ : Prot)
  if acc.exec ∧ acc.write then .readWrite
  else if acc.write then .readWrite
  else if acc.exec then .readExecute
  else if acc.read then .readOnly
  else .none

/-- `effective_page_permissions`. -/
def effectivePagePermissions (pageSize : ℕ) (image : MappedImage) (rva : UInt32) :
    SectionPermissions :=
  permissionsForPage image.regions (alignDown rva.toNat pageSize) (alignUp (rva.toNat + 1) pageSize)
    image.headersSize

/-! ### Regions -/

/-- `regions_overlap`. -/
def regionsOverlap (first second : MapRegion) : Bool :=
  decide (first.rva.toNat < second.regionEnd) && decide (second.rva.toNat < first.regionEnd)

def sectionRegion (s : SectionInfo) : MapRegion where
  name := s.name
  rva := s.virtualAddress
  size := UInt32.ofNat s.span
  rawDataPointer := s.rawDataPointer
  rawDataSize := s.rawDataSize
  permissions := sectionPermissions s.characteristics

def sectionRegions (info : PeInfo) : List SectionInfo → Except MapFailure (List MapRegion)
  | [] => .ok []
  | s :: sections =>
    if s.span = 0 then sectionRegions info sections
    else if s.sectionEnd > info.sizeOfImage.toNat ∨ s.virtualAddress < info.sizeOfHeaders then
      .error ⟨.invalidImage,
        text "seção " ++ s.name ++ text " sobrepõe os headers ou excede a imagem"⟩
    else
      match sectionRegions info sections with
      | .error failure => .error failure
      | .ok regions => .ok (sectionRegion s :: regions)

/-- No two of the regions overlap. -/
def regionsDisjoint : List MapRegion → Bool
  | [] => true
  | first :: rest => !rest.any (regionsOverlap first) && regionsDisjoint rest

/-- The checks of `map_image` on the headers and the section table. -/
def imageRegions (pageSize : ℕ) (info : PeInfo) : Except MapFailure (List MapRegion) :=
  let mappingSize := alignUp info.sizeOfImage.toNat pageSize
  if mappingSize = 0 then .error ⟨.invalidImage, text "SizeOfImage inválido (0)"⟩
  else if mappingSize > kMaxSizeOfImage then
    .error ⟨.invalidImage, text "SizeOfImage excede o limite suportado (2 GiB)"⟩
  else if info.sizeOfHeaders = 0 ∨ info.sizeOfHeaders > info.sizeOfImage then
    .error ⟨.invalidImage, text "SizeOfHeaders inválido"⟩
  else
    match sectionRegions info info.sections with
    | .error failure => .error failure
    | .ok regions =>
      if !regionsDisjoint regions then
        .error ⟨.invalidImage, text "seções se sobrepõem na imagem"⟩
      else .ok regions

/-! ### Copying -/

/-- How much of the file `map_image` copies as headers. -/
def headerCopySize (info : PeInfo) (fileBytes : ByteString) : ℕ :=
  min (min info.sizeOfHeaders.toNat info.sizeOfImage.toNat) fileBytes.length

/-- How much of the file `map_image` copies to a region. -/
def regionCopySize (region : MapRegion) (fileBytes : ByteString) : ℕ :=
  min region.rawDataSize.toNat (fileBytes.length - region.rawDataPointer.toNat)

/-- A region gets its raw data, as far as the file has it, and zeros behind it. -/
def copyRegion (fileBytes : ByteString) (m : Memory) (region : MapRegion) : Memory :=
  if region.rawDataSize = 0 ∨ region.rawDataPointer.toNat ≥ fileBytes.length then
    m.fill region.rva.toNat region.size.toNat
  else
    let copySize := regionCopySize region fileBytes
    if copySize = 0 then m.fill region.rva.toNat region.size.toNat
    else
      (m.copy region.rva.toNat (slice fileBytes region.rawDataPointer.toNat copySize)).fill
        (region.rva.toNat + copySize) (region.size.toNat - copySize)

/-- The mapping before relocation. -/
def copyImage (info : PeInfo) (fileBytes : ByteString) (mappingSize : ℕ)
    (regions : List MapRegion) : Memory :=
  regions.foldl (copyRegion fileBytes)
    ((Memory.zeroed mappingSize).copy 0 (slice fileBytes 0 (headerCopySize info fileBytes)))

/-! ### Relocations -/

/-- `patchable_target`: the target lies in one region; without regions anything goes. -/
def patchableTarget (regions : List MapRegion) (targetRva targetSize : ℕ) : Bool :=
  regions.isEmpty || regions.any fun region =>
    decide (region.rva.toNat ≤ targetRva) && decide (targetRva < region.regionEnd) &&
      decide (targetSize ≤ region.regionEnd - targetRva)

/-- The entries of a block: `remaining` of them from `entryOffset` on, which the
loop reads from the image it is patching. -/
def applyEntries (delta : UInt64) (regions : List MapRegion) (pageRva : ℕ) :
    ℕ → ℕ → Memory × ℕ → Except MapFailure (Memory × ℕ)
  | _, 0, acc => .ok acc
  | entryOffset, remaining + 1, (m, applied) =>
    match m.readLE entryOffset 2 with
    | none => .error ⟨.invalidImage, text "entrada de relocations truncada"⟩
    | some rawEntry =>
      let type := rawEntry / 4096
      let targetRva := pageRva + rawEntry % 4096
      if type = kImageRelBasedAbsolute.toNat then
        applyEntries delta regions pageRva (entryOffset + 2) remaining (m, applied)
      else if type = kImageRelBasedDir64.toNat then
        if !patchableTarget regions targetRva 8 then
          .error ⟨.invalidImage,
            text "alvo DIR64 em RVA " ++ decimal targetRva ++ text " fora de seção mapeada"⟩
        else
          match m.readLE targetRva 8 with
          | none =>
            .error ⟨.invalidImage,
              text "alvo DIR64 em RVA " ++ decimal targetRva ++ text " fora da imagem"⟩
          | some value =>
            applyEntries delta regions pageRva (entryOffset + 2) remaining
              (m.copy targetRva (toLE 8 (UInt64.ofNat value + delta).toNat), applied + 1)
      else
        .error ⟨.invalidImage,
          text "tipo de relocação " ++ decimal type ++ text " não suportado para PE32+"⟩

/-- The block loop of `apply_relocations`, with `remaining` blocks still allowed. -/
def applyBlocks (directoryRva directorySize : ℕ) (delta : UInt64) (regions : List MapRegion) :
    ℕ → ℕ → Memory × ℕ → Except MapFailure (Memory × ℕ)
  | remaining, consumed, (m, applied) =>
    if consumed + kBaseRelocBlockHeaderSize ≤ directorySize then
      match remaining with
      | 0 => .error ⟨.invalidImage, text "número excessivo de blocos de relocations"⟩
      | remaining + 1 =>
        let blockOffset := directoryRva + consumed
        match m.readLE blockOffset 4, m.readLE (blockOffset + 4) 4 with
        | some pageRva, some blockSize =>
          if blockSize < kBaseRelocBlockHeaderSize then
            .error ⟨.invalidImage,
              text "bloco de relocations com tamanho inválido (" ++ decimal blockSize ++
                text " bytes)"⟩
          else if blockSize > directorySize - consumed then
            .error ⟨.invalidImage, text "bloco de relocations excede o diretório"⟩
          else if (blockSize - kBaseRelocBlockHeaderSize) % 2 ≠ 0 then
            .error ⟨.invalidImage, text "bloco de relocations com entradas truncadas"⟩
          else
            match applyEntries delta regions pageRva (blockOffset + kBaseRelocBlockHeaderSize)
                ((blockSize - kBaseRelocBlockHeaderSize) / 2) (m, applied) with
            | .error failure => .error failure
            | .ok acc =>
              applyBlocks directoryRva directorySize delta regions remaining
                (consumed + blockSize) acc
        | _, _ => .error ⟨.invalidImage, text "cabeçalho de bloco de relocations truncado"⟩
    else if consumed ≠ directorySize then
      .error ⟨.invalidImage, text "diretório de relocations com bytes residuais"⟩
    else .ok (m, applied)

/-- `apply_relocations`. -/
def applyRelocations (m : Memory) (directoryRva directorySize : UInt32) (delta : UInt64)
    (regions : List MapRegion) : Except MapFailure (Memory × ℕ) :=
  if directorySize = 0 then .ok (m, 0)
  else if !inRange m.size directoryRva.toNat directorySize.toNat then
    .error ⟨.invalidImage, text "diretório de relocations fora da imagem mapeada"⟩
  else
    applyBlocks directoryRva.toNat directorySize.toNat delta regions kMaxRelocBlocks 0 (m, 0)

/-! ### Protection -/

/-- The `mprotect` calls for the regions, the first of which is call number `n`. -/
def protectRegions (host : MapHost) (mappingSize headersSize : ℕ) (all : List MapRegion) :
    ℕ → List MapRegion → Memory → Except MapFailure (ℕ × Memory)
  | n, [], m => .ok (n, m)
  | n, region :: regions, m =>
    let pageStart := alignDown region.rva.toNat host.pageSize
    let pageEnd := alignUp region.regionEnd host.pageSize
    if pageStart ≥ mappingSize then protectRegions host mappingSize headersSize all n regions m
    else
      let protectSize := min pageEnd mappingSize - pageStart
      match host.mprotect n with
      | some errno =>
        .error ⟨.outOfMemory,
          text "não foi possível proteger a seção " ++ region.name ++ text " (errno=" ++
            decimal errno ++ text ")"⟩
      | none =>
        protectRegions host mappingSize headersSize all (n + 1) regions
          (m.protect host.pageSize pageStart protectSize
            (toProt (permissionsForPage all pageStart (pageStart + protectSize) headersSize)))

/-- The last part of `map_image`: everything is closed first, then the regions
and at last the headers are opened. -/
def protectImage (host : MapHost) (info : PeInfo) (mappingSize : ℕ) (regions : List MapRegion)
    (m : Memory) : Except MapFailure Memory :=
  match host.mprotect 0 with
  | some errno =>
    .error ⟨.outOfMemory,
      text "não foi possível isolar páginas órfãs do mapping (errno=" ++ decimal errno ++ text ")"⟩
  | none =>
    match protectRegions host mappingSize info.sizeOfHeaders.toNat regions 1 regions
        (m.protect host.pageSize 0 mappingSize Prot.none) with
    | .error failure => .error failure
    | .ok (n, m) =>
      let headerProtectSize := alignUp (min info.sizeOfHeaders.toNat mappingSize) host.pageSize
      if headerProtectSize > 0 then
        match host.mprotect n with
        | some errno =>
          .error ⟨.outOfMemory,
            text "não foi possível proteger os headers da imagem (errno=" ++ decimal errno ++
              text ")"⟩
        | none =>
          .ok (m.protect host.pageSize 0 headerProtectSize
            (toProt (permissionsForPage regions 0 headerProtectSize info.sizeOfHeaders.toNat)))
      else .ok m

/-! ### The mapper -/

/-- Where the mapping goes: at the preferred base if it is free. -/
def reserve (host : MapHost) (preferredBase : UInt64) (mappingSize : ℕ) : Option UInt64 :=
  match if preferredBase ≠ 0 then host.mmapFixed preferredBase mappingSize else none with
  | some base => some base
  | none => host.mmapAny mappingSize

/-- Relocation, which is only for an image that is not at its preferred base. -/
def relocateImage (info : PeInfo) (delta : UInt64) (regions : List MapRegion) (m : Memory) :
    Except MapFailure (Memory × ℕ) :=
  if (info.relocationDirectoryRva == 0) != (info.relocationDirectorySize == 0) then
    .error ⟨.invalidImage, text "diretório de relocations com RVA e tamanho inconsistentes"⟩
  else if delta ≠ 0 ∧ info.relocationDirectorySize = 0 then
    .error ⟨.invalidImage,
      text "imagem carregada fora da base preferencial sem diretório de relocations"⟩
  else if delta ≠ 0 then
    applyRelocations m info.relocationDirectoryRva info.relocationDirectorySize delta regions
  else .ok (m, 0)

/-- `map_image`; `optionsBase` is `MapOptions::preferred_base`. -/
def mapImage (host : MapHost) (info : PeInfo) (fileBytes : ByteString) (optionsBase : UInt64) :
    Except MapFailure MappedImage :=
  let mappingSize := alignUp info.sizeOfImage.toNat host.pageSize
  match imageRegions host.pageSize info with
  | .error failure => .error failure
  | .ok regions =>
    let preferredBase := if optionsBase ≠ 0 then optionsBase else info.imageBase
    match reserve host preferredBase mappingSize with
    | none => .error ⟨.outOfMemory, text "não foi possível reservar memória para a imagem"⟩
    | some base =>
      let delta := base - preferredBase
      match relocateImage info delta regions (copyImage info fileBytes mappingSize regions) with
      | .error failure => .error failure
      | .ok (m, applied) =>
        match protectImage host info mappingSize regions m with
        | .error failure => .error failure
        | .ok m =>
          .ok
            { preferredBase := preferredBase
              base := base
              size := mappingSize
              headersSize := min info.sizeOfHeaders.toNat mappingSize
              memory := some m
              delta := delta
              hasRelocationDirectory := info.relocationDirectorySize != 0
              appliedRelocations := applied
              regions := regions }

/-- `unmap_image`. -/
def unmapImage (_ : MappedImage) : MappedImage := {}

/-! ### Patching -/

inductive PatchStatus
  | success
  | invalidAddress
  | mprotectFailed
deriving DecidableEq, Repr

/-- `write_image_bytes`: `opens` and `restores` say whether its two `mprotect`
calls succeed; `readOnly` whether the third does, which is made when the second fails. -/
def writeImageBytes (pageSize : ℕ) (opens restores readOnly : Bool) (image : MappedImage)
    (rva : UInt32) (bytes : ByteString) : PatchStatus × MappedImage :=
  match image.memory with
  | none => (.invalidAddress, image)
  | some m =>
    let stop := rva.toNat + bytes.length
    if bytes.length = 0 ∨ stop > image.size then (.invalidAddress, image)
    else
      let covering := image.regions.any fun region =>
        decide (region.rva.toNat ≤ rva.toNat) && decide (stop ≤ region.regionEnd)
      let coversHeaders := rva.toNat < image.headersSize ∧ stop ≤ image.headersSize
      if covering = false ∧ ¬coversHeaders then (.invalidAddress, image)
      else
        let pageStart := alignDown rva.toNat pageSize
        let clamped := alignUp stop pageSize > image.size
        let pageEnd := if clamped then alignUp image.size pageSize else alignUp stop pageSize
        if clamped ∧ pageStart ≥ pageEnd then (.invalidAddress, image)
        else if !opens then (.mprotectFailed, image)
        else
          let protect := fun (m : Memory) => m.protect pageSize pageStart (pageEnd - pageStart)
          let written := (protect m Prot.readWrite).copy rva.toNat bytes
          let prot := toProt (permissionsForPage image.regions pageStart pageEnd image.headersSize)
          if restores then (.success, { image with memory := some (protect written prot) })
          else if readOnly then
            (.mprotectFailed, { image with memory := some (protect written Prot.readOnly) })
          else (.mprotectFailed, { image with memory := some written })

end TradutorLinux.Loader
