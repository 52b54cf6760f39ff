import TradutorLinux.Loader.ImageMapper
import TradutorLinux.Pe.Builder
import TradutorLinux.Pe.Reads

/-!
# What the guest sees of what the parser has read

The parser works in file offsets and the guest in RVAs.  The bytes of a mapped
image, before relocation, are a function of the section table and the file
(`imageByte`); where a read of the parser stays in the raw data its place lies
in, the guest sees the same bytes.  Nothing makes it stay there.

## Main definitions

* `GuestSees p m` — every read of the parser is in the mapping.
* `OverrunsAgree`

## Main results

* `byte_copyImage`, `guestSees_iff`
-/

namespace TradutorLinux.Loader

open List Memory Pe

open Pe (PeInfo PeParser SectionInfo RvaRange Read Reads ParseResult)

/-! ### Regions -/

theorem regionsOverlap_iff {f snd : MapRegion} : regionsOverlap f snd ↔
      f.rva.toNat < snd.regionEnd ∧ snd.rva.toNat < f.regionEnd := by
  simp [regionsOverlap]

variable {a : ℕ}

theorem regionsOverlap_of_covers {f snd : MapRegion} (h : f.covers a)
    (h' : snd.covers a) : regionsOverlap f snd := by
  rw [MapRegion.covers_iff] at h h'
  rw [regionsOverlap_iff]
  omega

/-- The first region that covers an RVA. -/
def regionAt (regions : List MapRegion) (a : ℕ) : Option MapRegion :=
  regions.find? fun region => region.covers a

variable {region reg rn : MapRegion}

theorem regionAt_cons_of_covers {regions : List MapRegion}
    (h : region.covers a) : regionAt (region :: regions) a = some region := by
  unfold regionAt
  rw [find?_cons, h]

theorem regionAt_cons_of_not_covers {rs : List MapRegion}
    (h : ¬rn.covers a) : regionAt (rn :: rs) a = regionAt rs a := by
  unfold regionAt
  rw [find?_cons, Bool.not_eq_true _ |>.mp h]

theorem regionAt_eq_none {rs : List MapRegion} :
    regionAt rs a = none ↔ ∀ rn ∈ rs, ¬rn.covers a := by
  unfold regionAt
  rw [find?_eq_none]

theorem regionAt_of_covers {regions : List MapRegion} (hd : regionsDisjoint regions)
    (hm : region ∈ regions) (ho : region.covers a) : regionAt regions a = some region := by
  induction regions with
  | nil => cases hm
  | cons f r ih =>
    unfold regionsDisjoint at hd
    rw [Bool.and_eq_true, Bool.not_eq_true', any_eq_false] at hd
    obtain ⟨hf, hr⟩ := hd
    rcases mem_cons.1 hm with rfl | hm
    · exact regionAt_cons_of_covers ho
    · have hn : ¬f.covers a := fun hc => hf region hm (regionsOverlap_of_covers hc ho)
      rw [regionAt_cons_of_not_covers hn]
      exact ih hr hm

theorem sectionEnd_lt {io : PeInfo} {s : SectionInfo}
    (h : ¬(s.sectionEnd > io.sizeOfImage.toNat ∨ s.virtualAddress < io.sizeOfHeaders)) :
    (sectionRegion s).regionEnd = s.sectionEnd := by
  have hl := not_lt.1 (not_or.1 h).1
  have hi : io.sizeOfImage.toNat < 4294967296 := io.sizeOfImage.toNat_lt
  unfold SectionInfo.sectionEnd at hl
  have hs : (UInt32.ofNat s.span).toNat = s.span := by
    rw [UInt32.toNat_ofNat']
    omega
  unfold MapRegion.regionEnd SectionInfo.sectionEnd sectionRegion
  rw [hs]

/-- A region of the table is that of a section that is not empty and lies
behind the headers and in the image. -/
theorem mem_sectionRegions {io : PeInfo} {ss : List SectionInfo} :
    ∀ {rs : List MapRegion}, sectionRegions io ss = .ok rs →
      ∀ rn ∈ rs, ∃ s ∈ ss, rn = sectionRegion s ∧
        rn.regionEnd = s.sectionEnd ∧ s.sectionEnd ≤ io.sizeOfImage.toNat ∧
        io.sizeOfHeaders.toNat ≤ s.virtualAddress.toNat := by
  induction ss with
  | nil =>
    intro rs h rn hm
    cases h
    cases hm
  | cons s ss ih =>
    intro rs h rn hm
    unfold sectionRegions at h
    split at h
    · obtain ⟨s', hs', hs⟩ := ih h rn hm
      exact ⟨s', mem_cons_of_mem _ hs', hs⟩
    split at h
    · cases h
    next hp =>
    split at h
    · cases h
    next r hr =>
    cases h
    rcases mem_cons.1 hm with rfl | hm
    · exact ⟨s, mem_cons_self, rfl, sectionEnd_lt hp, not_lt.1 (not_or.1 hp).1,
        UInt32.le_iff_toNat_le.1 (UInt32.not_lt.1 (not_or.1 hp).2)⟩
    · obtain ⟨s', hs', hs⟩ := ih hr rn hm
      exact ⟨s', mem_cons_of_mem _ hs', hs⟩

theorem sectionRegion_mem {info : PeInfo} {ss : List SectionInfo} :
    ∀ {regions : List MapRegion}, sectionRegions info ss = .ok regions →
      ∀ s ∈ ss, s.span ≠ 0 → sectionRegion s ∈ regions := by
  induction ss with
  | nil =>
    intro regions h s hs
    cases hs
  | cons s ss ih =>
    intro regions h s' hs' hp
    unfold sectionRegions at h
    split at h
    · next he =>
      rcases mem_cons.1 hs' with rfl | hs'
      · exact absurd he hp
      · exact ih h s' hs' hp
    split at h
    · cases h
    split at h
    · cases h
    next r hr =>
    cases h
    rcases mem_cons.1 hs' with rfl | hs'
    · exact mem_cons_self
    · exact mem_cons_of_mem _ (ih hr s' hs' hp)

/-! ### The bytes of an image -/

/-- The regions that `map_image` makes of a section table. -/
def infoRegions (info : PeInfo) : List MapRegion :=
  (info.sections.filter fun s => decide (s.span ≠ 0)).map sectionRegion

/-- The byte of a mapped image at an RVA, before relocation: the raw data of
the region there, the headers, or zero. -/
def imageByte (info : PeInfo) (fileBytes : ByteString) (regions : List MapRegion) (a : ℕ) :
    UInt8 :=
  match regionAt regions a with
  | some region =>
    if a - region.rva.toNat < regionCopySize region fileBytes then
      fileBytes.getD (region.rawDataPointer.toNat + (a - region.rva.toNat)) 0
    else 0
  | none => if a < headerCopySize info fileBytes then fileBytes.getD a 0 else 0

theorem getD_slice {bs : ByteString} {o l i : ℕ} (hi : i < l) :
    (slice bs o l).getD i 0 = bs.getD (o + i) 0 := by
  rw [getD_eq_getElem?_getD, getD_eq_getElem?_getD, getElem?_slice, if_pos hi]

theorem byte_copyRegion {fileBytes : ByteString} {m : Memory}
    (hs : region.rawDataSize.toNat ≤ region.size.toNat) :
    (copyRegion fileBytes m region).byte a = if region.covers a then
        if a - region.rva.toNat < regionCopySize region fileBytes then
          fileBytes.getD (region.rawDataPointer.toNat + (a - region.rva.toNat)) 0 else 0
      else m.byte a := by
  have ho : region.covers a ↔
      region.rva.toNat ≤ a ∧ a < region.rva.toNat + region.size.toNat := MapRegion.covers_iff
  have hco : regionCopySize region fileBytes ≤ region.rawDataSize.toNat := min_le_left _ _
  unfold copyRegion
  split
  · next hn =>
    have hz : regionCopySize region fileBytes = 0 := by
      unfold regionCopySize
      rcases hn with hr | hpo
      · rw [hr]
        exact Nat.zero_min _
      · omega
    rw [byte_fill, hz]
    by_cases hc : region.covers a
    · rw [if_pos (ho.1 hc), if_pos hc, if_neg (Nat.not_lt_zero _)]
    · rw [if_neg (mt ho.2 hc), if_neg hc]
  dsimp only
  split
  · next hz =>
    rw [byte_fill, hz]
    by_cases hc : region.covers a
    · rw [if_pos (ho.1 hc), if_pos hc, if_neg (Nat.not_lt_zero _)]
    · rw [if_neg (mt ho.2 hc), if_neg hc]
  · next hp =>
    have hl : (slice fileBytes region.rawDataPointer.toNat
        (regionCopySize region fileBytes)).length = regionCopySize region fileBytes := by
      refine length_slice_of_le ?_
      have hm : regionCopySize region fileBytes ≤
          fileBytes.length - region.rawDataPointer.toNat := min_le_right _ _
      omega
    rw [byte_fill, byte_copy, hl]
    by_cases hc : region.covers a
    · obtain ⟨hg, ht⟩ := ho.1 hc
      rw [if_pos hc]
      by_cases hi : a - region.rva.toNat < regionCopySize region fileBytes
      · rw [if_neg (by omega), if_pos (by omega), if_pos hi, getD_slice hi]
      · rw [if_pos (by omega), if_neg hi]
    · have hu := mt ho.2 hc
      rw [if_neg hc, if_neg (by omega), if_neg (by omega)]

theorem byte_foldl_copyRegion {fb : ByteString} {rs : List MapRegion}
    (hd : regionsDisjoint rs)
    (hi : ∀ rn ∈ rs, rn.rawDataSize.toNat ≤ rn.size.toNat) :
    ∀ m : Memory, (rs.foldl (copyRegion fb) m).byte a = match regionAt rs a with
      | some rn => if a - rn.rva.toNat < regionCopySize rn fb then
          fb.getD (rn.rawDataPointer.toNat + (a - rn.rva.toNat)) 0 else 0
      | none => m.byte a := by
  induction rs with
  | nil => intro m; rfl
  | cons f re ih =>
    intro m
    have hs := hd
    unfold regionsDisjoint at hs
    rw [Bool.and_eq_true, Bool.not_eq_true', any_eq_false] at hs
    obtain ⟨hf, he⟩ := hs
    rw [foldl_cons, ih he fun r hr => hi r (mem_cons_of_mem _ hr)]
    by_cases hc : f.covers a
    · -- no later region touches the byte that the first has written
      have hn : regionAt re a = none := by
        rw [regionAt_eq_none]
        intro r hr hcr
        exact hf r hr (regionsOverlap_of_covers hc hcr)
      rw [hn, regionAt_cons_of_covers hc]
      rw [byte_copyRegion (hi f mem_cons_self), if_pos hc]
    · rw [regionAt_cons_of_not_covers hc]
      cases regionAt re a with
      | some rn => rfl
      | none => rw [byte_copyRegion (hi f mem_cons_self), if_neg hc]

/-- **The mapper puts `imageByte` at every RVA.** -/
theorem byte_copyImage {info : PeInfo} {fileBytes : ByteString} {ms : ℕ}
    {regions : List MapRegion} (hd : regionsDisjoint regions)
    (hs : ∀ region ∈ regions, region.rawDataSize.toNat ≤ region.size.toNat) (a : ℕ) :
    (copyImage info fileBytes ms regions).byte a = imageByte info fileBytes regions a := by
  unfold copyImage imageByte
  rw [byte_foldl_copyRegion hd hs]
  cases regionAt regions a with
  | some region => rfl
  | none =>
    have hl : (slice fileBytes 0 (headerCopySize info fileBytes)).length =
        headerCopySize info fileBytes := by
      refine length_slice_of_le ?_
      rw [zero_add]
      exact min_le_right _ _
    rw [byte_copy, hl]
    by_cases hi : a < headerCopySize info fileBytes
    · rw [if_pos (by omega), if_pos hi, Nat.sub_zero, getD_slice hi, Nat.zero_add]
    · rw [if_neg (by omega), if_neg hi]
      rfl

@[simp] theorem size_copyImage (io : PeInfo) (fb : ByteString) (mappingSize : ℕ)
    (rs : List MapRegion) : (copyImage io fb mappingSize rs).size = mappingSize := by
  have hf : ∀ m : Memory, (rs.foldl (copyRegion fb) m).size = m.size := by
    induction rs with
    | nil => intro m; rfl
    | cons f r ih =>
      intro m
      rw [foldl_cons, ih]
      unfold copyRegion
      split
      · rfl
      · dsimp only
        split <;> rfl
  unfold copyImage
  rw [hf]
  rfl

/-! ### Images that were mapped -/

/-- The section table of a mapped image. -/
structure Mappable (info : PeInfo) (regions : List MapRegion) : Prop where
  headers : info.sizeOfHeaders.toNat ≤ info.sizeOfImage.toNat
  sections : sectionRegions info info.sections = .ok regions
  disjoint : regionsDisjoint regions = true

theorem mappable_of_imageRegions {ps : ℕ} {info : PeInfo} {regions : List MapRegion}
    (h : imageRegions ps info = .ok regions) : Mappable info regions := by
  dsimp only [imageRegions] at h
  split at h
  · cases h
  split at h
  · cases h
  split at h
  · cases h
  next hh =>
  split at h
  · cases h
  next rs' hr =>
  split at h
  · cases h
  next hd =>
  cases h
  refine ⟨?_, hr, ?_⟩
  · exact UInt32.le_iff_toNat_le.1 (UInt32.not_lt.1 (not_or.1 hh).2)
  · rwa [Bool.not_eq_true', Bool.not_eq_false] at hd

theorem alignUp_ge (v alignment : ℕ) : v ≤ alignUp v alignment := by
  dsimp only [alignUp]
  split <;> omega

theorem sectionRegions_eq {info : PeInfo} {secs : List SectionInfo} :
    ∀ {re : List MapRegion}, sectionRegions info secs = .ok re →
      re = (secs.filter fun s => decide (s.span ≠ 0)).map sectionRegion := by
  induction secs with
  | nil =>
    intro re h
    cases h
    rfl
  | cons s secs ih =>
    intro re h
    unfold sectionRegions at h
    split at h
    · next he => rw [ih h, filter_cons_of_neg (by simp [he])]
    next hs =>
    split at h
    · cases h
    split at h
    · cases h
    next r hr =>
    cases h
    rw [ih hr, filter_cons_of_pos (by simp [hs]), map_cons]

theorem mapImage_spec {host : MapHost} {io : PeInfo} {fb : ByteString}
    {ob : UInt64} {i : MappedImage} (h : mapImage host io fb ob = .ok i) :
    Mappable io i.regions ∧ i.size = alignUp io.sizeOfImage.toNat host.pageSize := by
  dsimp only [mapImage] at h
  split at h
  · cases h
  next rs hr =>
  split at h
  · cases h
  split at h
  · cases h
  split at h
  · cases h
  cases h
  exact ⟨mappable_of_imageRegions hr, rfl⟩

namespace Mappable

variable {info io : PeInfo} {regions rg rs : List MapRegion} {fileBytes fi fb : ByteString}

theorem rawDataSize_le (h : Mappable io rs) : ∀ rn ∈ rs, rn.rawDataSize.toNat ≤ rn.size.toNat := by
  intro rn hm
  obtain ⟨s, -, rfl, he, -, -⟩ := mem_sectionRegions h.sections rn hm
  have hs : s.rawDataSize.toNat ≤ s.span := le_max_right _ _
  unfold MapRegion.regionEnd SectionInfo.sectionEnd at he
  have hr : (sectionRegion s).rva.toNat = s.virtualAddress.toNat := rfl
  have ha : (sectionRegion s).rawDataSize.toNat = s.rawDataSize.toNat := rfl
  omega

theorem imageByte_headers (h : Mappable info regions)
    (ha : a < info.sizeOfHeaders.toNat) (hf : a < fileBytes.length) :
    imageByte info fileBytes regions a = fileBytes.getD a 0 := by
  have hn : regionAt regions a = none := by
    rw [regionAt_eq_none]
    intro region hm ho
    obtain ⟨s, -, rfl, -, -, hh⟩ := mem_sectionRegions h.sections region hm
    have hl : s.virtualAddress.toNat ≤ a := (MapRegion.covers_iff.1 ho).1
    omega
  have hc : a < headerCopySize info fileBytes := by
    have := h.headers
    unfold headerCopySize
    omega
  unfold imageByte
  rw [hn]
  exact if_pos hc

theorem imageByte_section (h : Mappable info regions) {s : SectionInfo} (hs : s ∈ info.sections)
    {d : ℕ} (ha : d < s.rawDataSize.toNat) (hf : s.rawDataPointer.toNat + d < fileBytes.length) :
    s.virtualAddress.toNat + d < info.sizeOfImage.toNat ∧
      imageByte info fileBytes regions (s.virtualAddress.toNat + d) =
        fileBytes.getD (s.rawDataPointer.toNat + d) 0 := by
  have hp : s.rawDataSize.toNat ≤ s.span := le_max_right _ _
  have hm := sectionRegion_mem h.sections s hs (by omega)
  obtain ⟨s', -, hs', he, hl, -⟩ := mem_sectionRegions h.sections _ hm
  have hr : s'.virtualAddress.toNat = s.virtualAddress.toNat := by
    have : (sectionRegion s).rva = (sectionRegion s').rva := by rw [hs']
    exact congrArg UInt32.toNat this.symm
  have hi : (sectionRegion s).rawDataSize.toNat ≤ (sectionRegion s).size.toNat :=
    h.rawDataSize_le _ hm
  have hc : (sectionRegion s).covers (s.virtualAddress.toNat + d) := by
    rw [MapRegion.covers_iff]
    change s.virtualAddress.toNat ≤ _ ∧ _ < s.virtualAddress.toNat + (sectionRegion s).size.toNat
    change s.rawDataSize.toNat ≤ _ at hi
    omega
  have hb := (MapRegion.covers_iff.1 hc).2
  refine ⟨by omega, ?_⟩
  unfold imageByte
  rw [regionAt_of_covers h.disjoint hm hc]
  change (if s.virtualAddress.toNat + d - s.virtualAddress.toNat <
      min s.rawDataSize.toNat (fileBytes.length - s.rawDataPointer.toNat) then
    fileBytes.getD (s.rawDataPointer.toNat +
      (s.virtualAddress.toNat + d - s.virtualAddress.toNat)) 0 else 0) = _
  rw [Nat.add_sub_cancel_left, if_pos (by omega)]

end Mappable

/-! ### What the parser vouches for -/

/-- How many bytes from the beginning of a translated range on lie in the
headers, or in the raw data of the section the range lies in. -/
def roomAt (p : PeParser) (range : RvaRange) : ℕ :=
  let stop := range.rva.toNat + range.length.toNat
  if stop ≤ p.parserState.sizeOfHeaders.toNat ∧ stop ≤ p.data.length then
    p.parserState.sizeOfHeaders.toNat - range.rva.toNat
  else
    match p.parserState.sections.find? fun s => s.covers range.rva.toNat with
    | none => 0
    | some s => s.rawDataSize.toNat - (range.rva.toNat - s.virtualAddress.toNat)

theorem imageByte_room {p : PeParser} {rs : List MapRegion}
    (h : Mappable p.parserState rs) {r : RvaRange} {o : ℕ}
    (ho : p.rvaToFileOffset r = some o) {j : ℕ} (hr : j < roomAt p r) (hf : o + j < p.data.length) :
    r.rva.toNat + j < p.parserState.sizeOfImage.toNat ∧
      imageByte p.parserState p.data rs (r.rva.toNat + j) = p.data.getD (o + j) 0 := by
  unfold PeParser.rvaToFileOffset at ho
  unfold roomAt at hr
  dsimp only at ho hr
  split at ho
  · next hi =>
    cases ho
    rw [if_pos hi] at hr
    have hh := h.headers
    exact ⟨by omega, h.imageByte_headers (by omega) hf⟩
  · next hu =>
    rw [if_neg hu] at hr
    split at ho
    · cases ho
    next s hs =>
    rw [hs] at hr
    dsimp only at hr
    split at ho
    · cases ho
    split at ho
    · cases ho
    cases ho
    have hc := find?_some hs
    have hm := mem_of_find?_eq_some hs
    rw [SectionInfo.covers_iff] at hc
    have ha : r.rva.toNat - s.virtualAddress.toNat + j < s.rawDataSize.toNat := by omega
    have hf : s.rawDataPointer.toNat + (r.rva.toNat - s.virtualAddress.toNat + j) <
        p.data.length := by omega
    have he := h.imageByte_section hm ha hf
    rw [show s.virtualAddress.toNat + (r.rva.toNat - s.virtualAddress.toNat + j) =
        r.rva.toNat + j by omega, ← add_assoc] at he
    exact he

/-! ### Reads and the guest -/

/-- The bytes of the read are in the mapping, at the RVA they were read for. -/
def Seen (m : Memory) (read : Read) : Prop :=
  ∀ i b, read.bytes[i]? = some b →
    read.place.rva.toNat + read.skip + i < m.size ∧
      m.byte (read.place.rva.toNat + read.skip + i) = b

def GuestSees (p : PeParser) (m : Memory) : Prop := ∀ read, Reads p read → Seen m read

/-- What a read takes from behind the headers, or the raw data, that its place
lies in, is what the section table puts there. -/
def OverrunsAgree (p : PeParser) (pageSize : ℕ) : Prop :=
  ∀ read, Reads p read → ∀ i b, read.bytes[i]? = some b →
    roomAt p read.place ≤ read.skip + i →
    read.place.rva.toNat + read.skip + i < alignUp p.parserState.sizeOfImage.toNat pageSize ∧
      imageByte p.parserState p.data (infoRegions p.parserState)
        (read.place.rva.toNat + read.skip + i) = b

/-- Behind a place in the headers the rest of the headers follows. -/
theorem le_roomAt {p : PeParser} {range : RvaRange} {n : ℕ}
    (hh : range.rva.toNat + range.length.toNat ≤ p.parserState.sizeOfHeaders.toNat)
    (hf : range.rva.toNat + range.length.toNat ≤ p.data.length)
    (hn : n + range.rva.toNat ≤ p.parserState.sizeOfHeaders.toNat) : n ≤ roomAt p range := by
  unfold roomAt
  dsimp only
  rw [if_pos ⟨hh, hf⟩]
  omega

/-- No read runs over. -/
theorem overrunsAgree_of_inRoom {p : PeParser} (pageSize : ℕ)
    (h : ∀ read, Reads p read → read.skip + read.bytes.length ≤ roomAt p read.place) :
    OverrunsAgree p pageSize := by
  intro read hr i b hb hi
  have hl : i < read.bytes.length := (List.getElem?_eq_some_iff.mp hb).1
  have hroom := h read hr
  omega

/-- **The guest sees the reads when the overruns agree, and only then.** -/
theorem guestSees_iff {host : MapHost} {data : ByteString} {r : ParseResult}
    {optionsBase : UInt64} {image : MappedImage} (hparse : parsePe data = .ok r)
    (hmap : mapImage host r.info data optionsBase = .ok image) :
    GuestSees (r.parser data) (copyImage r.info data image.size image.regions) ↔
      OverrunsAgree (r.parser data) host.pageSize := by
  obtain ⟨hm, hsi⟩ := mapImage_spec hmap
  have hre : image.regions = infoRegions r.info := sectionRegions_eq hm.sections
  have hy : ∀ a, (copyImage r.info data image.size image.regions).byte a =
      imageByte r.info data (infoRegions r.info) a := by
    intro a
    rw [byte_copyImage hm.disjoint hm.rawDataSize_le, hre]
  constructor
  · intro h read he i b hb _
    obtain ⟨hl, heq⟩ := h read he i b hb
    rw [hy] at heq
    rw [size_copyImage, hsi] at hl
    exact ⟨hl, heq⟩
  · intro h read he i b hb
    rw [hy, size_copyImage, hsi]
    by_cases hr : roomAt (r.parser data) read.place ≤ read.skip + i
    · exact h read he i b hb hr
    -- within its room the read is in the image because it is in the file
    obtain ⟨ot, ho, hle, hs⟩ := he.inFile hparse
    have hi : i < read.bytes.length := (List.getElem?_eq_some_iff.mp hb).1
    have hl : ot + (read.skip + i) < data.length := by
      have : ot + read.skip + read.bytes.length ≤ data.length := hle
      omega
    obtain ⟨hn, heq⟩ := imageByte_room (p := r.parser data) hm ho (not_le.mp hr) hl
    rw [hre] at heq
    have hf : data.getD (ot + (read.skip + i)) 0 = b := by
      rw [← hs, getElem?_slice, if_pos hi, add_assoc] at hb
      exact congrArg (fun o => o.getD 0) hb
    have him := alignUp_ge r.info.sizeOfImage.toNat host.pageSize
    rw [add_assoc read.place.rva.toNat]
    exact ⟨lt_of_lt_of_le hn him, heq.trans hf⟩

/-- A host with free addresses, on which every call succeeds. -/
def idleHost : MapHost where
  pageSize := 0x1000
  mmapFixed := fun base _ => some base
  mmapAny := fun _ => none
  mprotect := fun _ => none

/-- An image that imports `f` of `shim.dll`.  Its headers end before the name of the DLL does. -/
def cutName : ByteString :=
  Pe.build
    { sizeOfHeaders := 296
      directories := [(0, 0), (216, 40)]
      body := importData 216 [(text "shim.dll", [text "f"])] }

/-- What the examples say of an image, once it is parsed and mapped. -/
def parsedAndMapped (data : ByteString) : Option (ParseResult × MappedImage) :=
  match parsePe data with
  | .error _ => none
  | .ok r =>
    match mapImage idleHost r.info data 0 with
    | .error _ => none
    | .ok image => some (r, image)

theorem parsedAndMapped_eq_some {d : ByteString} {r : ParseResult} {image : MappedImage}
    (h : parsedAndMapped d = some (r, image)) :
    parsePe d = .ok r ∧ mapImage idleHost r.info d 0 = .ok image := by
  unfold parsedAndMapped at h
  split at h
  · cases h
  next r' hr =>
  split at h
  · cases h
  next i' hi =>
  cases h
  exact ⟨hr, hi⟩

/-- The parser reads `shim.dll`, the guest sees `shim`. -/
theorem not_guestSees_cutName : ∃ r image, parsePe cutName = .ok r ∧
    mapImage idleHost r.info cutName 0 = .ok image ∧
    ¬GuestSees (r.parser cutName) (copyImage r.info cutName image.size image.regions) := by
  have he : ((parsedAndMapped cutName).map fun (r, image) =>
      (r.info.imports.map fun dll => dll.name,
        (r.parser cutName).rvaToFileOffset ⟨r.info.importDirectoryRva, r.info.importDirectorySize⟩,
        (copyImage r.info cutName image.size image.regions).byte 296)) =
      some ([text "shim.dll"], some 216, 0) := by
    decide +kernel
  cases hm : parsedAndMapped cutName with
  | none =>
    rw [hm] at he
    cases he
  | some re =>
    obtain ⟨r, image⟩ := re
    rw [hm] at he
    obtain ⟨himp, hdi, hb⟩ : r.info.imports.map (fun dll => dll.name) = [text "shim.dll"] ∧
        (r.parser cutName).rvaToFileOffset
          ⟨r.info.importDirectoryRva, r.info.importDirectorySize⟩ = some 216 ∧
        (copyImage r.info cutName image.size image.regions).byte 296 = 0 := by
      simpa using he
    obtain ⟨hr, hi⟩ := parsedAndMapped_eq_some hm
    refine ⟨r, image, hr, hi, fun hse => ?_⟩
    obtain ⟨dll, hd, hn⟩ := map_eq_singleton_iff.mp himp
    have hl : r.info.imports[0]? = some dll := by rw [hd]; rfl
    have hre : Reads (r.parser cutName)
        ⟨⟨importName cutName (216 + 0 * kImportDescriptorSize), 1⟩, 0, dll.name ++ [0]⟩ :=
      Reads.imported hdi hl Pe.ReadsDll.name
    have hv : (importName cutName (216 + 0 * kImportDescriptorSize)).toNat = 292 := by
      decide +kernel
    have hs := (hse _ hre 4 46 (by rw [hn]; decide)).2
    dsimp only at hs
    rw [hv, hb] at hs
    exact absurd hs (by decide)

/-- The same image with headers that hold the whole table. -/
def wholeName : ByteString :=
  Pe.build
    { directories := [(0, 0), (216, 40)]
      body := importData 216 [(text "shim.dll", [text "f"])] }

/-- No read of that image runs over, so the guest sees all of them. -/
theorem guestSees_iff_wholeName : ∃ r image, parsePe wholeName = .ok r ∧
    mapImage idleHost r.info wholeName 0 = .ok image ∧
    (r.info.imports.map fun dll => (dll.name, dll.symbols.map fun s => s.name)) =
      [(text "shim.dll", [text "f"])] ∧
    GuestSees (r.parser wholeName) (copyImage r.info wholeName image.size image.regions) := by
  have he : ((parsedAndMapped wholeName).map fun (r, _) =>
      (r.info.imports.map fun dll => (dll.name, dll.symbols.map fun s => s.name),
        r.info.delayImports.length, r.info.exports.length, r.info.exportDirectorySize,
        r.info.sizeOfHeaders)) =
      some ([(text "shim.dll", [text "f"])], 0, 0, 0, 4096) := by
    decide +kernel
  have hp : ((parsedAndMapped wholeName).map fun (r, _) =>
      ((r.parser wholeName).rvaToFileOffset
          ⟨r.info.importDirectoryRva, r.info.importDirectorySize⟩,
        (r.parser wholeName).rvaToFileOffset ⟨importThunks wholeName 216, 8⟩)) =
      some (some 216, some 256) := by
    decide +kernel
  obtain ⟨⟨r, image⟩, hm, he⟩ := Option.map_eq_some_iff.mp he
  rw [hm] at hp
  simp only [Option.map_some, Option.some.injEq, Prod.mk.injEq] at he hp
  obtain ⟨himp, hde, hex, hes, hsz⟩ := he
  obtain ⟨hdi, hth⟩ := hp
  obtain ⟨hr, hi⟩ := parsedAndMapped_eq_some hm
  refine ⟨r, image, hr, hi, himp, (guestSees_iff hr hi).mpr (overrunsAgree_of_inRoom _ ?_)⟩
  obtain ⟨dll, hdll, hpair⟩ := map_eq_singleton_iff.mp himp
  obtain ⟨hname, hsyms⟩ := Prod.mk.inj hpair
  obtain ⟨symbol, hsymbol, hf⟩ := map_eq_singleton_iff.mp hsyms
  have hs : (r.parser wholeName).parserState.sizeOfHeaders.toNat = 4096 := congrArg _ hsz
  have hl : (r.parser wholeName).data.length = 301 := by
    show wholeName.length = 301
    decide +kernel
  have hroom : ∀ (rva len : UInt32) (n : ℕ), rva.toNat + len.toNat ≤ 301 → n + rva.toNat ≤ 4096 →
      n ≤ roomAt (r.parser wholeName) ⟨rva, len⟩ := fun rva len n hf hn =>
    le_roomAt (by rw [hs]; exact hf.trans (by decide)) (by rw [hl]; exact hf) (by rw [hs]; exact hn)
  intro read hread
  cases hread with
  | imported hd hdl hr' =>
    cases hdi.symm.trans hd
    have hdl' : r.info.imports[_]? = some _ := hdl
    rw [hdll] at hdl'
    rw [getElem?_singleton] at hdl'
    split at hdl'
    · next hz =>
      subst hz
      cases hdl'
      have hn : (importName wholeName 216).toNat = 292 := by decide +kernel
      have ht : (importThunks wholeName 216).toNat = 256 := by decide +kernel
      have hr₂ : ReadsDll (r.parser wholeName) (importName wholeName 216)
        (importThunks wholeName 216) dll read := hr'
      cases hr₂ with
      | name =>
        refine hroom _ _ _ (by rw [hn]; decide) ?_
        rw [hn, hname]
        decide
      | thunks hta =>
        refine hroom _ _ _ (by rw [ht]; decide) ?_
        dsimp only
        rw [length_slice, hsymbol, ht]
        change 0 + min 16 _ + 256 ≤ 4096
        omega
      | @symbol table k thunk symbol' hta hth' hs hno =>
        cases hta.symm.trans hth
        rw [hsymbol, getElem?_singleton] at hs
        split at hs
        · next hk =>
          subst hk
          cases hs
          have h288 : readU64 wholeName 256 = some 288 := by decide +kernel
          cases h288.symm.trans hth'
          refine hroom _ _ _ (by decide) ?_
          rw [hf]
          decide
        · cases hs
    · cases hdl'
  | delayImported hd hdl hr' =>
    have hdl' : r.info.delayImports[_]? = some _ := hdl
    rw [length_eq_zero_iff.mp hde] at hdl'
    cases hdl'
  | exportName hp => exact absurd hes hp
  | forwarder hs =>
    have hs' : _ ∈ r.info.exports := hs
    rw [length_eq_zero_iff.mp hex] at hs'
    cases hs'

end TradutorLinux.Loader
