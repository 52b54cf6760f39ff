import TradutorLinux.Msix.Wire
import TradutorLinux.Msix.WireDecoder

/-!
# The TLMS round trip

`write_wire` fills the buffer front to back, so every record is in it as it was
written.  The decoder finds the package again, except for one slip: the writer
puts the stride of an application record into the descriptor of an empty table
too, and the decoder wants the descriptor of an empty table to be zero.

## Main definitions

* `Planned m plan` — what the planner has settled.
* `Delivered m plan out` — the buffer holds the records of the plan.

## Main results

* `Delivered.decodeWire_ok`, `Delivered.decodeWire_fails` — with an application, and without one.
* `roundTrip_iff`
-/

namespace TradutorLinux.Msix

open StringPool Records List Reader

/-! ### The package on the other side -/

def ApplicationModel.toInfo (application : ApplicationModel) : AppxApplication where
  id := application.id
  executable := application.executable
  displayName := application.displayName
  entryPoint := application.entryPoint

/-- The package, field by field. -/
def PackageModel.toInfo (model : PackageModel) : AppxPackageInfo where
  packageName := model.packageName
  publisher := model.publisher
  version := model.version
  applications := model.applications.map ApplicationModel.toInfo
  mainExecutable := model.mainExecutable

/-! ### The plan -/

/-- Where the application table ends, with `count` applications. -/
def applicationsEnd (count : ℕ) : ℕ := 192 + count * 64

/-- What the planner has settled. -/
structure Planned (m : PackageModel) (plan : WirePlan) : Prop where
  few : m.applications.length ≤ limitMaxZipEntries
  infoOffset : plan.infoOffset = 128
  applicationsOffset : plan.applicationsOffset = if m.applications.length = 0 then 0 else 192
  stringsOffset : plan.stringsOffset =
    if plan.stringValues = [] then 0 else applicationsEnd m.applications.length
  total : plan.totalSize = poolEnd (applicationsEnd m.applications.length) plan.stringValues
  limit : plan.totalSize ≤ limitMaxSerializedBytes
  refs : plan.stringRefs = stringRefs plan.stringsOffset plan.stringValues
  nonempty : ∀ s ∈ plan.stringValues, s ≠ []
  short : ∀ s ∈ plan.stringValues, s.length ≤ u32Max
  poolCount : plan.stringValues.length ≤ 4 + m.applications.length * 4
  info : ∃ indexes, List.Forall₂ (Resolves plan.stringValues) indexes m.infoStrings ∧
    plan.infoRefs = indexes.map fun index => refFor index plan.stringRefs
  applications : ∃ indexes,
    List.Forall₂ (List.Forall₂ (Resolves plan.stringValues)) indexes
      (m.applications.map ApplicationModel.strings) ∧
    plan.applicationRefs = indexes.map fun row => row.map fun index => refFor index plan.stringRefs

theorem sum_strings (a : List ApplicationModel) :
    ((a.map ApplicationModel.strings).map List.length).sum = a.length * 4 := by
  induction a with
  | nil => rfl
  | cons ap a ih =>
    rw [map_cons, map_cons, sum_cons, ih, length_cons]
    change 4 + a.length * 4 = (a.length + 1) * 4
    omega

theorem applicationsEnd_mod (n : ℕ) : applicationsEnd n % 8 = 0 := by
  unfold applicationsEnd
  omega

variable {m : PackageModel} {plan pl : WirePlan}

theorem planned_of_planWire (h : planWire m = .ok plan) : Planned m plan := by
  unfold planWire at h
  split at h
  · cases h
  next hf =>
  dsimp only at h
  obtain ⟨-, hi, hil, hm⟩ := internAll_spec m.infoStrings []
  obtain ⟨hg, hr, hrl, hrm⟩ :=
    internRows_spec (m.applications.map ApplicationModel.strings) (internAll [] m.infoStrings).1
  generalize internAll [] m.infoStrings = info at *
  generalize internRows info.1 (m.applications.map ApplicationModel.strings) = rows at *
  have he : rows.2.length = m.applications.length :=
    hr.length_eq.trans (length_map _)
  rw [sum_strings] at hrl
  split at h
  · cases h
  next hh =>
  split at h
  · cases h
  next hl =>
  cases h
  have ht : placeTable (tableHeaderSize + wireInfoStride) rows.2.length
      wireApplicationStride = (if m.applications.length = 0 then 0 else 192,
        applicationsEnd m.applications.length) := by
    unfold placeTable
    rw [he]
    split
    · next hz =>
      rw [hz]
      rfl
    · rfl
  have hst : placeStrings (applicationsEnd m.applications.length) rows.1 =
      (if rows.1 = [] then 0 else applicationsEnd m.applications.length,
        poolEnd (applicationsEnd m.applications.length) rows.1) := by
    unfold placeStrings
    rw [pad8_of_mod (applicationsEnd_mod _)]
    split
    · next hni =>
      rw [hni]
      rfl
    · rfl
  rw [ht, hst] at hl ⊢
  have hp : ∀ s ∈ rows.1, s ≠ [] := fun s hs => by
    rcases hrm s hs with hs | ⟨-, hn⟩
    · rcases hm s hs with hs | ⟨-, hn⟩
      · cases hs
      · exact hn
    · exact hn
  refine ⟨not_lt.1 hf, rfl, rfl, rfl, rfl, not_lt.1 hl, rfl, hp, fun s hs => ?_, ?_,
    ⟨info.2, hi.imp fun _ _ h => h.mono hg, rfl⟩, ⟨rows.2, hr, rfl⟩⟩
  · have := find?_eq_none.1 hh s hs
    simpa using this
  · change info.1.length ≤ 0 + 4 at hil
    dsimp only
    omega

namespace Planned

theorem length_infoRefs (h : Planned m pl) : pl.infoRefs.length = 4 := by
  obtain ⟨i, he, hr⟩ := h.info
  rw [hr, length_map, he.length_eq]
  rfl

theorem length_applicationRefs (h : Planned m pl) :
    pl.applicationRefs.length = m.applications.length := by
  obtain ⟨i, he, hr⟩ := h.applications
  rw [hr, length_map, he.length_eq, length_map]

theorem length_of_mem_applicationRefs (h : Planned m pl) {r : List StringRef}
    (ho : r ∈ pl.applicationRefs) : r.length = 4 := by
  obtain ⟨ind, he, hr⟩ := h.applications
  rw [hr] at ho
  obtain ⟨r', hr', rfl⟩ := mem_map.1 ho
  obtain ⟨i, hi⟩ := mem_iff_getElem?.1 hr'
  obtain ⟨ht, hg⟩ := List.getElem?_eq_some_iff.1 hi
  have hs := he.get ht (by rw [← he.length_eq]; exact ht)
  rw [length_map]
  have hl := hs.length_eq
  rwa [get_eq_getElem, get_eq_getElem, getElem_map, hg] at hl

theorem sequential (h : Planned m pl) : Sequential 0 (wireRecords pl) pl.totalSize := by
  have hs : Sequential (applicationsEnd m.applications.length)
      (stringRecords pl.stringsOffset pl.stringValues) pl.totalSize := by
    rw [h.total, h.stringsOffset]
    split
    · next hn =>
      rw [hn]
      exact le_refl _
    · exact sequential_stringRecords _ _
  have hap : Sequential 192 (applicationRecords pl) (applicationsEnd m.applications.length) := by
    have hr := sequential_rowRecords wireApplicationStride
      (pl.applicationRefs.map (refFields 0)) 192
    rw [length_map, h.length_applicationRefs] at hr
    have hp := h.applicationsOffset
    unfold applicationRecords
    split
    · next he =>
      split at hp
      · contradiction
      · rw [hp]
        exact hr
    · exact Nat.le_add_right _ _
  have hi : Sequential 104 [infoRecord pl] 192 := by
    unfold infoRecord
    rw [h.infoOffset]
    exact ⟨show 104 ≤ 128 by decide, le_refl _⟩
  have hh : Sequential 0 (headerRecord pl :: (descriptors pl).mapIdx descriptorRecord) 104 := by
    simp [headerRecord, descriptors, descriptorRecord, descriptorPlace, Records.Sequential,
      tableDescriptorOffset, tableDescriptorSize]
  have hf := (Sequential.append (Sequential.append hap hi) hh)
  have ha := Sequential.append hs hf
  exact ha

theorem fits_refRecord {o : ℕ} {rs : List StringRef} (hl : rs.length = 4) :
    (⟨o, 64, refFields 0 rs⟩ : Record).Fits := by
  have hs := shaped_refFields rs 0
  rw [hl] at hs
  exact Record.fits_of_shaped _ hs (show ∀ e ∈ refShape 0 4, e.1 + e.2 ≤ 64 by decide) (by decide)

theorem fits (h : Planned m pl) : ∀ r ∈ wireRecords pl, r.Fits := by
  intro r hr
  simp only [wireRecords, cons_append, mem_cons, mem_append] at hr
  rcases hr with rfl | ⟨hr | rfl | hr⟩ | hr
  · exact Record.fits_of_shaped [(0, 4), (4, 2), (6, 2), (8, 4), (12, 8), (20, 4)]
      (shaped_of_eq rfl) (by simp [headerRecord, tableDescriptorOffset]) (by decide)
  · obtain ⟨i, hi, rfl⟩ := mem_mapIdx.1 hr
    exact fits_descriptorRecord _ _
  · exact fits_refRecord h.length_infoRefs
  · unfold applicationRecords at hr
    split at hr
    · obtain ⟨hs, hm⟩ := exists_of_mem_rowRecords hr
      obtain ⟨ro, ho, hf⟩ := mem_map.1 hm
      obtain ⟨o, s, fields⟩ := r
      obtain rfl : s = 64 := hs
      obtain rfl : refFields 0 ro = fields := hf
      exact fits_refRecord (h.length_of_mem_applicationRefs ho)
    · cases hr
  · exact fits_of_mem_stringRecords hr

end Planned

/-! ### The buffer -/

/-- The buffer holds the records of the plan, and zeros in the reserved descriptor. -/
structure Delivered (m : PackageModel) (plan : WirePlan) (out : ByteString) : Prop where
  planned : Planned m plan
  length : out.length = plan.totalSize
  written : ∀ r ∈ wireRecords plan, Written out r
  reserved : Written out ⟨descriptorPlace 3, tableDescriptorSize, []⟩

theorem Planned.le_total (h : Planned m pl) :
    applicationsEnd m.applications.length ≤ pl.totalSize := by
  rw [h.total]
  exact le_poolEnd _ _

theorem Planned.beside (h : Planned m pl) : ∀ r ∈ wireRecords pl,
    r.offset + r.size ≤ descriptorPlace 3 ∨ descriptorPlace 3 + tableDescriptorSize ≤ r.offset := by
  intro r hr
  simp only [wireRecords, cons_append, mem_cons, mem_append] at hr
  rcases hr with rfl | ⟨hr | rfl | hr⟩ | hr
  · exact .inl (show 0 + 32 ≤ 104 by decide)
  · obtain ⟨i, hi, rfl⟩ := mem_mapIdx.1 hr
    left
    change descriptorPlace i + tableDescriptorSize ≤ descriptorPlace 3
    have hl : i < 3 := hi
    unfold descriptorPlace tableDescriptorSize
    omega
  · right
    change 128 ≤ pl.infoOffset
    rw [h.infoOffset]
  · right
    have hp := h.applicationsOffset
    unfold applicationRecords at hr
    split at hr
    · next he =>
      have ho : pl.applicationsOffset = 192 := by
        rw [hp] at he ⊢
        split at he
        · contradiction
        · next hc => rw [if_neg hc]
      have hs := ((sequential_rowRecords _ _ _).inside.2 r hr).1
      change 128 ≤ r.offset
      omega
    · cases hr
  · right
    by_cases hn : pl.stringValues = []
    · rw [hn] at hr
      cases hr
    have hp := h.stringsOffset
    rw [if_neg hn] at hp
    have hs := ((sequential_stringRecords _ _).inside.2 r hr).1
    change 128 ≤ r.offset
    unfold applicationsEnd at hp
    omega

theorem delivered_of_planWire {o : ByteString} (hp : planWire m = .ok plan)
    (hl : o.length = plan.totalSize) : Delivered m plan (writeWire o plan) := by
  have h := planned_of_planWire hp
  have ho : writeWire o plan =
      putRecords (wireRecords plan) (List.replicate plan.totalSize 0) := by
    unfold writeWire
    rw [← hl, drop_length, append_nil]
  have ht := h.le_total
  rw [ho]
  refine ⟨h, length_of_sequential h.sequential h.fits, written_of_sequential h.sequential h.fits,
    written_beside h.sequential h.fits ?_ h.beside⟩
  unfold applicationsEnd at ht
  change 104 + 24 ≤ plan.totalSize
  omega

namespace Delivered

variable {out : ByteString}

theorem length_le (h : Delivered m pl out) : out.length ≤ limitMaxSerializedBytes := by
  rw [h.length]
  exact h.planned.limit

theorem length_le_wordMax (h : Delivered m pl out) : out.length ≤ wordMax :=
  h.length_le.trans (by decide)

/-! ### Header and descriptors -/

theorem checkHeader_ok (h : Delivered m pl out) :
    checkHeader ⟨dialect, out⟩ = .ok pl.totalSize := by
  have hw : Written out (headerRecord pl) := h.written _ mem_cons_self
  have hs : Shaped (headerRecord pl).fields
      [(0, 4), (4, 2), (6, 2), (8, 4), (12, 8), (20, 4)] := shaped_of_eq rfl
  have ht := h.planned.le_total
  have hl := h.planned.limit
  unfold applicationsEnd at ht
  have hm : slice out 0 4 = kWireMagic := hw.field (0, wireMagic) mem_cons_self
  have hi : ¬out.length < tableHeaderSize := by
    rw [h.length]
    change ¬pl.totalSize < 128
    omega
  have ho : pl.totalSize < 256 ^ 8 := lt_of_le_of_lt hl (by decide)
  have hv : ¬(wireMajor ≠ kWireMajor ∨ wireMinor ≠ kWireMinor ∨
      tableHeaderSize ≠ tableHeaderSize ∨ pl.totalSize ≠ out.length ∨
      pl.totalSize > kLimitMaxSerializedBytes ∨ wireTableCount ≠ kTableCount ∨
      (0 : ℕ) ≠ 0 ∨ (0 : ℕ) ≠ 0) := by
    have ha : pl.totalSize ≤ kLimitMaxSerializedBytes := hl
    have he := h.length
    simp only [wireMajor, kWireMajor, wireMinor, kWireMinor, wireTableCount, kTableCount, ne_eq,
      not_true_eq_false, false_or, or_false]
    omega
  dsimp only [checkHeader]
  rw [if_neg hi, if_neg (not_not.2 hm)]
  refine bind_of_ok (readWord_front hw rfl (v := wireMajor) (by simp [headerRecord])
    (by decide)) ?_
  refine bind_of_ok (readWord_front hw rfl (v := wireMinor) (by simp [headerRecord])
    (by decide)) ?_
  refine bind_of_ok (readWord_front hw rfl (v := tableHeaderSize) (by simp [headerRecord])
    (by decide)) ?_
  refine bind_of_ok (readWord_front hw rfl (v := pl.totalSize) (by simp [headerRecord])
    ho) ?_
  refine bind_of_ok (readWord_front hw rfl (v := wireTableCount) (by simp [headerRecord])
    (by decide)) ?_
  refine bind_of_ok (readWord_frontGap hw rfl hs (show 24 + 4 ≤ 32 by decide) (by decide)) ?_
  refine bind_of_ok (readWord_frontGap hw rfl hs (show 28 + 4 ≤ 32 by decide) (by decide)) ?_
  exact if_neg hv

theorem readDescriptors_ok (h : Delivered m pl out) :
    (⟨dialect, out⟩ : Reader).readDescriptor 0 = .ok ⟨pl.infoOffset, 1, wireInfoStride, 0⟩ ∧
    (⟨dialect, out⟩ : Reader).readDescriptor 1 = .ok ⟨pl.applicationsOffset,
      m.applications.length, wireApplicationStride, 0⟩ ∧
    (⟨dialect, out⟩ : Reader).readDescriptor 2 = .ok ⟨pl.stringsOffset,
      pl.stringValues.length, 0, if pl.stringValues = [] then 0 else variableRecords⟩ ∧
    (⟨dialect, out⟩ : Reader).readDescriptor 3 = .ok {} := by
  have hp := h.planned
  have hf := hp.few
  have hc := hp.poolCount
  have ht := hp.le_total
  have hl := hp.limit
  unfold limitMaxZipEntries at hf
  have hw : ∀ i (hi : i < 3), Written out (descriptorRecord i (descriptors pl)[i]) := by
    intro i hi
    refine h.written _ ?_
    simp only [wireRecords, cons_append, mem_cons, mem_append]
    exact .inr (.inl (.inl (mem_mapIdx.2 ⟨i, hi, rfl⟩)))
  refine ⟨?_, ?_, ?_, readDescriptor_absent h.reserved⟩
  · refine Reader.readDescriptor_ok (hw 0 (by decide)) ?_ (by decide) (by decide) (by decide)
    rw [hp.infoOffset]
    decide
  · rw [← hp.length_applicationRefs]
    refine Reader.readDescriptor_ok (hw 1 (by decide)) ?_ ?_ (by decide) (by decide)
    · rw [hp.applicationsOffset]
      split <;> decide
    · rw [hp.length_applicationRefs]
      omega
  · refine Reader.readDescriptor_ok (hw 2 (by decide)) ?_ (by omega) (by decide) ?_
    · rw [hp.stringsOffset]
      unfold applicationsEnd
      split <;> omega
    · split <;> decide

def stringTable (plan : WirePlan) : WireTable :=
  ⟨plan.stringsOffset, plan.stringValues.length, 0,
    if plan.stringValues = [] then 0 else variableRecords⟩

/-- Where the decoder takes the string table to end. -/
def stringsEnd (plan : WirePlan) : ℕ := if plan.stringValues = [] then 0 else plan.totalSize

theorem stringTable_range (h : Delivered m pl out) :
    (⟨dialect, out⟩ : Reader).descriptorRange (stringTable pl) 0 variableRecords
      pl.totalSize = .ok (stringsEnd pl) := by
  have ht := h.planned.le_total
  have hp := h.planned.stringsOffset
  unfold stringTable stringsEnd
  by_cases hn : pl.stringValues = []
  · rw [if_pos hn, if_pos hn, hp, hn]
    rfl
  · rw [if_neg hn] at hp
    rw [if_neg hn, if_neg hn, hp]
    have hm := applicationsEnd_mod m.applications.length
    refine descriptorRange_strings ?_ ?_ hm ht
    · exact (length_pos_iff.2 hn).ne'
    · change 128 ≤ 192 + _
      omega

theorem readTables_ok (h : Delivered m pl out) (hne : m.applications ≠ []) :
    readTables ⟨dialect, out⟩ pl.totalSize =
      .ok ⟨⟨128, 1, 64, 0⟩, ⟨192, m.applications.length, 64, 0⟩, stringTable pl,
        stringsEnd pl⟩ := by
  have ha := h.planned
  have hf := ha.few
  have hc := ha.poolCount
  have ht := ha.le_total
  have hl : pl.totalSize ≤ wordMax := ha.limit.trans (by decide)
  have hp := ha.stringsOffset
  unfold applicationsEnd at ht hp
  unfold limitMaxZipEntries at hf
  have happ : m.applications.length ≠ 0 := fun h => hne (length_eq_zero_iff.1 h)
  obtain ⟨hi, hap, hs, hr⟩ := h.readDescriptors_ok
  rw [ha.infoOffset] at hi
  rw [ha.applicationsOffset, if_neg happ] at hap
  have ho : ¬((1 : ℕ) ≠ 1 ∨ m.applications.length > kLimitMaxZipEntries ∨
      pl.stringValues.length > kLimitMaxStrings ∨ (0 : ℕ) ≠ 0) := by
    unfold kLimitMaxZipEntries kLimitMaxStrings
    omega
  refine bind_of_ok hi ?_
  refine bind_of_ok hap ?_
  refine bind_of_ok hs ?_
  refine bind_of_ok hr ?_
  refine bind_of_ok (descriptorRange_ok Nat.one_ne_zero (by decide) rfl (by decide)
    (by change 192 ≤ pl.totalSize; omega) hl) ?_
  refine bind_of_ok (descriptorRange_ok happ (by decide) rfl (by decide) ht hl) ?_
  refine bind_of_ok h.stringTable_range ?_
  refine bind_of_ok descriptorRange_absent ?_
  refine (if_neg ho).trans ?_
  refine bind_of_ok (rangesDoNotOverlap_ok ?_) rfl
  have hsp : pl.stringValues.length ≠ 0 →
      192 + m.applications.length * 64 ≤ pl.stringsOffset := fun he => by
    rw [hp, if_neg fun hn => he (length_eq_zero_iff.2 hn)]
  simp only [pairwise_cons, mem_cons, not_mem_nil, or_false, forall_eq_or_imp,
    forall_eq, IsEmpty.forall_iff, implies_true, List.Pairwise.nil, and_true, wireInfoStride,
    wireApplicationStride]
  omega

theorem readTables_fails (h : Delivered m pl out) (hn : m.applications = []) :
    readTables ⟨dialect, out⟩ pl.totalSize =
      .error ⟨kErrorWireFormat, kPhaseWire, 0, 0, text "descritor vazio TLMS não está zerado"⟩ := by
  have hp := h.planned
  have ht := hp.le_total
  have hl : pl.totalSize ≤ wordMax := hp.limit.trans (by decide)
  unfold applicationsEnd at ht
  obtain ⟨hi, ha, hs, hr⟩ := h.readDescriptors_ok
  rw [hp.infoOffset] at hi
  rw [hp.applicationsOffset, hn] at ha
  refine bind_of_ok hi ?_
  refine bind_of_ok ha ?_
  refine bind_of_ok hs ?_
  refine bind_of_ok hr ?_
  exact bind_of_ok (descriptorRange_ok Nat.one_ne_zero (by decide) rfl (by decide)
    (by change 192 ≤ pl.totalSize; omega) hl) rfl

/-! ### Strings -/

theorem readStringWord_ok {r : Reader} {o value : ℕ} (h : r.readWord o 4 = .ok value) :
    readStringWord r o = .ok value := by
  unfold readStringWord
  rw [h]

theorem readStrings_ok {p : List ByteString} {stop : ℕ} (ht : stop ≤ limitMaxSerializedBytes)
    (ho : ∀ s ∈ p, s ≠ []) (hs : ∀ s ∈ p, s.length ≤ u32Max) :
    ∀ c, (∀ r ∈ stringRecords c p, Written out r) → poolEnd c p ≤ stop →
      readStrings ⟨dialect, out⟩ stop c p.length = .ok (stringRefs c p, poolEnd c p) := by
  induction p with
  | nil => intro c _ _; rfl
  | cons value p ih =>
    intro c hwr hen
    obtain ⟨hf, hr⟩ := forall_mem_cons.1 hwr
    obtain ⟨hv, ho⟩ := forall_mem_cons.1 ho
    obtain ⟨hl, hs⟩ := forall_mem_cons.1 hs
    have hpo : value.length ≠ 0 := (length_pos_iff.2 hv).ne'
    have hn := le_nextRecord c value
    have hb := le_poolEnd p (nextRecord c value)
    have he' : poolEnd (nextRecord c value) p ≤ stop := hen
    have hm : limitMaxSerializedBytes ≤ wordMax - 7 := by decide
    have hw : value.length < 256 ^ 4 := lt_of_le_of_lt hl (by decide)
    obtain ⟨hre, he, hp⟩ := Reader.stringRecord_reads dialect hf hw
    have hi : (!inRange stop (c + 8) value.length) = false := by
      rw [Bool.not_eq_false', inRange_iff]
      omega
    have hd : ¬(c + 8 > wordMax ∨ (false : Bool)) := by
      rw [or_iff_left Bool.false_ne_true]
      omega
    have hro : ¬(c + 8 + value.length > wordMax ∨ c + 8 + value.length > wordMax - 7 ∨
        nextRecord c value > stop) := by omega
    refine bind_of_ok (readStringWord_ok hre) ?_
    refine bind_of_ok (readStringWord_ok he) ?_
    rw [if_neg (not_not.2 rfl), if_neg hpo]
    dsimp only
    rw [hi, if_neg hd]
    refine (if_neg hro).trans ?_
    refine bind_of_ok hp ?_
    exact bind_of_ok (ih ho hs (nextRecord c value) hr he') rfl

theorem written_strings (h : Delivered m pl out) :
    ∀ r ∈ stringRecords pl.stringsOffset pl.stringValues, Written out r := by
  intro r hr
  refine h.written r ?_
  simp only [wireRecords, cons_append, mem_cons, mem_append]
  exact .inr (.inr hr)

theorem readStringTable_ok (h : Delivered m pl out) :
    readStringTable ⟨dialect, out⟩ (stringTable pl) (stringsEnd pl) = .ok pl.stringRefs := by
  have hp := h.planned
  rw [hp.refs]
  dsimp only [readStringTable, stringTable, stringsEnd]
  by_cases hn : pl.stringValues = []
  · rw [hn]
    rfl
  have hl : pl.stringValues.length ≠ 0 := (length_pos_iff.2 hn).ne'
  have he : poolEnd pl.stringsOffset pl.stringValues = pl.totalSize := by
    rw [hp.total, hp.stringsOffset, if_neg hn]
  rw [if_neg hl, if_neg hn]
  refine bind_of_ok (readStrings_ok hp.limit hp.nonempty hp.short
    pl.stringsOffset h.written_strings he.le) ?_
  exact if_neg (not_not.2 he)

/-! ### Records -/

theorem readInfo_ok (h : Delivered m pl out) {i : ℕ} {value : ByteString}
    (hv : m.infoStrings[i]? = some value) :
    (⟨dialect, out⟩ : Reader).readRef pl.stringRefs (128 + i * 16) = .ok value := by
  have hl := h.planned
  obtain ⟨ind, he, hr⟩ := hl.info
  have hw : Written out (infoRecord pl) := by
    refine h.written _ ?_
    simp [wireRecords]
  obtain ⟨ht, hg⟩ := List.getElem?_eq_some_iff.1 hv
  have hi : i < ind.length := by rw [he.length_eq]; exact ht
  have hs := he.get hi ht
  rw [get_eq_getElem, get_eq_getElem, hg] at hs
  have hre : pl.infoRefs[i]? = some (refFor ind[i] pl.stringRefs) := by
    rw [hr, getElem?_map, getElem?_eq_getElem hi]
    rfl
  have hf := refField_subset_refFields 0 hre
  rw [zero_add] at hf
  have hp : (infoRecord pl).offset = 128 := hl.infoOffset
  rw [hl.refs] at hf ⊢
  rw [← hp]
  exact Reader.readRef_ok hw h.length_le_wordMax h.written_strings hs hf

theorem readApplication_ok (h : Delivered m pl out) {i : ℕ} {a : ApplicationModel}
    (ha : m.applications[i]? = some a) :
    readApplication ⟨dialect, out⟩ ⟨192, m.applications.length, 64, 0⟩ pl.stringRefs i =
      .ok a.toInfo := by
  have hp := h.planned
  have ht := hp.le_total
  obtain ⟨hl, hg⟩ := List.getElem?_eq_some_iff.1 ha
  obtain ⟨rs, he, hre⟩ := hp.applications
  have ho : i < rs.length := by
    rw [he.length_eq, length_map]
    exact hl
  have hrr := he.get ho (by rw [length_map]; exact hl)
  rw [get_eq_getElem, get_eq_getElem, getElem_map, hg] at hrr
  have hrf : pl.applicationRefs[i]? = some (rs[i].map fun ix => refFor ix pl.stringRefs) := by
    rw [hre, getElem?_map, getElem?_eq_getElem ho]
    rfl
  have hof : pl.applicationsOffset = 192 := by rw [hp.applicationsOffset, if_neg (by omega)]
  have hw : Written out ⟨192 + i * 64, 64,
      refFields 0 (rs[i].map fun ix => refFor ix pl.stringRefs)⟩ := by
    refine h.written _ ?_
    simp only [wireRecords, applicationRecords, hof, cons_append, mem_cons, mem_append]
    refine .inr (.inl (.inr (.inr (mem_rowRecords ?_))))
    rw [getElem?_map, hrf]
    rfl
  have hr : ∀ k value, a.strings[k]? = some value →
      (⟨dialect, out⟩ : Reader).readRef pl.stringRefs (192 + i * 64 + k * 16) = .ok value := by
    intro k value hv
    obtain ⟨hk, hst⟩ := List.getElem?_eq_some_iff.1 hv
    have hi : k < rs[i].length := by rw [hrr.length_eq]; exact hk
    have hs := hrr.get hi hk
    rw [get_eq_getElem, get_eq_getElem, hst] at hs
    have ho : (rs[i].map fun ix => refFor ix pl.stringRefs)[k]? =
        some (refFor rs[i][k] pl.stringRefs) := by
      rw [getElem?_map, getElem?_eq_getElem hi]
      rfl
    have hf := refField_subset_refFields 0 ho
    rw [zero_add, hp.refs] at hf
    rw [hp.refs] at hw ⊢
    exact Reader.readRef_ok hw h.length_le_wordMax h.written_strings hs hf
  have hn : 192 + m.applications.length * 64 ≤ out.length := by
    rw [h.length]
    exact ht
  refine bind_of_ok (Reader.fixedRecord_ok hl hn h.length_le_wordMax) ?_
  refine bind_of_ok (hr 0 a.id rfl) ?_
  refine bind_of_ok (hr 1 a.executable rfl) ?_
  refine bind_of_ok (hr 2 a.displayName rfl) ?_
  exact bind_of_ok (hr 3 a.entryPoint rfl) rfl

theorem decodeWire_ok (h : Delivered m pl out) (hn : m.applications ≠ []) :
    decodeWire out = .ok { m.toInfo with
      mainExecutable :=
        if m.mainExecutable.getD [] = [] then none else some (m.mainExecutable.getD []) } := by
  have ht := h.planned.le_total
  unfold applicationsEnd at ht
  have he : 128 + 1 * 64 ≤ out.length := by
    rw [h.length]
    omega
  have hrec : (⟨dialect, out⟩ : Reader).fixedRecord ⟨128, 1, 64, 0⟩ 0 = .ok 128 :=
    Reader.fixedRecord_ok Nat.one_pos he h.length_le_wordMax
  have hp : collect (fun ix => readApplication ⟨dialect, out⟩
      ⟨192, m.applications.length, 64, 0⟩ pl.stringRefs ix) 0 m.applications.length =
        .ok (m.applications.map ApplicationModel.toInfo) := by
    have hl : (m.applications.map ApplicationModel.toInfo).length = m.applications.length :=
      length_map _
    rw [← hl]
    refine collect_of_forall fun i info hi => ?_
    rw [getElem?_map] at hi
    obtain ⟨a, ha, rfl⟩ := Option.map_eq_some_iff.1 hi
    rw [zero_add, hl]
    exact h.readApplication_ok ha
  refine bind_of_ok h.checkHeader_ok ?_
  refine bind_of_ok (h.readTables_ok hn) ?_
  refine bind_of_ok h.readStringTable_ok ?_
  refine bind_of_ok hrec ?_
  refine bind_of_ok (h.readInfo_ok (i := 0) rfl) ?_
  refine bind_of_ok (h.readInfo_ok (i := 1) rfl) ?_
  refine bind_of_ok (h.readInfo_ok (i := 2) rfl) ?_
  refine bind_of_ok (h.readInfo_ok (i := 3) rfl) ?_
  exact bind_of_ok hp rfl

theorem decodeWire_fails (h : Delivered m pl out) (hn : m.applications = []) :
    decodeWire out = .error ⟨kErrorWireFormat, kPhaseWire, 0, 0,
      text "descritor vazio TLMS não está zerado"⟩ := by
  refine bind_of_ok h.checkHeader_ok ?_
  rw [h.readTables_fails hn]
  rfl

end Delivered

/-! ### The round trip -/

/-- **The package comes back exactly when it has an application.**  The parser
takes as main executable only one that is not empty. -/
theorem roundTrip_iff {output : ByteString} (hplan : planWire m = .ok plan)
    (hlength : output.length = plan.totalSize) :
    decodeWire (writeWire output plan) = .ok m.toInfo ↔
      m.applications ≠ [] ∧ m.mainExecutable ≠ some [] := by
  have h := delivered_of_planWire hplan hlength
  by_cases hn : m.applications = []
  · rw [h.decodeWire_fails hn]
    constructor
    · intro hd
      cases hd
    · intro hb
      exact absurd hn hb.1
  · rw [h.decodeWire_ok hn]
    constructor
    · intro hd
      refine ⟨hn, fun hm => ?_⟩
      have hi := congrArg AppxPackageInfo.mainExecutable (Except.ok.inj hd)
      change (if m.mainExecutable.getD [] = [] then none else some (m.mainExecutable.getD [])) =
        m.mainExecutable at hi
      rw [hm] at hi
      cases hi
    · rintro ⟨-, hm⟩
      have hs : (if m.mainExecutable.getD [] = [] then none
          else some (m.mainExecutable.getD [])) = m.mainExecutable := by
        cases hx : m.mainExecutable with
        | none => rfl
        | some e =>
          refine (if_neg fun he => hm ?_).trans rfl
          rw [hx]
          exact congrArg some he
      rw [hs]
      rfl

def oneApplication : PackageModel where
  packageName := [0x41, 0x42]
  version := [0x31]
  mainExecutable := some [0x43]
  applications := [⟨[0x41, 0x42], [0x43], [], [0x31]⟩]

theorem roundTrip_oneApplication : ∃ plan, planWire oneApplication = .ok plan ∧
      decodeWire (writeWire (List.replicate plan.totalSize 0xAA) plan) =
        .ok oneApplication.toInfo := by
  have hl : (planWire oneApplication).isOk = true := by decide +kernel
  obtain ⟨plan, hp⟩ := exists_ok hl
  exact ⟨plan, hp, (roundTrip_iff hp length_replicate).mpr ⟨by decide, by decide⟩⟩

/-- A manifest with an identity and nothing else: the buffer is refused. -/
theorem not_roundTrip_noApplication : ∃ plan, planWire { packageName := [0x41, 0x42] } = .ok plan ∧
      ∀ output : ByteString, output.length = plan.totalSize →
        decodeWire (writeWire output plan) = .error ⟨kErrorWireFormat, kPhaseWire, 0, 0,
          text "descritor vazio TLMS não está zerado"⟩ := by
  have hl : (planWire { packageName := [0x41, 0x42] }).isOk = true := by decide +kernel
  obtain ⟨plan, hp⟩ := exists_ok hl
  exact ⟨plan, hp, fun output he => (delivered_of_planWire hp he).decodeWire_fails rfl⟩

end TradutorLinux.Msix
