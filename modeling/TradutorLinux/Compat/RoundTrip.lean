import TradutorLinux.Compat.RustJson
import TradutorLinux.Compat.RustProfile
import TradutorLinux.Compat.Wire
import TradutorLinux.Compat.WireDecoder

/-!
# The TLPR round trip

A profile that the Rust side has accepted is small enough to be written, and the
decoder finds every field of it.  What is left is the validation in the decoder:
it allows a module name 255 bytes, which the Rust side tests before it appends
`.dll`, and it compares the sources of files as paths, which the Rust side
compares as bytes.

## Main definitions

* `Deliverable m` — what the wire needs of a profile.
* `Planned m plan`, `Delivered m plan out` — the layout, and the buffer that has it.

## Main results

* `decodeWire_eq` — the decoder finds the profile and validates it.
* `wireRoundTrip_iff`
-/

namespace TradutorLinux.Compat

open StringPool Records List Reader WirePlan WireTable

/-! ### What the wire needs -/

def profileBytes (m : ProfileModel) : ℕ :=
  poolBytes m.infoStrings + ((m.files.map FileMapping.strings).map poolBytes).sum +
    ((m.dlls.map DllMapping.strings).map poolBytes).sum

/-- What the wire needs of a profile. -/
structure Deliverable (m : ProfileModel) : Prop where
  schema : m.schema = 1 ∨ m.schema = 2 ∨ m.schema = 3 ∨ m.schema = 4
  dllsSchema : m.schema = 1 → m.dlls = []
  backendSchema : m.backendDeclared = true → m.schema = 3 ∨ m.schema = 4
  extensionSchema : m.extension ≠ [] → m.schema = 4
  backend : m.backendKind = wireBackendNative ∨ m.backendKind = wireBackendProton
  nativeVersion : m.backendKind = wireBackendNative → m.minVersion = []
  files : m.files.length ≤ limitMaxFiles
  dlls : m.dlls.length ≤ limitMaxDlls
  mappings : 24 * (m.files.length + m.dlls.length) ≤ limitMaxInputBytes
  bytes : profileBytes m ≤ limitMaxStringBytes

variable {p m : ProfileModel} {expected ex : Identity} {size : ℕ}

theorem files_of_validated (h : Validated p ex m) : m.files = p.files := by
  have heq : ∀ {as bs : List FileMapping}, List.Forall₂ FileRule as bs → bs = as := by
    intro as bs ha
    induction ha with
    | nil => rfl
    | cons hr _ ih => rw [ih, hr.eq]
  exact heq h.files

theorem le_sum_files (fs : List FileMapping) :
    ((fs.map FileMapping.strings).map poolBytes).sum + 24 * fs.length =
      (fs.map fun mp => mp.source.length + mp.target.length + 24).sum := by
  induction fs with
  | nil => rfl
  | cons mp fs ih =>
    simp only [map_cons, sum_cons, length_cons]
    have hr : poolBytes mp.strings = mp.source.length + mp.target.length := by
      simp [poolBytes, FileMapping.strings]
    omega

theorem le_sum_dlls {ds n : List DllMapping} (h : List.Forall₂ DllRule ds n) :
    ((n.map DllMapping.strings).map poolBytes).sum + 20 * n.length ≤
      (ds.map fun mp => mp.moduleName.length + mp.source.length + 24).sum := by
  induction h with
  | nil => exact le_refl _
  | @cons mp other ds n hr _ ih =>
    simp only [map_cons, sum_cons, length_cons]
    have ho : poolBytes other.strings = other.moduleName.length + other.source.length := by
      simp [poolBytes, DllMapping.strings]
    have hmodule := (moduleName_of_normalize hr.moduleName).2.1
    rw [ho, hr.source]
    omega

theorem le_sum_dlls_count (ds : List DllMapping) : 24 * ds.length ≤
    (ds.map fun mp => mp.moduleName.length + mp.source.length + 24).sum := by
  induction ds with
  | nil => exact le_refl _
  | cons mp ds ih =>
    simp only [map_cons, sum_cons, length_cons]
    omega

/-- **An accepted profile of a small document has what the wire needs.** -/
theorem deliverable_of_validated (hp : RustJson.JsonParser.Parsed size p)
    (hs : size ≤ limitMaxInputBytes) (h : Validated p ex m) : Deliverable m := by
  have hf := files_of_validated h
  have hw := hp.weight
  have hfs := le_sum_files p.files
  have hds := le_sum_dlls h.dlls
  have hc := le_sum_dlls_count p.dlls
  have hd := h.dlls.length_eq
  unfold RustJson.JsonParser.weight at hw
  have hi : poolBytes m.infoStrings = p.appId.length + p.appSha256.length +
      p.appVersion.length + p.minVersion.length + p.extension.length := by
    rw [h.rest]
    simp [poolBytes, ProfileModel.infoStrings]
    omega
  have he := h.fields_result
  refine { he with backend := ?_, files := ?_, dlls := ?_, mappings := ?_, bytes := ?_ }
  · rw [h.rest]
    exact hp.backend
  · rw [hf]
    exact hp.files
  · rw [← hd]
    exact hp.dlls
  · rw [hf, ← hd]
    omega
  · unfold profileBytes
    rw [hf, hi]
    change _ ≤ 1048576
    unfold limitMaxInputBytes at hs
    omega

/-! ### The layout -/

def filesEnd (files : ℕ) : ℕ := 224 + files * 32

def dllsEnd (files dlls : ℕ) : ℕ := 224 + files * 32 + dlls * 32

/-- The rows of a table lead to its strings. -/
def RowsFor (pool : List ByteString) (refs : List StringRef) (rows : List (List StringRef))
    (values : List (List ByteString)) : Prop :=
  ∃ indexes, List.Forall₂ (List.Forall₂ (Resolves pool)) indexes values ∧
    rows = indexes.map fun row => row.map fun index => refFor index refs

/-- What the layout has settled. -/
structure Planned (m : ProfileModel) (plan : WirePlan) : Prop where
  filesOffset : plan.filesOffset = if m.files.length = 0 then 0 else 224
  dllsOffset : plan.dllsOffset = if m.dlls.length = 0 then 0 else filesEnd m.files.length
  stringsOffset : plan.stringsOffset =
    if plan.stringValues = [] then 0 else dllsEnd m.files.length m.dlls.length
  total : plan.totalSize = poolEnd (dllsEnd m.files.length m.dlls.length) plan.stringValues
  nonempty : ∀ s ∈ plan.stringValues, s ≠ []
  poolCount : plan.stringValues.length ≤ 5 + m.files.length * 2 + m.dlls.length * 2
  bytes : poolBytes plan.stringValues ≤ profileBytes m
  info : ∃ indexes, List.Forall₂ (Resolves plan.stringValues) indexes m.infoStrings ∧
    plan.infoRefs =
      indexes.map fun index => refFor index (stringRefs plan.stringsOffset plan.stringValues)
  files : RowsFor plan.stringValues (stringRefs plan.stringsOffset plan.stringValues)
    plan.fileRefs (m.files.map FileMapping.strings)
  dlls : RowsFor plan.stringValues (stringRefs plan.stringsOffset plan.stringValues)
    plan.dllRefs (m.dlls.map DllMapping.strings)

theorem sum_rows {α : Type} {ss : α → List ByteString} (h : ∀ a, (ss a).length = 2)
    (as : List α) : ((as.map ss).map List.length).sum = as.length * 2 := by
  induction as with
  | nil => rfl
  | cons a as ih =>
    rw [map_cons, map_cons, sum_cons, ih, length_cons, h]
    omega

theorem placeTable_eq {c n : ℕ} (hc : c % 8 = 0) :
    placeTable c n 32 = (if n = 0 then 0 else c, c + n * 32) := by
  unfold placeTable
  rw [pad8_of_mod hc]
  split
  · next hz => rw [hz, zero_mul, add_zero]
  · rfl

theorem planned (m : ProfileModel) : Planned m (planWire m) := by
  dsimp only [planWire]
  obtain ⟨-, hi, hil, hm⟩ := internAll_spec m.infoStrings []
  obtain ⟨hg, hf, hfl, hfm⟩ :=
    internRows_spec (m.files.map FileMapping.strings) (internAll [] m.infoStrings).1
  have hb := poolBytes_internAll m.infoStrings []
  have hfb := poolBytes_internRows (m.files.map FileMapping.strings) (internAll [] m.infoStrings).1
  generalize internAll [] m.infoStrings = info at *
  obtain ⟨hg', hd, hdl, hdm⟩ := internRows_spec (m.dlls.map DllMapping.strings)
    (internRows info.1 (m.files.map FileMapping.strings)).1
  have hdb := poolBytes_internRows (m.dlls.map DllMapping.strings)
    (internRows info.1 (m.files.map FileMapping.strings)).1
  generalize internRows info.1 (m.files.map FileMapping.strings) = files at *
  generalize internRows files.1 (m.dlls.map DllMapping.strings) = dlls at *
  have hfc : files.2.length = m.files.length := hf.length_eq.trans (length_map _)
  have hc : dlls.2.length = m.dlls.length := hd.length_eq.trans (length_map _)
  have hft : placeTable (tableHeaderSize + wireInfoStride) files.2.length
      wireFileStride = (if m.files.length = 0 then 0 else 224, filesEnd m.files.length) := by
    rw [hfc]
    exact placeTable_eq rfl
  have hdt : placeTable (filesEnd m.files.length) dlls.2.length wireDllStride =
      (if m.dlls.length = 0 then 0 else filesEnd m.files.length,
        dllsEnd m.files.length m.dlls.length) := by
    rw [hc]
    refine placeTable_eq ?_
    unfold filesEnd
    omega
  have ht : placeStrings (dllsEnd m.files.length m.dlls.length) dlls.1 =
      (if dlls.1 = [] then 0 else dllsEnd m.files.length m.dlls.length,
        poolEnd (dllsEnd m.files.length m.dlls.length) dlls.1) := by
    unfold placeStrings
    rw [pad8_of_mod (by unfold dllsEnd; omega)]
    split
    · next hl =>
      rw [hl]
      rfl
    · rfl
  rw [hft]
  rw [hdt]
  rw [ht]
  have ho : ∀ s ∈ dlls.1, s ≠ [] := fun s hs => by
    rcases hdm s hs with hs | ⟨-, hn⟩
    · rcases hfm s hs with hs | ⟨-, hn⟩
      · rcases hm s hs with hs | ⟨-, hn⟩
        · cases hs
        · exact hn
      · exact hn
    · exact hn
  refine ⟨rfl, rfl, rfl, rfl, ho, ?_, ?_, ⟨info.2, hi.imp fun _ _ h => (h.mono hg).mono hg', rfl⟩,
    ⟨files.2, hf.imp fun _ _ h => h.imp fun _ _ h => h.mono hg', rfl⟩,
    ⟨dlls.2, hd, rfl⟩⟩
  · rw [sum_rows fun _ => rfl] at hfl hdl
    change info.1.length ≤ 0 + 5 at hil
    dsimp only
    omega
  · change poolBytes info.1 ≤ 0 + poolBytes m.infoStrings at hb
    dsimp only [profileBytes]
    omega

namespace RowsFor

variable {pool pl po : List ByteString} {refs : List StringRef} {rows rs : List (List StringRef)}
  {values vs : List (List ByteString)}

theorem length (h : RowsFor po refs rs vs) : rs.length = vs.length := by
  obtain ⟨i, hr, rfl⟩ := h
  rw [length_map, hr.length_eq]

theorem length_row (h : RowsFor po refs rs vs) {n : ℕ}
    (hn : ∀ r ∈ vs, r.length = n) {r : List StringRef} (ho : r ∈ rs) : r.length = n := by
  obtain ⟨ind, hr, rfl⟩ := h
  obtain ⟨r', hr', rfl⟩ := mem_map.1 ho
  obtain ⟨i, hi⟩ := mem_iff_getElem?.1 hr'
  have hl : i < vs.length := by
    rw [← hr.length_eq]
    exact (List.getElem?_eq_some_iff.1 hi).1
  obtain ⟨f, hf, hrr⟩ := exists_of_forall₂ hr (getElem?_eq_getElem hl)
  rw [hi] at hf
  cases hf
  rw [length_map, hrr.length_eq]
  exact hn _ (getElem_mem hl)

end RowsFor

/-! ### The records -/

variable {plan : WirePlan}

theorem fits_pair {o : ℕ} {refs : List StringRef} (hl : refs.length = 2) :
    (⟨o, 32, refFields 0 refs⟩ : Record).Fits := by
  have hs := shaped_refFields refs 0
  rw [hl] at hs
  exact Record.fits_of_shaped _ hs (show ∀ e ∈ refShape 0 2, e.1 + e.2 ≤ 32 by decide) (by decide)

variable {rows rs : List (List StringRef)}

theorem fits_rows (hr : ∀ ro ∈ rs, ro.length = 2) {o : ℕ} {r : Record}
    (hrec : r ∈ rowRecords 32 o (rs.map (refFields 0))) : r.Fits := by
  obtain ⟨hs, hm⟩ := exists_of_mem_rowRecords hrec
  obtain ⟨ro, ho, hf⟩ := mem_map.1 hm
  obtain ⟨o, size, fields⟩ := r
  obtain rfl : size = 32 := hs
  obtain rfl : refFields 0 ro = fields := hf
  exact fits_pair (hr ro ho)

theorem sequential_rows {o s : ℕ} (ho : o = if rs.length = 0 then 0 else s) :
    Sequential s (rowRecords 32 o (rs.map (refFields 0))) (s + rs.length * 32) := by
  by_cases hz : rs.length = 0
  · rw [length_eq_zero_iff.1 hz]
    exact Nat.le_add_right _ _
  rw [if_neg hz] at ho
  rw [ho]
  have hr := sequential_rowRecords 32 (rs.map (refFields 0)) s
  rwa [length_map] at hr

/-- The extents of the info record. -/
def infoShape : List (ℕ × ℕ) := [(0, 4), (4, 4), (8, 4)] ++ refShape 16 5

namespace Planned

section

variable (h : Planned m plan)
include h

theorem length_infoRefs : plan.infoRefs.length = 5 := by
  obtain ⟨i, he, hr⟩ := h.info
  rw [hr, length_map, he.length_eq]
  rfl

theorem length_fileRefs : plan.fileRefs.length = m.files.length := by
  rw [h.files.length, length_map]

theorem length_dllRefs : plan.dllRefs.length = m.dlls.length := by rw [h.dlls.length, length_map]

theorem length_fileRow : ∀ r ∈ plan.fileRefs, r.length = 2 := by
  refine fun r hr => h.files.length_row (fun vs hv => ?_) hr
  obtain ⟨ma, -, rfl⟩ := mem_map.1 hv
  rfl

theorem length_dllRow : ∀ r ∈ plan.dllRefs, r.length = 2 := by
  refine fun r hr => h.dlls.length_row (fun vs hv => ?_) hr
  obtain ⟨ma, -, rfl⟩ := mem_map.1 hv
  rfl

theorem shaped_info : Shaped (infoRecord m plan).fields infoShape := by
  have hr := shaped_refFields plan.infoRefs 16
  rw [h.length_infoRefs] at hr
  exact Shaped.append (shaped_of_eq rfl) hr

/-- What lies behind the header of the buffer. -/
theorem sequential_body : Sequential 128 (infoRecord m plan ::
      rowRecords wireFileStride plan.filesOffset (plan.fileRefs.map (refFields 0)) ++
      rowRecords wireDllStride plan.dllsOffset (plan.dllRefs.map (refFields 0)) ++
      stringRecords plan.stringsOffset plan.stringValues) plan.totalSize := by
  have hfo := h.filesOffset
  have ho := h.dllsOffset
  rw [← h.length_fileRefs] at hfo
  rw [← h.length_dllRefs] at ho
  have hf := sequential_rows hfo
  have hd := sequential_rows ho
  rw [h.length_fileRefs] at hf
  rw [h.length_dllRefs] at hd
  have hs : Sequential (dllsEnd m.files.length m.dlls.length)
      (stringRecords plan.stringsOffset plan.stringValues) plan.totalSize := by
    rw [h.total, h.stringsOffset]
    split
    · next hn =>
      rw [hn]
      exact le_refl _
    · exact sequential_stringRecords _ _
  have hi : Sequential 128 [infoRecord m plan] 224 := ⟨le_refl _, le_refl _⟩
  exact Sequential.append hs (Sequential.append hd (Sequential.append hf hi))

theorem sequential : Sequential 0 (wireRecords m plan) plan.totalSize := by
  have hd : Sequential 32 (descriptorWrites 0 plan.tables) 128 :=
    sequential_descriptorWrites plan.tables 0
  have hh : Sequential 0 [headerRecord plan] 32 := ⟨le_refl _, le_refl _⟩
  have ha := Sequential.append h.sequential_body (Sequential.append hd hh)
  simp only [wireRecords, cons_append, append_assoc, nil_append] at ha ⊢
  exact ha

theorem fits : ∀ r ∈ wireRecords m plan, r.Fits := by
  intro r hr
  simp only [wireRecords, cons_append, append_assoc, mem_cons, mem_append] at hr
  rcases hr with rfl | hr | rfl | hr | hr | hr
  · exact Record.fits_of_shaped [(0, 4), (4, 2), (6, 2), (8, 4), (12, 8), (20, 4)]
      (shaped_of_eq rfl) (by simp [headerRecord, tableDescriptorOffset]) (by decide)
  · exact fits_of_mem_descriptorWrites hr
  · exact Record.fits_of_shaped infoShape h.shaped_info
      (show ∀ e ∈ infoShape, e.1 + e.2 ≤ 96 by decide) (by decide)
  · exact fits_rows h.length_fileRow hr
  · exact fits_rows h.length_dllRow hr
  · exact fits_of_mem_stringRecords hr

theorem le_total : dllsEnd m.files.length m.dlls.length ≤ plan.totalSize := by
  rw [h.total]
  exact le_poolEnd _ _

theorem filesOffset_of_ne (hn : plan.fileRefs.length ≠ 0) : plan.filesOffset = 224 := by
  rw [h.filesOffset, if_neg]
  rwa [← h.length_fileRefs]

theorem dllsOffset_of_ne (hn : plan.dllRefs.length ≠ 0) :
    plan.dllsOffset = 224 + m.files.length * 32 := by
  rw [h.dllsOffset, if_neg]
  · rfl
  · rwa [← h.length_dllRefs]

theorem stringsOffset_of_ne (he : plan.stringValues.length ≠ 0) :
    plan.stringsOffset = 224 + m.files.length * 32 + m.dlls.length * 32 := by
  rw [h.stringsOffset, if_neg fun hn => he (length_eq_zero_iff.2 hn)]
  rfl

theorem offsets_le : plan.filesOffset ≤ plan.totalSize ∧
    plan.dllsOffset ≤ plan.totalSize ∧ plan.stringsOffset ≤ plan.totalSize := by
  have ht := h.le_total
  unfold dllsEnd at ht
  refine ⟨?_, ?_, ?_⟩
  · rw [h.filesOffset]
    split <;> omega
  · rw [h.dllsOffset]
    unfold filesEnd
    split <;> omega
  · rw [h.stringsOffset]
    unfold dllsEnd
    split <;> omega

theorem small (hm : Deliverable m) :
    plan.stringValues.length ≤ limitMaxStrings ∧ plan.totalSize ≤ limitMaxSerializedBytes := by
  have hc := h.poolCount
  have hb := h.bytes
  have he := poolEnd_le plan.stringValues (dllsEnd m.files.length m.dlls.length)
  have ht := h.total
  have ha := hm.mappings
  have hs := hm.bytes
  unfold dllsEnd at he ht
  unfold limitMaxInputBytes at ha
  unfold limitMaxStringBytes at hs
  unfold limitMaxStrings limitMaxSerializedBytes
  omega

theorem beside {i : ℕ} {t : WireTable} (ht : plan.tables[i]? = some t) (hc : t.count = 0) :
    ∀ r ∈ wireRecords m plan, r.offset + r.size ≤ descriptorPlace i ∨
      descriptorPlace i + tableDescriptorSize ≤ r.offset := by
  intro r hr
  have hl : i < 4 := (List.getElem?_eq_some_iff.1 ht).1
  have hp : descriptorPlace i + tableDescriptorSize ≤ 128 := by
    unfold descriptorPlace tableDescriptorSize tableDescriptorOffset
    omega
  have hf : 32 ≤ descriptorPlace i := Nat.le_add_right _ _
  simp only [wireRecords, cons_append, append_assoc, mem_cons, mem_append] at hr
  rcases hr with rfl | hr | hr
  · exact .inl hf
  · have he := descriptorWrites_beside hc 0 ht r hr
    rwa [zero_add] at he
  · have hb := h.sequential_body.inside.2 r (by
      simp only [cons_append, append_assoc, mem_cons, mem_append]
      exact hr)
    exact .inr (hp.trans hb.1)

end

end Planned

/-! ### The buffer -/

/-- The buffer holds the records of the layout, and zeros where a descriptor is left out. -/
structure Delivered (m : ProfileModel) (plan : WirePlan) (out : ByteString) : Prop where
  model : Deliverable m
  planned : Planned m plan
  length : out.length = plan.totalSize
  written : ∀ r ∈ wireRecords m plan, Written out r
  absent : ∀ (i : ℕ) (table : WireTable), plan.tables[i]? = some table → table.count = 0 →
    Written out ⟨descriptorPlace i, tableDescriptorSize, []⟩

/-- **What `serialize` writes.** -/
theorem delivered_of_serialize (hm : Deliverable m) :
    ∃ out, serialize m = .ok out ∧ Delivered m (planWire m) out := by
  have h := planned m
  obtain ⟨hc, ht⟩ := h.small hm
  have hb := h.le_total
  refine ⟨_, ?_, hm, h, length_of_sequential h.sequential h.fits,
    written_of_sequential h.sequential h.fits, fun i t ha hz => ?_⟩
  · dsimp only [serialize]
    rw [if_neg (not_lt.2 hc), if_neg (not_lt.2 ht)]
  · have hl : i < 4 := (List.getElem?_eq_some_iff.1 ha).1
    refine written_beside h.sequential h.fits ?_ (h.beside ha hz)
    unfold dllsEnd at hb
    unfold descriptorPlace tableDescriptorSize tableDescriptorOffset
    omega

namespace Delivered

variable {out : ByteString}

theorem length_le (h : Delivered m plan out) : out.length ≤ limitMaxSerializedBytes := by
  rw [h.length]
  exact (h.planned.small h.model).2

theorem length_le_wordMax (h : Delivered m plan out) : out.length ≤ wordMax :=
  h.length_le.trans (by decide)

theorem total_le_wordMax (h : Delivered m plan out) : plan.totalSize ≤ wordMax := by
  rw [← h.length]
  exact h.length_le_wordMax

/-! ### Header and tables -/

theorem checkHeader_ok (h : Delivered m plan out) :
    checkHeader ⟨dialect, out⟩ = .ok plan.totalSize := by
  have hw : Written out (headerRecord plan) := h.written _ mem_cons_self
  have hs : Shaped (headerRecord plan).fields
      [(0, 4), (4, 2), (6, 2), (8, 4), (12, 8), (20, 4)] := shaped_of_eq rfl
  have ht := h.planned.le_total
  have hl := h.length_le
  have hn := h.length
  unfold dllsEnd at ht
  rw [hn] at hl
  have hm : slice out 0 4 = kWireMagic := hw.field (0, wireMagic) mem_cons_self
  have ha : slice out 4 2 = toLE 2 wireMajor :=
    hw.field (4, toLE 2 wireMajor) (by simp [headerRecord])
  have hmi : slice out 6 2 = toLE 2 wireMinor :=
    hw.field (6, toLE 2 wireMinor) (by simp [headerRecord])
  have hi : ¬out.length < tableHeaderSize := by
    change ¬out.length < 128
    omega
  have hr : ¬((!inRange out.length 4 2) ∨ (!inRange out.length 6 2)) := by
    rw [not_inRange_iff, not_inRange_iff]
    omega
  have ho : plan.totalSize < 256 ^ 8 := lt_of_le_of_lt hl (by decide)
  have hv : ¬(ofLE (toLE 2 wireMajor) ≠ kWireMajor ∨ ofLE (toLE 2 wireMinor) ≠ kWireMinor ∨
      tableHeaderSize ≠ tableHeaderSize ∨ plan.totalSize ≠ out.length ∨
      plan.totalSize > limitMaxSerializedBytes ∨ wireTableCount ≠ kTableCount ∨
      (0 : ℕ) ≠ 0 ∨ (0 : ℕ) ≠ 0) := by
    have hf : ofLE (toLE 2 wireMajor) = kWireMajor := by decide
    have he : ofLE (toLE 2 wireMinor) = kWireMinor := by decide
    simp only [hf, he, wireTableCount, kTableCount, ne_eq, not_true_eq_false, false_or, or_false]
    omega
  dsimp only [checkHeader]
  rw [if_neg hi, if_neg (not_not.2 hm), if_neg hr, ha, hmi]
  refine bind_of_ok (readWord_front hw rfl (v := tableHeaderSize) (by simp [headerRecord])
    (by decide)) ?_
  refine bind_of_ok (readWord_front hw rfl (v := plan.totalSize) (by simp [headerRecord])
    ho) ?_
  refine bind_of_ok (readWord_front hw rfl (v := wireTableCount) (by simp [headerRecord])
    (by decide)) ?_
  refine bind_of_ok (readWord_frontGap hw rfl hs (show 24 + 4 ≤ 32 by decide) (by decide)) ?_
  refine bind_of_ok (readWord_frontGap hw rfl hs (show 28 + 4 ≤ 32 by decide) (by decide)) ?_
  exact if_neg hv

theorem readDescriptor_ok (h : Delivered m plan out) {i : ℕ} {t : WireTable}
    (ht : plan.tables[i]? = some t) (ho : t.offset < 256 ^ 8)
    (hc : t.count < 256 ^ 8) (hs : t.stride < 256 ^ 4) (hf : t.flags < 256 ^ 4) :
    (⟨dialect, out⟩ : Reader).readDescriptor i = .ok t.told := by
  refine readDescriptor_told (fun hn => h.written _ ?_) (h.absent i t ht) ho hc hs hf
  have hm := mem_descriptorWrites hn 0 ht
  rw [zero_add] at hm
  simp only [wireRecords, cons_append, append_assoc, mem_cons, mem_append]
  exact .inr (.inl hm)

/-- Where the decoder takes the string table to end. -/
def stringsEnd (plan : WirePlan) : ℕ := if plan.stringValues = [] then 0 else plan.totalSize

section

variable (h : Delivered m plan out)
include h

theorem readDescriptors_ok : (⟨dialect, out⟩ : Reader).readDescriptor 0 = .ok infoTable ∧
    (⟨dialect, out⟩ : Reader).readDescriptor 1 = .ok plan.fileTable.told ∧
    (⟨dialect, out⟩ : Reader).readDescriptor 2 = .ok plan.dllTable.told ∧
    (⟨dialect, out⟩ : Reader).readDescriptor 3 = .ok plan.stringTable.told := by
  obtain ⟨hfo, ho, hs⟩ := h.planned.offsets_le
  have hl := h.total_le_wordMax
  have hw : wordMax < 256 ^ 8 := by decide
  have hi : limitMaxFiles < 256 ^ 8 ∧ limitMaxDlls < 256 ^ 8 ∧ limitMaxStrings < 256 ^ 8 := by
    decide
  have hf := h.model.files
  have hd := h.model.dlls
  have hc := (h.planned.small h.model).1
  have hfr := h.planned.length_fileRefs
  have hr := h.planned.length_dllRefs
  refine ⟨?_, ?_, ?_, ?_⟩
  · exact h.readDescriptor_ok (i := 0) rfl (by decide) (by decide) (by decide) (by decide)
  · refine h.readDescriptor_ok (i := 1) rfl ?_ ?_ (by decide : 32 < 256 ^ 4)
      (by decide : 0 < 256 ^ 4)
    · change plan.filesOffset < _
      omega
    · change plan.fileRefs.length < _
      omega
  · refine h.readDescriptor_ok (i := 2) rfl ?_ ?_ (by decide : 32 < 256 ^ 4)
      (by decide : 0 < 256 ^ 4)
    · change plan.dllsOffset < _
      omega
    · change plan.dllRefs.length < _
      omega
  · refine h.readDescriptor_ok (i := 3) rfl ?_ ?_ (by decide : 0 < 256 ^ 4)
      (by decide : 1 < 256 ^ 4)
    · change plan.stringsOffset < _
      omega
    · change plan.stringValues.length < _
      omega

theorem fileTable_range :
    (⟨dialect, out⟩ : Reader).descriptorRange plan.fileTable.told kFileStride 0 plan.totalSize =
      .ok (if plan.fileRefs.length = 0 then 0
        else plan.filesOffset + plan.fileRefs.length * 32) := by
  have ht := h.planned.le_total
  have hc := h.planned.length_fileRefs
  unfold dllsEnd at ht
  refine descriptorRange_told (fun hn => ?_) (fun hn => ?_) (by decide) (fun hn => ?_)
    h.total_le_wordMax
  · rw [h.planned.filesOffset_of_ne hn]
    decide
  · rw [h.planned.filesOffset_of_ne hn]
  · rw [h.planned.filesOffset_of_ne hn]
    change 224 + plan.fileRefs.length * 32 ≤ plan.totalSize
    omega

theorem dllTable_range :
    (⟨dialect, out⟩ : Reader).descriptorRange plan.dllTable.told kDllStride 0 plan.totalSize =
      .ok (if plan.dllRefs.length = 0 then 0 else plan.dllsOffset + plan.dllRefs.length * 32) := by
  have ht := h.planned.le_total
  have hc := h.planned.length_dllRefs
  unfold dllsEnd at ht
  refine descriptorRange_told (fun hn => ?_) (fun hn => ?_) (by decide) (fun hn => ?_)
    h.total_le_wordMax
  · rw [h.planned.dllsOffset_of_ne hn]
    change 128 ≤ _
    omega
  · rw [h.planned.dllsOffset_of_ne hn]
    omega
  · rw [h.planned.dllsOffset_of_ne hn]
    change 224 + m.files.length * 32 + plan.dllRefs.length * 32 ≤ plan.totalSize
    omega

theorem stringTable_range :
    (⟨dialect, out⟩ : Reader).descriptorRange plan.stringTable.told 0 variableRecords
      plan.totalSize = .ok (stringsEnd plan) := by
  have hi := h.planned.offsets_le.2.2
  unfold WirePlan.stringTable WireTable.told stringsEnd
  by_cases hn : plan.stringValues = []
  · rw [if_pos hn, hn]
    rfl
  have hl : plan.stringValues.length ≠ 0 := (length_pos_iff.2 hn).ne'
  have hp := h.planned.stringsOffset_of_ne hl
  rw [if_neg hn, if_neg hl]
  refine descriptorRange_strings hl ?_ ?_ hi
  · change 128 ≤ _
    omega
  · omega

theorem tables_apart :
    (⟨dialect, out⟩ : Reader).rangesDoNotOverlap 0 [(infoTable, 128 + 1 * 96),
      (plan.fileTable.told,
        if plan.fileRefs.length = 0 then 0 else plan.filesOffset + plan.fileRefs.length * 32),
      (plan.dllTable.told,
        if plan.dllRefs.length = 0 then 0 else plan.dllsOffset + plan.dllRefs.length * 32),
      (plan.stringTable.told, stringsEnd plan)] = .ok () := by
  have hfr := h.planned.length_fileRefs
  have hr := h.planned.length_dllRefs
  have hf : plan.fileRefs.length ≠ 0 → plan.fileTable.told.offset = 224 := fun hn =>
    (offset_told hn).trans (h.planned.filesOffset_of_ne hn)
  have hd : plan.dllRefs.length ≠ 0 →
      plan.dllTable.told.offset = 224 + m.files.length * 32 := fun hn =>
    (offset_told hn).trans (h.planned.dllsOffset_of_ne hn)
  have hs : plan.stringValues.length ≠ 0 → plan.stringTable.told.offset =
      224 + m.files.length * 32 + m.dlls.length * 32 := fun hn =>
    (offset_told hn).trans (h.planned.stringsOffset_of_ne hn)
  refine rangesDoNotOverlap_ok ?_
  simp only [pairwise_cons, mem_cons, not_mem_nil, or_false, forall_eq_or_imp,
    forall_eq, IsEmpty.forall_iff, implies_true, List.Pairwise.nil, and_true,
    count_told]
  change ((_ → plan.fileRefs.length ≠ 0 → _) ∧ (_ → plan.dllRefs.length ≠ 0 → _) ∧
    (_ → plan.stringValues.length ≠ 0 → _)) ∧
    ((plan.fileRefs.length ≠ 0 → plan.dllRefs.length ≠ 0 → _) ∧
      (plan.fileRefs.length ≠ 0 → plan.stringValues.length ≠ 0 → _)) ∧
    (plan.dllRefs.length ≠ 0 → plan.stringValues.length ≠ 0 → _)
  refine ⟨⟨fun _ hn => ?_, fun _ hn => ?_, fun _ hn => ?_⟩, ⟨fun hl hn => ?_,
    fun hl hn => ?_⟩, fun hl hn => ?_⟩
  · rw [hf hn]
  · omega
  · omega
  · rw [hd hn, if_neg hl, h.planned.filesOffset_of_ne hl]
    omega
  · rw [hs hn, if_neg hl, h.planned.filesOffset_of_ne hl]
    omega
  · rw [hs hn, if_neg hl, h.planned.dllsOffset_of_ne hl]
    omega

theorem readTables_ok :
    readTables ⟨dialect, out⟩ plan.totalSize = .ok ⟨infoTable, plan.fileTable.told,
      plan.dllTable.told, plan.stringTable.told, stringsEnd plan⟩ := by
  have ht := h.planned.le_total
  have hf := h.model.files
  have hd := h.model.dlls
  have hc := (h.planned.small h.model).1
  unfold dllsEnd at ht
  rw [← h.planned.length_fileRefs] at hf
  rw [← h.planned.length_dllRefs] at hd
  have ho : ¬(infoTable.count ≠ 1 ∨ plan.fileTable.told.count > limitMaxFiles ∨
      plan.dllTable.told.count > limitMaxDlls ∨
      plan.stringTable.told.count > limitMaxStrings) := by
    rw [count_told, count_told, count_told]
    dsimp only [fileTable, dllTable, WirePlan.stringTable, infoTable]
    omega
  obtain ⟨hit, hft, hdt, hs⟩ := h.readDescriptors_ok
  refine bind_of_ok hit ?_
  refine bind_of_ok hft ?_
  refine bind_of_ok hdt ?_
  refine bind_of_ok hs ?_
  refine bind_of_ok (descriptorRange_ok Nat.one_ne_zero (by decide) rfl (by decide)
    (by change 224 ≤ plan.totalSize; omega) h.total_le_wordMax) ?_
  refine bind_of_ok h.fileTable_range ?_
  refine bind_of_ok h.dllTable_range ?_
  refine bind_of_ok h.stringTable_range ?_
  refine (if_neg ho).trans ?_
  exact bind_of_ok h.tables_apart rfl

end

/-! ### Strings -/

theorem readStrings_ok {pool : List ByteString} {stop : ℕ} (hs : stop ≤ limitMaxSerializedBytes)
    (ho : ∀ s ∈ pool, s ≠ []) :
    ∀ t c, (∀ r ∈ stringRecords c pool, Written out r) →
      poolEnd c pool ≤ stop → t + poolBytes pool ≤ limitMaxStringBytes →
      readStrings ⟨dialect, out⟩ stop t c pool.length =
        .ok (stringRefs c pool, poolEnd c pool, t + poolBytes pool) := by
  induction pool with
  | nil => intro t c _ _ _; rfl
  | cons v pool ih =>
    intro t c hwr hd hb
    obtain ⟨hf, hr⟩ := forall_mem_cons.1 hwr
    obtain ⟨hv, ho⟩ := forall_mem_cons.1 ho
    have hu : poolBytes (v :: pool) = v.length + poolBytes pool := by simp [poolBytes]
    have hpo : 0 < v.length := length_pos_iff.2 hv
    have hn := le_nextRecord c v
    have hh := le_poolEnd pool (nextRecord c v)
    have he' : poolEnd (nextRecord c v) pool ≤ stop := hd
    have hm : limitMaxSerializedBytes ≤ wordMax - 7 := by decide
    have hw : limitMaxStringBytes < 256 ^ 4 := by decide
    obtain ⟨hre, he, hp⟩ := Reader.stringRecord_reads dialect hf
      (show v.length < 256 ^ 4 by omega)
    have hi : (!inRange stop (c + 8) v.length) = false := by
      rw [Bool.not_eq_false', inRange_iff]
      omega
    have hrec : ¬((0 : ℕ) ≠ 0 ∨ v.length = 0 ∨ v.length > limitMaxStringBytes) := by omega
    have hro : ¬(c + 8 > wordMax ∨ c + 8 + v.length > wordMax ∨
        c + 8 + v.length > wordMax - 7 ∨ nextRecord c v > stop ∨
        (false : Bool)) := by
      rw [or_iff_left (b := (false : Bool)) Bool.false_ne_true]
      omega
    refine bind_of_ok hre ?_
    refine bind_of_ok he ?_
    rw [if_neg hrec]
    dsimp only
    rw [hi]
    refine (if_neg hro).trans ?_
    refine bind_of_ok hp ?_
    rw [if_neg (by omega)]
    refine bind_of_ok (ih ho (t + v.length) (nextRecord c v) hr he' (by omega)) ?_
    rw [add_assoc]
    rfl

theorem written_strings (h : Delivered m plan out) :
    ∀ r ∈ stringRecords plan.stringsOffset plan.stringValues, Written out r := by
  intro r hr
  refine h.written r ?_
  simp only [wireRecords, cons_append, mem_cons, mem_append]
  exact .inr (.inr hr)

theorem readStringTable_ok (h : Delivered m plan out) :
    readStringTable ⟨dialect, out⟩ plan.stringTable.told (stringsEnd plan) =
      .ok (stringRefs plan.stringsOffset plan.stringValues) := by
  have hp := h.planned
  have hb := hp.bytes.trans h.model.bytes
  unfold readStringTable stringsEnd
  rw [count_told]
  by_cases hn : plan.stringValues = []
  · rw [if_pos (show plan.stringTable.count = 0 from length_eq_zero_iff.2 hn), hn]
    rfl
  have he : plan.stringValues.length ≠ 0 := (length_pos_iff.2 hn).ne'
  have hd : poolEnd plan.stringsOffset plan.stringValues = plan.totalSize := by
    rw [hp.total, hp.stringsOffset, if_neg hn]
  have hl := h.length_le
  rw [h.length] at hl
  have hs := readStrings_ok hl hp.nonempty 0 plan.stringsOffset
    h.written_strings hd.le (by rwa [zero_add])
  rw [if_neg (show plan.stringTable.count ≠ 0 from he), if_neg hn,
    offset_told (show plan.stringTable.count ≠ 0 from he)]
  refine bind_of_ok hs ?_
  refine if_neg ?_
  omega

/-! ### Records -/

theorem readInfoRef_ok (h : Delivered m plan out) {i : ℕ} {value : ByteString}
    (hv : m.infoStrings[i]? = some value) :
    (⟨dialect, out⟩ : Reader).readRef (stringRefs plan.stringsOffset plan.stringValues)
      (128 + (16 + i * 16)) = .ok value := by
  obtain ⟨ind, he, hr⟩ := h.planned.info
  have hw : Written out (infoRecord m plan) := h.written _ (by simp [wireRecords])
  refine readRefs_ok hw h.length_le_wordMax h.written_strings he (fun f hf => ?_) hv
  rw [← hr] at hf
  exact mem_append_right _ hf

theorem readInfoWord_ok (h : Delivered m plan out) :
    (⟨dialect, out⟩ : Reader).readWord 128 4 = .ok m.schema ∧
    (⟨dialect, out⟩ : Reader).readWord (128 + 4) 4 = .ok m.backendKind ∧
    (⟨dialect, out⟩ : Reader).readWord (128 + 8) 4 = .ok m.infoFlags ∧
    (⟨dialect, out⟩ : Reader).readWord (128 + 12) 4 = .ok 0 := by
  have hw : Written out (infoRecord m plan) := h.written _ (by simp [wireRecords])
  have hs := h.model.schema
  have hb := h.model.backend
  have hf : m.infoFlags < 256 ^ 4 := by
    unfold ProfileModel.infoFlags
    split <;> split <;> decide
  refine ⟨?_, ?_, ?_, ?_⟩
  · exact Reader.readWord_field (k := 0) hw (by simp [infoRecord]) (by omega)
  · refine Reader.readWord_field hw (by simp [infoRecord]) ?_
    rcases hb with hk | hk <;> rw [hk] <;> decide
  · exact Reader.readWord_field hw (by simp [infoRecord]) hf
  · exact Reader.readWord_gap hw h.planned.shaped_info (show 12 + 4 ≤ 96 by decide) (by decide)

theorem infoFlags_bits (m : ProfileModel) : m.infoFlags &&& (u32Max - kInfoFlags) = 0 ∧
      decide (m.infoFlags &&& 1 ≠ 0) = m.backendDeclared ∧
      decide (m.infoFlags &&& 2 ≠ 0) = decide (m.extension ≠ []) := by
  unfold ProfileModel.infoFlags
  cases m.backendDeclared <;> by_cases he : m.extension = [] <;> simp [he] <;> decide

section

variable (h : Delivered m plan out)
include h

theorem readInfo_ok :
    readInfo ⟨dialect, out⟩ ⟨infoTable, plan.fileTable.told, plan.dllTable.told,
      plan.stringTable.told, stringsEnd plan⟩ (stringRefs plan.stringsOffset plan.stringValues) =
        .ok { m.toProfile with files := [], dlls := [] } := by
  have hm := h.model
  have ht := h.planned.le_total
  unfold dllsEnd at ht
  have hen : 128 + 1 * 96 ≤ out.length := by
    rw [h.length]
    omega
  have hrec : (⟨dialect, out⟩ : Reader).fixedRecord infoTable 0 = .ok 128 :=
    Reader.fixedRecord_ok Nat.one_pos hen h.length_le_wordMax
  obtain ⟨hs, hr, hf, hrr⟩ := h.readInfoWord_ok
  obtain ⟨hb, hd, he⟩ := infoFlags_bits m
  have hh := hm.schema
  have hv : ¬((m.schema ≠ 1 ∧ m.schema ≠ 2 ∧ m.schema ≠ 3 ∧ m.schema ≠ 4) ∨
      (m.backendKind ≠ wireBackendNative ∧ m.backendKind ≠ wireBackendProton) ∨
      m.infoFlags &&& (u32Max - kInfoFlags) ≠ 0 ∨ (0 : ℕ) ≠ 0) := by
    rintro (hc | hc | hc | hc)
    · omega
    · exact hm.backend.elim hc.1 hc.2
    · exact hc hb
    · exact hc rfl
  have hco : plan.dllTable.told.count = m.dlls.length := by
    rw [count_told]
    exact h.planned.length_dllRefs
  have hk : backendKindOf m.backendKind = .native → m.backendKind = wireBackendNative := by
    intro hn
    rcases hm.backend with hk | hk
    · exact hk
    · rw [hk] at hn
      cases hn
  have ho : ¬((m.schema = 1 ∧ plan.dllTable.told.count ≠ 0) ∨
      (m.schema ≠ 3 ∧ m.schema ≠ 4 ∧ decide (m.infoFlags &&& 1 ≠ 0)) ∨
      (m.schema ≠ 4 ∧ m.extension ≠ []) ∨
      (backendKindOf m.backendKind = .native ∧ m.minVersion ≠ [])) := by
    rw [hd, hco]
    rintro (hc | hc | hc | hc)
    · exact hc.2 (length_eq_zero_iff.2 (hm.dllsSchema hc.1))
    · exact (hm.backendSchema hc.2.2).elim hc.1 hc.2.1
    · exact hc.1 (hm.extensionSchema hc.2)
    · exact hc.2 (hm.nativeVersion (hk hc.1))
  refine bind_of_ok hrec ?_
  refine bind_of_ok hs ?_
  refine bind_of_ok hr ?_
  refine bind_of_ok hf ?_
  refine bind_of_ok hrr ?_
  refine (if_neg hv).trans ?_
  refine bind_of_ok (h.readInfoRef_ok (i := 0) rfl) ?_
  refine bind_of_ok (h.readInfoRef_ok (i := 1) rfl) ?_
  refine bind_of_ok (h.readInfoRef_ok (i := 2) rfl) ?_
  refine bind_of_ok (h.readInfoRef_ok (i := 3) rfl) ?_
  refine bind_of_ok (h.readInfoRef_ok (i := 4) rfl) ?_
  refine (if_neg ho).trans ?_
  refine (if_neg (not_not.2 he)).trans ?_
  rw [hd, he]
  rfl

theorem readPairs_ok {α : Type} {values : List α}
    {ss : α → List ByteString} {ma : ByteString → ByteString → α} {t : WireTable} (s : ℕ)
    (hr : RowsFor plan.stringValues (stringRefs plan.stringsOffset plan.stringValues) rows
      (values.map ss)) (ht : ∀ a, ∃ f snd, ss a = [f, snd] ∧ ma f snd = a)
    (hp : rows.length ≠ 0 → t = ⟨s, rows.length, 32, 0⟩)
    (hn : s + rows.length * 32 ≤ plan.totalSize)
    (hi : ∀ r ∈ rowRecords 32 s (rows.map (refFields 0)), Written out r) :
    collect (readPair ⟨dialect, out⟩ t (stringRefs plan.stringsOffset plan.stringValues) ma)
      0 values.length = .ok values := by
  refine collect_of_forall fun i a ha => ?_
  have hl : rows.length = values.length := by rw [hr.length, length_map]
  obtain ⟨hlt, -⟩ := List.getElem?_eq_some_iff.1 ha
  obtain ⟨ind, hs, hrf⟩ := hr
  obtain ⟨ro, hro, hrr⟩ := exists_of_forall₂ hs (i := i) (b := ss a) (by
    rw [getElem?_map, ha]
    rfl)
  have href : rows[i]? = some (ro.map fun ix =>
      refFor ix (stringRefs plan.stringsOffset plan.stringValues)) := by
    rw [hrf, getElem?_map, hro]
    rfl
  have hw : Written out ⟨s + i * 32, 32, refFields 0 (ro.map fun ix =>
      refFor ix (stringRefs plan.stringsOffset plan.stringValues))⟩ := by
    refine hi _ (mem_rowRecords ?_)
    rw [getElem?_map, href]
    rfl
  obtain ⟨f, snd, hpa, hm⟩ := ht a
  rw [hpa] at hrr
  have he : ∀ k value, [f, snd][k]? = some value →
      (⟨dialect, out⟩ : Reader).readRef (stringRefs plan.stringsOffset plan.stringValues)
        (s + i * 32 + (0 + k * 16)) = .ok value := fun k value hv =>
    readRefs_ok hw h.length_le_wordMax h.written_strings hrr (fun fl hf => hf) hv
  have ho : s + rows.length * 32 ≤ out.length := by rwa [h.length]
  rw [hp (by omega), zero_add]
  refine bind_of_ok (Reader.fixedRecord_ok (hl ▸ hlt) ho h.length_le_wordMax) ?_
  refine bind_of_ok (he 0 f rfl) ?_
  exact bind_of_ok (he 1 snd rfl) (congrArg Except.ok hm)

theorem readFiles_ok : collect (readPair ⟨dialect, out⟩ plan.fileTable.told
      (stringRefs plan.stringsOffset plan.stringValues) FileMapping.mk) 0
        plan.fileTable.told.count = .ok m.files := by
  have hl := h.planned.length_fileRefs
  have ht := h.planned.le_total
  unfold dllsEnd at ht
  have hc : plan.fileTable.told.count = m.files.length := by
    rw [count_told]
    exact hl
  rw [hc]
  refine h.readPairs_ok 224 h.planned.files (fun ma => ⟨_, _, rfl, rfl⟩)
    (fun hn => ?_) (by omega) fun r hr => h.written r ?_
  · unfold WireTable.told fileTable
    rw [if_neg hn, h.planned.filesOffset_of_ne hn]
    rfl
  · by_cases hz : plan.fileRefs.length = 0
    · rw [length_eq_zero_iff.1 hz] at hr
      cases hr
    · simp only [wireRecords, h.planned.filesOffset_of_ne hz, cons_append,
        append_assoc, mem_cons, mem_append]
      exact .inr (.inr (.inr (.inl hr)))

theorem readDlls_ok : collect (readPair ⟨dialect, out⟩ plan.dllTable.told
      (stringRefs plan.stringsOffset plan.stringValues) DllMapping.mk) 0
        plan.dllTable.told.count = .ok m.dlls := by
  have hl := h.planned.length_dllRefs
  have ht := h.planned.le_total
  unfold dllsEnd at ht
  have hc : plan.dllTable.told.count = m.dlls.length := by
    rw [count_told]
    exact hl
  rw [hc]
  refine h.readPairs_ok (224 + m.files.length * 32) h.planned.dlls
    (fun ma => ⟨_, _, rfl, rfl⟩) (fun hn => ?_) (by omega) fun r hr => h.written r ?_
  · unfold WireTable.told dllTable
    rw [if_neg hn, h.planned.dllsOffset_of_ne hn]
    rfl
  · by_cases hz : plan.dllRefs.length = 0
    · rw [length_eq_zero_iff.1 hz] at hr
      cases hr
    · simp only [wireRecords, h.planned.dllsOffset_of_ne hz, cons_append,
        append_assoc, mem_cons, mem_append]
      exact .inr (.inr (.inr (.inr (.inl hr))))

theorem decodeWire_eq :
    decodeWire out = (validateDecodedProfile m.toProfile >>= fun _ => .ok m.toProfile) := by
  refine bind_of_ok h.checkHeader_ok ?_
  refine bind_of_ok h.readTables_ok ?_
  refine bind_of_ok h.readStringTable_ok ?_
  refine bind_of_ok h.readInfo_ok ?_
  refine bind_of_ok h.readFiles_ok ?_
  exact bind_of_ok h.readDlls_ok rfl

end

end Delivered

/-! ### The validation in the decoder -/

theorem checkDecodedDll_eq_ok (se : List DllMapping) (mp sa : DllMapping) :
    checkDecodedDll se mp = .ok sa ↔
      ((normalizedDllModule mp.moduleName ∧ isRelativeSource mp.source ∧
        0 ∉ mp.source) ∧ mp = sa) ∧
      ∀ s ∈ se, s.moduleName ≠ sa.moduleName := by
  unfold checkDecodedDll wireFault
  rw [guard_eq_ok]
  simp only [Bool.not_eq_true', not_or, Bool.not_eq_false, contains_iff_mem,
    Except.ok.injEq, any_eq_true, beq_iff_eq, not_exists, not_and]
  constructor
  · rintro ⟨⟨h1, h2, h3, h4⟩, rfl⟩
    exact ⟨⟨⟨h1, h2, h3⟩, rfl⟩, h4⟩
  · rintro ⟨⟨⟨h1, h2, h3⟩, rfl⟩, h4⟩
    exact ⟨⟨h1, h2, h3, h4⟩, rfl⟩

theorem checkDecodedFile_eq_ok (se : List FileMapping) (mp sa : FileMapping) :
    checkDecodedFile se mp = .ok sa ↔
      ((isRelativeSource mp.source ∧ 0 ∉ mp.source ∧ 0 ∉ mp.target ∧
        isCDrivePathLexicallyConfined mp.target ∧
        hasTargetFilename mp.target) ∧ mp = sa) ∧
      ∀ s ∈ se, ¬PosixPath.Same s.source sa.source ∧ sameTarget s.target sa.target = false := by
  unfold checkDecodedFile wireFault
  rw [guard_eq_ok, guard_eq_ok]
  simp only [Bool.not_eq_true', not_or, Bool.not_eq_false, contains_iff_mem,
    Except.ok.injEq, any_eq_true, Bool.or_eq_true, decide_eq_true_eq, not_exists, not_and,
    Bool.not_eq_true]
  constructor
  · rintro ⟨h1, h2, rfl⟩
    exact ⟨⟨h1, rfl⟩, h2⟩
  · rintro ⟨⟨h1, rfl⟩, h2⟩
    exact ⟨h1, h2, rfl⟩

theorem normalizedDllModule_iff {nm : ByteString} (h : ModuleName nm) :
    normalizedDllModule nm ↔ nm.length ≤ 255 := by
  have hn : nm ≠ [] := by
    rintro rfl
    exact absurd h.longer (by decide)
  have hb := h.bytes
  have hs := h.suffix
  have hp := h.proper
  unfold isModuleByte at hb
  unfold dllSuffix at hs hp
  unfold normalizedDllModule
  rw [hb, hs]
  simp [hn, hp]

theorem backendKindOf_native {k : ℕ} (hk : k = wireBackendNative ∨
    k = wireBackendProton) : backendKindOf k = .native ↔ k = wireBackendNative := by
  rcases hk with rfl | rfl <;> decide

theorem backendKindOf_proton {k : ℕ} : backendKindOf k = .proton ↔ k = wireBackendProton := by
  unfold backendKindOf
  split
  · next h => exact iff_of_true rfl h
  · next h => exact iff_of_false (nofun) h

theorem validateDecoded_fields (hm : Deliverable m) (h : FieldRules m ex) :
    validateDecodedProfile m.toProfile = (eachAgainst checkDecodedDll [] m.dlls >>= fun _ =>
        eachAgainst checkDecodedFile [] m.files >>= fun _ => .ok ()) := by
  refine if_neg ?_
  change ¬((!isSafeAppId m.appId) ∨
      (m.appSha256 ≠ [] ∧ (!isHexString m.appSha256 64)) ∨
      (m.appVersion ≠ [] ∧ (!isValidVersion m.appVersion)) ∨
      (decide (m.extension ≠ []) ∧ (!isSafeAppId m.extension)) ∨
      (m.schema = 1 ∧ m.dlls ≠ []) ∨
      (m.schema ≠ 3 ∧ m.schema ≠ 4 ∧ m.backendDeclared) ∨
      (m.schema ≠ 4 ∧ decide (m.extension ≠ [])) ∨
      (backendKindOf m.backendKind = .native ∧ m.minVersion ≠ []) ∨
      (backendKindOf m.backendKind = .proton ∧ m.minVersion ≠ [] ∧
        (!isValidBackendMinVersion m.minVersion)))
  rw [safeAppId_eq, safeAppId_eq, isHex_eq, validVersion_eq, validBackendVersion_eq,
    backendKindOf_native hm.backend, backendKindOf_proton]
  simp only [Bool.not_eq_true', decide_eq_true_eq]
  rintro (hc | hc | hc | hc | hc | hc | hc | hc | hc)
  · rw [h.appId] at hc
    cases hc
  · rw [h.appSha256 hc.1] at hc
    exact absurd hc.2 (by decide)
  · rw [h.appVersion hc.1] at hc
    exact absurd hc.2 (by decide)
  · rw [h.extension hc.1] at hc
    exact absurd hc.2 (by decide)
  · exact hc.2 (h.dllsSchema hc.1)
  · exact (h.backendSchema hc.2.2).elim hc.1 hc.2.1
  · exact hc.1 (h.extensionSchema hc.2)
  · exact hc.2 (h.nativeVersion hc.1)
  · rw [h.protonVersion hc.1 hc.2.1] at hc
    exact absurd hc.2.2 (by decide)

/-- **What the decoder asks of an accepted profile beyond the Rust rules.** -/
theorem validateDecoded_iff (hm : Deliverable m) (h : Validated p ex m) :
    validateDecodedProfile m.toProfile = .ok () ↔ (∀ ma ∈ m.dlls, ma.moduleName.length ≤ 255) ∧
        m.files.Pairwise fun f snd => ¬PosixPath.Same f.source snd.source := by
  have hdr : ∀ ma ∈ m.dlls, ModuleName ma.moduleName ∧ validRelativePath ma.source := by
    intro ma he
    obtain ⟨i, hi⟩ := mem_iff_getElem?.1 he
    obtain ⟨o, -, hr⟩ := exists_of_forall₂ h.dlls hi
    refine ⟨(moduleName_of_normalize hr.moduleName).1, ?_⟩
    rw [hr.source]
    exact hr.relative
  have hfr : ∀ ma ∈ m.files, validRelativePath ma.source ∧
      validCDrivePath ma.target := by
    intro ma he
    obtain ⟨i, hi⟩ := mem_iff_getElem?.1 he
    obtain ⟨o, -, hr⟩ := exists_of_forall₂ h.files hi
    rw [← hr.eq]
    exact ⟨hr.source, hr.target⟩
  rw [validateDecoded_fields hm h.fields_result]
  have hs : ((eachAgainst checkDecodedDll [] m.dlls >>= fun _ =>
      eachAgainst checkDecodedFile [] m.files >>= fun _ => .ok ()) : Except WireFault Unit) =
        .ok () ↔ (∃ ds, eachAgainst checkDecodedDll [] m.dlls = .ok ds) ∧
          ∃ files, eachAgainst checkDecodedFile [] m.files = .ok files := by
    simp [bind_eq_ok, and_true, exists_and_right]
  rw [hs, exists_eachAgainst checkDecodedDll_eq_ok, exists_eachAgainst checkDecodedFile_eq_ok]
  constructor
  · rintro ⟨⟨hd, -⟩, -, hf⟩
    refine ⟨fun ma he => ?_, hf.imp fun hp => hp.1⟩
    exact (normalizedDllModule_iff (hdr ma he).1).1 (hd ma he).1
  · rintro ⟨hd, hf⟩
    refine ⟨⟨fun ma he => ?_, h.modules⟩, fun ma he => ?_, ?_⟩
    · obtain ⟨hn, ho⟩ := hdr ma he
      obtain ⟨hl, hz⟩ := (validRelativePath_iff ma.source).1 ho
      exact ⟨(normalizedDllModule_iff hn).2 (hd ma he), hl, hz⟩
    · obtain ⟨ho, ht⟩ := hfr ma he
      obtain ⟨hl, hz⟩ := (validRelativePath_iff ma.source).1 ho
      obtain ⟨hc, htz⟩ := (validCDrivePath_iff ma.target).1 ht
      refine ⟨hl, hz, htz, hc, ?_⟩
      unfold isCDrivePathLexicallyConfined at hc
      rw [Bool.and_eq_true, Bool.and_eq_true] at hc
      exact hc.1.2
    · exact (hf.and h.apart).imp fun hp => ⟨hp.1, hp.2.2⟩

/-! ### The round trip -/

theorem comesBack_iff (hm : Deliverable m) (h : Validated p ex m) :
    (∃ w, serialize m = .ok w ∧ decodeWire w = .ok m.toProfile) ↔
      (∀ ma ∈ m.dlls, ma.moduleName.length ≤ 255) ∧
        m.files.Pairwise fun f snd => ¬PosixPath.Same f.source snd.source := by
  obtain ⟨out, ho, he⟩ := delivered_of_serialize hm
  rw [← validateDecoded_iff hm h]
  have hd := he.decodeWire_eq
  constructor
  · rintro ⟨w, hw, hp⟩
    rw [ho] at hw
    cases hw
    rw [hd] at hp
    obtain ⟨_, hv, -⟩ := bind_eq_ok.1 hp
    exact hv
  · intro hv
    refine ⟨out, ho, ?_⟩
    rw [hd, hv]
    rfl

/-- **An accepted profile comes back exactly when its modules are short and its
sources differ as paths.** -/
theorem wireRoundTrip_iff {input : ByteString} (hinput : input.length ≤ limitMaxInputBytes)
    (hparse : (⟨input⟩ : RustJson.JsonParser).parse = .ok p)
    (hvalid : validateProfile p expected = .ok m) :
    (∃ wire, serialize m = .ok wire ∧ decodeWire wire = .ok m.toProfile) ↔
      (∀ mapping ∈ m.dlls, mapping.moduleName.length ≤ 255) ∧
        m.files.Pairwise fun first second => ¬PosixPath.Same first.source second.source := by
  have h := validateProfile_eq_ok.mp hvalid
  exact comesBack_iff
    (deliverable_of_validated (RustJson.JsonParser.parsed_of_parse hparse) hinput h) h

/-- A document with a file whose profile comes back. -/
def oneFile : ByteString :=
  text "\x7b\"schema\":1,\"app_id\":\"a\",\"files\":[\x7b\"source\":\"x\",\"target\":\"C:/y\"\x7d]\x7d"

/-- What the profile of that document becomes. -/
def oneFileModel : ProfileModel where
  schema := 1
  appId := [0x61]
  files := [⟨[0x78], [0x43, 0x3A, 0x2F, 0x79]⟩]

theorem wireRoundTrip_oneFile :
    ∃ wire, serialize oneFileModel = .ok wire ∧ decodeWire wire = .ok oneFileModel.toProfile := by
  have hp : (⟨oneFile⟩ : RustJson.JsonParser).parse = .ok oneFileModel := by decide +kernel
  have hv : validateProfile oneFileModel ⟨[0x61], [], []⟩ = .ok oneFileModel := by decide +kernel
  exact (wireRoundTrip_iff (by decide +kernel) hp hv).mpr ⟨by decide, by decide⟩

def twoSpellings : ByteString :=
  text ("\x7b\"schema\":1,\"app_id\":\"a\",\"files\":[\x7b\"source\":\"x/y\",\"target\":\"C:/a\"\x7d," ++
    "\x7b\"source\":\"x//y\",\"target\":\"C:/b\"\x7d]\x7d")

/-- What the profile of that document becomes. -/
def twoSpellingsModel : ProfileModel where
  schema := 1
  appId := text "a"
  files := [⟨text "x/y", text "C:/a"⟩, ⟨text "x//y", text "C:/b"⟩]

/-- The Rust side accepts and writes it, and the decoder refuses what was written. -/
theorem not_wireRoundTrip_twoSpellings :
    (⟨twoSpellings⟩ : RustJson.JsonParser).parse = .ok twoSpellingsModel ∧
      validateProfile twoSpellingsModel ⟨text "a", [], []⟩ = .ok twoSpellingsModel ∧
      ∃ wire, serialize twoSpellingsModel = .ok wire ∧
        decodeWire wire = .error ⟨errorWireFormat, phaseWire, tableHeaderSize, 1,
          text "mapeamento de arquivo TLPR duplicado"⟩ := by
  have hp : (⟨twoSpellings⟩ : RustJson.JsonParser).parse = .ok twoSpellingsModel := by
    decide +kernel
  have hv : validateProfile twoSpellingsModel ⟨text "a", [], []⟩ = .ok twoSpellingsModel := by
    decide +kernel
  have hi : twoSpellings.length ≤ limitMaxInputBytes := by decide +kernel
  obtain ⟨out, ho, hd⟩ := delivered_of_serialize (deliverable_of_validated
    (RustJson.JsonParser.parsed_of_parse hp) hi (validateProfile_eq_ok.mp hv))
  have hf : validateDecodedProfile twoSpellingsModel.toProfile =
      .error ⟨errorWireFormat, phaseWire, tableHeaderSize, 1,
        text "mapeamento de arquivo TLPR duplicado"⟩ := by decide +kernel
  refine ⟨hp, hv, out, ho, ?_⟩
  rw [hd.decodeWire_eq, hf]
  rfl

end TradutorLinux.Compat
