import TradutorLinux.Rust.WireReads

/-!
# The entries of the wire

What the decoder reads from the tables of an output that `fill_wire` filled:
the record number `index` holds the entry number `index`, a string reference
leads to its string, and an index range to the entries the record was written
with.  Here are the header, the sections, the callbacks, the imports and the
exports.

## Main results

* `Delivered.readTables_ok` — **the tables fill the output without a gap.**
* `Delivered.readRef_ok` — **a string reference leads to its string.**
* `Delivered.readSections_ok`, `Delivered.readImports_ok`, `Delivered.readExports_ok`.
-/

namespace TradutorLinux.Rust

open List Pe

open Pe (Decoder WireError)

variable {m : Model} {plan : WirePlan} {out : ByteString}

namespace Delivered

/-! ### The parts of the output -/

section

variable (h : Delivered m plan out)
include h

theorem short : ∀ bytes ∈ allStrings m, Short bytes :=
  fun _ hm => short_of_mem_allStrings h.encodable hm

theorem written_head :
    ∀ r ∈ headerRecord plan :: descriptorRecords 0 plan.descriptors, Written out r := by
  intro r hr
  refine h.written r ?_
  rw [wireRecords_eq]
  exact mem_append_left _ hr

theorem written_strings : ∀ r ∈ plan.strings.map stringRecord, Written out r := by
  intro r hr
  refine h.written r ?_
  rw [wireRecords_eq]
  exact mem_append_right _ (mem_append_left _ hr)

theorem written_fixed : ∀ r ∈ fixedRecords m plan, Written out r := by
  intro r hr
  refine h.written r ?_
  rw [wireRecords_eq]
  exact mem_append_right _ (mem_append_right _ hr)

theorem length_le : out.length ≤ maxSerializedBytes := h.length.le.trans h.layout.total_le

attribute [local simp] putU16 putSize32

theorem checkHeader_ok : (⟨out⟩ : Decoder).checkHeader = .ok () := by
  have hw := h.written_head (headerRecord plan) mem_cons_self
  have ht := h.layout.total_le
  have hg := h.layout.total_ge
  unfold maxSerializedBytes at ht
  have hm : slice out 0 4 = Pe.kWireMagic := hw.field (0, text "TLPE") mem_cons_self
  have hr : ∀ k w v, (k, toLE w v) ∈ (headerRecord plan).fields → v < 256 ^ w →
      (⟨out⟩ : Decoder).readWord k w Pe.kPhaseWire = .ok v := fun k w v hme hv => by
    rw [← zero_add k]
    exact readWord_field hw hme hv
  have ha := hr 4 2 1 (by simp [headerRecord]) (by decide)
  have hmi := hr 6 2 0 (by simp [headerRecord]) (by decide)
  have hh := hr 8 4 wireHeaderSize (by simp [headerRecord]) (by decide)
  have hts := hr 12 8 plan.total (by simp [headerRecord, putSize64]) (by omega)
  have hc := hr 20 4 wireTableCount (by simp [headerRecord]) (by decide)
  have he : (⟨out⟩ : Decoder).readWord 24 8 Pe.kPhaseWire = .ok 0 := by
    have hs : Shaped (headerRecord plan).fields headerShape := shaped_of_eq rfl
    exact readWord_gap (k := 24) hw hs (le_refl _) (by decide)
  have hi : ¬(out.length < kWireHeaderSize ∨ out.length > kLimitSerializedBytes) := by
    unfold wireHeaderSize at hg
    unfold kWireHeaderSize kLimitSerializedBytes
    have := h.length
    omega
  have hve : ¬((1 : ℕ) ≠ 1 ∨ (0 : ℕ) ≠ 0) := by decide
  have ho : ¬(wireHeaderSize ≠ kWireHeaderSize ∨ plan.total ≠ out.length ∨
      wireTableCount ≠ Pe.kTableCount) := by
    rw [h.length]
    simp [wireHeaderSize, kWireHeaderSize, wireTableCount, Pe.kTableCount]
  unfold Decoder.checkHeader
  rw [if_neg hi, if_neg (not_not.2 hm), ha, ok_bind, hmi, ok_bind, hh,
    ok_bind, hts, ok_bind, hc, ok_bind, if_neg hve, if_neg ho, he,
    ok_bind, if_neg (not_not.2 rfl)]

/-- **The tables fill the output without a gap.** -/
theorem readTables_ok : (⟨out⟩ : Decoder).readTables 0 Pe.kTableCount kWireHeaderSize =
      .ok (tablesOf plan, plan.total) := by
  refine Rust.readTables_ok (tableCounts m (allStrings m)) h.length_le h.short
    h.layout.planned (le_refl _) (le_refl _) (fun k hk => ?_) (fun k hk _ => ?_)
    h.length.ge (fun r hr => h.written_head r (mem_cons_of_mem _ hr)) fun k hk _ => ?_
  · rw [zero_add] at hk
    rw [hk]
    rfl
  · rw [zero_add] at hk
    rw [hk]
    rfl
  · rw [zero_add] at hk
    rw [hk, ← WirePlan.descriptor, ← h.layout.strings]
    exact h.written_strings

theorem readStrings_ok : (⟨out⟩ : Decoder).readStrings ((tablesOf plan).getD 2 {}).offset
      (Decoder.count (tablesOf plan) 2) = .ok (stringsOf plan) := by
  have hw := h.written_strings
  have hc : Decoder.count (tablesOf plan) 2 = (allStrings m).length := by
    unfold Decoder.count
    rw [getD_tablesOf]
    exact h.layout.count tableStrings
  have ho : ((tablesOf plan).getD 2 {}).offset = (plan.descriptor tableStrings).offset := by
    rw [getD_tablesOf]
    rfl
  rw [h.layout.strings] at hw
  rw [hc, ho, stringsOf, h.layout.strings]
  exact Rust.readStrings_ok h.short _ hw

end

/-! ### Records and references -/

theorem fixedRecord_ok (h : Delivered m plan out) {t i s ph : ℕ}
    (fs : List Field) (ht : t ≠ tableStrings)
    (hi : i < (plan.descriptor t).count) (hs : s = strides.getD t 0) :
    (⟨out⟩ : Decoder).fixedRecord (tablesOf plan) t i s ph =
      .ok (fixedRecord plan t i fs).offset := by
  have hn := Nat.ne_zero_of_lt hi
  have hr := (h.layout.stride hn ht).1
  have he := (h.layout.inside hn).2
  have hl := h.length_le
  have hmul : (i + 1) * strides.getD t 0 ≤
      (plan.descriptor t).count * strides.getD t 0 := Nat.mul_le_mul_right _ hi
  rw [add_mul, one_mul] at hmul
  unfold tableEnd tableBytes at he
  rw [if_neg ht, ← h.length] at he
  unfold maxSerializedBytes at hl
  have hf : ¬(i ≥ (plan.descriptor t).toTable.count ∨
      s > (plan.descriptor t).toTable.stride) := by
    rintro (hw | ha)
    · exact not_le.2 hi hw
    · exact absurd (ha.trans_eq' hr) (by omega)
  have hin : ¬(i * (plan.descriptor t).toTable.stride > uint64Max ∨
      (plan.descriptor t).toTable.offset +
        i * (plan.descriptor t).toTable.stride > uint64Max ∨
      (!inRange out.length ((plan.descriptor t).toTable.offset +
        i * (plan.descriptor t).toTable.stride) s)) := by
    have hts : (plan.descriptor t).toTable.stride = strides.getD t 0 := hr
    have ho : (plan.descriptor t).toTable.offset = (plan.descriptor t).offset := rfl
    rw [hts, ho, not_inRange_iff]
    unfold uint64Max
    omega
  dsimp only [Decoder.fixedRecord]
  rw [getD_tablesOf, if_neg hf, if_neg hin]
  exact congrArg (fun st => Except.ok ((plan.descriptor t).offset + i * st)) hr

theorem stringRef_eq (h : Delivered m plan out) {nm : ByteString} (hm : nm ∈ allStrings m) :
    ∃ e ∈ plan.strings, e.bytes = nm ∧ ∀ k, stringRef plan k (stringIndex plan nm) =
      [putSize64 k e.dataOffset, putSize32 (k + 8) nm.length] := by
  rw [← stringEntries_bytes (allStrings m) (plan.descriptor tableStrings).offset,
    ← h.layout.strings] at hm
  obtain ⟨f, hf, hb⟩ := mem_map.1 hm
  cases hi : stringIndex plan nm with
  | none =>
    have ho := findIdx?_eq_none_iff.1 hi f hf
    exact absurd (beq_iff_eq.2 hb) (Bool.eq_false_iff.1 ho)
  | some i =>
    obtain ⟨hl, hn, -⟩ := findIdx?_eq_some_iff_getElem.1 hi
    refine ⟨plan.strings[i], getElem_mem hl, beq_iff_eq.1 hn, fun k => ?_⟩
    unfold stringRef
    rw [Option.bind_some, getElem?_eq_getElem hl]
    dsimp only
    rw [beq_iff_eq.1 hn]

/-- What a reference is written for: a string of the pool, or no string. -/
def Refers (m : Model) (plan : WirePlan) (ref : Option ℕ) (value : ByteString) : Prop :=
  (ref = stringIndex plan value ∧ value ∈ allStrings m) ∨ (ref = none ∧ value = [])

theorem stringRef_extent {plan : WirePlan} {k : ℕ} {r : Option ℕ} {f : Field}
    (h : f ∈ stringRef plan k r) : k ≤ f.1 ∧ f.1 + f.2.length ≤ k + 12 := by
  unfold stringRef at h
  split at h
  · cases h
  simp only [mem_cons, not_mem_nil, or_false] at h
  rcases h with rfl | rfl
  · simp [putSize64]
  · simp [putSize32]

/-- **A string reference leads to its string.** -/
theorem readRef_ok (h : Delivered m plan out) {r : Record} {k ph : ℕ} {rf : Option ℕ}
    {value : ByteString} (b behind : List Field) (hw : Written out r)
    (hrf : Refers m plan rf value) (hi : r.fields = b ++ stringRef plan k rf ++ behind)
    (hbe : ∀ f ∈ b, f.1 + f.2.length ≤ k)
    (hb : ∀ f ∈ behind, k + 16 ≤ f.1) (hsi : k + 16 ≤ r.size) :
    (⟨out⟩ : Decoder).readRef (stringsOf plan) (r.offset + k) ph = .ok value := by
  have hre : readLE out (r.offset + (k + 12)) 4 = some 0 := by
    refine hw.readLE_gap (by omega) fun f hfi => ?_
    rw [hi, mem_append, mem_append] at hfi
    rcases hfi with (hf | hf) | hf
    · have := hbe f hf
      omega
    · have := stringRef_extent hf
      omega
    · have := hb f hf
      omega
  rcases hrf with ⟨rfl, hm⟩ | ⟨rfl, rfl⟩
  · obtain ⟨e, he, rfl, ht⟩ := h.stringRef_eq hm
    rw [ht] at hi
    have hwr := h.written_strings _ (mem_map_of_mem he)
    have hp := he
    rw [h.layout.strings] at hp
    obtain ⟨-, hd, -⟩ := stringEntries_inside hp
    have hin := hwr.inside
    have hs := h.length_le
    have hh := h.short _ hm
    unfold maxSerializedBytes at hs
    have hr := stringRecordSize_ge e.bytes
    change e.recordOffset + stringRecordSize e.bytes ≤ out.length at hin
    have ho := hw.readLE_field (k := k) (w := 8) (v := e.dataOffset)
      (by rw [hi]; simp [putSize64]) (by omega)
    have hl := hw.readLE_field (k := k + 8) (w := 4) (v := e.bytes.length)
      (by rw [hi]; simp [putSize32]) (by omega)
    have hso : ¬(e.dataOffset = 0 ∧ e.bytes.length = 0) := by omega
    have hfo : ((stringsOf plan).any fun re => re.dataOffset == e.dataOffset &&
        re.length == e.bytes.length) := by
      refine any_eq_true.2 ⟨e.toRecord, mem_map_of_mem he, ?_⟩
      simp [StringEntry.toRecord]
    have hsl : slice out e.dataOffset e.bytes.length = e.bytes := by
      have hfi := hwr.field (8, e.bytes) (by simp [stringRecord, wireStringRecordHeaderSize])
      rw [hd]
      exact hfi
    unfold Decoder.readRef Decoder.readWord
    simp only [add_assoc, ho, hl, hre, ok_bind]
    rw [if_neg (not_not.2 rfl), if_neg hso, if_pos hfo, hsl]
  · have hn : stringRef plan k none = [] := rfl
    rw [hn, append_nil] at hi
    have hg : ∀ j w, j + w ≤ 16 → readLE out (r.offset + (k + j)) w = some 0 := by
      intro j w hj
      refine hw.readLE_gap (by omega) fun f hfi => ?_
      rw [hi, mem_append] at hfi
      rcases hfi with hf | hf
      · have := hbe f hf
        omega
      · have := hb f hf
        omega
    have ho := hg 0 8 (by decide)
    have hl := hg 8 4 (by decide)
    rw [add_zero] at ho
    unfold Decoder.readRef Decoder.readWord
    simp only [add_assoc, ho, hl, hre, ok_bind]
    rw [if_neg (not_not.2 rfl), if_pos ⟨trivial, trivial⟩]

theorem count_lt (h : Delivered m plan out) (t : ℕ) : (plan.descriptor t).count < 256 ^ 8 := by
  by_cases hn : (plan.descriptor t).count = 0
  · rw [hn]
    decide
  have hc := h.layout.count t
  have he := (h.layout.inside hn).2
  have hl := h.layout.total_le
  have ht : t < wireTableCount ∧ t ≠ tableReserved := by
    refine ⟨?_, fun hr => hn ?_⟩
    · by_contra hg
      refine hn (hc.trans ?_)
      rw [getD_eq_getElem?_getD, getElem?_eq_none (not_lt.1 hg)]
      rfl
    · rw [hc, hr]
      rfl
  have hb : (plan.descriptor t).count ≤
      tableBytes (allStrings m) t (plan.descriptor t) :=
    count_le_tableBytes (fun hs => by rw [hc, hs]; rfl) fun hs =>
      strides_ne_zero ht.1 hs ht.2
  unfold tableEnd at he
  unfold maxSerializedBytes at hl
  omega

theorem indexRange_ok {t i n ph : ℕ} (hr : i + n ≤ (plan.descriptor t).count) :
    Decoder.indexRange (tablesOf plan) t (if n = 0 then 0 else i) n ph = .ok () := by
  have ht : (plan.descriptor t).toTable.count = (plan.descriptor t).count := rfl
  dsimp only [Decoder.indexRange]
  rw [getD_tablesOf, ht]
  refine if_neg ?_
  split <;> omega

theorem collect_range {α : Type} {r : ℕ → Except WireError α} {as : List α} {n i : ℕ}
    (hc : as.length = n) (h : collect r i n = .ok as) :
    collect r (if n = 0 then 0 else i) n = .ok as := by
  split
  · next hz =>
    rw [hz] at hc ⊢
    rw [length_eq_zero_iff.1 hc]
    rfl
  · exact h

theorem flags_spec (p q : Prop) [Decidable p] [Decidable q] :
    ((if p then 1 else 0) ||| (if q then 2 else 0) : UInt32) &&& ~~~3 = 0 ∧
      (((if p then 1 else 0) ||| (if q then 2 else 0) : UInt32) &&& 1 != 0) = decide p ∧
      (((if p then 1 else 0) ||| (if q then 2 else 0) : UInt32) &&& 2 != 0) = decide q := by
  by_cases hp : p <;> by_cases hq : q <;> simp only [hp, hq, if_true, if_false] <;> decide

theorem flags8_spec (p q : Prop) [Decidable p] [Decidable q] :
    ((if p then 1 else 0) ||| (if q then 2 else 0) : UInt8) &&& ~~~3 = 0 ∧
      (((if p then 1 else 0) ||| (if q then 2 else 0) : UInt8) &&& 1 != 0) = decide p ∧
      (((if p then 1 else 0) ||| (if q then 2 else 0) : UInt8) &&& 2 != 0) = decide q := by
  by_cases hp : p <;> by_cases hq : q <;> simp only [hp, hq, if_true, if_false] <;> decide

/-! ### Sections and callbacks -/

theorem collect_tableRecords {α β : Type} {t : ℕ} {fs : α → List Field}
    {re : ℕ → Except WireError β} {f : α → β} {as : List α} :
    ∀ {ix : ℕ}, (∀ r ∈ tableRecords plan t fs ix as, Written out r) →
      (∀ i a, a ∈ as → i < ix + as.length →
        Written out (fixedRecord plan t i (fs a)) → re i = .ok (f a)) →
      collect re ix as.length = .ok (as.map f) := by
  induction as with
  | nil => intro ix _ _; rfl
  | cons a as ih =>
    intro ix hw hr
    rw [tableRecords, forall_mem_cons] at hw
    have hf := hr ix a mem_cons_self (Nat.lt_add_of_pos_right (Nat.succ_pos _)) hw.1
    have he := ih hw.2 fun i b hb hi => hr i b (mem_cons_of_mem _ hb) (by rw [length_cons]; omega)
    rw [length_cons, collect, hf, ok_bind, he, ok_bind]
    rfl

attribute [local simp] putU32 sectionFields

theorem readSection_ok (h : Delivered m plan out) {i : ℕ} {s : Section} (hs : s ∈ m.sections)
    (hi : i < (plan.descriptor tableSections).count)
    (hw : Written out (fixedRecord plan tableSections i (sectionFields plan s))) :
    (⟨out⟩ : Decoder).readSection (tablesOf plan) (stringsOf plan) i = .ok s.toPe := by
  refine bind_of_ok (h.fixedRecord_ok (sectionFields plan s) (by decide) hi rfl) ?_
  refine bind_of_ok (h.readRef_ok [] _ hw (.inl ⟨rfl, section_mem_allStrings hs⟩) rfl (by simp)
    (by simp) (by decide : 0 + 16 ≤ 40)) ?_
  refine bind_of_ok (readU32_field hw (v := s.virtualAddress) (by simp)) ?_
  refine bind_of_ok (readU32_field hw (v := s.virtualSize) (by simp)) ?_
  refine bind_of_ok (readU32_field hw (v := s.rawDataPointer) (by simp)) ?_
  refine bind_of_ok (readU32_field hw (v := s.rawDataSize) (by simp)) ?_
  refine bind_of_ok (readU32_field hw (v := s.characteristics) (by simp)) ?_
  refine bind_of_ok (readU32_gap hw (shaped_sectionFields plan s) (by decide : 36 + 4 ≤ 40)
    (by decide)) ?_
  rfl

theorem readSections_ok (h : Delivered m plan out) :
    collect (fun ix => (⟨out⟩ : Decoder).readSection (tablesOf plan) (stringsOf plan) ix) 0
      m.sections.length = .ok (m.sections.map Section.toPe) := by
  have hc : (plan.descriptor tableSections).count = m.sections.length :=
    h.layout.count tableSections
  refine collect_tableRecords (fun r hr => h.written_fixed r ?_) fun i s hs hi hw =>
    h.readSection_ok hs (by omega) hw
  simp only [fixedRecords, mem_append]
  tauto

theorem readCallbacks_ok (h : Delivered m plan out) :
    collect (fun ix => (⟨out⟩ : Decoder).readCallback (tablesOf plan) ix) 0
      m.info.tls.callbackVas.length = .ok m.info.tls.callbackVas := by
  have hc : (plan.descriptor tableTlsCallbacks).count = m.info.tls.callbackVas.length :=
    h.layout.count tableTlsCallbacks
  have hwr : ∀ r ∈ tableRecords plan tableTlsCallbacks callbackFields 0
      m.info.tls.callbackVas, Written out r := fun r hr => by
    refine h.written_fixed r ?_
    simp only [fixedRecords, mem_append]
    tauto
  have he : collect (fun ix => (⟨out⟩ : Decoder).readCallback (tablesOf plan) ix) 0
      m.info.tls.callbackVas.length = .ok (m.info.tls.callbackVas.map id) := by
    refine collect_tableRecords hwr fun i cb _ hi hw => ?_
    have hn : i < (plan.descriptor tableTlsCallbacks).count := by omega
    refine bind_of_ok (h.fixedRecord_ok (callbackFields cb) (by decide) hn rfl) ?_
    exact readU64_field (k := 0) hw mem_cons_self
  rwa [map_id] at he

/-! ### Imports -/

/-- The tables of the imports, or of the delay imports. -/
def DllTables (dllTable symbolTable : ℕ) : Prop :=
  (dllTable = tableImportDlls ∧ symbolTable = tableImportSymbols) ∨
    (dllTable = tableDelayDlls ∧ symbolTable = tableDelaySymbols)

section Imports

variable {dllTable symt ph : ℕ}

section

variable (h : Delivered m plan out)
include h

section

variable (htb : DllTables dllTable symt)
include htb

attribute [local simp] symbolFields

theorem readSymbol_ok {i : ℕ} {s : Symbol} (hb : s.Bounded)
    (hn : s.byOrdinal = false → s.name ∈ allStrings m) (hi : i < (plan.descriptor symt).count)
    (hw : Written out (fixedRecord plan symt i (symbolFields plan s))) :
    (⟨out⟩ : Decoder).readSymbol (tablesOf plan) (stringsOf plan) symt ph i = .ok s.toPe := by
  have ht : symt ≠ tableStrings := by rcases htb with ⟨-, rfl⟩ | ⟨-, rfl⟩ <;> decide
  have hs : strides.getD symt 0 = 32 := by rcases htb with ⟨-, rfl⟩ | ⟨-, rfl⟩ <;> rfl
  have hr : ∀ k, k ≤ 32 → k ≤ (fixedRecord plan symt i (symbolFields plan s)).size :=
    fun k hk => hk.trans hs.ge
  have he : Refers m plan (if s.byOrdinal then none else stringIndex plan s.name) s.name := by
    cases ho : s.byOrdinal with
    | false => exact .inl ⟨rfl, hn ho⟩
    | true => exact .inr ⟨rfl, hb.ordinal ho⟩
  refine bind_of_ok (h.fixedRecord_ok (symbolFields plan s) ht hi hs.symm) ?_
  refine bind_of_ok (readU32_field (k := 0) hw (v := if s.byOrdinal then 1 else 0) mem_cons_self) ?_
  refine bind_of_ok (readU16_field hw (v := s.ordinal) (by simp)) ?_
  refine bind_of_ok (readU16_gap hw (shaped_symbolFields plan s) (hr (6 + 2) (by decide))
    (by decide)) ?_
  refine bind_of_ok (h.readRef_ok [putU32 0 (if s.byOrdinal then 1 else 0), putU16 4 s.ordinal]
    [putU32 24 s.iatRva] hw he rfl (by simp [putU16]) (by simp)
    (hr (8 + 16) (by decide))) ?_
  refine bind_of_ok (readU32_field hw (v := s.iatRva) (by simp)) ?_
  refine bind_of_ok (zeroRange_gap hw (shaped_symbolFields plan s) (hr (28 + 4) (by decide))
    (by decide)) ?_
  have hv : ¬((if s.byOrdinal then 1 else 0 : UInt32) &&& ~~~1 ≠ 0 ∨ (0 : UInt16) ≠ 0 ∨
      ((if s.byOrdinal then 1 else 0 : UInt32) &&& 1 ≠ 0 ∧ s.name ≠ [])) := by
    cases ho : s.byOrdinal with
    | false => simp
    | true => simp [hb.ordinal ho]
  have hf : ((if s.byOrdinal then 1 else 0 : UInt32) &&& 1 != 0) = s.byOrdinal := by
    cases s.byOrdinal <;> decide
  rw [if_neg hv, hf]
  rfl

attribute [local simp] dllFields

theorem readDll_ok {ix sy : ℕ} {d : Dll} (hb : d.Bounded) (hn : d.name ∈ allStrings m)
    (hsy : ∀ s ∈ d.symbols, s.byOrdinal = false → s.name ∈ allStrings m)
    (hin : ix < (plan.descriptor dllTable).count)
    (hr : sy + d.symbols.length ≤ (plan.descriptor symt).count)
    (hw : Written out (fixedRecord plan dllTable ix (dllFields plan sy d)))
    (hy : ∀ r ∈ tableRecords plan symt (symbolFields plan) sy d.symbols, Written out r) :
    (⟨out⟩ : Decoder).readDll (tablesOf plan) (stringsOf plan) dllTable symt ph ix =
      .ok d.toPe := by
  have hst : dllTable ≠ tableStrings := by rcases htb with ⟨rfl, -⟩ | ⟨rfl, -⟩ <;> decide
  have ht : strides.getD dllTable 0 = 40 := by rcases htb with ⟨rfl, -⟩ | ⟨rfl, -⟩ <;> rfl
  have hsi : ∀ k, k ≤ 40 → k ≤ (fixedRecord plan dllTable ix (dllFields plan sy d)).size :=
    fun k hk => hk.trans ht.ge
  have hh := shaped_dllFields plan sy d
  have hc := hb.count
  have hsm := h.count_lt symt
  refine bind_of_ok (h.fixedRecord_ok (dllFields plan sy d) hst hin ht.symm) ?_
  refine bind_of_ok (h.readRef_ok [] _ hw (.inl ⟨rfl, hn⟩) rfl (by simp)
    (by simp [putSize64]) (hsi (0 + 16) (by decide))) ?_
  refine bind_of_ok (readWord_field hw (v := if d.symbols.length = 0 then 0 else sy)
    (by simp [putSize64]) (by split <;> omega)) ?_
  refine bind_of_ok (readWord_field hw (v := d.symbols.length) (by simp [putSize64])
    (by unfold maxSymbolsPerDll at hc; omega)) ?_
  refine bind_of_ok (readU32_gap hw hh (hsi (32 + 4) (by decide)) (by decide)) ?_
  refine bind_of_ok (readU32_gap hw hh (hsi (36 + 4) (by decide)) (by decide)) ?_
  have hl : ¬((0 : UInt32) ≠ 0 ∨ (0 : UInt32) ≠ 0 ∨ d.symbols.length > kLimitSymbolsPerDll) := by
    rintro (h0 | h0 | hm)
    · exact h0 rfl
    · exact h0 rfl
    · exact not_lt.2 hc hm
  rw [if_neg hl]
  refine bind_of_ok (indexRange_ok hr) ?_
  have he : collect (fun it => (⟨out⟩ : Decoder).readSymbol (tablesOf plan) (stringsOf plan)
      symt ph it) sy d.symbols.length = .ok (d.symbols.map Symbol.toPe) := by
    refine collect_tableRecords hy fun i s hs hi hw => ?_
    exact h.readSymbol_ok htb (hb.symbols s hs) (hsy s hs) (by omega) hw
  exact bind_of_ok (collect_range (length_map _) he) rfl

theorem readDlls_loop {dlls : List Dll} (ho : ∀ d ∈ dlls, d.Bounded)
    (hn : ∀ bs ∈ dllStrings dlls, bs ∈ allStrings m) :
    ∀ {i sy : ℕ}, i + dlls.length ≤ (plan.descriptor dllTable).count →
      sy + countSymbols dlls ≤ (plan.descriptor symt).count →
      (∀ r ∈ dllRecords plan dllTable symt i sy dlls, Written out r) →
      collect (fun i => (⟨out⟩ : Decoder).readDll (tablesOf plan) (stringsOf plan) dllTable
        symt ph i) i dlls.length = .ok (dlls.map Dll.toPe) := by
  induction dlls with
  | nil => intro i sy _ _ _; rfl
  | cons d dlls ih =>
    intro i sy hi hr hwr
    obtain ⟨hd, ho⟩ := forall_mem_cons.1 ho
    have hu : countSymbols (d :: dlls) = d.symbols.length + countSymbols dlls := rfl
    rw [length_cons] at hi
    rw [dllRecords, cons_append, forall_mem_cons, forall_mem_append] at hwr
    obtain ⟨hwd, hws, hw⟩ := hwr
    have ht : ∀ bs ∈ dllStrings dlls, bs ∈ allStrings m := fun bs hb =>
      hn bs (mem_append_right _ hb)
    have hy : ∀ s ∈ d.symbols, s.byOrdinal = false → s.name ∈ allStrings m :=
      fun s hs hor => hn _ (symbol_mem_dllStrings mem_cons_self hs hor)
    refine bind_of_ok (h.readDll_ok htb hd (hn _ (dll_mem_dllStrings mem_cons_self))
      hy (by omega) (by omega) hwd hws) ?_
    exact bind_of_ok (ih ho ht (by omega) (by omega) hw) rfl

theorem readDlls_ok {ds : List Dll} (hb : ∀ d ∈ ds, d.Bounded) (hl : ds.length ≤ maxImportDlls)
    (hn : ∀ bs ∈ dllStrings ds, bs ∈ allStrings m)
    (hc : (plan.descriptor dllTable).count = ds.length)
    (hs : (plan.descriptor symt).count = countSymbols ds)
    (hw : ∀ r ∈ dllRecords plan dllTable symt 0 0 ds, Written out r) :
    (⟨out⟩ : Decoder).readDlls (tablesOf plan) (stringsOf plan) dllTable symt ph =
      .ok (ds.map Dll.toPe) := by
  have ht : ((tablesOf plan).getD dllTable {}).count = ds.length := by
    rw [getD_tablesOf, ← hc]
    rfl
  have hf : ¬ds.length > kLimitImportDlls := not_lt.2 hl
  dsimp only [Decoder.readDlls]
  rw [ht, if_neg hf]
  exact h.readDlls_loop htb hb hn (by omega) (by omega) hw

end

theorem readImports_ok : (⟨out⟩ : Decoder).readImports (tablesOf plan) (stringsOf plan) =
      .ok (m.imports.map Dll.toPe, m.delayImports.map Dll.toPe) := by
  have himp : (⟨out⟩ : Decoder).readDlls (tablesOf plan) (stringsOf plan) 3 4
      kPhaseImports = .ok (m.imports.map Dll.toPe) := by
    refine h.readDlls_ok (.inl ⟨rfl, rfl⟩) h.encodable.imports h.encodable.importCount
      (fun _ hb => dllStrings_mem_allStrings (.inl hb)) (h.layout.count tableImportDlls)
      (h.layout.count tableImportSymbols) fun r hr => h.written_fixed r ?_
    simp only [fixedRecords, mem_append]
    tauto
  have hd : (⟨out⟩ : Decoder).readDlls (tablesOf plan) (stringsOf plan) 5 6
      kPhaseDelayImports = .ok (m.delayImports.map Dll.toPe) := by
    refine h.readDlls_ok (.inr ⟨rfl, rfl⟩) h.encodable.delayImports
      h.encodable.delayImportCount (fun _ hb => dllStrings_mem_allStrings (.inr hb))
      (h.layout.count tableDelayDlls) (h.layout.count tableDelaySymbols)
      fun r hr => h.written_fixed r ?_
    simp only [fixedRecords, mem_append]
    tauto
  unfold Decoder.readImports
  rw [himp, ok_bind, hd, ok_bind]

end

end Imports

/-! ### Exports -/

attribute [local simp] exportFields

theorem readExport_ok (h : Delivered m plan out) {i : ℕ} {e : Export} (he : e ∈ m.exports)
    (hi : i < (plan.descriptor tableExports).count)
    (hw : Written out (fixedRecord plan tableExports i (exportFields plan e))) :
    (⟨out⟩ : Decoder).readExport (tablesOf plan) (stringsOf plan) i = .ok e.toPe := by
  have hs := shaped_exportFields plan e
  have hb := h.encodable.exports e he
  have ha : Refers m plan (if e.byName then stringIndex plan e.name else none) e.name := by
    cases hy : e.byName with
    | false => exact .inr ⟨rfl, hb.unnamed hy⟩
    | true =>
      refine .inl ⟨rfl, exportStrings_mem_allStrings he (mem_append_left _ ?_)⟩
      rw [hy]
      exact mem_singleton.2 rfl
  have ho : Refers m plan
      (if e.forwarder = [] then none else stringIndex plan e.forwarder) e.forwarder := by
    by_cases hn : e.forwarder = []
    · exact .inr ⟨if_pos hn, hn⟩
    · refine .inl ⟨if_neg hn, exportStrings_mem_allStrings he (mem_append_right _ ?_)⟩
      rw [if_neg hn]
      exact mem_singleton.2 rfl
  refine bind_of_ok (h.fixedRecord_ok (exportFields plan e) (by decide) hi rfl) ?_
  obtain ⟨hr, h1, h2⟩ := flags_spec (e.byName) (e.forwarder ≠ [])
  generalize hl : ((if e.byName then 1 else 0) ||| (if e.forwarder ≠ [] then 2 else 0) :
    UInt32) = flags at hr h1 h2
  refine bind_of_ok (readU32_field (k := 0) hw (v := flags) (hl ▸ mem_cons_self)) ?_
  refine bind_of_ok (readU16_field hw (v := e.ordinal) (by simp)) ?_
  refine bind_of_ok (readU16_gap hw hs (by decide : 6 + 2 ≤ 48) (by decide)) ?_
  refine bind_of_ok (readU32_field hw (v := e.rva) (by simp)) ?_
  refine bind_of_ok (zeroRange_gap hw hs (by decide : 12 + 4 ≤ 48) (by decide)) ?_
  have hv : ¬(flags &&& ~~~3 ≠ 0 ∨ (0 : UInt16) ≠ 0) := by
    rw [hr]
    decide
  rw [if_neg hv]
  refine bind_of_ok (h.readRef_ok [putU32 0 flags, putU16 4 e.ordinal, putU32 8 e.rva] _ hw ha
    (by rw [← hl]; exact append_assoc _ _ _) (by simp [putU16])
    (fun f hd => (stringRef_extent hd).1) (by decide : 16 + 16 ≤ 48)) ?_
  refine bind_of_ok (h.readRef_ok ([putU32 0 flags, putU16 4 e.ordinal, putU32 8 e.rva] ++
    stringRef plan 16 (if e.byName then stringIndex plan e.name else none)) [] hw ho
    (by rw [← hl, append_nil]; rfl) ?_ (by simp) (by decide : 32 + 16 ≤ 48)) ?_
  · intro f hd
    rcases mem_append.1 hd with hf | hf
    · simp only [mem_cons, not_mem_nil, or_false] at hf
      rcases hf with rfl | rfl | rfl <;> simp [putU16]
    · exact (stringRef_extent hf).2.trans (by decide)
  · have hc : ¬((flags &&& 1 = 0 ∧ e.name ≠ []) ∨ (flags &&& 2 = 0 ∧ e.forwarder ≠ [])) := by
      rintro (⟨hz, hne⟩ | ⟨hz, hne⟩)
      · rw [hz] at h1
        exact hne (hb.unnamed (by simpa using h1.symm))
      · rw [hz] at h2
        exact hne (by simpa using h2.symm)
    rw [if_neg hc, h1, Bool.decide_eq_true]
    rfl

theorem readExports_loop (h : Delivered m plan out) {ex : List Export}
    (hme : ∀ e ∈ ex, e ∈ m.exports) :
    ∀ {i c : ℕ}, i + ex.length ≤ (plan.descriptor tableExports).count →
      c + ex.length ≤ kLimitExportNames →
      (∀ r ∈ tableRecords plan tableExports (exportFields plan) i ex, Written out r) →
      (⟨out⟩ : Decoder).readExports (tablesOf plan) (stringsOf plan) i ex.length
        c = .ok (ex.map Export.toPe) := by
  induction ex with
  | nil => intro i c _ _ _; rfl
  | cons e ex ih =>
    intro i c hi hn hw
    rw [length_cons] at hi hn
    rw [tableRecords, forall_mem_cons] at hw
    obtain ⟨he, hme⟩ := forall_mem_cons.1 hme
    refine bind_of_ok (h.readExport_ok he (by omega) hw.1) ?_
    have hl : ¬(e.toPe.byName ∧
        (if e.toPe.byName then c + 1 else c) > kLimitExportNames) := by
      rintro ⟨-, hm⟩
      split at hm <;> omega
    rw [if_neg hl]
    exact bind_of_ok (ih hme (by omega) (by split <;> omega) hw.2) rfl

theorem readExports_ok (h : Delivered m plan out) :
    (⟨out⟩ : Decoder).readExports (tablesOf plan) (stringsOf plan) 0 m.exports.length 0 =
      .ok (m.exports.map Export.toPe) := by
  have hc : (plan.descriptor tableExports).count = m.exports.length := h.layout.count tableExports
  have hl : m.exports.length ≤ kLimitExportNames := h.encodable.exportCount
  refine h.readExports_loop (fun _ he => he) (by omega) (by omega) fun r hr => h.written_fixed r ?_
  simp only [fixedRecords, mem_append]
  tauto

end Delivered

end TradutorLinux.Rust
