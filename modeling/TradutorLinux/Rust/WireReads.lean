import TradutorLinux.Rust.WireRecords

/-!
# Reading the wire back

What the decoder finds in an output that `fill_wire` filled: the descriptors of
the plan, the string pool, and in every record the value each field was written
with.

## Main definitions

* `Delivered m plan out` — the output holds the records of the image.
* `tablesOf`, `stringsOf` — what the decoder makes of the plan.

## Main results

* `readTables_ok` — the tables fill the output without a gap.
* `readStrings_ok` — the string pool comes back.
-/

namespace TradutorLinux.Rust

open List Pe

open Pe (Decoder TableDescriptor StringRecord)

/-- The output holds every record of the image, and nothing behind them. -/
structure Delivered (m : Model) (plan : WirePlan) (out : ByteString) : Prop where
  encodable : Encodable m
  layout : Layout m plan
  length : out.length = plan.total
  written : ∀ r ∈ wireRecords m plan, Written out r

def WireDescriptor.toTable (d : WireDescriptor) : TableDescriptor :=
  ⟨d.offset, d.count, d.stride, d.flags⟩

def StringEntry.toRecord (entry : StringEntry) : StringRecord :=
  ⟨entry.dataOffset, entry.bytes.length⟩

/-- The descriptors as the decoder has them. -/
def tablesOf (plan : WirePlan) : List TableDescriptor := plan.descriptors.map WireDescriptor.toTable

/-- The pool as the decoder has it. -/
def stringsOf (plan : WirePlan) : List StringRecord := plan.strings.map StringEntry.toRecord

theorem getD_tablesOf (p : WirePlan) (tbl : ℕ) :
    (tablesOf p).getD tbl {} = (p.descriptor tbl).toTable := by
  unfold tablesOf WirePlan.descriptor
  rw [getD_eq_getElem?_getD, getD_eq_getElem?_getD, getElem?_map]
  cases p.descriptors[tbl]? <;> rfl

/-! ### Fields -/

section Fields

variable {out : ByteString} {r : Record} {k w ph : ℕ} {shape : List (ℕ × ℕ)}

section

variable (h : Written out r)
include h

theorem readWord_field {v : ℕ} (hf : (k, toLE w v) ∈ r.fields)
    (hv : v < 256 ^ w) : (⟨out⟩ : Decoder).readWord (r.offset + k) w ph = .ok v := by
  unfold Decoder.readWord
  rw [h.readLE_field hf hv]

theorem readU8_field {v : UInt8} (hf : putU8 k v ∈ r.fields) :
    (⟨out⟩ : Decoder).readU8 (r.offset + k) ph = .ok v := by
  unfold Decoder.readU8
  rw [readWord_field h hf v.toNat_lt, ok_bind, UInt8.ofNat_toNat]

theorem readU16_field {v : UInt16} (hf : putU16 k v ∈ r.fields) :
    (⟨out⟩ : Decoder).readU16 (r.offset + k) ph = .ok v := by
  unfold Decoder.readU16
  rw [readWord_field h hf v.toNat_lt, ok_bind, UInt16.ofNat_toNat]

theorem readU32_field {v : UInt32} (hf : putU32 k v ∈ r.fields) :
    (⟨out⟩ : Decoder).readU32 (r.offset + k) ph = .ok v := by
  unfold Decoder.readU32
  rw [readWord_field h hf v.toNat_lt, ok_bind, UInt32.ofNat_toNat]

theorem readU64_field {v : UInt64} (hf : putU64 k v ∈ r.fields) :
    (⟨out⟩ : Decoder).readU64 (r.offset + k) ph = .ok v := by
  unfold Decoder.readU64
  rw [readWord_field h hf v.toNat_lt, ok_bind, UInt64.ofNat_toNat]

section

variable (hshape : Shaped r.fields shape)
include hshape

theorem readWord_gap (hk : k + w ≤ r.size) (hg : ∀ e ∈ shape, e.1 + e.2 ≤ k ∨ k + w ≤ e.1) :
    (⟨out⟩ : Decoder).readWord (r.offset + k) w ph = .ok 0 := by
  unfold Decoder.readWord
  rw [h.readLE_gap hk (Written.gap_of_shaped hshape hg)]

theorem readU16_gap (hk : k + 2 ≤ r.size) (hg : ∀ e ∈ shape, e.1 + e.2 ≤ k ∨ k + 2 ≤ e.1) :
    (⟨out⟩ : Decoder).readU16 (r.offset + k) ph = .ok 0 := by
  unfold Decoder.readU16
  rw [readWord_gap h hshape hk hg]
  rfl

theorem readU32_gap (hk : k + 4 ≤ r.size) (hg : ∀ e ∈ shape, e.1 + e.2 ≤ k ∨ k + 4 ≤ e.1) :
    (⟨out⟩ : Decoder).readU32 (r.offset + k) ph = .ok 0 := by
  unfold Decoder.readU32
  rw [readWord_gap h hshape hk hg]
  rfl

theorem zeroRange_gap (hk : k + w ≤ r.size) (hg : ∀ e ∈ shape, e.1 + e.2 ≤ k ∨ k + w ≤ e.1) :
    (⟨out⟩ : Decoder).zeroRange (r.offset + k) w ph = .ok () := by
  have hi : (!inRange out.length (r.offset + k) w) = false := by
    rw [Bool.not_eq_false', inRange_iff]
    have := h.inside
    omega
  have hz : (slice out (r.offset + k) w).all (· == 0) := by
    rw [h.gap k w hk (Written.gap_of_shaped hshape hg)]
    exact all_eq_true.2 fun b hb => beq_iff_eq.2 (eq_of_mem_replicate hb)
  unfold Decoder.zeroRange
  rw [hi, hz]
  rfl

end

end

end Fields

/-! ### The pool -/

variable {bytes byt bs : ByteString}

theorem mem_foldl_intern {strings : List ByteString} :
    ∀ {po : List ByteString}, bs ∈ strings.foldl intern po ↔ bs ∈ po ∨ bs ∈ strings := by
  induction strings with
  | nil => intro po; simp
  | cons f strings ih =>
    intro po
    rw [foldl_cons, ih, mem_cons, ← or_assoc]
    refine or_congr_left ?_
    unfold intern
    split
    · next hm =>
      refine ⟨.inl, fun h => h.elim id fun heq => ?_⟩
      exact heq ▸ hm
    · rw [mem_append, mem_singleton]

theorem mem_allStrings {m : Model} :
    bs ∈ allStrings m ↔ bs ∈ m.sections.map Section.name ++ dllStrings m.imports ++
      dllStrings m.delayImports ++ m.exports.flatMap exportStrings := by
  unfold allStrings
  rw [mem_foldl_intern]
  exact or_iff_right not_mem_nil

section Pool

variable {m : Model}

theorem section_mem_allStrings {s : Section} (hs : s ∈ m.sections) : s.name ∈ allStrings m := by
  rw [mem_allStrings]
  simp only [mem_append]
  exact .inl (.inl (.inl (mem_map_of_mem hs)))

theorem dllStrings_mem_allStrings (h : bs ∈ dllStrings m.imports ∨ bs ∈ dllStrings m.delayImports) :
    bs ∈ allStrings m := by
  rw [mem_allStrings]
  simp only [mem_append]
  rcases h with h | h
  · exact .inl (.inl (.inr h))
  · exact .inl (.inr h)

theorem exportStrings_mem_allStrings {e : Export} (he : e ∈ m.exports)
    (h : bs ∈ exportStrings e) : bs ∈ allStrings m := by
  rw [mem_allStrings, mem_append]
  exact .inr (mem_flatMap.2 ⟨e, he, h⟩)

theorem dll_mem_dllStrings {dlls : List Dll} {d : Dll} (hd : d ∈ dlls) : d.name ∈ dllStrings dlls :=
  mem_flatMap.2 ⟨d, hd, mem_cons_self⟩

theorem symbol_mem_dllStrings {dlls : List Dll} {d : Dll} {s : Symbol} (hd : d ∈ dlls)
    (hs : s ∈ d.symbols) (ho : s.byOrdinal = false) : s.name ∈ dllStrings dlls := by
  refine mem_flatMap.2 ⟨d, hd, mem_cons_of_mem _ (mem_map_of_mem ?_)⟩
  exact mem_filter.2 ⟨hs, by rw [ho]; rfl⟩

theorem short_of_mem_dllStrings {ds : List Dll} (hl : ∀ d ∈ ds, d.Bounded)
    (h : bytes ∈ dllStrings ds) : Short bytes := by
  obtain ⟨d, hd, hm⟩ := mem_flatMap.1 h
  rcases mem_cons.1 hm with rfl | hy
  · exact (hl d hd).name
  · obtain ⟨s, hs, rfl⟩ := mem_map.1 hy
    exact ((hl d hd).symbols s (mem_of_mem_filter hs)).name

theorem short_of_mem_allStrings (hm : Encodable m) (h : bytes ∈ allStrings m) : Short bytes := by
  rw [mem_allStrings] at h
  simp only [mem_append] at h
  rcases h with ((hc | himp) | hd) | hx
  · obtain ⟨s, hs, rfl⟩ := mem_map.1 hc
    exact hm.sections s hs
  · exact short_of_mem_dllStrings hm.imports himp
  · exact short_of_mem_dllStrings hm.delayImports hd
  obtain ⟨e, he, hme⟩ := mem_flatMap.1 hx
  have hb := hm.exports e he
  rcases mem_append.1 hme with hn | hf
  · split at hn
    · rw [mem_singleton.1 hn]
      exact hb.name
    · cases hn
  · split at hf
    · cases hf
    · rw [mem_singleton.1 hf]
      exact hb.forwarder

end Pool

/-! ### The string records -/

section Strings

variable {out : ByteString} {pool pl po : List ByteString}

theorem stringRecord_reads {e : StringEntry} (h : Written out (stringRecord e))
    (hs : Short e.bytes) (ph : ℕ) :
    (⟨out⟩ : Decoder).readWord e.recordOffset 4 ph = .ok e.bytes.length ∧
      (⟨out⟩ : Decoder).readWord (e.recordOffset + 4) 4 ph = .ok 0 ∧
      (⟨out⟩ : Decoder).zeroRange (e.recordOffset + (8 + e.bytes.length))
        (stringRecordSize e.bytes - (8 + e.bytes.length)) ph = .ok () := by
  have hi := stringRecordSize_ge e.bytes
  have hshape : Shaped (stringRecord e).fields [(0, 4), (8, e.bytes.length)] := shaped_of_eq rfl
  have hl : e.bytes.length < 256 ^ 4 := by
    unfold Short at hs
    omega
  refine ⟨?_, ?_, ?_⟩
  · exact readWord_field (k := 0) h mem_cons_self hl
  · refine readWord_gap h hshape ?_ ?_
    · change 4 + 4 ≤ stringRecordSize e.bytes
      omega
    · simp
  · refine zeroRange_gap h hshape ?_ ?_
    · change 8 + e.bytes.length + (stringRecordSize e.bytes - (8 + e.bytes.length)) ≤
        stringRecordSize e.bytes
      omega
    · simp
      omega

theorem written_stringEntries {c : ℕ}
    (h : ∀ r ∈ (stringEntries c (bs :: po)).map stringRecord, Written out r) :
    Written out (stringRecord ⟨bs, c, c + wireStringRecordHeaderSize⟩) ∧
      ∀ r ∈ (stringEntries (c + stringRecordSize bs) po).map stringRecord, Written out r :=
  forall_mem_cons.1 h

theorem checkStrings_ok (hs : ∀ bytes ∈ pool, Short bytes) :
    ∀ c, (∀ r ∈ (stringEntries c pool).map stringRecord, Written out r) →
      (⟨out⟩ : Decoder).checkStrings c pool.length =
        .ok (c + (pool.map stringRecordSize).sum) := by
  induction pool with
  | nil => intro c _; rfl
  | cons bytes pool ih =>
    intro c hw
    obtain ⟨hf, hr⟩ := written_stringEntries hw
    obtain ⟨hb, hs⟩ := forall_mem_cons.1 hs
    obtain ⟨he, hre, hp⟩ := stringRecord_reads hf hb Pe.kPhaseWire
    have hi : (!inRange out.length c (stringRecordSize bytes)) = false := by
      rw [Bool.not_eq_false', inRange_iff]
      exact hf.inside
    have ha : Pe.align8 (8 + bytes.length) = stringRecordSize bytes := rfl
    have hl : ¬(bytes.length > kLimitStringBytes ∨ (0 : ℕ) ≠ 0) := by
      unfold Short at hb
      unfold kLimitStringBytes
      omega
    rw [length_cons, Decoder.checkStrings, he, ok_bind, hre, ok_bind, if_neg hl]
    dsimp only
    rw [ha, hi, if_neg Bool.false_ne_true, hp, ok_bind,
      ih hs (c + stringRecordSize bytes) hr, map_cons, sum_cons,
      add_assoc]

theorem readStrings_ok (hs : ∀ bytes ∈ pool, Short bytes) :
    ∀ c, (∀ r ∈ (stringEntries c pool).map stringRecord, Written out r) →
      (⟨out⟩ : Decoder).readStrings c pool.length =
        .ok ((stringEntries c pool).map StringEntry.toRecord) := by
  induction pool with
  | nil => intro c _; rfl
  | cons bytes pool ih =>
    intro c hw
    obtain ⟨hf, hr⟩ := written_stringEntries hw
    obtain ⟨hb, hs⟩ := forall_mem_cons.1 hs
    obtain ⟨hl, -, -⟩ := stringRecord_reads hf hb Pe.kPhaseWire
    have ha : Pe.align8 (8 + bytes.length) = stringRecordSize bytes := rfl
    rw [length_cons, Decoder.readStrings, hl, ok_bind, ha,
      ih hs (c + stringRecordSize bytes) hr, ok_bind]
    rfl

end Strings

/-! ### The tables -/

section Tables

variable {out : ByteString} {pool pl po : List ByteString}

theorem length_le_sum_stringRecordSize (po : List ByteString) :
    po.length * 8 ≤ (po.map stringRecordSize).sum := by
  induction po with
  | nil => exact le_refl 0
  | cons bs po ih =>
    have hs := stringRecordSize_ge bs
    rw [length_cons, map_cons, sum_cons]
    omega

variable {descriptor dr de : WireDescriptor} {tbl : ℕ}

theorem count_le_tableBytes (hc : tbl = tableStrings → descriptor.count = pool.length)
    (hn : tbl ≠ tableStrings → strides.getD tbl 0 ≠ 0) :
    descriptor.count ≤ tableBytes pool tbl descriptor := by
  unfold tableBytes
  split
  · next ht =>
    have hr := length_le_sum_stringRecordSize pool
    omega
  · next ht => exact Nat.le_mul_of_pos_right _ (pos_of_ne_zero (hn ht))

theorem strides_le (ht : tbl < wireTableCount) : strides.getD tbl 0 ≤ 136 := by
  unfold wireTableCount at ht
  interval_cases tbl <;> decide

theorem strides_ne_zero (ht : tbl < wireTableCount)
    (hs : tbl ≠ tableStrings) (hr : tbl ≠ tableReserved) : strides.getD tbl 0 ≠ 0 := by
  revert hs hr
  unfold wireTableCount at ht
  interval_cases tbl <;> decide

theorem readDescriptor_ok (h : Written out (descriptorRecord tbl de))
    (hm : de.count = 0 → de = {}) (ho : de.offset < 256 ^ 8)
    (hc : de.count < 256 ^ 8) (hs : de.stride < 256 ^ 4) (hf : de.flags < 256 ^ 4) :
    (⟨out⟩ : Decoder).readDescriptor tbl = .ok de.toTable := by
  have hr : ∀ k w v, k + w ≤ wireDescriptorSize → v < 256 ^ w →
      (de.count ≠ 0 → (k, toLE w v) ∈ (descriptorRecord tbl de).fields) →
      (de.count = 0 → v = 0) →
      (⟨out⟩ : Decoder).readWord (wireDescriptorOffset + tbl * wireDescriptorSize + k) w
        Pe.kPhaseWire = .ok v := by
    intro k w v hk hv hfi hz
    by_cases hne : de.count = 0
    · have hshape : Shaped (descriptorRecord tbl de).fields [] := by
        have hn : (descriptorRecord tbl de).fields = [] := if_neg (not_not.2 hne)
        rw [hn]
        exact List.Sublist.refl _
      rw [hz hne]
      exact readWord_gap h hshape hk fun e he => absurd he not_mem_nil
    · exact readWord_field h (hfi hne) hv
  have hi : de.count ≠ 0 → (descriptorRecord tbl de).fields =
      [putSize64 0 de.offset, putSize64 8 de.count,
        putSize32 16 de.stride, putSize32 20 de.flags] := fun hne => if_pos hne
  have h0 := hr 0 8 de.offset (by decide) ho
    (fun hne => by rw [hi hne]; exact mem_cons_self) (fun he => by rw [hm he])
  have h8 := hr 8 8 de.count (by decide) hc
    (fun hne => by rw [hi hne]; simp [putSize64]) (fun he => he)
  have h16 := hr 16 4 de.stride (by decide) hs
    (fun hne => by rw [hi hne]; simp [putSize32]) (fun he => by rw [hm he])
  have h20 := hr 20 4 de.flags (by decide) hf
    (fun hne => by rw [hi hne]; simp [putSize32]) (fun he => by rw [hm he])
  have hp : kWireDescriptorOffset + tbl * kWireDescriptorSize =
      wireDescriptorOffset + tbl * wireDescriptorSize := rfl
  dsimp only [Decoder.readDescriptor]
  rw [hp, ← add_zero (wireDescriptorOffset + tbl * wireDescriptorSize), h0, ok_bind,
    add_zero, h8, ok_bind, h16, ok_bind, h20, ok_bind]
  rfl

theorem tableEnd_ok (hst : de.stride = if tbl = tableStrings then 0 else strides.getD tbl 0)
    (hf : de.flags = if tbl = tableStrings then wireFlagVariable else 0)
    (hn : tbl ≠ tableStrings → strides.getD tbl 0 ≠ 0)
    (ho : tbl = tableStrings → de.count = po.length)
    (he : tableEnd po tbl de ≤ out.length) (hl : out.length ≤ maxSerializedBytes)
    (hs : ∀ bs ∈ po, Short bs)
    (hp : tbl = tableStrings → ∀ r ∈ (stringEntries de.offset po).map stringRecord, Written out r) :
    (⟨out⟩ : Decoder).tableEnd tbl de.toTable = .ok (tableEnd po tbl de) := by
  unfold Decoder.tableEnd
  unfold tableEnd tableBytes at he ⊢
  by_cases ht : tbl = tableStrings
  · rw [if_pos ht] at hst hf he ⊢
    have hr := length_le_sum_stringRecordSize po
    have hw : ¬de.toTable.count > out.length / kWireStringRecordHeaderSize := by
      rw [gt_iff_lt, not_lt]
      change de.count ≤ out.length / 8
      omega
    have hv : ¬(de.toTable.stride ≠ 0 ∨ de.toTable.flags ≠ kTableFlagVariableRecords) := by
      rw [not_or, not_not, not_not]
      exact ⟨hst, hf⟩
    rw [if_pos (show tbl = 2 from ht), if_neg hv, if_neg hw]
    have hc := checkStrings_ok hs de.offset (hp ht)
    rwa [← ho ht] at hc
  · rw [if_neg ht] at hst hf he ⊢
    have hi : (!inRange out.length de.offset (de.count * de.stride)) = false := by
      rw [hst, Bool.not_eq_false', inRange_iff]
      exact he
    have hm : ¬de.count * de.stride > uint64Max := by
      rw [hst]
      unfold maxSerializedBytes at hl
      unfold uint64Max
      omega
    have hv : ¬(de.stride = 0 ∨ de.flags ≠ 0 ∨ de.stride ≠ kExpectedStrides.getD tbl 0 ∨
        de.count * de.stride > uint64Max ∨
        (!inRange out.length de.offset (de.count * de.stride))) := by
      rintro (h | h | h | h | h)
      · exact hn ht (hst.symm.trans h)
      · exact h hf
      · exact h hst
      · exact hm h
      · exact Bool.false_ne_true (hi.symm.trans h)
    rw [if_neg (show ¬tbl = 2 from ht), ← hst]
    exact if_neg hv

theorem readTable_ok {tbl count cursor : ℕ} {s : ℕ}
    (hp : planTable pool tbl count cursor = (descriptor, s))
    (hcu : wireHeaderSize ≤ cursor) (ht : tbl < wireTableCount)
    (hre : tbl = tableReserved → count = 0) (hc : tbl = tableStrings → count = pool.length)
    (hs : s ≤ out.length) (hl : out.length ≤ maxSerializedBytes) (hh : ∀ bytes ∈ pool, Short bytes)
    (hw : Written out (descriptorRecord tbl descriptor))
    (hpo : tbl = tableStrings → ∀ r ∈ (stringEntries descriptor.offset pool).map stringRecord,
      Written out r) : (⟨out⟩ : Decoder).readTable tbl cursor = .ok (descriptor.toTable, s) := by
  have hdc : descriptor.count = count := by
    have := planTable_count pool tbl count cursor
    rwa [hp] at this
  have he : count = 0 → descriptor = {} ∧ s = cursor := fun h => by
    rw [planTable, if_pos h] at hp
    cases hp
    exact ⟨rfl, rfl⟩
  have hu : count ≠ 0 → descriptor.offset = align8 cursor ∧ s = tableEnd pool tbl descriptor ∧
      descriptor.stride = (if tbl = tableStrings then 0 else strides.getD tbl 0) ∧
      descriptor.flags = (if tbl = tableStrings then wireFlagVariable else 0) := fun h => by
    have ho := planTable_offset pool tbl count cursor h
    have hd := planTable_end pool tbl count cursor h
    have hst := planTable_stride pool tbl count cursor h
    rw [hp] at ho hd hst
    exact ⟨ho, hd, hst⟩
  have hde : (⟨out⟩ : Decoder).readDescriptor tbl = .ok descriptor.toTable := by
    unfold maxSerializedBytes at hl
    by_cases hn : count = 0
    · rw [(he hn).1] at hw ⊢
      exact readDescriptor_ok hw (fun _ => rfl) (by decide) (by decide) (by decide) (by decide)
    · obtain ⟨-, hd, hst, hf⟩ := hu hn
      have hb := count_le_tableBytes (fun h => hdc.trans (hc h)) fun h =>
        strides_ne_zero ht h fun hr => hn (hre hr)
      have hle := strides_le ht
      unfold tableEnd at hd
      refine readDescriptor_ok hw (fun h => absurd (hdc.symm.trans h) hn) (by omega)
        (by omega) ?_ ?_
      · rw [hst]
        split <;> omega
      · rw [hf]
        split <;> decide
  dsimp only [Decoder.readTable]
  rw [hde, ok_bind]
  by_cases hn : count = 0
  · obtain ⟨rfl, rfl⟩ := he hn
    rfl
  obtain ⟨ho, hd, hst, hf⟩ := hu hn
  have hpl : ¬(tbl = kTableReserved ∨
      descriptor.toTable.offset < kWireHeaderSize ∨ descriptor.toTable.offset % 8 ≠ 0) := by
    have htt : descriptor.toTable.offset = descriptor.offset := rfl
    rw [htt]
    rintro (h | h | h)
    · exact hn (hre h)
    · have := align8_ge cursor
      unfold kWireHeaderSize at h
      unfold wireHeaderSize at hcu
      omega
    · rw [ho, align8_mod] at h
      exact h rfl
  have hx := tableEnd_ok hst hf (fun h => strides_ne_zero ht h fun hr => hn (hre hr))
    (fun h => hdc.trans (hc h)) (hd ▸ hs) hl hh hpo
  rw [← hd] at hx
  have hc : ¬descriptor.toTable.count = 0 := fun h => hn (hdc.symm.trans h)
  have hco : ¬descriptor.toTable.offset ≠ Pe.align8 cursor := not_not.2 ho
  rw [if_neg hc, if_neg hpl, if_neg hco, hx, ok_bind, if_neg (not_lt.2 hs)]

/-- **The table loop reads the plan back, and stops at its end.** -/
theorem readTables_ok (cs : List ℕ) (hl : out.length ≤ maxSerializedBytes)
    (hsh : ∀ bs ∈ po, Short bs) :
    ∀ {tbl c : ℕ} {ds : List WireDescriptor} {s : ℕ},
      planTables po tbl cs c = (ds, s) → wireHeaderSize ≤ c →
      tbl + cs.length ≤ wireTableCount →
      (∀ k, tbl + k = tableReserved → cs.getD k 0 = 0) →
      (∀ k, tbl + k = tableStrings → k < cs.length → cs.getD k 0 = po.length) →
      s ≤ out.length →
      (∀ r ∈ descriptorRecords tbl ds, Written out r) →
      (∀ k, tbl + k = tableStrings → k < cs.length →
        ∀ r ∈ (stringEntries (ds.getD k {}).offset po).map stringRecord, Written out r) →
      (⟨out⟩ : Decoder).readTables tbl cs.length c = .ok (ds.map WireDescriptor.toTable, s) := by
  induction cs with
  | nil =>
    intro tbl c ds s hp _ _ _ _ _ _ _
    cases hp
    rfl
  | cons n cs ih =>
    intro tbl c ds s hp hu ht he hc hs hw ho
    rw [planTables] at hp
    have hm := (laid_planTables po cs (tbl + 1) (planTable po tbl n c).2).le
    have hle := planTable_le po tbl n c
    rcases hf : planTable po tbl n c with ⟨de, mi⟩
    rcases hr : planTables po (tbl + 1) cs mi with ⟨re, l⟩
    rw [hf] at hp hm hle
    rw [hr] at hp hm
    cases hp
    rw [length_cons] at ht ⊢
    rw [descriptorRecords, forall_mem_cons] at hw
    have hn : ∀ k, tbl + 1 + k = tbl + (k + 1) := fun k => by omega
    have hh := readTable_ok hf hu (by omega) (fun h => he 0 h)
      (fun h => hc 0 h (Nat.succ_pos _)) (hm.trans hs) hl hsh hw.1
      (fun h => ho 0 h (Nat.succ_pos _))
    have ha := ih hr (hu.trans hle) (by omega)
      (fun k hk => he (k + 1) ((hn k).symm.trans hk))
      (fun k hk hlt => hc (k + 1) ((hn k).symm.trans hk) (Nat.succ_lt_succ hlt)) hs
      hw.2
      (fun k hk hlt => ho (k + 1) ((hn k).symm.trans hk) (Nat.succ_lt_succ hlt))
    rw [Decoder.readTables, hh, ok_bind, ha, ok_bind]
    rfl

end Tables

end TradutorLinux.Rust
