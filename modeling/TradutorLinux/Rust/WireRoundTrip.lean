import TradutorLinux.Pe.Builder
import TradutorLinux.Rust.Agreement
import TradutorLinux.Rust.WireEntries

/-!
# The wire round trip

The decoder reads from the output of `fill_wire` the image that went in.  The
unwind data come in two passes, first the records and then the functions that
refer to them by their index.

## Main results

* `wire_roundTrip`
-/

namespace TradutorLinux.Rust

open List Pe

open Pe (Decoder WireError)

variable {m : Model} {plan : WirePlan} {out : ByteString}

namespace Delivered

/-! ### Unwind data -/

attribute [local simp] codeFields

theorem readCode_ok (h : Delivered m plan out) {i : ℕ} {c : UnwindCode}
    (hv : Decoder.validUnwindOperation c.operation)
    (hi : i < (plan.descriptor tableUnwindCodes).count)
    (hw : Written out (fixedRecord plan tableUnwindCodes i (codeFields c))) :
    (⟨out⟩ : Decoder).readCode (tablesOf plan) i = .ok c.toPe := by
  have hs : Shaped (codeFields c) codeShape := shaped_of_eq rfl
  refine bind_of_ok (h.fixedRecord_ok (codeFields c) (by decide) hi rfl) ?_
  refine bind_of_ok (readU8_field (k := 0) hw (v := c.codeOffset) mem_cons_self) ?_
  refine bind_of_ok (readU8_field hw (v := c.operation) (by simp)) ?_
  refine bind_of_ok (readU8_field hw (v := c.operationInfo) (by simp)) ?_
  refine bind_of_ok (zeroRange_gap hw hs (by decide : 3 + 1 ≤ 8) (by decide)) ?_
  refine bind_of_ok (readU32_field hw (v := c.operand) (by simp)) ?_
  rw [hv]
  rfl

theorem readEpilog_ok (h : Delivered m plan out) {i : ℕ} {e : Epilog}
    (hi : i < (plan.descriptor tableUnwindEpilogs).count)
    (hw : Written out (fixedRecord plan tableUnwindEpilogs i (epilogFields e))) :
    (⟨out⟩ : Decoder).readEpilog (tablesOf plan) i = .ok e.toPe := by
  refine bind_of_ok (h.fixedRecord_ok (epilogFields e) (by decide) hi rfl) ?_
  refine bind_of_ok (readU32_field (k := 0) hw (v := e.beginRva) mem_cons_self) ?_
  exact bind_of_ok (readU32_field hw (v := e.endRva) (by simp [epilogFields])) rfl

attribute [local simp] unwindFields chainFields

theorem readChain_ok {i ci e : ℕ} {u : Unwind} (ph : ℕ)
    (hw : Written out (fixedRecord plan tableUnwindInfos i (unwindFields ci e u))) :
    (⟨out⟩ : Decoder).readU32 ((fixedRecord plan tableUnwindInfos i
        (unwindFields ci e u)).offset + 48) ph =
      .ok ((u.chained.map Chain.beginRva).getD 0) ∧
    (⟨out⟩ : Decoder).readU32 ((fixedRecord plan tableUnwindInfos i
        (unwindFields ci e u)).offset + 52) ph =
      .ok ((u.chained.map Chain.endRva).getD 0) ∧
    (⟨out⟩ : Decoder).readU32 ((fixedRecord plan tableUnwindInfos i
        (unwindFields ci e u)).offset + 56) ph =
      .ok ((u.chained.map Chain.unwindInfoRva).getD 0) := by
  cases hc : u.chained with
  | none =>
    have hs : Shaped (unwindFields ci e u) (unwindShape.take 12) := by
      unfold unwindFields
      rw [hc]
      exact shaped_of_eq rfl
    exact ⟨readU32_gap hw hs (by decide : 48 + 4 ≤ 72) (by decide),
      readU32_gap hw hs (by decide : 52 + 4 ≤ 72) (by decide),
      readU32_gap hw hs (by decide : 56 + 4 ≤ 72) (by decide)⟩
  | some c =>
    exact ⟨readU32_field hw (v := c.beginRva) (by simp [hc]),
      readU32_field hw (v := c.endRva) (by simp [hc]),
      readU32_field hw (v := c.unwindInfoRva) (by simp [hc])⟩

section

variable (h : Delivered m plan out)
include h

attribute [local simp] putSize64

theorem readUnwindInfo_ok {ix ci ep : ℕ} {u : Unwind}
    (hk : u.Known) (hin : ix < (plan.descriptor tableUnwindInfos).count)
    (hco : ci + u.codes.length ≤ (plan.descriptor tableUnwindCodes).count)
    (hp : ep + u.epilogs.length ≤ (plan.descriptor tableUnwindEpilogs).count)
    (hw : Written out (fixedRecord plan tableUnwindInfos ix (unwindFields ci ep u)))
    (ho : ∀ r ∈ tableRecords plan tableUnwindCodes codeFields ci u.codes, Written out r)
    (he : ∀ r ∈ tableRecords plan tableUnwindEpilogs epilogFields ep u.epilogs, Written out r) :
    (⟨out⟩ : Decoder).readUnwindInfo (tablesOf plan) ix = .ok u.toPe := by
  have hs := shaped_unwindFields ci ep u
  have hcl := h.count_lt tableUnwindCodes
  have hl := h.count_lt tableUnwindEpilogs
  obtain ⟨hb, hd, hn⟩ := readChain_ok kPhaseUnwind hw
  obtain ⟨hr, h1, h2⟩ := flags8_spec (u.extendedSetFpreg) (u.chained.isSome)
  generalize hf : ((if u.extendedSetFpreg then 1 else 0) |||
    (if u.chained.isSome then 2 else 0) : UInt8) = flags at hr h1 h2
  refine bind_of_ok (h.fixedRecord_ok (unwindFields ci ep u) (by decide) hin
    rfl) ?_
  refine bind_of_ok (readU8_field (k := 0) hw (v := u.version) mem_cons_self) ?_
  refine bind_of_ok (readU8_field hw (v := u.flags) (by simp)) ?_
  refine bind_of_ok (readU8_field hw (v := u.prologSize) (by simp)) ?_
  refine bind_of_ok (readU8_field hw (v := u.frameRegister) (by simp)) ?_
  refine bind_of_ok (readU8_field hw (v := u.frameOffset) (by simp)) ?_
  refine bind_of_ok (readU8_field hw (v := flags) (by rw [← hf]; simp)) ?_
  refine bind_of_ok (readU16_gap hw hs (by decide : 6 + 2 ≤ 72) (by decide)) ?_
  refine bind_of_ok (zeroRange_gap hw hs (by decide : 60 + 4 ≤ 72) (by decide)) ?_
  refine bind_of_ok (zeroRange_gap hw hs (by decide : 64 + 8 ≤ 72) (by decide)) ?_
  have hv : ¬(flags &&& ~~~3 ≠ 0 ∨ (0 : UInt16) ≠ 0) := by
    rw [hr]
    decide
  rw [if_neg hv]
  refine bind_of_ok (readWord_field hw (v := if u.codes.length = 0 then 0 else ci)
    (by simp) (by split <;> omega)) ?_
  refine bind_of_ok (readWord_field hw (v := u.codes.length) (by simp) (by omega)) ?_
  refine bind_of_ok (readWord_field hw (v := if u.epilogs.length = 0 then 0 else ep)
    (by simp) (by split <;> omega)) ?_
  refine bind_of_ok (readWord_field hw (v := u.epilogs.length) (by simp) (by omega)) ?_
  refine bind_of_ok (indexRange_ok hco) ?_
  refine bind_of_ok (indexRange_ok hp) ?_
  refine bind_of_ok (readU32_field hw (v := u.handlerRva) (by simp)) ?_
  refine bind_of_ok (readU32_field hw (v := u.handlerDataRva) (by simp)) ?_
  refine bind_of_ok hb ?_
  refine bind_of_ok hd ?_
  refine bind_of_ok hn ?_
  have hrc : collect (fun it => (⟨out⟩ : Decoder).readCode (tablesOf plan) it) ci
      u.codes.length = .ok (u.codes.map UnwindCode.toPe) :=
    collect_tableRecords ho fun i c hc hi hw => h.readCode_ok (hk c hc) (by omega) hw
  have hre : collect (fun it => (⟨out⟩ : Decoder).readEpilog (tablesOf plan) it)
      ep u.epilogs.length = .ok (u.epilogs.map Epilog.toPe) :=
    collect_tableRecords he fun i e _ hi hw => h.readEpilog_ok (by omega) hw
  refine bind_of_ok (collect_range (length_map _) hrc) ?_
  refine bind_of_ok (collect_range (length_map _) hre) ?_
  rw [h1, h2, Bool.decide_eq_true, Bool.decide_eq_true]
  rfl

theorem readUnwindInfos_loop {fn : List RuntimeFunction} (hk : ∀ f ∈ fn, f.unwind.Known) :
    ∀ {i ci e : ℕ}, i + fn.length ≤ (plan.descriptor tableUnwindInfos).count →
      ci + (fn.map fun f => f.unwind.codes.length).sum ≤ (plan.descriptor tableUnwindCodes).count →
      e + (fn.map fun f => f.unwind.epilogs.length).sum ≤
        (plan.descriptor tableUnwindEpilogs).count →
      (∀ r ∈ functionRecords plan i ci e fn, Written out r) →
      collect (fun i => (⟨out⟩ : Decoder).readUnwindInfo (tablesOf plan) i) i
        fn.length = .ok (fn.map fun f => f.unwind.toPe) := by
  induction fn with
  | nil => intro i ci e _ _ _ _; rfl
  | cons f fn ih =>
    intro i ci e hi hc hp hr
    obtain ⟨hf, hk⟩ := forall_mem_cons.1 hk
    rw [length_cons] at hi
    rw [map_cons, sum_cons] at hc hp
    rw [functionRecords] at hr
    simp only [cons_append, forall_mem_cons, forall_mem_append] at hr
    obtain ⟨-, hw, ⟨ho, he⟩, hwr⟩ := hr
    refine bind_of_ok (h.readUnwindInfo_ok hf (by omega) (by omega) (by omega) hw ho he) ?_
    exact bind_of_ok (ih hk (by omega) (by omega) (by omega) hwr) rfl

attribute [local simp] functionFields

theorem readFunction_ok {ui : List Pe.UnwindInfo} {i : ℕ}
    {f : RuntimeFunction} (hn : ui[i]? = some f.unwind.toPe)
    (hi : i < (plan.descriptor tableRuntimeFunctions).count)
    (hw : Written out (fixedRecord plan tableRuntimeFunctions i (functionFields i f))) :
    (⟨out⟩ : Decoder).readFunction (tablesOf plan) ui i = .ok f.toPe := by
  have hl := h.count_lt tableRuntimeFunctions
  refine bind_of_ok (h.fixedRecord_ok (functionFields i f) (by decide) hi rfl) ?_
  refine bind_of_ok (readU32_field (k := 0) hw (v := f.beginRva) mem_cons_self) ?_
  refine bind_of_ok (readU32_field hw (v := f.endRva) (by simp)) ?_
  refine bind_of_ok (readU32_field hw (v := f.unwindInfoRva) (by simp)) ?_
  refine bind_of_ok (readWord_field hw (v := i) (by simp) (by omega)) ?_
  refine bind_of_ok (zeroRange_gap hw (shaped_functionFields i f) (by decide : 20 + 4 ≤ 24)
    (by decide)) ?_
  rw [hn]
  rfl

theorem readFunctions_loop {ui : List Pe.UnwindInfo} {fn : List RuntimeFunction} :
    ∀ {i ci e : ℕ}, (∀ k f, fn[k]? = some f → ui[i + k]? = some f.unwind.toPe) →
      i + fn.length ≤ (plan.descriptor tableRuntimeFunctions).count →
      (∀ r ∈ functionRecords plan i ci e fn, Written out r) →
      collect (fun i => (⟨out⟩ : Decoder).readFunction (tablesOf plan) ui i) i
        fn.length = .ok (fn.map RuntimeFunction.toPe) := by
  induction fn with
  | nil => intro i ci e _ _ _; rfl
  | cons f fn ih =>
    intro i ci e hi hn hwr
    rw [length_cons] at hn
    rw [functionRecords] at hwr
    simp only [cons_append, forall_mem_cons, forall_mem_append] at hwr
    obtain ⟨hf, -, -, hw⟩ := hwr
    have hr : ∀ k g, fn[k]? = some g → ui[i + 1 + k]? = some g.unwind.toPe := fun k g hg => by
      rw [add_assoc, add_comm 1]
      exact hi (k + 1) g hg
    refine bind_of_ok (h.readFunction_ok (hi 0 f rfl) (by omega) hf) ?_
    exact bind_of_ok (ih hr (by omega) hw) rfl

theorem written_functions : ∀ r ∈ functionRecords plan 0 0 0 m.runtimeFunctions, Written out r := by
  refine fun r hr => h.written_fixed r ?_
  simp only [fixedRecords, mem_append]
  tauto

theorem readUnwindInfos_ok : collect (fun i => (⟨out⟩ : Decoder).readUnwindInfo (tablesOf plan) i) 0
      m.runtimeFunctions.length = .ok (m.runtimeFunctions.map fun f => f.unwind.toPe) := by
  have hi : (plan.descriptor tableUnwindInfos).count = m.runtimeFunctions.length :=
    h.layout.count tableUnwindInfos
  have hc : (plan.descriptor tableUnwindCodes).count =
      (m.runtimeFunctions.map fun f => f.unwind.codes.length).sum :=
    h.layout.count tableUnwindCodes
  have he : (plan.descriptor tableUnwindEpilogs).count =
      (m.runtimeFunctions.map fun f => f.unwind.epilogs.length).sum :=
    h.layout.count tableUnwindEpilogs
  exact h.readUnwindInfos_loop h.encodable.functions (by omega) (by omega) (by omega)
    h.written_functions

theorem readFunctions_ok : collect (fun i => (⟨out⟩ : Decoder).readFunction (tablesOf plan)
      (m.runtimeFunctions.map fun f => f.unwind.toPe) i) 0 m.runtimeFunctions.length =
        .ok (m.runtimeFunctions.map RuntimeFunction.toPe) := by
  have hc : (plan.descriptor tableRuntimeFunctions).count = m.runtimeFunctions.length :=
    h.layout.count tableRuntimeFunctions
  refine h.readFunctions_loop (fun k f hf => ?_) (by omega) h.written_functions
  rw [zero_add, getElem?_map, hf]
  rfl

end

/-! ### Relocations -/

section

variable (h : Delivered m plan out)
include h

theorem readRelocEntry_ok {i : ℕ} {e : RelocEntry}
    (hi : i < (plan.descriptor tableRelocEntries).count)
    (hw : Written out (fixedRecord plan tableRelocEntries i (entryFields e))) :
    (⟨out⟩ : Decoder).readRelocEntry (tablesOf plan) i = .ok e.toPe := by
  have hs : Shaped (entryFields e) entryShape := shaped_of_eq rfl
  refine bind_of_ok (h.fixedRecord_ok (entryFields e) (by decide) hi rfl) ?_
  refine bind_of_ok (readU16_field (k := 0) hw (v := e.kind) mem_cons_self) ?_
  refine bind_of_ok (readU16_field hw (v := e.offset) (by simp [entryFields])) ?_
  exact bind_of_ok (zeroRange_gap hw hs (by decide : 4 + 4 ≤ 8) (by decide)) rfl

attribute [local simp] blockFields

theorem readRelocBlock_ok {ix re : ℕ} {b : RelocBlock}
    (hn : ix < (plan.descriptor tableRelocBlocks).count)
    (hr : re + b.entries.length ≤ (plan.descriptor tableRelocEntries).count)
    (hw : Written out (fixedRecord plan tableRelocBlocks ix (blockFields re b)))
    (he : ∀ r ∈ tableRecords plan tableRelocEntries entryFields re b.entries, Written out r) :
    (⟨out⟩ : Decoder).readRelocBlock (tablesOf plan) ix = .ok b.toPe := by
  have hs : Shaped (blockFields re b) blockShape := shaped_of_eq rfl
  have hl := h.count_lt tableRelocEntries
  refine bind_of_ok (h.fixedRecord_ok (blockFields re b) (by decide) hn rfl) ?_
  refine bind_of_ok (readU32_field (k := 0) hw (v := b.pageRva) mem_cons_self) ?_
  refine bind_of_ok (zeroRange_gap hw hs (by decide : 4 + 4 ≤ 32) (by decide)) ?_
  refine bind_of_ok (readWord_field hw (v := if b.entries.length = 0 then 0 else re)
    (by simp [putSize64]) (by split <;> omega)) ?_
  refine bind_of_ok (readWord_field hw (v := b.entries.length) (by simp [putSize64]) (by omega)) ?_
  refine bind_of_ok (zeroRange_gap hw hs (by decide : 24 + 8 ≤ 32) (by decide)) ?_
  refine bind_of_ok (indexRange_ok hr) ?_
  have hre : collect (fun it => (⟨out⟩ : Decoder).readRelocEntry (tablesOf plan) it)
      re b.entries.length = .ok (b.entries.map RelocEntry.toPe) :=
    collect_tableRecords he fun i e _ hi hw => h.readRelocEntry_ok (by omega) hw
  exact bind_of_ok (collect_range (length_map _) hre) rfl

theorem readRelocBlocks_loop {bs : List RelocBlock} :
    ∀ {i re : ℕ}, i + bs.length ≤ (plan.descriptor tableRelocBlocks).count →
      re + (bs.map fun b => b.entries.length).sum ≤ (plan.descriptor tableRelocEntries).count →
      (∀ r ∈ blockRecords plan i re bs, Written out r) →
      collect (fun i => (⟨out⟩ : Decoder).readRelocBlock (tablesOf plan) i) i
        bs.length = .ok (bs.map RelocBlock.toPe) := by
  induction bs with
  | nil => intro i re _ _ _; rfl
  | cons b bs ih =>
    intro i re hi hr hwr
    rw [length_cons] at hi
    rw [map_cons, sum_cons] at hr
    rw [blockRecords, cons_append, forall_mem_cons, forall_mem_append] at hwr
    obtain ⟨hb, he, hw⟩ := hwr
    refine bind_of_ok (h.readRelocBlock_ok (by omega) (by omega) hb he) ?_
    exact bind_of_ok (ih (by omega) (by omega) hw) rfl

theorem readRelocBlocks_ok : collect (fun i => (⟨out⟩ : Decoder).readRelocBlock (tablesOf plan) i) 0
      m.relocations.length = .ok (m.relocations.map RelocBlock.toPe) := by
  have hb : (plan.descriptor tableRelocBlocks).count = m.relocations.length :=
    h.layout.count tableRelocBlocks
  have he : (plan.descriptor tableRelocEntries).count =
      (m.relocations.map fun b => b.entries.length).sum := h.layout.count tableRelocEntries
  have hw : ∀ r ∈ blockRecords plan 0 0 m.relocations, Written out r := fun r hr => by
    refine h.written_fixed r ?_
    simp only [fixedRecords, mem_append]
    tauto
  exact h.readRelocBlocks_loop (by omega) (by omega) hw

end

/-! ### The info record -/

theorem written_info (h : Delivered m plan out) :
    Written out (fixedRecord plan tableInfo 0 (infoFields m.info)) := by
  refine h.written_fixed _ ?_
  tauto

theorem readDirectory_ok (h : Delivered m plan out) {k : ℕ} {d : Directory}
    (hr : putU32 (36 + k * 8) d.rva ∈ infoFields m.info)
    (hs : putU32 (40 + k * 8) d.size ∈ infoFields m.info) {ph : ℕ} :
    ((⟨out⟩ : Decoder).readU32 ((fixedRecord plan tableInfo 0 (infoFields m.info)).offset + 36 +
        k * 8) ph >>= fun r =>
      (⟨out⟩ : Decoder).readU32 ((fixedRecord plan tableInfo 0 (infoFields m.info)).offset + 40 +
        k * 8) ph >>= fun s => (.ok (r, s) : Except WireError (UInt32 × UInt32))) =
      .ok (d.rva, d.size) := by
  rw [add_assoc, add_assoc]
  refine bind_of_ok (readU32_field h.written_info hr) ?_
  exact bind_of_ok (readU32_field h.written_info hs) rfl

attribute [local simp] infoFields directoryFields

theorem readInfo_ok (h : Delivered m plan out) :
    (⟨out⟩ : Decoder).readInfo (fixedRecord plan tableInfo 0 (infoFields m.info)).offset =
      .ok { m.toPeInfo with
        sections := []
        imports := []
        delayImports := []
        exports := []
        tlsInfo := { m.toPeInfo.tlsInfo with callbackVas := [] }
        runtimeFunctions := []
        relocations := [] } := by
  have hw := h.written_info
  have hs := shaped_infoFields m.info
  obtain ⟨hr, h1, h2⟩ := flags_spec (m.info.isPe32Plus) (m.info.isDll)
  generalize hf : ((if m.info.isPe32Plus then 1 else 0) |||
    (if m.info.isDll then 2 else 0) : UInt32) = flags at hr h1 h2
  refine bind_of_ok (readU32_field (k := 0) hw (v := flags) (hf ▸ mem_cons_self)) ?_
  refine bind_of_ok (readU16_gap hw hs (by decide : 34 + 2 ≤ 136) (by decide)) ?_
  have hv : ¬(flags &&& ~~~3 ≠ 0 ∨ (0 : UInt16) ≠ 0) := by
    rw [hr]
    decide
  rw [if_neg hv]
  refine bind_of_ok (readU16_field hw (v := m.info.machine) (by simp)) ?_
  refine bind_of_ok (readU16_field hw (v := m.info.numberOfSections) (by simp)) ?_
  refine bind_of_ok (readU32_field hw (v := m.info.entryPoint) (by simp)) ?_
  refine bind_of_ok (readU64_field hw (v := m.info.imageBase) (by simp)) ?_
  refine bind_of_ok (readU32_field hw (v := m.info.sectionAlignment) (by simp)) ?_
  refine bind_of_ok (readU32_field hw (v := m.info.sizeOfImage) (by simp)) ?_
  refine bind_of_ok (readU32_field hw (v := m.info.sizeOfHeaders) (by simp)) ?_
  refine bind_of_ok (readU16_field hw (v := m.info.subsystem) (by simp)) ?_
  refine bind_of_ok (readU32_field hw (v := m.info.exportOrdinalBase) (by simp)) ?_
  refine bind_of_ok (readU64_field hw (v := m.info.tls.startAddressOfRawData) (by simp)) ?_
  refine bind_of_ok (readU64_field hw (v := m.info.tls.endAddressOfRawData) (by simp)) ?_
  refine bind_of_ok (readU64_field hw (v := m.info.tls.addressOfIndex) (by simp)) ?_
  refine bind_of_ok (readU64_field hw (v := m.info.tls.addressOfCallbacks) (by simp)) ?_
  refine bind_of_ok (readU32_field hw (v := m.info.tls.sizeOfZeroFill) (by simp)) ?_
  refine bind_of_ok (readU32_field hw (v := m.info.tls.characteristics) (by simp)) ?_
  refine bind_of_ok (h.readDirectory_ok (k := 0) (d := m.info.imports) (by simp) (by simp)) ?_
  refine bind_of_ok (h.readDirectory_ok (k := 1) (d := m.info.exports) (by simp) (by simp)) ?_
  refine bind_of_ok (h.readDirectory_ok (k := 2) (d := m.info.resources) (by simp) (by simp)) ?_
  refine bind_of_ok (h.readDirectory_ok (k := 3) (d := m.info.exceptions) (by simp) (by simp)) ?_
  refine bind_of_ok (h.readDirectory_ok (k := 4) (d := m.info.relocations) (by simp) (by simp)) ?_
  refine bind_of_ok (h.readDirectory_ok (k := 5) (d := m.info.delayImports) (by simp) (by simp)) ?_
  refine bind_of_ok (h.readDirectory_ok (k := 6) (d := m.info.tlsDirectory) (by simp) (by simp)) ?_
  rw [h1, h2, Bool.decide_eq_true, Bool.decide_eq_true]
  rfl

/-! ### The image -/

theorem count_tablesOf (h : Delivered m plan out) (t : ℕ) :
    Decoder.count (tablesOf plan) t = (tableCounts m (allStrings m)).getD t 0 := by
  unfold Decoder.count
  rw [getD_tablesOf]
  exact h.layout.count t

theorem readImage_ok (h : Delivered m plan out) :
    (⟨out⟩ : Decoder).readImage (tablesOf plan) = .ok m.toPeInfo := by
  have hi := h.count_tablesOf 0
  have hse : Decoder.count (tablesOf plan) 1 = m.sections.length := h.count_tablesOf 1
  have he : Decoder.count (tablesOf plan) 7 = m.exports.length := h.count_tablesOf 7
  have ha : Decoder.count (tablesOf plan) 8 = m.info.tls.callbackVas.length := h.count_tablesOf 8
  have hf : Decoder.count (tablesOf plan) 9 = m.runtimeFunctions.length := h.count_tablesOf 9
  have hu : Decoder.count (tablesOf plan) 10 = m.runtimeFunctions.length := h.count_tablesOf 10
  have hb : Decoder.count (tablesOf plan) 13 = m.relocations.length := h.count_tablesOf 13
  have hm := h.encodable
  have hit : ¬(Decoder.count (tablesOf plan) 0 ≠ 1 ∨
      ((tablesOf plan).getD 0 {}).stride ≠ 136 ∨ ((tablesOf plan).getD 0 {}).flags ≠ 0) := by
    have hc : (plan.descriptor tableInfo).count = 1 := h.layout.count tableInfo
    have hs := h.layout.stride (hc.trans_ne Nat.one_ne_zero) (by decide)
    rw [getD_tablesOf]
    rintro (h0 | h0 | h0)
    · exact h0 hi
    · exact h0 hs.1
    · exact h0 hs.2
  have ho : ((tablesOf plan).getD 0 {}).offset =
      (fixedRecord plan tableInfo 0 (infoFields m.info)).offset := by
    rw [getD_tablesOf, fixedRecord]
    rfl
  have hsc : ¬(m.sections.length > kLimitSections ∨
      m.info.numberOfSections.toNat ≠ m.sections.length) := by
    have hl := m.info.numberOfSections.toNat_lt
    have hc := hm.sectionCount
    unfold kLimitSections
    omega
  have hec : ¬m.exports.length > kLimitExportFunctions := not_lt.2 hm.exportCount
  have hcc : ¬m.info.tls.callbackVas.length > kLimitTlsCallbacks := not_lt.2 hm.callbackCount
  have hfc : ¬(m.runtimeFunctions.length ≠ m.runtimeFunctions.length ∨
      m.runtimeFunctions.length > kLimitRuntimeFunctions) :=
    not_or.2 ⟨not_not.2 rfl, not_lt.2 hm.functionCount⟩
  have hbc : ¬m.relocations.length > kLimitRelocBlocks := not_lt.2 hm.relocationCount
  unfold Decoder.readImage
  rw [if_neg hit]
  refine bind_of_ok h.readStrings_ok ?_
  rw [ho, hse, he, ha, hf, hu, hb]
  refine bind_of_ok h.readInfo_ok ?_
  refine (if_neg hsc).trans ?_
  refine bind_of_ok h.readSections_ok ?_
  refine bind_of_ok h.readImports_ok ?_
  refine (if_neg hec).trans ?_
  refine bind_of_ok h.readExports_ok ?_
  refine (if_neg hcc).trans ?_
  refine bind_of_ok h.readCallbacks_ok ?_
  refine (if_neg hfc).trans ?_
  refine bind_of_ok h.readUnwindInfos_ok ?_
  refine bind_of_ok h.readFunctions_ok ?_
  refine (if_neg hbc).trans ?_
  exact bind_of_ok h.readRelocBlocks_ok rfl

theorem decodeWire_ok (h : Delivered m plan out) : Decoder.decodeWire out = .ok m.toPeInfo := by
  refine bind_of_ok h.checkHeader_ok ?_
  refine bind_of_ok h.readTables_ok ?_
  exact (if_neg (not_not.2 h.length.symm)).trans h.readImage_ok

end Delivered

/-- **An image the parser produces survives the wire.**  The announced size is
that of the output, the last table ends there, and the decoder finds every
field of the image. -/
theorem wire_roundTrip {data output : ByteString} (hparse : Parser.parse data = .ok m)
    (hplan : makePlan m = .ok plan) (hlength : output.length = plan.total) :
    ∃ out, fillWire m plan output = .ok out ∧ out.length = plan.total ∧
      (∃ tables, (⟨out⟩ : Decoder).readTables 0 Pe.kTableCount kWireHeaderSize =
        .ok (tables, plan.total)) ∧
      Decoder.decodeWire out = .ok m.toPeInfo := by
  have hl := layout_of_makePlan hplan
  obtain ⟨out, hf, ho, hw⟩ := written_of_mem_wireRecords hl hlength
  have hd : Delivered m plan out := ⟨encodable_of_parse hparse, hl, ho, hw⟩
  exact ⟨out, hf, ho, ⟨_, hd.readTables_ok⟩, hd.decodeWire_ok⟩

theorem wire_roundTrip_forwardingDll :
    ∃ m plan out, Parser.parse forwardingDll = .ok m ∧ makePlan m = .ok plan ∧
      fillWire m plan (List.replicate plan.total 0xAA) = .ok out ∧ out.length = plan.total ∧
      Decoder.decodeWire out = .ok m.toPeInfo := by
  have hl : (Parser.parse forwardingDll >>= makePlan).isOk = true := by decide +kernel
  obtain ⟨plan, hb⟩ := exists_ok hl
  obtain ⟨m, hm, hp⟩ := bind_eq_ok.mp hb
  obtain ⟨out, hf, ho, -, hd⟩ := wire_roundTrip hm hp length_replicate
  exact ⟨m, plan, out, hm, hp, hf, ho, hd⟩

/-- **The decoder gives the image that the C++ parser finds in the file.** -/
theorem decodeWire_parsePe {data output : ByteString} {r : Pe.ParseResult}
    (hpe : Pe.parsePe data = .ok r) (hparse : Parser.parse data = .ok m)
    (hplan : makePlan m = .ok plan) (hlength : output.length = plan.total) :
    ∃ out, fillWire m plan output = .ok out ∧ Decoder.decodeWire out = .ok r.info := by
  have hl := layout_of_makePlan hplan
  obtain ⟨out, hf, ho, hw⟩ := written_of_mem_wireRecords hl hlength
  have hd : Delivered m plan out := ⟨encodable_of_parse hparse, hl, ho, hw⟩
  rw [(accepted hpe hparse).1]
  exact ⟨out, hf, hd.decodeWire_ok⟩

theorem decodeWire_parsePe_forwardingDll : ∃ m plan out r, Pe.parsePe forwardingDll = .ok r ∧
    fillWire m plan (List.replicate plan.total 0) = .ok out ∧
      Decoder.decodeWire out = .ok r.info := by
  have hl : (Parser.parse forwardingDll >>= makePlan).isOk = true := by decide +kernel
  have hr : (Pe.parsePe forwardingDll).isOk = true := by decide +kernel
  obtain ⟨plan, hb⟩ := exists_ok hl
  obtain ⟨r, hr⟩ := exists_ok hr
  obtain ⟨m, hm, hp⟩ := bind_eq_ok.1 hb
  obtain ⟨out, hf, hd⟩ := decodeWire_parsePe hr hm hp length_replicate
  exact ⟨m, plan, out, r, hr, hf, hd⟩

end TradutorLinux.Rust
