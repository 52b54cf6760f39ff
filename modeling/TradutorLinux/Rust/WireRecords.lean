import Mathlib.Tactic.IntervalCases
import TradutorLinux.Rust.WireLayout

/-!
# The records of the wire

What `fill_wire` writes for each kind of entry, as the shape of a record, and
how its loops fill the tables.  The loops over DLLs, functions and relocation
blocks write two or more tables in one pass, so each is followed by the counts
at which it leaves them.

## Main results

* `fills_tableRecords`, `fills_dllRecords`, `fills_functionRecords`, `fills_blockRecords`,
  `written_of_mem_wireRecords`
-/

namespace TradutorLinux.Rust

open List

variable {m : Model} {plan : WirePlan}

/-! ### Shapes -/

def stringRefShape (offset : ℕ) : List (ℕ × ℕ) := [(offset, 8), (offset + 8, 4)]

theorem shaped_stringRef (plan : WirePlan) (o : ℕ) (v : Option ℕ) :
    Shaped (stringRef plan o v) (stringRefShape o) := by
  unfold Shaped stringRef
  split
  · exact nil_sublist _
  · exact List.Sublist.refl _

def infoShape : List (ℕ × ℕ) :=
  [(0, 4), (4, 2), (6, 2), (8, 4), (12, 8), (20, 4), (24, 4), (28, 4), (32, 2), (36, 4), (40, 4),
    (44, 4), (48, 4), (52, 4), (56, 4), (60, 4), (64, 4), (68, 4), (72, 4), (76, 4), (80, 4),
    (84, 4), (88, 4), (92, 4), (96, 8), (104, 8), (112, 8), (120, 8), (128, 4), (132, 4)]

theorem shaped_infoFields (i : Info) : Shaped (infoFields i) infoShape := shaped_of_eq rfl

def sectionShape : List (ℕ × ℕ) :=
  stringRefShape 0 ++ [(16, 4), (20, 4), (24, 4), (28, 4), (32, 4)]

theorem shaped_sectionFields (plan : WirePlan) (s : Section) :
    Shaped (sectionFields plan s) sectionShape := by
  exact (shaped_stringRef plan 0 _).append (shaped_of_eq rfl)

def dllShape : List (ℕ × ℕ) := stringRefShape 0 ++ [(16, 8), (24, 8)]

theorem shaped_dllFields (plan : WirePlan) (s : ℕ) (d : Dll) :
    Shaped (dllFields plan s d) dllShape := by
  exact (shaped_stringRef plan 0 _).append (shaped_of_eq rfl)

def symbolShape : List (ℕ × ℕ) := [(0, 4), (4, 2)] ++ stringRefShape 8 ++ [(24, 4)]

theorem shaped_symbolFields (plan : WirePlan) (s : Symbol) :
    Shaped (symbolFields plan s) symbolShape := by
  exact ((shaped_of_eq rfl).append (shaped_stringRef plan 8 _)).append (shaped_of_eq rfl)

def exportShape : List (ℕ × ℕ) :=
  [(0, 4), (4, 2), (8, 4)] ++ stringRefShape 16 ++ stringRefShape 32

theorem shaped_exportFields (plan : WirePlan) (e : Export) :
    Shaped (exportFields plan e) exportShape := by
  exact ((shaped_of_eq rfl).append (shaped_stringRef plan 16 _)).append (shaped_stringRef plan 32 _)

def callbackFields (callback : UInt64) : List Field := [putU64 0 callback]

def functionShape : List (ℕ × ℕ) := [(0, 4), (4, 4), (8, 4), (12, 8)]

theorem shaped_functionFields (idx : ℕ) (fn : RuntimeFunction) :
    Shaped (functionFields idx fn) functionShape := shaped_of_eq rfl

def unwindShape : List (ℕ × ℕ) :=
  [(0, 1), (1, 1), (2, 1), (3, 1), (4, 1), (5, 1), (8, 8), (16, 8), (24, 8), (32, 8), (40, 4),
    (44, 4)] ++ [(48, 4), (52, 4), (56, 4)]

theorem shaped_unwindFields (ci e : ℕ) (uw : Unwind) :
    Shaped (unwindFields ci e uw) unwindShape := by
  have hc : Shaped (chainFields uw.chained) [(48, 4), (52, 4), (56, 4)] := by
    cases uw.chained with
    | none => exact nil_sublist _
    | some ch => exact shaped_of_eq rfl
  exact (shaped_of_eq rfl).append hc

def codeShape : List (ℕ × ℕ) := [(0, 1), (1, 1), (2, 1), (4, 4)]

def epilogShape : List (ℕ × ℕ) := [(0, 4), (4, 4)]

def blockShape : List (ℕ × ℕ) := [(0, 4), (8, 8), (16, 8)]

def entryShape : List (ℕ × ℕ) := [(0, 2), (2, 2)]

theorem inSlot_of_shaped {tbl idx : ℕ} {fs : List Field} (s : List (ℕ × ℕ))
    (h : Shaped fs s) (hi : ∀ e ∈ s, e.1 + e.2 ≤ strides.getD tbl 0)
    (ha : s.Pairwise ExtentsApart) : InSlot plan tbl idx (fixedRecord plan tbl idx fs) :=
  ⟨fs, rfl, Record.fits_of_shaped s h hi ha⟩

/-! ### The loops -/

section Loops

variable {c : ℕ → ℕ} {tbl idx : ℕ} {α : Type}

theorem advance_self (c : ℕ → ℕ) (tbl n : ℕ) : advance c tbl n tbl = c tbl + n := if_pos rfl

theorem advance_of_ne {t : ℕ} (c : ℕ → ℕ) (n : ℕ) (h : t ≠ tbl) :
    advance c tbl n t = c t := if_neg h

theorem advance_zero (c : ℕ → ℕ) (tbl : ℕ) : advance c tbl 0 = c := by
  funext t
  unfold advance
  split <;> rfl

theorem advance_advance (c : ℕ → ℕ) (tbl n k : ℕ) :
    advance (advance c tbl n) tbl k = advance c tbl (n + k) := by
  funext t
  unfold advance
  split <;> omega

theorem advance_comm {s t : ℕ} (c : ℕ → ℕ) (n k : ℕ) (h : s ≠ t) :
    advance (advance c s n) t k = advance (advance c t k) s n := by
  funext u
  unfold advance
  by_cases hs : u = s
  · subst hs
    simp [h]
  · simp [hs]

/-- A table with records of one shape. -/
theorem fills_tableRecords (plan : WirePlan) (tbl : ℕ) (fs : α → List Field)
    (s : List (ℕ × ℕ)) (ht : tbl ≠ tableStrings) (hs : ∀ a, Shaped (fs a) s)
    (hi : ∀ e ∈ s, e.1 + e.2 ≤ strides.getD tbl 0) (ha : s.Pairwise ExtentsApart) (as : List α) :
    ∀ c idx, c tbl = idx →
      Fills plan c (tableRecords plan tbl fs idx as) (advance c tbl as.length) := by
  induction as with
  | nil =>
    intro c idx _
    rw [length_nil, advance_zero]
    exact Fills.nil c
  | cons a as ih =>
    intro c idx hc
    subst hc
    refine Fills.cons tbl ht (inSlot_of_shaped s (hs a) hi ha) ?_
    have hr := ih (advance c tbl 1) (c tbl + 1) (advance_self c tbl 1)
    rwa [advance_advance, add_comm 1] at hr

theorem fills_symbolRecords (plan : WirePlan)
    (h : tbl = tableImportSymbols ∨ tbl = tableDelaySymbols) (ss : List Symbol) (c : ℕ → ℕ) :
    Fills plan c (tableRecords plan tbl (symbolFields plan) (c tbl) ss)
      (advance c tbl ss.length) := by
  have hs := shaped_symbolFields plan
  rcases h with rfl | rfl
  · exact fills_tableRecords plan _ _ symbolShape (by decide) hs (by decide) (by decide) ss c _ rfl
  · exact fills_tableRecords plan _ _ symbolShape (by decide) hs (by decide) (by decide) ss c _ rfl

/-- `write_dlls` fills the table of the DLLs and that of their symbols. -/
theorem fills_dllRecords {dt symbolTable : ℕ}
    (h : (dt = tableImportDlls ∧ symbolTable = tableImportSymbols) ∨
      (dt = tableDelayDlls ∧ symbolTable = tableDelaySymbols)) (dlls : List Dll) :
    ∀ c idx s, c dt = idx → c symbolTable = s →
      Fills plan c (dllRecords plan dt symbolTable idx s dlls)
        (advance (advance c dt dlls.length) symbolTable (countSymbols dlls)) := by
  have hn : dt ≠ symbolTable := by rcases h with ⟨rfl, rfl⟩ | ⟨rfl, rfl⟩ <;> decide
  have hr : dt ≠ tableStrings := by rcases h with ⟨rfl, -⟩ | ⟨rfl, -⟩ <;> decide
  have hin : ∀ e ∈ dllShape, e.1 + e.2 ≤ strides.getD dt 0 := by
    rcases h with ⟨rfl, -⟩ | ⟨rfl, -⟩ <;> decide
  have hy : symbolTable = tableImportSymbols ∨ symbolTable = tableDelaySymbols :=
    h.imp And.right And.right
  induction dlls with
  | nil =>
    intro c idx s _ _
    rw [length_nil, countSymbols, map_nil, sum_nil, advance_zero, advance_zero]
    exact Fills.nil c
  | cons d dlls ih =>
    intro c idx s hi hsi
    subst hi hsi
    refine Fills.cons dt hr
      (inSlot_of_shaped dllShape (shaped_dllFields plan _ d) hin (by decide)) ?_
    have hh := fills_symbolRecords plan hy d.symbols (advance c dt 1)
    rw [advance_of_ne c 1 hn.symm] at hh
    have ht := ih (advance (advance c dt 1) symbolTable d.symbols.length)
      (c dt + 1) (c symbolTable + d.symbols.length)
      (by rw [advance_of_ne _ _ hn, advance_self])
      (by rw [advance_self, advance_of_ne c 1 hn.symm])
    have hc : advance (advance (advance (advance c dt 1) symbolTable
          d.symbols.length) dt dlls.length) symbolTable (countSymbols dlls) =
        advance (advance c dt (d :: dlls).length) symbolTable (countSymbols (d :: dlls)) := by
      have hs : countSymbols (d :: dlls) = d.symbols.length + countSymbols dlls := rfl
      rw [advance_comm _ _ _ hn.symm, advance_advance, advance_advance, hs, length_cons,
        add_comm 1]
    rw [hc] at ht
    exact hh.append ht

/-- The loop over the relocation blocks fills two tables. -/
theorem fills_blockRecords (bs : List RelocBlock) :
    ∀ c idx re, c tableRelocBlocks = idx → c tableRelocEntries = re →
      Fills plan c (blockRecords plan idx re bs)
        (advance (advance c tableRelocBlocks bs.length) tableRelocEntries
          (bs.map fun b => b.entries.length).sum) := by
  have hn : tableRelocBlocks ≠ tableRelocEntries := by decide
  induction bs with
  | nil =>
    intro c idx re _ _
    rw [length_nil, map_nil, sum_nil, advance_zero, advance_zero]
    exact Fills.nil c
  | cons b bs ih =>
    intro c idx re hi hr
    subst hi hr
    refine Fills.cons tableRelocBlocks (by decide)
      (inSlot_of_shaped blockShape (shaped_of_eq rfl) (by decide) (by decide)) ?_
    have hh := fills_tableRecords plan tableRelocEntries entryFields entryShape (by decide)
      (fun _ => shaped_of_eq rfl)
      (by decide) (by decide) b.entries (advance c tableRelocBlocks 1) _
      (advance_of_ne c 1 hn.symm)
    have ht := ih (advance (advance c tableRelocBlocks 1) tableRelocEntries
        b.entries.length) (c tableRelocBlocks + 1)
      (c tableRelocEntries + b.entries.length)
      (by rw [advance_of_ne _ _ hn, advance_self])
      (by rw [advance_self, advance_of_ne c 1 hn.symm])
    rw [advance_comm _ _ _ hn.symm, advance_advance, advance_advance, add_comm 1] at ht
    exact hh.append ht

def advanceFunctions (c : ℕ → ℕ) (functions : List RuntimeFunction) : ℕ → ℕ :=
  advance (advance (advance (advance c tableRuntimeFunctions functions.length)
    tableUnwindInfos functions.length)
    tableUnwindCodes (functions.map fun function => function.unwind.codes.length).sum)
    tableUnwindEpilogs (functions.map fun function => function.unwind.epilogs.length).sum

/-- The loop over the runtime functions fills four tables. -/
theorem fills_functionRecords (f : List RuntimeFunction) :
    ∀ c idx ci e, c tableRuntimeFunctions = idx →
      c tableUnwindInfos = idx → c tableUnwindCodes = ci →
      c tableUnwindEpilogs = e →
      Fills plan c (functionRecords plan idx ci e f) (advanceFunctions c f) := by
  induction f with
  | nil =>
    intro c idx ci e _ _ _ _
    simp only [advanceFunctions, length_nil, map_nil, sum_nil, advance_zero]
    exact Fills.nil c
  | cons fn f ih =>
    intro c idx ci e hx hi hc he
    subst hx hc he
    rw [functionRecords, cons_append, cons_append, append_assoc]
    refine Fills.cons tableRuntimeFunctions (by decide)
      (inSlot_of_shaped functionShape (shaped_functionFields _ fn) (by decide) (by decide)) ?_
    refine Fills.cons tableUnwindInfos (by decide) ?_ ?_
    · rw [advance_of_ne c 1 (by decide), hi]
      exact inSlot_of_shaped unwindShape (shaped_unwindFields _ _ fn.unwind) (by decide) (by decide)
    · have hhc := fills_tableRecords plan tableUnwindCodes codeFields codeShape (by decide)
        (fun _ => shaped_of_eq rfl)
        (by decide) (by decide) fn.unwind.codes
        (advance (advance c tableRuntimeFunctions 1) tableUnwindInfos 1) (c tableUnwindCodes) rfl
      have hh := fills_tableRecords plan tableUnwindEpilogs epilogFields epilogShape (by decide)
        (fun _ => shaped_of_eq rfl)
        (by decide) (by decide) fn.unwind.epilogs
        (advance (advance (advance c tableRuntimeFunctions 1) tableUnwindInfos 1)
          tableUnwindCodes fn.unwind.codes.length) (c tableUnwindEpilogs) rfl
      refine hhc.append (hh.append ?_)
      have ht := ih (advance (advance (advance (advance c tableRuntimeFunctions 1)
        tableUnwindInfos 1) tableUnwindCodes fn.unwind.codes.length) tableUnwindEpilogs
          fn.unwind.epilogs.length) (c tableRuntimeFunctions + 1)
        (c tableUnwindCodes + fn.unwind.codes.length)
        (c tableUnwindEpilogs + fn.unwind.epilogs.length)
        rfl (by rw [← hi]; rfl) rfl rfl
      have ho : advanceFunctions (advance (advance (advance (advance c
            tableRuntimeFunctions 1) tableUnwindInfos 1) tableUnwindCodes
            fn.unwind.codes.length) tableUnwindEpilogs fn.unwind.epilogs.length)
            f =
          advanceFunctions c (fn :: f) := by
        funext t
        simp only [advanceFunctions, advance, length_cons, map_cons, sum_cons]
        split_ifs <;> omega
      rwa [ho] at ht

end Loops

/-! ### The output -/

def fixedRecords (m : Model) (plan : WirePlan) : List Record :=
  [fixedRecord plan tableInfo 0 (infoFields m.info)] ++
  tableRecords plan tableSections (sectionFields plan) 0 m.sections ++
  dllRecords plan tableImportDlls tableImportSymbols 0 0 m.imports ++
  dllRecords plan tableDelayDlls tableDelaySymbols 0 0 m.delayImports ++
  tableRecords plan tableExports (exportFields plan) 0 m.exports ++
  tableRecords plan tableTlsCallbacks callbackFields 0 m.info.tls.callbackVas ++
  functionRecords plan 0 0 0 m.runtimeFunctions ++
  blockRecords plan 0 0 m.relocations

theorem wireRecords_eq (m : Model) (plan : WirePlan) :
    wireRecords m plan = (headerRecord plan :: descriptorRecords 0 plan.descriptors) ++
      (plan.strings.map stringRecord ++ fixedRecords m plan) := by
  simp only [wireRecords, fixedRecords, append_assoc, cons_append]
  rfl

/-- The tables behind the sections and the DLLs. -/
def countsOfDlls (m : Model) : ℕ → ℕ :=
  advance (advance (advance (advance (advance (advance (fun _ => 0) tableInfo 1)
    tableSections m.sections.length)
    tableImportDlls m.imports.length) tableImportSymbols (countSymbols m.imports))
    tableDelayDlls m.delayImports.length) tableDelaySymbols (countSymbols m.delayImports)

/-- The tables behind all records. -/
def countsOfModel (m : Model) : ℕ → ℕ :=
  advance (advance (advanceFunctions (advance (advance (countsOfDlls m)
    tableExports m.exports.length) tableTlsCallbacks m.info.tls.callbackVas.length)
    m.runtimeFunctions) tableRelocBlocks m.relocations.length)
    tableRelocEntries (m.relocations.map fun block => block.entries.length).sum

theorem fills_fixedRecords (m : Model) (plan : WirePlan) :
    Fills plan (fun _ => 0) (fixedRecords m plan) (countsOfModel m) := by
  have hi : Fills plan (fun _ => 0) [fixedRecord plan tableInfo 0 (infoFields m.info)]
      (advance (fun _ => 0) tableInfo 1) :=
    Fills.cons tableInfo (by decide)
      (inSlot_of_shaped infoShape (shaped_infoFields m.info) (by decide) (by decide)) (Fills.nil _)
  have hs := fills_tableRecords plan tableSections (sectionFields plan) sectionShape
    (by decide) (shaped_sectionFields plan) (by decide) (by decide) m.sections
    (advance (fun _ => 0) tableInfo 1) 0 rfl
  have himp := hi.append hs |>.append (fills_dllRecords (.inl ⟨rfl, rfl⟩) m.imports _ 0 0 rfl rfl)
  have hd : Fills plan (fun _ => 0) _ (countsOfDlls m) := himp.append
    (fills_dllRecords (.inr ⟨rfl, rfl⟩) m.delayImports _ 0 0 rfl rfl)
  have he := hd.append (fills_tableRecords plan tableExports (exportFields plan)
    exportShape (by decide) (shaped_exportFields plan) (by decide) (by decide) m.exports _ 0 rfl)
  have hc := he.append (fills_tableRecords plan tableTlsCallbacks
    callbackFields [(0, 8)] (by decide) (fun _ => shaped_of_eq rfl)
    (by decide) (by decide) m.info.tls.callbackVas _ 0 rfl)
  have hf := hc.append (fills_functionRecords m.runtimeFunctions _ 0 0 0 rfl rfl rfl rfl)
  exact hf.append (fills_blockRecords m.relocations _ 0 0 rfl rfl)

theorem countsOfModel_le (m : Model) (p : List ByteString) (t : ℕ) :
    countsOfModel m t ≤ (tableCounts m p).getD t 0 := by
  by_cases ht : t < 16
  · interval_cases t
    all_goals first
      | exact (zero_add _).le
      | exact Nat.zero_le _
  · have ho : ∀ k < 16, (t = k) = False := fun k hk => eq_false (by omega)
    simp (disch := omega) only [countsOfModel, countsOfDlls, advanceFunctions, advance, tableInfo,
      tableSections, tableImportDlls, tableImportSymbols, tableDelayDlls, tableDelaySymbols,
      tableExports, tableTlsCallbacks, tableRuntimeFunctions, tableUnwindInfos, tableUnwindCodes,
      tableUnwindEpilogs, tableRelocBlocks, tableRelocEntries, ho, if_false]
    exact Nat.zero_le _

/-! ### The header and the pool -/

def headerShape : List (ℕ × ℕ) := [(0, 4), (4, 2), (6, 2), (8, 4), (12, 8), (20, 4)]

theorem fits_headerRecord (plan : WirePlan) : (headerRecord plan).Fits :=
  have hi : ∀ e ∈ headerShape, e.1 + e.2 ≤ wireDescriptorOffset := by decide
  Record.fits_of_shaped headerShape (shaped_of_eq rfl) hi (by decide)

def descriptorShape : List (ℕ × ℕ) := [(0, 8), (8, 8), (16, 4), (20, 4)]

theorem fits_descriptorRecord (idx : ℕ) (d : WireDescriptor) : (descriptorRecord idx d).Fits := by
  have hs : Shaped (descriptorRecord idx d).fields descriptorShape := by
    dsimp only [descriptorRecord]
    split
    · exact shaped_of_eq rfl
    · exact nil_sublist _
  have hi : ∀ e ∈ descriptorShape, e.1 + e.2 ≤ wireDescriptorSize := by decide
  exact Record.fits_of_shaped descriptorShape hs hi (by decide)

variable {r : Record}

theorem mem_descriptorRecords {ds : List WireDescriptor} :
    ∀ {idx : ℕ}, r ∈ descriptorRecords idx ds → ∃ k descriptor, idx ≤ k ∧ k < idx + ds.length ∧
        r = descriptorRecord k descriptor := by
  induction ds with
  | nil =>
    intro idx h
    cases h
  | cons descriptor ds ih =>
    intro idx h
    rw [length_cons]
    rcases mem_cons.1 h with rfl | hm
    · exact ⟨idx, descriptor, le_refl _, by omega, rfl⟩
    · obtain ⟨k, o, hl, hh, rfl⟩ := ih hm
      exact ⟨k, o, by omega, by omega, rfl⟩

theorem descriptorRecords_apart (descs : List WireDescriptor) :
    ∀ idx, (descriptorRecords idx descs).Pairwise Record.Apart := by
  induction descs with
  | nil => intro idx; exact List.Pairwise.nil
  | cons d descs ih =>
    intro idx
    refine pairwise_cons.2 ⟨fun r hr => ?_, ih _⟩
    obtain ⟨k, o, hl, -, rfl⟩ := mem_descriptorRecords hr
    refine .inl ?_
    dsimp only [descriptorRecord, wireDescriptorSize]
    omega

theorem headRecords_spec (hly : Layout m plan)
    (hr : r ∈ headerRecord plan :: descriptorRecords 0 plan.descriptors) :
    r.Fits ∧ r.offset + r.size ≤ wireHeaderSize := by
  rcases mem_cons.1 hr with rfl | hm
  · have hs : 0 + wireDescriptorOffset ≤ wireHeaderSize := by decide
    exact ⟨fits_headerRecord plan, hs⟩
  obtain ⟨k, descriptor, -, hk, rfl⟩ := mem_descriptorRecords hm
  refine ⟨fits_descriptorRecord k descriptor, ?_⟩
  have hl := hly.laid.length
  have hi : (tableCounts m (allStrings m)).length = 16 := rfl
  dsimp only [descriptorRecord, wireDescriptorOffset, wireDescriptorSize, wireHeaderSize]
  omega

theorem headRecords_apart (plan : WirePlan) :
    (headerRecord plan :: descriptorRecords 0 plan.descriptors).Pairwise Record.Apart := by
  refine pairwise_cons.2 ⟨fun r hr => ?_, descriptorRecords_apart _ 0⟩
  obtain ⟨k, descriptor, -, -, rfl⟩ := mem_descriptorRecords hr
  refine .inl ?_
  dsimp only [headerRecord, descriptorRecord]
  omega

theorem fits_stringRecord (e : StringEntry) : (stringRecord e).Fits where
  inside := by
    intro f hf
    have hs := stringRecordSize_ge e.bytes
    simp only [stringRecord, mem_cons, not_mem_nil, or_false] at hf
    rcases hf with rfl | rfl
    · have hl : (putSize32 0 e.bytes.length).2.length = 4 := rfl
      dsimp only [stringRecord]
      rw [hl]
      dsimp only [putSize32]
      omega
    · exact hs
  apart := pairwise_pair.2 (Or.inl (Nat.le_add_left 4 4))

theorem stringRecords_spec (hly : Layout m plan) (hr : r ∈ plan.strings.map stringRecord) :
    r.Fits ∧ (plan.descriptor tableStrings).count ≠ 0 ∧
      (plan.descriptor tableStrings).offset ≤ r.offset ∧ r.offset + r.size ≤
        tableEnd (allStrings m) tableStrings (plan.descriptor tableStrings) := by
  obtain ⟨e, he, rfl⟩ := mem_map.1 hr
  have hc := hly.length_strings
  have hp := length_pos_of_mem he
  rw [hly.strings] at he
  have hi := stringEntries_inside he
  exact ⟨fits_stringRecord e, by omega, hi.1, hi.2.2⟩

/-! ### The output -/

section

variable (hly : Layout m plan)
include hly

theorem fixedRecords_spec (hr : r ∈ fixedRecords m plan) :
    ∃ t i, t ≠ tableStrings ∧ i < (plan.descriptor t).count ∧ InSlot plan t i r := by
  obtain ⟨t, i, ht, -, hi, hs⟩ := (fills_fixedRecords m plan).slot hr
  have ho := countsOfModel_le m (allStrings m) t
  rw [← hly.count] at ho
  exact ⟨t, i, ht, hi.trans_le ho, hs⟩

theorem fixedRecords_apart : (fixedRecords m plan).Pairwise Record.Apart := by
  refine (fills_fixedRecords m plan).pairwise_apart hly fun t => ?_
  rw [hly.count]
  exact countsOfModel_le m (allStrings m) t

theorem tableRecords_inside (hr : r ∈ plan.strings.map stringRecord ++ fixedRecords m plan) :
    r.Fits ∧ wireHeaderSize ≤ r.offset ∧ r.offset + r.size ≤ plan.total := by
  rcases mem_append.1 hr with hst | hfi
  · obtain ⟨hf, he, hl, hh⟩ := stringRecords_spec hly hst
    have hn := hly.inside he
    exact ⟨hf, hn.1.trans hl, hh.trans hn.2⟩
  · obtain ⟨t, i, ht, hi, hs⟩ := fixedRecords_spec hly hfi
    have hn := hly.inside (Nat.ne_zero_of_lt hi)
    have hr := hs.inside (m := m) ht hi
    obtain ⟨fs, rfl, hf⟩ := hs
    exact ⟨hf, hn.1.trans hr.1, hr.2.trans hn.2⟩

theorem wireRecords_apart : (wireRecords m plan).Pairwise Record.Apart := by
  have hst : (plan.strings.map stringRecord).Pairwise Record.Apart := by
    rw [hly.strings]
    exact stringEntries_apart _ _
  rw [wireRecords_eq]
  refine pairwise_append.2 ⟨headRecords_apart plan, ?_, fun r hr s hs => ?_⟩
  · refine pairwise_append.2 ⟨hst, fixedRecords_apart hly, fun r hr s hs => ?_⟩
    obtain ⟨-, he, ho, hh⟩ := stringRecords_spec hly hr
    obtain ⟨t, i, ht, hi, hl⟩ := fixedRecords_spec hly hs
    have hn := hl.inside (m := m) ht hi
    rcases hly.tables_apart ht (Nat.ne_zero_of_lt hi) he with h | h
    · exact .inr ((hn.2.trans h).trans ho)
    · exact .inl ((hh.trans h).trans hn.1)
  · exact .inl ((headRecords_spec hly hr).2.trans (tableRecords_inside hly hs).2.1)

/-- **Every record is in the output as it was written.** -/
theorem written_of_mem_wireRecords {o : ByteString} (hl : o.length = plan.total) :
    ∃ ou, fillWire m plan o = .ok ou ∧ ou.length = plan.total ∧
      ∀ r ∈ wireRecords m plan, Written ou r := by
  have hs : ∀ r ∈ wireRecords m plan, r.Fits ∧ r.offset + r.size ≤ plan.total := by
    intro r hr
    rw [wireRecords_eq] at hr
    rcases mem_append.1 hr with hh | ht
    · have hr := headRecords_spec hly hh
      exact ⟨hr.1, hr.2.trans hly.total_ge⟩
    · have hr := tableRecords_inside hly ht
      exact ⟨hr.1, hr.2.2⟩
  have hfi : fillWire m plan o =
      .ok (putRecords (wireRecords m plan) (List.replicate plan.total 0)) := by
    unfold fillWire
    rw [if_neg (by omega), ← hl, drop_length, append_nil]
  have hz : (List.replicate plan.total (0 : UInt8)).length = plan.total := length_replicate
  have hf := fun r hr => (hs r hr).1
  have hi : ∀ r ∈ wireRecords m plan,
      r.offset + r.size ≤ (List.replicate plan.total (0 : UInt8)).length := by
    intro r hr
    rw [hz]
    exact (hs r hr).2
  refine ⟨_, hfi, (length_putRecords _ hf hi).trans hz,
    written_putRecords (wireRecords_apart hly) _ hf hi fun r hr => ?_⟩
  have hr := (hs r hr).2
  simp only [slice, drop_replicate, take_replicate]
  congr 1
  omega

end

end TradutorLinux.Rust
