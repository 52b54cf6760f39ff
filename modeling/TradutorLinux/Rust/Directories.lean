import TradutorLinux.Rust.PeInfo

/-!
# The directories, read by both parsers

Loop by loop, the two parsers agree on the exports, the imports, the delay
imports and the base relocations.  Each directory has two lemmas: where it lies
in the file the parsers agree; where it is declared in a section without
physical data (`Phantom`) the C++ parser goes on with a warning and the Rust
parser rejects the file.

## Main definitions

* `Phantom p range` — the directory is only in virtual memory.

## Main results

* `parseExports_agree`, `parseImports_agree`, `parseDelayImports_agree`,
  `parseRelocations_agree`.
-/

namespace TradutorLinux.Rust

open Pe (PeInfo PeParser ParseStatus Failure RvaRange)

/-- The range has no place in the file, and lies in a section whose raw data
does not reach it. -/
def Phantom (p : PeParser) (range : RvaRange) : Prop :=
  p.rvaToFileOffset range = none ∧ p.isRvaInUninitializedSection range = true

namespace Tracks

variable {p : PeParser} {q : Parser}

/-! ### Exports -/

theorem readFunctionRvas_agree (h : Tracks p q) (t : ℕ) (r : ℕ) :
    ∀ i, t + (i + r) * 4 ≤ q.data.length →
      Agree SameError Eq (Pe.PeParser.readFunctionRvas p.data t i r)
        (q.readFunctionRvas t i r) := by
  induction r with
  | zero => intro i _; exact rfl
  | succ r ih =>
    intro i hl
    obtain ⟨v, hv⟩ : ∃ v, Pe.readU32 q.data (t + i * 4) = some v := readU32_isSome (by omega)
    unfold Pe.PeParser.readFunctionRvas Parser.readFunctionRvas
    rw [h.data, hv, Parser.getU32_eq (by omega), hv, Option.getD_some, ok_bind]
    refine Agree.bind (h.data ▸ ih (i + 1) (by omega)) ?_
    rintro a b rfl
    exact rfl

theorem readExportNames_agree (h : Tracks p q) (nt ot : ℕ) (r : ℕ) :
    ∀ i ns, nt + (i + r) * 4 ≤ q.data.length → ot + (i + r) * 2 ≤ q.data.length →
      Agree SameError Eq (p.readExportNames nt ot i r ns) (q.readExportNames nt ot i r ns) := by
  induction r with
  | zero => intro i ns _ _; exact rfl
  | succ r ih =>
    intro i ns hn ho
    obtain ⟨v, hv⟩ : ∃ v, Pe.readU32 q.data (nt + i * 4) = some v := readU32_isSome (by omega)
    obtain ⟨w, hw⟩ : ∃ w, Pe.readU16 q.data (ot + i * 2) = some w := readU16_isSome (by omega)
    unfold PeParser.readExportNames Parser.readExportNames
    rw [h.data, hv, hw, Parser.getU32_eq (by omega), Parser.getU16_eq (by omega), hv, hw]
    refine Agree.ite Iff.rfl (fun _ => agree_malformed) fun _ => ?_
    refine h.agree_rva rfl fun n _ => agree_cstring fun nm => ?_
    refine Agree.ite Iff.rfl (fun _ => agree_malformed) fun _ => ?_
    exact ih _ _ (by omega) (by omega)

theorem readExports_agree (h : Tracks p q) (d : ℕ) (o : UInt32)
    (rs : List UInt32) (n : List (Option ByteString)) :
    ∀ i, Agree SameError (fun c r => c = r.map Export.toPe) (p.readExports o i rs n)
      (q.readExports d o i rs n) := by
  induction rs with
  | nil => intro i; exact rfl
  | cons rv rs ih =>
    intro i
    refine Agree.ite Iff.rfl (fun _ => ih (i + 1)) fun _ => ?_
    refine Agree.ite (by rw [h.sizeOfImage]) (fun _ => agree_malformed) fun _ => ?_
    have hc : ∀ f, Agree SameError (fun c r => c = r.map Export.toPe)
        (p.readExports o (i + 1) rs n >>= fun re =>
          .ok (⟨(n[i]?.getD none).isSome, (n[i]?.getD none).getD [],
            UInt16.ofNat (o.toNat + i), rv, f⟩ :: re))
        (q.readExports d o (i + 1) rs n >>= fun re =>
          .ok (⟨(n[i]?.getD none).isSome, (n[i]?.getD none).getD [],
            UInt16.ofNat (o.toNat + i), rv, f⟩ :: re)) := by
      intro f
      refine Agree.bind (ih (i + 1)) ?_
      rintro c r rfl
      exact rfl
    have hr : (p.parserState.exportDirectoryRva ≤ rv ∧
        rv.toNat < p.parserState.exportDirectoryRva.toNat +
          p.parserState.exportDirectorySize.toNat) ↔
        (rv.toNat ≥ q.model.info.exports.rva.toNat ∧
          rv.toNat < q.model.info.exports.rva.toNat + q.model.info.exports.size.toNat) := by
      rw [h.image, UInt32.le_iff_toNat_le]
      exact Iff.rfl
    dsimp only
    by_cases hi : rv.toNat ≥ q.model.info.exports.rva.toNat ∧
        rv.toNat < q.model.info.exports.rva.toNat + q.model.info.exports.size.toNat
    · rw [if_pos (hr.2 hi), if_pos hi, Parser.readForwarder, bind_assoc, h.data]
      refine h.agree_rva rfl fun off _ => ?_
      rw [bind_assoc]
      refine agree_cstring fun f => ?_
      by_cases he : f = []
      · rw [if_pos he, if_pos he]
        exact agree_malformed
      · rw [if_neg he, if_neg he]
        exact hc f
    · rw [if_neg (fun hp => hi (hr.1 hp)), if_neg hi]
      exact hc []

theorem ordinals_iff (o c : UInt32) : (o > 0xFFFF ∨ c > 0xFFFF - o + 1) ↔
      (o > 0xFFFF ∨ c.toNat > 0xFFFF + 1 - o.toNat) := by
  have hm : (0xFFFF : UInt32).toNat = 65535 := rfl
  simp only [gt_iff_lt, UInt32.lt_iff_toNat_lt, hm]
  by_cases hb : 65535 < o.toNat
  · simp [hb, true_or]
  have hs : (0xFFFF - o + 1 : UInt32).toNat = 65535 - o.toNat + 1 := by
    rw [UInt32.toNat_add, UInt32.toNat_sub_of_le _ _ (UInt32.le_iff_toNat_le.2 (by omega)), hm]
    exact Nat.mod_eq_of_lt (by change _ + 1 < 2 ^ 32; omega)
  omega

theorem toNat_mul_of_le {n k : UInt32} {l : ℕ} (hc : n.toNat ≤ l)
    (hl : l * k.toNat < 2 ^ 32) : (n * k).toNat = n.toNat * k.toNat := by
  exact Nat.mod_eq_of_lt (lt_of_le_of_lt (Nat.mul_le_mul_right _ hc) hl)

theorem readExportTables_agree (h : Tracks p q) (d : ℕ) (nr ob cn nc fr na nor : UInt32)
    (h1 : (Pe.readU32 p.data (d + 12)).getD 0 = nr) (h6 : (Pe.readU32 p.data (d + 16)).getD 0 = ob)
    (h0 : (Pe.readU32 p.data (d + 20)).getD 0 = cn) (h2 : (Pe.readU32 p.data (d + 24)).getD 0 = nc)
    (h8 : (Pe.readU32 p.data (d + 28)).getD 0 = fr) (h3 : (Pe.readU32 p.data (d + 32)).getD 0 = na)
    (h36 : (Pe.readU32 p.data (d + 36)).getD 0 = nor) :
    Agree SameError (fun c r => c = (ob, r.map Export.toPe)) (p.readExportTables d)
      ((if nr ≠ 0 then q.rvaToFileOffset nr 1 phaseExports errorExportTable
        else .ok 0) >>= fun _ =>
        q.readExportTables d ob cn nc fr na nor) := by
  unfold PeParser.readExportTables
  simp only [h1, h6, h0, h2, h8, h3, h36]
  by_cases hn : nr ≠ 0 ∧ p.rvaToFileOffset ⟨nr, 1⟩ = none
  · rw [if_pos hn, if_pos hn.1, h.rva_error hn.2 (by rfl)]
    exact agree_malformed
  have hs : ∃ offset, (if nr ≠ 0 then
      q.rvaToFileOffset nr 1 phaseExports errorExportTable else .ok 0) = .ok offset := by
    by_cases hz : nr = 0
    · exact ⟨0, if_neg (by simpa using hz)⟩
    · obtain ⟨offset, ho⟩ : ∃ offset, p.rvaToFileOffset ⟨nr, 1⟩ = some offset :=
        Option.ne_none_iff_exists'.1 fun hno => hn ⟨hz, hno⟩
      exact ⟨offset, by rw [if_pos hz, h.rva_ok ho (by rfl)]⟩
  obtain ⟨offset, hs⟩ := hs
  rw [if_neg hn, hs, ok_bind]
  refine Agree.ite (by rw [gt_iff_lt, gt_iff_lt, gt_iff_lt, UInt32.lt_iff_toNat_lt]; rfl)
    (fun _ => agree_malformed) fun hl => ?_
  have hu : cn.toNat ≤ 65536 := by
    simp only [Pe.kMaxExportFunctions, not_or, not_lt, gt_iff_lt] at hl; exact hl.1
  have ha : nc.toNat ≤ 65536 := by
    simp only [Pe.kMaxExportNames, not_or, not_lt, gt_iff_lt] at hl; exact hl.2.1
  have hp : ∀ n : UInt32, n > 0 ↔ n.toNat > 0 := fun n => UInt32.lt_iff_toNat_lt
  refine Agree.ite (by rw [hp]) (fun _ => agree_malformed) fun _ => ?_
  refine Agree.ite (by rw [hp]) (fun _ => agree_malformed) fun _ => ?_
  refine Agree.ite (ordinals_iff _ _) (fun _ => agree_malformed) fun _ => ?_
  have hf : (cn * 4).toNat = cn.toNat * 4 := toNat_mul_of_le hu (by decide)
  have hnf : (nc * 4).toNat = nc.toNat * 4 := toNat_mul_of_le ha (by decide)
  have ht : (nc * 2).toNat = nc.toNat * 2 := toNat_mul_of_le ha (by decide)
  refine Agree.bind (Agree.ite (hp _) (fun _ => ?_) fun _ => rfl) ?_
  · refine h.agree_rva hf.symm fun t ho => ?_
    have he := PeParser.rvaToFileOffset_le ho
    rw [hf, h.data] at he
    exact h.readFunctionRvas_agree t _ 0 (by omega)
  rintro rvas _ rfl
  refine Agree.bind (Agree.ite (hp _) (fun _ => ?_) fun _ => rfl) ?_
  · cases ho : p.rvaToFileOffset ⟨na, nc * 4⟩ with
    | none =>
      rw [h.rva_error ho hnf.symm]
      exact agree_malformed
    | some nt =>
      rw [h.rva_ok ho hnf.symm, ok_bind]
      cases ho' : p.rvaToFileOffset ⟨nor, nc * 2⟩ with
      | none =>
        rw [h.rva_error ho' ht.symm]
        exact agree_malformed
      | some ot =>
        rw [h.rva_ok ho' ht.symm, ok_bind]
        have he := PeParser.rvaToFileOffset_le ho
        have hl' := PeParser.rvaToFileOffset_le ho'
        rw [hnf, h.data] at he
        rw [ht, h.data] at hl'
        exact h.readExportNames_agree nt ot _ 0 _ (by omega) (by omega)
  rintro names _ rfl
  refine Agree.bind_ok_left (h.readExports_agree d ob rvas names 0) ?_
  rintro c r rfl
  exact rfl

/-- The export directory is one that only the C++ parser takes as absent. -/
def PhantomExports (p : PeParser) : Prop :=
  Pe.kExportDirectorySize ≤ p.parserState.exportDirectorySize.toNat ∧
    Phantom p ⟨p.parserState.exportDirectoryRva, p.parserState.exportDirectorySize⟩

/-- **The parsers agree on the exports, unless the directory is a phantom.** -/
theorem parseExports_agree (h : Tracks p q) (hp : ¬PhantomExports p) :
    Agree SameError Tracks p.parseExports q.parseExports := by
  unfold PeParser.parseExports Parser.parseExports
  have hr : p.parserState.exportDirectoryRva = q.model.info.exports.rva := by rw [h.image]; rfl
  have hs : p.parserState.exportDirectorySize = q.model.info.exports.size := by rw [h.image]; rfl
  rw [PhantomExports, hr, hs] at hp
  rw [hr, hs]
  refine Agree.ite Iff.rfl (fun _ => h) fun _ => ?_
  refine Agree.ite Iff.rfl (fun _ => agree_malformed) fun hb => ?_
  cases ho : p.rvaToFileOffset ⟨q.model.info.exports.rva, q.model.info.exports.size⟩ with
  | none =>
    rw [h.rva_error ho rfl]
    rw [if_neg fun hu => hp ⟨not_lt.1 hb, ho, hu⟩]
    exact agree_malformed
  | some d =>
    have hl : d + q.model.info.exports.size.toNat ≤ q.data.length :=
      h.data ▸ PeParser.rvaToFileOffset_le ho
    have hf : d + 40 ≤ q.data.length := by
      simp only [Pe.kExportDirectorySize] at hb
      omega
    rw [h.rva_ok ho rfl, ok_bind]
    simp only [Parser.getU32_eq (show d + 12 + 4 ≤ q.data.length by omega),
      Parser.getU32_eq (show d + 16 + 4 ≤ q.data.length by omega),
      Parser.getU32_eq (show d + 20 + 4 ≤ q.data.length by omega),
      Parser.getU32_eq (show d + 24 + 4 ≤ q.data.length by omega),
      Parser.getU32_eq (show d + 28 + 4 ≤ q.data.length by omega),
      Parser.getU32_eq (show d + 32 + 4 ≤ q.data.length by omega),
      Parser.getU32_eq (show d + 36 + 4 ≤ q.data.length by omega), ok_bind]
    rw [← bind_assoc]
    refine Agree.bind (h.readExportTables_agree d _ _ _ _ _ _ _
      (by rw [h.data]) (by rw [h.data]) (by rw [h.data]) (by rw [h.data]) (by rw [h.data])
      (by rw [h.data]) (by rw [h.data])) ?_
    rintro c r rfl
    exact ⟨h.data, by rw [h.image]; rfl⟩

/-- A phantom export directory: the C++ parser goes on, the Rust parser does
not. -/
theorem parseExports_phantom (h : Tracks p q) (hp : PhantomExports p) :
    p.parseExports = .ok (p.recordUninitializedDirectory (text "exports")) ∧
      ∃ e, q.parseExports = .error e ∧ e.status = statusMalformed := by
  obtain ⟨hb, ho, hu⟩ := hp
  have hn : ¬(p.parserState.exportDirectoryRva = 0 ∧ p.parserState.exportDirectorySize = 0) := by
    rintro ⟨-, hz⟩
    rw [hz] at hb
    exact absurd hb (by decide)
  have hr : p.parserState.exportDirectoryRva = q.model.info.exports.rva := by rw [h.image]; rfl
  have hs : p.parserState.exportDirectorySize = q.model.info.exports.size := by rw [h.image]; rfl
  constructor
  · dsimp only [PeParser.parseExports]
    rw [if_neg hn, if_neg (not_lt.2 hb), ho]
    rw [if_pos hu]
  · rw [hr, hs] at hn ho
    rw [hs] at hb
    have hm : ¬q.model.info.exports.size.toNat < exportDirectorySize := not_lt.2 hb
    dsimp only [Parser.parseExports]
    rw [if_neg hn, if_neg hm, h.rva_error ho rfl]
    exact ⟨_, rfl, rfl⟩

/-! ### Imports -/

theorem readSymbol_agree (h : Tracks p q) (l : PeParser.ThunkLoop) (ph co : ℕ)
    (dn : ByteString) (ir : UInt32) (s t : ℕ) (tv : UInt64) :
    Agree SameError (fun c r => c = r.toPe) (p.readSymbol l dn ir s tv)
      (q.readSymbol l.checksIatSlot ph co ir s t tv) := by
  unfold PeParser.readSymbol Parser.readSymbol
  rw [h.sizeOfImage]
  obtain ⟨slot, hl⟩ : ∃ slot, ir.toNat + s * 8 = slot := ⟨_, rfl⟩
  simp only [Pe.kThunkEntrySize, thunkSize, hl]
  by_cases ho : slot > q.model.info.sizeOfImage.toNat ∨ slot + 8 > q.model.info.sizeOfImage.toNat
  · rw [if_pos (by tauto), if_pos ho]
    exact agree_malformed
  rw [if_neg ho]
  by_cases hm : l.checksIatSlot ∧ p.rvaToFileOffset ⟨UInt32.ofNat slot, 8⟩ = none
  · rw [if_pos (by tauto), if_pos hm.1, h.rva_error hm.2 (by rfl)]
    exact agree_malformed
  rw [if_neg (by tauto)]
  have hs : ∃ offset, (if l.checksIatSlot then
      q.rvaToFileOffset (UInt32.ofNat slot) 8 ph co else .ok 0) = .ok offset := by
    by_cases hc : l.checksIatSlot
    · obtain ⟨offset, hf⟩ : ∃ offset, p.rvaToFileOffset ⟨UInt32.ofNat slot, 8⟩ = some offset :=
        Option.ne_none_iff_exists'.1 fun hn => hm ⟨hc, hn⟩
      exact ⟨offset, by rw [if_pos hc, h.rva_ok hf (by rfl)]⟩
    · exact ⟨0, if_neg hc⟩
  obtain ⟨offset, hs⟩ := hs
  rw [hs, ok_bind]
  refine Agree.ite Iff.rfl (fun _ => rfl) fun _ => ?_
  refine Agree.ite Iff.rfl (fun _ => agree_malformed) fun _ => ?_
  rw [h.data]
  exact h.agree_rva rfl fun bn _ => agree_cstring fun nm => rfl

theorem readThunks_agree (h : Tracks p q) (l : PeParser.ThunkLoop) (ph co : ℕ)
    (dn : ByteString) (ir : UInt32) (tt : ℕ) (re : ℕ) :
    ∀ s, Agree SameError (fun c r => c = r.map Symbol.toPe) (p.readThunks l dn ir tt s re)
      (q.readThunks l.checksIatSlot ph co ir tt s re) := by
  induction re with
  | zero => intro s; exact agree_malformed
  | succ re ih =>
    intro s
    unfold PeParser.readThunks Parser.readThunks
    rw [h.data, show Pe.kThunkEntrySize = thunkSize from rfl]
    by_cases hi : tt + s * thunkSize + thunkSize ≤ q.data.length
    · obtain ⟨v, hv⟩ : ∃ v, Pe.readU64 q.data (tt + s * thunkSize) = some v := readU64_isSome hi
      rw [if_neg (mt not_inRange_iff.1 (not_lt.2 hi)), Parser.getU64_eq hi, hv,
        Option.getD_some, ok_bind]
      refine Agree.ite Iff.rfl (fun _ => rfl) fun _ => ?_
      refine Agree.bind (h.readSymbol_agree l ph co dn ir s _ v) ?_
      rintro _ symbol rfl
      refine Agree.bind (ih (s + 1)) ?_
      rintro _ symbols rfl
      exact rfl
    · rw [readU64_eq_none (not_le.1 hi), if_pos (not_inRange_iff.2 (not_le.1 hi))]
      exact agree_malformed

theorem readImportDescriptor_agree (h : Tracks p q) (ph co d i : ℕ)
    (hl : d + i * 20 + 20 ≤ q.data.length) :
    Agree SameError (fun c r => c = r.map Dll.toPe) (p.readImportDescriptor d i)
      (q.readDescriptor false ph co importDescriptorSize d i) := by
  unfold PeParser.readImportDescriptor Parser.readDescriptor Parser.readDescriptorFields
    Parser.allZero
  simp only [Pe.kImportDescriptorSize, importDescriptorSize, h.data, Bool.false_eq_true, if_false,
    false_and, or_false]
  generalize d + i * 20 = offset at *
  simp only [Parser.getU32_eq (show offset + 4 ≤ q.data.length by omega),
    Parser.getU32_eq (show offset + 12 + 4 ≤ q.data.length by omega),
    Parser.getU32_eq (show offset + 16 + 4 ≤ q.data.length by omega), ok_bind]
  generalize (Pe.readU32 q.data offset).getD 0 = original
  generalize (Pe.readU32 q.data (offset + 12)).getD 0 = nameRva
  generalize (Pe.readU32 q.data (offset + 16)).getD 0 = firstThunk
  refine Agree.ite (by simp [and_assoc]) (fun _ => rfl) fun _ => ?_
  refine Agree.ite Iff.rfl (fun _ => agree_malformed) fun _ => ?_
  refine h.agree_rva rfl fun n _ => agree_cstring fun dn => ?_
  refine Agree.ite Iff.rfl (fun _ => agree_malformed) fun _ => ?_
  refine h.agree_rva rfl fun tt _ => ?_
  refine Agree.bind (h.readThunks_agree PeParser.importThunkLoop ph co dn firstThunk tt 4096 0) ?_
  rintro _ symbols rfl
  exact rfl

/-- The eight fields of a delay descriptor are read in a row by C++, and one
by one by Rust until one of them is not zero. -/
theorem allZero_delay {o ph c : ℕ} (hl : o + 32 ≤ q.data.length) (a nr ft ir : UInt32) :
    q.allZero true ph c o ⟨a, 0, nr, ft, ir⟩ =
      .ok (decide (a = 0 ∧ nr = 0 ∧ (Pe.readU32 q.data (o + 8)).getD 0 = 0 ∧
        ft = 0 ∧ ir = 0 ∧ (Pe.readU32 q.data (o + 20)).getD 0 = 0 ∧
        (Pe.readU32 q.data (o + 24)).getD 0 = 0 ∧
        (Pe.readU32 q.data (o + 28)).getD 0 = 0)) := by
  unfold Parser.allZero
  simp only [if_true, Parser.getU32_eq (show o + 8 + 4 ≤ q.data.length by omega),
    Parser.getU32_eq (show o + 20 + 4 ≤ q.data.length by omega),
    Parser.getU32_eq (show o + 24 + 4 ≤ q.data.length by omega),
    Parser.getU32_eq (show o + 28 + 4 ≤ q.data.length by omega), ok_bind]
  by_cases h1 : a ≠ 0 ∨ nr ≠ 0
  · rw [if_pos h1, decide_eq_false]
    tauto
  rw [if_neg h1]
  by_cases h2 : (Pe.readU32 q.data (o + 8)).getD 0 ≠ 0 ∨ ft ≠ 0 ∨ ir ≠ 0
  · rw [if_pos h2, decide_eq_false]
    tauto
  rw [if_neg h2]
  by_cases h3 : (Pe.readU32 q.data (o + 20)).getD 0 ≠ 0
  · rw [if_pos h3, decide_eq_false]
    tauto
  rw [if_neg h3]
  by_cases h4 : (Pe.readU32 q.data (o + 24)).getD 0 ≠ 0
  · rw [if_pos h4, decide_eq_false]
    tauto
  push Not at h1 h2 h3 h4
  simp [h1, h2, h3, h4, beq_eq_decide]

theorem readDelayImportDescriptor_agree (h : Tracks p q) (ph co d i : ℕ)
    (hl : d + i * 32 + 32 ≤ q.data.length) :
    Agree SameError (fun c r => c = r.map Dll.toPe) (p.readDelayImportDescriptor d i)
      (q.readDescriptor true ph co delayImportDescriptorSize d i) := by
  unfold PeParser.readDelayImportDescriptor Parser.readDescriptor Parser.readDescriptorFields
  simp only [Pe.kDelayImportDescriptorSize, delayImportDescriptorSize, h.data, if_true, true_and]
  generalize d + i * 32 = offset at *
  simp only [Parser.getU32_eq (show offset + 4 ≤ q.data.length by omega),
    Parser.getU32_eq (show offset + 4 + 4 ≤ q.data.length by omega),
    Parser.getU32_eq (show offset + 12 + 4 ≤ q.data.length by omega),
    Parser.getU32_eq (show offset + 16 + 4 ≤ q.data.length by omega), ok_bind, allZero_delay hl]
  generalize (Pe.readU32 q.data offset).getD 0 = attributes
  generalize (Pe.readU32 q.data (offset + 4)).getD 0 = nameRva
  generalize (Pe.readU32 q.data (offset + 12)).getD 0 = iatRva
  generalize (Pe.readU32 q.data (offset + 16)).getD 0 = intRva
  refine Agree.ite decide_eq_true_iff.symm (fun _ => rfl) fun _ => ?_
  refine Agree.ite Iff.rfl (fun _ => agree_unsupportedMechanism) fun _ => ?_
  refine Agree.ite Iff.rfl (fun _ => agree_malformed) fun hf => ?_
  refine h.agree_rva rfl fun n _ => agree_cstring fun dn => ?_
  rw [if_neg (by tauto)]
  refine h.agree_rva rfl fun tt _ => ?_
  refine Agree.bind (h.readThunks_agree PeParser.delayImportThunkLoop ph co dn iatRva tt 4096 0) ?_
  rintro _ symbols rfl
  exact rfl

theorem readDescriptors_agree (d : Bool) (ph co descriptorSize di l : ℕ)
    (rd : ℕ → Except Failure (Option Pe.ImportedDll)) (u : ByteString)
    (hd : ∀ i, di + i * descriptorSize + descriptorSize ≤ q.data.length →
      Agree SameError (fun c r => c = r.map Dll.toPe) (rd i)
        (q.readDescriptor d ph co descriptorSize di i)) (re : ℕ) :
    ∀ i, di + (i + re) * descriptorSize ≤ q.data.length →
      Agree SameError (fun c r => c = r.map Dll.toPe) (PeParser.readDescriptors rd u i re)
        (q.readDescriptors d ph co descriptorSize di l i re) := by
  induction re with
  | zero => intro i _; exact agree_malformed
  | succ re ih =>
    intro i hl
    have hs : (i + (re + 1)) * descriptorSize =
        i * descriptorSize + descriptorSize + re * descriptorSize := by ring
    refine Agree.bind (hd i (by omega)) ?_
    rintro _ (_ | dll) rfl
    · exact rfl
    · refine Agree.bind (ih (i + 1) ?_) ?_
      · rw [show i + 1 + re = i + (re + 1) by omega]
        exact hl
      · rintro _ dlls rfl
        exact rfl

theorem descriptors_le {di size d l length : ℕ} (hl : di + size ≤ length) :
    di + (0 + min (size / d) l) * d ≤ length := by
  have hmul : min (size / d) l * d ≤ size :=
    le_trans (Nat.mul_le_mul_right _ (min_le_left _ _)) (Nat.div_mul_le_self _ _)
  rw [zero_add]
  omega

/-- **The parsers agree on the imports.** -/
theorem parseImports_agree (h : Tracks p q) :
    Agree SameError Tracks p.parseImports (q.parseImports false) := by
  unfold PeParser.parseImports Parser.parseImports
  have hr : p.parserState.importDirectoryRva = q.model.info.imports.rva := by rw [h.image]; rfl
  have hs : p.parserState.importDirectorySize = q.model.info.imports.size := by rw [h.image]; rfl
  rw [hr, hs]
  refine Agree.ite Iff.rfl (fun _ => h) fun _ => ?_
  refine Agree.ite Iff.rfl (fun _ => agree_malformed) fun _ => ?_
  refine h.agree_rva rfl fun d ho => ?_
  have hl : d + q.model.info.imports.size.toNat ≤ q.data.length :=
    h.data ▸ PeParser.rvaToFileOffset_le ho
  refine Agree.bind (readDescriptors_agree false phaseImports errorImportTable importDescriptorSize
    d _ _ _ (fun i hi => h.readImportDescriptor_agree _ _ d i hi) _ 0
    (descriptors_le hl)) ?_
  rintro _ dlls rfl
  exact ⟨h.data, by rw [h.image]; rfl⟩

/-- **The parsers agree on the delay imports.** -/
theorem parseDelayImports_agree (h : Tracks p q) :
    Agree SameError Tracks p.parseDelayImports (q.parseImports true) := by
  unfold PeParser.parseDelayImports Parser.parseImports
  have hr : p.parserState.delayImportDirectoryRva = q.model.info.delayImports.rva := by
    rw [h.image]; rfl
  have hs : p.parserState.delayImportDirectorySize = q.model.info.delayImports.size := by
    rw [h.image]; rfl
  rw [hr, hs]
  refine Agree.ite Iff.rfl (fun _ => h) fun _ => ?_
  refine Agree.ite Iff.rfl (fun _ => agree_malformed) fun _ => ?_
  refine h.agree_rva rfl fun d ho => ?_
  have hl : d + q.model.info.delayImports.size.toNat ≤ q.data.length :=
    h.data ▸ PeParser.rvaToFileOffset_le ho
  refine Agree.bind (readDescriptors_agree true phaseDelayImports errorDelayImportTable
    delayImportDescriptorSize d _ _ _
    (fun i hi => h.readDelayImportDescriptor_agree _ _ d i hi) _ 0
    (descriptors_le hl)) ?_
  rintro _ dlls rfl
  exact ⟨h.data, by rw [h.image]; rfl⟩

/-! ### Base relocations -/

theorem shiftRight_twelve_and (r : UInt16) : (r >>> 12) &&& (0xF : UInt16) = r >>> 12 := by
  apply UInt16.toNat_inj.1
  have hl : r.toNat < 2 ^ 16 := r.toNat_lt
  change (r.toNat >>> 12) &&& (2 ^ 4 - 1) = r.toNat >>> 12
  rw [Nat.and_two_pow_sub_one_eq_mod, Nat.shiftRight_eq_div_pow]
  omega

theorem readRelocEntries_eq (r : ℕ) : ∀ o, o + r * 2 ≤ q.data.length →
      ∃ es, q.readRelocEntries o r = .ok es ∧
        PeParser.readRelocEntries q.data o r = es.map RelocEntry.toPe := by
  induction r with
  | zero => intro o _; exact ⟨[], rfl, rfl⟩
  | succ r ih =>
    intro o hl
    obtain ⟨es, he, hp⟩ := ih (o + 2) (by omega)
    unfold Parser.readRelocEntries PeParser.readRelocEntries
    rw [Parser.getU16_eq (by omega), ok_bind, he, ok_bind]
    refine ⟨_, rfl, ?_⟩
    dsimp only
    rw [show Pe.kBaseRelocEntrySize = 2 from rfl, hp, shiftRight_twelve_and, List.map_cons]
    rfl

theorem readRelocBlock_agree {o a : ℕ} (hl : o + a ≤ q.data.length) (ht : 8 ≤ a) :
    Agree SameError (fun c r => c = (r.1.toPe, r.2) ∧ 8 ≤ r.2 ∧ r.2 ≤ a)
      (PeParser.readRelocBlock q.data o a) (q.readRelocBlock o a) := by
  unfold PeParser.readRelocBlock Parser.readRelocBlock
  simp only [Parser.getU32_eq (show o + 4 ≤ q.data.length by omega),
    Parser.getU32_eq (show o + 4 + 4 ≤ q.data.length by omega), ok_bind]
  generalize (Pe.readU32 q.data (o + 4)).getD 0 = blockSize
  by_cases hs : blockSize.toNat < 8
  · rw [if_pos (show blockSize.toNat < Pe.kBaseRelocBlockHeaderSize from hs),
      if_pos (.inl (show blockSize.toNat < relocBlockHeaderSize from hs))]
    exact agree_malformed
  rw [if_neg (show ¬blockSize.toNat < Pe.kBaseRelocBlockHeaderSize from hs)]
  by_cases hb : blockSize.toNat > a
  · rw [if_pos hb, if_pos (.inr hb)]
    exact agree_malformed
  have hi : ¬(blockSize.toNat < relocBlockHeaderSize ∨ blockSize.toNat > a) := by
    rintro (h | h)
    · exact hs h
    · exact hb h
  rw [if_neg hb, if_neg hi]
  refine Agree.ite Iff.rfl (fun _ => agree_malformed) fun _ => ?_
  obtain ⟨es, he, hp⟩ := readRelocEntries_eq (q := q) ((blockSize.toNat - 8) / 2)
    (o + 8) (by omega)
  simp only [relocBlockHeaderSize, relocEntrySize, Pe.kBaseRelocBlockHeaderSize,
    Pe.kBaseRelocEntrySize, he, hp, ok_bind]
  exact ⟨rfl, not_lt.1 hs, not_lt.1 hb⟩

theorem readRelocBlocks_agree {d s : ℕ} (hl : d + s ≤ q.data.length) (re : ℕ) :
    ∀ co, Agree SameError (fun c r => c = r.map RelocBlock.toPe)
      (PeParser.readRelocBlocks q.data d s co re) (q.readRelocBlocks d s co re) := by
  induction re with
  | zero =>
    intro co
    refine Agree.ite Iff.rfl (fun _ => agree_inputTooLarge) fun _ => ?_
    exact Agree.ite Iff.rfl (fun _ => agree_malformed) fun _ => rfl
  | succ re ih =>
    intro co
    refine Agree.ite Iff.rfl (fun hm => ?_) fun _ => ?_
    · simp only [Pe.kBaseRelocBlockHeaderSize] at hm
      refine Agree.bind (readRelocBlock_agree (by omega) (by omega)) ?_
      rintro _ ⟨b, bs⟩ ⟨rfl, -, -⟩
      refine Agree.bind (ih (co + bs)) ?_
      rintro _ blocks rfl
      exact rfl
    · exact Agree.ite Iff.rfl (fun _ => agree_malformed) fun _ => rfl

/-- The relocation directory is one that only the C++ parser takes as absent. -/
def PhantomRelocations (p : PeParser) : Prop :=
  Pe.kBaseRelocBlockHeaderSize ≤ p.parserState.relocationDirectorySize.toNat ∧
    Phantom p ⟨p.parserState.relocationDirectoryRva, p.parserState.relocationDirectorySize⟩

/-- **The parsers agree on the relocations, unless the directory is a phantom.** -/
theorem parseRelocations_agree (h : Tracks p q) (hp : ¬PhantomRelocations p) :
    Agree SameError Tracks p.parseRelocations q.parseRelocations := by
  unfold PeParser.parseRelocations Parser.parseRelocations
  have hr : p.parserState.relocationDirectoryRva = q.model.info.relocations.rva := by
    rw [h.image]; rfl
  have hs : p.parserState.relocationDirectorySize = q.model.info.relocations.size := by
    rw [h.image]; rfl
  rw [PhantomRelocations, hr, hs] at hp
  rw [hr, hs]
  refine Agree.ite Iff.rfl (fun _ => h) fun _ => ?_
  refine Agree.ite Iff.rfl (fun _ => agree_malformed) fun hb => ?_
  cases ho : p.rvaToFileOffset ⟨q.model.info.relocations.rva, q.model.info.relocations.size⟩ with
  | none =>
    rw [h.rva_error ho rfl]
    rw [if_neg fun hu => hp ⟨not_lt.1 hb, ho, hu⟩]
    exact agree_malformed
  | some d =>
    have hl : d + q.model.info.relocations.size.toNat ≤ q.data.length :=
      h.data ▸ PeParser.rvaToFileOffset_le ho
    rw [h.rva_ok ho rfl, ok_bind, h.data]
    refine Agree.bind (readRelocBlocks_agree hl _ 0) ?_
    rintro _ blocks rfl
    exact ⟨rfl, by rw [h.image]; rfl⟩

/-- A phantom relocation directory: the C++ parser goes on, the Rust parser
does not. -/
theorem parseRelocations_phantom (h : Tracks p q) (hp : PhantomRelocations p) :
    p.parseRelocations = .ok (p.recordUninitializedDirectory (text "relocations")) ∧
      ∃ e, q.parseRelocations = .error e ∧ e.status = statusMalformed := by
  obtain ⟨hb, ho, hu⟩ := hp
  have hn : ¬(p.parserState.relocationDirectoryRva = 0 ∧
      p.parserState.relocationDirectorySize = 0) := by
    rintro ⟨-, hz⟩
    rw [hz] at hb
    exact absurd hb (by decide)
  have hr : p.parserState.relocationDirectoryRva = q.model.info.relocations.rva := by
    rw [h.image]; rfl
  have hs : p.parserState.relocationDirectorySize = q.model.info.relocations.size := by
    rw [h.image]; rfl
  constructor
  · dsimp only [PeParser.parseRelocations]
    rw [if_neg hn, if_neg (not_lt.2 hb), ho]
    rw [if_pos hu]
  · rw [hr, hs] at hn ho
    rw [hs] at hb
    have hm : ¬q.model.info.relocations.size.toNat < relocBlockHeaderSize := not_lt.2 hb
    dsimp only [Parser.parseRelocations]
    rw [if_neg hn, if_neg hm, h.rva_error ho rfl]
    exact ⟨_, rfl, rfl⟩

/-! ### TLS -/

/-- Of the `n + 1` entries from `offset` on, one is null or behind the end of
the file. -/
def TerminatesWithin (data : ByteString) (offset n : ℕ) : Prop :=
  ∃ k ≤ n, (Pe.readU64 data (offset + 8 * k)).getD 0 = 0

theorem TerminatesWithin.next {d : ByteString} {o n : ℕ} (ht : TerminatesWithin d o (n + 1))
    (hn : (Pe.readU64 d o).getD 0 ≠ 0) : TerminatesWithin d (o + 8) n := by
  obtain ⟨k, hk, hz⟩ := ht
  cases k with
  | zero => exact absurd hz hn
  | succ k => exact ⟨k, by omega, by rwa [show o + 8 + 8 * k = o + 8 * (k + 1) by ring]⟩

attribute [local simp] PeParser.readTlsCallbacks Parser.readTlsCallbacks Option.getD_some and_self
  Bool.false_eq_true

/-- The entry at `offset`, as both loops look at it. -/
theorem readTlsCallbacks_step (q : Parser) (o re : ℕ) :
    (∃ cb, cb ≠ 0 ∧ (Pe.readU64 q.data o).getD 0 = cb ∧
      (PeParser.readTlsCallbacks q.data o (re + 1) =
        PeParser.readTlsCallbacks q.data (o + 8) re >>= fun r => .ok (cb :: r)) ∧
      (∃ e, PeParser.readTlsCallbacks q.data o 0 = .error e ∧ e.status = .malformed) ∧
      (q.readTlsCallbacks o (re + 1) =
        q.readTlsCallbacks (o + 8) re >>= fun r => .ok (cb :: r)) ∧
      ∃ e, q.readTlsCallbacks o 0 = .error e ∧ e.status = statusInputTooLarge) ∨
    ((Pe.readU64 q.data o).getD 0 = 0 ∧ ∀ l, PeParser.readTlsCallbacks q.data o l = .ok [] ∧
        q.readTlsCallbacks o l = .ok []) := by
  by_cases hi : o + 8 ≤ q.data.length
  · have hr := mt not_inRange_iff.1 (not_lt.2 hi)
    obtain ⟨cb, hv⟩ := readU64_isSome hi
    by_cases hz : cb = 0
    · right
      refine ⟨by rw [hv, hz]; rfl, fun l => ?_⟩
      cases l <;>
        simp [hv, hz, hr, Parser.getU64_eq hi, ok_bind]
    · left
      refine ⟨cb, hz, by rw [hv]; rfl, ?_, ?_, ?_, ?_⟩
      · simp [PeParser.readTlsCallbacks, hv, if_neg hz]
      · simp only [PeParser.readTlsCallbacks, hv, if_neg hz]
        exact ⟨_, rfl, rfl⟩
      · simp [hr, Parser.getU64_eq hi, hv, ok_bind, if_neg hz]
      · simp only [Parser.readTlsCallbacks, hr, Parser.getU64_eq hi, hv, Option.getD_some,
          ok_bind, if_neg hz, Bool.false_eq_true, if_false]
        exact ⟨_, rfl, rfl⟩
  · right
    have hn := readU64_eq_none (not_le.1 hi)
    have hr := not_inRange_iff.2 (not_le.1 hi)
    refine ⟨by rw [hn]; rfl, fun l => ?_⟩
    cases l <;>
      simp [hn, hr]

/-- A table that ends within `n` callbacks is read alike under any two limits
from `n` on. -/
theorem readTlsCallbacks_eq (q : Parser) (n : ℕ) :
    ∀ o l l', n ≤ l → n ≤ l' → TerminatesWithin q.data o n →
      ∃ callbacks, PeParser.readTlsCallbacks q.data o l = .ok callbacks ∧
        q.readTlsCallbacks o l' = .ok callbacks := by
  induction n with
  | zero =>
    rintro o l l' - - ⟨k, hk, hz⟩
    obtain rfl : k = 0 := by omega
    rcases readTlsCallbacks_step q o 0 with ⟨cb, hn, hr, -⟩ | ⟨-, he⟩
    · exact absurd (hr.symm.trans hz) hn
    · exact ⟨[], (he l).1, (he l').2⟩
  | succ n ih =>
    intro o l l' hl hl' ht
    obtain ⟨l, rfl⟩ : ∃ m, l = m + 1 := ⟨l - 1, by omega⟩
    obtain ⟨l', rfl⟩ : ∃ m, l' = m + 1 := ⟨l' - 1, by omega⟩
    rcases readTlsCallbacks_step q o l with ⟨cb, hn, hr, hp, -⟩ | ⟨-, he⟩
    · obtain ⟨r, hre, hr'⟩ := ih (o + 8) l l' (by omega) (by omega) (ht.next (hr ▸ hn))
      rcases readTlsCallbacks_step q o l' with ⟨_, -, he', -, -, hu, -⟩ | ⟨hz, -⟩
      · rw [hp, hre, hu, hr', ← hr, ← he']
        exact ⟨_, rfl, rfl⟩
      · exact absurd (hr.symm.trans hz) hn
    · exact ⟨[], (he _).1, (he _).2⟩

/-- Both loops reject a table that goes on past their limit. -/
theorem readTlsCallbacks_beyond (q : Parser) (l : ℕ) :
    ∀ o, ¬TerminatesWithin q.data o l →
      (∃ e, PeParser.readTlsCallbacks q.data o l = .error e ∧ e.status = .malformed) ∧
      ∃ e, q.readTlsCallbacks o l = .error e ∧ e.status = statusInputTooLarge := by
  induction l with
  | zero =>
    intro o ht
    rcases readTlsCallbacks_step q o 0 with ⟨-, -, -, -, hm, -, hl⟩ | ⟨hz, -⟩
    · exact ⟨hm, hl⟩
    · exact absurd ⟨0, le_refl 0, hz⟩ ht
  | succ l ih =>
    intro o ht
    rcases readTlsCallbacks_step q o l with ⟨cb, -, -, hp, -, hr, -⟩ | ⟨hz, -⟩
    · obtain ⟨⟨e, he, hs⟩, e', he', hs'⟩ := ih (o + 8) fun ⟨k, hk, hz⟩ =>
        ht ⟨k + 1, by omega, by rwa [show o + 8 * (k + 1) = o + 8 + 8 * k by ring]⟩
      rw [hp, he, hr, he']
      exact ⟨⟨e, rfl, hs⟩, e', rfl, hs'⟩
    · exact absurd ⟨0, Nat.zero_le _, hz⟩ ht

/-- The parsers agree on the TLS directory: it is absent, or a whole
`IMAGE_TLS_DIRECTORY64` that is a phantom or lies in the file, with a callback
table of at most `kMaxTlsCallbacks` entries, or of more than `maxTlsCallbacks`. -/
def TlsContract (p : PeParser) : Prop :=
  let range : RvaRange := ⟨p.parserState.tlsDirectoryRva, p.parserState.tlsDirectorySize⟩
  (range.rva = 0 ∧ range.length = 0) ∨
    (range.rva ≠ 0 ∧ 40 ≤ range.length.toNat ∧
      (Phantom p range ∨
        ∃ directory, p.rvaToFileOffset range = some directory ∧
          ∀ table, p.callbacksFileOffset ((Pe.readU64 p.data (directory + 24)).getD 0) =
            some table → TerminatesWithin p.data table Pe.kMaxTlsCallbacks ∨
              ¬TerminatesWithin p.data table maxTlsCallbacks))

theorem readCallbackVas_eq (h : Tracks p q) (c : UInt64) : q.readCallbackVas c =
      match p.callbacksFileOffset c with
      | none => .ok []
      | some t => q.readTlsCallbacks t maxTlsCallbacks := by
  unfold Parser.readCallbackVas PeParser.callbacksFileOffset
  have hb : p.parserState.imageBase = q.model.info.imageBase := by rw [h.image]; rfl
  rw [hb]
  by_cases h1 : c ≥ q.model.info.imageBase
  · by_cases h2 : (c - q.model.info.imageBase).toNat ≤ u32Max
    · have hi : c ≥ q.model.info.imageBase ∧
          (c - q.model.info.imageBase).toNat ≤ Pe.uint32Max := ⟨h1, h2⟩
      rw [if_pos h1, if_pos h2, if_pos hi]
      cases hf : p.rvaToFileOffset ⟨(c - q.model.info.imageBase).toUInt32, 8⟩ with
      | none => rw [h.rva_error hf (by rfl)]; rfl
      | some t => rw [h.rva_ok hf (by rfl)]
    · have ho : ¬(c ≥ q.model.info.imageBase ∧
          (c - q.model.info.imageBase).toNat ≤ Pe.uint32Max) := fun hc => h2 hc.2
      rw [if_pos h1, if_neg h2, if_neg ho]
  · have ho : ¬(c ≥ q.model.info.imageBase ∧
        (c - q.model.info.imageBase).toNat ≤ Pe.uint32Max) := fun hc => h1 hc.1
    rw [if_neg h1, if_neg ho]

theorem size_lt_iff (s : UInt32) : s < 40 ↔ ¬40 ≤ s.toNat := by
  rw [UInt32.lt_iff_toNat_lt, not_le]
  exact Iff.rfl

theorem parseTls_eq (h : Tracks p q) {d : ℕ} (hr : q.model.info.tlsDirectory.rva ≠ 0)
    (hs : 40 ≤ q.model.info.tlsDirectory.size.toNat)
    (ho : p.rvaToFileOffset ⟨q.model.info.tlsDirectory.rva, q.model.info.tlsDirectory.size⟩ =
      some d) :
    q.parseTls = q.readCallbackVas ((Pe.readU64 q.data (d + 24)).getD 0) >>= fun cv =>
        .ok { q with model := { q.model with info := { q.model.info with tls :=
          { startAddressOfRawData := (Pe.readU64 q.data d).getD 0
            endAddressOfRawData := (Pe.readU64 q.data (d + 8)).getD 0
            addressOfIndex := (Pe.readU64 q.data (d + 16)).getD 0
            addressOfCallbacks := (Pe.readU64 q.data (d + 24)).getD 0
            sizeOfZeroFill := (Pe.readU32 q.data (d + 32)).getD 0
            characteristics := (Pe.readU32 q.data (d + 36)).getD 0
            callbackVas := cv } } } } := by
  have hl : d + q.model.info.tlsDirectory.size.toNat ≤ q.data.length :=
    h.data ▸ PeParser.rvaToFileOffset_le ho
  have hn : ¬(q.model.info.tlsDirectory.rva = 0 ∨ q.model.info.tlsDirectory.size = 0 ∨
      q.model.info.tlsDirectory.size < 40) := by
    rintro (h0 | h0 | h0)
    · exact hr h0
    · rw [h0] at hs
      exact absurd hs (by decide)
    · exact (size_lt_iff _).1 h0 hs
  dsimp only [Parser.parseTls]
  rw [if_neg hn, h.rva_ok ho rfl]
  simp [Parser.getU64_eq (show d + 8 ≤ q.data.length by omega),
    Parser.getU64_eq (show d + 8 + 8 ≤ q.data.length by omega),
    Parser.getU64_eq (show d + 16 + 8 ≤ q.data.length by omega),
    Parser.getU64_eq (show d + 24 + 8 ≤ q.data.length by omega),
    Parser.getU32_eq (show d + 32 + 4 ≤ q.data.length by omega),
    Parser.getU32_eq (show d + 36 + 4 ≤ q.data.length by omega), ok_bind]

/-- **The parsers agree on a TLS directory that meets the C++ contract.** -/
theorem parseTls_agree (h : Tracks p q) (hn : TlsContract p) :
    Agree SameError Tracks p.parseTlsDirectory q.parseTls := by
  have hv : p.parserState.tlsDirectoryRva = q.model.info.tlsDirectory.rva := by rw [h.image]; rfl
  have hs : p.parserState.tlsDirectorySize = q.model.info.tlsDirectory.size := by rw [h.image]; rfl
  unfold TlsContract at hn
  unfold PeParser.parseTlsDirectory
  rw [hv, hs] at hn ⊢
  dsimp only at hn ⊢
  rcases hn with ha | ⟨he, hb, hp⟩
  · rw [if_pos ha]
    dsimp only [Parser.parseTls]
    rw [if_pos (.inl ha.1)]
    exact h
  have hz : q.model.info.tlsDirectory.size ≠ 0 := by
    intro h0
    rw [h0] at hb
    exact absurd hb (by decide)
  rw [if_neg fun hc => he hc.1, if_neg (by tauto), if_neg fun hc => (size_lt_iff _).1 hc hb]
  rcases hp with ⟨ho, hu⟩ | ⟨d, ho, ht⟩
  · rw [ho]
    rw [if_pos hu]
    dsimp only [Parser.parseTls]
    rw [if_neg (by rw [size_lt_iff]; tauto), h.rva_error ho rfl]
    constructor
    · unfold PeParser.recordUninitializedDirectory
      split <;> exact h.data
    · unfold PeParser.recordUninitializedDirectory
      split <;> exact h.image
  · rw [ho, h.parseTls_eq he hb ho, h.readCallbackVas_eq]
    dsimp only
    rw [h.data] at ht ⊢
    cases hta : p.callbacksFileOffset ((Pe.readU64 q.data (d + 24)).getD 0) with
    | none => exact ⟨rfl, by rw [h.image]; rfl⟩
    | some t =>
      dsimp only
      rcases ht t hta with ht | ht
      · obtain ⟨c, hpe, hr⟩ := readTlsCallbacks_eq q Pe.kMaxTlsCallbacks t
          Pe.kMaxTlsCallbacks maxTlsCallbacks (le_refl _) (by decide) ht
        rw [hpe, hr]
        exact ⟨rfl, by rw [h.image]; rfl⟩
      · -- both limits are passed
        obtain ⟨⟨e, he, hs⟩, -⟩ := readTlsCallbacks_beyond q Pe.kMaxTlsCallbacks t
          fun ⟨k, hk, hz⟩ => ht ⟨k, hk.trans (by decide), hz⟩
        obtain ⟨-, e', he', hs'⟩ := readTlsCallbacks_beyond q maxTlsCallbacks t ht
        rw [he, he']
        exact .inr ⟨hs, hs'⟩

theorem parseTls_contract (h : Tracks p q) (ho : ¬TlsContract p) :
    (∃ e, p.parseTlsDirectory = .error e ∧ e.status = .malformed) ∧
      ∃ q', q.parseTls = .ok q' := by
  have hv : p.parserState.tlsDirectoryRva = q.model.info.tlsDirectory.rva := by rw [h.image]; rfl
  have hi : p.parserState.tlsDirectorySize = q.model.info.tlsDirectory.size := by rw [h.image]; rfl
  unfold TlsContract at ho
  unfold PeParser.parseTlsDirectory
  rw [hv, hi] at ho ⊢
  dsimp only at ho ⊢
  push Not at ho
  obtain ⟨hr, ho⟩ := ho
  rw [if_neg fun hc => hr hc.1 hc.2]
  by_cases hz : q.model.info.tlsDirectory.rva = 0 ∨ q.model.info.tlsDirectory.size = 0
  · refine ⟨⟨_, by rw [if_pos hz]; rfl, rfl⟩, q, ?_⟩
    dsimp only [Parser.parseTls]
    rw [if_pos (by tauto)]
  rw [if_neg hz]
  by_cases hs : q.model.info.tlsDirectory.size < 40
  · refine ⟨⟨_, by rw [if_pos hs]; rfl, rfl⟩, q, ?_⟩
    dsimp only [Parser.parseTls]
    rw [if_pos (by tauto)]
  rw [if_neg hs]
  have hb : 40 ≤ q.model.info.tlsDirectory.size.toNat := by
    rwa [size_lt_iff, not_not] at hs
  have hn : q.model.info.tlsDirectory.rva ≠ 0 := fun h0 => hz (.inl h0)
  obtain ⟨hp, hte⟩ := ho hn hb
  cases hf : p.rvaToFileOffset ⟨q.model.info.tlsDirectory.rva,
    q.model.info.tlsDirectory.size⟩ with
  | none =>
    have hu : ¬p.isRvaInUninitializedSection
        ⟨q.model.info.tlsDirectory.rva, q.model.info.tlsDirectory.size⟩ :=
      fun hu => hp ⟨hf, hu⟩
    refine ⟨⟨_, by dsimp only; rw [if_neg hu]; rfl, rfl⟩, q, ?_⟩
    dsimp only [Parser.parseTls]
    rw [if_neg (by tauto), h.rva_error hf rfl]
    rfl
  | some d =>
    obtain ⟨t, ht, hl, hw⟩ := hte d hf
    rw [h.data] at ht hl hw
    obtain ⟨⟨e, he, ha⟩, -⟩ := readTlsCallbacks_beyond q _ t hl
    constructor
    · dsimp only
      rw [h.data, ht]
      dsimp only
      rw [he]
      exact ⟨e, rfl, ha⟩
    · rw [h.parseTls_eq hn hb hf, h.readCallbackVas_eq, ht]
      dsimp only
      obtain ⟨c, -, hk⟩ := readTlsCallbacks_eq q maxTlsCallbacks t maxTlsCallbacks maxTlsCallbacks
        (le_refl _) (le_refl _) hw
      rw [hk]
      exact ⟨_, rfl⟩

end Tracks

end TradutorLinux.Rust
