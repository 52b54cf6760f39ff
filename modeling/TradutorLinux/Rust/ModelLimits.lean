import TradutorLinux.Pe.WireDecoder

/-!
# What a parsed image can be

The limits of the Rust parser, read off the images it produces: the loops stop
at their counts, names come from a bounded scan, and only the operations the
unwinder knows get into a code.  The decoder of the wire checks the same limits
again, so they are what the wire needs to carry an image.

## Main definitions

* `Encodable`

## Main results

* `encodable_of_parse`
-/

namespace TradutorLinux.Rust

open List Option Reader Nat Parser UnwindParser

/-- A string a record of the pool can hold. -/
def Short (bytes : ByteString) : Prop := bytes.length ≤ 65534

/-- A symbol as the parser builds it: an ordinal has no name. -/
structure Symbol.Bounded (s : Symbol) : Prop where
  name : Short s.name
  ordinal : s.byOrdinal = true → s.name = []

/-- A DLL within the limits. -/
structure Dll.Bounded (d : Dll) : Prop where
  name : Short d.name
  count : d.symbols.length ≤ maxSymbolsPerDll
  symbols : ∀ s ∈ d.symbols, s.Bounded

/-- An export as the parser builds it: without `byName` there is no name. -/
structure Export.Bounded (e : Export) : Prop where
  name : Short e.name
  forwarder : Short e.forwarder
  unnamed : e.byName = false → e.name = []

/-- The codes of an unwind record are operations that the unwinder knows. -/
def Unwind.Known (u : Unwind) : Prop :=
  ∀ c ∈ u.codes, Pe.Decoder.validUnwindOperation c.operation = true

/-- An image within the limits of the parser. -/
structure Encodable (m : Model) : Prop where
  sectionCount : m.sections.length = m.info.numberOfSections.toNat
  sections : ∀ s ∈ m.sections, Short s.name
  importCount : m.imports.length ≤ maxImportDlls
  imports : ∀ d ∈ m.imports, d.Bounded
  delayImportCount : m.delayImports.length ≤ maxImportDlls
  delayImports : ∀ d ∈ m.delayImports, d.Bounded
  exportCount : m.exports.length ≤ maxExportFunctions
  exports : ∀ e ∈ m.exports, e.Bounded
  callbackCount : m.info.tls.callbackVas.length ≤ maxTlsCallbacks
  functionCount : m.runtimeFunctions.length ≤ maxRuntimeFunctions
  functions : ∀ f ∈ m.runtimeFunctions, f.unwind.Known
  relocationCount : m.relocations.length ≤ maxRelocBlocks

/-! ### Strings -/

theorem Reader.length_scanCString {bs str : ByteString} {limit : ℕ}
    (h : scanCString bs limit = some str) : str.length < limit := by
  induction bs generalizing limit str with
  | nil => simp [scanCString] at h
  | cons b r ih =>
    cases limit with
    | zero => simp [scanCString] at h
    | succ limit =>
      rw [scanCString] at h
      split at h
      · cases h
        exact succ_pos limit
      · obtain ⟨s, hsca, rfl⟩ := map_eq_some_iff.1 h
        have := ih hsca
        rw [length_cons]
        omega

theorem Parser.short_cstringAt {q : Parser} {off ph code : ℕ} {m string : ByteString}
    (h : q.cstringAt off ph code m = .ok string) : Short string := by
  unfold cstringAt cstring at h
  split at h
  · next bs hb =>
    cases h
    split at hb
    · cases hb
    · have := length_scanCString hb
      exact le_of_lt_succ this
  · cases h

theorem short_nil : Short [] := Nat.zero_le _

/-! ### Sections -/

theorem Parser.readSection_short {q : Parser} {off : ℕ} {s : Section}
    (h : q.readSection off = .ok s) : Short s.name := by
  unfold Parser.readSection at h
  split at h
  · cases h
  next nr hn =>
  simp only [bind_eq_ok] at h
  obtain ⟨_, -, _, -, _, -, _, -, _, -, hs⟩ := h
  cases hs
  have hlen : (nr.take (trimmedNameLen nr 8)).length ≤ nr.length := length_take_le' _ _
  unfold Reader.bytes at hn
  split at hn
  · cases hn
    have : (slice q.data off 8).length ≤ 8 := by
      rw [length_slice]
      exact min_le_left 8 _
    dsimp only [Short]
    omega
  · cases hn

theorem Parser.readSections_limits {q : Parser} {io : Info} {tbl rem : ℕ} :
    ∀ {i : ℕ} {ss : List Section}, q.readSections io tbl i rem = .ok ss →
      ss.length = rem ∧ ∀ s ∈ ss, Short s.name := by
  induction rem with
  | zero =>
    intro i ss h
    cases h
    exact ⟨rfl, fun s hs => absurd hs (not_mem_nil)⟩
  | succ rem ih =>
    intro i ss h
    simp only [Parser.readSections, malformed, peError, guard_eq_ok, bind_eq_ok] at h
    obtain ⟨-, s, hs, -, -, r, hr, h⟩ := h
    cases h
    obtain ⟨hlen, hsh⟩ := ih hr
    refine ⟨congrArg Nat.succ hlen, forall_mem_cons.2 ⟨?_, hsh⟩⟩
    exact readSection_short hs

/-! ### Imports -/

section Imports

variable {q : Parser} {de : Bool} {ph code : ℕ} {firstThunk : UInt32}

theorem Parser.readSymbol_bounded {sym t : ℕ} {tv : UInt64} {s : Symbol}
    (h : q.readSymbol de ph code firstThunk sym t tv = .ok s) : s.Bounded := by
  simp only [Parser.readSymbol, malformed, peError, guard_eq_ok, bind_eq_ok] at h
  obtain ⟨-, _, -, h⟩ := h
  split at h
  · cases h
    exact ⟨short_nil, fun _ => rfl⟩
  · simp only [guard_eq_ok, bind_eq_ok] at h
    obtain ⟨-, _, -, nm, hn, h⟩ := h
    cases h
    exact ⟨short_cstringAt hn, fun hord => absurd hord Bool.false_ne_true⟩

theorem Parser.readThunks_bounded {tt rem : ℕ} : ∀ {sym : ℕ} {ss : List Symbol},
      q.readThunks de ph code firstThunk tt sym rem = .ok ss →
      ss.length ≤ rem ∧ ∀ s ∈ ss, s.Bounded := by
  induction rem with
  | zero =>
    intro sym ss h
    cases h
  | succ rem ih =>
    intro sym ss h
    simp only [Parser.readThunks, malformed, peError, guard_eq_ok, bind_eq_ok] at h
    obtain ⟨-, tv, -, h⟩ := h
    split at h
    · cases h
      exact ⟨Nat.zero_le _, by simp⟩
    simp only [bind_eq_ok] at h
    obtain ⟨s, hs, r, hr, h⟩ := h
    cases h
    obtain ⟨hlen, hbou⟩ := ih hr
    exact ⟨succ_le_succ hlen, forall_mem_cons.2 ⟨readSymbol_bounded hs, hbou⟩⟩

theorem Parser.readDescriptor_bounded {dsz dir i : ℕ} {d : Dll}
    (h : q.readDescriptor de ph code dsz dir i = .ok (some d)) : d.Bounded := by
  simp only [Parser.readDescriptor, malformed, peError, bind_eq_ok] at h
  obtain ⟨fs, -, z, -, h⟩ := h
  split at h
  · cases h
  simp only [guard_eq_ok, bind_eq_ok] at h
  obtain ⟨-, -, _, -, dn, hn, -, _, -, ss, hsym, h⟩ := h
  cases h
  obtain ⟨hlen, hbou⟩ := readThunks_bounded hsym
  exact ⟨short_cstringAt hn, hlen, hbou⟩

theorem Parser.readDescriptors_bounded {dsz dir lim rem : ℕ} : ∀ {i : ℕ} {ds : List Dll},
      q.readDescriptors de ph code dsz dir lim i rem = .ok ds →
      ds.length ≤ rem ∧ ∀ d ∈ ds, d.Bounded := by
  induction rem with
  | zero =>
    intro i ds h
    cases h
  | succ rem ih =>
    intro i ds h
    obtain ⟨f, hf, h⟩ := bind_eq_ok.1 h
    cases f with
    | none =>
      cases h
      exact ⟨Nat.zero_le _, fun d hd => absurd hd (not_mem_nil)⟩
    | some d =>
      obtain ⟨r, hr, h⟩ := bind_eq_ok.1 h
      cases h
      obtain ⟨hlen, hbou⟩ := ih hr
      exact ⟨succ_le_succ hlen, forall_mem_cons.2 ⟨readDescriptor_bounded hf, hbou⟩⟩

end Imports

/-! ### Exports -/

section Exports

variable {q : Parser}

theorem Parser.length_readFunctionRvas {tbl remaining : ℕ} :
    ∀ {i : ℕ} {rs : List UInt32}, q.readFunctionRvas tbl i remaining = .ok rs →
      rs.length = remaining := by
  induction remaining with
  | zero =>
    intro i rs h
    cases h
    rfl
  | succ remaining ih =>
    intro i rs h
    obtain ⟨_, -, h⟩ := bind_eq_ok.1 h
    obtain ⟨re, hr, h⟩ := bind_eq_ok.1 h
    cases h
    exact congrArg Nat.succ (ih hr)

def ShortNames (names : List (Option ByteString)) : Prop := ∀ name, some name ∈ names → Short name

theorem Parser.readExportNames_short {nt ot rem : ℕ} :
    ∀ {i : ℕ} {nms names' : List (Option ByteString)}, ShortNames nms →
      q.readExportNames nt ot i rem nms = .ok names' →
      ShortNames names' := by
  induction rem with
  | zero =>
    intro i nms names' hs h
    cases h
    exact hs
  | succ rem ih =>
    intro i nms names' hs h
    simp only [Parser.readExportNames, malformed, peError, guard_eq_ok, bind_eq_ok] at h
    obtain ⟨_, -, _, -, -, _, -, nm, hn, -, h⟩ := h
    refine ih (fun o ho => ?_) h
    rcases mem_or_eq_of_mem_set ho with hmem | heq
    · exact hs o hmem
    · cases heq
      exact short_cstringAt hn

theorem Parser.short_readForwarder {fr : UInt32} {forwarder : ByteString}
    (h : q.readForwarder fr = .ok forwarder) : Short forwarder := by
  simp only [readForwarder, malformed, peError, guard_eq_ok, bind_eq_ok] at h
  obtain ⟨_, -, nm, hn, -, h⟩ := h
  cases h
  exact short_cstringAt hn

theorem Parser.readExports_bounded {dir : ℕ} {o : UInt32}
    {nms : List (Option ByteString)} (hna : ShortNames nms) {rs : List UInt32} :
    ∀ {idx : ℕ} {exs : List Export}, q.readExports dir o idx rs nms = .ok exs →
      exs.length ≤ rs.length ∧ ∀ e ∈ exs, e.Bounded := by
  induction rs with
  | nil =>
    intro idx exs h
    cases h
    exact ⟨Nat.zero_le _, fun e he => absurd he (not_mem_nil)⟩
  | cons fr rs ih =>
    intro idx exs h
    simp only [Parser.readExports, malformed, peError] at h
    split at h
    · obtain ⟨hlen, hbou⟩ := ih h
      exact ⟨le_succ_of_le hlen, hbou⟩
    simp only [guard_eq_ok, bind_eq_ok] at h
    obtain ⟨-, f, hfor, r, hr, h⟩ := h
    cases h
    obtain ⟨hlen, hbou⟩ := ih hr
    refine ⟨succ_le_succ hlen, forall_mem_cons.2 ⟨⟨?_, ?_, ?_⟩, hbou⟩⟩
    · rcases hn : nms[idx]?.getD none with _ | name
      · exact short_nil
      · refine hna name (mem_of_getElem? (i := idx) ?_)
        cases hget : nms[idx]? with
        | none => rw [hget] at hn; cases hn
        | some fo => rw [hget] at hn; exact congrArg some hn
    · split at hfor
      · exact short_readForwarder hfor
      · cases hfor
        exact short_nil
    · intro hno
      rw [isSome_eq_false_iff, isNone_iff_eq_none] at hno
      rw [hno]
      rfl

theorem Parser.readExportTables_bounded {dir : ℕ} {o cnt nc fr nr nor : UInt32} {exs : List Export}
    (h : q.readExportTables dir o cnt nc fr nr nor = .ok exs) :
    exs.length ≤ maxExportFunctions ∧ ∀ e ∈ exs, e.Bounded := by
  simp only [Parser.readExportTables, malformed, peError, guard_eq_ok, bind_eq_ok] at h
  obtain ⟨hlim, -, -, -, rs, hr, names, hn, h⟩ := h
  have hlen : rs.length ≤ cnt.toNat := by
    split at hr
    · obtain ⟨_, -, hr⟩ := bind_eq_ok.1 hr
      exact (length_readFunctionRvas hr).le
    · cases hr
      exact Nat.zero_le _
  have hb : ShortNames (List.replicate cnt.toNat none) := fun nm hname =>
    absurd (eq_of_mem_replicate hname) (some_ne_none nm)
  have hs : ShortNames names := by
    split at hn
    · simp only [bind_eq_ok] at hn
      obtain ⟨_, -, _, -, hn⟩ := hn
      exact readExportNames_short hb hn
    · cases hn
      exact hb
  obtain ⟨hc, hbou⟩ := readExports_bounded hs h
  exact ⟨by omega, hbou⟩

end Exports

/-! ### Unwind data -/

section UnwindData

variable {v : UnwindParser} {q : Parser}

theorem UnwindParser.extraSlots_valid {op i : UInt8} {e : ℕ}
    (h : v.extraSlots op i = .ok e) : Pe.Decoder.validUnwindOperation op := by
  have hk : op.toNat ≤ 5 ∨ op.toNat = 8 ∨ op.toNat = 9 ∨ op.toNat = 10 := by
    unfold extraSlots at h
    split at h
    all_goals first
      | (cases h; done)
      | omega
  simp only [Pe.Decoder.validUnwindOperation, Bool.or_eq_true, decide_eq_true_eq, beq_iff_eq,
    UInt8.le_iff_toNat_le, ← UInt8.toNat_inj]
  rcases hk with h5 | h8 | h9 | h10
  · exact .inl (.inl (.inl h5))
  · exact .inl (.inl (.inr h8))
  · exact .inl (.inr h9)
  · exact .inr h10

theorem UnwindParser.readCodes_valid {f : ℕ} :
    ∀ {s : ℕ} {p : Option UInt8} {cs : List UnwindCode} {e : Bool},
      v.readCodes f s p = .ok (cs, e) →
      ∀ c ∈ cs, Pe.Decoder.validUnwindOperation c.operation := by
  induction f with
  | zero =>
    intro s p cs e h
    cases h
    exact fun c hc => absurd hc (not_mem_nil)
  | succ f ih =>
    intro s p cs e h
    rw [UnwindParser.readCodes] at h
    split at h
    · simp only [malformedAt, malformed, peError, guard_eq_ok, bind_eq_ok] at h
      obtain ⟨_, -, -, ex, he, -, _, -, ⟨r, m⟩, hr, h⟩ := h
      cases h
      exact forall_mem_cons.2 ⟨extraSlots_valid he, ih hr⟩
    · cases h
      exact fun c hc => absurd hc (not_mem_nil)

theorem Parser.readUnwindTail_codes {hr : ℕ} {tr : UInt32} {uw uw' : Unwind}
    (h : q.readUnwindTail hr tr uw = .ok uw') : uw'.codes = uw.codes := by
  unfold Parser.readUnwindTail at h
  split at h
  · simp only [malformed, peError, guard_eq_ok, bind_eq_ok] at h
    obtain ⟨-, _, -, _, -, _, -, _, -, h⟩ := h
    cases h
    rfl
  · split at h
    · simp only [malformed, peError, guard_eq_ok, bind_eq_ok] at h
      obtain ⟨_, -, _, -, -, _, -, -, -, h⟩ := h
      cases h
      rfl
    · cases h
      rfl

theorem Parser.readUnwindBody_known {ce : ℕ} {uw uw' : Unwind}
    (h : q.readUnwindBody v ce uw = .ok uw') : uw'.Known := by
  unfold Parser.readUnwindBody at h
  simp only [malformed, peError, guard_eq_ok, bind_eq_ok] at h
  obtain ⟨_, -, ⟨cs, e⟩, hc, -, h⟩ := h
  unfold Unwind.Known
  rw [readUnwindTail_codes h]
  exact readCodes_valid hc

theorem Parser.parseUnwind_known {ur beg fin : UInt32} {uw : Unwind}
    (h : q.parseUnwind ur beg fin = .ok uw) : uw.Known := by
  simp only [parseUnwind, malformed, peError, guard_eq_ok, bind_eq_ok] at h
  obtain ⟨-, _, -, _, -, -, -, -, _, -, h⟩ := h
  exact readUnwindBody_known h

theorem Parser.readRuntimeFunctions_known {dir rem : ℕ} :
    ∀ {i : ℕ} {p : UInt32} {fns : List RuntimeFunction},
      q.readRuntimeFunctions dir i rem p = .ok fns →
      fns.length = rem ∧ ∀ f ∈ fns, f.unwind.Known := by
  induction rem with
  | zero =>
    intro i p fns h
    cases h
    exact ⟨rfl, fun f hf => absurd hf (not_mem_nil)⟩
  | succ rem ih =>
    intro i p fns h
    simp only [Parser.readRuntimeFunctions, malformed, peError, guard_eq_ok, bind_eq_ok] at h
    obtain ⟨_, -, _, -, _, -, -, -, uw, hunw, r, hr, h⟩ := h
    cases h
    obtain ⟨hlen, hk⟩ := ih hr
    exact ⟨congrArg Nat.succ hlen, forall_mem_cons.2 ⟨parseUnwind_known hunw, hk⟩⟩

end UnwindData

/-! ### Callbacks and relocations -/

section Loops

variable {q : Parser}

theorem Parser.length_readTlsCallbacks {remaining : ℕ} : ∀ {off : ℕ} {cbs : List UInt64},
      q.readTlsCallbacks off remaining = .ok cbs → cbs.length ≤ remaining := by
  induction remaining with
  | zero =>
    intro off cbs h
    rw [Parser.readTlsCallbacks] at h
    split at h
    · cases h
      exact le_refl 0
    obtain ⟨_, -, h⟩ := bind_eq_ok.1 h
    split at h
    · cases h
      exact le_refl 0
    · cases h
  | succ remaining ih =>
    intro off cbs h
    rw [Parser.readTlsCallbacks] at h
    split at h
    · cases h
      exact Nat.zero_le _
    obtain ⟨_, -, h⟩ := bind_eq_ok.1 h
    split at h
    · cases h
      exact Nat.zero_le _
    · obtain ⟨re, hr, h⟩ := bind_eq_ok.1 h
      cases h
      exact succ_le_succ (ih hr)

theorem Parser.length_readCallbackVas {a : UInt64} {cbs : List UInt64}
    (h : q.readCallbackVas a = .ok cbs) : cbs.length ≤ maxTlsCallbacks := by
  dsimp only [readCallbackVas] at h
  split at h
  · split at h
    · split at h
      · exact length_readTlsCallbacks h
      · cases h
        exact Nat.zero_le _
    · cases h
      exact Nat.zero_le _
  · cases h
    exact Nat.zero_le _

theorem Parser.length_readRelocBlocks {dir s remaining : ℕ} : ∀ {c : ℕ} {bs : List RelocBlock},
      q.readRelocBlocks dir s c remaining = .ok bs →
      bs.length ≤ remaining := by
  induction remaining with
  | zero =>
    intro c bs h
    rw [Parser.readRelocBlocks] at h
    split at h
    · cases h
    split at h
    · cases h
    · cases h
      exact le_refl 0
  | succ remaining ih =>
    intro c bs h
    rw [Parser.readRelocBlocks] at h
    split at h
    · obtain ⟨⟨blk, b⟩, -, h⟩ := bind_eq_ok.1 h
      obtain ⟨re, hr, h⟩ := bind_eq_ok.1 h
      cases h
      exact succ_le_succ (ih hr)
    · split at h
      · cases h
      · cases h
        exact Nat.zero_le _

end Loops

/-! ### The stages -/

section Stages

variable {q q' : Parser}

theorem encodable_readHeaders {d : ByteString}
    (h : Parser.readHeaders { data := d } = .ok q) : Encodable q.model := by
  simp only [Parser.readHeaders, bind_eq_ok] at h
  obtain ⟨nt, -, c, -, i, hi, ss, hsec, h⟩ := h
  cases h
  obtain ⟨hlen, hs⟩ := readSections_limits hsec
  have hhea : i.numberOfSections = c.sectionCount ∧ i.tls.callbackVas = [] := by
    simp only [Parser.readOptionalHeader, readDirectories, malformed, truncated, peError,
      guard_eq_ok, bind_eq_ok] at hi
    obtain ⟨_, -, -, -, b, hb, -, _, -, -, _, -, _, -, _, -, _, -, _, -, _, -, _, -, hi⟩ := hi
    cases hi
    simp only [Parser.readInfo, bind_eq_ok] at hb
    obtain ⟨_, -, _, -, _, -, _, -, _, -, _, -, hb⟩ := hb
    cases hb
    exact ⟨rfl, rfl⟩
  refine ⟨?_, hs, ?_, ?_, ?_, ?_, ?_, ?_, ?_, ?_, ?_, ?_⟩
  · rw [hlen, hhea.1]
  all_goals first
    | exact Nat.zero_le _
    | exact fun x hx => absurd hx (not_mem_nil)
    | (dsimp only; rw [hhea.2]; exact Nat.zero_le _)

section

variable (hq : Encodable q.model)
include hq

theorem encodable_parseExports (h : q.parseExports = .ok q') : Encodable q'.model := by
  dsimp only [Parser.parseExports] at h
  split at h
  · cases h
    exact hq
  simp only [malformed, peError, guard_eq_ok, bind_eq_ok] at h
  obtain ⟨-, _, -, _, -, _, -, _, -, _, -, _, -, _, -, _, -, _, -, exs, hexp, h⟩ := h
  cases h
  obtain ⟨hlen, hbou⟩ := readExportTables_bounded hexp
  exact { hq with exportCount := hlen, exports := hbou }

theorem encodable_parseImports {de : Bool}
    (h : q.parseImports de = .ok q') : Encodable q'.model := by
  unfold Parser.parseImports at h
  generalize (if de then q.model.info.delayImports else q.model.info.imports) = range at h
  generalize (if de then delayImportDescriptorSize else importDescriptorSize) = size at h
  dsimp only at h
  split at h
  · cases h
    exact hq
  simp only [malformed, peError, guard_eq_ok, bind_eq_ok] at h
  obtain ⟨-, _, -, ds, hd, h⟩ := h
  cases h
  obtain ⟨hlen, hbou⟩ := readDescriptors_bounded hd
  have hl : ds.length ≤ maxImportDlls := hlen.trans (min_le_right _ _)
  cases de with
  | false => exact { hq with importCount := hl, imports := hbou }
  | true => exact { hq with delayImportCount := hl, delayImports := hbou }

theorem encodable_parseRuntimeFunctions
    (h : q.parseRuntimeFunctions = .ok q') : Encodable q'.model := by
  dsimp only [Parser.parseRuntimeFunctions] at h
  split at h
  · cases h
    exact hq
  simp only [malformed, peError, guard_eq_ok, bind_eq_ok] at h
  obtain ⟨-, _, -, hc, rt, hrun, _, -, _, -, h⟩ := h
  cases h
  obtain ⟨hlen, hk⟩ := readRuntimeFunctions_known hrun
  exact { hq with functionCount := hlen.le.trans (not_lt.1 hc), functions := hk }

theorem encodable_parseTls (h : q.parseTls = .ok q') : Encodable q'.model := by
  dsimp only [parseTls] at h
  split at h
  · cases h
    exact hq
  split at h
  · cases h
    exact hq
  · simp only [bind_eq_ok] at h
    obtain ⟨_, -, _, -, _, -, _, -, _, -, _, -, cbs, hcal, h⟩ := h
    cases h
    exact { hq with callbackCount := length_readCallbackVas hcal }

theorem encodable_parseRelocations (h : q.parseRelocations = .ok q') : Encodable q'.model := by
  dsimp only [Parser.parseRelocations] at h
  split at h
  · cases h
    exact hq
  · simp only [malformed, peError, guard_eq_ok, bind_eq_ok] at h
    obtain ⟨-, _, -, bs, hblo, h⟩ := h
    cases h
    exact { hq with relocationCount := length_readRelocBlocks hblo }

end

/-- **Every image the parser produces is within its limits.** -/
theorem encodable_of_parse {d : ByteString} {m : Model} (h : Parser.parse d = .ok m) :
    Encodable m := by
  simp only [Parser.parse, bind_eq_ok] at h
  obtain ⟨q₀, h₀, q₁, h₁, q₂, h₂, q₃, h₃, q₄, h₄, q₅, h₅, q₆, h₆, h⟩ := h
  cases h
  have hhea := encodable_readHeaders h₀
  have hexp := encodable_parseExports hhea h₁
  have himp := encodable_parseImports hexp h₂
  have hd := encodable_parseImports himp h₃
  have hfun := encodable_parseRuntimeFunctions hd h₄
  have htls := encodable_parseTls hfun h₅
  exact encodable_parseRelocations htls h₆

end Stages

end TradutorLinux.Rust
