import Mathlib.Data.List.TakeWhile
import TradutorLinux.Pe.Stages

/-!
# What the parser reads through file offsets

The parser translates the RVA of a table or of a string once, for its first
bytes (`place`), and goes on in the file from there.  A `Read` is such a table
or string: the place that was translated, and the bytes that were taken from
the file `skip` bytes behind its beginning.

## Main definitions

* `Reads p read` — the parser that ends in state `p` has made this read.

## Main results

* `Reads.inFile`
-/

namespace TradutorLinux.Pe

open List

/-! ### Strings -/

theorem readCstring_spec {d : ByteString} {offset : ℕ} {s : ByteString}
    (h : readCstring d offset = some s) :
    offset + (s ++ [0]).length ≤ d.length ∧
      slice d offset (s ++ [0]).length = s ++ [0] ∧ 0 ∉ s := by
  unfold readCstring at h
  split at h
  · cases h
  next ho =>
  dsimp only at h
  split at h
  · cases h
  next hen =>
  obtain ⟨hne, hl⟩ := not_or.1 hen
  have hs := Option.some.inj h
  rw [hs] at hne hl
  have he : s <+: d.drop offset := by
    rw [← hs]
    exact ( takeWhile_prefix _).trans ( take_prefix _ _)
  obtain ⟨re, hr⟩ := he
  have hn : 0 ∉ s := by
    intro hm
    rw [← hs] at hm
    exact absurd (mem_takeWhile_imp hm) (by decide)
  have hd : (d.drop offset).length = s.length + re.length := by rw [← hr, length_append]
  rw [length_drop] at hd
  cases re with
  | nil =>
    rw [length_nil] at hd
    omega
  | cons b re =>
    -- the scan has stopped at `b`, which is in the scanned part
    have hb : b = 0 := by
      have hc : (s ++ b :: re).take kMaxCString =
          s ++ b :: re.take (kMaxCString - s.length - 1) := by
        have hp : kMaxCString - s.length = kMaxCString - s.length - 1 + 1 := by omega
        rw [take_append, take_of_length_le (by omega), hp, take_succ_cons]
        rfl
      rw [← hr, hc] at hs
      by_contra hb
      have ha : ∀ x ∈ s, (x != 0) := by
        intro x hx
        rw [bne_iff_ne]
        rintro rfl
        exact hn hx
      rw [takeWhile_append_of_pos ha, takeWhile_cons, if_pos (bne_iff_ne.2 hb)]
        at hs
      simp at hs
    subst hb
    rw [length_append, length_singleton]
    refine ⟨by omega, ?_, hn⟩
    unfold slice
    rw [← hr, take_append, take_of_length_le (by omega), Nat.add_sub_cancel_left,
      take_succ_cons, take_zero]

/-! ### The tables of a DLL -/

/-- A read: `place` was translated, and `bytes` were taken from `skip` bytes
behind its beginning. -/
structure Read where
  place : RvaRange
  skip : ℕ
  bytes : ByteString

/-- The RVAs of the name and of the thunk table of an import descriptor. -/
def importName (data : ByteString) (descriptorOffset : ℕ) : UInt32 :=
  (readU32 data (descriptorOffset + 12)).getD 0

def importThunks (data : ByteString) (descriptorOffset : ℕ) : UInt32 :=
  let originalFirstThunk := (readU32 data descriptorOffset).getD 0
  if originalFirstThunk ≠ 0 then originalFirstThunk
  else (readU32 data (descriptorOffset + 16)).getD 0

def delayImportName (data : ByteString) (descriptorOffset : ℕ) : UInt32 :=
  (readU32 data (descriptorOffset + 4)).getD 0

def delayImportThunks (data : ByteString) (descriptorOffset : ℕ) : UInt32 :=
  (readU32 data (descriptorOffset + 16)).getD 0

/-- The reads for a DLL with the given name and thunk table: its name, the
thunks with the terminator, and the names of the symbols that are not by ordinal. -/
inductive ReadsDll (p : PeParser) (nameRva thunkRva : UInt32) (dll : ImportedDll) : Read → Prop
  | name : ReadsDll p nameRva thunkRva dll ⟨⟨nameRva, 1⟩, 0, dll.name ++ [0]⟩
  | thunks {table : ℕ} (htable : p.rvaToFileOffset ⟨thunkRva, 8⟩ = some table) :
    ReadsDll p nameRva thunkRva dll
      ⟨⟨thunkRva, 8⟩, 0, slice p.data table (kThunkEntrySize * (dll.symbols.length + 1))⟩
  | symbol {table k : ℕ} {thunk : UInt64} {symbol : ImportedSymbol}
    (htable : p.rvaToFileOffset ⟨thunkRva, 8⟩ = some table)
    (hthunk : readU64 p.data (table + k * kThunkEntrySize) = some thunk)
    (hsymbol : dll.symbols[k]? = some symbol) (hname : symbol.byOrdinal = false) :
    ReadsDll p nameRva thunkRva dll
      ⟨⟨thunk.toUInt32, 2⟩, kImportByNameHintSize, symbol.name ++ [0]⟩

/-- The read is in the file where its place was translated to. -/
def Read.InFile (p : PeParser) (read : Read) : Prop :=
  ∃ offset, p.rvaToFileOffset read.place = some offset ∧
    offset + read.skip + read.bytes.length ≤ p.data.length ∧
    slice p.data (offset + read.skip) read.bytes.length = read.bytes

variable {dll : ImportedDll}

namespace PeParser

variable {p : PeParser} {loop : ThunkLoop} {dn : ByteString} {iatRva ir : UInt32}
  {table ta : ℕ} {symbols ss : List ImportedSymbol}

theorem readSymbol_name {si : ℕ} {t : UInt64} {s : ImportedSymbol}
    (h : p.readSymbol loop dn ir si t = .ok s) (hn : s.byOrdinal = false) :
    ∃ o, p.rvaToFileOffset ⟨t.toUInt32, 2⟩ = some o ∧
      readCstring p.data (o + kImportByNameHintSize) = some s.name := by
  dsimp only [readSymbol] at h
  split at h
  · cases h
  split at h
  · cases h
    cases hn
  split at h
  · cases h
  split at h
  · cases h
  next o ho =>
  split at h
  · cases h
  next nm hc =>
  cases h
  exact ⟨o, ho, hc⟩

theorem readThunks_spec {rm : ℕ} : ∀ {sy : ℕ} {ss : List ImportedSymbol},
      p.readThunks loop dn ir ta sy rm = .ok ss →
      (∀ k s, ss[k]? = some s → ∃ t, readU64 p.data (ta + (sy + k) * kThunkEntrySize) = some t ∧
        p.readSymbol loop dn ir (sy + k) t = .ok s) ∧
      readU64 p.data (ta + (sy + ss.length) * kThunkEntrySize) = some 0 := by
  induction rm with
  | zero => intro sy ss h; cases h
  | succ rm ih =>
    intro sy ss h
    unfold readThunks at h
    split at h
    · cases h
    next t ht =>
    split at h
    · next hn =>
      cases h
      refine ⟨fun k s hs => ?_, ?_⟩
      · simp at hs
      · rw [length_nil, add_zero, ht, hn]
    · obtain ⟨s, hs, h⟩ := bind_eq_ok.1 h
      obtain ⟨re, hr, h⟩ := bind_eq_ok.1 h
      cases h
      obtain ⟨hh, he⟩ := ih hr
      refine ⟨fun k s' hk => ?_, ?_⟩
      · cases k with
        | zero =>
          cases hk
          exact ⟨t, ht, hs⟩
        | succ k =>
          obtain ⟨t', ht', hs'⟩ := hh k s' hk
          rw [add_assoc, add_comm 1 k] at ht' hs'
          exact ⟨t', ht', hs'⟩
      · rw [length_cons, ← he, add_assoc sy, add_comm 1]

/-- What a descriptor that was read says about its DLL. -/
structure DllRead (p : PeParser) (loop : ThunkLoop) (nameRva thunkRva iatRva : UInt32)
    (dll : ImportedDll) : Prop where
  name : ∃ offset, p.rvaToFileOffset ⟨nameRva, 1⟩ = some offset ∧
    readCstring p.data offset = some dll.name
  symbols : ∃ table, p.rvaToFileOffset ⟨thunkRva, 8⟩ = some table ∧
    p.readThunks loop dll.name iatRva table 0 kMaxSymbolsPerDll = .ok dll.symbols

theorem readImportDescriptor_spec {di i : ℕ} (h : p.readImportDescriptor di i = .ok (some dll)) :
    ∃ ir, DllRead p importThunkLoop (importName p.data (di + i * kImportDescriptorSize))
      (importThunks p.data (di + i * kImportDescriptorSize)) ir dll := by
  dsimp only [readImportDescriptor] at h
  split at h
  · cases h
  split at h
  · cases h
  split at h
  · cases h
  next n hn =>
  split at h
  · cases h
  next dn hc =>
  rw [show (if (readU32 p.data (di + i * kImportDescriptorSize)).getD 0 ≠ 0 then
        (readU32 p.data (di + i * kImportDescriptorSize)).getD 0
      else (readU32 p.data (di + i * kImportDescriptorSize + 16)).getD 0) =
    importThunks p.data (di + i * kImportDescriptorSize) from rfl] at h
  split at h
  · cases h
  split at h
  · cases h
  next ta ht =>
  obtain ⟨ss, hs, h⟩ := bind_eq_ok.1 h
  cases h
  exact ⟨_, ⟨n, hn, hc⟩, ta, ht, hs⟩

theorem readDelayImportDescriptor_spec {di i : ℕ}
    (h : p.readDelayImportDescriptor di i = .ok (some dll)) :
    ∃ ir, DllRead p delayImportThunkLoop
      (delayImportName p.data (di + i * kDelayImportDescriptorSize))
      (delayImportThunks p.data (di + i * kDelayImportDescriptorSize)) ir dll := by
  dsimp only [readDelayImportDescriptor] at h
  split at h
  · cases h
  split at h
  · cases h
  split at h
  · cases h
  split at h
  · cases h
  next n hn =>
  split at h
  · cases h
  next dn hc =>
  split at h
  · cases h
  next ta ht =>
  obtain ⟨ss, hs, h⟩ := bind_eq_ok.1 h
  cases h
  exact ⟨_, ⟨n, hn, hc⟩, ta, ht, hs⟩

theorem readDescriptors_spec {rd : ℕ → Except Failure (Option ImportedDll)}
    {u : ByteString} {rm : ℕ} :
    ∀ {ix : ℕ} {ds : List ImportedDll}, readDescriptors rd u ix rm = .ok ds →
      ∀ i dll, ds[i]? = some dll → rd (ix + i) = .ok (some dll) := by
  induction rm with
  | zero => intro ix ds h; cases h
  | succ rm ih =>
    intro ix ds h i dll hi
    obtain ⟨hd, hh, h⟩ := bind_eq_ok.1 h
    cases hd with
    | none =>
      cases h
      simp at hi
    | some f =>
      obtain ⟨re, hr, h⟩ := bind_eq_ok.1 h
      cases h
      cases i with
      | zero =>
        cases hi
        exact hh
      | succ i =>
        have hn := ih hr i dll hi
        rwa [add_assoc, add_comm 1] at hn

end PeParser

/-! ### Words of the file -/

theorem readU64_le {d : ByteString} {o : ℕ} {v : UInt64}
    (h : readU64 d o = some v) : o + 8 ≤ d.length := by
  unfold readU64 at h
  by_contra hl
  rw [readLE_of_lt (not_le.1 hl)] at h
  cases h

theorem ReadsDll.inFile {p : PeParser} {loop : PeParser.ThunkLoop} {nr tr ir : UInt32} {re : Read}
    (hd : p.DllRead loop nr tr ir dll) (h : ReadsDll p nr tr dll re) : re.InFile p := by
  obtain ⟨⟨n, hn, hc⟩, ta, ht, hm⟩ := hd
  obtain ⟨hh, hen⟩ := PeParser.readThunks_spec hm
  cases h with
  | name =>
    obtain ⟨hl, hs, -⟩ := readCstring_spec hc
    exact ⟨n, hn, hl, hs⟩
  | thunks ha' =>
    cases ht.symm.trans ha'
    have hl := readU64_le hen
    have he : ta + kThunkEntrySize * (dll.symbols.length + 1) ≤ p.data.length := by
      unfold kThunkEntrySize at hl ⊢
      omega
    refine ⟨ta, ht, ?_, ?_⟩
    · rw [length_slice_of_le he]
      exact he
    · rw [length_slice_of_le he]
      rfl
  | symbol ha' hth hy hb =>
    cases ht.symm.trans ha'
    obtain ⟨t', ht', hr⟩ := hh _ _ hy
    rw [zero_add, hth] at ht'
    cases ht'
    obtain ⟨o, ho, hc'⟩ := PeParser.readSymbol_name hr hb
    obtain ⟨hl, hs, -⟩ := readCstring_spec hc'
    exact ⟨o, ho, hl, hs⟩

/-! ### The tables of the export directory -/

def exportNameCount (data : ByteString) (directory : ℕ) : UInt32 :=
  (readU32 data (directory + 24)).getD 0

def exportNamesRva (data : ByteString) (directory : ℕ) : UInt32 :=
  (readU32 data (directory + 32)).getD 0

/-- Entry number `j` of the name table at `namesTable` leads to the string `name`. -/
def NameEntry (p : PeParser) (namesTable j : ℕ) (nameRva : UInt32) (name : ByteString) : Prop :=
  readU32 p.data (namesTable + j * 4) = some nameRva ∧
    ∃ offset, p.rvaToFileOffset ⟨nameRva, 1⟩ = some offset ∧ readCstring p.data offset = some name

namespace PeParser

variable {p : PeParser}

theorem readExportNames_spec {nt ot re : ℕ} : ∀ {i : ℕ} {n n' : List (Option ByteString)},
      p.readExportNames nt ot i re n = .ok n' →
      ∀ name, some name ∈ n' → some name ∈ n ∨
        ∃ j nr, j < i + re ∧ NameEntry p nt j nr name := by
  induction re with
  | zero =>
    intro i n n' h name hn
    cases h
    exact .inl hn
  | succ re ih =>
    intro i n n' h name hn
    unfold readExportNames at h
    split at h
    swap
    · cases h
    next nr fi hr hi =>
    split at h
    · cases h
    split at h
    · cases h
    next o ho =>
    split at h
    · cases h
    next s hs =>
    split at h
    · cases h
    rcases ih h name hn with hold | ⟨j, nr', hj, he⟩
    · rcases mem_or_eq_of_mem_set hold with hold | hw
      · exact .inl hold
      · cases hw
        exact .inr ⟨i, nr, by omega, hr, o, ho, hs⟩
    · exact .inr ⟨j, nr', by omega, he⟩

/-- A named export has the name of its function, and a forwarder was read where
the export's address leads. -/
theorem readExports_spec {o : UInt32} {rs : List UInt32} :
    ∀ {i : ℕ} {names : List (Option ByteString)} {e : List ExportedSymbol},
      p.readExports o i rs names = .ok e →
      ∀ s ∈ e, (s.byName → some s.name ∈ names) ∧
        (s.forwarder ≠ [] → ∃ off, p.rvaToFileOffset ⟨s.rva, 1⟩ = some off ∧
          readCstring p.data off = some s.forwarder) := by
  induction rs with
  | nil =>
    intro i names e h s hl
    cases h
    simp at hl
  | cons rv rs ih =>
    intro i names e h s hl
    have hn : (names[i]?.getD none).isSome →
        some ((names[i]?.getD none).getD []) ∈ names := by
      intro hs
      cases hi : names[i]? with
      | none => rw [hi] at hs; cases hs
      | some nm =>
        cases nm with
        | none => rw [hi] at hs; cases hs
        | some nm => exact mem_of_getElem? hi
    unfold readExports at h
    split at h
    · exact ih h s hl
    split at h
    · cases h
    dsimp only at h
    split at h
    · split at h
      · cases h
      next off ho =>
      split at h
      · cases h
      next f hf =>
      split at h
      · cases h
      obtain ⟨re, hr, h⟩ := bind_eq_ok.1 h
      cases h
      rcases mem_cons.1 hl with rfl | hm
      · exact ⟨hn, fun _ => ⟨off, ho, hf⟩⟩
      · exact ih hr s hm
    · obtain ⟨re, hr, h⟩ := bind_eq_ok.1 h
      cases h
      rcases mem_cons.1 hl with rfl | hm
      · exact ⟨hn, fun he => absurd rfl he⟩
      · exact ih hr s hm

theorem readExportTables_spec {di : ℕ} {o : UInt32} {e : List ExportedSymbol}
    (h : p.readExportTables di = .ok (o, e)) :
    ∀ s ∈ e, (s.byName → ∃ nt j nr, p.rvaToFileOffset
          ⟨exportNamesRva p.data di, exportNameCount p.data di * 4⟩ = some nt ∧
        j < (exportNameCount p.data di).toNat ∧
        NameEntry p nt j nr s.name) ∧
      (s.forwarder ≠ [] → ∃ off, p.rvaToFileOffset ⟨s.rva, 1⟩ = some off ∧
        readCstring p.data off = some s.forwarder) := by
  intro s hs
  dsimp only [readExportTables] at h
  rw [show (readU32 p.data (di + 24)).getD 0 = exportNameCount p.data di from rfl,
    show (readU32 p.data (di + 32)).getD 0 = exportNamesRva p.data di from rfl] at h
  split at h
  · cases h
  split at h
  · cases h
  split at h
  · cases h
  split at h
  · cases h
  split at h
  · cases h
  simp only [bind_eq_ok] at h
  obtain ⟨fr, -, n, hn, e', hx, h⟩ := h
  cases h
  obtain ⟨hb, hf⟩ := readExports_spec hx s hs
  refine ⟨fun ha => ?_, hf⟩
  have hm := hb ha
  split at hn
  · split at hn
    · next nt ot ht ho =>
      rcases readExportNames_spec hn _ hm with hold | ⟨j, nr, hj, he⟩
      · exact absurd (eq_of_mem_replicate hold) (by simp)
      · rw [zero_add] at hj
        exact ⟨nt, j, nr, ht, hj, he⟩
    · cases hn
  · cases hn
    exact absurd (eq_of_mem_replicate hm) (by simp)

end PeParser

/-! ### All reads -/

/-- The parser that ends in state `p` has made this read. -/
inductive Reads (p : PeParser) : Read → Prop
  | imported {directory i : ℕ} {dll : ImportedDll} {read : Read}
    (hdirectory : p.rvaToFileOffset
      ⟨p.parserState.importDirectoryRva, p.parserState.importDirectorySize⟩ = some directory)
    (hdll : p.parserState.imports[i]? = some dll)
    (hread : ReadsDll p (importName p.data (directory + i * kImportDescriptorSize))
      (importThunks p.data (directory + i * kImportDescriptorSize)) dll read) : Reads p read
  | delayImported {directory i : ℕ} {dll : ImportedDll} {read : Read}
    (hdirectory : p.rvaToFileOffset
      ⟨p.parserState.delayImportDirectoryRva, p.parserState.delayImportDirectorySize⟩ =
        some directory)
    (hdll : p.parserState.delayImports[i]? = some dll)
    (hread : ReadsDll p (delayImportName p.data (directory + i * kDelayImportDescriptorSize))
      (delayImportThunks p.data (directory + i * kDelayImportDescriptorSize)) dll read) :
    Reads p read
  | exportName {directory namesTable j : ℕ} {nameRva : UInt32} {name : ByteString}
    (hpresent : p.parserState.exportDirectorySize ≠ 0)
    (hdirectory : p.rvaToFileOffset
      ⟨p.parserState.exportDirectoryRva, p.parserState.exportDirectorySize⟩ = some directory)
    (htable : p.rvaToFileOffset
      ⟨exportNamesRva p.data directory, exportNameCount p.data directory * 4⟩ = some namesTable)
    (hj : j < (exportNameCount p.data directory).toNat)
    (hentry : NameEntry p namesTable j nameRva name) :
    Reads p ⟨⟨nameRva, 1⟩, 0, name ++ [0]⟩
  | forwarder {symbol : ExportedSymbol} (hsymbol : symbol ∈ p.parserState.exports)
    (hforwarder : symbol.forwarder ≠ []) :
    Reads p ⟨⟨symbol.rva, 1⟩, 0, symbol.forwarder ++ [0]⟩

variable {data d : ByteString} {r : ParseResult}

/-- **The bytes of a read are those of the file behind the translated place.** -/
theorem Reads.inFile (hp : parsePe d = .ok r) {re : Read}
    (h : Reads (r.parser d) re) : re.InFile (r.parser d) := by
  obtain ⟨himp, hde, hx⟩ := parsePe_ok hp
  cases h with
  | imported hi hdl hr =>
    rcases himp with hn | ⟨d', hi', hd⟩
    · have hd' : r.info.imports[_]? = some _ := hdl
      rw [hn] at hd'
      simp at hd'
    · cases hi.symm.trans hi'
      have he := PeParser.readDescriptors_spec hd _ _ hdl
      rw [zero_add] at he
      obtain ⟨ir, hsp⟩ := PeParser.readImportDescriptor_spec he
      exact hr.inFile hsp
  | delayImported hi hdl hr =>
    rcases hde with hn | ⟨d', hi', hd⟩
    · have hd' : r.info.delayImports[_]? = some _ := hdl
      rw [hn] at hd'
      simp at hd'
    · cases hi.symm.trans hi'
      have he := PeParser.readDescriptors_spec hd _ _ hdl
      rw [zero_add] at he
      obtain ⟨ir, hsp⟩ := PeParser.readDelayImportDescriptor_spec he
      exact hr.inFile hsp
  | exportName _ _ _ _ hy =>
    obtain ⟨-, off, ho, hna⟩ := hy
    obtain ⟨hle, hs, -⟩ := readCstring_spec hna
    exact ⟨off, ho, hle, hs⟩
  | forwarder hl hf =>
    rcases hx with hn | ⟨-, di, o, -, ha⟩
    · have hs' : _ ∈ r.info.exports := hl
      rw [hn] at hs'
      simp at hs'
    · obtain ⟨-, hr⟩ := PeParser.readExportTables_spec ha _ hl
      obtain ⟨off, ho, ht⟩ := hr hf
      obtain ⟨hle, hs, -⟩ := readCstring_spec ht
      exact ⟨off, ho, hle, hs⟩

end TradutorLinux.Pe
