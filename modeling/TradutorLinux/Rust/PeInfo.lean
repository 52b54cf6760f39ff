import TradutorLinux.Rust.PeParser
import TradutorLinux.Pe.Reader
import TradutorLinux.Util.Agree

/-!
# The image of the Rust parser as a `PeInfo`

The two parsers report the same kind of image in records of their own.  Here
are the translation of the one into the other and the facts both parsers are
compared through: the readers read the same words, and an address lies at the
same place of the file.

## Main definitions

* `SameError`
* `Tracks p q` — the two parsers have the same input and the same image so far.

## Main results

* `Tracks.rvaToFileOffset` — the address translations agree.
-/

namespace TradutorLinux.Rust

open List Option Reader

open Pe (PeInfo PeParser ParseStatus Failure RvaRange)

/-! ### Translation of the records -/

def Section.toPe (s : Section) : Pe.SectionInfo :=
  { name := s.name
    virtualAddress := s.virtualAddress
    virtualSize := s.virtualSize
    rawDataPointer := s.rawDataPointer
    rawDataSize := s.rawDataSize
    characteristics := s.characteristics }

def Symbol.toPe (s : Symbol) : Pe.ImportedSymbol :=
  { byOrdinal := s.byOrdinal, ordinal := s.ordinal, name := s.name, iatRva := s.iatRva }

def Dll.toPe (d : Dll) : Pe.ImportedDll := ⟨d.name, d.symbols.map Symbol.toPe⟩

def Export.toPe (e : Export) : Pe.ExportedSymbol :=
  { byName := e.byName, name := e.name, ordinal := e.ordinal, rva := e.rva
    forwarder := e.forwarder }

def RelocEntry.toPe (e : RelocEntry) : Pe.BaseRelocEntry := ⟨e.kind, e.offset⟩

def RelocBlock.toPe (b : RelocBlock) : Pe.BaseRelocBlock :=
  ⟨b.pageRva, b.entries.map RelocEntry.toPe⟩

/-- The operation with the given number; numbers without one do not occur in
an image the parser accepts. -/
def unwindOperation (op : UInt8) : Pe.UnwindOperation :=
  match op.toNat with
  | 1 => .allocLarge
  | 2 => .allocSmall
  | 3 => .setFpReg
  | 4 => .saveNonVol
  | 5 => .saveNonVolFar
  | 8 => .saveXmm128
  | 9 => .saveXmm128Far
  | 10 => .pushMachFrame
  | _ => .pushNonVol

def UnwindCode.toPe (c : UnwindCode) : Pe.UnwindCode :=
  ⟨c.codeOffset, unwindOperation c.operation, c.operationInfo, c.operand⟩

def Epilog.toPe (e : Epilog) : Pe.UnwindEpilog := ⟨e.beginRva, e.endRva⟩

def Unwind.toPe (u : Unwind) : Pe.UnwindInfo :=
  { version := u.version
    flags := u.flags
    prologSize := u.prologSize
    frameRegister := u.frameRegister
    frameOffset := u.frameOffset
    codes := u.codes.map UnwindCode.toPe
    epilogs := u.epilogs.map Epilog.toPe
    hasExtendedSetFpreg := u.extendedSetFpreg
    handlerRva := u.handlerRva
    handlerDataRva := u.handlerDataRva
    hasChainedFunction := u.chained.isSome
    chainedBeginRva := (u.chained.map Chain.beginRva).getD 0
    chainedEndRva := (u.chained.map Chain.endRva).getD 0
    chainedUnwindInfoRva := (u.chained.map Chain.unwindInfoRva).getD 0 }

def RuntimeFunction.toPe (f : RuntimeFunction) : Pe.RuntimeFunction :=
  ⟨f.beginRva, f.endRva, f.unwindInfoRva, f.unwind.toPe⟩

def Tls.toPe (t : Tls) : Pe.TlsDirectoryInfo :=
  { startAddressOfRawData := t.startAddressOfRawData
    endAddressOfRawData := t.endAddressOfRawData
    addressOfIndex := t.addressOfIndex
    addressOfCallbacks := t.addressOfCallbacks
    sizeOfZeroFill := t.sizeOfZeroFill
    characteristics := t.characteristics
    callbackVas := t.callbackVas }

/-- The image as the C++ loader's record. -/
def Model.toPeInfo (m : Model) : PeInfo :=
  { isPe32Plus := m.info.isPe32Plus
    isDll := m.info.isDll
    machine := m.info.machine
    numberOfSections := m.info.numberOfSections
    addressOfEntryPoint := m.info.entryPoint
    imageBase := m.info.imageBase
    sectionAlignment := m.info.sectionAlignment
    sizeOfImage := m.info.sizeOfImage
    sizeOfHeaders := m.info.sizeOfHeaders
    subsystem := m.info.subsystem
    importDirectoryRva := m.info.imports.rva
    importDirectorySize := m.info.imports.size
    exportDirectoryRva := m.info.exports.rva
    exportDirectorySize := m.info.exports.size
    exportOrdinalBase := m.info.exportOrdinalBase
    resourceDirectoryRva := m.info.resources.rva
    resourceDirectorySize := m.info.resources.size
    exceptionDirectoryRva := m.info.exceptions.rva
    exceptionDirectorySize := m.info.exceptions.size
    relocationDirectoryRva := m.info.relocations.rva
    relocationDirectorySize := m.info.relocations.size
    delayImportDirectoryRva := m.info.delayImports.rva
    delayImportDirectorySize := m.info.delayImports.size
    tlsDirectoryRva := m.info.tlsDirectory.rva
    tlsDirectorySize := m.info.tlsDirectory.size
    tlsInfo := m.info.tls.toPe
    sections := m.sections.map Section.toPe
    imports := m.imports.map Dll.toPe
    exports := m.exports.map Export.toPe
    delayImports := m.delayImports.map Dll.toPe
    runtimeFunctions := m.runtimeFunctions.map RuntimeFunction.toPe
    relocations := m.relocations.map RelocBlock.toPe }

/-! ### Rejections -/

/-- The number of a C++ status in the FFI contract. -/
def statusOf : ParseStatus → ℕ
  | .success => 0
  | .truncated => statusTruncated
  | .malformed => statusMalformed
  | .unsupportedArchitecture => statusUnsupportedArchitecture
  | .unsupportedFormat => statusUnsupportedFormat
  | .unsupportedMechanism => statusUnsupportedMechanism

/-- Two rejections with the same status.  A count beyond its limit is
malformed for C++ and an input too large for Rust. -/
def SameError (f : Failure) (e : PeError) : Prop :=
  e.status = statusOf f.status ∨ (f.status = .malformed ∧ e.status = statusInputTooLarge)

section Rejections

variable {α β : Type} {R : α → β → Prop} {msg msg' : ByteString}
  {code co ph offset ot o detail : ℕ}

theorem agree_malformed : Agree SameError R (Pe.fail .malformed msg)
    (malformed co ph o detail msg') := .inl rfl

theorem agree_truncated : Agree SameError R (Pe.fail .truncated msg)
    (truncated ph o detail msg') := .inl rfl

theorem agree_unsupportedMechanism : Agree SameError R (Pe.fail .unsupportedMechanism msg)
    (peError statusUnsupportedMechanism co ph o detail msg') := .inl rfl

theorem agree_inputTooLarge : Agree SameError R (Pe.fail .malformed msg)
    (peError statusInputTooLarge co ph o detail msg') := .inr ⟨rfl, rfl⟩

end Rejections

/-! ### Reading the same words -/

theorem Reader.u16_eq (data : ByteString) (offset : ℕ) :
    u16 data offset = Pe.readU16 data offset := by
  unfold u16 Reader.bytes Pe.readU16 readLE
  split <;> rfl

theorem Reader.u32_eq (data : ByteString) (offset : ℕ) :
    u32 data offset = Pe.readU32 data offset := by
  unfold u32 Reader.bytes Pe.readU32 readLE
  split <;> rfl

theorem Reader.u64_eq (data : ByteString) (offset : ℕ) :
    u64 data offset = Pe.readU64 data offset := by
  unfold u64 Reader.bytes Pe.readU64 readLE
  split <;> rfl

theorem Reader.scanCString_eq (bs : ByteString) (li : ℕ) : scanCString bs li =
      if ((bs.take li).takeWhile (· != 0)).length = bs.length ∨
          ((bs.take li).takeWhile (· != 0)).length ≥ li then none
      else some ((bs.take li).takeWhile (· != 0)) := by
  induction bs generalizing li with
  | nil => simp [scanCString]
  | cons b r ih =>
    cases li with
    | zero => simp [scanCString]
    | succ li =>
      by_cases hb : b = 0
      · simp [scanCString, hb]
      rw [scanCString, if_neg hb, ih]
      have hb' : (b != 0) := by simpa using hb
      simp only [take_succ_cons, takeWhile_cons, hb', if_true, length_cons,
        Nat.add_right_cancel_iff, ge_iff_le, Nat.add_le_add_iff_right]
      split <;> rfl

theorem Reader.cstring_eq (data : ByteString) (offset : ℕ) :
    cstring data offset = Pe.readCstring data offset := by
  unfold cstring Pe.readCstring
  by_cases h : offset ≥ data.length
  · rw [if_pos h, if_pos h]
  rw [if_neg h, if_neg h, scanCString_eq]
  have hl : (data.drop offset).length = data.length - offset := length_drop
  have hi : ∀ n : ℕ, n = (data.drop offset).length ↔ offset + n = data.length := by intro n; omega
  simp only [hi]
  rfl

variable {data da : ByteString}

theorem readU16_isSome {o : ℕ} (h : o + 2 ≤ da.length) : ∃ v, Pe.readU16 da o = some v := by
  rw [Pe.readU16, readLE_of_le h]
  exact ⟨_, rfl⟩

theorem readU32_isSome {o : ℕ} (h : o + 4 ≤ da.length) : ∃ v, Pe.readU32 da o = some v := by
  rw [Pe.readU32, readLE_of_le h]
  exact ⟨_, rfl⟩

theorem readU64_isSome {o : ℕ} (h : o + 8 ≤ da.length) : ∃ v, Pe.readU64 da o = some v := by
  rw [Pe.readU64, readLE_of_le h]
  exact ⟨_, rfl⟩

theorem readU64_eq_none {o : ℕ} (h : da.length < o + 8) : Pe.readU64 da o = none := by
  rw [Pe.readU64, readLE_of_lt h]
  rfl

namespace Parser

variable {q : Parser} {offset ot o ph code co : ℕ}

theorem getU16_eq (h : offset + 2 ≤ q.data.length) :
    q.getU16 offset ph code = .ok ((Pe.readU16 q.data offset).getD 0) := by
  obtain ⟨v, hv⟩ := readU16_isSome h
  simp [getU16, u16_eq, hv, getD_some]

theorem getU32_eq (h : offset + 4 ≤ q.data.length) :
    q.getU32 offset ph code = .ok ((Pe.readU32 q.data offset).getD 0) := by
  obtain ⟨v, hv⟩ := readU32_isSome h
  simp [getU32, u32_eq, hv, getD_some]

theorem getU64_eq (h : offset + 8 ≤ q.data.length) :
    q.getU64 offset ph code = .ok ((Pe.readU64 q.data offset).getD 0) := by
  obtain ⟨v, hv⟩ := readU64_isSome h
  simp [getU64, u64_eq, hv, getD_some]

end Parser

/-! ### The same address -/

/-- The parsers have the same input and the same image so far. -/
structure Tracks (p : PeParser) (q : Parser) : Prop where
  data : p.data = q.data
  image : p.parserState = q.model.toPeInfo

theorem Section.span_toPe (s : Section) : s.toPe.span = Parser.span s := by
  change max s.virtualSize.toNat s.rawDataSize.toNat =
    (if s.virtualSize ≤ s.rawDataSize then s.rawDataSize else s.virtualSize).toNat
  split
  · next h => exact Nat.max_eq_right (UInt32.le_iff_toNat_le.1 h)
  · next h => rw [UInt32.le_iff_toNat_le] at h; omega

theorem Section.sectionEnd_toPe (s : Section) : s.toPe.sectionEnd = Parser.sectionEnd s := by
  rw [Pe.SectionInfo.sectionEnd, Section.span_toPe]
  rfl

theorem Section.covers_toPe (s : Section) (rva : ℕ) : s.toPe.covers rva =
      (decide (rva ≥ s.virtualAddress.toNat) && decide (rva < Parser.sectionEnd s)) := by
  rw [Pe.SectionInfo.covers, Section.sectionEnd_toPe]
  rfl

namespace Tracks

variable {p : PeParser} {q : Parser} {rva length l : UInt32} {len ph code co : ℕ}

section

variable (h : Tracks p q)
include h

theorem sizeOfImage : p.parserState.sizeOfImage = q.model.info.sizeOfImage := by rw [h.image]; rfl

theorem sizeOfHeaders : p.parserState.sizeOfHeaders = q.model.info.sizeOfHeaders := by
  rw [h.image]; rfl

theorem sections : p.parserState.sections = q.model.sections.map Section.toPe := by
  rw [h.image]; rfl

/-- **The address translations agree**: the Rust one rejects exactly where the
C++ one has no offset. -/
theorem rvaToFileOffset (hl : len = l.toNat) :
    q.rvaToFileOffset rva len ph co = match p.rvaToFileOffset ⟨rva, l⟩ with
      | some o => .ok o | none => malformed co ph rva.toNat len
        (text "RVA não possui intervalo correspondente no arquivo") := by
  unfold Parser.rvaToFileOffset PeParser.rvaToFileOffset
  rw [h.sizeOfHeaders, h.data, h.sections, find?_map, hl]
  by_cases hi : rva.toNat + l.toNat ≤ q.model.info.sizeOfHeaders.toNat ∧
      rva.toNat + l.toNat ≤ q.data.length
  · simp [hi, and_self]
  · simp only [hi, if_false]
    have hc : ((fun s : Pe.SectionInfo => s.covers rva.toNat) ∘ Section.toPe) =
        fun s : Section => decide (rva.toNat ≥ s.virtualAddress.toNat) &&
          decide (rva.toNat < Parser.sectionEnd s) := by
      funext s
      exact s.covers_toPe rva.toNat
    rw [hc]
    cases q.model.sections.find? _ with
    | none => rfl
    | some s =>
      simp only [map_some, Section.toPe]
      by_cases h1 : rva.toNat - s.virtualAddress.toNat + l.toNat > s.rawDataSize.toNat
      · simp [h1]
      · by_cases h2 : s.rawDataPointer.toNat + (rva.toNat - s.virtualAddress.toNat) +
            l.toNat > q.data.length
        · simp [h1, h2]
        · simp [h1, h2]

theorem rva_ok {offset : ℕ} (ho : p.rvaToFileOffset ⟨rva, length⟩ = some offset)
    (hl : len = length.toNat) : q.rvaToFileOffset rva len ph code = .ok offset := by
  rw [h.rvaToFileOffset hl, ho]

theorem rva_error (ho : p.rvaToFileOffset ⟨rva, l⟩ = none) (hl : len = l.toNat) :
    q.rvaToFileOffset rva len ph co = malformed co ph rva.toNat len
      (text "RVA não possui intervalo correspondente no arquivo") := by
  rw [h.rvaToFileOffset hl, ho]

end

section Steps

variable {α β : Type} {R : α → β → Prop} {msg msg' : ByteString}

theorem agree_rva (h : Tracks p q) {f : ℕ → Except Failure α} {g : ℕ → Except PeError β}
    (hl : len = l.toNat)
    (hf : ∀ o, p.rvaToFileOffset ⟨rva, l⟩ = some o → Agree SameError R (f o) (g o)) :
    Agree SameError R (match p.rvaToFileOffset ⟨rva, l⟩ with
        | none => Pe.fail .malformed msg
        | some o => f o)
      (q.rvaToFileOffset rva len ph co >>= g) := by
  rw [h.rvaToFileOffset hl]
  cases ho : p.rvaToFileOffset ⟨rva, l⟩ with
  | none => exact agree_malformed
  | some o => exact hf o ho

theorem agree_cstring {o : ℕ} {f : ByteString → Except Failure α}
    {g : ByteString → Except PeError β}
    (hf : ∀ s, Agree SameError R (f s) (g s)) :
    Agree SameError R (match Pe.readCstring q.data o with
        | none => Pe.fail .malformed msg
        | some s => f s)
      (q.cstringAt o ph co msg' >>= g) := by
  rw [Parser.cstringAt, cstring_eq]
  cases Pe.readCstring q.data o with
  | none => exact agree_malformed
  | some s => exact hf s

end Steps

end Tracks

end TradutorLinux.Rust
