import TradutorLinux.Pe.FunctionTable

/-!
# The handlers of an accepted image

A record with a handler names code that has a place in the file, so it lies in
the image.  Its data begin behind the handler; they may be empty, at the end of
the image.

## Main definitions

* `HandlersInImage` — what the reader checks of every handler.

## Main results

* `handlersInImage_of_parsePe`
-/

namespace TradutorLinux.Pe

open List

/-- Handlers are in the image, and their data end with it at the latest. -/
def HandlersInImage (sizeOfImage : UInt32) (functions : List RuntimeFunction) : Prop :=
  ∀ f ∈ functions, f.unwind.flags &&& (kUnwindFlagEHandler ||| kUnwindFlagUHandler) ≠ 0 →
    f.unwind.handlerRva.toNat < sizeOfImage.toNat ∧
      f.unwind.handlerDataRva.toNat ≤ sizeOfImage.toNat

/-- The headers and the sections are in the image. -/
structure PeParser.InImage (p : PeParser) : Prop where
  headers : p.parserState.sizeOfHeaders.toNat ≤ p.parserState.sizeOfImage.toNat
  sections : ∀ s ∈ p.parserState.sections, s.span ≠ 0 →
    s.sectionEnd ≤ p.parserState.sizeOfImage.toNat

theorem readSections_inImage {d : ByteString} {i : PeInfo} {re : ℕ} :
    ∀ {o : ℕ} {ss : List SectionInfo}, readSections d i o re = .ok ss →
      ∀ s ∈ ss, s.span ≠ 0 → s.sectionEnd ≤ i.sizeOfImage.toNat := by
  induction re with
  | zero =>
    intro o ss h
    cases h
    simp
  | succ re ih =>
    intro o ss h
    dsimp only [readSections] at h
    split at h
    · cases h
    next hp =>
    split at h
    · cases h
    obtain ⟨r, hr, h⟩ := bind_eq_ok.1 h
    cases h
    intro s hs hsp
    rcases mem_cons.1 hs with rfl | hs
    · exact not_lt.1 fun hl => hp ⟨hsp, .inr hl⟩
    · exact ih hr s hs hsp

theorem readHeaders_inImage {d : ByteString} {p : PeParser} (h : readHeaders d = .ok p) :
    p.InImage := by
  simp only [readHeaders, bind_eq_ok] at h
  obtain ⟨n, -, c, -, i, hi, ss, hs, h⟩ := h
  cases h
  have hb := readSections_inImage hs
  refine ⟨?_, hb⟩
  dsimp only [readOptionalHeader] at hi
  split at hi
  · cases hi
  split at hi
  · cases hi
  split at hi
  · cases hi
  next ha =>
  split at hi
  · cases hi
  split at hi
  · cases hi
  cases hi
  rw [Bool.not_eq_true', Bool.not_eq_false] at ha
  unfold validAlignment at ha
  simp only [Bool.not_eq_true', Bool.or_eq_false_iff, decide_eq_false_iff_not, gt_iff_lt,
    UInt32.not_lt, UInt32.le_iff_toNat_le] at ha
  exact ha.1.1.1.1.1.2

theorem SameHeaders.inImage {p p' : PeParser} (h : SameHeaders p p') (hi : p.InImage) :
    p'.InImage := by
  constructor
  · rw [h.sizeOfHeaders, h.sizeOfImage]
    exact hi.headers
  · rw [h.sections, h.sizeOfImage]
    exact hi.sections

namespace PeParser

variable {p p' : PeParser}

theorem InImage.rva_lt (hi : p.InImage) {r l : UInt32} (he : 0 < l.toNat)
    {o : ℕ} (h : p.rvaToFileOffset ⟨r, l⟩ = some o) :
    r.toNat < p.parserState.sizeOfImage.toNat := by
  dsimp only [rvaToFileOffset] at h
  split at h
  · next hh =>
    have hle := hi.headers
    omega
  · split at h
    · cases h
    next s hs =>
    have hc := find?_some hs
    rw [SectionInfo.covers_iff] at hc
    have hp : s.span ≠ 0 := by
      intro hz
      have hl := hc.2
      unfold SectionInfo.sectionEnd at hl
      omega
    exact lt_of_lt_of_le hc.2 (hi.sections s (mem_of_find?_eq_some hs) hp)

theorem readUnwindTail_handler (hi : p.InImage) {tr : UInt32} {uw uw' : UnwindInfo}
    (h : p.readUnwindTail tr uw = .ok uw')
    (hf : uw'.flags &&& (kUnwindFlagEHandler ||| kUnwindFlagUHandler) ≠ 0) :
    uw'.handlerRva.toNat < p.parserState.sizeOfImage.toNat ∧
      uw'.handlerDataRva.toNat ≤ p.parserState.sizeOfImage.toNat := by
  unfold readUnwindTail at h
  split at h
  · split at h
    · cases h
    next hb =>
    rw [ne_eq, not_not] at hb
    split at h
    · cases h
    · cases h
      exact absurd hb hf
  split at h
  · split at h
    · cases h
    dsimp only at h
    split at h
    · cases h
    next hh =>
    split at h
    · cases h
    next hd =>
    cases h
    rw [not_or] at hh
    obtain ⟨o, ho⟩ := Option.ne_none_iff_exists'.1 hh.2
    refine ⟨hi.rva_lt (by decide) ho, ?_⟩
    have hs := p.parserState.sizeOfImage.toNat_lt
    rw [UInt32.toNat_ofNat_of_lt' (show tr.toNat + 4 < 2 ^ 32 by omega)]
    omega
  · next hn =>
    cases h
    exact absurd hf hn

theorem parseUnwindInfo_handler (hi : p.InImage) {ur br er : UInt32}
    {uw : UnwindInfo} (h : p.parseUnwindInfo ur br er = .ok uw)
    (hf : uw.flags &&& (kUnwindFlagEHandler ||| kUnwindFlagUHandler) ≠ 0) :
    uw.handlerRva.toNat < p.parserState.sizeOfImage.toNat ∧
      uw.handlerDataRva.toNat ≤ p.parserState.sizeOfImage.toNat := by
  unfold parseUnwindInfo at h
  split at h
  · cases h
  split at h
  · cases h
  dsimp only at h
  split at h
  · cases h
  split at h
  · cases h
  split at h
  · cases h
  split at h
  · cases h
  obtain ⟨⟨es, s⟩, -, h⟩ := bind_eq_ok.1 h
  obtain ⟨⟨cs, e⟩, -, h⟩ := bind_eq_ok.1 h
  dsimp only at h
  split at h
  · cases h
  exact readUnwindTail_handler hi h hf

theorem readRuntimeFunctions_handlers (hi : p.InImage) {d re : ℕ} :
    ∀ {i : ℕ} {pe : Option UInt32} {functions : List RuntimeFunction},
      p.readRuntimeFunctions d i re pe = .ok functions →
      HandlersInImage p.parserState.sizeOfImage functions := by
  induction re with
  | zero =>
    intro i pe functions h
    cases h
    exact fun f hf => absurd hf not_mem_nil
  | succ re ih =>
    intro i pe functions h
    dsimp only [readRuntimeFunctions] at h
    split at h
    · cases h
    split at h
    · cases h
    obtain ⟨uw, hu, h⟩ := bind_eq_ok.1 h
    obtain ⟨r, hr, h⟩ := bind_eq_ok.1 h
    cases h
    intro f hf hl
    rcases mem_cons.1 hf with rfl | hf
    · exact parseUnwindInfo_handler hi hu hl
    · exact ih hr f hf hl

theorem parseRuntimeFunctions_handlers (hi : p.InImage) (h : p.parseRuntimeFunctions = .ok p')
    (hn : p.parserState.runtimeFunctions = []) :
    HandlersInImage p.parserState.sizeOfImage p'.parserState.runtimeFunctions := by
  have he : HandlersInImage p.parserState.sizeOfImage p.parserState.runtimeFunctions := by
    rw [hn]
    exact fun f hf => absurd hf not_mem_nil
  dsimp only [parseRuntimeFunctions] at h
  split at h
  · cases h
    exact he
  split at h
  · cases h
  split at h
  · split at h
    · cases h
      obtain ⟨ws, hw⟩ := recordUninitializedDirectory_eq p (text "exceções")
      rw [hw]
      exact he
    · cases h
  split at h
  · cases h
  simp only [bind_eq_ok] at h
  obtain ⟨fn, hu, ts, -, _, -, h⟩ := h
  cases h
  exact readRuntimeFunctions_handlers hi hu

end PeParser

/-- **The handlers of an accepted image.** -/
theorem handlersInImage_of_parsePe {d : ByteString} {r : ParseResult} (h : parsePe d = .ok r) :
    HandlersInImage r.info.sizeOfImage r.info.runtimeFunctions := by
  obtain ⟨p₀, p, q, hp₀, hs, hn, hq, hf, hi⟩ := runtimeFunctions_of_parsePe h
  rw [hf, hi]
  exact PeParser.parseRuntimeFunctions_handlers (hs.inImage (readHeaders_inImage hp₀)) hq hn

end TradutorLinux.Pe
