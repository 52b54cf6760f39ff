import TradutorLinux.Rust.PeInfo
import TradutorLinux.Pe.Chains

/-!
# Unwind data, read by both parsers

The two parsers decode the same epilogs and codes from an `UNWIND_INFO`
record, and find the same chained functions and the same cycles of chains.
The Rust parser looks a chained function up with a linear search and follows
every chain for as many steps as there are entries; the C++ parser uses
`std::lower_bound` on the ordered table and marks the entries it has seen.

## Main definitions

* `TracksUnwind u v` — the two decoders work on the same record.

## Main results

* `parseUnwind_agree`, `parseRuntimeFunctions_agree`
-/

namespace TradutorLinux.Rust

open List Option Parser

open Pe (PeInfo PeParser ParseStatus Failure RvaRange UnwindReader)

/-- The decoders work on the same record, whose codes lie in the file. -/
structure TracksUnwind (u : UnwindReader) (v : UnwindParser) : Prop where
  data : u.data = v.parser.data
  functionBegin : u.functionBeginRva = v.functionBegin
  functionEnd : u.functionEndRva = v.functionEnd
  codeCount : u.codeCount = v.codeCount
  frameRegister : u.frameRegister = v.frameRegister
  frameOffset : u.frameOffset = v.frameOffset
  codes : v.codeCount ≠ 0 → u.codes = v.codesOffset
  inFile : v.codeCount ≠ 0 → v.codesOffset + v.codeCount * 2 ≤ v.parser.data.length

/-- Two 16-bit words make the 32-bit word they lie in. -/
theorem readU32_eq_or {d : ByteString} {off : ℕ} (h : off + 4 ≤ d.length) :
    (Pe.readU32 d off).getD 0 = ((Pe.readU16 d off).getD 0).toUInt32 |||
        (((Pe.readU16 d (off + 2)).getD 0).toUInt32 <<< 16) := by
  have hs : slice d off 4 = slice d off 2 ++ slice d (off + 2) 2 := by
    unfold slice
    rw [show (4 : ℕ) = 2 + 2 from rfl, take_add, drop_drop]
  have hlen : (slice d off 2).length = 2 := length_slice_of_le (by omega)
  have hlow : ofLE (slice d off 2) < 65536 := by
    have := ofLE_lt (slice d off 2)
    rwa [hlen] at this
  have hh : ofLE (slice d (off + 2) 2) < 65536 := by
    have := ofLE_lt (slice d (off + 2) 2)
    rwa [length_slice_of_le (by omega)] at this
  simp only [Pe.readU32, Pe.readU16, readLE_of_le h,
    readLE_of_le (show off + 2 ≤ d.length by omega),
    readLE_of_le (show off + 2 + 2 ≤ d.length by omega), map_some, getD_some]
  rw [hs, ofLE_append, hlen]
  generalize ofLE (slice d off 2) = low at *
  generalize ofLE (slice d (off + 2) 2) = high at *
  apply UInt32.toNat_inj.1
  rw [UInt32.toNat_or, UInt32.toNat_shiftLeft]
  simp only [UInt32.toNat_ofNat', UInt16.toNat_toUInt32, UInt16.toNat_ofNat']
  rw [show (16 : UInt32).toNat % 32 = 16 from rfl, Nat.mod_eq_of_lt (show low < 2 ^ 16 by omega),
    Nat.mod_eq_of_lt (show high < 2 ^ 16 by omega),
    Nat.mod_eq_of_lt (show low + 256 ^ 2 * high < 2 ^ 32 by omega), Nat.or_comm,
    Nat.mod_eq_of_lt (by rw [Nat.shiftLeft_eq]; omega),
    ← Nat.shiftLeft_add_eq_or_of_lt (show low < 2 ^ 16 by omega), Nat.shiftLeft_eq]
  omega

/-! ### Epilogs -/

theorem sortEpilogs_toPe (es : List Epilog) : UnwindReader.sortEpilogs (es.map Epilog.toPe) =
      (UnwindParser.sortEpilogs es).map Epilog.toPe := by
  symm
  apply map_insertionSort
  intro a _ b _
  exact Iff.rfl

theorem hasOverlap_toPe (es : List Epilog) : UnwindReader.hasOverlap (es.map Epilog.toPe) =
      (UnwindParser.findOverlap es).isSome := by
  induction es with
  | nil => rfl
  | cons l re ih =>
    cases re with
    | nil => rfl
    | cons r re =>
      simp only [map_cons, UnwindReader.hasOverlap, UnwindParser.findOverlap] at ih ⊢
      rw [ih]
      by_cases hlt : r.beginRva < l.endRva
      · rw [if_pos hlt, decide_eq_true (show r.toPe.beginRva < l.toPe.endRva from hlt)]
        rfl
      · rw [if_neg hlt, decide_eq_false (show ¬r.toPe.beginRva < l.toPe.endRva from hlt)]
        rfl

namespace TracksUnwind

variable {u : UnwindReader} {v : UnwindParser}

section

variable (h : TracksUnwind u v)
include h

theorem rawCode_eq {s : ℕ} (hs : s < v.codeCount) : v.rawCode s = .ok (u.rawCode s) := by
  have hne : v.codeCount ≠ 0 := by omega
  have hin := h.inFile hne
  unfold UnwindParser.rawCode UnwindReader.rawCode
  rw [Parser.getU16_eq (by omega), h.data, h.codes hne]
  rfl

theorem appendEpilog_agree (es : UInt8) (d : UInt32) :
    Agree SameError (fun c r => c = r.toPe) (u.appendEpilog es d)
      (v.appendEpilog es.toUInt32 d) := by
  unfold UnwindReader.appendEpilog UnwindParser.appendEpilog
  rw [h.functionBegin, h.functionEnd]
  refine Agree.ite Iff.rfl (fun _ => agree_malformed) fun _ => ?_
  refine Agree.ite (by rw [UInt8.toNat_toUInt32]) (fun _ => agree_malformed) fun _ => ?_
  exact rfl

theorem readEpilogs_agree (es : UInt8) (rem : ℕ) : ∀ s, s + rem ≤ v.codeCount →
      Agree SameError (fun c r => c = (r.1.map Epilog.toPe, r.2)) (u.readEpilogs es s rem)
        (v.readEpilogs es.toUInt32 s rem) := by
  induction rem with
  | zero => intro s _; exact rfl
  | succ rem ih =>
    intro s hle
    unfold UnwindReader.readEpilogs UnwindParser.readEpilogs
    rw [h.rawCode_eq (by omega), ok_bind]
    refine Agree.ite Iff.rfl (fun _ => rfl) fun _ => ?_
    refine Agree.ite Iff.rfl (fun _ => rfl) fun _ => ?_
    refine Agree.bind (h.appendEpilog_agree es _) ?_
    rintro _ epilog rfl
    refine Agree.bind (ih (s + 1) (by omega)) ?_
    rintro _ ⟨e, n⟩ rfl
    exact rfl

/-- The decoders agree on the first epilog; its descriptors take at most two
slots. -/
theorem readFirstEpilog_agree (hc : v.codeCount ≠ 0) :
    Agree SameError (fun c r => c = (r.1.toPe, r.2) ∧ r.2 ≤ v.codeCount)
      (if operationInfo (u.rawCode 0) &&& Pe.kUnwindV2EpilogAtFunctionEnd ≠ 0 then
        u.appendEpilog (codeOffset (u.rawCode 0)) (codeOffset (u.rawCode 0)).toUInt32 >>=
          fun e => .ok (e, 1) else if u.codeCount = 1 then
        Pe.fail .malformed (u.emRva "descritor de epílogo V2 sem offset")
      else if Pe.rawOperation (u.rawCode 1) ≠ Pe.kUnwindOpEpilog then
        Pe.fail .malformed (u.emRva "offset de epílogo V2 sem UOP_Epilog")
      else if Pe.distanceFromEnd (u.rawCode 1) = 0 then
        Pe.fail .malformed (u.emRva "offset de epílogo V2 nulo") else
        u.appendEpilog (codeOffset (u.rawCode 0)) (Pe.distanceFromEnd (u.rawCode 1)) >>=
          fun e => .ok (e, 2)) (v.readFirstEpilog (u.rawCode 0)) := by
  refine Agree.ite Iff.rfl (fun _ => ?_) fun _ => ?_
  · refine Agree.bind (h.appendEpilog_agree _ _) ?_
    rintro _ e rfl
    exact ⟨rfl, by omega⟩
  refine Agree.ite (by rw [h.codeCount]; omega) (fun _ => agree_malformed) fun hone => ?_
  have htwo : 1 < v.codeCount := by rw [h.codeCount] at hone; omega
  rw [h.rawCode_eq htwo, ok_bind]
  refine Agree.ite Iff.rfl (fun _ => agree_malformed) fun _ => ?_
  refine Agree.ite Iff.rfl (fun _ => agree_malformed) fun _ => ?_
  refine Agree.bind (h.appendEpilog_agree _ _) ?_
  rintro _ e rfl
  exact ⟨rfl, htwo⟩

theorem readEpilogDescriptors_agree (ver : UInt8) :
    Agree SameError (fun c r => c = (r.1.map Epilog.toPe, r.2))
      (u.readEpilogDescriptors ver) (v.readEpilogDescriptors ver) := by
  unfold UnwindReader.readEpilogDescriptors UnwindParser.readEpilogDescriptors
  by_cases hv : ver = 2 ∧ v.codeCount > 0
  · have hco : v.codeCount ≠ 0 := by omega
    rw [if_pos hv, h.rawCode_eq hv.2, ok_bind]
    by_cases hop : Pe.rawOperation (u.rawCode 0) = Pe.kUnwindOpEpilog
    · have hop' : ¬operation (u.rawCode 0) ≠ 6 := not_not.2 hop
      rw [if_pos ⟨hv.1, by rw [h.codeCount]; exact hco, hop⟩, if_neg hop']
      refine Agree.ite Iff.rfl (fun _ => agree_malformed) fun _ => ?_
      refine Agree.ite Iff.rfl (fun _ => agree_unsupportedMechanism) fun _ => ?_
      refine Agree.bind (h.readFirstEpilog_agree hco) ?_
      rintro _ ⟨e, s⟩ ⟨rfl, hs⟩
      rw [h.codeCount]
      refine Agree.bind (h.readEpilogs_agree _ _ s (by omega)) ?_
      rintro _ ⟨es, n⟩ rfl
      dsimp only
      rw [← map_cons, sortEpilogs_toPe, hasOverlap_toPe]
      cases UnwindParser.findOverlap (UnwindParser.sortEpilogs (e :: es)) with
      | none => exact rfl
      | some br => exact agree_malformed
    · have hop' : operation (u.rawCode 0) ≠ 6 := hop
      rw [if_neg fun hc => hop hc.2.2, if_pos hop']
      exact rfl
  · rw [if_neg hv, if_neg]
    · exact rfl
    · rintro ⟨hver, hne, -⟩
      rw [h.codeCount] at hne
      exact hv ⟨hver, pos_of_ne_zero hne⟩

end

/-! ### Codes -/

/-- The operation numbers that the decoders accept. -/
def operations : List UInt8 := [0, 1, 2, 3, 4, 5, 8, 9, 10]

theorem toNat_of_not_mem {op : UInt8} (hop : op ∉ operations) :
    op.toNat ≠ 0 ∧ op.toNat ≠ 1 ∧ op.toNat ≠ 2 ∧ op.toNat ≠ 3 ∧ op.toNat ≠ 4 ∧ op.toNat ≠ 5 ∧
      op.toNat ≠ 8 ∧ op.toNat ≠ 9 ∧ op.toNat ≠ 10 := by
  have hne : ∀ k : UInt8, k ∈ operations → op.toNat ≠ k.toNat := by
    intro k hk heq
    exact hop (UInt8.toNat_inj.1 heq ▸ hk)
  exact ⟨hne 0 (by decide), hne 1 (by decide), hne 2 (by decide), hne 3 (by decide),
    hne 4 (by decide), hne 5 (by decide), hne 8 (by decide), hne 9 (by decide),
    hne 10 (by decide)⟩

theorem validGpr_eq (register : UInt8) : validGpr register = Pe.isValidGpr register := rfl

/-- A register test of both decoders, written the two ways round. -/
theorem agree_gpr {α β : Type} {R : α → β → Prop} {a : α} {b : β} {msg m' : ByteString}
    {c ph off d : ℕ} (va : Bool) (hR : R a b) :
    Agree SameError R (if va then .ok a else Pe.fail .malformed msg)
      (if (!va) then malformed c ph off d m' else .ok b) := by
  cases va
  · exact agree_malformed
  · exact hR

theorem decodeOperation_agree (h : TracksUnwind u v) (op info : UInt8) :
    Agree SameError (fun c r => c = (unwindOperation op, r) ∧ op ∈ operations)
      (u.decodeOperation op info) (v.extraSlots op info) := by
  unfold UnwindReader.decodeOperation UnwindParser.extraSlots
  by_cases hop : op ∈ operations
  · simp only [operations, mem_cons, not_mem_nil, or_false] at hop
    simp only [validGpr_eq, h.frameRegister, h.frameOffset]
    rcases hop with rfl | rfl | rfl | rfl | rfl | rfl | rfl | rfl | rfl
    · exact agree_gpr (Pe.isValidGpr info) ⟨rfl, by decide⟩
    · refine Agree.ite Iff.rfl (fun _ => ⟨rfl, by decide⟩) fun _ => ?_
      exact Agree.ite Iff.rfl (fun _ => ⟨rfl, by decide⟩) fun _ => agree_malformed
    · exact ⟨rfl, by decide⟩
    · refine Agree.ite Iff.rfl (fun _ => agree_unsupportedMechanism) fun _ => ?_
      exact agree_gpr (Pe.isValidGpr v.frameRegister) ⟨rfl, by decide⟩
    · exact agree_gpr (Pe.isValidGpr info) ⟨rfl, by decide⟩
    · exact agree_gpr (Pe.isValidGpr info) ⟨rfl, by decide⟩
    · exact ⟨rfl, by decide⟩
    · exact ⟨rfl, by decide⟩
    · exact Agree.ite Iff.rfl (fun _ => agree_malformed) fun _ => ⟨rfl, by decide⟩
  · obtain ⟨h0, h1, h2, h3, h4, h5, h8, h9, h10⟩ := toNat_of_not_mem hop
    split <;> first | contradiction | skip
    -- the two decoders match on one number, so one split may decide both
    first
    | exact agree_unsupportedMechanism
    | split <;> first | contradiction | exact agree_unsupportedMechanism

theorem readOperand_agree (h : TracksUnwind u v) {s e : ℕ} {op : UInt8} (i : UInt8)
    (hop : op ∈ operations) (hin : s + e < v.codeCount) :
    Agree SameError Eq (u.readOperand s e (unwindOperation op) i) (v.readOperand s e op i) := by
  have hne : v.codeCount ≠ 0 := by omega
  have hf := h.inFile hne
  unfold UnwindReader.readOperand UnwindParser.readOperand
  by_cases h1 : e = 1
  · subst h1
    rw [if_pos rfl, if_pos rfl, h.rawCode_eq (by omega), ok_bind]
    simp only [operations, mem_cons, not_mem_nil, or_false] at hop
    rcases hop with rfl | rfl | rfl | rfl | rfl | rfl | rfl | rfl | rfl <;> exact rfl
  rw [if_neg h1, if_neg h1]
  by_cases h2 : e = 2
  · subst h2
    rw [if_pos rfl, if_pos rfl, h.rawCode_eq (by omega), ok_bind, h.rawCode_eq (by omega), ok_bind]
    have hw : (Pe.readU32 u.data (u.codes + (s + 1) * Pe.kUnwindCodeSize)).getD 0 =
        (u.rawCode (s + 1)).toUInt32 ||| ((u.rawCode (s + 2)).toUInt32 <<< 16) := by
      unfold UnwindReader.rawCode
      simp only [Pe.kUnwindCodeSize]
      rw [readU32_eq_or (by rw [h.data, h.codes hne]; omega)]
      rw [show u.codes + (s + 1) * 2 + 2 = u.codes + (s + 2) * 2 by ring]
    simp only [hw]
    simp only [operations, mem_cons, not_mem_nil, or_false] at hop
    refine Agree.ite ?_ (fun _ => agree_malformed) fun _ => rfl
    rcases hop with rfl | rfl | rfl | rfl | rfl | rfl | rfl | rfl | rfl <;>
      simp [unwindOperation]
  rw [if_neg h2, if_neg h2]
  simp only [operations, mem_cons, not_mem_nil, or_false] at hop
  rcases hop with rfl | rfl | rfl | rfl | rfl | rfl | rfl | rfl | rfl <;> exact rfl

theorem readCodes_agree (h : TracksUnwind u v) (f : ℕ) :
    ∀ s pr, Agree SameError (fun c r => c = (r.1.map UnwindCode.toPe, r.2))
      (u.readCodes f s pr) (v.readCodes f s pr) := by
  induction f with
  | zero => intro s pr; exact rfl
  | succ f ih =>
    intro s pr
    refine Agree.ite (by rw [h.codeCount]) (fun hs => ?_) fun _ => rfl
    rw [h.codeCount] at hs
    rw [h.rawCode_eq hs, ok_bind, h.codeCount]
    refine Agree.ite Iff.rfl (fun _ => agree_malformed) fun _ => ?_
    refine Agree.bind (h.decodeOperation_agree _ _) ?_
    rintro _ extra ⟨rfl, hop⟩
    refine Agree.ite (by rw [Nat.sub_sub]) (fun _ => agree_malformed) fun he => ?_
    refine Agree.bind (h.readOperand_agree _ hop (by omega)) ?_
    rintro _ operand rfl
    refine Agree.bind (ih _ _) ?_
    rintro _ ⟨cs, e⟩ rfl
    have hset : ∀ op ∈ operations, decide (unwindOperation op = .setFpReg) = (op == 3) := by
      intro op hop
      simp only [operations, mem_cons, not_mem_nil, or_false] at hop
      rcases hop with rfl | rfl | rfl | rfl | rfl | rfl | rfl | rfl | rfl <;> rfl
    rw [hset _ hop]
    exact rfl

end TracksUnwind

namespace Tracks

variable {p : PeParser} {q : Parser}

/-! ### A record -/

theorem ofNat_toNat_add_four (t : UInt32) : UInt32.ofNat (t.toNat + 4) = t + 4 := by
  apply UInt32.toNat_inj.1
  rfl

theorem readUnwindTail_agree (h : Tracks p q) (hr : ℕ) (tr : UInt32) (uw : Unwind) :
    Agree SameError (fun c r => c = r.toPe) (p.readUnwindTail tr uw.toPe)
      (q.readUnwindTail hr tr uw) := by
  refine Agree.ite Iff.rfl (fun _ => ?_) fun _ => ?_
  · refine Agree.ite Iff.rfl (fun _ => agree_malformed) fun _ => ?_
    refine h.agree_rva rfl fun ch hoff => ?_
    have hle : ch + 12 ≤ q.data.length := h.data ▸ PeParser.rvaToFileOffset_le hoff
    rw [Parser.getU32_eq (by omega), ok_bind, Parser.getU32_eq (by omega), ok_bind,
      Parser.getU32_eq (by omega), ok_bind, h.data]
    exact rfl
  refine Agree.ite Iff.rfl (fun _ => ?_) fun _ => rfl
  refine h.agree_rva rfl fun ha hoff => ?_
  have hle : ha + 4 ≤ q.data.length := h.data ▸ PeParser.rvaToFileOffset_le hoff
  rw [Parser.getU32_eq (by omega), ok_bind, h.data, h.sizeOfImage]
  dsimp only
  generalize (Pe.readU32 q.data ha).getD 0 = handlerRva
  by_cases hz : handlerRva = 0
  · rw [if_pos (.inl hz), if_pos hz]
    exact agree_malformed
  rw [if_neg hz]
  cases hc : p.rvaToFileOffset ⟨handlerRva, 1⟩ with
  | none =>
    rw [if_pos (.inr rfl), h.rva_error hc (by rfl)]
    exact agree_malformed
  | some co =>
    rw [if_neg (by simp [hz]), h.rva_ok hc (by rfl), ok_bind]
    have hmax : q.model.info.sizeOfImage.toNat < 2 ^ 32 := q.model.info.sizeOfImage.toNat_lt
    by_cases hw : tr.toNat + 4 > u32Max
    · rw [if_pos hw, if_pos (by simp only [u32Max] at hw; omega)]
      exact agree_malformed
    have hfit : tr.toNat + 4 < 2 ^ 32 := by simp only [u32Max] at hw; omega
    have hsum : (tr + 4).toNat = tr.toNat + 4 := by
      rw [← ofNat_toNat_add_four, UInt32.toNat_ofNat_of_lt' hfit]
    rw [if_neg hw, ofNat_toNat_add_four]
    refine Agree.ite (by rw [gt_iff_lt, gt_iff_lt, UInt32.lt_iff_toNat_lt, hsum])
      (fun _ => agree_malformed) fun _ => ?_
    rfl

theorem readUnwindBody_agree (h : Tracks p q) {u : UnwindReader} {v : UnwindParser}
    (huv : TracksUnwind u v) (ce : ℕ) (uw : Unwind) :
    Agree SameError (fun c r => c = r.toPe) (p.readUnwindBody u ce uw.toPe)
      (q.readUnwindBody v ce uw) := by
  unfold PeParser.readUnwindBody Parser.readUnwindBody
  rw [h.sizeOfImage]
  refine Agree.bind (huv.readEpilogDescriptors_agree uw.version) ?_
  rintro _ ⟨es, s⟩ rfl
  rw [huv.codeCount]
  refine Agree.bind (huv.readCodes_agree v.codeCount s none) ?_
  rintro _ ⟨cs, e⟩ rfl
  refine Agree.ite Iff.rfl (fun _ => agree_malformed) fun _ => ?_
  exact h.readUnwindTail_agree v.header _
    { uw with epilogs := es, codes := cs, extendedSetFpreg := e }

/-- **The parsers agree on an `UNWIND_INFO` record.** -/
theorem parseUnwind_agree (h : Tracks p q) (ur beg fin : UInt32) :
    Agree SameError (fun c r => c = r.toPe) (p.parseUnwindInfo ur beg fin)
      (q.parseUnwind ur beg fin) := by
  refine Agree.ite Iff.rfl (fun _ => agree_malformed) fun _ => ?_
  refine h.agree_rva rfl fun hr hoff => ?_
  have hle : hr + 4 ≤ q.data.length := h.data ▸ PeParser.rvaToFileOffset_le hoff
  rw [Parser.getU32_eq (by omega), ok_bind, h.data, h.sizeOfImage]
  generalize (Pe.readU32 q.data hr).getD 0 = word
  let unwind : Unwind :=
    { version := (word &&& 7).toUInt8
      flags := ((word >>> 3) &&& 0x1f).toUInt8
      prologSize := ((word >>> 8) &&& 0xff).toUInt8
      frameRegister := ((word >>> 24) &&& 0xf).toUInt8
      frameOffset := ((word >>> 28) &&& 0xf).toUInt8 }
  refine Agree.ite Iff.rfl (fun _ => agree_unsupportedMechanism) fun _ => ?_
  refine Agree.ite Iff.rfl (fun _ => agree_unsupportedMechanism) fun _ => ?_
  obtain ⟨cc, hcn⟩ : ∃ n, ((word >>> 16) &&& 0xff).toNat = n := ⟨_, rfl⟩
  have hcou : cc ≤ 255 := by
    rw [← hcn, UInt32.toNat_and]
    exact Nat.and_le_right
  simp only [hcn]
  refine Agree.ite (by rw [← add_assoc]; exact Iff.rfl) (fun _ => agree_malformed) fun _ => ?_
  have hb : cc * unwindCodeSize =
      (UInt32.ofNat (cc * Pe.kUnwindCodeSize)).toNat := by
    rw [UInt32.toNat_ofNat_of_lt' (by simp only [Pe.kUnwindCodeSize, UInt32.size]; omega)]
    rfl
  have hend : ur.toNat + Pe.kUnwindInfoHeaderSize + cc * Pe.kUnwindCodeSize =
      ur.toNat + (unwindHeaderSize + cc * unwindCodeSize) := add_assoc _ _ _
  by_cases hz : cc = 0
  · rw [if_neg fun hc => hc.2 hz, if_pos hz, ok_bind, hend]
    refine h.readUnwindBody_agree ?_ _ unwind
    exact ⟨rfl, rfl, rfl, rfl, rfl, rfl, fun hc => absurd hz hc, fun hc => absurd hz hc⟩
  rw [if_neg hz]
  cases hco : p.rvaToFileOffset
      ⟨ur + 4, UInt32.ofNat (cc * Pe.kUnwindCodeSize)⟩ with
  | none =>
    rw [if_pos ⟨rfl, hz⟩, h.rva_error hco hb]
    exact agree_malformed
  | some cs =>
    have hin : cs + cc * 2 ≤ q.data.length := by
      have := PeParser.rvaToFileOffset_le hco
      rw [h.data] at this
      rwa [← hb] at this
    rw [if_neg (by simp), h.rva_ok hco hb, ok_bind, hend]
    refine h.readUnwindBody_agree ?_ _ unwind
    exact ⟨rfl, rfl, rfl, rfl, rfl, rfl, fun _ => rfl, fun _ => hin⟩

/-! ### The function table -/

/-- The entries are in order of address. -/
def Ordered (functions : List Pe.RuntimeFunction) : Prop :=
  functions.Pairwise fun f g => f.beginRva < g.beginRva

theorem readRuntimeFunctions_agree (h : Tracks p q) (dir : ℕ) (rem : ℕ) :
    ∀ i pr previousEnd, dir + (i + rem) * 12 ≤ q.data.length →
      ((i = 0 ∧ pr = none) ∨ (0 < i ∧ pr = some previousEnd)) →
      Agree SameError (fun c r => c = r.map RuntimeFunction.toPe ∧ Ordered c ∧
          ∀ f ∈ c, ∀ s, pr = some s → s ≤ f.beginRva) (p.readRuntimeFunctions dir i rem pr)
        (q.readRuntimeFunctions dir i rem previousEnd) := by
  induction rem with
  | zero =>
    intro i pr previousEnd _ _
    exact ⟨rfl, List.Pairwise.nil, by simp⟩
  | succ rem ih =>
    intro i pr previousEnd hle hp
    unfold PeParser.readRuntimeFunctions Parser.readRuntimeFunctions
    simp only [Pe.kRuntimeFunctionSize, runtimeFunctionSize, h.data, h.sizeOfImage]
    rw [Parser.getU32_eq (by omega), ok_bind, Parser.getU32_eq (by omega), ok_bind,
      getU32_eq (by omega), ok_bind]
    generalize (Pe.readU32 q.data (dir + i * 12)).getD 0 = beginRva
    generalize (Pe.readU32 q.data (dir + i * 12 + 4)).getD 0 = endRva
    generalize (Pe.readU32 q.data (dir + i * 12 + 8)).getD 0 = unwindInfoRva
    refine Agree.ite Iff.rfl (fun _ => agree_malformed) fun hr => ?_
    have hpos : beginRva < endRva := by
      rw [not_or, ge_iff_le, UInt32.not_le] at hr
      exact hr.1
    have hiff : (pr.any fun s => decide (beginRva < s)) ↔
        i > 0 ∧ beginRva < previousEnd := by
      rcases hp with ⟨rfl, rfl⟩ | ⟨hi, rfl⟩
      · simp
      · simp [hi]
    refine Agree.ite hiff (fun _ => agree_malformed) fun hord => ?_
    refine Agree.bind (h.parseUnwind_agree unwindInfoRva beginRva endRva) ?_
    rintro _ unwind rfl
    refine Agree.bind (ih (i + 1) (some endRva) endRva
      (by rw [show (i + 1 + rem) * 12 = (i + (rem + 1)) * 12 by ring]; exact
      hle)
      (.inr ⟨Nat.succ_pos i, rfl⟩)) ?_
    rintro _ functions ⟨rfl, hpa, hfi⟩
    have hbeh : ∀ f ∈ functions.map RuntimeFunction.toPe, beginRva < f.beginRva := fun f hf =>
      UInt32.lt_of_lt_of_le hpos (hfi f hf endRva rfl)
    refine ⟨rfl, List.Pairwise.cons hbeh hpa, ?_⟩
    rintro f hf s rfl
    have hs : s ≤ beginRva := by simpa using hord
    rcases mem_cons.1 hf with rfl | hf
    · exact hs
    · exact UInt32.le_trans hs (UInt32.le_of_lt (hbeh f hf))

/-! ### Chained functions -/

attribute [local simp] Parser.isChained

theorem findChainedIndex_eq (c : Chain) (uw : Pe.UnwindInfo)
    (hb : uw.chainedBeginRva = c.beginRva) (hend : uw.chainedEndRva = c.endRva)
    (hunw : uw.chainedUnwindInfoRva = c.unwindInfoRva) (rt : List RuntimeFunction) :
    Ordered (rt.map RuntimeFunction.toPe) →
      PeParser.findChainedIndex (rt.map RuntimeFunction.toPe) uw =
        rt.findIdx? (Parser.isChained c) := by
  induction rt with
  | nil => intro _; rfl
  | cons f r ih =>
    intro hord
    rw [map_cons, Ordered, pairwise_cons] at hord
    obtain ⟨hbeh, hr⟩ := hord
    by_cases hle : c.beginRva ≤ f.beginRva
    · -- the lower bound is the head; the entries behind it begin later
      have hf : PeParser.findChainedIndex ((f :: r).map RuntimeFunction.toPe) uw =
          if f.beginRva ≠ c.beginRva ∨ f.endRva ≠ c.endRva ∨
            f.unwindInfoRva ≠ c.unwindInfoRva then none else some 0 := by
        unfold PeParser.findChainedIndex
        rw [map_cons, findIdx?_cons, hb,
          decide_eq_true (show c.beginRva ≤ f.toPe.beginRva from hle), hend, hunw]
        rfl
      rw [hf, findIdx?_cons]
      by_cases hm : Parser.isChained c f
      · simp only [Parser.isChained, Bool.and_eq_true, beq_iff_eq] at hm
        obtain ⟨⟨h1, h2⟩, h3⟩ := hm
        simp [h1, h2, h3]
      · have hne : f.beginRva ≠ c.beginRva ∨ f.endRva ≠ c.endRva ∨
            f.unwindInfoRva ≠ c.unwindInfoRva := by
          by_contra hall
          push Not at hall
          exact hm (by simp [hall.1, hall.2.1, hall.2.2])
        rw [if_pos hne, if_neg hm]
        symm
        rw [map_eq_none_iff, findIdx?_eq_none_iff]
        intro g hg
        have hlt : f.beginRva < g.beginRva := hbeh g.toPe (mem_map_of_mem hg)
        have hgt : g.beginRva ≠ c.beginRva := by
          intro heq
          rw [← heq] at hle
          exact UInt32.lt_irrefl _ (UInt32.lt_of_le_of_lt hle hlt)
        simp [hgt]
    · have hm : ¬Parser.isChained c f := by
        intro hc
        simp only [Parser.isChained, Bool.and_eq_true, beq_iff_eq] at hc
        exact hle (UInt32.le_of_eq hc.1.1.symm)
      rw [findIdx?_cons, if_neg hm, ← ih hr]
      unfold PeParser.findChainedIndex
      rw [map_cons, findIdx?_cons, hb,
        decide_eq_false (show ¬c.beginRva ≤ f.toPe.beginRva from hle)]
      cases (r.map RuntimeFunction.toPe).findIdx? fun fn => decide (c.beginRva ≤ fn.beginRva) with
      | none => rfl
      | some i =>
        simp only [Bool.false_eq_true, if_false, map_some, getElem?_cons_succ]
        cases (r.map RuntimeFunction.toPe)[i]? with
        | none => rfl
        | some g => dsimp only; split <;> rfl

/-- The entry a function is chained to, by linear search. -/
def chainTarget (runtime : List RuntimeFunction) (f : RuntimeFunction) : Option ℕ :=
  f.unwind.chained.bind fun chain => runtime.findIdx? (Parser.isChained chain)

attribute [local simp] RuntimeFunction.toPe Unwind.toPe chainTarget

theorem chainedTargets_agree (rt : List RuntimeFunction)
    (hord : Ordered (rt.map RuntimeFunction.toPe)) (dir : ℕ) (r : List RuntimeFunction) :
    Agree SameError (fun targets (_ : Unit) => targets = r.map (chainTarget rt))
      (PeParser.chainedTargets (rt.map RuntimeFunction.toPe) (r.map RuntimeFunction.toPe))
      (Parser.checkChainTargets rt dir r) := by
  induction r with
  | nil => exact rfl
  | cons f r ih =>
    simp only [map_cons]
    unfold Parser.checkChainTargets PeParser.chainedTargets
    cases hcha : f.unwind.chained with
    | none =>
      have hno : ¬f.toPe.unwind.hasChainedFunction := by simp [hcha]
      rw [if_neg hno]
      refine Agree.bind_ok_left ih ?_
      rintro targets - rfl
      simp [hcha]
    | some c =>
      have hyes : f.toPe.unwind.hasChainedFunction := by simp [hcha]
      have hf : PeParser.findChainedIndex (rt.map RuntimeFunction.toPe) f.toPe.unwind =
          rt.findIdx? (Parser.isChained c) :=
        findChainedIndex_eq c f.toPe.unwind (by simp [hcha]) (by simp [hcha])
          (by simp [hcha]) rt hord
      rw [if_pos hyes, hf]
      dsimp only
      rw [← findIdx?_isSome]
      cases hidx : rt.findIdx? (Parser.isChained c) with
      | none => exact agree_malformed
      | some tgt =>
        refine Agree.bind_ok_left ih ?_
        rintro targets - rfl
        simp [hcha, hidx]

/-! ### Cycles -/

theorem link_eq_nextInChain (rt : List RuntimeFunction) (i : ℕ) :
    PeParser.link (rt.map (chainTarget rt)) i = Parser.nextInChain rt i := by
  unfold PeParser.link Parser.nextInChain
  rw [getD_eq_getElem?_getD, getElem?_map]
  cases rt[i]? with
  | none => rfl
  | some f =>
    simp only [map_some, getD_some, chainTarget]
    cases f.unwind.chained <;> rfl

theorem nextInChain_lt (rt : List RuntimeFunction) (i j : ℕ)
    (h : Parser.nextInChain rt i = some j) : j < rt.length := by
  rw [← link_eq_nextInChain, PeParser.link, getD_eq_getElem?_getD, getElem?_map] at h
  cases hf : rt[i]? with
  | none => rw [hf] at h; cases h
  | some f =>
    rw [hf] at h
    simp only [map_some, getD_some, chainTarget, bind_eq_some_iff] at h
    obtain ⟨c, -, hidx⟩ := h
    exact (findIdx?_eq_some_iff_findIdx_eq.1 hidx).1

theorem followsChain_iff (rt : List RuntimeFunction) (rem : ℕ) :
    ∀ c, Parser.followsChain rt rem c ↔
      follow (Parser.nextInChain rt) (rem + 1) c ≠ none := by
  induction rem with
  | zero =>
    intro c
    unfold Parser.followsChain
    cases hn : nextInChain rt c <;> simp [follow, hn]
  | succ rem ih =>
    intro c
    unfold Parser.followsChain
    cases hn : nextInChain rt c with
    | none => simp [follow, hn]
    | some next =>
      have hs : follow (nextInChain rt) (rem + 1 + 1) c =
          follow (nextInChain rt) (rem + 1) next := by
        rw [follow, hn]
        rfl
      rw [hs]
      exact ih next

theorem followsChain_iff_not_ends (rt : List RuntimeFunction) {start : ℕ} (hs : start < rt.length) :
    Parser.followsChain rt rt.length start ↔ ¬Ends (Parser.nextInChain rt) start := by
  rw [followsChain_iff]
  constructor
  · intro hfol he
    apply hfol
    rw [follow_add, follow_eq_none_of_ends (nextInChain_lt rt) hs he]
    rfl
  · exact fun he hn => he (ends_of_follow_eq_none hn)

theorem checkCycles_spec (rt : List RuntimeFunction) (dir rem : ℕ) :
    ∀ start, start + rem ≤ rt.length → (Parser.checkCycles rt dir start rem = .ok () ∧
          ∀ i, start ≤ i → i < start + rem → Ends (Parser.nextInChain rt) i) ∨
        (∃ e, Parser.checkCycles rt dir start rem = .error e ∧ e.status = statusMalformed) ∧
          ∃ i, start ≤ i ∧ i < start + rem ∧ ¬Ends (Parser.nextInChain rt) i := by
  induction rem with
  | zero =>
    intro start _
    exact .inl ⟨rfl, fun i h1 h2 => by omega⟩
  | succ rem ih =>
    intro start hle
    unfold Parser.checkCycles
    have hiff := followsChain_iff_not_ends rt (show start < rt.length by omega)
    by_cases hc : Parser.followsChain rt rt.length start
    · rw [if_pos hc]
      exact .inr ⟨⟨_, rfl, rfl⟩, start, le_refl _, by omega, hiff.1 hc⟩
    rw [if_neg hc]
    have hs : Ends (Parser.nextInChain rt) start := by
      by_contra hno
      exact hc (hiff.2 hno)
    rcases ih (start + 1) (by omega) with ⟨hok, hall⟩ | ⟨herr, i, h1, h2, h3⟩
    · refine .inl ⟨hok, fun i h1 h2 => ?_⟩
      rcases lt_or_ge start i with hlt | hge
      · exact hall i (by omega) (by omega)
      · obtain rfl : i = start := by omega
        exact hs
    · exact .inr ⟨herr, i, by omega, by omega, h3⟩

/-- **The two cycle checks agree.** -/
theorem cycles_agree (runtime : List RuntimeFunction) (dir : ℕ) : Agree SameError (fun _ _ => True)
      (PeParser.walkChains (runtime.map (chainTarget runtime)) 0 runtime.length
        (List.replicate runtime.length .unvisited))
      (Parser.checkCycles runtime dir 0 runtime.length) := by
  have hl : PeParser.link (runtime.map (chainTarget runtime)) = Parser.nextInChain runtime :=
    funext (link_eq_nextInChain runtime)
  have hm : ∀ i, PeParser.mark (List.replicate runtime.length .unvisited) i = .unvisited := by
    intro i
    unfold PeParser.mark
    rw [getD_eq_getElem?_getD, getElem?_replicate]
    split <;> rfl
  have hpe := @PeParser.walkChains_ok_iff (runtime.map (chainTarget runtime))
    runtime.length (length_map _)
    (by rw [hl]; exact nextInChain_lt runtime) runtime.length 0
    (List.replicate runtime.length .unvisited) (by omega) length_replicate
    (fun i => by rw [hm]; exact nofun) (fun i h => by rw [hm] at h; cases h)
  rw [hl] at hpe
  rcases hpe with ⟨hok, hall⟩ | ⟨⟨e, herr, hsta⟩, i, h1, h2, h3⟩ <;>
    rcases checkCycles_spec runtime dir runtime.length 0 (by omega) with
      ⟨hok', hall'⟩ | ⟨⟨e', herr', hsta'⟩, j, h1', h2', h3'⟩
  · rw [hok, hok']
    exact trivial
  · exact absurd (hall j h1' h2') h3'
  · exact absurd (hall' i h1 h2) h3
  · rw [herr, herr']
    exact .inl (by rw [hsta, hsta']; rfl)

/-! ### The exception directory -/

/-- The exception directory is one that only the C++ parser takes as absent. -/
def PhantomExceptions (p : PeParser) : Prop :=
  let range : RvaRange :=
    ⟨p.parserState.exceptionDirectoryRva, p.parserState.exceptionDirectorySize⟩
  range.rva ≠ 0 ∧ range.length ≠ 0 ∧ range.length.toNat % Pe.kRuntimeFunctionSize = 0 ∧
    p.rvaToFileOffset range = none ∧ p.isRvaInUninitializedSection range = true

/-- **The parsers agree on the runtime functions, unless the directory is a phantom.** -/
theorem parseRuntimeFunctions_agree (h : Tracks p q) (hpha : ¬PhantomExceptions p) :
    Agree SameError Tracks p.parseRuntimeFunctions q.parseRuntimeFunctions := by
  unfold PhantomExceptions at hpha
  unfold PeParser.parseRuntimeFunctions Parser.parseRuntimeFunctions
  have hrva : p.parserState.exceptionDirectoryRva = q.model.info.exceptions.rva := by
    rw [h.image]; rfl
  have hsi : p.parserState.exceptionDirectorySize = q.model.info.exceptions.size := by
    rw [h.image]; rfl
  rw [hrva, hsi] at hpha ⊢
  refine Agree.ite Iff.rfl (fun _ => h) fun _ => ?_
  refine Agree.ite Iff.rfl (fun _ => agree_malformed) fun hs => ?_
  cases hoff : p.rvaToFileOffset ⟨q.model.info.exceptions.rva, q.model.info.exceptions.size⟩ with
  | none =>
    have hun : ¬p.isRvaInUninitializedSection
        ⟨q.model.info.exceptions.rva, q.model.info.exceptions.size⟩ := by
      intro hun
      push Not at hs
      exact hpha ⟨hs.1, hs.2.1, hs.2.2, hoff, hun⟩
    rw [h.rva_error hoff rfl]
    rw [if_neg hun]
    exact agree_malformed
  | some dir =>
    have hle : dir + q.model.info.exceptions.size.toNat ≤ q.data.length :=
      h.data ▸ PeParser.rvaToFileOffset_le hoff
    rw [h.rva_ok hoff rfl, ok_bind]
    refine Agree.ite Iff.rfl (fun _ => agree_inputTooLarge) fun _ => ?_
    refine Agree.bind (h.readRuntimeFunctions_agree dir _ 0 none 0 ?_ (.inl ⟨rfl, rfl⟩)) ?_
    · simp only [Pe.kRuntimeFunctionSize]
      omega
    rintro _ runtime ⟨rfl, hord, -⟩
    refine Agree.bind (chainedTargets_agree runtime hord dir runtime) ?_
    rintro _ - rfl
    rw [length_map]
    refine Agree.bind (cycles_agree runtime dir) ?_
    rintro - - -
    exact ⟨h.data, by rw [h.image]; rfl⟩

/-- A phantom exception directory: the C++ parser goes on, the Rust parser does
not. -/
theorem parseRuntimeFunctions_phantom (h : Tracks p q) (hpha : PhantomExceptions p) :
    p.parseRuntimeFunctions = .ok (p.recordUninitializedDirectory (text "exceções")) ∧
      ∃ e, q.parseRuntimeFunctions = .error e ∧ e.status = statusMalformed := by
  obtain ⟨hr, hs0, hmod, hoff, hun⟩ := hpha
  have hrva : p.parserState.exceptionDirectoryRva = q.model.info.exceptions.rva := by
    rw [h.image]; rfl
  have hsi : p.parserState.exceptionDirectorySize = q.model.info.exceptions.size := by
    rw [h.image]; rfl
  have hne : ¬(p.parserState.exceptionDirectoryRva = 0 ∧
      p.parserState.exceptionDirectorySize = 0) := fun hc => hr hc.1
  have hs : ¬(p.parserState.exceptionDirectoryRva = 0 ∨ p.parserState.exceptionDirectorySize = 0 ∨
      p.parserState.exceptionDirectorySize.toNat % Pe.kRuntimeFunctionSize ≠ 0) := by
    rintro (hc | hc | hc)
    · exact hr hc
    · exact hs0 hc
    · exact hc hmod
  constructor
  · dsimp only [PeParser.parseRuntimeFunctions]
    rw [if_neg hne, if_neg hs, hoff]
    rw [if_pos hun]
  · rw [hrva, hsi] at hne hs hoff
    have hs' : ¬(q.model.info.exceptions.rva = 0 ∨ q.model.info.exceptions.size = 0 ∨
        q.model.info.exceptions.size.toNat % runtimeFunctionSize ≠ 0) := hs
    dsimp only [Parser.parseRuntimeFunctions]
    rw [if_neg hne, if_neg hs', h.rva_error hoff rfl]
    exact ⟨_, rfl, rfl⟩

end Tracks

end TradutorLinux.Rust
