import TradutorLinux.Pe.Builder
import TradutorLinux.Runtime.Prologue

/-!
# Unwinding a prologue

`RtlVirtualUnwind` undoes the operations of a prologue, the last one first, at
the RSP that it has at that point.  Behind the frame register that is not the
RSP of the prologue: the body may have lowered it.

## Main definitions

* `Undoes`, `UndoesAll`
* `Behind` — a thread in a prologue or in the body behind it.
* `Inverts` — the unwinder finds the entry again, from every such thread.
* `FrameLast`

## Main results

* `applyCodes_iff`
* `undoesAll_of_recovers` — what it finds when the frame register comes last.
* `rtlVirtualUnwind_inverts_iff`
-/

namespace TradutorLinux.Runtime

open List Option ContextAmd64 Saved PrologueState

open Pe (RuntimeFunction UnwindCode UnwindInfo UnwindOperation)

/-! ### Reading the stack -/

namespace GuestThread

/-- `read_u64` and `read_m128`, as the value of a register. -/
def readSaved (t : GuestThread) (address : UInt64) : Saved → Option M128A
  | .gpr _ => (t.readU64 address).map fun value => ⟨value, 0⟩
  | .xmm _ => t.readM128 address

/-- The addresses from `low` to `top` are a part of the thread's stack. -/
structure Stack (t : GuestThread) (low top : ℕ) : Prop where
  pos : 0 < low
  mapped : ∀ a, low ≤ a → a < top → (t.byte a).isSome = true
  teb : ∀ limit base, t.teb = some (limit, base) →
    limit ≠ 0 ∧ limit.toNat ≤ low ∧ top ≤ base.toNat

variable {t : GuestThread} {low top : ℕ} {address ad : UInt64} {s : Saved}

theorem read_of_hasBytes {a n : ℕ} {bytes : ByteString} (hln : bytes.length = n)
    (h : HasBytes t.byte a bytes) : t.read a n = some bytes := by
  unfold read
  subst hln
  induction bytes generalizing a with
  | nil => rfl
  | cons b bytes ih =>
    have hh : t.byte a = some b := h 0 (Nat.zero_lt_succ _)
    have ht : HasBytes t.byte (a + 1) bytes := by
      intro i hi
      have hn := h (i + 1) (Nat.succ_lt_succ hi)
      rwa [← add_assoc, add_right_comm] at hn
    rw [length_cons, range'_succ, mapM_cons, hh, ih ht]
    rfl

theorem Stack.validStackRange (h : t.Stack low top) (hto : top + 0x1000 ≤ 2 ^ 64) {si : ℕ}
    (hs : 0 < si) (ho : low ≤ ad.toNat) (he : ad.toNat + si ≤ top) : t.validStackRange ad si := by
  have hp := h.pos
  have hn : ad ≠ 0 := by
    rintro rfl
    exact absurd ho (by simp only [UInt64.toNat_zero]; omega)
  have hr : ¬ (ad = 0 ∨ si = 0 ∨ si > 2 ^ 64 - 1 - ad.toNat) := by
    rw [not_or, not_or]
    exact ⟨hn, by omega, by omega⟩
  unfold GuestThread.validStackRange
  rw [if_neg hr]
  cases ht : t.teb with
  | none => rfl
  | some bs =>
    obtain ⟨li, b⟩ := bs
    obtain ⟨hl, hlo, hh⟩ := h.teb li b ht
    simp only [Bool.not_eq_true', Bool.or_eq_false_iff, decide_eq_false_iff_not,
      UInt64.le_iff_toNat_le, UInt64.lt_iff_toNat_lt, ge_iff_le, gt_iff_lt]
    exact ⟨⟨⟨⟨hl, by omega⟩, by omega⟩, by omega⟩, by omega⟩

theorem Stack.readSaved (h : t.Stack low top) (ht : top + 0x1000 ≤ 2 ^ 64)
    (hl : low ≤ ad.toNat) (he : ad.toNat + s.size ≤ top) {c : ContextAmd64}
    (hb : HasBytes t.byte ad.toNat (s.bytes (c.value s))) :
    t.readSaved ad s = some (c.value s) := by
  have hr : t.read ad.toNat s.size = some (s.bytes (c.value s)) :=
    read_of_hasBytes (Saved.length_bytes _ _) hb
  have hw : ∀ value : UInt64, UInt64.ofNat (ofLE (toLE 8 value.toNat)) = value := by
    intro value
    rw [ofLE_toLE_of_lt value.toNat_lt, UInt64.ofNat_toNat]
  cases s with
  | gpr r =>
    have hv : t.validStackRange ad 8 := h.validStackRange ht (by decide) hl he
    dsimp only [GuestThread.readSaved, readU64]
    rw [if_pos hv]
    change t.read ad.toNat 8 = _ at hr
    rw [hr]
    simp [map_some, Saved.bytes, value_gpr, hw]
  | xmm x =>
    have hv : t.validStackRange ad 16 := h.validStackRange ht (by decide) hl he
    dsimp only [GuestThread.readSaved, readM128]
    rw [if_pos hv]
    change t.read ad.toNat 16 = _ at hr
    rw [hr]
    simp [map_some, Saved.bytes, take_left' (length_toLE 8 (c.value (.xmm x)).low.toNat),
      drop_left' (length_toLE 8 (c.value (.xmm x)).low.toNat), hw]

theorem Stack.exists_readSaved (h : t.Stack low top) (ht : top + 0x1000 ≤ 2 ^ 64)
    (ad : UInt64) (s : Saved) (hl : low ≤ ad.toNat) (he : ad.toNat + s.size ≤ top) :
    ∃ value, t.readSaved ad s = some value := by
  have hr : ∀ n, ad.toNat + n ≤ top → ∃ bytes, t.read ad.toNat n = some bytes := by
    intro n hn
    refine ⟨(List.range n).map fun i => (t.byte (ad.toNat + i)).getD 0,
      read_of_hasBytes (by simp) fun i hi => ?_⟩
    have hlt : i < n := by simpa using hi
    have hs := h.mapped (ad.toNat + i) (by omega) (by omega)
    obtain ⟨b, hb⟩ := isSome_iff_exists.1 hs
    simp [hlt, hb]
  cases s with
  | gpr r =>
    have hv : t.validStackRange ad 8 := h.validStackRange ht (by decide) hl he
    obtain ⟨bytes, hy⟩ := hr 8 he
    dsimp only [GuestThread.readSaved, readU64]
    rw [if_pos hv, hy]
    exact ⟨_, rfl⟩
  | xmm x =>
    have hv : t.validStackRange ad 16 := h.validStackRange ht (by decide) hl he
    obtain ⟨bytes, hy⟩ := hr 16 he
    dsimp only [GuestThread.readSaved, readM128]
    rw [if_pos hv, hy]
    exact ⟨_, rfl⟩

end GuestThread

/-! ### Undoing operations -/

/-- What undoing an operation does. -/
def Undoes (t : GuestThread) (u : UnwindInfo) (s s' : UnwindState) : PrologueOp → Prop
  | .push r => ∃ value stack, t.readSaved (s.context.register rsp) (.gpr r) = some value ∧
    (s.context.register rsp).toNat + 8 = stack.toNat ∧
    s' = { s with context := (s.context.setRegister rsp stack).setValue value (.gpr r) }
  | .alloc size => ∃ stack : UInt64,
    (s.context.register rsp).toNat + size.toNat = stack.toNat ∧
    s' = { s with context := s.context.setRegister rsp stack }
  | .setFrame => ∃ frame : UInt64,
    frame.toNat + (frameDisplacement u).toNat =
      (s.context.register (frameRegisterOf u)).toNat ∧
    s' = { s with context := s.context.setRegister rsp frame, establisherFrame := frame }
  | .save r offset => ∃ (address : UInt64) (value : M128A),
    (s.context.register rsp).toNat + offset.toNat = address.toNat ∧
    t.readSaved address r = some value ∧
    s' = { s with context := s.context.setValue value r }

/-- What undoing a prologue does, its last operation first. -/
def UndoesAll (t : GuestThread) (u : UnwindInfo) :
    List PrologueOp → UnwindState → UnwindState → Prop
  | [], s, out => out = s
  | op :: history, s, out => ∃ s', Undoes t u s s' op ∧ UndoesAll t u history s' out

section Codes

variable {t : GuestThread} {u : UnwindInfo} {code co : UnwindCode} {op : PrologueOp}

theorem applyUnwindCode_iff (hop : prologueOp co = some op) (hn : op ≠ .setFrame)
    {s s' : UnwindState} :
    (∃ ct mf, applyUnwindCode t co s.context s.machineFrame = some (ct, mf) ∧
      s' = { s with context := ct, machineFrame := mf }) ↔ Undoes t u s s' op := by
  have hw : ∀ {ad : UInt64} {value : M128A} {r : Fin 16}, t.readSaved ad (.gpr r) = some value ↔
        ∃ w, t.readU64 ad = some w ∧ (⟨w, 0⟩ : M128A) = value := by
    intro ad value r
    exact map_eq_some_iff
  unfold prologueOp at hop
  unfold applyUnwindCode
  cases hc : co.operation <;> rw [hc] at hop
  case pushNonVol =>
    cases hop
    simp only [Undoes, hw, bind_eq_bind, bind_eq_some_iff, addU64_eq_some,
      some.injEq, Prod.mk.injEq]
    constructor
    · rintro ⟨_, _, ⟨w, hr, sk, hs, rfl, rfl⟩, rfl⟩
      exact ⟨_, sk, ⟨w, hr, rfl⟩, hs, rfl⟩
    · rintro ⟨_, sk, ⟨w, hr, rfl⟩, hs, rfl⟩
      exact ⟨_, _, ⟨w, hr, sk, hs, rfl, rfl⟩, rfl⟩
  case allocLarge | allocSmall =>
    cases hop
    simp only [Undoes, bind_eq_bind, bind_eq_some_iff, addU64_eq_some,
      UInt32.toNat_toUInt64, some.injEq, Prod.mk.injEq]
    constructor
    · rintro ⟨_, _, ⟨sk, hs, rfl, rfl⟩, rfl⟩
      exact ⟨sk, hs, rfl⟩
    · rintro ⟨sk, hs, rfl⟩
      exact ⟨_, _, ⟨sk, hs, rfl, rfl⟩, rfl⟩
  case setFpReg => exact absurd (some.inj hop).symm hn
  case saveNonVol | saveNonVolFar =>
    cases hop
    simp only [Undoes, hw, bind_eq_bind, bind_eq_some_iff, addU64_eq_some,
      UInt32.toNat_toUInt64, some.injEq, Prod.mk.injEq]
    constructor
    · rintro ⟨_, _, ⟨ad, ha, w, hr, rfl, rfl⟩, rfl⟩
      exact ⟨ad, _, ha, ⟨w, hr, rfl⟩, rfl⟩
    · rintro ⟨ad, _, ha, ⟨w, hr, rfl⟩, rfl⟩
      exact ⟨_, _, ⟨ad, ha, w, hr, rfl, rfl⟩, rfl⟩
  case saveXmm128 | saveXmm128Far =>
    dsimp only at hop ⊢
    split at hop
    · next hx =>
      cases hop
      rw [dif_pos hx]
      simp only [Undoes, GuestThread.readSaved, bind_eq_bind, bind_eq_some_iff,
        addU64_eq_some, UInt32.toNat_toUInt64, some.injEq, Prod.mk.injEq]
      constructor
      · rintro ⟨_, _, ⟨ad, ha, value, hr, rfl, rfl⟩, rfl⟩
        exact ⟨ad, value, ha, hr, rfl⟩
      · rintro ⟨ad, value, ha, hr, rfl⟩
        exact ⟨_, _, ⟨ad, ha, value, hr, rfl, rfl⟩, rfl⟩
    · cases hop
  case pushMachFrame => cases hop

theorem prologueOp_eq_setFrame : prologueOp co = some .setFrame ↔ co.operation = .setFpReg := by
  unfold prologueOp
  cases co.operation <;> simp

theorem applyCodes_cons_iff {po : UInt64} (hop : prologueOp co = some op)
    (hr : ¬ po < co.codeOffset.toUInt64) {cs : List UnwindCode} {s out : UnwindState} :
    applyCodes t u po (co :: cs) s = .ok out ↔
      ∃ s', Undoes t u s s' op ∧ applyCodes t u po cs s' = .ok out := by
  rw [applyCodes, if_neg hr]
  by_cases hf : op = .setFrame
  · subst hf
    rw [if_pos (prologueOp_eq_setFrame.1 hop)]
    dsimp only
    change (if s.context.register (frameRegisterOf u) < frameDisplacement u then _ else _) = _ ↔ _
    split
    · next ht =>
      rw [UInt64.lt_iff_toNat_lt] at ht
      constructor
      · intro h
        cases h
      · rintro ⟨_, ⟨frame, hf, rfl⟩, -⟩
        omega
    · next hl =>
      rw [UInt64.lt_iff_toNat_lt, not_lt] at hl
      have hb := UInt64.toNat_sub_of_le _ _ (UInt64.le_iff_toNat_le.2 hl)
      constructor
      · intro h
        refine ⟨_, ⟨s.context.register (frameRegisterOf u) - frameDisplacement u, ?_, rfl⟩, h⟩
        rw [hb]
        omega
      · rintro ⟨_, ⟨frame, hf, rfl⟩, h⟩
        have heq : s.context.register (frameRegisterOf u) - frameDisplacement u = frame := by
          refine UInt64.toNat_inj.1 ?_
          omega
        rwa [← heq] at h
  · rw [if_neg (mt prologueOp_eq_setFrame.2 (by rw [hop]; exact mt some.inj hf))]
    have hi : ∀ s', _ ↔ Undoes t u s s' op := fun s' => applyUnwindCode_iff hop hf
    cases ha : applyUnwindCode t co s.context s.machineFrame with
    | none =>
      dsimp only
      constructor
      · intro h
        cases h
      · rintro ⟨s', hu, -⟩
        obtain ⟨ct, mf, hs, -⟩ := (hi s').2 hu
        rw [ha] at hs
        cases hs
    | some r =>
      obtain ⟨ct, mf⟩ := r
      dsimp only
      constructor
      · intro h
        exact ⟨_, (hi _).1 ⟨ct, mf, ha, rfl⟩, h⟩
      · rintro ⟨s', hu, h⟩
        obtain ⟨c', mf', hs, rfl⟩ := (hi s').2 hu
        obtain ⟨rfl, rfl⟩ := Prod.mk.inj (some.inj (ha.symm.trans hs))
        exact h

end Codes

/-! ### Encoded prologues -/

/-- The codes of a record describe a prologue: its operations, the last one first,
with the offsets of the instructions behind them. -/
structure Encodes (u : UnwindInfo) (steps : List (UInt8 × PrologueOp)) : Prop where
  codes : List.Forall₂
    (fun code step => code.codeOffset = step.1 ∧ prologueOp code = some step.2) u.codes steps
  descending : steps.Pairwise fun step earlier => earlier.1 ≤ step.1
  inProlog : ∀ step ∈ steps, step.1 ≤ u.prologSize
  count : u.codes.length < 256
  unchained : u.hasChainedFunction = false

/-- The operations that have run at an offset of the function. -/
def executed (steps : List (UInt8 × PrologueOp)) (pcOffset : UInt64) : List PrologueOp :=
  (steps.filter fun step => decide (step.1.toUInt64 ≤ pcOffset)).map (·.2)

section Executed

variable {t : GuestThread} {u : UnwindInfo} {steps ste ss : List (UInt8 × PrologueOp)}
  {pcOffset p po : UInt64}

/-- The loop over the codes undoes what has run. -/
theorem applyCodes_iff {cs : List UnwindCode} (h : List.Forall₂
      (fun code st => code.codeOffset = st.1 ∧ prologueOp code = some st.2) cs steps)
    {s out : UnwindState} :
    applyCodes t u pcOffset cs s = .ok out ↔ UndoesAll t u (executed steps pcOffset) s out := by
  induction h generalizing s with
  | nil =>
    show Except.ok s = Except.ok out ↔ out = s
    rw [Except.ok.injEq, eq_comm]
  | @cons code st cs steps hs _ ih =>
    obtain ⟨ho, hop⟩ := hs
    by_cases hr : st.1.toUInt64 ≤ pcOffset
    · have he : executed (st :: steps) pcOffset = st.2 :: executed steps pcOffset := by
        unfold executed
        rw [filter_cons_of_pos (by rw [decide_eq_true_eq]; exact hr), map_cons]
      rw [applyCodes_cons_iff hop (by rw [ho]; exact UInt64.not_lt.2 hr), he]
      exact exists_congr fun s' => and_congr_right fun _ => ih
    · have he : executed (st :: steps) pcOffset = executed steps pcOffset := by
        unfold executed
        rw [filter_cons_of_neg (by rw [decide_eq_true_eq]; exact hr)]
      rw [applyCodes, if_pos (by rw [ho]; exact UInt64.not_le.1 hr), he]
      exact ih

theorem Encodes.executed_body (h : Encodes u ss) (hb : u.prologSize.toUInt64 ≤ po) :
    executed ss po = ss.map (·.2) := by
  unfold executed
  rw [filter_eq_self.2]
  intro st hs
  rw [decide_eq_true_eq]
  refine UInt64.le_trans ?_ hb
  rw [UInt64.le_iff_toNat_le, UInt8.toNat_toUInt64, UInt8.toNat_toUInt64]
  exact UInt8.le_iff_toNat_le.1 (h.inProlog st hs)

/-- The operations that have run are the first ones. -/
theorem Encodes.executed_suffix (h : Encodes u steps) (pcOffset : UInt64) :
    executed steps pcOffset <:+ steps.map (·.2) := by
  have hd := h.descending
  clear h
  induction steps with
  | nil => exact suffix_rfl
  | cons st steps ih =>
    rw [pairwise_cons] at hd
    by_cases hr : st.1.toUInt64 ≤ pcOffset
    · -- then the earlier ones have run, too
      have ha : ∀ e ∈ st :: steps, decide (e.1.toUInt64 ≤ pcOffset) := by
        intro e he
        rw [decide_eq_true_eq]
        rcases mem_cons.1 he with rfl | he
        · exact hr
        · refine UInt64.le_trans ?_ hr
          rw [UInt64.le_iff_toNat_le, UInt8.toNat_toUInt64, UInt8.toNat_toUInt64]
          exact UInt8.le_iff_toNat_le.1 (hd.1 e he)
      unfold executed
      rw [filter_eq_self.2 ha]
    · have hx : executed (st :: steps) pcOffset = executed steps pcOffset := by
        unfold executed
        rw [filter_cons_of_neg (by rw [decide_eq_true_eq]; exact hr)]
      rw [hx, map_cons]
      exact (ih hd.2).trans (suffix_cons _ _)

end Executed

/-! ### Prologues that end with the frame register -/

/-- Behind the frame register nothing is saved, except registers that have been
saved already. -/
def FrameLast (u : UnwindInfo) : List PrologueOp → Prop
  | [] => True
  | op :: history => FrameLast u history ∧ (frameDepth history ≠ none →
    ∀ s, op.saves = some s → s ∈ savedIn history ∧ s ≠ .gpr (frameRegisterOf u))

instance decidableFrameLast (u : UnwindInfo) :
    (history : List PrologueOp) → Decidable (FrameLast u history)
  | [] => isTrue trivial
  | op :: history =>
    have := decidableFrameLast u history
    decidable_of_iff (FrameLast u history ∧ (frameDepth history ≠ none →
        ∀ s ∈ op.saves.toList, s ∈ savedIn history ∧ s ≠ .gpr (frameRegisterOf u)))
      (and_congr_right fun _ => imp_congr_right fun _ =>
        forall_congr' fun s => by rw [mem_toList])

theorem wellFormed_of_suffix {u : UnwindInfo} {earlier history : List PrologueOp}
    (h : earlier <:+ history) (hwf : WellFormed u history) : WellFormed u earlier := by
  obtain ⟨l, rfl⟩ := h
  induction l with
  | nil => exact hwf
  | cons op l ih => exact ih hwf.1

theorem frameLast_of_suffix {u : UnwindInfo} {earlier history : List PrologueOp}
    (h : earlier <:+ history) (hl : FrameLast u history) : FrameLast u earlier := by
  obtain ⟨l, rfl⟩ := h
  induction l with
  | nil => exact hl
  | cons op l ih => exact ih hl.1

/-- What the unwinder has when it is about to undo the operations of `history`:
the RSP is exact before the frame register, and may be too low behind it. -/
structure Recovers (u : UnwindInfo) (entry : ContextAmd64) (low stack : ℕ)
    (history : List PrologueOp) (c : ContextAmd64) : Prop where
  low : low ≤ (c.register rsp).toNat
  exact : frameDepth history = none → (c.register rsp).toNat + depth history = stack
  lowered : (c.register rsp).toNat + depth history ≤ stack
  frame : ∀ d, frameDepth history = some d → (c.register (frameRegisterOf u)).toNat + d =
    stack + (frameDisplacement u).toNat
  values : ∀ s : Saved, s.nonvolatile = true → s ∉ savedIn history → c.value s = entry.value s

section Recover

variable {t : GuestThread} {u : UnwindInfo} {entry ey en : ContextAmd64} {low stack sk top : ℕ}
variable {history : List PrologueOp} {op : PrologueOp} {s : UnwindState}

/-- A register that a push or a save restores: the value of the entry, unless an
earlier operation restores it again. -/
theorem value_of_restored (hh : Holds en sk t.byte (op :: history))
    (hr : HasRoom (op :: history) sk top) (ht : t.Stack low top)
    (hl : FrameLast u (op :: history)) {sl : Slot} (hs : slotOf history op = some sl)
    {ad : UInt64} {v : M128A} (he : t.readSaved ad sl.saved = some v) (ho : low ≤ ad.toNat)
    (ha : frameDepth history = none → (ad.toNat : ℤ) = sk + sl.offset)
    (hn : sl.saved ∉ savedIn history) : v = en.value sl.saved := by
  have hf : frameDepth history = none := by
    by_contra hf
    exact hn (hl.2 hf _ (saved_slotOf hs)).1
  have hd := hr.slots sl (mem_slots_cons.2 (.inl hs))
  have ha := ha hf
  have hv := ht.readSaved hr.top ho (by omega) (hh.2 sl hs hn ad.toNat ha)
  exact some.inj (he.symm.trans hv)

/-- The registers of the entry, when one of them is restored. -/
theorem Recovers.values_setValue {c : ContextAmd64} {r : Saved} {v : M128A}
    (hsa : op.saves = some r) (ha : ∀ s : Saved, s.nonvolatile → s ∉ savedIn (op :: history) →
      c.value s = en.value s) (hv : r ∉ savedIn history → v = en.value r) (s : Saved)
    (hs : s.nonvolatile) (hn : s ∉ savedIn history) : (c.setValue v r).value s = en.value s := by
  by_cases heq : s = r
  · subst heq
    rw [hv hn, value_setValue_self]
  rw [value_setValue heq]
  refine ha s hs fun hm => ?_
  rcases mem_savedIn_cons.1 hm with h | h
  · exact heq (some.inj (h.symm.trans hsa))
  · exact hn h

/-- **Undoing an operation recovers what was before it.** -/
theorem Recovers.undo (h : Recovers u en low sk (op :: history) s.context)
    (hwf : WellFormed u (op :: history)) (hl : FrameLast u (op :: history))
    (hh : Holds en sk t.byte (op :: history)) (hr : HasRoom (op :: history) sk top)
    (ht : t.Stack low top) (hlo : low + depth (op :: history) ≤ sk) :
    ∃ s', Undoes t u s s' op ∧ Recovers u en low sk history s'.context ∧
      (op ≠ .setFrame → s'.establisherFrame = s.establisherFrame) ∧
      (op = .setFrame → s'.establisherFrame.toNat + depth history = sk) := by
  have hlr := h.low
  have hlw := h.lowered
  have hto := hr.top
  have hrt := hr.returnAddress
  cases op with
  | push r =>
    have hde : depth (.push r :: history) = depth history + 8 := rfl
    have hs : slotOf history (.push r) = some ⟨.gpr r, -(depth history + 8)⟩ := rfl
    have hne := Saved.ne_rsp (hwf.2.nonvolatile _ hs)
    have hp : (s.context.register rsp + 8).toNat = (s.context.register rsp).toNat + 8 := by
      rw [UInt64.toNat_add]
      show ((s.context.register rsp).toNat + 8) % 2 ^ 64 = _
      omega
    obtain ⟨value, hre⟩ := ht.exists_readSaved hto _ (.gpr r) hlr (by show _ + 8 ≤ top; omega)
    have hv : .gpr r ∉ savedIn history → value = en.value (.gpr r) :=
      value_of_restored hh hr ht hl hs hre hlr fun hn => by
        have he := h.exact hn
        show _ = (sk : ℤ) + -((depth history : ℤ) + 8)
        omega
    refine ⟨_, ⟨value, s.context.register rsp + 8, hre, hp.symm, rfl⟩, ?_, fun _ => rfl, nofun⟩
    have hg : ((s.context.setRegister rsp (s.context.register rsp + 8)).setValue value
        (.gpr r)).register rsp = s.context.register rsp + 8 := by
      rw [ContextAmd64.register_setValue hne, ContextAmd64.register_setRegister, if_pos rfl]
    refine ⟨?_, fun hn => ?_, ?_, fun d hd => ?_, ?_⟩
    · rw [hg]
      omega
    · have he := h.exact hn
      rw [hg]
      omega
    · rw [hg]
      omega
    · -- behind the frame register its own value is not restored
      have ho : frameDepth history ≠ none := by rw [hd]; exact some_ne_none d
      have hnf := (hl.2 ho _ rfl).2
      rw [ContextAmd64.register_setValue hnf, ContextAmd64.register_setRegister,
        if_neg (hwf.1.frameRegister_ne ho)]
      exact h.frame d hd
    · refine Recovers.values_setValue (saved_slotOf hs) (fun s' hs' hw => ?_) hv
      rw [ContextAmd64.value_setRegister (Saved.ne_rsp hs')]
      exact h.values s' hs' hw
  | alloc si =>
    have hde : depth (.alloc si :: history) = depth history + si.toNat := rfl
    have hi : si.toUInt64.toNat = si.toNat := UInt32.toNat_toUInt64 si
    have hp : (s.context.register rsp + si.toUInt64).toNat =
        (s.context.register rsp).toNat + si.toNat := by
      rw [UInt64.toNat_add, hi]
      omega
    have hg : (s.context.setRegister rsp (s.context.register rsp + si.toUInt64)).register rsp =
          s.context.register rsp + si.toUInt64 := by
      rw [ContextAmd64.register_setRegister, if_pos rfl]
    refine ⟨_, ⟨s.context.register rsp + si.toUInt64, hp.symm, rfl⟩, ?_, fun _ => rfl, nofun⟩
    refine ⟨?_, fun hn => ?_, ?_, fun d hd => ?_, fun s' hs' hw => ?_⟩
    · rw [hg]
      omega
    · have he := h.exact hn
      rw [hg]
      omega
    · rw [hg]
      omega
    · rw [ContextAmd64.register_setRegister,
        if_neg (hwf.1.frameRegister_ne (by rw [hd]; exact some_ne_none d))]
      exact h.frame d hd
    · rw [ContextAmd64.value_setRegister (Saved.ne_rsp hs')]
      exact h.values s' hs' hw
  | setFrame =>
    have hde : depth (.setFrame :: history) = depth history := rfl
    have hn : frameDepth history = none := (hwf.2.frame rfl).2.1
    have hf := h.frame (depth history) rfl
    have hle : frameDisplacement u ≤ s.context.register (frameRegisterOf u) := by
      rw [UInt64.le_iff_toNat_le]
      omega
    have hu := UInt64.toNat_sub_of_le _ _ hle
    have hg : (s.context.setRegister rsp
        (s.context.register (frameRegisterOf u) - frameDisplacement u)).register rsp =
          s.context.register (frameRegisterOf u) - frameDisplacement u := by
      rw [ContextAmd64.register_setRegister, if_pos rfl]
    refine ⟨_, ⟨s.context.register (frameRegisterOf u) - frameDisplacement u, by omega, rfl⟩, ?_,
      fun hop => absurd rfl hop, fun _ => by dsimp only; omega⟩
    -- from here on the RSP is exact again
    refine ⟨?_, fun _ => ?_, ?_, fun d hd => ?_, fun s' hs' hw => ?_⟩
    · rw [hg]
      omega
    · rw [hg]
      omega
    · rw [hg]
      omega
    · rw [hn] at hd
      cases hd
    · rw [ContextAmd64.value_setRegister (Saved.ne_rsp hs')]
      exact h.values s' hs' hw
  | save r o =>
    have hde : depth (.save r o :: history) = depth history := rfl
    have hs : slotOf history (.save r o) = some ⟨r, o.toNat - baseDepth history⟩ := rfl
    have hne := Saved.ne_rsp (hwf.2.nonvolatile _ hs)
    have hb := baseDepth_le history
    have hen := hr.slots _ (mem_slots_cons.2 (.inl hs))
    dsimp only at hen
    have ha : (s.context.register rsp + o.toUInt64).toNat =
        (s.context.register rsp).toNat + o.toNat := by
      rw [UInt64.toNat_add, UInt32.toNat_toUInt64]
      omega
    obtain ⟨value, hre⟩ := ht.exists_readSaved hto
      (s.context.register rsp + o.toUInt64) r (by omega) (by omega)
    have hv : r ∉ savedIn history → value = en.value r :=
      value_of_restored hh hr ht hl hs hre (by omega) fun hn => by
        have he := h.exact hn
        have hbd : baseDepth history = depth history := by
          unfold baseDepth
          rw [hn, getD_none]
        dsimp only
        omega
    have hg : (s.context.setValue value r).register rsp = s.context.register rsp :=
      ContextAmd64.register_setValue hne value
    refine ⟨_, ⟨_, value, ha.symm, hre, rfl⟩, ?_, fun _ => rfl, nofun⟩
    refine ⟨?_, fun hn => ?_, ?_, fun d hd => ?_, ?_⟩
    · rw [hg]
      exact hlr
    · rw [hg]
      exact h.exact hn
    · rw [hg]
      exact hlw
    · have ho : frameDepth history ≠ none := by rw [hd]; exact some_ne_none d
      rw [ContextAmd64.register_setValue (hl.2 ho _ rfl).2]
      exact h.frame d hd
    · exact Recovers.values_setValue rfl h.values hv

/-- **Undoing a prologue recovers the entry.** -/
theorem undoesAll_of_recovers (h : Recovers u ey low stack history s.context)
    (hwf : WellFormed u history) (hl : FrameLast u history)
    (hh : Holds ey stack t.byte history) (hr : HasRoom history stack top)
    (hs : t.Stack low top) (ho : low + depth history ≤ stack) :
    ∃ out, UndoesAll t u history s out ∧ Recovers u ey low stack [] out.context ∧
      (frameDepth history = none → out.establisherFrame = s.establisherFrame) ∧
      ∀ d, frameDepth history = some d → out.establisherFrame.toNat + d = stack := by
  induction history generalizing s with
  | nil => exact ⟨s, rfl, h, fun _ => rfl, fun d hd => by cases hd⟩
  | cons op history ih =>
    obtain ⟨s', hun, hrec, hk, ht⟩ := h.undo hwf hl hh hr hs ho
    have hl' := le_trans (Nat.add_le_add_left (depth_le_cons op history) low) ho
    obtain ⟨out, ha, hu, hn, hso⟩ := ih hrec hwf.1 hl.1 hh.1 hr.tail hl'
    refine ⟨out, ⟨s', hun, ha⟩, hu, ?_, ?_⟩
    · intro hf
      have he : op ≠ .setFrame := by
        rintro rfl
        cases hf
      have hf' : frameDepth history = none := by
        cases op <;> first | exact hf | exact absurd rfl he
      exact (hn hf').trans (hk he)
    · intro d hd
      by_cases hop : op = .setFrame
      · -- the establisher frame is set here, and stays
        subst hop
        cases hd
        rw [hn (hwf.2.frame rfl).2.1]
        exact ht rfl
      · have hd' : frameDepth history = some d := by
          cases op <;> first | exact hd | exact absurd rfl hop
        exact hso d hd'

end Recover

/-! ### Calls of `RtlVirtualUnwind` -/

/-- A function that a pointer to its entry stands for. -/
structure FunctionAt (images : UnwindImages) (found : ResolvedFunction)
    (function : RuntimeFunction) (functionEntry : UInt64) : Prop where
  entry : images.resolveFunctionByRawPointer functionEntry = some found
  function : (images.view found.view).functions[found.index]? = some function

/-- A PC in the function, and in no epilogue that the record has. -/
structure PcIn (images : UnwindImages) (found : ResolvedFunction) (function : RuntimeFunction)
    (pc : UInt64) : Prop where
  resolved : images.resolveFunctionByPc pc = some found
  notEpilog : (images.view found.view).isV2Epilog function pc = false

/-- How far the function has run. -/
def pcOffsetIn (images : UnwindImages) (found : ResolvedFunction) (function : RuntimeFunction)
    (pc : UInt64) : UInt64 :=
  pc - (images.view found.view).base - function.beginRva.toUInt64

/-- Pointers that can be used, with an output for the establisher frame. -/
structure UnwindPointers.Usable (pointers : UnwindPointers) : Prop where
  readsContext : pointers.readsContext = true
  writesContext : pointers.writesContext = true
  writesEstablisher : pointers.writesEstablisher = some true
  writesHandlerData : pointers.writesHandlerData ≠ some false

section Call

variable {images im : UnwindImages} {found fo : ResolvedFunction} {function fu f : RuntimeFunction}
variable {functionEntry fe pc : UInt64} {t : GuestThread} {c : ContextAmd64}

theorem unwindChain_unchained {v : UnwindImageView} {i r : ℕ} (hf : v.functions[i]? = some f)
    (hu : f.unwind.hasChainedFunction = false) {st out : UnwindState} {te : RuntimeFunction} :
    unwindChain t v (r + 1) i pc st = .ok (te, out) ↔ te = f ∧
        applyCodes t f.unwind (pc - v.base - f.beginRva.toUInt64) f.unwind.codes st = .ok out := by
  unfold unwindChain
  rw [hf]
  dsimp only
  split
  · next d hr =>
    rw [hr]
    constructor
    · intro h
      cases h
    · rintro ⟨-, h⟩
      cases h
  · next st' ho =>
    rw [ho, hu]
    simp [eq_comm]

theorem virtualUnwind_iff (ht : FunctionAt im fo f fe) (hp : PcIn im fo f pc)
    (hu : f.unwind.hasChainedFunction = false) (hy : UInt32) {n : ContextAmd64} {frame : UInt64} :
    (∃ o, virtualUnwind im t hy (im.view fo.view).base pc fe c =
        .ok o ∧ o.context = n ∧ o.establisherFrame = frame) ↔
      ∃ out, applyCodes t f.unwind (pcOffsetIn im fo f pc)
          f.unwind.codes ⟨c, c.register rsp, false⟩ = .ok out ∧
        (if out.machineFrame then some out.context else advanceLeaf t out.context) = some n ∧
        out.establisherFrame = frame := by
  unfold virtualUnwind pcOffsetIn
  rw [ht.entry, hp.resolved]
  dsimp only
  rw [ht.function]
  dsimp only
  rw [if_neg (by simp), hp.notEpilog, if_neg (by simp)]
  cases hc : unwindChain t (im.view fo.view) ((im.view fo.view).functions.length + 1) fo.index pc
      ⟨c, c.register rsp, false⟩ with
  | error d =>
    dsimp only
    constructor
    · rintro ⟨_, h, -⟩
      cases h
    · rintro ⟨out, ha, -⟩
      have hk : unwindChain t (im.view fo.view)
          ((im.view fo.view).functions.length + 1) fo.index pc
          ⟨c, c.register rsp, false⟩ = .ok (f, out) :=
        (unwindChain_unchained ht.function hu).2 ⟨rfl, ha⟩
      rw [hc] at hk
      cases hk
  | ok r =>
    obtain ⟨te, st⟩ := r
    obtain ⟨-, ha⟩ := (unwindChain_unchained ht.function hu).1 hc
    rw [ha]
    dsimp only
    cases hd : (if st.machineFrame then some st.context
        else advanceLeaf t st.context) with
    | none =>
      dsimp only
      constructor
      · rintro ⟨_, h, -⟩
        cases h
      · rintro ⟨out, ho, hn, -⟩
        cases ho
        rw [hd] at hn
        cases hn
    | some ud =>
      dsimp only
      constructor
      · rintro ⟨o, h, rfl, rfl⟩
        refine ⟨st, rfl, ?_, ?_⟩
        · split at h <;> cases h <;> exact hd
        · split at h <;> cases h <;> rfl
      · rintro ⟨out, ho, hn, rfl⟩
        cases ho
        cases hd.symm.trans hn
        split
        · exact ⟨_, rfl, rfl, rfl⟩
        · exact ⟨_, rfl, rfl, rfl⟩

theorem rtlVirtualUnwind_iff {ps : UnwindPointers} (hp : ps.Usable)
    {ht : UInt32} {ib : UInt64} {n : ContextAmd64} {frame : UInt64} :
    ((rtlVirtualUnwind im t ps ht ib pc fe c).establisherFrame = some frame ∧
      (rtlVirtualUnwind im t ps ht ib pc fe c).context = n) ↔
      ∃ o, virtualUnwind im t ht ib pc fe c = .ok o ∧
        o.context = n ∧ o.establisherFrame = frame := by
  unfold rtlVirtualUnwind
  rw [hp.readsContext, hp.writesContext, hp.writesEstablisher]
  have hd := hp.writesHandlerData
  cases virtualUnwind im t ht ib pc fe c with
  | error d => simp
  | ok o => simp [hd, and_comm]

end Call

/-! ### Threads in a prologue and in the body -/

/-- A thread behind the operations of `history`.  In the body it may have lowered
the RSP below a fixed frame, and changed what it does not have to keep. -/
structure Behind (u : UnwindInfo) (history : List PrologueOp) (inBody : Prop)
    (entry : PrologueState) (c : ContextAmd64) (t : GuestThread) : Prop where
  inProlog : ¬ inBody → c = (entry.run u history).context ∧ t.byte = (entry.run u history).byte
  frame : frameDepth history ≠ none → c.register (frameRegisterOf u) =
    (entry.run u history).context.register (frameRegisterOf u)
  stack : c.register rsp = (entry.run u history).context.register rsp ∨
    frameDepth history ≠ none ∧ c.register rsp ≤ (entry.run u history).context.register rsp
  values : ∀ s : Saved, s.nonvolatile = true → s ∉ savedIn history →
    c.value s = (entry.run u history).context.value s
  slots : ∀ slot ∈ slots history,
    SameSlot (entry.context.register rsp).toNat (entry.run u history).byte t.byte slot
  returnAddress : ∀ i < 8, t.byte ((entry.context.register rsp).toNat + i) =
    (entry.run u history).byte ((entry.context.register rsp).toNat + i)

/-- A call wrote the state of the entry, as it is behind the return, and the frame base. -/
structure Unwound (u : UnwindInfo) (history : List PrologueOp) (entry : PrologueState)
    (returnAddress : UInt64) (r : UnwindReturn) : Prop where
  rip : r.context.rip = returnAddress
  stack : r.context.register rsp = entry.context.register rsp + 8
  values : ∀ s : Saved, s.nonvolatile = true → r.context.value s = entry.context.value s
  establisherFrame : r.establisherFrame = some ((entry.run u history).frameBase u)

/-- `RtlVirtualUnwind` finds the entry of a function, from every PC and every run up to it. -/
def Inverts (images : UnwindImages) (found : ResolvedFunction) (function : RuntimeFunction)
    (functionEntry : UInt64) (steps : List (UInt8 × PrologueOp)) : Prop :=
  ∀ pc, PcIn images found function pc →
    ∀ (entry : PrologueState) (returnAddress : UInt64) (c : ContextAmd64) (t : GuestThread)
      (low top : ℕ),
      entry.established = false →
      HasBytes entry.byte (entry.context.register rsp).toNat (toLE 8 returnAddress.toNat) →
      HasRoom (executed steps (pcOffsetIn images found function pc))
        (entry.context.register rsp).toNat top →
      t.Stack low top → low ≤ (c.register rsp).toNat →
      Behind function.unwind (executed steps (pcOffsetIn images found function pc))
        (function.unwind.prologSize.toUInt64 ≤ pcOffsetIn images found function pc) entry c t →
      ∀ (pointers : UnwindPointers) (handlerType : UInt32), pointers.Usable →
        Unwound function.unwind (executed steps (pcOffsetIn images found function pc)) entry
          returnAddress (rtlVirtualUnwind images t pointers handlerType
            (images.view found.view).base pc functionEntry c)

section Entry

variable {u : UnwindInfo} {history : List PrologueOp} {inBody : Prop} {entry ey en : PrologueState}
variable {c : ContextAmd64} {t : GuestThread} {low top : ℕ}

theorem Undoes.machineFrame {op : PrologueOp} {s s' : UnwindState} (h : Undoes t u s s' op) :
    s'.machineFrame = s.machineFrame := by
  cases op with
  | push r =>
    obtain ⟨_, _, _, _, rfl⟩ := h
    rfl
  | alloc si =>
    obtain ⟨_, _, rfl⟩ := h
    rfl
  | setFrame =>
    obtain ⟨_, _, rfl⟩ := h
    rfl
  | save r o =>
    obtain ⟨_, _, _, _, rfl⟩ := h
    rfl

theorem UndoesAll.machineFrame {s out : UnwindState} (h : UndoesAll t u history s out) :
    out.machineFrame = s.machineFrame := by
  induction history generalizing s with
  | nil => rw [h]
  | cons op history ih =>
    obtain ⟨s', hop, ha⟩ := h
    exact (ih ha).trans hop.machineFrame

/-- The unwinder begins with all that it needs. -/
theorem Behind.recovers (h : Behind u history inBody en c t) (hwf : WellFormed u history)
    (hr : HasRoom history (en.context.register rsp).toNat top) (hl : low ≤ (c.register rsp).toNat) :
    Recovers u en.context low (en.context.register rsp).toNat history c := by
  have hp := rsp_run (m := en) hwf hr.depth rfl
  refine ⟨hl, fun hn => ?_, ?_, fun d hd => ?_, fun s hs he => ?_⟩
  · rcases h.stack with ha | ⟨hf, -⟩
    · rw [ha]
      exact hp
    · exact absurd hn hf
  · rcases h.stack with ha | ⟨-, hle⟩
    · rw [ha]
      exact le_of_eq hp
    · rw [UInt64.le_iff_toNat_le] at hle
      omega
  · rw [h.frame (by rw [hd]; exact some_ne_none d)]
    exact frameRegister_run hwf hr rfl hd
  · rw [h.values s hs he]
    exact value_run_of_new hwf hs he

theorem value_of_advanceLeaf {n : ContextAmd64} (h : advanceLeaf t c = some n) {s : Saved}
    (hs : s.nonvolatile) : n.value s = c.value s := by
  unfold advanceLeaf at h
  simp only [bind_eq_bind, bind_eq_some_iff, some.injEq] at h
  obtain ⟨r, -, sk, -, rfl⟩ := h
  exact value_setRegister (ne_rsp hs) sk

theorem advanceLeaf_of_hasBytes {returnAddress : UInt64} (hs : t.Stack low top)
    (ht : top + 0x1000 ≤ 2 ^ 64) (hl : low ≤ (c.register rsp).toNat)
    (he : (c.register rsp).toNat + 8 ≤ top)
    (hb : HasBytes t.byte (c.register rsp).toNat (toLE 8 returnAddress.toNat)) :
    advanceLeaf t c =
      some { c.setRegister rsp (c.register rsp + 8) with rip := returnAddress } := by
  -- a context that has the return address in a register
  have hr := hs.readSaved (s := .gpr rax) (c := c.setRegister rax returnAddress) ht hl he
    (by simpa [Saved.bytes, register_setRegister] using hb)
  obtain ⟨w, hw, heq⟩ := map_eq_some_iff.1 hr
  have hv : w = returnAddress := by
    have hl := congrArg M128A.low heq
    simpa [register_setRegister] using hl
  have ha : addU64 (c.register rsp) 8 = some (c.register rsp + 8) := by
    rw [addU64_eq_some, UInt64.toNat_add]
    show _ + 8 = (_ + 8) % 2 ^ 64
    omega
  unfold advanceLeaf
  rw [hw, hv, ha]
  rfl

theorem Behind.undoesAll (h : Behind u history inBody ey c t) (hwf : WellFormed u history)
    (hl : FrameLast u history) (he : ey.established = false)
    (hr : HasRoom history (ey.context.register rsp).toNat top) (hs : t.Stack low top)
    (hw : low ≤ (c.register rsp).toNat) :
    ∃ out, UndoesAll t u history ⟨c, c.register rsp, false⟩ out ∧
      Recovers u ey.context low (ey.context.register rsp).toNat [] out.context ∧
      out.establisherFrame = (ey.run u history).frameBase u := by
  have hrec := h.recovers hwf hr hw
  have hh : Holds ey.context (ey.context.register rsp).toNat t.byte history :=
    (holds_run hwf hr rfl he).congr h.slots
  have hl' : low + depth history ≤ (ey.context.register rsp).toNat := by
    have hlw := hrec.lowered
    omega
  obtain ⟨out, ha, ho, hn, hso⟩ :=
    undoesAll_of_recovers (s := ⟨c, c.register rsp, false⟩) hrec hwf hl hh hr hs hl'
  refine ⟨out, ha, ho, UInt64.toNat_inj.1 ?_⟩
  have hb := frameBase_run hwf hr rfl he
  unfold baseDepth at hb
  cases hd : frameDepth history with
  | none =>
    have hx := hrec.exact hd
    rw [hd, getD_none] at hb
    rw [hn hd]
    show (c.register rsp).toNat = _
    omega
  | some d =>
    have hf := hso d hd
    rw [hd, getD_some] at hb
    omega

theorem Behind.hasReturnAddress (h : Behind u history inBody en c t)
    (hwf : WellFormed u history) (he : en.established = false)
    (hr : HasRoom history (en.context.register rsp).toNat top) {r : UInt64}
    (hb : HasBytes en.byte (en.context.register rsp).toNat (toLE 8 r.toNat)) :
    HasBytes t.byte (en.context.register rsp).toNat (toLE 8 r.toNat) := by
  intro i hi
  have hi8 : i < 8 := by simpa using hi
  rw [h.returnAddress i hi8, byte_run_apart hwf hr rfl he]
  · exact hb i hi
  · intro sl hs
    have ha := hwf.returnAddress hs
    unfold Slot.Apart at ha ⊢
    omega

end Entry

/-! ### Registers that are saved behind the frame register -/

section Lowered

variable {t : GuestThread} {u : UnwindInfo} {history later la l bef : List PrologueOp}
variable {op : PrologueOp} {s s' out : UnwindState}

theorem exists_not_frameLast (h : ¬ FrameLast u history) :
    ∃ l op bef, history = l ++ op :: bef ∧ FrameLast u bef ∧
      frameDepth bef ≠ none ∧
      ∃ r, op.saves = some r ∧ (r ∈ savedIn bef → r = .gpr (frameRegisterOf u)) := by
  induction history with
  | nil => exact absurd trivial h
  | cons op history ih =>
    by_cases hl : FrameLast u history
    · refine ⟨[], op, history, rfl, hl, ?_⟩
      by_contra hn
      refine h ⟨hl, fun hf r hs => ?_⟩
      by_contra ha
      refine hn ⟨hf, r, hs, fun hm => ?_⟩
      by_contra he
      exact ha ⟨hm, he⟩
    · obtain ⟨l, op', bef, rfl, hr⟩ := ih hl
      exact ⟨op :: l, op', bef, rfl, hr⟩

theorem Undoes.depth (h : Undoes t u s s' op) (hn : op ≠ .setFrame)
    (hs : ∀ r, op.saves = some r → r ≠ .gpr rsp) (history : List PrologueOp) :
    (s'.context.register rsp).toNat + Runtime.depth history =
      (s.context.register rsp).toNat + Runtime.depth (op :: history) := by
  cases op with
  | push r =>
    obtain ⟨v, stack, -, ht, rfl⟩ := h
    have hd : Runtime.depth (.push r :: history) = Runtime.depth history + 8 := rfl
    have hr : ((s.context.setRegister rsp stack).setValue v (.gpr r)).register rsp = stack := by
      rw [register_setValue (hs _ rfl), register_setRegister, if_pos rfl]
    rw [hr]
    omega
  | alloc si =>
    obtain ⟨stack, ht, rfl⟩ := h
    have hd : Runtime.depth (.alloc si :: history) = Runtime.depth history + si.toNat := rfl
    rw [register_setRegister, if_pos rfl]
    omega
  | setFrame => exact absurd rfl hn
  | save r o =>
    obtain ⟨address, v, -, -, rfl⟩ := h
    rw [register_setValue (hs _ rfl)]
    rfl

theorem frameDepth_append (hwf : WellFormed u (later ++ bef)) (hf : frameDepth bef ≠ none) :
    frameDepth (later ++ bef) ≠ none ∧ .setFrame ∉ later := by
  induction later with
  | nil => exact ⟨hf, not_mem_nil⟩
  | cons op later ih =>
    obtain ⟨hs, hm⟩ := ih hwf.1
    have hn : op ≠ .setFrame := fun hop => hs (hwf.2.frame hop).2.1
    constructor
    · rw [cons_append]
      cases op <;> first | exact hs | exact absurd rfl hn
    · rw [mem_cons, not_or]
      exact ⟨hn.symm, hm⟩

theorem UndoesAll.depth (h : UndoesAll t u (later ++ bef) s out)
    (hwf : WellFormed u (later ++ bef)) (hf : frameDepth bef ≠ none) :
    ∃ s', UndoesAll t u bef s' out ∧ (s'.context.register rsp).toNat + Runtime.depth bef =
        (s.context.register rsp).toNat + Runtime.depth (later ++ bef) := by
  induction later generalizing s with
  | nil => exact ⟨s, h, rfl⟩
  | cons op later ih =>
    obtain ⟨s', hop, ha⟩ := h
    obtain ⟨s'', hb, hd⟩ := ih ha hwf.1
    have hn : op ≠ .setFrame := by
      rintro rfl
      exact (frameDepth_append hwf hf).2 mem_cons_self
    have hs : ∀ r, op.saves = some r → r ≠ .gpr rsp := fun r hr =>
      ne_rsp (hwf.nonvolatile (mem_savedIn_cons.2 (.inl hr)))
    exact ⟨s'', hb, hd.trans (hop.depth hn hs _)⟩

theorem Undoes.value (h : Undoes t u s s' op) {r : Saved} (hs : r ≠ .gpr rsp)
    (hr : op.saves ≠ some r) : s'.context.value r = s.context.value r := by
  cases op with
  | push r' =>
    obtain ⟨v, sk, -, -, rfl⟩ := h
    exact (value_setValue (fun heq => hr (by rw [heq]; rfl)) _).trans
      (value_setRegister hs _)
  | alloc si =>
    obtain ⟨sk, -, rfl⟩ := h
    exact value_setRegister hs _
  | setFrame =>
    obtain ⟨fr, -, rfl⟩ := h
    exact value_setRegister hs _
  | save r' o =>
    obtain ⟨ad, v, -, -, rfl⟩ := h
    exact value_setValue (fun heq => hr (by rw [heq]; rfl)) _

theorem UndoesAll.value (h : UndoesAll t u history s out) {r : Saved} (hs : r ≠ .gpr rsp)
    (hr : r ∉ savedIn history) : out.context.value r = s.context.value r := by
  induction history generalizing s with
  | nil => rw [h]
  | cons op history ih =>
    obtain ⟨s', hop, ha⟩ := h
    rw [mem_savedIn_cons, not_or] at hr
    exact (ih ha hr.2).trans (hop.value hs hr.1)

theorem Undoes.restores (h : Undoes t u s s' op) {r : Saved} (hr : op.saves = some r) :
    ∃ (ad : UInt64) (v : M128A) (c : ContextAmd64), (s.context.register rsp).toNat ≤ ad.toNat ∧
      ad.toNat < (s.context.register rsp).toNat + 2 ^ 32 ∧
      t.readSaved ad r = some v ∧ s'.context = c.setValue v r := by
  cases op with
  | push r' =>
    cases hr
    obtain ⟨v, sk, he, -, rfl⟩ := h
    exact ⟨_, v, _, le_refl _, by omega, he, rfl⟩
  | alloc si => cases hr
  | setFrame => cases hr
  | save r' o =>
    cases hr
    obtain ⟨ad, v, ha, he, rfl⟩ := h
    have ho := o.toNat_lt
    exact ⟨ad, v, _, by omega, by omega, he, rfl⟩

theorem UndoesAll.establisherFrame (h : UndoesAll t u history s out)
    (hf : frameDepth history = none) : out.establisherFrame = s.establisherFrame := by
  induction history generalizing s with
  | nil => rw [h]
  | cons op history ih =>
    obtain ⟨s', hop, ha⟩ := h
    cases op with
    | push r =>
      obtain ⟨_, _, _, _, rfl⟩ := hop
      exact (ih ha hf).trans rfl
    | alloc si =>
      obtain ⟨_, _, rfl⟩ := hop
      exact (ih ha hf).trans rfl
    | setFrame => cases hf
    | save r o =>
      obtain ⟨_, _, _, _, rfl⟩ := hop
      exact (ih ha hf).trans rfl

theorem UndoesAll.establisherFrame_zero (h : UndoesAll t u history s out)
    (hwf : WellFormed u history) (hl : FrameLast u history) (hf : frameDepth history ≠ none)
    (hz : (s.context.value (.gpr (frameRegisterOf u))) = ⟨0, 0⟩) : out.establisherFrame = 0 := by
  induction history generalizing s with
  | nil => exact absurd rfl hf
  | cons op history ih =>
    obtain ⟨s', hop, ha⟩ := h
    have hn : Saved.gpr (frameRegisterOf u) ≠ .gpr rsp := fun heq =>
      hwf.frameRegister_ne hf (Saved.gpr.inj heq)
    by_cases he : op = .setFrame
    · subst he
      obtain ⟨fr, hv, rfl⟩ := hop
      rw [ha.establisherFrame (hwf.2.frame rfl).2.1]
      have hr : s.context.register (frameRegisterOf u) = 0 := congrArg M128A.low hz
      rw [hr, UInt64.toNat_zero] at hv
      refine UInt64.toNat_inj.1 ?_
      rw [UInt64.toNat_zero]
      dsimp only
      omega
    · have hf' : frameDepth history ≠ none := by
        cases op <;> first | exact hf | exact absurd rfl he
      have hk : op.saves ≠ some (.gpr (frameRegisterOf u)) := fun hs => (hl.2 hf' _ hs).2 rfl
      exact ih ha hwf.1 hl.1 hf' ((hop.value hn hk).trans hz)

end Lowered

/-! ### A run that lowers the RSP -/

/-- A thread whose registers are not zero, on a stack that is. -/
def bareEntry : PrologueState where
  context := ⟨fun r => if r = rsp then 0x4000000000000000 else 1, 0, fun _ => ⟨1, 0⟩⟩
  byte := fun _ => some 0

/-- How much the body of that thread allocates. -/
def bareAlloc : UInt64 := 0x20000000000

/-- The thread in the body. -/
def bareContext (u : UnwindInfo) (history : List PrologueOp) : ContextAmd64 :=
  let context := (bareEntry.run u history).context
  context.setRegister rsp (context.register rsp - bareAlloc)

def bareThread (u : UnwindInfo) (history : List PrologueOp) : GuestThread :=
  ⟨none, (bareEntry.run u history).byte⟩

section Bare

variable {u : UnwindInfo} {history : List PrologueOp}

theorem rsp_bareEntry : (bareEntry.context.register rsp).toNat = 2 ^ 62 := rfl

theorem value_bareEntry {s : Saved} (hs : s ≠ .gpr rsp) : bareEntry.context.value s = ⟨1, 0⟩ := by
  cases s with
  | gpr r =>
    have hn : r ≠ rsp := fun heq => hs (by rw [heq])
    show (⟨if r = rsp then 0x4000000000000000 else 1, 0⟩ : M128A) = _
    rw [if_neg hn]
  | xmm x => rfl

theorem depth_le_length (history : List PrologueOp) : depth history ≤ 2 ^ 32 * history.length := by
  induction history with
  | nil => exact le_refl 0
  | cons op history ih =>
    rw [length_cons]
    cases op with
    | push r =>
      show depth history + 8 ≤ _
      omega
    | alloc si =>
      have hs := si.toNat_lt
      show depth history + si.toNat ≤ _
      omega
    | setFrame =>
      show depth history ≤ _
      omega
    | save s o =>
      show depth history ≤ _
      omega

theorem offset_lt {sl : Slot} (h : sl ∈ slots history) : sl.offset < 2 ^ 32 := by
  induction history with
  | nil => cases h
  | cons op history ih =>
    rcases mem_slots_cons.1 h with h | h
    · cases op with
      | push r =>
        cases h
        show -((depth history : ℤ) + 8) < 2 ^ 32
        omega
      | alloc si => cases h
      | setFrame => cases h
      | save s o =>
        cases h
        have ho := o.toNat_lt
        dsimp only
        omega
    · exact ih h

theorem hasRoom_bareEntry (hln : history.length < 256) : HasRoom history (2 ^ 62) (2 ^ 63) where
  depth := by
    have hd := depth_le_length history
    omega
  returnAddress := by decide
  slots := fun sl hl => by
    have ho := offset_lt hl
    have hs := sl.saved.size_le
    push_cast
    omega
  top := by decide

theorem byte_run_isSome {m : PrologueState} (hm : ∀ a, (m.byte a).isSome) (a : ℕ) :
    ((m.run u history).byte a).isSome := by
  have hs : ∀ {b : ℕ → Option UInt8} {ad : ℕ} {bs : ByteString},
      (b a).isSome → (storeBytes b ad bs a).isSome := by
    intro b ad bs h
    unfold storeBytes
    split
    · next hi =>
      rw [getElem?_eq_getElem (by omega)]
      rfl
    · exact h
  induction history with
  | nil => exact hm a
  | cons op history ih =>
    cases op with
    | push r => exact hs ih
    | alloc si => exact ih
    | setFrame => exact ih
    | save s o => exact hs ih

theorem stack_bareThread : (bareThread u history).Stack (2 ^ 61) (2 ^ 63) where
  pos := by decide
  mapped := fun a _ _ => byte_run_isSome (fun _ => rfl) a
  teb := fun li b h => by cases h

section

variable (hwf : WellFormed u history)
include hwf

section

variable (hln : history.length < 256)
include hln

/-- Below the RSP of the prologue there are zeros. -/
theorem hasBytes_bareThread {ad : ℕ} {s : Saved} (ha : ad + 16 + depth history ≤ 2 ^ 62) :
    HasBytes (bareThread u history).byte ad (s.bytes ⟨0, 0⟩) := by
  have hz : ∀ i < s.size, (s.bytes ⟨0, 0⟩)[i]? = some 0 := by
    cases s with
    | gpr r =>
      show ∀ i < 8, (toLE 8 (0 : UInt64).toNat)[i]? = some 0
      decide
    | xmm x =>
      show ∀ i < 16, (toLE 8 (0 : UInt64).toNat ++ toLE 8 (0 : UInt64).toNat)[i]? = some 0
      decide
  intro i hi
  rw [Saved.length_bytes] at hi
  have hs := s.size_le
  rw [hz i hi]
  refine byte_run_apart hwf (hasRoom_bareEntry hln) rsp_bareEntry rfl fun sl hl => .inr ?_
  have ho := neg_depth_le_offset hl
  push_cast
  omega

theorem rsp_bareContext :
    ((bareContext u history).register rsp).toNat + 2 ^ 41 + depth history = 2 ^ 62 := by
  have hr := rsp_run hwf (hasRoom_bareEntry hln).depth rsp_bareEntry
  have hd := depth_le_length history
  have ha : bareAlloc.toNat = 2 ^ 41 := rfl
  have hl : bareAlloc ≤ (bareEntry.run u history).context.register rsp := by
    rw [UInt64.le_iff_toNat_le]
    omega
  dsimp only [bareContext]
  rw [register_setRegister, if_pos rfl, UInt64.toNat_sub_of_le _ _ hl]
  omega

theorem behind_bareContext (hf : frameDepth history ≠ none) {inBody : Prop} (hb : inBody) :
    Behind u history inBody bareEntry (bareContext u history) (bareThread u history) := by
  refine ⟨fun hp => absurd hb hp, fun _ => ?_, .inr ⟨hf, ?_⟩, ?_,
    fun sl _ ad _ i _ => rfl, fun i _ => rfl⟩
  · dsimp only [bareContext]
    rw [register_setRegister, if_neg (hwf.frameRegister_ne hf)]
  · have hr := rsp_run hwf (hasRoom_bareEntry hln).depth rsp_bareEntry
    have hc := rsp_bareContext hwf hln
    rw [UInt64.le_iff_toNat_le]
    omega
  · intro s hs _
    exact value_setRegister (ne_rsp hs) _

theorem restores_zero
    {op : PrologueOp} {s s' : UnwindState} (h : Undoes (bareThread u history) u s s' op)
    {r : Saved} (hr : op.saves = some r) (hl : 2 ^ 61 ≤ (s.context.register rsp).toNat)
    (hbe : (s.context.register rsp).toNat + 2 ^ 41 ≤ 2 ^ 62) : s'.context.value r = ⟨0, 0⟩ := by
  obtain ⟨ad, v, c, hg, ht, he, hc⟩ := h.restores hr
  have hd := depth_le_length history
  have hs := r.size_le
  let zero : ContextAmd64 := ⟨fun _ => 0, 0, fun _ => ⟨0, 0⟩⟩
  have hz : zero.value r = ⟨0, 0⟩ := by cases r <;> rfl
  have hb : HasBytes (bareThread u history).byte ad.toNat (r.bytes (zero.value r)) := by
    rw [hz]
    exact hasBytes_bareThread hwf hln (by omega)
  have hv := stack_bareThread.readSaved (by decide) (le_trans hl hg) (by omega) hb
  cases hv.symm.trans he
  rw [hc, value_setValue_self, hz]

end

theorem frameDepth_of_not_frameLast (h : ¬ FrameLast u history) : frameDepth history ≠ none := by
  obtain ⟨later, op, bef, rfl, -, hf, -⟩ := exists_not_frameLast h
  rw [append_cons] at hwf ⊢
  exact (frameDepth_append hwf hf).1

/-- What the unwinder finds in that thread: a register that it lost, or a frame
of zero. -/
theorem undoesAll_bareContext (hln : history.length < 256)
    (hl : ¬ FrameLast u history) {fr : UInt64} {out : UnwindState}
    (h : UndoesAll (bareThread u history) u history ⟨bareContext u history, fr, false⟩ out) :
    (∃ r : Saved, r.nonvolatile ∧ out.context.value r = ⟨0, 0⟩) ∨
      out.establisherFrame = 0 := by
  have hp := rsp_bareContext hwf hln
  have hld := depth_le_length history
  obtain ⟨later, op, bef, heq, hb, hf, r, hr, hi⟩ := exists_not_frameLast hl
  have hu : op :: bef <:+ history := ⟨later, heq.symm⟩
  have hs : WellFormed u (op :: bef) := wellFormed_of_suffix hu hwf
  have hn := hs.nonvolatile (mem_savedIn_cons.2 (.inl hr))
  have ho : frameDepth ([op] ++ bef) ≠ none := (frameDepth_append hs hf).1
  -- undo what comes behind the operation, and the operation
  have ha : UndoesAll (bareThread u history) u (later ++ op :: bef)
      ⟨bareContext u history, fr, false⟩ out := by
    rw [← heq]
    exact h
  obtain ⟨s, ⟨s', hop, hre⟩, hd⟩ := ha.depth (by rw [← heq]; exact hwf) ho
  rw [← heq] at hd
  dsimp only at hd
  have hle := depth_le_of_suffix hu
  have hz := restores_zero hwf hln hop hr (by omega) (by omega)
  by_cases he : r = .gpr (frameRegisterOf u)
  · rw [he] at hz
    exact .inr (hre.establisherFrame_zero hs.1 hb hf hz)
  · refine .inl ⟨r, hn, ?_⟩
    rw [hre.value (ne_rsp hn) (mt hi he)]
    exact hz

end

end Bare

section Inversion

variable {images im : UnwindImages} {found fo : ResolvedFunction} {function fu f : RuntimeFunction}
variable {functionEntry fe : UInt64} {steps ste ss : List (UInt8 × PrologueOp)}

/-- **A prologue that ends with the frame register is inverted.** -/
theorem inverts_of_frameLast (hat : FunctionAt images found function functionEntry)
    (hn : Encodes function.unwind steps) (hwf : WellFormed function.unwind (steps.map (·.2)))
    (hl : FrameLast function.unwind (steps.map (·.2))) :
    Inverts images found function functionEntry steps := by
  intro pc hpc entry r c t low top he hb hr ht hw hh ps handlerType hi
  have hu := hn.executed_suffix (pcOffsetIn images found function pc)
  have hwf := wellFormed_of_suffix hu hwf
  have hl := frameLast_of_suffix hu hl
  obtain ⟨out, ha, ho, hf⟩ := hh.undoesAll hwf hl he hr ht hw
  have hp : out.context.register rsp = entry.context.register rsp :=
    UInt64.toNat_inj.1 (ho.exact rfl)
  have hre := hr.returnAddress
  have hd : advanceLeaf t out.context =
      some { out.context.setRegister rsp (out.context.register rsp + 8) with
        rip := r } :=
    advanceLeaf_of_hasBytes ht hr.top ho.low (by rw [hp]; exact hre)
      (by rw [hp]; exact hh.hasReturnAddress hwf he hr hb)
  have hm : out.machineFrame = false := ha.machineFrame
  obtain ⟨hes, hc⟩ := (rtlVirtualUnwind_iff hi).2
    ((virtualUnwind_iff hat hpc hn.unchained handlerType).2
      ⟨out, (applyCodes_iff hn.codes).2 ha, by rw [hm]; exact hd, hf⟩)
  refine ⟨?_, ?_, fun s hs => ?_, hes⟩
  · rw [hc]
  · rw [hc, ← hp]
    exact (register_setRegister (c := out.context) rsp rsp _).trans (if_pos rfl)
  · rw [hc]
    have hv := ho.values s hs not_mem_nil
    rw [← hv]
    exact value_setRegister (ne_rsp hs) _

/-- **A prologue that is inverted ends with the frame register**, if it has a body. -/
theorem frameLast_of_inverts (ht : FunctionAt im fo f fe) (he : Encodes f.unwind ss)
    (hwf : WellFormed f.unwind (ss.map (·.2))) (pc : UInt64) (hc : PcIn im fo f pc)
    (hb : f.unwind.prologSize.toUInt64 ≤ pcOffsetIn im fo f pc) (h : Inverts im fo f fe ss) :
    FrameLast f.unwind (ss.map (·.2)) := by
  by_contra hl
  have hln : (ss.map (·.2)).length < 256 := by
    rw [length_map, ← he.codes.length_eq]
    exact he.count
  have hx := he.executed_body hb
  have hrs := rsp_bareContext hwf hln
  have hd := depth_le_length (ss.map (·.2))
  have hp : UnwindPointers.Usable ⟨true, true, some true, none⟩ := ⟨rfl, rfl, rfl, by decide⟩
  have hu := h pc hc bareEntry 0 (bareContext f.unwind (ss.map (·.2)))
    (bareThread f.unwind (ss.map (·.2))) (2 ^ 61) (2 ^ 63) rfl
    (fun i hi => by
      have hz : ∀ i < 8, (toLE 8 (0 : UInt64).toNat)[i]? = some 0 := by decide
      exact (hz i hi).symm)
    (by rw [hx, rsp_bareEntry]; exact hasRoom_bareEntry hln) stack_bareThread (by omega)
    (by
      rw [hx]
      exact behind_bareContext hwf hln (frameDepth_of_not_frameLast hwf hl) hb)
    ⟨true, true, some true, none⟩ 0 hp
  rw [hx] at hu
  -- what the call found is wrong
  obtain ⟨o, hvi, ho, hs⟩ := (rtlVirtualUnwind_iff hp).1 ⟨hu.establisherFrame, rfl⟩
  obtain ⟨out, ha, had, hf⟩ := (virtualUnwind_iff ht hc he.unchained 0).1
    ⟨o, hvi, ho, hs⟩
  have hal := (applyCodes_iff he.codes).1 ha
  rw [hx] at hal
  rcases undoesAll_bareContext hwf hln hl hal with ⟨r, hr, hv⟩ | hz
  · have hm : out.machineFrame = false := hal.machineFrame
    rw [hm] at had
    have hk := hu.values r hr
    rw [← value_of_advanceLeaf had hr] at hv
    rw [hv, value_bareEntry (ne_rsp hr)] at hk
    exact absurd hk (by decide)
  · have hba := frameBase_run (m := bareEntry) hwf (hasRoom_bareEntry hln)
      rsp_bareEntry rfl
    have hbd := baseDepth_le (ss.map (·.2))
    rw [← hf, hz, UInt64.toNat_zero] at hba
    omega

/-- **The unwinder inverts a prologue if and only if nothing is first saved behind
the frame register.** -/
theorem rtlVirtualUnwind_inverts_iff (hat : FunctionAt images found function functionEntry)
    (hencodes : Encodes function.unwind steps) (hwf : WellFormed function.unwind (steps.map (·.2)))
    (hbody : ∃ pc, PcIn images found function pc ∧
      function.unwind.prologSize.toUInt64 ≤ pcOffsetIn images found function pc) :
    Inverts images found function functionEntry steps ↔
      FrameLast function.unwind (steps.map (·.2)) := by
  obtain ⟨pc, hp, ho⟩ := hbody
  exact ⟨frameLast_of_inverts hat hencodes hwf pc hp ho, inverts_of_frameLast hat hencodes hwf⟩

end Inversion

/-! ### A function that saves RSI before it fixes its frame, and one that does it after -/

/-- `push rbp`, `sub rsp, 32`, `mov [rsp+8], rsi`, `lea rbp, [rsp]`. -/
def frameLastSteps : List (UInt8 × PrologueOp) :=
  [(14, .setFrame), (10, .save (.gpr rsi) 8), (5, .alloc 32), (1, .push rbp)]

/-- `push rbp`, `sub rsp, 32`, `lea rbp, [rsp]`, `mov [rbp+8], rsi`. -/
def saveLastSteps : List (UInt8 × PrologueOp) :=
  [(13, .save (.gpr rsi) 8), (9, .setFrame), (5, .alloc 32), (1, .push rbp)]

/-- The two functions, with the codes as the reader gets them. -/
def frameFunctions : ByteString :=
  Pe.buildFunctions
    [{ beginRva := 0x1000, endRva := 0x1100, prologSize := 14, frame := 0x05
       codes := [(14, 0x03), (10, 0x64), (1, 0), (5, 0x32), (1, 0x50)] },
     { beginRva := 0x1100, endRva := 0x1200, prologSize := 13, frame := 0x05
       codes := [(13, 0x64), (1, 0), (9, 0x03), (5, 0x32), (1, 0x50)] }]

def frameLastFunction : RuntimeFunction where
  beginRva := 0x1000
  endRva := 0x1100
  unwindInfoRva := 0x100
  unwind :=
    { version := 1, prologSize := 14, frameRegister := 5
      codes := [⟨14, .setFpReg, 0, 0⟩, ⟨10, .saveNonVol, 6, 8⟩, ⟨5, .allocSmall, 3, 32⟩,
        ⟨1, .pushNonVol, 5, 0⟩] }

def saveLastFunction : RuntimeFunction where
  beginRva := 0x1100
  endRva := 0x1200
  unwindInfoRva := 0x110
  unwind :=
    { version := 1, prologSize := 13, frameRegister := 5
      codes := [⟨13, .saveNonVol, 6, 8⟩, ⟨9, .setFpReg, 0, 0⟩, ⟨5, .allocSmall, 3, 32⟩,
        ⟨1, .pushNonVol, 5, 0⟩] }

def frameImages : UnwindImages where
  main := ⟨0x140000000, 0x3000, 232, [frameLastFunction, saveLastFunction]⟩
  modules := []

theorem parsePe_frameFunctions :
    (Pe.parsePe frameFunctions).toOption.map (fun r => r.info.runtimeFunctions) =
      some [frameLastFunction, saveLastFunction] := by
  decide +kernel

theorem encodes_frameLast : Encodes frameLastFunction.unwind frameLastSteps where
  codes := by
    unfold frameLastSteps
    repeat' constructor
  descending := by decide
  inProlog := by decide
  count := by decide
  unchained := rfl

theorem encodes_saveLast : Encodes saveLastFunction.unwind saveLastSteps where
  codes := by
    unfold saveLastSteps
    repeat' constructor
  descending := by decide
  inProlog := by decide
  count := by decide
  unchained := rfl

/-- The first function is inverted. -/
theorem inverts_frameLastFunction :
    Inverts frameImages ⟨.main, 0⟩ frameLastFunction 0x1400000e8 frameLastSteps :=
  (rtlVirtualUnwind_inverts_iff ⟨by decide +kernel, rfl⟩ encodes_frameLast (by decide)
    ⟨0x140001080, ⟨by decide +kernel, rfl⟩, by decide +kernel⟩).mpr (by decide)

/-- RSI is 7 when the second function is entered; in its body there are 64 bytes more
on the stack. -/
def saveLastEntry : PrologueState where
  context := ⟨fun r => if r = rsp then 0x10000 else 7, 0, fun _ => {}⟩
  byte := fun _ => some 0

def saveLastBody : PrologueState :=
  (saveLastEntry.run saveLastFunction.unwind (saveLastSteps.map (·.2))).runOp
    saveLastFunction.unwind (.alloc 64)

/-- The second function is not: RSI comes back as zero. -/
theorem not_inverts_saveLastFunction :
    (Pe.parsePe frameFunctions).toOption.map (fun r => r.info.runtimeFunctions) =
      some [frameLastFunction, saveLastFunction] ∧
    (rtlVirtualUnwind frameImages ⟨none, saveLastBody.byte⟩ ⟨true, true, some true, none⟩ 0
      0x140000000 0x140001180 0x1400000f4 saveLastBody.context).context.register 6 = 0 ∧
    WellFormed saveLastFunction.unwind (saveLastSteps.map (·.2)) ∧
    ¬ Inverts frameImages ⟨.main, 1⟩ saveLastFunction 0x1400000f4 saveLastSteps := by
  refine ⟨parsePe_frameFunctions, by decide +kernel, by decide, fun h => ?_⟩
  have hl := frameLast_of_inverts ⟨by decide +kernel, rfl⟩ encodes_saveLast (by decide)
    0x140001180 ⟨by decide +kernel, rfl⟩ (by decide +kernel) h
  exact absurd hl (by decide)

end TradutorLinux.Runtime
