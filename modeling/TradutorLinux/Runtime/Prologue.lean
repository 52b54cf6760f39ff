import TradutorLinux.Runtime.Unwind

/-!
# Prologues

The operations that unwind codes describe, run forwards: pushes, allocations,
the frame register, and saves at offsets from the frame base.  A prologue is a
list of operations with the last one first, as the codes of its record are.
What it leaves on the stack is known from the list alone, relative to the RSP
at the entry.

## Main definitions

* `Saved`, `PrologueOp`, `prologueOp`
* `PrologueState.run` — a prologue, run from any state.
* `depth`, `frameDepth`, `slots` — its layout.
* `WellFormed` — a prologue that loses nothing.

## Main results

* `rsp_run`, `frameBase_run`, `value_run`, `byte_run_cons`, `holds_run`
-/

namespace TradutorLinux.Runtime

open Option

open Pe (UnwindCode UnwindInfo UnwindOperation)

/-! ### What is saved -/

/-- A register that a prologue can save. -/
inductive Saved
  | gpr (r : Fin 16)
  | xmm (x : Fin 16)
deriving DecidableEq

variable {s : Saved}

namespace Saved

/-- The registers that a function keeps: RBX, RBP, RSI, RDI, R12 to R15, and XMM6 to XMM15. -/
def nonvolatile : Saved → Bool
  | gpr r => [rbx, rbp, rsi, rdi, r12, r13, r14, r15].contains r
  | xmm x => decide (6 ≤ x.val)

def size : Saved → ℕ
  | gpr _ => 8
  | xmm _ => 16

def bytes (value : M128A) : Saved → ByteString
  | gpr _ => toLE 8 value.low.toNat
  | xmm _ => toLE 8 value.low.toNat ++ toLE 8 value.high.toNat

@[simp] theorem length_bytes (v : M128A) (s : Saved) : (s.bytes v).length = s.size := by
  cases s <;> simp [bytes, size]

theorem size_le (s : Saved) : s.size ≤ 16 := by cases s <;> simp [size]

theorem ne_rsp (h : s.nonvolatile) : s ≠ .gpr rsp := by
  rintro rfl
  exact absurd h (by decide)

end Saved

/-- The place of an XMM register in the floating point area. -/
def xmmSlot (x : Fin 16) : Fin 32 := ⟨10 + x.val, by omega⟩

namespace ContextAmd64

/-- The value of a register; a general one has the low word only. -/
def value (c : ContextAmd64) : Saved → M128A
  | .gpr r => ⟨c.register r, 0⟩
  | .xmm x => c.floating (xmmSlot x)

def setValue (c : ContextAmd64) (value : M128A) : Saved → ContextAmd64
  | .gpr r => c.setRegister r value.low
  | .xmm x => c.setFloating (xmmSlot x) value

variable {c : ContextAmd64}

@[simp] theorem value_gpr (r : Fin 16) : c.value (.gpr r) = ⟨c.register r, 0⟩ := rfl

theorem register_setValue {r : Fin 16} (h : s ≠ .gpr r) (v : M128A) :
    (c.setValue v s).register r = c.register r := by
  cases s with
  | gpr r' =>
    have hn : r ≠ r' := fun heq => h (by rw [heq])
    exact (register_setRegister r' r v.low).trans (if_neg hn)
  | xmm x => rfl

theorem value_setRegister {r : Fin 16} (h : s ≠ .gpr r) (v : UInt64) :
    (c.setRegister r v).value s = c.value s := by
  cases s with
  | gpr r' =>
    have hn : r' ≠ r := fun heq => h (by rw [heq])
    simp [register_setRegister, hn]
  | xmm x => rfl

theorem value_setValue {s s' : Saved} (h : s' ≠ s) (v : M128A) :
    (c.setValue v s).value s' = c.value s' := by
  cases s with
  | gpr r => exact value_setRegister h _
  | xmm x =>
    cases s' with
    | gpr r => rfl
    | xmm x' =>
      have hn : xmmSlot x' ≠ xmmSlot x := by
        intro heq
        refine h (congrArg Saved.xmm (Fin.ext ?_))
        have hv : 10 + x'.val = 10 + x.val := congrArg Fin.val heq
        omega
      simp [ContextAmd64.value, setValue, floating_setFloating, hn]

@[simp] theorem value_setValue_self (e : ContextAmd64) (s : Saved) :
    (c.setValue (e.value s) s).value s = e.value s := by
  cases s with
  | gpr r => simp [setValue, register_setRegister]
  | xmm x => simp [value, setValue, floating_setFloating]

end ContextAmd64

/-! ### Operations -/

/-- An operation of a prologue. -/
inductive PrologueOp
  | push (r : Fin 16)
  | alloc (size : UInt32)
  | setFrame
  | save (s : Saved) (offset : UInt32)
deriving DecidableEq

/-- The register that an operation saves. -/
def PrologueOp.saves : PrologueOp → Option Saved
  | .push r => some (.gpr r)
  | .save s _ => some s
  | .alloc _ | .setFrame => none

/-- The operation that a code describes; a machine frame is not made by a prologue. -/
def prologueOp (code : UnwindCode) : Option PrologueOp :=
  match code.operation with
  | .pushNonVol => some (.push (contextRegister code.operationInfo))
  | .allocLarge | .allocSmall => some (.alloc code.operand)
  | .setFpReg => some .setFrame
  | .saveNonVol | .saveNonVolFar =>
    some (.save (.gpr (contextRegister code.operationInfo)) code.operand)
  | .saveXmm128 | .saveXmm128Far =>
    if h : code.operationInfo.toNat < 16 then
      some (.save (.xmm ⟨code.operationInfo.toNat, h⟩) code.operand)
    else none
  | .pushMachFrame => none

def frameRegisterOf (u : UnwindInfo) : Fin 16 := contextRegister u.frameRegister

/-- How far the frame register is above the frame base. -/
def frameDisplacement (u : UnwindInfo) : UInt64 := u.frameOffset.toUInt64 * 16

/-- Memory, with some bytes written to an address. -/
def storeBytes (byte : ℕ → Option UInt8) (address : ℕ) (bytes : ByteString) : ℕ → Option UInt8 :=
  fun a => if address ≤ a ∧ a < address + bytes.length then bytes[a - address]? else byte a

/-- A thread in a prologue; whether the frame register is established is a ghost. -/
structure PrologueState where
  context : ContextAmd64
  byte : ℕ → Option UInt8
  established : Bool := false

namespace PrologueState

/-- The frame base: fixed by the frame register, and else the RSP. -/
def frameBase (u : UnwindInfo) (m : PrologueState) : UInt64 :=
  if m.established then m.context.register (frameRegisterOf u) - frameDisplacement u
  else m.context.register rsp

/-- `push`, `sub rsp`, `lea` of the frame register, and `mov` or `movaps` to the frame. -/
def runOp (u : UnwindInfo) (m : PrologueState) : PrologueOp → PrologueState
  | .push r =>
    let stack := m.context.register rsp - 8
    { m with
      context := m.context.setRegister rsp stack
      byte := storeBytes m.byte stack.toNat ((Saved.gpr r).bytes (m.context.value (.gpr r))) }
  | .alloc size =>
    { m with context := m.context.setRegister rsp (m.context.register rsp - size.toUInt64) }
  | .setFrame =>
    { m with
      context := m.context.setRegister (frameRegisterOf u)
        (m.context.register rsp + frameDisplacement u)
      established := true }
  | .save s offset =>
    { m with
      byte := storeBytes m.byte (m.frameBase u + offset.toUInt64).toNat
        (s.bytes (m.context.value s)) }

/-- A prologue, with its last operation first. -/
def run (u : UnwindInfo) : List PrologueOp → PrologueState → PrologueState
  | [], m => m
  | op :: history, m => (run u history m).runOp u op

end PrologueState

/-! ### The layout of the stack -/

/-- How far the RSP is below that of the entry. -/
def depth : List PrologueOp → ℕ
  | [] => 0
  | .push _ :: history => depth history + 8
  | .alloc size :: history => depth history + size.toNat
  | .setFrame :: history | .save _ _ :: history => depth history

/-- How far the frame base is below the RSP of the entry, once it is fixed. -/
def frameDepth : List PrologueOp → Option ℕ
  | [] => none
  | .setFrame :: history => some (depth history)
  | .push _ :: history | .alloc _ :: history | .save _ _ :: history => frameDepth history

def baseDepth (history : List PrologueOp) : ℕ := (frameDepth history).getD (depth history)

/-- Where a register is saved, relative to the RSP of the entry. -/
structure Slot where
  saved : Saved
  offset : ℤ
deriving DecidableEq

/-- The slot that an operation fills after the others. -/
def slotOf (history : List PrologueOp) : PrologueOp → Option Slot
  | .push r => some ⟨.gpr r, -(depth history + 8)⟩
  | .save s offset => some ⟨s, offset.toNat - baseDepth history⟩
  | .alloc _ | .setFrame => none

def slots : List PrologueOp → List Slot
  | [] => []
  | op :: history => (slotOf history op).toList ++ slots history

def savedIn (history : List PrologueOp) : List Saved := (slots history).map (·.saved)

/-- The bytes do not meet. -/
def Slot.Apart (s : Slot) (offset : ℤ) (size : ℕ) : Prop :=
  s.offset + s.saved.size ≤ offset ∨ offset + size ≤ s.offset

instance (s : Slot) (offset : ℤ) (size : ℕ) : Decidable (s.Apart offset size) :=
  inferInstanceAs (Decidable (_ ∨ _))

/-- An operation that overwrites neither the return address nor what the others
have saved.  The frame register is established once, and saved before if the
caller needs it. -/
structure OpFits (u : UnwindInfo) (history : List PrologueOp) (op : PrologueOp) : Prop where
  nonvolatile : ∀ slot, slotOf history op = some slot → slot.saved.nonvolatile = true
  returnAddress : ∀ slot, slotOf history op = some slot → slot.Apart 0 8
  apart : ∀ slot, slotOf history op = some slot →
    ∀ other ∈ slots history, slot.Apart other.offset other.saved.size
  frame : op = .setFrame → frameRegisterOf u ≠ rsp ∧ frameDepth history = none ∧
    ((Saved.gpr (frameRegisterOf u)).nonvolatile = true →
      .gpr (frameRegisterOf u) ∈ savedIn history)

/-- Every operation fits behind the ones before it. -/
def WellFormed (u : UnwindInfo) : List PrologueOp → Prop
  | [] => True
  | op :: history => WellFormed u history ∧ OpFits u history op

instance (u : UnwindInfo) (history : List PrologueOp) (op : PrologueOp) :
    Decidable (OpFits u history op) :=
  decidable_of_iff
    ((∀ slot ∈ (slotOf history op).toList, slot.saved.nonvolatile = true ∧ slot.Apart 0 8 ∧
        ∀ other ∈ slots history, slot.Apart other.offset other.saved.size) ∧
      (op = .setFrame → frameRegisterOf u ≠ rsp ∧ frameDepth history = none ∧
        ((Saved.gpr (frameRegisterOf u)).nonvolatile = true →
          .gpr (frameRegisterOf u) ∈ savedIn history)))
    ⟨fun h => ⟨fun slot hslot => (h.1 slot (mem_toList.mpr hslot)).1,
        fun slot hslot => (h.1 slot (mem_toList.mpr hslot)).2.1,
        fun slot hslot => (h.1 slot (mem_toList.mpr hslot)).2.2, h.2⟩,
      fun h => ⟨fun slot hslot => ⟨h.nonvolatile slot (mem_toList.mp hslot),
        h.returnAddress slot (mem_toList.mp hslot),
        h.apart slot (mem_toList.mp hslot)⟩, h.frame⟩⟩

instance decidableWellFormed (u : UnwindInfo) :
    (history : List PrologueOp) → Decidable (WellFormed u history)
  | [] => isTrue trivial
  | op :: history =>
    have := decidableWellFormed u history
    inferInstanceAs (Decidable (WellFormed u history ∧ OpFits u history op))

variable {slot sl : Slot}

section Layout

variable {u : UnwindInfo} {op : PrologueOp} {history : List PrologueOp}

theorem mem_slots_cons :
    sl ∈ slots (op :: history) ↔ slotOf history op = some sl ∨ sl ∈ slots history := by
  show sl ∈ (slotOf history op).toList ++ slots history ↔ _
  rw [List.mem_append, mem_toList]

theorem saved_slotOf (h : slotOf history op = some sl) : op.saves = some sl.saved := by
  cases op <;> cases h <;> rfl

theorem savedIn_cons : savedIn (op :: history) = op.saves.toList ++ savedIn history := by
  cases op <;> rfl

theorem mem_savedIn_cons :
    s ∈ savedIn (op :: history) ↔ op.saves = some s ∨ s ∈ savedIn history := by
  rw [savedIn_cons, List.mem_append, mem_toList]

theorem depth_le_cons (op : PrologueOp) (history : List PrologueOp) :
    depth history ≤ depth (op :: history) := by
  cases op <;> simp [depth]

theorem depth_le_of_suffix {e : List PrologueOp} (h : e <:+ history) : depth e ≤ depth history := by
  obtain ⟨l, rfl⟩ := h
  induction l with
  | nil => exact le_refl _
  | cons op l ih => exact le_trans ih (depth_le_cons op _)

theorem frameDepth_le {d : ℕ} (h : frameDepth history = some d) : d ≤ depth history := by
  induction history with
  | nil => cases h
  | cons op history ih =>
    cases op with
    | push r => exact Nat.le_add_right_of_le (ih h)
    | alloc si => exact Nat.le_add_right_of_le (ih h)
    | setFrame => exact le_of_eq (some.inj h).symm
    | save s o => exact ih h

theorem baseDepth_le (history : List PrologueOp) : baseDepth history ≤ depth history := by
  unfold baseDepth
  cases h : frameDepth history with
  | none => exact le_refl _
  | some d => exact frameDepth_le h

theorem neg_depth_le_offset (h : sl ∈ slots history) : -(depth history : ℤ) ≤ sl.offset := by
  induction history with
  | nil => cases h
  | cons op history ih =>
    have hd := depth_le_cons op history
    rcases mem_slots_cons.1 h with h | h
    · have hb := baseDepth_le history
      cases op <;> cases h
      · show -((depth history + 8 : ℕ) : ℤ) ≤ -(depth history + 8)
        omega
      · dsimp only
        omega
    · have := ih h
      omega

theorem WellFormed.frameRegister_ne (h : WellFormed u history) (hf : frameDepth history ≠ none) :
    frameRegisterOf u ≠ rsp := by
  induction history with
  | nil => exact absurd rfl hf
  | cons op history ih =>
    cases op with
    | push r => exact ih h.1 hf
    | alloc si => exact ih h.1 hf
    | setFrame => exact (h.2.frame rfl).1
    | save s o => exact ih h.1 hf

theorem WellFormed.frameRegister_saved (h : WellFormed u history) (hf : frameDepth history ≠ none)
    (hn : (Saved.gpr (frameRegisterOf u)).nonvolatile) :
    .gpr (frameRegisterOf u) ∈ savedIn history := by
  induction history with
  | nil => exact absurd rfl hf
  | cons op history ih =>
    rw [mem_savedIn_cons]
    cases op with
    | push r => exact .inr (ih h.1 hf)
    | alloc si => exact .inr (ih h.1 hf)
    | setFrame => exact .inr ((h.2.frame rfl).2.2 hn)
    | save s o => exact .inr (ih h.1 hf)

theorem WellFormed.nonvolatile (h : WellFormed u history) (hs : s ∈ savedIn history) :
    s.nonvolatile := by
  induction history with
  | nil => cases hs
  | cons op history ih =>
    rcases mem_savedIn_cons.1 hs with hop | hs
    · cases op <;> cases hop
      · exact h.2.nonvolatile _ rfl
      · exact h.2.nonvolatile _ rfl
    · exact ih h.1 hs

end Layout

/-! ### The layout of a run -/

/-- The stack has room for a prologue: `stack` is the RSP at the entry, and the
slots end below `top`, which is not in the last page. -/
structure HasRoom (history : List PrologueOp) (stack top : ℕ) : Prop where
  depth : depth history ≤ stack
  returnAddress : stack + 8 ≤ top
  slots : ∀ slot ∈ slots history, (stack : ℤ) + slot.offset + slot.saved.size ≤ top
  top : top + 0x1000 ≤ 2 ^ 64

theorem HasRoom.tail {op : PrologueOp} {history : List PrologueOp} {st top : ℕ}
    (h : HasRoom (op :: history) st top) : HasRoom history st top where
  depth := le_trans (depth_le_cons op history) h.depth
  returnAddress := h.returnAddress
  slots := fun sl hs => h.slots sl (mem_slots_cons.2 (.inr hs))
  top := h.top

theorem toNat_frameDisplacement (u : UnwindInfo) :
    (frameDisplacement u).toNat = 16 * u.frameOffset.toNat ∧
      (frameDisplacement u).toNat < 0x1000 := by
  have hl := u.frameOffset.toNat_lt
  have heq : (frameDisplacement u).toNat = 16 * u.frameOffset.toNat := by
    unfold frameDisplacement
    show u.frameOffset.toNat * 16 % 2 ^ 64 = _
    omega
  exact ⟨heq, by omega⟩

namespace PrologueState

section Run

variable {u : UnwindInfo} {op : PrologueOp} {history : List PrologueOp} {m : PrologueState}
variable {stack sk st top : ℕ}

theorem run_cons : run u (op :: history) m = (run u history m).runOp u op := rfl

/-- The RSP is as deep as the layout says. -/
theorem rsp_run (hwf : WellFormed u history) (hd : depth history ≤ stack)
    (hs : (m.context.register rsp).toNat = stack) :
    ((run u history m).context.register rsp).toNat + depth history = stack := by
  induction history with
  | nil => exact hs
  | cons op history ih =>
    have ih := ih hwf.1 (le_trans (depth_le_cons op history) hd)
    have hu : ∀ a : UInt64, depth history + a.toNat ≤ stack →
        ((run u history m).context.register rsp - a).toNat + (depth history + a.toNat) = stack := by
      intro a ha
      rw [UInt64.toNat_sub_of_le _ _ (UInt64.le_iff_toNat_le.2 (by omega))]
      omega
    rw [run_cons]
    cases op with
    | push r => exact hu 8 hd
    | alloc si =>
      have hi : si.toUInt64.toNat = si.toNat := UInt32.toNat_toUInt64 si
      have hu := hu si.toUInt64
      exact hu hd
    | setFrame =>
      have hn := (hwf.2.frame rfl).1
      simp only [runOp, ContextAmd64.register_setRegister, hn.symm, if_false]
      exact ih
    | save s o => exact ih

theorem established_run (hm : m.established = false) :
    (run u history m).established = (frameDepth history).isSome := by
  induction history with
  | nil => exact hm
  | cons op history ih =>
    cases op with
    | push r => exact ih
    | alloc si => exact ih
    | setFrame => rfl
    | save s o => exact ih

theorem frameRegister_run (hwf : WellFormed u history) (hr : HasRoom history stack top)
    (hs : (m.context.register rsp).toNat = stack) {d : ℕ} (hd : frameDepth history = some d) :
    ((run u history m).context.register (frameRegisterOf u)).toNat + d =
      stack + (frameDisplacement u).toNat := by
  induction history with
  | nil => cases hd
  | cons op history ih =>
    have hn := hwf.frameRegister_ne (by rw [hd]; exact some_ne_none d)
    rw [run_cons]
    cases op with
    | push r =>
      simp only [runOp, ContextAmd64.register_setRegister, hn, if_false]
      exact ih hwf.1 hr.tail hd
    | alloc si =>
      simp only [runOp, ContextAmd64.register_setRegister, hn, if_false]
      exact ih hwf.1 hr.tail hd
    | setFrame =>
      cases hd
      have hp := rsp_run hwf.1 hr.depth hs
      have ht := hr.top
      have he := hr.returnAddress
      have hi := (toNat_frameDisplacement u).2
      simp only [runOp, ContextAmd64.register_setRegister, if_true, UInt64.toNat_add]
      omega
    | save s o => exact ih hwf.1 hr.tail hd

theorem frameBase_run (hwf : WellFormed u history) (hr : HasRoom history stack top)
    (hs : (m.context.register rsp).toNat = stack) (hm : m.established = false) :
    ((run u history m).frameBase u).toNat + baseDepth history = stack := by
  unfold frameBase baseDepth
  rw [established_run hm]
  cases hd : frameDepth history with
  | none => exact rsp_run hwf hr.depth hs
  | some d =>
    have hf := frameRegister_run hwf hr hs hd
    have he := le_trans (frameDepth_le hd) hr.depth
    simp only [isSome_some, if_true, getD_some]
    rw [UInt64.toNat_sub_of_le _ _ (UInt64.le_iff_toNat_le.2 (by omega))]
    omega

/-- A prologue changes only the RSP and the frame register. -/
theorem value_run (hr : s ≠ .gpr rsp)
    (hf : frameDepth history = none ∨ s ≠ .gpr (frameRegisterOf u)) :
    (run u history m).context.value s = m.context.value s := by
  induction history with
  | nil => rfl
  | cons op history ih =>
    cases op with
    | push r => exact (ContextAmd64.value_setRegister hr _).trans (ih hf)
    | alloc si => exact (ContextAmd64.value_setRegister hr _).trans (ih hf)
    | setFrame =>
      have hn : s ≠ .gpr (frameRegisterOf u) := by
        rcases hf with h | h
        · cases h
        · exact h
      exact (ContextAmd64.value_setRegister hn _).trans (ih (.inr hn))
    | save s' o => exact ih hf

/-- **An operation fills its slot, and no other byte.** -/
theorem byte_run_cons (hwf : WellFormed u history) (hr : HasRoom (op :: history) stack top)
    (ht : (m.context.register rsp).toNat = stack) (hm : m.established = false)
    (hs : slotOf history op = some slot) :
    ∃ a : ℕ, (a : ℤ) = stack + slot.offset ∧
      (run u (op :: history) m).byte = storeBytes (run u history m).byte a
        (slot.saved.bytes ((run u history m).context.value slot.saved)) := by
  have ho := hr.top
  have he := hr.slots slot (mem_slots_cons.2 (.inl hs))
  have hd := hr.depth
  cases op with
  | push r =>
    cases hs
    have hp := rsp_run hwf hr.tail.depth ht
    have hr : depth history + 8 ≤ stack := hd
    have height : (8 : UInt64) ≤ (run u history m).context.register rsp := by
      rw [UInt64.le_iff_toNat_le]
      show 8 ≤ _
      omega
    refine ⟨_, ?_, rfl⟩
    rw [UInt64.toNat_sub_of_le _ _ height]
    show ((_ - 8 : ℕ) : ℤ) = stack + -((depth history : ℤ) + 8)
    omega
  | save s o =>
    cases hs
    have hb := frameBase_run hwf hr.tail ht hm
    refine ⟨_, ?_, rfl⟩
    rw [UInt64.toNat_add, UInt32.toNat_toUInt64, Nat.mod_eq_of_lt]
    · dsimp only
      omega
    · dsimp only at he
      omega
  | alloc si => cases hs
  | setFrame => cases hs

theorem byte_run_of_none (hs : slotOf history op = none) :
    (run u (op :: history) m).byte = (run u history m).byte := by
  cases op with
  | push r => cases hs
  | alloc si => rfl
  | setFrame => rfl
  | save s o => cases hs

end Run

end PrologueState

/-! ### What a run leaves in memory -/

def HasBytes (byte : ℕ → Option UInt8) (address : ℕ) (bytes : ByteString) : Prop :=
  ∀ i < bytes.length, byte (address + i) = bytes[i]?

theorem hasBytes_storeBytes (b : ℕ → Option UInt8) (a : ℕ) (bytes : ByteString) :
    HasBytes (storeBytes b a bytes) a bytes := by
  intro i hi
  unfold storeBytes
  rw [if_pos ⟨by omega, by omega⟩, Nat.add_sub_cancel_left]

theorem storeBytes_apart {b : ℕ → Option UInt8} {ad a : ℕ} {bs : ByteString}
    (h : a < ad ∨ ad + bs.length ≤ a) : storeBytes b ad bs a = b a :=
  if_neg (by omega)

/-- The slots of the registers that are saved for the first time have the values
of the entry; `stack` is the RSP there. -/
def Holds (entry : ContextAmd64) (stack : ℕ) (byte : ℕ → Option UInt8) : List PrologueOp → Prop
  | [] => True
  | op :: history => Holds entry stack byte history ∧
    ∀ slot, slotOf history op = some slot → slot.saved ∉ savedIn history →
      ∀ address : ℕ, (address : ℤ) = stack + slot.offset →
        HasBytes byte address (slot.saved.bytes (entry.value slot.saved))

section Contents

variable {u : UnwindInfo} {history : List PrologueOp} {m : PrologueState} {stack sk st top : ℕ}

def SameSlot (stack : ℕ) (byte byte' : ℕ → Option UInt8) (slot : Slot) : Prop :=
  ∀ address : ℕ, (address : ℤ) = stack + slot.offset →
    ∀ i < slot.saved.size, byte' (address + i) = byte (address + i)

theorem Holds.congr {e : ContextAmd64} {b b' : ℕ → Option UInt8}
    (hs : ∀ sl ∈ slots history, SameSlot st b b' sl)
    (h : Holds e st b history) : Holds e st b' history := by
  induction history with
  | nil => exact trivial
  | cons op history ih =>
    refine ⟨ih (fun sl hl => hs sl (mem_slots_cons.2 (.inr hl))) h.1, ?_⟩
    intro sl hl hn a ha i hi
    have hsi : i < sl.saved.size := by
      rwa [Saved.length_bytes] at hi
    rw [hs sl (mem_slots_cons.2 (.inl hl)) a ha i hsi]
    exact h.2 sl hl hn a ha i hi

section

variable (hwf : WellFormed u history)
include hwf

theorem value_run_of_new (hs : s.nonvolatile) (hn : s ∉ savedIn history) :
    (m.run u history).context.value s = m.context.value s := by
  refine PrologueState.value_run (Saved.ne_rsp hs) ?_
  by_contra hf
  rw [not_or, not_ne_iff] at hf
  obtain ⟨hf, rfl⟩ := hf
  exact hn (hwf.frameRegister_saved hf hs)

/-- **After a prologue every register that was saved is in its slot.** -/
theorem holds_run (hr : HasRoom history st top)
    (ht : (m.context.register rsp).toNat = st) (hm : m.established = false) :
    Holds m.context st (m.run u history).byte history := by
  induction history with
  | nil => exact trivial
  | cons op history ih =>
    have ih := ih hwf.1 hr.tail
    cases hs : slotOf history op with
    | none =>
      rw [PrologueState.byte_run_of_none hs]
      exact ⟨ih, fun sl h => absurd (hs.symm.trans h) (by simp)⟩
    | some sl =>
      obtain ⟨address, hd, hb⟩ := PrologueState.byte_run_cons hwf.1 hr ht hm hs
      rw [hb]
      constructor
      · -- the slots of the others are left alone
        refine ih.congr fun o ho a' ha' i hi => storeBytes_apart ?_
        have ha := hwf.2.apart sl hs o ho
        rw [Saved.length_bytes]
        unfold Slot.Apart at ha
        omega
      · intro s' hs' hn a' ha'
        cases hs.symm.trans hs'
        obtain rfl : a' = address := by omega
        rw [value_run_of_new hwf.1 (hwf.2.nonvolatile sl hs) hn]
        exact hasBytes_storeBytes _ _ _

theorem byte_run_apart (hr : HasRoom history st top)
    (ht : (m.context.register rsp).toNat = st) (hm : m.established = false) {a : ℕ}
    (h : ∀ sl ∈ slots history, sl.Apart ((a : ℤ) - st) 1) :
    (m.run u history).byte a = m.byte a := by
  induction history with
  | nil => rfl
  | cons op history ih =>
    have ih := ih hwf.1 hr.tail fun sl hs => h sl (mem_slots_cons.2 (.inr hs))
    cases hs : slotOf history op with
    | none => rw [PrologueState.byte_run_of_none hs, ih]
    | some sl =>
      obtain ⟨ad, hd, hb⟩ := PrologueState.byte_run_cons hwf.1 hr ht hm hs
      have ha := h sl (mem_slots_cons.2 (.inl hs))
      unfold Slot.Apart at ha
      rw [hb, storeBytes_apart, ih]
      rw [Saved.length_bytes]
      omega

theorem WellFormed.returnAddress (hs : sl ∈ slots history) : sl.Apart 0 8 := by
  induction history with
  | nil => cases hs
  | cons op history ih =>
    rcases mem_slots_cons.1 hs with h | h
    · exact hwf.2.returnAddress sl h
    · exact ih hwf.1 h

end

end Contents

end TradutorLinux.Runtime
