import Mathlib.Algebra.Group.Int.Defs
import TradutorLinux.Runtime.ErrorMap

/-!
# Moving a file pointer

`SetFilePointer` is given its distance in two signed words and `SetFilePointerEx`
in one.  Both move first and write the new position behind a pointer of the
caller afterwards.

## Main definitions

* `tlSetFilePointer`, `tlSetFilePointerEx` — the two calls.
* `SeeksAgree`

## Main results

* `seeksAgree_iff` — **they agree unless a low word with its sign bit is accepted, an addition
  overflows, or the result cannot be written.**
-/

namespace TradutorLinux

open Option

open TradutorLinux.Runtime (kErrorInvalidParameter)

def kFileBegin : UInt32 := 0
def kFileCurrent : UInt32 := 1
def kFileEnd : UInt32 := 2

/-- The open file of a slot: its position, `current_file_size`, and the last error when `lseek`
refuses a position. -/
structure FileSlot where
  position : Int64
  size : Int64
  lseek : Int64 → Option UInt32

/-- A call ends in signed overflow, with a last error, or with what it has written. -/
inductive SeekEnd (α : Type)
  | overflow
  | failed (error : UInt32)
  | done (result : α)
deriving DecidableEq

/-- What the offset is added to. -/
def FileSlot.origin (slot : FileSlot) (method : UInt32) : Int64 :=
  if method = kFileBegin then 0 else if method = kFileCurrent then slot.position else slot.size

/-- The new position, if it has 64 bits. -/
def FileSlot.target (slot : FileSlot) (method : UInt32) (offset : Int64) : Option Int64 :=
  let sum := (slot.origin method).toInt + offset.toInt
  if -2 ^ 63 ≤ sum ∧ sum < 2 ^ 63 then some (slot.origin method + offset) else none

/-- Both calls from their move on; `publish` writes the result. -/
def FileSlot.seek {α : Type} (slot : FileSlot) (method : UInt32) (offset : Int64)
    (publish : Int64 → Option α) : SeekEnd α × FileSlot :=
  match slot.target method offset with
  | none => (.overflow, slot)
  | some position =>
    if position < 0 then (.failed kErrorInvalidParameter, slot)
    else
      match slot.lseek position with
      | some error => (.failed error, slot)
      | none =>
        match publish position with
        | none => (.failed kErrorInvalidParameter, { slot with position })
        | some result => (.done result, { slot with position })

/-- `distance` with the high word, if there is one, in the upper half. -/
def seekOffset (distance : Int32) (high : Option Int32) : Int64 :=
  match high with
  | none => distance.toInt64
  | some high => distance.toInt64 ||| (high.toInt64 <<< 32)

/-- A pointer of the caller: what is read there, and whether it can be written. -/
structure GuestCell (α : Type) where
  value : Option α
  writable : Bool

/-- `tl_SetFilePointer`: the low word it returns and the high word it has written. -/
def tlSetFilePointer (slot : FileSlot) (distance : Int32) (high : Option (GuestCell Int32))
    (method : UInt32) : SeekEnd (Int32 × Option Int32) × FileSlot :=
  if kFileEnd < method then (.failed kErrorInvalidParameter, slot)
  else if high.any (·.value.isNone) then (.failed kErrorInvalidParameter, slot)
  else
    slot.seek method (seekOffset distance (high.bind GuestCell.value)) fun position =>
      if high.any fun cell => !cell.writable then none
      else some (position.toInt32, high.map fun _ => (position >>> 32).toInt32)

/-- `tl_SetFilePointerEx`: the position it has written; `pointer` is whether it can be written. -/
def tlSetFilePointerEx (slot : FileSlot) (distance : Int64) (pointer : Option Bool)
    (method : UInt32) : SeekEnd (Option Int64) × FileSlot :=
  if kFileEnd < method then (.failed kErrorInvalidParameter, slot)
  else
    slot.seek method distance fun position =>
      if pointer = some false then none else some (pointer.map fun _ => position)

/-! ### Two words and one -/

/-- `(high << 32) | low`, with the low word unsigned. -/
def joinWords (high low : Int32) : Int64 :=
  (high.toInt64 <<< 32) ||| low.toUInt32.toUInt64.toInt64

section Words

variable {high low : Int32}

theorem toBitVec_thirtyTwo : (Int64.toBitVec 32).smod 64 = 32#64 := rfl

attribute [local simp] BitVec.getElem_signExtend

theorem getLsbD_joinWords {i : ℕ} (hi : i < 64) : (joinWords high low).toBitVec.getLsbD i =
    if i < 32 then low.toBitVec.getLsbD i else high.toBitVec.getLsbD (i - 32) := by
  have hl : low.toUInt32.toUInt64.toInt64.toBitVec = low.toBitVec.setWidth 64 := rfl
  simp only [joinWords, Int64.toBitVec_or, Int64.toBitVec_shiftLeft, Int32.toBitVec_toInt64, hl,
    toBitVec_thirtyTwo]
  by_cases h : i < 32
  · simp [h, hi]
  · have hs : i - 32 < 32 := by omega
    have hg := BitVec.getLsbD_of_ge low.toBitVec i (Nat.le_of_not_lt h)
    simp [h, hi, hs, hg]

theorem getLsbD_seekOffset {i : ℕ} (hi : i < 64) :
    (seekOffset low (some high)).toBitVec.getLsbD i = if i < 32 then low.toBitVec.getLsbD i
      else (low.toBitVec.msb || high.toBitVec.getLsbD (i - 32)) := by
  simp only [seekOffset, Int64.toBitVec_or, Int64.toBitVec_shiftLeft, Int32.toBitVec_toInt64,
    toBitVec_thirtyTwo]
  by_cases h : i < 32
  · simp [h, hi]
  · have hs : i - 32 < 32 := by omega
    simp [h, hi, hs]

theorem joinWords_split (position : Int64) :
    joinWords (position >>> 32).toInt32 position.toInt32 = position := by
  apply Int64.toBitVec_inj.1
  apply BitVec.eq_of_getLsbD_eq
  intro i hi
  rw [getLsbD_joinWords hi, Int64.toBitVec_toInt32, Int64.toBitVec_toInt32,
    Int64.toBitVec_shiftRight, toBitVec_thirtyTwo]
  split
  · simp [*]
  · have hu : i - 32 < 32 := by omega
    have hs : 32 + (i - 32) = i := by omega
    have hl : i - 32 < 64 := by omega
    simp [hu, BitVec.getElem_sshiftRight, hs, hl, hi]

theorem nonneg_iff_msb : 0 ≤ low ↔ low.toBitVec.msb = false := by
  exact BitVec.zero_sle_iff_msb_eq_false

theorem seekOffset_eq_joinWords :
    seekOffset low (some high) = joinWords high low ↔ 0 ≤ low ∨ high = -1 := by
  have ho : (-1 : Int32).toBitVec = BitVec.allOnes 32 := rfl
  rw [nonneg_iff_msb, ← Int64.toBitVec_inj, ← Int32.toBitVec_inj, ho]
  constructor
  · intro h
    rcases hm : low.toBitVec.msb with _ | _
    · exact .inl rfl
    right
    apply BitVec.eq_of_getLsbD_eq
    intro i hi
    have hi' : i + 32 < 64 := by omega
    have hb := congrArg (fun b => b.getLsbD (i + 32)) h
    rw [getLsbD_seekOffset hi', getLsbD_joinWords hi', if_neg (by omega), if_neg (by omega),
      Nat.add_sub_cancel, hm, Bool.true_or] at hb
    rw [← hb, BitVec.getLsbD_allOnes, decide_eq_true hi]
  · intro h
    apply BitVec.eq_of_getLsbD_eq
    intro i hi
    rw [getLsbD_seekOffset hi, getLsbD_joinWords hi]
    rcases h with h | h
    · simp [h]
    · have hs : i < 32 ∨ i - 32 < 32 := by omega
      rw [h, BitVec.getLsbD_allOnes]
      split <;> simp_all

end Words

/-! ### The calls -/

/-- Two calls with the position before them: nothing overflows, success and position are the same,
the words returned by the first are those of the position, and a call that fails leaves it. -/
structure SameSeek (before : Int64) (call : SeekEnd (Int32 × Option Int32) × FileSlot)
    (callEx : SeekEnd (Option Int64) × FileSlot) : Prop where
  defined : call.1 ≠ .overflow ∧ callEx.1 ≠ .overflow
  success : (∃ r, call.1 = .done r) ↔ ∃ r, callEx.1 = .done r
  position : call.2.position = callEx.2.position
  words : ∀ w, call.1 = .done w → ∃ h, w.2 = some h ∧ joinWords h w.1 = call.2.position
  kept : ∀ e, call.1 = .failed e → call.2.position = before
  keptEx : ∀ e, callEx.1 = .failed e → callEx.2.position = before

/-- `SetFilePointer` with a high word does what `SetFilePointerEx` does with both words joined;
either pointer can be written, or neither. -/
def SeeksAgree (slot : FileSlot) (method : UInt32) (low high : Int32) (writable : Bool) : Prop :=
  SameSeek slot.position (tlSetFilePointer slot low (some ⟨some high, writable⟩) method)
    (tlSetFilePointerEx slot (joinWords high low) (some writable) method)

section Ends

variable {before p : Int64} {s s' : FileSlot} {e e' : UInt32} {w : Int32 × Option Int32}
  {r : Option Int64}

theorem sameSeek_done (hs : s.position = p) :
    SameSeek before (.done (p.toInt32, some (p >>> 32).toInt32), s) (.done r, s') ↔
      s.position = s'.position := by
  refine ⟨SameSeek.position, fun h => ⟨by simp, by simp, h, ?_, nofun, nofun⟩⟩
  rintro w ⟨⟩
  exact ⟨_, rfl, (joinWords_split p).trans hs.symm⟩

theorem sameSeek_failed : SameSeek before (.failed e, s) (.failed e', s') ↔
    s.position = before ∧ s'.position = before := by
  refine ⟨fun h => ⟨h.kept e rfl, h.keptEx e' rfl⟩, ?_⟩
  rintro ⟨hs, hs'⟩
  exact ⟨by simp, by simp, hs.trans hs'.symm, nofun, fun _ _ => hs, fun _ _ => hs'⟩

theorem not_sameSeek_left : ¬SameSeek before (.done w, s) (.failed e, s') :=
  fun h => by simpa using h.success

theorem not_sameSeek_right : ¬SameSeek before (.failed e, s) (.done r, s') :=
  fun h => by simpa using h.success

end Ends

namespace FileSlot

variable {slot : FileSlot} {method : UInt32} {off offset' p : Int64}

/-- The host moves the file there. -/
def Accepts (slot : FileSlot) (position : Int64) : Prop :=
  ¬position < 0 ∧ slot.lseek position = none

theorem target_inj (h : slot.target method off = some p)
    (h' : slot.target method offset' = some p) : off = offset' := by
  simp only [target, ite_none_right_eq_some, some.injEq] at h h'
  exact (Int64.add_right_inj _).1 (h.2.trans h'.2.symm)

section Seek

variable {α : Type} {publish pu : Int64 → Option α}

theorem seek_of_not_target (h : slot.target method off = none) :
    slot.seek method off pu = (.overflow, slot) := by
  simp [seek, h]

variable (h : slot.target method off = some p)
include h

theorem seek_of_not_accepts (hp : ¬slot.Accepts p) :
    ∃ e, slot.seek method off pu = (.failed e, slot) := by
  simp only [seek, h]
  split
  · exact ⟨_, rfl⟩
  · next hs =>
    obtain ⟨e, he⟩ := ne_none_iff_exists'.1 fun hn => hp ⟨hs, hn⟩
    simp [he]

theorem seek_of_accepts (hp : slot.Accepts p) : slot.seek method off pu =
    ((pu p).elim (.failed kErrorInvalidParameter) .done, { slot with position := p }) := by
  simp only [seek, h, if_neg hp.1, hp.2]
  cases pu p <;> rfl

end Seek
end FileSlot

/-- **Where the two calls agree.**  The method is not one, or both sums have 64 bits and: where the
pointers can be written, the low word has no sign bit, the high word is -1, or no sum is accepted;
where they cannot, no sum but the position itself is accepted. -/
def WordsFit (slot : FileSlot) (method : UInt32) (low high : Int32) (writable : Bool) : Prop :=
  kFileEnd < method ∨ ∃ p q, slot.target method (seekOffset low (some high)) = some p ∧
    slot.target method (joinWords high low) = some q ∧
    if writable then slot.Accepts p ∨ slot.Accepts q → 0 ≤ low ∨ high = -1
    else (slot.Accepts p → p = slot.position) ∧ (slot.Accepts q → q = slot.position)

attribute [local simp] tlSetFilePointer tlSetFilePointerEx sameSeek_failed

/-- **`SetFilePointer` with a high word is `SetFilePointerEx` exactly on these inputs.** -/
theorem seeksAgree_iff (slot : FileSlot) (method : UInt32) (low high : Int32) (writable : Bool) :
    SeeksAgree slot method low high writable ↔ WordsFit slot method low high writable := by
  unfold WordsFit
  by_cases hm : kFileEnd < method
  · refine iff_of_true ?_ (.inl hm)
    constructor <;> simp [hm]
  rw [or_iff_right hm]
  have hc : tlSetFilePointer slot low (some ⟨some high, writable⟩) method =
      slot.seek method (seekOffset low (some high)) fun po =>
        if !writable then none
        else some (po.toInt32, some (po >>> 32).toInt32) := by
    simp [hm]
  have hce : tlSetFilePointerEx slot (joinWords high low) (some writable) method =
      slot.seek method (joinWords high low) fun po =>
        if !writable then none else some (some po) := by
    cases writable <;> simp [hm]
  rw [SeeksAgree, hc, hce]
  cases hp : slot.target method (seekOffset low (some high)) with
  | none => simpa [FileSlot.seek_of_not_target hp] using fun h => h.defined.1 rfl
  | some p =>
  cases hq : slot.target method (joinWords high low) with
  | none => simpa [FileSlot.seek_of_not_target hq] using fun h => h.defined.2 rfl
  | some q =>
  have heq : p = q ↔ 0 ≤ low ∨ high = -1 := by
    rw [← seekOffset_eq_joinWords]
    constructor
    · rintro rfl
      exact FileSlot.target_inj hp hq
    · intro ho
      rw [ho, hq] at hp
      exact (some.inj hp).symm
  simp only [some.injEq, exists_and_left, exists_eq_left', ← heq]
  by_cases ha : slot.Accepts p <;> by_cases haq : slot.Accepts q
  · rw [FileSlot.seek_of_accepts hp ha, FileSlot.seek_of_accepts hq haq]
    cases writable
    · simp [ha, haq]
    · simp [sameSeek_done, ha]
  · obtain ⟨e, he⟩ := FileSlot.seek_of_not_accepts hq haq
    rw [FileSlot.seek_of_accepts hp ha, he]
    cases writable
    · simp [ha, haq]
    · have hn : p ≠ q := by
        rintro rfl
        exact haq ha
      simp [not_sameSeek_left, ha, hn]
  · obtain ⟨e, he⟩ := FileSlot.seek_of_not_accepts hp ha
    rw [FileSlot.seek_of_accepts hq haq, he]
    cases writable
    · simp [ha, haq]
    · have hn : p ≠ q := by
        rintro rfl
        exact ha haq
      simp [not_sameSeek_right, haq, hn]
  · obtain ⟨e, he⟩ := FileSlot.seek_of_not_accepts hp ha
    obtain ⟨e', he'⟩ := FileSlot.seek_of_not_accepts hq haq
    rw [he, he']
    simp [ha, haq]

/-- The distance 2³² - 1 from the beginning is read as -1. -/
theorem not_seeksAgree : ¬SeeksAgree ⟨0, 0, fun _ => none⟩ kFileBegin (-1) 0 true := by
  intro h
  exact absurd h.position (by decide)

end TradutorLinux
