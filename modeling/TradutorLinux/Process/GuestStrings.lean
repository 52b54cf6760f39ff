import Mathlib.Data.List.TakeWhile
import TradutorLinux.Util.Bytes

/-!
# Strings of the guest

The runtime copies a string of the guest chunk by chunk, up to its terminator.  The
kernel transfers what is mapped of a chunk, so a string that ends before its mapping
does is copied whole; one that has no terminator among the first units is not a string.

## Main definitions

* `GuestUnit` — what the narrow and the wide copy differ in.
* `GuestPointer`

## Main results

* `copyGuestString_eq_some`
-/

namespace TradutorLinux.Process

open List Option

/-- The units of a string: bytes or words.  `scratch` is how many one read asks for. -/
class GuestUnit (α : Type) where
  terminator : α
  width : ℕ
  scratch : ℕ
  scratch_pos : 0 < scratch

export GuestUnit (terminator)

instance : GuestUnit UInt8 := ⟨0, 1, 4096, by decide⟩
instance : GuestUnit UInt16 := ⟨0, 2, 2048, by decide⟩

/-- A pointer of the guest; behind the last of its units nothing is mapped. -/
structure GuestPointer (α : Type) where
  address : ℕ
  mapped : List α

variable {α : Type} [GuestUnit α]

/-- `cursor += n`. -/
def GuestPointer.advance (p : GuestPointer α) (n : ℕ) : GuestPointer α :=
  ⟨p.address + GuestUnit.width α * n, p.mapped.drop n⟩

/-- The pointer may be read as one to units. -/
def GuestPointer.Aligned (p : GuestPointer α) : Prop :=
  p.address ≠ 0 ∧ p.address % GuestUnit.width α = 0

instance (p : GuestPointer α) : Decidable p.Aligned := inferInstanceAs (Decidable (_ ∧ _))

def GuestPointer.Holds (p : GuestPointer α) (units : List α) : Prop :=
  p.Aligned ∧ units <+: p.mapped

variable [DecidableEq α]

/-- The loop over the chunks.  `available` is what the kernel transfers of one. -/
def copyLoop (maxLen : ℕ) (mapped : List α) (checked : ℕ) (destination : List α) :
    Option (List α) :=
  if checked < maxLen then
    let chunkCount := min (GuestUnit.scratch α) (maxLen - checked)
    let available := (mapped.drop checked).take chunkCount
    let front := available.takeWhile (· ≠ terminator)
    if front.length < available.length then some (destination ++ front)
    else if available.length < chunkCount then none
    else copyLoop maxLen mapped (checked + chunkCount) (destination ++ front)
  else none
termination_by maxLen - checked
decreasing_by
  have hpos := GuestUnit.scratch_pos (α := α)
  omega

/-- `copy_guest_cstring` for bytes, `copy_guest_wstring` for words. -/
def copyGuestString (source : GuestPointer α) (maxLen : ℕ) : Option (List α) :=
  if source.Aligned then copyLoop maxLen source.mapped 0 [] else none

/-! ### What is copied -/

variable {s : List α} {src : GuestPointer α} {maxLen ml : ℕ}

theorem takeWhile_eq_of_terminated {front b : List α} (h : terminator ∉ front) :
    (front ++ terminator :: b).takeWhile (· ≠ terminator) = front := by
  induction front with
  | nil => simp
  | cons u front ih =>
    have hn : u ≠ terminator := fun heq => h (heq ▸ mem_cons_self)
    rw [cons_append, takeWhile_cons_of_pos (by simpa using hn),
      ih fun hm => h (mem_cons_of_mem u hm)]

/-- The units before the first terminator, if there is one in front of `limit`. -/
def terminated (limit : ℕ) (units : List α) : Option (List α) :=
  let front := units.takeWhile (· ≠ terminator)
  if front.length < units.length ∧ front.length < limit then some front else none

theorem terminated_cons {l : ℕ} {b : List α} (h : terminator ∉ s)
    (hl : s.length < l) : terminated l (s ++ terminator :: b) = some s := by
  unfold terminated
  rw [takeWhile_eq_of_terminated h]
  refine if_pos ⟨?_, hl⟩
  rw [length_append, length_cons]
  omega

theorem eq_terminated_of_lt {us : List α} (h : (us.takeWhile (· ≠ terminator)).length < us.length) :
    ∃ back, us = us.takeWhile (· ≠ terminator) ++ terminator :: back := by
  induction us with
  | nil => exact absurd h (Nat.not_lt_zero _)
  | cons u us ih =>
    by_cases hu : u = terminator
    · exact ⟨us, by simp [hu]⟩
    · rw [takeWhile_cons_of_pos (by simpa using hu)] at h ⊢
      obtain ⟨back, hb⟩ := ih (Nat.lt_of_succ_lt_succ h)
      exact ⟨back, by rw [cons_append, ← hb]⟩

theorem terminator_notMem_takeWhile (us : List α) : terminator ∉ us.takeWhile (· ≠ terminator) := by
  intro hm
  have hn := mem_takeWhile_imp hm
  simp at hn

theorem terminated_eq_some {l : ℕ} {units : List α} : terminated l units = some s ↔
      terminator ∉ s ∧ s.length < l ∧ s ++ [terminator] <+: units := by
  constructor
  · intro h
    simp only [terminated] at h
    split_ifs at h with ht
    obtain ⟨b, hb⟩ := eq_terminated_of_lt ht.1
    cases h
    refine ⟨terminator_notMem_takeWhile units, ht.2, ⟨b, ?_⟩⟩
    rw [append_assoc, singleton_append]
    exact hb.symm
  · rintro ⟨hnot, hl, b, rfl⟩
    rw [append_assoc, singleton_append]
    exact terminated_cons hnot hl

theorem terminated_append {l : ℕ} {f r : List α} (h : terminator ∉ f) (hl : f.length ≤ l) :
    terminated l (f ++ r) = (terminated (l - f.length) r).map (f ++ ·) := by
  have hf : (f ++ r).takeWhile (· ≠ terminator) = f ++ r.takeWhile (· ≠ terminator) :=
    takeWhile_append_of_pos fun u hu => decide_eq_true fun heq => h (heq ▸ hu)
  simp only [terminated, hf, length_append]
  split_ifs with h1 h2 h2
  · rfl
  · omega
  · omega
  · rfl

theorem copyLoop_eq (ml : ℕ) (m : List α) (checked : ℕ) (d : List α) : copyLoop ml m checked d =
      (terminated (ml - checked) (m.drop checked)).map (d ++ ·) := by
  fun_induction copyLoop ml m checked d with
  | case1 checked d ht chunkCount available f hs =>
    -- The terminator is in the chunk.
    obtain ⟨b, hb⟩ := eq_terminated_of_lt hs
    have hp : m.drop checked = f ++ terminator :: (b ++ (m.drop checked).drop chunkCount) := by
      rw [← cons_append, ← append_assoc, ← hb, take_append_drop]
    have hl : f.length < ml - checked := by
      have hle : available.length ≤ chunkCount := length_take_le _ _
      omega
    rw [hp, terminated_cons (terminator_notMem_takeWhile available) hl, map_some]
  | case2 checked d ht chunkCount available f hs hh =>
    -- The mapping ends in the chunk.
    have ha : m.drop checked = available := by
      refine (take_of_length_le ?_).symm
      rw [length_take] at hh
      omega
    have hn : terminated (ml - checked) available = none := if_neg fun h => hs h.1
    rw [ha, hn, map_none]
  | case3 checked d ht chunkCount available f hs hh ih =>
    have hf : f = available :=
      ( takeWhile_prefix _).eq_of_length (le_antisymm ( takeWhile_prefix _).length_le
        (not_lt.1 hs))
    have he : available.length = chunkCount := le_antisymm (length_take_le _ _) (not_lt.1 hh)
    have hnot : terminator ∉ available := hf ▸ terminator_notMem_takeWhile available
    have hp : m.drop checked = available ++ m.drop (checked + chunkCount) := by
      rw [← drop_drop, take_append_drop]
    rw [ih, hp, terminated_append hnot (by omega), hf, he, Nat.sub_sub, Option.map_map]
    congr 1
    funext rest
    exact append_assoc _ _ _
  | case4 checked d hg =>
    have hn : terminated (ml - checked) (m.drop checked) = none := if_neg fun h => by omega
    rw [hn, map_none]

theorem copyGuestString_eq : copyGuestString src ml =
      if src.Aligned then terminated ml src.mapped else none := by
  unfold copyGuestString
  split_ifs
  · rw [copyLoop_eq, Nat.sub_zero, drop_zero]
    simp
  · rfl

/-- **A string is copied exactly if it ends, within the units that may be read.** -/
theorem copyGuestString_eq_some : copyGuestString src ml = some s ↔
      src.Aligned ∧ terminator ∉ s ∧ s.length < ml ∧ s ++ [terminator] <+: src.mapped := by
  unfold copyGuestString
  split_ifs with h
  · rw [copyLoop_eq, Nat.sub_zero, drop_zero]
    simp only [nil_append, Option.map_id', h, true_and]
    exact terminated_eq_some
  · simp [h]

theorem copyGuestString_holds {front ba : List α}
    (h : src.Holds (front ++ terminator :: ba)) (hnot : terminator ∉ front) :
    copyGuestString src ml = if front.length < ml then some front else none := by
  obtain ⟨ha, b, hm⟩ := h
  rw [append_assoc, cons_append] at hm
  rw [copyGuestString, if_pos ha, copyLoop_eq, Nat.sub_zero, drop_zero, ← hm]
  split_ifs with hl
  · rw [terminated_cons hnot hl]
    rfl
  · have hn : terminated ml (front ++ terminator :: (ba ++ b)) = none := by
      simp only [terminated, takeWhile_eq_of_terminated hnot]
      exact if_neg fun h => hl h.2
    rw [hn, map_none]

omit [DecidableEq α] in
theorem GuestPointer.Holds.advance {f back : List α} (h : src.Holds (f ++ back)) :
    (src.advance f.length).Holds back := by
  obtain ⟨⟨hd, ha⟩, b, hm⟩ := h
  refine ⟨⟨?_, ?_⟩, ⟨b, ?_⟩⟩
  · show src.address + _ ≠ 0
    omega
  · show (src.address + GuestUnit.width α * f.length) % GuestUnit.width α = 0
    rw [Nat.add_mul_mod_self_left]
    exact ha
  · show back ++ b = src.mapped.drop f.length
    rw [← hm, append_assoc, drop_left]

end TradutorLinux.Process
