import TradutorLinux.Rust.ModelLimits
import TradutorLinux.Rust.Wire

/-!
# The layout of the wire

The plan puts the tables one behind the other, and `fill_wire` fills every
table in order, several of them at the same time.  So no two records share a
byte, and each is in the output as it was written.

## Main definitions

* `Layout m plan` — the plan of an image.
* `Fills plan c records c'` — the records go on where the tables stand at `c`.

## Main results

* `layout_of_makePlan`
* `Fills.pairwise_apart` — **no two records share a byte.**
-/

namespace TradutorLinux.Rust

open List

/-! ### Sizes -/

theorem align8_ge (value : ℕ) : value ≤ align8 value := by
  unfold align8
  omega

theorem align8_mod (v : ℕ) : align8 v % 8 = 0 := Nat.mul_mod_left _ _

theorem stringRecordSize_ge (bytes : ByteString) : 8 + bytes.length ≤ stringRecordSize bytes :=
  align8_ge _

def tableBytes (pool : List ByteString) (table : ℕ) (descriptor : WireDescriptor) : ℕ :=
  if table = tableStrings then (pool.map stringRecordSize).sum
  else descriptor.count * strides.getD table 0

def tableEnd (pool : List ByteString) (table : ℕ) (descriptor : WireDescriptor) : ℕ :=
  descriptor.offset + tableBytes pool table descriptor

theorem foldl_stringRecordSize (p : List ByteString) (cu : ℕ) :
    p.foldl (fun cu bs => cu + stringRecordSize bs) cu = cu + (p.map stringRecordSize).sum := by
  induction p generalizing cu with
  | nil => rfl
  | cons bs p ih => rw [foldl_cons, ih, map_cons, sum_cons, add_assoc]

/-! ### The tables -/

/-- The tables from number `table` on lie one behind the other between `lo`
and `hi`. -/
structure Laid (pool : List ByteString) (table : ℕ) (counts : List ℕ) (lo : ℕ)
    (descriptors : List WireDescriptor) (hi : ℕ) : Prop where
  length : descriptors.length = counts.length
  le : lo ≤ hi
  count : ∀ k, (descriptors.getD k {}).count = counts.getD k 0
  inside : ∀ k, (descriptors.getD k {}).count ≠ 0 →
    lo ≤ (descriptors.getD k {}).offset ∧
      tableEnd pool (table + k) (descriptors.getD k {}) ≤ hi
  stride : ∀ k, (descriptors.getD k {}).count ≠ 0 → table + k ≠ tableStrings →
    (descriptors.getD k {}).stride = strides.getD (table + k) 0 ∧
      (descriptors.getD k {}).flags = 0
  apart : ∀ j k, j < k → (descriptors.getD j {}).count ≠ 0 → (descriptors.getD k {}).count ≠ 0 →
    tableEnd pool (table + j) (descriptors.getD j {}) ≤ (descriptors.getD k {}).offset

theorem planTable_count (p : List ByteString) (tb count cu : ℕ) :
    (planTable p tb count cu).1.count = count := by
  unfold planTable
  split
  · next h => exact h.symm
  · split <;> rfl

theorem planTable_offset (p : List ByteString) (tb n cursor : ℕ) (h : n ≠ 0) :
    (planTable p tb n cursor).1.offset = align8 cursor := by
  unfold planTable
  rw [if_neg h]
  split <;> rfl

theorem planTable_end (p : List ByteString) (tb n cu : ℕ) (h : n ≠ 0) :
    (planTable p tb n cu).2 = tableEnd p tb (planTable p tb n cu).1 := by
  unfold planTable tableEnd tableBytes
  rw [if_neg h]
  split
  · exact foldl_stringRecordSize p _
  · rfl

theorem planTable_stride (p : List ByteString) (tb n cu : ℕ) (h : n ≠ 0) :
    (planTable p tb n cu).1.stride = (if tb = tableStrings then 0 else strides.getD tb 0) ∧
      (planTable p tb n cu).1.flags = (if tb = tableStrings then wireFlagVariable else 0) := by
  unfold planTable
  rw [if_neg h]
  split
  · exact ⟨rfl, rfl⟩
  · exact ⟨rfl, rfl⟩

theorem planTable_le (pool : List ByteString) (tb n cu : ℕ) : cu ≤ (planTable pool tb n cu).2 := by
  by_cases h : n = 0
  · unfold planTable
    rw [if_pos h]
  · rw [planTable_end pool tb n cu h, tableEnd, planTable_offset pool tb n cu h]
    exact (align8_ge cu).trans (Nat.le_add_right _ _)

theorem laid_planTables (p : List ByteString) (cs : List ℕ) :
    ∀ tb cursor : ℕ, Laid p tb cs cursor (planTables p tb cs cursor).1
      (planTables p tb cs cursor).2 := by
  induction cs with
  | nil =>
    intro tb cursor
    refine ⟨rfl, le_refl _, fun k => ?_, fun k h => ?_, fun k h => ?_, fun j k _ h => ?_⟩
    · simp [planTables]
    · simp [planTables] at h
    · simp [planTables] at h
    · simp [planTables] at h
  | cons co cs ih =>
    intro tb cursor
    have hc := planTable_count p tb co cursor
    have hl := planTable_le p tb co cursor
    have hs := planTable_offset p tb co cursor
    have he := planTable_end p tb co cursor
    have hst := planTable_stride p tb co cursor
    rw [planTables]
    generalize planTable p tb co cursor = first at hc hl hs he hst ⊢
    have hr := ih (tb + 1) first.2
    generalize planTables p (tb + 1) cs first.2 = rest at hr ⊢
    have hu : ∀ k, tb + (k + 1) = tb + 1 + k := fun k => by omega
    refine ⟨congrArg Nat.succ hr.length, hl.trans hr.le, fun k => ?_, fun k => ?_,
      fun k => ?_, fun j k hjk => ?_⟩
    · cases k with
      | zero => exact hc
      | succ k => exact hr.count k
    · cases k with
      | zero =>
        intro h
        have hn : co ≠ 0 := hc ▸ h
        constructor
        · exact (align8_ge cursor).trans (hs hn).ge
        · exact (he hn).ge.trans hr.le
      | succ k =>
        intro h
        have hi := hr.inside k h
        rw [hu]
        exact ⟨hl.trans hi.1, hi.2⟩
    · cases k with
      | zero =>
        intro h ht
        have hn : co ≠ 0 := hc ▸ h
        exact (hst hn).imp (Eq.trans · (if_neg ht)) (Eq.trans · (if_neg ht))
      | succ k =>
        intro h
        rw [hu]
        exact hr.stride k h
    · cases k with
      | zero => exact absurd hjk (Nat.not_lt_zero j)
      | succ k =>
        cases j with
        | zero =>
          intro hj hk
          have hn : co ≠ 0 := hc ▸ hj
          exact (he hn).ge.trans (hr.inside k hk).1
        | succ j =>
          intro hj hk
          rw [hu]
          exact hr.apart j k (Nat.lt_of_succ_lt_succ hjk) hj hk

/-! ### The string records -/

theorem stringEntries_bytes (pool : List ByteString) :
    ∀ cu, (stringEntries cu pool).map StringEntry.bytes = pool := by
  induction pool with
  | nil => intro cu; rfl
  | cons bs pool ih =>
    intro cu
    rw [stringEntries, map_cons, ih]

theorem stringEntries_inside {p : List ByteString} :
    ∀ {cu : ℕ} {e : StringEntry}, e ∈ stringEntries cu p →
      cu ≤ e.recordOffset ∧ e.dataOffset = e.recordOffset + 8 ∧
      e.recordOffset + stringRecordSize e.bytes ≤ cu + (p.map stringRecordSize).sum := by
  induction p with
  | nil =>
    intro cu e h
    cases h
  | cons bs p ih =>
    intro cu e h
    rw [map_cons, sum_cons]
    rcases mem_cons.1 h with rfl | hm
    · refine ⟨le_refl _, rfl, ?_⟩
      dsimp only
      omega
    · have := ih hm
      omega

theorem stringEntries_apart (p : List ByteString) :
    ∀ cu, ((stringEntries cu p).map stringRecord).Pairwise Record.Apart := by
  induction p with
  | nil => intro cu; exact List.Pairwise.nil
  | cons bs p ih =>
    intro cu
    rw [stringEntries, map_cons, pairwise_cons]
    refine ⟨fun r hr => ?_, ih _⟩
    obtain ⟨e, he, rfl⟩ := mem_map.1 hr
    exact .inl (stringEntries_inside he).1

/-! ### The plan of an image -/

/-- The plan lays out the tables of the image, and the pool in the string table. -/
structure Layout (m : Model) (plan : WirePlan) : Prop where
  total_ge : wireHeaderSize ≤ plan.total
  total_le : plan.total ≤ maxSerializedBytes
  planned : planTables (allStrings m) 0 (tableCounts m (allStrings m)) wireHeaderSize =
    (plan.descriptors, plan.total)
  strings : plan.strings = stringEntries (plan.descriptor tableStrings).offset (allStrings m)

theorem layout_of_makePlan {m : Model} {plan : WirePlan} (h : makePlan m = .ok plan) :
    Layout m plan := by
  dsimp only [makePlan] at h
  have he := (laid_planTables (allStrings m) (tableCounts m (allStrings m)) 0 wireHeaderSize).le
  split at h
  · cases h
  next hl =>
  have ht := Nat.max_eq_left he
  cases h
  refine ⟨le_max_right _ _, ?_, ?_, rfl⟩
  · exact ht.le.trans (not_lt.1 hl)
  · rw [ht]

namespace Layout

variable {m : Model} {plan : WirePlan}

section

variable (h : Layout m plan)
include h

theorem laid : Laid (allStrings m) 0 (tableCounts m (allStrings m)) wireHeaderSize plan.descriptors
      plan.total := by
  have hl := laid_planTables (allStrings m) (tableCounts m (allStrings m)) 0 wireHeaderSize
  rwa [h.planned] at hl

theorem count (tb : ℕ) : (plan.descriptor tb).count = (tableCounts m (allStrings m)).getD tb 0 :=
  h.laid.count tb

theorem inside {tb : ℕ} (hn : (plan.descriptor tb).count ≠ 0) :
    wireHeaderSize ≤ (plan.descriptor tb).offset ∧
      tableEnd (allStrings m) tb (plan.descriptor tb) ≤ plan.total := by
  have hi := h.laid.inside tb hn
  rwa [zero_add] at hi

theorem stride {tb : ℕ} (hn : (plan.descriptor tb).count ≠ 0) (ht : tb ≠ tableStrings) :
    (plan.descriptor tb).stride = strides.getD tb 0 ∧ (plan.descriptor tb).flags = 0 := by
  have hs := h.laid.stride tb hn
  rw [zero_add] at hs
  exact hs ht

theorem apart {s t : ℕ} (hst : s < t) (hs : (plan.descriptor s).count ≠ 0)
    (ht : (plan.descriptor t).count ≠ 0) :
    tableEnd (allStrings m) s (plan.descriptor s) ≤ (plan.descriptor t).offset := by
  have ha := h.laid.apart s t hst hs ht
  rwa [zero_add] at ha

theorem tables_apart {s t : ℕ} (hst : s ≠ t)
    (hs : (plan.descriptor s).count ≠ 0) (ht : (plan.descriptor t).count ≠ 0) :
    tableEnd (allStrings m) s (plan.descriptor s) ≤ (plan.descriptor t).offset ∨
      tableEnd (allStrings m) t (plan.descriptor t) ≤ (plan.descriptor s).offset := by
  rcases Nat.lt_or_gt_of_ne hst with hl | hg
  · exact .inl (h.apart hl hs ht)
  · exact .inr (h.apart hg ht hs)

theorem length_strings : plan.strings.length = (plan.descriptor tableStrings).count := by
  have hp := congrArg List.length
    (stringEntries_bytes (allStrings m) (plan.descriptor tableStrings).offset)
  rw [length_map] at hp
  rw [h.strings, hp, h.count]
  rfl

end

end Layout

/-! ### The records of the tables -/

/-- The record number `index` of a table. -/
def InSlot (plan : WirePlan) (table index : ℕ) (r : Record) : Prop :=
  ∃ fields, r = fixedRecord plan table index fields ∧ r.Fits

/-- The tables with `n` further records in one of them. -/
def advance (c : ℕ → ℕ) (table n : ℕ) : ℕ → ℕ := fun t => if t = table then c t + n else c t

/-- The records fill the tables from the counts `c` on, and leave them at `c'`. -/
inductive Fills (plan : WirePlan) : (ℕ → ℕ) → List Record → (ℕ → ℕ) → Prop
  | nil (c : ℕ → ℕ) : Fills plan c [] c
  | cons {c c' : ℕ → ℕ} {r : Record} {records : List Record} (table : ℕ) :
    table ≠ tableStrings → InSlot plan table (c table) r →
      Fills plan (advance c table 1) records c' → Fills plan c (r :: records) c'

namespace Fills

variable {plan : WirePlan} {c c' c'' : ℕ → ℕ} {rs rest : List Record}

theorem append (h : Fills plan c rs c') (hr : Fills plan c' rest c'') :
    Fills plan c (rs ++ rest) c'' := by
  induction h with
  | nil => exact hr
  | cons tb ht hs _ ih => exact cons tb ht hs (ih hr)

theorem le (h : Fills plan c rs c') (t : ℕ) : c t ≤ c' t := by
  induction h with
  | nil => exact le_refl _
  | cons tb _ _ _ ih =>
    refine le_trans ?_ ih
    unfold advance
    split <;> omega

theorem slot (h : Fills plan c rs c') {r : Record} (hr : r ∈ rs) :
    ∃ tb ix, tb ≠ tableStrings ∧ c tb ≤ ix ∧ ix < c' tb ∧ InSlot plan tb ix r := by
  induction h with
  | nil => cases hr
  | @cons c c' first rs tb ha hs he ih =>
    rcases mem_cons.1 hr with rfl | hm
    · refine ⟨tb, c tb, ha, le_refl _, ?_, hs⟩
      have := he.le tb
      simp only [advance, if_true] at this
      omega
    · obtain ⟨t, i, ht, hl, hh, hi⟩ := ih hm
      refine ⟨t, i, ht, ?_, hh, hi⟩
      refine le_trans ?_ hl
      unfold advance
      split <;> omega

end Fills

namespace InSlot

variable {m : Model} {plan : WirePlan} {s t i j : ℕ} {a b : Record}

theorem inside (ha : InSlot plan t i a) (ht : t ≠ tableStrings)
    (hi : i < (plan.descriptor t).count) :
    (plan.descriptor t).offset ≤ a.offset ∧
      a.offset + a.size ≤ tableEnd (allStrings m) t (plan.descriptor t) := by
  obtain ⟨fs, rfl, -⟩ := ha
  refine ⟨Nat.le_add_right _ _, ?_⟩
  have hmul : (i + 1) * strides.getD t 0 ≤ (plan.descriptor t).count * strides.getD t 0 :=
    Nat.mul_le_mul_right _ hi
  rw [add_mul, one_mul] at hmul
  unfold tableEnd tableBytes
  rw [if_neg ht]
  dsimp only [fixedRecord]
  omega

theorem apart_of_lt (ha : InSlot plan t i a) (hb : InSlot plan t j b) (hi : i < j) :
    Record.Apart a b := by
  obtain ⟨fs, rfl, -⟩ := ha
  obtain ⟨fs', rfl, -⟩ := hb
  have hmul : (i + 1) * strides.getD t 0 ≤ j * strides.getD t 0 := Nat.mul_le_mul_right _ hi
  rw [add_mul, one_mul] at hmul
  refine .inl ?_
  dsimp only [fixedRecord]
  omega

theorem apart_of_ne (hl : Layout m plan) (ha : InSlot plan s i a) (hb : InSlot plan t j b)
    (hs : s ≠ tableStrings) (ht : t ≠ tableStrings) (hi : i < (plan.descriptor s).count)
    (hj : j < (plan.descriptor t).count) (hst : s ≠ t) : Record.Apart a b := by
  have hn := ha.inside (m := m) hs hi
  have hin := hb.inside (m := m) ht hj
  rcases hl.tables_apart hst (Nat.ne_zero_of_lt hi) (Nat.ne_zero_of_lt hj) with h | h
  · exact .inl ((hn.2.trans h).trans hin.1)
  · exact .inr ((hin.2.trans h).trans hn.1)

end InSlot

theorem Fills.pairwise_apart {m : Model} {plan : WirePlan} (ha : Layout m plan)
    {c c' : ℕ → ℕ} {rs : List Record} (h : Fills plan c rs c')
    (hc' : ∀ t, c' t ≤ (plan.descriptor t).count) : rs.Pairwise Record.Apart := by
  induction h with
  | nil => exact List.Pairwise.nil
  | @cons c c' r rs table hta hl hr ih =>
    refine pairwise_cons.2 ⟨fun s hs => ?_, ih hc'⟩
    obtain ⟨t, i, ht, ho, hh, hi⟩ := hr.slot hs
    have he := hr.le table
    simp only [advance, if_true] at he
    have hk : c table < (plan.descriptor table).count := by
      have := hc' table
      omega
    by_cases hst : t = table
    · subst hst
      simp only [advance, if_true] at ho
      exact hl.apart_of_lt hi ho
    · exact hl.apart_of_ne ha hi hta ht hk (hh.trans_le (hc' t)) (Ne.symm hst)

end TradutorLinux.Rust
