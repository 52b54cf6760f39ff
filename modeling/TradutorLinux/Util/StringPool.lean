import Mathlib.Data.List.Forall2
import TradutorLinux.Util.Records

/-!
# String pools

A writer that keeps every string once, behind its tables, and refers to it by
the offset and the length of its bytes.  A string record is the length in four
bytes, four bytes of zeros, the bytes, and zeros up to the next multiple of
eight.  The empty string has no record: its reference is zero.

## Main definitions

* `stringRefs`, `stringRecords`
* `Resolves pool index value` — the number leads to the string.

## Main results

* `StringPool.internRows_spec` — **every number leads to its string in the final pool.**
* `exists_stringRecord`
-/

namespace TradutorLinux

open List

/-! ### Padding -/

/-- The next multiple of eight. -/
def pad8 (value : ℕ) : ℕ := (value + 7) / 8 * 8

theorem le_pad8 (value : ℕ) : value ≤ pad8 value := by
  unfold pad8
  omega

theorem pad8_le (v : ℕ) : pad8 v ≤ v + 7 := by
  unfold pad8
  omega

theorem pad8_of_mod {value : ℕ} (h : value % 8 = 0) : pad8 value = value := by
  unfold pad8
  omega

/-! ### Interning -/

namespace StringPool

def intern (pool : List ByteString) (value : ByteString) : List ByteString × Option ℕ :=
  if value = [] then (pool, none)
  else
    match pool.findIdx? (· == value) with
    | some index => (pool, some index)
    | none => (pool ++ [value], some pool.length)

/-- The strings one after the other. -/
def internAll (pool : List ByteString) : List ByteString → List ByteString × List (Option ℕ)
  | [] => (pool, [])
  | value :: values =>
    let first := intern pool value
    let rest := internAll first.1 values
    (rest.1, first.2 :: rest.2)

/-- The rows one after the other. -/
def internRows (pool : List ByteString) :
    List (List ByteString) → List ByteString × List (List (Option ℕ))
  | [] => (pool, [])
  | row :: rows =>
    let first := internAll pool row
    let rest := internRows first.1 rows
    (rest.1, first.2 :: rest.2)

/-- The number leads to the string. -/
def Resolves (pool : List ByteString) (index : Option ℕ) (value : ByteString) : Prop :=
  match index with
  | none => value = []
  | some i => value ≠ [] ∧ pool[i]? = some value

theorem Resolves.mono {p p' : List ByteString} {ix : Option ℕ} {value : ByteString}
    (hp : p <+: p') (h : Resolves p ix value) : Resolves p' ix value := by
  cases ix with
  | none => exact h
  | some i =>
    obtain ⟨hn, hi⟩ := h
    obtain ⟨hl, -⟩ := List.getElem?_eq_some_iff.1 hi
    refine ⟨hn, ?_⟩
    obtain ⟨r, rfl⟩ := hp
    rw [getElem?_append_left hl]
    exact hi

/-- A pool without the empty string and without doubles is kept so, and grows by one at most. -/
theorem intern_spec (p : List ByteString) (v : ByteString) : p <+: (intern p v).1 ∧
      Resolves (intern p v).1 (intern p v).2 v ∧
      (intern p v).1.length ≤ p.length + 1 ∧
      (∀ s ∈ (intern p v).1, s ∈ p ∨ s = v ∧ s ≠ []) := by
  unfold intern
  split
  · next h => exact ⟨prefix_rfl, h, Nat.le_succ _, fun s hs => .inl hs⟩
  next h =>
  split
  · next i hf =>
    obtain ⟨hi, hv, -⟩ := findIdx?_eq_some_iff_getElem.1 hf
    refine ⟨prefix_rfl, ⟨h, ?_⟩, Nat.le_succ _, fun s hs => .inl hs⟩
    rw [getElem?_eq_getElem hi, beq_iff_eq.1 hv]
  · refine ⟨prefix_append _ _, ⟨h, ?_⟩, ?_, fun s hs => ?_⟩
    · exact getElem?_concat_length
    · simp
    · rcases mem_append.1 hs with hs | hs
      · exact .inl hs
      · rw [mem_singleton.1 hs]
        exact .inr ⟨rfl, h⟩

theorem internAll_spec (vs : List ByteString) : ∀ p : List ByteString, p <+: (internAll p vs).1 ∧
        List.Forall₂ (Resolves (internAll p vs).1) (internAll p vs).2 vs ∧
        (internAll p vs).1.length ≤ p.length + vs.length ∧
        (∀ s ∈ (internAll p vs).1, s ∈ p ∨ s ∈ vs ∧ s ≠ []) := by
  induction vs with
  | nil =>
    intro p
    exact ⟨prefix_rfl, .nil, le_refl _, fun s hs => .inl hs⟩
  | cons v vs ih =>
    intro p
    obtain ⟨hg, hf, hl, hm⟩ := intern_spec p v
    obtain ⟨hg', hr, hl', hm'⟩ := ih (intern p v).1
    refine ⟨hg.trans hg', .cons (hf.mono hg') hr, ?_, fun s hs => ?_⟩
    · change (internAll (intern p v).1 vs).1.length ≤ _
      rw [length_cons]
      omega
    · rcases hm' s hs with hs | ⟨hs, hn⟩
      · rcases hm s hs with hs | ⟨rfl, hn⟩
        · exact .inl hs
        · exact .inr ⟨mem_cons_self, hn⟩
      · exact .inr ⟨mem_cons_of_mem _ hs, hn⟩

/-- **Every number leads to its string in the final pool.** -/
theorem internRows_spec (rs : List (List ByteString)) : ∀ p : List ByteString,
      p <+: (internRows p rs).1 ∧ List.Forall₂ (List.Forall₂ (Resolves (internRows p rs).1))
          (internRows p rs).2 rs ∧
        (internRows p rs).1.length ≤ p.length + (rs.map List.length).sum ∧
        (∀ s ∈ (internRows p rs).1, s ∈ p ∨ (∃ ro ∈ rs, s ∈ ro) ∧ s ≠ []) := by
  induction rs with
  | nil =>
    intro p
    exact ⟨prefix_rfl, .nil, le_refl _, fun s hs => .inl hs⟩
  | cons ro rs ih =>
    intro p
    obtain ⟨hg, hf, hl, hm⟩ := internAll_spec ro p
    obtain ⟨hg', he, hl', hm'⟩ := ih (internAll p ro).1
    refine ⟨hg.trans hg', .cons (hf.imp fun _ _ h => h.mono hg') he, ?_, fun s hs => ?_⟩
    · change (internRows (internAll p ro).1 rs).1.length ≤ _
      rw [map_cons, sum_cons]
      omega
    · rcases hm' s hs with hs | ⟨⟨r, hr, hs⟩, hn⟩
      · rcases hm s hs with hs | ⟨hs, hn⟩
        · exact .inl hs
        · exact .inr ⟨⟨ro, mem_cons_self, hs⟩, hn⟩
      · exact .inr ⟨⟨r, mem_cons_of_mem _ hr, hs⟩, hn⟩

def poolBytes (pool : List ByteString) : ℕ := (pool.map List.length).sum

theorem poolBytes_intern (p : List ByteString) (v : ByteString) :
    poolBytes (intern p v).1 ≤ poolBytes p + v.length := by
  unfold intern
  split
  · exact Nat.le_add_right _ _
  · split
    · exact Nat.le_add_right _ _
    · simp [poolBytes]

theorem poolBytes_internAll (values : List ByteString) : ∀ p : List ByteString,
      poolBytes (internAll p values).1 ≤ poolBytes p + poolBytes values := by
  induction values with
  | nil => intro p; exact Nat.le_add_right _ _
  | cons v values ih =>
    intro p
    have hf := poolBytes_intern p v
    have hr := ih (intern p v).1
    have hs : poolBytes (v :: values) = v.length + poolBytes values := by simp [poolBytes]
    change poolBytes (internAll (intern p v).1 values).1 ≤ _
    omega

theorem poolBytes_internRows (rs : List (List ByteString)) : ∀ pool : List ByteString,
      poolBytes (internRows pool rs).1 ≤ poolBytes pool + (rs.map poolBytes).sum := by
  induction rs with
  | nil => intro pool; exact Nat.le_add_right _ _
  | cons r rs ih =>
    intro pool
    have hf := poolBytes_internAll r pool
    have hr := ih (internAll pool r).1
    rw [map_cons, sum_cons]
    change poolBytes (internRows (internAll pool r).1 rs).1 ≤ _
    omega

end StringPool

/-! ### The records of a pool -/

/-- A reference to a string: where its bytes are, and how many. -/
structure StringRef where
  offset : ℕ := 0
  length : ℕ := 0
deriving DecidableEq

/-- Where the record ends that is at `cursor`. -/
def nextRecord (cursor : ℕ) (value : ByteString) : ℕ := pad8 (cursor + 8 + value.length)

/-- Where a pool ends whose first record is at `cursor`. -/
def poolEnd (cursor : ℕ) (pool : List ByteString) : ℕ := pool.foldl nextRecord cursor

/-- The references to the strings of a pool. -/
def stringRefs : ℕ → List ByteString → List StringRef
  | _, [] => []
  | cursor, value :: pool =>
    ⟨cursor + 8, value.length⟩ :: stringRefs (nextRecord cursor value) pool

def stringRecord (cursor : ℕ) (value : ByteString) : Record where
  offset := cursor
  size := nextRecord cursor value - cursor
  fields := [(0, toLE 4 value.length), (8, value)]

/-- The records of a pool. -/
def stringRecords : ℕ → List ByteString → List Record
  | _, [] => []
  | cursor, value :: pool =>
    stringRecord cursor value :: stringRecords (nextRecord cursor value) pool

/-- The reference with a number; that of the empty string is zero. -/
def refFor (index : Option ℕ) (refs : List StringRef) : StringRef :=
  match index with
  | none => {}
  | some i => refs.getD i {}

theorem le_nextRecord (c : ℕ) (value : ByteString) :
    c + 8 + value.length ≤ nextRecord c value := le_pad8 _

theorem le_poolEnd (pool : List ByteString) : ∀ c, c ≤ poolEnd c pool := by
  induction pool with
  | nil => intro c; exact le_refl _
  | cons v pool ih =>
    intro c
    have hn := le_nextRecord c v
    have hr := ih (nextRecord c v)
    change c ≤ poolEnd (nextRecord c v) pool
    omega

theorem poolEnd_le (pool : List ByteString) :
    ∀ c, poolEnd c pool ≤ c + StringPool.poolBytes pool + 15 * pool.length := by
  induction pool with
  | nil => intro c; exact Nat.le_add_right _ _
  | cons v pool ih =>
    intro c
    have hn : nextRecord c v ≤ c + 8 + v.length + 7 := pad8_le _
    have hr := ih (nextRecord c v)
    have hs : StringPool.poolBytes (v :: pool) = v.length + StringPool.poolBytes pool := by
      simp [StringPool.poolBytes]
    rw [hs, length_cons]
    change poolEnd (nextRecord c v) pool ≤ _
    omega

/-- The string with a number has its record and its reference at the same place. -/
theorem exists_stringRecord {pool : List ByteString} {i : ℕ} {v : ByteString} :
    ∀ cu : ℕ, pool[i]? = some v →
      ∃ c, cu ≤ c ∧ (stringRefs cu pool)[i]? = some ⟨c + 8, v.length⟩ ∧
        stringRecord c v ∈ stringRecords cu pool := by
  induction pool generalizing i with
  | nil => intro cu h; cases h
  | cons f pool ih =>
    intro cu h
    cases i with
    | zero =>
      cases h
      exact ⟨cu, le_refl _, rfl, mem_cons_self⟩
    | succ i =>
      have hn := le_nextRecord cu f
      obtain ⟨c, hc, hr, hrec⟩ := ih (nextRecord cu f) h
      exact ⟨c, by omega, hr, mem_cons_of_mem _ hrec⟩

theorem fits_stringRecord (c : ℕ) (value : ByteString) : (stringRecord c value).Fits := by
  have hn := le_nextRecord c value
  refine Record.fits_of_shaped [(0, 4), (8, value.length)] (shaped_of_eq ?_) ?_ ?_
  · simp [stringRecord, extent]
  · intro e he
    change e.1 + e.2 ≤ nextRecord c value - c
    rcases mem_pair.1 he with rfl | rfl
    · omega
    · omega
  · simp [ExtentsApart]

theorem fits_of_mem_stringRecords {p : List ByteString} {r : Record} :
    ∀ {c : ℕ}, r ∈ stringRecords c p → r.Fits := by
  induction p with
  | nil => intro c h; cases h
  | cons v p ih =>
    intro c h
    rcases mem_cons.1 h with rfl | h
    · exact fits_stringRecord c v
    · exact ih h

/-! ### Records in order -/

namespace Records

/-- The records lie one behind the other, between `lo` and `hi`. -/
def Sequential : ℕ → List Record → ℕ → Prop
  | lo, [], hi => lo ≤ hi
  | lo, r :: records, hi => lo ≤ r.offset ∧ Sequential (r.offset + r.size) records hi

theorem Sequential.mono {re : List Record} {hi hi' : ℕ} (hh : hi ≤ hi') :
    ∀ {lo lo' : ℕ}, lo' ≤ lo → Sequential lo re hi → Sequential lo' re hi' := by
  induction re with
  | nil =>
    intro lo lo' hl h
    exact (hl.trans h).trans hh
  | cons r re ih =>
    intro lo lo' hl h
    exact ⟨hl.trans h.1, ih (le_refl _) h.2⟩

theorem Sequential.append {as bs : List Record} {m hi : ℕ} (hb : Sequential m bs hi) :
    ∀ {lo : ℕ}, Sequential lo as m → Sequential lo (as ++ bs) hi := by
  induction as with
  | nil =>
    intro lo ha
    exact hb.mono (le_refl _) ha
  | cons r as ih =>
    intro lo ha
    exact ⟨ha.1, ih ha.2⟩

theorem Sequential.inside {re : List Record} {hi : ℕ} : ∀ {lo : ℕ}, Sequential lo re hi → lo ≤ hi ∧
      ∀ r ∈ re, lo ≤ r.offset ∧ r.offset + r.size ≤ hi := by
  induction re with
  | nil =>
    intro lo h
    exact ⟨h, fun r hr => absurd hr not_mem_nil⟩
  | cons f re ih =>
    intro lo h
    obtain ⟨hl, he⟩ := ih h.2
    have hf := h.1
    refine ⟨by omega, fun r hr => ?_⟩
    rcases mem_cons.1 hr with rfl | hr
    · exact ⟨hf, hl⟩
    · have := he r hr
      omega

theorem Sequential.apart {re : List Record} {hi : ℕ} :
    ∀ {lo : ℕ}, Sequential lo re hi → re.Pairwise Record.Apart := by
  induction re with
  | nil => intro lo _; exact List.Pairwise.nil
  | cons f re ih =>
    intro lo h
    refine List.Pairwise.cons (fun r hr => ?_) (ih h.2)
    exact .inl (h.2.inside.2 r hr).1

theorem sequential_stringRecords (p : List ByteString) :
    ∀ c, Sequential c (stringRecords c p) (poolEnd c p) := by
  induction p with
  | nil => intro c; exact le_refl _
  | cons value p ih =>
    intro c
    have hn := le_nextRecord c value
    have he : c + (nextRecord c value - c) = nextRecord c value := by omega
    refine ⟨le_refl _, ?_⟩
    change Sequential (c + (nextRecord c value - c)) _ _
    rw [he]
    exact ih (nextRecord c value)

end Records

open Records

variable {records rc re : List Record} {size si : ℕ}

theorem length_of_sequential (h : Sequential 0 rc size) (hf : ∀ r ∈ rc, r.Fits) :
    (putRecords rc (replicate size 0)).length = size := by
  refine (length_putRecords _ hf fun r hr => ?_).trans length_replicate
  rw [length_replicate]
  exact (h.inside.2 r hr).2

theorem slice_replicate_zero (si : ℕ) {o l : ℕ} (h : o + l ≤ si) :
    slice (replicate si 0) o l = replicate l 0 := by
  simp only [slice, drop_replicate, take_replicate]
  congr 1
  omega

/-- **Records in order are all written.** -/
theorem written_of_sequential (h : Sequential 0 re si) (hf : ∀ r ∈ re, r.Fits) :
    ∀ r ∈ re, Written (putRecords re (replicate si 0)) r := by
  refine written_putRecords h.apart _ hf (fun r hr => ?_) fun r hr => ?_
  · rw [length_replicate]
    exact (h.inside.2 r hr).2
  · exact slice_replicate_zero si (h.inside.2 r hr).2

theorem written_beside {o l : ℕ} (h : Sequential 0 rc size)
    (hf : ∀ r ∈ rc, r.Fits) (hl : o + l ≤ size)
    (hb : ∀ r ∈ rc, r.offset + r.size ≤ o ∨ o + l ≤ r.offset) :
    Written (putRecords rc (replicate size 0)) ⟨o, l, []⟩ where
  inside := by
    rw [length_of_sequential h hf]
    exact hl
  fits := fun f hd => absurd hd not_mem_nil
  field := fun f hd => absurd hd not_mem_nil
  gap := by
    intro k w hk _
    dsimp only at hk ⊢
    have hu := slice_putRecords_of_apart (a := o + k) (n := w) (replicate size 0)
      hf (fun r hr => by
        rw [length_replicate]
        exact (h.inside.2 r hr).2)
      (fun r hr => by
        have := hb r hr
        omega)
    rw [hu]
    exact slice_replicate_zero size (by omega)

end TradutorLinux
