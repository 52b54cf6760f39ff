import TradutorLinux.Util.Agree
import TradutorLinux.Util.StringPool

/-!
# Wires of tables

A buffer with a header of 128 bytes, which holds the descriptors of four
tables, the tables with records of a fixed size behind it, and a string pool at
its end.  A record refers to a string by two words.  The reader trusts nothing:
every descriptor and every reference is checked.

A `Dialect` is what the formats of this family differ in besides their tables:
the code, the phase and the texts of the failures.

## Main definitions

* `WireTable`, `placeTable`, `placeStrings` — descriptors, and how a writer lays
  the tables out.
* `refFields`, `rowRecords`, `descriptorRecord` — the writes.
* `Reader`

## Main results

* `Reader.readRef_ok` — **a reference that was written leads to its string.**
* `Reader.readDescriptor_ok`, `Reader.fixedRecord_ok` — tables that were laid out are found.
* `collect_of_forall`
-/

namespace TradutorLinux

open StringPool Records List

/-! ### Geometry -/

def tableHeaderSize : ℕ := 128
def tableDescriptorOffset : ℕ := 32
def tableDescriptorSize : ℕ := 24
def tableRefSize : ℕ := 16
def variableRecords : ℕ := 1
def wordMax : ℕ := 0xFFFFFFFFFFFFFFFF

/-- A table descriptor. -/
structure WireTable where
  offset : ℕ := 0
  count : ℕ := 0
  stride : ℕ := 0
  flags : ℕ := 0
deriving DecidableEq

/-! ### Writers -/

/-- Where a table of `count` records goes, and where it ends. -/
def placeTable (cursor count stride : ℕ) : ℕ × ℕ :=
  if count = 0 then (0, cursor) else (pad8 cursor, pad8 cursor + count * stride)

/-- Where the pool goes, and where it ends. -/
def placeStrings (cursor : ℕ) (pool : List ByteString) : ℕ × ℕ :=
  if pool = [] then (0, cursor) else (pad8 cursor, poolEnd (pad8 cursor) pool)

/-- The writes of a reference. -/
def refField (position : ℕ) (ref : StringRef) : List (ℕ × ByteString) :=
  [(position, toLE 8 ref.offset), (position + 8, toLE 8 ref.length)]

/-- References one behind the other. -/
def refFields (position : ℕ) : List StringRef → List (ℕ × ByteString)
  | [] => []
  | ref :: refs => refField position ref ++ refFields (position + tableRefSize) refs

/-- The records of a table, whose fields are given row by row. -/
def rowRecords (stride : ℕ) : ℕ → List (List (ℕ × ByteString)) → List Record
  | _, [] => []
  | offset, fields :: rows => ⟨offset, stride, fields⟩ :: rowRecords stride (offset + stride) rows

def descriptorPlace (index : ℕ) : ℕ := tableDescriptorOffset + index * tableDescriptorSize

/-- A descriptor as it is written. -/
def descriptorRecord (index : ℕ) (table : WireTable) : Record where
  offset := descriptorPlace index
  size := tableDescriptorSize
  fields := [(0, toLE 8 table.offset), (8, toLE 8 table.count), (16, toLE 4 table.stride),
    (20, toLE 4 table.flags)]

/-- Descriptors from the number `index` on; that of an empty table is left out. -/
def descriptorWrites : ℕ → List WireTable → List Record
  | _, [] => []
  | index, table :: tables =>
    (if table.count = 0 then [] else [descriptorRecord index table]) ++
      descriptorWrites (index + 1) tables

/-- A table as its descriptor tells it, when that is left out for an empty one. -/
def WireTable.told (table : WireTable) : WireTable := if table.count = 0 then {} else table

/-! ### The reader -/

/-- A failure of a reader. -/
structure WireFault where
  code : ℕ
  phase : ℕ
  inputOffset : ℕ
  detailValue : ℕ
  message : ByteString
deriving DecidableEq

/-- The code, the phase and the texts of a format. -/
structure Dialect where
  code : ℕ
  phase : ℕ
  truncated : ByteString
  outsideBuffer : ByteString
  notZero : ByteString
  badRef : ByteString
  lostRef : ByteString
  outsideTable : ByteString
  emptyDescriptor : ByteString
  badDescriptor : ByteString
  variableOutside : ByteString
  badInterval : ByteString
  overlap : ByteString

/-- A reader of a buffer. -/
structure Reader where
  dialect : Dialect
  bytes : ByteString

namespace Reader

variable {α : Type} (r : Reader)

/-- `Decoder::fail`. -/
def fail (offset detail : ℕ) (message : ByteString) : Except WireFault α :=
  .error ⟨r.dialect.code, r.dialect.phase, offset, detail, message⟩

/-- `read_u16`, `read_u32`, `read_u64`. -/
def readWord (offset width : ℕ) : Except WireFault ℕ :=
  match readLE r.bytes offset width with
  | some value => .ok value
  | none => r.fail offset width r.dialect.truncated

/-- `zero_range`. -/
def zeroRange (offset length : ℕ) : Except WireFault Unit :=
  if !inRange r.bytes.length offset length then r.fail offset length r.dialect.outsideBuffer
  else if (slice r.bytes offset length).all (· == 0) then .ok ()
  else r.fail offset length r.dialect.notZero

/-- `read_ref`. -/
def readRef (strings : List StringRef) (offset : ℕ) : Except WireFault ByteString :=
  r.readWord offset 8 >>= fun dataOffset =>
  r.readWord (offset + 8) 8 >>= fun length =>
  if dataOffset = 0 ∧ length = 0 then .ok []
  else if dataOffset = 0 ∨ length = 0 then r.fail offset dataOffset r.dialect.badRef
  else if strings.any fun record => record == ⟨dataOffset, length⟩ then
    .ok (slice r.bytes dataOffset length)
  else r.fail offset dataOffset r.dialect.lostRef

/-- `fixed_record`. -/
def fixedRecord (table : WireTable) (index : ℕ) : Except WireFault ℕ :=
  let relative := index * table.stride
  let offset := table.offset + relative
  if relative > wordMax ∨ offset > wordMax ∨ !inRange r.bytes.length offset table.stride then
    r.fail table.offset index r.dialect.outsideTable
  else .ok offset

/-- The four words of a descriptor. -/
def readDescriptor (index : ℕ) : Except WireFault WireTable :=
  let position := descriptorPlace index
  r.readWord position 8 >>= fun offset =>
  r.readWord (position + 8) 8 >>= fun count =>
  r.readWord (position + 16) 4 >>= fun stride =>
  r.readWord (position + 20) 4 >>= fun flags => .ok ⟨offset, count, stride, flags⟩

/-- `descriptor_range`: where the table ends. -/
def descriptorRange (table : WireTable) (expectedStride expectedFlags total : ℕ) :
    Except WireFault ℕ :=
  if table.count = 0 then
    if table.offset ≠ 0 ∨ table.stride ≠ 0 ∨ table.flags ≠ 0 then
      r.fail table.offset table.count r.dialect.emptyDescriptor
    else .ok 0
  else if table.offset < tableHeaderSize ∨ table.offset % 8 ≠ 0 ∨
      table.stride ≠ expectedStride ∨ table.flags ≠ expectedFlags then
    r.fail table.offset table.stride r.dialect.badDescriptor
  else if expectedStride = 0 then
    if !inRange total table.offset 0 then r.fail table.offset table.count r.dialect.variableOutside
    else .ok total
  else
    let length := table.count * table.stride
    if length > wordMax ∨ table.offset + length > wordMax ∨ !inRange total table.offset length then
      r.fail table.offset table.count r.dialect.badInterval
    else .ok (table.offset + length)

/-- A table and its end against the tables behind it. -/
def checkApart (left : ℕ) (table : WireTable) (stop : ℕ) :
    List (WireTable × ℕ) → Except WireFault Unit
  | [] => .ok ()
  | (other, otherStop) :: rest =>
    if other.count = 0 then checkApart left table stop rest
    else if table.offset < otherStop ∧ other.offset < stop then
      r.fail other.offset left r.dialect.overlap
    else checkApart left table stop rest

/-- `ranges_do_not_overlap`, from the table number `left` on. -/
def rangesDoNotOverlap : ℕ → List (WireTable × ℕ) → Except WireFault Unit
  | _, [] => .ok ()
  | left, (table, stop) :: rest =>
    if table.count = 0 then rangesDoNotOverlap (left + 1) rest
    else
      r.checkApart left table stop rest >>= fun _ => rangesDoNotOverlap (left + 1) rest

end Reader

/-! ### What was written -/

/-- The extents of a list of references. -/
def refShape (position : ℕ) : ℕ → List (ℕ × ℕ)
  | 0 => []
  | n + 1 => (position, 8) :: (position + 8, 8) :: refShape (position + tableRefSize) n

theorem shaped_refFields (rs : List StringRef) :
    ∀ p, Shaped (refFields p rs) (refShape p rs.length) := by
  induction rs with
  | nil => intro p; exact List.Sublist.refl _
  | cons re rs ih =>
    intro p
    have hf : Shaped (refField p re) [(p, 8), (p + 8, 8)] :=
      shaped_of_eq (by simp [refField, extent])
    exact hf.append (ih (p + tableRefSize))

variable {i : ℕ}

theorem refField_subset_refFields {refs : List StringRef} {re : StringRef} :
    ∀ p : ℕ, refs[i]? = some re →
      ∀ fl ∈ refField (p + i * tableRefSize) re, fl ∈ refFields p refs := by
  induction refs generalizing i with
  | nil => intro p h; cases h
  | cons f refs ih =>
    intro p h fl hf
    rw [refFields, mem_append]
    cases i with
    | zero =>
      cases h
      exact .inl hf
    | succ i =>
      refine .inr (ih (p + tableRefSize) h fl ?_)
      have hp : p + tableRefSize + i * tableRefSize = p + (i + 1) * tableRefSize := by ring
      rw [hp]
      exact hf

theorem sequential_rowRecords (stride : ℕ) (rs : List (List (ℕ × ByteString))) :
    ∀ off, Sequential off (rowRecords stride off rs) (off + rs.length * stride) := by
  induction rs with
  | nil => intro off; exact Nat.le_add_right _ _
  | cons fs rs ih =>
    intro off
    refine ⟨le_refl _, ?_⟩
    have he : off + (fs :: rs).length * stride = off + stride + rs.length * stride := by
      rw [length_cons]
      ring
    rw [he]
    exact ih (off + stride)

theorem mem_rowRecords {stride : ℕ} {rows : List (List (ℕ × ByteString))}
    {fs : List (ℕ × ByteString)} :
    ∀ {off : ℕ}, rows[i]? = some fs →
      (⟨off + i * stride, stride, fs⟩ : Record) ∈ rowRecords stride off rows := by
  induction rows generalizing i with
  | nil => intro off h; cases h
  | cons f rows ih =>
    intro off h
    cases i with
    | zero =>
      cases h
      rw [zero_mul, add_zero]
      exact mem_cons_self
    | succ i =>
      have hp : off + (i + 1) * stride = off + stride + i * stride := by ring
      rw [hp]
      exact mem_cons_of_mem _ (ih h)

variable {s : ℕ}

theorem exists_of_mem_rowRecords {rows : List (List (ℕ × ByteString))} {record : Record} :
    ∀ {off : ℕ}, record ∈ rowRecords s off rows → record.size = s ∧ record.fields ∈ rows := by
  induction rows with
  | nil => intro off h; cases h
  | cons f rows ih =>
    intro off h
    rcases mem_cons.1 h with rfl | h
    · exact ⟨rfl, mem_cons_self⟩
    · obtain ⟨hs, hm⟩ := ih h
      exact ⟨hs, mem_cons_of_mem _ hm⟩

theorem fits_descriptorRecord (i : ℕ) (ta : WireTable) : (descriptorRecord i ta).Fits :=
  Record.fits_of_shaped [(0, 8), (8, 8), (16, 4), (20, 4)] (shaped_of_eq rfl)
    (show ∀ e ∈ [(0, 8), (8, 8), (16, 4), (20, 4)], e.1 + e.2 ≤ 24 by decide) (by decide)

@[simp] theorem WireTable.count_told (ta : WireTable) : ta.told.count = ta.count := by
  unfold told
  split
  · next hz => exact hz.symm
  · rfl

variable {table ta : WireTable}

theorem WireTable.offset_told (hc : ta.count ≠ 0) : ta.told.offset = ta.offset := by
  unfold told
  rw [if_neg hc]

theorem descriptorPlace_succ (i : ℕ) :
    descriptorPlace (i + 1) = descriptorPlace i + tableDescriptorSize := by
  unfold descriptorPlace
  ring

theorem sequential_descriptorWrites (ts : List WireTable) :
    ∀ i, Sequential (descriptorPlace i) (descriptorWrites i ts)
      (descriptorPlace (i + ts.length)) := by
  induction ts with
  | nil => intro i; exact le_refl _
  | cons ta ts ih =>
    intro i
    have hr := ih (i + 1)
    have he : i + 1 + ts.length = i + (ta :: ts).length := by
      rw [length_cons]
      omega
    rw [he] at hr
    refine Sequential.append hr ?_
    rw [descriptorPlace_succ]
    split
    · exact Nat.le_add_right _ _
    · exact ⟨le_refl _, le_refl _⟩

variable {tables ts : List WireTable}

theorem fits_of_mem_descriptorWrites {record : Record} :
    ∀ {i : ℕ}, record ∈ descriptorWrites i ts → record.Fits := by
  induction ts with
  | nil => intro i h; cases h
  | cons ta ts ih =>
    intro i h
    rcases mem_append.1 h with h | h
    · split at h
      · cases h
      · rw [mem_singleton.1 h]
        exact fits_descriptorRecord i ta
    · exact ih h

theorem mem_descriptorWrites (hc : table.count ≠ 0) : ∀ ix : ℕ, tables[i]? = some table →
      descriptorRecord (ix + i) table ∈ descriptorWrites ix tables := by
  induction tables generalizing i with
  | nil => intro ix h; cases h
  | cons f tables ih =>
    intro ix h
    cases i with
    | zero =>
      cases h
      refine mem_append_left _ ?_
      rw [if_neg hc]
      exact mem_cons_self
    | succ i =>
      refine mem_append_right _ ?_
      have hp : ix + (i + 1) = ix + 1 + i := by omega
      rw [hp]
      exact ih (ix + 1) h

theorem descriptorWrites_beside (hc : ta.count = 0) :
    ∀ ix : ℕ, ts[i]? = some ta → ∀ record ∈ descriptorWrites ix ts,
      record.offset + record.size ≤ descriptorPlace (ix + i) ∨
        descriptorPlace (ix + i) + tableDescriptorSize ≤ record.offset := by
  induction ts generalizing i with
  | nil => intro ix h; cases h
  | cons f ts ih =>
    intro ix h record hrec
    rcases mem_append.1 hrec with hrec | hrec
    · cases i with
      | zero =>
        cases h
        rw [if_pos hc] at hrec
        cases hrec
      | succ i =>
        split at hrec
        · cases hrec
        rw [mem_singleton.1 hrec]
        left
        change descriptorPlace ix + tableDescriptorSize ≤ _
        unfold descriptorPlace tableDescriptorSize
        omega
    · cases i with
      | zero =>
        right
        rw [add_zero, ← descriptorPlace_succ]
        exact ((sequential_descriptorWrites ts (ix + 1)).inside.2 record hrec).1
      | succ i =>
        have hp : ix + (i + 1) = ix + 1 + i := by omega
        rw [hp]
        exact ih (ix + 1) h record hrec

/-- The loop over a table, row by row. -/
theorem collect_of_forall {ε α : Type} {re : ℕ → Except ε α} {values : List α} :
    ∀ {ix : ℕ}, (∀ i va, values[i]? = some va → re (ix + i) = .ok va) →
      collect re ix values.length = .ok values := by
  induction values with
  | nil => intro ix _; rfl
  | cons va values ih =>
    intro ix he
    have hf := he 0 va rfl
    have hr : collect re (ix + 1) values.length = .ok values := ih fun i v hv => by
      rw [add_assoc, add_comm 1]
      exact he (i + 1) v hv
    exact bind_of_ok hf (bind_of_ok hr rfl)

theorem exists_of_forall₂ {α β : Type} {R : α → β → Prop} {as : List α} {bs : List β}
    (h : List.Forall₂ R as bs) :
    ∀ {i : ℕ} {b : β}, bs[i]? = some b → ∃ a, as[i]? = some a ∧ R a b := by
  induction h with
  | nil => intro i b hb; cases hb
  | @cons a b as bs ha _ ih =>
    intro i c hc
    cases i with
    | zero =>
      cases hc
      exact ⟨a, rfl, ha⟩
    | succ i => exact ih hc

/-! ### Reading it back -/

namespace Reader

variable {dialect : Dialect} {out : ByteString} {record : Record} {k w : ℕ}

theorem readWord_field (h : Written out record) {v : ℕ} (hf : (k, toLE w v) ∈ record.fields)
    (hv : v < 256 ^ w) : (⟨dialect, out⟩ : Reader).readWord (record.offset + k) w = .ok v := by
  unfold readWord
  rw [h.readLE_field hf hv]

variable {shape : List (ℕ × ℕ)}

section

variable (h : Written out record)
include h

theorem readWord_gap (hs : Shaped record.fields shape) (hk : k + w ≤ record.size)
    (hg : ∀ e ∈ shape, e.1 + e.2 ≤ k ∨ k + w ≤ e.1) :
    (⟨dialect, out⟩ : Reader).readWord (record.offset + k) w = .ok 0 := by
  unfold readWord
  rw [h.readLE_gap hk (Written.gap_of_shaped hs hg)]

theorem zeroRange_gap (hs : Shaped record.fields shape) (hk : k + w ≤ record.size)
    (hg : ∀ e ∈ shape, e.1 + e.2 ≤ k ∨ k + w ≤ e.1) :
    (⟨dialect, out⟩ : Reader).zeroRange (record.offset + k) w = .ok () := by
  have hi : (!inRange out.length (record.offset + k) w) = false := by
    rw [Bool.not_eq_false', inRange_iff]
    have := h.inside
    omega
  have hz : (slice out (record.offset + k) w).all (· == 0) := by
    rw [h.gap k w hk (Written.gap_of_shaped hs hg)]
    exact all_eq_true.2 fun b hb => beq_iff_eq.2 (eq_of_mem_replicate hb)
  unfold zeroRange
  rw [hi, hz]
  rfl

theorem readWord_front (hf : record.offset = 0) {v : ℕ}
    (hi : (k, toLE w v) ∈ record.fields) (hv : v < 256 ^ w) :
    (⟨dialect, out⟩ : Reader).readWord k w = .ok v := by
  rw [← zero_add k, ← hf]
  exact readWord_field h hi hv

theorem readWord_frontGap (hf : record.offset = 0) (hs : Shaped record.fields shape)
    (hk : k + w ≤ record.size) (hg : ∀ e ∈ shape, e.1 + e.2 ≤ k ∨ k + w ≤ e.1) :
    (⟨dialect, out⟩ : Reader).readWord k w = .ok 0 := by
  have hr : (⟨dialect, out⟩ : Reader).readWord (record.offset + k) w = .ok 0 :=
    readWord_gap h hs hk hg
  rwa [hf, zero_add] at hr

end

variable (dialect) in
theorem stringRecord_reads {cursor : ℕ} {v : ByteString}
    (h : Written out (stringRecord cursor v)) (hl : v.length < 256 ^ 4) :
    (⟨dialect, out⟩ : Reader).readWord cursor 4 = .ok v.length ∧
      (⟨dialect, out⟩ : Reader).readWord (cursor + 4) 4 = .ok 0 ∧
      (⟨dialect, out⟩ : Reader).zeroRange (cursor + 8 + v.length)
        (nextRecord cursor v - (cursor + 8 + v.length)) = .ok () := by
  have hn := le_nextRecord cursor v
  have hs : Shaped (stringRecord cursor v).fields [(0, 4), (8, v.length)] :=
    shaped_of_eq (by simp [stringRecord, extent])
  have hi : (stringRecord cursor v).size = nextRecord cursor v - cursor := rfl
  refine ⟨?_, ?_, ?_⟩
  · exact readWord_field (k := 0) h mem_cons_self hl
  · refine readWord_gap h hs ?_ ?_
    · omega
    · simp
  · rw [add_assoc]
    refine zeroRange_gap h hs ?_ ?_
    · omega
    · simp
      omega

/-- **A reference that was written leads to its string.** -/
theorem readRef_ok {p : List ByteString} {st : ℕ} {ix : Option ℕ} {value : ByteString}
    (h : Written out record) (hu : out.length ≤ wordMax)
    (hp : ∀ s ∈ stringRecords st p, Written out s) (hv : Resolves p ix value)
    (hf : ∀ f ∈ refField k (refFor ix (stringRefs st p)), f ∈ record.fields) :
    (⟨dialect, out⟩ : Reader).readRef (stringRefs st p) (record.offset + k) = .ok value := by
  have ha : wordMax < 256 ^ 8 := by decide
  have ho := hf _ mem_cons_self
  have hl := hf _ (mem_cons_of_mem _ mem_cons_self)
  cases ix with
  | none =>
    obtain rfl : value = [] := hv
    have hz : 0 < 256 ^ 8 := by decide
    refine bind_of_ok (readWord_field h ho hz) ?_
    exact bind_of_ok (readWord_field h hl hz) rfl
  | some i =>
    obtain ⟨hne, hi⟩ := hv
    obtain ⟨c, -, hr, hrec⟩ := exists_stringRecord st hi
    have hrf : refFor (some i) (stringRefs st p) = ⟨c + 8, value.length⟩ := by
      change (stringRefs st p).getD i {} = _
      rw [getD_eq_getElem?_getD, hr]
      rfl
    rw [hrf] at ho hl
    have hw := hp _ hrec
    have hn := le_nextRecord c value
    have hin : c + (nextRecord c value - c) ≤ out.length := hw.inside
    have hs : 0 < value.length := length_pos_iff.2 hne
    have hoff : c + 8 < 256 ^ 8 := by omega
    have he : value.length < 256 ^ 8 := by omega
    have hb : slice out (c + 8) value.length = value :=
      hw.field (8, value) (mem_cons_of_mem _ mem_cons_self)
    have hm : (stringRefs st p).any (fun s => s == ⟨c + 8, value.length⟩) :=
      any_eq_true.2 ⟨_, mem_of_getElem? hr, by simp⟩
    refine bind_of_ok (readWord_field h ho hoff) ?_
    refine bind_of_ok (readWord_field h hl he) ?_
    dsimp only
    rw [if_neg (by omega), if_neg (by omega), hm, if_pos rfl, hb]

theorem readRefs_ok {p vs : List ByteString} {st b : ℕ} {ro : List (Option ℕ)}
    (h : Written out record) (ho : out.length ≤ wordMax)
    (hp : ∀ s ∈ stringRecords st p, Written out s) (hw : List.Forall₂ (Resolves p) ro vs)
    (he : ∀ f ∈ refFields b (ro.map fun ix => refFor ix (stringRefs st p)),
      f ∈ record.fields) {value : ByteString} (hv : vs[i]? = some value) :
    (⟨dialect, out⟩ : Reader).readRef (stringRefs st p)
      (record.offset + (b + i * tableRefSize)) = .ok value := by
  obtain ⟨ix, hi, hs⟩ := exists_of_forall₂ hw hv
  have hr : (ro.map fun ix => refFor ix (stringRefs st p))[i]? =
      some (refFor ix (stringRefs st p)) := by
    rw [getElem?_map, hi]
    rfl
  exact readRef_ok h ho hp hs fun f hf => he f (refField_subset_refFields b hr f hf)

theorem fixedRecord_ok (hi : i < ta.count)
    (he : ta.offset + ta.count * ta.stride ≤ out.length) (ho : out.length ≤ wordMax) :
    (⟨dialect, out⟩ : Reader).fixedRecord ta i = .ok (ta.offset + i * ta.stride) := by
  have hr : (i + 1) * ta.stride ≤ ta.count * ta.stride := Nat.mul_le_mul_right _ hi
  rw [add_mul, one_mul] at hr
  have hn : (!inRange out.length (ta.offset + i * ta.stride) ta.stride) = false := by
    rw [Bool.not_eq_false', inRange_iff]
    omega
  dsimp only [fixedRecord]
  rw [hn, if_neg]
  rintro (h | h | h)
  · omega
  · omega
  · cases h

variable {off n : ℕ}

theorem readDescriptor_ok {fl : ℕ} (h : Written out (descriptorRecord i ⟨off, n, s, fl⟩))
    (ho : off < 256 ^ 8) (hc : n < 256 ^ 8) (hs : s < 256 ^ 4) (hf : fl < 256 ^ 4) :
    (⟨dialect, out⟩ : Reader).readDescriptor i = .ok ⟨off, n, s, fl⟩ := by
  refine bind_of_ok (readWord_field (k := 0) h mem_cons_self ho) ?_
  refine bind_of_ok (readWord_field h (by simp [descriptorRecord]) hc) ?_
  refine bind_of_ok (readWord_field h (by simp [descriptorRecord]) hs) ?_
  exact bind_of_ok (readWord_field h (by simp [descriptorRecord]) hf) rfl

theorem readDescriptor_absent
    (h : Written out ⟨descriptorPlace i, tableDescriptorSize, []⟩) :
    (⟨dialect, out⟩ : Reader).readDescriptor i = .ok {} := by
  have hz : ∀ k w, k + w ≤ tableDescriptorSize →
      (⟨dialect, out⟩ : Reader).readWord (descriptorPlace i + k) w = .ok 0 := fun k w hk =>
    readWord_gap h (List.Sublist.refl _) hk fun e he => absurd he not_mem_nil
  refine bind_of_ok (hz 0 8 (by decide)) ?_
  refine bind_of_ok (hz 8 8 (by decide)) ?_
  refine bind_of_ok (hz 16 4 (by decide)) ?_
  exact bind_of_ok (hz 20 4 (by decide)) rfl

theorem readDescriptor_told (hp : ta.count ≠ 0 → Written out (descriptorRecord i ta))
    (ha : ta.count = 0 → Written out ⟨descriptorPlace i, tableDescriptorSize, []⟩)
    (ho : ta.offset < 256 ^ 8) (hc : ta.count < 256 ^ 8)
    (hs : ta.stride < 256 ^ 4) (hf : ta.flags < 256 ^ 4) :
    (⟨dialect, out⟩ : Reader).readDescriptor i = .ok ta.told := by
  unfold WireTable.told
  split
  · next hz => exact readDescriptor_absent (ha hz)
  · next hn => exact readDescriptor_ok (hp hn) ho hc hs hf

variable {r : Reader}
variable {t : ℕ}

theorem descriptorRange_ok (hc : n ≠ 0) (ho : tableHeaderSize ≤ off) (ha : off % 8 = 0) (hs : s ≠ 0)
    (he : off + n * s ≤ t) (ht : t ≤ wordMax) :
    r.descriptorRange ⟨off, n, s, 0⟩ s 0 t = .ok (off + n * s) := by
  have hi : (!inRange t off (n * s)) = false := by
    rw [Bool.not_eq_false', inRange_iff]
    exact he
  have hp : ¬(off < tableHeaderSize ∨ off % 8 ≠ 0 ∨ s ≠ s ∨ (0 : ℕ) ≠ 0) := by omega
  have hr : ¬(n * s > wordMax ∨ off + n * s > wordMax ∨ False) := by
    rintro (h | h | h)
    · omega
    · omega
    · exact h
  dsimp only [descriptorRange]
  rw [if_neg hc, if_neg hp, if_neg hs, hi]
  simp only [Bool.false_eq_true]
  exact if_neg hr

theorem descriptorRange_told
    (ho : n ≠ 0 → tableHeaderSize ≤ off) (ha : n ≠ 0 → off % 8 = 0)
    (hs : s ≠ 0) (he : n ≠ 0 → off + n * s ≤ t) (ht : t ≤ wordMax) :
    r.descriptorRange (WireTable.told ⟨off, n, s, 0⟩) s 0 t =
      .ok (if n = 0 then 0 else off + n * s) := by
  unfold WireTable.told
  by_cases hz : n = 0
  · rw [if_pos hz, if_pos hz]
    rfl
  · rw [if_neg hz, if_neg hz]
    exact descriptorRange_ok hz (ho hz) (ha hz) hs (he hz) ht

theorem descriptorRange_strings {total : ℕ} (hc : n ≠ 0)
    (ho : tableHeaderSize ≤ off) (ha : off % 8 = 0) (he : off ≤ total) :
    r.descriptorRange ⟨off, n, 0, variableRecords⟩ 0 variableRecords total = .ok total := by
  have hi : (!inRange total off 0) = false := by
    rw [Bool.not_eq_false', inRange_iff]
    exact he
  have hp : ¬(off < tableHeaderSize ∨ off % 8 ≠ 0 ∨ (0 : ℕ) ≠ 0 ∨
      variableRecords ≠ variableRecords) := by omega
  dsimp only [descriptorRange]
  rw [if_neg hc, if_neg hp, if_pos rfl, hi]
  rfl

theorem descriptorRange_absent {es ef : ℕ} : r.descriptorRange {} es ef t = .ok 0 := rfl

theorem checkApart_ok {l : ℕ}
    {re : List (WireTable × ℕ)} (h : ∀ t ∈ re, t.1.count ≠ 0 → s ≤ t.1.offset) :
    r.checkApart l ta s re = .ok () := by
  induction re with
  | nil => rfl
  | cons f re ih =>
    have hr := ih fun t ht => h t (mem_cons_of_mem _ ht)
    obtain ⟨o, os⟩ := f
    unfold checkApart
    split
    · exact hr
    · next hc =>
      have hb : s ≤ o.offset := h _ mem_cons_self hc
      rw [if_neg (by omega)]
      exact hr

theorem rangesDoNotOverlap_ok {ts : List (WireTable × ℕ)}
    (h : ts.Pairwise fun s t => s.1.count ≠ 0 → t.1.count ≠ 0 → s.2 ≤ t.1.offset) :
    ∀ {l : ℕ}, r.rangesDoNotOverlap l ts = .ok () := by
  induction ts with
  | nil => intro l; rfl
  | cons f ts ih =>
    intro l
    obtain ⟨hf, hr⟩ := pairwise_cons.1 h
    unfold rangesDoNotOverlap
    split
    · exact ih hr
    · next hc => exact bind_of_ok (checkApart_ok fun t ht => hf t ht hc) (ih hr)

end Reader
end TradutorLinux
