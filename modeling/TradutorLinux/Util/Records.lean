import TradutorLinux.Util.Bytes

/-!
# Records at fixed offsets

A writer that fills a zeroed buffer record by record, each record by a few
writes at offsets of its own.  As long as no two records share a byte the order
does not matter: behind the last write every record is as its own writes left
it, and zero where it has none.

## Main definitions

* `Record`
* `putRecords` — the whole writer.
* `Written out r` — the record is in the buffer.
* `Shaped fields shape` — where the fields are at most, and how long.

## Main results

* `written_putRecords`
* `Written.readLE_field`, `Written.readLE_gap` — what a reader finds in a record.
-/

namespace TradutorLinux

open List

/-- A record of `size` bytes at `offset`; a field is a write at an offset in it. -/
structure Record where
  offset : ℕ
  size : ℕ
  fields : List (ℕ × ByteString)

namespace Record

/-- The writes of a record, in order. -/
def put (out : ByteString) (r : Record) : ByteString :=
  r.fields.foldl (fun out field => putBytes out (r.offset + field.1) field.2) out

/-- The fields lie in the record, and none over another. -/
structure Fits (r : Record) : Prop where
  inside : ∀ field ∈ r.fields, field.1 + field.2.length ≤ r.size
  apart : r.fields.Pairwise fun f g => f.1 + f.2.length ≤ g.1 ∨ g.1 + g.2.length ≤ f.1

/-- The records share no byte. -/
def Apart (a b : Record) : Prop := a.offset + a.size ≤ b.offset ∨ b.offset + b.size ≤ a.offset

end Record

/-- The records, in order. -/
def putRecords (records : List Record) (out : ByteString) : ByteString :=
  records.foldl Record.put out

/-- The record is in the buffer: its fields, and zeros between them. -/
structure Written (out : ByteString) (r : Record) : Prop where
  inside : r.offset + r.size ≤ out.length
  fits : ∀ field ∈ r.fields, field.1 + field.2.length ≤ r.size
  field : ∀ field ∈ r.fields, slice out (r.offset + field.1) field.2.length = field.2
  gap : ∀ k w, k + w ≤ r.size →
    (∀ field ∈ r.fields, field.1 + field.2.length ≤ k ∨ k + w ≤ field.1) →
    slice out (r.offset + k) w = List.replicate w 0

/-! ### One record -/

variable {fields : List (ℕ × ByteString)}

section Writes

variable {offset o size : ℕ} {out : ByteString}

/-- A list of writes into a range. -/
def putFields (offset : ℕ) (fields : List (ℕ × ByteString)) (out : ByteString) : ByteString :=
  fields.foldl (fun out field => putBytes out (offset + field.1) field.2) out

section

variable (hin : ∀ field ∈ fields, field.1 + field.2.length ≤ size)
include hin

theorem length_putFields : ∀ out : ByteString, o + size ≤ out.length →
      (putFields o fields out).length = out.length := by
  induction fields with
  | nil => intro out _; rfl
  | cons field fields ih =>
    intro out ho
    have hi := hin field mem_cons_self
    have hl : (putBytes out (o + field.1) field.2).length = out.length :=
      length_putBytes (by omega)
    have hr := ih (fun f hf => hin f (mem_cons_of_mem _ hf))
      (putBytes out (o + field.1) field.2) (by omega)
    exact hr.trans hl

theorem slice_putFields_of_apart {a n : ℕ} : ∀ out : ByteString, o + size ≤ out.length →
      (∀ field ∈ fields, o + field.1 + field.2.length ≤ a ∨ a + n ≤ o + field.1) →
      slice (putFields o fields out) a n = slice out a n := by
  induction fields with
  | nil => intro out _ _; rfl
  | cons field fields ih =>
    intro out ho ha
    have hi := hin field mem_cons_self
    have hl : (putBytes out (o + field.1) field.2).length = out.length :=
      length_putBytes (by omega)
    have hr := ih (fun f hf => hin f (mem_cons_of_mem _ hf))
      (putBytes out (o + field.1) field.2) (by omega)
      (fun f hf => ha f (mem_cons_of_mem _ hf))
    exact hr.trans (slice_putBytes_of_disjoint (by omega) ((ha field mem_cons_self).symm))

theorem slice_putFields_of_mem
    (ha : fields.Pairwise fun f g => f.1 + f.2.length ≤ g.1 ∨ g.1 + g.2.length ≤ f.1) :
    ∀ out : ByteString, o + size ≤ out.length → ∀ field ∈ fields,
      slice (putFields o fields out) (o + field.1) field.2.length = field.2 := by
  induction fields with
  | nil => intro out _ field hi; cases hi
  | cons fi fields ih =>
    intro out ho field hi
    have hfr := hin fi mem_cons_self
    have hr := fun f hf => hin f (mem_cons_of_mem _ hf)
    have hl : (putBytes out (o + fi.1) fi.2).length = out.length := length_putBytes (by omega)
    rw [pairwise_cons] at ha
    obtain ⟨hh, ht⟩ := ha
    rcases mem_cons.1 hi with rfl | hm
    · have ho' : o + size ≤ (putBytes out (o + field.1) field.2).length := by omega
      have hb := slice_putFields_of_apart (a := o + field.1) (n := field.2.length) hr
        (putBytes out (o + field.1) field.2) ho' fun g hg => by
          have := hh g hg
          omega
      exact hb.trans (slice_putBytes_self (by omega))
    · have ho' : o + size ≤ (putBytes out (o + fi.1) fi.2).length := by omega
      exact ih hr ht _ ho' field hm

end

end Writes

/-! ### All records -/

variable {out : ByteString} {r : Record}

theorem length_put (hf : r.Fits) (hin : r.offset + r.size ≤ out.length) :
    (r.put out).length = out.length :=
  length_putFields hf.inside out hin

theorem slice_put_of_apart {a n : ℕ} (hf : r.Fits) (hin : r.offset + r.size ≤ out.length)
    (ha : r.offset + r.size ≤ a ∨ a + n ≤ r.offset) : slice (r.put out) a n = slice out a n := by
  refine slice_putFields_of_apart hf.inside out hin fun field hd => ?_
  have := hf.inside field hd
  omega

theorem length_putRecords {rs : List Record} : ∀ out : ByteString, (∀ r ∈ rs, r.Fits) →
      (∀ r ∈ rs, r.offset + r.size ≤ out.length) →
      (putRecords rs out).length = out.length := by
  induction rs with
  | nil => intro out _ _; rfl
  | cons r rs ih =>
    intro out hf hin
    have hl := length_put (hf r mem_cons_self) (hin r mem_cons_self)
    have hr := ih (r.put out) (fun s hs => hf s (mem_cons_of_mem _ hs)) fun s hs => by
      rw [hl]
      exact hin s (mem_cons_of_mem _ hs)
    exact hr.trans hl

theorem slice_putRecords_of_apart {rs : List Record} {a n : ℕ} :
    ∀ out : ByteString, (∀ r ∈ rs, r.Fits) → (∀ r ∈ rs, r.offset + r.size ≤ out.length) →
      (∀ r ∈ rs, r.offset + r.size ≤ a ∨ a + n ≤ r.offset) →
      slice (putRecords rs out) a n = slice out a n := by
  induction rs with
  | nil => intro out _ _ _; rfl
  | cons r rs ih =>
    intro out hf hin ha
    have ht := hf r mem_cons_self
    have hi := hin r mem_cons_self
    have hl := length_put ht hi
    have hr := ih (r.put out) (fun s hs => hf s (mem_cons_of_mem _ hs)) (fun s hs => by
        rw [hl]
        exact hin s (mem_cons_of_mem _ hs))
      (fun s hs => ha s (mem_cons_of_mem _ hs))
    exact hr.trans (slice_put_of_apart ht hi (ha r mem_cons_self))

theorem written_put (hf : r.Fits) (hin : r.offset + r.size ≤ out.length)
    (hz : slice out r.offset r.size = List.replicate r.size 0) : Written (r.put out) r where
  inside := by rw [length_put hf hin]; exact hin
  fits := hf.inside
  field := slice_putFields_of_mem hf.inside hf.apart out hin
  gap := by
    intro k w hk hg
    have hb : slice (r.put out) (r.offset + k) w = slice out (r.offset + k) w :=
      slice_putFields_of_apart hf.inside out hin fun field hd => by
        have := hg field hd
        omega
    rw [hb, ← slice_slice out hk, hz]
    simp only [slice, drop_replicate, take_replicate]
    congr 1
    omega

theorem Written.congr {o' : ByteString} (h : Written out r) (hl : o'.length = out.length)
    (hs : slice o' r.offset r.size = slice out r.offset r.size) : Written o' r where
  inside := by rw [hl]; exact h.inside
  fits := h.fits
  field := by
    intro field hf
    rw [← slice_slice o' (h.fits field hf), hs, slice_slice out (h.fits field hf), h.field field hf]
  gap := by
    intro k w hk hg
    rw [← h.gap k w hk hg, ← slice_slice o' hk, hs, slice_slice out hk]

/-- **Disjoint records are all written.** -/
theorem written_putRecords {rs : List Record} (ha : rs.Pairwise Record.Apart) :
    ∀ out : ByteString, (∀ r ∈ rs, r.Fits) → (∀ r ∈ rs, r.offset + r.size ≤ out.length) →
      (∀ r ∈ rs, slice out r.offset r.size = List.replicate r.size 0) →
      ∀ r ∈ rs, Written (putRecords rs out) r := by
  induction rs with
  | nil => intro out _ _ _ r hr; cases hr
  | cons f rs ih =>
    intro out hf hin hz r hr
    rw [pairwise_cons] at ha
    obtain ⟨hh, ht⟩ := ha
    have hfi := hf f mem_cons_self
    have hi := hin f mem_cons_self
    have hl := length_put hfi hi
    have hf' := fun s hs => hf s (mem_cons_of_mem _ hs)
    have hi' : ∀ s ∈ rs, s.offset + s.size ≤ (f.put out).length := by
      intro s hs
      rw [hl]
      exact hin s (mem_cons_of_mem _ hs)
    rcases mem_cons.1 hr with rfl | hm
    · have hw := written_put hfi hi (hz _ mem_cons_self)
      refine hw.congr (length_putRecords _ hf' hi') ?_
      exact slice_putRecords_of_apart _ hf' hi' fun s hs => (hh s hs).symm
    · refine ih ht (f.put out) hf' hi' (fun s hs => ?_) r hm
      rw [slice_put_of_apart hfi hi (hh s hs)]
      exact hz s (mem_cons_of_mem _ hs)

/-! ### Shapes -/

/-- Where a field is, and how long. -/
def extent (field : ℕ × ByteString) : ℕ × ℕ := (field.1, field.2.length)

/-- The extents share no byte. -/
def ExtentsApart (e f : ℕ × ℕ) : Prop := e.1 + e.2 ≤ f.1 ∨ f.1 + f.2 ≤ e.1

instance (e f : ℕ × ℕ) : Decidable (ExtentsApart e f) :=
  inferInstanceAs (Decidable (_ ∨ _))

/-- The fields have extents of the shape, in its order; some may be left out. -/
def Shaped (fields : List (ℕ × ByteString)) (shape : List (ℕ × ℕ)) : Prop :=
  (fields.map extent).Sublist shape

theorem Shaped.append {fields fs' : List (ℕ × ByteString)} {s s' : List (ℕ × ℕ)}
    (h : Shaped fields s) (h' : Shaped fs' s') : Shaped (fields ++ fs') (s ++ s') := by
  unfold Shaped
  rw [map_append]
  exact List.Sublist.append h h'

theorem shaped_of_eq {shape : List (ℕ × ℕ)}
    (h : fields.map extent = shape) : Shaped fields shape := h ▸ List.Sublist.refl _

theorem Record.fits_of_shaped (s : List (ℕ × ℕ)) (h : Shaped r.fields s)
    (hin : ∀ e ∈ s, e.1 + e.2 ≤ r.size) (ha : s.Pairwise ExtentsApart) : r.Fits where
  inside := fun _ hf => hin _ (h.subset (mem_map_of_mem hf))
  apart := pairwise_map.1 (ha.sublist h)

/-! ### Readers -/

namespace Written

theorem readLE_field (h : Written out r) {k w v : ℕ} (hf : (k, toLE w v) ∈ r.fields)
    (hv : v < 256 ^ w) : readLE out (r.offset + k) w = some v := by
  have hin := h.inside
  have hi := h.fits _ hf
  have hs := h.field _ hf
  rw [length_toLE] at hi hs
  rw [readLE_of_le (by omega), hs, ofLE_toLE_of_lt hv]

theorem readLE_gap (h : Written out r) {k w : ℕ} (hk : k + w ≤ r.size)
    (hg : ∀ field ∈ r.fields, field.1 + field.2.length ≤ k ∨ k + w ≤ field.1) :
    readLE out (r.offset + k) w = some 0 := by
  have hin := h.inside
  rw [readLE_of_le (by omega), h.gap k w hk hg, ofLE_replicate_zero]

theorem gap_of_shaped {s : List (ℕ × ℕ)} (hs : Shaped r.fields s) {k w : ℕ}
    (hg : ∀ e ∈ s, e.1 + e.2 ≤ k ∨ k + w ≤ e.1) :
    ∀ field ∈ r.fields, field.1 + field.2.length ≤ k ∨ k + w ≤ field.1 :=
  fun _ hf => hg _ (hs.subset (mem_map_of_mem hf))

end Written
end TradutorLinux
