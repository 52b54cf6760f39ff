import Mathlib.Algebra.Group.Int.Defs
import Mathlib.Algebra.Group.Nat.Defs
import TradutorLinux.Util.CursorFiles
import TradutorLinux.Util.Runs

/-!
# `IStream` on memory

A stream keeps its bytes in a block of the heap, or in a global block that it
cannot grow.  `resize_stream` sets the size, both for `SetSize` and for a write;
`stream_read` subtracts the position from the size.

## Main definitions

* `StreamState` — the block, the sizes and the cursor.
* `resizeStream`, `StreamState.call` — the helper and the five functions.
* `StreamState.file` — the bytes of a stream and its position.
* `ByteFile.call` — what the functions have to do to a file.

## Main results

* `call_agrees_iff`
* `stream_refines_iff` — **the calls of a run all do so exactly if they are all
  orderly.**
-/

namespace TradutorLinux

open List

def kSizeMax : ℕ := 2 ^ 64 - 1

/-- `PTRDIFF_MAX`: the heap gives no larger block. -/
def kPtrdiffMax : ℕ := 2 ^ 63 - 1

/-! ### States and calls -/

/-- A stream; `memory i` is the byte at `data + i`, whether the block has it or not. -/
structure StreamState where
  memory : ℕ → UInt8
  size : ℕ := 0
  capacity : ℕ := 0
  position : ℕ := 0
  globalBacking : Bool := false

/-- How `CreateStreamOnHGlobal` and the streams on files begin: with nothing, with the block of
a global handle, or with what was read of a file of some length. -/
inductive StreamSource
  | memory (bytes : ℕ → UInt8)
  | global (bytes : ℕ → UInt8) (size : Fin (2 ^ 63))
  | file (bytes : ℕ → UInt8) (length : Fin (2 ^ 63)) (bytesRead : Fin (length.1 + 1))

def StreamSource.opened : StreamSource → StreamState
  | memory bytes => { memory := bytes }
  | global bytes size =>
    { memory := bytes, size := size, capacity := size, globalBacking := true }
  | file bytes length bytesRead => { memory := bytes, size := bytesRead, capacity := length }

/-- A pointer that a call writes through. -/
inductive OutPointer
  | null
  | faulty
  | writable
deriving DecidableEq

/-- The buffer of a write. -/
inductive InBuffer
  | null
  | faulty
  | readable (bytes : ℕ → UInt8)

/-- The calls.  `vector` says whether the copy of the input could be made, `heap` what
`realloc` answers: nothing, or a block with these bytes behind the old ones. -/
inductive StreamCall
  | read (buffer : OutPointer) (bytes : UInt32) (read : OutPointer)
  | write (buffer : InBuffer) (bytes : UInt32) (written : OutPointer) (vector : Bool)
      (heap : Option (ℕ → UInt8))
  | seek (move : Int64) (origin : UInt32) (position : OutPointer)
  | setSize (size : UInt64) (heap : Option (ℕ → UInt8))
  | stat (stat : OutPointer) (flags : UInt32)

inductive StreamResult
  /-- `kSOk` -/
  | ok
  /-- `kSFalse` -/
  | sFalse
  /-- `kEInvalidArg` -/
  | invalidArg
  /-- 0x8007000E -/
  | outOfMemory
  /-- `kStgESeekError` -/
  | seekError
deriving DecidableEq

/-- What a call answers: the range of the block it copies from, the bytes it stores in the
buffer, and the number it stores through a pointer. -/
structure StreamAnswer where
  result : StreamResult
  copied : Option (ℕ × ℕ) := none
  buffer : List UInt8 := []
  value : Option ℕ := none
deriving DecidableEq

def InBuffer.isNull : InBuffer → Bool
  | null => true
  | _ => false

/-- The input of a write; nothing is read of a buffer for no bytes. -/
def InBuffer.fetch (buffer : InBuffer) (bytes : UInt32) : Option (ℕ → UInt8) :=
  match buffer with
  | readable content => some content
  | _ => if bytes = 0 then some fun _ => 0 else none

def OutPointer.stores (p : OutPointer) (n : ℕ) : Option ℕ :=
  if p = .writable then some n else none

/-! ### The functions -/

/-- `memset` and `memcpy`: `n` bytes from `offset` on are replaced. -/
def overwrite (memory : ℕ → UInt8) (offset n : ℕ) (bytes : ℕ → UInt8) : ℕ → UInt8 :=
  fun i => if offset ≤ i ∧ i < offset + n then bytes (i - offset) else memory i

/-- The block is made large enough. -/
def StreamState.reserve (s : StreamState) (size : ℕ) (heap : Option (ℕ → UInt8)) :
    Option StreamState :=
  if size ≤ s.capacity then some s
  else if s.globalBacking then none
  else
    let capacity := (size + 4095) / 4096 * 4096
    match heap with
    | none => none
    | some bytes =>
      if kPtrdiffMax < capacity then none
      else some { s with
        memory := fun i => if i < s.capacity then s.memory i else bytes i
        capacity := capacity }

/-- `resize_stream`. -/
def resizeStream (s : StreamState) (size : ℕ) (heap : Option (ℕ → UInt8)) : Option StreamState :=
  if kSizeMax - 4095 < size then none
  else match s.reserve size heap with
    | none => none
    | some s => some { s with
        memory := overwrite s.memory s.size (size - s.size) fun _ => 0
        size := size
        position := min s.position size }

namespace StreamState

variable (s : StreamState)

/-- `stream_read`; the subtraction of `size_t` wraps. -/
def read (buffer : OutPointer) (bytes : UInt32) (read : OutPointer) : StreamState × StreamAnswer :=
  if bytes ≠ 0 ∧ buffer = .null then (s, { result := .invalidArg })
  else
    let available := (2 ^ 64 + s.size - s.position) % 2 ^ 64
    let count := min available bytes.toNat
    let copied := if count = 0 then none else some (s.position, count)
    let taken := (List.range count).map fun i => s.memory (s.position + i)
    if count ≠ 0 ∧ buffer ≠ .writable then (s, { result := .invalidArg, copied := copied })
    else if read = .faulty then
      (s, { result := .invalidArg, copied := copied, buffer := taken })
    else
      ({ s with position := s.position + count },
        { result := if count = bytes.toNat then .ok else .sFalse
          copied := copied
          buffer := taken
          value := read.stores count })

/-- `stream_write`. -/
def write (buffer : InBuffer) (bytes : UInt32) (written : OutPointer) (vector : Bool)
    (heap : Option (ℕ → UInt8)) : StreamState × StreamAnswer :=
  if bytes ≠ 0 ∧ buffer.isNull = true then (s, { result := .invalidArg })
  else if kSizeMax - s.position < bytes.toNat ∨ vector = false then
    (s, { result := .outOfMemory })
  else match buffer.fetch bytes with
    | none => (s, { result := .invalidArg })
    | some input =>
      let finish := s.position + bytes.toNat
      match resizeStream s finish heap with
      | none => (s, { result := .outOfMemory })
      | some resized =>
        let stored := { resized with
          memory := overwrite resized.memory resized.position bytes.toNat input }
        if written = .faulty then (stored, { result := .invalidArg })
        else ({ stored with position := finish },
          { result := .ok, value := written.stores bytes.toNat })

/-- `stream_seek`; the casts to `int64_t` wrap. -/
def seek (move : Int64) (origin : UInt32) (position : OutPointer) : StreamState × StreamAnswer :=
  if 2 < origin then (s, { result := .invalidArg })
  else
    let base : ℤ := if origin = 0 then 0 else
      Int.bmod (if origin = 1 then s.position else s.size) (2 ^ 64)
    if move.toInt < 0 ∧ (move = Int64.minValue ∨ base < -move.toInt) ∨
        0 < move.toInt ∧ 2 ^ 63 - 1 - move.toInt < base then
      (s, { result := .seekError })
    else if base + move.toInt < 0 then (s, { result := .seekError })
    else
      let newPosition := (base + move.toInt).toNat
      if position = .faulty then (s, { result := .invalidArg })
      else ({ s with position := newPosition },
        { result := .ok, value := position.stores newPosition })

/-- `stream_set_size`. -/
def setSize (size : UInt64) (heap : Option (ℕ → UInt8)) : StreamState × StreamAnswer :=
  match resizeStream s size.toNat heap with
  | none => (s, { result := .outOfMemory })
  | some resized => (resized, { result := .ok })

/-- `stream_stat`. -/
def stat (stat : OutPointer) (flags : UInt32) : StreamState × StreamAnswer :=
  if stat = .null ∨ flags ≠ 0 then (s, { result := .invalidArg })
  else if stat = .faulty then (s, { result := .invalidArg })
  else (s, { result := .ok, value := some s.size })

def call : StreamCall → StreamState × StreamAnswer
  | .read buffer bytes read => s.read buffer bytes read
  | .write buffer bytes written vector heap => s.write buffer bytes written vector heap
  | .seek move origin position => s.seek move origin position
  | .setSize size heap => s.setSize size heap
  | .stat stat flags => s.stat stat flags

end StreamState

/-! ### What the calls have to do -/

abbrev ByteFile := CursorFile UInt8

namespace ByteFile

variable (f : ByteFile)

/-- A read gets the bytes that are there, and copies from no others. -/
def read (buffer : OutPointer) (bytes : UInt32) (read : OutPointer) : ByteFile × StreamAnswer :=
  if bytes ≠ 0 ∧ buffer = .null then (f, { result := .invalidArg })
  else
    let taken := CursorFile.read f bytes.toNat
    let copied := if taken = [] then none else some (f.position, taken.length)
    if taken ≠ [] ∧ buffer ≠ .writable then (f, { result := .invalidArg, copied := copied })
    else if read = .faulty then
      (f, { result := .invalidArg, copied := copied, buffer := taken })
    else
      ({ f with position := f.position + taken.length },
        { result := if taken.length = bytes.toNat then .ok else .sFalse
          copied := copied
          buffer := taken
          value := read.stores taken.length })

/-- A write; `room` says for what sizes there is memory. -/
def write (room : ℕ → Bool) (buffer : InBuffer) (bytes : UInt32) (written : OutPointer)
    (vector : Bool) : ByteFile × StreamAnswer :=
  if bytes ≠ 0 ∧ buffer.isNull = true then (f, { result := .invalidArg })
  else if vector = false then (f, { result := .outOfMemory })
  else match buffer.fetch bytes with
    | none => (f, { result := .invalidArg })
    | some input =>
      if room (max f.contents.length (f.position + bytes.toNat)) = false then
        (f, { result := .outOfMemory })
      else if written = .faulty then (f, { result := .invalidArg })
      else (CursorFile.write 0 f ((List.range bytes.toNat).map input),
        { result := .ok, value := written.stores bytes.toNat })

/-- A seek ends between 0 and the largest number of 64 bits with a sign. -/
def seek (move : Int64) (origin : UInt32) (position : OutPointer) : ByteFile × StreamAnswer :=
  if 2 < origin then (f, { result := .invalidArg })
  else
    let base : ℕ := if origin = 0 then 0 else if origin = 1 then f.position else f.contents.length
    let target : ℤ := base + move.toInt
    if target < 0 ∨ 2 ^ 63 ≤ target then (f, { result := .seekError })
    else if position = .faulty then (f, { result := .invalidArg })
    else ({ f with position := target.toNat },
      { result := .ok, value := position.stores target.toNat })

def setSize (room : ℕ → Bool) (size : UInt64) : ByteFile × StreamAnswer :=
  if room size.toNat = false then (f, { result := .outOfMemory })
  else (CursorFile.setSize 0 f size.toNat, { result := .ok })

def stat (stat : OutPointer) (flags : UInt32) : ByteFile × StreamAnswer :=
  if stat ≠ .writable ∨ flags ≠ 0 then (f, { result := .invalidArg })
  else (f, { result := .ok, value := some f.contents.length })

def call (room : ℕ → Bool) : StreamCall → ByteFile × StreamAnswer
  | .read buffer bytes read => f.read buffer bytes read
  | .write buffer bytes written vector _ => f.write room buffer bytes written vector
  | .seek move origin position => f.seek move origin position
  | .setSize size _ => f.setSize room size
  | .stat stat flags => f.stat stat flags

end ByteFile

/-! ### Streams as files -/

def StreamCall.heap : StreamCall → Option (ℕ → UInt8)
  | write _ _ _ _ heap => heap
  | setSize _ heap => heap
  | _ => none

namespace StreamState

/-- The bytes fit the block, and the numbers fit 64 bits with a sign. -/
structure Valid (s : StreamState) : Prop where
  size_le : s.size ≤ s.capacity
  capacity_le : s.capacity ≤ kPtrdiffMax
  position_le : s.position ≤ kPtrdiffMax

theorem valid_opened (sr : StreamSource) : sr.opened.Valid := by
  cases sr with
  | memory bs => exact ⟨Nat.le_refl _, Nat.zero_le _, Nat.zero_le _⟩
  | global bs si => exact ⟨Nat.le_refl _, Nat.le_of_lt_succ si.2, Nat.zero_le _⟩
  | file bs l br => exact ⟨Nat.le_of_lt_succ br.2, Nat.le_of_lt_succ l.2, Nat.zero_le _⟩

def file (s : StreamState) : ByteFile where
  contents := (List.range s.size).map s.memory
  position := s.position

/-- There is memory for a size: the block has it, or can be had larger. -/
def hasRoom (s : StreamState) (heap : Option (ℕ → UInt8)) (n : ℕ) : Bool :=
  n ≤ s.capacity || !s.globalBacking && heap.isSome && (n + 4095) / 4096 * 4096 ≤ kPtrdiffMax

variable {s r : StreamState} {heap hp : Option (ℕ → UInt8)} {n : ℕ}

@[simp] theorem length_file : s.file.contents.length = s.size := by simp [file]

@[simp] theorem position_file : s.file.position = s.position := rfl

theorem getElem?_file (i : ℕ) :
    s.file.contents[i]? = if i < s.size then some (s.memory i) else none := by
  simp only [file, getElem?_map]
  split
  · next hi => rw [getElem?_range hi, Option.map_some]
  next hi =>
  have hl : (List.range s.size).length ≤ i := by
    rw [length_range]
    exact Nat.le_of_not_lt hi
  rw [getElem?_eq_none hl, Option.map_none]

theorem file_read (bs : ℕ) : CursorFile.read s.file bs =
    (List.range (min (s.size - s.position) bs)).map fun i => s.memory (s.position + i) := by
  apply ext_getElem?
  intro i
  simp only [CursorFile.read, position_file, getElem?_take, getElem?_drop,
    getElem?_file, getElem?_map]
  by_cases hi : i < min (s.size - s.position) bs
  · rw [getElem?_range hi, if_pos (by omega), if_pos (by omega)]
    rfl
  have hl : (List.range (min (s.size - s.position) bs)).length ≤ i := by
    rw [length_range]
    exact Nat.le_of_not_lt hi
  rw [getElem?_eq_none hl]
  split
  · rw [if_neg (by omega)]
    rfl
  · rfl

/-! ### Resizing -/

/-- What `resize_stream` leaves. -/
structure Resized (s : StreamState) (n : ℕ) (r : StreamState) : Prop where
  valid : r.Valid
  size : r.size = n
  position : r.position = min s.position n
  memory : ∀ i < n, r.memory i = if i < s.size then s.memory i else 0

theorem reserve_spec (hs : s.Valid) (n : ℕ) : (s.hasRoom hp n = false ∧ s.reserve n hp = none) ∨
      s.hasRoom hp n ∧ ∃ r, s.reserve n hp = some r ∧ n ≤ r.capacity ∧
        s.capacity ≤ r.capacity ∧ r.capacity ≤ kPtrdiffMax ∧ r.size = s.size ∧
        r.position = s.position ∧ ∀ i < s.capacity, r.memory i = s.memory i := by
  unfold reserve hasRoom
  by_cases hf : n ≤ s.capacity
  · rw [if_pos hf]
    exact .inr ⟨by simp [hf], s, rfl, hf, Nat.le_refl _, hs.capacity_le, rfl, rfl, fun _ _ => rfl⟩
  · rw [if_neg hf]
    cases hg : s.globalBacking with
    | true => exact .inl ⟨by simp [hf], rfl⟩
    | false =>
      cases hp with
      | none => exact .inl ⟨by simp [hf], rfl⟩
      | some bs =>
        by_cases hl : kPtrdiffMax < (n + 4095) / 4096 * 4096
        · exact .inl ⟨by simp [hf]; omega, by simp [hl]⟩
        refine .inr ⟨by simp; omega, { s with
          memory := fun i => if i < s.capacity then s.memory i else bs i
          capacity := (n + 4095) / 4096 * 4096 }, by simp [hl, hg], ?_, ?_, ?_, rfl,
          rfl, ?_⟩
        · show n ≤ (n + 4095) / 4096 * 4096
          omega
        · show s.capacity ≤ (n + 4095) / 4096 * 4096
          omega
        · exact Nat.not_lt.1 hl
        · intro i hi
          exact if_pos hi

/-- **`resize_stream` fails exactly if there is no memory; otherwise it cuts or fills up.** -/
theorem resizeStream_spec (hs : s.Valid) (n : ℕ) :
    (s.hasRoom hp n = false ∧ resizeStream s n hp = none) ∨
      s.hasRoom hp n ∧ ∃ r, resizeStream s n hp = some r ∧ Resized s n r := by
  unfold resizeStream
  rcases @reserve_spec s hp hs n with ⟨hr, hno⟩ | ⟨hr, r, hso, hn, hc, hm, hz, ho, he⟩
  · rw [hno]
    exact .inl ⟨hr, by split <;> rfl⟩
  · have hsi := hs.size_le
    rw [hso, if_neg (by unfold kSizeMax; unfold kPtrdiffMax at hm; omega)]
    refine .inr ⟨hr, _, rfl, ⟨hn, hm, ?_⟩, rfl, ?_, ?_⟩
    · show min r.position n ≤ kPtrdiffMax
      omega
    · show min r.position n = _
      rw [ho]
    · intro i hi
      show overwrite r.memory r.size (n - r.size) (fun _ => 0) i = _
      unfold overwrite
      by_cases hin : i < s.size
      · rw [if_neg (by omega), if_pos hin]
        exact he i (by omega)
      · rw [if_pos (by omega), if_neg hin]

theorem Resized.file (h : Resized s n r) : r.file = CursorFile.setSize 0 s.file n := by
  have hc : r.file.contents = (CursorFile.setSize 0 s.file n).contents := by
    apply ext_getElem?
    intro i
    show _ = (s.file.contents.takeD n 0)[i]?
    rw [getElem?_takeD, getElem?_file, getElem?_file, h.size]
    by_cases hi : i < n
    · rw [if_pos hi, if_pos hi, h.memory i hi]
      split <;> rfl
    · rw [if_neg hi, if_neg hi]
  have ho : r.file.position = (CursorFile.setSize 0 s.file n).position := h.position
  exact CursorFile.ext hc ho

theorem hasRoom_max (hs : s.Valid) (n : ℕ) : s.hasRoom hp (max s.size n) = s.hasRoom hp n := by
  rcases Nat.le_total s.size n with hl | hl
  · rw [Nat.max_eq_right hl]
  · rw [Nat.max_eq_left hl]
    have hi := hs.size_le
    have hn : n ≤ s.capacity := Nat.le_trans hl hi
    simp [hasRoom, hi, hn]

/-- Bytes stored over a block that has been resized for them are a write, if the size has not
become smaller. -/
theorem Resized.contents_overwrite {ip : ℕ → UInt8} {bs : ℕ}
    (h : Resized s (s.position + bs) r) (hl : s.size ≤ s.position + bs) :
    (StreamState.file { r with
      memory := overwrite r.memory r.position bs ip }).contents =
      (CursorFile.write 0 s.file ((List.range bs).map ip)).contents := by
  have ho : r.position = s.position := by
    rw [h.position]
    omega
  apply ext_getElem?
  intro i
  rw [getElem?_file, CursorFile.getElem?_write, length_map, length_range, position_file]
  show (if i < r.size then some (overwrite r.memory r.position bs ip i) else none) = _
  unfold overwrite
  rw [h.size, ho]
  by_cases hg : i < s.position
  · rw [if_pos (by omega), if_neg (by omega), if_pos hg, h.memory i (by omega), getElem?_file]
    split <;> rfl
  rw [if_neg hg]
  by_cases hi : i < s.position + bs
  · rw [if_pos hi, if_pos ⟨by omega, hi⟩, if_pos hi, getElem?_map,
      getElem?_range (by omega), Option.map_some]
  · rw [if_neg hi, if_neg hi, getElem?_file, if_neg (by omega)]

/-! ### Orderly calls -/

/-- A read of some bytes does not begin behind the end; a write that stores its bytes goes to
the end at least, and if it cannot tell so, they were there before. -/
def Orderly (s : StreamState) : StreamCall → Prop
  | .read buffer bytes _ => bytes ≠ 0 → buffer ≠ .null → s.position ≤ s.size
  | .write buffer bytes written vector heap =>
    ∀ input, vector = true → buffer.fetch bytes = some input →
      s.hasRoom heap (s.position + bytes.toNat) = true →
      s.size ≤ s.position + bytes.toNat ∧ (written = .faulty →
        (CursorFile.write 0 s.file ((List.range bytes.toNat).map input)).contents =
          s.file.contents)
  | _ => True

/-- A call does to the stream what it has to do to the file, and answers the same. -/
def AgreesOn (s : StreamState) (c : StreamCall) : Prop :=
  s.file.call (s.hasRoom c.heap) c = ((s.call c).1.file, (s.call c).2)

variable {bytes bs : UInt32}

theorem toNat_eq_zero_iff : bs.toNat = 0 ↔ bs = 0 := by
  rw [← UInt32.toNat_inj]
  rfl

theorem read_agrees_iff (hs : s.Valid) {b re : OutPointer} :
    s.AgreesOn (.read b bs re) ↔ s.Orderly (.read b bs re) := by
  have hi := hs.size_le
  have hca := hs.capacity_le
  have hpo := hs.position_le
  have hl := bs.toNat_lt
  unfold kPtrdiffMax at hca hpo
  dsimp only [AgreesOn, ByteFile.call, call, ByteFile.read, StreamState.read]
  by_cases hn : bs ≠ 0 ∧ b = .null
  · rw [if_pos hn, if_pos hn]
    exact ⟨fun _ _ hu => absurd hn.2 hu, fun _ => rfl⟩
  rw [if_neg hn, if_neg hn, file_read]
  have ht : ∀ {n}, (List.range n).map (fun i => s.memory (s.position + i)) = [] ↔ n = 0 := by
    simp
  simp only [length_map, length_range, position_file, ne_eq, ht]
  by_cases he : bs ≠ 0 ∧ s.size < s.position
  · -- the subtraction wraps, and the read takes all it was asked for
    have hb : bs.toNat ≠ 0 := mt toNat_eq_zero_iff.1 he.1
    have hno : min (s.size - s.position) bs.toNat = 0 := by omega
    have ha : min ((2 ^ 64 + s.size - s.position) % 2 ^ 64) bs.toNat = bs.toNat := by
      omega
    rw [hno, ha]
    constructor
    · intro heq
      have ho := congrArg (fun a => a.2.copied) heq
      simp only [not_true_eq_false, false_and, if_false, if_true, hb, not_false_eq_true,
        true_and] at ho
      split_ifs at ho
    · intro hr
      have hu : b ≠ .null := fun heq => hn ⟨he.1, heq⟩
      exact absurd (hr he.1 hu) (Nat.not_le.2 he.2)
  · have hc : min ((2 ^ 64 + s.size - s.position) % 2 ^ 64) bs.toNat =
        min (s.size - s.position) bs.toNat := by
      by_cases hz : bs = 0
      · rw [toNat_eq_zero_iff.2 hz, Nat.min_zero, Nat.min_zero]
      have hle : s.position ≤ s.size := by
        by_contra hl
        exact he ⟨hz, Nat.not_le.1 hl⟩
      have hsu : (2 ^ 64 + s.size - s.position) % 2 ^ 64 = s.size - s.position := by omega
      rw [hsu]
    rw [hc]
    constructor
    · intro _ hb _
      by_contra hl
      exact he ⟨hb, Nat.not_le.1 hl⟩
    · intro _
      split_ifs <;> rfl

theorem write_agrees_iff (hs : s.Valid) {b : InBuffer} {w : OutPointer} {v : Bool} :
    s.AgreesOn (.write b bs w v hp) ↔ s.Orderly (.write b bs w v hp) := by
  have hpo := hs.position_le
  have hlt := bs.toNat_lt
  dsimp only [AgreesOn, ByteFile.call, call, ByteFile.write, StreamState.write, StreamCall.heap]
  have hft : ¬kSizeMax - s.position < bs.toNat := by
    unfold kPtrdiffMax at hpo
    unfold kSizeMax
    omega
  by_cases hn : bs ≠ 0 ∧ b.isNull
  · rw [if_pos hn, if_pos hn]
    refine ⟨fun _ i _ hf => ?_, fun _ => rfl⟩
    cases b with
    | null => simp [InBuffer.fetch, hn.1] at hf
    | faulty => simp [InBuffer.isNull] at hn
    | readable c => simp [InBuffer.isNull] at hn
  rw [if_neg hn, if_neg hn]
  cases hv : v with
  | false => simp [Orderly]
  | true =>
    rw [if_neg (by simp), if_neg (by simp [hft])]
    cases hf : b.fetch bs with
    | none => simp [Orderly, hf]
    | some i =>
      dsimp only
      rw [length_file, position_file, hasRoom_max hs]
      rcases @resizeStream_spec s hp hs (s.position + bs.toNat) with ⟨ho, hno⟩ | ⟨ho, r, hso, hr⟩
      · rw [hno, if_pos ho]
        refine ⟨fun _ i' _ _ hr' => ?_, fun _ => rfl⟩
        rw [ho] at hr'
        cases hr'
      · rw [hso, if_neg (by simp [ho])]
        dsimp only
        have hd : s.Orderly (.write b bs w true hp) ↔
            s.size ≤ s.position + bs.toNat ∧ (w = .faulty →
              (CursorFile.write 0 s.file ((List.range bs.toNat).map i)).contents =
                s.file.contents) := by
          simp [Orderly, hf, ho]
        have ht := @Resized.contents_overwrite s r i bs.toNat hr
        have hrp : r.position = s.position := by
          rw [hr.position]
          omega
        have hrs := hr.size
        rw [hd]
        by_cases ha : w = .faulty
        · -- the failure is found after the bytes have been stored
          rw [if_pos ha, if_pos ha]
          constructor
          · intro heq
            have hi := congrArg (fun a => a.1.contents) heq
            have he := congrArg List.length hi
            simp only [length_file] at he
            have hl : s.size ≤ s.position + bs.toNat := by omega
            exact ⟨hl, fun _ => (ht hl).symm.trans hi.symm⟩
          · rintro ⟨hl, hsa⟩
            have hc := (ht hl).trans (hsa ha)
            exact congrArg (·, _) (CursorFile.ext hc.symm hrp.symm)
        · rw [if_neg ha, if_neg ha]
          constructor
          · intro heq
            have he := congrArg (fun a => a.1.contents.length) heq
            simp only [CursorFile.length_write, length_file, length_map, length_range,
              position_file] at he
            exact ⟨by omega, fun h => absurd h ha⟩
          · rintro ⟨hl, -⟩
            refine congrArg (·, _) (CursorFile.ext (ht hl).symm ?_)
            simp [CursorFile.write, file]

theorem seek_agrees (hs : s.Valid) {m : Int64} {o : UInt32} {p : OutPointer} :
    s.AgreesOn (.seek m o p) := by
  have hsi := hs.size_le
  have hca := hs.capacity_le
  have hpo := hs.position_le
  unfold kPtrdiffMax at hca hpo
  dsimp only [AgreesOn, ByteFile.call, call, ByteFile.seek, StreamState.seek]
  rw [length_file, position_file]
  by_cases ho : 2 < o
  · rw [if_pos ho, if_pos ho]
  rw [if_neg ho, if_neg ho]
  generalize ha : (if o = 0 then 0 else if o = 1 then s.position else s.size) = base
  have hl : base < 2 ^ 63 := by
    rw [← ha]
    split_ifs <;> omega
  have hc : (if o = 0 then (0 : ℤ) else
      Int.bmod (if o = 1 then s.position else s.size) (2 ^ 64)) = base := by
    rw [← ha]
    split_ifs
    · rfl
    all_goals exact Int.bmod_eq_of_le (by omega) (by omega)
  have hi : m = Int64.minValue → m.toInt = -2 ^ 63 := by
    rintro rfl
    rfl
  have hr : (m.toInt < 0 ∧ (m = Int64.minValue ∨ (base : ℤ) < -m.toInt) ∨
      0 < m.toInt ∧ 2 ^ 63 - 1 - m.toInt < base) ↔
      (base : ℤ) + m.toInt < 0 ∨ 2 ^ 63 ≤ (base : ℤ) + m.toInt := by
    by_cases hm : m = Int64.minValue
    · have hv := hi hm
      simp only [hm, true_or, and_true]
      rw [hm] at hv
      omega
    · simp only [hm, false_or]
      omega
  rw [hc]
  by_cases hb : (base : ℤ) + m.toInt < 0 ∨ 2 ^ 63 ≤ (base : ℤ) + m.toInt
  · rw [if_pos hb, if_pos (hr.2 hb)]
  · rw [if_neg hb, if_neg (mt hr.1 hb), if_neg fun h => hb (.inl h)]
    split_ifs <;> rfl

theorem setSize_agrees (hs : s.Valid) {si : UInt64} : s.AgreesOn (.setSize si hp) := by
  dsimp only [AgreesOn, ByteFile.call, call, ByteFile.setSize, StreamState.setSize, StreamCall.heap]
  rcases @resizeStream_spec s hp hs si.toNat with ⟨ho, hn⟩ | ⟨ho, r, hso, hr⟩
  · rw [hn, if_pos ho]
  · rw [hso, if_neg (by simp [ho]), hr.file]

theorem stat_agrees {st : OutPointer} {fl : UInt32} : s.AgreesOn (.stat st fl) := by
  dsimp only [AgreesOn, ByteFile.call, call, ByteFile.stat, StreamState.stat]
  cases st <;> by_cases hf : fl = 0 <;> simp [hf]

/-- **A call agrees with the file exactly if it is orderly.** -/
theorem call_agrees_iff (hs : s.Valid) (c : StreamCall) : s.AgreesOn c ↔ s.Orderly c := by
  cases c with
  | read b bs read => exact read_agrees_iff hs
  | write b bs w v hp => exact write_agrees_iff hs
  | seek m o p => exact ⟨fun _ => trivial, fun _ => seek_agrees hs⟩
  | setSize si hp => exact ⟨fun _ => trivial, fun _ => setSize_agrees hs⟩
  | stat stat fl => exact ⟨fun _ => trivial, fun _ => stat_agrees⟩

/-! ### The bounds -/

theorem valid_read (hs : s.Valid) {b re : OutPointer}
    (ho : s.Orderly (.read b bs re)) : (s.read b bs re).1.Valid := by
  have hi := hs.size_le
  have hc := hs.capacity_le
  unfold StreamState.read
  split
  · exact hs
  next hn =>
  dsimp only
  split
  · exact hs
  split
  · exact hs
  refine ⟨hi, hc, ?_⟩
  show s.position + min _ bs.toNat ≤ kPtrdiffMax
  by_cases hz : bs = 0
  · rw [toNat_eq_zero_iff.2 hz, Nat.min_zero]
    exact hs.position_le
  · have hl := ho hz fun heq => hn ⟨hz, heq⟩
    refine Nat.le_trans ?_ (Nat.le_trans hi hc)
    omega

theorem valid_write (hs : s.Valid) {b : InBuffer} {w : OutPointer}
    {v : Bool} : (s.write b bs w v hp).1.Valid := by
  unfold StreamState.write
  split
  · exact hs
  split
  · exact hs
  split
  · exact hs
  dsimp only
  rcases @resizeStream_spec s hp hs (s.position + bs.toNat) with ⟨-, hn⟩ | ⟨-, r, hr, he⟩
  · rw [hn]
    exact hs
  · rw [hr]
    obtain ⟨hi, hc, ho⟩ := he.valid
    dsimp only
    split
    · exact ⟨hi, hc, ho⟩
    · refine ⟨hi, hc, ?_⟩
      rw [← he.size]
      exact Nat.le_trans hi hc

theorem valid_seek (hs : s.Valid) {m : Int64} {o : UInt32} {p : OutPointer} :
    (s.seek m o p).1.Valid := by
  have ha := @seek_agrees s hs m o p
  simp only [AgreesOn, ByteFile.call, call] at ha
  have hb : (s.file.seek m o p).1.position ≤ kPtrdiffMax := by
    unfold ByteFile.seek
    split
    · exact hs.position_le
    generalize (if o = 0 then 0 else
      if o = 1 then s.file.position else s.file.contents.length) = base
    dsimp only
    split
    · exact hs.position_le
    next ht =>
    split
    · exact hs.position_le
    · dsimp only
      unfold kPtrdiffMax
      omega
  have hk : (s.seek m o p).1.size = s.size ∧ (s.seek m o p).1.capacity = s.capacity := by
    unfold StreamState.seek
    split
    · exact ⟨rfl, rfl⟩
    generalize (if o = 0 then (0 : ℤ) else
      Int.bmod (if o = 1 then s.position else s.size) (2 ^ 64)) = base
    dsimp only
    split
    · exact ⟨rfl, rfl⟩
    · split
      · exact ⟨rfl, rfl⟩
      · split <;> exact ⟨rfl, rfl⟩
  refine ⟨?_, ?_, ?_⟩
  · rw [hk.1, hk.2]
    exact hs.size_le
  · rw [hk.2]
    exact hs.capacity_le
  · rwa [ha] at hb

theorem valid_call (hs : s.Valid) {c : StreamCall} (ho : s.Orderly c) : (s.call c).1.Valid := by
  cases c with
  | read b bs read => exact valid_read hs ho
  | write b bs w v hp => exact valid_write hs
  | seek m o p => exact valid_seek hs
  | setSize si hp =>
    dsimp only [call, StreamState.setSize]
    rcases @resizeStream_spec s hp hs si.toNat with ⟨-, hn⟩ | ⟨-, r, hr, he⟩
    · rw [hn]
      exact hs
    · rw [hr]
      exact he.valid
  | stat stat fl =>
    dsimp only [call, StreamState.stat]
    split_ifs <;> exact hs

end StreamState

/-! ### Runs -/

open StreamState

def streamStep (t : StreamState × ByteFile) (c : StreamCall) : Option (StreamState × ByteFile) :=
  some ((t.1.call c).1, (t.2.call (t.1.hasRoom c.heap) c).1)

def SameAnswers (t : StreamState × ByteFile) (c : StreamCall) (t' : StreamState × ByteFile) :
    Prop :=
  t'.1.file = t'.2 ∧ (t.1.call c).2 = (t.2.call (t.1.hasRoom c.heap) c).2

/-- **A stream is a file in the runs whose calls are orderly, and in no others.** -/
theorem stream_refines_iff (source : StreamSource) (calls : List StreamCall) :
    EachStep streamStep SameAnswers (source.opened, source.opened.file) calls ↔
      EachStep streamStep (fun t c _ => t.1.Orderly c) (source.opened, source.opened.file)
        calls := by
  refine eachStep_iff (I := fun t => t.1.Valid ∧ t.2 = t.1.file) ?_ ?_ ⟨valid_opened source, rfl⟩ _
  · rintro ⟨s, f⟩ c t' ⟨hs, hf⟩ ht
    obtain rfl : f = s.file := hf
    cases ht
    rw [← call_agrees_iff hs]
    constructor
    · rintro ⟨hi, hn⟩
      exact Prod.ext hi.symm hn.symm
    · intro ha
      exact ⟨(congrArg Prod.fst ha).symm, (congrArg Prod.snd ha).symm⟩
  · rintro ⟨s, f⟩ c t' ⟨hs, hf⟩ ho ht
    obtain rfl : f = s.file := hf
    cases ht
    exact ⟨valid_call hs ho, congrArg Prod.fst ((call_agrees_iff hs c).mpr ho)⟩

/-- Four bytes, the cursor back at the start, and one byte: three are lost.  A read behind the
end of 24 bytes copies what is there. -/
theorem not_stream_refines : ¬EachStep streamStep SameAnswers
        ((StreamSource.memory fun _ => 0).opened, (StreamSource.memory fun _ => 0).opened.file)
        [.write (.readable fun _ => 65) 4 .null true (some fun _ => 0), .seek 0 0 .null,
          .write (.readable fun _ => 66) 1 .null true none] ∧
      ¬EachStep streamStep SameAnswers
        ((StreamSource.memory fun _ => 0).opened, (StreamSource.memory fun _ => 0).opened.file)
        [.write (.readable fun _ => 65) 24 .null true (some fun _ => 0), .seek 30 0 .null,
          .read .writable 4 .null] := by
  constructor
  · intro h
    obtain ⟨-, h⟩ := h _ rfl
    obtain ⟨-, h⟩ := h _ rfl
    obtain ⟨⟨hf, -⟩, -⟩ := h _ rfl
    have hl := congrArg (fun f => f.contents.length) hf
    revert hl
    decide +kernel
  · intro h
    obtain ⟨-, h⟩ := h _ rfl
    obtain ⟨-, h⟩ := h _ rfl
    obtain ⟨⟨-, ha⟩, -⟩ := h _ rfl
    have hc := congrArg StreamAnswer.copied ha
    revert hc
    decide +kernel

end TradutorLinux
