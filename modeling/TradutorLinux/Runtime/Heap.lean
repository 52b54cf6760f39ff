import TradutorLinux.Runtime.ErrorMap
import TradutorLinux.Util.Align
import TradutorLinux.Util.Memory
import TradutorLinux.Util.Span
import Mathlib.Data.List.Nodup

/-!
# The process heap

`HeapAlloc` asks `malloc` for a header, the payload and a trailer, and registers
the user pointer with the size that was requested.  The other functions trust
that size.  The payload is rounded up with a 32-bit mask, so a size of 4 GiB or
more loses its high bits.

## Main definitions

* `heapAlloc`, `heapFree`, `heapReAlloc`, `globalAlloc`, `localAlloc`,
  `globalFree`, `localFree` — on the state `Heap`.
* `Call`, `Call.run`, `Reachable` — any sequence of calls, with whatever the
  guest writes to memory between them.
* `BlockFits` — what a block of `HeapAlloc` has room for.
* `BlocksRegistered`, `Copies`

## Main results

* `le_payloadSize_iff` — the payload has room exactly when the size is at most
  `0xFFFFFFF0`.
* `heap_sound`
-/

namespace TradutorLinux.Runtime

open List Option Function

/-! ### Types -/

def kHeapMagic : UInt32 := 0x544C4850
def kHeapCanary : UInt64 := 0xDEADBEEFCAFEFACE
def kHeapHeaderSize : UInt64 := 48
def kHeapTrailerSize : UInt64 := 64
def kTrailerCanaryByte : UInt8 := 0xAA

def kGmemMoveable : UInt32 := 0x0002
def kGmemZeroinit : UInt32 := 0x0040
def kHeapZeroMemory : UInt32 := 0x0008

/-- `GlobalMemorySlot`. -/
structure GlobalMemorySlot where
  used : Bool := false
  address : ℕ := 0
  size : UInt64 := 0
  flags : UInt32 := 0
  lockCount : UInt32 := 0
  global : Bool := false
deriving DecidableEq

/-- The address space, what `malloc` has handed out, `g_heap_blocks`,
`g_global_memory`, `g_local_free_blocks`, and the last error. -/
structure Heap where
  memory : Memory
  chunks : List Span
  blocks : ℕ → Option UInt64
  globals : List GlobalMemorySlot
  localFree : List ℕ
  lastError : UInt32

/-- The heap before the guest runs. -/
def Heap.initial (byte : ℕ → UInt8) : Heap where
  memory := ⟨2 ^ 64, byte, fun _ => Prot.readWrite⟩
  chunks := []
  blocks := fun _ => none
  globals := List.replicate 4096 {}
  localFree := List.replicate 512 0
  lastError := 0

/-! ### `HeapAlloc` -/

/-- `~15U` is a 32-bit mask. -/
def payloadSize (requested : UInt64) : UInt64 :=
  if requested = 0 then 16 else (requested + 15) &&& (~~~(15 : UInt32)).toUInt64

def totalSize (requested : UInt64) : UInt64 :=
  kHeapHeaderSize + payloadSize requested + kHeapTrailerSize

/-- The fields of a `HeapHeader`. -/
def headerBytes (flags : UInt32) (requested payload : UInt64) : ByteString :=
  toLE 4 kHeapMagic.toNat ++ toLE 4 flags.toNat ++ toLE 8 requested.toNat ++
    toLE 8 payload.toNat ++ toLE 8 kHeapCanary.toNat ++ toLE 8 0

/-- What `HeapAlloc` writes to the block at `raw`. -/
def writeBlock (m : Memory) (raw : ℕ) (flags : UInt32) (requested : UInt64) : Memory :=
  let payload := payloadSize requested
  let user := raw + kHeapHeaderSize.toNat
  let m := m.copy raw (headerBytes flags requested payload)
  let m := if flags &&& kHeapZeroMemory ≠ 0 then m.fill user payload.toNat else m
  m.copy (user + payload.toNat) (List.replicate kHeapTrailerSize.toNat kTrailerCanaryByte)

/-- `tl_HeapAlloc`; `answer` is what `malloc` returns. -/
def heapAlloc (answer : Option ℕ) (flags : UInt32) (size : UInt64) (h : Heap) :
    Option ℕ × Heap :=
  match answer with
  | none => (none, { h with lastError := kErrorNotEnoughMemory })
  | some raw =>
    let user := raw + kHeapHeaderSize.toNat
    (some user,
      { h with
        memory := writeBlock h.memory raw flags size
        chunks := ⟨raw, (totalSize size).toNat⟩ :: h.chunks
        blocks := update h.blocks user (some size)
        lastError := kErrorSuccess })

/-! ### `HeapFree` and `HeapReAlloc` -/

/-- `std::free`. -/
def Heap.free (h : Heap) (p : ℕ) : Heap :=
  { h with chunks := h.chunks.filter fun c => c.base ≠ p }

/-- `get_heap_header` finds the header of an intact block. -/
def hasHeapHeader (m : Memory) (user : ℕ) : Bool :=
  user ≠ 0 && user % 16 = 0 && ofLE (m.bytes (user - 48) 4) = kHeapMagic.toNat &&
    ofLE (m.bytes (user - 24) 8) = kHeapCanary.toNat

/-- `take_local_free_block`. -/
def takeLocalFreeBlock (address : ℕ) (slots : List ℕ) : Option (List ℕ) :=
  if address ≠ 0 ∧ address ∈ slots then some (slots.replace address 0) else none

/-- `tl_HeapFree`. -/
def heapFree (memory : ℕ) (h : Heap) : Bool × Heap :=
  if memory = 0 then (true, h)
  else
    match h.blocks memory with
    | some _ =>
      let h := { h with blocks := update h.blocks memory none }
      -- with an overwritten header the block is still released at its base
      let m :=
        if hasHeapHeader h.memory memory then
          (h.memory.copy (memory - 48) (toLE 4 0)).copy (memory - 24) (toLE 8 0)
        else h.memory
      (true, { h with memory := m, lastError := kErrorSuccess }.free (memory - 48))
    | none =>
      match takeLocalFreeBlock memory h.localFree with
      | some slots =>
        (true, { h with localFree := slots, lastError := kErrorSuccess }.free memory)
      | none => (false, { h with lastError := kErrorInvalidParameter })

/-- `tl_HeapReAlloc`. -/
def heapReAlloc (answer : Option ℕ) (flags : UInt32) (memory : ℕ) (newSize : UInt64) (h : Heap) :
    Option ℕ × Heap :=
  if memory = 0 then heapAlloc answer flags newSize h
  else
    match h.blocks memory with
    | none => (none, { h with lastError := kErrorInvalidParameter })
    | some oldSize =>
      match heapAlloc answer flags newSize h with
      | (none, h) => (none, { h with lastError := kErrorNotEnoughMemory })
      | (some new, h) =>
        let copyBytes := min oldSize.toNat newSize.toNat
        let h := { h with memory := h.memory.copy new (h.memory.bytes memory copyBytes) }
        (some new, (heapFree memory h).2)

/-! ### `GlobalAlloc` and `LocalAlloc` -/

/-- `kAllowedFlags` of both functions. -/
def kAllowedFlags : UInt32 :=
  kGmemMoveable ||| kGmemZeroinit ||| 0x0080 ||| 0x0100 ||| 0x0010 ||| 0x0020 ||| 0x2000 |||
    0x1000

/-- `allocation_size`. -/
def allocationSize (bytes : UInt64) : UInt64 := if bytes = 0 then 1 else bytes

/-- The two functions differ in the field `global` of the slot they fill. -/
def slotAlloc (global : Bool) (answer : Option ℕ) (flags : UInt32) (bytes : UInt64) (h : Heap) :
    Option ℕ × Heap :=
  if flags &&& ~~~kAllowedFlags ≠ 0 then (none, { h with lastError := kErrorInvalidParameter })
  else
    let size := allocationSize bytes
    let heapFlags := if flags &&& kGmemZeroinit ≠ 0 then kHeapZeroMemory else 0
    match heapAlloc answer heapFlags size h with
    | (none, h) => (none, { h with lastError := kErrorNotEnoughMemory })
    | (some memory, h) =>
      match h.globals.findIdx? (fun slot => !slot.used) with
      | none => (none, { (heapFree memory h).2 with lastError := kErrorNotEnoughMemory })
      | some i =>
        (some memory,
          { h with
            globals := h.globals.set i ⟨true, memory, size, flags, 0, global⟩
            lastError := kErrorSuccess })

/-- `tl_GlobalAlloc`. -/
def globalAlloc : Option ℕ → UInt32 → UInt64 → Heap → Option ℕ × Heap := slotAlloc true

/-- `tl_LocalAlloc`. -/
def localAlloc : Option ℕ → UInt32 → UInt64 → Heap → Option ℕ × Heap := slotAlloc false

/-- `find_global_memory_slot_locked`. -/
def findGlobalMemorySlot (globals : List GlobalMemorySlot) (memory : ℕ) (globalOnly : Bool) :
    Option ℕ :=
  if memory = 0 then none
  else
    match globals.findIdx? (fun slot => slot.address = memory && (!globalOnly || slot.global)) with
    | none => none
    | some i => if (globals.getD i {}).used then some i else none

/-- `tl_GlobalFree`; the result is the pointer on failure and null on success. -/
def globalFree (memory : ℕ) (h : Heap) : ℕ × Heap :=
  if memory = 0 then (0, { h with lastError := kErrorSuccess })
  else
    match findGlobalMemorySlot h.globals memory true with
    | none => (memory, { h with lastError := kErrorInvalidHandle })
    | some i =>
      let h := { h with globals := h.globals.set i {} }
      (0, { (heapFree memory h).2 with lastError := kErrorSuccess })

/-- `tl_LocalFree`. -/
def localFree (memory : ℕ) (h : Heap) : ℕ × Heap :=
  if memory = 0 then (0, { h with lastError := kErrorSuccess })
  else
    match findGlobalMemorySlot h.globals memory false with
    | some i =>
      if (h.globals.getD i {}).global then (memory, { h with lastError := kErrorInvalidHandle })
      else
        let h := { h with globals := h.globals.set i {} }
        (0, { (heapFree memory h).2 with lastError := kErrorSuccess })
    | none =>
      match takeLocalFreeBlock memory h.localFree with
      | some slots =>
        (0, { h with localFree := slots, lastError := kErrorSuccess }.free memory)
      | none =>
        match heapFree memory h with
        | (true, h) => (0, { h with lastError := kErrorSuccess })
        | (false, h) => (memory, { h with lastError := kErrorInvalidHandle })

/-! ### Runs -/

/-- What can happen to the heap: the calls of the guest, its own writes, and the
blocks that other functions leave it for `LocalFree`. -/
inductive Call
  | heapAlloc (answer : Option ℕ) (flags : UInt32) (size : UInt64)
  | heapReAlloc (answer : Option ℕ) (flags : UInt32) (memory : ℕ) (newSize : UInt64)
  | heapFree (memory : ℕ)
  | globalAlloc (answer : Option ℕ) (flags : UInt32) (bytes : UInt64)
  | localAlloc (answer : Option ℕ) (flags : UInt32) (bytes : UInt64)
  | globalFree (memory : ℕ)
  | localFree (memory : ℕ)
  | guestWrite (target : ℕ) (bytes : ByteString)
  | registerLocalFreeBlock (base size : ℕ)

namespace Call

def run : Call → Heap → Heap
  | heapAlloc answer flags size, h => (Runtime.heapAlloc answer flags size h).2
  | heapReAlloc answer flags memory newSize, h =>
    (Runtime.heapReAlloc answer flags memory newSize h).2
  | heapFree memory, h => (Runtime.heapFree memory h).2
  | globalAlloc answer flags bytes, h => (Runtime.globalAlloc answer flags bytes h).2
  | localAlloc answer flags bytes, h => (Runtime.localAlloc answer flags bytes h).2
  | globalFree memory, h => (Runtime.globalFree memory h).2
  | localFree memory, h => (Runtime.localFree memory h).2
  | guestWrite target bytes, h => { h with memory := h.memory.copy target bytes }
  | registerLocalFreeBlock base size, h =>
    if 0 ∈ h.localFree then
      { h with chunks := ⟨base, size⟩ :: h.chunks, localFree := h.localFree.replace 0 base }
    else h

/-- The size that a call passes to `HeapAlloc`, if it gets that far. -/
def request (h : Heap) : Call → Option UInt64
  | heapAlloc _ _ size => some size
  | heapReAlloc _ _ memory size =>
    if memory ≠ 0 ∧ h.blocks memory = none then none else some size
  | globalAlloc _ flags bytes | localAlloc _ flags bytes =>
    if flags &&& ~~~kAllowedFlags ≠ 0 then none else some (allocationSize bytes)
  | _ => none

/-- What `malloc` returns in a call. -/
def answer : Call → Option ℕ
  | heapAlloc answer _ _ | heapReAlloc answer _ _ _ => answer
  | globalAlloc answer _ _ | localAlloc answer _ _ => answer
  | _ => none

end Call

/-- `malloc` returns an aligned block apart from all that it has handed out. -/
def Serves (h : Heap) (answer : Option ℕ) (size : ℕ) : Prop :=
  ∀ raw, answer = some raw →
    0 < raw ∧ raw % 16 = 0 ∧ raw + size ≤ 2 ^ 64 ∧ ∀ c ∈ h.chunks, Span.Apart ⟨raw, size⟩ c

/-- What the host promises about a call. -/
def HeapAdmissible (h : Heap) (call : Call) : Prop :=
  (∀ n, call.request h = some n → Serves h call.answer (totalSize n).toNat) ∧
    ∀ base size, call = .registerLocalFreeBlock base size → 0 < size ∧ Serves h (some base) size

/-- The largest size whose payload the mask does not cut. -/
def kMaxRequest : UInt64 := 0xFFFFFFF0

def Sized (h : Heap) (call : Call) : Prop := ∀ n, call.request h = some n → n ≤ kMaxRequest

/-- The states of the runs whose calls request no more than `kMaxRequest`. -/
inductive Reachable : Heap → Prop
  | initial (byte : ℕ → UInt8) : Reachable (Heap.initial byte)
  | step {h : Heap} {call : Call} : Reachable h → HeapAdmissible h call → Sized h call →
      Reachable (call.run h)

/-- The block at `user` holds the header, `n` bytes and the trailer. -/
structure BlockFits (h : Heap) (user : ℕ) (n : UInt64) : Prop where
  payload : n ≤ payloadSize n
  total : (totalSize n).toNat = 48 + (payloadSize n).toNat + 64
  chunk : ∃ c ∈ h.chunks, c.base + 48 = user ∧ c.size = (totalSize n).toNat ∧
    Span.Within ⟨c.base, 48⟩ c ∧ Span.Within ⟨user, n.toNat⟩ c ∧
    Span.Within ⟨user + (payloadSize n).toNat, 64⟩ c

/-- The user bytes of a chunk, between the header and the trailer. -/
def payloadSpan (c : Span) : Span := ⟨c.base + 48, c.size - 112⟩

/-- Every registered block has room for the size that is recorded for it. -/
def BlocksRegistered (h : Heap) : Prop :=
  ∀ user n, h.blocks user = some n →
    ∃ c ∈ h.chunks, c.base + 48 = user ∧ n.toNat + 112 ≤ c.size

/-- `HeapReAlloc` has copied what both blocks have room for, and the new block
begins with the bytes of the old one. -/
def Copies (h h' : Heap) (memory new : ℕ) (newSize : UInt64) : Prop :=
  ∀ old, h.blocks memory = some old →
    (∃ c ∈ h.chunks, Span.Within ⟨memory, min old.toNat newSize.toNat⟩ (payloadSpan c)) ∧
    (∃ c ∈ h'.chunks, Span.Within ⟨new, min old.toNat newSize.toNat⟩ (payloadSpan c)) ∧
    h'.memory.bytes new (min old.toNat newSize.toNat) =
      h.memory.bytes memory (min old.toNat newSize.toNat)

/-! ### Sizes -/

variable {n : UInt64}

theorem toNat_payloadSize (hn : n ≠ 0) :
    (payloadSize n).toNat = (n.toNat + 15) % 2 ^ 32 / 16 * 16 := by
  have hm : (~~~(15 : UInt32)).toUInt64.toNat = 2 ^ 32 - 2 ^ 4 := by decide
  rw [payloadSize, if_neg hn, UInt64.toNat_and, hm, and_highMask (by decide), UInt64.toNat_add]
  have hf : (n.toNat + (15 : UInt64).toNat) % 2 ^ 64 % 2 ^ 32 = (n.toNat + 15) % 2 ^ 32 := by
    rw [show (15 : UInt64).toNat = 15 from rfl]
    omega
  rw [hf, show (2 : ℕ) ^ 4 = 16 from rfl]

theorem payloadSize_le (n : UInt64) : (payloadSize n).toNat ≤ 0xFFFFFFF0 := by
  by_cases hn : n = 0
  · rw [payloadSize, if_pos hn]
    decide
  · rw [toNat_payloadSize hn]
    omega

/-- **The mask keeps a size exactly up to `0xFFFFFFF0`.** -/
theorem le_payloadSize_iff (n : UInt64) : n ≤ payloadSize n ↔ n ≤ kMaxRequest := by
  constructor
  · intro h
    exact UInt64.le_iff_toNat_le.2
      (le_trans (UInt64.le_iff_toNat_le.1 h) (payloadSize_le n))
  · intro h
    by_cases hn : n = 0
    · subst hn
      decide
    · have hm : n.toNat ≤ 0xFFFFFFF0 := UInt64.le_iff_toNat_le.1 h
      rw [UInt64.le_iff_toNat_le, toNat_payloadSize hn]
      omega

theorem toNat_totalSize (n : UInt64) : (totalSize n).toNat = 48 + (payloadSize n).toNat + 64 := by
  have hl := payloadSize_le n
  rw [totalSize, UInt64.toNat_add, UInt64.toNat_add]
  rw [show kHeapHeaderSize.toNat = 48 from rfl, show kHeapTrailerSize.toNat = 64 from rfl]
  omega

/-! ### The block that `HeapAlloc` writes -/

theorem length_headerBytes (fs : UInt32) (r p : UInt64) : (headerBytes fs r p).length = 40 := by
  simp [headerBytes]

variable {flags fs : UInt32}
variable {raw : ℕ} {s : UInt64}

theorem byte_writeBlock {m : Memory} {a : ℕ} (ha : ¬ Span.Has ⟨raw, (totalSize s).toNat⟩ a) :
    (writeBlock m raw fs s).byte a = m.byte a := by
  have ht := toNat_totalSize s
  unfold Span.Has at ha
  rw [Span.stop_mk, ht] at ha
  dsimp only at ha
  have hh : kHeapHeaderSize.toNat = 48 := rfl
  have hr : kHeapTrailerSize.toNat = 64 := rfl
  dsimp only [writeBlock]
  rw [Memory.byte_copy, length_replicate, if_neg (by omega)]
  split
  · rw [Memory.byte_fill, if_neg (by omega), Memory.byte_copy, length_headerBytes,
      if_neg (by omega)]
  · rw [Memory.byte_copy, length_headerBytes, if_neg (by omega)]

variable {answer ar : Option ℕ}

theorem heapAlloc_some {h h' : Heap} {u : ℕ} (heq : heapAlloc ar fs s h = (some u, h')) :
    ∃ raw, ar = some raw ∧ u = raw + 48 ∧ h'.memory = writeBlock h.memory raw fs s ∧
      h'.chunks = ⟨raw, (totalSize s).toNat⟩ :: h.chunks ∧
      h'.blocks = update h.blocks u (some s) ∧ h'.localFree = h.localFree := by
  cases ar with
  | none => cases heq
  | some raw =>
    obtain ⟨hu, rfl⟩ := Prod.mk.inj heq
    cases hu
    exact ⟨raw, rfl, rfl, rfl, rfl, rfl, rfl⟩

/-! ### The invariant -/

/-- The chunks do not meet, the registered blocks have theirs, and so do the
blocks that `LocalFree` may release. -/
structure HeapInv (h : Heap) : Prop where
  apart : h.chunks.Pairwise Span.Apart
  positive : ∀ c ∈ h.chunks, 0 < c.size
  registered : BlocksRegistered h
  locals : (h.localFree.filter (· ≠ 0)).Nodup
  owned : ∀ p ∈ h.localFree, p ≠ 0 →
    h.blocks (p + 48) = none ∧ ∃ c ∈ h.chunks, c.base = p

namespace HeapInv

variable {h h' : Heap}

theorem initial (b : ℕ → UInt8) : HeapInv (Heap.initial b) where
  apart := List.Pairwise.nil
  positive := fun c hc => absurd hc not_mem_nil
  registered := fun u n hn => by cases hn
  locals := by
    rw [Heap.initial, filter_replicate]
    exact nodup_nil
  owned := fun p hp he => absurd (eq_of_mem_replicate hp) he

section

variable (hinv : HeapInv h)
include hinv

theorem congr (hc : h'.chunks = h.chunks) (hb : h'.blocks = h.blocks)
    (hl : h'.localFree = h.localFree) : HeapInv h' where
  apart := hc ▸ hinv.apart
  positive := hc ▸ hinv.positive
  registered := by
    unfold BlocksRegistered
    rw [hc, hb]
    exact hinv.registered
  locals := hl ▸ hinv.locals
  owned := by
    rw [hc, hb, hl]
    exact hinv.owned

theorem base_ne {s : ℕ} (hp : 0 < s)
    (hs : Serves h (some raw) s) {c : Span} (hc : c ∈ h.chunks) : c.base ≠ raw := by
  obtain ⟨-, -, -, ha⟩ := hs raw rfl
  exact fun heq => (ha c hc).base_ne hp (hinv.positive c hc) heq.symm

/-- `HeapAlloc` registers a block in a new chunk. -/
theorem heapAlloc (fs : UInt32) (hse : Serves h ar (totalSize s).toNat) (hs : s ≤ kMaxRequest) :
    HeapInv (Runtime.heapAlloc ar fs s h).2 := by
  cases ar with
  | none => exact hinv.congr rfl rfl rfl
  | some raw =>
    have ht := toNat_totalSize s
    have hl : s.toNat ≤ (payloadSize s).toNat :=
      UInt64.le_iff_toNat_le.1 ((le_payloadSize_iff s).2 hs)
    obtain ⟨-, -, -, ha⟩ := hse raw rfl
    have ho : 0 < (totalSize s).toNat := by omega
    have he : (Runtime.heapAlloc (some raw) fs s h).2.blocks =
        update h.blocks (raw + 48) (some s) := rfl
    exact
      { apart := List.Pairwise.cons ha hinv.apart
        positive := fun c hc => by
          rcases mem_cons.1 hc with rfl | hc
          · exact ho
          · exact hinv.positive c hc
        registered := fun u n hn => by
          rw [he, update_apply] at hn
          split at hn
          · next hu =>
            cases hn
            exact ⟨_, mem_cons_self, hu.symm, by dsimp only; omega⟩
          · obtain ⟨c, hc, hb, hr⟩ := hinv.registered u n hn
            exact ⟨c, mem_cons_of_mem _ hc, hb, hr⟩
        locals := hinv.locals
        owned := fun p hp hne => by
          obtain ⟨hf, c, hc, hb⟩ := hinv.owned p hp hne
          refine ⟨?_, c, mem_cons_of_mem _ hc, hb⟩
          have hw : p ≠ raw := hb ▸ hinv.base_ne ho hse hc
          rw [he, update_of_ne (by omega), hf] }

variable {p : ℕ}

theorem free (hbl : h.blocks (p + 48) = none)
    (hl : p = 0 ∨ p ∉ h.localFree) : HeapInv (h.free p) where
  apart := hinv.apart.filter _
  positive := fun c hc => hinv.positive c (mem_of_mem_filter hc)
  registered := fun u n hn => by
    obtain ⟨c, hc, hb, hr⟩ := hinv.registered u n hn
    refine ⟨c, mem_filter.2 ⟨hc, ?_⟩, hb, hr⟩
    rw [decide_eq_true_eq]
    rintro rfl
    rw [hb] at hbl
    exact absurd (hn.symm.trans hbl) (by simp)
  locals := hinv.locals
  owned := fun q hq he => by
    obtain ⟨hf, c, hc, hb⟩ := hinv.owned q hq he
    refine ⟨hf, c, mem_filter.2 ⟨hc, ?_⟩, hb⟩
    rw [decide_eq_true_eq, hb]
    rintro rfl
    exact hl.elim he (fun hnot => hnot hq)

theorem take {ss : List ℕ} (ht : takeLocalFreeBlock p h.localFree = some ss) :
    HeapInv { h with localFree := ss } ∧ p ∉ ss ∧ h.blocks (p + 48) = none := by
  unfold takeLocalFreeBlock at ht
  split at ht
  · next hp =>
    cases ht
    obtain ⟨l₁, l₂, hs, hnot⟩ := eq_append_cons_of_mem hp.2
    have hr : h.localFree.replace p 0 = l₁ ++ 0 :: l₂ := by
      rw [hs, replace_append_right hnot, replace_cons_self]
    have hn := hinv.locals
    rw [hs, filter_append, filter_cons_of_pos (by simpa using hp.1),
      nodup_middle, ← filter_append] at hn
    have hl : p ∉ l₂ := fun hm =>
      (nodup_cons.1 hn).1
        (mem_filter.2 ⟨mem_append_right _ hm, by simpa using hp.1⟩)
    refine ⟨?_, ?_, (hinv.owned p hp.2 hp.1).1⟩
    · exact
        { hinv with
          locals := by
            rw [hr, filter_append, filter_cons_of_neg (by simp), ← filter_append]
            exact (nodup_cons.1 hn).2
          owned := fun q hq he => by
            refine hinv.owned q ?_ he
            rw [hr, mem_append, mem_cons] at hq
            rw [hs, mem_append, mem_cons]
            rcases hq with hq | rfl | hq
            · exact .inl hq
            · exact absurd rfl he
            · exact .inr (.inr hq) }
    · rw [hr, mem_append, mem_cons]
      rintro (hq | hq | hq)
      · exact hnot hq
      · exact hp.1 hq
      · exact hl hq
  · cases ht

theorem freeLocal {ss : List ℕ} (ha : takeLocalFreeBlock p h.localFree = some ss) :
    HeapInv ({ h with localFree := ss, lastError := kErrorSuccess }.free p) := by
  obtain ⟨ht, hnot, hb⟩ := hinv.take ha
  exact (ht.free hb (.inr hnot)).congr rfl rfl rfl

/-- `HeapFree` releases the chunk of a registered block, or a local block. -/
theorem heapFree (mem : ℕ) : HeapInv (Runtime.heapFree mem h).2 := by
  unfold Runtime.heapFree
  split
  · exact hinv
  split
  · next n hn =>
    obtain ⟨c, hc, hb, -⟩ := hinv.registered mem n hn
    have ho : update h.blocks mem none (mem - 48 + 48) = none := by
      rw [show mem - 48 + 48 = mem by omega, update_self]
    have hr : HeapInv { h with blocks := update h.blocks mem none } :=
      { hinv with
        registered := fun u m hm => by
          dsimp only at hm
          rw [update_apply] at hm
          split at hm
          · cases hm
          · exact hinv.registered u m hm
        owned := fun q hq hne => by
          obtain ⟨hf, hh⟩ := hinv.owned q hq hne
          refine ⟨?_, hh⟩
          dsimp only
          rw [update_apply]
          split
          · rfl
          · exact hf }
    refine (hr.free ho ?_).congr rfl rfl rfl
    by_cases hz : mem - 48 = 0
    · exact .inl hz
    -- a local block at the base of this chunk would have no registered block
    refine .inr fun he => ?_
    have hf := (hinv.owned _ he hz).1
    rw [show mem - 48 + 48 = mem by omega, hn] at hf
    cases hf
  · split
    · next ss ht => exact hinv.freeLocal ht
    · exact hinv.congr rfl rfl rfl

theorem heapReAlloc {mem : ℕ} (he : ¬(mem ≠ 0 ∧ h.blocks mem = none) →
      Serves h ar (totalSize s).toNat ∧ s ≤ kMaxRequest) :
    HeapInv (Runtime.heapReAlloc ar fs mem s h).2 := by
  unfold Runtime.heapReAlloc
  split
  · next hz =>
    obtain ⟨he, hs⟩ := he fun hn => hn.1 hz
    exact hinv.heapAlloc fs he hs
  split
  · exact hinv.congr rfl rfl rfl
  next o ho =>
  have hreach : ¬(mem ≠ 0 ∧ h.blocks mem = none) := fun hn => by rw [ho] at hn; cases hn.2
  have ha := hinv.heapAlloc fs (he hreach).1 (he hreach).2
  split
  · next h₁ heq =>
    rw [heq] at ha
    exact ha.congr rfl rfl rfl
  · next ne h₁ heq =>
    rw [heq] at ha
    refine HeapInv.heapFree ?_ mem
    exact ha.congr rfl rfl rfl

theorem slotAlloc {g : Bool} {bs : UInt64} (he : ¬(fs &&& ~~~kAllowedFlags ≠ 0) →
      Serves h ar (totalSize (allocationSize bs)).toNat ∧ allocationSize bs ≤ kMaxRequest) :
    HeapInv (Runtime.slotAlloc g ar fs bs h).2 := by
  unfold Runtime.slotAlloc
  split
  · exact hinv.congr rfl rfl rfl
  next hf =>
  dsimp only
  have ha := hinv.heapAlloc (if fs &&& kGmemZeroinit ≠ 0 then kHeapZeroMemory else 0) (he hf).1
    (he hf).2
  split
  · next h₁ heq =>
    rw [heq] at ha
    exact ha.congr rfl rfl rfl
  · next mem h₁ heq =>
    rw [heq] at ha
    split
    · exact (ha.heapFree mem).congr rfl rfl rfl
    · exact ha.congr rfl rfl rfl

theorem globalFree (mem : ℕ) : HeapInv (Runtime.globalFree mem h).2 := by
  unfold Runtime.globalFree
  split
  · exact hinv.congr rfl rfl rfl
  · split
    · exact hinv.congr rfl rfl rfl
    · refine HeapInv.congr (HeapInv.heapFree ?_ mem) rfl rfl rfl
      exact hinv.congr rfl rfl rfl

theorem localFree (mem : ℕ) : HeapInv (Runtime.localFree mem h).2 := by
  unfold Runtime.localFree
  split
  · exact hinv.congr rfl rfl rfl
  split
  · split
    · exact hinv.congr rfl rfl rfl
    · refine HeapInv.congr (HeapInv.heapFree ?_ mem) rfl rfl rfl
      exact hinv.congr rfl rfl rfl
  · split
    · next ss ht => exact hinv.freeLocal ht
    · have hf := hinv.heapFree mem
      split <;> next heq =>
        rw [heq] at hf
        exact hf.congr rfl rfl rfl

theorem registerLocal {b s : ℕ} (hp : 0 < s) (he : Serves h (some b) s) :
    HeapInv ((Call.registerLocalFreeBlock b s).run h) := by
  rw [Call.run]
  split
  · next hz =>
    obtain ⟨l₁, l₂, hs, hnot⟩ := eq_append_cons_of_mem hz
    obtain ⟨hba, -, -, ha⟩ := he b rfl
    have hre : h.localFree.replace 0 b = l₁ ++ b :: l₂ := by
      rw [hs, replace_append_right hnot, replace_cons_self]
    have hf : b ∉ h.localFree := fun hm => by
      obtain ⟨-, c, hc, heq⟩ := hinv.owned b hm (by omega)
      exact hinv.base_ne hp he hc heq
    have ho := hinv.locals
    rw [hs, filter_append, filter_cons_of_neg (by simp), ← filter_append]
      at ho
    rw [hs, mem_append, mem_cons, not_or, not_or] at hf
    exact
      { apart := List.Pairwise.cons ha hinv.apart
        positive := fun c hc => by
          rcases mem_cons.1 hc with rfl | hc
          · exact hp
          · exact hinv.positive c hc
        registered := fun u n hn => by
          obtain ⟨c, hc, hr⟩ := hinv.registered u n hn
          exact ⟨c, mem_cons_of_mem _ hc, hr⟩
        locals := by
          rw [hre, filter_append, filter_cons_of_pos (by simp; omega),
            nodup_middle, ← filter_append, nodup_cons]
          refine ⟨fun hm => ?_, ho⟩
          rcases mem_append.1 (mem_of_mem_filter hm) with hm | hm
          · exact hf.1 hm
          · exact hf.2.2 hm
        owned := fun q hq hne => by
          rw [hre, mem_append, mem_cons] at hq
          by_cases hqb : q = b
          · refine ⟨?_, ⟨b, s⟩, mem_cons_self, hqb.symm⟩
            -- a registered block there would have a chunk at the same base
            cases hb : h.blocks (q + 48) with
            | none => rfl
            | some n =>
              obtain ⟨c, hc, hcb, -⟩ := hinv.registered _ _ hb
              exact absurd (show c.base = b by omega) (hinv.base_ne hp he hc)
          · have hold : q ∈ h.localFree := by
              rw [hs, mem_append, mem_cons]
              rcases hq with hq | hq | hq
              · exact .inl hq
              · exact absurd hq hqb
              · exact .inr (.inr hq)
            obtain ⟨hfr, c, hc, hcb⟩ := hinv.owned q hold hne
            exact ⟨hfr, c, mem_cons_of_mem _ hc, hcb⟩ }
  · exact hinv

theorem run {c : Call} (ha : HeapAdmissible h c) (hs : Sized h c) : HeapInv (c.run h) := by
  obtain ⟨he, hl⟩ := ha
  cases c with
  | heapAlloc ar fs s => exact hinv.heapAlloc fs (he _ rfl) (hs _ rfl)
  | heapReAlloc ar fs mem ns =>
    exact hinv.heapReAlloc fun hn => ⟨he _ (if_neg hn), hs _ (if_neg hn)⟩
  | heapFree mem => exact hinv.heapFree mem
  | globalAlloc ar fs bs =>
    exact hinv.slotAlloc fun hn => ⟨he _ (if_neg hn), hs _ (if_neg hn)⟩
  | localAlloc ar fs bs =>
    exact hinv.slotAlloc fun hn => ⟨he _ (if_neg hn), hs _ (if_neg hn)⟩
  | globalFree mem => exact hinv.globalFree mem
  | localFree mem => exact hinv.localFree mem
  | guestWrite t bs => exact hinv.congr rfl rfl rfl
  | registerLocalFreeBlock b s =>
    obtain ⟨hp, he⟩ := hl _ _ rfl
    exact hinv.registerLocal hp he

end

end HeapInv

theorem Reachable.inv {h : Heap} (hr : Reachable h) : HeapInv h := by
  induction hr with
  | initial b => exact HeapInv.initial b
  | step _ ha hs ih => exact ih.run ha hs

/-! ### What a call leaves in memory -/

theorem BlockFits.of_heapAlloc {h h' : Heap}
    {u : ℕ} (heq : heapAlloc ar fs n h = (some u, h')) (hn : n ≤ kMaxRequest) :
    BlockFits h' u n := by
  have hp := (le_payloadSize_iff n).2 hn
  have ht := toNat_totalSize n
  have hl : n.toNat ≤ (payloadSize n).toNat := UInt64.le_iff_toNat_le.1 hp
  obtain ⟨raw, -, rfl, -, hc, -, -⟩ := heapAlloc_some heq
  refine ⟨hp, ht, ⟨raw, (totalSize n).toNat⟩, ?_, rfl, rfl, ?_⟩
  · rw [hc]
    exact mem_cons_self
  · unfold Span.Within
    simp only [Span.stop_mk]
    omega

variable {mem : ℕ}

theorem byte_heapFree {h : Heap} {a : ℕ} (hn : h.blocks mem = some n)
    (hm : 48 ≤ mem) (ha : a < mem - 48 ∨ mem ≤ a) :
    (heapFree mem h).2.memory.byte a = h.memory.byte a := by
  unfold heapFree
  rw [if_neg (by omega), hn]
  dsimp only [Heap.free]
  split
  · rw [Memory.byte_copy, length_toLE, if_neg (by omega), Memory.byte_copy, length_toLE,
      if_neg (by omega)]
  · rfl

theorem mem_chunks_heapFree {h : Heap} {c : Span}
    (hn : h.blocks mem = some n) (hc : c ∈ h.chunks) (he : c.base ≠ mem - 48) :
    c ∈ (heapFree mem h).2.chunks := by
  unfold heapFree
  split
  · exact hc
  · rw [hn]
    exact mem_filter.2 ⟨hc, by simpa using he⟩

theorem heapReAlloc_some {ne : ℕ}
    {o : UInt64} {h h' : Heap} (hm : mem ≠ 0) (hold : h.blocks mem = some o)
    (heq : heapReAlloc ar fs mem s h = (some ne, h')) :
    ∃ h₁ h₂, heapAlloc ar fs s h = (some ne, h₁) ∧
      h₂.memory = h₁.memory.copy ne (h₁.memory.bytes mem (min o.toNat s.toNat)) ∧
      h₂.blocks = h₁.blocks ∧ h₂.chunks = h₁.chunks ∧ h' = (heapFree mem h₂).2 := by
  unfold heapReAlloc at heq
  rw [if_neg hm, hold] at heq
  cases ha : heapAlloc ar fs s h with
  | mk r h₁ =>
    rw [ha] at heq
    cases r with
    | none => cases heq
    | some u =>
      obtain ⟨hu, hf⟩ := Prod.mk.inj heq
      obtain rfl := some.inj hu
      refine ⟨h₁, { h₁ with
        memory := h₁.memory.copy u (h₁.memory.bytes mem (min o.toNat s.toNat)) },
        rfl, rfl, rfl, rfl, hf.symm⟩

/-- **A reallocation keeps the data.** -/
theorem HeapInv.copies {h h' : Heap} (hinv : HeapInv h)
    {ne : ℕ} {newSize : UInt64} (hse : Serves h ar (totalSize newSize).toNat)
    (hs : newSize ≤ kMaxRequest) (hm : mem ≠ 0)
    (heq : Runtime.heapReAlloc ar fs mem newSize h = (some ne, h')) :
    Copies h h' mem ne newSize := by
  intro old hold
  obtain ⟨h₁, h₂, hal, hco, hb₂, hc₂, rfl⟩ := heapReAlloc_some hm hold heq
  obtain ⟨raw, rfl, rfl, hmm, hh, hl, -⟩ := heapAlloc_some hal
  obtain ⟨c, hc, hb, hr⟩ := hinv.registered mem old hold
  obtain ⟨-, -, -, hp⟩ := hse raw rfl
  have ht := toNat_totalSize newSize
  have hle : newSize.toNat ≤ (payloadSize newSize).toNat :=
    UInt64.le_iff_toNat_le.1 ((le_payloadSize_iff newSize).2 hs)
  have hap := hp c hc
  dsimp only [Span.Apart, Span.stop] at hap
  have he : h₂.blocks mem = some old := by rw [hb₂, hl, update_of_ne (by omega), hold]
  refine ⟨⟨c, hc, ?_⟩, ⟨⟨raw, (totalSize newSize).toNat⟩, ?_, ?_⟩, ?_⟩
  · dsimp only [Span.Within, payloadSpan, Span.stop]
    omega
  · refine mem_chunks_heapFree he ?_ (by dsimp only; omega)
    rw [hc₂, hh]
    exact mem_cons_self
  · dsimp only [Span.Within, payloadSpan, Span.stop]
    omega
  · -- neither the release of the old block nor the new header and trailer touch the data
    generalize hk : min old.toNat newSize.toNat = k at hco
    have hd : h₁.memory.bytes mem k = h.memory.bytes mem k := by
      refine Memory.bytes_congr fun a ha ha' => ?_
      rw [hmm]
      refine byte_writeBlock fun hha => ?_
      dsimp only [Span.Has, Span.stop] at hha
      omega
    have ho := Memory.bytes_copy_self h₁.memory (raw + 48) (h₁.memory.bytes mem k)
    rw [Memory.length_bytes] at ho
    calc _ = (h₁.memory.copy (raw + 48) (h₁.memory.bytes mem k)).bytes (raw + 48) k :=
        Memory.bytes_congr fun a ha ha' => by rw [byte_heapFree he (by omega) (by omega), hco]
      _ = h₁.memory.bytes mem k := ho
      _ = h.memory.bytes mem k := hd

/-! ### The heap functions -/

/-- **A block of `HeapAlloc` has room exactly up to `0xFFFFFFF0`; while the guest
asks for no more, every registered block has room for its size and every
reallocation keeps the data.** -/
theorem heap_sound (h : Heap) :
    (∀ answer flags n h' user, heapAlloc answer flags n h = (some user, h') →
      (BlockFits h' user n ↔ n ≤ kMaxRequest)) ∧
    (Reachable h → BlocksRegistered h ∧
      ∀ answer flags memory newSize new h', Serves h answer (totalSize newSize).toNat →
        newSize ≤ kMaxRequest → memory ≠ 0 →
        heapReAlloc answer flags memory newSize h = (some new, h') →
        Copies h h' memory new newSize) := by
  constructor
  · intro answer flags n h' user heq
    constructor
    · intro hf
      exact (le_payloadSize_iff n).mp hf.payload
    · exact BlockFits.of_heapAlloc heq
  · intro hr
    refine ⟨hr.inv.registered, ?_⟩
    intro answer flags memory newSize new h' he hs hm heq
    exact hr.inv.copies he hs hm heq

def oneBlock : Heap :=
  (Call.heapAlloc (some 0x1000) 0 24).run (Heap.initial fun _ => 0)

theorem serves_initial {b : ℕ → UInt8} {size : ℕ} (hr : 0 < raw) (hm : raw % 16 = 0)
    (hf : raw + size ≤ 2 ^ 64) : Serves (Heap.initial b) (some raw) size := by
  intro r' heq
  cases heq
  exact ⟨hr, hm, hf, fun c hc => absurd hc not_mem_nil⟩

theorem heap_sound_oneBlock : BlocksRegistered oneBlock ∧
    Copies oneBlock (heapReAlloc (some 0x2000) 0 0x1030 40 oneBlock).2 0x1030 0x2030 40 := by
  have hr : Reachable oneBlock := by
    refine (Reachable.initial _).step ⟨fun n hn => ?_, fun base s heq => ?_⟩ fun n hn => ?_
    · cases hn
      exact serves_initial (by decide) (by decide) (by decide)
    · cases heq
    · cases hn
      decide
  obtain ⟨he, ho⟩ := (heap_sound oneBlock).2 hr
  refine ⟨he, ho (some 0x2000) 0 0x1030 40 0x2030 _ ?_ (by decide) (by decide) rfl⟩
  intro raw heq
  cases heq
  refine ⟨by decide, by decide, by decide, fun c hc => ?_⟩
  obtain rfl := mem_singleton.mp hc
  decide

/-- A request of 4 GiB and 16 bytes gets a payload of 16 bytes. -/
theorem not_blockFits_truncated :
    (heapAlloc (some 0x1000) 0 0x100000010 (Heap.initial fun _ => 0)).1 = some 0x1030 ∧
    payloadSize 0x100000010 = 16 ∧
    ¬ BlockFits (heapAlloc (some 0x1000) 0 0x100000010 (Heap.initial fun _ => 0)).2
      0x1030 0x100000010 := by
  refine ⟨rfl, by decide, fun hf => ?_⟩
  exact absurd hf.payload (by decide)

end TradutorLinux.Runtime
