import TradutorLinux.Runtime.ErrorMap
import TradutorLinux.Util.Align
import TradutorLinux.Util.Memory
import TradutorLinux.Util.Span

/-!
# Virtual memory

`NtAllocateVirtualMemory` and its relatives over the table of allocations, and
the `KERNEL32` functions on top of them.  The table has a slot for an allocation
or a view; a released allocation stays in its slot as a `MEM_FREE` record.  Below
the table are the pages of the process, which `mmap`, `mprotect` and `munmap`
change.

Addresses and sizes in the table are naturals: no entry reaches the end of the
address space.  The sizes that a caller passes are machine words.

## Main definitions

* `VirtualMemory`, `HostAnswers`
* `ntAllocateVirtualMemory` — with its two locked sections
  `commitReservation` and `insertAllocation`.
* `ntFreeVirtualMemory`, `ntProtectVirtualMemory`, `ntQueryVirtualMemory`.
* `virtualAlloc`, `virtualFree`, `virtualProtect`, `virtualQuery`,
  `mapViewOfFile`, `unmapViewOfFile`.
-/

namespace TradutorLinux.Runtime

/-! ### Constants -/

def kMemCommit : UInt32 := 0x1000
def kMemReserve : UInt32 := 0x2000
def kMemRelease : UInt32 := 0x8000
def kMemFree : UInt32 := 0x10000
def kMemPrivate : UInt32 := 0x20000
def kMemMapped : UInt32 := 0x40000
def kMemImage : UInt32 := 0x1000000

def kPageNoAccess : UInt32 := 0x01
def kPageReadOnly : UInt32 := 0x02
def kPageReadWrite : UInt32 := 0x04
def kPageWriteCopy : UInt32 := 0x08
def kPageExecute : UInt32 := 0x10
def kPageExecuteRead : UInt32 := 0x20
def kPageExecuteReadWrite : UInt32 := 0x40
def kPageExecuteWriteCopy : UInt32 := 0x80

/-- `is_valid_protect`. -/
def isValidProtect (prot : UInt32) : Bool :=
  [kPageNoAccess, kPageReadOnly, kPageReadWrite, kPageWriteCopy, kPageExecute, kPageExecuteRead,
    kPageExecuteReadWrite, kPageExecuteWriteCopy].contains prot

/-- `prot_to_host`; a writable page is never executable. -/
def protToHost (prot : UInt32) : Prot :=
  if prot = kPageNoAccess then Prot.none
  else if prot = kPageReadOnly then Prot.readOnly
  else if prot = kPageReadWrite ∨ prot = kPageWriteCopy then Prot.readWrite
  else if prot = kPageExecute then ⟨false, false, true⟩
  else if prot = kPageExecuteRead then Prot.readExec
  else Prot.readWrite

/-- `host_to_win_protect` on the first characters of the permissions. -/
def hostToWinProtect (perms : ByteString) : UInt32 :=
  let r := perms[0]? = some 114
  let w := perms[1]? = some 119
  let x := perms[2]? = some 120
  if ¬r ∧ ¬w ∧ ¬x then kPageNoAccess
  else if r ∧ ¬w ∧ ¬x then kPageReadOnly
  else if r ∧ w ∧ ¬x then kPageReadWrite
  else if r ∧ ¬w ∧ x then kPageExecuteRead
  else if r ∧ w ∧ x then kPageExecuteReadWrite
  else if ¬r ∧ x then kPageExecute
  else kPageReadWrite

/-! ### Pages -/

/-- `page_size` is `2 ^ 12`. -/
def kPageBits : ℕ := 12

def pageSize : ℕ := 4096

/-- `align_to_page`. -/
def alignToPage (v : UInt64) : UInt64 := roundUp kPageBits v

/-- `align_down`. -/
def alignDownToPage (p : UInt64) : UInt64 := roundDown kPageBits p

/-- The pages of the process: nothing where none is mapped. -/
abbrev Pages := ℕ → Option Prot

/-- The number of pages that hold `len` bytes from the start of one. -/
def pageCount (len : ℕ) : ℕ := (len + (pageSize - 1)) / pageSize

/-- The pages of `len` bytes from `start`, the beginning of one. -/
def pageSpan (start len : ℕ) : Span := ⟨start / pageSize, pageCount len⟩

namespace Pages

/-- `mmap` of `len` bytes at `start`. -/
def map (pages : Pages) (start len : ℕ) (prot : Prot) : Pages := fun p =>
  if (pageSpan start len).Has p then some prot else pages p

/-- `munmap`. -/
def unmap (pages : Pages) (start len : ℕ) : Pages := fun p =>
  if (pageSpan start len).Has p then none else pages p

/-- The pages of an `mprotect`, in order: it stops at the first that is not
mapped or that the host refuses, and the pages before that one keep the new
protection. -/
def protectFrom (refuse : ℕ → Option Errno) (prot : Prot) : ℕ → ℕ → Pages → Option Errno × Pages
  | 0, _, pages => (none, pages)
  | n + 1, p, pages =>
    match pages p, refuse p with
    | none, _ => (some .enomem, pages)
    | some _, some errno => (some errno, pages)
    | some _, none => protectFrom refuse prot n (p + 1) (Function.update pages p (some prot))

/-- `mprotect`, with the `errno` of a failure. -/
def protect (pages : Pages) (refuse : ℕ → Option Errno) (start len : ℕ) (prot : Prot) :
    Option Errno × Pages :=
  if 2 ^ 64 ≤ start + len then (some .enomem, pages)
  else protectFrom refuse prot (pageCount len) (start / pageSize) pages

/-- `write_guest_memory` finds all of `len` bytes at `address` writable. -/
def guestWritable (pages : Pages) (address len : ℕ) : Bool :=
  address ≠ 0 && (List.range' (address / pageSize) ((address + len - 1) / pageSize + 1 -
    address / pageSize)).all fun p => (pages p).any Prot.write

end Pages

/-! ### The table -/

/-- `AllocationRegion`. -/
structure AllocationRegion where
  offset : ℕ
  size : ℕ
  state : UInt32
  protect : UInt32
deriving DecidableEq, Repr

/-- `AllocationSlot`; `regions` is filled for allocations only. -/
structure AllocationSlot where
  address : ℕ := 0
  size : ℕ := 0
  view : Bool := false
  allocationProtect : UInt32 := 0
  state : UInt32 := 0
  protect : UInt32 := 0
  regions : List AllocationRegion := []
deriving DecidableEq, Repr

/-- `g_allocations`, the pages below it, `guest_virtual_memory_limit_bytes`, and
the last error. -/
structure VirtualMemory where
  slots : List AllocationSlot
  pages : Pages
  limit : ℕ
  lastError : UInt32

/-- The table before the guest runs. -/
def VirtualMemory.initial (pages : Pages) (limit : ℕ) : VirtualMemory :=
  ⟨List.replicate 256 {}, pages, limit, 0⟩

/-- What the host answers in a call: the address of `mmap`, the pages that
`mprotect` refuses, whether `munmap` succeeds, and whether there is memory for a
list of regions. -/
structure HostAnswers where
  mmap : Except Errno ℕ := .error .enomem
  refuse : ℕ → Option Errno := fun _ => none
  unmaps : Bool := true
  regionMemory : Bool := true

namespace AllocationRegion

/-- The bytes of a region, from the start of its allocation. -/
def span (r : AllocationRegion) : Span := ⟨r.offset, r.size⟩

end AllocationRegion

namespace AllocationSlot

/-- A `MEM_FREE` record. -/
def released (s : AllocationSlot) : Bool :=
  !s.view && s.state = kMemFree && s.address ≠ 0

def available (s : AllocationSlot) : Bool :=
  s.address = 0 || (!s.view && s.state = kMemFree)

end AllocationSlot

/-- `contains_range`. -/
def containsRange (slot : AllocationSlot) (address size : ℕ) : Bool :=
  if slot.address = 0 ∨ slot.size = 0 ∨ address = 0 then false
  else if address < slot.address ∨ slot.size < address - slot.address then false
  else size ≤ slot.size - (address - slot.address)

/-- `find_private_allocation_locked`. -/
def findPrivateAllocation (slots : List AllocationSlot) (address size : ℕ) : Option ℕ :=
  slots.findIdx? fun slot => !slot.view && containsRange slot address size

/-- The loop of `guest_memory_limit_exceeded_locked`; nothing when the sum
overflows. -/
def usedMemory : List AllocationSlot → ℕ → Option ℕ
  | [], used => some used
  | slot :: slots, used =>
    if slot.view = true ∨ slot.address = 0 ∨ slot.state = kMemFree then usedMemory slots used
    else if slot.size > 2 ^ 64 - 1 - used then none
    else usedMemory slots (used + slot.size)

/-- `guest_memory_limit_exceeded_locked`. -/
def guestMemoryLimitExceeded (vm : VirtualMemory) (requested : ℕ) : Bool :=
  if vm.limit = 0 then false
  else
    match usedMemory vm.slots 0 with
    | none => true
    | some used => used > vm.limit || requested > vm.limit - used

/-- `find_allocation_region_locked`. -/
def findAllocationRegion (slot : AllocationSlot) (address : ℕ) : Option AllocationRegion :=
  if address < slot.address ∨ slot.size ≤ address - slot.address then none
  else
    let offset := address - slot.address
    slot.regions.find? fun r => r.offset ≤ offset && offset - r.offset < r.size

/-- What `build_allocation_protection` makes of a region for the bytes from
`offset` to `stop`. -/
def splitRegion (offset stop : ℕ) (protection : UInt32) (r : AllocationRegion) :
    List AllocationRegion :=
  let regionEnd := r.offset + r.size
  if regionEnd ≤ offset ∨ stop ≤ r.offset then [r]
  else
    let changedStart := max r.offset offset
    let changedEnd := min regionEnd stop
    (if r.offset < offset then [{ r with size := offset - r.offset }] else []) ++
      [⟨changedStart, changedEnd - changedStart, r.state, protection⟩] ++
      (if changedEnd < regionEnd then
        [{ r with offset := changedEnd, size := regionEnd - changedEnd }] else [])

/-- `build_allocation_protection`; nothing when it returns `false`. -/
def buildAllocationProtection (slot : AllocationSlot) (offset size : ℕ) (protection : UInt32) :
    Option (List AllocationRegion) :=
  if offset > slot.size ∨ size = 0 ∨ size > slot.size - offset then none
  else if slot.regions.any fun r => r.offset > slot.size || r.size > slot.size - r.offset then none
  else if slot.regions.all fun r => r.offset + r.size ≤ offset || offset + size ≤ r.offset then none
  else some (slot.regions.flatMap (splitRegion offset (offset + size) protection))

namespace VirtualMemory

/-- `munmap`, whose failure is ignored. -/
def munmap (vm : VirtualMemory) (host : HostAnswers) (start len : ℕ) : VirtualMemory :=
  if host.unmaps then { vm with pages := vm.pages.unmap start len } else vm

end VirtualMemory

/-! ### `NtAllocateVirtualMemory` -/

/-- The in and out parameters `*BaseAddress` and `*RegionSize`. -/
structure NtRegion where
  base : ℕ
  size : UInt64
deriving DecidableEq, Repr

def kAllowedAlloc : UInt32 :=
  kMemCommit ||| kMemReserve ||| 0x00100000 ||| 0x00080000 ||| 0x00020000

def commits (allocationType : UInt32) : Bool := allocationType &&& kMemCommit ≠ 0

def reserves (allocationType : UInt32) : Bool := allocationType &&& kMemReserve ≠ 0

/-- The checks on the arguments. -/
def allocateAccepts (size : UInt64) (allocationType protect : UInt32) : Bool :=
  size ≠ 0 && allocationType &&& ~~~kAllowedAlloc = 0 &&
    (commits allocationType || reserves allocationType) && isValidProtect protect

/-- The call changes the state of a reservation and maps nothing. -/
def commitsReservation (base : ℕ) (allocationType : UInt32) : Bool :=
  commits allocationType && !reserves allocationType && base ≠ 0

/-- The new state of a reservation that is committed. -/
def AllocationSlot.commit (s : AllocationSlot) (protect : UInt32) : AllocationSlot :=
  { s with
    state := kMemCommit
    protect := protect
    regions :=
      match s.regions with
      | [r] => [{ r with state := kMemCommit, protect := protect }]
      | regions => regions }

/-- The locked section of `MEM_COMMIT` on a reservation. -/
def commitReservation (host : HostAnswers) (base aligned : ℕ) (protect : UInt32)
    (vm : VirtualMemory) : NtStatus × VirtualMemory :=
  match findPrivateAllocation vm.slots base aligned with
  | none => (.invalidParameter, vm)
  | some i =>
    let slot := vm.slots.getD i {}
    if slot.address ≠ base ∨ slot.state ≠ kMemReserve ∨ slot.size ≠ aligned then
      (.invalidParameter, vm)
    else
      match vm.pages.protect host.refuse slot.address slot.size (protToHost protect) with
      | (some errno, pages) =>
        (if errno = .enomem then .noMemory else .invalidParameter, { vm with pages := pages })
      | (none, pages) =>
        (.success, { vm with pages := pages, slots := vm.slots.set i (slot.commit protect) })

/-- A `MEM_FREE` record that the new mapping overlaps. -/
def overlapsReleased (result aligned : ℕ) (slot : AllocationSlot) : Bool :=
  slot.released &&
    ((slot.address ≤ result && result - slot.address < slot.size) ||
      (result ≤ slot.address && slot.address - result < aligned))

def allocationSlot (result aligned : ℕ) (allocationType protect : UInt32) : AllocationSlot :=
  let state := if commits allocationType then kMemCommit else kMemReserve
  let current := if commits allocationType then protect else 0
  { address := result, size := aligned, view := false, allocationProtect := protect
    state := state, protect := current, regions := [⟨0, aligned, state, current⟩] }

/-- The locked section after `mmap`: the limit once more, the records that the
mapping overlaps are dropped, and the first available slot is taken. -/
def insertAllocation (host : HostAnswers) (result aligned : ℕ) (allocationType protect : UInt32)
    (vm : VirtualMemory) : NtStatus × VirtualMemory :=
  if guestMemoryLimitExceeded vm aligned then (.noMemory, vm.munmap host result aligned)
  else
    let slots := vm.slots.map fun s => if overlapsReleased result aligned s then {} else s
    match slots.findIdx? AllocationSlot.available with
    | none => (.noMemory, { vm with slots := slots }.munmap host result aligned)
    | some i =>
      let slot := allocationSlot result aligned allocationType protect
      if host.regionMemory then (.success, { vm with slots := slots.set i slot })
      else
        (.noMemory, { vm with
          slots := slots.set i { slot with address := 0, size := 0, regions := [] } }.munmap
            host result aligned)

/-- `NtAllocateVirtualMemory`.  The address of `mmap` is that of its first call,
with the address asked for, or else of its second, without one. -/
def ntAllocateVirtualMemory (host : HostAnswers) (region : NtRegion)
    (allocationType protect : UInt32) (vm : VirtualMemory) : NtStatus × NtRegion × VirtualMemory :=
  if !allocateAccepts region.size allocationType protect then (.invalidParameter, region, vm)
  else
    let aligned := alignToPage region.size
    if guestMemoryLimitExceeded vm aligned.toNat then (.noMemory, region, vm)
    else if commitsReservation region.base allocationType then
      match commitReservation host region.base aligned.toNat protect vm with
      | (.success, vm) => (.success, { region with size := aligned }, vm)
      | (status, vm) => (status, region, vm)
    else
      match host.mmap with
      | .error _ => (.noMemory, region, vm)
      | .ok result =>
        let prot := if commits allocationType then protToHost protect else Prot.none
        let mapped := { vm with pages := vm.pages.map result aligned.toNat prot }
        match insertAllocation host result aligned.toNat allocationType protect mapped with
        | (.success, vm) => (.success, ⟨result, aligned⟩, vm)
        | (status, vm) => (status, region, vm)

/-! ### `NtFreeVirtualMemory` -/

def AllocationSlot.release (s : AllocationSlot) : AllocationSlot :=
  { s with view := false, allocationProtect := 0, state := kMemFree, protect := 0
           regions := [⟨0, s.size, kMemFree, 0⟩] }

/-- The slot of the allocation at `base`. -/
def findAllocation (slots : List AllocationSlot) (base : ℕ) : Option ℕ :=
  slots.findIdx? fun s => !s.view && s.address = base && s.state ≠ kMemFree

/-- `NtFreeVirtualMemory`; the size that `munmap` gets is that of the slot. -/
def ntFreeVirtualMemory (host : HostAnswers) (region : NtRegion) (freeType : UInt32)
    (vm : VirtualMemory) : NtStatus × VirtualMemory :=
  if region.base = 0 ∨ freeType ≠ kMemRelease ∨ region.size ≠ 0 then (.invalidParameter, vm)
  else
    match findAllocation vm.slots region.base with
    | none => (.memoryNotAllocated, vm)
    | some i =>
      let slot := vm.slots.getD i {}
      (.success,
        { vm.munmap host region.base slot.size with slots := vm.slots.set i slot.release })

/-! ### `NtProtectVirtualMemory` -/

/-- An entry of `/proc/self/maps`: its addresses, what stands where its
permissions do, when the line is long enough, and whether it has a path. -/
structure MapsEntry where
  start : ℕ
  stop : ℕ
  perms : Option ByteString
  hasPath : Bool
deriving DecidableEq, Repr

def findMapsEntry (maps : List MapsEntry) (address : ℕ) : Option MapsEntry :=
  maps.find? fun e => e.start ≤ address && address < e.stop

/-- The status of an `mprotect` that failed. -/
def protectStatus : Errno → NtStatus
  | .enomem => .noMemory
  | .eacces => .accessDenied
  | _ => .invalidParameter

/-- The slot after a change of protection. -/
def AllocationSlot.reprotect (s : AllocationSlot) (regions : List AllocationRegion) :
    AllocationSlot :=
  { s with
    regions := regions
    state := match regions with | [r] => r.state | _ => 0
    protect := match regions with | [r] => r.protect | _ => 0 }

/-- What `NtProtectVirtualMemory` returns: the status, `*OldProtect` and
`*RegionSize`, and the memory. -/
structure NtProtectResult where
  status : NtStatus
  oldProtect : UInt32 := 0
  regionSize : UInt64
  vm : VirtualMemory

/-- The number of bytes that `mprotect` is asked for. -/
def protectSize (base size : UInt64) : UInt64 := alignToPage (size + (base - alignDownToPage base))

/-- The locked section, for a range in an allocation of the table. -/
def protectTracked (host : HostAnswers) (i : ℕ) (start : ℕ) (size alignedSize : UInt64)
    (newProtect : UInt32) (vm : VirtualMemory) : NtProtectResult :=
  let slot := vm.slots.getD i {}
  match findAllocationRegion slot start with
  | none => ⟨.invalidParameter, 0, size, vm⟩
  | some region =>
    if region.state ≠ kMemCommit then ⟨.invalidParameter, 0, size, vm⟩
    else
      match buildAllocationProtection slot (start - slot.address) alignedSize.toNat newProtect with
      | none => ⟨.noMemory, 0, size, vm⟩
      | some updated =>
        if !host.regionMemory then ⟨.noMemory, 0, size, vm⟩
        else
          match vm.pages.protect host.refuse start alignedSize.toNat (protToHost newProtect) with
          | (some errno, pages) => ⟨protectStatus errno, 0, size, { vm with pages := pages }⟩
          | (none, pages) =>
            ⟨.success, region.protect, alignedSize,
              { vm with pages := pages, slots := vm.slots.set i (slot.reprotect updated) }⟩

/-- For a range outside the table the old protection is that of the maps. -/
def protectUntracked (host : HostAnswers) (maps : List MapsEntry) (start : ℕ)
    (size alignedSize : UInt64) (newProtect : UInt32) (vm : VirtualMemory) : NtProtectResult :=
  let old :=
    match (findMapsEntry maps start).bind MapsEntry.perms with
    | some perms => hostToWinProtect perms
    | none => kPageReadWrite
  match vm.pages.protect host.refuse start alignedSize.toNat (protToHost newProtect) with
  | (some errno, pages) => ⟨protectStatus errno, 0, size, { vm with pages := pages }⟩
  | (none, pages) => ⟨.success, old, alignedSize, { vm with pages := pages }⟩

/-- `NtProtectVirtualMemory`, with pointers to `*RegionSize` and `*OldProtect`. -/
def ntProtectVirtualMemory (host : HostAnswers) (maps : List MapsEntry) (base size : UInt64)
    (newProtect : UInt32) (vm : VirtualMemory) : NtProtectResult :=
  if base = 0 ∨ size = 0 ∨ isValidProtect newProtect = false then ⟨.invalidParameter, 0, size, vm⟩
  else
    let start := (alignDownToPage base).toNat
    let alignedSize := protectSize base size
    match findPrivateAllocation vm.slots start alignedSize.toNat with
    | some i => protectTracked host i start size alignedSize newProtect vm
    | none =>
      if vm.slots.any fun s => !s.view && containsRange s base.toNat 1 then
        ⟨.invalidParameter, 0, size, vm⟩
      else protectUntracked host maps start size alignedSize newProtect vm

/-! ### `NtQueryVirtualMemory` -/

/-- `NtMemoryInformation`. -/
structure NtMemoryInformation where
  baseAddress : ℕ
  allocationBase : ℕ
  allocationProtect : UInt32
  regionSize : ℕ
  state : UInt32
  protect : UInt32
  type : UInt32
deriving DecidableEq, Repr

/-- The region of a slot that answers for an offset; the whole slot when it has
none there. -/
def answeringRegion (slot : AllocationSlot) (offset : ℕ) : AllocationRegion :=
  (slot.regions.find? fun r => r.offset ≤ offset && offset - r.offset < r.size).getD
    ⟨0, slot.size, slot.state, slot.protect⟩

def slotInformation (slot : AllocationSlot) (address : ℕ) : NtMemoryInformation :=
  let offset := address - slot.address
  let region := answeringRegion slot offset
  let free := region.state = kMemFree
  { baseAddress := slot.address + region.offset
    allocationBase := if free then 0 else slot.address
    allocationProtect := if free then 0 else slot.allocationProtect
    regionSize := region.size - (offset - region.offset)
    state := region.state
    protect := if region.state = kMemCommit then region.protect else 0
    type := if free then 0 else if slot.view then kMemMapped else kMemPrivate }

def entryInformation (e : MapsEntry) (address : ℕ) : NtMemoryInformation :=
  let prot := hostToWinProtect (e.perms.getD [])
  { baseAddress := e.start
    allocationBase := e.start
    allocationProtect := prot
    regionSize := e.stop - address
    state := kMemCommit
    protect := prot
    type := if e.hasPath then kMemImage else kMemPrivate }

/-- The first slot in the table that holds the address. -/
def findSlot (slots : List AllocationSlot) (address : ℕ) : Option AllocationSlot :=
  slots.find? fun s => s.address ≠ 0 && s.address ≤ address && address < s.address + s.size

/-- `NtQueryVirtualMemory`; `maps` is nothing when `/proc/self/maps` cannot be
opened. -/
def ntQueryVirtualMemory (maps : Option (List MapsEntry)) (address : ℕ) (vm : VirtualMemory) :
    Except NtStatus NtMemoryInformation :=
  if address = 0 then .error .invalidParameter
  else
    match findSlot vm.slots address with
    | some slot => .ok (slotInformation slot address)
    | none =>
      match maps with
      | none => .error .invalidParameter
      | some maps =>
        match findMapsEntry maps address with
        | some e => .ok (entryInformation e address)
        | none => .error .invalidParameter

/-! ### The functions of `KERNEL32` -/

namespace VirtualMemory

def setLastError (vm : VirtualMemory) (error : UInt32) : VirtualMemory :=
  { vm with lastError := error }

@[simp] theorem slots_setLastError (vm : VirtualMemory) (e : UInt32) :
    (vm.setLastError e).slots = vm.slots := rfl

@[simp] theorem pages_setLastError (vm : VirtualMemory) (e : UInt32) :
    (vm.setLastError e).pages = vm.pages := rfl

end VirtualMemory

/-- `tl_VirtualAlloc`; null on failure. -/
def virtualAlloc (host : HostAnswers) (address : ℕ) (size : UInt64)
    (allocationType protect : UInt32) (vm : VirtualMemory) : ℕ × VirtualMemory :=
  match ntAllocateVirtualMemory host ⟨address, size⟩ allocationType protect vm with
  | (.success, region, vm) => (region.base, vm.setLastError kErrorSuccess)
  | (status, _, vm) => (0, vm.setLastError (ntStatusToDosError status))

/-- `tl_VirtualFree`. -/
def virtualFree (host : HostAnswers) (address : ℕ) (size : UInt64) (freeType : UInt32)
    (vm : VirtualMemory) : Bool × VirtualMemory :=
  match ntFreeVirtualMemory host ⟨address, size⟩ freeType vm with
  | (.success, vm) => (true, vm.setLastError kErrorSuccess)
  | (status, vm) => (false, vm.setLastError (ntStatusToDosError status))

/-- `tl_VirtualProtect`; the old protection goes to the address `oldProtection`. -/
def virtualProtect (host : HostAnswers) (maps : List MapsEntry) (address size : UInt64)
    (newProtection : UInt32) (oldProtection : ℕ) (vm : VirtualMemory) : Bool × VirtualMemory :=
  if oldProtection = 0 then (false, vm.setLastError kErrorInvalidParameter)
  else
    let result := ntProtectVirtualMemory host maps address size newProtection vm
    match result.status with
    | .success =>
      if result.vm.pages.guestWritable oldProtection 4 then
        (true, result.vm.setLastError kErrorSuccess)
      else (false, result.vm.setLastError kErrorInvalidParameter)
    | .invalidParameter | .accessDenied => (false, result.vm.setLastError kErrorInvalidAddress)
    | status => (false, result.vm.setLastError (ntStatusToDosError status))

/-- `sizeof(GuestMemoryBasicInformation)`. -/
def memoryBasicInformationSize : ℕ := 48

/-- `tl_VirtualQuery`, with what it writes to the buffer. -/
def virtualQuery (maps : Option (List MapsEntry)) (address buffer length : ℕ)
    (vm : VirtualMemory) : Option NtMemoryInformation × VirtualMemory :=
  if buffer = 0 ∨ length < memoryBasicInformationSize then
    (none, vm.setLastError kErrorInvalidParameter)
  else
    match ntQueryVirtualMemory maps address vm with
    | .error _ => (none, vm.setLastError kErrorInvalidAddress)
    | .ok info =>
      if vm.pages.guestWritable buffer memoryBasicInformationSize then
        (some info, vm.setLastError kErrorSuccess)
      else (none, vm.setLastError kErrorInvalidParameter)

/-- What a file mapping handle stands for. -/
structure FileMapping where
  hasFile : Bool
  size : UInt64
deriving DecidableEq, Repr

def viewSize (mapping : FileMapping) (offset bytes : UInt64) : UInt64 :=
  if bytes > 0 then bytes
  else if mapping.size > offset then mapping.size - offset
  else 4096

def viewWrites (desiredAccess : UInt32) : Bool :=
  desiredAccess &&& 0x0002 ≠ 0 || desiredAccess &&& 0xF0000 ≠ 0

/-- The slot of a new view; the regions of the slot stay as they are. -/
def viewSlot (old : AllocationSlot) (result size : ℕ) (writes : Bool) : AllocationSlot :=
  let protect := if writes then kPageReadWrite else kPageReadOnly
  { old with address := result, size := size, view := true, allocationProtect := protect
             state := kMemCommit, protect := protect }

/-- `tl_MapViewOfFile`; `mapping` is what the handle stands for. -/
def mapViewOfFile (host : HostAnswers) (mapping : Option FileMapping) (desiredAccess : UInt32)
    (offset bytes : UInt64) (vm : VirtualMemory) : ℕ × VirtualMemory :=
  match mapping with
  | none => (0, vm.setLastError kErrorInvalidHandle)
  | some mapping =>
    let writes := viewWrites desiredAccess
    let size := (viewSize mapping offset bytes).toNat
    match host.mmap with
    | .error errno => (0, vm.setLastError (errnoToWin32 errno))
    | .ok result =>
      let prot := if writes then Prot.readWrite else Prot.readOnly
      let mapped := { vm with pages := vm.pages.map result size prot }
      match mapped.slots.findIdx? fun s => s.address = 0 with
      | none =>
        (0, (mapped.munmap host result size).setLastError kErrorNotEnoughMemory)
      | some i =>
        let slot := viewSlot (mapped.slots.getD i {}) result size writes
        (result, { mapped with slots := mapped.slots.set i slot }.setLastError kErrorSuccess)

/-- The slot of the view at `base`. -/
def findView (slots : List AllocationSlot) (base : ℕ) : Option ℕ :=
  slots.findIdx? fun s => s.view && s.address = base && 0 < s.size

/-- `tl_UnmapViewOfFile`; with `unmaps` false the `errno` is that of `ENOMEM`. -/
def unmapViewOfFile (host : HostAnswers) (base : ℕ) (vm : VirtualMemory) : Bool × VirtualMemory :=
  if base = 0 then (false, vm.setLastError kErrorInvalidParameter)
  else
    match findView vm.slots base with
    | none => (false, vm.setLastError kErrorInvalidParameter)
    | some i =>
      let size := (vm.slots.getD i {}).size
      let vm := { vm with slots := vm.slots.set i {} }
      if host.unmaps then
        (true, { vm with pages := vm.pages.unmap base size }.setLastError kErrorSuccess)
      else (false, vm.setLastError (errnoToWin32 .enomem))

end TradutorLinux.Runtime
