import TradutorLinux.Runtime.ErrorMap
import TradutorLinux.Util.Bytes

/-!
# Access control lists

The lists that a guest gives for a file.  `security.cpp` reads one entry by entry
from the memory of the guest, and keeps it as it would write it itself.

## Main definitions

* `Ace` — an entry.
* `makeSid`, `sidLength`, `parseAcl`, `makeAcl`
* `acceptedDacl` — what is kept of a list of the guest.

## Main results

* `acceptedDacl_length` — **what is kept is neither too short to be read nor too long to
  be written.**
-/

namespace TradutorLinux.Security

open List

open TradutorLinux.Runtime (kErrorSuccess kErrorNotEnoughMemory kErrorInvalidParameter)

def kErrorNotSupported : UInt32 := 50

/-! ### SIDs -/

def kSidRevision : UInt8 := 1

/-- `sizeof(GuestSidHeader)`: the revision, the number of sub-authorities and the authority. -/
def sidHeaderSize : ℕ := 8

/-- `make_sid`; the authority has six bytes. -/
def makeSid (authority : ByteString) (subAuthorities : List UInt32) : ByteString :=
  kSidRevision :: .ofNat subAuthorities.length :: authority ++
    subAuthorities.flatMap fun sub => toLE 4 sub.toNat

/-- `sid_length`, of bytes that are there.  What is behind the end does not matter: an entry
whose SID does not fit in it is refused in any case. -/
def sidLength (sid : ByteString) : Option ℕ :=
  if sid.length < sidHeaderSize then none
  else if sid.getD 0 0 ≠ kSidRevision ∨ 15 < sid.getD 1 0 then none
  else some (sidHeaderSize + 4 * (sid.getD 1 0).toNat)

/-! ### Entries -/

def kAclRevision : UInt8 := 2
def kAccessAllowedAceType : UInt8 := 0
def kAccessDeniedAceType : UInt8 := 1
def kMaxAclEntries : ℕ := 256
def aclHeaderSize : ℕ := 8

structure Ace where
  type : UInt8
  flags : UInt8
  mask : UInt32
  sid : ByteString
deriving DecidableEq

/-- `ace_size`. -/
def Ace.size (ace : Ace) : ℕ := 8 + ace.sid.length

def Ace.bytes (ace : Ace) : ByteString :=
  ace.type :: ace.flags :: toLE 2 ace.size ++ toLE 4 ace.mask.toNat ++ ace.sid

/-- `make_acl`; nothing is given back when the list is too long for its header. -/
def makeAcl (aces : List Ace) : ByteString :=
  let total := aclHeaderSize + (aces.map Ace.size).sum
  if 0xFFFF < total ∨ 0xFFFF < aces.length then []
  else kAclRevision :: 0 :: toLE 2 total ++ toLE 2 aces.length ++ [0, 0] ++ aces.flatMap Ace.bytes

/-- The loop of `parse_acl` over the entries that are still to come. -/
def parseAces : ℕ → ByteString → Except UInt32 (List Ace)
  | 0, rest => if rest = [] then .ok [] else .error kErrorInvalidParameter
  | count + 1, rest =>
    if rest.length < 8 then .error kErrorInvalidParameter
    else
      let type := rest.getD 0 0
      let flags := rest.getD 1 0
      let aceSize := ofLE (slice rest 2 2)
      let mask := UInt32.ofNat (ofLE (slice rest 4 4))
      if (type ≠ kAccessAllowedAceType ∧ type ≠ kAccessDeniedAceType) ∨ flags &&& 0xE0 ≠ 0 ∨
          aceSize < 8 ∨ rest.length < aceSize then
        .error kErrorNotSupported
      else match sidLength (rest.drop 8) with
        | none => .error kErrorInvalidParameter
        | some sidSize =>
          if aceSize ≠ 8 + sidSize then .error kErrorInvalidParameter
          else match parseAces count (rest.drop aceSize) with
            | .error code => .error code
            | .ok aces => .ok (⟨type, flags, mask, slice rest 8 sidSize⟩ :: aces)

/-- `parse_acl`, of the bytes that can be read from the pointer on. -/
def parseAcl (acl : ByteString) : Except UInt32 (List Ace) :=
  if acl.length < aclHeaderSize then .error kErrorInvalidParameter
  else
    let aclSize := ofLE (slice acl 2 2)
    let aceCount := ofLE (slice acl 4 2)
    if acl.getD 0 0 ≠ kAclRevision ∨ aclSize < aclHeaderSize ∨ kMaxAclEntries < aceCount then
      .error kErrorInvalidParameter
    else if acl.length < aclSize then .error kErrorInvalidParameter
    else parseAces aceCount ((acl.take aclSize).drop aclHeaderSize)

/-- What `set_dacl_for_key_locked` keeps of a list. -/
def acceptedDacl (acl : ByteString) : Except UInt32 ByteString :=
  match parseAcl acl with
  | .error code => .error code
  | .ok aces => if makeAcl aces = [] then .error kErrorNotEnoughMemory else .ok (makeAcl aces)

/-! ### How long a list is -/

variable {aces : List Ace} {acl dacl rest : ByteString}

theorem length_bytes (a : Ace) : a.bytes.length = a.size := by
  simp [Ace.bytes, Ace.size]
  omega

theorem length_flatMap_bytes (aces : List Ace) :
    (aces.flatMap Ace.bytes).length = (aces.map Ace.size).sum := by
  induction aces with
  | nil => rfl
  | cons a aces ih => rw [flatMap_cons, length_append, length_bytes, ih, map_cons, sum_cons]

theorem length_makeAcl (h : makeAcl aces ≠ []) :
    (makeAcl aces).length = aclHeaderSize + (aces.map Ace.size).sum := by
  dsimp only [makeAcl] at h ⊢
  split at h
  · exact absurd rfl h
  next hf =>
  rw [if_neg hf]
  simp only [length_cons, length_append, length_toLE, length_nil,
    length_flatMap_bytes, aclHeaderSize]

/-- **What is kept of a list has a header, and a length that a word holds.** -/
theorem acceptedDacl_length (h : acceptedDacl acl = .ok dacl) :
    aclHeaderSize ≤ dacl.length ∧ dacl.length ≤ 0xFFFF := by
  unfold acceptedDacl at h
  split at h
  · cases h
  next aces _ =>
  split at h
  · cases h
  next hn =>
  cases h
  rw [length_makeAcl hn]
  refine ⟨Nat.le_add_right _ _, ?_⟩
  dsimp only [makeAcl] at hn
  split at hn
  · exact absurd rfl hn
  · next hf => exact not_lt.1 fun hl => hf (.inl hl)

/-! ### How a list is refused -/

theorem parseAces_error {n : ℕ} {c : UInt32} (h : parseAces n rest = .error c) :
    c = kErrorInvalidParameter ∨ c = kErrorNotSupported := by
  induction n generalizing rest with
  | zero =>
    unfold parseAces at h
    split at h
    · cases h
    · exact .inl (Except.error.inj h).symm
  | succ n ih =>
    simp only [parseAces] at h
    split at h
    · exact .inl (Except.error.inj h).symm
    split at h
    · exact .inr (Except.error.inj h).symm
    split at h
    · exact .inl (Except.error.inj h).symm
    split at h
    · exact .inl (Except.error.inj h).symm
    split at h
    · next hr =>
      obtain rfl := Except.error.inj h
      exact ih hr
    · cases h

/-- A list that is refused has a code of its own. -/
theorem acceptedDacl_error {c : UInt32} (h : acceptedDacl acl = .error c) : c ≠ kErrorSuccess := by
  have ha : kErrorInvalidParameter ≠ kErrorSuccess := by decide
  have hs : kErrorNotSupported ≠ kErrorSuccess := by decide
  unfold acceptedDacl at h
  split at h
  · next c' hp =>
    obtain rfl := Except.error.inj h
    unfold parseAcl at hp
    split at hp
    · exact Except.error.inj hp ▸ ha
    dsimp only at hp
    split at hp
    · exact Except.error.inj hp ▸ ha
    split at hp
    · exact Except.error.inj hp ▸ ha
    · rcases parseAces_error hp with rfl | rfl
      · exact ha
      · exact hs
  · split at h
    · exact Except.error.inj h ▸ (by decide)
    · cases h

end TradutorLinux.Security
