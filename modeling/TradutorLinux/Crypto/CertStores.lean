import Mathlib.Algebra.Order.BigOperators.Group.List
import TradutorLinux.Runtime.ErrorMap
import TradutorLinux.Util.Bytes
import TradutorLinux.Util.RefCounts
import TradutorLinux.Util.Runs

/-!
# Certificate contexts and stores

CRYPT32 keeps the contexts it has copied, each with a reference count, and the
open stores, each with a list of pointers to contexts.  Every call takes the one
mutex, so that a run is a list of calls.  What a caller holds is counted beside
the state.

## Main definitions

* `CryptState` — the contexts and the stores.
* `certDuplicateCertificateContext` to `certCloseStore` — the calls.
* `CertWorld`, `CertWorld.step`
* `CertWorld.CountsRight`, `CertWorld.Counts` — the counts are the references, and
  what a call has to do for it.
* `CertWorld.Orderly` — the calls that do it.

## Main results

* `references_counted`
-/

namespace TradutorLinux
namespace Crypt32

open List Function

open TradutorLinux.Runtime (kErrorSuccess kErrorInvalidHandle kErrorNotEnoughMemory
  kErrorInvalidParameter)

def kErrorNotSupported : UInt32 := 50
def kCryptENotFound : UInt32 := 0x80092004
def kMaxU32 : UInt32 := 0xFFFFFFFF

/-- A context with the certificate that was copied. -/
abbrev TrackedContext := Counted ByteString

structure TrackedStore where
  handle : ℕ
  certs : List ℕ := []
deriving DecidableEq

structure CryptState where
  contexts : List TrackedContext := []
  stores : List TrackedStore := []

/-- What a call returns, a pointer or a flag, and the last error if it sets it. -/
structure CertReply where
  value : ℕ
  lastError : Option UInt32 := none
deriving DecidableEq

/-! ### The calls -/

/-- `tl_CertDuplicateCertificateContext`: `snapshot` is the certificate read from a context that
is not one of the copies, and `fresh` the memory for a new copy, if there is any. -/
def certDuplicateCertificateContext (s : CryptState) (context : ℕ) (snapshot : Option ByteString)
    (fresh : Option ℕ) : CryptState × CertReply :=
  if context = 0 then (s, ⟨0, none⟩)
  else if (Counted.refcountAt s.contexts context).isSome then
    ({ s with contexts := Counted.retain s.contexts context }, ⟨context, none⟩)
  else match snapshot with
    | none => (s, ⟨0, some kErrorInvalidParameter⟩)
    | some encoded =>
      match fresh with
      | none => (s, ⟨0, some kErrorNotEnoughMemory⟩)
      | some address =>
        ({ s with contexts := s.contexts ++ [{ address := address, value := encoded }] },
          ⟨address, none⟩)

/-- `tl_CertFreeCertificateContext`: `readable` tells whether there is a context at all. -/
def certFreeCertificateContext (s : CryptState) (context : ℕ) (readable : Bool) :
    CryptState × CertReply :=
  if context = 0 then (s, ⟨1, none⟩)
  else if (Counted.refcountAt s.contexts context).isSome then
    ({ s with contexts := Counted.release s.contexts context }, ⟨1, none⟩)
  else (s, ⟨if readable then 1 else 0, none⟩)

/-- The provider of a store: a memory store, a system store whose name can be read or not, or
another, whose name can be read or not. -/
inductive StoreProvider
  | null
  | memory
  | system (nameRead : Bool)
  | other (nameRead : Bool)
deriving DecidableEq

def StoreProvider.error : StoreProvider → Option UInt32
  | .null => some kErrorInvalidParameter
  | .memory => none
  | .system nameRead => if nameRead then none else some kErrorInvalidParameter
  | .other nameRead => some (if nameRead then kErrorNotSupported else kErrorInvalidParameter)

/-- `tl_CertOpenStore`. -/
def certOpenStore (s : CryptState) (provider : StoreProvider) (fresh : Option ℕ) :
    CryptState × CertReply :=
  match provider.error with
  | some error => (s, ⟨0, some error⟩)
  | none =>
    match fresh with
    | none => (s, ⟨0, some kErrorNotEnoughMemory⟩)
    | some handle =>
      ({ s with stores := s.stores ++ [{ handle := handle }] }, ⟨handle, some kErrorSuccess⟩)

def CryptState.store? (s : CryptState) (handle : ℕ) : Option TrackedStore :=
  s.stores.find? fun store => decide (store.handle = handle)

/-- `tl_CertCloseStore`: every context of the list loses a reference. -/
def certCloseStore (s : CryptState) (handle : ℕ) : CryptState × CertReply :=
  if handle = 0 then (s, ⟨0, some kErrorInvalidHandle⟩)
  else match s.store? handle with
    | none => (s, ⟨0, some kErrorInvalidHandle⟩)
    | some store =>
      ({ contexts := store.certs.foldl Counted.release s.contexts
         stores := s.stores.eraseP fun store => decide (store.handle = handle) },
        ⟨1, some kErrorSuccess⟩)

/-- The context handed out gets a reference, if it is one of the copies. -/
def handOut (s : CryptState) (context : ℕ) : Option (CryptState × CertReply) :=
  if (Counted.refcountAt s.contexts context).isSome then
    some ({ s with contexts := Counted.retain s.contexts context },
      ⟨context, some kErrorSuccess⟩)
  else none

/-- The context that was handed out last gives its reference back. -/
def takeBack (s : CryptState) (prev : ℕ) : CryptState :=
  { s with contexts := Counted.release s.contexts prev }

def placeAfter (certs : List ℕ) (prev : ℕ) : Option ℕ := (certs.idxOf? prev).map (· + 1)

/-- `tl_CertEnumCertificatesInStore`. -/
def certEnumCertificatesInStore (s : CryptState) (handle prev : ℕ) : CryptState × CertReply :=
  if handle = 0 then (s, ⟨0, some kErrorInvalidHandle⟩)
  else match s.store? handle with
    | none => (s, ⟨0, some kErrorInvalidHandle⟩)
    | some store =>
      let s' := if prev = 0 then s else takeBack s prev
      let next := if prev = 0 then some 0 else placeAfter store.certs prev
      match (next.bind (store.certs[·]?)).bind (handOut s') with
      | none => (s', ⟨0, some kCryptENotFound⟩)
      | some answer => answer

/-- What a pointer argument of a search leads to. -/
inductive FindPara (α : Type)
  | null
  | unreadable
  | value (a : α)
deriving DecidableEq

/-- What `tl_CertFindCertificateInStore` looks for: any certificate, one with a SHA-1 hash, one
whose subject contains a name, or nothing it knows. -/
inductive CertFind
  | any
  | sha1Hash (para : FindPara ByteString)
  | subjectStr (para : FindPara (List UInt16))
  | unsupported
deriving DecidableEq

/-- The hash or the name cannot be used. -/
def CertFind.malformed : CertFind → Bool
  | .sha1Hash .unreadable => true
  | .sha1Hash (.value hash) => decide (hash.length ≠ 20)
  | .subjectStr .unreadable => true
  | _ => false

/-- How certificates are looked at: the hash and the name of their subject, and the certificate
of a context that is not one of the copies. -/
structure CertReader where
  computeSha1 : ByteString → ByteString
  subjectName : ByteString → Option (List UInt16)
  memory : ℕ → ByteString

def CertReader.encoded (r : CertReader) (s : CryptState) (context : ℕ) : ByteString :=
  match s.contexts.find? fun c => decide (c.address = context) with
  | some c => c.value
  | none => r.memory context

/-- Whether a certificate is looked for. -/
def CertFind.matches (r : CertReader) (encoded : ByteString) : CertFind → Bool
  | .any => true
  | .sha1Hash (.value hash) => decide (r.computeSha1 encoded = hash)
  | .subjectStr (.value target) => (r.subjectName encoded).any fun name => decide (target <:+: name)
  | _ => false

/-- `tl_CertFindCertificateInStore`. -/
def certFindCertificateInStore (r : CertReader) (s : CryptState) (handle : ℕ) (find : CertFind)
    (prev : ℕ) : CryptState × CertReply :=
  if handle = 0 then (s, ⟨0, some kErrorInvalidHandle⟩)
  else if find.malformed then (s, ⟨0, some kErrorInvalidParameter⟩)
  else match s.store? handle with
    | none => (s, ⟨0, some kErrorInvalidHandle⟩)
    | some store =>
      let s' := if prev = 0 then s else takeBack s prev
      let start := if prev = 0 then 0 else (placeAfter store.certs prev).getD 0
      let found := (store.certs.drop start).findSome? fun candidate =>
        if find.matches r (r.encoded s' candidate) then handOut s' candidate else none
      match found with
      | none => (s', ⟨0, some kCryptENotFound⟩)
      | some answer => answer

/-- The lists with a context added to that of the first store with the handle. -/
def addCert : List TrackedStore → ℕ → ℕ → List TrackedStore
  | [], _, _ => []
  | store :: rest, handle, context =>
    if store.handle = handle then { store with certs := store.certs ++ [context] } :: rest
    else store :: addCert rest handle context

/-- `tl_CertAddCertificateContextToStore`: `storeContext` tells whether the output can be
written, if one is asked for. -/
def certAddCertificateContextToStore (s : CryptState) (handle context : ℕ)
    (storeContext : Option Bool) : CryptState × CertReply :=
  if handle = 0 ∨ context = 0 then (s, ⟨0, some kErrorInvalidParameter⟩)
  else match s.store? handle with
    | none => (s, ⟨0, some kErrorInvalidHandle⟩)
    | some _ =>
      let s' := { s with stores := addCert s.stores handle context }
      if storeContext = some false then (s', ⟨0, some kErrorInvalidParameter⟩)
      else (s', ⟨1, some kErrorSuccess⟩)

/-! ### Runs -/

inductive CertCall
  | duplicate (context : ℕ) (snapshot : Option ByteString) (fresh : Option ℕ)
  | free (context : ℕ) (readable : Bool)
  | openStore (provider : StoreProvider) (fresh : Option ℕ)
  | addToStore (handle context : ℕ) (storeContext : Option Bool)
  | enumerate (handle prev : ℕ)
  | find (r : CertReader) (handle : ℕ) (find : CertFind) (prev : ℕ)
  | closeStore (handle : ℕ)

/-- The state, and the references the caller has been given and has not given back. -/
structure CertWorld where
  state : CryptState := {}
  held : ℕ → ℕ := fun _ => 0

section Runs

-- `own`: the addresses of the caller's own contexts
variable (own : ℕ → Bool)

/-- Memory the allocator can give: it is not in use. -/
def CryptState.Vacant (s : CryptState) (address : ℕ) : Prop :=
  address ≠ 0 ∧ own address = false ∧ Counted.refcountAt s.contexts address = none ∧
    s.store? address = none

instance (s : CryptState) (address : ℕ) : Decidable (s.Vacant own address) :=
  inferInstanceAs (Decidable (_ ∧ _))

namespace CertWorld

/-- A context the caller may pass: none, its own, or one it holds a reference to. -/
def May (w : CertWorld) (context : ℕ) : Prop :=
  context = 0 ∨ own context = true ∨ 0 < w.held context

instance (w : CertWorld) (context : ℕ) : Decidable (w.May own context) :=
  inferInstanceAs (Decidable (_ ∨ _))

/-- The caller is given a reference, except to nothing and to what is its own. -/
def give (w : CertWorld) (context : ℕ) : ℕ → ℕ :=
  if context = 0 ∨ own context = true then w.held
  else update w.held context (w.held context + 1)

def giveBack (w : CertWorld) (context : ℕ) : CertWorld :=
  { w with held := update w.held context (w.held context - 1) }

/-- What the allocator and a caller that gives back only what it was given can do. -/
def Legal (w : CertWorld) : CertCall → Prop
  | .duplicate _ _ fresh => ∀ a ∈ fresh, w.state.Vacant own a
  | .free context _ => w.May own context
  | .openStore _ fresh => ∀ a ∈ fresh, w.state.Vacant own a
  | .addToStore _ context _ => w.May own context
  | .enumerate _ prev => w.May own prev
  | .find _ _ _ prev => w.May own prev
  | .closeStore _ => True

instance (w : CertWorld) (c : CertCall) : Decidable (w.Legal own c) := by
  cases c <;> unfold Legal <;> infer_instance

def reply (w : CertWorld) : CertCall → CryptState × CertReply
  | .duplicate context snapshot fresh =>
    certDuplicateCertificateContext w.state context snapshot fresh
  | .free context readable => certFreeCertificateContext w.state context readable
  | .openStore provider fresh => certOpenStore w.state provider fresh
  | .addToStore handle context storeContext =>
    certAddCertificateContextToStore w.state handle context storeContext
  | .enumerate handle prev => certEnumCertificatesInStore w.state handle prev
  | .find r handle find prev => certFindCertificateInStore r w.state handle find prev
  | .closeStore handle => certCloseStore w.state handle

/-- What the caller holds after a call that returned `value`: a search that has come to the list
of an open store takes the reference of the context before. -/
def heldAfter (w : CertWorld) (value : ℕ) : CertCall → ℕ → ℕ
  | .duplicate _ _ _ => w.give own value
  | .free context _ => (w.giveBack context).held
  | .openStore _ _ => w.held
  | .addToStore _ context storeContext =>
    if value = 1 ∧ storeContext.isSome then w.give own context else w.held
  | .enumerate handle prev =>
    if (w.state.store? handle).isSome ∧ handle ≠ 0 then (w.giveBack prev).give own value else w.held
  | .find _ handle find prev =>
    if (w.state.store? handle).isSome ∧ handle ≠ 0 ∧ find.malformed = false then
      (w.giveBack prev).give own value
    else w.held
  | .closeStore _ => w.held

/-- A call of a caller that gives back only what it was given. -/
def step (w : CertWorld) (c : CertCall) : Option CertWorld :=
  if w.Legal own c then
    some { state := (w.reply c).1, held := w.heldAfter own (w.reply c).2.value c }
  else none

/-! ### Counts and references -/

/-- The references to a context: those of the caller, and the places in the open stores. -/
def references (w : CertWorld) (a : ℕ) : ℕ :=
  w.held a + (w.state.stores.map fun store => store.certs.count a).sum

/-- **The count of every copied context is the number of references to it, which is not zero,
and every reference that is not to a context of the caller is to one that is there.** -/
structure CountsRight (w : CertWorld) : Prop where
  counted : ∀ a n, Counted.refcountAt w.state.contexts a = some n →
    n.toNat = w.references a ∧ 0 < w.references a
  live : ∀ a, own a = false → 0 < w.references a →
    (Counted.refcountAt w.state.contexts a).isSome = true

/-- What a call has to do: the counts are right afterwards, and an add that fails leaves the
lists alone. -/
def Counts (w : CertWorld) (c : CertCall) (w' : CertWorld) : Prop :=
  w'.CountsRight own ∧ ∀ handle context storeContext, c = .addToStore handle context storeContext →
    (w.reply c).2.value = 0 → w'.state.stores = w.state.stores

/-- No context gets its 2^32nd reference, and what is added to an open store is a context of the
caller, with an output that can be written if one is asked for. -/
def Orderly (w : CertWorld) : CertCall → Prop
  | .duplicate context _ _ => Counted.refcountAt w.state.contexts context ≠ some kMaxU32
  | .addToStore handle context storeContext =>
    handle ≠ 0 → context ≠ 0 → (w.state.store? handle).isSome = true →
      own context = true ∧ storeContext ≠ some false
  | _ => True

/-- What holds in a run of orderly calls: the stores list contexts of the caller, and the caller
holds all references to the copies. -/
structure Kept (w : CertWorld) : Prop where
  listed : ∀ store ∈ w.state.stores, ∀ a ∈ store.certs, own a = true
  nodup : (Counted.addresses w.state.contexts).Nodup
  host : ∀ a n, Counted.refcountAt w.state.contexts a = some n → own a = false ∧ a ≠ 0
  count : ∀ a, own a = false →
    ((Counted.refcountAt w.state.contexts a).map UInt32.toNat).getD 0 = w.held a
  positive : ∀ a, Counted.refcountAt w.state.contexts a ≠ some 0

variable {own} {w : CertWorld} {a : ℕ} {n : UInt32}

theorem references_of_listed (h : w.Kept own) (ha : own a = false) : w.references a = w.held a := by
  have hz : ∀ k ∈ w.state.stores.map fun s => s.certs.count a, k = 0 := by
    intro k hk
    obtain ⟨s, hs, rfl⟩ := mem_map.1 hk
    rw [count_eq_zero]
    intro hm
    rw [h.listed s hs a hm] at ha
    cases ha
  unfold references
  rw [sum_eq_zero hz, add_zero]

theorem Kept.countsRight (h : w.Kept own) : w.CountsRight own where
  counted a n hn := by
    have ha := (h.host a n hn).1
    have hc := h.count a ha
    have hpos := h.positive a
    rw [hn] at hc hpos
    rw [references_of_listed h ha, ← hc]
    refine ⟨rfl, pos_of_ne_zero fun hz => hpos ?_⟩
    rw [show n = 0 from UInt32.toNat_inj.1 hz]
  live a ha hpos := by
    have hc := h.count a ha
    rw [references_of_listed h ha] at hpos
    cases hn : Counted.refcountAt w.state.contexts a with
    | none =>
      rw [hn] at hc
      simp at hc
      omega
    | some n => rfl

theorem toNat_add_one (hn : n ≠ kMaxU32) : (n + 1).toNat = n.toNat + 1 := by
  have hl := n.toNat_lt
  have he : n.toNat ≠ 2 ^ 32 - 1 := fun h => hn (UInt32.toNat_inj.1 h)
  exact Nat.mod_eq_of_lt (by simp; omega)

theorem toNat_sub_one (hn : n ≠ 0) : (n - 1).toNat = n.toNat - 1 := by
  have hp : 1 ≤ n.toNat := pos_of_ne_zero fun h => hn (UInt32.toNat_inj.1 h)
  exact UInt32.toNat_sub_of_le n 1 (UInt32.le_iff_toNat_le.2 hp)

/-- A reference to a copy is given. -/
theorem Kept.retain (h : w.Kept own) (hn : Counted.refcountAt w.state.contexts a = some n)
    (hx : n ≠ kMaxU32) :
    ({ state := { w.state with contexts := Counted.retain w.state.contexts a }
       held := w.give own a } : CertWorld).Kept own := by
  obtain ⟨ha, hu⟩ := h.host a n hn
  have hg : w.give own a = update w.held a (w.held a + 1) := by
    unfold give
    rw [if_neg (by simp [ha, hu])]
  refine ⟨h.listed, ?_, fun b m hm => ?_, fun b hb => ?_, fun b => ?_⟩
  · rw [Counted.addresses_retain]
    exact h.nodup
  · rw [Counted.refcountAt_retain] at hm
    split at hm
    · next hab => exact hab ▸ ⟨ha, hu⟩
    · exact h.host b m hm
  · dsimp only
    rw [Counted.refcountAt_retain, hg]
    by_cases hab : a = b
    · subst hab
      have hc := h.count a ha
      rw [hn] at hc
      rw [if_pos rfl, hn, update_self, ← hc]
      exact toNat_add_one hx
    · rw [if_neg hab, update_of_ne (Ne.symm hab)]
      exact h.count b hb
  · rw [Counted.refcountAt_retain]
    split
    · rw [hn, Option.map_some]
      intro hz
      have := congrArg UInt32.toNat (Option.some.inj hz)
      rw [toNat_add_one hx] at this
      simp at this
    · exact h.positive b

/-- A reference is given back; what the caller has no reference to is no copy. -/
theorem Kept.release (h : w.Kept own) :
    ({ state := { w.state with contexts := Counted.release w.state.contexts a }
       held := (w.giveBack a).held } : CertWorld).Kept own := by
  refine ⟨h.listed, h.nodup.sublist Counted.addresses_release_sublist, fun b m hm => ?_,
    fun b hb => ?_, fun b => ?_⟩
  · rw [Counted.refcountAt_release h.nodup] at hm
    split at hm
    · next ha =>
      obtain ⟨n, hn, -⟩ := Option.bind_eq_some_iff.1 hm
      exact ha ▸ h.host a n hn
    · exact h.host b m hm
  · dsimp only [giveBack]
    rw [Counted.refcountAt_release h.nodup]
    by_cases ha : a = b
    · subst ha
      have hc := h.count a hb
      rw [if_pos rfl, update_self, ← hc]
      cases hn : Counted.refcountAt w.state.contexts a with
      | none => rfl
      | some n =>
        have he : n ≠ 0 := fun h0 => h.positive a (h0 ▸ hn)
        rw [Option.bind_some, Option.map_some, Option.getD_some, ← toNat_sub_one he]
        split
        · next hz => rw [hz]; rfl
        · rfl
    · rw [if_neg ha, update_of_ne (Ne.symm ha)]
      exact h.count b hb
  · rw [Counted.refcountAt_release h.nodup]
    split
    · intro hz
      obtain ⟨n, -, hn⟩ := Option.bind_eq_some_iff.1 hz
      split at hn
      · cases hn
      · next he => exact he (Option.some.inj hn)
    · exact h.positive b

/-- A new copy, to which the caller has the one reference. -/
theorem Kept.append (h : w.Kept own) (hf : w.state.Vacant own a) (e : ByteString) :
    ({ state := { w.state with contexts := w.state.contexts ++ [{ address := a, value := e }] }
       held := w.give own a } : CertWorld).Kept own := by
  obtain ⟨hu, ha, hn, -⟩ := hf
  have hg : w.give own a = update w.held a (w.held a + 1) := by
    unfold give
    rw [if_neg (by simp [ha, hu])]
  have ht : ∀ b, Counted.refcountAt (w.state.contexts ++ [{ address := a, value := e }]) b =
      if a = b then some 1 else Counted.refcountAt w.state.contexts b :=
    fun b => Counted.refcountAt_append _ hn
  refine ⟨h.listed, ?_, fun b m hm => ?_, fun b hb => ?_, fun b => ?_⟩
  · have hnot := Counted.refcountAt_eq_none_iff.1 hn
    unfold Counted.addresses at hnot ⊢
    rw [map_append]
    exact List.Nodup.append h.nodup (nodup_singleton a) (by simpa [disjoint_singleton] using hnot)
  · rw [ht] at hm
    split at hm
    · next hab => exact hab ▸ ⟨ha, hu⟩
    · exact h.host b m hm
  · dsimp only
    rw [ht, hg]
    by_cases hab : a = b
    · subst hab
      have hc := h.count a ha
      rw [hn] at hc
      rw [if_pos rfl, update_self, ← hc]
      rfl
    · rw [if_neg hab, update_of_ne (Ne.symm hab)]
      exact h.count b hb
  · rw [ht]
    split
    · decide
    · exact h.positive b

@[simp] theorem give_zero : w.give own 0 = w.held := if_pos (.inl rfl)

theorem Kept.refcountAt_zero (h : w.Kept own) : Counted.refcountAt w.state.contexts 0 = none := by
  cases hn : Counted.refcountAt w.state.contexts 0 with
  | none => rfl
  | some n => exact absurd rfl (h.host 0 n hn).2

theorem Kept.refcountAt_own (h : w.Kept own) (ha : own a) :
    Counted.refcountAt w.state.contexts a = none := by
  cases hn : Counted.refcountAt w.state.contexts a with
  | none => rfl
  | some n =>
    rw [(h.host a n hn).1] at ha
    cases ha

variable {stores ss : List TrackedStore}

theorem Kept.withStores (h : w.Kept own) (hl : ∀ s ∈ ss, ∀ a ∈ s.certs, own a) :
    ({ state := { w.state with stores := ss }, held := w.held } : CertWorld).Kept own :=
  { h with listed := hl }

theorem Kept.ifTakeBack (h : w.Kept own) :
    (if a = 0 then w.state else takeBack w.state a) = takeBack w.state a := by
  split
  · next hz =>
    unfold takeBack
    rw [hz, Counted.release_of_none h.refcountAt_zero]
  · rfl

theorem Kept.handOut_eq_none (h : w.Kept own) {s : TrackedStore} {han : ℕ}
    (hs : w.state.store? han = some s) {c : ℕ}
    (hm : c ∈ s.certs) : handOut (takeBack w.state a) c = none := by
  have ho := h.listed s (mem_of_find?_eq_some hs) c hm
  unfold handOut takeBack
  rw [if_neg]
  rw [Counted.refcountAt_release h.nodup, h.refcountAt_own ho]
  split
  · next heq =>
    rw [heq, h.refcountAt_own ho]
    exact Bool.false_ne_true
  · exact Bool.false_ne_true

variable {handle han context ct co : ℕ}

theorem mem_addCert {s : TrackedStore} (h : s ∈ addCert ss han co) :
    s ∈ ss ∨ ∃ o ∈ ss, s.certs = o.certs ++ [co] := by
  induction ss with
  | nil => cases h
  | cons f r ih =>
    rw [addCert] at h
    split at h
    · rcases mem_cons.1 h with rfl | h
      · exact .inr ⟨f, mem_cons_self, rfl⟩
      · exact .inl (mem_cons_of_mem _ h)
    · rcases mem_cons.1 h with rfl | h
      · exact .inl mem_cons_self
      · rcases ih h with h | ⟨o, ho, heq⟩
        · exact .inl (mem_cons_of_mem _ h)
        · exact .inr ⟨o, mem_cons_of_mem _ ho, heq⟩

variable {f : Option ℕ}

theorem Kept.duplicate (h : w.Kept own) {co : ℕ} {s : Option ByteString}
    (hl : w.Legal own (.duplicate co s f)) (ho : w.Orderly own (.duplicate co s f)) :
    ({ state := (certDuplicateCertificateContext w.state co s f).1
       held := w.give own
         (certDuplicateCertificateContext w.state co s f).2.value } :
      CertWorld).Kept own := by
  unfold certDuplicateCertificateContext
  split
  · simpa using h
  split
  · next ht =>
    obtain ⟨n, hn⟩ := Option.isSome_iff_exists.1 ht
    exact h.retain hn fun hm => ho (hm ▸ hn)
  cases s with
  | none => simpa using h
  | some e =>
    cases f with
    | none => simpa using h
    | some ad => exact h.append (hl ad rfl) e

theorem Kept.free (h : w.Kept own) {context : ℕ} {r : Bool} :
    ({ state := (certFreeCertificateContext w.state context r).1
       held := (w.giveBack context).held } : CertWorld).Kept own := by
  have hs : (certFreeCertificateContext w.state context r).1 = takeBack w.state context := by
    unfold certFreeCertificateContext
    split
    · next hz => rw [hz, takeBack, Counted.release_of_none h.refcountAt_zero]
    split
    · rfl
    · next hnot => rw [takeBack, Counted.release_of_none (Option.not_isSome_iff_eq_none.1 hnot)]
  rw [hs]
  exact h.release

theorem Kept.closeStore (h : w.Kept own) {han : ℕ} :
    ({ state := (certCloseStore w.state han).1, held := w.held } : CertWorld).Kept own := by
  unfold certCloseStore
  split
  · exact h
  cases hs : w.state.store? han with
  | none => exact h
  | some s =>
    have ha : s.certs.foldl Counted.release w.state.contexts = w.state.contexts := by
      have ho := h.listed s (mem_of_find?_eq_some hs)
      generalize s.certs = cs at ho
      induction cs with
      | nil => rfl
      | cons a cs ih =>
        rw [foldl_cons, Counted.release_of_none (h.refcountAt_own (ho a mem_cons_self))]
        exact ih fun b hb => ho b (mem_cons_of_mem _ hb)
    dsimp only
    rw [ha]
    exact h.withStores fun s hm => h.listed s (mem_of_mem_eraseP hm)

theorem Kept.openStore (h : w.Kept own) {p : StoreProvider} :
    ({ state := (certOpenStore w.state p f).1, held := w.held } : CertWorld).Kept own := by
  unfold certOpenStore
  cases p.error with
  | some e => exact h
  | none =>
    cases f with
    | none => exact h
    | some han =>
      refine h.withStores fun s hm a ha => ?_
      rcases mem_append.1 hm with hm | hm
      · exact h.listed s hm a ha
      · obtain rfl := mem_singleton.1 hm
        cases ha

variable {storeContext str sc : Option Bool}

theorem Kept.addToStore (h : w.Kept own) (hk : w.Orderly own (.addToStore han co sc)) :
    ({ state := (certAddCertificateContextToStore w.state han co sc).1
       held := w.heldAfter own
         (certAddCertificateContextToStore w.state han co sc).2.value
         (.addToStore han co sc) } : CertWorld).Kept own := by
  unfold certAddCertificateContextToStore
  split
  · exact h
  next hn =>
  push Not at hn
  cases hs : w.state.store? han with
  | none => exact h
  | some s =>
    obtain ⟨hw, hr⟩ := hk hn.1 hn.2 (by rw [hs]; rfl)
    rw [if_neg hr]
    have hg : w.give own co = w.held := if_pos (.inr hw)
    have hl : ∀ s ∈ addCert w.state.stores han co, ∀ a ∈ s.certs, own a := by
      intro s hm a ha
      rcases mem_addCert hm with hm | ⟨o, ho, heq⟩
      · exact h.listed s hm a ha
      · rw [heq] at ha
        rcases mem_append.1 ha with ha | ha
        · exact h.listed o ho a ha
        · rwa [mem_singleton.1 ha]
    simpa only [heldAfter, hg, ite_self] using h.withStores hl

theorem Kept.enumerate (h : w.Kept own) {han p : ℕ} :
    ({ state := (certEnumCertificatesInStore w.state han p).1
       held := w.heldAfter own (certEnumCertificatesInStore w.state han p).2.value
         (.enumerate han p) } : CertWorld).Kept own := by
  unfold certEnumCertificatesInStore heldAfter
  split
  · next hz => simpa [hz] using h
  next hn =>
  cases hs : w.state.store? han with
  | none => simpa [hs] using h
  | some s =>
    dsimp only
    rw [h.ifTakeBack]
    have ho : (((if p = 0 then some 0 else placeAfter s.certs p).bind
        (s.certs[·]?)).bind (handOut (takeBack w.state p))) = none := by
      rw [Option.bind_eq_none_iff]
      intro c hc
      obtain ⟨i, -, hi⟩ := Option.bind_eq_some_iff.1 hc
      exact h.handOut_eq_none hs (mem_of_getElem? hi)
    rw [ho]
    simpa [hn, hs, takeBack] using h.release (a := p)

theorem Kept.find (h : w.Kept own) {r : CertReader} {han p : ℕ} {f : CertFind} :
    ({ state := (certFindCertificateInStore r w.state han f p).1
       held := w.heldAfter own (certFindCertificateInStore r w.state han f p).2.value
         (.find r han f p) } : CertWorld).Kept own := by
  unfold certFindCertificateInStore heldAfter
  split
  · next hz => simpa [hz] using h
  next hn =>
  split
  · next hm => simpa [hm] using h
  next hf =>
  cases hs : w.state.store? han with
  | none => simpa [hs] using h
  | some s =>
    dsimp only
    rw [h.ifTakeBack]
    have ho : ((s.certs.drop (if p = 0 then 0 else
        (placeAfter s.certs p).getD 0)).findSome? fun c =>
          if f.matches r (r.encoded (takeBack w.state p) c) then
            handOut (takeBack w.state p) c else none) = none := by
      rw [findSome?_eq_none_iff]
      intro c hc
      rw [h.handOut_eq_none hs (mem_of_mem_drop hc), ite_self]
    rw [ho]
    simpa [hn, hf, hs, takeBack] using h.release (a := p)

variable {w' : CertWorld}

/-- **An orderly call keeps what holds.** -/
theorem Kept.step (h : w.Kept own) {c : CertCall} (ho : w.Orderly own c)
    (hs : w.step own c = some w') : w'.Kept own := by
  unfold CertWorld.step at hs
  split at hs
  case isFalse => cases hs
  case isTrue hl =>
    cases hs
    cases c with
    | duplicate co s f => exact h.duplicate hl ho
    | free co re => exact h.free
    | openStore pr f => exact h.openStore
    | addToStore han co sc => exact h.addToStore ho
    | enumerate han p => exact h.enumerate
    | find r han find p => exact h.find
    | closeStore han => exact h.closeStore

theorem exists_mem_addCert (h : (ss.find? fun s => decide (s.handle = han)).isSome) :
    ∃ s ∈ addCert ss han co, co ∈ s.certs := by
  induction ss with
  | nil => cases h
  | cons f r ih =>
    rw [addCert]
    split
    · exact ⟨_, mem_cons_self, mem_append_right _ (mem_singleton_self co)⟩
    · next hn =>
      rw [find?_cons_of_neg (by simpa using hn)] at h
      obtain ⟨s, hm, hc⟩ := ih h
      exact ⟨s, mem_cons_of_mem _ hm, hc⟩

theorem addCert_ne (h : (stores.find? fun s => decide (s.handle = handle)).isSome) :
    addCert stores handle ct ≠ stores := by
  induction stores with
  | nil => cases h
  | cons f r ih =>
    rw [addCert]
    split
    · intro heq
      have hc := congrArg TrackedStore.certs (List.cons.inj heq).1
      have hl := congrArg List.length hc
      simp at hl
    · next hn =>
      rw [find?_cons_of_neg (by simpa using hn)] at h
      exact fun heq => ih h (List.cons.inj heq).2

theorem not_countsRight_addCert (h : w.Kept own) (ha : own a = false) (hh : 0 < w.held a)
    {han : ℕ} (hs : (w.state.store? han).isSome) {held : ℕ → ℕ} (hl : w.held a ≤ held a) :
    ¬({ state := { w.state with stores := addCert w.state.stores han a }, held := held } :
      CertWorld).CountsRight own := by
  intro hr
  have hc := h.count a ha
  cases hn : Counted.refcountAt w.state.contexts a with
  | none =>
    rw [hn] at hc
    simp at hc
    omega
  | some n =>
    rw [hn] at hc
    obtain ⟨hsa, -⟩ := hr.counted a n hn
    obtain ⟨s, hm, ho⟩ := @exists_mem_addCert _ han a hs
    have he : 0 < s.certs.count a := count_pos_iff.2 ho
    have hu : s.certs.count a ≤
        ((addCert w.state.stores han a).map fun s => s.certs.count a).sum :=
      le_sum_of_mem (mem_map_of_mem hm)
    dsimp only [references] at hsa
    simp at hc
    omega

theorem le_heldAfter_addToStore {han v : ℕ} :
    w.held a ≤ w.heldAfter own v (.addToStore han a sc) a := by
  simp only [heldAfter]
  split
  · unfold give
    split
    · exact le_rfl
    · rw [update_self]
      exact Nat.le_succ _
  · exact le_rfl

theorem reply_addToStore (hh : han ≠ 0) (hc : co ≠ 0) (ho : (w.state.store? han).isSome) :
    w.reply (.addToStore han co sc) = ({ w.state with stores := addCert w.state.stores han co },
        if sc = some false then ⟨0, some kErrorInvalidParameter⟩
        else ⟨1, some kErrorSuccess⟩) := by
  obtain ⟨s, hs⟩ := Option.isSome_iff_exists.1 ho
  simp only [reply, certAddCertificateContextToStore, hh, hc, or_self, if_false, hs]
  split <;> rfl

/-- The count of a copy with 2^32 - 1 references would be zero. -/
theorem Kept.orderly_duplicate (h : w.Kept own) {co : ℕ} {s : Option ByteString} {held : ℕ → ℕ}
    (hr : ({ state := (w.reply (.duplicate co s f)).1, held := held } :
      CertWorld).CountsRight own) : w.Orderly own (.duplicate co s f) := by
  intro hm
  have hn : co ≠ 0 := by
    rintro rfl
    rw [h.refcountAt_zero] at hm
    cases hm
  obtain ⟨ha, hp⟩ := hr.counted co (kMaxU32 + 1) (by
    simp only [reply, certDuplicateCertificateContext, if_neg hn, hm, Option.isSome_some,
      if_true, Counted.refcountAt_retain, Option.map_some])
  rw [← ha] at hp
  exact absurd hp (by decide)

theorem Kept.orderly_addToStore (h : w.Kept own) (hm : w.May own context)
    (hs : w.step own (.addToStore handle context storeContext) = some w')
    (hu : w.Counts own (.addToStore handle context storeContext) w') :
    w.Orderly own (.addToStore handle context storeContext) := by
  intro hha hc ho
  obtain ⟨hr, hi⟩ := hu
  unfold CertWorld.step at hs
  rw [if_pos (show w.Legal own (.addToStore handle context storeContext) from hm)] at hs
  cases hs
  have he := @reply_addToStore w handle context storeContext hha hc ho
  have ht := congrArg Prod.fst he
  refine ⟨?_, fun hun => ?_⟩
  · by_contra hf
    rw [Bool.not_eq_true] at hf
    have hh : 0 < w.held context := by
      rcases hm with hn | hw | hh
      · exact absurd hn hc
      · rw [hw] at hf
        cases hf
      · exact hh
    rw [ht] at hr
    exact not_countsRight_addCert h hf hh ho le_heldAfter_addToStore hr
  · have ha := hi handle context storeContext rfl (by rw [he, if_pos hun])
    rw [ht] at ha
    exact addCert_ne ho ha

theorem stores_of_failed (hk : w.Orderly own (.addToStore han co sc))
    (hf : (w.reply (.addToStore han co sc)).2.value = 0) :
    (w.reply (.addToStore han co sc)).1.stores = w.state.stores := by
  by_cases ho : han ≠ 0 ∧ co ≠ 0 ∧ (w.state.store? han).isSome
  · obtain ⟨hh, hc, ho⟩ := ho
    rw [reply_addToStore hh hc ho, if_neg (hk hh hc ho).2] at hf
    cases hf
  · simp only [reply, certAddCertificateContextToStore]
    split
    · rfl
    next hn =>
    push Not at hn
    cases hs : w.state.store? han with
    | none => rfl
    | some s => exact absurd ⟨hn.1, hn.2, by rw [hs]; rfl⟩ ho

/-- **A call that is not orderly shows at once.** -/
theorem Kept.counts_iff (h : w.Kept own) {c : CertCall}
    (hs : w.step own c = some w') : w.Counts own c w' ↔ w.Orderly own c := by
  have ht : w.Legal own c ∧ w'.state = (w.reply c).1 := by
    unfold CertWorld.step at hs
    split at hs
    · next hl => exact ⟨hl, by rw [← Option.some.inj hs]⟩
    · cases hs
  constructor
  · intro hc
    cases c with
    | duplicate co s f =>
      have hr := hc.1
      obtain ⟨st, held⟩ := w'
      obtain rfl : st = _ := ht.2
      exact h.orderly_duplicate hr
    | addToStore han co sc => exact h.orderly_addToStore ht.1 hs hc
    | free => trivial
    | openStore => trivial
    | enumerate => trivial
    | find => trivial
    | closeStore => trivial
  · intro ho
    refine ⟨(h.step ho hs).countsRight, ?_⟩
    rintro han co sc rfl hf
    rw [ht.2]
    exact stores_of_failed ho hf

theorem kept_empty : ({} : CertWorld).Kept own where
  listed _ h := by cases h
  nodup := nodup_nil
  host _ _ h := by cases h
  count _ _ := rfl
  positive _ h := by cases h

end CertWorld

/-- **In a run from the start the counts are the references after every call, and a failing add
leaves the lists alone, exactly if no copy gets its 2^32nd reference by a duplication, only
contexts of the caller are added to open stores, and the outputs of the adds can be written.** -/
theorem references_counted (own : ℕ → Bool) (calls : List CertCall) :
    EachStep (CertWorld.step own) (CertWorld.Counts own) {} calls ↔
      EachStep (CertWorld.step own) (fun w c _ => w.Orderly own c) {} calls :=
  eachStep_iff (fun _ _ _ (h : CertWorld.Kept own _) => h.counts_iff)
    (fun _ _ _ (h : CertWorld.Kept own _) => h.step) CertWorld.kept_empty calls

/-- A copy is added to a store and freed by the caller: it is erased, and the store lists it. -/
theorem not_references_counted : ∃ w,
    runAll (CertWorld.step fun a => decide (a = 4096)) {} [.duplicate 4096 (some [48]) (some 8192),
      .openStore .memory (some 12288), .addToStore 12288 8192 none, .free 8192 true] = some w ∧
    ¬w.CountsRight (fun a => decide (a = 4096)) ∧ w.references 8192 = 1 ∧
    Counted.refcountAt w.state.contexts 8192 = none := by
  obtain ⟨w, hu, ha⟩ := Option.map_eq_some_iff.mp
    (show (runAll (CertWorld.step fun a => decide (a = 4096)) {}
      [.duplicate 4096 (some [48]) (some 8192), .openStore .memory (some 12288),
        .addToStore 12288 8192 none, .free 8192 true]).map
        (fun w => (w.references 8192, Counted.refcountAt w.state.contexts 8192)) = some (1, none)
      by decide +kernel)
  obtain ⟨he, hn⟩ := Prod.mk.inj ha
  refine ⟨w, hu, fun hr => ?_, he, hn⟩
  have hl := hr.live 8192 (by decide) (by rw [he]; decide)
  rw [hn] at hl
  cases hl

end Runs

end Crypt32
end TradutorLinux
