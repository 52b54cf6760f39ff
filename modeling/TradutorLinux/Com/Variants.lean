import Mathlib.Algebra.Group.Nat.Defs
import TradutorLinux.Util.Ownership
import TradutorLinux.Util.Runs

/-!
# Strings, arrays and variants

`VariantClear` frees what its variant points to: the string of a `VT_BSTR`, and the
array of everything whose type has the bit of `VT_ARRAY`.  `VariantCopy` makes a new
string for a `VT_BSTR` and copies the bytes of everything else.

## Main definitions

* `Automation`
* `Automation.step` — the calls, and what callers do with their variables.
* `Automation.Proper` — a caller loses no block and makes no second owner.
* `Automation.Orderly` — no array is copied, no reference to an array is cleared.

## Main results

* `automation_released`
-/

namespace TradutorLinux

open Function Option

/-! ### Variants -/

def kGuestVtEmpty : UInt16 := 0
def kGuestVtI1 : UInt16 := 16
def kGuestVtBstr : UInt16 := 8
def kGuestVtArray : UInt16 := 0x2000
def kGuestVtByref : UInt16 := 0x4000

/-- What a block is; an array is its descriptor with its data. -/
inductive BlockKind
  | bstr
  | array
deriving DecidableEq

/-- A block of the heap, a string with its bytes. -/
inductive Block
  | bstr (bytes : List UInt8)
  | array (elements : ℕ)
deriving DecidableEq

def Block.kind : Block → BlockKind
  | bstr _ => .bstr
  | array _ => .array

/-- `GuestVariant`: `data` are the first eight bytes of the union, `rest` the others. -/
structure Variant where
  vt : UInt16 := kGuestVtEmpty
  wReserved : Fin 3 → UInt16 := fun _ => 0
  data : ℕ := 0
  rest : ℕ := 0

namespace Variant

def isArray (x : Variant) : Bool := x.vt &&& kGuestVtArray ≠ 0
def isByref (x : Variant) : Bool := x.vt &&& kGuestVtByref ≠ 0

/-- The block that a variant is to own: a string, or an array that is no reference. -/
def owned (x : Variant) : Option (BlockKind × ℕ) :=
  if x.data = 0 then none
  else if x.vt = kGuestVtBstr then some (.bstr, x.data)
  else if x.isArray = true ∧ x.isByref = false then some (.array, x.data)
  else none

end Variant

/-! ### States -/

/-- Where a caller keeps a block; null is 0. -/
inductive VariantPlace
  | string (i : ℕ)
  | array (i : ℕ)
  | variant (v : ℕ)
deriving DecidableEq

/-- The blocks, the caller's variables for strings, for arrays and for variants, and the
addresses that were freed without being a block of the kind. -/
structure Automation where
  blocks : ℕ → Option Block := fun _ => none
  strings : ℕ → ℕ := fun _ => 0
  arrays : ℕ → ℕ := fun _ => 0
  variants : ℕ → Variant := fun _ => {}
  badFrees : List ℕ := []

/-- The calls, and what a caller does with its own variables; `answer` is the block that the
heap gives, if it gives one. -/
inductive Automation.Action
  | sysAllocString (i : ℕ) (sz : Option (List UInt8)) (answer : Option ℕ)
  | sysAllocStringLen (i : ℕ) (str : Option (List UInt8)) (len : UInt32) (answer : Option ℕ)
  | sysAllocStringByteLen (i : ℕ) (str : Option (List UInt8)) (len : UInt32) (answer : Option ℕ)
  | sysReAllocString (i : ℕ) (sz : Option (List UInt8)) (answer : Option ℕ)
  | sysReAllocStringLen (i : ℕ) (str : Option (List UInt8)) (len : UInt32) (answer : Option ℕ)
  | sysFreeString (i : ℕ)
  | variantInit (v : ℕ)
  | variantClear (v : ℕ)
  | variantCopy (dest : ℕ) (src : Option ℕ) (answer : Option ℕ)
  | variantCopyInd (dest : ℕ) (src : Option ℕ) (answer : Option ℕ)
  | variantChangeType (dest : ℕ) (src : Option ℕ) (flags vt : UInt16) (answer : Option ℕ)
  | safeArrayCreate (i : ℕ) (vt : UInt16) (bounds : Option (List UInt32)) (answer : Option ℕ)
  | safeArrayDestroy (i : ℕ)
  /-- A string or an array goes from its variable into a variant, or back. -/
  | putString (v i : ℕ)
  | takeString (i v : ℕ)
  | putArray (v i : ℕ) (vt : UInt16)
  | takeArray (i v : ℕ)
  /-- A variant gets a value that is no block. -/
  | assign (v : ℕ) (x : Variant)

namespace Automation

open Automation (Action)

variable (s : Automation)

/-! ### The functions -/

/-- `std::free`, of a block that is meant to be of a kind. -/
def free (k : BlockKind) (a : ℕ) : Automation :=
  if (s.blocks a).map Block.kind = some k then
    { s with blocks := update s.blocks a none }
  else { s with badFrees := a :: s.badFrees }

/-- `std::malloc` and `std::calloc`: null, or an address that is not in use. -/
def allocate (block : Block) (answer : Option ℕ) : Option (Automation × ℕ) :=
  match answer with
  | none => some (s, 0)
  | some a =>
    if a = 0 ∨ (s.blocks a).isSome = true then none
    else some ({ s with blocks := update s.blocks a (some block) }, a)

/-- `tl_SysAllocString`; `sz` are the bytes up to the terminator. -/
def sysAllocString (sz : Option (List UInt8)) (answer : Option ℕ) : Option (Automation × ℕ) :=
  match sz with
  | none => some (s, 0)
  | some bytes => s.allocate (.bstr bytes) answer

/-- `tl_SysAllocStringByteLen`: zeros where there is nothing to copy. -/
def sysAllocStringByteLen (str : Option (List UInt8)) (len : ℕ) (answer : Option ℕ) :
    Option (Automation × ℕ) :=
  match str with
  | none => s.allocate (.bstr (List.replicate len 0)) answer
  | some bytes => s.allocate (.bstr (bytes.take len)) answer

/-- `tl_SysAllocStringLen`; the length in bytes has 32 bits. -/
def sysAllocStringLen (str : Option (List UInt8)) (len : UInt32) (answer : Option ℕ) :
    Option (Automation × ℕ) :=
  s.sysAllocStringByteLen str (len * 2).toNat answer

/-- `tl_SysFreeString`. -/
def sysFreeString (bstr : ℕ) : Automation := if bstr = 0 then s else s.free .bstr bstr

/-- `tl_SafeArrayCreate`; the bounds are null, or as many as there are dimensions. -/
def safeArrayCreate (bounds : Option (List UInt32)) (answer : Option ℕ) :
    Option (Automation × ℕ) :=
  match bounds with
  | none | some [] => some (s, 0)
  | some bounds => s.allocate (.array ((bounds.map UInt32.toNat).prod % 2 ^ 64)) answer

/-- `tl_SafeArrayDestroy`. -/
def safeArrayDestroy (psa : ℕ) : Automation := if psa = 0 then s else s.free .array psa

def setString (i : ℕ) (a : ℕ) : Automation := { s with strings := update s.strings i a }

def setArray (i : ℕ) (a : ℕ) : Automation := { s with arrays := update s.arrays i a }

def setVariant (v : ℕ) (x : Variant) : Automation :=
  { s with variants := update s.variants v x }

/-- `tl_VariantInit`. -/
def variantInit (v : ℕ) : Automation := s.setVariant v {}

/-- What `tl_VariantClear` frees. -/
def freeVariant (x : Variant) : Automation :=
  if x.vt = kGuestVtBstr then s.sysFreeString x.data
  else if x.vt = kGuestVtArray ||| kGuestVtI1 ∨ x.isArray = true then
    if x.data ≠ 0 then s.safeArrayDestroy x.data else s
  else s

/-- `tl_VariantClear`. -/
def variantClear (v : ℕ) : Automation := (s.freeVariant (s.variants v)).variantInit v

/-- The bytes of a string, none for null. -/
def bytesOf (bstr : ℕ) : List UInt8 :=
  match s.blocks bstr with
  | some (.bstr bytes) => bytes
  | _ => []

/-- `tl_VariantCopy`; no source is a null pointer. -/
def variantCopy (dest : ℕ) (src : Option ℕ) (answer : Option ℕ) : Option Automation :=
  match src with
  | none => some (s.variantClear dest)
  | some src =>
    if dest = src then some s
    else
      let cleared := s.variantClear dest
      let x := cleared.variants src
      if x.vt = kGuestVtBstr then
        let bytes := cleared.bytesOf x.data
        match cleared.sysAllocStringByteLen (some bytes) bytes.length answer with
        | none => none
        | some (s, a) => some (s.setVariant dest { x with data := a, rest := 0 })
      else some (cleared.setVariant dest x)

/-- `tl_VariantCopyInd`. -/
def variantCopyInd (dest : ℕ) (src : Option ℕ) (answer : Option ℕ) : Option Automation :=
  s.variantCopy dest src answer

/-- `tl_VariantChangeType`. -/
def variantChangeType (dest : ℕ) (src : Option ℕ) (_flags _vt : UInt16) (answer : Option ℕ) :
    Option Automation :=
  if src = none then some s else s.variantCopy dest src answer

/-! ### Steps -/

def step : Action → Option Automation
  | .sysAllocString i sz answer =>
    (s.sysAllocString sz answer).map fun r => r.1.setString i r.2
  | .sysAllocStringLen i str len answer =>
    (s.sysAllocStringLen str len answer).map fun r => r.1.setString i r.2
  | .sysAllocStringByteLen i str len answer =>
    (s.sysAllocStringByteLen str len.toNat answer).map fun r => r.1.setString i r.2
  | .sysReAllocString i sz answer =>
    (s.sysAllocString sz answer).map fun r => (r.1.sysFreeString (s.strings i)).setString i r.2
  | .sysReAllocStringLen i str len answer =>
    (s.sysAllocStringLen str len answer).map fun r =>
      (r.1.sysFreeString (s.strings i)).setString i r.2
  | .sysFreeString i => some ((s.sysFreeString (s.strings i)).setString i 0)
  | .variantInit v => some (s.variantInit v)
  | .variantClear v => some (s.variantClear v)
  | .variantCopy dest src answer => s.variantCopy dest src answer
  | .variantCopyInd dest src answer => s.variantCopyInd dest src answer
  | .variantChangeType dest src flags vt answer => s.variantChangeType dest src flags vt answer
  | .safeArrayCreate i _ bounds answer =>
    (s.safeArrayCreate bounds answer).map fun r => r.1.setArray i r.2
  | .safeArrayDestroy i => some ((s.safeArrayDestroy (s.arrays i)).setArray i 0)
  | .putString v i =>
    some ((s.setVariant v { vt := kGuestVtBstr, data := s.strings i }).setString i 0)
  | .takeString i v => some ((s.setString i (s.variants v).data).setVariant v {})
  | .putArray v i vt =>
    some ((s.setVariant v { vt := kGuestVtArray ||| vt, data := s.arrays i }).setArray i 0)
  | .takeArray i v => some ((s.setArray i (s.variants v).data).setVariant v {})
  | .assign v x => some (s.setVariant v x)

/-! ### Owners -/

def owned : VariantPlace → Option (BlockKind × ℕ)
  | .string i => if s.strings i = 0 then none else some (.bstr, s.strings i)
  | .array i => if s.arrays i = 0 then none else some (.array, s.arrays i)
  | .variant v => (s.variants v).owned

def live (a : ℕ) : Option BlockKind := (s.blocks a).map Block.kind

/-- Every live block has one owner, every owner a live block, and nothing has been freed that
was not live. -/
def Released : Prop := Ownership s.owned s.live ∧ s.badFrees = []

/-- A caller writes over nothing that owns a block, and moves blocks from where they are. -/
def Proper : Action → Prop
  | .sysAllocString i _ _ | .sysAllocStringLen i _ _ _ | .sysAllocStringByteLen i _ _ _ =>
    s.owned (.string i) = none
  | .safeArrayCreate i _ _ _ => s.owned (.array i) = none
  | .variantInit v => s.owned (.variant v) = none
  | .putString v _ => s.owned (.variant v) = none
  | .takeString i v => s.owned (.string i) = none ∧ (s.variants v).vt = kGuestVtBstr
  | .putArray v _ vt => s.owned (.variant v) = none ∧ vt &&& (kGuestVtArray ||| kGuestVtByref) = 0
  | .takeArray i v => s.owned (.array i) = none ∧ (s.variants v).vt ≠ kGuestVtBstr ∧
      (s.variants v).isArray = true ∧ (s.variants v).isByref = false
  | .assign v x => s.owned (.variant v) = none ∧ x.owned = none
  | _ => True

/-- The variant is a reference to an array. -/
def RefersToArray (v : ℕ) : Prop :=
  (s.variants v).isArray = true ∧ (s.variants v).isByref = true ∧ (s.variants v).data ≠ 0

/-- A copy goes into no reference to an array, and is of no array, unless it does nothing. -/
def CopyOrderly (dest : ℕ) : Option ℕ → Prop
  | none => ¬s.RefersToArray dest
  | some src => dest ≠ src → ¬s.RefersToArray dest ∧
      ∀ a, (s.variants src).owned ≠ some (.array, a)

/-- No reference to an array is cleared, and no array is copied. -/
def Orderly : Action → Prop
  | .variantClear v => ¬s.RefersToArray v
  | .variantCopy dest src _ | .variantCopyInd dest src _ => s.CopyOrderly dest src
  | .variantChangeType dest src _ _ _ => src ≠ none → s.CopyOrderly dest src
  | _ => True

/-! ### What the functions change -/

variable {s s' : Automation} {p q : VariantPlace} {i v a : ℕ} {x : Variant}

attribute [local simp] setString owned

theorem owned_setString : (s.setString i a).owned =
    update s.owned (.string i) (if a = 0 then none else some (.bstr, a)) := by
  funext p
  cases p with
  | string j =>
    by_cases hj : j = i
    · subst hj
      simp
    · simp [hj]
  | array j => exact (update_of_ne (by simp) _ _).symm
  | variant w => exact (update_of_ne (by simp) _ _).symm

attribute [local simp] setArray

theorem owned_setArray : (s.setArray i a).owned =
    update s.owned (.array i) (if a = 0 then none else some (.array, a)) := by
  funext p
  cases p with
  | string j => exact (update_of_ne (by simp) _ _).symm
  | array j =>
    by_cases hj : j = i
    · subst hj
      simp
    · simp [hj]
  | variant w => exact (update_of_ne (by simp) _ _).symm

attribute [local simp] setVariant

theorem owned_setVariant : (s.setVariant v x).owned = update s.owned (.variant v) x.owned := by
  funext p
  cases p with
  | string j => exact (update_of_ne (by simp) _ _).symm
  | array j => exact (update_of_ne (by simp) _ _).symm
  | variant w =>
    by_cases hw : w = v
    · subst hw
      simp
    · simp [hw]

/-- A block is freed, if there is one. -/
def release (s : Automation) : Option (BlockKind × ℕ) → Automation
  | none => s
  | some (k, a) => s.free k a

@[simp] theorem owned_free (k : BlockKind) : (s.free k a).owned = s.owned := by
  unfold free
  split <;> rfl

@[simp] theorem owned_release (o : Option (BlockKind × ℕ)) : (s.release o).owned = s.owned := by
  cases o with
  | none => rfl
  | some o => exact owned_free o.1

@[simp] theorem variants_release (o : Option (BlockKind × ℕ)) :
    (s.release o).variants = s.variants := by
  cases o with
  | none => rfl
  | some o =>
    show (s.free o.1 o.2).variants = _
    unfold free
    split <;> rfl

attribute [local simp] release

theorem sysFreeString_eq : s.sysFreeString (s.strings i) = s.release (s.owned (.string i)) := by
  unfold sysFreeString
  by_cases h : s.strings i = 0 <;> simp [h]

theorem safeArrayDestroy_eq : s.safeArrayDestroy (s.arrays i) = s.release (s.owned (.array i)) := by
  unfold safeArrayDestroy
  by_cases h : s.arrays i = 0 <;> simp [h]

attribute [local simp] sysFreeString

theorem freeVariant_eq (h : ¬s.RefersToArray v) :
    s.freeVariant (s.variants v) = s.release (s.owned (.variant v)) := by
  unfold RefersToArray at h
  show _ = s.release (s.variants v).owned
  generalize s.variants v = x at h ⊢
  unfold freeVariant Variant.owned
  by_cases hd : x.data = 0
  · simp [hd]
  rw [if_neg hd]
  by_cases hb : x.vt = kGuestVtBstr
  · rw [if_pos hb, if_pos hb]
    simp [hd]
  rw [if_neg hb, if_neg hb]
  have hs : (x.vt = kGuestVtArray ||| kGuestVtI1 ∨ x.isArray = true) ↔ x.isArray := by
    refine or_iff_right_of_imp fun heq => ?_
    unfold Variant.isArray
    rw [heq]
    decide
  by_cases ha : x.isArray
  · have hy : x.isByref = false := by
      by_contra hy
      exact h ⟨ha, by simpa using hy, hd⟩
    rw [if_pos (hs.2 ha), if_pos hd, if_pos ⟨ha, hy⟩]
    simp [safeArrayDestroy, hd]
  · rw [if_neg (mt hs.1 ha), if_neg fun h => ha h.1]
    rfl

/-! ### Changes of hands -/

theorem Released.keep (h : s.Released) (ho : s'.owned = s.owned) (hl : s'.live = s.live)
    (hb : s'.badFrees = s.badFrees) : s'.Released := by
  refine ⟨?_, hb.trans h.2⟩
  rw [ho, hl]
  exact h.1

attribute [local simp] live

theorem Released.drop (h : s.Released) (p : VariantPlace) (ho : s'.owned = update s.owned p none)
    (hl : s'.live = (s.release (s.owned p)).live)
    (hd : s'.badFrees = (s.release (s.owned p)).badFrees) : s'.Released := by
  cases hp : s.owned p with
  | none =>
    rw [hp] at hl hd
    refine h.keep ?_ hl hd
    rw [ho, ← hp, update_eq_self]
  | some o =>
    obtain ⟨k, a⟩ := o
    have ha := h.1.sound p k a hp
    have hf : s.free k a = { s with blocks := update s.blocks a none } := if_pos ha
    rw [hp] at hl hd
    change s'.live = (s.free k a).live at hl
    change s'.badFrees = (s.free k a).badFrees at hd
    rw [hf] at hl hd
    have hu : s'.live = update s.live a none := by
      rw [hl]
      funext b
      by_cases hb : b = a
      · subst hb
        simp
      · simp [hb]
    refine ⟨?_, hd.trans h.2⟩
    rw [ho, hu]
    exact h.1.release hp

variable {answer ar : Option ℕ} {block bl : Block}

theorem allocate_cases (h : s.allocate bl ar = some (s', a)) :
    (s' = s ∧ a = 0) ∨ a ≠ 0 ∧ s.live a = none ∧ s'.owned = s.owned ∧
      s'.live = update s.live a (some bl.kind) ∧ s'.badFrees = s.badFrees ∧
      s'.strings = s.strings := by
  unfold allocate at h
  split at h
  · cases h
    exact .inl ⟨rfl, rfl⟩
  next b =>
  split at h
  · cases h
  next hn =>
  cases h
  rw [not_or] at hn
  refine .inr ⟨hn.1, ?_, rfl, ?_, rfl, rfl⟩
  · simpa using hn.2
  · funext c
    by_cases hc : c = a
    · subst hc
      simp
    · simp [hc]

theorem allocate_owned (h : s.allocate bl ar = some (s', a)) : s'.owned = s.owned := by
  rcases allocate_cases h with ⟨rfl, -⟩ | ⟨-, -, hs, -⟩
  · rfl
  · exact hs

theorem Released.take {t : Automation} (h : s.Released)
    (hal : s.allocate bl ar = some (t, a)) (hp : s.owned p = none)
    (ho : s'.owned = update s.owned p (if a = 0 then none else some (bl.kind, a)))
    (hl : s'.live = t.live) (hb : s'.badFrees = t.badFrees) : s'.Released := by
  rcases allocate_cases hal with ⟨rfl, rfl⟩ | ⟨ha, hf, -, hu, hs, -⟩
  · refine h.keep ?_ hl hb
    rw [ho, if_pos rfl, ← hp, update_eq_self]
  · refine ⟨?_, (hb.trans hs).trans h.2⟩
    rw [ho, hl, hu, if_neg ha]
    exact h.1.acquire hp hf _

theorem Released.hand (h : s.Released) (hpq : p ≠ q) (hq : s.owned q = none)
    (ho : s'.owned = update (update s.owned q (s.owned p)) p none)
    (hl : s'.live = s.live) (hb : s'.badFrees = s.badFrees) : s'.Released := by
  cases hp : s.owned p with
  | none =>
    refine h.keep ?_ hl hb
    rw [ho, hp, ← hq, update_eq_self, hq, ← hp, update_eq_self]
  | some o =>
    refine ⟨?_, hb.trans h.2⟩
    rw [ho, hl, hp, update_comm hpq.symm]
    exact h.1.transfer hp hq

/-! ### Steps keep it -/

theorem Released.variantClear (h : s.Released) (hv : ¬s.RefersToArray v) :
    (s.variantClear v).Released := by
  have hf := freeVariant_eq hv
  refine h.drop (.variant v) ?_ ?_ ?_
  · show ((s.freeVariant (s.variants v)).setVariant v {}).owned = _
    rw [hf, owned_setVariant, owned_release]
    rfl
  · show (s.freeVariant (s.variants v)).live = _
    rw [hf]
  · show (s.freeVariant (s.variants v)).badFrees = _
    rw [hf]

theorem variantClear_owned (hv : ¬s.RefersToArray v) : (s.variantClear v).owned =
    update s.owned (.variant v) none := by
  show ((s.freeVariant (s.variants v)).setVariant v {}).owned = _
  rw [freeVariant_eq hv, owned_setVariant, owned_release]
  rfl

theorem variantClear_variants (hv : ¬s.RefersToArray v) : (s.variantClear v).variants =
    update s.variants v {} := by
  show update (s.freeVariant (s.variants v)).variants v {} = _
  rw [freeVariant_eq hv, variants_release]

attribute [local simp] Variant.owned

/-- **A copy that is orderly gives the destination a string of its own, or no block.** -/
theorem Released.variantCopy (h : s.Released) {d : ℕ} {src ar : Option ℕ}
    (ho : s.CopyOrderly d src) (hc : s.variantCopy d src ar = some s') : s'.Released := by
  unfold Automation.variantCopy at hc
  cases src with
  | none =>
    cases hc
    exact h.variantClear ho
  | some src =>
    dsimp only at hc
    split at hc
    · cases hc
      exact h
    next hne =>
    obtain ⟨hr, ha⟩ := ho hne
    have hl := h.variantClear hr
    have he : (s.variantClear d).owned (.variant d) = none := by
      rw [variantClear_owned hr, update_self]
    have hx : (s.variantClear d).variants src = s.variants src := by
      rw [variantClear_variants hr, update_of_ne (Ne.symm hne)]
    rw [hx] at hc
    split at hc
    · next hb =>
      split at hc
      · cases hc
      next t a hal =>
      cases hc
      refine hl.take hal he ?_ rfl rfl
      rw [owned_setVariant, allocate_owned hal]
      congr 1
      simp [hb, Block.kind]
    · next hb =>
      cases hc
      refine hl.keep ?_ rfl rfl
      have hn : (s.variants src).owned = none := by
        unfold Variant.owned at ha ⊢
        rw [if_neg hb] at ha ⊢
        split
        · rfl
        next hd =>
        rw [if_neg hd] at ha
        split
        · next hy =>
          rw [if_pos hy] at ha
          exact absurd rfl (ha _)
        · rfl
      rw [owned_setVariant, hn, ← he, update_eq_self]

theorem Released.setString {t : Automation} (h : s.Released)
    (ha : s.allocate bl ar = some (t, a)) (hk : bl.kind = .bstr)
    (hi : s.owned (.string i) = none) : (t.setString i a).Released := by
  refine h.take ha hi ?_ rfl rfl
  rw [owned_setString, allocate_owned ha, hk]

theorem Released.clearString (h : s.Released) :
    ((s.sysFreeString (s.strings i)).setString i 0).Released := by
  refine h.drop (.string i) ?_ ?_ ?_
  · rw [owned_setString, sysFreeString_eq, owned_release, if_pos rfl]
  · show (s.sysFreeString (s.strings i)).live = _
    rw [sysFreeString_eq]
  · show (s.sysFreeString (s.strings i)).badFrees = _
    rw [sysFreeString_eq]

attribute [local simp] Automation.setString

theorem Released.exchangeString {t : Automation}
    (h : s.Released) (hal : s.allocate bl ar = some (t, a)) (hk : bl.kind = .bstr) :
    ((t.sysFreeString (s.strings i)).setString i a).Released := by
  by_cases hold : s.strings i = 0
  · have hr : t.sysFreeString (s.strings i) = t := if_pos hold
    rw [hr]
    exact h.setString hal hk (if_pos hold)
  · have ho : s.owned (.string i) = some (.bstr, s.strings i) := if_neg hold
    rcases allocate_cases hal with ⟨rfl, rfl⟩ | ⟨ha, hf, hs, hu, hd, -⟩
    · exact h.clearString
    -- the new block is another one, so that it may as well come after the old one is freed
    have hl := h.1.sound _ _ _ ho
    have hn : a ≠ s.strings i := by
      intro heq
      rw [heq, hl] at hf
      cases hf
    have hke : t.live (s.strings i) = some .bstr := by rw [hu, update_of_ne (Ne.symm hn), hl]
    have hr : t.sysFreeString (s.strings i) =
        { t with blocks := update t.blocks (s.strings i) none } :=
      (if_neg hold).trans (if_pos hke)
    have he := h.1.release ho
    have hc := he.acquire (update_self ..) (by rw [update_of_ne hn, hf]) BlockKind.bstr
    rw [hr]
    refine ⟨?_, hd.trans h.2⟩
    have hw : (Automation.setString { t with
        blocks := update t.blocks (s.strings i) none } i a).owned =
        update (update s.owned (.string i) none) (.string i) (some (.bstr, a)) := by
      rw [owned_setString, if_neg ha, update_idem]
      exact congrArg (update · _ _) hs
    have hbl : (Automation.setString { t with
        blocks := update t.blocks (s.strings i) none } i a).live =
        update (update s.live (s.strings i) none) a (some .bstr) := by
      rw [update_comm (Ne.symm hn), ← hk, ← hu]
      funext b
      by_cases hb : b = s.strings i
      · subst hb
        simp
      · simp [hb]
    rw [hw, hbl]
    exact hc

theorem Released.clearArray (h : s.Released) :
    ((s.safeArrayDestroy (s.arrays i)).setArray i 0).Released := by
  refine h.drop (.array i) ?_ ?_ ?_
  · rw [owned_setArray, safeArrayDestroy_eq, owned_release, if_pos rfl]
  · show (s.safeArrayDestroy (s.arrays i)).live = _
    rw [safeArrayDestroy_eq]
  · show (s.safeArrayDestroy (s.arrays i)).badFrees = _
    rw [safeArrayDestroy_eq]

theorem sysAllocString_cases {sz : Option (List UInt8)}
    (h : s.sysAllocString sz ar = some (s', a)) :
    ∃ bs a', s.allocate (.bstr bs) a' = some (s', a) := by
  unfold sysAllocString at h
  split at h
  · cases h
    exact ⟨[], none, rfl⟩
  · exact ⟨_, _, h⟩

theorem sysAllocStringByteLen_cases {st : Option (List UInt8)} {l : ℕ}
    (h : s.sysAllocStringByteLen st l ar = some (s', a)) :
    ∃ bs a', s.allocate (.bstr bs) a' = some (s', a) := by
  unfold sysAllocStringByteLen at h
  split at h <;> exact ⟨_, _, h⟩

theorem safeArrayCreate_cases {bs : Option (List UInt32)}
    (h : s.safeArrayCreate bs ar = some (s', a)) :
    ∃ e a', s.allocate (.array e) a' = some (s', a) := by
  unfold safeArrayCreate at h
  split at h
  · cases h
    exact ⟨0, none, rfl⟩
  · cases h
    exact ⟨0, none, rfl⟩
  · exact ⟨_, _, h⟩

theorem owned_array {vt : UInt16} {ps : ℕ} (h : vt &&& (kGuestVtArray ||| kGuestVtByref) = 0) :
    Variant.owned { vt := kGuestVtArray ||| vt, data := ps } =
      if ps = 0 then none else some (.array, ps) := by
  have hi : ∀ b, (kGuestVtArray ||| kGuestVtByref) &&& b = b → vt &&& b = 0 := by
    intro b hb
    rw [← hb, ← UInt16.and_assoc, h, UInt16.zero_and]
  have ho : ∀ b, (kGuestVtArray ||| vt) &&& b = b &&& kGuestVtArray ||| vt &&& b := by
    intro b
    rw [UInt16.and_comm, UInt16.and_comm vt]
    exact UInt16.toBitVec_inj.1 BitVec.and_or_distrib_left
  have ha : (kGuestVtArray ||| vt) &&& kGuestVtArray = kGuestVtArray := by
    rw [ho, hi _ (by decide)]
    decide
  have hy : (kGuestVtArray ||| vt) &&& kGuestVtByref = 0 := by
    rw [ho, hi _ (by decide)]
    decide
  have hs : kGuestVtArray ||| vt ≠ kGuestVtBstr := by
    intro heq
    rw [heq] at ha
    exact absurd ha (by decide)
  unfold Variant.owned Variant.isArray Variant.isByref
  rw [if_neg hs, ha, hy]
  rfl

/-- **An orderly step of a proper caller keeps the owners.** -/
theorem Released.step (h : s.Released) {c : Action} (hp : s.Proper c) (hk : s.Orderly c)
    (hs : s.step c = some s') : s'.Released := by
  cases c with
  | sysAllocString i sz ar =>
    obtain ⟨⟨t, a⟩, ha, rfl⟩ := map_eq_some_iff.1 hs
    obtain ⟨bs, a', ha⟩ := sysAllocString_cases ha
    exact h.setString ha rfl hp
  | sysAllocStringLen i st l ar =>
    obtain ⟨⟨t, a⟩, ha, rfl⟩ := map_eq_some_iff.1 hs
    obtain ⟨bs, a', ha⟩ := sysAllocStringByteLen_cases ha
    exact h.setString ha rfl hp
  | sysAllocStringByteLen i st l ar =>
    obtain ⟨⟨t, a⟩, ha, rfl⟩ := map_eq_some_iff.1 hs
    obtain ⟨bs, a', ha⟩ := sysAllocStringByteLen_cases ha
    exact h.setString ha rfl hp
  | sysReAllocString i sz ar =>
    obtain ⟨⟨t, a⟩, ha, rfl⟩ := map_eq_some_iff.1 hs
    obtain ⟨bs, a', ha⟩ := sysAllocString_cases ha
    exact h.exchangeString ha rfl
  | sysReAllocStringLen i st l ar =>
    obtain ⟨⟨t, a⟩, ha, rfl⟩ := map_eq_some_iff.1 hs
    obtain ⟨bs, a', ha⟩ := sysAllocStringByteLen_cases ha
    exact h.exchangeString ha rfl
  | sysFreeString i =>
    cases hs
    exact h.clearString
  | variantInit v =>
    cases hs
    have hv : s.owned (.variant v) = none := hp
    refine h.keep ?_ rfl rfl
    show (s.setVariant v {}).owned = _
    rw [owned_setVariant, show Variant.owned {} = none from rfl, ← hv, update_eq_self]
  | variantClear v =>
    cases hs
    exact h.variantClear hk
  | variantCopy d sr ar => exact h.variantCopy hk hs
  | variantCopyInd d sr ar => exact h.variantCopy hk hs
  | variantChangeType d sr fl vt ar =>
    simp only [Automation.step, variantChangeType] at hs
    split at hs
    · cases hs
      exact h
    · next hr => exact h.variantCopy (hk hr) hs
  | safeArrayCreate i vt b ar =>
    obtain ⟨⟨t, a⟩, ha, rfl⟩ := map_eq_some_iff.1 hs
    obtain ⟨e, a', ha⟩ := safeArrayCreate_cases ha
    refine h.take ha hp ?_ rfl rfl
    rw [owned_setArray, allocate_owned ha]
    rfl
  | safeArrayDestroy i =>
    cases hs
    exact h.clearArray
  | putString v i =>
    cases hs
    refine h.hand (p := .string i) (q := .variant v) nofun hp ?_ rfl rfl
    rw [owned_setString, owned_setVariant, if_pos rfl]
    rfl
  | takeString i v =>
    cases hs
    obtain ⟨hi, ht⟩ := hp
    refine h.hand (p := .variant v) (q := .string i) nofun hi ?_ rfl rfl
    rw [owned_setVariant, owned_setString]
    have ho : s.owned (.variant v) =
        if (s.variants v).data = 0 then none else some (.bstr, (s.variants v).data) := by
      show (s.variants v).owned = _
      simp [ht]
    rw [ho]
    rfl
  | putArray v i vt =>
    cases hs
    refine h.hand (p := .array i) (q := .variant v) nofun hp.1 ?_ rfl rfl
    rw [owned_setArray, owned_setVariant, owned_array hp.2, if_pos rfl]
    rfl
  | takeArray i v =>
    cases hs
    obtain ⟨hi, hbs, har, hb⟩ := hp
    refine h.hand (p := .variant v) (q := .array i) nofun hi ?_ rfl rfl
    rw [owned_setVariant, owned_setArray]
    have ho : s.owned (.variant v) =
        if (s.variants v).data = 0 then none else some (.array, (s.variants v).data) := by
      show (s.variants v).owned = _
      simp [hbs, har, hb]
    rw [ho]
    rfl
  | assign v x =>
    cases hs
    obtain ⟨hv, hx⟩ := hp
    refine h.keep ?_ rfl rfl
    rw [owned_setVariant, hx, ← hv, update_eq_self]

theorem released_new : Released {} := by
  have ho : owned {} = fun _ => none := by
    funext p
    cases p <;> rfl
  refine ⟨?_, rfl⟩
  rw [ho]
  exact Ownership.empty

end Automation

open Automation

/-- **Proper callers that copy no array release every block once.** -/
theorem automation_released {s : Automation}
    (h : Runs Automation.step (fun s c => s.Proper c ∧ s.Orderly c) {} s) :
    s.Released ∧ ((∀ p, s.owned p = none) → ∀ a, s.blocks a = none) := by
  have hr : s.Released := h.keeps (fun _ _ _ ht ho hs => ht.step ho.1 ho.2 hs) released_new
  refine ⟨hr, fun hn a => ?_⟩
  have ha := hr.1.nothing_live hn a
  simpa [live] using ha

/-- A string in a variant, a copy of it, and both cleared. -/
theorem automation_released_copy :
    ∃ s, Runs Automation.step (fun s c => s.Proper c ∧ s.Orderly c) {} s ∧
      s.variants 0 = {} ∧ s.variants 1 = {} ∧
      s.Released ∧ ((∀ p, s.owned p = none) → ∀ a, s.blocks a = none) := by
  have hs : ∀ {t : Automation} {v : ℕ}, (t.variants v).vt = kGuestVtBstr →
      ¬t.RefersToArray v := by
    rintro t v hv ⟨ha, -⟩
    unfold Variant.isArray at ha
    rw [hv] at ha
    exact absurd ha (by decide)
  have he : ∀ {t : Automation} {v : ℕ}, (t.variants v).vt = kGuestVtEmpty → ¬t.RefersToArray v := by
    rintro t v hv ⟨ha, -⟩
    unfold Variant.isArray at ha
    rw [hv] at ha
    exact absurd ha (by decide)
  have hr : Runs Automation.step (fun s c => s.Proper c ∧ s.Orderly c) {} _ :=
    Runs.head (a := .sysAllocString 0 (some [65, 0]) (some 16)) ⟨rfl, trivial⟩ rfl
    (Runs.head (a := .putString 0 0) ⟨rfl, trivial⟩ rfl
      (Runs.head (a := .variantCopy 1 (some 0) (some 32)) ⟨trivial, fun _ => ⟨he rfl, nofun⟩⟩ rfl
        (Runs.head (a := .variantClear 0) ⟨trivial, hs rfl⟩ rfl
          (Runs.head (a := .variantClear 1) ⟨trivial, hs rfl⟩ rfl (Runs.refl _)))))
  exact ⟨_, hr, rfl, rfl, automation_released hr⟩

/-- An array in a variant and a copy of it: once one is cleared the other points to nothing, and
the second clear frees the array again. -/
theorem not_automation_released : ∃ s, Runs Automation.step Automation.Proper {} s ∧
      (s.variants 1).owned = some (.array, 16) ∧ s.blocks 16 = none ∧ ¬s.Released ∧
      ∃ t, s.step (.variantClear 1) = some t ∧ t.badFrees = [16] := by
  have hr : Runs Automation.step Automation.Proper {} _ :=
    Runs.head (a := .safeArrayCreate 0 3 (some [1]) (some 16)) rfl rfl
    (Runs.head (a := .putArray 0 0 3) ⟨rfl, by decide⟩ rfl
      (Runs.head (a := .variantCopy 1 (some 0) none) trivial rfl
        (Runs.head (a := .variantClear 0) trivial rfl (Runs.refl _))))
  refine ⟨_, hr, rfl, rfl, ?_, _, rfl, rfl⟩
  rintro ⟨ho, -⟩
  have hl := ho.sound (.variant 1) .array 16 rfl
  cases hl

end TradutorLinux
