import Mathlib.Data.List.Induction
import TradutorLinux.Util.Bytes

/-!
# The parts of a path

The path functions of `shlwapi.cpp` go through a path from its beginning and keep where
the last separator or the last dot stands.  They differ in what counts, and in what makes
them forget a dot.  Here they are functions of the string that was copied.

## Main definitions

* `lastMark` — the loop they share.
* `OneStory` — what they should agree on.

## Main results

* `oneStory_iff` — **they agree exactly if the last component has no colon, and no space
  behind its last dot.**
-/

namespace TradutorLinux.Shlwapi

open List UInt8

section Loop

variable {α : Type} (mark m reset r : α → Bool)

/-- Where the last marked character stands, with none to reset it behind. -/
def lastMark : List α → ℕ → Option ℕ → Option ℕ
  | [], _, found => found
  | c :: s, index, found =>
    lastMark s (index + 1) (if mark c then some index else if reset c then none else found)

theorem lastMark_append (s : List α) (c : α) (i : ℕ) (found : Option ℕ) :
    lastMark m r (s ++ [c]) i found = if m c then some (i + s.length)
      else if r c then none else lastMark m r s i found := by
  induction s generalizing i found with
  | nil => rfl
  | cons d s ih =>
    rw [cons_append, lastMark, ih, lastMark, length_cons, Nat.add_right_comm, Nat.add_assoc]

theorem lastMark_map {β : Type} (f : β → α) (s : List β) (i : ℕ) (found : Option ℕ) :
    lastMark m r (s.map f) i found = lastMark (m ∘ f) (r ∘ f) s i found := by
  induction s generalizing i found with
  | nil => rfl
  | cons c s ih => exact ih _ _

theorem lastMark_lt {s : List α} {i : ℕ} (h : lastMark m r s 0 none = some i) : i < s.length := by
  induction s using reverseRecOn with
  | nil => cases h
  | append_singleton s c ih =>
    rw [lastMark_append] at h
    rw [length_append, length_singleton]
    split_ifs at h
    · cases h
      omega
    · exact Nat.lt_succ_of_lt (ih h)

end Loop

/-! ### The functions

`unit` gives the character of a byte: itself, or in UTF-16. -/

section Functions

variable {α : Type} [DecidableEq α] (unit : UInt8 → α)

def isSlash (c : α) : Bool := c = unit 0x5C || c = unit 0x2F
def isRoot (c : α) : Bool := isSlash unit c || c = unit 0x3A
def isBreak (c : α) : Bool := isSlash unit c || c = unit 0x20
def isDot (c : α) : Bool := c = unit 0x2E

/-- `tl_PathFindFileNameA` and `W`: an offset. -/
def findFileName (s : List α) : ℕ :=
  ((lastMark (isRoot unit) (fun _ => false) s 0 none).map (· + 1)).getD 0

/-- `tl_PathFindExtensionA` and `W`. -/
def findExtension (s : List α) : ℕ := (lastMark (isDot unit) (isBreak unit) s 0 none).getD s.length

/-- `tl_PathRemoveFileSpecA` and `W`: what is written, if anything is. -/
def removeFileSpec (s : List α) : Option (List α) :=
  (lastMark (isSlash unit) (fun _ => false) s 0 none).map s.take

/-- The end of `tl_PathRemoveExtensionA` and `W`. -/
def cutAt (s : List α) (dot : Option ℕ) : List α := dot.elim s s.take

/-- `tl_PathIsRelativeA` and `W`, for one sort of letters. -/
def isRelative (isalpha : α → Bool) : List α → Bool
  | [] => true
  | c :: s => !(isSlash unit c || (isalpha c && s.head? = some (unit 0x3A)))

end Functions

def removeExtensionA (s : ByteString) : ByteString :=
  cutAt s (lastMark (isDot id) (isBreak id) s 0 none)

/-- `tl_PathRemoveExtensionW`, for which a space is no break. -/
def removeExtensionW (s : List UInt16) : List UInt16 :=
  cutAt s (lastMark (isDot toUInt16) (isSlash toUInt16) s 0 none)

/-- `tl_PathStripPathA`, whose loop is that of `tl_PathFindFileNameA`. -/
def stripPathA (s : ByteString) : ByteString :=
  if findFileName id s ≠ 0 then s.drop (findFileName id s) else s

/-- `tl_PathStripPathW`, for which a colon is no separator. -/
def stripPathW (s : List UInt16) : List UInt16 :=
  ((lastMark (isSlash toUInt16) (fun _ => false) s 0 none).map (· + 1)).elim s s.drop

/-- `tl_PathAddExtensionW`: what is written, if anything is. -/
def addExtensionW (s ext : List UInt16) : Option (List UInt16) :=
  if (lastMark (isDot toUInt16) (isSlash toUInt16) s 0 none).isSome then none
  else some (s ++ ext)

def isalphaA (c : UInt8) : Bool := (0x61 ≤ c && c ≤ 0x7A) || (0x41 ≤ c && c ≤ 0x5A)
def isalphaW (c : UInt16) : Bool := (0x61 ≤ c && c ≤ 0x7A) || (0x41 ≤ c && c ≤ 0x5A)

/-! ### What they agree on -/

/-- The functions on a path, and on the same path in UTF-16. -/
structure OneStory (s : ByteString) (w : List UInt16) : Prop where
  fileName : findFileName id s = findFileName toUInt16 w
  extension : findExtension id s = findExtension toUInt16 w
  removeExtension : (removeExtensionA s).map toUInt16 = removeExtensionW w
  stripPath : (stripPathA s).map toUInt16 = stripPathW w
  removeFileSpec :
    (removeFileSpec id s).map (map toUInt16) = removeFileSpec toUInt16 w
  isRelative : isRelative id isalphaA s = isRelative toUInt16 isalphaW w
  beforeExtensionA : removeExtensionA s = s.take (findExtension id s)
  beforeExtensionW : removeExtensionW w = w.take (findExtension toUInt16 w)
  fromFileNameA : stripPathA s = s.drop (findFileName id s)
  fromFileNameW : stripPathW w = w.drop (findFileName toUInt16 w)
  addExtension : ∀ ext, addExtensionW w ext = some (w ++ ext) ↔
    findExtension toUInt16 w = w.length

def lastComponent (s : ByteString) : ByteString := s.reverse.takeWhile fun c => !isSlash id c

/-- No colon in the last component, and no space behind its last dot. -/
def Plain (s : ByteString) : Prop :=
  0x3A ∉ lastComponent s ∧
    ¬(0x2E ∈ lastComponent s ∧ 0x20 ∈ (lastComponent s).takeWhile (· ≠ 0x2E))

instance (s : ByteString) : Decidable (Plain s) := inferInstanceAs (Decidable (_ ∧ _))

theorem lastComponent_append (s : ByteString) (c : UInt8) :
    lastComponent (s ++ [c]) = if isSlash id c then [] else c :: lastComponent s := by
  cases h : isSlash id c <;> simp [lastComponent, h]

section Marks

variable {c : UInt8}

attribute [local simp] isDot isRoot isBreak isSlash lastMark lastComponent_append

theorem lastMark_ne {m r : UInt8 → Bool} (s : ByteString) : some s.length ≠ lastMark m r s 0 none :=
  fun h => lt_irrefl _ (lastMark_lt m r h.symm)

theorem colon_iff (s : ByteString) :
    lastMark (isRoot id) (fun _ => false) s 0 none =
      lastMark (isSlash id) (fun _ => false) s 0 none ↔ 0x3A ∉ lastComponent s := by
  induction s using reverseRecOn with
  | nil => simp [lastComponent]
  | append_singleton s c ih =>
    rw [lastMark_append, lastMark_append]
    by_cases hs : isSlash id c
    · simp_all
    · by_cases hc : c = 0x3A
      · subst hc
        simpa using lastMark_ne s
      · simp_all [Ne.symm hc]

theorem no_dot_iff (s : ByteString) :
    lastMark (isDot id) (isSlash id) s 0 none = none ↔ 0x2E ∉ lastComponent s := by
  induction s using reverseRecOn with
  | nil => simp [lastComponent]
  | append_singleton s c ih =>
    rw [lastMark_append]
    by_cases hs : isSlash id c
    · have hd : c ≠ 0x2E := by
        rintro rfl
        simp at hs
      simp_all
    · by_cases hc : c = 0x2E
      · simp [hc]
      · simp_all [Ne.symm hc]

theorem space_iff (s : ByteString) :
    lastMark (isDot id) (isBreak id) s 0 none = lastMark (isDot id) (isSlash id) s 0 none ↔
      ¬(0x2E ∈ lastComponent s ∧ 0x20 ∈ (lastComponent s).takeWhile (· ≠ 0x2E)) := by
  induction s using reverseRecOn with
  | nil => simp [lastComponent]
  | append_singleton s c ih =>
    have hd := no_dot_iff s
    rw [lastMark_append, lastMark_append]
    by_cases hs : isSlash id c
    · simp_all
    · by_cases hc : c = 0x2E
      · simp [hc]
      · by_cases hp : c = 0x20
        · subst hp
          simp_all [eq_comm (a := none)]
        · simp_all [Ne.symm hc, Ne.symm hp]

end Marks

/-! ### In UTF-16 -/

theorem toUInt16_inj {c d : UInt8} : c.toUInt16 = d.toUInt16 ↔ c = d := by
  constructor
  · exact fun h => UInt8.toNat_inj.1 (by simpa using congrArg UInt16.toNat h)
  · rintro rfl
    rfl

theorem marks_wide : isSlash toUInt16 ∘ toUInt16 = isSlash id ∧
    isRoot toUInt16 ∘ toUInt16 = isRoot id ∧
    isBreak toUInt16 ∘ toUInt16 = isBreak id ∧
    isDot toUInt16 ∘ toUInt16 = isDot id ∧
    (fun _ => false) ∘ toUInt16 = fun _ => false := by
  refine ⟨?_, ?_, ?_, ?_, rfl⟩
  all_goals
    funext c
    simp only [isSlash, isRoot, isBreak, isDot, Function.comp_apply, toUInt16_inj, id]

variable (s : ByteString)

theorem isRelative_wide :
    isRelative toUInt16 isalphaW (s.map toUInt16) = isRelative id isalphaA s := by
  have ha : ∀ c : UInt8, isalphaW c.toUInt16 = isalphaA c := by
    intro c
    simp [isalphaW, isalphaA, UInt16.le_iff_toNat_le, le_iff_toNat_le]
  cases s with
  | nil => rfl
  | cons c s =>
    have hs := congrFun marks_wide.1 c
    rw [Function.comp_apply] at hs
    cases s with
    | nil => simp [isRelative, hs]
    | cons d s =>
      simp only [isRelative, map_cons, hs, ha, head?_cons, Option.some_inj,
        toUInt16_inj, id]

theorem length_cutAt {d : Option ℕ} (h : ∀ i ∈ d, i < s.length) :
    (cutAt s d).length = d.getD s.length := by
  cases d with
  | none => rfl
  | some i => simp [cutAt, (h i rfl).le]

theorem offset_inj {a b : Option ℕ} (h : (a.map (· + 1)).getD 0 = (b.map (· + 1)).getD 0) :
    a = b := by
  cases a <;> cases b <;> simp_all

theorem getD_inj {a b : Option ℕ} {n : ℕ} (ha : ∀ i ∈ a, i < n) (hb : ∀ i ∈ b, i < n)
    (h : a.getD n = b.getD n) : a = b := by
  cases a with
  | none =>
    cases b with
    | none => rfl
    | some j => exact absurd h (hb j rfl).ne'
  | some i =>
    cases b with
    | none => exact absurd h (ha i rfl).ne
    | some j => exact congrArg some h

/-- **The functions agree exactly on plain paths.** -/
theorem oneStory_iff : OneStory s (s.map toUInt16) ↔ Plain s := by
  have hl {mark reset : UInt8 → Bool} : ∀ i ∈ lastMark mark reset s 0 none, i < s.length :=
    fun i hi => lastMark_lt mark reset hi
  have ht : stripPathA s = s.drop (findFileName id s) := by
    unfold stripPathA
    split_ifs with h
    · rfl
    · simp_all
  have hremove : removeExtensionA s = s.take (findExtension id s) := by
    unfold removeExtensionA findExtension
    cases lastMark (isDot id) (isBreak id) s 0 none <;> simp [cutAt]
  have hremoveW : removeExtensionW (s.map toUInt16) =
      (cutAt s (lastMark (isDot id) (isSlash id) s 0 none)).map toUInt16 := by
    rw [removeExtensionW, lastMark_map, marks_wide.1, marks_wide.2.2.2.1]
    cases lastMark (isDot id) (isSlash id) s 0 none <;> simp [cutAt]
  have hstripW : stripPathW (s.map toUInt16) =
      (s.drop (((lastMark (isSlash id) (fun _ => false) s 0 none).map (· + 1)).getD 0)).map
        toUInt16 := by
    rw [stripPathW, lastMark_map, marks_wide.1, marks_wide.2.2.2.2]
    cases lastMark (isSlash id) (fun _ => false) s 0 none <;> simp
  have hf : findFileName toUInt16 (s.map toUInt16) = findFileName id s := by
    rw [findFileName, lastMark_map, marks_wide.2.1, marks_wide.2.2.2.2]
    rfl
  have hx : findExtension toUInt16 (s.map toUInt16) = findExtension id s := by
    rw [findExtension, lastMark_map, marks_wide.2.2.1, marks_wide.2.2.2.1, length_map]
    rfl
  have hj : Function.Injective (map toUInt16) :=
    map_injective_iff.mpr fun _ _ => toUInt16_inj.mp
  rw [Plain, ← colon_iff, ← space_iff]
  constructor
  · intro h
    have hd := hj (h.removeExtension.trans hremoveW)
    have hslashes := hj (h.stripPath.trans hstripW)
    constructor
    · rw [ht, findFileName] at hslashes
      have he := congrArg List.length hslashes
      have hle (mark reset : UInt8 → Bool) :
          ((lastMark mark reset s 0 none).map (· + 1)).getD 0 ≤ s.length := by
        cases hm : lastMark mark reset s 0 none with
        | none => simp
        | some i => exact Nat.succ_le_of_lt (hl i hm)
      rw [length_drop, length_drop] at he
      have h1 := hle (isRoot id) fun _ => false
      have h2 := hle (isSlash id) fun _ => false
      exact offset_inj (by omega)
    · have he := congrArg List.length hd
      rw [removeExtensionA, length_cutAt s hl, length_cutAt s hl] at he
      exact getD_inj hl hl he
  · rintro ⟨hc, hs⟩
    have hn : findFileName id s =
        ((lastMark (isSlash id) (fun _ => false) s 0 none).map (· + 1)).getD 0 := by
      rw [findFileName, hc]
    exact
      { fileName := hf.symm
        extension := hx.symm
        removeExtension := by rw [hremoveW, removeExtensionA, hs]
        stripPath := by rw [ht, hstripW, hn]
        removeFileSpec := by
          rw [removeFileSpec, removeFileSpec, lastMark_map, marks_wide.1, marks_wide.2.2.2.2]
          cases lastMark (isSlash id) (fun _ => false) s 0 none <;> simp
        isRelative := (isRelative_wide s).symm
        beforeExtensionA := hremove
        beforeExtensionW := by
          rw [hremoveW, hx, ← hs, ← map_take, ← hremove, removeExtensionA]
        fromFileNameA := ht
        fromFileNameW := by rw [hstripW, hf, ← map_drop, hn]
        addExtension := by
          intro ext
          rw [addExtensionW, hx, findExtension, lastMark_map, marks_wide.1, marks_wide.2.2.2.1,
            ← hs, length_map]
          cases hm : lastMark (isDot id) (isBreak id) s 0 none with
          | none => simp
          | some i => simp [(hl i hm).ne] }

/-- **A colon in the last component is a separator for one function only.** -/
theorem not_oneStory : ¬∀ s : ByteString, OneStory s (s.map toUInt16) := by
  intro h
  have hs := (h [0x43, 0x3A, 0x61]).stripPath
  revert hs
  decide

end TradutorLinux.Shlwapi
