import Mathlib.Data.List.Basic

/-!
# Accelerators

A table of accelerators comes as an array of six-byte entries or as a resource, which has
eight bytes for each entry and is read as if it had five.  The first entry whose modifiers
are pressed fires, whatever else is pressed.

## Main definitions

* `AcceleratorEntry` — an entry; `AcceleratorSource` — how a table is given.
* `AcceleratorSource.load`, `translateAccelerator` — the functions.
* `AcceleratorSource.Fires` — the command sent is the one of the table.
* `NoneHides` — no entry that asks for fewer modifiers hides the exact one.
* `AcceleratorSource.Clear` — the condition on a table and the keys.

## Main results

* `map_command_find_iff`, `fires_iff`
-/

namespace TradutorLinux

/-- `AcceleratorEntry`. -/
structure AcceleratorEntry where
  flags : BitVec 8
  key : BitVec 16
  command : BitVec 16
deriving DecidableEq

/-- The message of a key, and the keys Shift, Ctrl and Alt. -/
structure KeyMessage where
  message : BitVec 32
  wparam : BitVec 64
  shift : Bool
  control : Bool
  alt : Bool

namespace AcceleratorEntry

variable (e : AcceleratorEntry) (m : KeyMessage)

def has (bit : BitVec 8) : Bool := e.flags &&& bit != 0

/-- The kind of the message and the key are those of the entry: `WM_KEYDOWN` with a virtual
key, `WM_CHAR` with a character. -/
def matchesKey : Bool :=
  m.message == (if e.has 0x01 = true then 0x0100 else 0x0102) && m.wparam == e.key.setWidth 64

/-- What the loop of `tl_TranslateAcceleratorW` does not skip. -/
def hit : Bool :=
  e.matchesKey m && (!e.has 0x04 || m.shift) && (!e.has 0x08 || m.control)
    && (!e.has 0x10 || m.alt)

/-- The modifiers are exactly the ones pressed. -/
def exact : Bool :=
  e.matchesKey m && e.has 0x04 == m.shift && e.has 0x08 == m.control && e.has 0x10 == m.alt

/-- `wparam` of the `WM_COMMAND` of an entry. -/
def commandParam : ℕ := 1 <<< 16 ||| e.command.toNat

end AcceleratorEntry

open AcceleratorEntry

/-- `tl_TranslateAcceleratorW` for a window that there is: the `wparam` that is sent; with
`none` it returns 0, also without a table. -/
def translateAccelerator (table : Option (List AcceleratorEntry)) (m : KeyMessage) : Option ℕ :=
  match table with
  | none => none
  | some entries => (entries.find? (·.hit m)).map commandParam

/-- The entry that the loop of `parse_accelerator_resource` makes of five bytes. -/
def entryOfBytes (flags k₀ k₁ c₀ c₁ : BitVec 8) : AcceleratorEntry :=
  ⟨flags &&& 0x7F, k₁ ++ k₀, c₁ ++ c₀⟩

/-- The loop of `parse_accelerator_resource`. -/
def parseEntries : List (BitVec 8) → Option (List AcceleratorEntry)
  | flags :: k₀ :: k₁ :: c₀ :: c₁ :: bytes =>
    let e := entryOfBytes flags k₀ k₁ c₀ c₁
    if flags &&& 0x80#8 ≠ 0#8 then some [e] else (parseEntries bytes).map (e :: ·)
  | _ => none

/-- `parse_accelerator_resource`, with a slot that is free. -/
def parseAcceleratorResource (bytes : List (BitVec 8)) : Option (List AcceleratorEntry) :=
  if bytes.length < 5 ∨ 5 * 4096 < bytes.length then none else parseEntries bytes

/-- `tl_CreateAcceleratorTableW`, with a slot that is free. -/
def createAcceleratorTable (paccel : List AcceleratorEntry) : Option (List AcceleratorEntry) :=
  if paccel.length = 0 ∨ 4096 < paccel.length then none else some paccel

/-- The eight bytes of an entry in a resource. -/
def encodeEntry (mark : BitVec 8) (padding : BitVec 16) (e : AcceleratorEntry) :
    List (BitVec 8) :=
  [e.flags &&& 0x7F ||| mark, 0, e.key.setWidth 8, e.key.extractLsb' 8 8,
    e.command.setWidth 8, e.command.extractLsb' 8 8, padding.setWidth 8,
    padding.extractLsb' 8 8]

/-- A resource: the entries with their padding, the last one marked. -/
def encodeTable : List (AcceleratorEntry × BitVec 16) → List (BitVec 8)
  | [] => []
  | [(e, padding)] => encodeEntry 0x80 padding e
  | (e, padding) :: t => encodeEntry 0 padding e ++ encodeTable t

/-- How a table is given. -/
inductive AcceleratorSource
  | array (entries : List AcceleratorEntry)
  | resource (entries : List (AcceleratorEntry × BitVec 16))

namespace AcceleratorSource

/-- The table as it is meant. -/
def entries : AcceleratorSource → List AcceleratorEntry
  | array t => t
  | resource t => t.map Prod.fst

/-- The table that the functions make of it. -/
def load : AcceleratorSource → Option (List AcceleratorEntry)
  | array t => createAcceleratorTable t
  | resource t => parseAcceleratorResource (encodeTable t)

/-- The command of the first entry that is matched exactly is sent, none if there is none. -/
def Fires (s : AcceleratorSource) (m : KeyMessage) : Prop :=
  translateAccelerator s.load m = (s.entries.find? (·.exact m)).map commandParam

/-! ### What is kept of a table -/

/-- The bytes in groups of five, each with its mark. -/
def groups : List (BitVec 8) → List (Bool × AcceleratorEntry)
  | flags :: k₀ :: k₁ :: c₀ :: c₁ :: bytes =>
    (flags &&& 0x80#8 != 0#8, entryOfBytes flags k₀ k₁ c₀ c₁) :: groups bytes
  | _ => []

/-- The groups up to the first that is marked, nothing if none is. -/
def upToMark (l : List (Bool × AcceleratorEntry)) : List AcceleratorEntry :=
  if l.any Prod.fst = true then
    (l.takeWhile (!·.1) ++ (l.dropWhile (!·.1)).take 1).map Prod.snd
  else []

/-- The first of the entries that ask for no modifier but those pressed asks for all of them, or
has the command of the first behind it that does. -/
def NoneHides (t : List AcceleratorEntry) (m : KeyMessage) : Prop :=
  ∀ e behind, t.dropWhile (fun a => !a.hit m) = e :: behind → e.exact m = false →
    ∃ x, behind.find? (·.exact m) = some x ∧ e.command = x.command

/-- The first of the entries that ask for no modifier but those pressed has the command. -/
def Leads (t : List AcceleratorEntry) (m : KeyMessage) (x : AcceleratorEntry) : Prop :=
  ∃ before e behind, t = before ++ e :: behind ∧ (∀ a ∈ before, a.hit m = false) ∧
    e.hit m = true ∧ e.command = x.command

/-- The groups of five bytes up to the mark, of a resource that is not too long. -/
def readAs (t : List (AcceleratorEntry × BitVec 16)) : List AcceleratorEntry :=
  if (encodeTable t).length ≤ 5 * 4096 then upToMark (groups (encodeTable t)) else []

/-- In an array no entry hides the exact one, which there is none of in one that is too long; the
groups of five bytes of a resource lead to the command of the exact entry, or nowhere if there is
no such entry. -/
def Clear : AcceleratorSource → KeyMessage → Prop
  | array t, m => if t.length ≤ 4096 then NoneHides t m else ∀ e ∈ t, e.exact m = false
  | resource t, m =>
    match (t.map Prod.fst).find? (·.exact m) with
    | none => ∀ e ∈ readAs t, e.hit m = false
    | some x => Leads (readAs t) m x

theorem hit_of_exact {e : AcceleratorEntry} {m : KeyMessage} (h : e.exact m) : e.hit m := by
  simp only [exact, Bool.and_eq_true, beq_iff_eq] at h
  obtain ⟨⟨⟨hk, hs⟩, hc⟩, ha⟩ := h
  simp [hit, hk, ← hs, ← hc, ← ha]

/-- **The modifiers that are pressed and not asked for matter only where an entry hides the exact
one.** -/
theorem map_command_find_iff (t : List AcceleratorEntry) (m : KeyMessage) :
    (t.find? (·.hit m)).map command = (t.find? (·.exact m)).map command ↔ NoneHides t m := by
  unfold NoneHides
  induction t with
  | nil => simp
  | cons a t ih =>
    cases hh : a.hit m with
    | false =>
      have he : a.exact m = false := Bool.eq_false_iff.2 fun he => by simp [hit_of_exact he] at hh
      simpa [hh, he] using ih
    | true =>
      cases he : a.exact m with
      | true => simp [hh, he]
      | false =>
        simp only [hh, he, List.find?_cons_of_pos, Option.map_some, Bool.not_true,
          List.dropWhile_cons_of_neg, List.cons.injEq, and_imp, Bool.false_eq_true,
          not_false_eq_true, List.find?_cons_of_neg]
        constructor
        · rintro h _ _ rfl rfl -
          obtain ⟨x, hx, heq⟩ := Option.map_eq_some_iff.1 h.symm
          exact ⟨x, hx, heq.symm⟩
        · intro h
          obtain ⟨x, hx, heq⟩ := h a t rfl rfl he
          rw [hx, heq]
          rfl

theorem leads_iff {t : List AcceleratorEntry} {m : KeyMessage} {x : AcceleratorEntry} :
    (t.find? (·.hit m)).map command = some x.command ↔ Leads t m x := by
  unfold Leads
  rw [Option.map_eq_some_iff]
  constructor
  · rintro ⟨e, he, hc⟩
    obtain ⟨hh, before, behind, rfl, hb⟩ := List.find?_eq_some_iff_append.1 he
    exact ⟨before, e, behind, rfl, fun a ha => by simpa using hb a ha, hh, hc⟩
  · rintro ⟨before, e, behind, rfl, hb, hh, hc⟩
    refine ⟨e, List.find?_eq_some_iff_append.2 ⟨hh, before, behind, rfl, fun a ha => ?_⟩, hc⟩
    simp [hb a ha]

theorem parseEntries_eq (bytes : List (BitVec 8)) :
    parseEntries bytes
      = if (groups bytes).any Prod.fst then some (upToMark (groups bytes)) else none := by
  induction bytes using parseEntries.induct with
  | case1 flags k₀ k₁ c₀ c₁ bytes h =>
    have hb : (flags &&& 0x80#8 != 0#8) := by simpa using h
    simp [parseEntries, groups, upToMark, h, hb]
  | case2 flags k₀ k₁ c₀ c₁ bytes h ih =>
    have hb : (flags &&& 0x80#8 != 0#8) = false := by simpa using h
    rw [parseEntries, ih, if_neg h]
    cases hg : (groups bytes).any Prod.fst with
    | false => simp [groups, hb, hg]
    | true => simp [groups, upToMark, hb, hg]
  | case3 bytes h => simp [parseEntries, groups]

theorem commandParam_inj {e x : AcceleratorEntry} :
    e.commandParam = x.commandParam ↔ e.command = x.command := by
  have h : ∀ e : AcceleratorEntry, e.commandParam = 2 ^ 16 + e.command.toNat := by
    intro e
    simpa [commandParam] using (Nat.two_pow_add_eq_or_of_lt e.command.isLt 1).symm
  rw [h, h, Nat.add_left_cancel_iff, BitVec.toNat_inj]

theorem groups_of_lt {bytes : List (BitVec 8)} (h : bytes.length < 5) : groups bytes = [] := by
  unfold groups
  split
  · simp at h
    omega
  · rfl

theorem fires_iff_find {s : AcceleratorSource} {kept : List AcceleratorEntry} {m : KeyMessage}
    (h : s.load.getD [] = kept) : s.Fires m ↔
      (kept.find? (·.hit m)).map command = (s.entries.find? (·.exact m)).map command := by
  have ht : translateAccelerator s.load m = (kept.find? (·.hit m)).map commandParam := by
    rw [← h]
    cases s.load <;> rfl
  rw [Fires, ht]
  cases kept.find? (·.hit m) with
  | none => cases s.entries.find? (·.exact m) <;> simp
  | some e => cases s.entries.find? (·.exact m) <;> simp [commandParam_inj]

theorem getD_load_array (t : List AcceleratorEntry) :
    (array t).load.getD [] = if t.length ≤ 4096 then t else [] := by
  simp only [load, createAcceleratorTable]
  split_ifs with h₁ h₂ h₂
  · exact (List.length_eq_zero_iff.1 (h₁.resolve_right (Nat.not_lt.2 h₂))).symm
  · rfl
  · rfl
  · exact absurd (.inr (Nat.lt_of_not_le h₂)) h₁

theorem getD_load_resource (t : List (AcceleratorEntry × BitVec 16)) :
    (resource t).load.getD [] = readAs t := by
  simp only [load, parseAcceleratorResource, readAs, parseEntries_eq]
  by_cases hn : (encodeTable t).length ≤ 5 * 4096
  · by_cases h5 : (encodeTable t).length < 5
    · simp [h5, groups_of_lt h5, upToMark]
    · rw [if_pos hn, if_neg (by omega)]
      split_ifs with h
      · rfl
      · simp [upToMark, h]
  · rw [if_neg hn, if_pos (.inr (Nat.lt_of_not_le hn))]
    rfl

end AcceleratorSource

end TradutorLinux
