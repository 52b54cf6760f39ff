import TradutorLinux.Process.Unicode
import TradutorLinux.Util.Runs

/-!
# The texts of a list view

A list view keeps its texts in UTF-8.  The messages that set one read at most 65534 bytes or
units; the ones that get one fill an array of 65536 bytes or units before they write it.  A text
in UTF-16 is no longer than in UTF-8, but the other way round it may be three times as long.

## Main definitions

* `ListRows` — the rows of a list view; `ListRows.step` — the messages that change them.
* `ListRows.get` — the messages that get a text.
* `ListRows.StaysInside` — whatever is got fits the array and the guest's buffer.
* `ListRows.Short` — the condition.

## Main results

* `texts_stay_inside_iff`
* `not_texts_stay_inside` — a text of 30,000 units gets 90,000 bytes.
-/

namespace TradutorLinux

open Process List

def kMaxListViewColumns : ℤ := 64
def kScratchSize : ℕ := 65536

/-- A text of the guest, as it is copied. -/
inductive ListText
  | null
  | unreadable
  | narrow (t : ByteString)
  | wide (t : List UInt16)

/-- The rows, each with its columns. -/
abbrev ListRows := List (List ByteString)

/-- The messages; `item` and `subitem` are those of the `LVITEM`, `hasText` is from its mask. -/
inductive ListAction
  | insertItem (item : ℤ) (text : ListText)
  | setItem (param item subitem : ℤ) (hasText : Bool) (text : ListText)
  | deleteItem (param : ℤ)
  | deleteAllItems

/-- What `copy_guest_cstring` and `copy_guest_wstring` refuse, and the bytes that are kept;
nothing is kept of a null pointer. -/
def ListText.stored : ListText → Option (Option ByteString)
  | null => some none
  | unreadable => none
  | narrow t => if t.length < 65535 then some (some t) else none
  | wide t => if t.length < 65535 then some (some (wideToUtf8 t)) else none

/-- What is kept fits the array. -/
def ListText.Short (text : ListText) : Prop :=
  ∀ t, text.stored = some (some t) → t.length < kScratchSize

/-- What a message that gets a text does: nothing is written, the array is left, or characters
are written. -/
inductive Gotten (α : Type)
  | refused
  | outside
  | written (t : List α)

/-- `LVM_GETITEM` or `LVM_GETITEMTEXT`. -/
inductive Getter
  | item
  | itemText

/-- The prefix and the terminator. -/
def copyOut {α : Type} (zero : α) (value : List α) (capacity : ℕ) : Gotten α :=
  let count := min value.length (capacity - 1)
  if count < kScratchSize then .written (value.take count ++ [zero]) else .outside

namespace ListRows

variable (s : ListRows)

/-- The row of a message: the first number if it is one, else the second. -/
def rowAt (first second : ℤ) : Option ℕ :=
  let index := if 0 ≤ first ∧ first < s.length then first else second
  if 0 ≤ index ∧ index < s.length then some index.toNat else none

/-- A column is set, behind empty ones if it is new. -/
def setColumn (columns : List ByteString) (k : ℕ) (t : ByteString) : List ByteString :=
  (columns ++ replicate (k + 1 - columns.length) []).set k t

/-- Where a new row goes. -/
def newIndex (item : ℤ) : ℕ := if item < 0 ∨ s.length < item then s.length else item.toNat

def step : ListAction → ListRows
  | .insertItem item text =>
    match text.stored with
    | none => s
    | some t => s.insertIdx (s.newIndex item) (t.getD [] :: replicate 5 [])
  | .setItem param item subitem hasText text =>
    match s.rowAt item param, text.stored with
    | some row, some (some t) =>
      if hasText = true ∧ 0 ≤ subitem ∧ subitem < kMaxListViewColumns then
        s.modify row fun columns => setColumn columns subitem.toNat t
      else s
    | _, _ => s
  | .deleteItem param =>
    if 0 ≤ param ∧ param < s.length then s.eraseIdx param.toNat else s
  | .deleteAllItems => []

def column (row : ℕ) (subitem : ℤ) : Option ByteString :=
  if 0 ≤ subitem then (s.getD row [])[subitem.toNat]? else none

/-- The row a message gets its text from. -/
def target (param item : ℤ) : Getter → Option ℕ
  | .item => s.rowAt item param
  | .itemText => s.rowAt param item

/-- A text is got; `convert` is `utf8_to_wide` or nothing. -/
def get {α : Type} (zero : α) (convert : ByteString → List α) (param item subitem : ℤ)
    (capacity : ℕ) (g : Getter) : Gotten α :=
  match g, s.target param item g with
  | _, none => .refused
  | .item, some row =>
    match s.column row subitem with
    | some value => copyOut zero (convert value) capacity
    | none => .written [zero]
  | .itemText, some row =>
    if 0 ≤ subitem ∧ subitem < kMaxListViewColumns then
      copyOut zero (convert ((s.column row subitem).getD [])) capacity
    else .refused

/-! ### Staying inside -/

/-- What is got is the prefix of the text with a terminator, within the array and the buffer. -/
def Inside {α : Type} (zero : α) (convert : ByteString → List α) : Prop :=
  ∀ (g : Getter) (param item subitem : ℤ) (capacity : ℕ), 0 < capacity →
    s.get zero convert param item subitem capacity g = .refused ∨
    ∃ row, s.target param item g = some row ∧
      let chars := (convert ((s.column row subitem).getD [])).take (capacity - 1)
      s.get zero convert param item subitem capacity g = .written (chars ++ [zero]) ∧
        chars.length < kScratchSize ∧ chars.length < capacity

/-- Either encoding. -/
def StaysInside : Prop := s.Inside (0 : UInt8) id ∧ s.Inside (0 : UInt16) utf8ToWide

/-- A text that a message keeps has fewer than 65536 bytes. -/
def Short : ListAction → Prop
  | .insertItem _ text => text.Short
  | .setItem param item subitem hasText text =>
    (s.rowAt item param).isSome ∧ hasText = true ∧ 0 ≤ subitem ∧ subitem < kMaxListViewColumns →
      text.Short
  | _ => True

/-- Every text that is kept is short. -/
def Within : Prop := ∀ columns ∈ s, ∀ t ∈ columns, t.length < kScratchSize

/-! ### Texts in UTF-16 -/

theorem length_transcode_le {α β : Type} {decode : List α → Option ℕ × ℕ} {encode : ℕ → List β}
    (h : ∀ us, us ≠ [] → (encode ((decode us).1.getD 0x3F)).length ≤ (decode us).2 ∧
      (decode us).2 ≤ us.length) (n : ℕ) (us : List α) :
    (transcode decode encode n us).length ≤ us.length := by
  induction n generalizing us with
  | zero => exact Nat.zero_le _
  | succ n ih =>
    rw [transcode]
    split
    · exact Nat.zero_le _
    · next hn =>
      have hd := h us (by simpa using hn)
      have hr := ih (us.drop (decode us).2)
      rw [length_drop] at hr
      rw [length_append]
      omega

theorem length_utf16UnitsFor_le (n : ℕ) : (utf16UnitsFor n).length ≤ 2 := by
  unfold utf16UnitsFor
  split <;> simp

theorem two_le_leadOf {l : UInt8} {k v : ℕ} (h : leadOf l = some (k, v)) : 2 ≤ k := by
  unfold leadOf at h
  grind

/-- **A text is no longer in UTF-16.** -/
theorem length_utf8ToWide_le (t : ByteString) : (utf8ToWide t).length ≤ t.length := by
  apply length_transcode_le
  intro us hn
  cases us with
  | nil => exact absurd rfl hn
  | cons l r =>
    have ho : (utf16UnitsFor 0x3F).length = 1 := rfl
    simp only [decodeUtf8, length_cons]
    split
    · next hl =>
      have ht : l.toNat < 0x10000 := by have := l.toNat_lt; omega
      simp [utf16UnitsFor, ht]
    split
    · simp [ho]
    · next k v hk =>
      have h2 := two_le_leadOf hk
      split
      · simp [ho]
      split
      · simp [ho]
      · next c _ =>
        have hc := length_utf16UnitsFor_le c
        split
        · exact ⟨by rw [Option.getD_none, ho]; omega, by omega⟩
        · exact ⟨hc.trans h2, by omega⟩

/-! ### The array -/

section Array

variable {α : Type} {zero : α} {convert : ByteString → List α} {s : ListRows}

theorem copyOut_written {v : List α} {n : ℕ} (h : v.length < kScratchSize) :
    copyOut zero v n = .written (v.take (n - 1) ++ [zero]) := by
  have hm : min v.length (n - 1) < kScratchSize := lt_of_le_of_lt (Nat.min_le_left _ _) h
  rw [copyOut, if_pos hm]
  simp [min_comm]

theorem copyOut_outside {v : List α} {n : ℕ} (h : kScratchSize ≤ v.length)
    (hc : kScratchSize < n) : copyOut zero v n = .outside := by
  have hm : ¬ min v.length (n - 1) < kScratchSize := by omega
  rw [copyOut, if_neg hm]

theorem length_column_lt (h : s.Within) (r : ℕ) (c : ℤ) :
    ((s.column r c).getD []).length < kScratchSize := by
  unfold column
  split
  · cases hc : (s.getD r [])[c.toNat]? with
    | none => decide
    | some t =>
      have hm := mem_of_getElem? hc
      rcases hr : s[r]? with _ | cs
      · simp [getD_eq_getElem?_getD, hr] at hm
      · rw [getD_eq_getElem?_getD, hr] at hm
        exact h cs (mem_of_getElem? hr) t hm
  · decide

theorem Within.inside (h : s.Within) (hz : convert [] = [])
    (he : ∀ t, (convert t).length ≤ t.length) : s.Inside zero convert := by
  intro g p item c n hp
  cases ht : s.target p item g with
  | none =>
    left
    cases g <;> simp [get, ht]
  | some r =>
    have hl := (he _).trans_lt (length_column_lt h r c)
    have ho : copyOut zero _ n = _ := copyOut_written hl
    have hf : ((convert ((s.column r c).getD [])).take (n - 1)).length <
        kScratchSize ∧ ((convert ((s.column r c).getD [])).take (n - 1)).length <
          n := by
      rw [length_take]
      omega
    cases g with
    | item =>
      refine .inr ⟨r, rfl, ?_, hf⟩
      simp only [get, ht]
      cases hc : s.column r c with
      | none => simp [hz]
      | some v =>
        rwa [hc] at ho
    | itemText =>
      simp only [get, ht]
      split
      · exact .inr ⟨r, rfl, ho, hf⟩
      · exact .inl rfl

end Array

/-! ### Runs -/

section Steps

variable {s s' : ListRows} {a : ListAction} {r : ℕ} {item : ℤ} {t : ByteString}

theorem newIndex_le (s : ListRows) (item : ℤ) : s.newIndex item ≤ s.length := by
  unfold newIndex
  split <;> omega

theorem lt_of_rowAt {p : ℤ} (h : s.rowAt item p = some r) : r < s.length := by
  simp only [rowAt] at h
  generalize (if 0 ≤ item ∧ item < s.length then item else p) = index at h
  split at h
  · obtain rfl := Option.some.inj h
    omega
  · cases h

theorem rowAt_self (h : r < s.length) (p : ℤ) : s.rowAt r p = some r := by
  have hi : (0 : ℤ) ≤ r ∧ (r : ℤ) < s.length := by omega
  simp [rowAt, hi]

theorem mem_setColumn {cs : List ByteString} {k : ℕ} {u : ByteString}
    (h : u ∈ setColumn cs k t) : u ∈ cs ∨ u = [] ∨ u = t := by
  rcases mem_or_eq_of_mem_set h with hm | rfl
  · rcases mem_append.1 hm with hm | hm
    · exact .inl hm
    · exact .inr (.inl (mem_replicate.1 hm).2)
  · exact .inr (.inr rfl)

theorem getElem?_setColumn (cs : List ByteString) (k : ℕ) : (setColumn cs k t)[k]? = some t := by
  refine getElem?_set_self ?_
  rw [length_append, length_replicate]
  omega

theorem within_step (h : s.Within) (ha : s.Short a) : (s.step a).Within := by
  cases a with
  | insertItem item text =>
    rw [step]
    split
    · exact h
    · next kept hk =>
      intro cs hc u hu
      rcases (mem_insertIdx (newIndex_le s item)).1 hc with rfl | hc
      · rcases mem_cons.1 hu with rfl | hu
        · cases kept with
          | none => decide
          | some t => exact ha t hk
        · rw [(mem_replicate.1 hu).2]
          decide
      · exact h cs hc u hu
  | setItem p item c b text =>
    rw [step]
    split
    · next r t hr ht =>
      split
      · next he =>
        have hs : t.length < kScratchSize := ha ⟨by rw [hr]; rfl, he⟩ t ht
        intro cs hc u hu
        obtain ⟨i, hi⟩ := mem_iff_getElem?.1 hc
        rw [getElem?_modify] at hi
        obtain ⟨o, hold, rfl⟩ := Option.map_eq_some_iff.1 hi
        have hm := mem_of_getElem? hold
        split at hu
        · rcases mem_setColumn hu with hu | rfl | rfl
          · exact h o hm u hu
          · decide
          · exact hs
        · exact h o hm u hu
      · exact h
    · exact h
  | deleteItem p =>
    rw [step]
    split
    · intro cs hc
      exact h cs (mem_of_mem_eraseIdx hc)
    · exact h
  | deleteAllItems =>
    intro cs hc
    cases hc

/-- A long text leaves the array. -/
theorem not_staysInside (hr : r < s.length) {k : ℕ} (hc : (s.getD r [])[k]? = some t)
    (hl : kScratchSize ≤ t.length) : ¬ s.StaysInside := by
  intro h
  have hco : s.column r k = some t := by
    exact hc
  have ho : s.get (0 : UInt8) id 0 r k (kScratchSize + 1) .item = .outside := by
    simp only [get, target, rowAt_self hr, hco, id]
    exact copyOut_outside hl (Nat.lt_succ_self _)
  rcases h.1 .item 0 r k _ (Nat.succ_pos _) with hg | ⟨_, -, hg, -⟩
  · rw [ho] at hg
    cases hg
  · rw [ho] at hg
    cases hg

/-- **Under the invariant, a message leaves the texts inside exactly if its own is short.** -/
theorem staysInside_step_iff (h : s.Within) : (s.step a).StaysInside ↔ s.Short a := by
  constructor
  · intro hi
    cases a with
    | insertItem item text =>
      intro t ht
      by_contra hl
      have he := newIndex_le s item
      refine not_staysInside (r := s.newIndex item) (k := 0) (t := t) ?_ ?_ (not_lt.1 hl) hi
      · simp only [step, ht, length_insertIdx, if_pos he]
        omega
      · simp [step, ht, getElem?_insertIdx_self, he]
    | setItem p item c b text =>
      rintro ⟨hr, hs⟩ t ht
      by_contra hl
      obtain ⟨r, hr⟩ := Option.isSome_iff_exists.1 hr
      have hlt := lt_of_rowAt hr
      refine not_staysInside (r := r) (k := c.toNat) (t := t) ?_ ?_ (not_lt.1 hl) hi
      · simp [step, ht, hr, hs, hlt]
      · simp [step, ht, hr, hs, hlt, getElem?_setColumn]
    | deleteItem => trivial
    | deleteAllItems => trivial
  · intro ha
    have hw := within_step h ha
    exact ⟨hw.inside rfl fun _ => le_refl _, hw.inside rfl length_utf8ToWide_le⟩

end Steps

/-- The messages as a machine. -/
def next (s : ListRows) (a : ListAction) : Option ListRows := some (s.step a)

/-- **A list view never leaves the array exactly if every text it is given has fewer than 65536
bytes in UTF-8.** -/
theorem texts_stay_inside_iff (as : List ListAction) :
    EachStep next (fun _ _ s' => s'.StaysInside) [] as ↔
      EachStep next (fun s a _ => s.Short a) [] as := by
  refine eachStep_iff (I := Within) ?_ ?_ (fun _ hc => by cases hc) as
  · rintro s a _ hs ⟨⟩
    exact staysInside_step_iff hs
  · rintro s a _ hs ha ⟨⟩
    exact within_step hs ha

theorem length_encoded {α : Type} (f : Char → List α) (n : ℕ) (c : Char) :
    ((replicate n c).flatMap f).length = n * (f c).length := by
  simp [length_flatMap]

theorem not_texts_stay_inside : ¬ ∀ as, EachStep next (fun _ _ s' => s'.StaysInside) [] as := by
  intro h
  let chars := replicate 30000 '€'
  have hi := (h [.insertItem 0 (.wide (utf16 chars))] _ rfl).1
  have he : (utf16 chars).length = 30000 * 1 := length_encoded _ 30000 '€'
  have hw : (utf8 chars).length = 30000 * 3 := length_encoded _ 30000 '€'
  have ht : wideToUtf8 (utf16 chars) = utf8 chars := by
    apply wideToUtf8_encoded
    intro c hc
    rw [(mem_replicate.1 hc).2]
    decide
  have hs : (ListText.wide (utf16 chars)).stored = some (some (utf8 chars)) := by
    rw [ListText.stored, if_pos (by omega), ht]
  have hl := (staysInside_step_iff (fun _ hc => by cases hc)).1 hi (utf8 chars) hs
  rw [hw] at hl
  exact absurd hl (by decide)

end ListRows
end TradutorLinux
