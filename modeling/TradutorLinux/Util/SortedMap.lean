import Mathlib.Data.List.Basic
import Mathlib.Order.Lattice

/-!
# Maps in the order of their keys

A map whose entries hold their own keys, listed from the least key to the greatest.
No key is there twice, so the list says which map it is, and putting the entries of a
map into an empty one gives it back.

## Main definitions

* `SortedMap ε key` — the entries, in the order of `key`.
* `SortedMap.insertOrAssign`, `SortedMap.erase` — with one entry more or changed, and without one.
* `SortedMap.ofList` — the entries of a list, a later one in place of an earlier.

## Main results

* `SortedMap.ofList_entries` — **a map is the map of its own entries.**
-/

namespace TradutorLinux

open List

/-- A map from keys to the entries that hold them. -/
@[ext] structure SortedMap {κ : Type} [LinearOrder κ] (ε : Type) (key : ε → κ) where
  entries : List ε
  sorted : entries.Pairwise fun a b => key a < key b

namespace SortedMap

variable {κ ε : Type} [LinearOrder κ] {key : ε → κ}

/-- Put an entry at its place, over the one with its key. -/
def insertSorted (key : ε → κ) (e : ε) : List ε → List ε
  | [] => [e]
  | x :: rest =>
    if key e < key x then e :: x :: rest
    else if key e = key x then e :: rest
    else x :: insertSorted key e rest

theorem mem_insertSorted {e x : ε} {l : List ε} (h : x ∈ insertSorted key e l) : x = e ∨ x ∈ l := by
  induction l with
  | nil => exact .inl (mem_singleton.1 h)
  | cons y r ih =>
    rw [insertSorted] at h
    split_ifs at h with hl heq
    · exact mem_cons.1 h
    · exact (mem_cons.1 h).imp_right (mem_cons_of_mem y)
    · rcases mem_cons.1 h with rfl | hm
      · exact .inr mem_cons_self
      · exact (ih hm).imp_right (mem_cons_of_mem y)

theorem pairwise_insertSorted (e : ε) {l : List ε} (h : l.Pairwise fun a b => key a < key b) :
    (insertSorted key e l).Pairwise fun a b => key a < key b := by
  induction l with
  | nil => exact pairwise_singleton _ e
  | cons y r ih =>
    obtain ⟨hf, hr⟩ := pairwise_cons.1 h
    rw [insertSorted]
    split_ifs with hl heq
    · refine pairwise_cons.2 ⟨fun z hz => ?_, h⟩
      rcases mem_cons.1 hz with rfl | hm
      · exact hl
      · exact hl.trans (hf z hm)
    · exact pairwise_cons.2 ⟨fun z hz => heq ▸ hf z hz, hr⟩
    · refine pairwise_cons.2 ⟨fun z hz => ?_, ih hr⟩
      rcases mem_insertSorted hz with rfl | hm
      · exact lt_of_le_of_ne (not_lt.1 hl) (Ne.symm heq)
      · exact hf z hm

theorem insertSorted_of_lt {e : ε} {l : List ε} (h : ∀ x ∈ l, key x < key e) :
    insertSorted key e l = l ++ [e] := by
  induction l with
  | nil => rfl
  | cons y r ih =>
    have hl := h y mem_cons_self
    rw [insertSorted, if_neg hl.asymm, if_neg hl.ne', ih fun x hx =>
      h x (mem_cons_of_mem y hx), cons_append]

/-! ### The operations -/

def empty : SortedMap ε key := ⟨[], List.Pairwise.nil⟩

/-- `insert_or_assign`. -/
def insertOrAssign (m : SortedMap ε key) (e : ε) : SortedMap ε key :=
  ⟨insertSorted key e m.entries, pairwise_insertSorted e m.sorted⟩

/-- `erase`. -/
def erase (m : SortedMap ε key) (k : κ) : SortedMap ε key :=
  ⟨m.entries.filter fun e => key e ≠ k, m.sorted.filter _⟩

/-- One entry after another. -/
def ofList (l : List ε) : SortedMap ε key := l.foldl insertOrAssign empty

variable {m : SortedMap ε key} {e x : ε}

theorem mem_insertOrAssign (h : x ∈ (m.insertOrAssign e).entries) : x = e ∨ x ∈ m.entries :=
  mem_insertSorted h

theorem mem_of_mem_erase {k : κ} (h : x ∈ (m.erase k).entries) : x ∈ m.entries :=
  mem_of_mem_filter h

theorem mem_of_mem_foldl (l : List ε) :
    ∀ m : SortedMap ε key, x ∈ (l.foldl insertOrAssign m).entries → x ∈ m.entries ∨ x ∈ l := by
  induction l with
  | nil => exact fun m h => .inl h
  | cons e l ih =>
    intro m h
    rcases ih _ h with hm | hl
    · rcases mem_insertOrAssign hm with rfl | he
      · exact .inr mem_cons_self
      · exact .inl he
    · exact .inr (mem_cons_of_mem e hl)

theorem mem_of_mem_ofList {l : List ε} (h : x ∈ (ofList l : SortedMap ε key).entries) : x ∈ l :=
  (mem_of_mem_foldl l empty h).resolve_left not_mem_nil

theorem entries_foldl_insertOrAssign (l : List ε) :
    ∀ m : SortedMap ε key, (m.entries ++ l).Pairwise (fun a b => key a < key b) →
      (l.foldl insertOrAssign m).entries = m.entries ++ l := by
  induction l with
  | nil => intro m _; exact (append_nil _).symm
  | cons e l ih =>
    intro m h
    have hl : (m.insertOrAssign e).entries = m.entries ++ [e] :=
      insertSorted_of_lt fun x hx => (pairwise_append.1 h).2.2 x hx e mem_cons_self
    have hr := ih (m.insertOrAssign e)
    rw [hl, append_assoc, singleton_append] at hr
    exact hr h

/-- **A map is the map of its own entries.** -/
theorem ofList_entries (m : SortedMap ε key) : ofList m.entries = m :=
  SortedMap.ext (entries_foldl_insertOrAssign m.entries empty m.sorted)

end SortedMap
end TradutorLinux
