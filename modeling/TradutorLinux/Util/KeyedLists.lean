import Mathlib.Data.List.Nodup

/-!
# Lists with keys that may come more than once

What entries of a list have a key, when an entry is put at the end or in the
place of the first one with its key.

## Main definitions

* `withKey`
* `lookupKey` — the first of them.
* `upsert`

## Main results

* `withKey_set`
* `lookupKey_upsert`, `withKey_eraseP` — what the two changes do to every key.
-/

namespace TradutorLinux

open List

universe u v

variable {α : Type u} {κ : Type v} [DecidableEq κ] {key : α → κ}

/-- The entries with the key. -/
def withKey (key : α → κ) (l : List α) (k : κ) : List α := l.filter fun a => decide (key a = k)

variable {l : List α} {a : α} {k : κ}

theorem mem_withKey : a ∈ withKey key l k ↔ a ∈ l ∧ key a = k := by simp [withKey]

theorem exists_getLast?_withKey (h : a ∈ l) : ∃ b, (withKey key l (key a)).getLast? = some b := by
  apply Option.ne_none_iff_exists'.1
  exact mt getLast?_eq_none_iff.1 (ne_nil_of_mem (mem_withKey.2 ⟨h, rfl⟩))

theorem withKey_cons : withKey key (a :: l) k =
    if key a = k then a :: withKey key l k else withKey key l k := by
  unfold withKey
  by_cases h : key a = k <;> simp [h]

theorem withKey_append {l' : List α} :
    withKey key (l ++ l') k = withKey key l k ++ withKey key l' k := filter_append ..

theorem withKey_concat : withKey key (l ++ [a]) k =
    if key a = k then withKey key l k ++ [a] else withKey key l k := by
  rw [withKey_append, withKey_cons]
  split <;> simp [withKey]

theorem withKey_eq_nil_iff :
    withKey key l k = [] ↔ (l.findIdx? fun b => decide (key b = k)) = none := by
  simp [withKey, findIdx?_eq_none_iff]

/-- **The first entry with its key is replaced.** -/
theorem withKey_set {i : ℕ} (h : (l.findIdx? fun b => decide (key b = key a)) = some i) :
    withKey key (l.set i a) k =
      if key a = k then a :: (withKey key l k).tail else withKey key l k := by
  induction l generalizing i with
  | nil => cases h
  | cons b l ih =>
    rw [findIdx?_cons] at h
    by_cases hb : key b = key a
    · obtain rfl : i = 0 := by simpa [hb, eq_comm] using h
      rw [set_cons_zero, withKey_cons, withKey_cons, hb]
      split <;> rfl
    · simp only [hb, decide_false, Bool.false_eq_true, if_false] at h
      obtain ⟨j, hj, rfl⟩ := Option.map_eq_some_iff.1 h
      rw [set_cons_succ, withKey_cons, withKey_cons, ih hj]
      by_cases hk : key a = k
      · simp [hk, show ¬key b = k from fun heq => hb (heq.trans hk.symm)]
      · simp [hk]

/-! ### The first entry of a key -/

/-- The entry that a key has. -/
def lookupKey (key : α → κ) (l : List α) (k : κ) : Option α :=
  l.find? fun a => decide (key a = k)

/-- The first entry with the key of `a` becomes `a`; without one, `a` comes to the end. -/
def upsert (key : α → κ) (l : List α) (a : α) : List α :=
  match l.findIdx? fun b => decide (key b = key a) with
  | some i => l.set i a
  | none => l ++ [a]

theorem lookupKey_eq_head? : lookupKey key l k = (withKey key l k).head? := by
  unfold lookupKey withKey
  rw [head?_filter]

theorem key_of_lookupKey (h : lookupKey key l k = some a) : a ∈ l ∧ key a = k :=
  ⟨mem_of_find?_eq_some h, by simpa using find?_some h⟩

theorem lookupKey_append {l' : List α} :
    lookupKey key (l ++ l') k = (lookupKey key l k).or (lookupKey key l' k) := find?_append

theorem lookupKey_eq_none : lookupKey key l k = none ↔ ∀ a ∈ l, key a ≠ k := by simp [lookupKey]

theorem lookupKey_filter {p : α → Bool} (h : lookupKey key l k = some a) (ha : p a) :
    lookupKey key (l.filter p) k = some a := by
  obtain ⟨hk, f, ba, rfl, hf⟩ := find?_eq_some_iff_append.1 h
  rw [filter_append, filter_cons_of_pos ha]
  refine find?_eq_some_iff_append.2 ⟨hk, f.filter p, ba.filter p, rfl, ?_⟩
  exact fun b hb => hf b (mem_of_mem_filter hb)

theorem withKey_upsert : withKey key (upsert key l a) k =
    if key a = k then a :: (withKey key l k).tail else withKey key l k := by
  unfold upsert
  split
  · next i hi => exact withKey_set hi
  next hn =>
  rw [withKey_concat]
  split
  · next hk =>
    subst hk
    rw [withKey_eq_nil_iff.2 hn]
    rfl
  · rfl

theorem mem_upsert {b : α} (h : b ∈ upsert key l a) : b ∈ l ∨ b = a := by
  unfold upsert at h
  split at h
  · exact mem_or_eq_of_mem_set h
  · simpa using h

/-- **The key of the new entry has that entry, the others have what they had.** -/
theorem lookupKey_upsert :
    lookupKey key (upsert key l a) k = if key a = k then some a else lookupKey key l k := by
  rw [lookupKey_eq_head?, withKey_upsert, lookupKey_eq_head?]
  split <;> rfl

theorem lookupKey_filter_key (p : κ → Bool) :
    lookupKey key (l.filter fun a => p (key a)) k = if p k then lookupKey key l k else none := by
  induction l with
  | nil => split <;> rfl
  | cons a l ih =>
    unfold lookupKey at ih ⊢
    by_cases ha : key a = k
    · cases hk : p k <;> simp_all
    · cases hp : p (key a) <;> simp [hp, ha, ih]

/-- **Entries with a key each come before those of the list that they are put in.** -/
theorem lookupKey_foldl_upsert {m : List α} (h : (m.map key).Nodup) :
    lookupKey key (m.foldl (upsert key) l) k = (lookupKey key m k).or (lookupKey key l k) := by
  induction m generalizing l with
  | nil => rfl
  | cons a m ih =>
    rw [map_cons, nodup_cons] at h
    rw [foldl_cons, ih h.2, lookupKey_upsert]
    by_cases ha : key a = k
    · have hn : lookupKey key m k = none := by
        rw [lookupKey_eq_none]
        intro b hb heq
        exact h.1 (mem_map.2 ⟨b, hb, heq.trans ha.symm⟩)
      rw [hn, if_pos ha]
      simp [ha, lookupKey]
    · simp [ha, lookupKey]

/-- **The key of the erased entry loses its first, the others nothing.** -/
theorem withKey_eraseP {k₀ : κ} : withKey key (l.eraseP fun a => decide (key a = k₀)) k =
    if k = k₀ then (withKey key l k).tail else withKey key l k := by
  induction l with
  | nil => split <;> rfl
  | cons b l ih =>
    by_cases hb : key b = k₀
    · rw [eraseP_cons_of_pos (by simpa using hb), withKey_cons, hb]
      by_cases hk : k = k₀
      · rw [if_pos hk, if_pos hk.symm, tail_cons]
      · rw [if_neg hk, if_neg (Ne.symm hk)]
    · rw [eraseP_cons_of_neg (by simpa using hb), withKey_cons, ih, withKey_cons]
      by_cases hk : k = k₀
      · subst hk
        simp [hb]
      · simp [hk]

/-! ### Lists with every key once -/

theorem lookupKey_eq_some (h : (l.map key).Nodup) :
    lookupKey key l k = some a ↔ a ∈ l ∧ key a = k := by
  constructor
  · exact key_of_lookupKey
  · rintro ⟨hm, rfl⟩
    cases hf : lookupKey key l (key a) with
    | none => exact absurd rfl (lookupKey_eq_none.1 hf a hm)
    | some b =>
      obtain ⟨hb, hk⟩ := key_of_lookupKey hf
      rw [inj_on_of_nodup_map h hb hm hk]

/-- **The order of the list does not matter.** -/
theorem lookupKey_perm {l' : List α} (hp : l.Perm l') (h : (l.map key).Nodup) :
    lookupKey key l k = lookupKey key l' k := by
  have h' : (l'.map key).Nodup := (hp.map key).nodup_iff.1 h
  apply Option.ext
  intro a
  rw [lookupKey_eq_some h, lookupKey_eq_some h', hp.mem_iff]

theorem upsert_of_notMem (h : key a ∉ l.map key) : upsert key l a = l ++ [a] := by
  have hn : (l.findIdx? fun b => decide (key b = key a)) = none := by
    rw [findIdx?_eq_none_iff]
    intro b hb
    exact decide_eq_false fun heq => h (mem_map.2 ⟨b, hb, heq⟩)
  simp [upsert, hn]

theorem nodup_upsert (h : (l.map key).Nodup) : ((upsert key l a).map key).Nodup := by
  by_cases hm : key a ∈ l.map key
  · have hke : (upsert key l a).map key = l.map key := by
      unfold upsert
      split
      · next i hi =>
        obtain ⟨hl, he, -⟩ := findIdx?_eq_some_iff_getElem.1 hi
        have hl' : i < (l.map key).length := by simpa using hl
        have hs : (l.map key)[i] = key a := by simpa using he
        rw [map_set, ← hs, set_getElem_self]
      · next hn =>
        obtain ⟨b, hb, heq⟩ := mem_map.1 hm
        have hf := findIdx?_eq_none_iff.1 hn b hb
        exact absurd (decide_eq_true heq) (by simp [hf])
    rwa [hke]
  · rw [upsert_of_notMem hm, map_append, map_singleton]
    refine List.Nodup.append h (nodup_singleton _) ?_
    intro k hk hsi
    rw [mem_singleton.1 hsi] at hk
    exact hm hk

end TradutorLinux
