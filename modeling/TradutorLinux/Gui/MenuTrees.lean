import TradutorLinux.Gui.Menus
import TradutorLinux.Util.Sweeps

/-!
# Trees of menus

An item names the menu in the slot that it points to.  What is below a menu is
what it leads to, and a menu is freed with what is below it.

## Main definitions

* `MenuState.Names`, `MenuState.Below` — a menu names another, or leads to it.
* `MenuIntegrity`, `MenuProjected`
* `MenuSound` — with what else is true of the slots.

## Main results

* `freed_destroyTree`, `sound_freed`
-/

namespace TradutorLinux

open Function List MenuState

def MenuSlot.pointers (menu : MenuSlot) : List SubmenuPointer :=
  menu.logicalItems.filterMap MenuItem.submenu

namespace MenuState

variable (s : MenuState)

/-- A live menu has an item that points to a slot. -/
def Names (i j : MenuIndex) : Prop :=
  (s.menus i).used = true ∧ ∃ pointer ∈ (s.menus i).pointers, pointer.slot = j

/-- A menu is another, or leads to it. -/
def Below : MenuIndex → MenuIndex → Prop := Relation.ReflTransGen s.Names

def Closed (i : MenuIndex) : Prop := ∀ k j, s.Names k j → s.Below i j → s.Below i k

end MenuState

/-- Pointers name live menus, those that they were set to, and no menu is below itself. -/
structure MenuIntegrity (s : MenuState) : Prop where
  live : ∀ i, (s.menus i).used = true → ∀ pointer ∈ (s.menus i).pointers,
    (s.menus pointer.slot).used = true ∧ (s.menus pointer.slot).serial = pointer.serial
  acyclic : ∀ i, ¬ Relation.TransGen s.Names i i

/-- A popup list shows the items of its menu. -/
def MenuProjected (s : MenuState) : Prop :=
  ∀ i, (s.menus i).used = true →
    (s.menus i).items = (s.menus i).logicalItems.map MenuItem.popup

structure MenuSound (s : MenuState) : Prop extends MenuIntegrity s where
  free : ∀ i, (s.menus i).used = false → s.menus i = {}
  few : ∀ i, (s.menus i).pointers.length ≤ 256

/-- A menu has been freed with what is below it. -/
structure Freed (s : MenuState) (m : MenuIndex) (s' : MenuState) : Prop where
  cleared : ∀ j, s.Below m j → s'.menus j = {}
  kept : ∀ j, ¬ s.Below m j → s'.menus j = s.menus j
  allocated : s'.allocated = s.allocated
  dummy : s'.dummyCount = s.dummyCount

variable {s s' : MenuState} {m i j k : MenuIndex}

/-! ### Destruction -/

def clearMenus (menus : Menus) (live : MenuIndex → Bool) : Menus :=
  fun j => if live j = true then menus j else {}

theorem destroyMenuTree_eq {ms : Menus} {n : ℕ} {l : MenuIndex → Bool}
    (hl : ∀ j, l j → (ms j).used) (hm : l m) :
    destroyMenuTree n (clearMenus ms l) m =
      (sweep (fun j => submenuSlots (ms j)) n l m).map (clearMenus ms) := by
  induction n generalizing l m with
  | zero => rfl
  | succ n ih =>
    have ho : ∀ (r : List MenuIndex) (nw : MenuIndex → Bool),
        (∀ j, nw j → (ms j).used) →
        r.foldlM (fun ms ch =>
          if ch ≠ m ∧ (ms ch).used then destroyMenuTree n ms ch
          else some ms) (clearMenus ms nw) =
        (r.foldlM (fun l c => if c ≠ m ∧ l c then
          sweep (fun j => submenuSlots (ms j)) n l c else some l) nw).map (clearMenus ms) := by
      intro r
      induction r with
      | nil =>
        intro nw _
        rfl
      | cons c r ir =>
        intro nw hn
        have hu : (clearMenus ms nw c).used ↔ nw c := by
          unfold clearMenus
          split
          · next hc => simp [hn c hc, hc]
          · next hc => simp [hc]
        rw [foldlM_cons, foldlM_cons]
        simp only [hu]
        by_cases hc : c ≠ m ∧ nw c
        · rw [if_pos hc, if_pos hc, ih hn hc.2]
          cases hs : sweep (fun j => submenuSlots (ms j)) n nw c with
          | none => rfl
          | some next => exact ir next fun j hj => hn j (sweep_subset hs hj)
        · rw [if_neg hc, if_neg hc]
          exact ir nw hn
    have hk : clearMenus ms l m = ms m := if_pos hm
    unfold destroyMenuTree sweep
    rw [hk, ho _ _ hl, Option.map_map, Option.map_map]
    congr 1
    funext nw
    funext j
    by_cases hj : j = m
    · simp [hj, clearMenus]
    · simp [update_of_ne hj, clearMenus]

theorem submenuSlots_eq (mu : MenuSlot) (hf : mu.pointers.length ≤ 256) :
    submenuSlots mu = mu.pointers.map SubmenuPointer.slot := by
  unfold submenuSlots
  rw [← map_filterMap]
  apply take_of_length_le
  rw [length_map]
  exact hf

/-- **A live menu is freed, with exactly what is below it.** -/
theorem freed_destroyTree (h : MenuSound s) (hm : (s.menus m).used) :
    ∃ s', s.destroyTree m = some s' ∧ Freed s m s' := by
  -- the links of the sweep are the names
  have hi : ∀ a b, Link (fun j => submenuSlots (s.menus j)) (fun j => (s.menus j).used) a b ↔
      s.Names a b := by
    intro a b
    dsimp only [Link, MenuState.Names]
    rw [submenuSlots_eq _ (h.few a), mem_map]
    constructor
    · rintro ⟨ha, -, hn⟩
      exact ⟨ha, hn⟩
    · rintro ⟨ha, p, hp, rfl⟩
      exact ⟨ha, (h.live a ha p hp).1, p, hp, rfl⟩
  have hbe : ∀ b, LinkBelow (fun j => submenuSlots (s.menus j))
      (fun j => (s.menus j).used) m b ↔ s.Below m b := by
    intro b
    have hsa : Link (fun j => submenuSlots (s.menus j)) (fun j => (s.menus j).used) = s.Names := by
      funext a b
      exact propext (hi a b)
    unfold LinkBelow MenuState.Below
    rw [hsa]
  obtain ⟨r, hr, ht⟩ := exists_rank h.acyclic
  have hd : r m < kDestroyDepth := by
    have := ht m
    rwa [Fintype.card_fin] at this
  have ho : ∀ a b, Link (fun j => submenuSlots (s.menus j)) (fun j => (s.menus j).used) a b →
      r b < r a := fun a b hab => hr a b ((hi a b).1 hab)
  obtain ⟨l, hw, hs⟩ := sweep_eq ho hm hd
  have hal : clearMenus s.menus (fun j => (s.menus j).used) = s.menus := by
    funext j
    unfold clearMenus
    split
    · rfl
    · next hj => exact (h.free j (by simpa using hj)).symm
  have he : destroyMenuTree kDestroyDepth (clearMenus s.menus fun j => (s.menus j).used) m =
      (sweep (fun j => submenuSlots (s.menus j)) kDestroyDepth (fun j => (s.menus j).used) m).map
        (clearMenus s.menus) := destroyMenuTree_eq (fun _ => id) hm
  rw [hal, hw, Option.map_some] at he
  refine ⟨{ s with menus := clearMenus s.menus l }, ?_, ?_, ?_, rfl, rfl⟩
  · unfold destroyTree
    rw [he]
    rfl
  · intro j hj
    have hg : ¬ l j := fun hl => ((hs j).1 hl).2 ((hbe j).2 hj)
    exact if_neg hg
  · intro j hj
    by_cases hu : (s.menus j).used
    · exact if_pos ((hs j).2 ⟨hu, fun hb => hj ((hbe j).1 hb)⟩)
    · have hg : ¬ l j := fun hl => hu ((hs j).1 hl).1
      exact (if_neg hg).trans (h.free j (by simpa using hu)).symm

/-- What is freed is named from what is freed only: the pointers that are left name what they
did. -/
theorem sound_freed (h : MenuSound s) (hf : Freed s m s') (hc : s.Closed m) : MenuSound s' := by
  have hk : ∀ j, (s'.menus j).used → ¬ s.Below m j := by
    intro j hj hb
    rw [hf.cleared j hb] at hj
    cases hj
  have hn : ∀ a b, s'.Names a b → s.Names a b := by
    rintro a b ⟨ha, hp⟩
    have hs := hf.kept a (hk a ha)
    exact ⟨hs ▸ ha, hs ▸ hp⟩
  refine { live := ?_, acyclic := acyclic_mono h.acyclic hn, free := ?_, few := ?_ }
  · intro a ha p hp
    have hnot := hk a ha
    have hs := hf.kept a hnot
    rw [hs] at ha hp
    have hl : ¬ s.Below m p.slot := fun hb => hnot (hc a p.slot ⟨ha, p, hp, rfl⟩ hb)
    rw [hf.kept _ hl]
    exact h.live a ha p hp
  · intro j hj
    by_cases hb : s.Below m j
    · exact hf.cleared j hb
    · rw [hf.kept j hb] at hj ⊢
      exact h.free j hj
  · intro j
    by_cases hb : s.Below m j
    · rw [hf.cleared j hb]
      exact Nat.zero_le _
    · rw [hf.kept j hb]
      exact h.few j

/-! ### One slot changes -/

@[simp] theorem MenuState.setSlot_self (s : MenuState) (i : MenuIndex) (menu : MenuSlot) :
    (s.setSlot i menu).menus i = menu := update_self _ _ _

theorem MenuState.setSlot_of_ne (s : MenuState) {i j : MenuIndex} (mu : MenuSlot) (h : j ≠ i) :
    (s.setSlot i mu).menus j = s.menus j := update_of_ne h _ _

theorem soundMenus_congr (h : MenuSound s) (hm : s'.menus = s.menus) : MenuSound s' := by
  obtain ⟨ms', a', dc'⟩ := s'
  cases hm
  exact ⟨⟨h.live, h.acyclic⟩, h.free, h.few⟩

/-- The items of one menu change; each pointer is an old one, or names a live menu that does not
lead to this one. -/
theorem sound_setSlot (h : MenuSound s) {mu : MenuSlot} (hi : (s.menus i).used)
    (hu : mu.used) (hr : mu.serial = (s.menus i).serial)
    (hn : ∀ p ∈ mu.pointers, p ∈ (s.menus i).pointers ∨
      (s.menus p.slot).used ∧ (s.menus p.slot).serial = p.serial ∧
        ¬ s.Below p.slot i) (hf : mu.pointers.length ≤ 256) : MenuSound (s.setSlot i mu) := by
  have hs : ∀ j, ((s.setSlot i mu).menus j).used = (s.menus j).used ∧
      ((s.setSlot i mu).menus j).serial = (s.menus j).serial := by
    intro j
    by_cases hj : j = i
    · subst hj
      rw [setSlot_self]
      exact ⟨hu.trans hi.symm, hr⟩
    · rw [setSlot_of_ne _ _ hj]
      exact ⟨rfl, rfl⟩
  refine { live := ?_, acyclic := ?_, free := ?_, few := ?_ }
  · intro a ha p hp
    rw [(hs a).1] at ha
    rw [(hs p.slot).1, (hs p.slot).2]
    by_cases hai : a = i
    · subst hai
      rw [setSlot_self] at hp
      rcases hn p hp with hold | ⟨hl, hps, -⟩
      · exact h.live a ha p hold
      · exact ⟨hl, hps⟩
    · rw [setSlot_of_ne _ _ hai] at hp
      exact h.live a ha p hp
  · apply acyclic_add (m := i)
      (q := fun b => ∃ p ∈ mu.pointers, p ∉ (s.menus i).pointers ∧ p.slot = b)
      h.acyclic
    · rintro a b ⟨ha, p, hp, rfl⟩
      rw [(hs a).1] at ha
      by_cases hai : a = i
      · subst hai
        rw [setSlot_self] at hp
        by_cases hold : p ∈ (s.menus a).pointers
        · exact .inl ⟨ha, p, hold, rfl⟩
        · exact .inr ⟨rfl, p, hp, hold, rfl⟩
      · rw [setSlot_of_ne _ _ hai] at hp
        exact .inl ⟨ha, p, hp, rfl⟩
    · rintro b ⟨p, hp, he, rfl⟩
      exact ((hn p hp).resolve_left he).2.2
  · intro j hj
    by_cases hji : j = i
    · subst hji
      rw [setSlot_self, hu] at hj
      cases hj
    · rw [setSlot_of_ne _ _ hji] at hj ⊢
      exact h.free j hj
  · intro j
    by_cases hji : j = i
    · subst hji
      rw [setSlot_self]
      exact hf
    · rw [setSlot_of_ne _ _ hji]
      exact h.few j

theorem sound_setSlot_of_sublist (h : MenuSound s) {mu : MenuSlot}
    (hi : (s.menus i).used) (hu : mu.used) (hs : mu.serial = (s.menus i).serial)
    (ho : mu.pointers.Sublist (s.menus i).pointers) : MenuSound (s.setSlot i mu) :=
  sound_setSlot h hi hu hs (fun _ hp => .inl (ho.subset hp)) (ho.length_le.trans (h.few i))

/-! ### A new menu -/

theorem used_of_freeSlot (h : s.freeSlot = some i) : (s.menus i).used = false := by
  simpa using find?_some h

theorem sound_newMenu (h : MenuSound s) (hi : (s.menus i).used = false)
    (hold : ∀ a, a ≠ i → s'.menus a = s.menus a) (hu : (s'.menus i).used)
    (hit : (s'.menus i).logicalItems = []) : MenuSound s' := by
  have hn : (s'.menus i).pointers = [] := by
    unfold MenuSlot.pointers
    rw [hit]
    rfl
  -- nothing names the slot
  have hun : ∀ a, (s.menus a).used → ∀ p ∈ (s.menus a).pointers,
      p.slot ≠ i := by
    intro a ha p hp heq
    have hl := (h.live a ha p hp).1
    rw [heq, hi] at hl
    cases hl
  refine { live := ?_, acyclic := ?_, free := ?_, few := ?_ }
  · intro a ha p hp
    by_cases hai : a = i
    · rw [hai, hn] at hp
      cases hp
    · rw [hold a hai] at ha hp
      rw [hold _ (hun a ha p hp)]
      exact h.live a ha p hp
  · apply acyclic_mono h.acyclic
    rintro a b ⟨ha, p, hp, hs⟩
    by_cases hai : a = i
    · rw [hai, hn] at hp
      cases hp
    · rw [hold a hai] at ha hp
      exact ⟨ha, p, hp, hs⟩
  · intro j hj
    by_cases hji : j = i
    · rw [hji, hu] at hj
      cases hj
    · rw [hold j hji] at hj ⊢
      exact h.free j hj
  · intro j
    by_cases hji : j = i
    · rw [hji, hn]
      exact Nat.zero_le _
    · rw [hold j hji]
      exact h.few j

theorem sound_noMenus : MenuSound {} where
  live _ hi := by cases hi
  acyclic i hself := by
    obtain ⟨j, ⟨hi, -⟩, -⟩ := Relation.TransGen.head'_iff.1 hself
    cases hi
  free _ _ := rfl
  few _ := Nat.zero_le _

end TradutorLinux
