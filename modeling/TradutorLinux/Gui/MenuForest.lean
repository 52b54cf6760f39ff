import TradutorLinux.Gui.MenuTemplates

/-!
# Runs of menu calls

Menus stay a forest under calls that take care: a submenu does not lead to the
menu it is put into, a menu is freed when nothing else names what goes with it,
and a radio group is checked at one of its items.  The calls themselves look at
none of this, and a template fills no popup list.

## Main definitions

* `MenuRight`, `AllRight`, `CarefulRun`

## Main results

* `menus_kept_if_careful`
-/

namespace TradutorLinux

open List Option Function MenuState MenuItem

/-! ### What is to be true -/

def MenuState.freesFrom (s : MenuState) : MenuCall → Option MenuIndex
  | .destroyMenu gui menu => if gui = true then s.mutableMenuSlot menu else none
  | .deleteMenu menu position flags => do
    let index ← s.mutableMenuSlot menu
    let i ← menuItemIndex (s.menus index).logicalItems position
      (decide (flags &&& kMenuByPosition ≠ 0))
    let pointer ← (s.menus index).logicalItems[i]?.bind MenuItem.submenu
    pure pointer.slot
  | _ => none

/-- Pointers are right after a call and, if `popups` is set, the popup lists are; a call that
fails has changed nothing, and what has been freed is what the call frees and all below it. -/
structure MenuRight (popups : Bool) (s : MenuState) (call : MenuCall) (s' : MenuState)
    (a : MenuAnswer) : Prop where
  integrity : MenuIntegrity s'
  projected : popups = true → MenuProjected s'
  unchanged : a.failed = true → s'.menus = s.menus ∧ s'.dummyCount = s.dummyCount
  freed : ∀ j, (s.menus j).used = true →
    ((s'.menus j).used = false ↔ ∃ r, s.freesFrom call = some r ∧ s.Below r j)

/-- Every call of a run comes back, and does right. -/
def AllRight (popups : Bool) (s : MenuState) : List MenuCall → Prop
  | [] => True
  | call :: calls => ∃ s' a, s.call call = some (s', a) ∧ MenuRight popups s call s' a ∧
      AllRight popups s' calls

def MenuState.eraseItem (s : MenuState) (index : MenuIndex) (i : ℕ) : MenuState :=
  s.setSlot index (rebuildPopupItems
    { s.menus index with logicalItems := (s.menus index).logicalItems.eraseIdx i })

/-- The condition on a call.  A submenu does not lead to the menu that it is put into, which has
room for one more; what is freed is named from what is freed only, but for the item that goes; a
radio group without the item to check has no item that is checked; and no template is accepted, if
the popup lists are to be right. -/
def Careful (popups : Bool) (s : MenuState) : MenuCall → Prop
  | .loadMenuW resource => popups = true → ∀ bytes, resource = some bytes → TemplateRefused s bytes
  | .insertMenuItemW _ menu _ _ info => ∀ index input submenu,
      s.mutableMenuSlot menu = some index → info = some input →
      input.mask &&& kMenuItemInfoSubmenu ≠ 0 → s.mutableMenuSlot input.subMenu = some submenu →
      ¬ s.Below submenu index ∧ (s.menus index).pointers.length < 256
  | .deleteMenu menu position flags => ∀ index i pointer, s.mutableMenuSlot menu = some index →
      menuItemIndex (s.menus index).logicalItems position
        (decide (flags &&& kMenuByPosition ≠ 0)) = some i →
      (s.menus index).logicalItems[i]?.bind MenuItem.submenu = some pointer →
      (s.eraseItem index i).Closed pointer.slot
  | .checkMenuRadioItem _ menu first last check flags => ∀ index,
      s.mutableMenuSlot menu = some index →
      let byPosition := decide (flags &&& kMenuByPosition ≠ 0)
      let items := (s.menus index).logicalItems
      check ∈ radioRange items byPosition first last ∨
        ∀ i entry, items[i]? = some entry →
          first ≤ radioValue byPosition i entry →
          radioValue byPosition i entry ≤ last → entry.state &&& kMenuStateChecked = 0
  | .destroyMenu _ menu => ∀ index, s.mutableMenuSlot menu = some index → s.Closed index
  | _ => True

/-- Every call of a run meets the condition, in the state that it finds. -/
def CarefulRun (popups : Bool) (s : MenuState) : List MenuCall → Prop
  | [] => True
  | call :: calls => Careful popups s call ∧
      ∀ s' a, s.call call = some (s', a) → CarefulRun popups s' calls

/-! ### Calls that free nothing -/

variable {s s' : MenuState} {m i j : MenuIndex} {popups ps : Bool} {call ca : MenuCall}

/-- What a careful call ends in. -/
structure Stepped (popups : Bool) (s : MenuState) (call : MenuCall) (s' : MenuState)
    (a : MenuAnswer) : Prop where
  sound : MenuSound s'
  right : MenuRight popups s call s' a

/-- A call that does nothing. -/
theorem stepped_same (h : MenuSound s) (hp : ps → MenuProjected s) (a : MenuAnswer)
    (hf : s.freesFrom ca = none) : Stepped ps s ca s a where
  sound := h
  right :=
    { integrity := h.toMenuIntegrity
      projected := hp
      unchanged := fun _ => ⟨rfl, rfl⟩
      freed := by
        intro j hj
        rw [hf]
        simp [hj] }

variable {a : MenuAnswer}

theorem stepped_of_kept (h : MenuSound s') (hp : ps → MenuProjected s')
    (hn : a.failed → s'.menus = s.menus ∧ s'.dummyCount = s.dummyCount)
    (hu : ∀ j, (s.menus j).used → (s'.menus j).used)
    (hf : s.freesFrom ca = none) : Stepped ps s ca s' a where
  sound := h
  right :=
    { integrity := h.toMenuIntegrity
      projected := hp
      unchanged := hn
      freed := by
        intro j hj
        rw [hf]
        simp [hu j hj] }

theorem projected_setSlot (hp : MenuProjected s) {mu : MenuSlot}
    (hm : mu.items = mu.logicalItems.map popup) : MenuProjected (s.setSlot i mu) := by
  intro j hj
  by_cases hi : j = i
  · rw [hi, setSlot_self]
    exact hm
  · rw [setSlot_of_ne _ _ hi] at hj ⊢
    exact hp j hj

theorem stepped_setSlot {mu : MenuSlot} (h : MenuSound (s.setSlot i mu))
    (hp : ps → MenuProjected s) (hu : mu.used) (hm : ps → mu.items = mu.logicalItems.map popup)
    (ha : a.failed = false) (hf : s.freesFrom ca = none) : Stepped ps s ca (s.setSlot i mu) a := by
  refine stepped_of_kept h (fun hs => projected_setSlot (hp hs) (hm hs)) ?_ ?_ hf
  · intro hi
    rw [ha] at hi
    cases hi
  · intro j hj
    by_cases hji : j = i
    · rw [hji, setSlot_self]
      exact hu
    · rw [setSlot_of_ne _ _ hji]
      exact hj

variable {menu mu : MenuHandle}

theorem used_of_mutableMenuSlot (h : s.mutableMenuSlot mu = some i) : (s.menus i).used := by
  unfold mutableMenuSlot at h
  split at h
  · split at h
    · next hu =>
      cases h
      exact hu
    · cases h
  · cases h

theorem pointers_congr {mu m' : MenuSlot}
    (h : m'.logicalItems.map MenuItem.submenu = mu.logicalItems.map MenuItem.submenu) :
    m'.pointers = mu.pointers := by
  have hm : ∀ l : List MenuItem,
      l.filterMap MenuItem.submenu = (l.map MenuItem.submenu).filterMap id := by
    intro l
    rw [filterMap_map]
    rfl
  unfold MenuSlot.pointers
  rw [hm, hm, h]

theorem stepped_edit (h : MenuSound s) (hp : ps → MenuProjected s)
    (hi : (s.menus i).used) {its : List MenuItem}
    (hs : its.map MenuItem.submenu = (s.menus i).logicalItems.map MenuItem.submenu)
    (hpo : its.map popup = (s.menus i).logicalItems.map popup)
    (ha : a.failed = false) (hf : s.freesFrom ca = none) :
    Stepped ps s ca (s.setSlot i { s.menus i with logicalItems := its }) a := by
  refine stepped_setSlot (sound_setSlot_of_sublist h hi hi rfl ?_) hp hi ?_ ha hf
  · have ho : ({ s.menus i with logicalItems := its } : MenuSlot).pointers =
        (s.menus i).pointers := pointers_congr hs
    rw [ho]
  · intro he
    exact (hp he i hi).trans hpo.symm

theorem stepped_createPopupMenu (h : MenuSound s) (hp : ps → MenuProjected s)
    (hf : s.freesFrom ca = none) : Stepped ps s ca s.createPopupMenu.1 s.createPopupMenu.2 := by
  unfold MenuState.createPopupMenu
  cases hr : s.freeSlot with
  | none => exact stepped_same h hp _ hf
  | some ix =>
    have hu := used_of_freeSlot hr
    have hold : ∀ a, a ≠ ix → update s.menus ix
        { used := true, items := [], logicalItems := [], serial := s.allocated + 1 } a =
          s.menus a := fun a ha => update_of_ne ha _ _
    have hs : update s.menus ix
        { used := true, items := [], logicalItems := [], serial := s.allocated + 1 } ix =
          ({ used := true, serial := s.allocated + 1 } : MenuSlot) := update_self _ _ _
    refine stepped_of_kept (sound_newMenu h hu hold ?_ ?_) ?_ ?_ ?_ hf
    · exact (congrArg MenuSlot.used hs).trans rfl
    · exact (congrArg MenuSlot.logicalItems hs).trans rfl
    · intro he j hj
      dsimp only at hj ⊢
      by_cases hi : j = ix
      · rw [hi, hs]
        rfl
      · rw [hold j hi] at hj ⊢
        exact hp he j hj
    · intro hfa
      cases hfa
    · intro j hj
      dsimp only
      by_cases hi : j = ix
      · rw [hi, hs]
      · rw [hold j hi]
        exact hj

theorem stepped_append (h : MenuSound s) (hp : ps → MenuProjected s) (mu : MenuHandle)
    (fl : UInt32) (c : ℕ) (t : ByteString) (hf : s.freesFrom ca = none) :
    Stepped ps s ca (s.append mu fl c t).1 (s.append mu fl c t).2 := by
  unfold MenuState.append
  cases hm : s.mutableMenuSlot mu with
  | none => exact stepped_same h hp _ hf
  | some ix =>
    have hu := used_of_mutableMenuSlot hm
    refine stepped_setSlot (sound_setSlot_of_sublist h hu hu rfl ?_) hp hu ?_ rfl hf
    · unfold MenuSlot.pointers
      rw [filterMap_append]
      exact append_nil _ ▸ List.Sublist.refl _
    · intro hs
      rw [hp hs ix hu, map_append]
      rfl

theorem stepped_appendMenuA (h : MenuSound s) (hp : ps → MenuProjected s) (gui : Bool)
    (mu : MenuHandle) (fl : UInt32) (c : ℕ) (t : Option (Option ByteString))
    (hf : s.freesFrom ca = none) :
    Stepped ps s ca (s.appendMenuA gui mu fl c t).1 (s.appendMenuA gui mu fl c t).2 := by
  unfold MenuState.appendMenuA
  split
  · exact stepped_same h hp _ hf
  · split
    · exact stepped_same h hp _ hf
    · exact stepped_append h hp mu fl c _ hf
    · exact stepped_append h hp mu fl c _ hf

theorem stepped_appendMenuW (h : MenuSound s) (hp : ps → MenuProjected s) (gui : Bool)
    (mu : MenuHandle) (fl : UInt32) (c : ℕ) (t : Option (Option (List UInt16)))
    (hf : s.freesFrom ca = none) :
    Stepped ps s ca (s.appendMenuW gui mu fl c t).1 (s.appendMenuW gui mu fl c t).2 := by
  unfold MenuState.appendMenuW
  split
  · exact stepped_same h hp _ hf
  · exact stepped_appendMenuA h hp gui mu fl c _ hf
  · exact stepped_appendMenuA h hp gui mu fl c none hf

/-! ### Checks -/

theorem map_modify {α β : Type} (l : List α) (n : ℕ) {f : α → α} {g : α → β}
    (h : ∀ x, g (f x) = g x) : (l.modify n f).map g = l.map g := by
  induction l generalizing n with
  | nil => cases n <;> rfl
  | cons x l ih =>
    cases n with
    | zero => simp [h]
    | succ n => simpa using ih n

theorem map_mapIdx {α β : Type} (l : List α) {f : ℕ → α → α} {g : α → β}
    (h : ∀ n x, g (f n x) = g x) : (l.mapIdx f).map g = l.map g := by
  induction l generalizing f with
  | nil => rfl
  | cons x l ih => rw [mapIdx_cons, map_cons, map_cons, h, ih fun n => h (n + 1)]

theorem stepped_checkMenuItem (h : MenuSound s) (hp : ps → MenuProjected s) (gui : Bool)
    (mu : MenuHandle) (it c : UInt32) (hf : s.freesFrom ca = none) :
    Stepped ps s ca (s.checkMenuItem gui mu it c).1 (s.checkMenuItem gui mu it c).2 := by
  unfold MenuState.checkMenuItem
  split
  · exact stepped_same h hp _ hf
  cases hm : s.mutableMenuSlot mu with
  | none => exact stepped_same h hp _ hf
  | some ix =>
    dsimp only
    split
    · exact stepped_same h hp _ hf
    · exact stepped_edit h hp (used_of_mutableMenuSlot hm) (map_modify _ _ fun _ => rfl)
        (map_modify _ _ fun _ => rfl) rfl hf

theorem and_not_checked {state : UInt32} (h : state &&& kMenuStateChecked = 0) :
    state &&& ~~~kMenuStateChecked = state := by
  have hs : state = state &&& kMenuStateChecked ||| state &&& ~~~kMenuStateChecked := by
    have ha : kMenuStateChecked.toBitVec ||| ~~~kMenuStateChecked.toBitVec =
        BitVec.allOnes 32 := by decide
    apply UInt32.toBitVec_inj.1
    rw [UInt32.toBitVec_or, UInt32.toBitVec_and, UInt32.toBitVec_and, UInt32.toBitVec_not,
      ← BitVec.and_or_distrib_left, ha, BitVec.and_allOnes]
  rw [h, UInt32.zero_or] at hs
  exact hs.symm

theorem radioItems_eq {items : List MenuItem} {bp : Bool} {f l check : UInt32}
    (hc : check ∉ radioRange items bp f l) (hn : ∀ i e, items[i]? = some e → f ≤ radioValue bp i e →
      radioValue bp i e ≤ l → e.state &&& kMenuStateChecked = 0) :
    radioItems items bp f l check = items := by
  apply ext_getElem?
  intro i
  unfold radioItems
  rw [getElem?_mapIdx]
  cases he : items[i]? with
  | none => rfl
  | some e =>
    rw [map_some]
    congr 1
    dsimp only
    split
    · rfl
    next hr =>
    have hne : radioValue bp i e ≠ check := by
      intro heq
      apply hc
      unfold radioRange
      rw [mem_filter]
      refine ⟨?_, by simpa [heq] using hr⟩
      rw [mem_iff_getElem?]
      exact ⟨i, by rw [getElem?_mapIdx, he, map_some, heq]⟩
    rw [if_neg hne]
    rw [not_or, UInt32.not_lt, UInt32.not_lt] at hr
    rw [and_not_checked (hn i e he hr.1 hr.2)]

variable {gui : Bool}

theorem stepped_checkMenuRadioItem (h : MenuSound s) (hp : ps → MenuProjected s)
    {f last check fs : UInt32} (hc : Careful ps s (.checkMenuRadioItem gui mu f last check fs))
    (hf : s.freesFrom ca = none) :
    Stepped ps s ca (s.checkMenuRadioItem gui mu f last check fs).1
      (s.checkMenuRadioItem gui mu f last check fs).2 := by
  unfold MenuState.checkMenuRadioItem
  split
  · exact stepped_same h hp _ hf
  cases hm : s.mutableMenuSlot mu with
  | none => exact stepped_same h hp _ hf
  | some ix =>
    have hu := used_of_mutableMenuSlot hm
    have ha := hc ix hm
    dsimp only at ha ⊢
    generalize decide (fs &&& kMenuByPosition ≠ 0) = byPosition at ha ⊢
    split
    · exact stepped_same h hp _ hf
    split
    · next hfa =>
      -- the call fails, and has changed nothing
      have hh : check ∉ radioRange (s.menus ix).logicalItems byPosition f last := by
        rcases hfa with he | hnot
        · rw [he]
          exact not_mem_nil
        · exact hnot
      rw [radioItems_eq hh (ha.resolve_left hh)]
      have hs : s.setSlot ix (s.menus ix) = s := by
        unfold MenuState.setSlot
        rw [update_eq_self]
      exact hs.symm ▸ stepped_same h hp _ hf
    · refine stepped_edit h hp hu ?_ ?_ rfl hf
      · apply map_mapIdx
        intro i e
        dsimp only
        split_ifs <;> rfl
      · apply map_mapIdx
        intro i e
        dsimp only
        split_ifs <;> rfl

/-! ### Submenus -/

theorem mem_insertIdx {α : Type} {l : List α} {n : ℕ} {x y : α} (h : y ∈ l.insertIdx n x) :
    y = x ∨ y ∈ l := by
  induction l generalizing n with
  | nil =>
    cases n with
    | zero => exact .inl (by simpa using h)
    | succ n => cases h
  | cons z l ih =>
    cases n with
    | zero => simpa using h
    | succ n =>
      rcases mem_cons.1 h with rfl | h
      · exact .inr mem_cons_self
      · exact (ih h).imp_right (mem_cons_of_mem z)

theorem pointers_insertIdx (l : List MenuItem) (n : ℕ) (it : MenuItem) :
    ((l.insertIdx n it).filterMap MenuItem.submenu).length ≤
      (l.filterMap MenuItem.submenu).length + (it.submenu.toList).length := by
  induction l generalizing n with
  | nil =>
    cases n with
    | zero => cases hi : it.submenu <;> simp [hi]
    | succ n => exact Nat.zero_le _
  | cons x l ih =>
    cases n with
    | zero => cases hi : it.submenu <;> simp [filterMap_cons, hi]
    | succ n =>
      have hr := ih n
      show ((x :: l.insertIdx n it).filterMap MenuItem.submenu).length ≤ _
      rw [filterMap_cons, filterMap_cons]
      cases x.submenu with
      | none => exact hr
      | some p =>
        simp only [length_cons]
        omega

theorem submenu_of_read {io : Option MenuItemInfo} {it : MenuItem} {p : SubmenuPointer}
    (hr : s.readGuestMenuItemInfo io = .ok it) (hp : it.submenu = some p) :
    ∃ ip, io = some ip ∧ ip.mask &&& kMenuItemInfoSubmenu ≠ 0 ∧
      s.mutableMenuSlot ip.subMenu = some p.slot ∧
      (s.menus p.slot).serial = p.serial := by
  cases io with
  | none => cases hr
  | some ip =>
    dsimp only [readGuestMenuItemInfo] at hr
    by_cases hs : ip.cbSize < 80
    · rw [if_pos hs] at hr
      cases hr
    by_cases hd : ip.mask &&& (kMenuItemInfoData ||| kMenuItemInfoBitmap) ≠ 0
    · rw [if_neg hs, if_pos hd] at hr
      cases hr
    rw [if_neg hs, if_neg hd] at hr
    by_cases hh : ip.mask &&& kMenuItemInfoSubmenu ≠ 0 ∧ ip.subMenu ≠ .null ∧
        s.mutableMenuSlot ip.subMenu = none
    · rw [if_pos hh] at hr
      cases hr
    by_cases ht : ip.mask &&& (kMenuItemInfoType ||| kMenuItemInfoString) ≠ 0 ∧
        ip.typeData = some none
    · rw [if_neg hh, if_pos ht] at hr
      cases hr
    rw [if_neg hh, if_neg ht] at hr
    by_cases ha : ip.mask &&& kMenuItemInfoCheckmarks ≠ 0 ∧ ip.bitmaps = true
    · rw [if_pos ha] at hr
      cases hr
    rw [if_neg ha] at hr
    rw [← Except.ok.inj hr] at hp
    by_cases hm : ip.mask &&& kMenuItemInfoSubmenu ≠ 0
    · rw [if_pos hm] at hp
      obtain ⟨ix, hi, heq⟩ := map_eq_some_iff.1 hp
      cases heq
      exact ⟨ip, rfl, hm, hi, rfl⟩
    · rw [if_neg hm] at hp
      cases hp

theorem stepped_insertMenuItemW (h : MenuSound s) (hp : ps → MenuProjected s) {it : UInt32}
    {bp : Bool} {io : Option MenuItemInfo} (hc : Careful ps s (.insertMenuItemW gui mu it bp io))
    (hf : s.freesFrom ca = none) :
    Stepped ps s ca (s.insertMenuItemW gui mu it bp io).1
      (s.insertMenuItemW gui mu it bp io).2 := by
  unfold MenuState.insertMenuItemW
  split
  · exact stepped_same h hp _ hf
  cases hm : s.mutableMenuSlot mu with
  | none => exact stepped_same h hp _ hf
  | some ix =>
    have hu := used_of_mutableMenuSlot hm
    cases hr : s.readGuestMenuItemInfo io with
    | error error => exact stepped_same h hp _ hf
    | ok ins =>
      dsimp only
      split
      · exact stepped_same h hp _ hf
      next po _ =>
      have hn : ∀ p, ins.submenu = some p →
          (s.menus p.slot).used ∧ (s.menus p.slot).serial = p.serial ∧
            ¬ s.Below p.slot ix ∧ (s.menus ix).pointers.length < 256 := by
        intro p ho
        obtain ⟨ip, hi, ha, hs, hse⟩ := submenu_of_read hr ho
        obtain ⟨hb, hro⟩ := hc ix ip p.slot hm hi ha hs
        exact ⟨used_of_mutableMenuSlot hs, hse, hb, hro⟩
      refine stepped_setSlot (sound_setSlot h hu hu rfl ?_ ?_) hp hu (fun _ => rfl) rfl hf
      · intro p ho
        obtain ⟨e, he, hsu⟩ := mem_filterMap.1 ho
        rcases mem_insertIdx he with rfl | hold
        · obtain ⟨hl, hse, hb, -⟩ := hn p hsu
          exact .inr ⟨hl, hse, hb⟩
        · exact .inl (mem_filterMap.2 ⟨e, hold, hsu⟩)
      · refine (pointers_insertIdx _ _ _).trans ?_
        cases hsu : ins.submenu with
        | none => exact h.few ix
        | some p => exact (hn p hsu).2.2.2

/-! ### Calls that free menus -/

theorem stepped_destroyMenu (h : MenuSound s) (hp : popups → MenuProjected s)
    (hc : Careful popups s (.destroyMenu gui menu)) :
    ∃ s' a, s.destroyMenu gui menu = some (s', a) ∧
      Stepped popups s (.destroyMenu gui menu) s' a := by
  unfold MenuState.destroyMenu
  by_cases hu : gui = false
  · rw [if_pos hu]
    exact ⟨s, _, rfl, stepped_same h hp _ (by simp [freesFrom, hu])⟩
  rw [if_neg hu]
  have hfr : s.freesFrom (.destroyMenu gui menu) = s.mutableMenuSlot menu := by
    simp [freesFrom, hu]
  cases hm : s.mutableMenuSlot menu with
  | none => exact ⟨s, _, rfl, stepped_same h hp _ (hfr.trans hm)⟩
  | some ix =>
    obtain ⟨s', hd, hf⟩ := freed_destroyTree h (used_of_mutableMenuSlot hm)
    have hs := sound_freed h hf (hc ix hm)
    dsimp only
    rw [hd]
    refine ⟨s', _, rfl, hs, hs.toMenuIntegrity, ?_, ?_, ?_⟩
    · intro he j hj
      have hnot : ¬ s.Below ix j := by
        intro hb
        rw [hf.cleared j hb] at hj
        cases hj
      rw [hf.kept j hnot] at hj ⊢
      exact hp he j hj
    · intro ha
      cases ha
    · intro j hj
      rw [hfr, hm]
      constructor
      · intro hg
        refine ⟨ix, rfl, ?_⟩
        by_contra hnot
        rw [hf.kept j hnot, hj] at hg
        cases hg
      · rintro ⟨r, hr, hb⟩
        cases hr
        rw [hf.cleared j hb]

theorem below_eraseItem (h : MenuSound s) {index : MenuIndex} {i : ℕ} {p : SubmenuPointer}
    (hu : (s.menus index).used) (hs : (s.eraseItem index i).menus index = rebuildPopupItems
      { s.menus index with logicalItems := (s.menus index).logicalItems.eraseIdx i })
    (hp : p ∈ (s.menus index).pointers) :
    (s.eraseItem index i).Below p.slot j ↔ s.Below p.slot j := by
  have ho : ∀ k, k ≠ index → (s.eraseItem index i).menus k = s.menus k := fun k hk =>
    setSlot_of_ne s _ hk
  have hl : s.Names index p.slot := ⟨hu, p, hp, rfl⟩
  constructor
  · intro hb
    induction hb with
    | refl => exact .refl
    | @tail x y _ hn ih =>
      refine ih.tail ?_
      obtain ⟨hx, q, hq, rfl⟩ := hn
      by_cases hi : x = index
      · subst hi
        refine ⟨hu, q, ?_, rfl⟩
        rw [hs] at hq
        exact (((eraseIdx_sublist (s.menus x).logicalItems i).filterMap _).subset) hq
      · rw [ho x hi] at hx hq
        exact ⟨hx, q, hq, rfl⟩
  · intro hb
    induction hb with
    | refl => exact .refl
    | @tail x y hx hn ih =>
      -- the path does not come back to the menu
      have hi : x ≠ index := by
        rintro rfl
        exact h.acyclic x (Relation.TransGen.head' hl hx)
      refine ih.tail ?_
      unfold MenuState.Names
      rw [ho x hi]
      exact hn

theorem freesFrom_deleteMenu (s : MenuState) (mu : MenuHandle) (p fl : UInt32) :
    s.freesFrom (.deleteMenu mu p fl) = (s.mutableMenuSlot mu).bind fun ix =>
      (menuItemIndex (s.menus ix).logicalItems p
        (decide (fl &&& kMenuByPosition ≠ 0))).bind fun i =>
          ((s.menus ix).logicalItems[i]?.bind MenuItem.submenu).map SubmenuPointer.slot := by
  unfold freesFrom
  simp only [bind_eq_bind, Option.pure_def, map_eq_bind]
  rfl

theorem stepped_deleteMenu (h : MenuSound s) (hp : ps → MenuProjected s) {po fl : UInt32}
    (hc : Careful ps s (.deleteMenu mu po fl)) :
    ∃ s' a, s.deleteMenu mu po fl = some (s', a) ∧ Stepped ps s (.deleteMenu mu po fl) s' a := by
  dsimp only [MenuState.deleteMenu]
  by_cases hd : mu = .dummyMenu
  · have hf : s.freesFrom (.deleteMenu mu po fl) = none := by
      rw [hd]
      rfl
    rw [if_pos hd]
    split
    · refine ⟨_, _, rfl, stepped_of_kept (soundMenus_congr h rfl) hp ?_ (fun _ => id) hf⟩
      intro ha
      cases ha
    · exact ⟨s, _, rfl, stepped_same h hp _ hf⟩
  rw [if_neg hd]
  cases hm : s.mutableMenuSlot mu with
  | none =>
    have hf : s.freesFrom (.deleteMenu mu po fl) = none := by
      rw [freesFrom_deleteMenu, hm]
      rfl
    exact ⟨s, _, rfl, stepped_same h hp _ hf⟩
  | some index =>
    have hu := used_of_mutableMenuSlot hm
    dsimp only
    cases hi : menuItemIndex (s.menus index).logicalItems po
        (decide (fl &&& kMenuByPosition ≠ 0)) with
    | none =>
      have hf : s.freesFrom (.deleteMenu mu po fl) = none := by
        rw [freesFrom_deleteMenu, hm, bind_some, hi]
        rfl
      exact ⟨s, _, rfl, stepped_same h hp _ hf⟩
    | some i =>
      have hf : s.freesFrom (.deleteMenu mu po fl) =
          ((s.menus index).logicalItems[i]?.bind MenuItem.submenu).map SubmenuPointer.slot := by
        rw [freesFrom_deleteMenu, hm, bind_some, hi, bind_some]
      have he : MenuSound (s.eraseItem index i) :=
        sound_setSlot_of_sublist h hu hu rfl ((eraseIdx_sublist _ i).filterMap _)
      have hse : (s.eraseItem index i).menus index = rebuildPopupItems
          { s.menus index with logicalItems := (s.menus index).logicalItems.eraseIdx i } :=
        setSlot_self s index _
      dsimp only [bind_eq_bind]
      cases hsb : (s.menus index).logicalItems[i]?.bind MenuItem.submenu with
      | none =>
        rw [hsb] at hf
        dsimp only [bind_some]
        rw [if_neg (by simp [hu])]
        exact ⟨_, _, rfl, stepped_setSlot he hp hu (fun _ => rfl) rfl hf⟩
      | some p =>
        rw [hsb] at hf
        obtain ⟨e, hen, hsu⟩ := bind_eq_some_iff.1 hsb
        have ho : p ∈ (s.menus index).pointers :=
          mem_filterMap.2 ⟨e, mem_of_getElem? hen, hsu⟩
        have hl := (h.live index hu p ho).1
        have hli : s.Names index p.slot := ⟨hu, p, ho, rfl⟩
        have hnot : ¬ s.Below p.slot index := fun hbe =>
          h.acyclic index (Relation.TransGen.head' hli hbe)
        obtain ⟨s₁, hde, hfr⟩ := freed_destroyTree h hl
        have hk : s₁.menus index = s.menus index := hfr.kept index hnot
        dsimp only
        rw [if_pos hl, hde, bind_some, if_neg (by simp [hk, hu]), hk]
        -- the menus are freed as if the item had gone first
        have hf' : Freed (s.eraseItem index i) p.slot (s₁.setSlot index
            (rebuildPopupItems { s.menus index with
              logicalItems := (s.menus index).logicalItems.eraseIdx i })) := by
          have hbe : ∀ j, (s.eraseItem index i).Below p.slot j ↔
              s.Below p.slot j := fun j => below_eraseItem h hu hse ho
          refine { hfr with cleared := ?_, kept := ?_ }
          · intro j hj
            have hold := (hbe j).1 hj
            have hji : j ≠ index := by
              rintro rfl
              exact hnot hold
            rw [setSlot_of_ne _ _ hji]
            exact hfr.cleared j hold
          · intro j hj
            by_cases hji : j = index
            · rw [hji, setSlot_self, hse]
            · have hsa : (s.eraseItem index i).menus j = s.menus j :=
                setSlot_of_ne s _ hji
              rw [setSlot_of_ne _ _ hji, hsa]
              exact hfr.kept j fun hb => hj ((hbe j).2 hb)
        have hs := sound_freed he hf' (hc index i p hm hi hsb)
        refine ⟨_, _, rfl, hs, hs.toMenuIntegrity, ?_, ?_, ?_⟩
        · intro ht j hj
          by_cases hji : j = index
          · rw [hji, setSlot_self]
            rfl
          rw [setSlot_of_ne _ _ hji] at hj ⊢
          have hn : ¬ s.Below p.slot j := by
            intro hbe
            rw [hfr.cleared j hbe] at hj
            cases hj
          rw [hfr.kept j hn] at hj ⊢
          exact hp ht j hj
        · intro ha
          cases ha
        · intro j hj
          rw [hf]
          constructor
          · intro hg
            refine ⟨p.slot, rfl, ?_⟩
            by_contra hn
            by_cases hji : j = index
            · rw [hji, setSlot_self] at hg
              exact Bool.false_ne_true (hg.symm.trans hu)
            · rw [setSlot_of_ne _ _ hji, hfr.kept j hn, hj] at hg
              cases hg
          · rintro ⟨r, hr, hbe⟩
            cases hr
            have hji : j ≠ index := by
              rintro rfl
              exact hnot hbe
            rw [setSlot_of_ne _ _ hji, hfr.cleared j hbe]

/-! ### Runs -/

/-- **A careful call comes back, and does right.** -/
theorem menu_step (h : MenuSound s) (hp : ps → MenuProjected s) (hc : Careful ps s ca) :
    ∃ s' a, s.call ca = some (s', a) ∧ Stepped ps s ca s' a := by
  cases ca with
  | createPopupMenu gui =>
    cases gui with
    | false => exact ⟨_, _, rfl, stepped_same h hp _ rfl⟩
    | true => exact ⟨_, _, rfl, stepped_createPopupMenu h hp rfl⟩
  | loadMenuW r =>
    obtain ⟨s', a, hl, hs, hd, hk, ha, hr⟩ := loadMenuW_spec h r
    refine ⟨s', a, hl, stepped_of_kept hs ?_ (fun hf => ⟨ha hf, hd⟩) ?_ rfl⟩
    · intro he j hj
      have hsa := hr (hc he)
      rw [hsa] at hj ⊢
      exact hp he j hj
    · intro j hj
      rw [hk j hj]
      exact hj
  | appendMenuA gui mu fl cm t => exact ⟨_, _, rfl, stepped_appendMenuA h hp gui mu fl cm t rfl⟩
  | appendMenuW gui mu fl cm t => exact ⟨_, _, rfl, stepped_appendMenuW h hp gui mu fl cm t rfl⟩
  | insertMenuItemW gui mu it bp io => exact ⟨_, _, rfl, stepped_insertMenuItemW h hp hc rfl⟩
  | deleteMenu mu p fl => exact stepped_deleteMenu h hp hc
  | checkMenuItem gui mu it c => exact ⟨_, _, rfl, stepped_checkMenuItem h hp gui mu it c rfl⟩
  | checkMenuRadioItem gui mu f l c fl => exact ⟨_, _, rfl, stepped_checkMenuRadioItem h hp hc rfl⟩
  | destroyMenu gui mu => exact stepped_destroyMenu h hp hc

theorem allRight_of_careful (h : MenuSound s) (hp : ps → MenuProjected s)
    (calls : List MenuCall) (hc : CarefulRun ps s calls) : AllRight ps s calls := by
  induction calls generalizing s with
  | nil => trivial
  | cons ca calls ih =>
    obtain ⟨ha, he⟩ := hc
    obtain ⟨s', a, heq, hs, hr⟩ := menu_step h hp ha
    exact ⟨s', a, heq, hr, ih hs hr.projected (he s' a heq)⟩

/-- **In every careful run all calls come back and do right**: pointers name the live menus that
they were set to and close no cycle, a menu is freed with exactly what is below it, a call that
fails has changed nothing, and without templates the popup lists show the items. -/
theorem menus_kept_if_careful (popups : Bool) (calls : List MenuCall)
    (hc : CarefulRun popups {} calls) : AllRight popups {} calls :=
  allRight_of_careful sound_noMenus (fun _ _ hj => by cases hj) calls hc

def MenuState.after (s : MenuState) (call : MenuCall) : MenuState :=
  ((s.call call).map Prod.fst).getD s

theorem carefulRun_cons {cs : List MenuCall} (hc : Careful ps s ca)
    (hr : CarefulRun ps (s.after ca) cs) : CarefulRun ps s (ca :: cs) := by
  refine ⟨hc, ?_⟩
  intro s' a heq
  unfold MenuState.after at hr
  rwa [heq] at hr

theorem integrity_after {cs : List MenuCall} (h : AllRight ps s (cs ++ [ca])) :
    MenuIntegrity ((cs ++ [ca]).foldl MenuState.after s) := by
  induction cs generalizing s with
  | nil =>
    obtain ⟨s', a, heq, hr, -⟩ := h
    have ha : s.after ca = s' := by
      unfold MenuState.after
      rw [heq]
      rfl
    show MenuIntegrity (s.after ca)
    rw [ha]
    exact hr.integrity
  | cons f cs ih =>
    obtain ⟨s', a, heq, -, he⟩ := h
    have ha : s.after f = s' := by
      unfold MenuState.after
      rw [heq]
      rfl
    show MenuIntegrity ((cs ++ [ca]).foldl MenuState.after (s.after f))
    rw [ha]
    exact ih he

/-- Two menus, the second of them a submenu of the first. -/
def twoMenus : List MenuCall :=
  [.createPopupMenu true, .createPopupMenu true,
    .insertMenuItemW true (.slot 0) 0 true
      (some { cbSize := 80, mask := kMenuItemInfoSubmenu, subMenu := .slot 1 })]

/-- The first menu is destroyed, and the second one with it. -/
theorem menus_kept_if_careful_two :
    AllRight true {} (twoMenus ++ [.destroyMenu true (.slot 0)]) := by
  refine menus_kept_if_careful true _ ?_
  refine carefulRun_cons trivial (carefulRun_cons trivial (carefulRun_cons ?_
    (carefulRun_cons ?_ trivial)))
  · intro ix inp su hx hi _ hu
    cases hi
    have hs₀ : ((({} : MenuState).after (.createPopupMenu true)).after
        (.createPopupMenu true)).mutableMenuSlot (.slot 0) = some 0 := by decide +kernel
    have hs₁ : ((({} : MenuState).after (.createPopupMenu true)).after
        (.createPopupMenu true)).mutableMenuSlot (.slot 1) = some 1 := by decide +kernel
    have hn₀ : (((({} : MenuState).after (.createPopupMenu true)).after
        (.createPopupMenu true)).menus 0).pointers = [] := by decide +kernel
    have hn₁ : (((({} : MenuState).after (.createPopupMenu true)).after
        (.createPopupMenu true)).menus 1).pointers = [] := by decide +kernel
    cases hs₀.symm.trans hx
    cases hs₁.symm.trans hu
    refine ⟨?_, by rw [hn₀]; decide⟩
    intro hb
    rcases Relation.ReflTransGen.cases_head hb with heq | ⟨k, ⟨-, p, hp, -⟩, -⟩
    · cases heq
    · cases hp
  · intro ix hx k j ha _
    have hs : (twoMenus.foldl MenuState.after {}).mutableMenuSlot (.slot 0) = some 0 := by
      decide +kernel
    have hn : ∀ k, k ≠ 0 → ((twoMenus.foldl MenuState.after {}).menus k).pointers = [] := by
      decide +kernel
    cases hs.symm.trans hx
    by_cases hk : k = 0
    · rw [hk]
      exact .refl
    · obtain ⟨-, p, hp, -⟩ := ha
      have hp : p ∈ ((twoMenus.foldl MenuState.after {}).menus k).pointers := hp
      rw [hn k hk] at hp
      cases hp

/-- The second menu is destroyed, and the first one still points to its slot. -/
theorem not_menus_kept : ¬ ∀ calls, AllRight true {} calls := by
  intro h
  have hi := integrity_after (h (twoMenus ++ [.destroyMenu true (.slot 1)]))
  have he : ((((twoMenus ++ [MenuCall.destroyMenu true (.slot 1)]).foldl MenuState.after
      {}).menus 0).used = true ∧
      (⟨1, 2⟩ : SubmenuPointer) ∈ (((twoMenus ++ [MenuCall.destroyMenu true (.slot 1)]).foldl
        MenuState.after {}).menus 0).pointers) ∧
      (((twoMenus ++ [MenuCall.destroyMenu true (.slot 1)]).foldl MenuState.after {}).menus
        1).used = false := by
    decide +kernel
  obtain ⟨⟨hf, hp⟩, hs⟩ := he
  have hl := (hi.live 0 hf _ hp).1
  exact Bool.false_ne_true (hs.symm.trans hl)

end TradutorLinux
