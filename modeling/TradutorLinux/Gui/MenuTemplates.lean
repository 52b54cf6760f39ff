import TradutorLinux.Gui.MenuTrees

/-!
# Menus from templates

The parser of a template allocates a slot for every submenu that it meets, and
frees what it has allocated when the template turns out to be malformed.

## Main definitions

* `Grown`, `templateMenus`

## Main results

* `parseItems_grown`, `loadMenuW_spec`
-/

namespace TradutorLinux

open List Option Function MenuSlot MenuState

variable {s s' s'' : MenuState} {m i j k : MenuIndex}

/-- Menus that were not there are below `m`, and name such menus only. -/
structure NewBelow (s : MenuState) (m : MenuIndex) (s' : MenuState) : Prop where
  new : ∀ j, (s.menus j).used = false → (s'.menus j).used = true → s'.Below m j
  inside : ∀ j k, (s.menus j).used = false → s'.Names j k → (s.menus k).used = false

/-- The menu `m` has got items at its end, and new menus below it; the other menus are as they
were. -/
structure Grown (s : MenuState) (m : MenuIndex) (s' : MenuState) : Prop extends
    NewBelow s m s' where
  sound : MenuSound s'
  same : ∀ j, (s.menus j).used = true → j ≠ m → s'.menus j = s.menus j
  grows : ∃ more, s'.menus m =
    { s.menus m with logicalItems := (s.menus m).logicalItems ++ more }
  fresh : ∀ pointer ∈ (s'.menus m).pointers,
    pointer ∈ (s.menus m).pointers ∨ (s.menus pointer.slot).used = false
  distinct : ((s'.menus m).pointers.map SubmenuPointer.slot).Nodup
  dummy : s'.dummyCount = s.dummyCount

/-- **A new menu is freed with all that is new**, which gives back the slots as they were. -/
theorem undo_destroyTree (hs : MenuSound s) (h : MenuSound s') (he : NewBelow s m s')
    (hm : (s.menus m).used = false) (hm' : (s'.menus m).used)
    (hsa : ∀ j, (s.menus j).used → s'.menus j = s.menus j) :
    ∃ s'', s'.destroyTree m = some s'' ∧ s''.menus = s.menus ∧ s''.dummyCount = s'.dummyCount := by
  obtain ⟨s'', hd, hf⟩ := freed_destroyTree h hm'
  have hb : ∀ j, s'.Below m j → (s.menus j).used = false := by
    intro j hj
    induction hj with
    | refl => exact hm
    | tail _ hn ih => exact he.inside _ _ ih hn
  refine ⟨s'', hd, ?_, hf.dummy⟩
  funext j
  by_cases hj : s'.Below m j
  · rw [hf.cleared j hj, hs.free j (hb j hj)]
  rw [hf.kept j hj]
  cases hu : (s.menus j).used with
  | true => exact hsa j hu
  | false =>
    cases hu' : (s'.menus j).used with
    | true => exact absurd (he.new j hu hu') hj
    | false => rw [h.free j hu', hs.free j hu]

theorem grown_of_eq (h : MenuSound s) (hi : ((s.menus m).pointers.map SubmenuPointer.slot).Nodup)
    (hm : s'.menus = s.menus) (hd : s'.dummyCount = s.dummyCount) : Grown s m s' := by
  refine { new := ?_, inside := ?_, sound := soundMenus_congr h hm, same := ?_,
           grows := ⟨[], ?_⟩, fresh := ?_, distinct := hm ▸ hi, dummy := hd }
  · intro j hj hj'
    rw [hm, hj] at hj'
    cases hj'
  · intro j k hj hn
    have hj' := hn.1
    rw [hm, hj] at hj'
    cases hj'
  · intro j _ _
    rw [hm]
  · rw [hm, append_nil]
  · intro p hp
    exact .inl (hm ▸ hp)

theorem Grown.used (h : Grown s m s') (hm : (s.menus m).used) : (s'.menus m).used := by
  obtain ⟨mo, ho⟩ := h.grows
  rw [ho]
  exact hm

theorem Grown.live (h : Grown s m s') (hm : (s.menus m).used)
    (hj : (s.menus j).used) : (s'.menus j).used := by
  by_cases hjm : j = m
  · exact hjm ▸ h.used hm
  · rw [h.same j hj hjm]
    exact hj

theorem Grown.trans (h : Grown s m s') (h' : Grown s' m s'') (hm : (s.menus m).used) :
    Grown s m s'' := by
  have hm' := h.used hm
  -- what is not live at the end of the first part was not at its beginning
  have hba : ∀ {j}, (s'.menus j).used = false → (s.menus j).used = false := by
    intro j hj
    cases hu : (s.menus j).used with
    | false => rfl
    | true =>
      rw [h.live hm hu] at hj
      cases hj
  have hn : ∀ a b, s'.Names a b → s''.Names a b := by
    rintro a b ⟨ha, p, ho, hs⟩
    refine ⟨h'.live hm' ha, p, ?_, hs⟩
    by_cases ham : a = m
    · obtain ⟨mo, hmo⟩ := h'.grows
      subst ham
      rw [hmo]
      unfold pointers at ho ⊢
      rw [filterMap_append]
      exact mem_append_left _ ho
    · rw [h'.same a ha ham]
      exact ho
  refine { new := ?_, inside := ?_, sound := h'.sound, same := ?_, grows := ?_, fresh := ?_,
           distinct := h'.distinct, dummy := h'.dummy.trans h.dummy }
  · intro j hj hj''
    cases hj' : (s'.menus j).used with
    | true =>
      have hp : ∀ b, s'.Below m b → s''.Below m b := by
        intro b hb
        induction hb with
        | refl => exact .refl
        | tail _ hl ih => exact ih.tail (hn _ _ hl)
      exact hp j (h.new j hj hj')
    | false => exact h'.new j hj' hj''
  · intro j k hj hl
    cases hj' : (s'.menus j).used with
    | true =>
      have hjm : j ≠ m := by
        rintro rfl
        rw [hm] at hj
        cases hj
      refine h.inside j k hj ⟨hj', ?_⟩
      rw [← h'.same j hj' hjm]
      exact hl.2
    | false => exact hba (h'.inside j k hj' hl)
  · intro j hj hjm
    rw [h'.same j (h.live hm hj) hjm, h.same j hj hjm]
  · obtain ⟨mo, hmo⟩ := h.grows
    obtain ⟨m', ho'⟩ := h'.grows
    exact ⟨mo ++ m', by rw [ho', hmo, append_assoc]⟩
  · intro p ho
    rcases h'.fresh p ho with hold | he
    · exact h.fresh p hold
    · exact .inr (hba he)

/-! ### One item -/

theorem pointers_append (mu : MenuSlot) (its : List MenuItem) :
    pointers { mu with logicalItems := mu.logicalItems ++ its } =
      mu.pointers ++ its.filterMap MenuItem.submenu :=
  filterMap_append

theorem grown_pushItem (h : MenuSound s) (hm : (s.menus m).used)
    (hd : ((s.menus m).pointers.map SubmenuPointer.slot).Nodup) {item : MenuItem}
    (hi : item.submenu = none) : Grown s m (s.pushItem m item) := by
  have ho : pointers
      { s.menus m with logicalItems := (s.menus m).logicalItems ++ [item] } =
        (s.menus m).pointers := by
    rw [pointers_append, filterMap_cons, hi]
    exact append_nil _
  have hs : (s.pushItem m item).menus m =
      { s.menus m with logicalItems := (s.menus m).logicalItems ++ [item] } :=
    setSlot_self s m _
  have hsa : ∀ j, j ≠ m → (s.pushItem m item).menus j = s.menus j := fun j hj =>
    setSlot_of_ne s _ hj
  have hu : ∀ j, ((s.pushItem m item).menus j).used = (s.menus j).used := by
    intro j
    by_cases hj : j = m
    · rw [hj, hs]
    · rw [hsa j hj]
  refine { new := ?_, inside := ?_, sound := ?_, same := fun j _ hj => hsa j hj,
           grows := ⟨[item], hs⟩, fresh := ?_, distinct := ?_, dummy := rfl }
  · intro j hj hj'
    rw [hu, hj] at hj'
    cases hj'
  · intro j k hj hn
    have hj' := hn.1
    rw [hu, hj] at hj'
    cases hj'
  · exact sound_setSlot_of_sublist h hm hm rfl (ho ▸ List.Sublist.refl _)
  · intro p hp
    rw [hs, ho] at hp
    exact .inl hp
  · rw [hs, ho]
    exact hd

/-- The slots once a submenu has been allocated, and once its item is there. -/
structure Allocated (s : MenuState) (m i : MenuIndex) (item : MenuItem) (s₁ s₂ : MenuState) :
    Prop where
  free : (s.menus i).used = false
  ne : i ≠ m
  first : s₁.menus = update s.menus i { used := true, serial := s.allocated + 1 }
  second : s₂ = s₁.pushItem m
    { item with submenu := some ⟨i, (s₁.menus i).serial⟩ }
  dummy : s₁.dummyCount = s.dummyCount

theorem allocated_of_eq (hm : (s.menus m).used) {s₁ : MenuState} (item : MenuItem)
    (h : s.allocateMenuSlot = some (s₁, i)) :
    Allocated s m i item s₁ (s₁.pushItem m
      { item with submenu := some ⟨i, (s₁.menus i).serial⟩ }) := by
  obtain ⟨ix, hf, heq⟩ := map_eq_some_iff.1 h
  cases heq
  have hu := used_of_freeSlot hf
  refine ⟨hu, ?_, rfl, rfl, rfl⟩
  rintro rfl
  rw [hm] at hu
  cases hu

section

variable {s₁ s₂ s₃ : MenuState} {item : MenuItem} (ha : Allocated s m i item s₁ s₂)
include ha

theorem Allocated.first_self : s₁.menus i = { used := true, serial := s.allocated + 1 } := by
  rw [ha.first, update_self]

theorem Allocated.first_of_ne (hj : j ≠ i) : s₁.menus j = s.menus j := by
  rw [ha.first, update_of_ne hj]

theorem Allocated.sound_first (h : MenuSound s) : MenuSound s₁ :=
  sound_newMenu h ha.free (fun _ => ha.first_of_ne) (by rw [ha.first_self]) (by rw [ha.first_self])

theorem Allocated.second_self :
    s₂.menus m = { s.menus m with logicalItems := (s.menus m).logicalItems ++
      [{ item with submenu := some ⟨i, s.allocated + 1⟩ }] } := by
  rw [ha.second, ha.first_self]
  refine (setSlot_self _ _ _).trans ?_
  rw [ha.first_of_ne ha.ne.symm]

theorem Allocated.second_of_ne (hj : j ≠ m) : s₂.menus j = s₁.menus j := by
  rw [ha.second]
  exact setSlot_of_ne _ _ hj

theorem Allocated.pointers_second :
    (s₂.menus m).pointers = (s.menus m).pointers ++ [⟨i, s.allocated + 1⟩] := by
  rw [ha.second_self, pointers_append]
  rfl

theorem Allocated.used_second (hj : j ≠ i) : (s₂.menus j).used = (s.menus j).used := by
  by_cases hm : j = m
  · rw [hm, ha.second_self]
  · rw [ha.second_of_ne hm, ha.first_of_ne hj]

theorem Allocated.distinct_second (h : MenuSound s) (hm : (s.menus m).used)
    (hd : ((s.menus m).pointers.map SubmenuPointer.slot).Nodup) :
    ((s₂.menus m).pointers.map SubmenuPointer.slot).Nodup := by
  rw [ha.pointers_second, map_append, nodup_append]
  refine ⟨hd, nodup_singleton i, ?_⟩
  intro a he b hb hab
  obtain ⟨p, hp, rfl⟩ := mem_map.1 he
  have hl := (h.live m hm p hp).1
  rw [hab, mem_singleton.1 hb, ha.free] at hl
  cases hl

theorem Allocated.sound_second (h : MenuSound s) (hm : (s.menus m).used)
    (hd : ((s.menus m).pointers.map SubmenuPointer.slot).Nodup) : MenuSound s₂ := by
  have hf := ha.sound_first h
  have hme : s₁.menus m = s.menus m := ha.first_of_ne ha.ne.symm
  have he : (s₂.menus m).pointers.length ≤ 256 := by
    have hl := (ha.distinct_second h hm hd).length_le_card
    rwa [length_map, Fintype.card_fin] at hl
  have ht := ha.pointers_second
  rw [ha.second]
  refine sound_setSlot hf (hme ▸ hm) (hme ▸ hm) rfl ?_ ?_
  · intro p hp
    rw [pointers_append] at hp
    rcases mem_append.1 hp with hold | hn
    · exact .inl hold
    right
    have heq : p = ⟨i, (s₁.menus i).serial⟩ := by simpa using hn
    rw [heq]
    refine ⟨by rw [ha.first_self], rfl, ?_⟩
    -- the submenu leads nowhere
    intro hb
    rcases Relation.ReflTransGen.cases_head hb with heq | ⟨k, ⟨-, p, hp, -⟩, -⟩
    · exact ha.ne heq
    · rw [ha.first_self] at hp
      cases hp
  · rw [pointers_append, hme]
    rw [ht, length_append] at he
    rw [length_append]
    exact he

theorem Allocated.ne_of_used (hj : (s.menus j).used) : j ≠ i := by
  rintro rfl
  rw [ha.free] at hj
  cases hj

theorem Allocated.inside (h : Grown s₂ i s₃) (hj : (s.menus j).used = false)
    (hn : s₃.Names j k) : (s.menus k).used = false := by
  by_cases hi : k = i
  · rw [hi]
    exact ha.free
  by_cases hji : j = i
  · obtain ⟨-, p, hp, rfl⟩ := hn
    rw [hji] at hp
    rcases h.fresh p hp with he | hf
    · rw [ha.second_of_ne ha.ne, ha.first_self] at he
      cases he
    · exact (ha.used_second hi).symm.trans hf
  · have hk := h.inside j k ((ha.used_second hji).trans hj) hn
    exact (ha.used_second hi).symm.trans hk

theorem Allocated.grown (hm : (s.menus m).used)
    (hd : ((s₂.menus m).pointers.map SubmenuPointer.slot).Nodup)
    (h : Grown s₂ i s₃) : Grown s m s₃ := by
  have hu : (s₂.menus m).used := (ha.used_second ha.ne.symm).trans hm
  have he : s₃.menus m = s₂.menus m := h.same m hu ha.ne.symm
  have hl : s₃.Names m i := by
    refine ⟨he ▸ hu, ⟨i, s.allocated + 1⟩, ?_, rfl⟩
    rw [he, ha.pointers_second]
    simp
  refine { new := ?_, inside := ?_, sound := h.sound, same := ?_, grows := ?_, fresh := ?_,
           distinct := he ▸ hd, dummy := ?_ }
  · intro j hj hj'
    by_cases hi : j = i
    · exact hi ▸ .single hl
    · exact (h.new j ((ha.used_second hi).trans hj) hj').head hl
  · intro j k hj hn
    exact ha.inside h hj hn
  · intro j hj hjm
    have hi := ha.ne_of_used hj
    rw [h.same j ((ha.used_second hi).trans hj) hi, ha.second_of_ne hjm, ha.first_of_ne hi]
  · exact ⟨_, he.trans ha.second_self⟩
  · intro p hp
    rw [he, ha.pointers_second] at hp
    rcases mem_append.1 hp with hp | hw
    · exact .inl hp
    · rw [mem_singleton.1 hw]
      exact .inr ha.free
  · rw [h.dummy, ha.second]
    exact ha.dummy

theorem Allocated.undo (hs : MenuSound s) (hm : (s.menus m).used) (h : Grown s₂ i s₃) :
    ∃ s₄, (s₃.popItem m).destroyTree i = some s₄ ∧ s₄.menus = s.menus ∧
      s₄.dummyCount = s.dummyCount := by
  have hu : (s₂.menus m).used := (ha.used_second ha.ne.symm).trans hm
  have he : s₃.menus m = s₂.menus m := h.same m hu ha.ne.symm
  have hse : (s₃.popItem m).menus m = s.menus m := by
    refine (setSlot_self _ _ _).trans ?_
    rw [he, ha.second_self, dropLast_concat]
  have ho : ∀ {j}, j ≠ m → (s₃.popItem m).menus j = s₃.menus j := fun hj =>
    setSlot_of_ne _ _ hj
  have hl₂ : (s₂.menus i).used := by rw [ha.second_of_ne ha.ne, ha.first_self]
  have hli : ((s₃.popItem m).menus i).used := by
    rw [ho ha.ne]
    exact h.used hl₂
  have hne : ∀ {j}, (s.menus j).used = false → j ≠ m := by
    rintro j hj rfl
    rw [hm] at hj
    cases hj
  have hn : ∀ {j k}, (s.menus j).used = false →
      (s₃.Names j k ↔ (s₃.popItem m).Names j k) := by
    intro j k hj
    unfold MenuState.Names
    rw [ho (hne hj)]
  -- the paths from the submenu go through new menus only
  have hb : ∀ j, s₃.Below i j → (s.menus j).used = false ∧ (s₃.popItem m).Below i j := by
    intro j hj
    induction hj with
    | refl => exact ⟨ha.free, .refl⟩
    | tail _ hl ih => exact ⟨ha.inside h ih.1 hl, ih.2.tail ((hn ih.1).1 hl)⟩
  have hp : MenuSound (s₃.popItem m) := by
    refine sound_setSlot_of_sublist h.sound (he ▸ hu) (he ▸ hu) rfl ?_
    exact (dropLast_sublist _).filterMap _
  obtain ⟨s₄, hde, hmn, hd⟩ := undo_destroyTree hs hp (m := i)
    { new := by
        intro j hj hj'
        by_cases hi : j = i
        · exact hi ▸ .refl
        · rw [ho (hne hj)] at hj'
          exact (hb j (h.new j ((ha.used_second hi).trans hj) hj')).2
      inside := fun j k hj hl => ha.inside h hj ((hn hj).2 hl) }
    ha.free hli (by
      intro j hj
      by_cases hjm : j = m
      · rw [hjm]
        exact hse
      · have hi := ha.ne_of_used hj
        rw [ho hjm, h.same j ((ha.used_second hi).trans hj) hi, ha.second_of_ne hjm,
          ha.first_of_ne hi])
  refine ⟨s₄, hde, hmn, hd.trans (h.dummy.trans ?_)⟩
  rw [ha.second]
  exact ha.dummy

/-- A submenu without items is taken back. -/
theorem Allocated.undo_first (hs : MenuSound s) :
    ∃ s₄, s₁.destroyTree i = some s₄ ∧ s₄.menus = s.menus ∧ s₄.dummyCount = s.dummyCount := by
  obtain ⟨s₄, he, hm, hd⟩ := undo_destroyTree hs (ha.sound_first hs) (m := i)
    { new := by
        intro j hj hj'
        by_cases hi : j = i
        · exact hi ▸ .refl
        · rw [ha.first_of_ne hi, hj] at hj'
          cases hj'
      inside := by
        rintro j k hj ⟨hj', p, hp, -⟩
        by_cases hi : j = i
        · rw [hi, ha.first_self] at hp
          cases hp
        · rw [ha.first_of_ne hi, hj] at hj'
          cases hj' }
    ha.free (by rw [ha.first_self]) fun j hj => ha.first_of_ne (ha.ne_of_used hj)
  exact ⟨s₄, he, hm, hd.trans ha.dummy⟩

end

/-! ### Templates -/

theorem submenu_of_readTemplateItem {bs : ByteString} {c a : ℕ} {item : MenuItem}
    (h : readTemplateItem bs c = some (item, a)) : item.submenu = none := by
  unfold readTemplateItem at h
  simp only [bind_eq_bind, bind_eq_some_iff, Option.pure_def] at h
  obtain ⟨_, -, _, -, _, -, _, -, _, -, hi⟩ := h
  cases hi
  rfl

/-- **The parser ends, and new menus have come below its menu only**, also where it refuses the
list. -/
theorem parseItems_grown (bs : ByteString) {n : ℕ} {p : MenuTemplateParser}
    {c d : ℕ} (h : MenuSound p.state) (hm : (p.state.menus m).used)
    (hdi : ((p.state.menus m).pointers.map SubmenuPointer.slot).Nodup) :
    ∃ p' nt, parseItems bs n p c m d = some (p', nt) ∧ Grown p.state m p'.state := by
  induction n generalizing p c m d with
  | zero => exact ⟨p, none, rfl, grown_of_eq h hdi rfl rfl⟩
  | succ n ih =>
    obtain ⟨s, pa⟩ := p
    have hs : Grown s m s := grown_of_eq h hdi rfl rfl
    dsimp only [parseItems]
    split
    · exact ⟨_, none, rfl, hs⟩
    cases hre : readTemplateItem bs c with
    | none => exact ⟨_, none, rfl, hs⟩
    | some r =>
      obtain ⟨item, a⟩ := r
      have hi := submenu_of_readTemplateItem hre
      dsimp only
      split
      · cases hal : s.allocateMenuSlot with
        | none => exact ⟨_, none, rfl, hs⟩
        | some al =>
          obtain ⟨s₁, su⟩ := al
          have ha := allocated_of_eq hm item hal
          dsimp only
          split
          · obtain ⟨s₄, hde, hme, hd⟩ := ha.undo_first h
            rw [hde]
            exact ⟨_, none, rfl, grown_of_eq h hdi hme hd⟩
          · have he := ha.sound_second h hm hdi
            have hd₂ := ha.distinct_second h hm hdi
            have ho : ((s₁.pushItem m { item with
                submenu := some ⟨su, (s₁.menus su).serial⟩ }).menus su).pointers = [] := by
              rw [ha.second_of_ne ha.ne, ha.first_self]
              rfl
            have hl : ((s₁.pushItem m { item with
                submenu := some ⟨su, (s₁.menus su).serial⟩ }).menus su).used := by
              rw [ha.second_of_ne ha.ne, ha.first_self]
            generalize s₁.pushItem m { item with submenu := some ⟨su, (s₁.menus su).serial⟩ } = s₂
              at ha he hd₂ ho hl ⊢
            have hn : ((s₂.menus su).pointers.map SubmenuPointer.slot).Nodup := by
              rw [ho]
              exact nodup_nil
            -- the list below, if it is not too deep
            obtain ⟨p₃, nt, hb, hg⟩ : ∃ p₃ nt,
                (if kTemplateDepth < d + 1 then some (⟨s₂, pa + 1⟩, none)
                  else parseItems bs n ⟨s₂, pa + 1⟩ (a + 4) su (d + 1)) =
                    some (p₃, nt) ∧ Grown s₂ su p₃.state := by
              split
              · exact ⟨_, none, rfl, grown_of_eq he hn rfl rfl⟩
              · exact ih he hl hn
            rw [hb]
            cases nt with
            | none =>
              obtain ⟨s₄, hde, hme, hd⟩ := ha.undo h hm hg
              dsimp only
              rw [hde]
              exact ⟨_, none, rfl, grown_of_eq h hdi hme hd⟩
            | some af =>
              have hg := ha.grown hm hd₂ hg
              dsimp only
              split
              · exact ⟨_, _, rfl, hg⟩
              obtain ⟨p', nt, hr, hrs⟩ : ∃ p' nt, parseItems bs n _ af m d = some (p', nt) ∧
                    Grown _ m p'.state :=
                ih hg.sound (hg.used hm) hg.distinct
              exact ⟨p', nt, hr, hg.trans hrs hm⟩
      · have hg := grown_pushItem h hm hdi hi
        split
        · exact ⟨_, _, rfl, hg⟩
        obtain ⟨p', nt, hr, hrs⟩ : ∃ p' nt, parseItems bs n ⟨s.pushItem m item, pa + 1⟩ a m d =
              some (p', nt) ∧ Grown (s.pushItem m item) m p'.state :=
          ih hg.sound (hg.used hm) hg.distinct
        exact ⟨p', nt, hr, hg.trans hrs hm⟩

/-! ### What a template needs -/

def addSubmenus (more : ℕ) : ℕ × ℕ × ℕ → ℕ × ℕ × ℕ
  | (parsed, after, submenus) => (parsed, after, submenus + more)

/-- The list at an offset: how many items have been begun at its end, what follows it, and how
many submenus it has. -/
def templateItems (bytes : ByteString) : ℕ → ℕ → ℕ → ℕ → Option (ℕ × ℕ × ℕ)
  | 0, _, _, _ => none
  | n + 1, parsed, cursor, depth =>
    if kTemplateItems < parsed + 1 ∨ bytes.length < cursor + 14 then none
    else do
      let (item, afterText) ← readTemplateItem bytes cursor
      let (parsed, after, submenus) ←
        if item.flags &&& kMenuItemPopup ≠ 0 then
          if (readLE bytes afterText 4).isNone ∨ kTemplateDepth < depth + 1 then none
          else (templateItems bytes n (parsed + 1) (afterText + 4) (depth + 1)).map (addSubmenus 1)
        else some (parsed + 1, afterText, 0)
      if item.flags &&& kMenuItemLast ≠ 0 then some (parsed, after, submenus)
      else (templateItems bytes n parsed after depth).map (addSubmenus submenus)

/-- How many slots the menus of a template need; nothing if it is malformed. -/
def templateMenus (bytes : ByteString) : Option ℕ :=
  if bytes.length < 8 then none
  else do
    let version ← readLE bytes 0 2
    let offset ← readLE bytes 2 2
    if version ≠ 1 ∨ bytes.length < 4 + offset then none
    else
      let (_, _, submenus) ← templateItems bytes (kTemplateItems + 1) 0 (4 + offset) 0
      pure (submenus + 1)

/-- How many slots are free. -/
def MenuState.freeCount (s : MenuState) : ℕ :=
  (Finset.univ.filter fun i => (s.menus i).used = false).card

theorem freeCount_take (hi : (s.menus i).used = false)
    (hold : ∀ a, a ≠ i → s'.menus a = s.menus a) (hu : (s'.menus i).used) :
    s.freeCount = s'.freeCount + 1 := by
  unfold freeCount
  have hn : (Finset.univ.filter fun a => (s.menus a).used = false) =
      insert i (Finset.univ.filter fun a => (s'.menus a).used = false) := by
    ext a
    by_cases ha : a = i
    · simp [ha, hi]
    · simp [ha, hold a ha]
  rw [hn, Finset.card_insert_of_notMem (by simp [hu])]

theorem freeCount_congr (h : ∀ a, (s'.menus a).used = (s.menus a).used) :
    s'.freeCount = s.freeCount := by
  unfold freeCount
  simp [h]

theorem used_pushItem (s : MenuState) (m : MenuIndex) (item : MenuItem) (a : MenuIndex) :
    ((s.pushItem m item).menus a).used = (s.menus a).used := by
  by_cases ha : a = m
  · rw [ha]
    exact (congrArg MenuSlot.used (setSlot_self s m _)).trans rfl
  · exact congrArg MenuSlot.used (setSlot_of_ne s _ ha)

theorem templateItems_of_parseItems {bs : ByteString} {n : ℕ}
    {p p' : MenuTemplateParser} {c d next : ℕ} (h : MenuSound p.state) (hm : (p.state.menus m).used)
    (hs : ((p.state.menus m).pointers.map SubmenuPointer.slot).Nodup)
    (hp : parseItems bs n p c m d = some (p', some next)) :
    ∃ submenus, templateItems bs n p.parsedItems c d = some (p'.parsedItems, next, submenus) ∧
      p.state.freeCount = p'.state.freeCount + submenus := by
  induction n generalizing p p' c m d next with
  | zero => cases hp
  | succ n ih =>
    obtain ⟨s, pa⟩ := p
    unfold parseItems at hp
    unfold templateItems
    dsimp only at hp h hm hs ⊢
    split at hp
    · cases hp
    next hro =>
    rw [if_neg hro]
    cases hr : readTemplateItem bs c with
    | none =>
      rw [hr] at hp
      cases hp
    | some r =>
      obtain ⟨item, a⟩ := r
      have hi := submenu_of_readTemplateItem hr
      rw [hr] at hp
      dsimp only [bind_eq_bind, bind_some] at hp ⊢
      by_cases hpo : item.flags &&& kMenuItemPopup ≠ 0
      · rw [if_pos hpo] at hp ⊢
        cases hal : s.allocateMenuSlot with
        | none =>
          rw [hal] at hp
          cases hp
        | some al =>
          obtain ⟨s₁, su⟩ := al
          have ha := allocated_of_eq hm item hal
          rw [hal] at hp
          dsimp only at hp
          by_cases hh : (readLE bs a 4).isNone
          · rw [if_pos hh] at hp
            obtain ⟨_, -, heq⟩ := map_eq_some_iff.1 hp
            cases heq
          rw [if_neg hh] at hp
          have hse := ha.sound_second h hm hs
          have hd₂ := ha.distinct_second h hm hs
          have he := (ha.second_of_ne ha.ne).trans ha.first_self
          have hf : s.freeCount = (s₁.pushItem m { item with
              submenu := some ⟨su, (s₁.menus su).serial⟩ }).freeCount + 1 := by
            rw [freeCount_congr (used_pushItem s₁ m _)]
            exact freeCount_take ha.free (fun _ => ha.first_of_ne) (by rw [ha.first_self])
          generalize s₁.pushItem m { item with submenu := some ⟨su, (s₁.menus su).serial⟩ } = s₂
            at ha hse hd₂ he hf hp
          have hn : ((s₂.menus su).pointers.map SubmenuPointer.slot).Nodup := by
            rw [he]
            exact nodup_nil
          have hli : (s₂.menus su).used := by rw [he]
          by_cases hd : kTemplateDepth < d + 1
          · rw [if_pos hd] at hp
            obtain ⟨_, -, heq⟩ := map_eq_some_iff.1 hp
            cases heq
          rw [if_neg hd] at hp
          rw [if_neg (not_or.2 ⟨hh, hd⟩)]
          obtain ⟨p₃, n₃, hb, hg⟩ : ∃ p' next, parseItems bs n ⟨s₂, pa + 1⟩ (a + 4) su
                (d + 1) = some (p', next) ∧ Grown s₂ su p'.state :=
            parseItems_grown bs hse hli hn
          rw [hb] at hp
          cases n₃ with
          | none =>
            obtain ⟨_, -, heq⟩ := map_eq_some_iff.1 hp
            cases heq
          | some af =>
            obtain ⟨submenus, ht, hc⟩ := ih hse hli hn hb
            have hg := ha.grown hm hd₂ hg
            dsimp only at hp ht hc
            rw [ht]
            dsimp only [map_some, bind_some]
            by_cases hl : item.flags &&& kMenuItemLast ≠ 0
            · rw [if_pos hl] at hp ⊢
              cases hp
              exact ⟨submenus + 1, rfl, by omega⟩
            · rw [if_neg hl] at hp ⊢
              obtain ⟨mo, hmo, ho⟩ := ih hg.sound (hg.used hm) hg.distinct hp
              refine ⟨mo + (submenus + 1), ?_, by omega⟩
              dsimp only [addSubmenus]
              rw [hmo]
              rfl
      · rw [if_neg hpo] at hp ⊢
        have hg := grown_pushItem h hm hs hi
        have hc := freeCount_congr (used_pushItem s m item)
        by_cases hl : item.flags &&& kMenuItemLast ≠ 0
        · rw [if_pos hl] at hp ⊢
          cases hp
          exact ⟨0, rfl, hc.symm⟩
        · rw [if_neg hl] at hp ⊢
          obtain ⟨mo, hmo, ho⟩ := ih hg.sound (hg.used hm) hg.distinct hp
          rw [hmo]
          dsimp only at ho
          exact ⟨mo + 0, rfl, by omega⟩

/-! ### Loading -/

/-- The template is refused: it is malformed, or needs more slots than are free. -/
def TemplateRefused (s : MenuState) (bytes : ByteString) : Prop :=
  ∀ submenus, templateMenus bytes = some submenus → s.freeCount < submenus

theorem Grown.menus_eq_of_new (h : Grown s m s') (hm : (s.menus m).logicalItems = []) :
    ∀ p ∈ (s'.menus m).pointers, (s.menus p.slot).used = false := by
  intro p hp
  rcases h.fresh p hp with hold | hf
  · unfold pointers at hold
    rw [hm] at hold
    cases hold
  · exact hf

/-- **A template that is refused leaves every slot as it was**; one that is accepted leaves the
menus that were there as they were. -/
theorem loadMenuW_spec (h : MenuSound s) (r : Option ByteString) :
    ∃ s' a, s.loadMenuW r = some (s', a) ∧ MenuSound s' ∧ s'.dummyCount = s.dummyCount ∧
      (∀ j, (s.menus j).used → s'.menus j = s.menus j) ∧
      (a.failed → s'.menus = s.menus) ∧
      ((∀ bs, r = some bs → TemplateRefused s bs) → s'.menus = s.menus) := by
  have hsa : ∀ a : MenuAnswer, ∃ s' b, some (s, a) = some (s', b) ∧ MenuSound s' ∧
      s'.dummyCount = s.dummyCount ∧ (∀ j, (s.menus j).used → s'.menus j = s.menus j) ∧
      (b.failed → s'.menus = s.menus) ∧
      ((∀ bs, r = some bs → TemplateRefused s bs) → s'.menus = s.menus) :=
    fun a => ⟨s, a, rfl, h, rfl, fun _ _ => rfl, fun _ => rfl, fun _ => rfl⟩
  unfold MenuState.loadMenuW
  cases r with
  | none => exact hsa _
  | some bs =>
    dsimp only
    split
    · exact hsa _
    cases hl : s.allocateMenuSlot with
    | none => exact hsa _
    | some allocated =>
      obtain ⟨s₁, index⟩ := allocated
      obtain ⟨_, hfs, heq⟩ := map_eq_some_iff.1 hl
      cases heq
      have hf := used_of_freeSlot hfs
      generalize hs₁ : ({ s with
        menus := update s.menus index { used := true, serial := s.allocated + 1 }
        allocated := s.allocated + 1 } : MenuState) = s₁
      have hse : s₁.menus index = { used := true, serial := s.allocated + 1 } := by
        rw [← hs₁]
        exact update_self _ _ _
      have hold : ∀ a, a ≠ index → s₁.menus a = s.menus a := by
        intro a ha
        rw [← hs₁]
        exact update_of_ne ha _ _
      have hd : s₁.dummyCount = s.dummyCount := by rw [← hs₁]
      have he : ∀ {j}, (s.menus j).used → j ≠ index := by
        rintro j hj rfl
        rw [hf] at hj
        cases hj
      have hu : (s₁.menus index).used := by rw [hse]
      have hi : (s₁.menus index).logicalItems = [] := by rw [hse]
      have ho := sound_newMenu h hf hold hu hi
      have hdi : ((s₁.menus index).pointers.map SubmenuPointer.slot).Nodup := by
        rw [hse]
        exact nodup_nil
      -- whatever the parser makes, it is freed again if the template is refused
      have hun : ∀ s₂, Grown s₁ index s₂ → ∃ s' b,
          ((s₂.destroyTree index).map fun s => (s, (⟨.handle none, some .badLength⟩ : MenuAnswer)))
            = some (s', b) ∧ MenuSound s' ∧ s'.dummyCount = s.dummyCount ∧
          (∀ j, (s.menus j).used → s'.menus j = s.menus j) ∧
          (b.failed → s'.menus = s.menus) ∧
          ((∀ bs', some bs = some bs' → TemplateRefused s bs') →
            s'.menus = s.menus) := by
        intro s₂ hg
        obtain ⟨s₃, hde, hm, hd₃⟩ := undo_destroyTree (m := index) h hg.sound
          { new := by
              intro j hj hj'
              by_cases hji : j = index
              · exact hji ▸ .refl
              · exact hg.new j (by rw [hold j hji]; exact hj) hj'
            inside := by
              intro j k hj hn
              have hb : ∀ {x}, (s₁.menus x).used = false → (s.menus x).used = false := by
                intro x hx
                by_cases hxi : x = index
                · rw [hxi]
                  exact hf
                · rw [← hold x hxi]
                  exact hx
              by_cases hji : j = index
              · obtain ⟨-, pt, hpo, rfl⟩ := hn
                rw [hji] at hpo
                exact hb (hg.menus_eq_of_new hi pt hpo)
              · exact hb (hg.inside j k (by rw [hold j hji]; exact hj) hn) }
          hf (hg.used hu) fun j hj => by
            rw [hg.same j (by rw [hold j (he hj)]; exact hj) (he hj), hold j (he hj)]
        rw [hde]
        exact ⟨s₃, _, rfl, soundMenus_congr h hm,
          hd₃.trans (hg.dummy.trans hd), fun j _ => by rw [hm],
          fun _ => hm, fun _ => hm⟩
      have hs : Grown s₁ index s₁ := grown_of_eq ho hdi rfl rfl
      dsimp only
      unfold parseMenuTemplate
      by_cases hh : bs.length < 8
      · rw [if_pos hh]
        exact hun _ hs
      rw [if_neg hh]
      cases hv : readLE bs 0 2 with
      | none => exact hun _ hs
      | some v =>
        cases hof : readLE bs 2 2 with
        | none => exact hun _ hs
        | some o =>
          dsimp only
          by_cases hba : v ≠ 1 ∨ bs.length < 4 + o
          · rw [if_pos hba]
            exact hun _ hs
          rw [if_neg hba]
          obtain ⟨p, n, hp, hg⟩ :
              ∃ p n, parseItems bs (kTemplateItems + 1) ⟨s₁, 0⟩ (4 + o) index 0 =
                some (p, n) ∧ Grown s₁ index p.state :=
            parseItems_grown bs ho hu hdi
          rw [hp]
          cases n with
          | none => exact hun _ hg
          | some n =>
            refine ⟨p.state, _, rfl, hg.sound, hg.dummy.trans hd, ?_, ?_, ?_⟩
            · intro j hj
              rw [hg.same j (by rw [hold j (he hj)]; exact hj) (he hj), hold j (he hj)]
            · intro hfa
              cases hfa
            · intro hr
              obtain ⟨ss, ht, hc⟩ :=
                templateItems_of_parseItems ho hu hdi hp
              have hnd : templateMenus bs = some (ss + 1) := by
                unfold templateMenus
                rw [if_neg hh, hv, hof]
                dsimp only [bind_eq_bind, bind_some] at ht ⊢
                rw [if_neg hba, ht]
                rfl
              have hw := hr bs rfl _ hnd
              rw [freeCount_take hf hold hu] at hw
              dsimp only at hc
              omega

end TradutorLinux
