import TradutorLinux.Gui.Windows
import TradutorLinux.Util.Sweeps

/-!
# The tree of windows

The parents of the windows make a forest as long as the calls take care: no
window becomes the child of one below it, a window that is destroyed has no
grandchildren, and what goes has no children left, nor the focus nor the
capture.  The calls themselves look at none of this.

## Main definitions

* `WindowState.ChildOf`, `WindowState.Under` — a window is a child of another, or below it.
* `WindowIntegrity` — what is to be true of every state.
* `WindowRight` — what is to be true of what the guest does, one by one.

## Main results

* `windows_kept_if_careful`
-/

namespace TradutorLinux

open List Function Option WindowState Prod

namespace WindowState

variable (s : WindowState)

/-- A window has another as its parent. -/
def ChildOf (j i : WindowIndex) : Prop :=
  (s.slots j).used = true ∧ ∃ pointer, (s.slots j).parent = some pointer ∧ pointer.slot = i

/-- A window is another, or below it. -/
def Under : WindowIndex → WindowIndex → Prop := Relation.ReflTransGen s.ChildOf

end WindowState

/-- Parents are live windows, those that they were when they became parents, and no window is
below itself; no table names a free slot. -/
structure WindowIntegrity (s : WindowState) : Prop where
  parents : ∀ j, (s.slots j).used = true → ∀ pointer, (s.slots j).parent = some pointer →
    (s.slots pointer.slot).used = true ∧ (s.slots pointer.slot).serial = pointer.serial
  acyclic : ∀ j, ¬ Relation.TransGen s.ChildOf j j
  focus : ∀ i, s.focused = some i → (s.slots i).used = true
  capture : ∀ i, s.captured = some i → (s.slots i).used = true
  registry : ∀ i ∈ s.registered, (s.slots i).used = true

/-- With what else is true of the slots and of the calls that wait. -/
structure WindowSound (s : WindowState) : Prop extends WindowIntegrity s where
  free : ∀ i, (s.slots i).used = false → s.slots i = {}
  distinct : s.registered.Nodup
  unregistered : ∀ i, (s.slots i).destroying = true → i ∉ s.registered
  serials : ∀ i, (s.slots i).serial ≤ s.allocated
  waits : ∀ frame ∈ s.waiting, frame.window.serial ≤ s.allocated
  destroys : ∀ window, .destroying window ∈ s.waiting → (s.slots window.slot).used = true →
    (s.slots window.slot).serial = window.serial → (s.slots window.slot).destroying = true

variable {s s' : WindowState} {i j k : WindowIndex}

/-! ### The walk upwards -/

/-- **The walk of `GetWindowRect` ends**, in no more rounds than there are slots. -/
theorem getWindowRect_isSome (h : WindowIntegrity s) (hj : (s.slots j).used) :
    (s.getWindowRect j).isSome := by
  obtain ⟨r, hr, ht⟩ := exists_rank h.acyclic
  have hw : ∀ n j po, (s.slots j).used → r j ≤ n →
      (s.windowOrigin n (s.slots j).parent po).isSome := by
    intro n
    induction n with
    | zero =>
      intro j po hj hn
      cases hp : (s.slots j).parent with
      | none => rfl
      | some p =>
        have hl := hr j p.slot ⟨hj, p, hp, rfl⟩
        omega
    | succ n ih =>
      intro j po hj hn
      cases hp : (s.slots j).parent with
      | none => rfl
      | some p =>
        have hl := hr j p.slot ⟨hj, p, hp, rfl⟩
        exact ih p.slot _ (h.parents j hj p hp).1 (by omega)
  have hb := ht j
  rw [Fintype.card_fin] at hb
  unfold WindowState.getWindowRect
  rw [isSome_map]
  exact hw kMaxGuestWindows j _ hj (by unfold kMaxGuestWindows; omega)

/-! ### Windows go -/

/-- The windows in `D` have gone, from the slots, the focus and the registered handles. -/
structure Removed (s : WindowState) (D : WindowIndex → Prop) (s' : WindowState) : Prop where
  cleared : ∀ j, D j → s'.slots j = {}
  kept : ∀ j, ¬ D j → s'.slots j = s.slots j
  focused : ∀ j, s'.focused = some j → s.focused = some j ∧ ¬ D j
  captured : s'.captured = s.captured
  registered : s'.registered.Sublist s.registered
  gone : ∀ j, D j → j ∉ s'.registered
  allocated : s'.allocated = s.allocated
  waiting : s'.waiting = s.waiting

theorem sound_removed {D : WindowIndex → Prop} (h : WindowSound s) (hr : Removed s D s')
    (hcl : ∀ j k, s.ChildOf k j → D j → D k) (hca : ∀ i, s.captured = some i → ¬ D i) :
    WindowSound s' := by
  have hu : ∀ j, (s'.slots j).used → ¬ D j := by
    intro j hj hg
    rw [hr.cleared j hg] at hj
    cases hj
  have hh : ∀ a b, s'.ChildOf a b → s.ChildOf a b := by
    rintro a b ⟨ha, hp⟩
    have hs := hr.kept a (hu a ha)
    exact ⟨hs ▸ ha, hs ▸ hp⟩
  have hl : ∀ {j}, ¬ D j → (s.slots j).used → (s'.slots j).used := by
    intro j hk hj
    rw [hr.kept j hk]
    exact hj
  refine { parents := ?_, acyclic := acyclic_mono h.acyclic hh, focus := ?_, capture := ?_,
           registry := ?_, free := ?_, distinct := h.distinct.sublist hr.registered,
           unregistered := ?_, serials := ?_, waits := ?_, destroys := ?_ }
  · intro j hj p hp
    have hs := hr.kept j (hu j hj)
    rw [hs] at hj hp
    have hk : ¬ D p.slot := by
      intro hg
      have hj' := hcl p.slot j ⟨hj, p, hp, rfl⟩ hg
      rw [hr.cleared j hj'] at hs
      rw [← hs] at hj
      cases hj
    rw [hr.kept _ hk]
    exact h.parents j hj p hp
  · intro i hi
    obtain ⟨ho, hk⟩ := hr.focused i hi
    exact hl hk (h.focus i ho)
  · intro i hi
    rw [hr.captured] at hi
    exact hl (hca i hi) (h.capture i hi)
  · intro i hi
    exact hl (fun hg => hr.gone i hg hi) (h.registry i (hr.registered.subset hi))
  · intro i hi
    by_cases hg : D i
    · exact hr.cleared i hg
    · rw [hr.kept i hg] at hi ⊢
      exact h.free i hi
  · intro i hi he
    by_cases hg : D i
    · exact hr.gone i hg he
    · rw [hr.kept i hg] at hi
      exact h.unregistered i hi (hr.registered.subset he)
  · intro i
    rw [hr.allocated]
    by_cases hg : D i
    · rw [hr.cleared i hg]
      exact Nat.zero_le _
    · rw [hr.kept i hg]
      exact h.serials i
  · intro fr hf
    rw [hr.waiting] at hf
    rw [hr.allocated]
    exact h.waits fr hf
  · intro window hw hi hse
    rw [hr.waiting] at hw
    have hs := hr.kept _ (hu _ hi)
    rw [hs] at hi hse ⊢
    exact h.destroys window hw hi hse

/-- A window that nothing names any more has gone. -/
theorem removed_one (hi : i ∉ s.registered) (hf : s.focused ≠ some i) :
    Removed s (· = i) (s.setSlot i {}) where
  cleared j hj := by
    rw [hj]
    exact update_self _ _ _
  kept j hj := update_of_ne hj _ _
  focused j hj := by
    refine ⟨hj, ?_⟩
    rintro rfl
    exact hf hj
  captured := rfl
  registered := List.Sublist.refl _
  gone j hj := hj ▸ hi
  allocated := rfl
  waiting := rfl

theorem freeChildren_step (c : WindowIndex) (hd : s.registered.Nodup) :
    Removed s (fun j => j = c ∧ s.ChildOf j i)
      (if (s.slots c).used ∧ (s.slots c).parent.map WindowPointer.slot = some i then
        (if (s.unregisterWindowHandle c).focused = some c then
          { s.unregisterWindowHandle c with focused := none }
        else s.unregisterWindowHandle c).setSlot c {}
      else s) := by
  have hh : s.ChildOf c i ↔
      (s.slots c).used ∧ (s.slots c).parent.map WindowPointer.slot = some i := by
    unfold WindowState.ChildOf
    rw [map_eq_some_iff]
  by_cases hc : s.ChildOf c i
  · rw [if_pos (hh.1 hc)]
    have he : ∀ j, (j = c ∧ s.ChildOf j i) ↔ j = c := by
      intro j
      exact ⟨And.left, fun hj => ⟨hj, hj ▸ hc⟩⟩
    simp only [he]
    have hs : ∀ t : WindowState, t.slots = s.slots → t.captured = s.captured →
        t.registered = s.registered.erase c → t.allocated = s.allocated →
        t.waiting = s.waiting → (∀ j, t.focused = some j → s.focused = some j ∧ j ≠ c) →
        Removed s (· = c) (t.setSlot c {}) := by
      intro t hs hp hr ha hw ho
      refine { cleared := ?_, kept := ?_, focused := ho, captured := hp,
               registered := ?_, gone := ?_, allocated := ha, waiting := hw }
      · rintro j rfl
        exact update_self _ _ _
      · intro j hj
        exact (update_of_ne hj _ _).trans (congrFun hs j)
      · show t.registered.Sublist s.registered
        rw [hr]
        exact erase_sublist
      · rintro j rfl
        show j ∉ t.registered
        rw [hr, List.Nodup.mem_erase_iff hd]
        exact fun hm => hm.1 rfl
    split
    · exact hs _ rfl rfl rfl rfl rfl fun j hj => by cases hj
    · next hf =>
      refine hs _ rfl rfl rfl rfl rfl fun j hj => ⟨hj, ?_⟩
      rintro rfl
      exact hf hj
  · rw [if_neg fun h => hc (hh.2 h)]
    have hn : ∀ j, ¬(j = c ∧ s.ChildOf j i) := by
      rintro j ⟨rfl, hj⟩
      exact hc hj
    exact { cleared := fun j hj => absurd hj (hn j), kept := fun _ _ => rfl,
            focused := fun j hj => ⟨hj, hn j⟩, captured := rfl,
            registered := List.Sublist.refl _, gone := fun j hj => absurd hj (hn j),
            allocated := rfl, waiting := rfl }

/-- **The loop frees the children of the window, and nothing else.** -/
theorem removed_freeChildren (hd : s.registered.Nodup) :
    Removed s (fun j => s.ChildOf j i) (s.freeChildren i) := by
  have ho : ∀ (l : List WindowIndex) (s : WindowState), l.Nodup → s.registered.Nodup →
      Removed s (fun j => j ∈ l ∧ s.ChildOf j i) (l.foldl (fun s ch =>
        if (s.slots ch).used ∧ (s.slots ch).parent.map WindowPointer.slot = some i then
          (if (s.unregisterWindowHandle ch).focused = some ch then
            { s.unregisterWindowHandle ch with focused := none }
          else s.unregisterWindowHandle ch).setSlot ch {}
        else s) s) := by
    intro l
    induction l with
    | nil =>
      intro s _ _
      exact { cleared := fun j hj => absurd hj.1 not_mem_nil, kept := fun _ _ => rfl,
              focused := fun j hj => ⟨hj, by simp⟩, captured := rfl,
              registered := List.Sublist.refl _,
              gone := fun j hj => absurd hj.1 not_mem_nil, allocated := rfl, waiting := rfl }
    | cons c l ih =>
      intro s hl hs
      obtain ⟨hcl, hl⟩ := nodup_cons.1 hl
      have hf := freeChildren_step (i := i) c hs
      rw [foldl_cons]
      generalize (if (s.slots c).used ∧
          (s.slots c).parent.map WindowPointer.slot = some i then
        (if (s.unregisterWindowHandle c).focused = some c then
          { s.unregisterWindowHandle c with focused := none }
        else s.unregisterWindowHandle c).setSlot c {}
      else s) = s₁ at hf ⊢
      have hr := ih s₁ hl (hs.sublist hf.registered)
      -- the slots that are still to come are as they were
      have ha : ∀ j ∈ l, s₁.ChildOf j i ↔ s.ChildOf j i := by
        intro j hj
        have hjc : ¬(j = c ∧ s.ChildOf j i) := by
          rintro ⟨rfl, -⟩
          exact hcl hj
        unfold WindowState.ChildOf
        rw [hf.kept j hjc]
      refine { cleared := ?_, kept := ?_, focused := ?_, captured := hr.captured.trans hf.captured,
               registered := hr.registered.trans hf.registered, gone := ?_,
               allocated := hr.allocated.trans hf.allocated,
               waiting := hr.waiting.trans hf.waiting }
      · rintro j ⟨hj, hh⟩
        rcases mem_cons.1 hj with rfl | hj
        · rw [hr.kept j fun hj => hcl hj.1]
          exact hf.cleared j ⟨rfl, hh⟩
        · exact hr.cleared j ⟨hj, (ha j hj).2 hh⟩
      · intro j hj
        have hre : ¬(j ∈ l ∧ s₁.ChildOf j i) := by
          rintro ⟨hjl, hh⟩
          exact hj ⟨mem_cons_of_mem c hjl, (ha j hjl).1 hh⟩
        have hi : ¬(j = c ∧ s.ChildOf j i) := by
          rintro ⟨rfl, hh⟩
          exact hj ⟨mem_cons_self, hh⟩
        rw [hr.kept j hre, hf.kept j hi]
      · intro j hj
        obtain ⟨hj₁, hn₁⟩ := hr.focused j hj
        obtain ⟨hj₀, hn₀⟩ := hf.focused j hj₁
        refine ⟨hj₀, ?_⟩
        rintro ⟨hjl, hh⟩
        rcases mem_cons.1 hjl with rfl | hjl
        · exact hn₀ ⟨rfl, hh⟩
        · exact hn₁ ⟨hjl, (ha j hjl).2 hh⟩
      · rintro j ⟨hjl, hh⟩ he
        rcases mem_cons.1 hjl with rfl | hjl
        · exact hf.gone j ⟨rfl, hh⟩ (hr.registered.subset he)
        · exact hr.gone j ⟨hjl, (ha j hjl).2 hh⟩ he
  have hal := ho (List.finRange 512) s (nodup_finRange 512) hd
  have heq : (fun j => j ∈ List.finRange 512 ∧ s.ChildOf j i) = fun j => s.ChildOf j i := by
    funext j
    simp
  rwa [heq] at hal

/-! ### Slots and tables change -/

theorem sound_empty_windows : WindowSound {} where
  parents _ hj := by cases hj
  acyclic j hself := by
    obtain ⟨k, ⟨hj, -⟩, -⟩ := Relation.TransGen.head'_iff.1 hself
    cases hj
  focus _ hi := by cases hi
  capture _ hi := by cases hi
  registry _ hi := by cases hi
  free _ _ := rfl
  distinct := nodup_nil
  unregistered _ hi := by cases hi
  serials _ := Nat.zero_le _
  waits _ hf := by cases hf
  destroys _ hwin := by cases hwin

theorem sound_tables (h : WindowSound s) (hs : s'.slots = s.slots) (ha : s'.allocated = s.allocated)
    (hf : ∀ i, s'.focused = some i → (s.slots i).used)
    (hp : ∀ i, s'.captured = some i → (s.slots i).used) (hr : s'.registered.Sublist s.registered)
    (hwa : ∀ fr ∈ s'.waiting, fr ∈ s.waiting ∨ fr.window.serial ≤ s.allocated ∧
      ∀ window, fr = .destroying window → (s.slots window.slot).destroying) : WindowSound s' := by
  have hh : s'.ChildOf = s.ChildOf := by
    funext a b
    unfold WindowState.ChildOf
    rw [hs]
  refine { parents := hs ▸ h.parents, acyclic := hh ▸ h.acyclic, focus := hs ▸ hf,
           capture := hs ▸ hp, registry := ?_, free := hs ▸ h.free,
           distinct := h.distinct.sublist hr, unregistered := ?_,
           serials := ?_, waits := ?_, destroys := ?_ }
  · intro i hi
    rw [hs]
    exact h.registry i (hr.subset hi)
  · intro i hi hg
    rw [hs] at hi
    exact h.unregistered i hi (hr.subset hg)
  · intro i
    rw [hs, ha]
    exact h.serials i
  · intro fr hfr
    rw [ha]
    exact (hwa fr hfr).elim (h.waits fr) And.left
  · intro window hw hi he
    rw [hs] at hi he ⊢
    rcases hwa _ hw with hold | ⟨-, hn⟩
    · exact h.destroys window hold hi he
    · exact hn window rfl

theorem sound_edit (h : WindowSound s) (hi : (s.slots i).used) {slot : WindowSlot}
    (hu : slot.used) (hsr : slot.serial = (s.slots i).serial)
    (hr : ∀ p, slot.parent = some p → (s.slots i).parent = some p ∨
      (s.slots p.slot).used ∧ (s.slots p.slot).serial = p.serial ∧
        ¬ s.Under p.slot i) (hk : (s.slots i).destroying → slot.destroying)
    (hd : slot.destroying → i ∉ s.registered) : WindowSound (s.setSlot i slot) := by
  have he : (s.setSlot i slot).slots i = slot := update_self _ _ _
  have ho : ∀ j, j ≠ i → (s.setSlot i slot).slots j = s.slots j := fun j hj => update_of_ne hj _ _
  have hs : ∀ j, ((s.setSlot i slot).slots j).used = (s.slots j).used ∧
      ((s.setSlot i slot).slots j).serial = (s.slots j).serial := by
    intro j
    by_cases hj : j = i
    · subst hj
      rw [he]
      exact ⟨hu.trans hi.symm, hsr⟩
    · rw [ho j hj]
      exact ⟨rfl, rfl⟩
  refine { parents := ?_, acyclic := ?_, focus := ?_, capture := ?_, registry := ?_, free := ?_,
           distinct := h.distinct, unregistered := ?_, serials := ?_, waits := h.waits,
           destroys := ?_ }
  · intro j hj p hp
    rw [(hs j).1] at hj
    rw [(hs _).1, (hs _).2]
    by_cases hji : j = i
    · subst hji
      rw [he] at hp
      rcases hr p hp with hold | ⟨hl, hps, -⟩
      · exact h.parents j hj p hold
      · exact ⟨hl, hps⟩
    · rw [ho j hji] at hp
      exact h.parents j hj p hp
  · apply acyclic_add (m := i) (q := fun b => ∃ p, slot.parent = some p ∧
      (s.slots i).parent ≠ some p ∧ p.slot = b) h.acyclic
    · rintro a b ⟨ha, p, hp, rfl⟩
      rw [(hs a).1] at ha
      by_cases hai : a = i
      · subst hai
        rw [he] at hp
        by_cases hold : (s.slots a).parent = some p
        · exact .inl ⟨ha, p, hold, rfl⟩
        · exact .inr ⟨rfl, p, hp, hold, rfl⟩
      · rw [ho a hai] at hp
        exact .inl ⟨ha, p, hp, rfl⟩
    · rintro b ⟨p, hp, hn, rfl⟩
      exact ((hr p hp).resolve_left hn).2.2
  · intro j hj
    rw [(hs j).1]
    exact h.focus j hj
  · intro j hj
    rw [(hs j).1]
    exact h.capture j hj
  · intro j hj
    rw [(hs j).1]
    exact h.registry j hj
  · intro j hj
    by_cases hji : j = i
    · subst hji
      rw [he, hu] at hj
      cases hj
    · rw [ho j hji] at hj ⊢
      exact h.free j hj
  · intro j hj
    by_cases hji : j = i
    · subst hji
      rw [he] at hj
      exact hd hj
    · rw [ho j hji] at hj
      exact h.unregistered j hj
  · intro j
    rw [(hs j).2]
    exact h.serials j
  · intro window hw hl hws
    rw [(hs _).1] at hl
    rw [(hs _).2] at hws
    have hold := h.destroys window hw hl hws
    by_cases hji : window.slot = i
    · rw [hji, he]
      rw [hji] at hold
      exact hk hold
    · rw [ho _ hji]
      exact hold

theorem sound_take (h : WindowSound s) (hi : (s.slots i).used = false) (sl : WindowSlot)
    (hu : sl.used) (hd : sl.destroying = false) (hpr : ∀ p, sl.parent = some p →
      (s.slots p.slot).used ∧ (s.slots p.slot).serial = p.serial) :
    WindowSound ((s.takeSlot i sl).registerWindowHandle i) := by
  have hn : ∀ {j}, (s.slots j).used → j ≠ i := by
    rintro j hj rfl
    rw [hi] at hj
    cases hj
  have hsl : ((s.takeSlot i sl).registerWindowHandle i).slots =
      update s.slots i { sl with serial := s.allocated + 1 } := by
    unfold registerWindowHandle
    split <;> rfl
  have hs : ((s.takeSlot i sl).registerWindowHandle i).slots i =
      { sl with serial := s.allocated + 1 } := by
    rw [hsl, update_self]
  have ho : ∀ j, j ≠ i →
      ((s.takeSlot i sl).registerWindowHandle i).slots j = s.slots j := by
    intro j hj
    rw [hsl, update_of_ne hj]
  have hg : ((s.takeSlot i sl).registerWindowHandle i).registered = s.registered ∨
      ((s.takeSlot i sl).registerWindowHandle i).registered = s.registered ++ [i] := by
    unfold registerWindowHandle
    split
    · exact .inl rfl
    · exact .inr rfl
  have hm : ∀ j ∈ ((s.takeSlot i sl).registerWindowHandle i).registered,
      j = i ∨ j ∈ s.registered := by
    intro j hj
    rcases hg with heq | heq
    · exact .inr (heq ▸ hj)
    · rw [heq] at hj
      simpa [or_comm] using hj
  have ht : ((s.takeSlot i sl).registerWindowHandle i).focused = s.focused ∧
      ((s.takeSlot i sl).registerWindowHandle i).captured = s.captured ∧
      ((s.takeSlot i sl).registerWindowHandle i).waiting = s.waiting ∧
      ((s.takeSlot i sl).registerWindowHandle i).allocated = s.allocated + 1 := by
    unfold registerWindowHandle
    split <;> exact ⟨rfl, rfl, rfl, rfl⟩
  obtain ⟨hf, hca, hwa, hal⟩ := ht
  have hl : ∀ {j}, (s.slots j).used →
      (((s.takeSlot i sl).registerWindowHandle i).slots j).used := by
    intro j hj
    rw [ho j (hn hj)]
    exact hj
  refine { parents := ?_, acyclic := ?_, focus := ?_, capture := ?_, registry := ?_, free := ?_,
           distinct := ?_, unregistered := ?_, serials := ?_, waits := ?_, destroys := ?_ }
  · intro j hj p hpo
    by_cases hji : j = i
    · rw [hji, hs] at hpo
      have hp := hpr p hpo
      rw [ho _ (hn hp.1)]
      exact hp
    · rw [ho j hji] at hj hpo
      have hp := h.parents j hj p hpo
      rw [ho _ (hn hp.1)]
      exact hp
  · apply acyclic_add (m := i) (q := fun b => (s.slots b).used) h.acyclic
    · rintro a b ⟨ha, p, hpo, rfl⟩
      by_cases hai : a = i
      · rw [hai, hs] at hpo
        exact .inr ⟨hai, (hpr p hpo).1⟩
      · rw [ho a hai] at ha hpo
        exact .inl ⟨ha, p, hpo, rfl⟩
    · -- nothing leads to a free slot
      intro b hb hpa
      rcases Relation.ReflTransGen.cases_tail hpa with heq | ⟨c, -, hc, p, hpo, hso⟩
      · exact hn hb heq.symm
      · exact hn (h.parents c hc p hpo).1 hso
  · intro j hj
    rw [hf] at hj
    exact hl (h.focus j hj)
  · intro j hj
    rw [hca] at hj
    exact hl (h.capture j hj)
  · intro j hj
    rcases hm j hj with rfl | hj
    · rw [hs]
      exact hu
    · exact hl (h.registry j hj)
  · intro j hj
    by_cases hji : j = i
    · rw [hji, hs] at hj
      cases hu.symm.trans hj
    · rw [ho j hji] at hj ⊢
      exact h.free j hj
  · rcases hg with heq | heq
    · rw [heq]
      exact h.distinct
    rw [heq, nodup_append]
    refine ⟨h.distinct, nodup_singleton i, ?_⟩
    intro a ha b hb hab
    rw [mem_singleton] at hb
    exact hn (h.registry a ha) (hab.trans hb)
  · intro j hj hr
    by_cases hji : j = i
    · rw [hji, hs] at hj
      exact Bool.false_ne_true (hd.symm.trans hj)
    · rw [ho j hji] at hj
      rcases hm j hr with heq | hr
      · exact hji heq
      · exact h.unregistered j hj hr
  · intro j
    rw [hal]
    by_cases hji : j = i
    · rw [hji, hs]
    · rw [ho j hji]
      exact (h.serials j).trans (Nat.le_succ _)
  · intro fr hfr
    rw [hwa] at hfr
    rw [hal]
    exact (h.waits fr hfr).trans (Nat.le_succ _)
  · intro window hwi hw he
    rw [hwa] at hwi
    by_cases hji : window.slot = i
    · -- the call that waits is about an older window
      rw [hji, hs] at he
      have he : s.allocated + 1 = window.serial := he
      have hold : window.serial ≤ s.allocated := h.waits _ hwi
      omega
    · rw [ho _ hji] at hw he ⊢
      exact h.destroys window hwi hw he

/-! ### What is to be true, and the condition -/

/-- The call that waits ends with its window freed once the window procedure returns. -/
def WindowFrame.frees (result : ℤ) : WindowFrame → Prop
  | .destroying _ => True
  | .creating false _ _ _ => result = 0
  | .creating true _ _ _ => result = -1

/-- What is to be gone: below a window that is destroyed, or whose creation is rejected, nothing
is left. -/
def WindowState.Goes (s : WindowState) : WindowCall → WindowIndex → Prop
  | .destroyWindow window, j => ∃ i, s.findWindowSlot window = some i ∧
      (s.slots i).destroying = false ∧ s.Under j i ∧ (j ≠ i ∨ (s.slots i).wndproc = false)
  | .windowProcedureReturns result, j => ∃ frame waiting, s.waiting = frame :: waiting ∧
      frame.frees result ∧ (s.slots frame.window.slot).used = true ∧
      (s.slots frame.window.slot).serial = frame.window.serial ∧ s.Under j frame.window.slot
  | _, _ => False

/-- The tree and the tables are right after a call, the walks upwards end, and what is to be gone
has gone. -/
structure WindowRight (s : WindowState) (call : WindowCall) (s' : WindowState) : Prop where
  integrity : WindowIntegrity s'
  walks : ∀ j, (s'.slots j).used = true → (s'.getWindowRect j).isSome = true
  freed : ∀ j, s.Goes call j → (s'.slots j).used = false

/-- Every call of a run that comes back does right. -/
def AllWindowsRight (s : WindowState) : List WindowCall → Prop
  | [] => True
  | call :: calls => ∀ s' a, s.step call = some (s', a) →
      WindowRight s call s' ∧ AllWindowsRight s' calls

/-- The condition on a call.  A window that is destroyed has no grandchildren, and the capture is
not at one of its children, nor at itself if it has no window procedure; a new parent is not the
window itself or below it; and when a window is freed as its procedure returns, the slot holds no
other window by now, and that window no children, no focus and no capture. -/
def CarefulWindow (s : WindowState) : WindowCall → Prop
  | .destroyWindow window => ∀ i, s.findWindowSlot window = some i →
      (s.slots i).destroying = false →
      (∀ j k, s.ChildOf j i → ¬ s.ChildOf k j) ∧ (∀ j, s.ChildOf j i → s.captured ≠ some j) ∧
        ((s.slots i).wndproc = false → s.captured ≠ some i)
  | .setParent child newParent => ∀ i parent, s.findWindowSlot child = some i →
      s.findWindowSlot newParent = some parent → ¬ s.Under parent i
  | .windowProcedureReturns result => ∀ frame waiting, s.waiting = frame :: waiting →
      frame.frees result → (s.slots frame.window.slot).used = true →
      (s.slots frame.window.slot).serial = frame.window.serial ∧
        (∀ j, ¬ s.ChildOf j frame.window.slot) ∧ s.focused ≠ some frame.window.slot ∧
        s.captured ≠ some frame.window.slot
  | _ => True

/-- Every call of a run meets the condition, in the state that it finds. -/
def CarefulWindows (s : WindowState) : List WindowCall → Prop
  | [] => True
  | call :: calls => CarefulWindow s call ∧
      ∀ s' a, s.step call = some (s', a) → CarefulWindows s' calls

/-! ### The calls -/

variable {window : WindowHandle}

theorem slot_of_findWindowSlot (h : s.findWindowSlot window = some i) : window = .slot i := by
  cases window with
  | slot ix =>
    obtain ⟨-, hi⟩ := ite_none_right_eq_some.1 h
    rw [some.inj hi]
  | null => cases h
  | other => cases h

variable {a : WindowAnswer}

section

variable (h : WindowSound s)
include h

theorem sound_callNew {c tl : Bool} {p : Option WindowIndex}
    {window : WindowPointer} (he : window.serial ≤ s.allocated)
    (hs : s.callNew c tl p window = some (s', a)) : WindowSound s' := by
  unfold callNew at hs
  split at hs
  · cases hs
    refine sound_tables h rfl rfl h.focus h.capture (List.Sublist.refl _) ?_
    intro fr hf
    rcases mem_cons.1 hf with rfl | hf
    · exact .inr ⟨he, nofun⟩
    · exact .inl hf
  · cases hs

theorem sound_accept (tl : Bool) (p : Option WindowIndex)
    (ix : WindowIndex) : WindowSound (s.accept tl p ix).1 := by
  unfold WindowState.accept
  split
  · next hh =>
    obtain ⟨-, -, he, -, -⟩ := hh
    refine sound_tables h rfl rfl ?_ h.capture (List.Sublist.refl _) fun _ => .inl
    intro i hi
    cases hi
    -- a free slot is no edit control
    cases hu : (s.slots ix).used with
    | true => rfl
    | false =>
      rw [h.free ix hu] at he
      cases he
  · exact h

theorem sound_createWindow {r : CreateWindowRequest}
    (hs : s.createWindow r = some (s', a)) : WindowSound s' := by
  dsimp only [WindowState.createWindow] at hs
  split at hs
  · cases hs
    exact h
  split at hs
  · cases hs
    exact h
  split at hs
  · cases hs
    exact h
  next ix hf =>
  have hf : (s.slots ix).used = false := by simpa using find?_some hf
  split at hs
  · split at hs
    · cases hs
      exact h
    next p hp =>
    have hl := used_of_findWindowSlot hp
    have ht : ∀ sl : WindowSlot, sl.used → sl.destroying = false →
        sl.parent = some (s.pointerTo p) →
        WindowSound ((s.takeSlot ix sl).registerWindowHandle ix) := by
      intro sl hu hd hsl
      refine sound_take h hf sl hu hd ?_
      intro pt hi
      cases hsl.symm.trans hi
      exact ⟨hl, rfl⟩
    have ho := ht
      { used := true, wndproc := r.registered.getD false, isControl := true,
        edit := r.builtin.getD false, parent := some (s.pointerTo p),
        x := r.x, y := r.y, width := r.width, height := r.height,
        visible := r.visible, enabled := r.enabled } rfl rfl rfl
    split at hs
    · exact sound_callNew ho (ho.serials ix) hs
    · obtain rfl := congrArg fst (some.inj hs)
      exact sound_accept ho _ _ _
  · split at hs
    · cases hs
      exact h
    have he := h.free ix hf
    have ho := sound_take h hf { s.slots ix with
      used := true, wndproc := r.registered.getD false, x := r.x, y := r.y,
      width := r.width, height := r.height, visible := r.visible } rfl
      (by rw [he]) (fun pt hi => by
        rw [he] at hi
        cases hi)
    split at hs
    · obtain rfl := congrArg fst (some.inj hs)
      exact sound_accept ho _ _ _
    · exact sound_callNew ho (ho.serials ix) hs

theorem sound_setParent {ch np : WindowHandle} (hc : CarefulWindow s (.setParent ch np)) :
    WindowSound (s.setParent ch np).1 := by
  unfold WindowState.setParent
  cases hh : s.findWindowSlot ch with
  | none => exact h
  | some i =>
    have hu := used_of_findWindowSlot hh
    refine sound_edit h hu hu rfl ?_ id (h.unregistered i)
    intro pt hp
    obtain ⟨p, ha, rfl⟩ := map_eq_some_iff.1 hp
    exact .inr ⟨used_of_findWindowSlot ha, rfl, hc i p hh ha⟩

theorem sound_setFocus (g : Bool) (window : WindowHandle) :
    WindowSound (s.setFocus g window).1 := by
  unfold WindowState.setFocus
  split
  · exact h
  cases hw : s.findWindowSlot window with
  | none => exact h
  | some i =>
    dsimp only
    split
    · exact h
    · refine sound_tables h rfl rfl ?_ h.capture (List.Sublist.refl _) fun _ => .inl
      intro j hj
      cases hj
      exact used_of_findWindowSlot hw

theorem sound_setCapture (g : Bool) (window : WindowHandle) :
    WindowSound (s.setCapture g window).1 := by
  unfold WindowState.setCapture
  split
  · exact h
  split
  · exact sound_tables h rfl rfl h.focus (nofun) (List.Sublist.refl _) fun _ => .inl
  cases hw : s.findWindowSlot window with
  | none => exact h
  | some i =>
    refine sound_tables h rfl rfl h.focus ?_ (List.Sublist.refl _) fun _ => .inl
    intro j hj
    cases hj
    exact used_of_findWindowSlot hw

theorem sound_releaseCapture (g : Bool) : WindowSound (s.releaseCapture g).1 := by
  unfold WindowState.releaseCapture
  split
  · exact h
  · exact sound_tables h rfl rfl h.focus (nofun) (List.Sublist.refl _) fun _ => .inl

theorem sound_free (hr : i ∉ s.registered)
    (hl : (s.slots i).used → (∀ j, ¬ s.ChildOf j i) ∧ s.focused ≠ some i ∧
      s.captured ≠ some i) : WindowSound (s.setSlot i {}) := by
  have hn : (∀ j, ¬ s.ChildOf j i) ∧ s.focused ≠ some i ∧ s.captured ≠ some i := by
    cases hu : (s.slots i).used with
    | true => exact hl hu
    | false =>
      refine ⟨?_, ?_, ?_⟩
      · rintro j ⟨hj, p, ho, rfl⟩
        have hp := (h.parents j hj p ho).1
        rw [hu] at hp
        cases hp
      · intro hf
        have hf := h.focus i hf
        rw [hu] at hf
        cases hf
      · intro ha
        have ha := h.capture i ha
        rw [hu] at ha
        cases ha
  obtain ⟨hh, hf, ha⟩ := hn
  refine sound_removed h (removed_one hr hf) ?_ ?_
  · rintro j k hk rfl
    exact absurd hk (hh k)
  · rintro j hj rfl
    exact ha hj

end

/-! ### Destruction -/

/-- A window that is being destroyed, before its children go. -/
def WindowState.markDestroying (s : WindowState) (i : WindowIndex) : WindowState :=
  (s.unregisterWindowHandle i).setSlot i { s.slots i with destroying := true }

theorem childOf_markDestroying : (s.markDestroying i).ChildOf = s.ChildOf := by
  have hf : ∀ j, ((s.markDestroying i).slots j).used = (s.slots j).used ∧
      ((s.markDestroying i).slots j).parent = (s.slots j).parent := by
    intro j
    by_cases hj : j = i
    · subst hj
      have hs : (s.markDestroying j).slots j = { s.slots j with destroying := true } :=
        update_self _ _ _
      rw [hs]
      exact ⟨rfl, rfl⟩
    · have ho : (s.markDestroying i).slots j = s.slots j := update_of_ne hj _ _
      rw [ho]
      exact ⟨rfl, rfl⟩
  funext a b
  unfold WindowState.ChildOf
  rw [(hf a).1, (hf a).2]

section

variable (h : WindowSound s)
include h

theorem sound_markDestroying (hi : (s.slots i).used) : WindowSound (s.markDestroying i) := by
  have he : (s.unregisterWindowHandle i).registered.Sublist s.registered := erase_sublist
  have hg : i ∉ (s.unregisterWindowHandle i).registered := by
    intro hm
    exact ((List.Nodup.mem_erase_iff h.distinct).1 hm).1 rfl
  have hu : WindowSound (s.unregisterWindowHandle i) :=
    sound_tables h rfl rfl h.focus h.capture he fun _ => .inl
  exact sound_edit hu hi hi rfl (fun _ => .inl) (fun _ => rfl) fun _ => hg

/-- What `DestroyWindow` does to a window that is not being destroyed: its children go, and then
its procedure is called or it goes itself. -/
theorem destroyWindow_cases
    (hw : s.findWindowSlot window = some i) (hfr : (s.slots i).destroying = false) :
    ∃ t, Removed (s.markDestroying i) (fun j => s.ChildOf j i) t ∧ t.focused ≠ some i ∧
      s.destroyWindow window = if (s.slots i).wndproc then
        ({ t with waiting := .destroying (s.pointerTo i) :: t.waiting }, .called i)
      else t.finishDestroy (s.pointerTo i) := by
  have hu := used_of_findWindowSlot hw
  have hr := removed_freeChildren (i := i) (sound_markDestroying h hu).distinct
  rw [childOf_markDestroying] at hr
  -- a window is not its own child, so it is still there
  have hk : ((s.markDestroying i).freeChildren i).slots i =
      { s.slots i with destroying := true } := by
    rw [hr.kept i fun hs => h.acyclic i (Relation.TransGen.single hs)]
    exact update_self _ _ _
  have ha : ∀ u, (s.markDestroying i).freeChildren i = u → s.destroyWindow window =
      (let t := if u.focused = some i then { u with focused := none } else u
      if (t.slots i).wndproc then
        ({ t with waiting := .destroying (s.pointerTo i) :: t.waiting }, .called i)
      else t.finishDestroy (s.pointerTo i)) := by
    rintro u rfl
    unfold WindowState.destroyWindow
    rw [hw]
    -- what the loop does is of no matter here
    generalize freeChildren = loop
    exact if_neg fun hd => Bool.false_ne_true (hfr.symm.trans hd)
  generalize (s.markDestroying i).freeChildren i = u at hr hk ha
  rw [ha u rfl]
  by_cases hf : u.focused = some i
  · refine ⟨{ u with focused := none }, ?_, ?_, ?_⟩
    · exact { hr with focused := fun j hj => by cases hj }
    · intro hn
      cases hn
    · rw [if_pos hf]
      show (if (u.slots i).wndproc then _ else _) = _
      rw [hk]
  · refine ⟨u, hr, hf, ?_⟩
    rw [if_neg hf]
    show (if (u.slots i).wndproc then _ else _) = _
    rw [hk]

section

variable (hc : CarefulWindow s (.destroyWindow window))
include hc

theorem sound_children_gone (hw : s.findWindowSlot window = some i)
    (hf : (s.slots i).destroying = false)
    (hr : Removed (s.markDestroying i) (fun j => s.ChildOf j i) s') :
    WindowSound s' ∧ ∀ j, ¬ s'.ChildOf j i := by
  obtain ⟨hg, ha, -⟩ := hc i hw hf
  have hm := sound_markDestroying h (used_of_findWindowSlot hw)
  constructor
  · refine sound_removed hm hr ?_ ?_
    · intro j k hkj hi
      rw [childOf_markDestroying] at hkj
      exact absurd hkj (hg j k hi)
    · intro j hj hh
      exact ha j hh hj
  · rintro j ⟨hj, hp⟩
    have hk : ¬ s.ChildOf j i := by
      intro ho
      rw [hr.cleared j ho] at hj
      cases hj
    apply hk
    rw [← childOf_markDestroying (i := i)]
    have hs := hr.kept j hk
    exact ⟨hs ▸ hj, hs ▸ hp⟩

theorem sound_destroyWindow : WindowSound (s.destroyWindow window).1 := by
  cases hw : s.findWindowSlot window with
  | none =>
    unfold WindowState.destroyWindow
    rw [hw]
    exact h
  | some i =>
    cases hf : (s.slots i).destroying with
    | true =>
      have ha : s.destroyWindow window = (s.unregisterWindowHandle i, .truth true) := by
        unfold WindowState.destroyWindow
        rw [hw]
        exact if_pos hf
      rw [ha]
      exact sound_tables h rfl rfl h.focus h.capture erase_sublist fun _ => .inl
    | false =>
      obtain ⟨t, hr, ho, ha⟩ := destroyWindow_cases h hw hf
      obtain ⟨hs, hh⟩ := sound_children_gone h hc hw hf hr
      have hl : t.slots i = { s.slots i with destroying := true } := by
        rw [hr.kept i fun hse => h.acyclic i (Relation.TransGen.single hse)]
        exact update_self _ _ _
      have hg : i ∉ t.registered := hs.unregistered i (by rw [hl])
      rw [ha]
      by_cases hp : (s.slots i).wndproc
      · rw [if_pos hp]
        refine sound_tables hs rfl rfl hs.focus hs.capture (List.Sublist.refl _) ?_
        intro fr hfr
        rcases mem_cons.1 hfr with rfl | hfr
        · have he : (t.slots i).serial ≤ t.allocated := hs.serials i
          rw [hl] at he
          refine .inr ⟨he, ?_⟩
          rintro window heq
          cases heq
          show (t.slots i).destroying
          rw [hl]
        · exact .inl hfr
      · rw [if_neg hp]
        refine sound_free hs hg fun _ => ⟨hh, ho, ?_⟩
        rw [hr.captured]
        exact (hc i hw hf).2.2 (Bool.eq_false_of_not_eq_true hp)

theorem freed_destroyWindow (hj : s.Goes (.destroyWindow window) j) :
    ((s.destroyWindow window).1.slots j).used = false := by
  obtain ⟨i, hw, hf, hu, ho⟩ := hj
  obtain ⟨t, hr, -, hca⟩ := destroyWindow_cases h hw hf
  have hh : j = i ∨ s.ChildOf j i := by
    rcases Relation.ReflTransGen.cases_tail hu with heq | ⟨k, hp, hk⟩
    · exact .inl heq.symm
    · rcases Relation.ReflTransGen.cases_tail hp with heq | ⟨l, -, hl⟩
      · exact .inr (heq ▸ hk)
      · exact absurd hl ((hc i hw hf).1 k l hk)
  rw [hca]
  rcases hh with rfl | hh
  · have hpr := ho.resolve_left fun hn => hn rfl
    rw [if_neg fun ha => Bool.false_ne_true (hpr.symm.trans ha)]
    show (update t.slots j {} j).used = false
    rw [update_self]
  · have hg : (t.slots j).used = false := by rw [hr.cleared j hh]
    split
    · exact hg
    show (update t.slots i {} j).used = false
    by_cases hi : j = i
    · rw [hi, update_self]
    · rw [update_of_ne hi]
      exact hg

end

end

/-! ### Returns -/

theorem sound_pop (h : WindowSound s) {fr : WindowFrame} {w : List WindowFrame}
    (hw : s.waiting = fr :: w) : WindowSound { s with waiting := w } := by
  refine sound_tables h rfl rfl h.focus h.capture (List.Sublist.refl _) ?_
  intro o ho
  refine .inl ?_
  rw [hw]
  exact mem_cons_of_mem fr ho

theorem sound_reject (h : WindowSound s) {window : WindowPointer}
    (hl : (s.slots window.slot).used → (∀ j, ¬ s.ChildOf j window.slot) ∧
      s.focused ≠ some window.slot ∧ s.captured ≠ some window.slot) :
    WindowSound (s.reject window) := by
  have hg : window.slot ∉ (s.unregisterWindowHandle window.slot).registered := by
    intro hm
    exact ((List.Nodup.mem_erase_iff h.distinct).1 hm).1 rfl
  have hu : WindowSound (s.unregisterWindowHandle window.slot) :=
    sound_tables h rfl rfl h.focus h.capture erase_sublist fun _ => .inl
  exact sound_free hu hg hl

theorem sound_windowProcedureReturns (h : WindowSound s) {r : ℤ}
    (hc : CarefulWindow s (.windowProcedureReturns r))
    (hs : s.windowProcedureReturns r = some (s', a)) : WindowSound s' := by
  unfold WindowState.windowProcedureReturns at hs
  split at hs
  · cases hs
  · next window w hw =>
    have hp := sound_pop h hw
    have ha := hc _ w hw trivial
    cases hs
    refine sound_free hp ?_ fun hu => (ha hu).2
    -- a window that is being destroyed is not registered, and no free slot is
    intro hr
    have hu := h.registry window.slot hr
    have hd := h.destroys window (hw ▸ mem_cons_self) hu (ha hu).1
    exact h.unregistered window.slot hd hr
  · next tl p window w hw =>
    have hp := sound_pop h hw
    split at hs
    · next hz =>
      cases hs
      exact sound_reject hp fun hu => (hc _ w hw hz hu).2
    · refine sound_callNew hp (h.waits _ (hw ▸ mem_cons_self)) hs
  · next tl p window w hw =>
    have hp := sound_pop h hw
    split at hs
    · next hm =>
      cases hs
      exact sound_reject hp fun hu => (hc _ w hw hm hu).2
    · obtain rfl := congrArg fst (some.inj hs)
      exact sound_accept hp _ _ _

/-- The window whose destruction ends, or whose creation is rejected, is gone, and there was
nothing below it. -/
theorem freed_windowProcedureReturns {r : ℤ} (hc : CarefulWindow s (.windowProcedureReturns r))
    (hs : s.windowProcedureReturns r = some (s', a))
    (hj : s.Goes (.windowProcedureReturns r) j) : (s'.slots j).used = false := by
  obtain ⟨fr, w, hw, hf, hus, -, hu⟩ := hj
  have he : j = fr.window.slot := by
    rcases Relation.ReflTransGen.cases_tail hu with heq | ⟨k, -, hk⟩
    · exact heq.symm
    · exact absurd hk ((hc fr w hw hf hus).2.1 k)
  subst he
  unfold WindowState.windowProcedureReturns at hs
  rw [hw] at hs
  cases fr with
  | destroying window =>
    cases hs
    show (update s.slots window.slot {} window.slot).used = false
    rw [update_self]
  | creating c tl p window =>
    have hr : some (({ s with waiting := w }).reject window, WindowAnswer.handle none)
        = some (s', a) := by
      cases c with
      | false => exact (if_pos hf).symm.trans hs
      | true => exact (if_pos hf).symm.trans hs
    cases hr
    show (update s.slots window.slot {} window.slot).used = false
    rw [update_self]

/-! ### Runs -/

theorem sound_window_step (h : WindowSound s) {c : WindowCall}
    (hc : CarefulWindow s c) (hs : s.step c = some (s', a)) : WindowSound s' := by
  cases c with
  | createWindow re => exact sound_createWindow h hs
  | destroyWindow window =>
    obtain rfl := congrArg fst (some.inj hs)
    exact sound_destroyWindow h hc
  | setParent ch np =>
    obtain rfl := congrArg fst (some.inj hs)
    exact sound_setParent h hc
  | setFocus g window =>
    obtain rfl := congrArg fst (some.inj hs)
    exact sound_setFocus h g window
  | setCapture g window =>
    obtain rfl := congrArg fst (some.inj hs)
    exact sound_setCapture h g window
  | releaseCapture g =>
    obtain rfl := congrArg fst (some.inj hs)
    exact sound_releaseCapture h g
  | windowProcedureReturns r => exact sound_windowProcedureReturns h hc hs

/-- **A careful call does right.** -/
theorem window_step (h : WindowSound s) {c : WindowCall}
    (hc : CarefulWindow s c) (hs : s.step c = some (s', a)) : WindowRight s c s' := by
  have ho := sound_window_step h hc hs
  refine { integrity := ho.toWindowIntegrity,
           walks := fun j hj => getWindowRect_isSome ho.toWindowIntegrity hj, freed := ?_ }
  intro j hj
  cases c with
  | destroyWindow window =>
    obtain rfl := congrArg fst (some.inj hs)
    exact freed_destroyWindow h hc hj
  | windowProcedureReturns r => exact freed_windowProcedureReturns hc hs hj
  | _ => exact hj.elim

theorem allWindowsRight_of_careful (calls : List WindowCall) :
    ∀ s, WindowSound s → CarefulWindows s calls → AllWindowsRight s calls := by
  induction calls with
  | nil => exact fun _ _ _ => trivial
  | cons c calls ih =>
    rintro s h ⟨hc, hr⟩ s' a hs
    exact ⟨window_step h hc hs, ih s' (sound_window_step h hc hs) (hr s' a hs)⟩

/-- **In every careful run every call does right.** -/
theorem windows_kept_if_careful (calls : List WindowCall) (hcareful : CarefulWindows {} calls) :
    AllWindowsRight {} calls :=
  allWindowsRight_of_careful calls {} sound_empty_windows hcareful

/-! ### A run that takes care, and one that does not -/

/-- The state after a run, if every call comes back. -/
def WindowState.run (s : WindowState) (calls : List WindowCall) : Option WindowState :=
  calls.foldlM (fun s call => (s.step call).map fst) s

theorem run_window_cons (c : WindowCall) (cs : List WindowCall) :
    s.run (c :: cs) = ((s.step c).map fst).bind (·.run cs) := rfl

theorem carefulWindows_snoc {c : WindowCall} (cs : List WindowCall) :
    ∀ s, CarefulWindows s cs → (∀ s', s.run cs = some s' → CarefulWindow s' c) →
      CarefulWindows s (cs ++ [c]) := by
  induction cs with
  | nil => exact fun s _ hl => ⟨hl s rfl, fun _ _ _ => trivial⟩
  | cons f cs ih =>
    rintro s ⟨hc, hr⟩ hl
    refine ⟨hc, fun s' a hs => ih s' (hr s' a hs) fun t ht => hl t ?_⟩
    rw [run_window_cons, hs]
    exact ht

theorem integrity_of_run (cs : List WindowCall) :
    ∀ s, AllWindowsRight s cs → WindowIntegrity s → s.run cs = some s' → WindowIntegrity s' := by
  induction cs with
  | nil =>
    intro s _ hi hu
    cases hu
    exact hi
  | cons c cs ih =>
    intro s h _ hu
    obtain ⟨t, ht, hu⟩ := bind_eq_some_iff.1 hu
    obtain ⟨⟨t', a⟩, hs, rfl⟩ := map_eq_some_iff.1 ht
    obtain ⟨hr, he⟩ := h t' a hs
    exact ih t' he hr.integrity hu

def windowWithButton (parent : WindowIndex) : List WindowCall :=
  [.createWindow { registered := some true, parent := .null, skipCreate := true },
    .createWindow { registered := none, builtin := some false, parent := .slot parent }]

/-- The window is destroyed, and the button with it. -/
theorem windows_kept_if_careful_button : AllWindowsRight {}
      (windowWithButton 0 ++ [.destroyWindow (.slot 0)] ++ [.windowProcedureReturns 0]) := by
  refine windows_kept_if_careful _ ?_
  refine carefulWindows_snoc _ _ (carefulWindows_snoc _ _ ?_ ?_) ?_
  · exact ⟨trivial, fun _ _ _ => ⟨trivial, fun _ _ _ => trivial⟩⟩
  · intro s' hr i hi _
    have hs : (({} : WindowState).run (windowWithButton 0)).all fun s =>
        s.captured = none ∧ ∀ j, (s.slots j).parent.map WindowPointer.slot ≠ some 1 ∧
          ((s.slots j).parent.map WindowPointer.slot = some 0 → j = 1) := by decide +kernel
    rw [hr] at hs
    obtain ⟨ha, hl⟩ := of_decide_eq_true hs
    cases slot_of_findWindowSlot hi
    rw [ha]
    refine ⟨?_, fun _ _ => by simp, fun _ => by simp⟩
    rintro j k ⟨-, p, hp, hj⟩ ⟨-, p', hp', hk⟩
    have hj1 := (hl j).2 (by rw [hp]; exact congrArg some hj)
    refine (hl k).1 ?_
    rw [hp', ← hj1]
    exact congrArg some hk
  · intro s' hr f w hw _ _
    have hs : (({} : WindowState).run (windowWithButton 0 ++ [.destroyWindow (.slot 0)])).all
        fun s => s.captured = none ∧ s.focused = none ∧ s.waiting = [.destroying ⟨0, 1⟩] ∧
          (s.slots 0).serial = 1 ∧
          ∀ j, (s.slots j).parent.map WindowPointer.slot ≠ some 0 := by decide +kernel
    rw [hr] at hs
    obtain ⟨ha, ho, hf, he, hl⟩ := of_decide_eq_true hs
    cases hf.symm.trans hw
    rw [ha, ho]
    refine ⟨he, ?_, by simp, by simp⟩
    rintro j ⟨-, p, hp, hj⟩
    refine hl j ?_
    rw [hp]
    exact congrArg some hj

/-- The window is destroyed, but the label in its button is left, with the free slot of the button
as its parent. -/
theorem not_windows_kept : ¬ ∀ calls, AllWindowsRight {} calls := by
  intro h
  have hs : ((({} : WindowState).run (windowWithButton 0 ++
      [.createWindow { registered := none, builtin := some false, parent := .slot 1 },
        .destroyWindow (.slot 0), .windowProcedureReturns 0])).map fun s =>
          ((s.slots 2).used, (s.slots 2).parent, (s.slots 1).used)) =
      some (true, some ⟨1, 2⟩, false) := by decide +kernel
  obtain ⟨s', hr, hi⟩ := map_eq_some_iff.mp hs
  have hn := integrity_of_run _ _ (h _) sound_empty_windows.toWindowIntegrity hr
  simp only [Prod.mk.injEq] at hi
  obtain ⟨hu, hp, hf⟩ := hi
  have hl := (hn.parents 2 hu ⟨1, 2⟩ hp).1
  exact Bool.false_ne_true (hf.symm.trans hl)

end TradutorLinux
