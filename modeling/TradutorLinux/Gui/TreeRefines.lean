import TradutorLinux.Gui.TreeForest

/-!
# Runs of a tree view

The searches of the tree view walk over the vector: to the next item with the
same parent, upwards to a root, and down over the open items with a stack of
indices.  Each of them gives what the forest gives.

## Main definitions

* `TreeView.run`, `TreeForest.run`, `ChildOf`, `TreeWellFormed`

## Main results

* `treeVisibleItems_eq`, `answers_handle`, `tree_view_refines`
-/

namespace TradutorLinux

open List Option Function TreeView Forest

variable {tree : TreeView} {t : TreeForest} {items itm ite : List TreeItem} {a p h : ℕ}

/-! ### One item changes -/

variable {item im : TreeItem}

theorem split_item (holds : TreeHolds tree t) (hit : im ∈ tree.items) :
    ∃ l r, tree.items = l ++ im :: r ∧ treeItemIndex tree.items im.handle = l.length ∧
      (∀ x ∈ l, x.handle ≠ im.handle) ∧ ∀ x ∈ r, x.handle ≠ im.handle := by
  obtain ⟨l, r, hi⟩ := append_of_mem hit
  have hn := holds.handles_nodup
  rw [hi, map_append, map_cons, nodup_middle, nodup_cons, mem_append, not_or] at hn
  have hl : ∀ x ∈ l, x.handle ≠ im.handle := fun x hx heq => hn.1.1 (mem_map.2 ⟨x, hx, heq⟩)
  have hr : ∀ x ∈ r, x.handle ≠ im.handle := fun x hx heq => hn.1.2 (mem_map.2 ⟨x, hx, heq⟩)
  refine ⟨l, r, hi, ?_, hl, hr⟩
  unfold treeItemIndex
  have ho : ¬ List.findIdx (fun x : TreeItem => decide (x.handle = im.handle)) l < l.length := by
    rw [findIdx_lt_length]
    rintro ⟨x, hx, heq⟩
    exact hl x hx (by simpa using heq)
  rw [hi, findIdx_append, if_neg ho, findIdx_cons]
  simp

theorem modify_middle (l r : List TreeItem) (im : TreeItem) (g : TreeItem → TreeItem) :
    (l ++ im :: r).modify l.length g = l ++ g im :: r := by
  induction l with
  | nil => rfl
  | cons x l ih => exact congrArg (x :: ·) ih

theorem holds_modifyItem (holds : TreeHolds tree t) (hit : im ∈ tree.items)
    {g : TreeItem → TreeItem} (hh : (g im).handle = im.handle) (hp : (g im).parent = im.parent) :
    TreeHolds (tree.modifyItem im.handle g)
      { t with info := update t.info im.handle (g im).info } := by
  obtain ⟨l, r, hi, hn, hle, hri⟩ := split_item holds hit
  have hm : (tree.modifyItem im.handle g).items = l ++ g im :: r := by
    show tree.items.modify (treeItemIndex tree.items im.handle) g = _
    rw [hn, hi, modify_middle]
  refine { children := ?_, perm := ?_, info := ?_, nodup := holds.nodup, given := holds.given,
           bounded := holds.bounded, distinct := holds.distinct, next := holds.next,
           few := holds.few, selected := holds.selected }
  · intro q
    have hold := holds.children q
    rw [hi, childHandles_append, childHandles_cons] at hold
    rw [hm, childHandles_append, childHandles_cons, hh, hp]
    exact hold
  · have hold := holds.perm
    rw [hi, map_append, map_cons] at hold
    rw [hm, map_append, map_cons, hh]
    exact hold
  · intro o ho
    rw [hm, mem_append, mem_cons] at ho
    have hk : o ∈ tree.items → o.handle ≠ im.handle →
        update t.info im.handle (g im).info o.handle = o.info := by
      intro he hne
      rw [update_of_ne hne]
      exact holds.info o he
    rcases ho with hl | rfl | hr
    · exact hk (by simp [hi, hl]) (hle o hl)
    · show update t.info im.handle (g im).info (g im).handle = _
      rw [hh, update_self]
    · exact hk (by simp [hi, hr]) (hri o hr)

theorem holds_expandItem (holds : TreeHolds tree t) (ac : ℕ) : Answers (tree.expandItem ac h)
      ((t.expandItem ac h).1, (t.expandItem ac h).2, none) := by
  dsimp only [TreeView.expandItem, TreeForest.expandItem]
  cases hf : treeFindItem tree.items h with
  | none =>
    rw [if_pos (holds.find_eq_none.1 hf)]
    exact ⟨holds, rfl, rfl⟩
  | some im =>
    obtain ⟨hi, rfl⟩ := holds.find_eq_some.1 hf
    have hm : ¬ im.handle ∉ t.forest.preorder :=
      not_not.2 (holds.mem_preorder.2 ⟨im, hi, rfl⟩)
    have hn := holds.info im hi
    have hs : ∀ e : Bool,
        TreeHolds (tree.modifyItem im.handle fun im => { im with expanded := e })
          { t with info := update t.info im.handle { t.info im.handle with expanded := e } } := by
      intro e
      rw [hn]
      exact holds_modifyItem holds hi rfl rfl
    dsimp only
    split
    · exact ⟨hs false, rfl, rfl⟩
    split
    · exact ⟨hs true, rfl, rfl⟩
    split
    · have he : (t.info im.handle).expanded = im.expanded := by
        rw [hn]
        rfl
      rw [he]
      exact ⟨hs _, rfl, rfl⟩
    · exact ⟨holds, rfl, rfl⟩

theorem holds_setItem (holds : TreeHolds tree t) (r : Option TreeItemRequest) :
    Answers (tree.setItem r) ((t.setItem r).1, (t.setItem r).2, none) := by
  cases r with
  | none => exact ⟨holds, rfl, rfl⟩
  | some r =>
    dsimp only [TreeView.setItem, TreeForest.setItem]
    by_cases hm : r.item ∈ t.forest.preorder
    · rw [if_neg fun hn => holds.find_eq_none.1 hn hm]
      by_cases ht : r.mask &&& kTreeItemText ≠ 0 ∧ r.text = none
      · rw [if_pos ht, if_neg (by tauto)]
        exact ⟨holds, rfl, rfl⟩
      have ha : r.item ∈ t.forest.preorder ∧
          (r.mask &&& kTreeItemText ≠ 0 → r.text ≠ none) := ⟨hm, by tauto⟩
      rw [if_neg ht, if_pos ha]
      obtain ⟨im, hi, hh⟩ := holds.mem_preorder.1 hm
      have hin := holds.info im hi
      refine ⟨?_, rfl, rfl⟩
      rw [← hh, hin]
      exact holds_modifyItem holds hi rfl rfl
    · rw [if_pos (holds.find_eq_none.2 hm), if_neg fun h => hm h.1]
      exact ⟨holds, rfl, rfl⟩

theorem holds_selectItem (holds : TreeHolds tree t) :
    Answers (tree.selectItem h) (t.selectItem h) := by
  unfold TreeView.selectItem TreeForest.selectItem
  have hs := holds.selected
  by_cases hm : h = 0 ∨ h ∈ t.forest.preorder
  · have hp : ¬(h ≠ 0 ∧ treeFindItem tree.items h = none) := by
      rw [holds.find_eq_none]
      tauto
    rw [if_neg hp, if_pos hm]
    by_cases hn : tree.selected ≠ h
    · rw [if_pos hn, if_neg (hs ▸ hn)]
      exact ⟨{ holds with selected := rfl }, rfl, by rw [hs]⟩
    · rw [if_neg hn]
      have heq : t.selected = h := hs ▸ not_not.1 hn
      rw [if_pos heq]
      exact ⟨{ holds with selected := not_not.1 hn }, rfl, rfl⟩
  · have ha : h ≠ 0 ∧ treeFindItem tree.items h = none := by
      rw [holds.find_eq_none]
      tauto
    rw [if_pos ha, if_neg hm]
    exact ⟨holds, rfl, rfl⟩

/-! ### The visible items -/

def handleAt (items : List TreeItem) (index : ℕ) : ℕ :=
  (items[index]?.map TreeItem.handle).getD 0

def childIndices (items : List TreeItem) (p : ℕ) : List ℕ :=
  (List.range items.length).filter fun index => (items[index]?.map TreeItem.parent) = some p

theorem pushChildren_eq (ite : List TreeItem) (p : ℕ) (pending : List ℕ) :
    pushChildren ite p pending = childIndices ite p ++ pending := by
  unfold pushChildren childIndices
  induction List.range ite.length with
  | nil => rfl
  | cons i is ih =>
    rw [foldr_cons, ih, filter_cons]
    simp only [decide_eq_true_eq]
    split <;> rfl

theorem map_childIndices (itm : List TreeItem) (p : ℕ) :
    (childIndices itm p).map (handleAt itm) = childHandles itm p := by
  induction itm using List.reverseRecOn with
  | nil => rfl
  | append_singleton itm item ih =>
    have hold : ((List.range itm.length).filter fun i =>
        decide (((itm ++ [item])[i]?.map TreeItem.parent) = some p)) =
        childIndices itm p := by
      apply filter_congr
      intro i hi
      rw [getElem?_append_left (mem_range.1 hi)]
    have hm : (childIndices itm p).map (handleAt (itm ++ [item])) =
        (childIndices itm p).map (handleAt itm) := by
      apply map_congr_left
      intro i hi
      have hl := mem_range.1 (mem_of_mem_filter hi)
      unfold handleAt
      rw [getElem?_append_left hl]
    have hn : (itm ++ [item])[itm.length]? = some item := by simp
    rw [childHandles_append, ← ih, ← hm]
    unfold childIndices at hold ⊢
    rw [length_append, length_singleton, range_succ, filter_append, hold, map_append]
    congr 1
    by_cases hp : item.parent = p
    · simp [hp, handleAt, childHandles]
    · simp [hp, childHandles]

def pendingVisible (items : List TreeItem) (t : TreeForest) (pending : List ℕ) : List ℕ :=
  pending.flatMap fun index =>
    t.forest.visibleFrom (fun a => (t.info a).expanded) (handleAt items index)

theorem pendingVisible_childIndices (ite : List TreeItem) (t : TreeForest) (p : ℕ) :
    pendingVisible ite t (childIndices ite p) = (childHandles ite p).flatMap
      (t.forest.visibleFrom fun a => (t.info a).expanded) := by
  unfold pendingVisible
  rw [← map_childIndices, flatMap_map]

/-- **The loop gives what is visible of the items on the stack**, one item in a round. -/
theorem visibleLoop_eq (holds : TreeHolds tree t) {n : ℕ} {pe r : List ℕ}
    (hp : ∀ i ∈ pe, i < tree.items.length) (hn : (pendingVisible tree.items t pe).length ≤ n) :
    visibleLoop tree.items n pe r =
      some (r ++ pendingVisible tree.items t pe) := by
  induction n generalizing pe r with
  | zero =>
    cases pe with
    | nil => simp [visibleLoop, pendingVisible]
    | cons i pe =>
      unfold pendingVisible visibleFrom at hn
      simp at hn
  | succ n ih =>
    cases pe with
    | nil => simp [visibleLoop, pendingVisible]
    | cons i pe =>
      have hi := hp i mem_cons_self
      have hg : tree.items[i]? = some tree.items[i] := getElem?_eq_getElem hi
      unfold visibleLoop
      rw [hg]
      generalize ht : tree.items[i] = im at hg
      have hm : im ∈ tree.items := ht ▸ getElem_mem hi
      have ha : handleAt tree.items i = im.handle := by
        unfold handleAt
        rw [hg]
        rfl
      have hz : im.handle ≠ 0 := by
        intro heq
        exact holds.zero_notMem (heq ▸ holds.mem_preorder.2 ⟨im, hm, rfl⟩)
      -- what is visible of the item: itself, and its children if it is open
      have hh : pendingVisible tree.items t (i :: pe) =
          im.handle :: pendingVisible tree.items t (if im.expanded then
              pushChildren tree.items im.handle pe else pe) := by
        have hop : (t.info im.handle).expanded = im.expanded := by
          rw [holds.info im hm]
          rfl
        have hk : t.forest.children im.handle = childHandles tree.items im.handle := by
          rw [holds.children, TreeHolds.childrenOf_ne_zero t hz]
        unfold pendingVisible
        rw [flatMap_cons, ha, visibleFrom_eq holds.forest_nodup]
        rw [hop, hk]
        by_cases he : im.expanded
        · rw [if_pos he, if_pos he, pushChildren_eq, flatMap_append, cons_append]
          congr 2
          exact (pendingVisible_childIndices tree.items t im.handle).symm
        · rw [if_neg he, if_neg he]
          rfl
      rw [hh, length_cons] at hn
      dsimp only
      rw [ih ?_ (by omega), hh, append_assoc]
      · rfl
      · intro o ho
        split at ho
        · rw [pushChildren_eq, mem_append] at ho
          rcases ho with hw | hold
          · exact mem_range.1 (mem_of_mem_filter hw)
          · exact hp o (mem_cons_of_mem _ hold)
        · exact hp o (mem_cons_of_mem _ ho)

/-- **The stack gives the visible nodes of the forest, in their order.** -/
theorem treeVisibleItems_eq (holds : TreeHolds tree t) :
    treeVisibleItems tree.items = some t.visible := by
  have hv : pendingVisible tree.items t (childIndices tree.items 0) = t.visible := by
    rw [pendingVisible_childIndices, holds.children, holds.childrenOf_zero]
    exact (visible_eq holds.forest_nodup).symm
  unfold treeVisibleItems
  rw [pushChildren_eq, append_nil, visibleLoop_eq holds, hv]
  · rfl
  · intro i hi
    exact mem_range.1 (mem_of_mem_filter hi)
  · rw [hv, length_items holds]
    exact length_visible_le

/-! ### Relatives -/

/-- **The walk of `TVGN_ROOT` ends at the root of the item**: the items above it become fewer. -/
theorem rootLoop_eq (holds : TreeHolds tree t) {n : ℕ} (hi : im ∈ tree.items)
    (hn : t.forest.depth im.handle < n) :
    ∃ root, rootLoop tree.items n im = some (some root) ∧
      t.forest.rootOf im.handle = some root := by
  induction n generalizing im with
  | zero => exact absurd hn (Nat.not_lt_zero _)
  | succ n ih =>
    have hc := holds.mem_childrenOf hi
    unfold rootLoop
    by_cases hp : im.parent = 0
    · rw [if_pos hp]
      rw [hp, holds.childrenOf_zero] at hc
      exact ⟨im.handle, rfl, rootOf_root holds.forest_nodup hc⟩
    · rw [if_neg hp]
      have hd := depth_parent holds hi hp
      obtain ⟨ab, ha, heq⟩ := holds.mem_preorder.1 ((holds.parent_present hi).resolve_left hp)
      obtain ⟨root, hr, ho⟩ := ih ha (by rw [heq]; omega)
      rw [holds.find_eq_some.2 ⟨ha, heq⟩]
      rw [TreeHolds.childrenOf_ne_zero t hp] at hc
      refine ⟨root, hr, ?_⟩
      rw [rootOf_child holds.forest_nodup hc, ← heq]
      exact ho

theorem found_find (ite : List TreeItem) (p : ℕ) :
    (TreeView.found (ite.find? fun im => im.parent = p)).result =
      (childHandles ite p).head?.getD 0 := by
  unfold childHandles
  rw [head?_map, head?_filter]
  cases ite.find? _ <;> rfl

theorem idxOf?_middle {l r : List ℕ} (hl : a ∉ l) : (l ++ a :: r).idxOf? a = some l.length := by
  induction l with
  | nil => simp [idxOf?_cons]
  | cons b l ih =>
    rw [mem_cons, not_or] at hl
    rw [cons_append, idxOf?_cons, ih hl.2]
    simp [Ne.symm hl.1]

theorem nextIn_middle {l r : List ℕ} (hl : a ∉ l) : nextIn a (l ++ a :: r) = r.head? := by
  unfold nextIn
  rw [idxOf?_middle hl, bind_some, getElem?_append_right (by omega), Nat.add_sub_cancel_left]
  cases r <;> rfl

theorem previousIn_middle {l r : List ℕ} (hl : a ∉ l) :
    previousIn a (l ++ a :: r) = l.getLast? := by
  unfold previousIn
  rw [idxOf?_middle hl, bind_some, getLast?_eq_getElem?]
  by_cases hn : l.length = 0
  · rw [if_pos hn, length_eq_zero_iff.1 hn]
    rfl
  · rw [if_neg hn, getElem?_append_left (by omega)]

theorem siblings_split (holds : TreeHolds tree t) {l r : List TreeItem}
    (hi : tree.items = l ++ im :: r) (hl : ∀ x ∈ l, x.handle ≠ im.handle) :
    t.childrenOf im.parent = childHandles l im.parent ++ im.handle :: childHandles r im.parent ∧
      im.handle ∉ childHandles l im.parent := by
  constructor
  · rw [← holds.children, hi, childHandles_append, childHandles_cons, if_pos rfl]
    rfl
  · intro hm
    obtain ⟨x, hx, -, heq⟩ := mem_childHandles.1 hm
    exact hl x hx heq

theorem parent?_eq_none (hh : h ∉ t.forest.preorder) : t.rooted.parent? h = none := by
  show (if h ∈ t.forest.roots then _ else (t.forest.parent? h).or none) = none
  rw [if_neg fun hr => hh (roots_subset hr), Forest.parent?_of_notMem hh]
  rfl

theorem parent?_eq (holds : TreeHolds tree t) (hi : im ∈ tree.items) :
    t.rooted.parent? im.handle = some im.parent :=
  Forest.parent?_child holds.nodup (holds.mem_childrenOf hi)

/-- **The searches give the relatives that the forest gives.** -/
theorem nextItem_eq (holds : TreeHolds tree t) (relation h : ℕ) :
    ∃ ans, tree.nextItem relation h = some ans ∧
      ans.result = t.nextItem relation h ∧ ans.notified = none := by
  have ho : ∀ im : Option TreeItem, (TreeView.found im).notified = none := by
    intro im
    cases im <;> rfl
  dsimp only [TreeView.nextItem, TreeForest.nextItem]
  by_cases hc : relation = kTreeGetCaret
  · rw [if_pos hc, if_pos hc]
    exact ⟨_, rfl, holds.selected, rfl⟩
  rw [if_neg hc, if_neg hc]
  by_cases hr : relation = kTreeGetRoot
  · rw [if_pos hr, if_pos hr]
    by_cases hz : h = 0
    · rw [if_pos hz, if_pos hz]
      refine ⟨_, rfl, ?_, ho _⟩
      rw [found_find, holds.children, holds.childrenOf_zero]
    rw [if_neg hz, if_neg hz]
    cases hf : treeFindItem tree.items h with
    | none =>
      rw [rootOf_of_notMem (holds.find_eq_none.1 hf)]
      exact ⟨_, rfl, rfl, rfl⟩
    | some im =>
      obtain ⟨hit, rfl⟩ := holds.find_eq_some.1 hf
      have hd := depth_lt (holds.mem_preorder.2 ⟨im, hit, rfl⟩)
      rw [← length_items holds] at hd
      obtain ⟨ro, hl, hro⟩ := rootLoop_eq holds hit hd
      dsimp only
      rw [hl, hro]
      exact ⟨_, rfl, rfl, rfl⟩
  rw [if_neg hr, if_neg hr]
  by_cases hk : relation = kTreeGetChild
  · rw [if_pos hk, if_pos hk]
    by_cases ha : h ≠ 0 ∧ treeFindItem tree.items h = none
    · rw [if_pos ha, TreeHolds.childrenOf_ne_zero t ha.1,
        children_of_notMem (holds.find_eq_none.1 ha.2)]
      exact ⟨_, rfl, rfl, rfl⟩
    · rw [if_neg ha, ← holds.children]
      exact ⟨_, rfl, found_find _ _, ho _⟩
  rw [if_neg hk, if_neg hk]
  by_cases hp : relation = kTreeGetParent
  · rw [if_pos hp, if_pos hp]
    cases hf : treeFindItem tree.items h with
    | none =>
      rw [parent?_eq_none (holds.find_eq_none.1 hf)]
      exact ⟨_, rfl, rfl, rfl⟩
    | some im =>
      obtain ⟨hit, rfl⟩ := holds.find_eq_some.1 hf
      rw [parent?_eq holds hit]
      exact ⟨_, rfl, rfl, rfl⟩
  rw [if_neg hp, if_neg hp]
  by_cases hv : relation = kTreeGetNextVisible
  · rw [if_pos (.inl hv), if_pos hv, treeVisibleItems_eq holds, map_some]
    refine ⟨_, rfl, ?_⟩
    unfold nextIn
    cases t.visible.idxOf? h with
    | none => exact ⟨rfl, rfl⟩
    | some i =>
      dsimp only [bind_some]
      rw [if_pos hv]
      cases t.visible[i + 1]? <;> exact ⟨rfl, rfl⟩
  by_cases hpv : relation = kTreeGetPreviousVisible
  · rw [if_pos (.inr hpv), if_neg hv, if_pos hpv, treeVisibleItems_eq holds, map_some]
    refine ⟨_, rfl, ?_⟩
    unfold previousIn
    cases t.visible.idxOf? h with
    | none => exact ⟨rfl, rfl⟩
    | some i =>
      dsimp only [bind_some]
      rw [if_neg hv]
      by_cases hi : i = 0
      · rw [if_pos hi, if_pos hi]
        exact ⟨rfl, rfl⟩
      · rw [if_neg hi, if_neg hi]
        cases t.visible[i - 1]? <;> exact ⟨rfl, rfl⟩
  rw [if_neg (by tauto), if_neg hv, if_neg hpv]
  cases hf : treeFindItem tree.items h with
  | none =>
    rw [parent?_eq_none (holds.find_eq_none.1 hf)]
    refine ⟨_, rfl, ?_, rfl⟩
    simp only [bind_none, getD_none, ite_self]
    rfl
  | some im =>
    obtain ⟨hit, rfl⟩ := holds.find_eq_some.1 hf
    obtain ⟨l, r, hie, hi, hle, -⟩ := split_item holds hit
    obtain ⟨hs, hfi⟩ := siblings_split holds hie hle
    rw [parent?_eq holds hit, bind_some, bind_some, hs,
      nextIn_middle hfi, previousIn_middle hfi, hi, hie]
    dsimp only
    by_cases hn : relation = kTreeGetNext
    · have hdr : (l ++ im :: r).drop (l.length + 1) = r := by simp
      rw [if_neg (by tauto), if_pos hn, if_pos hn, hdr]
      unfold childHandles
      rw [head?_map, head?_filter]
      cases r.find? _ <;> exact ⟨_, rfl, rfl, rfl⟩
    by_cases he : relation = kTreeGetPrevious
    · have ht : (l ++ im :: r).take l.length = l := by simp
      rw [if_neg (by tauto), if_neg hn, if_neg hn, if_pos he, ht]
      unfold childHandles
      rw [getLast?_map, ← head?_reverse, ← filter_reverse, head?_filter]
      cases l.reverse.find? _ <;> exact ⟨_, rfl, rfl, rfl⟩
    · rw [if_pos ⟨hn, he⟩, if_neg hn, if_neg he]
      exact ⟨_, rfl, rfl, rfl⟩

/-! ### Runs -/

/-- The messages one after the other, each by the entry point for one kind of text, with what
they answer and tell the parent window. -/
def TreeView.run (tree : TreeView) :
    List (Bool × TreeMessage) → Option (TreeView × List (ℕ × Option (ℕ × ℕ)))
  | [] => some (tree, [])
  | (wide, message) :: messages => do
    let (tree, answer) ← tree.handle wide message
    let (tree, answers) ← TreeView.run tree messages
    pure (tree, (answer.result, answer.notified) :: answers)

/-- What the messages are to do. -/
def TreeForest.run (t : TreeForest) :
    List (Bool × TreeMessage) → TreeForest × List (ℕ × Option (ℕ × ℕ))
  | [] => (t, [])
  | (wide, message) :: messages =>
    let (t, answer) := t.handle wide message
    let (t, answers) := TreeForest.run t messages
    (t, answer :: answers)

/-- The handles that the insertions of a run have given. -/
def insertedHandles : List (Bool × TreeMessage) → List (ℕ × Option (ℕ × ℕ)) → List ℕ
  | (_, .insertItem _ _) :: messages, (handle, _) :: answers =>
    (if handle = 0 then [] else [handle]) ++ insertedHandles messages answers
  | _ :: messages, _ :: answers => insertedHandles messages answers
  | _, _ => []

/-- One item names another as its parent. -/
def ChildOf (items : List TreeItem) (h p : ℕ) : Prop :=
  ∃ item ∈ items, item.handle = h ∧ item.parent = p

/-- Handles are unique, parents are present, and no item is above itself. -/
structure TreeWellFormed (tree : TreeView) : Prop where
  unique : (tree.items.map TreeItem.handle).Nodup
  present : ∀ item ∈ tree.items, item.parent = 0 ∨ ∃ above ∈ tree.items, above.handle = item.parent
  acyclic : ∀ h, ¬ Relation.TransGen (ChildOf tree.items) h h

/-- The item `a` has gone with all that are below it, and with the selection if that is below. -/
structure Deleted (a : ℕ) (tree tree' : TreeView) : Prop where
  items : ∀ item, item ∈ tree'.items ↔
    item ∈ tree.items ∧ ¬ Relation.ReflTransGen (ChildOf tree.items) item.handle a
  order : tree'.items.Sublist tree.items
  cleared : Relation.ReflTransGen (ChildOf tree.items) tree.selected a → tree'.selected = 0
  kept : ¬ Relation.ReflTransGen (ChildOf tree.items) tree.selected a →
    tree'.selected = tree.selected

section

variable (holds : TreeHolds tree t)
include holds

theorem not_childOf_zero : ¬ ChildOf tree.items 0 p := by
  rintro ⟨im, hi, heq, -⟩
  exact holds.zero_notMem (heq ▸ holds.mem_preorder.2 ⟨im, hi, rfl⟩)

theorem rank_lt (hc : ChildOf tree.items h p) :
    (if p = 0 then 0 else t.forest.depth p + 1) < if h = 0 then 0 else t.forest.depth h + 1 := by
  have hz : h ≠ 0 := by
    rintro rfl
    exact not_childOf_zero holds hc
  obtain ⟨im, hi, rfl, rfl⟩ := hc
  split
  · exact Nat.succ_pos _
  · next hp =>
    rw [depth_parent holds hi hp]
    exact Nat.lt_succ_self _

theorem wellFormed_of_holds : TreeWellFormed tree where
  unique := holds.handles_nodup
  present im hitem := (holds.parent_present hitem).imp_right holds.mem_preorder.1
  acyclic := by
    have hr : ∀ h p, Relation.TransGen (ChildOf tree.items) h p →
        (if p = 0 then 0 else t.forest.depth p + 1) <
          if h = 0 then 0 else t.forest.depth h + 1 := by
      intro h p ha
      induction ha with
      | single hc => exact rank_lt holds hc
      | tail _ hc ih => exact Nat.lt_trans (rank_lt holds hc) ih
    intro h hs
    exact absurd (hr h h hs) (Nat.lt_irrefl _)

/-- **The nodes below an item are those from which the parents lead to it.** -/
theorem mem_subtree_iff_reflTransGen (ha : a ∈ t.forest.preorder) :
    h ∈ t.forest.subtree a ↔ Relation.ReflTransGen (ChildOf tree.items) h a := by
  constructor
  · intro hm
    induction hd : t.forest.depth h using Nat.strongRecOn generalizing h with
    | _ d ih =>
      obtain ⟨im, hi, rfl⟩ := holds.mem_preorder.1 (subtree_subset hm)
      rcases (mem_subtree_iff holds hi a).1 hm with heq | hr
      · rw [heq]
      have hp : im.parent ≠ 0 := by
        intro hz
        exact holds.zero_notMem (hz ▸ subtree_subset hr)
      have he := depth_parent holds hi hp
      exact (ih _ (by omega) hr rfl).head ⟨im, hi, rfl, rfl⟩
  · intro hb
    induction hb using Relation.ReflTransGen.head_induction_on with
    | refl => exact mem_subtree_self ha
    | head hc _ ih =>
      obtain ⟨im, hi, rfl, rfl⟩ := hc
      exact (mem_subtree_iff holds hi a).2 (.inr ih)

theorem deleted_deleteItem (hz : a ≠ 0) (ha : a ∈ t.forest.preorder) :
    Deleted a tree (tree.deleteItem a).1 := by
  have hd : ∀ x, x ∈ deletedHandles tree.items a ↔
      Relation.ReflTransGen (ChildOf tree.items) x a := fun x =>
    (mem_deletedHandles holds ha).trans (mem_subtree_iff_reflTransGen holds ha)
  unfold TreeView.deleteItem
  rw [if_neg hz, if_neg fun hn => holds.find_eq_none.1 hn ha]
  refine ⟨?_, filter_sublist, ?_, ?_⟩
  · intro im
    simp [mem_filter, hd]
  · intro hb
    exact if_pos ((hd _).2 hb)
  · intro hb
    exact if_neg fun hm => hb ((hd _).1 hm)

/-- **A message does to the vector what it is to do to the forest.** -/
theorem answers_handle (w : Bool) (m : TreeMessage) :
    ∃ c, tree.handle w m = some c ∧ Answers c (t.handle w m) := by
  cases m with
  | insertItem u re =>
    refine ⟨_, rfl, ?_⟩
    dsimp only [TreeForest.handle]
    split
    · exact holds_insertItem holds re
    · exact ⟨holds, rfl, rfl⟩
  | deleteItem l => exact ⟨_, rfl, holds_deleteItem holds l⟩
  | expand ac l => exact ⟨_, rfl, holds_expandItem holds ac⟩
  | getCount => exact ⟨_, rfl, holds, length_items holds, rfl⟩
  | getNextItem r l =>
    obtain ⟨ans, ha, hr, hnot⟩ := nextItem_eq holds r l
    refine ⟨(tree, ans), ?_, holds, hr, hnot⟩
    show (tree.nextItem r l).map _ = _
    rw [ha]
    rfl
  | selectItem l => exact ⟨_, rfl, holds_selectItem holds⟩
  | setItem u re =>
    refine ⟨_, rfl, ?_⟩
    dsimp only [TreeForest.handle]
    split
    · exact holds_setItem holds re
    · exact ⟨holds, rfl, rfl⟩

theorem run_eq (ms : List (Bool × TreeMessage)) :
    ∃ t', tree.run ms = some (t', (t.run ms).2) ∧ TreeHolds t' (t.run ms).1 := by
  induction ms generalizing tree t with
  | nil => exact ⟨tree, rfl, holds⟩
  | cons head ms ih =>
    obtain ⟨w, m⟩ := head
    obtain ⟨⟨t₁, ans⟩, hha, ha⟩ := answers_handle holds w m
    obtain ⟨t', hr, hh⟩ := ih ha.holds
    refine ⟨t', ?_, hh⟩
    have hn : (ans.result, ans.notified) = (t.handle w m).2 :=
      Prod.ext ha.result ha.notified
    unfold TreeView.run
    rw [hha]
    dsimp only [bind_eq_bind, bind_some]
    rw [hr, hn]
    rfl

end

theorem given_handle (t : TreeForest) (w : Bool) (m : TreeMessage)
    (ms : List (Bool × TreeMessage)) (ans : List (ℕ × Option (ℕ × ℕ))) :
    ((t.handle w m).1.given.reverse ++ insertedHandles ms ans) =
      t.given.reverse ++ insertedHandles ((w, m) :: ms) ((t.handle w m).2 :: ans) := by
  cases m with
  | insertItem u re =>
    show _ = t.given.reverse ++ ((if (t.handle w (.insertItem u re)).2.1 = 0 then []
        else [(t.handle w (.insertItem u re)).2.1]) ++
        insertedHandles ms ans)
    dsimp only [TreeForest.handle]
    split
    · cases re with
      | none => simp [TreeForest.insertItem]
      | some re =>
        dsimp only [TreeForest.insertItem]
        split <;> simp
    · simp
  | deleteItem l =>
    have hg : (t.deleteItem l).1.given = t.given := by
      unfold TreeForest.deleteItem
      split_ifs <;> rfl
    show (t.deleteItem l).1.given.reverse ++ _ = _
    rw [hg]
    rfl
  | expand ac l =>
    have hg : (t.expandItem ac l).1.given = t.given := by
      dsimp only [TreeForest.expandItem]
      split_ifs <;> rfl
    show (t.expandItem ac l).1.given.reverse ++ _ = _
    rw [hg]
    rfl
  | getCount => rfl
  | getNextItem r l => rfl
  | selectItem l =>
    have hg : (t.selectItem l).1.given = t.given := by
      unfold TreeForest.selectItem
      split_ifs <;> rfl
    show (t.selectItem l).1.given.reverse ++ _ = _
    rw [hg]
    rfl
  | setItem u re =>
    have hg : (t.setItem re).1.given = t.given := by
      cases re with
      | none => rfl
      | some re =>
        dsimp only [TreeForest.setItem]
        split_ifs <;> rfl
    dsimp only [TreeForest.handle]
    split
    · rw [hg]
      rfl
    · rfl

theorem given_run (t : TreeForest) (ms : List (Bool × TreeMessage)) :
    (t.run ms).1.given.reverse = t.given.reverse ++ insertedHandles ms (t.run ms).2 := by
  induction ms generalizing t with
  | nil => simp [TreeForest.run, insertedHandles]
  | cons head ms ih =>
    obtain ⟨w, m⟩ := head
    show ((t.handle w m).1.run ms).1.given.reverse = _
    rw [ih, given_handle]
    rfl

/-- **The tree view is an ordered forest**: every run of messages answers what the forest answers,
ends with a vector that holds the forest, and gives no handle twice; what a deletion then takes is
what is below the item. -/
theorem tree_view_refines (messages : List (Bool × TreeMessage)) :
    ∃ tree, TreeView.run {} messages = some (tree, (TreeForest.run {} messages).2) ∧
      TreeHolds tree (TreeForest.run {} messages).1 ∧
      TreeWellFormed tree ∧
      (insertedHandles messages (TreeForest.run {} messages).2).Nodup ∧
      ∀ a ∈ tree.items.map TreeItem.handle, Deleted a tree (tree.deleteItem a).1 := by
  obtain ⟨tree, hr, hh⟩ := run_eq holds_new messages
  refine ⟨tree, hr, hh, wellFormed_of_holds hh, ?_, ?_⟩
  · have hg := given_run {} messages
    rw [reverse_nil, nil_append] at hg
    rw [← hg, nodup_reverse]
    exact hh.distinct
  · intro a ha
    have hm : a ∈ (TreeForest.run {} messages).1.forest.preorder := hh.perm.mem_iff.mp ha
    have hz : a ≠ 0 := by
      rintro rfl
      exact hh.zero_notMem hm
    exact deleted_deleteItem hh hz hm

end TradutorLinux
