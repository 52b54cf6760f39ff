import Mathlib.Data.List.Induction
import TradutorLinux.Gui.TreeView
import TradutorLinux.Util.Forests

/-!
# The tree view is a forest

The vector of a tree view holds an ordered forest: the items with one parent,
in the order of the vector, are the children of the parent.  Every message does
to the vector what it is to do to the forest.

## Main definitions

* `TreeForest`
* `TreeForest.handle` — what the messages are to do.
* `TreeHolds`

## Main results

* `treeInsertPosition_split`, `mem_deletedHandles`
* `holds_insertItem`, `holds_deleteItem` — **the two do to the vector what they do to
  the forest.**
-/

namespace TradutorLinux

open List Function Forest TreeView

/-! ### The forest of a tree view -/

/-- What an item says. -/
structure TreeInfo where
  itemData : ℕ := 0
  text : TreeText := []
  expanded : Bool := false

/-- The forest, what its items say, the selection (0 for none), and the handles that were ever
given, the last one first. -/
structure TreeForest where
  forest : Forest ℕ := .nil
  info : ℕ → TreeInfo := fun _ => {}
  selected : ℕ := 0
  given : List ℕ := []

/-- The element behind another. -/
def nextIn (a : ℕ) (l : List ℕ) : Option ℕ := (l.idxOf? a).bind fun i => l[i + 1]?

/-- The element before another. -/
def previousIn (a : ℕ) (l : List ℕ) : Option ℕ :=
  (l.idxOf? a).bind fun i => if i = 0 then none else l[i - 1]?

namespace TreeForest

variable (t : TreeForest)

/-- The forest as one tree, below 0. -/
def rooted : Forest ℕ := .node 0 t.forest .nil

def childrenOf (p : ℕ) : List ℕ := t.rooted.children p

def visible : List ℕ := t.forest.visible fun a => (t.info a).expanded

/-- Below which item a request wants its item: 0, and the handles that name a place and no item,
mean that it is to be a root. -/
def parentOf (rawParent : ℕ) : ℕ :=
  if rawParent = kTreeRootHandle ∨ rawParent = kTreeFirstHandle ∨ rawParent = kTreeLastHandle ∨
    rawParent = kTreeSortHandle then 0 else rawParent

/-- Where among its siblings a request wants its item. -/
def placement (insertAfter : ℕ) : Placement ℕ :=
  if insertAfter = kTreeFirstHandle then .first
  else if insertAfter = 0 ∨ insertAfter = kTreeLastHandle ∨ insertAfter = kTreeSortHandle then .last
  else .after insertAfter

/-- The forest with a new item. -/
def grow (parent : ℕ) (place : Placement ℕ) (h : ℕ) : Forest ℕ :=
  if parent = 0 then t.forest.put place h else t.forest.insertUnder parent place h

/-- A new item gets the next number as its handle. -/
def insertItem (request : Option TreeInsertRequest) : TreeForest × ℕ :=
  match request with
  | none => (t, 0)
  | some request =>
    let parent := parentOf request.rawParent
    let handle := t.given.length + 1
    if t.forest.preorder.length < kTreeItemLimit ∧
        (parent = 0 ∨ parent ∈ t.forest.preorder) ∧
        Among (placement request.insertAfter) (t.childrenOf parent) ∧
        (request.mask &&& kTreeItemText ≠ 0 → request.text ≠ none) ∧ handle ≤ kIntMax then
      ({ t with
          forest := t.grow parent (placement request.insertAfter) handle
          info := update t.info handle
            { itemData := if request.mask &&& kTreeItemParam ≠ 0 then request.param else 0
              text := if request.mask &&& kTreeItemText ≠ 0 then request.text.getD [] else [] }
          given := handle :: t.given }, handle)
    else (t, 0)

/-- An item goes with all that is below it, and the selection if it is there. -/
def deleteItem (handle : ℕ) : TreeForest × ℕ :=
  if handle = 0 then ({ t with forest := .nil, selected := 0 }, 1)
  else if handle ∈ t.forest.preorder then
    ({ t with
        forest := t.forest.delete handle
        selected := if t.selected ∈ t.forest.subtree handle then 0 else t.selected }, 1)
  else (t, 0)

def expandItem (action handle : ℕ) : TreeForest × ℕ :=
  let operation := action % 2 ^ 32 % 2 ^ 16
  let set := fun expanded =>
    { t with info := update t.info handle { t.info handle with expanded := expanded } }
  if handle ∉ t.forest.preorder then (t, 0)
  else if operation = kTreeCollapse ∨ operation = kTreeCollapseReset then (set false, 1)
  else if operation = kTreeExpandAction then (set true, 1)
  else if operation = kTreeToggle then (set (!(t.info handle).expanded), 1)
  else (t, 0)

/-- The relatives of an item; 0 if there are none. -/
def nextItem (relation handle : ℕ) : ℕ :=
  if relation = kTreeGetCaret then t.selected
  else if relation = kTreeGetRoot then
    (if handle = 0 then t.forest.roots.head? else t.forest.rootOf handle).getD 0
  else if relation = kTreeGetChild then (t.childrenOf handle).head?.getD 0
  else if relation = kTreeGetParent then (t.rooted.parent? handle).getD 0
  else if relation = kTreeGetNextVisible then (nextIn handle t.visible).getD 0
  else if relation = kTreeGetPreviousVisible then (previousIn handle t.visible).getD 0
  else if relation = kTreeGetNext then
    ((t.rooted.parent? handle).bind fun p => nextIn handle (t.childrenOf p)).getD 0
  else if relation = kTreeGetPrevious then
    ((t.rooted.parent? handle).bind fun p => previousIn handle (t.childrenOf p)).getD 0
  else 0

/-- The answer tells the old and the new selection if they differ. -/
def selectItem (handle : ℕ) : TreeForest × ℕ × Option (ℕ × ℕ) :=
  if handle = 0 ∨ handle ∈ t.forest.preorder then
    ({ t with selected := handle }, 1,
      if t.selected = handle then none else some (t.selected, handle))
  else (t, 0, none)

def setItem (request : Option TreeItemRequest) : TreeForest × ℕ :=
  match request with
  | none => (t, 0)
  | some request =>
    if request.item ∈ t.forest.preorder ∧
        (request.mask &&& kTreeItemText ≠ 0 → request.text ≠ none) then
      let old := t.info request.item
      ({ t with info := update t.info request.item { old with
          text := if request.mask &&& kTreeItemText ≠ 0 then request.text.getD [] else old.text
          itemData := if request.mask &&& kTreeItemParam ≠ 0 then request.param
            else old.itemData } }, 1)
    else (t, 0)

/-- A message on the forest: its result, and what the parent window is told. -/
def handle (wide : Bool) : TreeMessage → TreeForest × ℕ × Option (ℕ × ℕ)
  | .insertItem unicode request =>
    if unicode = wide then ((t.insertItem request).1, (t.insertItem request).2, none)
    else (t, 0, none)
  | .deleteItem lparam => ((t.deleteItem lparam).1, (t.deleteItem lparam).2, none)
  | .expand action lparam => ((t.expandItem action lparam).1, (t.expandItem action lparam).2, none)
  | .getCount => (t, t.forest.preorder.length, none)
  | .getNextItem relation lparam => (t, t.nextItem relation lparam, none)
  | .selectItem lparam => t.selectItem lparam
  | .setItem unicode request =>
    if unicode = wide then ((t.setItem request).1, (t.setItem request).2, none)
    else (t, 0, none)

end TreeForest

/-! ### The vector and the forest -/

/-- The handles of the items with a parent, in the order of the vector. -/
def childHandles (items : List TreeItem) (p : ℕ) : List ℕ :=
  (items.filter fun item => item.parent = p).map TreeItem.handle

/-- What an item of the vector says. -/
def TreeItem.info (item : TreeItem) : TreeInfo := ⟨item.itemData, item.text, item.expanded⟩

/-- The vector holds the forest. -/
structure TreeHolds (tree : TreeView) (t : TreeForest) : Prop where
  children : ∀ p, childHandles tree.items p = t.childrenOf p
  perm : (tree.items.map TreeItem.handle).Perm t.forest.preorder
  info : ∀ item ∈ tree.items, t.info item.handle = item.info
  nodup : t.rooted.preorder.Nodup
  given : ∀ h ∈ t.forest.preorder, h ∈ t.given
  bounded : ∀ h ∈ t.given, 0 < h ∧ h ≤ t.given.length
  distinct : t.given.Nodup
  next : tree.nextHandle = t.given.length + 1
  few : t.given.length ≤ kIntMax
  selected : tree.selected = t.selected

variable {tree tree' : TreeView} {t t' : TreeForest} {items ite : List TreeItem} {p q h c : ℕ}

theorem childHandles_append (l r : List TreeItem) (p : ℕ) :
    childHandles (l ++ r) p = childHandles l p ++ childHandles r p := by
  simp [childHandles]

theorem childHandles_cons (im : TreeItem) (l : List TreeItem) (p : ℕ) : childHandles (im :: l) p =
      (if im.parent = p then [im.handle] else []) ++ childHandles l p := by
  unfold childHandles
  by_cases hp : im.parent = p <;> simp [hp]

theorem mem_childHandles : h ∈ childHandles ite p ↔ ∃ im ∈ ite, im.parent = p ∧ im.handle = h := by
  simp [childHandles, and_assoc]

theorem childHandles_eq_nil : childHandles ite p = [] ↔ ∀ im ∈ ite, im.parent ≠ p := by
  simp [childHandles, filter_eq_nil_iff]

theorem insertIdx_length (l r : List TreeItem) (x : TreeItem) :
    (l ++ r).insertIdx l.length x = l ++ x :: r := by
  induction l with
  | nil => rfl
  | cons y l ih => simpa using ih

/-! ### Where an item is inserted -/

/-- What the loop of `tree_insert_position` knows of the items it has seen. -/
structure Scanned (size p c : ℕ) (seen : List TreeItem) (scan : SiblingScan) : Prop where
  first : (scan.firstSibling = size ∧ childHandles seen p = []) ∨
    ∃ l y r, seen = l ++ y :: r ∧ y.parent = p ∧ childHandles l p = [] ∧
      scan.firstSibling = l.length
  last : (scan.lastSibling = size ∧ childHandles seen p = []) ∨
    ∃ l y r, seen = l ++ y :: r ∧ y.parent = p ∧ childHandles r p = [] ∧
      scan.lastSibling = l.length
  parent : scan.parentIndex = size ∨ scan.parentIndex < seen.length
  after : (scan.afterIndex = size ∧ c ∉ childHandles seen p) ∨
    ∃ l y r, seen = l ++ y :: r ∧ y.parent = p ∧ y.handle = c ∧ scan.afterIndex = l.length

theorem scanned_siblingScan (ite : List TreeItem) (p c : ℕ) :
    Scanned ite.length p c ite (siblingScan ite p c) := by
  have hsc : ∀ s : List TreeItem, s.length ≤ ite.length →
      Scanned ite.length p c s (s.zipIdx.foldl (siblingStep ite.length p c)
        ⟨ite.length, ite.length, ite.length, ite.length⟩) := by
    intro s
    induction s using List.reverseRecOn with
    | nil =>
      intro _
      exact ⟨.inl ⟨rfl, rfl⟩, .inl ⟨rfl, rfl⟩, .inl rfl, .inl ⟨rfl, by simp [childHandles]⟩⟩
    | append_singleton s y ih =>
      intro hle
      rw [length_append, length_singleton] at hle
      have hs := ih (by omega)
      rw [zipIdx_append, foldl_append]
      generalize s.zipIdx.foldl (siblingStep ite.length p c)
        ⟨ite.length, ite.length, ite.length, ite.length⟩ = scan at hs
      have hi : (if y.handle = p then { scan with parentIndex := s.length } else
          scan).parentIndex = ite.length ∨ (if y.handle = p then
            { scan with parentIndex := s.length } else scan).parentIndex < (s ++ [y]).length := by
        rw [length_append, length_singleton]
        split
        · exact .inr (Nat.lt_succ_self _)
        · rcases hs.parent with heq | ht
          · exact .inl heq
          · exact .inr (by omega)
      have hk : ∀ {l r : List TreeItem} {x : TreeItem}, s = l ++ x :: r →
          s ++ [y] = l ++ x :: (r ++ [y]) := by
        intro l r x heq
        rw [heq, append_assoc, cons_append]
      simp only [Nat.zero_add, zipIdx_singleton, foldl_cons, foldl_nil, siblingStep]
      by_cases hp : y.parent = p
      · rw [if_neg (not_not.2 hp)]
        refine ⟨.inr ?_, .inr ⟨s, y, [], rfl, hp, rfl, rfl⟩, hi, ?_⟩
        · have ha : (if y.handle = p then { scan with parentIndex := s.length } else
              scan).firstSibling = scan.firstSibling := by split <;> rfl
          rw [ha]
          rcases hs.first with ⟨heq, hn⟩ | ⟨l, x, r, hl, hx, hn, heq⟩
          · exact ⟨s, y, [], rfl, hp, hn, if_pos heq⟩
          have ht : l.length ≠ ite.length := by
            have he := congrArg List.length hl
            rw [length_append, length_cons] at he
            omega
          exact ⟨l, x, _, hk hl, hx, hn, (if_neg (heq ▸ ht)).trans heq⟩
        · have ha : (if y.handle = p then { scan with parentIndex := s.length } else
              scan).afterIndex = scan.afterIndex := by split <;> rfl
          dsimp only
          rw [ha]
          split
          · next hc => exact .inr ⟨s, y, [], rfl, hp, hc, rfl⟩
          next hc =>
          rcases hs.after with ⟨heq, hn⟩ | ⟨l, x, r, hl, hx, hxc, heq⟩
          · refine .inl ⟨heq, ?_⟩
            rw [childHandles_append, childHandles_cons, if_pos hp]
            simp [childHandles] at hn ⊢
            exact ⟨hn, Ne.symm hc⟩
          · exact .inr ⟨l, x, _, hk hl, hx, hxc, heq⟩
      · rw [if_pos hp]
        have hla : childHandles (s ++ [y]) p = childHandles s p := by
          rw [childHandles_append, childHandles_cons, if_neg hp]
          simp [childHandles]
        have hb : ∀ r : List TreeItem, childHandles (r ++ [y]) p = childHandles r p := by
          intro r
          rw [childHandles_append, childHandles_cons, if_neg hp]
          simp [childHandles]
        generalize hs' : (if y.handle = p then { scan with parentIndex := s.length } else
          scan) = scan' at hi ⊢
        have ha : scan'.firstSibling = scan.firstSibling ∧
            scan'.lastSibling = scan.lastSibling ∧ scan'.afterIndex = scan.afterIndex := by
          rw [← hs']
          split <;> exact ⟨rfl, rfl, rfl⟩
        refine ⟨?_, ?_, hi, ?_⟩
        · rw [ha.1, hla]
          rcases hs.first with hn | ⟨l, x, r, hl, hx, hn, heq⟩
          · exact .inl hn
          · exact .inr ⟨l, x, _, hk hl, hx, hn, heq⟩
        · rw [ha.2.1, hla]
          rcases hs.last with hn | ⟨l, x, r, hl, hx, hn, heq⟩
          · exact .inl hn
          · exact .inr ⟨l, x, _, hk hl, hx, (hb r).trans hn, heq⟩
        · rw [ha.2.2, hla]
          rcases hs.after with hn | ⟨l, x, r, hl, hx, hxc, heq⟩
          · exact .inl hn
          · exact .inr ⟨l, x, _, hk hl, hx, hxc, heq⟩
  exact hsc ite (Nat.le_refl _)

theorem behind_split (ite : List TreeItem) (p c : ℕ) : ∃ l r, ite = l ++ r ∧ childHandles r p = [] ∧
      (if (siblingScan ite p c).lastSibling ≠ ite.length then
        (siblingScan ite p c).lastSibling + 1
      else if p ≠ 0 ∧ (siblingScan ite p c).parentIndex ≠ ite.length then
        (siblingScan ite p c).parentIndex + 1
      else ite.length) = l.length := by
  have hs := scanned_siblingScan ite p c
  rcases hs.last with ⟨hl, ho⟩ | ⟨l, y, r, hi, -, ho, hl⟩
  · rw [if_neg (not_not.2 hl)]
    -- without siblings every place is right
    have hp : ∀ n ≤ ite.length, ∃ l r, ite = l ++ r ∧ childHandles r p = [] ∧ n = l.length := by
      intro n hn
      refine ⟨ite.take n, ite.drop n, (take_append_drop n ite).symm, ?_, ?_⟩
      · rw [childHandles_eq_nil] at ho ⊢
        intro im ht
        exact ho im (mem_of_mem_drop ht)
      · rw [length_take, Nat.min_eq_left hn]
    apply hp
    rcases hs.parent with ha | ha
    · exact Nat.le_of_eq (if_neg fun h => h.2 ha)
    · split
      · omega
      · exact Nat.le_refl _
  · have he := congrArg List.length hi
    rw [length_append, length_cons] at he
    rw [if_pos (by omega), hl]
    refine ⟨l ++ [y], r, ?_, ho, ?_⟩
    · rw [hi, append_assoc]
      rfl
    · rw [length_append, length_singleton]

theorem treeParentHandle_eq (raw : ℕ) : treeParentHandle raw = TreeForest.parentOf raw := by
  have hs : treeIsSpecialHandle raw = true ↔ raw = kTreeRootHandle ∨ raw = kTreeFirstHandle ∨
      raw = kTreeLastHandle ∨ raw = kTreeSortHandle := by
    unfold treeIsSpecialHandle
    rw [Bool.and_eq_true, decide_eq_true_iff, decide_eq_true_iff]
    unfold kTreeRootHandle kTreeFirstHandle kTreeLastHandle kTreeSortHandle
    omega
  unfold treeParentHandle TreeForest.parentOf
  simp only [hs]
  by_cases hz : raw = 0
  · simp [hz]
  · simp only [hz, false_or]

theorem among_placement {l : List ℕ} :
    Among (TreeForest.placement c) l ↔ (namesSibling c → c ∈ l) := by
  unfold TreeForest.placement Among namesSibling
  split_ifs with hf hp
  · simp [hf]
  · rcases hp with rfl | rfl | rfl
    all_goals simp
  · rw [not_or, not_or] at hp
    simp [hf, hp]

/-- **The new item comes to stand among its siblings where the request wants it.** -/
theorem treeInsertPosition_split (hd : (ite.map TreeItem.handle).Nodup)
    (ha : namesSibling c → c ∈ childHandles ite p) :
    ∃ l r, ite = l ++ r ∧ treeInsertPosition ite p c = l.length ∧
      ∀ h, childHandles l p ++ h :: childHandles r p =
        (TreeForest.placement c).insert h (childHandles ite p) := by
  have hs := scanned_siblingScan ite p c
  obtain ⟨l, r, hi, hr, hb⟩ := behind_split ite p c
  have hl : ∀ h, childHandles l p ++ h :: childHandles r p = childHandles ite p ++ [h] := by
    intro h
    rw [hi, childHandles_append, hr, append_nil]
  dsimp only [treeInsertPosition]
  rw [hb]
  by_cases hf : c = kTreeFirstHandle
  · rw [if_pos hf, show TreeForest.placement c = .first from if_pos hf]
    rcases hs.first with ⟨heq, hno⟩ | ⟨l', y, r', hi', hy, hno, heq⟩
    · rw [if_neg (not_not.2 heq)]
      refine ⟨l, r, hi, rfl, ?_⟩
      intro h
      rw [hl h, hno]
      rfl
    · have he := congrArg List.length hi'
      rw [length_append, length_cons] at he
      rw [if_pos (by omega)]
      refine ⟨l', y :: r', hi', heq, ?_⟩
      intro h
      rw [hi', childHandles_append, hno]
      rfl
  · rw [if_neg hf]
    by_cases hn : namesSibling c
    · obtain ⟨hz, -, hlh, hso⟩ := id hn
      have hpl : TreeForest.placement c = .after c := by
        simp [TreeForest.placement, hf, hz, hlh, hso]
      rw [if_pos ⟨hz, hlh, hso⟩, hpl]
      rcases hs.after with ⟨-, hno⟩ | ⟨l', y, r', hi', hy, hc, heq⟩
      · exact absurd (ha hn) hno
      have he := congrArg List.length hi'
      rw [length_append, length_cons] at he
      rw [if_pos (by omega)]
      -- the handle stands nowhere else
      have ho : c ∉ childHandles l' p ∧ c ∉ childHandles r' p := by
        rw [hi', map_append, map_cons, hc, nodup_middle, nodup_cons, mem_append, not_or] at hd
        constructor
        · intro hm
          obtain ⟨im, hit, -, hh⟩ := mem_childHandles.1 hm
          exact hd.1.1 (mem_map.2 ⟨im, hit, hh⟩)
        · intro hm
          obtain ⟨im, hit, -, hh⟩ := mem_childHandles.1 hm
          exact hd.1.2 (mem_map.2 ⟨im, hit, hh⟩)
      refine ⟨l' ++ [y], r', ?_, ?_, ?_⟩
      · rw [hi', append_assoc]
        rfl
      · rw [heq, length_append, length_singleton]
      · intro h
        have hsi : childHandles ite p = childHandles l' p ++ c :: childHandles r' p := by
          rw [hi', childHandles_append, childHandles_cons, if_pos hy, hc]
          rfl
        rw [hsi, Placement.insert_after h ho.1 ho.2, childHandles_append,
          childHandles_cons, if_pos hy, hc, append_assoc]
        rfl
    · have hpl : TreeForest.placement c = .last := by
        unfold namesSibling at hn
        rw [TreeForest.placement, if_neg hf, if_pos (by tauto)]
      rw [if_neg fun h => hn ⟨h.1, hf, h.2.1, h.2.2⟩, hpl]
      exact ⟨l, r, hi, rfl, hl⟩

/-! ### The vector knows the forest -/

variable {item im : TreeItem}

namespace TreeHolds

variable (holds : TreeHolds tree t)
include holds

theorem zero_notMem : 0 ∉ t.forest.preorder := by
  obtain ⟨⟨hz, -⟩, -⟩ := nodup_node.1 holds.nodup
  exact hz

theorem forest_nodup : t.forest.preorder.Nodup := by
  obtain ⟨-, hf, -⟩ := nodup_node.1 holds.nodup
  exact hf

theorem childrenOf_zero : t.childrenOf 0 = t.forest.roots := by
  show (if 0 = 0 then t.forest.roots else []) ++ (t.forest.children 0 ++ []) = _
  rw [if_pos rfl, children_of_notMem holds.zero_notMem, append_nil, append_nil]

omit holds in
theorem childrenOf_ne_zero (t : TreeForest) (hp : p ≠ 0) :
    t.childrenOf p = t.forest.children p := by
  show (if 0 = p then t.forest.roots else []) ++ (t.forest.children p ++ []) = _
  rw [if_neg (Ne.symm hp), append_nil, nil_append]

theorem handles_nodup : (tree.items.map TreeItem.handle).Nodup :=
  holds.perm.nodup_iff.2 holds.forest_nodup

theorem mem_preorder : h ∈ t.forest.preorder ↔ ∃ im ∈ tree.items, im.handle = h := by
  rw [← holds.perm.mem_iff, mem_map]

theorem find_eq_some : treeFindItem tree.items h = some im ↔ im ∈ tree.items ∧ im.handle = h := by
  constructor
  · intro hf
    exact ⟨mem_of_find?_eq_some hf, by simpa using find?_some hf⟩
  · rintro ⟨hit, hh⟩
    obtain ⟨l, r, hi⟩ := append_of_mem hit
    have hn := holds.handles_nodup
    rw [hi, map_append, map_cons, nodup_middle, nodup_cons, mem_append, not_or] at hn
    unfold treeFindItem
    rw [hi, find?_append, find?_cons_of_pos (by simpa using hh)]
    have hl : l.find? (fun im => decide (im.handle = h)) = none := by
      rw [find?_eq_none]
      intro o ho heq
      exact hn.1.1 (mem_map.2 ⟨o, ho, (by simpa using heq : _ = h).trans hh.symm⟩)
    rw [hl]
    rfl

theorem find_eq_none : treeFindItem tree.items h = none ↔ h ∉ t.forest.preorder := by
  rw [holds.mem_preorder, treeFindItem, find?_eq_none]
  simp

theorem mem_childrenOf (hi : im ∈ tree.items) : im.handle ∈ t.childrenOf im.parent := by
  rw [← holds.children, mem_childHandles]
  exact ⟨im, hi, rfl, rfl⟩

theorem parent_present (hi : im ∈ tree.items) : im.parent = 0 ∨ im.parent ∈ t.forest.preorder := by
  by_cases hp : im.parent = 0
  · exact .inl hp
  · right
    have hc := holds.mem_childrenOf hi
    rw [childrenOf_ne_zero t hp] at hc
    exact parent_mem hc

end TreeHolds

/-! ### Insertion -/

/-- The message has left a vector that holds the forest, and has told what the forest tells. -/
structure Answers (c : TreeView × TreeAnswer) (a : TreeForest × ℕ × Option (ℕ × ℕ)) : Prop where
  holds : TreeHolds c.1 a.1
  result : c.2.result = a.2.1
  notified : c.2.notified = a.2.2

theorem holds_new : TreeHolds {} {} where
  children p := by
    show [] = (if 0 = p then [] else []) ++ ([] ++ [])
    simp
  perm := List.Perm.refl _
  info := by simp
  nodup := by decide
  given := by simp [preorder]
  bounded := by simp
  distinct := nodup_nil
  next := rfl
  few := Nat.zero_le _
  selected := rfl

theorem rooted_grow (t : TreeForest) (pl : Placement ℕ) :
    Forest.node 0 (t.grow p pl h) .nil = t.rooted.insertUnder p pl h := by
  show _ = if 0 = p then Forest.node 0 (t.forest.put pl h) .nil
    else Forest.node 0 (t.forest.insertUnder p pl h) .nil
  unfold TreeForest.grow
  by_cases hp : p = 0
  · rw [if_pos hp, if_pos hp.symm]
  · rw [if_neg hp, if_neg (Ne.symm hp)]

theorem perm_of_cons {l r : List ℕ} (hp : (0 :: (l ++ [])).Perm (h :: 0 :: (r ++ []))) :
    l.Perm (h :: r) := by
  rw [append_nil, append_nil] at hp
  exact (hp.trans (List.Perm.swap 0 h r)).cons_inv

theorem holds_grow (holds : TreeHolds tree t) {l r : List TreeItem} (im : TreeItem)
    {pl : Placement ℕ} (hi : tree.items = l ++ r)
    (hha : im.handle = t.given.length + 1) (hw : t.given.length + 1 ≤ kIntMax)
    (hp : im.parent = 0 ∨ im.parent ∈ t.forest.preorder)
    (hl : Forest.Among pl (t.childrenOf im.parent))
    (hh : childHandles l im.parent ++ im.handle :: childHandles r im.parent =
      pl.insert im.handle (childHandles tree.items im.parent)) :
    TreeHolds { tree with nextHandle := im.handle + 1, items := l ++ im :: r } { t with
        forest := t.grow im.parent pl im.handle
        info := update t.info im.handle im.info
        given := im.handle :: t.given } := by
  have hn : im.handle ∉ t.given := by
    intro hm
    have hle := (holds.bounded _ hm).2
    omega
  have hr : im.parent ∈ t.rooted.preorder := by
    show im.parent ∈ 0 :: (t.forest.preorder ++ [])
    rw [append_nil]
    exact mem_cons.2 hp
  have he : (t.grow im.parent pl im.handle).preorder.Perm (im.handle :: t.forest.preorder) := by
    apply perm_of_cons
    have hro := perm_insertUnder (h := im.handle) holds.nodup hr hl
    rwa [← rooted_grow] at hro
  refine { children := ?_, perm := ?_, info := ?_, nodup := ?_, given := ?_, bounded := ?_,
           distinct := ?_, next := ?_, few := ?_, selected := holds.selected }
  · intro q
    show childHandles (l ++ im :: r) q =
      (Forest.node 0 (t.grow im.parent pl im.handle) .nil).children q
    rw [rooted_grow, childHandles_append, childHandles_cons]
    by_cases hq : im.parent = q
    · subst hq
      rw [if_pos rfl, children_insertUnder_self holds.nodup hr]
      have hs : t.rooted.children im.parent = childHandles tree.items im.parent :=
        (holds.children im.parent).symm
      rw [hs, ← hh]
      rfl
    · rw [if_neg hq, children_insertUnder_of_ne hq, nil_append, ← childHandles_append, ← hi]
      exact holds.children q
  · have hold := holds.perm
    rw [hi] at hold
    show ((l ++ im :: r).map TreeItem.handle).Perm _
    rw [map_append, map_cons]
    refine (perm_middle.trans ?_).trans he.symm
    rw [← map_append]
    exact hold.cons _
  · intro o ho
    have hc : o = im ∨ o ∈ tree.items := by
      rw [hi]
      simpa [or_left_comm] using ho
    rcases hc with rfl | ho
    · exact update_self _ _ _
    have hne : o.handle ≠ im.handle := by
      intro heq
      apply hn
      rw [← heq]
      exact holds.given _ (holds.mem_preorder.2 ⟨o, ho, rfl⟩)
    show update t.info im.handle im.info o.handle = o.info
    rw [update_of_ne hne]
    exact holds.info o ho
  · have hz : im.handle ≠ 0 := by omega
    show (0 :: ((t.grow im.parent pl im.handle).preorder ++ [])).Nodup
    rw [append_nil, (he.cons 0).nodup_iff]
    have hf := holds.forest_nodup
    have hold := holds.zero_notMem
    have ha : im.handle ∉ t.forest.preorder := fun hm => hn (holds.given _ hm)
    simp [hf, hold, ha, Ne.symm hz]
  · intro x hx
    rcases mem_cons.1 (he.mem_iff.1 hx) with rfl | hx
    · exact mem_cons_self
    · exact mem_cons_of_mem _ (holds.given x hx)
  · intro x hx
    show 0 < x ∧ x ≤ t.given.length + 1
    rcases mem_cons.1 hx with rfl | hx
    · omega
    · have hb := holds.bounded x hx
      omega
  · exact nodup_cons.2 ⟨hn, holds.distinct⟩
  · show im.handle + 1 = t.given.length + 1 + 1
    rw [hha]
  · exact hw

theorem afterMissing_iff (holds : TreeHolds tree t) :
    tree.afterMissing p c ↔ c ∉ t.childrenOf p := by
  rw [← holds.children, mem_childHandles]
  unfold afterMissing
  cases hf : treeFindItem tree.items c with
  | none =>
    simp only [true_iff]
    rintro ⟨im, hi, -, hh⟩
    rw [holds.find_eq_some.2 ⟨hi, hh⟩] at hf
    cases hf
  | some a =>
    simp only [decide_eq_true_eq]
    constructor
    · rintro hp ⟨im, hi, rfl, hh⟩
      rw [holds.find_eq_some.2 ⟨hi, hh⟩] at hf
      cases hf
      exact hp rfl
    · intro hn hp
      obtain ⟨ha, hh⟩ := holds.find_eq_some.1 hf
      exact hn ⟨a, ha, hp, hh⟩

/-- **An insertion on the vector is one on the forest.** -/
theorem holds_insertItem (holds : TreeHolds tree t) (re : Option TreeInsertRequest) :
    Answers (tree.insertItem re) ((t.insertItem re).1, (t.insertItem re).2, none) := by
  cases re with
  | none => exact ⟨holds, rfl, rfl⟩
  | some re =>
    have hle : tree.items.length = t.forest.preorder.length := by
      rw [← holds.perm.length_eq, length_map]
    have hf : treeFindItem tree.items (TreeForest.parentOf re.rawParent) = none ↔
        TreeForest.parentOf re.rawParent ∉ t.forest.preorder := holds.find_eq_none
    have ha := afterMissing_iff (p := TreeForest.parentOf re.rawParent) (c := re.insertAfter) holds
    have he := holds.next
    dsimp only [TreeView.insertItem, TreeForest.insertItem]
    rw [treeParentHandle_eq]
    simp only [among_placement]
    generalize hparent : TreeForest.parentOf re.rawParent = parent at hf ha ⊢
    by_cases hl : kTreeItemLimit ≤ tree.items.length
    · rw [if_pos hl, if_neg (by omega)]
      exact ⟨holds, rfl, rfl⟩
    rw [if_neg hl]
    by_cases ho : parent ≠ 0 ∧ treeFindItem tree.items parent = none
    · rw [if_pos ho, if_neg (by tauto)]
      exact ⟨holds, rfl, rfl⟩
    rw [if_neg ho]
    by_cases hmi : namesSibling re.insertAfter ∧ tree.afterMissing parent re.insertAfter
    · rw [if_pos hmi, if_neg (by tauto)]
      exact ⟨holds, rfl, rfl⟩
    rw [if_neg hmi]
    by_cases ht : re.mask &&& kTreeItemText ≠ 0 ∧ re.text = none
    · rw [if_pos ht, if_neg (by tauto)]
      exact ⟨holds, rfl, rfl⟩
    rw [if_neg ht]
    by_cases hm : tree.nextHandle = 0 ∨ kIntMax < tree.nextHandle
    · rw [if_pos hm, if_neg (by omega)]
      exact ⟨holds, rfl, rfl⟩
    have hp : parent = 0 ∨ parent ∈ t.forest.preorder := by tauto
    have hs : namesSibling re.insertAfter → re.insertAfter ∈ t.childrenOf parent := by tauto
    have hal : t.forest.preorder.length < kTreeItemLimit ∧
        (parent = 0 ∨ parent ∈ t.forest.preorder) ∧
        (namesSibling re.insertAfter → re.insertAfter ∈ t.childrenOf parent) ∧
        (re.mask &&& kTreeItemText ≠ 0 → re.text ≠ none) ∧
        t.given.length + 1 ≤ kIntMax :=
      ⟨by omega, hp, hs, by tauto, by omega⟩
    rw [if_neg hm, if_pos hal]
    obtain ⟨l, r, hi, hpo, hh⟩ :=
      treeInsertPosition_split (p := parent) holds.handles_nodup fun hn => by
        rw [holds.children]
        exact hs hn
    refine ⟨?_, he, rfl⟩
    rw [hpo, hi, insertIdx_length, he]
    exact holds_grow holds ⟨t.given.length + 1, parent, _, _, false⟩ hi rfl
      (by omega) hp (among_placement.2 hs) (hh _)

/-! ### Deletion -/

section

variable (holds : TreeHolds tree t)
include holds

theorem mem_subtree_iff (hi : im ∈ tree.items) (a : ℕ) :
    im.handle ∈ t.forest.subtree a ↔ im.handle = a ∨ im.parent ∈ t.forest.subtree a := by
  have hc := holds.mem_childrenOf hi
  by_cases hp : im.parent = 0
  · rw [hp, holds.childrenOf_zero] at hc
    have hz : 0 ∉ t.forest.subtree a := fun h => holds.zero_notMem (subtree_subset h)
    rw [mem_subtree_root holds.forest_nodup hc, hp, or_iff_left hz]
  · rw [TreeHolds.childrenOf_ne_zero t hp] at hc
    exact mem_subtree_child holds.forest_nodup hc

theorem depth_parent (hi : im ∈ tree.items) (hp : im.parent ≠ 0) :
    t.forest.depth im.handle = t.forest.depth im.parent + 1 := by
  have hc := holds.mem_childrenOf hi
  rw [TreeHolds.childrenOf_ne_zero t hp] at hc
  exact depth_child holds.forest_nodup hc

/-- **The walk upwards tells whether its start is below the deleted item**: it needs no more
rounds than the start is deep. -/
theorem meets_iff {a : ℕ} (ha : a ∈ t.forest.preorder) {n p : ℕ}
    (hp : p = 0 ∨ p ∈ t.forest.preorder ∧ t.forest.depth p < n) :
    meets tree.items a n p ↔ p ∈ t.forest.subtree a := by
  have hz : 0 ∉ t.forest.subtree a := fun h => holds.zero_notMem (subtree_subset h)
  induction n generalizing p with
  | zero =>
    rcases hp with rfl | ⟨-, hl⟩
    · simp [meets, hz]
    · exact absurd hl (Nat.not_lt_zero _)
  | succ n ih =>
    unfold meets
    by_cases hp0 : p = 0
    · simp [hp0, hz]
    rw [if_neg hp0]
    obtain ⟨hm, hl⟩ := hp.resolve_left hp0
    by_cases hpa : p = a
    · rw [if_pos hpa, hpa]
      simpa using mem_subtree_self ha
    rw [if_neg hpa]
    obtain ⟨im, hi, rfl⟩ := holds.mem_preorder.1 hm
    rw [holds.find_eq_some.2 ⟨hi, rfl⟩, mem_subtree_iff holds hi, or_iff_right hpa]
    apply ih
    rcases holds.parent_present hi with hr | hpr
    · exact .inl hr
    · by_cases hr : im.parent = 0
      · exact .inl hr
      · have hd := depth_parent holds hi hr
        exact .inr ⟨hpr, by omega⟩

theorem length_items : tree.items.length = t.forest.preorder.length := by
  rw [← holds.perm.length_eq, length_map]

/-- **What is deleted is what is below the item.** -/
theorem mem_deletedHandles {a : ℕ} (ha : a ∈ t.forest.preorder) :
    h ∈ deletedHandles tree.items a ↔ h ∈ t.forest.subtree a := by
  have hc : ∀ im ∈ tree.items,
      (im.handle = a ∨ meets tree.items a tree.items.length im.parent ↔
        im.handle ∈ t.forest.subtree a) := by
    intro im hi
    have hs : im.parent = 0 ∨
        im.parent ∈ t.forest.preorder ∧ t.forest.depth im.parent < tree.items.length := by
      rcases holds.parent_present hi with hr | hp
      · exact .inl hr
      · right
        rw [length_items holds]
        exact ⟨hp, depth_lt hp⟩
    rw [meets_iff holds ha hs, mem_subtree_iff holds hi]
  unfold deletedHandles
  simp only [mem_map, mem_filter, Bool.or_eq_true, decide_eq_true_eq]
  constructor
  · rintro ⟨im, ⟨hi, hd⟩, rfl⟩
    exact (hc im hi).1 hd
  · intro hm
    obtain ⟨im, hi, rfl⟩ := holds.mem_preorder.1 (subtree_subset hm)
    exact ⟨im, ⟨hi, (hc im hi).2 hm⟩, rfl⟩

/-- **A deletion on the vector is one on the forest.** -/
theorem holds_deleteItem (a : ℕ) :
    Answers (tree.deleteItem a) ((t.deleteItem a).1, (t.deleteItem a).2, none) := by
  unfold TreeView.deleteItem TreeForest.deleteItem
  by_cases hz : a = 0
  · rw [if_pos hz, if_pos hz]
    refine ⟨{ children := ?_, perm := List.Perm.refl _, info := ?_, nodup := nodup_singleton 0,
              given := ?_, bounded := holds.bounded, distinct := holds.distinct,
              next := holds.next, few := holds.few, selected := rfl }, rfl, rfl⟩
    · intro p
      show [] = (if 0 = p then [] else []) ++ ([] ++ [])
      simp
    · intro im hi
      cases hi
    · intro x hx
      cases hx
  rw [if_neg hz, if_neg hz]
  by_cases hm : a ∈ t.forest.preorder
  · rw [if_neg fun hn => holds.find_eq_none.1 hn hm, if_pos hm]
    have hd : ∀ x, x ∈ deletedHandles tree.items a ↔ x ∈ t.forest.subtree a :=
      fun x => mem_deletedHandles holds hm
    have hr : Forest.node 0 (t.forest.delete a) .nil = t.rooted.delete a := by
      show _ = if 0 = a then _ else Forest.node 0 (t.forest.delete a) .nil
      rw [if_neg (Ne.symm hz)]
    have hs : t.rooted.subtree a = t.forest.subtree a := by
      show (if 0 = a then _ else t.forest.subtree a ++ []) = _
      rw [if_neg (Ne.symm hz), append_nil]
    refine ⟨{ children := ?_, perm := ?_, info := ?_, nodup := ?_, given := ?_,
              bounded := holds.bounded, distinct := holds.distinct, next := holds.next,
              few := holds.few, selected := ?_ }, rfl, rfl⟩
    · intro p
      show childHandles (tree.items.filter _) p =
        (Forest.node 0 (t.forest.delete a) .nil).children p
      have hold : childHandles tree.items p = t.rooted.children p := holds.children p
      rw [hr, children_delete holds.nodup, hs, ← hold]
      unfold childHandles
      rw [filter_map, filter_filter, filter_filter]
      congr 1
      apply filter_congr
      intro im _
      simp [hd, Bool.and_comm]
    · show ((tree.items.filter _).map TreeItem.handle).Perm (t.forest.delete a).preorder
      rw [preorder_delete holds.forest_nodup]
      have hf : (tree.items.filter fun im =>
          decide (im.handle ∉ deletedHandles tree.items a)).map TreeItem.handle =
          (tree.items.map TreeItem.handle).filter (· ∉ t.forest.subtree a) := by
        rw [filter_map]
        congr 1
        apply filter_congr
        intro im _
        simp [hd]
      rw [hf]
      exact holds.perm.filter _
    · intro im hi
      exact holds.info im (mem_of_mem_filter hi)
    · show (Forest.node 0 (t.forest.delete a) .nil).preorder.Nodup
      rw [hr, preorder_delete holds.nodup]
      exact holds.nodup.filter _
    · intro x hx
      rw [preorder_delete holds.forest_nodup] at hx
      exact holds.given x (mem_of_mem_filter hx)
    · show (if tree.selected ∈ _ then 0 else tree.selected) =
        if t.selected ∈ t.forest.subtree a then 0 else t.selected
      simp [hd, holds.selected]
  · rw [if_pos (holds.find_eq_none.2 hm), if_neg hm]
    exact ⟨holds, rfl, rfl⟩

end

end TradutorLinux
