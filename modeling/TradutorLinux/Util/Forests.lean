import Mathlib.Data.List.Nodup
import Mathlib.Data.List.Perm.Basic

/-!
# Ordered forests

A forest is empty, or a first tree, with its root and the forest below it, and the
forest of the trees behind it.  A node is inserted among the children of another
or among the roots, a subtree is cut out; the children of the other nodes stay
what they are.

## Main definitions

* `Forest` — the ordered forests over a type of labels.
* `Forest.preorder`, `Forest.children`, `Forest.subtree` — the nodes in order, the
  children of a node, and what is below it.
* `Forest.parent?`, `Forest.rootOf`, `Forest.depth` — what is above a node.
* `Forest.visible` — the nodes below which nothing is closed, in order.
* `Placement` — the first, the last, or behind a sibling.
* `Forest.insertUnder`, `Forest.delete` — the changes.

## Main results

* `children_insertUnder_self`, `children_insertUnder_of_ne` — **an insertion adds the
  node to the children it is put among, and to no others.**
* `children_delete`
-/

namespace TradutorLinux

open List

universe u

/-- An ordered forest: nothing, or a root with what is below it, and the trees behind. -/
inductive Forest (α : Type u)
  | nil
  | node (a : α) (kids next : Forest α)

/-- Where a node goes among its siblings. -/
inductive Placement (α : Type u)
  | first
  | last
  | after (c : α)

variable {α : Type u} [DecidableEq α]

def Placement.insert (place : Placement α) (h : α) : List α → List α :=
  match place with
  | first => fun l => h :: l
  | last => fun l => l ++ [h]
  | after c => fun l => l.flatMap fun a => if a = c then [a, h] else [a]

theorem Placement.insert_after_of_notMem {c : α} (h : α) {l : List α} (hc : c ∉ l) :
    (after c).insert h l = l := by
  induction l with
  | nil => rfl
  | cons a l ih =>
    rw [mem_cons, not_or] at hc
    show (if a = c then [a, h] else [a]) ++ (after c).insert h l = a :: l
    rw [if_neg (Ne.symm hc.1), ih hc.2]
    rfl

/-- Behind the one element that it is to follow. -/
theorem Placement.insert_after {c : α} (h : α) {l r : List α} (hl : c ∉ l) (hr : c ∉ r) :
    (after c).insert h (l ++ c :: r) = l ++ c :: h :: r := by
  have he := insert_after_of_notMem h hl
  have hi := insert_after_of_notMem h hr
  dsimp only [insert] at he hi ⊢
  rw [flatMap_append, flatMap_cons, he, hi, if_pos rfl]
  rfl

namespace Forest

def roots : Forest α → List α
  | nil => []
  | node a _ next => a :: next.roots

/-- The nodes, every one before what is below it. -/
def preorder : Forest α → List α
  | nil => []
  | node a kids next => a :: (kids.preorder ++ next.preorder)

/-- The children of the nodes labelled `p`. -/
def children (p : α) : Forest α → List α
  | nil => []
  | node a kids next =>
    (if a = p then kids.roots else []) ++ (kids.children p ++ next.children p)

/-- The nodes labelled `a` with all that is below them. -/
def subtree (a : α) : Forest α → List α
  | nil => []
  | node b kids next =>
    if b = a then b :: kids.preorder else kids.subtree a ++ next.subtree a

/-- The nodes that are not below a closed one. -/
def visible (isOpen : α → Bool) : Forest α → List α
  | nil => []
  | node a kids next => a :: ((if isOpen a then kids.visible isOpen else []) ++ next.visible isOpen)

/-- The forest below the node `a`. -/
def under (a : α) : Forest α → Forest α
  | nil => nil
  | node b kids next =>
    if b = a then kids else if a ∈ kids.preorder then kids.under a else next.under a

/-- How far a node is below the roots. -/
def depth (a : α) : Forest α → ℕ
  | nil => 0
  | node b kids next =>
    if b = a then 0 else if a ∈ kids.preorder then kids.depth a + 1 else next.depth a

/-- The root above a node. -/
def rootOf (a : α) : Forest α → Option α
  | nil => none
  | node b kids next =>
    if b = a ∨ a ∈ kids.preorder then some b else next.rootOf a

/-- The node of which another is a child. -/
def parent? (b : α) : Forest α → Option α
  | nil => none
  | node a kids next =>
    if b ∈ kids.roots then some a else (kids.parent? b).or (next.parent? b)

/-! ### Changes -/

/-- A new tree of one node among the trees of a forest. -/
def put (place : Placement α) (h : α) : Forest α → Forest α :=
  match place with
  | .first => fun f => node h nil f
  | .last => putLast
  | .after c => putAfter c
where
  putLast : Forest α → Forest α
    | nil => node h nil nil
    | node a kids next => node a kids (putLast next)
  putAfter (c : α) : Forest α → Forest α
    | nil => nil
    | node a kids next =>
      if a = c then node a kids (node h nil (putAfter c next))
      else node a kids (putAfter c next)

/-- A new node below `p`. -/
def insertUnder (p : α) (place : Placement α) (h : α) : Forest α → Forest α
  | nil => nil
  | node a kids next =>
    if a = p then node a (kids.put place h) next
    else node a (kids.insertUnder p place h) (next.insertUnder p place h)

/-- Without the node `a` and what is below it. -/
def delete (a : α) : Forest α → Forest α
  | nil => nil
  | node b kids next => if b = a then next else node b (kids.delete a) (next.delete a)

/-! ### Nodes -/

variable {f kids k ks next ne n : Forest α} {a b p q h : α} {pl : Placement α}

omit [DecidableEq α] in
theorem roots_subset : f.roots ⊆ f.preorder := by
  induction f with
  | nil => simp [roots]
  | node a ks n _ ih =>
    intro b hb
    rcases mem_cons.1 hb with rfl | hb
    · exact mem_cons_self
    · exact mem_cons_of_mem _ (mem_append_right _ (ih hb))

attribute [local simp] children

theorem children_subset : f.children p ⊆ f.preorder := by
  induction f with
  | nil => simp
  | node a ks n ih i =>
    intro b hb
    refine mem_cons_of_mem _ ?_
    rcases mem_append.1 hb with hb | hb
    · split at hb
      · exact mem_append_left _ (roots_subset hb)
      · cases hb
    · rcases mem_append.1 hb with hb | hb
      · exact mem_append_left _ (ih hb)
      · exact mem_append_right _ (i hb)

theorem children_of_notMem (hp : p ∉ f.preorder) : f.children p = [] := by
  induction f with
  | nil => rfl
  | node a ks n i ih =>
    simp only [preorder, mem_cons, mem_append, not_or] at hp
    obtain ⟨he, hk, hn⟩ := hp
    simp [Ne.symm he, i hk, ih hn]

theorem subtree_subset : f.subtree a ⊆ f.preorder := by
  induction f with
  | nil => simp [subtree]
  | node b ks n ih i =>
    intro c hc
    unfold subtree at hc
    split at hc
    · rcases mem_cons.1 hc with rfl | hc
      · exact mem_cons_self
      · exact mem_cons_of_mem _ (mem_append_left _ hc)
    · refine mem_cons_of_mem _ ?_
      rcases mem_append.1 hc with hc | hc
      · exact mem_append_left _ (ih hc)
      · exact mem_append_right _ (i hc)

theorem mem_subtree_self (ha : a ∈ f.preorder) : a ∈ f.subtree a := by
  induction f with
  | nil => cases ha
  | node b kids next ih i =>
    unfold subtree
    split
    · next heq => exact heq ▸ mem_cons_self
    next hn =>
    rcases mem_cons.1 ha with rfl | ha
    · exact absurd rfl hn
    · rcases mem_append.1 ha with ha | ha
      · exact mem_append_left _ (ih ha)
      · exact mem_append_right _ (i ha)

omit [DecidableEq α] in
/-- What it is for the labels of a forest to be different. -/
theorem nodup_node : (node a ks n).preorder.Nodup ↔
    (a ∉ ks.preorder ∧ a ∉ n.preorder) ∧ ks.preorder.Nodup ∧ n.preorder.Nodup ∧
      ∀ b ∈ ks.preorder, b ∉ n.preorder := by
  show (a :: (ks.preorder ++ n.preorder)).Nodup ↔ _
  rw [nodup_cons, nodup_append, mem_append, not_or]
  refine and_congr_right fun _ => and_congr_right fun _ => and_congr_right fun _ => ?_
  constructor
  · intro h b hk hn
    exact h b hk b hn rfl
  · rintro h b hk c hn rfl
    exact h b hk hn

/-! ### Insertion -/

def Among (place : Placement α) (siblings : List α) : Prop :=
  ∀ c, place = .after c → c ∈ siblings

instance (place : Placement α) (siblings : List α) : Decidable (Among place siblings) :=
  match place with
  | .after c => decidable_of_iff (c ∈ siblings) (by simp [Among])
  | .first | .last => isTrue nofun

attribute [local simp] Placement.insert flatMap_cons cons_append nil_append

theorem roots_put : (f.put pl h).roots = pl.insert h f.roots := by
  cases pl with
  | first => rfl
  | last =>
    induction f with
    | nil => rfl
    | node a ks n _ ih => exact congrArg (a :: ·) ih
  | after c =>
    induction f with
    | nil => rfl
    | node a ks n _ ih =>
      have ih : (put.putAfter h c n).roots = (Placement.after c).insert h n.roots := ih
      show (put.putAfter h c (node a ks n)).roots = _
      unfold put.putAfter Placement.insert
      by_cases ha : a = c
      · simp [ha, roots, ih]
      · simp [ha, roots, ih]

attribute [local simp] put put.putLast

theorem children_put : (f.put pl h).children q = f.children q := by
  cases pl with
  | first => simp [roots]
  | last =>
    induction f with
    | nil => simp [roots]
    | node a ks n _ ih =>
      have ih : (put.putLast h n).children q = n.children q := ih
      simp [ih]
  | after c =>
    induction f with
    | nil => rfl
    | node a ks n _ ih =>
      have ih : (put.putAfter h c n).children q = n.children q := ih
      show (put.putAfter h c (node a ks n)).children q = _
      unfold put.putAfter
      split <;> simp [roots, ih]

/-- A new node is one node more. -/
theorem perm_put (hp : Among pl f.roots) (hn : f.roots.Nodup) :
    (f.put pl h).preorder.Perm (h :: f.preorder) := by
  cases pl with
  | first => exact List.Perm.refl _
  | last =>
    clear hp hn
    induction f with
    | nil => exact List.Perm.refl _
    | node a kids next _ ih =>
      show (a :: (kids.preorder ++ (put.putLast h next).preorder)).Perm _
      refine ((ih.append_left kids.preorder).cons a).trans ?_
      exact (perm_middle.cons a).trans (List.Perm.swap h a _)
  | after c =>
    have hs : ∀ g : Forest α, c ∉ g.roots → put.putAfter h c g = g := by
      intro g hg
      induction g with
      | nil => rfl
      | node a kids next _ ih =>
        simp only [roots, mem_cons, not_or] at hg
        unfold put.putAfter
        rw [if_neg (Ne.symm hg.1), ih hg.2]
    have hc := hp c rfl
    clear hp
    induction f with
    | nil => cases hc
    | node a kids next _ ih =>
      obtain ⟨ha, hx⟩ := nodup_cons.1 hn
      show (put.putAfter h c (node a kids next)).preorder.Perm _
      unfold put.putAfter
      split
      · next heq =>
        subst heq
        rw [hs next ha]
        show (a :: (kids.preorder ++ h :: ([] ++ next.preorder))).Perm _
        exact (perm_middle.cons a).trans (List.Perm.swap h a _)
      · next he =>
        have hi : c ∈ next.roots := by
          rcases mem_cons.1 hc with rfl | hi
          · exact absurd rfl he
          · exact hi
        have ih : (put.putAfter h c next).preorder.Perm (h :: next.preorder) := ih hx hi
        show (a :: (kids.preorder ++ (put.putAfter h c next).preorder)).Perm _
        refine ((ih.append_left kids.preorder).cons a).trans ?_
        exact (perm_middle.cons a).trans (List.Perm.swap h a _)

theorem roots_insertUnder : (f.insertUnder p pl h).roots = f.roots := by
  induction f with
  | nil => rfl
  | node a ks n _ ih =>
    unfold insertUnder
    split
    · rfl
    · exact congrArg (a :: ·) ih

theorem insertUnder_of_notMem (hp : p ∉ f.preorder) : f.insertUnder p pl h = f := by
  induction f with
  | nil => rfl
  | node a ks n i ih =>
    simp only [preorder, mem_cons, mem_append, not_or] at hp
    obtain ⟨he, hk, hn⟩ := hp
    unfold insertUnder
    rw [if_neg (Ne.symm he), i hk, ih hn]

omit [DecidableEq α] in
theorem nodup_roots (hf : f.preorder.Nodup) : f.roots.Nodup := by
  induction f with
  | nil => exact nodup_nil
  | node a ks n _ ih =>
    obtain ⟨⟨-, ha⟩, -, hn, -⟩ := nodup_node.1 hf
    exact nodup_cons.2 ⟨fun h => ha (roots_subset h), ih hn⟩

/-- **The new node is among the children of `p`, where it was put.** -/
theorem children_insertUnder_self (hf : f.preorder.Nodup) (hp : p ∈ f.preorder) :
    (f.insertUnder p pl h).children p = pl.insert h (f.children p) := by
  induction f with
  | nil => cases hp
  | node a ks n i ih =>
    obtain ⟨⟨hak, han⟩, hi, he, hd⟩ := nodup_node.1 hf
    unfold insertUnder
    by_cases ha : a = p
    · subst ha
      rw [if_pos rfl]
      unfold children
      rw [if_pos rfl, if_pos rfl, children_put, children_of_notMem hak, children_of_notMem han,
        nil_append, append_nil, append_nil, roots_put]
    · rw [if_neg ha]
      unfold children
      rw [if_neg ha, if_neg ha, nil_append, nil_append]
      rcases mem_cons.1 hp with rfl | hp
      · exact absurd rfl ha
      rcases mem_append.1 hp with hk | hn
      · have hn := hd p hk
        rw [i hi hk, insertUnder_of_notMem hn, children_of_notMem hn, append_nil, append_nil]
      · have hk : p ∉ ks.preorder := fun hk => hd p hk hn
        rw [ih he hn, insertUnder_of_notMem hk, children_of_notMem hk, nil_append, nil_append]

theorem children_insertUnder_of_ne (hq : p ≠ q) :
    (f.insertUnder p pl h).children q = f.children q := by
  induction f with
  | nil => rfl
  | node a ks n ih i =>
    unfold insertUnder
    by_cases ha : a = p
    · subst ha
      rw [if_pos rfl]
      unfold children
      rw [if_neg hq, if_neg hq, children_put]
    · rw [if_neg ha]
      unfold children
      rw [roots_insertUnder, ih, i]

/-- An insertion is one node more. -/
theorem perm_insertUnder (hf : f.preorder.Nodup) (hp : p ∈ f.preorder)
    (hl : Among pl (f.children p)) : (f.insertUnder p pl h).preorder.Perm (h :: f.preorder) := by
  induction f with
  | nil => cases hp
  | node a ks n i ih =>
    obtain ⟨⟨hak, han⟩, hi, he, hd⟩ := nodup_node.1 hf
    unfold insertUnder
    by_cases ha : a = p
    · subst ha
      rw [if_pos rfl]
      have hr : (node a ks n).children a = ks.roots := by
        simp [children_of_notMem hak, children_of_notMem han]
      rw [hr] at hl
      have hu := perm_put (h := h) hl (nodup_roots hi)
      show (a :: ((ks.put pl h).preorder ++ n.preorder)).Perm _
      exact ((hu.append_right n.preorder).cons a).trans (List.Perm.swap h a _)
    · rw [if_neg ha]
      have hs : (node a ks n).children p = ks.children p ++ n.children p := by simp [ha]
      rw [hs] at hl
      rcases mem_cons.1 hp with rfl | hp
      · exact absurd rfl ha
      rcases mem_append.1 hp with hk | hn
      · have hn := hd p hk
        rw [children_of_notMem hn, append_nil] at hl
        rw [insertUnder_of_notMem hn]
        exact (((i hi hk hl).append_right n.preorder).cons a).trans (List.Perm.swap h a _)
      · have hk : p ∉ ks.preorder := fun hk => hd p hk hn
        rw [children_of_notMem hk, nil_append] at hl
        rw [insertUnder_of_notMem hk]
        refine (((ih he hn hl).append_left ks.preorder).cons a).trans ?_
        exact (perm_middle.cons a).trans (List.Perm.swap h a _)

/-! ### Deletion -/

/-- What is not below a node is left. -/
theorem preorder_delete (hf : f.preorder.Nodup) :
    (f.delete a).preorder = f.preorder.filter (· ∉ f.subtree a) := by
  induction f with
  | nil => rfl
  | node b ks n i ih =>
    obtain ⟨⟨hbk, hbn⟩, hi, hn, hd⟩ := nodup_node.1 hf
    unfold delete
    by_cases hb : b = a
    · subst hb
      rw [if_pos rfl]
      have hs : (node b ks n).subtree b = b :: ks.preorder := if_pos rfl
      have he : ∀ c ∈ n.preorder, c ∉ b :: ks.preorder := by
        intro c hc hm
        rcases mem_cons.1 hm with rfl | hk
        · exact hbn hc
        · exact hd c hk hc
      rw [hs]
      show n.preorder = (b :: (ks.preorder ++ n.preorder)).filter _
      rw [filter_cons_of_neg (by simp), filter_append,
        filter_eq_nil_iff.2 (by simp +contextual), nil_append,
        filter_eq_self.2 (by simpa using he)]
    · rw [if_neg hb]
      have hs : (node b ks n).subtree a = ks.subtree a ++ n.subtree a := if_neg hb
      rw [hs]
      have hbo : b ∉ ks.subtree a ++ n.subtree a := by
        rw [mem_append, not_or]
        exact ⟨fun h => hbk (subtree_subset h), fun h => hbn (subtree_subset h)⟩
      show b :: ((ks.delete a).preorder ++ (n.delete a).preorder) =
        (b :: (ks.preorder ++ n.preorder)).filter _
      rw [filter_cons_of_pos (by simpa using hbo), filter_append, i hi, ih hn]
      congr 2
      · refine filter_congr fun c hc => ?_
        have ho : c ∉ n.subtree a := fun h => hd c hc (subtree_subset h)
        simp [ho]
      · refine filter_congr fun c hc => ?_
        have ho : c ∉ ks.subtree a := fun h => hd c (subtree_subset h) hc
        simp [ho]

theorem roots_delete (hf : f.preorder.Nodup) :
    (f.delete a).roots = f.roots.filter (· ∉ f.subtree a) := by
  induction f with
  | nil => rfl
  | node b ks n _ i =>
    obtain ⟨⟨hbk, hbn⟩, -, hn, hd⟩ := nodup_node.1 hf
    unfold delete
    by_cases hb : b = a
    · subst hb
      rw [if_pos rfl]
      have hs : (node b ks n).subtree b = b :: ks.preorder := if_pos rfl
      rw [hs]
      show n.roots = (b :: n.roots).filter _
      rw [filter_cons_of_neg (by simp), filter_eq_self.2]
      intro c hc
      have hcn := roots_subset hc
      have hcb : c ≠ b := fun heq => hbn (heq ▸ hcn)
      have hck : c ∉ ks.preorder := fun hk => hd c hk hcn
      simp [hcb, hck]
    · rw [if_neg hb]
      have hs : (node b ks n).subtree a = ks.subtree a ++ n.subtree a := if_neg hb
      rw [hs]
      have hbo : b ∉ ks.subtree a ++ n.subtree a := by
        rw [mem_append, not_or]
        exact ⟨fun h => hbk (subtree_subset h), fun h => hbn (subtree_subset h)⟩
      show b :: (n.delete a).roots = (b :: n.roots).filter _
      rw [filter_cons_of_pos (by simpa using hbo), i hn]
      congr 1
      refine filter_congr fun c hc => ?_
      have ho : c ∉ ks.subtree a := fun h => hd c (subtree_subset h) (roots_subset hc)
      simp [ho]

/-- **The children that are left are those that are not below the node.** -/
theorem children_delete (hf : f.preorder.Nodup) :
    (f.delete a).children p = (f.children p).filter (· ∉ f.subtree a) := by
  induction f with
  | nil => rfl
  | node b ks n i ih =>
    obtain ⟨⟨hbk, hbn⟩, hi, hn, hd⟩ := nodup_node.1 hf
    unfold delete
    by_cases hb : b = a
    · subst hb
      rw [if_pos rfl]
      have hs : (node b ks n).subtree b = b :: ks.preorder := if_pos rfl
      rw [hs]
      show _ = ((if b = p then ks.roots else []) ++ (ks.children p ++ n.children p)).filter _
      rw [filter_append, filter_append, filter_eq_nil_iff.2,
        filter_eq_nil_iff.2, nil_append, nil_append, filter_eq_self.2]
      · intro c hc
        have hcn := children_subset hc
        have hcb : c ≠ b := fun heq => hbn (heq ▸ hcn)
        have hck : c ∉ ks.preorder := fun hk => hd c hk hcn
        simp [hcb, hck]
      · intro c hc
        simp [show c ∈ ks.preorder from children_subset hc]
      · intro c hc
        split at hc
        · simp [show c ∈ ks.preorder from roots_subset hc]
        · cases hc
    · rw [if_neg hb]
      have hs : (node b ks n).subtree a = ks.subtree a ++ n.subtree a := if_neg hb
      rw [hs]
      show (if b = p then (ks.delete a).roots else []) ++
          ((ks.delete a).children p ++ (n.delete a).children p) =
        ((if b = p then ks.roots else []) ++ (ks.children p ++ n.children p)).filter _
      have he : ∀ l : List α, l ⊆ ks.preorder → l.filter (· ∉ ks.subtree a) =
          l.filter (· ∉ ks.subtree a ++ n.subtree a) := by
        intro l hl
        refine filter_congr fun c hc => ?_
        have ho : c ∉ n.subtree a := fun h => hd c (hl hc) (subtree_subset h)
        simp [ho]
      rw [filter_append, filter_append, i hi, ih hn, roots_delete hi,
        he _ roots_subset, he _ children_subset]
      congr 2
      · split <;> rfl
      · refine filter_congr fun c hc => ?_
        have ho : c ∉ ks.subtree a := fun h => hd c (subtree_subset h) (children_subset hc)
        simp [ho]

/-! ### What is below a node -/

theorem mem_subtree_root (hf : f.preorder.Nodup) (hb : b ∈ f.roots) : b ∈ f.subtree a ↔ b = a := by
  induction f with
  | nil => cases hb
  | node c kids next _ i =>
    obtain ⟨⟨hck, hc⟩, -, hn, hd⟩ := nodup_node.1 hf
    unfold subtree
    rcases mem_cons.1 hb with rfl | hb
    · split
      · next heq => simp [heq]
      next he =>
      constructor
      · intro hm
        rcases mem_append.1 hm with hm | hm
        · exact absurd (subtree_subset hm) hck
        · exact absurd (subtree_subset hm) hc
      · intro heq
        exact absurd heq he
    · have hbn := roots_subset hb
      split
      · next heq =>
        subst heq
        constructor
        · intro hm
          rcases mem_cons.1 hm with rfl | hk
          · rfl
          · exact absurd hbn (hd b hk)
        · rintro rfl
          exact mem_cons_self
      · rw [mem_append, i hn hb]
        constructor
        · rintro (hm | heq)
          · exact absurd hbn (hd b (subtree_subset hm))
          · exact heq
        · exact .inr

/-- **A child is below a node if it is the node, or its parent is below it.** -/
theorem mem_subtree_child (hf : f.preorder.Nodup) (hb : b ∈ f.children p) :
    b ∈ f.subtree a ↔ b = a ∨ p ∈ f.subtree a := by
  induction f with
  | nil => cases hb
  | node c kids next i ih =>
    obtain ⟨⟨hck, hcn⟩, hk, hn, hd⟩ := nodup_node.1 hf
    have ha : ∀ {g : Forest α}, b ∈ g.children p → p ∈ g.preorder := by
      intro g hg
      by_contra hp
      rw [children_of_notMem hp] at hg
      cases hg
    unfold subtree
    rcases mem_append.1 hb with hr | hb
    · -- `b` is a child of the first root
      split at hr
      · next hcp =>
        subst hcp
        have hbk := roots_subset hr
        split
        · next hca => simp [hbk]
        · next hca =>
          have hc : c ∉ kids.subtree a ++ next.subtree a := by
            rw [mem_append, not_or]
            exact ⟨fun h => hck (subtree_subset h), fun h => hcn (subtree_subset h)⟩
          rw [mem_append, mem_subtree_root hk hr]
          constructor
          · rintro (heq | hm)
            · exact .inl heq
            · exact absurd (subtree_subset hm) (hd b hbk)
          · rintro (heq | hm)
            · exact .inl heq
            · exact absurd hm hc
      · cases hr
    · rcases mem_append.1 hb with hbk | hbn
      · have hbi := children_subset hbk
        have hi := ha hbk
        split
        · simp [hbi, hi]
        · have ho : ∀ x ∈ kids.preorder, x ∉ next.subtree a := fun x hx h =>
            hd x hx (subtree_subset h)
          simp only [mem_append, ho b hbi, ho p hi, or_false]
          exact i hk hbk
      · have hbi := children_subset hbn
        have hi := ha hbn
        split
        · next hca =>
          subst hca
          have hbk : b ∉ kids.preorder := fun h => hd b h hbi
          have hpk : p ∉ kids.preorder := fun h => hd p h hi
          have hpc : p ≠ c := fun heq => hcn (heq ▸ hi)
          simp [hbk, hpk, hpc]
        · have ho : ∀ x ∈ next.preorder, x ∉ kids.subtree a := fun x hx h =>
            hd x (subtree_subset h) hx
          simp only [mem_append, ho b hbi, ho p hi, false_or]
          exact ih hn hbn

theorem parent_mem (hb : b ∈ f.children p) : p ∈ f.preorder := by
  by_contra hp
  rw [children_of_notMem hp] at hb
  cases hb

theorem children_node_cases (hf : (node a kids next).preorder.Nodup)
    (hb : b ∈ (node a kids next).children p) :
    (a = p ∧ b ∈ kids.roots ∧ b ≠ a ∧ b ∈ kids.preorder) ∨
      (a ≠ p ∧ b ∈ kids.children p ∧ b ≠ a ∧ b ∈ kids.preorder ∧ p ∈ kids.preorder) ∨
      a ≠ p ∧ b ∈ next.children p ∧ b ≠ a ∧ b ∉ kids.preorder ∧ p ∉ kids.preorder := by
  obtain ⟨⟨ha, han⟩, -, -, hd⟩ := nodup_node.1 hf
  rcases mem_append.1 hb with hr | hb
  · split at hr
    · next hap =>
      have hk := roots_subset hr
      exact .inl ⟨hap, hr, fun heq => ha (heq ▸ hk), hk⟩
    · cases hr
  · rcases mem_append.1 hb with hk | hn
    · have hi := children_subset hk
      have hp := parent_mem hk
      exact .inr (.inl ⟨fun heq => ha (heq ▸ hp), hk, fun heq => ha (heq ▸ hi), hi, hp⟩)
    · have hi := children_subset hn
      have hp := parent_mem hn
      exact .inr (.inr ⟨fun heq => han (heq ▸ hp), hn, fun heq => han (heq ▸ hi),
        fun h => hd b h hi, fun h => hd p h hp⟩)

theorem depth_root (hf : f.preorder.Nodup) (hb : b ∈ f.roots) : f.depth b = 0 := by
  induction f with
  | nil => cases hb
  | node a kids next _ i =>
    obtain ⟨-, -, hn, hd⟩ := nodup_node.1 hf
    unfold depth
    split
    · rfl
    · next he =>
      rcases mem_cons.1 hb with rfl | hb
      · exact absurd rfl he
      · rw [if_neg fun h => hd b h (roots_subset hb), i hn hb]

/-- **A child is one deeper than its parent.** -/
theorem depth_child (hf : f.preorder.Nodup) (hb : b ∈ f.children p) :
    f.depth b = f.depth p + 1 := by
  induction f with
  | nil => cases hb
  | node a ks n i ih =>
    obtain ⟨-, hk, hn, -⟩ := nodup_node.1 hf
    unfold depth
    rcases children_node_cases hf hb with ⟨hap, hr, ha, hbk⟩ | ⟨hap, hbk, ha, hi, hp⟩ |
      ⟨hap, hbn, ha, hbk, hp⟩
    · rw [if_neg (Ne.symm ha), if_pos hbk, if_pos hap, depth_root hk hr]
    · rw [if_neg (Ne.symm ha), if_pos hi, if_neg hap, if_pos hp, i hk hbk]
    · rw [if_neg (Ne.symm ha), if_neg hbk, if_neg hap, if_neg hp, ih hn hbn]

theorem depth_lt (hb : b ∈ f.preorder) : f.depth b < f.preorder.length := by
  induction f with
  | nil => cases hb
  | node a kids next ih i =>
    have hl : (node a kids next).preorder.length =
        kids.preorder.length + next.preorder.length + 1 := by
      simp [preorder]
    unfold depth
    split
    · omega
    next he =>
    split
    · next hk =>
      have := ih hk
      omega
    · next hk =>
      have hn : b ∈ next.preorder := by
        rcases mem_cons.1 hb with rfl | hb
        · exact absurd rfl he
        · exact (mem_append.1 hb).resolve_left hk
      have := i hn
      omega

theorem rootOf_root (hf : f.preorder.Nodup) (hb : b ∈ f.roots) : f.rootOf b = some b := by
  induction f with
  | nil => cases hb
  | node a ks n _ i =>
    obtain ⟨⟨ha, -⟩, -, hn, hd⟩ := nodup_node.1 hf
    unfold rootOf
    rcases mem_cons.1 hb with rfl | hb
    · rw [if_pos (.inl rfl)]
    have hbn := roots_subset hb
    have ho : ¬(a = b ∨ b ∈ ks.preorder) := by
      rintro (rfl | hk)
      · exact (nodup_node.1 hf).1.2 hbn
      · exact hd b hk hbn
    rw [if_neg ho, i hn hb]

theorem rootOf_child (hf : f.preorder.Nodup) (hb : b ∈ f.children p) : f.rootOf b = f.rootOf p := by
  induction f with
  | nil => cases hb
  | node a ks n ih i =>
    obtain ⟨-, -, hn, -⟩ := nodup_node.1 hf
    unfold rootOf
    rcases children_node_cases hf hb with ⟨ha, hr, hba, hk⟩ | ⟨ha, hk, hba, hi, hp⟩ |
      ⟨ha, hbn, hba, hk, hp⟩
    · rw [if_pos (.inr hk), if_pos (.inl ha)]
    · rw [if_pos (.inr hi), if_pos (.inr hp)]
    · rw [if_neg (by simp [Ne.symm hba, hk]), if_neg (by simp [ha, hp]), i hn hbn]

theorem rootOf_of_notMem (hb : b ∉ f.preorder) : f.rootOf b = none := by
  induction f with
  | nil => rfl
  | node a ks n _ i =>
    simp only [preorder, mem_cons, mem_append, not_or] at hb
    obtain ⟨ha, hk, hn⟩ := hb
    unfold rootOf
    rw [if_neg (by simp [Ne.symm ha, hk]), i hn]

theorem parent?_of_notMem (hb : b ∉ f.preorder) : f.parent? b = none := by
  induction f with
  | nil => rfl
  | node a ks n ih i =>
    simp only [preorder, mem_cons, mem_append, not_or] at hb
    obtain ⟨-, hk, hn⟩ := hb
    unfold parent?
    rw [if_neg fun h => hk (roots_subset h), ih hk, i hn]
    rfl

theorem root_notMem_children (hf : f.preorder.Nodup) (hb : b ∈ f.roots) : b ∉ f.children p := by
  intro hc
  have hd := depth_child hf hc
  rw [depth_root hf hb] at hd
  omega

theorem parent?_child (hf : f.preorder.Nodup) (hb : b ∈ f.children p) : f.parent? b = some p := by
  induction f with
  | nil => cases hb
  | node a ks n i ih =>
    obtain ⟨-, hk, hn, hd⟩ := nodup_node.1 hf
    unfold parent?
    rcases children_node_cases hf hb with ⟨rfl, hr, -, -⟩ | ⟨-, hbk, -, -, -⟩ | ⟨-, hbn, -, ho, -⟩
    · rw [if_pos hr]
    · rw [if_neg fun h => root_notMem_children hk h hbk, i hk hbk]
      rfl
    · rw [if_neg fun h => ho (roots_subset h), parent?_of_notMem ho, ih hn hbn]
      rfl

/-! ### The visible nodes -/

variable {isOpen io : α → Bool}

omit [DecidableEq α] in
theorem length_visible_le : (f.visible io).length ≤ f.preorder.length := by
  induction f with
  | nil => exact Nat.le_refl _
  | node a ks n ih i =>
    unfold visible preorder
    simp only [length_cons, length_append]
    split
    · omega
    · simp only [length_nil]
      omega

/-- What is visible of one tree: its root, and below it if it is open. -/
def visibleFrom (isOpen : α → Bool) (f : Forest α) (a : α) : List α :=
  a :: (if isOpen a then (f.under a).visible isOpen else [])

theorem roots_under (hf : f.preorder.Nodup) : (f.under a).roots = f.children a := by
  induction f with
  | nil => rfl
  | node b ks n i ih =>
    obtain ⟨⟨hbk, hbn⟩, hk, hn, hd⟩ := nodup_node.1 hf
    unfold under children
    by_cases hb : b = a
    · subst hb
      rw [if_pos rfl, if_pos rfl, children_of_notMem hbk, children_of_notMem hbn, append_nil,
        append_nil]
    · rw [if_neg hb, if_neg hb, nil_append]
      by_cases ha : a ∈ ks.preorder
      · rw [if_pos ha, i hk, children_of_notMem (hd a ha), append_nil]
      · rw [if_neg ha, ih hn, children_of_notMem ha, nil_append]

theorem under_subset : (f.under a).preorder ⊆ f.preorder := by
  induction f with
  | nil => exact fun _ h => h
  | node b ks n ih i =>
    intro c hc
    unfold under at hc
    refine mem_cons_of_mem _ ?_
    split at hc
    · exact mem_append_left _ hc
    · split at hc
      · exact mem_append_left _ (ih hc)
      · exact mem_append_right _ (i hc)

theorem nodup_under (hf : f.preorder.Nodup) : (f.under a).preorder.Nodup := by
  induction f with
  | nil => exact hf
  | node b ks n ih i =>
    obtain ⟨-, hk, hn, -⟩ := nodup_node.1 hf
    unfold under
    split
    · exact hk
    · split
      · exact ih hk
      · exact i hn

/-- What is below a node that is below another. -/
theorem under_under (hf : f.preorder.Nodup) (hb : b ∈ (f.under a).preorder) :
    (f.under a).under b = f.under b := by
  induction f with
  | nil => cases hb
  | node c ks n i ih =>
    obtain ⟨⟨hck, hcn⟩, hk, hn, hd⟩ := nodup_node.1 hf
    have hs : ∀ x, (node c ks n).under x =
        if c = x then ks else if x ∈ ks.preorder then ks.under x else n.under x :=
      fun _ => rfl
    rw [hs a] at hb ⊢
    rw [hs b]
    by_cases hca : c = a
    · rw [if_pos hca] at hb ⊢
      have hc : c ≠ b := by
        rintro rfl
        exact hck hb
      rw [if_neg hc, if_pos hb]
    · rw [if_neg hca] at hb ⊢
      by_cases ha : a ∈ ks.preorder
      · rw [if_pos ha] at hb ⊢
        have hbk := under_subset hb
        have hc : c ≠ b := by
          rintro rfl
          exact hck hbk
        rw [if_neg hc, if_pos hbk, i hk hb]
      · rw [if_neg ha] at hb ⊢
        have hbn := under_subset hb
        have hc : c ≠ b := by
          rintro rfl
          exact hcn hbn
        rw [if_neg hc, if_neg fun h => hd b h hbn, ih hn hb]

theorem visible_eq (hf : f.preorder.Nodup) :
    f.visible isOpen = f.roots.flatMap (f.visibleFrom isOpen) := by
  induction f with
  | nil => rfl
  | node a kids next _ i =>
    obtain ⟨⟨-, han⟩, -, hn, hd⟩ := nodup_node.1 hf
    have hs : (node a kids next).under a = kids := if_pos rfl
    show a :: (_ ++ next.visible isOpen) = (a :: next.roots).flatMap _
    rw [flatMap_cons, i hn]
    unfold visibleFrom
    rw [hs, cons_append]
    congr 2
    refine flatMap_congr fun c hc => ?_
    have hcn := roots_subset hc
    have hsa : (node a kids next).under c = next.under c := by
      have ha : a ≠ c := by
        rintro rfl
        exact han hcn
      show (if a = c then kids else if c ∈ kids.preorder then kids.under c else next.under c) = _
      rw [if_neg ha, if_neg fun h => hd c h hcn]
    rw [hsa]

/-- **A visible node comes before what is visible of its children, if it is open.** -/
theorem visibleFrom_eq (hf : f.preorder.Nodup) : f.visibleFrom io a =
    a :: (if io a then (f.children a).flatMap (f.visibleFrom io) else []) := by
  show a :: _ = _
  congr 1
  split
  · rw [visible_eq (nodup_under hf), roots_under hf]
    refine flatMap_congr fun c hc => ?_
    rw [← roots_under hf] at hc
    unfold visibleFrom
    rw [under_under hf (roots_subset hc)]
  · rfl

end Forest
end TradutorLinux
