import Mathlib.Algebra.Group.Nat.Defs
import Mathlib.Data.List.Basic

/-!
# The tree view

A tree view keeps its items in one vector; an item names its parent, and the
order of siblings is the order in which they stand in the vector, between
whatever else stands there.

## Main definitions

* `TreeView` — the items, the next handle and the selection.
* `treeInsertPosition` — where a new item goes in the vector.
* `treeVisibleItems`
* `TreeView.handle` — `handle_tree_message`, but for `TVM_GETITEM`.
-/

namespace TradutorLinux

/-! ### States and messages -/

/-- A string of bytes in UTF-8. -/
abbrev TreeText := List UInt8

/-- An item of the vector; the parent of a root is 0. -/
structure TreeItem where
  handle : ℕ
  parent : ℕ
  itemData : ℕ
  text : TreeText
  expanded : Bool
deriving DecidableEq

/-- What a window keeps for its tree. -/
structure TreeView where
  items : List TreeItem := []
  nextHandle : ℕ := 1
  selected : ℕ := 0

def kTreeRootHandle : ℕ := 2 ^ 64 - 1 - 0xFFFF
def kTreeFirstHandle : ℕ := 2 ^ 64 - 1 - 0xFFFE
def kTreeLastHandle : ℕ := 2 ^ 64 - 1 - 0xFFFD
def kTreeSortHandle : ℕ := 2 ^ 64 - 1 - 0xFFFC
def kTreeItemLimit : ℕ := 4096
def kIntMax : ℕ := 2 ^ 31 - 1

/-- `TVINSERTSTRUCT`; the text is missing where it could not be read. -/
structure TreeInsertRequest where
  rawParent : ℕ
  insertAfter : ℕ
  mask : UInt32
  text : Option TreeText
  param : ℕ

/-- `TVITEM` of a `TVM_SETITEM`. -/
structure TreeItemRequest where
  item : ℕ
  mask : UInt32
  text : Option TreeText
  param : ℕ

def kTreeItemText : UInt32 := 0x0001
def kTreeItemParam : UInt32 := 0x0004

/-- The operations of `TVM_EXPAND`. -/
def kTreeCollapse : ℕ := 1
def kTreeExpandAction : ℕ := 2
def kTreeToggle : ℕ := 3
def kTreeCollapseReset : ℕ := 0x8000

/-- The relations of `TVM_GETNEXTITEM`. -/
def kTreeGetRoot : ℕ := 0
def kTreeGetNext : ℕ := 1
def kTreeGetPrevious : ℕ := 2
def kTreeGetParent : ℕ := 3
def kTreeGetChild : ℕ := 4
def kTreeGetNextVisible : ℕ := 6
def kTreeGetPreviousVisible : ℕ := 7
def kTreeGetCaret : ℕ := 9

/-- The messages; a request that cannot be read is missing. -/
inductive TreeMessage
  | insertItem (unicode : Bool) (request : Option TreeInsertRequest)
  | deleteItem (lparam : ℕ)
  | expand (action lparam : ℕ)
  | getCount
  | getNextItem (relation lparam : ℕ)
  | selectItem (lparam : ℕ)
  | setItem (unicode : Bool) (request : Option TreeItemRequest)

inductive TreeError
  | success
  | invalidParameter
  | notEnoughMemory
deriving DecidableEq

/-- The result of a message, the last error if it is set, and the old and the new selection if
the parent window is notified. -/
structure TreeAnswer where
  result : ℕ
  lastError : Option TreeError := none
  notified : Option (ℕ × ℕ) := none
deriving DecidableEq

def TreeAnswer.invalid : TreeAnswer := { result := 0, lastError := some .invalidParameter }

def TreeAnswer.ok (result : ℕ) : TreeAnswer := { result := result, lastError := some .success }

/-! ### Lookups -/

def treeIsSpecialHandle (handle : ℕ) : Bool :=
  kTreeRootHandle ≤ handle && handle ≤ kTreeSortHandle

def treeFindItem (items : List TreeItem) (handle : ℕ) : Option TreeItem :=
  items.find? fun item => item.handle = handle

def treeItemIndex (items : List TreeItem) (handle : ℕ) : ℕ :=
  items.findIdx fun item => item.handle = handle

def treeParentHandle (raw : ℕ) : ℕ := if raw = 0 ∨ treeIsSpecialHandle raw = true then 0 else raw

/-! ### Insertion -/

/-- The indices that the loop of `tree_insert_position` looks for; the size means none. -/
structure SiblingScan where
  firstSibling : ℕ
  lastSibling : ℕ
  parentIndex : ℕ
  afterIndex : ℕ

/-- One round of the loop. -/
def siblingStep (size parent insertAfter : ℕ) (scan : SiblingScan) (x : TreeItem × ℕ) :
    SiblingScan :=
  let (item, index) := x
  let scan := if item.handle = parent then { scan with parentIndex := index } else scan
  if item.parent ≠ parent then scan
  else { scan with
    firstSibling := if scan.firstSibling = size then index else scan.firstSibling
    lastSibling := index
    afterIndex := if item.handle = insertAfter then index else scan.afterIndex }

def siblingScan (items : List TreeItem) (parent insertAfter : ℕ) : SiblingScan :=
  let size := items.length
  items.zipIdx.foldl (siblingStep size parent insertAfter) ⟨size, size, size, size⟩

/-- `tree_insert_position`. -/
def treeInsertPosition (items : List TreeItem) (parent insertAfter : ℕ) : ℕ :=
  let size := items.length
  let scan := siblingScan items parent insertAfter
  -- where the new item goes if no other place has been found for it
  let behind :=
    if scan.lastSibling ≠ size then scan.lastSibling + 1
    else if parent ≠ 0 ∧ scan.parentIndex ≠ size then scan.parentIndex + 1
    else size
  if insertAfter = kTreeFirstHandle then
    if scan.firstSibling ≠ size then scan.firstSibling else behind
  else if insertAfter ≠ 0 ∧ insertAfter ≠ kTreeLastHandle ∧ insertAfter ≠ kTreeSortHandle then
    if scan.afterIndex ≠ size then scan.afterIndex + 1 else size
  else behind

/-- The handle is none of those that name a place. -/
def namesSibling (insertAfter : ℕ) : Prop :=
  insertAfter ≠ 0 ∧ insertAfter ≠ kTreeFirstHandle ∧ insertAfter ≠ kTreeLastHandle ∧
    insertAfter ≠ kTreeSortHandle

instance (insertAfter : ℕ) : Decidable (namesSibling insertAfter) :=
  inferInstanceAs (Decidable (_ ∧ _))

namespace TreeView

variable (tree : TreeView)

/-- The sibling that the request names is not there. -/
def afterMissing (parent insertAfter : ℕ) : Bool :=
  match treeFindItem tree.items insertAfter with
  | none => true
  | some after => after.parent ≠ parent

/-- `tree_insert_item`. -/
def insertItem (request : Option TreeInsertRequest) : TreeView × TreeAnswer :=
  match request with
  | none => (tree, .invalid)
  | some request =>
    if kTreeItemLimit ≤ tree.items.length then (tree, .invalid)
    else
      let parent := treeParentHandle request.rawParent
      if parent ≠ 0 ∧ treeFindItem tree.items parent = none then (tree, .invalid)
      else if namesSibling request.insertAfter ∧
          tree.afterMissing parent request.insertAfter = true then (tree, .invalid)
      else if request.mask &&& kTreeItemText ≠ 0 ∧ request.text = none then (tree, .invalid)
      else if tree.nextHandle = 0 ∨ kIntMax < tree.nextHandle then
        (tree, { result := 0, lastError := some .notEnoughMemory })
      else
        let text := if request.mask &&& kTreeItemText ≠ 0 then request.text.getD [] else []
        let itemData := if request.mask &&& kTreeItemParam ≠ 0 then request.param else 0
        let handle := tree.nextHandle
        let position := treeInsertPosition tree.items parent request.insertAfter
        ({ tree with
            nextHandle := handle + 1
            items := tree.items.insertIdx position ⟨handle, parent, itemData, text, false⟩ },
          .ok handle)

/-! ### Deletion -/

/-- The walk from a parent upwards, of at most `n` rounds, meets the deleted item. -/
def meets (items : List TreeItem) (deleted : ℕ) : ℕ → ℕ → Bool
  | 0, _ => false
  | n + 1, parent =>
    if parent = 0 then false
    else if parent = deleted then true
    else match treeFindItem items parent with
      | none => false
      | some ancestor => meets items deleted n ancestor.parent

/-- `deleted_handles`. -/
def deletedHandles (items : List TreeItem) (deleted : ℕ) : List ℕ :=
  (items.filter fun candidate => candidate.handle = deleted ||
    meets items deleted items.length candidate.parent).map TreeItem.handle

/-- `TVM_DELETEITEM`. -/
def deleteItem (lparam : ℕ) : TreeView × TreeAnswer :=
  if lparam = 0 then ({ tree with items := [], selected := 0 }, .ok 1)
  else if treeFindItem tree.items lparam = none then (tree, .invalid)
  else
    let deleted := deletedHandles tree.items lparam
    ({ tree with
        items := tree.items.filter fun candidate => candidate.handle ∉ deleted
        selected := if tree.selected ∈ deleted then 0 else tree.selected },
      .ok 1)

/-! ### Visible items -/

/-- The loops that push the indices of the children, from the last to the first; the top of the
stack comes first. -/
def pushChildren (items : List TreeItem) (parent : ℕ) (pending : List ℕ) : List ℕ :=
  (List.range items.length).foldr (fun index pending =>
    if (items[index]?.map TreeItem.parent) = some parent then index :: pending else pending) pending

/-- The loop of `tree_visible_items`, for at most `n` rounds. -/
def visibleLoop (items : List TreeItem) : ℕ → List ℕ → List ℕ → Option (List ℕ)
  | _, [], result => some result
  | 0, _ :: _, _ => none
  | n + 1, index :: pending, result =>
    match items[index]? with
    | none => none
    | some item =>
      visibleLoop items n
        (if item.expanded = true then pushChildren items item.handle pending else pending)
        (result ++ [item.handle])

/-- `tree_visible_items`; every round gives one item, so that there are enough. -/
def treeVisibleItems (items : List TreeItem) : Option (List ℕ) :=
  visibleLoop items items.length (pushChildren items 0 []) []

/-! ### Relations -/

/-- The walk of `TVGN_ROOT`, for at most `n` rounds. -/
def rootLoop (items : List TreeItem) : ℕ → TreeItem → Option (Option ℕ)
  | 0, _ => none
  | n + 1, item =>
    if item.parent = 0 then some (some item.handle)
    else match treeFindItem items item.parent with
      | none => some none
      | some above => rootLoop items n above

/-- The handle of an item that a search has found, or 0. -/
def found (item : Option TreeItem) : TreeAnswer :=
  match item with
  | none => { result := 0 }
  | some item => .ok item.handle

/-- `tree_next_item`, if its loops end. -/
def nextItem (relation handle : ℕ) : Option TreeAnswer :=
  let items := tree.items
  if relation = kTreeGetCaret then some (.ok tree.selected)
  else if relation = kTreeGetRoot then
    if handle = 0 then some (found (items.find? fun item => item.parent = 0))
    else match treeFindItem items handle with
      | none => some .invalid
      | some item => (rootLoop items items.length item).map fun root =>
          match root with
          | none => .invalid
          | some root => .ok root
  else if relation = kTreeGetChild then
    if handle ≠ 0 ∧ treeFindItem items handle = none then some .invalid
    else some (found (items.find? fun item => item.parent = handle))
  else if relation = kTreeGetParent then
    match treeFindItem items handle with
    | none => some .invalid
    | some item => some (.ok item.parent)
  else if relation = kTreeGetNextVisible ∨ relation = kTreeGetPreviousVisible then
    (treeVisibleItems items).map fun visible =>
      match visible.idxOf? handle with
      | none => { result := 0,
                  lastError := some (if handle = 0 then .success else .invalidParameter) }
      | some index =>
        if relation = kTreeGetNextVisible then
          match visible[index + 1]? with
          | none => { result := 0 }
          | some next => .ok next
        else if index = 0 then { result := 0 }
        else match visible[index - 1]? with
          | none => { result := 0 }
          | some previous => .ok previous
  else match treeFindItem items handle with
    | none => some .invalid
    | some item =>
      if relation ≠ kTreeGetNext ∧ relation ≠ kTreeGetPrevious then some .invalid
      else
        let index := treeItemIndex items handle
        let sibling := if relation = kTreeGetNext then
            (items.drop (index + 1)).find? fun other => other.parent = item.parent
          else (items.take index).reverse.find? fun other => other.parent = item.parent
        match sibling with
        | none => some (.ok 0)
        | some sibling => some (.ok sibling.handle)

/-! ### Selection and items -/

/-- `tree_select_item`; the parent is notified once the selection is set. -/
def selectItem (selected : ℕ) : TreeView × TreeAnswer :=
  if selected ≠ 0 ∧ treeFindItem tree.items selected = none then (tree, .invalid)
  else if tree.selected ≠ selected then
    ({ tree with selected := selected },
      { TreeAnswer.ok 1 with notified := some (tree.selected, selected) })
  else (tree, .ok 1)

def modifyItem (handle : ℕ) (g : TreeItem → TreeItem) : TreeView :=
  { tree with items := tree.items.modify (treeItemIndex tree.items handle) g }

/-- `tree_expand_item`. -/
def expandItem (action lparam : ℕ) : TreeView × TreeAnswer :=
  match treeFindItem tree.items lparam with
  | none => (tree, .invalid)
  | some item =>
    let operation := action % 2 ^ 32 % 2 ^ 16
    let set := fun expanded => tree.modifyItem lparam fun item => { item with expanded := expanded }
    if operation = kTreeCollapse ∨ operation = kTreeCollapseReset then (set false, .ok 1)
    else if operation = kTreeExpandAction then (set true, .ok 1)
    else if operation = kTreeToggle then (set (!item.expanded), .ok 1)
    else (tree, .invalid)

/-- `tree_set_item`. -/
def setItem (request : Option TreeItemRequest) : TreeView × TreeAnswer :=
  match request with
  | none => (tree, .invalid)
  | some request =>
    if treeFindItem tree.items request.item = none then (tree, .invalid)
    else if request.mask &&& kTreeItemText ≠ 0 ∧ request.text = none then (tree, .invalid)
    else
      (tree.modifyItem request.item fun item => { item with
          text := if request.mask &&& kTreeItemText ≠ 0 then request.text.getD [] else item.text
          itemData := if request.mask &&& kTreeItemParam ≠ 0 then request.param
            else item.itemData },
        .ok 1)

/-- `handle_tree_message`, by the entry point for one kind of text, if its loops end. -/
def handle (wide : Bool) : TreeMessage → Option (TreeView × TreeAnswer)
  | .insertItem unicode request =>
    some (if unicode = wide then tree.insertItem request else (tree, { result := 0 }))
  | .deleteItem lparam => some (tree.deleteItem lparam)
  | .expand action lparam => some (tree.expandItem action lparam)
  | .getCount => some (tree, .ok tree.items.length)
  | .getNextItem relation lparam => (tree.nextItem relation lparam).map fun a => (tree, a)
  | .selectItem lparam => some (tree.selectItem lparam)
  | .setItem unicode request =>
    some (if unicode = wide then tree.setItem request else (tree, { result := 0 }))

end TreeView
end TradutorLinux
