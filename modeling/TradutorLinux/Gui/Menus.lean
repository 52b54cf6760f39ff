import TradutorLinux.Process.Unicode

/-!
# Menus

Menus live in 256 slots.  An item points to the slot of its submenu, and a slot
keeps two lists: the items, and what a popup is to show of them.

## Main definitions

* `MenuSlot`, `MenuState`
* `destroyMenuTree` — a menu is freed with its submenus.
* `parseMenuTemplate` — the parser of extended templates, which allocates as it goes.
* `MenuState.call` — one call of the guest.
-/

namespace TradutorLinux

open Function

open Process

/-! ### Slots -/

abbrev MenuIndex := Fin 256

/-- A pointer to a slot.  The serial number says which of the menus that the slot holds, one after
the other, it was when the pointer was set; the source has no such number, and nothing in the
calls looks at it. -/
structure SubmenuPointer where
  slot : MenuIndex
  serial : ℕ
deriving DecidableEq

structure MenuItem where
  type : UInt32 := 0
  state : UInt32 := 0
  commandId : UInt32 := 0
  flags : UInt16 := 0
  text : ByteString := []
  submenu : Option SubmenuPointer := none
deriving DecidableEq

structure PopupMenuItem where
  command : UInt32
  text : ByteString
  separator : Bool
deriving DecidableEq

/-- A slot, with the serial number of the menu that it holds. -/
structure MenuSlot where
  used : Bool := false
  items : List PopupMenuItem := []
  logicalItems : List MenuItem := []
  serial : ℕ := 0
deriving DecidableEq

abbrev Menus := MenuIndex → MenuSlot

/-- `g_menus`, how many menus there have been, and how many items the dummy menu has. -/
structure MenuState where
  menus : Menus := fun _ => {}
  allocated : ℕ := 0
  dummyCount : ℕ := 5

def kMenuItemPopup : UInt16 := 0x0001
def kMenuItemLast : UInt16 := 0x0080
def kMenuTypeSeparator : UInt32 := 0x00000800
def kMenuItemInfoState : UInt32 := 0x00000001
def kMenuItemInfoId : UInt32 := 0x00000002
def kMenuItemInfoSubmenu : UInt32 := 0x00000004
def kMenuItemInfoCheckmarks : UInt32 := 0x00000008
def kMenuItemInfoType : UInt32 := 0x00000010
def kMenuItemInfoData : UInt32 := 0x00000020
def kMenuItemInfoString : UInt32 := 0x00000040
def kMenuItemInfoBitmap : UInt32 := 0x00000080
def kMenuItemInfoFType : UInt32 := 0x00000100
def kMenuByPosition : UInt32 := 0x00000400
def kMenuStateChecked : UInt32 := 0x00000008

/-- A handle, as the guest passes it. -/
inductive MenuHandle
  | null
  | slot (index : MenuIndex)
  | dummyMenu
  | other
deriving DecidableEq

inductive MenuError
  | success
  | invalidParameter
  | invalidHandle
  | badLength
  | notSupported
  | notEnoughMemory
deriving DecidableEq

/-- What a call returns: a handle or null, a truth value, or the old state of an item, where the
word of all ones is a failure. -/
inductive MenuResult
  | handle (menu : Option MenuIndex)
  | truth (ok : Bool)
  | previous (state : Option UInt32)
deriving DecidableEq

/-- The result, and the last error if it is set. -/
structure MenuAnswer where
  result : MenuResult
  lastError : Option MenuError
deriving DecidableEq

/-- The call reports a failure. -/
def MenuAnswer.failed (answer : MenuAnswer) : Bool :=
  match answer.result with
  | .handle none | .truth false | .previous none => true
  | _ => false

/-! ### Items -/

def MenuItem.popup (item : MenuItem) : PopupMenuItem :=
  ⟨item.commandId, item.text, item.type &&& kMenuTypeSeparator ≠ 0⟩

def rebuildPopupItems (menu : MenuSlot) : MenuSlot :=
  { menu with items := menu.logicalItems.map MenuItem.popup }

def menuItemIndex (items : List MenuItem) (item : UInt32) (byPosition : Bool) : Option ℕ :=
  if byPosition then if item.toNat < items.length then some item.toNat else none
  else items.findIdx? fun entry => entry.commandId = item

/-- The submenus that `destroy_menu_tree` goes down into, of which it keeps no more than 256. -/
def submenuSlots (menu : MenuSlot) : List MenuIndex :=
  (menu.logicalItems.filterMap fun item => item.submenu.map SubmenuPointer.slot).take 256

/-- A slot is cleared once the used ones of its submenus have been.  A recursion deeper than there
are slots meets one of them a second time, and never ends. -/
def destroyMenuTree : ℕ → Menus → MenuIndex → Option Menus
  | 0, _, _ => none
  | depth + 1, menus, menu =>
    ((submenuSlots (menus menu)).foldlM (fun menus child =>
      if child ≠ menu ∧ (menus child).used = true then destroyMenuTree depth menus child
      else some menus) menus).map fun menus => update menus menu {}

/-- How deep the recursion can be. -/
def kDestroyDepth : ℕ := 256

namespace MenuState

variable (s : MenuState)

def mutableMenuSlot (menu : MenuHandle) : Option MenuIndex :=
  match menu with
  | .slot index => if (s.menus index).used = true then some index else none
  | _ => none

def freeSlot : Option MenuIndex :=
  (List.finRange 256).find? fun index => (s.menus index).used = false

def setSlot (index : MenuIndex) (menu : MenuSlot) : MenuState :=
  { s with menus := update s.menus index menu }

/-- `allocate_menu_slot`. -/
def allocateMenuSlot : Option (MenuState × MenuIndex) :=
  s.freeSlot.map fun index =>
    ({ s with
        menus := update s.menus index { used := true, serial := s.allocated + 1 }
        allocated := s.allocated + 1 }, index)

/-- `destroy_menu_tree`; nothing if it does not end. -/
def destroyTree (menu : MenuIndex) : Option MenuState :=
  (destroyMenuTree kDestroyDepth s.menus menu).map fun menus => { s with menus := menus }

def pushItem (menu : MenuIndex) (item : MenuItem) : MenuState :=
  s.setSlot menu
    { s.menus menu with logicalItems := (s.menus menu).logicalItems ++ [item] }

/-- Without the last of the logical items. -/
def popItem (menu : MenuIndex) : MenuState :=
  s.setSlot menu { s.menus menu with logicalItems := (s.menus menu).logicalItems.dropLast }

end MenuState

/-! ### Templates -/

/-- The loop of `read_text`, for at most `n` rounds: the text, and what follows it. -/
def readTextLoop (bytes : ByteString) : ℕ → ℕ → List UInt16 → Option (ByteString × ℕ)
  | 0, _, _ => none
  | n + 1, cursor, units =>
    match readLE bytes cursor 2 with
    | none => none
    | some unit =>
      if unit = 0 then
        let next := (cursor + 2 + 3) / 4 * 4
        if next ≤ bytes.length then some (wideToUtf8 units, next) else none
      else readTextLoop bytes n (cursor + 2) (units ++ [UInt16.ofNat unit])

def readText (bytes : ByteString) (offset : ℕ) : Option (ByteString × ℕ) :=
  readTextLoop bytes 4097 offset []

/-- The fields of an item and what follows its text. -/
def readTemplateItem (bytes : ByteString) (cursor : ℕ) : Option (MenuItem × ℕ) := do
  let type ← readLE bytes cursor 4
  let state ← readLE bytes (cursor + 4) 4
  let commandId ← readLE bytes (cursor + 8) 4
  let flags ← readLE bytes (cursor + 12) 2
  let (text, afterText) ← readText bytes (cursor + 14)
  let type := UInt32.ofNat type
  pure ({ type := type, state := .ofNat state, commandId := .ofNat commandId, flags := .ofNat flags,
          text := if type &&& kMenuTypeSeparator ≠ 0 then [] else text }, afterText)

/-- The slots, and how many items the parser has begun. -/
structure MenuTemplateParser where
  state : MenuState
  parsedItems : ℕ

def kTemplateItems : ℕ := 1024
def kTemplateDepth : ℕ := 16

/-- The loop of `parse_extended_list`, from an item on; what follows the list if the loop ends
well.  Every round begins an item, also in the lists below, so that there are at most
`kTemplateItems + 1`. -/
def parseItems (bytes : ByteString) :
    ℕ → MenuTemplateParser → ℕ → MenuIndex → ℕ → Option (MenuTemplateParser × Option ℕ)
  | 0, parser, _, _, _ => some (parser, none)
  | n + 1, parser, cursor, menu, depth =>
    let parser := { parser with parsedItems := parser.parsedItems + 1 }
    if kTemplateItems < parser.parsedItems ∨ bytes.length < cursor + 14 then some (parser, none)
    else match readTemplateItem bytes cursor with
      | none => some (parser, none)
      | some (item, afterText) =>
        if item.flags &&& kMenuItemPopup ≠ 0 then
          match parser.state.allocateMenuSlot with
          | none => some (parser, none)
          | some (state, submenu) =>
            if (readLE bytes afterText 4).isNone then
              (state.destroyTree submenu).map fun state => ({ parser with state := state }, none)
            else
              let pointer := ⟨submenu, (state.menus submenu).serial⟩
              let parser :=
                { parser with state := state.pushItem menu { item with submenu := some pointer } }
              let below := if kTemplateDepth < depth + 1 then some (parser, none)
                else parseItems bytes n parser (afterText + 4) submenu (depth + 1)
              match below with
              | none => none
              | some (parser, none) =>
                -- the item is taken back with all that has been allocated below it
                ((parser.state.popItem menu).destroyTree submenu).map fun state =>
                  ({ parser with state := state }, none)
              | some (parser, some afterList) =>
                if item.flags &&& kMenuItemLast ≠ 0 then some (parser, some afterList)
                else parseItems bytes n parser afterList menu depth
        else
          let parser := { parser with state := parser.state.pushItem menu item }
          if item.flags &&& kMenuItemLast ≠ 0 then some (parser, some afterText)
          else parseItems bytes n parser afterText menu depth

/-- `parse_menu_template`, into a slot that has been allocated: the slots, and whether the
template is accepted. -/
def parseMenuTemplate (bytes : ByteString) (s : MenuState) (menu : MenuIndex) :
    Option (MenuState × Bool) :=
  if bytes.length < 8 then some (s, false)
  else match readLE bytes 0 2, readLE bytes 2 2 with
    | some version, some offset =>
      if version ≠ 1 ∨ bytes.length < 4 + offset then some (s, false)
      else (parseItems bytes (kTemplateItems + 1) ⟨s, 0⟩ (4 + offset) menu 0).map
        fun (parser, next) => (parser.state, next.isSome)
    | _, _ => some (s, false)

/-! ### Calls -/

/-- `MENUITEMINFOW`; a text is null, or may be one that cannot be copied. -/
structure MenuItemInfo where
  cbSize : ℕ
  mask : UInt32
  type : UInt32 := 0
  state : UInt32 := 0
  itemId : UInt32 := 0
  subMenu : MenuHandle := .null
  bitmaps : Bool := false
  typeData : Option (Option (List UInt16)) := none

/-- The calls; the first argument of some says whether the thread may use the user interface.
A text is null, or may be one that cannot be copied. -/
inductive MenuCall
  | createPopupMenu (gui : Bool)
  | loadMenuW (resource : Option ByteString)
  | appendMenuA (gui : Bool) (menu : MenuHandle) (flags : UInt32) (command : ℕ)
      (text : Option (Option ByteString))
  | appendMenuW (gui : Bool) (menu : MenuHandle) (flags : UInt32) (command : ℕ)
      (text : Option (Option (List UInt16)))
  | insertMenuItemW (gui : Bool) (menu : MenuHandle) (item : UInt32) (byPosition : Bool)
      (info : Option MenuItemInfo)
  | deleteMenu (menu : MenuHandle) (position flags : UInt32)
  | checkMenuItem (gui : Bool) (menu : MenuHandle) (item check : UInt32)
  | checkMenuRadioItem (gui : Bool) (menu : MenuHandle) (first last check flags : UInt32)
  | destroyMenu (gui : Bool) (menu : MenuHandle)

/-- The longest text of `AppendMenuA`, with its zero. -/
def kMenuTextLimit : ℕ := 65535

namespace MenuState

variable (s : MenuState)

def truth (ok : Bool) (error : MenuError) : MenuAnswer := ⟨.truth ok, some error⟩

def createPopupMenu : MenuState × MenuAnswer :=
  match s.freeSlot with
  | none => (s, ⟨.handle none, some .notEnoughMemory⟩)
  | some index =>
    ({ s with
        menus := update s.menus index
          { used := true, items := [], logicalItems := [], serial := s.allocated + 1 }
        allocated := s.allocated + 1 },
      ⟨.handle (some index), some .success⟩)

/-- `LoadMenuW`, once the resource has been looked for. -/
def loadMenuW (resource : Option ByteString) : Option (MenuState × MenuAnswer) :=
  match resource with
  | none => some (s, ⟨.handle none, none⟩)
  | some bytes =>
    if bytes = [] then some (s, ⟨.handle none, none⟩)
    else match s.allocateMenuSlot with
      | none => some (s, ⟨.handle none, some .badLength⟩)
      | some (s, menu) =>
        match parseMenuTemplate bytes s menu with
        | none => none
        | some (s, false) =>
          (s.destroyTree menu).map fun s => (s, ⟨.handle none, some .badLength⟩)
        | some (s, true) => some (s, ⟨.handle (some menu), some .success⟩)

/-- `AppendMenuA`, with a text that has been copied. -/
def append (menu : MenuHandle) (flags : UInt32) (command : ℕ) (text : ByteString) :
    MenuState × MenuAnswer :=
  match s.mutableMenuSlot menu with
  | none => (s, truth false .invalidHandle)
  | some index =>
    let slot := s.menus index
    let command := UInt32.ofNat command
    (s.setSlot index { slot with
        items := slot.items ++ [⟨command, text, flags &&& 0x00000800 ≠ 0⟩]
        logicalItems := slot.logicalItems ++
          [{ type := flags, state := 0, commandId := command, flags := 0, text := text,
             submenu := none }] },
      truth true .success)

def appendMenuA (gui : Bool) (menu : MenuHandle) (flags : UInt32) (command : ℕ)
    (text : Option (Option ByteString)) : MenuState × MenuAnswer :=
  if gui = false then (s, ⟨.truth false, none⟩)
  else match text with
    | some none => (s, truth false .invalidParameter)
    | some (some text) => s.append menu flags command text
    | none => s.append menu flags command []

def appendMenuW (gui : Bool) (menu : MenuHandle) (flags : UInt32) (command : ℕ)
    (text : Option (Option (List UInt16))) : MenuState × MenuAnswer :=
  match text with
  | some none => (s, truth false .invalidParameter)
  | some (some text) =>
    let utf8 := wideToUtf8 text
    s.appendMenuA gui menu flags command
      (some (if utf8.length < kMenuTextLimit then some utf8 else none))
  | none => s.appendMenuA gui menu flags command none

/-- `read_guest_menu_item_info`. -/
def readGuestMenuItemInfo (mii : Option MenuItemInfo) : Except MenuError MenuItem :=
  match mii with
  | none => .error .invalidParameter
  | some input =>
    let hasSubmenu := input.mask &&& kMenuItemInfoSubmenu ≠ 0
    let hasText := input.mask &&& (kMenuItemInfoType ||| kMenuItemInfoString) ≠ 0
    let submenu := s.mutableMenuSlot input.subMenu
    if input.cbSize < 80 then .error .badLength
    else if input.mask &&& (kMenuItemInfoData ||| kMenuItemInfoBitmap) ≠ 0 then
      .error .notSupported
    else if hasSubmenu ∧ input.subMenu ≠ .null ∧ submenu = none then .error .invalidHandle
    else if hasText ∧ input.typeData = some none then .error .invalidParameter
    else if input.mask &&& kMenuItemInfoCheckmarks ≠ 0 ∧ input.bitmaps = true then
      .error .notSupported
    else .ok
      { type := if input.mask &&& (kMenuItemInfoType ||| kMenuItemInfoFType) ≠ 0 then input.type
          else 0
        state := if input.mask &&& kMenuItemInfoState ≠ 0 then input.state else 0
        commandId := if input.mask &&& kMenuItemInfoId ≠ 0 then input.itemId else 0
        submenu := if hasSubmenu then submenu.map fun index => ⟨index, (s.menus index).serial⟩
          else none
        text := if hasText then
            match input.typeData with
            | some (some text) => wideToUtf8 text
            | _ => []
          else [] }

def insertMenuItemW (gui : Bool) (menu : MenuHandle) (item : UInt32) (byPosition : Bool)
    (info : Option MenuItemInfo) : MenuState × MenuAnswer :=
  if gui = false then (s, ⟨.truth false, none⟩)
  else match s.mutableMenuSlot menu with
    | none => (s, truth false .invalidHandle)
    | some index =>
      let slot := s.menus index
      match s.readGuestMenuItemInfo info with
      | .error error => (s, truth false error)
      | .ok inserted =>
        let position := if byPosition = true then
            if slot.logicalItems.length < item.toNat then none else some item.toNat
          else slot.logicalItems.findIdx? fun entry => entry.commandId = item
        match position with
        | none => (s, truth false .invalidParameter)
        | some position =>
          let inserted :=
            { inserted with flags := if inserted.submenu.isSome then kMenuItemPopup else 0 }
          (s.setSlot index (rebuildPopupItems
              { slot with logicalItems := slot.logicalItems.insertIdx position inserted }),
            truth true .success)

/-- `DeleteMenu`; nothing if the submenus are not to an end, or if the menu itself is freed with
them, and its list of items with it. -/
def deleteMenu (menu : MenuHandle) (position flags : UInt32) : Option (MenuState × MenuAnswer) :=
  let byPosition := decide (flags &&& kMenuByPosition ≠ 0)
  if menu = .dummyMenu then
    if byPosition = true ∧ position.toNat < s.dummyCount then
      some ({ s with dummyCount := s.dummyCount - 1 }, truth true .success)
    else some (s, truth false .invalidParameter)
  else match s.mutableMenuSlot menu with
    | none => some (s, truth false .invalidHandle)
    | some index =>
      match menuItemIndex (s.menus index).logicalItems position byPosition with
      | none => some (s, truth false .invalidParameter)
      | some i => do
        let submenu := ((s.menus index).logicalItems[i]?.bind MenuItem.submenu)
        let s ← match submenu with
          | none => some s
          | some pointer =>
            if (s.menus pointer.slot).used = true then s.destroyTree pointer.slot else some s
        if (s.menus index).used = false then none
        else
          let slot := s.menus index
          pure (s.setSlot index (rebuildPopupItems
              { slot with logicalItems := slot.logicalItems.eraseIdx i }),
            truth true .success)

def checkMenuItem (gui : Bool) (menu : MenuHandle) (item check : UInt32) :
    MenuState × MenuAnswer :=
  if gui = false then (s, ⟨.previous none, none⟩)
  else match s.mutableMenuSlot menu with
    | none => (s, ⟨.previous none, some .invalidHandle⟩)
    | some index =>
      let slot := s.menus index
      match menuItemIndex slot.logicalItems item (check &&& kMenuByPosition ≠ 0) with
      | none => (s, ⟨.previous none, some .invalidHandle⟩)
      | some i =>
        let state := ((slot.logicalItems[i]?.map MenuItem.state).getD 0)
        let set := if check &&& kMenuStateChecked ≠ 0 then state ||| kMenuStateChecked
          else state &&& ~~~kMenuStateChecked
        (s.setSlot index
            { slot with logicalItems := slot.logicalItems.modify i fun entry =>
                { entry with state := set } },
          ⟨.previous (some (state &&& kMenuStateChecked)), some .success⟩)

/-- The number by which `CheckMenuRadioItem` knows an item. -/
def radioValue (byPosition : Bool) (index : ℕ) (entry : MenuItem) : UInt32 :=
  if byPosition = true then .ofNat index else entry.commandId

/-- The items of a menu as the loop of `CheckMenuRadioItem` leaves them. -/
def radioItems (items : List MenuItem) (byPosition : Bool) (first last check : UInt32) :
    List MenuItem :=
  items.mapIdx fun index entry =>
    let value := radioValue byPosition index entry
    if value < first ∨ last < value then entry
    else if value = check then { entry with state := entry.state ||| kMenuStateChecked }
    else { entry with state := entry.state &&& ~~~kMenuStateChecked }

def radioRange (items : List MenuItem) (byPosition : Bool) (first last : UInt32) : List UInt32 :=
  (items.mapIdx (radioValue byPosition)).filter fun value => ¬(value < first ∨ last < value)

def checkMenuRadioItem (gui : Bool) (menu : MenuHandle) (first last check flags : UInt32) :
    MenuState × MenuAnswer :=
  if gui = false then (s, ⟨.truth false, none⟩)
  else match s.mutableMenuSlot menu with
    | none => (s, truth false .invalidHandle)
    | some index =>
      if last < first then (s, truth false .invalidHandle)
      else
        let byPosition := decide (flags &&& kMenuByPosition ≠ 0)
        let slot := s.menus index
        let range := radioRange slot.logicalItems byPosition first last
        let edited := s.setSlot index
          { slot with logicalItems := radioItems slot.logicalItems byPosition first last check }
        if range = [] ∨ check ∉ range then (edited, truth false .invalidParameter)
        else (edited, truth true .success)

def destroyMenu (gui : Bool) (menu : MenuHandle) : Option (MenuState × MenuAnswer) :=
  if gui = false then some (s, ⟨.truth false, none⟩)
  else match s.mutableMenuSlot menu with
    | none => some (s, truth false .invalidHandle)
    | some index => (s.destroyTree index).map fun s => (s, truth true .success)

/-- One call; nothing if it does not come back. -/
def call : MenuCall → Option (MenuState × MenuAnswer)
  | .createPopupMenu gui =>
    some (if gui = false then (s, ⟨.handle none, none⟩) else s.createPopupMenu)
  | .loadMenuW resource => s.loadMenuW resource
  | .appendMenuA gui menu flags command text => some (s.appendMenuA gui menu flags command text)
  | .appendMenuW gui menu flags command text => some (s.appendMenuW gui menu flags command text)
  | .insertMenuItemW gui menu item byPosition info =>
    some (s.insertMenuItemW gui menu item byPosition info)
  | .deleteMenu menu position flags => s.deleteMenu menu position flags
  | .checkMenuItem gui menu item check => some (s.checkMenuItem gui menu item check)
  | .checkMenuRadioItem gui menu first last check flags =>
    some (s.checkMenuRadioItem gui menu first last check flags)
  | .destroyMenu gui menu => s.destroyMenu gui menu

end MenuState
end TradutorLinux
