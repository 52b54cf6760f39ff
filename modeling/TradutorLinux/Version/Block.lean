import TradutorLinux.Util.Bytes
import TradutorLinux.Util.Searches

/-!
# Version blocks

A version block is a tree of nodes.  Each one has a key, a value and children, and
lies in the block with a header before it; values and children begin at multiples
of four.  A path names the node that its components lead to.

## Main definitions

* `VersionNode` — the tree.
* `VersionNode.lies` — a node lies in the memory from an offset on.
* `VersionBlock` — a tree that is version information, and lies in the memory.

## Main results

* `lies_of_find`
-/

namespace TradutorLinux

/-! ### Words -/

def wordAt (memory : ℕ → UInt8) (offset : ℕ) : ℕ :=
  (memory offset).toNat + 256 * (memory (offset + 1)).toNat

/-- The next multiple of four. -/
def alignDword (offset : ℕ) : ℕ := (offset + 3) / 4 * 4

def wideBytes (units : List UInt16) : ByteString :=
  (units ++ [0]).flatMap fun unit : UInt16 => toLE 2 unit.toNat

theorem length_wideBytes (us : List UInt16) : (wideBytes us).length = 2 * us.length + 2 := by
  induction us with
  | nil => rfl
  | cons u us ih =>
    show (toLE 2 u.toNat ++ wideBytes us).length = _
    rw [List.length_append, length_toLE, ih, List.length_cons]
    omega

theorem le_alignDword (offset : ℕ) : offset ≤ alignDword offset := by
  unfold alignDword
  omega

/-! ### Nodes -/

/-- The value of a node: none, text with its terminator, or bytes. -/
inductive VersionValue
  | none
  | text (units : List UInt16)
  | binary (bytes : ByteString)
deriving DecidableEq

namespace VersionValue

def bytes : VersionValue → ByteString
  | none => []
  | text units => wideBytes units
  | binary bytes => bytes

/-- `wValueLength`: of text, the number of units. -/
def length : VersionValue → ℕ
  | none => 0
  | text units => units.length + 1
  | binary bytes => bytes.length

/-- `wType` says whether the value is text. -/
def hasType : VersionValue → ℕ → Bool
  | none, type => decide (type ≤ 1)
  | text _, type => decide (type = 1)
  | binary _, type => decide (type = 0)

end VersionValue

structure VersionNode where
  key : List UInt16
  value : VersionValue
  children : List VersionNode

namespace VersionNode

/-- Where the key ends, its terminator included, if the node is at the offset. -/
def keyEnd (node : VersionNode) (offset : ℕ) : ℕ := offset + 6 + (wideBytes node.key).length

def valueOffset (node : VersionNode) (offset : ℕ) : ℕ := alignDword (node.keyEnd offset)

def valueEnd (node : VersionNode) (offset : ℕ) : ℕ :=
  if node.value.bytes = [] then node.keyEnd offset
  else node.valueOffset offset + node.value.bytes.length

/-- Where the first child is. -/
def childrenOffset (node : VersionNode) (offset : ℕ) : ℕ := alignDword (node.valueEnd offset)

/-! ### Nodes in the memory -/

/-- The header, the key and the value of a node lie in the memory, in front of the end that the
header gives. -/
def headLies (memory : ℕ → UInt8) (node : VersionNode) (offset : ℕ) : Bool :=
  decide (wordAt memory (offset + 2) = node.value.length) &&
    node.value.hasType (wordAt memory (offset + 4)) &&
    occursAt memory (offset + 6) (wideBytes node.key) &&
    occursAt memory (node.valueOffset offset) node.value.bytes &&
    decide (node.valueEnd offset ≤ offset + wordAt memory offset)

mutual

/-- A node lies in the memory, with its children up to its end. -/
def lies (memory : ℕ → UInt8) : VersionNode → ℕ → Bool
  | ⟨key, value, children⟩, offset =>
    headLies memory ⟨key, value, children⟩ offset &&
      childrenLie memory (offset + wordAt memory offset) children
        (childrenOffset ⟨key, value, children⟩ offset)

/-- Nodes lie one behind the other, up to `stop`. -/
def childrenLie (memory : ℕ → UInt8) (stop : ℕ) : List VersionNode → ℕ → Bool
  | [], offset => decide (stop ≤ offset)
  | child :: children, offset =>
    decide (offset + wordAt memory offset ≤ stop) && lies memory child offset &&
      childrenLie memory stop children (alignDword (offset + wordAt memory offset))

end

/-! ### Version information -/

def hasKey (node : VersionNode) : Bool := !node.key.contains 0

def isString (node : VersionNode) : Bool :=
  node.hasKey && (match node.value with
    | .binary _ => false
    | _ => true) && node.children.isEmpty

def isStringTable (node : VersionNode) : Bool :=
  node.hasKey && decide (node.value = .none) && node.children.all isString

/-- `Translation`. -/
def translationKey : List UInt16 := (text "Translation").map UInt8.toUInt16

def isVar (node : VersionNode) : Bool :=
  decide (node.key = translationKey) && (match node.value with
    | .binary bytes => decide (bytes.length % 4 = 0)
    | _ => false) && node.children.isEmpty

/-- `StringFileInfo` with its tables, or `VarFileInfo`. -/
def isFileInfo (node : VersionNode) : Bool :=
  decide (node.value = .none) &&
    (decide (node.key = (text "StringFileInfo").map UInt8.toUInt16) &&
        node.children.all isStringTable ||
      decide (node.key = (text "VarFileInfo").map UInt8.toUInt16) && node.children.all isVar)

/-- The signature of `VS_FIXEDFILEINFO`. -/
def kFixedSig : ByteString := [0xBD, 0x04, 0xEF, 0xFE]

/-- `VS_VERSION_INFO`. -/
def rootKey : List UInt16 := (text "VS_VERSION_INFO").map UInt8.toUInt16

/-- The root of version information; the fixed part may be missing. -/
def isVersionInfo (node : VersionNode) : Bool :=
  decide (node.key = rootKey) && (match node.value with
    | .none => true
    | .binary bytes => decide (bytes.length = 52 ∧ bytes.take 4 = kFixedSig)
    | .text _ => false) && node.children.all isFileInfo

end VersionNode

/-- A version block, which begins at 0 in the memory. -/
structure VersionBlock where
  memory : ℕ → UInt8
  root : VersionNode
  isVersionInfo : root.isVersionInfo = true
  lies : root.lies memory 0 = true

/-- `wLength` of the block. -/
def VersionBlock.size (block : VersionBlock) : ℕ := wordAt block.memory 0

/-! ### Paths -/

/-- The first child with a key. -/
def findChild (memory : ℕ → UInt8) (same : List UInt16 → Bool) :
    List VersionNode → ℕ → Option (ℕ × VersionNode)
  | [], _ => none
  | child :: children, offset =>
    if same child.key = true then some (offset, child)
    else findChild memory same children (alignDword (offset + wordAt memory offset))

/-- The node that a path names, and its offset; keys are compared without case. -/
def VersionNode.find (memory : ℕ → UInt8) (upper : UInt16 → UInt16) :
    List (List UInt16) → ℕ → VersionNode → Option (ℕ × VersionNode)
  | [], offset, node => some (offset, node)
  | component :: path, offset, node =>
    match findChild memory (fun key => key.map upper = component.map upper) node.children
        (node.childrenOffset offset) with
    | some (childOffset, child) => child.find memory upper path childOffset
    | none => none

def isSeparator (unit : ℕ) : Bool := unit = 0x5C ∨ unit = 0x2F

/-- The node at an offset lies in the block. -/
structure VersionNode.Inside (memory : ℕ → UInt8) (node : VersionNode) (offset : ℕ) : Prop where
  lies : node.lies memory offset = true
  end_le : offset + wordAt memory offset ≤ wordAt memory 0

variable {memory m : ℕ → UInt8}

theorem VersionNode.lies_iff {nd : VersionNode} {o : ℕ} :
    nd.lies m o ↔ nd.headLies m o ∧
      childrenLie m (o + wordAt m o) nd.children (nd.childrenOffset o) := by
  obtain ⟨k, v, ks⟩ := nd
  exact Bool.and_eq_true_iff

theorem lies_of_findChild {sa : List UInt16 → Bool}
    {ks : List VersionNode} {ch : VersionNode} {stop o co : ℕ}
    (hl : VersionNode.childrenLie m stop ks o) (h : findChild m sa ks o = some (co, ch)) :
    ch.lies m co ∧ co + wordAt m co ≤ stop := by
  induction ks generalizing o with
  | nil => cases h
  | cons f ks ih =>
    obtain ⟨hf, hr⟩ := Bool.and_eq_true_iff.1 hl
    obtain ⟨he, hf⟩ := Bool.and_eq_true_iff.1 hf
    unfold findChild at h
    split at h
    · cases h
      exact ⟨hf, of_decide_eq_true he⟩
    · exact ih hr h

theorem le_of_findChild {s : List UInt16 → Bool}
    {ks : List VersionNode} {c : VersionNode} {o childOffset : ℕ}
    (h : findChild m s ks o = some (childOffset, c)) : o ≤ childOffset := by
  induction ks generalizing o with
  | nil => cases h
  | cons f ks ih =>
    unfold findChild at h
    split at h
    · cases h
      exact le_refl _
    · have hl := le_alignDword (o + wordAt m o)
      have hr := ih h
      omega

theorem VersionNode.keyEnd_le_valueEnd (nd : VersionNode) (offset : ℕ) :
    nd.keyEnd offset ≤ nd.valueEnd offset := by
  have hl : nd.keyEnd offset ≤ nd.valueOffset offset := le_alignDword _
  unfold VersionNode.valueEnd
  split
  · exact le_refl _
  · omega

theorem le_of_find {u : UInt16 → UInt16} {p : List (List UInt16)}
    {s nd : VersionNode} {first offset : ℕ} (h : s.find m u p first = some (offset, nd)) :
    offset = first ∧ nd = s ∨ first < offset := by
  induction p generalizing s first with
  | nil =>
    cases h
    exact .inl ⟨rfl, rfl⟩
  | cons c p ih =>
    unfold VersionNode.find at h
    split at h
    · next co ch hc =>
      have hl := le_of_findChild hc
      have he := s.keyEnd_le_valueEnd first
      have ha := le_alignDword (s.valueEnd first)
      unfold VersionNode.childrenOffset at hl
      unfold VersionNode.keyEnd at he
      rcases ih h with ⟨rfl, -⟩ | ht
      · right
        omega
      · right
        omega
    · cases h

/-- **The node that a path names lies in the block.** -/
theorem lies_of_find {u : UInt16 → UInt16} {p : List (List UInt16)}
    {s nd : VersionNode} {f offset : ℕ} (hs : s.Inside m f)
    (h : s.find m u p f = some (offset, nd)) : nd.Inside m offset := by
  induction p generalizing s f with
  | nil =>
    cases h
    exact hs
  | cons c p ih =>
    unfold VersionNode.find at h
    split at h
    · next co ch hc =>
      obtain ⟨hl, he⟩ := lies_of_findChild (VersionNode.lies_iff.1 hs.lies).2 hc
      exact ih ⟨hl, he.trans hs.end_le⟩ h
    · cases h

def components {α : Type} (separator : α → Bool) (path : List α) : List (List α) :=
  (path.splitOnP separator).filter fun component => !component.isEmpty

end TradutorLinux
