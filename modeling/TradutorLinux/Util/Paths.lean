import TradutorLinux.Util.Bytes

/-!
# Paths

A POSIX path is a byte string; its elements, which `std::filesystem::path`
iterates over, are the root, the names between the slashes, and an empty one for
a slash at the end.  Two paths are the same when their elements are: `a//b` is
`a/b`, and `a/` is not `a`.

A `FilePath` is such a path taken apart, with the operations of
`std::filesystem::path` that do not look at the file system.  Its `steps` are
what a lookup takes it to ask for: the names, and a dot for a slash at the end,
since both ask that a directory has been reached.

## Main definitions

* `PosixPath.names`, `PosixPath.elements`.
* `PosixPath.Same`.
* `FilePath`, `FilePath.ofText`, `FilePath.join`.
* `FilePath.cancelled`, `FilePath.lexicallyNormal`.

## Main results

* `FilePath.cancelled_of_no_dotdot` — without a `..` only the dots go.
* `FilePath.begins_iff` — one path is the front of another when its names are.
-/

namespace TradutorLinux

open List
namespace PosixPath

/-- `path::is_absolute`. -/
def isAbsolute (path : ByteString) : Bool := path.head? == some 0x2F

/-- The names between the slashes. -/
def names (path : ByteString) : List ByteString := (path.splitOn 0x2F).filter (· ≠ [])

def elements (path : ByteString) : List ByteString :=
  (if isAbsolute path then [[0x2F]] else []) ++ names path ++
    if path.getLast? = some 0x2F ∧ names path ≠ [] then [[]] else []

/-- `operator==` of paths. -/
def Same (first second : ByteString) : Prop := elements first = elements second

instance (first second : ByteString) : Decidable (Same first second) :=
  inferInstanceAs (Decidable (elements first = elements second))

theorem Same.refl (path : ByteString) : Same path path := rfl

theorem mem_elements_iff {p nm : ByteString} (hn : nm ≠ []) (hr : nm ≠ [0x2F]) :
    nm ∈ elements p ↔ nm ∈ p.splitOn 0x2F := by
  have hf : nm ∉ (if isAbsolute p then [[0x2F]] else []) := by split <;> simp [hr]
  have hb : nm ∉ (if p.getLast? = some 0x2F ∧ names p ≠ [] then [[]] else []) := by
    split <;> simp [hn]
  rw [elements, mem_append, mem_append, or_iff_left hb, or_iff_right hf, names,
    mem_filter]
  simp [hn]

/-- Paths that are one byte string are the same; `a/b` and `a//b` are so too. -/
example : Same (text "a/b") (text "a//b") ∧ ¬Same (text "a/") (text "a") := by decide +kernel

end PosixPath

/-! ### Paths taken apart -/

/-- A `std::filesystem::path`: whether it starts at the root, its names, and whether a slash
stands behind the last of them. -/
structure FilePath where
  absolute : Bool := false
  names : List ByteString := []
  slash : Bool := false
deriving DecidableEq, Repr

namespace FilePath

/-- The name of the directory itself. -/
def dot : ByteString := [0x2E]

/-- The name of the directory above. -/
def dotdot : ByteString := [0x2E, 0x2E]

/-- What iterating over a path yields. -/
inductive Element
  | root
  | name (name : ByteString)
  | slash
deriving DecidableEq, Repr

def ofText (path : ByteString) : FilePath where
  absolute := PosixPath.isAbsolute path
  names := PosixPath.names path
  slash := path.getLast? == some 0x2F && !(PosixPath.names path).isEmpty

def single (name : ByteString) : FilePath := { names := [name] }

/-- `path::empty`. -/
def isEmpty (p : FilePath) : Bool := !p.absolute && p.names.isEmpty

/-- The elements, from `begin` to `end`. -/
def elements (p : FilePath) : List Element :=
  (if p.absolute then [Element.root] else []) ++ p.names.map Element.name ++
    if p.slash then [Element.slash] else []

/-- `operator/`.  An empty path behind a name adds a slash. -/
def join (p q : FilePath) : FilePath :=
  if q.absolute then q
  else if q.names = [] then { p with slash := !p.names.isEmpty }
  else ⟨p.absolute, p.names ++ q.names, q.slash⟩

instance : Div FilePath := ⟨join⟩

def Element.path : Element → FilePath
  | .root => { absolute := true }
  | .name n => single n
  | .slash => {}

/-- `path::string`. -/
def toText (p : FilePath) : ByteString :=
  (if p.absolute then [0x2F] else []) ++ (p.names.intersperse [0x2F]).flatten ++
    if p.slash then [0x2F] else []

/-- `path::parent_path`. -/
def parentPath (p : FilePath) : FilePath :=
  if p.slash then { p with slash := false } else { p with names := p.names.dropLast }

theorem div_def (p q : FilePath) : p / q = p.join q := rfl

/-- What a lookup of the path asks for, name by name. -/
def steps (p : FilePath) : List ByteString := p.names ++ if p.slash then [dot] else []

/-! ### The lexical normal form -/

/-- What a name does to the names kept so far, the last of which is on top.  A `..` takes a name
back, is dropped at the root and kept in front of a relative path. -/
def push (absolute : Bool) (kept : List ByteString) (name : ByteString) : List ByteString :=
  if name = dot then kept
  else if name ≠ dotdot then name :: kept
  else
    match kept with
    | [] => if absolute then [] else [dotdot]
    | top :: below => if top = dotdot then dotdot :: kept else below

/-- The names that are left when every `..` has taken one back. -/
def cancelled (absolute : Bool) (names : List ByteString) : List ByteString :=
  (names.foldl (push absolute) []).reverse

def normalForm (absolute : Bool) (steps : List ByteString) : FilePath :=
  let names := cancelled absolute steps
  if names = [] then
    if absolute then { absolute := true } else single dot
  else
    { absolute
      names
      slash := (steps.getLast? == some dot || steps.getLast? == some dotdot) &&
        names.getLast? != some dotdot }

/-- `path::lexically_normal`. -/
def lexicallyNormal (p : FilePath) : FilePath :=
  if p.isEmpty then p else normalForm p.absolute p.steps

/-- What is left of two lists of elements behind what they have in common. -/
def dropCommon : List Element → List Element → List Element × List Element
  | a :: as, b :: bs => if a = b then dropCommon as bs else (a :: as, b :: bs)
  | as, bs => (as, bs)

/-- How far elements lead down. -/
def depth (elements : List Element) : ℤ :=
  (elements.map fun
    | .name name => if name = dotdot then -1 else if name = dot then 0 else 1
    | _ => 0).sum

/-- `path::lexically_relative`; the empty path when there is no way. -/
def lexicallyRelative (p base : FilePath) : FilePath :=
  if p.absolute != base.absolute then {}
  else
    match dropCommon p.elements base.elements with
    | ([], []) => single dot
    | (a, b) =>
      let n := depth b
      if n = 0 ∧ (a = [] ∨ a.head? = some .slash) then single dot
      else if 0 ≤ n then
        (a.map Element.path).foldl join { names := replicate n.toNat dotdot }
      else {}

def Begins (front p : FilePath) : Prop := front.elements <+: p.elements

instance (front p : FilePath) : Decidable (Begins front p) :=
  inferInstanceAs (Decidable (front.elements <+: p.elements))

/-! ### Lemmas -/

attribute [local simp] div_def join single

@[simp] theorem join_single_absolute (p : FilePath) (nm : ByteString) :
    (p / single nm).absolute = p.absolute := by
  simp

@[simp] theorem join_single_names (p : FilePath) (nm : ByteString) :
    (p / single nm).names = p.names ++ [nm] := by
  simp

@[simp] theorem join_single_slash (p : FilePath) (nm : ByteString) :
    (p / single nm).slash = false := by
  simp

attribute [local simp] isEmpty

theorem isEmpty_join {p : FilePath} (h : p.isEmpty = false) (q : FilePath) :
    (p / q).isEmpty = false := by
  rw [div_def, join]
  split
  · next ha => simp [ha]
  · split
    · exact h
    · next hn => simp [hn]

theorem absolute_join {p q : FilePath} (hq : q.absolute = false) :
    (p / q).absolute = p.absolute := by
  rw [div_def, join, if_neg (by simp [hq])]
  split <;> rfl

attribute [local simp] steps

theorem steps_eq_names {p : FilePath} (h : p.slash = false) : p.steps = p.names := by simp [h]

theorem steps_join {p q : FilePath} (hq : q.absolute = false) (hn : p.names ≠ []) :
    (p / q).steps = p.names ++ if q.names = [] then [dot] else q.steps := by
  rw [div_def, join, if_neg (by simp [hq])]
  by_cases h : q.names = []
  · simp [h, hn]
  · simp [h]

variable {absolute ae ab : Bool}

theorem push_of_plain {kept : List ByteString} {nm : ByteString}
    (hd : nm ≠ dot) (ht : nm ≠ dotdot) : push ab kept nm = nm :: kept := by
  simp [push, hd, ht]

@[simp] theorem push_dot (ab : Bool) (kept : List ByteString) : push ab kept dot = kept := by
  simp [push]

variable {names na ns : List ByteString}

theorem foldl_push_of_no_dotdot : ∀ {kept : List ByteString}, dotdot ∉ ns →
      ns.foldl (push ab) kept = (ns.filter (· ≠ dot)).reverse ++ kept := by
  induction ns with
  | nil => simp
  | cons nm ns ih =>
    intro kept h
    rw [mem_cons, not_or] at h
    rw [foldl_cons, ih h.2]
    by_cases hd : nm = dot
    · simp [hd]
    · rw [push_of_plain hd (Ne.symm h.1)]
      simp [hd]

theorem cancelled_of_no_dotdot (h : dotdot ∉ ns) : cancelled ab ns = ns.filter (· ≠ dot) := by
  rw [cancelled, foldl_push_of_no_dotdot h, append_nil, reverse_reverse]

theorem cancelled_of_plain
    (ho : dot ∉ names) (hd : dotdot ∉ names) : cancelled absolute names = names := by
  rw [cancelled_of_no_dotdot hd, filter_eq_self]
  intro nm hn
  have he : nm ≠ dot := by
    rintro rfl
    exact ho hn
  simpa using he

@[simp] theorem normalForm_absolute (absolute : Bool) (ss : List ByteString) :
    (normalForm absolute ss).absolute = absolute := by
  dsimp only [normalForm]
  split
  · cases absolute <;> rfl
  · rfl

@[simp] theorem normalForm_isEmpty (ab : Bool) (ss : List ByteString) :
    (normalForm ab ss).isEmpty = false := by
  dsimp only [normalForm]
  split
  · cases ab <;> rfl
  · next h => simpa using fun _ => h

theorem normalForm_of_no_dotdot (h : dotdot ∉ ns) (hn : ns.filter (· ≠ dot) ≠ []) :
    normalForm ab ns = ⟨ab, ns.filter (· ≠ dot), ns.getLast? == some dot⟩ := by
  have ha : (ns.filter (· ≠ dot)).getLast? ≠ some dotdot := by
    intro hl
    exact h (mem_filter.1 (mem_of_getLast? hl)).1
  have hl' : ns.getLast? ≠ some dotdot := fun hl => h (mem_of_getLast? hl)
  unfold normalForm
  rw [cancelled_of_no_dotdot h, if_neg hn, beq_eq_false_iff_ne.2 hl', Bool.or_false,
    bne_iff_ne.2 ha, Bool.and_true]

theorem normalForm_steps (h : dotdot ∉ names) :
    normalForm absolute (normalForm absolute names).steps = normalForm absolute names := by
  by_cases hn : names.filter (· ≠ dot) = []
  · have hf : normalForm absolute names =
        if absolute then { absolute := true } else single dot := by
      unfold normalForm
      rw [cancelled_of_no_dotdot h, if_pos hn]
    rw [hf]
    cases absolute <;> rfl
  · rw [normalForm_of_no_dotdot h hn]
    have ho : dot ∉ names.filter (· ≠ dot) := by simp
    have hd : dotdot ∉ names.filter (· ≠ dot) := fun hm => h (mem_filter.1 hm).1
    have hk : (names.filter (· ≠ dot)).filter (· ≠ dot) = names.filter (· ≠ dot) := by simp
    cases ha : names.getLast? == some dot with
    | true =>
      have hs : steps ⟨absolute, names.filter (· ≠ dot), true⟩ =
          names.filter (· ≠ dot) ++ [dot] := rfl
      have hi : (names.filter (· ≠ dot) ++ [dot]).filter (· ≠ dot) = names.filter (· ≠ dot) := by
        simp
      have hnot : dotdot ∉ names.filter (· ≠ dot) ++ [dot] := by
        simp only [mem_append, mem_singleton, not_or]
        exact ⟨hd, by decide⟩
      rw [hs, normalForm_of_no_dotdot hnot (by rw [hi]; exact hn), hi]
      simp
    | false =>
      have hs : steps ⟨absolute, names.filter (· ≠ dot), false⟩ = names.filter (· ≠ dot) :=
        append_nil _
      have hl' : (names.filter (· ≠ dot)).getLast? ≠ some dot :=
        fun hl => ho (mem_of_getLast? hl)
      rw [hs, normalForm_of_no_dotdot hd (by rw [hk]; exact hn), hk, beq_eq_false_iff_ne.2 hl']

attribute [local simp] List.prefix_cons_iff Begins elements

theorem begins_iff {f p : FilePath} (hs : f.slash = false) (he : f.absolute ∨ f.names ≠ []) :
    Begins f p ↔ f.absolute = p.absolute ∧ f.names <+: p.names := by
  obtain ⟨a, xs, s⟩ := f
  obtain ⟨b, ys, t⟩ := p
  cases hs
  have hn : xs.map Element.name <+: ys.map Element.name ++ (if t then [Element.slash] else []) ↔
      xs <+: ys := by
    constructor
    · intro h
      clear he
      induction xs generalizing ys with
      | nil => exact nil_prefix
      | cons x xs ih =>
        cases ys with
        | nil => cases t <;> simp at h
        | cons y ys =>
          simp only [map_cons, cons_append, cons_prefix_cons,
            Element.name.injEq] at h ⊢
          exact ⟨h.1, ih ys h.2⟩
    · exact fun h => (h.map Element.name).trans (prefix_append _ _)
  cases a with
  | true =>
    cases b with
    | true => simpa [cons_prefix_cons] using hn
    | false =>
      have : ¬Begins ⟨true, xs, false⟩ ⟨false, ys, t⟩ := by
        intro h
        cases ys <;> cases t <;> simp at h
      simpa using this
  | false =>
    cases b with
    | true =>
      have hx : xs ≠ [] := by simpa using he
      obtain ⟨x, xs, rfl⟩ := exists_cons_of_ne_nil hx
      simp
    | false => simpa using hn

end FilePath
end TradutorLinux
