import Mathlib.Data.List.Induction
import TradutorLinux.Util.Paths

/-!
# File systems and lookups

A file system says what stands at each place, a place being the names that lead
there from the root with no link on the way.  A lookup follows names from a
place: a `..` goes to the directory above, a link goes on with its target, and
after so many links it fails.  `reach` follows names for as long as something is
there, and keeps the names it could not follow.

## Main definitions

* `Entry`, `FileSystem`

## Main results

* `FileSystem.reach_append`, `FileSystem.reach_stops` — the same of `reach`.
-/

namespace TradutorLinux

open List

open FilePath (dot dotdot)

/-- The names that lead to a place from the root. -/
abbrev Place := List ByteString

/-- What stands at a place; `denied` is what a lookup is not allowed to see. -/
inductive Entry (ν : Type)
  | missing
  | denied
  | file (node : ν)
  | directory (node : ν)
  | link (node : ν) (target : FilePath)
deriving DecidableEq

namespace Entry

variable {ν : Type}

def isDirectory : Entry ν → Bool
  | .directory _ => true
  | _ => false

def isMissing : Entry ν → Bool
  | .missing => true
  | _ => false

def isLink : Entry ν → Bool
  | .link _ _ => true
  | _ => false

def node : Entry ν → Option ν
  | .file node => some node
  | .directory node => some node
  | .link node _ => some node
  | _ => none

/-- A file or a directory, which a lookup stops at. -/
def isSolid : Entry ν → Bool
  | .file _ => true
  | .directory _ => true
  | _ => false

theorem isSolid_of_isDirectory {e : Entry ν} (h : e.isDirectory) : e.isSolid := by
  cases e <;> simp_all [isDirectory, isSolid]

end Entry

/-- What stands at every place, of which finitely many have something.  The root is a directory,
whatever exists stands in a directory, and no entry has the name of a dot. -/
structure FileSystem (ν : Type) where
  entry : Place → Entry ν
  places : List Place
  root : (entry []).isDirectory = true
  parent : ∀ place name, (entry (place ++ [name])).isMissing = false →
    (entry place).isDirectory = true
  proper : ∀ place name, (entry (place ++ [name])).isMissing = false → name ≠ dot ∧ name ≠ dotdot
  complete : ∀ place, (entry place).isMissing = false → place ∈ places

/-- Where a lookup ends: at a place, with some links to spare, or nowhere, be it that a name is
missing (`ENOENT`) or that what comes before it is no directory (`ENOTDIR`). -/
inductive Lookup
  | found (place : Place) (links : ℕ)
  | missing (notDirectory : Bool)
  | failed
deriving DecidableEq

namespace Lookup

/-- Go on from where a lookup has arrived. -/
def andThen (l : Lookup) (next : Place → ℕ → Lookup) : Lookup :=
  match l with
  | .found place links => next place links
  | .missing why => .missing why
  | .failed => .failed

/-- The same with more links to spare. -/
def spare (k : ℕ) : Lookup → Lookup
  | .found place links => .found place (links + k)
  | .missing why => .missing why
  | .failed => .failed

theorem spare_zero (l : Lookup) : l.spare 0 = l := by cases l <;> rfl

end Lookup

namespace FileSystem

variable {ν : Type}

/-! ### Listed file systems -/

def listed (entries : List (Place × Entry ν)) (place : Place) : Entry ν :=
  (entries.lookup place).getD .missing

/-- The list has the root, and with each place the directory it stands in. -/
def wellFormed (entries : List (Place × Entry ν)) : Bool :=
  (listed entries []).isDirectory &&
    entries.all fun e => e.1.isEmpty || (listed entries e.1.dropLast).isDirectory &&
      e.1.getLast? != some dot && e.1.getLast? != some dotdot

variable {place pl p : Place}

attribute [local simp] Entry.isMissing

theorem mem_of_listed {entries : List (Place × Entry ν)}
    (h : (listed entries p).isMissing = false) : ∃ e, (p, e) ∈ entries := by
  unfold listed at h
  cases hl : entries.lookup p with
  | none => simp [hl] at h
  | some e =>
    obtain ⟨f, b, hs, -⟩ := lookup_eq_some_iff.1 hl
    exact ⟨e, by simp [hs]⟩

variable {name na n : ByteString}

theorem of_wellFormed {entries : List (Place × Entry ν)} (h : wellFormed entries)
    (hn : (listed entries (p ++ [n])).isMissing = false) :
    (listed entries p).isDirectory ∧ n ≠ dot ∧ n ≠ dotdot := by
  obtain ⟨e, he⟩ := mem_of_listed hn
  rw [wellFormed, Bool.and_eq_true, all_eq_true] at h
  have hp := h.2 _ he
  have hm : (p ++ [n]).isEmpty = false := by simp
  rw [hm, Bool.false_or, dropLast_concat, getLast?_concat, Bool.and_eq_true,
    Bool.and_eq_true, bne_iff_ne, bne_iff_ne] at hp
  exact ⟨hp.1.1, by simpa using hp.1.2, by simpa using hp.2⟩

def ofList (entries : List (Place × Entry ν)) (h : wellFormed entries = true) :
    FileSystem ν where
  entry := listed entries
  places := entries.map Prod.fst
  root := by
    rw [wellFormed, Bool.and_eq_true] at h
    exact h.1
  parent := fun _ _ hentry => (of_wellFormed h hentry).1
  proper := fun _ _ hentry => (of_wellFormed h hentry).2
  complete := by
    intro place hentry
    obtain ⟨e, he⟩ := mem_of_listed hentry
    exact mem_map.mpr ⟨_, he, rfl⟩

variable (fs : FileSystem ν)

/-! ### Following names -/

/-- Follow names up to a link, which `jump` goes on with. -/
def pass (links : ℕ) (jump : Place → List ByteString → Lookup) :
    Place → List ByteString → Lookup
  | place, [] => .found place links
  | place, name :: rest =>
    if (fs.entry place).isDirectory = false then .missing true
    else if name = dot then pass links jump place rest
    else if name = dotdot then pass links jump place.dropLast rest
    else
      match fs.entry (place ++ [name]) with
      | .missing => .missing false
      | .denied => .failed
      | .file _ => pass links jump (place ++ [name]) rest
      | .directory _ => pass links jump (place ++ [name]) rest
      | .link _ target => jump (if target.absolute then [] else place) (target.steps ++ rest)

/-- Follow names with so many links to spare; one link too many is `ELOOP`. -/
def walk : ℕ → Place → List ByteString → Lookup
  | 0 => fs.pass 0 fun _ _ => .failed
  | links + 1 => fs.pass (links + 1) (walk links)

/-- Where following names stops: the place and the links to spare there, and the names from the
first missing one on. -/
structure Reached where
  place : Place
  links : ℕ
  rest : List ByteString
deriving DecidableEq

/-- Follow names up to the first that is missing; `none` when a lookup fails. -/
def reach : ℕ → Place → List ByteString → Option Reached
  | links, place, [] => some ⟨place, links, []⟩
  | links, place, name :: rest =>
    match fs.walk links place [name] with
    | .found place' links' => reach links' place' rest
    | .missing _ => some ⟨place, links, name :: rest⟩
    | .failed => none

/-! ### Laws of `walk` -/

theorem walk_nil (links : ℕ) (place : Place) : fs.walk links place [] = .found place links := by
  cases links <;> rfl

variable {jump j : Place → List ByteString → Lookup}

variable {links li ls : ℕ}

theorem pass_append {ys : List ByteString}
    {next : Place → ℕ → Lookup} (hn : ∀ p, fs.pass ls j p ys = next p ls)
    (hj : ∀ p xs, j p (xs ++ ys) = (j p xs).andThen next) :
    ∀ (p : Place) (xs : List ByteString),
      fs.pass ls j p (xs ++ ys) = (fs.pass ls j p xs).andThen next := by
  intro p xs
  induction xs generalizing p with
  | nil => exact hn p
  | cons n xs ih =>
    rw [cons_append, pass, pass]
    split
    · rfl
    split
    · exact ih p
    split
    · exact ih _
    cases fs.entry (p ++ [n]) with
    | missing => rfl
    | denied => rfl
    | file nd => exact ih _
    | directory nd => exact ih _
    | link nd t =>
      simp only [← append_assoc]
      exact hj _ _

/-- **Following goes on from where it has arrived.** -/
theorem walk_append (ls : ℕ) (p : Place) (xs ys : List ByteString) : fs.walk ls p (xs ++ ys) =
      (fs.walk ls p xs).andThen fun p ls => fs.walk ls p ys := by
  induction ls generalizing p xs with
  | zero => exact fs.pass_append (fun _ => rfl) (fun _ _ => rfl) p xs
  | succ ls ih => exact fs.pass_append (fun _ => rfl) ih p xs

theorem pass_add (ls k : ℕ) {j j' : Place → List ByteString → Lookup}
    (hj : ∀ p xs, j p xs ≠ .failed → j' p xs = (j p xs).spare k) :
    ∀ (p : Place) (xs : List ByteString), fs.pass ls j p xs ≠ .failed →
      fs.pass (ls + k) j' p xs = (fs.pass ls j p xs).spare k := by
  intro p xs
  induction xs generalizing p with
  | nil => exact fun _ => rfl
  | cons n xs ih =>
    rw [pass, pass]
    split
    · exact fun _ => rfl
    split
    · exact ih p
    split
    · exact ih _
    cases fs.entry (p ++ [n]) with
    | missing => exact fun _ => rfl
    | denied => exact fun h => absurd rfl h
    | file nd => exact ih _
    | directory nd => exact ih _
    | link nd t => exact hj _ _

variable {xs : List ByteString}

/-- **Links to spare change nothing** where a lookup does not fail. -/
theorem walk_add (k : ℕ) (h : fs.walk ls p xs ≠ .failed) :
    fs.walk (ls + k) p xs = (fs.walk ls p xs).spare k := by
  induction ls generalizing p xs with
  | zero =>
    cases k with
    | zero => exact (Lookup.spare_zero _).symm
    | succ k =>
      rw [zero_add]
      have hp : fs.pass (0 + (k + 1)) (fs.walk k) p xs = _ :=
        fs.pass_add 0 (k + 1) (fun _ _ hn => absurd rfl hn) p xs h
      rwa [zero_add] at hp
  | succ ls ih =>
    have hs : ls + 1 + k = ls + k + 1 := by omega
    have hp : fs.pass (ls + 1 + k) (fs.walk (ls + k)) p xs = _ :=
      fs.pass_add (ls + 1) k (fun _ _ hn => ih hn) p xs h
    rw [hs] at hp ⊢
    exact hp

theorem walk_missing_of_le {ls ls' : ℕ} (hl : ls ≤ ls') {why : Bool} (h : fs.walk
  ls p xs = .missing why) : fs.walk ls' p xs = .missing why := by
  obtain ⟨k, rfl⟩ := Nat.exists_eq_add_of_le hl
  rw [fs.walk_add k (by simp [h]), h]
  rfl

theorem pass_links_le (hj : ∀ place xs p' ls', jump place xs = .found p' ls' → ls' ≤ links) :
    ∀ (place : Place) (xs : List ByteString) (p' : Place) (ls' : ℕ),
      fs.pass links jump place xs = .found p' ls' → ls' ≤ links := by
  intro place xs
  induction xs generalizing place with
  | nil =>
    intro p' ls' h
    cases h
    exact le_refl _
  | cons name xs ih =>
    intro p' ls'
    rw [pass]
    split
    · intro h
      cases h
    split
    · exact ih place p' ls'
    split
    · exact ih _ p' ls'
    cases fs.entry (place ++ [name]) with
    | missing => intro h; cases h
    | denied => intro h; cases h
    | file nd => exact ih _ p' ls'
    | directory nd => exact ih _ p' ls'
    | link nd t => exact hj _ _ p' ls'

theorem walk_links_le {p' : Place}
    {ls' : ℕ} (h : fs.walk links place xs = .found p' ls') : ls' ≤ links := by
  induction links generalizing place xs p' ls' with
  | zero => exact fs.pass_links_le (fun _ _ _ _ h => by cases h) place xs p' ls' h
  | succ links ih =>
    exact fs.pass_links_le (fun _ _ _ _ h => Nat.le_succ_of_le (ih h)) place xs p' ls' h

/-! ### One name -/

theorem walk_cons (ls : ℕ) (p : Place) (n : ByteString) (rest : List ByteString) :
    fs.walk ls p (n :: rest) = (fs.walk ls p [n]).andThen fun p ls => fs.walk ls p rest :=
  fs.walk_append ls p [n] rest

variable {fs}

attribute [local simp] walk pass

theorem walk_of_not_directory {r : List ByteString} (h : (fs.entry p).isDirectory = false) :
    fs.walk ls p (n :: r) = .missing true := by
  cases ls <;> simp [h]

theorem walk_dot (h : (fs.entry place).isDirectory) :
    fs.walk links place [dot] = .found place links := by
  cases links <;> simp [h]

/-! ### Places -/

attribute [local simp] Entry.isSolid

theorem isMissing_of_isSolid {e : Entry ν} (h : e.isSolid) : e.isMissing = false := by
  cases e <;> simp_all

theorem walk_name (h : (fs.entry (place ++ [name])).isSolid) :
    fs.walk links place [name] = .found (place ++ [name]) links := by
  have hm := isMissing_of_isSolid h
  obtain ⟨ho, hd⟩ := fs.proper place name hm
  have hi := fs.parent place name hm
  cases he : fs.entry (place ++ [name]) with
  | file nd => cases links <;> simp [hi, ho, hd, he]
  | directory nd => cases links <;> simp [hi, ho, hd, he]
  | _ => simp [he] at h

theorem isDirectory_of_append {nm : List ByteString}
    (h : (fs.entry (p ++ nm)).isSolid) (he : nm ≠ []) : (fs.entry p).isDirectory := by
  induction nm using List.reverseRecOn with
  | nil => exact absurd rfl he
  | append_singleton nm n ih =>
    rw [← append_assoc] at h
    have hd := fs.parent _ n (isMissing_of_isSolid h)
    by_cases hn : nm = []
    · rwa [hn, append_nil] at hd
    · exact ih (Entry.isSolid_of_isDirectory hd) hn

theorem isSolid_of_append {nm : List ByteString}
    (h : (fs.entry (p ++ nm)).isSolid) : (fs.entry p).isSolid := by
  by_cases hn : nm = []
  · rwa [hn, append_nil] at h
  · exact Entry.isSolid_of_isDirectory (isDirectory_of_append h hn)

/-- **The names of a place lead there**, and cost no link. -/
theorem walk_place : ∀ {nm : List ByteString}, (fs.entry (place ++ nm)).isSolid →
      fs.walk links place nm = .found (place ++ nm) links := by
  intro nm
  induction nm using List.reverseRecOn with
  | nil => intro h; rw [append_nil, walk_nil]
  | append_singleton nm name ih =>
    intro h
    rw [← append_assoc] at h ⊢
    rw [walk_append, ih (isSolid_of_append h), Lookup.andThen, walk_name h]

theorem plain_of_isSolid (h : (fs.entry place).isSolid) : dot ∉ place ∧ dotdot ∉ place := by
  induction place using List.reverseRecOn with
  | nil => simp
  | append_singleton place name ih =>
    obtain ⟨hd, ht⟩ := fs.proper place name (isMissing_of_isSolid h)
    obtain ⟨hp, hp'⟩ := ih (isSolid_of_append h)
    simp only [mem_append, mem_singleton, not_or]
    exact ⟨⟨hp, Ne.symm hd⟩, hp', Ne.symm ht⟩

theorem isSolid_dropLast (h : (fs.entry p).isSolid) : (fs.entry p.dropLast).isSolid := by
  induction p using List.reverseRecOn with
  | nil => exact h
  | append_singleton p n _ =>
    rw [dropLast_concat]
    exact isSolid_of_append h

theorem pass_solid (hj : ∀ p xs p' ls', (fs.entry p).isSolid →
      j p xs = .found p' ls' → (fs.entry p').isSolid) :
    ∀ (p : Place) (xs : List ByteString) (p' : Place) (ls' : ℕ),
      (fs.entry p).isSolid → fs.pass ls j p xs = .found p' ls' →
        (fs.entry p').isSolid := by
  intro p xs
  induction xs generalizing p with
  | nil =>
    intro p' ls' hs h
    cases h
    exact hs
  | cons n xs ih =>
    intro p' ls' hs
    rw [pass]
    split
    · intro h
      cases h
    split
    · exact ih p p' ls' hs
    split
    · exact ih _ p' ls' (isSolid_dropLast hs)
    cases he : fs.entry (p ++ [n]) with
    | missing => intro h; cases h
    | denied => intro h; cases h
    | file nd => exact ih _ p' ls' (by rw [he]; rfl)
    | directory nd => exact ih _ p' ls' (by rw [he]; rfl)
    | link nd t =>
      refine hj _ _ p' ls' ?_
      split
      · exact Entry.isSolid_of_isDirectory fs.root
      · exact hs

theorem walk_solid {p' : Place} {ls' : ℕ} (hs : (fs.entry p).isSolid)
    (h : fs.walk ls p xs = .found p' ls') : (fs.entry p').isSolid := by
  induction ls generalizing p xs p' ls' with
  | zero => exact pass_solid (fun _ _ _ _ _ h => by cases h) p xs p' ls' hs h
  | succ ls ih => exact pass_solid (fun _ _ _ _ hs h => ih hs h) p xs p' ls' hs h

/-! ### Laws of `reach` -/

/-- Follow further names, unless some could not be followed. -/
def resume (fs : FileSystem ν) (r : Reached) (names : List ByteString) : Option Reached :=
  if r.rest = [] then fs.reach r.links r.place names else some { r with rest := r.rest ++ names }

/-- **`reach` goes on from where it has stopped.** -/
theorem reach_append (ls : ℕ) (p : Place) (xs ys : List ByteString) :
    fs.reach ls p (xs ++ ys) = (fs.reach ls p xs).bind (fs.resume · ys) := by
  induction xs generalizing ls p with
  | nil => rfl
  | cons n xs ih =>
    rw [cons_append, reach, reach]
    cases fs.walk ls p [n] with
    | found p' ls' => exact ih ls' p'
    | missing => rfl
    | failed => rfl

attribute [local simp] walk_nil Lookup.andThen

theorem walk_eq_found_iff {p' : Place} {ls' : ℕ} : fs.walk links place xs = .found p' ls' ↔
      fs.reach links place xs = some ⟨p', ls', []⟩ := by
  induction xs generalizing links place with
  | nil => simp [reach]
  | cons name xs ih =>
    rw [walk_cons, reach]
    cases fs.walk links place [name] with
    | found p'' ls'' => exact ih
    | missing => simp
    | failed => simp

theorem walk_eq_failed_iff : fs.walk links place xs = .failed ↔ fs.reach links place xs = none := by
  induction xs generalizing links place with
  | nil => simp [reach]
  | cons name xs ih =>
    rw [walk_cons, reach]
    cases fs.walk links place [name] with
    | found p'' ls'' => exact ih
    | missing => simp
    | failed => simp

theorem walk_eq_missing {r : Reached} (h : fs.reach ls p xs = some r) (hr : r.rest ≠ []) :
    ∃ why, fs.walk ls p xs = .missing why := by
  cases hw : fs.walk ls p xs with
  | found p' ls' =>
    rw [walk_eq_found_iff, h] at hw
    cases hw
    exact absurd rfl hr
  | missing why => exact ⟨why, rfl⟩
  | failed =>
    rw [walk_eq_failed_iff, h] at hw
    cases hw

/-- What `reach` says of the place it stops at. -/
structure Stops (fs : FileSystem ν) (links : ℕ) (place : Place) (xs : List ByteString)
    (r : Reached) : Prop where
  front : ∃ front, xs = front ++ r.rest ∧ fs.walk links place front = .found r.place r.links
  stuck : ∀ name rest, r.rest = name :: rest →
    ∃ why, fs.walk r.links r.place [name] = .missing why

/-- **`reach` stops at the first name that is missing.** -/
theorem reach_stops {r : Reached} (h : fs.reach ls p xs = some r) : fs.Stops ls p xs r := by
  induction xs generalizing ls p with
  | nil =>
    cases h
    exact ⟨⟨[], rfl, fs.walk_nil ls p⟩, fun n re hr => by cases hr⟩
  | cons n xs ih =>
    rw [reach] at h
    cases hw : fs.walk ls p [n] with
    | found p' ls' =>
      rw [hw] at h
      obtain ⟨⟨f, hf, ho⟩, hs⟩ := ih h
      refine ⟨⟨n :: f, by rw [hf, cons_append], ?_⟩, hs⟩
      rw [walk_cons, hw]
      exact ho
    | missing =>
      rw [hw] at h
      cases h
      refine ⟨⟨[], rfl, fs.walk_nil ls p⟩, fun o re hr => ?_⟩
      cases hr
      exact ⟨_, hw⟩
    | failed =>
      rw [hw] at h
      cases h

theorem reach_of_missing {r : List ByteString} {w : Bool} (h : fs.walk ls p [n] = .missing w) :
    fs.reach ls p (n :: r) = some ⟨p, ls, n :: r⟩ := by
  rw [reach, h]

theorem reach_place (ls : ℕ) (p : Place) (nm : List ByteString) (h : (fs.entry (p ++ nm)).isSolid) :
    fs.reach ls p nm = some ⟨p ++ nm, ls, []⟩ :=
  walk_eq_found_iff.1 (walk_place h)

end FileSystem
end TradutorLinux
