import TradutorLinux.Util.FileSystem

/-!
# Adding and removing entries

An entry is put where nothing is, in a directory that is there, and taken away
when nothing stands in it.  A file system that has all another one has, and
perhaps more, takes every lookup that succeeds there to the same place.

## Main definitions

* `FileSystem.put`, `FileSystem.erase`.
* `FileSystem.Extends` — a file system has what another one has.

## Main results

* `FileSystem.walk_extends` — **lookups that succeed still do**, and go to the same place.
-/

namespace TradutorLinux

open List

open FilePath (dot dotdot)

namespace FileSystem

variable {ν : Type} (fs : FileSystem ν)

/-! ### Entries in a directory -/

/-- Nothing stands in a directory. -/
def isEmptyAt (place : Place) : Bool :=
  fs.places.all fun p => p.dropLast != place || p.isEmpty || (fs.entry p).isMissing

variable {place pl : Place}

theorem isEmptyAt_iff : fs.isEmptyAt pl ↔ ∀ nm, (fs.entry (pl ++ [nm])).isMissing := by
  rw [isEmptyAt, all_eq_true]
  constructor
  · intro h nm
    by_contra he
    rw [Bool.not_eq_true] at he
    simpa [he] using h _ (fs.complete _ he)
  · intro h p _
    by_cases hp : p = []
    · simp [hp]
    by_cases hpl : p.dropLast = pl
    · have hl := dropLast_append_getLast hp
      rw [hpl] at hl
      rw [← hl]
      simp [h]
    · simp [hpl]

def put (place : Place) (name : ByteString) (e : Entry ν)
    (hdir : (fs.entry place).isDirectory = true)
    (hfree : (fs.entry (place ++ [name])).isMissing = true)
    (hname : name ≠ dot ∧ name ≠ dotdot) : FileSystem ν where
  entry q := if q = place ++ [name] then e else fs.entry q
  places := (place ++ [name]) :: fs.places
  root := by
    rw [if_neg (by simp)]
    exact fs.root
  parent := by
    intro q m hentry
    by_cases hq : q ++ [m] = place ++ [name]
    · obtain ⟨rfl, -⟩ := append_inj' hq rfl
      rw [if_neg (by simp)]
      exact hdir
    · rw [if_neg hq] at hentry
      have hparent := fs.parent q m hentry
      split
      · next hsame =>
        rw [hsame] at hparent
        cases hmissing : fs.entry (place ++ [name]) <;>
          simp_all [Entry.isMissing, Entry.isDirectory]
      · exact hparent
  proper := by
    intro q m hentry
    by_cases hq : q ++ [m] = place ++ [name]
    · obtain ⟨-, hm⟩ := append_inj' hq rfl
      cases hm
      exact hname
    · rw [if_neg hq] at hentry
      exact fs.proper q m hentry
  complete := by
    intro q hentry
    by_cases hq : q = place ++ [name]
    · exact hq ▸ mem_cons_self
    · rw [if_neg hq] at hentry
      exact mem_cons_of_mem _ (fs.complete q hentry)

/-- Take away an entry in which nothing stands. -/
def erase (place : Place) (name : ByteString)
    (hempty : ∀ m, (fs.entry (place ++ [name] ++ [m])).isMissing = true) : FileSystem ν where
  entry q := if q = place ++ [name] then .missing else fs.entry q
  places := fs.places
  root := by
    rw [if_neg (by simp)]
    exact fs.root
  parent := by
    intro q m hentry
    by_cases hq : q ++ [m] = place ++ [name]
    · rw [if_pos hq] at hentry
      cases hentry
    rw [if_neg hq] at hentry
    have hne : q ≠ place ++ [name] := by
      rintro rfl
      rw [hempty m] at hentry
      cases hentry
    rw [if_neg hne]
    exact fs.parent q m hentry
  proper := by
    intro q m hentry
    by_cases hq : q ++ [m] = place ++ [name]
    · rw [if_pos hq] at hentry
      cases hentry
    · rw [if_neg hq] at hentry
      exact fs.proper q m hentry
  complete := by
    intro q hentry
    by_cases hq : q = place ++ [name]
    · rw [if_pos hq] at hentry
      cases hentry
    · rw [if_neg hq] at hentry
      exact fs.complete q hentry

theorem isMissing_of_not_directory (h : (fs.entry pl).isDirectory = false)
    (nm : ByteString) : (fs.entry (pl ++ [nm])).isMissing := by
  by_contra he
  rw [Bool.not_eq_true] at he
  rw [fs.parent pl nm he] at h
  cases h

theorem isMissing_of_prefix (h : (fs.entry pl).isMissing) :
    ∀ r, (fs.entry (pl ++ r)).isMissing := by
  intro r
  induction r using List.reverseRecOn with
  | nil => rwa [append_nil]
  | append_singleton r nm ih =>
    rw [← append_assoc]
    refine fs.isMissing_of_not_directory ?_ nm
    cases he : fs.entry (pl ++ r) with
    | directory nd => rw [he] at ih; cases ih
    | _ => rfl

@[simp] theorem entry_put {nm : ByteString} {e : Entry ν} {hd hf hn}
    (q : Place) : (fs.put pl nm e hd hf hn).entry q =
      if q = pl ++ [nm] then e else fs.entry q := rfl

@[simp] theorem entry_erase {nm : ByteString} {he} (q : Place) :
    (fs.erase pl nm he).entry q = if q = pl ++ [nm] then .missing else fs.entry q := rfl

/-! ### Having more -/

/-- What stands in one file system stands in the other. -/
def Extends (fs fs' : FileSystem ν) : Prop :=
  ∀ place, (fs.entry place).isMissing = false → fs'.entry place = fs.entry place

namespace Extends

variable {fs} {fs' fs'' : FileSystem ν}

theorem refl (fs : FileSystem ν) : Extends fs fs := fun _ _ => rfl

theorem trans (h : Extends fs fs') (h' : Extends fs' fs'') : Extends fs fs'' := by
  intro pl hy
  rw [h' pl (by rw [h pl hy]; exact hy), h pl hy]

theorem isDirectory (h : Extends fs fs')
    (hd : (fs.entry pl).isDirectory) : (fs'.entry pl).isDirectory := by
  rw [h pl (isMissing_of_isSolid (Entry.isSolid_of_isDirectory hd))]
  exact hd

end Extends

theorem extends_put {nm : ByteString} {e : Entry ν} (hd hf hn) :
    Extends fs (fs.put pl nm e hd hf hn) := by
  intro q he
  rw [entry_put, if_neg]
  rintro rfl
  rw [hf] at he
  cases he

variable {fs} {fs' : FileSystem ν}

theorem pass_extends {ls : ℕ} {j j' : Place → List ByteString → Lookup} (h : Extends fs fs')
    (hj : ∀ pl xs p' links', j pl xs = .found p' links' → j' pl xs = .found p' links') :
    ∀ (pl : Place) (xs : List ByteString) (p' : Place) (links' : ℕ),
      fs.pass ls j pl xs = .found p' links' → fs'.pass ls j' pl xs = .found p' links' := by
  intro pl xs
  induction xs generalizing pl with
  | nil => exact fun _ _ hf => hf
  | cons nm xs ih =>
    intro p' links'
    rw [pass, pass]
    by_cases hi : (fs.entry pl).isDirectory
    · have hnot : ¬(fs.entry pl).isDirectory = false := by simp [hi]
      have hn' : ¬(fs'.entry pl).isDirectory = false := by simp [h.isDirectory hi]
      rw [if_neg hnot, if_neg hn']
      by_cases ho : nm = dot
      · rw [if_pos ho, if_pos ho]
        exact ih pl p' links'
      rw [if_neg ho, if_neg ho]
      by_cases hd : nm = dotdot
      · rw [if_pos hd, if_pos hd]
        exact ih _ p' links'
      rw [if_neg hd, if_neg hd]
      cases he : fs.entry (pl ++ [nm]) with
      | missing => intro hf; cases hf
      | denied => intro hf; cases hf
      | file nd =>
        rw [h _ (by rw [he]; rfl), he]
        exact ih _ p' links'
      | directory nd =>
        rw [h _ (by rw [he]; rfl), he]
        exact ih _ p' links'
      | link nd t =>
        rw [h _ (by rw [he]; rfl), he]
        exact hj _ _ p' links'
    · rw [if_pos (by simpa using hi)]
      intro hf
      cases hf

/-- **Lookups that succeed still do** where more stands. -/
theorem walk_extends (h : Extends fs fs') {ls : ℕ} {xs : List ByteString}
    {p' : Place} {links' : ℕ} (ho : fs.walk ls pl xs = .found p' links') :
    fs'.walk ls pl xs = .found p' links' := by
  induction ls generalizing pl xs p' links' with
  | zero => exact pass_extends h (fun _ _ _ _ hf => by cases hf) pl xs p' links' ho
  | succ ls ih => exact pass_extends h (fun _ _ _ _ hf => ih hf) pl xs p' links' ho

end FileSystem
end TradutorLinux
