import TradutorLinux.Util.FileChanges
import TradutorLinux.Util.StdFilesystem

/-!
# Files and directories as the kernel has them

A world is a host whose entries are inodes, the bytes of the files, the inodes
that open descriptors hold, and a clock.  An inode shows its device and number,
which another one may get when it is gone; when it was made, which tells the two
apart, no call shows.  What is in use, because an entry or a descriptor has it,
shares its device and number with nothing else in use.

## Main definitions

* `Inode`, `World` — with the identities in use as an invariant.
* `Host.lstat`, `World.mkdir`, `World.create`, `World.unlink`, `World.rmdir`, `World.append`.

## Main results

* `World.makeAt_ok`, `World.unlink_ok`, `World.rmdir_ok` — what a call has done when it succeeds.
-/

namespace TradutorLinux

open List

open FilePath (dot dotdot)

/-- The errors that callers tell apart. -/
inductive FsError
  | noent
  | exist
  | notdir
  | notempty
  | isdir
  | loop
  | denied
  | other (code : ℕ)
deriving DecidableEq

/-! ### Looking at a name -/

namespace Host

variable {ν : Type} (os : Host ν)

/-- The name that a call makes, shows or removes. -/
def lastName (p : FilePath) : Option ByteString :=
  if p.slash then none
  else p.names.getLast?.filter fun name => name != dot && name != dotdot

/-- The directory that the name is in. -/
def above (p : FilePath) : Except FsError Place :=
  match os.start p with
  | none => .error .noent
  | some first =>
    match os.fs.walk linkLimit first p.names.dropLast with
    | .found place _ => if (os.fs.entry place).isDirectory then .ok place else .error .notdir
    | .missing notDirectory => .error (if notDirectory then .notdir else .noent)
    | .failed => .error .denied

/-- What stands under a name of a directory. -/
def entryAt (place : Place) (name : ByteString) : Except FsError (Entry ν) :=
  match os.fs.entry (place ++ [name]) with
  | .missing => .error .noent
  | .denied => .error .denied
  | e => .ok e

/-- `lstat`: the last name is not followed. -/
def lstat (p : FilePath) : Except FsError (Entry ν) :=
  match lastName p with
  | some name =>
    match os.above p with
    | .ok place => os.entryAt place name
    | .error e => .error e
  | none =>
    match os.status p with
    | .found place _ => .ok (os.fs.entry place)
    | .missing notDirectory => .error (if notDirectory then .notdir else .noent)
    | .failed => .error .denied

end Host

/-! ### Inodes -/

/-- An inode; `generation` is when it was made. -/
structure Inode where
  device : ℕ
  number : ℕ
  generation : ℕ
  regular : Bool := true
deriving DecidableEq

/-- What `stat` shows of an inode. -/
def Inode.identity (i : Inode) : ℕ × ℕ := (i.device, i.number)

/-- An entry or a descriptor has the inode. -/
def InUse (fs : FileSystem Inode) (held : List Inode) (i : Inode) : Prop :=
  (∃ place, (fs.entry place).node = some i) ∨ i ∈ held

/-- The files of a host, and what is open. -/
structure World where
  host : Host Inode
  bytes : Inode → ByteString
  held : List Inode
  clock : ℕ
  older : ∀ i, InUse host.fs held i → i.generation < clock
  distinct : ∀ i j, InUse host.fs held i → InUse host.fs held j → i.identity = j.identity → i = j

namespace World

variable (w : World)

def Uses (i : Inode) : Prop := InUse w.host.fs w.held i

def numbers : List ℕ :=
  w.host.fs.places.filterMap (fun place => (w.host.fs.entry place).node.map Inode.number) ++
    w.held.map Inode.number

variable {i : Inode}

theorem number_mem (h : w.Uses i) : i.number ∈ w.numbers := by
  rw [numbers, mem_append]
  rcases h with ⟨pl, hp⟩ | hh
  · refine .inl (mem_filterMap.2 ⟨pl, w.host.fs.complete pl ?_, by simp [hp]⟩)
    cases he : w.host.fs.entry pl <;> simp_all [Entry.node, Entry.isMissing]
  · exact .inr (mem_map_of_mem hh)

def taken (identity : ℕ × ℕ) : Bool :=
  w.host.fs.places.any (fun place =>
      (w.host.fs.entry place).node.any fun i => i.identity == identity) ||
    w.held.any fun i => i.identity == identity

theorem taken_of_uses (h : w.Uses i) : w.taken i.identity := by
  rw [taken, Bool.or_eq_true, any_eq_true, any_eq_true]
  rcases h with ⟨pl, hp⟩ | hh
  · refine .inl ⟨pl, w.host.fs.complete pl ?_, by simp [hp]⟩
    cases he : w.host.fs.entry pl <;> simp_all [Entry.node, Entry.isMissing]
  · exact .inr ⟨i, hh, by simp⟩

/-- The inode of something new: the kernel's choice of device and number if nothing has them, and a
number above all others if something has. -/
def newInode (choice : ℕ × ℕ) : Inode where
  device := choice.1
  number := if w.taken choice then w.numbers.foldr max 0 + 1 else choice.2
  generation := w.clock

theorem le_foldr_max {n : ℕ} : ∀ {ns : List ℕ}, n ∈ ns → n ≤ ns.foldr max 0 := by
  intro ns
  induction ns with
  | nil => intro h; cases h
  | cons m ns ih =>
    intro h
    rcases mem_cons.1 h with rfl | h
    · exact le_max_left _ _
    · exact le_max_of_le_right (ih h)

variable {ch : ℕ × ℕ}

/-- **What is new shares its identity with nothing in use.** -/
theorem identity_newInode_ne (h : w.Uses i) : i.identity ≠ (w.newInode ch).identity := by
  intro heq
  rw [Inode.identity, Inode.identity, Prod.mk.injEq] at heq
  obtain ⟨hd, hn⟩ := heq
  simp only [newInode] at hd hn
  split at hn
  · have := le_foldr_max (w.number_mem h)
    omega
  · next hf =>
    have ht := w.taken_of_uses h
    rw [Inode.identity, hd, hn] at ht
    exact hf ht

def inodes (fs : FileSystem Inode) : List Inode :=
  fs.places.filterMap fun place => (fs.entry place).node

theorem mem_inodes {fs : FileSystem Inode} (h : InUse fs [] i) : i ∈ inodes fs := by
  rcases h with ⟨pl, hp⟩ | hh
  · refine mem_filterMap.2 ⟨pl, fs.complete pl ?_, hp⟩
    cases he : fs.entry pl <;> simp_all [Entry.node, Entry.isMissing]
  · cases hh

/-- A world in which nothing is open and every file is empty. -/
def ofFiles (fs : FileSystem Inode) (clock : ℕ) (hgen : ∀ i ∈ inodes fs, i.generation < clock)
    (hdistinct : ∀ i ∈ inodes fs, ∀ j ∈ inodes fs, i.identity = j.identity → i = j) : World where
  host :=
    { fs := fs
      cwd := none
      cwd_directory := nofun }
  bytes _ := []
  held := []
  clock := clock
  older i hi := hgen i (mem_inodes hi)
  distinct i j hi hj := hdistinct i (mem_inodes hi) j (mem_inodes hj)

theorem generation_lt (h : w.Uses i) : i.generation < w.clock := w.older i h

/-! ### Making an entry -/

variable {place pl : Place} {name na : ByteString}

theorem uses_or_new {e : Entry Inode} {hold : Bool} (hd hf hn) (ho : e.node = some (w.newInode ch))
    (h : InUse (w.host.fs.put pl na e hd hf hn)
      (if hold then w.newInode ch :: w.held else w.held) i) : i = w.newInode ch ∨ w.Uses i := by
  rcases h with ⟨q, hq⟩ | hh
  · rw [FileSystem.entry_put] at hq
    split at hq
    · rw [ho, Option.some.injEq] at hq
      exact .inl hq.symm
    · exact .inr (.inl ⟨q, hq⟩)
  · split at hh
    · exact (mem_cons.1 hh).imp_right fun h => .inr h
    · exact .inr (.inr hh)

/-- The world with a new entry. -/
def put (place : Place) (name : ByteString) (e : Entry Inode) (choice : ℕ × ℕ) (hold : Bool)
    (hnode : e.node = some (w.newInode choice))
    (hdir : (w.host.fs.entry place).isDirectory = true)
    (hfree : (w.host.fs.entry (place ++ [name])).isMissing = true)
    (hname : name ≠ dot ∧ name ≠ dotdot) : World where
  host :=
    { fs := w.host.fs.put place name e hdir hfree hname
      cwd := w.host.cwd
      cwd_directory := fun cwd hcwd =>
        (w.host.fs.extends_put hdir hfree hname).isDirectory (w.host.cwd_directory cwd hcwd) }
  bytes i := if i = w.newInode choice then [] else w.bytes i
  held := if hold then w.newInode choice :: w.held else w.held
  clock := w.clock + 1
  older := by
    intro i hi
    rcases w.uses_or_new hdir hfree hname hnode hi with rfl | hi
    · exact Nat.lt_succ_self _
    · exact Nat.lt_succ_of_lt (w.generation_lt hi)
  distinct := by
    intro i j hi hj heq
    rcases w.uses_or_new hdir hfree hname hnode hi with rfl | hi <;>
      rcases w.uses_or_new hdir hfree hname hnode hj with rfl | hj
    · rfl
    · exact absurd heq.symm (w.identity_newInode_ne hj)
    · exact absurd heq (w.identity_newInode_ne hi)
    · exact w.distinct i j hi hj heq

def make (place : Place) (name : ByteString) (e : Inode → Entry Inode) (choice : ℕ × ℕ)
    (hold : Bool) (hnode : ∀ i, (e i).node = some i) : Except FsError World :=
  if h : (w.host.fs.entry place).isDirectory = true ∧
      (w.host.fs.entry (place ++ [name])).isMissing = true ∧ name ≠ dot ∧ name ≠ dotdot then
    .ok (w.put place name (e (w.newInode choice)) choice hold (hnode _) h.1 h.2.1 h.2.2)
  else .error .exist

/-- A call that makes an entry, with `O_EXCL` if it opens it. -/
def makeAt (p : FilePath) (e : Inode → Entry Inode) (choice : ℕ × ℕ) (hold : Bool)
    (hnode : ∀ i, (e i).node = some i) : Except FsError World :=
  match Host.lastName p with
  | none => .error .exist
  | some name =>
    match w.host.above p with
    | .error e => .error e
    | .ok place =>
      match w.host.entryAt place name with
      | .ok _ => .error .exist
      | .error .noent => w.make place name e choice hold hnode
      | .error e => .error e

/-- `mkdir`. -/
def mkdir (p : FilePath) (choice : ℕ × ℕ) : Except FsError World :=
  w.makeAt p .directory choice false fun _ => rfl

/-- `open` with `O_CREAT`, `O_EXCL` and `O_NOFOLLOW`: the descriptor holds the new file. -/
def create (p : FilePath) (choice : ℕ × ℕ) : Except FsError World :=
  w.makeAt p .file choice true fun _ => rfl

/-! ### Removing an entry -/

/-- The world without an entry. -/
def remove (place : Place) (name : ByteString)
    (hempty : ∀ m, (w.host.fs.entry (place ++ [name] ++ [m])).isMissing = true) : World where
  host :=
    { fs := w.host.fs.erase place name hempty
      cwd := if w.host.cwd = some (place ++ [name]) then none else w.host.cwd
      cwd_directory := by
        intro cwd hcwd
        split at hcwd
        · cases hcwd
        next hne =>
        have hcwd' : cwd ≠ place ++ [name] := by
          rintro rfl
          exact hne hcwd
        rw [FileSystem.entry_erase, if_neg hcwd']
        exact w.host.cwd_directory cwd hcwd }
  bytes := w.bytes
  held := w.held
  clock := w.clock
  older := by
    rintro i (⟨q, hq⟩ | hheld)
    · rw [FileSystem.entry_erase] at hq
      split at hq
      · cases hq
      · exact w.older i (.inl ⟨q, hq⟩)
    · exact w.older i (.inr hheld)
  distinct := by
    have hsub : ∀ i, InUse (w.host.fs.erase place name hempty) w.held i → w.Uses i := by
      rintro i (⟨q, hq⟩ | hheld)
      · rw [FileSystem.entry_erase] at hq
        split at hq
        · cases hq
        · exact .inl ⟨q, hq⟩
      · exact .inr hheld
    exact fun i j hi hj => w.distinct i j (hsub i hi) (hsub j hj)

/-- `unlink`. -/
def unlink (p : FilePath) : Except FsError World :=
  match Host.lastName p with
  | none => .error .isdir
  | some name =>
    match w.host.above p with
    | .error e => .error e
    | .ok place =>
      match w.host.entryAt place name with
      | .error e => .error e
      | .ok _ =>
        if h : (w.host.fs.entry (place ++ [name])).isDirectory = false then
          .ok (w.remove place name (w.host.fs.isMissing_of_not_directory h))
        else .error .isdir

/-- `rmdir`. -/
def rmdir (p : FilePath) : Except FsError World :=
  match Host.lastName p with
  | none => .error .notempty
  | some name =>
    match w.host.above p with
    | .error e => .error e
    | .ok place =>
      match w.host.entryAt place name with
      | .error e => .error e
      | .ok e =>
        if e.isDirectory = false then .error .notdir
        else if h : w.host.fs.isEmptyAt (place ++ [name]) = true then
          .ok (w.remove place name (w.host.fs.isEmptyAt_iff.mp h))
        else .error .notempty

/-! ### Descriptors -/

/-- `open` with `O_RDONLY` and `O_NOFOLLOW`: what the descriptor is of. -/
def openRead (p : FilePath) : Except FsError (Entry Inode) :=
  match w.host.lstat p with
  | .error e => .error e
  | .ok (.link _ _) => .error .loop
  | .ok e => .ok e

/-- What `write` moved to the end of an open file. -/
def append (i : Inode) (data : ByteString) : World :=
  { w with bytes := fun j => if j = i then w.bytes j ++ data else w.bytes j }

/-- `close`. -/
def close (i : Inode) : World where
  host := w.host
  bytes := w.bytes
  held := w.held.erase i
  clock := w.clock
  older := fun j hj => w.older j (hj.imp_right List.mem_of_mem_erase)
  distinct := fun j k hj hk => w.distinct j k (hj.imp_right List.mem_of_mem_erase)
    (hk.imp_right List.mem_of_mem_erase)

/-! ### What the calls have done -/

theorem above_isDirectory {ν : Type} {os : Host ν} {p : FilePath}
    (h : os.above p = .ok pl) : (os.fs.entry pl).isDirectory := by
  unfold Host.above at h
  split at h
  · cases h
  split at h
  · split at h
    · cases h
      assumption
    · cases h
  · cases h
  · cases h

theorem entryAt_ok_iff {ν : Type} {os : Host ν} {e : Entry ν} : os.entryAt pl na = .ok e ↔
      os.fs.entry (pl ++ [na]) = e ∧ e.isMissing = false ∧ e ≠ .denied := by
  unfold Host.entryAt
  cases he : os.fs.entry (pl ++ [na]) <;> simp [Entry.isMissing] <;> aesop

variable {w} {w' : World} {p : FilePath}

/-- **A call that has made an entry** has put a new inode under a free name. -/
theorem makeAt_ok {e : Inode → Entry Inode} {hold : Bool}
    {hn : ∀ i, (e i).node = some i} (h : w.makeAt p e ch hold hn = .ok w') :
    ∃ pl na hd hf hna, Host.lastName p = some na ∧ w.host.above p = .ok pl ∧
      w' = w.put pl na (e (w.newInode ch)) ch hold (hn _) hd hf hna := by
  unfold makeAt at h
  split at h
  · cases h
  next na hl =>
  split at h
  · cases h
  next pl ha =>
  split at h
  · cases h
  · unfold make at h
    split at h
    · next hp =>
      cases h
      exact ⟨pl, na, hp.1, hp.2.1, hp.2.2, hl, ha, rfl⟩
    · cases h
  · cases h

theorem unlink_ok (h : w.unlink p = .ok w') :
    ∃ pl na hempty, Host.lastName p = some na ∧ w.host.above p = .ok pl ∧
      (w.host.fs.entry (pl ++ [na])).isDirectory = false ∧
      w' = w.remove pl na hempty := by
  unfold unlink at h
  split at h
  · cases h
  next na hl =>
  split at h
  · cases h
  next pl ha =>
  split at h
  · cases h
  split at h
  · next hf =>
    cases h
    exact ⟨pl, na, _, hl, ha, hf, rfl⟩
  · cases h

theorem rmdir_ok (h : w.rmdir p = .ok w') :
    ∃ pl na he, Host.lastName p = some na ∧ w.host.above p = .ok pl ∧
      (w.host.fs.entry (pl ++ [na])).isDirectory ∧
      w' = w.remove pl na he := by
  unfold rmdir at h
  split at h
  · cases h
  next na hl =>
  split at h
  · cases h
  next pl ha =>
  split at h
  · cases h
  next e hy =>
  split at h
  · cases h
  next hd =>
  split at h
  · next he =>
    cases h
    rw [entryAt_ok_iff] at hy
    refine ⟨pl, na, _, hl, ha, ?_, rfl⟩
    rw [hy.1]
    simpa using hd
  · cases h

theorem unlink_file (hl : Host.lastName p = some na) (ha : w.host.above p = .ok pl)
    (he : w.host.fs.entry (pl ++ [na]) = .file i) : ∃ hy, w.unlink p = .ok (w.remove pl na hy) := by
  have hd : (w.host.fs.entry (pl ++ [na])).isDirectory = false := by rw [he]; rfl
  have hs : w.host.entryAt pl na = .ok (.file i) := entryAt_ok_iff.2 ⟨he, rfl, by simp⟩
  refine ⟨w.host.fs.isMissing_of_not_directory hd, ?_⟩
  unfold unlink
  simp [hl, ha, hs, hd]

theorem rmdir_directory (hl : Host.lastName p = some na) (ha : w.host.above p = .ok pl)
    (hn : w.host.fs.entry (pl ++ [na]) = .directory i)
    (he : ∀ m, (w.host.fs.entry (pl ++ [na] ++ [m])).isMissing) :
    w.rmdir p = .ok (w.remove pl na he) := by
  have hs : w.host.entryAt pl na = .ok (.directory i) := entryAt_ok_iff.2 ⟨hn, rfl, by simp⟩
  have he' := w.host.fs.isEmptyAt_iff.2 he
  unfold rmdir
  simp [hl, ha, hs, Entry.isDirectory, Bool.true_eq_false, he']

theorem start_extends {ν : Type} {os os' : Host ν} {p : FilePath}
    (hc : ∀ c, os.cwd = some c → os'.cwd = some c) (h : os.start p = some place) :
    os'.start p = some place := by
  unfold Host.start at h ⊢
  split
  · next ha => rwa [if_pos ha] at h
  · next ha =>
    rw [if_neg ha] at h
    exact hc place h

theorem above_extends {ν : Type} {os os' : Host ν} {p : FilePath}
    (hs : FileSystem.Extends os.fs os'.fs) (hc : ∀ c, os.cwd = some c → os'.cwd = some c)
    (h : os.above p = .ok place) : os'.above p = .ok place := by
  have hd := hs.isDirectory (above_isDirectory h)
  unfold Host.above at h ⊢
  split at h
  · cases h
  next f hf =>
  rw [start_extends hc hf]
  split at h
  · next p' ls hw =>
    split at h
    · cases h
      simp [FileSystem.walk_extends hs hw, hd]
    · cases h
  · cases h
  · cases h

theorem lstat_extends {ν : Type} {os os' : Host ν} {p : FilePath} {e : Entry ν}
    (hfs : FileSystem.Extends os.fs os'.fs) (hc : ∀ c, os.cwd = some c → os'.cwd = some c)
    (h : os.lstat p = .ok e) (ht : e.isMissing = false) : os'.lstat p = .ok e := by
  unfold Host.lstat at h ⊢
  split at h
  · next name hl =>
    split at h
    · next place ha =>
      rw [above_extends hfs hc ha]
      rw [entryAt_ok_iff] at h
      refine entryAt_ok_iff.2 ⟨?_, h.2⟩
      rw [hfs _ (by rw [h.1]; exact ht), h.1]
    · cases h
  · split at h
    · next place ls hs =>
      cases h
      unfold Host.status at hs ⊢
      split at hs
      · cases hs
      next hp =>
      split at hs
      · cases hs
      · next f hf =>
        simp only [if_neg hp, start_extends hc hf, FileSystem.walk_extends hfs hs]
        rw [hfs place ht]
    · cases h
    · cases h

end World
end TradutorLinux
