import TradutorLinux.Util.Syscalls

/-!
# Worlds that grow and worlds that shrink

A program that only makes entries keeps all that was there, and a program that
only removes them adds nothing.  What has been added last can be taken away, and
then the world is as it was: `Built` is a history of additions, each to the world
the one before has left, and is undone from its end.

## Main definitions

* `World.Alike`, `World.Grows`, `World.Shrinks`.
* `World.Added`, `World.Lost` — one entry more, some entries under a name less.
* `Built`

## Main results

* `World.Added.unlink`, `World.Added.rmdir` — **what has been added can be taken away.**
-/

namespace TradutorLinux

open List FileSystem

/-- The place of the name that a call makes, shows or removes. -/
def Host.placeOf {ν : Type} (os : Host ν) (p : FilePath) : Option Place :=
  match Host.lastName p with
  | none => none
  | some name =>
    match os.above p with
    | .ok place => some (place ++ [name])
    | .error _ => none

variable {q : Place}

namespace Host

variable {ν : Type} {os os' : Host ν} {p : FilePath}

theorem placeOf_eq_some : os.placeOf p = some q ↔
    ∃ place name, lastName p = some name ∧ os.above p = .ok place ∧ q = place ++ [name] := by
  unfold placeOf
  cases lastName p with
  | none => simp
  | some name =>
    cases os.above p with
    | error e => simp
    | ok place => simp [eq_comm]

theorem placeOf_extends (hf : FileSystem.Extends os.fs os'.fs)
    (hc : ∀ c, os.cwd = some c → os'.cwd = some c) (h : os.placeOf p = some q) :
    os'.placeOf p = some q := by
  obtain ⟨place, name, hl, ha, rfl⟩ := placeOf_eq_some.1 h
  exact placeOf_eq_some.2 ⟨place, name, hl, World.above_extends hf hc ha, rfl⟩

theorem lstat_of_placeOf (h : os.placeOf p = some q)
    (hs : (os.fs.entry q).isSolid) : os.lstat p = .ok (os.fs.entry q) := by
  obtain ⟨place, name, hl, ha, rfl⟩ := placeOf_eq_some.1 h
  unfold lstat
  simp only [hl, ha]
  refine World.entryAt_ok_iff.2 ⟨rfl, isMissing_of_isSolid hs, ?_⟩
  intro hd
  rw [hd] at hs
  cases hs

end Host

namespace World

variable {i : Inode}

theorem uses_of_lstat {w : World} {p : FilePath} {e : Entry Inode}
    (h : w.host.lstat p = .ok e) (hn : e.node = some i) : w.Uses i := by
  unfold Host.lstat at h
  split at h
  · next name _ =>
    split at h
    · next place _ => exact .inl ⟨place ++ [name], by rw [(entryAt_ok_iff.1 h).1, hn]⟩
    · cases h
  · split at h
    · next place _ _ =>
      cases h
      exact .inl ⟨place, hn⟩
    · cases h
    · cases h

/-! ### Two worlds -/

/-- The same entries, as calls find them. -/
structure Alike (w w' : World) : Prop where
  entry : ∀ q, w'.host.fs.entry q = w.host.fs.entry q
  cwd : w'.host.cwd = w.host.cwd

/-- What was there is still there, and what is in use was in use or is new. -/
structure Grows (w w' : World) : Prop where
  fs : FileSystem.Extends w.host.fs w'.host.fs
  cwd : w'.host.cwd = w.host.cwd
  bytes : ∀ i, w.Uses i → w'.bytes i = w.bytes i
  clock : w.clock ≤ w'.clock
  uses : ∀ i, w'.Uses i → w.Uses i ∨ w.clock ≤ i.generation
  held : ∀ i ∈ w.held, i ∈ w'.held

/-- Entries and descriptors are gone, and nothing has been added. -/
structure Shrinks (w w' : World) : Prop where
  entry : ∀ q, w'.host.fs.entry q = w.host.fs.entry q ∨ w'.host.fs.entry q = .missing
  cwd : ∀ c, w'.host.cwd = some c → w.host.cwd = some c
  bytes : w'.bytes = w.bytes
  clock : w'.clock = w.clock
  held : ∀ i ∈ w'.held, i ∈ w.held

namespace Alike

variable {w w' w'' : World}

theorem refl (w : World) : Alike w w := ⟨fun _ => rfl, rfl⟩

theorem fs (h : Alike w w') : FileSystem.Extends w.host.fs w'.host.fs := fun q _ => h.entry q

theorem placeOf (h : Alike w w') {p : FilePath} (hq : w.host.placeOf p = some q) :
    w'.host.placeOf p = some q :=
  Host.placeOf_extends h.fs (fun c hc => by rw [h.cwd, hc]) hq

end Alike

namespace Grows

variable {w w' w'' : World}

theorem refl (w : World) : Grows w w :=
  ⟨.refl _, rfl, fun _ _ => rfl, le_refl _, fun _ h => .inl h, fun _ h => h⟩

theorem held_uses (h : Grows w w') (hi : w.Uses i) : w'.Uses i := by
  rcases hi with ⟨q, hq⟩ | hh
  · refine .inl ⟨q, ?_⟩
    rw [h.fs q, hq]
    cases he : w.host.fs.entry q <;> simp_all [Entry.node, Entry.isMissing]
  · exact .inr (h.held i hh)

theorem trans (h : Grows w w') (h' : Grows w' w'') : Grows w w'' where
  fs := h.fs.trans h'.fs
  cwd := h'.cwd.trans h.cwd
  bytes i hi := (h'.bytes i (h.held_uses hi)).trans (h.bytes i hi)
  clock := h.clock.trans h'.clock
  uses i hi := by
    rcases h'.uses i hi with hi | hi
    · exact h.uses i hi
    · exact .inr (h.clock.trans hi)
  held i hi := h'.held i (h.held i hi)

theorem keeps_cwd (h : Grows w w') (c : Place) (hc : w.host.cwd = some c) :
    w'.host.cwd = some c := by rw [h.cwd, hc]

theorem placeOf (h : Grows w w') {p : FilePath} (hq : w.host.placeOf p = some q) :
    w'.host.placeOf p = some q := Host.placeOf_extends h.fs h.keeps_cwd hq

theorem lstat (h : Grows w w') {p : FilePath} {e : Entry Inode} (he : w.host.lstat p = .ok e)
    (ht : e.isMissing = false) : w'.host.lstat p = .ok e :=
  lstat_extends h.fs h.keeps_cwd he ht

end Grows

namespace Shrinks

variable {w w' w'' : World}

theorem refl (w : World) : Shrinks w w := ⟨fun _ => .inl rfl, fun _ h => h, rfl, rfl, fun _ h => h⟩

theorem trans (h : Shrinks w w') (h' : Shrinks w' w'') : Shrinks w w'' where
  entry q := by
    rcases h'.entry q with hq | hq
    · rw [hq]
      exact h.entry q
    · exact .inr hq
  cwd c hc := h.cwd c (h'.cwd c hc)
  bytes := h'.bytes.trans h.bytes
  clock := h'.clock.trans h.clock
  held i hi := h.held i (h'.held i hi)

theorem fs (h : Shrinks w w') : FileSystem.Extends w'.host.fs w.host.fs := by
  intro q ht
  rcases h.entry q with hq | hq
  · exact hq.symm
  · rw [hq] at ht
    cases ht

theorem placeOf (h : Shrinks w w') {p : FilePath}
    (hq : w'.host.placeOf p = some q) : w.host.placeOf p = some q :=
  Host.placeOf_extends h.fs h.cwd hq

theorem uses (h : Shrinks w w') (hi : w'.Uses i) : w.Uses i := by
  rcases hi with ⟨q, hq⟩ | hh
  · rcases h.entry q with he | he
    · exact .inl ⟨q, by rw [← he, hq]⟩
    · rw [he] at hq
      cases hq
  · exact .inr (h.held i hh)

theorem close (w : World) (i : Inode) : Shrinks w (w.close i) :=
  ⟨fun _ => .inl rfl, fun _ h => h, rfl, rfl, fun _ h => List.mem_of_mem_erase h⟩

theorem remove (w : World) {place : Place} {name : ByteString} {he} :
    Shrinks w (w.remove place name he) where
  entry q := by
    change (if q = place ++ [name] then Entry.missing else w.host.fs.entry q) = _ ∨ _
    split
    · next hq => exact .inr (if_pos hq)
    · exact .inl rfl
  cwd c hc := by
    change (if w.host.cwd = some (place ++ [name]) then none else w.host.cwd) = some c at hc
    split at hc
    · cases hc
    · exact hc
  bytes := rfl
  clock := rfl
  held _ h := h

end Shrinks

/-! ### Single calls -/

theorem shrinks_unlink (w : World) (p : FilePath) : Shrinks w ((w.unlink p).toOption.getD w) := by
  cases hu : w.unlink p with
  | error e => exact .refl w
  | ok w' =>
    obtain ⟨place, name, he, -, -, -, rfl⟩ := unlink_ok hu
    exact .remove w

theorem shrinks_rmdir (w : World) (p : FilePath) : Shrinks w ((w.rmdir p).toOption.getD w) := by
  cases hr : w.rmdir p with
  | error e => exact .refl w
  | ok w' =>
    obtain ⟨place, name, he, -, -, -, rfl⟩ := rmdir_ok hr
    exact .remove w

/-! ### One entry more -/

/-- An entry has been added under a free name. -/
structure Added (w : World) (p : FilePath) (e : Entry Inode) (w' : World) (place : Place)
    (name : ByteString) : Prop where
  lastName : Host.lastName p = some name
  above : w.host.above p = .ok place
  free : (w.host.fs.entry (place ++ [name])).isMissing = true
  entry : ∀ q, w'.host.fs.entry q = if q = place ++ [name] then e else w.host.fs.entry q
  cwd : w'.host.cwd = w.host.cwd

namespace Added

variable {w w' v : World} {p : FilePath} {e : Entry Inode} {place : Place} {name : ByteString}

section

variable (h : Added w p e w' place name)
include h

theorem fs : FileSystem.Extends w.host.fs w'.host.fs := by
  intro q ht
  rw [h.entry, if_neg]
  rintro rfl
  rw [h.free] at ht
  cases ht

theorem placeOf : w'.host.placeOf p = some (place ++ [name]) :=
  Host.placeOf_extends h.fs (fun c hc => by rw [h.cwd, hc])
    (Host.placeOf_eq_some.2 ⟨place, name, h.lastName, h.above, rfl⟩)

theorem entry_self : w'.host.fs.entry (place ++ [name]) = e := by rw [h.entry, if_pos rfl]

theorem above_of_alike (hv : Alike w' v) : v.host.above p = .ok place :=
  above_extends (h.fs.trans hv.fs) (fun c hc => by rw [hv.cwd, h.cwd, hc]) h.above

theorem isMissing_behind (hv : Alike w' v) (m : ByteString) :
    (v.host.fs.entry (place ++ [name] ++ [m])).isMissing := by
  rw [hv.entry, h.entry, if_neg (by simp)]
  refine w.host.fs.isMissing_of_not_directory ?_ m
  cases he : w.host.fs.entry (place ++ [name]) with
  | directory i =>
    have hf := h.free
    rw [he] at hf
    cases hf
  | _ => rfl

theorem alike_remove (hv : Alike w' v) {he} : Alike w (v.remove place name he) where
  entry q := by
    change (if q = place ++ [name] then Entry.missing else v.host.fs.entry q) = _
    rw [hv.entry, h.entry]
    split
    · next hq =>
      rw [hq]
      have hf := h.free
      cases hn : w.host.fs.entry (place ++ [name]) with
      | missing => rfl
      | _ => rw [hn] at hf; cases hf
    · rfl
  cwd := by
    change (if v.host.cwd = some (place ++ [name]) then none else v.host.cwd) = _
    rw [hv.cwd, h.cwd, if_neg]
    intro hc
    have hd := w.host.cwd_directory _ hc
    have ht := isMissing_of_isSolid (Entry.isSolid_of_isDirectory hd)
    rw [h.free] at ht
    cases ht

end

/-- **A file that has been added can be taken away.** -/
theorem unlink (h : Added w p (.file i) w' place name) (hv : Alike w' v) :
    ∃ v', v.unlink p = .ok v' ∧ Alike w v' := by
  have he : v.host.fs.entry (place ++ [name]) = .file i := by rw [hv.entry, h.entry_self]
  obtain ⟨hm, hu⟩ := unlink_file h.lastName (h.above_of_alike hv) he
  exact ⟨_, hu, h.alike_remove hv⟩

/-- **A directory that has been added can be taken away.** -/
theorem rmdir (h : Added w p (.directory i) w' place name) (hv : Alike w' v) :
    ∃ v', v.rmdir p = .ok v' ∧ Alike w v' := by
  have he : v.host.fs.entry (place ++ [name]) = .directory i := by rw [hv.entry, h.entry_self]
  exact ⟨_, rmdir_directory h.lastName (h.above_of_alike hv) he (h.isMissing_behind hv),
    h.alike_remove hv⟩

theorem lstat (h : Added w p e w' place name) (he : e.isSolid) (hv : Alike w' v) :
    v.host.lstat p = .ok e := by
  have hn : v.host.fs.entry (place ++ [name]) = e := by rw [hv.entry, h.entry_self]
  rw [Host.lstat_of_placeOf (hv.placeOf h.placeOf) (by rw [hn]; exact he), hn]

end Added

theorem makeAt_added {w w' : World} {p : FilePath} {e : Inode → Entry Inode} {ch : ℕ × ℕ}
    {hold : Bool} {hn : ∀ i, (e i).node = some i} (h : w.makeAt p e ch hold hn = .ok w') :
    (∃ place name, Added w p (e (w.newInode ch)) w' place name) ∧ Grows w w' ∧
      w'.Uses (w.newInode ch) ∧ w'.clock = w.clock + 1 ∧
      w'.held = (if hold then w.newInode ch :: w.held else w.held) ∧
      ∀ i, w'.bytes i = if i = w.newInode ch then [] else w.bytes i := by
  obtain ⟨place, name, hd, hf, hna, hl, ha, rfl⟩ := makeAt_ok h
  refine ⟨⟨place, name, hl, ha, hf, fun _ => rfl, rfl⟩, ⟨?_, rfl, ?_, ?_, ?_, ?_⟩,
    ?_, rfl, rfl, fun _ => rfl⟩
  · exact w.host.fs.extends_put hd hf hna
  · intro i hi
    refine if_neg ?_
    rintro rfl
    exact w.identity_newInode_ne hi rfl
  · exact Nat.le_succ _
  · intro i hi
    rcases w.uses_or_new hd hf hna (hn _) hi with rfl | hi
    · exact .inr (le_refl _)
    · exact .inl hi
  · intro i hi
    change i ∈ if hold then _ else _
    split
    · exact mem_cons_of_mem _ hi
    · exact hi
  · refine .inl ⟨place ++ [name], ?_⟩
    change Entry.node (if _ then _ else _) = _
    rw [if_pos rfl]
    exact hn _

theorem grows_mkdir (w : World) (p : FilePath) (ch : ℕ × ℕ) :
    Grows w ((w.mkdir p ch).toOption.getD w) := by
  cases hm : w.mkdir p ch with
  | error e => exact .refl w
  | ok w' => exact (makeAt_added hm).2.1

theorem create_append {w w' : World} {p : FilePath} {ch : ℕ × ℕ}
    (h : w.create p ch = .ok w') (data : ByteString) :
    (∃ place name, Added w p (.file (w.newInode ch)) (w'.append (w.newInode ch) data) place name) ∧
      Grows w (w'.append (w.newInode ch) data) ∧
      w.newInode ch ∈ (w'.append (w.newInode ch) data).held ∧
      (w'.append (w.newInode ch) data).bytes (w.newInode ch) = data := by
  obtain ⟨⟨place, name, ha⟩, hg, -, -, hh, hb⟩ := makeAt_added h
  refine ⟨⟨place, name, ha.lastName, ha.above, ha.free, ha.entry, ha.cwd⟩,
    { hg with bytes := ?_ }, ?_, ?_⟩
  · intro i hi
    rw [← hg.bytes i hi]
    refine if_neg ?_
    rintro rfl
    exact w.identity_newInode_ne hi rfl
  · change w.newInode ch ∈ w'.held
    rw [hh]
    exact mem_cons_self
  · change (if _ then _ else _) = data
    rw [if_pos rfl, hb, if_pos rfl, nil_append]

/-! ### Entries less -/

/-- What has gone stood under the name of the path and had the identity; one descriptor may have
been closed. -/
structure Lost (p : FilePath) (identity : ℕ × ℕ) (directory : Bool) (closes : Option Inode)
    (w w' : World) : Prop extends Shrinks w w' where
  lost : ∀ q, w'.host.fs.entry q ≠ w.host.fs.entry q → w.host.placeOf p = some q ∧
    (w.host.fs.entry q).isDirectory = directory ∧
    ∃ i, (w.host.fs.entry q).node = some i ∧ i.identity = identity
  kept : ∀ i ∈ w.held, i ∈ w'.held ∨ closes = some i

section Lost

variable {w w' : World} {p : FilePath} {idt : ℕ × ℕ} {directory d : Bool}
  {closes : Option Inode}

theorem Lost.refl (w : World) : Lost p idt d closes w w :=
  ⟨.refl w, fun _ hn => absurd rfl hn, fun _ h => .inl h⟩

theorem Lost.close (h : Lost p idt d none w w') : Lost p idt d (some i) w (w'.close i) := by
  refine ⟨h.toShrinks.trans (.close w' i), h.lost, fun j hj => ?_⟩
  rcases h.kept j hj with hj | hj
  · by_cases hi : j = i
    · exact .inr (by rw [hi])
    · exact .inl ((mem_erase_of_ne hi).2 hj)
  · cases hj

theorem lost_remove {place : Place} {name : ByteString} {hm} {e : Entry Inode}
    (hl : Host.lastName p = some name) (ha : w.host.above p = .ok place)
    (hs : w.host.lstat p = .ok e) (hd : (w.host.fs.entry (place ++ [name])).isDirectory = d)
    (hi : ∃ i, e.node = some i ∧ i.identity = idt) :
    Lost p idt d closes w (w.remove place name hm) := by
  refine ⟨.remove w, fun q hn => ?_, fun _ h => .inl h⟩
  have hq : q = place ++ [name] := by
    by_contra ho
    exact hn (if_neg ho)
  subst hq
  have he : w.host.fs.entry (place ++ [name]) = e := by
    unfold Host.lstat at hs
    simp only [hl, ha] at hs
    exact (entryAt_ok_iff.1 hs).1
  refine ⟨Host.placeOf_eq_some.2 ⟨place, name, hl, ha, rfl⟩, hd, ?_⟩
  rw [he]
  exact hi

/-- Turn by turn, what goes stood under one of the names and had its identity, and did so from the
beginning. -/
theorem foldl_lost {α σ : Type} {wo : σ → World} {t : σ → α → σ} {pa : α → FilePath}
    {ie : α → ℕ × ℕ} {c : α → Option Inode}
    (ht : ∀ s x, Lost (pa x) (ie x) d (c x) (wo s) (wo (t s x))) (xs : List α) (s : σ) :
    Shrinks (wo s) (wo (xs.foldl t s)) ∧
      (∀ q, (wo (xs.foldl t s)).host.fs.entry q ≠ (wo s).host.fs.entry q →
        ∃ x ∈ xs, (wo s).host.placeOf (pa x) = some q ∧
          ((wo s).host.fs.entry q).isDirectory = d ∧
          ∃ i, ((wo s).host.fs.entry q).node = some i ∧ i.identity = ie x) ∧
      ∀ i ∈ (wo s).held, i ∈ (wo (xs.foldl t s)).held ∨
        ∃ x ∈ xs, c x = some i := by
  induction xs generalizing s with
  | nil => exact ⟨.refl _, fun q hn => absurd rfl hn, fun _ h => .inl h⟩
  | cons x xs ih =>
    have hx := ht s x
    obtain ⟨hs, hl, hk⟩ := ih (t s x)
    refine ⟨hx.toShrinks.trans hs, fun q hn => ?_, fun i hi => ?_⟩
    · by_cases hf : (wo (t s x)).host.fs.entry q = (wo s).host.fs.entry q
      · obtain ⟨y, hy, hp, he⟩ := hl q (by rwa [hf])
        rw [hf] at he
        exact ⟨y, mem_cons_of_mem _ hy, hx.placeOf hp, he⟩
      · exact ⟨x, mem_cons_self, hx.lost q hf⟩
    · rcases hx.kept i hi with hi | hc
      · refine (hk i hi).imp_right ?_
        rintro ⟨y, hy, hc⟩
        exact ⟨y, mem_cons_of_mem _ hy, hc⟩
      · exact .inr ⟨x, mem_cons_self, hc⟩

end Lost

/-! ### Histories -/

/-- Every addition is to the world that the one before has left. -/
inductive Built {α : Type} (adds : α → World → World → Prop) (w : World) :
    List α → World → Prop
  | nil : Built adds w [] w
  | snoc {xs : List α} {x : α} {w' w'' : World} :
    Built adds w xs w' → adds x w' w'' → Built adds w (xs ++ [x]) w''

namespace Built

variable {α : Type} {adds : α → World → World → Prop} {w w' : World} {xs : List α}

theorem cons {x : α} {w₁ : World} (ha : adds x w w₁) (h : Built adds w₁ xs w') :
    Built adds w (x :: xs) w' := by
  induction h with
  | nil => exact .snoc .nil ha
  | snoc _ hl ih => exact .snoc ih hl

theorem grows (ha : ∀ x w w', adds x w w' → Grows w w') (h : Built adds w xs w') : Grows w w' := by
  induction h with
  | nil => exact .refl w
  | snoc _ hd ih => exact ih.trans (ha _ _ _ hd)

theorem exists_of_mem (had : ∀ x w w', adds x w w' → Grows w w') (h : Built adds w xs w')
    {x : α} (hx : x ∈ xs) : ∃ a b, Grows w a ∧ adds x a b ∧ Grows b w' := by
  induction h with
  | nil => cases hx
  | @snoc xs y w' w'' hu hd ih =>
    rcases mem_append.1 hx with hx | hx
    · obtain ⟨a, b, ha, hab, hb⟩ := ih hx
      exact ⟨a, b, ha, hab, hb.trans (had _ _ _ hd)⟩
    · rw [mem_singleton.1 hx]
      exact ⟨w', w'', hu.grows had, hd, .refl _⟩

/-- **What is made later is not above what was made before.** -/
theorem free (pa : α → FilePath) (had : ∀ x w w', adds x w w' →
      ∃ e place name, e.isSolid ∧ Added w (pa x) e w' place name) (h : Built adds w xs w') :
    xs.Pairwise fun x y => ∀ p q, w'.host.placeOf (pa x) = some p →
      w'.host.placeOf (pa y) = some q → ¬q <+: p := by
  suffices hh : (∀ x ∈ xs, ∃ p, w'.host.placeOf (pa x) = some p ∧
      (w'.host.fs.entry p).isSolid) ∧ xs.Pairwise fun x y => ∀ p q,
        w'.host.placeOf (pa x) = some p → w'.host.placeOf (pa y) = some q → ¬q <+: p from
    hh.2
  induction h with
  | nil => exact ⟨fun x hx => (not_mem_nil hx).elim, .nil⟩
  | @snoc xs x w' w'' _ hd ih =>
    obtain ⟨ht, hpa⟩ := ih
    obtain ⟨e, place, name, hs, ha⟩ := had x w' w'' hd
    have hk : ∀ y ∈ xs, ∃ p, w'.host.placeOf (pa y) = some p ∧
        w''.host.placeOf (pa y) = some p ∧ (w'.host.fs.entry p).isSolid := by
      intro y hy
      obtain ⟨p, hp, ho⟩ := ht y hy
      exact ⟨p, hp, Host.placeOf_extends ha.fs (fun c hc => by rw [ha.cwd, hc]) hp, ho⟩
    constructor
    · intro y hy
      rcases mem_append.1 hy with hy | hy
      · obtain ⟨p, -, hp, ho⟩ := hk y hy
        refine ⟨p, hp, ?_⟩
        rw [ha.fs p (isMissing_of_isSolid ho)]
        exact ho
      · rw [mem_singleton.1 hy]
        exact ⟨_, ha.placeOf, by rw [ha.entry_self]; exact hs⟩
    · rw [pairwise_append]
      refine ⟨?_, pairwise_singleton _ _, ?_⟩
      · refine hpa.imp_of_mem ?_
        intro y z hy hz hyz p q hp hq
        obtain ⟨p', hp', hp'', -⟩ := hk y hy
        obtain ⟨q', hq', hq'', -⟩ := hk z hz
        rw [hp''] at hp
        rw [hq''] at hq
        cases hp
        cases hq
        exact hyz p q hp' hq'
      · intro y hy z hz p q hp hq hr
        rw [mem_singleton.1 hz, ha.placeOf] at hq
        cases hq
        obtain ⟨p', -, hp'', ho⟩ := hk y hy
        rw [hp''] at hp
        cases hp
        -- the name was free, and what stood before would stand behind it
        obtain ⟨r, rfl⟩ := hr
        have hb := w'.host.fs.isMissing_of_prefix ha.free r
        rw [isMissing_of_isSolid ho] at hb
        cases hb

theorem foldl_fine {σ : Type} (f : σ → Prop) {t : σ → α → σ} (hf : ∀ s x, f (t s x) → f s) :
    ∀ (ys : List α) (s : σ), f (ys.foldl t s) → f s := by
  intro ys
  induction ys with
  | nil => exact fun _ hs => hs
  | cons y ys ih => exact fun s hs => hf s y (ih _ hs)

/-- **What has been built is taken back from its end.** -/
theorem undone {σ : Type} (wo : σ → World) (f : σ → Prop) {t : σ → α → σ}
    (ht : ∀ x w w' s, adds x w w' → Alike w' (wo s) → f (t s x) → Alike w (wo (t s x)))
    (hf : ∀ s x, f (t s x) → f s) (h : Built adds w xs w') (s : σ)
    (hs : Alike w' (wo s)) (he : f (xs.reverse.foldl t s)) :
    Alike w (wo (xs.reverse.foldl t s)) := by
  induction h generalizing s with
  | nil => exact hs
  | snoc _ ha ih =>
    rw [reverse_append, reverse_singleton, singleton_append, foldl_cons]
      at he ⊢
    exact ih _ (ht _ _ _ s ha hs (foldl_fine f hf _ _ he)) he

end Built

end World
end TradutorLinux
