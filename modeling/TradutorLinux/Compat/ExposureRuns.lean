import TradutorLinux.Compat.Exposure

/-!
# Exposures in a running program

A program has any number of exposures.  It materializes, moves and assigns them,
cleans them up and destroys them, and between these the guest changes the world as
it likes; what is new is then not older than the clock, and the descriptors of what
is staged stay open.  Of a file that is staged the descriptor keeps the identity from
being given to another.  A directory has none: once the guest has removed it, its
number may go to a directory of the guest.

## Main definitions

* `System`, `Step`, `Run`
* `CleanedUp` — what a cleanup may do.

## Main results

* `Owned.step`, `Run.owned` — **every staged thing has one owner, and is the owner's.**
* `fileExposure_transactional`
-/

namespace TradutorLinux.Compat

open FilePath

variable {strerror : FsError → ByteString}

/-! ### Programs -/

/-- An object, and the clock before and after the materialization: what that has made was made
between the two. -/
structure Owner where
  exposure : FileExposure := {}
  born : ℕ × ℕ := (0, 0)

/-- The materialization of the object has made the inode. -/
def Owner.Made (o : Owner) (i : Inode) : Prop :=
  o.born.1 ≤ i.generation ∧ i.generation < o.born.2

/-- The world and the objects of a program, by name. -/
structure System where
  world : World
  objects : ℕ → Option Owner

namespace System

/-- An object that has not been cleaned up, nor moved from. -/
def Active (s : System) (name : ℕ) (o : Owner) : Prop :=
  s.objects name = some o ∧ o.exposure.cleanupDone = false

/-- What the guest may make of the world. -/
structure Changes (s : System) (w : World) : Prop where
  clock : s.world.clock ≤ w.clock
  uses : ∀ i, w.Uses i → s.world.Uses i ∨ s.world.clock ≤ i.generation
  held : ∀ name o, s.Active name o → ∀ f ∈ o.exposure.stagedFiles, f.descriptor ∈ w.held

/-- Another world, and another object under the name. -/
def set (s : System) (name : ℕ) (o : Option Owner) (w : World) : System :=
  ⟨w, Function.update s.objects name o⟩

theorem active_set {s : System} {n nm' : ℕ} {o : Option Owner} {o' : Owner} {w : World} :
    (s.set n o w).Active nm' o' ↔ (nm' = n ∧ o = some o' ∧ o'.exposure.cleanupDone = false) ∨
        (nm' ≠ n ∧ s.Active nm' o') := by
  dsimp only [Active, set]
  by_cases hn : nm' = n
  · simp [hn]
  · simp [hn]

end System

/-- What happens in a program. -/
inductive Step (strerror : FsError → ByteString) : System → System → Prop
  | guest {s : System} {w : World} : s.Changes w → Step strerror s { s with world := w }
  | default {s : System} {name : ℕ} : s.objects name = none →
    Step strerror s (s.set name (some {}) s.world)
  | materialize {s : System} {name : ℕ} {validation : Option PathValidation} {what : ByteString}
    {sourceRoot targetRoot : FilePath} {files : List FileMapping} {answers : Answers}
    {r : FileExposure × Machine} : s.objects name = none → answers.checks = [] →
    materializeInto strerror validation what sourceRoot targetRoot files ⟨s.world, answers⟩ = r →
    Step strerror s (s.set name (some ⟨r.1, (s.world.clock, r.2.world.clock)⟩) r.2.world)
  | construct {s : System} {name other : ℕ} {o : Owner} : s.objects name = none →
    s.objects other = some o →
    Step strerror s ((s.set other (some ⟨(moveConstruct o.exposure).2, o.born⟩) s.world).set name
      (some ⟨(moveConstruct o.exposure).1, o.born⟩) s.world)
  | assign {s : System} {name other : ℕ} {this o : Owner} (answers : Answers) : name ≠ other →
    s.objects name = some this → s.objects other = some o →
    Step strerror s
      ((s.set other (some ⟨(moveAssign this.exposure o.exposure ⟨s.world, answers⟩).2.1, o.born⟩)
          s.world).set name
        (some ⟨(moveAssign this.exposure o.exposure ⟨s.world, answers⟩).1, o.born⟩)
        (moveAssign this.exposure o.exposure ⟨s.world, answers⟩).2.2.world)
  | cleanup {s : System} {name : ℕ} {o : Owner} (answers : Answers) : s.objects name = some o →
    Step strerror s (s.set name (some ⟨(cleanup o.exposure ⟨s.world, answers⟩).2.1, o.born⟩)
      (cleanup o.exposure ⟨s.world, answers⟩).2.2.world)
  | destroy {s : System} {name : ℕ} {o : Owner} (answers : Answers) : s.objects name = some o →
    Step strerror s (s.set name none (cleanup o.exposure ⟨s.world, answers⟩).2.2.world)

/-- Nothing that is new has the identity of a directory that is staged. -/
def Undisturbed (s s' : System) : Prop :=
  ∀ name o, s.Active name o → ∀ d ∈ o.exposure.stagedDirectories, ∀ i, s'.world.Uses i →
    s.world.clock ≤ i.generation → i.identity ≠ (d.device, d.inode)

/-- A run from a world without objects; every step meets the condition. -/
inductive Run (strerror : FsError → ByteString) (cond : System → System → Prop) : System → Prop
  | start (w : World) : Run strerror cond ⟨w, fun _ => none⟩
  | step {s s' : System} : Run strerror cond s → Step strerror s s' → cond s s' →
    Run strerror cond s'

/-! ### One owner -/

/-- What is staged is open and was made by its owner, of which there is one. -/
structure Owned (s : System) : Prop where
  file : ∀ name o, s.Active name o → ∀ f ∈ o.exposure.stagedFiles,
    f.descriptor ∈ s.world.held ∧ f.descriptor.identity = (f.device, f.inode) ∧
      o.Made f.descriptor
  directory : ∀ name o, s.Active name o → ∀ d ∈ o.exposure.stagedDirectories, ∀ i,
    s.world.Uses i → i.identity = (d.device, d.inode) → o.Made i
  one : ∀ name name' o o', s.Active name o → s.Active name' o' → ∀ f ∈ o.exposure.stagedFiles,
    ∀ f' ∈ o'.exposure.stagedFiles, f.descriptor = f'.descriptor → name = name'
  born : ∀ name o, s.Active name o → o.born.2 ≤ s.world.clock

namespace Owned

variable {s s' : System}

/-- The objects that are active were so before, perhaps under other names. -/
theorem next (hs : Owned s) (r : ℕ → ℕ) (ha : ∀ n o, s'.Active n o → s.Active (r n) o)
    (hn : ∀ n nm' o o', s'.Active n o → s'.Active nm' o' → r n = r nm' → n = nm')
    (hh : ∀ n o, s'.Active n o → ∀ f ∈ o.exposure.stagedFiles, f.descriptor ∈ s'.world.held)
    (hc : s.world.clock ≤ s'.world.clock)
    (hu : ∀ i, s'.world.Uses i → s.world.Uses i ∨ s.world.clock ≤ i.generation)
    (hco : Undisturbed s s') : Owned s' where
  file n o ho f hf := ⟨hh n o ho f hf, (hs.file _ o (ha n o ho) f hf).2⟩
  directory n o ho d hd i hi heq := by
    rcases hu i hi with hold | he
    · exact hs.directory _ o (ha n o ho) d hd i hold heq
    · exact absurd heq (hco _ o (ha n o ho) d hd i hi he)
  one n nm' o o' ho ho' f hf f' hf' heq :=
    hn n nm' o o' ho ho' (hs.one _ _ o o' (ha n o ho) (ha nm' o' ho') f hf f' hf' heq)
  born n o ho := (hs.born _ o (ha n o ho)).trans hc

theorem add (hs : Owned s) {n : ℕ} (hr : s.objects n = none) {o : Owner}
    (hfi : o.exposure.cleanupDone = false → ∀ f ∈ o.exposure.stagedFiles,
      f.descriptor ∈ s.world.held ∧ f.descriptor.identity = (f.device, f.inode) ∧
        o.Made f.descriptor)
    (hi : o.exposure.cleanupDone = false → ∀ d ∈ o.exposure.stagedDirectories, ∀ i,
      s.world.Uses i → i.identity = (d.device, d.inode) → o.Made i)
    (he : o.exposure.cleanupDone = false → ∀ nm' o', s.Active nm' o' →
      ∀ f ∈ o.exposure.stagedFiles, ∀ f' ∈ o'.exposure.stagedFiles, f.descriptor ≠ f'.descriptor)
    (hb : o.born.2 ≤ s.world.clock) : Owned (s.set n (some o) s.world) := by
  have hc : ∀ nm' o', (s.set n (some o) s.world).Active nm' o' →
      (nm' = n ∧ o' = o ∧ o.exposure.cleanupDone = false) ∨ (nm' ≠ n ∧ s.Active nm' o') := by
    intro nm' o' ho
    rcases System.active_set.1 ho with ⟨hn, hj, hd⟩ | ht
    · cases hj
      exact .inl ⟨hn, rfl, hd⟩
    · exact .inr ht
  refine ⟨?_, ?_, ?_, ?_⟩
  · intro nm' o' ho
    rcases hc nm' o' ho with ⟨-, rfl, hd⟩ | ⟨-, ho⟩
    · exact hfi hd
    · exact hs.file nm' o' ho
  · intro nm' o' ho
    rcases hc nm' o' ho with ⟨-, rfl, hd⟩ | ⟨-, ho⟩
    · exact hi hd
    · exact hs.directory nm' o' ho
  · intro nm₁ nm₂ o₁ o₂ ho₁ ho₂ f hf f' hf' heq
    rcases hc nm₁ o₁ ho₁ with ⟨rfl, rfl, hd⟩ | ⟨-, hl⟩ <;>
      rcases hc nm₂ o₂ ho₂ with ⟨hn, ho, hd'⟩ | ⟨-, hold'⟩
    · exact hn.symm
    · exact absurd heq (he hd nm₂ o₂ hold' f hf f' hf')
    · rw [ho] at hf'
      exact absurd heq.symm (he (ho ▸ hd') nm₁ o₁ hl f' hf' f hf)
    · exact hs.one nm₁ nm₂ o₁ o₂ hl hold' f hf f' hf' heq
  · intro nm' o' ho
    rcases hc nm' o' ho with ⟨-, rfl, -⟩ | ⟨-, ho⟩
    · exact hb
    · exact hs.born nm' o' ho

theorem held_cleanup (hs : Owned s) {n nm' : ℕ} {o o' : Owner} {a : Answers}
    (ho : s.objects n = some o) (ho' : s.Active nm' o') (hn : nm' ≠ n) :
    ∀ f ∈ o'.exposure.stagedFiles,
      f.descriptor ∈ (cleanup o.exposure ⟨s.world, a⟩).2.2.world.held := by
  intro f hf
  have hh := (hs.file nm' o' ho' f hf).1
  cases hd : o.exposure.cleanupDone with
  | true =>
    rw [cleanup, if_pos hd]
    exact hh
  | false =>
    rcases (cleanup_lost o.exposure ⟨s.world, a⟩).2.2 _ hh with hk | ⟨f', hf', heq⟩
    · exact hk
    · exact absurd (hs.one nm' n o' o ho' ⟨ho, hd⟩ f hf f' hf' heq.symm) hn

section Objects

variable {name n other ot : ℕ} {w : World}

/-- One object less: it is gone, or has nothing to take back any more. -/
theorem drop (hs : Owned s) {x : Option Owner} (hx : ∀ o, x = some o → o.exposure.cleanupDone)
    (hh : ∀ nm' o, s.Active nm' o → nm' ≠ n → ∀ f ∈ o.exposure.stagedFiles, f.descriptor ∈ w.held)
    (hc : s.world.clock ≤ w.clock)
    (hu : ∀ i, w.Uses i → s.world.Uses i ∨ s.world.clock ≤ i.generation)
    (hco : Undisturbed s (s.set n x w)) : Owned (s.set n x w) := by
  have ha : ∀ nm' o, (s.set n x w).Active nm' o → nm' ≠ n ∧ s.Active nm' o := by
    intro nm' o ho
    rcases System.active_set.1 ho with ⟨-, hxo, hd⟩ | ht
    · rw [hx o hxo] at hd
      cases hd
    · exact ht
  exact hs.next id (fun nm' o ho => (ha nm' o ho).2) (fun _ _ _ _ _ _ h => h)
    (fun nm' o ho => hh nm' o (ha nm' o ho).2 (ha nm' o ho).1) hc hu
    hco

theorem move (hs : Owned s) {o l : Owner} (he : n ≠ ot)
    (ho : s.objects ot = some o) (hl : l.exposure.cleanupDone)
    (hh : ∀ nm' o, s.Active nm' o → nm' ≠ n → ∀ f ∈ o.exposure.stagedFiles, f.descriptor ∈ w.held)
    (hc : s.world.clock ≤ w.clock)
    (hu : ∀ i, w.Uses i → s.world.Uses i ∨ s.world.clock ≤ i.generation)
    (hco : Undisturbed s ((s.set ot (some l) s.world).set n (some o) w)) :
    Owned ((s.set ot (some l) s.world).set n (some o) w) := by
  have ha : ∀ nm' o', ((s.set ot (some l) s.world).set n (some o) w).Active
      nm' o' → (nm' = n ∧ s.Active ot o') ∨ (nm' ≠ n ∧ nm' ≠ ot ∧ s.Active nm' o') := by
    intro nm' o' ho'
    rcases System.active_set.1 ho' with ⟨hn, hb, hd⟩ | ⟨hn, ho'⟩
    · cases hb
      exact .inl ⟨hn, ho, hd⟩
    rcases System.active_set.1 ho' with ⟨-, hb, hd⟩ | ⟨ht, ho'⟩
    · cases hb
      rw [hl] at hd
      cases hd
    · exact .inr ⟨hn, ht, ho'⟩
  refine hs.next (fun nm' => if nm' = n then ot else nm') ?_ ?_ ?_ hc hu hco
  · intro nm' o' ho'
    rcases ha nm' o' ho' with ⟨rfl, ho'⟩ | ⟨hn, -, ho'⟩
    · rwa [if_pos rfl]
    · rwa [if_neg hn]
  · intro nm₁ nm₂ o₁ o₂ ho₁ ho₂ heq
    rcases ha nm₁ o₁ ho₁ with ⟨rfl, -⟩ | ⟨hn₁, ht₁, -⟩ <;>
      rcases ha nm₂ o₂ ho₂ with ⟨hn₂, -⟩ | ⟨hn₂, ht₂, -⟩
    · exact hn₂.symm
    · rw [if_pos rfl, if_neg hn₂] at heq
      exact absurd heq.symm ht₂
    · rw [if_neg hn₁, if_pos hn₂] at heq
      exact absurd heq ht₁
    · rwa [if_neg hn₁, if_neg hn₂] at heq
  · intro nm' o' ho'
    rcases ha nm' o' ho' with ⟨-, ho'⟩ | ⟨hn, -, ho'⟩
    · exact hh ot o' ho' he.symm
    · exact hh nm' o' ho' hn

end Objects

/-- **What is staged keeps its one owner** in every undisturbed step. -/
theorem step (hs : Owned s) (hst : Step strerror s s') (hc : Undisturbed s s') : Owned s' := by
  cases hst with
  | guest h => exact hs.next id (fun _ _ ho => ho) (fun _ _ _ _ _ _ h => h) h.held h.clock h.uses hc
  | default he =>
    exact hs.add he (fun _ f hf => (List.not_mem_nil hf).elim)
      (fun _ d hd => (List.not_mem_nil hd).elim) (fun _ _ _ _ f hf => (List.not_mem_nil hf).elim)
      (Nat.zero_le _)
  | @materialize name validation what sourceRoot targetRoot files answers r he hch h =>
    obtain ⟨hl, hu, hh⟩ := materializeInto_later (m := ⟨s.world, answers⟩) hch h
    have ha := materializeInto_staged (m := ⟨s.world, answers⟩) hch h
    have hw : Owned ⟨r.2.world, s.objects⟩ :=
      hs.next id (fun _ _ ho => ho) (fun _ _ _ _ _ _ h => h)
        (fun name o ho f hf => hh _ (hs.file name o ho f hf).1) hl hu hc
    refine hw.add he (fun hdo f hf => ?_) (fun hdo d hd => ?_) ?_ (le_refl _)
    · obtain ⟨hop, hid, hm⟩ := (ha hdo).1 f hf
      exact ⟨hop, hid, hm⟩
    · exact (ha hdo).2 d hd
    · intro hdo nm' o' ho' f hf f' hf' heq
      have hrec := ((ha hdo).1 f hf).2.2.1
      have hold := (hs.file nm' o' ho' f' hf').2.2.2
      have hb := hs.born nm' o' ho'
      rw [heq] at hrec
      change s.world.clock ≤ _ at hrec
      omega
  | @construct name other o he ho =>
    have hn : name ≠ other := by
      rintro rfl
      rw [he] at ho
      cases ho
    exact hs.move hn ho rfl (fun nm' o' ho' _ f hf => (hs.file nm' o' ho' f hf).1)
      (le_refl _) (fun _ hi => .inl hi) hc
  | @assign name other this o answers hn ht ho =>
    have hr := (cleanup_lost this.exposure ⟨s.world, answers⟩).1
    exact hs.move hn ho rfl (fun nm' o' ho' => hs.held_cleanup ht ho')
      (le_of_eq hr.clock.symm) (fun _ hi => .inl (hr.uses hi)) hc
  | @cleanup name o answers ho =>
    have hr := (cleanup_lost o.exposure ⟨s.world, answers⟩).1
    refine hs.drop (fun o' ho' => ?_) (fun nm' o' ho' => hs.held_cleanup ho ho')
      (le_of_eq hr.clock.symm) (fun _ hi => .inl (hr.uses hi)) hc
    cases ho'
    exact cleanup_done _ _
  | @destroy name o answers ho =>
    have hr := (cleanup_lost o.exposure ⟨s.world, answers⟩).1
    exact hs.drop (fun o' ho' => by cases ho') (fun nm' o' ho' => hs.held_cleanup ho ho')
      (le_of_eq hr.clock.symm) (fun _ hi => .inl (hr.uses hi)) hc

end Owned

/-- Every object of an undisturbed run owns what it has staged. -/
theorem Run.owned {s : System} (h : Run strerror Undisturbed s) : Owned s := by
  induction h with
  | start w =>
    have hn : ∀ n o, ¬(⟨w, fun _ => none⟩ : System).Active n o := by
      rintro n o ⟨hb, -⟩
      cases hb
    exact ⟨fun n o ho => (hn n o ho).elim, fun n o ho => (hn n o ho).elim,
      fun n _ o _ ho => (hn n o ho).elim, fun n o ho => (hn n o ho).elim⟩
  | step _ hs hc ih => exact ih.step hs hc

/-! ### What a cleanup may do -/

/-- Only what the object has made is taken away: under the path, and with the identity, that were
recorded.  No bytes change. -/
structure CleanedUp (o : Owner) (w w' : World) : Prop where
  gone : ∀ q, w'.host.fs.entry q = w.host.fs.entry q ∨ w'.host.fs.entry q = .missing
  lost : ∀ q, w'.host.fs.entry q ≠ w.host.fs.entry q →
    (∃ f ∈ o.exposure.stagedFiles, w.host.placeOf f.exposed.target = some q ∧
      (w.host.fs.entry q).isDirectory = false ∧
      (w.host.fs.entry q).node = some f.descriptor ∧
      f.descriptor.identity = (f.device, f.inode) ∧ o.Made f.descriptor) ∨
    ∃ d ∈ o.exposure.stagedDirectories, w.host.placeOf d.path = some q ∧
      ∃ i, w.host.fs.entry q = .directory i ∧ i.identity = (d.device, d.inode) ∧ o.Made i
  bytes : w'.bytes = w.bytes

theorem Owned.cleanedUp {s : System} (hs : Owned s) {n : ℕ} {o : Owner} (a : Answers)
    (ho : s.objects n = some o) :
    CleanedUp o s.world (cleanup o.exposure ⟨s.world, a⟩).2.2.world := by
  obtain ⟨hh, hl, -⟩ := cleanup_lost o.exposure ⟨s.world, a⟩
  refine ⟨hh.entry, fun q hne => ?_, hh.bytes⟩
  cases hdo : o.exposure.cleanupDone with
  | true =>
    rw [cleanup, if_pos hdo] at hne
    exact absurd rfl hne
  | false =>
    rcases hl q hne with ⟨f, hf, hp, hfi, i, hn, hi⟩ | ⟨d, hd, hp, hr, i, hn, hi⟩
    · obtain ⟨hop, hrec, hm⟩ := hs.file n o ⟨ho, hdo⟩ f hf
      -- the descriptor is still open, so that no other inode has its identity
      have ha : i = f.descriptor := s.world.distinct i f.descriptor (.inl ⟨q, hn⟩)
        (.inr hop) (hi.trans hrec.symm)
      rw [ha] at hn
      exact .inl ⟨f, hf, hp, hfi, hn, hrec, hm⟩
    · refine .inr ⟨d, hd, hp, i, ?_, hi, hs.directory n o ⟨ho, hdo⟩ d hd i (.inl ⟨q, hn⟩) hi⟩
      cases he : s.world.host.fs.entry q <;> simp_all [Entry.isDirectory, Entry.node]

/-- **In every undisturbed run**, a materialization leaves everything as it was or gives every
mapping its file, a cleanup takes away only what its object has made, and what is staged has one
owner. -/
theorem fileExposure_transactional {s : System} (h : Run strerror Undisturbed s) :
    (∀ (validation : Option PathValidation) (what : ByteString) (sourceRoot targetRoot : FilePath)
        (files : List FileMapping) (answers : Answers) (r : FileExposure × Machine),
      answers.checks = [] →
      materializeInto strerror validation what sourceRoot targetRoot files ⟨s.world, answers⟩ = r →
      (r.1.status ≠ .applied → r.1.status ≠ .rollbackFailed → Unchanged s.world r.2.world) ∧
        (r.1.status = .applied → Exposed sourceRoot targetRoot files r.1 s.world r.2.world)) ∧
      (∀ name o (answers : Answers), s.objects name = some o →
        CleanedUp o s.world (cleanup o.exposure ⟨s.world, answers⟩).2.2.world) ∧
      ∀ name name' o o', s.Active name o → s.Active name' o' → ∀ f ∈ o.exposure.stagedFiles,
        ∀ f' ∈ o'.exposure.stagedFiles, f.descriptor = f'.descriptor → name = name' := by
  have hs := h.owned
  refine ⟨?_, fun name o answers ho => hs.cleanedUp answers ho, hs.one⟩
  intro validation what sourceRoot targetRoot files answers r hc hr
  exact ⟨materializeInto_unchanged (m := ⟨s.world, answers⟩) hc hr,
    materializeInto_exposed (m := ⟨s.world, answers⟩) hc hr⟩

/-! ### A number that comes back -/

/-- A prefix with one file to expose. -/
def onePrefix : World :=
  .ofFiles (.ofList [([], .directory ⟨1, 1, 0, true⟩), ([text "p"], .directory ⟨1, 2, 0, true⟩),
      ([text "p", text "drive_c"], .directory ⟨1, 3, 0, true⟩),
      ([text "p", text "compat"], .directory ⟨1, 4, 0, true⟩),
      ([text "p", text "compat", text "files"], .directory ⟨1, 5, 0, true⟩),
      ([text "p", text "compat", text "files", text "a"], .file ⟨1, 6, 0, true⟩)]
    (by decide +kernel)) 1 (by decide +kernel) (by decide +kernel)

/-- The profile exposes the file in a directory that has to be made, which gets the number 50. -/
def oneExposure : FileExposure × Machine :=
  materializeInto (fun _ => []) none [] (ofText (text "/p")) (ofText (text "/p"))
    [⟨text "a", text "C:\\d\\a"⟩] ⟨onePrefix, { mkdirs := [.ok (1, 50)], creates := [.ok (1, 51)] }⟩

def removedFile : World :=
  (oneExposure.2.world.unlink (ofText (text "/p/drive_c/d/a"))).toOption.getD
    oneExposure.2.world

def removedDirectory : World :=
  (removedFile.rmdir (ofText (text "/p/drive_c/d"))).toOption.getD removedFile

/-- The guest makes a directory of its own there, which gets the number 50. -/
def replacedDirectory : World :=
  (removedDirectory.mkdir (ofText (text "/p/drive_c/d")) (1, 50)).toOption.getD
    removedDirectory

def oneOwner : Owner := ⟨oneExposure.1, (1, oneExposure.2.world.clock)⟩

/-- The program when the exposure has been materialized. -/
def oneSystem : System :=
  (⟨onePrefix, fun _ => none⟩ : System).set 0 (some oneOwner) oneExposure.2.world

theorem oneSystem_step : Step (fun _ => []) ⟨onePrefix, fun _ => none⟩ oneSystem := by
  have hm : materializeInto (fun _ => []) none [] (ofText (text "/p"))
      (ofText (text "/p")) [⟨text "a", text "C:\\d\\a"⟩]
      ⟨onePrefix, { mkdirs := [.ok (1, 50)], creates := [.ok (1, 51)] }⟩ = oneExposure := rfl
  exact .materialize rfl rfl hm

theorem oneSystem_active {n : ℕ} {o : Owner} (h : oneSystem.Active n o) : o = oneOwner := by
  rcases System.active_set.1 h with ⟨-, ho, -⟩ | ⟨-, ho, -⟩
  · exact (Option.some.inj ho).symm
  · cases ho

theorem oneSystem_changes : oneSystem.Changes replacedDirectory := by
  have hs : World.Shrinks oneExposure.2.world removedDirectory :=
    (World.shrinks_unlink _ _).trans (World.shrinks_rmdir _ _)
  have hg : World.Grows removedDirectory replacedDirectory := World.grows_mkdir _ _ _
  refine ⟨?_, fun i hi => ?_, fun n o ho => ?_⟩
  · exact le_trans (le_of_eq hs.clock.symm) hg.clock
  · rcases hg.uses i hi with hold | hn
    · exact .inl (hs.uses hold)
    · exact .inr (le_trans (le_of_eq hs.clock.symm) hn)
  · rw [oneSystem_active ho]
    decide +kernel

/-- **A directory of the guest is removed**, because the number of the one that had been staged has
come back. -/
theorem not_transactional : ¬∀ s, Run (fun _ => []) (fun _ _ => True) s →
    ∀ name o (answers : Answers), s.objects name = some o →
      CleanedUp o s.world (cleanup o.exposure ⟨s.world, answers⟩).2.2.world := by
  intro h
  have hr : Run (fun _ => []) (fun _ _ => True) { oneSystem with world := replacedDirectory } :=
    .step (.step (.start onePrefix) oneSystem_step trivial) (.guest oneSystem_changes) trivial
  have hc := h _ hr 0 oneOwner {} rfl
  have hl : (cleanup oneOwner.exposure ⟨replacedDirectory, {}⟩).2.2.world.host.fs.entry
      [text "p", text "drive_c", text "d"] ≠
        replacedDirectory.host.fs.entry [text "p", text "drive_c", text "d"] := by
    decide +kernel
  rcases hc.lost _ hl with ⟨f, -, -, hf, -⟩ | ⟨d, -, -, i, he, -, -, hm⟩
  · exact absurd hf (by decide +kernel)
  have hn : (replacedDirectory.host.fs.entry [text "p", text "drive_c", text "d"]).node.all
      (fun i => decide (oneOwner.born.2 ≤ i.generation)) = true := by decide +kernel
  rw [he] at hn
  simp only [Entry.node, Option.all_some, decide_eq_true_eq] at hn
  exact absurd hm (by omega)

/-- In the run where the guest only removes the file, the cleanup takes away the directory. -/
theorem fileExposure_transactional_removedFile :
    CleanedUp oneOwner removedFile (cleanup oneOwner.exposure ⟨removedFile, {}⟩).2.2.world ∧
      (cleanup oneOwner.exposure ⟨removedFile, {}⟩).2.2.world.host.fs.entry
        [text "p", text "drive_c", text "d"] = .missing := by
  have hs : World.Shrinks oneExposure.2.world removedFile := World.shrinks_unlink _ _
  have hc : oneSystem.Changes removedFile := by
    refine ⟨le_of_eq hs.clock.symm, fun i hi => .inl (hs.uses hi), fun name o ho => ?_⟩
    rw [oneSystem_active ho]
    decide +kernel
  have hm : Undisturbed ⟨onePrefix, fun _ => none⟩ oneSystem := by
    rintro name o ⟨hb, -⟩
    cases hb
  have hg : Undisturbed oneSystem { oneSystem with world := removedFile } := by
    intro name o ho d hd i hi hn
    have hold := oneExposure.2.world.generation_lt (hs.uses hi)
    exact absurd hn (not_le.mpr hold)
  have hr : Run (fun _ => []) Undisturbed { oneSystem with world := removedFile } :=
    .step (.step (.start onePrefix) oneSystem_step hm) (.guest hc) hg
  exact ⟨(fileExposure_transactional hr).2.1 0 oneOwner {} rfl, by decide +kernel⟩

end TradutorLinux.Compat
