import TradutorLinux.Compat.Materializer
import TradutorLinux.Util.WorldChanges

/-!
# Materialization is all or nothing

What an exposure makes is a history of additions: directories, and then files.  A
failure takes the history back from its end, and if that succeeds the world is as
it was.  When nothing fails every mapping has a new file with the bytes of its
source, and nothing that was there has changed.

The checks of what has just been opened or made are taken to succeed, for the code
itself leaves behind what it could not check.

## Main definitions

* `AddsDirectory`, `AddsFile`
* `Unchanged`, `Exposed` — the two results.

## Main results

* `makeDirectories_built`, `copyFiles_built`, `cleanup_lost`
* `materializeInto_unchanged`, `materializeInto_exposed`.
-/

namespace TradutorLinux.Compat

open List Option World

open FilePath (ofText)
open Prefix (driveC compatFilesDir isPathWithin resolveWindowsPath)

variable {serr : FsError → ByteString}

/-! ### Copying -/

theorem writeAll_moved {answers : List Transfer} {data : ByteString}
    (h : (writeAll answers data).failed = none) : (writeAll answers data).moved = data := by
  fun_induction writeAll answers data with
  | case1 => rfl
  | case2 => rfl
  | case3 => cases h
  | case4 n answers data _ _ re ih => rw [ih h, take_append_drop]
  | case5 answers data _ ih => exact ih h
  | case6 => cases h

theorem copyLoop_moved {sc : FilePath} {rs ws : List Transfer} {left : ByteString}
    (h : (copyLoop serr sc rs ws left).failed = none) :
    (copyLoop serr sc rs ws left).moved = left := by
  fun_induction copyLoop serr sc rs ws left with
  | case1 ws left w => exact writeAll_moved (map_eq_none_iff.1 h)
  | case2 => rfl
  | case3 => cases h
  | case4 n rs ws left _ si w hw re ih => rw [writeAll_moved hw, ih h, take_append_drop]
  | case5 rs ws left ih => exact ih h
  | case6 => cases h

/-! ### Planning -/

def plannedFile (os : Host Inode) (sourceRoot targetRoot : FilePath) (mapping : FileMapping) :
    ExposedFile :=
  ⟨compatFilesDir sourceRoot / ofText mapping.source,
    resolveWindowsPath os targetRoot mapping.target⟩

variable {os : Host Inode}

theorem regularSource_ok {sc fd : FilePath} (h : regularSource serr os sc fd = .ok ()) :
    ∃ i, os.lstat sc = .ok (.file i) ∧ i.regular := by
  unfold regularSource at h
  split at h
  · cases h
  cases hc : validatePathComponents serr os fd sc (text "origem de arquivo") with
  | error e => rw [hc] at h; cases h
  | ok _ =>
    simp only [hc, bind, Except.bind] at h
    unfold readStatus at h
    cases hs : os.lstat sc with
    | error e => cases e <;> simp [hs, Entry.isLink] at h
    | ok ss =>
      cases ss with
      | file i => simpa [hs, Entry.isLink] using h
      | _ => simp [hs, Entry.isLink] at h

theorem targetPath_ok {pr t : FilePath} {winPath : ByteString}
    (h : targetPath serr os pr winPath = .ok t) : t = resolveWindowsPath os pr winPath := by
  unfold targetPath at h
  split at h
  · cases h
  split at h
  · cases h
  dsimp only at h
  split at h
  · cases h
  simp only [bind, Except.bind] at h
  split at h
  · cases h
  split at h
  · cases h
  split at h
  · cases h
  split at h
  · cases h
  · cases h
    rfl

variable {cd : FilePath} {e : ExposedFile}

theorem planMapping_ok {val : Option PathValidation} {sr tr : FilePath} {re r' : List FilePath}
    {mp : FileMapping} (h : planMapping serr os val sr tr cd re mp = .ok (e, r')) :
    e = plannedFile os sr tr mp ∧ ∃ i, os.lstat e.source = .ok (.file i) ∧ i.regular := by
  unfold planMapping at h
  split at h
  · cases h
  dsimp only at h
  split at h
  · cases h
  next _ hs =>
  split at h
  · cases h
  next t ht =>
  split at h
  · cases h
  split at h
  · cases h
  · cases h
    exact ⟨by rw [plannedFile, targetPath_ok ht], regularSource_ok hs⟩

theorem planMappings_error {val : Option PathValidation} {sr tr : FilePath} :
    ∀ {files : List FileMapping} {re : List FilePath} {ss : FileExposureStatus} {e : ByteString},
      planMappings serr os val sr tr cd re files = .error (ss, e) → ss ≠ .applied := by
  intro files
  induction files with
  | nil => intro re ss e h; cases h
  | cons mp rt ih =>
    intro re ss e h
    unfold planMappings at h
    split at h
    · next hf =>
      cases h
      unfold planMapping at hf
      split at hf
      · cases hf
        split <;> simp
      dsimp only at hf
      split at hf
      · cases hf
        simp
      split at hf
      · cases hf
        simp
      split at hf
      · cases hf
        simp
      split at hf
      · cases hf
        simp
      · cases hf
    · split at h
      · next hr =>
        cases h
        exact ih hr
      · cases h

/-- **What is pending** is what the mappings ask for, from sources that are regular files. -/
theorem planMappings_ok {val : Option PathValidation} {sr tr : FilePath} :
    ∀ {files : List FileMapping} {re r' : List FilePath} {p : List ExposedFile},
      planMappings serr os val sr tr cd re files =
        .ok (p, r') → p = files.map (plannedFile os sr tr) ∧
        ∀ f ∈ p, ∃ i, os.lstat f.source = .ok (.file i) ∧ i.regular := by
  intro files
  induction files with
  | nil =>
    intro re r' p h
    cases h
    exact ⟨rfl, fun f hf => (not_mem_nil hf).elim⟩
  | cons ma rt ih =>
    intro re r' p h
    unfold planMappings at h
    split at h
    · cases h
    next e r₁ ht =>
    split at h
    · cases h
    next p₁ r₂ hr =>
    cases h
    obtain ⟨he, hc⟩ := planMapping_ok ht
    obtain ⟨hp, hs⟩ := ih hr
    refine ⟨by rw [map_cons, ← he, ← hp], fun f hf => ?_⟩
    rcases mem_cons.1 hf with rfl | hf
    · exact hc
    · exact hs f hf

/-! ### Making -/

/-- What a staged directory has added. -/
structure AddsDirectory (d : StagedDirectory) (w w' : World) : Prop where
  added : ∃ i place name, World.Added w d.path (.directory i) w' place name ∧
    i.identity = (d.device, d.inode) ∧ w.clock ≤ i.generation
  grows : World.Grows w w'

/-- What a staged file has added; its descriptor is open. -/
structure AddsFile (f : StagedFile) (w w' : World) : Prop where
  added : ∃ place name, World.Added w f.exposed.target (.file f.descriptor) w' place name
  grows : World.Grows w w'
  identity : f.descriptor.identity = (f.device, f.inode)
  recent : w.clock ≤ f.descriptor.generation
  regular : f.descriptor.regular = true
  held : f.descriptor ∈ w'.held

/-- The target has the bytes of the source. -/
def CopiedFrom (exposed : ExposedFile) (target : Inode) (w : World) : Prop :=
  ∃ i, w.host.lstat exposed.source = .ok (.file i) ∧ w.bytes target = w.bytes i

variable {x x' : FileExposure} {m' : Machine}

/-- **The directories that are made** are a history. -/
theorem makeDirectories_built {re : List FilePath} {m : Machine}
    {r : Option ByteString} (hck : m.answers.checks = [])
    (h : makeDirectories serr x m re = (r, x', m')) :
    ∃ ma, x' = { x with stagedDirectories := x.stagedDirectories ++ ma } ∧
      World.Built AddsDirectory m.world ma m'.world ∧ m'.answers.checks = [] := by
  induction re generalizing x m with
  | nil =>
    cases h
    exact ⟨[], by rw [append_nil], .nil, hck⟩
  | cons d rt ih =>
    dsimp only [makeDirectories] at h
    -- a call that fails ends the loop, and what is there already is passed over
    have hs : ∀ {e}, (some e, x, { m with answers.mkdirs := m.answers.mkdirs.tail }) =
        (r, x', m') → ∃ ma, x' = { x with stagedDirectories := x.stagedDirectories ++ ma } ∧
          World.Built AddsDirectory m.world ma m'.world ∧ m'.answers.checks = [] := by
      intro e heq
      cases heq
      exact ⟨[], by rw [append_nil], .nil, hck⟩
    split at h
    · exact hs h
    next i hi =>
    split at h
    · next w hm =>
      obtain ⟨⟨p, nm, ha⟩, hg, -, -, -, -⟩ := makeAt_added hm
      have hh := ha.lstat rfl (.refl w)
      simp only [hck, refusal, head?_nil, join_none, map_none, hh] at h
      obtain ⟨ma, hx', hb, hc'⟩ := ih (tail_nil) h
      have had : AddsDirectory ⟨d, (m.world.newInode i).device,
          (m.world.newInode i).number⟩ m.world w :=
        ⟨⟨m.world.newInode i, p, nm, ha, rfl, le_refl _⟩, hg⟩
      refine ⟨_ :: ma, ?_, .cons had hb, hc'⟩
      rw [hx', append_assoc, singleton_append]
    · split at h
      · exact hs h
      split at h
      · exact hs h
      · exact ih (m := { m with answers.mkdirs := m.answers.mkdirs.tail }) hck h
    · exact hs h

variable {w w' : World}

theorem CopiedFrom.grows {t : Inode}
    (h : CopiedFrom e t w) (ht : w.Uses t) (hg : World.Grows w w') : CopiedFrom e t w' := by
  obtain ⟨i, hs, hb⟩ := h
  refine ⟨i, hg.lstat hs rfl, ?_⟩
  rw [hg.bytes _ ht, hg.bytes _ (uses_of_lstat hs rfl), hb]

theorem openRead_file {p : FilePath} {i : Inode} (h : w.openRead p = .ok (.file i)) :
    w.host.lstat p = .ok (.file i) := by
  unfold openRead at h
  split at h
  · cases h
  · cases h
  · next hs =>
    cases h
    exact hs

/-- **A copy** stages nothing and fails, or stages a file; if it succeeds the file has the bytes of
the source. -/
theorem copyFileExclusive_cases {m : Machine} {r : Option ByteString} (hck : m.answers.checks = [])
    (h : copyFileExclusive serr x m e = (r, x', m')) :
    m'.answers.checks = [] ∧ ((r ≠ none ∧ x' = x ∧ m'.world = m.world) ∨ ∃ st, st.exposed = e ∧
          x' = { x with stagedFiles := x.stagedFiles ++ [st] } ∧
          AddsFile st m.world m'.world ∧
          (r = none → CopiedFrom e st.descriptor m'.world)) := by
  dsimp only [copyFileExclusive] at h
  split at h
  · cases h
    exact ⟨hck, .inl ⟨by simp, rfl, rfl⟩⟩
  split at h
  · cases h
    exact ⟨hck, .inl ⟨by simp, rfl, rfl⟩⟩
  next sc ho =>
  simp only [hck, refusal, head?_nil, join_none, map_none, tail_nil] at h
  split at h
  · next i =>
    split at h
    · cases h
      exact ⟨rfl, .inl ⟨by simp, rfl, rfl⟩⟩
    split at h
    · cases h
      exact ⟨rfl, .inl ⟨by simp, rfl, rfl⟩⟩
    next identity hi =>
    split at h
    · cases h
      exact ⟨rfl, .inl ⟨by simp, rfl, rfl⟩⟩
    · cases h
      exact ⟨rfl, .inl ⟨by simp, rfl, rfl⟩⟩
    next w hc =>
    generalize hcopied : copyLoop serr e.source m.answers.reads m.answers.writes
      (w.bytes i) = copied at h
    obtain ⟨had, hg, hh, hb⟩ := create_append hc copied.moved
    have hs : m.world.host.lstat e.source = .ok (.file i) := openRead_file ho
    have hu := uses_of_lstat hs rfl
    have ha : AddsFile ⟨e, m.world.newInode identity,
        (m.world.newInode identity).device, (m.world.newInode identity).number⟩ m.world
        (w.append (m.world.newInode identity) copied.moved) :=
      ⟨had, hg, rfl, le_refl _, rfl, hh⟩
    split at h
    · cases h
      exact ⟨rfl, .inr ⟨_, rfl, rfl, ha, by simp⟩⟩
    next hn =>
    cases h
    refine ⟨rfl, .inr ⟨_, rfl, rfl, ha, fun _ => ?_⟩⟩
    refine ⟨i, hg.lstat hs rfl, ?_⟩
    rw [hg.bytes i hu]
    refine hb.trans ?_
    rw [← hcopied] at hn ⊢
    rw [copyLoop_moved hn]
    exact (makeAt_added hc).2.1.bytes i hu
  · cases h
    exact ⟨rfl, .inl ⟨by simp, rfl, rfl⟩⟩

/-- **The files that are copied** are a history; if nothing fails they are those that are pending,
with the bytes of their sources. -/
theorem copyFiles_built {p : List ExposedFile} {m : Machine}
    {r : Option ByteString} (hck : m.answers.checks = []) (h : copyFiles serr x m p = (r, x', m')) :
    ∃ st files, x' = { x with
        stagedFiles := x.stagedFiles ++ st, files := x.files ++ files } ∧
      World.Built AddsFile m.world st m'.world ∧
      (r = none → files = p ∧ st.map StagedFile.exposed = p ∧
        ∀ f ∈ st, CopiedFrom f.exposed f.descriptor m'.world) := by
  induction p generalizing x m with
  | nil =>
    cases h
    exact ⟨[], [], by rw [append_nil, append_nil], .nil,
      fun _ => ⟨rfl, rfl, fun f hf => (not_mem_nil hf).elim⟩⟩
  | cons ex re ih =>
    unfold copyFiles at h
    split at h
    · next e x₁ m₁ hc =>
      cases h
      obtain ⟨-, ⟨-, rfl, hw⟩ | ⟨st, -, rfl, ha, -⟩⟩ := copyFileExclusive_cases hck hc
      · exact ⟨[], [], by rw [append_nil, append_nil], by rw [hw]; exact .nil, nofun⟩
      · exact ⟨[st], [], by rw [append_nil], .snoc .nil ha, nofun⟩
    · next x₁ m₁ hc =>
      obtain ⟨hc₁, ⟨hi, -, -⟩ | ⟨st, hs, rfl, ha, ho⟩⟩ := copyFileExclusive_cases hck hc
      · exact absurd rfl hi
      obtain ⟨mo, files, rfl, hb, hd⟩ := ih hc₁ h
      refine ⟨st :: mo, ex :: files, ?_, .cons ha hb, fun hr => ?_⟩
      · simp [append_assoc]
      · obtain ⟨hfi, hm, hp⟩ := hd hr
        refine ⟨by rw [hfi], by rw [map_cons, hs, hm], fun f hf => ?_⟩
        rcases mem_cons.1 hf with rfl | hf
        · rw [hs]
          exact (ho rfl).grows (.inr ha.held) (hb.grows fun _ _ _ had => had.grows)
        · exact hp f hf

/-! ### Cleaning up -/

theorem sameIdentity_iff {e : Entry Inode} {d ie : ℕ} :
    sameIdentity e d ie ↔ ∃ i, e.node = some i ∧ i.identity = (d, ie) := by
  unfold sameIdentity
  cases e.node with
  | none => simp
  | some i => simp

theorem unlinkStaged_lost (st : StagedFile) (su : FileCleanupSummary) (m : Machine) :
    World.Lost st.exposed.target (st.device, st.inode) false none m.world
      (unlinkStaged st su m).2.world := by
  dsimp only [unlinkStaged]
  split
  · exact .refl _
  split
  · exact .refl _
  · exact .refl _
  next ss ht =>
  split
  · exact .refl _
  next hs =>
  split
  · exact .refl _
  split
  · next w hu =>
    obtain ⟨p, nm, he, hl, ha, hd, rfl⟩ := unlink_ok hu
    exact lost_remove hl ha ht hd (sameIdentity_iff.1 (by simpa using hs))
  · exact .refl _
  · exact .refl _

theorem cleanupFile_lost (s : FileCleanupSummary × Machine) (st : StagedFile) :
    World.Lost st.exposed.target (st.device, st.inode) false (some st.descriptor)
      s.2.world (cleanupFile s st).2.world := by
  have hl := (unlinkStaged_lost st s.1 s.2).close (i := st.descriptor)
  dsimp only [cleanupFile, closeStaged]
  split <;> exact hl

theorem cleanupDirectory_lost (s : FileCleanupSummary × Machine) (st : StagedDirectory) :
    World.Lost st.path (st.device, st.inode) true none s.2.world
      (cleanupDirectory s st).2.world := by
  dsimp only [cleanupDirectory]
  split
  · exact .refl _
  split
  · exact .refl _
  · exact .refl _
  next ss ht =>
  split
  · exact .refl _
  next hs =>
  split
  · exact .refl _
  split
  · next w hr =>
    obtain ⟨p, nm, he, hl, ha, hd, rfl⟩ := rmdir_ok hr
    exact lost_remove hl ha ht hd (sameIdentity_iff.1 (by simpa using hs))
  · exact .refl _
  · exact .refl _
  · exact .refl _
  · exact .refl _

/-- What stood at a place was recorded, under the path and with the identity. -/
def Recorded (x : FileExposure) (w : World) (q : Place) : Prop :=
  (∃ f ∈ x.stagedFiles, w.host.placeOf f.exposed.target = some q ∧
    (w.host.fs.entry q).isDirectory = false ∧
    ∃ i, (w.host.fs.entry q).node = some i ∧ i.identity = (f.device, f.inode)) ∨
  ∃ d ∈ x.stagedDirectories, w.host.placeOf d.path = some q ∧
    (w.host.fs.entry q).isDirectory = true ∧
    ∃ i, (w.host.fs.entry q).node = some i ∧ i.identity = (d.device, d.inode)

/-- **What a cleanup takes away** was recorded, and it closes no descriptors but its own. -/
theorem cleanup_lost (x : FileExposure) (m : Machine) :
    World.Shrinks m.world (cleanup x m).2.2.world ∧
      (∀ q, (cleanup x m).2.2.world.host.fs.entry q ≠ m.world.host.fs.entry q →
        Recorded x m.world q) ∧
      ∀ i ∈ m.world.held, i ∈ (cleanup x m).2.2.world.held ∨
        ∃ f ∈ x.stagedFiles, f.descriptor = i := by
  unfold cleanup
  split
  · exact ⟨.refl _, fun q hn => absurd rfl hn, fun _ hi => .inl hi⟩
  obtain ⟨hl, hlf, hkf⟩ :=
    foldl_lost cleanupFile_lost x.stagedFiles.reverse (x.cleanupSummary, m)
  obtain ⟨hdi, hld, hk⟩ := foldl_lost cleanupDirectory_lost
    x.stagedDirectories.reverse (x.stagedFiles.reverse.foldl cleanupFile (x.cleanupSummary, m))
  refine ⟨hl.trans hdi, fun q hn => ?_, fun i hi => ?_⟩
  · by_cases hfi : (x.stagedFiles.reverse.foldl cleanupFile
        (x.cleanupSummary, m)).2.world.host.fs.entry q = m.world.host.fs.entry q
    · obtain ⟨d, hd, hp, he⟩ := hld q (by rwa [hfi])
      rw [hfi] at he
      exact .inr ⟨d, mem_reverse.1 hd, hl.placeOf hp, he⟩
    · obtain ⟨f, hf, hrec⟩ := hlf q hfi
      exact .inl ⟨f, mem_reverse.1 hf, hrec⟩
  · rcases hkf i hi with hi | ⟨f, hf, hc⟩
    · refine (hk i hi).imp_right ?_
      rintro ⟨d, -, hc⟩
      cases hc
    · exact .inr ⟨f, mem_reverse.1 hf, some.inj hc⟩

theorem cleanup_done (x : FileExposure) (m : Machine) : (cleanup x m).2.1.cleanupDone := by
  unfold cleanup
  split
  · assumption
  · rfl

/-! ### Rolling back -/

variable {s : FileCleanupSummary × Machine}

/-- A failure stays one. -/
theorem cleanupFile_failed {st : StagedFile} (h : (cleanupFile s st).1.failed = false) :
    (unlinkStaged st s.1 s.2).1.failed = false ∧ s.1.failed = false := by
  have hu : (unlinkStaged st s.1 s.2).1.failed = false := by
    dsimp only [cleanupFile, closeStaged] at h
    split at h
    · cases h
    · exact h
  refine ⟨hu, ?_⟩
  generalize s.1 = summary at hu ⊢
  dsimp only [unlinkStaged] at hu
  split at hu
  · cases hu
  split at hu
  · exact hu
  · cases hu
  split at hu
  · exact hu
  split at hu
  · cases hu
  split at hu
  · exact hu
  · exact hu
  · cases hu

theorem cleanupDirectory_failed {st : StagedDirectory}
    (h : (cleanupDirectory s st).1.failed = false) : s.1.failed = false := by
  dsimp only [cleanupDirectory] at h
  split at h
  · cases h
  split at h
  · exact h
  · cases h
  split at h
  · exact h
  split at h
  · cases h
  split at h
  · exact h
  · exact h
  · exact h
  · exact h
  · cases h

theorem cleanupFile_alike {st : StagedFile} (had : AddsFile st w w') (hs : World.Alike w' s.2.world)
    (h : (cleanupFile s st).1.failed = false) : World.Alike w (cleanupFile s st).2.world := by
  obtain ⟨p, nm, ha⟩ := had.added
  have hh := ha.lstat rfl hs
  obtain ⟨v, hu, hv⟩ := ha.unlink hs
  have hsa : sameIdentity (.file st.descriptor) st.device st.inode :=
    sameIdentity_iff.2 ⟨_, rfl, had.identity⟩
  have hw : World.Alike w (unlinkStaged st s.1 s.2).2.world := by
    have hf := (cleanupFile_failed h).1
    dsimp only [unlinkStaged] at hf ⊢
    split at hf
    · cases hf
    rw [hh] at hf ⊢
    simp only [hsa, Bool.not_true, Bool.false_eq_true, if_false] at hf ⊢
    split at hf
    · cases hf
    simp only [hu]
    exact hv
  dsimp only [cleanupFile, closeStaged]
  split <;> exact ⟨hw.entry, hw.cwd⟩

theorem cleanupDirectory_alike {st : StagedDirectory} (had : AddsDirectory st w w')
    (hs : World.Alike w' s.2.world) (h : (cleanupDirectory s st).1.failed = false) :
    World.Alike w (cleanupDirectory s st).2.world := by
  obtain ⟨i, p, nm, ha, hi, -⟩ := had.added
  have hh := ha.lstat rfl hs
  obtain ⟨v, hr, hv⟩ := ha.rmdir hs
  have hsa : sameIdentity (.directory i) st.device st.inode :=
    sameIdentity_iff.2 ⟨i, rfl, hi⟩
  dsimp only [cleanupDirectory] at h ⊢
  split at h
  · cases h
  rw [hh] at h ⊢
  simp only [hsa, Bool.not_true, Bool.false_eq_true, if_false] at h ⊢
  split at h
  · cases h
  simp only [hr]
  exact hv

/-- **A history is taken back**, unless a call fails. -/
theorem cleanup_alike {w₀ w₁ : World} {m : Machine} (hd : x.cleanupDone = false)
    (hi : World.Built AddsDirectory w₀ x.stagedDirectories w₁)
    (hf : World.Built AddsFile w₁ x.stagedFiles m.world)
    (h : (cleanup x m).1) : World.Alike w₀ (cleanup x m).2.2.world := by
  unfold cleanup at h ⊢
  rw [hd] at h ⊢
  simp only [Bool.false_eq_true, if_false, Bool.not_eq_true'] at h ⊢
  have hs : ∀ (s : FileCleanupSummary × Machine) (d : StagedDirectory),
      (cleanupDirectory s d).1.failed = false → s.1.failed = false :=
    fun _ _ => cleanupDirectory_failed
  let fine := fun s : FileCleanupSummary × Machine => s.1.failed = false
  have hb := World.Built.foldl_fine fine hs _ _ h
  have hm := hf.undone (fun s => s.2.world) fine (fun _ _ _ _ => cleanupFile_alike)
    (fun _ _ h => (cleanupFile_failed h).2) (x.cleanupSummary, m) (.refl _) hb
  exact hi.undone (fun s => s.2.world) fine (fun _ _ _ _ => cleanupDirectory_alike) hs _ hm h

/-! ### The two results -/

/-- Everything is as it was. -/
structure Unchanged (w w' : World) : Prop where
  entry : ∀ q, w'.host.fs.entry q = w.host.fs.entry q
  bytes : ∀ i, w.Uses i → w'.bytes i = w.bytes i

/-- Every mapping has its file.  The target is a new regular file with the bytes of the source, and
what was there has not changed; the directories that have been made are recorded from the outer to
the inner. -/
structure Exposed (sourceRoot targetRoot : FilePath) (mappings : List FileMapping)
    (x : FileExposure) (w w' : World) : Prop where
  kept : FileSystem.Extends w.host.fs w'.host.fs
  bytes : ∀ i, w.Uses i → w'.bytes i = w.bytes i
  files : x.files = mappings.map (plannedFile w.host sourceRoot targetRoot)
  copied : ∀ f ∈ x.files, ∃ i j, w.host.lstat f.source = .ok (.file i) ∧ i.regular = true ∧
    w'.host.lstat f.target = .ok (.file j) ∧ j.regular = true ∧ w.clock ≤ j.generation ∧
    w'.bytes j = w.bytes i
  staged : x.stagedFiles.map StagedFile.exposed = x.files
  outward : x.stagedDirectories.Pairwise fun d e => ∀ p q, w'.host.placeOf d.path = some p →
    w'.host.placeOf e.path = some q → ¬q <+: p

variable {r : FileExposure × Machine}

/-- **What materialization does**: nothing; or a history that is abandoned; or one that is
applied. -/
theorem materializeInto_cases {val : Option PathValidation} {what : ByteString}
    {sr tr : FilePath} {files : List FileMapping} {m : Machine} (hck : m.answers.checks = [])
    (h : materializeInto serr val what sr tr files m = r) :
    (∃ ss er d, ss ≠ .applied ∧ r = ({ status := ss, error := er, cleanupDone := d }, m)) ∨
      ∃ x w₁ m₁, x.cleanupDone = false ∧ x.status = .rejected ∧
        World.Built AddsDirectory m.world x.stagedDirectories w₁ ∧
        World.Built AddsFile w₁ x.stagedFiles m₁.world ∧ ((∃ e, r = abandon x m₁ e) ∨
          r = ({ x with status := .applied }, m₁) ∧
            x.files = files.map (plannedFile m.world.host sr tr) ∧
            x.stagedFiles.map StagedFile.exposed = x.files ∧
            (∀ f ∈ x.files, ∃ i, m.world.host.lstat f.source = .ok (.file i) ∧ i.regular) ∧
            ∀ f ∈ x.stagedFiles, CopiedFrom f.exposed f.descriptor m₁.world) := by
  unfold materializeInto at h
  split at h
  · exact .inl ⟨.rejected, _, false, by simp, h.symm⟩
  split at h
  · exact .inl ⟨.rejected, _, false, by simp, h.symm⟩
  split at h
  · exact .inl ⟨_, _, true, by split <;> simp, h.symm⟩
  split at h
  · exact .inl ⟨.internalError, _, false, by simp, h.symm⟩
  split at h
  · next hp => exact .inl ⟨_, _, false, planMappings_error hp, h.symm⟩
  next p re hp =>
  obtain ⟨hn, hs⟩ := planMappings_ok hp
  refine .inr ?_
  split at h
  · next e x m₁ hm =>
    obtain ⟨ma, rfl, hb, -⟩ := makeDirectories_built hck hm
    exact ⟨_, m₁.world, m₁, rfl, rfl, hb, .nil, .inl ⟨e, h.symm⟩⟩
  next x m₁ hm =>
  obtain ⟨ma, rfl, hb, hc₁⟩ := makeDirectories_built hck hm
  split at h
  · next e x' m₂ hc =>
    obtain ⟨st, c, rfl, hf, -⟩ := copyFiles_built hc₁ hc
    exact ⟨_, m₁.world, m₂, rfl, rfl, hb, hf, .inl ⟨e, h.symm⟩⟩
  · next x' m₂ hc =>
    obtain ⟨st, c, rfl, hf, hd⟩ := copyFiles_built hc₁ hc
    obtain ⟨rfl, he, ho⟩ := hd rfl
    exact ⟨_, m₁.world, m₂, rfl, rfl, hb, hf, .inr ⟨h.symm, hn, he, hs, ho⟩⟩

theorem abandon_cases {m : Machine} {e : ByteString}
    (hd : x.cleanupDone = false) (hs : x.status = .rejected) :
    (abandon x m e).1.cleanupDone ∧ (abandon x m e).1.status ≠ .applied ∧
      (abandon x m e).2.world = (cleanup { x with error := e } m).2.2.world ∧
      ((abandon x m e).1.status ≠ .rollbackFailed →
        (cleanup { x with error := e } m).1) := by
  have he : (cleanup { x with error := e } m).2.1.cleanupDone ∧
      (cleanup { x with error := e } m).2.1.status = .rejected := by
    simp only [cleanup, hd, Bool.false_eq_true, if_false]
    exact ⟨trivial, hs⟩
  unfold abandon
  generalize cleanup { x with error := e } m = result at he ⊢
  obtain ⟨f, x', m'⟩ := result
  cases f with
  | true => exact ⟨he.1, by rw [he.2]; simp, rfl, fun _ => rfl⟩
  | false => exact ⟨he.1, by simp, rfl, fun h => absurd rfl h⟩

theorem addsDirectory_grows : ∀ d w w', AddsDirectory d w w' → World.Grows w w' :=
  fun _ _ _ h => h.grows

theorem addsFile_grows : ∀ f w w', AddsFile f w w' → World.Grows w w' := fun _ _ _ h => h.grows

section Results

variable {val : Option PathValidation} {what : ByteString} {sr tr : FilePath}
  {files : List FileMapping} {m : Machine}

section

variable (hck : m.answers.checks = [])
include hck

section

variable (h : materializeInto serr val what sr tr files m = r)
include h

/-- **Nothing, or all**: without an application, and without a failed rollback, the world is as it
was. -/
theorem materializeInto_unchanged
    (hp : r.1.status ≠ .applied) (hr : r.1.status ≠ .rollbackFailed) :
    Unchanged m.world r.2.world := by
  rcases materializeInto_cases hck h with ⟨ss, e, d, -, rfl⟩ |
    ⟨x, w₁, m₁, hd, ht, hdi, hf, ⟨e, rfl⟩ | ⟨rfl, -⟩⟩
  · exact ⟨fun _ => rfl, fun _ _ => rfl⟩
  · obtain ⟨-, -, hw, hfi⟩ := abandon_cases hd ht (m := m₁) (e := e)
    have ha := cleanup_alike (x := { x with error := e }) hd hdi hf (hfi hr)
    have hs := (cleanup_lost { x with error := e } m₁).1
    have hg := (hdi.grows addsDirectory_grows).trans (hf.grows addsFile_grows)
    refine ⟨fun q => ?_, fun i hi => ?_⟩
    · rw [hw]
      exact ha.entry q
    · rw [hw, hs.bytes]
      exact hg.bytes i hi
  · exact absurd rfl hp

/-- **All**: every mapping has its file, and what was there has not changed. -/
theorem materializeInto_exposed (hap : r.1.status = .applied) :
    Exposed sr tr files r.1 m.world r.2.world := by
  rcases materializeInto_cases hck h with ⟨ss, e, de, ht, rfl⟩ |
    ⟨x, w₁, m₁, hdo, ht, hdi, hi, ⟨e, rfl⟩ | ⟨rfl, hpa, hx, hu, hc⟩⟩
  · exact absurd hap ht
  · exact absurd hap (abandon_cases hdo ht).2.1
  have hg₁ := hdi.grows addsDirectory_grows
  have hg := hg₁.trans (hi.grows addsFile_grows)
  refine ⟨hg.fs, hg.bytes, hpa, fun f hf => ?_, hx, ?_⟩
  · obtain ⟨i, hs, hr⟩ := hu f hf
    rw [← hx] at hf
    obtain ⟨st, hst, rfl⟩ := mem_map.1 hf
    obtain ⟨a, b, ha, had, hb⟩ := hi.exists_of_mem addsFile_grows hst
    obtain ⟨pl, nm, hadd⟩ := had.added
    refine ⟨i, st.descriptor, hs, hr, ?_, had.regular, ?_, ?_⟩
    · exact hb.lstat (hadd.lstat rfl (.refl _)) rfl
    · exact (hg₁.trans ha).clock.trans had.recent
    · obtain ⟨j, hs', hy⟩ := hc st hst
      rw [hg.lstat hs rfl] at hs'
      cases hs'
      rw [hy]
      exact hg.bytes i (uses_of_lstat hs rfl)
  · refine (hdi.free StagedDirectory.path ?_).imp_of_mem ?_
    · intro d w w' had
      obtain ⟨i, pl, nm, hadd, -⟩ := had.added
      exact ⟨_, pl, nm, rfl, hadd⟩
    · intro d e hd he hfr p q hp hq
      have hl : ∀ d ∈ x.stagedDirectories, ∀ p, m₁.world.host.placeOf d.path = some p →
          w₁.host.placeOf d.path = some p := by
        intro d hd p hp
        obtain ⟨a, b, -, had, hb⟩ := hdi.exists_of_mem addsDirectory_grows hd
        obtain ⟨i, pl, nm, hadd, -⟩ := had.added
        have ho := hb.placeOf hadd.placeOf
        rw [(hi.grows addsFile_grows).placeOf ho] at hp
        rw [ho, hp]
      exact hfr p q (hl d hd p hp) (hl e he q hq)

theorem materializeInto_later : m.world.clock ≤ r.2.world.clock ∧
      (∀ i, r.2.world.Uses i → m.world.Uses i ∨ m.world.clock ≤ i.generation) ∧
      ∀ i ∈ m.world.held, i ∈ r.2.world.held := by
  rcases materializeInto_cases hck h with ⟨ss, e, d, -, rfl⟩ | ⟨x, w₁, m₁, hd, ht, hdi, hfi, hr⟩
  · exact ⟨le_refl _, fun _ hi => .inl hi, fun _ hi => hi⟩
  have hg₁ := hdi.grows addsDirectory_grows
  have hg := hg₁.trans (hfi.grows addsFile_grows)
  rcases hr with ⟨e, rfl⟩ | ⟨rfl, -⟩
  · obtain ⟨-, -, hw, -⟩ := abandon_cases hd ht (m := m₁) (e := e)
    obtain ⟨hs, -, hk⟩ := cleanup_lost { x with error := e } m₁
    rw [hw]
    refine ⟨?_, fun i hi => hg.uses i (hs.uses hi), fun i hi => ?_⟩
    · rw [hs.clock]
      exact hg.clock
    · rcases hk i (hg.held i hi) with hi' | ⟨f, hf, rfl⟩
      · exact hi'
      -- a descriptor of the history is newer than what was held before
      obtain ⟨a, b, ha, had, -⟩ := hfi.exists_of_mem addsFile_grows hf
      have hold := m.world.generation_lt (.inr hi)
      have hn := ((hg₁.trans ha).clock).trans had.recent
      omega
  · exact ⟨hg.clock, hg.uses, hg.held⟩

/-- **What is staged** is open, and was made by the call. -/
theorem materializeInto_staged (hc : r.1.cleanupDone = false) :
    (∀ f ∈ r.1.stagedFiles, f.descriptor ∈ r.2.world.held ∧
        f.descriptor.identity = (f.device, f.inode) ∧ m.world.clock ≤ f.descriptor.generation ∧
        f.descriptor.generation < r.2.world.clock) ∧
      ∀ d ∈ r.1.stagedDirectories, ∀ i, r.2.world.Uses i → i.identity = (d.device, d.inode) →
        m.world.clock ≤ i.generation ∧ i.generation < r.2.world.clock := by
  rcases materializeInto_cases hck h with ⟨ss, e, de, -, rfl⟩ |
    ⟨x, w₁, m₁, ho, ht, hdi, hfi, ⟨e, rfl⟩ | ⟨rfl, -⟩⟩
  · exact ⟨fun f hf => (not_mem_nil hf).elim, fun d hd => (not_mem_nil hd).elim⟩
  · rw [(abandon_cases ho ht).1] at hc
    cases hc
  have hg₁ := hdi.grows addsDirectory_grows
  refine ⟨fun f hf => ?_, fun d hd i hi heq => ⟨?_, m₁.world.generation_lt hi⟩⟩
  · obtain ⟨a, b, ha, had, hb⟩ := hfi.exists_of_mem addsFile_grows hf
    have hh := hb.held _ had.held
    exact ⟨hh, had.identity, (hg₁.trans ha).clock.trans had.recent,
      m₁.world.generation_lt (.inr hh)⟩
  · obtain ⟨a, b, ha, had, hb⟩ := hdi.exists_of_mem addsDirectory_grows hd
    obtain ⟨j, p, nm, hadd, he, hrec⟩ := had.added
    have hj : b.Uses j := .inl ⟨p ++ [nm], by rw [hadd.entry_self]; rfl⟩
    have hs : i = j := m₁.world.distinct i j hi
      ((hb.trans (hfi.grows addsFile_grows)).held_uses hj) (heq.trans he.symm)
    rw [hs]
    exact ha.clock.trans hrec

end

end

end Results

end TradutorLinux.Compat
