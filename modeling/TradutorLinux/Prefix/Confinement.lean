import TradutorLinux.Prefix.WindowsPaths

/-!
# When a Windows path stays in the prefix

A path that names drive C, or no drive, ought to lead into `drive_c`, and a
relative one may lead into the current directory instead.  It does not always:
pipes have their files beside `drive_c`, a relative path is joined to a directory
without being compared with it, and the comparison that the other branches make
is with a path in which a `..` has cancelled a name that does not exist, so that a
link behind it has not been followed.  Each branch says here when none of this
happens, in terms of where the names lead.

## Main definitions

* `InScope`, `Confined`
* `StaysInside` — when it is.

## Main results

* `confined_iff`
-/

namespace TradutorLinux.Prefix

open Option List FilePath

open FilePath (dot dotdot single ofText)

variable {ν : Type}

/-! ### What is asked of the result -/

/-- A path string, which has no NUL, and names drive C if it names a drive. -/
structure InScope (winPath : ByteString) : Prop where
  noNul : (0 : UInt8) ∉ winPath
  drive : ∀ letter, driveLetter (extendedView (normalizeSeparators winPath)) = some letter →
    letter = 0x63

/-- A path that neither starts at the root nor names a drive. -/
def Relative (winPath : ByteString) : Prop :=
  (normalizeSeparators winPath).head? ≠ some 0x2F ∧
    driveLetter (normalizeSeparators winPath) = none

/-- The result is empty; or its canonical form lies in `drive_c`; or the path is relative, and what
it leads to exists at or below the current directory. -/
def Confined (os : Host ν) (root : FilePath) (winPath : ByteString) (result : FilePath) : Prop :=
  result.isEmpty = true ∨ isPathWithin os result (driveC root) = true ∨
    Relative winPath ∧ os.pathExists result = true ∧
      ∃ cwd, os.cwd = some cwd ∧ isPathWithin os result (placePath cwd) = true

/-! ### When it holds -/

def Below (os : Host ν) (base : FilePath) (t : Trail) : Prop :=
  ∃ b, os.trail base = some b ∧ b.form.Begins t.form

/-- A path to be confined has no `..` behind its first missing name; or what is left when the `..`
have cancelled such names, though it looks as if it were in `drive_c`, leads there as well. -/
def SettlesInside (os : Host ν) (root candidate : FilePath) : Prop :=
  ∀ t, os.trail candidate = some t → dotdot ∈ t.reached.rest → Below os (driveC root) t →
    ∃ t', os.trail t.form = some t' ∧ Below os (driveC root) t'

/-- The trail ends in `drive_c`, or the path is relative and ends in the current directory, where
something is. -/
def EndsInside (os : Host ν) (root : FilePath) (winPath : ByteString) (t : Trail) : Prop :=
  Below os (driveC root) t ∨
    Relative winPath ∧ t.anchored = true ∧ t.reached.rest = [] ∧
      ∃ cwd, os.cwd = some cwd ∧ cwd <+: t.reached.place

/-- Where the names of a relative path lead: from the current directory, when they all exist there,
and otherwise from `drive_c`. -/
def FollowedFrom (os : Host ν) (root : FilePath) (names : List ByteString) (t : Trail) : Prop :=
  (∃ cwd place links, os.cwd = some cwd ∧
      os.fs.walk linkLimit cwd names = .found place links ∧ t = ⟨true, ⟨place, links, []⟩⟩) ∨
    (∀ cwd place links, os.cwd = some cwd →
      os.fs.walk linkLimit cwd names ≠ .found place links) ∧
      ∃ b, os.trail (driveC root) = some b ∧ os.follow b names = some t

/-- What the end of the function does with the path stays inside. -/
def RestStaysInside (os : Host ν) (root : FilePath) (winPath view : ByteString) : Prop :=
  if view.head? = some 0x2F then SettlesInside os root (driveC root / ofText (dropSlashes view))
  else ∃ t, FollowedFrom os root (Host.behind (ofText view)) t ∧ EndsInside os root winPath t

/-- The path stays inside; `os'` is the host with the directory of the pipe. -/
def StaysInside (os os' : Host ν) (root : FilePath) (winPath : ByteString) : Prop :=
  if winPath.isEmpty then True
  else
    let normalized := normalizeSeparators winPath
    let view := extendedView normalized
    if isExtendedUnc normalized then True
    else if isPipe view then
      ∃ t, os'.trail (pipePath root view) = some t ∧ Below os' (driveC root) t
    else
      match driveLetter view with
      | none => RestStaysInside os root winPath view
      | some letter =>
        let target := dosdeviceTarget root letter
        let rest := dropSlashes (view.drop 2)
        if os.pathExists target || os.isSymlink target then
          SettlesInside os root (target / ofText rest)
        else SettlesInside os root (driveC root / ofText rest)

/-! ### The comparisons, by trails -/

attribute [local simp] FilePath.isEmpty

theorem driveC_isEmpty (r : FilePath) : (driveC r).isEmpty = false := by simp [driveC]

theorem driveC_names_ne_nil (r : FilePath) : (driveC r).names ≠ [] := by simp [driveC]

variable {os : Host ν}

theorem isPathWithin_iff {c p : FilePath} (hc : c.isEmpty = false) (hp : p.isEmpty = false) :
    isPathWithin os c p ↔ ∃ t, os.trail c = some t ∧ Below os p t := by
  unfold isPathWithin Below
  rw [os.weaklyCanonical_eq hc, os.weaklyCanonical_eq hp]
  cases os.trail c with
  | none => simp
  | some t =>
    cases os.trail p with
    | none => simp
    | some b => simp

theorem form_isEmpty (t : Trail) : t.form.isEmpty = false := normalForm_isEmpty _ _

variable {winPath w wp : ByteString}
variable {r : FilePath}

/-- **A confined path is in `drive_c`**, unless a `..` has cancelled a missing name in it. -/
theorem confined_confinedDrivePath_iff {candidate : FilePath} (hc : candidate.isEmpty
  = false) (hr : ¬Relative wp) : Confined os r wp (confinedDrivePath os r candidate) ↔
      SettlesInside os r candidate := by
  unfold SettlesInside confinedDrivePath
  rw [os.weaklyCanonical_eq hc, os.weaklyCanonical_eq (driveC_isEmpty r)]
  cases ht : os.trail candidate with
  | none => simp [Confined]
  | some t =>
    cases hd : os.trail (driveC r) with
    | none =>
      have hbe : ¬Below os (driveC r) t := by
        rintro ⟨b, hb, -⟩
        rw [hd] at hb
        cases hb
      simp [Confined, hbe]
    | some b =>
      have hbe : Below os (driveC r) t ↔ b.form.Begins t.form := by simp [Below, hd]
      simp only [map_some, some.injEq, forall_eq', hbe]
      by_cases he : b.form.Begins t.form
      · have hn : Confined os r wp t.form ↔
            ∃ t', os.trail t.form = some t' ∧ Below os (driveC r) t' := by
          rw [Confined, form_isEmpty, isPathWithin_iff (form_isEmpty t) (driveC_isEmpty r)]
          simp [hr]
        rw [if_pos he, hn]
        constructor
        · exact fun h _ _ => h
        · intro h
          by_cases ho : dotdot ∈ t.reached.rest
          · exact h ho he
          -- the path is settled, so that it leads to itself
          have hf := os.weaklyCanonical_form (os.ends_of_trail hc ht) ho
          rw [os.weaklyCanonical_eq (form_isEmpty t)] at hf
          obtain ⟨t', ht', hs⟩ := map_eq_some_iff.1 hf
          refine ⟨t', ht', b, hd, ?_⟩
          rw [hs]
          exact he
      · simp [he, Confined]

/-! ### Paths that are not compared -/

theorem trail_cwd {c : Place} (h : os.cwd = some c) :
    os.trail (placePath c) = some ⟨true, ⟨c, linkLimit, []⟩⟩ := by
  have hs := Entry.isSolid_of_isDirectory (os.cwd_directory c h)
  have ht : os.start (placePath c) = some [] := rfl
  refine os.trail_of_reached ht ?_ nofun
  rw [steps_eq_names rfl]
  exact FileSystem.reach_place linkLimit [] c (by simpa using hs)

theorem form_place {place : Place} (hs : (os.fs.entry place).isSolid)
    (ls : ℕ) : (Trail.form ⟨true, ⟨place, ls, []⟩⟩) = placePath place := by
  rw [Trail.form, append_nil]
  exact os.normalForm_place hs

theorem confined_iff_endsInside {root p : FilePath} (hp : p.isEmpty = false) :
    Confined os root wp p ↔ ∃ t, os.trail p = some t ∧ EndsInside os root wp t := by
  have hx : ∀ c, os.cwd = some c →
      ((os.pathExists p ∧ isPathWithin os p (placePath c)) ↔
        ∃ t, os.trail p = some t ∧ t.anchored ∧ t.reached.rest = [] ∧
          c <+: t.reached.place) := by
    intro c hc
    have hs := Entry.isSolid_of_isDirectory (os.cwd_directory c hc)
    rw [isPathWithin_iff hp (show (placePath c).isEmpty = false from rfl), Host.pathExists_iff]
    constructor
    · rintro ⟨⟨pl, ls, hst⟩, t, ht, b, hb, hg⟩
      have htr := (os.status_eq_found_iff hp).1 hst
      rw [htr, some.injEq] at ht
      subst ht
      rw [trail_cwd hc, some.injEq] at hb
      subst hb
      rw [os.form_of_found hp hst, form_place hs] at hg
      exact ⟨_, htr, rfl, rfl, ((begins_iff rfl (.inl rfl)).1 hg).2⟩
    · rintro ⟨⟨a, pl, ls, re⟩, htr, rfl, rfl, he⟩
      have hst := (os.status_eq_found_iff hp).2 htr
      refine ⟨⟨pl, ls, hst⟩, _, htr, _, trail_cwd hc, ?_⟩
      rw [os.form_of_found hp hst, form_place hs]
      exact (begins_iff rfl (.inl rfl)).2 ⟨rfl, he⟩
  rw [Confined, hp, isPathWithin_iff hp (driveC_isEmpty root)]
  constructor
  · rintro (h | ⟨t, ht, hbe⟩ | ⟨hl, hpa, c, hc, hw⟩)
    · cases h
    · exact ⟨t, ht, .inl hbe⟩
    · obtain ⟨t, ht, ha, hr, he⟩ := (hx c hc).1 ⟨hpa, hw⟩
      exact ⟨t, ht, .inr ⟨hl, ha, hr, c, hc, he⟩⟩
  · rintro ⟨t, ht, hbe | ⟨hl, ha, hr, c, hc, he⟩⟩
    · exact .inr (.inl ⟨t, ht, hbe⟩)
    · obtain ⟨hpa, hw⟩ := (hx c hc).2 ⟨t, ht, ha, hr, he⟩
      exact .inr (.inr ⟨hl, hpa, c, hc, hw⟩)

variable {v : ByteString}

theorem ofText_absolute (h : v.head? ≠ some 0x2F) : (ofText v).absolute = false := by
  simpa [ofText, PosixPath.isAbsolute] using h

theorem trail_resolveRest_iff
    (hv : v.head? ≠ some 0x2F) {t : Trail} :
    os.trail (resolveRest os r v) = some t ↔ FollowedFrom os r (Host.behind (ofText v)) t := by
  have ha := ofText_absolute hv
  have hd : os.trail (driveC r / ofText v) = some t ↔
      ∃ b, os.trail (driveC r) = some b ∧ os.follow b (Host.behind (ofText v)) = some t := by
    rw [os.trail_join (by simp [driveC]) (driveC_names_ne_nil r) ha, bind_eq_some_iff]
  rw [resolveRest, if_neg hv]
  cases hc : os.cwd with
  | none =>
    rw [hd]
    simp [FollowedFrom, hc]
  | some c =>
    have ht := os.status_placePath_join (os.cwd_directory c hc) ha
    have he : (placePath c / ofText v).isEmpty = false := isEmpty_join rfl _
    simp only
    split
    · next hx =>
      obtain ⟨p, links, hf⟩ := os.pathExists_iff.1 hx
      have hw := ht.symm.trans hf
      rw [(os.status_eq_found_iff he).1 hf]
      constructor
      · rintro ⟨⟩
        exact .inl ⟨c, p, links, hc, hw, rfl⟩
      · rintro (⟨c', p', ls', hc', hw', rfl⟩ | ⟨hn, -⟩)
        · cases hc.symm.trans hc'
          cases hw.symm.trans hw'
          rfl
        · exact absurd hw (hn c p links hc)
    · next hx =>
      have hn : ∀ c' p links, some c = some c' →
          os.fs.walk linkLimit c' (Host.behind (ofText v)) ≠ .found p links := by
        rintro _ p links ⟨⟩ hw
        exact hx (os.pathExists_iff.2 ⟨p, links, ht.trans hw⟩)
      rw [hd, FollowedFrom, hc]
      constructor
      · exact fun h => .inr ⟨hn, h⟩
      · rintro (⟨c', p, links, hs, hw, -⟩ | ⟨-, h⟩)
        · exact absurd hw (hn c' p links hs)
        · exact h

theorem resolveRest_isEmpty
    (hv : v.head? ≠ some 0x2F) : (resolveRest os r v).isEmpty = false := by
  have hd := isEmpty_join (driveC_isEmpty r) (ofText v)
  rw [resolveRest, if_neg hv]
  split
  · exact hd
  · split
    · exact isEmpty_join rfl _
    · exact hd

/-! ### The whole function -/

theorem resolveRest_iff {wp view : ByteString} (he : view.head? = some 0x2F → ¬Relative wp) :
    Confined os r wp (resolveRest os r view) ↔ RestStaysInside os r wp view := by
  unfold RestStaysInside
  split
  · next hr =>
    rw [resolveRest, if_pos hr]
    exact confined_confinedDrivePath_iff (isEmpty_join (driveC_isEmpty r) _) (he hr)
  · next hv =>
    rw [confined_iff_endsInside (resolveRest_isEmpty hv)]
    simp [trail_resolveRest_iff hv]

theorem not_relative_of_driveLetter {l : UInt8}
    (h : driveLetter (extendedView (normalizeSeparators winPath)) = some l) :
    ¬Relative winPath := by
  rintro ⟨hh, hd⟩
  unfold extendedView at h
  split at h
  · next he =>
    -- what starts with `\\?\` starts at the root
    rw [isExtended, isPrefixOf_iff_prefix] at he
    obtain ⟨r, hr⟩ := he
    rw [← hr] at hh
    exact hh rfl
  · rw [hd] at h
    cases h

theorem not_relative_of_root
    (h : (extendedView (normalizeSeparators winPath)).head? = some 0x2F) : ¬Relative winPath := by
  rintro ⟨hh, -⟩
  unfold extendedView at h
  split at h
  · next he =>
    rw [isExtended, isPrefixOf_iff_prefix] at he
    obtain ⟨r, hr⟩ := he
    rw [← hr] at hh
    exact hh rfl
  · exact hh h

theorem not_relative_of_isPipe
    (h : isPipe (extendedView (normalizeSeparators winPath))) : ¬Relative winPath := by
  refine not_relative_of_root ?_
  rw [isPipe, Bool.or_eq_true, isPrefixOf_iff_prefix, isPrefixOf_iff_prefix] at h
  rcases h with ⟨r, hr⟩ | ⟨r, hr⟩
  · rw [← hr]
    rfl
  · rw [← hr]
    rfl

/-- **The result is confined exactly when the names stay inside.** -/
theorem confined_iff {os os' : Host ν} {root result : FilePath} {winPath : ByteString}
    (hscope : InScope winPath) (h : Resolves os root winPath result os') :
    Confined os' root winPath result ↔ StaysInside os os' root winPath := by
  have he : Confined os' root winPath {} := .inl rfl
  cases h with
  | pipe hp _ =>
    obtain ⟨hn, hu, hp⟩ := hp
    have ha : (pipePath root (extendedView (normalizeSeparators winPath))).isEmpty = false := by
      simp [pipePath]
    simp only [resolveWindowsPath, StaysInside, hn, hu, hp, Bool.false_eq_true, if_false,
      if_true]
    rw [confined_iff_endsInside ha]
    simp [EndsInside, not_relative_of_isPipe hp]
  | other ho =>
    unfold resolveWindowsPath StaysInside
    split
    · simp [he]
    next hn =>
    simp only
    split
    · simp [he]
    next hu =>
    have hp : isPipe (extendedView (normalizeSeparators winPath)) = false := by
      by_contra hp
      exact ho ⟨by simpa using hn, by simpa using hu, by simpa using hp⟩
    simp only [hp, Bool.false_eq_true, if_false]
    cases hl : driveLetter (extendedView (normalizeSeparators winPath)) with
    | none => exact resolveRest_iff not_relative_of_root
    | some l =>
      cases hscope.drive l hl
      have hr := not_relative_of_driveLetter hl
      simp only [if_true]
      split
      · refine confined_confinedDrivePath_iff (isEmpty_join ?_ _) hr
        simp [dosdeviceTarget]
      · exact confined_confinedDrivePath_iff (isEmpty_join (driveC_isEmpty root) _) hr

/-- A prefix at `/p` with nothing in its `drive_c` but a link to `/etc`. -/
def linkedHost : Host Unit where
  fs := .ofList [([], .directory ()), ([text "etc"], .directory ()), ([text "p"], .directory ()),
    ([text "p", text "drive_c"], .directory ()),
    ([text "p", text "drive_c", text "out"], .link () (ofText (text "/etc")))] (by decide +kernel)
  cwd := some []
  cwd_directory := by
    rintro place ⟨⟩
    decide +kernel

theorem confined_newFile : Confined linkedHost (ofText (text "/p")) (text "C:\\new.txt")
      (resolveWindowsPath linkedHost (ofText (text "/p")) (text "C:\\new.txt")) := by
  have he : (text "C:\\new.txt").isEmpty = false := by decide +kernel
  have hu : isExtendedUnc (normalizeSeparators (text "C:\\new.txt")) = false := by decide +kernel
  have hp : isPipe (extendedView (normalizeSeparators (text "C:\\new.txt"))) = false := by
    decide +kernel
  have hl : driveLetter (extendedView (normalizeSeparators (text "C:\\new.txt"))) =
      some 0x63 := by decide +kernel
  have ha : (linkedHost.pathExists (dosdeviceTarget (ofText (text "/p")) 0x63) ||
      linkedHost.isSymlink (dosdeviceTarget (ofText (text "/p")) 0x63)) = false := by
    decide +kernel
  have hr : linkedHost.trail (driveC (ofText (text "/p")) / ofText (dropSlashes
      ((extendedView (normalizeSeparators (text "C:\\new.txt"))).drop 2))) =
        some ⟨true, ⟨[text "p", text "drive_c"], 40, [text "new.txt"]⟩⟩ := by decide +kernel
  refine (confined_iff ⟨by decide +kernel, fun l h => ?_⟩ (.other (by simp [hp]))).mpr ?_
  · rw [hl, some.injEq] at h
    exact h.symm
  · intro t ht hd
    rw [hr, some.injEq] at ht
    subst ht
    exact absurd hd (by decide +kernel)

/-- A relative path leaves `drive_c`. -/
theorem not_confined_parent : InScope (text "..\\x") ∧
      Resolves linkedHost (ofText (text "/p")) (text "..\\x")
        (resolveWindowsPath linkedHost (ofText (text "/p")) (text "..\\x")) linkedHost ∧
      ¬Confined linkedHost (ofText (text "/p")) (text "..\\x")
        (resolveWindowsPath linkedHost (ofText (text "/p")) (text "..\\x")) := by
  have hl : driveLetter (extendedView (normalizeSeparators (text "..\\x"))) = none := by
    decide +kernel
  refine ⟨⟨by decide +kernel, fun l h => ?_⟩, .other (by decide +kernel), ?_⟩
  · cases h
  · rintro (h | h | ⟨-, h, -⟩)
    · exact absurd h (by decide +kernel)
    · exact absurd h (by decide +kernel)
    · exact absurd h (by decide +kernel)

/-- A `..` behind a missing name keeps a link from being followed: the path of `/etc` is returned,
as one in `drive_c`. -/
example : resolveWindowsPath linkedHost (ofText (text "/p")) (text "C:\\gone\\..\\out") =
        ofText (text "/p/drive_c/out") ∧
      linkedHost.canonical (ofText (text "/p/drive_c/out")) = some (ofText (text "/etc")) := by
  decide +kernel

end TradutorLinux.Prefix
