import TradutorLinux.Util.FileSystem

/-!
# The queries of `std::filesystem`

A host is a file system and a current directory.  `std::filesystem::canonical`
is the place a path leads to; `weakly_canonical` is that place for the longest
front of the path that exists, with the rest behind it in lexical normal form.
The trail of a path is where a lookup gets and what names it leaves: one pass
over the names, that goes on from path to longer path, while the function of the
library starts again at the root for every front it tries.

## Main definitions

* `Host`, `Host.status`, `Host.canonical`, `Host.weaklyCanonical`.
* `Host.trail`, `Trail.form`.

## Main results

* `Host.weaklyCanonical_eq` — **`weakly_canonical` is the normal form of the trail.**
-/

namespace TradutorLinux

open List FilePath FileSystem

open FilePath (dot dotdot single normalForm)

/-- `ELOOP` comes after so many links. -/
def linkLimit : ℕ := 40

/-- The file system and the current directory, which may have been removed. -/
structure Host (ν : Type) where
  fs : FileSystem ν
  cwd : Option Place
  cwd_directory : ∀ place, cwd = some place → (fs.entry place).isDirectory = true

def placePath (place : Place) : FilePath := { absolute := true, names := place }

/-- Where a path leads: how far from the root or the current directory, unless nothing of it
exists. -/
structure Trail where
  anchored : Bool
  reached : FileSystem.Reached
deriving DecidableEq

/-- The place that exists, and the names that do not in normal form behind it. -/
def Trail.form (t : Trail) : FilePath :=
  normalForm t.anchored (t.reached.place ++ t.reached.rest)

namespace Host

variable {ν : Type} (os : Host ν)

/-! ### Queries -/

def start (p : FilePath) : Option Place := if p.absolute then some [] else os.cwd

/-- `status`: `found` is a type that exists, and `missing` is `not_found`. -/
def status (p : FilePath) : Lookup :=
  if p.isEmpty then .missing false
  else
    match os.start p with
    | none => .missing false
    | some place => os.fs.walk linkLimit place p.steps

/-- `exists`. -/
def pathExists (p : FilePath) : Bool :=
  match os.status p with
  | .found _ _ => true
  | _ => false

/-- `is_symlink`: the last name is not followed. -/
def isSymlink (p : FilePath) : Bool :=
  match p.names.getLast?, os.start p with
  | some name, some place =>
    !p.slash && name != dot && name != dotdot &&
      match os.fs.walk linkLimit place p.names.dropLast with
      | .found above _ => (os.fs.entry (above ++ [name])).isLink
      | _ => false
  | _, _ => false

/-- `canonical`; `none` is an error. -/
def canonical (p : FilePath) : Option FilePath :=
  match os.status p with
  | .found place _ => some (placePath place)
  | _ => none

/-- The loop of `weakly_canonical`: the leading elements that exist, and those from the first on
that does not. -/
def leading : FilePath → List FilePath → Option (FilePath × List FilePath)
  | result, [] => some (result, [])
  | result, element :: rest =>
    match os.status (result / element) with
    | .found _ _ => leading (result / element) rest
    | .missing _ => some (result, element :: rest)
    | .failed => none

/-- `weakly_canonical`; `none` is an error. -/
def weaklyCanonical (p : FilePath) : Option FilePath :=
  match os.status p with
  | .found place _ => some (placePath place)
  | .failed => none
  | .missing _ =>
    match os.leading {} (p.elements.map FilePath.Element.path) with
    | none => none
    | some (result, rest) =>
      if result.isEmpty then some (rest.foldl FilePath.join result).lexicallyNormal
      else (os.canonical result).map fun r => (rest.foldl FilePath.join r).lexicallyNormal

/-! ### Trails -/

/-- Where a path leads, name by name. -/
def trail (p : FilePath) : Option Trail :=
  match os.start p with
  | none => some ⟨false, ⟨[], linkLimit, p.steps⟩⟩
  | some place =>
    (os.fs.reach linkLimit place p.steps).map fun r =>
      if p.absolute = false ∧ r.rest = p.steps then ⟨false, ⟨[], linkLimit, p.steps⟩⟩
      else ⟨true, r⟩

/-- Where further names lead. -/
def follow (t : Trail) (names : List ByteString) : Option Trail :=
  if t.anchored then (os.fs.resume t.reached names).map fun r => ⟨true, r⟩
  else some ⟨false, { t.reached with rest := t.reached.rest ++ names }⟩

variable {p : FilePath}
variable {pl : Place}

theorem start_solid (h : os.start p = some pl) : (os.fs.entry pl).isSolid := by
  unfold start at h
  split at h
  · cases h
    exact Entry.isSolid_of_isDirectory os.fs.root
  · exact Entry.isSolid_of_isDirectory (os.cwd_directory pl h)

theorem status_eq_walk (hp : p.isEmpty = false)
    (h : os.start p = some pl) : os.status p = os.fs.walk linkLimit pl p.steps := by
  rw [status, if_neg (by simp [hp]), h]

theorem status_eq_missing (h : os.start p = none) : os.status p = .missing false := by
  unfold status
  split
  · rfl
  · rw [h]

attribute [local simp] start FilePath.isEmpty

variable {ls : ℕ}

/-- A path, and behind it one name more. -/
theorem status_join_single (hl : p.slash = false)
    (h : os.status p = .found pl ls) (nm : ByteString) :
    os.status (p / single nm) = os.fs.walk ls pl [nm] := by
  cases hs : os.start p with
  | none => rw [os.status_eq_missing hs] at h; cases h
  | some first =>
    have hp : p.isEmpty = false := by
      by_contra hn
      rw [Bool.not_eq_false] at hn
      rw [status, if_pos hn] at h
      cases h
    rw [os.status_eq_walk hp hs, FilePath.steps_eq_names hl] at h
    have hs' : os.start (p / single nm) = some first := by
      rw [← hs]
      simp
    rw [os.status_eq_walk (by simp) hs',
      steps_eq_names (join_single_slash p nm), join_single_names,
      walk_append, h]
    rfl

theorem status_join_slash (hl : p.slash = false) (h : os.status p = .found pl ls) :
    os.status (p / {}) = os.fs.walk ls pl [dot] := by
  cases hs : os.start p with
  | none => rw [os.status_eq_missing hs] at h; cases h
  | some first =>
    have hp : p.isEmpty = false := by
      by_contra hne
      rw [Bool.not_eq_false] at hne
      rw [status, if_pos hne] at h
      cases h
    by_cases hn : p.names = []
    · -- the root, which a slash leaves as it is
      have ha : p.absolute := by simpa [hn] using hp
      have hj : p / ({} : FilePath) = p := by
        obtain ⟨a, ns, s⟩ := p
        cases hl
        cases hn
        rfl
      rw [hj, h]
      rw [os.status_eq_walk hp hs, FilePath.steps_eq_names hl, hn, FileSystem.walk_nil] at h
      simp only [start, ha, if_true, Option.some.injEq] at hs
      cases h
      rw [← hs, walk_dot os.fs.root]
    · have hj : (p / ({} : FilePath)).steps = p.names ++ [dot] := by
        rw [FilePath.steps_join rfl hn]
        rfl
      have hs' : os.start (p / ({} : FilePath)) = some first := hs
      have he : (p / ({} : FilePath)).isEmpty = false := hp
      rw [os.status_eq_walk hp hs, FilePath.steps_eq_names hl] at h
      rw [os.status_eq_walk he hs', hj, walk_append, h]
      rfl

/-! ### The loop of `weakly_canonical` -/

/-- The elements that are not the root. -/
def pieces (names : List ByteString) (slash : Bool) : List FilePath :=
  names.map single ++ if slash then [({} : FilePath)] else []

/-- The steps of the same elements. -/
def pieceSteps (names : List ByteString) (slash : Bool) : List ByteString :=
  names ++ if slash then [dot] else []

attribute [local simp] pieces

theorem map_path (p : FilePath) : p.elements.map FilePath.Element.path =
      (if p.absolute then [{ absolute := true }] else []) ++ pieces p.names p.slash := by
  obtain ⟨a, ns, s⟩ := p
  have hn : (ns.map FilePath.Element.name).map FilePath.Element.path = ns.map single := by
    rw [map_map]
    rfl
  cases a <;> cases s <;> simp [FilePath.elements, FilePath.Element.path]

attribute [local simp] FilePath.join single

theorem foldl_join_single (ns : List ByteString) : ∀ {b : FilePath}, b.slash = false →
      (ns.map single).foldl FilePath.join b = { b with names := b.names ++ ns } := by
  induction ns with
  | nil => intro b _; simp
  | cons nm ns ih =>
    intro b hs
    have hj : b.join (single nm) = ⟨b.absolute, b.names ++ [nm], false⟩ := by simp
    rw [map_cons, foldl_cons, hj, ih rfl, hs, append_assoc, singleton_append]

variable {names ns : List ByteString}

attribute [local simp] pieceSteps

variable {s : Bool}

theorem lexicallyNormal_foldl_pieces {b : FilePath}
    (hs : b.slash = false) (hne : b.absolute ∨ b.names ++ ns ≠ []) :
    ((pieces ns s).foldl FilePath.join b).lexicallyNormal =
      normalForm b.absolute (b.names ++ pieceSteps ns s) := by
  have he : (FilePath.mk b.absolute (b.names ++ ns) false).isEmpty = false := by
    rcases hne with h | h
    · simp [h]
    · simpa using fun _ => h
  rw [pieces, foldl_append, foldl_join_single ns hs, hs]
  cases s with
  | false =>
    rw [if_neg (by simp), foldl_nil, FilePath.lexicallyNormal, he]
    simp [FilePath.steps]
  | true =>
    by_cases hn : b.names ++ ns = []
    · have ha : b.absolute := by
        rcases hne with h | h
        · exact h
        · exact absurd hn h
      obtain ⟨hb, hns⟩ := append_eq_nil_iff.1 hn
      simp [FilePath.lexicallyNormal, FilePath.steps, normalForm, FilePath.cancelled, ha, hb, hns]
    · have he' : (FilePath.mk b.absolute (b.names ++ ns) true).isEmpty = false := he
      have hj : FilePath.join ⟨b.absolute, b.names ++ ns, false⟩ {} =
          ⟨b.absolute, b.names ++ ns, true⟩ := by
        simpa using hn
      rw [if_pos rfl, foldl_cons, foldl_nil, hj, FilePath.lexicallyNormal, he']
      simp [FilePath.steps]

attribute [local simp] leading

theorem leading_pieces (s : Bool) : ∀ (ns : List ByteString) {rs : FilePath}
    {pl : Place} {ls : ℕ}, rs.slash = false → os.status rs = .found pl ls →
    match os.fs.reach ls pl (pieceSteps ns s) with
    | none => os.leading rs (pieces ns s) = none
    | some r => ∃ r' n' slash', os.leading rs (pieces ns s) =
        some (r', pieces n' slash') ∧ os.status r' = .found r.place r.links ∧
          r.rest = pieceSteps n' slash' := by
  intro ns
  induction ns with
  | nil =>
    intro rs pl ls hs h
    cases s with
    | false => exact ⟨rs, [], false, rfl, h, rfl⟩
    | true =>
      have ht := os.status_join_slash hs h
      change match os.fs.reach ls pl [dot] with
        | none => os.leading rs [{}] = none
        | some r => _
      rw [FileSystem.reach]
      cases hw : os.fs.walk ls pl [dot] with
      | found p' ls' =>
        refine ⟨rs / {}, [], false, ?_, ht.trans hw, rfl⟩
        simp [ht, hw]
      | missing =>
        refine ⟨rs, [], true, ?_, h, rfl⟩
        simp [ht, hw]
      | failed => simp [ht, hw]
  | cons nm ns ih =>
    intro rs pl ls hs h
    have ht := os.status_join_single hs h nm
    have hl : os.leading rs (pieces (nm :: ns) s) = match os.fs.walk ls pl [nm] with
        | .found _ _ => os.leading (rs / single nm) (pieces ns s)
        | .missing _ => some (rs, pieces (nm :: ns) s)
        | .failed => none := by
      rw [← ht]
      rfl
    have hr : os.fs.reach ls pl (pieceSteps (nm :: ns) s) = match os.fs.walk ls pl [nm] with
        | .found p' ls' => os.fs.reach ls' p' (pieceSteps ns s)
        | .missing _ => some ⟨pl, ls, pieceSteps (nm :: ns) s⟩
        | .failed => none := rfl
    rw [hl, hr]
    cases hw : os.fs.walk ls pl [nm] with
    | found p' ls' => exact ih (FilePath.join_single_slash rs nm) (ht.trans hw)
    | missing => exact ⟨rs, nm :: ns, s, rfl, h, rfl⟩
    | failed => rfl

theorem form_of_pieces (pl : Place) :
    ((pieces ns s).foldl FilePath.join (placePath pl)).lexicallyNormal =
      normalForm true (pl ++ pieceSteps ns s) :=
  lexicallyNormal_foldl_pieces rfl (.inl rfl)

attribute [local simp] placePath

variable {place pe : Place}

theorem normalForm_place (h : (os.fs.entry place).isSolid) :
    normalForm true place = placePath place := by
  obtain ⟨ho, ht⟩ := FileSystem.plain_of_isSolid h
  unfold normalForm
  rw [cancelled_of_plain ho ht]
  by_cases hn : place = []
  · simp [hn]
  · have hl : place.getLast? ≠ some dot ∧ place.getLast? ≠ some dotdot :=
      ⟨fun hd => ho (mem_of_getLast? hd), fun hd => ht (mem_of_getLast? hd)⟩
    simp [hn, hl.1, hl.2]

variable {why : Bool}

theorem weaklyCanonical_of_leading {p rs : FilePath} (hm : os.status p = .missing why)
    (hl : os.leading {} (p.elements.map FilePath.Element.path) = some (rs,
    pieces ns s)) (hs : os.status rs = .found pl ls) :
    os.weaklyCanonical p = some (normalForm true (pl ++ pieceSteps ns s)) := by
  have he : rs.isEmpty = false := by
    by_contra hn
    rw [Bool.not_eq_false] at hn
    rw [status, if_pos hn] at hs
    cases hs
  rw [weaklyCanonical, hm]
  simp only [hl, he, Bool.false_eq_true, if_false, canonical, hs, Option.map_some]
  rw [form_of_pieces]

theorem weaklyCanonical_of_nothing (hp : p.isEmpty = false)
    (ha : p.absolute = false) (hm : os.status p = .missing why)
    (hf : ∀ name re, p.names = name :: re → ∃ w', os.status (single name) = .missing w') :
    os.weaklyCanonical p = some (normalForm false p.steps) := by
  have hn : p.names ≠ [] := by simpa [ha] using hp
  obtain ⟨name, re, hc⟩ := exists_cons_of_ne_nil hn
  have hj : ({} : FilePath) / single name = single name := rfl
  have hl : os.leading {} (p.elements.map FilePath.Element.path) =
      some ({}, pieces p.names p.slash) := by
    rw [map_path, ha, if_neg (by simp), nil_append, hc]
    change (match os.status (({} : FilePath) / single name) with
      | .found _ _ => _
      | .missing _ => some (({} : FilePath), pieces (name :: re) p.slash)
      | .failed => none) = _
    obtain ⟨w', hf⟩ := hf name re hc
    rw [hj, hf]
  rw [weaklyCanonical, hm]
  simp only [hl]
  rw [if_pos (by rfl), lexicallyNormal_foldl_pieces rfl (.inr (by simpa using hn))]
  rfl

/-! ### What a trail is -/

theorem absolute_of_start (h : os.start p = none) : p.absolute = false := by
  by_contra ha
  rw [Bool.not_eq_false] at ha
  rw [start, if_pos ha] at h
  cases h

theorem trail_of_start (h : os.start p = none) :
    os.trail p = some ⟨false, ⟨[], linkLimit, p.steps⟩⟩ := by
  rw [trail, h]

theorem trail_of_failed (h : os.start p = some pl)
    (hr : os.fs.reach linkLimit pl p.steps = none) : os.trail p = none := by
  rw [trail, h]
  simp only [hr, Option.map_none]

theorem trail_of_nothing (h : os.start p = some pl) (ha : p.absolute = false)
    (hr : os.fs.reach linkLimit pl p.steps = some ⟨pl, linkLimit, p.steps⟩) :
    os.trail p = some ⟨false, ⟨[], linkLimit, p.steps⟩⟩ := by
  rw [trail, h]
  simp [hr, Option.map_some, ha]

variable {r : FileSystem.Reached}

theorem trail_of_reached
    (h : os.start p = some pl) (hr : os.fs.reach linkLimit pl p.steps = some r)
    (hn : p.absolute = false → r.rest ≠ p.steps) : os.trail p = some ⟨true, r⟩ := by
  have hi : ¬(p.absolute = false ∧ r.rest = p.steps) := fun h => hn h.1 h.2
  rw [trail, h]
  simp only [hr, Option.map_some, if_neg hi]

theorem weaklyCanonical_of_found {p' : Place} (hs : os.start p = some pl) (hp : p.isEmpty = false)
    (h : os.fs.reach linkLimit pl p.steps = some ⟨p', ls, []⟩) :
    os.weaklyCanonical p = some (placePath p') ∧ os.trail p = some ⟨true, ⟨p', ls, []⟩⟩ := by
  have ht := os.status_eq_walk hp hs
  rw [FileSystem.walk_eq_found_iff.2 h] at ht
  refine ⟨by rw [weaklyCanonical, ht], os.trail_of_reached hs h fun ha hst => ?_⟩
  have hn : p.names ≠ [] := by simpa [ha] using hp
  exact hn (append_eq_nil_iff.1 hst.symm).1

theorem weaklyCanonical_of_absolute
    (ha : p.absolute) (hm : os.status p = .missing why)
    (h : os.fs.reach linkLimit [] p.steps = some r) :
    os.weaklyCanonical p = some (normalForm true (r.place ++ r.rest)) := by
  have hr : os.status { absolute := true } = .found [] linkLimit := rfl
  have hl := os.leading_pieces p.slash p.names rfl hr
  change match os.fs.reach linkLimit [] p.steps with | none => _ | some r => _ at hl
  rw [h] at hl
  obtain ⟨rs, ns, s, he, hs, hre⟩ := hl
  rw [hre]
  refine os.weaklyCanonical_of_leading hm ?_ hs
  rw [map_path, ha, if_pos rfl, singleton_append]
  exact he

variable {rest rt re : List ByteString}

theorem weaklyCanonical_of_relative {p' : Place} {ls' : ℕ} {name : ByteString}
    (ha : p.absolute = false) (hc : p.names = name :: re) (hm : os.status p = .missing why)
    (hf : os.status (single name) = .found p' ls')
    (hr : os.fs.reach ls' p' (pieceSteps re p.slash) = some r) :
    os.weaklyCanonical p = some (normalForm true (r.place ++ r.rest)) := by
  have hl := os.leading_pieces p.slash re rfl hf
  rw [hr] at hl
  obtain ⟨rs, ns, s, he, hs, hre⟩ := hl
  rw [hre]
  refine os.weaklyCanonical_of_leading hm ?_ hs
  rw [map_path, ha, if_neg (by simp), nil_append, hc]
  have hj : ({} : FilePath) / single name = single name := rfl
  change (match os.status (({} : FilePath) / single name) with
    | .found _ _ => os.leading (({} : FilePath) / single name) (pieces re p.slash)
    | .missing _ => _
    | .failed => _) = _
  rw [hj, hf]
  exact he

/-- **`weakly_canonical` is the normal form of the trail.** -/
theorem weaklyCanonical_eq (hp : p.isEmpty = false) :
    os.weaklyCanonical p = (os.trail p).map Trail.form := by
  cases hs : os.start p with
  | none =>
    have ha := os.absolute_of_start hs
    have hd : os.cwd = none := by simpa [ha] using hs
    rw [os.trail_of_start hs, os.weaklyCanonical_of_nothing hp ha (os.status_eq_missing hs)
      fun nm _ _ => ⟨_, os.status_eq_missing (by simp [hd])⟩]
    rfl
  | some pl =>
    have hsa := os.status_eq_walk hp hs
    cases hr : os.fs.reach linkLimit pl p.steps with
    | none =>
      rw [FileSystem.walk_eq_failed_iff.2 hr] at hsa
      rw [os.trail_of_failed hs hr, weaklyCanonical, hsa]
      rfl
    | some r =>
      by_cases he : r.rest = []
      · obtain ⟨p', ls, re⟩ := r
        cases he
        obtain ⟨hu, ht⟩ := os.weaklyCanonical_of_found hs hp hr
        have hso := FileSystem.walk_solid (os.start_solid hs) (FileSystem.walk_eq_found_iff.2 hr)
        rw [hu, ht, Option.map_some, Trail.form, append_nil, os.normalForm_place hso]
      · obtain ⟨why, hm⟩ := FileSystem.walk_eq_missing hr he
        rw [← hsa] at hm
        cases ha : p.absolute with
        | true =>
          have hpl : pl = [] := by
            rw [start, ha, if_pos rfl] at hs
            cases hs
            rfl
          subst hpl
          rw [os.weaklyCanonical_of_absolute ha hm hr,
            os.trail_of_reached hs hr (by simp [ha])]
          rfl
        | false =>
          have hn : p.names ≠ [] := by simpa [ha] using hp
          obtain ⟨nm, re, hc⟩ := exists_cons_of_ne_nil hn
          have hst : p.steps = nm :: pieceSteps re p.slash := by
            rw [FilePath.steps, hc]
            rfl
          have hi : os.status (single nm) = os.fs.walk linkLimit pl [nm] := by
            refine os.status_eq_walk rfl ?_
            rw [← hs]
            simp [ha]
          have hf := hr
          rw [hst, FileSystem.reach] at hf
          cases hw : os.fs.walk linkLimit pl [nm] with
          | found p' ls' =>
            rw [hw] at hf
            have hne : r.rest ≠ p.steps := by
              intro h
              obtain ⟨⟨f, hl, -⟩, -⟩ := FileSystem.reach_stops hf
              have hle := congrArg List.length hl
              rw [h, hst, length_append, length_cons] at hle
              omega
            rw [os.weaklyCanonical_of_relative ha hc hm (hi.trans hw) hf,
              os.trail_of_reached hs hr fun _ => hne]
            rfl
          | missing =>
            rw [hw] at hf
            cases hf
            rw [← hst] at hr
            rw [os.trail_of_nothing hs ha hr,
              os.weaklyCanonical_of_nothing hp ha hm fun o r' ho => ?_]
            · rfl
            · rw [hc] at ho
              cases ho
              exact ⟨_, hi.trans hw⟩
          | failed =>
            rw [hw] at hf
            cases hf

/-! ### Longer paths -/

/-- What a relative path asks for behind another one: an empty one asks for a directory. -/
def behind (q : FilePath) : List ByteString := if q.names = [] then [dot] else q.steps

/-- **The trail of a longer path goes on from that of the path.** -/
theorem trail_join {p q : FilePath} (hsl : p.slash = false) (hn : p.names ≠ [])
    (hq : q.absolute = false) : os.trail (p / q) = (os.trail p).bind (os.follow · (behind q)) := by
  have hs : (p / q).steps = p.steps ++ behind q := by
    rw [FilePath.steps_join hq hn, FilePath.steps_eq_names hsl]
    rfl
  have hb : (p / q).absolute = p.absolute := FilePath.absolute_join hq
  have ht : os.start (p / q) = os.start p := by rw [start, start, hb]
  have hne : p.steps ≠ [] := by rwa [FilePath.steps_eq_names hsl]
  cases hp : os.start p with
  | none =>
    rw [os.trail_of_start hp, os.trail_of_start (ht.trans hp), hs]
    rfl
  | some pl =>
    have ha : os.fs.reach linkLimit pl (p / q).steps =
        (os.fs.reach linkLimit pl p.steps).bind (os.fs.resume · (behind q)) := by
      rw [hs, FileSystem.reach_append]
    cases hr : os.fs.reach linkLimit pl p.steps with
    | none =>
      rw [hr] at ha
      rw [os.trail_of_failed hp hr, os.trail_of_failed (ht.trans hp) ha]
      rfl
    | some r =>
      rw [hr, Option.bind_some] at ha
      by_cases hif : p.absolute = false ∧ r.rest = p.steps
      · -- nothing of the path exists, and so nothing of the longer one
        obtain ⟨hl, hre⟩ := hif
        obtain ⟨⟨f, hf, ho⟩, -⟩ := reach_stops hr
        have hi : f = [] := by
          have hle := congrArg List.length hf
          rw [hre, length_append] at hle
          exact eq_nil_of_length_eq_zero (by omega)
        rw [hi, walk_nil, Lookup.found.injEq] at ho
        obtain ⟨at', ls, re⟩ := r
        obtain ⟨rfl, rfl⟩ := ho
        subst hre
        rw [FileSystem.resume, if_neg hne] at ha
        simp only [← hs] at ha
        rw [os.trail_of_nothing hp hl hr,
          os.trail_of_nothing (ht.trans hp) (hb.trans hl) ha, hs]
        rfl
      · have hn' : p.absolute = false → r.rest ≠ p.steps := fun h h' => hif ⟨h, h'⟩
        rw [os.trail_of_reached hp hr hn', Option.bind_some, follow, if_pos rfl]
        cases he : os.fs.resume r (behind q) with
        | none =>
          rw [he] at ha
          exact os.trail_of_failed (ht.trans hp) ha
        | some r' =>
          rw [he] at ha
          refine os.trail_of_reached (ht.trans hp) ha fun hl hre => ?_
          -- what is left has grown by no more than the further names
          have hle : r'.rest.length ≤ r.rest.length + (behind q).length := by
            unfold FileSystem.resume at he
            split at he
            · obtain ⟨⟨f, hf, -⟩, -⟩ := reach_stops he
              have := congrArg List.length hf
              rw [length_append] at this
              omega
            · cases he
              rw [length_append]
          obtain ⟨⟨f, hf, -⟩, -⟩ := reach_stops hr
          have hl' := congrArg List.length hf
          rw [length_append] at hl'
          rw [hre, hs, length_append] at hle
          have hi : f = [] := eq_nil_of_length_eq_zero (by omega)
          rw [hi, nil_append] at hf
          exact hn' (hb ▸ hl) hf.symm

/-! ### Where trails end -/

/-- Where a trail ends: at a file or directory, where the next name is missing; or nowhere, when
the first name already is. -/
inductive Ends : Trail → Prop
  | anchored {r : FileSystem.Reached} (solid : (os.fs.entry r.place).isSolid = true)
      (links : r.links ≤ linkLimit)
      (stuck : ∀ name rest, r.rest = name :: rest →
        ∃ why, os.fs.walk r.links r.place [name] = .missing why) : Ends ⟨true, r⟩
  | nothing {links : ℕ} {rest : List ByteString} (hne : rest ≠ [])
      (missing : ∀ name rest' cwd, rest = name :: rest' → os.cwd = some cwd →
        ∃ why, os.fs.walk linkLimit cwd [name] = .missing why) : Ends ⟨false, ⟨[], links, rest⟩⟩

theorem ends_of_trail {t : Trail} (hp : p.isEmpty = false)
    (h : os.trail p = some t) : os.Ends t := by
  have hst : p.absolute = false → p.steps ≠ [] := by
    intro ha hi
    have hn : p.names ≠ [] := by simpa [ha] using hp
    exact hn (append_eq_nil_iff.1 hi).1
  cases hs : os.start p with
  | none =>
    rw [os.trail_of_start hs] at h
    cases h
    have ha := os.absolute_of_start hs
    have hc : os.cwd = none := by simpa [ha] using hs
    refine .nothing (hst ha) fun nm re c _ hso => ?_
    rw [hc] at hso
    cases hso
  | some pl =>
    cases hr : os.fs.reach linkLimit pl p.steps with
    | none =>
      rw [os.trail_of_failed hs hr] at h
      cases h
    | some r =>
      obtain ⟨⟨f, hfr, hf⟩, hu⟩ := FileSystem.reach_stops hr
      by_cases hif : p.absolute = false ∧ r.rest = p.steps
      · obtain ⟨ha, he⟩ := hif
        -- nothing was followed, so that the first name is missing where the lookup starts
        have hl : some pl = os.cwd := by rw [← hs, start, ha, if_neg (by simp)]
        have hi : f = [] := by
          have hle := congrArg List.length hfr
          rw [he, length_append] at hle
          exact eq_nil_of_length_eq_zero (by omega)
        rw [hi, FileSystem.walk_nil] at hf
        simp only [Lookup.found.injEq] at hf
        have ht : t = ⟨false, ⟨[], linkLimit, p.steps⟩⟩ := by
          rw [trail, hs] at h
          simp only [hr, Option.map_some, ha, he, and_self, if_true, Option.some.injEq] at h
          exact h.symm
        subst ht
        refine .nothing (hst ha) fun nm re c ho hc => ?_
        have hm := hu nm re (he.trans ho)
        rw [hc, Option.some.injEq] at hl
        rwa [← hf.1, ← hf.2, hl] at hm
      · rw [os.trail_of_reached hs hr fun ha he => hif ⟨ha, he⟩] at h
        cases h
        exact .anchored (FileSystem.walk_solid (os.start_solid hs) hf) (os.fs.walk_links_le hf) hu

theorem stuck_of_filter {nm : ByteString}
    (hr : dotdot ∉ nm :: re) (h : os.fs.walk linkLimit pl [nm] = .missing why) :
    ∃ nm' r', (nm :: re).filter (· ≠ dot) ++
        (if (nm :: re).getLast? == some dot then [dot] else []) = nm' :: r' ∧
      ∃ why', os.fs.walk linkLimit pl [nm'] = .missing why' := by
  cases hd : (os.fs.entry pl).isDirectory with
  | true =>
    have hn : nm ≠ dot := by
      rintro rfl
      rw [FileSystem.walk_dot hd] at h
      cases h
    refine ⟨nm, re.filter (· ≠ dot) ++
      (if (nm :: re).getLast? == some dot then [dot] else []), ?_, why, h⟩
    rw [filter_cons_of_pos (by simpa using hn)]
    rfl
  | false =>
    -- a file, behind which everything is missing
    cases hf : (nm :: re).filter (· ≠ dot) with
    | cons f o => exact ⟨f, _, rfl, true, FileSystem.walk_of_not_directory hd⟩
    | nil =>
      have hl := filter_eq_nil_iff.1 hf _ (getLast_mem (cons_ne_nil nm re))
      refine ⟨dot, [], ?_, true, FileSystem.walk_of_not_directory hd⟩
      rw [getLast?_eq_some_getLast (cons_ne_nil nm re)]
      simpa using hl

theorem steps_form (hs : (os.fs.entry place).isSolid) (hr : dotdot ∉ rest) :
    (normalForm true (place ++ rest)).steps = place ++ (rest.filter (· ≠ dot) ++
      if rest.getLast? == some dot ∧ place ++ rest.filter (· ≠ dot) ≠ [] then [dot] else []) := by
  obtain ⟨hd, ht⟩ := FileSystem.plain_of_isSolid hs
  have hp : place.filter (· ≠ dot) = place := by
    rw [filter_eq_self]
    intro nm hn
    have he : nm ≠ dot := by
      rintro rfl
      exact hd hn
    simpa using he
  have hnot : dotdot ∉ place ++ rest := by simp [ht, hr]
  have ha : ((place ++ rest).getLast? == some dot) = (rest.getLast? == some dot) := by
    by_cases hi : rest = []
    · have hpl : place.getLast? ≠ some dot := fun hl => hd (mem_of_getLast? hl)
      simp [hi, hpl]
    · rw [getLast?_append_of_ne_nil _ hi]
  by_cases hi : place ++ rest.filter (· ≠ dot) = []
  · have hf : normalForm true (place ++ rest) = { absolute := true } := by
      unfold normalForm
      rw [cancelled_of_no_dotdot hnot, filter_append, hp, if_pos hi]
      rfl
    rw [hf, if_neg fun h => h.2 hi, append_nil, hi]
    rfl
  · rw [normalForm_of_no_dotdot hnot (by rw [filter_append, hp]; exact hi),
      filter_append, hp, ha, FilePath.steps, append_assoc]
    cases rest.getLast? == some dot with
    | true =>
      change place ++ (_ ++ [dot]) = _
      rw [if_pos ⟨rfl, hi⟩]
    | false =>
      change place ++ (_ ++ []) = _
      rw [if_neg fun h => Bool.false_ne_true h.1]

/-- **`weakly_canonical` is done in one go**, where no `..` is left behind what exists. -/
theorem weaklyCanonical_form {t : Trail} (he : os.Ends t) (hr : dotdot ∉ t.reached.rest) :
    os.weaklyCanonical t.form = some t.form := by
  cases he with
  | @anchored r solid links stuck =>
    obtain ⟨pl, spare, rest⟩ := r
    have hnot : dotdot ∉ pl ++ rest := by simp [(FileSystem.plain_of_isSolid solid).2, hr]
    have hs := os.steps_form solid hr
    change os.weaklyCanonical (normalForm true (pl ++ rest)) = some _
    have hre : ∃ r', (normalForm true (pl ++ rest)).steps = pl ++ r' ∧
        os.fs.reach linkLimit pl r' = some ⟨pl, linkLimit, r'⟩ := by
      refine ⟨_, hs, ?_⟩
      cases rest with
      | nil => rfl
      | cons nm rest =>
        obtain ⟨why, hu⟩ := stuck nm rest rfl
        have hm := os.fs.walk_missing_of_le links hu
        by_cases hi : pl ++ (nm :: rest).filter (· ≠ dot) = []
        · -- all of it is dots, behind the root
          rw [append_eq_nil_iff] at hi
          rw [hi.1] at hm
          have hn : nm = dot := by
            have := filter_eq_nil_iff.1 hi.2 nm mem_cons_self
            simpa using this
          rw [hn, FileSystem.walk_dot os.fs.root] at hm
          cases hm
        · obtain ⟨nm', r', hc, w', hm'⟩ := os.stuck_of_filter hr hm
          have hf : (if (nm :: rest).getLast? == some dot ∧
              pl ++ (nm :: rest).filter (· ≠ dot) ≠ [] then [dot] else []) =
              if (nm :: rest).getLast? == some dot then [dot] else [] := by
            simp only [ne_eq, hi, not_false_eq_true, and_true]
          rw [hf, hc]
          exact FileSystem.reach_of_missing hm'
    obtain ⟨r', hs', hre⟩ := hre
    have hst : os.start (normalForm true (pl ++ rest)) = some [] := by
      rw [start, FilePath.normalForm_absolute, if_pos rfl]
    rw [os.weaklyCanonical_eq (FilePath.normalForm_isEmpty _ _),
      os.trail_of_reached (r := ⟨pl, linkLimit, r'⟩) hst ?_ (by simp),
      Option.map_some, Trail.form, ← hs', FilePath.normalForm_steps hnot]
    · rfl
    rw [hs', FileSystem.reach_append, FileSystem.reach_place linkLimit [] pl (by simpa using solid)]
    exact hre
  | @nothing links rest hne missing =>
    have ht : os.trail (normalForm false rest) =
        some ⟨false, ⟨[], linkLimit, (normalForm false rest).steps⟩⟩ := by
      cases hst : os.start (normalForm false rest) with
      | none => exact os.trail_of_start hst
      | some cwd =>
        have hw : os.cwd = some cwd := by
          rw [← hst, start, FilePath.normalForm_absolute, if_neg (by simp)]
        obtain ⟨nm, r', rfl⟩ := exists_cons_of_ne_nil hne
        obtain ⟨why, hm⟩ := missing nm r' cwd rfl hw
        have hn : nm ≠ dot := by
          rintro rfl
          rw [FileSystem.walk_dot (os.cwd_directory cwd hw)] at hm
          cases hm
        -- the first name is no dot, and so the first step of the normal form too
        have hc : (nm :: r').filter (· ≠ dot) = nm :: r'.filter (· ≠ dot) :=
          filter_cons_of_pos (by simpa using hn)
        have hs : ∃ others, (normalForm false (nm :: r')).steps = nm :: others := by
          rw [FilePath.normalForm_of_no_dotdot hr (by rw [hc]; simp), hc]
          exact ⟨_, rfl⟩
        obtain ⟨others, hs⟩ := hs
        refine os.trail_of_nothing hst (by simp) ?_
        rw [hs]
        exact FileSystem.reach_of_missing hm
    change os.weaklyCanonical (normalForm false rest) = some (normalForm false rest)
    rw [os.weaklyCanonical_eq (FilePath.normalForm_isEmpty _ _), ht, Option.map_some,
      Trail.form, nil_append, FilePath.normalForm_steps hr]

/-! ### What exists -/

theorem status_eq_found_iff (hp : p.isEmpty = false) :
    os.status p = .found pl ls ↔ os.trail p = some ⟨true, ⟨pl, ls, []⟩⟩ := by
  cases hs : os.start p with
  | none => simp [os.status_eq_missing hs, os.trail_of_start hs]
  | some f =>
    rw [os.status_eq_walk hp hs, FileSystem.walk_eq_found_iff]
    constructor
    · exact fun h => (os.weaklyCanonical_of_found hs hp h).2
    · intro h
      rw [trail, hs] at h
      cases hr : os.fs.reach linkLimit f p.steps with
      | none => simp [hr] at h
      | some r =>
        simp only [hr, Option.map_some, Option.some.injEq] at h
        split at h
        · cases h
        · cases h
          rfl

theorem pathExists_iff : os.pathExists p ↔ ∃ pl links, os.status p = .found pl links := by
  unfold pathExists
  cases os.status p <;> simp

theorem form_of_found (hp : p.isEmpty = false) (h : os.status p = .found place ls) :
    (Trail.form ⟨true, ⟨place, ls, []⟩⟩) = placePath place := by
  have he := os.ends_of_trail hp ((os.status_eq_found_iff hp).1 h)
  cases he with
  | anchored s _ _ =>
    rw [Trail.form, append_nil]
    exact os.normalForm_place s

attribute [local simp] FilePath.div_def

theorem status_placePath_join (hd : (os.fs.entry pl).isDirectory)
    {q : FilePath} (hq : q.absolute = false) :
    os.status (placePath pl / q) = os.fs.walk linkLimit pl (behind q) := by
  have ho := Entry.isSolid_of_isDirectory hd
  have ha : (placePath pl / q).absolute := FilePath.absolute_join hq
  have he : (placePath pl / q).isEmpty = false := FilePath.isEmpty_join rfl q
  have ht : os.start (placePath pl / q) = some [] := by rw [start, ha, if_pos rfl]
  rw [os.status_eq_walk he ht]
  by_cases hp : pl = []
  · subst hp
    by_cases hn : q.names = []
    · have hs : (placePath [] / q).steps = [] := by simp [hq, hn, FilePath.steps]
      rw [hs, FileSystem.walk_nil, behind, if_pos hn, FileSystem.walk_dot hd]
    · have hs : (placePath [] / q).steps = q.steps := by simp [hq, hn, FilePath.steps]
      rw [hs, behind, if_neg hn]
  · rw [FilePath.steps_join hq hp]
    change os.fs.walk linkLimit [] (pl ++ behind q) = _
    rw [walk_append, walk_place (by simpa using ho)]
    rfl

end Host
end TradutorLinux
