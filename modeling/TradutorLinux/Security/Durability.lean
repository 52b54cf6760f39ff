import TradutorLinux.Security.Store
import TradutorLinux.Util.Runs

/-!
# What a new process reads of the store

The writer puts every DACL into the file, however many there are; the reader takes
256 records and eight mebibytes at most.  And a DACL is in memory before it is
saved, so it stays there when the save fails.

## Main definitions

* `Fits`

## Main results

* `loads_iff_fits`, `Sound.step`, `security_store_durable`
-/

namespace TradutorLinux
namespace Security

variable {sid bytes rest : ByteString} {records re rs records' : List DaclRecord} {r : DaclRecord}

/-! ### Sizes -/

/-- The number of bytes of the file. -/
def storeSize (sid : ByteString) (records : List DaclRecord) : ℕ :=
  20 + sid.length + (records.map fun r => 8 + r.1.length + r.2.length).sum

theorem length_recordBytes (r : DaclRecord) :
    (recordBytes r).length = 8 + r.1.length + r.2.length := by
  simp [recordBytes]
  omega

theorem length_storeBytes (sid : ByteString) (records : List DaclRecord) :
    (storeBytes sid records).length = storeSize sid records := by
  have hrec : (records.flatMap recordBytes).length =
      (records.map fun r => 8 + r.1.length + r.2.length).sum := by
    simp [List.length_flatMap, length_recordBytes]
  have hm : kStoreMagic.length = 8 := by decide +kernel
  simp [storeBytes, storeSize, hrec, hm]
  omega

/-- The reader takes a file of these records. -/
def Fits (sid : ByteString) (records : List DaclRecord) : Prop :=
  records.length ≤ kMaxAclEntries ∧ storeSize sid records ≤ kMaxSecurityFileSize

theorem fits_perm (h : rs.Perm records') : Fits sid rs ↔ Fits sid records' := by
  unfold Fits storeSize
  rw [h.length_eq, (h.map _).sum_nat]

theorem length_le_sum (rs : List DaclRecord) :
    rs.length ≤ (rs.map fun r => 8 + r.1.length + r.2.length).sum := by
  induction rs with
  | nil => exact le_refl 0
  | cons r rs ih =>
    rw [List.length_cons, List.map_cons, List.sum_cons]
    omega

theorem length_lt_of_size (h : storeSize sid rs ≤ kMaxSecurityFileSize) : rs.length < 2 ^ 32 := by
  have hl := length_le_sum rs
  simp only [storeSize, kMaxSecurityFileSize] at h
  omega

/-! ### The reader takes what was written -/

def GoodSid (sid : ByteString) : Prop := sidLength sid = some sid.length

theorem GoodSid.length (h : GoodSid sid) : sidHeaderSize ≤ sid.length ∧ sid.length ≤ 68 := by
  unfold GoodSid sidLength at h
  split at h
  · cases h
  split at h
  · cases h
  next hc =>
  have he : (sid.getD 1 0).toNat ≤ 15 := by
    have hnot := not_or.1 hc
    exact UInt8.le_iff_toNat_le.1 (by simpa using hnot.2)
  have hl := Option.some.inj h
  simp only [sidHeaderSize] at hl ⊢
  omega

theorem GoodSid.ne_nil (h : GoodSid sid) : sid ≠ [] := by
  intro hn
  have hl := h.length.1
  rw [hn] at hl
  exact absurd hl (by decide)

theorem goodSid_new (a b c : UInt32) :
    GoodSid (makeSid [0, 0, 0, 0, 0, 5] [21, a, b, c, 1000]) := by
  simp [GoodSid, sidLength, makeSid, kSidRevision, sidHeaderSize]

/-- Every path is there once, and the DACLs have a length that is read. -/
structure WellFormed (records : List DaclRecord) : Prop where
  nodup : (records.map Prod.fst).Nodup
  sizes : ∀ r ∈ records, aclHeaderSize ≤ r.2.length ∧ r.2.length < 2 ^ 32

theorem wellFormed_nil : WellFormed [] := ⟨List.nodup_nil, by simp⟩

theorem fits_nil (h : GoodSid sid) : Fits sid [] := by
  have hl := h.length.2
  simp only [Fits, storeSize, kMaxSecurityFileSize, List.length_nil, List.map_nil, List.sum_nil]
  exact ⟨Nat.zero_le _, by omega⟩

def ShortPaths (records : List DaclRecord) : Prop := ∀ r ∈ records, r.1.length < 2 ^ 32

theorem WellFormed.perm (h : WellFormed rs) (hp : records'.Perm rs) : WellFormed records' := by
  constructor
  · exact (hp.map Prod.fst).nodup_iff.2 h.nodup
  · intro r hr
    exact h.sizes r (hp.mem_iff.1 hr)

theorem takeRecord_append (hp : r.1.length < 2 ^ 32) (hl : aclHeaderSize ≤ r.2.length)
    (hd : r.2.length < 2 ^ 32) : takeRecord (recordBytes r ++ rest) = some (r, rest) := by
  have hp' : r.1.length < 256 ^ 4 := hp
  have hd' : r.2.length < 256 ^ 4 := hd
  simp [takeRecord, recordBytes, List.append_assoc, takeLE_append hp', takeLE_append hd',
    takeBytes_append, not_lt.2 hl]

/-- **The records are read one after the other.** -/
theorem loadRecords_append (hw : WellFormed records) (hs : ShortPaths records)
    {f : List DaclRecord} (hf : ((f ++ records).map Prod.fst).Nodup) :
    loadRecords records.length (records.flatMap recordBytes ++ rest) f =
      (f ++ records, some rest) := by
  induction records generalizing f with
  | nil => simp [loadRecords]
  | cons r records ih =>
    have hh := hw.sizes r List.mem_cons_self
    have he : r.1 ∉ f.map Prod.fst := by
      rw [List.map_append, List.nodup_append] at hf
      intro hm
      exact hf.2.2 r.1 hm r.1 (by simp) rfl
    have hn : lookupKey Prod.fst f r.1 = none := by
      rw [lookupKey_eq_none]
      intro a ha heq
      exact he (List.mem_map.2 ⟨a, ha, heq⟩)
    have hp : emplace f r = f ++ [r] := by simp [emplace, hn]
    have hr : WellFormed records :=
      ⟨(List.nodup_cons.1 hw.nodup).2, fun a ha => hw.sizes a (List.mem_cons_of_mem r ha)⟩
    rw [List.flatMap_cons, List.append_assoc, List.length_cons, loadRecords,
      takeRecord_append (hs r List.mem_cons_self) hh.1 hh.2]
    dsimp only
    have hs' : ShortPaths records := fun a ha => hs a (List.mem_cons_of_mem r ha)
    rw [hp, ih hr hs' (by simpa using hf)]
    simp

end Security

open Security List Prod
open TradutorLinux.Runtime (kErrorSuccess kErrorAccessDenied)

namespace SecurityStore

variable {s : SecurityStore} {sid bytes : ByteString} {records re rs : List DaclRecord}
  {e : Surroundings}

/-- The file with a SID and as many records as a word holds: the reader counts them, and then
takes them. -/
theorem loadBytes_storeBytes (hi : GoodSid sid) (hc : rs.length < 2 ^ 32)
    (hw : WellFormed rs) (hs : ShortPaths rs) :
    s.loadBytes (storeBytes sid rs) =
      if kMaxAclEntries < rs.length then (false, { s with userSid := sid })
      else (true, { s with
        userSid := sid, daclByPath := rs, loaded := true, unsaved := false }) := by
  obtain ⟨hl, hm⟩ := hi.length
  have hsi : sid.length < 256 ^ 4 := by omega
  have hc' : rs.length < 256 ^ 4 := hc
  have hv : kStoreVersion < 256 ^ 4 := by decide
  have hs' : ¬sidLength sid ≠ some sid.length := not_not.2 hi
  have hrec : loadRecords rs.length (rs.flatMap recordBytes ++ []) [] = ([] ++ rs, some []) :=
    loadRecords_append hw hs (by simpa using hw.nodup)
  rw [List.append_nil, List.nil_append] at hrec
  unfold loadBytes storeBytes
  simp [takeBytes_append, takeLE_append hv, takeLE_append hsi, takeLE_append hc',
    not_lt.2 hl, hs', hrec]

/-! ### A new process -/

/-- A new process that can read the file has the SID and the DACLs that are in memory. -/
def Durable (s : SecurityStore) : Prop :=
  s.file ≠ none ∧ ∀ e : Surroundings, e.probe = .fine →
    (s.restart.load e).1 = true ∧ (s.restart.load e).2.userSid = s.userSid ∧
      ∀ path, (s.restart.load e).2.dacl path = s.dacl path

/-- A new process that can read and write the file can use the store. -/
def Loadable (s : SecurityStore) : Prop :=
  ∀ e : Surroundings, e.probe = .fine → e.loadWrites = true → (s.restart.load e).1 = true

/-- The file holds the SID and the records, in some order. -/
def Holds (s : SecurityStore) (sid : ByteString) (records : List DaclRecord) : Prop :=
  ∃ listed, listed.Perm records ∧ ShortPaths listed ∧ s.file = some (storeBytes sid listed)

theorem load_restart (hf : s.file = some bytes) (he : e.probe = .fine) :
    s.restart.load e = if kMaxSecurityFileSize < bytes.length then (false, s.restart)
      else s.restart.loadBytes bytes := by
  unfold load restart
  simp [hf, he]

/-- **A new process takes the file exactly if it fits.** -/
theorem loads_iff_fits (hi : GoodSid sid) (hw : WellFormed records)
    (hf : s.Holds sid records) (he : e.probe = .fine) :
    (s.restart.load e).1 ↔ Fits sid records := by
  obtain ⟨l, hp, hh, hf⟩ := hf
  rw [load_restart hf he, length_storeBytes, ← fits_perm hp]
  unfold Fits
  by_cases hs : kMaxSecurityFileSize < storeSize sid l
  · simp [hs, not_le.2 hs]
  have hl := not_lt.1 hs
  rw [if_neg hs, loadBytes_storeBytes hi (length_lt_of_size hl) (hw.perm hp) hh]
  by_cases hc : kMaxAclEntries < l.length
  · simp [hc, not_le.2 hc]
  · simp [hc, hl, not_lt.1 hc]

/-- **A file that fits gives the SID and the DACLs back.** -/
theorem load_fits (hi : GoodSid sid) (hw : WellFormed rs) (hf : s.Holds sid rs)
    (hfi : Fits sid rs) (he : e.probe = .fine) :
    (s.restart.load e).2.userSid = sid ∧
      ∀ p, (s.restart.load e).2.dacl p = (lookupKey Prod.fst rs p).map Prod.snd := by
  obtain ⟨l, hp, hh, hf⟩ := hf
  obtain ⟨hc, hs⟩ := (fits_perm hp).2 hfi
  have hw' := hw.perm hp
  rw [load_restart hf he, length_storeBytes, if_neg (not_lt.2 hs),
    loadBytes_storeBytes hi (length_lt_of_size hs) hw' hh,
    if_neg (not_lt.2 hc)]
  refine ⟨rfl, ?_⟩
  intro p
  simp [dacl, lookupKey_perm hp hw'.nodup]

/-- **What is saved comes back exactly if it fits.** -/
theorem durable_iff_fits (hl : s.loaded) (hi : GoodSid s.userSid)
    (hw : WellFormed s.daclByPath) (hf : s.Holds s.userSid s.daclByPath) :
    Durable s ↔ Fits s.userSid s.daclByPath := by
  constructor
  · intro h
    exact (loads_iff_fits hi hw hf rfl).1 (h.2 {} rfl).1
  · intro hfi
    constructor
    · obtain ⟨l, -, -, hs⟩ := hf
      rw [hs]
      exact Option.some_ne_none _
    · intro e he
      obtain ⟨hu, hd⟩ := load_fits hi hw hf hfi he
      refine ⟨(loads_iff_fits hi hw hf he).2 hfi, hu, ?_⟩
      intro p
      rw [hd, dacl, if_pos hl]

/-! ### Saving -/

/-- The records can be saved: their lengths are words, and the file is written. -/
def canSave (order : Iteration) (writes : Bool) (records : List DaclRecord) : Bool :=
  writes && !tooLong (order.list records)

/-- The memory with other DACLs. -/
def withDacls (s : SecurityStore) (records : List DaclRecord) : SecurityStore :=
  { s with daclByPath := records }

/-- **A save writes the file, or leaves it and is remembered.** -/
theorem save_cases (ho : s.loaded) (hs : s.userSid ≠ []) (o : Iteration)
    (ws : Bool) (rs : List DaclRecord) :
    (canSave o ws rs ∧ ∃ s', (s.withDacls rs).save o ws = (true, s') ∧
      s'.Holds s.userSid rs ∧ s'.userSid = s.userSid ∧ s'.daclByPath = rs ∧
      s'.loaded ∧ s'.unsaved = false) ∨
    (canSave o ws rs = false ∧ (s.withDacls rs).save o ws =
      (false, { s.withDacls rs with unsaved := true })) := by
  unfold save withDacls canSave
  simp only [ho, hs, Bool.true_eq_false, or_self, if_false]
  cases hl : tooLong (o.list rs) with
  | true => exact .inr (by simp)
  | false =>
    cases ws with
    | false => exact .inr (by simp)
    | true =>
      refine .inl ⟨by simp, ⟨s.userSid, rs, true, false,
        some (storeBytes s.userSid (o.list rs))⟩, by simp,
        ⟨o.list rs, o.perm rs, ?_, rfl⟩, rfl, rfl, rfl, rfl⟩
      intro r hr
      have hr' := any_eq_false.1 hl r hr
      simp at hr'
      exact hr'.1

/-! ### Memory and file -/

/-- What every call keeps as long as it is orderly. -/
structure Sound (s : SecurityStore) : Prop where
  memory : s.loaded = true → GoodSid s.userSid ∧ WellFormed s.daclByPath
  file : s.file = none ∨ ∃ sid records,
    GoodSid sid ∧ WellFormed records ∧ s.Holds sid records ∧ Fits sid records
  synced : s.loaded = true → s.unsaved = false →
    s.Holds s.userSid s.daclByPath ∧ Fits s.userSid s.daclByPath

theorem load_new (hl : s.loaded = false)
    (hf : (if e.probe = .existsFails then none else s.file) = none) :
    s.load e = (({ s with
      userSid := makeSid [0, 0, 0, 0, 0, 5] [21, e.seed.1, e.seed.2.1, e.seed.2.2, 1000]
      loaded := true } : SecurityStore).withDacls []).save e.order e.loadWrites := by
  unfold load
  rw [if_neg (by simp [hl])]
  simp only [hf]
  rfl

theorem canSave_nil (o : Iteration) : canSave o true [] := by
  have hn : o.list [] = [] := perm_nil.1 (o.perm [])
  simp [canSave, hn, tooLong]

/-- **What a load does.** -/
theorem Sound.load_cases (h : Sound s) (e : Surroundings) :
    (s.loaded ∧ s.load e = (true, s)) ∨
    (s.loaded = false ∧ ∃ b s', s.load e = (b, s') ∧ Sound s' ∧
      (b → s'.loaded ∧ s'.unsaved = false) ∧
      (b = false → ∀ p, s'.dacl p = none)) := by
  cases ho : s.loaded with
  | true => exact .inl ⟨rfl, if_pos ho⟩
  | false =>
    refine .inr ⟨rfl, ?_⟩
    cases hf : if e.probe = .existsFails then none else s.file with
    | none =>
      -- a new SID, which is saved at once
      have hg := goodSid_new e.seed.1 e.seed.2.1 e.seed.2.2
      rw [load_new ho hf]
      rcases save_cases (s := { s with
        userSid := makeSid [0, 0, 0, 0, 0, 5] [21, e.seed.1, e.seed.2.1, e.seed.2.2, 1000]
        loaded := true }) rfl hg.ne_nil e.order e.loadWrites [] with
        ⟨-, s', heq, hh, hu, hd, hl', hun⟩ | ⟨-, heq⟩
      · have hi := fits_nil hg
        refine ⟨true, s', heq, ⟨?_, .inr ⟨_, [], hg, wellFormed_nil, hh, hi⟩, ?_⟩,
          fun _ => ⟨hl', hun⟩, nofun⟩
        · intro _
          rw [hu, hd]
          exact ⟨hg, wellFormed_nil⟩
        · intro _ _
          rw [hu, hd]
          exact ⟨hh, hi⟩
      · refine ⟨false, _, heq, ⟨fun _ => ⟨hg, wellFormed_nil⟩, h.file, nofun⟩, nofun, ?_⟩
        intro _ p
        rfl
    | some bytes =>
      -- the file is there, and it is read or it is not
      have hf' : s.file = some bytes := by
        split at hf
        · cases hf
        · exact hf
      unfold load
      rw [if_neg (by simp [ho])]
      simp only [hf]
      split
      · refine ⟨false, _, rfl, ⟨?_, h.file, ?_⟩, nofun, ?_⟩
        · intro hl
          cases ho.symm.trans hl
        · intro hl
          cases ho.symm.trans hl
        · intro _ p
          simp [dacl, ho]
      · obtain hn | ⟨sid, rs, hg, hw, ⟨l, hp, hs, hb⟩, hi⟩ := h.file
        · cases hf'.symm.trans hn
        · cases hf'.symm.trans hb
          obtain ⟨hc, hsi⟩ := (fits_perm hp).2 hi
          have hw' := hw.perm hp
          rw [loadBytes_storeBytes hg (length_lt_of_size hsi) hw' hs, if_neg (not_lt.2 hc)]
          refine ⟨true, _, rfl, ⟨fun _ => ⟨hg, hw'⟩, .inr ⟨sid, l, hg, hw', ?_, ?_⟩,
            fun _ _ => ?_⟩, fun _ => ⟨rfl, rfl⟩, nofun⟩
          · exact ⟨l, .refl _, hs, hf'⟩
          · exact ⟨hc, hsi⟩
          · exact ⟨⟨l, .refl _, hs, hf'⟩, hc, hsi⟩

theorem Sound.loadable (h : Sound s) : Loadable s := by
  intro e he hw
  obtain hn | ⟨sid, rs, hg, hwf, hh, hi⟩ := h.file
  · have hl : (if e.probe = .existsFails then none else s.restart.file) = none := by
      split
      · rfl
      · exact hn
    have hg := goodSid_new e.seed.1 e.seed.2.1 e.seed.2.2
    rw [load_new rfl hl, hw]
    rcases save_cases (s := { s.restart with
      userSid := makeSid [0, 0, 0, 0, 0, 5] [21, e.seed.1, e.seed.2.1, e.seed.2.2, 1000]
      loaded := true }) rfl hg.ne_nil e.order true [] with ⟨-, s', heq, -⟩ | ⟨hf, -⟩
    · rw [heq]
    · cases (canSave_nil e.order).symm.trans hf
  · exact (loads_iff_fits hg hwf hh he).2 hi

theorem Sound.durable (h : Sound s) (hl : s.loaded) (hs : s.unsaved = false) : Durable s := by
  obtain ⟨hg, hw⟩ := h.memory hl
  obtain ⟨hh, hf⟩ := h.synced hl hs
  exact (durable_iff_fits hl hg hw hh).2 hf

/-- **A change that is saved fits, or is not saved, keeps the store sound.** -/
theorem Sound.save (h : Sound s) (hl : s.loaded) {rs : List DaclRecord}
    (hw : WellFormed rs) {o : Iteration} {ws : Bool} (hf : canSave o ws rs → Fits s.userSid rs) :
    ((s.withDacls rs).save o ws).1 = canSave o ws rs ∧ Sound ((s.withDacls rs).save o ws).2 ∧
      (canSave o ws rs → Durable ((s.withDacls rs).save o ws).2) ∧
      ∀ p, ((s.withDacls rs).save o ws).2.dacl p = (lookupKey Prod.fst rs p).map Prod.snd := by
  have hg := (h.memory hl).1
  rcases save_cases hl hg.ne_nil o ws rs with
    ⟨hc, s', heq, hh, hu, hd, hl', hun⟩ | ⟨hn, heq⟩
  · have hs : Sound s' := by
      refine ⟨fun _ => ?_, .inr ⟨s.userSid, rs, hg, hw, hh, hf hc⟩, fun _ _ => ?_⟩
      · rw [hu, hd]
        exact ⟨hg, hw⟩
      · rw [hu, hd]
        exact ⟨hh, hf hc⟩
    rw [heq]
    refine ⟨hc.symm, hs, fun _ => hs.durable hl' hun, ?_⟩
    intro p
    rw [dacl, if_pos hl', hd]
  · rw [heq]
    refine ⟨hn.symm, ⟨fun _ => ⟨hg, hw⟩, h.file, nofun⟩, ?_, ?_⟩
    · intro hc
      cases hc.symm.trans hn
    · intro p
      exact if_pos hl

/-! ### Changes -/

/-- The DACL that a call sets, and for which key, when nothing but the store is in its way. -/
def Call.setsDacl : Call → Option (ByteString × ByteString)
  | .setNamedSecurityInfo true true true (some acl) (.ok key) => some (key, acl)
  | .setFileSecurity false true (some ⟨revision, true, some acl⟩) (.ok key) =>
    if revision = kSidRevision then some (key, acl) else none
  | _ => none

/-- The call succeeds without a DACL. -/
def Call.setsNothing : Call → Bool
  | .setNamedSecurityInfo true true false _ (.ok _) => true
  | _ => false

/-- The records that a call makes of those in memory, if it makes others. -/
def changed (s : SecurityStore) (e : Surroundings) : Call → Option (List DaclRecord)
  | .removePath (some key) =>
    if s.daclByPath.any fun r => covers key r.1 then
      some (s.daclByPath.filter fun r => !covers key r.1)
    else none
  | .renamePath (some (oldKey, newKey)) =>
    let moved := ((e.order.list s.daclByPath).filter fun r => covers oldKey r.1).map
      (renamed oldKey newKey)
    if moved = [] then none
    else some (moved.foldl (upsert fst) (s.daclByPath.filter fun r => !covers oldKey r.1))
  | c => c.setsDacl.bind fun (key, acl) =>
    match acceptedDacl acl with
    | .error _ => none
    | .ok dacl => some (upsert fst s.daclByPath (key, dacl))

theorem wellFormed_upsert (h : WellFormed rs) {r : DaclRecord}
    (hl : aclHeaderSize ≤ r.2.length) (hm : r.2.length < 2 ^ 32) :
    WellFormed (upsert Prod.fst rs r) := by
  refine ⟨nodup_upsert h.nodup, ?_⟩
  intro a ha
  rcases mem_upsert ha with hold | rfl
  · exact h.sizes a hold
  · exact ⟨hl, hm⟩

theorem wellFormed_filter (h : WellFormed rs) (p : DaclRecord → Bool) : WellFormed (rs.filter p) :=
  ⟨h.nodup.sublist (List.filter_sublist.map Prod.fst),
    fun r hr => h.sizes r (List.mem_of_mem_filter hr)⟩

theorem wellFormed_foldl (h : WellFormed rs) {m : List DaclRecord}
    (hm : ∀ r ∈ m, aclHeaderSize ≤ r.2.length ∧ r.2.length < 2 ^ 32) :
    WellFormed (m.foldl (upsert Prod.fst) rs) := by
  induction m generalizing rs with
  | nil => exact h
  | cons r m ih =>
    obtain ⟨hl, ho⟩ := hm r List.mem_cons_self
    exact ih (wellFormed_upsert h hl ho) fun a ha => hm a (List.mem_cons_of_mem r ha)

/-- **What a call makes of well formed records is well formed.** -/
theorem wellFormed_changed (h : WellFormed s.daclByPath) {c : Call}
    (hh : s.changed e c = some records) : WellFormed records := by
  have hs (hc : (c.setsDacl.bind fun (k, ac) =>
      match acceptedDacl ac with
      | .error _ => none
      | .ok d => some (upsert Prod.fst s.daclByPath (k, d))) = some records) :
      WellFormed records := by
    obtain ⟨⟨k, ac⟩, -, hc⟩ := Option.bind_eq_some_iff.1 hc
    dsimp only at hc
    split at hc
    · cases hc
    next d hd =>
    cases hc
    obtain ⟨hl, hm⟩ := acceptedDacl_length hd
    refine wellFormed_upsert h hl ?_
    show d.length < 2 ^ 32
    omega
  cases c with
  | setNamedSecurityInfo => exact hs hh
  | setFileSecurity => exact hs hh
  | restart => exact hs hh
  | removePath k =>
    cases k with
    | none => exact hs hh
    | some k =>
      simp only [changed] at hh
      split at hh
      · cases hh
        exact wellFormed_filter h _
      · cases hh
  | renamePath ks =>
    cases ks with
    | none => exact hs hh
    | some ks =>
      simp only [changed] at hh
      split at hh
      · cases hh
      cases hh
      refine wellFormed_foldl (wellFormed_filter h _) ?_
      intro r hr
      obtain ⟨a, ha, rfl⟩ := List.mem_map.1 hr
      exact h.sizes a ((e.order.perm s.daclByPath).mem_iff.1 (List.mem_of_mem_filter ha))

/-! ### Steps -/

/-- A call that is made around other things. -/
abbrev Made := Call × Surroundings

def step (s : SecurityStore) (c : Made) : Option SecurityStore := some (s.call c.2 c.1).2

/-- What is saved fits, a DACL that is set is saved unless the file has it already, and nothing
is unsaved when a call without a DACL succeeds. -/
structure Orderly (s : SecurityStore) (c : Made) : Prop where
  fits : (s.load c.2).1 = true → ∀ records, (s.load c.2).2.changed c.2 c.1 = some records →
    canSave c.2.order c.2.writes records = true → Fits (s.load c.2).2.userSid records
  saves : (s.load c.2).1 = true → ∀ key acl dacl, c.1.setsDacl = some (key, acl) →
    acceptedDacl acl = .ok dacl →
      canSave c.2.order c.2.writes
        (upsert fst (s.load c.2).2.daclByPath (key, dacl)) = true ∨
      (s.load c.2).2.dacl key = some dacl
  saved : (s.load c.2).1 = true → c.1.setsNothing = true → (s.load c.2).2.unsaved = false

instance (sid : ByteString) (records : List DaclRecord) : Decidable (Fits sid records) :=
  inferInstanceAs (Decidable (_ ∧ _))

instance (s : SecurityStore) (c : Made) : Decidable (Orderly s c) :=
  decidable_of_iff (((s.load c.2).1 = true → ∀ records ∈ (s.load c.2).2.changed c.2 c.1,
      canSave c.2.order c.2.writes records = true → Fits (s.load c.2).2.userSid records) ∧
    ((s.load c.2).1 = true → ∀ x ∈ c.1.setsDacl, ∀ dacl ∈ (acceptedDacl x.2).toOption,
      canSave c.2.order c.2.writes
          (upsert fst (s.load c.2).2.daclByPath (x.1, dacl)) = true ∨
        (s.load c.2).2.dacl x.1 = some dacl) ∧
    ((s.load c.2).1 = true → c.1.setsNothing = true → (s.load c.2).2.unsaved = false))
    ⟨fun ⟨hf, hs, hn⟩ =>
      ⟨hf, fun hl key acl dacl hk ha => hs hl (key, acl) hk dacl (by rw [ha]; rfl), hn⟩,
    fun ho => ⟨ho.fits, fun hl x hx dacl hd => ho.saves hl x.1 x.2 dacl hx (by
        cases ha : acceptedDacl x.2 with
        | error e => rw [ha] at hd; cases hd
        | ok d => rw [ha] at hd; cases hd; rfl), ho.saved⟩⟩

/-- What a call promises: after a success a new process has what is in memory, after a failure
the memory is what it was, or what the load has read, and the store can be used by a new
process. -/
structure Promised (s : SecurityStore) (c : Made) (s' : SecurityStore) : Prop where
  durable : (s.call c.2 c.1).1 = some kErrorSuccess → Durable s'
  kept : ∀ code, (s.call c.2 c.1).1 = some code → code ≠ kErrorSuccess →
    (∀ path, s'.dacl path = s.dacl path) ∨
      s.loaded = false ∧ ∀ path, s'.dacl path = (s.load c.2).2.dacl path
  loadable : Loadable s'

/-- **A DACL that is set is durable, and one that is not leaves the memory.** -/
theorem setDaclForKey_spec (h : Sound s) (ho : s.loaded) {k a : ByteString}
    (hf : ∀ d, acceptedDacl a = .ok d →
      canSave e.order e.writes (upsert Prod.fst s.daclByPath (k, d)) →
        Fits s.userSid (upsert Prod.fst s.daclByPath (k, d))) (hs : ∀ d, acceptedDacl a = .ok d →
      canSave e.order e.writes (upsert Prod.fst s.daclByPath (k, d)) ∨
        s.dacl k = some d) :
    Sound (s.setDaclForKey k a e).2 ∧
      ((s.setDaclForKey k a e).1 = kErrorSuccess → Durable (s.setDaclForKey k a e).2) ∧
      ((s.setDaclForKey k a e).1 ≠ kErrorSuccess →
        ∀ path, (s.setDaclForKey k a e).2.dacl path = s.dacl path) := by
  unfold setDaclForKey
  cases ha : acceptedDacl a with
  | error c =>
    refine ⟨h, ?_, fun _ _ => rfl⟩
    intro hc
    exact absurd hc (acceptedDacl_error ha)
  | ok d =>
    obtain ⟨hl, hm⟩ := acceptedDacl_length ha
    have hw : WellFormed (upsert Prod.fst s.daclByPath (k, d)) := by
      refine wellFormed_upsert (h.memory ho).2 hl ?_
      show d.length < 2 ^ 32
      omega
    obtain ⟨hr, hso, hu, hd⟩ := h.save ho hw (hf d ha)
    refine ⟨hso, ?_, ?_⟩
    · intro hc
      refine hu (hr ▸ ?_)
      by_contra he
      have hde := hc.symm.trans (if_neg he)
      exact absurd hde (by decide)
    · intro hc path
      -- the save has failed, so the DACL was there
      have hn : canSave e.order e.writes (upsert Prod.fst s.daclByPath (k, d)) ≠ true := by
        intro hca
        exact hc (if_pos (hr.trans hca))
      have hsa := (hs d ha).resolve_left hn
      refine (hd path).trans ?_
      rw [lookupKey_upsert]
      split
      · next heq =>
        have hp : k = path := heq
        rw [← hp, hsa]
        rfl
      · exact (if_pos ho).symm

variable {c : Made}

theorem promised_of_load (h : Sound s) {s' : SecurityStore} (hs' : s' = s ∨ s' = (s.load c.2).2)
    (hc : (s.call c.2 c.1).1 ≠ some kErrorSuccess) : Sound s' ∧ Promised s c s' := by
  have hs : Sound s' := by
    rcases hs' with rfl | rfl
    · exact h
    · rcases h.load_cases c.2 with ⟨-, heq⟩ | ⟨-, b, t, heq, ht, -⟩
      · rwa [heq]
      · rwa [heq]
  refine ⟨hs, fun hu => absurd hu hc, ?_, hs.loadable⟩
  intro _ _ _
  rcases hs' with rfl | rfl
  · exact .inl fun _ => rfl
  · rcases h.load_cases c.2 with ⟨-, heq⟩ | ⟨hn, -⟩
    · exact .inl fun p => by rw [heq]
    · exact .inr ⟨hn, fun _ => rfl⟩

theorem Sound.loaded (h : Sound s) (e : Surroundings) (hl : (s.load e).1) :
    Sound (s.load e).2 ∧ (s.load e).2.loaded ∧
      ((∀ p, (s.load e).2.dacl p = s.dacl p) ∨ s.loaded = false) := by
  rcases h.load_cases e with ⟨ho, heq⟩ | ⟨hu, b, t, heq, ht, hr, -⟩
  · rw [heq]
    exact ⟨h, ho, .inl fun _ => rfl⟩
  · rw [heq] at hl ⊢
    exact ⟨ht, (hr hl).1, .inr hu⟩

theorem promised_of_set (h : Sound s) (hok : Orderly s c) {k a : ByteString}
    (he : c.1.setsDacl = some (k, a))
    (hh : ∀ t : SecurityStore, t.changed c.2 c.1 = match acceptedDacl a with
      | .error _ => none
      | .ok d => some (upsert Prod.fst t.daclByPath (k, d)))
    (hl : (s.load c.2).1)
    (hc : s.call c.2 c.1 = ((s.load c.2).2.setDaclForKey k a c.2).map some id) :
    Sound (s.call c.2 c.1).2 ∧ Promised s c (s.call c.2 c.1).2 := by
  obtain ⟨ht, hlo, hd⟩ := h.loaded c.2 hl
  have hf : ∀ d, acceptedDacl a = .ok d →
      canSave c.2.order c.2.writes (upsert Prod.fst (s.load c.2).2.daclByPath (k, d)) →
        Fits (s.load c.2).2.userSid (upsert Prod.fst (s.load c.2).2.daclByPath (k, d)) := by
    intro d hac
    refine hok.fits hl _ ?_
    rw [hh, hac]
  obtain ⟨hs, hr, hk⟩ := setDaclForKey_spec ht hlo hf fun d => hok.saves hl k a d he
  rw [hc]
  refine ⟨hs, ⟨?_, ?_, hs.loadable⟩⟩
  · rw [hc]
    intro ho
    exact hr (Option.some.inj ho)
  · rw [hc]
    intro co ho hn
    cases ho
    have ha := hk hn
    rcases hd with hd | hu
    · exact .inl fun p => (ha p).trans (hd p)
    · exact .inr ⟨hu, ha⟩

theorem promised_of_change (h : Sound s) (hk : Orderly s c) (hl : (s.load c.2).1)
    (hc : s.call c.2 c.1 = (none, match (s.load c.2).2.changed c.2 c.1 with
      | none => (s.load c.2).2
      | some records => (((s.load c.2).2.withDacls records).save c.2.order c.2.writes).2)) :
    Sound (s.call c.2 c.1).2 ∧ Promised s c (s.call c.2 c.1).2 := by
  obtain ⟨ht, ho, -⟩ := h.loaded c.2 hl
  have hs : Sound (s.call c.2 c.1).2 := by
    rw [hc]
    cases hh : (s.load c.2).2.changed c.2 c.1 with
    | none => exact ht
    | some records =>
      have hw := wellFormed_changed (ht.memory ho).2 hh
      exact (ht.save ho hw (hk.fits hl records hh)).2.1
  refine ⟨hs, ?_, ?_, hs.loadable⟩
  · rw [hc]
    exact nofun
  · rw [hc]
    exact nofun

theorem pathError_ne (f : PathFailure) : pathError f ≠ kErrorSuccess := by cases f <;> decide

/-- How a call that reports a code goes. -/
inductive Reports (s : SecurityStore) (c : Made) : Prop
  | refused (code : UInt32) (hcode : code ≠ kErrorSuccess) (h : s.call c.2 c.1 = (some code, s))
  | unloaded (h : s.call c.2 c.1 = (some kErrorAccessDenied, (s.load c.2).2))
  | nothing (hload : (s.load c.2).1 = true) (hc : c.1.setsNothing = true)
    (h : s.call c.2 c.1 = (some kErrorSuccess, (s.load c.2).2))
  | sets (key acl : ByteString) (hload : (s.load c.2).1 = true)
    (hc : c.1.setsDacl = some (key, acl))
    (h : s.call c.2 c.1 = ((s.load c.2).2.setDaclForKey key acl c.2).map some id)

attribute [local simp] call setNamedSecurityInfo

theorem reports_setNamed (s : SecurityStore) (e : Surroundings)
    (fo ns di : Bool) (d : Option ByteString) (k : Except PathFailure ByteString) :
    Reports s (.setNamedSecurityInfo fo ns di d k, e) := by
  have hs : kErrorNotSupported ≠ kErrorSuccess := by decide
  have hp : Runtime.kErrorInvalidParameter ≠ kErrorSuccess := by decide
  cases fo with
  | false => exact .refused _ hs rfl
  | true =>
    cases ns with
    | false => exact .refused _ hs rfl
    | true =>
      cases k with
      | error f =>
        cases di with
        | false => exact .refused _ (pathError_ne f) rfl
        | true =>
          cases d with
          | none => exact .refused _ hp rfl
          | some a => exact .refused _ (pathError_ne f) rfl
      | ok k =>
        cases di with
        | false =>
          cases hl : (s.load e).1 with
          | false => exact .unloaded (by simp [hl])
          | true => exact .nothing hl rfl (by simp [hl])
        | true =>
          cases d with
          | none => exact .refused _ hp rfl
          | some a =>
            cases hl : (s.load e).1 with
            | false => exact .unloaded (by simp [hl])
            | true => exact .sets k a hl rfl (by simp [hl])

attribute [local simp] setFileSecurity

theorem reports_setFile (s : SecurityStore) (e : Surroundings)
    (si di : Bool) (d : Option Descriptor) (k : Except PathFailure ByteString) :
    Reports s (.setFileSecurity si di d k, e) := by
  have hs : kErrorNotSupported ≠ kErrorSuccess := by decide
  have hp : Runtime.kErrorInvalidParameter ≠ kErrorSuccess := by decide
  cases si with
  | true => exact .refused _ hs rfl
  | false =>
    match d with
    | none => exact .refused _ hp rfl
    | some ⟨_, _, none⟩ => exact .refused _ hp rfl
    | some ⟨revision, daclPresent, some acl⟩ =>
      by_cases hb : di = false ∨ revision ≠ kSidRevision ∨ daclPresent = false
      · exact .refused _ hp (by simp [hb])
      obtain ⟨hi, he, hr⟩ : di ∧ revision = kSidRevision ∧ daclPresent := by
        simpa using hb
      subst hi he hr
      cases k with
      | error f => exact .refused _ (pathError_ne f) (by simp)
      | ok k =>
        cases hl : (s.load e).1 with
        | false => exact .unloaded (by simp [hl])
        | true =>
          refine .sets k acl hl ?_ (by simp [hl])
          simp [Call.setsDacl]

/-- **A call that reports a code keeps its promise.** -/
theorem promised_of_reports (h : Sound s) (ho : Orderly s c)
    (hh : ∀ t : SecurityStore, t.changed c.2 c.1 = c.1.setsDacl.bind fun (k, a) =>
      match acceptedDacl a with
      | .error _ => none
      | .ok dacl => some (upsert Prod.fst t.daclByPath (k, dacl)))
    (hr : Reports s c) : Sound (s.call c.2 c.1).2 ∧ Promised s c (s.call c.2 c.1).2 := by
  cases hr with
  | refused co hc heq =>
    refine promised_of_load h (.inl (by rw [heq])) ?_
    rw [heq]
    exact fun hu => hc (Option.some.inj hu)
  | unloaded heq =>
    refine promised_of_load h (.inr (by rw [heq])) ?_
    rw [heq]
    exact fun hu => absurd (Option.some.inj hu) (by decide)
  | nothing hl hnot heq =>
    obtain ⟨ht, ha, -⟩ := h.loaded c.2 hl
    rw [heq]
    refine ⟨ht, fun _ => ht.durable ha (ho.saved hl hnot), ?_, ht.loadable⟩
    rw [heq]
    exact fun co hc hn => absurd (Option.some.inj hc).symm hn
  | sets k a hl hs heq =>
    refine promised_of_set h ho hs ?_ hl heq
    intro t
    rw [hh, hs]
    rfl

/-- **An orderly call keeps the store sound, and its promise.** -/
theorem Sound.step (h : Sound s) (ho : Orderly s c) :
    Sound (s.call c.2 c.1).2 ∧ Promised s c (s.call c.2 c.1).2 := by
  obtain ⟨c, e⟩ := c
  cases c with
  | restart =>
    have hs : Sound s.restart := ⟨nofun, h.file, nofun⟩
    exact ⟨hs, nofun, nofun, hs.loadable⟩
  | removePath k =>
    cases hl : (s.load e).1 with
    | false =>
      have hc : s.call e (.removePath k) = (none, (s.load e).2) := by
        simp [call, removePath, hl]
      refine promised_of_load h (.inr ?_) ?_
      · rw [hc]
      · exact nofun
    | true =>
      refine promised_of_change h ho hl ?_
      cases k with
      | none => simp only [call, removePath, hl, changed, Call.setsDacl, Option.bind_none]
      | some k =>
        simp only [call, removePath, hl, changed]
        split <;> rfl
  | renamePath ks =>
    cases hl : (s.load e).1 with
    | false =>
      have hc : s.call e (.renamePath ks) = (none, (s.load e).2) := by
        simp [call, renamePath, hl]
      refine promised_of_load h (.inr ?_) ?_
      · rw [hc]
      · exact nofun
    | true =>
      refine promised_of_change h ho hl ?_
      cases ks with
      | none => simp only [call, renamePath, hl, changed, Call.setsDacl, Option.bind_none]
      | some ks =>
        simp only [call, renamePath, hl, changed]
        split <;> rfl
  | setNamedSecurityInfo fo ns di d k =>
    exact promised_of_reports h ho (fun _ => rfl) (reports_setNamed s e _ _ _ d k)
  | setFileSecurity si di de k =>
    exact promised_of_reports h ho (fun _ => rfl) (reports_setFile s e _ _ de k)

/-- **In a run of orderly calls every promise is kept.** -/
theorem security_store_durable (calls : List Made)
    (h : EachStep step (fun s c _ => Orderly s c) {} calls) : EachStep step Promised {} calls := by
  have hn : Sound {} := ⟨nofun, .inl rfl, nofun⟩
  refine EachStep.of_ok (I := Sound) ?_ ?_ hn h
  · intro s c s' hs ho ht
    cases ht
    exact (hs.step ho).2
  · intro s c s' hs ho ht
    cases ht
    exact (hs.step ho).1

/-- A file gets an empty DACL and another name, a new process protects a second one, and the first
is removed. -/
theorem security_store_durable_renamed : EachStep step Promised {}
    [(.setNamedSecurityInfo true true true (some [2, 0, 8, 0, 0, 0, 0, 0]) (.ok [0x61]), {}),
      (.renamePath (some ([0x61], [0x62])), {}), (.restart, {}),
      (.setNamedSecurityInfo true true true (some [2, 0, 8, 0, 0, 0, 0, 0]) (.ok [0x63]), {}),
      (.removePath (some [0x62]), {}), (.restart, {})] :=
  security_store_durable _ (by decide +kernel)

/-! ### Too many files -/

/-- The DACL without entries. -/
def emptyDacl : ByteString := [2, 0, 8, 0, 0, 0, 0, 0]

/-- The path of the file with a number. -/
def fileKey (i : ℕ) : ByteString := [.ofNat (97 + i / 26), .ofNat (97 + i % 26)]

/-- The file gets the DACL without entries. -/
def protectFile (i : ℕ) : Made :=
  (.setNamedSecurityInfo true true true (some emptyDacl) (.ok (fileKey i)), {})

def protectedFiles (n : ℕ) : List DaclRecord := (List.range n).map fun i => (fileKey i, emptyDacl)

def firstSid : ByteString := makeSid [0, 0, 0, 0, 0, 5] [21, 0, 0, 0, 1000]

/-- The store once the first files have a DACL. -/
def afterProtecting (n : ℕ) : SecurityStore :=
  ⟨firstSid, protectedFiles n, true, false, some (storeBytes firstSid (protectedFiles n))⟩

theorem fileKey_inj {i j : ℕ} (hi : i < 676) (hj : j < 676) (h : fileKey i = fileKey j) :
    i = j := by
  simp only [fileKey, List.cons.injEq, and_true] at h
  have hh := congrArg UInt8.toNat h.1
  have hl := congrArg UInt8.toNat h.2
  simp only [UInt8.toNat_ofNat'] at hh hl
  omega

variable {n : ℕ}

theorem fileKey_notMem (hn : n < 676) : fileKey n ∉ (protectedFiles n).map Prod.fst := by
  intro hm
  simp only [protectedFiles, List.map_map, List.mem_map, List.mem_range, Function.comp] at hm
  obtain ⟨i, hi, heq⟩ := hm
  have hs := fileKey_inj (by omega) hn heq
  omega

theorem protectedFiles_succ (n : ℕ) :
    protectedFiles (n + 1) = protectedFiles n ++ [(fileKey n, emptyDacl)] := by
  simp [protectedFiles, range_succ]

theorem acceptedDacl_emptyDacl : acceptedDacl emptyDacl = .ok emptyDacl := by decide +kernel

theorem tooLong_protectedFiles (n : ℕ) : tooLong (protectedFiles n) = false := by
  unfold tooLong protectedFiles
  rw [any_eq_false]
  intro r hr
  obtain ⟨i, -, rfl⟩ := mem_map.1 hr
  simp [fileKey, emptyDacl]

theorem step_afterProtecting (hn : n < 676) :
    step (afterProtecting n) (protectFile n) = some (afterProtecting (n + 1)) := by
  have hl := tooLong_protectedFiles (n + 1)
  have hs : firstSid ≠ [] := by decide +kernel
  have he : upsert fst (protectedFiles n) (fileKey n, emptyDacl) =
      protectedFiles (n + 1) := by
    rw [protectedFiles_succ]
    exact upsert_of_notMem (fileKey_notMem hn)
  simp [step, protectFile, load, afterProtecting, setDaclForKey, acceptedDacl_emptyDacl, he,
    save, hl, hs]

theorem step_protectFile_zero : step {} (protectFile 0) = some (afterProtecting 1) := by
  decide +kernel

/-- **As many files as there are names can be protected one after the other.** -/
theorem runAll_protectFile (hn : n < 676) :
    runAll step {} ((List.range (n + 1)).map protectFile) = some (afterProtecting (n + 1)) := by
  induction n with
  | zero => exact step_protectFile_zero
  | succ n ih =>
    rw [range_succ, map_append, map_singleton, runAll_concat (ih (by omega))]
    exact step_afterProtecting hn

/-- **The 257th file is protected in this process only; a DACL that is not saved is in force.** -/
theorem not_security_store_durable :
    ¬EachStep step Promised {} ((List.range 257).map protectFile) ∧
      ¬EachStep step Promised {} [((protectFile 0).1, { writes := false })] := by
  constructor
  · intro h
    rw [range_succ, map_append, map_singleton] at h
    have hr := runAll_protectFile (n := 255) (by omega)
    have hl := h.last hr (step_afterProtecting (by omega))
    have hd : Durable (afterProtecting 257) := hl.durable (by decide +kernel)
    have ht := (hd.2 {} rfl).1
    revert ht
    decide +kernel
  · intro h
    have hk := ((h _ rfl).1).kept kErrorAccessDenied (by decide +kernel) (by decide)
    rcases hk with hk | ⟨-, hk⟩
    · have hs := hk (fileKey 0)
      revert hs
      decide +kernel
    · have hs := hk (fileKey 0)
      revert hs
      decide +kernel

end SecurityStore
end TradutorLinux
