import TradutorLinux.Security.Store

/-!
# The DACLs of files that are renamed or removed

`rename_path` moves the records of the old path and of what is below it.  A record of
the new path that none of them replaces stays.

## Main definitions

* `defaultAcl`, `SecurityStore.daclForKey` — `default_acl`, `dacl_for_key_locked`.
* `SecurityStore.FollowsTree` — every DACL is where its file has gone.
* `SecurityStore.LosesTree` — a path and what is below it have no DACL any more.

## Main results

* `renamePath_keeps` — what a path has after a file is renamed.
* `dacls_followTree_iff`
-/

namespace TradutorLinux.SecurityStore

open List Security

variable {s s₁ : SecurityStore} {e : Surroundings} {F T path ph pa : ByteString}
  {rs : List DaclRecord}

/-! ### Paths -/

theorem covers_iff : covers F pa ↔ ∃ s, pa = F ++ s ∧ (s = [] ∨ [0x2F] <+: s) := by
  unfold covers
  rw [Bool.or_eq_true, beq_iff_eq, isPrefixOf_iff_prefix]
  constructor
  · rintro (rfl | ⟨s, rfl⟩)
    · exact ⟨[], by simp⟩
    · exact ⟨[0x2F] ++ s, by simp⟩
  · rintro ⟨s, rfl, rfl | ⟨t, rfl⟩⟩
    · simp
    · exact .inr ⟨t, by simp⟩

theorem renamed_eq_iff {r : DaclRecord} : covers F r.1 ∧ (renamed F T r).1 = pa ↔
    covers T pa ∧ r.1 = F ++ pa.drop T.length := by
  unfold renamed
  constructor
  · rintro ⟨hc, rfl⟩
    obtain ⟨s, hs, hb⟩ := covers_iff.1 hc
    exact ⟨covers_iff.2 ⟨s, by simp [hs], hb⟩, by simp [hs]⟩
  · rintro ⟨hc, hr⟩
    obtain ⟨s, rfl, hb⟩ := covers_iff.1 hc
    rw [drop_left] at hr
    exact ⟨covers_iff.2 ⟨s, hr, hb⟩, by simp [hr]⟩

def movedRecords (F T : ByteString) (records : List DaclRecord) : List DaclRecord :=
  (records.filter fun r => covers F r.1).map (renamed F T)

/-- **The record that a path gets is that of the path that it replaces.** -/
theorem lookupKey_movedRecords : lookupKey Prod.fst (movedRecords F T rs) pa = if covers T pa then
      (lookupKey Prod.fst rs (F ++ pa.drop T.length)).map (renamed F T)
    else none := by
  induction rs with
  | nil => split <;> rfl
  | cons r rs ih =>
    have hi := @renamed_eq_iff F T pa r
    unfold lookupKey movedRecords at ih ⊢
    cases hF : covers F r.1 <;> cases hT : covers T pa <;> simp_all [find?_cons]
    split <;> simp_all

theorem nodup_movedRecords (h : (rs.map Prod.fst).Nodup) :
    ((movedRecords F T rs).map Prod.fst).Nodup := by
  have hrec := Nodup.of_map Prod.fst h
  rw [movedRecords, map_map]
  refine Nodup.map_on ?_ (hrec.filter _)
  intro r hr r' hr' heq
  obtain ⟨hm, hc⟩ := mem_filter.1 hr
  obtain ⟨hm', hc'⟩ := mem_filter.1 hr'
  have hp := (renamed_eq_iff (T := T)).1 ⟨hc, heq⟩
  have hp' := (renamed_eq_iff (T := T)).1 ⟨hc', rfl⟩
  exact inj_on_of_nodup_map h hm hm' (hp.2.trans hp'.2.symm)

/-- `default_acl`: the user may do everything (`kGenericAll`). -/
def defaultAcl (userSid : ByteString) : ByteString :=
  makeAcl [⟨kAccessAllowedAceType, 0, 0x10000000, userSid⟩]

def keptDacl (s : SecurityStore) (path : ByteString) : Option ByteString :=
  (lookupKey Prod.fst s.daclByPath path).map Prod.snd

/-- `dacl_for_key_locked`. -/
def daclForKey (s : SecurityStore) (key : ByteString) : ByteString :=
  (s.keptDacl key).getD (defaultAcl s.userSid)

/-! ### After a change -/

theorem save_keeps (o : Iteration) (ws : Bool) : (s.save o ws).2.userSid = s.userSid ∧
      (s.save o ws).2.daclByPath = s.daclByPath := by
  unfold save
  dsimp only
  split
  · simp
  split
  · simp
  split <;> simp

/-- **What is kept for a path after a file is renamed**: what the file had, else what the path
had itself, unless it is below the old one. -/
theorem renamePath_keeps (hl : s.load e = (true, s₁)) (hk : (s₁.daclByPath.map Prod.fst).Nodup) :
    (s.renamePath (some (F, T)) e).userSid = s₁.userSid ∧
      ∀ pa, (s.renamePath (some (F, T)) e).keptDacl pa =
        (if covers T pa then s₁.keptDacl (F ++ pa.drop T.length) else none).or
          (if covers F pa then none else s₁.keptDacl pa) := by
  have hp := e.order.perm s₁.daclByPath
  have hk' := (hp.map Prod.fst).nodup_iff.2 hk
  have ho (pa : ByteString) : (lookupKey Prod.fst
      ((movedRecords F T (e.order.list s₁.daclByPath)).foldl (upsert Prod.fst)
        (s₁.daclByPath.filter fun r => !covers F r.1)) pa).map Prod.snd =
      (if covers T pa then s₁.keptDacl (F ++ pa.drop T.length) else none).or
        (if covers F pa then none else s₁.keptDacl pa) := by
    rw [lookupKey_foldl_upsert (nodup_movedRecords hk'), lookupKey_movedRecords,
      lookupKey_perm hp hk', lookupKey_filter_key fun p => !covers F p, Option.map_or]
    unfold keptDacl
    cases covers T pa <;> cases covers F pa <;> simp [renamed, Function.comp_def]
  have ha : (s.renamePath (some (F, T)) e).userSid = s₁.userSid ∧
      (s.renamePath (some (F, T)) e).daclByPath =
        (movedRecords F T (e.order.list s₁.daclByPath)).foldl (upsert Prod.fst)
          (s₁.daclByPath.filter fun r => !covers F r.1) := by
    unfold renamePath movedRecords
    rw [hl]
    dsimp only
    split
    · next hi =>
      -- no record is below the old path, and nothing changes
      refine ⟨rfl, ?_⟩
      rw [hi, foldl_nil, filter_eq_self.2]
      intro r hr
      have hn := filter_eq_nil_iff.1 (map_eq_nil_iff.1 hi) r (hp.mem_iff.2 hr)
      simpa using hn
    · exact save_keeps _ _
  refine ⟨ha.1, ?_⟩
  intro pa
  rw [keptDacl, ha.2]
  exact ho pa

/-- **What is kept for a path after a file is removed.** -/
theorem removePath_keeps (hl : s.load e = (true, s₁)) :
    (s.removePath (some F) e).userSid = s₁.userSid ∧
      ∀ path, (s.removePath (some F) e).keptDacl path =
        if covers F path then none else s₁.keptDacl path := by
  unfold removePath
  rw [hl]
  dsimp only
  have hf (path : ByteString) :
      (lookupKey Prod.fst (s₁.daclByPath.filter fun r => !covers F r.1) path).map Prod.snd =
        if covers F path then none else s₁.keptDacl path := by
    rw [lookupKey_filter_key fun p => !covers F p]
    cases covers F path <;> rfl
  split
  · refine ⟨(save_keeps _ _).1, ?_⟩
    intro path
    rw [keptDacl, (save_keeps _ _).2]
    exact hf path
  · next hn =>
    refine ⟨rfl, ?_⟩
    intro path
    rw [← hf, keptDacl, filter_eq_self.2]
    simpa using hn

/-! ### Trees -/

/-- The DACLs of the tree at `F` are those of the tree at `T`, and `F` has none. -/
def FollowsTree (before after : SecurityStore) (F T : ByteString) : Prop :=
  ∀ path, after.daclForKey path =
    if covers T path then before.daclForKey (F ++ path.drop T.length)
    else if covers F path then defaultAcl before.userSid
    else before.daclForKey path

/-- The tree at `F` has the default. -/
def LosesTree (before after : SecurityStore) (F : ByteString) : Prop :=
  ∀ path, after.daclForKey path =
    if covers F path then defaultAcl before.userSid else before.daclForKey path

/-- Every record of the file that is replaced is replaced with it, or is the default. -/
def Replaced (s : SecurityStore) (F T : ByteString) : Prop :=
  ∀ r ∈ s.daclByPath, covers T r.1 = true → covers F r.1 = false →
    r.2 = defaultAcl s.userSid ∨ (s.keptDacl (F ++ r.1.drop T.length)).isSome = true

/-- **The DACLs follow the files exactly if no record of a file that is replaced stays.** -/
theorem dacls_followTree_iff (s s₁ : SecurityStore) (e : Surroundings) (F T : ByteString)
    (hload : s.load e = (true, s₁)) (hkeys : (s₁.daclByPath.map Prod.fst).Nodup) :
    (FollowsTree s₁ (s.renamePath (some (F, T)) e) F T ∧
      LosesTree s₁ (s.removePath (some F) e) F) ↔ s₁.Replaced F T := by
  obtain ⟨hs, he⟩ := renamePath_keeps (F := F) (T := T) hload hkeys
  obtain ⟨hs', hre⟩ := removePath_keeps (F := F) hload
  have hl : LosesTree s₁ (s.removePath (some F) e) F := by
    intro path
    rw [daclForKey, hs', hre]
    split <;> rfl
  rw [and_iff_left hl]
  constructor
  · intro hf r hr hT hF
    have hr' : s₁.keptDacl r.1 = some r.2 := by
      rw [keptDacl, (lookupKey_eq_some hkeys).mpr ⟨hr, rfl⟩]
      rfl
    have hp := hf r.1
    cases hk : s₁.keptDacl (F ++ r.1.drop T.length) with
    | some d => simp
    | none => simpa [daclForKey, he, hs, hT, hF, hr', hk] using hp
  · intro h path
    rw [daclForKey, he, hs]
    cases hT : covers T path with
    | false => cases hF : covers F path <;> simp [daclForKey]
    | true =>
      cases hk : s₁.keptDacl (F ++ path.drop T.length) with
      | some d => simp [daclForKey, hk]
      | none =>
        cases hF : covers F path with
        | true => simp [daclForKey, hk]
        | false =>
          cases hp : s₁.keptDacl path with
          | none => simp [daclForKey, hk]
          | some d =>
            -- the record of the path stays, and it is the default
            obtain ⟨r, hr, rfl⟩ := Option.map_eq_some_iff.mp hp
            obtain ⟨hm, rfl⟩ := key_of_lookupKey hr
            have hd := h r hm hT hF
            simp_all [daclForKey]

/-- A store with a DACL for the file `b`. -/
def protectedStore : SecurityStore :=
  { userSid := makeSid [0, 0, 0, 0, 0, 5] [21, 0, 0, 0, 1000]
    daclByPath := [(text "b", [2, 0, 8, 0, 0, 0, 0, 0])]
    loaded := true }

theorem dacls_followTree_back : (FollowsTree protectedStore
    (protectedStore.renamePath (some (text "b", text "a")) {}) (text "b") (text "a") ∧
      LosesTree protectedStore (protectedStore.removePath (some (text "b")) {}) (text "b")) ↔
    protectedStore.Replaced (text "b") (text "a") :=
  dacls_followTree_iff protectedStore protectedStore {} (text "b") (text "a") rfl (by decide)

/-- `a` has no record, and is renamed to `b`, which keeps its own. -/
theorem not_dacls_followTree : ¬∀ (s s₁ : SecurityStore) (e : Surroundings) (F T : ByteString),
    s.load e = (true, s₁) → (s₁.daclByPath.map Prod.fst).Nodup →
    FollowsTree s₁ (s.renamePath (some (F, T)) e) F T ∧
      LosesTree s₁ (s.removePath (some F) e) F := by
  intro h
  have hp := (h protectedStore protectedStore {} (text "a") (text "b") rfl (by decide)).1 (text "b")
  revert hp
  decide +kernel

end TradutorLinux.SecurityStore
