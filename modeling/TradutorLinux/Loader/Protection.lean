import TradutorLinux.Loader.ImageView

/-!
# The protection of a mapped image

`permissions_for_page` joins what the headers and the sections ask for on a
range, and `effective_page_permissions` takes it for one page.  `map_image` and
`write_image_bytes` take it for all the pages of a section at once, which is
the same when these pages agree, and only then.

## Main definitions

* `Patched`, `PagesAgree`

## Main results

* `protected_iff`
-/

namespace TradutorLinux.Loader

open List Nat

open Pe (PeInfo SectionInfo)

variable {page start st stop sp n : ℕ}

/-! ### Pages -/

/-- The page `n` has a byte of `[start, stop)`, or ends in front of it. -/
def Meets (page start stop n : ℕ) : Prop := start < (n + 1) * page ∧ n * page < stop

instance : Decidable (Meets page start stop n) := inferInstanceAs (Decidable (_ ∧ _))

theorem alignDown_eq (v alignment : ℕ) : alignDown v alignment = v / alignment * alignment := by
  have h := div_add_mod v alignment
  rw [mul_comm] at h
  unfold alignDown
  omega

theorem mul_lt_alignUp (hp : 0 < page) (value : ℕ) :
    n * page < alignUp value page ↔ n * page < value := by
  have hd := div_add_mod value page
  have hm := mod_lt value hp
  dsimp only [alignUp]
  split
  · rfl
  next hn =>
  constructor
  · intro hl
    have hu : value + (page - value % page) = (value / page + 1) * page := by
      rw [add_mul, mul_comm (value / page)]
      omega
    rw [hu] at hl
    have he : n * page ≤ value / page * page :=
      Nat.mul_le_mul_right _ (Nat.lt_succ_iff.1 (lt_of_mul_lt_mul_right' hl))
    rw [mul_comm (value / page)] at he
    omega
  · intro hl
    omega

theorem dvd_alignUp (hp : 0 < page) (v : ℕ) : page ∣ alignUp v page := by
  have h := div_add_mod v page
  have hl := mod_lt v hp
  dsimp only [alignUp]
  split
  · next hm => exact dvd_of_mod_eq_zero hm
  · next hm =>
    refine ⟨v / page + 1, ?_⟩
    rw [mul_add]
    omega

theorem alignUp_le {v bound : ℕ} (hp : 0 < page) (hd : page ∣ bound)
    (he : v ≤ bound) : alignUp v page ≤ bound := by
  obtain ⟨k, rfl⟩ := hd
  rw [mul_comm] at he ⊢
  by_contra hl
  have := (mul_lt_alignUp hp v).1 (not_le.1 hl)
  omega

theorem alignDown_le_iff (hp : 0 < page) : alignDown st page ≤ n * page ↔ st < (n + 1) * page := by
  rw [alignDown_eq]
  constructor
  · intro he
    have := Nat.le_of_mul_le_mul_right he hp
    exact (Nat.div_lt_iff_lt_mul hp).1 (Nat.lt_succ_iff.2 this)
  · intro hl
    exact Nat.mul_le_mul_right _ (Nat.lt_succ_iff.1 ((Nat.div_lt_iff_lt_mul hp).2 hl))

/-! ### The permissions of a range -/

/-- Whether a region that has a byte of `[start, stop)` grants what `get` reads. -/
def grants (regions : List MapRegion) (start stop : ℕ) (get : Prot → Bool) : Bool :=
  regions.any fun region =>
    decide (region.rva.toNat < stop) && decide (start < region.regionEnd) &&
      get (toProt region.permissions)

theorem grants_iff {re : List MapRegion} {get : Prot → Bool} : grants re st sp get ↔
      ∃ r ∈ re, r.rva.toNat < sp ∧ st < r.regionEnd ∧
        get (toProt r.permissions) := by
  simp [grants, and_assoc]

/-- Write wins over execute. -/
def resolve (joined : Prot) : SectionPermissions :=
  if joined.exec ∧ joined.write then .readWrite
  else if joined.write then .readWrite
  else if joined.exec then .readExecute
  else if joined.read then .readOnly
  else .none

theorem addPermissions_eq (a : Prot) (perms : SectionPermissions) : addPermissions a perms =
      ⟨a.read || (toProt perms).read, a.write || (toProt perms).write,
        a.exec || (toProt perms).exec⟩ := by
  cases perms <;> simp [addPermissions, toProt, Prot.none, Prot.readOnly, Prot.readWrite,
    Prot.readExec, Prot.readWriteExec]

theorem foldl_addPermissions (re : List MapRegion) : ∀ a : Prot, re.foldl (fun a r =>
        if r.rva.toNat ≥ sp ∨ r.regionEnd ≤ st then a
        else addPermissions a r.permissions) a =
      ⟨a.read || grants re st sp Prot.read, a.write || grants re st sp Prot.write,
        a.exec || grants re st sp Prot.exec⟩ := by
  induction re with
  | nil =>
    intro a
    simp [grants]
  | cons r re ih =>
    intro a
    rw [foldl_cons, ih]
    by_cases hu : r.rva.toNat ≥ sp ∨ r.regionEnd ≤ st
    · have hn : (decide (r.rva.toNat < sp) && decide (st < r.regionEnd)) = false := by
        rw [Bool.and_eq_false_iff, decide_eq_false_iff_not, decide_eq_false_iff_not]
        omega
      simp [hu, grants, hn]
    · have hy : (decide (r.rva.toNat < sp) && decide (st < r.regionEnd)) := by
        rw [Bool.and_eq_true, decide_eq_true_iff, decide_eq_true_iff]
        omega
      simp [hu, grants, hy, addPermissions_eq, Bool.or_assoc]

theorem permissionsForPage_eq (re : List MapRegion) (st sp headersSize : ℕ) :
    permissionsForPage re st sp headersSize =
      resolve ⟨decide (st < headersSize) || grants re st sp Prot.read,
        grants re st sp Prot.write, grants re st sp Prot.exec⟩ := by
  dsimp only [permissionsForPage]
  rw [foldl_addPermissions]
  rfl

theorem grants_pages {re : List MapRegion} (hp : 0 < page)
    (hne : ∀ r ∈ re, r.rva.toNat < r.regionEnd) {a b : ℕ} (ha : a < b) (get : Prot → Bool) :
    grants re (a * page) (b * page) get ↔
      ∃ n, a ≤ n ∧ n < b ∧ grants re (n * page) ((n + 1) * page) get := by
  simp only [grants_iff]
  constructor
  · rintro ⟨r, hm, hr, he, hg⟩
    -- the first page of the range that is not in front of the region
    have hr' : r.rva.toNat / page < b := (Nat.div_lt_iff_lt_mul hp).2 hr
    refine ⟨max a (r.rva.toNat / page), le_max_left _ _, max_lt ha hr', r, hm, ?_,
      ?_, hg⟩
    · exact (Nat.div_lt_iff_lt_mul hp).1 (Nat.lt_succ_iff.2 (le_max_right _ _))
    · rcases le_total a (r.rva.toNat / page) with hl | hl
      · rw [max_eq_right hl]
        exact lt_of_le_of_lt (div_mul_le_self _ _) (hne r hm)
      · rwa [max_eq_left hl]
  · rintro ⟨n, han, hn, r, hm, hr, he, hg⟩
    refine ⟨r, hm, ?_, ?_, hg⟩
    · exact lt_of_lt_of_le hr (Nat.mul_le_mul_right _ hn)
    · exact lt_of_le_of_lt (Nat.mul_le_mul_right _ han) he

theorem resolve_eq_readWrite {joined : Prot} : resolve joined = .readWrite ↔ joined.write := by
  obtain ⟨r, w, e⟩ := joined
  cases r <;> cases w <;> cases e <;> decide

theorem resolve_eq_readExecute {joined : Prot} :
    resolve joined = .readExecute ↔ joined.write = false ∧ joined.exec := by
  obtain ⟨r, w, e⟩ := joined
  cases r <;> cases w <;> cases e <;> decide

theorem resolve_eq_readOnly {joined : Prot} : resolve joined = .readOnly ↔
      joined.write = false ∧ joined.exec = false ∧ joined.read := by
  obtain ⟨r, w, e⟩ := joined
  cases r <;> cases w <;> cases e <;> decide

theorem resolve_eq_none {joined : Prot} : resolve joined = .none ↔
      joined.write = false ∧ joined.exec = false ∧ joined.read = false := by
  obtain ⟨r, w, e⟩ := joined
  cases r <;> cases w <;> cases e <;> decide

theorem resolve_ne_readWriteExecute (joined : Prot) : resolve joined ≠ .readWriteExecute := by
  obtain ⟨r, w, e⟩ := joined
  cases r <;> cases w <;> cases e <;> decide

/-- **The permissions of a range of pages that agree** are those of each page. -/
theorem permissionsForPage_of_agree {re : List MapRegion} {he : ℕ}
    (hp : 0 < page) (hne : ∀ r ∈ re, r.rva.toNat < r.regionEnd)
    {a b : ℕ} (hb : a < b) {permissions : SectionPermissions} (ha : ∀ n, a ≤ n → n < b →
      permissionsForPage re (n * page) ((n + 1) * page) he = permissions) :
    permissionsForPage re (a * page) (b * page) he = permissions := by
  simp only [permissionsForPage_eq] at ha ⊢
  have hgr := grants_pages hp hne hb
  -- the header bit is set for the range when it is set for its first page
  have hf := ha a le_rfl hb
  have hnot : ∀ get, (∀ n, a ≤ n → n < b → grants re (n * page) ((n + 1) * page) get = false) →
      grants re (a * page) (b * page) get = false := by
    intro get hl
    rw [← Bool.not_eq_true, hgr]
    rintro ⟨n, han, hn, hg⟩
    rw [hl n han hn] at hg
    cases hg
  have hs : ∀ get, grants re (a * page) ((a + 1) * page) get →
      grants re (a * page) (b * page) get :=
    fun get hg => (hgr get).mpr ⟨a, le_rfl, hb, hg⟩
  cases permissions with
  | readWriteExecute => exact absurd hf (resolve_ne_readWriteExecute _)
  | readWrite =>
    rw [resolve_eq_readWrite] at hf ⊢
    exact hs _ hf
  | readExecute =>
    simp only [resolve_eq_readExecute] at ha hf ⊢
    exact ⟨hnot _ fun n han hn => (ha n han hn).1, hs _ hf.2⟩
  | readOnly =>
    simp only [resolve_eq_readOnly] at ha hf ⊢
    refine ⟨hnot _ fun n han hn => (ha n han hn).1,
      hnot _ fun n han hn => (ha n han hn).2.1, ?_⟩
    rcases Bool.or_eq_true _ _ |>.mp hf.2.2 with hh | hr
    · simp [hh]
    · simp [hs _ hr]
  | none =>
    simp only [resolve_eq_none, Bool.or_eq_false_iff] at ha hf ⊢
    exact ⟨hnot _ fun n han hn => (ha n han hn).1,
      hnot _ fun n han hn => (ha n han hn).2.1, hf.2.2.1,
      hnot _ fun n han hn => (ha n han hn).2.2.2⟩

/-! ### The pages of an image -/

/-- The effective permissions of the page `n`. -/
def pagePermissions (page : ℕ) (info : PeInfo) (n : ℕ) : SectionPermissions :=
  permissionsForPage (infoRegions info) (n * page) ((n + 1) * page) info.sizeOfHeaders.toNat

/-- The pages that meet `[start, stop)` have the same effective permissions. -/
def AgreeOn (page : ℕ) (info : PeInfo) (start stop : ℕ) : Prop :=
  ∀ i j, Meets page start stop i → Meets page start stop j →
    pagePermissions page info i = pagePermissions page info j

/-- The pages of each section agree, and those of the headers. -/
def PagesAgree (page : ℕ) (info : PeInfo) : Prop :=
  (∀ s ∈ info.sections, s.span ≠ 0 →
    AgreeOn page info s.virtualAddress.toNat s.sectionEnd) ∧
  AgreeOn page info 0 info.sizeOfHeaders.toNat

/-- Every page of the mapping has the effective permissions of its RVAs. -/
def Protected (pageSize : ℕ) (image : MappedImage) : Prop :=
  ∃ m, image.memory = some m ∧ ∀ rva : UInt32, rva.toNat < image.size →
    m.prot (rva.toNat / pageSize) = toProt (effectivePagePermissions pageSize image rva)

/-- What calls of `write_image_bytes` that succeed make of an image. -/
inductive Patched (pageSize : ℕ) (image : MappedImage) : MappedImage → Prop
  | unpatched : Patched pageSize image image
  | write {patched patched' : MappedImage} {opens restores readOnly : Bool} {rva : UInt32}
      {bytes : ByteString} (before : Patched pageSize image patched)
      (success : writeImageBytes pageSize opens restores readOnly patched rva bytes =
        (.success, patched')) : Patched pageSize image patched'

theorem Meets.mono {start' st' : ℕ} (h : Meets page st sp n) (hs : start' ≤ st)
    (hst : sp ≤ st') : Meets page start' st' n :=
  ⟨lt_of_le_of_lt hs h.1, lt_of_lt_of_le h.2 hst⟩

theorem AgreeOn.mono {info : PeInfo} {start' st' : ℕ} (h : AgreeOn page info start' st')
    (hs : start' ≤ start) (hst : stop ≤ st') : AgreeOn page info start stop :=
  fun i j hi hj => h i j (hi.mono hs hst) (hj.mono hs hst)

theorem regionEnd_sectionRegion (s : SectionInfo) : (sectionRegion s).regionEnd = s.sectionEnd := by
  have hv := s.virtualSize.toNat_lt
  have hr := s.rawDataSize.toNat_lt
  have hs : (UInt32.ofNat s.span).toNat = s.span := by
    rw [UInt32.toNat_ofNat']
    unfold SectionInfo.span
    omega
  unfold MapRegion.regionEnd SectionInfo.sectionEnd sectionRegion
  rw [hs]

theorem infoRegions_ne {info : PeInfo} {re : List MapRegion} (h : Mappable info re) :
    ∀ r ∈ infoRegions info, r.rva.toNat < r.regionEnd ∧
      r.regionEnd ≤ info.sizeOfImage.toNat := by
  intro r hm
  obtain ⟨s, hs, rfl⟩ := mem_map.1 hm
  obtain ⟨hs, hp⟩ := mem_filter.1 hs
  have hp := of_decide_eq_true hp
  obtain ⟨s', -, heq, he, hl, -⟩ :=
    mem_sectionRegions h.sections _ (sectionRegion_mem h.sections s hs hp)
  refine ⟨?_, he ▸ hl⟩
  rw [regionEnd_sectionRegion]
  exact Nat.lt_add_of_pos_right (pos_of_ne_zero hp)

theorem AgreeOn.permissionsForPage_eq {info : PeInfo} {re : List MapRegion}
    (ha : Mappable info re) (hp : 0 < page) (h : AgreeOn page info st sp)
    (hl : st < sp) (hn : Meets page st sp n) :
    permissionsForPage (infoRegions info) (alignDown st page) (alignUp sp page)
      info.sizeOfHeaders.toNat = pagePermissions page info n := by
  obtain ⟨b, hb⟩ := dvd_alignUp hp sp
  rw [mul_comm] at hb
  rw [alignDown_eq, hb]
  refine permissionsForPage_of_agree hp (fun r hm => (infoRegions_ne ha _ hm).1)
    ?_ fun k hk hkb => h k n ⟨?_, ?_⟩ hn
  · have hmul : st / page * page < b * page := by
      rw [← hb]
      exact lt_of_le_of_lt (div_mul_le_self _ _) (lt_of_lt_of_le hl (alignUp_ge _ _))
    exact lt_of_mul_lt_mul_right' hmul
  · rw [← alignDown_le_iff hp, alignDown_eq]
    exact Nat.mul_le_mul_right _ hk
  · rw [← mul_lt_alignUp hp, hb]
    exact Nat.mul_lt_mul_of_pos_right hkb hp

/-! ### Mapped images -/

/-- A mapped image of `info` whose memory is `m`. -/
structure MappedAs (page : ℕ) (info : PeInfo) (image : MappedImage) (m : Memory) : Prop where
  memory : image.memory = some m
  regions : image.regions = infoRegions info
  headersSize : image.headersSize = info.sizeOfHeaders.toNat
  pages : page ∣ image.size
  holds : info.sizeOfImage.toNat ≤ image.size
  bounded : image.size ≤ kMaxSizeOfImage
  mappable : Mappable info image.regions
  headers : 0 < info.sizeOfHeaders.toNat

theorem alignUp_succ (hp : 0 < page) (v : ℕ) : alignUp (v + 1) page = (v / page + 1) * page := by
  apply le_antisymm
  · refine alignUp_le hp (Nat.dvd_mul_left _ _) ?_
    exact (Nat.div_lt_iff_lt_mul hp).1 (lt_succ_self _)
  · obtain ⟨k, hk⟩ := dvd_alignUp hp (v + 1)
    rw [hk, mul_comm page]
    apply Nat.mul_le_mul_right
    have hg := alignUp_ge (v + 1) page
    rw [hk, mul_comm] at hg
    exact (Nat.div_lt_iff_lt_mul hp).2 hg

namespace MappedAs

variable {info : PeInfo} {image : MappedImage} {m : Memory}

theorem effective_eq (h : MappedAs page info image m) (hp : 0 < page) (r : UInt32) :
    effectivePagePermissions page image r = pagePermissions page info (r.toNat / page) := by
  unfold effectivePagePermissions pagePermissions
  rw [h.regions, h.headersSize, alignDown_eq, alignUp_succ hp]

theorem protected_iff_pages (h : MappedAs page info image m) (ha : 0 < page) :
    Protected page image ↔
      ∀ n, n * page < image.size → m.prot n = toProt (pagePermissions page info n) := by
  constructor
  · rintro ⟨m', hm', hp⟩ n hn
    obtain rfl : m = m' := Option.some.inj (h.memory.symm.trans hm')
    have hb := h.bounded
    unfold kMaxSizeOfImage at hb
    have hr : (UInt32.ofNat (n * page)).toNat = n * page := by
      rw [UInt32.toNat_ofNat']
      omega
    have hp := hp (UInt32.ofNat (n * page)) (by rwa [hr])
    rwa [h.effective_eq ha, hr, Nat.mul_div_cancel _ ha] at hp
  · intro hp
    refine ⟨m, h.memory, fun r hr => ?_⟩
    rw [h.effective_eq ha]
    exact hp _ (lt_of_le_of_lt (div_mul_le_self _ _) hr)

end MappedAs

/-! ### Protecting an image -/

section Mapping

variable {host ht ho : MapHost} {info : PeInfo} {regions re : List MapRegion}
  {mappingSize ma ms : ℕ}

theorem prot_protect {m : Memory} {first l : ℕ} {p : Prot} (hp : 0 < page)
    (hf : first = alignDown st page) (hl : first + l = alignUp sp page) (n : ℕ) :
    (m.protect page first l p).prot n = if Meets page st sp n then p else m.prot n := by
  have hi : first ≤ n * page ∧ n * page < first + l ↔ Meets page st sp n := by
    rw [hl, hf, alignDown_le_iff hp, mul_lt_alignUp hp]
    rfl
  exact if_congr hi rfl rfl

/-- A page that meets one of the regions gets its effective permissions, and
any other page keeps what it has. -/
theorem prot_protectRegions (hma : Mappable info regions) (hp : 0 < host.pageSize)
    (hv : host.pageSize ∣ mappingSize) (hs : info.sizeOfImage.toNat ≤ mappingSize) :
    ∀ {rest : List MapRegion}, (∀ rg ∈ rest, rg ∈ infoRegions info ∧
        AgreeOn host.pageSize info rg.rva.toNat rg.regionEnd) →
      ∀ {cs cs' : ℕ} {m m' : Memory},
        protectRegions host mappingSize info.sizeOfHeaders.toNat (infoRegions info) cs rest m =
          .ok (cs', m') →
        ∀ n, m'.prot n = if ∃ rg ∈ rest, Meets host.pageSize rg.rva.toNat rg.regionEnd n then
            toProt (pagePermissions host.pageSize info n)
          else m.prot n := by
  intro rest
  induction rest with
  | nil =>
    intro _ cs cs' m m' h n
    cases h
    simp
  | cons rg rest ih =>
    intro hre cs cs' m m' h n
    obtain ⟨hme, ha⟩ := hre rg mem_cons_self
    obtain ⟨hne, hen⟩ := infoRegions_ne hma rg hme
    have hu : alignUp rg.regionEnd host.pageSize ≤ mappingSize :=
      alignUp_le hp hv (hen.trans hs)
    have hd : alignDown rg.rva.toNat host.pageSize ≤ rg.rva.toNat := sub_le _ _
    have hle := alignUp_ge rg.regionEnd host.pageSize
    dsimp only [protectRegions] at h
    rw [if_neg (by omega), Nat.min_eq_left hu] at h
    split at h
    · cases h
    have he : alignDown rg.rva.toNat host.pageSize +
        (alignUp rg.regionEnd host.pageSize - alignDown rg.rva.toNat host.pageSize) =
        alignUp rg.regionEnd host.pageSize := by omega
    rw [ih (fun r hr => hre r (mem_cons_of_mem _ hr)) h n, prot_protect hp rfl he, he]
    by_cases hl : ∃ r ∈ rest, Meets host.pageSize r.rva.toNat r.regionEnd n
    · have hso : ∃ r ∈ rg :: rest, Meets host.pageSize r.rva.toNat r.regionEnd n := by
        obtain ⟨r, hr, hm⟩ := hl
        exact ⟨r, mem_cons_of_mem _ hr, hm⟩
      rw [if_pos hl, if_pos hso]
    · rw [if_neg hl]
      by_cases hw : Meets host.pageSize rg.rva.toNat rg.regionEnd n
      · rw [if_pos hw, if_pos ⟨rg, mem_cons_self, hw⟩,
          ha.permissionsForPage_eq hma hp hne hw]
      have hn : ¬∃ r ∈ rg :: rest, Meets host.pageSize r.rva.toNat r.regionEnd n := by
        rintro ⟨r, hr, hm⟩
        rcases mem_cons.1 hr with rfl | hr
        · exact hw hm
        · exact hl ⟨r, hr, hm⟩
      rw [if_neg hw, if_neg hn]

theorem pagePermissions_eq_none {n : ℕ} (hh : ¬Meets page 0 info.sizeOfHeaders.toNat n)
    (hp : 0 < page) (hr : ¬∃ r ∈ infoRegions info, Meets page r.rva.toNat r.regionEnd n) :
    pagePermissions page info n = .none := by
  have hg : ∀ get, grants (infoRegions info) (n * page) ((n + 1) * page) get = false := by
    intro get
    rw [← Bool.not_eq_true, grants_iff]
    rintro ⟨r, hm, hv, he, -⟩
    exact hr ⟨r, hm, hv, he⟩
  have hl : ¬n * page < info.sizeOfHeaders.toNat := fun hlt =>
    hh ⟨Nat.mul_pos n.succ_pos hp, hlt⟩
  unfold pagePermissions
  rw [permissionsForPage_eq, resolve_eq_none]
  exact ⟨hg _, hg _, by simp [hg, hl]⟩

theorem PagesAgree.agreeOn_region (h : PagesAgree page info) :
    ∀ r ∈ infoRegions info, AgreeOn page info r.rva.toNat r.regionEnd := by
  intro r hm
  obtain ⟨s, hs, rfl⟩ := mem_map.1 hm
  obtain ⟨hs, hp⟩ := mem_filter.1 hs
  rw [regionEnd_sectionRegion]
  exact h.1 s hs (of_decide_eq_true hp)

/-- **The mapper protects pages that agree as they ask.** -/
theorem prot_protectImage (hm : Mappable info regions) (hp : 0 < host.pageSize)
    (hd : host.pageSize ∣ mappingSize) (hs : info.sizeOfImage.toNat ≤ mappingSize)
    (he : 0 < info.sizeOfHeaders.toNat) (ha : PagesAgree host.pageSize info)
    {m m' : Memory} (h : protectImage host info mappingSize (infoRegions info) m = .ok m')
    {n : ℕ} (hn : n * host.pageSize < mappingSize) :
    m'.prot n = toProt (pagePermissions host.pageSize info n) := by
  have hhs : info.sizeOfHeaders.toNat ≤ mappingSize := hm.headers.trans hs
  unfold protectImage at h
  split at h
  · cases h
  split at h
  · cases h
  next cs m₁ hregions =>
  rw [Nat.min_eq_left hhs] at h
  have hpo : 0 < alignUp info.sizeOfHeaders.toNat host.pageSize :=
    lt_of_lt_of_le he (alignUp_ge _ _)
  rw [if_pos hpo] at h
  split at h
  · cases h
  cases h
  have hz : alignDown 0 host.pageSize = 0 := by simp [alignDown]
  rw [prot_protect hp hz.symm (zero_add _)]
  by_cases hh : Meets host.pageSize 0 info.sizeOfHeaders.toNat n
  · rw [if_pos hh, ← ha.2.permissionsForPage_eq hm hp he hh, hz]
  rw [if_neg hh, prot_protectRegions hm hp hd hs
    (fun r hr => ⟨hr, ha.agreeOn_region r hr⟩) hregions n]
  split
  · rfl
  next hno =>
  -- an orphan page: closed with the whole mapping, and opened by no call
  rw [pagePermissions_eq_none hh hp hno]
  dsimp only [Memory.protect]
  rw [if_pos ⟨Nat.zero_le _, by omega⟩]
  rfl

theorem mapImage_mappedAs {fb : ByteString} {ob : UInt64} {image : MappedImage}
    (hp : 0 < ho.pageSize) (h : mapImage ho info fb ob = .ok image) :
    ∃ m, MappedAs ho.pageSize info image m ∧
      (PagesAgree ho.pageSize info → ∀ n, n * ho.pageSize < image.size →
        m.prot n = toProt (pagePermissions ho.pageSize info n)) := by
  obtain ⟨hm, hi⟩ := mapImage_spec h
  dsimp only [mapImage] at h
  split at h
  · cases h
  next re hregions =>
  have hs := hregions
  dsimp only [imageRegions] at hs
  split at hs
  · cases hs
  split at hs
  · cases hs
  next hb =>
  split at hs
  · cases hs
  next he =>
  have heq : re = infoRegions info := sectionRegions_eq (mappable_of_imageRegions hregions).sections
  split at h
  · cases h
  split at h
  · cases h
  split at h
  · cases h
  next m hr =>
  cases h
  have hpo : 0 < info.sizeOfHeaders.toNat := by
    refine pos_of_ne_zero fun hz => he (.inl ?_)
    exact UInt32.toNat_inj.1 hz
  have hh := alignUp_ge info.sizeOfImage.toNat ho.pageSize
  have hd := dvd_alignUp hp info.sizeOfImage.toNat
  refine ⟨m, ⟨rfl, heq, ?_, hd, hh, not_lt.1 hb, hm, hpo⟩, fun ha n hn => ?_⟩
  · exact Nat.min_eq_left (hm.headers.trans hh)
  · rw [heq] at hr
    exact prot_protectImage hm hp hd hh hpo ha hr hn

end Mapping

/-! ### Patching an image -/

namespace MappedAs

variable {info : PeInfo} {image img' : MappedImage} {m : Memory}

section

variable (h : MappedAs page info image m)
include h

/-- A patch that succeeds lies in a region or in the headers, and protects the
pages it meets as a range. -/
theorem write (hp : 0 < page) {os rs readOnly : Bool} {r : UInt32} {bs : ByteString}
    (hw : writeImageBytes page os rs readOnly image r bs = (.success, img')) :
    ∃ m', MappedAs page info img' m' ∧ img'.size = image.size ∧ r.toNat < r.toNat + bs.length ∧
      ((∃ rg ∈ infoRegions info, rg.rva.toNat ≤ r.toNat ∧
          r.toNat + bs.length ≤ rg.regionEnd) ∨
        r.toNat + bs.length ≤ info.sizeOfHeaders.toNat) ∧ ∀ n, m'.prot n =
        if Meets page r.toNat (r.toNat + bs.length) n then
          toProt (permissionsForPage (infoRegions info) (alignDown r.toNat page)
            (alignUp (r.toNat + bs.length) page) info.sizeOfHeaders.toNat) else m.prot n := by
  unfold writeImageBytes at hw
  rw [h.memory] at hw
  dsimp only at hw
  split at hw
  · cases hw
  next hf =>
  rw [not_or, not_lt] at hf
  obtain ⟨hn, hf⟩ := hf
  have hu := alignUp_le hp h.pages hf
  rw [if_neg (not_lt.2 hu)] at hw
  split at hw
  · cases hw
  next hc =>
  rw [if_neg fun ha => not_lt.2 hu ha.1] at hw
  split at hw
  · cases hw
  split at hw
  swap
  · split at hw <;> cases hw
  cases hw
  have hd : alignDown r.toNat page ≤ r.toNat := sub_le _ _
  have hg := alignUp_ge (r.toNat + bs.length) page
  have hl : alignDown r.toNat page +
      (alignUp (r.toNat + bs.length) page - alignDown r.toNat page) =
      alignUp (r.toNat + bs.length) page := by omega
  refine ⟨_, { h with memory := rfl }, rfl, by omega, ?_, fun n => ?_⟩
  · rw [not_and_or, not_not, Bool.not_eq_false, any_eq_true] at hc
    rcases hc with ⟨rg, he, hi⟩ | ⟨-, hi⟩
    · rw [h.regions] at he
      rw [Bool.and_eq_true, decide_eq_true_iff, decide_eq_true_iff] at hi
      exact .inl ⟨rg, he, hi⟩
    · exact .inr (h.headersSize ▸ hi)
  · rw [prot_protect hp rfl hl, h.regions, h.headersSize]
    by_cases hm : Meets page r.toNat (r.toNat + bs.length) n
    · rw [if_pos hm, if_pos hm]
    · rw [if_neg hm, if_neg hm, Memory.prot_copy, prot_protect hp rfl hl, if_neg hm]

theorem patched (hp : 0 < page) (ha : PagesAgree page info)
    (hr : ∀ n, n * page < image.size → m.prot n = toProt (pagePermissions page info n))
    {patched : MappedImage} (hpa : Patched page image patched) :
    ∃ m', MappedAs page info patched m' ∧
      ∀ n, n * page < patched.size → m'.prot n = toProt (pagePermissions page info n) := by
  induction hpa with
  | unpatched => exact ⟨m, h, hr⟩
  | @write patched patched' opens restores readOnly rva bytes before success ih =>
    obtain ⟨m₁, h₁, hp₁⟩ := ih
    obtain ⟨m₂, h₂, hsi, hl, hi, hp₂⟩ := h₁.write hp success
    refine ⟨m₂, h₂, fun n hn => ?_⟩
    rw [hsi] at hn
    rw [hp₂ n]
    split
    · next hm =>
      have hon : AgreeOn page info rva.toNat (rva.toNat + bytes.length) := by
        rcases hi with ⟨r, he, hst, hs⟩ | hs
        · exact (ha.agreeOn_region r he).mono hst hs
        · exact ha.2.mono (Nat.zero_le _) hs
      rw [hon.permissionsForPage_eq h₁.mappable hp hl hm]
    · exact hp₁ n hn

theorem write_succeeds (hp : 0 < page) {rv : UInt32} {bs : ByteString} (hn : bs ≠ [])
    (hi : (∃ r ∈ infoRegions info, r.rva.toNat = rv.toNat ∧
        rv.toNat + bs.length = r.regionEnd) ∨
      rv.toNat + bs.length = info.sizeOfHeaders.toNat) :
    ∃ img', writeImageBytes page true true true image rv bs = (.success, img') := by
  have hpo : bs.length ≠ 0 := fun hz => hn (length_eq_zero_iff.1 hz)
  have hf : rv.toNat + bs.length ≤ image.size := by
    rcases hi with ⟨r, hm, -, hs⟩ | hs
    · rw [hs]
      exact (infoRegions_ne h.mappable r hm).2.trans h.holds
    · rw [hs]
      exact h.mappable.headers.trans h.holds
  have hu := alignUp_le hp h.pages hf
  unfold writeImageBytes
  rw [h.memory]
  dsimp only
  rw [if_neg (not_or.2 ⟨hpo, not_lt.2 hf⟩), if_neg (not_lt.2 hu), if_neg,
    if_neg fun hl => not_lt.2 hu hl.1]
  · exact ⟨_, rfl⟩
  · rintro ⟨hc, hh⟩
    rcases hi with ⟨r, hm, hst, hs⟩ | hs
    · rw [any_eq_false] at hc
      refine hc r (h.regions ▸ hm) ?_
      rw [Bool.and_eq_true, decide_eq_true_iff, decide_eq_true_iff]
      exact ⟨hst.le, hs.le⟩
    · refine hh ?_
      rw [h.headersSize]
      omega

end

end MappedAs

theorem toProt_injective : Function.Injective toProt := by
  intro a b h
  cases a <;> cases b <;> first | rfl | cases h

/-- If every patch leaves an image protected, the pages of a range that can be
patched as a whole agree. -/
theorem agreeOn_of_protected {info : PeInfo} {image : MappedImage} {m : Memory} (hp : 0 < page)
    (h : MappedAs page info image m)
    (hpo : ∀ patched, Patched page image patched → Protected page patched)
    (r : UInt32) (hlt : r.toNat < stop)
    (hin : (∃ rg ∈ infoRegions info, rg.rva.toNat = r.toNat ∧ stop = rg.regionEnd) ∨
      stop = info.sizeOfHeaders.toNat) : AgreeOn page info r.toNat stop := by
  have hl : r.toNat + (List.replicate (stop - r.toNat) (0 : UInt8)).length = stop := by
    rw [length_replicate]
    omega
  have hne : List.replicate (stop - r.toNat) (0 : UInt8) ≠ [] := by
    rw [Ne, replicate_eq_nil_iff]
    omega
  obtain ⟨img', hw⟩ := h.write_succeeds hp hne (by rwa [hl])
  obtain ⟨m', h', hs, -, hb, hpr⟩ := h.write hp hw
  have hpa := (h'.protected_iff_pages hp).1 (hpo img' (.write .unpatched hw))
  rw [hl] at hpr hb
  -- each page of the range has got the permissions of the range
  have hr : ∀ n, Meets page r.toNat stop n → pagePermissions page info n =
      permissionsForPage (infoRegions info) (alignDown r.toNat page) (alignUp stop page)
        info.sizeOfHeaders.toNat := by
    intro n hn
    have ha : n * page < img'.size := by
      have hst : stop ≤ image.size := by
        rcases hb with ⟨rg, hm, -, he⟩ | he
        · exact he.trans ((infoRegions_ne h.mappable rg hm).2.trans h.holds)
        · exact he.trans (h.mappable.headers.trans h.holds)
      rw [hs]
      exact lt_of_lt_of_le hn.2 hst
    have hg := hpr n
    rw [if_pos hn, hpa n ha] at hg
    exact toProt_injective hg
  intro i j hi hj
  rw [hr i hi, hr j hj]

/-- **An image stays protected as its pages ask when they agree, and only then.** -/
theorem protected_iff {host : MapHost} {info : PeInfo} {fileBytes : ByteString}
    {optionsBase : UInt64} {image : MappedImage} (hpage : 0 < host.pageSize)
    (hmap : mapImage host info fileBytes optionsBase = .ok image) :
    (∀ patched, Patched host.pageSize image patched → Protected host.pageSize patched) ↔
      PagesAgree host.pageSize info := by
  obtain ⟨m, h, hp⟩ := mapImage_mappedAs hpage hmap
  constructor
  · intro hr
    constructor
    · intro s hs hsp
      have hm : sectionRegion s ∈ infoRegions info :=
        mem_map_of_mem (mem_filter.mpr ⟨hs, decide_eq_true hsp⟩)
      refine agreeOn_of_protected hpage h hr s.virtualAddress ?_
        (.inl ⟨sectionRegion s, hm, rfl, (regionEnd_sectionRegion s).symm⟩)
      exact Nat.lt_add_of_pos_right (pos_of_ne_zero hsp)
    · exact agreeOn_of_protected hpage h hr 0 h.headers (.inr rfl)
  · intro ha patched hpatched
    obtain ⟨m', h', hp'⟩ := h.patched hpage ha (hp ha) hpatched
    exact (h'.protected_iff_pages hpage).mpr hp'

/-- An image whose code and data meet in the page `0x2000`. -/
def mixedPage : ByteString :=
  Pe.build
    { sectionAlignment := 0x200
      sizeOfImage := 0x2400
      sizeOfHeaders := 0x400
      sections :=
        [{ name := text ".text", virtualSize := 0x1200, virtualAddress := 0x1000
           rawDataSize := 0, rawDataPointer := 0, characteristics := 0x60000020 },
         { name := text ".data", virtualSize := 0x200, virtualAddress := 0x2200
           rawDataSize := 0, rawDataPointer := 0, characteristics := 0xC0000040 }] }

/-- The first page of the code is protected for writing, like the page that it
shares with the data. -/
theorem not_protected_mixedPage : ∃ r image, Pe.parsePe mixedPage = .ok r ∧
    mapImage idleHost r.info mixedPage 0 = .ok image ∧
    ¬∀ patched, Patched idleHost.pageSize image patched → Protected idleHost.pageSize patched := by
  have he : ((parsedAndMapped mixedPage).map fun (_, image) =>
      (image.memory.map fun m => m.prot 1, effectivePagePermissions 0x1000 image 0x1000,
        decide (0x1000 < image.size))) =
      some (some Prot.readWrite, .readExecute, true) := by
    decide +kernel
  cases ha : parsedAndMapped mixedPage with
  | none =>
    rw [ha] at he
    cases he
  | some result =>
    obtain ⟨r, image⟩ := result
    rw [ha] at he
    obtain ⟨hme, hf, hs⟩ : image.memory.map (fun m => m.prot 1) = some Prot.readWrite ∧
        effectivePagePermissions 0x1000 image 0x1000 = .readExecute ∧ 0x1000 < image.size := by
      simpa using he
    obtain ⟨hr, hi⟩ := parsedAndMapped_eq_some ha
    refine ⟨r, image, hr, hi, fun hpo => ?_⟩
    obtain ⟨m, hm, hpr⟩ := hpo image .unpatched
    have hp : m.prot 1 = toProt (effectivePagePermissions 0x1000 image 0x1000) := hpr 0x1000 hs
    rw [hm] at hme
    have hg : m.prot 1 = Prot.readWrite := Option.some.inj hme
    rw [hf, hg] at hp
    exact absurd hp (by decide)

/-- The same sections with a page of their own. -/
def apartPages : ByteString :=
  Pe.build
    { sections :=
        [{ name := text ".text", virtualSize := 0x1000, virtualAddress := 0x1000
           rawDataSize := 0, rawDataPointer := 0, characteristics := 0x60000020 },
         { name := text ".data", virtualSize := 0x200, virtualAddress := 0x2000
           rawDataSize := 0, rawDataPointer := 0, characteristics := 0xC0000040 }] }

theorem protected_iff_apartPages : ∃ r image, Pe.parsePe apartPages = .ok r ∧
    mapImage idleHost r.info apartPages 0 = .ok image ∧
    ((∀ patched, Patched idleHost.pageSize image patched →
        Protected idleHost.pageSize patched) ↔ PagesAgree idleHost.pageSize r.info) := by
  have hs : (parsedAndMapped apartPages).isSome = true := by decide +kernel
  obtain ⟨⟨r, image⟩, hm⟩ := Option.isSome_iff_exists.mp hs
  obtain ⟨hr, hi⟩ := parsedAndMapped_eq_some hm
  exact ⟨r, image, hr, hi, protected_iff (by decide) hi⟩

end TradutorLinux.Loader
