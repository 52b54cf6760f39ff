import TradutorLinux.Runtime.CxxHandlers
import TradutorLinux.Util.Choices

/-!
# Which clause catches a C++ exception

The FH3 and the FH4 tables say the same in two forms: which state the code at an
address is in, which states a `try` covers, and which clauses its `catch` has.
What the two searches select is compared with the first matching clause of the
first `try` that covers the state.

## Main definitions

* `CatchTable` — what both forms say; `CatchTable.select` — the clause.
* `catchTable3`, `catchTable4`
* `TryRegion.reaches`, `TryRegion.passes` — what the two searches ask instead.

## Main results

* `catch_selected`, `select_innermost`
-/

namespace TradutorLinux.Runtime

open List Option Handler Fh4Handler

/-! ### What the tables say -/

/-- Where in the frame the object of a catch goes, and whether as a reference. -/
structure CatchObject where
  offset : ℕ
  adjectives : ℕ
deriving DecidableEq

/-- A clause: its type, or an ellipsis, the code of the catch, and the object it names. -/
structure CatchClause where
  typeRva : Option ℕ
  handlerRva : ℕ
  object : Option CatchObject := none
deriving DecidableEq

/-- The clause takes an object of the types `thrown`. -/
def CatchClause.takes (thrown : List ℕ) (c : CatchClause) : Bool :=
  match c.typeRva with
  | none => true
  | some t => decide (t ≠ 0) && thrown.contains t

/-- A `try`: its states, those of its catches, and its clauses. -/
structure TryRegion where
  tryLow : ℤ
  tryHigh : ℤ
  catchHigh : ℤ
  clauses : List CatchClause
deriving DecidableEq

/-- Whether the object that a clause names can be put into the frame. -/
def CatchClause.places (image : ImageReader) (g : GuestStack) (record : ExceptionRecordAmd64)
    (establisher : UInt64) (c : CatchClause) : Bool :=
  match c.object with
  | none => true
  | some o =>
    (placeCatchObject g record establisher
      { handlerRva := c.handlerRva
        scopeIndex := 0
        catchObject := o.offset
        handlerAdjectives := o.adjectives
        catchable := (c.typeRva.bind (findThrownCatchable image record)).getD {}
        hasCatchable := c.typeRva.isSome
        hasCatchObject := true
        catchAll := c.typeRva.isNone }).isSome

/-- What is selected: the block, the code, and whether by an ellipsis. -/
structure CatchChoice where
  scopeIndex : ℕ
  handlerRva : ℕ
  catchAll : Bool
deriving DecidableEq

def CatchClause.choice (index : ℕ) (c : CatchClause) : CatchChoice :=
  ⟨index, c.handlerRva, c.typeRva.isNone⟩

namespace TryRegion

variable (r : TryRegion)

/-- The code in the state is inside of the `try`. -/
def covers (state : ℤ) : Bool :=
  decide (0 ≤ state) && decide (r.tryLow ≤ state) && decide (state ≤ r.tryHigh)

def firstMatch (thrown : List ℕ) : Option CatchClause := r.clauses.find? (·.takes thrown)

/-- What `find_catch` asks of the state. -/
def reaches (state : ℤ) : Bool := decide (r.tryLow ≤ state) && decide (state ≤ r.catchHigh)

/-- What `find_fh4_catch` asks of the state. -/
def passes (state : ℤ) : Bool :=
  decide (r.tryLow ≤ kMaxFh4Entries) && decide (r.tryHigh ≤ kMaxFh4Entries) &&
    decide (r.catchHigh ≤ kMaxFh4Entries) && (decide (state < 0) || r.reaches state)

/-- The first clause with a type that takes the object. -/
def typedMatch (thrown : List ℕ) : Option CatchClause :=
  r.clauses.find? fun c => c.typeRva.isSome && c.takes thrown

/-- The clause the two passes of `find_fh4_catch` take. -/
def passMatch (thrown : List ℕ) : Option CatchClause :=
  (r.typedMatch thrown).or (r.clauses.find? fun c => c.typeRva.isNone)

/-- The states of the block are among those of another, and fewer. -/
def Inside (r' : TryRegion) : Prop :=
  r'.tryLow ≤ r.tryLow ∧ r.tryHigh ≤ r'.tryHigh ∧
    (r'.tryLow < r.tryLow ∨ r.tryHigh < r'.tryHigh)

/-- No clause with a type that takes the object comes behind the ellipsis. -/
def EllipsisLast (thrown : List ℕ) : Prop :=
  ∀ c ∈ r.firstMatch thrown, c.typeRva = none → r.typedMatch thrown = none

instance (thrown : List ℕ) : Decidable (r.EllipsisLast thrown) :=
  inferInstanceAs (Decidable (∀ c ∈ r.firstMatch thrown, _))

end TryRegion

/-- The tables of a function: the states of its code, and its `try` blocks. -/
structure CatchTable where
  states : List (ℕ × ℤ)
  regions : List TryRegion
deriving DecidableEq

namespace CatchTable

variable (table te ta : CatchTable)

/-- The state of the code at an RVA: that of the last entry at or before it. -/
def stateAt (control : ℕ) : ℤ :=
  ((table.states.filter fun e => decide (e.1 ≤ control)).getLast?.map Prod.snd).getD kInvalidState

/-- **The clause that catches an object of the types `thrown`: the first that takes it, of the
first block that covers the state and has one.** -/
def select (control : ℕ) (thrown : List ℕ) : Option CatchChoice :=
  table.regions.zipIdx.findSome? fun t =>
    if t.1.covers (table.stateAt control) then (t.1.firstMatch thrown).map (·.choice t.2) else none

/-- The first block that covers the state or that `find_catch` takes does both. -/
def SelectedBy3 (control : ℕ) (thrown : List ℕ) : Prop :=
  ∀ r ∈ table.regions.find? fun r =>
    (r.reaches (table.stateAt control) || r.covers (table.stateAt control)) &&
      (r.firstMatch thrown).isSome,
    r.reaches (table.stateAt control) = true ∧ r.covers (table.stateAt control) = true

/-- The first block that covers the state or that `find_fh4_catch` takes does both, it has its
ellipsis last, and the object of the clause can be placed; or nothing covers the state, and the
object of the clause that is taken cannot be placed. -/
def SelectedBy4 (control : ℕ) (thrown : List ℕ) (places : CatchClause → Bool) : Prop :=
  ∀ r ∈ table.regions.find? fun r =>
    (r.passes (table.stateAt control) || r.covers (table.stateAt control)) &&
      (r.firstMatch thrown).isSome,
    r.passes (table.stateAt control) = true ∧
      if r.covers (table.stateAt control) = true then
        r.EllipsisLast thrown ∧ ∀ c ∈ r.firstMatch thrown, places c = true
      else (∀ c ∈ r.passMatch thrown, places c = false) ∧
        ∀ r' ∈ table.regions, r'.covers (table.stateAt control) = true →
          r'.firstMatch thrown = none

instance (control : ℕ) (thrown : List ℕ) : Decidable (table.SelectedBy3 control thrown) :=
  inferInstanceAs (Decidable (∀ r ∈ table.regions.find? _, _))

instance (control : ℕ) (thrown : List ℕ) (places : CatchClause → Bool) :
    Decidable (table.SelectedBy4 control thrown places) :=
  inferInstanceAs (Decidable (∀ r ∈ table.regions.find? _, _))

end CatchTable

/-! ### Selection -/

section Selection

variable {table te ta : CatchTable} {r : TryRegion} {thrown tn th : List ℕ}
  {control con cl index ind ix : ℕ} {state st : ℤ}

theorem le_scopeIndex {l : List TryRegion} {n : ℕ} {f : TryRegion → Option CatchClause}
    {p : TryRegion → Bool} {b : CatchChoice} (hb : ((l.zipIdx n).findSome? fun t =>
      if p t.1 then (f t.1).map (·.choice t.2) else none) = some b) : n ≤ b.scopeIndex := by
  obtain ⟨t, ht, hb⟩ := exists_of_findSome?_eq_some hb
  split at hb
  · obtain ⟨c, -, rfl⟩ := map_eq_some_iff.1 hb
    exact le_snd_of_mem_zipIdx ht
  · cases hb

theorem map_fst_findSome? {l : List TryRegion} {n : ℕ} {f : TryRegion → Option CatchClause}
    {p : TryRegion → Bool} (places : CatchClause → Bool) :
    ((l.zipIdx n).findSome? fun t =>
        if p t.1 then (f t.1).map fun c => (c.choice t.2, places c) else none).map Prod.fst =
      (l.zipIdx n).findSome? fun t => if p t.1 then (f t.1).map (·.choice t.2) else none := by
  rw [map_findSome?]
  congr 1
  funext t
  dsimp only [Function.comp_apply]
  split
  · rw [Option.map_map]
    rfl
  · rfl

/-- **Selecting with another test for the state, another choice among the clauses, and a clause
that may be given up afterwards.** -/
theorem findSome?_choice_eq_iff {p q : TryRegion → Bool} {f g : TryRegion → Option CatchClause}
    {places : CatchClause → Bool} (hfg : ∀ r, (g r).isSome = (f r).isSome) (l : List TryRegion)
    (n : ℕ) :
    (((l.zipIdx n).findSome? fun t =>
        if q t.1 then (g t.1).map fun c => (c.choice t.2, places c) else none).filter
          Prod.snd).map Prod.fst =
      ((l.zipIdx n).findSome? fun t => if p t.1 then (f t.1).map (·.choice t.2) else none) ↔
    ∀ r ∈ l.find? fun r => (q r || p r) && (f r).isSome, q r = true ∧
      if p r = true then ∀ i, ((g r).filter places).map (·.choice i) = (f r).map (·.choice i)
      else (∀ c ∈ g r, places c = false) ∧ ∀ r' ∈ l, p r' = true → f r' = none := by
  induction l generalizing n with
  | nil => simp
  | cons r l ih =>
    rw [zipIdx_cons, findSome?_cons, findSome?_cons, find?_cons]
    -- the blocks behind this one have other numbers
    have hl : ∀ (p' : TryRegion → Bool) (f' : TryRegion → Option CatchClause) (c : CatchClause),
        ((l.zipIdx (n + 1)).findSome? fun t =>
          if p' t.1 then (f' t.1).map (·.choice t.2) else none) ≠ some (c.choice n) := by
      intro p' f' c hb
      have hle := le_scopeIndex hb
      dsimp only [CatchClause.choice] at hle
      omega
    cases hf : f r with
    | none =>
      have hg : g r = none := by simpa [hf] using hfg r
      simpa [hg, hf] using ih (n + 1)
    | some c =>
      obtain ⟨c', hg⟩ := isSome_iff_exists.1 (show (g r).isSome by rw [hfg, hf]; rfl)
      cases hq : q r with
      | false =>
        cases hp : p r with
        | false => simpa [hp, hq] using ih (n + 1)
        | true =>
          have hne : ((((l.zipIdx (n + 1)).findSome? fun t =>
              if q t.1 then (g t.1).map fun c => (c.choice t.2, places c) else none).filter
                Prod.snd).map Prod.fst) ≠ some (c.choice n) := by
            intro hb
            obtain ⟨v, hv, hvc⟩ := map_eq_some_iff.1 hb
            have hx := congrArg (Option.map Prod.fst) (filter_eq_some_iff.1 hv).1
            rw [map_fst_findSome?, map_some, hvc] at hx
            exact hl q g c hx
          simpa [hf, hp, hq] using hne
      | true =>
        cases hp : p r with
        | false =>
          cases hc : places c' with
          | true => simpa [hf, hg, hp, hq, hc, Option.filter] using (hl p f c').symm
          | false =>
            have hz : (∀ a b, (a, b) ∈ l.zipIdx (n + 1) → p a = true → f a = none) ↔
                ∀ a ∈ l, p a = true → f a = none := by
              constructor
              · intro h a ha
                obtain ⟨b, hb⟩ := getElem?_of_mem ha
                exact h a _ (mk_add_mem_zipIdx_iff_getElem?.2 hb)
              · exact fun h a b hab => h a (fst_mem_of_mem_zipIdx hab)
            rw [eq_comm]
            simpa [hf, hg, hp, hq, hc, Option.filter, findSome?_eq_none_iff] using hz
        | true =>
          cases hc : places c' with
          | true => simp [hf, hg, hp, hq, hc, CatchClause.choice]
          | false => simp [hf, hg, hp, hq, hc]

/-- Every clause that takes the object has a type, or is an ellipsis. -/
theorem isSome_passMatch : (r.passMatch th).isSome = (r.firstMatch th).isSome := by
  rw [Bool.eq_iff_iff]
  unfold TryRegion.passMatch TryRegion.typedMatch TryRegion.firstMatch
  rw [isSome_or, Bool.or_eq_true, find?_isSome, find?_isSome, find?_isSome]
  constructor
  · rintro (⟨c, hc, hy⟩ | ⟨c, hc, hn⟩)
    · exact ⟨c, hc, (Bool.and_eq_true_iff.1 hy).2⟩
    · exact ⟨c, hc, by unfold CatchClause.takes; rw [isNone_iff_eq_none.1 hn]⟩
  · rintro ⟨c, hc, ha⟩
    cases ht : c.typeRva with
    | none => exact .inr ⟨c, hc, by rw [ht]; rfl⟩
    | some t => exact .inl ⟨c, hc, by simp [ht, ha]⟩

/-- **Two passes take the first clause exactly if the ellipsis is last.** -/
theorem passMatch_eq_iff : r.passMatch thrown = r.firstMatch thrown ↔ r.EllipsisLast thrown := by
  have hs : (fun c : CatchClause => c.takes thrown) =
      fun c => (c.typeRva.isSome && c.takes thrown) || c.typeRva.isNone := by
    funext c
    unfold CatchClause.takes
    cases c.typeRva <;> simp
  have ha := find?_orElse_eq_iff (l := r.clauses)
    (p := fun c => c.typeRva.isSome && c.takes thrown) (q := fun c => c.typeRva.isNone)
    (by
      rintro c - ⟨ht, hn⟩
      rw [isNone_iff_eq_none.1 hn] at ht
      cases ht)
  rw [← hs] at ha
  refine Iff.trans ha ?_
  simp only [isNone_iff_eq_none]
  exact ⟨fun h c hc hn => h ⟨c, hc, hn⟩, fun h ⟨c, hc, hn⟩ => h c hc hn⟩

theorem ellipsisLast_of_choice {i : ℕ} (h : (r.passMatch thrown).map (·.choice i) =
    (r.firstMatch thrown).map (·.choice i)) : r.EllipsisLast thrown := by
  intro c hc hn
  by_contra ht
  obtain ⟨c', hc'⟩ := ne_none_iff_exists'.1 ht
  have hp : r.passMatch thrown = some c' := by
    unfold TryRegion.passMatch
    rw [hc', some_or]
  rw [hp, show r.firstMatch thrown = some c from hc] at h
  have hb : c'.typeRva.isNone = c.typeRva.isNone := congrArg CatchChoice.catchAll (some.inj h)
  have hy := find?_some hc'
  rw [hn] at hb
  rw [isNone_iff_eq_none.1 hb] at hy
  cases hy

theorem placedMatch_iff {places : CatchClause → Bool} (hr : (r.firstMatch thrown).isSome) :
    (∀ i, ((r.passMatch thrown).filter places).map (·.choice i) =
        (r.firstMatch thrown).map (·.choice i)) ↔
      r.EllipsisLast thrown ∧ ∀ c ∈ r.firstMatch thrown, places c = true := by
  obtain ⟨c, hc⟩ := isSome_iff_exists.1 hr
  obtain ⟨c', hc'⟩ := isSome_iff_exists.1 (isSome_passMatch.trans hr)
  constructor
  · intro h
    have hi := h 0
    rw [hc', hc, Option.filter] at hi
    split at hi
    next hp =>
      rw [← hc', ← hc] at hi
      have he := ellipsisLast_of_choice hi
      refine ⟨he, fun b hb => ?_⟩
      rw [← passMatch_eq_iff.2 he, hc'] at hb
      rwa [← some.inj hb]
    next => cases hi
  · rintro ⟨he, hp⟩ i
    rw [passMatch_eq_iff.2 he, hc, Option.filter, if_pos (hp c hc)]

theorem select3_iff :
    (table.regions.zipIdx.findSome? fun t => if t.1.reaches (table.stateAt control) then
        (t.1.firstMatch thrown).map (·.choice t.2) else none) = table.select control thrown ↔
      table.SelectedBy3 control thrown := by
  have h := @findSome?_choice_eq_iff (fun r => r.covers (table.stateAt control))
    (fun r => r.reaches (table.stateAt control)) (fun r => r.firstMatch thrown)
    (fun r => r.firstMatch thrown) (fun _ => true) (fun _ => rfl) table.regions 0
  have hk : ∀ o : Option (CatchChoice × Bool), (∀ v ∈ o, v.2 = true) → o.filter Prod.snd = o := by
    intro o ho
    cases o with
    | none => rfl
    | some v => rw [Option.filter, if_pos (ho v rfl)]
  have hm := @map_fst_findSome? table.regions 0 (fun r => r.firstMatch thrown)
    (fun r => r.reaches (table.stateAt control)) fun _ => true
  rw [hk, hm] at h
  · refine h.trans (forall₂_congr fun r hr => and_congr_right fun _ => ?_)
    have hs := find?_some hr
    obtain ⟨c, hc⟩ := isSome_iff_exists.1 (Bool.and_eq_true_iff.1 hs).2
    split
    next hp => simp [hp, hc, Option.filter]
    next hp => simp [hp, hc]
  · intro v hv
    obtain ⟨t, -, ht⟩ := exists_of_findSome?_eq_some hv
    split at ht
    · obtain ⟨c, -, rfl⟩ := map_eq_some_iff.1 ht
      rfl
    · cases ht

theorem select4_iff {places : CatchClause → Bool} :
    ((table.regions.zipIdx.findSome? fun t => if t.1.passes (table.stateAt control) then
        (t.1.passMatch thrown).map fun c => (c.choice t.2, places c) else none).filter
          Prod.snd).map Prod.fst = table.select control thrown ↔
      table.SelectedBy4 control thrown places := by
  unfold CatchTable.select CatchTable.SelectedBy4
  rw [findSome?_choice_eq_iff (f := fun r => r.firstMatch thrown)
    (g := fun r => r.passMatch thrown) (p := fun r => r.covers (table.stateAt control))
    (q := fun r => r.passes (table.stateAt control)) fun _ => isSome_passMatch]
  refine forall₂_congr fun r hr => and_congr_right fun hp => ?_
  split
  · have hs := find?_some hr
    exact placedMatch_iff (Bool.and_eq_true_iff.1 hs).2
  · rfl

/-- **Where inner blocks are listed before outer ones, no block inside of the selected one covers
the state and has a clause that takes the object.** -/
theorem select_innermost (ho : table.regions.Pairwise fun r r' => ¬r'.Inside r) {b : CatchChoice}
    (hb : table.select control thrown = some b) :
    ∃ r c, table.regions[b.scopeIndex]? = some r ∧ r.covers (table.stateAt control) = true ∧
      r.firstMatch thrown = some c ∧ b = c.choice b.scopeIndex ∧
      ∀ r' ∈ table.regions, r'.covers (table.stateAt control) = true →
        (r'.firstMatch thrown).isSome → ¬r'.Inside r := by
  unfold CatchTable.select at hb
  obtain ⟨before, ⟨r, i⟩, behind, hl, hr, hn⟩ := findSome?_eq_some_iff.1 hb
  have hi : table.regions[i]? = some r := by
    rw [← mk_mem_zipIdx_iff_getElem?, hl]
    simp
  split at hr
  next hc =>
    obtain ⟨c, hc', rfl⟩ := map_eq_some_iff.1 hr
    refine ⟨r, c, hi, hc, hc', rfl, fun r' hr' hcr hm => ?_⟩
    obtain ⟨j, hj⟩ := getElem?_of_mem hr'
    rw [← mk_mem_zipIdx_iff_getElem?, hl] at hj
    rcases mem_append.1 hj with hj | hj
    · -- a block in front would have been selected
      have hno := hn _ hj
      rw [if_pos hcr, map_eq_none_iff] at hno
      rw [hno] at hm
      cases hm
    · rcases mem_cons.1 hj with hj | hj
      · rintro ⟨-, -, hlt⟩
        cases hj
        omega
      · rw [← zipIdx_map_fst 0 table.regions, hl, pairwise_map, pairwise_append] at ho
        exact (pairwise_cons.1 ho.2.1).1 _ hj
  · cases hr

end Selection

/-! ### The thrown object -/

/-- The catchable types from the entry `index` on, up to one that cannot be read. -/
def catchableTypesFrom (image : ImageReader) (entries : ℕ) : ℕ → ℕ → List CatchableType
  | 0, _ => []
  | remaining + 1, index =>
    match readCatchableEntry image entries index with
    | none => []
    | some c => c :: catchableTypesFrom image entries remaining (index + 1)

/-- The types the thrown object can be caught as. -/
def thrownTypes (image : ImageReader) (record : ExceptionRecordAmd64) : List ℕ :=
  match catchableArray image record with
  | none => []
  | some (entries, count) => (catchableTypesFrom image entries count 0).map CatchableType.typeRva

section Thrown

variable {image ie im : ImageReader} {record rc rd : ExceptionRecordAmd64}

theorem isSome_findCatchableFrom {es t : ℕ} (re ix : ℕ) :
    (findCatchableFrom im es t re ix).isSome =
      ((catchableTypesFrom im es re ix).map CatchableType.typeRva).contains t := by
  induction re generalizing ix with
  | zero => rfl
  | succ re ih =>
    rw [findCatchableFrom, catchableTypesFrom]
    cases readCatchableEntry im es ix with
    | none => rfl
    | some c =>
      dsimp only
      split
      · next heq => simp [heq]
      · next hn =>
        rw [ih, map_cons, contains_cons]
        simp [beq_eq_false_iff_ne.2 (Ne.symm hn)]

theorem isSome_findThrownCatchable {t : ℕ} :
    (findThrownCatchable im rd t).isSome = (thrownTypes im rd).contains t := by
  unfold findThrownCatchable thrownTypes
  cases catchableArray im rd with
  | none => rfl
  | some a => exact isSome_findCatchableFrom a.2 0

theorem range_of_readCatchableType {rv : ℕ} {c : CatchableType}
    (h : readCatchableType im rv = some c) :
    im.range c.typeRva (kTypeDescriptorNameOffset + 1) := by
  unfold readCatchableType at h
  split at h
  · cases h
  simp only [bind_eq_bind, bind_eq_some_iff] at h
  obtain ⟨ps, -, tr, -, m, -, v, -, vb, -, s, -, co, -, hc⟩ := h
  split at hc
  · cases hc
  next ho =>
  cases hc
  push Not at ho
  simpa using ho.1

theorem range_of_mem_thrownTypes {t : ℕ} (h : t ∈ thrownTypes im rd) :
    im.range t (kTypeDescriptorNameOffset + 1) := by
  unfold thrownTypes at h
  cases ha : catchableArray im rd with
  | none =>
    rw [ha] at h
    cases h
  | some a =>
    rw [ha] at h
    obtain ⟨c, hc, rfl⟩ := mem_map.1 h
    clear h ha
    obtain ⟨es, n⟩ := a
    generalize 0 = ix at hc
    induction n generalizing ix with
    | zero => cases hc
    | succ re ih =>
      rw [catchableTypesFrom] at hc
      cases hr : readCatchableEntry im es ix with
      | none =>
        rw [hr] at hc
        cases hc
      | some c' =>
        rw [hr] at hc
        rcases mem_cons.1 hc with rfl | hc
        · obtain ⟨rv, -, hv⟩ := bind_eq_some_iff.1 hr
          exact range_of_readCatchableType hv
        · exact ih _ hc

end Thrown

/-! ### FH3 -/

def Handler.clause (h : Handler) : CatchClause :=
  ⟨if h.catchAll then none else some h.typeRva, h.handlerRva, none⟩

/-- A try block of FH3 with its clauses. -/
def region3 (image : ImageReader) (info : FuncInfo) (index : ℕ) : Option TryRegion := do
  let b ← readTryBlock image info index
  let handlers ← (range' 0 b.handlerCount).mapM (readHandler image b.handlerMap)
  some { tryLow := b.tryLow
         tryHigh := b.tryHigh
         catchHigh := b.catchHigh
         clauses := handlers.map Handler.clause }

/-- The tables of an FH3 `FuncInfo`. -/
def catchTable3 (image : ImageReader) (info : FuncInfo) : Option CatchTable := do
  let states ← (range' 0 info.ipMapCount).mapM (readIpEntry image info)
  let regions ← (range' 0 info.tryBlockCount).mapM (region3 image info)
  some { states, regions }

def CatchTarget.choice (t : CatchTarget) : CatchChoice := ⟨t.scopeIndex, t.handlerRva, t.catchAll⟩

/-- The choice, and whether the object can be placed. -/
def CatchTarget.placed (g : GuestStack) (record : ExceptionRecordAmd64) (establisher : UInt64)
    (t : CatchTarget) : CatchChoice × Bool :=
  (t.choice, (placeCatchObject g record establisher t).isSome)

variable {entries es : List (ℕ × ℤ)}

variable {table te ta : CatchTable}

variable {state st : ℤ}

section Fh3

variable {image ie im : ImageReader} {info : FuncInfo} {record rc rd : ExceptionRecordAmd64}

theorem Handler.catches_eq (h : Handler) :
    h.catches im rd = h.clause.takes (thrownTypes im rd) := by
  unfold catches Handler.clause CatchClause.takes
  cases ha : h.catchAll with
  | true => simp
  | false =>
    rw [isSome_findThrownCatchable, Bool.eq_iff_iff]
    simp only [Bool.false_or, Bool.and_eq_true, Bool.false_eq_true, if_false, contains_iff_mem]
    constructor
    · rintro ⟨⟨hn, -⟩, hm⟩
      exact ⟨hn, hm⟩
    · rintro ⟨hn, hm⟩
      exact ⟨⟨hn, range_of_mem_thrownTypes hm⟩, hm⟩

theorem mapM_range'_succ {α : Type} {f : ℕ → Option α} {ix re : ℕ} {l : List α}
    (h : (range' ix (re + 1)).mapM f = some l) :
    ∃ a rest, f ix = some a ∧ (range' (ix + 1) re).mapM f = some rest ∧ l = a :: rest := by
  rw [range'_succ, mapM_cons] at h
  simp only [bind_eq_bind, bind_eq_some_iff, Option.pure_def] at h
  obtain ⟨a, ha, rest, hr, hl⟩ := h
  exact ⟨a, rest, ha, hr, (some.inj hl).symm⟩

theorem findHandlerFrom_eq {hp rm ix : ℕ} {handlers : List Handler}
    (h : (range' ix rm).mapM (readHandler im hp) = some handlers) :
    findHandlerFrom im rd hp rm ix = some (handlers.find? (catches im rd)) := by
  induction rm generalizing ix handlers with
  | zero =>
    obtain rfl : handlers = [] := (some.inj h).symm
    rfl
  | succ rm ih =>
    obtain ⟨a, re, ha, hr, rfl⟩ := mapM_range'_succ h
    rw [findHandlerFrom, ha, find?_cons]
    dsimp only
    cases a.catches im rd with
    | true => rfl
    | false => exact ih hr

theorem find?_catches {ha : List Handler} : (ha.find? (catches im rd)).map Handler.clause =
      (ha.map Handler.clause).find? (·.takes (thrownTypes im rd)) := by
  rw [find?_map]
  congr 2
  funext h
  exact h.catches_eq

/-- **The loop of `find_catch` selects among the blocks that reach the state.** -/
theorem findCatchFrom_choice {rm ix : ℕ} {rs : List TryRegion}
    (h : (range' ix rm).mapM (region3 im info) = some rs) :
    (findCatchFrom im info rd st rm ix).map CatchTarget.choice =
      (rs.zipIdx ix).findSome? fun t => if t.1.reaches st then
        (t.1.firstMatch (thrownTypes im rd)).map (·.choice t.2) else none := by
  induction rm generalizing ix rs with
  | zero =>
    obtain rfl : rs = [] := (some.inj h).symm
    rfl
  | succ rm ih =>
    obtain ⟨r, re, hr, he, rfl⟩ := mapM_range'_succ h
    unfold region3 at hr
    simp only [bind_eq_bind, bind_eq_some_iff] at hr
    obtain ⟨b, hb, handlers, hh, hr⟩ := hr
    cases hr
    rw [findCatchFrom, hb, zipIdx_cons, findSome?_cons]
    have hs : b.skips st = !(decide (b.tryLow ≤ st) && decide (st ≤ b.catchHigh)) := by
      unfold TryBlock.skips
      rw [Bool.eq_iff_iff]
      simp
    have ha : TryRegion.reaches ⟨b.tryLow, b.tryHigh, b.catchHigh,
        handlers.map Handler.clause⟩ st =
        (decide (b.tryLow ≤ st) && decide (st ≤ b.catchHigh)) := rfl
    dsimp only
    rw [hs, ha]
    cases decide (b.tryLow ≤ st) && decide (st ≤ b.catchHigh) with
    | false => simpa using ih he
    | true =>
      rw [findHandlerFrom_eq hh]
      have hf : TryRegion.firstMatch ⟨b.tryLow, b.tryHigh, b.catchHigh,
          handlers.map Handler.clause⟩ (thrownTypes im rd) =
          (handlers.find? (catches im rd)).map Handler.clause :=
        find?_catches.symm
      rw [hf]
      cases hi : handlers.find? (catches im rd) with
      | none => simpa using ih he
      | some h' =>
        simp only [Bool.not_true, Bool.false_eq_true, if_false, if_true, map_some]
        congr 1
        unfold CatchTarget.choice CatchClause.choice Handler.clause
        cases h'.catchAll <;> rfl

/-! ### The state of FH3 -/

theorem currentStateFrom_eq {cl re ix : ℕ}
    (h : (range' ix re).mapM (readIpEntry im info) = some es) :
    currentStateFrom im info cl re ix st = some
      (((es.takeWhile fun e => decide (e.1 ≤ cl)).getLast?.map Prod.snd).getD st) := by
  induction re generalizing ix es st with
  | zero =>
    obtain rfl : es = [] := (some.inj h).symm
    rfl
  | succ re ih =>
    obtain ⟨⟨ip, c⟩, rest, ha, hr, rfl⟩ := mapM_range'_succ h
    rw [currentStateFrom, ha, takeWhile_cons]
    by_cases hi : cl < ip
    · simp [hi, not_le.2 hi]
    · simp only [hi, if_false, ih hr, show ip ≤ cl by omega, decide_true, if_true, getLast?_cons]
      cases (rest.takeWhile fun e => decide (e.1 ≤ cl)).getLast? <;> rfl

theorem validateIpMapFrom_spec {rm ix prev : ℕ}
    (h : (range' ix rm).mapM (readIpEntry im info) = some es)
    (hv : validateIpMapFrom im info rm ix prev) :
    es.Pairwise (fun e e' => e.1 ≤ e'.1) ∧ (∀ e ∈ es, info.validState e.2) ∧
      (ix ≠ 0 → ∀ e ∈ es, prev ≤ e.1) := by
  induction rm generalizing ix prev es with
  | zero =>
    obtain rfl : es = [] := (some.inj h).symm
    simp
  | succ rm ih =>
    obtain ⟨⟨ip, st⟩, re, ha, hr, rfl⟩ := mapM_range'_succ h
    rw [validateIpMapFrom, ha] at hv
    dsimp only at hv
    split at hv
    · cases hv
    next ho =>
    obtain ⟨hso, hs, hl⟩ := ih hr hv
    have hb := hl (by omega)
    simp only [Bool.or_eq_true, Bool.and_eq_true, decide_eq_true_eq, not_or, not_and,
      Bool.not_eq_true', Bool.not_eq_false] at ho
    refine ⟨pairwise_cons.2 ⟨hb, hso⟩, ?_, ?_⟩
    · rintro e he
      rcases mem_cons.1 he with rfl | he
      · exact ho.1.2
      · exact hs e he
    · rintro hi e he
      have hp : prev ≤ ip := Nat.le_of_not_lt (ho.2 hi)
      rcases mem_cons.1 he with rfl | he
      · exact hp
      · exact hp.trans (hb e he)

/-- In ascending entries those at or before an address come first. -/
theorem takeWhile_eq_filter (cl : ℕ) (h : es.Pairwise fun e e' => e.1 ≤ e'.1) :
    (es.takeWhile fun e => decide (e.1 ≤ cl)) = es.filter fun e => decide (e.1 ≤ cl) := by
  induction es with
  | nil => rfl
  | cons e re ih =>
    obtain ⟨he, hr⟩ := pairwise_cons.1 h
    rw [takeWhile_cons, filter_cons]
    split
    · rw [ih hr]
    next hl =>
    symm
    apply filter_eq_nil_iff.2
    rintro e' he'
    have := he e' he'
    simp only [decide_eq_true_eq, not_le] at hl ⊢
    omega

theorem currentState_eq {cl : ℕ} (hv : validateIpMap im info) (ht : catchTable3 im info = some ta) :
    currentState im info cl = some (ta.stateAt cl) := by
  unfold catchTable3 at ht
  simp only [bind_eq_bind, bind_eq_some_iff] at ht
  obtain ⟨ss, hs, rs, -, ht⟩ := ht
  cases ht
  obtain ⟨ho, ha, -⟩ := validateIpMapFrom_spec hs hv
  unfold currentState CatchTable.stateAt
  rw [currentStateFrom_eq hs, takeWhile_eq_filter cl ho]
  apply filter_eq_some_iff.2
  refine ⟨rfl, ?_⟩
  cases hl : (ss.filter fun e => decide (e.1 ≤ cl)).getLast? with
  | none => rfl
  | some e => exact ha e (mem_of_mem_filter (mem_of_getLast? hl))

end Fh3

/-! ### FH4 -/

def Fh4Handler.clause (h : Fh4Handler) : CatchClause :=
  ⟨if h.hasType then some h.typeRva else none, h.handlerRva,
    if h.hasCatchObject then some ⟨h.catchObject, h.adjectives⟩ else none⟩

/-- The clauses of a try block of FH4; there are none without a map. -/
def fh4Handlers (image : ImageReader) (functionBegin : ℕ) (b : Fh4TryBlock) :
    Option (List Fh4Handler) :=
  if b.handlerMap = 0 then some [] else readFh4Handlers image functionBegin b.handlerMap

def region4 (image : ImageReader) (functionBegin : ℕ) (b : Fh4TryBlock) : Option TryRegion :=
  (fh4Handlers image functionBegin b).map fun handlers =>
    { tryLow := b.tryLow
      tryHigh := b.tryHigh
      catchHigh := b.catchHigh
      clauses := handlers.map Fh4Handler.clause }

/-- The entries of the IP map: their addresses and states. -/
def fh4StatesFrom (image : ImageReader) (functionBegin : ℕ) :
    ℕ → ℕ → ℕ → Option (List (ℕ × ℤ))
  | 0, _, _ => some []
  | remaining + 1, cursor, ipOffset => do
    let ((ipOffset, candidate), cursor) ← readFh4IpEntry image ipOffset cursor
    let rest ← fh4StatesFrom image functionBegin remaining cursor ipOffset
    some ((functionBegin + ipOffset, candidate) :: rest)

def fh4States (image : ImageReader) (info : Fh4FuncInfo) : Option (List (ℕ × ℤ)) :=
  if info.ipMap = 0 then some []
  else do
    let (count, cursor) ← readFh4Unsigned image info.ipMap
    if kMaxFh4Entries < count then none
    else fh4StatesFrom image info.functionBegin count cursor 0

/-- The tables of an FH4 `FuncInfo`. -/
def catchTable4 (image : ImageReader) (info : Fh4FuncInfo) (tryMap : List Fh4TryBlock) :
    Option CatchTable := do
  let states ← fh4States image info
  let regions ← tryMap.mapM (region4 image info.functionBegin)
  some { states, regions }

section Fh4

variable {image ie im : ImageReader} {info : Fh4FuncInfo} {record rc rd : ExceptionRecordAmd64}
  {beg : ℕ} {g : GuestStack} {establisher : UInt64}

theorem fh4IpStateFrom_eq {c rm cu io : ℕ} (h : fh4StatesFrom im beg rm cu io = some es) :
    fh4IpStateFrom im c rm cu io st = some
      (((es.filter fun e => decide (e.1 ≤ beg + c)).getLast?.map Prod.snd).getD st) := by
  induction rm generalizing cu io st es with
  | zero =>
    cases h
    rfl
  | succ rm ih =>
    simp only [fh4StatesFrom, bind_eq_bind, bind_eq_some_iff] at h
    obtain ⟨⟨⟨o, ca⟩, a⟩, hr, re, hre, he⟩ := h
    cases he
    simp only [fh4IpStateFrom, hr, bind_eq_bind, bind_some]
    rw [ih hre, filter_cons]
    by_cases hl : o ≤ c
    · simp only [hl, if_true, show beg + o ≤ beg + c by omega, decide_true, getLast?_cons]
      cases (re.filter fun e => decide (e.1 ≤ beg + c)).getLast? <;> rfl
    · simp [hl, show ¬beg + o ≤ beg + c by omega, decide_false, Bool.false_eq_true]

theorem fh4IpStateFrom_bounds {c re cu io : ℕ} {st o : ℤ}
    (hs : kInvalidState ≤ st ∧ st < kMaxFh4Entries) (h : fh4IpStateFrom im c re cu io st = some o) :
    kInvalidState ≤ o ∧ o < kMaxFh4Entries := by
  induction re generalizing cu io st with
  | zero =>
    cases h
    exact hs
  | succ re ih =>
    simp only [fh4IpStateFrom, bind_eq_bind, bind_eq_some_iff] at h
    obtain ⟨⟨⟨off, ca⟩, a⟩, hr, he⟩ := h
    refine ih ?_ he
    split
    · simp only [readFh4IpEntry, bind_eq_bind, bind_eq_some_iff,
        ite_none_left_eq_some, some.injEq, Prod.mk.injEq] at hr
      obtain ⟨_, -, -, ⟨e, _⟩, -, -, hm, ⟨-, rfl⟩, -⟩ := hr
      refine ⟨?_, lt_of_not_ge hm⟩
      split
      · exact le_rfl
      · simp only [kInvalidState]
        omega
    · exact hs

theorem readFh4IpState_eq {tm : List Fh4TryBlock} {cl : ℕ}
    (hs : readFh4IpState im info cl = some st) (ht : catchTable4 im info tm = some ta) :
    st = ta.stateAt cl ∧ kInvalidState ≤ st ∧ st < kMaxFh4Entries := by
  unfold catchTable4 at ht
  simp only [bind_eq_bind, bind_eq_some_iff] at ht
  obtain ⟨ss, ha, rs, -, ht⟩ := ht
  cases ht
  unfold readFh4IpState at hs
  unfold fh4States at ha
  split at hs
  · next hm =>
    rw [if_pos hm] at ha
    cases ha
    cases hs
    exact ⟨rfl, by decide⟩
  · next hm =>
    rw [if_neg hm] at ha
    split at hs
    · cases hs
    next hb =>
    simp only [bind_eq_bind, bind_eq_some_iff, ite_none_left_eq_some]
      at hs ha
    obtain ⟨⟨n, c⟩, hc, -, hl⟩ := hs
    obtain ⟨_, hc', -, he⟩ := ha
    cases hc.symm.trans hc'
    refine ⟨?_, fh4IpStateFrom_bounds (by decide) hl⟩
    rw [fh4IpStateFrom_eq he] at hl
    rw [show info.functionBegin + (cl - info.functionBegin) = cl by omega] at hl
    exact (some.inj hl).symm

/-! ### The clauses of FH4 -/

theorem forall_readMany {α : Type} {P : α → Prop} {re : ℕ → Option (α × ℕ)}
    (hr : ∀ c a af, re c = some (a, af) → P a) {n c af : ℕ}
    {l : List α} (h : readMany re n c = some (l, af)) : ∀ a ∈ l, P a := by
  induction n generalizing c af l with
  | zero =>
    cases h
    simp
  | succ n ih =>
    simp only [readMany, bind_eq_bind, bind_eq_some_iff] at h
    obtain ⟨⟨a, ne⟩, ha, ⟨rt, la⟩, he, hl⟩ := h
    cases hl
    exact forall_mem_cons.2 ⟨hr _ a _ ha, fun a' ha' => ih he a' ha'⟩

theorem ne_zero_of_readFh4Disp {c ra a : ℕ}
    (h : readFh4Disp im false c = some (ra, a)) : ra ≠ 0 := by
  unfold readFh4Disp at h
  split at h
  · cases h
  simp only [bind_eq_bind, bind_eq_some_iff] at h
  obtain ⟨r', -, h⟩ := h
  split at h
  · cases h
  next ho =>
  split at h
  · cases h
    push Not at ho
    exact ho.2 rfl
  · cases h

theorem typeRva_ne_zero {c a : ℕ} {h : Fh4Handler} (hr : readFh4Handler im beg c = some (h, a))
    (ht : h.hasType) : h.typeRva ≠ 0 := by
  unfold readFh4Handler at hr
  simp only [bind_eq_bind, bind_eq_some_iff, ite_none_left_eq_some] at hr
  obtain ⟨he, -, -, _, -, ⟨ad, c₁⟩, -, ⟨tr, c₂⟩, hd, _, -, _, -, _, -, hh⟩ := hr
  cases hh
  unfold readIf at hd
  rw [if_pos ht] at hd
  exact ne_zero_of_readFh4Disp hd

theorem typeRva_ne_zero_of_mem {b : Fh4TryBlock} {ha : List Fh4Handler}
    (h : fh4Handlers im beg b = some ha) : ∀ c ∈ ha, c.hasType → c.typeRva ≠ 0 := by
  unfold fh4Handlers readFh4Handlers at h
  split at h
  · cases h
    simp
  · simp only [bind_eq_bind, bind_eq_some_iff, ite_none_left_eq_some, map_eq_some_iff] at h
    obtain ⟨_, -, -, ⟨l, a⟩, hm, rfl⟩ := h
    exact forall_readMany (fun _ _ _ hr => typeRva_ne_zero hr) hm

theorem findSome?_placed {β : Type} {f : Fh4Handler → Option CatchTarget} {V : CatchTarget → β}
    {W : CatchClause → β} {p : CatchClause → Bool} {ha : List Fh4Handler}
    (h : ∀ c ∈ ha, (f c).map V = if p c.clause then some (W c.clause) else none) :
    (ha.findSome? f).map V = ((ha.map Fh4Handler.clause).find? p).map W := by
  induction ha with
  | nil => rfl
  | cons c re ih =>
    have hc := h c mem_cons_self
    have ih' := ih fun c' hc' => h c' (mem_cons_of_mem _ hc')
    rw [findSome?_cons, map_cons, find?_cons]
    cases hf : f c with
    | none =>
      rw [hf] at hc
      cases hp : p c.clause with
      | true => simp [hp] at hc
      | false => exact ih'
    | some t =>
      rw [hf] at hc
      cases hp : p c.clause with
      | true => simpa [hp] using hc
      | false => simp [hp] at hc

/-- **The two passes over the clauses.** -/
theorem fh4PassTarget_placed {index : ℕ} {ha : List Fh4Handler}
    (hne : ∀ c ∈ ha, c.hasType → c.typeRva ≠ 0) {lo high l : ℤ} :
    (fh4PassTarget image record index ha).map (CatchTarget.placed g record establisher) =
      (TryRegion.passMatch ⟨lo, high, l, ha.map Fh4Handler.clause⟩
        (thrownTypes image record)).map fun c =>
          (c.choice index, c.places image g record establisher) := by
  have ht := @findSome?_placed _ (passTarget image record index 0)
    (CatchTarget.placed g record establisher)
    (fun c => (c.choice index, c.places image g record establisher))
    (fun c => c.typeRva.isSome && c.takes (thrownTypes image record)) ha (by
      intro c hc
      unfold passTarget Fh4Handler.clause CatchClause.takes
      cases hy : c.hasType with
      | false => simp
      | true =>
        have hn := hne c hc hy
        have hf := @isSome_findThrownCatchable image record c.typeRva
        cases hca : findThrownCatchable image record c.typeRva with
        | none =>
          rw [hca] at hf
          have hm : c.typeRva ∉ thrownTypes image record := by simpa using hf.symm
          simp [hm]
        | some t =>
          rw [hca] at hf
          have hm : c.typeRva ∈ thrownTypes image record := by simpa using hf.symm
          cases ho : c.hasCatchObject <;>
            simp [hn, hm, hca, CatchTarget.placed, CatchTarget.choice, CatchClause.choice,
              CatchClause.places, placeCatchObject])
  have he := @findSome?_placed _ (passTarget image record index 1)
    (CatchTarget.placed g record establisher)
    (fun c => (c.choice index, c.places image g record establisher))
    (fun c => c.typeRva.isNone) ha (by
      intro c _
      unfold passTarget Fh4Handler.clause
      cases c.hasType with
      | false =>
        cases ho : c.hasCatchObject <;>
          simp [CatchTarget.placed, CatchTarget.choice, CatchClause.choice, CatchClause.places,
            placeCatchObject]
      | true => simp)
  unfold fh4PassTarget TryRegion.passMatch TryRegion.typedMatch
  rw [findSome?_cons, findSome?_cons, findSome?_nil]
  cases hi : ha.findSome? (passTarget image record index 0) with
  | some t =>
    rw [hi] at ht
    obtain ⟨c, hc, hh⟩ := map_eq_some_iff.1 ht.symm
    rw [hc, some_or, map_some, map_some, hh]
  | none =>
    rw [hi] at ht
    rw [map_eq_none_iff.1 ht.symm, none_or, ← he]
    cases ha.findSome? (passTarget image record index 1) <;> rfl

/-- **The loop of `find_fh4_catch` selects among the blocks that pass its test.** -/
theorem findFh4CatchFrom_placed {tm : List Fh4TryBlock} {ind : ℕ}
    {rs : List TryRegion} (h : tm.mapM (region4 ie beg) = some rs) :
    (findFh4CatchFrom ie beg rc state tm ind).map (CatchTarget.placed g rc establisher) =
      (rs.zipIdx ind).findSome? fun t => if t.1.passes state then
        (t.1.passMatch (thrownTypes ie rc)).map fun c =>
          (c.choice t.2, c.places ie g rc establisher) else none := by
  induction tm generalizing ind rs with
  | nil =>
    obtain rfl : rs = [] := (some.inj h).symm
    rfl
  | cons b re ih =>
    rw [mapM_cons] at h
    simp only [bind_eq_bind, bind_eq_some_iff, Option.pure_def] at h
    obtain ⟨r, hr, r', he, hg⟩ := h
    cases hg
    obtain ⟨ha, hh, rfl⟩ := map_eq_some_iff.1 hr
    rw [findFh4CatchFrom, zipIdx_cons, findSome?_cons]
    have hs : b.skips state = !TryRegion.passes ⟨b.tryLow, b.tryHigh, b.catchHigh,
        ha.map Fh4Handler.clause⟩ state := by
      unfold Fh4TryBlock.skips TryRegion.passes TryRegion.reaches
      rw [Bool.eq_iff_iff]
      simp only [Bool.or_eq_true, Bool.and_eq_true, Bool.not_eq_true', decide_eq_true_eq,
        Bool.eq_false_iff, ne_eq]
      omega
    rw [hs]
    cases TryRegion.passes ⟨b.tryLow, b.tryHigh, b.catchHigh, ha.map Fh4Handler.clause⟩ state with
    | false => simpa using ih he
    | true =>
      dsimp only
      rw [if_pos rfl, ← fh4PassTarget_placed (typeRva_ne_zero_of_mem hh)]
      by_cases hm : b.handlerMap = 0
      · rw [if_pos hm]
        unfold fh4Handlers at hh
        rw [if_pos hm] at hh
        cases hh
        exact ih he
      · rw [if_neg hm]
        unfold fh4Handlers at hh
        rw [if_neg hm] at hh
        rw [hh]
        dsimp only
        cases fh4PassTarget ie rc ind ha with
        | some t => rfl
        | none => exact ih he

end Fh4

/-! ### The handlers -/

def CxxAnswer.choice : CxxAnswer → Option CatchChoice
  | .catch target _ => some target.choice
  | _ => none

/-- What `cxx_frame_handler3` selects in the search phase. -/
def selected3 (image : ImageReader) (record : ExceptionRecordAmd64) (d : DispatcherContextAmd64) :
    Option CatchTarget :=
  (readFrame3 image d).bind fun frame => findCatch image frame.1 record frame.2

/-- What `cxx_frame_handler4` selects in the search phase. -/
def selected4 (image : ImageReader) (record : ExceptionRecordAmd64) (d : DispatcherContextAmd64) :
    Option CatchTarget :=
  (readFrame4 image d false).bind fun frame =>
    findFh4Catch image frame.info frame.tryMap record frame.state

section Handlers

variable {image ie im : ImageReader} {record rc rd : ExceptionRecordAmd64}
  {d : DispatcherContextAmd64}
  {g : GuestStack}

theorem cxxFrameHandler3_choice (hc : rd.code = kCxxException)
    (hs : rd.flags &&& kExceptionUnwinding = 0) :
    (cxxFrameHandler3 im g rd d).choice = (selected3 im rd d).map CatchTarget.choice := by
  unfold cxxFrameHandler3 selected3
  rw [if_neg (not_not.2 hc)]
  cases readFrame3 im d with
  | none => rfl
  | some fr =>
    obtain ⟨info, st⟩ := fr
    dsimp only [bind_some]
    rw [if_neg (not_not.2 hs)]
    cases findCatch im info rd st <;> rfl

/-- In the search phase `cxx_frame_handler4` answers with what it selects, if the object can be
placed. -/
theorem cxxFrameHandler4_choice (hc : rd.code = kCxxException)
    (hs : rd.flags &&& kExceptionUnwinding = 0) :
    (cxxFrameHandler4 im g rd d).choice = (((selected4 im rd d).map
      (CatchTarget.placed g rd d.establisherFrame)).filter Prod.snd).map Prod.fst := by
  unfold cxxFrameHandler4 selected4
  simp only [hc, hs, ne_eq, not_true_eq_false, decide_false, if_false]
  cases readFrame4 im d false with
  | none => rfl
  | some fr =>
    simp only [bind_some]
    cases findFh4Catch im fr.info fr.tryMap rd fr.state with
    | none => rfl
    | some t =>
      cases hp : placeCatchObject g rd d.establisherFrame t with
      | none => simp [hp, CxxAnswer.choice, CatchTarget.placed]
      | some g' => simp [hp, CxxAnswer.choice, CatchTarget.placed]

theorem selected3_eq {info : FuncInfo} {control : ℕ}
    (hf : readFrame3 image d = some (info, state)) (hc : controlRva image d = some control)
    (ht : catchTable3 image info = some table) :
    (selected3 image record d).map CatchTarget.choice =
      table.regions.zipIdx.findSome? fun t => if t.1.reaches (table.stateAt control) then
        (t.1.firstMatch (thrownTypes image record)).map (·.choice t.2) else none := by
  have hs : state = table.stateAt control := by
    unfold readFrame3 at hf
    simp only [bind_eq_bind, bind_eq_some_iff, ite_none_left_eq_some] at hf
    obtain ⟨_, -, i', -, hv, c', hc', st', hs, heq⟩ := hf
    cases heq
    cases hc.symm.trans hc'
    simp only [Bool.or_eq_true, Bool.not_eq_true', not_or, Bool.not_eq_false] at hv
    rw [currentState_eq hv.2 ht] at hs
    exact (some.inj hs).symm
  unfold selected3
  rw [hf, hs]
  unfold catchTable3 at ht
  simp only [bind_eq_bind, bind_eq_some_iff] at ht
  obtain ⟨ss, ha, rs, hr, ht⟩ := ht
  cases ht
  exact findCatchFrom_choice hr

theorem selected4_eq {fr : Fh4Frame} {cl : ℕ}
    (hf : readFrame4 im d false = some fr) (hc : controlRva im d = some cl)
    (ht : catchTable4 im fr.info fr.tryMap = some ta) :
    (selected4 im rd d).map (CatchTarget.placed g rd d.establisherFrame) =
      ta.regions.zipIdx.findSome? fun t => if t.1.passes (ta.stateAt cl) then
        (t.1.passMatch (thrownTypes im rd)).map fun c =>
          (c.choice t.2, c.places im g rd d.establisherFrame) else none := by
  have hs : readFh4IpState im fr.info cl = some fr.state := by
    unfold readFrame4 at hf
    simp only [bind_eq_bind, bind_eq_some_iff, ite_none_left_eq_some] at hf
    obtain ⟨_, -, -, _, -, _, -, info, -, _, -, _, -, c', hc', st, hs, -, heq⟩ := hf
    cases heq
    cases hc.symm.trans hc'
    exact hs
  obtain ⟨heq, hl, hh⟩ := readFh4IpState_eq hs ht
  unfold selected4
  rw [hf, bind_some]
  unfold findFh4Catch
  rw [if_neg (by omega), heq]
  unfold catchTable4 at ht
  simp only [bind_eq_bind, bind_eq_some_iff] at ht
  obtain ⟨ss, ha, rs, hr, ht⟩ := ht
  cases ht
  exact findFh4CatchFrom_placed hr

end Handlers

/-- **In the search phase both handlers select the first clause that takes the object, of the
first block that covers the state and has one, exactly if the first block they let through covers
the state and, for FH4, has its ellipsis last and names an object that can be placed.** -/
theorem catch_selected (image : ImageReader) (g : GuestStack) (record : ExceptionRecordAmd64)
    (d : DispatcherContextAmd64) (control : ℕ) (hcode : record.code = kCxxException)
    (hsearch : record.flags &&& kExceptionUnwinding = 0)
    (hcontrol : controlRva image d = some control) (table : CatchTable) :
    (∀ info state, readFrame3 image d = some (info, state) → catchTable3 image info = some table →
      ((cxxFrameHandler3 image g record d).choice =
          table.select control (thrownTypes image record) ↔
        table.SelectedBy3 control (thrownTypes image record))) ∧
    (∀ frame, readFrame4 image d false = some frame →
      catchTable4 image frame.info frame.tryMap = some table →
      ((cxxFrameHandler4 image g record d).choice =
          table.select control (thrownTypes image record) ↔
        table.SelectedBy4 control (thrownTypes image record)
          (CatchClause.places image g record d.establisherFrame))) := by
  constructor
  · intro info state hf ht
    rw [cxxFrameHandler3_choice hcode hsearch, selected3_eq hf hcontrol ht]
    exact select3_iff
  · intro frame hf ht
    rw [cxxFrameHandler4_choice hcode hsearch, selected4_eq hf hcontrol ht]
    exact select4_iff

/-- The tables of a function with one `try`, its state 0, and an ellipsis. -/
def fh3Image : ImageReader where
  imageBase := 0x10000
  bytes := [8, 0, kFuncInfoMagicV3, 2, 48, 1, 64, 1, 84, 0, 0, 0, kMaxU32, kMaxU32, kMaxU32, kMaxU32,
    0, 0, 1, 1, 92, 0, 0, kCatchAll, 0, 0, 4, 0].flatMap (toLE 4)

/-- The same in FH4, where the code has the states of the map at `ipMap`, or none. -/
def fh4Image (ipMap : ℕ) : ImageReader where
  imageBase := 0x10000
  bytes := toLE 4 12 ++ toLE 4 0 ++ toLE 4 0 ++ [0x10] ++ toLE 4 24 ++ toLE 4 ipMap ++ [0, 0, 0] ++
    [2, 0, 0, 0] ++ toLE 4 32 ++ [2, 0] ++ toLE 4 8 ++ [0, 0] ++ [2, 0, 2]

def throwingFrame : DispatcherContextAmd64 where
  controlPc := 0x10000
  imageBase := 0x10000
  functionEntry := 0x10008
  establisherFrame := 0
  languageHandler := 0
  handlerData := 0x10000

def noMemory : GuestStack where
  thread := { teb := none, byte := fun _ => none }
  writable _ := false
  mapped _ _ _ := false

def throwingRecord : ExceptionRecordAmd64 := { code := kCxxException }

/-- A throw in the `try` is caught by the ellipsis, in both forms of the tables. -/
theorem catch_selected_inside :
    (cxxFrameHandler3 fh3Image noMemory throwingRecord throwingFrame).choice =
      some ⟨0, 4, true⟩ ∧
    (cxxFrameHandler4 (fh4Image 40) noMemory throwingRecord throwingFrame).choice =
      some ⟨0, 8, true⟩ := by
  constructor
  · obtain ⟨⟨info, state⟩, hf, ht⟩ := bind_eq_some_iff.mp
      (show ((readFrame3 fh3Image throwingFrame).bind fun f => catchTable3 fh3Image f.1) =
        some ⟨[(0, 0)], [⟨0, 0, 1, [⟨none, 4, none⟩]⟩]⟩ by decide +kernel)
    rw [((catch_selected fh3Image noMemory throwingRecord throwingFrame 0 rfl (by decide)
      (by decide +kernel) _).1 info state hf ht).mpr (by decide +kernel)]
    decide +kernel
  · obtain ⟨fr, hf, ht⟩ := bind_eq_some_iff.mp
      (show ((readFrame4 (fh4Image 40) throwingFrame false).bind fun f =>
        catchTable4 (fh4Image 40) f.info f.tryMap) =
        some ⟨[(0, 0)], [⟨0, 0, 0, [⟨none, 8, none⟩]⟩]⟩ by decide +kernel)
    rw [((catch_selected (fh4Image 40) noMemory throwingRecord throwingFrame 0 rfl (by decide)
      (by decide +kernel) _).2 fr hf ht).mpr (by decide +kernel)]
    decide +kernel

/-- The code has no state, and the FH4 handler selects a clause all the same. -/
theorem not_catch_selected : ∃ frame table,
    readFrame4 (fh4Image 0) throwingFrame false = some frame ∧
    catchTable4 (fh4Image 0) frame.info frame.tryMap = some table ∧
    table.stateAt 0 = kInvalidState ∧
    table.select 0 (thrownTypes (fh4Image 0) throwingRecord) = none ∧
    (cxxFrameHandler4 (fh4Image 0) noMemory throwingRecord throwingFrame).choice =
      some ⟨0, 8, true⟩ := by
  obtain ⟨frame, hf, ht⟩ := bind_eq_some_iff.mp
    (show ((readFrame4 (fh4Image 0) throwingFrame false).bind fun f =>
      catchTable4 (fh4Image 0) f.info f.tryMap) =
      some ⟨[], [⟨0, 0, 0, [⟨none, 8, none⟩]⟩]⟩ by decide +kernel)
  exact ⟨frame, _, hf, ht, by decide +kernel, by decide +kernel, by decide +kernel⟩

end TradutorLinux.Runtime
