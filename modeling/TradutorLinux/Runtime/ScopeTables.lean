import TradutorLinux.Runtime.CxxTables

/-!
# Scope tables

`__C_specific_handler` asks the filters of the `__try` scopes that contain an
address.  The table lists inner scopes before outer ones; the runtime reads it
from its end.  A scope without a filter is a `__finally`.

## Main definitions

* `cSpecificHandler` — the handler, with the scopes whose filter it looks at.
* `askInnermost`, `AsksOutermost`

## Main results

* `covering_nested`, `selectsInnermost_iff`
-/

namespace TradutorLinux.Runtime

open List

/-! ### The handler -/

/-- A record of `SCOPE_TABLE_AMD64`. -/
structure ScopeRecord where
  beginRva : ℕ
  endRva : ℕ
  filter : ℕ
  target : ℕ
deriving DecidableEq

/-- How the search over the scopes ends. -/
inductive ScopeEnd
  | search
  | execution
  | invalid
  | handler (scopeIndex targetRva : ℕ)
deriving DecidableEq

def ScopeEnd.disposition : ScopeEnd → Int32
  | search => kExceptionContinueSearch
  | execution => kExceptionContinueExecution
  | invalid => kInvalidDisposition
  | handler _ _ => kExceptionExecuteHandler

section

variable (image im : ImageReader) (answers ans : ℕ → Int32)

/-- The record in 16 bytes that are in the image. -/
def scopeRecord (rva : ℕ) : ScopeRecord :=
  let word := fun i => ofLE (slice image.bytes (rva + 4 * i) 4)
  ⟨word 0, word 1, word 2, word 3⟩

/-- `image_range`, on the main image. -/
def pointerRange (pointer size : ℕ) : Bool :=
  decide (image.imageBase ≤ pointer) && image.range (pointer - image.imageBase) size

def scopeTable (data : ℕ) : Option (List ScopeRecord) :=
  let rva := data - image.imageBase
  let count := ofLE (slice image.bytes rva 4)
  if !pointerRange image data 4 || decide (1024 < count) ||
      !pointerRange image data (4 + count * 16) then none
  else some ((range count).map fun i => scopeRecord image (rva + 4 + i * 16))

/-- The scope contains the address. -/
def ScopeRecord.covers (control : ℕ) (r : ScopeRecord) : Bool :=
  decide (r.beginRva < r.endRva) && image.range r.beginRva 1 && image.range (r.endRva - 1) 1 &&
    decide (r.beginRva ≤ control) && decide (control < r.endRva)

/-- The loop over the records in the order in which they are read; the filter of the scope `i`
answers `answers i`.  With the end, the scopes whose filter was looked at. -/
def scanScopes (control : ℕ) : List (ScopeRecord × ℕ) → ScopeEnd × List ℕ
  | [] => (.search, [])
  | (r, i) :: rest =>
    if !r.covers image control then scanScopes control rest
    else
      let asked := if r.filter = 0 then [] else [i]
      if r.filter ≠ 0 ∧ r.filter ≠ 1 ∧ image.range r.filter 1 = false then (.invalid, asked)
      else
        let result := if r.filter = 1 then 1 else if r.filter ≠ 0 then answers i
          else kVectoredContinueSearch
        if result = -1 then (.execution, asked)
        else if result = 0 then
          let behind := scanScopes control rest
          (behind.1, asked ++ behind.2)
        else if result ≠ 1 ∨ r.target = 0 ∨ image.range r.target 1 = false then (.invalid, asked)
        else (.handler i r.target, asked)

/-- The checks of `c_specific_handler`: the table and the address in the image.  `context` is
whether there is one. -/
def scopesOf (record : Option ExceptionRecordAmd64) (context : Bool)
    (dispatcher : Option DispatcherContextAmd64) : Option (List ScopeRecord × ℕ) := do
  let record ← record
  let d ← dispatcher
  if record.parameterCount > kExceptionParameters ∨ context = false ∨ d.handlerData = 0 ∨
      image.imageBase = 0 then none
  else
    let table ← scopeTable image d.handlerData.toNat
    let pc := d.controlPc.toNat
    if pc < image.imageBase ∨ image.bytes.length ≤ pc - image.imageBase then none
    else some (table, (pc - image.imageBase) % 2 ^ 32)

/-- `c_specific_handler`. -/
def cSpecificHandler (record : Option ExceptionRecordAmd64) (context : Bool)
    (dispatcher : Option DispatcherContextAmd64) : ScopeEnd × List ℕ :=
  match scopesOf image record context dispatcher with
  | none => (.invalid, [])
  | some (table, control) => scanScopes image answers control table.zipIdx.reverse

/-! ### From the innermost outwards -/

/-- The scopes that contain the address, in the order of the table. -/
def covering (control : ℕ) (table : List ScopeRecord) : List (ScopeRecord × ℕ) :=
  table.zipIdx.filter fun x => x.1.covers image control

/-- What the filter of a scope says; `none` continues the search. -/
def verdict (x : ScopeRecord × ℕ) : Option ScopeEnd :=
  let handles := if x.1.target = 0 ∨ image.range x.1.target 1 = false then .invalid
    else .handler x.2 x.1.target
  if x.1.filter = 1 then some handles
  else if image.range x.1.filter 1 = false then some .invalid
  else if answers x.2 = -1 then some .execution
  else if answers x.2 = 0 then none
  else some (if answers x.2 = 1 then handles else .invalid)

/-- Scopes asked one after the other; a `__finally` has no filter. -/
def askInnermost : List (ScopeRecord × ℕ) → ScopeEnd × List ℕ
  | [] => (.search, [])
  | x :: rest =>
    if x.1.filter = 0 then askInnermost rest
    else
      match verdict image answers x with
      | some ended => (ended, [x.2])
      | none => ((askInnermost rest).1, x.2 :: (askInnermost rest).2)

end

/-- The first scope is inside the second, or they are apart. -/
def InnerFirst (r s : ScopeRecord) : Prop :=
  s.beginRva ≤ r.beginRva ∧ r.endRva ≤ s.endRva ∨ r.endRva ≤ s.beginRva ∨ s.endRva ≤ r.beginRva

instance : DecidableRel InnerFirst := fun _ _ => inferInstanceAs (Decidable (_ ∨ _))

/-- **The scopes at an address are listed from the innermost outwards.** -/
theorem covering_nested (im : ImageReader) {c : ℕ} {t : List ScopeRecord}
    (h : t.Pairwise InnerFirst) : (covering im c t).Pairwise fun x y =>
      y.1.beginRva ≤ x.1.beginRva ∧ x.1.endRva ≤ y.1.endRva := by
  have hz : t.zipIdx.Pairwise fun x y => InnerFirst x.1 y.1 := by
    rwa [← pairwise_map, zipIdx_map_fst]
  refine (hz.filter _).imp_of_mem fun {x y} hx hy hi => ?_
  have hx' := (mem_filter.1 hx).2
  have hy' := (mem_filter.1 hy).2
  simp only [ScopeRecord.covers, Bool.and_eq_true, decide_eq_true_eq] at hx' hy'
  unfold InnerFirst at hi
  omega

/-- No scope inside the outermost one has a filter; and where there are such scopes, the filter of
the outermost one does not continue the search. -/
def AsksOutermost (image : ImageReader) (answers : ℕ → Int32) (l : List (ScopeRecord × ℕ)) : Prop :=
  l = [] ∨ ∃ inner x, l = inner ++ [x] ∧ (∀ y ∈ inner, y.1.filter = 0) ∧ x.1.filter ≠ 0 ∧
    (inner = [] ∨ verdict image answers x ≠ none)

section Order

variable {image im : ImageReader} {answers ans : ℕ → Int32} {control c : ℕ}
  {l inner ir : List (ScopeRecord × ℕ)}
  {x : ScopeRecord × ℕ}

theorem scanScopes_filter : scanScopes im ans c l =
    scanScopes im ans c (l.filter fun x => x.1.covers im c) := by
  induction l with
  | nil => rfl
  | cons x l ih =>
    cases h : x.1.covers im c
    · simp [scanScopes, h, ih]
    · simp [scanScopes, h, ih]

theorem scanScopes_cons (h : x.1.covers im c) :
    scanScopes im ans c (x :: l) = if x.1.filter = 0 then (.execution, []) else
      match verdict im ans x with
      | some ended => (ended, [x.2])
      | none => ((scanScopes im ans c l).1, x.2 :: (scanScopes im ans c l).2) := by
  obtain ⟨r, i⟩ := x
  simp only [scanScopes, h, Bool.not_true, Bool.false_eq_true, if_false]
  by_cases hz : r.filter = 0
  · simp [hz, kVectoredContinueSearch]
  simp only [verdict, hz, ne_eq, if_false, if_true, not_false_eq_true, true_and]
  by_cases ho : r.filter = 1
  · simp only [ho]
    by_cases ht : r.target = 0 ∨ im.range r.target 1 = false <;> simp [ht]
  cases hr : im.range r.filter 1
  · simp [ho]
  · by_cases he : ans i = -1
    · simp [ho, he]
    by_cases hs : ans i = 0
    · simp [ho, hs]
    · by_cases hh : ans i = 1
      · by_cases ht : r.target = 0 ∨ im.range r.target 1 = false <;>
          simp [ho, hh, ht]
      · simp [ho, he, hs, hh]

theorem askInnermost_append (h : ∀ y ∈ ir, y.1.filter = 0) :
    askInnermost im ans (ir ++ l) = askInnermost im ans l := by
  induction ir with
  | nil => rfl
  | cons y ir ih =>
    rw [cons_append, askInnermost, if_pos (h y mem_cons_self)]
    exact ih fun z hz => h z (mem_cons_of_mem y hz)

theorem askInnermost_of_nil (h : (askInnermost im ans l).2 = []) :
    (askInnermost im ans l).1 = .search := by
  induction l with
  | nil => rfl
  | cons y l ih =>
    rw [askInnermost] at h ⊢
    split at h
    · rw [if_pos ‹_›]
      exact ih h
    · split at h <;> cases h

theorem exists_of_askInnermost {i : ℕ} {a : List ℕ} (h : (askInnermost im ans l).2 = i :: a) :
    ∃ ir y o, l = ir ++ y :: o ∧ y.2 = i ∧ ∀ z ∈ ir, z.1.filter = 0 := by
  induction l with
  | nil => cases h
  | cons y l ih =>
    rw [askInnermost] at h
    split at h
    · next he =>
      obtain ⟨ir, z, o, rfl, hz, hn⟩ := ih h
      exact ⟨y :: ir, z, o, rfl, hz, forall_mem_cons.2 ⟨he, hn⟩⟩
    · have hi : y.2 = i := by split at h <;> exact (cons.inj h).1
      exact ⟨[], y, l, rfl, hi, nofun⟩

/-- **Reading from the end is asking from the innermost outwards exactly if there is one scope to
ask and it comes first.** -/
theorem scanScopes_reverse_iff (hc : ∀ y ∈ l, y.1.covers im c) (hn : (l.map Prod.snd).Nodup) :
    scanScopes im ans c l.reverse = askInnermost im ans l ↔ AsksOutermost im ans l := by
  rcases eq_nil_or_concat' l with rfl | ⟨ir, x, rfl⟩
  · exact iff_of_true rfl (.inl rfl)
  have hx := hc x (by simp)
  rw [reverse_append, reverse_singleton, singleton_append, scanScopes_cons hx]
  constructor
  · intro h
    by_cases hze : x.1.filter = 0
    · -- the runtime ends the search without asking
      rw [if_pos hze] at h
      have hs := askInnermost_of_nil (congrArg Prod.snd h).symm
      rw [← h] at hs
      cases hs
    rw [if_neg hze] at h
    have ha : ∃ asked, (askInnermost im ans (ir ++ [x])).2 = x.2 :: asked := by
      rw [← h]
      split <;> exact ⟨_, rfl⟩
    obtain ⟨asked, ha⟩ := ha
    obtain ⟨b, y, o, hl, hy, hb⟩ := exists_of_askInnermost ha
    -- the scopes are numbered apart, so the first one asked is the last one listed
    have ho : o = [] := by
      rcases eq_nil_or_concat' o with rfl | ⟨m, z, rfl⟩
      · rfl
      rw [← cons_append, ← append_assoc] at hl
      obtain rfl := (append_singleton_inj.1 hl).2
      rw [hl] at hn
      simp [hy, nodup_append] at hn
    subst ho
    obtain ⟨rfl, rfl⟩ := append_singleton_inj.1 hl
    refine .inr ⟨ir, x, rfl, hb, hze, ?_⟩
    by_contra hnot
    simp only [not_or, not_not] at hnot
    obtain ⟨hi, hno⟩ := hnot
    obtain ⟨r, z, rfl⟩ := (eq_nil_or_concat' ir).resolve_left hi
    have hz := hc z (by simp)
    rw [hno, askInnermost_append hb, askInnermost, if_neg hze, hno, reverse_append,
      reverse_singleton, singleton_append, scanScopes_cons hz, if_pos (hb z (by simp))] at h
    cases h
  · rintro (hni | ⟨i', x', heq, hfi, hf, he⟩)
    · simp at hni
    obtain ⟨rfl, rfl⟩ := append_singleton_inj.1 heq
    rw [askInnermost_append hfi, askInnermost, if_neg hf, if_neg hf]
    rcases he with rfl | he
    · rfl
    · obtain ⟨e, hen⟩ := Option.ne_none_iff_exists'.1 he
      rw [hen]

end Order

/-! ### The handler and the table -/

section Handler

variable (image im : ImageReader) (answers ans : ℕ → Int32) (record : Option ExceptionRecordAmd64)
  (context : Bool) (dispatcher : Option DispatcherContextAmd64)

/-- Where inner scopes are listed first, the handler asks from the innermost outwards. -/
def SelectsInnermost : Prop :=
  ∀ table control, scopesOf image record context dispatcher = some (table, control) →
    table.Pairwise InnerFirst → cSpecificHandler image answers record context dispatcher =
      askInnermost image answers (covering image control table)

/-- **The handler selects the innermost scope exactly if the outermost one is the only one to
ask.** -/
theorem selectsInnermost_iff : SelectsInnermost image answers record context dispatcher ↔
    ∀ table control, scopesOf image record context dispatcher = some (table, control) →
      table.Pairwise InnerFirst → AsksOutermost image answers (covering image control table) := by
  refine forall₂_congr fun table control => forall₂_congr fun hs _ => ?_
  have hn : ((covering image control table).map Prod.snd).Nodup := by
    refine Nodup.sublist (filter_sublist.map _) ?_
    rw [zipIdx_map_snd]
    exact nodup_range'
  have hc : ∀ y ∈ covering image control table, y.1.covers image control = true :=
    fun y hy => (mem_filter.mp hy).2
  rw [← scanScopes_reverse_iff hc hn, cSpecificHandler, hs, covering, ← filter_reverse]
  exact Eq.congr_left scanScopes_filter

end Handler

/-- Two scopes around the same address whose filters are constants: the outer one is selected. -/
theorem not_selectsInnermost : ¬SelectsInnermost
    ⟨0x10000, [2, 0, 0, 0, 1, 0, 0, 0, 3, 0, 0, 0, 1, 0, 0, 0, 8, 0, 0, 0,
      1, 0, 0, 0, 4, 0, 0, 0, 1, 0, 0, 0, 9, 0, 0, 0]⟩ (fun _ => 0) (some {}) true
    (some ⟨0x10002, 0x10000, 0, 0, 0, 0, 0x10000⟩) := by
  intro h
  have heq := h [⟨1, 3, 1, 8⟩, ⟨1, 4, 1, 9⟩] 2 (by decide) (by decide)
  revert heq
  decide

end TradutorLinux.Runtime
