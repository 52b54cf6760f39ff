import TradutorLinux.Runtime.CxxCatch
import TradutorLinux.Util.Descents

/-!
# The cleanups before a C++ catch

An unwind map links every state to the one outside of it, and says what has to be
done on the way.  Before a catch the frame has to be taken from its state down to
the one in which the `try` began, and no further.

## Main definitions

* `PlanFor` — the actions from a state down to, and not including, another.
* `leading`, `CleanedBy3`, `CleanedBy4`

## Main results

* `cleanup_planned`
-/

namespace TradutorLinux.Runtime

open List Option

/-- The plan is what the states that are passed from `start` down to the state `low`, without
`low`, have to do. -/
def PlanFor (next : ℕ → Option ℕ) (action : ℕ → Option CleanupAction) (start : Option ℕ) (low : ℤ)
    (plan : List CleanupAction) : Prop :=
  ∃ passed, Descent next (fun a => (a : ℤ) ≤ low) start passed ∧ plan = passed.filterMap action

/-- A state of the source, where -1 is no state. -/
def startState (state : ℤ) : Option ℕ := if state = kInvalidState then none else some state.toNat

/-- The cleanups a handler asks for. -/
def CxxAnswer.plan : CxxAnswer → List CleanupAction
  | .cleanup plan => plan
  | _ => []

/-- The states from `o` on up to the first without an action, if these and the one behind them
are not more than `fuel`. -/
def leading (next : ℕ → Option ℕ) (action : ℕ → Option CleanupAction) :
    ℕ → Option ℕ → Option (List ℕ)
  | _, none => some []
  | 0, some _ => none
  | fuel + 1, some s =>
    if action s = none then some [] else (leading next action fuel (next s)).map (s :: ·)

section Leading

variable {next nt ne : ℕ → Option ℕ} {action act ac : ℕ → Option CleanupAction} {fuel fu : ℕ}
  {o : Option ℕ}
  {l : List ℕ}

theorem descent_of_leading (h : leading next action fuel o = some l) :
    Descent next (fun s => action s = none) o l := by
  induction fuel generalizing o l with
  | zero =>
    cases o with
    | none =>
      cases h
      exact .ended
    | some s => cases h
  | succ fuel ih =>
    cases o with
    | none =>
      cases h
      exact .ended
    | some s =>
      rw [leading] at h
      split at h
      · next hs =>
        cases h
        exact .stopped hs
      · next hg =>
        obtain ⟨r, hr, rfl⟩ := map_eq_some_iff.1 h
        exact .step hg (ih hr)

/-- Where the plan of a chain stops at the first state without an action. -/
def CleanedBy3 (next : ℕ → Option ℕ) (action : ℕ → Option CleanupAction) (start : Option ℕ)
    (low : ℤ) : Prop :=
  ∃ passed, Descent next (fun a => (a : ℤ) ≤ low) start passed ∧
    match leading next action kMaxCleanupActions start with
    | some l => ∃ rest, passed = l ++ rest ∧ ∀ s ∈ rest, action s = none
    | none => ∀ s ∈ passed, action s = none

theorem filterMap_eq_nil_iff_forall : l.filterMap ac = [] ↔ ∀ s ∈ l, ac s = none :=
  filterMap_eq_nil_iff

/-- **The plan up to the first state without an action is the whole plan exactly if no state
with an action comes behind it, and the first state outside has none.** -/
theorem planFor_leading_iff {sta : Option ℕ} {low : ℤ} : PlanFor ne ac sta low
        (((leading ne ac kMaxCleanupActions sta).getD []).filterMap ac) ↔
      CleanedBy3 ne ac sta low := by
  apply exists_congr
  intro p
  apply and_congr_right
  intro hp
  cases he : leading ne ac kMaxCleanupActions sta with
  | none =>
    rw [getD_none, filterMap_nil, eq_comm]
    exact filterMap_eq_nil_iff_forall
  | some l =>
    have hl := descent_of_leading he
    rw [getD_some]
    constructor
    · intro heq
      rcases hl.total hp with ⟨r, rfl⟩ | ⟨m, rfl⟩
      · refine ⟨r, rfl, filterMap_eq_nil_iff_forall.1 ?_⟩
        simpa using heq
      · -- the plan goes on behind the `try`, and every state in it has an action
        have hm : m.filterMap ac = [] := by
          simpa using heq
        cases m with
        | nil => exact ⟨[], by simp, by simp⟩
        | cons s m =>
          have hs := filterMap_eq_nil_iff_forall.1 hm s mem_cons_self
          exact absurd hs (hl.not_stop (mem_append_right _ mem_cons_self))
    · rintro ⟨r, rfl, hr⟩
      rw [filterMap_append, filterMap_eq_nil_iff_forall.2 hr, append_nil]

end Leading

/-! ### FH3 -/

/-- The state outside of a state. -/
def next3 (image : ImageReader) (info : FuncInfo) (s : ℕ) : Option ℕ :=
  (readUnwindAction image info s).bind fun a => startState a.toState

/-- What has to be done in a state. -/
def action3 (image : ImageReader) (info : FuncInfo) (s : ℕ) : Option CleanupAction :=
  (readUnwindAction image info s).bind fun a => if a.acts then some a.cleanup else none

section Fh3

variable {image im : ImageReader} {info io : FuncInfo}

theorem natCast_ne_invalid (s : ℕ) : (s : ℤ) ≠ kInvalidState := by
  unfold kInvalidState
  omega

theorem readUnwindAction_of_valid (hv : validateUnwindMap image info) {s : ℕ}
    (hs : info.validState s) :
    ∃ a, readUnwindAction image info s = some a ∧ info.validState a.toState := by
  have hl : (s : ℤ) < info.maxState := by
    simp only [FuncInfo.validState, Bool.or_eq_true, Bool.and_eq_true, decide_eq_true_eq,
      natCast_ne_invalid, false_or] at hs
    exact hs.2
  have he := all_eq_true.1 hv s (mem_range.2 (by unfold FuncInfo.unwindCount; omega))
  obtain ⟨a, ha⟩ := isSome_iff_exists.1 he
  refine ⟨a, ?_, ?_⟩
  · unfold readUnwindAction
    rw [if_neg (by simp [natCast_ne_invalid, hs])]
    exact ha
  · unfold readUnwindEntry at ha
    simp only [bind_eq_bind, bind_eq_some_iff] at ha
    obtain ⟨_, -, ts, -, ar, -, ha⟩ := ha
    split at ha
    · next ho =>
      cases ha
      exact ho.1
    · cases ha

theorem valid_cases {st : ℤ} (h : io.validState st) : st = kInvalidState ∨ ∃ s : ℕ, st = s := by
  simp only [FuncInfo.validState, Bool.or_eq_true, Bool.and_eq_true, decide_eq_true_eq] at h
  rcases h with h | h
  · exact .inl h
  · exact .inr ⟨st.toNat, by omega⟩

@[simp] theorem startState_natCast (s : ℕ) : startState s = some s := by
  unfold startState
  rfl

@[simp] theorem startState_invalid : startState kInvalidState = none := rfl

/-- **The loop of `build_cleanup_plan`: the array of visited states only ever runs full.**  The
invariant is that a descent from here would go on from the states visited. -/
theorem buildCleanupPlanFrom_eq (hv : validateUnwindMap im io)
    {sta : Option ℕ} {r : ℕ} {visited : List ℕ} {st : ℤ} {p : List CleanupAction}
    (ht : io.validState st) (hr : visited.length + r = kMaxCleanupActions)
    (hp : p.length = visited.length)
    (hg : ∀ l, Descent (next3 im io) (fun s => action3 im io s = none)
      (startState st) l → Descent (next3 im io) (fun s => action3 im io s = none)
        sta (visited ++ l)) :
    buildCleanupPlanFrom im io r (visited.map Nat.cast) st p =
      (leading (next3 im io) (action3 im io) r (startState st)).map
        fun l => p ++ l.filterMap (action3 im io) := by
  induction r generalizing visited st p with
  | zero =>
    rcases valid_cases ht with rfl | ⟨s, rfl⟩
    · simp [buildCleanupPlanFrom, leading]
    · simp [buildCleanupPlanFrom, leading, natCast_ne_invalid]
  | succ r ih =>
    rcases valid_cases ht with rfl | ⟨s, rfl⟩
    · simp [buildCleanupPlanFrom, leading]
    obtain ⟨a, ha, hto⟩ := readUnwindAction_of_valid hv ht
    have hc : action3 im io s = if a.acts then some a.cleanup else none := by
      unfold action3
      rw [ha]
      rfl
    have he : next3 im io s = startState a.toState := by
      unfold next3
      rw [ha]
      rfl
    have hm : ((visited.map Nat.cast : List ℤ).contains (s : ℤ)) = decide (s ∈ visited) := by simp
    rw [buildCleanupPlanFrom, startState_natCast, leading]
    simp only [natCast_ne_invalid, if_false, ht, Bool.not_true, Bool.false_eq_true, hm,
      decide_eq_true_eq, ha]
    rw [hc, he]
    by_cases hac : a.acts
    · have hg' : ∀ l, Descent (next3 im io) (fun s => action3 im io s = none)
          (startState a.toState) l → Descent (next3 im io)
            (fun s => action3 im io s = none) sta ((visited ++ [s]) ++ l) := by
        intro l hl
        have hse := hg (s :: l) (by
          rw [startState_natCast]
          refine .step ?_ (he ▸ hl)
          rw [hc, if_pos hac]
          exact some_ne_none _)
        simpa using hse
      simp only [hac, Bool.not_true, Bool.false_eq_true, if_false, if_true, reduceCtorEq]
      by_cases hi : s ∈ visited
      · -- a descent through a state that was visited would pass it twice
        rw [if_pos hi]
        cases hle : leading (next3 im io) (action3 im io) r (startState a.toState) with
        | none => rfl
        | some l =>
          have hn := (hg' l (descent_of_leading hle)).nodup
          rw [append_assoc, nodup_append] at hn
          exact absurd rfl (hn.2.2 s hi s (by simp))
      · rw [if_neg hi, if_neg (by omega)]
        have hrec := @ih (visited ++ [s]) a.toState (p ++ [a.cleanup]) hto
          (by simp; omega) (by simp [hp]) hg'
        rw [map_append] at hrec
        rw [show ([(s : ℤ)] : List ℤ) = [s].map Nat.cast from rfl, hrec]
        cases leading (next3 im io) (action3 im io) r (startState a.toState) with
        | none => rfl
        | some l => simp [hc, hac]
    · have ho : action3 im io s = none := by rw [hc, if_neg hac]
      have hi : s ∉ visited := by
        intro hs
        have hd := hg [] (by exact .stopped ho)
        rw [append_nil] at hd
        exact hd.not_stop hs ho
      simp [hac, hi]

theorem buildCleanupPlan_eq (hv : validateUnwindMap im io) {st : ℤ} (hs : io.validState st) :
    (buildCleanupPlan im io st).getD [] = ((leading (next3 im io) (action3 im io) kMaxCleanupActions
        (startState st)).getD []).filterMap (action3 im io) := by
  have h := @buildCleanupPlanFrom_eq im io hv (startState st) kMaxCleanupActions []
    st [] hs (by simp) rfl (fun l hl => hl)
  unfold buildCleanupPlan
  rw [show ([] : List ℤ) = ([] : List ℕ).map Nat.cast from rfl, h]
  cases leading (next3 im io) (action3 im io) kMaxCleanupActions (startState st) <;>
    simp

end Fh3

/-! ### FH4 -/

/-- The state outside of a state. -/
def next4 (unwindMap : List Fh4UnwindEntry) (s : ℕ) : Option ℕ :=
  unwindMap[s]?.bind Fh4UnwindEntry.nextState

/-- What has to be done in a state. -/
def action4 (unwindMap : List Fh4UnwindEntry) (s : ℕ) : Option CleanupAction :=
  unwindMap[s]?.bind fun e => if e.type = 0 then none else some e.cleanup

/-- Where the plan that goes on to the first state of the `try` is right: that state has no
action, and there is no more to be done than a plan holds. -/
def CleanedBy4 (next : ℕ → Option ℕ) (action : ℕ → Option CleanupAction) (start : Option ℕ)
    (low : ℤ) : Prop :=
  ∃ upto, Descent next (fun a => (a : ℤ) < low) start upto ∧
    (upto.filterMap action).length ≤ kMaxFh4ExecutableCleanupActions ∧
    ∀ s ∈ upto, (s : ℤ) = low → action s = none

section Upto

variable {next nt ne : ℕ → Option ℕ} {action act ac : ℕ → Option CleanupAction}
  {start sta : Option ℕ} {low : ℕ}
  {upto uo : List ℕ}

/-- **The plan with the first state of the `try`, cut off when it is long, is the right one
exactly if that state adds nothing and the plan is not long.** -/
theorem planFor_upto_iff (hd : Down next)
    (hu : Descent next (fun a => (a : ℤ) < (low : ℤ)) start upto) :
    PlanFor next action start low
        (if (upto.filterMap action).length ≤ kMaxFh4ExecutableCleanupActions
          then upto.filterMap action else []) ↔
      CleanedBy4 next action start low := by
  obtain ⟨ab, ha⟩ := exists_descent hd (fun a => a ≤ low) start
  have ht : upto.filterMap action =
      ab.filterMap action ++ (if low ∈ upto then (action low).toList else []) := by
    have hsp := ha.upto_eq hd (by simpa only [Nat.cast_lt] using hu)
    by_cases hm : low ∈ upto
    · rw [if_pos hm] at hsp ⊢
      rw [hsp, filterMap_append]
      cases hi : action low <;> simp [hi]
    · rw [if_neg hm] at hsp ⊢
      rw [hsp, append_nil, append_nil]
  have hp : ∀ p, PlanFor next action start low p ↔ p = ab.filterMap action := by
    intro p
    unfold PlanFor
    simp only [Nat.cast_le]
    constructor
    · rintro ⟨pa, hpa, rfl⟩
      rw [ha.unique hpa]
    · rintro rfl
      exact ⟨ab, ha, rfl⟩
  have hc : CleanedBy4 next action start low ↔
      (upto.filterMap action).length ≤ kMaxFh4ExecutableCleanupActions ∧
        (low ∈ upto → action low = none) := by
    constructor
    · rintro ⟨u', hu', he, ho⟩
      obtain rfl := hu.unique hu'
      exact ⟨he, fun hm => ho low hm rfl⟩
    · rintro ⟨he, ho⟩
      refine ⟨upto, hu, he, fun s hs heq => ?_⟩
      obtain rfl : s = low := by exact_mod_cast heq
      exact ho hs
  rw [hp, hc]
  split
  · next hh =>
    simp only [hh, true_and]
    rw [ht]
    by_cases hm : low ∈ upto <;> simp [hm]
  · next hl =>
    simp only [hl, false_and, iff_false]
    intro hni
    -- one action would not make the plan long
    rw [ht, ← hni, nil_append] at hl
    have hn : (if low ∈ upto then (action low).toList else []).length ≤ 1 := by
      split
      · exact length_toList_le
      · exact Nat.zero_le 1
    exact hl (hn.trans (by decide))

end Upto

theorem forall₂_of_mapM {α β : Type} {f : α → Option β} {l : List α} {l' : List β}
    (h : l.mapM f = some l') : List.Forall₂ (fun a b => f a = some b) l l' := by
  induction l generalizing l' with
  | nil =>
    obtain rfl : l' = [] := (some.inj h).symm
    exact .nil
  | cons a l ih =>
    rw [mapM_cons] at h
    simp only [bind_eq_bind, bind_eq_some_iff, Option.pure_def] at h
    obtain ⟨b, hb, r, hr, hl⟩ := h
    cases hl
    exact .cons hb (ih hr)

/-- What holds of every FH4 unwind map that is read: states lead to earlier ones, and an action
has an address. -/
structure AcceptedMap (unwindMap : List Fh4UnwindEntry) : Prop where
  down : Down (next4 unwindMap)
  action : ∀ e ∈ unwindMap, e.type ≠ 0 → e.actionRva ≠ 0 ∧ e.actionRva ≠ kMaxU32
  length : unwindMap.length ≤ kMaxFh4Entries

section Fh4

variable {image im : ImageReader} {info io : Fh4FuncInfo} {unwindMap un um : List Fh4UnwindEntry}

theorem length_readMany {α : Type} {r : ℕ → Option (α × ℕ)} {count c af : ℕ}
    {l : List α} (h : readMany r count c = some (l, af)) : l.length = count := by
  induction count generalizing c af l with
  | zero =>
    cases h
    rfl
  | succ count ih =>
    simp only [readMany, bind_eq_bind, bind_eq_some_iff] at h
    obtain ⟨⟨a, ne⟩, ha, ⟨re, la⟩, hr, hl⟩ := h
    cases hl
    rw [length_cons, ih hr]

theorem lt_of_readU32 {rv r : ℕ} (h : im.readU32 rv = some r) : r < 2 ^ 32 := by
  unfold ImageReader.readU32 at h
  split at h
  · cases h
    have hl := ofLE_lt (slice im.bytes rv 4)
    rw [length_slice] at hl
    exact hl.trans_le (Nat.pow_le_pow_right (by decide) (min_le_left 4 _))
  · cases h

theorem lt_of_readFh4Disp {az : Bool} {c r a : ℕ}
    (h : readFh4Disp im az c = some (r, a)) : r < 2 ^ 31 := by
  unfold readFh4Disp at h
  split at h
  · cases h
  simp only [bind_eq_bind, bind_eq_some_iff] at h
  obtain ⟨r', hr, h⟩ := h
  split at h
  · cases h
  next ho =>
  split at h
  · cases h
    have hr := lt_of_readU32 hr
    unfold toI32 at ho
    split at ho
    · assumption
    · omega
  · cases h

theorem actionRva_of_readFh4UnwindEntry {cu a : ℕ} {e : Fh4UnwindEntry}
    (h : readFh4UnwindEntry im cu = some (e, a)) (ht : e.type ≠ 0) :
    e.actionRva ≠ 0 ∧ e.actionRva ≠ kMaxU32 := by
  unfold readFh4UnwindEntry at h
  simp only [bind_eq_bind, bind_eq_some_iff] at h
  obtain ⟨⟨en, c⟩, -, ⟨ar, c'⟩, ha, ⟨ob, c''⟩, -, he⟩ := h
  cases he
  unfold readIf at ha
  rw [if_pos (by simpa using ht)] at ha
  refine ⟨ne_zero_of_readFh4Disp ha, ?_⟩
  rintro rfl
  have := lt_of_readFh4Disp ha
  revert this
  decide

theorem lt_of_fh4NextState {eb index s : ℕ} {es : List Fh4UnwindEntry}
    {e : Fh4UnwindEntry} (h : fh4NextState eb es index e = some (some s)) : s < index := by
  unfold fh4NextState at h
  split at h
  · cases h
  obtain ⟨s', hs', heq⟩ := map_eq_some_iff.1 h
  cases heq
  have hl := (findIdx?_eq_some_iff_findIdx_eq.1 hs').1
  rw [length_take] at hl
  omega

/-- **An unwind map that is read is accepted.** -/
theorem acceptedMap_of_read {mr : ℕ}
    (h : readFh4UnwindMap image mr = some unwindMap) : AcceptedMap unwindMap := by
  unfold readFh4UnwindMap at h
  simp only [bind_eq_bind, bind_eq_some_iff, ite_none_left_eq_some] at h
  obtain ⟨⟨c, cu⟩, -, hc, ⟨es, a⟩, ht, hi⟩ := h
  have ha := forall₂_of_mapM hi
  have hac := forall_readMany (P := fun e : Fh4UnwindEntry =>
    e.type ≠ 0 → e.actionRva ≠ 0 ∧ e.actionRva ≠ kMaxU32)
    (fun _ _ _ hr => actionRva_of_readFh4UnwindEntry hr) ht
  have hle : unwindMap.length = es.length := by rw [← ha.length_eq, length_zipIdx]
  have hen : ∀ (s : ℕ) (e : Fh4UnwindEntry), unwindMap[s]? = some e →
      ∃ e₀ nextState, es[s]? = some e₀ ∧ fh4NextState cu es s e₀ = some nextState ∧
        e = { e₀ with nextState := nextState } := by
    intro s e he
    obtain ⟨hs, rfl⟩ := List.getElem?_eq_some_iff.1 he
    have hs' : s < es.length := hle ▸ hs
    have hl := ha.get (by rw [length_zipIdx]; exact hs') hs
    simp only [get_eq_getElem, getElem_zipIdx, zero_add] at hl
    obtain ⟨nextState, hn, heq⟩ := map_eq_some_iff.1 hl
    exact ⟨es[s], nextState, getElem?_eq_getElem hs', hn, heq.symm⟩
  refine ⟨fun s s' hs' => ?_, fun e he => ?_, ?_⟩
  · obtain ⟨e, he, hst⟩ := bind_eq_some_iff.1 hs'
    obtain ⟨e₀, nextState, -, hn, rfl⟩ := hen s e he
    subst hst
    exact lt_of_fh4NextState hn
  · obtain ⟨s, hs⟩ := getElem?_of_mem he
    obtain ⟨e₀, nextState, he₀, -, rfl⟩ := hen s e hs
    exact hac e₀ (mem_of_getElem? he₀)
  · have hc' := length_readMany ht
    omega

/-- **The loop of `build_fh4_cleanup_plan` goes down from the state while it is not before the
target.**  The states visited are above it, so that none comes again. -/
theorem buildFh4CleanupPlanFrom_eq (h : AcceptedMap um) {t fu : ℕ} {o : Option ℕ}
    {pa visited : List ℕ} {p : List CleanupAction}
    (hp : Descent (next4 um) (fun a => (a : ℤ) < (t : ℤ)) o pa)
    (hin : ∀ a ∈ o, a < um.length) (hi : ∀ a ∈ o, ∀ v ∈ visited, a < v)
    (hf : o.elim 0 (· + 1) < fu) (hr : p.length ≤ kMaxCleanupActions) :
    buildFh4CleanupPlanFrom um t fu visited (stateOf o) p =
      if (p ++ pa.filterMap (action4 um)).length ≤ kMaxCleanupActions then
        some (p ++ pa.filterMap (action4 um)) else none := by
  induction hp generalizing fu visited p with
  | ended =>
    obtain ⟨fu, rfl⟩ := Nat.exists_eq_add_one_of_ne_zero (by omega : fu ≠ 0)
    simp [buildFh4CleanupPlanFrom, stateOf, hr]
  | @stopped a ho =>
    obtain ⟨fu, rfl⟩ := Nat.exists_eq_add_one_of_ne_zero (by omega : fu ≠ 0)
    rw [buildFh4CleanupPlanFrom, if_pos]
    · simp [hr]
    · exact .inr (by simp only [stateOf, elim_some, kInvalidState]; omega)
  | @step a l hg _ ih =>
    obtain ⟨fu, rfl⟩ := Nat.exists_eq_add_one_of_ne_zero (by omega : fu ≠ 0)
    have hl : a < um.length := hin a rfl
    have hn : next4 um a = um[a].nextState := by
      unfold next4
      rw [getElem?_eq_getElem hl, bind_some]
    have ha : action4 um a = if um[a].type = 0 then none else some um[a].cleanup := by
      unfold action4
      rw [getElem?_eq_getElem hl, bind_some]
    have hrec : ∀ p' : List CleanupAction, p'.length ≤ kMaxCleanupActions →
        buildFh4CleanupPlanFrom um t fu (a :: visited) (stateOf um[a].nextState) p' =
        if (p' ++ l.filterMap (action4 um)).length ≤ kMaxCleanupActions then
          some (p' ++ l.filterMap (action4 um)) else none := by
      intro p' hp'
      rw [← hn]
      refine ih (fun b hb => (h.down a b hb).trans hl) (fun b hb v hv => ?_) ?_ hp'
      · rcases mem_cons.1 hv with rfl | hv
        · exact h.down _ b hb
        · exact (h.down a b hb).trans (hi a rfl v hv)
      · cases hb : next4 um a with
        | none => simp at hf ⊢; omega
        | some b =>
          have := h.down a b hb
          simp at hf ⊢
          omega
    have hs : stateOf (some a) = (a : ℤ) := rfl
    have hfr : a ∉ visited := fun he => absurd (hi a rfl a he) (lt_irrefl a)
    rw [buildFh4CleanupPlanFrom, hs, Int.toNat_natCast, if_neg, if_neg, getElem?_eq_getElem hl]
    rotate_left
    · simp [hfr, hl]
    · simp only [kInvalidState]
      omega
    rw [filterMap_cons, ha]
    by_cases ht : um[a].type = 0
    · simp only [ht, if_true]
      exact hrec p hr
    obtain ⟨hz, hm⟩ := h.action _ (getElem_mem hl) ht
    simp only [ht, if_false]
    by_cases hu : kMaxCleanupActions ≤ p.length
    · rw [if_pos (.inl hu), if_neg]
      simp only [length_append, length_cons]
      omega
    · rw [if_neg (by simp [hu, hz, hm]), hrec _ (by simp; omega)]
      simp

def StateIn (unwindMap : List Fh4UnwindEntry) (state : ℤ) : Prop :=
  kInvalidState ≤ state ∧ state < kMaxFh4Entries ∧
    (unwindMap ≠ [] → state < unwindMap.length)

theorem stateOf_startState {state : ℤ} (h : kInvalidState ≤ state) :
    stateOf (startState state) = state := by
  unfold startState stateOf
  split
  · next heq =>
    rw [heq]
    rfl
  · next hn =>
    simp only [kInvalidState] at h hn
    simp only [elim_some]
    omega

/-- What `cxx_frame_handler4` makes of the plan. -/
def fh4Answer (plan : Option (List CleanupAction)) : List CleanupAction :=
  match plan with
  | none => []
  | some plan => if kMaxFh4ExecutableCleanupActions < plan.length then [] else plan

theorem fh4Answer_buildFh4CleanupPlan (h : AcceptedMap unwindMap) {t : ℕ} {st : ℤ}
    {upto : List ℕ} (hs : StateIn unwindMap st)
    (hu : Descent (next4 unwindMap) (fun a => (a : ℤ) < (t : ℤ)) (startState st) upto) :
    fh4Answer (buildFh4CleanupPlan unwindMap st t) =
      if (upto.filterMap (action4 unwindMap)).length ≤ kMaxFh4ExecutableCleanupActions then
        upto.filterMap (action4 unwindMap) else [] := by
  obtain ⟨ho, hh, hm⟩ := hs
  by_cases hi : unwindMap = []
  · -- without a map there is nothing to do, and no plan
    subst hi
    have hn : ∀ l : List ℕ, l.filterMap (action4 []) = [] := fun l =>
      filterMap_eq_nil_iff_forall.2 fun _ _ => rfl
    have hp : buildFh4CleanupPlan [] st t = none ∨ buildFh4CleanupPlan [] st t = some [] := by
      unfold buildFh4CleanupPlan
      rw [buildFh4CleanupPlanFrom]
      split
      · exact .inr rfl
      · split
        · exact .inl rfl
        · exact .inl rfl
    rw [hn]
    rcases hp with hp | hp <;> rw [hp] <;> rfl
  · have hb := @buildFh4CleanupPlanFrom_eq unwindMap h t (kMaxFh4Entries + 2)
      (startState st) upto [] [] hu (by
        intro a ha
        unfold startState at ha
        split at ha
        · cases ha
        · cases ha
          have := hm hi
          have := length_pos_iff.2 hi
          omega) (by simp) (by
        unfold startState
        split
        · simp
        · simp only [elim_some, kMaxFh4Entries] at hh ⊢
          omega) (Nat.zero_le _)
    rw [stateOf_startState ho, nil_append] at hb
    unfold buildFh4CleanupPlan
    rw [hb]
    split
    · next hr =>
      dsimp only [fh4Answer]
      split
      · next hl => rw [if_neg (by omega)]
      · next hsh => rw [if_pos (by omega)]
    · next hf =>
      have : kMaxFh4ExecutableCleanupActions ≤ kMaxCleanupActions := by decide
      rw [if_neg (by omega)]
      rfl

/-! ### The `try` of a catch -/

/-- The clauses of a `try` have the code at the RVA. -/
def TryRegion.hasHandler (r : TryRegion) (rva : ℕ) : Bool :=
  r.clauses.any fun c => decide (c.handlerRva = rva)

theorem hasFh4Target_eq {b rva n cu a : ℕ} {l : List Fh4Handler}
    (h : readMany (readFh4Handler im b) n cu = some (l, a)) :
    hasFh4Target im b rva n cu = l.any fun c => decide (c.handlerRva = rva) := by
  induction n generalizing cu a l with
  | zero =>
    cases h
    rfl
  | succ n ih =>
    simp only [readMany, bind_eq_bind, bind_eq_some_iff] at h
    obtain ⟨⟨c, ne⟩, hc, ⟨r, la⟩, hr, hl⟩ := h
    cases hl
    rw [hasFh4Target, hc, any_cons]
    dsimp only
    rw [ih hr]
    by_cases heq : c.handlerRva = rva <;> simp [heq]

theorem targets_eq {bg rva : ℕ} {b : Fh4TryBlock} {r : TryRegion}
    (h : region4 image bg b = some r) : b.targets image bg rva = r.hasHandler rva := by
  obtain ⟨ha, hh, rfl⟩ := map_eq_some_iff.1 h
  unfold fh4Handlers at hh
  dsimp only [Fh4TryBlock.targets, TryRegion.hasHandler]
  rw [List.any_map]
  split
  · next hp =>
    rw [if_pos hp] at hh
    cases hh
    rfl
  · next hp =>
    rw [if_neg hp] at hh
    unfold readFh4Handlers at hh
    simp only [bind_eq_bind, bind_eq_some_iff, ite_none_left_eq_some, map_eq_some_iff] at hh
    obtain ⟨⟨n, c⟩, hc, hl, ⟨l, a⟩, hm, rfl⟩ := hh
    rw [hc]
    dsimp only
    rw [if_neg hl]
    exact hasFh4Target_eq hm

theorem findIdx?_eq_of_forall₂ {α β : Type} {R : α → β → Prop} {p : α → Bool} {q : β → Bool}
    {l : List α} {l' : List β} (h : List.Forall₂ R l l') (hp : ∀ a b, R a b → p a = q b) :
    l.findIdx? p = l'.findIdx? q := by
  induction h with
  | nil => rfl
  | cons ha _ ih => rw [findIdx?_cons, findIdx?_cons, hp _ _ ha, ih]

theorem handlerRva_bounds {bg : ℕ} {b : Fh4TryBlock} {r : TryRegion}
    (h : region4 im bg b = some r) : ∀ c ∈ r.clauses, c.handlerRva ≠ 0 ∧ c.handlerRva ≤ kMaxU32 := by
  obtain ⟨hs, hn, rfl⟩ := map_eq_some_iff.1 h
  unfold fh4Handlers readFh4Handlers at hn
  split at hn
  · cases hn
    simp
  simp only [bind_eq_bind, bind_eq_some_iff, ite_none_left_eq_some, map_eq_some_iff] at hn
  obtain ⟨_, -, -, ⟨l, a⟩, hm, rfl⟩ := hn
  have hl := forall_readMany (P := fun c : Fh4Handler => c.handlerRva ≠ 0 ∧ c.handlerRva ≤ kMaxU32)
    (fun cu c a hr => by
      unfold readFh4Handler at hr
      simp only [bind_eq_bind, bind_eq_some_iff, ite_none_left_eq_some]
        at hr
      obtain ⟨_, -, -, _, -, _, -, _, -, _, -, ⟨ha, _⟩, hd, _, -, hc⟩ := hr
      cases hc
      exact ⟨ne_zero_of_readFh4Disp hd, (lt_of_readFh4Disp hd).le.trans (by decide)⟩) hm
  intro c hc
  obtain ⟨h, hh, rfl⟩ := mem_map.1 hc
  exact hl h hh

variable {tryMap : List Fh4TryBlock} {table : CatchTable} {rva index : ℕ}

/-- **The `try` found again is the first with the code among its clauses.** -/
theorem findFh4TargetBlock_eq (ht : catchTable4 im io tryMap = some table) :
    findFh4TargetBlock im io tryMap rva = table.regions.findIdx? (TryRegion.hasHandler · rva) := by
  unfold catchTable4 at ht
  simp only [bind_eq_bind, bind_eq_some_iff] at ht
  obtain ⟨ss, -, rs, hr, ht⟩ := ht
  cases ht
  exact findIdx?_eq_of_forall₂ (forall₂_of_mapM hr) fun _ _ h => targets_eq h

theorem region4_of_catchTable4 (ht : catchTable4 im io tryMap = some table)
    {region : TryRegion} (hg : table.regions[index]? = some region) :
    ∃ b, tryMap[index]? = some b ∧ region4 im io.functionBegin b = some region := by
  unfold catchTable4 at ht
  simp only [bind_eq_bind, bind_eq_some_iff] at ht
  obtain ⟨ss, -, rs, hr, ht⟩ := ht
  cases ht
  have ha := forall₂_of_mapM hr
  obtain ⟨hi, rfl⟩ := List.getElem?_eq_some_iff.1 hg
  have hi' : index < tryMap.length := ha.length_eq ▸ hi
  exact ⟨tryMap[index], getElem?_eq_getElem hi', ha.get hi' hi⟩

end Fh4

/-! ### The handlers -/

section Handlers

variable {image im : ImageReader} {record : ExceptionRecordAmd64} {d : DispatcherContextAmd64}
  {g : GuestStack}

theorem cxxFrameHandler3_plan (hc : record.code = kCxxException)
    (hu : record.flags &&& kExceptionUnwinding ≠ 0) (ht : d.targetIp ≠ 0)
    {io : FuncInfo} {st : ℤ} (hf : readFrame3 im d = some (io, st)) :
    (cxxFrameHandler3 im g record d).plan = (buildCleanupPlan im io st).getD [] := by
  unfold cxxFrameHandler3
  rw [if_neg (not_not.2 hc), hf]
  dsimp only
  rw [if_pos hu, if_neg ht]
  cases buildCleanupPlan im io st with
  | none => rfl
  | some p => cases p <;> rfl

theorem readFrame3_valid {io : FuncInfo} {st : ℤ} (hf : readFrame3 im d = some (io, st)) :
    validateUnwindMap im io ∧ io.validState st := by
  unfold readFrame3 at hf
  simp only [bind_eq_bind, bind_eq_some_iff, ite_none_left_eq_some] at hf
  obtain ⟨_, -, i', -, hv, c, -, st', hs, heq⟩ := hf
  cases heq
  simp only [Bool.or_eq_true, Bool.not_eq_true', not_or, Bool.not_eq_false] at hv
  refine ⟨hv.1, ?_⟩
  exact (filter_eq_some_iff.1 hs).2

theorem fh4Cleanup_plan {fr : Fh4Frame} {ip : ℕ} (hl : im.imageBase < ip)
    (hh : ip - im.imageBase < kMaxU32 + 1) :
    (fh4Cleanup im fr ip).plan = fh4Answer (buildFh4CleanupPlan fr.unwindMap
      fr.state (findFh4TargetState im fr.info fr.tryMap (ip - im.imageBase))) := by
  unfold fh4Cleanup
  simp only [hl, if_true, Nat.mod_eq_of_lt hh, show ip - im.imageBase ≠ 0 by omega, ne_eq,
    not_false_eq_true]
  cases buildFh4CleanupPlan fr.unwindMap fr.state (findFh4TargetState im fr.info
    fr.tryMap (ip - im.imageBase)) with
  | none => rfl
  | some p =>
    unfold fh4Answer
    cases p with
    | nil => rfl
    | cons a p =>
      simp only [isEmpty_cons, Bool.false_eq_true, false_or]
      split <;> rfl

theorem cxxFrameHandler4_plan (hc : record.code = kCxxException)
    (hu : record.flags &&& kExceptionUnwinding ≠ 0) (ht : d.targetIp ≠ 0)
    {fr : Fh4Frame} (hf : readFrame4 im d true = some fr) (hl : im.imageBase < d.targetIp.toNat)
    (hh : d.targetIp.toNat - im.imageBase < kMaxU32 + 1) :
    (cxxFrameHandler4 im g record d).plan = fh4Answer (buildFh4CleanupPlan fr.unwindMap
      fr.state (findFh4TargetState im fr.info fr.tryMap (d.targetIp.toNat - im.imageBase))) := by
  rw [← fh4Cleanup_plan hl hh]
  unfold cxxFrameHandler4
  simp [hc, hu, ne_eq, not_true_eq_false, not_false_eq_true, decide_true, hf, ht]

theorem readFrame4_accepted {u : Bool} {fr : Fh4Frame} {table : CatchTable}
    (hf : readFrame4 im d u = some fr) (ht : catchTable4 im fr.info fr.tryMap = some table) :
    AcceptedMap fr.unwindMap ∧ StateIn fr.unwindMap fr.state := by
  unfold readFrame4 at hf
  simp only [bind_eq_bind, bind_eq_some_iff, ite_none_left_eq_some] at hf
  obtain ⟨_, -, -, _, -, _, -, io, -, um, hm, _, -, c, -, st, hs, hi,
    heq⟩ := hf
  cases heq
  obtain ⟨-, hl, hh⟩ := readFh4IpState_eq hs ht
  refine ⟨?_, hl, hh, fun hn => ?_⟩
  · unfold readMapIf at hm
    split at hm
    · cases hm
      exact ⟨fun _ _ h => (some_ne_none _ h.symm).elim, by simp, Nat.zero_le _⟩
    · exact acceptedMap_of_read hm
  · dsimp only at hn ⊢
    by_contra hg
    exact hi ⟨by omega, hn, by omega⟩

end Handlers

/-- **Before the catch of a `try`, the plan of FH3 is that of the states inside of it exactly if
no state with an action comes behind the first without one, and the first such state is not
outside; FH4 finds a `try` that its search lets through again, and its plan is that of the states
inside, exactly if no earlier `try` has the same catch, the first state of the `try` has no action,
and there are no more than 16.** -/
theorem cleanup_planned (image : ImageReader) (g : GuestStack) (record : ExceptionRecordAmd64)
    (d : DispatcherContextAmd64) (hcode : record.code = kCxxException)
    (hunwind : record.flags &&& kExceptionUnwinding ≠ 0) (htarget : d.targetIp ≠ 0)
    (table : CatchTable) (index : ℕ) (region : TryRegion)
    (hregion : table.regions[index]? = some region) :
    (∀ info state, readFrame3 image d = some (info, state) → catchTable3 image info = some table →
      (PlanFor (next3 image info) (action3 image info) (startState state) region.tryLow
          (cxxFrameHandler3 image g record d).plan ↔
        CleanedBy3 (next3 image info) (action3 image info) (startState state) region.tryLow)) ∧
    (∀ frame, readFrame4 image d true = some frame →
      catchTable4 image frame.info frame.tryMap = some table →
      region.tryLow ≤ kMaxFh4Entries → ∀ clause ∈ region.clauses,
      d.targetIp.toNat = image.imageBase + clause.handlerRva →
      (findFh4TargetBlock image frame.info frame.tryMap (d.targetIp.toNat - image.imageBase) =
            some index ∧
          PlanFor (next4 frame.unwindMap) (action4 frame.unwindMap) (startState frame.state)
            region.tryLow (cxxFrameHandler4 image g record d).plan ↔
        (∀ earlier ∈ table.regions.take index, earlier.hasHandler clause.handlerRva = false) ∧
          CleanedBy4 (next4 frame.unwindMap) (action4 frame.unwindMap) (startState frame.state)
            region.tryLow)) := by
  constructor
  · intro info state hf _
    obtain ⟨hv, hs⟩ := readFrame3_valid hf
    rw [cxxFrameHandler3_plan hcode hunwind htarget hf, buildCleanupPlan_eq hv hs]
    exact planFor_leading_iff
  · intro frame hf ht hlow clause hl hd
    obtain ⟨hc, hs⟩ := readFrame4_accepted hf ht
    obtain ⟨b, hb, hreg4⟩ := region4_of_catchTable4 ht hregion
    have ho : region.tryLow = (b.tryLow : ℤ) := by
      obtain ⟨ha, -, rfl⟩ := map_eq_some_iff.mp hreg4
      rfl
    obtain ⟨hn, hh⟩ := handlerRva_bounds hreg4 clause hl
    have hr : d.targetIp.toNat - image.imageBase = clause.handlerRva := by omega
    have hbl : findFh4TargetBlock image frame.info frame.tryMap clause.handlerRva = some index ↔
        ∀ earlier ∈ table.regions.take index, earlier.hasHandler clause.handlerRva = false := by
      obtain ⟨hi, rfl⟩ := List.getElem?_eq_some_iff.mp hregion
      have hh : table.regions[index].hasHandler clause.handlerRva = true :=
        any_eq_true.mpr ⟨clause, hl, decide_eq_true rfl⟩
      rw [findFh4TargetBlock_eq ht, findIdx?_eq_some_iff_getElem]
      simp only [hi, hh, exists_true_left, true_and, Bool.not_eq_true, mem_take_iff_getElem]
      constructor
      · rintro hfi earlier ⟨j, hj, rfl⟩
        exact hfi j (by omega)
      · intro hal j hj
        exact hal _ ⟨j, by omega, rfl⟩
    rw [hr, ← hbl]
    apply and_congr_right
    intro hfo
    have hs' : findFh4TargetState image frame.info frame.tryMap clause.handlerRva = b.tryLow := by
      unfold findFh4TargetState
      rw [hfo, bind_some, hb]
      rw [ho] at hlow
      exact if_pos (by unfold kMaxFh4Entries at hlow; omega)
    obtain ⟨upto, hu⟩ := exists_descent hc.down (fun a => (a : ℤ) < (b.tryLow : ℤ))
      (startState frame.state)
    rw [cxxFrameHandler4_plan hcode hunwind htarget hf (by omega) (by omega), hr, hs', ho,
      fh4Answer_buildFh4CleanupPlan hc hs hu]
    exact planFor_upto_iff hc.down hu

/-- The tables of a function with one `try`, in whose state 0 are a state 1 and in it a state 2,
with the actions `inner` and `innermost`. -/
def nestedImage (inner innermost : ℕ) : ImageReader where
  imageBase := 0x10000
  bytes := [8, 0, kFuncInfoMagicV3, 3, 48, 1, 72, 1, 92, 0, 0, 0, kMaxU32, kMaxU32, 0, inner, 1,
    innermost, 0, 2, 2, 1, 100, 0, 2, kCatchAll, 0, 0, 4, 0].flatMap (toLE 4)

def unwindingRecord : ExceptionRecordAmd64 where
  code := kCxxException
  flags := kExceptionUnwinding

def unwindingFrame (targetIp : UInt64) : DispatcherContextAmd64 where
  controlPc := 0x10000
  imageBase := 0x10000
  functionEntry := 0x10008
  establisherFrame := 0
  languageHandler := 0
  handlerData := 0x10000
  targetIp := targetIp

/-- The same in FH4 with a state 1 in the state 0 of the `try`, and with its action. -/
def nestedImage4 : ImageReader where
  imageBase := 0x10000
  bytes := toLE 4 12 ++ toLE 4 0 ++ toLE 4 0 ++ [0x18] ++ toLE 4 49 ++ toLE 4 32 ++ toLE 4 46 ++
    [0, 0, 0, 0, 0, 0, 0] ++ [2, 0, 2, 2] ++ toLE 4 40 ++ [2, 0] ++ toLE 4 8 ++ [2, 0, 4] ++
    [4, 8, 14] ++ toLE 4 4

theorem nested_descent {ir i : ℕ} {io : FuncInfo} (h₂ : next3 (nestedImage ir i) io 2 = some 1)
    (h₁ : next3 (nestedImage ir i) io 1 = some 0) :
    Descent (next3 (nestedImage ir i) io) (fun a => (a : ℤ) ≤ (0 : ℤ)) (some 2) [2, 1] :=
  .step (by decide) (h₂ ▸ .step (by decide) (h₁ ▸ .stopped (by decide)))

/-- In state 2 the plan is the two actions, and in FH4 it is the one of state 1. -/
theorem cleanup_planned_innermost :
    (∃ info state, readFrame3 (nestedImage 4 8) (unwindingFrame 0x10004) = some (info, state) ∧
      PlanFor (next3 (nestedImage 4 8) info) (action3 (nestedImage 4 8) info) (startState state) 0
        (cxxFrameHandler3 (nestedImage 4 8) noMemory unwindingRecord
          (unwindingFrame 0x10004)).plan) ∧
    ∃ frame, readFrame4 nestedImage4 (unwindingFrame 0x10008) true = some frame ∧
      findFh4TargetBlock nestedImage4 frame.info frame.tryMap 8 = some 0 ∧
      PlanFor (next4 frame.unwindMap) (action4 frame.unwindMap) (startState frame.state) 0
        (cxxFrameHandler4 nestedImage4 noMemory unwindingRecord (unwindingFrame 0x10008)).plan := by
  constructor
  · obtain ⟨⟨info, state⟩, hf, ho⟩ := bind_eq_some_iff.mp
      (show ((readFrame3 (nestedImage 4 8) (unwindingFrame 0x10004)).bind fun f =>
        (catchTable3 (nestedImage 4 8) f.1).map fun table => (table, f.2,
          next3 (nestedImage 4 8) f.1 2, next3 (nestedImage 4 8) f.1 1,
          leading (next3 (nestedImage 4 8) f.1) (action3 (nestedImage 4 8) f.1)
            kMaxCleanupActions (some 2) == some [2, 1])) =
        some (⟨[(0, 2)], [⟨0, 2, 2, [⟨none, 4, none⟩]⟩]⟩, 2, some 1, some 0, true)
        by decide +kernel)
    obtain ⟨table, ht, heq⟩ := map_eq_some_iff.mp ho
    obtain ⟨rfl, rfl, h₂, h₁, hl⟩ := by simpa only [Prod.mk.injEq] using heq
    refine ⟨info, 2, hf, ((cleanup_planned _ noMemory unwindingRecord _ rfl (by decide)
      (by decide) _ 0 _ rfl).1 info 2 hf ht).mpr ⟨[2, 1], nested_descent h₂ h₁, ?_⟩⟩
    rw [show startState 2 = some 2 from rfl, beq_iff_eq.mp hl]
    exact ⟨[], rfl, by simp⟩
  · obtain ⟨frame, hf, ho⟩ := bind_eq_some_iff.mp
      (show ((readFrame4 nestedImage4 (unwindingFrame 0x10008) true).bind fun f =>
        (catchTable4 nestedImage4 f.info f.tryMap).map fun table => (table, f.unwindMap,
          f.state)) =
        some (⟨[(0, 1)], [⟨0, 1, 1, [⟨none, 8, none⟩]⟩]⟩,
          [⟨50, 1, 0, 0, none, 0⟩, ⟨51, 1, 4, 0, some 0, 3⟩], 1) by decide +kernel)
    obtain ⟨table, ht, heq⟩ := map_eq_some_iff.mp ho
    obtain ⟨rfl, hm, hs⟩ := by simpa only [Prod.mk.injEq] using heq
    refine ⟨frame, hf, ((cleanup_planned _ noMemory unwindingRecord _ rfl (by decide)
      (by decide) _ 0 ⟨0, 1, 1, [⟨none, 8, none⟩]⟩ rfl).2 frame hf ht (by decide) ⟨none, 8, none⟩
      (by simp) (by decide)).mpr ⟨by simp, ?_⟩⟩
    rw [hm, hs]
    exact ⟨[1, 0], .step (by decide) (.step (by decide) .ended), by decide, by decide⟩

/-- The innermost state has no action, and the action of the one outside of it is left out. -/
theorem not_cleanup_planned : ∃ info state table region,
    readFrame3 (nestedImage 4 0) (unwindingFrame 0x10004) = some (info, state) ∧
    catchTable3 (nestedImage 4 0) info = some table ∧ table.regions[0]? = some region ∧
    ¬PlanFor (next3 (nestedImage 4 0) info) (action3 (nestedImage 4 0) info) (startState state)
      region.tryLow (cxxFrameHandler3 (nestedImage 4 0) noMemory unwindingRecord
        (unwindingFrame 0x10004)).plan := by
  obtain ⟨⟨info, state⟩, hf, hl⟩ := bind_eq_some_iff.mp
    (show ((readFrame3 (nestedImage 4 0) (unwindingFrame 0x10004)).bind fun f =>
      (catchTable3 (nestedImage 4 0) f.1).map fun table => (table, f.2,
        next3 (nestedImage 4 0) f.1 2, next3 (nestedImage 4 0) f.1 1,
        [2, 1].filterMap (action3 (nestedImage 4 0) f.1))) =
      some (⟨[(0, 2)], [⟨0, 2, 2, [⟨none, 4, none⟩]⟩]⟩, 2, some 1, some 0, [⟨4, 0, .legacyFrame⟩])
      by decide +kernel)
  obtain ⟨table, ht, heq⟩ := map_eq_some_iff.mp hl
  obtain ⟨rfl, rfl, h₂, h₁, hc⟩ := by simpa only [Prod.mk.injEq] using heq
  refine ⟨info, 2, _, _, hf, ht, rfl, ?_⟩
  rintro ⟨p, ha, hp⟩
  obtain rfl := (nested_descent h₂ h₁).unique ha
  rw [hc, show (cxxFrameHandler3 (nestedImage 4 0) noMemory unwindingRecord
    (unwindingFrame 0x10004)).plan = [] by decide +kernel] at hp
  cases hp

end TradutorLinux.Runtime
