import TradutorLinux.Runtime.Dispatch
import TradutorLinux.Runtime.ErrorMap

/-!
# The table of the vectored handlers

`add_vectored_exception_handler` takes the first slot that is free and the next
number of one of two counters, that of the handlers in front or that of those
behind; a dispatch sorts the slots by number.  The token is the slot's address.

## Main definitions

* `addVectoredExceptionHandler`, `removeVectoredExceptionHandler`.
* `VehCall.list`
* `VectoredHandlers.Holds` — the invariant.
* `Invoked`

## Main results

* `VectoredHandlers.Holds.callbacks` — the slots in the order of their numbers are the list.
* `dispatchRaisedException_eq` — what a dispatch does after the routines it has invoked.
* `vectoredHandlers_refine`
-/

namespace TradutorLinux.Runtime

open List

/-- `g_vectored_handlers` with the two counters, of 64 bits; they take more calls to leave them
than `counters_le` allows for. -/
structure VectoredHandlers where
  slots : List VectoredHandlerSlot := .replicate 64 {}
  nextFirst : ℤ := -1
  nextLast : ℤ := 1

/-- The address of a slot of 24 bytes; `base` is that of the table. -/
def slotAddress (base : ℕ+) (i : ℕ) : ℕ := base + 24 * i

section

variable (base : ℕ+)

/-- `add_vectored_exception_handler`: the token, or the last error. -/
def addVectoredExceptionHandler (main : UnwindImageView) (first : UInt32) (handler : UInt64)
    (s : VectoredHandlers) : Except UInt32 ℕ × VectoredHandlers :=
  if handler = 0 ∨ validGuestCode main handler = false then (.error kErrorInvalidParameter, s)
  else
    match s.slots.findIdx? fun slot => !slot.used with
    | none => (.error kErrorNotEnoughMemory, s)
    | some i =>
      (.ok (slotAddress base i),
        if first ≠ 0 then
          ⟨s.slots.set i ⟨true, handler, s.nextFirst⟩, s.nextFirst - 1, s.nextLast⟩
        else ⟨s.slots.set i ⟨true, handler, s.nextLast⟩, s.nextFirst, s.nextLast + 1⟩)

/-- `remove_vectored_exception_handler`: the handle, or the last error. -/
def removeVectoredExceptionHandler (handle : ℕ) (s : VectoredHandlers) :
    Except UInt32 ℕ × VectoredHandlers :=
  let i := (handle - base) / 24
  if handle = 0 ∨ handle < base ∨ base + 64 * 24 ≤ handle ∨ (handle - base) % 24 ≠ 0 ∨
      (s.slots.getD i {}).used = false then (.error kErrorInvalidParameter, s)
  else (.ok handle, { s with slots := s.slots.set i {} })

/-- A call of the guest; the image is the one of that moment. -/
inductive VehCall
  | add (main : UnwindImageView) (first : UInt32) (handler : UInt64)
  | remove (handle : ℕ)

def VehCall.answer (s : VectoredHandlers) : VehCall → Except UInt32 ℕ × VectoredHandlers
  | add main first handler => addVectoredExceptionHandler base main first handler s
  | remove handle => removeVectoredExceptionHandler base handle s

/-- The list of the live handlers with their tokens behind a call with this answer. -/
def VehCall.list (l : List (ℕ × UInt64)) : VehCall → Except UInt32 ℕ → List (ℕ × UInt64)
  | _, .error _ => l
  | add _ first handler, .ok token =>
    if first ≠ 0 then (token, handler) :: l else l ++ [(token, handler)]
  | remove handle, .ok _ => l.filter fun x => x.1 ≠ handle

/-- The table and the list after some calls. -/
def playVectored (calls : List VehCall) : VectoredHandlers × List (ℕ × UInt64) :=
  calls.foldl (fun t c => ((c.answer base t.1).2, c.list t.2 (c.answer base t.1).1)) ({}, [])

/-- What the list says of a call: an addition fails on a bad routine or 64 live handlers and
changes nothing then, and its token is new; a removal is accepted for the live tokens. -/
def VehCall.Meets (s : VectoredHandlers) (l : List (ℕ × UInt64)) : VehCall → Prop
  | c@(add main _ handler) =>
    if handler = 0 ∨ validGuestCode main handler = false then
      c.answer base s = (.error kErrorInvalidParameter, s)
    else if l.length = 64 then c.answer base s = (.error kErrorNotEnoughMemory, s)
    else ∃ token s', c.answer base s = (.ok token, s') ∧ token ∉ l.map Prod.fst
  | c@(remove handle) =>
    if handle ∈ l.map Prod.fst then ∃ s', c.answer base s = (.ok handle, s')
    else c.answer base s = (.error kErrorInvalidParameter, s)

/-! ### A dispatch -/

section

variable (guest : Guest) (main : UnwindImageView)

/-- The routines are invoked in this order, each in the state that the one before it has left, and
all of them continue the search. -/
inductive Invoked : List UInt64 → SehState → SehState → Prop
  | nil (s : SehState) : Invoked [] s s
  | cons {routine : UInt64} {routines : List UInt64} {s s' : SehState} :
      (invokeVectored guest main routine s).1 = kVectoredContinueSearch →
      Invoked routines (invokeVectored guest main routine s).2 s' →
      Invoked (routine :: routines) s s'

/-- How a routine that does not continue the search ends the dispatch. -/
def vectoredEnd (code : UInt32) (answer : Int32 × SehState) : SehEnd × SehState :=
  (if answer.1 = kVectoredContinueExecution then
      if answer.2.noncontinuable = true then .failed code (text "exceção não continuável")
      else .jumped answer.2.world.context
    else .failed code (text "VEH inválido"), answer.2)

/-- The state in which the first routine is invoked. -/
def RaisedException.publish (e : RaisedException) (record : ExceptionRecordAmd64) (s : SehState) :
    SehState :=
  { s with world := { s.world with record := record, context := e.context } }

/-- What a dispatch does with the routines: it goes on to the frames behind the last one, and
invokes none behind the first that does not continue the search. -/
structure Dispatches (routines : List UInt64) (e : RaisedException) (s : SehState) : Prop where
  refused : ∀ detail, raisedRecord e = .error detail →
    dispatchRaisedException guest main e s = (.failed e.code detail, s)
  frames : ∀ record s', raisedRecord e = .ok record →
    Invoked guest main routines (e.publish record s) s' →
    dispatchRaisedException guest main e s =
      searchFrames guest main e.code ⟨s'.world.context, s'⟩
  ended : ∀ record before routine behind s', raisedRecord e = .ok record →
    routines = before ++ routine :: behind →
    Invoked guest main before (e.publish record s) s' →
    (invokeVectored guest main routine s').1 ≠ kVectoredContinueSearch →
    dispatchRaisedException guest main e s =
      vectoredEnd e.code (invokeVectored guest main routine s')

variable {guest main} {before : List UInt64} {s s' : SehState}

theorem Invoked.vectoredSearch_append (h : Invoked guest main before s s') (code : UInt32)
    (behind : List UInt64) :
    vectoredSearch guest main code (before ++ behind) s =
      vectoredSearch guest main code behind s' := by
  induction h with
  | nil => rfl
  | @cons routine routines s s' hc _ ih =>
    have hn : kVectoredContinueSearch ≠ kVectoredContinueExecution := by decide
    rw [List.cons_append, vectoredSearch, ← ih]
    generalize invokeVectored guest main routine s = answer at hc
    obtain ⟨disposition, s₁⟩ := answer
    obtain rfl := hc
    simp [hn]

/-- **The routines are invoked in their order.** -/
theorem dispatchRaisedException_eq (e : RaisedException) (s : SehState) :
    Dispatches guest main (vectoredCallbacks e.handlers) e s := by
  refine ⟨fun detail hr => ?_, fun record s' hr hi => ?_,
    fun record before routine behind s' hr heq hi hn => ?_⟩
  all_goals rw [dispatchRaisedException, searchStart, hr]
  · have hv := hi.vectoredSearch_append e.code []
    rw [List.append_nil] at hv
    simp only [RaisedException.publish, vectoredSearch] at hv
    simp only [hv]
  · have hv := hi.vectoredSearch_append e.code (routine :: behind)
    rw [← heq, vectoredSearch] at hv
    simp only [RaisedException.publish] at hv
    simp only [hv, vectoredEnd]
    generalize invokeVectored guest main routine s' = answer at hn
    obtain ⟨disposition, s₁⟩ := answer
    simp only [if_pos hn]
    split_ifs
    all_goals rfl

end

/-! ### The invariant -/

namespace VectoredHandlers

variable {base} {s : VectoredHandlers} {e : List (VectoredHandlerSlot × ℕ)}

/-- `e` is the used slots with their indices, in the order of their numbers, which lie between the
two counters. -/
structure Holds (s : VectoredHandlers) (e : List (VectoredHandlerSlot × ℕ)) : Prop where
  mem : ∀ v i, (v, i) ∈ e ↔ s.slots[i]? = some v ∧ v.used = true
  sorted : e.Pairwise fun a b => a.1.order < b.1.order
  between : ∀ x ∈ e, s.nextFirst < x.1.order ∧ x.1.order < s.nextLast
  counters : s.nextFirst < s.nextLast
  size : s.slots.length = 64

/-- The entries as the guest knows them. -/
def tokens (base : ℕ+) (e : List (VectoredHandlerSlot × ℕ)) : List (ℕ × UInt64) :=
  e.map fun x => (slotAddress base x.2, x.1.routine)

theorem slotAddress_inj {i j : ℕ} : slotAddress base i = slotAddress base j ↔ i = j := by
  unfold slotAddress
  omega

namespace Holds

theorem initial : Holds {} [] := by
  refine ⟨fun v i => ?_, .nil, nofun, by decide, rfl⟩
  rw [iff_false_left not_mem_nil]
  rintro ⟨hs, hu⟩
  rw [eq_of_mem_replicate (mem_of_getElem? hs)] at hu
  cases hu

variable (h : Holds s e)
include h

theorem nodup : e.Nodup := h.sorted.imp fun hl heq => by simp [heq] at hl

theorem perm : (s.slots.filter VectoredHandlerSlot.used).Perm (e.map Prod.fst) := by
  have hu : (s.slots.zipIdx.filter fun x => x.1.used).map Prod.fst =
      s.slots.filter VectoredHandlerSlot.used := by
    conv_rhs => rw [← zipIdx_map_fst 0 s.slots, filter_map]
    rfl
  have hn : s.slots.zipIdx.Nodup := by
    apply List.Nodup.of_map Prod.snd
    rw [zipIdx_map_snd]
    exact nodup_range'
  rw [← hu]
  refine .map _ ((perm_ext_iff_of_nodup (hn.filter _) h.nodup).2 ?_)
  rintro ⟨v, i⟩
  rw [mem_filter, mk_mem_zipIdx_iff_getElem?, h.mem]

/-- **A dispatch calls the handlers in the order of the list.** -/
theorem callbacks : vectoredCallbacks s.slots = (tokens base e).map Prod.snd := by
  have hs : (e.map Prod.fst).Pairwise fun a b => a.order < b.order := pairwise_map.2 h.sorted
  have hi := inj_on_of_nodup_map (f := VectoredHandlerSlot.order) (l := e.map Prod.fst)
    (pairwise_map.2 (hs.imp ne_of_lt))
  have hp := (mergeSort_perm (s.slots.filter VectoredHandlerSlot.used)
    fun a b => decide (a.order ≤ b.order)).trans h.perm
  have heq := @Perm.eq_of_pairwise _ (fun a b => a.order ≤ b.order) _ _
    (fun a b ha hb hab hba => hi (hp.mem_iff.1 ha) hb (le_antisymm hab hba))
    ((pairwise_mergeSort (by simpa using fun _ _ _ => le_trans)
      (by simpa using fun _ _ => le_total _ _) _).imp (by simp)) (hs.imp le_of_lt) hp
  rw [vectoredCallbacks, heq, tokens, map_map, map_map]
  rfl

theorem length_le : e.length ≤ 64 := by
  rw [← length_map (f := Prod.fst), ← h.perm.length_eq, ← h.size]
  exact length_filter_le _ _

theorem full : e.length = 64 ↔ s.slots.findIdx? (fun slot => !slot.used) = none := by
  rw [← length_map (f := Prod.fst), ← h.perm.length_eq, ← h.size,
    length_filter_eq_length_iff, findIdx?_eq_none_iff]
  simp

theorem tokens_nodup : ((tokens base e).map Prod.fst).Nodup := by
  rw [tokens, map_map]
  refine h.nodup.map_on fun x hx y hy hxy => ?_
  obtain ⟨v, i⟩ := x
  obtain ⟨w, j⟩ := y
  obtain rfl : i = j := slotAddress_inj.1 hxy
  have hv := ((h.mem v i).1 hx).1
  rw [((h.mem w i).1 hy).1] at hv
  rw [Option.some.inj hv]

theorem mem_tokens {i : ℕ} : slotAddress base i ∈ (tokens base e).map Prod.fst ↔
    (s.slots.getD i {}).used := by
  rw [tokens, map_map, mem_map, getD_eq_getElem?_getD]
  constructor
  · rintro ⟨⟨v, j⟩, hm, hj⟩
    obtain rfl : j = i := slotAddress_inj.1 hj
    obtain ⟨hs, hu⟩ := (h.mem v j).1 hm
    rwa [hs]
  · intro hu
    cases hs : s.slots[i]? with
    | none => simp [hs] at hu
    | some v => exact ⟨(v, i), (h.mem v i).2 ⟨hs, by simpa [hs] using hu⟩, rfl⟩

/-! ### The calls -/

section Add

variable {i : ℕ} (hfr : s.slots.findIdx? (fun slot => !slot.used) = some i)
include hfr

theorem mem_set {v : VectoredHandlerSlot} (hv : v.used) (w : VectoredHandlerSlot) (j : ℕ) :
    (w, j) = (v, i) ∨ (w, j) ∈ e ↔ (s.slots.set i v)[j]? = some w ∧ w.used := by
  obtain ⟨hi, hu, -⟩ := findIdx?_eq_some_iff_getElem.1 hfr
  rw [h.mem, Prod.mk.injEq]
  by_cases hj : i = j
  · subst hj
    grind
  · grind

theorem addFirst (ha : UInt64) :
    Holds ⟨s.slots.set i ⟨true, ha, s.nextFirst⟩, s.nextFirst - 1, s.nextLast⟩
      ((⟨true, ha, s.nextFirst⟩, i) :: e) where
  mem w j := by
    rw [mem_cons]
    exact h.mem_set hfr rfl w j
  sorted := pairwise_cons.2 ⟨fun x hx => (h.between x hx).1, h.sorted⟩
  between x hx := by
    have hc := h.counters
    rcases mem_cons.1 hx with rfl | hx
    · simp only
      omega
    · obtain ⟨hf, hl⟩ := h.between x hx
      simp only
      omega
  counters := (Int.sub_one_lt_of_le le_rfl).trans h.counters
  size := by rw [length_set, h.size]

theorem addLast (ha : UInt64) :
    Holds ⟨s.slots.set i ⟨true, ha, s.nextLast⟩, s.nextFirst, s.nextLast + 1⟩
      (e ++ [(⟨true, ha, s.nextLast⟩, i)]) where
  mem w j := by
    rw [mem_append, mem_singleton, or_comm]
    exact h.mem_set hfr rfl w j
  sorted := pairwise_append.2 ⟨h.sorted, pairwise_singleton _ _, fun x hx y hy => by
    rw [mem_singleton.1 hy]
    exact (h.between x hx).2⟩
  between x hx := by
    have hc := h.counters
    rcases mem_append.1 hx with hx | hx
    · obtain ⟨hf, hl⟩ := h.between x hx
      simp only
      omega
    · rw [mem_singleton.1 hx]
      simp only
      omega
  counters := h.counters.trans (Int.lt_succ _)
  size := by rw [length_set, h.size]

end Add

theorem remove (i : ℕ) :
    Holds { s with slots := s.slots.set i {} } (e.filter fun x => x.2 ≠ i) where
  mem w j := by
    rw [mem_filter, h.mem]
    by_cases hj : i = j
    · subst hj
      simp only [ne_eq, not_true_eq_false, decide_false, Bool.false_eq_true, and_false, false_iff]
      rintro ⟨hs, hu⟩
      have hi := (List.getElem?_eq_some_iff.1 hs).1
      rw [getElem?_set_self (by simpa using hi)] at hs
      cases hs
      cases hu
    · simp [getElem?_set_ne hj, Ne.symm hj]
  sorted := h.sorted.filter _
  between x hx := h.between x (mem_of_mem_filter hx)
  counters := h.counters
  size := by rw [length_set, h.size]

theorem live_iff (handle : ℕ) : handle ∈ (tokens base e).map Prod.fst ↔
    ¬(handle = 0 ∨ handle < base ∨ base + 64 * 24 ≤ handle ∨ (handle - base) % 24 ≠ 0 ∨
      (s.slots.getD ((handle - base) / 24) {}).used = false) := by
  have hp := base.pos
  constructor
  · intro hl
    obtain ⟨x, hx, hh⟩ := mem_map.1 hl
    obtain ⟨⟨v, i⟩, hm, rfl⟩ := mem_map.1 hx
    obtain rfl : slotAddress base i = handle := hh
    have hi := (List.getElem?_eq_some_iff.1 ((h.mem v i).1 hm).1).1
    rw [h.size] at hi
    have ho : slotAddress base i - base = 24 * i := Nat.add_sub_cancel_left ..
    rw [ho, Nat.mul_div_cancel_left i (by decide), h.mem_tokens.1 hl]
    unfold slotAddress
    simp only [Bool.true_eq_false, or_false]
    omega
  · intro hc
    simp only [not_or, Bool.not_eq_false] at hc
    obtain ⟨-, hb, -, ha, hu⟩ := hc
    rw [← @mem_tokens base _ _ h] at hu
    rwa [show slotAddress base ((handle - base) / 24) = handle by unfold slotAddress; omega] at hu

theorem call (c : VehCall) : c.Meets base s (tokens base e) ∧ ∃ e', Holds (c.answer base s).2 e' ∧
      c.list (tokens base e) (c.answer base s).1 = tokens base e' := by
  cases c with
  | add m fi ha =>
    rw [VehCall.Meets, VehCall.answer, addVectoredExceptionHandler]
    split
    · exact ⟨rfl, e, h, rfl⟩
    have hf := h.full
    rw [← length_map (f := fun x => (slotAddress base x.2, x.1.routine)), ← tokens] at hf
    cases hfr : s.slots.findIdx? fun slot => !slot.used with
    | none =>
      rw [if_pos (hf.2 hfr)]
      exact ⟨rfl, e, h, rfl⟩
    | some i =>
      rw [if_neg fun hle => by simp [hfr] at hf; exact hf hle]
      have he : slotAddress base i ∉ (tokens base e).map Prod.fst := by
        obtain ⟨hi, hu, -⟩ := findIdx?_eq_some_iff_getElem.1 hfr
        rw [h.mem_tokens]
        simpa [getElem?_eq_getElem hi] using hu
      refine ⟨⟨_, _, rfl, he⟩, ?_⟩
      simp only [VehCall.list]
      split
      · exact ⟨_, h.addFirst hfr ha, rfl⟩
      · exact ⟨_, h.addLast hfr ha, by simp [tokens]⟩
  | remove hn =>
    rw [VehCall.Meets, VehCall.answer, removeVectoredExceptionHandler]
    have hl := @live_iff base _ _ h hn
    split
    · next hm =>
      have hc := hl.1 hm
      rw [if_neg hc]
      refine ⟨⟨_, rfl⟩, _, h.remove ((hn - base) / 24), ?_⟩
      rw [VehCall.list, tokens, tokens, filter_map]
      refine congrArg _ (filter_congr fun x _ => ?_)
      rw [Function.comp_apply, decide_eq_decide]
      unfold slotAddress
      omega
    · next hm =>
      rw [if_pos (not_not.1 fun hc => hm (hl.2 hc))]
      exact ⟨rfl, e, h, rfl⟩

end Holds
end VectoredHandlers

theorem playVectored_holds (base : ℕ+) (cs : List VehCall) : ∃ e, (playVectored base cs).1.Holds e ∧
      (playVectored base cs).2 = VectoredHandlers.tokens base e := by
  induction cs using List.reverseRecOn with
  | nil => exact ⟨[], .initial, rfl⟩
  | append_singleton cs c ih =>
    obtain ⟨e, hh, hl⟩ := ih
    obtain ⟨e', hh', hl'⟩ := (@VectoredHandlers.Holds.call base _ _ hh c).2
    refine ⟨e', ?_⟩
    rw [playVectored, foldl_append, ← playVectored, foldl_cons, foldl_nil, hl]
    exact ⟨hh', hl'⟩

theorem counters_le (base : ℕ+) (calls : List VehCall) :
    -1 - (calls.length : ℤ) ≤ (playVectored base calls).1.nextFirst ∧
      (playVectored base calls).1.nextLast ≤ 1 + calls.length := by
  induction calls using List.reverseRecOn with
  | nil => simp [playVectored]
  | append_singleton calls c ih =>
    have hc : ∀ s : VectoredHandlers, s.nextFirst - 1 ≤ (c.answer base s).2.nextFirst ∧
        (c.answer base s).2.nextLast ≤ s.nextLast + 1 := by
      intro s
      cases c with
      | add =>
        simp only [VehCall.answer, addVectoredExceptionHandler]
        split
        · simp
        split
        · simp
        · split_ifs
          all_goals simp
      | remove =>
        simp only [VehCall.answer, removeVectoredExceptionHandler]
        split
        all_goals simp
    have hl := hc (playVectored base calls).1
    rw [playVectored, foldl_append, ← playVectored, foldl_cons, foldl_nil, length_append,
      length_singleton]
    push_cast
    omega

/-- **The table is a list with two ends.**  After any calls a dispatch invokes the live handlers in
the order of the list, and the next call does what the list says of it; the counters have room for
a call each. -/
theorem vectoredHandlers_refine (base : ℕ+) (calls : List VehCall) :
    (∀ guest main e s, e.handlers = (playVectored base calls).1.slots →
      Dispatches guest main ((playVectored base calls).2.map Prod.snd) e s) ∧
    ((playVectored base calls).2.map Prod.fst).Nodup ∧ (playVectored base calls).2.length ≤ 64 ∧
    (∀ c : VehCall, c.Meets base (playVectored base calls).1 (playVectored base calls).2) ∧
    -1 - (calls.length : ℤ) ≤ (playVectored base calls).1.nextFirst ∧
      (playVectored base calls).1.nextLast ≤ 1 + calls.length := by
  obtain ⟨e, hh, hl⟩ := playVectored_holds base calls
  have hc := @VectoredHandlers.Holds.callbacks base _ _ hh
  rw [hl]
  refine ⟨fun guest main raised s hs => ?_, hh.tokens_nodup, ?_, fun c => (hh.call c).1,
    counters_le base calls⟩
  · have hd : Dispatches guest main _ raised s := dispatchRaisedException_eq raised s
    rwa [hs, hc] at hd
  · rw [VectoredHandlers.tokens, length_map]
    exact hh.length_le

end
end TradutorLinux.Runtime
