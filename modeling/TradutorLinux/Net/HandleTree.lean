import TradutorLinux.Net.InternetSlots

/-!
# The tree of the WinINet handles

Closing a handle clears the slots below it one after the other, while it still
follows the parents through them: a request behind the slot of its connection is
no longer reached from the session.

## Main definitions

* `Tree` — parents are live and of the right kind.
* `Under` — a slot is below another.
* `TreeKept`

## Main results

* `handle_tree`
-/

namespace TradutorLinux.WinInet

open Function Option InternetSlots

/-- Live connections are below live sessions, and live requests below live connections. -/
structure Tree (slots : InternetSlots) : Prop where
  session : ∀ i, (slots i).used = true → (slots i).kind = .session → (slots i).parent = none
  connection : ∀ i, (slots i).used = true → (slots i).kind = .connection →
    ∃ p, (slots i).parent = some p ∧ (slots p).used = true ∧ (slots p).kind = .session
  request : ∀ i, (slots i).used = true → (slots i).kind = .request →
    ∃ p, (slots i).parent = some p ∧ (slots p).used = true ∧ (slots p).kind = .connection
  bounded : ∀ i, (slots i).used = true → i < kMaxInternetHandles

/-- The slot is `h` or comes to it along the parents. -/
def Under (slots : InternetSlots) (h i : ℕ) : Prop :=
  Relation.ReflTransGen (fun i p => (slots i).parent = some p) i h

/-- Every slot is as in the table, or cleared. -/
def Cut (slots s : InternetSlots) : Prop := ∀ i, s i = slots i ∨ s i = {}

section Walks

variable {slots s : InternetSlots} {h i p : ℕ}

theorem under_iff : Under slots h i ↔ i = h ∨ ∃ p, (slots i).parent = some p ∧ Under slots h p := by
  unfold Under
  rw [Relation.ReflTransGen.cases_head_iff]

theorem Tree.parent_live (ht : Tree slots) (hu : (slots i).used)
    (hp : (slots i).parent = some p) : (slots p).used ∧
      ((slots i).kind = .connection ∧ (slots p).kind = .session ∨
        (slots i).kind = .request ∧ (slots p).kind = .connection) := by
  cases hk : (slots i).kind with
  | session =>
    rw [ht.session i hu hk] at hp
    cases hp
  | connection =>
    obtain ⟨p', hp', hl, hs⟩ := ht.connection i hu hk
    cases hp.symm.trans hp'
    exact ⟨hl, .inl ⟨rfl, hs⟩⟩
  | request =>
    obtain ⟨p', hp', hl, hc⟩ := ht.request i hu hk
    cases hp.symm.trans hp'
    exact ⟨hl, .inr ⟨rfl, hc⟩⟩

theorem Cut.parent (hc : Cut slots s) (hp : (s i).parent = some p) :
    s i = slots i ∧ (slots i).parent = some p := by
  rcases hc i with heq | heq
  · exact ⟨heq, heq ▸ hp⟩
  · rw [heq] at hp
    cases hp

theorem Cut.grandparent (ht : Tree slots) (hc : Cut slots s) (hu : (s i).used)
    (hp : (s i).parent = some p) {q : ℕ} (hq : (s p).parent = some q) : (s q).parent = none := by
  obtain ⟨hi, hp'⟩ := hc.parent hp
  rw [hi] at hu
  obtain ⟨hpl, -⟩ := ht.parent_live hu hp'
  obtain ⟨-, hq'⟩ := hc.parent hq
  obtain ⟨hql, hki⟩ := ht.parent_live hpl hq'
  cases hr : (s q).parent with
  | none => rfl
  | some r =>
    obtain ⟨-, hr'⟩ := hc.parent hr
    obtain ⟨-, hi'⟩ := ht.parent_live hql hr'
    obtain ⟨-, hb⟩ := ht.parent_live hu hp'
    -- a session, a connection and a request are all there is
    rcases hki with ⟨hk, hk'⟩ | ⟨hk, hk'⟩ <;> rcases hi' with ⟨hl, -⟩ | ⟨hl, -⟩ <;>
      rcases hb with ⟨-, hm⟩ | ⟨-, hm⟩ <;> simp_all

attribute [local simp] InternetSlots.descendantOfLocked

theorem descendantOfLocked_eq (ht : Tree slots) (hc : Cut slots s) (hu : (s i).used)
    (f : ℕ) : s.descendantOfLocked h (f + 4) (some i) =
      some (decide (i = h ∨ ∃ p ∈ (s i).parent, p = h ∨ (s p).parent = some h)) := by
  rw [descendantOfLocked]
  split
  · next heq => simp [heq]
  next hn =>
  cases hp : (s i).parent with
  | none => simp [hn]
  | some p =>
    rw [descendantOfLocked]
    split
    · next heq => simp [heq]
    next hn' =>
    cases hq : (s p).parent with
    | none => simp [hn, hn', hq]
    | some q =>
      rw [descendantOfLocked, hc.grandparent ht hu hp hq]
      split
      · next heq => simp [hq, heq]
      · next hn'' => simp [hn, hn', hn'', hq]

theorem Tree.under_iff (ht : Tree slots) (hs : (slots i).used) :
    Under slots h i ↔ i = h ∨ ∃ p ∈ (slots i).parent, p = h ∨ (slots p).parent = some h := by
  rw [WinInet.under_iff]
  apply or_congr_right
  apply exists_congr
  intro p
  apply and_congr_right
  intro hp
  rw [WinInet.under_iff]
  apply or_congr_right
  constructor
  · rintro ⟨q, hq, hu⟩
    rw [WinInet.under_iff] at hu
    rcases hu with rfl | ⟨r, hr, -⟩
    · exact hq
    · rw [Cut.grandparent ht (fun _ => .inl rfl) hs hp hq] at hr
      cases hr
  · intro hq
    exact ⟨h, hq, Relation.ReflTransGen.refl⟩

/-- The walks from the live slots end, at live sessions. -/
def WalksEnd (slots : InternetSlots) : Prop :=
  ∀ i, (slots i).used = true →
    (∃ root, slots.rootSessionLocked kWalk i = some root ∧
      (slots root).used = true ∧ (slots root).kind = .session) ∧
    ∀ member, (slots.effectiveTimeoutLocked member kWalk i).isSome = true

theorem Tree.rootSession (ht : Tree slots) (hu : (slots i).used) (f : ℕ) :
    ∃ r, slots.rootSessionLocked (f + 3) i = some r ∧
      (slots r).used ∧ (slots r).kind = .session := by
  have hs : ∀ i f, (slots i).used → (slots i).kind = .session →
      slots.rootSessionLocked (f + 1) i = some i := by
    intro i f hu hk
    rw [rootSessionLocked, ht.session i hu hk]
  have hc : ∀ i f, (slots i).used → (slots i).kind = .connection →
      ∃ r, slots.rootSessionLocked (f + 2) i = some r ∧
        (slots r).used ∧ (slots r).kind = .session := by
    intro i f hu hk
    obtain ⟨p, hp, hl, hk'⟩ := ht.connection i hu hk
    exact ⟨p, by rw [rootSessionLocked, hp]; exact hs p f hl hk', hl, hk'⟩
  cases hk : (slots i).kind with
  | session => exact ⟨i, hs i _ hu hk, hu, hk⟩
  | connection => exact hc i (f + 1) hu hk
  | request =>
    obtain ⟨p, hp, hl, hk'⟩ := ht.request i hu hk
    obtain ⟨r, hr, he⟩ := hc p f hl hk'
    exact ⟨r, by rw [rootSessionLocked, hp]; exact hr, he⟩

theorem isSome_effectiveTimeout {m : InternetSlot → UInt32} {f r : ℕ}
    (h : slots.rootSessionLocked f i = some r) : (slots.effectiveTimeoutLocked m f i).isSome := by
  induction f generalizing i with
  | zero => cases h
  | succ f ih =>
    rw [rootSessionLocked] at h
    rw [effectiveTimeoutLocked]
    split
    · rfl
    cases hp : (slots i).parent with
    | none => rfl
    | some p =>
      rw [hp] at h
      exact ih h

theorem Tree.walksEnd (ht : Tree slots) : WalksEnd slots := by
  intro i hu
  obtain ⟨r, hr, he⟩ := ht.rootSession hu 254
  exact ⟨⟨r, hr, he⟩, fun m => isSome_effectiveTimeout hr⟩

/-! ### Closing -/

/-- What the close of `h` reaches: a slot two links away only if it comes before the one
between. -/
def Reached (slots : InternetSlots) (h i : ℕ) : Prop :=
  i = h ∨ ∃ p ∈ (slots i).parent, p = h ∨ ((slots p).parent = some h ∧ i ≤ p)

instance : Decidable (Reached slots h i) := inferInstanceAs (Decidable (_ ∨ _))

/-- The table after `count` rounds. -/
def closedAt (slots : InternetSlots) (h count : ℕ) : InternetSlots := fun i =>
  if i < count ∧ (slots i).used = true ∧ Reached slots h i then {} else slots i

theorem cut_closedAt {n : ℕ} : Cut slots (closedAt slots h n) := by
  intro i
  unfold closedAt
  split
  · exact .inr rfl
  · exact .inl rfl

attribute [local simp] closedAt

/-- **The loop of `tl_InternetCloseHandle` clears what it still reaches.** -/
theorem closeSlots_eq (ht : Tree slots) (count : ℕ) :
    closeSlots h slots count = some (closedAt slots h count) := by
  induction count with
  | zero =>
    have hs : closedAt slots h 0 = slots := by
      funext i
      simp
    rw [closeSlots, hs]
  | succ count ih =>
    rw [closeSlots, ih, bind_some, closeSlot]
    have hat : closedAt slots h count count = slots count := by simp
    have hn : closedAt slots h (count + 1) =
        if (slots count).used ∧ Reached slots h count then
          Function.update (closedAt slots h count) count {} else closedAt slots h count := by
      funext i
      by_cases hi : i = count
      · subst hi
        split
        · next hr => simp [hr]
        · next hnot => simp [hnot]
      · have hl : i < count + 1 ↔ i < count := by omega
        split
        · rw [update_of_ne hi]
          simp [hl]
        · simp [hl]
    rw [hat, hn]
    by_cases hu : (slots count).used
    · have hw := descendantOfLocked_eq (h := h) ht (@cut_closedAt slots h count)
        (by rw [hat]; exact hu) 253
      have hr : (count = h ∨ ∃ p ∈ (closedAt slots h count count).parent,
          p = h ∨ (closedAt slots h count p).parent = some h) ↔ Reached slots h count := by
        rw [hat]
        apply or_congr_right
        apply exists_congr
        intro p
        apply and_congr_right
        intro hp
        apply or_congr_right
        obtain ⟨hpl, -⟩ := ht.parent_live hu hp
        unfold closedAt
        constructor
        · intro ha
          split at ha
          · cases ha
          next hnot =>
          refine ⟨ha, ?_⟩
          by_contra hl
          exact hnot ⟨by omega, hpl, .inr ⟨h, ha, .inl rfl⟩⟩
        · rintro ⟨ha, he⟩
          rw [if_neg (by omega)]
          exact ha
      rw [if_pos hu, show kWalk = 253 + 4 from rfl, hw, map_some]
      simp only [hr, decide_eq_true_eq, hu, true_and]
    · simp [hu]

/-- The table without what is below `h`. -/
def without (slots : InternetSlots) (h : ℕ) (s : InternetSlots) : Prop :=
  ∀ i, ((slots i).used = true ∧ Under slots h i → s i = {}) ∧
    (¬((slots i).used = true ∧ Under slots h i) → s i = slots i)

/-- Behind its connection, no live request is below `h`. -/
def InOrder (slots : InternetSlots) (h : ℕ) : Prop :=
  ∀ c r, (slots c).used = true → (slots r).used = true → (slots c).parent = some h →
    (slots r).parent = some c → r < c

/-- **The close frees all that is below the handle exactly if the requests come first.** -/
theorem without_closedAt_iff (ht : Tree slots) :
    without slots h (closedAt slots h kMaxInternetHandles) ↔ InOrder slots h := by
  have hre : ∀ i, (slots i).used → (Reached slots h i → Under slots h i) := by
    intro i hu hi
    rw [ht.under_iff hu]
    rcases hi with rfl | ⟨p, hp, rfl | ⟨ha, -⟩⟩
    · exact .inl rfl
    · exact .inr ⟨p, hp, .inl rfl⟩
    · exact .inr ⟨p, hp, .inr ha⟩
  constructor
  · intro hw c r hc hr hch hrc
    by_contra hle
    have hun : Under slots h r :=
      (ht.under_iff hr).2 (.inr ⟨c, hrc, .inr hch⟩)
    have he := (hw r).1 ⟨hr, hun⟩
    unfold closedAt at he
    split at he
    · next hcl =>
      -- a request is neither a session nor the child of one
      obtain ⟨hci, hki⟩ := ht.parent_live hr hrc
      obtain ⟨hh, hk'⟩ := ht.parent_live hc hch
      rcases hcl.2.2 with rfl | ⟨p, hp, rfl | ⟨ha, hlt⟩⟩
      · rcases hki with ⟨hk, hl⟩ | ⟨hk, hl⟩ <;> rcases hk' with ⟨hm, hn⟩ | ⟨hm, hn⟩ <;>
          simp_all
      · cases hrc.symm.trans hp
        rcases hk' with ⟨hm, hn⟩ | ⟨hm, hn⟩ <;> simp_all
      · cases hrc.symm.trans hp
        obtain rfl : r = c := by omega
        rcases hki with ⟨hk, hl⟩ | ⟨hk, hl⟩ <;> simp_all
    · rw [he] at hr
      cases hr
  · intro ho i
    constructor
    · rintro ⟨hu, hun⟩
      refine if_pos ⟨ht.bounded i hu, hu, ?_⟩
      rcases (ht.under_iff hu).1 hun with rfl | ⟨p, hp, rfl | ha⟩
      · exact .inl rfl
      · exact .inr ⟨p, hp, .inl rfl⟩
      · have hpl := (ht.parent_live hu hp).1
        exact .inr ⟨p, hp, .inr ⟨ha, (ho p i hpl hu ha hp).le⟩⟩
    · intro hnot
      exact if_neg fun hcl => hnot ⟨hcl.2.1, hre i hcl.2.1 hcl.2.2⟩

theorem Tree.without (ht : Tree slots) (hs : without slots h s) : Tree s := by
  have hl : ∀ i, (s i).used → s i = slots i ∧ ¬Under slots h i := by
    intro i hu
    by_cases hc : (slots i).used ∧ Under slots h i
    · rw [(hs i).1 hc] at hu
      cases hu
    · have heq := (hs i).2 hc
      rw [heq] at hu
      exact ⟨heq, fun hn => hc ⟨hu, hn⟩⟩
  have ha : ∀ i p, (s i).used → (slots i).parent = some p → (slots p).used →
      s p = slots p := by
    intro i p hu hp hpl
    refine (hs p).2 fun hc => (hl i hu).2 ?_
    exact WinInet.under_iff.2 (.inr ⟨p, hp, hc.2⟩)
  refine ⟨fun i hu hk => ?_, fun i hu hk => ?_, fun i hu hk => ?_, fun i hu => ?_⟩
  · have heq := (hl i hu).1
    rw [heq] at hu hk ⊢
    exact ht.session i hu hk
  · have heq := (hl i hu).1
    have hu' := heq ▸ hu
    obtain ⟨p, hp, hpl, hpk⟩ := ht.connection i hu' (heq ▸ hk)
    have he := ha i p hu hp hpl
    exact ⟨p, heq ▸ hp, he ▸ hpl, he ▸ hpk⟩
  · have heq := (hl i hu).1
    have hu' := heq ▸ hu
    obtain ⟨p, hp, hpl, hpk⟩ := ht.request i hu' (heq ▸ hk)
    have he := ha i p hu hp hpl
    exact ⟨p, heq ▸ hp, he ▸ hpl, he ▸ hpk⟩
  · exact ht.bounded i ((hl i hu).1 ▸ hu)

/-! ### The other calls -/

theorem firstFree_spec {ix : ℕ} (hf : slots.firstFree = some ix) :
    (slots ix).used = false ∧ ix < kMaxInternetHandles := by
  refine ⟨?_, List.mem_range.1 (List.mem_of_find?_eq_some hf)⟩
  simpa using List.find?_some hf

theorem findKind_spec {hn ix : ℕ} {kind : HandleKind} (hf : slots.findKind hn kind = some ix) :
    (slots ix).used ∧ (slots ix).kind = kind := by
  obtain ⟨hl, hk⟩ := filter_eq_some_iff.1 hf
  exact ⟨(filter_eq_some_iff.1 hl).2, by simpa using hk⟩

section

variable (ht : Tree slots)
include ht

theorem Tree.allocate {sl : InternetSlot} {ix : ℕ} (hs : sl.kind = .session ∧ sl.parent = none ∨
      ∃ p, sl.parent = some p ∧ (slots p).used ∧
        (sl.kind = .connection ∧ (slots p).kind = .session ∨
          sl.kind = .request ∧ (slots p).kind = .connection))
    (ha : slots.allocateHandleLocked sl = some (s, ix)) : Tree s := by
  obtain ⟨index', hf, heq⟩ := map_eq_some_iff.1 ha
  obtain ⟨rfl, rfl⟩ := Prod.mk.inj heq
  obtain ⟨hun, hb⟩ := firstFree_spec hf
  have hn : ∀ p, (slots p).used → p ≠ index' := by
    rintro p hl rfl
    rw [hun] at hl
    cases hl
  -- a live slot is as it was, or the new one
  have hl : ∀ i, (Function.update slots index' sl i).used →
      i = index' ∨ i ≠ index' ∧ (slots i).used := by
    intro i hu
    by_cases hi : i = index'
    · exact .inl hi
    · rw [update_of_ne hi] at hu
      exact .inr ⟨hi, hu⟩
  refine ⟨fun i hu hki => ?_, fun i hu hki => ?_, fun i hu hki => ?_, fun i hu => ?_⟩
  · rcases hl i hu with rfl | ⟨hi, hu'⟩
    · rw [update_self] at hki ⊢
      rcases hs with ⟨-, hr⟩ | ⟨p, -, -, ⟨hk, -⟩ | ⟨hk, -⟩⟩
      · exact hr
      · rw [hki] at hk
        cases hk
      · rw [hki] at hk
        cases hk
    · rw [update_of_ne hi] at hki ⊢
      exact ht.session i hu' hki
  · rcases hl i hu with rfl | ⟨hi, hu'⟩
    · rw [update_self] at hki ⊢
      rcases hs with ⟨hk, -⟩ | ⟨p, hp, hpl, ⟨-, hpk⟩ | ⟨hk, -⟩⟩
      · rw [hki] at hk
        cases hk
      · exact ⟨p, hp, by rw [update_of_ne (hn p hpl)]; exact ⟨hpl, hpk⟩⟩
      · rw [hki] at hk
        cases hk
    · rw [update_of_ne hi] at hki ⊢
      obtain ⟨p, hp, hpl, hpk⟩ := ht.connection i hu' hki
      exact ⟨p, hp, by rw [update_of_ne (hn p hpl)]; exact ⟨hpl, hpk⟩⟩
  · rcases hl i hu with rfl | ⟨hi, hu'⟩
    · rw [update_self] at hki ⊢
      rcases hs with ⟨hk, -⟩ | ⟨p, hp, hpl, ⟨hk, -⟩ | ⟨-, hpk⟩⟩
      · rw [hki] at hk
        cases hk
      · rw [hki] at hk
        cases hk
      · exact ⟨p, hp, by rw [update_of_ne (hn p hpl)]; exact ⟨hpl, hpk⟩⟩
    · rw [update_of_ne hi] at hki ⊢
      obtain ⟨p, hp, hpl, hpk⟩ := ht.request i hu' hki
      exact ⟨p, hp, by rw [update_of_ne (hn p hpl)]; exact ⟨hpl, hpk⟩⟩
  · rcases hl i hu with rfl | ⟨hi, hu'⟩
    · exact hb
    · exact ht.bounded i hu'

theorem Tree.same (hu : ∀ i, (s i).used = (slots i).used)
    (hk : ∀ i, (s i).kind = (slots i).kind) (hp : ∀ i, (s i).parent = (slots i).parent) :
    Tree s := by
  refine ⟨?_, ?_, ?_, ?_⟩ <;> simp only [hu, hk, hp]
  · exact ht.session
  · exact ht.connection
  · exact ht.request
  · exact ht.bounded

theorem Tree.update {ix : ℕ} {sl : InternetSlot}
    (hu : sl.used = (slots ix).used) (hk : sl.kind = (slots ix).kind)
    (hp : sl.parent = (slots ix).parent) : Tree (Function.update slots ix sl) := by
  have ha : ∀ {α : Type} (f : InternetSlot → α), f sl = f (slots ix) →
      ∀ i, f (Function.update slots ix sl i) = f (slots i) := by
    intro α f hf i
    by_cases hi : i = ix
    · rw [hi, update_self, hf]
    · rw [update_of_ne hi]
  exact ht.same (ha InternetSlot.used hu) (ha InternetSlot.kind hk) (ha InternetSlot.parent hp)

theorem Tree.internetOpen (a : OpenArgs) : Tree (internetOpen slots a).1 := by
  unfold WinInet.internetOpen
  cases (if given a.userAgent then copyWideZ a.userAgent else some []) with
  | none => exact ht
  | some ag =>
    dsimp only
    split
    · exact ht
    split
    · exact ht
    · next ha => exact ht.allocate (.inl ⟨rfl, rfl⟩) ha

theorem Tree.internetConnect (a : ConnectArgs) : Tree (internetConnect slots a).1 := by
  unfold WinInet.internetConnect
  cases copyWideZ a.serverName with
  | none => exact ht
  | some se =>
    dsimp only
    split
    · exact ht
    cases hf : slots.findKind a.internet .session with
    | none => exact ht
    | some pa =>
      obtain ⟨hl, hk⟩ := findKind_spec hf
      dsimp only
      split
      · exact ht
      · next ha => exact ht.allocate (.inr ⟨pa, rfl, hl, .inl ⟨rfl, hk⟩⟩) ha

theorem Tree.httpOpenRequest (a : RequestArgs) : Tree (httpOpenRequest slots a).1 := by
  unfold WinInet.httpOpenRequest
  cases a.parse with
  | none => exact ht
  | some ss =>
    cases hf : slots.findKind a.connect .connection with
    | none => exact ht
    | some pa =>
      obtain ⟨hl, hk⟩ := findKind_spec hf
      dsimp only
      split
      · exact ht
      · next ha => exact ht.allocate (.inr ⟨pa, rfl, hl, .inr ⟨rfl, hk⟩⟩) ha

theorem Tree.httpAddRequestHeaders (a : HeadersArgs) : Tree (httpAddRequestHeaders slots a).1 := by
  unfold WinInet.httpAddRequestHeaders
  cases a.text with
  | none => exact ht
  | some t =>
    cases slots.findKind a.request .request with
    | none => exact ht
    | some ix =>
      dsimp only
      cases mergeHeaders (slots ix).headers t a.modifiers with
      | none => exact ht
      | some hs => exact ht.update rfl rfl rfl

end

theorem sendRequest_tree {re r' : InternetSlot} {t : ByteString} {a : SendArgs}
    {es : Bool} {r : InternetReply} (hs : sendRequest re t a es = some (r', r)) :
    r'.used = re.used ∧ r'.kind = re.kind ∧ r'.parent = re.parent := by
  dsimp only [sendRequest] at hs
  split at hs
  · cases hs
    exact ⟨rfl, rfl, rfl⟩
  split at hs
  · cases hs
    exact ⟨rfl, rfl, rfl⟩
  split at hs
  · cases hr : a.transport with
    | error le =>
      rw [hr] at hs
      cases hs
      exact ⟨rfl, rfl, rfl⟩
    | response ss rh b =>
      rw [hr] at hs
      cases hs
      exact ⟨rfl, rfl, rfl⟩
  · cases hs

theorem Tree.httpSendRequest (ht : Tree slots) {a : SendArgs} {r : InternetReply}
    (hs : httpSendRequest slots a = some (s, r)) : Tree s := by
  unfold WinInet.httpSendRequest at hs
  split at hs
  · cases hs
    exact ht
  split at hs
  · cases hs
    exact ht
  split at hs
  · cases hs
    exact ht
  · obtain ⟨⟨re, r'⟩, hr, heq⟩ := map_eq_some_iff.1 hs
    cases heq
    obtain ⟨hu, hk, hp⟩ := sendRequest_tree hr
    exact ht.update hu hk hp

end Walks

/-! ### Runs -/

/-- What a call has to do: afterwards parents are live and of the right kind, the walks end, and
a close has freed the slots below the handle and no others. -/
def TreeKept (slots : InternetSlots) (c : InternetCall) (s : InternetSlots) : Prop :=
  Tree s ∧ WalksEnd s ∧ ∀ internet h, c = .closeHandle internet →
    slots.findHandleLocked internet = some h → without slots h s

/-- No handle is closed with a request below it that is in a slot behind that of its
connection. -/
def ClosesInOrder (slots : InternetSlots) (c : InternetCall) : Prop :=
  ∀ internet h, c = .closeHandle internet → slots.findHandleLocked internet = some h →
    InOrder slots h

section Runs

variable {slots s : InternetSlots} {c : InternetCall}

theorem internetCloseHandle_eq (ht : Tree slots) {ie h : ℕ}
    (hf : slots.findHandleLocked ie = some h) :
    internetCloseHandle slots ie =
      some (closedAt slots h kMaxInternetHandles, ⟨1, Runtime.kErrorSuccess⟩) := by
  unfold internetCloseHandle
  rw [hf]
  dsimp only
  rw [closeSlots_eq ht, map_some]

theorem Tree.step (ht : Tree slots) (ho : ClosesInOrder slots c)
    (hs : slots.step c = some s) : Tree s := by
  obtain ⟨⟨s', r⟩, hc, rfl⟩ := map_eq_some_iff.1 hs
  cases c with
  | openSession a =>
    obtain rfl := congrArg Prod.fst (some.inj hc)
    exact ht.internetOpen a
  | connect a =>
    obtain rfl := congrArg Prod.fst (some.inj hc)
    exact ht.internetConnect a
  | openRequest a =>
    obtain rfl := congrArg Prod.fst (some.inj hc)
    exact ht.httpOpenRequest a
  | addHeaders a =>
    obtain rfl := congrArg Prod.fst (some.inj hc)
    exact ht.httpAddRequestHeaders a
  | send a => exact ht.httpSendRequest hc
  | closeHandle ie =>
    cases hf : slots.findHandleLocked ie with
    | none =>
      simp only [InternetSlots.call, internetCloseHandle, hf] at hc
      cases hc
      exact ht
    | some h =>
      rw [show slots.call (.closeHandle ie) = _ from internetCloseHandle_eq ht hf] at hc
      cases hc
      exact ht.without ((without_closedAt_iff ht).2 (ho ie h rfl hf))

/-- **In a tree a call does what it has to do exactly if it is in order.** -/
theorem treeKept_iff (ht : Tree slots) (hst : slots.step c = some s) :
    TreeKept slots c s ↔ ClosesInOrder slots c := by
  have hl : ∀ ie h, c = .closeHandle ie →
      slots.findHandleLocked ie = some h → s = closedAt slots h kMaxInternetHandles := by
    rintro ie h rfl hf
    obtain ⟨⟨s', r⟩, ha, rfl⟩ := map_eq_some_iff.1 hst
    rw [show slots.call (.closeHandle ie) = _ from internetCloseHandle_eq ht hf] at ha
    exact (congrArg Prod.fst (some.inj ha)).symm
  constructor
  · rintro ⟨-, -, hw⟩ ie h hc hf
    have hs := hw ie h hc hf
    rw [hl ie h hc hf] at hs
    exact (without_closedAt_iff ht).1 hs
  · intro ho
    have hr := ht.step ho hst
    refine ⟨hr, hr.walksEnd, fun ie h hc hf => ?_⟩
    rw [hl ie h hc hf]
    exact (without_closedAt_iff ht).2 (ho ie h hc hf)

attribute [local simp] InternetSlots.call

theorem Tree.step_isSome (ht : Tree slots) (c : InternetCall) : (slots.step c).isSome := by
  unfold InternetSlots.step
  cases c with
  | openSession a => rfl
  | connect a => rfl
  | openRequest a => rfl
  | addHeaders a => rfl
  | send a =>
    simp only [InternetSlots.call, WinInet.httpSendRequest]
    cases a.text with
    | none => rfl
    | some t =>
      cases hf : slots.findKind a.request .request with
      | none => rfl
      | some ix =>
        dsimp only
        split
        · rfl
        obtain ⟨hl, hk⟩ := findKind_spec hf
        obtain ⟨p, hp, hpl, -⟩ := ht.request ix hl hk
        have he : slots.walksEnd ix := by
          obtain ⟨r, hr, -⟩ := (ht.walksEnd p hpl).1
          have hi := (ht.walksEnd ix hl).2
          unfold InternetSlots.walksEnd
          rw [hp, bind_some, hr]
          simp [hi]
        rw [he, isSome_map]
        dsimp only [sendRequest]
        split
        · rfl
        · split <;> rfl
  | closeHandle ie =>
    cases hf : slots.findHandleLocked ie with
    | none => simp [internetCloseHandle, hf]
    | some h => simp [internetCloseHandle_eq ht hf]

theorem tree_noSlots : Tree noSlots where
  session _ h := by cases h
  connection _ h := by cases h
  request _ h := by cases h
  bounded _ h := by cases h

end Runs

/-- **In a run from the empty table parents are live and of the right kind, the walks end, and
closes free the slots below the handle and no others, exactly if no handle is closed with a
request below it that is in a slot behind that of its connection; the calls of such a run
end.** -/
theorem handle_tree (calls : List InternetCall) :
    (EachStep InternetSlots.step TreeKept noSlots calls ↔
      EachStep InternetSlots.step (fun slots c _ => ClosesInOrder slots c) noSlots calls) ∧
    (EachStep InternetSlots.step (fun slots c _ => ClosesInOrder slots c) noSlots calls →
      (runAll InternetSlots.step noSlots calls).isSome = true) := by
  constructor
  · exact eachStep_iff (fun _ _ _ (ht : Tree _) => treeKept_iff ht)
      (fun _ _ _ (ht : Tree _) => ht.step) tree_noSlots calls
  · have hu : ∀ slots, Tree slots →
        EachStep InternetSlots.step (fun slots c _ => ClosesInOrder slots c) slots calls →
        (runAll InternetSlots.step slots calls).isSome = true := by
      intro slots ht
      induction calls generalizing slots with
      | nil => exact fun _ => rfl
      | cons c calls ih =>
        intro hk
        obtain ⟨s, hs⟩ := isSome_iff_exists.mp (ht.step_isSome c)
        obtain ⟨ho, hr⟩ := hk s hs
        rw [runAll, hs, bind_some]
        exact ih s (ht.step ho hs) hr
    exact hu noSlots tree_noSlots

/-- The request is live after its session has been closed, below a slot that is free. -/
theorem not_handle_tree : ∃ slots, runAll InternetSlots.step noSlots
    (openedRequest ++ [.closeHandle (handleValue 0)]) = some slots ∧
    (slots 2).used = true ∧ (slots 2).parent = some 1 ∧ (slots 1).used = false := by
  obtain ⟨slots, hr, ha⟩ := map_eq_some_iff.mp (show (runAll InternetSlots.step noSlots
      (openedRequest ++ [.closeHandle (handleValue 0)])).map (fun slots =>
      ((slots 2).used, (slots 2).parent, (slots 1).used)) = some (true, some 1, false)
      by decide +kernel)
  obtain ⟨hu, hp, hf⟩ := by simpa only [Prod.mk.injEq] using ha
  exact ⟨slots, hr, hu, hp, hf⟩

end TradutorLinux.WinInet
