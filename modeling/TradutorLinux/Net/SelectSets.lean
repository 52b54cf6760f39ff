import Mathlib.Data.Finset.Card
import Mathlib.Data.List.OfFn

/-!
# The sets of select

`select` looks up the handles of its three sets, has the kernel wait for their
descriptors, and looks the handles up again to tell which are ready.  A handle that
is not found is passed over both times.

## Main definitions

* `SelectCall`
* `SelectCall.select`, `wsaFdIsSet` — the functions.
* `SelectCall.Exact` — the outputs, the returned number and the bitmaps are right.
* `SelectCall.Plain` — live handles, none ready twice, that are found again.

## Main results

* `exact_iff_plain`
-/

namespace TradutorLinux

open List

def kFdSetSize : ℕ := 1024
def kWsaENotSock : ℕ := 10038

inductive FdKind
  | read
  | write
  | except

/-- `Win32FdSet`. -/
structure Win32FdSet where
  fd_count : ℕ
  fd_array : Fin 64 → ℕ

/-- What the loops go over: `min(fd_count, 64)` handles. -/
def Win32FdSet.entries (set : Win32FdSet) : List ℕ := (ofFn set.fd_array).take set.fd_count

/-- The sets are null or can be read and written; `before` and `after` are `find_socket` with
`fd`, afterwards once for each set; `ready` are the kernel's descriptors, and `failure` is
the Winsock code of its error. -/
structure SelectCall where
  sets : FdKind → Option Win32FdSet
  before : ℕ → Option ℕ
  after : FdKind → ℕ → Option ℕ
  ready : FdKind → ℕ → Bool
  failure : Option ℕ := none

/-- `tl___WSAFDIsSet`. -/
def wsaFdIsSet (_socket : ℕ) (_set : Win32FdSet) : ℤ := 0

namespace SelectCall

variable (c : SelectCall) (k : FdKind)

def entries : List ℕ := (c.sets k).elim [] Win32FdSet.entries

/-- The descriptors that `FD_SET` gets. -/
def fds : List ℕ := (c.entries k).filterMap c.before

/-- The bitmap of a set, and what the kernel leaves of it. -/
def bitmap : Finset ℕ := (c.fds k).toFinset

def readySet : Finset ℕ := {fd ∈ c.bitmap k | c.ready k fd = true}

/-- `publish_fd_set`. -/
def publish : List ℕ :=
  (c.entries k).filter fun h => (c.after k h).any fun fd => fd ∈ c.readySet k

/-- `tl_select`: the returned number and the sets, or the error. -/
def select : Except ℕ (ℕ × (FdKind → List ℕ)) :=
  match c.failure with
  | some code => .error code
  | none =>
    let result := (c.readySet .read).card + (c.readySet .write).card + (c.readySet .except).card
    .ok (result, c.publish)

/-- The entries whose sockets the kernel has reported. -/
def reported : List ℕ :=
  (c.entries k).filter fun h => (c.before h).any fun fd => fd ∈ c.readySet k

/-- What is to be true of a call, and of a question about a socket and a set. -/
structure Exact (s : ℕ) (set : Win32FdSet) : Prop where
  outputs : ∀ r, c.select = .ok r → ∀ k, r.2 k = c.reported k
  result : ∀ r, c.select = .ok r →
    r.1 = (r.2 .read).length + (r.2 .write).length + (r.2 .except).length
  dead : ∀ k, ∀ h ∈ c.entries k, c.before h = none → c.select = .error kWsaENotSock
  bitmaps : ∀ k, ∀ fd ∈ c.bitmap k, fd < kFdSetSize
  isSet : wsaFdIsSet s set ≠ 0 ↔ s ∈ set.entries

/-- A handle is found again ready exactly if it was ready, and none is ready twice. -/
structure Settled : Prop where
  same : ∀ h ∈ c.entries k, (c.after k h).any (· ∈ c.readySet k)
    = (c.before h).any (· ∈ c.readySet k)
  nodup : ((c.fds k).filter (c.ready k)).Nodup

/-- The sets are settled unless the kernel fails; every handle is live, unless it fails with
that very code; and there is room for the descriptors in the bitmaps. -/
structure Plain (s : ℕ) (set : Win32FdSet) : Prop where
  settled : c.failure = none → ∀ k, c.Settled k
  live : c.failure = some kWsaENotSock ∨ ∀ k, ∀ h ∈ c.entries k, c.before h ≠ none
  small : ∀ k, ∀ h ∈ c.entries k, ∀ fd ∈ c.before h, fd < kFdSetSize
  absent : s ∉ set.entries

theorem length_filter_any (l : List ℕ) (f : ℕ → Option ℕ) (p : ℕ → Bool) :
    (l.filter fun h => (f h).any p).length = ((l.filterMap f).filter p).length := by
  induction l with
  | nil => rfl
  | cons h l ih =>
    cases hf : f h with
    | none => simp [hf, ih]
    | some fd => cases hp : p fd <;> simp [hf, hp, ih]

theorem length_reported : (c.reported k).length = ((c.fds k).filter (c.ready k)).length := by
  rw [fds, ← length_filter_any, reported]
  congr 1
  apply filter_congr
  intro h hh
  cases hb : c.before h with
  | none => rfl
  | some fd =>
    have hm : fd ∈ c.bitmap k := mem_toFinset.2 (mem_filterMap.2 ⟨h, hh, hb⟩)
    simp [readySet, hm]

theorem card_readySet : (c.readySet k).card = ((c.fds k).filter (c.ready k)).toFinset.card := by
  rw [readySet, bitmap, toFinset_filter]

theorem card_le : (c.readySet k).card ≤ (c.reported k).length := by
  rw [card_readySet, length_reported]
  exact toFinset_card_le _

theorem card_eq_iff :
    (c.readySet k).card = (c.reported k).length ↔ ((c.fds k).filter (c.ready k)).Nodup := by
  rw [card_readySet, length_reported]
  exact Multiset.toFinset_card_eq_card_iff_nodup

theorem publish_eq_iff :
    c.publish k = c.reported k
      ↔ ∀ h ∈ c.entries k, (c.after k h).any (· ∈ c.readySet k)
        = (c.before h).any (· ∈ c.readySet k) := by
  constructor
  · intro e h hh
    have hm : h ∈ c.publish k ↔ h ∈ c.reported k := by rw [e]
    simpa [publish, reported, hh] using hm
  · exact filter_congr

theorem select_eq_error {code : ℕ} : c.select = .error code ↔ c.failure = some code := by
  cases h : c.failure <;> simp [select, h]

theorem results_iff (hf : c.failure = none) :
    (∀ r, c.select = .ok r → (∀ k, r.2 k = c.reported k)
        ∧ r.1 = (r.2 .read).length + (r.2 .write).length + (r.2 .except).length)
      ↔ ∀ k, c.Settled k := by
  simp only [select, hf, Except.ok.injEq, forall_eq']
  constructor
  · rintro ⟨ho, hn⟩ k
    refine ⟨(c.publish_eq_iff k).1 (ho k), (c.card_eq_iff k).1 ?_⟩
    rw [ho, ho, ho] at hn
    have hr := c.card_le .read
    have hw := c.card_le .write
    have he := c.card_le .except
    cases k <;> omega
  · intro h
    have ho : ∀ k, c.publish k = c.reported k := fun k => (c.publish_eq_iff k).2 (h k).same
    have hn : ∀ k, (c.readySet k).card = (c.reported k).length :=
      fun k => (c.card_eq_iff k).2 (h k).nodup
    exact ⟨ho, by rw [ho, ho, ho, hn, hn, hn]⟩

theorem bitmaps_iff :
    (∀ fd ∈ c.bitmap k, fd < kFdSetSize)
      ↔ ∀ h ∈ c.entries k, ∀ fd ∈ c.before h, fd < kFdSetSize := by
  simp only [bitmap, fds, mem_toFinset, mem_filterMap]
  constructor
  · intro hb h hh fd hf
    exact hb fd ⟨h, hh, hf⟩
  · rintro hb fd ⟨h, hh, hf⟩
    exact hb h hh fd hf

theorem dead_iff :
    (∀ k, ∀ h ∈ c.entries k, c.before h = none → c.select = .error kWsaENotSock)
      ↔ c.failure = some kWsaENotSock ∨ ∀ k, ∀ h ∈ c.entries k, c.before h ≠ none := by
  rw [select_eq_error]
  by_cases hf : c.failure = some kWsaENotSock
  · simp [hf]
  · simp [hf]

/-- **The results are right exactly for plain sets.** -/
theorem exact_iff_plain (s : ℕ) (set : Win32FdSet) : c.Exact s set ↔ c.Plain s set := by
  have hs : (∀ r, c.select = .ok r → (∀ k, r.2 k = c.reported k)
      ∧ r.1 = (r.2 .read).length + (r.2 .write).length + (r.2 .except).length)
      ↔ (c.failure = none → ∀ k, c.Settled k) := by
    cases hf : c.failure with
    | none =>
      rw [c.results_iff hf]
      simp
    | some code => simp [select, hf]
  constructor
  · intro h
    refine ⟨hs.1 fun r hr => ⟨h.outputs r hr, h.result r hr⟩, c.dead_iff.1 h.dead,
      fun k => (c.bitmaps_iff k).1 (h.bitmaps k), ?_⟩
    simpa [wsaFdIsSet] using h.isSet
  · intro h
    have hr := hs.2 h.settled
    refine ⟨fun r e => (hr r e).1, fun r e => (hr r e).2, c.dead_iff.2 h.live,
      fun k => (c.bitmaps_iff k).2 (h.small k), ?_⟩
    simpa [wsaFdIsSet] using h.absent

/-- **One socket twice in the set of readers is counted once.** -/
theorem not_selectCall_exact : ¬∀ (c : SelectCall) (s : ℕ) (set : Win32FdSet), c.Exact s set := by
  intro h
  have hr := (h {
    sets := fun k => match k with
      | .read => some ⟨2, fun _ => 7⟩
      | _ => none
    before := fun _ => some 3
    after := fun _ _ => some 3
    ready := fun _ _ => true } 8 ⟨0, fun _ => 0⟩).result _ rfl
  revert hr
  decide

end SelectCall

end TradutorLinux
