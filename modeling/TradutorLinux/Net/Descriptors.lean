import TradutorLinux.Net.Sockets

/-!
# Sockets and the descriptors they act on

A call makes its system call on the descriptor that it copied.  The generation
guards only what it publishes afterwards: in between, `closesocket` may free the
descriptor and `socket` or `accept` may be given the same number, and the system
call goes to another connection.  The generations themselves are those of 32 bits.

## Main definitions

* `Winsock.Isolated` — a step's system call is on the instance its socket was
  made for, and it publishes to the slot of its own socket.
* `Winsock.Orderly` — a new descriptor has no number that a call still holds, and
  a new socket no generation that a call still holds for its slot.
* `Winsock.Sound` — the invariant of the orderly runs.

## Main results

* `sockets_isolated`
-/

namespace TradutorLinux.Winsock

open Function Pool Entries SocketCall

open Option

open Winsock (Action)

variable {s s' t : Winsock}

/-! ### Whose instance a step acts on -/

/-- The socket on whose behalf the step makes its system call, and the instance that the
call reaches. -/
def actsFor (s : Winsock) : Action → Option (ℕ × Option ℕ)
  | .closesocket handle =>
    (s.findSocket handle).map fun i => (s.lives i, s.instanceAt (s.sockets i).fd)
  | .systemCall n _ =>
    match s.calls[n]? with
    | some (.on c, .resolved) => some (c.life, s.instanceAt c.fd)
    | _ => none
  | .addressFault n | .publish n =>
    match s.calls[n]? with
    | some (_, .opened fd life) => some (life, s.instanceAt (some fd))
    | _ => none
  | _ => none

/-- The socket whose call publishes, and the socket that the slot holds. -/
def publishesFor (s : Winsock) : Action → Option (ℕ × ℕ)
  | .publish n =>
    match s.calls[n]? with
    | some (.on c, .issued _) =>
      (s.resolveIfCurrent c.handle c.generation).map fun i => (c.life, s.lives i)
    | some (.on c, .opened fd life) =>
      let s' := s.install kSockStream fd life
      (s'.resolveIfCurrent c.handle c.generation).map fun i => (c.life, s'.lives i)
    | _ => none
  | _ => none

/-- The system call of the step reaches the instance that the socket was made for or a closed
descriptor, and what it publishes goes to the slot of that socket. -/
def Isolated (s : Winsock) (a : Action) : Prop :=
  (∀ life x, s.actsFor a = some (life, some x) → x = life) ∧
    ∀ life other, s.publishesFor a = some (life, other) → other = life

/-! ### Orderly steps -/

/-- No call is about to use the number that the kernel gives out next. -/
def FreshDescriptor (s : Winsock) : Prop :=
  ∀ n c, s.calls.At n (.on c) .resolved → c.fd ≠ some s.descriptors.lowestFree

/-- The call is under way, and will come back to the mutex. -/
def ToPublish (c : SocketLookup) (x : CallPhase) : Prop :=
  x ≠ .returned ∧ (x = .resolved → c.function.publishes = true)

/-- No call that is to publish holds the next slot and the next generation. -/
def FreshGeneration (s : Winsock) : Prop :=
  ∀ i, s.freeSlot = some i → ∀ n c x, s.calls.At n (.on c) x → ToPublish c x →
    c.handle = kSocketHandleBase + i → c.generation ≠ s.socketGeneration + 1

/-- What is opened, and what is installed, is fresh. -/
def Orderly (s : Winsock) : Action → Prop
  | .socket _ => s.FreshDescriptor
  | .systemCall n .success =>
    ∀ c, s.calls.At n (.on c) .resolved → c.function = .accept → s.FreshDescriptor
  | .publish n => ∀ k fd life, s.calls.At n k (.opened fd life) → s.FreshGeneration
  | _ => True

/-! ### The invariant -/

/-- Who has a descriptor open, and for which socket: the slot of the socket, or the call that
is to install it. -/
inductive Holds (s : Winsock) : ℕ ⊕ ℕ → ℕ → ℕ → Prop
  | slot {i fd : ℕ} : (s.sockets i).used = true → (s.sockets i).fd = some fd →
      Holds s (.inl i) fd (s.lives i)
  | call {n : ℕ} {k : SocketCall} {fd life : ℕ} : s.calls.At n k (.opened fd life) →
      Holds s (.inr n) fd life

/-- What holds all along an orderly run. -/
structure Sound (s : Winsock) : Prop where
  opened : ∀ fd x, s.descriptors.entry fd = some x → x < s.opened
  /-- A descriptor in use is the instance of its socket, and nobody else's. -/
  held : ∀ who fd life, s.Holds who fd life → s.descriptors.entry fd = some life
  distinct : ∀ who who' fd fd' life, s.Holds who fd life → s.Holds who' fd' life → who = who'
  /-- A descriptor that was copied has not been given to another socket. -/
  resolved : ∀ n c, s.calls.At n (.on c) .resolved → ∀ x, s.instanceAt c.fd = some x → x = c.life
  /-- A generation that was copied has not been given to another socket. -/
  current : ∀ n c x, s.calls.At n (.on c) x → ToPublish c x →
    ∀ i, s.resolveIfCurrent c.handle c.generation = some i → s.lives i = c.life

theorem Initial.sound (h : s.Initial) : Sound s := by
  have hc : ∀ n k x, ¬s.calls.At n k x := by
    intro n k x ha
    rw [h.calls] at ha
    simp [Pool.At] at ha
  have he : ∀ w fd life, ¬s.Holds w fd life := by
    intro w fd life hh
    cases hh with
    | slot hu _ =>
      rw [h.unused] at hu
      cases hu
    | call ha => exact hc _ _ _ ha
  exact ⟨h.opened, fun w fd life hh => absurd hh (he w fd life),
    fun w _ fd _ life hh => absurd hh (he w fd life),
    fun n c ha => absurd ha (hc n _ _), fun n c x ha => absurd ha (hc n _ x)⟩

/-- A step that opens and installs nothing: descriptors and sockets only go, and calls only
go on. -/
theorem Sound.shrinks (h : Sound s) (hop : s'.opened = s.opened)
    (he : ∀ fd x, s'.descriptors.entry fd = some x → s.descriptors.entry fd = some x)
    (hhe : ∀ w fd l, s'.Holds w fd l → s.Holds w fd l ∧ s'.descriptors.entry fd = some l)
    (hc : ∀ hn g i, s'.resolveIfCurrent hn g = some i →
      s.resolveIfCurrent hn g = some i ∧ s'.lives i = s.lives i)
    (hr : ∀ n k, s'.calls.At n k .resolved → s.calls.At n k .resolved)
    (hb : ∀ n c x, s'.calls.At n (.on c) x → ToPublish c x →
      ∃ y, s.calls.At n (.on c) y ∧ ToPublish c y) : Sound s' := by
  refine ⟨fun fd x hx => ?_, fun w fd l hh => (hhe w fd l hh).2,
    fun w w' fd fd' l hh hh' => ?_, fun n c ha x hx => ?_, fun n c x ha hx i hi => ?_⟩
  · rw [hop]
    exact h.opened fd x (he fd x hx)
  · exact h.distinct w w' fd fd' l (hhe _ _ _ hh).1 (hhe _ _ _ hh').1
  · obtain ⟨fd, hf, he'⟩ := bind_eq_some_iff.1 hx
    exact h.resolved n c (hr n _ ha) x (bind_eq_some_iff.2 ⟨fd, hf, he fd x he'⟩)
  · obtain ⟨y, hy, hp⟩ := hb n c x ha hx
    obtain ⟨ho, hl⟩ := hc _ _ i hi
    rw [hl]
    exact h.current n c y hy hp i ho

theorem Sound.quiet (h : Sound s) (hq : Quiet s s')
    (ho : ∀ n k fd life, s'.calls.At n k (.opened fd life) → s.calls.At n k (.opened fd life))
    (hr : ∀ n k, s'.calls.At n k .resolved → s.calls.At n k .resolved)
    (hp : ∀ n c x, s'.calls.At n (.on c) x → ToPublish c x →
      ∃ y, s.calls.At n (.on c) y ∧ ToPublish c y) : Sound s' := by
  refine h.shrinks hq.opened (fun fd x hx => hq.descriptors ▸ hx) (fun w fd life hh => ?_)
    (fun hn g i hi => ⟨hq.resolveIfCurrent ▸ hi, by rw [hq.lives]⟩) hr hp
  have hold : s.Holds w fd life := by
    cases hh with
    | slot hu hf =>
      rw [hq.lives]
      exact .slot (hq.used _ ▸ hu) (hq.fd _ ▸ hf)
    | call ha => exact .call (ho _ _ _ _ ha)
  rw [hq.descriptors]
  exact ⟨hold, h.held _ _ _ hold⟩

theorem Sound.quiet_same (h : Sound s) (hq : Quiet s s') (hc : s'.calls = s.calls) : Sound s' :=
  h.quiet hq (fun _ _ _ _ ha => hc ▸ ha) (fun _ _ ha => hc ▸ ha)
    fun _ _ x ha hx => ⟨x, hc ▸ ha, hx⟩

/-- A call has gone on to `x`, its last place or the one before. -/
def GoesOn (k : SocketCall) (y x : CallPhase) : Prop :=
  x = .returned ∨ (∃ o, x = .issued o) ∧ ∀ c, k = .on c → ToPublish c y

theorem GoesOn.calls {n : ℕ} {k : SocketCall} {y x : CallPhase} (ha : s.calls.At n k y)
    (hx : GoesOn k y x) {m : ℕ} {k' : SocketCall} {z : CallPhase}
    (ha' : (s.calls.move n x).At m k' z) :
    m ≠ n ∧ s.calls.At m k' z ∨ m = n ∧ k' = k ∧ z = x ∧ (∀ fd l, z ≠ .opened fd l) ∧
      z ≠ .resolved ∧ ∀ c, k' = .on c → ToPublish c z → ToPublish c y := by
  rw [at_move ha] at ha'
  split at ha'
  · next hn =>
    obtain ⟨rfl, rfl⟩ := ha'
    rcases hx with rfl | ⟨⟨o, rfl⟩, hp⟩
    · exact .inr ⟨hn.symm, rfl, rfl, nofun, nofun, fun _ _ ht => absurd rfl ht.1⟩
    · exact .inr ⟨hn.symm, rfl, rfl, nofun, nofun, fun c hc _ => hp c hc⟩
  · next hn => exact .inl ⟨Ne.symm hn, ha'⟩

theorem Sound.quiet_move (h : Sound s) (hq : Quiet s s') {n : ℕ} {k : SocketCall}
    {y x : CallPhase} (ha : s.calls.At n k y) (hx : GoesOn k y x)
    (hc : s'.calls = s.calls.move n x) : Sound s' := by
  refine h.quiet hq (fun m k' fd l ha' => ?_) (fun m k' ha' => ?_) (fun m c z ha' hz => ?_)
  all_goals rw [hc] at ha'
  · rcases GoesOn.calls ha hx ha' with ⟨-, ho⟩ | ⟨-, -, -, hn, -⟩
    · exact ho
    · exact absurd rfl (hn fd l)
  · rcases GoesOn.calls ha hx ha' with ⟨-, ho⟩ | ⟨-, -, -, -, hn, -⟩
    · exact ho
    · exact absurd rfl hn
  · rcases GoesOn.calls ha hx ha' with ⟨-, ho⟩ | ⟨rfl, rfl, -, -, -, hp⟩
    · exact ⟨z, ho, hz⟩
    · exact ⟨y, ha, hp c rfl hz⟩

/-! ### Steps that open, close and install -/

theorem Sound.entry_erase (h : Sound s) {w w' : ℕ ⊕ ℕ} {fd fd' life life' : ℕ}
    (hc : s.Holds w fd life) (hh : s.Holds w' fd' life') (hn : w' ≠ w) :
    (s.descriptors.erase fd).entry fd' = some life' := by
  rw [Entries.entry_erase, if_neg, h.held _ _ _ hh]
  rintro rfl
  have hl : some life' = some life := (h.held _ _ _ hh).symm.trans (h.held _ _ _ hc)
  cases hl
  exact hn (h.distinct _ _ _ _ _ hh hc)

theorem Sound.opens (h : Sound s) (hf : s.FreshDescriptor) (m : ℕ)
    (k₀ : SocketCall) {cs : Pool SocketCall CallPhase}
    (hn : ∀ c, k₀ = .on c → ∃ y, s.calls.At m k₀ y ∧ ToPublish c y)
    (hc : ∀ n k x, cs.At n k x → s.calls.At n k x ∧ n ≠ m ∨
      n = m ∧ k = k₀ ∧ x = .opened s.descriptors.lowestFree s.opened) :
    Sound { s.openDescriptor with calls := cs } := by
  have hold : ∀ w fd l, ({ s.openDescriptor with calls := cs } : Winsock).Holds w fd l →
      w ≠ .inr m ∧ s.Holds w fd l ∨
        w = .inr m ∧ fd = s.descriptors.lowestFree ∧ l = s.opened := by
    intro w fd l hh
    cases hh with
    | slot hu hd => exact .inl ⟨nofun, .slot hu hd⟩
    | call ha =>
      rcases hc _ _ _ ha with ⟨ha', hne⟩ | ⟨rfl, rfl, hx⟩
      · exact .inl ⟨fun heq => hne (Sum.inr.inj heq), .call ha'⟩
      · obtain ⟨rfl, rfl⟩ := CallPhase.opened.inj hx
        exact .inr ⟨rfl, rfl, rfl⟩
  -- the instance that the kernel has just opened is younger than all others
  have hl : ∀ w fd l, s.Holds w fd l → l ≠ s.opened := fun w fd l hh =>
    Nat.ne_of_lt (h.opened fd l (h.held w fd l hh))
  refine ⟨fun fd x hx => ?_, fun w fd l hh => ?_, fun w w' fd fd' l hh hh' => ?_,
    fun n c ha x hx => ?_, fun n c x ha hx i hi => ?_⟩
  · change (s.descriptors.insert s.opened).entry fd = some x at hx
    show x < s.opened + 1
    rw [entry_insert] at hx
    split at hx
    · cases hx
      omega
    · have := h.opened fd x hx
      omega
  · show (s.descriptors.insert s.opened).entry fd = some l
    rw [entry_insert]
    rcases hold w fd l hh with ⟨-, hh'⟩ | ⟨-, rfl, rfl⟩
    · have he := h.held w fd l hh'
      rw [if_neg, he]
      rintro rfl
      rw [entry_lowestFree] at he
      cases he
    · rw [if_pos rfl]
  · rcases hold _ _ _ hh with ⟨-, ho⟩ | ⟨rfl, -, rfl⟩ <;>
      rcases hold _ _ _ hh' with ⟨-, ho'⟩ | ⟨rfl, -, heq⟩
    · exact h.distinct _ _ _ _ _ ho ho'
    · exact absurd heq (hl _ _ _ ho)
    · exact absurd rfl (hl _ _ _ ho')
    · rfl
  · rcases hc n _ _ ha with ⟨ha', -⟩ | ⟨-, -, hx'⟩
    · obtain ⟨fd, hd, he⟩ := bind_eq_some_iff.1 hx
      change (s.descriptors.insert s.opened).entry fd = some x at he
      rw [entry_insert, if_neg] at he
      · exact h.resolved n c ha' x (bind_eq_some_iff.2 ⟨fd, hd, he⟩)
      · rintro rfl
        exact hf n c ha' hd
    · cases hx'
  · rcases hc n _ _ ha with ⟨ha', -⟩ | ⟨rfl, rfl, -⟩
    · exact h.current n c x ha' hx i hi
    · obtain ⟨y, hy, hp⟩ := hn c rfl
      exact h.current n c y hy hp i hi

theorem Sound.resolve (h : Sound s) {f : SocketFunction} {hn : ℕ}
    (hs : s.resolve f hn = some s') : Sound s' := by
  unfold Winsock.resolve at hs
  split at hs
  · cases hs
  next i hi =>
  obtain ⟨-, hs⟩ := ite_none_left_eq_some.1 hs
  cases hs
  have hu := (findSocket_eq_some.1 hi).2.2
  have hold : ∀ {cs}, (∀ n k fd life, cs.At n k (.opened fd life) →
      s.calls.At n k (.opened fd life)) →
      ∀ w fd life, ({ s with calls := cs } : Winsock).Holds w fd life →
        s.Holds w fd life := by
    intro cs hca w fd life hh
    cases hh with
    | slot hu hd => exact .slot hu hd
    | call ha => exact .call (hca _ _ _ _ ha)
  have hca : ∀ {k₀ : SocketCall} n k fd life,
      (s.calls.start k₀ .resolved).At n k (.opened fd life) → s.calls.At n k (.opened fd life) := by
    intro k₀ n k fd life ha
    rcases at_start.1 ha with ha' | ⟨-, -, hx⟩
    · exact ha'
    · cases hx
  refine ⟨h.opened, fun w fd life hh => h.held _ _ _ (hold hca _ _ _ hh),
    fun w w' fd fd' life hh hh' => h.distinct _ _ _ _ _ (hold hca _ _ _ hh) (hold hca _ _ _ hh'),
    fun n c ha x hx => ?_, fun n c x ha hx j hj => ?_⟩
  · rcases at_start.1 ha with ha' | ⟨-, hc, -⟩
    · exact h.resolved n c ha' x hx
    obtain rfl := on.inj hc
    obtain ⟨fd, hd, he⟩ := bind_eq_some_iff.1 hx
    have hl : some (s.lives i) = some x := (h.held _ _ _ (.slot hu hd)).symm.trans he
    exact (some.inj hl).symm
  · rcases at_start.1 ha with ha' | ⟨-, hc, -⟩
    · exact h.current n c x ha' hx j hj
    · obtain rfl := on.inj hc
      obtain ⟨hf, -⟩ := resolveIfCurrent_eq_some.1 hj
      cases hi.symm.trans hf
      rfl

theorem Sound.clearSlot (h : Sound s) {i : ℕ} {d : Entries ℕ}
    (hd : ∀ fd x, d.entry fd = some x → s.descriptors.entry fd = some x)
    (hk : ∀ w fd l, s.Holds w fd l → w ≠ .inl i → d.entry fd = some l) :
    Sound { s with descriptors := d, sockets := update s.sockets i {} } := by
  have hn : ∀ j, (update s.sockets i {} j).used → j ≠ i := by
    rintro j hu rfl
    rw [update_self] at hu
    cases hu
  refine h.shrinks rfl hd (fun w fd l hh => ?_) (fun hnd g j hj => ?_)
    (fun _ _ ha => ha) (fun n k x ha hx => ⟨x, ha, hx⟩)
  · cases hh with
    | @slot j _ hu hfd =>
      have hj := hn j hu
      change (update s.sockets i {} j).used = true at hu
      change (update s.sockets i {} j).fd = some fd at hfd
      rw [update_of_ne hj] at hu hfd
      have hold : s.Holds (.inl j) fd (s.lives j) := .slot hu hfd
      exact ⟨hold, hk _ _ _ hold fun heq => hj (Sum.inl.inj heq)⟩
    | call ha => exact ⟨.call ha, hk _ _ _ (.call ha) nofun⟩
  · obtain ⟨hf, hg⟩ := resolveIfCurrent_eq_some.1 hj
    obtain ⟨rfl, hl, hu⟩ := findSocket_eq_some.1 hf
    have hi := hn j hu
    change (update s.sockets i {} j).used = true at hu
    change (update s.sockets i {} j).generation = g at hg
    rw [update_of_ne hi] at hu hg
    exact ⟨resolveIfCurrent_eq_some.2 ⟨findSocket_eq_some.2 ⟨rfl, hl, hu⟩, hg⟩, rfl⟩

theorem Sound.closeOpened (h : Sound s) {n fd l : ℕ} {k : SocketCall} {x : CallPhase}
    (ha : s.calls.At n k (.opened fd l)) (hx : GoesOn k (.opened fd l) x) :
    Sound ((s.closeDescriptor fd).move n x) := by
  refine h.shrinks rfl (fun fd' y hy => (entry_of_erase hy).2)
    (fun w fd' l' hh => ?_) (fun _ _ _ hi => ⟨hi, rfl⟩) (fun m k' ha' => ?_)
    (fun m c z ha' hz => ?_)
  · have ho : s.Holds w fd' l' ∧ w ≠ .inr n := by
      cases hh with
      | slot hu hf => exact ⟨.slot hu hf, nofun⟩
      | call ha' =>
        rcases GoesOn.calls ha hx ha' with ⟨hm, ho⟩ | ⟨-, -, -, hn, -⟩
        · exact ⟨.call ho, fun heq => hm (Sum.inr.inj heq)⟩
        · exact absurd rfl (hn _ _)
    exact ⟨ho.1, h.entry_erase (.call ha) ho.1 ho.2⟩
  · rcases GoesOn.calls ha hx ha' with ⟨-, ho⟩ | ⟨-, -, -, -, hn, -⟩
    · exact ho
    · exact absurd rfl hn
  · rcases GoesOn.calls ha hx ha' with ⟨-, ho⟩ | ⟨rfl, rfl, -, -, -, hp⟩
    · exact ⟨z, ho, hz⟩
    · exact ⟨_, ha, hp c rfl hz⟩

section Install

variable {type te ty : ℤ} {i fd life li l : ℕ}

theorem Sound.current_install (h : Sound s) (hr : s.FreshGeneration) {n j : ℕ}
    {c : SocketLookup} {x : CallPhase} (ha : s.calls.At n (.on c) x) (hx : ToPublish c x)
    (hj : (s.install ty fd l).resolveIfCurrent c.handle c.generation = some j) :
    (s.install ty fd l).lives j = c.life := by
  rcases hf : s.freeSlot with _ | i
  · unfold Winsock.install at hj ⊢
    rw [hf] at hj ⊢
    exact h.current n c x ha hx j hj
  · obtain ⟨hfi, hg⟩ := resolveIfCurrent_eq_some.1 hj
    obtain ⟨hh, ht, hu⟩ := findSocket_eq_some.1 hfi
    by_cases hi : j = i
    · subst hi
      exact absurd (hg.symm.trans (install_self hf).2.1) (hr j hf n c x ha hx hh)
    obtain ⟨hs, hl⟩ := @install_of_ne s ty i fd l hf j hi
    rw [hs] at hu hg
    rw [hl]
    exact h.current n c x ha hx j
      (resolveIfCurrent_eq_some.2 ⟨findSocket_eq_some.2 ⟨hh, ht, hu⟩, hg⟩)

theorem Sound.install (h : Sound s) (hr : s.FreshGeneration) {n : ℕ} {k : SocketCall}
    (ha : s.calls.At n k (.opened fd life)) :
    Sound ((s.install type fd life).move n .returned) := by
  rcases hf : s.freeSlot with _ | i
  · have hcl : s.install type fd life = s.closeDescriptor fd := by
      unfold Winsock.install
      rw [hf]
    rw [hcl]
    exact h.closeOpened ha (.inl rfl)
  obtain ⟨hd, ho, hp⟩ := @install_of_some s type i fd life hf
  have hc : ∀ m k' y, (s.calls.move n .returned).At m k' y → y ≠ .returned →
      m ≠ n ∧ s.calls.At m k' y := by
    intro m k' y ha' hy
    rw [at_move ha] at ha'
    split at ha'
    · exact absurd ha'.2 hy
    · next hnm => exact ⟨Ne.symm hnm, ha'⟩
  -- a holder is as it was, or the slot that has taken the descriptor over from the call
  have hold : ∀ w fd' l', ((s.install type fd life).move n .returned).Holds w fd' l' →
        w ≠ .inr n ∧ s.Holds w fd' l' ∨ w = .inl i ∧ fd' = fd ∧ l' = life := by
    intro w fd' l' hh
    cases hh with
    | @slot j _ hu hfd =>
      change ((s.install type fd life).sockets j).used = true at hu
      change ((s.install type fd life).sockets j).fd = some fd' at hfd
      show _ ∧ s.Holds _ _ ((s.install type fd life).lives j) ∨
        _ ∧ _ ∧ (s.install type fd life).lives j = life
      by_cases hj : j = i
      · subst hj
        rw [(install_self hf).1] at hfd
        exact .inr ⟨rfl, (some.inj hfd).symm, (install_self hf).2.2.2⟩
      · obtain ⟨hsl, hl⟩ := @install_of_ne s type i fd life hf j hj
        rw [hsl] at hu hfd
        rw [hl]
        exact .inl ⟨nofun, .slot hu hfd⟩
    | @call m _ _ _ ha' =>
      rw [calls_move, hp] at ha'
      obtain ⟨hm, ha'⟩ := hc _ _ _ ha' nofun
      exact .inl ⟨fun heq => hm (Sum.inr.inj heq), .call ha'⟩
  have hca : s.Holds (.inr n) fd life := .call ha
  refine ⟨?_, fun w fd' l' hh => ?_, fun w w' fd' f'' l' hh hh' => ?_,
    fun m c ha' x hx => ?_, fun m c x ha' hx j hj => ?_⟩
  · show ∀ fd' x, (s.install type fd life).descriptors.entry fd' = some x →
      x < (s.install type fd life).opened
    rw [hd, ho]
    exact h.opened
  · show (s.install type fd life).descriptors.entry fd' = some l'
    rw [hd]
    rcases hold _ _ _ hh with ⟨-, hh'⟩ | ⟨-, rfl, rfl⟩
    · exact h.held _ _ _ hh'
    · exact h.held _ _ _ hca
  · have hs : ∀ {w fd'}, s.Holds w fd' life → w = .inr n := fun hh =>
      h.distinct _ _ _ _ _ hh hca
    rcases hold _ _ _ hh with ⟨hn, hh⟩ | ⟨rfl, -, heq⟩ <;>
      rcases hold _ _ _ hh' with ⟨hn', hh'⟩ | ⟨rfl, -, he'⟩
    · exact h.distinct _ _ _ _ _ hh hh'
    · exact absurd (hs (he' ▸ hh)) hn
    · exact absurd (hs (heq ▸ hh')) hn'
    · rfl
  · rw [calls_move, hp] at ha'
    change (s.install type fd life).instanceAt c.fd = some x at hx
    refine h.resolved m c (hc _ _ _ ha' nofun).2 x ?_
    rw [← hx, instanceAt, instanceAt, hd]
  · rw [calls_move, hp] at ha'
    exact h.current_install hr (hc _ _ _ ha' hx.1).2 hx hj

end Install

/-! ### Runs -/

/-- A call ends, or comes to the mutex, without having opened anything. -/
theorem Sound.systemCall (h : Sound s) {n : ℕ} {c : SocketLookup} {o : Outcome}
    (ht : s.calls.At n (.on c) .resolved)
    (hf : c.function = .accept → o = .success → s.FreshDescriptor)
    (hs : s.systemCall n c o = some s') : Sound s' := by
  have ho : c.function.publishes → ∀ c', SocketCall.on c = .on c' →
      ToPublish c' .resolved := by
    intro hp c' hc
    obtain rfl := SocketCall.on.inj hc
    exact ⟨nofun, fun _ => hp⟩
  obtain ⟨-, hs⟩ := ite_none_left_eq_some.1 hs
  obtain ⟨-, hs⟩ := ite_none_left_eq_some.1 hs
  split at hs
  · next ha =>
    cases hs
    have hp : c.function.publishes := by rw [ha.1]; rfl
    refine h.opens (hf ha.1 ha.2) n (.on c) (fun c' hc => ?_) (fun m k x ha' => ?_)
    · obtain rfl := SocketCall.on.inj hc
      exact ⟨.resolved, ht, ho hp _ rfl⟩
    · change (s.calls.move n _).At m k x at ha'
      rw [Pool.at_move ht] at ha'
      split at ha'
      · next hn => exact .inr ⟨hn.symm, ha'⟩
      · next hn => exact .inl ⟨ha', Ne.symm hn⟩
  · split at hs
    · next hp =>
      cases hs
      exact h.quiet_move .move ht (.inr ⟨⟨_, rfl⟩, ho hp.1⟩) rfl
    · cases hs
      exact h.quiet_move (Quiet.noteCall.trans .move) ht (.inl rfl)
        (by rw [calls_move, calls_noteCall])

/-- **An orderly step keeps the invariant.** -/
theorem Sound.step {a : Action} (h : Sound s) (hok : s.Orderly a) (hs : s.step a = some s') :
    Sound s' := by
  cases a with
  | socket ty =>
    obtain ⟨-, hs⟩ := ite_none_left_eq_some.1 hs
    cases hs
    refine h.opens hok s.calls.length (.socket ty) nofun (fun n k x ha => ?_)
    rcases at_start.1 ha with ha' | ⟨hn, hk, hx⟩
    · exact .inl ⟨ha', Nat.ne_of_lt ha'.lt_length⟩
    · exact .inr ⟨hn, hk, hx⟩
  | closesocket hd =>
    dsimp only [Winsock.step] at hs
    split at hs
    · cases hs
    next i hi =>
    have hu := (findSocket_eq_some.1 hi).2.2
    split at hs
    · next hfd =>
      cases hs
      exact h.clearSlot (fun _ _ hx => hx) fun _ _ _ hh _ => h.held _ _ _ hh
    · next fd hfd =>
      cases hs
      exact h.clearSlot (fun _ _ hx => (entry_of_erase hx).2) fun _ _ _ hh he =>
        h.entry_erase (.slot hu hfd) hh he
  | resolve f hd => exact h.resolve hs
  | turnAway f hd =>
    dsimp only [Winsock.step] at hs
    split at hs
    · cases hs
    · obtain ⟨-, heq⟩ := ite_none_right_eq_some.1 hs
      cases heq
      exact h.quiet_same .note rfl
  | abandon n =>
    dsimp only [Winsock.step] at hs
    split at hs
    · next c ha =>
      obtain ⟨-, heq⟩ := ite_none_left_eq_some.1 hs
      cases heq
      exact h.quiet_move (Quiet.noteCall.trans .move) ha (.inl rfl)
        (by rw [calls_move, calls_noteCall])
    · cases hs
  | systemCall n o =>
    dsimp only [Winsock.step] at hs
    split at hs
    · next c ha =>
      refine h.systemCall ha (fun hf ho => ?_) hs
      subst ho
      exact hok c ha hf
    · cases hs
  | addressFault n =>
    dsimp only [Winsock.step] at hs
    split at hs
    · next c fd l ha =>
      cases hs
      exact h.closeOpened ha (.inr ⟨⟨_, rfl⟩, fun _ _ => ⟨nofun, nofun⟩⟩)
    · cases hs
  | publish n =>
    dsimp only [Winsock.step] at hs
    split at hs
    · next ty fd l ha =>
      cases hs
      exact h.install (hok _ _ _ ha) ha
    · next c fd l ha =>
      cases hs
      refine (@Sound.install s kSockStream fd l h (hok _ _ _ ha) n _ ha).quiet_same ?_ ?_
      · have hp := @Quiet.publish (s.install kSockStream fd l) c .success
        have hq := hp.trans (@Quiet.noteCall _ c)
        exact { hq with }
      · rw [calls_move, calls_noteCall, calls_publish, calls_move]
    · next c o ha =>
      cases hs
      exact h.quiet_move (Quiet.publish.trans (Quiet.noteCall.trans .move)) ha (.inl rfl)
        (by rw [calls_move, calls_noteCall, calls_publish])
    · cases hs
  | wsaAsyncSelect hd w m es fc =>
    dsimp only [Winsock.step] at hs
    split at hs
    · cases hs
    obtain ⟨-, hs⟩ := ite_none_left_eq_some.1 hs
    obtain ⟨-, hs⟩ := ite_none_left_eq_some.1 hs
    cases hs
    exact h.quiet_same .asyncSelect rfl
  | wsaEventSelect hd ev e es fc =>
    dsimp only [Winsock.step] at hs
    split at hs
    · cases hs
    obtain ⟨-, hs⟩ := ite_none_left_eq_some.1 hs
    obtain ⟨-, hs⟩ := ite_none_left_eq_some.1 hs
    cases hs
    exact h.quiet_same (.setSlot rfl rfl rfl) rfl
  | wsaCloseEvent ev =>
    obtain ⟨-, hs⟩ := ite_none_left_eq_some.1 hs
    cases hs
    exact h.quiet_same .closeEvent rfl
  | refreshWsaEvents ans =>
    cases hs
    exact h.quiet_same .refreshEvents rfl
  | refreshAsyncSelect ans ac =>
    cases hs
    exact h.quiet_same .refreshAsync rfl

/-- **Under the invariant an orderly step is isolated.** -/
theorem Sound.isolated {a : Action} (h : Sound s) (hk : s.Orderly a) : s.Isolated a := by
  have ho : ∀ w fd life x, s.Holds w fd life → s.instanceAt (some fd) = some x →
      x = life := fun w fd life x hh hx =>
    some.inj (hx.symm.trans (h.held w fd life hh))
  have hop : ∀ n k fd life y x, s.calls.At n k (.opened fd y) →
      (y, s.instanceAt (some fd)) = (life, some x) → x = life := by
    intro n k fd life y x ht hx
    obtain ⟨rfl, he⟩ := Prod.mk.inj hx
    exact ho _ fd y x (.call ht) he
  constructor
  · intro life x ha
    cases a with
    | closesocket hn =>
      obtain ⟨i, hi, heq⟩ := map_eq_some_iff.1 ha
      obtain ⟨rfl, hx⟩ := Prod.mk.inj heq
      have hu := (findSocket_eq_some.1 hi).2.2
      obtain ⟨fd, hf, he⟩ := bind_eq_some_iff.1 hx
      exact ho _ fd _ x (.slot hu hf) he
    | systemCall n ou =>
      dsimp only [actsFor] at ha
      split at ha
      · next c ht =>
        obtain ⟨rfl, hx⟩ := Prod.mk.inj (some.inj ha)
        exact h.resolved n c ht x hx
      · cases ha
    | addressFault n | publish n =>
      dsimp only [actsFor] at ha
      split at ha
      · next ht => exact hop n _ _ life _ x ht (some.inj ha)
      · cases ha
    | _ => cases ha
  · intro life o hp
    cases a with
    | publish n =>
      dsimp only [publishesFor] at hp
      split at hp
      · next c ou ht =>
        obtain ⟨i, hi, heq⟩ := map_eq_some_iff.1 hp
        cases heq
        exact h.current n c _ ht ⟨nofun, nofun⟩ i hi
      · next c fd l' ht =>
        obtain ⟨i, hi, heq⟩ := map_eq_some_iff.1 hp
        cases heq
        exact h.current_install (hk _ _ _ ht) ht ⟨nofun, nofun⟩ hi
      · cases hp
    | _ => cases hp

/-- **In an orderly run every step is isolated**: no call acts on the descriptor of another
socket, or writes to the slot of one. -/
theorem sockets_isolated {s₀ : Winsock} (h₀ : s₀.Initial) (hrun : Runs Winsock.step Orderly s₀ s)
    {a : Action} (hok : s.Orderly a) (_ : s.step a = some s') : s.Isolated a :=
  (hrun.keeps (fun _ _ _ h hok hs => h.step hok hs) h₀.sound).isolated hok

/-- A socket has been made, and a call of `send` has looked it up. -/
def sending : Winsock :=
  (runAll Winsock.step threeFiles
    [.socket kSockStream, .publish 0, .resolve .send kSocketHandleBase]).getD threeFiles

theorem runs_sending : Runs Winsock.step Orderly threeFiles sending := by
  refine Runs.head (a := .socket kSockStream) (fun n c ha => ?_) rfl
    (Runs.head (a := .publish 0) (fun k fd l _ i _ n c x ha => ?_) rfl
      (Runs.head (a := .resolve .send kSocketHandleBase) trivial rfl (Runs.refl _)))
  · simp [Pool.At, threeFiles] at ha
  · rcases n with _ | n <;> simp [Pool.At, Pool.start, threeFiles, openDescriptor] at ha

theorem sockets_isolated_sending : sending.Isolated (.systemCall 1 .success) := by
  refine sockets_isolated threeFiles_initial runs_sending (a := .systemCall 1 .success)
    (fun c ha hf => ?_) rfl
  obtain rfl := on.inj (Prod.mk.inj (some.inj ha)).1
  cases hf

/-- While `send` is on its way, its socket is closed and another one made. -/
def crossed : List Action :=
  [.socket kSockStream, .publish 0, .resolve .send kSocketHandleBase,
    .closesocket kSocketHandleBase, .socket kSockStream, .publish 2]

/-- **A `send` goes to the connection of another socket.** -/
theorem not_sockets_isolated : ¬∀ s₀ s s' : Winsock, s₀.Initial → Runs Winsock.step Free s₀ s → ∀ a,
      s.step a = some s' → s.Isolated a := by
  intro hl
  have ha : (runAll Winsock.step threeFiles crossed).map
      (fun s => (s.actsFor (.systemCall 1 .success), (s.step (.systemCall 1 .success)).isSome)) =
        some (some (3, some 4), true) := by
    decide +kernel
  obtain ⟨s, hr, heq⟩ := map_eq_some_iff.mp ha
  obtain ⟨hc, hs⟩ := Prod.mk.inj heq
  obtain ⟨s', hs'⟩ := isSome_iff_exists.mp hs
  have hi := hl threeFiles s s' threeFiles_initial (Runs.of_runAll hr) _ hs'
  exact absurd (hi.1 3 4 hc) (by decide)

end TradutorLinux.Winsock
