import TradutorLinux.Version.Query

/-!
# When queries of version blocks are right

A query is right if the first place where the searched bytes lie is the key of the
node that the path names.  A place that is not may still have the same length in
front of it and the same value behind.

## Main definitions

* `VersionCareful`

## Main results

* `verQueryValue_iff`, `search_kFixedSig`
-/

namespace TradutorLinux

open Process List VersionNode

variable {block bk bl : VersionBlock} {memory m : ℕ → UInt8} {sub : ByteString} {wide wi w : Bool}
  {node ne : VersionNode} {offset off ot place pe pl : ℕ}

/-! ### What is to be true -/

def VersionValue.isBinary : VersionValue → Bool
  | .binary _ => true
  | _ => false

def VersionValue.units : VersionValue → List UInt16
  | .text units => units
  | _ => []

/-- The answer for a node: a pointer to its value, with its length; or its string converted. -/
def VersionNode.answer (node : VersionNode) (offset : ℕ) (wide : Bool) : VersionAnswer :=
  if wide = true ∨ node.value.isBinary = true then
    .value (node.valueOffset offset) node.value.length
  else .text (wideToUtf8 node.value.units)

/-- A reply is that of the node that is named, or says that there is none.  It has no pointer that
is not into the block, and nothing behind the block is read for it. -/
structure VersionAnswers (block : VersionBlock) (named : Option (ℕ × VersionNode)) (wide : Bool)
    (reply : VersionReply) : Prop where
  answer : reply.answer = match named with
    | some (offset, node) => node.answer offset wide
    | none => .resourceNotFound
  inside : ∀ offset length, reply.answer = .value offset length → offset ≤ block.size
  reads : reply.readEnd ≤ block.size

/-- The node that the path of `VerQueryValueW` names. -/
def VersionBlock.namedW (block : VersionBlock) (upper : UInt16 → UInt16) (path : List UInt16) :
    Option (ℕ × VersionNode) :=
  block.root.find block.memory upper (components (fun unit => isSeparator unit.toNat) path) 0

/-- The node that the path of `VerQueryValueA` names. -/
def VersionBlock.namedA (block : VersionBlock) (upper : UInt16 → UInt16) (path : ByteString) :
    Option (ℕ × VersionNode) :=
  block.root.find block.memory upper ((components isSlash path).map utf8ToWide) 0

/-! ### The condition -/

/-- The key that a path is searched by. -/
def queryKey (subBlock : ByteString) : List UInt16 :=
  if isTranslationQuery subBlock = true then translationKey
  else utf8ToWide (extractQueryKey subBlock)

/-- How much of the memory is searched for it. -/
def queryWindow (subBlock : ByteString) : ℕ :=
  if isTranslationQuery subBlock = true then 8192 else 32768

def hasQueryKey (subBlock : ByteString) : Bool :=
  isTranslationQuery subBlock || !(extractQueryKey subBlock).isEmpty

/-- The first place where the bytes of the key lie, and the terminator. -/
def firstPlace (memory : ℕ → UInt8) (subBlock : ByteString) : Option ℕ :=
  search memory (queryWindow subBlock) (wideBytes (queryKey subBlock))

def IsKeyOf (subBlock : ByteString) (node : VersionNode) (offset place : ℕ) : Prop :=
  place = offset + 6 ∧ queryKey subBlock = node.key

/-- The node can be told from its key: the value has the kind that the function gives, an array of
translations is not empty, and what is pointed to or read is in the block. -/
structure KeyTells (block : VersionBlock) (subBlock : ByteString) (wide : Bool)
    (node : VersionNode) (offset : ℕ) : Prop where
  kind : wide = false → node.value.isBinary = isTranslationQuery subBlock
  translation : isTranslationQuery subBlock = true → node.value.length ≠ 0
  inside : node.valueOffset offset ≤ block.size
  first : wide = false → isTranslationQuery subBlock = false →
    node.valueOffset offset + 2 ≤ block.size

/-- The place is not the key of the node, but has its length four bytes in front, and its value at
the next multiple of four; or for `VerQueryValueA` a string that is converted to the same. -/
structure LikeKey (block : VersionBlock) (subBlock : ByteString) (wide : Bool)
    (node : VersionNode) (offset place : ℕ) : Prop where
  header : 6 ≤ place
  kind : wide = false → node.value.isBinary = isTranslationQuery subBlock
  value : wide = true ∨ isTranslationQuery subBlock = true →
    alignDword (place + (wideBytes (queryKey subBlock)).length) = node.valueOffset offset ∧
      node.valueOffset offset ≤ block.size ∧
      place + (wideBytes (queryKey subBlock)).length ≤ block.size ∧
      (wordAt block.memory (place - 4) = node.value.length ∧
          (isTranslationQuery subBlock = true → node.value.length ≠ 0) ∨
        isTranslationQuery subBlock = true ∧ wordAt block.memory (place - 4) = 0 ∧
          node.value.length = 4)
  text : wide = false → isTranslationQuery subBlock = false →
    wideToUtf8 (unitsAt block.memory
        (alignDword (place + (wideBytes (queryKey subBlock)).length))
        (wordAt block.memory (place - 4) - 1)) = wideToUtf8 node.value.units ∧
      unitsReadEnd block.memory (alignDword (place + (wideBytes (queryKey subBlock)).length))
        (wordAt block.memory (place - 4) - 1) ≤ block.size

/-- The condition.  A path of the root asks for the fixed part: the root is named, and it has one;
or a path that was too long for `VerQueryValueW` names another node, and the first signature is
its value.  Any other path has a key.  The first place where the key lies is that of the node that
is named, and this can be told from it, or the place is like it.  If no node is named, the key lies
nowhere and the block is as large as what is searched; or the first place is in the header. -/
def VersionCareful (block : VersionBlock) (named : Option (ℕ × VersionNode))
    (subBlock : ByteString) (wide : Bool) : Prop :=
  if isRootQuery subBlock = true then
    match named with
    | some (0, node) => node.value ≠ .none
    | some (offset, node) =>
      search block.memory 128 kFixedSig = some (node.valueOffset offset) ∧
        node.value.length = 52 ∧ (wide = true ∨ node.value.isBinary = true) ∧
        node.valueOffset offset + 4 ≤ block.size
    | none => search block.memory 128 kFixedSig = none ∧ 128 ≤ block.size
  else hasQueryKey subBlock = true ∧
    match named with
    | some (offset, node) => ∃ place, firstPlace block.memory subBlock = some place ∧
      (IsKeyOf subBlock node offset place ∧ KeyTells block subBlock wide node offset ∨
        ¬ IsKeyOf subBlock node offset place ∧ LikeKey block subBlock wide node offset place)
    | none =>
      firstPlace block.memory subBlock = none ∧ queryWindow subBlock ≤ block.size ∨
        ∃ place < 6, firstPlace block.memory subBlock = some place ∧
          place + (wideBytes (queryKey subBlock)).length ≤ block.size

/-! ### What the code does with a key -/

def lengthBefore (memory : ℕ → UInt8) (subBlock : ByteString) (place : ℕ) : ℕ :=
  if isTranslationQuery subBlock = true ∧ wordAt memory (place - 4) = 0 then 4
  else wordAt memory (place - 4)

def replyFrom (memory : ℕ → UInt8) (subBlock : ByteString) (wide : Bool) (place : ℕ) :
    VersionReply :=
  let afterKey := place + (wideBytes (queryKey subBlock)).length
  let count := wordAt memory (place - 4) - 1
  if place < 6 then ⟨.resourceNotFound, afterKey⟩
  else if wide = true ∨ isTranslationQuery subBlock = true then
    ⟨.value (alignDword afterKey) (lengthBefore memory subBlock place), afterKey⟩
  else ⟨.text (wideToUtf8 (unitsAt memory (alignDword afterKey) count)),
    unitsReadEnd memory (alignDword afterKey) count⟩

/-- **Both kinds of key are searched for in the same way.** -/
theorem verQueryValueInternal_key (hr : isRootQuery sub = false) (hk : hasQueryKey sub) :
    verQueryValueInternal memory sub wide = match firstPlace memory sub with
      | none => ⟨.resourceNotFound, queryWindow sub⟩
      | some place => replyFrom memory sub wide place := by
  unfold verQueryValueInternal firstPlace queryWindow replyFrom lengthBefore
  rw [hr, if_neg Bool.false_ne_true]
  cases ht : isTranslationQuery sub with
  | true =>
    have hq : queryKey sub = translationKey := by
      unfold queryKey
      rw [ht, if_pos rfl]
    rw [if_pos rfl, if_pos rfl, hq]
    dsimp only
    cases hs : search memory 8192 (wideBytes translationKey) with
    | none => rfl
    | some place =>
      dsimp only
      by_cases hp : 6 ≤ place
      · rw [if_pos hp, if_neg (not_lt.2 hp), if_pos (Or.inr rfl)]
        by_cases hz : wordAt memory (place - 4) = 0
        · rw [hz, if_neg (Nat.lt_irrefl 0), if_pos ⟨rfl, rfl⟩]
        · rw [if_pos (Nat.pos_of_ne_zero hz), if_neg fun h => hz h.2]
      · rw [if_neg hp, if_pos (not_le.1 hp)]
  | false =>
    have hn : extractQueryKey sub ≠ [] := by
      unfold hasQueryKey at hk
      rw [ht] at hk
      simpa using hk
    have hq : queryKey sub = utf8ToWide (extractQueryKey sub) := by
      unfold queryKey
      rw [ht, if_neg Bool.false_ne_true]
    rw [if_neg Bool.false_ne_true, if_neg Bool.false_ne_true, hq]
    dsimp only
    rw [if_neg hn]
    cases hs : search memory 32768 (wideBytes (utf8ToWide (extractQueryKey sub))) with
    | none => rfl
    | some place =>
      dsimp only
      split
      · rfl
      cases wide with
      | true => rw [if_pos rfl, if_pos (.inl rfl), if_neg fun h => Bool.false_ne_true h.1]
      | false => rw [if_neg Bool.false_ne_true, if_neg (by simp)]

theorem verQueryValueInternal_noKey (hr : isRootQuery sub = false) (hk : hasQueryKey sub = false) :
    verQueryValueInternal m sub w = ⟨.invalidParameter, 0⟩ := by
  obtain ⟨ht, he⟩ := Bool.or_eq_false_iff.1 hk
  have hn : extractQueryKey sub = [] := by simpa using he
  unfold verQueryValueInternal
  rw [hr, if_neg Bool.false_ne_true, ht, if_neg Bool.false_ne_true]
  exact if_pos hn

/-! ### The key of a node -/

/-- What lies in the memory where a node is. -/
structure NodeAt (memory : ℕ → UInt8) (node : VersionNode) (offset : ℕ) : Prop where
  length : wordAt memory (offset + 2) = node.value.length
  type : node.value.hasType (wordAt memory (offset + 4)) = true
  key : occursAt memory (offset + 6) (wideBytes node.key) = true
  value : occursAt memory (node.valueOffset offset) node.value.bytes = true
  valueEnd : node.valueEnd offset ≤ wordAt memory 0

theorem VersionNode.Inside.nodeAt (h : node.Inside memory offset) : NodeAt memory node offset := by
  have hh := (lies_iff.1 h.lies).1
  unfold headLies at hh
  simp only [Bool.and_eq_true, decide_eq_true_eq] at hh
  obtain ⟨⟨⟨⟨hl, ht⟩, hk⟩, hv⟩, he⟩ := hh
  exact ⟨hl, ht, hk, hv, he.trans h.end_le⟩

theorem occursAt_wideBytes_cons {u : UInt16} {units : List UInt16}
    (h : occursAt m pl (wideBytes (u :: units))) :
    wordAt m pl = u.toNat ∧ occursAt m (pl + 2) (wideBytes units) := by
  have hb : wideBytes (u :: units) = toLE 2 u.toNat ++ wideBytes units := rfl
  rw [hb, occursAt_append, length_toLE] at h
  obtain ⟨hw, hr⟩ := h
  refine ⟨?_, hr⟩
  have hb : [m pl, m (pl + 1)] = toLE 2 u.toNat := map_of_occursAt hw
  have hv := congrArg ofLE hb
  rwa [ofLE_toLE_of_lt (show u.toNat < 256 ^ 2 from u.toNat_lt)] at hv

theorem unitsAt_of_occursAt {units : List UInt16} (h : occursAt m pl (wideBytes units)) :
    unitsAt m pl units.length = units := by
  unfold unitsAt
  induction units generalizing pl with
  | nil => rfl
  | cons u units ih =>
    obtain ⟨hu, hr⟩ := occursAt_wideBytes_cons h
    rw [length_cons, range_succ_eq_map, map_cons, map_map, mul_zero,
      add_zero, hu, UInt16.ofNat_toNat]
    congr 1
    refine Eq.trans ?_ (ih hr)
    apply map_congr_left
    intro i _
    show UInt16.ofNat (wordAt m (pl + 2 * (i + 1))) = UInt16.ofNat (wordAt m (pl + 2 + 2 * i))
    rw [mul_add, add_comm (2 * i), add_assoc]

/-! ### A key is named -/

/-- **The reply from a place is that of the node if the place is like its key.** -/
theorem answers_replyFrom_iff : VersionAnswers bl (some (ot, ne)) w
    (replyFrom bl.memory sub w pl) ↔
      LikeKey bl sub w ne ot pl := by
  dsimp only [replyFrom]
  by_cases hp : pl < 6
  · rw [if_pos hp]
    refine iff_of_false ?_ fun hl => not_le.2 hp hl.header
    intro h
    have ha := h.answer
    dsimp only [VersionNode.answer] at ha
    split at ha <;> cases ha
  rw [if_neg hp]
  by_cases ho : w ∨ isTranslationQuery sub
  · rw [if_pos ho]
    constructor
    · intro h
      have ha := h.answer
      have hr := h.reads
      have hi := h.inside _ _ rfl
      unfold VersionNode.answer at ha
      dsimp only at ha hr
      split at ha
      · next hk =>
        injection ha with hof he
        unfold lengthBefore at he
        refine ⟨not_lt.1 hp, ?_, fun _ => ⟨hof, hof ▸ hi, hr, ?_⟩, ?_⟩
        · rintro rfl
          rw [hk.resolve_left Bool.false_ne_true, ho.resolve_left Bool.false_ne_true]
        · split at he
          · next hz => exact .inr ⟨hz.1, hz.2, he.symm⟩
          · next hz =>
            refine .inl ⟨he, fun htr hl' => ?_⟩
            exact hz ⟨htr, he.trans hl'⟩
        · rintro rfl htr
          cases htr.symm.trans (ho.resolve_left Bool.false_ne_true)
      · cases ha
    · intro hl
      obtain ⟨hof, hi, hr, he⟩ := hl.value ho
      have hk : w ∨ ne.value.isBinary := by
        cases w with
        | true => exact .inl rfl
        | false =>
          exact .inr ((hl.kind rfl).trans (ho.resolve_left Bool.false_ne_true))
      have hb : lengthBefore bl.memory sub pl = ne.value.length := by
        unfold lengthBefore
        rcases he with ⟨hw, hn⟩ | ⟨htr, hw, hf⟩
        · rw [if_neg fun h => hn h.1 (hw.symm.trans h.2), hw]
        · rw [if_pos ⟨htr, hw⟩, hf]
      refine ⟨?_, ?_, hr⟩
      · dsimp only [VersionNode.answer]
        rw [if_pos hk, hof, hb]
      · intro p l h
        injection h with hp' _
        rw [← hp', hof]
        exact hi
  · rw [if_neg ho]
    obtain ⟨hwi, htr⟩ := not_or.1 ho
    have hwi := Bool.eq_false_of_not_eq_true hwi
    have htr := Bool.eq_false_of_not_eq_true htr
    subst hwi
    constructor
    · intro h
      have ha := h.answer
      dsimp only [VersionNode.answer] at ha
      split at ha
      · cases ha
      next hk =>
      injection ha with ht
      refine ⟨not_lt.1 hp, fun _ => ?_, fun h => absurd h ho, fun _ _ => ?_⟩
      · rw [Bool.eq_false_of_not_eq_true fun h => hk (.inr h), htr]
      · exact ⟨ht, h.reads⟩
    · intro hl
      obtain ⟨ht, hr⟩ := hl.text rfl htr
      have hk : ¬ (false ∨ ne.value.isBinary) := by
        rw [hl.kind rfl, htr]
        simp
      refine ⟨?_, (nofun), hr⟩
      dsimp only [VersionNode.answer]
      rw [if_neg hk, ht]

theorem le_unitsReadEnd (m : ℕ → UInt8) (pl count : ℕ) : pl + 2 ≤ unitsReadEnd m pl count := by
  dsimp only [unitsReadEnd]
  omega

theorem unitsReadEnd_le {us : List UInt16} (h : unitsAt m pl us.length = us) :
    unitsReadEnd m pl us.length ≤ pl + 2 * us.length + 2 := by
  dsimp only [unitsReadEnd]
  rw [h]
  omega

/-- **The key of the node is such a place**, if the node can be told from it. -/
theorem likeKey_self (hat : NodeAt block.memory node offset) (hs : IsKeyOf sub node offset place) :
    LikeKey block sub wide node offset place ↔ KeyTells block sub wide node offset := by
  obtain ⟨rfl, hk⟩ := hs
  have hwo : wordAt block.memory (offset + 6 - 4) = node.value.length := hat.length
  have ho : alignDword (offset + 6 + (wideBytes (queryKey sub)).length) =
      node.valueOffset offset := by rw [hk]; rfl
  have hd : offset + 6 + (wideBytes (queryKey sub)).length = node.keyEnd offset := by
    rw [hk]
    rfl
  have hke : node.keyEnd offset ≤ node.valueOffset offset := le_alignDword _
  constructor
  · intro hl
    refine ⟨hl.kind, ?_, ?_, ?_⟩
    · intro ha
      obtain ⟨-, -, -, he⟩ := hl.value (.inr ha)
      rcases he with ⟨-, hn⟩ | ⟨-, -, hfo⟩
      · exact hn ha
      · omega
    · by_cases hp : wide ∨ isTranslationQuery sub
      · exact (hl.value hp).2.1
      obtain ⟨hw, ha⟩ := not_or.1 hp
      have hr := (hl.text (Bool.eq_false_of_not_eq_true hw) (Bool.eq_false_of_not_eq_true ha)).2
      rw [ho] at hr
      have hle := le_unitsReadEnd block.memory (node.valueOffset offset)
        (wordAt block.memory (offset + 6 - 4) - 1)
      omega
    · intro hw ha
      have hr := (hl.text hw ha).2
      rw [ho] at hr
      exact (le_unitsReadEnd _ _ _).trans hr
  · intro ht
    refine ⟨Nat.le_add_left _ _, ht.kind, ?_, ?_⟩
    · intro _
      refine ⟨ho, ht.inside, ?_, .inl ⟨hwo, ht.translation⟩⟩
      rw [hd]
      exact hke.trans ht.inside
    · intro hw ha
      have hf := ht.first hw ha
      have hb := (ht.kind hw).trans ha
      have hv := hat.value
      have hve := hat.valueEnd
      unfold VersionNode.valueEnd at hve
      rw [ho, hwo]
      cases hvo : node.value with
      | none =>
        refine ⟨rfl, ?_⟩
        exact hf
      | binary bs =>
        rw [hvo] at hb
        cases hb
      | text units =>
        rw [hvo] at hv hve
        have hu : unitsAt block.memory (node.valueOffset offset) units.length = units :=
          unitsAt_of_occursAt hv
        refine ⟨congrArg wideToUtf8 hu, ?_⟩
        have hre := unitsReadEnd_le hu
        have hn : (VersionValue.text units).bytes ≠ [] := by
          intro hi
          have he := congrArg List.length hi
          rw [show (VersionValue.text units).bytes = wideBytes units from rfl,
            length_wideBytes] at he
          cases he
        rw [if_neg hn] at hve
        have he : (VersionValue.text units).bytes.length = 2 * units.length + 2 :=
          length_wideBytes units
        rw [he] at hve
        exact hre.trans (le_trans (le_of_eq (add_assoc _ _ _)) hve)

/-! ### The root is named -/

theorem VersionBlock.inside_root (bl : VersionBlock) : bl.root.Inside bl.memory 0 :=
  ⟨bl.lies, by rw [zero_add]⟩

theorem VersionBlock.root_value (bl : VersionBlock) : bl.root.key = rootKey ∧
    (bl.root.value = .none ∨ ∃ bs, bl.root.value = .binary bs ∧
      bs.length = 52 ∧ bs.take 4 = kFixedSig) := by
  have h := bl.isVersionInfo
  unfold VersionNode.isVersionInfo at h
  simp only [Bool.and_eq_true, decide_eq_true_eq] at h
  obtain ⟨⟨hk, hv⟩, -⟩ := h
  refine ⟨hk, ?_⟩
  cases hr : bl.root.value with
  | none => exact .inl rfl
  | text us =>
    rw [hr] at hv
    cases hv
  | binary bs =>
    rw [hr] at hv
    exact .inr ⟨bs, rfl, of_decide_eq_true hv⟩

theorem VersionBlock.valueOffset_root (bl : VersionBlock) : bl.root.valueOffset 0 = 40 := by
  unfold valueOffset keyEnd
  rw [bl.root_value.1, length_wideBytes]
  decide +kernel

/-- **The signature of the fixed part is found where it is.** -/
theorem search_kFixedSig {bs : ByteString} (h : block.root.value = .binary bs) :
    search block.memory 128 kFixedSig = some 40 := by
  obtain ⟨hk, hv⟩ := block.root_value
  obtain ⟨hl, hs⟩ : bs.length = 52 ∧ bs.take 4 = kFixedSig := by
    rcases hv with hno | ⟨bs', hb, hp⟩
    · cases h.symm.trans hno
    · cases h.symm.trans hb
      exact hp
  have ha := block.inside_root.nodeAt
  have hb := ha.value
  rw [h, block.valueOffset_root] at hb
  have hf : occursAt block.memory 40 kFixedSig := by
    rw [show (VersionValue.binary bs).bytes = bs.take 4 ++ bs.drop 4 from
      (take_append_drop 4 bs).symm, occursAt_append, hs] at hb
    exact hb.1
  rw [search_eq_some]
  refine ⟨by decide, hf, ?_⟩
  intro o ho
  by_contra hoc
  -- the bytes of the header and of the key are none of the signature's first
  unfold kFixedSig at hoc hf
  simp only [Bool.not_eq_false, occursAt_cons, occursAt_nil, and_true] at hoc hf
  obtain ⟨h₀, h₁, h₂, -⟩ := hoc
  have hla : (block.memory 2).toNat + 256 * (block.memory 3).toNat = 52 := by
    have hw := ha.length
    rw [h] at hw
    exact hw.trans hl
  have hta : (block.memory 4).toNat + 256 * (block.memory 5).toNat = 0 := by
    have ht := ha.type
    rw [h] at ht
    exact of_decide_eq_true ht
  have hka : ∀ i < 32, block.memory (6 + i) ≠ 0xBD := by
    intro i hi heq
    have hoc := ha.key
    rw [hk] at hoc
    have hm := mem_of_occursAt (i := i) hoc (by rw [length_wideBytes]; exact hi)
    rw [zero_add, heq] at hm
    revert hm
    decide +kernel
  have hc : o = 0 ∨ o = 1 ∨ o = 2 ∨ o = 3 ∨ o = 4 ∨ o = 5 ∨
      o = 38 ∨ o = 39 ∨ ∃ i < 32, o = 6 + i := by
    by_cases hi : 6 ≤ o ∧ o < 38
    · iterate 8 right
      exact ⟨o - 6, by omega, by omega⟩
    · omega
  have hy : ∀ {i n : ℕ} {b : UInt8}, (block.memory i).toNat = n → b.toNat ≠ n →
      block.memory i ≠ b := by
    rintro i n b hn he rfl
    exact he hn
  have htw : (block.memory 2).toNat = 52 := by omega
  rcases hc with rfl | rfl | rfl | rfl | rfl | rfl | rfl | rfl | ⟨i, hi, rfl⟩
  · exact hy htw (by decide) h₂
  · exact hy htw (by decide) h₁
  · exact hy htw (by decide) h₀
  · exact hy (i := 3) (n := 0) (by omega) (by decide) h₀
  · exact hy (i := 4) (n := 0) (by omega) (by decide) h₀
  · exact hy (i := 5) (n := 0) (by omega) (by decide) h₀
  · exact absurd (hf.1.symm.trans h₂) (by decide)
  · exact absurd (hf.1.symm.trans h₁) (by decide)
  · exact hka i hi h₀

/-! ### The condition decides it -/

theorem verQueryValueInternal_iff_root (u : UInt16 → UInt16) (p : List (List UInt16))
    (ho : isRootQuery sub) :
    VersionAnswers block (block.root.find block.memory u p 0) wide
      (verQueryValueInternal block.memory sub wide) ↔
    VersionCareful block (block.root.find block.memory u p 0) sub wide := by
  unfold VersionCareful verQueryValueInternal
  rw [if_pos ho, if_pos ho]
  generalize hm : block.root.find block.memory u p 0 = named
  rcases named with _ | ⟨offset, node⟩
  · cases hs : search block.memory 128 kFixedSig with
    | none =>
      constructor
      · intro h
        exact ⟨rfl, h.reads⟩
      · rintro ⟨-, hr⟩
        exact ⟨rfl, (nofun), hr⟩
    | some it =>
      refine iff_of_false ?_ (fun h => by cases h.1)
      intro h
      cases h.answer
  · rcases le_of_find hm with ⟨rfl, rfl⟩ | ht
    · rcases block.root_value.2 with hn | ⟨bs, hi, hl, -⟩
      · -- there is no fixed part
        refine iff_of_false ?_ fun h => h hn
        intro h
        have ha := h.answer
        dsimp only [VersionNode.answer] at ha
        rw [hn] at ha
        cases hs : search block.memory 128 kFixedSig with
        | none =>
          rw [hs] at ha
          dsimp only at ha
          split at ha <;> cases ha
        | some it =>
          rw [hs] at ha
          dsimp only at ha
          split at ha <;> cases ha
      · have hne : block.root.value ≠ .none := by
          rw [hi]
          exact VersionValue.noConfusion
        refine iff_of_true ?_ hne
        have he := block.inside_root.nodeAt.valueEnd
        unfold VersionNode.valueEnd at he
        have hb : (VersionValue.binary bs).bytes ≠ [] := by
          rintro hni
          rw [show bs = [] from hni] at hl
          cases hl
        rw [hi, if_neg hb, block.valueOffset_root,
          show (VersionValue.binary bs).bytes.length = 52 from hl] at he
        have he : 40 + 52 ≤ block.size := he
        rw [search_kFixedSig hi]
        refine ⟨?_, ?_, ?_⟩
        · dsimp only [VersionNode.answer]
          have hk : wide ∨ (VersionValue.binary bs).isBinary := .inr rfl
          rw [hi, block.valueOffset_root, if_pos hk]
          exact congrArg _ hl.symm
        · intro offset l h
          injection h with hf _
          omega
        · show 40 + 4 ≤ block.size
          omega
    · obtain ⟨offset, rfl⟩ := Nat.exists_eq_succ_of_ne_zero (Nat.pos_iff_ne_zero.1 ht)
      cases hs : search block.memory 128 kFixedSig with
      | none =>
        refine iff_of_false ?_ (fun h => by cases h.1)
        intro h
        have ha := h.answer
        dsimp only [VersionNode.answer] at ha
        split at ha <;> cases ha
      | some it =>
        constructor
        · intro h
          have ha := h.answer
          have hr := h.reads
          unfold VersionNode.answer at ha
          dsimp only at ha hr
          split at ha
          · next hk =>
            injection ha with hit hl
            rw [hit] at hr ⊢
            exact ⟨rfl, hl.symm, hk, hr⟩
          · cases ha
        · rintro ⟨hit, hl, hk, hr⟩
          cases hit
          refine ⟨?_, ?_, hr⟩
          · dsimp only [VersionNode.answer]
            rw [if_pos hk, hl]
          · intro offset l h
            injection h with hf _
            omega

/-- **A query is right if and only if the condition is met.** -/
theorem verQueryValueInternal_iff (block : VersionBlock) (u : UInt16 → UInt16)
    (p : List (List UInt16)) (sub : ByteString) (wide : Bool) :
    VersionAnswers block (block.root.find block.memory u p 0) wide
      (verQueryValueInternal block.memory sub wide) ↔
    VersionCareful block (block.root.find block.memory u p 0) sub wide := by
  cases hr : isRootQuery sub with
  | true => exact verQueryValueInternal_iff_root u p hr
  | false =>
    unfold VersionCareful
    rw [hr, if_neg Bool.false_ne_true]
    cases hk : hasQueryKey sub with
    | false =>
      -- the code says that the path is wrong
      refine iff_of_false ?_ (fun h => by cases h.1)
      rw [verQueryValueInternal_noKey hr hk]
      intro h
      have ha := h.answer
      split at ha
      · unfold VersionNode.answer at ha
        split at ha <;> cases ha
      · cases ha
    | true =>
      rw [verQueryValueInternal_key hr hk]
      generalize hm : block.root.find block.memory u p 0 = named
      rcases named with _ | ⟨offset, node⟩
      · cases hf : firstPlace block.memory sub with
        | none =>
          constructor
          · intro h
            exact ⟨rfl, .inl ⟨rfl, h.reads⟩⟩
          · rintro ⟨-, ⟨-, hre⟩ | ⟨_, _, hp, -⟩⟩
            · exact ⟨rfl, (nofun), hre⟩
            · cases hp
        | some place =>
          dsimp only
          by_cases hp : place < 6
          · have hrp : replyFrom block.memory sub wide place =
                ⟨.resourceNotFound, place + (wideBytes (queryKey sub)).length⟩ := if_pos hp
            rw [hrp]
            constructor
            · intro h
              exact ⟨rfl, .inr ⟨place, hp, rfl, h.reads⟩⟩
            · rintro ⟨-, ⟨hn, -⟩ | ⟨_, _, hs, hre⟩⟩
              · cases hn
              · cases hs
                exact ⟨rfl, (nofun), hre⟩
          · refine iff_of_false ?_ ?_
            · intro h
              have ha := h.answer
              dsimp only [replyFrom] at ha
              rw [if_neg hp] at ha
              split at ha <;> cases ha
            · rintro ⟨-, ⟨hn, -⟩ | ⟨_, hlt, hs, -⟩⟩
              · cases hn
              · cases hs
                exact hp hlt
      · have hat := (lies_of_find block.inside_root hm).nodeAt
        cases hf : firstPlace block.memory sub with
        | none =>
          refine iff_of_false ?_ ?_
          · intro h
            have ha := h.answer
            dsimp only [VersionNode.answer] at ha
            split at ha <;> cases ha
          · rintro ⟨-, _, hs, -⟩
            cases hs
        | some place =>
          rw [answers_replyFrom_iff]
          constructor
          · intro hl
            refine ⟨rfl, place, rfl, ?_⟩
            by_cases he : IsKeyOf sub node offset place
            · exact .inl ⟨he, (likeKey_self hat he).1 hl⟩
            · exact .inr ⟨he, hl⟩
          · rintro ⟨-, _, hs, ⟨he, ht⟩ | ⟨-, hl⟩⟩
            · cases hs
              exact (likeKey_self hat he).2 ht
            · cases hs
              exact hl

/-- **The two functions are right for a path if and only if the condition is met.** -/
theorem verQueryValue_iff (block : VersionBlock) (upper : UInt16 → UInt16) : (∀ path : List UInt16,
      VersionAnswers block (block.namedW upper path) true (verQueryValueW block.memory path) ↔
        VersionCareful block (block.namedW upper path) (wideSubBlock path) true) ∧
    ∀ path : ByteString,
      VersionAnswers block (block.namedA upper path) false (verQueryValueA block.memory path) ↔
        VersionCareful block (block.namedA upper path) path false :=
  ⟨fun path => verQueryValueInternal_iff block upper _ (wideSubBlock path) true,
    fun path => verQueryValueInternal_iff block upper _ path false⟩

/-- A block with two tables, which have the same key with different strings. -/
def twoTables : VersionBlock where
  memory := fun i => List.getD
    (toLE 2 132 ++ [0, 0, 0, 0] ++ wideBytes rootKey ++ [0, 0] ++
      toLE 2 92 ++ [0, 0, 1, 0] ++ wideBytes ((text "StringFileInfo").map UInt8.toUInt16) ++
      toLE 2 28 ++ [0, 0, 1, 0] ++ wideBytes [0x31] ++ [0, 0] ++
      toLE 2 16 ++ [2, 0, 1, 0] ++ wideBytes [0x4B] ++ [0, 0] ++ wideBytes [0x61] ++
      toLE 2 28 ++ [0, 0, 1, 0] ++ wideBytes [0x32] ++ [0, 0] ++
      toLE 2 16 ++ [2, 0, 1, 0] ++ wideBytes [0x4B] ++ [0, 0] ++ wideBytes [0x62]) i 0
  root := ⟨rootKey, .none, [⟨(text "StringFileInfo").map UInt8.toUInt16, .none,
    [⟨[0x31], .none, [⟨[0x4B], .text [0x61], []⟩]⟩,
      ⟨[0x32], .none, [⟨[0x4B], .text [0x62], []⟩]⟩]⟩]⟩
  isVersionInfo := by decide +kernel
  lies := by decide +kernel

/-- The string of the second table is not found: the pointer is to that of the first. -/
theorem not_versionAnswers : ¬ ∀ (block : VersionBlock) (upper : UInt16 → UInt16)
    (path : List UInt16),
    VersionAnswers block (block.namedW upper path) true (verQueryValueW block.memory path) := by
  intro h
  have hp := h twoTables id ((text "StringFileInfo\\2\\K").map UInt8.toUInt16)
  have hn : twoTables.namedW id ((text "StringFileInfo\\2\\K").map UInt8.toUInt16) =
      some (116, ⟨[0x4B], .text [0x62], []⟩) := by rfl
  have hr : (verQueryValueW twoTables.memory
      ((text "StringFileInfo\\2\\K").map UInt8.toUInt16)).answer = .value 100 2 := by
    decide +kernel
  have ha := hp.answer
  revert ha
  decide +kernel

end TradutorLinux
