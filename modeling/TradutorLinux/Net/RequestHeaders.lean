import TradutorLinux.Net.InternetSlots
import TradutorLinux.Util.KeyedLists

/-!
# The headers of a WinINet request

What the calls make of the header list of a request: what can be in it, when a
call that fails leaves it alone, and what becomes of headers with one name.

## Main definitions

* `Header.Clean` — what every header of a list satisfies.
* `HeadersKept`

## Main results

* `header_lists_kept`
-/

namespace TradutorLinux.WinInet

open List Function Option Prod

/-- A header whose name may be set, without line ends and zeros. -/
def Header.Clean (h : Header) : Prop :=
  prohibitedHeader h.name = false ∧ ∀ c ∈ h.name ++ h.value, c ≠ 0x0D ∧ c ≠ 0x0A ∧ c ≠ 0

def Header.key (h : Header) : ByteString := lowerAscii h.name

/-! ### Parsing -/

section Parsing

variable {line input inp : ByteString} {h : Header} {parsed pa p : List Header}

theorem parseHeaderLine_clean (hl : parseHeaderLine line = some h) : h.Clean := by
  unfold parseHeaderLine at hl
  simp only [bind_eq_bind, bind_eq_some_iff, ite_none_left_eq_some] at hl
  obtain ⟨co, -, hn, hv, heq⟩ := hl
  cases heq
  simp only [Bool.or_eq_true, Bool.not_eq_true', not_or, Bool.not_eq_false, Bool.not_eq_true]
    at hn
  obtain ⟨hva, ha⟩ := hn
  refine ⟨ha, fun c hc => ?_⟩
  rcases mem_append.1 hc with hc | hc
  · have hb := all_eq_true.1 (Bool.and_eq_true_iff.1 hva).2 c hc
    simp only [Bool.not_eq_true', Bool.or_eq_false_iff, decide_eq_false_iff_not] at hb
    refine ⟨hb.1.2, hb.2, ?_⟩
    rintro rfl
    exact hb.1.1.1.1 (by decide)
  · have hb : ¬(c < 0x20 ∧ c ≠ 0x09) := by
      intro hba
      exact hv (any_eq_true.2 ⟨c, hc, by simpa using hba⟩)
    refine ⟨?_, ?_, ?_⟩ <;> rintro rfl <;> exact hb (by decide)

theorem parseHeaders_spec (hp : parseHeaders inp = some p) : p ≠ [] ∧ ∀ h ∈ p, h.Clean := by
  unfold parseHeaders at hp
  split at hp
  · cases hp
  obtain ⟨hl, hn⟩ := filter_eq_some_iff.1 hp
  refine ⟨by simpa using hn, ?_⟩
  clear hp hn
  generalize headerLines [] inp = ls at hl
  induction ls generalizing p with
  | nil =>
    obtain rfl : p = [] := (some.inj hl).symm
    simp
  | cons line ls ih =>
    rw [mapM_cons] at hl
    simp only [bind_eq_bind, bind_eq_some_iff, Option.pure_def] at hl
    obtain ⟨h, hh, r, hr, heq⟩ := hl
    cases heq
    exact forall_mem_cons.2 ⟨parseHeaderLine_clean hh, ih hr⟩

end Parsing

/-! ### Merging -/

section Merging

variable {mode m : UInt32} {headers hd hea parsed pa p : List Header} {h : Header} {k : ByteString}

theorem mergeHeader_absent (h : Header) (ha : withKey Header.key hea h.key = []) :
    mergeHeader m hea h = hea ++ [h] := by
  have hn := withKey_eq_nil_iff.1 ha
  unfold mergeHeader
  rw [show (hea.findIdx? fun c => c.sameName h) = none from hn]

/-- A header whose name is there: by the mode it goes to the end, nowhere, or to the place of
the first. -/
theorem mergeHeader_present (m : UInt32) (h : Header) (hp : withKey Header.key hea h.key ≠ []) :
    ∃ i, (hea.findIdx? fun c => decide (c.key = h.key)) = some i ∧ mergeHeader m hea h =
        if m = kHttpAddReqFlagReplace then hea.set i h
        else if m = kHttpAddReqFlagAdd then hea ++ [h]
        else if m = kHttpAddReqFlagAddIfNew then hea
        else hea.set i h := by
  obtain ⟨i, hi⟩ := ne_none_iff_exists'.1 (mt withKey_eq_nil_iff.2 hp)
  refine ⟨i, hi, ?_⟩
  unfold mergeHeader
  rw [show (hea.findIdx? fun ca => ca.sameName h) = some i from hi]

theorem mem_mergeHeader {c : Header} (hc : c ∈ mergeHeader m hea h) : c ∈ hea ∨ c = h := by
  by_cases hp : withKey Header.key hea h.key = []
  · rw [mergeHeader_absent h hp] at hc
    simpa using hc
  obtain ⟨i, -, heq⟩ := mergeHeader_present m h hp
  rw [heq] at hc
  split at hc
  · exact mem_or_eq_of_mem_set hc
  split at hc
  · simpa using hc
  split at hc
  · exact .inl hc
  · exact mem_or_eq_of_mem_set hc

theorem mem_foldl_mergeHeader {c : Header} (hc : c ∈ parsed.foldl (mergeHeader mode) headers) :
    c ∈ headers ∨ c ∈ parsed := by
  induction parsed generalizing headers with
  | nil => exact .inl hc
  | cons h parsed ih =>
    rcases ih hc with hc | hc
    · rcases mem_mergeHeader hc with hc | rfl
      · exact .inl hc
      · exact .inr mem_cons_self
    · exact .inr (mem_cons_of_mem _ hc)

/-! #### Adding -/

theorem foldl_mergeHeader_add :
    parsed.foldl (mergeHeader kHttpAddReqFlagAdd) headers = headers ++ parsed := by
  induction parsed generalizing headers with
  | nil => simp
  | cons h parsed ih =>
    have ho : mergeHeader kHttpAddReqFlagAdd headers h = headers ++ [h] := by
      by_cases hp : withKey Header.key headers h.key = []
      · exact mergeHeader_absent h hp
      · obtain ⟨i, -, heq⟩ := mergeHeader_present kHttpAddReqFlagAdd h hp
        rw [heq, if_neg (by decide), if_pos rfl]
    rw [foldl_cons, ho, ih, append_assoc, singleton_append]

theorem withKey_addIfNew (hp : withKey Header.key hea k ≠ []) :
    withKey Header.key (p.foldl (mergeHeader kHttpAddReqFlagAddIfNew) hea) k =
      withKey Header.key hea k := by
  induction p generalizing hea with
  | nil => rfl
  | cons h p ih =>
    have ho : withKey Header.key (mergeHeader kHttpAddReqFlagAddIfNew hea h) k =
        withKey Header.key hea k := by
      by_cases ha : withKey Header.key hea h.key = []
      · rw [mergeHeader_absent h ha, withKey_concat]
        split
        · next heq => exact absurd ha (heq ▸ hp)
        · rfl
      · obtain ⟨i, -, heq⟩ := mergeHeader_present kHttpAddReqFlagAddIfNew h ha
        rw [heq, if_neg (by decide), if_neg (by decide), if_pos rfl]
    rw [foldl_cons, ih (ho ▸ hp), ho]

/-! #### Replacing -/

theorem withKey_replace (h : Header) :
    withKey Header.key (mergeHeader kHttpAddReqFlagReplace hea h) k =
      if h.key = k then h :: (withKey Header.key hea k).tail
      else withKey Header.key hea k := by
  by_cases ha : withKey Header.key hea h.key = []
  · rw [mergeHeader_absent h ha, withKey_concat]
    split
    · next heq => rw [← heq, ha]; rfl
    · rfl
  · obtain ⟨i, hi, heq⟩ := mergeHeader_present kHttpAddReqFlagReplace h ha
    rw [heq, if_pos rfl, withKey_set hi]

/-- **Replacing leaves the last header of the name, and all but the first that were there.** -/
theorem withKey_foldl_replace :
    withKey Header.key (p.foldl (mergeHeader kHttpAddReqFlagReplace) hea) k =
      match (withKey Header.key p k).getLast? with
      | none => withKey Header.key hea k
      | some h => h :: (withKey Header.key hea k).tail := by
  induction p generalizing hea with
  | nil => rfl
  | cons h p ih =>
    rw [foldl_cons, ih, withKey_replace, withKey_cons]
    by_cases hk : h.key = k
    · rw [if_pos hk, if_pos hk, getLast?_cons]
      cases (withKey Header.key p k).getLast? <;> rfl
    · rw [if_neg hk, if_neg hk]

end Merging

/-! ### The calls -/

/-- The call adds the headers of its text to the list of the slot. -/
def HeadersArgs.AddsTo (a : HeadersArgs) (slots : InternetSlots) (index : ℕ)
    (parsed : List Header) : Prop :=
  ∃ input, a.text = some input ∧ slots.findKind a.request .request = some index ∧
    parseHeaders input = some parsed ∧ a.modifiers &&& ~~~kHttpAddReqFlags = 0

/-- The body can be read, and the transport comes back with a response. -/
def SendArgs.Succeeds (a : SendArgs) : Prop :=
  (∃ body, a.body = .ok body) ∧ ∃ status rawHeaders body,
    a.transport = .response status rawHeaders body

def InternetCall.onHeaders : InternetCall → Bool
  | .addHeaders _ => true
  | .send _ => true
  | _ => false

def CleanHeaders (slots : InternetSlots) : Prop := ∀ i, ∀ h ∈ (slots i).headers, h.Clean

/-- The call replaces: `HTTP_ADDREQ_FLAG_REPLACE`, and the modes of the last branch. -/
def Replaces (modifiers : UInt32) : Prop :=
  modifiers &&& kHttpAddReqFlags ≠ kHttpAddReqFlagAdd ∧
    modifiers &&& kHttpAddReqFlags ≠ kHttpAddReqFlagAddIfNew

theorem mergeHeader_of_replaces {ms : UInt32} (h : Replaces ms) :
    mergeHeader (ms &&& kHttpAddReqFlags) = mergeHeader kHttpAddReqFlagReplace := by
  funext headers header
  unfold mergeHeader
  split
  · rfl
  · rw [if_neg h.1, if_neg h.2, ite_self, if_pos rfl]

/-- **What a call has to do: the lists are clean, a call that fails leaves them alone, replacing
leaves one header of each name, the last, and adding what is new leaves the names that are
there alone.** -/
structure HeadersKept (slots : InternetSlots) (c : InternetCall) (s : InternetSlots) : Prop where
  clean : CleanHeaders s
  failed : ∀ reply, c.onHeaders = true → slots.call c = some (s, reply) → reply.value = 0 →
    ∀ i, (s i).headers = (slots i).headers
  replaced : ∀ a index parsed, c = .addHeaders a → Replaces a.modifiers →
    a.AddsTo slots index parsed → ∀ h ∈ parsed,
      withKey Header.key (s index).headers h.key =
        (withKey Header.key parsed h.key).getLast?.toList
  addedIfNew : ∀ a index parsed, c = .addHeaders a → a.modifiers = kHttpAddReqFlagAddIfNew →
    a.AddsTo slots index parsed → ∀ k, withKey Header.key (slots index).headers k ≠ [] →
      withKey Header.key (s index).headers k = withKey Header.key (slots index).headers k

/-- A name that is replaced is not there twice, and a send whose headers are accepted
succeeds. -/
def HeadersOrderly (slots : InternetSlots) : InternetCall → Prop
  | .addHeaders a => Replaces a.modifiers → ∀ index parsed,
    a.AddsTo slots index parsed → ∀ h ∈ parsed,
      (withKey Header.key (slots index).headers h.key).length ≤ 1
  | .send a => ∀ input index parsed, a.text = some input →
    slots.findKind a.request .request = some index → (slots index).sent = false →
    parseHeaders input = some parsed → a.Succeeds
  | _ => True

section Calls

variable {slots s : InternetSlots} {index ix : ℕ} {parsed pa p : List Header}

theorem mergeHeaders_eq {headers : List Header} {input : ByteString} {ms : UInt32} :
    mergeHeaders headers input ms = if ms &&& ~~~kHttpAddReqFlags ≠ 0 then none
      else (parseHeaders input).map fun parsed =>
        parsed.foldl (mergeHeader (ms &&& kHttpAddReqFlags)) headers := by
  unfold mergeHeaders
  cases parseHeaders input <;> simp [bind_some]

theorem httpAddRequestHeaders_adds {a : HeadersArgs} (h : a.AddsTo slots ix p) :
    httpAddRequestHeaders slots a = (update slots ix { slots ix with
      headers := p.foldl (mergeHeader (a.modifiers &&& kHttpAddReqFlags))
        (slots ix).headers }, ⟨1, Runtime.kErrorSuccess⟩) := by
  obtain ⟨inp, ht, hi, hp, hf⟩ := h
  unfold httpAddRequestHeaders
  rw [ht]
  rw [hi]
  dsimp only
  rw [mergeHeaders_eq, if_neg (not_not.2 hf), hp, map_some]

/-- **`HttpAddRequestHeadersW` adds, or it fails and changes nothing.** -/
theorem httpAddRequestHeaders_cases (slots : InternetSlots) (a : HeadersArgs) :
    (∃ index parsed, a.AddsTo slots index parsed) ∨
      (httpAddRequestHeaders slots a).1 = slots ∧ (httpAddRequestHeaders slots a).2.value = 0 := by
  by_cases ha : ∃ index parsed, a.AddsTo slots index parsed
  · exact .inl ha
  right
  unfold httpAddRequestHeaders
  cases ht : a.text with
  | none => exact ⟨rfl, rfl⟩
  | some input =>
    cases hi : slots.findKind a.request .request with
    | none => exact ⟨rfl, rfl⟩
    | some index =>
      dsimp only
      cases hm : mergeHeaders (slots index).headers input a.modifiers with
      | none => exact ⟨rfl, rfl⟩
      | some headers =>
        rw [mergeHeaders_eq] at hm
        split at hm
        · cases hm
        · next hf =>
          obtain ⟨parsed, hp, -⟩ := map_eq_some_iff.1 hm
          exact absurd ⟨index, parsed, input, ht, hi, hp, not_not.1 hf⟩ ha

theorem parseHeaders_nil : parseHeaders [] = none := rfl

variable {reply re : InternetReply}

theorem sendRequest_headers {r r' : InternetSlot} {input : ByteString} {a : SendArgs}
    {es : Bool} (hs : sendRequest r input a es = some (r', reply)) :
    r'.headers = r.headers ++ (parseHeaders input).getD [] ∧
      ((parseHeaders input).isSome → (reply.value = 0 ↔ ¬a.Succeeds)) := by
  have hm : (if input = [] then some r.headers
      else mergeHeaders r.headers input kHttpAddReqFlagAdd) =
        if input = [] ∨ (parseHeaders input).isSome then
          some (r.headers ++ (parseHeaders input).getD []) else none := by
    by_cases hi : input = []
    · simp [hi, parseHeaders_nil]
    rw [if_neg hi, mergeHeaders_eq, if_neg (by decide)]
    rw [show kHttpAddReqFlagAdd &&& kHttpAddReqFlags = kHttpAddReqFlagAdd by decide]
    cases parseHeaders input with
    | none => simp [hi]
    | some parsed => simp [foldl_mergeHeader_add]
  unfold sendRequest at hs
  rw [hm] at hs
  unfold SendArgs.Succeeds
  by_cases ho : input = [] ∨ (parseHeaders input).isSome
  · rw [if_pos ho] at hs
    cases hb : a.body with
    | error le =>
      rw [hb] at hs
      cases hs
      exact ⟨rfl, fun _ => by simp⟩
    | ok b =>
      rw [hb] at hs
      dsimp only at hs
      split at hs
      · cases ht : a.transport with
        | error le =>
          rw [ht] at hs
          cases hs
          exact ⟨rfl, fun _ => by simp⟩
        | response ss rh rb =>
          rw [ht] at hs
          cases hs
          exact ⟨rfl, fun _ => by simp⟩
      · cases hs
  · rw [if_neg ho] at hs
    cases hs
    push Not at ho
    have hn : parseHeaders input = none := not_isSome_iff_eq_none.1 ho.2
    rw [hn]
    exact ⟨by simp, nofun⟩

section

variable (hclean : CleanHeaders slots)
include hclean

theorem CleanHeaders.of_mem
    (h : ∀ i, ∀ x ∈ (s i).headers, x ∈ (slots i).headers ∨ x.Clean) : CleanHeaders s := by
  intro i x hx
  rcases h i x hx with hx | hx
  · exact hclean i x hx
  · exact hx

theorem CleanHeaders.update {sl : InternetSlot}
    (h : ∀ x ∈ sl.headers, x ∈ (slots ix).headers ∨ x.Clean) :
    CleanHeaders (update slots ix sl) := by
  refine hclean.of_mem fun i x hx => ?_
  by_cases hi : i = ix
  · subst hi
    rw [update_self] at hx
    exact h x hx
  · rw [update_of_ne hi] at hx
    exact .inl hx

theorem CleanHeaders.allocate {sl : InternetSlot} (hs : sl.headers = [])
    (ha : slots.allocateHandleLocked sl = some (s, ix)) : CleanHeaders s := by
  obtain ⟨i', -, heq⟩ := map_eq_some_iff.1 ha
  cases heq
  refine hclean.update fun x hx => ?_
  rw [hs] at hx
  cases hx

theorem CleanHeaders.closeSlots {a n : ℕ}
    (hc : closeSlots a slots n = some s) : CleanHeaders s := by
  induction n generalizing s with
  | zero =>
    cases hc
    exact hclean
  | succ n ih =>
    obtain ⟨t, ht, hs⟩ := bind_eq_some_iff.1 hc
    have hc' := ih ht
    unfold closeSlot at hs
    split at hs
    · obtain ⟨b, -, rfl⟩ := map_eq_some_iff.1 hs
      cases b with
      | true => exact hc'.update fun x hx => by cases hx
      | false => exact hc'
    · cases hs
      exact hc'

theorem CleanHeaders.addHeaders (a : HeadersArgs) :
    CleanHeaders (httpAddRequestHeaders slots a).1 := by
  rcases httpAddRequestHeaders_cases slots a with ⟨ix, p, ha⟩ | ⟨hs, -⟩
  · rw [httpAddRequestHeaders_adds ha]
    obtain ⟨inp, -, -, hp, -⟩ := ha
    refine hclean.update fun x hx => ?_
    rcases mem_foldl_mergeHeader hx with hx | hx
    · exact .inl hx
    · exact .inr ((parseHeaders_spec hp).2 x hx)
  · rw [hs]
    exact hclean

end

theorem httpSendRequest_cases {a : SendArgs} (hs : httpSendRequest slots a = some (s, re)) :
    (s = slots ∧ ∀ inp ix, a.text = some inp → slots.findKind a.request .request = some ix →
      (slots ix).sent) ∨ ∃ inp ix request, a.text = some inp ∧
      slots.findKind a.request .request = some ix ∧ (slots ix).sent = false ∧
      sendRequest (slots ix) inp a (slots.walksEnd ix) = some (request, re) ∧
      s = update slots ix request := by
  unfold httpSendRequest at hs
  cases ht : a.text with
  | none =>
    rw [ht] at hs
    cases hs
    exact .inl ⟨rfl, nofun⟩
  | some inp =>
    rw [ht] at hs
    cases hf : slots.findKind a.request .request with
    | none =>
      rw [hf] at hs
      cases hs
      exact .inl ⟨rfl, nofun⟩
    | some ix =>
      rw [hf] at hs
      dsimp only at hs
      split at hs
      · next he =>
        cases hs
        exact .inl ⟨rfl, fun _ _ _ h => by obtain rfl := some.inj h; exact he⟩
      · next he =>
        obtain ⟨⟨request, r'⟩, hr, heq⟩ := map_eq_some_iff.1 hs
        cases heq
        exact .inr ⟨inp, ix, request, rfl, rfl, by simpa using he, hr, rfl⟩

theorem CleanHeaders.send (hclean : CleanHeaders slots) {a : SendArgs}
    (hs : httpSendRequest slots a = some (s, re)) : CleanHeaders s := by
  rcases httpSendRequest_cases hs with ⟨rfl, -⟩ | ⟨inp, ix, request, -, -, -, hr, rfl⟩
  · exact hclean
  refine hclean.update fun x hx => ?_
  rw [(sendRequest_headers hr).1] at hx
  rcases mem_append.1 hx with hx | hx
  · exact .inl hx
  cases hp : parseHeaders inp with
  | none =>
    rw [hp] at hx
    cases hx
  | some p =>
    rw [hp] at hx
    exact .inr ((parseHeaders_spec hp).2 x hx)

/-- **Every call keeps the lists clean.** -/
theorem CleanHeaders.step (hclean : CleanHeaders slots) {c : InternetCall}
    (hs : slots.step c = some s) : CleanHeaders s := by
  obtain ⟨⟨s', re⟩, hc, rfl⟩ := map_eq_some_iff.1 hs
  cases c with
  | openSession a =>
    obtain rfl := congrArg fst (some.inj hc)
    simp only [internetOpen]
    split
    · exact hclean
    split
    · exact hclean
    split
    · exact hclean
    · next ha => exact hclean.allocate rfl ha
  | connect a =>
    obtain rfl := congrArg fst (some.inj hc)
    simp only [internetConnect]
    split
    · exact hclean
    split
    · exact hclean
    split
    · exact hclean
    split
    · exact hclean
    · next ha => exact hclean.allocate rfl ha
  | openRequest a =>
    obtain rfl := congrArg fst (some.inj hc)
    simp only [httpOpenRequest]
    split
    · exact hclean
    split
    · exact hclean
    split
    · exact hclean
    · next ha => exact hclean.allocate rfl ha
  | addHeaders a =>
    obtain rfl := congrArg fst (some.inj hc)
    exact hclean.addHeaders a
  | send a => exact hclean.send hc
  | closeHandle i =>
    simp only [InternetSlots.call, internetCloseHandle] at hc
    split at hc
    · cases hc
      exact hclean
    · obtain ⟨t, hl, heq⟩ := map_eq_some_iff.1 hc
      cases heq
      exact hclean.closeSlots hl

/-! ### What a call keeps -/

theorem headersKept_addHeaders_iff (hclean : CleanHeaders slots) (a : HeadersArgs) :
    HeadersKept slots (.addHeaders a) (httpAddRequestHeaders slots a).1 ↔
      HeadersOrderly slots (.addHeaders a) := by
  constructor
  · intro hk he ix p ha h hh
    have hf := hk.replaced a ix p rfl he ha h hh
    obtain ⟨l, hl⟩ := @exists_getLast?_withKey _ _ _ Header.key _ _ hh
    rw [httpAddRequestHeaders_adds ha] at hf
    simp only [update_self] at hf
    rw [mergeHeader_of_replaces he, withKey_foldl_replace, hl] at hf
    have ht : (withKey Header.key (slots ix).headers h.key).tail = [] := by simpa using hf
    have hle := congrArg List.length ht
    rw [length_tail, length_nil] at hle
    omega
  · intro ho
    refine ⟨hclean.addHeaders a, ?_, ?_, ?_⟩
    · intro re _ hc hi i
      have hr : (httpAddRequestHeaders slots a).2.value = 0 := by
        have heq := congrArg snd (some.inj hc)
        rw [show (httpAddRequestHeaders slots a).2 = re from heq, hi]
      rcases httpAddRequestHeaders_cases slots a with ⟨ix, p, ha⟩ | ⟨hs, -⟩
      · rw [httpAddRequestHeaders_adds ha] at hr
        cases hr
      · rw [hs]
    · rintro _ ix p ⟨rfl⟩ he ha h hh
      have hon := ho he ix p ha h hh
      obtain ⟨l, hl⟩ := @exists_getLast?_withKey _ _ _ Header.key _ _ hh
      rw [httpAddRequestHeaders_adds ha]
      simp only [update_self]
      rw [mergeHeader_of_replaces he, withKey_foldl_replace, hl]
      have ht : (withKey Header.key (slots ix).headers h.key).tail = [] := by
        apply eq_nil_of_length_eq_zero
        rw [length_tail]
        omega
      rw [ht]
      rfl
    · rintro _ ix p ⟨rfl⟩ hn ha k hpresent
      rw [httpAddRequestHeaders_adds ha]
      simp only [update_self, hn]
      exact withKey_addIfNew hpresent

theorem headersKept_send_iff (hclean : CleanHeaders slots) {a : SendArgs}
    (hs : httpSendRequest slots a = some (s, reply)) :
    HeadersKept slots (.send a) s ↔ HeadersOrderly slots (.send a) := by
  constructor
  · intro hk input index pa ht hf he hp
    by_contra ha
    rcases httpSendRequest_cases hs with ⟨-, hb⟩ |
      ⟨input', index', request, ht', hf', -, hr, rfl⟩
    · rw [hb input index ht hf] at he
      cases he
    · cases ht.symm.trans ht'
      cases hf.symm.trans hf'
      obtain ⟨hh, hv⟩ := sendRequest_headers hr
      have hz := (hv (by rw [hp]; rfl)).2 ha
      have hsa := hk.failed reply rfl hs hz index
      rw [update_self, hh, hp, getD_some] at hsa
      exact (parseHeaders_spec hp).1 (by simpa using hsa)
  · intro ho
    refine ⟨hclean.send hs, ?_, nofun, nofun⟩
    intro reply' _ hc hfa i
    obtain rfl : reply' = reply := congrArg snd (some.inj (hc.symm.trans hs))
    rcases httpSendRequest_cases hs with ⟨rfl, -⟩ |
      ⟨input, index, request, ht, hf, he, hr, rfl⟩
    · rfl
    · obtain ⟨hh, hv⟩ := sendRequest_headers hr
      by_cases hi : i = index
      · subst hi
        cases hp : parseHeaders input with
        | none => rw [update_self, hh, hp, getD_none, append_nil]
        | some pa =>
          have hu := ho input i pa ht hf he hp
          exact absurd hu ((hv (by rw [hp]; rfl)).1 hfa)
      · rw [update_of_ne hi]

/-- **A call on clean lists does what it has to do exactly if it is orderly.** -/
theorem headersKept_iff (hclean : CleanHeaders slots) {c : InternetCall}
    (hs : slots.step c = some s) : HeadersKept slots c s ↔ HeadersOrderly slots c := by
  have ho : c.onHeaders = false → (HeadersKept slots c s ↔ True) := by
    intro hc
    refine iff_true_intro ⟨hclean.step hs, fun re h => ?_, ?_, ?_⟩
    · rw [hc] at h
      cases h
    · rintro a ix p rfl
      cases hc
    · rintro a ix p rfl
      cases hc
  cases c with
  | openSession a => exact ho rfl
  | connect a => exact ho rfl
  | openRequest a => exact ho rfl
  | addHeaders a =>
    obtain ⟨⟨s', re⟩, ha, rfl⟩ := map_eq_some_iff.1 hs
    obtain rfl := congrArg fst (some.inj ha)
    exact headersKept_addHeaders_iff hclean a
  | send a =>
    obtain ⟨⟨s', re⟩, ha, rfl⟩ := map_eq_some_iff.1 hs
    exact headersKept_send_iff hclean ha
  | closeHandle i => exact ho rfl

end Calls

/-- **In a run from the empty table the header lists are clean, calls that fail leave them
alone, replacing leaves one header of a name and adding what is new leaves what is there,
exactly if no name that is replaced is there twice, and no send fails after its headers have
been accepted.** -/
theorem header_lists_kept (calls : List InternetCall) :
    EachStep InternetSlots.step HeadersKept noSlots calls ↔
      EachStep InternetSlots.step (fun slots c _ => HeadersOrderly slots c) noSlots calls :=
  eachStep_iff (fun _ _ _ (hclean : CleanHeaders _) => headersKept_iff hclean)
    (fun _ _ _ (hclean : CleanHeaders _) _ => hclean.step)
    (show CleanHeaders noSlots from nofun) calls

/-- A send whose transport fails has put its header into the list. -/
theorem not_header_lists_kept : ∃ before after reply,
    runAll InternetSlots.step noSlots openedRequest = some before ∧
    before.call (.send ⟨handleValue 2, guestString "a:b", 3, nullPointer, 0, true,
      .error 12029⟩) = some (after, reply) ∧
    reply.value = 0 ∧ (before 2).headers = [] ∧ (after 2).headers = [⟨text "a", text "b"⟩] := by
  obtain ⟨before, hr, hs⟩ := bind_eq_some_iff.mp
    (show ((runAll InternetSlots.step noSlots openedRequest).bind fun before =>
      (before.call (.send ⟨handleValue 2, guestString "a:b", 3, nullPointer, 0, true,
        .error 12029⟩)).map fun after => (after.2.value, (before 2).headers, (after.1 2).headers)) =
      some (0, [], [⟨text "a", text "b"⟩]) by decide +kernel)
  obtain ⟨⟨after, reply⟩, hc, heq⟩ := map_eq_some_iff.mp hs
  obtain ⟨hv, hb, ha⟩ := by simpa only [Prod.mk.injEq] using heq
  exact ⟨before, after, reply, hr, hc, hv, hb, ha⟩

end TradutorLinux.WinInet
