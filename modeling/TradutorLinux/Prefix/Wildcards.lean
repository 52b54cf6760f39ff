import TradutorLinux.Util.Basics
import TradutorLinux.Util.Globs

/-!
# Wildcards of file names

`win32_wildcard_match` of `kernel32_file_internal.hpp`: a loop that consumes the
name from the left and remembers the last star.  It compares a character of the
pattern with one of the name before it asks whether it is a star.

## Main definitions

* `win32WildcardMatch` — the matcher.
* `WildcardMatches`

## Main results

* `win32WildcardMatch_iff`
-/

namespace TradutorLinux

open List

/-- A character of the pattern and one of the name: the first test of the loop. -/
def wildcardTakes (a c : UInt8) : Bool := a == 0x3F || tolower a == tolower c

def wildcards : Glob UInt8 := ⟨(· == 0x2A), wildcardTakes⟩

/-- The loop over the rest of the pattern and of the name; `star` holds both as they were behind
the last star.  What the star has left is never shorter than what is left, so the loop ends. -/
def wildcardLoop (pattern name : ByteString) (star : Option (ByteString × ByteString))
    (hstar : ∀ s ∈ star, name.length ≤ s.2.length) : Bool :=
  match name, hstar with
  | [], _ => pattern.all (· == 0x2A)
  | c :: rest, hstar =>
    if pattern.head?.any (wildcardTakes · c) then
      wildcardLoop pattern.tail rest star fun s hs => (Nat.le_succ _).trans (hstar s hs)
    else if pattern.head? = some 0x2A then
      wildcardLoop pattern.tail (c :: rest) (some (pattern.tail, c :: rest)) (by simp)
    else
      match star, hstar with
      | some (behind, left), _ => wildcardLoop behind left.tail (some (behind, left.tail)) fun s hs => by
        cases hs; exact le_refl _
      | none, _ => false
termination_by (if star.isNone then 1 else 0, star.elim 0 fun s => s.2.length, pattern.length)
decreasing_by
  · have hpattern : pattern ≠ [] := by
      rintro rfl
      simp_all
    have hless := length_pos_iff.mpr hpattern
    refine Prod.Lex.right _ (Prod.Lex.right _ ?_)
    simp
    omega
  · have hless : pattern.tail.length < pattern.length := by
      cases pattern <;> simp_all
    cases star with
    | none => exact Prod.Lex.left _ _ (by simp)
    | some s =>
      refine Prod.Lex.right _ ?_
      have hle := hstar s rfl
      rcases Nat.lt_or_eq_of_le hle with hlt | heq
      · exact Prod.Lex.left _ _ hlt
      · simp only [Option.elim_some, heq]
        exact Prod.Lex.right _ hless
  · refine Prod.Lex.right _ (Prod.Lex.left _ _ ?_)
    rename_i hle
    have hle := hle _ rfl
    simp at hle ⊢
    omega

/-- The pattern without the special case of DOS. -/
def wildcardPattern (pattern : ByteString) : ByteString :=
  if pattern = text "*.*" then text "*" else pattern

/-- `win32_wildcard_match`. -/
def win32WildcardMatch (pattern name : ByteString) : Bool :=
  wildcardLoop (wildcardPattern pattern) name none (by simp)

/-! ### What the loop finds -/

variable {pattern pa name : ByteString} {star : Option (ByteString × ByteString)}

/-- The characters between the last star and the rest have taken one character each. -/
def TookBehind (pattern name : ByteString) (s : ByteString × ByteString) : Prop :=
  ∃ seg u, s.1 = seg ++ pattern ∧ s.2 = u ++ name ∧
    List.Forall₂ (fun a c => wildcards.takes a c = true) seg u

theorem TookBehind.better {s : ByteString × ByteString} (h : TookBehind pa name s) {k : ℕ}
    (hk : wildcards.Eager s.1 (s.2.tail.drop k)) : ∃ j, wildcards.Eager pa (name.drop j) := by
  obtain ⟨se, u, hp, hn, ht⟩ := h
  rw [hp, hn, ← drop_one, drop_drop] at hk
  exact Glob.eager_behind ht hk

theorem TookBehind.refl : TookBehind pa name (pa, name) := ⟨[], [], rfl, rfl, .nil⟩

theorem eager_nil_iff : wildcards.Eager pa [] ↔ pa.all (· == 0x2A) := by
  induction pa with
  | nil => simp [Glob.Eager]
  | cons a pa ih =>
    rw [Glob.Eager, ih, all_cons, Bool.and_eq_true]
    rfl

theorem not_eager {c : UInt8} {r : ByteString}
    (ht : ¬pa.head?.any (wildcardTakes · c)) (hh : ¬pa.head? = some 0x2A) :
    ¬wildcards.Eager pa (c :: r) := by
  cases pa with
  | nil => exact cons_ne_nil c r
  | cons a p =>
    have hc : ¬wildcards.takes a c := by
      show ¬wildcardTakes a c
      simpa using ht
    rw [Glob.Eager, if_neg hc]
    intro h
    exact hh (congrArg some (beq_iff_eq.1 h.1))

theorem wildcardLoop_iff (hst : ∀ s ∈ star, name.length ≤ s.2.length)
    (hb : ∀ s ∈ star, TookBehind pa name s) :
    wildcardLoop pa name star hst ↔ wildcards.Eager pa name ∨
      ∃ s ∈ star, ∃ k, wildcards.Eager s.1 (s.2.tail.drop k) := by
  fun_induction wildcardLoop pa name star hst with
  | case1 pa star hst =>
    rw [← eager_nil_iff]
    refine ⟨.inl, fun h => h.elim id ?_⟩
    rintro ⟨s, hs, k, hk⟩
    obtain ⟨j, hj⟩ := (hb s hs).better hk
    simpa using hj
  | case2 pa star c r _ ha _ ih =>
    obtain ⟨a, p, rfl⟩ := exists_cons_of_ne_nil (l := pa) (by rintro rfl; simp at ha)
    have hc : wildcards.takes a c := by
      show wildcardTakes a c
      simpa using ha
    rw [ih, Glob.Eager, if_pos hc]
    · rfl
    · intro s hs
      obtain ⟨se, u, hp, hn, ht⟩ := hb s hs
      exact ⟨se ++ [a], u ++ [c], by simpa using hp, by simpa using hn,
        rel_append ht (.cons hc .nil)⟩
  | case3 pa star c r _ ha hh _ ih =>
    obtain ⟨p, rfl⟩ := head?_eq_some_iff.1 hh
    have hc : ¬wildcards.takes 0x2A c := by
      show ¬wildcardTakes 0x2A c
      simpa using ha
    rw [ih (by rintro s hs; cases hs; exact .refl), Glob.Eager, if_neg hc]
    constructor
    · rintro (h | ⟨s, hs, k, hk⟩)
      · exact .inl ⟨rfl, 0, h⟩
      · cases hs
        exact .inl ⟨rfl, k + 1, hk⟩
    · -- what an older star could do, this one can do
      have hl : (∃ k, wildcards.Eager p ((c :: r).drop k)) → wildcards.Eager p (c :: r) ∨
          ∃ s ∈ some (p, c :: r), ∃ k, wildcards.Eager s.1 (s.2.tail.drop k) := by
        rintro ⟨k, hk⟩
        cases k with
        | zero => exact .inl hk
        | succ k => exact .inr ⟨_, rfl, k, hk⟩
      rintro (⟨-, h⟩ | ⟨s, hs, k, hk⟩)
      · exact hl h
      · obtain ⟨j, hj⟩ := (hb s hs).better hk
        obtain ⟨i, hi⟩ := Glob.eager_star hj
        rw [drop_drop] at hi
        exact hl ⟨_, hi⟩
  | case4 pa c r ha hh b le _ _ _ ih =>
    rw [ih (by rintro s hs; cases hs; exact .refl), or_iff_right (not_eager ha hh)]
    constructor
    · rintro (h | ⟨s, hs, k, hk⟩)
      · exact ⟨_, rfl, 0, h⟩
      · cases hs
        exact ⟨_, rfl, k + 1, by rwa [← drop_tail]⟩
    · rintro ⟨s, hs, k, hk⟩
      cases hs
      cases k with
      | zero => exact .inl hk
      | succ k => exact .inr ⟨_, rfl, k, by rwa [drop_tail]⟩
  | case5 pa c r ha hh => simpa using not_eager ha hh

/-- **The matcher finds the matches in which a star that meets a star takes no more.** -/
theorem win32WildcardMatch_eq_true : win32WildcardMatch pa name ↔
    wildcards.Eager (wildcardPattern pa) name := by
  rw [win32WildcardMatch, wildcardLoop_iff _ (by simp)]
  simp

/-! ### The meaning of a pattern -/

/-- `*` is any run of characters and `?` any character; another character is itself up to the case
of ASCII, and `*.*` means `*`. -/
def WildcardMatches (pattern name : ByteString) : Prop :=
  wildcards.Matches (wildcardPattern pattern) name

/-- The same with the stars of the name taken first: a `*` of the pattern that meets one takes it
and nothing else. -/
def StarsMeet (pattern name : ByteString) : Prop := wildcards.Eager (wildcardPattern pattern) name

theorem wildcardTakes_star {c : UInt8} (hc : c ≠ 0x2A) : wildcardTakes 0x2A c = false := by
  have hl : tolower c ≠ 0x2A := by
    rw [tolower]
    split <;> grind
  simp only [wildcardTakes, Bool.or_eq_false_iff, beq_eq_false_iff_ne]
  exact ⟨by decide, hl.symm⟩

/-! ### The names it misses -/

/-- One `?` for each character before a star and after it: the star has to take nothing. -/
def missing (before after : ByteString) : ByteString :=
  before.map (fun _ => 0x3F) ++ 0x2A :: 0x3F :: after.map (fun _ => 0x3F)

theorem any_matches (n : ByteString) : wildcards.Matches (n.map fun _ => 0x3F) n := by
  induction n with
  | nil => rfl
  | cons c n ih => exact ⟨c, n, rfl, rfl, ih⟩

theorem missing_matches (b a : ByteString) : wildcards.Matches (missing b a) (b ++ 0x2A :: a) := by
  induction b with
  | nil => exact ⟨0, any_matches (0x2A :: a)⟩
  | cons c b ih => exact ⟨c, _, rfl, rfl, ih⟩

theorem not_eager_any (n : ByteString) : ¬wildcards.Eager (0x3F :: n.map fun _ => 0x3F) n := by
  induction n with
  | nil => exact fun h => Bool.false_ne_true h.1
  | cons c n ih => exact ih

theorem not_eager_missing (b a : ByteString) : ¬wildcards.Eager (missing b a) (b ++ 0x2A :: a) := by
  induction b with
  | nil => exact not_eager_any a
  | cons c b ih => exact ih

theorem wildcardPattern_missing (b after : ByteString) :
    wildcardPattern (missing b after) = missing b after := by
  refine if_neg fun h => ?_
  have hd : (0x2E : UInt8) ∈ missing b after := h ▸ by decide
  simp [missing] at hd

/-- **The matcher follows the meaning of the pattern exactly if a name that matches also does so
with its stars taken first**; the names it reads right with every pattern are those that have no
star. -/
theorem win32WildcardMatch_iff (pattern name : ByteString) :
    ((win32WildcardMatch pattern name = true ↔ WildcardMatches pattern name) ↔
      (WildcardMatches pattern name → StarsMeet pattern name)) ∧
    ((∀ p, win32WildcardMatch p name = true ↔ WildcardMatches p name) ↔ 0x2A ∉ name) := by
  simp only [win32WildcardMatch_eq_true]
  refine ⟨⟨Iff.mpr, fun h => ⟨Glob.matches_of_eager, h⟩⟩, fun h hm => ?_, fun hn p =>
    Glob.eager_iff fun a _ ha c hc => ?_⟩
  · obtain ⟨before, af, rfl⟩ := append_of_mem hm
    have hl := (h (missing before af)).mpr
    rw [WildcardMatches, wildcardPattern_missing] at hl
    exact not_eager_missing before af (hl (missing_matches before af))
  · have he : c ≠ 0x2A := by
      rintro rfl
      exact hn hc
    rw [show a = 0x2A from beq_iff_eq.mp ha]
    exact wildcardTakes_star he

/-- The pattern `*` does not find the name `*a`. -/
theorem not_wildcardMatches : ¬(win32WildcardMatch (text "*") (text "*a") = true ↔
      WildcardMatches (text "*") (text "*a")) := by
  rw [win32WildcardMatch_eq_true]
  intro h
  have he : [(0x61 : UInt8)] = [] := h.mpr ⟨2, rfl⟩
  exact cons_ne_nil _ _ he

end TradutorLinux
