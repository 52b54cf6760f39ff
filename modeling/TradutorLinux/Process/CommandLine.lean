import Mathlib.Data.List.Count
import Mathlib.Data.List.Induction
import TradutorLinux.Util.Bytes

/-!
# Command lines

The runtime writes the arguments of a program into one line, and reads the line
of a child back into arguments.  The writer puts quotes around an argument with a
space, a tab or a quote, and nothing else; the reader takes every quote for the
beginning or the end of a quoted part.  The documented rules read backslashes
before a quote as well, and so the two agree on the lines that have none of these.

## Main definitions

* `parseCommandLineArguments`, `setGuestCommandLine` — the reader and the writer.
* `documented` — the documented rules, with or without the one for a pair of quotes.
* `tokens` — what the two have in common: a quote opens or closes.
* `Ordinary` — what the line of a child must not have.

## Main results

* `documented_eq_tokens`, `parseLoop_tokens` — both readers on ordinary lines.
* `commandLine_roundTrip`
-/

namespace TradutorLinux.Process

open List Option

/-- A double quotation mark. -/
def quote : UInt8 := 0x22

def backslash : UInt8 := 0x5C

/-- A space or a tab. -/
def isBlank (c : UInt8) : Bool := c = 0x20 || c = 0x09

def isLineEnd (c : UInt8) : Bool := c = 0x0D || c = 0x0A

/-! ### Reading and writing -/

/-- The loop of `parse_command_line_arguments`. -/
def parseLoop (current : ByteString) (inQuotes : Bool) : ByteString → List ByteString
  | [] => if current ≠ [] ∨ inQuotes = true then [current] else []
  | c :: rest =>
    if c = quote then parseLoop current (!inQuotes) rest
    else if (isBlank c || isLineEnd c) && !inQuotes then
      if current ≠ [] then current :: parseLoop [] inQuotes rest
      else parseLoop current inQuotes rest
    else parseLoop (current ++ [c]) inQuotes rest

/-- `parse_command_line_arguments`. -/
def parseCommandLineArguments (commandLine : ByteString) : List ByteString :=
  parseLoop [] false commandLine

def needsQuotes (argument : ByteString) : Bool := argument.any fun c => isBlank c || c == quote

def written (argument : ByteString) : ByteString :=
  if needsQuotes argument then [quote] ++ argument ++ [quote] else argument

/-- The command line that `msvcrt_set_guest_command_line` builds. -/
def setGuestCommandLine (arguments : List ByteString) : ByteString :=
  arguments.foldl (fun line argument =>
    (if line ≠ [] then line ++ [0x20] else line) ++ written argument) []

/-! ### The documented rules -/

/-- Blanks outside quotes separate arguments.  Before a quote every two backslashes are one; with a
backslash left over the quote is part of the argument,
and else it begins or ends a quoted part.  With
`pairs` two quotes in a quoted part are one that is part of the argument.  `count` is how many
backslashes have just been read. -/
def documented (pairs : Bool) (current : Option ByteString) (inQuotes : Bool) (count : ℕ) :
    ByteString → List ByteString
  | [] => (current.map (· ++ replicate count backslash)).toList
  | c :: rest =>
    if c = backslash then documented pairs (some (current.getD [])) inQuotes (count + 1) rest
    else if c = quote then
      let held := current.getD [] ++ replicate (count / 2) backslash
      if count % 2 = 1 then documented pairs (some (held ++ [quote])) inQuotes 0 rest
      else
        match rest with
        | [] => documented pairs (some held) (!inQuotes) 0 []
        | d :: rest' =>
          if pairs && inQuotes && d == quote then
            documented pairs (some (held ++ [quote])) inQuotes 0 rest'
          else documented pairs (some held) (!inQuotes) 0 (d :: rest')
    else if isBlank c && !inQuotes then
      (current.map (· ++ replicate count backslash)).toList ++
        documented pairs none inQuotes 0 rest
    else
      documented pairs (some (current.getD [] ++ replicate count backslash ++ [c])) inQuotes 0
        rest

def documentedArguments (pairs : Bool) (commandLine : ByteString) : List ByteString :=
  documented pairs none false 0 commandLine

/-- Every quote begins or ends a quoted part, and `separates` outside these ends an argument. -/
def tokens (separates : UInt8 → Bool) (current : Option ByteString) (inQuotes : Bool) :
    ByteString → List ByteString
  | [] => current.toList
  | c :: rest =>
    if c = quote then tokens separates (some (current.getD [])) (!inQuotes) rest
    else if separates c && !inQuotes then
      current.toList ++ tokens separates none inQuotes rest
    else tokens separates (some (current.getD [] ++ [c])) inQuotes rest

/-- The path of a program; `to_windows_path` begins it with one of two drives. -/
abbrev ProgramPath := {path : ByteString // text "C:" <+: path ∨ text "Z:" <+: path}

def withProgram (program : ProgramPath) (arguments : List ByteString) : List ByteString :=
  if arguments = [] then [program.val] else arguments

/-- The arguments that `tl_CreateProcessA` gives to a child. -/
def childArguments (program : ProgramPath) (commandLine : ByteString) : List ByteString :=
  withProgram program (parseCommandLineArguments commandLine)

/-! ### Ordinary lines -/

/-- A quote comes right behind a backslash. -/
def escapes (afterBackslash : Bool) : ByteString → Bool
  | [] => false
  | c :: rest => (afterBackslash && c == quote) || escapes (c == backslash) rest

def lineEndsQuoted (inQuotes : Bool) : ByteString → Bool
  | [] => true
  | c :: rest =>
    if c = quote then lineEndsQuoted (!inQuotes) rest
    else (inQuotes || !isLineEnd c) && lineEndsQuoted inQuotes rest

/-- No quote that ends a quoted part has another one right behind it. -/
def pairsFree (inQuotes : Bool) : ByteString → Bool
  | [] => true
  | c :: rest =>
    if c = quote then !(inQuotes && rest.head? == some quote) && pairsFree (!inQuotes) rest
    else pairsFree inQuotes rest

/-- No argument is made of quotes that are closed; `begun` is whether one has begun, and whether
it has more than quotes. -/
def emptyFree (begun : Option Bool) (inQuotes : Bool) : ByteString → Bool
  | [] => inQuotes || begun != some false
  | c :: rest =>
    if c = quote then emptyFree (some (begun.getD false)) (!inQuotes) rest
    else if (isBlank c || isLineEnd c) && !inQuotes then
      begun != some false && emptyFree none inQuotes rest
    else emptyFree (some true) inQuotes rest

/-- A line without a backslash before a quote, an unquoted line end, an argument that is a pair of
quotes, and, where pairs of quotes are read as one, such a pair in a quoted part. -/
structure Ordinary (pairs : Bool) (line : ByteString) : Prop where
  escapes : escapes false line = false
  lineEnds : lineEndsQuoted false line = true
  pairs : pairs = true → pairsFree false line = true
  empty : emptyFree none false line = true

/-! ### Backslashes -/

/-- How often a byte is in some arguments. -/
def occurrences (c : UInt8) (arguments : List ByteString) : ℕ := arguments.flatten.count c

theorem occurrences_append (c : UInt8) (l right : List ByteString) :
    occurrences c (l ++ right) = occurrences c l + occurrences c right := by
  rw [occurrences, flatten_append, count_append]
  rfl

attribute [local simp] occurrences

theorem occurrences_toList (c : UInt8) (cu : Option ByteString) :
    occurrences c cu.toList = (cu.getD []).count c := by
  cases cu <;> simp

section Documented

variable {pairs pa ps : Bool} {curr cr cu : Option ByteString} {inQuotes i iq : Bool} {cnt : ℕ}

variable {rest re r : ByteString}

theorem documented_backslash : documented pairs curr inQuotes cnt (backslash :: rest) =
      documented pairs (some (curr.getD [])) inQuotes (cnt + 1) rest := by
  rw [documented, if_pos rfl]

theorem documented_quote (hp : (pairs && inQuotes && rest.head? == some quote) = false) :
    documented pairs curr inQuotes 0 (quote :: rest) =
      documented pairs (some (curr.getD [])) (!inQuotes) 0 rest := by
  rw [documented.eq_def]
  simp only [show quote ≠ backslash by decide, if_false, if_true, Nat.zero_div, Nat.zero_mod,
    replicate_zero, append_nil, Nat.zero_ne_one]
  cases rest with
  | nil => rfl
  | cons d rest =>
    rw [head?_cons, some_beq_some] at hp
    simp [hp, Bool.false_eq_true]

theorem documented_other {c : UInt8} (hb : c ≠ backslash) (hq : c ≠ quote) :
    documented pairs curr inQuotes cnt (c :: rest) = if isBlank c && !inQuotes then
        (curr.map (· ++ replicate cnt backslash)).toList ++
          documented pairs none inQuotes 0 rest else
        documented pairs (some (curr.getD [] ++ replicate cnt backslash ++ [c]))
          inQuotes 0 rest := by
  rw [documented.eq_def]
  simp [hb, hq]

attribute [local simp] pairsFree

/-- Without a backslash before a quote, and without a pair of quotes that is read as one, a quote
begins or ends a quoted part. -/
theorem documented_eq_tokens (line : ByteString) (hu : curr = none → cnt = 0)
    (he : escapes (decide (0 < cnt)) line = false) (hpa : pairs → pairsFree inQuotes line) :
    documented pairs curr inQuotes cnt line =
      tokens isBlank (curr.map (· ++ replicate cnt backslash)) inQuotes line := by
  induction line generalizing curr inQuotes cnt with
  | nil => rfl
  | cons c rest ih =>
    rw [escapes, Bool.or_eq_false_iff] at he
    obtain ⟨ho, he⟩ := he
    by_cases ha : c = backslash
    · subst ha
      have hr := @ih (some (curr.getD [])) inQuotes (cnt + 1) (by simp) (by simpa using he)
        (fun h => by simpa [show backslash ≠ quote by decide] using hpa h)
      rw [documented_backslash, hr, tokens, if_neg (by decide),
        if_neg (by simp [show isBlank backslash = false by decide])]
      cases curr with
      | none => simp [hu rfl]
      | some held => simp [replicate_succ']
    rw [show (c == backslash) = false by simpa using ha] at he
    by_cases hq : c = quote
    · subst hq
      -- the quote is not behind a backslash, so that no backslashes are pending
      have hc : cnt = 0 := by simpa using ho
      subst hc
      have hpr : (pairs && inQuotes && rest.head? == some quote) = false := by
        cases hp : pairs with
        | false => simp
        | true =>
          have hf := hpa hp
          rw [pairsFree, if_pos rfl, Bool.and_eq_true, Bool.not_eq_true'] at hf
          simpa using hf.1
      have hr := @ih (some (curr.getD [])) (!inQuotes) 0 (by simp) (by simpa using he)
        (fun h => by
          have hf := hpa h
          rw [pairsFree, if_pos rfl, Bool.and_eq_true] at hf
          exact hf.2)
      rw [documented_quote hpr, hr, tokens, if_pos rfl]
      cases curr <;> simp
    · have hf : pairs → pairsFree inQuotes rest := fun h => by
        have hf := hpa h
        rwa [pairsFree, if_neg hq] at hf
      rw [documented_other ha hq, tokens, if_neg hq]
      by_cases hb : (isBlank c && !inQuotes)
      · rw [if_pos hb, if_pos hb, @ih none inQuotes 0 (by simp) (by simpa using he) hf]
        rfl
      · rw [if_neg hb, if_neg hb, ih (by simp) (by simpa using he) hf]
        cases curr with
        | none => simp [hu rfl]
        | some held => simp

attribute [local simp] count_append

theorem occurrences_held (c : UInt8) (hc : cu = none → cnt = 0) :
    occurrences c (cu.map (· ++ replicate cnt backslash)).toList =
      (cu.getD []).count c + (replicate cnt backslash).count c := by
  rw [occurrences_toList]
  cases cu with
  | none => simp [hc rfl]
  | some held => simp

theorem escapes_quote :
    escapes (decide (0 < cnt)) (quote :: r) = (decide (0 < cnt) || escapes false r) := by
  rw [escapes, show (quote == backslash) = false by decide, beq_self_eq_true, Bool.and_true]

theorem escapes_other {a : Bool} {c : UInt8} (hb : c ≠ backslash)
    (hq : c ≠ quote) : escapes a (c :: rest) = escapes false rest := by
  rw [escapes, show (c == backslash) = false by simpa using hb,
    show (c == quote) = false by simpa using hq, Bool.and_false, Bool.false_or]

attribute [local simp] escapes

/-- **A backslash before a quote is lost.** -/
theorem documented_count_le (line : ByteString) (hu : curr = none → cnt = 0) :
    occurrences backslash (documented pairs curr inQuotes cnt line) +
        (if escapes (decide (0 < cnt)) line then 1 else 0) ≤
      (curr.getD []).count backslash + cnt + line.count backslash := by
  fun_induction documented pairs curr inQuotes cnt line with
  | case1 curr inQuotes cnt =>
    rw [occurrences_held _ hu]
    simp
  | case2 curr inQuotes cnt rest ih =>
    have hr := ih (by simp)
    have hs : escapes (decide (0 < cnt)) (backslash :: rest) =
        escapes (decide (0 < cnt + 1)) rest := by
      simp [show (backslash == quote) = false by decide]
    rw [hs, count_cons_self]
    simp only [getD_some] at hr
    omega
  | case3 curr inQuotes cnt rest held hod _ ih =>
    have hr := ih (by simp)
    have hh : held.count backslash = (curr.getD []).count backslash + cnt / 2 := by simp [held]
    clear_value held
    rw [getD_some, count_append, hh,
      show List.count backslash [quote] = 0 by decide] at hr
    rw [count_cons_of_ne (by decide)]
    split at hr <;> split <;> omega
  | case4 curr inQuotes cnt held he _ ih =>
    have hr := ih (by simp)
    have hh : held.count backslash = (curr.getD []).count backslash + cnt / 2 := by simp [held]
    clear_value held
    rw [getD_some, hh] at hr
    rw [escapes_quote, count_cons_of_ne (by decide)]
    simp only [escapes, Bool.or_false, decide_eq_true_eq] at hr ⊢
    split <;> omega
  | case5 curr inQuotes cnt held he d rest hp _ ih =>
    have hd : d = quote := by simpa using (Bool.and_eq_true_iff.1 hp).2
    subst hd
    have hr := ih (by simp)
    have hh : held.count backslash = (curr.getD []).count backslash + cnt / 2 := by simp [held]
    clear_value held
    rw [getD_some, count_append, hh,
      show List.count backslash [quote] = 0 by decide,
        show decide (0 < 0) = false from rfl] at hr
    rw [escapes_quote, count_cons_of_ne (by decide), count_cons_of_ne (by decide),
      show escapes false (quote :: rest) = escapes false rest by
        simp [show (quote == backslash) = false by decide]]
    rcases Nat.eq_zero_or_pos cnt with ho | ho
    · simp only [ho, lt_irrefl, decide_false, Bool.false_or]
      omega
    · simp only [ho, decide_true, Bool.true_or, if_true]
      omega
  | case6 curr inQuotes cnt held he d rest hp _ ih =>
    have hr := ih (by simp)
    have hh : held.count backslash = (curr.getD []).count backslash + cnt / 2 := by simp [held]
    clear_value held
    rw [getD_some, hh, show decide (0 < 0) = false from rfl] at hr
    rw [escapes_quote, show List.count backslash (quote :: d :: rest) =
      List.count backslash (d :: rest) from count_cons_of_ne (by decide)]
    rcases Nat.eq_zero_or_pos cnt with ho | ho
    · simp only [ho, lt_irrefl, decide_false, Bool.false_or]
      omega
    · simp only [ho, decide_true, Bool.true_or, if_true]
      omega
  | case7 curr inQuotes cnt c rest hbackslash hq _ ih =>
    have hr := ih (by simp)
    rw [occurrences_append, occurrences_held _ hu, escapes_other hbackslash hq,
      count_cons_of_ne hbackslash]
    simp only [count_replicate_self, getD_none, count_nil, lt_irrefl, decide_false] at hr ⊢
    omega
  | case8 curr inQuotes cnt c rest hbackslash hq _ ih =>
    have hr := ih (by simp)
    have hc : List.count backslash [c] = 0 := count_eq_zero.2 (by simpa using Ne.symm hbackslash)
    rw [escapes_other hbackslash hq, count_cons_of_ne hbackslash]
    simp only [getD_some, count_append, count_replicate_self, hc, lt_irrefl, decide_false] at hr
    omega

/-- What an argument has when its end is still to be read, it keeps. -/
theorem count_le_occurrences (c : UInt8) (li : ByteString) :
    (cu.getD []).count c ≤ occurrences c (documented ps cu iq cnt li) := by
  fun_induction documented ps cu iq cnt li with
  | case1 cu iq cnt =>
    rw [occurrences_toList]
    cases cu <;> simp
  | case2 cu iq cnt r ih => exact ih
  | case3 cu iq cnt r held ho _ ih =>
    refine le_trans ?_ ih
    simp only [getD_some, held, count_append]
    omega
  | case4 cu iq cnt held he _ ih =>
    refine le_trans ?_ ih
    simp only [getD_some, held, count_append]
    omega
  | case5 cu iq cnt held he d r hp _ ih =>
    refine le_trans ?_ ih
    simp only [getD_some, held, count_append]
    omega
  | case6 cu iq cnt held he d r hp _ ih =>
    refine le_trans ?_ ih
    simp only [getD_some, held, count_append]
    omega
  | case7 cu iq cnt d r _ _ _ ih =>
    rw [occurrences_append, occurrences_toList]
    cases cu with
    | none => exact Nat.zero_le _
    | some held =>
      simp only [getD_some, map_some, count_append]
      omega
  | case8 cu iq cnt d r _ _ _ ih =>
    refine le_trans ?_ ih
    simp only [getD_some, count_append]
    omega

attribute [local simp] getD_some

theorem documented_count {c : UInt8} (hq : c ≠ quote) (ha : c ≠ backslash)
    (hb : isBlank c = false) (li : ByteString) :
    occurrences c (documented ps cu iq cnt li) = (cu.getD []).count c + li.count c := by
  have hn : ∀ n, List.count c (replicate n backslash) = 0 := fun n =>
    count_eq_zero.2 fun hm => ha (eq_of_mem_replicate hm)
  have hi : List.count c [quote] = 0 := count_eq_zero.2 (by simpa using hq)
  fun_induction documented ps cu iq cnt li with
  | case1 cu iq cnt =>
    rw [occurrences_toList]
    cases cu <;> simp [hn]
  | case2 cu iq cnt r ih => rw [ih, getD_some, count_cons_of_ne (Ne.symm ha)]
  | case3 cu iq cnt r held ho _ ih =>
    rw [ih, count_cons_of_ne (Ne.symm hq)]
    simp [held, hn, hi]
  | case4 cu iq cnt held he _ ih =>
    rw [ih, count_cons_of_ne (Ne.symm hq)]
    simp [held, hn]
  | case5 cu iq cnt held he d r hp _ ih =>
    have hd : d = quote := by simpa using (Bool.and_eq_true_iff.1 hp).2
    rw [ih, hd, count_cons_of_ne (Ne.symm hq), count_cons_of_ne (Ne.symm hq)]
    simp [held, hn, hi]
  | case6 cu iq cnt held he d r hp _ ih =>
    rw [ih, show List.count c (quote :: d :: r) = List.count c (d :: r) from
      count_cons_of_ne (Ne.symm hq)]
    simp [held, hn]
  | case7 cu iq cnt d r _ _ hs ih =>
    have hc : d ≠ c := by
      rintro rfl
      rw [hb] at hs
      cases hs
    rw [occurrences_append, occurrences_toList, ih, count_cons_of_ne hc]
    cases cu <;> simp [hn]
  | case8 cu iq cnt d r _ _ _ ih =>
    rw [ih, count_cons, getD_some, count_append, count_append, hn, count_singleton]
    omega

/-- **Two quotes that are read as one** are in an argument. -/
theorem quote_mem_documented (li : ByteString) (hp : ps)
    (hs : escapes (decide (0 < cnt)) li = false) (hf : pairsFree iq li = false) :
    0 < occurrences quote (documented ps cu iq cnt li) := by
  fun_induction documented ps cu iq cnt li with
  | case1 => cases hf
  | case2 cu iq cnt r ih =>
    refine ih ?_ ?_
    · simpa [show (backslash == quote) = false by decide] using hs
    · simpa [show backslash ≠ quote by decide] using hf
  | case3 cu iq cnt r held ho _ ih =>
    rw [escapes_quote, Bool.or_eq_false_iff, decide_eq_false_iff_not] at hs
    omega
  | case4 cu iq cnt held he _ ih => simp at hf
  | case5 cu iq cnt held he d r ha _ ih =>
    refine lt_of_lt_of_le ?_ (count_le_occurrences quote r)
    rw [getD_some, count_append, count_singleton_self]
    exact Nat.succ_pos _
  | case6 cu iq cnt held he d r ha _ ih =>
    rw [escapes_quote, Bool.or_eq_false_iff] at hs
    refine ih hs.2 ?_
    have hnot : (iq && (d :: r).head? == some quote) = false := by simpa [hp] using ha
    rwa [pairsFree, if_pos rfl, hnot, Bool.not_false, Bool.true_and] at hf
  | case7 cu iq cnt c r hb hq _ ih =>
    rw [pairsFree, if_neg hq] at hf
    rw [escapes_other hb hq] at hs
    rw [occurrences_append]
    exact Nat.lt_of_lt_of_le (ih hs hf) (Nat.le_add_left _ _)
  | case8 cu iq cnt c r hb hq _ ih =>
    rw [pairsFree, if_neg hq] at hf
    rw [escapes_other hb hq] at hs
    exact ih hs hf

end Documented

/-! ### The reader of the runtime -/

variable {line lin li : ByteString}

section Reader

variable {curr cr cu : ByteString} {inQuotes i iq : Bool}

def outside (c : UInt8) (inQuotes : Bool) : ByteString → ℕ
  | [] => 0
  | d :: rest =>
    if d = quote then outside c (!inQuotes) rest
    else (if d = c ∧ inQuotes = false then 1 else 0) + outside c inQuotes rest

/-- **The reader keeps every byte** but the quotes and what separates arguments. -/
theorem parseLoop_count {c : UInt8} (hu : c ≠ quote) (li : ByteString) :
    occurrences c (parseLoop cu iq li) + (if isBlank c || isLineEnd c then outside c iq li else 0) =
      cu.count c + li.count c := by
  fun_induction parseLoop cu iq li with
  | case1 cu iq h => simp [outside]
  | case2 cu iq h =>
    have he : cu = [] := by
      by_contra hn
      exact h (.inl hn)
    simp [outside, he]
  | case3 cu iq r ih =>
    rw [outside, if_pos rfl, count_cons_of_ne (Ne.symm hu)]
    exact ih
  | case4 cu iq d r hd hp hn ih =>
    obtain ⟨hp, hq⟩ := Bool.and_eq_true_iff.1 hp
    rw [Bool.not_eq_true'] at hq
    rw [show cu :: parseLoop [] iq r = [cu] ++ parseLoop [] iq r from
      rfl, occurrences_append, outside, if_neg hd, count_cons]
    simp only [occurrences, flatten_singleton, count_nil] at ih ⊢
    by_cases hc : d = c
    · subst hc
      simp only [hp, if_true, hq, and_self, BEq.rfl] at ih ⊢
      omega
    · simp only [hc, false_and, if_false, zero_add, beq_iff_eq, add_zero]
      omega
  | case5 cu iq d r hd hp hn ih =>
    obtain ⟨hp, hq⟩ := Bool.and_eq_true_iff.1 hp
    rw [Bool.not_eq_true'] at hq
    rw [outside, if_neg hd, count_cons]
    by_cases hc : d = c
    · subst hc
      simp only [hp, if_true, hq, and_self, BEq.rfl] at ih ⊢
      omega
    · simp only [hc, false_and, if_false, zero_add, beq_iff_eq, add_zero]
      exact ih
  | case6 cu iq d r hd hp ih =>
    rw [count_append] at ih
    rw [outside, if_neg hd, count_cons]
    by_cases hc : d = c
    · subst hc
      rw [count_singleton_self] at ih
      simp only [BEq.rfl, if_true]
      by_cases hs : (isBlank d || isLineEnd d)
      · have hq : iq := by simpa [hs] using hp
        simp only [hs, if_true, hq, Bool.true_eq_false, and_false, if_false] at ih ⊢
        omega
      · simp only [hs, Bool.false_eq_true, if_false] at ih ⊢
        omega
    · rw [show List.count c [d] = 0 from count_eq_zero.2 (by simpa using Ne.symm hc)] at ih
      simp only [hc, false_and, if_false, zero_add, beq_iff_eq, add_zero]
      exact ih

theorem parseLoop_quote (li : ByteString) :
    occurrences quote (parseLoop cu iq li) = cu.count quote := by
  fun_induction parseLoop cu iq li with
  | case1 cu iq h => simp
  | case2 cu iq h =>
    have he : cu = [] := by
      by_contra hne
      exact h (.inl hne)
    simp [he]
  | case3 cu iq r ih => exact ih
  | case4 cu iq d r hd hs hne ih =>
    rw [show cu :: parseLoop [] iq r = [cu] ++ parseLoop [] iq r from
      rfl, occurrences_append, ih]
    simp
  | case5 cu iq d r hd hs hne ih => exact ih
  | case6 cu iq d r hd hs ih =>
    have hn : List.count quote [d] = 0 := count_eq_zero.2 (by simpa using Ne.symm hd)
    rw [ih, count_append, hn, add_zero]

theorem tokens_count {c : UInt8} (hq : c ≠ quote) (hb : isBlank c = false)
    (cu : Option ByteString) (iq : Bool) (li : ByteString) :
    occurrences c (tokens isBlank cu iq li) = (cu.getD []).count c + li.count c := by
  fun_induction tokens isBlank cu iq li with
  | case1 cu iq => rw [occurrences_toList, count_nil, add_zero]
  | case2 cu iq r ih => rw [ih, getD_some, count_cons_of_ne (Ne.symm hq)]
  | case3 cu iq d r hd hs ih =>
    have hc : d ≠ c := by
      rintro rfl
      rw [hb] at hs
      cases hs
    rw [occurrences_append, occurrences_toList, ih, count_cons_of_ne hc, getD_none,
      count_nil, zero_add]
  | case4 cu iq d r hd hs ih =>
    rw [ih, getD_some, count_append, add_assoc, ← count_append, singleton_append]

theorem outside_of_lineEnds (h : lineEndsQuoted inQuotes line = false) :
    ∃ c, isLineEnd c ∧ 0 < outside c inQuotes line := by
  fun_induction lineEndsQuoted inQuotes line with
  | case1 => cases h
  | case2 inQuotes rest ih =>
    obtain ⟨c, hc, hp⟩ := ih h
    exact ⟨c, hc, by rwa [outside, if_pos rfl]⟩
  | case3 inQuotes d rest hd ih =>
    rw [Bool.and_eq_false_iff, Bool.or_eq_false_iff, Bool.not_eq_false'] at h
    rcases h with ⟨hq, he⟩ | h
    · refine ⟨d, he, ?_⟩
      rw [outside, if_neg hd, if_pos ⟨rfl, hq⟩]
      omega
    · obtain ⟨c, hc, hp⟩ := ih h
      refine ⟨c, hc, ?_⟩
      rw [outside, if_neg hd]
      omega

theorem tokens_lineEnds {curr : Option ByteString} (h : lineEndsQuoted inQuotes line) :
    tokens isBlank curr inQuotes line =
      tokens (fun c => isBlank c || isLineEnd c) curr inQuotes line := by
  induction line generalizing curr inQuotes with
  | nil => rfl
  | cons c rest ih =>
    rw [lineEndsQuoted] at h
    rw [tokens, tokens]
    by_cases hu : c = quote
    · rw [if_pos hu] at h ⊢
      rw [if_pos hu]
      exact ih h
    · rw [if_neg hu, Bool.and_eq_true] at h
      have hs : ((isBlank c || isLineEnd c) && !inQuotes) = (isBlank c && !inQuotes) := by
        cases hq : inQuotes with
        | true => simp
        | false =>
          have he : isLineEnd c = false := by simpa [hq] using h.1
          rw [he, Bool.or_false]
      rw [if_neg hu, if_neg hu, hs, ih h.2, ih h.2]

/-- **The reader drops the arguments that are quotes only**, if these are closed,
and nothing else. -/
theorem parseLoop_tokens (li : ByteString) (cu : Option ByteString) (iq : Bool)
    (hb : iq → cu.isSome) :
    (emptyFree (cu.map fun held => decide (held ≠ [])) iq li → parseLoop (cu.getD []) iq li =
          tokens (fun c => isBlank c || isLineEnd c) cu iq li) ∧
      (parseLoop (cu.getD []) iq li).length +
          (if emptyFree (cu.map fun held => decide (held ≠ [])) iq li
            then 0 else 1) ≤
        (tokens (fun c => isBlank c || isLineEnd c) cu iq li).length := by
  induction li generalizing cu iq with
  | nil =>
    rw [parseLoop, tokens, emptyFree]
    cases cu with
    | none =>
      have hq : iq = false := by
        by_contra hn
        simpa using hb (by simpa using hn)
      simp [hq]
    | some held => by_cases hh : held = [] <;> cases iq <;> simp [hh]
  | cons c r ih =>
    rw [parseLoop, tokens, emptyFree]
    by_cases hu : c = quote
    · rw [if_pos hu, if_pos hu, if_pos hu]
      have hr := ih (some (cu.getD [])) (!iq) (by simp)
      have hm : (some (cu.getD [])).map (fun held => decide (held ≠ [])) =
          some ((cu.map fun held => decide (held ≠ [])).getD false) := by
        cases cu <;> simp
      rwa [hm] at hr
    rw [if_neg hu, if_neg hu, if_neg hu]
    by_cases hs : ((isBlank c || isLineEnd c) && !iq)
    · rw [if_pos hs, if_pos hs, if_pos hs]
      have hq : iq = false := by simpa using (Bool.and_eq_true_iff.1 hs).2
      obtain ⟨heq, hl⟩ := ih none iq (by simp [hq])
      rw [map_none, getD_none] at heq hl
      cases cu with
      | none => simpa using ⟨heq, hl⟩
      | some held =>
        by_cases hh : held = []
        · subst hh
          simp only [map_some, ne_eq, not_true, decide_false, getD_some,
            bne_self_eq_false, Bool.false_and, Bool.false_eq_true, if_false, false_imp_iff,
            true_and, toList_some, length_append, length_singleton]
          omega
        · simp only [map_some, ne_eq, hh, not_false_iff, decide_true, getD_some,
            if_true, toList_some, length_cons, singleton_append]
          refine ⟨fun h => by rw [heq (by simpa using h)], ?_⟩
          simp only [show (some true != some false) = true by decide, Bool.true_and]
          omega
    · rw [if_neg hs, if_neg hs, if_neg hs]
      have hr := ih (some (cu.getD [] ++ [c])) iq (by simp)
      simpa using hr

end Reader

/-! ### The lines that are read as documented -/

/-- **The reader follows the documented rules** on the ordinary lines, and on no others. -/
theorem parse_eq_documented_iff {pairs : Bool} :
    parseCommandLineArguments line = documentedArguments pairs line ↔ Ordinary pairs line := by
  unfold parseCommandLineArguments documentedArguments
  constructor
  · intro heq
    have he : escapes false line = false := by
      by_contra hn
      have ho : occurrences backslash (documented pairs none false 0 line) +
          (if escapes (decide (0 < 0)) line then 1 else 0) ≤
          ((none : Option ByteString).getD []).count backslash + 0 + line.count backslash :=
        documented_count_le line fun _ => rfl
      have hk := @parseLoop_count [] false backslash (by decide) line
      rw [show decide (0 < 0) = false from rfl, if_pos (by simpa using hn)] at ho
      rw [heq, if_neg (by decide)] at hk
      simp only [getD_none, count_nil] at ho hk
      omega
    have ha : pairs → pairsFree false line := by
      intro hp
      by_contra hn
      have hm : 0 < occurrences quote (documented pairs none false 0 line) :=
        quote_mem_documented line hp he (by simpa using hn)
      rw [← heq, parseLoop_quote] at hm
      cases hm
    have ht : documented pairs none false 0 line = tokens isBlank none false line :=
      documented_eq_tokens line (fun _ => rfl) he ha
    have hle : lineEndsQuoted false line := by
      by_contra hn
      obtain ⟨c, hd, hu⟩ := outside_of_lineEnds (by simpa using hn)
      have hc : c ≠ quote ∧ isBlank c = false := by
        rcases (by simpa [isLineEnd] using hd : c = 0x0D ∨ c = 0x0A) with rfl | rfl <;> decide
      have hk := @parseLoop_count [] false c hc.1 line
      rw [heq, ht, tokens_count hc.1 hc.2, hd, Bool.or_true, if_pos rfl] at hk
      simp only [getD_none] at hk
      omega
    refine ⟨he, hle, ha, ?_⟩
    by_contra hn
    have hln := (parseLoop_tokens line none false (nofun)).2
    rw [← tokens_lineEnds hle, ← ht, getD_none, heq, map_none, if_neg hn] at hln
    omega
  · intro hl
    have hr := (parseLoop_tokens line none false (nofun)).1 hl.empty
    have ht : documented pairs none false 0 line = tokens isBlank none false line :=
      documented_eq_tokens line (fun _ => rfl) hl.escapes hl.pairs
    rw [ht, tokens_lineEnds hl.lineEnds, ← hr, getD_none]

theorem withProgram_iff {p : ProgramPath} {l right : List ByteString}
    (hs : ∀ c, c = 0x43 ∨ c = 0x5A → occurrences c l = occurrences c right) :
    withProgram p l = withProgram p right ↔ l = right := by
  refine ⟨fun heq => ?_, fun heq => by rw [heq]⟩
  obtain ⟨le, ht, hm⟩ : ∃ c, (c = 0x43 ∨ c = 0x5A) ∧ c ∈ p.val := by
    rcases p.property with ⟨r, he⟩ | ⟨r, he⟩
    · exact ⟨0x43, .inl rfl, by rw [← he]; exact mem_append_left _ (by decide +kernel)⟩
    · exact ⟨0x5A, .inr rfl, by rw [← he]; exact mem_append_left _ (by decide +kernel)⟩
  have hc := hs le ht
  have hp : 0 < occurrences le [p.val] := by simpa [count_pos_iff] using hm
  unfold withProgram at heq
  by_cases hl : l = [] <;> by_cases hr : right = []
  · rw [hl, hr]
  · rw [if_pos hl, if_neg hr] at heq
    rw [hl, ← heq] at hc
    rw [← hc] at hp
    cases hp
  · rw [if_neg hl, if_pos hr] at heq
    rw [hr, heq] at hc
    rw [hc] at hp
    cases hp
  · rwa [if_neg hl, if_neg hr] at heq

theorem childArguments_iff {pairs : Bool} {p : ProgramPath} :
    childArguments p line = withProgram p (documentedArguments pairs line) ↔
      Ordinary pairs line := by
  rw [childArguments, withProgram_iff, parse_eq_documented_iff]
  intro c hc
  have hp : c ≠ quote ∧ c ≠ backslash ∧ isBlank c = false ∧ isLineEnd c = false := by
    rcases hc with rfl | rfl <;> decide
  have hk := @parseLoop_count [] false c hp.1 line
  rw [hp.2.2.1, hp.2.2.2, Bool.or_false, if_neg (by decide), add_zero] at hk
  rw [parseCommandLineArguments, documentedArguments, hk, documented_count hp.1 hp.2.1 hp.2.2.1]
  rfl

/-! ### The arguments that come back -/

def closes (inQuotes : Bool) : ByteString → Bool
  | [] => !inQuotes
  | c :: rest => closes (if c = quote then !inQuotes else inQuotes) rest

section Closes

variable {curr cr cu front f : ByteString} {inQuotes i iq : Bool}

theorem closes_append (f back : ByteString) :
    closes iq (f ++ back) = closes (!closes iq f) back := by
  induction f generalizing iq with
  | nil => rw [nil_append, closes, Bool.not_not]
  | cons c f ih => exact ih

attribute [local simp] closes

theorem outside_append (c : UInt8) (h : closes iq f) (back : ByteString) :
    outside c iq (f ++ back) = outside c iq f + outside c false back := by
  induction f generalizing iq with
  | nil =>
    have hq : iq = false := by simpa using h
    rw [hq, nil_append, outside, zero_add]
  | cons d f ih =>
    rw [closes] at h
    rw [cons_append, outside, outside]
    by_cases hd : d = quote
    · rw [if_pos hd] at h ⊢
      rw [if_pos hd]
      exact ih h
    · rw [if_neg hd] at h ⊢
      rw [if_neg hd, ih h, add_assoc]

theorem parseLoop_blank (h : closes iq f) (back : ByteString) :
    parseLoop cu iq (f ++ 0x20 :: back) = parseLoop cu iq f ++ parseLoop [] false back := by
  fun_induction parseLoop cu iq f with
  | case1 cu iq ht =>
    have hq : iq = false := by simpa using h
    subst hq
    have hn : cu ≠ [] := by simpa using ht
    rw [nil_append, parseLoop, if_neg (by decide), if_pos (by decide), if_pos hn]
    rfl
  | case2 cu iq ht =>
    have hq : iq = false := by simpa using h
    subst hq
    have he : cu = [] := by simpa using ht
    rw [nil_append, parseLoop, if_neg (by decide), if_pos (by decide), if_neg (by simpa), he]
    rfl
  | case3 cu iq r ih => exact ih (by simpa using h)
  | case4 cu iq c r hc hs hn ih =>
    rw [cons_append, parseLoop, if_neg hc, if_pos hs, if_pos hn, cons_append]
    rw [ih (by simpa [hc] using h)]
  | case5 cu iq c r hc hs hn ih =>
    rw [cons_append, parseLoop, if_neg hc, if_pos hs, if_neg hn]
    exact ih (by simpa [hc] using h)
  | case6 cu iq c r hc hs ih =>
    rw [cons_append, parseLoop, if_neg hc, if_neg hs]
    exact ih (by simpa [hc] using h)

theorem nil_notMem_parseLoop (h : closes i front) : [] ∉ parseLoop cr i front := by
  fun_induction parseLoop cr i front with
  | case1 cr i ht =>
    have hq : i = false := by simpa using h
    have hn : cr ≠ [] := by simpa [hq] using ht
    simpa using Ne.symm hn
  | case2 => simp
  | case3 cr i re ih => exact ih (by simpa using h)
  | case4 cr i c re hc hs hn ih =>
    rw [mem_cons, not_or]
    exact ⟨Ne.symm hn, ih (by simpa [hc] using h)⟩
  | case5 cr i c re hc hs hn ih => exact ih (by simpa [hc] using h)
  | case6 cr i c re hc hs ih => exact ih (by simpa [hc] using h)

theorem parseLoop_plain (back : ByteString)
    (h : ∀ c ∈ f, c ≠ quote ∧ (iq ∨ (isBlank c || isLineEnd c) = false)) :
    parseLoop cu iq (f ++ back) = parseLoop (cu ++ f) iq back := by
  induction f generalizing cu with
  | nil => rw [nil_append, append_nil]
  | cons c f ih =>
    obtain ⟨hu, hs⟩ := h c mem_cons_self
    have hk : ¬((isBlank c || isLineEnd c) && !iq) := by
      rcases hs with hq | hs
      · simp [hq]
      · simp [hs]
    rw [cons_append, parseLoop, if_neg hu, if_neg hk,
      ih fun d hd => h d (mem_cons_of_mem _ hd), append_assoc, singleton_append]

theorem closes_plain (h : quote ∉ front) : closes inQuotes front = !inQuotes := by
  induction front with
  | nil => rfl
  | cons c front ih =>
    rw [mem_cons, not_or] at h
    rw [closes, if_neg (Ne.symm h.1)]
    exact ih h.2

end Closes

/-- An argument that is read back: it is not empty, it has no quote,
and it has a line end only where
it has a blank too. -/
def ComesBack (argument : ByteString) : Prop :=
  argument ≠ [] ∧ quote ∉ argument ∧ (argument.any isLineEnd = true → argument.any isBlank = true)

variable {argument ar : ByteString}

theorem needsQuotes_of_quote_notMem (h : quote ∉ ar) : needsQuotes ar = ar.any isBlank := by
  unfold needsQuotes
  induction ar with
  | nil => rfl
  | cons c r ih =>
    rw [mem_cons, not_or] at h
    rw [any_cons, any_cons, ih h.2, show (c == quote) = false by simpa using Ne.symm h.1,
      Bool.or_false]

theorem closes_written (h : quote ∉ argument) : closes false (written argument) := by
  unfold written
  split
  · rw [closes_append, closes_append, show closes false [quote] = false by decide, closes_plain h]
    decide
  · exact closes_plain h

/-- **An argument that comes back** is read as it was written. -/
theorem parse_written (h : ComesBack ar) : parseLoop [] false (written ar) = [ar] := by
  obtain ⟨hne, hq, hd⟩ := h
  have hp : ∀ c ∈ ar, c ≠ quote := fun c hc heq => hq (heq ▸ hc)
  unfold written
  split
  · rw [append_assoc, singleton_append, parseLoop, if_pos rfl,
      Bool.not_false, parseLoop_plain [quote] fun c hc => ⟨hp c hc, .inl rfl⟩, parseLoop,
      if_pos rfl,
      parseLoop, if_pos (.inl (by simpa using hne)), nil_append]
  · next hn =>
    rw [needsQuotes_of_quote_notMem hq, Bool.not_eq_true] at hn
    have he : ar.any isLineEnd = false := by
      by_contra ha
      rw [hd (by simpa using ha)] at hn
      cases hn
    have hk : ∀ c ∈ ar, c ≠ quote ∧
        (false ∨ (isBlank c || isLineEnd c) = false) := fun c hc =>
      ⟨hp c hc, .inr (by
        rw [any_eq_false.1 hn c hc |> Bool.eq_false_of_not_eq_true,
          any_eq_false.1 he c hc |> Bool.eq_false_of_not_eq_true, Bool.or_false])⟩
    have hr : parseLoop [] false (ar ++ []) = parseLoop ([] ++ ar) false [] := parseLoop_plain [] hk
    rw [append_nil] at hr
    rw [hr, parseLoop, if_pos (.inl (by simpa using hne)), nil_append]

/-! ### The line of some arguments -/

theorem setGuestCommandLine_concat (arguments : List ByteString) (argument : ByteString) :
    setGuestCommandLine (arguments ++ [argument]) =
      (if setGuestCommandLine arguments ≠ [] then setGuestCommandLine arguments ++ [0x20]
        else setGuestCommandLine arguments) ++ written argument := by
  rw [setGuestCommandLine, foldl_append]
  rfl

theorem closes_blank (h : closes false li) :
    closes false (if li ≠ [] then li ++ [0x20] else li) := by
  split
  · rw [closes_append, h]
    decide
  · exact h

variable {arguments arg : List ByteString}

theorem closes_setGuestCommandLine (h : ∀ ar ∈ arg, quote ∉ ar) :
    closes false (setGuestCommandLine arg) := by
  induction arg using reverseRecOn with
  | nil => rfl
  | append_singleton arg ar ih =>
    have hf := ih fun x hx => h x (mem_append_left _ hx)
    rw [setGuestCommandLine_concat, closes_append, closes_blank hf]
    exact closes_written (h ar (by simp))

theorem count_written {c : UInt8} (hq : c ≠ quote) (ar : ByteString) :
    (written ar).count c = ar.count c := by
  have hn : List.count c [quote] = 0 := count_eq_zero.2 (by simpa using hq)
  unfold written
  split
  · rw [count_append, count_append, hn, zero_add, add_zero]
  · rfl

theorem count_setGuestCommandLine {c : UInt8} (hq : c ≠ quote) (hb : c ≠ 0x20)
    (arguments : List ByteString) :
    (setGuestCommandLine arguments).count c = occurrences c arguments := by
  induction arguments using reverseRecOn with
  | nil => rfl
  | append_singleton arguments argument ih =>
    have hn : List.count c [0x20] = 0 := count_eq_zero.2 (by simpa using hb)
    have hf : List.count c (if setGuestCommandLine arguments ≠ [] then
        setGuestCommandLine arguments ++ [0x20] else setGuestCommandLine arguments) =
        occurrences c arguments := by
      split
      · rw [count_append, hn, add_zero, ih]
      · exact ih
    rw [setGuestCommandLine_concat, count_append, hf, count_written hq, occurrences_append]
    simp

theorem outside_written_le (c : UInt8) (h : ∀ ar ∈ arg, quote ∉ ar) : ∀ ar ∈ arg,
      outside c false (written ar) ≤ outside c false (setGuestCommandLine arg) := by
  induction arg using reverseRecOn with
  | nil => intro ar hm; cases hm
  | append_singleton arg last ih =>
    have hq : ∀ x ∈ arg, quote ∉ x := fun x hx => h x (mem_append_left _ hx)
    have hc := closes_setGuestCommandLine hq
    intro ar hm
    rw [setGuestCommandLine_concat, outside_append c (closes_blank hc)]
    rcases mem_append.1 hm with hm | hm
    · refine le_trans (ih hq ar hm) ?_
      split
      · rw [outside_append c hc]
        omega
      · omega
    · rw [mem_singleton.1 hm]
      exact Nat.le_add_left _ _

theorem outside_plain {c : UInt8} (h : quote ∉ ar) : outside c false ar = ar.count c := by
  induction ar with
  | nil => rfl
  | cons d r ih =>
    rw [mem_cons, not_or] at h
    rw [outside, if_neg (Ne.symm h.1), ih h.2, count_cons]
    by_cases hd : d = c
    · simp [hd, add_comm]
    · simp [hd]

/-- **Arguments come back** exactly if each of them does. -/
theorem arguments_roundTrip_iff :
    parseCommandLineArguments (setGuestCommandLine arguments) = arguments ↔
      ∀ argument ∈ arguments, ComesBack argument := by
  constructor
  · intro heq argument hm
    have hn : occurrences quote arguments = 0 := by
      rw [← heq]
      exact parseLoop_quote _
    have hq : ∀ x ∈ arguments, quote ∉ x := by
      intro x hx hin
      exact (count_eq_zero.1 hn) (mem_flatten.2 ⟨x, hx, hin⟩)
    have ho := closes_setGuestCommandLine hq
    refine ⟨?_, hq argument hm, fun hd => ?_⟩
    · rintro rfl
      rw [← heq] at hm
      exact nil_notMem_parseLoop ho hm
    · by_contra hb
      obtain ⟨c, hc, hce⟩ := any_eq_true.1 hd
      have hp : c ≠ quote ∧ c ≠ 0x20 := by
        rcases (by simpa [isLineEnd] using hce : c = 0x0D ∨ c = 0x0A) with rfl | rfl <;> decide
      have ha : written argument = argument := by
        rw [written, needsQuotes_of_quote_notMem (hq argument hm), if_neg hb]
      have hlo := outside_written_le c hq argument hm
      rw [ha, outside_plain (hq argument hm)] at hlo
      have hr := @parseLoop_count [] false c hp.1 (setGuestCommandLine arguments)
      rw [hce, Bool.or_true, if_pos rfl, count_setGuestCommandLine hp.1 hp.2,
        count_nil, zero_add] at hr
      rw [parseCommandLineArguments] at heq
      rw [heq] at hr
      have hs := count_pos_iff.2 hc
      omega
  · intro h
    unfold parseCommandLineArguments
    induction arguments using reverseRecOn with
    | nil => rfl
    | append_singleton arguments argument ih =>
      have hf : ∀ x ∈ arguments, ComesBack x := fun x hx => h x (mem_append_left _ hx)
      have hl : ComesBack argument := h argument (by simp)
      have ho := closes_setGuestCommandLine fun x hx => (hf x hx).2.1
      have hr := ih hf
      rw [setGuestCommandLine_concat]
      split
      · rw [append_assoc, singleton_append, parseLoop_blank ho, hr, parse_written hl]
      next he =>
      have hli : setGuestCommandLine arguments = [] := by simpa using he
      rw [hli] at hr ⊢
      have hi : arguments = [] := hr.symm
      rw [nil_append, parse_written hl, hi, nil_append]

/-- **What comes back and what is read as documented**: arguments survive being written into a line
exactly if each of them comes back, and a child gets the documented arguments exactly if its line is
ordinary. -/
theorem commandLine_roundTrip (arguments : List ByteString) (pairs : Bool)
    (program : ProgramPath) (line : ByteString) :
    (parseCommandLineArguments (setGuestCommandLine arguments) = arguments ↔
        ∀ argument ∈ arguments, ComesBack argument) ∧
      (childArguments program line = withProgram program (documentedArguments pairs line) ↔
        Ordinary pairs line) :=
  ⟨arguments_roundTrip_iff, childArguments_iff⟩

/-- An argument with quotes does not come back, and a quote behind a backslash is not read as
documented. -/
theorem not_commandLine_roundTrip :
    (¬∀ arguments, parseCommandLineArguments (setGuestCommandLine arguments) = arguments) ∧
      ∀ pairs, ¬∀ (program : ProgramPath) (line : ByteString),
        childArguments program line = withProgram program (documentedArguments pairs line) := by
  refine ⟨fun h => ?_, fun pairs h => ?_⟩
  · exact absurd (h [text "app", text "say \"hi\"", []]) (by decide +kernel)
  · have hl := h ⟨text "C:\\app", .inl (by decide +kernel)⟩ (text "app \\\"x")
    rw [childArguments_iff] at hl
    exact absurd hl.escapes (by decide +kernel)

end TradutorLinux.Process
