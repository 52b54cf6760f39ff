import Mathlib.Algebra.Order.Group.Unbundled.Int
import Mathlib.Tactic.Positivity
import Mathlib.Tactic.Ring

/-!
# Hit testing and drawing

`render_controls` draws the buttons of a toolbar with gaps of three, and the rows of a
list below its header; `handle_control_mouse` divides the place of the pointer by the
width of a button, or by the height of a row.

## Main definitions

* `Toolbar`, `ListBox` — the controls, with their rectangles.
* `Toolbar.drawn`, `ListBox.rowRect` — what is drawn.
* `Toolbar.click`, `ListBox.press` — what the mouse does.
* `Toolbar.Agrees`, `ListBox.Agrees` — the mouse does what the drawing shows at a point.
* `Toolbar.Aligned`, `ListBox.Aligned` — where the point is.

## Main results

* `agrees_iff_aligned`
-/

namespace TradutorLinux

open List

/-- A rectangle: the corner, the width and the height. -/
structure ControlRect where
  x : ℤ
  y : ℤ
  width : ℤ
  height : ℤ

/-- The test of `find_control_at`, where no other control lies over this one. -/
def ControlRect.contains (r : ControlRect) (p : ℤ × ℤ) : Prop :=
  r.x ≤ p.1 ∧ p.1 < r.x + r.width ∧ r.y ≤ p.2 ∧ p.2 < r.y + r.height

instance (r : ControlRect) (p : ℤ × ℤ) : Decidable (r.contains p) :=
  inferInstanceAs (Decidable (_ ∧ _))

/-- The division of the mouse, which rounds to zero, and its check of the index. -/
def slotAt (size offset : ℤ) (n : ℕ) : Option ℕ :=
  let index := offset.tdiv size
  if 0 ≤ index ∧ index < n then some index.toNat else none

theorem slotAt_eq {b c : ℤ} (hb : 0 < b) (n : ℕ) : slotAt b c n =
    if 0 < n ∧ -b < c ∧ c < n * b then some (c.toNat / b.toNat) else none := by
  rw [slotAt]
  lift b to ℕ using hb.le
  obtain hc | hc := le_or_gt 0 c
  · lift c to ℕ using hc
    have h0 : (c : ℤ) < n * b ↔ 0 < n ∧ -(b : ℤ) < c ∧ (c : ℤ) < n * b := by
      constructor
      · intro h
        refine ⟨Nat.pos_of_ne_zero ?_, by omega, h⟩
        rintro rfl
        omega
      · exact fun h => h.2.2
    have e : (c : ℤ).tdiv b = (c / b : ℕ) := (Int.ofNat_tdiv c b).symm
    have hn : (c : ℤ).tdiv b < n ↔ (c : ℤ) < n * b := by
      rw [Int.tdiv_eq_ediv_of_nonneg (by omega), Int.ediv_lt_iff_lt_mul hb]
    have hi : 0 ≤ ((c / b : ℕ) : ℤ) ∧ ((c / b : ℕ) : ℤ) < n
        ↔ 0 < n ∧ -(b : ℤ) < c ∧ (c : ℤ) < n * b := by
      rw [← h0, ← hn, e]
      exact and_iff_right (Int.natCast_nonneg _)
    rw [e]
    simp only [hi, Int.toNat_natCast]
  · obtain ⟨d, rfl⟩ : ∃ d : ℕ, c = -d := ⟨(-c).toNat, by omega⟩
    have e : (-(d : ℤ)).tdiv b = -(d / b : ℕ) := by rw [Int.neg_tdiv, Int.ofNat_tdiv]
    rw [e]
    obtain hd | hd := lt_or_ge d b
    · rw [Nat.div_eq_of_lt hd]
      obtain rfl | hn := Nat.eq_zero_or_pos n
      · simp
      · have := Int.mul_nonneg (Int.natCast_nonneg n) hb.le
        rw [if_pos (by omega), if_pos ⟨hn, by omega, by omega⟩]
        simp
    · have := Nat.div_pos hd (by omega)
      rw [if_neg (by omega), if_neg (by omega)]

/-! ### Toolbars -/

/-- A toolbar with the commands of its buttons; `button` is `toolbar_button_width`. -/
structure Toolbar extends ControlRect where
  button : ℤ
  commands : List ℕ

namespace Toolbar

variable (t : Toolbar) (p : ℤ × ℤ)

def fullWidth : ℤ := max t.width 16

/-- `button_width`, in the drawing and in the mouse. -/
def buttonWidth : ℤ :=
  let fitting := max ((t.fullWidth - 8).tdiv t.commands.length) 1
  min fitting (if 0 < t.button then t.button else fitting)

/-- `current_width`. -/
def currentWidth (x : ℤ) : ℤ := min t.buttonWidth (max (t.x + t.fullWidth - x - 4) 1)

def buttonRect (x : ℤ) : ControlRect := ⟨x, t.y + 3, t.currentWidth x, max t.height 24 - 6⟩

/-- The loop of `render_controls` over the buttons. -/
def drawLoop : ℕ → ℤ → List ControlRect
  | 0, _ => []
  | n + 1, x =>
    let next := x + t.currentWidth x + 3
    t.buttonRect x :: if t.x + t.fullWidth - 3 ≤ next then [] else drawLoop n next

/-- The rectangles of the buttons that are drawn. -/
def drawn : List ControlRect := t.drawLoop t.commands.length (t.x + 4)

/-- `handle_control_mouse`, a press and a release: the command that is queued. -/
def click : Option ℕ :=
  if t.contains p ∧ t.commands ≠ [] then
    (slotAt t.buttonWidth (p.1 - t.x - 4) t.commands.length).bind (t.commands[·]?)
  else none

/-- In the rectangle of a button its command is queued, outside of all none is. -/
structure Agrees : Prop where
  button : ∀ (i : ℕ) (r : ControlRect),
    t.drawn[i]? = some r → r.contains p → t.click p = t.commands[i]?
  outside : (∀ r ∈ t.drawn, ¬r.contains p) → t.click p = none

/-- Where a button begins. -/
def left (i : ℕ) : ℤ := t.x + 4 + i * (t.buttonWidth + 3)

/-- A button is drawn over a point; all but the first begin before the end of the bar. -/
def Over (i : ℕ) : Prop :=
  i < t.commands.length ∧ (i = 0 ∨ t.left i < t.x + t.fullWidth - 3)
    ∧ (t.buttonRect (t.left i)).contains p

/-- The slot of a point in a button, counted without gaps, has the command of the button;
a point in no button is outside the bar, a slot before the first, or behind the last. -/
structure Aligned : Prop where
  button : ∀ i, t.Over p i → t.contains p ∧
    t.commands[(p.1 - t.x - 4).toNat / t.buttonWidth.toNat]? = t.commands[i]?
  outside : (∀ i, ¬t.Over p i) → t.commands ≠ [] → t.contains p →
    p.1 - t.x - 4 ≤ -t.buttonWidth ∨ t.commands.length * t.buttonWidth ≤ p.1 - t.x - 4

theorem buttonWidth_pos : 0 < t.buttonWidth := by
  unfold buttonWidth
  simp only
  split_ifs <;> omega

theorem drawLoop_getElem? (n i : ℕ) (x : ℤ) (r : ControlRect) :
    (t.drawLoop n x)[i]? = some r
      ↔ i < n ∧ (i = 0 ∨ x + i * (t.buttonWidth + 3) < t.x + t.fullWidth - 3)
        ∧ r = t.buttonRect (x + i * (t.buttonWidth + 3)) := by
  have hb := t.buttonWidth_pos
  induction n generalizing i x with
  | zero => simp [drawLoop]
  | succ n ih =>
    rw [drawLoop]
    cases i with
    | zero => simp [eq_comm]
    | succ i =>
      have hi : (0 : ℤ) ≤ i * (t.buttonWidth + 3) := by positivity
      have e : ((i + 1 : ℕ) : ℤ) * (t.buttonWidth + 3)
          = t.buttonWidth + 3 + i * (t.buttonWidth + 3) := by
        push_cast
        ring
      have hw : t.currentWidth x = min t.buttonWidth (max (t.x + t.fullWidth - x - 4) 1) := rfl
      have h0 : i = 0 → (i : ℤ) * (t.buttonWidth + 3) = 0 := by
        rintro rfl
        simp
      have h' := ih i (x + t.buttonWidth + 3)
      rw [e, getElem?_cons_succ]
      generalize (i : ℤ) * (t.buttonWidth + 3) = q at *
      split_ifs with h
      · simp only [getElem?_nil, reduceCtorEq, false_iff]
        rintro ⟨-, h₁ | h₁, -⟩ <;> omega
      · have hc : t.currentWidth x = t.buttonWidth := by omega
        have hn : x + t.buttonWidth + 3 < t.x + t.fullWidth - 3 := by
          rw [hc] at h
          exact not_le.1 h
        have hx : x + (t.buttonWidth + 3 + q) = x + t.buttonWidth + 3 + q := by ring
        rw [hc, hx]
        refine h'.trans ⟨?_, ?_⟩
        · rintro ⟨h₁, h₂, h₃⟩
          exact ⟨by omega, .inr (h₂.elim (fun e => by rwa [h0 e, add_zero]) id), h₃⟩
        · rintro ⟨h₁, h₂, h₃⟩
          exact ⟨by omega, .inr (h₂.resolve_left id), h₃⟩

theorem drawn_getElem? (i : ℕ) (r : ControlRect) :
    (t.drawn[i]? = some r ∧ r.contains p) ↔ t.Over p i ∧ r = t.buttonRect (t.left i) := by
  rw [drawn, drawLoop_getElem?, Over, left]
  constructor
  · rintro ⟨⟨h, h', rfl⟩, hr⟩
    exact ⟨⟨h, h', hr⟩, rfl⟩
  · rintro ⟨⟨h, h', hr⟩, rfl⟩
    exact ⟨⟨h, h', rfl⟩, hr⟩

theorem click_eq : t.click p =
    if t.commands ≠ [] ∧ t.contains p ∧ -t.buttonWidth < p.1 - t.x - 4
        ∧ p.1 - t.x - 4 < t.commands.length * t.buttonWidth then
      t.commands[(p.1 - t.x - 4).toNat / t.buttonWidth.toNat]?
    else none := by
  rw [click, slotAt_eq t.buttonWidth_pos]
  by_cases h : t.contains p ∧ t.commands ≠ []
  · simp only [h.1, h.2, ne_eq, not_false_eq_true, true_and, length_pos_iff]
    split_ifs <;> rfl
  · rw [if_neg h, if_neg fun h' => h ⟨h'.2.1, h'.1⟩]

theorem slot_lt_iff (h0 : t.commands ≠ []) :
    (p.1 - t.x - 4).toNat / t.buttonWidth.toNat < t.commands.length
      ↔ p.1 - t.x - 4 < t.commands.length * t.buttonWidth := by
  have hb := t.buttonWidth_pos
  have hn : (0 : ℤ) < t.commands.length := Int.natCast_pos.2 (length_pos_iff.2 h0)
  have hm := mul_pos hn hb
  have e : ((t.commands.length * t.buttonWidth.toNat : ℕ) : ℤ)
      = t.commands.length * t.buttonWidth := by
    rw [Int.natCast_mul, Int.toNat_of_nonneg hb.le]
  rw [Nat.div_lt_iff_lt_mul (by omega), ← e]
  omega

theorem click_eq_none_iff : t.click p = none ↔ (t.commands ≠ [] → t.contains p →
    p.1 - t.x - 4 ≤ -t.buttonWidth ∨ t.commands.length * t.buttonWidth ≤ p.1 - t.x - 4) := by
  rw [click_eq]
  split_ifs with h
  · obtain ⟨hc, hp, h₁, h₂⟩ := h
    have hs := (t.slot_lt_iff p hc).2 h₂
    rw [getElem?_eq_none_iff]
    constructor
    · intro hn
      omega
    · intro hn
      obtain hn | hn := hn hc hp <;> omega
  · simp only [true_iff]
    intro hc hp
    by_contra hn
    exact h ⟨hc, hp, by omega, by omega⟩

theorem click_eq_iff {i : ℕ} (h : t.Over p i) : t.click p = t.commands[i]?
    ↔ t.contains p ∧
      t.commands[(p.1 - t.x - 4).toNat / t.buttonWidth.toNat]? = t.commands[i]? := by
  obtain ⟨hi, -, hr, -⟩ := h
  have hb := t.buttonWidth_pos
  have hl : (0 : ℤ) ≤ i * (t.buttonWidth + 3) := by positivity
  have h0 : t.commands ≠ [] := length_pos_iff.1 (by omega)
  simp only [buttonRect, left] at hr
  rw [click_eq]
  split_ifs with hc
  · simp only [hc.2.1, true_and]
  · constructor
    · intro h
      rw [eq_comm, getElem?_eq_none_iff] at h
      omega
    · rintro ⟨hp, h⟩
      by_contra
      apply hc
      refine ⟨h0, hp, by omega, (t.slot_lt_iff p h0).1 ?_⟩
      rw [getElem?_eq_getElem hi] at h
      exact (List.getElem?_eq_some_iff.1 h).1

theorem agrees_iff : t.Agrees p ↔ t.Aligned p := by
  have ho : (∀ r ∈ t.drawn, ¬r.contains p) ↔ ∀ i, ¬t.Over p i := by
    constructor
    · intro h i hi
      have := (t.drawn_getElem? p i _).2 ⟨hi, rfl⟩
      exact h _ (mem_of_getElem? this.1) this.2
    · intro h r hr hp
      obtain ⟨i, hi⟩ := getElem?_of_mem hr
      exact h i ((t.drawn_getElem? p i r).1 ⟨hi, hp⟩).1
  constructor
  · intro h
    refine ⟨?_, ?_⟩
    · intro i hi
      have := (t.drawn_getElem? p i _).2 ⟨hi, rfl⟩
      exact (t.click_eq_iff p hi).1 (h.button i _ this.1 this.2)
    · intro hn
      exact (t.click_eq_none_iff p).1 (h.outside (ho.2 hn))
  · intro h
    refine ⟨?_, ?_⟩
    · intro i r hi hp
      have := ((t.drawn_getElem? p i r).1 ⟨hi, hp⟩).1
      exact (t.click_eq_iff p this).2 (h.button i this)
    · intro hn
      exact (t.click_eq_none_iff p).2 (h.outside (ho.1 hn))

end Toolbar

/-! ### Lists -/

/-- A list view with the number of its rows and `list_selection`. -/
structure ListBox extends ControlRect where
  rows : ℕ
  selection : ℤ

namespace ListBox

variable (l : ListBox) (p : ℤ × ℤ)

/-- The rectangle of a row in `render_controls`, 16 above the line of its text. -/
def rowRect (row : ℕ) : ControlRect := ⟨l.x + 1, l.y + 40 + row * 20 - 16, l.width - 2, 20⟩

/-- `handle_control_mouse`, a press: the selection after it. -/
def press : ℤ :=
  if l.contains p then
    match slotAt 20 (p.2 - l.y - 24) l.rows with
    | some row => row
    | none => l.selection
  else l.selection

/-- In the rectangle of a row it is selected, outside of all nothing changes. -/
structure Agrees : Prop where
  row : ∀ r < l.rows, (l.rowRect r).contains p → l.press p = r
  outside : (∀ r < l.rows, ¬(l.rowRect r).contains p) → l.press p = l.selection

/-- A point in a row is in the list; a point of the list in no row is 20 above the first,
or below the last; or it is for the row that is selected. -/
structure Aligned : Prop where
  row : ∀ r < l.rows, (l.rowRect r).contains p → l.contains p ∨ l.selection = r
  outside : (∀ r < l.rows, ¬(l.rowRect r).contains p) → l.contains p →
    0 < l.rows → -20 < p.2 - l.y - 24 → p.2 - l.y - 24 < l.rows * 20 →
      l.selection = ((p.2 - l.y - 24).toNat / 20 : ℕ)

theorem press_eq : l.press p =
    if l.contains p ∧ 0 < l.rows ∧ -20 < p.2 - l.y - 24 ∧ p.2 - l.y - 24 < l.rows * 20 then
      (((p.2 - l.y - 24).toNat / 20 : ℕ) : ℤ)
    else l.selection := by
  rw [press, slotAt_eq (by decide)]
  by_cases h : l.contains p
  · by_cases h' : 0 < l.rows ∧ -20 < p.2 - l.y - 24 ∧ p.2 - l.y - 24 < l.rows * 20
    · simp only [h, h', and_self, if_true]
      rfl
    · simp only [h, h', and_false, if_true, if_false]
  · simp only [h, false_and, if_false]

theorem agrees_iff : l.Agrees p ↔ l.Aligned p := by
  constructor
  · intro h
    refine ⟨?_, ?_⟩
    · intro r hr hp
      have := h.row r hr hp
      rw [press_eq] at this
      split_ifs at this with hc
      · exact .inl hc.1
      · exact .inr this
    · intro hn hc h₀ h₁ h₂
      have := h.outside hn
      rw [press_eq, if_pos ⟨hc, h₀, h₁, h₂⟩] at this
      exact this.symm
  · intro h
    refine ⟨?_, ?_⟩
    · intro r hr hp
      have ha := h.row r hr hp
      rw [press_eq]
      simp only [rowRect, ControlRect.contains] at hp ha ⊢
      split_ifs with hc <;> omega
    · intro hn
      rw [press_eq]
      split_ifs with hc
      · exact (h.outside hn hc.1 hc.2.1 hc.2.2.1 hc.2.2.2).symm
      · rfl

end ListBox

/-- **The mouse agrees with the drawing at the aligned points.** -/
theorem agrees_iff_aligned (t : Toolbar) (l : ListBox) (p : ℤ × ℤ) :
    (t.Agrees p ↔ t.Aligned p) ∧ (l.Agrees p ↔ l.Aligned p) :=
  ⟨t.agrees_iff p, l.agrees_iff p⟩

/-- **The gap behind the first button queues the command of the second, the header selects a row.** -/
theorem not_agrees_at :
    (¬∀ (t : Toolbar) (p : ℤ × ℤ), t.Agrees p) ∧ ¬∀ (l : ListBox) (p : ℤ × ℤ), l.Agrees p := by
  constructor
  · intro h
    have := (h ⟨⟨0, 0, 200, 30⟩, 40, [1, 2]⟩ (45, 10)).outside (by decide)
    revert this
    decide
  · intro h
    have := (h ⟨⟨0, 0, 200, 100⟩, 1, -1⟩ (10, 10)).outside (by decide)
    revert this
    decide

end TradutorLinux
