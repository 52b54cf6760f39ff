import Mathlib.Data.BitVec
import Mathlib.Algebra.Group.Prod
import Mathlib.Tactic.Abel

/-!
# Mapping points between windows

`GetWindowRect` adds up the offsets of a window and of all that are above it;
`MapWindowPoints` takes each of its two windows for one right below the desktop.

## Main definitions

* `WindowPlaces`
* `WindowPlaces.getWindowRect`, `WindowPlaces.mapWindowPoints` — the functions.
* `WindowPlaces.Agrees` — points are mapped by the corners of the two rectangles, back
  again, and through any third window.
* `WindowPlaces.above` — where the parent of a window begins.

## Main results

* `mapping_agrees_iff`
-/

namespace TradutorLinux

/-- `GuestPoint`: the coordinates wrap. -/
abbrev GuestPoint := BitVec 32 × BitVec 32

/-- The slots of the windows; `place` are `x` and `y`, `depth` tells that the parents end. -/
structure WindowPlaces (ι : Type*) where
  used : ι → Bool
  place : ι → GuestPoint
  extent : ι → GuestPoint
  parent : ι → Option ι
  depth : ι → ℕ
  depth_parent : ∀ {i j}, parent i = some j → depth j < depth i

/-- A window as the guest names it. -/
inductive WindowName (ι : Type*)
  | null
  | desktop
  | window (i : ι)

namespace WindowPlaces

variable {ι : Type*} (t : WindowPlaces ι)

/-- `find_window_slot`. -/
def findWindowSlot : WindowName ι → Option ι
  | .window i => if t.used i = true then some i else none
  | _ => none

/-- The loop of `tl_GetWindowRect` over the parents. -/
def ascend (corner : GuestPoint) (parent : Option ι) : GuestPoint :=
  match parent with
  | none => corner
  | some i => ascend (corner + t.place i) (t.parent i)
termination_by parent.elim 0 (t.depth · + 1)
decreasing_by
  cases h : t.parent i with
  | none => simp
  | some j => simpa using t.depth_parent h

/-- `tl_GetWindowRect`: the corner on the left and top, and the other one. -/
def getWindowRect (window : WindowName ι) : Option (GuestPoint × GuestPoint) :=
  (t.findWindowSlot window).map fun i =>
    let corner := t.ascend (t.place i) (t.parent i)
    (corner, corner + t.extent i)

def placeOf (window : WindowName ι) : GuestPoint := (t.findWindowSlot window).elim 0 t.place

/-- `tl_MapWindowPoints`: the returned number and the points. -/
def mapWindowPoints (fromWindow toWindow : WindowName ι) (points : List GuestPoint) :
    BitVec 32 × List GuestPoint :=
  if points = [] then (0, points)
  else
    let d := t.placeOf fromWindow - t.placeOf toWindow
    ((d.2 <<< 16) ||| (d.1 &&& 0xFFFF#32), points.map (· + d))

/-- The corner that `tl_GetWindowRect` reports, zero for the desktop. -/
def origin (window : WindowName ι) : GuestPoint :=
  (t.getWindowRect window).elim 0 Prod.fst

/-- Where the parent begins: the places of all windows above, added up. -/
def above (window : WindowName ι) : GuestPoint :=
  (t.findWindowSlot window).elim 0 fun i => t.ascend 0 (t.parent i)

/-- The points of `a` are mapped to `b` by the corners; back again they are what they were,
and on to `c` what they are at once. -/
structure Agrees (a b c : WindowName ι) (points : List GuestPoint) : Prop where
  origins : (t.mapWindowPoints a b points).2 = points.map (· + t.origin a - t.origin b)
  back : (t.mapWindowPoints b a (t.mapWindowPoints a b points).2).2 = points
  through : (t.mapWindowPoints b c (t.mapWindowPoints a b points).2).2
    = (t.mapWindowPoints a c points).2

theorem ascend_add (p q : GuestPoint) (parent : Option ι) :
    t.ascend (p + q) parent = p + t.ascend q parent := by
  induction q, parent using WindowPlaces.ascend.induct t with
  | case1 q => simp [ascend]
  | case2 q i ih => rw [ascend, ascend, add_assoc, ih]

theorem origin_eq (w : WindowName ι) : t.origin w = t.placeOf w + t.above w := by
  cases h : t.findWindowSlot w with
  | none => simp [origin, getWindowRect, placeOf, above, h]
  | some i =>
    have := t.ascend_add (t.place i) 0 (t.parent i)
    simpa [origin, getWindowRect, placeOf, above, h] using this

theorem mapWindowPoints_snd (a b : WindowName ι) (l : List GuestPoint) :
    (t.mapWindowPoints a b l).2 = l.map (· + (t.placeOf a - t.placeOf b)) := by
  cases l with
  | nil => simp [mapWindowPoints]
  | cons p l => simp [mapWindowPoints]

/-- Each call subtracts what the one before has added. -/
theorem mapWindowPoints_through (a b c : WindowName ι) (l : List GuestPoint) :
    (t.mapWindowPoints b c (t.mapWindowPoints a b l).2).2 = (t.mapWindowPoints a c l).2 := by
  simp only [mapWindowPoints_snd, List.map_map]
  apply List.map_congr_left
  intro p _
  simp only [Function.comp_apply]
  abel

theorem mapWindowPoints_self (a : WindowName ι) (l : List GuestPoint) :
    (t.mapWindowPoints a a l).2 = l := by
  simp [mapWindowPoints_snd]

theorem shift_eq_iff {a b c d : GuestPoint} (p : GuestPoint) :
    p + (a - b) = p + (a + c) - (b + d) ↔ c = d := by
  constructor
  · intro h
    have : c - d = 0 := by
      calc c - d = p + (a + c) - (b + d) - (p + (a - b)) := by abel
        _ = 0 := by rw [h, sub_self]
    exact sub_eq_zero.1 this
  · rintro rfl
    abel

/-- **The mapping agrees where the two parents begin at one point.** -/
theorem mapping_agrees_iff (a b c : WindowName ι) (points : List GuestPoint) :
    t.Agrees a b c points ↔ points = [] ∨ t.above a = t.above b := by
  have hb := (t.mapWindowPoints_through a b a points).trans (t.mapWindowPoints_self a points)
  have h : t.Agrees a b c points
      ↔ (t.mapWindowPoints a b points).2 = points.map (· + t.origin a - t.origin b) :=
    ⟨fun h => h.origins, fun h => ⟨h, hb, t.mapWindowPoints_through a b c points⟩⟩
  rw [h, mapWindowPoints_snd]
  cases points with
  | nil => simp
  | cons p l =>
    simp only [origin_eq, List.map_inj_left, shift_eq_iff]
    constructor
    · intro h
      exact .inr (h p List.mem_cons_self)
    · rintro (h | h) _ _
      · cases h
      · exact h

/-- A button of a dialog that is not in the corner of the screen. -/
def dialogWithButton : WindowPlaces Bool where
  used _ := true
  place _ := (10, 20)
  extent _ := (100, 30)
  parent i := if i = true then some false else none
  depth i := i.toNat
  depth_parent {i j} h := by
    cases i <;> simp_all

/-- **A point of the button is mapped to the desktop as if the dialog were there.** -/
theorem not_mapping_agrees : ¬∀ (t : WindowPlaces Bool) (a b c : WindowName Bool)
    (points : List GuestPoint), t.Agrees a b c points := by
  intro h
  have := (h dialogWithButton (.window true) .desktop .null [0]).origins
  simp [mapWindowPoints_snd, origin, getWindowRect, placeOf, findWindowSlot, ascend,
    dialogWithButton] at this

end WindowPlaces

end TradutorLinux
