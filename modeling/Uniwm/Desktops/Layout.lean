import Uniwm.Model.Layout
import Mathlib.Data.List.Perm.Basic

/-!
# uniwm — windows side by side

`layout_tiles`: whatever order `pairs` goes in and whichever windows refuse, each window of the
desktop that is not the system's is asked once, and those that let themselves be placed stand in
columns of the same width that do not overlap, over the full height, and leave less than one
pixel for each window at the right. The columns start at the left edge of the screen, so they
lie in the work area if that starts there too.

The list of windows is some permutation of them (`listWindows_perm`), and `columns` says where
the calls put it.
-/

namespace Uniwm

variable {g : LayoutGiven}

-- ----------------------------------------------------------------------------
-- Which windows
-- ----------------------------------------------------------------------------

/-- The windows of a table that are not the system's. -/
def shownWindows (g : LayoutGiven) (windows : WindowTable) : List WindowRef :=
  (windows.map (·.2)).filter fun w => g.isSystem w = some false

theorem filterWindows_eq {tab kept : WindowTable} (h : filterWindows g tab = some kept) :
    kept.map (·.2) = shownWindows g tab := by
  induction tab generalizing kept with
  | nil =>
    cases h
    rfl
  | cons entry tab ih =>
    obtain ⟨k, w⟩ := entry
    rw [filterWindows] at h
    rw [shownWindows, List.map_cons]
    cases hsystem : g.isSystem w with
    | none => simp [hsystem] at h
    | some system =>
      simp only [hsystem, Option.map_eq_some_iff] at h
      obtain ⟨res, hres, rfl⟩ := h
      have hrest := ih hres
      cases system with
      | true => simpa [hsystem, shownWindows] using hrest
      | false => simpa [hsystem, shownWindows] using hrest

/-- The order of `pairs` does not matter to which windows there are. -/
theorem listWindows_perm (hpairs : ∀ tab, (g.pairs tab).Perm tab) {windows kept : WindowTable}
    (h : filterWindows g (g.pairs windows) = some kept) :
    (listWindows g kept).Perm (shownWindows g windows) := by
  have hkept : (listWindows g kept).Perm (kept.map (·.2)) := (hpairs kept).map _
  rw [filterWindows_eq h] at hkept
  exact hkept.trans (((hpairs windows).map _).filter _)

-- ----------------------------------------------------------------------------
-- Which places
-- ----------------------------------------------------------------------------

/-- The window that a call restores to its normal state. -/
def LayoutCall.restored : LayoutCall → Option WindowRef
  | .setState w => some w
  | .setRect _ _ => none

/-- The window that it places, and where. -/
def LayoutCall.placed : LayoutCall → Option (WindowRef × Tile)
  | .setState _ => none
  | .setRect w tile => some (w, tile)

section Columns

variable {width : Nat} {size : Size2U} (windows : List WindowRef) (n : Nat)

theorem columns_restored : ((windows.zipIdx n).flatMap fun p =>
    placeTile g width size p.1 p.2).filterMap LayoutCall.restored = windows := by
  induction windows generalizing n with
  | nil => rfl
  | cons w windows ih =>
    rw [List.zipIdx_cons, List.flatMap_cons, List.filterMap_append, ih]
    unfold placeTile
    split <;> rfl

/-- **Columns.** The windows that can be placed stand in the columns of their numbers. -/
theorem columns : ((windows.zipIdx n).flatMap fun p =>
    placeTile g width size p.1 p.2).filterMap LayoutCall.placed =
      ((windows.zipIdx n).filter fun p => g.stateSet p.1).map fun p =>
        (p.1, ⟨p.2 * width, 0, width, size.height.toNat⟩) := by
  induction windows generalizing n with
  | nil => rfl
  | cons w windows ih =>
    rw [List.zipIdx_cons, List.flatMap_cons, List.filterMap_append, ih, placeTile]
    cases hset : g.stateSet w with
    | false =>
      rw [List.filter_cons_of_neg (by simp [hset])]
      rfl
    | true =>
      rw [List.filter_cons_of_pos (by simp [hset])]
      rfl

theorem zipIdx_filter_fst (p : WindowRef → Bool) :
    ((windows.zipIdx n).filter fun q => p q.1).map (·.1) = windows.filter p := by
  induction windows generalizing n with
  | nil => rfl
  | cons w windows ih =>
    rw [List.zipIdx_cons, List.filter_cons, List.filter_cons]
    cases p w <;> simp [ih]

/-- Later windows stand further to the right. -/
theorem zipIdx_spaced :
    (windows.zipIdx n).Pairwise fun a b => a.2 * width + width ≤ b.2 * width := by
  induction windows generalizing n with
  | nil => exact List.Pairwise.nil
  | cons w windows ih =>
    rw [List.zipIdx_cons]
    refine List.pairwise_cons.mpr ⟨fun p hp => ?_, ih (n + 1)⟩
    have hlater : n + 1 ≤ p.2 := (List.mem_zipIdx hp).1
    calc n * width + width = (n + 1) * width := (Nat.succ_mul n width).symm
      _ ≤ p.2 * width := Nat.mul_le_mul_right width hlater

end Columns

-- ----------------------------------------------------------------------------
-- The work area
-- ----------------------------------------------------------------------------

/-- The extent of a side, which `win_vdesk_size` computes without a sign. -/
theorem extent_toNat {lo hi : Int32} (h : lo ≤ hi) :
    ((hi - lo).toUInt32.toNat : Int) = hi.toInt - lo.toInt := by
  have hle : lo.toBitVec.toInt ≤ hi.toBitVec.toInt := Int32.le_iff_toInt_le.mp h
  have hlo := BitVec.toInt_eq_toNat_cond lo.toBitVec
  have hhi := BitVec.toInt_eq_toNat_cond hi.toBitVec
  have hlo' := lo.toBitVec.isLt
  have hhi' := hi.toBitVec.isLt
  have hsub : (hi - lo).toUInt32.toNat =
      (2 ^ 32 - lo.toBitVec.toNat + hi.toBitVec.toNat) % 2 ^ 32 := BitVec.toNat_sub ..
  show ((hi - lo).toUInt32.toNat : Int) = hi.toBitVec.toInt - lo.toBitVec.toInt
  rw [hsub]
  split at hlo <;> split at hhi <;> omega

/-- A tile lies in the work area. -/
def Tile.In (tile : Tile) (work : Rect) : Prop :=
  work.left.toInt ≤ tile.x ∧ (tile.x + tile.width : Int) ≤ work.right.toInt ∧
    work.top.toInt ≤ tile.y ∧ (tile.y + tile.height : Int) ≤ work.bottom.toInt

/-- The width of a work area, without a sign. -/
theorem extent_eq {work : Rect} (hx : work.left ≤ work.right) :
    (work.right - work.left).toUInt32.toNat = (work.right.toInt - work.left.toInt).toNat := by
  have hwidth := extent_toNat hx
  omega

/-- A side shared by `n` columns leaves less than a pixel for each over. -/
theorem lt_columns {n : Nat} (hpos : 0 < n) (extent : Nat) :
    extent < n * (extent / n) + n := by
  have hdiv := Nat.div_add_mod extent n
  have hmod := Nat.mod_lt extent hpos
  omega

/-- The bounds of the tile in column `i` of `n`: it ends before the columns do, and is as high as
the work area; it lies in the work area if this starts at the origin. -/
theorem column_bounds {work : Rect} (hx : work.left ≤ work.right) (hy : work.top ≤ work.bottom)
    {n i : Nat} (hi : i < n) :
    let width := (work.right.toInt - work.left.toInt).toNat / n
    let tile : Tile := ⟨i * width, 0, width, (work.bottom - work.top).toUInt32.toNat⟩
    tile.x + tile.width ≤ n * width ∧
      (tile.height : Int) = work.bottom.toInt - work.top.toInt ∧
      (work.left = 0 → work.top = 0 → tile.In work) := by
  intro width tile
  have hheight := extent_toNat hy
  have hcolumn : i * width + width ≤ n * width := by
    rw [← Nat.succ_mul]
    exact Nat.mul_le_mul_right _ hi
  refine ⟨hcolumn, hheight, fun hzero hzero' => ?_⟩
  have hzeroInt : (0 : Int32).toInt = 0 := by decide
  have hright : ((work.right.toInt - work.left.toInt).toNat : Int) = work.right.toInt := by
    rw [← extent_eq hx, extent_toNat hx, hzero, hzeroInt, Int.sub_zero]
  have hbottom : ((work.bottom - work.top).toUInt32.toNat : Int) = work.bottom.toInt := by
    rw [hheight, hzero', hzeroInt, Int.sub_zero]
  have hfits : i * width + width ≤ (work.right.toInt - work.left.toInt).toNat :=
    Nat.le_trans hcolumn (Nat.mul_div_le ..)
  refine ⟨?_, ?_, ?_, ?_⟩
  · rw [hzero, hzeroInt]
    exact Int.natCast_nonneg _
  · rw [← hright]
    exact_mod_cast hfits
  · rw [hzero', hzeroInt]
    exact Int.le_refl 0
  · rw [← hbottom]
    exact Int.le_of_eq (Int.zero_add _)

/-- **The layout.** In every order of `pairs`, and whatever windows refuse: if no error is raised
before the first window is touched, each window of the desktop that is not the system's is
restored once, and those that are restored are placed once each, side by side from left to right
without an overlap, all of one width and over the whole height of the work area, with less than
a pixel for each window left over at the right. If the work area starts at the origin, they all
lie in it. -/
theorem layout_tiles (hpairs : ∀ tab, (g.pairs tab).Perm tab) {windows : WindowTable}
    {work : Rect} (hx : work.left ≤ work.right) (hy : work.top ≤ work.bottom)
    {calls : List LayoutCall}
    (hcalls : layoutVdesk g windows (winVdeskSize (some work)).2 = some calls) :
    let shown := shownWindows g windows
    let placed := calls.filterMap LayoutCall.placed
    let extent := (work.right.toInt - work.left.toInt).toNat
    (calls.filterMap LayoutCall.restored).Perm shown ∧
      (placed.map (·.1)).Perm (shown.filter g.stateSet) ∧
      placed.Pairwise (fun a b => a.2.x + a.2.width ≤ b.2.x) ∧
      (∀ p ∈ placed, p.2.width = extent / shown.length ∧
        p.2.x + p.2.width ≤ shown.length * (extent / shown.length) ∧
        (p.2.height : Int) = work.bottom.toInt - work.top.toInt ∧
        (work.left = 0 → work.top = 0 → p.2.In work)) ∧
      (0 < shown.length → extent < shown.length * (extent / shown.length) + shown.length) := by
  intro shown placed extent
  have hextent : (work.right - work.left).toUInt32.toNat = extent := extent_eq hx
  have hleft : 0 < shown.length →
      extent < shown.length * (extent / shown.length) + shown.length :=
    fun hpos => lt_columns hpos extent
  unfold layoutVdesk at hcalls
  split at hcalls
  · cases hcalls
  next kept hkept =>
  have hperm : (listWindows g kept).Perm shown := listWindows_perm hpairs hkept
  have hlen : (listWindows g kept).length = shown.length := hperm.length_eq
  simp only at hcalls
  by_cases hempty : (listWindows g kept).length = 0
  · rw [if_pos hempty] at hcalls
    obtain rfl : [] = calls := Option.some.inj hcalls
    have hnone : shown = [] := List.length_eq_zero_iff.mp (hlen.symm.trans hempty)
    rw [hnone] at hleft ⊢
    exact ⟨.refl _, .refl _, List.Pairwise.nil, fun p hp => absurd hp List.not_mem_nil, hleft⟩
  rw [if_neg hempty] at hcalls
  split at hcalls
  · cases hcalls
  simp only [winVdeskSize, hextent, hlen] at hcalls
  obtain rfl := Option.some.inj hcalls
  have hplaced : placed = ((listWindows g kept).zipIdx.filter fun p => g.stateSet p.1).map fun p =>
      (p.1, ⟨p.2 * (extent / shown.length), 0, extent / shown.length,
        (work.bottom - work.top).toUInt32.toNat⟩) := columns _ 0
  refine ⟨?_, ?_, ?_, ?_, hleft⟩
  · rw [columns_restored]
    exact hperm
  · have hfst := zipIdx_filter_fst (listWindows g kept) 0 g.stateSet
    rw [hplaced, List.map_map]
    show (((listWindows g kept).zipIdx.filter fun q => g.stateSet q.1).map (·.1)).Perm _
    rw [hfst]
    exact hperm.filter g.stateSet
  · rw [hplaced, List.pairwise_map]
    exact (zipIdx_spaced _ 0).filter _
  · intro p hp
    rw [hplaced] at hp
    obtain ⟨⟨w, i⟩, hi, rfl⟩ := List.mem_map.mp hp
    have hlt : i < shown.length := by
      have := (List.mem_zipIdx (List.mem_filter.mp hi).1).2.1
      omega
    exact ⟨rfl, column_bounds hx hy hlt⟩

/-- Five windows, the second of the system and the fourth not to be restored, on a screen of 1000
pixels with a taskbar at the bottom; `pairs` goes backwards. -/
def fiveWindows : LayoutGiven where
  pairs tab := tab.reverse
  isSystem w := some (w = 2)
  titled _ := true
  stateSet w := w ≠ 4

theorem layout_tiles_five :
    let work : Rect := ⟨0, 0, 1000, 700⟩
    let shown := shownWindows fiveWindows [(1, 1), (2, 2), (3, 3), (4, 4), (5, 5)]
    let calls : List LayoutCall := [.setState 1, .setRect 1 ⟨0, 0, 250, 700⟩, .setState 3,
      .setRect 3 ⟨250, 0, 250, 700⟩, .setState 4, .setState 5, .setRect 5 ⟨750, 0, 250, 700⟩]
    let placed := calls.filterMap LayoutCall.placed
    let extent := (work.right.toInt - work.left.toInt).toNat
    (calls.filterMap LayoutCall.restored).Perm shown ∧
      (placed.map (·.1)).Perm (shown.filter fiveWindows.stateSet) ∧
      placed.Pairwise (fun a b => a.2.x + a.2.width ≤ b.2.x) ∧
      (∀ p ∈ placed, p.2.width = extent / shown.length ∧
        p.2.x + p.2.width ≤ shown.length * (extent / shown.length) ∧
        (p.2.height : Int) = work.bottom.toInt - work.top.toInt ∧
        (work.left = 0 → work.top = 0 → p.2.In work)) ∧
      (0 < shown.length → extent < shown.length * (extent / shown.length) + shown.length) :=
  layout_tiles (fun tab => List.reverse_perm tab) (by decide) (by decide) (by decide)

end Uniwm
