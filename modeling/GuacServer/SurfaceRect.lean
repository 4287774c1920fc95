import Mathlib.Algebra.Order.Ring.Int
import Mathlib.Data.List.Basic

/-!
# Rectangles of a surface

common/rect.c, and what the drawing operations of common/surface.c learn about
the pixels that they change. Sums of coordinates that do not fit an int are
undefined, and coordinates are integers here.
-/

namespace GuacServer.Surface

open List

/-- guac_common_rect. -/
structure Rect where
  x : ℤ
  y : ℤ
  width : ℤ
  height : ℤ
  deriving DecidableEq

/-- A pixel is in a rectangle. -/
def Rect.Mem (rect : Rect) (x y : ℤ) : Prop :=
  (rect.x≤x ∧ x<rect.x+rect.width) ∧ rect.y≤y ∧ y<rect.y+rect.height

instance (rect : Rect) (x y : ℤ) : Decidable (rect.Mem x y) := inferInstanceAs (Decidable (_ ∧ _))

/-- A rectangle without pixels. -/
def Rect.Empty (rect : Rect) : Prop := rect.width≤0 ∨ rect.height≤0

instance (rect : Rect) : Decidable rect.Empty := inferInstanceAs (Decidable (_ ∨ _))

/-- The pixels of a rectangle, if it has any, are those of another. -/
def Rect.InRect (rect outer : Rect) : Prop :=
  (outer.x≤rect.x ∧ rect.x+rect.width≤outer.x+outer.width) ∧
    outer.y≤rect.y ∧ rect.y+rect.height≤outer.y+outer.height

instance (rect outer : Rect) : Decidable (rect.InRect outer) := inferInstanceAs (Decidable (_ ∧ _))

variable {rect rect' outer : Rect} {x y : ℤ}

theorem Rect.Mem.not_empty (h : rect.Mem x y) : ¬rect.Empty := by
  obtain ⟨⟨hx,hx'⟩,hy,hy'⟩ := h
  rintro (hwidth | hheight)
  · omega
  · omega

/-! ## Rectangles from rectangles -/

/-- guac_common_rect_extend. -/
def guacCommonRectExtend (rect extra : Rect) : Rect :=
  let left := min rect.x extra.x
  let top := min rect.y extra.y
  let right := max (rect.x+rect.width) (extra.x+extra.width)
  let bottom := max (rect.y+rect.height) (extra.y+extra.height)
  ⟨left,top,right-left,bottom-top⟩

/-- guac_common_rect_constrain. -/
def guacCommonRectConstrain (rect outer : Rect) : Rect :=
  let left := max rect.x outer.x
  let top := max rect.y outer.y
  let right := min (rect.x+rect.width) (outer.x+outer.width)
  let bottom := min (rect.y+rect.height) (outer.y+outer.height)
  ⟨left,top,right-left,bottom-top⟩

/-- One dimension of guac_common_rect_expand_to_grid: where the expanded range
starts and ends. -/
def expandRange (cellSize start length outerStart outerEnd : ℤ) : ℤ×ℤ :=
  let missing := cellSize-length.tmod cellSize
  let first := start-missing.tdiv 2
  let last := first+length+missing
  if last > outerEnd then (max (first-(last-outerEnd)) outerStart,outerEnd)
  else if first<outerStart then (outerStart,min (last+(outerStart-first)) outerEnd)
  else (first,last)

/-- guac_common_rect_expand_to_grid, with a cell size of more than one pixel. -/
def guacCommonRectExpandToGrid (cellSize : ℤ) (rect outer : Rect) : Rect :=
  let columns := expandRange cellSize rect.x rect.width outer.x (outer.x+outer.width)
  let rows := expandRange cellSize rect.y rect.height outer.y (outer.y+outer.height)
  ⟨columns.1,rows.1,columns.2-columns.1,rows.2-rows.1⟩

theorem mem_extend_left (h : rect.Mem x y) (extra : Rect) :
    (guacCommonRectExtend rect extra).Mem x y := by
  obtain ⟨⟨hx,hx'⟩,hy,hy'⟩ := h
  unfold guacCommonRectExtend Rect.Mem
  dsimp only
  omega

theorem mem_extend_right {extra : Rect} (h : extra.Mem x y) (rect : Rect) :
    (guacCommonRectExtend rect extra).Mem x y := by
  obtain ⟨⟨hx,hx'⟩,hy,hy'⟩ := h
  unfold guacCommonRectExtend Rect.Mem
  dsimp only
  omega

theorem extend_inRect (h : rect.InRect outer) (h' : rect'.InRect outer) :
    (guacCommonRectExtend rect rect').InRect outer := by
  obtain ⟨⟨hleft,hright⟩,htop,hbottom⟩ := h
  obtain ⟨⟨hleft',hright'⟩,htop',hbottom'⟩ := h'
  unfold guacCommonRectExtend Rect.InRect
  dsimp only
  omega

theorem extend_not_empty (h : ¬rect.Empty) (extra : Rect) :
    ¬(guacCommonRectExtend rect extra).Empty := by
  unfold Rect.Empty at *
  unfold guacCommonRectExtend
  dsimp only
  omega

/-- A constrained rectangle has the pixels that are in both. -/
theorem mem_constrain (rect outer : Rect) (x y : ℤ) :
    (guacCommonRectConstrain rect outer).Mem x y ↔ rect.Mem x y ∧ outer.Mem x y := by
  unfold guacCommonRectConstrain Rect.Mem
  dsimp only
  omega

theorem constrain_inRect (rect outer : Rect) :
    (guacCommonRectConstrain rect outer).InRect outer := by
  unfold guacCommonRectConstrain Rect.InRect
  dsimp only
  omega

/-- An expanded range contains the range, within the outer one. -/
theorem expandRange_mem {cellSize start length outerStart outerEnd : ℤ} (hcell : 0<cellSize)
    (hstart : outerStart ≤ start) (hend : start+length≤outerEnd) :
    (outerStart≤(expandRange cellSize start length outerStart outerEnd).1 ∧
      (expandRange cellSize start length outerStart outerEnd).1 ≤ start) ∧
      start+length≤(expandRange cellSize start length outerStart outerEnd).2 ∧
      (expandRange cellSize start length outerStart outerEnd).2≤outerEnd := by
  have hmissing : 0<cellSize-length.tmod cellSize := sub_pos.mpr (Int.tmod_lt_of_pos length hcell)
  have hhalf : 0≤(cellSize-length.tmod cellSize).tdiv 2 ∧
      (cellSize-length.tmod cellSize).tdiv 2≤cellSize-length.tmod cellSize := by
    rw [Int.tdiv_eq_ediv_of_nonneg hmissing.le]
    omega
  unfold expandRange
  dsimp only
  generalize cellSize-length.tmod cellSize=missing at *
  generalize missing.tdiv 2=half at *
  split_ifs
  · dsimp only
    omega
  · dsimp only
    omega
  · dsimp only
    omega

/-- A rectangle that is expanded to the grid within another has the pixels that it
had. -/
theorem mem_expandToGrid {cellSize : ℤ} (hcell : 0<cellSize) (h : rect.InRect outer)
    (hmem : rect.Mem x y) : (guacCommonRectExpandToGrid cellSize rect outer).Mem x y := by
  obtain ⟨⟨hleft,hright⟩,htop,hbottom⟩ := h
  obtain ⟨⟨hx,hx'⟩,hy,hy'⟩ := hmem
  obtain ⟨⟨-,hcolumn⟩,hcolumn',-⟩ := expandRange_mem hcell hleft hright
  obtain ⟨⟨-,hrow⟩,hrow',-⟩ := expandRange_mem hcell htop hbottom
  unfold guacCommonRectExpandToGrid Rect.Mem
  dsimp only
  omega

theorem expandToGrid_inRect {cellSize : ℤ} (hcell : 0<cellSize) (h : rect.InRect outer) :
    (guacCommonRectExpandToGrid cellSize rect outer).InRect outer := by
  obtain ⟨⟨hleft,hright⟩,htop,hbottom⟩ := h
  obtain ⟨⟨hcolumn,-⟩,-,hcolumn'⟩ := expandRange_mem hcell hleft hright
  obtain ⟨⟨hrow,-⟩,-,hrow'⟩ := expandRange_mem hcell htop hbottom
  unfold guacCommonRectExpandToGrid Rect.InRect
  dsimp only
  omega

/-- The length of a range that is expanded within another is that of the other or a number
of cells. -/
theorem expandRange_length (cellSize start length outerStart outerEnd : ℤ) :
    cellSize ∣ (expandRange cellSize start length outerStart outerEnd).2 -
        (expandRange cellSize start length outerStart outerEnd).1 ∨
      (expandRange cellSize start length outerStart outerEnd).2 -
        (expandRange cellSize start length outerStart outerEnd).1=outerEnd-outerStart := by
  have hcells : cellSize ∣ length+(cellSize-length.tmod cellSize) := by
    have hsum : length+(cellSize-length.tmod cellSize)=
        cellSize+(length-length.tmod cellSize) := by omega
    rw [hsum]
    exact Int.dvd_add (Int.dvd_refl cellSize) Int.dvd_self_sub_tmod
  have hlength : ∀ {first last : ℤ},
      last-first=length+(cellSize-length.tmod cellSize) → cellSize ∣ last-first :=
    fun h => h ▸ hcells
  unfold expandRange
  dsimp only
  generalize (cellSize-length.tmod cellSize).tdiv 2=half
  split_ifs with hlast hfirst
  -- a range that is shifted keeps its length unless it is cut off
  · rcases le_total outerStart (start-half -
      (start-half+length+(cellSize-length.tmod cellSize)-outerEnd)) with h | h
    · rw [max_eq_left h]
      exact Or.inl (hlength (by omega))
    · rw [max_eq_right h]
      exact Or.inr rfl
  · rcases le_total (start-half+length+(cellSize-length.tmod cellSize)+
      (outerStart-(start-half))) outerEnd with h | h
    · rw [min_eq_left h]
      exact Or.inl (hlength (by omega))
    · rw [min_eq_right h]
      exact Or.inr rfl
  · exact Or.inl (hlength (by omega))

/-- guac_common_rect_expand_to_grid with any cell size: what it returns, and the rectangle. -/
def guacCommonRectExpandToGridStatus (cellSize : ℤ) (rect outer : Rect) : ℤ×Rect :=
  if cellSize≤0 then (-1,rect)
  else if cellSize=1 then (0,rect)
  else (0,guacCommonRectExpandToGrid cellSize rect outer)

/-- A rectangle that is expanded to a grid contains the original one and is within the
maximum, and its width and its height are those of the maximum or a number of cells. -/
theorem expandToGrid_covers {cellSize : ℤ} (hcell : 1<cellSize) (h : rect.InRect outer) :
    ∃ expanded, guacCommonRectExpandToGridStatus cellSize rect outer=(0,expanded) ∧
      rect.InRect expanded ∧ expanded.InRect outer ∧
      (cellSize ∣ expanded.width ∨ expanded.width=outer.width) ∧
      (cellSize ∣ expanded.height ∨ expanded.height=outer.height) := by
  have hpos : 0<cellSize := zero_lt_one.trans hcell
  refine ⟨guacCommonRectExpandToGrid cellSize rect outer,?_,?_,expandToGrid_inRect hpos h,?_,?_⟩
  · rw [guacCommonRectExpandToGridStatus,if_neg hpos.not_ge,if_neg hcell.ne']
  · obtain ⟨⟨hleft,hright⟩,htop,hbottom⟩ := h
    obtain ⟨⟨-,hcolumn⟩,hcolumn',-⟩ := expandRange_mem hpos hleft hright
    obtain ⟨⟨-,hrow⟩,hrow',-⟩ := expandRange_mem hpos htop hbottom
    unfold guacCommonRectExpandToGrid Rect.InRect
    dsimp only
    omega
  · have hwidth := expandRange_length cellSize rect.x rect.width outer.x (outer.x+outer.width)
    rwa [add_sub_cancel_left] at hwidth
  · have hheight := expandRange_length cellSize rect.y rect.height outer.y (outer.y+outer.height)
    rwa [add_sub_cancel_left] at hheight

/-- A rectangle that is moved on in one dimension and cut off in the other. -/
theorem expandToGrid_covers_high :
    guacCommonRectExpandToGrid 16 ⟨80,3,30,17⟩ ⟨0,0,111,20⟩=⟨79,0,32,20⟩ ∧
      ∃ expanded, guacCommonRectExpandToGridStatus 16 ⟨80,3,30,17⟩ ⟨0,0,111,20⟩=
        (0,expanded) ∧ Rect.InRect ⟨80,3,30,17⟩ expanded ∧
        expanded.InRect ⟨0,0,111,20⟩ ∧
        ((16 : ℤ) ∣ expanded.width ∨ expanded.width=111) ∧
        ((16 : ℤ) ∣ expanded.height ∨ expanded.height=20) :=
  ⟨by decide,expandToGrid_covers (by decide) (by decide)⟩

/-! ## Extents of a change -/

/-- The pixels of a rectangle, as offsets from its first one, in the order of the
loops. -/
def offsets (width height : ℤ) : List (ℤ×ℤ) :=
  (List.range height.toNat).flatMap fun row : ℕ =>
    (List.range width.toNat).map fun column : ℕ => ((column : ℤ),(row : ℤ))

theorem mem_offsets {width height : ℤ} {offset : ℤ×ℤ} :
    offset∈offsets width height ↔ (0≤offset.1 ∧ offset.1<width) ∧ 0≤offset.2 ∧ offset.2<height := by
  unfold offsets
  constructor
  · intro h
    obtain ⟨row,hrow,hmem⟩ := mem_flatMap.mp h
    obtain ⟨column,hcolumn,rfl⟩ := mem_map.mp hmem
    rw [mem_range] at hrow hcolumn
    dsimp only
    omega
  · rintro ⟨⟨hx,hx'⟩,hy,hy'⟩
    refine mem_flatMap.mpr ⟨offset.2.toNat,mem_range.mpr (by omega),?_⟩
    refine mem_map.mpr ⟨offset.1.toNat,mem_range.mpr (by omega),?_⟩
    rw [Int.toNat_of_nonneg hx,Int.toNat_of_nonneg hy]

/-- The least and the greatest offsets of changed pixels. -/
structure Extents where
  minX : ℤ
  minY : ℤ
  maxX : ℤ
  maxY : ℤ

/-- A changed pixel is noted. -/
def Extents.note (extents : Extents) (offset : ℤ×ℤ) : Extents :=
  ⟨min extents.minX offset.1,min extents.minY offset.2,max extents.maxX offset.1,
    max extents.maxY offset.2⟩

/-- A pixel is noted if it was changed. -/
def Extents.noteIf (extents : Extents) (changed : Prop) [Decidable changed] (offset : ℤ×ℤ) :
    Extents :=
  if changed then extents.note offset else extents

/-- The extents of the changed pixels among some. -/
def Extents.noteAll (changed : ℤ×ℤ→Prop) [DecidablePred changed] (extents : Extents) :
    List (ℤ×ℤ)→Extents
  | [] => extents
  | offset::rest => Extents.noteAll changed (extents.noteIf (changed offset) offset) rest

/-- A rectangle is restricted to updated pixels. -/
def Rect.restrict (rect : Rect) (extents : Extents) : Rect :=
  if extents.maxX≥extents.minX ∧ extents.maxY≥extents.minY then
    ⟨rect.x+extents.minX,rect.y+extents.minY,extents.maxX-extents.minX+1,
      extents.maxY-extents.minY+1⟩
  else { rect with width := 0, height := 0 }

/-- An offset is within extents. -/
def Extents.Has (extents : Extents) (offset : ℤ×ℤ) : Prop :=
  (extents.minX≤offset.1 ∧ offset.1≤extents.maxX) ∧ extents.minY≤offset.2 ∧ offset.2≤extents.maxY

/-- Extents that start from no pixel or the first one, of a rectangle of a size. -/
def Extents.Fits (extents : Extents) (width height : ℤ) : Prop :=
  (0≤extents.minX ∧ extents.maxX<width) ∧ 0≤extents.minY ∧ extents.maxY<height

variable {extents : Extents} {offset : ℤ×ℤ} {width height : ℤ}

theorem Extents.has_note (extents : Extents) (offset : ℤ×ℤ) : (extents.note offset).Has offset := by
  unfold Extents.note Extents.Has
  dsimp only
  omega

theorem Extents.Has.note (h : extents.Has offset) (noted : ℤ×ℤ) :
    (extents.note noted).Has offset := by
  obtain ⟨⟨hx,hx'⟩,hy,hy'⟩ := h
  unfold Extents.note Extents.Has
  dsimp only
  omega

theorem Extents.Fits.note (h : extents.Fits width height) (hoffset : offset∈offsets width height) :
    (extents.note offset).Fits width height := by
  obtain ⟨⟨hx,hx'⟩,hy,hy'⟩ := mem_offsets.mp hoffset
  obtain ⟨⟨hminX,hmaxX⟩,hminY,hmaxY⟩ := h
  unfold Extents.note Extents.Fits
  dsimp only
  omega

variable {changed : Prop} [Decidable changed]

theorem Extents.has_noteIf (extents : Extents) (h : changed) (offset : ℤ×ℤ) :
    (extents.noteIf changed offset).Has offset := by
  unfold Extents.noteIf
  rw [if_pos h]
  exact extents.has_note offset

theorem Extents.Has.noteIf (h : extents.Has offset) (noted : ℤ×ℤ) :
    (extents.noteIf changed noted).Has offset := by
  unfold Extents.noteIf
  split
  · exact h.note noted
  · exact h

theorem Extents.Fits.noteIf (h : extents.Fits width height)
    (hoffset : offset∈offsets width height) :
    (extents.noteIf changed offset).Fits width height := by
  unfold Extents.noteIf
  split
  · exact h.note hoffset
  · exact h

theorem Extents.Has.noteAll (changed : ℤ×ℤ→Prop) [DecidablePred changed]
    (h : extents.Has offset) (noted : List (ℤ×ℤ)) :
    (extents.noteAll changed noted).Has offset := by
  induction noted generalizing extents with
  | nil => exact h
  | cons first rest ih => exact ih (h.noteIf first)

/-- The extents have each changed pixel. -/
theorem Extents.has_noteAll (changed : ℤ×ℤ→Prop) [DecidablePred changed] (extents : Extents)
    {noted : List (ℤ×ℤ)} (hnoted : offset∈noted) (hchanged : changed offset) :
    (extents.noteAll changed noted).Has offset := by
  induction noted generalizing extents with
  | nil => cases hnoted
  | cons first rest ih =>
    rw [Extents.noteAll]
    rcases mem_cons.mp hnoted with rfl | hrest
    · exact (extents.has_noteIf hchanged offset).noteAll changed rest
    · exact ih _ hrest

/-- Extents of all changes fit. -/
theorem Extents.Fits.noteAll (changed : ℤ×ℤ→Prop) [DecidablePred changed]
    (h : extents.Fits width height) {noted : List (ℤ×ℤ)}
    (hnoted : ∀ offset∈noted, offset∈offsets width height) :
    (extents.noteAll changed noted).Fits width height := by
  induction noted generalizing extents with
  | nil => exact h
  | cons first rest ih =>
    exact ih (h.noteIf (hnoted first mem_cons_self))
      fun offset hmem => hnoted offset (mem_cons_of_mem first hmem)

/-- A restricted rectangle has the pixels within the extents. -/
theorem mem_restrict (rect : Rect) (h : extents.Has offset) :
    (rect.restrict extents).Mem (rect.x+offset.1) (rect.y+offset.2) := by
  obtain ⟨⟨hx,hx'⟩,hy,hy'⟩ := h
  unfold Rect.restrict
  rw [if_pos (by omega)]
  unfold Rect.Mem
  dsimp only
  omega

/-- It is within the rectangle. -/
theorem restrict_inRect (h : rect.InRect outer) (hfits : extents.Fits rect.width rect.height)
    (hempty : ¬(rect.restrict extents).Empty) : (rect.restrict extents).InRect outer := by
  obtain ⟨⟨hleft,hright⟩,htop,hbottom⟩ := h
  obtain ⟨⟨hminX,hmaxX⟩,hminY,hmaxY⟩ := hfits
  unfold Rect.restrict at *
  split_ifs at*with hsome
  · unfold Rect.InRect
    dsimp only
    omega
  · exact absurd (Or.inl (le_refl (0 : ℤ))) hempty

end GuacServer.Surface
