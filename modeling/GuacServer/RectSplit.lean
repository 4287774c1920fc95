import GuacServer.Peeling
import GuacServer.SurfaceRect

/-!
# Rectangles split around a hole

guac_common_rect_clip_and_split of common/rect.c. Each call splits off what lies on one side
of the hole, in a fixed order of the sides, until nothing of the rectangle is outside of the
hole. Rectangles that only touch count as intersecting, so that what is left may be empty.
-/

namespace GuacServer.Surface

open Peeling

/-- The pixels of a rectangle. -/
def Rect.pixels (rect : Rect) : Set (ℤ×ℤ) := {pixel | rect.Mem pixel.1 pixel.2}

/-- The sizes are not negative. -/
def Rect.Sized (rect : Rect) : Prop := 0≤rect.width ∧ 0≤rect.height

instance (rect : Rect) : Decidable rect.Sized := inferInstanceAs (Decidable (_ ∧ _))

/-- guac_common_rect_init with the edges of a rectangle. -/
def Rect.ofEdges (left top right bottom : ℤ) : Rect := ⟨left,top,right-left,bottom-top⟩

/-- guac_common_rect_intersects: zero for rectangles that do not even touch, two for one that
is in the other, and one otherwise. -/
def guacCommonRectIntersects (rect other : Rect) : ℤ :=
  if other.x+other.width<rect.x ∨ rect.x+rect.width<other.x ∨
      other.y+other.height<rect.y ∨ rect.y+rect.height<other.y then 0
  else if other.x≤rect.x ∧ other.x+other.width≥rect.x+rect.width ∧
      other.y≤rect.y ∧ other.y+other.height≥rect.y+rect.height then 2
  else 1

/-- guac_common_rect_clip_and_split: the rectangle that is split off and the one that is left,
unless zero is returned. -/
def guacCommonRectClipAndSplit (hole rect : Rect) : Option (Rect×Rect) :=
  let right := rect.x+rect.width
  let bottom := rect.y+rect.height
  if guacCommonRectIntersects rect hole=0 then none
  -- top
  else if rect.y<hole.y then
    some (Rect.ofEdges rect.x rect.y right hole.y,Rect.ofEdges rect.x hole.y right bottom)
  -- left
  else if rect.x<hole.x then
    some (Rect.ofEdges rect.x rect.y hole.x bottom,Rect.ofEdges hole.x rect.y right bottom)
  -- bottom
  else if bottom > hole.y+hole.height then
    some (Rect.ofEdges rect.x (hole.y+hole.height) right bottom,
      Rect.ofEdges rect.x rect.y right (hole.y+hole.height))
  -- right
  else if right > hole.x+hole.width then
    some (Rect.ofEdges (hole.x+hole.width) rect.y right bottom,
      Rect.ofEdges rect.x rect.y (hole.x+hole.width) bottom)
  else none

/-- The number of sides on which a rectangle extends over the hole. -/
def sidesOutside (hole rect : Rect) : ℕ :=
  (if rect.y<hole.y then 1 else 0)+(if rect.x<hole.x then 1 else 0)+
    (if rect.y+rect.height > hole.y+hole.height then 1 else 0)+
    (if rect.x+rect.width > hole.x+hole.width then 1 else 0)

/-- What a call splits off and leaves: two rectangles without a common pixel that have the
pixels of the one that was split, the first of them outside of the hole. -/
structure Splits (hole rect piece rest : Rect) : Prop where
  sized : rest.Sized
  sides : sidesOutside hole rest<sidesOutside hole rect
  covers : ∀ x y, rect.Mem x y ↔ piece.Mem x y ∨ rest.Mem x y
  disjoint : ∀ x y, piece.Mem x y→¬rest.Mem x y
  outside : ∀ x y, piece.Mem x y→¬hole.Mem x y

variable {hole rect piece rest : Rect}

/-- Rectangles that touch extend at least to each other. -/
theorem touches_of_intersects (h : guacCommonRectIntersects rect hole≠0) :
    (rect.x≤hole.x+hole.width ∧ hole.x≤rect.x+rect.width) ∧
      rect.y≤hole.y+hole.height ∧ hole.y≤rect.y+rect.height := by
  unfold guacCommonRectIntersects at h
  split_ifs at h with hapart
  · exact absurd rfl h
  all_goals omega

/-- Rectangles that do not touch have no common pixel. -/
theorem not_mem_of_apart (h : guacCommonRectIntersects rect hole=0) {x y : ℤ}
    (hmem : rect.Mem x y) : ¬hole.Mem x y := by
  obtain ⟨⟨hx,hx'⟩,hy,hy'⟩ := hmem
  rintro ⟨⟨hhx,hhx'⟩,hhy,hhy'⟩
  unfold guacCommonRectIntersects at h
  rw [if_neg (by omega)] at h
  split_ifs at h <;> cases h

theorem splits_of_clipAndSplit (hsized : rect.Sized)
    (h : guacCommonRectClipAndSplit hole rect=some (piece,rest)) :
    Splits hole rect piece rest := by
  obtain ⟨hwidth,hheight⟩ := hsized
  unfold guacCommonRectClipAndSplit at h
  dsimp only at h
  split_ifs at h with hapart htop hleft hbottom hright
  all_goals
    cases h
    obtain ⟨⟨hx,hx'⟩,hy,hy'⟩ := touches_of_intersects hapart
    constructor
    · unfold Rect.Sized Rect.ofEdges
      dsimp only
      omega
    · unfold sidesOutside Rect.ofEdges
      dsimp only
      split_ifs <;> omega
    · intro x y
      unfold Rect.Mem Rect.ofEdges
      dsimp only
      omega
    · intro x y
      unfold Rect.Mem Rect.ofEdges
      dsimp only
      omega
    · intro x y
      unfold Rect.Mem Rect.ofEdges
      dsimp only
      omega

/-- Nothing is split off a rectangle that is in the hole, or away from it. -/
theorem inRect_of_not_clipAndSplit (h : guacCommonRectClipAndSplit hole rect=none) :
    rect.InRect hole ∨ Disjoint rect.pixels hole.pixels := by
  unfold guacCommonRectClipAndSplit at h
  dsimp only at h
  split_ifs at h with hapart htop hleft hbottom hright
  · exact Or.inr (Set.disjoint_left.mpr fun _ hmem => not_mem_of_apart hapart hmem)
  · refine Or.inl ?_
    unfold Rect.InRect
    omega

theorem Splits.pixels (h : Splits hole rect piece rest) :
    Disjoint piece.pixels rest.pixels ∧ piece.pixels ∪ rest.pixels=rect.pixels :=
  ⟨Set.disjoint_left.mpr fun pixel hmem => h.disjoint pixel.1 pixel.2 hmem,
    Set.ext fun pixel => (h.covers pixel.1 pixel.2).symm⟩

/-- A rectangle is split around a hole: the pieces and what is left divide its pixels, the
pieces are outside of the hole, and what is left is in the hole or away from it. -/
structure SplitAround (hole rect : Rect) (pieces : List Rect) (last : Rect) : Prop where
  divides : Divides (pieces.map Rect.pixels++[last.pixels]) rect.pixels
  outside : ∀ piece∈pieces, Disjoint piece.pixels hole.pixels
  rest : last.InRect hole ∨ Disjoint last.pixels hole.pixels

/-- After at most four calls nothing more is split off, and the rectangle is split around the
hole. -/
theorem clipAndSplit_splitAround (rect hole : Rect) (hrect : rect.Sized) : ∃ pieces last,
      (∀ fuel, 4≤fuel → peel (guacCommonRectClipAndSplit hole) fuel rect=some (pieces,last)) ∧
      SplitAround hole rect pieces last := by
  have htotal : ∃ result, ∀ fuel, sidesOutside hole rect≤fuel →
      peel (guacCommonRectClipAndSplit hole) fuel rect=some result :=
    peel_total (I := Rect.Sized) (sidesOutside hole)
      (fun hsized hsplit => ⟨(splits_of_clipAndSplit hsized hsplit).sized,
        (splits_of_clipAndSplit hsized hsplit).sides⟩) hrect
  obtain ⟨⟨pieces,last⟩,hpeel⟩ := htotal
  have hsides : sidesOutside hole rect≤4 := by
    unfold sidesOutside
    split_ifs <;> omega
  have hfour := hpeel 4 hsides
  have hparts := peel_parts (I := Rect.Sized) (P := fun piece => Disjoint piece.pixels hole.pixels)
    (fun hsized hsplit =>
      have hsplits := splits_of_clipAndSplit hsized hsplit
      ⟨hsplits.sized,Set.disjoint_left.mpr fun pixel hmem => hsplits.outside pixel.1 pixel.2 hmem⟩)
    (fun _ => inRect_of_not_clipAndSplit) hrect hfour
  have hdivides := peel_divides (I := Rect.Sized) (fun hsized hsplit =>
      have hsplits := splits_of_clipAndSplit hsized hsplit
      ⟨hsplits.sized,hsplits.pixels⟩) hrect hfour
  exact ⟨pieces,last,fun fuel hfuel => hpeel fuel (hsides.trans hfuel),hdivides,hparts.1,hparts.2⟩

/-- A hole in the middle leaves a piece on each side. -/
theorem clipAndSplit_splitAround_middle : SplitAround ⟨10,10,10,10⟩ ⟨0,0,30,30⟩
      [⟨0,0,30,10⟩,⟨0,10,10,20⟩,⟨10,20,20,10⟩,⟨20,10,10,10⟩]
      ⟨10,10,10,10⟩ := by
  obtain ⟨pieces,last,hpeel,hsplit⟩ :=
    clipAndSplit_splitAround ⟨0,0,30,30⟩ ⟨10,10,10,10⟩ (by decide)
  have hrun : peel (guacCommonRectClipAndSplit ⟨10,10,10,10⟩) 4 ⟨0,0,30,30⟩=
      some ([⟨0,0,30,10⟩,⟨0,10,10,20⟩,⟨10,20,20,10⟩,⟨20,10,10,10⟩],⟨10,10,10,10⟩) := by
    decide
  cases (hpeel 4 le_rfl).symm.trans hrun
  exact hsplit

end GuacServer.Surface
