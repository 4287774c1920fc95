import GuacServer.PointUpdates
import GuacServer.SurfaceCoverage

/-!
# Transfers between overlapping rectangles

The loops of __guac_common_surface_transfer replace one pixel after another. If
both surfaces are one, they go forwards where the destination is before the
source and backwards elsewhere, so that no pixel is read as source after it was
replaced: the pixels are transferred as if from a snapshot of both surfaces.
-/

namespace GuacServer.Surface

open Function List PointUpdates

/-! ## The order of the loops -/

/-- An offset is one that the loops go through before another. -/
def Precedes (earlier later : ℤ×ℤ) : Prop :=
  earlier.2<later.2 ∨ earlier.2=later.2 ∧ earlier.1<later.1

theorem pairwise_precedes_offsets (width height : ℤ) :
    (offsets width height).Pairwise Precedes := by
  unfold offsets
  refine pairwise_flatMap.mpr ⟨fun row _ => ?_,?_⟩
  · refine pairwise_map.mpr (pairwise_lt_range.imp fun hlt => ?_)
    exact Or.inr ⟨rfl,Int.ofNat_lt.mpr hlt⟩
  · refine pairwise_lt_range.imp fun hlt => ?_
    intro earlier hearlier later hlater
    obtain ⟨_,-,rfl⟩ := mem_map.mp hearlier
    obtain ⟨_,-,rfl⟩ := mem_map.mp hlater
    exact Or.inl (Int.ofNat_lt.mpr hlt)

section Order

variable {rect : Rect} {backwards : Bool} {earlier later : ℤ×ℤ}

theorem transferredOffset_ne (h : Precedes earlier later) :
    transferredOffset rect backwards earlier≠transferredOffset rect backwards later := by
  intro heq
  obtain ⟨hx,hy⟩ := Prod.ext_iff.mp heq
  unfold Precedes at h
  unfold transferredOffset at hx hy
  cases backwards
  · rw [if_neg Bool.false_ne_true,if_neg Bool.false_ne_true] at hx hy
    omega
  · rw [if_pos rfl,if_pos rfl] at hx hy
    dsimp only at hx hy
    omega

/-- On one surface, no pixel is read as source after it was replaced: forwards, a
replaced pixel is before all that are still read, and backwards it is after them. -/
theorem source_ne_replaced {sx sy : ℤ} (h : Precedes earlier later) :
    (sx+(transferredOffset rect (transfersBackwards true sx sy rect) later).1,
      sy+(transferredOffset rect (transfersBackwards true sx sy rect) later).2)≠
    (rect.x+(transferredOffset rect (transfersBackwards true sx sy rect) earlier).1,
      rect.y+(transferredOffset rect (transfersBackwards true sx sy rect) earlier).2) := by
  intro heq
  obtain ⟨hx,hy⟩ := Prod.mk.inj heq
  unfold Precedes at h
  by_cases hbefore : rect.y<sy ∨ rect.y=sy ∧ rect.x<sx
  · have hforwards : transfersBackwards true sx sy rect=false := by
      rw [transfersBackwards,decide_eq_true hbefore]
      rfl
    rw [hforwards] at hx hy
    simp only [transferredOffset,Bool.false_eq_true,if_false] at hx hy
    omega
  · have hbackwards : transfersBackwards true sx sy rect=true := by
      rw [transfersBackwards,decide_eq_false hbefore]
      rfl
    rw [hbackwards] at hx hy
    simp only [transferredOffset,if_true] at hx hy
    omega

end Order

/-! ## Transfers as updates of single pixels -/

/-- The pixels of an area as the contents of cells. -/
def contents (pixels : Pixels) : ℤ×ℤ→Pixel := fun position => pixels position.1 position.2

/-- The transfer of the pixel at a position in the rectangle. -/
def transferAt (op : TransferFunction) (same : Bool) (src : Pixels) (sx sy : ℤ) (rect : Rect)
    (position : ℤ×ℤ) : Update (ℤ×ℤ) Pixel where
  target := (rect.x+position.1,rect.y+position.2)
  value content := guacCommonSurfaceTransferInt op
    ((if same then content else contents src) (sx+position.1,sy+position.2))
    (content (rect.x+position.1,rect.y+position.2))

section Transfer

variable (op : TransferFunction) (same : Bool) (src dst : Pixels) (sx sy : ℤ) (rect : Rect)

theorem contents_setPixel (pixels : Pixels) (x y : ℤ) (color : Pixel) :
    contents (setPixel pixels x y color)=update (contents pixels) (x,y) color := by
  funext position
  unfold contents setPixel
  by_cases hat : position=(x,y)
  · subst hat
    rw [if_pos ⟨rfl,rfl⟩,update_self]
  · rw [if_neg fun h => hat (Prod.ext h.1 h.2),update_of_ne hat]

/-- The loops make the updates one after another. -/
theorem contents_transferPixels (backwards : Bool) (remaining : List (ℤ×ℤ)) (extents : Extents) :
    contents (transferPixels op (fun dst => if same then dst else src) sx sy rect backwards
      remaining dst extents).1=
    runAll (remaining.map fun offset =>
      transferAt op same src sx sy rect (transferredOffset rect backwards offset))
      (contents dst) := by
  induction remaining generalizing dst extents with
  | nil => rfl
  | cons offset rest ih =>
    rw [transferPixels,ih,contents_setPixel,map_cons]
    cases same
    · rfl
    · rfl

/-- A pixel elsewhere is not read or changed. -/
theorem ignores_transferAt {position : ℤ×ℤ} {cell : ℤ×ℤ}
    (htarget : (rect.x+position.1,rect.y+position.2)≠cell)
    (hsource : same=true→(sx+position.1,sy+position.2)≠cell) :
    (transferAt op same src sx sy rect position).Ignores cell := by
  intro content replaced
  unfold transferAt
  dsimp only
  rw [update_of_ne htarget]
  cases same
  · rfl
  · rw [if_pos rfl,if_pos rfl,update_of_ne (hsource rfl)]

/-- The order of the loops makes the updates independent. -/
theorem independent_transfer : Independent ((offsets rect.width rect.height).map fun offset =>
    transferAt op same src sx sy rect
      (transferredOffset rect (transfersBackwards same sx sy rect) offset)) := by
  refine pairwise_map.mpr ((pairwise_precedes_offsets rect.width rect.height).imp ?_)
  intro earlier later hprecedes
  have hdistinct : ∀ {backwards : Bool}, (rect.x+(transferredOffset rect backwards later).1,
        rect.y+(transferredOffset rect backwards later).2)≠
      (rect.x+(transferredOffset rect backwards earlier).1,
        rect.y+(transferredOffset rect backwards earlier).2) := by
    intro backwards heq
    obtain ⟨hx,hy⟩ := Prod.mk.inj heq
    exact transferredOffset_ne hprecedes
      (Prod.ext (add_left_cancel hx.symm) (add_left_cancel hy.symm))
  refine ⟨hdistinct.symm,ignores_transferAt op same src sx sy rect hdistinct fun hsame => ?_⟩
  subst hsame
  exact source_ne_replaced hprecedes

/-- A pixel of the rectangle is one that the loops go through. -/
theorem exists_offset (backwards : Bool) {x y : ℤ} (h : rect.Mem x y) :
    ∃ offset∈offsets rect.width rect.height,
      transferredOffset rect backwards offset=(x-rect.x,y-rect.y) := by
  obtain ⟨⟨hx,hx'⟩,hy,hy'⟩ := h
  cases backwards
  · exact ⟨(x-rect.x,y-rect.y),mem_offsets.mpr ⟨by dsimp only; omega,by dsimp only; omega⟩,
      if_neg Bool.false_ne_true⟩
  · refine ⟨(rect.width-1-(x-rect.x),rect.height-1-(y-rect.y)),
      mem_offsets.mpr ⟨by dsimp only; omega,by dsimp only; omega⟩,?_⟩
    rw [transferredOffset,if_pos rfl,sub_sub_cancel,sub_sub_cancel]

/-- Each pixel of the destination is computed from those before the transfer. -/
theorem commonSurfaceTransfer_apply {x y : ℤ} (h : rect.Mem x y) :
    (commonSurfaceTransfer op same src sx sy dst rect).1 x y=guacCommonSurfaceTransferInt op
        ((if same then dst else src) (sx+(x-rect.x)) (sy+(y-rect.y))) (dst x y) := by
  obtain ⟨offset,hoffset,hposition⟩ := exists_offset rect (transfersBackwards same sx sy rect) h
  have hrun := runAll_target (independent_transfer op same src sx sy rect)
    (mem_map.mpr ⟨offset,hoffset,rfl⟩) (contents dst)
  rw [←contents_transferPixels op same src dst sx sy rect _ _
    ⟨rect.width-1,rect.height-1,0,0⟩,hposition] at hrun
  unfold transferAt at hrun
  dsimp only at hrun
  rw [add_sub_cancel,add_sub_cancel] at hrun
  cases same
  · exact hrun
  · exact hrun

end Transfer

/-! ## A transfer between surfaces -/

/-- What __guac_common_surface_transfer leaves: the pixels of the destination, the
rectangle of those that were updated, and the corner of the source rectangle. -/
structure Transferred where
  pixels : Pixels
  rect : Rect
  sx : ℤ
  sy : ℤ

/-- __guac_common_surface_transfer between two surfaces, which may be one. -/
def transferredBetween (op : TransferFunction) (surfaces : Surfaces) (src sx sy dst : ℤ)
    (rect : Rect) : Transferred :=
  let result := commonSurfaceTransfer op (decide (src=dst)) (surfaces.surface src).buffer sx sy
    (surfaces.surface dst).buffer rect
  { pixels := result.1
    rect := result.2
    sx := sx+(result.2.x-rect.x)
    sy := sy+(result.2.y-rect.y) }

/-- A transfer acts on a snapshot of both surfaces, whether or not they are one and
the rectangles overlap. What it changed is within the rectangle that it leaves. -/
theorem transferredBetween_snapshot (op : TransferFunction) (surfaces : Surfaces)
    (src sx sy dst : ℤ) (rect : Rect) :
    (∀ x y, rect.Mem x y→(transferredBetween op surfaces src sx sy dst rect).pixels x y=
      guacCommonSurfaceTransferInt op
        ((surfaces.surface src).buffer (sx+(x-rect.x)) (sy+(y-rect.y)))
        ((surfaces.surface dst).buffer x y)) ∧
    (∀ x y, ¬rect.Mem x y→(transferredBetween op surfaces src sx sy dst rect).pixels x y=
      (surfaces.surface dst).buffer x y) ∧
    (∀ x y, (transferredBetween op surfaces src sx sy dst rect).pixels x y≠
        (surfaces.surface dst).buffer x y →
      (transferredBetween op surfaces src sx sy dst rect).rect.Mem x y) ∧
    (transferredBetween op surfaces src sx sy dst rect).sx-sx=
      (transferredBetween op surfaces src sx sy dst rect).rect.x-rect.x ∧
    (transferredBetween op surfaces src sx sy dst rect).sy-sy=
      (transferredBetween op surfaces src sx sy dst rect).rect.y-rect.y := by
  refine ⟨fun x y hmem => ?_,fun x y hout => ?_,fun x y hchanged => ?_,
    add_sub_cancel_left _ _,add_sub_cancel_left _ _⟩
  · have happly := commonSurfaceTransfer_apply op (decide (src=dst))
      (surfaces.surface src).buffer (surfaces.surface dst).buffer sx sy rect hmem
    unfold transferredBetween
    dsimp only
    rw [happly]
    by_cases hsame : src=dst
    · subst hsame
      rw [ite_self]
    · rw [decide_eq_false hsame,if_neg Bool.false_ne_true]
  · by_contra hchanged
    exact hout (commonSurfaceTransfer_mem hchanged).1
  · exact (commonSurfaceTransfer_mem hchanged).2

end GuacServer.Surface
