import GuacServer.StateRuns
import GuacServer.SurfaceDrawing

/-!
# What changed is pending

A pixel that is not what was last sent is in the dirty rectangle or in one that
is queued. Operations keep this by marking the rectangle that they change, or
sending it; a resize makes the pixels that it keeps opaque and marks nothing.
-/

namespace GuacServer.Surface

open StateRuns

variable {surface : CommonSurface} {rect outer : Rect} {x y : ℤ}

/-! ## Rectangles that were changed -/

theorem updatedRect_mem {before after : Pixels} (extents : Extents)
    (houtside : ¬rect.Mem x y → after x y=before x y) (hchanged : after x y≠before x y) :
    (updatedRect rect before after extents).Mem x y := by
  have hmem : rect.Mem x y := by
    by_contra hnot
    exact hchanged (houtside hnot)
  obtain ⟨⟨hx,hx'⟩,hy,hy'⟩ := hmem
  have hoffset : (x-rect.x,y-rect.y)∈offsets rect.width rect.height :=
    mem_offsets.mpr ⟨⟨by omega,by omega⟩,by omega,by omega⟩
  have hnoted : after (rect.x+(x-rect.x)) (rect.y+(y-rect.y))≠
      before (rect.x+(x-rect.x)) (rect.y+(y-rect.y)) := by
    rw [add_sub_cancel,add_sub_cancel]
    exact hchanged
  have hhas := mem_restrict rect (extents.has_noteAll (fun offset =>
    after (rect.x+offset.1) (rect.y+offset.2)≠
      before (rect.x+offset.1) (rect.y+offset.2)) hoffset hnoted)
  rw [add_sub_cancel,add_sub_cancel] at hhas
  exact hhas

/-- What was updated is within the outer rectangle. -/
theorem updatedRect_inRect {before after : Pixels} {extents : Extents} (h : rect.InRect outer)
    (hfits : extents.Fits rect.width rect.height)
    (hempty : ¬(updatedRect rect before after extents).Empty) :
    (updatedRect rect before after extents).InRect outer :=
  restrict_inRect h (hfits.noteAll _ fun _ hmem => hmem) hempty

section Transfer

variable {op : TransferFunction} {source : Pixels→Pixels} {sx sy : ℤ} {backwards : Bool}

theorem transferPixels_has {noted : ℤ×ℤ} (remaining : List (ℤ×ℤ)) (dst : Pixels)
    {extents : Extents} (h : extents.Has noted) :
    (transferPixels op source sx sy rect backwards remaining dst extents).2.Has noted := by
  induction remaining generalizing dst extents with
  | nil => exact h
  | cons offset rest ih => exact ih _ (h.noteIf offset)

/-- A pixel that the loops changed is one of those they went through, and noted. -/
theorem transferPixels_changed (remaining : List (ℤ×ℤ)) (dst : Pixels) (extents : Extents)
    (hchanged : (transferPixels op source sx sy rect backwards remaining dst extents).1 x y≠
      dst x y) :
    ∃ offset∈remaining, (x=rect.x+(transferredOffset rect backwards offset).1 ∧
        y=rect.y+(transferredOffset rect backwards offset).2) ∧
      (transferPixels op source sx sy rect backwards remaining dst extents).2.Has offset := by
  induction remaining generalizing dst extents with
  | nil => exact absurd rfl hchanged
  | cons offset rest ih =>
    rw [transferPixels] at hchanged ⊢
    generalize hposition : transferredOffset rect backwards offset=position at hchanged ⊢
    generalize guacCommonSurfaceTransferInt op (source dst (sx+position.1) (sy+position.2))
      (dst (rect.x+position.1) (rect.y+position.2))=color at hchanged ⊢
    by_cases hhere : setPixel dst (rect.x+position.1) (rect.y+position.2) color x y=dst x y
    · rw [←hhere] at hchanged
      obtain ⟨found,hfound,hrest⟩ := ih _ _ hchanged
      exact ⟨found,List.mem_cons_of_mem offset hfound,hrest⟩
    · unfold setPixel at hhere
      split_ifs at hhere with hat
      · obtain ⟨rfl,rfl⟩ := hat
        rw [←hposition] at hhere ⊢
        exact ⟨offset,List.mem_cons_self,⟨rfl,rfl⟩,
          transferPixels_has rest _ (extents.has_noteIf hhere offset)⟩
      · exact absurd rfl hhere

/-- The extents of what is transferred fit. -/
theorem transferPixels_fits (op : TransferFunction) (source : Pixels→Pixels) (sx sy : ℤ)
    (backwards : Bool) {remaining : List (ℤ×ℤ)} (dst : Pixels) {extents : Extents}
    (hremaining : ∀ offset∈remaining, offset∈offsets rect.width rect.height)
    (h : extents.Fits rect.width rect.height) :
    (transferPixels op source sx sy rect backwards remaining dst extents).2.Fits rect.width
      rect.height := by
  induction remaining generalizing dst extents with
  | nil => exact h
  | cons offset rest ih =>
    exact ih _ (fun offset' hmem => hremaining offset' (List.mem_cons_of_mem offset hmem))
      (h.noteIf (hremaining offset List.mem_cons_self))

end Transfer

/-- The rectangle that is left of a transfer has the pixels that it changed. -/
theorem commonSurfaceTransfer_mem {op : TransferFunction} {same : Bool} {src dst : Pixels}
    {sx sy : ℤ} (hchanged : (commonSurfaceTransfer op same src sx sy dst rect).1 x y≠dst x y) :
    rect.Mem x y ∧ (commonSurfaceTransfer op same src sx sy dst rect).2.Mem x y := by
  unfold commonSurfaceTransfer at hchanged ⊢
  dsimp only at hchanged ⊢
  generalize transfersBackwards same sx sy rect=backwards at hchanged ⊢
  obtain ⟨offset,hoffset,⟨hx,hy⟩,hhas⟩ := transferPixels_changed _ _ _ hchanged
  obtain ⟨⟨h0,h1⟩,h2,h3⟩ := mem_offsets.mp hoffset
  generalize (transferPixels op (fun dst => if same then dst else src) sx sy rect backwards
    (offsets rect.width rect.height) dst ⟨rect.width-1,rect.height-1,0,0⟩).2=extents
    at hhas ⊢
  have hnoted : (if backwards then extents.reverse rect else extents).Has
      (transferredOffset rect backwards offset) := by
    obtain ⟨⟨hminX,hmaxX⟩,hminY,hmaxY⟩ := hhas
    unfold transferredOffset
    cases backwards
    · exact ⟨⟨hminX,hmaxX⟩,hminY,hmaxY⟩
    · rw [if_pos rfl,if_pos rfl]
      unfold Extents.Has Extents.reverse
      dsimp only
      omega
  constructor
  · unfold Rect.Mem
    unfold transferredOffset at hx hy
    cases backwards
    · rw [if_neg Bool.false_ne_true] at hx hy
      omega
    · rw [if_pos rfl] at hx hy
      dsimp only at hx hy
      omega
  · rw [hx,hy]
    exact mem_restrict rect hnoted

/-- It is within what the rectangle is within. -/
theorem commonSurfaceTransfer_inRect {op : TransferFunction} {same : Bool} {src dst : Pixels}
    {sx sy : ℤ} (h : rect.InRect outer) (hsome : ¬rect.Empty)
    (hempty : ¬(commonSurfaceTransfer op same src sx sy dst rect).2.Empty) :
    (commonSurfaceTransfer op same src sx sy dst rect).2.InRect outer := by
  unfold commonSurfaceTransfer at hempty ⊢
  dsimp only at hempty ⊢
  unfold Rect.Empty at hsome
  have hfits : Extents.Fits ⟨rect.width-1,rect.height-1,0,0⟩ rect.width rect.height :=
    ⟨⟨by dsimp only; omega,by dsimp only; omega⟩,by dsimp only; omega,by dsimp only; omega⟩
  refine restrict_inRect h ?_ hempty
  obtain ⟨⟨hminX,hmaxX⟩,hminY,hmaxY⟩ := transferPixels_fits op
    (fun dst => if same then dst else src) sx sy (transfersBackwards same sx sy rect) dst
    (fun offset (hmem : offset∈offsets rect.width rect.height) => hmem) hfits
  split
  · unfold Extents.reverse Extents.Fits
    dsimp only
    omega
  · exact ⟨⟨hminX,hmaxX⟩,hminY,hmaxY⟩

/-! ## Coverage -/

/-- The pixel of a surface is not the one that was last sent. -/
def CommonSurface.Changed (surface : CommonSurface) (x y : ℤ) : Prop :=
  surface.bounds.Mem x y ∧ surface.buffer x y≠surface.lastSent x y

/-- A surface on which what changed is pending, except in a rectangle. -/
structure CoveredBut (exempt : Rect) (surface : CommonSurface) : Prop where
  covered : ∀ x y, surface.Changed x y → surface.Pending x y ∨ exempt.Mem x y
  inside : surface.DirtyInside
  clip : surface.clipped=true → surface.clipRect.InRect surface.bounds
  length : surface.bitmapQueue.length<queueSize
  bounded : surface.bounded=true

/-- A rectangle without pixels. -/
def Rect.nothing : Rect := ⟨0,0,0,0⟩

theorem Rect.not_mem_nothing (x y : ℤ) : ¬Rect.nothing.Mem x y := fun h =>
  h.not_empty (Or.inl le_rfl)

/-- A surface on which what changed is pending. -/
def Covered (surface : CommonSurface) : Prop := CoveredBut Rect.nothing surface

theorem Covered.pending (h : Covered surface) (hchanged : surface.Changed x y) :
    surface.Pending x y := (h.covered x y hchanged).resolve_right (Rect.not_mem_nothing x y)

variable {exempt : Rect}

/-- What is drawn to is on the surface. -/
theorem clipRect_inRect (h : CoveredBut exempt surface) (rect : Rect) :
    (guacCommonClipRect surface rect).InRect surface.bounds := by
  unfold guacCommonClipRect
  split
  · rename_i hclipped
    obtain ⟨⟨hleft,hright⟩,htop,hbottom⟩ := h.clip hclipped
    obtain ⟨⟨hleft',hright'⟩,htop',hbottom'⟩ := constrain_inRect rect surface.clipRect
    exact ⟨⟨by omega,by omega⟩,by omega,by omega⟩
  · exact boundRect_inRect surface rect

/-- Pixels of a rectangle are changed, which is then exempt. -/
theorem Covered.change (h : Covered surface) {buffer : Pixels}
    (hchanged : ∀ x y, buffer x y≠surface.buffer x y → rect.Mem x y) :
    CoveredBut rect { surface with buffer := buffer } := by
  refine ⟨fun x y hnow => ?_,h.inside,h.clip,h.length,h.bounded⟩
  by_cases hsame : buffer x y=surface.buffer x y
  · refine Or.inl (h.pending ⟨hnow.1,?_⟩)
    rw [←hsame]
    exact hnow.2
  · exact Or.inr (hchanged x y hsame)

theorem pending_markDirty (surface : CommonSurface) (rect : Rect)
    (h : surface.Pending x y ∨ rect.Mem x y) : (guacCommonMarkDirty surface rect).Pending x y := by
  have hqueue : (guacCommonMarkDirty surface rect).bitmapQueue=surface.bitmapQueue := by
    unfold guacCommonMarkDirty
    split_ifs <;> rfl
  unfold CommonSurface.Pending
  rw [hqueue]
  rcases h with (hdirty | hqueued) | hmem
  · exact Or.inl (dirty_markDirty surface (Or.inl hdirty))
  · exact Or.inr hqueued
  · exact Or.inl (dirty_markDirty surface (Or.inr hmem))

/-- A rectangle that is marked is pending. -/
theorem CoveredBut.markDirty (h : CoveredBut rect surface) (hinside : rect.InRect surface.bounds)
    (hsome : ¬rect.Empty) : Covered (guacCommonMarkDirty surface rect) := by
  have hmarked := h.inside.markDirty hinside
  have hpending : ∀ x y, surface.Pending x y ∨ rect.Mem x y →
      (guacCommonMarkDirty surface rect).Pending x y := fun x y => pending_markDirty surface rect
  rw [markDirty_eq surface rect hsome] at hmarked hpending ⊢
  exact ⟨fun x y hchanged => Or.inl (hpending x y (h.covered x y hchanged)),hmarked,h.clip,
    h.length,h.bounded⟩

/-- A flush leaves nothing pending, and only what was exempt changed. -/
theorem CoveredBut.flush (h : CoveredBut exempt surface) (supportsWebp : Bool) :
    CoveredBut exempt (commonSurfaceFlush supportsWebp surface) ∧
      ∀ x y, (commonSurfaceFlush supportsWebp surface).Changed x y →
        surface.Changed x y ∧ ¬surface.Pending x y := by
  obtain ⟨hsends,⟨hclean,hqueue⟩,hsent⟩ :=
    commonSurfaceFlush_pending supportsWebp h.bounded h.length
  have hchanged : ∀ x y, (commonSurfaceFlush supportsWebp surface).Changed x y →
      surface.Changed x y ∧ ¬surface.Pending x y := by
    rintro x y ⟨hbounds,hdiffers⟩
    rw [hsends.keeps.bounds] at hbounds
    rw [hsends.keeps.buffer] at hdiffers
    refine ⟨⟨hbounds,fun hsame => ?_⟩,fun hpending => hdiffers (hsent x y hbounds hpending).symm⟩
    rcases hsends.lastSent x y with hkept | hnow
    · exact hdiffers (hsame.trans hkept.symm)
    · exact hdiffers hnow.symm
  refine ⟨⟨fun x y hnow => ?_,fun hdirty => ?_,fun hclipped => ?_,?_,?_⟩,hchanged⟩
  · obtain ⟨hbefore,hpending⟩ := hchanged x y hnow
    exact Or.inr ((h.covered x y hbefore).resolve_left hpending)
  · rw [hclean] at hdirty
    cases hdirty
  · rw [hsends.keeps.bounds,hsends.keeps.clipRect]
    rw [hsends.keeps.clipped] at hclipped
    exact h.clip hclipped
  · rw [hqueue]
    decide
  · exact hsends.bounded.trans h.bounded

/-- Queueing what is dirty keeps what is pending. -/
theorem CoveredBut.flushDeferred (h : CoveredBut exempt surface) (supportsWebp : Bool) :
    CoveredBut exempt (guacCommonSurfaceFlushDeferred supportsWebp surface) := by
  unfold guacCommonSurfaceFlushDeferred
  split
  · split
    · have hflushed := (h.flush supportsWebp).1
      obtain ⟨-,⟨hclean,-⟩,-⟩ := commonSurfaceFlush_pending supportsWebp h.bounded h.length
      unfold guacCommonSurfaceFlushToQueue
      rw [if_neg (by rw [hclean]; exact Bool.false_ne_true)]
      exact hflushed
    · rename_i hdirty hlength
      have hroom := bounded_flushToQueue h.bounded h.length
      have hqueued := queued_flushToQueue surface
      unfold guacCommonSurfaceFlushToQueue at hroom hqueued ⊢
      rw [if_pos hdirty] at hroom hqueued ⊢
      refine ⟨fun x y hchanged => ?_,fun hfalse => Bool.noConfusion hfalse,h.clip,?_,hroom⟩
      · exact (h.covered x y hchanged).imp_left fun hpending => Or.inr ((hqueued x y).mpr hpending)
      · have hless := h.length
        dsimp only
        rw [List.length_append,List.length_singleton]
        unfold queueSize at *
        omega
  · exact h

theorem CoveredBut.flush_keeps (h : CoveredBut exempt surface) (supportsWebp : Bool) :
    KeepsPixels surface (commonSurfaceFlush supportsWebp surface) :=
  (commonSurfaceFlush_pending supportsWebp h.bounded h.length).1.keeps

theorem flushToQueue_keeps (surface : CommonSurface) :
    KeepsPixels surface (guacCommonSurfaceFlushToQueue surface) := by
  obtain ⟨bitmapQueue,bounded,heq⟩ := flushToQueue_eq surface
  rw [heq]
  exact ⟨rfl,rfl,rfl,rfl,rfl,rfl⟩

theorem CoveredBut.flushDeferred_keeps (h : CoveredBut exempt surface) (supportsWebp : Bool) :
    KeepsPixels surface (guacCommonSurfaceFlushDeferred supportsWebp surface) := by
  unfold guacCommonSurfaceFlushDeferred
  split_ifs
  · exact (h.flush_keeps supportsWebp).trans (flushToQueue_keeps _)
  · exact flushToQueue_keeps surface
  · exact KeepsPixels.refl surface

/-- An update that is deferred is pending. -/
theorem CoveredBut.deferUpdate (h : CoveredBut rect surface) (supportsWebp : Bool)
    (hinside : rect.InRect surface.bounds) (hsome : ¬rect.Empty) :
    Covered (deferUpdate supportsWebp surface rect) := by
  unfold Surface.deferUpdate
  split
  · exact h.markDirty hinside hsome
  · refine (h.flushDeferred supportsWebp).markDirty ?_ hsome
    rw [(h.flushDeferred_keeps supportsWebp).bounds]
    exact hinside

/-- A rectangle that is sent is not exempt. -/
theorem CoveredBut.sent (h : CoveredBut rect surface) : Covered (surface.sent rect) := by
  refine ⟨fun x y hchanged => Or.inl ?_,h.inside,h.clip,h.length,h.bounded⟩
  obtain ⟨hbounds,hdiffers⟩ := hchanged
  unfold CommonSurface.sent at hdiffers
  dsimp only at hdiffers
  split_ifs at hdiffers with hmem
  · exact absurd rfl hdiffers
  · exact (h.covered x y ⟨hbounds,hdiffers⟩).resolve_right hmem

/-- A rectangle that is pending is not exempt. -/
theorem CoveredBut.of_pending (h : CoveredBut rect surface)
    (hpending : ∀ x y, rect.Mem x y → surface.Pending x y) : Covered surface :=
  ⟨fun x y hchanged => Or.inl ((h.covered x y hchanged).elim id (hpending x y)),
    h.inside,h.clip,h.length,h.bounded⟩

/-- Nothing is exempt in a rectangle without pixels. -/
theorem CoveredBut.of_empty (h : CoveredBut rect surface) (hempty : rect.Empty) : Covered surface :=
  h.of_pending fun _ _ hmem => absurd hempty hmem.not_empty

/-! ## Operations -/

/-- Where pixels were updated is exempt. -/
theorem Covered.update (h : Covered surface) (hinside : rect.InRect surface.bounds)
    (buffer : Pixels) (houtside : ∀ x y, ¬rect.Mem x y → buffer x y=surface.buffer x y)
    {extents : Extents} (hfits : extents.Fits rect.width rect.height) :
    CoveredBut (updatedRect rect surface.buffer buffer extents) { surface with buffer := buffer } ∧
      (¬(updatedRect rect surface.buffer buffer extents).Empty →
        (updatedRect rect surface.buffer buffer extents).InRect surface.bounds) :=
  ⟨h.change fun x y hdiffers => updatedRect_mem extents (houtside x y) hdiffers,
    fun hsome => updatedRect_inRect hinside hfits hsome⟩

theorem fits_first (hsome : ¬rect.Empty) :
    Extents.Fits ⟨rect.width-1,rect.height-1,0,0⟩ rect.width rect.height := by
  unfold Rect.Empty at hsome
  unfold Extents.Fits
  dsimp only
  omega

theorem fits_none (hsome : ¬rect.Empty) :
    Extents.Fits ⟨rect.width,rect.height,0,0⟩ rect.width rect.height := by
  unfold Rect.Empty at hsome
  unfold Extents.Fits
  dsimp only
  omega

theorem covered_draw (h : Covered surface) (supportsWebp : Bool) (left top : ℤ) (src : Image)
    (time : ℤ) : Covered (guacCommonSurfaceDraw supportsWebp surface left top src time) := by
  have hclip := clipRect_inRect h ⟨left,top,src.width,src.height⟩
  unfold guacCommonSurfaceDraw
  dsimp only
  generalize guacCommonClipRect surface ⟨left,top,src.width,src.height⟩=rect at hclip ⊢
  split
  · exact h
  rename_i hsome
  obtain ⟨hexempt,hinside⟩ := h.update hclip (putPixels src.pixels (rect.x-left)
    (rect.y-top) surface.buffer rect !src.isArgb) (fun x y hnot => if_neg hnot) (fits_none hsome)
  generalize putPixels src.pixels (rect.x-left) (rect.y-top) surface.buffer rect
    (!src.isArgb)=buffer at hexempt hinside ⊢
  generalize updatedRect rect surface.buffer buffer ⟨rect.width,rect.height,0,0⟩=updated
    at hexempt hinside ⊢
  split
  · rename_i hnone
    exact hexempt.of_empty hnone
  · rename_i hupdated
    have htouched : CoveredBut updated
        (guacCommonSurfaceTouchRect { surface with buffer := buffer } updated time) :=
      ⟨hexempt.covered,hexempt.inside,hexempt.clip,hexempt.length,hexempt.bounded⟩
    exact htouched.deferUpdate supportsWebp (hinside hupdated) hupdated

theorem covered_paint (h : Covered surface) (supportsWebp : Bool) (left top : ℤ) (src : Image)
    (red green blue : BitVec 8) :
    Covered (guacCommonSurfacePaint supportsWebp surface left top src red green blue) := by
  have hclip := clipRect_inRect h ⟨left,top,src.width,src.height⟩
  unfold guacCommonSurfacePaint
  dsimp only
  generalize guacCommonClipRect surface ⟨left,top,src.width,src.height⟩=rect at hclip ⊢
  split
  · exact h
  · rename_i hsome
    refine (h.change fun x y hdiffers => ?_).deferUpdate supportsWebp hclip hsome
    by_contra hnot
    exact hdiffers (if_neg fun hmasked => hnot hmasked.1)

theorem covered_set (h : Covered surface) (supportsWebp : Bool) (left top w ht : ℤ)
    (red green blue alpha : BitVec 8) :
    Covered (guacCommonSurfaceSet supportsWebp surface left top w ht red green blue alpha) := by
  have hclip := clipRect_inRect h ⟨left,top,w,ht⟩
  unfold guacCommonSurfaceSet
  dsimp only
  generalize guacCommonClipRect surface ⟨left,top,w,ht⟩=rect at hclip ⊢
  split
  · exact h
  rename_i hsome
  obtain ⟨hexempt,hinside⟩ := h.update hclip (setPixels surface.buffer rect
    (argb alpha red green blue)) (fun x y hnot => if_neg hnot) (fits_first hsome)
  generalize setPixels surface.buffer rect (argb alpha red green blue)=buffer at hexempt hinside ⊢
  generalize updatedRect rect surface.buffer buffer ⟨rect.width-1,rect.height-1,0,0⟩=
    updated at hexempt hinside ⊢
  split
  · rename_i hnone
    exact hexempt.of_empty hnone
  rename_i hupdated
  split
  · exact hexempt.deferUpdate supportsWebp (hinside hupdated) hupdated
  split
  · exact hexempt.markDirty (hinside hupdated) hupdated
  · have hflushed := (hexempt.flush supportsWebp).1.sent
    exact ⟨hflushed.covered,hflushed.inside,hflushed.clip,hflushed.length,hflushed.bounded⟩

theorem covered_clip (h : Covered surface) (left top w ht : ℤ) :
    Covered (guacCommonSurfaceClip surface left top w ht) := by
  refine ⟨h.covered,h.inside,fun _ => ?_,h.length,h.bounded⟩
  have hclip : (if surface.clipped then surface.clipRect else surface.bounds).InRect
      surface.bounds := by
    split
    · exact h.clip ‹_›
    · exact ⟨⟨le_rfl,le_rfl⟩,le_rfl,le_rfl⟩
  unfold guacCommonSurfaceClip
  dsimp only [CommonSurface.bounds] at hclip ⊢
  generalize (if surface.clipped then surface.clipRect else
    (⟨0,0,surface.width,surface.height⟩ : Rect))=clipRect at hclip ⊢
  unfold Rect.InRect guacCommonRectConstrain at *
  dsimp only at *
  omega

theorem covered_resetClip (h : Covered surface) : Covered (guacCommonSurfaceResetClip surface) :=
  ⟨h.covered,h.inside,fun hfalse => Bool.noConfusion hfalse,h.length,h.bounded⟩

theorem covered_alloc (socket : List Instruction) (layer w h : ℤ) :
    Covered (guacCommonSurfaceAlloc socket layer w h) :=
  ⟨fun _ _ hchanged => absurd rfl hchanged.2,fun hfalse => Bool.noConfusion hfalse,
    fun hfalse => Bool.noConfusion hfalse,(by decide : 0<queueSize),rfl⟩

/-- The pixels that a resize keeps are opaque, or sent again anyway. -/
def ResizeOpaque (surface : CommonSurface) (w h : ℤ) : Prop :=
  (w=surface.width ∧ h=surface.height) ∨ ∀ x y, surface.bounds.Mem x y→(⟨0,0,w,h⟩ : Rect).Mem x y →
      IsOpaque (surface.buffer x y) ∨ surface.Pending x y

theorem or_opaqueAlpha {color : Pixel} (h : IsOpaque color) : color ||| opaqueAlpha=color := by
  unfold IsOpaque at h
  rw [←h]
  ext i
  simp only [BitVec.getElem_or,BitVec.getElem_and]
  cases color[i] <;> rfl

/-- A resize makes the pixels that it keeps opaque, and others blank. -/
theorem resized_buffer (surface : CommonSurface) (w h : ℤ) (x y : ℤ) :
    putPixels surface.buffer 0 0 (fun _ _ => 0)
        (guacCommonBoundRect { surface with width := w, height := h } surface.bounds) true x y=
      if surface.bounds.Mem x y ∧ (⟨0,0,w,h⟩ : Rect).Mem x y then
        surface.buffer x y ||| opaqueAlpha
      else 0 := by
  have hmem := mem_boundRect { surface with width := w, height := h } surface.bounds x y
  by_cases hboth : surface.bounds.Mem x y ∧ (⟨0,0,w,h⟩ : Rect).Mem x y
  · rw [if_pos hboth]
    refine (if_pos (hmem.mpr hboth)).trans ?_
    show surface.buffer (0+(x-max 0 0)) (0+(y-max 0 0)) ||| opaqueAlpha=_
    rw [max_self,sub_zero,sub_zero,zero_add,zero_add]
  · rw [if_neg hboth]
    exact if_neg fun hrect => hboth (hmem.mp hrect)

/-- A resize keeps what changed pending if it makes nothing opaque. -/
theorem covered_resize (h : Covered surface) {w ht : ℤ} (hsolid : ResizeOpaque surface w ht) :
    Covered (guacCommonSurfaceResize surface w ht) := by
  unfold guacCommonSurfaceResize
  split
  · exact h
  rename_i hsize
  have hkept := hsolid.resolve_left hsize
  refine ⟨fun x y hchanged => Or.inl ?_,fun hdirty => ?_,fun _ => boundRect_inRect ..,h.length,
    h.bounded⟩
  · obtain ⟨hbounds,hdiffers⟩ := hchanged
    have hnew : (⟨0,0,w,ht⟩ : Rect).Mem x y := hbounds
    dsimp only at hdiffers
    rw [resized_buffer] at hdiffers
    by_cases hold : surface.bounds.Mem x y
    · have hpending : surface.Pending x y := by
        rw [if_pos ⟨hold,hnew⟩,if_pos hold] at hdiffers
        rcases hkept x y hold hnew with hcolor | hpending
        · rw [or_opaqueAlpha hcolor] at hdiffers
          exact h.pending ⟨hold,hdiffers⟩
        · exact hpending
      refine hpending.imp_left fun hdirty => ?_
      have hmem : (guacCommonBoundRect { surface with width := w, height := ht }
          surface.dirtyRect).Mem x y := (mem_boundRect ..).mpr ⟨hdirty.2,hnew⟩
      have hsome := decide_eq_false hmem.not_empty
      refine ⟨Bool.and_eq_true_iff.mpr ⟨hdirty.1,by rw [hsome]; rfl⟩,?_⟩
      dsimp only
      rw [if_pos hdirty.1]
      exact hmem
    · rw [if_neg fun hboth => hold hboth.1,if_neg hold] at hdiffers
      exact absurd rfl hdiffers
  · dsimp only at hdirty ⊢
    rw [Bool.and_eq_true,Bool.not_eq_true',decide_eq_false_iff_not] at hdirty
    rw [if_pos hdirty.1]
    exact ⟨hdirty.2,boundRect_inRect ..⟩

/-! ## All surfaces -/

variable {surfaces : Surfaces} {dst : ℤ}

/-- What changed on any surface is pending, except in a rectangle of one. -/
def AllCoveredBut (dst : ℤ) (exempt : Rect) (surfaces : Surfaces) : Prop :=
  CoveredBut exempt (surfaces.surface dst) ∧ ∀ layer, layer≠dst → Covered (surfaces.surface layer)

/-- What changed on any surface is pending. -/
def AllCovered (surfaces : Surfaces) : Prop := ∀ layer, Covered (surfaces.surface layer)

theorem CoveredBut.withSocket (h : CoveredBut exempt surface) (socket : List Instruction) :
    CoveredBut exempt { surface with socket := socket } :=
  ⟨h.covered,h.inside,h.clip,h.length,h.bounded⟩

theorem CoveredBut.sendDrawing (h : CoveredBut exempt surface) (instruction : Instruction) :
    CoveredBut exempt (surface.sendDrawing instruction) :=
  ⟨h.covered,h.inside,h.clip,h.length,h.bounded⟩

theorem modify_self (surfaces : Surfaces) (layer : ℤ) (f : CommonSurface → CommonSurface) :
    (surfaces.modify layer f).surface layer=
      f { surfaces.surface layer with socket := surfaces.socket } :=
  Function.update_self ..

theorem modify_of_ne (surfaces : Surfaces) {layer layer' : ℤ} (h : layer' ≠ layer)
    (f : CommonSurface → CommonSurface) :
    (surfaces.modify layer f).surface layer' = surfaces.surface layer' :=
  Function.update_of_ne h ..

theorem AllCovered.but (h : AllCovered surfaces) (dst : ℤ) (rect : Rect) :
    AllCoveredBut dst rect surfaces :=
  ⟨⟨fun _ _ hchanged => Or.inl ((h dst).pending hchanged),(h dst).inside,(h dst).clip,
    (h dst).length,(h dst).bounded⟩,fun layer _ => h layer⟩

/-- A surface with an exempt rectangle is operated on. -/
theorem AllCoveredBut.modify {exempt' : Rect} (h : AllCoveredBut dst exempt surfaces)
    {f : CommonSurface → CommonSurface}
    (hf : ∀ socket, CoveredBut exempt' (f { surfaces.surface dst with socket := socket })) :
    AllCoveredBut dst exempt' (surfaces.modify dst f) := by
  constructor
  · rw [modify_self]
    exact hf _
  · intro layer hlayer
    rw [modify_of_ne surfaces hlayer]
    exact h.2 layer hlayer

/-- Any surface is flushed. -/
theorem AllCoveredBut.flush (h : AllCoveredBut dst exempt surfaces) (supportsWebp : Bool)
    (layer : ℤ) :
    AllCoveredBut dst exempt (surfaces.modify layer (commonSurfaceFlush supportsWebp)) := by
  by_cases hlayer : layer=dst
  · subst hlayer
    exact h.modify fun socket => ((h.1.withSocket socket).flush supportsWebp).1
  · constructor
    · rw [modify_of_ne surfaces (Ne.symm hlayer)]
      exact h.1
    · intro layer' hlayer'
      by_cases hsame : layer' = layer
      · subst hsame
        rw [modify_self]
        exact ((h.2 layer' hlayer').withSocket surfaces.socket).flush supportsWebp |>.1
      · rw [modify_of_ne surfaces hsame]
        exact h.2 layer' hlayer'

theorem AllCoveredBut.all (h : AllCoveredBut dst Rect.nothing surfaces) : AllCovered surfaces := by
  intro layer
  by_cases hlayer : layer=dst
  · rw [hlayer]
    exact h.1
  · exact h.2 layer hlayer

theorem AllCovered.modify (h : AllCovered surfaces) (layer : ℤ) {f : CommonSurface → CommonSurface}
    (hf : ∀ socket, Covered (f { surfaces.surface layer with socket := socket })) :
    AllCovered (surfaces.modify layer f) :=
  ((h.but layer Rect.nothing).modify hf).all

theorem AllCoveredBut.flush_keeps (h : AllCoveredBut dst exempt surfaces) (supportsWebp : Bool)
    (layer : ℤ) :
    KeepsPixels (surfaces.surface dst)
      ((surfaces.modify layer (commonSurfaceFlush supportsWebp)).surface dst) := by
  by_cases hlayer : layer=dst
  · subst hlayer
    rw [modify_self]
    have hkeeps := (h.1.withSocket surfaces.socket).flush_keeps supportsWebp
    exact ⟨hkeeps.layer,hkeeps.width,hkeeps.height,hkeeps.buffer,hkeeps.clipped,hkeeps.clipRect⟩
  · rw [modify_of_ne surfaces (Ne.symm hlayer)]
    exact KeepsPixels.refl _

/-- An instruction that is sent leaves what is exempt. -/
theorem AllCoveredBut.drawImmediately (h : AllCoveredBut dst exempt surfaces)
    (instruction : Instruction) (src : ℤ) :
    AllCoveredBut dst exempt (drawImmediately instruction src dst surfaces) ∧
      KeepsPixels (surfaces.surface dst)
        ((drawImmediately instruction src dst surfaces).surface dst) := by
  have hdst := h.flush surfaces.supportsWebp dst
  have hsrc := hdst.flush surfaces.supportsWebp src
  have hkeeps := (h.flush_keeps surfaces.supportsWebp dst).trans
    (hdst.flush_keeps surfaces.supportsWebp src)
  unfold Surface.drawImmediately
  dsimp only
  constructor
  · exact hsrc.modify fun socket => (hsrc.1.withSocket socket).sendDrawing instruction
  · rw [modify_self]
    exact ⟨hkeeps.layer,hkeeps.width,hkeeps.height,hkeeps.buffer,hkeeps.clipped,hkeeps.clipRect⟩

/-- Pixels of a rectangle are replaced in a surface. -/
theorem AllCovered.withBuffer (h : AllCovered surfaces) {buffer : Pixels}
    (hchanged : ∀ x y, buffer x y≠(surfaces.surface dst).buffer x y → rect.Mem x y) :
    AllCoveredBut dst rect (surfaces.modify dst (CommonSurface.withBuffer · buffer)) :=
  (h.but dst Rect.nothing).modify fun socket =>
    (Covered.change ((h dst).withSocket socket) hchanged : CoveredBut rect _)

theorem AllCoveredBut.sent (h : AllCoveredBut dst rect surfaces) :
    AllCovered (surfaces.modify dst (CommonSurface.sent · rect)) :=
  AllCoveredBut.all (h.modify fun socket => (h.1.withSocket socket).sent)

/-- What is transferred is pending or sent. -/
theorem allCovered_transferBetween (h : AllCovered surfaces) (op : TransferFunction)
    (instruction : Rect→ℤ→ℤ→Instruction) (src sx sy w ht dst dx dy : ℤ) :
    AllCovered (transferBetween op instruction surfaces src sx sy w ht dst dx dy) := by
  unfold transferBetween
  dsimp only
  generalize guacCommonBoundRect (surfaces.surface src) ⟨sx,sy,w,ht⟩=srect
  have hclip := clipRect_inRect (h dst) ⟨dx+(srect.x-sx),dy+(srect.y-sy),srect.width,srect.height⟩
  generalize guacCommonClipRect (surfaces.surface dst)
    ⟨dx+(srect.x-sx),dy+(srect.y-sy),srect.width,srect.height⟩=drect at hclip ⊢
  generalize srect.x+(drect.x-(dx+(srect.x-sx)))=fromX
  generalize srect.y+(drect.y-(dy+(srect.y-sy)))=fromY
  have hmem : ∀ x y, (commonSurfaceTransfer op (decide (src=dst)) (surfaces.surface src).buffer
      fromX fromY (surfaces.surface dst).buffer drect).1 x y≠(surfaces.surface dst).buffer x y →
        drect.Mem x y ∧ (commonSurfaceTransfer op (decide (src=dst))
          (surfaces.surface src).buffer fromX fromY
          (surfaces.surface dst).buffer drect).2.Mem x y :=
    fun x y hdiffers => commonSurfaceTransfer_mem hdiffers
  have hupdated : ¬drect.Empty→¬(commonSurfaceTransfer op (decide (src=dst))
      (surfaces.surface src).buffer fromX fromY (surfaces.surface dst).buffer drect).2.Empty →
        (commonSurfaceTransfer op (decide (src=dst)) (surfaces.surface src).buffer fromX fromY
          (surfaces.surface dst).buffer drect).2.InRect (surfaces.surface dst).bounds :=
    fun hsome hchanged => commonSurfaceTransfer_inRect hclip hsome hchanged
  generalize commonSurfaceTransfer op (decide (src=dst)) (surfaces.surface src).buffer fromX fromY
    (surfaces.surface dst).buffer drect=result at hmem hupdated ⊢
  split
  · exact h
  rename_i hsome
  rw [not_or] at hsome
  split
  · split
    · have hmarked : AllCovered (surfaces.modify dst (guacCommonMarkDirty · drect)) :=
        h.modify dst fun socket =>
          (((h.but dst drect).1.withSocket socket).markDirty hclip hsome.2)
      have hself := modify_self surfaces dst (guacCommonMarkDirty · drect)
      have hexempt : AllCoveredBut dst drect ((surfaces.modify dst
          (guacCommonMarkDirty · drect)).modify dst (CommonSurface.withBuffer · result.1)) := by
        refine hmarked.withBuffer fun x y hdiffers => (hmem x y ?_).1
        rw [hself,markDirty_eq _ _ hsome.2] at hdiffers
        exact hdiffers
      refine AllCoveredBut.all ⟨hexempt.1.of_pending fun x y hin => ?_,hexempt.2⟩
      have hpending : (guacCommonMarkDirty { surfaces.surface dst with
          socket := surfaces.socket } drect).Pending x y := pending_markDirty _ _ (Or.inr hin)
      rw [modify_self,hself]
      exact hpending
    · obtain ⟨hdrawn,hkeeps⟩ := (h.but dst Rect.nothing).drawImmediately
        (instruction drect fromX fromY) src
      refine (hdrawn.all.withBuffer fun x y hdiffers => ?_).sent
      rw [hkeeps.buffer] at hdiffers
      exact (hmem x y hdiffers).1
  · have hexempt : AllCoveredBut dst result.2
        (surfaces.modify dst (CommonSurface.withBuffer · result.1)) :=
      h.withBuffer fun x y hdiffers => (hmem x y hdiffers).2
    split
    · rename_i hnone
      exact AllCoveredBut.all ⟨hexempt.1.of_empty hnone,hexempt.2⟩
    rename_i hchanged
    split
    · refine AllCoveredBut.all (hexempt.modify fun socket => ?_)
      refine (hexempt.1.withSocket socket).markDirty ?_ hchanged
      rw [modify_self]
      exact hupdated hsome.2 hchanged
    · exact (hexempt.drawImmediately _ src).1.sent

/-! ## Runs -/

/-- A step is not a resize that makes pixels opaque which are not sent again. -/
def StepOpaque (op : SurfaceOp) (surfaces : Surfaces) : Prop :=
  match op with
  | .resize layer w h => ResizeOpaque (surfaces.surface layer) w h
  | _ => True

theorem allCovered_surfaceStep {op : SurfaceOp} {surfaces' : Surfaces} (h : AllCovered surfaces)
    (hsolid : StepOpaque op surfaces) (hstep : surfaceStep op surfaces=some surfaces') :
    AllCovered surfaces' := by
  have hsocket : ∀ layer socket, Covered { surfaces.surface layer with socket := socket } :=
    fun layer socket => (h layer).withSocket socket
  cases op with
  | alloc layer w ht =>
    cases hstep
    exact h.modify layer fun socket => covered_alloc ..
  | resize layer w ht =>
    cases hstep
    exact h.modify layer fun socket => covered_resize (hsocket layer socket) hsolid
  | draw layer x y src time =>
    cases hstep
    exact h.modify layer fun socket => covered_draw (hsocket layer socket) ..
  | paint layer x y src red green blue =>
    cases hstep
    exact h.modify layer fun socket => covered_paint (hsocket layer socket) ..
  | copy src sx sy w ht dst dx dy =>
    cases hstep
    exact allCovered_transferBetween h _ _ src sx sy w ht dst dx dy
  | transfer op src sx sy w ht dst dx dy =>
    cases hstep
    exact allCovered_transferBetween h op _ src sx sy w ht dst dx dy
  | set layer x y w ht red green blue alpha =>
    cases hstep
    exact h.modify layer fun socket => covered_set (hsocket layer socket) ..
  | clip layer x y w ht =>
    cases hstep
    exact h.modify layer fun socket => covered_clip (hsocket layer socket) ..
  | resetClip layer =>
    cases hstep
    exact h.modify layer fun socket => covered_resetClip (hsocket layer socket)
  | flush layer =>
    cases hstep
    exact h.modify layer fun socket =>
      (CoveredBut.flush (hsocket layer socket) surfaces.supportsWebp).1
  | users supportsWebp =>
    cases hstep
    exact h

theorem allCovered_initial : AllCovered Surfaces.initial := fun layer =>
  ⟨fun _ _ hchanged => absurd rfl hchanged.2,fun hfalse => Bool.noConfusion hfalse,
    fun hfalse => Bool.noConfusion hfalse,(by decide : 0<queueSize),rfl⟩

/-- In all states of a run without such a resize, what changed on a surface is
pending, its queue is not overrun, and a flush ends with everything sent. -/
theorem changed_pending (ops : List SurfaceOp)
    (halong : Along surfaceStep StepOpaque ops Surfaces.initial) :
    ∀ made, made <+: ops→∀ visited, run surfaceStep made Surfaces.initial=some visited → ∀ layer,
        (∀ x y, (visited.surface layer).Changed x y→(visited.surface layer).Pending x y) ∧
        ((visited.surface layer).bitmapQueue.length≤queueSize ∧
          (visited.surface layer).bounded=true) ∧
        ∃ flushed, commonSurfaceFlush visited.supportsWebp (visited.surface layer)=flushed ∧
          (flushed.dirty=false ∧ flushed.bitmapQueue=[] ∧ flushed.bounded=true) ∧
          ∀ x y, (visited.surface layer).bounds.Mem x y →
            flushed.lastSent x y=(visited.surface layer).buffer x y := by
  intro made hmade visited hrun layer
  have hvisited := visits_of_along allCovered_surfaceStep allCovered_initial halong hmade hrun layer
  obtain ⟨hsends,⟨hclean,hqueue⟩,hsent⟩ :=
    commonSurfaceFlush_pending visited.supportsWebp hvisited.bounded hvisited.length
  refine ⟨fun x y hchanged => hvisited.pending hchanged,⟨hvisited.length.le,hvisited.bounded⟩,_,
    rfl,⟨hclean,hqueue,hsends.bounded.trans hvisited.bounded⟩,fun x y hbounds => ?_⟩
  by_cases hsame : (visited.surface layer).buffer x y=(visited.surface layer).lastSent x y
  · rw [hsends.keeps_sent hsame.symm,hsends.keeps.buffer]
  · exact hsent x y hbounds (hvisited.pending ⟨hbounds,hsame⟩)

/-- A layer that is filled and not sent yet. -/
theorem changed_pending_filled :
    ∃ visited, run surfaceStep [.alloc 0 640 480,.set 0 0 0 640 480 255 255 255 255]
        Surfaces.initial=some visited ∧
      ∀ x y, (visited.surface 0).Changed x y→(visited.surface 0).Pending x y :=
  ⟨_,rfl,(changed_pending [.alloc 0 640 480,.set 0 0 0 640 480 255 255 255 255]
    ⟨trivial,trivial,trivial⟩ _ (List.prefix_refl _) _ rfl 0).1⟩

/-- The pixels of a new layer change when it is resized, and are not sent. -/
theorem not_pending_resized :
    ∃ visited, run surfaceStep [.alloc 0 640 480,.resize 0 800 600] Surfaces.initial=some visited ∧
      ¬∀ x y, (visited.surface 0).Changed x y→(visited.surface 0).Pending x y := by
  refine ⟨_,rfl,fun h => ?_⟩
  have hpending := h 0 0 ⟨by decide,by decide⟩
  rcases hpending with hdirty | ⟨entry,hentry,-⟩
  · exact Bool.noConfusion hdirty.1
  · cases hentry

end GuacServer.Surface
