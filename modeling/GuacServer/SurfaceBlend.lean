import Mathlib.Tactic.FieldSimp
import Mathlib.Tactic.Linarith
import GuacServer.SurfaceCoverage

/-!
# Images with alpha

guac_common_surface_draw blends the pixels of an image with alpha over those of
a surface. The colors of the image are premultiplied by their alpha, so that
each component of the result should be that of the image plus the share of the
component below that the alpha leaves. guac_common_surface_blend_component adds
the component below times 0xFF minus the alpha, and does not divide by 0xFF.
-/

namespace GuacServer.Surface

/-! ## Components -/

/-- The lowest bits of the components of a color. -/
def componentShifts : List ℕ := [24,16,8,0]

theorem component_eq (color : Pixel) (shift : ℕ) :
    component color shift=color.toNat/2^shift%256 := by
  unfold component
  rw [BitVec.toNat_and,BitVec.toNat_ushiftRight,Nat.shiftRight_eq_div_pow]
  exact Nat.and_two_pow_sub_one_eq_mod _ 8

theorem component_le (color : Pixel) (shift : ℕ) : component color shift≤255 := by
  rw [component_eq]
  omega

theorem toNat_append_byte {w : ℕ} (high : BitVec w) (low : BitVec 8) :
    (high++low).toNat=high.toNat*256+low.toNat := by
  rw [BitVec.toNat_append,←Nat.shiftLeft_add_eq_or_of_lt low.isLt,Nat.shiftLeft_eq]

theorem argb_toNat (alpha red green blue : BitVec 8) : (argb alpha red green blue).toNat=
    ((alpha.toNat*256+red.toNat)*256+green.toNat)*256+blue.toNat := by
  have happend : argb alpha red green blue=((alpha++red)++green)++blue := by
    unfold argb
    ext i hi
    simp
    grind
  rw [happend,toNat_append_byte,toNat_append_byte,toNat_append_byte]

/-- Components that are put together come apart again. -/
theorem component_argb (value : ℕ→BitVec 8) {shift : ℕ} (hshift : shift∈componentShifts) :
    component (argb (value 24) (value 16) (value 8) (value 0)) shift=(value shift).toNat := by
  rw [component_eq,argb_toNat]
  simp only [componentShifts,List.mem_cons,List.not_mem_nil,or_false] at hshift
  rcases hshift with rfl | rfl | rfl | rfl <;> omega

/-- Each component of a blended color, opaque and transparent colors included. -/
theorem component_argbBlend (dst src : Pixel) {shift : ℕ} (hshift : shift∈componentShifts) :
    component (guacCommonSurfaceArgbBlend dst src) shift=
      if component src 24=0xFF ∨ component dst 24=0 then component src shift
      else if component src 24=0 then component dst shift
      else guacCommonSurfaceBlendComponent (component dst shift) (component src shift)
        (component src 24) := by
  unfold guacCommonSurfaceArgbBlend
  dsimp only
  split_ifs
  · rfl
  · rfl
  · rw [component_argb (fun shift => BitVec.ofNat 8 (guacCommonSurfaceBlendComponent
      (component dst shift) (component src shift) (component src 24))) hshift]
    unfold guacCommonSurfaceBlendComponent
    rw [BitVec.toNat_ofNat]
    omega

/-! ## The "over" operator -/

/-- A component of a color is within one of what Porter-Duff "over" makes of a
premultiplied color and the one below it. -/
def IsOver (dst src result : Pixel) (shift : ℕ) : Prop :=
  |(component result shift : ℚ) -
    (component src shift+component dst shift*(255-component src 24)/255)| ≤ 1

/-- The colors for which a component is blended as it should be: the image is opaque, next
to nothing is left of the component below, the surface is transparent and little is
left, or it is not and the image is transparent, or so much is left that the right
component is the highest one or the one below that. -/
def BlendsOver (dst src : Pixel) (shift : ℕ) : Prop :=
  let left := component dst shift*(255-component src 24)
  component src 24=255 ∨ left≤1 ∨ (component dst 24=0 ∧ left≤255) ∨
    component dst 24≠0 ∧ (component src 24=0 ∨ 255*254≤left+255*component src shift)

instance (dst src : Pixel) (shift : ℕ) : Decidable (BlendsOver dst src shift) :=
  inferInstanceAs (Decidable (_ ∨ _))

theorem within_one_iff (value src left : ℕ) : |(value : ℚ)-(src+left/255)| ≤ 1 ↔
    255*value≤255*src+left+255 ∧ 255*src+left≤255*value+255 := by
  rw [abs_le]
  constructor
  · rintro ⟨hlow,hhigh⟩
    constructor
    · have hbound : (255*value : ℚ)≤255*src+left+255 := by linarith
      exact_mod_cast hbound
    · have hbound : (255*src+left : ℚ)≤255*value+255 := by linarith
      exact_mod_cast hbound
  · rintro ⟨hhigh,hlow⟩
    have hhigh' : (255*value : ℚ)≤255*src+left+255 := by exact_mod_cast hhigh
    have hlow' : (255*src+left : ℚ)≤255*value+255 := by exact_mod_cast hlow
    constructor <;> linarith

/-- The result of OVER, without a division. -/
theorem isOver_iff_bounds (dst src result : Pixel) (shift : ℕ) : IsOver dst src result shift ↔
    255*component result shift≤
        255*component src shift+component dst shift*(255-component src 24)+255 ∧
      255*component src shift+component dst shift*(255-component src 24)≤
        255*component result shift+255 := by
  have hleft : ((component dst shift*(255-component src 24) : ℕ) : ℚ)=
      component dst shift*(255-component src 24) := by
    rw [Nat.cast_mul,Nat.cast_sub (component_le src 24)]
    norm_num
  rw [←within_one_iff,hleft]
  rfl

/-- Blending a premultiplied color gives what it should exactly for the colors for which
the missing division does not matter. -/
theorem isOver_argbBlend_iff (dst src : Pixel) {shift : ℕ} (hshift : shift∈componentShifts)
    (hsrc : component src shift≤component src 24) :
    IsOver dst src (guacCommonSurfaceArgbBlend dst src) shift ↔ BlendsOver dst src shift := by
  have hdst := component_le dst shift
  have halpha := component_le src 24
  have hleft : component dst shift*(255-component src 24)≤255*(255-component src 24) :=
    Nat.mul_le_mul_right _ hdst
  rw [isOver_iff_bounds,component_argbBlend dst src hshift]
  unfold BlendsOver
  dsimp only
  split_ifs with hsource htransparent
  · rcases hsource with hsolid | hnone
    · rw [hsolid,Nat.sub_self,mul_zero]
      omega
    · generalize component dst shift*(255-component src 24)=left at *
      omega
  · rw [htransparent] at hsrc hleft ⊢
    omega
  · unfold guacCommonSurfaceBlendComponent
    generalize component dst shift*(0xFF-component src 24)=left at *
    omega

/-! ## What drawing keeps -/

variable (supportsWebp : Bool) (surface : CommonSurface)

/-- A flush changes no pixel. -/
theorem commonSurfaceFlush_keeps :
    KeepsPixels surface (commonSurfaceFlush supportsWebp surface) := by
  have hclean : (guacCommonSurfaceFlushToQueue surface).sortQueue.dirty=false := by
    obtain ⟨bitmapQueue,bounded,heq⟩ := flushToQueue_eq surface
    rw [heq]
    rfl
  have hsends := (flushLoop_pending supportsWebp hclean
    (guacCommonSurfaceFlushToQueue surface).sortQueue.bitmapQueue.length 0).1.keeps
  have hqueued := flushToQueue_keeps surface
  exact ⟨hsends.layer.trans hqueued.layer,hsends.width.trans hqueued.width,
    hsends.height.trans hqueued.height,hsends.buffer.trans hqueued.buffer,
    hsends.clipped.trans hqueued.clipped,hsends.clipRect.trans hqueued.clipRect⟩

theorem flushDeferred_keeps :
    KeepsPixels surface (guacCommonSurfaceFlushDeferred supportsWebp surface) := by
  unfold guacCommonSurfaceFlushDeferred
  split_ifs
  · exact (commonSurfaceFlush_keeps supportsWebp surface).trans (flushToQueue_keeps _)
  · exact flushToQueue_keeps surface
  · exact KeepsPixels.refl surface

theorem markDirty_keeps (rect : Rect) : KeepsPixels surface (guacCommonMarkDirty surface rect) := by
  unfold guacCommonMarkDirty
  split_ifs <;> exact ⟨rfl,rfl,rfl,rfl,rfl,rfl⟩

theorem deferUpdate_keeps (rect : Rect) :
    KeepsPixels surface (deferUpdate supportsWebp surface rect) := by
  unfold deferUpdate
  split
  · exact markDirty_keeps surface rect
  · exact (flushDeferred_keeps supportsWebp surface).trans (markDirty_keeps _ rect)

variable (left top : ℤ) (src : Image) (time : ℤ)

/-- The rectangle that an image is drawn to. -/
def drawnRect : Rect := guacCommonClipRect surface ⟨left,top,src.width,src.height⟩

/-- The pixels of a surface that an image was drawn to. -/
def drawnPixels : Pixels :=
  putPixels src.pixels ((drawnRect surface left top src).x-left)
    ((drawnRect surface left top src).y-top) surface.buffer (drawnRect surface left top src)
    !src.isArgb

theorem draw_buffer : (guacCommonSurfaceDraw supportsWebp surface left top src time).buffer=
    drawnPixels surface left top src := by
  unfold guacCommonSurfaceDraw drawnPixels drawnRect
  dsimp only
  split_ifs with hempty hnone
  · funext x y
    exact (if_neg fun hmem => hmem.not_empty hempty).symm
  · rfl
  · exact (deferUpdate_keeps ..).buffer

/-- What drawing changed is dirty. -/
theorem draw_dirty {x y : ℤ}
    (hchanged : (guacCommonSurfaceDraw supportsWebp surface left top src time).buffer x y≠
      surface.buffer x y) :
    (guacCommonSurfaceDraw supportsWebp surface left top src time).Dirty x y := by
  rw [draw_buffer] at hchanged
  have hupdated := updatedRect_mem
    ⟨(drawnRect surface left top src).width,(drawnRect surface left top src).height,0,0⟩
    (fun hnot : ¬(drawnRect surface left top src).Mem x y => if_neg hnot) hchanged
  have hmem : (drawnRect surface left top src).Mem x y := by
    by_contra hnot
    exact hchanged (if_neg hnot)
  unfold drawnPixels drawnRect at hupdated
  unfold drawnRect at hmem
  unfold guacCommonSurfaceDraw
  dsimp only
  rw [if_neg hmem.not_empty,if_neg hupdated.not_empty]
  exact dirty_markDirty _ (Or.inr hupdated)

/-! ## Drawing an image with alpha -/

/-- The colors of an image are premultiplied by their alpha. -/
def Image.IsPremultiplied : Prop :=
  ∀ x y, Rect.Mem ⟨0,0,src.width,src.height⟩ x y→∀ shift∈componentShifts,
    component (src.pixels x y) shift≤component (src.pixels x y) 24

/-- A pixel of a surface is inside both the clip and an image. -/
def DrawnTo (x y : ℤ) : Prop :=
  surface.bounds.Mem x y ∧ (surface.clipped=true → surface.clipRect.Mem x y) ∧
    Rect.Mem ⟨left,top,src.width,src.height⟩ x y

/-- Drawing an image gives Porter-Duff "over" within the clip, and nothing else but what is
then dirty changes. -/
structure DrawsOver : Prop where
  blended : ∀ x y, DrawnTo surface left top src x y→∀ shift∈componentShifts,
    IsOver (surface.buffer x y) (src.pixels (x-left) (y-top))
      ((guacCommonSurfaceDraw supportsWebp surface left top src time).buffer x y) shift
  others : ∀ x y, surface.bounds.Mem x y→¬DrawnTo surface left top src x y →
    (guacCommonSurfaceDraw supportsWebp surface left top src time).buffer x y=surface.buffer x y
  dirty : ∀ x y, (guacCommonSurfaceDraw supportsWebp surface left top src time).buffer x y≠
      surface.buffer x y →
    (guacCommonSurfaceDraw supportsWebp surface left top src time).Dirty x y

variable {surface left top src} {x y : ℤ}

theorem drawnTo_iff (hbounds : surface.bounds.Mem x y) :
    DrawnTo surface left top src x y ↔ (drawnRect surface left top src).Mem x y := by
  unfold DrawnTo drawnRect guacCommonClipRect
  split
  · rename_i hclipped
    rw [mem_constrain]
    exact ⟨fun h => ⟨h.2.2,h.2.1 hclipped⟩,fun h => ⟨hbounds,fun _ => h.2,h.1⟩⟩
  · rename_i hclipped
    rw [mem_boundRect]
    exact ⟨fun h => ⟨h.2.2,hbounds⟩,fun h => ⟨hbounds,fun h' => absurd h' hclipped,h.1⟩⟩

/-- The colors that are blended where an image with alpha is drawn. -/
theorem drawnPixels_of_drawnTo (hargb : src.isArgb=true) (h : DrawnTo surface left top src x y) :
    drawnPixels surface left top src x y=
      guacCommonSurfaceArgbBlend (surface.buffer x y) (src.pixels (x-left) (y-top)) := by
  have hx : (drawnRect surface left top src).x-left+
      (x-(drawnRect surface left top src).x)=x-left := by omega
  have hy : (drawnRect surface left top src).y-top+
      (y-(drawnRect surface left top src).y)=y-top := by omega
  unfold drawnPixels putPixels
  rw [if_pos ((drawnTo_iff h.1).mp h),hx,hy,hargb]
  rfl

/-- Drawing a premultiplied image with alpha is Porter-Duff "over" exactly if, wherever it
is drawn, the missing division does not matter. -/
theorem drawsOver_iff (supportsWebp : Bool) (surface : CommonSurface) (left top : ℤ) (src : Image)
    (time : ℤ) (hargb : src.isArgb=true) (hsrc : src.IsPremultiplied) :
    DrawsOver supportsWebp surface left top src time ↔
      ∀ x y, DrawnTo surface left top src x y→∀ shift∈componentShifts,
        BlendsOver (surface.buffer x y) (src.pixels (x-left) (y-top)) shift := by
  have hover : ∀ x y, DrawnTo surface left top src x y→∀ shift∈componentShifts,
      (IsOver (surface.buffer x y) (src.pixels (x-left) (y-top))
        ((guacCommonSurfaceDraw supportsWebp surface left top src time).buffer x y) shift ↔
      BlendsOver (surface.buffer x y) (src.pixels (x-left) (y-top)) shift) := by
    intro x y hdrawn shift hshift
    have hpixel : Rect.Mem ⟨0,0,src.width,src.height⟩ (x-left) (y-top) := by
      obtain ⟨⟨hx,hx'⟩,hy,hy'⟩ := hdrawn.2.2
      dsimp only at hx hx' hy hy'
      exact ⟨⟨by dsimp only; omega,by dsimp only; omega⟩,by dsimp only; omega,by dsimp only; omega⟩
    rw [draw_buffer,drawnPixels_of_drawnTo hargb hdrawn]
    exact isOver_argbBlend_iff _ _ hshift (hsrc _ _ hpixel shift hshift)
  constructor
  · intro h x y hdrawn shift hshift
    exact (hover x y hdrawn shift hshift).mp (h.blended x y hdrawn shift hshift)
  · intro h
    refine ⟨fun x y hdrawn shift hshift =>
      (hover x y hdrawn shift hshift).mpr (h x y hdrawn shift hshift),
      fun x y hbounds hnot => ?_,fun x y => draw_dirty supportsWebp surface left top src time⟩
    rw [draw_buffer]
    exact if_neg fun hmem => hnot ((drawnTo_iff hbounds).mpr hmem)

/-- An image of one pixel. -/
def onePixelImage (color : Pixel) : Image := ⟨1,1,fun _ _ => color,true⟩

/-- A black surface of one pixel. -/
def blackSurface : CommonSurface :=
  { guacCommonSurfaceAlloc [] 0 1 1 with buffer := fun _ _ => 0xFF000000 }

/-- A translucent image shows its colors on a black surface. -/
theorem drawsOver_iff_translucent :
    DrawsOver false blackSurface 0 0 (onePixelImage 0x80402010) 0 := by
  have hsrc : ∀ shift∈componentShifts,
      component (0x80402010 : Pixel) shift≤component (0x80402010 : Pixel) 24 := by decide
  have hblends : ∀ shift∈componentShifts, BlendsOver 0xFF000000 0x80402010 shift := by decide
  exact (drawsOver_iff false blackSurface 0 0 (onePixelImage 0x80402010) 0 rfl
    fun _ _ _ => hsrc).mpr fun _ _ _ => hblends

/-- Half transparent black on half-bright grey gives white. -/
theorem not_drawsOver : ¬DrawsOver false
    { guacCommonSurfaceAlloc [] 0 1 1 with buffer := fun _ _ => 0xFF808080 } 0 0
    (onePixelImage 0x80000000) 0 := by
  intro h
  have hpixel := h.blended 0 0 ⟨by decide,fun hclipped => Bool.noConfusion hclipped,by decide⟩ 0
    (by decide)
  rw [draw_buffer,isOver_iff_bounds] at hpixel
  revert hpixel
  decide

end GuacServer.Surface
