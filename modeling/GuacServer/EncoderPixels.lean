import GuacServer.EncoderNulls
import GuacServer.TreeFold

/-!
# Pixels of the drawing buffers

A Cairo whose surfaces have pixels and whose contexts have a source, a path and a
clip. A surface of a size that Cairo does not support cannot be drawn to or from,
and a context that meets one draws no more. How pixels blend is left open, but for
replacing them and for sources without any opacity.
-/

namespace GuacServer.EncoderDisplay

/-- How pixels are combined. -/
structure Blending (P : Type) where
  clear : P
  colour : ℤ→ℤ→ℤ→ℤ→P
  combine : CairoOperator→P→P→P
  fade : ℤ→P→P
  combine_source : ∀ p q, combine .source p q=p
  combine_transparent : ∀ p q, combine .over (fade 0 p) q=q

/-- Numbers as colours, of which all but zero are opaque. -/
def opaqueColours : Blending ℕ where
  clear := 0
  colour r _ _ _ := r.toNat
  combine operator p q := if operator=.source then p else if p=0 then q else p
  fade opacity p := if opacity=0 then 0 else p
  combine_source _ _ := rfl
  combine_transparent _ _ := rfl

/-- The pixels of a surface. -/
structure Picture (P : Type) where
  width : ℤ
  height : ℤ
  pixel : ℤ→ℤ→P

/-- A surface of a size that Cairo supports. -/
def Picture.Valid {P : Type} (picture : Picture P) : Prop :=
  (0≤picture.width ∧ picture.width≤32767) ∧ 0≤picture.height ∧ picture.height≤32767

instance {P : Type} (picture : Picture P) : Decidable picture.Valid :=
  inferInstanceAs (Decidable ((0≤picture.width ∧ picture.width≤32767) ∧
    0≤picture.height ∧ picture.height≤32767))

/-- A context. Regions are the pixels within them, for rectangles of no negative
size. -/
structure Context (P : Type) where
  operator : CairoOperator
  source : ℤ→ℤ→P
  path : ℤ→ℤ→Bool
  clipped : ℤ→ℤ→Bool
  failed : Bool

variable {P : Type}

/-- The pixels of a rectangle. -/
def inRectangle (x y width height i j : ℤ) : Bool := decide (x ≤ i ∧ i<x+width ∧ y≤j ∧ j<y+height)

/-- The pixel of a picture, which is clear around it. -/
def Blending.read (blending : Blending P) (picture : Picture P) (i j : ℤ) : P :=
  if inRectangle 0 0 picture.width picture.height i j then picture.pixel i j else blending.clear

/-- The pixels of a region are combined with a source, unless the context has
failed. -/
def Blending.draw (blending : Blending P) (cairo : Context P) (region : ℤ→ℤ→Bool)
    (source : ℤ→ℤ→P) (picture : Picture P) : Picture P :=
  if cairo.failed then picture
  else
    { picture with
      pixel := fun i j =>
        if region i j then blending.combine cairo.operator (source i j) (picture.pixel i j)
        else picture.pixel i j }

/-- Cairo with pixels. -/
def Cairo.pixels (blending : Blending P) : Cairo (Picture P) (Context P) where
  formatStrideForWidth width := if 0≤width ∧ width<67108863 then 4*width else -1
  imageSurfaceCreateForData _ width height _ := ⟨width,height,fun _ _ => blending.clear⟩
  imageSurfaceCreate width height := ⟨width,height,fun _ _ => blending.clear⟩
  imageSurfaceGetWidth picture := picture.width
  imageSurfaceGetHeight picture := picture.height
  create picture :=
    ⟨.over,fun _ _ => blending.colour 0 0 0 255,fun _ _ => false,fun _ _ => true,
      !decide picture.Valid⟩
  resetClip cairo := { cairo with clipped := fun _ _ => true }
  clip cairo :=
    { cairo with
      clipped := fun i j => cairo.clipped i j && cairo.path i j
      path := fun _ _ => false }
  rectangle x y width height cairo :=
    { cairo with path := fun i j => cairo.path i j || inRectangle x y width height i j }
  setOperator operator cairo := { cairo with operator := operator }
  setSourceSurface picture x y cairo :=
    { cairo with
      source := fun i j => blending.read picture (i-x) (j-y)
      failed := cairo.failed || !decide picture.Valid }
  setSourceRgba r g b a cairo := { cairo with source := fun _ _ => blending.colour r g b a }
  paint cairo picture := blending.draw cairo cairo.clipped cairo.source picture
  paintWithAlpha opacity cairo picture :=
    blending.draw cairo cairo.clipped (fun i j => blending.fade opacity (cairo.source i j)) picture
  fill cairo picture :=
    blending.draw cairo (fun i j => cairo.clipped i j && cairo.path i j) cairo.source picture
  pathFilled cairo := { cairo with path := fun _ _ => false }

/-- A buffer whose surface has its size, which Cairo supports. -/
structure Buffer.Whole (buffer : Buffer (Picture P) (Context P)) : Prop where
  consistent : buffer.Consistent
  valid : ∀ picture, buffer.surface=some picture → picture.Valid
  width : ∀ picture, buffer.surface=some picture → picture.width=buffer.width
  height : ∀ picture, buffer.surface=some picture → picture.height=buffer.height

/-- A context without an error and without a path. -/
structure Context.AtRest (cairo : Context P) : Prop where
  failed : cairo.failed=false
  path : cairo.path=fun _ _ => false

/-- The pixels that a buffer shows. -/
def Buffer.canvas (blending : Blending P) (buffer : Buffer (Picture P) (Context P)) (i j : ℤ) : P :=
  match buffer.surface with
  | none => blending.clear
  | some picture => blending.read picture i j

/-- What the frame of a layer is to be while the display is flattened: it has the
size of the layer and shows a canvas, and its context draws over it. -/
structure Buffer.Shows (canvas : ℤ→ℤ→P) (width height : ℤ)
    (frame : Buffer (Picture P) (Context P)) : Prop where
  whole : frame.Whole
  width : frame.width=width
  height : frame.height=height
  pixel : ∀ picture, frame.surface=some picture → picture.pixel=canvas
  atRest : ∀ cairo, frame.cairo=some cairo → cairo.AtRest ∧ cairo.operator=.over

variable {blending : Blending P}

/-- Drawing keeps the size of a picture. -/
@[simp]
theorem draw_width (cairo : Context P) (region : ℤ→ℤ→Bool) (source : ℤ→ℤ→P) (picture : Picture P) :
    (blending.draw cairo region source picture).width=picture.width := by
  unfold Blending.draw
  split_ifs
  · rfl
  · rfl

@[simp]
theorem draw_height (cairo : Context P) (region : ℤ→ℤ→Bool) (source : ℤ→ℤ→P) (picture : Picture P) :
    (blending.draw cairo region source picture).height=picture.height := by
  unfold Blending.draw
  split_ifs
  · rfl
  · rfl

theorem valid_of_size {picture picture' : Picture P} (h : picture.Valid)
    (hwidth : picture'.width=picture.width) (hheight : picture'.height=picture.height) :
    picture'.Valid := by
  unfold Picture.Valid
  rw [hwidth,hheight]
  exact h

/-- A new image has the size asked for, and a context that is at rest. -/
theorem newImage_spec {image : Bool} {width height stride : ℤ} {old : Option (Picture P)}
    (hvalid : (⟨width,height,fun _ _ => blending.clear⟩ : Picture P).Valid)
    (hold : ∀ picture, old=some picture → picture.Valid) :
    (newImage (.pixels blending) image width height stride old).1.width=width ∧
      (newImage (.pixels blending) image width height stride old).1.height=height ∧
      (newImage (.pixels blending) image width height stride old).2.AtRest := by
  unfold newImage
  cases old with
  | none => exact ⟨rfl,rfl,by simpa [Cairo.pixels] using hvalid,rfl⟩
  | some picture =>
    refine ⟨draw_width ..,draw_height ..,?_,rfl⟩
    simp [Cairo.pixels,hvalid,hold picture rfl]

/-- A buffer stays whole at a new size that Cairo supports, and its context at
rest. -/
theorem resize_whole {calloc : ℕ→Bool} {buffer : Buffer (Picture P) (Context P)}
    (h : buffer.Whole) (hrest : ∀ cairo, buffer.cairo=some cairo → cairo.AtRest)
    {width height : ℤ}
    (hvalid : ¬(width=0 ∨ height=0) →
      (⟨width,height,fun _ _ => blending.clear⟩ : Picture P).Valid) :
    (guacencBufferResize (.pixels blending) calloc buffer width height).Whole ∧
      ∀ cairo, (guacencBufferResize (.pixels blending) calloc buffer width height).cairo=
        some cairo → cairo.AtRest := by
  unfold guacencBufferResize
  split_ifs with hsame hempty
  · exact ⟨h,hrest⟩
  · refine ⟨⟨⟨iff_of_true rfl hempty,iff_of_true rfl hempty⟩,?_,?_,?_⟩,?_⟩
    all_goals
      intro _ hnone
      cases hnone
  · obtain ⟨hwidth,hheight,hnew⟩ :
        (newImage (.pixels blending) (calloc (imageSize (.pixels blending) width height)) width
          height ((Cairo.pixels blending).formatStrideForWidth width) buffer.surface).1.width=
            width ∧ _ ∧ _ := newImage_spec (hvalid hempty) h.valid
    refine ⟨⟨⟨iff_of_false (by simp) hempty,iff_of_false (by simp) hempty⟩,?_,?_,?_⟩,?_⟩
    · intro picture hpicture
      cases hpicture
      exact valid_of_size (hvalid hempty) hwidth hheight
    · intro picture hpicture
      cases hpicture
      exact hwidth
    · intro picture hpicture
      cases hpicture
      exact hheight
    · intro cairo hcairo
      cases hcairo
      exact hnew

/-- The frame of a layer that is reset shows the buffer of the layer, and nothing
is clipped. -/
theorem copy_shows {calloc : ℕ→Bool} {frame buffer : Buffer (Picture P) (Context P)}
    (hframe : frame.Whole) (hrest : ∀ cairo, frame.cairo=some cairo → cairo.AtRest)
    (hbuffer : buffer.Whole) :
    ∃ copied, guacencBufferCopy (.pixels blending) calloc frame buffer=.ok copied ∧
      copied.Shows (buffer.canvas blending) buffer.width buffer.height ∧
      ∀ cairo, copied.cairo=some cairo → cairo.clipped=fun _ _ => true := by
  obtain ⟨hwhole,hatRest⟩ :
      (guacencBufferResize (.pixels blending) calloc frame buffer.width buffer.height).Whole ∧ _ :=
    resize_whole hframe hrest fun hempty => by
      obtain ⟨picture,hpicture⟩ : ∃ picture, buffer.surface=some picture := by
        rw [←Option.ne_none_iff_exists']
        exact fun hnone => hempty (hbuffer.consistent.surface.mp hnone)
      exact valid_of_size (hbuffer.valid picture hpicture) (hbuffer.width picture hpicture).symm
        (hbuffer.height picture hpicture).symm
  obtain ⟨hwidth,hheight⟩ := resize_size (.pixels blending) calloc frame buffer.width buffer.height
  unfold guacencBufferCopy Buffer.canvas
  generalize guacencBufferResize (.pixels blending) calloc frame buffer.width buffer.height=
    resized at hwhole hatRest hwidth hheight
  cases hsurface : buffer.surface with
  | none =>
    have hempty : resized.width=0 ∨ resized.height=0 := by
      rw [hwidth,hheight]
      exact hbuffer.consistent.surface.mp hsurface
    have hnoSurface := hwhole.consistent.surface.mpr hempty
    have hnoCairo := hwhole.consistent.cairo.mpr hempty
    refine ⟨resized,rfl,⟨hwhole,hwidth,hheight,?_,?_⟩,?_⟩
    · intro picture hpicture
      rw [hnoSurface] at hpicture
      cases hpicture
    · intro cairo hcairo
      rw [hnoCairo] at hcairo
      cases hcairo
    · intro cairo hcairo
      rw [hnoCairo] at hcairo
      cases hcairo
  | some picture =>
    have hpixels : ¬(resized.width=0 ∨ resized.height=0) := by
      rw [hwidth,hheight,←hbuffer.consistent.surface,hsurface]
      simp
    obtain ⟨old,hold⟩ : ∃ old, resized.surface=some old := by
      rw [←Option.ne_none_iff_exists']
      exact fun hnone => hpixels (hwhole.consistent.surface.mp hnone)
    obtain ⟨cairo,hcairo⟩ : ∃ cairo, resized.cairo=some cairo := by
      rw [←Option.ne_none_iff_exists']
      exact fun hnone => hpixels (hwhole.consistent.cairo.mp hnone)
    have hcontext := hatRest cairo hcairo
    dsimp only
    rw [hcairo]
    refine ⟨_,rfl,⟨⟨⟨?_,?_⟩,?_,?_,?_⟩,hwidth,hheight,?_,?_⟩,?_⟩
    · exact iff_of_false (by simp [Buffer.painted,hold]) hpixels
    · exact iff_of_false (by simp) hpixels
    · intro painted hpainted
      simp only [Buffer.painted,hold,Option.map_some,Option.some.injEq] at hpainted
      rw [←hpainted]
      exact valid_of_size (hwhole.valid old hold) (draw_width ..) (draw_height ..)
    · intro painted hpainted
      simp only [Buffer.painted,hold,Option.map_some,Option.some.injEq] at hpainted
      rw [←hpainted]
      exact (draw_width ..).trans (hwhole.width old hold)
    · intro painted hpainted
      simp only [Buffer.painted,hold,Option.map_some,Option.some.injEq] at hpainted
      rw [←hpainted]
      exact (draw_height ..).trans (hwhole.height old hold)
    · intro painted hpainted
      simp only [Buffer.painted,hold,Option.map_some,Option.some.injEq] at hpainted
      rw [←hpainted]
      funext i j
      simp [Cairo.pixels,Blending.draw,hcontext.failed,hbuffer.valid picture hsurface,
        blending.combine_source]
    · intro cairo' hcairo'
      cases hcairo'
      refine ⟨⟨?_,hcontext.path⟩,rfl⟩
      simp [Cairo.pixels,hcontext.failed,hbuffer.valid picture hsurface]
    · intro cairo' hcairo'
      cases hcairo'
      rfl

/-- A canvas drawn over another one at a point, clipped to a size, with an opacity. -/
def Blending.drawOver (blending : Blending P) (opacity x y width height : ℤ)
    (child canvas : ℤ→ℤ→P) (i j : ℤ) : P :=
  if inRectangle x y width height i j then
    blending.combine .over (blending.fade opacity (child (i-x) (j-y))) (canvas i j)
  else canvas i j

/-- Drawing without any opacity changes nothing. -/
theorem drawOver_transparent (x y width height : ℤ) (child canvas : ℤ→ℤ→P) :
    blending.drawOver 0 x y width height child canvas=canvas := by
  funext i j
  unfold Blending.drawOver
  split_ifs
  · exact blending.combine_transparent _ _
  · rfl

/-- Drawing what is empty changes nothing. -/
theorem drawOver_empty (opacity x y : ℤ) {width height : ℤ} (h : width=0 ∨ height=0)
    (child canvas : ℤ→ℤ→P) :
    blending.drawOver opacity x y width height child canvas=canvas := by
  funext i j
  unfold Blending.drawOver
  rw [if_neg]
  simp only [inRectangle,decide_eq_true_eq]
  omega

variable {picture : Picture P}

theorem read_inside {x y i j : ℤ}
    (h : inRectangle x y picture.width picture.height i j=true) :
    blending.read picture (i-x) (j-y)=picture.pixel (i-x) (j-y) := by
  unfold Blending.read
  rw [if_pos]
  simp only [inRectangle,decide_eq_true_eq] at h ⊢
  omega

/-- The frame of a parent onto which the frame of a layer is rendered. -/
theorem frame_drawOver {canvas child : ℤ→ℤ→P} {width height childWidth childHeight : ℤ}
    {parent frame : Buffer (Picture P) (Context P)} (hparent : parent.Shows canvas width height)
    (hframe : frame.Shows child childWidth childHeight) (hpicture : frame.surface=some picture)
    {cairo : Context P}
    (hcairo : parent.cairo=some cairo) (opacity x y : ℤ) :
    Buffer.Shows (blending.drawOver opacity x y childWidth childHeight child canvas) width height
      { parent with
        surface := parent.surface.map ((Cairo.pixels blending).paintWithAlpha opacity
          ((Cairo.pixels blending).setSourceSurface picture x y
            ((Cairo.pixels blending).clip ((Cairo.pixels blending).rectangle x y frame.width
              frame.height ((Cairo.pixels blending).resetClip cairo)))))
        cairo := some ((Cairo.pixels blending).setSourceSurface picture x y
          ((Cairo.pixels blending).clip ((Cairo.pixels blending).rectangle x y frame.width
            frame.height ((Cairo.pixels blending).resetClip cairo)))) } := by
  obtain ⟨hrest,hoperator⟩ := hparent.atRest cairo hcairo
  have hpixels : ¬(parent.width=0 ∨ parent.height=0) := by
    rw [←hparent.whole.consistent.cairo,hcairo]
    simp
  refine ⟨⟨⟨?_,iff_of_false (by simp) hpixels⟩,?_,?_,?_⟩,hparent.width,hparent.height,?_,?_⟩
  · rw [Option.map_eq_none_iff]
    exact hparent.whole.consistent.surface
  · intro drawn hdrawn
    obtain ⟨old,hold,rfl⟩ := Option.map_eq_some_iff.mp hdrawn
    exact valid_of_size (hparent.whole.valid old hold) (draw_width ..) (draw_height ..)
  · intro drawn hdrawn
    obtain ⟨old,hold,rfl⟩ := Option.map_eq_some_iff.mp hdrawn
    exact (draw_width ..).trans (hparent.whole.width old hold)
  · intro drawn hdrawn
    obtain ⟨old,hold,rfl⟩ := Option.map_eq_some_iff.mp hdrawn
    exact (draw_height ..).trans (hparent.whole.height old hold)
  · intro drawn hdrawn
    obtain ⟨old,hold,rfl⟩ := Option.map_eq_some_iff.mp hdrawn
    have hunfailed : (cairo.failed || !decide picture.Valid)=false := by
      simp [hrest.failed,hframe.whole.valid picture hpicture]
    funext i j
    unfold Blending.drawOver
    simp only [Cairo.pixels,Blending.draw,hunfailed,hrest.path,hoperator,Bool.false_or,
      Bool.true_and,if_neg Bool.false_ne_true,hframe.width,hframe.height,hparent.pixel old hold]
    split_ifs with hinside
    · rw [←hframe.pixel picture hpicture,read_inside]
      rw [hframe.whole.width picture hpicture,hframe.whole.height picture hpicture,hframe.width,
        hframe.height]
      exact hinside
    · rfl
  · intro cairo' hcairo'
    cases hcairo'
    refine ⟨⟨?_,rfl⟩,hoperator⟩
    simp [Cairo.pixels,hrest.failed,hframe.whole.valid picture hpicture]

/-- A canvas with a picture drawn over it at a point. -/
def Blending.drawPicture (blending : Blending P) (picture : Picture P) (x y width height : ℤ)
    (canvas : ℤ→ℤ→P) (i j : ℤ) : P :=
  if inRectangle x y width height i j then
    blending.combine .over (blending.read picture (i-x) (j-y)) (canvas i j)
  else canvas i j

/-- What a frame shows once a picture has been filled in at a point, within the
clip that its context has. -/
theorem filled_pixel {canvas : ℤ→ℤ→P} {width height : ℤ}
    {frame : Buffer (Picture P) (Context P)} (hframe : frame.Shows canvas width height)
    {cairo : Context P} (hcairo : frame.cairo=some cairo) (hvalid : picture.Valid)
    (x y pictureWidth pictureHeight : ℤ) {drawn : Picture P}
    (hdrawn : (frame.filled (.pixels blending) ((Cairo.pixels blending).rectangle x y pictureWidth
      pictureHeight ((Cairo.pixels blending).setSourceSurface picture x y cairo))).surface=
        some drawn) :
    drawn.pixel=fun i j =>
      if cairo.clipped i j then
        blending.drawPicture picture x y pictureWidth pictureHeight canvas i j
      else canvas i j := by
  obtain ⟨hrest,hoperator⟩ := hframe.atRest cairo hcairo
  obtain ⟨old,hold,rfl⟩ := Option.map_eq_some_iff.mp hdrawn
  have hunfailed : (cairo.failed || !decide picture.Valid)=false := by
    simp [hrest.failed,hvalid]
  funext i j
  unfold Blending.drawPicture
  simp only [Cairo.pixels,Blending.draw,hunfailed,hrest.path,hoperator,Bool.false_or,
    if_neg Bool.false_ne_true,hframe.pixel old hold]
  cases cairo.clipped i j with
  | true => simp
  | false => simp

end GuacServer.EncoderDisplay
