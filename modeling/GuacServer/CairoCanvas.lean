import GuacServer.EncoderCanvases
import GuacServer.EncoderPixels

/-!
# Canvases with a path

A Cairo whose contexts have a path that rectangles are added to and that filling consumes. A
point is filled where the path winds around it, so that rectangles of one negative size count
against others. Some operators are not bounded by what is filled: they clear the rest. A new
image takes over what the old one shows.
-/

namespace GuacServer.EncoderDisplay

variable {P C : Type}

/-- An operator changes only what is filled. -/
def CairoOperator.bounded : CairoOperator→Bool
  | .opIn | .opOut | .destIn | .destAtop => false
  | _ => true

/-- How pixels are combined, where drawing over a clear pixel gives the source. -/
structure CairoBlending (P : Type) extends Blending P where
  combine_clear : ∀ p, combine .over p clear=p

/-- A context, whose path winds around points. -/
structure PathContext (P : Type) where
  operator : CairoOperator
  source : ℤ→ℤ→P
  winding : ℤ→ℤ→ℤ
  clipped : ℤ→ℤ→Bool
  failed : Bool

/-- How often a rectangle winds around a pixel. -/
def rectangleWinding (x y width height i j : ℤ) : ℤ :=
  if (min x (x+width) ≤ i ∧ i < max x (x+width)) ∧ min y (y+height)≤j ∧ j < max y (y+height) then
    width.sign*height.sign
  else 0

/-- The pixels of a region are combined with a source, and the others are cleared by an
operator that is not bounded, unless the context has failed. -/
def Blending.drawPath (blending : Blending P) (cairo : PathContext P) (region : ℤ→ℤ→Bool)
    (source : ℤ→ℤ→P) (picture : Picture P) : Picture P :=
  if cairo.failed then picture
  else
    { picture with
      pixel := fun i j =>
        if cairo.clipped i j then
          if region i j then blending.combine cairo.operator (source i j) (picture.pixel i j)
          else if cairo.operator.bounded then picture.pixel i j
          else blending.clear
        else picture.pixel i j }

/-- Sizes of surfaces that Cairo supports. -/
def Supported (width height : ℤ) : Prop := (0≤width ∧ width≤32767) ∧ 0≤height ∧ height≤32767

instance (width height : ℤ) : Decidable (Supported width height) :=
  inferInstanceAs (Decidable (_ ∧ _))

/-- Cairo with pixels and paths. -/
def Cairo.canvas (blending : Blending P) : Cairo (Picture P) (PathContext P) where
  formatStrideForWidth width := if 0≤width ∧ width<67108863 then 4*width else -1
  imageSurfaceCreateForData _ width height _ := ⟨width,height,fun _ _ => blending.clear⟩
  imageSurfaceCreate width height := ⟨width,height,fun _ _ => blending.clear⟩
  imageSurfaceGetWidth picture := picture.width
  imageSurfaceGetHeight picture := picture.height
  create picture :=
    ⟨.over,fun _ _ => blending.colour 0 0 0 255,fun _ _ => 0,fun _ _ => true,!decide picture.Valid⟩
  resetClip cairo := { cairo with clipped := fun _ _ => true }
  clip cairo :=
    { cairo with
      clipped := fun i j => cairo.clipped i j && cairo.winding i j != 0
      winding := fun _ _ => 0 }
  rectangle x y width height cairo :=
    { cairo with winding := fun i j => cairo.winding i j+rectangleWinding x y width height i j }
  setOperator operator cairo := { cairo with operator := operator }
  setSourceSurface picture x y cairo :=
    { cairo with
      source := fun i j => blending.read picture (i-x) (j-y)
      failed := cairo.failed || !decide picture.Valid }
  setSourceRgba r g b a cairo := { cairo with source := fun _ _ => blending.colour r g b a }
  paint cairo picture := blending.drawPath cairo (fun _ _ => true) cairo.source picture
  paintWithAlpha opacity cairo picture :=
    blending.drawPath cairo (fun _ _ => true)
      (fun i j => blending.fade opacity (cairo.source i j)) picture
  fill cairo picture :=
    blending.drawPath cairo (fun i j => cairo.winding i j != 0) cairo.source picture
  pathFilled cairo := { cairo with winding := fun _ _ => 0 }

/-- What a buffer shows, which is clear around its surface. -/
def Blending.shown (blending : Blending P) (buffer : Buffer (Picture P) C) (i j : ℤ) : P :=
  match buffer.surface with
  | none => blending.clear
  | some picture => blending.read picture i j

/-- A buffer whose surface has its size, and whose context is not clipped and has failed if
Cairo does not support the size. -/
structure Buffer.Ready (buffer : Buffer (Picture P) (PathContext P)) : Prop where
  consistent : buffer.Consistent
  width : ∀ picture, buffer.surface=some picture → picture.width=buffer.width
  height : ∀ picture, buffer.surface=some picture → picture.height=buffer.height
  unclipped : ∀ cairo, buffer.cairo=some cairo → cairo.clipped=fun _ _ => true
  supported : ∀ cairo, buffer.cairo=some cairo → cairo.failed=false →
    Supported buffer.width buffer.height

/-- A new image of a size is drawn on, and takes over what the buffer shows. -/
def Buffer.TakesOver (buffer : Buffer (Picture P) (PathContext P)) (width height : ℤ) : Prop :=
  Supported width height ∧ ∀ picture, buffer.surface=some picture → picture.Valid

instance (buffer : Buffer (Picture P) (PathContext P)) (width height : ℤ) :
    Decidable (buffer.TakesOver width height) :=
  inferInstanceAs (Decidable (_ ∧ _))

/-- The context of a buffer, which is a new one at another size, can draw. -/
def Buffer.Accepts (buffer : Buffer (Picture P) (PathContext P)) (width height : ℤ) : Prop :=
  if buffer.width=width ∧ buffer.height=height then
    ∀ cairo, buffer.cairo=some cairo → cairo.failed=false
  else buffer.TakesOver width height

/-- What a buffer shows at a size before it is drawn on: what it showed, unless Cairo does not
support a size. -/
def Blending.kept (blending : Blending P) (buffer : Buffer (Picture P) (PathContext P))
    (width height i j : ℤ) : P :=
  if (buffer.width=width ∧ buffer.height=height) ∨ buffer.TakesOver width height then
    blending.shown buffer i j
  else blending.clear

variable {blending : Blending P} {buffer : Buffer (Picture P) (PathContext P)}

@[simp]
theorem drawPath_width (cairo : PathContext P) (region : ℤ→ℤ→Bool) (source : ℤ→ℤ→P)
    (picture : Picture P) :
    (blending.drawPath cairo region source picture).width=picture.width := by
  unfold Blending.drawPath
  by_cases hfailed : cairo.failed=true
  · rw [if_pos hfailed]
  · rw [if_neg hfailed]

@[simp]
theorem drawPath_height (cairo : PathContext P) (region : ℤ→ℤ→Bool) (source : ℤ→ℤ→P)
    (picture : Picture P) :
    (blending.drawPath cairo region source picture).height=picture.height := by
  unfold Blending.drawPath
  by_cases hfailed : cairo.failed=true
  · rw [if_pos hfailed]
  · rw [if_neg hfailed]

/-- A context fails with its source, if that has a size that Cairo does not support. -/
theorem source_fails_iff {cairo : PathContext P} {surface : Picture P} :
    (cairo.failed || !decide surface.Valid)=true ↔ ¬(cairo.failed=false ∧ surface.Valid) := by
  rw [←Bool.not_eq_false,Bool.or_eq_false_iff,Bool.not_eq_false',decide_eq_true_iff]

/-- What remains ready keeps its size, its context its clip and its failure. -/
theorem Buffer.Ready.redrawn (h : buffer.Ready) {draw : Picture P→Picture P}
    (hwidth : ∀ picture, (draw picture).width=picture.width)
    (hheight : ∀ picture, (draw picture).height=picture.height) {cairo cairo' : PathContext P}
    (hcairo : buffer.cairo=some cairo) (hclipped : cairo'.clipped=cairo.clipped)
    (hfailed : cairo'.failed=false → cairo.failed=false) :
    ({ buffer with surface := buffer.surface.map draw, cairo := some cairo' } :
      Buffer (Picture P) (PathContext P)).Ready := by
  have hpixels : ¬(buffer.width=0 ∨ buffer.height=0) := by
    rw [←h.consistent.cairo,hcairo]
    simp
  refine ⟨⟨?_,iff_of_false (by simp) hpixels⟩,?_,?_,?_,?_⟩
  · rw [Option.map_eq_none_iff]
    exact h.consistent.surface
  · intro picture hpicture
    obtain ⟨old,hold,rfl⟩ := Option.map_eq_some_iff.mp hpicture
    exact (hwidth old).trans (h.width old hold)
  · intro picture hpicture
    obtain ⟨old,hold,rfl⟩ := Option.map_eq_some_iff.mp hpicture
    exact (hheight old).trans (h.height old hold)
  · intro other hother
    cases hother
    exact hclipped.trans (h.unclipped cairo hcairo)
  · intro other hother hunfailed
    cases hother
    exact h.supported cairo hcairo (hfailed hunfailed)

/-- The surface and the context of a new image. -/
theorem newImage_canvas (blending : Blending P) (image : Bool) (width height stride : ℤ)
    (old : Option (Picture P)) :
    (newImage (.canvas blending) image width height stride old).1.width=width ∧
      (newImage (.canvas blending) image width height stride old).1.height=height ∧
      (newImage (.canvas blending) image width height stride old).2.winding=(fun _ _ => 0) ∧
      (newImage (.canvas blending) image width height stride old).2.clipped=(fun _ _ => true) ∧
      ((newImage (.canvas blending) image width height stride old).2.failed=false ↔
        Supported width height ∧ ∀ picture, old=some picture → picture.Valid) := by
  unfold newImage
  cases old with
  | none =>
    refine ⟨rfl,rfl,rfl,rfl,?_⟩
    change (!decide (Picture.Valid ⟨width,height,_⟩))=false ↔ _
    rw [Bool.not_eq_false',decide_eq_true_iff]
    exact ⟨fun hvalid => ⟨hvalid,fun _ hnone => by cases hnone⟩,And.left⟩
  | some picture =>
    refine ⟨drawPath_width ..,drawPath_height ..,rfl,rfl,?_⟩
    change (!decide (Picture.Valid ⟨width,height,_⟩) || !decide picture.Valid)=false ↔ _
    rw [Bool.or_eq_false_iff,Bool.not_eq_false',Bool.not_eq_false',decide_eq_true_iff,
      decide_eq_true_iff]
    refine and_congr_right fun _ => ⟨fun hvalid _ hsame => ?_,fun hvalid => hvalid picture rfl⟩
    cases hsame
    exact hvalid

/-- What is drawn through a context without a failure and a clip. -/
theorem drawPath_pixel {cairo : PathContext P} (hfailed : cairo.failed=false)
    (hclipped : cairo.clipped=fun _ _ => true) (region : ℤ→ℤ→Bool) (source : ℤ→ℤ→P)
    (picture : Picture P) (i j : ℤ) :
    (blending.drawPath cairo region source picture).pixel i j=
      if region i j then blending.combine cairo.operator (source i j) (picture.pixel i j)
      else if cairo.operator.bounded then picture.pixel i j
      else blending.clear := by
  unfold Blending.drawPath
  rw [if_neg (by simp [hfailed])]
  dsimp only
  rw [hclipped,if_pos rfl]

/-- What a picture shows once something is drawn on it through a context without a clip. -/
theorem read_drawPath {cairo : PathContext P} (hclipped : cairo.clipped=fun _ _ => true)
    (region : ℤ→ℤ→Bool) (source : ℤ→ℤ→P) {picture : Picture P} {i j : ℤ}
    (hinside : inRectangle 0 0 picture.width picture.height i j=true) :
    blending.read (blending.drawPath cairo region source picture) i j=
      if cairo.failed then blending.read picture i j
      else if region i j then
        blending.combine cairo.operator (source i j) (blending.read picture i j)
      else if cairo.operator.bounded then blending.read picture i j
      else blending.clear := by
  have hread : blending.read picture i j=picture.pixel i j := if_pos hinside
  rw [hread,Blending.read,drawPath_width,drawPath_height,if_pos hinside]
  cases hfailed : cairo.failed with
  | true => rw [if_pos rfl,Blending.drawPath,if_pos hfailed]
  | false => rw [if_neg Bool.false_ne_true,drawPath_pixel hfailed hclipped]

/-- A new image has the pixels of the old one, if nothing fails. -/
theorem newImage_pixel (blending : CairoBlending P) (image : Bool) (width height stride : ℤ)
    (old : Option (Picture P)) (i j : ℤ) :
    (newImage (.canvas blending.toBlending) image width height stride old).1.pixel i j=
      if (newImage (.canvas blending.toBlending) image width height stride old).2.failed then
        blending.clear
      else (old.elim (fun _ _ => blending.clear) blending.read) i j := by
  cases old with
  | none =>
    rw [Option.elim_none,ite_self]
    rfl
  | some picture =>
    rw [Option.elim_some]
    obtain ⟨-,-,-,hclipped,-⟩ :=
      newImage_canvas blending.toBlending image width height stride (some picture)
    have hdrawn : (newImage (.canvas blending.toBlending) image width height stride
        (some picture)).1=
      blending.drawPath (newImage (.canvas blending.toBlending) image width height stride
        (some picture)).2 (fun _ _ => true) (fun i j => blending.read picture (i-0) (j-0))
        ⟨width,height,fun _ _ => blending.clear⟩ := rfl
    have hoperator : (newImage (.canvas blending.toBlending) image width height stride
        (some picture)).2.operator=.over := rfl
    rw [hdrawn]
    generalize (newImage (.canvas blending.toBlending) image width height stride
      (some picture)).2=cairo at hclipped hoperator
    cases hfailed : cairo.failed with
    | true =>
      rw [Blending.drawPath,if_pos hfailed]
      rfl
    | false =>
      rw [drawPath_pixel hfailed hclipped,if_pos rfl,hoperator,blending.combine_clear,
        Int.sub_zero,Int.sub_zero]
      rfl

/-- What a new image shows, in place of an old one. -/
theorem newImage_shown (blending : CairoBlending P) (image : Bool) (width height stride : ℤ)
    (old : Option (Picture P)) (i j : ℤ) :
    blending.read (newImage (.canvas blending.toBlending) image width height stride old).1 i j=
      if inRectangle 0 0 width height i j=true ∧ Supported width height ∧
          ∀ picture, old=some picture → picture.Valid then
        (old.elim (fun _ _ => blending.clear) blending.read) i j
      else blending.clear := by
  obtain ⟨hwidth,hheight,-,-,hfailed⟩ :=
    newImage_canvas blending.toBlending image width height stride old
  rw [Blending.read,hwidth,hheight,newImage_pixel]
  by_cases hinside : inRectangle 0 0 width height i j=true
  · rw [if_pos hinside]
    by_cases hsupported : Supported width height ∧ ∀ picture, old=some picture → picture.Valid
    · rw [hfailed.mpr hsupported,if_neg Bool.false_ne_true,if_pos ⟨hinside,hsupported⟩]
    · have hfails := mt hfailed.mp hsupported
      rw [if_pos (by simpa using hfails),if_neg fun h => hsupported h.2]
  · rw [if_neg hinside,if_neg fun h => hinside h.1]

/-- Resizing makes a new image, unless the size is the same or empty. -/
theorem resize_new {lib : Cairo (Picture P) C} {calloc : ℕ→Bool} {buffer : Buffer (Picture P) C}
    {width height : ℤ} (hsame : ¬(buffer.width=width ∧ buffer.height=height))
    (hempty : ¬(width=0 ∨ height=0)) :
    ∃ image stride, guacencBufferResize lib calloc buffer width height=
      { buffer with
        width := width
        height := height
        stride := stride
        image := image
        surface := some (newImage lib image width height stride buffer.surface).1
        cairo := some (newImage lib image width height stride buffer.surface).2 } := by
  unfold guacencBufferResize
  rw [if_neg hsame,if_neg hempty]
  exact ⟨_,_,rfl⟩

theorem ready_empty {buffer : Buffer (Picture P) (PathContext P)}
    (hempty : buffer.width=0 ∨ buffer.height=0) (hsurface : buffer.surface=none)
    (hcairo : buffer.cairo=none) : buffer.Ready := by
  refine ⟨⟨iff_of_true hsurface hempty,iff_of_true hcairo hempty⟩,?_,?_,?_,?_⟩
  · intro picture hpicture
    cases hsurface.symm.trans hpicture
  · intro picture hpicture
    cases hsurface.symm.trans hpicture
  · intro cairo hsome
    cases hcairo.symm.trans hsome
  · intro cairo hsome
    cases hcairo.symm.trans hsome

theorem Buffer.Ready.resize (h : buffer.Ready) (blending : Blending P) (calloc : ℕ→Bool)
    (width height : ℤ) :
    (guacencBufferResize (.canvas blending) calloc buffer width height).Ready := by
  by_cases hsame : buffer.width=width ∧ buffer.height=height
  · rw [guacencBufferResize,if_pos hsame]
    exact h
  by_cases hempty : width=0 ∨ height=0
  · rw [guacencBufferResize,if_neg hsame,if_pos hempty]
    exact ready_empty hempty rfl rfl
  obtain ⟨image,stride,hresized⟩ := @resize_new _ _ (.canvas blending) calloc _ _ _ hsame hempty
  obtain ⟨hwidth,hheight,-,hclipped,hfailed⟩ :=
    newImage_canvas blending image width height stride buffer.surface
  rw [hresized]
  refine ⟨⟨iff_of_false (by simp) hempty,iff_of_false (by simp) hempty⟩,?_,?_,?_,?_⟩
  · intro picture hpicture
    cases hpicture
    exact hwidth
  · intro picture hpicture
    cases hpicture
    exact hheight
  · intro cairo hcairo
    cases hcairo
    exact hclipped
  · intro cairo hcairo hunfailed
    cases hcairo
    exact (hfailed.mp hunfailed).1

/-- What a resized buffer shows. -/
theorem resize_shown (blending : CairoBlending P) (calloc : ℕ→Bool) (width height : ℤ)
    {i j : ℤ} (hinside : inRectangle 0 0 width height i j=true) :
    blending.shown (guacencBufferResize (.canvas blending.toBlending) calloc buffer width height)
      i j=blending.kept buffer width height i j := by
  unfold Blending.kept
  by_cases hsame : buffer.width=width ∧ buffer.height=height
  · rw [guacencBufferResize,if_pos hsame,if_pos (Or.inl hsame)]
  have hempty : ¬(width=0 ∨ height=0) := by
    simp only [inRectangle,decide_eq_true_eq] at hinside
    omega
  obtain ⟨image,stride,hresized⟩ :=
    @resize_new _ _ (.canvas blending.toBlending) calloc _ _ _ hsame hempty
  have hshown : (buffer.surface.elim (fun _ _ => blending.clear) blending.read) i j=
      blending.shown buffer i j := by
    unfold Blending.shown
    cases buffer.surface with
    | none => rfl
    | some picture => rfl
  rw [hresized,Blending.shown]
  dsimp only
  rw [newImage_shown,hshown]
  by_cases htakes : buffer.TakesOver width height
  · rw [if_pos ⟨hinside,htakes⟩,if_pos (Or.inr htakes)]
  · rw [if_neg fun h => htakes h.2,if_neg (not_or_intro hsame htakes)]

/-- The context of a resized buffer. -/
theorem resize_context {calloc : ℕ→Bool} {width height : ℤ} {cairo : PathContext P}
    (hcairo : (guacencBufferResize (.canvas blending) calloc buffer width height).cairo=
      some cairo) :
    (cairo.failed=false ↔ buffer.Accepts width height) ∧ cairo.winding=fun i j =>
        if buffer.width=width ∧ buffer.height=height then
          buffer.cairo.elim 0 fun cairo => cairo.winding i j
        else 0 := by
  unfold Buffer.Accepts
  by_cases hsame : buffer.width=width ∧ buffer.height=height
  · rw [guacencBufferResize,if_pos hsame] at hcairo
    rw [if_pos hsame,hcairo]
    refine ⟨by simp,funext fun i => funext fun j => ?_⟩
    rw [if_pos hsame]
    rfl
  by_cases hempty : width=0 ∨ height=0
  · rw [guacencBufferResize,if_neg hsame,if_pos hempty] at hcairo
    cases hcairo
  obtain ⟨image,stride,hresized⟩ :=
    @resize_new _ _ (.canvas blending) calloc _ _ _ hsame hempty
  obtain ⟨-,-,hwinding,-,hfailed⟩ :=
    newImage_canvas blending image width height stride buffer.surface
  rw [hresized] at hcairo
  cases hcairo
  rw [if_neg hsame,hwinding]
  refine ⟨hfailed,funext fun i => funext fun j => ?_⟩
  rw [if_neg hsame]

/-- Around its surface a buffer is clear. -/
theorem Buffer.Ready.shown_around (h : buffer.Ready) (blending : Blending P) {i j : ℤ}
    (houtside : inRectangle 0 0 buffer.width buffer.height i j=false) :
    blending.shown buffer i j=blending.clear := by
  unfold Blending.shown
  cases hsurface : buffer.surface with
  | none => rfl
  | some picture =>
    dsimp only
    rw [Blending.read,h.width picture hsurface,h.height picture hsurface,houtside,
      if_neg Bool.false_ne_true]

/-- Buffers that instructions draw on remain ready. -/
theorem ready_invariant (blending : Blending P) :
    CanvasInvariant (.canvas blending) Buffer.Ready where
  fresh _ := ready_empty (Or.inl rfl) rfl rfl
  resize calloc _ width height h _ := h.resize blending calloc width height
  painted buffer cairo operator surface x y h hcairo := by
    refine h.redrawn (fun _ => drawPath_width ..) (fun _ => drawPath_height ..) hcairo rfl ?_
    exact fun hunfailed => (Bool.or_eq_false_iff.mp hunfailed).1
  drawn buffer cairo mask surface sourceX sourceY x y width height h hcairo := by
    refine h.redrawn (fun _ => drawPath_width ..) (fun _ => drawPath_height ..) hcairo rfl ?_
    exact fun hunfailed => (Bool.or_eq_false_iff.mp hunfailed).1
  rectangle buffer x y width height h := by
    cases hcairo : buffer.cairo with
    | none =>
      have hempty := h.consistent.cairo.mp hcairo
      exact ready_empty hempty (h.consistent.surface.mpr hempty) rfl
    | some cairo =>
      have hadded := @Buffer.Ready.redrawn _ _ h id (fun _ => rfl) (fun _ => rfl) cairo
        ((Cairo.canvas blending).rectangle x y width height cairo) hcairo rfl id
      rwa [Option.map_id] at hadded
  filled buffer cairo operator r g b a h hcairo :=
    h.redrawn (fun _ => drawPath_width ..) (fun _ => drawPath_height ..) hcairo rfl id

end GuacServer.EncoderDisplay
