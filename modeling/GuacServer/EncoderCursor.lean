import GuacServer.CairoCanvas

/-!
# Cursor images

A cursor instruction resizes the buffer of the cursor and draws a rectangle of another buffer on
it. The image is right where the rectangle starts in the origin of its buffer, which is not the
case in general: the surface of the buffer is moved by the offset of the rectangle instead of
against it, and where nothing is drawn, the last image is not cleared.
-/

namespace GuacServer.EncoderDisplay

open StateRuns UserHandlers Unicode

variable {P φ : Type}

/-- The cursor has a size, and shows the rectangle of a buffer. -/
structure CursorShows (blending : Blending P) (src : Buffer (Picture P) (PathContext P))
    (sx sy width height : ℤ) (cursor : Buffer (Picture P) (PathContext P)) : Prop where
  size : cursor.width=width ∧ cursor.height=height
  pixel : ∀ x y, inRectangle 0 0 width height x y=true →
    blending.shown cursor x y=blending.shown src (sx+x) (sy+y)

/-- A cursor instruction makes the cursor show the rectangle that it names. -/
def SetsCursor (env : Environment (Picture P) (PathContext P) φ) (blending : Blending P)
    (memory : Memory) (argv : List (List UInt8)) (name : BufferName)
    (display : Display (Picture P) (PathContext P) φ) : Prop :=
  ∃ result display', guacencHandleCursor env memory argv display=.ok (result,display') ∧
    CursorShows blending (display.bufferAt name) (int argv 3) (int argv 4) (int argv 5)
      (int argv 6) display'.cursor.buffer

/-- The source is drawn on the cursor. -/
def DrawsSource (src cursor : Buffer (Picture P) (PathContext P)) (width height : ℤ) : Prop :=
  (∃ picture, src.surface=some picture ∧ picture.Valid) ∧ cursor.Accepts width height

/-- If the source is drawn, its pixels on both sides of the origin are the same at the offset,
and otherwise what is left of the last image is what the cursor is to show. -/
def RightImage (blending : Blending P) (src cursor : Buffer (Picture P) (PathContext P))
    (sx sy width height : ℤ) : Prop :=
  ∀ x y, inRectangle 0 0 width height x y=true → (DrawsSource src cursor width height →
      blending.shown src (x-sx) (y-sy)=blending.shown src (sx+x) (sy+y)) ∧
    (¬DrawsSource src cursor width height →
      blending.kept cursor width height x y=blending.shown src (sx+x) (sy+y))

variable {src cursor : Buffer (Picture P) (PathContext P)} {width height : ℤ}

/-- The buffer of the cursor after an instruction that names a buffer. -/
theorem handleCursor_eq {S C : Type} {env : Environment S C φ} {memory : Memory}
    {argv : List (List UInt8)} {name : BufferName} {display : Display S C φ}
    (hargc : 7≤argv.length) (hname : nameOf (int argv 2)=some name) :
    ∃ display', guacencHandleCursor env memory argv display=.ok (0,display') ∧
      display'.cursor.buffer=
        let dst := guacencBufferResize env.lib (memory .cursor) display.cursor.buffer
          (int argv 5) (int argv 6)
        match (display.bufferAt name).surface, dst.cairo with
        | some surface, some cairo =>
          dst.painted env.lib (env.lib.setSourceSurface surface (int argv 3) (int argv 4)
            (env.lib.setOperator .source cairo))
        | _, _ => dst := by
  obtain ⟨hfound,hsame,-⟩ := getRelatedBuffer_eq (int argv 2) display
  rw [hname,Option.map_some] at hfound
  unfold guacencHandleCursor withRelatedBuffer
  rw [if_neg (by omega)]
  generalize guacencDisplayGetRelatedBuffer (int argv 2) display=found at hfound hsame
  obtain ⟨found,reached⟩ := found
  cases hfound
  have hcursor : reached.cursor.buffer=display.cursor.buffer := congrFun hsame .cursor
  rw [←hcursor]
  exact ⟨_,rfl,rfl⟩

/-- What a cursor with a context shows once the source is drawn. -/
theorem painted_shown {blending : Blending P} {surface picture : Picture P}
    {cairo : PathContext P} (hclipped : cairo.clipped=fun _ _ => true)
    (hcursor : cursor.surface=some picture) (sx sy x y : ℤ)
    (hinside : inRectangle 0 0 picture.width picture.height x y=true) :
    let shown := blending.shown (cursor.painted (.canvas blending)
      ((Cairo.canvas blending).setSourceSurface surface sx sy
        ((Cairo.canvas blending).setOperator .source cairo))) x y
    (cairo.failed=false ∧ surface.Valid → shown=blending.read surface (x-sx) (y-sy)) ∧
      (¬(cairo.failed=false ∧ surface.Valid) → shown=blending.read picture x y) := by
  have hfailed : ((Cairo.canvas blending).setSourceSurface surface sx sy
      ((Cairo.canvas blending).setOperator .source cairo)).failed=
        (cairo.failed || !decide surface.Valid) := rfl
  unfold Blending.shown Buffer.painted
  rw [hcursor,Option.map_some]
  dsimp only
  have hdrawn := @read_drawPath P blending ((Cairo.canvas blending).setSourceSurface surface sx sy
    ((Cairo.canvas blending).setOperator .source cairo)) hclipped (fun _ _ => true)
    (fun i j => blending.read surface (i-sx) (j-sy)) picture x y hinside
  rw [hfailed] at hdrawn
  constructor
  · rintro ⟨hunfailed,hvalid⟩
    rw [hunfailed,decide_eq_true hvalid,if_neg (by decide),if_pos rfl] at hdrawn
    exact hdrawn.trans (blending.combine_source _ _)
  · intro hdraws
    rw [source_fails_iff.mpr hdraws,if_pos rfl] at hdrawn
    exact hdrawn

/-- What the cursor shows after an instruction that names a buffer and a size. -/
theorem handleCursor_shows {blending : CairoBlending P}
    {env : Environment (Picture P) (PathContext P) φ}
    (hlib : env.lib=.canvas blending.toBlending) {memory : Memory} {argv : List (List UInt8)}
    (hargc : 7≤argv.length) {name : BufferName} (hname : nameOf (int argv 2)=some name)
    (hwidth : 0 < int argv 5) (hheight : 0 < int argv 6)
    {display : Display (Picture P) (PathContext P) φ} (hready : display.cursor.buffer.Ready) :
    ∃ display', guacencHandleCursor env memory argv display=.ok (0,display') ∧
      (display'.cursor.buffer.width=int argv 5 ∧ display'.cursor.buffer.height=int argv 6) ∧
      ∀ x y, inRectangle 0 0 (int argv 5) (int argv 6) x y=true →
        (DrawsSource (display.bufferAt name) display.cursor.buffer (int argv 5) (int argv 6) →
          blending.shown display'.cursor.buffer x y=
            blending.shown (display.bufferAt name) (x-int argv 3) (y-int argv 4)) ∧
        (¬DrawsSource (display.bufferAt name) display.cursor.buffer (int argv 5) (int argv 6) →
          blending.shown display'.cursor.buffer x y=
            blending.kept display.cursor.buffer (int argv 5) (int argv 6) x y) := by
  obtain ⟨display',hhandled,hbuffer⟩ := @handleCursor_eq φ _ _ env memory argv name display hargc
    hname
  refine ⟨display',hhandled,?_⟩
  rw [hbuffer,hlib]
  have hresized := hready.resize blending.toBlending (memory .cursor) (int argv 5) (int argv 6)
  have hsize := resize_size (.canvas blending.toBlending) (memory .cursor) display.cursor.buffer
    (int argv 5) (int argv 6)
  have hcontext := fun cairo =>
    @resize_context P blending.toBlending display.cursor.buffer (memory .cursor) (int argv 5)
      (int argv 6) cairo
  have hkept := fun x y => @resize_shown P display.cursor.buffer blending (memory .cursor)
    (int argv 5) (int argv 6) x y
  generalize guacencBufferResize (.canvas blending.toBlending) (memory .cursor)
    display.cursor.buffer (int argv 5) (int argv 6)=resized at *
  have hpixels : ¬(resized.width=0 ∨ resized.height=0) := by
    rw [hsize.1,hsize.2]
    omega
  obtain ⟨picture,hpicture⟩ := Option.ne_none_iff_exists'.mp
    (mt hresized.consistent.surface.mp hpixels)
  obtain ⟨cairo,hcairo⟩ := Option.ne_none_iff_exists'.mp (mt hresized.consistent.cairo.mp hpixels)
  have haccepts := (hcontext cairo hcairo).1
  unfold DrawsSource
  dsimp only
  cases hsurface : (display.bufferAt name).surface with
  | none =>
    refine ⟨hsize,fun x y hinside => ⟨fun hdraws => ?_,fun _ => ?_⟩⟩
    · obtain ⟨⟨_,hnone,-⟩,-⟩ := hdraws
      cases hnone
    · exact hkept x y hinside
  | some surface =>
    rw [hcairo]
    refine ⟨hsize,fun x y hinside => ?_⟩
    rw [←hsize.1,←hsize.2,←hresized.width picture hpicture,
      ←hresized.height picture hpicture] at hinside
    have hpainted := @painted_shown P resized blending.toBlending surface picture cairo
      (hresized.unclipped cairo hcairo) hpicture (int argv 3) (int argv 4) x y hinside
    have hdraws : ((∃ picture, some surface=some picture ∧ picture.Valid) ∧
        display.cursor.buffer.Accepts (int argv 5) (int argv 6)) ↔
          cairo.failed=false ∧ surface.Valid := by
      rw [haccepts,and_comm]
      simp
    rw [hdraws]
    refine ⟨fun h => (hpainted.1 h).trans ?_,fun h => (hpainted.2 h).trans ?_⟩
    · rw [Blending.shown,hsurface]
    · rw [hresized.width picture hpicture,hresized.height picture hpicture,hsize.1,
        hsize.2] at hinside
      rw [←hkept x y hinside,Blending.shown,hpicture]

/-- After any instructions, a cursor instruction that names a buffer and a size makes the cursor
show the rectangle exactly if the pixels on both sides of the origin are the same, or, where
nothing is drawn, the last image is right already. -/
theorem setsCursor_iff (blending : CairoBlending P)
    (env : Environment (Picture P) (PathContext P) φ)
    (hlib : env.lib=.canvas blending.toBlending) (hotspotX hotspotY : ℤ) (blank : φ)
    {instructions : List Instruction} {display : Display (Picture P) (PathContext P) φ}
    (hrun : run (stepDisplay env) instructions
      (.ok (guacencDisplayAlloc hotspotX hotspotY blank))=some (.ok display))
    (memory : Memory) {argv : List (List UInt8)} (hargc : 7≤argv.length)
    {name : BufferName} (hname : nameOf (int argv 2)=some name) (hwidth : 0 < int argv 5)
    (hheight : 0 < int argv 6) :
    SetsCursor env blending.toBlending memory argv name display ↔
      RightImage blending.toBlending (display.bufferAt name) display.cursor.buffer (int argv 3)
        (int argv 4) (int argv 5) (int argv 6) := by
  have hinvariant : CanvasInvariant env.lib Buffer.Ready := by
    rw [hlib]
    exact ready_invariant blending.toBlending
  have hready := (hinvariant.run hotspotX hotspotY blank hrun).cursor
  obtain ⟨display',hhandled,hsize,hshows⟩ := @handleCursor_shows P φ blending env hlib memory
    argv hargc name hname hwidth hheight display hready
  constructor
  · rintro ⟨result,final,hfinal,hcursor⟩ x y hinside
    rw [hhandled] at hfinal
    cases hfinal
    rw [←hcursor.pixel x y hinside]
    exact ⟨fun hdraws => ((hshows x y hinside).1 hdraws).symm,
      fun hdraws => ((hshows x y hinside).2 hdraws).symm⟩
  · intro hright
    refine ⟨0,display',hhandled,hsize,fun x y hinside => ?_⟩
    by_cases hdraws : DrawsSource (display.bufferAt name) display.cursor.buffer (int argv 5)
        (int argv 6)
    · exact ((hshows x y hinside).1 hdraws).trans ((hright x y hinside).1 hdraws)
    · exact ((hshows x y hinside).2 hdraws).trans ((hright x y hinside).2 hdraws)

/-- Such colours on canvases. -/
def opaqueCanvas : CairoBlending ℕ where
  toBlending := opaqueColours
  combine_clear p := by
    simp only [opaqueColours]
    by_cases h : p=0
    · rw [if_neg (by decide),if_pos h,h]
    · rw [if_neg (by decide),if_neg h]

/-- An encoder with canvases. -/
def Environment.canvas (blending : Blending P) : Environment (Picture P) (PathContext P) Unit where
  lib := .canvas blending
  stack := 64
  qsort := .merge _
  decoderMap := []
  videoWidth := 640
  videoHeight := 480
  imageAlloc _ _ := true
  convert _ _ _ := some ()
  encode _ := 0
  overflow _ video := (true,video)

/-- The default layer, with two pixels of which the right one is red. -/
def redPixel : List Instruction :=
  [⟨ascii "size", [[48],[50],[49]], fun _ _ => true⟩,
    ⟨ascii "rect", [[48],[49],[48],[49],[49]], fun _ _ => true⟩,
    ⟨ascii "cfill", [ascii "14", [48], ascii "255", [48], [48], ascii "255"], fun _ _ => true⟩]

/-- A cursor of one pixel from the default layer, at some offset. -/
def pixelCursor (sx : List UInt8) : List (List UInt8) := [[48],[48],[48],sx,[48],[49],[49]]

/-- The left pixel as the cursor. -/
theorem setsCursor_origin : ∃ display, run (stepDisplay (.canvas opaqueCanvas.toBlending)) redPixel
        (.ok (guacencDisplayAlloc 0 0 ()))=some (.ok display) ∧
      SetsCursor (.canvas opaqueCanvas.toBlending) opaqueCanvas.toBlending (fun _ _ => true)
        (pixelCursor [48]) (.layer ⟨0,by decide⟩) display := by
  refine ⟨_,rfl,(setsCursor_iff opaqueCanvas _ rfl 0 0 () (rfl : run _ redPixel _ = _) _
    (by decide) rfl (by decide) (by decide)).mpr fun x y _ => ⟨fun _ => ?_,fun hdraws => ?_⟩⟩
  · change Blending.shown _ _ (x-0) (y-0)=Blending.shown _ _ (0+x) (0+y)
    rw [Int.sub_zero,Int.sub_zero,Int.zero_add,Int.zero_add]
  · refine absurd ⟨⟨_,rfl,by decide⟩,?_⟩ hdraws
    exact ⟨by decide,fun _ hnone => by cases hnone⟩

/-- The right pixel does not become the cursor. -/
theorem not_setsCursor_offset :
    ∃ display, run (stepDisplay (.canvas opaqueCanvas.toBlending)) redPixel
        (.ok (guacencDisplayAlloc 0 0 ()))=some (.ok display) ∧
      ¬SetsCursor (.canvas opaqueCanvas.toBlending) opaqueCanvas.toBlending (fun _ _ => true)
        (pixelCursor [49]) (.layer ⟨0,by decide⟩) display := by
  refine ⟨_,rfl,?_⟩
  rintro ⟨result,display',hhandled,hshows⟩
  cases hhandled
  exact absurd (hshows.pixel 0 0 rfl) (by decide)

end GuacServer.EncoderDisplay
