import GuacServer.EncoderOrder
import GuacServer.EncoderPixels

/-!
# Flattening as recursive compositing

A layer is rendered by drawing its rendered children onto its buffer, each at its
place with its opacity and clipped to its size, those with lower z later. Flattening
makes one pass over all layers in the order of rendering, which comes to the same
for every tree of layers.
-/

namespace GuacServer.EncoderDisplay

open DecimalNumerals Function List ParentChains

variable {P φ : Type}

/-- A layer drawn onto its parent, given what it shows itself. -/
def drawChild (blending : Blending P) (display : Display (Picture P) (Context P) φ)
    (i : Fin guacencDisplayMaxLayers) : (ℤ→ℤ→P)→(ℤ→ℤ→P)→ℤ→ℤ→P :=
  let layer := layerAt display i
  blending.drawOver layer.opacity layer.x layer.y layer.buffer.width layer.buffer.height

/-- What each layer shows is its buffer with its children drawn over it one after the
other. -/
def IsRendering (blending : Blending P) (display : Display (Picture P) (Context P) φ)
    (order : List (Fin guacencDisplayMaxLayers))
    (render : Fin guacencDisplayMaxLayers→ℤ→ℤ→P) : Prop :=
  ∀ i, render i=(TreeFold.childrenIn (parentOf display) order i).foldl
    (fun canvas c => drawChild blending display c (render c) canvas)
    ((layerAt display i).buffer.canvas blending)

/-- A canvas with the cursor, if it is shown, drawn over it. -/
def withCursor (blending : Blending P) (display : Display (Picture P) (Context P) φ)
    (canvas : ℤ→ℤ→P) : ℤ→ℤ→P :=
  let cursor := display.cursor
  if 0≤cursor.x ∧ 0≤cursor.y then
    match cursor.buffer.surface with
    | none => canvas
    | some picture =>
      blending.drawPicture picture (wrap32 (cursor.x-cursor.hotspotX))
        (wrap32 (cursor.y-cursor.hotspotY)) cursor.buffer.width cursor.buffer.height canvas
  else canvas

/-- No layer that can be seen is drawn onto a layer. -/
def NotDrawnOn (display : Display (Picture P) (Context P) φ)
    (order : List (Fin guacencDisplayMaxLayers)) (i : Fin guacencDisplayMaxLayers) : Prop :=
  ∀ c∈order, parentOf display c=some i→(layerAt display c).opacity=0 ∨
    (layerAt display c).buffer.width=0 ∨ (layerAt display c).buffer.height=0

/-- A display whose images are of sizes that Cairo supports, so that no context has
an error. The cursor is not shown before the default layer has pixels. -/
structure Drawn (display : Display (Picture P) (Context P) φ) : Prop where
  layers : ∀ i, (layerAt display i).buffer.Whole
  frames : ∀ i, (layerAt display i).frame.Whole
  atRest : ∀ i cairo, (layerAt display i).frame.cairo=some cairo → cairo.AtRest
  cursor : display.cursor.buffer.Whole
  shown : CursorShown display →
    (defaultLayer display).buffer.width≠0 ∧ (defaultLayer display).buffer.height≠0

/-- The display while it is flattened, with canvases that the frames of some layers
show. -/
structure Painted (original current : Display (Picture P) (Context P) φ)
    (order : List (Fin guacencDisplayMaxLayers)) (values : Fin guacencDisplayMaxLayers→ℤ→ℤ→P)
    (done : Fin guacencDisplayMaxLayers→Prop) : Prop where
  cursor : current.cursor=original.cursor
  layers : ∀ i, layerAt current i={ layerAt original i with frame := (layerAt current i).frame }
  frames : ∀ i, (layerAt current i).frame.Whole
  atRest : ∀ i cairo, (layerAt current i).frame.cairo=some cairo → cairo.AtRest
  shows : ∀ i, done i→(layerAt current i).frame.Shows (values i)
    (layerAt original i).buffer.width (layerAt original i).buffer.height
  unclipped : ∀ i, done i→NotDrawnOn original order i →
    ∀ cairo, (layerAt current i).frame.cairo=some cairo → cairo.clipped=fun _ _ => true

/-- The frame of the default layer after the display has been flattened. A cursor is
drawn over the whole canvas if the default layer has not been drawn on. -/
structure Composited (blending : Blending P)
    (original final : Display (Picture P) (Context P) φ)
    (order : List (Fin guacencDisplayMaxLayers)) (canvas : ℤ→ℤ→P) : Prop where
  width : (defaultLayer final).frame.width=(defaultLayer original).buffer.width
  height : (defaultLayer final).frame.height=(defaultLayer original).buffer.height
  surface : (defaultLayer final).frame.surface=none ↔ (defaultLayer original).buffer.surface=none
  pixel : ∀ picture, (defaultLayer final).frame.surface=some picture→∀ i j,
    picture.pixel i j=canvas i j ∨ picture.pixel i j=withCursor blending original canvas i j
  cursor : NotDrawnOn original order ⟨0,by decide⟩→∀ picture,
    (defaultLayer final).frame.surface=some picture →
      picture.pixel=withCursor blending original canvas

section Painting

variable {blending : Blending P} {original current reached : Display (Picture P) (Context P) φ}
  {order : List (Fin guacencDisplayMaxLayers)}
  {values values' : Fin guacencDisplayMaxLayers→ℤ→ℤ→P}
  {done done' : Fin guacencDisplayMaxLayers→Prop}

variable {j : Fin guacencDisplayMaxLayers}

/-- Only one frame is stored. -/
theorem layerAt_storeFrame {S C : Type} {display : Display S C φ} {layer : Layer S C}
    (hlayer : display.layers j=some layer) (frame : Buffer S C) :
    layerAt (display.store (.frame j) frame)=
      update (layerAt display) j { layer with frame := frame } := by
  funext i
  unfold layerAt
  rw [layers_storeFrame]
  by_cases hij : i=j
  · subst hij
    rw [if_pos rfl,hlayer,update_self]
    rfl
  · rw [if_neg hij,update_of_ne hij]

section

variable (h : Painted original current order values done)

include h

/-- Only what is shown where there are pixels counts. -/
theorem Painted.congr (hvalues : ∀ i, values' i=values i ∨ (layerAt current i).frame.surface=none) :
    Painted original current order values' done := by
  refine ⟨h.cursor,h.layers,h.frames,h.atRest,fun i hi => ?_,h.unclipped⟩
  have hshows := h.shows i hi
  rcases hvalues i with heq | hnone
  · rw [heq]
    exact hshows
  · refine ⟨hshows.whole,hshows.width,hshows.height,fun picture hpicture => ?_,hshows.atRest⟩
    rw [hnone] at hpicture
    cases hpicture

theorem Painted.all (hdone : ∀ i, done i) : Painted original current order values fun _ => True :=
  ⟨h.cursor,h.layers,h.frames,h.atRest,fun i _ => h.shows i (hdone i),
    fun i _ => h.unclipped i (hdone i)⟩

theorem Painted.created (hcreated : Created current reached) :
    Painted original reached order values done := by
  obtain ⟨hcursor,hlayers,hframes,hatRest,hshows,hunclipped⟩ := h
  rw [←hcreated.layerAt_eq] at hlayers hframes hatRest hshows hunclipped
  exact ⟨hcreated.cursor_eq.trans hcursor,hlayers,hframes,hatRest,hshows,hunclipped⟩

/-- The frame of a layer is replaced. -/
theorem Painted.storeFrame {layer : Layer (Picture P) (Context P)}
    (hlayer : current.layers j=some layer) {frame : Buffer (Picture P) (Context P)}
    {canvas : ℤ→ℤ→P}
    (hframe : frame.Shows canvas (layerAt original j).buffer.width
      (layerAt original j).buffer.height)
    (hunclipped : NotDrawnOn original order j→∀ cairo, frame.cairo=some cairo →
      cairo.clipped=fun _ _ => true) (hdone : ∀ i, i≠j → done' i → done i) :
    Painted original (current.store (.frame j) frame) order (update values j canvas)
      done' := by
  have hj : layerAt current j=layer := by rw [layerAt,hlayer,Option.getD_some]
  have hstored := layerAt_storeFrame hlayer frame
  have hself : layerAt (current.store (.frame j) frame) j = { layer with frame := frame } := by
    rw [hstored,update_self]
  have hother : ∀ i, i≠j → layerAt (current.store (.frame j) frame) i=layerAt current i := by
    intro i hij
    rw [hstored,update_of_ne hij]
  refine ⟨h.cursor,fun i => ?_,fun i => ?_,fun i => ?_,fun i hi => ?_,fun i hi => ?_⟩
  · by_cases hij : i=j
    · subst hij
      rw [hself,←hj,h.layers i]
    · rw [hother i hij]
      exact h.layers i
  · by_cases hij : i=j
    · subst hij
      rw [hself]
      exact hframe.whole
    · rw [hother i hij]
      exact h.frames i
  · by_cases hij : i=j
    · subst hij
      rw [hself]
      exact fun cairo hcairo => (hframe.atRest cairo hcairo).1
    · rw [hother i hij]
      exact h.atRest i
  · by_cases hij : i=j
    · subst hij
      rw [hself,update_self]
      exact hframe
    · rw [hother i hij,update_of_ne hij]
      exact h.shows i (hdone i hij hi)
  · by_cases hij : i=j
    · subst hij
      rw [hself]
      exact hunclipped
    · rw [hother i hij]
      exact h.unclipped i (hdone i hij hi)

end

theorem shows_alloc (canvas : ℤ→ℤ→P) :
    (guacencBufferAlloc : Buffer (Picture P) (Context P)).Shows canvas 0 0 := by
  refine ⟨⟨⟨iff_of_true rfl (Or.inl rfl),iff_of_true rfl (Or.inl rfl)⟩,?_,?_,?_⟩,rfl,rfl,?_,?_⟩
  all_goals
    intro _ hnone
    cases hnone

section

variable (h : Painted original current order values done)

include h

/-- A layer that does not exist has no pixels. -/
theorem Painted.missing {i : Fin guacencDisplayMaxLayers} (hnone : current.layers i=none) :
    (layerAt original i).buffer=guacencBufferAlloc := by
  have hsame := congrArg Layer.buffer (h.layers i)
  rw [layerAt,hnone] at hsame
  exact hsame.symm

theorem Painted.shows_missing {i : Fin guacencDisplayMaxLayers} (hnone : current.layers i=none)
    (canvas : ℤ→ℤ→P) :
    (layerAt current i).frame.Shows canvas (layerAt original i).buffer.width
      (layerAt original i).buffer.height := by
  rw [h.missing hnone,layerAt,hnone]
  exact shows_alloc canvas

/-- The frame of a layer is reset to what the buffer of the layer shows. -/
theorem Painted.reset (hvalues : ∀ i, values i=(layerAt original i).buffer.canvas blending)
    (hbuffers : ∀ i, (layerAt original i).buffer.Whole) (memory : Memory)
    (j : Fin guacencDisplayMaxLayers) :
    ∃ reset, resetFrame (.pixels blending) memory current j=.ok reset ∧
      Painted original reset order values fun i => done i ∨ i=j := by
  unfold resetFrame
  cases hlayer : current.layers j with
  | none =>
    refine ⟨current,rfl,h.cursor,h.layers,h.frames,h.atRest,fun i hi => ?_,fun i hi => ?_⟩
    · rcases hi with hi | rfl
      · exact h.shows i hi
      · exact h.shows_missing hlayer _
    · rcases hi with hi | rfl
      · exact h.unclipped i hi
      · intro _ cairo hcairo
        rw [layerAt,hlayer] at hcairo
        cases hcairo
  | some layer =>
    have hj : layerAt current j=layer := by rw [layerAt,hlayer,Option.getD_some]
    have hbuffer : layer.buffer=(layerAt original j).buffer := by
      rw [←hj,h.layers j]
    have hframe := h.frames j
    have hrest := h.atRest j
    rw [hj] at hframe hrest
    obtain ⟨copied,hcopied,hshows,hclip⟩ : ∃ copied,
        guacencBufferCopy (.pixels blending) (memory (.frame j)) layer.frame layer.buffer=
          .ok copied ∧ _ ∧ _ := copy_shows hframe hrest (hbuffer ▸ hbuffers j)
    refine ⟨current.store (.frame j) copied,?_,?_⟩
    · dsimp only
      rw [hcopied]
      rfl
    · rw [←update_eq_self j values]
      refine h.storeFrame hlayer ?_ (fun _ => hclip) fun i hij hi => hi.resolve_right hij
      rw [hvalues j,←hbuffer]
      exact hshows

/-- All frames are reset to their layers. -/
theorem Painted.resets (hvalues : ∀ i, values i=(layerAt original i).buffer.canvas blending)
    (hbuffers : ∀ i, (layerAt original i).buffer.Whole) (memory : Memory)
    (pending : List (Fin guacencDisplayMaxLayers)) :
    ∃ reset, pending.foldlM (resetFrame (.pixels blending) memory) current=.ok reset ∧
      Painted original reset order values fun i => done i ∨ i∈pending := by
  induction pending generalizing current done with
  | nil => exact ⟨current,rfl,by simpa using h⟩
  | cons j pending ih =>
    obtain ⟨reset,hreset,hpainted⟩ := h.reset hvalues hbuffers memory j
    obtain ⟨final,hfinal,hdone⟩ := ih hpainted
    refine ⟨final,?_,by simpa [or_assoc] using hdone⟩
    rw [foldlM_cons,hreset]
    exact hfinal

end

section

variable (h : Painted original current order values fun _ => True)

include h

/-- A transparent or empty layer is not seen on its parent. -/
theorem Painted.unseen
    (hcase : (layerAt original j).opacity=0 ∨ (layerAt original j).buffer.width=0 ∨
      (layerAt original j).buffer.height=0) :
    Painted original current order
      (TreeFold.step (parentOf original) (drawChild blending original) values j)
      fun _ => True := by
  have hsame : ∀ canvas, drawChild blending original j (values j) canvas=canvas := by
    intro canvas
    unfold drawChild
    rcases hcase with hopacity | hempty
    · rw [hopacity]
      exact drawOver_transparent ..
    · exact drawOver_empty _ _ _ hempty _ _
  unfold TreeFold.step
  cases parentOf original j with
  | none => exact h
  | some p =>
    dsimp only
    rw [hsame,update_eq_self]
    exact h

/-- Without a surface of the layer or a context of its parent nothing is drawn, and nothing
could be seen. -/
theorem Painted.undrawn {reached : Display (Picture P) (Context P) φ}
    (hreached : Painted original reached order values fun _ => True)
    (hcreated : Created current reached) {p : Fin guacencDisplayMaxLayers}
    (hparent : parentOf original j=some p)
    (hnone : (layerAt current j).frame.surface=none ∨ (layerAt current p).frame.cairo=none) :
    Painted original reached order
      (TreeFold.step (parentOf original) (drawChild blending original) values j)
      fun _ => True := by
  have hframe := h.shows j trivial
  have hparentShows := h.shows p trivial
  rcases hnone with hsurface | hcairo
  · refine hreached.unseen (Or.inr ?_)
    rw [←hframe.width,←hframe.height]
    exact hframe.whole.consistent.surface.mp hsurface
  · refine hreached.congr fun i => ?_
    rw [TreeFold.step,hparent]
    by_cases hip : i=p
    · rw [hip,hcreated.layerAt_eq]
      exact Or.inr (hparentShows.whole.consistent.surface.mpr
        (hparentShows.whole.consistent.cairo.mp hcairo))
    · exact Or.inl (update_of_ne hip _ _)

/-- A layer that is rendered is drawn onto its parent. -/
theorem Painted.render (hj : j∈order) :
    Painted original (renderLayer (.pixels blending) current j) order
      (TreeFold.step (parentOf original) (drawChild blending original) values j)
      fun _ => True := by
  unfold renderLayer
  cases hlayer : current.layers j with
  | none =>
    refine h.unseen (Or.inr (Or.inl ?_))
    rw [h.missing hlayer]
    rfl
  | some layer =>
    have hj' : layerAt current j=layer := by rw [layerAt,hlayer,Option.getD_some]
    have hsame := h.layers j
    have hframe := h.shows j trivial
    rw [hj'] at hsame hframe
    have hparent : parentOf original j=layerOf layer.parentIndex := by
      rw [hsame]
      rfl
    have hcanvas : drawChild blending original j=blending.drawOver layer.opacity layer.x layer.y
        (layerAt original j).buffer.width (layerAt original j).buffer.height := by
      rw [hsame]
      rfl
    dsimp only
    split_ifs with hopacity hroot
    · refine h.unseen (Or.inl ?_)
      rw [hsame] at hopacity
      exact hopacity
    · rw [TreeFold.step,hparent,hroot,layerOf_noParent]
      exact h
    · have hfound := getLayer_eq layer.parentIndex current
      have hstored := getLayer_stored layer.parentIndex current
      have hcreated := Created.getLayer layer.parentIndex current
      generalize guacencDisplayGetLayer layer.parentIndex current=found at *
      obtain ⟨_ | ⟨p,parent⟩,reached⟩ := found
      · rw [TreeFold.step,hparent,Option.map_eq_none_iff.mp hfound.symm]
        exact h.created hcreated
      · obtain ⟨p',hp,hp'⟩ := Option.map_eq_some_iff.mp hfound.symm
        cases hp'
        have hreached : Painted original reached order values fun _ => True := h.created hcreated
        rw [hp] at hparent
        dsimp only
        split
        · rename_i surface cairo hsurface hcairo
          rw [TreeFold.step,hparent,hcanvas]
          refine hreached.storeFrame (hstored _ _ rfl)
            (frame_drawOver (h.shows p trivial) hframe hsurface hcairo _ _ _) (fun hnot => ?_)
            fun _ _ _ => trivial
          -- the layer can be seen
          exfalso
          rcases hnot j hj hparent with htransparent | hempty
          · rw [hsame] at hopacity
            exact hopacity htransparent
          · rw [←hframe.width,←hframe.height,←hframe.whole.consistent.surface,hsurface] at hempty
            cases hempty
        · rename_i hnone
          refine h.undrawn hreached hcreated hparent ?_
          rw [hj']
          cases hsurface : layer.frame.surface with
          | none => exact Or.inl rfl
          | some surface =>
            exact Or.inr (Option.eq_none_iff_forall_ne_some.mpr fun cairo =>
              hnone surface cairo hsurface)

/-- Frames are drawn onto those of their parents in order. -/
theorem Painted.renders {pending : List (Fin guacencDisplayMaxLayers)}
    (hpending : ∀ j∈pending, j∈order) :
    Painted original (pending.foldl (renderLayer (.pixels blending)) current) order
      (pending.foldl (TreeFold.step (parentOf original) (drawChild blending original)) values)
      fun _ => True := by
  induction pending generalizing current values with
  | nil => exact h
  | cons j pending ih =>
    rw [foldl_cons,foldl_cons]
    exact ih (h.render (hpending j (mem_cons_self ..))) fun i hi =>
      hpending i (mem_cons_of_mem _ hi)

end

theorem withCursor_hidden {canvas : ℤ→ℤ→P}
    (h : (original.cursor.x<0 ∨ original.cursor.y<0) ∨ original.cursor.buffer.surface=none) :
    withCursor blending original canvas=canvas := by
  unfold withCursor
  dsimp only
  rcases h with hhidden | hnone
  · rw [if_neg (by omega)]
  · rw [hnone]
    exact ite_self _

/-- A cursor with a picture is drawn around its hotspot. -/
theorem withCursor_shown {canvas : ℤ→ℤ→P} (hx : 0≤original.cursor.x)
    (hy : 0≤original.cursor.y) {picture : Picture P}
    (h : original.cursor.buffer.surface=some picture) :
    withCursor blending original canvas=blending.drawPicture picture
      (wrap32 (original.cursor.x-original.cursor.hotspotX))
      (wrap32 (original.cursor.y-original.cursor.hotspotY)) original.cursor.buffer.width
      original.cursor.buffer.height canvas := by
  unfold withCursor
  dsimp only
  rw [if_pos ⟨hx,hy⟩,h]

/-- Without a cursor that is drawn, the default layer shows its canvas. -/
theorem Painted.composited (h : Painted original current order values fun _ => True)
    (hdrawn : Drawn original)
    (hcursor : withCursor blending original (values ⟨0,by decide⟩)=values ⟨0,by decide⟩) :
    Composited blending original current order (values ⟨0,by decide⟩) := by
  have hshows := h.shows ⟨0,by decide⟩ trivial
  refine ⟨hshows.width,hshows.height,?_,fun picture hpicture i j => Or.inl ?_,
    fun _ picture hpicture => ?_⟩
  · refine Iff.trans ?_ (hdrawn.layers ⟨0,by decide⟩).consistent.surface.symm
    exact hshows.whole.consistent.surface.trans (by rw [hshows.width,hshows.height])
  · rw [hshows.pixel picture hpicture]
  · rw [hcursor]
    exact hshows.pixel picture hpicture

/-- With a cursor that is drawn, it is drawn where nothing is clipped. -/
theorem Painted.composited_filled (h : Painted original current order values fun _ => True)
    (hdrawn : Drawn original) {final : Display (Picture P) (Context P) φ}
    {cairo : Context P} (hcairo : (layerAt current ⟨0,by decide⟩).frame.cairo=some cairo)
    {surface : Picture P} (hsurface : original.cursor.buffer.surface=some surface)
    (hx : 0≤original.cursor.x) (hy : 0≤original.cursor.y)
    (hfinal : (defaultLayer final).frame=
      (layerAt current ⟨0,by decide⟩).frame.filled (.pixels blending)
        ((Cairo.pixels blending).rectangle (wrap32 (original.cursor.x-original.cursor.hotspotX))
          (wrap32 (original.cursor.y-original.cursor.hotspotY)) original.cursor.buffer.width
          original.cursor.buffer.height ((Cairo.pixels blending).setSourceSurface surface
            (wrap32 (original.cursor.x-original.cursor.hotspotX))
            (wrap32 (original.cursor.y-original.cursor.hotspotY)) cairo))) :
    Composited blending original final order (values ⟨0,by decide⟩) := by
  have hshows := h.shows ⟨0,by decide⟩ trivial
  have hpixel : ∀ picture, (defaultLayer final).frame.surface=some picture →
      picture.pixel=fun i j =>
        if cairo.clipped i j then withCursor blending original (values ⟨0,by decide⟩) i j
        else values ⟨0,by decide⟩ i j := by
    intro picture hpicture
    rw [hfinal] at hpicture
    rw [withCursor_shown hx hy hsurface]
    exact filled_pixel hshows hcairo (hdrawn.cursor.valid surface hsurface) _ _ _ _ hpicture
  refine ⟨?_,?_,?_,fun picture hpicture i j => ?_,fun hnot picture hpicture => ?_⟩
  · rw [hfinal]
    exact hshows.width
  · rw [hfinal]
    exact hshows.height
  · rw [hfinal]
    refine Iff.trans ?_ (hdrawn.layers ⟨0,by decide⟩).consistent.surface.symm
    refine (Option.map_eq_none_iff.trans hshows.whole.consistent.surface).trans ?_
    rw [hshows.width,hshows.height]
  · rw [hpixel picture hpicture]
    dsimp only
    split_ifs
    · exact Or.inr rfl
    · exact Or.inl rfl
  · rw [hpixel picture hpicture,h.unclipped ⟨0,by decide⟩ trivial hnot cairo hcairo]
    rfl

/-- The cursor is drawn last, with the clip that the default layer was left with. -/
theorem Painted.renderCursor (blending : Blending P)
    (h : Painted original current order values fun _ => True)
    (hdrawn : Drawn original) :
    ∃ final, guacencDisplayRenderCursor (.pixels blending) current=.ok final ∧
      Composited blending original final order (values ⟨0,by decide⟩) := by
  have hfound := getLayer_eq 0 current
  have hstored := getLayer_stored 0 current
  have hcreated := Created.getLayer 0 current
  unfold guacencDisplayRenderCursor
  generalize guacencDisplayGetLayer 0 current=found at *
  obtain ⟨_ | ⟨i,layer⟩,reached⟩ := found
  · cases hfound
  · cases hfound
    have hlayer : reached.layers ⟨0,by decide⟩=some (layerAt current ⟨0,by decide⟩) :=
      hstored _ _ rfl
    have hstore : ∀ frame,
        (layerAt (reached.store (.frame ⟨0,by decide⟩) frame) ⟨0,by decide⟩).frame=frame := by
      intro frame
      rw [layerAt_storeFrame hlayer,update_self]
    have hreached : Painted original reached order values fun _ => True := h.created hcreated
    dsimp only
    split_ifs with hhidden hpixels
    · rw [h.cursor] at hhidden
      exact ⟨current,rfl,h.composited hdrawn (withCursor_hidden (Or.inl hhidden))⟩
    · rw [h.cursor] at hhidden hpixels ⊢
      have hshows := h.shows ⟨0,by decide⟩ trivial
      obtain ⟨hwidth,hheight⟩ := hdrawn.shown ⟨by omega,by omega,hpixels⟩
      obtain ⟨cairo,hcairo⟩ : ∃ cairo, (layerAt current ⟨0,by decide⟩).frame.cairo=some cairo := by
        rw [←Option.ne_none_iff_exists',Ne,hshows.whole.consistent.cairo,hshows.width,hshows.height]
        exact not_or.mpr ⟨hwidth,hheight⟩
      obtain ⟨surface,hsurface⟩ : ∃ surface, original.cursor.buffer.surface=some surface := by
        rw [←Option.ne_none_iff_exists',Ne,hdrawn.cursor.consistent.surface]
        omega
      rw [hsurface]
      split
      · rename_i cairo' surface' heq heq'
        cases hcairo.symm.trans heq
        cases heq'
        refine ⟨_,rfl,h.composited_filled hdrawn hcairo hsurface (by omega) (by omega) ?_⟩
        exact hstore _
      · rename_i hnone
        exact absurd rfl (hnone cairo surface hcairo)
    · refine ⟨reached,rfl,hreached.composited hdrawn (withCursor_hidden (Or.inr ?_))⟩
      rw [h.cursor] at hpixels
      by_contra hsurface
      obtain ⟨picture,hpicture⟩ := Option.ne_none_iff_exists'.mp hsurface
      have hvalid := hdrawn.cursor.valid picture hpicture
      unfold Picture.Valid at hvalid
      rw [hdrawn.cursor.width picture hpicture,hdrawn.cursor.height picture hpicture] at hvalid
      rw [hdrawn.cursor.consistent.surface] at hsurface
      omega

/-- Before any frame is reset, only the frames of layers that do not exist are as
they will be. -/
theorem painted_start {display : Display (Picture P) (Context P) φ} (h : Drawn display)
    (hcreated : Created display reached) :
    Painted display reached order values fun i => display.layers i=none := by
  have hpainted : Painted display display order values fun i => display.layers i=none := by
    refine ⟨rfl,fun _ => rfl,h.frames,h.atRest,fun i hi => ?_,fun i hi _ cairo hcairo => ?_⟩
    · rw [layerAt,hi]
      exact shows_alloc _
    · rw [layerAt,hi] at hcairo
      cases hcairo
  exact hpainted.created hcreated

/-- Flattening renders the tree of layers, with descending z, before it renders the
cursor. -/
theorem flatten_painted (env : Environment (Picture P) (Context P) φ)
    (hlib : env.lib=.pixels blending) (hstack : guacencDisplayMaxLayers≤env.stack)
    {display : Display (Picture P) (Context P) φ} (hplanted : Planted display)
    (hz : ZComparable display) (hdrawn : Drawn display) (memory : Memory) :
    ∃ order render rendered, Stacking (fun z z' => z' ≤ z) display order ∧
      IsRendering blending display order render ∧
      Painted display rendered order render (fun _ => True) ∧
      guacencDisplayFlatten env memory display=
        guacencDisplayRenderCursor (.pixels blending) rendered := by
  obtain ⟨order,reached,horder,hcreated,hstacking,hbottomUp⟩ :=
    renderOrder_stacking hstack hplanted hz
  let own : Fin guacencDisplayMaxLayers→ℤ→ℤ→P :=
    fun i => (layerAt display i).buffer.canvas blending
  have hstart : Painted display reached order own fun i => display.layers i=none :=
    painted_start hdrawn hcreated
  obtain ⟨reset,hreset,hpainted⟩ := hstart.resets (fun _ => rfl) hdrawn.layers memory order
  have hall : Painted display reset order own fun _ => True := by
    refine hpainted.all fun i => ?_
    rw [hstacking.mem i]
    cases display.layers i with
    | none => exact Or.inl rfl
    | some layer => exact Or.inr rfl
  have hrendered : Painted display (order.foldl (renderLayer (.pixels blending)) reset) order _ _ :=
    hall.renders fun j hj => hj
  have hpass : order.foldl (TreeFold.step (parentOf display) (drawChild blending display)) own=
      TreeFold.compose (parentOf display) (drawChild blending display) own order
        (Fintype.card (Fin guacencDisplayMaxLayers)) :=
    funext (TreeFold.pass_compose hplanted.forest hbottomUp)
  rw [hpass] at hrendered
  refine ⟨order,_,_,hstacking,TreeFold.compose_eq hplanted.forest,hrendered,?_⟩
  unfold guacencDisplayFlatten
  rw [horder,hlib]
  change (order.foldlM (resetFrame (.pixels blending) memory) reached >>= _)=_
  rw [hreset]
  rfl

/-- Flattening draws what the recursion over the tree of layers draws, with
descending z, and then the cursor. -/
theorem flatten_composites (env : Environment (Picture P) (Context P) φ)
    (hlib : env.lib=.pixels blending) (hstack : guacencDisplayMaxLayers≤env.stack)
    {display : Display (Picture P) (Context P) φ} (hplanted : Planted display)
    (hz : ZComparable display) (hdrawn : Drawn display) (memory : Memory) :
    ∃ order render final, Stacking (fun z z' => z' ≤ z) display order ∧
      IsRendering blending display order render ∧
      guacencDisplayFlatten env memory display=.ok final ∧
      Composited blending display final order (render ⟨0,by decide⟩) := by
  obtain ⟨order,render,rendered,hstacking,hrender,hpainted,hflatten⟩ :=
    flatten_painted env hlib hstack hplanted hz hdrawn memory
  obtain ⟨final,hfinal,hcomposited⟩ := hpainted.renderCursor blending hdrawn
  exact ⟨order,render,final,hstacking,hrender,hflatten.trans hfinal,hcomposited⟩

end Painting

section Siblings

/-- An encoder with pixels and with room for a chain of all layers. -/
def Environment.pixels (blending : Blending P) : Environment (Picture P) (Context P) Unit where
  lib := .pixels blending
  stack := 64
  qsort := .merge _
  decoderMap := []
  videoWidth := 640
  videoHeight := 480
  imageAlloc _ _ := true
  convert _ _ _ := some ()
  encode _ := 0
  overflow _ video := (true,video)

/-- A buffer of one pixel. -/
def pixelBuffer (colour : ℕ) : Buffer (Picture ℕ) (Context ℕ) where
  autosize := false
  width := 1
  height := 1
  stride := 4
  image := true
  surface := some ⟨1,1,fun _ _ => colour⟩
  cairo := some ⟨.over,fun _ _ => 0,fun _ _ => false,fun _ _ => true,false⟩

/-- The default layer and two layers in it, one above the other, each of one pixel. -/
def siblings : Display (Picture ℕ) (Context ℕ) Unit :=
  { guacencDisplayAlloc 0 0 () with
    layers := fun i =>
      if i.val≤2 then
        some { guacencLayerAlloc i with buffer := pixelBuffer (i.val+1), z := i.val }
      else none }

section

variable (i : Fin guacencDisplayMaxLayers)

theorem siblings_exists :
    (siblings.layers i).isSome ↔ i.val≤2 := by
  unfold siblings
  dsimp only
  split_ifs with hle <;> simp [hle]

theorem siblings_layerAt : layerAt siblings i=if i.val≤2 then
        { guacencLayerAlloc i with buffer := pixelBuffer (i.val+1), z := i.val }
      else guacencLayerAlloc i := by
  unfold layerAt siblings
  dsimp only
  split_ifs
  · rfl
  · rfl

/-- All layers are in the default layer. -/
theorem siblings_parentOf :
    parentOf siblings i=if i.val=0 then none else some ⟨0,by decide⟩ := by
  have hparent : parentIndexAt siblings i=if i.val=0 then guacencLayerNoParent else 0 := by
    unfold parentIndexAt
    rw [siblings_layerAt]
    split_ifs <;> simp_all [guacencLayerAlloc]
  unfold parentOf
  rw [hparent]
  split_ifs
  · exact layerOf_noParent
  · rfl

end

theorem siblings_planted : Planted siblings := by
  have hroot : Reaches (parentOf siblings) ⟨0,by decide⟩ 0 :=
    .root (by rw [siblings_parentOf,if_pos rfl])
  refine ⟨fun i hi => ?_,fun i => ?_⟩
  · rw [siblings_parentOf]
    split_ifs with hzero
    · refine absurd ?_ hi
      unfold parentIndexAt
      rw [siblings_layerAt,if_pos (by omega)]
      simp [guacencLayerAlloc,hzero]
    · rfl
  · by_cases hzero : i.val=0
    · rw [show i=⟨0,by decide⟩ from Fin.ext hzero]
      exact ⟨0,hroot⟩
    · exact ⟨1,.link (by rw [siblings_parentOf,if_neg hzero]) hroot⟩

theorem siblings_zComparable : ZComparable siblings := by
  have hz : ∀ i layer, siblings.layers i=some layer→0≤layer.z ∧ layer.z≤2 := by
    intro i layer hi
    unfold siblings at hi
    dsimp only at hi
    split_ifs at hi with hle
    cases hi
    exact ⟨Int.natCast_nonneg i.val,Int.ofNat_le.mpr hle⟩
  intro i j layer layer' hi hj _
  have hlow := hz i layer hi
  have hhigh := hz j layer' hj
  omega

theorem pixelBuffer_whole (colour : ℕ) : (pixelBuffer colour).Whole := by
  refine ⟨⟨by simp [pixelBuffer],by simp [pixelBuffer]⟩,?_,?_,?_⟩
  · rintro picture ⟨⟩
    simp [Picture.Valid]
  · rintro picture ⟨⟩
    rfl
  · rintro picture ⟨⟩
    rfl

theorem siblings_drawn : Drawn siblings := by
  have halloc : (guacencBufferAlloc : Buffer (Picture ℕ) (Context ℕ)).Whole :=
    (shows_alloc fun _ _ => 0).whole
  have hframe : ∀ i, (layerAt siblings i).frame=guacencBufferAlloc := by
    intro i
    rw [siblings_layerAt]
    split_ifs
    · rfl
    · rfl
  refine ⟨fun i => ?_,fun i => ?_,fun i cairo hcairo => ?_,halloc,fun h => ?_⟩
  · rw [siblings_layerAt]
    split_ifs
    · exact pixelBuffer_whole _
    · exact halloc
  · rw [hframe i]
    exact halloc
  · rw [hframe i] at hcairo
    cases hcairo
  · exact absurd h.1 (by decide)

/-- The order of the siblings is that of their z coordinates. -/
theorem siblings_childrenIn {before : ℤ→ℤ→Prop}
    (hantisymm : ∀ z z', before z z' → before z' z → z=z')
    {order : List (Fin guacencDisplayMaxLayers)} (h : Stacking before siblings order)
    {children : List (Fin guacencDisplayMaxLayers)} (hnodup : children.Nodup)
    (hmem : ∀ i, i∈children ↔ i.val=1 ∨ i.val=2)
    (hchildren : children.Pairwise fun i j => before i.val j.val) :
    TreeFold.childrenIn (parentOf siblings) order ⟨0,by decide⟩=children := by
  have hmem' : ∀ i, i∈TreeFold.childrenIn (parentOf siblings) order ⟨0,by decide⟩ ↔
      i.val=1 ∨ i.val=2 := by
    intro i
    rw [TreeFold.childrenIn,mem_filter,h.mem i,siblings_exists,decide_eq_true_eq,
      siblings_parentOf]
    split_ifs with hzero
    · simp [hzero]
    · simp only [and_true]
      omega
  have hz : ∀ i, i.val≤2→(layerAt siblings i).z=i.val := by
    intro i hi
    rw [siblings_layerAt,if_pos hi]
  have hperm := (perm_ext_iff_of_nodup (h.nodup.filter _) hnodup).mpr fun i =>
    (hmem' i).trans (hmem i).symm
  refine List.Perm.eq_of_pairwise (fun i j _ _ hij hji => ?_) ?_ hchildren hperm
  · exact Fin.ext (by exact_mod_cast hantisymm _ _ hij hji)
  · refine (h.siblings.filter _).imp_of_mem fun {i j} hi hj hbefore => ?_
    rw [←hz i (by have := (hmem' i).mp hi; omega),←hz j (by have := (hmem' j).mp hj; omega)]
    refine hbefore ?_
    have hparent : ∀ k, k∈TreeFold.childrenIn (parentOf siblings) order ⟨0,by decide⟩ →
        parentOf siblings k=some ⟨0,by decide⟩ := fun k hk => by
      simpa [TreeFold.childrenIn] using (mem_filter.mp hk).2
    rw [hparent i hi,hparent j hj]

/-- The last sibling is seen. -/
theorem siblings_render {order : List (Fin guacencDisplayMaxLayers)}
    {render : Fin guacencDisplayMaxLayers→ℤ→ℤ→ℕ}
    (h : IsRendering opaqueColours siblings order render) {c d : Fin guacencDisplayMaxLayers}
    (hchildren : TreeFold.childrenIn (parentOf siblings) order ⟨0,by decide⟩=[c,d])
    (hd : d.val=1 ∨ d.val=2) : render ⟨0,by decide⟩ 0 0=d.val+1 := by
  have hleaf : TreeFold.childrenIn (parentOf siblings) order d=[] := by
    rw [TreeFold.childrenIn,filter_eq_nil_iff]
    intro i _
    rw [siblings_parentOf,decide_eq_true_eq]
    split_ifs
    · simp
    · intro heq
      cases heq
      exact absurd hd (by decide)
  have hlayer : layerAt siblings d=
      { guacencLayerAlloc d with buffer := pixelBuffer (d.val+1), z := d.val } := by
    rw [siblings_layerAt,if_pos (by omega)]
  have hpixel : render d 0 0=d.val+1 := by
    rw [h d,hleaf,foldl_nil,hlayer]
    rfl
  rw [h ⟨0,by decide⟩,hchildren,foldl_cons,foldl_cons,foldl_nil]
  unfold drawChild
  rw [hlayer]
  change (if render d 0 0=0 then _ else render d 0 0)=_
  rw [hpixel,if_neg (Nat.succ_ne_zero _)]

/-- The siblings are flattened. -/
theorem flatten_composites_siblings :
    ∃ order render final, Stacking (fun z z' => z' ≤ z) siblings order ∧
      IsRendering opaqueColours siblings order render ∧
      guacencDisplayFlatten (.pixels opaqueColours) (fun _ _ => true) siblings=.ok final ∧
      Composited opaqueColours siblings final order (render ⟨0,by decide⟩) :=
  flatten_composites (.pixels opaqueColours) rfl (Nat.le_refl 64) siblings_planted
    siblings_zComparable siblings_drawn fun _ _ => true

/-- Flattening does not draw siblings with increasing z. -/
theorem not_flatten_ascending :
    ¬∀ (memory : Memory) (display final : Display (Picture ℕ) (Context ℕ) Unit) order render,
      Planted display→ZComparable display→Drawn display →
      Stacking (fun z z' => z≤z') display order →
      IsRendering opaqueColours display order render →
      guacencDisplayFlatten (.pixels opaqueColours) memory display=.ok final →
      ∀ picture, (defaultLayer final).frame.surface=some picture →
        picture.pixel=withCursor opaqueColours display (render ⟨0,by decide⟩) := by
  intro h
  let memory : Memory := fun _ _ => true
  obtain ⟨order,render,rendered,hstacking,hrender,hpainted,hflatten⟩ :=
    flatten_painted (.pixels opaqueColours) rfl (Nat.le_refl 64) siblings_planted
      siblings_zComparable siblings_drawn memory
  obtain ⟨final,hfinal,hcomposited⟩ := hpainted.renderCursor opaqueColours siblings_drawn
  have hhidden : ∀ canvas, withCursor opaqueColours siblings canvas=canvas := fun canvas =>
    withCursor_hidden (Or.inl (Or.inl (by decide)))
  obtain ⟨picture,hpicture⟩ : ∃ picture, (defaultLayer final).frame.surface=some picture := by
    rw [←Option.ne_none_iff_exists',Ne,hcomposited.surface,defaultLayer,siblings_layerAt,
      if_pos (by decide)]
    exact Option.some_ne_none _
  -- the second sibling is drawn first
  have hdescending : picture.pixel 0 0=2 := by
    have hchildren := siblings_childrenIn (fun z z' hle hge => le_antisymm hge hle) hstacking
      (show [⟨2,by decide⟩,⟨1,by decide⟩].Nodup by decide) (by decide) (by decide)
    rcases hcomposited.pixel picture hpicture 0 0 with heq | heq
    · rw [heq,siblings_render hrender hchildren (Or.inl rfl)]
    · rw [heq,hhidden,siblings_render hrender hchildren (Or.inl rfl)]
  -- it would be drawn last
  have hascending : picture.pixel 0 0=3 := by
    have hstacking' : Stacking (fun z z' => z≤z') siblings
        [⟨0,by decide⟩,⟨1,by decide⟩,⟨2,by decide⟩] := by
      refine ⟨fun i => ?_,by decide,?_⟩
      · rw [siblings_exists]
        revert i
        decide
      · have hpairwise : [(⟨0,by decide⟩ : Fin guacencDisplayMaxLayers),⟨1,by decide⟩,
            ⟨2,by decide⟩].Pairwise fun i j =>
              (layerAt siblings i).z≤(layerAt siblings j).z := by decide
        refine hpairwise.imp ?_
        intro i j hle _
        exact hle
    have hchildren := siblings_childrenIn (fun z z' => le_antisymm) hstacking'
      (show [⟨1,by decide⟩,⟨2,by decide⟩].Nodup by decide) (by decide) (by decide)
    have hrender' : IsRendering opaqueColours siblings
        [⟨0,by decide⟩,⟨1,by decide⟩,⟨2,by decide⟩] _ :=
      TreeFold.compose_eq siblings_planted.forest
    rw [h memory siblings final _ _ siblings_planted siblings_zComparable siblings_drawn hstacking'
      hrender' (hflatten.trans hfinal) picture hpicture,hhidden,
      siblings_render hrender' hchildren (Or.inr rfl)]
  omega

end Siblings

end GuacServer.EncoderDisplay
