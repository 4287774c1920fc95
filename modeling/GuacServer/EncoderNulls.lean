import GuacServer.EncoderDepth

/-!
# Pointers of the drawing buffers

A buffer has a surface and a context unless it is empty, whatever sizes the
instructions ask for, so that drawing to it is guarded by either. Its image data may
be missing where memory was, and the cursor is drawn without looking whether the
default layer has a context. As long as neither is met, no instruction leads to a
NULL pointer.
-/

namespace GuacServer.EncoderDisplay

open DecimalNumerals Function List StateRuns Unicode UserHandlers VideoTimeline

variable {S C φ : Type}

/-- A buffer that can be drawn to and from wherever it has pixels. -/
structure Buffer.Drawable (buffer : Buffer S C) : Prop where
  consistent : buffer.Consistent
  image : 0<buffer.width→0<buffer.height → buffer.image=true

/-- An image of positive size that replaces that of a buffer is granted memory. -/
def Granted (lib : Cairo S C) (calloc : ℕ→Bool) (buffer : Buffer S C) (width height : ℤ) : Prop :=
  0<width→0<height→¬(buffer.width=width ∧ buffer.height=height) →
    calloc (imageSize lib width height)=true

/-- The image of a buffer that expands to fit a coordinate is granted memory. -/
def GrantedExpansion (lib : Cairo S C) (calloc : ℕ→Bool) (buffer : Buffer S C) (x y : ℤ) : Prop :=
  buffer.autosize=true →
    Granted lib calloc buffer (fitSize buffer.width x) (fitSize buffer.height y)

section Buffers

variable {lib : Cairo S C} {calloc : ℕ→Bool} {buffer : Buffer S C}

theorem Buffer.Drawable.sound (h : buffer.Drawable) : buffer.Sound := by
  intro hwidth hheight
  have hne : ¬(buffer.width=0 ∨ buffer.height=0) := by omega
  refine ⟨h.image hwidth hheight,?_,?_⟩
  · rw [Option.isSome_iff_ne_none]
    exact fun hnone => hne (h.consistent.surface.mp hnone)
  · rw [Option.isSome_iff_ne_none]
    exact fun hnone => hne (h.consistent.cairo.mp hnone)

theorem drawable_alloc : (guacencBufferAlloc : Buffer S C).Drawable :=
  ⟨⟨iff_of_true rfl (Or.inl rfl),iff_of_true rfl (Or.inl rfl)⟩,fun h => absurd h (Int.lt_irrefl 0)⟩

/-- Being drawable is about the size and about which pointers are NULL. -/
theorem Buffer.Drawable.congr {buffer' : Buffer S C} (h : buffer.Drawable)
    (hwidth : buffer'.width=buffer.width) (hheight : buffer'.height=buffer.height)
    (himage : buffer'.image=buffer.image)
    (hsurface : buffer'.surface=none ↔ buffer.surface=none)
    (hcairo : buffer'.cairo=none ↔ buffer.cairo=none) : buffer'.Drawable := by
  refine ⟨⟨?_,?_⟩,?_⟩
  · rw [hsurface,hwidth,hheight]
    exact h.consistent.surface
  · rw [hcairo,hwidth,hheight]
    exact h.consistent.cairo
  · rw [hwidth,hheight,himage]
    exact h.image

theorem drawable_painted (h : buffer.Drawable) {cairo : C} (hcairo : buffer.cairo.isSome)
    (cairo' : C) : ({ buffer.painted lib cairo with cairo := some cairo' }).Drawable := by
  refine h.congr rfl rfl rfl (by simp [Buffer.painted]) (iff_of_false (by simp) ?_)
  exact Option.isSome_iff_ne_none.mp hcairo

theorem drawable_redrawn (h : buffer.Drawable) (hcairo : buffer.cairo.isSome) (paint : S→S)
    (cairo : C) :
    ({ buffer with surface := buffer.surface.map paint, cairo := some cairo }).Drawable := by
  refine h.congr rfl rfl rfl (by simp) (iff_of_false (by simp) ?_)
  exact Option.isSome_iff_ne_none.mp hcairo

theorem drawable_filled (h : buffer.Drawable) {cairo : C} (hcairo : buffer.cairo.isSome) :
    (buffer.filled lib cairo).Drawable := by
  refine h.congr rfl rfl rfl (by simp [Buffer.filled]) (iff_of_false (by simp [Buffer.filled]) ?_)
  exact Option.isSome_iff_ne_none.mp hcairo

/-- A buffer stays drawable at a new size, if its new image is granted memory. -/
theorem drawable_resize (h : buffer.Drawable) {width height : ℤ}
    (hgranted : Granted lib calloc buffer width height) :
    (guacencBufferResize lib calloc buffer width height).Drawable := by
  unfold guacencBufferResize
  split_ifs with hsame hempty
  · exact h
  · refine ⟨⟨iff_of_true rfl hempty,iff_of_true rfl hempty⟩,fun hwidth hheight => ?_⟩
    dsimp only at hwidth hheight
    omega
  · refine ⟨⟨iff_of_false (by simp) hempty,iff_of_false (by simp) hempty⟩,
      fun hwidth hheight => hgranted hwidth hheight hsame⟩

/-- A buffer has the size that it is given. -/
theorem resize_size (lib : Cairo S C) (calloc : ℕ→Bool) (buffer : Buffer S C) (width height : ℤ) :
    (guacencBufferResize lib calloc buffer width height).width=width ∧
      (guacencBufferResize lib calloc buffer width height).height=height := by
  unfold guacencBufferResize
  split_ifs with hsame hempty
  · exact hsame
  · exact ⟨rfl,rfl⟩
  · exact ⟨rfl,rfl⟩

/-- A copy of a drawable buffer has its size, and the assertion on its context
holds. -/
theorem copy_drawable {dst src : Buffer S C} (hdst : dst.Drawable) (hsrc : src.Drawable)
    (hgranted : Granted lib calloc dst src.width src.height) :
    Outcome .nullPointer
      (fun copied => copied.Drawable ∧ copied.width=src.width ∧ copied.height=src.height)
      (guacencBufferCopy lib calloc dst src) := by
  have hresized := drawable_resize hdst hgranted
  have hsize := resize_size lib calloc dst src.width src.height
  unfold guacencBufferCopy
  dsimp only
  split
  · exact ⟨hresized,hsize⟩
  · rename_i surface hsurface
    have hnonempty : ¬(src.width=0 ∨ src.height=0) := by
      rw [←hsrc.consistent.surface,hsurface]
      simp
    split
    · rename_i hcairo
      rw [hresized.consistent.cairo,hsize.1,hsize.2] at hcairo
      exact absurd hcairo hnonempty
    · rename_i cairo hcairo
      exact ⟨drawable_painted hresized (by rw [hcairo]; rfl) _,hsize⟩

end Buffers

/-- A property of every buffer of a display. -/
structure AllBuffers (P : Buffer S C→Prop) (display : Display S C φ) : Prop where
  cursor : P display.cursor.buffer
  buffers : ∀ i buffer, display.buffers i=some buffer→P buffer
  layers : ∀ i layer, display.layers i=some layer→P layer.buffer
  frames : ∀ i layer, display.layers i=some layer→P layer.frame

section Displays

variable {display : Display S C φ}

variable {P : Buffer S C→Prop}

theorem AllBuffers.imp {Q : Buffer S C→Prop} (h : AllBuffers P display)
    (hPQ : ∀ buffer, P buffer→Q buffer) : AllBuffers Q display :=
  ⟨hPQ _ h.cursor,fun i buffer hi => hPQ _ (h.buffers i buffer hi),
    fun i layer hi => hPQ _ (h.layers i layer hi),fun i layer hi => hPQ _ (h.frames i layer hi)⟩

theorem allBuffers_iff : AllBuffers P display ↔ Stored P P display :=
  ⟨fun h => ⟨h.cursor,h.buffers,fun i layer hi => ⟨h.layers i layer hi,h.frames i layer hi⟩⟩,
    fun h => ⟨h.cursor,h.buffers,fun i layer hi => (h.layers i layer hi).1,
      fun i layer hi => (h.layers i layer hi).2⟩⟩

theorem fresh_drawable : Fresh (Buffer.Drawable : Buffer S C→Prop) Buffer.Drawable :=
  ⟨fun _ => drawable_alloc.congr rfl rfl rfl Iff.rfl Iff.rfl,drawable_alloc⟩

/-- A layer that is found or made can be drawn to. -/
theorem getLayer_drawable (h : AllBuffers Buffer.Drawable display) (index : ℤ) :
    (∀ found, (guacencDisplayGetLayer index display).1=some found →
      found.2.buffer.Drawable ∧ found.2.frame.Drawable) ∧
      AllBuffers Buffer.Drawable (guacencDisplayGetLayer index display).2 := by
  rw [allBuffers_iff] at h ⊢
  exact h.getLayer fresh_drawable index

/-- A layer that a lookup finds is stored. -/
theorem getLayer_stored (index : ℤ) (display : Display S C φ) :
    ∀ i layer, (guacencDisplayGetLayer index display).1=some (i,layer) →
      (guacencDisplayGetLayer index display).2.layers i=some layer := by
  intro i layer
  unfold guacencDisplayGetLayer
  split_ifs with hindex
  · dsimp only
    split
    · rename_i hlayer
      intro hfound
      cases hfound
      exact hlayer
    · intro hfound
      cases hfound
      exact update_self ..
  · intro hfound
    cases hfound

theorem getRelatedBuffer_cursor (index : ℤ) (display : Display S C φ) :
    (guacencDisplayGetRelatedBuffer index display).2.cursor=display.cursor := by
  unfold guacencDisplayGetRelatedBuffer guacencDisplayGetLayer guacencDisplayGetBuffer
  dsimp only
  split_ifs
  · split
    · rename_i heq
      cases hlayer : display.layers ⟨index.toNat,by omega⟩ <;> rw [hlayer] at heq <;> cases heq
    · rename_i heq
      cases hlayer : display.layers ⟨index.toNat,by omega⟩ <;> rw [hlayer] at heq <;> cases heq
      · rfl
      · rfl
  · rfl
  · split
    · rfl
    · rfl
  · rfl

end Displays

/-- Layers have been created where there were none, and nothing else has changed. -/
structure Created (display display' : Display S C φ) : Prop where
  rest : display' = { display with layers := display'.layers }
  layers : ∀ i, display'.layers i=display.layers i ∨
    display.layers i=none ∧ display'.layers i=some (guacencLayerAlloc i)

namespace Created

variable {display display' display'' : Display S C φ}

theorem refl (display : Display S C φ) : Created display display := ⟨rfl,fun _ => Or.inl rfl⟩

theorem trans (h : Created display display') (h' : Created display' display'') :
    Created display display'' := by
  refine ⟨?_,fun i => ?_⟩
  · rw [h'.rest,h.rest]
  · rcases h'.layers i with heq | ⟨hnone,hsome⟩
    · rw [heq]
      exact h.layers i
    · rcases h.layers i with heq | ⟨-,hcreated⟩
      · exact Or.inr ⟨heq ▸ hnone,hsome⟩
      · exact absurd (hnone.symm.trans hcreated) (by simp)

theorem layerAt_eq (h : Created display display') : layerAt display' = layerAt display := by
  funext i
  unfold layerAt
  rcases h.layers i with heq | ⟨hnone,hsome⟩
  · rw [heq]
  · rw [hnone,hsome]
    rfl

theorem cursor_eq (h : Created display display') : display'.cursor=display.cursor := by
  rw [h.rest]

theorem buffers_eq (h : Created display display') : display'.buffers=display.buffers := by
  rw [h.rest]

/-- New layers have new buffers. -/
theorem stored {P F : Buffer S C→Prop} (hfresh : Fresh P F) (h : Created display display')
    (hstored : Stored P F display) : Stored P F display' := by
  refine ⟨?_,?_,fun i layer hlayer => ?_⟩
  · rw [h.cursor_eq]
    exact hstored.cursor
  · rw [h.buffers_eq]
    exact hstored.buffers
  · rcases h.layers i with heq | ⟨-,hsome⟩
    · rw [heq] at hlayer
      exact hstored.layers i layer hlayer
    · rw [hsome] at hlayer
      cases hlayer
      exact ⟨hfresh.buffer false,hfresh.frame⟩

theorem drawable (h : Created display display') (hdrawable : AllBuffers Buffer.Drawable display) :
    AllBuffers Buffer.Drawable display' :=
  allBuffers_iff.mpr (h.stored fresh_drawable (allBuffers_iff.mp hdrawable))

theorem getLayer (index : ℤ) (display : Display S C φ) :
    Created display (guacencDisplayGetLayer index display).2 := by
  unfold guacencDisplayGetLayer
  split_ifs with hindex
  · dsimp only
    split
    · exact refl display
    · rename_i hnone
      refine ⟨rfl,fun i => ?_⟩
      unfold Display.setLayer
      dsimp only
      by_cases hi : i=⟨index.toNat,by omega⟩
      · rw [hi,update_self]
        exact Or.inr ⟨hnone,rfl⟩
      · rw [update_of_ne hi]
        exact Or.inl rfl
  · exact refl display

end Created

section Flattening

variable {env : Environment S C φ} {display : Display S C φ}

theorem getDepth_created (stack : ℕ) (layer : Option (Layer S C)) (display : Display S C φ) :
    Outcome .nullPointer (fun found => Created display found.2)
      (guacencDisplayGetDepth stack layer display) := by
  induction stack generalizing layer display with
  | zero =>
    unfold guacencDisplayGetDepth
    cases layer with
    | none => exact .refl display
    | some layer =>
      dsimp only
      split_ifs
      · exact .refl display
      · exact Fault.noConfusion
  | succ stack ih =>
    unfold guacencDisplayGetDepth
    cases layer with
    | none => exact .refl display
    | some layer =>
      dsimp only
      split_ifs
      · exact .refl display
      · exact (ih _ _).bind fun found hfound => (Created.getLayer _ display).trans hfound

theorem layerDepths_created (stack : ℕ) (layers : List (Fin guacencDisplayMaxLayers))
    (display : Display S C φ) :
    Outcome .nullPointer (fun found => Created display found.2)
      (layerDepths stack layers display) := by
  induction layers generalizing display with
  | nil => exact .refl display
  | cons i layers ih =>
    rw [layerDepths]
    exact (getDepth_created stack _ display).bind fun found hfound =>
      (ih found.2).bind fun depths hdepths => hfound.trans hdepths

/-- The render order has each layer that exists. -/
theorem renderOrder_created (env : Environment S C φ) (display : Display S C φ) :
    Outcome .nullPointer
      (fun found => (∀ i, i∈found.1 ↔ (display.layers i).isSome) ∧ Created display found.2)
      (renderOrder env display) := by
  have hdepths : Outcome .nullPointer (fun found => Created display found.2)
      (comparedDepths env display) := by
    unfold comparedDepths
    split_ifs
    · exact .refl display
    · exact layerDepths_created _ _ _
  refine hdepths.bind fun found hfound => ⟨fun i => ?_,hfound⟩
  rw [mem_filter,(env.qsort.perm _ _).mem_iff]
  exact and_iff_right (mem_finRange i)

/-- A buffer of the size of another one. -/
def Buffer.SameSize (buffer buffer' : Buffer S C) : Prop :=
  buffer'.width=buffer.width ∧ buffer'.height=buffer.height

/-- The display while it is flattened, with the frames of some layers already of the
size of the layer. -/
structure Flattened (lib : Cairo S C) (memory : Memory) (original current : Display S C φ)
    (done : Fin guacencDisplayMaxLayers→Prop) : Prop where
  drawable : AllBuffers Buffer.Drawable current
  cursor : current.cursor=original.cursor
  buffers : ∀ i, (layerAt original i).buffer.SameSize (layerAt current i).buffer
  granted : ∀ i layer, current.layers i=some layer →
    Granted lib (memory (.frame i)) layer.frame layer.buffer.width layer.buffer.height
  fitted : ∀ i, done i→(layerAt current i).buffer.SameSize (layerAt current i).frame

variable {lib : Cairo S C} {memory : Memory} {original current : Display S C φ}
  {done : Fin guacencDisplayMaxLayers→Prop}

/-- Only the frame of one layer is stored. -/
theorem layers_storeFrame (i j : Fin guacencDisplayMaxLayers) (frame : Buffer S C)
    (display : Display S C φ) :
    (display.store (.frame j) frame).layers i=
      if i=j then (display.layers j).map fun layer => { layer with frame := frame }
      else display.layers i := by
  unfold Display.store Display.setLayer
  dsimp only
  split_ifs with hij
  · rw [hij,update_self]
  · rw [update_of_ne hij]

section

variable (h : Flattened lib memory original current done)

include h

/-- The frame of a layer is replaced. -/
theorem Flattened.storeFrame {j : Fin guacencDisplayMaxLayers} {layer : Layer S C}
    (hlayer : current.layers j=some layer) {frame : Buffer S C} (hdrawable : frame.Drawable)
    (hgranted : Granted lib (memory (.frame j)) frame layer.buffer.width layer.buffer.height)
    {done' : Fin guacencDisplayMaxLayers→Prop} (hdone : ∀ i, i≠j → done' i → done i)
    (hfitted : done' j → layer.buffer.SameSize frame) :
    Flattened lib memory original (current.store (.frame j) frame) done' := by
  have hj : (current.store (.frame j) frame).layers j=some { layer with frame := frame } := by
    rw [layers_storeFrame,if_pos rfl,hlayer,Option.map_some]
  have hne : ∀ i, i≠j→(current.store (.frame j) frame).layers i=current.layers i := by
    intro i hi
    rw [layers_storeFrame,if_neg hi]
  refine ⟨allBuffers_iff.mpr ((allBuffers_iff.mp h.drawable).store (.frame j) hdrawable hdrawable),
    h.cursor,fun i => ?_,fun i l hl => ?_,fun i hi => ?_⟩
  · have hbuffer := h.buffers i
    unfold layerAt at hbuffer ⊢
    by_cases hij : i=j
    · rw [hij] at hbuffer ⊢
      rw [hlayer] at hbuffer
      rw [hj]
      exact hbuffer
    · rw [hne i hij]
      exact hbuffer
  · by_cases hij : i=j
    · rw [hij] at hl ⊢
      cases hj.symm.trans hl
      exact hgranted
    · rw [hne i hij] at hl
      exact h.granted i l hl
  · by_cases hij : i=j
    · rw [hij] at hi ⊢
      rw [layerAt,hj]
      exact hfitted hi
    · have hfit := h.fitted i (hdone i hij hi)
      unfold layerAt at hfit ⊢
      rw [hne i hij]
      exact hfit

/-- Layers that a lookup creates are empty, and so are their frames. -/
theorem Flattened.created {reached : Display S C φ} (hcreated : Created current reached) :
    Flattened lib memory original reached done := by
  refine ⟨hcreated.drawable h.drawable,hcreated.cursor_eq.trans h.cursor,?_,fun i l hl => ?_,?_⟩
  · rw [hcreated.layerAt_eq]
    exact h.buffers
  · rcases hcreated.layers i with heq | ⟨-,hsome⟩
    · rw [heq] at hl
      exact h.granted i l hl
    · rw [hsome] at hl
      cases hl
      exact fun hwidth => absurd hwidth (Int.lt_irrefl 0)
  · rw [hcreated.layerAt_eq]
    exact h.fitted

/-- Resetting the frame of a layer gives it the size of the layer. -/
theorem Flattened.reset (j : Fin guacencDisplayMaxLayers) : Outcome .nullPointer
      (fun reset => Flattened lib memory original reset fun i => done i ∨ i=j)
      (resetFrame lib memory current j) := by
  unfold resetFrame
  split
  · rename_i hnone
    refine ⟨h.drawable,h.cursor,h.buffers,h.granted,fun i hi => ?_⟩
    rcases hi with hi | rfl
    · exact h.fitted i hi
    · rw [layerAt,hnone]
      exact ⟨rfl,rfl⟩
  · rename_i layer hlayer
    refine (copy_drawable (h.drawable.frames j layer hlayer) (h.drawable.layers j layer hlayer)
      (h.granted j layer hlayer)).bind fun frame hframe => ?_
    refine h.storeFrame hlayer hframe.1 (fun _ _ hsize => absurd hframe.2 hsize)
      (fun i hij hi => ?_) fun _ => hframe.2
    rcases hi with hi | heq
    · exact hi
    · exact absurd heq hij

/-- Rendering a layer keeps the size of every frame. -/
theorem Flattened.render (j : Fin guacencDisplayMaxLayers) :
    Flattened lib memory original (renderLayer lib current j) done := by
  unfold renderLayer
  split
  · exact h
  · rename_i layer _
    split_ifs
    · exact h
    · exact h
    · have hcreated := Created.getLayer layer.parentIndex current
      have hstored := getLayer_stored layer.parentIndex current
      generalize guacencDisplayGetLayer layer.parentIndex current=found at hcreated hstored
      obtain ⟨_ | ⟨p,parent⟩,reached⟩ := found
      · exact h.created hcreated
      · have hreached : Flattened lib memory original reached done := h.created hcreated
        have hparent : reached.layers p=some parent := hstored p parent rfl
        dsimp only
        split
        · rename_i surface cairo _ hcairo
          refine hreached.storeFrame hparent ?_ ?_ (fun i _ hi => hi) fun hp => ?_
          · exact drawable_redrawn (hreached.drawable.frames p parent hparent) (by rw [hcairo]; rfl)
              _ _
          · exact hreached.granted p parent hparent
          · have hfit := hreached.fitted p hp
            rw [layerAt,hparent] at hfit
            exact hfit
        · exact hreached

theorem Flattened.resets (order : List (Fin guacencDisplayMaxLayers)) : Outcome .nullPointer
      (fun reset => Flattened lib memory original reset fun i => done i ∨ i∈order)
      (order.foldlM (resetFrame lib memory) current) := by
  induction order generalizing current done with
  | nil =>
    refine ⟨h.drawable,h.cursor,h.buffers,h.granted,fun i hi => h.fitted i ?_⟩
    exact hi.resolve_right not_mem_nil
  | cons j order ih =>
    rw [foldlM_cons]
    refine (h.reset j).bind fun reset hreset => (ih hreset).imp fun final hfinal => ?_
    refine ⟨hfinal.drawable,hfinal.cursor,hfinal.buffers,hfinal.granted,
      fun i hi => hfinal.fitted i ?_⟩
    rwa [mem_cons,←or_assoc] at hi

theorem Flattened.renders (order : List (Fin guacencDisplayMaxLayers)) :
    Flattened lib memory original (order.foldl (renderLayer lib) current) done := by
  induction order generalizing current with
  | nil => exact h
  | cons j order ih =>
    rw [foldl_cons]
    exact ih (h.render j)

end

/-- The default layer as a lookup finds it. -/
def defaultLayer (display : Display S C φ) : Layer S C := layerAt display ⟨0,by decide⟩

/-- The cursor is drawn when the display is flattened. -/
def CursorShown (display : Display S C φ) : Prop :=
  0≤display.cursor.x ∧ 0≤display.cursor.y ∧ 0<display.cursor.buffer.width ∧
    0<display.cursor.buffer.height

/-- The cursor is not drawn on a frame that has no pixels. -/
theorem Flattened.renderCursor (h : Flattened lib memory original current fun _ => True)
    (hcursor : CursorShown original →
      (defaultLayer original).buffer.width≠0 ∧ (defaultLayer original).buffer.height≠0) :
    Outcome .nullPointer (fun final => Flattened lib memory original final fun _ => True)
      (guacencDisplayRenderCursor lib current) := by
  have hcreated := Created.getLayer 0 current
  have hstored := getLayer_stored 0 current
  have hfound := getLayer_eq 0 current
  unfold guacencDisplayRenderCursor
  generalize guacencDisplayGetLayer 0 current=found at hcreated hstored hfound
  obtain ⟨_ | ⟨i,layer⟩,reached⟩ := found
  · cases hfound
  · have hreached : Flattened lib memory original reached fun _ => True := h.created hcreated
    have hlayer : reached.layers i=some layer := hstored i layer rfl
    dsimp only
    split_ifs with hhidden hpixels
    · exact h
    · have hdefault : layer=layerAt current ⟨0,by decide⟩ := by
        cases hfound
        rfl
      obtain ⟨hwidth,hheight⟩ := h.buffers ⟨0,by decide⟩
      obtain ⟨hframeWidth,hframeHeight⟩ := h.fitted ⟨0,by decide⟩ trivial
      have hshown : CursorShown original := by
        rw [CursorShown,←h.cursor]
        exact ⟨by omega,by omega,hpixels⟩
      obtain ⟨hdefaultWidth,hdefaultHeight⟩ := hcursor hshown
      have hframe := hreached.drawable.frames i layer hlayer
      have hcairo : layer.frame.cairo≠none := by
        rw [Ne,hframe.consistent.cairo,hdefault,hframeWidth,hframeHeight,hwidth,hheight]
        exact not_or.mpr ⟨hdefaultWidth,hdefaultHeight⟩
      have hsurface : current.cursor.buffer.surface≠none := by
        rw [Ne,h.drawable.cursor.consistent.surface]
        omega
      split
      · rename_i cairo surface heq _
        refine hreached.storeFrame hlayer ?_ ?_ (fun i _ _ => trivial) fun _ => ?_
        · exact drawable_filled hframe (by rw [heq]; rfl)
        · exact hreached.granted i layer hlayer
        · have hfit := hreached.fitted i trivial
          rw [layerAt,hlayer] at hfit
          exact hfit
      · rename_i hnone
        obtain ⟨cairo,heq⟩ := Option.ne_none_iff_exists'.mp hcairo
        obtain ⟨surface,heq'⟩ := Option.ne_none_iff_exists'.mp hsurface
        exact absurd heq' (hnone cairo surface heq)
    · exact hreached

/-- The rows of a buffer of some size are copied when it is prepared as a frame. -/
def ReadsImage (env : Environment S C φ) (buffer : Buffer S C) : Prop :=
  0<buffer.height ∧ wrap32 (buffer.width*4)≠0 ∧ ∃ margins, frameMargins env buffer=.ok margins ∧
      env.imageAlloc (wrap32 (wrap32 (buffer.width+margins.2)+margins.2))
        (wrap32 (wrap32 (buffer.height+margins.1)+margins.1))=true

theorem Buffer.SameSize.readsImage {buffer buffer' : Buffer S C} (h : buffer.SameSize buffer')
    (hreads : ReadsImage env buffer') : ReadsImage env buffer := by
  unfold ReadsImage frameMargins at hreads ⊢
  rwa [h.1,h.2] at hreads

/-- A frame is prepared without its image data only if no row of it is copied. -/
theorem preparedFrame_safe {buffer : Buffer S C} (h : ReadsImage env buffer → buffer.image=true) :
    Outcome .nullPointer (fun _ => True) (preparedFrame env buffer) := by
  unfold preparedFrame
  split
  · trivial
  · cases hmargins : frameMargins env buffer with
    | error fault =>
      unfold frameMargins at hmargins
      dsimp only at hmargins
      split_ifs at hmargins
      cases hmargins
      exact Fault.noConfusion
    | ok margins =>
      change Outcome _ _ (guacencVideoFrameConvert env buffer _ margins.1 margins.2)
      unfold guacencVideoFrameConvert
      dsimp only
      split_ifs with hfailed _ hread
      · trivial
      · exact Fault.noConfusion
      · obtain ⟨hheight,hrow,hmissing⟩ := hread
        have himage := h ⟨hheight,hrow,margins,hmargins,by simpa using hfailed⟩
        rw [hmissing] at himage
        cases himage
      · trivial

/-- A sync that is not refused, for whose frames there is memory, whose cursor is not
drawn on a default layer without pixels, and that reads no image of a negative
width. -/
structure SyncSafe (env : Environment S C φ) (memory : Memory) (display : Display S C φ) :
    Prop where
  granted : ∀ i layer, display.layers i=some layer →
    Granted env.lib (memory (.frame i)) layer.frame layer.buffer.width layer.buffer.height
  cursor : CursorShown display →
    (defaultLayer display).buffer.width≠0 ∧ (defaultLayer display).buffer.height≠0
  image : (defaultLayer display).buffer.width<0 → ¬ReadsImage env (defaultLayer display).buffer

/-- A display is flattened without null pointers. -/
theorem SyncSafe.flattened {env : Environment S C φ} (h : SyncSafe env memory display)
    (hdrawable : AllBuffers Buffer.Drawable display) :
    Outcome .nullPointer (fun final => Flattened env.lib memory display final fun _ => True)
      (guacencDisplayFlatten env memory display) := by
  have hstart : Flattened env.lib memory display display fun i => display.layers i=none := by
    refine ⟨hdrawable,rfl,fun i => ⟨rfl,rfl⟩,h.granted,fun i hi => ?_⟩
    rw [layerAt,hi]
    exact ⟨rfl,rfl⟩
  unfold guacencDisplayFlatten
  refine (renderOrder_created env display).bind fun ordered hordered => ?_
  refine ((hstart.created hordered.2).resets ordered.1).bind fun reset hreset => ?_
  have hall : Flattened env.lib memory display reset fun _ => True := by
    refine ⟨hreset.drawable,hreset.cursor,hreset.buffers,hreset.granted,
      fun i _ => hreset.fitted i ?_⟩
    cases hi : display.layers i with
    | none => exact Or.inl rfl
    | some layer => exact Or.inr ((hordered.1 i).mpr (by rw [hi]; rfl))
  exact (hall.renders ordered.1).renderCursor h.cursor

/-- Such a sync is handled without a NULL pointer. -/
theorem SyncSafe.sync {env : Environment S C φ} {timestamp : ℤ}
    (h : display.lastSync≤timestamp→SyncSafe env memory display)
    (hdrawable : AllBuffers Buffer.Drawable display) :
    Outcome .nullPointer (fun found => AllBuffers Buffer.Drawable found.2)
      (guacencDisplaySync env memory timestamp display) := by
  unfold guacencDisplaySync
  split_ifs with hrefused
  · exact hdrawable
  · have hsafe := h (by omega)
    have hstamped : SyncSafe env memory { display with lastSync := timestamp } :=
      ⟨hsafe.granted,hsafe.cursor,hsafe.image⟩
    refine (hstamped.flattened ⟨hdrawable.cursor,hdrawable.buffers,hdrawable.layers,
      hdrawable.frames⟩).bind fun final hfinal => ?_
    have hlayers := getLayer_drawable hfinal.drawable 0
    have hfound := getLayer_eq 0 final
    generalize guacencDisplayGetLayer 0 final=found at hlayers hfound
    obtain ⟨_ | ⟨i,layer⟩,reached⟩ := found
    · cases hfound
    · have hreached : AllBuffers Buffer.Drawable reached := hlayers.2
      have hdefault : layer=layerAt final ⟨0,by decide⟩ := by
        cases hfound
        rfl
      have hprepared : ReadsImage env layer.frame → layer.frame.image=true := by
        intro hreads
        have hbuffer := hfinal.buffers ⟨0,by decide⟩
        have hfit := hfinal.fitted ⟨0,by decide⟩ trivial
        rw [←hdefault] at hbuffer hfit
        have hdefaultReads := hbuffer.readsImage (hfit.readsImage hreads)
        have hwidth : ¬(defaultLayer display).buffer.width<0 :=
          fun hneg => hsafe.image hneg hdefaultReads
        have hne : layer.frame.width≠0 := by
          intro hzero
          refine hreads.2.1 ?_
          rw [hzero]
          rfl
        have hframe : layer.frame.Drawable := (hlayers.1 _ rfl).2
        refine hframe.image ?_ hreads.1
        have hsame : layer.frame.width=(defaultLayer display).buffer.width := hfit.1.trans hbuffer.1
        omega
      dsimp only
      split_ifs
      · exact ⟨hreached.cursor,hreached.buffers,hreached.layers,hreached.frames⟩
      · refine (preparedFrame_safe hprepared).bind fun frame _ => ?_
        exact ⟨hreached.cursor,hreached.buffers,hreached.layers,hreached.frames⟩

end Flattening

variable {instruction : Instruction}

section Handlers

variable {env : Environment S C φ} {display : Display S C φ} {memory : Memory}
  {argv : List (List UInt8)}

/-- The memory that an instruction asks for is granted, and a sync is safe. -/
structure NoNulls (env : Environment S C φ) (instruction : Instruction)
    (display : Display S C φ) : Prop where
  size : instruction.opcode=ascii "size" → 3 ≤ instruction.argv.length→∀ name buffer,
    (guacencDisplayGetRelatedBuffer (int instruction.argv 0) display).1=some (name,buffer) →
      Granted env.lib (instruction.memory name) buffer (int instruction.argv 1)
        (int instruction.argv 2)
  rect : instruction.opcode=ascii "rect" → 5 ≤ instruction.argv.length→∀ name buffer,
    (guacencDisplayGetRelatedBuffer (int instruction.argv 0) display).1=some (name,buffer) →
      GrantedExpansion env.lib (instruction.memory name) buffer
        (wrap32 (int instruction.argv 1+int instruction.argv 3))
        (wrap32 (int instruction.argv 2+int instruction.argv 4))
  copy : instruction.opcode=ascii "copy" → 9 ≤ instruction.argv.length→∀ name buffer,
    (guacencDisplayGetRelatedBuffer (int instruction.argv 6)
      (guacencDisplayGetRelatedBuffer (int instruction.argv 0) display).2).1=some (name,buffer) →
      GrantedExpansion env.lib (instruction.memory name) buffer
        (wrap32 (int instruction.argv 7+int instruction.argv 3))
        (wrap32 (int instruction.argv 8+int instruction.argv 4))
  imageEnd : instruction.opcode=ascii "end" → 1 ≤ instruction.argv.length →
    ∀ i stream decoder surface name buffer,
      guacencDisplayGetImageStream (int instruction.argv 0) display=some (i,stream) →
      stream.decoder=some decoder → decoder stream.data=some surface →
      (guacencDisplayGetRelatedBuffer stream.index display).1=some (name,buffer) →
        GrantedExpansion env.lib (instruction.memory name) buffer
          (wrap32 (stream.x+env.lib.imageSurfaceGetWidth surface))
          (wrap32 (stream.y+env.lib.imageSurfaceGetHeight surface))
  cursor : instruction.opcode=ascii "cursor" → 7 ≤ instruction.argv.length →
    (guacencDisplayGetRelatedBuffer (int instruction.argv 2) display).1.isSome →
      Granted env.lib (instruction.memory .cursor) display.cursor.buffer (int instruction.argv 5)
        (int instruction.argv 6)
  sync : instruction.opcode=ascii "sync" → 1 ≤ instruction.argv.length →
    display.lastSync≤guacencParseTimestamp (text instruction.argv 0) →
      SyncSafe env instruction.memory display
  mouse : instruction.opcode=ascii "mouse" → 4 ≤ instruction.argv.length →
    display.lastSync≤guacencParseTimestamp (text instruction.argv 3) →
      SyncSafe env instruction.memory { display with cursor := { display.cursor with
        x := int instruction.argv 0, y := int instruction.argv 1 } }

/-- Instructions draw only where there is a context. -/
theorem keptByDrawing_drawable (lib : Cairo S C) :
    KeptByDrawing lib Buffer.Drawable (Granted lib) where
  resize _ _ _ _ h hgranted := drawable_resize h hgranted
  painted _ _ _ _ _ _ h hcairo := drawable_painted h (by rw [hcairo]; rfl) _
  drawn _ _ _ _ _ _ _ _ _ _ h hcairo := drawable_filled h (by rw [hcairo]; rfl)
  rectangle _ _ _ _ _ h := h.congr rfl rfl rfl Iff.rfl (by simp)
  filled _ _ _ _ _ _ _ h hcairo := drawable_filled h (by rw [hcairo]; rfl)

/-- Each instruction under its condition leaves drawable buffers. -/
theorem handleInstruction_drawable (h : AllBuffers Buffer.Drawable display)
    (hsafe : NoNulls env instruction display) :
    Outcome .nullPointer (fun found => AllBuffers Buffer.Drawable found.2)
      (guacencHandleInstruction env instruction display) := by
  have hdrawing : DrawingInvariant env.lib (Stored _ _ : Display S C φ→Prop) _ _ :=
    Stored.drawing fresh_drawable (keptByDrawing_drawable env.lib) fun _ hbuffer => hbuffer
  have hsync := fun {timestamp} {display : Display S C φ}
    (hsafe : display.lastSync≤timestamp→SyncSafe env instruction.memory display)
    (hdrawable : Stored Buffer.Drawable Buffer.Drawable display) =>
      (unless_of_outcome (SyncSafe.sync hsafe (allBuffers_iff.mpr hdrawable))).imp
        fun _ => allBuffers_iff.mp
  rw [allBuffers_iff] at h
  suffices hstored : Unless (· ≠ .nullPointer) (fun found => Stored _ _ found.2)
      (guacencHandleInstruction env instruction display) from
    (hstored.imp fun _ => allBuffers_iff.mpr).outcome
  refine handleInstruction_of_handlers h fun opcode handler hentry hopcode => ?_
  simp only [guacencInstructionHandlerMap,mem_cons,Prod.mk.injEq,not_mem_nil,
    or_false] at hentry
  rcases hentry with ⟨-,rfl⟩ | ⟨-,rfl⟩ | ⟨hname,rfl⟩ | ⟨hname,rfl⟩ | ⟨hname,rfl⟩ |
    ⟨hname,rfl⟩ | ⟨hname,rfl⟩ | ⟨-,rfl⟩ | ⟨hname,rfl⟩ | ⟨hname,rfl⟩ | ⟨-,rfl⟩ | ⟨-,rfl⟩ |
    ⟨-,rfl⟩ | ⟨-,rfl⟩
  · exact hdrawing.handleBlob h
  · exact hdrawing.handleImg h
  · exact hdrawing.handleEnd h (hsafe.imageEnd (hopcode.trans hname))
  · refine hdrawing.handleMouse h fun hargc moved hmoved hdrawable => ?_
    subst hmoved
    exact hsync (hsafe.mouse (hopcode.trans hname) hargc) hdrawable
  · exact DrawingInvariant.handleSync h fun hargc =>
      hsync (hsafe.sync (hopcode.trans hname) hargc) h
  · refine hdrawing.handleCursor h fun hargc reached hfound hreached => ?_
    rw [←hreached,getRelatedBuffer_cursor]
    exact hsafe.cursor (hopcode.trans hname) hargc hfound
  · exact hdrawing.handleCopy h (hsafe.copy (hopcode.trans hname))
  · exact DrawingInvariant.handleTransfer h
  · exact hdrawing.handleSize h (hsafe.size (hopcode.trans hname))
  · exact hdrawing.handleRect h (hsafe.rect (hopcode.trans hname))
  · exact hdrawing.handleCfill h
  · exact h.handleMove fresh_drawable
  · exact h.handleShade fresh_drawable
  · exact h.handleDispose

end Handlers

section Runs

variable {env : Environment S C φ}

/-- The encoder has met no NULL pointer, and every buffer of the display with pixels
has its image data, its surface and its context. -/
def NullFree : Except Fault (Display S C φ)→Prop := Outcome .nullPointer (AllBuffers Buffer.Sound)

/-- The condition on an instruction, if it is handled at all. -/
def NoNullsIn (env : Environment S C φ) (instruction : Instruction) :
    Except Fault (Display S C φ)→Prop
  | .ok display => NoNulls env instruction display
  | .error _ => True

theorem drawable_displayAlloc (hotspotX hotspotY : ℤ) (blank : φ) :
    AllBuffers Buffer.Drawable (guacencDisplayAlloc hotspotX hotspotY blank : Display S C φ) := by
  refine ⟨drawable_alloc,fun i buffer h => ?_,fun i layer h => ?_,fun i layer h => ?_⟩
  · cases h
  · cases h
  · cases h

/-- No instruction of a recording leads to a NULL pointer if each meets its
condition. -/
theorem rendering_nullFree (env : Environment S C φ) (hotspotX hotspotY : ℤ) (blank : φ)
    (instructions : List Instruction)
    (halong : Along (stepDisplay env) (NoNullsIn env) instructions
      (.ok (guacencDisplayAlloc hotspotX hotspotY blank)))
    (handled : List Instruction) (hhandled : handled <+: instructions)
    {state : Except Fault (Display S C φ)}
    (hrun : run (stepDisplay env) handled
      (.ok (guacencDisplayAlloc hotspotX hotspotY blank))=some state) : NullFree state := by
  have hdrawable : Outcome .nullPointer (AllBuffers Buffer.Drawable) state := by
    refine visits_of_along (G := Outcome .nullPointer (AllBuffers Buffer.Drawable))
      (fun {instruction state state'} hstate hsafe hstep => ?_)
      (show Outcome _ _ (Except.ok _) from drawable_displayAlloc hotspotX hotspotY blank) halong
      hhandled hrun
    cases hstep
    cases state with
    | ok display => exact (handleInstruction_drawable hstate hsafe).bind fun found hfound => hfound
    | error fault => exact hstate
  exact hdrawable.imp fun display h => h.imp fun buffer hbuffer => hbuffer.sound

/-- The condition on a sync. -/
theorem noNulls_of_sync {display : Display S C φ} (hopcode : instruction.opcode=ascii "sync")
    (h : SyncSafe env instruction.memory display) : NoNulls env instruction display where
  size heq := absurd (hopcode.symm.trans heq) (by decide)
  rect heq := absurd (hopcode.symm.trans heq) (by decide)
  copy heq := absurd (hopcode.symm.trans heq) (by decide)
  imageEnd heq := absurd (hopcode.symm.trans heq) (by decide)
  cursor heq := absurd (hopcode.symm.trans heq) (by decide)
  sync _ _ _ := h
  mouse heq := absurd (hopcode.symm.trans heq) (by decide)

/-- The condition on a size instruction. -/
theorem noNulls_of_size {display : Display S C φ} (hopcode : instruction.opcode=ascii "size")
    (h : ∀ name size, instruction.memory name size=true) :
    NoNulls env instruction display where
  size _ _ name _ _ _ _ _ := h name _
  rect heq := absurd (hopcode.symm.trans heq) (by decide)
  copy heq := absurd (hopcode.symm.trans heq) (by decide)
  imageEnd heq := absurd (hopcode.symm.trans heq) (by decide)
  cursor heq := absurd (hopcode.symm.trans heq) (by decide)
  sync heq := absurd (hopcode.symm.trans heq) (by decide)
  mouse heq := absurd (hopcode.symm.trans heq) (by decide)

/-- The default layer is sized, with memory for all images, and synchronised. -/
theorem rendering_nullFree_sizeAndSync : ∃ state, run (stepDisplay (.blind 64))
      [⟨ascii "size", [ascii "0", ascii "8", ascii "8"], fun _ _ => true⟩]
      (.ok (guacencDisplayAlloc 0 0 ()))=some state ∧ NullFree state :=
  ⟨_,rfl,rendering_nullFree (.blind 64) 0 0 ()
    [⟨ascii "size",[ascii "0",ascii "8",ascii "8"],fun _ _ => true⟩,
      ⟨ascii "sync",[ascii "1"],fun _ _ => true⟩]
    ⟨noNulls_of_size rfl fun _ _ => rfl,
      noNulls_of_sync rfl ⟨fun _ _ _ _ _ _ => rfl,fun h => absurd h.1 (by decide),
        fun h => absurd h (by decide)⟩,trivial⟩
    [⟨ascii "size",[ascii "0",ascii "8",ascii "8"],fun _ _ => true⟩] ⟨_,rfl⟩ rfl⟩

/-- Without layers, flattening is rendering the cursor. -/
theorem flatten_empty {memory : Memory} {display : Display S C φ} (h : ∀ i, display.layers i=none) :
    guacencDisplayFlatten env memory display=guacencDisplayRenderCursor env.lib display := by
  have hnone : ∀ order : List (Fin guacencDisplayMaxLayers),
      (order.filter fun i => (display.layers i).isSome)=[] := by
    intro order
    rw [filter_eq_nil_iff]
    intro i _
    rw [h i]
    exact Bool.false_ne_true
  have hfew : display.existing.length<2 := by
    unfold Display.existing
    rw [hnone]
    decide
  have horder : renderOrder env display=.ok ([],display) := by
    unfold renderOrder comparedDepths
    rw [if_pos hfew]
    exact congrArg (fun order => Except.ok (order,display)) (hnone _)
  unfold guacencDisplayFlatten
  rw [horder]
  rfl

/-- A cursor shown while there are no layers is drawn with NULL as the context. -/
theorem sync_empty {memory : Memory} {timestamp : ℤ} {display : Display S C φ}
    (h : ∀ i, display.layers i=none) (hshown : CursorShown display)
    (htimestamp : display.lastSync≤timestamp) :
    guacencDisplaySync env memory timestamp display=.error .nullPointer := by
  obtain ⟨hx,hy,hpixels⟩ := hshown
  have hcursor : guacencDisplayRenderCursor env.lib { display with lastSync := timestamp }=
      .error .nullPointer := by
    have hnone : display.layers ⟨(0 : ℤ).toNat,by decide⟩=none := h _
    have hlookup : guacencDisplayGetLayer 0 { display with lastSync := timestamp }=
        (some (⟨0,by decide⟩,guacencLayerAlloc ⟨0,by decide⟩),
          { display with lastSync := timestamp }.setLayer ⟨0,by decide⟩
            (some (guacencLayerAlloc ⟨0,by decide⟩))) := by
      unfold guacencDisplayGetLayer
      rw [dif_pos (by decide)]
      dsimp only
      rw [hnone]
      rfl
    unfold guacencDisplayRenderCursor
    dsimp only
    rw [if_neg (by omega),hlookup]
    dsimp only
    rw [if_pos hpixels]
    rfl
  have hflat : guacencDisplayFlatten env memory { display with lastSync := timestamp }=
      .error .nullPointer := by
    rw [flatten_empty (show ∀ i, ({ display with lastSync := timestamp } : Display S C φ).layers i=
      none from h),hcursor]
  unfold guacencDisplaySync
  rw [if_neg (by omega),hflat]
  rfl

theorem stepDisplay_error {display : Display S C φ} {fault : Fault}
    (h : guacencHandleInstruction env instruction display=.error fault) :
    stepDisplay env instruction (.ok display)=some (.error fault) := by
  unfold stepDisplay
  change some (guacencHandleInstruction env instruction display >>= _)=_
  rw [h]
  rfl

/-- A cursor is given an image, and is shown before the default layer has pixels. -/
def earlyCursor : List Instruction :=
  [⟨ascii "cursor", [ascii "0", ascii "0", ascii "-1", ascii "0", ascii "0", ascii "8", ascii "8"],
      fun _ _ => true⟩,
    ⟨ascii "mouse", [ascii "0", ascii "0", ascii "0", ascii "1"], fun _ _ => true⟩]

theorem not_rendering_nullFree : ¬∀ instructions state,
      run (stepDisplay (.blind 64)) instructions (.ok (guacencDisplayAlloc 0 0 ()))=some state →
        NullFree state := by
  intro h
  obtain ⟨display,hcursor,hlayers,hwidth,hheight,hlast⟩ : ∃ display,
      guacencHandleInstruction (.blind 64) (earlyCursor.get ⟨0,by decide⟩)
        (guacencDisplayAlloc 0 0 ())=.ok (0,display) ∧
      (∀ i, display.layers i=none) ∧ display.cursor.buffer.width=8 ∧
      display.cursor.buffer.height=8 ∧ display.lastSync=0 :=
    ⟨_,rfl,fun _ => rfl,rfl,rfl,rfl⟩
  have hmouse : guacencHandleInstruction (.blind 64) (earlyCursor.get ⟨1,by decide⟩) display=
      .error .nullPointer := by
    have hshown : CursorShown { display with cursor := { display.cursor with
        x := int (earlyCursor.get ⟨1,by decide⟩).argv 0
        y := int (earlyCursor.get ⟨1,by decide⟩).argv 1 } } := by
      refine ⟨?_,?_,?_,?_⟩
      · exact (by decide : 0 ≤ int [ascii "0"] 0)
      · exact (by decide : 0 ≤ int [ascii "0"] 0)
      · change 0<display.cursor.buffer.width
        rw [hwidth]
        decide
      · change 0<display.cursor.buffer.height
        rw [hheight]
        decide
    refine sync_empty hlayers hshown ?_
    change display.lastSync≤1
    rw [hlast]
    decide
  have hrun : run (stepDisplay (.blind 64)) earlyCursor (.ok (guacencDisplayAlloc 0 0 ()))=
      some (.error .nullPointer) := by
    change run _ [earlyCursor.get ⟨0,by decide⟩,earlyCursor.get ⟨1,by decide⟩] _ = _
    rw [run,stepDisplay_ok hcursor]
    dsimp only
    rw [run,stepDisplay_error hmouse]
    rfl
  exact h earlyCursor _ hrun rfl

end Runs

end GuacServer.EncoderDisplay
