import Mathlib.Data.List.FinRange
import GuacServer.EncoderBuffer
import GuacServer.VideoTimeline

/-!
# The display of the encoder

Layers, buffers, image streams and the cursor, with the lookups that create
layers and buffers on first use. A sync flattens the layers into the frame of the
default layer, advances the timeline of the video and prepares that frame. A
pointer to a layer is its index, since no layer is in two places.
-/

namespace GuacServer.EncoderDisplay

open DecimalNumerals VideoTimeline

/-- The numbers of buffers, layers and image streams of a display. -/
def guacencDisplayMaxBuffers : ℕ := 4096

def guacencDisplayMaxLayers : ℕ := 64

def guacencDisplayMaxStreams : ℕ := 64

/-- The parent index of a layer that has no parent. -/
def guacencLayerNoParent : ℤ := -1

/-- guacenc_layer. -/
structure Layer (S C : Type) where
  buffer : Buffer S C
  parentIndex : ℤ
  x : ℤ
  y : ℤ
  z : ℤ
  opacity : ℤ
  frame : Buffer S C

/-- guacenc_cursor. -/
structure Cursor (S C : Type) where
  hotspotX : ℤ
  hotspotY : ℤ
  buffer : Buffer S C
  x : ℤ
  y : ℤ

/-- guacenc_image_stream, with the data received so far. -/
structure ImageStream (S : Type) where
  index : ℤ
  mask : ℤ
  x : ℤ
  y : ℤ
  decoder : Option (List UInt8→Option S)
  data : List UInt8

/-- guacenc_display. -/
structure Display (S C φ : Type) where
  cursor : Cursor S C
  buffers : Fin guacencDisplayMaxBuffers→Option (Buffer S C)
  layers : Fin guacencDisplayMaxLayers→Option (Layer S C)
  imageStreams : Fin guacencDisplayMaxStreams→Option (ImageStream S)
  lastSync : ℤ
  output : Video φ

/-- Where a buffer of the display is. -/
inductive BufferName
  | layer (index : Fin guacencDisplayMaxLayers)
  | frame (index : Fin guacencDisplayMaxLayers)
  | buffer (index : Fin guacencDisplayMaxBuffers)
  | cursor
  deriving DecidableEq

/-- Whether an image of a size is granted memory, for each buffer. -/
abbrev Memory := BufferName→ℕ→Bool

/-- What a comparison function has to be for qsort to sort by it. -/
structure Comparison {α : Type*} (compare : α→α→ℤ) : Prop where
  swap : ∀ a b, compare a b<0 ↔ 0<compare b a
  trans : ∀ a b c, compare a b≤0 → compare b c≤0 → compare a c≤0

/-- qsort: some order of the items, sorted if the comparison function allows. Where
equal items come is not said. -/
structure Qsort (α : Type*) where
  sort : (α→α→ℤ)→List α→List α
  perm : ∀ compare items, (sort compare items).Perm items
  sorted : ∀ compare items, Comparison compare →
    (sort compare items).Pairwise fun a b => compare a b≤0

/-- A merge sort by the comparison function. -/
def Qsort.merge (α : Type*) : Qsort α where
  sort compare items := items.mergeSort fun a b => decide (compare a b≤0)
  perm compare items := List.mergeSort_perm items _
  sorted compare items h := by
    have hpairwise : (items.mergeSort fun a b => decide (compare a b≤0)).Pairwise
        fun a b => decide (compare a b≤0)=true := by
      refine List.pairwise_mergeSort (fun a b c hab hbc => ?_) (fun a b => ?_) items
      · simp only [decide_eq_true_eq] at hab hbc ⊢
        exact h.trans a b c hab hbc
      · simp only [Bool.or_eq_true,decide_eq_true_eq]
        rcases le_or_gt (compare a b) 0 with hle | hlt
        · exact Or.inl hle
        · exact Or.inr (le_of_lt ((h.swap b a).mpr hlt))
    exact hpairwise.imp fun hab => by simpa using hab

/-- What the display uses of the program and of its libraries: how many calls of a
recursion the stack has room for, the decoders of images, the size of the video,
and the conversion of a surface with margins. -/
structure Environment (S C φ : Type) where
  lib : Cairo S C
  stack : ℕ
  qsort : Qsort (Fin guacencDisplayMaxLayers)
  decoderMap : List (List UInt8×(List UInt8→Option S))
  videoWidth : ℤ
  videoHeight : ℤ
  imageAlloc : ℤ→ℤ→Bool
  convert : S→ℤ→ℤ→Option φ
  encode : Written φ→ℤ
  /-- What the timeline becomes where an int overflows, which may be anything. -/
  overflow : ℤ→Video φ→Bool×Video φ

/-- An encoder of 640 by 480 pixels that keeps none of them. -/
def Environment.blind (stack : ℕ) : Environment Unit Unit Unit where
  lib := .blind
  stack := stack
  qsort := .merge _
  decoderMap := []
  videoWidth := 640
  videoHeight := 480
  imageAlloc width height := decide (0<width ∧ 0<height)
  convert _ _ _ := some ()
  encode _ := 0
  overflow _ video := (true,video)

variable {S C φ : Type}

/-- guacenc_cursor_alloc. The hotspot is what the memory held. -/
def guacencCursorAlloc (hotspotX hotspotY : ℤ) : Cursor S C :=
  ⟨hotspotX,hotspotY,guacencBufferAlloc,-1,-1⟩

/-- guacenc_display_alloc. -/
def guacencDisplayAlloc (hotspotX hotspotY : ℤ) (blank : φ) : Display S C φ :=
  ⟨guacencCursorAlloc hotspotX hotspotY,fun _ => none,fun _ => none,fun _ => none,0,
    guacencVideoAlloc blank⟩

/-- guacenc_layer_alloc, with the parent it gets in guacenc_display_get_layer. -/
def guacencLayerAlloc (index : Fin guacencDisplayMaxLayers) : Layer S C :=
  ⟨guacencBufferAlloc,if index.val=0 then guacencLayerNoParent else 0,0,0,0,255,guacencBufferAlloc⟩

/-- A layer is stored. -/
def Display.setLayer (index : Fin guacencDisplayMaxLayers) (layer : Option (Layer S C))
    (display : Display S C φ) : Display S C φ :=
  { display with layers := Function.update display.layers index layer }

/-- guacenc_display_get_layer. -/
def guacencDisplayGetLayer (index : ℤ) (display : Display S C φ) :
    Option (Fin guacencDisplayMaxLayers×Layer S C)×Display S C φ :=
  if h : 0 ≤ index ∧ index<guacencDisplayMaxLayers then
    let i : Fin guacencDisplayMaxLayers := ⟨index.toNat,by omega⟩
    match display.layers i with
    | some layer => (some (i,layer),display)
    | none =>
      let layer := guacencLayerAlloc i
      (some (i,layer),display.setLayer i (some layer))
  else (none,display)

/-- guacenc_display_get_depth, with the stack left for its calls. -/
def guacencDisplayGetDepth (stack : ℕ) (layer : Option (Layer S C)) (display : Display S C φ) :
    Except Fault (ℤ×Display S C φ) :=
  match layer with
  | none => .ok (0,display)
  | some layer =>
    if layer.parentIndex=guacencLayerNoParent then .ok (0,display)
    else
      let (parent,display) := guacencDisplayGetLayer layer.parentIndex display
      match stack with
      | 0 => .error .stackOverflow
      | stack+1 => do
        let (depth,display) ←
          guacencDisplayGetDepth stack (parent.map Prod.snd) display
        .ok (depth+1,display)

/-- guacenc_display_free_layer. -/
def guacencDisplayFreeLayer (index : ℤ) (display : Display S C φ) : ℤ×Display S C φ :=
  if h : 0 ≤ index ∧ index<guacencDisplayMaxLayers then
    (0,display.setLayer ⟨index.toNat,by omega⟩ none)
  else (1,display)

/-- A buffer that is no layer is stored. -/
def Display.setBuffer (index : Fin guacencDisplayMaxBuffers) (buffer : Option (Buffer S C))
    (display : Display S C φ) : Display S C φ :=
  { display with buffers := Function.update display.buffers index buffer }

/-- guacenc_display_get_buffer. -/
def guacencDisplayGetBuffer (index : ℤ) (display : Display S C φ) :
    Option (BufferName×Buffer S C)×Display S C φ :=
  let internalIndex := -index-1
  if h : 0 ≤ internalIndex ∧ internalIndex<guacencDisplayMaxBuffers then
    let i : Fin guacencDisplayMaxBuffers := ⟨internalIndex.toNat,by omega⟩
    match display.buffers i with
    | some buffer => (some (.buffer i,buffer),display)
    | none =>
      let buffer := { guacencBufferAlloc with autosize := true }
      (some (.buffer i,buffer),display.setBuffer i (some buffer))
  else (none,display)

/-- guacenc_display_free_buffer. -/
def guacencDisplayFreeBuffer (index : ℤ) (display : Display S C φ) : ℤ×Display S C φ :=
  let internalIndex := -index-1
  if h : 0 ≤ internalIndex ∧ internalIndex<guacencDisplayMaxBuffers then
    (0,display.setBuffer ⟨internalIndex.toNat,by omega⟩ none)
  else (1,display)

/-- guacenc_display_get_related_buffer. -/
def guacencDisplayGetRelatedBuffer (index : ℤ) (display : Display S C φ) :
    Option (BufferName×Buffer S C)×Display S C φ :=
  if 0 ≤ index then
    match guacencDisplayGetLayer index display with
    | (none,display) => (none,display)
    | (some (i,layer),display) => (some (.layer i,layer.buffer),display)
  else guacencDisplayGetBuffer index display

/-- A buffer is stored where it is. -/
def Display.store (name : BufferName) (buffer : Buffer S C) (display : Display S C φ) :
    Display S C φ :=
  match name with
  | .layer i =>
    display.setLayer i ((display.layers i).map fun layer => { layer with buffer := buffer })
  | .frame i =>
    display.setLayer i ((display.layers i).map fun layer => { layer with frame := buffer })
  | .buffer i => display.setBuffer i (some buffer)
  | .cursor => { display with cursor := { display.cursor with buffer := buffer } }

/-- The layers of a display that exist. -/
def Display.existing (display : Display S C φ) : List (Fin guacencDisplayMaxLayers) :=
  (List.finRange guacencDisplayMaxLayers).filter fun i => (display.layers i).isSome

/-- guacenc_display_layer_comparator, given the depths of the layers. -/
def guacencDisplayLayerComparator (display : Display S C φ)
    (depth : Fin guacencDisplayMaxLayers→ℤ) (a b : Fin guacencDisplayMaxLayers) : ℤ :=
  match display.layers a, display.layers b with
  | none, none => 0
  | none, some _ => 1
  | some _, none => -1
  | some layerA, some layerB =>
    if depth b≠depth a then depth b-depth a
    else if layerB.parentIndex≠layerA.parentIndex then
      wrap32 (layerB.parentIndex-layerA.parentIndex)
    else wrap32 (layerB.z-layerA.z)

/-- The depths of some layers, with the parents that computing them creates. -/
def layerDepths (stack : ℕ) : List (Fin guacencDisplayMaxLayers)→Display S C φ →
      Except Fault ((Fin guacencDisplayMaxLayers→ℤ)×Display S C φ)
  | [], display => .ok (fun _ => 0,display)
  | i::layers, display => do
    let (depth,display) ← guacencDisplayGetDepth stack (display.layers i) display
    let (depths,display) ← layerDepths stack layers display
    .ok (Function.update depths i depth,display)

/-- The depths that are computed while the layers are sorted. However qsort proceeds,
it compares each layer with another one if there are two. -/
def comparedDepths (env : Environment S C φ) (display : Display S C φ) :
    Except Fault ((Fin guacencDisplayMaxLayers→ℤ)×Display S C φ) :=
  if display.existing.length<2 then .ok (fun _ => 0,display)
  else layerDepths env.stack display.existing display

/-- The layers in the order of rendering, without the pointers that are NULL. -/
def renderOrder (env : Environment S C φ) (display : Display S C φ) :
    Except Fault (List (Fin guacencDisplayMaxLayers)×Display S C φ) := do
  let (depths,reached) ← comparedDepths env display
  let sorted := env.qsort.sort (guacencDisplayLayerComparator display depths)
    (List.finRange guacencDisplayMaxLayers)
  .ok (sorted.filter fun i => (display.layers i).isSome,reached)

/-- Reset the frame of a layer to its buffer. -/
def resetFrame (lib : Cairo S C) (memory : Memory) (display : Display S C φ)
    (i : Fin guacencDisplayMaxLayers) : Except Fault (Display S C φ) :=
  match display.layers i with
  | none => .ok display
  | some layer => do
    let frame ← guacencBufferCopy lib (memory (.frame i)) layer.frame layer.buffer
    .ok (display.store (.frame i) frame)

/-- Render the frame of a layer to that of its parent. -/
def renderLayer (lib : Cairo S C) (display : Display S C φ) (i : Fin guacencDisplayMaxLayers) :
    Display S C φ :=
  match display.layers i with
  | none => display
  | some layer =>
    if layer.opacity=0 then display
    else if layer.parentIndex=guacencLayerNoParent then display
    else
      match guacencDisplayGetLayer layer.parentIndex display with
      | (none,display) => display
      | (some (p,parent),display) =>
        match layer.frame.surface, parent.frame.cairo with
        | some surface, some cairo =>
          let cairo := lib.resetClip cairo
          let cairo := lib.rectangle layer.x layer.y layer.frame.width layer.frame.height cairo
          let cairo := lib.clip cairo
          let cairo := lib.setSourceSurface surface layer.x layer.y cairo
          display.store (.frame p)
            { parent.frame with
              surface := parent.frame.surface.map (lib.paintWithAlpha layer.opacity cairo)
              cairo := some cairo }
        | _, _ => display

/-- guacenc_display_render_cursor. -/
def guacencDisplayRenderCursor (lib : Cairo S C) (display : Display S C φ) :
    Except Fault (Display S C φ) :=
  let cursor := display.cursor
  if cursor.x<0 ∨ cursor.y<0 then .ok display
  else
    match guacencDisplayGetLayer 0 display with
    | (none,_) => .error .nullPointer
    | (some (i,layer),display) =>
      let src := cursor.buffer
      let dst := layer.frame
      if 0<src.width ∧ 0<src.height then
        match dst.cairo, src.surface with
        | some cairo, some surface =>
          let x := wrap32 (cursor.x-cursor.hotspotX)
          let y := wrap32 (cursor.y-cursor.hotspotY)
          let cairo := lib.setSourceSurface surface x y cairo
          let cairo := lib.rectangle x y src.width src.height cairo
          .ok (display.store (.frame i) (dst.filled lib cairo))
        | _, _ => .error .nullPointer
      else .ok display

/-- guacenc_display_flatten, which returns zero. -/
def guacencDisplayFlatten (env : Environment S C φ) (memory : Memory) (display : Display S C φ) :
    Except Fault (Display S C φ) := do
  let (order,display) ← renderOrder env display
  let display ← order.foldlM (resetFrame env.lib memory) display
  let display := order.foldl (renderLayer env.lib) display
  guacencDisplayRenderCursor env.lib display

/-- guacenc_video_frame_convert and the scaling of its result, if both succeed. Rows
are copied from the image data. -/
def guacencVideoFrameConvert (env : Environment S C φ) (buffer : Buffer S C) (surface : S)
    (lsize psize : ℤ) : Except Fault (Option φ) :=
  let frameWidth := wrap32 (wrap32 (buffer.width+psize)+psize)
  let frameHeight := wrap32 (wrap32 (buffer.height+lsize)+lsize)
  if env.imageAlloc frameWidth frameHeight=false then .ok none
  else if frameWidth<buffer.width ∨ frameHeight<buffer.height then .error .assertion
  else if 0<buffer.height ∧ wrap32 (buffer.width*4)≠0 ∧ buffer.image=false then
    .error .nullPointer
  else .ok (env.convert surface lsize psize)

/-- The sizes of the letterboxes and pillarboxes that fit a buffer to the video. -/
def frameMargins (env : Environment S C φ) (buffer : Buffer S C) : Except Fault (ℤ×ℤ) :=
  let scaledWidth := (wrap32 (buffer.width*env.videoHeight)).tdiv buffer.height
  let scaledHeight := (wrap32 (buffer.height*env.videoWidth)).tdiv buffer.width
  if scaledWidth≤env.videoWidth then
    .ok (0,((wrap32 (wrap32 (env.videoWidth-scaledWidth)*buffer.height)).tdiv
      env.videoHeight).tdiv 2)
  else if scaledHeight≤env.videoHeight then
    .ok (((wrap32 (wrap32 (env.videoHeight-scaledHeight)*buffer.width)).tdiv
      env.videoWidth).tdiv 2,0)
  else .error .assertion

/-- The frame that guacenc_video_prepare_frame makes of a buffer, if any. -/
def preparedFrame (env : Environment S C φ) (buffer : Buffer S C) : Except Fault (Option φ) :=
  match buffer.surface with
  | none => .ok none
  | some surface => do
    let margins ← frameMargins env buffer
    guacencVideoFrameConvert env buffer surface margins.1 margins.2

/-- guacenc_display_sync. -/
def guacencDisplaySync (env : Environment S C φ) (memory : Memory) (timestamp : ℤ)
    (display : Display S C φ) : Except Fault (ℤ×Display S C φ) :=
  if timestamp<display.lastSync then .ok (1,display)
  else do
    let display ← guacencDisplayFlatten env memory { display with lastSync := timestamp }
    match guacencDisplayGetLayer 0 display with
    | (none,_) => .error .nullPointer
    | (some (_,layer),display) =>
      let (failed,output) :=
        (guacencVideoAdvanceTimeline env.encode timestamp display.output).getD
          (env.overflow timestamp display.output)
      if failed then .ok (1,{ display with output := output })
      else do
        let frame ← preparedFrame env layer.frame
        .ok (0,{ display with output := guacencVideoPrepareFrame frame output })

end GuacServer.EncoderDisplay
