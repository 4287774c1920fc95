import GuacServer.EncoderInstructions

/-!
# What the handlers of instructions keep

Most handlers look up buffers, draw on one of them and store it. What the lookups, the stores
and the operations on a buffer keep, each of these handlers keeps, and none of them ends the
encoder. A resize may have to be allowed. A sync looks up layers and stores frames.
-/

namespace GuacServer.EncoderDisplay

open DecimalNumerals Unicode Function

variable {S C φ : Type}

/-- A result that has a property, unless the encoder ends with one of the faults. -/
def Unless {α : Type} (faults : Fault→Prop) (P : α→Prop) : Except Fault α→Prop
  | .ok a => P a
  | .error fault => faults fault

section Results

variable {α β : Type} {faults : Fault→Prop} {P Q : α→Prop} {result : Except Fault α}

theorem unless_of_outcome {excluded : Fault} (h : Outcome excluded P result) :
    Unless (· ≠ excluded) P result := by
  cases result with
  | ok a => exact h
  | error fault => exact h

theorem Unless.outcome {excluded : Fault} (h : Unless (· ≠ excluded) P result) :
    Outcome excluded P result := by
  cases result with
  | ok a => exact h
  | error fault => exact h

theorem Unless.imp (h : Unless faults P result) (hPQ : ∀ a, P a→Q a) : Unless faults Q result := by
  cases result with
  | ok a => exact hPQ a h
  | error fault => exact h

theorem Unless.bind {R : β→Prop} {next : α→Except Fault β} (h : Unless faults P result)
    (hnext : ∀ a, P a→Unless faults R (next a)) : Unless faults R (result >>= next) := by
  cases result with
  | ok a => exact hnext a h
  | error fault => exact h

end Results

/-- What operations on a buffer keep of it. Only some resizes are allowed. -/
structure KeptByDrawing (lib : Cairo S C) (P : Buffer S C→Prop)
    (Allowed : (ℕ→Bool)→Buffer S C→ℤ→ℤ→Prop) : Prop where
  resize : ∀ calloc buffer width height, P buffer→Allowed calloc buffer width height →
    P (guacencBufferResize lib calloc buffer width height)
  painted : ∀ buffer cairo operator surface x y, P buffer → buffer.cairo=some cairo →
    P (buffer.painted lib (lib.setSourceSurface surface x y (lib.setOperator operator cairo)))
  drawn : ∀ buffer cairo mask surface sourceX sourceY x y width height, P buffer →
    buffer.cairo=some cairo →
    P (buffer.drawn lib cairo mask surface sourceX sourceY x y width height)
  rectangle : ∀ buffer x y width height, P buffer →
    P { buffer with cairo := buffer.cairo.map (lib.rectangle x y width height) }
  filled : ∀ buffer cairo operator r g b a, P buffer → buffer.cairo=some cairo →
    P (buffer.filled lib (lib.setSourceRgba r g b a (lib.setOperator operator cairo)))

/-- What lookups and stores keep of the display, and operations of the buffers that
instructions draw on. -/
structure DrawingInvariant (lib : Cairo S C) (I : Display S C φ→Prop) (P : Buffer S C→Prop)
    (Allowed : (ℕ→Bool)→Buffer S C→ℤ→ℤ→Prop) : Prop
    extends KeptByDrawing lib P Allowed where
  lookup : ∀ index display, I display →
    (∀ found, (guacencDisplayGetRelatedBuffer index display).1=some found→P found.2) ∧
      I (guacencDisplayGetRelatedBuffer index display).2
  store : ∀ name buffer display, I display→P buffer→I (display.store name buffer)
  setImageStream : ∀ i stream display, I display→I (display.setImageStream i stream)
  cursor : ∀ display, I display→P display.cursor.buffer ∧
    ∀ cursor : Cursor S C, P cursor.buffer→I { display with cursor := cursor }

/-- The resize of a buffer that expands to fit a coordinate is allowed. -/
def AllowsExpansion (Allowed : (ℕ→Bool)→Buffer S C→ℤ→ℤ→Prop) (calloc : ℕ→Bool)
    (buffer : Buffer S C) (x y : ℤ) : Prop :=
  buffer.autosize=true→Allowed calloc buffer (fitSize buffer.width x) (fitSize buffer.height y)

namespace DrawingInvariant

variable {env : Environment S C φ} {I : Display S C φ→Prop} {P : Buffer S C→Prop}
  {Allowed : (ℕ→Bool)→Buffer S C→ℤ→ℤ→Prop} (hI : DrawingInvariant env.lib I P Allowed)
  {faults : Fault→Prop} {memory : Memory} {argv : List (List UInt8)} {display : Display S C φ}

include hI

theorem expanded {calloc : ℕ→Bool} {buffer : Buffer S C} (h : P buffer) {x y : ℤ}
    (hallowed : AllowsExpansion Allowed calloc buffer x y) :
    P (expanded env.lib calloc buffer x y) := by
  unfold EncoderDisplay.expanded guacencBufferFit
  dsimp only
  split_ifs with hautosize
  · exact hI.resize _ _ _ _ h (hallowed hautosize)
  · exact h
  · exact h

/-- A handler that looks up a buffer keeps what its use of the buffer keeps. -/
theorem withRelatedBuffer (h : I display) {index : ℤ}
    {use : BufferName→Buffer S C→Display S C φ→Except Fault (ℤ×Display S C φ)}
    (huse : ∀ name buffer reached,
      guacencDisplayGetRelatedBuffer index display=(some (name,buffer),reached) →
      P buffer→I reached→Unless faults (fun used => I used.2) (use name buffer reached)) :
    Unless faults (fun found => I found.2) (withRelatedBuffer index display use) := by
  have hrelated := hI.lookup index display h
  unfold EncoderDisplay.withRelatedBuffer
  split
  · rename_i reached heq
    rw [heq] at hrelated
    exact hrelated.2
  · rename_i name buffer reached heq
    rw [heq] at hrelated
    exact huse name buffer reached heq (hrelated.1 _ rfl) hrelated.2

theorem handleBlob (h : I display) :
    Unless faults (fun found => I found.2) (guacencHandleBlob env memory argv display) := by
  unfold guacencHandleBlob
  dsimp only
  split_ifs
  · exact h
  · split
    · exact h
    · exact hI.setImageStream _ _ _ h

theorem handleImg (h : I display) :
    Unless faults (fun found => I found.2) (guacencHandleImg env memory argv display) := by
  unfold guacencHandleImg
  split_ifs
  · exact h
  · exact hI.setImageStream _ _ _ h
  · exact h

/-- The end of an image draws it if the surface may grow. -/
theorem handleEnd (h : I display) (hallowed : 1≤argv.length→∀ i stream decoder surface name buffer,
      guacencDisplayGetImageStream (int argv 0) display=some (i,stream) →
      stream.decoder=some decoder → decoder stream.data=some surface →
      (guacencDisplayGetRelatedBuffer stream.index display).1=some (name,buffer) →
        AllowsExpansion Allowed (memory name) buffer
          (wrap32 (stream.x+env.lib.imageSurfaceGetWidth surface))
          (wrap32 (stream.y+env.lib.imageSurfaceGetHeight surface))) :
    Unless faults (fun found => I found.2) (guacencHandleEnd env memory argv display) := by
  unfold guacencHandleEnd
  split_ifs with hargc
  · exact h
  · split
    · exact h
    · rename_i i stream hstream
      refine hI.withRelatedBuffer h fun name buffer reached hfound hbuffer hreached => ?_
      change I (guacencImageStreamEnd _ _ _ _ _ _).2
      unfold guacencImageStreamEnd
      split
      · exact hreached
      · rename_i decoder hdecoder
        split
        · exact hreached
        · rename_i surface hsurface
          have hexpanded := hI.expanded hbuffer (hallowed (by omega) i stream decoder surface
            name buffer hstream hdecoder hsurface (by rw [hfound]))
          dsimp only
          split
          · exact hI.store _ _ _ hreached hexpanded
          · rename_i cairo hcairo
            exact hI.store _ _ _ hreached (hI.drawn _ _ _ _ _ _ _ _ _ _ hexpanded hcairo)

/-- A cursor resizes the buffer of the cursor. -/
theorem handleCursor (h : I display) (hallowed : 7≤argv.length→∀ reached,
      (guacencDisplayGetRelatedBuffer (int argv 2) display).1.isSome →
      (guacencDisplayGetRelatedBuffer (int argv 2) display).2=reached →
        Allowed (memory .cursor) reached.cursor.buffer (int argv 5) (int argv 6)) :
    Unless faults (fun found => I found.2) (guacencHandleCursor env memory argv display) := by
  unfold guacencHandleCursor
  split_ifs with hargc
  · exact h
  · refine hI.withRelatedBuffer h fun name src reached hfound _ hreached => ?_
    obtain ⟨hbuffer,hcursor⟩ := hI.cursor _ hreached
    have hresized := hI.resize _ _ _ _ hbuffer
      (hallowed (by omega) reached (by rw [hfound]; rfl) (by rw [hfound]))
    refine hcursor _ ?_
    dsimp only
    split
    · rename_i surface cairo _ hcairo
      exact hI.painted _ _ _ _ _ _ hresized hcairo
    · exact hresized

/-- A copy grows its destination only. -/
theorem handleCopy (h : I display)
    (hallowed : 9≤argv.length→∀ name buffer,(guacencDisplayGetRelatedBuffer (int argv 6)
        (guacencDisplayGetRelatedBuffer (int argv 0) display).2).1=some (name,buffer) →
        AllowsExpansion Allowed (memory name) buffer (wrap32 (int argv 7+int argv 3))
          (wrap32 (int argv 8+int argv 4))) :
    Unless faults (fun found => I found.2) (guacencHandleCopy env memory argv display) := by
  unfold guacencHandleCopy
  split_ifs with hargc
  · exact h
  · refine hI.withRelatedBuffer h fun srcName src reached hsrc _ hreached => ?_
    refine hI.withRelatedBuffer hreached fun name dst reached' hdst hbuffer hreached' => ?_
    have hexpanded := hI.expanded hbuffer (hallowed (by omega) name dst (by rw [hsrc,hdst]))
    dsimp only
    split
    · rename_i surface cairo _ hcairo
      split_ifs
      · exact hI.store _ _ _ hreached' (hI.drawn _ _ _ _ _ _ _ _ _ _ hexpanded hcairo)
      · exact hI.store _ _ _ hreached' (hI.drawn _ _ _ _ _ _ _ _ _ _ hexpanded hcairo)
    · exact hI.store _ _ _ hreached' hexpanded

omit hI in
theorem handleTransfer (h : I display) :
    Unless faults (fun found => I found.2) (guacencHandleTransfer env memory argv display) := by
  unfold guacencHandleTransfer
  split_ifs
  · exact h
  · exact h

/-- A size resizes its layer only. -/
theorem handleSize (h : I display) (hallowed : 3≤argv.length→∀ name buffer,
      (guacencDisplayGetRelatedBuffer (int argv 0) display).1=some (name,buffer) →
        Allowed (memory name) buffer (int argv 1) (int argv 2)) :
    Unless faults (fun found => I found.2) (guacencHandleSize env memory argv display) := by
  unfold guacencHandleSize
  split_ifs with hargc
  · exact h
  · refine hI.withRelatedBuffer h fun name buffer reached hfound hbuffer hreached => ?_
    exact hI.store _ _ _ hreached
      (hI.resize _ _ _ _ hbuffer (hallowed (by omega) name buffer (by rw [hfound])))

/-- A rectangle grows its layer only. -/
theorem handleRect (h : I display) (hallowed : 5≤argv.length→∀ name buffer,
      (guacencDisplayGetRelatedBuffer (int argv 0) display).1=some (name,buffer) →
        AllowsExpansion Allowed (memory name) buffer (wrap32 (int argv 1+int argv 3))
          (wrap32 (int argv 2+int argv 4))) :
    Unless faults (fun found => I found.2) (guacencHandleRect env memory argv display) := by
  unfold guacencHandleRect
  split_ifs with hargc
  · exact h
  · refine hI.withRelatedBuffer h fun name buffer reached hfound hbuffer hreached => ?_
    exact hI.store _ _ _ hreached (hI.rectangle _ _ _ _ _
      (hI.expanded hbuffer (hallowed (by omega) name buffer (by rw [hfound]))))

theorem handleMouse (h : I display)
    (hsync : 4≤argv.length→∀ moved, moved = { display with
        cursor := { display.cursor with x := int argv 0, y := int argv 1 } }→I moved →
      Unless faults (fun found => I found.2)
        (guacencDisplaySync env memory (guacencParseTimestamp (text argv 3)) moved)) :
    Unless faults (fun found => I found.2) (guacencHandleMouse env memory argv display) := by
  obtain ⟨hbuffer,hcursor⟩ := hI.cursor display h
  have hmoved := hcursor { display.cursor with x := int argv 0, y := int argv 1 } hbuffer
  unfold guacencHandleMouse
  dsimp only
  split_ifs with hargc htimestamp
  · exact h
  · exact hmoved
  · exact hsync (by omega) _ rfl hmoved

omit hI in
/-- A sync is as safe as its frames. -/
theorem handleSync (h : I display) (hsync : 1≤argv.length→Unless faults (fun found => I found.2)
      (guacencDisplaySync env memory (guacencParseTimestamp (text argv 0)) display)) :
    Unless faults (fun found => I found.2) (guacencHandleSync env memory argv display) := by
  unfold guacencHandleSync
  split_ifs with hargc
  · exact h
  · exact hsync (by omega)

theorem handleCfill (h : I display) :
    Unless faults (fun found => I found.2) (guacencHandleCfill env memory argv display) := by
  unfold guacencHandleCfill
  split_ifs
  · exact h
  · refine hI.withRelatedBuffer h fun name buffer reached hfound hbuffer hreached => ?_
    split
    · exact hreached
    · rename_i cairo hcairo
      exact hI.store _ _ _ hreached (hI.filled _ _ _ _ _ _ _ hbuffer hcairo)

end DrawingInvariant

/-- What the steps of a sync keep of the display, whatever is drawn on the frames. -/
structure FlatteningInvariant (I : Display S C φ→Prop) : Prop where
  getLayer : ∀ index display, I display→I (guacencDisplayGetLayer index display).2
  storeFrame : ∀ i frame display, I display→I (display.store (.frame i) frame)
  synced : ∀ lastSync output display, I display →
    I { display with lastSync := lastSync, output := output }

namespace FlatteningInvariant

variable {env : Environment S C φ} {I : Display S C φ→Prop} (hI : FlatteningInvariant I)
  {faults : Fault→Prop} (hfaults : ∀ fault, fault≠.stackOverflow → faults fault)
  {display : Display S C φ}

include hI

theorem renderLayers (h : I display) (lib : Cairo S C)
    (order : List (Fin guacencDisplayMaxLayers)) : I (order.foldl (renderLayer lib) display) := by
  induction order generalizing display with
  | nil => exact h
  | cons i order ih =>
    rw [List.foldl_cons]
    refine ih ?_
    unfold renderLayer
    split
    · exact h
    · rename_i layer _
      split_ifs
      · exact h
      · exact h
      · have hparent := hI.getLayer layer.parentIndex display h
        generalize guacencDisplayGetLayer layer.parentIndex display=found at hparent
        obtain ⟨_ | ⟨p,parent⟩,reached⟩ := found
        · exact hparent
        · dsimp only
          split
          · exact hI.storeFrame _ _ _ hparent
          · exact hparent

include hfaults

theorem resetFrames (h : I display) (lib : Cairo S C) (memory : Memory)
    (order : List (Fin guacencDisplayMaxLayers)) :
    Unless faults I (order.foldlM (resetFrame lib memory) display) := by
  induction order generalizing display with
  | nil => exact h
  | cons i order ih =>
    rw [List.foldlM_cons]
    refine Unless.bind (P := I) ?_ fun _ hreset => ih hreset
    unfold resetFrame
    split
    · exact h
    · refine Unless.bind (P := fun _ => True) ?_ fun frame _ => hI.storeFrame _ _ _ h
      unfold guacencBufferCopy
      dsimp only
      split
      · trivial
      · split
        · exact hfaults _ (by decide)
        · trivial

theorem renderCursor (h : I display) (lib : Cairo S C) :
    Unless faults I (guacencDisplayRenderCursor lib display) := by
  have hlayer := hI.getLayer 0 display h
  unfold guacencDisplayRenderCursor
  generalize guacencDisplayGetLayer 0 display=found at hlayer
  obtain ⟨_ | ⟨i,layer⟩,reached⟩ := found
  · dsimp only
    split_ifs
    · exact h
    · exact hfaults _ (by decide)
  · dsimp only
    split_ifs
    · exact h
    · split
      · exact hI.storeFrame _ _ _ hlayer
      · exact hfaults _ (by decide)
    · exact hlayer

omit hI in
theorem preparedFrame (buffer : Buffer S C) :
    Unless faults (fun _ => True) (preparedFrame env buffer) := by
  unfold EncoderDisplay.preparedFrame
  split
  · trivial
  · refine Unless.bind (P := fun _ => True) ?_ fun margins _ => ?_
    · unfold frameMargins
      dsimp only
      split_ifs
      · trivial
      · trivial
      · exact hfaults _ (by decide)
    · unfold guacencVideoFrameConvert
      dsimp only
      split_ifs
      · trivial
      · exact hfaults _ (by decide)
      · exact hfaults _ (by decide)
      · trivial

/-- What the search for the depths of layers keeps, a sync keeps. -/
theorem sync (h : I display) (memory : Memory) (timestamp : ℤ) (horder : ∀ stamped, I stamped →
      Unless faults (fun found => I found.2) (renderOrder env stamped)) :
    Unless faults (fun found => I found.2) (guacencDisplaySync env memory timestamp display) := by
  unfold guacencDisplaySync
  split_ifs
  · exact h
  · refine Unless.bind (P := I) ?_ fun flat hflat => ?_
    · unfold guacencDisplayFlatten
      refine (horder _ (hI.synced timestamp display.output _ h)).bind fun ordered hordered => ?_
      refine (hI.resetFrames hfaults hordered env.lib memory _).bind fun reset hreset => ?_
      exact hI.renderCursor hfaults (hI.renderLayers hreset env.lib _) env.lib
    · have hlayer := hI.getLayer 0 flat hflat
      generalize guacencDisplayGetLayer 0 flat=found at hlayer
      obtain ⟨_ | ⟨i,layer⟩,reached⟩ := found
      · exact hfaults _ (by decide)
      · dsimp only
        split_ifs
        · exact hI.synced _ _ _ hlayer
        · refine (FlatteningInvariant.preparedFrame hfaults layer.frame).bind fun frame _ => ?_
          exact hI.synced _ _ _ hlayer

end FlatteningInvariant

/-! ## Buffers -/

/-- A property of the buffers that instructions draw on, and one of the frames. -/
structure Stored (P F : Buffer S C→Prop) (display : Display S C φ) : Prop where
  cursor : P display.cursor.buffer
  buffers : ∀ i buffer, display.buffers i=some buffer→P buffer
  layers : ∀ i layer, display.layers i=some layer→P layer.buffer ∧ F layer.frame

/-- New buffers have the properties. -/
structure Fresh (P F : Buffer S C→Prop) : Prop where
  buffer : ∀ autosize, P { guacencBufferAlloc with autosize := autosize }
  frame : F guacencBufferAlloc

namespace Stored

variable {P F : Buffer S C→Prop} {display : Display S C φ} {faults : Fault→Prop}
  {env : Environment S C φ} {memory : Memory} {argv : List (List UInt8)}

theorem setLayer (h : Stored P F display) {i : Fin guacencDisplayMaxLayers}
    {layer : Option (Layer S C)} (hlayer : ∀ l, layer=some l→P l.buffer ∧ F l.frame) :
    Stored P F (display.setLayer i layer) := by
  refine ⟨h.cursor,h.buffers,fun j l hl => ?_⟩
  unfold Display.setLayer at hl
  dsimp only at hl
  by_cases hji : j=i
  · rw [hji,update_self] at hl
    exact hlayer l hl
  · rw [update_of_ne hji] at hl
    exact h.layers j l hl

theorem setBuffer (h : Stored P F display) {i : Fin guacencDisplayMaxBuffers}
    {buffer : Option (Buffer S C)} (hbuffer : ∀ b, buffer=some b→P b) :
    Stored P F (display.setBuffer i buffer) := by
  refine ⟨h.cursor,fun j b hb => ?_,h.layers⟩
  unfold Display.setBuffer at hb
  dsimp only at hb
  by_cases hji : j=i
  · rw [hji,update_self] at hb
    exact hbuffer b hb
  · rw [update_of_ne hji] at hb
    exact h.buffers j b hb

theorem store (h : Stored P F display) (name : BufferName) {buffer : Buffer S C}
    (hbuffer : P buffer) (hframe : F buffer) : Stored P F (display.store name buffer) := by
  cases name with
  | layer i =>
    refine h.setLayer fun l hl => ?_
    obtain ⟨layer,hlayer,rfl⟩ := Option.map_eq_some_iff.mp hl
    exact ⟨hbuffer,(h.layers i layer hlayer).2⟩
  | frame i =>
    refine h.setLayer fun l hl => ?_
    obtain ⟨layer,hlayer,rfl⟩ := Option.map_eq_some_iff.mp hl
    exact ⟨(h.layers i layer hlayer).1,hframe⟩
  | buffer i =>
    refine h.setBuffer fun b hb => ?_
    cases hb
    exact hbuffer
  | cursor => exact ⟨hbuffer,h.buffers,h.layers⟩

section

variable (hfresh : Fresh P F) (h : Stored P F display)

include hfresh h

theorem getLayer (index : ℤ) : (∀ found, (guacencDisplayGetLayer index display).1=some found →
      P found.2.buffer ∧ F found.2.frame) ∧
      Stored P F (guacencDisplayGetLayer index display).2 := by
  have hlayer := And.intro (hfresh.buffer false) hfresh.frame
  unfold guacencDisplayGetLayer
  split_ifs with hindex
  · dsimp only
    split
    · rename_i layer hfound
      refine ⟨fun found heq => ?_,h⟩
      cases heq
      exact h.layers _ layer hfound
    · refine ⟨fun found heq => ?_,h.setLayer fun l hl => ?_⟩
      · cases heq
        exact hlayer
      · cases hl
        exact hlayer
  · refine ⟨fun found heq => ?_,h⟩
    cases heq

theorem getRelatedBuffer (index : ℤ) :
    (∀ found, (guacencDisplayGetRelatedBuffer index display).1=some found→P found.2) ∧
      Stored P F (guacencDisplayGetRelatedBuffer index display).2 := by
  unfold guacencDisplayGetRelatedBuffer
  split_ifs with hindex
  · have hlayer := h.getLayer hfresh index
    generalize guacencDisplayGetLayer index display=found at hlayer
    obtain ⟨_ | ⟨i,layer⟩,reached⟩ := found
    · refine ⟨fun found hfound => ?_,hlayer.2⟩
      cases hfound
    · refine ⟨fun found hfound => ?_,hlayer.2⟩
      cases hfound
      exact (hlayer.1 _ rfl).1
  · unfold guacencDisplayGetBuffer
    dsimp only
    split_ifs with hinternal
    · split
      · rename_i buffer hbuffer
        refine ⟨fun found hfound => ?_,h⟩
        cases hfound
        exact h.buffers _ buffer hbuffer
      · refine ⟨fun found hfound => ?_,h.setBuffer fun b hb => ?_⟩
        · cases hfound
          exact hfresh.buffer true
        · cases hb
          exact hfresh.buffer true
    · refine ⟨fun found hfound => ?_,h⟩
      cases hfound

/-- A handler that looks up a layer and stores another with its buffers keeps them. -/
theorem withLayer {index : ℤ}
    {use : Fin guacencDisplayMaxLayers→Layer S C→Display S C φ →
      Except Fault (ℤ×Display S C φ)}
    (huse : ∀ i layer reached, P layer.buffer ∧ F layer.frame→Stored P F reached →
      Unless faults (fun used => Stored P F used.2) (use i layer reached)) :
    Unless faults (fun found => Stored P F found.2) (withLayer index display use) := by
  have hlayer := h.getLayer hfresh index
  unfold EncoderDisplay.withLayer
  split
  · rename_i reached heq
    rw [heq] at hlayer
    exact hlayer.2
  · rename_i i layer reached heq
    rw [heq] at hlayer
    exact huse i layer reached (hlayer.1 _ rfl) hlayer.2

theorem handleMove : Unless faults (fun found => Stored P F found.2)
      (guacencHandleMove env memory argv display) := by
  unfold guacencHandleMove
  split_ifs
  · exact h
  · refine h.withLayer hfresh fun i layer reached hlayer hreached => ?_
    refine hreached.withLayer hfresh fun _ _ reached' _ hreached' => ?_
    refine hreached'.setLayer fun l hl => ?_
    cases hl
    exact hlayer

theorem handleShade : Unless faults (fun found => Stored P F found.2)
      (guacencHandleShade env memory argv display) := by
  unfold guacencHandleShade
  split_ifs
  · exact h
  · refine h.withLayer hfresh fun i layer reached hlayer hreached => ?_
    refine hreached.setLayer fun l hl => ?_
    cases hl
    exact hlayer

end

theorem handleDispose (h : Stored P F display) : Unless faults (fun found => Stored P F found.2)
      (guacencHandleDispose env memory argv display) := by
  unfold guacencHandleDispose guacencDisplayFreeLayer guacencDisplayFreeBuffer
  dsimp only
  split_ifs
  · exact h
  · exact h.setLayer fun l hl => by cases hl
  · exact h
  · exact h.setBuffer fun b hb => by cases hb
  · exact h

/-- Image streams are no buffers. -/
theorem drawing {Allowed : (ℕ→Bool)→Buffer S C→ℤ→ℤ→Prop} {lib : Cairo S C}
    (hfresh : Fresh P F) (hkept : KeptByDrawing lib P Allowed) (hframe : ∀ buffer, P buffer →
      F buffer) : DrawingInvariant lib (Stored P F : Display S C φ→Prop) P Allowed where
  toKeptByDrawing := hkept
  lookup index _ h := h.getRelatedBuffer hfresh index
  store name _ _ h hbuffer := h.store name hbuffer (hframe _ hbuffer)
  setImageStream _ _ _ h := ⟨h.cursor,h.buffers,h.layers⟩
  cursor _ h := ⟨h.cursor,fun _ hcursor => ⟨hcursor,h.buffers,h.layers⟩⟩

end Stored

end GuacServer.EncoderDisplay
