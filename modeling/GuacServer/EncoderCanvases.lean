import GuacServer.EncoderNulls

/-!
# What instructions draw on

Instructions draw on the buffers of layers, on those that are no layers and on that of the
cursor. What the operations on such a buffer keep, every run of instructions keeps of all of
them. Frames are left out: they are drawn only while the display is flattened.
-/

namespace GuacServer.EncoderDisplay

open DecimalNumerals UserHandlers Unicode VideoTimeline StateRuns Function

variable {S C φ : Type}

theorem bufferIndex_lt {index : ℤ} (h : 0 ≤ -index-1 ∧ -index-1<guacencDisplayMaxBuffers) :
    (-index-1).toNat<guacencDisplayMaxBuffers := (Int.toNat_lt h.1).mpr h.2

/-- The buffer that a related buffer's index names, if it is valid. -/
def nameOf (index : ℤ) : Option BufferName :=
  if 0 ≤ index then (layerOf index).map .layer
  else if h : 0 ≤ -index-1 ∧ -index-1<guacencDisplayMaxBuffers then
    some (.buffer ⟨(-index-1).toNat,bufferIndex_lt h⟩)
  else none

/-- The buffer of a name, as a lookup finds or creates it. -/
def Display.bufferAt (display : Display S C φ) : BufferName→Buffer S C
  | .layer i => (layerAt display i).buffer
  | .frame i => (layerAt display i).frame
  | .buffer i => (display.buffers i).getD { guacencBufferAlloc with autosize := true }
  | .cursor => display.cursor.buffer

/-- There is a place for the buffer of a name. -/
def Display.Holds (display : Display S C φ) : BufferName→Prop
  | .layer i => (display.layers i).isSome
  | .frame i => (display.layers i).isSome
  | .buffer _ => True
  | .cursor => True

section Names

variable {display : Display S C φ}

theorem layerAt_setLayer (i : Fin guacencDisplayMaxLayers) (layer : Option (Layer S C)) :
    layerAt (display.setLayer i layer)=
      update (layerAt display) i (layer.getD (guacencLayerAlloc i)) := by
  funext j
  unfold layerAt Display.setLayer
  dsimp only
  by_cases hji : j=i
  · subst hji
    rw [update_self,update_self]
  · rw [update_of_ne hji,update_of_ne hji]

/-- Lookups find the buffers as they are, and change none. -/
theorem getLayer_bufferAt (index : ℤ) (display : Display S C φ) :
    (guacencDisplayGetLayer index display).2.bufferAt=display.bufferAt := by
  unfold guacencDisplayGetLayer
  split_ifs with h
  · dsimp only
    split
    · rfl
    · rename_i hnone
      have hsame : layerAt (display.setLayer ⟨index.toNat,toNat_lt_maxLayers h⟩
          (some (guacencLayerAlloc ⟨index.toNat,toNat_lt_maxLayers h⟩)))=layerAt display := by
        rw [layerAt_setLayer,Option.getD_some,update_eq_self_iff,layerAt,hnone,
          Option.getD_none]
      funext name
      cases name with
      | layer i => exact congrArg Layer.buffer (congrFun hsame i)
      | frame i => exact congrArg Layer.frame (congrFun hsame i)
      | buffer i => rfl
      | cursor => rfl
  · rfl

/-- A related buffer is that of its name, and there is a place for it. -/
theorem getRelatedBuffer_eq (index : ℤ) (display : Display S C φ) :
    (guacencDisplayGetRelatedBuffer index display).1=
        (nameOf index).map (fun name => (name,display.bufferAt name)) ∧
      (guacencDisplayGetRelatedBuffer index display).2.bufferAt=display.bufferAt ∧
      ∀ name, nameOf index=some name →
        (guacencDisplayGetRelatedBuffer index display).2.Holds name := by
  unfold guacencDisplayGetRelatedBuffer nameOf
  split_ifs with hindex hbuffer
  · have hfound := getLayer_eq index display
    have hsame := getLayer_bufferAt index display
    have hstored := getLayer_stored index display
    generalize guacencDisplayGetLayer index display=found at hfound hsame hstored
    obtain ⟨_ | ⟨i,layer⟩,reached⟩ := found
    · have hnone := Option.map_eq_none_iff.mp hfound.symm
      rw [hnone]
      exact ⟨rfl,hsame,fun name hname => by cases hname⟩
    · obtain ⟨j,hj,hji⟩ := Option.map_eq_some_iff.mp hfound.symm
      cases hji
      rw [hj]
      refine ⟨rfl,hsame,fun name hname => ?_⟩
      cases hname
      exact Option.isSome_iff_exists.mpr ⟨_,hstored _ _ rfl⟩
  · unfold guacencDisplayGetBuffer
    dsimp only
    rw [dif_pos hbuffer]
    split
    · rename_i buffer hsome
      refine ⟨?_,rfl,fun name hname => by cases hname; trivial⟩
      rw [Option.map_some,Display.bufferAt,hsome]
      rfl
    · rename_i hnone
      refine ⟨?_,?_,fun name hname => by cases hname; trivial⟩
      · rw [Option.map_some,Display.bufferAt,hnone]
        rfl
      · funext name
        cases name with
        | layer i => rfl
        | frame i => rfl
        | cursor => rfl
        | buffer i =>
          unfold Display.bufferAt Display.setBuffer
          dsimp only
          by_cases hi : i=⟨(-index-1).toNat,(Int.toNat_lt hbuffer.1).mpr hbuffer.2⟩
          · rw [hi,update_self,hnone]
            rfl
          · rw [update_of_ne hi]
  · unfold guacencDisplayGetBuffer
    dsimp only
    rw [dif_neg hbuffer]
    exact ⟨rfl,rfl,fun name hname => by cases hname⟩

/-- A layer whose buffer or frame is stored is otherwise as it was. -/
theorem layerAt_map {i : Fin guacencDisplayMaxLayers} (h : (display.layers i).isSome)
    (f : Layer S C→Layer S C) :
    layerAt (display.setLayer i ((display.layers i).map f))=
      update (layerAt display) i (f (layerAt display i)) := by
  obtain ⟨layer,hlayer⟩ := Option.isSome_iff_exists.mp h
  rw [layerAt_setLayer,hlayer,layerAt,hlayer]
  rfl

/-- A buffer is stored in its place, and no other one changes. -/
theorem bufferAt_store {name : BufferName} (h : display.Holds name) (buffer : Buffer S C) :
    (display.store name buffer).bufferAt=update display.bufferAt name buffer := by
  funext other
  cases name with
  | layer i =>
    have hlayers := layerAt_map h fun layer => { layer with buffer := buffer }
    cases other with
    | layer j =>
      rw [Display.store,Display.bufferAt,hlayers]
      by_cases hji : j=i
      · rw [hji,update_self,update_self]
      · rw [update_of_ne hji,update_of_ne (by simpa using hji)]
        rfl
    | frame j =>
      have hother : update display.bufferAt (.layer i) buffer (.frame j)=
          (layerAt display j).frame := update_of_ne BufferName.noConfusion ..
      rw [hother,Display.store,Display.bufferAt,hlayers]
      by_cases hji : j=i
      · rw [hji,update_self]
      · rw [update_of_ne hji]
    | buffer j => rfl
    | cursor => rfl
  | frame i =>
    have hlayers := layerAt_map h fun layer => { layer with frame := buffer }
    cases other with
    | frame j =>
      rw [Display.store,Display.bufferAt,hlayers]
      by_cases hji : j=i
      · rw [hji,update_self,update_self]
      · rw [update_of_ne hji,update_of_ne (by simpa using hji)]
        rfl
    | layer j =>
      have hother : update display.bufferAt (.frame i) buffer (.layer j)=
          (layerAt display j).buffer := update_of_ne BufferName.noConfusion ..
      rw [hother,Display.store,Display.bufferAt,hlayers]
      by_cases hji : j=i
      · rw [hji,update_self]
      · rw [update_of_ne hji]
    | buffer j => rfl
    | cursor => rfl
  | buffer i =>
    cases other with
    | buffer j =>
      rw [Display.store,Display.bufferAt,Display.setBuffer]
      dsimp only
      by_cases hji : j=i
      · rw [hji,update_self,update_self]
        rfl
      · rw [update_of_ne hji,update_of_ne (by simpa using hji)]
        rfl
    | layer j => rfl
    | frame j => rfl
    | cursor => rfl
  | cursor =>
    cases other with
    | cursor => rfl
    | layer j => rfl
    | frame j => rfl
    | buffer j => rfl

end Names

/-- A property of every buffer that instructions draw on, whatever the frames are. -/
abbrev Canvases (P : Buffer S C→Prop) : Display S C φ→Prop := Stored P fun _ => True

/-- What the operations of instructions on a buffer keep, whatever its size becomes. -/
structure CanvasInvariant (lib : Cairo S C) (P : Buffer S C→Prop) : Prop
    extends KeptByDrawing lib P fun _ _ _ _ => True where
  fresh : ∀ autosize, P { guacencBufferAlloc with autosize := autosize }

theorem CanvasInvariant.new {lib : Cairo S C} {P : Buffer S C→Prop}
    (hP : CanvasInvariant lib P) : Fresh P fun _ => True := ⟨hP.fresh,trivial⟩

/-- What a related buffer's index names is drawn on. -/
theorem CanvasInvariant.bufferAt {lib : Cairo S C} {P : Buffer S C→Prop}
    (hP : CanvasInvariant lib P) {display : Display S C φ} (h : Canvases P display) {index : ℤ}
    {name : BufferName} (hname : nameOf index=some name) : P (display.bufferAt name) := by
  have hfound := (getRelatedBuffer_eq index display).1
  rw [hname,Option.map_some] at hfound
  exact (h.getRelatedBuffer hP.new index).1 _ hfound

/-- The property holds of them after an instruction, unless the encoder ends. -/
abbrev Leaves (P : Buffer S C→Prop) : Except Fault (ℤ×Display S C φ)→Prop :=
  Unless (fun _ => True) fun found => Canvases P found.2

section Flattening

variable {display : Display S C φ} {P : Buffer S C→Prop} {env : Environment S C φ}
variable (hP : CanvasInvariant env.lib P)

include hP

/-- Frames are drawn on freely. -/
theorem CanvasInvariant.flattening : FlatteningInvariant (Canvases P : Display S C φ→Prop) where
  getLayer index _ h := (h.getLayer hP.new index).2
  storeFrame i _ _ h := by
    refine h.setLayer fun l hl => ?_
    obtain ⟨layer,hlayer,rfl⟩ := Option.map_eq_some_iff.mp hl
    exact h.layers i layer hlayer
  synced _ _ _ h := ⟨h.cursor,h.buffers,h.layers⟩

theorem CanvasInvariant.sync {memory : Memory} (h : Canvases P display) (timestamp : ℤ) : Leaves P
      (guacencDisplaySync env memory timestamp display) := by
  refine hP.flattening.sync (fun _ _ => trivial) h memory timestamp fun stamped hstamped => ?_
  have hordered := renderOrder_created env stamped
  cases horder : renderOrder env stamped with
  | error fault => trivial
  | ok found =>
    rw [horder] at hordered
    exact hordered.2.stored hP.new hstamped

end Flattening

section Runs

variable {P : Buffer S C→Prop} {env : Environment S C φ}

/-- Each instruction keeps what the operations on buffers keep. -/
theorem CanvasInvariant.handleInstruction (hP : CanvasInvariant env.lib P)
    {display : Display S C φ} (h : Canvases P display) (instruction : Instruction) :
    Leaves P (guacencHandleInstruction env instruction display) := by
  have hdrawing : DrawingInvariant env.lib (Canvases P : Display S C φ→Prop) P _ :=
    Stored.drawing hP.new hP.toKeptByDrawing fun _ _ => trivial
  refine handleInstruction_of_handlers h fun opcode handler hentry _ => ?_
  simp only [guacencInstructionHandlerMap,List.mem_cons,Prod.mk.injEq,List.not_mem_nil,
    or_false] at hentry
  rcases hentry with ⟨-,rfl⟩ | ⟨-,rfl⟩ | ⟨-,rfl⟩ | ⟨-,rfl⟩ | ⟨-,rfl⟩ | ⟨-,rfl⟩ | ⟨-,rfl⟩ |
    ⟨-,rfl⟩ | ⟨-,rfl⟩ | ⟨-,rfl⟩ | ⟨-,rfl⟩ | ⟨-,rfl⟩ | ⟨-,rfl⟩ | ⟨-,rfl⟩
  · exact hdrawing.handleBlob h
  · exact hdrawing.handleImg h
  · exact hdrawing.handleEnd h fun _ _ _ _ _ _ _ _ _ _ _ _ => trivial
  · exact hdrawing.handleMouse h fun _ _ _ hmoved => hP.sync hmoved _
  · exact DrawingInvariant.handleSync h fun _ => hP.sync h _
  · exact hdrawing.handleCursor h fun _ _ _ _ => trivial
  · exact hdrawing.handleCopy h fun _ _ _ _ _ => trivial
  · exact DrawingInvariant.handleTransfer h
  · exact hdrawing.handleSize h fun _ _ _ _ => trivial
  · exact hdrawing.handleRect h fun _ _ _ _ _ => trivial
  · exact hdrawing.handleCfill h
  · exact h.handleMove hP.new
  · exact h.handleShade hP.new
  · exact h.handleDispose

/-- Every run keeps what the operations on buffers keep. -/
theorem CanvasInvariant.run (hP : CanvasInvariant env.lib P) (hotspotX hotspotY : ℤ) (blank : φ)
    {instructions : List Instruction} {display : Display S C φ}
    (hrun : run (stepDisplay env) instructions
      (.ok (guacencDisplayAlloc hotspotX hotspotY blank))=some (.ok display)) :
    Canvases P display := by
  have hstart : Canvases P (guacencDisplayAlloc hotspotX hotspotY blank : Display S C φ) :=
    ⟨hP.fresh false,fun _ _ h => (Option.some_ne_none _ h.symm).elim,
      fun _ _ h => (Option.some_ne_none _ h.symm).elim⟩
  refine run_keeps (I := Unless (fun _ => True) (Canvases P))
    (fun {instruction state state'} hstate hstep => ?_)
    (s := .ok _) hstart hrun
  cases hstep
  cases state with
  | ok display => exact (hP.handleInstruction hstate instruction).bind fun found hfound => hfound
  | error fault => trivial

end Runs

end GuacServer.EncoderDisplay
