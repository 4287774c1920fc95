import Mathlib.Data.List.Sort
import GuacServer.Surface

/-!
# Flushes of a surface

A flush goes through the queue once. Each round combines entries into the dirty
rectangle, and appends that to the queue if there is room and more may combine
with it, or sends it. What was pending is sent at the end.
-/

namespace GuacServer.Surface

open List

/-- __guac_common_surface_flush_to_queue. -/
def guacCommonSurfaceFlushToQueue (surface : CommonSurface) : CommonSurface :=
  if surface.dirty then
    { surface with
      bitmapQueue := surface.bitmapQueue++[⟨false,surface.dirtyRect⟩]
      dirty := false
      bounded := surface.bounded && decide (surface.bitmapQueue.length<queueSize) }
  else surface

/-- __guac_common_surface_bitmap_rect_compare. -/
def guacCommonSurfaceBitmapRectCompare (a b : BitmapRect) : ℤ :=
  if a.rect.y≠b.rect.y then a.rect.y-b.rect.y
  else if a.rect.x≠b.rect.x then a.rect.x-b.rect.x
  -- wider updates come first, and then shorter ones
  else if a.rect.width≠b.rect.width then b.rect.width-a.rect.width
  else a.rect.height-b.rect.height

/-- The loop that builds up the dirty rectangle from entries of the queue, which it
counts. -/
def combineRects (surface : CommonSurface) (combined : ℕ) :
    List BitmapRect → CommonSurface×ℕ×List BitmapRect
  | [] => (surface,combined,[])
  | candidate::rest =>
    if candidate.flushed then
      let result := combineRects surface combined rest
      (result.1,result.2.1,candidate::result.2.2)
    else
      let rect := guacCommonBoundRect surface candidate.rect
      if rect.Empty then
        let result := combineRects surface combined rest
        (result.1,result.2.1,⟨true,rect⟩::result.2.2)
      else if guacCommonShouldCombine surface rect false ∨ ¬surface.dirty then
        let result := combineRects (guacCommonMarkDirty surface rect) (combined+1) rest
        (result.1,result.2.1,⟨true,rect⟩::result.2.2)
      else
        let result := combineRects surface combined rest
        (result.1,result.2.1,⟨false,rect⟩::result.2.2)

/-- What becomes of the dirty rectangle that was built up in a round. -/
def flushCombined (supportsWebp : Bool) (surface : CommonSurface) (again : Prop) [Decidable again] :
    CommonSurface :=
  if again ∧ surface.bitmapQueue.length<queueSize then guacCommonSurfaceFlushToQueue surface
  else if surface.dirty then flushBitmap surface supportsWebp
  else surface

/-- One round of the loop of __guac_common_surface_flush. -/
def flushRound (supportsWebp : Bool) (originalQueueLength i : ℕ) (surface : CommonSurface) :
    CommonSurface :=
  match surface.bitmapQueue.drop i with
  | [] => surface
  | candidate::rest =>
    if candidate.flushed then surface
    else
      let result := combineRects surface 0 (candidate::rest)
      flushCombined supportsWebp
        { result.1 with bitmapQueue := surface.bitmapQueue.take i++result.2.2 }
        (result.2.1 > 1 ∨ i<originalQueueLength)

/-! ## Rounds -/

variable {surface : CommonSurface} {x y : ℤ}

/-- A pixel is in an entry that is not flushed. -/
def Queued (queue : List BitmapRect) (x y : ℤ) : Prop :=
  ∃ entry∈queue, entry.flushed=false ∧ entry.rect.Mem x y

/-- A pixel is in the dirty rectangle. -/
def CommonSurface.Dirty (surface : CommonSurface) (x y : ℤ) : Prop :=
  surface.dirty=true ∧ surface.dirtyRect.Mem x y

/-- The dirty rectangle, if there is one, has pixels, all on the surface. -/
def CommonSurface.DirtyInside (surface : CommonSurface) : Prop :=
  surface.dirty=true→¬surface.dirtyRect.Empty ∧ surface.dirtyRect.InRect surface.bounds

/-- The pixels of a surface, and what decides which of them are drawn to. -/
structure KeepsPixels (surface surface' : CommonSurface) : Prop where
  layer : surface'.layer=surface.layer
  width : surface'.width=surface.width
  height : surface'.height=surface.height
  buffer : surface'.buffer=surface.buffer
  clipped : surface'.clipped=surface.clipped
  clipRect : surface'.clipRect=surface.clipRect

theorem KeepsPixels.refl (surface : CommonSurface) : KeepsPixels surface surface :=
  ⟨rfl,rfl,rfl,rfl,rfl,rfl⟩

variable {surface' : CommonSurface} {queue : List BitmapRect}

theorem KeepsPixels.trans {surface'' : CommonSurface} (h : KeepsPixels surface surface')
    (h' : KeepsPixels surface' surface'') : KeepsPixels surface surface'' :=
  ⟨h'.layer.trans h.layer,h'.width.trans h.width,h'.height.trans h.height,
    h'.buffer.trans h.buffer,h'.clipped.trans h.clipped,h'.clipRect.trans h.clipRect⟩

theorem KeepsPixels.bounds (h : KeepsPixels surface surface') : surface'.bounds=surface.bounds := by
  rw [CommonSurface.bounds,CommonSurface.bounds,h.width,h.height]

theorem queued_nil : ¬Queued [] x y := by
  rintro ⟨entry,hentry,-⟩
  cases hentry

theorem queued_cons {entry : BitmapRect} :
    Queued (entry::queue) x y ↔ (entry.flushed=false ∧ entry.rect.Mem x y) ∨ Queued queue x y := by
  unfold Queued
  rw [exists_mem_cons_iff]

theorem queued_append {queue' : List BitmapRect} :
    Queued (queue++queue') x y ↔ Queued queue x y ∨ Queued queue' x y := by
  unfold Queued
  simp only [mem_append,or_and_right,exists_or]

/-- A rectangle that is marked is dirty, as is what was dirty. -/
theorem markDirty_eq (surface : CommonSurface) (rect : Rect) (hrect : ¬rect.Empty) :
    guacCommonMarkDirty surface rect = { surface with
      dirty := true
      dirtyRect :=
        if surface.dirty then guacCommonRectExtend surface.dirtyRect rect else rect } := by
  unfold guacCommonMarkDirty
  rw [if_neg hrect]
  split
  · rename_i hdirty
    rw [hdirty]
  · rfl

theorem dirty_markDirty (surface : CommonSurface) {rect : Rect}
    (h : surface.Dirty x y ∨ rect.Mem x y) : (guacCommonMarkDirty surface rect).Dirty x y := by
  by_cases hempty : rect.Empty
  · unfold guacCommonMarkDirty
    rw [if_pos hempty]
    exact h.resolve_right fun hmem => hmem.not_empty hempty
  · rw [markDirty_eq surface rect hempty]
    refine ⟨rfl,?_⟩
    dsimp only
    rcases h with ⟨hdirty,hmem⟩ | hmem
    · rw [if_pos hdirty]
      exact mem_extend_left hmem rect
    · split
      · exact mem_extend_right hmem surface.dirtyRect
      · exact hmem

theorem CommonSurface.DirtyInside.markDirty (h : surface.DirtyInside) {rect : Rect}
    (hrect : rect.InRect surface.bounds) : (guacCommonMarkDirty surface rect).DirtyInside := by
  by_cases hempty : rect.Empty
  · unfold guacCommonMarkDirty
    rw [if_pos hempty]
    exact h
  · rw [markDirty_eq surface rect hempty]
    intro _
    dsimp only [CommonSurface.bounds]
    split_ifs with hdirty
    · obtain ⟨hsome,hinside⟩ := h hdirty
      exact ⟨extend_not_empty hsome rect,extend_inRect hinside hrect⟩
    · exact ⟨hempty,hrect⟩

/-- What combining entries of the queue leads to. -/
structure Combines (surface : CommonSurface) (queue : List BitmapRect)
    (surface' : CommonSurface) (queue' : List BitmapRect) : Prop where
  same : ∃ dirty dirtyRect, surface' = { surface with dirty := dirty, dirtyRect := dirtyRect }
  length : queue'.length=queue.length
  inside : surface.DirtyInside → surface'.DirtyInside
  pending : ∀ x y, surface.bounds.Mem x y→Queued queue x y ∨ surface.Dirty x y →
    Queued queue' x y ∨ surface'.Dirty x y

/-- A flushed entry has no pixels that are queued. -/
theorem queued_cons_flushed {rect : Rect} : Queued (⟨true,rect⟩::queue) x y ↔ Queued queue x y := by
  rw [queued_cons]
  exact or_iff_right fun h => Bool.noConfusion h.1

theorem mem_boundRect (surface : CommonSurface) (rect : Rect) (x y : ℤ) :
    (guacCommonBoundRect surface rect).Mem x y ↔ rect.Mem x y ∧ surface.bounds.Mem x y :=
  mem_constrain rect surface.bounds x y

theorem boundRect_inRect (surface : CommonSurface) (rect : Rect) :
    (guacCommonBoundRect surface rect).InRect surface.bounds := constrain_inRect rect surface.bounds

/-- An entry that is combined or has no pixels leaves the queue, one that is clipped
stays in it. -/
theorem combines_cons {candidate : BitmapRect} {queue' : List BitmapRect} (marked : CommonSurface)
    (kept : BitmapRect)
    (hmarked : ∃ dirty dirtyRect, marked = { surface with dirty := dirty, dirtyRect := dirtyRect })
    (hinside : surface.DirtyInside → marked.DirtyInside)
    (hkept : ∀ x y, surface.bounds.Mem x y →
      (candidate.flushed=false ∧ candidate.rect.Mem x y) ∨ surface.Dirty x y →
        (kept.flushed=false ∧ kept.rect.Mem x y) ∨ marked.Dirty x y)
    (h : Combines marked queue surface' queue') :
    Combines surface (candidate::queue) surface' (kept::queue') := by
  obtain ⟨dirty,dirtyRect,rfl⟩ := hmarked
  obtain ⟨⟨dirty',dirtyRect',rfl⟩,hlength,hinside',hpending⟩ := h
  refine ⟨⟨dirty',dirtyRect',rfl⟩,congrArg (· + 1) hlength,
    fun hdirty => hinside' (hinside hdirty),fun x y hbounds h => ?_⟩
  rw [queued_cons] at h ⊢
  have hrest := hpending x y hbounds
  rcases h with (hcandidate | hqueue) | hdirty
  · rcases hkept x y hbounds (Or.inl hcandidate) with hin | hmark
    · exact Or.inl (Or.inl hin)
    · exact (hrest (Or.inr hmark)).imp_left Or.inr
  · exact (hrest (Or.inl hqueue)).imp_left Or.inr
  · rcases hkept x y hbounds (Or.inr hdirty) with hin | hmark
    · exact Or.inl (Or.inl hin)
    · exact (hrest (Or.inr hmark)).imp_left Or.inr

theorem combines_combineRects (surface : CommonSurface) (combined : ℕ) (queue : List BitmapRect) :
    Combines surface queue (combineRects surface combined queue).1
      (combineRects surface combined queue).2.2 := by
  induction queue generalizing surface combined with
  | nil => exact ⟨⟨_,_,rfl⟩,rfl,id,fun _ _ _ => id⟩
  | cons candidate rest ih =>
    have hbound : ∀ x y, surface.bounds.Mem x y → candidate.rect.Mem x y →
        (guacCommonBoundRect surface candidate.rect).Mem x y :=
      fun x y hbounds hmem => (mem_boundRect ..).mpr ⟨hmem,hbounds⟩
    rw [combineRects]
    dsimp only
    split_ifs with hflushed hempty hcombine
    · exact combines_cons surface candidate ⟨_,_,rfl⟩ id (fun _ _ _ => id) (ih surface combined)
    · refine combines_cons surface _ ⟨_,_,rfl⟩ id (fun x y hbounds h => ?_) (ih surface combined)
      refine Or.inr (h.resolve_left fun hcandidate => ?_)
      exact (hbound x y hbounds hcandidate.2).not_empty hempty
    · refine combines_cons _ _ ⟨_,_,markDirty_eq surface _ hempty⟩
        (fun hinside => hinside.markDirty (boundRect_inRect ..)) (fun x y hbounds h => ?_) (ih _ _)
      refine Or.inr (dirty_markDirty surface ?_)
      rcases h with hcandidate | hdirty
      · exact Or.inr (hbound x y hbounds hcandidate.2)
      · exact Or.inl hdirty
    · refine combines_cons surface _ ⟨_,_,rfl⟩ id (fun x y hbounds h => ?_) (ih surface combined)
      exact h.imp_left fun hcandidate => ⟨rfl,hbound x y hbounds hcandidate.2⟩

/-- The first entry does not stay in the queue if nothing is dirty before it. -/
theorem combineRects_head {candidate : BitmapRect} (hclean : surface.dirty=false)
    (hcandidate : candidate.flushed=false) (rest : List BitmapRect) :
    ∃ rect rest', (combineRects surface 0 (candidate::rest)).2.2=⟨true,rect⟩::rest' := by
  rw [combineRects,hcandidate,hclean]
  dsimp only
  rw [if_neg Bool.false_ne_true]
  split
  · exact ⟨_,_,rfl⟩
  · rw [if_pos (Or.inr Bool.false_ne_true)]
    exact ⟨_,_,rfl⟩

/-! ## Rounds -/

/-- Some pixels of a surface were sent, as they are. -/
structure Sends (surface surface' : CommonSurface) : Prop where
  keeps : KeepsPixels surface surface'
  bounded : surface'.bounded=surface.bounded
  lastSent : ∀ x y, surface'.lastSent x y=surface.lastSent x y ∨
    surface'.lastSent x y=surface.buffer x y

theorem Sends.refl (surface : CommonSurface) : Sends surface surface :=
  ⟨KeepsPixels.refl surface,rfl,fun _ _ => Or.inl rfl⟩

theorem Sends.trans {surface'' : CommonSurface} (h : Sends surface surface')
    (h' : Sends surface' surface'') : Sends surface surface'' := by
  refine ⟨h.keeps.trans h'.keeps,h'.bounded.trans h.bounded,fun x y => ?_⟩
  rcases h'.lastSent x y with hsame | hsent
  · rw [hsame]
    exact h.lastSent x y
  · rw [hsent,h.keeps.buffer]
    exact Or.inr rfl

/-- What was sent as it is stays so. -/
theorem Sends.keeps_sent (h : Sends surface surface')
    (hsent : surface.lastSent x y=surface.buffer x y) :
    surface'.lastSent x y=surface'.buffer x y := by
  rw [h.keeps.buffer]
  rcases h.lastSent x y with hsame | hnow
  · exact hsame.trans hsent
  · exact hnow

/-- A surface with another dirty rectangle and queue. -/
def CommonSurface.withQueue (surface : CommonSurface) (dirty : Bool) (dirtyRect : Rect)
    (bitmapQueue : List BitmapRect) : CommonSurface :=
  { surface with dirty := dirty, dirtyRect := dirtyRect, bitmapQueue := bitmapQueue }

theorem withQueue_inside {dirty : Bool} {dirtyRect : Rect}
    (h : CommonSurface.DirtyInside { surface with dirty := dirty, dirtyRect := dirtyRect })
    (bitmapQueue : List BitmapRect) : (surface.withQueue dirty dirtyRect bitmapQueue).DirtyInside :=
  h

theorem Sends.of_withQueue {dirty : Bool} {dirtyRect : Rect} {bitmapQueue : List BitmapRect}
    (h : Sends (surface.withQueue dirty dirtyRect bitmapQueue) surface') : Sends surface surface' :=
  ⟨⟨h.keeps.layer,h.keeps.width,h.keeps.height,h.keeps.buffer,h.keeps.clipped,
    h.keeps.clipRect⟩,h.bounded,h.lastSent⟩

/-- A flush of the dirty rectangle as a bitmap sends it. -/
structure SendsDirty (surface surface' : CommonSurface) : Prop extends Sends surface surface' where
  clean : surface'.dirty=false
  queue : surface'.bitmapQueue=surface.bitmapQueue
  dirty : ∀ x y, surface.dirtyRect.Mem x y → surface'.lastSent x y=surface.buffer x y

theorem sendsDirty_stream (surface : CommonSurface) (encoding : Encoding) (isOpaque : Bool) :
    SendsDirty surface (surface.stream encoding isOpaque) := by
  refine ⟨⟨⟨rfl,rfl,rfl,rfl,rfl,rfl⟩,rfl,fun x y => ?_⟩,rfl,rfl,fun x y hmem => ?_⟩
  · exact (ite_eq_or_eq _ _ _).symm
  · exact if_pos hmem

theorem SendsDirty.expandToGrid {cellSize : ℤ} (hcell : 0<cellSize)
    (hinside : surface.dirtyRect.InRect surface.bounds)
    (h : SendsDirty (surface.expandToGrid cellSize) surface') : SendsDirty surface surface' := by
  obtain ⟨⟨hkeeps,hbounded,hlastSent⟩,hclean,hqueue,hdirty⟩ := h
  refine ⟨⟨⟨hkeeps.layer,hkeeps.width,hkeeps.height,hkeeps.buffer,hkeeps.clipped,
    hkeeps.clipRect⟩,hbounded,hlastSent⟩,hclean,hqueue,fun x y hmem => ?_⟩
  exact hdirty x y (mem_expandToGrid hcell hinside hmem)

theorem sendsDirty_flushToPng (hdirty : surface.dirty=true) (isOpaque : Bool) :
    SendsDirty surface (guacCommonSurfaceFlushToPng surface isOpaque) := by
  unfold guacCommonSurfaceFlushToPng
  rw [if_pos hdirty]
  split
  · exact sendsDirty_stream ..
  · obtain ⟨⟨hkeeps,hbounded,hlastSent⟩,hclean,hqueue,hsent⟩ := sendsDirty_stream
      ((surface.send (.rect surface.layer surface.dirtyRect)).send
        (.cfill .rout surface.layer opaqueAlpha)) .png false
    exact ⟨⟨⟨hkeeps.layer,hkeeps.width,hkeeps.height,hkeeps.buffer,hkeeps.clipped,
      hkeeps.clipRect⟩,hbounded,hlastSent⟩,hclean,hqueue,hsent⟩

theorem sendsDirty_flushBitmap (hdirty : surface.dirty=true) (hinside : surface.DirtyInside)
    (supportsWebp : Bool) : SendsDirty surface (flushBitmap surface supportsWebp) := by
  have hin := (hinside hdirty).2
  unfold flushBitmap
  dsimp only
  split
  · unfold guacCommonSurfaceFlushToWebp
    rw [if_pos hdirty]
    exact (sendsDirty_stream ..).expandToGrid (by decide) hin
  split
  · unfold guacCommonSurfaceFlushToJpeg
    rw [if_pos hdirty]
    exact (sendsDirty_stream ..).expandToGrid (by decide) hin
  · exact sendsDirty_flushToPng hdirty _

theorem flushBitmap_queue (surface : CommonSurface) (supportsWebp : Bool) :
    (flushBitmap surface supportsWebp).bitmapQueue=surface.bitmapQueue := by
  unfold flushBitmap guacCommonSurfaceFlushToWebp guacCommonSurfaceFlushToJpeg
    guacCommonSurfaceFlushToPng
  dsimp only
  split_ifs <;> rfl

/-- The queue does not grow beyond its size. -/
theorem flushCombined_length (supportsWebp : Bool) (surface : CommonSurface) (again : Prop)
    [Decidable again] : (flushCombined supportsWebp surface again).bitmapQueue.length≤
      max queueSize surface.bitmapQueue.length := by
  unfold flushCombined
  split_ifs with hagain hdirty
  · unfold guacCommonSurfaceFlushToQueue
    split_ifs
    · dsimp only
      rw [length_append,length_singleton]
      omega
    · exact le_max_right ..
  · rw [flushBitmap_queue]
    exact le_max_right ..
  · exact le_max_right ..

/-- What was combined is queued again or sent. -/
theorem flushCombined_pending (supportsWebp : Bool) (again : Prop) [Decidable again]
    (hinside : surface.DirtyInside) {before : List BitmapRect}
    (hqueue : surface.bitmapQueue=before++queue) :
    Sends surface (flushCombined supportsWebp surface again) ∧
      (flushCombined supportsWebp surface again).dirty=false ∧
      ∃ queue', (flushCombined supportsWebp surface again).bitmapQueue=before++queue' ∧
        ∀ x y, Queued queue x y ∨ surface.Dirty x y →
          (flushCombined supportsWebp surface again).lastSent x y=surface.buffer x y ∨
            Queued queue' x y := by
  have hkept : surface.dirty=false→∀ x y, Queued queue x y ∨ surface.Dirty x y →
      surface.lastSent x y=surface.buffer x y ∨ Queued queue x y := by
    intro hclean x y h
    refine Or.inr (h.resolve_right fun hmem => ?_)
    rw [hmem.1] at hclean
    cases hclean
  unfold flushCombined
  split_ifs with hagain hdirty
  · unfold guacCommonSurfaceFlushToQueue
    split_ifs with hdirty
    · refine ⟨⟨⟨rfl,rfl,rfl,rfl,rfl,rfl⟩,?_,fun _ _ => Or.inl rfl⟩,rfl,
        queue++[⟨false,surface.dirtyRect⟩],?_,fun x y h => ?_⟩
      · dsimp only
        rw [decide_eq_true hagain.2,Bool.and_true]
      · dsimp only
        rw [hqueue,append_assoc]
      · refine Or.inr (queued_append.mpr (h.imp_right fun hmem => ?_))
        exact queued_cons.mpr (Or.inl ⟨rfl,hmem.2⟩)
    · have hclean := Bool.eq_false_of_not_eq_true hdirty
      exact ⟨Sends.refl surface,hclean,queue,hqueue,hkept hclean⟩
  · obtain ⟨hsends,hclean,hsame,hsent⟩ := sendsDirty_flushBitmap hdirty hinside supportsWebp
    exact ⟨hsends,hclean,queue,hsame.trans hqueue,
      fun x y h => h.symm.imp_left fun hmem => hsent x y hmem.2⟩
  · have hclean := Bool.eq_false_of_not_eq_true hdirty
    exact ⟨Sends.refl surface,hclean,queue,hqueue,hkept hclean⟩

/-- A round queues no more than there is room for. -/
theorem flushRound_length (supportsWebp : Bool) (originalQueueLength i : ℕ)
    (surface : CommonSurface) :
    (flushRound supportsWebp originalQueueLength i surface).bitmapQueue.length≤
      max queueSize surface.bitmapQueue.length := by
  unfold flushRound
  split
  · exact le_max_right ..
  · rename_i candidate rest hdrop
    split
    · exact le_max_right ..
    · have hlength := (combines_combineRects surface 0 (candidate::rest)).length
      have hparts := congrArg List.length (take_append_drop i surface.bitmapQueue)
      rw [hdrop,length_append,←hlength,←length_append] at hparts
      refine (flushCombined_length ..).trans_eq ?_
      dsimp only
      rw [hparts]

/-- A round leaves nothing pending in the entry that it is for. -/
theorem flushRound_pending (supportsWebp : Bool) (hclean : surface.dirty=false)
    (originalQueueLength i : ℕ) :
    Sends surface (flushRound supportsWebp originalQueueLength i surface) ∧
      (flushRound supportsWebp originalQueueLength i surface).dirty=false ∧
      ∀ x y, surface.bounds.Mem x y→Queued (surface.bitmapQueue.drop i) x y →
        (flushRound supportsWebp originalQueueLength i surface).lastSent x y=surface.buffer x y ∨
          Queued ((flushRound supportsWebp originalQueueLength i surface).bitmapQueue.drop (i+1))
            x y := by
  unfold flushRound
  split
  · rename_i hdrop
    rw [hdrop]
    exact ⟨Sends.refl surface,hclean,fun x y _ h => absurd h queued_nil⟩
  · rename_i candidate rest hdrop
    have hnext : surface.bitmapQueue.drop (i+1)=rest := by
      rw [←tail_drop,hdrop]
      rfl
    rw [hdrop]
    split
    · rename_i hflushed
      refine ⟨Sends.refl surface,hclean,fun x y _ h => Or.inr ?_⟩
      rw [hnext]
      refine (queued_cons.mp h).resolve_left fun hcandidate => ?_
      rw [hflushed] at hcandidate
      cases hcandidate.1
    · rename_i hflushed
      obtain ⟨⟨dirty,dirtyRect,hsame⟩,-,hinside,hpending⟩ :=
        combines_combineRects surface 0 (candidate::rest)
      obtain ⟨rect,rest',hhead⟩ := combineRects_head hclean
        (Bool.eq_false_of_not_eq_true hflushed) rest
      have hbefore : (surface.bitmapQueue.take i++[(⟨true,rect⟩ : BitmapRect)]).length=i+1 := by
        have hlength := congrArg List.length hdrop
        rw [length_drop,length_cons] at hlength
        rw [length_append,length_take,length_singleton]
        omega
      dsimp only
      generalize combineRects surface 0 (candidate::rest)=result at *
      obtain ⟨built,combined,queue⟩ := result
      dsimp only at hsame hinside hpending hhead ⊢
      subst hsame hhead
      have hbuilt := hinside fun hdirty => absurd hdirty (by rw [hclean]; exact Bool.false_ne_true)
      obtain ⟨hsends,hcleaned,queue',hqueue,hsent⟩ := flushCombined_pending
        supportsWebp (combined > 1 ∨ i<originalQueueLength)
        (withQueue_inside hbuilt (surface.bitmapQueue.take i++⟨true,rect⟩::rest'))
        (append_cons ..)
      refine ⟨hsends.of_withQueue,hcleaned,fun x y hbounds h => ?_⟩
      have hleft := hpending x y hbounds (Or.inl h)
      rw [queued_cons_flushed] at hleft
      have hdropped : (surface.bitmapQueue.take i++[(⟨true,rect⟩ : BitmapRect)]++queue').drop
          (i+1)=queue' := by rw [←hbefore,drop_left]
      have hafter := hsent x y hleft
      rw [←hdropped,←hqueue] at hafter
      exact hafter

/-! ## Flushes -/

/-- The loop of __guac_common_surface_flush, which ends: each round is for the next
entry, and the queue does not grow beyond its size. -/
def flushLoop (supportsWebp : Bool) (originalQueueLength i : ℕ) (surface : CommonSurface) :
    CommonSurface :=
  if i<surface.bitmapQueue.length then
    flushLoop supportsWebp originalQueueLength (i+1)
      (flushRound supportsWebp originalQueueLength i surface)
  else surface
termination_by max queueSize surface.bitmapQueue.length-i
decreasing_by
  have hlength := flushRound_length supportsWebp originalQueueLength i surface
  omega

/-- The entries of the queue are sorted. -/
def CommonSurface.sortQueue (surface : CommonSurface) : CommonSurface :=
  { surface with
    bitmapQueue := surface.bitmapQueue.mergeSort fun a b =>
      decide (guacCommonSurfaceBitmapRectCompare a b≤0) }

/-- __guac_common_surface_flush. -/
def commonSurfaceFlush (supportsWebp : Bool) (surface : CommonSurface) : CommonSurface :=
  let surface := (guacCommonSurfaceFlushToQueue surface).sortQueue
  { flushLoop supportsWebp surface.bitmapQueue.length 0 surface with bitmapQueue := [] }

/-- __guac_common_surface_flush_deferred. -/
def guacCommonSurfaceFlushDeferred (supportsWebp : Bool) (surface : CommonSurface) :
    CommonSurface :=
  if surface.dirty then
    guacCommonSurfaceFlushToQueue
      -- space is left for the rectangle that a flush adds
      (if surface.bitmapQueue.length=queueSize-1 then commonSurfaceFlush supportsWebp surface
      else surface)
  else surface

/-- The loop sends all that is pending. -/
theorem flushLoop_pending (supportsWebp : Bool) (hclean : surface.dirty=false)
    (originalQueueLength i : ℕ) :
    Sends surface (flushLoop supportsWebp originalQueueLength i surface) ∧
      (flushLoop supportsWebp originalQueueLength i surface).dirty=false ∧
      ∀ x y, surface.bounds.Mem x y→Queued (surface.bitmapQueue.drop i) x y →
        (flushLoop supportsWebp originalQueueLength i surface).lastSent x y=surface.buffer x y := by
  induction i, surface using flushLoop.induct supportsWebp originalQueueLength with
  | case1 i surface hlt ih =>
    obtain ⟨hsends,hcleaned,hpending⟩ :=
      flushRound_pending supportsWebp hclean originalQueueLength i
    obtain ⟨hrest,hrestClean,hrestPending⟩ := ih hcleaned
    rw [flushLoop,if_pos hlt]
    refine ⟨hsends.trans hrest,hrestClean,fun x y hbounds h => ?_⟩
    rw [hsends.keeps.bounds,hsends.keeps.buffer] at hrestPending
    rcases hpending x y hbounds h with hsent | hqueued
    · have hkept := hrest.keeps_sent (hsent.trans (congrFun₂ hsends.keeps.buffer x y).symm)
      rw [hkept,hrest.keeps.buffer,hsends.keeps.buffer]
    · exact hrestPending x y hbounds hqueued
  | case2 i surface hge =>
    rw [flushLoop,if_neg hge]
    refine ⟨Sends.refl surface,hclean,fun x y _ h => ?_⟩
    rw [drop_eq_nil_of_le (not_lt.mp hge)] at h
    exact absurd h queued_nil

/-! ## Pending pixels -/

/-- A pixel is in the dirty rectangle or in one that is queued. -/
def CommonSurface.Pending (surface : CommonSurface) (x y : ℤ) : Prop :=
  surface.Dirty x y ∨ Queued surface.bitmapQueue x y

theorem flushToQueue_eq (surface : CommonSurface) : ∃ bitmapQueue bounded,
    guacCommonSurfaceFlushToQueue surface=
      { surface with bitmapQueue := bitmapQueue, dirty := false, bounded := bounded } := by
  unfold guacCommonSurfaceFlushToQueue
  split
  · exact ⟨_,_,rfl⟩
  · rename_i hdirty
    refine ⟨surface.bitmapQueue,surface.bounded,?_⟩
    rw [←Bool.eq_false_of_not_eq_true hdirty]

/-- What is pending is queued once the dirty rectangle is. -/
theorem queued_flushToQueue (surface : CommonSurface) (x y : ℤ) :
    Queued (guacCommonSurfaceFlushToQueue surface).bitmapQueue x y ↔ surface.Pending x y := by
  unfold guacCommonSurfaceFlushToQueue CommonSurface.Pending CommonSurface.Dirty
  split
  · rename_i hdirty
    dsimp only
    rw [queued_append,queued_cons,hdirty,or_comm]
    simp only [true_and,queued_nil,or_false]
  · rename_i hdirty
    simp only [hdirty,Bool.false_eq_true,false_and,false_or]

/-- There is room in the queue for another entry. -/
theorem bounded_flushToQueue (hbounded : surface.bounded=true)
    (hlength : surface.bitmapQueue.length<queueSize) :
    (guacCommonSurfaceFlushToQueue surface).bounded=true := by
  unfold guacCommonSurfaceFlushToQueue
  split
  · dsimp only
    rw [hbounded,decide_eq_true hlength,Bool.and_self]
  · exact hbounded

theorem queued_sortQueue (surface : CommonSurface) (x y : ℤ) :
    Queued surface.sortQueue.bitmapQueue x y ↔ Queued surface.bitmapQueue x y := by
  unfold Queued CommonSurface.sortQueue
  simp only [mem_mergeSort]

/-- A flush sends everything that is pending, and empties the queue without having
overrun it. -/
theorem commonSurfaceFlush_pending (supportsWebp : Bool) (hbounded : surface.bounded=true)
    (hlength : surface.bitmapQueue.length<queueSize) :
    Sends surface (commonSurfaceFlush supportsWebp surface) ∧
      ((commonSurfaceFlush supportsWebp surface).dirty=false ∧
        (commonSurfaceFlush supportsWebp surface).bitmapQueue=[]) ∧
      ∀ x y, surface.bounds.Mem x y → surface.Pending x y →
        (commonSurfaceFlush supportsWebp surface).lastSent x y=surface.buffer x y := by
  have hroom := bounded_flushToQueue hbounded hlength
  have hqueued := queued_flushToQueue surface
  obtain ⟨bitmapQueue,bounded,heq⟩ := flushToQueue_eq surface
  unfold commonSurfaceFlush
  rw [heq] at hroom hqueued ⊢
  have hclean : (CommonSurface.sortQueue { surface with
      bitmapQueue := bitmapQueue, dirty := false, bounded := bounded }).dirty=false := rfl
  obtain ⟨hsends,hclean,hpending⟩ := flushLoop_pending supportsWebp hclean
    (CommonSurface.sortQueue { surface with
      bitmapQueue := bitmapQueue, dirty := false, bounded := bounded }).bitmapQueue.length 0
  refine ⟨⟨⟨hsends.keeps.layer,hsends.keeps.width,hsends.keeps.height,hsends.keeps.buffer,
    hsends.keeps.clipped,hsends.keeps.clipRect⟩,hsends.bounded.trans (hroom.trans hbounded.symm),
    hsends.lastSent⟩,⟨hclean,rfl⟩,fun x y hbounds h => ?_⟩
  exact hpending x y hbounds ((queued_sortQueue ..).mpr ((hqueued x y).mpr h))

end GuacServer.Surface
