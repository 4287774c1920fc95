import GuacServer.DecimalNumerals
import GuacServer.SurfaceRect

/-!
# Surfaces

common/surface.c: the pixels that a layer of the remote display is to show, and
the rectangles of them that still have to be sent. Drawing operations change
pixels and combine or queue rectangles; a flush combines queued rectangles and
sends what remains as images.

A surface remembers, for each pixel, the value it had when it was last sent:
with an image, as the result of an instruction that has the client do what was
done here, or as a blank pixel of a new size.
-/

namespace GuacServer.Surface

open DecimalNumerals

/-- A pixel in CAIRO_FORMAT_ARGB32. -/
abbrev Pixel := BitVec 32

/-- The pixels of an area, by column and row. -/
abbrev Pixels := ℤ→ℤ→Pixel

/-- The alpha component of an opaque pixel. -/
def opaqueAlpha : Pixel := 0xFF000000

/-- A pixel is fully opaque. -/
def IsOpaque (color : Pixel) : Prop := color &&& opaqueAlpha=opaqueAlpha

instance (color : Pixel) : Decidable (IsOpaque color) := inferInstanceAs (Decidable (_ = _))

/-- guac_composite_mode, as far as surfaces use it. -/
inductive CompositeMode
  /-- GUAC_COMP_ROUT -/
  | rout
  /-- GUAC_COMP_OVER -/
  | over
  deriving DecidableEq

/-- guac_transfer_function. -/
inductive TransferFunction
  | black
  | white
  | src
  | dest
  | nsrc
  | ndest
  | and
  | nand
  | or
  | nor
  | xor
  | xnor
  | nsrcAnd
  | nsrcNand
  | nsrcOr
  | nsrcNor
  deriving DecidableEq

/-- The encodings of image data. -/
inductive Encoding
  | png
  | jpeg
  | webp
  deriving DecidableEq

/-- An instruction that a surface sends. -/
inductive Instruction
  | size (layer width height : ℤ)
  | dispose (layer : ℤ)
  /-- img, with the pixels of a rectangle, whose alpha is ignored if the image data is
  opaque. -/
  | img (encoding : Encoding) (mask : CompositeMode) (layer : ℤ) (rect : Rect) (pixels : Pixels)
    (isOpaque : Bool)
  | rect (layer : ℤ) (rect : Rect)
  | cfill (mask : CompositeMode) (layer : ℤ) (color : Pixel)
  | copy (srcLayer srcX srcY width height : ℤ) (mask : CompositeMode) (dstLayer dstX dstY : ℤ)
  | transfer (srcLayer srcX srcY width height : ℤ) (op : TransferFunction)
    (dstLayer dstX dstY : ℤ)

/-- guac_common_surface_heat_cell. -/
structure HeatCell where
  /-- The ring of timestamps. -/
  history : ℤ→ℤ
  /-- The index of the oldest one. -/
  oldestEntry : ℤ

/-- guac_common_surface_bitmap_rect. -/
structure BitmapRect where
  flushed : Bool
  rect : Rect
  deriving DecidableEq

/-- guac_common_surface, except for the properties of its layer. -/
structure CommonSurface where
  layer : ℤ
  /-- What was written to the socket, which surfaces share. -/
  socket : List Instruction
  width : ℤ
  height : ℤ
  buffer : Pixels
  dirty : Bool
  dirtyRect : Rect
  /-- The layer exists on the client. -/
  realized : Bool
  clipped : Bool
  clipRect : Rect
  bitmapQueue : List BitmapRect
  heatMap : ℤ→ℤ→HeatCell
  /-- The value with which each pixel was last sent. -/
  lastSent : Pixels
  /-- No entry was written past the array of the queue. -/
  bounded : Bool

/-- GUAC_COMMON_SURFACE_QUEUE_SIZE -/
def queueSize : ℕ := 256

/-- GUAC_COMMON_SURFACE_HEAT_CELL_SIZE -/
def heatCellSize : ℤ := 64

/-- GUAC_COMMON_SURFACE_HEAT_CELL_HISTORY_SIZE -/
def heatHistorySize : ℤ := 5

variable (surface : CommonSurface) (rect : Rect)

/-- The rectangle of all pixels of a surface. -/
def CommonSurface.bounds : Rect := ⟨0,0,surface.width,surface.height⟩

/-! ## Rectangles of a surface -/

/-- __guac_common_bound_rect. -/
def guacCommonBoundRect : Rect := guacCommonRectConstrain rect surface.bounds

/-- __guac_common_clip_rect. -/
def guacCommonClipRect : Rect :=
  if surface.clipped then guacCommonRectConstrain rect surface.clipRect
  else guacCommonBoundRect surface rect

/-- __guac_common_surface_is_opaque. -/
def guacCommonSurfaceIsOpaque : Bool :=
  (offsets rect.width rect.height).all fun offset =>
    decide (IsOpaque (surface.buffer (rect.x+offset.1) (rect.y+offset.2)))

/-- __guac_common_should_combine. -/
def guacCommonShouldCombine (rectOnly : Bool) : Bool :=
  if ¬surface.realized then true
  else if surface.dirty then
    let combined := guacCommonRectExtend surface.dirtyRect rect
    let combinedCost := 4096+combined.width*combined.height
    let dirtyCost := 4096+surface.dirtyRect.width*surface.dirtyRect.height
    let updateCost := 4096+rect.width*rect.height
    let updateCost := if rectOnly then updateCost.tdiv 16 else updateCost
    decide (combined.width≤64 ∧ combined.height≤64) ||
      decide (combinedCost≤updateCost+dirtyCost) ||
      decide (combinedCost-dirtyCost≤dirtyCost.tdiv 4) ||
      decide (combinedCost-updateCost≤updateCost.tdiv 4) ||
      -- the update follows a fill pattern
      decide (rect.x=surface.dirtyRect.x ∧ rect.y=surface.dirtyRect.y+surface.dirtyRect.height ∧
        combinedCost≤(dirtyCost+updateCost)*3)
  else false

/-- __guac_common_mark_dirty. -/
def guacCommonMarkDirty : CommonSurface :=
  if rect.Empty then surface
  else if surface.dirty then
    { surface with dirtyRect := guacCommonRectExtend surface.dirtyRect rect }
  else { surface with dirtyRect := rect, dirty := true }

/-! ## The heat map -/

/-- The cells of the heat map that a rectangle starts in and ends in, in one
dimension. -/
def heatRange (start length : ℤ) : ℤ×ℤ :=
  (start.tdiv heatCellSize,start.tdiv heatCellSize+(length-1).tdiv heatCellSize)

/-- The framerate of a cell, in frames per second. -/
def HeatCell.framerate (cell : HeatCell) : ℤ :=
  let latestEntry := if cell.oldestEntry-1<0 then heatHistorySize-1 else cell.oldestEntry-1
  let elapsedTime := wrap32 (cell.history latestEntry-cell.history cell.oldestEntry)
  if elapsedTime≠0 then (heatHistorySize*1000).tdiv elapsedTime else 0

/-- __guac_common_surface_calculate_framerate, over unsigned integers. -/
def guacCommonSurfaceCalculateFramerate : ℤ :=
  let columns := heatRange rect.x rect.width
  let rows := heatRange rect.y rect.height
  let cells := (offsets (columns.2-columns.1) (rows.2-rows.1)).map fun offset =>
    (surface.heatMap (columns.1+offset.1) (rows.1+offset.2)).framerate
  if cells.length=0 then 0 else cells.sum%2^32/cells.length

/-- Neighbours in a row that are the same but for their alpha, and others. -/
def countSame (row : ℤ→Pixel) : ℕ→ℤ×ℤ→ℤ×ℤ
  | 0, counts => counts
  | column+1, (same,different) =>
    let (same,different) := countSame row column (same,different)
    if row (column+1) ||| opaqueAlpha=row column ||| opaqueAlpha then (same+1,different)
    else (same,different+1)

/-- __guac_common_surface_png_optimality. -/
def guacCommonSurfacePngOptimality : ℤ :=
  if rect.width<1 ∨ rect.height<1 then 0
  else
    let counts := (List.range rect.height.toNat).foldl
      (fun counts (y : ℕ) =>
        countSame (fun x => surface.buffer (rect.x+x) (rect.y+y)) (rect.width-1).toNat counts)
      (0,1)
    (0x100*counts.1).tdiv counts.2-0x400

/-- __guac_common_surface_should_use_jpeg. -/
def guacCommonSurfaceShouldUseJpeg : Bool :=
  decide (wrap32 (guacCommonSurfaceCalculateFramerate surface rect)≥3) &&
    decide (rect.width*rect.height > 4096) &&
      decide (guacCommonSurfacePngOptimality surface rect<0)

/-- __guac_common_surface_should_use_webp, where all users of the client may support
WebP. -/
def guacCommonSurfaceShouldUseWebp (supportsWebp : Bool) : Bool :=
  supportsWebp && decide (wrap32 (guacCommonSurfaceCalculateFramerate surface rect)≥3) &&
    decide (guacCommonSurfacePngOptimality surface rect<0)

/-- A timestamp replaces the oldest one of a cell. -/
def HeatCell.touch (cell : HeatCell) (time : ℤ) : HeatCell :=
  ⟨Function.update cell.history cell.oldestEntry time,
    if cell.oldestEntry+1≥heatHistorySize then 0 else cell.oldestEntry+1⟩

/-- __guac_common_surface_touch_rect. -/
def guacCommonSurfaceTouchRect (time : ℤ) : CommonSurface :=
  let columns := heatRange rect.x rect.width
  let rows := heatRange rect.y rect.height
  { surface with
    heatMap := fun x y =>
      if (columns.1≤x ∧ x≤columns.2) ∧ rows.1≤y ∧ y≤rows.2 then
        (surface.heatMap x y).touch time
      else surface.heatMap x y }

/-! ## Sending -/

/-- The pixels of a rectangle are sent as they are. -/
def CommonSurface.sent : CommonSurface :=
  { surface with
    lastSent := fun x y => if rect.Mem x y then surface.buffer x y else surface.lastSent x y }

/-- An instruction is written to the socket. -/
def CommonSurface.send (instruction : Instruction) : CommonSurface :=
  { surface with socket := surface.socket++[instruction] }

/-- guac_client_stream_png, guac_client_stream_jpeg or guac_client_stream_webp of the
dirty rectangle, after which the surface exists and is not dirty. -/
def CommonSurface.stream (encoding : Encoding) (isOpaque : Bool) : CommonSurface :=
  { (surface.send (.img encoding .over surface.layer surface.dirtyRect surface.buffer
      isOpaque)).sent surface.dirtyRect with
    realized := true
    dirty := false }

/-- __guac_common_surface_flush_to_png. -/
def guacCommonSurfaceFlushToPng (isOpaque : Bool) : CommonSurface :=
  if surface.dirty then
    if isOpaque then surface.stream .png true
    else
      -- the destination is cleared first
      ((surface.send (.rect surface.layer surface.dirtyRect)).send
        (.cfill .rout surface.layer opaqueAlpha)).stream .png false
  else surface

/-- The dirty rectangle is expanded to a grid. -/
def CommonSurface.expandToGrid (cellSize : ℤ) : CommonSurface :=
  { surface with
    dirtyRect := guacCommonRectExpandToGrid cellSize surface.dirtyRect surface.bounds }

/-- __guac_common_surface_flush_to_jpeg. -/
def guacCommonSurfaceFlushToJpeg : CommonSurface :=
  if surface.dirty then (surface.expandToGrid 16).stream .jpeg true else surface

/-- __guac_common_surface_flush_to_webp. -/
def guacCommonSurfaceFlushToWebp (isOpaque : Bool) : CommonSurface :=
  if surface.dirty then (surface.expandToGrid 8).stream .webp isOpaque else surface

/-- The bitmap that the dirty rectangle is flushed as. -/
def flushBitmap (supportsWebp : Bool) : CommonSurface :=
  let isOpaque := guacCommonSurfaceIsOpaque surface surface.dirtyRect
  if guacCommonSurfaceShouldUseWebp surface surface.dirtyRect supportsWebp then
    guacCommonSurfaceFlushToWebp surface isOpaque
  else if isOpaque && guacCommonSurfaceShouldUseJpeg surface surface.dirtyRect then
    guacCommonSurfaceFlushToJpeg surface
  else guacCommonSurfaceFlushToPng surface isOpaque

end GuacServer.Surface
