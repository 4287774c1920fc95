import GuacServer.SurfaceFlush

/-!
# Drawing to surfaces

An operation is clipped, changes pixels, and either combines the rectangle that
it changed with what is already dirty, or has that queued or sent first. Copies
and fills that are not combined are sent as instructions of their own.
-/

namespace GuacServer.Surface

/-! ## Pixels -/

/-- An image that is drawn, in CAIRO_FORMAT_ARGB32 or without alpha. -/
structure Image where
  width : ℤ
  height : ℤ
  pixels : Pixels
  isArgb : Bool

/-- __guac_common_surface_transfer_int. -/
def guacCommonSurfaceTransferInt (op : TransferFunction) (src dst : Pixel) : Pixel :=
  match op with
  | .black => 0xFF000000
  | .white => 0xFFFFFFFF
  | .src => src
  | .dest => dst
  | .nsrc => src ^^^ 0x00FFFFFF
  | .ndest => dst ^^^ 0x00FFFFFF
  | .and => dst &&& (0xFF000000 ||| src)
  | .nand => (dst &&& (0xFF000000 ||| src)) ^^^ 0x00FFFFFF
  | .or => dst ||| (0x00FFFFFF &&& src)
  | .nor => (dst ||| (0x00FFFFFF &&& src)) ^^^ 0x00FFFFFF
  | .xor => dst ^^^ (0x00FFFFFF &&& src)
  | .xnor => (dst ^^^ (0x00FFFFFF &&& src)) ^^^ 0x00FFFFFF
  | .nsrcAnd => dst &&& (0xFF000000 ||| (src ^^^ 0x00FFFFFF))
  | .nsrcNand => (dst &&& (0xFF000000 ||| (src ^^^ 0x00FFFFFF))) ^^^ 0x00FFFFFF
  | .nsrcOr => dst ||| (0x00FFFFFF &&& (src ^^^ 0x00FFFFFF))
  | .nsrcNor => (dst ||| (0x00FFFFFF &&& (src ^^^ 0x00FFFFFF))) ^^^ 0x00FFFFFF

/-- The component of a color whose lowest bit is the given one. -/
def component (color : Pixel) (shift : ℕ) : ℕ := ((color >>> shift) &&& 0xFF).toNat

/-- The color of an alpha, a red, a green and a blue component. -/
def argb (alpha red green blue : BitVec 8) : Pixel :=
  alpha.setWidth 32 <<< 24 ||| red.setWidth 32 <<< 16 ||| green.setWidth 32 <<< 8 |||
    blue.setWidth 32

/-- guac_common_surface_blend_component. -/
def guacCommonSurfaceBlendComponent (dst src alpha : ℕ) : ℕ := min (src+dst*(0xFF-alpha)) 0xFF

/-- guac_common_surface_argb_blend. -/
def guacCommonSurfaceArgbBlend (dst src : Pixel) : Pixel :=
  let alpha := component src 24
  if alpha=0xFF ∨ component dst 24=0 then src
  else if alpha=0 then dst
  else
    let blended (shift : ℕ) : BitVec 8 :=
      BitVec.ofNat 8 (guacCommonSurfaceBlendComponent (component dst shift) (component src shift)
        alpha)
    argb (blended 24) (blended 16) (blended 8) (blended 0)

/-- A rectangle restricted to the pixels that were updated in it. -/
def updatedRect (rect : Rect) (before after : Pixels) (extents : Extents) : Rect :=
  rect.restrict (extents.noteAll (fun offset =>
    after (rect.x+offset.1) (rect.y+offset.2)≠before (rect.x+offset.1) (rect.y+offset.2))
    (offsets rect.width rect.height))

/-- What __guac_common_surface_put makes of the pixels of the destination. -/
def putPixels (src : Pixels) (sx sy : ℤ) (dst : Pixels) (rect : Rect) (isOpaque : Bool) : Pixels :=
  fun x y =>
    if rect.Mem x y then
      let color := src (sx+(x-rect.x)) (sy+(y-rect.y))
      if isOpaque then color ||| opaqueAlpha else guacCommonSurfaceArgbBlend (dst x y) color
    else dst x y

/-- What __guac_common_surface_set makes of them. -/
def setPixels (dst : Pixels) (rect : Rect) (color : Pixel) : Pixels :=
  fun x y => if rect.Mem x y then color else dst x y

/-- What __guac_common_surface_fill_mask makes of them. -/
def fillMask (src : Pixels) (sx sy : ℤ) (dst : Pixels) (rect : Rect) (color : Pixel) : Pixels :=
  fun x y =>
    if rect.Mem x y ∧ src (sx+(x-rect.x)) (sy+(y-rect.y)) &&& opaqueAlpha≠0 then color
    else dst x y

/-- A pixel is replaced. -/
def setPixel (pixels : Pixels) (x y : ℤ) (color : Pixel) : Pixels :=
  fun column row => if column=x ∧ row=y then color else pixels column row

/-- The offset from the first pixel of that which the loops are at, which may go
backwards. -/
def transferredOffset (rect : Rect) (backwards : Bool) (offset : ℤ×ℤ) : ℤ×ℤ :=
  if backwards then (rect.width-1-offset.1,rect.height-1-offset.2) else offset

/-- The loops of __guac_common_surface_transfer. The source is part of the destination
if both are one surface. -/
def transferPixels (op : TransferFunction) (source : Pixels→Pixels) (sx sy : ℤ) (rect : Rect)
    (backwards : Bool) : List (ℤ×ℤ)→Pixels→Extents→Pixels×Extents
  | [], dst, extents => (dst,extents)
  | offset::rest, dst, extents =>
    let position := transferredOffset rect backwards offset
    let x := rect.x+position.1
    let y := rect.y+position.2
    let color := guacCommonSurfaceTransferInt op (source dst (sx+position.1) (sy+position.2))
      (dst x y)
    transferPixels op source sx sy rect backwards rest (setPixel dst x y color)
      (extents.noteIf (color≠dst x y) offset)

/-- Extents of offsets from the last pixel, as offsets from the first. -/
def Extents.reverse (extents : Extents) (rect : Rect) : Extents :=
  ⟨rect.width-1-extents.maxX,rect.height-1-extents.maxY,rect.width-1-extents.minX,
    rect.height-1-extents.minY⟩

/-- The order in which pixels are transferred. -/
def transfersBackwards (same : Bool) (sx sy : ℤ) (rect : Rect) : Bool :=
  same && !decide (rect.y<sy ∨ rect.y=sy ∧ rect.x<sx)

/-- __guac_common_surface_transfer: the pixels of the destination and the rectangle of
those that were updated. -/
def commonSurfaceTransfer (op : TransferFunction) (same : Bool) (src : Pixels) (sx sy : ℤ)
    (dst : Pixels) (rect : Rect) : Pixels×Rect :=
  let backwards := transfersBackwards same sx sy rect
  let result := transferPixels op (fun dst => if same then dst else src) sx sy rect backwards
    (offsets rect.width rect.height) dst ⟨rect.width-1,rect.height-1,0,0⟩
  (result.1,rect.restrict (if backwards then result.2.reverse rect else result.2))

/-! ## Operations on one surface -/

/-- Memory that calloc returned. -/
def blankHeatMap : ℤ→ℤ→HeatCell := fun _ _ => ⟨fun _ => 0,0⟩

/-- guac_common_surface_alloc. -/
def guacCommonSurfaceAlloc (socket : List Instruction) (layer w h : ℤ) : CommonSurface :=
  { layer := layer
    -- layers exist initially, the creation of buffers is deferred
    socket := if layer≥0 then socket++[.size layer w h] else socket
    width := w
    height := h
    buffer := fun _ _ => 0
    dirty := false
    dirtyRect := ⟨0,0,0,0⟩
    realized := decide (layer≥0)
    clipped := false
    clipRect := ⟨0,0,0,0⟩
    bitmapQueue := []
    heatMap := blankHeatMap
    lastSent := fun _ _ => 0
    bounded := true }

/-- guac_common_surface_free: what is sent when a surface is freed. -/
def guacCommonSurfaceFree (surface : CommonSurface) : List Instruction :=
  if surface.realized then surface.socket++[.dispose surface.layer] else surface.socket

/-- guac_common_surface_resize. -/
def guacCommonSurfaceResize (surface : CommonSurface) (w h : ℤ) : CommonSurface :=
  if w=surface.width ∧ h=surface.height then surface
  else
    let resized : CommonSurface := { surface with width := w, height := h }
    let dirtyRect := guacCommonBoundRect resized surface.dirtyRect
    { resized with
      buffer := putPixels surface.buffer 0 0 (fun _ _ => 0)
        (guacCommonBoundRect resized surface.bounds) true
      clipRect := guacCommonBoundRect resized surface.clipRect
      heatMap := blankHeatMap
      dirtyRect := if surface.dirty then dirtyRect else surface.dirtyRect
      dirty := surface.dirty && !decide dirtyRect.Empty
      socket :=
        if surface.realized then surface.socket++[.size surface.layer w h] else surface.socket
      lastSent := fun x y => if surface.bounds.Mem x y then surface.lastSent x y else 0 }

/-- An update is combined with what is dirty, or that is queued first. -/
def deferUpdate (supportsWebp : Bool) (surface : CommonSurface) (rect : Rect) : CommonSurface :=
  guacCommonMarkDirty (if guacCommonShouldCombine surface rect false then surface
    else guacCommonSurfaceFlushDeferred supportsWebp surface) rect

/-- guac_common_surface_draw. -/
def guacCommonSurfaceDraw (supportsWebp : Bool) (surface : CommonSurface) (x y : ℤ) (src : Image)
    (time : ℤ) : CommonSurface :=
  let rect := guacCommonClipRect surface ⟨x,y,src.width,src.height⟩
  if rect.Empty then surface
  else
    let buffer := putPixels src.pixels (rect.x-x) (rect.y-y) surface.buffer rect !src.isArgb
    let updated := updatedRect rect surface.buffer buffer ⟨rect.width,rect.height,0,0⟩
    let surface := { surface with buffer := buffer }
    if updated.Empty then surface
    else deferUpdate supportsWebp (guacCommonSurfaceTouchRect surface updated time) updated

/-- guac_common_surface_paint. -/
def guacCommonSurfacePaint (supportsWebp : Bool) (surface : CommonSurface) (x y : ℤ) (src : Image)
    (red green blue : BitVec 8) : CommonSurface :=
  let rect := guacCommonClipRect surface ⟨x,y,src.width,src.height⟩
  if rect.Empty then surface
  else
    deferUpdate supportsWebp { surface with
      buffer := fillMask src.pixels (rect.x-x) (rect.y-y) surface.buffer rect
        (argb 0xFF red green blue) } rect

/-- guac_common_surface_set. -/
def guacCommonSurfaceSet (supportsWebp : Bool) (surface : CommonSurface) (x y w h : ℤ)
    (red green blue alpha : BitVec 8) : CommonSurface :=
  let rect := guacCommonClipRect surface ⟨x,y,w,h⟩
  if rect.Empty then surface
  else
    let color := argb alpha red green blue
    let buffer := setPixels surface.buffer rect color
    let updated := updatedRect rect surface.buffer buffer ⟨rect.width-1,rect.height-1,0,0⟩
    let surface := { surface with buffer := buffer }
    if updated.Empty then surface
    else if alpha≠0xFF then deferUpdate supportsWebp surface updated
    else if guacCommonShouldCombine surface updated true then guacCommonMarkDirty surface updated
    else
      let surface := commonSurfaceFlush supportsWebp surface
      let surface := surface.send (.rect surface.layer updated)
      let surface := surface.send (.cfill .over surface.layer color)
      { surface.sent updated with realized := true }

/-- guac_common_surface_clip. -/
def guacCommonSurfaceClip (surface : CommonSurface) (x y w h : ℤ) : CommonSurface :=
  let clipRect := if surface.clipped then surface.clipRect else surface.bounds
  { surface with clipped := true, clipRect := guacCommonRectConstrain clipRect ⟨x,y,w,h⟩ }

/-- guac_common_surface_reset_clip. -/
def guacCommonSurfaceResetClip (surface : CommonSurface) : CommonSurface :=
  { surface with clipped := false }

/-! ## Operations on two surfaces -/

/-- The surfaces of a client, by layer, which share a socket. -/
structure Surfaces where
  surface : ℤ → CommonSurface
  socket : List Instruction
  /-- guac_client_supports_webp: all users support WebP. -/
  supportsWebp : Bool

/-- A surface is operated on. -/
def Surfaces.modify (surfaces : Surfaces) (layer : ℤ) (f : CommonSurface → CommonSurface) :
    Surfaces :=
  let surface := f { surfaces.surface layer with socket := surfaces.socket }
  { surfaces with
    surface := Function.update surfaces.surface layer surface
    socket := surface.socket }

/-- Pixels of a surface are replaced. -/
def CommonSurface.withBuffer (surface : CommonSurface) (buffer : Pixels) : CommonSurface :=
  { surface with buffer := buffer }

/-- An instruction that draws to a surface is sent, which then exists. -/
def CommonSurface.sendDrawing (surface : CommonSurface) (instruction : Instruction) :
    CommonSurface :=
  { surface.send instruction with realized := true }

/-- Both surfaces of an instruction are flushed, and it is sent. -/
def drawImmediately (instruction : Instruction) (src dst : ℤ) (surfaces : Surfaces) : Surfaces :=
  let surfaces := surfaces.modify dst (commonSurfaceFlush surfaces.supportsWebp)
  let surfaces := surfaces.modify src (commonSurfaceFlush surfaces.supportsWebp)
  surfaces.modify dst (CommonSurface.sendDrawing · instruction)

/-- What guac_common_surface_copy and guac_common_surface_transfer have in common: the
pixels are transferred first if both surfaces are different, and last if they are
one. The instruction is that for the rectangles that are left. -/
def transferBetween (op : TransferFunction) (instruction : Rect→ℤ→ℤ→Instruction)
    (surfaces : Surfaces) (src sx sy w h dst dx dy : ℤ) : Surfaces :=
  let srect := guacCommonBoundRect (surfaces.surface src) ⟨sx,sy,w,h⟩
  let dx := dx+(srect.x-sx)
  let dy := dy+(srect.y-sy)
  let drect := guacCommonClipRect (surfaces.surface dst) ⟨dx,dy,srect.width,srect.height⟩
  let sx := srect.x+(drect.x-dx)
  let sy := srect.y+(drect.y-dy)
  let result := commonSurfaceTransfer op (decide (src=dst)) (surfaces.surface src).buffer sx sy
    (surfaces.surface dst).buffer drect
  let transferred (surfaces : Surfaces) : Surfaces :=
    surfaces.modify dst (CommonSurface.withBuffer · result.1)
  if srect.Empty ∨ drect.Empty then surfaces
  else if src=dst then
    if guacCommonShouldCombine (surfaces.surface dst) drect true then
      transferred (surfaces.modify dst (guacCommonMarkDirty · drect))
    else
      (transferred (drawImmediately (instruction drect sx sy) src dst surfaces)).modify dst
        (CommonSurface.sent · drect)
  else
    let surfaces := transferred surfaces
    let updated := result.2
    if updated.Empty then surfaces
    else if guacCommonShouldCombine (surfaces.surface dst) updated true then
      surfaces.modify dst (guacCommonMarkDirty · updated)
    else
      (drawImmediately (instruction updated (sx+(updated.x-drect.x))
        (sy+(updated.y-drect.y))) src dst surfaces).modify dst (CommonSurface.sent · updated)

/-- guac_common_surface_copy. -/
def guacCommonSurfaceCopy (surfaces : Surfaces) (src sx sy w h dst dx dy : ℤ) : Surfaces :=
  transferBetween .src
    (fun rect srcX srcY => .copy src srcX srcY rect.width rect.height .over dst rect.x rect.y)
    surfaces src sx sy w h dst dx dy

/-- guac_common_surface_transfer. -/
def guacCommonSurfaceTransfer (op : TransferFunction) (surfaces : Surfaces)
    (src sx sy w h dst dx dy : ℤ) : Surfaces :=
  transferBetween op
    (fun rect srcX srcY => .transfer src srcX srcY rect.width rect.height op dst rect.x rect.y)
    surfaces src sx sy w h dst dx dy

/-! ## Sequences of operations -/

/-- What is done to the surfaces of a client. -/
inductive SurfaceOp
  /-- A surface is freed, if there is one, and one is allocated. -/
  | alloc (layer w h : ℤ)
  | resize (layer w h : ℤ)
  | draw (layer x y : ℤ) (src : Image) (time : ℤ)
  | paint (layer x y : ℤ) (src : Image) (red green blue : BitVec 8)
  | copy (src sx sy w h dst dx dy : ℤ)
  | transfer (op : TransferFunction) (src sx sy w h dst dx dy : ℤ)
  | set (layer x y w h : ℤ) (red green blue alpha : BitVec 8)
  | clip (layer x y w h : ℤ)
  | resetClip (layer : ℤ)
  | flush (layer : ℤ)
  /-- Users join or leave, all of which may support WebP. -/
  | users (supportsWebp : Bool)

/-- One operation. -/
def surfaceStep (op : SurfaceOp) (surfaces : Surfaces) : Option Surfaces :=
  some <| match op with
  | .alloc layer w h =>
    surfaces.modify layer fun surface =>
      guacCommonSurfaceAlloc (guacCommonSurfaceFree surface) layer w h
  | .resize layer w h => surfaces.modify layer (guacCommonSurfaceResize · w h)
  | .draw layer x y src time =>
    surfaces.modify layer (guacCommonSurfaceDraw surfaces.supportsWebp · x y src time)
  | .paint layer x y src red green blue =>
    surfaces.modify layer (guacCommonSurfacePaint surfaces.supportsWebp · x y src red green blue)
  | .copy src sx sy w h dst dx dy => guacCommonSurfaceCopy surfaces src sx sy w h dst dx dy
  | .transfer op src sx sy w h dst dx dy =>
    guacCommonSurfaceTransfer op surfaces src sx sy w h dst dx dy
  | .set layer x y w h red green blue alpha =>
    surfaces.modify layer
      (guacCommonSurfaceSet surfaces.supportsWebp · x y w h red green blue alpha)
  | .clip layer x y w h => surfaces.modify layer (guacCommonSurfaceClip · x y w h)
  | .resetClip layer => surfaces.modify layer guacCommonSurfaceResetClip
  | .flush layer => surfaces.modify layer (commonSurfaceFlush surfaces.supportsWebp)
  | .users supportsWebp => { surfaces with supportsWebp := supportsWebp }

/-- A client without surfaces: those that were not allocated have no pixels. -/
def Surfaces.initial : Surfaces where
  surface layer := { guacCommonSurfaceAlloc [] layer 0 0 with realized := false, socket := [] }
  socket := []
  supportsWebp := false

end GuacServer.Surface
