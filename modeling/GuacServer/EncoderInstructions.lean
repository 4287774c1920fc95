import GuacServer.EncoderDisplay

/-!
# The instructions a recording is encoded from

One handler for each opcode, each with its own number of arguments, and their
map. Arguments are read with atoi. The outcome of a handler is what it returns,
unless the encoder ends in it.
-/

namespace GuacServer.EncoderDisplay

open DecimalNumerals UserHandlers BlobTransport Unicode

variable {S C φ : Type}

/-- A handler of an instruction, given argv with as many elements as argc says. -/
abbrev InstructionHandler (S C φ : Type) :=
  Environment S C φ→Memory→List (List UInt8)→Display S C φ → Except Fault (ℤ×Display S C φ)

/-- An element of argv below argc. -/
def text (argv : List (List UInt8)) (i : ℕ) : List UInt8 := argv.getD i []

/-- An element of argv below argc, as an int. -/
def int (argv : List (List UInt8)) (i : ℕ) : ℤ := atoi (text argv i)

/-- A handler returns one if there is no buffer of an index, and goes on with it
otherwise. -/
def withRelatedBuffer (index : ℤ) (display : Display S C φ)
    (use : BufferName→Buffer S C→Display S C φ→Except Fault (ℤ×Display S C φ)) :
    Except Fault (ℤ×Display S C φ) :=
  match guacencDisplayGetRelatedBuffer index display with
  | (none,display) => .ok (1,display)
  | (some (name,buffer),display) => use name buffer display

/-- A handler returns one if there is no layer of an index, and goes on with it
otherwise. -/
def withLayer (index : ℤ) (display : Display S C φ)
    (use : Fin guacencDisplayMaxLayers→Layer S C→Display S C φ → Except Fault (ℤ×Display S C φ)) :
    Except Fault (ℤ×Display S C φ) :=
  match guacencDisplayGetLayer index display with
  | (none,display) => .ok (1,display)
  | (some (i,layer),display) => use i layer display

/-- guacenc_display_cairo_operator. -/
def guacencDisplayCairoOperator (mask : ℤ) : CairoOperator :=
  if mask=12 then .source
  else if mask=14 then .over
  else if mask=4 then .opIn
  else if mask=8 then .opOut
  else if mask=6 then .atop
  else if mask=11 then .destOver
  else if mask=1 then .destIn
  else if mask=2 then .destOut
  else if mask=9 then .destAtop
  else if mask=10 then .xor
  else if mask=15 then .add
  else .over

/-- Expand a buffer as necessary to fit a draw operation. -/
def expanded (lib : Cairo S C) (calloc : ℕ→Bool) (buffer : Buffer S C) (x y : ℤ) : Buffer S C :=
  if buffer.autosize then guacencBufferFit lib calloc buffer x y else buffer

/-- A rectangle filled from a surface that is placed at a point. -/
def Buffer.drawn (lib : Cairo S C) (cairo : C) (mask : ℤ) (surface : S)
    (sourceX sourceY x y width height : ℤ) (buffer : Buffer S C) : Buffer S C :=
  let cairo := lib.setOperator (guacencDisplayCairoOperator mask) cairo
  let cairo := lib.setSourceSurface surface sourceX sourceY cairo
  let cairo := lib.rectangle x y width height cairo
  buffer.filled lib cairo

/-- guacenc_display_get_image_stream. -/
def guacencDisplayGetImageStream (index : ℤ) (display : Display S C φ) :
    Option (Fin guacencDisplayMaxStreams×ImageStream S) :=
  if h : 0 ≤ index ∧ index<guacencDisplayMaxStreams then
    let i : Fin guacencDisplayMaxStreams := ⟨index.toNat,by omega⟩
    (display.imageStreams i).map fun stream => (i,stream)
  else none

/-- An image stream is stored. -/
def Display.setImageStream (index : Fin guacencDisplayMaxStreams) (stream : ImageStream S)
    (display : Display S C φ) : Display S C φ :=
  { display with imageStreams := Function.update display.imageStreams index (some stream) }

/-- guacenc_handle_blob. -/
def guacencHandleBlob : InstructionHandler S C φ := fun _ _ argv display =>
  if argv.length<2 then .ok (1,display)
  else
    let decoded := guacProtocolDecodeBase64 (text argv 1++[0])
    match guacencDisplayGetImageStream (int argv 0) display with
    | none => .ok (1,display)
    | some (i,stream) =>
      .ok (0,display.setImageStream i { stream with data := stream.data++decoded.1.take decoded.2 })

/-- guacenc_get_decoder. -/
def guacencGetDecoder (env : Environment S C φ) (mimetype : List UInt8) :
    Option (List UInt8→Option S) :=
  (env.decoderMap.find? fun entry => entry.1 == mimetype).map Prod.snd

/-- guacenc_handle_img. -/
def guacencHandleImg : InstructionHandler S C φ := fun env _ argv display =>
  if argv.length<6 then .ok (1,display)
  else if h : 0 ≤ int argv 0 ∧ int argv 0<guacencDisplayMaxStreams then
    .ok (0,display.setImageStream ⟨(int argv 0).toNat,by omega⟩
      ⟨int argv 2,int argv 1,int argv 4,int argv 5,guacencGetDecoder env (text argv 3),[]⟩)
  else .ok (1,display)

/-- guacenc_image_stream_end. -/
def guacencImageStreamEnd (lib : Cairo S C) (memory : Memory) (stream : ImageStream S)
    (name : BufferName) (buffer : Buffer S C) (display : Display S C φ) : ℤ×Display S C φ :=
  match stream.decoder with
  | none => (0,display)
  | some decoder =>
    match decoder stream.data with
    | none => (1,display)
    | some surface =>
      let width := lib.imageSurfaceGetWidth surface
      let height := lib.imageSurfaceGetHeight surface
      let buffer := expanded lib (memory name) buffer (wrap32 (stream.x+width))
        (wrap32 (stream.y+height))
      match buffer.cairo with
      | none => (0,display.store name buffer)
      | some cairo =>
        (0,display.store name
          (buffer.drawn lib cairo stream.mask surface stream.x stream.y stream.x stream.y width
            height))

/-- guacenc_handle_end. -/
def guacencHandleEnd : InstructionHandler S C φ := fun env memory argv display =>
  if argv.length<1 then .ok (1,display)
  else
    match guacencDisplayGetImageStream (int argv 0) display with
    | none => .ok (1,display)
    | some (_,stream) =>
      withRelatedBuffer stream.index display fun name buffer display =>
        .ok (guacencImageStreamEnd env.lib memory stream name buffer display)

/-- guacenc_parse_timestamp, which is __guac_parse_int. -/
def guacencParseTimestamp (str : List UInt8) : ℤ := guacParseInt str

/-- guacenc_handle_mouse. -/
def guacencHandleMouse : InstructionHandler S C φ := fun env memory argv display =>
  if argv.length<2 then .ok (1,display)
  else
    let display :=
      { display with cursor := { display.cursor with x := int argv 0, y := int argv 1 } }
    if argv.length<4 then .ok (0,display)
    else guacencDisplaySync env memory (guacencParseTimestamp (text argv 3)) display

/-- guacenc_handle_sync. -/
def guacencHandleSync : InstructionHandler S C φ := fun env memory argv display =>
  if argv.length<1 then .ok (1,display)
  else guacencDisplaySync env memory (guacencParseTimestamp (text argv 0)) display

/-- guacenc_handle_cursor. -/
def guacencHandleCursor : InstructionHandler S C φ := fun env memory argv display =>
  if argv.length<7 then .ok (1,display)
  else
    withRelatedBuffer (int argv 2) display fun _ src display =>
      let dst := guacencBufferResize env.lib (memory .cursor) display.cursor.buffer
        (int argv 5) (int argv 6)
      let dst :=
        match src.surface, dst.cairo with
        | some surface, some cairo =>
          dst.painted env.lib (env.lib.setSourceSurface surface (int argv 3) (int argv 4)
              (env.lib.setOperator .source cairo))
        | _, _ => dst
      .ok (0,{ display with
        cursor := { display.cursor with
          hotspotX := int argv 0, hotspotY := int argv 1, buffer := dst } })

/-- The surface a rectangle of a buffer is copied to before it is drawn to the same
buffer. -/
def temporarySurface (lib : Cairo S C) (surface : S) (sx sy width height : ℤ) : S :=
  let temporary := lib.imageSurfaceCreate width height
  let cairo := lib.create temporary
  let cairo := lib.setOperator .source cairo
  let cairo := lib.setSourceSurface surface (wrap32 (-sx)) (wrap32 (-sy)) cairo
  lib.paint cairo temporary

/-- guacenc_handle_copy. -/
def guacencHandleCopy : InstructionHandler S C φ := fun env memory argv display =>
  if argv.length<9 then .ok (1,display)
  else
    let sx := int argv 1
    let sy := int argv 2
    let width := int argv 3
    let height := int argv 4
    let dx := int argv 7
    let dy := int argv 8
    withRelatedBuffer (int argv 0) display fun srcName src display =>
      withRelatedBuffer (int argv 6) display fun dstName dst display =>
        let dst := expanded env.lib (memory dstName) dst (wrap32 (dx+width))
          (wrap32 (dy+height))
        let src := if srcName=dstName then dst else src
        match src.surface, dst.cairo with
        | some surface, some cairo =>
          if srcName≠dstName then
            .ok (0,display.store dstName
              (dst.drawn env.lib cairo (int argv 5) surface (wrap32 (dx-sx)) (wrap32 (dy-sy))
                dx dy width height))
          else
            let surface := temporarySurface env.lib surface sx sy width height
            .ok (0,display.store dstName
              (dst.drawn env.lib cairo (int argv 5) surface dx dy dx dy width height))
        | _, _ => .ok (0,display.store dstName dst)

/-- guacenc_handle_transfer, which does nothing. -/
def guacencHandleTransfer : InstructionHandler S C φ := fun _ _ argv display =>
  if argv.length<9 then .ok (1,display) else .ok (0,display)

/-- guacenc_handle_size. -/
def guacencHandleSize : InstructionHandler S C φ := fun env memory argv display =>
  if argv.length<3 then .ok (1,display)
  else
    withRelatedBuffer (int argv 0) display fun name buffer display =>
      .ok (0,display.store name
        (guacencBufferResize env.lib (memory name) buffer (int argv 1) (int argv 2)))

/-- guacenc_handle_rect. -/
def guacencHandleRect : InstructionHandler S C φ := fun env memory argv display =>
  if argv.length<5 then .ok (1,display)
  else
    let x := int argv 1
    let y := int argv 2
    let width := int argv 3
    let height := int argv 4
    withRelatedBuffer (int argv 0) display fun name buffer display =>
      let buffer := expanded env.lib (memory name) buffer (wrap32 (x+width)) (wrap32 (y+height))
      .ok (0,display.store name
        { buffer with cairo := buffer.cairo.map (env.lib.rectangle x y width height) })

/-- guacenc_handle_cfill. -/
def guacencHandleCfill : InstructionHandler S C φ := fun env _ argv display =>
  if argv.length<6 then .ok (1,display)
  else
    withRelatedBuffer (int argv 1) display fun name buffer display =>
      match buffer.cairo with
      | none => .ok (0,display)
      | some cairo =>
        let cairo := env.lib.setOperator (guacencDisplayCairoOperator (int argv 0)) cairo
        let cairo := env.lib.setSourceRgba (int argv 2) (int argv 3) (int argv 4) (int argv 5) cairo
        .ok (0,display.store name (buffer.filled env.lib cairo))

/-- guacenc_handle_move. -/
def guacencHandleMove : InstructionHandler S C φ := fun _ _ argv display =>
  if argv.length<5 then .ok (1,display)
  else
    withLayer (int argv 0) display fun i layer display =>
      withLayer (int argv 1) display fun _ _ display =>
        .ok (0,display.setLayer i (some { layer with
          parentIndex := int argv 1, x := int argv 2, y := int argv 3, z := int argv 4 }))

/-- guacenc_handle_shade. -/
def guacencHandleShade : InstructionHandler S C φ := fun _ _ argv display =>
  if argv.length<2 then .ok (1,display)
  else
    withLayer (int argv 0) display fun i layer display =>
      .ok (0,display.setLayer i (some { layer with opacity := int argv 1 }))

/-- guacenc_handle_dispose. -/
def guacencHandleDispose : InstructionHandler S C φ := fun _ _ argv display =>
  if argv.length<1 then .ok (1,display)
  else if 0 ≤ int argv 0 then .ok (guacencDisplayFreeLayer (int argv 0) display)
  else .ok (guacencDisplayFreeBuffer (int argv 0) display)

/-- guacenc_instruction_handler_map. -/
def guacencInstructionHandlerMap : List (List UInt8×InstructionHandler S C φ) :=
  [(ascii "blob", guacencHandleBlob),(ascii "img", guacencHandleImg),
    (ascii "end", guacencHandleEnd),
    (ascii "mouse", guacencHandleMouse),
    (ascii "sync", guacencHandleSync),
    (ascii "cursor", guacencHandleCursor),
    (ascii "copy", guacencHandleCopy),
    (ascii "transfer", guacencHandleTransfer),
    (ascii "size", guacencHandleSize),
    (ascii "rect", guacencHandleRect),
    (ascii "cfill", guacencHandleCfill),
    (ascii "move", guacencHandleMove),
    (ascii "shade", guacencHandleShade),
    (ascii "dispose", guacencHandleDispose)]

/-- An instruction, and which images are granted memory while it is handled. -/
structure Instruction where
  opcode : List UInt8
  argv : List (List UInt8)
  memory : Memory

/-- guacenc_handle_instruction. -/
def guacencHandleInstruction (env : Environment S C φ) (instruction : Instruction)
    (display : Display S C φ) : Except Fault (ℤ×Display S C φ) :=
  match guacencInstructionHandlerMap.find? fun entry => entry.1 == instruction.opcode with
  | some (_,handler) => handler env instruction.memory instruction.argv display
  | none => .ok (0,display)

/-- What each handler of the map does with the instructions of its opcode, and holds
without one, holds of any instruction. -/
theorem handleInstruction_of_handlers {env : Environment S C φ} {instruction : Instruction}
    {display : Display S C φ} {p : Except Fault (ℤ×Display S C φ)→Prop}
    (hunknown : p (.ok (0,display)))
    (hhandlers : ∀ opcode handler, (opcode,handler)∈guacencInstructionHandlerMap →
      instruction.opcode=opcode → p (handler env instruction.memory instruction.argv display)) :
    p (guacencHandleInstruction env instruction display) := by
  unfold guacencHandleInstruction
  split
  · next opcode handler hfind =>
    have hmatches := List.find?_some hfind
    exact hhandlers opcode handler (List.mem_of_find?_eq_some hfind) (eq_of_beq hmatches).symm
  · exact hunknown

/-- The display after one more instruction, unless the encoder has ended. The value
a handler returns ends nothing. -/
def stepDisplay (env : Environment S C φ) (instruction : Instruction)
    (state : Except Fault (Display S C φ)) : Option (Except Fault (Display S C φ)) :=
  some do
    let display ← state
    let (_,display) ← guacencHandleInstruction env instruction display
    return display

end GuacServer.EncoderDisplay
