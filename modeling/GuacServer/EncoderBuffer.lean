import GuacServer.UserHandlers

/-!
# The drawing buffers of the encoder

A buffer has a size and, unless it is empty, memory for its image, a Cairo
surface that wraps it and a context that draws to the surface. Cairo itself is a
parameter: its surfaces and contexts are values, and drawing through a context
changes the surface of the buffer that has both. What is modelled of pointers is
which of them are NULL.
-/

namespace GuacServer.EncoderDisplay

open DecimalNumerals

/-- What ends the encoder other than by returning. -/
inductive Fault
  /-- NULL is passed to a drawing call or dereferenced. -/
  | nullPointer
  /-- An assertion fails that is not about a pointer. -/
  | assertion
  /-- A recursion takes more calls than the stack has room for. -/
  | stackOverflow
  deriving DecidableEq

/-- A result that has a property, unless the encoder ends. It does not end with one
of the faults. -/
def Outcome {α : Type} (excluded : Fault) (P : α→Prop) : Except Fault α→Prop
  | .ok a => P a
  | .error fault => fault≠excluded

theorem Outcome.imp {α : Type} {excluded : Fault} {P Q : α→Prop} {result : Except Fault α}
    (h : Outcome excluded P result) (hPQ : ∀ a, P a→Q a) : Outcome excluded Q result := by
  cases result with
  | ok a => exact hPQ a h
  | error fault => exact h

/-- Outcomes of one step after another. -/
theorem Outcome.bind {α β : Type} {excluded : Fault} {P : α→Prop} {Q : β→Prop}
    {result : Except Fault α} {next : α→Except Fault β} (h : Outcome excluded P result)
    (hnext : ∀ a, P a→Outcome excluded Q (next a)) : Outcome excluded Q (result >>= next) := by
  cases result with
  | ok a => exact hnext a h
  | error fault => exact h

/-- The operators of Cairo. -/
inductive CairoOperator
  | source
  | over
  | opIn
  | opOut
  | atop
  | destOver
  | destIn
  | destOut
  | destAtop
  | xor
  | add
  deriving DecidableEq

/-- The Cairo functions the encoder calls. -/
structure Cairo (S C : Type) where
  formatStrideForWidth : ℤ→ℤ
  imageSurfaceCreateForData : Bool→ℤ→ℤ→ℤ→S
  imageSurfaceCreate : ℤ→ℤ→S
  imageSurfaceGetWidth : S→ℤ
  imageSurfaceGetHeight : S→ℤ
  create : S→C
  resetClip : C→C
  clip : C→C
  rectangle : ℤ→ℤ→ℤ→ℤ→C→C
  setOperator : CairoOperator→C→C
  setSourceSurface : S→ℤ→ℤ→C→C
  setSourceRgba : ℤ→ℤ→ℤ→ℤ→C→C
  paint : C→S→S
  paintWithAlpha : ℤ→C→S→S
  fill : C→S→S
  pathFilled : C→C

/-- A Cairo that keeps no pixels. -/
def Cairo.blind : Cairo Unit Unit where
  formatStrideForWidth width := if 0≤width ∧ width<67108863 then 4*width else -1
  imageSurfaceCreateForData _ _ _ _ := ()
  imageSurfaceCreate _ _ := ()
  imageSurfaceGetWidth _ := 0
  imageSurfaceGetHeight _ := 0
  create _ := ()
  resetClip cairo := cairo
  clip cairo := cairo
  rectangle _ _ _ _ cairo := cairo
  setOperator _ cairo := cairo
  setSourceSurface _ _ _ cairo := cairo
  setSourceRgba _ _ _ _ cairo := cairo
  paint _ surface := surface
  paintWithAlpha _ _ surface := surface
  fill _ surface := surface
  pathFilled cairo := cairo

/-- guacenc_buffer. Of the image data it is kept whether there is any. -/
structure Buffer (S C : Type) where
  autosize : Bool
  width : ℤ
  height : ℤ
  stride : ℤ
  image : Bool
  surface : Option S
  cairo : Option C

variable {S C : Type}

/-- guacenc_buffer_alloc. -/
def guacencBufferAlloc : Buffer S C := ⟨false,0,0,0,false,none,none⟩

/-- guacenc_buffer_free_image. -/
def guacencBufferFreeImage (buffer : Buffer S C) : Buffer S C :=
  { buffer with cairo := none, surface := none, image := false }

/-- The bytes calloc is asked for, as size_t. -/
def imageSize (lib : Cairo S C) (width height : ℤ) : ℕ :=
  (wrap32 (lib.formatStrideForWidth width*height)%2^64).toNat

/-- The context and surface of a new image, with the old surface drawn on it. -/
def newImage (lib : Cairo S C) (image : Bool) (width height stride : ℤ) (old : Option S) : S×C :=
  let surface := lib.imageSurfaceCreateForData image width height stride
  let cairo := lib.create surface
  match old with
  | none => (surface,cairo)
  | some old =>
    let cairo := lib.setOperator .source cairo
    let cairo := lib.setSourceSurface old 0 0 cairo
    let cairo := lib.setOperator .over cairo
    (lib.paint cairo surface,cairo)

/-- guacenc_buffer_resize, with the outcome of calloc for each size. -/
def guacencBufferResize (lib : Cairo S C) (calloc : ℕ→Bool) (buffer : Buffer S C)
    (width height : ℤ) : Buffer S C :=
  if buffer.width=width ∧ buffer.height=height then buffer
  else if width=0 ∨ height=0 then
    { guacencBufferFreeImage buffer with width := width, height := height, stride := 0 }
  else
    let stride := lib.formatStrideForWidth width
    let image := calloc (imageSize lib width height)
    let (surface,cairo) := newImage lib image width height stride buffer.surface
    { guacencBufferFreeImage buffer with
      width := width
      height := height
      stride := stride
      image := image
      surface := some surface
      cairo := some cairo }

/-- The size a buffer takes to fit a coordinate. -/
def fitSize (size coordinate : ℤ) : ℤ :=
  if size<wrap32 (coordinate+1) then wrap32 (coordinate+1) else size

/-- guacenc_buffer_fit. -/
def guacencBufferFit (lib : Cairo S C) (calloc : ℕ→Bool) (buffer : Buffer S C) (x y : ℤ) :
    Buffer S C :=
  let newWidth := fitSize buffer.width x
  let newHeight := fitSize buffer.height y
  if newWidth≠buffer.width ∨ newHeight≠buffer.height then
    guacencBufferResize lib calloc buffer newWidth newHeight
  else buffer

/-- A buffer whose surface is painted through its context. -/
def Buffer.painted (lib : Cairo S C) (cairo : C) (buffer : Buffer S C) : Buffer S C :=
  { buffer with surface := buffer.surface.map (lib.paint cairo), cairo := some cairo }

/-- A buffer whose surface is filled through its context, along the context's path. -/
def Buffer.filled (lib : Cairo S C) (cairo : C) (buffer : Buffer S C) : Buffer S C :=
  { buffer with
    surface := buffer.surface.map (lib.fill cairo)
    cairo := some (lib.pathFilled cairo) }

/-- guacenc_buffer_copy. -/
def guacencBufferCopy (lib : Cairo S C) (calloc : ℕ→Bool) (dst src : Buffer S C) :
    Except Fault (Buffer S C) :=
  let dst := guacencBufferResize lib calloc dst src.width src.height
  match src.surface with
  | none => .ok dst
  | some surface =>
    match dst.cairo with
    | none => .error .nullPointer
    | some cairo =>
      let cairo := lib.resetClip cairo
      let cairo := lib.setOperator .source cairo
      let cairo := lib.setSourceSurface surface 0 0 cairo
      let dst := dst.painted lib cairo
      .ok { dst with cairo := some (lib.setOperator .over cairo) }

/-- The pixels, surface and context of a buffer are there unless it is empty. The
image data may be missing where memory was. -/
structure Buffer.Consistent (buffer : Buffer S C) : Prop where
  surface : buffer.surface=none ↔ buffer.width=0 ∨ buffer.height=0
  cairo : buffer.cairo=none ↔ buffer.width=0 ∨ buffer.height=0

/-- A buffer with pixels has its image data, its surface and its context. -/
def Buffer.Sound (buffer : Buffer S C) : Prop :=
  0<buffer.width→0<buffer.height → buffer.image=true ∧ buffer.surface.isSome ∧ buffer.cairo.isSome

end GuacServer.EncoderDisplay
