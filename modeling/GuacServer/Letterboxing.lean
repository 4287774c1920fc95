import GuacServer.CellMemory
import GuacServer.EncoderDisplay
import Mathlib.Tactic.Linarith

/-!
# Letterboxes and pillarboxes

A frame is a buffer with black margins, so that it is scaled to the size of the video without
distortion. The rows of the buffer are copied between the margins. av_image_alloc is a
parameter, with its documented behaviour.
-/

namespace GuacServer.EncoderDisplay

open CellMemory DecimalNumerals List

/-- av_image_alloc, which has no result if it fails. Otherwise the size is positive, and there
is memory for all rows, which are a linesize apart. -/
structure ImageAlloc where
  alloc : ℤ→ℤ→Option (ℤ×List UInt8)
  positive : ∀ width height linesize data, alloc width height=some (linesize,data) →
    0<width ∧ 0<height
  linesize : ∀ width height linesize data, alloc width height=some (linesize,data) →
    4*width≤linesize ∧ linesize<2^31
  room : ∀ width height linesize data, alloc width height=some (linesize,data) →
    linesize*height≤data.length

/-- The image data of a buffer. -/
structure ImageData {S C : Type} (buffer : Buffer S C) where
  image : List UInt8
  stride : 4*buffer.width≤buffer.stride
  room : buffer.stride*buffer.height ≤ image.length

/-- AVFrame. -/
structure Frame where
  width : ℤ
  height : ℤ
  linesize : ℤ
  data : List UInt8

/-- memset with zero. -/
def memset (dst count : ℤ) (data : List UInt8) : Option (List UInt8) :=
  if 0≤count then store dst (List.replicate count.toNat 0) data else none

/-- memcpy from an image. -/
def memcpyImage (image : List UInt8) (dst src count : ℤ) (data : List UInt8) :
    Option (List UInt8) :=
  if 0≤count ∧ 0 ≤ src ∧ src+count ≤ image.length then
    store dst ((image.drop src.toNat).take count.toNat) data
  else none

/-- The loop that adds the margin at the top or at the bottom. -/
def addMargin (frameWidth linesize : ℤ) : ℕ→ℤ→List UInt8→Option (ℤ×List UInt8)
  | 0, dst, data => some (dst,data)
  | rows+1, dst, data => do
    let data ← memset dst (wrap32 (frameWidth*4)) data
    addMargin frameWidth linesize rows (dst+linesize) data

/-- The loop that copies the rows of the buffer. -/
def copyRows (left width right stride linesize : ℤ) (image : List UInt8) :
    ℕ→ℤ→ℤ→List UInt8→Option (ℤ×List UInt8)
  | 0, _, dst, data => some (dst,data)
  | height+1, src, dst, data => do
    let leftSize := wrap32 (left*4)
    let dataSize := wrap32 (width*4)
    let rightSize := wrap32 (right*4)
    let data ← memset dst leftSize data
    let data ← memcpyImage image (dst+leftSize) src dataSize data
    let data ← memset (dst+leftSize+dataSize) rightSize data
    copyRows left width right stride linesize image height (src+stride) (dst+linesize) data

/-- guacenc_video_frame_convert on the image data. A failed assertion and an access outside of
the memory have no result. -/
def guacencVideoFrameConvertRows {S C : Type} (imageAlloc : ImageAlloc) (buffer : Buffer S C)
    (pixels : ImageData buffer) (lsize psize : ℤ) : Option (Option Frame) :=
  let frameWidth := wrap32 (wrap32 (buffer.width+psize)+psize)
  let frameHeight := wrap32 (wrap32 (buffer.height+lsize)+lsize)
  match imageAlloc.alloc frameWidth frameHeight with
  | none => some none
  | some (linesize,data) =>
    if buffer.width≤frameWidth ∧ buffer.height≤frameHeight then do
      let (dst,data) ← addMargin frameWidth linesize lsize.toNat 0 data
      let (dst,data) ← copyRows psize buffer.width psize buffer.stride linesize pixels.image
        buffer.height.toNat 0 dst data
      let (_,data) ← addMargin frameWidth linesize lsize.toNat dst data
      some (some ⟨frameWidth,frameHeight,linesize,data⟩)
    else none

/-! ## What a frame is for -/

/-- The bytes of a pixel in memory. -/
def pixelBytes (data : List UInt8) (stride x y : ℤ) : List (Option UInt8) :=
  (List.range 4).map fun k : ℕ => data[(y*stride+4*x+k).toNat]?

/-- A black pixel. -/
def black : List (Option UInt8) := List.replicate 4 (some 0)

variable {S C φ : Type}

/-- The frame has the pixels of the buffer between its margins, and is black elsewhere. -/
structure Frame.Contains (frame : Frame) (buffer : Buffer S C) (pixels : ImageData buffer)
    (lsize psize : ℤ) : Prop where
  width : frame.width=buffer.width+2*psize
  height : frame.height=buffer.height+2*lsize
  pixels : ∀ x y, 0≤x → x<frame.width→0≤y → y<frame.height →
    pixelBytes frame.data frame.linesize x y=
      if (psize≤x ∧ x<psize+buffer.width) ∧ lsize≤y ∧ y<lsize+buffer.height then
        pixelBytes pixels.image buffer.stride (x-psize) (y-lsize)
      else black

/-- Scaled by what makes another dimension fill the destination, a dimension differs from the
destination by less than one pixel or less than two pixels of the buffer. -/
def Undistorted (padded destination other otherDestination : ℤ) : Prop :=
  let scale : ℚ := otherDestination/other
  |padded*scale-destination| < max 1 (2*scale)

/-- The margins fit a buffer to the video. -/
structure MarginsFit (env : Environment S C φ) (buffer : Buffer S C) (lsize psize : ℤ) :
    Prop where
  nonneg : 0≤lsize ∧ 0≤psize
  single : lsize=0 ∨ psize=0
  /-- With pillarboxes it is the height that fills the destination. -/
  pillarboxes : buffer.width*env.videoHeight/buffer.height≤env.videoWidth → lsize=0 ∧
      Undistorted (buffer.width+2*psize) env.videoWidth buffer.height env.videoHeight
  letterboxes : env.videoWidth<buffer.width*env.videoHeight/buffer.height → psize=0 ∧
      Undistorted (buffer.height+2*lsize) env.videoHeight buffer.width env.videoWidth

/-- The buffer is prepared without a failed assertion, and the frame, unless there is no memory
for it, is the buffer with margins that fit. -/
def Letterboxed (env : Environment S C φ) (buffer : Buffer S C) (pixels : ImageData buffer)
    (imageAlloc : ImageAlloc) : Prop :=
  ∃ lsize psize, frameMargins env buffer=.ok (lsize,psize) ∧ MarginsFit env buffer lsize psize ∧
    ∃ frame, guacencVideoFrameConvertRows imageAlloc buffer pixels lsize psize=some frame ∧
      (frame=none ↔ imageAlloc.alloc (wrap32 (buffer.width+2*psize))
        (wrap32 (buffer.height+2*lsize))=none) ∧
      ∀ converted, frame=some converted → converted.Contains buffer pixels lsize psize

/-! ## The margins -/

/-- One of the two margins, given the size of the buffer and of the destination in the padded
dimension and in the other one. -/
def margin (size destination other otherDestination : ℤ) : ℤ :=
  (destination-size*otherDestination/other)*other/otherDestination/2

/-- What scaling a dimension with its margins differs by, without division. -/
theorem margin_bounds {size destination other otherDestination : ℤ} (hother : 0<other)
    (hotherDestination : 0<otherDestination) :
    let padded := size+2*margin size destination other otherDestination
    padded*otherDestination<(destination+1)*other ∧
      destination*other<(padded+2)*otherDestination := by
  unfold margin
  dsimp only
  have hscaled := Int.mul_ediv_add_emod (size*otherDestination) other
  have hscaled0 := Int.emod_nonneg (size*otherDestination) hother.ne'
  have hscaled1 := Int.emod_lt_of_pos (size*otherDestination) hother
  generalize size*otherDestination/other=scaled at *
  have hpadding := Int.mul_ediv_add_emod ((destination-scaled)*other) otherDestination
  have hpadding0 := Int.emod_nonneg ((destination-scaled)*other) hotherDestination.ne'
  have hpadding1 := Int.emod_lt_of_pos ((destination-scaled)*other) hotherDestination
  generalize (destination-scaled)*other/otherDestination=padding at *
  have hhalf : 2*(padding/2)≤padding ∧ padding+1≤2*(padding/2)+2 := by omega
  constructor
  · have hle := mul_le_mul_of_nonneg_right hhalf.1 hotherDestination.le
    linarith
  · have hle := mul_le_mul_of_nonneg_right hhalf.2 hotherDestination.le
    linarith

/-- The padded dimension differs from the destination by little. -/
theorem undistorted_margin {size destination other otherDestination : ℤ} (hother : 0<other)
    (hotherDestination : 0<otherDestination) :
    Undistorted (size+2*margin size destination other otherDestination) destination other
      otherDestination := by
  obtain ⟨hupper,hlower⟩ := @margin_bounds size destination _ _ hother hotherDestination
  generalize size+2*margin size destination other otherDestination=padded at *
  have hpos : (0 : ℚ)<other := by exact_mod_cast hother
  have hupper' : (padded : ℚ)*otherDestination<(destination+1)*other := by
    exact_mod_cast hupper
  have hlower' : (destination : ℚ)*other<(padded+2)*otherDestination := by
    exact_mod_cast hlower
  unfold Undistorted
  dsimp only
  rw [abs_lt]
  constructor
  · have hscale : (destination : ℚ)<(padded+2)*(otherDestination/other) := by
      rwa [mul_div_assoc',lt_div_iff₀ hpos]
    have hmax := le_max_right (1 : ℚ) (2*(otherDestination/other))
    linarith
  · have hscale : (padded : ℚ)*(otherDestination/other)<destination+1 := by
      rwa [mul_div_assoc',div_lt_iff₀ hpos]
    have hmax := le_max_left (1 : ℚ) (2*(otherDestination/other))
    linarith

/-- A dimension is scaled without overflow if the product fits. -/
theorem scaled_eq {size other otherDestination : ℤ} (hsize : 0 ≤ size)
    (hotherDestination : 0≤otherDestination) (hproduct : size*otherDestination<2^31) :
    (wrap32 (size*otherDestination)).tdiv other=size*otherDestination/other := by
  have hnonneg := mul_nonneg hsize hotherDestination
  rw [wrap32_of_range (by omega) hproduct,Int.tdiv_eq_ediv_of_nonneg hnonneg]

section Margins

variable {size destination other otherDestination : ℤ}

/-- The space that is left in a dimension, in pixels of the buffer and of the destination. -/
theorem space_range (hsize : 0 ≤ size) (hother : 0<other) (hotherDestination : 0<otherDestination)
    (hfits : size*otherDestination/other≤destination) :
    0≤(destination-size*otherDestination/other)*other ∧
      (destination-size*otherDestination/other)*other≤destination*other := by
  have hscaled := Int.ediv_nonneg (mul_nonneg hsize hotherDestination.le) hother.le
  constructor
  · exact mul_nonneg (by omega) hother.le
  · exact mul_le_mul_of_nonneg_right (by omega) hother.le

/-- A margin is not negative, and both margins are no wider than the space that is left. -/
theorem margin_range (hsize : 0 ≤ size) (hother : 0<other) (hotherDestination : 0<otherDestination)
    (hfits : size*otherDestination/other≤destination) :
    0 ≤ margin size destination other otherDestination ∧
      2*margin size destination other otherDestination≤destination*other := by
  obtain ⟨hspace,hspace'⟩ := space_range hsize hother hotherDestination hfits
  have hquotient := Int.ediv_nonneg hspace hotherDestination.le
  have hself := Int.ediv_le_self otherDestination hspace
  unfold margin
  omega

/-- The margin is computed without overflow if the product fits. -/
theorem margin_eq (hsize : 0 ≤ size) (hother : 0<other)
    (hotherDestination : 0<otherDestination) (hproduct : destination*other<2^31)
    (hfits : size*otherDestination/other≤destination) :
    ((wrap32 (wrap32 (destination-size*otherDestination/other)*other)).tdiv
      otherDestination).tdiv 2=margin size destination other otherDestination := by
  obtain ⟨hspace,hspace'⟩ := space_range hsize hother hotherDestination hfits
  have hleft : destination-size*otherDestination/other≤
      (destination-size*otherDestination/other)*other :=
    le_mul_of_one_le_right (by omega) hother
  rw [wrap32_of_range (x := destination-_) (by omega) (by omega),
    wrap32_of_range (by omega) (by omega),Int.tdiv_eq_ediv_of_nonneg hspace,
    Int.tdiv_eq_ediv_of_nonneg (Int.ediv_nonneg hspace hotherDestination.le)]
  rfl

end Margins

section Sizes

variable {env : Environment S C φ} {buffer : Buffer S C}

/-- Where the height based width is too great, the width based height fits. -/
theorem scaledHeight_le (hwidth : 0<buffer.width) (hheight : 0<buffer.height)
    (h : env.videoWidth<buffer.width*env.videoHeight/buffer.height) :
    buffer.height*env.videoWidth/buffer.width≤env.videoHeight := by
  have hgreat := (Int.le_ediv_iff_mul_le hheight).mp h
  refine Int.ediv_le_of_le_mul hwidth ?_
  linarith

/-- The margins of guacenc_video_prepare_frame, whose assertion does not fail. -/
theorem frameMargins_eq (hwidth : 0<buffer.width) (hheight : 0<buffer.height)
    (hvideoWidth : 0<env.videoWidth) (hvideoHeight : 0<env.videoHeight)
    (hproduct : buffer.width*env.videoHeight<2^31)
    (hproduct' : buffer.height*env.videoWidth<2^31) :
    frameMargins env buffer=.ok (if buffer.width*env.videoHeight/buffer.height≤env.videoWidth then
        (0,margin buffer.width env.videoWidth buffer.height env.videoHeight)
      else (margin buffer.height env.videoHeight buffer.width env.videoWidth,0)) := by
  unfold frameMargins
  dsimp only
  rw [scaled_eq hwidth.le hvideoHeight.le hproduct,scaled_eq hheight.le hvideoWidth.le hproduct']
  split_ifs with hpillar hletter
  · rw [margin_eq hwidth.le hheight hvideoHeight (by linarith) hpillar]
  · rw [margin_eq hheight.le hwidth hvideoWidth (by linarith) hletter]
  · exact absurd (scaledHeight_le hwidth hheight (not_le.mp hpillar)) hletter

/-- The margins fit. -/
theorem marginsFit (hwidth : 0<buffer.width) (hheight : 0<buffer.height)
    (hvideoWidth : 0<env.videoWidth) (hvideoHeight : 0<env.videoHeight)
    {lsize psize : ℤ} (hmargins : (lsize,psize)=
      if buffer.width*env.videoHeight/buffer.height≤env.videoWidth then
        (0,margin buffer.width env.videoWidth buffer.height env.videoHeight)
      else (margin buffer.height env.videoHeight buffer.width env.videoWidth,0)) :
    MarginsFit env buffer lsize psize := by
  split_ifs at hmargins with hpillar
  · cases hmargins
    have hnonneg := (margin_range hwidth.le hheight hvideoHeight hpillar).1
    exact ⟨⟨le_rfl,hnonneg⟩,Or.inl rfl,fun _ => ⟨rfl,undistorted_margin hheight hvideoHeight⟩,
      fun hletter => absurd hpillar (not_le.mpr hletter)⟩
  · cases hmargins
    have hletter := scaledHeight_le hwidth hheight (not_le.mp hpillar)
    have hnonneg := (margin_range hheight.le hwidth hvideoWidth hletter).1
    exact ⟨⟨hnonneg,le_rfl⟩,Or.inr rfl,fun hfits => absurd hfits hpillar,
      fun _ => ⟨rfl,undistorted_margin hwidth hvideoWidth⟩⟩

end Sizes

/-! ## The rows -/

/-- The row of a frame that has a row of the buffer between its margins. -/
def bufferRow (padding width : ℕ) (image : List UInt8) (src : ℕ) : List UInt8 :=
  List.replicate (4*padding) 0++((image.drop src).take (4*width)++List.replicate (4*padding) 0)

/-- What such a row has at a pixel. -/
theorem bufferRow_getElem? {padding width src x k : ℕ} {image : List UInt8}
    (hx : x<width+2*padding) (hk : k<4) (hsrc : src+4*width ≤ image.length) :
    (bufferRow padding width image src).length=4*(width+2*padding) ∧
      (bufferRow padding width image src)[4*x+k]?=
        if padding≤x ∧ x<padding+width then image[src+4*(x-padding)+k]?
        else some 0 := by
  have hmargin : (List.replicate (4*padding) (0 : UInt8)).length=4*padding := length_replicate
  have hrow : ((image.drop src).take (4*width)).length=4*width := by
    rw [length_take,length_drop]
    omega
  unfold bufferRow
  constructor
  · rw [length_append,length_append,hmargin,hrow]
    omega
  rcases Nat.lt_or_ge x padding with hleft | hright
  · rw [List.getElem?_append_left (by omega),List.getElem?_replicate,if_pos (by omega),
      if_neg (by omega)]
  rw [List.getElem?_append_right (by omega),hmargin]
  rcases Nat.lt_or_ge x (padding+width) with hinside | hright
  · rw [List.getElem?_append_left (by omega),List.getElem?_take_of_lt (by omega),
      List.getElem?_drop,if_pos (by omega)]
    congr 1
    omega
  · rw [List.getElem?_append_right (by omega),hrow,List.getElem?_replicate,if_pos (by omega),
      if_neg (by omega)]

/-- All rows of a frame. -/
def frameRows (lsize psize width height stride : ℕ) (image : List UInt8) : List (List UInt8) :=
  List.replicate lsize (List.replicate (4*(width+2*psize)) 0)++
    ((List.range height).map (fun y => bufferRow psize width image (y*stride))++
      List.replicate lsize (List.replicate (4*(width+2*psize)) 0))

section Rows

variable {lsize psize width height stride linesize : ℕ} {image data : List UInt8}

theorem memset_eq {n : ℕ} (h : 4*n<2^31) (dst : ℤ) :
    memset dst (wrap32 (n*4)) data=store dst (List.replicate (4*n) 0) data := by
  rw [wrap32_of_range (by omega) (by omega),memset,if_pos (by omega)]
  congr 2
  omega

/-- A margin is rows of zeros. -/
theorem addMargin_eq (hwidth : 4*width<2^31) (rows dst : ℕ) :
    addMargin width linesize rows dst data=
      (storeRows linesize dst (List.replicate rows (List.replicate (4*width) 0)) data).map
        fun data => (((dst+rows*linesize : ℕ) : ℤ),data) := by
  induction rows generalizing dst data with
  | zero => simp [addMargin,storeRows]
  | succ rows ih =>
    have hnext : dst+(rows+1)*linesize=dst+linesize+rows*linesize := by
      rw [Nat.succ_mul]
      omega
    rw [addMargin,memset_eq hwidth,replicate_succ,storeRows_cons,hnext,
      Option.bind_eq_bind,Option.map_bind]
    exact congrArg _ (funext fun data => ih (dst+linesize))

/-- A row is the zeros of the margins and the data between them. -/
theorem copyRow_eq {src dst : ℕ} (hfits : 4*(width+2*psize)<2^31)
    (hsrc : src+4*width ≤ image.length) :
    (do
      let data ← memset dst (wrap32 (psize*4)) data
      let data ← memcpyImage image (dst+wrap32 (psize*4)) src (wrap32 (width*4)) data
      memset (dst+wrap32 (psize*4)+wrap32 (width*4)) (wrap32 (psize*4)) data)=
      store dst (bufferRow psize width image src) data := by
  have hmargin : (List.replicate (4*psize) (0 : UInt8)).length=4*psize := length_replicate
  have hrow : ((image.drop src).take (4*width)).length=4*width := by
    rw [length_take,length_drop]
    omega
  have hcopied : ∀ data : List UInt8,
      memcpyImage image (dst+wrap32 (psize*4)) src (wrap32 (width*4)) data=
        store (dst+4*psize : ℕ) ((image.drop src).take (4*width)) data := by
    intro data
    rw [wrap32_of_range (by omega) (by omega),wrap32_of_range (by omega) (by omega),memcpyImage,
      if_pos ⟨by omega,by omega,by omega⟩,Int.toNat_natCast]
    congr 2
    · omega
    · omega
  have hbehind : ∀ data : List UInt8,
      memset (dst+wrap32 (psize*4)+wrap32 (width*4)) (wrap32 (psize*4)) data=
        store (dst+4*psize+4*width : ℕ) (List.replicate (4*psize) 0) data := by
    intro data
    rw [memset_eq (by omega),wrap32_of_range (by omega) (by omega),
      wrap32_of_range (by omega) (by omega)]
    congr 1
    omega
  rw [memset_eq (by omega),bufferRow,←store_append,hmargin,Option.bind_eq_bind]
  refine congrArg _ (funext fun data => ?_)
  rw [hcopied,←store_append,hrow]
  exact congrArg _ (funext hbehind)

/-- The rows of the buffer are copied one after the other. -/
theorem copyRows_eq (hfits : 4*(width+2*psize)<2^31) (hstride : 4*width ≤ stride)
    (rows src dst : ℕ) (himage : src+rows*stride ≤ image.length) :
    copyRows psize width psize stride linesize image rows src dst data=(storeRows linesize dst
        ((List.range rows).map fun y => bufferRow psize width image (src+y*stride)) data).map
        fun data => (((dst+rows*linesize : ℕ) : ℤ),data) := by
  induction rows generalizing src dst data with
  | zero => simp [copyRows,storeRows]
  | succ rows ih =>
    have hnext : dst+(rows+1)*linesize=dst+linesize+rows*linesize := by
      rw [Nat.succ_mul]
      omega
    rw [Nat.succ_mul] at himage
    have hrows : (fun y => bufferRow psize width image (src+y*stride)) ∘ Nat.succ=
        fun y => bufferRow psize width image (src+stride+y*stride) := by
      funext y
      rw [Function.comp_apply,Nat.succ_mul,Nat.add_comm (y*stride),Nat.add_assoc]
    rw [range_succ_eq_map,map_cons,map_map,hrows,storeRows_cons,hnext,
      Nat.zero_mul,Nat.add_zero,←copyRow_eq hfits (by omega),Option.map_bind]
    have hrest : copyRows psize width psize stride linesize image rows (src+stride)
        (dst+linesize)=fun data => _ :=
      funext fun data => @ih data (src+stride) (dst+linesize) (by omega)
    rw [copyRows,hrest]
    simp only [Option.bind_eq_bind,Option.bind_assoc]
    rfl

/-- The three loops store the rows of the frame. -/
theorem convert_eq (hfits : 4*(width+2*psize)<2^31) (hstride : 4*width ≤ stride)
    (himage : height*stride ≤ image.length) :
    (do
      let (dst,data) ← addMargin (width+2*psize : ℕ) linesize lsize 0 data
      let (dst,data) ← copyRows psize width psize stride linesize image height 0 dst data
      addMargin (width+2*psize : ℕ) linesize lsize dst data)=
      (storeRows linesize 0 (frameRows lsize psize width height stride image) data).map fun data =>
          (((lsize*linesize+height*linesize+lsize*linesize : ℕ) : ℤ),data) := by
  have hrows : (List.range height).map (fun y => bufferRow psize width image (0+y*stride))=
      (List.range height).map fun y => bufferRow psize width image (y*stride) := by
    simp only [Nat.zero_add]
  have hlength : ((List.range height).map
      fun y => bufferRow psize width image (y*stride)).length=height := by
    rw [length_map,length_range]
  have hcopied := fun dst data => @copyRows_eq psize width stride linesize image data hfits hstride
    height 0 dst (by omega)
  have htop := @addMargin_eq (width+2*psize) linesize data hfits lsize 0
  have hbottom := fun dst data =>
    @addMargin_eq (width+2*psize) linesize data hfits lsize dst
  rw [hrows] at hcopied
  rw [Nat.cast_zero] at hcopied htop
  rw [Nat.zero_add] at htop
  unfold frameRows
  simp only [htop,storeRows_append,hlength,length_replicate,Nat.zero_add,
    Option.bind_eq_bind,Option.bind_map,Option.map_bind,Function.comp_def,hcopied,hbottom]

/-- A row of a frame, and what it has at a pixel. -/
theorem frameRows_getElem? {x y k : ℕ} (hx : x<width+2*psize) (hy : y<height+2*lsize)
    (hk : k<4) (hstride : 4*width ≤ stride) (himage : height*stride ≤ image.length) :
    ∃ row, (frameRows lsize psize width height stride image)[y]? = some row ∧
      row.length=4*(width+2*psize) ∧
      row[4*x+k]?=if (psize≤x ∧ x<psize+width) ∧ lsize≤y ∧ y<lsize+height then
          image[(y-lsize)*stride+4*(x-psize)+k]?
        else some 0 := by
  have hblack : (List.replicate (4*(width+2*psize)) (0 : UInt8))[4*x+k]? = some 0 := by
    rw [List.getElem?_replicate,if_pos (by omega)]
  have hmargin : (List.replicate lsize
      (List.replicate (4*(width+2*psize)) (0 : UInt8))).length=lsize :=
    length_replicate
  have hrows : ((List.range height).map
      fun y => bufferRow psize width image (y*stride)).length=height := by
    rw [length_map,length_range]
  unfold frameRows
  rcases Nat.lt_or_ge y lsize with htop | hbelow
  · rw [List.getElem?_append_left (by omega),List.getElem?_replicate,if_pos htop,if_neg (by omega)]
    exact ⟨_,rfl,length_replicate,hblack⟩
  rw [List.getElem?_append_right (by omega),hmargin]
  rcases Nat.lt_or_ge y (lsize+height) with hinside | hbottom
  · have hrange : y-lsize<height := by omega
    have hsrc : (y-lsize)*stride+4*width ≤ image.length := by
      have hle := Nat.mul_le_mul_right stride hrange
      rw [Nat.succ_mul] at hle
      omega
    obtain ⟨hlength,hpixel⟩ := bufferRow_getElem? hx hk hsrc
    rw [List.getElem?_append_left (by omega),List.getElem?_map,List.getElem?_range hrange]
    refine ⟨_,rfl,hlength,?_⟩
    rw [hpixel]
    simp only [hbelow,hinside,and_self,and_true]
  · rw [List.getElem?_append_right (by omega),hrows,List.getElem?_replicate,
      if_pos (by omega),if_neg (by omega)]
    exact ⟨_,rfl,length_replicate,hblack⟩

theorem length_frameRows :
    (frameRows lsize psize width height stride image).length=height+2*lsize := by
  unfold frameRows
  rw [length_append,length_append,length_replicate,length_map,length_range]
  omega

/-- All rows of a frame are as long as it is wide. -/
theorem length_of_mem_frameRows (hwidth : 0<width) (hstride : 4*width ≤ stride)
    (himage : height*stride ≤ image.length) {row : List UInt8}
    (hrow : row∈frameRows lsize psize width height stride image) :
    row.length=4*(width+2*psize) := by
  obtain ⟨y,hy⟩ := mem_iff_getElem?.mp hrow
  have hlt := (List.getElem?_eq_some_iff.mp hy).1
  rw [length_frameRows] at hlt
  obtain ⟨same,hsame,hlength,-⟩ := @frameRows_getElem? lsize psize width height stride image
    0 y 0 (by omega) hlt (by omega) hstride himage
  rw [hy] at hsame
  cases hsame
  exact hlength

/-- Where there is room for all rows, the three loops store them. -/
theorem convert_of_room (hwidth : 0<width) (hfits : 4*(width+2*psize)<2^31)
    (hstride : 4*width ≤ stride) (himage : height*stride ≤ image.length)
    (hline : 4*(width+2*psize)≤linesize)
    (hroom : linesize*(height+2*lsize)≤data.length) :
    ∃ top copied bottom : ℤ×List UInt8,
      addMargin (width+2*psize : ℕ) linesize lsize 0 data=some top ∧
      copyRows psize width psize stride linesize image height 0 top.1 top.2=some copied ∧
      addMargin (width+2*psize : ℕ) linesize lsize copied.1 copied.2=some bottom ∧
      ∀ (y : ℕ) (row : List UInt8),
        (frameRows lsize psize width height stride image)[y]? = some row →
          ∀ x<row.length, bottom.2[y*linesize+x]? = row[x]? := by
  have hrows : ∀ row∈frameRows lsize psize width height stride image, row.length≤linesize :=
    fun row hrow => (length_of_mem_frameRows hwidth hstride himage hrow).trans_le hline
  have hsize : 0+(frameRows lsize psize width height stride image).length*linesize≤data.length := by
    rw [length_frameRows,mul_comm]
    omega
  obtain ⟨stored,hstored,-,-,hcell⟩ := storeRows_of_room hrows hsize
  have hloops := @convert_eq lsize psize width height stride linesize image data hfits hstride
    himage
  rw [hstored] at hloops
  obtain ⟨top,htop,hloops⟩ := Option.bind_eq_some_iff.mp hloops
  obtain ⟨copied,hcopied,hbottom⟩ := Option.bind_eq_some_iff.mp hloops
  refine ⟨top,copied,_,htop,hcopied,hbottom,fun y row hrow x hx => ?_⟩
  have hsame := hcell y row hrow x hx
  rwa [Nat.zero_add] at hsame

end Rows

/-! ## The frame -/

variable {buffer : Buffer S C} {pixels : ImageData buffer} {imageAlloc : ImageAlloc}
variable {lsize psize : ℤ}

theorem pixelBytes_eq {data : List UInt8} {stride x y : ℕ} :
    pixelBytes data stride x y=(List.range 4).map fun k => data[y*stride+(4*x+k)]? := by
  unfold pixelBytes
  refine map_congr_left fun k _ => ?_
  have hplace : ((y : ℤ)*stride+4*x+k).toNat=y*stride+(4*x+k) := by
    have hcast : (y : ℤ)*stride+4*x+k=((y*stride+(4*x+k) : ℕ) : ℤ) := by
      push_cast
      ring
    rw [hcast,Int.toNat_natCast]
  rw [hplace]

/-- Rows that are those of a frame make one. -/
theorem contains_of_rows {width height stride linesize lsize psize : ℕ} {data : List UInt8}
    (hwidth : buffer.width=width) (hheight : buffer.height=height)
    (hbuffer : buffer.stride=stride)
    (hrows : ∀ (y : ℕ) (row : List UInt8),
      (frameRows lsize psize width height stride pixels.image)[y]? = some row →
        ∀ x<row.length, data[y*linesize+x]? = row[x]?) :
    Frame.Contains ⟨(width+2*psize : ℕ),(height+2*lsize : ℕ),linesize,data⟩ buffer
      pixels lsize psize := by
  have hstride := pixels.stride
  have himage := pixels.room
  rw [hwidth,hbuffer] at hstride
  rw [hheight,hbuffer,mul_comm] at himage
  norm_cast at himage
  constructor
  · dsimp only
    omega
  · dsimp only
    omega
  · intro x y hx hx' hy hy'
    dsimp only at hx' hy' ⊢
    obtain ⟨x,rfl⟩ := Int.eq_ofNat_of_zero_le hx
    obtain ⟨y,rfl⟩ := Int.eq_ofNat_of_zero_le hy
    have hpixel : ∀ k<4, data[y*linesize+(4*x+k)]?=
        if (psize≤x ∧ x<psize+width) ∧ lsize≤y ∧ y<lsize+height then
          pixels.image[(y-lsize)*stride+(4*(x-psize)+k)]?
        else some 0 := by
      intro k hk
      obtain ⟨row,hrow,hlength,hcell⟩ := @frameRows_getElem? lsize psize width height stride
        pixels.image x y k (by omega) (by omega) hk (by omega) himage
      rw [hrows y row hrow _ (by omega),hcell]
      split_ifs with hinside
      · congr 1
        omega
      · rfl
    rw [pixelBytes_eq,hwidth,hheight,hbuffer]
    by_cases hinside : (psize≤x ∧ x<psize+width) ∧ lsize≤y ∧ y<lsize+height
    · rw [if_pos (by omega),←Int.ofNat_sub hinside.1.1,←Int.ofNat_sub hinside.2.1,pixelBytes_eq]
      refine map_congr_left fun k hk => ?_
      rw [hpixel k (mem_range.mp hk),if_pos hinside]
    · rw [if_neg (by omega)]
      refine eq_replicate_iff.mpr ⟨rfl,fun cell hcell => ?_⟩
      obtain ⟨k,hk,rfl⟩ := mem_map.mp hcell
      rw [hpixel k (mem_range.mp hk),if_neg hinside]

/-- A frame that is allocated has room for all rows, and contains the buffer. -/
theorem convertRows_of_alloc (hwidth : 0<buffer.width) (hheight : 0<buffer.height)
    (hlsize : 0≤lsize) (hpsize : 0≤psize) {linesize : ℤ} {data : List UInt8}
    (hframeWidth : wrap32 (wrap32 (buffer.width+psize)+psize)=buffer.width+2*psize)
    (hframeHeight : wrap32 (wrap32 (buffer.height+lsize)+lsize)=buffer.height+2*lsize)
    (halloc : imageAlloc.alloc (buffer.width+2*psize) (buffer.height+2*lsize)=
      some (linesize,data)) :
    ∃ converted, guacencVideoFrameConvertRows imageAlloc buffer pixels lsize psize=
      some (some converted) ∧ converted.Contains buffer pixels lsize psize := by
  obtain ⟨hline,hint⟩ := imageAlloc.linesize _ _ _ _ halloc
  have hroom := imageAlloc.room _ _ _ _ halloc
  have hstride := pixels.stride
  have himage := pixels.room
  unfold guacencVideoFrameConvertRows
  dsimp only
  rw [hframeWidth,hframeHeight,halloc]
  dsimp only
  rw [if_pos ⟨by omega,by omega⟩]
  obtain ⟨width,hwidth'⟩ := Int.eq_ofNat_of_zero_le hwidth.le
  obtain ⟨height,hheight'⟩ := Int.eq_ofNat_of_zero_le hheight.le
  obtain ⟨lsize,rfl⟩ := Int.eq_ofNat_of_zero_le hlsize
  obtain ⟨psize,rfl⟩ := Int.eq_ofNat_of_zero_le hpsize
  obtain ⟨linesize,rfl⟩ := Int.eq_ofNat_of_zero_le (by omega : 0≤linesize)
  obtain ⟨stride,hstride'⟩ := Int.eq_ofNat_of_zero_le (by omega : 0≤buffer.stride)
  rw [hheight'] at hroom
  rw [hwidth'] at hline
  rw [hheight',hstride',mul_comm] at himage
  rw [hwidth',hstride'] at hstride
  have hroom' : linesize*(height+2*lsize)≤data.length := by exact_mod_cast hroom
  have himage' : height*stride≤pixels.image.length := by exact_mod_cast himage
  obtain ⟨top,copied,bottom,htop,hcopied,hbottom,hrows⟩ :=
    @convert_of_room lsize psize width height stride linesize pixels.image data (by omega)
      (by omega) (by omega) himage' (by omega) hroom'
  have hframeWidth' : buffer.width+2*(psize : ℤ)=(width+2*psize : ℕ) := by omega
  have hframeHeight' : buffer.height+2*(lsize : ℤ)=(height+2*lsize : ℕ) := by omega
  rw [hframeWidth',hframeHeight',hwidth',hheight',hstride',Int.toNat_natCast,
    Int.toNat_natCast,htop,Option.bind_eq_bind,Option.bind_some,hcopied,Option.bind_some,hbottom]
  exact ⟨_,rfl,contains_of_rows hwidth' hheight' hstride' hrows⟩

theorem wrap32_add_twice (size margin : ℤ) :
    wrap32 (wrap32 (size+margin)+margin)=wrap32 (size+2*margin) := by
  unfold wrap32
  rw [Int.bmod_add_bmod,two_mul,add_assoc]

/-- A dimension of the frame is positive only if it did not overflow. -/
theorem frameSize_of_pos {size margin : ℤ} (hsize : 0 ≤ size) (hsize' : size<2^31)
    (hmargin : 0 ≤ margin) (hmargin' : 2*margin<2^31)
    (hpos : 0<wrap32 (wrap32 (size+margin)+margin)) :
    wrap32 (wrap32 (size+margin)+margin)=size+2*margin := by
  rw [wrap32_add_twice] at hpos ⊢
  unfold wrap32 at hpos ⊢
  rw [Int.bmod_def] at hpos ⊢
  split_ifs at hpos ⊢ <;> omega

/-- Buffers are letterboxed without distortion, if the products of the sizes do not overflow. -/
theorem letterboxed (env : Environment S C φ) (buffer : Buffer S C) (pixels : ImageData buffer)
    (imageAlloc : ImageAlloc) (hwidth : 0<buffer.width) (hheight : 0<buffer.height)
    (hvideoWidth : 0<env.videoWidth) (hvideoHeight : 0<env.videoHeight)
    (hproduct : buffer.width*env.videoHeight<2^31)
    (hproduct' : buffer.height*env.videoWidth<2^31) :
    Letterboxed env buffer pixels imageAlloc := by
  obtain ⟨⟨lsize,psize⟩,hmargins⟩ : ∃ margins : ℤ×ℤ, margins=
      if buffer.width*env.videoHeight/buffer.height≤env.videoWidth then
        (0,margin buffer.width env.videoWidth buffer.height env.videoHeight)
      else (margin buffer.height env.videoHeight buffer.width env.videoWidth,0) := ⟨_,rfl⟩
  have hprepared := frameMargins_eq hwidth hheight hvideoWidth hvideoHeight hproduct hproduct'
  have hfit := marginsFit hwidth hheight hvideoWidth hvideoHeight hmargins
  rw [←hmargins] at hprepared
  have hrange : 2*lsize<2^31 ∧ 2*psize<2^31 := by
    split_ifs at hmargins with hpillar
    · cases hmargins
      have hspace := (margin_range hwidth.le hheight hvideoHeight hpillar).2
      exact ⟨by omega,by linarith⟩
    · cases hmargins
      have hletter := scaledHeight_le hwidth hheight (not_le.mp hpillar)
      have hspace := (margin_range hheight.le hwidth hvideoWidth hletter).2
      exact ⟨by linarith,by omega⟩
  have hwidth' : buffer.width<2^31 :=
    (le_mul_of_one_le_right hwidth.le hvideoHeight).trans_lt hproduct
  have hheight' : buffer.height<2^31 :=
    (le_mul_of_one_le_right hheight.le hvideoWidth).trans_lt hproduct'
  refine ⟨lsize,psize,hprepared,hfit,?_⟩
  rw [←wrap32_add_twice,←wrap32_add_twice]
  cases halloc : imageAlloc.alloc (wrap32 (wrap32 (buffer.width+psize)+psize))
      (wrap32 (wrap32 (buffer.height+lsize)+lsize)) with
  | none =>
    refine ⟨none,?_,iff_of_true rfl rfl,fun converted hconverted => by cases hconverted⟩
    unfold guacencVideoFrameConvertRows
    dsimp only
    rw [halloc]
  | some memory =>
    obtain ⟨hpos,hpos'⟩ := imageAlloc.positive _ _ _ _ halloc
    have hframeWidth := frameSize_of_pos hwidth.le hwidth' hfit.nonneg.2 hrange.2 hpos
    have hframeHeight := frameSize_of_pos hheight.le hheight' hfit.nonneg.1 hrange.1 hpos'
    rw [hframeWidth,hframeHeight] at halloc
    obtain ⟨converted,hconverted,hcontains⟩ := @convertRows_of_alloc _ _ buffer pixels imageAlloc
      _ _ hwidth hheight hfit.nonneg.1 hfit.nonneg.2 _ _ hframeWidth hframeHeight halloc
    refine ⟨some converted,hconverted,by simp,fun same hsame => ?_⟩
    cases hsame
    exact hcontains

/-- Where the rows are converted, the conversion that the display is prepared with does not fail
either, and gives the surface between the same margins unless there is no memory. -/
theorem frameConvert_rows {env : Environment S C φ} (himage : buffer.image=true)
    (halloc : ∀ width height, env.imageAlloc width height=(imageAlloc.alloc width height).isSome)
    (surface : S) {frame : Option Frame}
    (h : guacencVideoFrameConvertRows imageAlloc buffer pixels lsize psize=some frame) :
    guacencVideoFrameConvert env buffer surface lsize psize=
      .ok (frame.bind fun _ => env.convert surface lsize psize) := by
  unfold guacencVideoFrameConvertRows at h
  unfold guacencVideoFrameConvert
  dsimp only at h ⊢
  rw [halloc]
  generalize imageAlloc.alloc (wrap32 (wrap32 (buffer.width+psize)+psize))
    (wrap32 (wrap32 (buffer.height+lsize)+lsize))=memory at h
  cases memory with
  | none =>
    cases h
    rfl
  | some memory =>
    dsimp only at h
    split_ifs at h with hfits
    obtain ⟨top,-,h⟩ := Option.bind_eq_some_iff.mp h
    obtain ⟨copied,-,h⟩ := Option.bind_eq_some_iff.mp h
    obtain ⟨bottom,-,h⟩ := Option.bind_eq_some_iff.mp h
    cases h
    have hassertion : ¬(wrap32 (wrap32 (buffer.width+psize)+psize)<buffer.width ∨
        wrap32 (wrap32 (buffer.height+lsize)+lsize)<buffer.height) := by omega
    have hpointer : ¬(0<buffer.height ∧ wrap32 (buffer.width*4)≠0 ∧ buffer.image=false) :=
      fun hnull => Bool.false_ne_true (hnull.2.2.symm.trans himage)
    rw [Option.isSome_some,if_neg (by decide),if_neg hassertion,if_neg hpointer]
    rfl

/-- A buffer with an image is prepared with the margins that fit. -/
theorem preparedFrame_letterboxed {env : Environment S C φ} {surface : S}
    (hsurface : buffer.surface=some surface) (himage : buffer.image=true)
    (halloc : ∀ width height, env.imageAlloc width height=(imageAlloc.alloc width height).isSome)
    (h : Letterboxed env buffer pixels imageAlloc) :
    ∃ lsize psize frame, MarginsFit env buffer lsize psize ∧
      guacencVideoFrameConvertRows imageAlloc buffer pixels lsize psize=some frame ∧
      preparedFrame env buffer=.ok (frame.bind fun _ => env.convert surface lsize psize) := by
  obtain ⟨lsize,psize,hmargins,hfit,frame,hrows,-⟩ := h
  refine ⟨lsize,psize,frame,hfit,hrows,?_⟩
  unfold preparedFrame
  rw [hsurface,hmargins]
  exact frameConvert_rows himage halloc surface hrows

/-- A buffer of six white pixels in a column. -/
def whiteColumn : Buffer Unit Unit := ⟨false,1,6,4,true,some (),some ()⟩

/-- Its image data. -/
def whiteColumnData : ImageData whiteColumn := ⟨List.replicate 24 255,by decide,by decide⟩

/-- An allocation of rows that are aligned to 32 bytes. -/
def alignedAlloc : ImageAlloc where
  alloc width height :=
    if 0<width ∧ 0<height ∧ (4*width+31)/32*32<2^31 then
      some ((4*width+31)/32*32,List.replicate ((4*width+31)/32*32*height).toNat 255)
    else none
  positive := by
    intro width height linesize data h
    split_ifs at h with hsize
    exact ⟨hsize.1,hsize.2.1⟩
  linesize := by
    intro width height linesize data h
    split_ifs at h with hsize
    cases h
    exact ⟨by omega,hsize.2.2⟩
  room := by
    intro width height linesize data h
    split_ifs at h with hsize
    cases h
    rw [length_replicate]
    exact Int.self_le_toNat _

/-- A column of pixels in a video of 640 by 480, with three black pixels on either side. -/
theorem letterboxed_whiteColumn : frameMargins (Environment.blind 1024) whiteColumn=.ok (0,3) ∧
      Letterboxed (Environment.blind 1024) whiteColumn whiteColumnData alignedAlloc :=
  ⟨by decide,letterboxed _ _ _ _ (by decide) (by decide) (by decide) (by decide) (by decide)
    (by decide)⟩

end GuacServer.EncoderDisplay
