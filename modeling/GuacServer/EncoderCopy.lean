import GuacServer.EncoderCursor

/-!
# Copies

A copy instruction fills a rectangle of its destination from another buffer, or from a temporary
surface if that is the same buffer. All instructions that draw on a buffer share its context, so
that rectangles that were added to its path before are filled by the copy as well.
-/

namespace GuacServer.EncoderDisplay

open DecimalNumerals StateRuns UserHandlers Unicode Function

variable {P φ : Type}

/-- The arguments of a copy instruction, apart from the indices of the buffers. -/
structure CopyOf where
  sx : ℤ
  sy : ℤ
  width : ℤ
  height : ℤ
  mask : ℤ
  dx : ℤ
  dy : ℤ

/-- The arguments in argv. -/
def copyOf (argv : List (List UInt8)) : CopyOf :=
  ⟨int argv 1,int argv 2,int argv 3,int argv 4,int argv 5,int argv 7,int argv 8⟩

namespace CopyOf

def operator (copy : CopyOf) : CairoOperator := guacencDisplayCairoOperator copy.mask

/-- The pixels of the rectangle that is copied to. -/
def covers (copy : CopyOf) (i j : ℤ) : Bool :=
  inRectangle copy.dx copy.dy copy.width copy.height i j

/-- The width of the destination once it has been expanded. -/
def grownWidth {S C : Type} (copy : CopyOf) (dst : Buffer S C) : ℤ :=
  if dst.autosize then fitSize dst.width (wrap32 (copy.dx+copy.width)) else dst.width

/-- The height of the destination once it has been expanded. -/
def grownHeight {S C : Type} (copy : CopyOf) (dst : Buffer S C) : ℤ :=
  if dst.autosize then fitSize dst.height (wrap32 (copy.dy+copy.height)) else dst.height

/-- The pixels of the expanded destination. -/
def onSurface {S C : Type} (copy : CopyOf) (dst : Buffer S C) (i j : ℤ) : Bool :=
  inRectangle 0 0 (copy.grownWidth dst) (copy.grownHeight dst) i j

/-- What the destination is to show: in the rectangle, the source is combined with what was
shown, and elsewhere nothing changes. -/
def wanted (copy : CopyOf) (blending : Blending P) (src dst : Buffer (Picture P) (PathContext P))
    (i j : ℤ) : P :=
  if copy.onSurface dst i j && copy.covers i j then
    blending.combine copy.operator (blending.shown src (copy.sx+(i-copy.dx)) (copy.sy+(j-copy.dy)))
      (blending.shown dst i j)
  else blending.shown dst i j

end CopyOf

/-- A copy instruction with two buffers changes their destination only, which may grow, and there
the rectangle only. An incomplete one and one without two buffers change nothing. -/
def CopiesRectangle (env : Environment (Picture P) (PathContext P) φ) (blending : Blending P)
    (memory : Memory) (argv : List (List UInt8))
    (display : Display (Picture P) (PathContext P) φ) : Prop :=
  ∃ result display', guacencHandleCopy env memory argv display=.ok (result,display') ∧
    if argv.length<9 then display' = display
    else
      match nameOf (int argv 0), nameOf (int argv 6) with
      | some src, some dst =>
        (∀ name, name≠dst → display'.bufferAt name=display.bufferAt name) ∧
        (display'.bufferAt dst).width=(copyOf argv).grownWidth (display.bufferAt dst) ∧
        (display'.bufferAt dst).height=(copyOf argv).grownHeight (display.bufferAt dst) ∧
        ∀ i j, blending.shown (display'.bufferAt dst) i j=
          (copyOf argv).wanted blending (display.bufferAt src) (display.bufferAt dst) i j
      | _, _ => display'.bufferAt=display.bufferAt

/-! ## When it does -/

namespace CopyOf

/-- Whether the destination is drawn on: both buffers have surfaces, Cairo supports their sizes
and that of a temporary surface, and the context has not failed. -/
def Draws (copy : CopyOf) (same : Bool) (src dst : Buffer (Picture P) (PathContext P)) : Prop :=
  dst.Accepts (copy.grownWidth dst) (copy.grownHeight dst) ∧
    if same then Supported copy.width copy.height
    else ∃ picture, src.surface=some picture ∧ picture.Valid

/-- How often the path of the destination winds around a pixel before the copy. A context that
is made for another size has no path. -/
def pending (copy : CopyOf) (dst : Buffer (Picture P) (PathContext P)) (i j : ℤ) : ℤ :=
  if dst.width=copy.grownWidth dst ∧ dst.height=copy.grownHeight dst then
    dst.cairo.elim 0 fun cairo => cairo.winding i j
  else 0

/-- The pixels that are filled. -/
def fills (copy : CopyOf) (dst : Buffer (Picture P) (PathContext P)) (i j : ℤ) : Prop :=
  copy.pending dst i j+rectangleWinding copy.dx copy.dy copy.width copy.height i j≠0

instance (copy : CopyOf) (dst : Buffer (Picture P) (PathContext P)) (i j : ℤ) :
    Decidable (copy.fills dst i j) :=
  inferInstanceAs (Decidable (_ ≠ _))

/-- What is filled in beyond the rectangle. A temporary surface has nothing there. -/
def beyond (copy : CopyOf) (blending : Blending P) (same : Bool)
    (src : Buffer (Picture P) (PathContext P)) (i j : ℤ) : P :=
  if same then blending.clear
  else blending.shown src (i-wrap32 (copy.dx-copy.sx)) (j-wrap32 (copy.dy-copy.sy))

/-- What the destination shows once it is drawn on. -/
def drawnPixel (copy : CopyOf) (blending : Blending P) (same : Bool)
    (src dst : Buffer (Picture P) (PathContext P)) (i j : ℤ) : P :=
  if copy.fills dst i j then
    blending.combine copy.operator (if copy.covers i j then
        blending.shown src (copy.sx+(i-copy.dx)) (copy.sy+(j-copy.dy))
      else copy.beyond blending same src i j)
      (blending.shown dst i j)
  else if copy.operator.bounded then blending.shown dst i j
  else blending.clear

/-- If the destination is drawn on, the rectangle is what is filled and the operator clears
nothing around it, as far as this makes a difference. If not, what the destination shows once it
has been expanded is what it is to show. -/
structure Clean (copy : CopyOf) (blending : Blending P) (same : Bool)
    (src dst : Buffer (Picture P) (PathContext P)) : Prop where
  beyond : copy.Draws same src dst→∀ i j, copy.onSurface dst i j=true →
    copy.covers i j=false → copy.fills dst i j →
      blending.combine copy.operator (copy.beyond blending same src i j)
        (blending.shown dst i j)=blending.shown dst i j
  around : copy.Draws same src dst→∀ i j, copy.onSurface dst i j=true →
    copy.covers i j=false→¬copy.fills dst i j → copy.operator.bounded=false →
      blending.clear=blending.shown dst i j
  spared : copy.Draws same src dst→∀ i j, copy.onSurface dst i j=true →
    copy.covers i j=true→¬copy.fills dst i j →
      (if copy.operator.bounded then blending.shown dst i j else blending.clear)=
        copy.wanted blending src dst i j
  undrawn : ¬copy.Draws same src dst→∀ i j,
    blending.kept dst (copy.grownWidth dst) (copy.grownHeight dst) i j=
      copy.wanted blending src dst i j

end CopyOf

/-- The copy of a complete instruction is clean, if it has two buffers. -/
def CleanCopy (blending : Blending P) (argv : List (List UInt8))
    (display : Display (Picture P) (PathContext P) φ) : Prop :=
  9≤argv.length→∀ src dst, nameOf (int argv 0)=some src → nameOf (int argv 6)=some dst →
    (copyOf argv).Clean blending (src == dst) (display.bufferAt src) (display.bufferAt dst)

/-! ## The destination -/

section Growth

variable {S C : Type} {dst : Buffer S C}

/-- The destination is resized to the size that it is expanded to. -/
theorem expanded_eq (lib : Cairo S C) (calloc : ℕ→Bool) (copy : CopyOf) (dst : Buffer S C) :
    expanded lib calloc dst (wrap32 (copy.dx+copy.width)) (wrap32 (copy.dy+copy.height))=
      guacencBufferResize lib calloc dst (copy.grownWidth dst) (copy.grownHeight dst) := by
  have hsame : guacencBufferResize lib calloc dst dst.width dst.height=dst := if_pos ⟨rfl,rfl⟩
  unfold expanded CopyOf.grownWidth CopyOf.grownHeight
  split_ifs with hautosize
  · unfold guacencBufferFit
    dsimp only
    split_ifs with hgrows
    · rfl
    · obtain ⟨hwidth,hheight⟩ := not_or.mp hgrows
      rw [not_not.mp hwidth,not_not.mp hheight,hsame]
  · exact hsame.symm

theorem le_fitSize (size coordinate : ℤ) : size≤fitSize size coordinate := by
  unfold fitSize
  split_ifs with hgrows
  · exact hgrows.le
  · exact le_rfl

/-- The destination does not become smaller. -/
theorem le_grown (copy : CopyOf) (dst : Buffer S C) :
    dst.width≤copy.grownWidth dst ∧ dst.height≤copy.grownHeight dst := by
  unfold CopyOf.grownWidth CopyOf.grownHeight
  split_ifs
  · exact ⟨le_fitSize ..,le_fitSize ..⟩
  · exact ⟨le_rfl,le_rfl⟩

/-- The destination of a copy, once it is drawn on. -/
def copiedBuffer (lib : Cairo S C) (copy : CopyOf) (same : Bool) (src grown : Buffer S C) :
    Buffer S C :=
  match (if same then grown else src).surface, grown.cairo with
  | some surface, some cairo =>
    if same then
      grown.drawn lib cairo copy.mask
        (temporarySurface lib surface copy.sx copy.sy copy.width copy.height)
        copy.dx copy.dy copy.dx copy.dy copy.width copy.height
    else
      grown.drawn lib cairo copy.mask surface (wrap32 (copy.dx-copy.sx))
        (wrap32 (copy.dy-copy.sy)) copy.dx copy.dy copy.width copy.height
  | _, _ => grown

/-- Drawing on the destination keeps what operations on buffers keep, and its size. -/
theorem copiedBuffer_keeps {lib : Cairo S C} {Q : Buffer S C→Prop} (hQ : CanvasInvariant lib Q)
    (copy : CopyOf) (same : Bool) (src : Buffer S C) {grown : Buffer S C} (h : Q grown) :
    Q (copiedBuffer lib copy same src grown) ∧
      (copiedBuffer lib copy same src grown).width=grown.width ∧
      (copiedBuffer lib copy same src grown).height=grown.height := by
  unfold copiedBuffer
  split
  · rename_i surface cairo _ hcairo
    split_ifs
    · exact ⟨hQ.drawn _ _ _ _ _ _ _ _ _ _ h hcairo,rfl,rfl⟩
    · exact ⟨hQ.drawn _ _ _ _ _ _ _ _ _ _ h hcairo,rfl,rfl⟩
  · exact ⟨h,rfl,rfl⟩

/-- A copy with two buffers stores its destination, and no other buffer. -/
theorem handleCopy_eq {env : Environment S C φ} {memory : Memory} {argv : List (List UInt8)}
    {src dst : BufferName} {display : Display S C φ} (hargc : 9≤argv.length)
    (hsrc : nameOf (int argv 0)=some src) (hdst : nameOf (int argv 6)=some dst) :
    ∃ display', guacencHandleCopy env memory argv display=.ok (0,display') ∧
      display'.bufferAt=update display.bufferAt dst
        (copiedBuffer env.lib (copyOf argv) (src == dst) (display.bufferAt src)
          (guacencBufferResize env.lib (memory dst) (display.bufferAt dst)
            ((copyOf argv).grownWidth (display.bufferAt dst))
            ((copyOf argv).grownHeight (display.bufferAt dst)))) := by
  obtain ⟨hfound,hsame,-⟩ := getRelatedBuffer_eq (int argv 0) display
  rw [hsrc,Option.map_some] at hfound
  unfold guacencHandleCopy
  rw [if_neg (by omega)]
  dsimp only
  unfold withRelatedBuffer
  generalize guacencDisplayGetRelatedBuffer (int argv 0) display=found at hfound hsame
  obtain ⟨found,reached⟩ := found
  cases hfound
  dsimp only at hsame ⊢
  obtain ⟨hfound',hsame',hholds⟩ := getRelatedBuffer_eq (int argv 6) reached
  rw [hdst,Option.map_some] at hfound'
  generalize guacencDisplayGetRelatedBuffer (int argv 6) reached=found' at hfound' hsame' hholds
  obtain ⟨found',reached'⟩ := found'
  cases hfound'
  dsimp only at hsame' hholds ⊢
  have hstored := fun buffer => bufferAt_store (hholds dst hdst) buffer
  rw [hsame',hsame] at hstored
  rw [hsame]
  have hexpanded : expanded env.lib (memory dst) (display.bufferAt dst)
      (wrap32 (int argv 7+int argv 3)) (wrap32 (int argv 8+int argv 4))=_ :=
    expanded_eq env.lib (memory dst) (copyOf argv) (display.bufferAt dst)
  rw [hexpanded]
  generalize guacencBufferResize env.lib (memory dst) (display.bufferAt dst)
    ((copyOf argv).grownWidth (display.bufferAt dst))
    ((copyOf argv).grownHeight (display.bufferAt dst))=grown
  unfold copiedBuffer
  by_cases hnames : src=dst
  · rw [if_pos hnames,beq_iff_eq.mpr hnames,if_pos rfl]
    cases grown.surface with
    | none => exact ⟨_,rfl,hstored grown⟩
    | some surface =>
      cases grown.cairo with
      | none => exact ⟨_,rfl,hstored grown⟩
      | some cairo =>
        dsimp only
        rw [if_neg (not_not_intro hnames),if_pos rfl]
        exact ⟨_,rfl,hstored _⟩
  · rw [if_neg hnames,beq_eq_false_iff_ne.mpr hnames,if_neg Bool.false_ne_true]
    cases (display.bufferAt src).surface with
    | none => exact ⟨_,rfl,hstored grown⟩
    | some surface =>
      cases grown.cairo with
      | none => exact ⟨_,rfl,hstored grown⟩
      | some cairo =>
        dsimp only
        rw [if_pos hnames,if_neg Bool.false_ne_true]
        exact ⟨_,rfl,hstored _⟩

/-- A copy without two buffers changes none. -/
theorem handleCopy_missing {env : Environment S C φ} {memory : Memory}
    {argv : List (List UInt8)} {display : Display S C φ} (hargc : 9≤argv.length)
    (h : nameOf (int argv 0)=none ∨ nameOf (int argv 6)=none) :
    ∃ display', guacencHandleCopy env memory argv display=.ok (1,display') ∧
      display'.bufferAt=display.bufferAt := by
  obtain ⟨hfound,hsame,-⟩ := getRelatedBuffer_eq (int argv 0) display
  unfold guacencHandleCopy
  rw [if_neg (by omega)]
  dsimp only
  unfold withRelatedBuffer
  generalize guacencDisplayGetRelatedBuffer (int argv 0) display=found at hfound hsame
  obtain ⟨found,reached⟩ := found
  cases hfound
  cases hsrc : nameOf (int argv 0) with
  | none => exact ⟨reached,rfl,hsame⟩
  | some src =>
    obtain ⟨hfound',hsame',-⟩ := getRelatedBuffer_eq (int argv 6) reached
    rw [h.resolve_left (by rw [hsrc]; simp)] at hfound'
    dsimp only [Option.map_some]
    generalize guacencDisplayGetRelatedBuffer (int argv 6) reached=found' at hfound' hsame'
    obtain ⟨found',reached'⟩ := found'
    cases hfound'
    exact ⟨reached',rfl,hsame'.trans hsame⟩

end Growth

/-! ## The source -/

/-- A coordinate outside of every surface. -/
def Beyond (i : ℤ) : Prop := i<0 ∨ 32767 ≤ i

/-- Coordinates that are the same or both outside of every surface read the same pixel. -/
theorem read_eq (blending : Blending P) {picture : Picture P} (h : picture.Valid)
    {i i' j j' : ℤ} (hi : i=i' ∨ Beyond i ∧ Beyond i') (hj : j=j' ∨ Beyond j ∧ Beyond j') :
    blending.read picture i j=blending.read picture i' j' := by
  have hclear : ∀ x y, Beyond x ∨ Beyond y → blending.read picture x y=blending.clear := by
    intro x y hbeyond
    unfold Picture.Valid at h
    unfold Beyond at hbeyond
    refine if_neg ?_
    rw [inRectangle,decide_eq_true_eq]
    omega
  rcases hi with rfl | ⟨hi,hi'⟩
  · rcases hj with rfl | ⟨hj,hj'⟩
    · rfl
    · rw [hclear _ _ (Or.inr hj),hclear _ _ (Or.inr hj')]
  · rw [hclear _ _ (Or.inl hi),hclear _ _ (Or.inl hi')]

/-- Within the rectangle the difference of the offsets may overflow only where nothing is read. -/
theorem coordinate_eq {i d s size : ℤ} (hi : 0 ≤ i ∧ i<32767) (hd : d ≤ i ∧ i<d+size)
    (hs : -(2^31) ≤ s ∧ s<2^31) (hsize : size<2^31) :
    i-wrap32 (d-s)=s+(i-d) ∨ Beyond (i-wrap32 (d-s)) ∧ Beyond (s+(i-d)) := by
  obtain ⟨q,hq⟩ := wrap32_eq_add (d-s)
  have hlt := wrap32_lt (d-s)
  have hle := neg_le_wrap32 (d-s)
  unfold Beyond
  omega

/-- The same for the offset in the temporary surface. -/
theorem temporary_coordinate_eq {a s : ℤ} (ha : 0≤a ∧ a<32767) (hs : -(2^31) ≤ s ∧ s<2^31) :
    a-wrap32 (-s)=s+a ∨ Beyond (a-wrap32 (-s)) ∧ Beyond (s+a) := by
  obtain ⟨q,hq⟩ := wrap32_eq_add (-s)
  have hlt := wrap32_lt (-s)
  have hle := neg_le_wrap32 (-s)
  unfold Beyond
  omega

theorem temporarySurface_valid {blending : Blending P} (surface : Picture P)
    (sx sy width height : ℤ) :
    (temporarySurface (.canvas blending) surface sx sy width height).Valid ↔
      Supported width height := by
  have hwidth : (temporarySurface (.canvas blending) surface sx sy width height).width=width :=
    drawPath_width ..
  have hheight : (temporarySurface (.canvas blending) surface sx sy width height).height=
      height := drawPath_height ..
  unfold Picture.Valid
  rw [hwidth,hheight]
  rfl

/-- A temporary surface of a size that Cairo supports. -/
theorem read_temporarySurface {blending : Blending P} {surface : Picture P}
    (hsurface : surface.Valid) (sx sy : ℤ) {width height : ℤ} (hsize : Supported width height)
    (i j : ℤ) :
    blending.read (temporarySurface (.canvas blending) surface sx sy width height) i j=
      if inRectangle 0 0 width height i j then
        blending.read surface (i-wrap32 (-sx)) (j-wrap32 (-sy))
      else blending.clear := by
  have htemporary : Picture.Valid ⟨width,height,fun _ _ => blending.clear⟩ := hsize
  have hunfailed : (!decide (Picture.Valid ⟨width,height,fun _ _ => blending.clear⟩) ||
      !decide surface.Valid)=false := by
    rw [decide_eq_true hsurface,decide_eq_true htemporary]
    rfl
  split_ifs with hinside
  · have hdrawn := @read_drawPath P blending ((Cairo.canvas blending).setSourceSurface surface
      (wrap32 (-sx)) (wrap32 (-sy)) ((Cairo.canvas blending).setOperator .source
        ((Cairo.canvas blending).create ⟨width,height,fun _ _ => blending.clear⟩))) rfl
      (fun _ _ => true) (fun i j => blending.read surface (i-wrap32 (-sx)) (j-wrap32 (-sy)))
      ⟨width,height,fun _ _ => blending.clear⟩ i j hinside
    refine hdrawn.trans ?_
    rw [if_pos rfl]
    refine (if_neg ?_).trans (blending.combine_source _ _)
    exact fun hfailed => Bool.false_ne_true (hunfailed.symm.trans hfailed)
  · refine if_neg ?_
    rwa [temporarySurface,(drawPath_width .. : Picture.width _ = width),
      (drawPath_height .. : Picture.height _ = height)]

/-! ## What is copied -/

section Copied

variable {blending : CairoBlending P} {copy : CopyOf} {same : Bool} {calloc : ℕ→Bool}
variable {src dst : Buffer (Picture P) (PathContext P)}

/-- The destination once it is expanded. -/
abbrev CopyOf.grown (copy : CopyOf) (blending : CairoBlending P) (calloc : ℕ→Bool)
    (dst : Buffer (Picture P) (PathContext P)) : Buffer (Picture P) (PathContext P) :=
  guacencBufferResize (.canvas blending.toBlending) calloc dst (copy.grownWidth dst)
    (copy.grownHeight dst)

theorem ready_grown (h : dst.Ready) : (copy.grown blending calloc dst).Ready ∧
    (copy.grown blending calloc dst).width=copy.grownWidth dst ∧
      (copy.grown blending calloc dst).height=copy.grownHeight dst :=
  ⟨h.resize _ _ _ _,resize_size ..⟩

/-- A buffer that becomes larger shows what it did, unless it loses it. -/
theorem grown_shown (h : dst.Ready) (hkept :
      (dst.width=copy.grownWidth dst ∧ dst.height=copy.grownHeight dst) ∨
        dst.TakesOver (copy.grownWidth dst) (copy.grownHeight dst)) (i j : ℤ) :
    blending.shown (copy.grown blending calloc dst) i j=blending.shown dst i j := by
  obtain ⟨hwidth,hheight⟩ := le_grown copy dst
  obtain ⟨hready,hsize⟩ := @ready_grown P blending copy calloc dst h
  cases hinside : inRectangle 0 0 (copy.grownWidth dst) (copy.grownHeight dst) i j with
  | true => rw [resize_shown blending calloc _ _ hinside,Blending.kept,if_pos hkept]
  | false =>
    have houtside : inRectangle 0 0 dst.width dst.height i j=false := by
      simp only [inRectangle,decide_eq_false_iff_not] at hinside ⊢
      omega
    rw [hready.shown_around _ (by rw [hsize.1,hsize.2]; exact hinside),h.shown_around _ houtside]

theorem kept_of_accepts {width height : ℤ} (h : dst.Accepts width height) :
    (dst.width=width ∧ dst.height=height) ∨ dst.TakesOver width height := by
  unfold Buffer.Accepts at h
  split_ifs at h with hsame
  · exact Or.inl hsame
  · exact Or.inr h

/-- A context that can draw belongs to a surface of a size that Cairo supports. -/
theorem supported_of_accepts (h : dst.Ready) {width height : ℤ}
    (haccepts : dst.Accepts width height)
    (hcairo : dst.width=width ∧ dst.height=height → dst.cairo.isSome) :
    Supported width height := by
  unfold Buffer.Accepts at haccepts
  split_ifs at haccepts with hsame
  · obtain ⟨cairo,hcairo⟩ := Option.isSome_iff_exists.mp (hcairo hsame)
    rw [←hsame.1,←hsame.2]
    exact h.supported cairo hcairo (haccepts cairo hcairo)
  · exact haccepts.1

/-- What a buffer shows once a rectangle is filled from a surface. -/
theorem drawn_shown {blending : Blending P} {buffer : Buffer (Picture P) (PathContext P)}
    (h : buffer.Ready) {cairo : PathContext P} (hcairo : buffer.cairo=some cairo) (mask : ℤ)
    (surface : Picture P) (sourceX sourceY x y width height : ℤ) {i j : ℤ}
    (hinside : inRectangle 0 0 buffer.width buffer.height i j=true) :
    blending.shown (buffer.drawn (.canvas blending) cairo mask surface sourceX sourceY x y width
        height) i j=
      if cairo.failed || !decide surface.Valid then blending.shown buffer i j
      else if cairo.winding i j+rectangleWinding x y width height i j != 0 then
        blending.combine (guacencDisplayCairoOperator mask)
          (blending.read surface (i-sourceX) (j-sourceY)) (blending.shown buffer i j)
      else if (guacencDisplayCairoOperator mask).bounded then blending.shown buffer i j
      else blending.clear := by
  have hpixels : ¬(buffer.width=0 ∨ buffer.height=0) := by
    rw [←h.consistent.cairo,hcairo]
    simp
  obtain ⟨picture,hpicture⟩ := Option.ne_none_iff_exists'.mp (mt h.consistent.surface.mp hpixels)
  rw [←h.width picture hpicture,←h.height picture hpicture] at hinside
  unfold Blending.shown Buffer.drawn Buffer.filled
  dsimp only
  rw [hpicture,Option.map_some]
  exact @read_drawPath P blending ((Cairo.canvas blending).rectangle x y width height
    ((Cairo.canvas blending).setSourceSurface surface sourceX sourceY
      ((Cairo.canvas blending).setOperator (guacencDisplayCairoOperator mask) cairo)))
    (h.unclipped cairo hcairo) _ _ picture i j hinside

/-- What the expanded destination shows once it is filled from a surface. -/
theorem grown_drawn (h : dst.Ready) {cairo : PathContext P}
    (hcairo : (copy.grown blending calloc dst).cairo=some cairo) (surface : Picture P)
    (sourceX sourceY : ℤ) {i j : ℤ} (hinside : copy.onSurface dst i j=true) :
    let shown := blending.shown ((copy.grown blending calloc dst).drawn
      (.canvas blending.toBlending) cairo copy.mask surface sourceX sourceY copy.dx copy.dy
        copy.width copy.height) i j
    (dst.Accepts (copy.grownWidth dst) (copy.grownHeight dst) ∧ surface.Valid → shown=
      if copy.fills dst i j then
        blending.combine copy.operator (blending.read surface (i-sourceX) (j-sourceY))
          (blending.shown dst i j)
      else if copy.operator.bounded then blending.shown dst i j
      else blending.clear) ∧
    (¬(dst.Accepts (copy.grownWidth dst) (copy.grownHeight dst) ∧ surface.Valid) → shown=
      blending.kept dst (copy.grownWidth dst) (copy.grownHeight dst) i j) := by
  obtain ⟨hready,hsize⟩ := @ready_grown P blending copy calloc dst h
  obtain ⟨haccepts,hwinding⟩ := resize_context hcairo
  have hsurface : inRectangle 0 0 (copy.grown blending calloc dst).width
      (copy.grown blending calloc dst).height i j=true := by
    rw [hsize.1,hsize.2]
    exact hinside
  have hdrawn := @drawn_shown P blending.toBlending _ hready cairo hcairo copy.mask surface sourceX
    sourceY copy.dx copy.dy copy.width copy.height i j hsurface
  dsimp only
  rw [hdrawn]
  constructor
  · rintro ⟨haccept,hvalid⟩
    have hpending : cairo.winding i j=copy.pending dst i j := by
      rw [hwinding]
      rfl
    rw [haccepts.mpr haccept,decide_eq_true hvalid,if_neg (by decide),
      grown_shown h (kept_of_accepts haccept),hpending]
    simp only [bne_iff_ne]
    rfl
  · intro hnot
    rw [←haccepts] at hnot
    rw [if_pos (source_fails_iff.mpr hnot),resize_shown blending calloc _ _ hinside]

/-- Arguments in the range of an int. -/
structure CopyOf.Ints (copy : CopyOf) : Prop where
  sx : -(2^31)≤copy.sx ∧ copy.sx<2^31
  sy : -(2^31)≤copy.sy ∧ copy.sy<2^31
  width : copy.width<2^31
  height : copy.height<2^31

theorem ints_copyOf (argv : List (List UInt8)) : (copyOf argv).Ints :=
  ⟨⟨neg_le_wrap32 _,wrap32_lt _⟩,⟨neg_le_wrap32 _,wrap32_lt _⟩,wrap32_lt _,wrap32_lt _⟩

/-- The expanded destination has a context where it has pixels. -/
theorem grown_cairo (h : dst.Ready) {i j : ℤ} (hinside : copy.onSurface dst i j=true) :
    ∃ cairo, (copy.grown blending calloc dst).cairo=some cairo := by
  obtain ⟨hready,hsize⟩ := @ready_grown P blending copy calloc dst h
  rw [←Option.ne_none_iff_exists',Ne,hready.consistent.cairo,hsize.1,hsize.2]
  simp only [CopyOf.onSurface,inRectangle,decide_eq_true_eq] at hinside
  omega

/-- Where the destination is drawn on, Cairo supports its size. -/
theorem supported_of_onSurface (h : dst.Ready) {i j : ℤ} (hinside : copy.onSurface dst i j=true)
    (haccepts : dst.Accepts (copy.grownWidth dst) (copy.grownHeight dst)) :
    Supported (copy.grownWidth dst) (copy.grownHeight dst) := by
  refine supported_of_accepts h haccepts fun hsame => ?_
  rw [Option.isSome_iff_ne_none,Ne,h.consistent.cairo,hsame.1,hsame.2]
  simp only [CopyOf.onSurface,inRectangle,decide_eq_true_eq] at hinside
  omega

/-- What another buffer is the source of. -/
theorem source_other {src : Buffer (Picture P) (PathContext P)} (hargs : copy.Ints)
    {surface : Picture P} (hsurface : src.surface=some surface) (hvalid : surface.Valid)
    (hsupported : Supported (copy.grownWidth dst) (copy.grownHeight dst)) {i j : ℤ}
    (hinside : copy.onSurface dst i j=true) :
    blending.read surface (i-wrap32 (copy.dx-copy.sx)) (j-wrap32 (copy.dy-copy.sy))=
      if copy.covers i j then
        blending.shown src (copy.sx+(i-copy.dx)) (copy.sy+(j-copy.dy))
      else copy.beyond blending.toBlending false src i j := by
  simp only [CopyOf.onSurface,inRectangle,decide_eq_true_eq] at hinside
  unfold Supported at hsupported
  by_cases hcovers : copy.covers i j=true
  · rw [if_pos hcovers,Blending.shown,hsurface]
    simp only [CopyOf.covers,inRectangle,decide_eq_true_eq] at hcovers
    exact read_eq _ hvalid (coordinate_eq (by omega) (by omega) hargs.sx hargs.width)
      (coordinate_eq (by omega) (by omega) hargs.sy hargs.height)
  · rw [if_neg hcovers,CopyOf.beyond,if_neg Bool.false_ne_true,Blending.shown,hsurface]

/-- What a temporary surface is the source of. -/
theorem source_temporary (h : dst.Ready) (hargs : copy.Ints) {surface : Picture P}
    (hsurface : (copy.grown blending calloc dst).surface=some surface)
    (hvalid : surface.Valid) (haccepts : dst.Accepts (copy.grownWidth dst) (copy.grownHeight dst))
    (hsize : Supported copy.width copy.height) (i j : ℤ) :
    blending.read (temporarySurface (.canvas blending.toBlending) surface copy.sx copy.sy
        copy.width copy.height) (i-copy.dx) (j-copy.dy)=
      if copy.covers i j then
        blending.shown dst (copy.sx+(i-copy.dx)) (copy.sy+(j-copy.dy))
      else copy.beyond blending.toBlending true dst i j := by
  have hcovers : inRectangle 0 0 copy.width copy.height (i-copy.dx) (j-copy.dy)=
      copy.covers i j := by
    unfold CopyOf.covers inRectangle
    rw [decide_eq_decide]
    omega
  have hgrown := @grown_shown P blending copy calloc dst h (kept_of_accepts haccepts)
    (copy.sx+(i-copy.dx)) (copy.sy+(j-copy.dy))
  rw [Blending.shown,hsurface] at hgrown
  rw [read_temporarySurface hvalid _ _ hsize,hcovers,←hgrown]
  unfold Supported at hsize
  split_ifs with hinside
  · simp only [CopyOf.covers,inRectangle,decide_eq_true_eq] at hinside
    exact read_eq _ hvalid (temporary_coordinate_eq (by omega) hargs.sx)
      (temporary_coordinate_eq (by omega) hargs.sy)
  · rfl

/-- What the destination of a copy shows where it has pixels. -/
theorem copied_shown (h : dst.Ready) (hsame : same=true → src=dst) (hargs : copy.Ints)
    {i j : ℤ} (hinside : copy.onSurface dst i j=true) :
    let shown := blending.shown (copiedBuffer (.canvas blending.toBlending) copy same src
      (copy.grown blending calloc dst)) i j
    (copy.Draws same src dst → shown=copy.drawnPixel blending.toBlending same src dst i j) ∧
      (¬copy.Draws same src dst →
        shown=blending.kept dst (copy.grownWidth dst) (copy.grownHeight dst) i j) := by
  obtain ⟨cairo,hcairo⟩ := @grown_cairo P blending copy calloc dst h i j hinside
  have hkept : blending.shown (copy.grown blending calloc dst) i j=
      blending.kept dst (copy.grownWidth dst) (copy.grownHeight dst) i j :=
    resize_shown blending calloc _ _ hinside
  have hdrawn := fun surface sourceX sourceY =>
    @grown_drawn P blending copy calloc dst h cairo hcairo surface sourceX sourceY i j hinside
  have htemporary := fun surface => @source_temporary P blending copy calloc dst h hargs surface
  obtain ⟨hready,hsize⟩ := @ready_grown P blending copy calloc dst h
  generalize copy.grown blending calloc dst=grown at *
  dsimp only
  unfold copiedBuffer CopyOf.Draws CopyOf.drawnPixel
  cases same with
  | false =>
    rw [if_neg Bool.false_ne_true,if_neg Bool.false_ne_true,hcairo]
    cases hsurface : src.surface with
    | none =>
      refine ⟨fun hdraws => ?_,fun _ => hkept⟩
      obtain ⟨-,_,hnone,-⟩ := hdraws
      cases hnone
    | some surface =>
      have hfilled := hdrawn surface (wrap32 (copy.dx-copy.sx)) (wrap32 (copy.dy-copy.sy))
      dsimp only at hfilled ⊢
      rw [if_neg Bool.false_ne_true]
      constructor
      · rintro ⟨haccepts,picture,hpicture,hvalid⟩
        cases hpicture
        rw [hfilled.1 ⟨haccepts,hvalid⟩,source_other hargs hsurface hvalid
          (supported_of_onSurface h hinside haccepts) hinside]
      · intro hnot
        exact hfilled.2 fun hdraws => hnot ⟨hdraws.1,surface,rfl,hdraws.2⟩
  | true =>
    obtain rfl := hsame rfl
    have hpixels := mt hready.consistent.cairo.mpr (by rw [hcairo]; simp)
    obtain ⟨surface,hsurface⟩ := Option.ne_none_iff_exists'.mp
      (mt hready.consistent.surface.mp hpixels)
    have hfilled := hdrawn (temporarySurface (.canvas blending.toBlending) surface copy.sx copy.sy
      copy.width copy.height) copy.dx copy.dy
    rw [if_pos rfl,if_pos rfl,hcairo,hsurface]
    dsimp only at hfilled ⊢
    rw [if_pos rfl]
    rw [temporarySurface_valid] at hfilled
    refine ⟨fun hdraws => ?_,hfilled.2⟩
    have hsupported := supported_of_onSurface h hinside hdraws.1
    have hvalid : surface.Valid := by
      unfold Picture.Valid
      rw [hready.width surface hsurface,hready.height surface hsurface,hsize.1,hsize.2]
      exact hsupported
    rw [hfilled.1 hdraws,htemporary surface hsurface hvalid hdraws.1 hdraws.2]

end Copied

/-! ## Clean copies -/

section Clean

variable {blending : CairoBlending P} {copy : CopyOf} {same : Bool}
variable {src dst : Buffer (Picture P) (PathContext P)}

/-- What is drawn at a pixel is wanted if the rectangle is filled there, or if it makes no
difference. -/
theorem drawnPixel_eq_iff {i j : ℤ} (hinside : copy.onSurface dst i j=true) :
    copy.drawnPixel blending.toBlending same src dst i j=
        copy.wanted blending.toBlending src dst i j ↔
      (copy.covers i j=false → copy.fills dst i j →
        blending.combine copy.operator (copy.beyond blending.toBlending same src i j)
          (blending.shown dst i j)=blending.shown dst i j) ∧
      (copy.covers i j=false→¬copy.fills dst i j → copy.operator.bounded=false →
        blending.clear=blending.shown dst i j) ∧
      (copy.covers i j=true→¬copy.fills dst i j →
        (if copy.operator.bounded then blending.shown dst i j else blending.clear)=
          copy.wanted blending.toBlending src dst i j) := by
  cases hcovers : copy.covers i j with
  | true =>
    by_cases hfills : copy.fills dst i j
    · simp [CopyOf.drawnPixel,CopyOf.wanted,hinside,hcovers,hfills]
    · simp [CopyOf.drawnPixel,hfills]
  | false =>
    have hwanted : copy.wanted blending.toBlending src dst i j=blending.shown dst i j := by
      rw [CopyOf.wanted,hcovers,Bool.and_false,if_neg Bool.false_ne_true]
    rw [hwanted]
    by_cases hfills : copy.fills dst i j
    · simp [CopyOf.drawnPixel,hcovers,hfills]
    · cases hbounded : copy.operator.bounded with
      | true => simp [CopyOf.drawnPixel,hfills,hbounded]
      | false => simp [CopyOf.drawnPixel,hfills,hbounded]

/-- Around the expanded destination nothing is wanted, and nothing is kept. -/
theorem around_surface (h : dst.Ready) {i j : ℤ} (hinside : copy.onSurface dst i j=false) :
    copy.wanted blending.toBlending src dst i j=blending.clear ∧
      blending.kept dst (copy.grownWidth dst) (copy.grownHeight dst) i j=blending.clear := by
  obtain ⟨hwidth,hheight⟩ := le_grown copy dst
  have houtside : inRectangle 0 0 dst.width dst.height i j=false := by
    simp only [CopyOf.onSurface,inRectangle,decide_eq_false_iff_not] at hinside ⊢
    omega
  have hclear := h.shown_around blending.toBlending houtside
  unfold CopyOf.wanted Blending.kept
  rw [hinside,Bool.false_and,if_neg Bool.false_ne_true,hclear,ite_self]
  exact ⟨rfl,rfl⟩

/-- A copy is clean if every pixel that is drawn or kept is the one that is wanted. -/
theorem clean_iff (h : dst.Ready) : copy.Clean blending.toBlending same src dst ↔ ∀ i j,
      (copy.onSurface dst i j=true → copy.Draws same src dst →
        copy.drawnPixel blending.toBlending same src dst i j=
          copy.wanted blending.toBlending src dst i j) ∧
      (copy.onSurface dst i j=true→¬copy.Draws same src dst →
        blending.kept dst (copy.grownWidth dst) (copy.grownHeight dst) i j=
          copy.wanted blending.toBlending src dst i j) := by
  constructor
  · intro hclean i j
    refine ⟨fun hinside hdraws => (drawnPixel_eq_iff hinside).mpr ⟨?_,?_,?_⟩,
      fun _ hdraws => hclean.undrawn hdraws i j⟩
    · exact hclean.beyond hdraws i j hinside
    · exact hclean.around hdraws i j hinside
    · exact hclean.spared hdraws i j hinside
  · intro hpixels
    refine ⟨fun hdraws i j hinside => ?_,fun hdraws i j hinside => ?_,
      fun hdraws i j hinside => ?_,fun hdraws i j => ?_⟩
    · exact ((drawnPixel_eq_iff hinside).mp ((hpixels i j).1 hinside hdraws)).1
    · exact ((drawnPixel_eq_iff hinside).mp ((hpixels i j).1 hinside hdraws)).2.1
    · exact ((drawnPixel_eq_iff hinside).mp ((hpixels i j).1 hinside hdraws)).2.2
    · cases hinside : copy.onSurface dst i j with
      | true => exact (hpixels i j).2 hinside hdraws
      | false =>
        obtain ⟨hwanted,hkept⟩ := @around_surface P blending copy src dst h i j hinside
        rw [hwanted,hkept]

/-- The destination shows what is wanted exactly if the copy is clean. -/
theorem copiedBuffer_shows_iff (h : dst.Ready) (hsame : same=true → src=dst)
    (hargs : copy.Ints) (calloc : ℕ→Bool) :
    (∀ i j, blending.shown (copiedBuffer (.canvas blending.toBlending) copy same src
        (copy.grown blending calloc dst)) i j=copy.wanted blending.toBlending src dst i j) ↔
      copy.Clean blending.toBlending same src dst := by
  rw [clean_iff h]
  refine forall_congr' fun i => forall_congr' fun j => ?_
  cases hinside : copy.onSurface dst i j with
  | true =>
    obtain ⟨hdrawn,hkept⟩ := @copied_shown P blending copy same calloc src dst h hsame hargs i j
      hinside
    by_cases hdraws : copy.Draws same src dst
    · rw [hdrawn hdraws]
      simp [hdraws]
    · rw [hkept hdraws]
      simp [hdraws]
  | false =>
    obtain ⟨hwanted,-⟩ := @around_surface P blending copy src dst h i j hinside
    have hsize := resize_size (.canvas blending.toBlending) calloc dst (copy.grownWidth dst)
      (copy.grownHeight dst)
    obtain ⟨hready,hwidth,hheight⟩ := copiedBuffer_keeps (ready_invariant blending.toBlending)
      copy same src (h.resize blending.toBlending calloc (copy.grownWidth dst)
        (copy.grownHeight dst))
    rw [hwanted,hready.shown_around blending.toBlending
      (by rw [hwidth,hheight,hsize.1,hsize.2]; exact hinside)]
    simp

/-- A rectangle that does not extend to the left or upwards winds once around its pixels. -/
theorem rectangleWinding_ne_zero_iff {x y width height : ℤ} (hwidth : 0≤width)
    (hheight : 0≤height) (i j : ℤ) :
    rectangleWinding x y width height i j≠0 ↔ inRectangle x y width height i j=true := by
  unfold rectangleWinding inRectangle
  rw [decide_eq_true_eq,min_eq_left (by omega),max_eq_right (by omega),min_eq_left (by omega),
    max_eq_right (by omega),Ne,ite_eq_right_iff,mul_eq_zero,Int.sign_eq_zero_iff_zero,
    Int.sign_eq_zero_iff_zero]
  omega

/-- A copy that is drawn with a bounded operator is clean if there is no path before. -/
theorem clean_of_empty_path (hwidth : 0≤copy.width) (hheight : 0≤copy.height)
    (hbounded : copy.operator.bounded=true) (hpending : ∀ i j, copy.pending dst i j=0)
    (hdraws : copy.Draws same src dst) : copy.Clean blending.toBlending same src dst := by
  have hfills : ∀ i j, copy.fills dst i j ↔ copy.covers i j=true := fun i j => by
    unfold CopyOf.fills
    rw [hpending,zero_add]
    exact rectangleWinding_ne_zero_iff hwidth hheight i j
  refine ⟨fun _ i j _ hcovers hfilled => ?_,fun _ i j _ _ _ hcleared => ?_,
    fun _ i j _ hcovers hspared => ?_,fun hundrawn => absurd hdraws hundrawn⟩
  · rw [(hfills i j).mp hfilled] at hcovers
    cases hcovers
  · rw [hbounded] at hcleared
    cases hcleared
  · exact absurd ((hfills i j).mpr hcovers) hspared

end Clean

/-- After any instructions, a copy instruction changes only its rectangle, and that to what the
operator makes of the source, exactly if it is clean. -/
theorem copiesRectangle_iff (blending : CairoBlending P)
    (env : Environment (Picture P) (PathContext P) φ)
    (hlib : env.lib=.canvas blending.toBlending) (hotspotX hotspotY : ℤ) (blank : φ)
    {instructions : List Instruction} {display : Display (Picture P) (PathContext P) φ}
    (hrun : run (stepDisplay env) instructions
      (.ok (guacencDisplayAlloc hotspotX hotspotY blank))=some (.ok display))
    (memory : Memory) (argv : List (List UInt8)) :
    CopiesRectangle env blending.toBlending memory argv display ↔
      CleanCopy blending.toBlending argv display := by
  have hinvariant : CanvasInvariant env.lib Buffer.Ready := by
    rw [hlib]
    exact ready_invariant blending.toBlending
  have hcanvases := hinvariant.run hotspotX hotspotY blank hrun
  unfold CopiesRectangle CleanCopy
  by_cases hargc : argv.length<9
  · refine iff_of_true ⟨1,display,?_,?_⟩ fun hcomplete => absurd hcomplete (not_le.mpr hargc)
    · unfold guacencHandleCopy
      rw [if_pos hargc]
    · rw [if_pos hargc]
  rw [not_lt] at hargc
  simp only [if_neg (not_lt.mpr hargc),hargc,true_imp_iff]
  cases hsrc : nameOf (int argv 0) with
  | none =>
    obtain ⟨display',hhandled,hsame⟩ := @handleCopy_missing φ _ _ env memory argv display hargc
      (Or.inl hsrc)
    exact iff_of_true ⟨1,display',hhandled,hsame⟩ fun src dst hnone => by cases hnone
  | some src =>
    cases hdst : nameOf (int argv 6) with
    | none =>
      obtain ⟨display',hhandled,hsame⟩ := @handleCopy_missing φ _ _ env memory argv display
        hargc (Or.inr hdst)
      exact iff_of_true ⟨1,display',hhandled,hsame⟩ fun src dst _ hnone => by cases hnone
    | some dst =>
      have hready : (display.bufferAt dst).Ready := hinvariant.bufferAt hcanvases hdst
      obtain ⟨display',hhandled,hbuffers⟩ := @handleCopy_eq φ _ _ env memory argv src dst display
        hargc hsrc hdst
      have hsize := resize_size (.canvas blending.toBlending) (memory dst) (display.bufferAt dst)
        ((copyOf argv).grownWidth (display.bufferAt dst))
        ((copyOf argv).grownHeight (display.bufferAt dst))
      have hkeeps := copiedBuffer_keeps (ready_invariant blending.toBlending) (copyOf argv)
        (src == dst) (display.bufferAt src) (hready.resize blending.toBlending (memory dst)
          ((copyOf argv).grownWidth (display.bufferAt dst))
          ((copyOf argv).grownHeight (display.bufferAt dst)))
      have hnames : (src == dst)=true → display.bufferAt src=display.bufferAt dst :=
        fun hnames => congrArg display.bufferAt (eq_of_beq hnames)
      have hshows := @copiedBuffer_shows_iff P blending (copyOf argv) (src == dst)
        (display.bufferAt src) (display.bufferAt dst) hready hnames (ints_copyOf argv) (memory dst)
      rw [hlib] at hbuffers
      constructor
      · rintro ⟨result,after,hresult,-,-,-,hshown⟩ src' dst' hsrc' hdst'
        cases hsrc'
        cases hdst'
        rw [hhandled] at hresult
        cases hresult
        rw [hbuffers,update_self] at hshown
        exact hshows.mp hshown
      · intro hclean
        refine ⟨0,display',hhandled,fun name hname => ?_,?_,?_,?_⟩
        · rw [hbuffers,update_of_ne hname]
        · rw [hbuffers,update_self,hkeeps.2.1,hsize.1]
        · rw [hbuffers,update_self,hkeeps.2.2,hsize.2]
        · rw [hbuffers,update_self]
          exact hshows.mpr (hclean src dst rfl rfl)

/-- A copy of the right pixel of the default layer to the left. -/
def pixelCopy : List (List UInt8) := [[48],[49],[48],[49],[49],ascii "12", [48], [48], [48]]

/-- Nothing else changes after the right pixel was filled. -/
theorem copiesRectangle_redPixel :
    ∃ display, run (stepDisplay (.canvas opaqueCanvas.toBlending)) redPixel
        (.ok (guacencDisplayAlloc 0 0 ()))=some (.ok display) ∧
      CopiesRectangle (.canvas opaqueCanvas.toBlending) opaqueCanvas.toBlending
        (fun _ _ => true) pixelCopy display := by
  refine ⟨_,rfl,(copiesRectangle_iff opaqueCanvas _ rfl 0 0 () (rfl : run _ redPixel _ = _) _
    _).mpr ?_⟩
  intro _ src dst hsrc hdst
  cases hsrc
  cases hdst
  refine clean_of_empty_path (by decide) (by decide) rfl (fun i j => rfl) ⟨?_,by decide⟩
  intro cairo hcairo
  cases hcairo
  rfl

/-- A rectangle that was added to the path before, and is not filled, is filled by the copy. -/
theorem not_copiesRectangle_pending :
    ∃ display, run (stepDisplay (.canvas opaqueCanvas.toBlending)) (redPixel++
        [⟨ascii "rect", [[48],[49],[48],[49],[49]], fun _ _ => true⟩])
        (.ok (guacencDisplayAlloc 0 0 ()))=some (.ok display) ∧
      ¬CopiesRectangle (.canvas opaqueCanvas.toBlending) opaqueCanvas.toBlending
        (fun _ _ => true) pixelCopy display := by
  refine ⟨_,rfl,?_⟩
  rintro ⟨result,display',hhandled,-,-,-,hshows⟩
  cases hhandled
  exact absurd (hshows 1 0) (by decide)

end GuacServer.EncoderDisplay
