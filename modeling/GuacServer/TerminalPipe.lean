import GuacServer.TerminalCursor
import GuacServer.TerminalScroll

/-!
# What touches the pipe stream of a terminal

A byte that guac_terminal_echo reads while a pipe stream is open goes into its
buffer. Two sequences open and close a stream, and a flush of the terminal may
send the buffer. Everything else leaves the stream alone.
-/

namespace GuacServer.Terminal

variable {env : TerminalEnv} {term term' : GuacTerminal}

/-- What a terminal keeps of its pipe stream and has sent for it. -/
def GuacTerminal.pipeParts (term : GuacTerminal) : (Bool×ℤ)×List UInt8×List PipeInstruction :=
  ((term.pipeStream,term.pipeStreamFlags),term.pipeBuffer,term.pipeSent)

/-- The pipe stream is left alone. -/
def SamePipe (term term' : GuacTerminal) : Prop := term'.pipeParts=term.pipeParts

theorem SamePipe.refl (term : GuacTerminal) : SamePipe term term := rfl

theorem SamePipe.trans {term'' : GuacTerminal} (h : SamePipe term term')
    (h' : SamePipe term' term'') : SamePipe term term'' :=
  Eq.trans h' h

theorem SamePipe.stream (h : SamePipe term term') : term'.pipeStream=term.pipeStream :=
  congrArg (·.1.1) h

theorem SamePipe.buffer (h : SamePipe term term') : term'.pipeBuffer=term.pipeBuffer :=
  congrArg (·.2.1) h

theorem SamePipe.sent (h : SamePipe term term') : term'.pipeSent=term.pipeSent := congrArg (·.2.2) h

/-- New contents and moves of the cursor leave the stream alone. -/
theorem SameButCursor.pipe (h : SameButCursor term term') : SamePipe term term' := by
  rw [h]
  rfl

theorem SameControl.pipe (h : SameControl term term') : SamePipe term term' := h.butCursor.pipe

/-- Handlers leave the stream alone. -/
theorem samePipe : KeptByHandlers SamePipe where
  refl := SamePipe.refl
  trans h h' := h.trans h'
  display _ _ := rfl
  getRow _ _ _ := rfl
  select _ _ _ := rfl
  cursor _ _ _ := rfl
  setCells _ _ _ _ _ _ := rfl
  copyCells _ _ _ _ _ _ := rfl
  moveRows _ _ _ _ _ := rfl
  quiet h := (Prod.ext_iff.mp (Prod.ext_iff.mp h).2).2

/-! ## Output -/

theorem samePipe_linefeed (term : GuacTerminal) : SamePipe term (guacTerminalLinefeed term) :=
  (sameButCursor_linefeed term).pipe

theorem samePipe_echoCodepoint (term : GuacTerminal) (codepoint : ℤ) :
    SamePipe term (echoCodepoint env term codepoint) := by
  have hfed := samePipe_linefeed term
  have hreturned : SamePipe term (if (guacTerminalLinefeed term).automaticCarriageReturn then
      guacTerminalMoveCursor (guacTerminalLinefeed term) (guacTerminalLinefeed term).cursorRow 0
      else guacTerminalLinefeed term) :=
    ite_keeps (hfed.trans rfl) hfed
  unfold echoCodepoint
  refine ite_keeps (SamePipe.refl term) (ite_keeps rfl (ite_keeps rfl (ite_keeps hreturned ?_)))
  refine ite_keeps rfl (ite_keeps rfl (ite_keeps rfl (ite_keeps rfl
    (ite_keeps rfl (ite_keeps (SamePipe.refl term) ?_)))))
  split
  · exact (sameButCursor_displayCharacter ..).pipe
  · refine SamePipe.trans ?_ (sameButCursor_displayCharacter ..).pipe
    rfl

/-- A byte is echoed into the pipe stream, if one is open, unless it starts a sequence. -/
def echoPipe (term : GuacTerminal) (c : UInt8) : GuacTerminal :=
  if term.pipeStream && decide (c≠0x1B) then guacTerminalPipeStreamWrite term c else term

theorem samePipe_echo (term : GuacTerminal) (c : UInt8) :
    SamePipe (echoPipe term c) (guacTerminalEcho env term c) := by
  unfold guacTerminalEcho
  refine ite_keeps (SamePipe.refl _) (ite_keeps rfl (SamePipe.trans ?_ (samePipe_echoCodepoint ..)))
  rfl

/-! ## Sequences -/

theorem samePipe_reset (term : GuacTerminal) : SamePipe term (guacTerminalReset term) := by
  unfold guacTerminalReset
  refine SamePipe.trans ?_ (sameControl.forTo (fun _ _ => sameControl.setColumns ..) ..).pipe
  rfl

theorem samePipe_escape (term : GuacTerminal) (c : UInt8) :
    SamePipe term (guacTerminalEscape term c) := by
  unfold guacTerminalEscape
  split
  case h_8 => exact (samePipe_linefeed term).trans rfl
  case h_9 =>
    refine SamePipe.trans ?_ ((samePipe_linefeed _).trans rfl)
    rfl
  case h_10 => exact (samePipe.setTab term term.cursorCol).trans rfl
  case h_11 => exact (samePipe.reverseLinefeed term).trans rfl
  case h_12 => exact samePipe_reset term
  all_goals rfl

theorem samePipe_csi (term : GuacTerminal) (c : UInt8) : SamePipe term (guacTerminalCsi term c) :=
  samePipe.csi term fun t hM => by
    unfold csiFunction
    dsimp only
    rw [hM]
    exact (sameControl_scrollUp ..).pipe

theorem samePipe_osc (term : GuacTerminal) (c : UInt8) : SamePipe term (guacTerminalOsc term c) :=
  ite_keeps rfl (ite_keeps rfl rfl)

theorem samePipe_setScrollback (term : GuacTerminal) (c : UInt8) :
    SamePipe term (guacTerminalSetScrollback term c) :=
  ite_keeps rfl rfl

/-! ## Size, scrolling and flush -/

theorem samePipe_growHeight (term : GuacTerminal) (width height : ℤ) :
    SamePipe term (growHeight term width height) := by
  have hgrown := grown_growHeight term width height
  generalize growHeight term width height=grown at hgrown ⊢
  cases hgrown with
  | same => rfl
  | scrolled shift =>
    refine SamePipe.trans ?_ (sameControl.redrawRect ..).pipe
    rfl
  | moved shift hgrows hpos hshift hlt drawn hdrawn =>
    have hmoved : SamePipe term drawn := by
      rw [hdrawn]
      refine SamePipe.trans ?_ (sameControl.redrawRect ..).pipe
      rfl
    refine hmoved.trans (SamePipe.trans ?_ (sameControl.redrawRect ..).pipe)
    rfl

theorem samePipe_shrinkHeight (term : GuacTerminal) (width height : ℤ) :
    SamePipe term (shrinkHeight term width height) := by
  refine ite_keeps (ite_keeps (SamePipe.trans ?_ (sameControl.redrawRect ..).pipe)
    (SamePipe.refl term)) (SamePipe.refl term)
  rfl

theorem samePipe_resize (memory : Memory) (term : GuacTerminal) (width height : ℤ) :
    SamePipe term (guacTerminalResize memory term width height) := by
  have hresized : ∀ columns rows : ℤ,
      SamePipe term (resizeCharacters memory term columns rows) := by
    intro columns rows
    have hshrunk := samePipe_shrinkHeight term columns rows
    refine hshrunk.trans (SamePipe.trans ?_ ((samePipe_growHeight _ columns rows).trans rfl))
    exact ite_keeps (SamePipe.trans (rfl : SamePipe _ { shrinkHeight term columns rows with
      display := guacTerminalDisplayResize (guacTerminalDisplayFlush
        (shrinkHeight term columns rows).display) columns rows memory.operations })
      (sameControl.redrawRect ..).pipe) rfl
  unfold guacTerminalResize
  refine SamePipe.trans ?_ (sameControl_scrollbarSetBounds ..).pipe
  exact ite_keeps ((hresized _ _).trans rfl) (SamePipe.refl term)

theorem samePipe_scrollDisplayDown (term : GuacTerminal) (scrollAmount : ℤ) :
    SamePipe term (guacTerminalScrollDisplayDown term scrollAmount) := by
  refine ite_keeps (SamePipe.refl term) (SamePipe.trans ?_ (sameControl.drawScrollback ..).pipe)
  rfl

theorem samePipe_scrollDisplayUp (term : GuacTerminal) (scrollAmount : ℤ) :
    SamePipe term (guacTerminalScrollDisplayUp term scrollAmount) := by
  refine ite_keeps (SamePipe.refl term) (SamePipe.trans ?_ (sameControl.drawScrollback ..).pipe)
  rfl

/-! ## All that is done to a terminal -/

/-- What a byte that is written does to the pipe stream. -/
def pipeChar (term : GuacTerminal) (c : UInt8) : GuacTerminal :=
  match term.charHandler with
  | .echo => echoPipe term c
  | .openPipeStream =>
    if IsStringTerminator c then
      guacTerminalPipeStreamOpen term term.statics.pipeParam term.statics.pipeFlags
    else term
  | .closePipeStream => if IsStringTerminator c then guacTerminalPipeStreamClose term else term
  | _ => term

/-- What is done to the pipe stream. -/
def pipeEffect (op : TerminalOp) (term : GuacTerminal) : GuacTerminal :=
  match op with
  | .write c _ => pipeChar term c
  | .flush =>
    if term.pipeStreamFlags/2%2=1 then guacTerminalPipeStreamFlush term else term
  | _ => term

theorem samePipe_handleChar (term : GuacTerminal) (c : UInt8) :
    SamePipe (pipeChar term c) (handleChar env term c) := by
  unfold pipeChar handleChar
  cases term.charHandler with
  | echo => exact samePipe_echo term c
  | escape => exact samePipe_escape term c
  | csi => exact samePipe_csi term c
  | osc => exact samePipe_osc term c
  | download => exact ite_keeps rfl rfl
  | setDirectory => exact ite_keeps rfl rfl
  | openPipeStream =>
    dsimp only
    unfold guacTerminalOpenPipeStream
    split_ifs
    all_goals rfl
  | closePipeStream =>
    dsimp only
    unfold guacTerminalClosePipeStream
    split_ifs
    all_goals rfl
  | setScrollback => exact samePipe_setScrollback term c
  | windowTitle => exact ite_keeps rfl rfl
  | xtermPalette => exact samePipe.xtermPalette term env c
  | ctrlFunc => exact samePipe.ctrlFunc term env c
  | g0Charset => rfl
  | g1Charset => rfl
  | apc => rfl

/-- Nothing else is done to the pipe stream. -/
theorem samePipe_terminalStep {op : TerminalOp} (hstep : terminalStep env op term=some term') :
    SamePipe (pipeEffect op term) term' := by
  cases op with
  | write c uninitializedWidth =>
    cases hstep
    exact samePipe_handleChar term c
  | resize memory width height =>
    cases hstep
    exact samePipe_resize memory term width height
  | scrollDisplayDown scrollAmount =>
    cases hstep
    exact samePipe_scrollDisplayDown term scrollAmount
  | scrollDisplayUp scrollAmount =>
    cases hstep
    exact samePipe_scrollDisplayUp term scrollAmount
  | flush =>
    cases hstep
    exact SamePipe.trans (sameControl_commitCursor _).pipe rfl

end GuacServer.Terminal
