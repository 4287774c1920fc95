import GuacServer.TerminalCursor

/-!
# The scrollbar of a terminal

terminal/scrollbar.c, and what terminal/terminal.c does with the scrollbar of a
terminal. Its bounds and its value are those that the terminal has. What is sent
to users is left out.
-/

namespace GuacServer.Terminal

open DecimalNumerals StateRuns

/-- GUAC_TERMINAL_SCROLLBAR_PADDING. -/
def terminalScrollbarPadding : ℤ := 2

/-- GUAC_TERMINAL_SCROLLBAR_MIN_HEIGHT. -/
def terminalScrollbarMinHeight : ℤ := 64

/-- GUAC_CLIENT_MOUSE_LEFT. -/
def clientMouseLeft : ℤ := 1

/-- guac_terminal_scrollbar_render_state. -/
structure ScrollbarRenderState where
  handleX : ℤ
  handleY : ℤ
  handleWidth : ℤ
  handleHeight : ℤ
  containerX : ℤ
  containerY : ℤ
  containerWidth : ℤ
  containerHeight : ℤ
  deriving DecidableEq

/-- guac_terminal_scrollbar, without its bounds and its value. -/
structure Scrollbar where
  /-- The width of the parent layer in pixels. -/
  parentWidth : ℤ
  /-- The height of the parent layer in pixels. -/
  parentHeight : ℤ
  /-- The size of the visible area in rows. -/
  visibleArea : ℤ
  renderState : ScrollbarRenderState
  draggingHandle : Bool
  /-- Where in the handle the mouse was when dragging began. -/
  dragOffsetY : ℤ
  /-- Where the mouse is while dragging is in progress. -/
  dragCurrentY : ℤ
  deriving DecidableEq

/-- A terminal and its scrollbar. -/
structure ScrollbarTerminal where
  terminal : GuacTerminal
  scrollbar : Scrollbar

/-! ## The handle -/

/-- The legal delta between scroll values. -/
def GuacTerminal.scrollDelta (term : GuacTerminal) : ℤ :=
  if term.scrollbarMax > term.scrollbarMin then term.scrollbarMax-term.scrollbarMin else 0

/-- The greatest height of the handle. -/
def Scrollbar.maxHandleHeight (scrollbar : Scrollbar) : ℤ :=
  scrollbar.parentHeight-terminalScrollbarPadding*2

/-- The height of a handle that is scaled to some height. -/
def fitHandleHeight (proportionalHeight maxHandleHeight : ℤ) : ℤ :=
  let height :=
    if proportionalHeight > terminalScrollbarMinHeight then proportionalHeight
    else terminalScrollbarMinHeight
  if height > maxHandleHeight then maxHandleHeight else height

/-- The height of the handle, scaled to the visible area of what can be scrolled. -/
def handleHeight (term : GuacTerminal) (scrollbar : Scrollbar) : ℤ :=
  fitHandleHeight ((scrollbar.maxHandleHeight*scrollbar.visibleArea).tdiv
      (term.scrollDelta+scrollbar.visibleArea))
    scrollbar.maxHandleHeight

/-- The least position of the handle. -/
def minHandleY : ℤ := terminalScrollbarPadding

/-- The greatest position of the handle. -/
def maxHandleY (term : GuacTerminal) (scrollbar : Scrollbar) : ℤ :=
  minHandleY+scrollbar.maxHandleHeight-handleHeight term scrollbar

/-- Where the handle is dragged to, within its bounds. -/
def draggedHandleY (term : GuacTerminal) (scrollbar : Scrollbar) : ℤ :=
  let dragged := scrollbar.dragCurrentY-scrollbar.dragOffsetY
  if dragged < minHandleY then minHandleY
  else if dragged > maxHandleY term scrollbar then maxHandleY term scrollbar
  else dragged

/-- Where the handle is, and the value of the scrollbar there. -/
def handlePosition (term : GuacTerminal) (scrollbar : Scrollbar) : ℤ×ℤ :=
  let range := maxHandleY term scrollbar-minHandleY
  if scrollbar.draggingHandle then
    let dragged := draggedHandleY term scrollbar
    (dragged,if maxHandleY term scrollbar > minHandleY then
        term.scrollbarMin+((dragged-minHandleY)*term.scrollDelta).tdiv range
      else term.scrollbarValue)
  else if term.scrollDelta > 0 then
    (minHandleY+(range*(term.scrollbarValue-term.scrollbarMin)).tdiv term.scrollDelta,
      term.scrollbarValue)
  else (terminalScrollbarPadding,term.scrollbarValue)

/-- calculate_state: the render state and the value, or none where it divides by
zero. -/
def calculateState (term : GuacTerminal) (scrollbar : Scrollbar) :
    Option (ScrollbarRenderState×ℤ) :=
  if term.scrollDelta+scrollbar.visibleArea=0 then none
  else
    let position := handlePosition term scrollbar
    some
      ({ handleX := terminalScrollbarPadding
         handleY := position.1
         handleWidth := terminalScrollbarWidth-terminalScrollbarPadding*2
         handleHeight := handleHeight term scrollbar
         containerX := scrollbar.parentWidth-terminalScrollbarWidth
         containerY := 0
         containerWidth := terminalScrollbarWidth
         containerHeight := scrollbar.parentHeight },
        position.2)

/-- The sums and products of calculate_state are ints. Otherwise what it does is
undefined. -/
def StateFits (term : GuacTerminal) (scrollbar : Scrollbar) : Prop :=
  (IsInt (scrollbar.parentWidth-terminalScrollbarWidth) ∧ IsInt scrollbar.maxHandleHeight) ∧
    (IsInt term.scrollDelta ∧ IsInt (term.scrollDelta+scrollbar.visibleArea) ∧
      IsInt (scrollbar.maxHandleHeight*scrollbar.visibleArea)) ∧
    if scrollbar.draggingHandle then
      IsInt (scrollbar.dragCurrentY-scrollbar.dragOffsetY) ∧
        (maxHandleY term scrollbar > minHandleY →
          IsInt ((draggedHandleY term scrollbar-minHandleY)*term.scrollDelta))
    else
      term.scrollDelta > 0 → IsInt ((maxHandleY term scrollbar-minHandleY) *
          (term.scrollbarValue-term.scrollbarMin))

instance (value : ℤ) : Decidable (IsInt value) := inferInstanceAs (Decidable (_ ∧ _))

instance (term : GuacTerminal) (scrollbar : Scrollbar) : Decidable (StateFits term scrollbar) :=
  inferInstanceAs (Decidable (_ ∧ _))

/-! ## Operations -/

/-- guac_terminal_scroll_handler. -/
def guacTerminalScrollHandler (term : GuacTerminal) (value : ℤ) : GuacTerminal :=
  let delta := -value-term.scrollOffset
  let term :=
    if delta<0 then guacTerminalScrollDisplayDown term (-delta)
    else if delta > 0 then guacTerminalScrollDisplayUp term delta
    else term
  guacTerminalScrollbarSetValue term value

/-- guac_terminal_scrollbar_flush. -/
def guacTerminalScrollbarFlush (s : ScrollbarTerminal) : Option ScrollbarTerminal :=
  if StateFits s.terminal s.scrollbar then
    match calculateState s.terminal s.scrollbar with
    | none => none
    | some (newState,newValue) =>
      some
        { terminal :=
            if newValue≠s.terminal.scrollbarValue then
              guacTerminalScrollHandler s.terminal newValue
            else s.terminal
          scrollbar := { s.scrollbar with renderState := newState } }
  else none

/-- guac_terminal_scrollbar_parent_resized. -/
def guacTerminalScrollbarParentResized (scrollbar : Scrollbar)
    (parentWidth parentHeight visibleArea : ℤ) : Scrollbar :=
  { scrollbar with
    parentWidth := parentWidth
    parentHeight := parentHeight
    visibleArea := visibleArea }

/-- guac_terminal_scrollbar_handle_mouse, and whether the scrollbar handled the
event. -/
def guacTerminalScrollbarHandleMouse (scrollbar : Scrollbar) (x y mask : ℤ) : Scrollbar×Bool :=
  let state := scrollbar.renderState
  let parentRight := state.containerX+state.containerWidth
  let parentBottom := state.containerY+state.containerHeight
  let handleLeft := state.containerX+state.handleX
  let handleTop := state.containerY+state.handleY
  let handleRight := handleLeft+state.handleWidth
  let handleBottom := handleTop+state.handleHeight
  if scrollbar.draggingHandle then
    -- the drag goes on while the left button is held
    (if mask%2=1 then { scrollbar with dragCurrentY := y }
      else { scrollbar with draggingHandle := false },true)
  else if mask=clientMouseLeft ∧ (x≥handleLeft ∧ x<handleRight) ∧ y≥handleTop ∧ y<handleBottom then
    ({ scrollbar with
      draggingHandle := true
      dragOffsetY := y-handleTop
      dragCurrentY := y },true)
  else
    (scrollbar,decide ((x≥state.containerX ∧ x<parentRight) ∧ y≥state.containerY ∧ y<parentBottom))

/-- The pixels of the greatest number of characters that fit a number of pixels, if
there are too many. -/
def fittingPixels (pixels charPixels : ℤ) : ℤ :=
  if pixels.tdiv charPixels > terminalMaxSize then terminalMaxSize*charPixels else pixels

/-- The height that guac_terminal_create and guac_terminal_resize keep. -/
def Display.pixelHeight (display : Display) (height : ℤ) : ℤ :=
  fittingPixels height display.charHeight

/-- The width that guac_terminal_create and guac_terminal_resize keep. -/
def Display.pixelWidth (display : Display) (width : ℤ) : ℤ :=
  let availableWidth := if width-terminalScrollbarWidth<0 then 0
    else width-terminalScrollbarWidth
  if availableWidth.tdiv display.charWidth > terminalMaxSize then
    terminalMaxSize*display.charWidth+terminalScrollbarWidth
  else width

/-- guac_terminal_resize, with its scrollbar. -/
def resizeScrollbar (memory : Memory) (s : ScrollbarTerminal) (width height : ℤ) :
    ScrollbarTerminal :=
  { terminal := guacTerminalResize memory s.terminal width height
    scrollbar := guacTerminalScrollbarParentResized s.scrollbar
      (s.terminal.display.pixelWidth width) (s.terminal.display.pixelHeight height)
      (s.terminal.display.rowsOf height) }

/-- guac_terminal_scrollbar_alloc, given what is in the memory of the drag. -/
def guacTerminalScrollbarAlloc (drag : ℤ×ℤ) (parentWidth parentHeight visibleArea : ℤ) :
    Scrollbar :=
  guacTerminalScrollbarParentResized ⟨0,0,0,⟨0,0,0,0,0,0,0,0⟩,false,drag.1,drag.2⟩
    parentWidth parentHeight visibleArea

/-- guac_terminal_create, with its scrollbar. -/
def createScrollbar (memory : Memory) (drag : ℤ×ℤ) (settings : TerminalSettings)
    (width height : ℤ) : ScrollbarTerminal :=
  let alloc := guacTerminalAlloc memory settings width height
  { terminal := guacTerminalCreate memory settings width height
    scrollbar := guacTerminalScrollbarAlloc drag (alloc.display.pixelWidth width)
      (alloc.display.pixelHeight height) alloc.termHeight }

/-- What is done to a terminal and to its scrollbar. -/
inductive ScrollbarOp
  /-- A byte of guac_terminal_write. -/
  | write (c : UInt8) (uninitializedWidth : ℤ)
  | resize (memory : Memory) (width height : Int32)
  | scrollDisplayDown (scrollAmount : Int32)
  | scrollDisplayUp (scrollAmount : Int32)
  /-- A mouse event of guac_terminal_send_mouse. -/
  | mouse (x y mask : Int32)
  | flush

/-- A terminal and its scrollbar after something is done to them, or none where that
is undefined. -/
def scrollbarStep (env : TerminalEnv) (op : ScrollbarOp) (s : ScrollbarTerminal) :
    Option ScrollbarTerminal :=
  match op with
  | .write c uninitializedWidth =>
    some { s with
      terminal := handleChar { env with uninitializedWidth := uninitializedWidth } s.terminal c }
  | .resize memory width height => some (resizeScrollbar memory s width.toInt height.toInt)
  | .scrollDisplayDown scrollAmount =>
    some { s with terminal := guacTerminalScrollDisplayDown s.terminal scrollAmount.toInt }
  | .scrollDisplayUp scrollAmount =>
    some { s with terminal := guacTerminalScrollDisplayUp s.terminal scrollAmount.toInt }
  | .mouse x y mask =>
    some { s with
      scrollbar :=
        (guacTerminalScrollbarHandleMouse s.scrollbar x.toInt y.toInt mask.toInt).1 }
  | .flush => guacTerminalScrollbarFlush { s with terminal := guacTerminalFlush s.terminal }

end GuacServer.Terminal
