import GuacServer.TerminalDisplay

/-!
# The state of a terminal and the operations on it

terminal/terminal.c, with what terminal/select.c and terminal/scrollbar.c do to
the state of a terminal. Locks, threads, typescripts and what is sent to users
are left out. Sums in which a parameter of an escape sequence takes part are
those of ints.
-/

namespace GuacServer.Terminal

open DecimalNumerals

/-- The handlers of bytes written to a terminal. -/
inductive CharHandler
  | echo
  | escape
  | g0Charset
  | g1Charset
  | csi
  | osc
  | download
  | setDirectory
  | openPipeStream
  | closePipeStream
  | setScrollback
  | windowTitle
  | xtermPalette
  | ctrlFunc
  | apc
  deriving DecidableEq

/-- The tables of terminal/char_mappings.c. -/
inductive CharMapping
  | vt100Map
  | nullMap
  | userMap
  deriving DecidableEq

/-- What is sent for the pipe streams that a terminal opens. -/
inductive PipeInstruction
  | pipe (name : List UInt8)
  | blob (data : List UInt8)
  | finish
  deriving DecidableEq

/-- The static variables of the handlers. -/
structure HandlerStatics where
  /-- guac_terminal_echo: the bytes that the character still lacks. -/
  bytesRemaining : ℤ
  /-- guac_terminal_echo: the code point so far. -/
  codepoint : ℤ
  /-- guac_terminal_csi: the number of parameters. -/
  argc : ℕ
  /-- guac_terminal_csi: the sixteen parameters. -/
  argv : List ℤ
  /-- guac_terminal_csi: the prefix of the sequence, or zero. -/
  privateModeCharacter : UInt8
  /-- guac_terminal_csi: the digits of the parameter. -/
  argvBuffer : List UInt8
  /-- guac_terminal_set_directory: the name so far. -/
  uploadFilename : List UInt8
  /-- guac_terminal_download: the name so far. -/
  downloadFilename : List UInt8
  /-- guac_terminal_open_pipe_stream: the parameter so far. -/
  pipeParam : List UInt8
  /-- guac_terminal_open_pipe_stream: the flags so far. -/
  pipeFlags : ℤ
  /-- guac_terminal_set_scrollback: the parameter so far. -/
  scrollbackParam : List UInt8
  /-- guac_terminal_window_title: the title so far. -/
  title : List UInt8
  /-- guac_terminal_xterm_palette: the colour is read, not the index. -/
  readColorSpec : Bool
  /-- guac_terminal_xterm_palette: the index so far. -/
  paletteIndex : ℤ
  /-- guac_terminal_xterm_palette: the colour so far. -/
  colorSpec : List UInt8
  /-- guac_terminal_osc: the operation so far. -/
  operation : ℤ
  /-- guac_terminal_apc: the last byte was ESC. -/
  escaping : Bool
  deriving DecidableEq

/-- The static variables as they are initialised. -/
def HandlerStatics.initial : HandlerStatics :=
  ⟨0,0,0,List.replicate 16 0,0,[],[],[],[],0,[],[],false,0,[],0,false⟩

/-- guac_terminal, with the static variables of its handlers. -/
structure GuacTerminal where
  buffer : Buffer
  display : Display
  /-- The width in characters. -/
  termWidth : ℤ
  /-- The height in characters. -/
  termHeight : ℤ
  maxScrollback : ℤ
  requestedScrollback : ℤ
  /-- The number of rows that are scrolled into view. -/
  scrollOffset : ℤ
  /-- The first row of the scrolling region. -/
  scrollStart : ℤ
  /-- The last row of the scrolling region. -/
  scrollEnd : ℤ
  cursorRow : ℤ
  cursorCol : ℤ
  /-- The row of the rendered cursor. -/
  visibleCursorRow : ℤ
  /-- The column of the rendered cursor. -/
  visibleCursorCol : ℤ
  savedCursorRow : ℤ
  savedCursorCol : ℤ
  currentAttributes : Attributes
  defaultChar : TerminalChar
  charHandler : CharHandler
  /-- The mappings of G0 and G1, or none for Unicode. -/
  charMapping : Option CharMapping×Option CharMapping
  activeCharSet : ℕ
  tabInterval : ℤ
  /-- The columns of the tabs plus one, or zero where none is set. -/
  customTabs : List ℤ
  applicationCursorKeys : Bool
  automaticCarriageReturn : Bool
  insertMode : Bool
  textSelected : Bool
  selectionCommitted : Bool
  selectionStartRow : ℤ
  selectionStartColumn : ℤ
  selectionStartWidth : ℤ
  selectionEndRow : ℤ
  selectionEndColumn : ℤ
  selectionEndWidth : ℤ
  scrollbarMin : ℤ
  scrollbarMax : ℤ
  scrollbarValue : ℤ
  /-- A pipe stream is open. -/
  pipeStream : Bool
  pipeStreamFlags : ℤ
  pipeBuffer : List UInt8
  /-- What was sent for pipe streams so far. -/
  pipeSent : List PipeInstruction
  statics : HandlerStatics

/-- A loop over some integers from the first one on. -/
def forRange {α : Type} (body : ℤ→α→α) : ℕ→ℤ→α→α
  | 0, _, a => a
  | count+1, i, a => forRange body count (i+1) (body i a)

/-- A loop from one integer up to another. -/
def forTo {α : Type} (body : ℤ→α→α) (first last : ℤ) (a : α) : α :=
  forRange body (last-first+1).toNat first a

/-! ## Selection and scrollbar -/

/-- guac_terminal_select_contains. -/
def guacTerminalSelectContains (term : GuacTerminal) (startRow startColumn endRow endColumn : ℤ) :
    Bool :=
  let ordered := term.selectionStartRow<term.selectionEndRow ∨
    term.selectionStartRow=term.selectionEndRow ∧ term.selectionStartColumn<term.selectionEndColumn
  let firstRow := if ordered then term.selectionStartRow else term.selectionEndRow
  let firstColumn := if ordered then term.selectionStartColumn else term.selectionEndColumn
  let lastRow := if ordered then term.selectionEndRow else term.selectionStartRow
  let lastColumn :=
    if ordered then term.selectionEndColumn+term.selectionEndWidth-1
    else term.selectionStartColumn+term.selectionStartWidth-1
  term.textSelected && !decide (startRow > lastRow ∨ startRow=lastRow ∧ startColumn > lastColumn ∨
      endRow<firstRow ∨ endRow=firstRow ∧ endColumn<firstColumn)

/-- guac_terminal_select_touch. -/
def guacTerminalSelectTouch (term : GuacTerminal) (startRow startColumn endRow endColumn : ℤ) :
    GuacTerminal :=
  if term.selectionCommitted &&
      guacTerminalSelectContains term startRow startColumn endRow endColumn then
    { term with textSelected := false, selectionCommitted := false }
  else term

/-- guac_terminal_scrollbar_set_bounds. -/
def guacTerminalScrollbarSetBounds (term : GuacTerminal) (min max : ℤ) : GuacTerminal :=
  { term with
    scrollbarValue :=
      if term.scrollbarValue > max then max
      else if term.scrollbarValue < min then min else term.scrollbarValue
    scrollbarMin := min
    scrollbarMax := max }

/-- guac_terminal_scrollbar_set_value. -/
def guacTerminalScrollbarSetValue (term : GuacTerminal) (value : ℤ) : GuacTerminal :=
  { term with
    scrollbarValue :=
      if value > term.scrollbarMax then term.scrollbarMax
      else if value<term.scrollbarMin then term.scrollbarMin else value }

/-- guac_terminal_effective_buffer_length. -/
def guacTerminalEffectiveBufferLength (term : GuacTerminal) : ℤ :=
  let scrollback :=
    if term.requestedScrollback > term.maxScrollback then term.maxScrollback
    else if term.requestedScrollback<term.termHeight then term.termHeight
    else term.requestedScrollback
  if term.buffer.length > scrollback then scrollback else term.buffer.length

/-- guac_terminal_available_scroll. -/
def guacTerminalAvailableScroll (term : GuacTerminal) : ℤ :=
  guacTerminalEffectiveBufferLength term-term.termHeight

/-! ## Columns -/

/-- __guac_terminal_set_columns. -/
def setColumnsUnbroken (term : GuacTerminal) (row startColumn endColumn : ℤ)
    (character : TerminalChar) : GuacTerminal :=
  guacTerminalSelectTouch
    { term with
      display := guacTerminalDisplaySetColumns term.display (wrap32 (row+term.scrollOffset))
        startColumn endColumn character
      buffer := guacTerminalBufferSetColumns term.buffer row startColumn endColumn character }
    row startColumn row endColumn

/-- The first column of a character of which a column is given, as
__guac_terminal_force_break walks back to it. -/
def characterStart (characters : ℤ→TerminalChar) : ℕ→ℤ
  | 0 => 0
  | column+1 =>
    if (characters (column+1)).value=charContinuation then characterStart characters column
    else column+1

/-- The last column of a character of which a column is given, as
__guac_terminal_force_break walks to it in a row of the given length. -/
def characterEnd (characters : ℤ→TerminalChar) (length : ℤ) : ℕ→ℤ→ℤ
  | 0, column => column
  | fuel+1, column =>
    if column+1<length ∧ (characters (column+1)).value=charContinuation then
      characterEnd characters length fuel (column+1)
    else column

/-- The columns of a character that does not have exactly these are cleared. -/
def clearBroken (term : GuacTerminal) (row startColumn endColumn : ℤ) : GuacTerminal :=
  let characters := (term.buffer.row row).characters
  let startColumn :=
    if (characters startColumn).value≠charContinuation ∧
        (characters startColumn).width<endColumn-startColumn+1 then
      startColumn+(characters startColumn).width
    else startColumn
  let startChar := characters startColumn
  if startChar.value=charContinuation ∨ startChar.width≠endColumn-startColumn+1 then
    setColumnsUnbroken term row startColumn endColumn ⟨32,startChar.attributes,1⟩
  else term

/-- __guac_terminal_force_break. -/
def forceBreak (term : GuacTerminal) (row edge : ℤ) : GuacTerminal :=
  let term := { term with buffer := guacTerminalBufferGetRow term.buffer row 0 }
  let term :=
    if edge > 0 then
      clearBroken term row (characterStart (term.buffer.row row).characters (edge-1).toNat) (edge-1)
    else term
  let bufferRow := term.buffer.row row
  if edge≥0 ∧ edge<bufferRow.length then
    clearBroken term row edge
      (characterEnd bufferRow.characters bufferRow.length (bufferRow.length-edge).toNat edge)
  else term

/-- A character with or without the attribute of the cursor. -/
def TerminalChar.marked (character : TerminalChar) (cursor : Bool) : TerminalChar :=
  { character with attributes := { character.attributes with cursor := cursor } }

/-- guac_terminal_set_columns. -/
def guacTerminalSetColumns (term : GuacTerminal) (row startColumn endColumn : ℤ)
    (character : TerminalChar) : GuacTerminal :=
  let term := setColumnsUnbroken term row startColumn endColumn character
  let term :=
    if row=term.visibleCursorRow ∧ term.visibleCursorCol≥startColumn ∧
        term.visibleCursorCol≤endColumn then
      setColumnsUnbroken term row term.visibleCursorCol term.visibleCursorCol
        (character.marked true)
    else term
  forceBreak (forceBreak term row startColumn) row (wrap32 (endColumn+1))

/-- guac_terminal_set, given what wcwidth says of the code point. -/
def guacTerminalSet (term : GuacTerminal) (row col codepoint columns : ℤ) : GuacTerminal :=
  let width := if columns<0 then 1 else columns
  if width=0 then term
  else
    guacTerminalSetColumns term row col (col+width-1) ⟨codepoint,term.currentAttributes,width⟩

/-- guac_terminal_copy_columns. -/
def guacTerminalCopyColumns (term : GuacTerminal) (row startColumn endColumn offset : ℤ) :
    GuacTerminal :=
  let term :=
    guacTerminalSelectTouch
      { term with
        display := guacTerminalDisplayCopyColumns term.display (wrap32 (row+term.scrollOffset))
          startColumn endColumn offset
        buffer := guacTerminalBufferCopyColumns term.buffer row startColumn endColumn offset }
      row startColumn row endColumn
  let term :=
    if row=term.visibleCursorRow ∧ term.visibleCursorCol≥startColumn ∧
        term.visibleCursorCol≤endColumn then
      { term with visibleCursorCol := term.visibleCursorCol+offset }
    else term
  forceBreak (forceBreak term row (wrap32 (startColumn+offset))) row (wrap32 (endColumn+offset+1))

/-- guac_terminal_clear_columns. -/
def guacTerminalClearColumns (term : GuacTerminal) (row startCol endCol : ℤ) : GuacTerminal :=
  guacTerminalSetColumns term row startCol endCol ⟨0,term.currentAttributes,1⟩

/-! ## Rows -/

/-- guac_terminal_copy_rows. -/
def guacTerminalCopyRows (term : GuacTerminal) (startRow endRow offset : ℤ) : GuacTerminal :=
  let term :=
    guacTerminalSelectTouch
      { term with
        display := guacTerminalDisplayCopyRows term.display (wrap32 (startRow+term.scrollOffset))
          (wrap32 (endRow+term.scrollOffset)) offset
        buffer := guacTerminalBufferCopyRows term.buffer startRow endRow offset }
      startRow 0 endRow term.termWidth
  if term.visibleCursorRow≥startRow ∧ term.visibleCursorRow≤endRow then
    { term with visibleCursorRow := term.visibleCursorRow+offset }
  else term

/-- guac_terminal_clear_range. -/
def guacTerminalClearRange (term : GuacTerminal) (startRow startCol endRow endCol : ℤ) :
    GuacTerminal :=
  let width := term.termWidth
  let first :=
    if startCol > 0 then
      (guacTerminalClearColumns term startRow startCol (width-1),startRow+1)
    else (term,startRow)
  let last :=
    if endCol<width-1 then (guacTerminalClearColumns first.1 endRow 0 endCol,endRow-1)
    else (first.1,endRow)
  forTo (fun row term => guacTerminalClearColumns term row 0 (width-1)) first.2 last.2 last.1

/-- The scrollback advances by some rows, as guac_terminal_scroll_up does for
the entire display. -/
def advanceBuffer (buffer : Buffer) (amount : ℤ) : Buffer :=
  let top := wrap32 (buffer.top+amount)
  let length := wrap32 (buffer.length+amount)
  { buffer with
    top := if top≥buffer.available then top-buffer.available else top
    length := if length > buffer.available then buffer.available else length }

/-- guac_terminal_scroll_up. -/
def guacTerminalScrollUp (term : GuacTerminal) (startRow endRow amount : ℤ) : GuacTerminal :=
  let term :=
    if startRow=0 ∧ endRow=term.termHeight-1 then
      let term := { term with
        display := guacTerminalDisplayCopyRows term.display (wrap32 (startRow+amount)) endRow
          (wrap32 (-amount))
        buffer := advanceBuffer term.buffer amount }
      let term := guacTerminalScrollbarSetBounds term (-guacTerminalAvailableScroll term) 0
      let term :=
        if term.visibleCursorRow≥startRow ∧ term.visibleCursorRow≤endRow then
          { term with visibleCursorRow := term.visibleCursorRow-amount }
        else term
      if term.textSelected then
        { term with
          selectionStartRow := term.selectionStartRow-amount
          selectionEndRow := term.selectionEndRow-amount }
      else term
    else
      guacTerminalCopyRows term (wrap32 (startRow+amount)) endRow (wrap32 (-amount))
  guacTerminalClearRange term (wrap32 (endRow-amount+1)) 0 endRow (term.termWidth-1)

/-- guac_terminal_scroll_down. -/
def guacTerminalScrollDown (term : GuacTerminal) (startRow endRow amount : ℤ) : GuacTerminal :=
  guacTerminalClearRange (guacTerminalCopyRows term startRow (wrap32 (endRow-amount)) amount)
    startRow 0 (wrap32 (startRow+amount-1)) (term.termWidth-1)

/-- guac_terminal_reset. -/
def guacTerminalReset (term : GuacTerminal) : GuacTerminal :=
  let term := { term with
    charHandler := .echo
    activeCharSet := 0
    charMapping := (none,none)
    cursorRow := 0
    visibleCursorRow := 0
    savedCursorRow := 0
    cursorCol := 0
    visibleCursorCol := 0
    savedCursorCol := 0
    buffer := { term.buffer with top := 0, length := 0 }
    scrollStart := 0
    scrollEnd := term.termHeight-1
    scrollOffset := 0 }
  let term := guacTerminalScrollbarSetBounds term 0 0
  let term := guacTerminalScrollbarSetValue term (-term.scrollOffset)
  let term := { term with
    textSelected := false
    selectionCommitted := false
    applicationCursorKeys := false
    automaticCarriageReturn := false
    insertMode := false
    tabInterval := 8
    customTabs := List.replicate 16 0
    currentAttributes := term.defaultChar.attributes
    display := guacTerminalDisplayResetPalette term.display }
  forTo (fun row t => guacTerminalSetColumns t row 0 term.termWidth term.defaultChar)
    0 (term.termHeight-1) term

/-! ## What is drawn again from the scrollback -/

/-- guac_terminal_colorcmp gives zero. -/
def sameColor (a b : Color) : Bool :=
  if a.paletteIndex ≠ -1 ∧ b.paletteIndex ≠ -1 then decide (a.paletteIndex=b.paletteIndex)
  else decide (a.red=b.red ∧ a.green=b.green ∧ a.blue=b.blue)

/-- guac_terminal_has_glyph. -/
def guacTerminalHasGlyph (codepoint : ℤ) : Bool :=
  decide (codepoint≠0 ∧ codepoint≠32 ∧ codepoint≠charContinuation)

/-- guac_terminal_is_visible. -/
def guacTerminalIsVisible (term : GuacTerminal) (c : TerminalChar) : Bool :=
  if c.value=charContinuation then false
  else if guacTerminalHasGlyph c.value then true
  else
    let background :=
      if c.attributes.reverse≠c.attributes.cursor then c.attributes.foreground
      else c.attributes.background
    !sameColor background term.defaultChar.attributes.background

/-- A row of the display is drawn from a row of the scrollback, between two
columns. -/
def drawRow (row startCol endCol lastCol : ℤ) (bufferRow : BufferRow) (term : GuacTerminal) :
    GuacTerminal :=
  let cleared := guacTerminalDisplaySetColumns term.display row startCol endCol term.defaultChar
  { term with
    display := forTo (fun col display =>
        if guacTerminalIsVisible term (bufferRow.characters col) then
          guacTerminalDisplaySetColumns display row col col (bufferRow.characters col)
        else display)
      startCol lastCol cleared }

/-- Rows of the scrollback are drawn from a row of the display on, as
guac_terminal_scroll_display_up and guac_terminal_scroll_display_down do. -/
def drawScrollback (startRow endRow destRow : ℤ) (term : GuacTerminal) : GuacTerminal :=
  forTo (fun row term =>
      let term := { term with buffer := guacTerminalBufferGetRow term.buffer row 0 }
      let bufferRow := term.buffer.row row
      drawRow (destRow+(row-startRow)) 0 term.display.width (bufferRow.length-1) bufferRow term)
    startRow endRow term

/-- guac_terminal_scroll_display_down. -/
def guacTerminalScrollDisplayDown (term : GuacTerminal) (scrollAmount : ℤ) : GuacTerminal :=
  let scrollAmount := if scrollAmount > term.scrollOffset then term.scrollOffset else scrollAmount
  if scrollAmount≤0 then term
  else
    let display :=
      if term.termHeight > scrollAmount then
        guacTerminalDisplayCopyRows term.display scrollAmount (term.termHeight-1) (-scrollAmount)
      else term.display
    let term := { term with display := display, scrollOffset := term.scrollOffset-scrollAmount }
    let term := guacTerminalScrollbarSetValue term (-term.scrollOffset)
    let endRow := term.termHeight-term.scrollOffset-1
    drawScrollback (endRow-scrollAmount+1) endRow (term.termHeight-scrollAmount) term

/-- guac_terminal_scroll_display_up. -/
def guacTerminalScrollDisplayUp (term : GuacTerminal) (scrollAmount : ℤ) : GuacTerminal :=
  let availableScroll := guacTerminalAvailableScroll term
  let scrollAmount :=
    if wrap32 (term.scrollOffset+scrollAmount) > availableScroll then
      availableScroll-term.scrollOffset
    else scrollAmount
  if scrollAmount≤0 then term
  else
    let display :=
      if term.termHeight > scrollAmount then
        guacTerminalDisplayCopyRows term.display 0 (term.termHeight-scrollAmount-1) scrollAmount
      else term.display
    let term := { term with
      display := display
      scrollOffset := wrap32 (term.scrollOffset+scrollAmount) }
    let term := guacTerminalScrollbarSetValue term (-term.scrollOffset)
    let startRow := -term.scrollOffset
    drawScrollback startRow (startRow+scrollAmount-1) 0 term

/-- __guac_terminal_redraw_rect. -/
def redrawRect (startRow startCol endRow endCol : ℤ) (term : GuacTerminal) : GuacTerminal :=
  forTo (fun row term =>
      let bufferIndex := row-term.scrollOffset
      let term := { term with buffer := guacTerminalBufferGetRow term.buffer bufferIndex 0 }
      let bufferRow := term.buffer.row bufferIndex
      drawRow row startCol endCol (min endCol (bufferRow.length-1)) bufferRow term)
    startRow endRow term

/-! ## Size, creation and flush -/

/-- What is in memory that was allocated and not written. -/
structure Memory where
  /-- The cells of the rows of a new buffer. -/
  characters : ℤ→ℤ→TerminalChar
  /-- The operations of a new grid. -/
  operations : ℤ→ℤ→Operation

/-- The rows that are lost when the height decreases are shifted out of the
display, as __guac_terminal_resize does first. -/
def shrinkHeight (term : GuacTerminal) (width height : ℤ) : GuacTerminal :=
  if height<term.termHeight then
    let bufferLength := guacTerminalEffectiveBufferLength term
    let usedHeight := if bufferLength > term.termHeight then term.termHeight else bufferLength
    let shiftAmount := usedHeight-height
    if shiftAmount > 0 then
      redrawRect (height-shiftAmount) 0 (height-1) (width-1)
        { term with
          display := guacTerminalDisplayCopyRows term.display shiftAmount
            (term.display.height-1) (-shiftAmount)
          buffer := { term.buffer with top := wrap32 (term.buffer.top+shiftAmount) }
          cursorRow := term.cursorRow-shiftAmount
          visibleCursorRow := term.visibleCursorRow-shiftAmount }
    else term
  else term

/-- The rows that are gained when the height increases are taken from the
scrollback, as __guac_terminal_resize does last. -/
def growHeight (term : GuacTerminal) (width height : ℤ) : GuacTerminal :=
  if height > term.termHeight then
    let availableScroll := guacTerminalAvailableScroll term
    if availableScroll > 0 then
      let shiftAmount :=
        if height-term.termHeight > availableScroll then availableScroll
        else height-term.termHeight
      let term := { term with
        buffer := { term.buffer with top := wrap32 (term.buffer.top-shiftAmount) }
        cursorRow := term.cursorRow+shiftAmount
        visibleCursorRow := term.visibleCursorRow+shiftAmount }
      if term.scrollOffset≥shiftAmount then
        let term := { term with scrollOffset := term.scrollOffset-shiftAmount }
        let term := guacTerminalScrollbarSetValue term (-term.scrollOffset)
        redrawRect term.termHeight 0 (term.termHeight+shiftAmount-1) (width-1) term
      else
        let term :=
          redrawRect term.termHeight 0 (term.termHeight+term.scrollOffset-1) (width-1) term
        let shiftAmount := shiftAmount-term.scrollOffset
        let term := { term with scrollOffset := 0 }
        let term := guacTerminalScrollbarSetValue term (-term.scrollOffset)
        if shiftAmount > 0 then
          redrawRect 0 0 (shiftAmount-1) (width-1)
            { term with
              display := guacTerminalDisplayCopyRows term.display 0
                (term.display.height-shiftAmount-1) shiftAmount }
        else term
    else term
  else term

/-- __guac_terminal_resize. -/
def resizeCharacters (memory : Memory) (term : GuacTerminal) (width height : ℤ) : GuacTerminal :=
  let term := shrinkHeight term width height
  let term := { term with
    display := guacTerminalDisplayResize (guacTerminalDisplayFlush term.display) width height
      memory.operations }
  let term :=
    if width > term.termWidth then
      redrawRect 0 (term.termWidth-1) (height-1) (width-1) term
    else term
  let term := growHeight term width height
  let cursorRow := if term.cursorRow<0 then 0 else term.cursorRow
  let cursorCol := if term.cursorCol<0 then 0 else term.cursorCol
  { term with
    cursorRow := if cursorRow≥height then height-1 else cursorRow
    cursorCol := if cursorCol≥width then width-1 else cursorCol
    termWidth := width
    termHeight := height }

/-- GUAC_TERMINAL_SCROLLBAR_WIDTH. -/
def terminalScrollbarWidth : ℤ := 16

/-- GUAC_TERMINAL_MAX_ROWS and GUAC_TERMINAL_MAX_COLUMNS. -/
def terminalMaxSize : ℤ := 1024

/-- The number of characters that fit a number of pixels. -/
def fittingCharacters (pixels charPixels : ℤ) : ℤ :=
  let count := pixels.tdiv charPixels
  if count > terminalMaxSize then terminalMaxSize else count

/-- The rows of a terminal of the given height in pixels. -/
def Display.rowsOf (display : Display) (height : ℤ) : ℤ :=
  fittingCharacters height display.charHeight

/-- The columns of a terminal of the given width in pixels. -/
def Display.columnsOf (display : Display) (width : ℤ) : ℤ :=
  let availableWidth := if width-terminalScrollbarWidth<0 then 0
    else width-terminalScrollbarWidth
  fittingCharacters availableWidth display.charWidth

/-- guac_terminal_resize. -/
def guacTerminalResize (memory : Memory) (term : GuacTerminal) (width height : ℤ) : GuacTerminal :=
  let rows := term.display.rowsOf height
  let columns := term.display.columnsOf width
  let term :=
    if columns≠term.termWidth ∨ rows≠term.termHeight then
      { resizeCharacters memory term columns rows with scrollEnd := rows-1 }
    else term
  guacTerminalScrollbarSetBounds term (-guacTerminalAvailableScroll term) 0

/-- The cell at a cursor is marked, or no longer, as guac_terminal_commit_cursor
does. -/
def markCursor (row col : ℤ) (cursor : Bool) (term : GuacTerminal) : GuacTerminal :=
  let bufferRow := term.buffer.row row
  let marked := (bufferRow.characters col).marked cursor
  { term with
    buffer := term.buffer.setRow row
      { bufferRow with characters := Function.update bufferRow.characters col marked }
    display := guacTerminalDisplaySetColumns term.display (wrap32 (row+term.scrollOffset))
      col col marked }

/-- guac_terminal_commit_cursor. -/
def guacTerminalCommitCursor (term : GuacTerminal) : GuacTerminal :=
  if term.visibleCursorRow=term.cursorRow ∧ term.visibleCursorCol=term.cursorCol then term
  else
    let buffer := guacTerminalBufferGetRow term.buffer term.cursorRow (term.cursorCol+1)
    let buffer := guacTerminalBufferGetRow buffer term.visibleCursorRow (term.visibleCursorCol+1)
    let term :=
      markCursor term.visibleCursorRow term.visibleCursorCol false { term with buffer := buffer }
    let term := markCursor term.cursorRow term.cursorCol true term
    { term with visibleCursorRow := term.cursorRow, visibleCursorCol := term.cursorCol }

/-- guac_terminal_pipe_stream_flush. -/
def guacTerminalPipeStreamFlush (term : GuacTerminal) : GuacTerminal :=
  if term.pipeStream ∧ term.pipeBuffer≠[] then
    { term with pipeBuffer := [], pipeSent := term.pipeSent++[.blob term.pipeBuffer] }
  else term

/-- guac_terminal_flush. -/
def guacTerminalFlush (term : GuacTerminal) : GuacTerminal :=
  let term := if term.pipeStreamFlags/2%2=1 then guacTerminalPipeStreamFlush term else term
  let term := guacTerminalCommitCursor term
  { term with display := guacTerminalDisplayFlush term.display }

/-- The fonts and colours of a new terminal, and its scrollback. -/
structure TerminalSettings where
  charWidth : ℤ
  charHeight : ℤ
  foreground : Color
  background : Color
  palette : ℤ → Color
  maxScrollback : ℤ

/-- guac_terminal_create, up to the reset that it ends with. -/
def guacTerminalAlloc (memory : Memory) (settings : TerminalSettings) (width height : ℤ) :
    GuacTerminal :=
  let attributes : Attributes :=
    ⟨false,false,false,false,false,settings.foreground,settings.background⟩
  let defaultChar : TerminalChar := ⟨0,attributes,1⟩
  let display : Display := ⟨memory.operations,0,0,settings.charWidth,settings.charHeight,
    settings.palette,settings.palette,settings.foreground,settings.background,true⟩
  let rows := display.rowsOf height
  let columns := display.columnsOf width
  { buffer := guacTerminalBufferAlloc (max settings.maxScrollback terminalMaxSize) defaultChar
      memory.characters
    display := guacTerminalDisplayResize display columns rows memory.operations
    termWidth := columns
    termHeight := rows
    maxScrollback := settings.maxScrollback
    requestedScrollback := settings.maxScrollback
    scrollOffset := 0
    scrollStart := 0
    scrollEnd := 0
    cursorRow := 0
    cursorCol := 0
    visibleCursorRow := 0
    visibleCursorCol := 0
    savedCursorRow := 0
    savedCursorCol := 0
    currentAttributes := attributes
    defaultChar := defaultChar
    charHandler := .echo
    charMapping := (none,none)
    activeCharSet := 0
    tabInterval := 8
    customTabs := List.replicate 16 0
    applicationCursorKeys := false
    automaticCarriageReturn := false
    insertMode := false
    textSelected := false
    selectionCommitted := false
    selectionStartRow := 0
    selectionStartColumn := 0
    selectionStartWidth := 0
    selectionEndRow := 0
    selectionEndColumn := 0
    selectionEndWidth := 0
    scrollbarMin := 0
    scrollbarMax := 0
    scrollbarValue := 0
    pipeStream := false
    pipeStreamFlags := 0
    pipeBuffer := []
    pipeSent := []
    statics := HandlerStatics.initial }

/-- guac_terminal_create. -/
def guacTerminalCreate (memory : Memory) (settings : TerminalSettings) (width height : ℤ) :
    GuacTerminal :=
  guacTerminalReset (guacTerminalAlloc memory settings width height)

end GuacServer.Terminal
