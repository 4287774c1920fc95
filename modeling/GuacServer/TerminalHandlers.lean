import GuacServer.Terminal
import GuacServer.UserHandlers

/-!
# The handlers of bytes written to a terminal

terminal/terminal_handlers.c. A byte goes to the handler that the terminal is
in, which may put another in its place. What is sent to the program in the
terminal, logged or passed to the handlers of file transfers is left out.
-/

namespace GuacServer.Terminal

open DecimalNumerals UserHandlers

/-- What the handlers take from elsewhere. -/
structure TerminalEnv where
  /-- wcwidth of the C library. -/
  wcwidth : ℤ→ℤ
  /-- An entry of a table of terminal/char_mappings.c, by its code. -/
  charTable : CharMapping→ℤ→ℤ
  /-- guac_terminal_xparsecolor. -/
  xparsecolor : List UInt8→Option Color
  /-- What the width of the character that guac_terminal_ctrl_func builds holds,
  which it does not set. -/
  uninitializedWidth : ℤ

variable (env : TerminalEnv)

/-! ## Cursor, tabs and pipe streams -/

/-- guac_terminal_linefeed. -/
def guacTerminalLinefeed (term : GuacTerminal) : GuacTerminal :=
  if term.cursorRow=term.scrollEnd then
    guacTerminalScrollUp term term.scrollStart term.scrollEnd 1
  else if term.cursorRow<term.termHeight-1 then { term with cursorRow := term.cursorRow+1 }
  else term

/-- guac_terminal_reverse_linefeed. -/
def guacTerminalReverseLinefeed (term : GuacTerminal) : GuacTerminal :=
  if term.cursorRow=term.scrollStart then
    guacTerminalScrollDown term term.scrollStart term.scrollEnd 1
  else if term.cursorRow > 0 then { term with cursorRow := term.cursorRow-1 }
  else term

/-- guac_terminal_move_cursor. -/
def guacTerminalMoveCursor (term : GuacTerminal) (row col : ℤ) : GuacTerminal :=
  { term with
    cursorRow := if row≥term.termHeight then term.termHeight-1 else if row<0 then 0 else row
    cursorCol := if col≥term.termWidth then term.termWidth-1 else if col<0 then 0 else col }

/-- guac_terminal_set_tab, where there is space for a tab. -/
def guacTerminalSetTab (term : GuacTerminal) (column : ℤ) : GuacTerminal :=
  if 0∈term.customTabs then
    { term with customTabs := term.customTabs.set (term.customTabs.idxOf 0) (column+1) }
  else term

/-- guac_terminal_unset_tab. -/
def guacTerminalUnsetTab (term : GuacTerminal) (column : ℤ) : GuacTerminal :=
  if column+1∈term.customTabs then
    { term with customTabs := term.customTabs.set (term.customTabs.idxOf (column+1)) 0 }
  else term

/-- guac_terminal_clear_tabs. -/
def guacTerminalClearTabs (term : GuacTerminal) : GuacTerminal :=
  { term with tabInterval := 0, customTabs := List.replicate 16 0 }

/-- guac_terminal_next_tab. -/
def guacTerminalNextTab (term : GuacTerminal) (column : ℤ) : ℤ :=
  let tabstop :=
    if term.tabInterval≠0 then (column.tdiv term.tabInterval+1)*term.tabInterval
    else term.termWidth-1
  term.customTabs.foldl (fun tabstop tab =>
      if tab-1 ≠ -1 ∧ tab-1 > column ∧ tab-1<tabstop then tab-1 else tabstop) tabstop

/-- The size of the pipe buffer. -/
def pipeBufferSize : ℕ := 6048

/-- guac_terminal_pipe_stream_write. -/
def guacTerminalPipeStreamWrite (term : GuacTerminal) (c : UInt8) : GuacTerminal :=
  if term.pipeStream then
    let term :=
      if term.pipeBuffer.length=pipeBufferSize then guacTerminalPipeStreamFlush term else term
    { term with pipeBuffer := term.pipeBuffer++[c] }
  else term

/-- guac_terminal_pipe_stream_close. -/
def guacTerminalPipeStreamClose (term : GuacTerminal) : GuacTerminal :=
  if term.pipeStream then
    let term := guacTerminalPipeStreamFlush term
    { term with pipeStream := false, pipeSent := term.pipeSent++[.finish] }
  else term

/-- guac_terminal_pipe_stream_open, if there is a stream to allocate. -/
def guacTerminalPipeStreamOpen (term : GuacTerminal) (name : List UInt8) (flags : ℤ) :
    GuacTerminal :=
  let term := guacTerminalPipeStreamClose term
  { term with
    pipeStream := true
    pipeBuffer := []
    pipeStreamFlags := flags
    pipeSent := term.pipeSent++[.pipe name] }

/-! ## Printed characters -/

/-- The mapping of the active character set. -/
def GuacTerminal.activeMapping (term : GuacTerminal) : Option CharMapping :=
  if term.activeCharSet=0 then term.charMapping.1 else term.charMapping.2

/-- The code point and the missing bytes after a byte, as guac_terminal_echo
keeps them. -/
def decodeByte (mapping : Option CharMapping) (codepoint bytesRemaining : ℤ) (c : UInt8) : ℤ×ℤ :=
  if mapping.isSome then (c.toNat,0)
  else if c &&& 0x80=0x00 then ((c &&& 0x7F).toNat,0)
  else if c &&& 0xE0=0xC0 then ((c &&& 0x1F).toNat,1)
  else if c &&& 0xF0=0xE0 then ((c &&& 0x0F).toNat,2)
  else if c &&& 0xF8=0xF0 then ((c &&& 0x07).toNat,3)
  else if c &&& 0xC0=0x80 then
    (wrap32 (codepoint*64)+(c &&& 0x3F).toNat,wrap32 (bytesRemaining-1))
  else (63,0)

/-- The cursor is moved to the next row if it is at the end of one. -/
def wrapCursor (term : GuacTerminal) : GuacTerminal :=
  if term.cursorCol≥term.termWidth then guacTerminalLinefeed { term with cursorCol := 0 }
  else term

/-- The columns by which the cursor advances for a code point. -/
def advanceOf (codepoint : ℤ) : ℤ :=
  if env.wcwidth codepoint<0 then 1 else env.wcwidth codepoint

/-- A character is displayed at the cursor, as guac_terminal_echo does last. -/
def displayCharacter (term : GuacTerminal) (codepoint : ℤ) : GuacTerminal :=
  let term := wrapCursor term
  let term :=
    if term.insertMode then
      guacTerminalCopyColumns term term.cursorRow term.cursorCol (term.termWidth-2) 1
    else term
  let term := guacTerminalSet term term.cursorRow term.cursorCol codepoint (env.wcwidth codepoint)
  { term with cursorCol := term.cursorCol+advanceOf env codepoint }

/-- What guac_terminal_echo does with a complete character. -/
def echoCodepoint (term : GuacTerminal) (codepoint : ℤ) : GuacTerminal :=
  -- enquiry, bell and DEL
  if codepoint=0x05 ∨ codepoint=0x07 ∨ codepoint=0x7F then term
  -- backspace
  else if codepoint=0x08 then guacTerminalMoveCursor term term.cursorRow (term.cursorCol-1)
  -- tab
  else if codepoint=0x09 then
    guacTerminalMoveCursor term term.cursorRow (guacTerminalNextTab term term.cursorCol)
  -- line feed, VT and FF
  else if codepoint=0x0A ∨ codepoint=0x0B ∨ codepoint=0x0C then
    let term := guacTerminalLinefeed term
    if term.automaticCarriageReturn then guacTerminalMoveCursor term term.cursorRow 0 else term
  -- carriage return
  else if codepoint=0x0D then guacTerminalMoveCursor term term.cursorRow 0
  -- SO and SI
  else if codepoint=0x0E then { term with activeCharSet := 1 }
  else if codepoint=0x0F then { term with activeCharSet := 0 }
  -- ESC and CSI
  else if codepoint=0x1B then { term with charHandler := .escape }
  else if codepoint=0x9B then { term with charHandler := .csi }
  else if codepoint<0x20 then term
  else
    match term.activeMapping with
    | none => displayCharacter env term codepoint
    | some mapping =>
      let codepoint :=
        if codepoint≤0xFF then env.charTable mapping (codepoint-0x20) else codepoint
      displayCharacter env
        { term with statics := { term.statics with codepoint := codepoint } } codepoint

/-- guac_terminal_echo. -/
def guacTerminalEcho (term : GuacTerminal) (c : UInt8) : GuacTerminal :=
  let piped := term.pipeStream && decide (c≠0x1B)
  let term := if piped then guacTerminalPipeStreamWrite term c else term
  if piped ∧ term.pipeStreamFlags%2≠1 then term
  else
    let decoded :=
      decodeByte term.activeMapping term.statics.codepoint term.statics.bytesRemaining c
    let term := { term with
      statics := { term.statics with codepoint := decoded.1, bytesRemaining := decoded.2 } }
    if decoded.2≠0 then term else echoCodepoint env term decoded.1

/-- __guac_terminal_get_char_mapping. -/
def getCharMapping (c : UInt8) : Option CharMapping :=
  match Char.ofNat c.toNat with
  | '0' => some .vt100Map
  | 'U' => some .nullMap
  | 'K' => some .userMap
  | _ => none

/-- guac_terminal_g0_charset. -/
def guacTerminalG0Charset (term : GuacTerminal) (c : UInt8) : GuacTerminal :=
  { term with charMapping := (getCharMapping c,term.charMapping.2), charHandler := .echo }

/-- guac_terminal_g1_charset. -/
def guacTerminalG1Charset (term : GuacTerminal) (c : UInt8) : GuacTerminal :=
  { term with charMapping := (term.charMapping.1,getCharMapping c), charHandler := .echo }

/-- guac_terminal_escape. -/
def guacTerminalEscape (term : GuacTerminal) (c : UInt8) : GuacTerminal :=
  match Char.ofNat c.toNat with
  | '(' => { term with charHandler := .g0Charset }
  | ')' => { term with charHandler := .g1Charset }
  | ']' => { term with charHandler := .osc }
  | '[' => { term with charHandler := .csi }
  | '#' => { term with charHandler := .ctrlFunc }
  | '7' =>
    { term with
      savedCursorRow := term.cursorRow
      savedCursorCol := term.cursorCol
      charHandler := .echo }
  | '8' =>
    { guacTerminalMoveCursor term term.savedCursorRow term.savedCursorCol with
      charHandler := .echo }
  | 'D' => { guacTerminalLinefeed term with charHandler := .echo }
  | 'E' =>
    { guacTerminalLinefeed (guacTerminalMoveCursor term term.cursorRow 0) with
      charHandler := .echo }
  | 'H' => { guacTerminalSetTab term term.cursorCol with charHandler := .echo }
  | 'M' => { guacTerminalReverseLinefeed term with charHandler := .echo }
  | 'c' => guacTerminalReset term
  | '_' => { term with charHandler := .apc }
  | _ => { term with charHandler := .echo }

/-! ## CSI sequences -/

/-- guac_terminal_parse_xterm256: the number of arguments parsed and the colour. -/
def guacTerminalParseXterm256 (display : Display) (argv : List ℤ) (color : Color) : ℕ×Color :=
  match argv with
  | 2::red::green::blue::_ =>
    if red<0 ∨ red > 255 ∨ green<0 ∨ green > 255 ∨ blue<0 ∨ blue > 255 then (4,color)
    else (4,⟨-1,red.toNat,green.toNat,blue.toNat⟩)
  | 2::_ => (1,color)
  | 5::index::_ => (2,guacTerminalDisplayLookupColor display index color)
  | 5::_ => (1,color)
  | _ => (0,color)

/-- One graphics rendition: the attributes and the number of further arguments
it takes. -/
def graphicsRendition (display : Display) (normal attributes : Attributes) (value : ℤ)
    (argv : List ℤ) : ℕ×Attributes :=
  if value=0 then (0,normal)
  else if value=1 then (0,{ attributes with bold := true })
  else if value=2 then (0,{ attributes with halfBright := true })
  else if value=4 then (0,{ attributes with underscore := true })
  else if value=7 then (0,{ attributes with reverse := true })
  else if value=21 ∨ value=22 then (0,{ attributes with bold := false, halfBright := false })
  else if value=24 then (0,{ attributes with underscore := false })
  else if value=27 then (0,{ attributes with reverse := false })
  else if value≥30 ∧ value≤37 then
    (0,{ attributes with
      foreground := guacTerminalDisplayLookupColor display (value-30) attributes.foreground })
  else if value=38 then
    let parsed := guacTerminalParseXterm256 display argv attributes.foreground
    if parsed.1 > 0 then (parsed.1,{ attributes with foreground := parsed.2 })
    else (0,{ attributes with underscore := true, foreground := normal.foreground })
  else if value=39 then
    (0,{ attributes with underscore := false, foreground := normal.foreground })
  else if value≥40 ∧ value≤47 then
    (0,{ attributes with
      background := guacTerminalDisplayLookupColor display (value-40) attributes.background })
  else if value=48 then
    let parsed := guacTerminalParseXterm256 display argv attributes.background
    (parsed.1,{ attributes with background := parsed.2 })
  else if value=49 then (0,{ attributes with background := normal.background })
  else if value≥90 ∧ value≤97 then
    (0,{ attributes with
      foreground := guacTerminalDisplayLookupColor display
        (value-90+terminalFirstIntense) attributes.foreground })
  else if value≥100 ∧ value≤107 then
    (0,{ attributes with
      background := guacTerminalDisplayLookupColor display
        (value-100+terminalFirstIntense) attributes.background })
  else (0,attributes)

/-- The graphics renditions of a sequence, one after the other. -/
def graphicsRenditions (display : Display) (normal : Attributes) : Attributes→List ℤ→Attributes
  | attributes, [] => attributes
  | attributes, value::argv =>
    let rendition := graphicsRendition display normal attributes value argv
    graphicsRenditions display normal rendition.2 (argv.drop rendition.1)
termination_by _ argv => argv.length
decreasing_by
  rw [List.length_drop,List.length_cons]
  omega

/-- A flag that __guac_terminal_get_flag finds is given a value. -/
def setFlag (term : GuacTerminal) (num : ℤ) (privateMode : UInt8) (value : Bool) : GuacTerminal :=
  match Char.ofNat privateMode.toNat, num with
  | '?', 1 => { term with applicationCursorKeys := value }
  | '\x00', 4 => { term with insertMode := value }
  | '\x00', 20 => { term with automaticCarriageReturn := value }
  | _, _ => term

/-- The switch of guac_terminal_csi on the final byte, once the last parameter is
finished. -/
def csiFunction (term : GuacTerminal) (c : UInt8) : GuacTerminal :=
  let argc := term.statics.argc
  let first := term.statics.argv.getD 0 0
  let second := term.statics.argv.getD 1 0
  let amount := if first=0 then 1 else first
  let row := if first≠0 then wrap32 (first-1) else 0
  match Char.ofNat c.toNat with
  | '@' =>
    let term :=
      if wrap32 (term.cursorCol+amount)<term.termWidth then
        guacTerminalCopyColumns term term.cursorRow term.cursorCol
          (wrap32 (term.termWidth-amount-1)) amount
      else term
    guacTerminalClearColumns term term.cursorRow term.cursorCol (wrap32 (term.cursorCol+amount-1))
  | 'A' => guacTerminalMoveCursor term (wrap32 (term.cursorRow-amount)) term.cursorCol
  | 'e' | 'B' => guacTerminalMoveCursor term (wrap32 (term.cursorRow+amount)) term.cursorCol
  | 'a' | 'C' => guacTerminalMoveCursor term term.cursorRow (wrap32 (term.cursorCol+amount))
  | 'D' => guacTerminalMoveCursor term term.cursorRow (wrap32 (term.cursorCol-amount))
  | 'E' => guacTerminalMoveCursor term (wrap32 (term.cursorRow+amount)) 0
  | 'F' => guacTerminalMoveCursor term (wrap32 (term.cursorRow-amount)) 0
  | '`' | 'G' => guacTerminalMoveCursor term term.cursorRow row
  | 'f' | 'H' =>
    guacTerminalMoveCursor term row (if second≠0 then wrap32 (second-1) else 0)
  | 'J' =>
    if first=0 then
      guacTerminalClearRange term term.cursorRow term.cursorCol (term.termHeight-1)
        (term.termWidth-1)
    else if first=1 then guacTerminalClearRange term 0 0 term.cursorRow term.cursorCol
    else if first=2 ∨ first=3 then
      guacTerminalClearRange term 0 0 (term.termHeight-1) (term.termWidth-1)
    else term
  | 'K' =>
    if first=0 then
      guacTerminalClearColumns term term.cursorRow term.cursorCol (term.termWidth-1)
    else if first=1 then guacTerminalClearColumns term term.cursorRow 0 term.cursorCol
    else if first=2 then guacTerminalClearColumns term term.cursorRow 0 (term.termWidth-1)
    else term
  | 'L' => guacTerminalScrollDown term term.cursorRow term.scrollEnd amount
  | 'M' => guacTerminalScrollUp term term.cursorRow term.scrollEnd amount
  | 'P' =>
    let term :=
      if wrap32 (term.cursorCol+amount)<term.termWidth then
        guacTerminalCopyColumns term term.cursorRow (wrap32 (term.cursorCol+amount))
          (term.termWidth-1) (wrap32 (-amount))
      else term
    guacTerminalClearColumns term term.cursorRow (wrap32 (term.termWidth-amount)) (term.termWidth-1)
  | 'X' =>
    guacTerminalClearColumns term term.cursorRow term.cursorCol (wrap32 (term.cursorCol+amount-1))
  | 'd' => guacTerminalMoveCursor term row term.cursorCol
  | 'g' =>
    if first=0 then guacTerminalUnsetTab term term.cursorCol
    else if first=3 then guacTerminalClearTabs term
    else term
  | 'h' => setFlag term first term.statics.privateModeCharacter true
  | 'l' => setFlag term first term.statics.privateModeCharacter false
  | 'm' =>
    { term with
      currentAttributes := graphicsRenditions term.display term.defaultChar.attributes
        term.currentAttributes (term.statics.argv.take argc) }
  | 'r' =>
    if argc=2 then
      { term with scrollStart := wrap32 (first-1), scrollEnd := wrap32 (second-1) }
    else { term with scrollStart := 0, scrollEnd := term.termHeight-1 }
  | 's' => { term with savedCursorRow := term.cursorRow, savedCursorCol := term.cursorCol }
  | 'u' => guacTerminalMoveCursor term term.savedCursorRow term.savedCursorCol
  -- identification and reports are sent, everything else is ignored
  | _ => term

/-- The parameter that was read is finished, if there is space for it. -/
def HandlerStatics.finishParameter (statics : HandlerStatics) : HandlerStatics :=
  if statics.argc<16 then
    { statics with
      argv := statics.argv.set statics.argc (atoi statics.argvBuffer)
      argc := statics.argc+1
      argvBuffer := [] }
  else statics

/-- The parameters are reset at the end of a sequence. -/
def HandlerStatics.endSequence (statics : HandlerStatics) : HandlerStatics :=
  { statics with
    argv := List.replicate statics.argc 0++statics.argv.drop statics.argc
    privateModeCharacter := 0
    argc := 0
    argvBuffer := [] }

/-- guac_terminal_csi. -/
def guacTerminalCsi (term : GuacTerminal) (c : UInt8) : GuacTerminal :=
  if IsDigit c then
    if term.statics.argvBuffer.length<255 then
      { term with
        statics := { term.statics with argvBuffer := term.statics.argvBuffer++[c] } }
    else term
  else if 0x40≤c ∧ c≤0x7E ∨ c=0x3B then
    let term := { term with statics := term.statics.finishParameter }
    let term := csiFunction term c
    if c≠0x3B then
      { term with charHandler := .echo, statics := term.statics.endSequence }
    else term
  else if 0x3A≤c ∧ c≤0x3F ∧ term.statics.privateModeCharacter=0 then
    { term with statics := { term.statics with privateModeCharacter := c } }
  else term

/-! ## Strings and other sequences -/

/-- The bytes that end a string, for which ESC \ stands as well. -/
def IsStringTerminator (c : UInt8) : Prop := c=0x9C ∨ c=0x5C ∨ c=0x07

instance (c : UInt8) : Decidable (IsStringTerminator c) := inferInstanceAs (Decidable (_ ∨ _))

/-- A byte is stored in a string of limited length. -/
def storeByte (limit : ℕ) (string : List UInt8) (c : UInt8) : List UInt8 :=
  if string.length<limit then string++[c] else string

/-- guac_terminal_set_directory. -/
def guacTerminalSetDirectory (term : GuacTerminal) (c : UInt8) : GuacTerminal :=
  if IsStringTerminator c then
    { term with charHandler := .echo, statics := { term.statics with uploadFilename := [] } }
  else
    { term with
      statics := { term.statics with
        uploadFilename := storeByte 2047 term.statics.uploadFilename c } }

/-- guac_terminal_download. -/
def guacTerminalDownload (term : GuacTerminal) (c : UInt8) : GuacTerminal :=
  if IsStringTerminator c then
    { term with charHandler := .echo, statics := { term.statics with downloadFilename := [] } }
  else
    { term with
      statics := { term.statics with
        downloadFilename := storeByte 2047 term.statics.downloadFilename c } }

/-- The bits of two ints together. -/
def intOr (a b : ℤ) : ℤ := (BitVec.ofInt 32 a ||| BitVec.ofInt 32 b).toInt

/-- guac_terminal_open_pipe_stream. -/
def guacTerminalOpenPipeStream (term : GuacTerminal) (c : UInt8) : GuacTerminal :=
  if IsStringTerminator c then
    let term := guacTerminalPipeStreamOpen term term.statics.pipeParam term.statics.pipeFlags
    { term with
      charHandler := .echo
      statics := { term.statics with pipeParam := [], pipeFlags := 0 } }
  else if c=0x3B then
    { term with
      statics := { term.statics with
        pipeParam := []
        pipeFlags := intOr term.statics.pipeFlags (atoi term.statics.pipeParam) } }
  else
    { term with
      statics := { term.statics with pipeParam := storeByte 2047 term.statics.pipeParam c } }

/-- guac_terminal_close_pipe_stream. -/
def guacTerminalClosePipeStream (term : GuacTerminal) (c : UInt8) : GuacTerminal :=
  if IsStringTerminator c then { guacTerminalPipeStreamClose term with charHandler := .echo }
  else term

/-- guac_terminal_set_scrollback. -/
def guacTerminalSetScrollback (term : GuacTerminal) (c : UInt8) : GuacTerminal :=
  if IsStringTerminator c then
    let term := { term with requestedScrollback := atoi term.statics.scrollbackParam }
    let term := guacTerminalScrollbarSetBounds term (-guacTerminalAvailableScroll term) 0
    { term with charHandler := .echo, statics := { term.statics with scrollbackParam := [] } }
  else
    { term with
      statics := { term.statics with
        scrollbackParam := storeByte 15 term.statics.scrollbackParam c } }

/-- guac_terminal_window_title. -/
def guacTerminalWindowTitle (term : GuacTerminal) (c : UInt8) : GuacTerminal :=
  if IsStringTerminator c then
    { term with charHandler := .echo, statics := { term.statics with title := [] } }
  else
    { term with statics := { term.statics with title := storeByte 4095 term.statics.title c } }

/-- The display with a color of its palette assigned, if there is a color to assign. -/
def Display.assignParsed (display : Display) (index : ℤ) (color : Option Color) : Display :=
  match color with
  | some color => guacTerminalDisplayAssignColor display index color
  | none => display

/-- A byte of an index or of a color specification is read. -/
def readPalette (term : GuacTerminal) (c : UInt8) : GuacTerminal :=
  let statics := term.statics
  if statics.readColorSpec then
    if c=0x3B ∨ IsStringTerminator c then
      { term with
        display :=
          term.display.assignParsed statics.paletteIndex (env.xparsecolor statics.colorSpec)
        statics := { statics with readColorSpec := false, paletteIndex := 0 } }
    else { term with statics := { statics with colorSpec := storeByte 255 statics.colorSpec c } }
  else if IsDigit c then
    { term with
      statics := { statics with
        paletteIndex := accumulate statics.paletteIndex c } }
  else if c=0x3B then
    { term with statics := { statics with readColorSpec := true, colorSpec := [] } }
  else term

/-- guac_terminal_xterm_palette. -/
def guacTerminalXtermPalette (term : GuacTerminal) (c : UInt8) : GuacTerminal :=
  let term := readPalette env term c
  if IsStringTerminator c then { term with charHandler := .echo } else term

/-- guac_terminal_osc. -/
def guacTerminalOsc (term : GuacTerminal) (c : UInt8) : GuacTerminal :=
  if IsDigit c then
    { term with
      statics := { term.statics with operation := accumulate term.statics.operation c } }
  else if c=0x3B then
    { term with
      charHandler :=
        if term.statics.operation=482200 then .download
        else if term.statics.operation=482201 then .setDirectory
        else if term.statics.operation=482202 then .openPipeStream
        else if term.statics.operation=482203 then .closePipeStream
        else if term.statics.operation=482204 then .setScrollback
        else if term.statics.operation=0 ∨ term.statics.operation=2 then .windowTitle
        else if term.statics.operation=4 then .xtermPalette
        else term.charHandler
      statics := { term.statics with operation := 0 } }
  else { term with charHandler := .echo }

/-- guac_terminal_ctrl_func. -/
def guacTerminalCtrlFunc (term : GuacTerminal) (c : UInt8) : GuacTerminal :=
  let term :=
    if c=0x38 then
      forTo (fun row t => guacTerminalSetColumns t row 0 (term.termWidth-1)
          ⟨0x45,term.currentAttributes,env.uninitializedWidth⟩)
        0 (term.termHeight-1) term
    else term
  { term with charHandler := .echo }

/-- guac_terminal_apc. -/
def guacTerminalApc (term : GuacTerminal) (c : UInt8) : GuacTerminal :=
  { term with
    charHandler := if term.statics.escaping ∧ c=0x5C then .echo else term.charHandler
    statics := { term.statics with escaping := decide (c=0x1B) } }

/-- A byte is given to the handler of the terminal, as guac_terminal_write does. -/
def handleChar (term : GuacTerminal) (c : UInt8) : GuacTerminal :=
  match term.charHandler with
  | .echo => guacTerminalEcho env term c
  | .escape => guacTerminalEscape term c
  | .g0Charset => guacTerminalG0Charset term c
  | .g1Charset => guacTerminalG1Charset term c
  | .csi => guacTerminalCsi term c
  | .osc => guacTerminalOsc term c
  | .download => guacTerminalDownload term c
  | .setDirectory => guacTerminalSetDirectory term c
  | .openPipeStream => guacTerminalOpenPipeStream term c
  | .closePipeStream => guacTerminalClosePipeStream term c
  | .setScrollback => guacTerminalSetScrollback term c
  | .windowTitle => guacTerminalWindowTitle term c
  | .xtermPalette => guacTerminalXtermPalette env term c
  | .ctrlFunc => guacTerminalCtrlFunc env term c
  | .apc => guacTerminalApc term c

/-- guac_terminal_write. -/
def guacTerminalWrite (term : GuacTerminal) (c : List UInt8) : GuacTerminal :=
  c.foldl (handleChar env) term

end GuacServer.Terminal
