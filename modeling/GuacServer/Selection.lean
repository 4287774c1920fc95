import GuacServer.TerminalRows
import GuacServer.Utf8RoundTrip

/-!
# Selected text of a terminal

terminal/select.c, and the clipboard of common/clipboard.c that selected text is
copied to. A selection has a start and an end, each with the row, the first
column and the width of a character, and either may come first on the screen.
-/

namespace GuacServer.Terminal

open Utf8Coding

/-- A range of the screen, given by its first and last character. -/
structure NormalizedRange where
  startRow : ℤ
  startCol : ℤ
  endRow : ℤ
  endCol : ℤ
  deriving DecidableEq

/-- guac_terminal_select_normalized_range. -/
def guacTerminalSelectNormalizedRange (term : GuacTerminal) : NormalizedRange :=
  if term.selectionStartRow<term.selectionEndRow ∨ term.selectionStartRow=term.selectionEndRow ∧
        term.selectionStartColumn<term.selectionEndColumn then
    ⟨term.selectionStartRow,term.selectionStartColumn,term.selectionEndRow,
      term.selectionEndColumn+term.selectionEndWidth-1⟩
  else
    ⟨term.selectionEndRow,term.selectionEndColumn,term.selectionStartRow,
      term.selectionStartColumn+term.selectionStartWidth-1⟩

/-- A row as guac_terminal_buffer_get_row gives it if no width is asked for. -/
def GuacTerminal.bufferRow (term : GuacTerminal) (row : ℤ) : BufferRow :=
  (guacTerminalBufferGetRow term.buffer row 0).row row

/-- The loop of guac_terminal_find_char, to the left from a column on. -/
def findStart (characters : ℤ→TerminalChar) : ℕ→ℤ→ℤ
  | 0, startColumn => startColumn
  | count+1, startColumn =>
    if (characters startColumn).value=charContinuation then
      findStart characters count (startColumn-1)
    else startColumn

/-- guac_terminal_find_char: the column and the width of the character. -/
def guacTerminalFindChar (term : GuacTerminal) (row column : ℤ) : ℤ×ℤ :=
  let bufferRow := term.bufferRow row
  if column<bufferRow.length then
    let startColumn := findStart bufferRow.characters column.toNat column
    let startChar := bufferRow.characters startColumn
    if startChar.value≠charContinuation then (startColumn,startChar.width)
    else (column,1)
  else (column,1)

/-- guac_terminal_select_start. -/
def guacTerminalSelectStart (term : GuacTerminal) (row column : ℤ) : GuacTerminal :=
  let (column,width) := guacTerminalFindChar term row column
  { term with
    selectionStartRow := row
    selectionEndRow := row
    selectionStartColumn := column
    selectionEndColumn := column
    selectionStartWidth := width
    selectionEndWidth := width
    textSelected := false
    selectionCommitted := false }

/-- guac_terminal_select_update. -/
def guacTerminalSelectUpdate (term : GuacTerminal) (row column : ℤ) : GuacTerminal :=
  if row≠term.selectionEndRow ∨ column<term.selectionEndColumn ∨
      column≥term.selectionEndColumn+term.selectionEndWidth then
    let (column,width) := guacTerminalFindChar term row column
    { term with
      selectionEndRow := row
      selectionEndColumn := column
      selectionEndWidth := width
      textSelected := true }
  else term

/-- What guac_terminal_select_resume keeps of the selection as its start. -/
def resumeStart (term : GuacTerminal) (row column : ℤ) : GuacTerminal :=
  let range := guacTerminalSelectNormalizedRange term
  let term :=
    if row > range.startRow ∨ row=range.startRow ∧ column > range.startCol then
      { term with
        selectionStartRow := range.startRow
        selectionStartColumn := range.startCol }
    else
      { term with
        selectionStartRow := range.endRow
        selectionStartColumn := range.endCol }
  { term with selectionCommitted := false }

/-- guac_terminal_select_resume. -/
def guacTerminalSelectResume (term : GuacTerminal) (row column : ℤ) : GuacTerminal :=
  if !term.textSelected then term
  else guacTerminalSelectUpdate (resumeStart term row column) row column

/-! ## The clipboard -/

/-- guac_common_clipboard. -/
structure Clipboard where
  mimetype : List UInt8
  /-- The bytes of the buffer that are in use. -/
  buffer : List UInt8
  available : ℕ
  length_le : buffer.length≤available

/-- guac_common_clipboard_reset. -/
def guacCommonClipboardReset (clipboard : Clipboard) (mimetype : List UInt8) : Clipboard :=
  { clipboard with
    mimetype := mimetype.take 255
    buffer := []
    length_le := Nat.zero_le _ }

/-- guac_common_clipboard_append. -/
def guacCommonClipboardAppend (clipboard : Clipboard) (data : List UInt8) : Clipboard :=
  let remaining := clipboard.available-clipboard.buffer.length
  { clipboard with
    buffer := clipboard.buffer++data.take remaining
    length_le := by
      have hle := clipboard.length_le
      rw [List.length_append,List.length_take]
      omega }

/-! ## Copying text -/

/-- The for loop of guac_terminal_clipboard_append_row for a number of columns from
one on: where it ends, and what it has written to the rest of the buffer. -/
def convertCodepoints (characters : ℤ→TerminalChar) : ℕ→ℤ→ℕ→ℤ×List UInt8
  | 0, i, _ => (i,[])
  | count+1, i, remaining =>
    let codepoint := (characters i).value
    if codepoint=0 ∨ codepoint=charContinuation then
      convertCodepoints characters count (i+1) remaining
    else
      let bytes := guacUtf8Write codepoint remaining
      if bytes.length=0 then (i,[])
      else
        let (i,current) := convertCodepoints characters count (i+1) (remaining-bytes.length)
        (i,bytes++current)

/-- The while loop of guac_terminal_clipboard_append_row, for at most as many turns as
there is fuel. -/
def appendChunks (bufferRow : BufferRow) (start last : ℤ) : ℕ→ℤ→Clipboard→Option Clipboard
  | 0, i, clipboard => if i≤last then none else some clipboard
  | fuel+1, i, clipboard =>
    if i≤last then
      -- each turn converts from the start of the range again
      let (i,buffer) := convertCodepoints bufferRow.characters (last-start+1).toNat start 1024
      appendChunks bufferRow start last fuel i (guacCommonClipboardAppend clipboard buffer)
    else some clipboard

/-- guac_terminal_clipboard_append_row. -/
def guacTerminalClipboardAppendRow (term : GuacTerminal) (fuel : ℕ) (row start last : ℤ)
    (clipboard : Clipboard) : Option Clipboard :=
  let bufferRow := term.bufferRow row
  if start<0 ∨ start > bufferRow.length-1 then some clipboard
  else
    let last :=
      if last<0 ∨ last > bufferRow.length-1 then bufferRow.length-1 else last
    appendChunks bufferRow start last fuel start clipboard

/-- A newline, and a row as far as a column. -/
def appendLine (term : GuacTerminal) (fuel : ℕ) (row last : ℤ) (clipboard : Clipboard) :
    Option Clipboard :=
  guacTerminalClipboardAppendRow term fuel row 0 last (guacCommonClipboardAppend clipboard [10])

/-- The middle rows of a selection. -/
def appendMiddle (term : GuacTerminal) (fuel : ℕ) : ℕ→ℤ→Clipboard→Option Clipboard
  | 0, _, clipboard => some clipboard
  | count+1, row, clipboard =>
    (appendLine term fuel row (-1) clipboard).bind (appendMiddle term fuel count (row+1))

/-- The text that guac_terminal_select_end copies, before it sends the clipboard. -/
def copySelected (term : GuacTerminal) (fuel : ℕ) (range : NormalizedRange)
    (clipboard : Clipboard) : Option Clipboard :=
  if range.endRow=range.startRow then
    guacTerminalClipboardAppendRow term fuel range.startRow range.startCol range.endCol clipboard
  else do
    let clipboard ←
      guacTerminalClipboardAppendRow term fuel range.startRow range.startCol (-1) clipboard
    let clipboard ← appendMiddle term fuel (range.endRow-(range.startRow+1)).toNat
      (range.startRow+1) clipboard
    appendLine term fuel range.endRow range.endCol clipboard

/-- guac_terminal_select_end, unless a row is still being copied when the fuel is used
up. -/
def guacTerminalSelectEnd (term : GuacTerminal) (fuel : ℕ) (clipboard : Clipboard) :
    Option (GuacTerminal×Clipboard) :=
  if !term.textSelected then some (term,clipboard)
  else
    let clipboard := guacCommonClipboardReset clipboard
      [116,101,120,116,47,112,108,97,105,110]  -- "text/plain"
    (copySelected term fuel (guacTerminalSelectNormalizedRange term) clipboard).map fun clipboard =>
      ({ term with selectionCommitted := true },clipboard)

end GuacServer.Terminal
