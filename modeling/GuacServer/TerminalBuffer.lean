import GuacServer.DecimalNumerals

/-!
# The scrollback of a terminal

terminal/buffer.c. The rows are a ring of arrays that grow as needed, whose
cells are memory: those that were not written hold whatever they held. Every
access to a cell is compared with the storage there is. What an access outside
of it leaves in memory is not modelled, but the buffer records that there was
one.
-/

namespace GuacServer.Terminal

open DecimalNumerals

/-- guac_terminal_color. -/
structure Color where
  /-- Index in the palette, or -1. -/
  paletteIndex : ℤ
  /-- Red component. -/
  red : ℕ
  /-- Green component. -/
  green : ℕ
  /-- Blue component. -/
  blue : ℕ
  deriving DecidableEq

/-- guac_terminal_attributes. -/
structure Attributes where
  bold : Bool
  halfBright : Bool
  reverse : Bool
  /-- The character is highlighted by the cursor. -/
  cursor : Bool
  underscore : Bool
  foreground : Color
  background : Color
  deriving DecidableEq

/-- guac_terminal_char. -/
structure TerminalChar where
  /-- The code point, or that of a continuation. -/
  value : ℤ
  attributes : Attributes
  /-- The number of columns that the character has. -/
  width : ℤ
  deriving DecidableEq

/-- GUAC_CHAR_CONTINUATION. -/
def charContinuation : ℤ := -1

/-- guac_terminal_fit_to_range. -/
def guacTerminalFitToRange (value min max : ℤ) : ℤ :=
  if value < min then min else if value > max then max else value

/-- The elements from the first to the last, if there are any, are elements of
an array of the given size. -/
def Within (first last size : ℤ) : Prop := first≤last→0≤first ∧ last<size

instance (first last size : ℤ) : Decidable (Within first last size) :=
  inferInstanceAs (Decidable (_ → _))

/-- guac_terminal_buffer_row. -/
structure BufferRow where
  /-- The memory of the cells. -/
  characters : ℤ→TerminalChar
  /-- The number of cells that were initialised. -/
  length : ℤ
  /-- The number of cells there is storage for. -/
  available : ℤ

/-- guac_terminal_buffer, and whether all accesses to cells were within their
storage so far. -/
structure Buffer where
  /-- The character of new cells. -/
  defaultCharacter : TerminalChar
  /-- The ring of rows. -/
  rows : ℤ→BufferRow
  /-- The index of row zero of the display in the ring. -/
  top : ℤ
  /-- The number of rows stored. -/
  length : ℤ
  /-- The number of rows of the ring. -/
  available : ℤ
  /-- No access was outside of the storage. -/
  bounded : Bool

/-- guac_terminal_buffer_alloc, given what is in the memory of the rows. -/
def guacTerminalBufferAlloc (rows : ℤ) (defaultCharacter : TerminalChar)
    (memory : ℤ→ℤ→TerminalChar) : Buffer :=
  ⟨defaultCharacter,fun row => ⟨memory row,0,256⟩,0,0,rows,true⟩

/-- The index in the ring that guac_terminal_buffer_get_row normalizes a row to. -/
def Buffer.index (buffer : Buffer) (row : ℤ) : ℤ :=
  let index := (wrap32 (buffer.top+row)).tmod buffer.available
  if index<0 then index+buffer.available else index

/-- A row of the buffer. -/
def Buffer.row (buffer : Buffer) (row : ℤ) : BufferRow := buffer.rows (buffer.index row)

/-- A row of the buffer is replaced. -/
def Buffer.setRow (buffer : Buffer) (row : ℤ) (bufferRow : BufferRow) : Buffer :=
  { buffer with rows := Function.update buffer.rows (buffer.index row) bufferRow }

/-- Accesses are within the storage if the given condition holds. -/
def Buffer.check (buffer : Buffer) (condition : Prop) [Decidable condition] : Buffer :=
  { buffer with bounded := buffer.bounded && decide condition }

/-- A row has at least the given width, new cells being the given character. -/
def BufferRow.expand (bufferRow : BufferRow) (character : TerminalChar) (width : ℤ) : BufferRow :=
  if width≥bufferRow.length then
    { characters := fun i =>
        if bufferRow.length ≤ i ∧ i<width then character else bufferRow.characters i
      length := width
      available :=
        if width > bufferRow.available then wrap32 (width*2) else bufferRow.available }
  else bufferRow

/-- guac_terminal_buffer_get_row: the buffer in which the row has at least the
given width. -/
def guacTerminalBufferGetRow (buffer : Buffer) (row width : ℤ) : Buffer :=
  let bufferRow := buffer.row row
  let expanded := bufferRow.expand buffer.defaultCharacter width
  ((buffer.setRow row expanded).check (Within (buffer.index row) (buffer.index row)
    buffer.available)).check (Within bufferRow.length (expanded.length-1) expanded.available)

/-- guac_terminal_buffer_copy_columns. -/
def guacTerminalBufferCopyColumns (buffer : Buffer) (row startColumn endColumn offset : ℤ) :
    Buffer :=
  let buffer := guacTerminalBufferGetRow buffer row (wrap32 (endColumn+offset+1))
  let bufferRow := buffer.row row
  -- the range is fitted to the row, and then what it is copied to
  let last := bufferRow.length-1
  let startColumn := guacTerminalFitToRange startColumn 0 last
  let endColumn := guacTerminalFitToRange endColumn 0 last
  let startColumn := guacTerminalFitToRange (wrap32 (startColumn+offset)) 0 last-offset
  let endColumn := guacTerminalFitToRange (wrap32 (endColumn+offset)) 0 last-offset
  -- a negative number of cells is a very large size of memmove
  ((buffer.setRow row { bufferRow with
    characters := fun i =>
      if startColumn+offset ≤ i ∧ i≤endColumn+offset then bufferRow.characters (i-offset)
      else bufferRow.characters i }).check (startColumn≤endColumn+1)).check
    (Within startColumn endColumn bufferRow.available ∧
      Within (startColumn+offset) (endColumn+offset) bufferRow.available)

/-- A row is copied over another. -/
def Buffer.copyRow (buffer : Buffer) (row offset : ℤ) : Buffer :=
  let buffer := guacTerminalBufferGetRow buffer row 0
  let source := buffer.row row
  let buffer := guacTerminalBufferGetRow buffer (wrap32 (row+offset)) source.length
  let target := buffer.row (wrap32 (row+offset))
  (buffer.setRow (wrap32 (row+offset)) { target with
    characters := fun i =>
      if 0 ≤ i ∧ i<source.length then source.characters i else target.characters i
    length := source.length }).check
    (Within 0 (source.length-1) source.available ∧ Within 0 (source.length-1) target.available)

/-- Rows are copied one after the other. -/
def Buffer.copyRowsFrom (offset step : ℤ) : ℕ→ℤ→Buffer→Buffer
  | 0, _, buffer => buffer
  | count+1, row, buffer =>
    Buffer.copyRowsFrom offset step count (row+step) (buffer.copyRow row offset)

/-- guac_terminal_buffer_copy_rows. -/
def guacTerminalBufferCopyRows (buffer : Buffer) (startRow endRow offset : ℤ) : Buffer :=
  let count := (endRow-startRow+1).toNat
  if offset > 0 then Buffer.copyRowsFrom offset (-1) count endRow buffer
  else Buffer.copyRowsFrom offset 1 count startRow buffer

/-- The last column that is written when a character is repeated in a range. -/
def lastWritten (startColumn endColumn width : ℤ) : ℤ :=
  startColumn+((endColumn-startColumn)/width+1)*width-1

/-- guac_terminal_buffer_set_columns. -/
def guacTerminalBufferSetColumns (buffer : Buffer) (row startColumn endColumn : ℤ)
    (character : TerminalChar) : Buffer :=
  if character.width=0 then buffer
  else
    let continuationChar : TerminalChar := ⟨charContinuation,character.attributes,0⟩
    let buffer := guacTerminalBufferGetRow buffer row (wrap32 (endColumn+1))
    let bufferRow := buffer.row row
    let last := lastWritten startColumn endColumn character.width
    let written := buffer.setRow row { bufferRow with
      characters := fun i =>
        if startColumn ≤ i ∧ i≤last then
          if (i-startColumn)%character.width=0 then character else continuationChar
        else bufferRow.characters i }
    -- with a negative width the loop leaves the row
    ({ written with
      length :=
        if character.value≠0 ∧ row≥buffer.length then row+1 else buffer.length }).check
      ((startColumn≤endColumn→0<character.width) ∧ Within startColumn last bufferRow.available)

end GuacServer.Terminal
