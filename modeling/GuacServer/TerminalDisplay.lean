import GuacServer.TerminalBuffer

/-!
# The pending operations of a terminal display

terminal/display.c as far as the grid of operations and the colours go. What a
flush draws is left out: it handles all operations, and none is pending after
it. As for the scrollback, every access to the grid is compared with its size.
-/

namespace GuacServer.Terminal

open DecimalNumerals

/-- guac_terminal_operation_type. -/
inductive OperationType
  | nop
  | copy
  | set
  deriving DecidableEq

/-- guac_terminal_operation. -/
structure Operation where
  type : OperationType
  /-- The character that is set. -/
  character : TerminalChar
  /-- The row that is copied from. -/
  row : ℤ
  /-- The column that is copied from. -/
  column : ℤ
  deriving DecidableEq

/-- guac_terminal_display, and whether all accesses to operations were within the
grid so far. -/
structure Display where
  /-- The operation of a row and a column. -/
  operations : ℤ→ℤ→Operation
  /-- The width in characters. -/
  width : ℤ
  /-- The height in characters. -/
  height : ℤ
  /-- The width of a character in pixels. -/
  charWidth : ℤ
  /-- The height of a character in pixels. -/
  charHeight : ℤ
  palette : ℤ → Color
  defaultPalette : ℤ → Color
  defaultForeground : Color
  defaultBackground : Color
  /-- No access was outside of the grid. -/
  bounded : Bool

/-- GUAC_TERMINAL_COLOR_FOREGROUND. -/
def terminalColorForeground : ℤ := -2

/-- GUAC_TERMINAL_COLOR_BACKGROUND. -/
def terminalColorBackground : ℤ := -3

/-- GUAC_TERMINAL_FIRST_INTENSE. -/
def terminalFirstIntense : ℤ := 8

/-- Accesses are within the grid if the given condition holds. -/
def Display.check (display : Display) (condition : Prop) [Decidable condition] : Display :=
  { display with bounded := display.bounded && decide condition }

/-- guac_terminal_display_reset_palette, of a display with a default palette. -/
def guacTerminalDisplayResetPalette (display : Display) : Display :=
  { display with palette := display.defaultPalette }

/-- guac_terminal_display_assign_color. -/
def guacTerminalDisplayAssignColor (display : Display) (index : ℤ) (color : Color) : Display :=
  if index<0 ∨ index > 255 then display
  else
    { display with
      palette := Function.update display.palette index
        { color with paletteIndex := (display.palette index).paletteIndex } }

/-- guac_terminal_display_lookup_color, which leaves the given color if there is
none of the index. -/
def guacTerminalDisplayLookupColor (display : Display) (index : ℤ) (color : Color) : Color :=
  if index=terminalColorForeground then display.defaultForeground
  else if index=terminalColorBackground then display.defaultBackground
  else if index<0 ∨ index > 255 then color
  else display.palette index

/-- An operation that was moved is a copy from where it was, if nothing else. -/
def Operation.moved (operation : Operation) (row column : ℤ) : Operation :=
  if operation.type=.nop then { operation with type := .copy, row := row, column := column }
  else operation

/-- guac_terminal_display_copy_columns. -/
def guacTerminalDisplayCopyColumns (display : Display) (row startColumn endColumn offset : ℤ) :
    Display :=
  if row<0 ∨ row≥display.height then display
  else
    let last := display.width-1
    let startColumn := guacTerminalFitToRange startColumn 0 last
    let endColumn := guacTerminalFitToRange endColumn 0 last
    let startColumn := guacTerminalFitToRange (wrap32 (startColumn+offset)) 0 last-offset
    let endColumn := guacTerminalFitToRange (wrap32 (endColumn+offset)) 0 last-offset
    ({ display with
      operations := fun r c =>
        if r=row ∧ startColumn+offset≤c ∧ c≤endColumn+offset then
          (display.operations row (c-offset)).moved row (c-offset)
        else display.operations r c }.check (startColumn≤endColumn+1)).check
      (Within startColumn endColumn display.width ∧
        Within (startColumn+offset) (endColumn+offset) display.width)

/-- guac_terminal_display_copy_rows. -/
def guacTerminalDisplayCopyRows (display : Display) (startRow endRow offset : ℤ) : Display :=
  let last := display.height-1
  let startRow := guacTerminalFitToRange startRow 0 last
  let endRow := guacTerminalFitToRange endRow 0 last
  let startRow := guacTerminalFitToRange (wrap32 (startRow+offset)) 0 last-offset
  let endRow := guacTerminalFitToRange (wrap32 (endRow+offset)) 0 last-offset
  ({ display with
    operations := fun r c =>
      if (startRow+offset≤r ∧ r≤endRow+offset) ∧ 0≤c ∧ c<display.width then
        (display.operations (r-offset) c).moved (r-offset) c
      else display.operations r c }.check (startRow≤endRow+1)).check
    (Within startRow endRow display.height ∧
      Within (startRow+offset) (endRow+offset) display.height)

/-- guac_terminal_display_set_columns. -/
def guacTerminalDisplaySetColumns (display : Display) (row startColumn endColumn : ℤ)
    (character : TerminalChar) : Display :=
  if character.width=0 then display
  else if row<0 ∨ row≥display.height then display
  else
    let startColumn := guacTerminalFitToRange startColumn 0 (display.width-1)
    let endColumn := guacTerminalFitToRange endColumn 0 (display.width-1)
    -- with a negative width the loop leaves the grid
    { display with
      operations := fun r c =>
        if r=row ∧ startColumn≤c ∧ c≤endColumn ∧ (c-startColumn)%character.width=0 then
          { display.operations r c with type := .set, character := character }
        else display.operations r c }.check
      ((startColumn≤endColumn→0<character.width) ∧ Within startColumn endColumn display.width)

/-- guac_terminal_display_resize, given what is in the memory of the new grid. -/
def guacTerminalDisplayResize (display : Display) (width height : ℤ)
    (memory : ℤ→ℤ→Operation) : Display :=
  let fill : TerminalChar :=
    ⟨0,⟨false,false,false,false,false,display.defaultBackground,display.defaultBackground⟩,1⟩
  { display with
    operations := fun r c =>
      if c<display.width ∧ r<display.height then { memory r c with type := .nop }
      else { memory r c with type := .set, character := fill }
    width := width
    height := height }

/-- guac_terminal_display_flush, as far as the operations go: all are handled. -/
def guacTerminalDisplayFlush (display : Display) : Display :=
  { display with
    operations := fun r c => { display.operations r c with type := .nop } }

end GuacServer.Terminal
