import GuacServer.SequentialCopies
import GuacServer.Terminal

/-!
# What the flush of a terminal display draws

The rest of terminal/display.c: the pending operations become copies within the
surface, filled rectangles and glyphs, in this order, and each of them in the
order in which a scan of the grid finds it. All of these are of whole cells. A
copy of a rectangle onto another that overlaps it takes what was there before.
-/

namespace GuacServer.Terminal

open SequentialCopies

/-- What is shown in the cells of the grid, each of them a row and a column. -/
abbrev Screen (α : Type) := ℤ×ℤ→α

/-- Red, green and blue. -/
abbrev Rgb := ℕ×ℕ×ℕ

def Color.rgb (color : Color) : Rgb := (color.red,color.green,color.blue)

/-- What the libraries that draw text make of cells: the columns of the glyph of
a code point, given its foreground and background, and cells of one color. -/
structure Painting (α : Type) where
  /-- wcwidth of the C library. -/
  wcwidth : ℤ→ℤ
  glyph : ℤ→Rgb→Rgb→ℤ→α
  fill : Rgb→α
  wcwidth_space : wcwidth 32=1
  /-- There is nothing to see of a space but its background. -/
  glyph_space : ∀ foreground background, glyph 32 foreground background 0=fill background

/-- GUAC_TERMINAL_FIRST_DARK. -/
def terminalFirstDark : ℤ := 0

/-- GUAC_TERMINAL_LAST_DARK. -/
def terminalLastDark : ℤ := 7

/-- GUAC_TERMINAL_INTENSE_OFFSET. -/
def terminalIntenseOffset : ℤ := 8

/-- __guac_terminal_set_colors: the foreground and the background of glyphs. -/
def guacTerminalSetColors (display : Display) (attributes : Attributes) : Color×Color :=
  let reversed := attributes.reverse≠attributes.cursor
  let background := if reversed then attributes.foreground else attributes.background
  let foreground := if reversed then attributes.background else attributes.foreground
  let foreground :=
    if attributes.bold=true ∧ attributes.halfBright=false ∧
        terminalFirstDark≤foreground.paletteIndex ∧
        foreground.paletteIndex≤terminalLastDark then
      display.palette (foreground.paletteIndex+terminalIntenseOffset)
    else foreground
  let glyphForeground := guacTerminalDisplayLookupColor display foreground.paletteIndex foreground
  let glyphBackground := guacTerminalDisplayLookupColor display background.paletteIndex background
  (if attributes.halfBright=true ∧ attributes.bold=false then
      { glyphForeground with
        red := glyphForeground.red/2
        green := glyphForeground.green/2
        blue := glyphForeground.blue/2 }
    else glyphForeground,glyphBackground)

/-- The number of columns that a code point is drawn in. -/
def Painting.drawnWidth {α : Type} (painting : Painting α) (codepoint : ℤ) : ℤ :=
  if painting.wcwidth codepoint<0 then 1 else painting.wcwidth codepoint

/-- The code point that is drawn for a character, a space if it has no glyph. -/
def TerminalChar.drawn (character : TerminalChar) : ℤ :=
  if guacTerminalHasGlyph character.value then character.value else 32

/-- One column of what is drawn for a character. -/
def Painting.column {α : Type} (painting : Painting α) (display : Display)
    (character : TerminalChar) (column : ℤ) : α :=
  let colors := guacTerminalSetColors display character.attributes
  painting.glyph character.drawn colors.1.rgb colors.2.rgb column

/-- A character is drawn from a cell on, its columns being the given contents. -/
def drawCharacter {α : Type} (width : ℤ) (column : ℤ→α) (row col : ℤ) (screen : Screen α) :
    Screen α := fun cell =>
  if cell.1=row ∧ col≤cell.2 ∧ cell.2<col+width then column (cell.2-col)
  else screen cell

/-- __guac_terminal_set of display.c, after __guac_terminal_set_colors. -/
def guacTerminalDisplaySet {α : Type} (painting : Painting α) (display : Display) (row col : ℤ)
    (character : TerminalChar) (screen : Screen α) : Screen α :=
  drawCharacter (painting.drawnWidth character.drawn) (painting.column display character) row col
    screen

/-! ## Rectangles of operations -/

/-- A rectangle of the grid. -/
structure GridRect where
  row : ℤ
  col : ℤ
  width : ℤ
  height : ℤ
  deriving DecidableEq

/-- The cells of a rectangle. -/
def GridRect.contains (rect : GridRect) (cell : ℤ×ℤ) : Bool :=
  decide ((rect.row≤cell.1 ∧ cell.1<rect.row+rect.height) ∧
    rect.col≤cell.2 ∧ cell.2<rect.col+rect.width)

/-- Copies and clears are looked for in the same way, except for which
operations these are. -/
structure RectangleKind where
  /-- An operation is of the kind. -/
  begins : Operation→Bool
  /-- An operation belongs to the rectangle of another that is as many rows and
  columns before it. -/
  joins : Operation→ℤ→ℤ→Operation→Bool

/-- The operations of __guac_terminal_display_flush_copy. -/
def copyKind : RectangleKind where
  begins operation := decide (operation.type=.copy)
  joins current rows columns operation :=
    decide (operation.type=.copy ∧ operation.row=current.row+rows ∧
      operation.column=current.column+columns)

/-- An operation that sets a character without a glyph. -/
def Operation.clears (operation : Operation) : Bool :=
  decide (operation.type=.set) && !guacTerminalHasGlyph operation.character.value

/-- The color of a character without a glyph, as it is in its attributes. -/
def TerminalChar.joiningColor (character : TerminalChar) : Color :=
  if character.attributes.reverse≠character.attributes.cursor then
    character.attributes.foreground
  else character.attributes.background

/-- The color of a character without a glyph, which relies only on the palette
index if there is one. -/
def clearColor (display : Display) (character : TerminalChar) : Color :=
  guacTerminalDisplayLookupColor display character.joiningColor.paletteIndex character.joiningColor

/-- The operations of __guac_terminal_display_flush_clear. -/
def clearKind (display : Display) : RectangleKind where
  begins operation := operation.clears
  joins current _ _ operation :=
    operation.clears &&
      sameColor operation.character.joiningColor (clearColor display current.character)

/-- The column after the operations that belong to a rectangle, of so many. -/
def rectangleEnd (joins : ℤ→Bool) : ℕ→ℤ→ℤ
  | 0, rectCol => rectCol
  | count+1, rectCol =>
    if joins rectCol then rectangleEnd joins count (rectCol+1) else rectCol

/-- The last column and row of a rectangle, of so many more rows. -/
def detectRows (joins : ℤ→ℤ→Bool) (width col : ℤ) : ℕ→ℤ→ℤ×ℤ→ℤ×ℤ
  | 0, _, detected => detected
  | count+1, rectRow, (detectedRight,detectedBottom) =>
    let rectCol := rectangleEnd (joins rectRow) (width-col).toNat col
    if rectCol-1<detectedRight then (detectedRight,detectedBottom)
    else
      detectRows joins width col count (rectRow+1)
        (if detectedRight = -1 then rectCol-1 else detectedRight,rectRow)

/-- The rectangle of the operations that belong to that at a row and a column. -/
def detectRectangle (display : Display) (joins : ℤ→ℤ→Bool) (row col : ℤ) : GridRect :=
  let detected := detectRows joins display.width col (display.height-row).toNat row (-1,row)
  ⟨row,col,detected.1-col+1,detected.2-row+1⟩

/-- The operations of a rectangle have been handled. -/
def markHandled (display : Display) (joins : ℤ→ℤ→Bool) (rect : GridRect) : Display :=
  { display with
    operations := fun r c =>
      if rect.contains (r,c) ∧ joins r c then { display.operations r c with type := .nop }
      else display.operations r c }

/-- The operations that belong to the rectangle of that at a row and a column. -/
def joinsAt (kind : RectangleKind) (display : Display) (row col : ℤ) : ℤ→ℤ→Bool :=
  fun r c => kind.joins (display.operations row col) (r-row) (c-col) (display.operations r c)

/-- If there is an operation of the kind, its rectangle is handled. -/
def flushRectangleAt {σ : Type} (kind : RectangleKind) (send : Operation→GridRect→σ→σ)
    (row col : ℤ) (state : Display×σ) : Display×σ :=
  let current := state.1.operations row col
  if kind.begins current then
    let joins := joinsAt kind state.1 row col
    let rect := detectRectangle state.1 joins row col
    (markHandled state.1 joins rect,send current rect state.2)
  else state

/-- All rectangles of operations of the kind are handled. -/
def flushRectangles {σ : Type} (kind : RectangleKind) (send : Operation→GridRect→σ→σ)
    (display : Display) (s : σ) : Display×σ :=
  forTo (fun row state => forTo (fun col state => flushRectangleAt kind send row col state)
      0 (display.width-1) state)
    0 (display.height-1) (display,s)

/-! ## The flush -/

/-- The copy of a rectangle from where its first operation says. -/
def rectangleCopy (current : Operation) (rect : GridRect) : Copy (ℤ×ℤ) where
  target := rect.contains
  source cell := (current.row+(cell.1-rect.row),current.column+(cell.2-rect.col))

/-- __guac_terminal_display_flush_copy. -/
def guacTerminalDisplayFlushCopy {α : Type} (display : Display) (screen : Screen α) :
    Display×Screen α :=
  flushRectangles copyKind (fun current rect screen => (rectangleCopy current rect).run screen)
    display screen

/-- A rectangle is filled. -/
def fillRectangle {α : Type} (content : α) (rect : GridRect) (screen : Screen α) : Screen α :=
  fun cell => if rect.contains cell then content else screen cell

/-- __guac_terminal_display_flush_clear. -/
def guacTerminalDisplayFlushClear {α : Type} (painting : Painting α) (display : Display)
    (screen : Screen α) : Display×Screen α :=
  flushRectangles (clearKind display) (fun current rect screen =>
      fillRectangle (painting.fill (clearColor display current.character).rgb) rect screen)
    display screen

/-- A character that is set is drawn. -/
def flushSetAt {α : Type} (painting : Painting α) (row col : ℤ) (state : Display×Screen α) :
    Display×Screen α :=
  let current := state.1.operations row col
  if current.type=.set then
    ({ state.1 with
        operations := fun r c =>
          if r=row ∧ c=col then { current with type := .nop } else state.1.operations r c },
      guacTerminalDisplaySet painting state.1 row col current.character state.2)
  else state

/-- __guac_terminal_display_flush_set. -/
def guacTerminalDisplayFlushSet {α : Type} (painting : Painting α) (display : Display)
    (screen : Screen α) : Display×Screen α :=
  forTo (fun row state => forTo (fun col state => flushSetAt painting row col state)
      0 (display.width-1) state)
    0 (display.height-1) (display,screen)

/-- guac_terminal_display_flush, with what it draws. -/
def guacTerminalDisplayFlushScreen {α : Type} (painting : Painting α) (display : Display)
    (screen : Screen α) : Display×Screen α :=
  let copied := guacTerminalDisplayFlushCopy display screen
  let cleared := guacTerminalDisplayFlushClear painting copied.1 copied.2
  guacTerminalDisplayFlushSet painting cleared.1 cleared.2

end GuacServer.Terminal
