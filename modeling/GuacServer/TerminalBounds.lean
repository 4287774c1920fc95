import GuacServer.TerminalCursor
import GuacServer.TerminalMemory

/-!
# Every access to a terminal is within its storage

The operations on contents keep the rows of the scrollback and the grid of the
display intact as long as the columns and rows they are given are. A handler
takes most of them from the cursor and the size; the parameters of a few
sequences and the scrolling region are not compared with either.
-/

namespace GuacServer.Terminal

open DecimalNumerals StateRuns Function

/-- The contents of a terminal whose display has the given size. -/
def ContentOk (width height : ℤ) (term : GuacTerminal) : Prop :=
  BufferOk term.buffer ∧ DisplayOk width height term.display ∧
    (0≤term.visibleCursorCol ∧ term.visibleCursorCol≤terminalMaxSize+1) ∧ term.defaultChar.width=1

variable {width height : ℤ} {term : GuacTerminal}

/-- The length of a row of the scrollback. -/
def GuacTerminal.rowLength (term : GuacTerminal) (row : ℤ) : ℤ := (term.buffer.row row).length

theorem selectTouch_eq (term : GuacTerminal) (startRow startColumn endRow endColumn : ℤ) :
    ∃ textSelected selectionCommitted,
      guacTerminalSelectTouch term startRow startColumn endRow endColumn=
        { term with textSelected := textSelected, selectionCommitted := selectionCommitted } := by
  unfold guacTerminalSelectTouch
  split
  · exact ⟨_,_,rfl⟩
  · exact ⟨_,_,rfl⟩

/-- A row of two terminals has the same length and the same storage, and both have
the same rendered cursor. -/
structure SameRow (row : ℤ) (term term' : GuacTerminal) : Prop where
  rowLength : term'.rowLength row=term.rowLength row
  available : (term'.buffer.row row).available=(term.buffer.row row).available
  cursorRow : term'.visibleCursorRow=term.visibleCursorRow
  cursorCol : term'.visibleCursorCol=term.visibleCursorCol

theorem SameRow.refl (row : ℤ) (term : GuacTerminal) : SameRow row term term := ⟨rfl,rfl,rfl,rfl⟩

theorem SameRow.trans {row : ℤ} {term term' term'' : GuacTerminal} (h : SameRow row term term')
    (h' : SameRow row term' term'') : SameRow row term term'' :=
  ⟨h'.rowLength.trans h.rowLength,h'.available.trans h.available,
    h'.cursorRow.trans h.cursorRow,h'.cursorCol.trans h.cursorCol⟩

/-! ## Columns -/

/-- A row grows to the last column that is set. -/
theorem setColumnsUnbroken_row (term : GuacTerminal) (row startColumn endColumn : ℤ)
    (character : TerminalChar) (hend : -1≤endColumn) (hlast : endColumn<2^30-1)
    (hc : 1≤character.width) :
    (setColumnsUnbroken term row startColumn endColumn character).rowLength row=
        max (term.rowLength row) (endColumn+1) ∧
      ((setColumnsUnbroken term row startColumn endColumn character).buffer.row row).available=
        ((term.buffer.row row).expand term.buffer.defaultCharacter (endColumn+1)).available := by
  unfold setColumnsUnbroken GuacTerminal.rowLength
  obtain ⟨textSelected,selectionCommitted,htouch⟩ := selectTouch_eq { term with
    display := guacTerminalDisplaySetColumns term.display (wrap32 (row+term.scrollOffset))
      startColumn endColumn character
    buffer := guacTerminalBufferSetColumns term.buffer row startColumn endColumn character }
    row startColumn row endColumn
  rw [htouch]
  exact setColumns_row term.buffer row startColumn endColumn character hend hlast hc

/-- The rendered cursor stays where it is. -/
theorem setColumnsUnbroken_cursor (term : GuacTerminal) (row startColumn endColumn : ℤ)
    (character : TerminalChar) :
    (setColumnsUnbroken term row startColumn endColumn character).visibleCursorRow=
        term.visibleCursorRow ∧
      (setColumnsUnbroken term row startColumn endColumn character).visibleCursorCol=
        term.visibleCursorCol := by
  unfold setColumnsUnbroken guacTerminalSelectTouch
  split <;> exact ⟨rfl,rfl⟩

/-- Columns may be set where the row has storage for them. -/
theorem contentOk_setColumnsUnbroken (h : ContentOk width height term) (hwidth : 0<width)
    (row startColumn endColumn : ℤ) (character : TerminalChar) (hend : -1≤endColumn)
    (hlast : endColumn<2^30-1) (hc : 1≤character.width)
    (hrange : startColumn≤endColumn→0 ≤ startColumn ∧
      lastWritten startColumn endColumn character.width<
        ((term.buffer.row row).expand term.buffer.defaultCharacter (endColumn+1)).available) :
    ContentOk width height (setColumnsUnbroken term row startColumn endColumn character) := by
  have hbuffer := h.1.setColumns hend hlast hc hrange
  have hdisplay := h.2.1.setColumns hwidth (wrap32 (row+term.scrollOffset)) startColumn endColumn
    (Or.inr hc)
  exact iteInduction (fun _ => ⟨hbuffer,hdisplay,h.2.2⟩) fun _ => ⟨hbuffer,hdisplay,h.2.2⟩

/-- There is storage for the columns of a range in a row that has them. -/
theorem lt_expand_available (h : BufferOk term.buffer) (row : ℤ) {column : ℤ}
    (hcolumn : column<2^30-1) :
    column<((term.buffer.row row).expand term.buffer.defaultCharacter (column+1)).available := by
  have hle := ((h.row row).expand h.default (by omega : column+1<2^30)).length_le
  rw [expand_length] at hle
  omega

/-- A character of one column may be written to any columns. -/
theorem contentOk_setUnbroken_one (h : ContentOk width height term) (hwidth : 0<width)
    (row startColumn endColumn : ℤ) (character : TerminalChar) (hend : -1≤endColumn)
    (hlast : endColumn<2^30-1) (hc : character.width=1)
    (hstart : startColumn≤endColumn→0 ≤ startColumn) :
    ContentOk width height (setColumnsUnbroken term row startColumn endColumn character) := by
  refine contentOk_setColumnsUnbroken h hwidth row startColumn endColumn character hend hlast
    hc.ge fun hle => ⟨hstart hle,?_⟩
  rw [hc,lastWritten_one]
  exact lt_expand_available h.1 row hlast

/-- What is written to columns that a row has changes only cells of it. -/
theorem sameRow_setColumnsUnbroken (h : ContentOk width height term) (row startColumn endColumn : ℤ)
    (character : TerminalChar) (hend : -1≤endColumn) (hlength : endColumn<term.rowLength row)
    (hc : 1≤character.width) :
    SameRow row term (setColumnsUnbroken term row startColumn endColumn character) := by
  have hrow := h.1.row row
  have hle := hrow.length_le
  have hlt := hrow.length_lt
  unfold GuacTerminal.rowLength at hlength
  obtain ⟨hrowLength,havailable⟩ := setColumnsUnbroken_row term row startColumn endColumn character
    hend (by omega) hc
  obtain ⟨hcursorRow,hcursorCol⟩ :=
    setColumnsUnbroken_cursor term row startColumn endColumn character
  rw [expand_available_eq (by omega)] at havailable
  refine ⟨?_,havailable,hcursorRow,hcursorCol⟩
  rw [hrowLength]
  unfold GuacTerminal.rowLength
  omega

/-- A part of a row is cleared if the character that it starts with is broken. -/
theorem contentOk_clearBroken (h : ContentOk width height term) (hwidth : 0<width)
    {row startColumn endColumn : ℤ} (h0 : 0 ≤ startColumn) (h1 : startColumn≤endColumn)
    (h2 : endColumn<term.rowLength row) :
    ContentOk width height (clearBroken term row startColumn endColumn) ∧
      SameRow row term (clearBroken term row startColumn endColumn) := by
  have hrow := h.1.row row
  have hlt := hrow.length_lt
  have hlength := h2
  unfold GuacTerminal.rowLength at h2
  have hcell := hrow.cells startColumn h0 (by omega)
  have hfirst : 0 ≤ if ((term.buffer.row row).characters startColumn).value≠charContinuation ∧
        ((term.buffer.row row).characters startColumn).width<endColumn-startColumn+1 then
      startColumn+((term.buffer.row row).characters startColumn).width
    else startColumn := by
    split_ifs
    · exact add_nonneg h0 hcell.1
    · exact h0
  unfold clearBroken
  dsimp only
  generalize (if ((term.buffer.row row).characters startColumn).value≠charContinuation ∧
        ((term.buffer.row row).characters startColumn).width<endColumn-startColumn+1 then
      startColumn+((term.buffer.row row).characters startColumn).width
    else startColumn)=first at *
  split
  · constructor
    · exact contentOk_setUnbroken_one h hwidth row first endColumn _ (by omega) (by omega) rfl
        fun _ => hfirst
    · exact sameRow_setColumnsUnbroken h row first endColumn _ (by omega) hlength le_rfl
  · exact ⟨h,SameRow.refl row term⟩

theorem characterStart_mem (characters : ℤ→TerminalChar) (column : ℕ) :
    0≤characterStart characters column ∧ characterStart characters column≤column := by
  induction column with
  | zero => exact ⟨le_rfl,le_rfl⟩
  | succ column ih =>
    rw [characterStart]
    split_ifs
    · exact ⟨ih.1,ih.2.trans (by omega)⟩
    · exact ⟨by omega,by push_cast; exact le_rfl⟩

/-- The walk to the right stays within the row. -/
theorem characterEnd_mem (characters : ℤ→TerminalChar) {length : ℤ} (fuel : ℕ) {column : ℤ}
    (hcolumn : column<length) : column≤characterEnd characters length fuel column ∧
      characterEnd characters length fuel column<length := by
  induction fuel generalizing column with
  | zero => exact ⟨le_rfl,hcolumn⟩
  | succ fuel ih =>
    rw [characterEnd]
    split_ifs with hmore
    · obtain ⟨hle,hlt⟩ := ih hmore.1
      exact ⟨by omega,hlt⟩
    · exact ⟨le_rfl,hcolumn⟩

/-- The character to the left of an edge is cleared if it is broken. -/
def breakLeft (term : GuacTerminal) (row edge : ℤ) : GuacTerminal :=
  if edge > 0 then
    clearBroken term row (characterStart (term.buffer.row row).characters (edge-1).toNat) (edge-1)
  else term

/-- The character to the right of an edge is cleared if it is broken. -/
def breakRight (term : GuacTerminal) (row edge : ℤ) : GuacTerminal :=
  if edge≥0 ∧ edge<(term.buffer.row row).length then
    clearBroken term row edge
      (characterEnd (term.buffer.row row).characters (term.buffer.row row).length
        ((term.buffer.row row).length-edge).toNat edge)
  else term

theorem forceBreak_eq (term : GuacTerminal) (row edge : ℤ) : forceBreak term row edge=
    breakRight (breakLeft { term with buffer := guacTerminalBufferGetRow term.buffer row 0 }
      row edge) row edge := rfl

theorem contentOk_breakLeft (h : ContentOk width height term) (hwidth : 0<width)
    (row edge : ℤ) (hedge : edge≤term.rowLength row) :
    ContentOk width height (breakLeft term row edge) ∧
      SameRow row term (breakLeft term row edge) := by
  unfold breakLeft
  split_ifs with hpos
  · obtain ⟨h0,h1⟩ := characterStart_mem (term.buffer.row row).characters (edge-1).toNat
    exact contentOk_clearBroken h hwidth h0 (by omega) (by omega)
  · exact ⟨h,SameRow.refl row term⟩

theorem contentOk_breakRight (h : ContentOk width height term) (hwidth : 0<width) (row edge : ℤ) :
    ContentOk width height (breakRight term row edge) ∧
      SameRow row term (breakRight term row edge) := by
  unfold breakRight
  split_ifs with hinside
  · obtain ⟨h0,h1⟩ := characterEnd_mem (term.buffer.row row).characters
      ((term.buffer.row row).length-edge).toNat hinside.2
    exact contentOk_clearBroken h hwidth hinside.1 h0 h1
  · exact ⟨h,SameRow.refl row term⟩

/-- A break may be forced at any column of a row, or behind its last. -/
theorem contentOk_forceBreak (h : ContentOk width height term) (hwidth : 0<width)
    (row edge : ℤ) (hedge : edge≤term.rowLength row) :
    ContentOk width height (forceBreak term row edge) ∧
      SameRow row term (forceBreak term row edge) := by
  have hrow := h.1.row row
  have hnonneg := hrow.length_nonneg
  have hle := hrow.length_le
  have hgot : ContentOk width height
      { term with buffer := guacTerminalBufferGetRow term.buffer row 0 } :=
    ⟨h.1.getRow row (by decide),h.2⟩
  have hsame : SameRow row term
      { term with buffer := guacTerminalBufferGetRow term.buffer row 0 } := by
    refine ⟨(getRow_length term.buffer row 0).trans (max_eq_left hnonneg),?_,rfl,rfl⟩
    dsimp only
    rw [row_getRow,expand_available_eq (by omega)]
  rw [forceBreak_eq]
  obtain ⟨hleft,hleftSame⟩ := contentOk_breakLeft hgot hwidth row edge
    (hedge.trans_eq hsame.rowLength.symm)
  obtain ⟨hright,hrightSame⟩ := contentOk_breakRight hleft hwidth row edge
  exact ⟨hright,(hsame.trans hleftSame).trans hrightSame⟩

/-- The rendered cursor is drawn over what was written to a range of columns. -/
def writeCursor (term : GuacTerminal) (row startColumn endColumn : ℤ) (character : TerminalChar) :
    GuacTerminal :=
  if row=term.visibleCursorRow ∧ term.visibleCursorCol≥startColumn ∧
      term.visibleCursorCol≤endColumn then
    setColumnsUnbroken term row term.visibleCursorCol term.visibleCursorCol (character.marked true)
  else term

theorem setColumns_eq (term : GuacTerminal) (row startColumn endColumn : ℤ)
    (character : TerminalChar) :
    guacTerminalSetColumns term row startColumn endColumn character=
      forceBreak (forceBreak (writeCursor
        (setColumnsUnbroken term row startColumn endColumn character) row startColumn endColumn
          character) row startColumn) row (wrap32 (endColumn+1)) := rfl

section

variable (h : ContentOk width height term) (hwidth : 0<width) (row startColumn endColumn : ℤ)
  (character : TerminalChar)

include h hwidth row startColumn endColumn character

/-- The rendered cursor may be drawn where there is storage. -/
theorem contentOk_writeCursor (hlast : endColumn<2^30-1) (hc : 1≤character.width)
    (hlength : endColumn<term.rowLength row)
    (hcursor : row=term.visibleCursorRow → startColumn≤term.visibleCursorCol →
      term.visibleCursorCol≤endColumn →
        term.visibleCursorCol+character.width-1<(term.buffer.row row).available) :
    ContentOk width height (writeCursor term row startColumn endColumn character) ∧
      SameRow row term (writeCursor term row startColumn endColumn character) := by
  obtain ⟨h0,h1⟩ := h.2.2.1
  unfold writeCursor
  split_ifs with hhere
  · obtain ⟨hrow,hstart,hend⟩ := hhere
    constructor
    · refine contentOk_setColumnsUnbroken h hwidth row _ _ (character.marked true) (by omega)
        (by omega) hc fun _ => ⟨h0,?_⟩
      have hcursorWidth : (character.marked true).width=character.width := rfl
      rw [hcursorWidth,lastWritten_once le_rfl (by omega)]
      exact (hcursor hrow hstart hend).trans_le ((h.1.row row).available_le_expand _ (by omega))
    · exact sameRow_setColumnsUnbroken h row _ _ (character.marked true) (by omega) (by omega) hc
  · exact ⟨h,SameRow.refl row term⟩

/-- What is written to columns lies within the row, also where the rendered
cursor is drawn over it. -/
theorem contentOk_setColumns (hend : -1≤endColumn) (hlast : endColumn<2^30-1)
    (hc : 1≤character.width) (hstart : startColumn ≤ max (term.rowLength row) (endColumn+1))
    (hrange : startColumn≤endColumn→0 ≤ startColumn ∧
      lastWritten startColumn endColumn character.width<
        ((term.buffer.row row).expand term.buffer.defaultCharacter (endColumn+1)).available)
    (hcursor : row=term.visibleCursorRow → startColumn≤term.visibleCursorCol →
      term.visibleCursorCol≤endColumn → term.visibleCursorCol+character.width-1<
          ((term.buffer.row row).expand term.buffer.defaultCharacter (endColumn+1)).available) :
    ContentOk width height (guacTerminalSetColumns term row startColumn endColumn character) := by
  have hset := contentOk_setColumnsUnbroken h hwidth row startColumn endColumn character hend hlast
    hc hrange
  obtain ⟨hlength,havailable⟩ :=
    setColumnsUnbroken_row term row startColumn endColumn character hend hlast hc
  obtain ⟨hvisibleRow,hvisibleCol⟩ :=
    setColumnsUnbroken_cursor term row startColumn endColumn character
  rw [←hvisibleRow,←hvisibleCol] at hcursor
  obtain ⟨hwritten,hwrittenSame⟩ := contentOk_writeCursor hset hwidth row startColumn endColumn
    character hlast hc (by omega) (by rw [havailable]; exact hcursor)
  rw [setColumns_eq,wrap32_of_range (by omega) (by omega)]
  have hwrittenLength := hwrittenSame.rowLength
  obtain ⟨hleft,hleftSame⟩ := contentOk_forceBreak hwritten hwidth row startColumn (by omega)
  have hleftLength := hleftSame.rowLength
  exact (contentOk_forceBreak hleft hwidth row (endColumn+1) (by omega)).1

/-- A character of one column may be written to any columns of the row or next to
them. -/
theorem contentOk_setColumns_one (hend : -1≤endColumn) (hlast : endColumn<2^30-1)
    (hc : character.width=1) (hstart : startColumn ≤ max (term.rowLength row) (endColumn+1))
    (hnonneg : startColumn≤endColumn→0 ≤ startColumn) :
    ContentOk width height (guacTerminalSetColumns term row startColumn endColumn character) := by
  have hlt := lt_expand_available h.1 row hlast
  refine contentOk_setColumns h hwidth row startColumn endColumn character hend hlast hc.ge hstart
    (fun hle => ⟨hnonneg hle,?_⟩) fun _ _ hle => ?_
  · rw [hc,lastWritten_one]
    exact hlt
  · rw [hc]
    omega

end

/-- Columns may be cleared up to the end of the row. -/
theorem contentOk_clearColumns (h : ContentOk width height term) (hwidth : 0<width)
    (row startCol endCol : ℤ) (hend : -1≤endCol) (hlast : endCol<2^30-1)
    (hstart : startCol ≤ max (term.rowLength row) (endCol+1))
    (hnonneg : startCol≤endCol→0 ≤ startCol) :
    ContentOk width height (guacTerminalClearColumns term row startCol endCol) :=
  contentOk_setColumns_one h hwidth row startCol endCol _ hend hlast rfl hstart hnonneg

/-- Columns are copied, and the rendered cursor with them. -/
def copiedColumns (term : GuacTerminal) (row startColumn endColumn offset : ℤ) : GuacTerminal :=
  let term :=
    guacTerminalSelectTouch
      { term with
        display := guacTerminalDisplayCopyColumns term.display (wrap32 (row+term.scrollOffset))
          startColumn endColumn offset
        buffer := guacTerminalBufferCopyColumns term.buffer row startColumn endColumn offset }
      row startColumn row endColumn
  if row=term.visibleCursorRow ∧ term.visibleCursorCol≥startColumn ∧
      term.visibleCursorCol≤endColumn then
    { term with visibleCursorCol := term.visibleCursorCol+offset }
  else term

theorem copyColumns_eq (term : GuacTerminal) (row startColumn endColumn offset : ℤ) :
    guacTerminalCopyColumns term row startColumn endColumn offset=
      forceBreak (forceBreak (copiedColumns term row startColumn endColumn offset) row
        (wrap32 (startColumn+offset))) row (wrap32 (endColumn+offset+1)) := rfl

/-- The row in which columns were copied, and the rendered cursor. -/
theorem copiedColumns_row (term : GuacTerminal) (row startColumn endColumn offset : ℤ) :
    (copiedColumns term row startColumn endColumn offset).rowLength row=
        max (term.rowLength row) (wrap32 (endColumn+offset+1)) ∧
      ((copiedColumns term row startColumn endColumn offset).buffer.row row).available=
        ((term.buffer.row row).expand term.buffer.defaultCharacter
          (wrap32 (endColumn+offset+1))).available ∧
      (copiedColumns term row startColumn endColumn offset).visibleCursorRow=term.visibleCursorRow ∧
      (copiedColumns term row startColumn endColumn offset).visibleCursorCol=
        if row=term.visibleCursorRow ∧ term.visibleCursorCol≥startColumn ∧
          term.visibleCursorCol≤endColumn then term.visibleCursorCol+offset
        else term.visibleCursorCol := by
  obtain ⟨hlength,havailable⟩ := copyColumns_row term.buffer row startColumn endColumn offset
  obtain ⟨textSelected,selectionCommitted,htouch⟩ := selectTouch_eq { term with
    display := guacTerminalDisplayCopyColumns term.display (wrap32 (row+term.scrollOffset))
      startColumn endColumn offset
    buffer := guacTerminalBufferCopyColumns term.buffer row startColumn endColumn offset }
    row startColumn row endColumn
  unfold copiedColumns GuacTerminal.rowLength
  dsimp only
  rw [htouch]
  split_ifs
  · exact ⟨hlength,havailable,rfl,rfl⟩
  · exact ⟨hlength,havailable,rfl,rfl⟩

/-- Columns may be copied if those of the display and those of the row may, and the
rendered cursor is not copied out of the row. -/
theorem contentOk_copyColumns (h : ContentOk width height term) (hwidth : 0<width)
    (row startColumn endColumn offset : ℤ)
    (hlast : wrap32 (endColumn+offset+1)<2^30)
    (hpos : 0 < max (term.rowLength row) (wrap32 (endColumn+offset+1)))
    (hrow : Copies (max (term.rowLength row) (wrap32 (endColumn+offset+1)))
      startColumn endColumn offset)
    (hgrid : 0≤wrap32 (row+term.scrollOffset) → wrap32 (row+term.scrollOffset)<height →
      Copies width startColumn endColumn offset)
    (hcursor : startColumn≤term.visibleCursorCol → term.visibleCursorCol≤endColumn →
      0≤term.visibleCursorCol+offset ∧ term.visibleCursorCol+offset≤terminalMaxSize+1)
    (hedge : wrap32 (startColumn+offset) ≤ max (term.rowLength row) (wrap32 (endColumn+offset+1))) :
    ContentOk width height (copiedColumns term row startColumn endColumn offset) ∧
      ContentOk width height (guacTerminalCopyColumns term row startColumn endColumn offset) ∧
      SameRow row (copiedColumns term row startColumn endColumn offset)
        (guacTerminalCopyColumns term row startColumn endColumn offset) := by
  have hbuffer := h.1.copyColumns hlast hpos hrow
  have hdisplay := h.2.1.copyColumns hwidth hgrid
  have hcopied : ContentOk width height (copiedColumns term row startColumn endColumn offset) := by
    obtain ⟨textSelected,selectionCommitted,htouch⟩ := selectTouch_eq { term with
      display := guacTerminalDisplayCopyColumns term.display (wrap32 (row+term.scrollOffset))
        startColumn endColumn offset
      buffer := guacTerminalBufferCopyColumns term.buffer row startColumn endColumn offset }
      row startColumn row endColumn
    unfold copiedColumns
    dsimp only
    rw [htouch]
    split
    case isTrue hmoved =>
      exact ⟨hbuffer,hdisplay,hcursor hmoved.2.1 hmoved.2.2,h.2.2.2⟩
    case isFalse hmoved => exact ⟨hbuffer,hdisplay,h.2.2⟩
  have hlength := (copiedColumns_row term row startColumn endColumn offset).1
  rw [copyColumns_eq]
  obtain ⟨hleft,hleftSame⟩ := contentOk_forceBreak hcopied hwidth row
    (wrap32 (startColumn+offset)) (by omega)
  have hleftLength := hleftSame.rowLength
  obtain ⟨hright,hrightSame⟩ := contentOk_forceBreak hleft hwidth row
    (wrap32 (endColumn+offset+1)) (by omega)
  exact ⟨hcopied,hright,hleftSame.trans hrightSame⟩

/-! ## What contents keep -/

variable {startRow endRow : ℤ} {c : UInt8}

/-- A terminal of a proper size with its cursor on the screen, or behind a wide
character at the end of a row. -/
def ScreenOk (term : GuacTerminal) : Prop :=
  ContentOk term.termWidth term.termHeight term ∧
    (0<term.termWidth ∧ term.termWidth≤terminalMaxSize) ∧
    (0<term.termHeight ∧ term.termHeight≤terminalMaxSize) ∧
    (0≤term.cursorRow ∧ term.cursorRow<term.termHeight) ∧
    (0≤term.cursorCol ∧ term.cursorCol≤term.termWidth+1) ∧ 0≤term.scrollOffset

variable {term' : GuacTerminal}

theorem ScreenOk.of_content (h : ScreenOk term)
    (hsame : SameControl term term') (hcontent : ContentOk term.termWidth term.termHeight term') :
    ScreenOk term' := by
  obtain ⟨hrow,hcol⟩ := hsame.cursor
  unfold ScreenOk
  rw [hsame.termWidth,hsame.termHeight,hrow,hcol,hsame.scrollOffset]
  exact ⟨hcontent,h.2⟩

/-- A property of the scrollback that the operations on contents keep where they lie
within them, if they write plain characters and delete uncut ones. -/
structure ContentInvariant (Q : Buffer→Prop) (Plain : TerminalChar→Prop)
    (Uncut : GuacTerminal→ℤ→Prop) : Prop where
  blank : ∀ attributes, Plain ⟨0,attributes,1⟩
  letter : ∀ attributes columns, Plain ⟨0x45,attributes,columns⟩
  ring : ∀ {buffer : Buffer}, Q buffer→∀ top length, Q { buffer with top := top, length := length }
  bufferGetRow : ∀ {buffer}, Q buffer→∀ row width, Q (guacTerminalBufferGetRow buffer row width)
  bufferCopyRows : ∀ {buffer}, Q buffer→∀ startRow endRow offset,
    Q (guacTerminalBufferCopyRows buffer startRow endRow offset)
  mark : ∀ {term : GuacTerminal}, Q term.buffer→∀ row col cursor,
    Q (markCursor row col cursor term).buffer
  setOne : ∀ {width height term}, ContentOk width height term→Q term.buffer→0<width →
    ∀ {row startColumn endColumn character}, -1≤endColumn → endColumn<2^30-1 →
      character.width=1→Plain character →
      startColumn ≤ max (term.rowLength row) (endColumn+1) →
      (startColumn≤endColumn→0 ≤ startColumn) →
        Q (guacTerminalSetColumns term row startColumn endColumn character).buffer
  insertion : ∀ {term amount}, ScreenOk term→Q term.buffer→0<amount →
    term.cursorCol+amount<term.termWidth →
      Q (guacTerminalCopyColumns term term.cursorRow term.cursorCol
        (term.termWidth-amount-1) amount).buffer
  deletion : ∀ {term amount}, ScreenOk term→Q term.buffer→0<amount →
    term.cursorCol+amount<term.termWidth →
    amount<term.rowLength term.cursorRow ∨ 2*amount<term.termWidth→Uncut term amount →
      Q (guacTerminalCopyColumns term term.cursorRow (term.cursorCol+amount)
        (term.termWidth-1) (-amount)).buffer

/-- Nothing is asked of the scrollback. -/
theorem contentInvariant_true :
    ContentInvariant (fun _ => True) (fun _ => True) fun _ _ => True where
  blank _ := trivial
  letter _ _ := trivial
  ring _ _ _ := trivial
  bufferGetRow _ _ _ := trivial
  bufferCopyRows _ _ _ _ := trivial
  mark _ _ _ _ := trivial
  setOne _ _ _ _ _ _ _ _ _ _ _ _ _ := trivial
  insertion _ _ _ _ := trivial
  deletion _ _ _ _ _ _ := trivial

variable {Q : Buffer→Prop} {Plain : TerminalChar→Prop} {Uncut : GuacTerminal→ℤ→Prop}

/-- Contents of a size with a property and a plain default character. -/
def ContentOf (Q : Buffer→Prop) (Plain : TerminalChar→Prop) (width height : ℤ)
    (term : GuacTerminal) : Prop :=
  ContentOk width height term ∧ Q term.buffer ∧ Plain term.defaultChar

/-- A proper screen with such contents. -/
def ScreenOf (Q : Buffer→Prop) (Plain : TerminalChar→Prop) (term : GuacTerminal) : Prop :=
  ScreenOk term ∧ Q term.buffer ∧ Plain term.defaultChar

theorem ScreenOf.content (h : ScreenOf Q Plain term) :
    ContentOf Q Plain term.termWidth term.termHeight term := ⟨h.1.1,h.2⟩

theorem ScreenOf.of_content (h : ScreenOf Q Plain term)
    (hsame : SameControl term term')
    (hcontent : ContentOf Q Plain term.termWidth term.termHeight term') :
    ScreenOf Q Plain term' := ⟨h.1.of_content hsame hcontent.1,hcontent.2⟩

theorem SameControl.defaultChar (h : SameControl term term') :
    term'.defaultChar=term.defaultChar := by
  rw [h]
  rfl

/-- A loop whose turns keep contents intact keeps them intact. -/
theorem contentOf_forTo {body : ℤ→GuacTerminal→GuacTerminal}
    (hbody : ∀ i t, ContentOf Q Plain width height t → ContentOf Q Plain width height (body i t))
    (h : ContentOf Q Plain width height term) (first last : ℤ) :
    ContentOf Q Plain width height (forTo body first last term) :=
  forTo_keeps (fun i t _ _ => hbody i t) h

/-- A part of a range is cleared, or left for the loop over entire rows. -/
theorem contentOf_clearPart {condition : Prop} [Decidable condition]
    (h : ContentOf Q Plain width height term) {row startCol endCol next rest : ℤ}
    (hclear : condition → ContentOf Q Plain width height
      (guacTerminalClearColumns term row startCol endCol)) :
    ContentOf Q Plain width height (if condition then
      (guacTerminalClearColumns term row startCol endCol,next) else (term,rest)).1 := by
  split
  · exact hclear ‹_›
  · exact h

/-- The rows of the ring are the same wherever it starts. -/
theorem BufferOk.ring {buffer : Buffer} (h : BufferOk buffer) (top length : ℤ) :
    BufferOk { buffer with top := top, length := length } :=
  ⟨h.available_pos,h.rows,h.default,h.bounded⟩

/-! ## Rows -/

/-- The rows that guac_terminal_scroll_up moves in the display. -/
def ScrollsUp (term : GuacTerminal) (startRow endRow amount : ℤ) : Prop :=
  if startRow=0 ∧ endRow=term.termHeight-1 then
    MovesUp term.termHeight (wrap32 (startRow+amount)) endRow amount
  else
    MovesUp term.termHeight (wrap32 (wrap32 (startRow+amount)+term.scrollOffset))
      (wrap32 (endRow+term.scrollOffset)) amount

instance (startRow endRow amount : ℤ) : Decidable (ScrollsUp term startRow endRow amount) :=
  inferInstanceAs (Decidable (ite _ _ _))

/-- The rows that guac_terminal_scroll_down moves in the display. -/
def ScrollsDown (term : GuacTerminal) (startRow endRow amount : ℤ) : Prop :=
  MovesDown term.termHeight (wrap32 (startRow+term.scrollOffset))
    (wrap32 (wrap32 (endRow-amount)+term.scrollOffset)) amount

instance (startRow endRow amount : ℤ) : Decidable (ScrollsDown term startRow endRow amount) :=
  inferInstanceAs (Decidable (MovesDown ..))

theorem value_of_visible {c : TerminalChar} (hvisible : guacTerminalIsVisible term c=true) :
    c.value≠charContinuation := by
  intro hvalue
  rw [guacTerminalIsVisible,if_pos hvalue] at hvisible
  cases hvisible

/-- A row is drawn from its cells. -/
theorem contentOk_drawRow (h : ContentOk width height term) (hwidth : 0<width)
    (row startCol endCol lastCol : ℤ) {bufferRow : BufferRow} (hrow : RowOk bufferRow)
    (hstart : 0 ≤ startCol) (hlast : lastCol<bufferRow.length) :
    ContentOk width height (drawRow row startCol endCol lastCol bufferRow term) := by
  have hcleared := h.2.1.setColumns hwidth row startCol endCol (Or.inr h.2.2.2.ge)
  have hdrawn : DisplayOk width height (forTo (fun col display =>
        if guacTerminalIsVisible term (bufferRow.characters col) then
          guacTerminalDisplaySetColumns display row col col (bufferRow.characters col)
        else display)
      startCol lastCol
      (guacTerminalDisplaySetColumns term.display row startCol endCol term.defaultChar)) := by
    refine forTo_keeps (fun col display hfirst hcol hdisplay => ?_) hcleared
    split_ifs with hvisible
    · have hcell := hrow.cells col (by omega) (by omega)
      exact hdisplay.setColumns hwidth row col col (Or.inr (hcell.2 (value_of_visible hvisible)))
    · exact hdisplay
  exact ⟨h.1,hdrawn,h.2.2⟩

theorem shrinkHeight_size (term : GuacTerminal) (width height : ℤ) :
    (shrinkHeight term width height).termWidth=term.termWidth ∧
      (shrinkHeight term width height).termHeight=term.termHeight ∧
      (shrinkHeight term width height).scrollOffset=term.scrollOffset := by
  unfold shrinkHeight
  dsimp only
  split_ifs
  all_goals first
    | exact ⟨rfl,rfl,rfl⟩
    | exact ⟨(sameControl.redrawRect ..).termWidth,(sameControl.redrawRect ..).termHeight,
        (sameControl.redrawRect ..).scrollOffset⟩

/-! ### The rendered cursor -/

/-- Marking a cell does not change the length of any row. -/
theorem markCursor_rowLength (row col : ℤ) (cursor : Bool) (term : GuacTerminal) (row' : ℤ) :
    (markCursor row col cursor term).rowLength row' = term.rowLength row' := by
  unfold markCursor GuacTerminal.rowLength Buffer.row Buffer.setRow
  dsimp only
  show (update term.buffer.rows (term.buffer.index row) _
    (term.buffer.index row')).length=(term.buffer.rows (term.buffer.index row')).length
  rcases eq_or_ne (term.buffer.index row') (term.buffer.index row) with heq | hne
  · rw [heq,update_self]
  · rw [update_of_ne hne]

/-- A cell of a row may be marked. -/
theorem contentOk_markCursor (h : ContentOk width height term) (hwidth : 0<width)
    (row col : ℤ) (cursor : Bool) (h0 : 0≤col) (h1 : col<term.rowLength row) :
    ContentOk width height (markCursor row col cursor term) := by
  have hrow := h.1.row row
  have hcell : CellOk (((term.buffer.row row).characters col).marked cursor) := hrow.cells col h0 h1
  have hmarked : RowOk { term.buffer.row row with
      characters := update (term.buffer.row row).characters col
        (((term.buffer.row row).characters col).marked cursor) } := by
    refine ⟨hrow.length_nonneg,hrow.length_le,hrow.length_lt,hrow.available_ge,?_⟩
    intro i hi0 hi1
    dsimp only at hi1 ⊢
    rcases eq_or_ne i col with rfl | hi
    · rw [update_self]
      exact hcell
    · rw [update_of_ne hi]
      exact hrow.cells i hi0 hi1
  have hwidth' : (((term.buffer.row row).characters col).marked cursor).width=0 ∨
      1≤(((term.buffer.row row).characters col).marked cursor).width := by
    have hnonneg := hcell.1
    omega
  have hbuffer := h.1.setRow hmarked row
  have hdisplay := h.2.1.setColumns hwidth (wrap32 (row+term.scrollOffset)) col col hwidth'
  exact ⟨hbuffer,hdisplay,h.2.2⟩

/-- The cells of both cursors exist before they are marked. -/
theorem screenOk_commitCursor (h : ScreenOk term) : ScreenOk (guacTerminalCommitCursor term) := by
  refine h.of_content (sameControl_commitCursor term) ?_
  obtain ⟨hcontent,⟨hwidth,hmax⟩,-,-,⟨hcol,hcolMax⟩,-⟩ := h
  have hsize : term.termWidth≤1024 := hmax
  obtain ⟨hvisible,hvisibleMax⟩ : 0≤term.visibleCursorCol ∧ term.visibleCursorCol≤1024+1 :=
    hcontent.2.2.1
  have hbuffer := (hcontent.1.getRow term.cursorRow (by omega : term.cursorCol+1<2^30)).getRow
    term.visibleCursorRow (by omega : term.visibleCursorCol+1<2^30)
  have hcursorLength := getRow_length term.buffer term.cursorRow (term.cursorCol+1)
  have hlater := getRow_length_le
    (guacTerminalBufferGetRow term.buffer term.cursorRow (term.cursorCol+1))
    term.visibleCursorRow (term.visibleCursorCol+1) term.cursorRow
  have hvisibleLength := getRow_length
    (guacTerminalBufferGetRow term.buffer term.cursorRow (term.cursorCol+1))
    term.visibleCursorRow (term.visibleCursorCol+1)
  unfold guacTerminalCommitCursor
  refine iteInduction (fun _ => hcontent) fun _ => ?_
  dsimp only
  generalize guacTerminalBufferGetRow
    (guacTerminalBufferGetRow term.buffer term.cursorRow (term.cursorCol+1))
    term.visibleCursorRow (term.visibleCursorCol+1)=buffer at *
  have hgot : ContentOk term.termWidth term.termHeight { term with buffer := buffer } :=
    ⟨hbuffer,hcontent.2⟩
  have hfirst := contentOk_markCursor hgot hwidth term.visibleCursorRow _ false hvisible
    (by show _ < (buffer.row term.visibleCursorRow).length; omega)
  have hlength := markCursor_rowLength term.visibleCursorRow term.visibleCursorCol false
    { term with buffer := buffer } term.cursorRow
  have hsecond := contentOk_markCursor hfirst hwidth term.cursorRow _ true hcol (by
    rw [hlength]
    show _ < (buffer.row term.cursorRow).length
    omega)
  have hcursor : 0≤term.cursorCol ∧ term.cursorCol≤1024+1 := ⟨hcol,by omega⟩
  exact ⟨hsecond.1,hsecond.2.1,hcursor,hsecond.2.2.2⟩

theorem columnsOf_le (display : Display) (width : ℤ) : display.columnsOf width≤terminalMaxSize := by
  unfold Display.columnsOf fittingCharacters
  dsimp only
  split_ifs <;> omega

theorem screenOk_moveCursor (h : ScreenOk term) (row col : ℤ) :
    ScreenOk (guacTerminalMoveCursor term row col) := by
  obtain ⟨hcontent,hwidth,hheight,hrow,hcol,hoffset⟩ := h
  refine ⟨hcontent,hwidth,hheight,?_,?_,hoffset⟩
  · unfold guacTerminalMoveCursor
    dsimp only
    split_ifs <;> omega
  · unfold guacTerminalMoveCursor
    dsimp only
    split_ifs <;> omega

/-- A row of the screen is where the cursor moves to. -/
theorem moveCursor_row (row col : ℤ) (h0 : 0≤row) (h1 : row<term.termHeight) :
    (guacTerminalMoveCursor term row col).cursorRow=row := by
  unfold guacTerminalMoveCursor
  dsimp only
  split_ifs <;> omega

/-- A linefeed in the last row of the scrolling region scrolls rows of the display. -/
def LinefeedWithin (term : GuacTerminal) : Prop :=
  term.cursorRow=term.scrollEnd→ScrollsUp term term.scrollStart term.scrollEnd 1

instance : Decidable (LinefeedWithin term) := inferInstanceAs (Decidable (_ → _))

/-- So does a reverse linefeed in its first row. -/
def ReverseLinefeedWithin (term : GuacTerminal) : Prop :=
  term.cursorRow=term.scrollStart→ScrollsDown term term.scrollStart term.scrollEnd 1

instance : Decidable (ReverseLinefeedWithin term) := inferInstanceAs (Decidable (_ → _))

theorem ScreenOf.moveCursor (h : ScreenOf Q Plain term) (row col : ℤ) :
    ScreenOf Q Plain (guacTerminalMoveCursor term row col) := ⟨screenOk_moveCursor h.1 ..,h.2⟩

section Kept

variable (hI : ContentInvariant Q Plain Uncut)

include hI

section

variable (h : ContentOf Q Plain width height term)

include h

/-- A plain character of one column may be written to any columns of a row or next to
them. -/
theorem contentOf_setColumns (hwidth : 0<width) (row startColumn endColumn : ℤ)
    {character : TerminalChar} (hend : -1≤endColumn) (hlast : endColumn<2^30-1)
    (hc : character.width=1) (hplain : Plain character)
    (hstart : startColumn ≤ max (term.rowLength row) (endColumn+1))
    (hnonneg : startColumn≤endColumn→0 ≤ startColumn) :
    ContentOf Q Plain width height
      (guacTerminalSetColumns term row startColumn endColumn character) := by
  refine ⟨contentOk_setColumns_one h.1 hwidth row startColumn endColumn character hend hlast hc
    hstart hnonneg,hI.setOne h.1 h.2.1 hwidth hend hlast hc hplain hstart hnonneg,?_⟩
  rw [(sameControl.setColumns ..).defaultChar]
  exact h.2.2

theorem contentOf_clearColumns (hwidth : 0<width) (row startCol endCol : ℤ) (hend : -1≤endCol)
    (hlast : endCol<2^30-1) (hstart : startCol ≤ max (term.rowLength row) (endCol+1))
    (hnonneg : startCol≤endCol→0 ≤ startCol) :
    ContentOf Q Plain width height (guacTerminalClearColumns term row startCol endCol) :=
  contentOf_setColumns hI h hwidth row startCol endCol hend hlast rfl (hI.blank _) hstart hnonneg

/-- An entire row is cleared. -/
theorem contentOf_clearRow (hwidth : 0<width) (row : ℤ) {endCol : ℤ} (hend : -1≤endCol)
    (hlast : endCol<2^30-1) :
    ContentOf Q Plain width height (guacTerminalClearColumns term row 0 endCol) :=
  contentOf_clearColumns hI h hwidth row 0 endCol hend hlast (by omega) fun _ => le_rfl

/-- A range may be cleared if it starts in its row or next to it. -/
theorem contentOf_clearRange (hwidth : 0<width) (hmax : width≤terminalMaxSize)
    (hterm : term.termWidth=width) (startRow startCol endRow endCol : ℤ) (hend : 0≤endCol)
    (hstart : startCol ≤ max (term.rowLength startRow) width) :
    ContentOf Q Plain width height
      (guacTerminalClearRange term startRow startCol endRow endCol) := by
  have hsize : width≤1024 := hmax
  refine contentOf_forTo (fun row t ht => ?_)
    (contentOf_clearPart (contentOf_clearPart h fun hcol => ?_) fun hcol => ?_) _ _
  · exact contentOf_clearRow hI ht hwidth row (by omega) (by omega)
  · exact contentOf_clearColumns hI h hwidth startRow startCol _ (by omega) (by omega) (by omega)
      (by omega)
  · refine contentOf_clearRow hI (contentOf_clearPart h fun hcol => ?_) hwidth endRow (by omega)
      (by omega)
    exact contentOf_clearColumns hI h hwidth startRow startCol _ (by omega) (by omega) (by omega)
      (by omega)

/-- Rows may be copied if those of the display may. -/
theorem contentOf_copyRows (hheight : 0<height) {offset : ℤ}
    (hgrid : Copies height (wrap32 (startRow+term.scrollOffset))
      (wrap32 (endRow+term.scrollOffset)) offset) :
    ContentOf Q Plain width height (guacTerminalCopyRows term startRow endRow offset) := by
  have hok : ContentOk width height { term with
      display := guacTerminalDisplayCopyRows term.display (wrap32 (startRow+term.scrollOffset))
        (wrap32 (endRow+term.scrollOffset)) offset
      buffer := guacTerminalBufferCopyRows term.buffer startRow endRow offset } :=
    ⟨h.1.1.copyRows startRow endRow offset,h.1.2.1.copyRows hheight hgrid,h.1.2.2⟩
  have hkept := hI.bufferCopyRows h.2.1 startRow endRow offset
  have hcopied : ContentOf Q Plain width height (guacTerminalSelectTouch
      { term with
        display := guacTerminalDisplayCopyRows term.display (wrap32 (startRow+term.scrollOffset))
          (wrap32 (endRow+term.scrollOffset)) offset
        buffer := guacTerminalBufferCopyRows term.buffer startRow endRow offset }
      startRow 0 endRow term.termWidth) :=
    iteInduction (fun _ => ⟨hok,hkept,h.2.2⟩) fun _ => ⟨hok,hkept,h.2.2⟩
  exact iteInduction (fun _ => hcopied) fun _ => hcopied

/-- Rows that are scrolled up keep the contents in order. -/
theorem contentOf_scrolledUp (hheight : 0<height) (hmax : height≤terminalMaxSize)
    (hterm : term.termHeight=height) {amount : ℤ}
    (hscrolls : ScrollsUp term startRow endRow amount) :
    ContentOf Q Plain width height (scrolledUp term startRow endRow amount) := by
  have hsize : height≤1024 := hmax
  have hamount : 0<amount ∧ amount<height := by
    unfold ScrollsUp at hscrolls
    rw [hterm] at hscrolls
    split_ifs at hscrolls
    · exact hscrolls.1
    · exact hscrolls.1
  unfold ScrollsUp at hscrolls
  unfold scrolledUp
  rw [hterm] at hscrolls ⊢
  rw [wrap32_of_range (by omega : -(2^31) ≤ -amount) (by omega)]
  split_ifs at hscrolls ⊢ with hentire
  · have hdisplay := h.1.2.1.copyRows hheight (copies_of_movesUp hscrolls (by omega))
    have hbuffer : BufferOk (advanceBuffer term.buffer amount) := h.1.1.ring ..
    have hkept : Q (advanceBuffer term.buffer amount) := hI.ring h.2.1 ..
    dsimp only
    split_ifs
    all_goals exact ⟨⟨hbuffer,hdisplay,h.1.2.2⟩,hkept,h.2.2⟩
  · exact contentOf_copyRows hI h hheight (copies_of_movesUp hscrolls (by omega))

/-- A reset writes one column more than there are. -/
theorem contentOf_reset (hwidth : 0<width) (hmax : width≤terminalMaxSize)
    (hterm : term.termWidth=width) : ContentOf Q Plain width height (guacTerminalReset term) := by
  have hsize : width≤1024 := hmax
  have hdisplay : DisplayOk width height (guacTerminalDisplayResetPalette term.display) :=
    ⟨h.1.2.1.width_eq,h.1.2.1.height_eq,h.1.2.1.bounded⟩
  have hcursor : (0 : ℤ)≤0 ∧ 0≤terminalMaxSize+1 := ⟨le_rfl,by decide⟩
  unfold guacTerminalReset
  refine contentOf_forTo (fun row t ht => ?_) ?_ _ _
  · refine contentOf_setColumns hI ht hwidth row 0 _ ?_ ?_ h.1.2.2.2 h.2.2 ?_ fun _ => le_rfl
    · show -1≤term.termWidth
      omega
    · show term.termWidth<2^30-1
      omega
    · show 0 ≤ max (t.rowLength row) (term.termWidth+1)
      omega
  · exact ⟨⟨h.1.1.ring 0 0,hdisplay,hcursor,h.1.2.2.2⟩,hI.ring h.2.1 0 0,h.2.2⟩

end

/-! ## What is drawn again -/

theorem contentOf_drawScrollback (h : ContentOf Q Plain width height term) (hwidth : 0<width)
    (startRow endRow destRow : ℤ) :
    ContentOf Q Plain width height (drawScrollback startRow endRow destRow term) := by
  refine contentOf_forTo (fun row t ht => ?_) h _ _
  have hgot : ContentOk width height { t with buffer := guacTerminalBufferGetRow t.buffer row 0 } :=
    ⟨ht.1.1.getRow row (by decide),ht.1.2⟩
  exact ⟨contentOk_drawRow hgot hwidth _ _ _ _ (hgot.1.row row) le_rfl (sub_one_lt _),
    hI.bufferGetRow ht.2.1 row 0,ht.2.2⟩

/-- Rows that are drawn again keep the contents in order. -/
theorem contentOf_redrawRect (h : ContentOf Q Plain width height term) (hwidth : 0<width)
    (startRow endRow endCol : ℤ) {startCol : ℤ} (hstart : 0 ≤ startCol) :
    ContentOf Q Plain width height (redrawRect startRow startCol endRow endCol term) := by
  refine contentOf_forTo (fun row t ht => ?_) h _ _
  have hgot : ContentOk width height
      { t with buffer := guacTerminalBufferGetRow t.buffer (row-t.scrollOffset) 0 } :=
    ⟨ht.1.1.getRow _ (by decide),ht.1.2⟩
  exact ⟨contentOk_drawRow hgot hwidth _ _ _ _ (hgot.1.row _) hstart
    ((min_le_right ..).trans_lt (sub_one_lt _)),hI.bufferGetRow ht.2.1 _ 0,ht.2.2⟩

/-! ## Scrolling, rendering and sizes -/

/-- The height that is lost is scrolled out of the display. -/
theorem contentOf_shrinkHeight (h : ContentOf Q Plain width height term) (hwidth : 0<width)
    (hmax : height≤terminalMaxSize) (hterm : term.termHeight=height) {newHeight : ℤ}
    (newWidth : ℤ) (hnew : 0<newHeight) :
    ContentOf Q Plain width height (shrinkHeight term newWidth newHeight) := by
  have hsize : height≤1024 := hmax
  unfold shrinkHeight
  rw [hterm]
  dsimp only
  generalize hused : (if guacTerminalEffectiveBufferLength term > height then height
    else guacTerminalEffectiveBufferLength term)=used
  have hle : used≤height := by
    rw [←hused]
    split_ifs
    · exact le_rfl
    · omega
  split_ifs with hless hshift
  · have hmoves : MovesUp height (used-newHeight) (height-1) (used-newHeight) := by
      refine ⟨⟨hshift,by omega⟩,?_⟩
      rw [fit_eq (by omega) (by omega),fit_eq (by omega) (by omega)]
      omega
    have hdisplay := h.1.2.1.copyRows (by omega) (copies_of_movesUp hmoves (by omega))
    rw [h.1.2.1.height_eq]
    refine contentOf_redrawRect hI ?_ hwidth _ _ _ le_rfl
    exact ⟨⟨h.1.1.ring ..,hdisplay,h.1.2.2⟩,hI.ring h.2.1 ..,h.2.2⟩
  · exact h
  · exact h

/-- The height that is gained is scrolled into the display. -/
theorem contentOf_growHeight (h : ContentOf Q Plain width height term) (hwidth : 0<width)
    (hmax : height≤terminalMaxSize) (hterm : 0<term.termHeight)
    (hoffset : 0≤term.scrollOffset) (newWidth : ℤ) :
    ContentOf Q Plain width height (growHeight term newWidth height) ∧
      0≤(growHeight term newWidth height).scrollOffset := by
  have hsize : height≤1024 := hmax
  have hshifted : ∀ shift, ContentOf Q Plain width height (term.shiftedDown shift) := fun shift =>
    ⟨⟨h.1.1.ring ..,h.1.2⟩,hI.ring h.2.1 ..,h.2.2⟩
  have hgrown := grown_growHeight term newWidth height
  generalize growHeight term newWidth height=grown at hgrown ⊢
  cases hgrown with
  | same => exact ⟨h,hoffset⟩
  | scrolled shift _ _ _ hle =>
    refine ⟨contentOf_redrawRect hI ?_ hwidth _ _ _ le_rfl,?_⟩
    · exact hshifted shift
    · rw [(sameControl.redrawRect ..).scrollOffset]
      exact sub_nonneg.mpr hle
  | moved shift hgrows _ hshift hlt drawn hdrawn =>
    have hdrawn' : ContentOf Q Plain width height drawn :=
      hdrawn ▸ contentOf_redrawRect hI (hshifted shift) hwidth _ _ _ le_rfl
    obtain ⟨hok,hkept⟩ := hdrawn'
    have hmoves : MovesDown height 0 (height-(shift-term.scrollOffset)-1)
        (shift-term.scrollOffset) := by
      refine ⟨⟨by omega,by omega⟩,?_⟩
      rw [fit_eq le_rfl (by omega),fit_eq (by omega) (by omega)]
      omega
    have hdisplay := hok.2.1.copyRows (by omega) (copies_of_movesDown hmoves (by omega))
    rw [←hok.2.1.height_eq] at hdisplay
    refine ⟨contentOf_redrawRect hI ?_ hwidth _ _ _ le_rfl,?_⟩
    · rw [←hok.2.1.height_eq]
      exact ⟨⟨hok.1,hdisplay,hok.2.2⟩,hkept⟩
    · rw [(sameControl.redrawRect ..).scrollOffset]
      exact le_rfl

/-- A size with columns and rows is one that the display can have. -/
theorem screenOf_resizeCharacters (memory : Memory) (h : ScreenOf Q Plain term) {width height : ℤ}
    (hwidth : 0<width) (hwidthMax : width≤terminalMaxSize) (hheight : 0<height)
    (hheightMax : height≤terminalMaxSize) :
    ScreenOf Q Plain (resizeCharacters memory term width height) := by
  have hcontent := h.content
  obtain ⟨⟨-,⟨htermWidth,-⟩,⟨htermHeight,htermMax⟩,-,-,hoffset⟩,-⟩ := h
  have hshrunk := contentOf_shrinkHeight hI hcontent htermWidth htermMax rfl width hheight
  have hsized : ContentOf Q Plain width height { shrinkHeight term width height with
      display := guacTerminalDisplayResize
        (guacTerminalDisplayFlush (shrinkHeight term width height).display) width height
        memory.operations } :=
    ⟨⟨hshrunk.1.1,⟨rfl,rfl,hshrunk.1.2.1.bounded⟩,hshrunk.1.2.2⟩,hshrunk.2⟩
  obtain ⟨hshrunkWidth,hshrunkHeight,hshrunkOffset⟩ := shrinkHeight_size term width height
  have hwidened : ∀ redrawn : GuacTerminal, ContentOf Q Plain width height redrawn →
      redrawn.termHeight=term.termHeight → redrawn.scrollOffset=term.scrollOffset →
      ScreenOf Q Plain { growHeight redrawn width height with
        cursorRow := keepOnScreen (growHeight redrawn width height).cursorRow height
        cursorCol := keepOnScreen (growHeight redrawn width height).cursorCol width
        termWidth := width
        termHeight := height } := by
    intro redrawn hredrawn hredrawnHeight hredrawnOffset
    obtain ⟨hgrown,hgrownOffset⟩ := contentOf_growHeight hI hredrawn hwidth hheightMax
      (htermHeight.trans_eq hredrawnHeight.symm) (hoffset.trans_eq hredrawnOffset.symm) width
    have hrow := (keepOnScreen_nonneg_iff (growHeight redrawn width height).cursorRow _).mpr hheight
    have hcol := (keepOnScreen_nonneg_iff (growHeight redrawn width height).cursorCol _).mpr hwidth
    have hcolLt := keepOnScreen_lt (growHeight redrawn width height).cursorCol width
    exact ⟨⟨hgrown.1,⟨hwidth,hwidthMax⟩,⟨hheight,hheightMax⟩,⟨hrow,keepOnScreen_lt ..⟩,
      ⟨hcol,by dsimp only; omega⟩,hgrownOffset⟩,hgrown.2⟩
  have hredrawn := contentOf_redrawRect hI hsized hwidth 0 (height-1) (width-1)
    (by show 0≤(shrinkHeight term width height).termWidth-1; omega)
  refine hwidened _ (iteInduction (fun _ => hredrawn) fun _ => hsized) ?_ ?_
  · exact (ite_keeps (sameControl.redrawRect ..)
      (SameControl.refl _)).termHeight.trans hshrunkHeight
  · exact (ite_keeps (sameControl.redrawRect ..)
      (SameControl.refl _)).scrollOffset.trans hshrunkOffset

theorem screenOf_commitCursor (h : ScreenOf Q Plain term) :
    ScreenOf Q Plain (guacTerminalCommitCursor term) := by
  refine ⟨screenOk_commitCursor h.1,?_,?_⟩
  · unfold guacTerminalCommitCursor
    split_ifs
    · exact h.2.1
    · refine hI.mark (hI.mark ?_ _ _ false) _ _ true
      exact hI.bufferGetRow (hI.bufferGetRow h.2.1 ..) ..
  · rw [(sameControl_commitCursor term).defaultChar]
    exact h.2.2

/-- A proper size keeps the screen in order. -/
theorem screenOf_resize (memory : Memory) (h : ScreenOf Q Plain term) {width height : ℤ}
    (hcolumns : 0<term.display.columnsOf width) (hrows : 0<term.display.rowsOf height) :
    ScreenOf Q Plain (guacTerminalResize memory term width height) := by
  have hresized := screenOf_resizeCharacters hI memory h hcolumns (columnsOf_le ..) hrows
    (rowsOf_le ..)
  have hchanged : ScreenOf Q Plain (if term.display.columnsOf width≠term.termWidth ∨
          term.display.rowsOf height≠term.termHeight then
        { resizeCharacters memory term (term.display.columnsOf width)
            (term.display.rowsOf height) with scrollEnd := term.display.rowsOf height-1 }
      else term) := by
    split
    · exact hresized
    · exact h
  exact hchanged

theorem screenOf_flush (h : ScreenOf Q Plain term) : ScreenOf Q Plain (guacTerminalFlush term) := by
  have hpiped : ScreenOf Q Plain (if term.pipeStreamFlags/2%2=1 then
      guacTerminalPipeStreamFlush term else term) := by
    unfold guacTerminalPipeStreamFlush
    split_ifs
    · exact h
    · exact h
    · exact h
  obtain ⟨⟨⟨hbuffer,hdisplay,hcursor⟩,hrest⟩,hkept⟩ := screenOf_commitCursor hI hpiped
  exact ⟨⟨⟨hbuffer,⟨hdisplay.width_eq,hdisplay.height_eq,hdisplay.bounded⟩,hcursor⟩,hrest⟩,hkept⟩

/-- Rows that are scrolled into view are drawn from the scrollback. -/
theorem screenOf_drawScrollback (h : ScreenOf Q Plain term) (startRow endRow destRow : ℤ) :
    ScreenOf Q Plain (drawScrollback startRow endRow destRow term) :=
  h.of_content (sameControl.drawScrollback ..) (contentOf_drawScrollback hI h.content h.1.2.1.1 ..)

theorem screenOf_scrollDisplayDown (h : ScreenOf Q Plain term) (scrollAmount : ℤ) :
    ScreenOf Q Plain (guacTerminalScrollDisplayDown term scrollAmount) := by
  have hmax : term.termHeight≤1024 := h.1.2.2.1.2
  unfold guacTerminalScrollDisplayDown
  dsimp only
  generalize hamount : (if scrollAmount > term.scrollOffset then term.scrollOffset
    else scrollAmount)=amount
  have hle : amount≤term.scrollOffset := by
    rw [←hamount]
    split_ifs <;> omega
  split
  · exact h
  · have hdisplay : DisplayOk term.termWidth term.termHeight (if term.termHeight > amount then
        guacTerminalDisplayCopyRows term.display amount (term.termHeight-1) (-amount)
        else term.display) := by
      split_ifs with hheight
      · refine h.1.1.2.1.copyRows (by omega)
          (copies_of_movesUp ⟨⟨by omega,by omega⟩,?_⟩ (by omega))
        rw [fit_eq (by omega) (by omega),fit_eq (by omega) (by omega)]
        omega
      · exact h.1.1.2.1
    have hoffset : 0≤term.scrollOffset-amount := by omega
    refine screenOf_drawScrollback hI ?_ _ _ _
    obtain ⟨⟨hcontent,hwidth,hheight,hrow,hcol,-⟩,hkept⟩ := h
    exact ⟨⟨⟨hcontent.1,hdisplay,hcontent.2.2⟩,hwidth,hheight,hrow,hcol,hoffset⟩,hkept⟩

theorem screenOf_scrollDisplayUp (h : ScreenOf Q Plain term) {scrollAmount : ℤ}
    (hsum : IsInt (term.scrollOffset+scrollAmount)) :
    ScreenOf Q Plain (guacTerminalScrollDisplayUp term scrollAmount) := by
  have hmax : term.termHeight≤1024 := h.1.2.2.1.2
  have hoffset : 0≤term.scrollOffset := h.1.2.2.2.2.2
  obtain ⟨hlow,hhigh⟩ := hsum
  unfold guacTerminalScrollDisplayUp
  dsimp only
  rw [wrap32_of_range hlow hhigh]
  generalize hamount : (if term.scrollOffset+scrollAmount > guacTerminalAvailableScroll term then
    guacTerminalAvailableScroll term-term.scrollOffset else scrollAmount)=amount
  have hle : term.scrollOffset+amount<2^31 := by
    rw [←hamount]
    split_ifs <;> omega
  split
  · exact h
  · have hdisplay : DisplayOk term.termWidth term.termHeight (if term.termHeight > amount then
        guacTerminalDisplayCopyRows term.display 0 (term.termHeight-amount-1) amount
        else term.display) := by
      split_ifs with hheight
      · refine h.1.1.2.1.copyRows (by omega)
          (copies_of_movesDown ⟨⟨by omega,by omega⟩,?_⟩ (by omega))
        rw [fit_eq (by omega) (by omega),fit_eq (by omega) (by omega)]
        omega
      · exact h.1.1.2.1
    rw [wrap32_of_range (by omega) hle]
    have hoffset' : 0≤term.scrollOffset+amount := by omega
    refine screenOf_drawScrollback hI ?_ _ _ _
    obtain ⟨⟨hcontent,hwidth,hheight,hrow,hcol,-⟩,hkept⟩ := h
    exact ⟨⟨⟨hcontent.1,hdisplay,hcontent.2.2⟩,hwidth,hheight,hrow,hcol,hoffset'⟩,hkept⟩

/-! ## Lines -/

theorem screenOf_clearRange (h : ScreenOf Q Plain term) (startRow startCol endRow endCol : ℤ)
    (hend : 0≤endCol) (hstart : startCol ≤ max (term.rowLength startRow) term.termWidth) :
    ScreenOf Q Plain (guacTerminalClearRange term startRow startCol endRow endCol) :=
  h.of_content (sameControl.clearRange ..) (contentOf_clearRange hI h.content h.1.2.1.1 h.1.2.1.2
    rfl startRow startCol endRow endCol hend hstart)

theorem screenOf_scrollUp (h : ScreenOf Q Plain term) {amount : ℤ}
    (hscrolls : ScrollsUp term startRow endRow amount) :
    ScreenOf Q Plain (guacTerminalScrollUp term startRow endRow amount) := by
  have hsame := (sameControl_scrolledUp term startRow endRow amount).termWidth
  obtain ⟨-,⟨hwidth,hmax⟩,⟨hheight,hmaxHeight⟩,-⟩ := h.1
  have hscrolled := contentOf_scrolledUp hI h.content hheight hmaxHeight rfl hscrolls
  refine h.of_content (sameControl_scrollUp ..) ?_
  rw [scrollUp_eq]
  exact contentOf_clearRange hI hscrolled hwidth hmax hsame _ _ _ _ (by omega)
    (le_max_of_le_right hwidth.le)

theorem screenOf_scrollDown (h : ScreenOf Q Plain term) {amount : ℤ}
    (hscrolls : ScrollsDown term startRow endRow amount) :
    ScreenOf Q Plain (guacTerminalScrollDown term startRow endRow amount) := by
  have hsame := (sameControl.copyRows term startRow (wrap32 (endRow-amount)) amount).termWidth
  obtain ⟨-,⟨hwidth,hmax⟩,⟨hheight,hmaxHeight⟩,-⟩ := h.1
  have hsize : term.termHeight≤1024 := hmaxHeight
  have hcopied := contentOf_copyRows hI h.content hheight (copies_of_movesDown hscrolls (by omega))
  exact h.of_content (sameControl.scrollDown ..) (contentOf_clearRange hI hcopied hwidth hmax
    hsame _ _ _ _ (by omega) (le_max_of_le_right hwidth.le))

theorem screenOf_linefeed (h : ScreenOf Q Plain term) (hwithin : LinefeedWithin term) :
    ScreenOf Q Plain (guacTerminalLinefeed term) := by
  unfold guacTerminalLinefeed
  split_ifs with hend hlast
  · exact screenOf_scrollUp hI h (hwithin hend)
  · obtain ⟨⟨hcontent,hwidth,hheight,hrow,hrest⟩,hkept⟩ := h
    exact ⟨⟨hcontent,hwidth,hheight,⟨by dsimp only; omega,by dsimp only; omega⟩,hrest⟩,hkept⟩
  · exact h

theorem screenOf_reverseLinefeed (h : ScreenOf Q Plain term)
    (hwithin : ReverseLinefeedWithin term) :
    ScreenOf Q Plain (guacTerminalReverseLinefeed term) := by
  unfold guacTerminalReverseLinefeed
  split_ifs with hstart hfirst
  · exact screenOf_scrollDown hI h (hwithin hstart)
  · obtain ⟨⟨hcontent,hwidth,hheight,hrow,hrest⟩,hkept⟩ := h
    exact ⟨⟨hcontent,hwidth,hheight,⟨by dsimp only; omega,by dsimp only; omega⟩,hrest⟩,hkept⟩
  · exact h

/-- A reset keeps the screen in order. -/
theorem screenOf_reset (h : ContentOf Q Plain term.termWidth term.termHeight term)
    (hwidth : 0<term.termWidth ∧ term.termWidth≤terminalMaxSize)
    (hheight : 0<term.termHeight ∧ term.termHeight≤terminalMaxSize) :
    ScreenOf Q Plain (guacTerminalReset term) := by
  have hreset := contentOf_reset hI h hwidth.1 hwidth.2 rfl
  refine ⟨?_,hreset.2⟩
  obtain ⟨base,hsame,⟨hbaseWidth,hbaseHeight⟩,⟨hbaseRow,hbaseCol⟩,-,-,hoffset,-⟩ := reset_eq term
  obtain ⟨hrow,hcol⟩ := hsame.cursor
  unfold ScreenOk
  rw [hsame.termWidth,hsame.termHeight,hrow,hcol,hsame.scrollOffset,hbaseWidth,hbaseHeight,
    hbaseRow,hbaseCol,hoffset]
  exact ⟨hreset.1,hwidth,hheight,⟨le_rfl,hheight.1⟩,⟨le_rfl,by omega⟩,le_rfl⟩

theorem screenOf_wrapCursor (h : ScreenOf Q Plain term)
    (hwraps : term.cursorCol≥term.termWidth→LinefeedWithin term) :
    ScreenOf Q Plain (wrapCursor term) := by
  unfold wrapCursor
  split_ifs with hcol
  · obtain ⟨⟨hcontent,hwidth,hheight,hrow,-,hoffset⟩,hkept⟩ := h
    have hstart : ScreenOf Q Plain { term with cursorCol := 0 } :=
      ⟨⟨hcontent,hwidth,hheight,hrow,⟨le_rfl,by dsimp only; omega⟩,hoffset⟩,hkept⟩
    exact screenOf_linefeed hI hstart (hwraps hcol)
  · exact h

end Kept

/-! ### Printed characters -/

/-- Columns from the cursor on are moved to the right within the row and the
display. -/
theorem contentOk_insertion (h : ScreenOk term) {amount : ℤ} (hpos : 0<amount)
    (hlt : amount<term.termWidth) (hle : term.cursorCol+amount≤term.termWidth) :
    ContentOk term.termWidth term.termHeight (copiedColumns term term.cursorRow term.cursorCol
        (term.termWidth-amount-1) amount) ∧
      ContentOk term.termWidth term.termHeight (guacTerminalCopyColumns term term.cursorRow
        term.cursorCol (term.termWidth-amount-1) amount) ∧
      SameRow term.cursorRow (copiedColumns term term.cursorRow term.cursorCol
        (term.termWidth-amount-1) amount) (guacTerminalCopyColumns term term.cursorRow
          term.cursorCol (term.termWidth-amount-1) amount) := by
  obtain ⟨hcontent,⟨hwidth,hmax⟩,-,-,⟨hcol0,-⟩,-⟩ := h
  have hsize : term.termWidth≤1024 := hmax
  have hlength : term.rowLength term.cursorRow<2^30 := (hcontent.1.row term.cursorRow).length_lt
  have hwrap : wrap32 (term.termWidth-amount-1+amount+1)=term.termWidth := by
    rw [wrap32_of_range (by omega) (by omega)]
    omega
  have hmoves : ∀ n, term.termWidth≤n →
      MovesDown n term.cursorCol (term.termWidth-amount-1) amount := by
    intro n hn
    refine ⟨⟨hpos,by omega⟩,?_⟩
    rw [fit_eq hcol0 (by omega),fit_eq (by omega) (by omega)]
    omega
  exact contentOk_copyColumns hcontent hwidth term.cursorRow term.cursorCol
    (term.termWidth-amount-1) amount (by omega) (by omega)
    (by rw [hwrap]; exact copies_of_movesDown (hmoves _ (le_max_right ..)) (by omega))
    (fun _ _ => copies_of_movesDown (hmoves _ le_rfl) (by omega))
    (fun hstart hend => ⟨by omega,by show _ ≤ (1024+1 : ℤ); omega⟩)
    (by rw [wrap32_of_range (by omega) (by omega)]; omega)

/-- The column of the rendered cursor once there is space for a character. -/
def GuacTerminal.overlayColumn (term : GuacTerminal) : ℤ :=
  if term.insertMode ∧ term.cursorRow=term.visibleCursorRow ∧
      term.cursorCol≤term.visibleCursorCol ∧ term.visibleCursorCol≤term.termWidth-2 then
    term.visibleCursorCol+1
  else term.visibleCursorCol

/-- The rendered cursor is in the second column of a wide character, in the last
column that the row has storage for: it is drawn as wide as the character. -/
def OverlayOutside (env : TerminalEnv) (term : GuacTerminal) (codepoint : ℤ) : Prop :=
  (env.wcwidth codepoint=2 ∧ term.cursorCol<term.termWidth) ∧
    term.cursorRow=term.visibleCursorRow ∧ term.overlayColumn=term.cursorCol+1 ∧
    term.cursorCol+2=(term.buffer.row term.cursorRow).available ∧
    (term.insertMode → term.termWidth≤(term.buffer.row term.cursorRow).available)

instance (env : TerminalEnv) (codepoint : ℤ) : Decidable (OverlayOutside env term codepoint) :=
  inferInstanceAs (Decidable (_ ∧ _))

/-- A character may be displayed in the row that the cursor wraps to, in a terminal
in which there is space for insertion, where the cursor stays within the row. -/
def DisplaysWithin (env : TerminalEnv) (term : GuacTerminal) (codepoint : ℤ) : Prop :=
  (term.cursorCol≥term.termWidth→LinefeedWithin term) ∧
    (term.insertMode→1<term.termWidth) ∧ ¬OverlayOutside env term codepoint

instance (env : TerminalEnv) (codepoint : ℤ) : Decidable (DisplaysWithin env term codepoint) :=
  inferInstanceAs (Decidable (_ ∧ _))

/-- A terminal in which there is space for a character at the cursor. -/
def insertedSpace (term : GuacTerminal) : GuacTerminal :=
  if term.insertMode then
    guacTerminalCopyColumns term term.cursorRow term.cursorCol (term.termWidth-2) 1
  else term

theorem linefeed_insertMode (term : GuacTerminal) :
    (guacTerminalLinefeed term).insertMode=term.insertMode := by
  unfold guacTerminalLinefeed
  split_ifs
  · exact (sameControl_scrollUp ..).insertMode
  · rfl
  · rfl

/-- A wrapped cursor is within the columns. -/
theorem screenOk_wrapCursor (h : ScreenOk term)
    (hwraps : term.cursorCol≥term.termWidth→LinefeedWithin term) :
    ScreenOk (wrapCursor term) ∧ (wrapCursor term).cursorCol<(wrapCursor term).termWidth ∧
      ((wrapCursor term).insertMode=term.insertMode ∧ (wrapCursor term).termWidth=term.termWidth) ∧
      (wrapCursor term=term ∧ term.cursorCol<term.termWidth ∨ (wrapCursor term).cursorCol=0) := by
  refine ⟨(screenOf_wrapCursor contentInvariant_true ⟨h,trivial,trivial⟩ hwraps).1,?_⟩
  unfold wrapCursor
  split_ifs with hcol
  · obtain ⟨hlineCol,hlineWidth⟩ := linefeed_cursorCol { term with cursorCol := 0 }
    refine ⟨?_,⟨linefeed_insertMode _,hlineWidth⟩,Or.inr hlineCol⟩
    rw [hlineCol,hlineWidth]
    exact h.2.1.1
  · exact ⟨not_le.mp hcol,⟨rfl,rfl⟩,Or.inl ⟨rfl,not_le.mp hcol⟩⟩

/-- Space is inserted within the row and the display. -/
theorem contentOk_insertedSpace (h : ScreenOk term) (hcol : term.cursorCol<term.termWidth)
    (hinsert : term.insertMode→1<term.termWidth) :
    ContentOk term.termWidth term.termHeight (insertedSpace term) ∧
      (insertedSpace term).visibleCursorRow=term.visibleCursorRow ∧
      (insertedSpace term).visibleCursorCol=term.overlayColumn ∧
      ((insertedSpace term).buffer.row term.cursorRow).available=if term.insertMode then
          ((term.buffer.row term.cursorRow).expand term.buffer.defaultCharacter
            term.termWidth).available
        else (term.buffer.row term.cursorRow).available := by
  have hwidth := h.2.1.1
  have hsize : term.termWidth≤1024 := h.2.1.2
  have hwrap : wrap32 (term.termWidth-2+1+1)=term.termWidth := by
    rw [wrap32_of_range (by omega) (by omega)]
    omega
  unfold insertedSpace GuacTerminal.overlayColumn
  by_cases hmode : term.insertMode
  · obtain ⟨-,hcopied,hsame⟩ := contentOk_insertion h one_pos (hinsert hmode) (by omega)
    rw [sub_sub,one_add_one_eq_two] at hcopied hsame
    obtain ⟨-,havailable,hcursorRow,hcursorCol⟩ :=
      copiedColumns_row term term.cursorRow term.cursorCol (term.termWidth-2) 1
    rw [hwrap] at havailable
    simp only [hmode,true_and,if_true]
    exact ⟨hcopied,hsame.cursorRow.trans hcursorRow,hsame.cursorCol.trans hcursorCol,
      hsame.available.trans havailable⟩
  · simp only [hmode,false_and,if_false,Bool.false_eq_true,and_true]
    exact h.1

/-- A row has storage for a character of at most two columns wherever the rendered
cursor is in it, if it has in its second column. -/
theorem lt_available_of_set (h : BufferOk term.buffer) {row col columns : ℤ}
    (hlast : col<terminalMaxSize) (hcolumns : 1≤columns ∧ columns≤2)
    (hcursor : columns=2 → row=term.visibleCursorRow → term.visibleCursorCol=col+1 →
      col+2<((term.buffer.row row).expand term.buffer.defaultCharacter (col+2)).available)
    (hrow : row=term.visibleCursorRow) (hstart : col≤term.visibleCursorCol)
    (hend : term.visibleCursorCol≤col+columns-1) :
    term.visibleCursorCol+columns-1<((term.buffer.row row).expand term.buffer.defaultCharacter
        (col+columns-1+1)).available := by
  have hsize : col<1024 := hlast
  have hlt := lt_expand_available h row (by omega : col+columns-1<2^30-1)
  rcases hend.lt_or_eq with hfirst | hsecond
  · omega
  · rcases (by omega : columns=1 ∨ columns=2) with rfl | rfl
    · omega
    · have hoverlay := hcursor rfl hrow (by omega)
      rw [show col+2-1+1=col+2 by omega]
      omega

/-- A character of at most two columns is written within the row. -/
theorem contentOk_set (h : ContentOk width height term) (hwidth : 0<width) (row col codepoint : ℤ)
    {columns : ℤ} (hcol : 0≤col) (hlast : col<terminalMaxSize)
    (hcolumns : columns≤2)
    (hcursor : columns=2 → row=term.visibleCursorRow → term.visibleCursorCol=col+1 →
      col+2<((term.buffer.row row).expand term.buffer.defaultCharacter (col+2)).available) :
    ContentOk width height (guacTerminalSet term row col codepoint columns) := by
  have hsize : col<1024 := hlast
  unfold guacTerminalSet
  dsimp only
  generalize hw : (if columns<0 then 1 else columns)=w
  have hw0 : 0≤w ∧ w≤2 := by
    rw [←hw]
    split_ifs <;> omega
  have htwo : w=2 → columns=2 := by
    rw [←hw]
    split_ifs <;> omega
  refine iteInduction (fun _ => h) fun hzero => ?_
  have hlt := lt_expand_available h.1 row (by omega : col+w-1<2^30-1)
  refine contentOk_setColumns h hwidth row col (col+w-1) _ (by omega) (by omega)
    (by dsimp only; omega) (by omega) (fun hle => ⟨hcol,?_⟩) fun hrow hstart hend => ?_
  · dsimp only
    rw [lastWritten_once hle (by omega)]
    exact hlt
  · have hpos : 1≤w := by omega
    exact lt_available_of_set h.1 hlast ⟨hpos,hw0.2⟩ (fun hwide => hcursor (htwo hwide)) hrow
      hstart hend

/-- The rendered cursor is not drawn over the end of the storage of its row. -/
theorem available_ne_of_overlay {env : TerminalEnv} {codepoint : ℤ} (h : ScreenOk term)
    (hcol : term.cursorCol<term.termWidth) (hinsert : term.insertMode→1<term.termWidth)
    (houtside : ¬OverlayOutside env term codepoint) (hwide : env.wcwidth codepoint=2)
    (hrow : term.cursorRow=term.visibleCursorRow)
    (hoverlay : term.overlayColumn=term.cursorCol+1) {available : ℤ}
    (havailable : available=if term.insertMode then
      ((term.buffer.row term.cursorRow).expand term.buffer.defaultCharacter
        term.termWidth).available
      else (term.buffer.row term.cursorRow).available) :
    available≠term.cursorCol+2 := by
  obtain ⟨hcontent,⟨hwidth,hmax⟩,-,-,-,-⟩ := h
  have hsize : term.termWidth≤1024 := hmax
  rintro rfl
  by_cases hmode : term.insertMode
  · rw [if_pos hmode] at havailable
    have hspace := hinsert hmode
    rcases le_or_gt term.termWidth (term.buffer.row term.cursorRow).available with hle | hgt
    · rw [expand_available_eq hle] at havailable
      exact houtside ⟨⟨hwide,hcol⟩,hrow,hoverlay,havailable,fun _ => hle⟩
    · rw [(hcontent.1.row term.cursorRow).expand_available _ (by omega) hgt] at havailable
      omega
  · rw [if_neg hmode] at havailable
    exact houtside ⟨⟨hwide,hcol⟩,hrow,hoverlay,havailable,fun hmode' => absurd hmode' hmode⟩

theorem sameControl_insertedSpace (term : GuacTerminal) : SameControl term (insertedSpace term) :=
  ite_keeps (sameControl.copyColumns ..) (SameControl.refl _)

/-- There is storage for the rendered cursor in the second column of a character. -/
theorem overlay_available {env : TerminalEnv} (h : ScreenOk term) {codepoint : ℤ}
    (hwithin : DisplaysWithin env term codepoint) (hwide : env.wcwidth codepoint=2)
    (hvisible : (insertedSpace (wrapCursor term)).cursorRow=
      (insertedSpace (wrapCursor term)).visibleCursorRow)
    (hoverlay : (insertedSpace (wrapCursor term)).visibleCursorCol=
      (insertedSpace (wrapCursor term)).cursorCol+1) :
    (insertedSpace (wrapCursor term)).cursorCol+2<(((insertedSpace (wrapCursor term)).buffer.row
        (insertedSpace (wrapCursor term)).cursorRow).expand
          (insertedSpace (wrapCursor term)).buffer.defaultCharacter
          ((insertedSpace (wrapCursor term)).cursorCol+2)).available := by
  obtain ⟨hwraps,hinsert,houtside⟩ := hwithin
  obtain ⟨hwrapped,hcol,⟨hmode,hwidthEq⟩,hplace⟩ := screenOk_wrapCursor h hwraps
  rw [←hmode,←hwidthEq] at hinsert
  obtain ⟨hspace,hcursorRow,hcursorCol,havailable⟩ := contentOk_insertedSpace hwrapped hcol hinsert
  obtain ⟨hrowEq,hcolEq⟩ := (sameControl_insertedSpace (wrapCursor term)).cursor
  have hmax : (wrapCursor term).termWidth≤1024 := hwrapped.2.1.2
  have hrow := hspace.1.row (wrapCursor term).cursorRow
  rw [hrowEq,hcursorRow] at hvisible
  rw [hcolEq,hcursorCol] at hoverlay
  rw [hrowEq,hcolEq]
  refine hrow.lt_expand _ (by omega) ?_
  rcases hplace with ⟨hplace,-⟩ | hzero
  · rw [hplace] at hwrapped hcol hinsert hvisible hoverlay havailable ⊢
    exact available_ne_of_overlay hwrapped hcol hinsert houtside hwide hvisible hoverlay havailable
  · have hge := hrow.available_ge
    omega

/-- A character may be displayed under the conditions. -/
theorem screenOk_displayCharacter {env : TerminalEnv}
    (hwcwidth : ∀ codepoint, env.wcwidth codepoint≤2) (h : ScreenOk term) {codepoint : ℤ}
    (hwithin : DisplaysWithin env term codepoint) :
    ScreenOk (displayCharacter env term codepoint) := by
  have hoverlay := overlay_available h hwithin
  obtain ⟨hwraps,hinsert,-⟩ := hwithin
  obtain ⟨hwrapped,hcol,⟨hmode,hwidthEq⟩,-⟩ := screenOk_wrapCursor h hwraps
  rw [←hmode,←hwidthEq] at hinsert
  have hspace := (contentOk_insertedSpace hwrapped hcol hinsert).1
  have hsame := sameControl_insertedSpace (wrapCursor term)
  obtain ⟨hrowEq,hcolEq⟩ := hsame.cursor
  obtain ⟨hcol0,-⟩ := hwrapped.2.2.2.2.1
  have hmax : (wrapCursor term).termWidth≤1024 := hwrapped.2.1.2
  have hset := contentOk_set hspace hwrapped.2.1.1 (insertedSpace (wrapCursor term)).cursorRow
    (insertedSpace (wrapCursor term)).cursorCol codepoint (by omega)
    (by show _ < (1024 : ℤ); omega) (hwcwidth codepoint) hoverlay
  have hsameSet := hsame.trans (sameControl.set (insertedSpace (wrapCursor term))
    (insertedSpace (wrapCursor term)).cursorRow (insertedSpace (wrapCursor term)).cursorCol
    codepoint (env.wcwidth codepoint))
  obtain ⟨hcontent,hwidth,hheight,hrows,hcols,hoffset⟩ := hwrapped.of_content hsameSet hset
  have hadvance := advanceOf_nonneg env codepoint
  have hadvanceLe : advanceOf env codepoint≤2 := by
    have hle := hwcwidth codepoint
    unfold advanceOf
    split_ifs <;> omega
  have hshownCol := hsameSet.cursor.2
  have hshownWidth := hsameSet.termWidth
  refine ⟨hcontent,hwidth,hheight,hrows,⟨?_,?_⟩,hoffset⟩
  · exact add_nonneg (hcol0.trans_eq hshownCol.symm) hadvance
  · refine (add_le_add hshownCol.le hadvanceLe).trans (le_of_le_of_eq ?_ (congrArg (· + 1)
      hshownWidth.symm))
    omega

/-- The code points of line feeds. -/
def IsLinefeed (codepoint : ℤ) : Prop := codepoint=0x0A ∨ codepoint=0x0B ∨ codepoint=0x0C

instance (codepoint : ℤ) : Decidable (IsLinefeed codepoint) := inferInstanceAs (Decidable (_ ∨ _))

/-- A byte completes the code point of a line feed. -/
def FeedsLine (term : GuacTerminal) (c : UInt8) : Prop :=
  term.charHandler=.echo ∧ ¬(OnlyPiped term c ∨ (term.decoded c).2≠0) ∧
    IsLinefeed (term.decoded c).1

instance (c : UInt8) : Decidable (FeedsLine term c) := inferInstanceAs (Decidable (_ ∧ _))

variable {env : TerminalEnv}

/-! ### Sequences -/

/-- What a byte after ESC scrolls is on the display. -/
def EscapeWithin (term : GuacTerminal) (c : UInt8) : Prop :=
  match Char.ofNat c.toNat with
  | 'D' => LinefeedWithin term
  | 'E' => LinefeedWithin term
  | 'M' => ReverseLinefeedWithin term
  | _ => True

/-- The amount that the first parameter of a sequence names. -/
def HandlerStatics.amount (statics : HandlerStatics) : ℤ :=
  if statics.argv.getD 0 0=0 then 1 else statics.argv.getD 0 0

/-- What the final byte of a sequence does to contents lies within them. An
insertion or erasure of characters does not need more than half of what an int
holds of columns, a deletion deletes at most as many characters as a row has, of
columns that are initialised, and an erasure from the cursor on starts in the row or
next to it. -/
def CsiWithin (term : GuacTerminal) (statics : HandlerStatics) (c : UInt8) : Prop :=
  match Char.ofNat c.toNat with
  | '@' | 'X' => 0<statics.amount ∧ term.cursorCol+statics.amount<2^30
  | 'J' | 'K' =>
    statics.argv.getD 0 0=0 → term.cursorCol ≤ max (term.rowLength term.cursorRow) term.termWidth
  | 'L' => ScrollsDown term term.cursorRow term.scrollEnd statics.amount
  | 'M' => ScrollsUp term term.cursorRow term.scrollEnd statics.amount
  | 'P' =>
    (0<statics.amount ∧ statics.amount≤term.termWidth) ∧
      (term.cursorCol+statics.amount<term.termWidth →
        statics.amount<term.rowLength term.cursorRow ∨ 2*statics.amount<term.termWidth)
  | _ => True

theorem fit_mono {n a b : ℤ} (hn : 0<n) (hle : a≤b) :
    guacTerminalFitToRange a 0 (n-1)≤guacTerminalFitToRange b 0 (n-1) := by
  unfold guacTerminalFitToRange
  split_ifs <;> omega

/-- Characters from the cursor on are moved to the right. -/
def insertedCharacters (term : GuacTerminal) (amount : ℤ) : GuacTerminal :=
  if wrap32 (term.cursorCol+amount)<term.termWidth then
    guacTerminalCopyColumns term term.cursorRow term.cursorCol
      (wrap32 (term.termWidth-amount-1)) amount
  else term

/-- Characters behind those at the cursor are moved to the left. -/
def deletedCharacters (term : GuacTerminal) (amount : ℤ) : GuacTerminal :=
  if wrap32 (term.cursorCol+amount)<term.termWidth then
    guacTerminalCopyColumns term term.cursorRow (wrap32 (term.cursorCol+amount))
      (term.termWidth-1) (wrap32 (-amount))
  else term

theorem sameControl_insertedCharacters (term : GuacTerminal) (amount : ℤ) :
    SameControl term (insertedCharacters term amount) :=
  ite_keeps (sameControl.copyColumns ..) (SameControl.refl _)

theorem sameControl_deletedCharacters (term : GuacTerminal) (amount : ℤ) :
    SameControl term (deletedCharacters term amount) :=
  ite_keeps (sameControl.copyColumns ..) (SameControl.refl _)

/-- Columns behind those at the cursor are moved to the left. -/
theorem contentOk_deletion (h : ScreenOk term) {amount : ℤ} (hpos : 0<amount)
    (hfits : term.cursorCol+amount<term.termWidth)
    (hlength : amount<term.rowLength term.cursorRow ∨ 2*amount<term.termWidth) :
    ContentOk term.termWidth term.termHeight (copiedColumns term term.cursorRow
        (term.cursorCol+amount) (term.termWidth-1) (-amount)) ∧
      ContentOk term.termWidth term.termHeight (guacTerminalCopyColumns term term.cursorRow
        (term.cursorCol+amount) (term.termWidth-1) (-amount)) := by
  obtain ⟨hcontent,⟨hwidth,hmax⟩,-,-,⟨hcol0,-⟩,-⟩ := h
  have hsize : term.termWidth≤1024 := hmax
  have hlt : term.rowLength term.cursorRow<2^30 := (hcontent.1.row term.cursorRow).length_lt
  have hwrap : wrap32 (term.termWidth-1 + -amount+1)=term.termWidth-amount := by
    rw [wrap32_of_range (by omega) (by omega)]
    omega
  have hmoves : ∀ n, amount<n → MovesUp n (term.cursorCol+amount) (term.termWidth-1) amount := by
    intro n hn
    have hmono := fit_mono (by omega : 0<n)
      (by omega : term.cursorCol+amount≤term.termWidth-1)
    exact ⟨⟨hpos,hn⟩,by omega⟩
  obtain ⟨hcopied,hcopy,-⟩ := contentOk_copyColumns hcontent hwidth term.cursorRow
    (term.cursorCol+amount) (term.termWidth-1) (-amount) (by omega) (by omega)
    (by rw [hwrap]; exact copies_of_movesUp (hmoves _ (by omega)) (by omega))
    (fun _ _ => copies_of_movesUp (hmoves _ (by omega)) (by omega))
    (fun hstart hend => ⟨by omega,by show _ ≤ (1024+1 : ℤ); omega⟩)
    (by rw [wrap32_of_range (by omega) (by omega)]; omega)
  exact ⟨hcopied,hcopy⟩

/-- What is asked of an insertion or an erasure of characters. -/
theorem csiWithin_insert {statics : HandlerStatics}
    (hc : Char.ofNat c.toNat = '@' ∨ Char.ofNat c.toNat = 'X') (h : CsiWithin term statics c) :
    0<statics.amount ∧ term.cursorCol+statics.amount<2^30 := by
  unfold CsiWithin at h
  rcases hc with hc | hc
  · rw [hc] at h
    exact h
  · rw [hc] at h
    exact h

/-- What is asked of an erasure of the display or of a row. -/
theorem csiWithin_erase {statics : HandlerStatics}
    (hc : Char.ofNat c.toNat = 'J' ∨ Char.ofNat c.toNat = 'K') (h : CsiWithin term statics c)
    (hzero : statics.argv.getD 0 0=0) :
    term.cursorCol ≤ max (term.rowLength term.cursorRow) term.termWidth := by
  unfold CsiWithin at h
  rcases hc with hc | hc
  · rw [hc] at h
    exact h hzero
  · rw [hc] at h
    exact h hzero

/-- What is deleted by the final byte of a sequence is uncut. -/
def DeletesUncut (Uncut : GuacTerminal→ℤ→Prop) (term : GuacTerminal)
    (statics : HandlerStatics) (c : UInt8) : Prop :=
  Char.ofNat c.toNat = 'P' → term.cursorCol+statics.amount<term.termWidth →
    Uncut term statics.amount

theorem screenOf_setFlag (h : ScreenOf Q Plain term) (num : ℤ) (privateMode : UInt8)
    (value : Bool) : ScreenOf Q Plain (setFlag term num privateMode value) := by
  unfold setFlag
  split
  all_goals exact h

theorem ScreenOf.pipeStreamClose (h : ScreenOf Q Plain term) :
    ScreenOf Q Plain (guacTerminalPipeStreamClose term) := by
  have hflushed : ScreenOf Q Plain (guacTerminalPipeStreamFlush term) :=
    iteInduction (fun _ => h) fun _ => h
  exact iteInduction (fun _ => hflushed) fun _ => h

theorem ScreenOf.openPipeStream (h : ScreenOf Q Plain term) (c : UInt8) :
    ScreenOf Q Plain (guacTerminalOpenPipeStream term c) := by
  refine iteInduction (fun _ => ?_) fun _ => iteInduction (fun _ => h) fun _ => h
  have hclosed := h.pipeStreamClose
  exact hclosed

theorem displayOk_assignParsed {display : Display} (h : DisplayOk width height display)
    (index : ℤ) (color : Option Color) :
    DisplayOk width height (display.assignParsed index color) := by
  cases color with
  | none => exact h
  | some color =>
    unfold Display.assignParsed guacTerminalDisplayAssignColor
    dsimp only
    split
    · exact h
    · exact ⟨h.width_eq,h.height_eq,h.bounded⟩

theorem ScreenOf.xtermPalette (h : ScreenOf Q Plain term) (c : UInt8) :
    ScreenOf Q Plain (guacTerminalXtermPalette env term c) := by
  have hread : ScreenOf Q Plain (readPalette env term c) := by
    refine iteInduction (fun _ => iteInduction (fun _ => ?_) fun _ => h) fun _ => ?_
    · exact ⟨⟨⟨h.1.1.1,displayOk_assignParsed h.1.1.2.1 ..,h.1.1.2.2⟩,h.1.2⟩,h.2⟩
    · exact iteInduction (fun _ => h) fun _ => iteInduction (fun _ => h) fun _ => h
  exact iteInduction (fun _ => hread) fun _ => hread

section Kept

variable (hI : ContentInvariant Q Plain Uncut)

include hI

theorem screenOf_echoCodepoint {codepoint : ℤ} (hcontrol : IsControl codepoint)
    (h : ScreenOf Q Plain term) (hline : IsLinefeed codepoint→LinefeedWithin term) :
    ScreenOf Q Plain (echoCodepoint env term codepoint) := by
  unfold IsControl at hcontrol
  unfold echoCodepoint
  refine iteInduction (fun _ => h) fun _ => ?_
  refine iteInduction (fun _ => h.moveCursor ..) fun _ => ?_
  refine iteInduction (fun _ => h.moveCursor ..) fun _ => ?_
  refine iteInduction (fun hfeed => ?_) fun _ => ?_
  · have hfed := screenOf_linefeed hI h (hline hfeed)
    exact iteInduction (fun _ => hfed.moveCursor ..) fun _ => hfed
  refine iteInduction (fun _ => h.moveCursor ..) fun _ => ?_
  refine iteInduction (fun _ => h) fun _ => ?_
  refine iteInduction (fun _ => h) fun _ => ?_
  refine iteInduction (fun _ => h) fun _ => ?_
  refine iteInduction (fun _ => h) fun _ => ?_
  exact iteInduction (fun _ => h) fun _ => by omega

section

variable (h : ScreenOf Q Plain term)

include h

/-- A byte that displays no character is piped or a control. -/
theorem screenOf_echo_of_none (hhandler : term.charHandler=.echo)
    (hnone : shownCodepoint env term c=none) (hline : FeedsLine term c→LinefeedWithin term) :
    ScreenOf Q Plain (guacTerminalEcho env term c) := by
  obtain ⟨pipeBuffer,pipeSent,statics,hargv,heq⟩ := echo_eq env term c
  have hechoed : ScreenOf Q Plain (term.withEcho pipeBuffer pipeSent statics) := h
  rw [heq]
  refine iteInduction (fun _ => hechoed) fun hpiped => ?_
  rw [shownCodepoint] at hnone
  split_ifs at hnone with hshown
  have hcontrol := (hshown.resolve_left (not_not.mpr hhandler)).resolve_left hpiped
  exact screenOf_echoCodepoint hI hcontrol hechoed fun hfeed => hline ⟨hhandler,hpiped,hfeed⟩

theorem screenOf_escape (hwithin : EscapeWithin term c) :
    ScreenOf Q Plain (guacTerminalEscape term c) := by
  unfold guacTerminalEscape
  unfold EscapeWithin at hwithin
  split
  case h_7 => exact h.moveCursor ..
  case h_8 hc =>
    rw [hc] at hwithin
    exact screenOf_linefeed hI h hwithin
  case h_9 hc =>
    rw [hc] at hwithin
    have hrow := moveCursor_row term.cursorRow 0 h.1.2.2.2.1.1 h.1.2.2.2.1.2
    exact screenOf_linefeed hI (h.moveCursor ..) fun hend => hwithin (hrow.symm.trans hend)
  case h_10 =>
    have hset : ScreenOf Q Plain (guacTerminalSetTab term term.cursorCol) :=
      iteInduction (fun _ => h) fun _ => h
    exact hset
  case h_11 hc =>
    rw [hc] at hwithin
    exact screenOf_reverseLinefeed hI h hwithin
  case h_12 => exact screenOf_reset hI h.content h.1.2.1 h.1.2.2.1
  all_goals exact h

/-- Columns of the row of the cursor are cleared. -/
theorem screenOf_clearColumns {startCol endCol : ℤ} (hend : -1≤endCol) (hlast : endCol<2^30-1)
    (hstart : startCol ≤ max (term.rowLength term.cursorRow) (endCol+1))
    (hnonneg : startCol≤endCol→0 ≤ startCol) :
    ScreenOf Q Plain (guacTerminalClearColumns term term.cursorRow startCol endCol) :=
  h.of_content (sameControl.clearColumns ..) (contentOf_clearColumns hI h.content h.1.2.1.1
    term.cursorRow startCol endCol hend hlast hstart hnonneg)

variable {amount : ℤ}

theorem screenOf_insertedCharacters (hpos : 0<amount)
    (hlast : term.cursorCol+amount<2^30) :
    ScreenOf Q Plain (insertedCharacters term amount) := by
  refine h.of_content (sameControl_insertedCharacters ..) ?_
  obtain ⟨hcol0,hcol1⟩ := h.1.2.2.2.2.1
  have hmax : term.termWidth≤1024 := h.1.2.1.2
  unfold insertedCharacters
  rw [wrap32_of_range (by omega) (by omega),wrap32_of_range (by omega) (by omega)]
  refine iteInduction (fun hfits => ⟨(contentOk_insertion h.1 hpos (by omega) hfits.le).2.1,
    hI.insertion h.1 h.2.1 hpos hfits,?_⟩) fun _ => h.content
  rw [(sameControl.copyColumns ..).defaultChar]
  exact h.2.2

theorem screenOf_deletedCharacters (hpos : 0<amount) (hle : amount≤term.termWidth)
    (hinitialized : term.cursorCol+amount<term.termWidth →
      amount<term.rowLength term.cursorRow ∨ 2*amount<term.termWidth)
    (huncut : term.cursorCol+amount<term.termWidth→Uncut term amount) :
    ScreenOf Q Plain (deletedCharacters term amount) := by
  refine h.of_content (sameControl_deletedCharacters ..) ?_
  obtain ⟨hcol0,hcol1⟩ := h.1.2.2.2.2.1
  have hmax : term.termWidth≤1024 := h.1.2.1.2
  unfold deletedCharacters
  rw [wrap32_of_range (by omega) (by omega),wrap32_of_range (by omega) (by omega)]
  refine iteInduction (fun hfits => ⟨(contentOk_deletion h.1 hpos hfits (hinitialized hfits)).2,
    hI.deletion h.1 h.2.1 hpos hfits (hinitialized hfits) (huncut hfits),?_⟩) fun _ => h.content
  rw [(sameControl.copyColumns ..).defaultChar]
  exact h.2.2

/-- Then the columns that are gained are cleared. -/
theorem screenOf_insertCharacters (hpos : 0<amount)
    (hlast : term.cursorCol+amount<2^30) :
    ScreenOf Q Plain (guacTerminalClearColumns (insertedCharacters term amount)
      (insertedCharacters term amount).cursorRow (insertedCharacters term amount).cursorCol
      (wrap32 ((insertedCharacters term amount).cursorCol+amount-1))) := by
  have hinserted := screenOf_insertedCharacters hI h hpos hlast
  have hcol := (sameControl_insertedCharacters term amount).cursor.2
  obtain ⟨hcol0,-⟩ := hinserted.1.2.2.2.2.1
  rw [wrap32_of_range (by omega) (by omega)]
  exact screenOf_clearColumns hI hinserted (by omega) (by omega) (by omega) fun _ => hcol0

/-- Characters of the row may be deleted. -/
theorem screenOf_deleteCharacters (hpos : 0<amount) (hle : amount≤term.termWidth)
    (hinitialized : term.cursorCol+amount<term.termWidth →
      amount<term.rowLength term.cursorRow ∨ 2*amount<term.termWidth)
    (huncut : term.cursorCol+amount<term.termWidth→Uncut term amount) :
    ScreenOf Q Plain (guacTerminalClearColumns (deletedCharacters term amount)
      (deletedCharacters term amount).cursorRow
      (wrap32 ((deletedCharacters term amount).termWidth-amount))
      ((deletedCharacters term amount).termWidth-1)) := by
  have hdeleted := screenOf_deletedCharacters hI h hpos hle hinitialized huncut
  have hwidth := (sameControl_deletedCharacters term amount).termWidth
  have hmax : term.termWidth≤1024 := h.1.2.1.2
  rw [wrap32_of_range (by omega) (by omega)]
  exact screenOf_clearColumns hI hdeleted (by omega) (by omega) (by omega) fun _ => by omega

theorem screenOf_csiFunction (hwithin : CsiWithin term term.statics c)
    (huncut : DeletesUncut Uncut term term.statics c) : ScreenOf Q Plain (csiFunction term c) := by
  have hwidth := h.1.2.1.1
  have hmax : term.termWidth≤1024 := h.1.2.1.2
  obtain ⟨hcol0,hcol1⟩ := h.1.2.2.2.2.1
  unfold csiFunction
  dsimp only
  split
  case h_1 hc =>
    obtain ⟨hpos,hlast⟩ := csiWithin_insert (Or.inl hc) hwithin
    exact screenOf_insertCharacters hI h hpos hlast
  case h_14 hc =>
    refine iteInduction (fun hzero => ?_) fun _ => ?_
    · exact screenOf_clearRange hI h _ _ _ _ (by omega) (csiWithin_erase (Or.inl hc) hwithin hzero)
    refine iteInduction (fun _ => ?_) fun _ => ?_
    · exact screenOf_clearRange hI h _ _ _ _ hcol0 (le_max_of_le_right hwidth.le)
    refine iteInduction (fun _ => ?_) fun _ => h
    exact screenOf_clearRange hI h _ _ _ _ (by omega) (le_max_of_le_right hwidth.le)
  case h_15 hc =>
    refine iteInduction (fun hzero => ?_) fun _ => ?_
    · have hstart := csiWithin_erase (Or.inr hc) hwithin hzero
      exact screenOf_clearColumns hI h (by omega) (by omega) (by omega) fun _ => hcol0
    refine iteInduction (fun _ => ?_) fun _ => ?_
    · exact screenOf_clearColumns hI h (by omega) (by omega) (by omega) fun _ => le_rfl
    refine iteInduction (fun _ => ?_) fun _ => h
    exact screenOf_clearColumns hI h (by omega) (by omega) (by omega) fun _ => le_rfl
  case h_16 hc =>
    unfold CsiWithin at hwithin
    rw [hc] at hwithin
    exact screenOf_scrollDown hI h hwithin
  case h_17 hc =>
    unfold CsiWithin at hwithin
    rw [hc] at hwithin
    exact screenOf_scrollUp hI h hwithin
  case h_18 hc =>
    unfold CsiWithin at hwithin
    rw [hc] at hwithin
    obtain ⟨⟨hpos,hle⟩,hinitialized⟩ := hwithin
    exact screenOf_deleteCharacters hI h hpos hle hinitialized (huncut hc)
  case h_19 hc =>
    obtain ⟨hpos,hlast⟩ := csiWithin_insert (Or.inr hc) hwithin
    rw [HandlerStatics.amount] at hpos hlast
    rw [wrap32_of_range (by omega) (by omega)]
    exact screenOf_clearColumns hI h (by omega) (by omega) (by omega) fun _ => hcol0
  case h_21 =>
    refine iteInduction (fun _ => ?_) fun _ => iteInduction (fun _ => h) fun _ => h
    exact iteInduction (fun _ => h) fun _ => h
  case h_22 => exact screenOf_setFlag h ..
  case h_23 => exact screenOf_setFlag h ..
  case h_24 => exact h
  case h_25 => exact iteInduction (fun _ => h) fun _ => h
  case h_26 => exact h
  case h_28 => exact h
  all_goals exact h.moveCursor ..

theorem screenOf_csi (hwithin : CsiWithin term term.statics.finishParameter c)
    (huncut : DeletesUncut Uncut { term with statics := term.statics.finishParameter }
      term.statics.finishParameter c) : ScreenOf Q Plain (guacTerminalCsi term c) := by
  unfold guacTerminalCsi
  refine iteInduction (fun _ => iteInduction (fun _ => h) fun _ => h) fun _ => ?_
  refine iteInduction (fun _ => ?_) fun _ => iteInduction (fun _ => h) fun _ => h
  have hfinished : ScreenOf Q Plain { term with statics := term.statics.finishParameter } := h
  have hfunction := screenOf_csiFunction (c := c) hI hfinished hwithin huncut
  exact iteInduction (fun _ => hfunction) fun _ => hfunction

/-- The screen is filled with characters of one column. -/
theorem screenOf_ctrlFunc (c : UInt8) (hwidth : c=0x38 → env.uninitializedWidth=1) :
    ScreenOf Q Plain (guacTerminalCtrlFunc env term c) := by
  have hmax : term.termWidth≤1024 := h.1.2.1.2
  have hpos := h.1.2.1.1
  have hfilled : ScreenOf Q Plain (if c=0x38 then
      forTo (fun row t => guacTerminalSetColumns t row 0 (term.termWidth-1)
          ⟨0x45,term.currentAttributes,env.uninitializedWidth⟩)
        0 (term.termHeight-1) term
    else term) := by
    refine iteInduction (fun hc => h.of_content
      (sameControl.forTo (fun _ _ => sameControl.setColumns ..) ..) ?_) fun _ => h
    refine contentOf_forTo (fun row t ht => ?_) h.content _ _
    exact contentOf_setColumns hI ht hpos row 0 (term.termWidth-1) (by omega) (by omega)
      (hwidth hc) (hI.letter ..) (by omega) fun _ => le_rfl
  exact hfilled

/-- A byte that is not echoed, or whose echo is a proper screen. -/
theorem screenOf_handleChar
    (hecho : term.charHandler=.echo→ScreenOf Q Plain (guacTerminalEcho env term c))
    (hescape : term.charHandler=.escape→EscapeWithin term c)
    (hcsi : term.charHandler=.csi→CsiWithin term term.statics.finishParameter c ∧
      DeletesUncut Uncut { term with statics := term.statics.finishParameter }
        term.statics.finishParameter c)
    (hctrl : term.charHandler=.ctrlFunc → c=0x38 → env.uninitializedWidth=1) :
    ScreenOf Q Plain (handleChar env term c) := by
  unfold handleChar
  cases hhandler : term.charHandler with
  | echo => exact hecho hhandler
  | escape => exact screenOf_escape hI h (hescape hhandler)
  | csi => exact screenOf_csi hI h (hcsi hhandler).1 (hcsi hhandler).2
  | ctrlFunc => exact screenOf_ctrlFunc hI h c (hctrl hhandler)
  | osc => exact iteInduction (fun _ => h) fun _ => iteInduction (fun _ => h) fun _ => h
  | download => exact iteInduction (fun _ => h) fun _ => h
  | setDirectory => exact iteInduction (fun _ => h) fun _ => h
  | openPipeStream => exact h.openPipeStream c
  | closePipeStream => exact iteInduction (fun _ => h.pipeStreamClose) fun _ => h
  | setScrollback => exact iteInduction (fun _ => h) fun _ => h
  | windowTitle => exact iteInduction (fun _ => h) fun _ => h
  | xtermPalette => exact h.xtermPalette c
  | g0Charset => exact h
  | g1Charset => exact h
  | apc => exact h

end

end Kept

/-- What a byte does to contents lies within them. -/
def WriteWithin (env : TerminalEnv) (term : GuacTerminal) (c : UInt8) : Prop :=
  (∀ codepoint∈shownCodepoint env term c, DisplaysWithin env term codepoint) ∧
    (FeedsLine term c→LinefeedWithin term) ∧
    (term.charHandler=.escape→EscapeWithin term c) ∧
    (term.charHandler=.csi→CsiWithin term term.statics.finishParameter c) ∧
    (term.charHandler=.ctrlFunc → c=0x38 → env.uninitializedWidth=1)

/-- A byte may be echoed if its character may be displayed. -/
theorem screenOk_echo (hwcwidth : ∀ codepoint, env.wcwidth codepoint≤2) (h : ScreenOk term)
    (hhandler : term.charHandler=.echo)
    (hshown : ∀ codepoint∈shownCodepoint env term c, DisplaysWithin env term codepoint)
    (hline : FeedsLine term c→LinefeedWithin term) : ScreenOk (guacTerminalEcho env term c) := by
  cases hcodepoint : shownCodepoint env term c with
  | none =>
    exact (screenOf_echo_of_none contentInvariant_true ⟨h,trivial,trivial⟩ hhandler hcodepoint
      hline).1
  | some codepoint =>
    obtain ⟨-,pipeBuffer,pipeSent,statics,hargv,heq⟩ := echo_of_some hcodepoint
    have hechoed : ScreenOk (term.withEcho pipeBuffer pipeSent statics) := h
    have hwithin : DisplaysWithin env (term.withEcho pipeBuffer pipeSent statics) codepoint :=
      hshown codepoint hcodepoint
    rw [heq]
    exact screenOk_displayCharacter hwcwidth hechoed hwithin

theorem screenOk_handleChar (hwcwidth : ∀ codepoint, env.wcwidth codepoint≤2) (h : ScreenOk term)
    (hwithin : WriteWithin env term c) : ScreenOk (handleChar env term c) := by
  obtain ⟨hshown,hline,hescape,hcsi,hctrl⟩ := hwithin
  refine (screenOf_handleChar contentInvariant_true ⟨h,trivial,trivial⟩ (fun hhandler => ?_)
    hescape (fun hhandler => ⟨hcsi hhandler,fun _ _ => trivial⟩) hctrl).1
  exact ⟨screenOk_echo hwcwidth h hhandler hshown hline,trivial,trivial⟩

/-! ## Runs -/

/-- What is done to a terminal lies within its contents, it keeps columns and rows,
and what is scrolled back does not overflow. -/
def StepBounded (env : TerminalEnv) (op : TerminalOp) (term : GuacTerminal) : Prop :=
  match op with
  | .write c uninitializedWidth =>
    WriteWithin { env with uninitializedWidth := uninitializedWidth } term c
  | .resize _ width height => 0<term.display.columnsOf width ∧ 0<term.display.rowsOf height
  | .scrollDisplayDown _ => True
  | .scrollDisplayUp scrollAmount => IsInt (term.scrollOffset+scrollAmount)
  | .flush => True

/-- Whatever else is kept by what is not written is kept by a step. -/
theorem screenOf_terminalStep (hI : ContentInvariant Q Plain Uncut) {op : TerminalOp}
    {term' : GuacTerminal} (h : ScreenOf Q Plain term) (hbounded : StepBounded env op term)
    (hwrite : ∀ c uninitializedWidth, op=.write c uninitializedWidth →
      ScreenOf Q Plain (handleChar { env with uninitializedWidth := uninitializedWidth } term c))
    (hstep : terminalStep env op term=some term') : ScreenOf Q Plain term' := by
  cases op with
  | write c uninitializedWidth =>
    cases hstep
    exact hwrite c uninitializedWidth rfl
  | resize memory width height =>
    cases hstep
    exact screenOf_resize hI memory h hbounded.1 hbounded.2
  | scrollDisplayDown scrollAmount =>
    cases hstep
    exact screenOf_scrollDisplayDown hI h scrollAmount
  | scrollDisplayUp scrollAmount =>
    cases hstep
    exact screenOf_scrollDisplayUp hI h hbounded
  | flush =>
    cases hstep
    exact screenOf_flush hI h

/-- A bounded step keeps the screen in order. -/
theorem screenOk_terminalStep (hwcwidth : ∀ codepoint, env.wcwidth codepoint≤2)
    {op : TerminalOp} {term' : GuacTerminal} (h : ScreenOk term)
    (hbounded : StepBounded env op term) (hstep : terminalStep env op term=some term') :
    ScreenOk term' := by
  refine (screenOf_terminalStep contentInvariant_true ⟨h,trivial,trivial⟩ hbounded ?_ hstep).1
  rintro c uninitializedWidth rfl
  exact ⟨screenOk_handleChar hwcwidth h hbounded,trivial,trivial⟩

/-- The rows of a new scrollback have no cells. -/
theorem bufferOk_alloc {rows : ℤ} (hrows : 0<rows) {character : TerminalChar}
    (hcharacter : CellOk character) (memory : ℤ→ℤ→TerminalChar) :
    BufferOk (guacTerminalBufferAlloc rows character memory) where
  available_pos := hrows
  rows _ := ⟨le_rfl,(by decide : (0 : ℤ)≤256),(by decide : (0 : ℤ)<2^30),le_rfl,
    fun _ h0 h1 => absurd h1 (not_lt.mpr h0)⟩
  default := hcharacter
  bounded := rfl

/-- A new terminal has its contents in order. -/
theorem contentOk_alloc (memory : Memory) (settings : TerminalSettings) (width height : ℤ) :
    ContentOk (guacTerminalAlloc memory settings width height).termWidth
      (guacTerminalAlloc memory settings width height).termHeight
      (guacTerminalAlloc memory settings width height) := by
  have hrows : 0 < max settings.maxScrollback terminalMaxSize := lt_max_of_lt_right (by decide)
  let character : TerminalChar :=
    ⟨0,⟨false,false,false,false,false,settings.foreground,settings.background⟩,1⟩
  have hcharacter : CellOk character := ⟨Int.one_nonneg,fun _ => le_rfl⟩
  exact ⟨bufferOk_alloc hrows hcharacter memory.characters,⟨rfl,rfl,rfl⟩,
    ⟨le_rfl,(by decide : (0 : ℤ)≤1024+1)⟩,rfl⟩

/-- A new terminal has its screen in order. -/
theorem screenOf_create (hI : ContentInvariant Q Plain Uncut) (memory : Memory)
    (settings : TerminalSettings) {width height : ℤ}
    (hwidth : 0<(guacTerminalAlloc memory settings width height).termWidth)
    (hheight : 0<(guacTerminalAlloc memory settings width height).termHeight)
    (hkept : Q (guacTerminalAlloc memory settings width height).buffer)
    (hplain : Plain (guacTerminalAlloc memory settings width height).defaultChar) :
    ScreenOf Q Plain (guacTerminalCreate memory settings width height) :=
  screenOf_reset hI ⟨contentOk_alloc ..,hkept,hplain⟩ ⟨hwidth,columnsOf_le ..⟩
    ⟨hheight,rowsOf_le ..⟩

/-- Every access to a terminal is within its storage in all states of a run whose
steps are all of the kind. -/
theorem terminal_bounded (env : TerminalEnv) (hwcwidth : ∀ codepoint, env.wcwidth codepoint≤2)
    (memory : Memory) (settings : TerminalSettings) (width height : ℤ) (ops : List TerminalOp)
    (hwidth : 0<(guacTerminalAlloc memory settings width height).termWidth)
    (hheight : 0<(guacTerminalAlloc memory settings width height).termHeight)
    (halong : Along (terminalStep env) (StepBounded env) ops
      (guacTerminalCreate memory settings width height)) :
    ∀ made, made <+: ops→∀ visited, run (terminalStep env) made
      (guacTerminalCreate memory settings width height)=some visited →
        visited.buffer.bounded=true ∧ visited.display.bounded=true := by
  intro made hmade visited hrun
  have hvisited := visits_of_along (screenOk_terminalStep hwcwidth)
    (screenOf_create contentInvariant_true memory settings hwidth hheight trivial trivial).1
    halong hmade hrun
  exact ⟨hvisited.1.1.bounded,hvisited.1.2.1.bounded⟩

/-- A letter of one column may be written to a row with space for it. -/
theorem writeWithin_letter (hone : ∀ codepoint, env.wcwidth codepoint=1)
    (hcol : term.cursorCol<term.termWidth) (hspace : 1<term.termWidth) :
    WriteWithin env term 0x41 := by
  refine ⟨fun codepoint _ => ⟨fun hwraps => absurd hwraps (not_le.mpr hcol),fun _ => hspace,
    fun houtside => ?_⟩,fun hfeeds => ?_,fun _ => trivial,fun _ => trivial,
    fun _ h => absurd h (by decide)⟩
  · have hwide := houtside.1.1
    rw [hone] at hwide
    exact absurd hwide (by decide)
  · have hline := hfeeds.2.2
    rw [decoded_letter] at hline
    exact absurd hline (by decide)

theorem terminal_bounded_console :
    0<(guacTerminalAlloc consoleMemory consoleSettings 656 384).termWidth ∧
      ∀ made, made <+: resizedConsole→∀ visited, run (terminalStep consoleEnv) made
        (guacTerminalCreate consoleMemory consoleSettings 656 384)=some visited →
          visited.buffer.bounded=true ∧ visited.display.bounded=true := by
  obtain ⟨hcolumns,hrows,-⟩ := console_sizes
  obtain ⟨hcol,hwidth⟩ := console_resized
  exact ⟨by decide,terminal_bounded consoleEnv (fun _ => one_le_two) consoleMemory consoleSettings
    656 384 resizedConsole (by decide) (by decide)
    ⟨⟨by rw [hcolumns]; decide,by rw [hrows]; decide⟩,
      writeWithin_letter (fun _ => rfl) (by omega) (by omega),trivial,trivial⟩⟩

/-! ## Deletions of more characters than a row has -/

theorem unbounded_getRow {buffer : Buffer} (h : buffer.bounded=false) (row width : ℤ) :
    (guacTerminalBufferGetRow buffer row width).bounded=false := by
  simp [guacTerminalBufferGetRow,Buffer.check,Buffer.setRow,h]

theorem unbounded_bufferSetColumns {buffer : Buffer} (h : buffer.bounded=false)
    (row startColumn endColumn : ℤ) (character : TerminalChar) :
    (guacTerminalBufferSetColumns buffer row startColumn endColumn character).bounded=false := by
  unfold guacTerminalBufferSetColumns
  split
  · exact h
  · simp [Buffer.check,Buffer.setRow,unbounded_getRow h]

theorem setColumnsUnbroken_buffer (term : GuacTerminal) (row startColumn endColumn : ℤ)
    (character : TerminalChar) :
    (setColumnsUnbroken term row startColumn endColumn character).buffer=
      guacTerminalBufferSetColumns term.buffer row startColumn endColumn character := by
  unfold setColumnsUnbroken guacTerminalSelectTouch
  split
  · rfl
  · rfl

/-- New characters do not bring an access within its row. -/
theorem keepsUnbounded :
    KeptByCells fun t t' => t.buffer.bounded=false→t'.buffer.bounded=false where
  refl _ h := h
  trans h h' hunbounded := h' (h hunbounded)
  getRow _ row width h := unbounded_getRow h row width
  select _ _ _ h := h
  setCells _ _ _ _ _ _ h := unbounded_bufferSetColumns h ..

/-- What is written to columns from before the first one is outside of the row. -/
theorem unbounded_setColumns (term : GuacTerminal) (row : ℤ) {startColumn endColumn : ℤ}
    (hstart : startColumn<0) (hend : startColumn≤endColumn) {character : TerminalChar}
    (hc : character.width=1) :
    (guacTerminalSetColumns term row startColumn endColumn character).buffer.bounded=false := by
  have hset : (setColumnsUnbroken term row startColumn endColumn
      character).buffer.bounded=false := by
    rw [setColumnsUnbroken_buffer,guacTerminalBufferSetColumns,if_neg (by omega)]
    dsimp only [Buffer.check]
    rw [hc,lastWritten_one,Bool.and_eq_false_iff,decide_eq_false_iff_not]
    exact Or.inr fun hwithin => absurd (hwithin.2 hend).1 (by omega)
  have hwritten : (writeCursor (setColumnsUnbroken term row startColumn endColumn character) row
      startColumn endColumn character).buffer.bounded=false := by
    unfold writeCursor
    split
    · exact keepsUnbounded.setColumnsUnbroken _ _ _ _ _ hset
    · exact hset
  rw [setColumns_eq]
  exact keepsUnbounded.forceBreak _ _ _ (keepsUnbounded.forceBreak _ _ _ hwritten)

/-- A deletion of more characters than a row has clears columns before it. -/
theorem unbounded_deletion (hc : Char.ofNat c.toNat = 'P') (hwidth : 0<term.termWidth)
    (hmore : term.termWidth<term.statics.amount) (hamount : term.statics.amount≤2^31) :
    (csiFunction term c).buffer.bounded=false := by
  have hshown : ∀ shown : GuacTerminal, shown.termWidth=term.termWidth →
      (guacTerminalClearColumns shown shown.cursorRow (wrap32 (shown.termWidth-term.statics.amount))
        (shown.termWidth-1)).buffer.bounded=false := by
    intro shown hshown
    rw [hshown,wrap32_of_range (by omega) (by omega)]
    exact unbounded_setColumns shown shown.cursorRow (by omega) (by omega) rfl
  have hdeleted : csiFunction term c=guacTerminalClearColumns
      (deletedCharacters term term.statics.amount)
      (deletedCharacters term term.statics.amount).cursorRow
      (wrap32 ((deletedCharacters term term.statics.amount).termWidth-term.statics.amount))
      ((deletedCharacters term term.statics.amount).termWidth-1) := by
    rw [csiFunction,hc]
    rfl
  rw [hdeleted]
  exact hshown _ (sameControl_deletedCharacters ..).termWidth

/-- The last byte of the sequence deletes too much. -/
theorem handleChar_deletion (hhandler : term.charHandler=.csi) (hwidth : 0<term.termWidth)
    (hmore : term.termWidth<term.statics.finishParameter.amount)
    (hamount : term.statics.finishParameter.amount≤2^31) :
    (handleChar env term 0x50).buffer.bounded=false := by
  have hcsi : handleChar env term 0x50=guacTerminalCsi term 0x50 := by rw [handleChar,hhandler]
  have hfinished : GuacTerminal.termWidth { term with statics := term.statics.finishParameter }=
      term.termWidth := rfl
  have hdeleted := unbounded_deletion (c := 0x50) (by decide) (hwidth.trans_eq hfinished.symm)
    (hfinished.trans_lt hmore) hamount
  rw [hcsi]
  exact hdeleted

/-- ESC [ 9 8 P -/
def deletion : List TerminalOp :=
  [.write 0x1B 1,.write 0x5B 1,.write 0x39 1,.write 0x38 1,.write 0x50 1]

/-- A terminal with 80 columns that is not in a sequence does not have 98 characters
to delete. -/
theorem run_deletion (hhandler : term.charHandler=.echo)
    (hstatics : term.statics=HandlerStatics.initial) (hwidth : term.termWidth=80) :
    ∃ visited, run (terminalStep consoleEnv) deletion term=some visited ∧
      visited.buffer.bounded=false := by
  refine ⟨handleChar consoleEnv (handleChar consoleEnv (handleChar consoleEnv (handleChar consoleEnv
    (handleChar consoleEnv term 0x1B) 0x5B) 0x39) 0x38) 0x50,rfl,?_⟩
  have hlength : ([] : List UInt8).length<255 := by decide
  rw [handleChar_escape hhandler,hstatics,handleChar_bracket rfl,
    handleChar_digit (c := 0x39) rfl (by decide) hlength,
    handleChar_digit (c := 0x38) rfl (by decide)
      (by decide : [(0x39 : UInt8)].length<255)]
  have hamount : HandlerStatics.amount (HandlerStatics.finishParameter { HandlerStatics.initial with
      codepoint := 0x1B, argvBuffer := [0x39,0x38] })=98 := by decide
  have hpos : 0<term.termWidth := lt_of_lt_of_eq (by decide) hwidth.symm
  have hmore : term.termWidth<98 := hwidth.trans_lt (by decide)
  exact handleChar_deletion rfl hpos (hmore.trans_eq hamount.symm) (hamount.trans_le (by decide))

/-- A terminal may access cells before those of a row. -/
theorem terminal_bounded_deletion : ∃ visited, run (terminalStep consoleEnv) deletion
        (guacTerminalCreate consoleMemory consoleSettings 656 384)=some visited ∧
      visited.buffer.bounded=false := by
  obtain ⟨base,hsame,⟨hwidth,-⟩,-,-,⟨hhandler,-⟩,-,hstatics⟩ :=
    reset_eq (guacTerminalAlloc consoleMemory consoleSettings 656 384)
  exact run_deletion (hsame.charHandler.trans hhandler) (hsame.statics.trans hstatics)
    (hsame.termWidth.trans (hwidth.trans (by decide)))

end GuacServer.Terminal
