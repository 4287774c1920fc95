import GuacServer.TerminalHandlers

/-!
# What operations on contents leave alone

The operations on columns and rows change the scrollback, the display, the
selection, the rendered cursor and the scrollbar, and nothing else of a
terminal. A greater height does this after it has shifted rows into the display.
-/

namespace GuacServer.Terminal

open DecimalNumerals

/-- The terminal with the contents of another. -/
def GuacTerminal.withContents (term contents : GuacTerminal) : GuacTerminal :=
  { term with
    buffer := contents.buffer
    display := contents.display
    visibleCursorRow := contents.visibleCursorRow
    visibleCursorCol := contents.visibleCursorCol
    textSelected := contents.textSelected
    selectionCommitted := contents.selectionCommitted
    selectionStartRow := contents.selectionStartRow
    selectionEndRow := contents.selectionEndRow
    scrollbarMin := contents.scrollbarMin
    scrollbarMax := contents.scrollbarMax
    scrollbarValue := contents.scrollbarValue }

/-- Two terminals have the same but for their contents. -/
def SameControl (term term' : GuacTerminal) : Prop := term' = term.withContents term'

theorem SameControl.refl (term : GuacTerminal) : SameControl term term := rfl

theorem SameControl.trans {term term' term'' : GuacTerminal} (h : SameControl term term')
    (h' : SameControl term' term'') : SameControl term term'' := by
  rw [SameControl] at h h' ⊢
  rw [h',h]
  rfl

section

variable {term term' : GuacTerminal}

section

variable (h : SameControl term term')

include h

theorem SameControl.termWidth : term'.termWidth=term.termWidth := by
  rw [h]
  rfl

theorem SameControl.termHeight : term'.termHeight=term.termHeight := by
  rw [h]
  rfl

theorem SameControl.cursor : term'.cursorRow=term.cursorRow ∧ term'.cursorCol=term.cursorCol := by
  rw [h]
  exact ⟨rfl,rfl⟩

theorem SameControl.scrollOffset : term'.scrollOffset=term.scrollOffset := by
  rw [h]
  rfl

theorem SameControl.scrollStart : term'.scrollStart=term.scrollStart := by
  rw [h]
  rfl

theorem SameControl.insertMode : term'.insertMode=term.insertMode := by
  rw [h]
  rfl

theorem SameControl.charHandler : term'.charHandler=term.charHandler := by
  rw [h]
  rfl

theorem SameControl.currentAttributes : term'.currentAttributes=term.currentAttributes := by
  rw [h]
  rfl

theorem SameControl.statics : term'.statics=term.statics := by
  rw [h]
  rfl

end

end

/-- What both branches keep a conditional keeps. -/
theorem ite_keeps {α : Type} {P : α→Prop} {condition : Prop} [Decidable condition] {a b : α}
    (ha : P a) (hb : P b) : P (if condition then a else b) :=
  iteInduction (fun _ => ha) fun _ => hb

/-- What each turn of a loop keeps the loop keeps. -/
theorem forRange_keeps {α : Type} {P : α→Prop} {body : ℤ→α→α} (count : ℕ) (i : ℤ)
    (hbody : ∀ j a, i≤j → j < i+count→P a→P (body j a)) {a : α} (h : P a) :
    P (forRange body count i a) := by
  induction count generalizing i a with
  | zero => exact h
  | succ count ih =>
    refine ih (i+1) (fun j a hfirst hlast => hbody j a (by omega) (by push_cast; omega)) ?_
    exact hbody i a le_rfl (by push_cast; omega) h

theorem forTo_keeps {α : Type} {P : α→Prop} {body : ℤ→α→α} {first last : ℤ}
    (hbody : ∀ i a, first ≤ i → i≤last→P a→P (body i a)) {a : α} (h : P a) :
    P (forTo body first last a) :=
  forRange_keeps _ first (fun i a hfirst hlast => hbody i a hfirst (by omega)) h

/-- A relation of terminals that rows which are looked up and the selection keep. -/
structure KeptByRows (R : GuacTerminal→GuacTerminal→Prop) : Prop where
  refl : ∀ term, R term term
  trans : ∀ {term term' term''}, R term term'→R term' term''→R term term''
  getRow : ∀ term row width,
    R term { term with buffer := guacTerminalBufferGetRow term.buffer row width }
  select : ∀ term textSelected selectionCommitted,
    R term { term with textSelected := textSelected, selectionCommitted := selectionCommitted }

/-- A relation that rows which are drawn again and the rendered cursor keep. -/
structure KeptByRedraw (R : GuacTerminal→GuacTerminal→Prop) : Prop extends KeptByRows R where
  display : ∀ term display, R term { term with display := display }
  cursor : ∀ term row col, R term { term with visibleCursorRow := row, visibleCursorCol := col }

/-- A relation that new characters in columns keep. -/
structure KeptByCells (R : GuacTerminal→GuacTerminal→Prop) : Prop extends KeptByRows R where
  setCells : ∀ term displayRow row startColumn endColumn character, R term { term with
    display := guacTerminalDisplaySetColumns term.display displayRow startColumn endColumn character
    buffer := guacTerminalBufferSetColumns term.buffer row startColumn endColumn character }

/-- A relation that all new contents of rows keep. -/
structure KeptByContents (R : GuacTerminal→GuacTerminal→Prop) : Prop
    extends KeptByRedraw R, KeptByCells R where
  copyCells : ∀ term display row startColumn endColumn offset, R term { term with
    display := display
    buffer := guacTerminalBufferCopyColumns term.buffer row startColumn endColumn offset }
  moveRows : ∀ term display startRow endRow offset, R term { term with
    display := display
    buffer := guacTerminalBufferCopyRows term.buffer startRow endRow offset }

section Kept

variable {R : GuacTerminal→GuacTerminal→Prop}

namespace KeptByRows

variable (hR : KeptByRows R)

include hR

/-- A loop keeps what its turns keep. -/
theorem forTo {body : ℤ→GuacTerminal→GuacTerminal} (hbody : ∀ i t, R t (body i t))
    (first last : ℤ) (term : GuacTerminal) : R term (forTo body first last term) :=
  forTo_keeps (fun i _ _ _ h => hR.trans h (hbody i _)) (hR.refl term)

theorem selectTouch (term : GuacTerminal) (startRow startColumn endRow endColumn : ℤ) :
    R term (guacTerminalSelectTouch term startRow startColumn endRow endColumn) :=
  ite_keeps (hR.select term false false) (hR.refl term)

end KeptByRows

namespace KeptByRedraw

variable (hR : KeptByRedraw R)

include hR

theorem drawRow (row startCol endCol lastCol : ℤ) (bufferRow : BufferRow) (term : GuacTerminal) :
    R term (drawRow row startCol endCol lastCol bufferRow term) :=
  hR.display term _

theorem drawScrollback (startRow endRow destRow : ℤ) (term : GuacTerminal) :
    R term (drawScrollback startRow endRow destRow term) :=
  hR.forTo (fun row t => hR.trans (hR.getRow t row 0) (hR.drawRow ..)) ..

theorem redrawRect (startRow startCol endRow endCol : ℤ) (term : GuacTerminal) :
    R term (redrawRect startRow startCol endRow endCol term) :=
  hR.forTo (fun row t => hR.trans (hR.getRow t (row-t.scrollOffset) 0) (hR.drawRow ..)) ..

end KeptByRedraw

namespace KeptByCells

variable (hR : KeptByCells R)

include hR

section

variable (term : GuacTerminal)

theorem setColumnsUnbroken (row startColumn endColumn : ℤ)
    (character : TerminalChar) :
    R term (setColumnsUnbroken term row startColumn endColumn character) :=
  hR.trans (hR.setCells ..) (hR.selectTouch _ row startColumn row endColumn)

theorem clearBroken (row startColumn endColumn : ℤ) :
    R term (clearBroken term row startColumn endColumn) :=
  ite_keeps (hR.setColumnsUnbroken ..) (hR.refl term)

theorem forceBreak (row edge : ℤ) : R term (forceBreak term row edge) := by
  refine hR.trans (hR.trans (hR.getRow term row 0) ?_) (ite_keeps (hR.clearBroken ..) (hR.refl _))
  exact ite_keeps (hR.clearBroken ..) (hR.refl _)

theorem setColumns (row startColumn endColumn : ℤ)
    (character : TerminalChar) :
    R term (guacTerminalSetColumns term row startColumn endColumn character) := by
  have hset := hR.setColumnsUnbroken term row startColumn endColumn character
  refine hR.trans (hR.trans (hR.trans hset ?_) (hR.forceBreak ..)) (hR.forceBreak ..)
  exact ite_keeps (hR.setColumnsUnbroken ..) (hR.refl _)

theorem set (row col codepoint columns : ℤ) :
    R term (guacTerminalSet term row col codepoint columns) :=
  ite_keeps (hR.refl term) (hR.setColumns ..)

theorem clearColumns (row startCol endCol : ℤ) :
    R term (guacTerminalClearColumns term row startCol endCol) :=
  hR.setColumns ..

end

/-- A part of a range is cleared, or left for the loop over entire rows. -/
theorem clearPart {condition : Prop} [Decidable condition] (term : GuacTerminal)
    (row startCol endCol next rest : ℤ) :
    R term (if condition then (guacTerminalClearColumns term row startCol endCol,next)
      else (term,rest)).1 := by
  split
  · exact hR.clearColumns ..
  · exact hR.refl term

theorem clearRange (term : GuacTerminal) (startRow startCol endRow endCol : ℤ) :
    R term (guacTerminalClearRange term startRow startCol endRow endCol) :=
  hR.trans (hR.trans (hR.clearPart ..) (hR.clearPart ..))
    (hR.forTo (fun _ _ => hR.clearColumns ..) ..)

end KeptByCells

namespace KeptByContents

variable (hR : KeptByContents R) (term : GuacTerminal)

include hR

theorem copyColumns (row startColumn endColumn offset : ℤ) :
    R term (guacTerminalCopyColumns term row startColumn endColumn offset) := by
  have hcopy := hR.trans (hR.copyCells term (guacTerminalDisplayCopyColumns term.display
    (wrap32 (row+term.scrollOffset)) startColumn endColumn offset) row startColumn endColumn
    offset) (hR.selectTouch _ row startColumn row endColumn)
  refine hR.trans (hR.trans (hR.trans hcopy ?_) (hR.forceBreak ..)) (hR.forceBreak ..)
  exact ite_keeps (hR.cursor ..) (hR.refl _)

theorem copyRows (startRow endRow offset : ℤ) :
    R term (guacTerminalCopyRows term startRow endRow offset) := by
  have hcopy := hR.trans (hR.moveRows term (guacTerminalDisplayCopyRows term.display
    (wrap32 (startRow+term.scrollOffset)) (wrap32 (endRow+term.scrollOffset)) offset) startRow
    endRow offset) (hR.selectTouch _ startRow 0 endRow term.termWidth)
  exact hR.trans hcopy (ite_keeps (hR.cursor ..) (hR.refl _))

theorem scrollDown (startRow endRow amount : ℤ) :
    R term (guacTerminalScrollDown term startRow endRow amount) :=
  hR.trans (hR.copyRows ..) (hR.clearRange ..)

end KeptByContents

end Kept

/-- The operations on columns and rows change only contents. -/
theorem sameControl : KeptByContents SameControl where
  refl := SameControl.refl
  trans h h' := h.trans h'
  display _ _ := rfl
  getRow _ _ _ := rfl
  select _ _ _ := rfl
  cursor _ _ _ := rfl
  setCells _ _ _ _ _ _ := rfl
  copyCells _ _ _ _ _ _ := rfl
  moveRows _ _ _ _ _ := rfl

/-- New contents of scrollback and display are contents. -/
theorem sameControl_draw (term : GuacTerminal) (display : Display) (buffer : Buffer) :
    SameControl term { term with display := display, buffer := buffer } := rfl

section

variable (term : GuacTerminal)

theorem sameControl_scrollbarSetBounds (min max : ℤ) :
    SameControl term (guacTerminalScrollbarSetBounds term min max) := rfl

/-- What guac_terminal_scroll_up does before it clears the rows that are gained. -/
def scrolledUp (startRow endRow amount : ℤ) : GuacTerminal :=
  if startRow=0 ∧ endRow=term.termHeight-1 then
    let term := { term with
      display := guacTerminalDisplayCopyRows term.display (wrap32 (startRow+amount)) endRow
        (wrap32 (-amount))
      buffer := advanceBuffer term.buffer amount }
    let term := guacTerminalScrollbarSetBounds term (-guacTerminalAvailableScroll term) 0
    let term :=
      if term.visibleCursorRow≥startRow ∧ term.visibleCursorRow≤endRow then
        { term with visibleCursorRow := term.visibleCursorRow-amount }
      else term
    if term.textSelected then
      { term with
        selectionStartRow := term.selectionStartRow-amount
        selectionEndRow := term.selectionEndRow-amount }
    else term
  else
    guacTerminalCopyRows term (wrap32 (startRow+amount)) endRow (wrap32 (-amount))

theorem scrollUp_eq (startRow endRow amount : ℤ) :
    guacTerminalScrollUp term startRow endRow amount=
      guacTerminalClearRange (scrolledUp term startRow endRow amount)
        (wrap32 (endRow-amount+1)) 0 endRow
        ((scrolledUp term startRow endRow amount).termWidth-1) := rfl

theorem sameControl_scrolledUp (startRow endRow amount : ℤ) :
    SameControl term (scrolledUp term startRow endRow amount) := by
  refine ite_keeps ?_ (sameControl.copyRows ..)
  have hadvance := (sameControl_draw term
    (guacTerminalDisplayCopyRows term.display (wrap32 (startRow+amount)) endRow
      (wrap32 (-amount))) (advanceBuffer term.buffer amount)).trans
    (sameControl_scrollbarSetBounds _ (-guacTerminalAvailableScroll { term with
      display := guacTerminalDisplayCopyRows term.display (wrap32 (startRow+amount)) endRow
        (wrap32 (-amount))
      buffer := advanceBuffer term.buffer amount }) 0)
  refine (hadvance.trans ?_).trans (ite_keeps rfl (SameControl.refl _))
  exact ite_keeps rfl (SameControl.refl _)

theorem sameControl_scrollUp (startRow endRow amount : ℤ) :
    SameControl term (guacTerminalScrollUp term startRow endRow amount) := by
  rw [scrollUp_eq]
  exact (sameControl_scrolledUp ..).trans (sameControl.clearRange ..)

theorem sameControl_commitCursor :
    SameControl term (guacTerminalCommitCursor term) :=
  ite_keeps (SameControl.refl term) rfl

/-! ## Greater heights -/

/-- Rows of the scrollback are shifted into the display. -/
def GuacTerminal.shiftedDown (shift : ℤ) : GuacTerminal :=
  { term with
    buffer := { term.buffer with top := wrap32 (term.buffer.top-shift) }
    cursorRow := term.cursorRow+shift
    visibleCursorRow := term.visibleCursorRow+shift }

/-- The display is scrolled to an offset, to which the scrollbar is set. -/
def GuacTerminal.offsetSet (offset : ℤ) : GuacTerminal :=
  guacTerminalScrollbarSetValue { term with scrollOffset := offset } (-offset)

end

/-- A greater height takes as many rows from the scrollback as it has and as there is room
for. As many of them as are scrolled to are in view already, and the others make what is in
view move down. -/
inductive Grown (term : GuacTerminal) (width height : ℤ) : GuacTerminal→Prop
  | same (hnone : height≤term.termHeight ∨ guacTerminalAvailableScroll term≤0) :
    Grown term width height term
  | scrolled (shift : ℤ) (hgrows : height > term.termHeight) (hpos : 0<shift)
    (hshift : shift=min (guacTerminalAvailableScroll term) (height-term.termHeight))
    (hle : shift≤term.scrollOffset) :
    Grown term width height (redrawRect term.termHeight 0 (term.termHeight+shift-1)
      (width-1) ((term.shiftedDown shift).offsetSet (term.scrollOffset-shift)))
  | moved (shift : ℤ) (hgrows : height > term.termHeight) (hpos : 0<shift)
    (hshift : shift=min (guacTerminalAvailableScroll term) (height-term.termHeight))
    (hlt : term.scrollOffset<shift) (drawn : GuacTerminal)
    (hdrawn : drawn=redrawRect term.termHeight 0 (term.termHeight+term.scrollOffset-1)
      (width-1) (term.shiftedDown shift)) :
    Grown term width height (redrawRect 0 0 (shift-term.scrollOffset-1) (width-1)
      { drawn.offsetSet 0 with
        display := guacTerminalDisplayCopyRows drawn.display 0
          (drawn.display.height-(shift-term.scrollOffset)-1) (shift-term.scrollOffset) })

theorem grown_growHeight (term : GuacTerminal) (width height : ℤ) :
    Grown term width height (growHeight term width height) := by
  unfold growHeight
  dsimp only
  generalize hshift : (if height-term.termHeight > guacTerminalAvailableScroll term then
    guacTerminalAvailableScroll term else height-term.termHeight)=shift
  have hmin : shift=min (guacTerminalAvailableScroll term) (height-term.termHeight) := by
    rw [←hshift]
    split_ifs <;> omega
  by_cases hgrows : height > term.termHeight
  · by_cases havailable : guacTerminalAvailableScroll term > 0
    · rw [if_pos hgrows,if_pos havailable]
      by_cases hle : term.scrollOffset≥shift
      · rw [if_pos hle]
        exact .scrolled shift hgrows (by omega) hmin hle
      · rw [if_neg hle]
        generalize hdrawn : redrawRect term.termHeight 0 (term.termHeight+term.scrollOffset-1)
          (width-1) { term with
            buffer := { term.buffer with top := wrap32 (term.buffer.top-shift) }
            cursorRow := term.cursorRow+shift
            visibleCursorRow := term.visibleCursorRow+shift } = drawn
        have hoffset : drawn.scrollOffset=term.scrollOffset := by
          rw [←hdrawn]
          exact (sameControl.redrawRect ..).scrollOffset
        rw [hoffset,if_pos (by omega)]
        exact .moved shift hgrows (by omega) hmin (by omega) drawn hdrawn.symm
    · rw [if_pos hgrows,if_neg havailable]
      exact .same (Or.inr (by omega))
  · rw [if_neg hgrows]
    exact .same (Or.inl (by omega))

end GuacServer.Terminal
