import GuacServer.TerminalRows

/-!
# Wide characters in every state of a terminal

Insertions and deletions within a row, what moves rows, and the marks of the
cursor leave all characters whole, and so does every byte, but for a deletion that
a row is too short for and a code point without columns that is inserted behind
half of a character.
-/

namespace GuacServer.Terminal

open DecimalNumerals StateRuns WideRows

variable {width height : ℤ} {term : GuacTerminal}

/-! ## Insertions and deletions -/

variable {amount : ℤ} {term' : GuacTerminal}

/-- Characters from the cursor on are moved to the right. -/
theorem rowsWhole_insertion (h : ScreenOk term) (hrows : RowsWhole term.buffer) (hpos : 0<amount)
    (hfits : term.cursorCol+amount<term.termWidth) :
    RowsWhole (guacTerminalCopyColumns term term.cursorRow term.cursorCol
      (term.termWidth-amount-1) amount).buffer := by
  have hsize : term.termWidth≤1024 := h.2.1.2
  obtain ⟨hcol,-⟩ := h.2.2.2.2.1
  have hlt : term.rowLength term.cursorRow<2^30 := (h.1.1.row term.cursorRow).length_lt
  have hwrap : wrap32 (term.termWidth-amount-1+amount+1)=term.termWidth := by
    rw [wrap32_of_range (by omega) (by omega)]
    omega
  have hlength := expandedRow_length term term.cursorRow term.termWidth
  have hfirst : copiedEnd (term.expandedRow term.cursorRow term.termWidth).length amount
      term.cursorCol=term.cursorCol := by
    rw [copiedEnd_down hpos (by omega) (by omega),fit_eq hcol (by omega)]
    omega
  have hlast : copiedEnd (term.expandedRow term.cursorRow term.termWidth).length amount
      (term.termWidth-amount-1)=term.termWidth-amount-1 := by
    rw [copiedEnd_down hpos (by omega) (by omega),fit_eq (by omega) (by omega)]
    omega
  have hcopies : Copies (term.expandedRow term.cursorRow term.termWidth).length term.cursorCol
      (term.termWidth-amount-1) amount := by
    unfold Copies
    rw [hfirst,hlast]
    exact ⟨by omega,fun _ => ⟨hcol,by omega⟩⟩
  have hnear := @copiedColumns_near (term.termWidth-amount-1) term.cursorCol term
    hrows term.cursorRow amount
  rw [hwrap,hfirst,hlast] at hnear
  refine rowsWhole_copyColumns hrows (contentOk_insertion h hpos (by omega) hfits.le).1 h.2.1.1
    ?_ ?_ ?_
  · rw [hwrap,wrap32_of_range (by omega) (by omega)]
    omega
  · rw [hwrap]
    omega
  · rw [hwrap,wrap32_of_range (by omega) (by omega)]
    rw [show term.termWidth-amount-1+amount+1=term.termWidth by omega] at hnear
    exact hnear (by omega) hcopies

/-- In the last column of a row that ends there the character before it is
repeated, and cut if it is wide. -/
theorem wholeBut_insertion (h : ScreenOk term) (hrows : RowsWhole term.buffer)
    (hspace : 1<term.termWidth) (hcol : term.cursorCol+1=term.termWidth) :
    WholeBut term.cursorRow term.cursorCol (guacTerminalCopyColumns term term.cursorRow
        term.cursorCol (term.termWidth-1-1) 1).buffer ∧
      (¬(term.rowLength term.cursorRow=term.termWidth ∧
          (term.buffer.row term.cursorRow).shape (term.termWidth-2)=some 2) →
        RowsWhole (guacTerminalCopyColumns term term.cursorRow term.cursorCol
          (term.termWidth-1-1) 1).buffer) := by
  have hsize : term.termWidth≤1024 := h.2.1.2
  have hlt : term.rowLength term.cursorRow<2^30 := (h.1.1.row term.cursorRow).length_lt
  have hwrap : wrap32 (term.termWidth-1-1+1+1)=term.termWidth := by
    rw [wrap32_of_range (by omega) (by omega)]
    omega
  have hlength := expandedRow_length term term.cursorRow term.termWidth
  have hwhole := hrows.expandedRow term.cursorRow term.termWidth
  have hlast : copiedEnd (term.expandedRow term.cursorRow term.termWidth).length 1
      (term.termWidth-1-1)=term.termWidth-1-1 := by
    rw [copiedEnd_down one_pos (by omega) (by omega),fit_eq (by omega) (by omega)]
    omega
  have hfirst : copiedEnd (term.expandedRow term.cursorRow term.termWidth).length 1 term.cursorCol=
        min term.cursorCol ((term.expandedRow term.cursorRow term.termWidth).length-1-1) := by
    rw [copiedEnd_down one_pos (by omega) (by omega),fit_eq (by omega) (by omega)]
  have hcopies : Copies (term.expandedRow term.cursorRow term.termWidth).length term.cursorCol
      (term.termWidth-1-1) 1 := by
    unfold Copies
    rw [hfirst,hlast]
    exact ⟨by omega,fun _ => ⟨by omega,by omega⟩⟩
  have hnear := @copiedColumns_near (term.termWidth-1-1) term.cursorCol term hrows term.cursorRow 1
  have hshape := copiedColumns_shape term term.cursorRow term.cursorCol (term.termWidth-1-1) 1
  have hcopied := (contentOk_insertion h one_pos hspace hcol.le).1
  dsimp only at hshape
  rw [hwrap,hfirst,hlast] at hnear hshape
  rw [show term.termWidth-1-1+1+1=term.termWidth by omega] at hnear
  have hbut := @wholeBut_copyColumns (term.termWidth-1-1) term.cursorCol _ _ term 1
    term.cursorRow term.cursorCol hrows hcopied h.2.1.1
  have hrowsWhole := @rowsWhole_copyColumns (term.termWidth-1-1) term.cursorCol _ _ term 1
    term.cursorRow hrows hcopied h.2.1.1
  rw [hwrap,wrap32_of_range (by omega) (by omega),hcol] at hbut hrowsWhole
  rcases (by omega : term.termWidth<(term.expandedRow term.cursorRow term.termWidth).length ∨
    (term.expandedRow term.cursorRow term.termWidth).length=term.termWidth) with hlong | hexact
  · -- nothing is copied
    have hboth := hrowsWhole ⟨by omega,by omega⟩ ⟨by omega,by omega⟩ fun column hbroken => by
      rw [min_eq_left (by omega),hcol] at hnear
      exact hnear (by omega) hcopies column hbroken
    exact ⟨hboth.wholeBut ..,fun _ => hboth⟩
  · rw [hexact] at hnear hshape hbut hrowsWhole hcopies
    rw [show min term.cursorCol (term.termWidth-1-1)+1=term.cursorCol by omega] at hnear
    refine ⟨hbut ⟨by omega,le_rfl⟩ ⟨by omega,le_rfl⟩ (by omega)
      (hnear (by omega) hcopies),fun hnot => ?_⟩
    refine hrowsWhole ⟨by omega,le_rfl⟩ ⟨by omega,le_rfl⟩ fun column hbroken => Or.inl ?_
    have hne : (term.expandedRow term.cursorRow term.termWidth).shape (term.termWidth-2)≠
        some 2 := by
      intro htwo
      rw [GuacTerminal.expandedRow,expand_shape] at htwo
      split_ifs at htwo with hnew
      · rw [hrows.default] at htwo
        cases htwo
      · have hend := ((hrows.bufferRow term.cursorRow).whole (term.termWidth-2) 2 (by omega)
          (by omega) htwo).le
        refine hnot ⟨?_,htwo⟩
        rw [GuacTerminal.rowLength] at hlength ⊢
        omega
    rw [BufferRow.AllWhole,hexact] at hwhole
    refine near_of_repeated hwhole (fun i hi => ?_) ?_ hne hbroken
    · rw [hshape,if_neg (by omega)]
    · rw [hshape,if_pos (by omega),sub_sub,one_add_one_eq_two]

/-- What a deletion moves in a row that is shorter than the screen ends, and starts if
the row ends before it, where no character is cut. -/
def DeletionUncut (term : GuacTerminal) (amount : ℤ) : Prop :=
  let expanded := term.expandedRow term.cursorRow (term.termWidth-amount)
  term.termWidth≤expanded.length ∨ expanded.shape (expanded.length-amount)≠none ∧
      (term.cursorCol+amount<expanded.length ∨ expanded.shape (expanded.length-1)≠none ∧
          expanded.shape (expanded.length-amount-1)≠none)

/-- Characters behind those at the cursor are moved to the left. -/
theorem rowsWhole_deletion (h : ScreenOk term) (hrows : RowsWhole term.buffer) (hpos : 0<amount)
    (hfits : term.cursorCol+amount<term.termWidth)
    (hinitialized : amount<term.rowLength term.cursorRow ∨ 2*amount<term.termWidth)
    (huncut : DeletionUncut term amount) :
    RowsWhole (guacTerminalCopyColumns term term.cursorRow (term.cursorCol+amount)
      (term.termWidth-1) (-amount)).buffer := by
  have hsize : term.termWidth≤1024 := h.2.1.2
  obtain ⟨hcol,-⟩ := h.2.2.2.2.1
  have hlt : term.rowLength term.cursorRow<2^30 := (h.1.1.row term.cursorRow).length_lt
  have hwrap : wrap32 (term.termWidth-1 + -amount+1)=term.termWidth-amount := by
    rw [wrap32_of_range (by omega) (by omega)]
    omega
  have hlength := expandedRow_length term term.cursorRow (term.termWidth-amount)
  have hwhole := hrows.expandedRow term.cursorRow (term.termWidth-amount)
  have hshape := copiedColumns_shape term term.cursorRow (term.cursorCol+amount)
    (term.termWidth-1) (-amount)
  have hnear := @copiedColumns_near (term.termWidth-1) (term.cursorCol+amount) term hrows
    term.cursorRow (-amount)
  have hrowsWhole := @rowsWhole_copyColumns (term.termWidth-1) (term.cursorCol+amount) _ _
    term (-amount) term.cursorRow hrows
    (contentOk_deletion h hpos hfits hinitialized).1 h.2.1.1
  dsimp only at hshape
  unfold DeletionUncut at huncut
  dsimp only at huncut
  rw [hwrap] at hshape hnear hrowsWhole
  rw [wrap32_of_range (by omega) (by omega),show term.cursorCol+amount + -amount=
    term.cursorCol by omega] at hrowsWhole
  generalize term.expandedRow term.cursorRow (term.termWidth-amount)=expanded at *
  have hfirst : copiedEnd expanded.length (-amount) (term.cursorCol+amount)=
      min (term.cursorCol+amount) (expanded.length-1) :=
    copiedEnd_up_eq hpos (by omega) (by omega) (by omega)
  have hlast : copiedEnd expanded.length (-amount) (term.termWidth-1)=
      min (term.termWidth-1) (expanded.length-1) :=
    copiedEnd_up_eq hpos (by omega) (by omega) (by omega)
  have hcopies : Copies expanded.length (term.cursorCol+amount) (term.termWidth-1) (-amount) := by
    unfold Copies
    rw [hfirst,hlast]
    exact ⟨by omega,fun _ => ⟨by omega,by omega⟩⟩
  rw [hfirst,hlast] at hnear hshape
  refine hrowsWhole ⟨hcol,by omega⟩ ⟨by omega,by omega⟩ fun column hbroken => ?_
  rcases le_or_gt term.termWidth expanded.length with hlong | hshort
  · have hcopied := hnear (by omega) hcopies column hbroken
    rwa [min_eq_left (by omega),min_eq_left (by omega),
      show term.cursorCol+amount + -amount=term.cursorCol by omega,
      show term.termWidth-1 + -amount+1=term.termWidth-amount by omega] at hcopied
  obtain ⟨hend,hstart⟩ := huncut.resolve_left (not_le.mpr hshort)
  rcases lt_or_ge (term.cursorCol+amount) expanded.length with hinside | hbehind
  · have hmoved : ∀ i, term.cursorCol ≤ i → i<expanded.length-amount →
        ((copiedColumns term term.cursorRow (term.cursorCol+amount) (term.termWidth-1)
          (-amount)).buffer.row term.cursorRow).shape i=expanded.shape (i+amount) := by
      intro i hi hi'
      rw [hshape,if_pos (by omega),sub_neg_eq_add]
    have hkept : ∀ i, i<term.cursorCol ∨ expanded.length-amount ≤ i →
        ((copiedColumns term term.cursorRow (term.cursorCol+amount) (term.termWidth-1)
          (-amount)).buffer.row term.cursorRow).shape i=expanded.shape i := by
      intro i hi
      rw [hshape,if_neg (by omega)]
    exact Or.inl (near_of_moved hwhole hcol hpos hend hmoved hkept hbroken)
  · -- the last cell of the row is moved to the left of the cursor
    obtain ⟨hlastCell,hcell⟩ := hstart.resolve_left (not_lt.mpr hbehind)
    obtain ⟨columns,hcolumns⟩ := Option.ne_none_iff_exists'.mp hlastCell
    obtain ⟨hone,hfits',-,-⟩ :=
      hwhole.whole (expanded.length-1) columns (by omega) (by omega) hcolumns
    obtain rfl : columns=1 := by omega
    have hmoved : ∀ i, i≠expanded.length-amount-1 →
        ((copiedColumns term term.cursorRow (term.cursorCol+amount) (term.termWidth-1)
          (-amount)).buffer.row term.cursorRow).shape i=expanded.shape i := by
      intro i hi
      rw [hshape,if_neg (by omega)]
    have hbefore := (hwhole.take (by omega) fun _ => hcell).congr
      fun i _ hi => hmoved i (by omega)
    have hafter := (hwhole.drop (by omega) fun _ => hend).congr
      fun i hi _ => hmoved i (by omega)
    have hthere : Filled ((copiedColumns term term.cursorRow (term.cursorCol+amount)
        (term.termWidth-1) (-amount)).buffer.row term.cursorRow).shape
        (expanded.length-amount-1) (expanded.length-amount) := by
      refine filled_ones fun i hi hi' => ?_
      rw [hshape,if_pos (by omega),←hcolumns]
      congr 1
      omega
    exact absurd hbroken (rowWhole_iff.mp
      ((hbefore.append hthere (by omega) (by omega)).append hafter (by omega) (by omega)) column)

/-! ## What keeps characters whole -/

/-- A character that does not continue another. -/
def Uncontinued (character : TerminalChar) : Prop := character.value≠charContinuation

/-- A character of one column may be written to any columns of a row or next to
them. -/
theorem rowsWhole_setColumns_one (h : ContentOk width height term) (hrows : RowsWhole term.buffer)
    (hwidth : 0<width) {row startColumn endColumn : ℤ} {character : TerminalChar}
    (hend : -1≤endColumn) (hlast : endColumn<2^30-1) (hc : character.width=1)
    (hvalue : Uncontinued character)
    (hstart : startColumn ≤ max (term.rowLength row) (endColumn+1))
    (hnonneg : startColumn≤endColumn→0 ≤ startColumn) :
    RowsWhole (guacTerminalSetColumns term row startColumn endColumn character).buffer := by
  refine rowsWhole_setColumns h hwidth hend hlast ⟨hc.ge,Or.inl hc⟩ hvalue hstart hnonneg
    (fun _ _ hle => ?_) (hrows.wholeBut ..)
  have hlt := lt_expand_available h.1 row hlast
  rw [hc]
  omega

/-- A row that is copied is as whole as the other. -/
theorem RowsWhole.copyRow {buffer : Buffer} (h : RowsWhole buffer) (row offset : ℤ) :
    RowsWhole (buffer.copyRow row offset) := by
  have hgot := h.getRow row 0
  unfold Buffer.copyRow
  dsimp only
  generalize guacTerminalBufferGetRow buffer row 0=got at *
  have hsource := hgot.bufferRow row
  have htargets := hgot.getRow (wrap32 (row+offset)) (got.row row).length
  generalize guacTerminalBufferGetRow got (wrap32 (row+offset)) (got.row row).length=target at *
  have hset : RowsWhole (target.setRow (wrap32 (row+offset))
      { target.row (wrap32 (row+offset)) with
        characters := fun i =>
          if 0 ≤ i ∧ i<(got.row row).length then (got.row row).characters i
          else (target.row (wrap32 (row+offset))).characters i
        length := (got.row row).length }) := by
    refine htargets.onlyRow (onlyRow_setRow ..) ?_
    rw [row_setRow]
    exact hsource.congr fun i hi hi' => congrArg TerminalChar.begins (if_pos ⟨hi,hi'⟩)
  exact ⟨hset.rows,hset.default⟩

theorem RowsWhole.copyRowsFrom (offset step : ℤ) (count : ℕ) (row : ℤ) {buffer : Buffer}
    (h : RowsWhole buffer) : RowsWhole (Buffer.copyRowsFrom offset step count row buffer) := by
  induction count generalizing row buffer with
  | zero => exact h
  | succ count ih => exact ih _ (h.copyRow row offset)

theorem RowsWhole.copyRows {buffer : Buffer} (h : RowsWhole buffer) (startRow endRow offset : ℤ) :
    RowsWhole (guacTerminalBufferCopyRows buffer startRow endRow offset) := by
  unfold guacTerminalBufferCopyRows
  dsimp only
  split
  · exact RowsWhole.copyRowsFrom offset (-1) _ endRow h
  · exact RowsWhole.copyRowsFrom offset 1 _ startRow h

/-- A mark does not change where characters begin. -/
theorem rowsWhole_markCursor (h : RowsWhole term.buffer) (row col : ℤ) (cursor : Bool) :
    RowsWhole (markCursor row col cursor term).buffer := by
  refine h.onlyRow (onlyRow_setRow ..) ?_
  show ((term.buffer.setRow row _).row row).AllWhole
  rw [row_setRow]
  refine (h.bufferRow row).congr fun i _ _ => ?_
  show TerminalChar.begins (Function.update (term.buffer.row row).characters col _ i)=_
  rcases eq_or_ne i col with rfl | hi
  · rw [Function.update_self]
    exact begins_marked ..
  · rw [Function.update_of_ne hi]
    rfl

/-- Whole characters stay whole, but for deletions that cut one. -/
theorem wholeContents : ContentInvariant RowsWhole Uncontinued DeletionUncut where
  blank _ := (by decide : (0 : ℤ) ≠ -1)
  letter _ _ := (by decide : (0x45 : ℤ) ≠ -1)
  ring h _ _ := ⟨h.rows,h.default⟩
  bufferGetRow h := h.getRow
  bufferCopyRows h := h.copyRows
  mark := rowsWhole_markCursor
  setOne h hrows hwidth := rowsWhole_setColumns_one h hrows hwidth
  insertion := rowsWhole_insertion
  deletion := rowsWhole_deletion

/-! ## The screen -/

/-- A proper terminal in which all characters are whole. -/
structure ScreenWhole (term : GuacTerminal) : Prop where
  ok : ScreenOk term
  rows : RowsWhole term.buffer
  default : term.defaultChar.value≠charContinuation

theorem screenWhole_iff : ScreenWhole term ↔ ScreenOf RowsWhole Uncontinued term :=
  ⟨fun h => ⟨h.ok,h.rows,h.default⟩,fun h => ⟨h.1,h.2.1,h.2.2⟩⟩

theorem screenWhole_wrapCursor (h : ScreenWhole term)
    (hwraps : term.cursorCol≥term.termWidth→LinefeedWithin term) :
    ScreenWhole (wrapCursor term) :=
  screenWhole_iff.mpr (screenOf_wrapCursor wholeContents (screenWhole_iff.mp h) hwraps)

/-! ### Printed characters -/

/-- Space is inserted in the last column of a row that ends there, behind the first
column of a wide character. -/
def InsertsHalf (term : GuacTerminal) : Prop :=
  (term.insertMode ∧ term.cursorCol+1=term.termWidth) ∧
    term.rowLength term.cursorRow=term.termWidth ∧
    (term.buffer.row term.cursorRow).shape (term.termWidth-2)=some 2

instance : Decidable (InsertsHalf term) := inferInstanceAs (Decidable (_ ∧ _))

/-- Where there is space for a character, characters are broken at most near its
column. -/
theorem wholeBut_insertedSpace (h : ScreenWhole term) (hcol : term.cursorCol<term.termWidth)
    (hspace : term.insertMode→1<term.termWidth) :
    WholeBut term.cursorRow term.cursorCol (insertedSpace term).buffer ∧
      (¬InsertsHalf term→RowsWhole (insertedSpace term).buffer) := by
  unfold insertedSpace
  split_ifs with hmode
  · rw [show term.termWidth-2=term.termWidth-1-1 by omega]
    rcases (by omega : term.cursorCol+1<term.termWidth ∨
      term.cursorCol+1=term.termWidth) with hbefore | hlast
    · have hrows := rowsWhole_insertion h.ok h.rows one_pos hbefore
      exact ⟨hrows.wholeBut ..,fun _ => hrows⟩
    · obtain ⟨hbut,hrows⟩ := wholeBut_insertion h.ok h.rows (hspace hmode) hlast
      exact ⟨hbut,fun hnot => hrows fun hhalf => hnot ⟨⟨hmode,hlast⟩,hhalf⟩⟩
  · exact ⟨h.rows.wholeBut ..,fun _ => h.rows⟩

/-- A character of at most two columns may be set where characters are broken. -/
theorem rowsWhole_set (h : ContentOk width height term) (hwidth : 0<width)
    {row col codepoint columns : ℤ} (hcol : 0≤col) (hlast : col<terminalMaxSize)
    (hcolumns : columns≤2) (hvalue : codepoint≠charContinuation)
    (hcursor : columns=2 → row=term.visibleCursorRow → term.visibleCursorCol=col+1 →
      col+2<((term.buffer.row row).expand term.buffer.defaultCharacter (col+2)).available)
    (hbut : WholeBut row col term.buffer)
    (hzero : columns=0→RowsWhole term.buffer) :
    RowsWhole (guacTerminalSet term row col codepoint columns).buffer := by
  have hsize : col<1024 := hlast
  unfold guacTerminalSet
  dsimp only
  generalize hw : (if columns<0 then 1 else columns)=w
  have hw0 : 0≤w ∧ w≤2 := by
    rw [←hw]
    split_ifs <;> omega
  have hsame : w=0 ∨ w=2 → columns=w := by
    rw [←hw]
    split_ifs <;> omega
  split_ifs with hempty
  · exact hzero ((hsame (Or.inl hempty)).trans hempty)
  · have hpos : 1≤w := by omega
    refine rowsWhole_setColumns h hwidth (by omega) (by omega) ⟨hpos,Or.inr rfl⟩ hvalue
      (by omega) (fun _ => hcol) (fun hrow hstart hend => ?_) hbut
    exact lt_available_of_set h.1 hlast ⟨hpos,hw0.2⟩
      (fun hwide => hcursor ((hsame (Or.inr hwide)).trans hwide)) hrow hstart hend

/-- The row of the next character that is displayed. -/
def GuacTerminal.nextRow (term : GuacTerminal) : ℤ :=
  if term.cursorCol≥term.termWidth ∧ term.cursorRow≠term.scrollEnd ∧
      term.cursorRow<term.termHeight-1 then term.cursorRow+1
  else term.cursorRow

/-- The row that the rendered cursor is in then: it is scrolled with the others. -/
def GuacTerminal.nextVisibleRow (term : GuacTerminal) : ℤ :=
  let first :=
    if term.scrollStart=0 ∧ term.scrollEnd=term.termHeight-1 then term.scrollStart
    else wrap32 (term.scrollStart+1)
  if (term.cursorCol≥term.termWidth ∧ term.cursorRow=term.scrollEnd) ∧
      term.visibleCursorRow≥first ∧ term.visibleCursorRow≤term.scrollEnd then
    term.visibleCursorRow-1
  else term.visibleCursorRow

/-- The column of the rendered cursor once there is space for the next character, if
it is in its row. -/
def GuacTerminal.nextVisibleColumn (term : GuacTerminal) : ℤ :=
  if term.insertMode ∧ term.nextColumn≤term.visibleCursorCol ∧
      term.visibleCursorCol≤term.termWidth-2 then term.visibleCursorCol+1
  else term.visibleCursorCol

/-- The rendered cursor is in a column of the character other than its first. -/
def OverlayInside (env : TerminalEnv) (term : GuacTerminal) (codepoint : ℤ) : Prop :=
  term.nextRow=term.nextVisibleRow ∧ term.nextColumn<term.nextVisibleColumn ∧
    term.nextVisibleColumn<term.nextColumn+advanceOf env codepoint

/-- A code point without columns is not displayed behind half of a character, and no
other where the rendered cursor is in a later column of it. -/
def DisplaysWhole (env : TerminalEnv) (term : GuacTerminal) (codepoint : ℤ) : Prop :=
  ¬(advanceOf env codepoint=0 ∧ InsertsHalf term) ∧
    (FitsRow env term codepoint→¬OverlayInside env term codepoint)

instance (env : TerminalEnv) (codepoint : ℤ) : Decidable (OverlayInside env term codepoint) :=
  inferInstanceAs (Decidable (_ ∧ _))

instance (env : TerminalEnv) (codepoint : ℤ) : Decidable (DisplaysWhole env term codepoint) :=
  inferInstanceAs (Decidable (_ ∧ _))

theorem advanceOf_le_two {env : TerminalEnv} (hwcwidth : ∀ codepoint, env.wcwidth codepoint≤2)
    (codepoint : ℤ) : advanceOf env codepoint≤2 := by
  have hle := hwcwidth codepoint
  unfold advanceOf
  split_ifs <;> omega

/-- A displayed character cuts no wide character. -/
theorem screenWhole_displayCharacter {env : TerminalEnv}
    (hwcwidth : ∀ codepoint, env.wcwidth codepoint≤2) (h : ScreenWhole term) {codepoint : ℤ}
    (hvalue : codepoint≠charContinuation) (hwithin : DisplaysWithin env term codepoint)
    (hwhole : DisplaysWhole env term codepoint) :
    ScreenWhole (displayCharacter env term codepoint) := by
  have hok := screenOk_displayCharacter hwcwidth h.ok hwithin
  have hoverlay := overlay_available h.ok hwithin
  obtain ⟨hwraps,hinsert,-⟩ := hwithin
  obtain ⟨-,hcol,⟨hmode,hwidthEq⟩,hplace⟩ := screenOk_wrapCursor h.ok hwraps
  have hwrapped := screenWhole_wrapCursor h hwraps
  rw [←hmode,←hwidthEq] at hinsert
  have hspace := (contentOk_insertedSpace hwrapped.ok hcol hinsert).1
  obtain ⟨hbut,hrows⟩ := wholeBut_insertedSpace hwrapped hcol hinsert
  have hsame := sameControl_insertedSpace (wrapCursor term)
  obtain ⟨hrowEq,hcolEq⟩ := hsame.cursor
  obtain ⟨hcol0,-⟩ := hwrapped.ok.2.2.2.2.1
  have hmax : (wrapCursor term).termWidth≤1024 := hwrapped.ok.2.1.2
  rw [←hrowEq,←hcolEq] at hbut
  have hset := rowsWhole_set hspace hwrapped.ok.2.1.1 (by omega) (by show _ < (1024 : ℤ); omega)
    (hwcwidth codepoint) hvalue hoverlay hbut fun hzero => hrows fun hhalf => by
      refine hwhole.1 ⟨by rw [advanceOf,hzero]; rfl,?_⟩
      rcases hplace with ⟨hplace,-⟩ | hfirst
      · rwa [hplace] at hhalf
      · -- there are two columns at least
        have hlast := hhalf.1.2
        have htwo := hinsert hhalf.1.1
        omega
  have hsameSet := hsame.trans (sameControl.set (insertedSpace (wrapCursor term))
    (insertedSpace (wrapCursor term)).cursorRow (insertedSpace (wrapCursor term)).cursorCol
    codepoint (env.wcwidth codepoint))
  refine ⟨hok,hset,?_⟩
  have hdefault := hsameSet.defaultChar
  have hdefault' := hwrapped.default
  rw [←hdefault] at hdefault'
  exact hdefault'

/-- The character that is displayed in a column is there afterwards, but for the mark
of the cursor. -/
def Holds (env : TerminalEnv) (term term' : GuacTerminal) (codepoint : ℤ) : Prop :=
  advanceOf env codepoint≠0→FitsRow env term codepoint →
    ((term'.buffer.row term'.cursorRow).characters term.nextColumn).marked false=
      TerminalChar.marked ⟨codepoint,term.currentAttributes,advanceOf env codepoint⟩ false

/-- Two terminals have the same rendered cursor. -/
def SameVisible (term term' : GuacTerminal) : Prop :=
  term'.visibleCursorRow=term.visibleCursorRow ∧ term'.visibleCursorCol=term.visibleCursorCol

theorem SameVisible.trans {term'' : GuacTerminal} (h : SameVisible term term')
    (h' : SameVisible term' term'') : SameVisible term term'' :=
  ⟨h'.1.trans h.1,h'.2.trans h.2⟩

/-- New characters leave the rendered cursor where it is. -/
theorem sameVisible : KeptByCells SameVisible where
  refl _ := ⟨rfl,rfl⟩
  trans h h' := h.trans h'
  getRow _ _ _ := ⟨rfl,rfl⟩
  select _ _ _ := ⟨rfl,rfl⟩
  setCells _ _ _ _ _ _ := ⟨rfl,rfl⟩

section

variable (term : GuacTerminal)

/-- The rendered cursor is scrolled with its row. -/
theorem scrollUp_visible (startRow endRow : ℤ) :
    (guacTerminalScrollUp term startRow endRow 1).visibleCursorRow=
        (if term.visibleCursorRow≥(if startRow=0 ∧ endRow=term.termHeight-1 then startRow
          else wrap32 (startRow+1)) ∧ term.visibleCursorRow≤endRow then
            term.visibleCursorRow-1
        else term.visibleCursorRow) ∧
      (guacTerminalScrollUp term startRow endRow 1).visibleCursorCol=term.visibleCursorCol := by
  obtain ⟨hrow,hcol⟩ := sameVisible.clearRange (scrolledUp term startRow endRow 1)
    (wrap32 (endRow-1+1)) 0 endRow ((scrolledUp term startRow endRow 1).termWidth-1)
  rw [scrollUp_eq,hrow,hcol]
  unfold scrolledUp
  by_cases hentire : startRow=0 ∧ endRow=term.termHeight-1
  · rw [if_pos hentire,if_pos hentire]
    dsimp only [guacTerminalScrollbarSetBounds]
    split_ifs <;> exact ⟨rfl,rfl⟩
  · rw [if_neg hentire,if_neg hentire]
    obtain ⟨textSelected,selectionCommitted,htouch⟩ := selectTouch_eq { term with
      display := guacTerminalDisplayCopyRows term.display
        (wrap32 (wrap32 (startRow+1)+term.scrollOffset)) (wrap32 (endRow+term.scrollOffset))
          (wrap32 (-1))
      buffer := guacTerminalBufferCopyRows term.buffer (wrap32 (startRow+1)) endRow
        (wrap32 (-1)) } (wrap32 (startRow+1)) 0 endRow term.termWidth
    unfold guacTerminalCopyRows
    dsimp only
    rw [htouch]
    split_ifs <;> exact ⟨rfl,rfl⟩

/-- Where a line feed leaves the cursors. -/
theorem linefeed_next : (guacTerminalLinefeed term).cursorRow=
        (if term.cursorRow≠term.scrollEnd ∧ term.cursorRow<term.termHeight-1 then
          term.cursorRow+1 else term.cursorRow) ∧
      (guacTerminalLinefeed term).visibleCursorRow=
        (if term.cursorRow=term.scrollEnd ∧ term.visibleCursorRow ≥
            (if term.scrollStart=0 ∧ term.scrollEnd=term.termHeight-1 then term.scrollStart
            else wrap32 (term.scrollStart+1)) ∧ term.visibleCursorRow≤term.scrollEnd then
          term.visibleCursorRow-1 else term.visibleCursorRow) ∧
      (guacTerminalLinefeed term).visibleCursorCol=term.visibleCursorCol := by
  unfold guacTerminalLinefeed
  by_cases hend : term.cursorRow=term.scrollEnd
  · obtain ⟨hrow,hcol⟩ := scrollUp_visible term term.scrollStart term.scrollEnd
    have hsame := (sameControl_scrollUp term term.scrollStart term.scrollEnd 1).cursor.1
    rw [if_pos hend]
    exact ⟨hsame.trans (if_neg fun hnext => hnext.1 hend).symm,
      hrow.trans (if_congr (and_iff_right hend).symm rfl rfl),hcol⟩
  · rw [if_neg hend]
    by_cases hlast : term.cursorRow<term.termHeight-1
    · rw [if_pos hlast]
      exact ⟨(if_pos ⟨hend,hlast⟩).symm,(if_neg fun hscrolled => hend hscrolled.1).symm,rfl⟩
    · rw [if_neg hlast]
      exact ⟨(if_neg fun hnext => hlast hnext.2).symm,
        (if_neg fun hscrolled => hend hscrolled.1).symm,rfl⟩

/-- The cursor and the rendered cursor before a character is displayed. -/
theorem wrapCursor_next : (wrapCursor term).cursorRow=term.nextRow ∧
      (wrapCursor term).visibleCursorRow=term.nextVisibleRow ∧
      (wrapCursor term).visibleCursorCol=term.visibleCursorCol := by
  unfold wrapCursor GuacTerminal.nextRow GuacTerminal.nextVisibleRow
  by_cases hwraps : term.cursorCol≥term.termWidth
  · obtain ⟨hrow,hvisible,hcol⟩ := linefeed_next { term with cursorCol := 0 }
    rw [if_pos hwraps]
    exact ⟨hrow.trans (if_congr (and_iff_right hwraps).symm rfl rfl),
      hvisible.trans (if_congr (and_congr_left' (and_iff_right hwraps)).symm rfl rfl),hcol⟩
  · rw [if_neg hwraps]
    exact ⟨(if_neg fun hnext => hwraps hnext.1).symm,
      (if_neg fun hscrolled => hwraps hscrolled.1.1).symm,rfl⟩

theorem wrapCursor_cursorCol :
    (wrapCursor term).cursorCol=term.nextColumn := by
  unfold wrapCursor GuacTerminal.nextColumn
  split_ifs
  · exact (linefeed_cursorCol _).1
  · rfl

theorem wrapCursor_currentAttributes :
    (wrapCursor term).currentAttributes=term.currentAttributes := by
  unfold wrapCursor guacTerminalLinefeed
  split_ifs
  · exact (sameControl_scrollUp ..).currentAttributes
  · rfl
  · rfl
  · rfl

end

/-- What is held of a character is what was set of it. -/
theorem holds_iff_set {env : TerminalEnv} (codepoint : ℤ) :
    Holds env term (displayCharacter env term codepoint) codepoint ↔
      (advanceOf env codepoint≠0→FitsRow env term codepoint →
        (((guacTerminalSetColumns (insertedSpace (wrapCursor term))
          (insertedSpace (wrapCursor term)).cursorRow
          (insertedSpace (wrapCursor term)).cursorCol
          ((insertedSpace (wrapCursor term)).cursorCol+advanceOf env codepoint-1)
          ⟨codepoint,(insertedSpace (wrapCursor term)).currentAttributes,
            advanceOf env codepoint⟩).buffer.row
          (insertedSpace (wrapCursor term)).cursorRow).characters
            (insertedSpace (wrapCursor term)).cursorCol).marked false=
          TerminalChar.marked ⟨codepoint,(insertedSpace (wrapCursor term)).currentAttributes,
            advanceOf env codepoint⟩ false) := by
  have hsame := sameControl_insertedSpace (wrapCursor term)
  have hattributes := hsame.currentAttributes.trans (wrapCursor_currentAttributes term)
  have hcolumn := hsame.cursor.2.trans (wrapCursor_cursorCol term)
  refine forall_congr' fun hadvance => forall_congr' fun _ => ?_
  have hset : guacTerminalSet (insertedSpace (wrapCursor term))
      (insertedSpace (wrapCursor term)).cursorRow (insertedSpace (wrapCursor term)).cursorCol
      codepoint (env.wcwidth codepoint)=guacTerminalSetColumns (insertedSpace (wrapCursor term))
          (insertedSpace (wrapCursor term)).cursorRow (insertedSpace (wrapCursor term)).cursorCol
          ((insertedSpace (wrapCursor term)).cursorCol+advanceOf env codepoint-1)
          ⟨codepoint,(insertedSpace (wrapCursor term)).currentAttributes,
            advanceOf env codepoint⟩ := if_neg hadvance
  show TerminalChar.marked (((guacTerminalSet (insertedSpace (wrapCursor term))
    (insertedSpace (wrapCursor term)).cursorRow (insertedSpace (wrapCursor term)).cursorCol
    codepoint (env.wcwidth codepoint)).buffer.row (guacTerminalSet (insertedSpace (wrapCursor term))
      (insertedSpace (wrapCursor term)).cursorRow (insertedSpace (wrapCursor term)).cursorCol
      codepoint (env.wcwidth codepoint)).cursorRow).characters term.nextColumn) false=_ ↔ _
  rw [(sameControl.set ..).cursor.1,hset,←hcolumn,←hattributes]

/-- The rendered cursor when there is space for a character is where it will be. -/
theorem cursorAmong_insertedSpace (h : ScreenOk term) {env : TerminalEnv} {codepoint : ℤ}
    (hwithin : DisplaysWithin env term codepoint) (last : ℤ) :
    CursorAmong (insertedSpace (wrapCursor term)) (insertedSpace (wrapCursor term)).cursorRow
        ((insertedSpace (wrapCursor term)).cursorCol+1) last ↔
      term.nextRow=term.nextVisibleRow ∧ term.nextColumn<term.nextVisibleColumn ∧
        term.nextVisibleColumn≤last := by
  obtain ⟨hwraps,hinsert,-⟩ := hwithin
  obtain ⟨hwrapped,hcol,⟨hmode,hwidthEq⟩,-⟩ := screenOk_wrapCursor h hwraps
  rw [←hmode,←hwidthEq] at hinsert
  obtain ⟨-,hvisibleRow,hvisibleCol,-⟩ := contentOk_insertedSpace hwrapped hcol hinsert
  obtain ⟨hrowEq,hcolEq⟩ := (sameControl_insertedSpace (wrapCursor term)).cursor
  obtain ⟨hnextRow,hnextVisible,hnextCol⟩ := wrapCursor_next term
  have hcolumn := hcolEq.trans (wrapCursor_cursorCol term)
  unfold CursorAmong
  rw [hrowEq,hvisibleRow,hvisibleCol,hcolumn]
  have hnext : (wrapCursor term).cursorRow=(wrapCursor term).visibleCursorRow →
      (wrapCursor term).overlayColumn=term.nextVisibleColumn := by
    intro hrow
    unfold GuacTerminal.overlayColumn GuacTerminal.nextVisibleColumn
    rw [hmode,hnextCol,wrapCursor_cursorCol,hwidthEq]
    exact if_congr (and_congr_right' (and_iff_right hrow)) rfl rfl
  constructor
  · rintro ⟨hrow,hafter,hbefore⟩
    rw [hnext hrow] at hafter hbefore
    rw [hnextRow,hnextVisible] at hrow
    exact ⟨hrow,by omega,hbefore⟩
  · rintro ⟨hrow,hafter,hbefore⟩
    rw [←hnextRow,←hnextVisible] at hrow
    rw [hnext hrow]
    exact ⟨hrow,by omega,hbefore⟩

section

variable {env : TerminalEnv} (hwcwidth : ∀ codepoint, env.wcwidth codepoint≤2)
  (h : ScreenWhole term) {codepoint : ℤ} (hvalue : codepoint≠charContinuation)
  (hwithin : DisplaysWithin env term codepoint)

include hwcwidth h hvalue hwithin

theorem holds_displayCharacter (hwhole : DisplaysWhole env term codepoint) :
    Holds env term (displayCharacter env term codepoint) codepoint := by
  rw [holds_iff_set]
  intro hadvance hfits
  have hamong := cursorAmong_insertedSpace h.ok hwithin
  obtain ⟨hwraps,hinsert,-⟩ := hwithin
  obtain ⟨hwrapped,hcol,⟨hmode,hwidthEq⟩,-⟩ := screenOk_wrapCursor h.ok hwraps
  rw [←hmode,←hwidthEq] at hinsert
  have hspace := (contentOk_insertedSpace hwrapped hcol hinsert).1
  obtain ⟨hcol0,-⟩ := hwrapped.2.2.2.2.1
  have hcolEq := (sameControl_insertedSpace (wrapCursor term)).cursor.2
  have hcolumn := hcolEq.trans (wrapCursor_cursorCol term)
  have hmax : (wrapCursor term).termWidth≤1024 := hwrapped.2.1.2
  have hnonneg := advanceOf_nonneg env codepoint
  have hle := advanceOf_le_two hwcwidth codepoint
  refine set_holds hspace hwrapped.2.1.1 (by omega) (by dsimp only; omega) (by dsimp only; omega)
    hvalue fun hcursor => hwhole.2 hfits ?_
  obtain ⟨hrow,hafter,hbefore⟩ := (hamong _).mp hcursor
  dsimp only at hbefore
  exact ⟨hrow,hafter,by omega⟩

/-- No character is held while the rendered cursor is in a later column of it. -/
theorem not_holds_displayCharacter (hfits : FitsRow env term codepoint)
    (hinside : OverlayInside env term codepoint) :
    ¬Holds env term (displayCharacter env term codepoint) codepoint := by
  obtain ⟨hrow,hafter,hbefore⟩ := hinside
  have hle := advanceOf_le_two hwcwidth codepoint
  have hwide : advanceOf env codepoint=2 := by omega
  have hwcwidthTwo : env.wcwidth codepoint=2 := by
    unfold advanceOf at hwide
    split_ifs at hwide
    · omega
    · exact hwide
  have hamong := (cursorAmong_insertedSpace h.ok hwithin
    ((insertedSpace (wrapCursor term)).cursorCol+1))
  have hoverlay := overlay_available h.ok hwithin hwcwidthTwo
  obtain ⟨hwraps,hinsert,-⟩ := hwithin
  obtain ⟨-,hcol,⟨hmode,hwidthEq⟩,-⟩ := screenOk_wrapCursor h.ok hwraps
  have hwrapped := screenWhole_wrapCursor h hwraps
  rw [←hmode,←hwidthEq] at hinsert
  have hspace := (contentOk_insertedSpace hwrapped.ok hcol hinsert).1
  obtain ⟨hbut,-⟩ := wholeBut_insertedSpace hwrapped hcol hinsert
  obtain ⟨hcol0,-⟩ := hwrapped.ok.2.2.2.2.1
  obtain ⟨hrowEq,hcolEq⟩ := (sameControl_insertedSpace (wrapCursor term)).cursor
  have hcolumn := hcolEq.trans (wrapCursor_cursorCol term)
  have hmax : (wrapCursor term).termWidth≤1024 := hwrapped.ok.2.1.2
  have hcursor := hamong.mpr ⟨hrow,hafter,by omega⟩
  rw [←hrowEq,←hcolEq] at hbut
  rw [holds_iff_set]
  intro hholds
  have hheld := hholds (by omega) hfits
  rw [hwide,show ∀ column : ℤ,column+2-1=column+1 by intro column; omega] at hheld
  exact not_set_holds hspace hwrapped.ok.2.1.1 (by omega) (by omega) rfl hvalue hcursor
    (hoverlay hcursor.1 (by have hge := hcursor.2.1; have hle := hcursor.2.2; omega)) hbut hheld

end

variable {env : TerminalEnv}

/-- No continuation is displayed as a character. -/
theorem ne_of_shown (htable : ∀ mapping code, env.charTable mapping code≠charContinuation)
    {c : UInt8} {codepoint : ℤ} (hshown : shownCodepoint env term c=some codepoint) :
    codepoint≠charContinuation := by
  rw [shownCodepoint] at hshown
  split_ifs at hshown with hnone
  rw [not_or,not_or] at hnone
  have hcontrol := hnone.2.2
  unfold IsControl at hcontrol
  cases hshown
  unfold mappedCodepoint
  split
  · exact ne_of_gt (lt_of_lt_of_le (by decide) (not_lt.mp fun hlow => hcontrol (Or.inl hlow)))
  · split_ifs with hhigh
    · exact htable _ _
    · exact ne_of_gt (lt_trans (by decide) (not_le.mp hhigh))

/-- A byte that is echoed cuts no wide character. -/
theorem screenWhole_echo (hwcwidth : ∀ codepoint, env.wcwidth codepoint≤2)
    (htable : ∀ mapping code, env.charTable mapping code≠charContinuation) {c : UInt8}
    (h : ScreenWhole term) (hhandler : term.charHandler=.echo)
    (hshown : ∀ codepoint∈shownCodepoint env term c,
      DisplaysWithin env term codepoint ∧ DisplaysWhole env term codepoint)
    (hline : FeedsLine term c→LinefeedWithin term) :
    ScreenWhole (guacTerminalEcho env term c) ∧ ∀ codepoint∈shownCodepoint env term c,
        Holds env term (guacTerminalEcho env term c) codepoint := by
  cases hcodepoint : shownCodepoint env term c with
  | none =>
    refine ⟨?_,fun codepoint hnone => absurd hnone (Option.not_mem_none codepoint)⟩
    exact screenWhole_iff.mpr (screenOf_echo_of_none wholeContents (screenWhole_iff.mp h) hhandler
      hcodepoint hline)
  | some codepoint =>
    obtain ⟨-,pipeBuffer,pipeSent,statics,hargv,heq⟩ := echo_of_some hcodepoint
    have hechoed : ScreenWhole (term.withEcho pipeBuffer pipeSent statics) :=
      ⟨h.ok,h.rows,h.default⟩
    have hvalue := ne_of_shown htable hcodepoint
    obtain ⟨hwithin,hwhole⟩ : DisplaysWithin env (term.withEcho pipeBuffer pipeSent statics)
        codepoint ∧ DisplaysWhole env (term.withEcho pipeBuffer pipeSent statics) codepoint :=
      hshown codepoint hcodepoint
    rw [heq]
    refine ⟨screenWhole_displayCharacter hwcwidth hechoed hvalue hwithin hwhole,?_⟩
    rintro codepoint' ⟨⟩
    exact holds_displayCharacter hwcwidth hechoed hvalue hwithin hwhole

/-! ### Sequences -/

/-- What the final byte of a sequence deletes cuts no character. -/
def CsiWhole (term : GuacTerminal) (statics : HandlerStatics) (c : UInt8) : Prop :=
  Char.ofNat c.toNat = 'P' → term.cursorCol+statics.amount<term.termWidth →
    DeletionUncut term statics.amount

/-- What a byte does to contents lies within them and cuts no character. -/
def WriteWhole (env : TerminalEnv) (term : GuacTerminal) (c : UInt8) : Prop :=
  WriteWithin env term c ∧
    (∀ codepoint∈shownCodepoint env term c, DisplaysWhole env term codepoint) ∧
    (term.charHandler=.csi→CsiWhole term term.statics.finishParameter c)

/-- The character that a byte displays is held. -/
def ShownHolds (env : TerminalEnv) (term term' : GuacTerminal) (c : UInt8) : Prop :=
  ∀ codepoint∈shownCodepoint env term c, Holds env term term' codepoint

section

variable (hwcwidth : ∀ codepoint, env.wcwidth codepoint≤2)
  (htable : ∀ mapping code, env.charTable mapping code≠charContinuation) {c : UInt8}
  (h : ScreenWhole term)

include hwcwidth htable h

theorem screenWhole_handleChar (hwhole : WriteWhole env term c) :
    ScreenWhole (handleChar env term c) ∧ ShownHolds env term (handleChar env term c) c := by
  obtain ⟨⟨hshown,hline,hescape,hcsi,hctrl⟩,hdisplays,hdeletes⟩ := hwhole
  have hecho := fun hhandler => screenWhole_echo hwcwidth htable h hhandler
    (fun codepoint hcodepoint => ⟨hshown codepoint hcodepoint,hdisplays codepoint hcodepoint⟩)
    hline
  constructor
  · exact screenWhole_iff.mpr (screenOf_handleChar wholeContents (screenWhole_iff.mp h)
      (fun hhandler => screenWhole_iff.mp (hecho hhandler).1) hescape
      (fun hhandler => ⟨hcsi hhandler,hdeletes hhandler⟩) hctrl)
  · intro codepoint hcodepoint
    by_cases hhandler : term.charHandler=.echo
    · have hhandled : handleChar env term c=guacTerminalEcho env term c := by
        unfold handleChar
        rw [hhandler]
      rw [hhandled]
      exact (hecho hhandler).2 codepoint hcodepoint
    · rw [show shownCodepoint env term c=none from if_pos (Or.inl hhandler)] at hcodepoint
      exact absurd hcodepoint (Option.not_mem_none codepoint)

/-- A byte that displays a character under the rendered cursor. -/
theorem not_shownHolds {codepoint : ℤ} (hshown : shownCodepoint env term c=some codepoint)
    (hwithin : DisplaysWithin env term codepoint) (hfits : FitsRow env term codepoint)
    (hinside : OverlayInside env term codepoint) :
    ¬ShownHolds env term (handleChar env term c) c := by
  obtain ⟨hhandler,pipeBuffer,pipeSent,statics,hargv,heq⟩ := echo_of_some hshown
  have hechoed : ScreenWhole (term.withEcho pipeBuffer pipeSent statics) := ⟨h.ok,h.rows,h.default⟩
  have hbroken := @not_holds_displayCharacter (term.withEcho pipeBuffer pipeSent statics) env
    hwcwidth hechoed codepoint (ne_of_shown htable hshown) hwithin hfits hinside
  have hhandled : handleChar env term c=guacTerminalEcho env term c := by
    unfold handleChar
    rw [hhandler]
  intro hholds
  have hheld := hholds codepoint hshown
  rw [hhandled,heq] at hheld
  exact hbroken hheld

end

/-! ## Runs -/

/-- What is done to a terminal lies within its contents and cuts no character. -/
def StepWhole (env : TerminalEnv) (op : TerminalOp) (term : GuacTerminal) : Prop :=
  StepBounded env op term ∧ match op with
    | .write c uninitializedWidth =>
      WriteWhole { env with uninitializedWidth := uninitializedWidth } term c
    | _ => True

/-- No step cuts a wide character. -/
theorem screenWhole_terminalStep (hwcwidth : ∀ codepoint, env.wcwidth codepoint≤2)
    (htable : ∀ mapping code, env.charTable mapping code≠charContinuation) {op : TerminalOp}
    (h : ScreenWhole term) (hwhole : StepWhole env op term)
    (hstep : terminalStep env op term=some term') : ScreenWhole term' := by
  obtain ⟨hbounded,hwhole⟩ := hwhole
  refine screenWhole_iff.mpr (screenOf_terminalStep wholeContents (screenWhole_iff.mp h) hbounded
    ?_ hstep)
  rintro c uninitializedWidth rfl
  have hwritten := @screenWhole_handleChar term
    { env with uninitializedWidth := uninitializedWidth } hwcwidth htable c h hwhole
  exact screenWhole_iff.mp hwritten.1

/-- The rows of a new terminal are whole. -/
theorem screenWhole_create (memory : Memory) (settings : TerminalSettings) {width height : ℤ}
    (hwidth : 0<(guacTerminalAlloc memory settings width height).termWidth)
    (hheight : 0<(guacTerminalAlloc memory settings width height).termHeight) :
    ScreenWhole (guacTerminalCreate memory settings width height) := by
  have hempty : RowsWhole (guacTerminalAlloc memory settings width height).buffer :=
    ⟨fun _ => filled_ones fun i hi hi' => absurd (hi.trans_lt hi') (lt_irrefl _),rfl⟩
  exact screenWhole_iff.mpr (screenOf_create wholeContents memory settings hwidth hheight hempty
    (by decide : (0 : ℤ)≠charContinuation))

/-- Each longest run of continuations in a row comes behind a character that has as
many columns and one more, and wide characters have all of theirs. -/
structure BufferRow.WellFormed (bufferRow : BufferRow) : Prop where
  preceded : ∀ first last, 0≤first → first≤last → last<bufferRow.length →
    (∀ i, first ≤ i → i≤last→(bufferRow.characters i).value=charContinuation) →
    (0<first→(bufferRow.characters (first-1)).value≠charContinuation) →
    (last+1<bufferRow.length → (bufferRow.characters (last+1)).value≠charContinuation) →
    0<first ∧ (bufferRow.characters (first-1)).width=last-first+1+1
  followed : ∀ column, 0≤column → column<bufferRow.length →
    (bufferRow.characters column).value≠charContinuation →
    column+(bufferRow.characters column).width≤bufferRow.length ∧
      ∀ i, column < i → i<column+(bufferRow.characters column).width →
        (bufferRow.characters i).value=charContinuation

theorem BufferRow.AllWhole.wellFormed {bufferRow : BufferRow} (h : bufferRow.AllWhole) :
    bufferRow.WellFormed := by
  refine ⟨fun first last hfirst hle hlast hrun hbefore hafter => ?_,
    fun column hcolumn hlt hvalue => ?_⟩
  · have hcontinued : ∀ i, bufferRow.shape i=none ↔
        (bufferRow.characters i).value=charContinuation := fun _ => begins_eq_none
    obtain ⟨hpos,hwidth⟩ := RowWhole.run h hfirst hle hlast
      (fun i hi hi' => (hcontinued i).mpr (hrun i hi hi'))
      (fun hpos => mt (hcontinued _).mp (hbefore hpos))
      (fun hlt => mt (hcontinued _).mp (hafter hlt))
    refine ⟨hpos,?_⟩
    rw [(begins_eq_some.mp hwidth).2]
    omega
  · have hwhole := h.whole column _ hcolumn hlt (begins_of_ne hvalue)
    exact ⟨hwhole.le,fun i hi hi' => begins_eq_none.mp (hwhole.continues i hi hi')⟩

/-- While things are done to a terminal, its rows are well formed and what is displayed
is held. -/
def KeepsWide (env : TerminalEnv) (term : GuacTerminal) (ops : List TerminalOp) : Prop :=
  ∀ made, made <+: ops→∀ visited, run (terminalStep env) made term=some visited →
    (∀ i, (visited.buffer.rows i).WellFormed) ∧
      ∀ c uninitializedWidth, made++[.write c uninitializedWidth] <+: ops → ShownHolds env visited
          (handleChar { env with uninitializedWidth := uninitializedWidth } visited c) c

/-- Rows are well formed in all states of a run in which no character is cut. -/
theorem terminal_keepsWide (env : TerminalEnv) (hwcwidth : ∀ codepoint, env.wcwidth codepoint≤2)
    (htable : ∀ mapping code, env.charTable mapping code≠charContinuation)
    (memory : Memory) (settings : TerminalSettings) (width height : ℤ) (ops : List TerminalOp)
    (hwidth : 0<(guacTerminalAlloc memory settings width height).termWidth)
    (hheight : 0<(guacTerminalAlloc memory settings width height).termHeight)
    (halong : Along (terminalStep env) (StepWhole env) ops
      (guacTerminalCreate memory settings width height)) :
    KeepsWide env (guacTerminalCreate memory settings width height) ops := by
  intro made hmade visited hrun
  have hvisited := visits_of_along (screenWhole_terminalStep hwcwidth htable)
    (screenWhole_create memory settings hwidth hheight) halong hmade hrun
  refine ⟨fun i => (hvisited.rows.rows i).wellFormed,fun c uninitializedWidth hnext => ?_⟩
  have hwhole := along_at halong hnext hrun
  have hwritten := @screenWhole_handleChar visited
    { env with uninitializedWidth := uninitializedWidth } hwcwidth htable c hvisited hwhole.2
  exact hwritten.2

/-- An environment in which one character has two columns. -/
def wideEnv : TerminalEnv :=
  ⟨fun codepoint => if codepoint=0x4E00 then 2 else 1,fun _ code => max code 0,fun _ => none,1⟩

theorem wideEnv_le_two (codepoint : ℤ) : wideEnv.wcwidth codepoint≤2 := by
  show (if codepoint=0x4E00 then (2 : ℤ) else 1)≤2
  split_ifs
  · exact le_rfl
  · exact one_le_two

theorem wideEnv_ne (mapping : CharMapping) (code : ℤ) :
    wideEnv.charTable mapping code≠charContinuation :=
  ne_of_gt (lt_of_lt_of_le (by decide) (le_max_right code 0))

/-- A terminal of two columns and one row. -/
def smallTerminal : GuacTerminal := guacTerminalCreate consoleMemory consoleSettings 32 16

/-- A wide character is displayed where no character is. -/
def wideCharacter : List TerminalOp := [.write 0xE4 1,.write 0xB8 1,.write 0x80 1]

/-- A byte is part of a character, or displays one where it cuts none. -/
theorem stepWhole_of_echo {env : TerminalEnv} {c : UInt8} {uninitializedWidth : ℤ}
    (hhandler : term.charHandler=.echo) (hline : ¬FeedsLine term c)
    (hshown : ∀ codepoint∈
        shownCodepoint { env with uninitializedWidth := uninitializedWidth } term c,
      DisplaysWithin { env with uninitializedWidth := uninitializedWidth } term codepoint ∧
        DisplaysWhole { env with uninitializedWidth := uninitializedWidth } term codepoint) :
    StepWhole env (.write c uninitializedWidth) term := by
  have hother : ∀ {handler : CharHandler}, handler≠.echo → term.charHandler≠handler := by
    intro handler hne heq
    exact hne (heq.symm.trans hhandler)
  have hwithin : WriteWithin { env with uninitializedWidth := uninitializedWidth } term c := by
    refine ⟨fun codepoint h => (hshown codepoint h).1,fun h => absurd h hline,?_,?_,?_⟩
    · exact fun h => absurd h (hother (by decide))
    · exact fun h => absurd h (hother (by decide))
    · exact fun h => absurd h (hother (by decide))
  exact ⟨hwithin,hwithin,fun codepoint h => (hshown codepoint h).2,
    fun h => absurd h (hother (by decide))⟩

theorem along_wideCharacter :
    Along (terminalStep wideEnv) (StepWhole wideEnv) wideCharacter smallTerminal := by
  refine ⟨stepWhole_of_echo ?_ ?_ ?_,stepWhole_of_echo ?_ ?_ ?_,stepWhole_of_echo ?_ ?_ ?_,trivial⟩
  all_goals decide +kernel

theorem terminal_keepsWide_wideCharacter : KeepsWide wideEnv smallTerminal wideCharacter :=
  terminal_keepsWide wideEnv wideEnv_le_two wideEnv_ne consoleMemory consoleSettings 32 16
    wideCharacter (by decide) (by decide) along_wideCharacter

/-- The cursor is rendered in the second column before a wide character is displayed
in the first. -/
def underCursor : List TerminalOp := [.write 0x09 1,.flush,.write 0x0D 1]++wideCharacter

/-- The terminal before the last byte of the character. -/
def beforeWide : GuacTerminal :=
  [0x0D,0xE4,0xB8].foldl (handleChar wideEnv)
    (guacTerminalFlush (handleChar wideEnv smallTerminal 0x09))

theorem run_beforeWide : run (terminalStep wideEnv)
    [.write 0x09 1,.flush,.write 0x0D 1,.write 0xE4 1,.write 0xB8 1] smallTerminal=
      some beforeWide := by
  simp only [run,terminalStep,beforeWide,List.foldl_cons,List.foldl_nil]
  rfl

theorem screenWhole_beforeWide : ScreenWhole beforeWide := by
  have hcreated : ScreenWhole smallTerminal :=
    screenWhole_create consoleMemory consoleSettings (by decide) (by decide)
  refine visits_of_along (screenWhole_terminalStep wideEnv_le_two wideEnv_ne) hcreated ?_
    (List.prefix_refl _) run_beforeWide
  refine ⟨stepWhole_of_echo ?_ ?_ ?_,⟨trivial,trivial⟩,stepWhole_of_echo ?_ ?_ ?_,
    stepWhole_of_echo ?_ ?_ ?_,stepWhole_of_echo ?_ ?_ ?_,trivial⟩
  all_goals decide +kernel

/-- What is written anew under the rendered cursor breaks the character. -/
theorem not_keepsWide :
    (∀ codepoint, wideEnv.wcwidth codepoint≤2) ∧ ¬KeepsWide wideEnv smallTerminal underCursor := by
  refine ⟨wideEnv_le_two,fun h => ?_⟩
  have hshown : shownCodepoint wideEnv beforeWide 0x80=some 0x4E00 := by decide +kernel
  have hheld := (h _ ⟨[.write 0x80 1],rfl⟩ beforeWide run_beforeWide).2 0x80 1 ⟨[],rfl⟩
  exact not_shownHolds wideEnv_le_two wideEnv_ne screenWhole_beforeWide hshown (by decide +kernel)
    (by decide +kernel) (by decide +kernel) hheld

end GuacServer.Terminal
