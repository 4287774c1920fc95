import GuacServer.Selection

/-!
# Selections of whole characters

The range of a selection goes from the first column of a character to the last column
of another if the start of the selection has the column and the width of a character.
When a selection is resumed, guac_terminal_select_resume gives the start another
column but leaves its width, and the column that it gives it may be the last one of
a character.
-/

namespace GuacServer.Terminal

open StateRuns WideRows Function

/-! ## Characters -/

/-- A character takes the columns of a row from one to another. A column that the row does
not have is by itself. -/
structure Occupies (bufferRow : BufferRow) (first last : ℤ) : Prop where
  nonneg : 0≤first
  begins : if first<bufferRow.length then bufferRow.shape first=some (last-first+1)
    else last=first

/-- A character has a column of a row. -/
structure CharacterAt (term : GuacTerminal) (row column first last : ℤ) : Prop where
  occupies : Occupies (term.bufferRow row) first last
  first_le : first≤column
  le_last : column≤last

section

variable {bufferRow : BufferRow} {first last first' last' : ℤ}

/-- A character has all its columns. -/
theorem Occupies.columns (h : Occupies bufferRow first last) (hwhole : bufferRow.AllWhole) :
    first≤last ∧ (first<bufferRow.length → last<bufferRow.length) ∧
      ∀ i, first < i → i≤last → bufferRow.shape i=none := by
  obtain ⟨hnonneg,hbegins⟩ := h
  split_ifs at hbegins with hin
  · obtain ⟨hpos,hle,hcontinues,-⟩ := hwhole.whole first _ hnonneg hin hbegins
    exact ⟨by omega,fun _ => by omega,fun i hi hi' => hcontinues i hi (by omega)⟩
  · exact ⟨hbegins.ge,fun hlt => absurd hlt hin,fun i hi hi' => by omega⟩

/-- A character does not begin within another. -/
theorem Occupies.not_within (h : Occupies bufferRow first last)
    (h' : Occupies bufferRow first' last') (hwhole : bufferRow.AllWhole) (hlt : first<first') :
    last<first' := by
  obtain ⟨hle,hlength,hcontinues⟩ := h.columns hwhole
  by_contra hover
  have hbegins := h.begins
  have hbegins' := h'.begins
  split_ifs at hbegins with hin
  · rw [if_pos (by have hlast := hlength hin; omega),hcontinues first' hlt (by omega)] at hbegins'
    cases hbegins'
  · omega

/-- Characters that have a column in common are the same. -/
theorem Occupies.eq_of_overlap (h : Occupies bufferRow first last)
    (h' : Occupies bufferRow first' last') (hwhole : bufferRow.AllWhole) (hle : first≤last')
    (hle' : first' ≤ last) : first=first' ∧ last=last' := by
  have hfirst : first=first' := by
    rcases lt_trichotomy first first' with hlt | heq | hgt
    · have hbefore := h.not_within h' hwhole hlt
      omega
    · exact heq
    · have hbefore := h'.not_within h hwhole hgt
      omega
  refine ⟨hfirst,?_⟩
  have hbegins := h.begins
  have hbegins' := h'.begins
  rw [←hfirst] at hbegins'
  split_ifs at hbegins hbegins'
  · rw [hbegins] at hbegins'
    have hwidth := Option.some.inj hbegins'
    omega
  · omega

/-- The loop to the left ends where no column is continued, or with the first one. -/
theorem findStart_spec (characters : ℤ→TerminalChar) (count : ℕ) (column : ℤ) :
    (column-count≤findStart characters count column ∧ findStart characters count column≤column) ∧
    (∀ i, findStart characters count column < i → i≤column →
        (characters i).value=charContinuation) ∧
    (findStart characters count column=column-count ∨
      (characters (findStart characters count column)).value≠charContinuation) := by
  induction count generalizing column with
  | zero =>
    rw [Nat.cast_zero,sub_zero]
    exact ⟨⟨le_rfl,le_rfl⟩,fun i hi hi' => absurd hi' (not_le.mpr hi),Or.inl rfl⟩
  | succ count ih =>
    rw [findStart]
    split_ifs with hvalue
    · obtain ⟨⟨hge,hle⟩,hcontinues,hstart⟩ := ih (column-1)
      have hcount : column-1-(count : ℤ)=column-((count+1 : ℕ) : ℤ) := by
        push_cast
        ring
      rw [hcount] at hge hstart
      refine ⟨⟨hge,by omega⟩,fun i hi hi' => ?_,hstart⟩
      rcases hi'.lt_or_eq with hlt | rfl
      · exact hcontinues i hi (by omega)
      · exact hvalue
    · exact ⟨⟨by omega,le_rfl⟩,fun i hi hi' => absurd hi' (not_le.mpr hi),Or.inr hvalue⟩

end

section

variable {term : GuacTerminal} {row column : ℤ}

theorem allWhole_bufferRow (h : RowsWhole term.buffer) (row : ℤ) :
    (term.bufferRow row).AllWhole := (h.getRow row 0).bufferRow row

/-- Characters are those of the scrollback. -/
theorem CharacterAt.of_buffer {term' : GuacTerminal} {first last : ℤ}
    (h : CharacterAt term row column first last) (hbuffer : term'.buffer=term.buffer) :
    CharacterAt term' row column first last := by
  obtain ⟨hoccupies,hfirst,hlast⟩ := h
  refine ⟨?_,hfirst,hlast⟩
  unfold GuacTerminal.bufferRow at hoccupies ⊢
  rw [hbuffer]
  exact hoccupies

/-- guac_terminal_find_char finds the character that has a column. -/
theorem characterAt_findChar (h : RowsWhole term.buffer) (row : ℤ) (hcolumn : 0≤column) :
    CharacterAt term row column (guacTerminalFindChar term row column).1
      ((guacTerminalFindChar term row column).1+(guacTerminalFindChar term row column).2-1) := by
  have hwhole := allWhole_bufferRow h row
  unfold guacTerminalFindChar
  dsimp only
  split_ifs with hin hvalue
  · obtain ⟨⟨hge,hle⟩,hcontinues,-⟩ :=
      findStart_spec (term.bufferRow row).characters column.toNat column
    generalize findStart (term.bufferRow row).characters column.toNat column=start at *
    have hshape : (term.bufferRow row).shape start=
        some ((term.bufferRow row).characters start).width := begins_of_ne hvalue
    obtain ⟨hpos,-,-,hends⟩ := hwhole.whole start _ (by omega) (by omega) hshape
    refine ⟨⟨by omega,?_⟩,hle,?_⟩
    · rw [if_pos (by omega),hshape]
      congr 1
      omega
    · by_contra hlast
      refine hends (by omega) ?_
      unfold BufferRow.shape TerminalChar.begins
      rw [if_pos (hcontinues _ (by omega) (by omega))]
  · obtain ⟨⟨hge,hle⟩,-,hstart⟩ :=
      findStart_spec (term.bufferRow row).characters column.toNat column
    rcases hstart with heq | hne
    · have hzero : findStart (term.bufferRow row).characters column.toNat column=0 := by omega
      rw [hzero,not_not] at hvalue
      refine absurd ?_ (hwhole.begins (by omega))
      unfold BufferRow.shape TerminalChar.begins
      rw [if_pos hvalue]
    · exact absurd hne hvalue
  · exact ⟨⟨hcolumn,by rw [if_neg hin]; omega⟩,le_rfl,by omega⟩

/-- A column has only one character. -/
theorem CharacterAt.unique {first last first' last' : ℤ}
    (h : CharacterAt term row column first last) (h' : CharacterAt term row column first' last')
    (hwhole : RowsWhole term.buffer) : first=first' ∧ last=last' :=
  h.occupies.eq_of_overlap h'.occupies (allWhole_bufferRow hwhole row)
    (h.first_le.trans h'.le_last) (h'.first_le.trans h.le_last)

end

/-! ## Runs of selections -/

/-- What selects text. The columns are columns of the screen, and the rows may be in the
scrollback. -/
inductive SelectOp
  | start (row : ℤ) (column : ℕ)
  | update (row : ℤ) (column : ℕ)
  | resume (row : ℤ) (column : ℕ)

/-- A terminal, the position that its selection is anchored at, and the latest position that
it was updated or resumed to. -/
structure SelectionState where
  term : GuacTerminal
  anchorRow : ℤ
  anchorColumn : ℤ
  latestRow : ℤ
  latestColumn : ℤ

/-- The end of a range that guac_terminal_select_resume keeps. -/
def keptEnd (range : NormalizedRange) (row column : ℤ) : ℤ×ℤ :=
  if row > range.startRow ∨ row=range.startRow ∧ column > range.startCol then
    (range.startRow,range.startCol)
  else (range.endRow,range.endCol)

/-- A selection is started, updated, or resumed if there is one. -/
def selectStep : SelectOp→SelectionState→SelectionState
  | .start row column, s =>
    ⟨guacTerminalSelectStart s.term row column,row,column,row,column⟩
  | .update row column, s =>
    { s with
      term := guacTerminalSelectUpdate s.term row column
      latestRow := row
      latestColumn := column }
  | .resume row column, s =>
    if s.term.textSelected then
      let kept := keptEnd (guacTerminalSelectNormalizedRange s.term) row column
      ⟨guacTerminalSelectResume s.term row column,kept.1,kept.2,row,column⟩
    else { s with term := guacTerminalSelectResume s.term row column }

/-- A range has all columns of a character. -/
structure NormalizedRange.Contains (range : NormalizedRange) (row first last : ℤ) : Prop where
  start : range.startRow<row ∨ range.startRow=row ∧ range.startCol≤first
  finish : row<range.endRow ∨ row=range.endRow ∧ last≤range.endCol

section

variable (s : SelectionState)

/-- The range of the selection. -/
abbrev SelectionState.range : NormalizedRange := guacTerminalSelectNormalizedRange s.term

/-- A character is the one that the selection is anchored at, or the one at its latest
position. -/
def SelectionState.Selects (row first last : ℤ) : Prop :=
  row=s.anchorRow ∧ CharacterAt s.term row s.anchorColumn first last ∨
    row=s.latestRow ∧ CharacterAt s.term row s.latestColumn first last

/-- The range goes from the first column of a character to the last column of a character,
and contains those of the anchor and of the latest position. -/
structure FallsOnCharacters : Prop where
  begins : ∃ last, Occupies (s.term.bufferRow s.range.startRow) s.range.startCol last
  ends : ∃ first, Occupies (s.term.bufferRow s.range.endRow) first s.range.endCol
  contains : ∀ row first last, s.Selects row first last → s.range.Contains row first last

/-- The range goes from one of the two characters to the other and contains no more. -/
structure SpansCharacters : Prop where
  begins : ∃ last, s.Selects s.range.startRow s.range.startCol last
  ends : ∃ first, s.Selects s.range.endRow first s.range.endCol
  contains : ∀ row first last, s.Selects row first last → s.range.Contains row first last

/-- The stored start fits the character that it is anchored at, on the side that is used:
if it comes before the character at a position, it has the first column, and otherwise
the last column follows from its width. -/
def StartFits (term : GuacTerminal) (anchorColumn row column : ℤ) : Prop :=
  ∀ first last, CharacterAt term term.selectionStartRow anchorColumn first last →
    if term.selectionStartRow<row ∨ term.selectionStartRow=row ∧
        term.selectionStartColumn<(guacTerminalFindChar term row column).1 then
      term.selectionStartColumn=first
    else term.selectionStartColumn+term.selectionStartWidth-1=last

/-- The start of the selection fits its character where a selection is updated or resumed. -/
def SelectFits : SelectOp→SelectionState→Prop
  | .start _ _, _ => True
  | .update row column, s => StartFits s.term s.anchorColumn row column
  | .resume row column, s => s.term.textSelected=true →
    StartFits (resumeStart s.term row column) (keptEnd s.range row column).2 row column

/-- What the fields of a selection always are, in a scrollback of whole characters: the start
is within the character that it is anchored at, and the end is the character at the
latest position. -/
structure Placed : Prop where
  whole : RowsWhole s.term.buffer
  startRow : s.term.selectionStartRow=s.anchorRow
  start : ∃ first last, CharacterAt s.term s.anchorRow s.anchorColumn first last ∧
    first ≤ s.term.selectionStartColumn ∧ s.term.selectionStartColumn≤last
  startWidth : 1 ≤ s.term.selectionStartWidth
  endRow : s.term.selectionEndRow=s.latestRow
  finish : CharacterAt s.term s.latestRow s.latestColumn s.term.selectionEndColumn
    (s.term.selectionEndColumn+s.term.selectionEndWidth-1)

end

variable {s : SelectionState}

theorem SpansCharacters.falls (h : SpansCharacters s) : FallsOnCharacters s := by
  obtain ⟨⟨last,hbegins⟩,⟨first,hends⟩,hcontains⟩ := h
  refine ⟨⟨last,?_⟩,⟨first,?_⟩,hcontains⟩
  · rcases hbegins with ⟨-,hcharacter⟩ | ⟨-,hcharacter⟩ <;> exact hcharacter.occupies
  · rcases hends with ⟨-,hcharacter⟩ | ⟨-,hcharacter⟩ <;> exact hcharacter.occupies

/-- There are only the two characters. -/
theorem selects_iff {first last first' last' : ℤ} (hwhole : RowsWhole s.term.buffer)
    (hanchor : CharacterAt s.term s.anchorRow s.anchorColumn first last)
    (hlatest : CharacterAt s.term s.latestRow s.latestColumn first' last') (row column end' : ℤ) :
    s.Selects row column end' ↔ (row=s.anchorRow ∧ column=first ∧ end' = last) ∨
      row=s.latestRow ∧ column=first' ∧ end' = last' := by
  unfold SelectionState.Selects
  constructor
  · rintro (⟨rfl,h⟩ | ⟨rfl,h⟩)
    · exact Or.inl ⟨rfl,h.unique hanchor hwhole⟩
    · exact Or.inr ⟨rfl,h.unique hlatest hwhole⟩
  · rintro (⟨rfl,rfl,rfl⟩ | ⟨rfl,rfl,rfl⟩)
    · exact Or.inl ⟨rfl,hanchor⟩
    · exact Or.inr ⟨rfl,hlatest⟩

/-- The side on which the start has to fit its character is that of the range. -/
theorem startFits_iff (h : Placed s) {first last : ℤ}
    (hanchor : CharacterAt s.term s.anchorRow s.anchorColumn first last) :
    StartFits s.term s.anchorColumn s.latestRow s.latestColumn ↔
      if s.term.selectionStartRow<s.term.selectionEndRow ∨
          s.term.selectionStartRow=s.term.selectionEndRow ∧
            s.term.selectionStartColumn<s.term.selectionEndColumn then
        s.term.selectionStartColumn=first
      else s.term.selectionStartColumn+s.term.selectionStartWidth-1=last := by
  have hend := ((characterAt_findChar h.whole s.latestRow
    (h.finish.occupies.nonneg.trans h.finish.first_le)).unique h.finish h.whole).1
  unfold StartFits
  rw [hend,h.endRow,h.startRow]
  refine ⟨fun h => h first last hanchor,fun hfits first' last' hanchor' => ?_⟩
  obtain ⟨rfl,rfl⟩ := hanchor'.unique hanchor h.whole
  exact hfits

/-- The selection spans its two characters exactly if its start fits the one that it is
anchored at. -/
theorem spansCharacters_iff (h : Placed s) :
    SpansCharacters s ↔ StartFits s.term s.anchorColumn s.latestRow s.latestColumn := by
  have hplaced := h
  obtain ⟨hwhole,hstartRow,⟨first,last,hanchor,hfirst,hlast⟩,hwidth,hendRow,hlatest⟩ := h
  have hselects := selects_iff hwhole hanchor hlatest
  have hsame : s.anchorRow=s.latestRow → first ≤ s.term.selectionEndColumn+
      s.term.selectionEndWidth-1 → s.term.selectionEndColumn≤last →
      first=s.term.selectionEndColumn ∧
        last=s.term.selectionEndColumn+s.term.selectionEndWidth-1 := fun hrow =>
    hanchor.occupies.eq_of_overlap (hrow ▸ hlatest.occupies) (allWhole_bufferRow hwhole _)
  have hle := hlatest.first_le.trans hlatest.le_last
  rw [startFits_iff hplaced hanchor]
  split_ifs with hbefore
  · have hrange : s.range=⟨s.term.selectionStartRow,s.term.selectionStartColumn,
        s.term.selectionEndRow,s.term.selectionEndColumn+s.term.selectionEndWidth-1⟩ :=
      if_pos hbefore
    constructor
    · intro h
      obtain ⟨last',hbegins⟩ := h.begins
      rw [hselects,hrange] at hbegins
      dsimp only at hbegins
      omega
    · intro hfit
      refine ⟨⟨last,(hselects _ _ _).mpr ?_⟩,⟨s.term.selectionEndColumn,(hselects _ _ _).mpr ?_⟩,
        fun row column end' hcharacter => ?_⟩
      · rw [hrange]
        exact Or.inl ⟨hstartRow,hfit,rfl⟩
      · rw [hrange]
        exact Or.inr ⟨hendRow,rfl,rfl⟩
      · rw [hselects] at hcharacter
        rw [hrange]
        constructor <;> dsimp only <;> omega
  · have hrange : s.range=⟨s.term.selectionEndRow,s.term.selectionEndColumn,
        s.term.selectionStartRow,
        s.term.selectionStartColumn+s.term.selectionStartWidth-1⟩ := if_neg hbefore
    constructor
    · intro h
      obtain ⟨first',hends⟩ := h.ends
      have hcontains := (h.contains _ _ _ ((hselects _ _ _).mpr (Or.inl ⟨rfl,rfl,rfl⟩))).finish
      rw [hselects,hrange] at hends
      rw [hrange] at hcontains
      dsimp only at hends hcontains
      omega
    · intro hfit
      refine ⟨⟨s.term.selectionEndColumn+s.term.selectionEndWidth-1,
        (hselects _ _ _).mpr ?_⟩,⟨first,(hselects _ _ _).mpr ?_⟩,
        fun row column end' hcharacter => ?_⟩
      · rw [hrange]
        exact Or.inr ⟨hendRow,rfl,rfl⟩
      · rw [hrange]
        exact Or.inl ⟨hstartRow,rfl,hfit⟩
      · rw [hselects] at hcharacter
        rw [hrange]
        constructor <;> dsimp only <;> omega

/-! ## Steps -/

/-- What updating a selection leaves alone. -/
theorem selectUpdate_keeps (term : GuacTerminal) (row column : ℤ) :
    (guacTerminalSelectUpdate term row column).buffer=term.buffer ∧
      (guacTerminalSelectUpdate term row column).selectionStartRow=term.selectionStartRow ∧
      (guacTerminalSelectUpdate term row column).selectionStartColumn=term.selectionStartColumn ∧
      (guacTerminalSelectUpdate term row column).selectionStartWidth=term.selectionStartWidth := by
  unfold guacTerminalSelectUpdate
  split_ifs <;> exact ⟨rfl,rfl,rfl,rfl⟩

theorem placed_start (hwhole : RowsWhole s.term.buffer) (row : ℤ) (column : ℕ) :
    Placed (selectStep (.start row column) s) := by
  have hfound := characterAt_findChar hwhole row (Int.natCast_nonneg column)
  have hle := hfound.first_le.trans hfound.le_last
  have hfound' := hfound.of_buffer
    (rfl : (guacTerminalSelectStart s.term row column).buffer=s.term.buffer)
  refine ⟨hwhole,rfl,⟨_,_,hfound',le_rfl,hle⟩,?_,rfl,hfound'⟩
  show 1≤(guacTerminalFindChar s.term row column).2
  omega

theorem Placed.update (h : Placed s) (row : ℤ) (column : ℕ) :
    Placed { s with
      term := guacTerminalSelectUpdate s.term row column
      latestRow := row
      latestColumn := column } := by
  obtain ⟨hwhole,hstartRow,⟨first,last,hanchor,hstart⟩,hwidth,hendRow,hlatest⟩ := h
  have hbuffer := (selectUpdate_keeps s.term row column).1
  have hanchor' := hanchor.of_buffer hbuffer
  unfold guacTerminalSelectUpdate at hbuffer hanchor' ⊢
  split_ifs at hbuffer hanchor' ⊢ with hchanged
  · have hfound := characterAt_findChar hwhole row (Int.natCast_nonneg column)
    exact ⟨hwhole,hstartRow,⟨first,last,hanchor',hstart⟩,hwidth,rfl,hfound.of_buffer hbuffer⟩
  · have hrow : s.latestRow=row := by omega
    have hoccupies := hlatest.occupies
    rw [hrow] at hoccupies
    exact ⟨hwhole,hstartRow,⟨first,last,hanchor',hstart⟩,hwidth,hendRow.trans hrow,
      ⟨hoccupies,by dsimp only; omega,by dsimp only; omega⟩⟩

/-- The end that is kept is a column of the screen. -/
theorem Placed.keptEnd_nonneg (h : Placed s) (row column : ℤ) :
    0≤(keptEnd s.range row column).2 := by
  obtain ⟨-,-,⟨first,last,hanchor,hfirst,-⟩,hwidth,-,hlatest⟩ := h
  have hfirst' := hanchor.occupies.nonneg
  have hlatest' := hlatest.occupies.nonneg
  have hle := hlatest.first_le.trans hlatest.le_last
  unfold keptEnd SelectionState.range guacTerminalSelectNormalizedRange
  split_ifs <;> dsimp only <;> omega

theorem resumeStart_keeps (term : GuacTerminal) (row column : ℤ) :
    resumeStart term row column = { term with
      selectionStartRow := (keptEnd (guacTerminalSelectNormalizedRange term) row column).1
      selectionStartColumn := (keptEnd (guacTerminalSelectNormalizedRange term) row column).2
      selectionCommitted := false } := by
  unfold resumeStart keptEnd
  dsimp only
  split_ifs <;> rfl

theorem Placed.resumeStart (h : Placed s) (row column : ℤ) :
    Placed { s with
      term := resumeStart s.term row column
      anchorRow := (keptEnd s.range row column).1
      anchorColumn := (keptEnd s.range row column).2 } := by
  have hfound := characterAt_findChar h.whole (keptEnd s.range row column).1
    (h.keptEnd_nonneg row column)
  rw [resumeStart_keeps]
  exact ⟨h.whole,rfl,⟨_,_,hfound.of_buffer rfl,hfound.first_le,hfound.le_last⟩,
    h.startWidth,h.endRow,h.finish.of_buffer rfl⟩

/-- The end of a selection does not matter to what its start fits. -/
theorem startFits_update (term : GuacTerminal) (anchorColumn row column : ℤ) :
    StartFits (guacTerminalSelectUpdate term row column) anchorColumn row column ↔
      StartFits term anchorColumn row column := by
  obtain ⟨hbuffer,hrow,hcolumn,hwidth⟩ := selectUpdate_keeps term row column
  have hfind : guacTerminalFindChar (guacTerminalSelectUpdate term row column) row column=
      guacTerminalFindChar term row column := by
    unfold guacTerminalFindChar GuacTerminal.bufferRow
    rw [hbuffer]
  unfold StartFits
  rw [hfind,hrow,hcolumn,hwidth]
  exact forall₂_congr fun first last => imp_congr
    ⟨fun h => h.of_buffer hbuffer.symm,fun h => h.of_buffer hbuffer⟩ Iff.rfl

/-- A selection that is started spans a character. -/
theorem spansCharacters_start (hwhole : RowsWhole s.term.buffer) (row : ℤ) (column : ℕ) :
    SpansCharacters (selectStep (.start row column) s) := by
  have hplaced := placed_start hwhole row column
  refine (spansCharacters_iff hplaced).mpr fun first last hcharacter => ?_
  obtain ⟨rfl,rfl⟩ := hcharacter.unique hplaced.finish hwhole
  rw [if_neg]
  · rfl
  · rintro (hlt | ⟨-,hlt⟩) <;> exact absurd hlt (lt_irrefl _)

/-- A step leaves the fields of a selection what they are, and from a selection that spans
its characters it leads to one that does exactly if the start fits. -/
theorem Placed.step (h : Placed s) (op : SelectOp) (hspans : SpansCharacters s) :
    Placed (selectStep op s) ∧ (SpansCharacters (selectStep op s) ↔ SelectFits op s) := by
  cases op with
  | start row column =>
    exact ⟨placed_start h.whole row column,
      iff_of_true (spansCharacters_start h.whole row column) trivial⟩
  | update row column =>
    have hplaced := h.update row column
    exact ⟨hplaced,(spansCharacters_iff hplaced).trans (startFits_update ..)⟩
  | resume row column =>
    unfold selectStep
    dsimp only
    by_cases hselected : s.term.textSelected=true
    · have hplaced := (h.resumeStart row column).update row column
      have hresumed : guacTerminalSelectResume s.term row column=
          guacTerminalSelectUpdate (Terminal.resumeStart s.term row column) row column := by
        rw [guacTerminalSelectResume,hselected]
        rfl
      rw [if_pos hselected,hresumed]
      refine ⟨hplaced,(spansCharacters_iff hplaced).trans ((startFits_update ..).trans ?_)⟩
      exact ⟨fun hfits _ => hfits,fun hfits => hfits hselected⟩
    · have hresumed : guacTerminalSelectResume s.term row column=s.term := by
        rw [guacTerminalSelectResume,Bool.eq_false_iff.mpr hselected]
        rfl
      rw [if_neg hselected,hresumed]
      exact ⟨h,iff_of_true hspans fun hselected' => absurd hselected' hselected⟩

/-- From the start of a selection on, the range falls on whole characters in every state of a
run if each update and resumption finds a start that fits the character which the
selection is anchored at, and exactly then it contains no more than from one of the two
characters to the other. -/
theorem selection_falls_on_characters (term : GuacTerminal) (hwhole : RowsWhole term.buffer)
    (row : ℤ) (column : ℕ) (ops : List SelectOp) :
    let step := fun op s => some (selectStep op s)
    let started := selectStep (.start row column) ⟨term,0,0,0,0⟩
    (Along step SelectFits ops started→∀ made, made <+: ops→∀ visited,
      run step made started=some visited→FallsOnCharacters visited) ∧
    ((∀ made, made <+: ops→∀ visited, run step made started=some visited →
      SpansCharacters visited) ↔ Along step SelectFits ops started) := by
  intro step started
  have hplaced : Placed started := placed_start hwhole row column
  have hspans : SpansCharacters started := spansCharacters_start hwhole row column
  have hiff := visits_iff_along (P := SelectFits)
    (G := fun s => Placed s ∧ SpansCharacters s) (I := SpansCharacters) And.right
    (fun op s => (rfl : (step op s).isSome))
    (fun {op s s'} hgood hfits hnext => by
      cases hnext
      have hstep := hgood.1.step op hgood.2
      exact ⟨hstep.1,hstep.2.mpr hfits⟩)
    (fun {op s s'} hgood hnext hspans => by
      cases hnext
      exact (hgood.1.step op hgood.2).2.mp hspans) ops ⟨hplaced,hspans⟩
  exact ⟨fun halong made hmade visited hrun =>
    (hiff.mpr halong made hmade visited hrun).falls,hiff⟩

/-- A row of a character of two columns and four letters. -/
def wideCells (attributes : Attributes) (column : ℤ) : TerminalChar :=
  if column=0 then ⟨0x4E00,attributes,2⟩
  else if column=1 then ⟨charContinuation,attributes,0⟩
  else ⟨65,attributes,1⟩

/-- A terminal with such a row. -/
def wideRow : GuacTerminal :=
  let term := guacTerminalAlloc consoleMemory consoleSettings 80 48
  { term with buffer := { term.buffer with
      rows := update term.buffer.rows 0 ⟨wideCells term.currentAttributes,6,256⟩
      length := 1 } }

theorem rowsWhole_wideRow : RowsWhole wideRow.buffer := by
  refine ⟨fun i => ?_,rfl⟩
  show BufferRow.AllWhole (update (β := fun _ => BufferRow) _ 0 _ i)
  rcases eq_or_ne i 0 with rfl | hi
  · rw [update_self]
    have hother : ∀ attributes column, column≠0 → column≠1 →
        (wideCells attributes column).begins=some 1 := by
      intro attributes column hzero hone
      unfold wideCells
      rw [if_neg hzero,if_neg hone]
      rfl
    refine ⟨fun _ => Option.some_ne_none _,fun column width hnonneg hlt hshape => ?_⟩
    dsimp only at hlt
    by_cases hzero : column=0
    · subst hzero
      obtain rfl := Option.some.inj hshape
      refine ⟨by decide,by decide,fun j hj hj' => ?_,fun _ => Option.some_ne_none _⟩
      obtain rfl : j=1 := by
        have hend : j<0+2 := hj'
        omega
      rfl
    · by_cases hone : column=1
      · subst hone
        cases hshape
      · unfold BufferRow.shape at hshape
        rw [hother _ _ hzero hone] at hshape
        obtain rfl := Option.some.inj hshape
        refine ⟨le_rfl,by dsimp only; omega,fun j hj hj' => by omega,fun _ => ?_⟩
        unfold BufferRow.shape
        rw [hother _ _ (by omega) (by omega)]
        exact Option.some_ne_none _
  · rw [update_of_ne hi]
    exact ⟨fun hlt => absurd hlt (lt_irrefl _),fun column _ hnonneg hlt =>
      absurd hlt (not_lt.mpr hnonneg)⟩

/-- From a letter back to the character of two columns. -/
theorem selection_falls_on_characters_wideRow : RowsWhole wideRow.buffer ∧
    ∀ made, made <+: [SelectOp.update 0 0]→∀ visited, run (fun op s => some (selectStep op s)) made
        (selectStep (.start 0 2) ⟨wideRow,0,0,0,0⟩)=some visited → FallsOnCharacters visited := by
  have hletter : CharacterAt wideRow 0 2 2 2 := ⟨⟨by decide,rfl⟩,le_rfl,le_rfl⟩
  refine ⟨rowsWhole_wideRow,(selection_falls_on_characters wideRow rowsWhole_wideRow 0 2
    [.update 0 0]).1 ⟨fun first last hcharacter => ?_,trivial⟩⟩
  have hfirst : CharacterAt wideRow 0 2 first last := hcharacter.of_buffer rfl
  obtain ⟨rfl,rfl⟩ := hfirst.unique hletter rowsWhole_wideRow
  decide

/-- A letter is selected, then back to the character of two columns, and the selection is
resumed beyond the letter and taken back: its range has only half of the character. -/
theorem not_fallsOnCharacters_resumed : RowsWhole wideRow.buffer ∧
    ¬FallsOnCharacters (selectStep (.update 0 0) (selectStep (.resume 0 5)
      (selectStep (.update 0 0) (selectStep (.start 0 2) ⟨wideRow,0,0,0,0⟩)))) := by
  refine ⟨rowsWhole_wideRow,fun h => ?_⟩
  have hwide := (h.contains 0 0 1 (Or.inr ⟨rfl,⟨⟨by decide,rfl⟩,le_rfl,by decide⟩⟩)).finish
  revert hwide
  decide

end GuacServer.Terminal
