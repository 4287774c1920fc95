import Mathlib.Algebra.Order.Ring.Int
import GuacServer.TerminalDisplay

/-!
# Accesses within the storage of a terminal

A row of the scrollback has storage for its cells, and its cells are
characters: those that are not continuations have a width. A copy is within its
array if its range, fitted to the array twice, is not inverted.
-/

namespace GuacServer.Terminal

open DecimalNumerals Function

/-! ## Ranges -/

theorem fit_mem {n : ℤ} (hn : 0<n) (value : ℤ) :
    0≤guacTerminalFitToRange value 0 (n-1) ∧ guacTerminalFitToRange value 0 (n-1)<n := by
  unfold guacTerminalFitToRange
  split_ifs <;> omega

theorem fit_eq {n value : ℤ} (h0 : 0≤value) (h1 : value<n) :
    guacTerminalFitToRange value 0 (n-1)=value := by
  unfold guacTerminalFitToRange
  split_ifs <;> omega

/-- An end of a range as the copies fit it: to the array, and again to where it is
copied to. -/
def copiedEnd (n offset value : ℤ) : ℤ :=
  guacTerminalFitToRange (wrap32 (guacTerminalFitToRange value 0 (n-1)+offset)) 0 (n-1) - offset

/-- The range that is copied is within the array, and not inverted. -/
def Copies (n first last offset : ℤ) : Prop :=
  copiedEnd n offset first≤copiedEnd n offset last+1 ∧
    Within (copiedEnd n offset first) (copiedEnd n offset last) n

/-- A range that moves down by a part of the array may start behind its last
element, or anywhere among those that it would move out of the array. -/
def MovesDown (n first last amount : ℤ) : Prop :=
  (0<amount ∧ amount<n) ∧ min (guacTerminalFitToRange first 0 (n-1)) (n-1-amount)≤
      guacTerminalFitToRange last 0 (n-1)+1

/-- Likewise for a range that moves up. -/
def MovesUp (n first last amount : ℤ) : Prop :=
  (0<amount ∧ amount<n) ∧ guacTerminalFitToRange first 0 (n-1)≤
      max (guacTerminalFitToRange last 0 (n-1)) amount+1

instance (n first last amount : ℤ) : Decidable (MovesDown n first last amount) :=
  inferInstanceAs (Decidable (_ ∧ _))

instance (n first last amount : ℤ) : Decidable (MovesUp n first last amount) :=
  inferInstanceAs (Decidable (_ ∧ _))

section

variable {n amount value : ℤ} (h0 : 0<amount) (h1 : amount<n) (hn : n<2^30)

include h0 h1 hn

theorem copiedEnd_down :
    copiedEnd n amount value=min (guacTerminalFitToRange value 0 (n-1)) (n-1-amount) := by
  have hfit := fit_mem (by omega : 0<n) value
  rw [copiedEnd,wrap32_of_range (by omega) (by omega)]
  generalize guacTerminalFitToRange value 0 (n-1)=fitted at *
  unfold guacTerminalFitToRange
  split_ifs <;> omega

theorem copiedEnd_up :
    copiedEnd n (-amount) value=max (guacTerminalFitToRange value 0 (n-1)) amount := by
  have hfit := fit_mem (by omega : 0<n) value
  rw [copiedEnd,wrap32_of_range (by omega) (by omega)]
  generalize guacTerminalFitToRange value 0 (n-1)=fitted at *
  unfold guacTerminalFitToRange
  split_ifs <;> omega

theorem copiedEnd_up_eq (hvalue : amount≤value) : copiedEnd n (-amount) value=min value (n-1) := by
  rw [copiedEnd_up h0 h1 hn]
  unfold guacTerminalFitToRange
  split_ifs <;> omega

end

theorem copies_of_movesDown {n first last amount : ℤ} (h : MovesDown n first last amount)
    (hn : n<2^30) : Copies n first last amount := by
  obtain ⟨⟨h0,h1⟩,hle⟩ := h
  have hfirst := fit_mem (by omega : 0<n) first
  have hlast := fit_mem (by omega : 0<n) last
  unfold Copies Within
  rw [copiedEnd_down h0 h1 hn,copiedEnd_down h0 h1 hn]
  omega

theorem copies_of_movesUp {n first last amount : ℤ} (h : MovesUp n first last amount)
    (hn : n<2^30) : Copies n first last (-amount) := by
  obtain ⟨⟨h0,h1⟩,hle⟩ := h
  have hfirst := fit_mem (by omega : 0<n) first
  have hlast := fit_mem (by omega : 0<n) last
  unfold Copies Within
  rw [copiedEnd_up h0 h1 hn,copiedEnd_up h0 h1 hn]
  omega

/-- What a copy writes is within the array in any case. -/
theorem copiedEnd_target {n : ℤ} (hn : 0<n) (offset value : ℤ) :
    0≤copiedEnd n offset value+offset ∧ copiedEnd n offset value+offset<n := by
  rw [copiedEnd,sub_add_cancel]
  exact fit_mem hn _

/-! ## Rows -/

/-- A character that is not a continuation has a width. -/
def CellOk (c : TerminalChar) : Prop := 0≤c.width ∧ (c.value≠charContinuation→1≤c.width)

/-- A row has storage for its cells, which are characters. -/
structure RowOk (bufferRow : BufferRow) : Prop where
  length_nonneg : 0≤bufferRow.length
  length_le : bufferRow.length≤bufferRow.available
  length_lt : bufferRow.length<2^30
  available_ge : 256≤bufferRow.available
  cells : ∀ i, 0 ≤ i → i<bufferRow.length→CellOk (bufferRow.characters i)

/-- A scrollback has rows, and no access was outside of them. -/
structure BufferOk (buffer : Buffer) : Prop where
  available_pos : 0<buffer.available
  rows : ∀ i, RowOk (buffer.rows i)
  default : CellOk buffer.defaultCharacter
  bounded : buffer.bounded=true

variable {buffer : Buffer}

theorem BufferOk.row (h : BufferOk buffer) (row : ℤ) : RowOk (buffer.row row) := h.rows _

theorem index_mem (h : 0<buffer.available) (row : ℤ) :
    0≤buffer.index row ∧ buffer.index row<buffer.available := by
  have hlt := Int.tmod_lt_of_pos (wrap32 (buffer.top+row)) h
  have hgt := Int.lt_tmod_of_pos (wrap32 (buffer.top+row)) h
  unfold Buffer.index
  dsimp only
  split_ifs <;> omega

theorem BufferOk.setRow (h : BufferOk buffer) {bufferRow : BufferRow} (hrow : RowOk bufferRow)
    (row : ℤ) : BufferOk (buffer.setRow row bufferRow) where
  available_pos := h.available_pos
  rows i := by
    unfold Buffer.setRow
    dsimp only
    rcases eq_or_ne i (buffer.index row) with rfl | hi
    · rw [update_self]
      exact hrow
    · rw [update_of_ne hi]
      exact h.rows i
  default := h.default
  bounded := h.bounded

theorem BufferOk.check (h : BufferOk buffer) {condition : Prop} [Decidable condition]
    (hcondition : condition) : BufferOk (buffer.check condition) where
  available_pos := h.available_pos
  rows := h.rows
  default := h.default
  bounded := by
    unfold Buffer.check
    rw [h.bounded,decide_eq_true hcondition,Bool.and_self]

/-- The row that was replaced. -/
theorem row_setRow (buffer : Buffer) (row : ℤ) (bufferRow : BufferRow) :
    (buffer.setRow row bufferRow).row row=bufferRow :=
  update_self ..

/-- A row that gets longer still has storage, of which none is lost. -/
theorem RowOk.expand {bufferRow : BufferRow} (h : RowOk bufferRow) {character : TerminalChar}
    (hc : CellOk character) {width : ℤ} (hwidth : width<2^30) :
    RowOk (bufferRow.expand character width) := by
  have hge := h.available_ge
  have hnonneg := h.length_nonneg
  have hlt := h.length_lt
  unfold BufferRow.expand
  split_ifs with hlong hmore
  · refine ⟨by dsimp only; omega,?_,hwidth,?_,?_⟩
    · dsimp only
      rw [wrap32_of_range (by omega) (by omega)]
      omega
    · dsimp only
      rw [wrap32_of_range (by omega) (by omega)]
      omega
    · intro i h0 h1
      dsimp only at h1 ⊢
      split_ifs with hnew
      · exact hc
      · exact h.cells i h0 (by omega)
  · refine ⟨by dsimp only; omega,by dsimp only; omega,hwidth,hge,?_⟩
    intro i h0 h1
    dsimp only at h1 ⊢
    split_ifs with hnew
    · exact hc
    · exact h.cells i h0 (by omega)
  · exact h

theorem expand_length (bufferRow : BufferRow) (character : TerminalChar) (width : ℤ) :
    (bufferRow.expand character width).length=max bufferRow.length width := by
  unfold BufferRow.expand
  split
  case isTrue hlong => exact (max_eq_right hlong).symm
  case isFalse hlong => exact (max_eq_left (not_le.mp hlong).le).symm

section

variable {bufferRow : BufferRow} (h : RowOk bufferRow) (character : TerminalChar) {width : ℤ}

include h character

theorem RowOk.available_le_expand (hwidth : width<2^30) :
    bufferRow.available≤(bufferRow.expand character width).available := by
  have hge := h.available_ge
  unfold BufferRow.expand
  split_ifs with hlong hmore
  · dsimp only
    rw [wrap32_of_range (by omega) (by omega)]
    omega
  · exact le_rfl
  · exact le_rfl

/-- A row that is expanded has more storage than it has to, unless it had just as
much before. -/
theorem RowOk.lt_expand (hlt : width<2^30) (hne : bufferRow.available≠width) :
    width<(bufferRow.expand character width).available := by
  have hge := h.available_ge
  have hle := h.length_le
  unfold BufferRow.expand
  split_ifs with hlong hmore
  · dsimp only
    rw [wrap32_of_range (by omega) (by omega)]
    omega
  · dsimp only
    omega
  · omega

/-- A row that lacks storage for the width gets twice as much. -/
theorem RowOk.expand_available (hlt : width<2^30) (hmore : bufferRow.available<width) :
    (bufferRow.expand character width).available=width*2 := by
  have hge := h.available_ge
  have hle := h.length_le
  unfold BufferRow.expand
  rw [if_pos (by omega)]
  dsimp only
  rw [if_pos hmore,wrap32_of_range (by omega) (by omega)]

end

/-- A row that has storage for the width has the same storage afterwards. -/
theorem expand_available_eq {bufferRow : BufferRow} {width : ℤ}
    (hwidth : width≤bufferRow.available) (character : TerminalChar) :
    (bufferRow.expand character width).available=bufferRow.available := by
  unfold BufferRow.expand
  split
  · exact if_neg (not_lt.mpr hwidth)
  · rfl

theorem row_getRow (buffer : Buffer) (row width : ℤ) :
    (guacTerminalBufferGetRow buffer row width).row row=
      (buffer.row row).expand buffer.defaultCharacter width := by
  show (buffer.setRow row ((buffer.row row).expand buffer.defaultCharacter width)).row row=_
  exact row_setRow ..

theorem BufferOk.getRow (h : BufferOk buffer) (row : ℤ) {width : ℤ} (hwidth : width<2^30) :
    BufferOk (guacTerminalBufferGetRow buffer row width) := by
  have hrow := (h.row row).expand h.default hwidth
  have hlength := (h.row row).length_nonneg
  have hle := hrow.length_le
  refine ((h.setRow hrow row).check ?_).check ?_
  · exact fun _ => index_mem h.available_pos row
  · exact fun _ => ⟨hlength,by omega⟩

theorem getRow_length (buffer : Buffer) (row width : ℤ) :
    ((guacTerminalBufferGetRow buffer row width).row row).length=
      max (buffer.row row).length width := by
  rw [row_getRow,expand_length]

/-- No row gets shorter. -/
theorem getRow_length_le (buffer : Buffer) (row width row' : ℤ) :
    (buffer.row row').length≤((guacTerminalBufferGetRow buffer row width).row row').length := by
  show _ ≤ (update buffer.rows (buffer.index row) _ (buffer.index row')).length
  rcases eq_or_ne (buffer.index row') (buffer.index row) with heq | hne
  · rw [heq,update_self,expand_length,Buffer.row,heq]
    exact le_max_left ..
  · rw [update_of_ne hne]
    exact le_rfl

/-! ## Operations on the scrollback -/

variable {startColumn endColumn : ℤ}

/-- Cells that are copied within a row are characters still. -/
theorem BufferOk.copyColumns (h : BufferOk buffer) {row offset : ℤ}
    (hwidth : wrap32 (endColumn+offset+1)<2^30)
    (hpos : 0 < max (buffer.row row).length (wrap32 (endColumn+offset+1)))
    (hcopies : Copies (max (buffer.row row).length (wrap32 (endColumn+offset+1)))
      startColumn endColumn offset) :
    BufferOk (guacTerminalBufferCopyColumns buffer row startColumn endColumn offset) := by
  have hgot := h.getRow row hwidth
  have hlength := getRow_length buffer row (wrap32 (endColumn+offset+1))
  unfold guacTerminalBufferCopyColumns
  dsimp only
  generalize guacTerminalBufferGetRow buffer row (wrap32 (endColumn+offset+1))=got at *
  rw [←hlength] at hcopies hpos
  obtain ⟨hnot,hsource⟩ := hcopies
  have hfirst := copiedEnd_target hpos offset startColumn
  have hlast := copiedEnd_target hpos offset endColumn
  have hrow := hgot.row row
  have hle := hrow.length_le
  refine ((hgot.setRow ?_ row).check hnot).check ⟨fun hrange => ?_,fun hrange => ?_⟩
  · refine ⟨hrow.length_nonneg,hle,hrow.length_lt,hrow.available_ge,fun i h0 h1 => ?_⟩
    dsimp only at h1 ⊢
    split_ifs with hcopied
    · have hbounds := hsource (by unfold copiedEnd; omega)
      exact hrow.cells _ (by unfold copiedEnd at hbounds; omega)
        (by unfold copiedEnd at hbounds; omega)
    · exact hrow.cells i h0 h1
  · exact ⟨(hsource hrange).1,(hsource hrange).2.trans_le hle⟩
  · exact ⟨hfirst.1,hlast.2.trans_le hle⟩

/-- The row in which cells are copied has the range that they are copied to. -/
theorem copyColumns_row (buffer : Buffer) (row startColumn endColumn offset : ℤ) :
    ((guacTerminalBufferCopyColumns buffer row startColumn endColumn offset).row row).length=
        max (buffer.row row).length (wrap32 (endColumn+offset+1)) ∧
      ((guacTerminalBufferCopyColumns buffer row startColumn endColumn offset).row row).available=
        ((buffer.row row).expand buffer.defaultCharacter
          (wrap32 (endColumn+offset+1))).available := by
  rw [←getRow_length,←row_getRow]
  unfold guacTerminalBufferCopyColumns
  dsimp only
  generalize guacTerminalBufferGetRow buffer row (wrap32 (endColumn+offset+1))=got
  show ((got.setRow row _).row row).length=(got.row row).length ∧
    ((got.setRow row _).row row).available=(got.row row).available
  rw [row_setRow]
  exact ⟨rfl,rfl⟩

/-- A row that is copied has as many cells as the other. -/
theorem BufferOk.copyRow (h : BufferOk buffer) (row offset : ℤ) :
    BufferOk (buffer.copyRow row offset) := by
  have hgot := h.getRow row (by decide : (0 : ℤ)<2^30)
  unfold Buffer.copyRow
  dsimp only
  generalize guacTerminalBufferGetRow buffer row 0=got at *
  have hsource := hgot.row row
  have htargets := hgot.getRow (wrap32 (row+offset)) hsource.length_lt
  have hlength := getRow_length got (wrap32 (row+offset)) (got.row row).length
  generalize guacTerminalBufferGetRow got (wrap32 (row+offset)) (got.row row).length=target at *
  have htarget := htargets.row (wrap32 (row+offset))
  have hle := htarget.length_le
  refine (htargets.setRow ?_ (wrap32 (row+offset))).check ⟨fun _ => ?_,fun _ => ?_⟩
  · refine ⟨hsource.length_nonneg,?_,hsource.length_lt,htarget.available_ge,fun i h0 h1 => ?_⟩
    · dsimp only
      omega
    · dsimp only at h1 ⊢
      rw [if_pos ⟨h0,h1⟩]
      exact hsource.cells i h0 h1
  · have hsourceLe := hsource.length_le
    omega
  · omega

theorem BufferOk.copyRowsFrom (offset step : ℤ) (count : ℕ) (row : ℤ) {buffer : Buffer}
    (h : BufferOk buffer) : BufferOk (Buffer.copyRowsFrom offset step count row buffer) := by
  induction count generalizing row buffer with
  | zero => exact h
  | succ count ih => exact ih _ (h.copyRow row offset)

/-- Rows may be copied wherever they are: the ring has a row for each index. -/
theorem BufferOk.copyRows (h : BufferOk buffer) (startRow endRow offset : ℤ) :
    BufferOk (guacTerminalBufferCopyRows buffer startRow endRow offset) := by
  unfold guacTerminalBufferCopyRows
  dsimp only
  split
  · exact BufferOk.copyRowsFrom offset (-1) _ endRow h
  · exact BufferOk.copyRowsFrom offset 1 _ startRow h

/-- Nothing is written to an empty range. -/
theorem lastWritten_lt {width : ℤ} (hwidth : 1≤width) (hempty : endColumn<startColumn) :
    lastWritten startColumn endColumn width<startColumn := by
  have hneg : (endColumn-startColumn)/width<0 := Int.ediv_neg_of_neg_of_pos (by omega) (by omega)
  have hmul : ((endColumn-startColumn)/width+1)*width≤0 :=
    mul_nonpos_of_nonpos_of_nonneg (by omega) (by omega)
  unfold lastWritten
  omega

/-- A character of one column is written to the columns of the range. -/
theorem lastWritten_one (startColumn endColumn : ℤ) :
    lastWritten startColumn endColumn 1=endColumn := by
  unfold lastWritten
  rw [Int.ediv_one]
  omega

/-- A character is written once to a range that is not longer. -/
theorem lastWritten_once {width : ℤ} (hle : startColumn≤endColumn)
    (hlt : endColumn<startColumn+width) :
    lastWritten startColumn endColumn width=startColumn+width-1 := by
  unfold lastWritten
  rw [Int.ediv_eq_zero_of_lt (by omega) (by omega)]
  omega

/-- A character that is written to a range of columns and has a width is written
within the row. -/
theorem BufferOk.setColumns (h : BufferOk buffer) {row : ℤ} {character : TerminalChar}
    (hend : -1≤endColumn) (hlast : endColumn<2^30-1) (hc : 1≤character.width)
    (hrange : startColumn≤endColumn→0 ≤ startColumn ∧
      lastWritten startColumn endColumn character.width<
        ((buffer.row row).expand buffer.defaultCharacter (endColumn+1)).available) :
    BufferOk (guacTerminalBufferSetColumns buffer row startColumn endColumn character) := by
  have hgot := h.getRow row (by omega : endColumn+1<2^30)
  unfold guacTerminalBufferSetColumns
  rw [if_neg (by omega)]
  dsimp only
  rw [wrap32_of_range (by omega) (by omega)]
  rw [←row_getRow] at hrange
  generalize guacTerminalBufferGetRow buffer row (endColumn+1)=got at *
  have hrow := hgot.row row
  refine BufferOk.check ?_ ⟨fun _ => hc,fun hle => hrange ?_⟩
  · refine ⟨hgot.available_pos,(hgot.setRow ?_ row).rows,hgot.default,hgot.bounded⟩
    refine ⟨hrow.length_nonneg,hrow.length_le,hrow.length_lt,hrow.available_ge,?_⟩
    intro i h0 h1
    dsimp only at h1 ⊢
    split_ifs with hwritten hfirst
    · exact ⟨by omega,fun _ => hc⟩
    · exact ⟨le_rfl,fun hvalue => (hvalue rfl).elim⟩
    · exact hrow.cells i h0 h1
  · by_contra hempty
    exact absurd hle (not_le.mpr (lastWritten_lt hc (not_le.mp hempty)))

/-- The row that is written to has the range. -/
theorem setColumns_row (buffer : Buffer) (row startColumn endColumn : ℤ) (character : TerminalChar)
    (hend : -1≤endColumn) (hlast : endColumn<2^30-1) (hc : 1≤character.width) :
    ((guacTerminalBufferSetColumns buffer row startColumn endColumn character).row row).length=
        max (buffer.row row).length (endColumn+1) ∧
      ((guacTerminalBufferSetColumns buffer row startColumn endColumn character).row row).available=
        ((buffer.row row).expand buffer.defaultCharacter (endColumn+1)).available := by
  unfold guacTerminalBufferSetColumns
  rw [if_neg (by omega)]
  dsimp only
  rw [wrap32_of_range (by omega) (by omega),←getRow_length,←row_getRow]
  generalize guacTerminalBufferGetRow buffer row (endColumn+1)=got
  show ((got.setRow row _).row row).length=(got.row row).length ∧
    ((got.setRow row _).row row).available=(got.row row).available
  rw [row_setRow]
  exact ⟨rfl,rfl⟩

/-! ## Operations on the display -/

/-- A display of a size, in which no access was outside of the grid. -/
structure DisplayOk (width height : ℤ) (display : Display) : Prop where
  width_eq : display.width=width
  height_eq : display.height=height
  bounded : display.bounded=true

variable {width height : ℤ} {display : Display}

theorem DisplayOk.check (h : DisplayOk width height display) {condition : Prop}
    [Decidable condition] (hcondition : condition) :
    DisplayOk width height (display.check condition) where
  width_eq := h.width_eq
  height_eq := h.height_eq
  bounded := by
    unfold Display.check
    rw [h.bounded,decide_eq_true hcondition,Bool.and_self]

/-- A character may be set anywhere: what is outside of the grid is left out. -/
theorem DisplayOk.setColumns (h : DisplayOk width height display) (hwidth : 0<width)
    (row startColumn endColumn : ℤ) {character : TerminalChar}
    (hc : character.width=0 ∨ 1≤character.width) :
    DisplayOk width height
      (guacTerminalDisplaySetColumns display row startColumn endColumn character) := by
  have hfirst := fit_mem (h.width_eq.symm ▸ hwidth : 0<display.width) startColumn
  have hlast := fit_mem (h.width_eq.symm ▸ hwidth : 0<display.width) endColumn
  unfold guacTerminalDisplaySetColumns
  split_ifs with hzero hrow
  · exact h
  · exact h
  · refine DisplayOk.check ?_ ⟨fun _ => ?_,fun _ => ?_⟩
    · exact ⟨h.width_eq,h.height_eq,h.bounded⟩
    · omega
    · exact ⟨hfirst.1,hlast.2⟩

/-- Columns of the display may be copied in range. -/
theorem DisplayOk.copyColumns (h : DisplayOk width height display) (hwidth : 0<width)
    {row offset : ℤ}
    (hcopies : 0≤row → row<height → Copies width startColumn endColumn offset) :
    DisplayOk width height
      (guacTerminalDisplayCopyColumns display row startColumn endColumn offset) := by
  unfold guacTerminalDisplayCopyColumns
  split_ifs with hrow
  · exact h
  · rw [not_or,not_lt,not_le,h.height_eq] at hrow
    have hfirst := copiedEnd_target hwidth offset startColumn
    have hlast := copiedEnd_target hwidth offset endColumn
    obtain ⟨hnot,hsource⟩ := hcopies hrow.1 hrow.2
    rw [←h.width_eq] at hnot hsource hfirst hlast
    refine DisplayOk.check (DisplayOk.check ?_ hnot) ⟨hsource,fun _ => ?_⟩
    · exact ⟨h.width_eq,h.height_eq,h.bounded⟩
    · exact ⟨hfirst.1,hlast.2⟩

/-- Rows of the display may be copied in range. -/
theorem DisplayOk.copyRows (h : DisplayOk width height display) (hheight : 0<height)
    {startRow endRow offset : ℤ} (hcopies : Copies height startRow endRow offset) :
    DisplayOk width height (guacTerminalDisplayCopyRows display startRow endRow offset) := by
  have hfirst := copiedEnd_target hheight offset startRow
  have hlast := copiedEnd_target hheight offset endRow
  obtain ⟨hnot,hsource⟩ := hcopies
  rw [←h.height_eq] at hnot hsource hfirst hlast
  refine DisplayOk.check (DisplayOk.check ?_ hnot) ⟨hsource,fun _ => ?_⟩
  · exact ⟨h.width_eq,h.height_eq,h.bounded⟩
  · exact ⟨hfirst.1,hlast.2⟩

end GuacServer.Terminal
