import GuacServer.SequentialCopies
import GuacServer.TerminalRows

/-!
# What the rows of a scrollback show

The rows of a terminal are in a ring, and what a row shows does not depend on
how much of it has been initialised. Rows that are copied one after another are
copies in the ring, and rows that are cleared show blanks.
-/

namespace GuacServer.Terminal

open DecimalNumerals Function List SequentialCopies

/-- What a row shows in a column. -/
def BufferRow.shown (bufferRow : BufferRow) (character : TerminalChar) (column : ℤ) :
    TerminalChar :=
  if 0≤column ∧ column<bufferRow.length then bufferRow.characters column else character

/-- What the rows of the ring show. -/
def Buffer.contents (buffer : Buffer) (index : ℤ) : ℤ→TerminalChar :=
  (buffer.rows index).shown buffer.defaultCharacter

variable {buffer : Buffer} {row row' : ℤ}

/-! ## The ring -/

/-- The rows from the first to the last have sums with the top of the ring that
are ints. -/
def Buffer.Reaches (buffer : Buffer) (first last : ℤ) : Prop :=
  -(2^31)≤buffer.top+first ∧ buffer.top+last<2^31

theorem index_eq_emod (havailable : 0<buffer.available) (hlow : -(2^31)≤buffer.top+row)
    (hhigh : buffer.top+row<2^31) :
    buffer.index row=(buffer.top+row)%buffer.available := by
  unfold Buffer.index
  rw [wrap32_of_range hlow hhigh]
  dsimp only
  have hnonneg := Int.emod_nonneg (buffer.top+row) havailable.ne'
  have hlt := Int.emod_lt_of_pos (buffer.top+row) havailable
  have habs : (buffer.available.natAbs : ℤ)=buffer.available := Int.natAbs_of_nonneg havailable.le
  rw [Int.tmod_eq_emod]
  by_cases hcase : 0≤buffer.top+row ∨ buffer.available ∣ buffer.top+row
  · rw [if_pos hcase,Nat.cast_zero,sub_zero,if_neg hnonneg.not_gt]
  · rw [if_neg hcase,habs,if_pos (by omega),sub_add_cancel]

/-- Rows that are less than a ring apart are different rows of it. -/
theorem index_inj (havailable : 0<buffer.available) (first last : ℤ)
    (hreaches : buffer.Reaches first last) (hring : last-first<buffer.available)
    (hrow : first≤row ∧ row≤last) (hrow' : first≤row' ∧ row' ≤ last)
    (h : buffer.index row=buffer.index row') : row=row' := by
  obtain ⟨hlow,hhigh⟩ := hreaches
  rw [index_eq_emod havailable (by omega) (by omega),
    index_eq_emod havailable (by omega) (by omega)] at h
  have hdvd : buffer.available ∣ buffer.top+row-(buffer.top+row') :=
    Int.dvd_of_emod_eq_zero (Int.emod_eq_emod_iff_emod_sub_eq_zero.mp h)
  have hzero := Int.eq_zero_of_abs_lt_dvd hdvd (by rw [abs_lt]; omega)
  omega

/-! ## What operations on rows change -/

/-- A row shows the same once more of it is initialised. -/
theorem shown_expand (bufferRow : BufferRow) (character : TerminalChar) (width : ℤ) :
    (bufferRow.expand character width).shown character=bufferRow.shown character := by
  funext column
  unfold BufferRow.shown
  rw [expand_length,expand_characters]
  split_ifs <;> first | rfl | omega

theorem contents_setRow (buffer : Buffer) (row : ℤ) (bufferRow : BufferRow) :
    (buffer.setRow row bufferRow).contents=update buffer.contents (buffer.index row)
        (bufferRow.shown buffer.defaultCharacter) := by
  funext i
  unfold Buffer.contents Buffer.setRow
  dsimp only
  rcases eq_or_ne i (buffer.index row) with rfl | hi
  · rw [update_self,update_self]
  · rw [update_of_ne hi,update_of_ne hi]

theorem contents_getRow (buffer : Buffer) (row width : ℤ) :
    (guacTerminalBufferGetRow buffer row width).contents=buffer.contents := by
  show (buffer.setRow row ((buffer.row row).expand buffer.defaultCharacter width)).contents=_
  rw [contents_setRow,shown_expand]
  exact update_eq_self _ _

/-- A row that is copied in the ring. -/
def rowCopy (index : ℤ→ℤ) (offset row : ℤ) : Copy ℤ where
  target i := decide (i=index (wrap32 (row+offset)))
  source _ := index row

/-- A row that is copied over another shows there what it shows. -/
theorem contents_copyRow (buffer : Buffer) (row offset : ℤ) :
    (buffer.copyRow row offset).contents=(rowCopy buffer.index offset row).run buffer.contents := by
  have hcontents := contents_getRow buffer row 0
  have hindex := (onlyRow_getRow row buffer 0).index
  unfold Buffer.copyRow
  dsimp only
  generalize guacTerminalBufferGetRow buffer row 0=got at *
  have hcontents' := contents_getRow got (wrap32 (row+offset)) (got.row row).length
  have hindex' := (onlyRow_getRow (wrap32 (row+offset)) got (got.row row).length).index
  have hdefault := (onlyRow_getRow (wrap32 (row+offset)) got (got.row row).length).default
  generalize guacTerminalBufferGetRow got (wrap32 (row+offset)) (got.row row).length=target at *
  have hsource : (got.row row).shown got.defaultCharacter=buffer.contents (buffer.index row) := by
    rw [←hcontents,←hindex]
    rfl
  funext i
  show (target.setRow (wrap32 (row+offset)) _).contents i=_
  rw [contents_setRow,hcontents',hcontents,hindex',hindex,hdefault]
  unfold Copy.run rowCopy
  dsimp only
  rcases eq_or_ne i (buffer.index (wrap32 (row+offset))) with rfl | hi
  · rw [update_self,if_pos (decide_eq_true rfl),←hsource]
    funext column
    unfold BufferRow.shown
    dsimp only
    split_ifs <;> rfl
  · rw [update_of_ne hi,if_neg (by rw [decide_eq_true_eq]; exact hi)]

/-- The copies of a number of rows. -/
def rowCopies (index : ℤ→ℤ) (offset step : ℤ) (count : ℕ) (row : ℤ) : List (Copy ℤ) :=
  (List.range count).map fun turn : ℕ => rowCopy index offset (row+step*turn)

theorem copyRow_index (buffer : Buffer) (row offset : ℤ) :
    (buffer.copyRow row offset).index=buffer.index := rfl

theorem copyRowsFrom_index (offset step : ℤ) (count : ℕ) (row : ℤ) (buffer : Buffer) :
    (Buffer.copyRowsFrom offset step count row buffer).index=buffer.index := by
  induction count generalizing row buffer with
  | zero => rfl
  | succ count ih => rw [Buffer.copyRowsFrom,ih,copyRow_index]

theorem copyRows_index (buffer : Buffer) (startRow endRow offset : ℤ) :
    (guacTerminalBufferCopyRows buffer startRow endRow offset).index=buffer.index := by
  unfold guacTerminalBufferCopyRows
  dsimp only
  split_ifs
  · exact copyRowsFrom_index ..
  · exact copyRowsFrom_index ..

/-- Rows that are copied one after the other are copies in the ring. -/
theorem contents_copyRowsFrom (offset step : ℤ) (count : ℕ) (row : ℤ) (buffer : Buffer) :
    (Buffer.copyRowsFrom offset step count row buffer).contents=
      runAll (rowCopies buffer.index offset step count row) buffer.contents := by
  induction count generalizing row buffer with
  | zero => rfl
  | succ count ih =>
    have hrest : (List.range count).map (fun turn : ℕ =>
        rowCopy buffer.index offset (row+step*(turn+1 : ℕ)))=
        rowCopies buffer.index offset step count (row+step) := by
      refine map_congr_left fun turn _ => ?_
      rw [Nat.cast_add,Nat.cast_one,mul_add,mul_one]
      congr 1
      omega
    rw [Buffer.copyRowsFrom,ih,copyRow_index,contents_copyRow]
    unfold rowCopies at hrest ⊢
    rw [range_succ_eq_map,map_cons,map_map]
    show _ = runAll (List.map _ (List.range count)) _
    rw [←hrest,Nat.cast_zero,mul_zero,add_zero]
    rfl

/-- Different rows of the screen that are copied by an offset, in the order in which
none is copied after it was overwritten, show where they are copied to what they
showed. -/
theorem contents_rowCopies {index : ℤ→ℤ} {height offset step : ℤ} (count : ℕ) (row : ℤ)
    (hindex : ∀ i j, 0 ≤ i ∧ i<height→0≤j ∧ j<height → index i=index j → i=j)
    (hstep : step=1 ∧ offset<0 ∨ step = -1 ∧ 0<offset) (hheight : height<2^31)
    (hrows : ∀ turn : ℕ, turn<count→(0≤row+step*turn ∧ row+step*turn<height) ∧
      0≤row+step*turn+offset ∧ row+step*turn+offset<height)
    (content : ℤ→ℤ→TerminalChar) :
    (∀ turn : ℕ, turn<count →
      runAll (rowCopies index offset step count row) content (index (row+step*turn+offset))=
        content (index (row+step*turn))) ∧
    ∀ i, (∀ turn : ℕ, turn<count → i≠index (row+step*turn+offset)) →
      runAll (rowCopies index offset step count row) content i=content i := by
  have hwrap : ∀ turn : ℕ, turn<count →
      wrap32 (row+step*turn+offset)=row+step*turn+offset := fun turn hturn =>
    wrap32_of_range (by have := hrows turn hturn; omega) (by have := hrows turn hturn; omega)
  have hmul : ∀ turn : ℕ, step*turn=turn ∧ step=1 ∨ step*turn = -turn ∧ step = -1 := by
    intro turn
    rcases hstep with ⟨rfl,-⟩ | ⟨rfl,-⟩
    · exact Or.inl ⟨one_mul _,rfl⟩
    · exact Or.inr ⟨neg_one_mul _,rfl⟩
  have hdisjoint : Disjoint (rowCopies index offset step count row) := by
    refine pairwise_map.mpr (pairwise_lt_range.imp_of_mem ?_)
    intro earlier later hearlier hlater hlt cell htarget htarget'
    rw [mem_range] at hearlier hlater
    have heq := (of_decide_eq_true htarget).symm.trans (of_decide_eq_true htarget')
    rw [hwrap earlier hearlier,hwrap later hlater] at heq
    have hsame := hindex _ _ (hrows earlier hearlier).2 (hrows later hlater).2 heq
    have hmul' := hmul earlier
    have hmul'' := hmul later
    omega
  have hsafe : Safe (rowCopies index offset step count row) := by
    refine pairwise_map.mpr (pairwise_lt_range.imp_of_mem ?_)
    intro earlier later hearlier hlater hlt cell _ hkeeps
    rw [mem_range] at hearlier hlater
    have heq := of_decide_eq_true hkeeps
    rw [hwrap earlier hearlier] at heq
    have hsame := hindex _ _ (hrows later hlater).1 (hrows earlier hearlier).2 heq
    have hmul' := hmul earlier
    have hmul'' := hmul later
    omega
  constructor
  · intro turn hturn
    have htarget : (rowCopy index offset (row+step*turn)).target
        (index (row+step*turn+offset)) := by
      unfold rowCopy
      dsimp only
      rw [hwrap turn hturn,decide_eq_true rfl]
    exact runAll_target hdisjoint hsafe
      (mem_map.mpr ⟨turn,mem_range.mpr hturn,rfl⟩) htarget content
  · intro i hi
    refine runAll_of_not_target (fun copy hcopy => ?_) content
    obtain ⟨turn,hturn,rfl⟩ := mem_map.mp hcopy
    rw [mem_range] at hturn
    unfold rowCopy
    dsimp only
    rw [hwrap turn hturn,decide_eq_true_eq]
    exact hi turn hturn

/-- Rows of the screen that guac_terminal_buffer_copy_rows copies. -/
theorem contents_copyRows {height : ℤ} (startRow endRow offset : ℤ)
    (havailable : 0<buffer.available)
    (hreaches : buffer.Reaches 0 (height-1)) (hring : height≤buffer.available)
    (hheight : height<2^31) (hoffset : offset≠0)
    (hrows : ∀ row, startRow≤row → row≤endRow→(0≤row ∧ row<height) ∧
      0≤row+offset ∧ row+offset<height) :
    (∀ row, startRow≤row → row≤endRow →
      (guacTerminalBufferCopyRows buffer startRow endRow offset).contents
        (buffer.index (row+offset))=buffer.contents (buffer.index row)) ∧
    ∀ i, (∀ row, startRow≤row → row≤endRow → i≠buffer.index (row+offset)) →
      (guacTerminalBufferCopyRows buffer startRow endRow offset).contents i=buffer.contents i := by
  have hindex : ∀ i j, 0 ≤ i ∧ i<height→0≤j ∧ j<height →
      buffer.index i=buffer.index j → i=j := fun i j hi hj heq =>
    index_inj havailable 0 (height-1) hreaches (by omega) ⟨hi.1,by omega⟩ ⟨hj.1,by omega⟩ heq
  unfold guacTerminalBufferCopyRows
  dsimp only
  split_ifs with hdown
  · obtain ⟨hcopied,hkept⟩ := contents_rowCopies (endRow-startRow+1).toNat endRow hindex
      (Or.inr ⟨rfl,hdown⟩) hheight
      (fun turn hturn => hrows _ (by omega) (by omega)) buffer.contents
    rw [contents_copyRowsFrom]
    refine ⟨fun row hstart hend => ?_,fun i hi => hkept i fun turn hturn =>
      hi _ (by omega) (by omega)⟩
    have hturn := hcopied (endRow-row).toNat (by omega)
    rwa [Int.toNat_of_nonneg (by omega),neg_one_mul,neg_sub,add_sub_cancel] at hturn
  · obtain ⟨hcopied,hkept⟩ := contents_rowCopies (endRow-startRow+1).toNat startRow hindex
      (Or.inl ⟨rfl,by omega⟩) hheight
      (fun turn hturn => hrows _ (by omega) (by omega)) buffer.contents
    rw [contents_copyRowsFrom]
    refine ⟨fun row hstart hend => ?_,fun i hi => hkept i fun turn hturn =>
      hi _ (by omega) (by omega)⟩
    have hturn := hcopied (row-startRow).toNat (by omega)
    rwa [Int.toNat_of_nonneg (by omega),one_mul,add_sub_cancel] at hturn

/-! ## Rows that are cleared -/

variable {width height : ℤ} {term term' : GuacTerminal}

/-- A blank of the given attributes, but for the mark of the cursor. -/
def blankOf (attributes : Attributes) : TerminalChar := TerminalChar.marked ⟨0,attributes,1⟩ false

/-- A row whose columns are cleared shows blanks in them. -/
theorem cleared_shown (h : ContentOk width height term) (hwidth : 0<width)
    (hmax : width≤terminalMaxSize) (row : ℤ) :
    OnlyRow row term.buffer (guacTerminalClearColumns term row 0 (width-1)).buffer ∧
      ∀ column, 0≤column → column<width →
        ((guacTerminalClearColumns term row 0 (width-1)).buffer.contents
          (term.buffer.index row) column).marked false=blankOf term.currentAttributes := by
  have hsize : width≤1024 := hmax
  have hfills : FillsRange 0 (width-1) ⟨0,term.currentAttributes,1⟩ := ⟨le_rfl,Or.inl rfl⟩
  have hlt := lt_expand_available h.1 row (by omega : width-1<2^30-1)
  obtain ⟨hwritten,hlength,honly⟩ := contentOk_writtenColumns h hwidth row 0 (width-1)
    (by omega) (by omega) hfills (fun _ => le_rfl) fun _ _ hle => by
      dsimp only
      omega
  have hcharacters := writtenColumns_characters h hwidth row 0 (width-1) (by omega) (by omega)
    hfills fun _ => le_rfl
  unfold guacTerminalClearColumns
  rw [setColumns_eq,wrap32_of_range (by omega) (by omega),←writtenColumns]
  generalize writtenColumns term row 0 (width-1) ⟨0,term.currentAttributes,1⟩=written at *
  have hblank : ∀ column, 0≤column → column<width →
      ((written.buffer.row row).characters column).marked false=blankOf term.currentAttributes := by
    intro column h0 h1
    rw [hcharacters]
    split_ifs with hcursor hat hrange hone
    · rfl
    · dsimp only at hcursor
      omega
    · rfl
    · exact absurd (Int.emod_one _) hone
    · omega
  have hhas : ∀ column, 0≤column → column<width →
      HasColumns (written.buffer.row row).shape (written.rowLength row) column 1 := by
    intro column h0 h1
    refine ⟨h0,by omega,?_,fun i hi hi' => by omega⟩
    have hbegins := begins_marked ((written.buffer.row row).characters column) false
    rw [hblank column h0 h1] at hbegins
    exact hbegins.symm.trans (begins_of_ne (show (0 : ℤ)≠charContinuation by decide))
  obtain ⟨hbroken,hbrokenSame⟩ := contentOk_forceBreak hwritten hwidth row 0 (by omega)
  obtain ⟨-,hkeeps,honly'⟩ := forceBreak_spec hwritten hwidth le_rfl
    (by omega : 0≤written.rowLength row)
  have hbrokenLength := hbrokenSame.rowLength
  obtain ⟨-,hsecondSame⟩ := contentOk_forceBreak hbroken hwidth row (width-1+1) (by omega)
  obtain ⟨-,hkeeps',honly''⟩ := forceBreak_spec hbroken hwidth (by omega : 0≤width-1+1)
    (by omega : _ ≤ (forceBreak written row 0).rowLength row)
  have hsecondLength := hsecondSame.rowLength
  have hall := (honly.trans honly').trans honly''
  refine ⟨hall,fun column h0 h1 => ?_⟩
  have hfirst : ∀ i, column ≤ i → i<column+1 →
      ((forceBreak written row 0).buffer.row row).characters i=
        (written.buffer.row row).characters i := fun i hi hi' =>
    hkeeps column 1 i (hhas column h0 h1) (Or.inl h0) hi hi'
  have hhas' := (hhas column h0 h1).of_same (by omega) hfirst
  rw [←hbrokenLength] at hhas'
  have hsecond := hkeeps' column 1 column hhas' (Or.inr (by omega)) le_rfl (by omega)
  rw [←congrFun hall.index row]
  unfold Buffer.contents BufferRow.shown
  rw [←Buffer.row,if_pos ⟨h0,by unfold GuacTerminal.rowLength at *; omega⟩,hsecond,
    hfirst column le_rfl (by omega)]
  exact hblank column h0 h1

/-! ## Rows that are cleared one after another -/

/-- Two terminals have the same scrollback and the same rendered cursor, and write with the
same attributes. What is pending for their displays may differ. -/
structure SameRows (term term' : GuacTerminal) : Prop where
  buffer : term'.buffer=term.buffer
  cursorRow : term'.visibleCursorRow=term.visibleCursorRow
  cursorCol : term'.visibleCursorCol=term.visibleCursorCol
  attributes : term'.currentAttributes=term.currentAttributes

theorem SameRows.setColumnsUnbroken (h : SameRows term term') (row startColumn endColumn : ℤ)
    (character : TerminalChar) :
    SameRows (setColumnsUnbroken term row startColumn endColumn character)
      (setColumnsUnbroken term' row startColumn endColumn character) := by
  obtain ⟨hrow,hcol⟩ := setColumnsUnbroken_cursor term row startColumn endColumn character
  obtain ⟨hrow',hcol'⟩ := setColumnsUnbroken_cursor term' row startColumn endColumn character
  have hsame := (sameControl.setColumnsUnbroken term row startColumn endColumn
    character).currentAttributes
  have hsame' := (sameControl.setColumnsUnbroken term' row startColumn endColumn
    character).currentAttributes
  refine ⟨?_,?_,?_,?_⟩
  · rw [setColumnsUnbroken_buffer,setColumnsUnbroken_buffer,h.buffer]
  · rw [hrow,hrow',h.cursorRow]
  · rw [hcol,hcol',h.cursorCol]
  · rw [hsame,hsame',h.attributes]

theorem SameRows.clearBroken (h : SameRows term term') (row startColumn endColumn : ℤ) :
    SameRows (clearBroken term row startColumn endColumn)
      (clearBroken term' row startColumn endColumn) := by
  unfold Terminal.clearBroken
  rw [h.buffer]
  dsimp only
  generalize (if ((term.buffer.row row).characters startColumn).value≠charContinuation ∧
      ((term.buffer.row row).characters startColumn).width<endColumn-startColumn+1 then
    startColumn+((term.buffer.row row).characters startColumn).width
  else startColumn)=first
  split
  · exact h.setColumnsUnbroken ..
  · exact h

theorem SameRows.breakLeft (h : SameRows term term') (row edge : ℤ) :
    SameRows (breakLeft term row edge) (breakLeft term' row edge) := by
  unfold Terminal.breakLeft
  rw [h.buffer]
  split
  · exact h.clearBroken ..
  · exact h

theorem SameRows.breakRight (h : SameRows term term') (row edge : ℤ) :
    SameRows (breakRight term row edge) (breakRight term' row edge) := by
  unfold Terminal.breakRight
  rw [h.buffer]
  split
  · exact h.clearBroken ..
  · exact h

theorem SameRows.forceBreak (h : SameRows term term') (row edge : ℤ) :
    SameRows (forceBreak term row edge) (forceBreak term' row edge) := by
  have hgot : SameRows { term with buffer := guacTerminalBufferGetRow term.buffer row 0 }
      { term' with buffer := guacTerminalBufferGetRow term'.buffer row 0 } :=
    ⟨congrArg (guacTerminalBufferGetRow · row 0) h.buffer,h.cursorRow,h.cursorCol,h.attributes⟩
  rw [forceBreak_eq,forceBreak_eq]
  exact (hgot.breakLeft row edge).breakRight row edge

theorem SameRows.writeCursor (h : SameRows term term') (row startColumn endColumn : ℤ)
    (character : TerminalChar) :
    SameRows (writeCursor term row startColumn endColumn character)
      (writeCursor term' row startColumn endColumn character) := by
  unfold Terminal.writeCursor
  rw [h.cursorRow,h.cursorCol]
  split
  · exact h.setColumnsUnbroken ..
  · exact h

theorem SameRows.clearColumns (h : SameRows term term') (row startColumn endColumn : ℤ) :
    SameRows (guacTerminalClearColumns term row startColumn endColumn)
      (guacTerminalClearColumns term' row startColumn endColumn) := by
  unfold guacTerminalClearColumns
  rw [setColumns_eq,setColumns_eq,h.attributes]
  exact (((h.setColumnsUnbroken ..).writeCursor ..).forceBreak ..).forceBreak ..

/-- Some rows were cleared in the columns of a width. -/
structure RowsCleared (width : ℤ) (attributes : Attributes) (rows : ℤ→Prop)
    (buffer buffer' : Buffer) : Prop where
  top : buffer'.top=buffer.top
  available : buffer'.available=buffer.available
  default : buffer'.defaultCharacter=buffer.defaultCharacter
  others : ∀ i, (∀ row, rows row → i≠buffer.index row) → buffer'.rows i=buffer.rows i
  blank : ∀ row, rows row→∀ column, 0≤column → column<width →
    (buffer'.contents (buffer.index row) column).marked false=blankOf attributes

theorem RowsCleared.index {attributes : Attributes} {rows : ℤ→Prop} {buffer' : Buffer}
    (h : RowsCleared width attributes rows buffer buffer') : buffer'.index=buffer.index := by
  funext i
  unfold Buffer.index
  rw [h.top,h.available]

/-- The other rows show what they did. -/
theorem RowsCleared.kept {attributes : Attributes} {rows : ℤ→Prop} {buffer' : Buffer}
    (h : RowsCleared width attributes rows buffer buffer') {i : ℤ}
    (hi : ∀ row, rows row → i≠buffer.index row) : buffer'.contents i=buffer.contents i := by
  unfold Buffer.contents
  rw [h.others i hi,h.default]

/-- The loop over rows that are cleared, also where some of them are the same row of the
ring. -/
theorem rowsCleared_forRange (hwidth : 0<width) (hmax : width≤terminalMaxSize) (count : ℕ)
    (first : ℤ) {shadow term : GuacTerminal} (hsame : SameRows shadow term)
    (h : ContentOk width height shadow) :
    RowsCleared width term.currentAttributes (fun row => first≤row ∧ row<first+count)
      term.buffer (forRange (fun row term => guacTerminalClearColumns term row 0 (width-1)) count
        first term).buffer := by
  have hsize : width≤1024 := hmax
  induction count generalizing first shadow term with
  | zero => exact ⟨rfl,rfl,rfl,fun _ _ => rfl,fun row hrow => by omega⟩
  | succ count ih =>
    obtain ⟨honly,hblank⟩ := cleared_shown h hwidth hmax first
    have hnext := hsame.clearColumns first 0 (width-1)
    have hrest := ih (first+1) hnext
      (contentOk_clearColumns h hwidth first 0 _ (by omega) (by omega) (by omega) fun _ => le_rfl)
    rw [←hsame.buffer,←hnext.buffer] at honly
    rw [←hsame.buffer,←hsame.attributes,←hnext.buffer] at hblank
    have hattributes : (guacTerminalClearColumns term first 0 (width-1)).currentAttributes=
        term.currentAttributes := (sameControl.clearColumns ..).currentAttributes
    rw [forRange]
    generalize guacTerminalClearColumns term first 0 (width-1)=cleared at *
    have hindex := honly.index
    refine ⟨hrest.top.trans honly.top,hrest.available.trans honly.available,
      hrest.default.trans honly.default,fun i hi => ?_,fun row hrow column h0 h1 => ?_⟩
    · rw [hrest.others i fun row hrow => ?_,honly.rows i (hi first ⟨le_rfl,by omega⟩)]
      rw [hindex]
      exact hi row ⟨by omega,by omega⟩
    · by_cases hlater : ∃ row', (first+1≤row' ∧ row' < first+1+count) ∧
          term.buffer.index row=term.buffer.index row'
      · obtain ⟨row',hrow',heq⟩ := hlater
        have hdone := hrest.blank row' hrow' column h0 h1
        rwa [hindex,←heq,hattributes] at hdone
      · have hfirst : row=first := by
          by_contra hne
          exact hlater ⟨row,⟨by omega,by omega⟩,rfl⟩
        subst hfirst
        rw [hrest.kept fun row' hrow' heq => hlater ⟨row',hrow',by rwa [hindex] at heq⟩]
        exact hblank column h0 h1

/-- A range of entire rows that is cleared. -/
theorem rowsCleared_clearRange (hwidth : 0<width) (hmax : width≤terminalMaxSize)
    {shadow term : GuacTerminal} (hsame : SameRows shadow term) (h : ContentOk width height shadow)
    (hterm : term.termWidth=width) (first last : ℤ) :
    RowsCleared width term.currentAttributes (fun row => first≤row ∧ row≤last) term.buffer
      (guacTerminalClearRange term first 0 last (width-1)).buffer := by
  have hcleared := rowsCleared_forRange hwidth hmax (last-first+1).toNat first hsame h
  have hloop : guacTerminalClearRange term first 0 last (width-1)=
      forRange (fun row term => guacTerminalClearColumns term row 0 (width-1))
        (last-first+1).toNat first term := by
    unfold guacTerminalClearRange
    dsimp only
    rw [hterm,if_neg (lt_irrefl 0),if_neg (lt_irrefl _)]
    rfl
  rw [hloop]
  exact ⟨hcleared.top,hcleared.available,hcleared.default,
    fun i hi => hcleared.others i fun row hrow => hi row ⟨hrow.1,by omega⟩,
    fun row hrow => hcleared.blank row ⟨hrow.1,by omega⟩⟩

end GuacServer.Terminal
