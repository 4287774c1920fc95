import GuacServer.StateRuns
import GuacServer.TerminalFlushed

/-!
# Recording operations and drawing them at once

The calls that record operations in the grid could as well be drawn when they
are made. The flush of what they recorded shows the same as that, if its copies
are safe, its clears alike, and each wide character is whole in the grid.
-/

namespace GuacServer.Terminal

open DecimalNumerals List SequentialCopies StateRuns

variable {α : Type}

/-- The calls that record operations. -/
inductive DisplayCall
  | copyColumns (row startColumn endColumn offset : ℤ)
  | copyRows (startRow endRow offset : ℤ)
  | setColumns (row startColumn endColumn : ℤ) (character : TerminalChar)

/-- A call records its operations. -/
def DisplayCall.record (display : Display) : DisplayCall→Display
  | .copyColumns row startColumn endColumn offset =>
    guacTerminalDisplayCopyColumns display row startColumn endColumn offset
  | .copyRows startRow endRow offset => guacTerminalDisplayCopyRows display startRow endRow offset
  | .setColumns row startColumn endColumn character =>
    guacTerminalDisplaySetColumns display row startColumn endColumn character

/-- The operations after a list of calls. -/
def recordAll (calls : List DisplayCall) (display : Display) : Display :=
  calls.foldl DisplayCall.record display

/-- The arguments of a call are rows and columns of the grid, before and after an
offset, and a character that has a width is drawn in some columns. -/
def DisplayCall.InRange (painting : Painting α) (display : Display) : DisplayCall→Prop
  | .copyColumns row startColumn endColumn offset =>
    display.InGrid (row,startColumn) ∧ display.InGrid (row,endColumn) ∧
      display.InGrid (row,startColumn+offset) ∧ display.InGrid (row,endColumn+offset) ∧
      startColumn≤endColumn+1
  | .copyRows startRow endRow offset =>
    (0 ≤ startRow ∧ startRow<display.height) ∧ (0≤endRow ∧ endRow<display.height) ∧
      (0 ≤ startRow+offset ∧ startRow+offset<display.height) ∧
      (0≤endRow+offset ∧ endRow+offset<display.height) ∧ startRow≤endRow+1
  | .setColumns row startColumn endColumn character =>
    display.InGrid (row,startColumn) ∧ display.InGrid (row,endColumn) ∧
      0≤character.width ∧ (character.width≠0→0<painting.drawnWidth character.drawn)

/-! ## What calls draw -/

/-- Columns of a row are copied. -/
def columnsCopy (row startColumn endColumn offset : ℤ) : Copy (ℤ×ℤ) where
  target cell := decide (cell.1=row ∧ startColumn+offset≤cell.2 ∧ cell.2≤endColumn+offset)
  source cell := (cell.1,cell.2-offset)

/-- Rows of a display are copied. -/
def rowsCopy (width startRow endRow offset : ℤ) : Copy (ℤ×ℤ) where
  target cell := decide ((startRow+offset≤cell.1 ∧ cell.1≤endRow+offset) ∧ 0≤cell.2 ∧ cell.2<width)
  source cell := (cell.1-offset,cell.2)

/-- Characters of the given columns are drawn one after another, each as many
columns after the one before as it has. -/
def drawColumns {β : Type} (width drawnWidth : ℤ) (column : ℤ→β)
    (row startColumn endColumn : ℤ) (screen : Screen β) : Screen β :=
  if width=0 then screen
  else
    forTo (fun i screen => drawCharacter drawnWidth column row (startColumn+i*width) screen)
      0 ((endColumn-startColumn)/width) screen

/-- A call is drawn at once, in the given columns of characters. -/
def DisplayCall.draw {β : Type} (width : ℤ) (drawnWidth : TerminalChar→ℤ)
    (column : TerminalChar→ℤ→β) (screen : Screen β) : DisplayCall→Screen β
  | .copyColumns row startColumn endColumn offset =>
    (columnsCopy row startColumn endColumn offset).run screen
  | .copyRows startRow endRow offset => (rowsCopy width startRow endRow offset).run screen
  | .setColumns row startColumn endColumn character =>
    drawColumns character.width (drawnWidth character) (column character) row startColumn
      endColumn screen

/-- The screen after calls that are drawn one after another. -/
def drawAll (painting : Painting α) (display : Display) (calls : List DisplayCall)
    (screen : Screen α) : Screen α :=
  calls.foldl (DisplayCall.draw display.width
    (fun character => painting.drawnWidth character.drawn) (painting.column display)) screen

/-- The flush of what the calls recorded shows what the calls would have drawn,
whatever the screen showed before. -/
def FlushesAsDrawn (painting : Painting α) (display : Display) (calls : List DisplayCall) : Prop :=
  ∀ (screen : Screen α) (cell : ℤ×ℤ), display.InGrid cell →
    (guacTerminalDisplayFlushScreen painting (recordAll calls display) screen).2 cell=
      drawAll painting display calls screen cell

/-! ## What the cells are left with -/

/-- What calls leave in a cell. -/
inductive Described
  /-- What another cell, or the same, showed before. -/
  | previous (cell : ℤ×ℤ)
  /-- A column of a character that was set. -/
  | column (character : TerminalChar) (column : ℤ)
  deriving DecidableEq

/-- What calls leave in the cells. -/
def describeAll (painting : Painting α) (width : ℤ) (calls : List DisplayCall) : Screen Described :=
  calls.foldl (DisplayCall.draw width (fun character => painting.drawnWidth character.drawn)
    Described.column) Described.previous

/-- What a description looks like. -/
def Described.shown (painting : Painting α) (display : Display) (screen : Screen α) : Described→α
  | .previous cell => screen cell
  | .column character i => painting.column display character i

theorem drawCharacter_map {β γ : Type} (f : β→γ) (width : ℤ) (column : ℤ→β) (row col : ℤ)
    (screen : Screen β) :
    drawCharacter width (fun i => f (column i)) row col (fun cell => f (screen cell))=
      fun cell => f (drawCharacter width column row col screen cell) :=
  funext fun _ => (apply_ite f _ _ _).symm

/-- What is drawn depends on what each cell shows only. -/
theorem drawColumns_map {β γ : Type} (f : β→γ) (width drawnWidth : ℤ) (column : ℤ→β)
    (row startColumn endColumn : ℤ) (screen : Screen β) :
    drawColumns width drawnWidth (fun i => f (column i)) row startColumn endColumn
        (fun cell => f (screen cell))=
      fun cell =>
        f (drawColumns width drawnWidth column row startColumn endColumn screen cell) := by
  unfold drawColumns
  split
  · rfl
  · refine forTo_rel (R := fun (screen : Screen γ) (screen' : Screen β) =>
      screen=fun cell => f (screen' cell)) (fun i screen screen' h => ?_) _ _ rfl
    rw [h]
    exact drawCharacter_map f ..

/-- Calls do not look at what they draw. -/
theorem draw_map {β γ : Type} (f : β→γ) (width : ℤ) (drawnWidth : TerminalChar→ℤ)
    (column : TerminalChar→ℤ→β) (screen : Screen β) (call : DisplayCall) :
    call.draw width drawnWidth (fun character i => f (column character i))
        (fun cell => f (screen cell))=
      fun cell => f (call.draw width drawnWidth column screen cell) := by
  cases call with
  | copyColumns row startColumn endColumn offset => exact Copy.run_map _ screen f
  | copyRows startRow endRow offset => exact Copy.run_map _ screen f
  | setColumns row startColumn endColumn character => exact drawColumns_map f ..

/-- What calls draw is what they leave, as it looks. -/
theorem drawAll_eq (painting : Painting α) (display : Display) (calls : List DisplayCall)
    (screen : Screen α) :
    drawAll painting display calls screen=fun cell =>
      (describeAll painting display.width calls cell).shown painting display screen := by
  have hall : ∀ (described : Screen Described), calls.foldl (DisplayCall.draw display.width
          (fun character => painting.drawnWidth character.drawn) (painting.column display))
          (fun cell => (described cell).shown painting display screen)=
        fun cell => (calls.foldl (DisplayCall.draw display.width
          (fun character => painting.drawnWidth character.drawn) Described.column)
            described cell).shown painting display screen := by
    induction calls with
    | nil => exact fun _ => rfl
    | cons call calls ih =>
      intro described
      rw [foldl_cons,foldl_cons,←ih]
      congr 1
      exact draw_map (Described.shown painting display screen) display.width _ Described.column
        described call
  exact hall Described.previous

/-! ## What the grid records -/

/-- An operation says what is in its cell, unless a column of a wide character
has been drawn there since. -/
def Records (painting : Painting α) (cell : ℤ×ℤ) (operation : Operation) : Described→Prop
  | .previous source =>
    operation.type=.copy ∧ source=(operation.row,operation.column) ∨
      operation.type=.nop ∧ source=cell
  | .column character i =>
    0 < i ∨ i=0 ∧ operation.type=.set ∧ operation.character=character ∧
      0<painting.drawnWidth character.drawn

/-- All operations of the grid say what is in their cells. -/
def RecordsAll (painting : Painting α) (display : Display) (described : Screen Described) : Prop :=
  ∀ r c, display.InGrid (r,c) → Records painting (r,c) (display.operations r c) (described (r,c))

/-- Calls change only operations. -/
theorem record_keeps (display : Display) (call : DisplayCall) :
    ∃ operations bounded, call.record display=
      { display with operations := operations, bounded := bounded } := by
  cases call with
  | copyColumns row startColumn endColumn offset =>
    show ∃ operations bounded, guacTerminalDisplayCopyColumns display row startColumn endColumn
      offset=_
    unfold guacTerminalDisplayCopyColumns
    split
    · exact ⟨display.operations,display.bounded,rfl⟩
    · exact ⟨_,_,rfl⟩
  | copyRows startRow endRow offset => exact ⟨_,_,rfl⟩
  | setColumns row startColumn endColumn character =>
    show ∃ operations bounded, guacTerminalDisplaySetColumns display row startColumn endColumn
      character=_
    unfold guacTerminalDisplaySetColumns
    split
    · exact ⟨display.operations,display.bounded,rfl⟩
    · split
      · exact ⟨display.operations,display.bounded,rfl⟩
      · exact ⟨_,_,rfl⟩

variable {painting : Painting α} {described : Screen Described} {display : Display}

/-- An operation that has moved says in its new cell what it said in the old. -/
theorem Records.moved {row column : ℤ} {operation : Operation} {described : Described}
    (h : Records painting (row,column) operation described) (cell : ℤ×ℤ) :
    Records painting cell (operation.moved row column) described := by
  unfold Operation.moved
  cases described with
  | previous source =>
    rcases h with ⟨hcopy,hsource⟩ | ⟨hnop,hsource⟩
    · rw [if_neg (by rw [hcopy]; exact OperationType.noConfusion)]
      exact Or.inl ⟨hcopy,hsource⟩
    · rw [if_pos hnop]
      exact Or.inl ⟨rfl,hsource⟩
  | column character i =>
    rcases h with hi | ⟨hi,hset,hcharacter⟩
    · exact Or.inl hi
    · rw [if_neg (by rw [hset]; exact OperationType.noConfusion)]
      exact Or.inr ⟨hi,hset,hcharacter⟩

/-- Operations that move as the contents of their cells do. -/
structure Moved (copy : Copy (ℤ×ℤ)) (display display' : Display) : Prop where
  grid : ∀ cell, display'.InGrid cell ↔ display.InGrid cell
  source : ∀ cell, copy.target cell=true → display.InGrid (copy.source cell)
  operations : ∀ r c, display.InGrid (r,c) → display'.operations r c=if copy.target (r,c) then
      (display.operations (copy.source (r,c)).1 (copy.source (r,c)).2).moved
        (copy.source (r,c)).1 (copy.source (r,c)).2
    else display.operations r c

theorem RecordsAll.copy {display' : Display} {copy : Copy (ℤ×ℤ)}
    (h : RecordsAll painting display described) (hmoved : Moved copy display display') :
    RecordsAll painting display' (copy.run described) := by
  intro r c hin
  rw [hmoved.operations r c ((hmoved.grid _).mp hin),Copy.run]
  split
  · rename_i htarget
    exact (h _ _ (hmoved.source _ htarget)).moved _
  · exact h r c ((hmoved.grid _).mp hin)

theorem fitToRange_of_mem {value last : ℤ} (h : 0≤value ∧ value<last+1) :
    guacTerminalFitToRange value 0 last=value := by
  unfold guacTerminalFitToRange
  rw [if_neg (by omega),if_neg (by omega)]

/-- A range that is in the grid before and after an offset stays as it is. -/
theorem fitToRange_offset {value offset size : ℤ} (hsize : size<2^31)
    (hvalue : 0≤value ∧ value<size) (hoffset : 0≤value+offset ∧ value+offset<size) :
    guacTerminalFitToRange (wrap32 (guacTerminalFitToRange value 0 (size-1)+offset)) 0
      (size-1)-offset=value := by
  have hfitted : guacTerminalFitToRange value 0 (size-1)=value := fitToRange_of_mem (by omega)
  have hwrapped : wrap32 (value+offset)=value+offset := wrap32_of_range (by omega) (by omega)
  have hmoved : guacTerminalFitToRange (value+offset) 0 (size-1)=value+offset :=
    fitToRange_of_mem (by omega)
  rw [hfitted,hwrapped,hmoved,add_sub_cancel_right]

/-- The grid records what is copied between columns. -/
theorem moved_copyColumns (hsized : display.Sized) {row startColumn endColumn offset : ℤ}
    (hrange : (DisplayCall.copyColumns row startColumn endColumn offset).InRange painting display) :
    Moved (columnsCopy row startColumn endColumn offset) display
      (guacTerminalDisplayCopyColumns display row startColumn endColumn offset) := by
  obtain ⟨⟨hrow,hstart⟩,⟨-,hend⟩,⟨-,hstart'⟩,⟨-,hend'⟩,-⟩ := hrange
  dsimp only at hrow hstart hend hstart' hend'
  have hbounds : ¬(row<0 ∨ row≥display.height) := by omega
  refine ⟨?_,?_,?_⟩
  · unfold guacTerminalDisplayCopyColumns
    rw [if_neg hbounds]
    exact fun _ => Iff.rfl
  · rintro ⟨r,c⟩ htarget
    obtain ⟨hr,hc,hc'⟩ := of_decide_eq_true htarget
    dsimp only at hr hc hc'
    exact ⟨hr ▸ hrow,by dsimp only [columnsCopy]; omega⟩
  · intro r c _
    unfold guacTerminalDisplayCopyColumns
    rw [if_neg hbounds]
    dsimp only [Display.check]
    rw [fitToRange_offset hsized.width_lt hstart hstart',
      fitToRange_offset hsized.width_lt hend hend']
    by_cases htarget : r=row ∧ startColumn+offset≤c ∧ c≤endColumn+offset
    · have hcopied : (columnsCopy row startColumn endColumn offset).target (r,c)=true :=
        decide_eq_true htarget
      rw [if_pos htarget,if_pos hcopied]
      dsimp only [columnsCopy]
      rw [htarget.1]
    · have hother : ¬(columnsCopy row startColumn endColumn offset).target (r,c)=true :=
        fun hcopied => htarget (of_decide_eq_true hcopied)
      rw [if_neg htarget,if_neg hother]

/-- The grid records what is copied between rows. -/
theorem moved_copyRows (hsized : display.Sized) {startRow endRow offset : ℤ}
    (hrange : (DisplayCall.copyRows startRow endRow offset).InRange painting display) :
    Moved (rowsCopy display.width startRow endRow offset) display
      (guacTerminalDisplayCopyRows display startRow endRow offset) := by
  obtain ⟨hstart,hend,hstart',hend',-⟩ := hrange
  refine ⟨fun _ => Iff.rfl,?_,?_⟩
  · rintro ⟨r,c⟩ htarget
    obtain ⟨⟨hr,hr'⟩,hc⟩ := of_decide_eq_true htarget
    dsimp only at hr hr' hc
    exact ⟨by dsimp only [rowsCopy]; omega,hc⟩
  · intro r c _
    unfold guacTerminalDisplayCopyRows
    dsimp only [Display.check]
    rw [fitToRange_offset hsized.height_lt hstart hstart',
      fitToRange_offset hsized.height_lt hend hend']
    refine if_congr ?_ rfl rfl
    exact decide_eq_true_iff.symm

/-- A cell is one that the character of some turn is drawn over. -/
def DrawnOn (width drawnWidth row startColumn i : ℤ) (cell : ℤ×ℤ) : Prop :=
  cell.1=row ∧ startColumn+i*width≤cell.2 ∧ cell.2<startColumn+i*width+drawnWidth

/-- A cell is as before, or it has a column of a character drawn over it. -/
theorem drawColumns_spec {β : Type} {width drawnWidth row startColumn endColumn : ℤ}
    (hwidth : 0<width) (column : ℤ→β) (screen : Screen β) (cell : ℤ×ℤ) :
    (drawColumns width drawnWidth column row startColumn endColumn screen cell=screen cell ∧
        ∀ i, 0 ≤ i → i≤(endColumn-startColumn)/width →
          ¬DrawnOn width drawnWidth row startColumn i cell) ∨
      ∃ i, (0 ≤ i ∧ i≤(endColumn-startColumn)/width) ∧
        DrawnOn width drawnWidth row startColumn i cell ∧
        drawColumns width drawnWidth column row startColumn endColumn screen cell=
          column (cell.2-(startColumn+i*width)) := by
  by_cases hempty : endColumn<startColumn
  · have hnone : (endColumn-startColumn)/width<0 := Int.ediv_neg_of_neg_of_pos (by omega) hwidth
    have hcount : ((endColumn-startColumn)/width-0+1).toNat=0 := by omega
    rw [drawColumns,if_neg hwidth.ne',forTo,hcount]
    exact Or.inl ⟨rfl,fun i hi hle => absurd (hi.trans hle) (not_le.mpr hnone)⟩
  have hsize : 0≤(endColumn-startColumn)/width+1 :=
    Int.le_add_one (Int.ediv_nonneg (by omega) hwidth.le)
  have hall := @forTo_induction (Screen β)
    (fun count shown => (shown cell=screen cell ∧ ∀ i, 0 ≤ i → i<count →
        ¬DrawnOn width drawnWidth row startColumn i cell) ∨
      ∃ i, (0 ≤ i ∧ i<count) ∧ DrawnOn width drawnWidth row startColumn i cell ∧
        shown cell=column (cell.2-(startColumn+i*width)))
    (fun i screen => drawCharacter drawnWidth column row (startColumn+i*width) screen)
    ((endColumn-startColumn)/width+1) hsize ?_ screen
    (Or.inl ⟨rfl,fun i hi hlt => absurd hlt (not_lt.mpr hi)⟩)
  · unfold drawColumns
    rw [if_neg hwidth.ne']
    rw [add_sub_cancel_right] at hall
    simp only [Int.lt_add_one_iff] at hall
    exact hall
  · intro count shown hcount _ hbefore
    by_cases hdrawn : DrawnOn width drawnWidth row startColumn count cell
    · exact Or.inr ⟨count,⟨hcount,Int.lt_add_one_of_le le_rfl⟩,hdrawn,if_pos hdrawn⟩
    · have hsame : drawCharacter drawnWidth column row (startColumn+count*width) shown cell=
          shown cell := if_neg hdrawn
      rcases hbefore with ⟨heq,hnone⟩ | ⟨i,hi,hon,heq⟩
      · refine Or.inl ⟨hsame.trans heq,fun j hj hlt => ?_⟩
        rcases eq_or_lt_of_le (Int.le_of_lt_add_one hlt) with rfl | hbelow
        · exact hdrawn
        · exact hnone j hj hbelow
      · exact Or.inr ⟨i,⟨hi.1,by omega⟩,hon,hsame.trans heq⟩

/-- The columns in which operations are recorded are those that the characters begin in. -/
theorem written_iff {width startColumn endColumn c : ℤ} (hwidth : 0<width) :
    (startColumn≤c ∧ c≤endColumn ∧ (c-startColumn)%width=0) ↔
      ∃ i, (0 ≤ i ∧ i≤(endColumn-startColumn)/width) ∧ c=startColumn+i*width := by
  constructor
  · rintro ⟨hc,hc',hmod⟩
    obtain ⟨i,hi⟩ := Int.dvd_of_emod_eq_zero hmod
    refine ⟨i,⟨?_,(Int.le_ediv_iff_mul_le hwidth).mpr ?_⟩,?_⟩
    · exact Int.le_of_mul_le_mul_left (by omega : width*0≤width*i) hwidth
    · rw [mul_comm]
      omega
    · rw [mul_comm]
      omega
  · rintro ⟨i,⟨hi,hle⟩,rfl⟩
    have hturn := (Int.le_ediv_iff_mul_le hwidth).mp hle
    have hnonneg := Int.mul_nonneg hi hwidth.le
    refine ⟨by omega,by omega,?_⟩
    rw [add_sub_cancel_left]
    exact Int.mul_emod_left i width

variable {character : TerminalChar}

/-- The operations after characters are recorded. -/
theorem setColumns_operations {row startColumn endColumn : ℤ}
    (hrange : (DisplayCall.setColumns row startColumn endColumn character).InRange painting
      display) (hzero : character.width≠0) :
    (∀ cell, (guacTerminalDisplaySetColumns display row startColumn endColumn
      character).InGrid cell ↔ display.InGrid cell) ∧
    ∀ r c, (guacTerminalDisplaySetColumns display row startColumn endColumn
        character).operations r c=
      if r=row ∧ startColumn≤c ∧ c≤endColumn ∧ (c-startColumn)%character.width=0 then
        { display.operations r c with type := .set, character := character }
      else display.operations r c := by
  obtain ⟨⟨hrow,hstart⟩,⟨-,hend⟩,-⟩ := hrange
  dsimp only at hrow hstart hend
  unfold guacTerminalDisplaySetColumns
  rw [if_neg hzero,if_neg (by omega),fitToRange_of_mem (by omega),fitToRange_of_mem (by omega)]
  exact ⟨fun _ => Iff.rfl,fun _ _ => rfl⟩

/-- The grid records what is drawn in columns. -/
theorem recordsAll_setColumns (h : RecordsAll painting display described)
    {row startColumn endColumn : ℤ}
    (hrange :
      (DisplayCall.setColumns row startColumn endColumn character).InRange painting display) :
    RecordsAll painting (guacTerminalDisplaySetColumns display row startColumn endColumn character)
      (drawColumns character.width (painting.drawnWidth character.drawn)
        (Described.column character) row startColumn endColumn described) := by
  by_cases hzero : character.width=0
  · rw [drawColumns,if_pos hzero,guacTerminalDisplaySetColumns,if_pos hzero]
    exact h
  have hpositive : 0<character.width := by
    have hwidth := hrange.2.2.1
    omega
  have hdrawn := hrange.2.2.2 hzero
  obtain ⟨hgrid,hoperations⟩ := setColumns_operations hrange hzero
  intro r c hin
  have hrecords := h r c ((hgrid _).mp hin)
  rw [hoperations]
  rcases drawColumns_spec hpositive (Described.column character) described (r,c) with
    ⟨heq,hnone⟩ | ⟨i,hi,⟨hr,hc,hc'⟩,heq⟩
  · rw [heq,if_neg]
    · exact hrecords
    · rintro ⟨hr,hwritten⟩
      obtain ⟨i,hi,rfl⟩ := (written_iff hpositive).mp hwritten
      exact hnone i hi.1 hi.2 ⟨hr,le_rfl,by dsimp only; omega⟩
  · rw [heq]
    dsimp only at hr hc hc' ⊢
    rcases eq_or_lt_of_le hc with hfirst | hlater
    · rw [if_pos ⟨hr,(written_iff hpositive).mpr ⟨i,hi,hfirst.symm⟩⟩]
      exact Or.inr ⟨by omega,rfl,rfl,hdrawn⟩
    · exact Or.inl (by omega)

/-- A call records what it leaves. -/
theorem recordsAll_record (hsized : display.Sized) (h : RecordsAll painting display described)
    {call : DisplayCall} (hrange : call.InRange painting display) :
    RecordsAll painting (call.record display)
      (call.draw display.width (fun character => painting.drawnWidth character.drawn)
        Described.column described) := by
  cases call with
  | copyColumns row startColumn endColumn offset => exact h.copy (moved_copyColumns hsized hrange)
  | copyRows startRow endRow offset => exact h.copy (moved_copyRows hsized hrange)
  | setColumns row startColumn endColumn character => exact recordsAll_setColumns h hrange

/-! ## The flush of what was recorded -/

/-- Nothing is pending in the grid. -/
def NoPending (display : Display) : Prop :=
  ∀ r c, display.InGrid (r,c)→(display.operations r c).type=.nop

/-! ### Wide characters -/

/-- A glyph that is pending in the first of the columns will be drawn in the other. -/
def Spans (painting : Painting α) (display : Display) (row first c : ℤ) : Prop :=
  display.InGrid (row,first) ∧
    (guacTerminalHasGlyph (display.operations row first).character.value &&
      reaches painting display row c first)=true

/-- A column of the row is one in which characters are drawn. -/
def DrawnIn (painting : Painting α) (row startColumn endColumn : ℤ) (character : TerminalChar)
    (c : ℤ) : Prop :=
  ∃ i, (0 ≤ i ∧ i≤(endColumn-startColumn)/character.width) ∧
    DrawnOn character.width (painting.drawnWidth character.drawn) row startColumn i (row,c)

/-- Characters that are no wider than the columns they take are drawn apart. -/
theorem DrawnOn.unique {width drawnWidth row startColumn i j : ℤ} {cell : ℤ×ℤ}
    (h : DrawnOn width drawnWidth row startColumn i cell) (hpositive : 0<width)
    (hfit : drawnWidth≤width) (h' : DrawnOn width drawnWidth row startColumn j cell) : i=j := by
  obtain ⟨-,hi,hi'⟩ := h
  obtain ⟨-,hj,hj'⟩ := h'
  rcases lt_trichotomy i j with hlt | heq | hgt
  · have hmul := Int.mul_le_mul_of_nonneg_right (Int.add_one_le_of_lt hlt) hpositive.le
    rw [add_mul,one_mul] at hmul
    omega
  · exact heq
  · have hmul := Int.mul_le_mul_of_nonneg_right (Int.add_one_le_of_lt hgt) hpositive.le
    rw [add_mul,one_mul] at hmul
    omega

/-- A call cuts no wide character that is pending, neither where it copies from nor where it
copies to or draws, and leaves no glyph pending behind the first column of one it draws. -/
def DisplayCall.KeepsWide (painting : Painting α) (display : Display) : DisplayCall→Prop
  | .copyColumns row startColumn endColumn offset =>
    ∀ first c c', Spans painting display row first c→Spans painting display row first c' →
      (startColumn≤c ∧ c≤endColumn → startColumn≤c' ∧ c'≤endColumn) ∧
      (startColumn+offset≤c ∧ c≤endColumn+offset → display.InGrid (row,c') →
        startColumn+offset≤c' ∧ c'≤endColumn+offset)
  | .copyRows _ _ _ => True
  | .setColumns row startColumn endColumn character => character.width≠0 →
    painting.drawnWidth character.drawn≤character.width ∧
      (∀ first c c', Spans painting display row first c→Spans painting display row first c' →
        DrawnIn painting row startColumn endColumn character c → display.InGrid (row,c') →
          DrawnIn painting row startColumn endColumn character c') ∧
      ∀ c, DrawnIn painting row startColumn endColumn character c →
        (c-startColumn)%character.width≠0→¬Spans painting display row c c

/-- The wide characters in the cells are those that are pending, each of them whole. -/
structure WideWhole (painting : Painting α) (display : Display) (described : Screen Described) :
    Prop where
  drawn : ∀ r first c, Spans painting display r first c → first<c → display.InGrid (r,c) →
    described (r,c)=.column (display.operations r first).character (c-first) ∧
      ¬Spans painting display r c c
  kept : ∀ r c, display.InGrid (r,c)→∀ character i, 0 < i → described (r,c)=.column character i →
      Spans painting display r (c-i) c ∧ (display.operations r (c-i)).character=character

/-- A pending glyph spans the columns in which it is drawn. -/
theorem spans_iff {r first c : ℤ} : Spans painting display r first c ↔
    display.InGrid (r,first) ∧ (display.operations r first).type=.set ∧
      guacTerminalHasGlyph (display.operations r first).character.value=true ∧ first≤c ∧
      c<first+painting.drawnWidth (display.operations r first).character.drawn := by
  unfold Spans reaches
  rw [Bool.and_eq_true,decide_eq_true_iff]
  tauto

/-- The last glyph that is drawn over a column of a wide character is that of the character. -/
theorem WideWhole.described_iff (h : WideWhole painting display described)
    (hsized : display.Sized) {r c : ℤ} (hgrid : display.InGrid (r,c)) {i : ℤ} (hi : 0 < i) :
    described (r,c)=.column character i ↔ lastReaching painting display r c=some (c-i) ∧
      (display.operations r (c-i)).character=character := by
  have hwidth := Int.toNat_of_nonneg hsized.width_nonneg
  constructor
  · intro hdescribed
    obtain ⟨hspans,hcharacter⟩ := h.kept r c hgrid character i hi hdescribed
    refine ⟨?_,hcharacter⟩
    obtain ⟨last,hlast,hle⟩ : ∃ last, lastReaching painting display r c=some last ∧ c-i≤last :=
      exists_le_lastBelow hspans.1.2.1 (hspans.1.2.2.trans_eq hwidth.symm) hspans.2
    obtain ⟨hrange,hreaches⟩ := of_lastBelow_eq_some hlast
    rw [hwidth] at hrange
    have hspansLast : Spans painting display r last c := ⟨⟨hgrid.1,hrange⟩,hreaches⟩
    have hlastParts := spans_iff.mp hspansLast
    have hparts := spans_iff.mp hspans
    rcases eq_or_lt_of_le hle with rfl | hlt
    · exact hlast
    · -- no glyph begins between the first column and this one
      refine absurd (spans_iff.mpr ?_) (h.drawn r (c-i) last (spans_iff.mpr ?_) hlt
        ⟨hgrid.1,hrange⟩).2
      · exact ⟨hlastParts.1,hlastParts.2.1,hlastParts.2.2.1,le_rfl,by omega⟩
      · exact ⟨hparts.1,hparts.2.1,hparts.2.2.1,hlt.le,by omega⟩
  · rintro ⟨hlast,rfl⟩
    obtain ⟨hrange,hreaches⟩ := of_lastBelow_eq_some hlast
    rw [hwidth] at hrange
    have hdrawn := (h.drawn r (c-i) c ⟨⟨hgrid.1,hrange⟩,hreaches⟩ (by omega) hgrid).1
    rw [hdrawn,sub_sub_cancel]

/-- Wide characters that are moved as a whole stay whole. -/
theorem WideWhole.copy {display' : Display} {copy : Copy (ℤ×ℤ)}
    (h : WideWhole painting display described) (hmoved : Moved copy display display')
    (hafter : ∀ r first c from', copy.origin (r,first)=from' → first<c →
      display.InGrid (r,first) → display.InGrid (r,c) →
      Spans painting display from'.1 from'.2 (from'.2+(c-first)) →
        copy.origin (r,c)=(from'.1,from'.2+(c-first)))
    (hbefore : ∀ r c i from', copy.origin (r,c)=from'→0 < i → display.InGrid (r,c) →
      Spans painting display from'.1 (from'.2-i) from'.2 →
        display.InGrid (r,c-i) ∧ copy.origin (r,c-i)=(from'.1,from'.2-i)) :
    WideWhole painting display' (copy.run described) := by
  obtain ⟨hgrid,hsource,hoperations⟩ := hmoved
  have horigin : ∀ cell, display.InGrid cell → display.InGrid (copy.origin cell) := by
    intro cell hin
    unfold Copy.origin
    split
    · rename_i htarget
      exact hsource cell htarget
    · exact hin
  have hset : ∀ r c, display.InGrid (r,c) → ((display'.operations r c).type=.set ↔
        (display.operations (copy.origin (r,c)).1 (copy.origin (r,c)).2).type=.set) ∧
      (display'.operations r c).character=
        (display.operations (copy.origin (r,c)).1 (copy.origin (r,c)).2).character := by
    intro r c hin
    rw [hoperations r c hin]
    unfold Copy.origin
    split
    · unfold Operation.moved
      split
      · rename_i hnop
        rw [hnop]
        exact ⟨iff_of_false OperationType.noConfusion OperationType.noConfusion,rfl⟩
      · exact ⟨Iff.rfl,rfl⟩
    · exact ⟨Iff.rfl,rfl⟩
  have hspans : ∀ r first c, display.InGrid (r,first) →
      (Spans painting display' r first c ↔ Spans painting display (copy.origin (r,first)).1
        (copy.origin (r,first)).2 ((copy.origin (r,first)).2+(c-first))) := by
    intro r first c hin
    rw [spans_iff,spans_iff,(hset r first hin).1,(hset r first hin).2,hgrid]
    have hin' := horigin _ hin
    constructor
    · rintro ⟨-,htype,hglyph,hle,hlt⟩
      exact ⟨hin',htype,hglyph,by omega,by omega⟩
    · rintro ⟨-,htype,hglyph,hle,hlt⟩
      exact ⟨hin,htype,hglyph,by omega,by omega⟩
  constructor
  · intro r first c hspan hlt hin
    have hfirst := (hgrid _).mp hspan.1
    rw [hgrid] at hin
    rw [hspans r first c hfirst] at hspan
    have hfrom := hafter r first c _ rfl hlt hfirst hin hspan
    obtain ⟨hdrawn,hnone⟩ := h.drawn _ _ _ hspan (by omega)
      (by have := horigin _ hin; rwa [hfrom] at this)
    rw [hspans r c c hin,hfrom,Copy.run_origin,hfrom,(hset r first hfirst).2]
    refine ⟨?_,?_⟩
    · rw [hdrawn,add_sub_cancel_left]
    · dsimp only
      rwa [sub_self,add_zero]
  · intro r c hin character i hi hdescribed
    rw [hgrid] at hin
    rw [Copy.run_origin] at hdescribed
    obtain ⟨hspan,hcharacter⟩ := h.kept _ _ (horigin _ hin) character i hi hdescribed
    obtain ⟨hfirst,hfrom⟩ := hbefore r c i _ rfl hi hin hspan
    rw [hspans r (c-i) c hfirst,(hset r (c-i) hfirst).2,hfrom]
    dsimp only
    rw [sub_sub_cancel,sub_add_cancel]
    exact ⟨hspan,hcharacter⟩

theorem Spans.self {row first c : ℤ} (h : Spans painting display row first c) :
    Spans painting display row first first := by
  obtain ⟨hin,htype,hglyph,hle,hlt⟩ := spans_iff.mp h
  exact spans_iff.mpr ⟨hin,htype,hglyph,le_rfl,by omega⟩

theorem origin_columnsCopy (row startColumn endColumn offset r c : ℤ) :
    (columnsCopy row startColumn endColumn offset).origin (r,c)=
      (r,if r=row ∧ startColumn+offset≤c ∧ c≤endColumn+offset then c-offset else c) := by
  unfold Copy.origin columnsCopy
  dsimp only
  by_cases h : r=row ∧ startColumn+offset≤c ∧ c≤endColumn+offset
  · rw [if_pos h,if_pos (decide_eq_true h)]
  · rw [if_neg h,if_neg (by rwa [decide_eq_true_iff])]

/-- Copied columns leave wide characters whole. -/
theorem wideWhole_copyColumns (hsized : display.Sized) (h : WideWhole painting display described)
    {row startColumn endColumn offset : ℤ}
    (hrange : (DisplayCall.copyColumns row startColumn endColumn offset).InRange painting display)
    (hkeeps : (DisplayCall.copyColumns row startColumn endColumn offset).KeepsWide painting
      display) :
    WideWhole painting (guacTerminalDisplayCopyColumns display row startColumn endColumn offset)
      ((columnsCopy row startColumn endColumn offset).run described) := by
  obtain ⟨-,-,hstart,hend,-⟩ := id hrange
  have hleft := hstart.2.1
  have hright := hend.2.2
  refine h.copy (moved_copyColumns hsized hrange) ?_ ?_
  · rintro r first c _ rfl hlt hfirst hc hspan
    rw [origin_columnsCopy] at hspan ⊢
    rw [origin_columnsCopy]
    dsimp only at hspan ⊢
    by_cases hfrom : r=row ∧ startColumn+offset≤first ∧ first≤endColumn+offset
    · rw [if_pos hfrom] at hspan ⊢
      obtain ⟨rfl,hfirst0,hfirst1⟩ := hfrom
      have hwhole := (hkeeps (first-offset) _ _ hspan.self hspan).1 ⟨by omega,by omega⟩
      rw [if_pos ⟨rfl,by omega,by omega⟩]
      exact Prod.ext rfl (by dsimp only; omega)
    · rw [if_neg hfrom] at hspan ⊢
      rw [if_neg]
      · exact Prod.ext rfl (by dsimp only; omega)
      · rintro ⟨rfl,hc0,hc1⟩
        have hspanC : Spans painting display r first c := by
          rwa [show first+(c-first)=c by omega] at hspan
        exact hfrom ⟨rfl,(hkeeps first c first hspanC hspan.self).2 ⟨hc0,hc1⟩ hfirst⟩
  · rintro r c i _ rfl hi hc hspan
    rw [origin_columnsCopy] at hspan ⊢
    rw [origin_columnsCopy]
    dsimp only at hspan ⊢
    by_cases hfrom : r=row ∧ startColumn+offset≤c ∧ c≤endColumn+offset
    · rw [if_pos hfrom] at hspan ⊢
      obtain ⟨rfl,hc0,hc1⟩ := hfrom
      have hwhole := (hkeeps (c-offset-i) _ _ hspan hspan.self).1 ⟨by omega,by omega⟩
      dsimp only at hleft hright
      refine ⟨⟨hc.1,by dsimp only; omega,by dsimp only; omega⟩,?_⟩
      rw [if_pos ⟨rfl,by omega,by omega⟩]
      exact Prod.ext rfl (by dsimp only; omega)
    · rw [if_neg hfrom] at hspan ⊢
      refine ⟨hspan.1,?_⟩
      rw [if_neg]
      rintro ⟨rfl,hc0,hc1⟩
      exact hfrom ⟨rfl,(hkeeps (c-i) (c-i) c hspan.self hspan).2 ⟨hc0,hc1⟩ hc⟩

/-- Copied rows leave wide characters whole. -/
theorem wideWhole_copyRows (hsized : display.Sized) (h : WideWhole painting display described)
    {startRow endRow offset : ℤ}
    (hrange : (DisplayCall.copyRows startRow endRow offset).InRange painting display) :
    WideWhole painting (guacTerminalDisplayCopyRows display startRow endRow offset)
      ((rowsCopy display.width startRow endRow offset).run described) := by
  have horigin : ∀ r c, display.InGrid (r,c) →
      (rowsCopy display.width startRow endRow offset).origin (r,c)=
        (if startRow+offset≤r ∧ r≤endRow+offset then r-offset else r,c) := by
    intro r c hin
    unfold Copy.origin rowsCopy
    dsimp only
    by_cases hrows : startRow+offset≤r ∧ r≤endRow+offset
    · rw [if_pos hrows,if_pos (decide_eq_true ⟨hrows,hin.2⟩)]
    · rw [if_neg hrows,if_neg (by rw [decide_eq_true_iff]; exact fun hboth => hrows hboth.1)]
  refine h.copy (moved_copyRows hsized hrange) ?_ ?_
  · rintro r first c _ rfl hlt hfirst hc hspan
    rw [horigin r c hc,horigin r first hfirst]
    exact Prod.ext rfl (by dsimp only; omega)
  · rintro r c i _ rfl hi hc hspan
    rw [horigin r c hc] at hspan ⊢
    have hleft : display.InGrid (r,c-i) := ⟨hc.1,hspan.1.2⟩
    exact ⟨hleft,horigin r (c-i) hleft⟩

/-- Only glyphs are drawn in more than one column. -/
theorem hasGlyph_of_one_lt (h : 1<painting.drawnWidth character.drawn) :
    guacTerminalHasGlyph character.value=true := by
  by_contra hnot
  unfold TerminalChar.drawn at h
  rw [if_neg hnot,Painting.drawnWidth,painting.wcwidth_space] at h
  exact absurd h (by decide)

/-- Drawn columns leave wide characters whole. -/
theorem wideWhole_setColumns (h : WideWhole painting display described)
    {row startColumn endColumn : ℤ} (hrange : (DisplayCall.setColumns row startColumn endColumn
      character).InRange painting display)
    (hkeeps : (DisplayCall.setColumns row startColumn endColumn character).KeepsWide painting
      display) :
    WideWhole painting (guacTerminalDisplaySetColumns display row startColumn endColumn character)
      (drawColumns character.width (painting.drawnWidth character.drawn)
        (Described.column character) row startColumn endColumn described) := by
  by_cases hzero : character.width=0
  · rw [drawColumns,if_pos hzero,guacTerminalDisplaySetColumns,if_pos hzero]
    exact h
  have hpositive : 0<character.width := by
    have hwidth := hrange.2.2.1
    omega
  have hdrawn := hrange.2.2.2 hzero
  obtain ⟨hfit,hcovers,hbehind⟩ := hkeeps hzero
  obtain ⟨hgrid,hoperations⟩ := setColumns_operations hrange hzero
  have hspec := fun r c => @drawColumns_spec Described character.width
    (painting.drawnWidth character.drawn) row startColumn endColumn hpositive
    (Described.column character) described (r,c)
  generalize drawColumns character.width (painting.drawnWidth character.drawn)
    (Described.column character) row startColumn endColumn described=drawn at hspec ⊢
  generalize guacTerminalDisplaySetColumns display row startColumn endColumn character=display'
    at hgrid hoperations ⊢
  have hsame : ∀ {r c}, ¬(r=row ∧ DrawnIn painting row startColumn endColumn character c) →
      drawn (r,c)=described (r,c) := by
    intro r c hnot
    rcases hspec r c with ⟨heq,-⟩ | ⟨i,hi,hon,-⟩
    · exact heq
    · obtain rfl : r=row := hon.1
      exact absurd ⟨rfl,i,hi,hon⟩ hnot
  have hnew : ∀ {i c}, 0 ≤ i ∧ i≤(endColumn-startColumn)/character.width →
      DrawnOn character.width (painting.drawnWidth character.drawn) row startColumn i (row,c) →
        drawn (row,c)=.column character (c-(startColumn+i*character.width)) := by
    intro i c hi hon
    rcases hspec row c with ⟨-,hnone⟩ | ⟨j,-,hon',heq⟩
    · exact absurd hon (hnone i hi.1 hi.2)
    · rw [heq,hon'.unique hpositive hfit hon]
  have hold : ∀ {r first c}, ¬(r=row ∧ startColumn≤first ∧ first≤endColumn ∧
      (first-startColumn)%character.width=0) →
        (Spans painting display' r first c ↔ Spans painting display r first c) := by
    intro r first c hnot
    rw [spans_iff,spans_iff,hgrid,hoperations,if_neg hnot]
  -- a glyph that was pending and still is has no column that is drawn in
  have hapart : ∀ {first c}, ¬(startColumn≤first ∧ first≤endColumn ∧
      (first-startColumn)%character.width=0)→Spans painting display row first c →
        ¬DrawnIn painting row startColumn endColumn character c := by
    intro first c hnot hspan hin
    obtain ⟨i,hi,hon⟩ := hcovers first c first hspan hspan.self hin hspan.1
    refine hbehind first ⟨i,hi,hon⟩ (fun hmod => hnot ((written_iff hpositive).mpr ⟨i,hi,?_⟩))
      hspan.self
    obtain ⟨-,hle,hlt⟩ := hon
    dsimp only at hle hlt
    have hrest : (first-startColumn-i*character.width)%character.width=0 := by
      rw [Int.sub_emod,hmod,Int.mul_emod_left]
      rfl
    rw [Int.emod_eq_of_lt (by omega) (by omega)] at hrest
    omega
  constructor
  · intro r first c hspan hlt hin
    rw [hgrid] at hin
    by_cases hwritten : r=row ∧ startColumn≤first ∧ first≤endColumn ∧
        (first-startColumn)%character.width=0
    · obtain ⟨rfl,hwritten⟩ := hwritten
      obtain ⟨-,-,-,-,hreach⟩ := spans_iff.mp hspan
      rw [hoperations,if_pos ⟨rfl,hwritten⟩] at hreach ⊢
      obtain ⟨i,hi,rfl⟩ := (written_iff hpositive).mp hwritten
      dsimp only at hreach
      have hon : DrawnOn character.width (painting.drawnWidth character.drawn) r startColumn i
          (r,c) := ⟨rfl,hlt.le,hreach⟩
      have hmod : (c-startColumn)%character.width≠0 := by
        have hrest : c-startColumn=c-(startColumn+i*character.width)+i*character.width := by
          omega
        rw [hrest,Int.add_mul_emod_self_right,Int.emod_eq_of_lt (sub_nonneg.mpr hlt.le) (by omega)]
        exact (sub_pos.mpr hlt).ne'
      refine ⟨hnew hi hon,fun hspan' => hbehind c ⟨i,hi,hon⟩ hmod ?_⟩
      exact (hold fun hboth => hmod hboth.2.2.2).mp hspan'
    · rw [hold hwritten] at hspan
      obtain ⟨hdrawn',hnone⟩ := h.drawn r first c hspan hlt hin
      have hnot : ¬(r=row ∧ DrawnIn painting row startColumn endColumn character c) := by
        rintro ⟨rfl,hin'⟩
        exact hapart (fun hw => hwritten ⟨rfl,hw⟩) hspan hin'
      rw [hsame hnot,hoperations,if_neg hwritten]
      refine ⟨hdrawn',fun hspan' => hnone ((hold ?_).mp hspan')⟩
      rintro ⟨rfl,hw⟩
      obtain ⟨i,hi,rfl⟩ := (written_iff hpositive).mp hw
      exact hnot ⟨rfl,i,hi,rfl,le_rfl,by dsimp only; omega⟩
  · intro r c hin other k hk hdescribed
    rw [hgrid] at hin
    by_cases hin' : r=row ∧ DrawnIn painting row startColumn endColumn character c
    · obtain ⟨rfl,i,hi,hon⟩ := hin'
      rw [hnew hi hon] at hdescribed
      obtain ⟨rfl,rfl⟩ := Described.column.inj hdescribed
      obtain ⟨-,hle,hreach⟩ := hon
      dsimp only at hle hreach
      have hwritten := (written_iff hpositive).mpr ⟨i,hi,Eq.refl (startColumn+i*character.width)⟩
      have hmore : 1<painting.drawnWidth character.drawn := by omega
      rw [sub_sub_cancel,spans_iff,hgrid,hoperations,if_pos ⟨rfl,hwritten⟩]
      obtain ⟨⟨hrow,hstart⟩,⟨-,hend⟩,-⟩ := hrange
      dsimp only at hrow hstart hend
      exact ⟨⟨⟨hrow,by dsimp only; omega,by dsimp only; omega⟩,rfl,
        hasGlyph_of_one_lt hmore,hle,hreach⟩,rfl⟩
    · rw [hsame hin'] at hdescribed
      obtain ⟨hspan,hother⟩ := h.kept r c hin other k hk hdescribed
      have hwritten : ¬(r=row ∧ startColumn≤c-k ∧ c-k≤endColumn ∧
          (c-k-startColumn)%character.width=0) := by
        rintro ⟨rfl,hw⟩
        obtain ⟨i,hi,hfirst⟩ := (written_iff hpositive).mp hw
        refine hin' ⟨rfl,hcovers (c-k) (c-k) c hspan.self hspan ⟨i,hi,rfl,hfirst.ge,?_⟩ hin⟩
        dsimp only
        omega
      rw [hold hwritten,hoperations,if_neg hwritten]
      exact ⟨hspan,hother⟩

/-- The condition under which calls can be recorded: none cuts a wide character in the grid
that it changes, and in the grid in the end copies are apart and clears alike. -/
structure FlushesSafely (painting : Painting α) (display : Display) (calls : List DisplayCall) :
    Prop where
  copies : CopiesApart (recordAll calls display)
  clears : ClearsAlike (recordAll calls display)
  wide : Along (fun call display => some (DisplayCall.record display call))
    (fun call display => call.KeepsWide painting display) calls display

theorem recordsAll_previous (painting : Painting α) (hnone : NoPending display) :
    RecordsAll painting display Described.previous :=
  fun r c hin => Or.inr ⟨hnone r c hin,rfl⟩

theorem wideWhole_previous (painting : Painting α) (hnone : NoPending display) :
    WideWhole painting display Described.previous := by
  refine ⟨fun r first c hspan => ?_,fun r c _ character i _ h => Described.noConfusion h⟩
  obtain ⟨hin,hset,-⟩ := spans_iff.mp hspan
  exact OperationType.noConfusion ((hnone r first hin).symm.trans hset)

/-- No call that keeps wide characters cuts one. -/
theorem wideWhole_record (hsized : display.Sized) (h : WideWhole painting display described)
    {call : DisplayCall} (hrange : call.InRange painting display)
    (hkeeps : call.KeepsWide painting display) :
    WideWhole painting (call.record display)
      (call.draw display.width (fun character => painting.drawnWidth character.drawn)
        Described.column described) := by
  cases call with
  | copyColumns row startColumn endColumn offset =>
    exact wideWhole_copyColumns hsized h hrange hkeeps
  | copyRows startRow endRow offset => exact wideWhole_copyRows hsized h hrange
  | setColumns row startColumn endColumn character =>
    exact wideWhole_setColumns h hrange hkeeps

/-- The grid after calls records what they leave, with wide characters whole. -/
theorem recordsAll_recordAll {calls : List DisplayCall} (hsized : display.Sized)
    (hrange : ∀ call∈calls, call.InRange painting display)
    (h : RecordsAll painting display described) (hwide : WideWhole painting display described)
    (hkeeps : Along (fun call display => some (DisplayCall.record display call))
      (fun call display => call.KeepsWide painting display) calls display) :
    (∃ operations bounded, recordAll calls display=
        { display with operations := operations, bounded := bounded }) ∧
      RecordsAll painting (recordAll calls display) (calls.foldl (DisplayCall.draw display.width
          (fun character => painting.drawnWidth character.drawn) Described.column) described) ∧
      WideWhole painting (recordAll calls display) (calls.foldl (DisplayCall.draw display.width
          (fun character => painting.drawnWidth character.drawn) Described.column) described) := by
  induction calls generalizing display described with
  | nil => exact ⟨⟨display.operations,display.bounded,rfl⟩,h,hwide⟩
  | cons call calls ih =>
    obtain ⟨operations,bounded,hrecord⟩ := record_keeps display call
    have hrange' := hrange call mem_cons_self
    have hrecorded := recordsAll_record hsized h hrange'
    have hwhole := wideWhole_record hsized hwide hrange' hkeeps.1
    have hsized' : (call.record display).Sized := by
      rw [hrecord]
      exact ⟨hsized.1,hsized.2,hsized.3,hsized.4⟩
    have hlater : ∀ later∈calls, later.InRange painting (call.record display) := by
      intro later hmem
      have hlater' := hrange later (mem_cons_of_mem _ hmem)
      rw [hrecord]
      cases later <;> exact hlater'
    have hwidth : (call.record display).width=display.width := by rw [hrecord]
    obtain ⟨⟨operations',bounded',hrest⟩,hall⟩ := ih hsized' hlater hrecorded hwhole hkeeps.2
    rw [hwidth] at hall
    refine ⟨⟨operations',bounded',?_⟩,hall⟩
    calc recordAll (call::calls) display=recordAll calls (call.record display) := rfl
      _ = _ := hrest
      _ = _ := by rw [hrecord]

/-- What is drawn for a character without a glyph is its color. -/
theorem column_of_not_glyph (painting : Painting α) (display : Display)
    (h : guacTerminalHasGlyph character.value=false) :
    painting.column display character 0=painting.fill (clearColor display character).rgb := by
  have hdrawn : character.drawn=32 := by
    unfold TerminalChar.drawn
    rw [h]
    rfl
  unfold Painting.column
  rw [hdrawn]
  exact painting.glyph_space _ _

/-- A flush shows what the operations record. -/
theorem flush_records (painting : Painting α) (hsized : display.Sized)
    (hrecords : RecordsAll painting display described) (hapart : CopiesApart display)
    (halike : ClearsAlike display) (hwide : WideWhole painting display described)
    (screen : Screen α) {r c : ℤ} (hgrid : display.InGrid (r,c)) :
    (guacTerminalDisplayFlushScreen painting display screen).2 (r,c)=
      (described (r,c)).shown painting display screen := by
  have hcell := hrecords r c hgrid
  rw [flushScreen_shown painting hsized hapart halike hgrid]
  cases hlast : lastReaching painting display r c with
  | some col =>
    obtain ⟨hrange,hreaches⟩ := of_lastBelow_eq_some hlast
    obtain ⟨hset,hle,-⟩ := of_decide_eq_true (Bool.and_eq_true_iff.mp hreaches).2
    rcases eq_or_lt_of_le hle with rfl | hlt
    · -- the character of the cell itself is the last
      cases hdescribed : described (r,col) with
      | previous source =>
        rw [hdescribed] at hcell
        rcases hcell with ⟨hcopy,-⟩ | ⟨hnop,-⟩
        · exact absurd (hset.symm.trans hcopy) OperationType.noConfusion
        · exact absurd (hset.symm.trans hnop) OperationType.noConfusion
      | column character i =>
        rw [hdescribed] at hcell
        rcases hcell with hi | ⟨rfl,-,rfl,-⟩
        · obtain ⟨heq,-⟩ := (hwide.described_iff hsized hgrid hi).mp hdescribed
          have hcol := Option.some.inj (hlast.symm.trans heq)
          omega
        · dsimp only
          rw [sub_self]
          rfl
    · have hspans : Spans painting display r col c := by
        rw [Int.toNat_of_nonneg hsized.width_nonneg] at hrange
        exact ⟨⟨hgrid.1,hrange⟩,hreaches⟩
      rw [(hwide.drawn r col c hspans hlt hgrid).1]
      rfl
  | none =>
    dsimp only
    cases hdescribed : described (r,c) with
    | previous source =>
      rw [hdescribed] at hcell
      rcases hcell with ⟨hcopy,rfl⟩ | ⟨hnop,rfl⟩
      · rw [clears_of_copy hcopy,if_neg Bool.false_ne_true,if_pos hcopy]
        rfl
      · have hclears : (display.operations r c).clears=false := by
          unfold Operation.clears
          rw [hnop]
          rfl
        have hcopy : (display.operations r c).type≠.copy := by
          rw [hnop]
          exact OperationType.noConfusion
        rw [hclears,if_neg Bool.false_ne_true,if_neg hcopy]
        rfl
    | column character i =>
      rw [hdescribed] at hcell
      rcases hcell with hi | ⟨rfl,hset,rfl,hdrawn⟩
      · obtain ⟨heq,-⟩ := (hwide.described_iff hsized hgrid hi).mp hdescribed
        exact absurd (hlast.symm.trans heq) (Option.some_ne_none _).symm
      · -- a glyph would be drawn over the cell
        have hglyph : guacTerminalHasGlyph (display.operations r c).character.value=false := by
          by_contra hhas
          have hreaches : reaches painting display r c c=true :=
            decide_eq_true ⟨hset,le_rfl,lt_add_of_pos_right c hdrawn⟩
          obtain ⟨col,heq,-⟩ : ∃ col, lastReaching painting display r c=some col ∧ c≤col :=
            exists_le_lastBelow hgrid.2.1
              (hgrid.2.2.trans_eq (Int.toNat_of_nonneg hsized.width_nonneg).symm)
              (Bool.and_eq_true_iff.mpr ⟨Bool.eq_true_of_not_eq_false hhas,hreaches⟩)
          exact absurd (hlast.symm.trans heq) (Option.some_ne_none _).symm
        have hclears : (display.operations r c).clears=true := by
          unfold Operation.clears
          rw [hset,hglyph]
          rfl
        rw [hclears,if_pos rfl]
        exact (column_of_not_glyph painting display hglyph).symm

/-- The flush of what calls have recorded shows what the calls would have drawn. -/
theorem flushesAsDrawn (painting : Painting α) (display : Display) (calls : List DisplayCall)
    (hsized : display.Sized) (hnone : NoPending display)
    (hrange : ∀ call∈calls, call.InRange painting display)
    (hsafe : FlushesSafely painting display calls) : FlushesAsDrawn painting display calls := by
  rintro screen ⟨r,c⟩ hgrid
  obtain ⟨⟨operations,bounded,hkeeps⟩,hrecords,hwide⟩ := recordsAll_recordAll hsized hrange
    (recordsAll_previous painting hnone) (wideWhole_previous painting hnone) hsafe.wide
  have hsized' : (recordAll calls display).Sized := by
    rw [hkeeps]
    exact ⟨hsized.1,hsized.2,hsized.3,hsized.4⟩
  have hgrid' : (recordAll calls display).InGrid (r,c) := by
    rw [hkeeps]
    exact hgrid
  have hcolumn : painting.column (recordAll calls display)=painting.column display := by
    rw [hkeeps]
    rfl
  have hshown : Described.shown painting (recordAll calls display) screen=
      Described.shown painting display screen := by
    funext described
    cases described with
    | previous cell => rfl
    | column character i => exact congrFun (congrFun hcolumn character) i
  rw [flush_records painting hsized' hrecords hsafe.copies hsafe.clears hwide screen hgrid',
    drawAll_eq,hshown]
  rfl

/-- Cells that show a code point, its colors and the column. -/
def cellPainting : Painting (ℤ×Rgb×Rgb×ℤ) where
  wcwidth codepoint := if codepoint=0x4E2D then 2 else 1
  glyph codepoint foreground background i :=
    if codepoint=32 then (32,background,background,0)
    else (codepoint,foreground,background,i)
  fill color := (32,color,color,0)
  wcwidth_space := rfl
  glyph_space _ _ := rfl

def gray : Color := ⟨-2,0x99,0x99,0x99⟩

def black : Color := ⟨-3,0,0,0⟩

/-- A grid with nothing pending. -/
def emptyGrid (width height : ℤ) : Display where
  operations _ _ := ⟨.nop,⟨0,⟨false,false,false,false,false,gray,black⟩,1⟩,0,0⟩
  width := width
  height := height
  charWidth := 8
  charHeight := 16
  palette _ := gray
  defaultPalette _ := gray
  defaultForeground := gray
  defaultBackground := black
  bounded := true

def letterX : TerminalChar := ⟨0x78,⟨false,false,false,false,false,gray,black⟩,1⟩

def blank : TerminalChar := ⟨0,⟨false,false,false,false,false,gray,black⟩,1⟩

def wideLetter : TerminalChar := ⟨0x4E2D,⟨false,false,false,false,false,gray,black⟩,2⟩

/-- The rows of a display are moved up, and a wide character is inserted twice in the last. -/
def scrolledGrid : List DisplayCall :=
  [.copyRows 1 2 (-1),.setColumns 2 0 3 blank,.setColumns 2 0 1 wideLetter,.copyColumns 2 0 1 2]

theorem scrolledGrid_inRange : ∀ call∈scrolledGrid, call.InRange cellPainting (emptyGrid 4 3) := by
  unfold scrolledGrid
  simp only [forall_mem_cons,not_mem_nil,IsEmpty.forall_iff,implies_true,and_true]
  refine ⟨?_,?_,?_,?_⟩ <;> unfold DisplayCall.InRange <;> decide

/-- The cells of a grid can be counted. -/
theorem exists_of_inGrid {width height : ℕ} (hwidth : display.width=width)
    (hheight : display.height=height) {r c : ℤ} (hin : display.InGrid (r,c)) :
    ∃ i<height, ∃ j<width, r=Nat.cast i ∧ c=Nat.cast j := by
  obtain ⟨⟨hr,hr'⟩,hc,hc'⟩ := hin
  lift r to ℕ using hr
  lift c to ℕ using hc
  exact ⟨r,by dsimp only at hr'; omega,c,by dsimp only at hc'; omega,rfl,rfl⟩

/-- No glyph is pending in a grid of blanks. -/
theorem not_spans {width height : ℕ} (hwidth : display.width=width)
    (hheight : display.height=height)
    (h : ∀ i<height, ∀ j<width, (display.operations i j).type=.set →
      guacTerminalHasGlyph (display.operations i j).character.value=false) (r first c : ℤ) :
    ¬Spans painting display r first c := by
  intro hspan
  obtain ⟨hin,hset,hglyph,-⟩ := spans_iff.mp hspan
  obtain ⟨i,hi,j,hj,rfl,rfl⟩ := exists_of_inGrid hwidth hheight hin
  exact Bool.false_ne_true ((h i hi j hj hset).symm.trans hglyph)

theorem scrolledGrid_keepsWide : Along (fun call display => some (DisplayCall.record display call))
      (fun call display => call.KeepsWide cellPainting display) scrolledGrid (emptyGrid 4 3) := by
  refine ⟨trivial,fun _ => ?_,fun _ => ?_,fun first c c' hc hc' => ?_,trivial⟩
  · have hnone := @not_spans _ cellPainting (recordAll (scrolledGrid.take 1) (emptyGrid 4 3))
      4 3 rfl rfl (by decide)
    exact ⟨by decide,fun first c _ h => absurd h (hnone 2 first c),fun c _ _ => hnone 2 c c⟩
  · have hnone := @not_spans _ cellPainting (recordAll (scrolledGrid.take 2) (emptyGrid 4 3))
      4 3 rfl rfl (by decide)
    exact ⟨by decide,fun first c _ h => absurd h (hnone 2 first c),fun c _ _ => hnone 2 c c⟩
  · -- the wide character is in the columns that are copied
    have hglyphs : ∀ i : ℕ, i<3→∀ j : ℕ, j<4 →
        ((recordAll (scrolledGrid.take 3) (emptyGrid 4 3)).operations i j).type=.set →
          guacTerminalHasGlyph ((recordAll (scrolledGrid.take 3)
            (emptyGrid 4 3)).operations i j).character.value=true →
          j=0 ∧ cellPainting.drawnWidth ((recordAll (scrolledGrid.take 3)
            (emptyGrid 4 3)).operations i j).character.drawn=2 := by decide
    have hfirst : ∀ {c}, Spans cellPainting (recordAll (scrolledGrid.take 3) (emptyGrid 4 3)) 2
        first c→0≤c ∧ c<2 := by
      intro c hspan
      obtain ⟨hin,hset,hglyph,hle,hlt⟩ := spans_iff.mp hspan
      obtain ⟨i,hi,j,hj,hrow,rfl⟩ := @exists_of_inGrid _ 4 3 rfl rfl _ _ hin
      rw [hrow] at hset hglyph hlt
      obtain ⟨rfl,hdrawn⟩ := hglyphs i hi j hj hset hglyph
      rw [hdrawn] at hlt
      exact ⟨hle,hlt⟩
    have hcopied := hfirst hc
    have hcopied' := hfirst hc'
    exact ⟨by omega,by omega⟩

theorem scrolledGrid_safe : FlushesSafely cellPainting (emptyGrid 4 3) scrolledGrid := by
  obtain ⟨display,hdisplay⟩ : ∃ display, display=recordAll scrolledGrid (emptyGrid 4 3) := ⟨_,rfl⟩
  have hwidth : display.width=4 := congrArg Display.width hdisplay
  have hheight : display.height=3 := congrArg Display.height hdisplay
  have hcopies : ∀ i : ℕ, i<3→∀ j : ℕ, j<4→(display.operations i j).type=.copy →
      (display.operations i j).row=i+1 ∧ (display.operations i j).column=j := by
    subst hdisplay
    decide
  have hclears : ∀ i : ℕ, i<3→∀ j : ℕ, j<4→(display.operations i j).clears=true →
      display.ClearsWith (display.operations i j) (display.operations i j) ∧
        (clearColor display (display.operations i j).character).rgb=black.rgb := by
    subst hdisplay
    decide
  have hcells := fun r c => @exists_of_inGrid display 4 3 hwidth hheight r c
  refine ⟨?_,?_,scrolledGrid_keepsWide⟩ <;> rw [←hdisplay]
  · rintro motion motion' ⟨r,c⟩ ⟨hin,htype,hrow,hcolumn⟩ - -
    obtain ⟨i,hi,j,hj,rfl,rfl⟩ := hcells r c hin
    obtain ⟨hrow',hcolumn'⟩ := hcopies i hi j hj htype
    dsimp only at hrow hcolumn
    exact Or.inl ⟨by omega,by omega⟩
  · have hblack : ∀ r c, display.InGrid (r,c)→(display.operations r c).clears=true →
        display.ClearsWith (display.operations r c) (display.operations r c) ∧
          (clearColor display (display.operations r c).character).rgb=black.rgb := by
      intro r c hin hclear
      obtain ⟨i,hi,j,hj,rfl,rfl⟩ := hcells r c hin
      exact hclears i hi j hj hclear
    refine ⟨fun r c hin hclear => (hblack r c hin hclear).1,fun row col r c hrow hcol hall => ?_⟩
    obtain ⟨hin,hclear⟩ := hall r c hrow le_rfl hcol le_rfl
    obtain ⟨hin',hclear'⟩ := hall row col le_rfl hrow le_rfl hcol
    rw [(hblack r c hin hclear.1).2,(hblack row col hin' hclear'.1).2]

theorem emptyGrid_noPending (width height : ℤ) : NoPending (emptyGrid width height) :=
  fun _ _ _ => rfl

theorem flushesAsDrawn_scrolledGrid : FlushesAsDrawn cellPainting (emptyGrid 4 3) scrolledGrid :=
  flushesAsDrawn cellPainting (emptyGrid 4 3) scrolledGrid ⟨by decide,by decide,by decide,by decide⟩
    (emptyGrid_noPending 4 3) scrolledGrid_inRange scrolledGrid_safe

/-- The rows of a display are moved down, and a character is set in the last. -/
def scrolledDown : List DisplayCall := [.copyRows 0 1 1,.setColumns 2 1 1 letterX]

/-- What is left of the last row is copied from a row that was copied to before. -/
theorem not_flushesAsDrawn :
    (∀ call∈scrolledDown, call.InRange cellPainting (emptyGrid 2 3)) ∧ NoPending (emptyGrid 2 3) ∧
      ¬FlushesAsDrawn cellPainting (emptyGrid 2 3) scrolledDown := by
  have hcopied : (DisplayCall.copyRows 0 1 1).InRange cellPainting (emptyGrid 2 3) := by
    refine ⟨?_,?_,?_,?_,?_⟩ <;> decide
  have hset : (DisplayCall.setColumns 2 1 1 letterX).InRange cellPainting (emptyGrid 2 3) := by
    refine ⟨?_,?_,?_,?_⟩ <;> decide
  refine ⟨forall_mem_cons.mpr ⟨hcopied,forall_mem_singleton.mpr hset⟩,
    emptyGrid_noPending 2 3,fun h => ?_⟩
  have hcell := h (fun cell => (cell.1,(0,0,0),(0,0,0),cell.2)) (2,0) (by decide)
  exact absurd hcell (by decide)

end GuacServer.Terminal
