import GuacServer.TerminalBounds
import GuacServer.WideRows

/-!
# Characters of several columns in a terminal

A cell that is not a continuation begins a character. What is written to columns
or copied within a row cuts characters where the range begins and ends, and a
break is forced at both of its edges afterwards. A copy that the row is too
short for ends elsewhere.
-/

namespace GuacServer.Terminal

open DecimalNumerals WideRows

/-- The width of the character that begins in a cell, if one does. -/
def TerminalChar.begins (c : TerminalChar) : Option ℤ :=
  if c.value=charContinuation then none else some c.width

/-- The characters of a row. -/
def BufferRow.shape (bufferRow : BufferRow) : Shape := fun i => (bufferRow.characters i).begins

/-- All characters of a row are whole. -/
def BufferRow.AllWhole (bufferRow : BufferRow) : Prop := RowWhole bufferRow.shape bufferRow.length

theorem begins_of_ne {c : TerminalChar} (hvalue : c.value≠charContinuation) :
    c.begins=some c.width := if_neg hvalue

theorem begins_eq_none {c : TerminalChar} : c.begins=none ↔ c.value=charContinuation := by
  unfold TerminalChar.begins
  split_ifs with hvalue
  · exact iff_of_true rfl hvalue
  · exact iff_of_false not_false hvalue

theorem begins_eq_some {c : TerminalChar} {width : ℤ} :
    c.begins=some width ↔ c.value≠charContinuation ∧ c.width=width := by
  unfold TerminalChar.begins
  split_ifs with hvalue
  · exact iff_of_false not_false fun h => h.1 hvalue
  · exact Option.some_inj.trans (and_iff_right hvalue).symm

theorem begins_marked (c : TerminalChar) (cursor : Bool) : (c.marked cursor).begins=c.begins := rfl

/-- A character has at least one column. -/
theorem RowOk.width_pos {bufferRow : BufferRow} (h : RowOk bufferRow) {i width : ℤ} (h0 : 0 ≤ i)
    (h1 : i<bufferRow.length) (hwidth : bufferRow.shape i=some width) : 1≤width := by
  unfold BufferRow.shape TerminalChar.begins at hwidth
  split_ifs at hwidth with hvalue
  obtain rfl := Option.some.inj hwidth
  exact (h.cells i h0 h1).2 hvalue

theorem expand_characters (bufferRow : BufferRow) (character : TerminalChar) (width i : ℤ) :
    (bufferRow.expand character width).characters i=
      if bufferRow.length ≤ i ∧ i<width then character else bufferRow.characters i := by
  unfold BufferRow.expand
  split
  · rfl
  · rw [if_neg (by omega)]

theorem expand_shape (bufferRow : BufferRow) (character : TerminalChar) (width i : ℤ) :
    (bufferRow.expand character width).shape i=
      if bufferRow.length ≤ i ∧ i<width then character.begins else bufferRow.shape i := by
  unfold BufferRow.shape
  rw [expand_characters]
  split
  · rfl
  · rfl

variable {character : TerminalChar} {endColumn startColumn : ℤ}

/-- New cells are characters of one column. -/
theorem brokenAt_of_expand {bufferRow : BufferRow} (hone : character.begins=some 1)
    {width column : ℤ}
    (hbroken : BrokenAt (bufferRow.expand character width).shape
      (bufferRow.expand character width).length column) :
    BrokenAt bufferRow.shape bufferRow.length column := by
  rw [expand_length] at hbroken
  refine brokenAt_of_extended (le_max_left ..) (fun i hi => ?_) (fun i hi hi' => ?_) hbroken
  · rw [expand_shape,if_neg (by omega)]
  · rw [expand_shape,if_pos (by omega)]
    exact hone

theorem BufferRow.AllWhole.expand {bufferRow : BufferRow} (h : bufferRow.AllWhole)
    (hone : character.begins=some 1) (width : ℤ) : (bufferRow.expand character width).AllWhole :=
  rowWhole_iff.mpr fun column hbroken => rowWhole_iff.mp h column (brokenAt_of_expand hone hbroken)

/-! ## Rows of the scrollback -/

/-- All characters in the scrollback are whole, and those of new cells have one
column. -/
structure RowsWhole (buffer : Buffer) : Prop where
  rows : ∀ i, (buffer.rows i).AllWhole
  default : buffer.defaultCharacter.begins=some 1

/-- Another scrollback differs in the cells of a row only. -/
structure OnlyRow (row : ℤ) (buffer buffer' : Buffer) : Prop where
  top : buffer'.top=buffer.top
  available : buffer'.available=buffer.available
  default : buffer'.defaultCharacter=buffer.defaultCharacter
  rows : ∀ i, i≠buffer.index row → buffer'.rows i=buffer.rows i

/-- The characters of the other rows are whole, and those of the row are broken at
most near a column of it. -/
structure WholeBut (row start : ℤ) (buffer : Buffer) : Prop where
  default : buffer.defaultCharacter.begins=some 1
  others : ∀ i, i≠buffer.index row→(buffer.rows i).AllWhole
  near : ∀ column, BrokenAt (buffer.row row).shape (buffer.row row).length column →
    start≤(buffer.row row).length ∧ Near (buffer.row row).shape start column

section

variable {row : ℤ} {buffer buffer' buffer'' : Buffer}

theorem OnlyRow.refl (row : ℤ) (buffer : Buffer) : OnlyRow row buffer buffer :=
  ⟨rfl,rfl,rfl,fun _ _ => rfl⟩

theorem OnlyRow.index (h : OnlyRow row buffer buffer') : buffer'.index=buffer.index := by
  funext i
  unfold Buffer.index
  rw [h.top,h.available]

theorem OnlyRow.trans (h : OnlyRow row buffer buffer') (h' : OnlyRow row buffer' buffer'') :
    OnlyRow row buffer buffer'' := by
  refine ⟨h'.top.trans h.top,h'.available.trans h.available,h'.default.trans h.default,?_⟩
  intro i hi
  rw [←h.rows i hi]
  refine h'.rows i ?_
  rwa [h.index]

theorem onlyRow_setRow (row : ℤ) (buffer : Buffer) (bufferRow : BufferRow) :
    OnlyRow row buffer (buffer.setRow row bufferRow) :=
  ⟨rfl,rfl,rfl,fun _ hi => Function.update_of_ne hi _ _⟩

theorem onlyRow_getRow (row : ℤ) (buffer : Buffer) (width : ℤ) :
    OnlyRow row buffer (guacTerminalBufferGetRow buffer row width) := by
  have hset := onlyRow_setRow row buffer ((buffer.row row).expand buffer.defaultCharacter width)
  exact ⟨hset.top,hset.available,hset.default,hset.rows⟩

theorem RowsWhole.wholeBut (h : RowsWhole buffer) (row start : ℤ) : WholeBut row start buffer :=
  ⟨h.default,fun i _ => h.rows i,fun column hbroken =>
    absurd hbroken (rowWhole_iff.mp (h.rows _) column)⟩

theorem RowsWhole.bufferRow (h : RowsWhole buffer) (row : ℤ) : (buffer.row row).AllWhole := h.rows _

/-- What is broken near a column of a row may be repaired in the row. -/
theorem WholeBut.rowsWhole {start : ℤ} (h : WholeBut row start buffer)
    (honly : OnlyRow row buffer buffer') (hrow : (buffer'.row row).AllWhole) :
    RowsWhole buffer' := by
  refine ⟨fun i => ?_,by rw [honly.default,h.default]⟩
  rcases eq_or_ne i (buffer.index row) with rfl | hi
  · rwa [Buffer.row,honly.index] at hrow
  · rw [honly.rows i hi]
    exact h.others i hi

theorem RowsWhole.onlyRow (h : RowsWhole buffer) (honly : OnlyRow row buffer buffer')
    (hrow : (buffer'.row row).AllWhole) : RowsWhole buffer' :=
  (h.wholeBut row 0).rowsWhole honly hrow

theorem RowsWhole.getRow (h : RowsWhole buffer) (row width : ℤ) :
    RowsWhole (guacTerminalBufferGetRow buffer row width) := by
  refine h.onlyRow (onlyRow_getRow row buffer width) ?_
  rw [row_getRow]
  exact (h.bufferRow row).expand h.default width

end

variable {width height : ℤ} {term : GuacTerminal}

/-! ## Characters that are set -/

/-- The cells of a row to which a character was written. -/
theorem setColumns_characters (buffer : Buffer) (row startColumn endColumn : ℤ)
    (character : TerminalChar) (hend : -1≤endColumn) (hlast : endColumn<2^30-1)
    (hc : 1≤character.width) (i : ℤ) :
    ((guacTerminalBufferSetColumns buffer row startColumn endColumn character).row
        row).characters i=
      if startColumn ≤ i ∧ i≤lastWritten startColumn endColumn character.width then
        if (i-startColumn)%character.width=0 then character
        else ⟨charContinuation,character.attributes,0⟩
      else ((buffer.row row).expand buffer.defaultCharacter (endColumn+1)).characters i := by
  unfold guacTerminalBufferSetColumns
  rw [if_neg (by omega)]
  dsimp only
  rw [wrap32_of_range (by omega) (by omega),←row_getRow]
  generalize guacTerminalBufferGetRow buffer row (endColumn+1)=got
  show ((got.setRow row _).row row).characters i=_
  rw [row_setRow]

theorem onlyRow_setColumns (buffer : Buffer) (row startColumn endColumn : ℤ)
    (character : TerminalChar) :
    OnlyRow row buffer
      (guacTerminalBufferSetColumns buffer row startColumn endColumn character) := by
  unfold guacTerminalBufferSetColumns
  split
  · exact OnlyRow.refl row buffer
  · have hgot := onlyRow_getRow row buffer (wrap32 (endColumn+1))
    dsimp only
    generalize guacTerminalBufferGetRow buffer row (wrap32 (endColumn+1))=got at *
    refine hgot.trans ?_
    exact ⟨rfl,rfl,rfl,fun i hi => Function.update_of_ne hi _ _⟩

theorem onlyRow_setColumnsUnbroken (term : GuacTerminal) (row startColumn endColumn : ℤ)
    (character : TerminalChar) :
    OnlyRow row term.buffer
      (setColumnsUnbroken term row startColumn endColumn character).buffer := by
  rw [setColumnsUnbroken_buffer]
  exact onlyRow_setColumns ..

/-- A character is repeated in the columns of a range. -/
theorem setColumnsUnbroken_characters (term : GuacTerminal) (row startColumn endColumn : ℤ)
    (character : TerminalChar) (hend : -1≤endColumn) (hlast : endColumn<2^30-1)
    (hc : 1≤character.width) (i : ℤ) :
    ((setColumnsUnbroken term row startColumn endColumn character).buffer.row row).characters i=
      if startColumn ≤ i ∧ i≤lastWritten startColumn endColumn character.width then
        if (i-startColumn)%character.width=0 then character
        else ⟨charContinuation,character.attributes,0⟩
      else ((term.buffer.row row).expand term.buffer.defaultCharacter
        (endColumn+1)).characters i := by
  rw [setColumnsUnbroken_buffer]
  exact setColumns_characters term.buffer row startColumn endColumn character hend hlast hc i

/-- The cells of a row a part of which was cleared. -/
theorem cleared_characters (h : BufferOk term.buffer) {row : ℤ} (startColumn : ℤ)
    {space : TerminalChar} (hspace : space.width=1) (h0 : 0≤endColumn)
    (h1 : endColumn<term.rowLength row) (i : ℤ) :
    ((setColumnsUnbroken term row startColumn endColumn space).buffer.row row).characters i=
      if startColumn ≤ i ∧ i≤endColumn then space
      else (term.buffer.row row).characters i := by
  have hlt := (h.row row).length_lt
  unfold GuacTerminal.rowLength at h1
  rw [setColumnsUnbroken_characters term row startColumn endColumn space (by omega) (by omega)
    hspace.ge,hspace,lastWritten_one]
  split
  · rw [Int.emod_one,if_pos rfl]
  · rw [expand_characters,if_neg (by omega)]

/-! ## Breaks -/

/-- What is cleared of a character starts where its own columns end, if it has more. -/
theorem clearBroken_of_first {row first : ℤ}
    (hfirst : (if ((term.buffer.row row).characters startColumn).value≠charContinuation ∧
        ((term.buffer.row row).characters startColumn).width<endColumn-startColumn+1 then
      startColumn+((term.buffer.row row).characters startColumn).width
    else startColumn)=first) :
    clearBroken term row startColumn endColumn=
      if ((term.buffer.row row).characters first).value=charContinuation ∨
          ((term.buffer.row row).characters first).width≠endColumn-first+1 then
        setColumnsUnbroken term row first endColumn
          ⟨32,((term.buffer.row row).characters first).attributes,1⟩
      else term := by
  unfold clearBroken
  dsimp only
  rw [hfirst]

/-- The cells of a row in which a character was cleared if it was broken: those from
some column of it on, which is where its own columns end if it has more. -/
theorem clearBroken_spec (h : BufferOk term.buffer) {row : ℤ} (h0 : 0 ≤ startColumn)
    (h1 : startColumn≤endColumn) (h2 : endColumn<term.rowLength row)
    (hrun : ∀ i, startColumn < i → i≤endColumn→(term.buffer.row row).shape i=none) :
    ∃ first, startColumn≤first ∧ (∀ columns, (term.buffer.row row).shape startColumn=some columns →
        startColumn+columns≤endColumn+1 → first=startColumn+columns) ∧
      (∀ i, i<first ∨ endColumn < i →
        ((clearBroken term row startColumn endColumn).buffer.row row).characters i=
          (term.buffer.row row).characters i) ∧
      ((clearBroken term row startColumn endColumn).buffer.row row).shape=
        repaired (term.buffer.row row).shape startColumn (endColumn+1) ∧
      OnlyRow row term.buffer (clearBroken term row startColumn endColumn).buffer := by
  have hcleared : ∀ first attributes,
      ((setColumnsUnbroken term row first endColumn ⟨32,attributes,1⟩).buffer.row row).shape=
        spaced (term.buffer.row row).shape first (endColumn+1) := by
    intro first attributes
    funext i
    unfold BufferRow.shape spaced
    rw [cleared_characters h first rfl (by omega) h2]
    split_ifs
    · rfl
    · omega
    · omega
    · rfl
  have hkept : ∀ first attributes i, i<first ∨ endColumn < i →
      ((setColumnsUnbroken term row first endColumn ⟨32,attributes,1⟩).buffer.row
        row).characters i=(term.buffer.row row).characters i := by
    intro first attributes i hi
    rw [cleared_characters h first rfl (by omega) h2,if_neg (by omega)]
  unfold repaired
  cases hbegins : (term.buffer.row row).shape startColumn with
  | none =>
    have hvalue := begins_eq_none.mp hbegins
    rw [clearBroken_of_first (if_neg fun hmore => hmore.1 hvalue),if_pos (Or.inl hvalue)]
    exact ⟨startColumn,le_rfl,fun columns hcolumns => absurd hcolumns.symm
      (Option.some_ne_none _),hkept _ _,hcleared _ _,onlyRow_setColumnsUnbroken ..⟩
  | some columns =>
    obtain ⟨hvalue,hcolumns⟩ := begins_eq_some.mp hbegins
    have hpos := (h.row row).width_pos h0 (h1.trans_lt h2) hbegins
    dsimp only
    rcases lt_trichotomy columns (endColumn-startColumn+1) with hshort | hexact | hlong
    · have hnext := begins_eq_none.mp (hrun (startColumn+columns) (by omega) (by omega))
      rw [clearBroken_of_first ((if_pos ⟨hvalue,hcolumns.trans_lt hshort⟩).trans
        (by rw [hcolumns])),if_pos (Or.inl hnext),if_neg (by omega),if_pos (by omega)]
      refine ⟨startColumn+columns,by omega,fun _ hsame _ => ?_,hkept _ _,hcleared _ _,
        onlyRow_setColumnsUnbroken ..⟩
      rw [Option.some.inj hsame]
    · rw [clearBroken_of_first (if_neg (by omega)),hcolumns,
        if_neg (not_or.mpr ⟨hvalue,by omega⟩),if_pos (by omega)]
      refine ⟨startColumn+columns,by omega,fun _ hsame _ => ?_,fun _ _ => rfl,rfl,
        OnlyRow.refl row _⟩
      rw [Option.some.inj hsame]
    · rw [clearBroken_of_first (if_neg (by omega)),hcolumns,if_pos (Or.inr (by omega)),
        if_neg (by omega),if_neg (by omega)]
      refine ⟨startColumn,le_rfl,fun _ hsame hfits => ?_,hkept _ _,hcleared _ _,
        onlyRow_setColumnsUnbroken ..⟩
      obtain rfl := Option.some.inj hsame
      omega

/-- The walk to the left ends where a character starts. -/
theorem characterStart_spec (bufferRow : BufferRow) (column : ℕ) :
    (∀ i, characterStart bufferRow.characters column < i → i≤column → bufferRow.shape i=none) ∧
      (bufferRow.shape (characterStart bufferRow.characters column)≠none ∨
        characterStart bufferRow.characters column=0) := by
  induction column with
  | zero => exact ⟨fun i hi hi' => absurd hi (not_lt.mpr hi'),Or.inr rfl⟩
  | succ column ih =>
    rw [characterStart]
    push_cast
    split_ifs with hvalue
    · refine ⟨fun i hi hi' => ?_,ih.2⟩
      rcases hi'.lt_or_eq with hbefore | rfl
      · exact ih.1 i hi (by omega)
      · exact begins_eq_none.mpr hvalue
    · refine ⟨fun i hi hi' => absurd hi (not_lt.mpr hi'),Or.inl fun hnone => ?_⟩
      exact hvalue (begins_eq_none.mp hnone)

/-- The walk to the right ends before the next character. -/
theorem characterEnd_spec (bufferRow : BufferRow) (fuel : ℕ) {column : ℤ}
    (hfuel : bufferRow.length-column≤fuel) :
    (∀ i, column < i → i≤characterEnd bufferRow.characters bufferRow.length fuel column →
      bufferRow.shape i=none) ∧
      (characterEnd bufferRow.characters bufferRow.length fuel column+1<bufferRow.length →
        bufferRow.shape (characterEnd bufferRow.characters bufferRow.length fuel column+1)≠
          none) := by
  induction fuel generalizing column with
  | zero =>
    rw [characterEnd]
    exact ⟨fun i hi hi' => absurd hi (not_lt.mpr hi'),fun hnext => by omega⟩
  | succ fuel ih =>
    rw [characterEnd]
    split_ifs with hmore
    · obtain ⟨hrun,hends⟩ := @ih (column+1) (by push_cast at hfuel; omega)
      refine ⟨fun i hi hi' => ?_,hends⟩
      rcases (by omega : i=column+1 ∨ column+1 < i) with rfl | hafter
      · exact begins_eq_none.mpr hmore.2
      · exact hrun i hafter hi'
    · refine ⟨fun i hi hi' => absurd hi (not_lt.mpr hi'),fun hnext hnone => ?_⟩
      exact hmore ⟨hnext,begins_eq_none.mp hnone⟩

/-- A character has its columns in a row. -/
structure HasColumns (shape : Shape) (length column columns : ℤ) : Prop where
  nonneg : 0≤column
  le : column+columns≤length
  begins : shape column=some columns
  continues : ∀ i, column < i → i<column+columns → shape i=none

/-- A character has its columns in another row that has the same cells there. -/
theorem HasColumns.of_same {bufferRow bufferRow' : BufferRow} {length column columns : ℤ}
    (h : HasColumns bufferRow.shape length column columns) (hpos : 0<columns)
    (hsame : ∀ i, column ≤ i → i<column+columns → bufferRow'.characters i=bufferRow.characters i) :
    HasColumns bufferRow'.shape length column columns := by
  refine ⟨h.nonneg,h.le,?_,fun i hi hi' => ?_⟩
  · rw [←h.begins]
    exact congrArg TerminalChar.begins (hsame column le_rfl (by omega))
  · rw [←h.continues i hi hi']
    exact congrArg TerminalChar.begins (hsame i hi.le hi')

/-- What a break to the left of an edge does to a row: the character that reaches
up to the edge is made whole, and others keep their columns. -/
theorem breakLeft_spec (h : BufferOk term.buffer) {row edge : ℤ} (h0 : 0≤edge)
    (h1 : edge≤term.rowLength row) :
    ∃ start, (0 ≤ start ∧ start≤edge) ∧
      (∀ i, i<start ∨ edge ≤ i→((breakLeft term row edge).buffer.row row).shape i=
        (term.buffer.row row).shape i) ∧
      Filled ((breakLeft term row edge).buffer.row row).shape start edge ∧
      (0<edge → start<edge ∧ ((term.buffer.row row).shape start≠none ∨ start=0)) ∧
      (∀ i, start < i → i<edge→(term.buffer.row row).shape i=none) ∧
      (∀ column columns i,
        HasColumns (term.buffer.row row).shape (term.rowLength row) column columns →
        edge≤column ∨ column+columns≤edge → column ≤ i → i<column+columns →
          ((breakLeft term row edge).buffer.row row).characters i=
            (term.buffer.row row).characters i) ∧
      OnlyRow row term.buffer (breakLeft term row edge).buffer := by
  unfold breakLeft
  split_ifs with hpos
  · have hmem := characterStart_mem (term.buffer.row row).characters (edge-1).toNat
    obtain ⟨hrun,hreaches⟩ := characterStart_spec (term.buffer.row row) (edge-1).toNat
    rw [Int.toNat_of_nonneg (by omega)] at hmem hrun
    generalize characterStart (term.buffer.row row).characters (edge-1).toNat=start at *
    obtain ⟨first,hfirst,hown,hkept,hshape,honly⟩ :=
      clearBroken_spec h hmem.1 hmem.2 (by omega) hrun
    have hwidth : ∀ columns, (term.buffer.row row).shape start=some columns→1≤columns :=
      fun columns hcolumns => (h.row row).width_pos hmem.1
        (by unfold GuacTerminal.rowLength at h1; omega) hcolumns
    rw [sub_add_cancel] at hown hshape
    refine ⟨start,⟨hmem.1,by omega⟩,fun i hi => ?_,?_,fun _ => ⟨by omega,hreaches⟩,
      fun i hi hi' => hrun i hi (by omega),fun column columns i hhas hside hi hi' => ?_,honly⟩
    · rw [hshape]
      exact repaired_outside _ hwidth hi
    · rw [hshape]
      exact filled_repaired (fun i hi hi' => hrun i hi (by omega)) hwidth
    · refine hkept i ?_
      rcases hside with hafter | hbefore
      · exact Or.inr (by omega)
      · rcases lt_or_ge i start with hout | hin
        · exact Or.inl (by omega)
        · -- the character is the one that reaches up to the edge
          obtain rfl : column=start := by
            rcases lt_trichotomy column start with hlt | heq | hgt
            · rcases hreaches with hbegins | hzero
              · exact absurd (hhas.continues start hlt (by omega)) hbegins
              · have hnonneg := hhas.nonneg
                omega
            · exact heq
            · have hnone := hrun column hgt (by omega)
              rw [hhas.begins] at hnone
              exact absurd hnone (Option.some_ne_none _)
          have heq := hown columns hhas.begins hbefore
          exact Or.inl (by omega)
  · obtain rfl : edge=0 := by omega
    exact ⟨0,⟨le_rfl,le_rfl⟩,fun _ _ => rfl,⟨fun hlt => absurd hlt (lt_irrefl _),
      fun column _ hle hlt => absurd hle (not_le.mpr hlt)⟩,fun hpos => absurd hpos (lt_irrefl _),
      fun i hi hi' => absurd hi (not_lt.mpr hi'.le),fun _ _ _ _ _ _ _ => rfl,OnlyRow.refl row _⟩

/-- What a break to the right of an edge does to a row. -/
theorem breakRight_spec (h : BufferOk term.buffer) {row edge : ℤ} (h0 : 0≤edge)
    (h1 : edge≤term.rowLength row) :
    ∃ last, (edge≤last ∧ last≤term.rowLength row) ∧
      (∀ i, i<edge ∨ last ≤ i→((breakRight term row edge).buffer.row row).shape i=
        (term.buffer.row row).shape i) ∧
      Filled ((breakRight term row edge).buffer.row row).shape edge last ∧
      (∀ i, edge < i → i<last→(term.buffer.row row).shape i=none) ∧
      (edge<term.rowLength row → edge<last) ∧
      (last<term.rowLength row→(term.buffer.row row).shape last≠none) ∧
      (∀ column columns i,
        HasColumns (term.buffer.row row).shape (term.rowLength row) column columns →
        edge≤column ∨ column+columns≤edge → column ≤ i → i<column+columns →
          ((breakRight term row edge).buffer.row row).characters i=
            (term.buffer.row row).characters i) ∧
      OnlyRow row term.buffer (breakRight term row edge).buffer := by
  unfold GuacTerminal.rowLength at h1 ⊢
  unfold breakRight
  split_ifs with hinside
  · have hmem := characterEnd_mem (term.buffer.row row).characters
      ((term.buffer.row row).length-edge).toNat hinside.2
    obtain ⟨hrun,hends⟩ := @characterEnd_spec (term.buffer.row row)
      ((term.buffer.row row).length-edge).toNat edge (Int.self_le_toNat _)
    generalize characterEnd (term.buffer.row row).characters (term.buffer.row row).length
      ((term.buffer.row row).length-edge).toNat edge=last at *
    obtain ⟨first,hfirst,hown,hkept,hshape,honly⟩ := clearBroken_spec h h0 hmem.1 hmem.2 hrun
    have hwidth : ∀ columns, (term.buffer.row row).shape edge=some columns→1≤columns :=
      fun columns hcolumns => (h.row row).width_pos h0 hinside.2 hcolumns
    refine ⟨last+1,⟨by omega,by omega⟩,fun i hi => ?_,?_,
      fun i hi hi' => hrun i hi (by omega),fun _ => by omega,hends,
      fun column columns i hhas hside hi hi' => ?_,honly⟩
    · rw [hshape]
      exact repaired_outside _ hwidth hi
    · rw [hshape]
      exact filled_repaired (fun i hi hi' => hrun i hi (by omega)) hwidth
    · refine hkept i ?_
      rcases hside with hafter | hbefore
      · rcases lt_or_ge last column with hout | hin
        · exact Or.inr (by omega)
        · -- the character is the one that starts at the edge
          obtain rfl : column=edge := by
            rcases hafter.eq_or_lt with heq | hgt
            · exact heq.symm
            · have hnone := hrun column hgt hin
              rw [hhas.begins] at hnone
              exact absurd hnone (Option.some_ne_none _)
          have hcovers : column+columns≤last+1 := by
            by_contra hshort
            have hle := hhas.le
            exact hends (by omega) (hhas.continues (last+1) (by omega) (by omega))
          have heq := hown columns hhas.begins hcovers
          exact Or.inl (by omega)
      · exact Or.inl (by omega)
  · have hend : edge=(term.buffer.row row).length := by omega
    exact ⟨edge,⟨le_rfl,h1⟩,fun _ _ => rfl,⟨fun hlt => absurd hlt (lt_irrefl _),
      fun column _ hle hlt => absurd hle (not_le.mpr hlt)⟩,
      fun i hi hi' => absurd hi (not_lt.mpr hi'.le),fun hlt => absurd hlt (by omega),
      fun hlt => absurd hlt (by omega),fun _ _ _ _ _ _ _ => rfl,OnlyRow.refl row _⟩

/-- A break is forced at an edge of a row. -/
theorem forceBreak_spec (h : ContentOk width height term) (hwidth : 0<width) {row edge : ℤ}
    (h0 : 0≤edge) (h1 : edge≤term.rowLength row) :
    (∃ start last, BreaksAt (term.buffer.row row).shape
      ((forceBreak term row edge).buffer.row row).shape (term.rowLength row) edge start last) ∧
      (∀ column columns i,
        HasColumns (term.buffer.row row).shape (term.rowLength row) column columns →
        edge≤column ∨ column+columns≤edge → column ≤ i → i<column+columns →
          ((forceBreak term row edge).buffer.row row).characters i=
            (term.buffer.row row).characters i) ∧
      OnlyRow row term.buffer (forceBreak term row edge).buffer := by
  have hnonneg : 0≤term.rowLength row := (h.1.row row).length_nonneg
  have hgot : ContentOk width height
      { term with buffer := guacTerminalBufferGetRow term.buffer row 0 } :=
    ⟨h.1.getRow row (by decide),h.2⟩
  have hgotOnly := onlyRow_getRow row term.buffer 0
  have hgotLength : GuacTerminal.rowLength
      { term with buffer := guacTerminalBufferGetRow term.buffer row 0 } row=term.rowLength row :=
    (getRow_length term.buffer row 0).trans (max_eq_left hnonneg)
  have hgotCharacters : ((guacTerminalBufferGetRow term.buffer row 0).row row).characters=
      (term.buffer.row row).characters := by
    funext i
    unfold GuacTerminal.rowLength at hnonneg
    rw [row_getRow,expand_characters,if_neg (by omega)]
  have hgotShape : ((guacTerminalBufferGetRow term.buffer row 0).row row).shape=
      (term.buffer.row row).shape := by
    unfold BufferRow.shape
    rw [hgotCharacters]
  obtain ⟨hleftOk,hleftSame⟩ := contentOk_breakLeft hgot hwidth row edge (by omega)
  obtain ⟨start,hstart,hleftOutside,hbefore,hreaches,hcontinues,hleftKeeps,hleftOnly⟩ :=
    breakLeft_spec hgot.1 h0 (by omega : edge≤GuacTerminal.rowLength
      { term with buffer := guacTerminalBufferGetRow term.buffer row 0 } row)
  have hleftLength := hleftSame.rowLength.trans hgotLength
  rw [hgotLength] at hleftKeeps
  dsimp only at hleftOutside hreaches hcontinues hleftKeeps hleftOnly
  rw [hgotShape] at hleftOutside hreaches hcontinues hleftKeeps
  rw [hgotCharacters] at hleftKeeps
  rw [forceBreak_eq]
  generalize breakLeft { term with buffer := guacTerminalBufferGetRow term.buffer row 0 } row edge=
    left at *
  obtain ⟨last,hlast,hrightOutside,hafter,hfollows,hextends,hends,hrightKeeps,
    hrightOnly⟩ := breakRight_spec hleftOk.1 h0 (by omega : edge≤left.rowLength row)
  rw [hleftLength] at hlast hextends hends hrightKeeps
  refine ⟨⟨start,last,hstart,hlast,fun i hi => ?_,?_,hafter,hreaches,hcontinues,
    fun i hi hi' => ?_,hextends,fun hlt => ?_⟩,fun column columns i hhas hside hi hi' => ?_,
    (hgotOnly.trans hleftOnly).trans hrightOnly⟩
  · rw [hrightOutside i (by omega),hleftOutside i (by omega)]
  · exact hbefore.congr fun i _ hi => hrightOutside i (Or.inl hi)
  · rw [←hleftOutside i (Or.inr hi.le)]
    exact hfollows i hi hi'
  · have hbegins := hends hlt
    rwa [hleftOutside last (Or.inr hlast.1)] at hbegins
  · have hsame : ∀ j, column≤j → j<column+columns →
        (left.buffer.row row).characters j=(term.buffer.row row).characters j :=
      fun j hj hj' => hleftKeeps column columns j hhas hside hj hj'
    have hhas' := hhas.of_same (by omega) hsame
    rw [hrightKeeps column columns i hhas' hside hi hi',hsame i hi hi']

/-! ## Columns that are set -/

/-- The cells of a row once the rendered cursor is drawn over what was written. -/
theorem writeCursor_characters (h : BufferOk term.buffer) {row : ℤ} (startColumn : ℤ)
    (hend : endColumn<term.rowLength row) (hnonneg : 0≤term.visibleCursorCol)
    (hc : 1≤character.width) (i : ℤ) :
    ((writeCursor term row startColumn endColumn character).buffer.row row).characters i=
      if (row=term.visibleCursorRow ∧ term.visibleCursorCol≥startColumn ∧
          term.visibleCursorCol≤endColumn) ∧ term.visibleCursorCol ≤ i ∧
          i<term.visibleCursorCol+character.width then
        if i=term.visibleCursorCol then character.marked true
        else ⟨charContinuation,(character.marked true).attributes,0⟩
      else (term.buffer.row row).characters i := by
  have hlt := (h.row row).length_lt
  unfold GuacTerminal.rowLength at hend
  unfold writeCursor
  by_cases hhere : row=term.visibleCursorRow ∧ term.visibleCursorCol≥startColumn ∧
      term.visibleCursorCol≤endColumn
  · have hmarked : (character.marked true).width=character.width := rfl
    rw [if_pos hhere,setColumnsUnbroken_characters term row _ _ _ (by omega) (by omega)
      (hc.trans_eq hmarked.symm),hmarked,lastWritten_once le_rfl (by omega)]
    by_cases hin : term.visibleCursorCol ≤ i ∧ i<term.visibleCursorCol+character.width
    · rw [if_pos (by omega),if_pos (And.intro hhere hin)]
      refine if_congr ?_ rfl rfl
      rw [Int.emod_eq_of_lt (by omega) (by omega)]
      omega
    · rw [if_neg (by omega),if_neg (by omega),expand_characters,if_neg (by omega)]
  · rw [if_neg hhere,if_neg fun hin => hhere hin.1]

theorem onlyRow_writeCursor (term : GuacTerminal) (row startColumn endColumn : ℤ)
    (character : TerminalChar) :
    OnlyRow row term.buffer (writeCursor term row startColumn endColumn character).buffer := by
  unfold writeCursor
  split
  · exact onlyRow_setColumnsUnbroken ..
  · exact OnlyRow.refl row _

/-- What guac_terminal_set_columns writes before it forces breaks. -/
def writtenColumns (term : GuacTerminal) (row startColumn endColumn : ℤ)
    (character : TerminalChar) : GuacTerminal :=
  writeCursor (setColumnsUnbroken term row startColumn endColumn character) row startColumn
    endColumn character

/-- The rendered cursor is among the columns of a row. -/
def CursorAmong (term : GuacTerminal) (row startColumn endColumn : ℤ) : Prop :=
  row=term.visibleCursorRow ∧ term.visibleCursorCol≥startColumn ∧ term.visibleCursorCol≤endColumn

instance (row startColumn endColumn : ℤ) : Decidable (CursorAmong term row startColumn endColumn) :=
  inferInstanceAs (Decidable (_ ∧ _))

/-- A character of one column is repeated in a range, or the range has its columns. -/
def FillsRange (startColumn endColumn : ℤ) (character : TerminalChar) : Prop :=
  1≤character.width ∧ (character.width=1 ∨ endColumn=startColumn+character.width-1)

theorem FillsRange.lastWritten_eq (h : FillsRange startColumn endColumn character) :
    lastWritten startColumn endColumn character.width=endColumn := by
  obtain ⟨hpos,hone | hrange⟩ := h
  · rw [hone,lastWritten_one]
  · rw [lastWritten_once (by omega) (by omega),hrange]

/-- The characters of a row after some were written and the cursor drawn. -/
theorem writtenColumns_characters (h : ContentOk width height term) (hwidth : 0<width)
    (row startColumn endColumn : ℤ) (hend : -1≤endColumn) (hlast : endColumn<2^30-1)
    (hfills : FillsRange startColumn endColumn character)
    (hstart : startColumn≤endColumn→0 ≤ startColumn) (i : ℤ) :
    ((writtenColumns term row startColumn endColumn character).buffer.row row).characters i=
      if CursorAmong term row startColumn endColumn ∧ term.visibleCursorCol ≤ i ∧
          i<term.visibleCursorCol+character.width then
        if i=term.visibleCursorCol then character.marked true
        else ⟨charContinuation,(character.marked true).attributes,0⟩
      else if startColumn ≤ i ∧ i≤endColumn then
        if (i-startColumn)%character.width=0 then character
        else ⟨charContinuation,character.attributes,0⟩
      else ((term.buffer.row row).expand term.buffer.defaultCharacter
        (endColumn+1)).characters i := by
  have hc := hfills.1
  have hset := contentOk_setColumnsUnbroken h hwidth row startColumn endColumn character hend hlast
    hc fun hle => ⟨hstart hle,by
      rw [hfills.lastWritten_eq]
      exact lt_expand_available h.1 row hlast⟩
  obtain ⟨hlength,-⟩ :=
    setColumnsUnbroken_row term row startColumn endColumn character hend hlast hc
  obtain ⟨hcursorRow,hcursorCol⟩ :=
    setColumnsUnbroken_cursor term row startColumn endColumn character
  have hcharacters := setColumnsUnbroken_characters term row startColumn endColumn character hend
    hlast hc i
  rw [hfills.lastWritten_eq] at hcharacters
  unfold writtenColumns
  rw [writeCursor_characters hset.1 startColumn (by omega) hset.2.2.1.1 hc,hcursorRow,hcursorCol,
    hcharacters]
  rfl

/-- Where characters begin in a row after columns were written. -/
theorem writtenColumns_shape (h : ContentOk width height term) (hwidth : 0<width)
    (row startColumn endColumn : ℤ) (hend : -1≤endColumn) (hlast : endColumn<2^30-1)
    (hfills : FillsRange startColumn endColumn character)
    (hvalue : character.value≠charContinuation)
    (hstart : startColumn≤endColumn→0 ≤ startColumn) (i : ℤ) :
    ((writtenColumns term row startColumn endColumn character).buffer.row row).shape i=
      if CursorAmong term row startColumn endColumn ∧ term.visibleCursorCol ≤ i ∧
          i<term.visibleCursorCol+character.width then
        if i=term.visibleCursorCol then some character.width else none
      else if startColumn ≤ i ∧ i≤endColumn then
        if (i-startColumn)%character.width=0 then some character.width else none
      else ((term.buffer.row row).expand term.buffer.defaultCharacter (endColumn+1)).shape i := by
  have hbegins := begins_of_ne hvalue
  unfold BufferRow.shape
  rw [writtenColumns_characters h hwidth row startColumn endColumn hend hlast hfills hstart]
  split_ifs
  · exact hbegins
  · rfl
  · exact hbegins
  · rfl
  · rfl

/-- A row whose characters are broken near one column only stays so when it is expanded. -/
theorem WholeBut.near_expand {row column : ℤ} {buffer : Buffer}
    (hbut : WholeBut row column buffer) (length : ℤ) {broken : ℤ}
    (hbroken : BrokenAt ((buffer.row row).expand buffer.defaultCharacter length).shape
      (max (buffer.row row).length length) broken) :
    Near ((buffer.row row).expand buffer.defaultCharacter length).shape column broken := by
  rw [←expand_length _ buffer.defaultCharacter] at hbroken
  obtain ⟨hle,hnear⟩ := hbut.near broken (brokenAt_of_expand hbut.default hbroken)
  refine hnear.imp_right fun hbefore => ⟨hbefore.1,fun i hi hi' => ?_⟩
  rw [expand_shape,if_neg (by omega)]
  exact hbefore.2 i hi hi'

section

variable (h : ContentOk width height term) (hwidth : 0<width)

include h hwidth

/-- What was written broke characters at most near the two edges of the range. -/
theorem writtenColumns_near {row : ℤ} (hend : -1≤endColumn) (hlast : endColumn<2^30-1)
    (hfills : FillsRange startColumn endColumn character)
    (hvalue : character.value≠charContinuation)
    (hstart : startColumn≤endColumn→0 ≤ startColumn)
    (hbut : WholeBut row startColumn term.buffer) (column : ℤ)
    (hbroken : BrokenAt
      ((writtenColumns term row startColumn endColumn character).buffer.row row).shape
      (max (term.rowLength row) (endColumn+1)) column) :
    Near ((writtenColumns term row startColumn endColumn character).buffer.row row).shape
        startColumn column ∨
      Near ((writtenColumns term row startColumn endColumn character).buffer.row row).shape
        (endColumn+1) column := by
  have hc := hfills.1
  have hbase : ∀ column, BrokenAt
      ((term.buffer.row row).expand term.buffer.defaultCharacter (endColumn+1)).shape
      (max (term.rowLength row) (endColumn+1)) column →
      Near ((term.buffer.row row).expand term.buffer.defaultCharacter (endColumn+1)).shape
        startColumn column := fun _ => hbut.near_expand (endColumn+1)
  have hshape := writtenColumns_shape h hwidth row startColumn endColumn hend hlast hfills hvalue
    hstart
  generalize ((writtenColumns term row startColumn endColumn character).buffer.row row).shape=
    written at *
  generalize ((term.buffer.row row).expand term.buffer.defaultCharacter (endColumn+1)).shape=
    base at *
  rcases lt_or_ge endColumn startColumn with hempty | hle
  · obtain rfl : written=base := by
      funext i
      rw [hshape,if_neg fun hin => by
        have hamong := hin.1.2
        omega,if_neg (by omega)]
    exact Or.inl (hbase column hbroken)
  · -- what is drawn over for the cursor may end after the range
    have hcursor : CursorAmong term row startColumn endColumn →
        startColumn≤term.visibleCursorCol ∧ term.visibleCursorCol≤endColumn := And.right
    have hlastColumn : ∃ last, endColumn+1≤last ∧ (CursorAmong term row startColumn endColumn →
          term.visibleCursorCol+character.width≤last) ∧
        (endColumn+1<last→CursorAmong term row startColumn endColumn ∧
          last=term.visibleCursorCol+character.width) := by
      by_cases hamong : CursorAmong term row startColumn endColumn
      · refine ⟨max (endColumn+1) (term.visibleCursorCol+character.width),le_max_left ..,
          fun _ => le_max_right ..,fun hlt => ⟨hamong,?_⟩⟩
        omega
      · exact ⟨endColumn+1,le_rfl,fun hamong' => absurd hamong' hamong,
          fun hlt => absurd hlt (lt_irrefl _)⟩
    obtain ⟨last,hlastLe,hcovers,hlonger⟩ := hlastColumn
    refine near_of_brokenAt hbase (hstart hle) (le_max_right ..) (by omega : startColumn≤last)
      (fun i hi => ?_) (fun i hi hi' => ?_) (fun i columns hi hi' hcolumns => ?_) hbroken
    · rw [hshape,if_neg fun hin => by
        have hamong := hcursor hin.1
        have hle' := hcovers hin.1
        omega,if_neg (by omega)]
    · obtain ⟨hamong,rfl⟩ := hlonger (by omega)
      have hbounds := hcursor hamong
      rw [hshape,if_pos ⟨hamong,by omega,hi'⟩,if_neg (by omega)]
    · rcases hfills.2 with hone | hrange
      · have hones : ∀ j, startColumn≤j → j≤endColumn → written j=some 1 := by
          intro j hj hj'
          rw [hshape,hone,Int.emod_one]
          split_ifs
          all_goals first
            | rfl
            | omega
        rw [hones i hi.le (by omega)] at hcolumns
        obtain rfl := Option.some.inj hcolumns
        refine ⟨le_rfl,fun hnext => ?_,fun j hj hj' => by omega⟩
        rw [hones _ (by omega) (by omega)]
        exact Option.some_ne_none _
      · have hnone : ∀ j, startColumn<j → j≤endColumn →
            ¬(CursorAmong term row startColumn endColumn ∧
              j=term.visibleCursorCol) → written j=none := by
          intro j hj hj' hother
          rw [hshape]
          split_ifs with hin hat hthere hfirst
          · exact absurd ⟨hin.1,hat⟩ hother
          · rfl
          · rw [Int.emod_eq_of_lt (by omega) (by omega)] at hfirst
            omega
          · rfl
          · omega
        have hat : CursorAmong term row startColumn endColumn ∧ i=term.visibleCursorCol := by
          by_contra hother
          rw [hnone i hi (by omega) hother] at hcolumns
          exact absurd hcolumns.symm (Option.some_ne_none _)
        obtain ⟨hamong,rfl⟩ := hat
        rw [hshape,if_pos ⟨hamong,le_rfl,by omega⟩,if_pos rfl] at hcolumns
        obtain rfl := Option.some.inj hcolumns
        exact ⟨hc,fun hnext => by omega,fun j hj hj' hj'' => hnone j (by omega) (by omega)
          fun hsame => by omega⟩

/-- Written columns keep the contents of a terminal in order. -/
theorem contentOk_writtenColumns (row startColumn endColumn : ℤ) (hend : -1≤endColumn)
    (hlast : endColumn<2^30-1) (hfills : FillsRange startColumn endColumn character)
    (hstart : startColumn≤endColumn→0 ≤ startColumn)
    (hcursor : row=term.visibleCursorRow → startColumn≤term.visibleCursorCol →
      term.visibleCursorCol≤endColumn → term.visibleCursorCol+character.width-1<
          ((term.buffer.row row).expand term.buffer.defaultCharacter (endColumn+1)).available) :
    ContentOk width height (writtenColumns term row startColumn endColumn character) ∧
      (writtenColumns term row startColumn endColumn character).rowLength row=
        max (term.rowLength row) (endColumn+1) ∧
      OnlyRow row term.buffer (writtenColumns term row startColumn endColumn character).buffer := by
  have hset := contentOk_setColumnsUnbroken h hwidth row startColumn endColumn character hend hlast
    hfills.1 fun hle => ⟨hstart hle,by
      rw [hfills.lastWritten_eq]
      exact lt_expand_available h.1 row hlast⟩
  obtain ⟨hlength,havailable⟩ :=
    setColumnsUnbroken_row term row startColumn endColumn character hend hlast hfills.1
  obtain ⟨hvisibleRow,hvisibleCol⟩ :=
    setColumnsUnbroken_cursor term row startColumn endColumn character
  rw [←hvisibleRow,←hvisibleCol] at hcursor
  obtain ⟨hwritten,hwrittenSame⟩ := contentOk_writeCursor hset hwidth row startColumn endColumn
    character hlast hfills.1 (by omega) (by rw [havailable]; exact hcursor)
  exact ⟨hwritten,hwrittenSame.rowLength.trans hlength,
    (onlyRow_setColumnsUnbroken ..).trans (onlyRow_writeCursor ..)⟩

/-- What is broken in a row after breaks were forced at the edges of a range was
broken before, and not near these. -/
theorem brokenAt_of_forceBreak (row edge edge' : ℤ) (h0 : 0≤edge) (h1 : edge≤term.rowLength row)
    (h0' : 0≤edge') (h1' : edge' ≤ term.rowLength row) :
    ((forceBreak (forceBreak term row edge) row edge').rowLength row=term.rowLength row ∧
      OnlyRow row term.buffer (forceBreak (forceBreak term row edge) row edge').buffer) ∧
      ∀ column, BrokenAt ((forceBreak (forceBreak term row edge) row edge').buffer.row row).shape
          (term.rowLength row) column →
        BrokenAt (term.buffer.row row).shape (term.rowLength row) column ∧
          (¬Near (term.buffer.row row).shape edge column ∧
            ¬Near (term.buffer.row row).shape edge' column) ∧
          ∀ other, Near (term.buffer.row row).shape other column →
            Near ((forceBreak (forceBreak term row edge) row edge').buffer.row row).shape other
              column := by
  obtain ⟨hfirst,hfirstSame⟩ := contentOk_forceBreak h hwidth row edge h1
  obtain ⟨-,hsecondSame⟩ := contentOk_forceBreak hfirst hwidth row edge'
    (h1'.trans_eq hfirstSame.rowLength.symm)
  obtain ⟨⟨start,last,hbreaks⟩,-,honly⟩ := forceBreak_spec h hwidth h0 h1
  obtain ⟨⟨start',last',hbreaks'⟩,-,honly'⟩ :=
    forceBreak_spec hfirst hwidth h0' (h1'.trans_eq hfirstSame.rowLength.symm)
  rw [hfirstSame.rowLength] at hbreaks'
  exact ⟨⟨hsecondSame.rowLength.trans hfirstSame.rowLength,honly.trans honly'⟩,
    fun column hbroken => brokenAt_of_breaks hbreaks hbreaks' hbroken⟩

/-- So the row is whole if it was broken near these only. -/
theorem rowWhole_of_forceBreak (row edge edge' : ℤ) (h0 : 0≤edge) (h1 : edge≤term.rowLength row)
    (h0' : 0≤edge') (h1' : edge' ≤ term.rowLength row)
    (hnear : ∀ column, BrokenAt (term.buffer.row row).shape (term.rowLength row) column →
      Near (term.buffer.row row).shape edge column ∨
        Near (term.buffer.row row).shape edge' column) :
    ((forceBreak (forceBreak term row edge) row edge').buffer.row row).AllWhole ∧
      OnlyRow row term.buffer (forceBreak (forceBreak term row edge) row edge').buffer := by
  obtain ⟨⟨hlength,honly⟩,hbreaks⟩ := brokenAt_of_forceBreak h hwidth row edge edge' h0 h1 h0' h1'
  refine ⟨rowWhole_iff.mpr fun column hbroken => ?_,honly⟩
  unfold GuacTerminal.rowLength at hlength hbreaks hnear
  rw [hlength] at hbroken
  obtain ⟨hbefore,⟨hfar,hfar'⟩,-⟩ := hbreaks column hbroken
  rcases hnear column hbefore with hfirst | hsecond
  · exact hfar hfirst
  · exact hfar' hsecond

/-- Rows are whole after columns were set, also where a row was broken where the
range begins. -/
theorem rowsWhole_setColumns {row : ℤ} (hend : -1≤endColumn) (hlast : endColumn<2^30-1)
    (hfills : FillsRange startColumn endColumn character)
    (hvalue : character.value≠charContinuation)
    (hedge : startColumn ≤ max (term.rowLength row) (endColumn+1))
    (hstart : startColumn≤endColumn→0 ≤ startColumn)
    (hcursor : row=term.visibleCursorRow → startColumn≤term.visibleCursorCol →
      term.visibleCursorCol≤endColumn → term.visibleCursorCol+character.width-1<
          ((term.buffer.row row).expand term.buffer.defaultCharacter
            (endColumn+1)).available) (hbut : WholeBut row startColumn term.buffer) :
    RowsWhole (guacTerminalSetColumns term row startColumn endColumn character).buffer := by
  obtain ⟨hwritten,hlength,honly⟩ := contentOk_writtenColumns h hwidth row startColumn endColumn
    hend hlast hfills hstart hcursor
  have hnear := writtenColumns_near h hwidth hend hlast hfills hvalue hstart hbut
  rw [←hlength] at hnear
  obtain ⟨hrow,hbreaks⟩ := rowWhole_of_forceBreak hwritten hwidth row startColumn (endColumn+1)
    (by omega) (by omega) (by omega) (by omega) hnear
  rw [setColumns_eq,wrap32_of_range (by omega) (by omega)]
  exact hbut.rowsWhole (honly.trans hbreaks) hrow

/-- A character that is set is in its column afterwards, but for the mark of the
cursor, unless the rendered cursor is in a later column of it. -/
theorem set_holds {row : ℤ} (h0 : 0 ≤ startColumn)
    (hlast : startColumn+character.width-1<2^30-1) (hc : 1≤character.width)
    (hvalue : character.value≠charContinuation)
    (hcursor : ¬CursorAmong term row (startColumn+1) (startColumn+character.width-1)) :
    (((guacTerminalSetColumns term row startColumn (startColumn+character.width-1)
      character).buffer.row row).characters startColumn).marked false=character.marked false := by
  have hfills : FillsRange startColumn (startColumn+character.width-1) character := ⟨hc,Or.inr rfl⟩
  have hlt := lt_expand_available h.1 row hlast
  have hat : CursorAmong term row startColumn (startColumn+character.width-1) →
      term.visibleCursorCol=startColumn := by
    rintro ⟨hrow,hge,hle⟩
    by_contra hne
    exact hcursor ⟨hrow,by omega,hle⟩
  obtain ⟨hwritten,hlength,-⟩ := contentOk_writtenColumns h hwidth row startColumn
    (startColumn+character.width-1) (by omega) hlast hfills (fun _ => h0)
    fun hrow hge hle => by rwa [hat ⟨hrow,hge,hle⟩]
  have hcharacters := writtenColumns_characters h hwidth row startColumn
    (startColumn+character.width-1) (by omega) hlast hfills fun _ => h0
  rw [setColumns_eq,wrap32_of_range (by omega) (by omega)]
  show TerminalChar.marked (((forceBreak (forceBreak (writtenColumns term row startColumn
    (startColumn+character.width-1) character) row startColumn) row
      (startColumn+character.width-1+1)).buffer.row row).characters startColumn) false=_
  generalize writtenColumns term row startColumn (startColumn+character.width-1) character=
    written at *
  have hfirst : ((written.buffer.row row).characters startColumn).marked false=
      character.marked false := by
    rw [hcharacters]
    split_ifs with hamong hsame
    · rfl
    · exact absurd (hat hamong.1).symm hsame
    · rfl
    · rw [sub_self,Int.zero_emod] at *
      contradiction
    · omega
  have hhas : HasColumns (written.buffer.row row).shape (written.rowLength row) startColumn
      character.width := by
    refine ⟨h0,by omega,?_,fun i hi hi' => begins_eq_none.mpr ?_⟩
    · have hbegins := begins_marked ((written.buffer.row row).characters startColumn) false
      rw [hfirst] at hbegins
      exact hbegins.symm.trans (begins_of_ne hvalue)
    · rw [hcharacters]
      split_ifs with hamong hsame hrange hmultiple
      · have hcolumn := hat hamong.1
        omega
      · rfl
      · rw [Int.emod_eq_of_lt (by omega) (by omega)] at hmultiple
        omega
      · rfl
      · omega
  obtain ⟨hbroken,hbrokenSame⟩ := contentOk_forceBreak hwritten hwidth row startColumn (by omega)
  obtain ⟨-,hkeeps,-⟩ := forceBreak_spec hwritten hwidth h0
    (by omega : startColumn≤written.rowLength row)
  have hkept := fun i => hkeeps startColumn character.width i hhas (Or.inl le_rfl)
  have hbrokenLength := hbrokenSame.rowLength
  obtain ⟨-,hkeeps',-⟩ := forceBreak_spec hbroken hwidth
    (by omega : 0 ≤ startColumn+character.width-1+1)
    (by omega : _ ≤ (forceBreak written row startColumn).rowLength row)
  have hhas' := hhas.of_same (by omega) hkept
  rw [←hbrokenLength] at hhas'
  rw [hkeeps' startColumn character.width startColumn hhas' (Or.inr (by omega)) le_rfl (by omega),
    hkept startColumn le_rfl (by omega),hfirst]

/-- A character of two columns is not held where the rendered cursor is in the second:
what is written there anew does not continue it. -/
theorem not_set_holds {row : ℤ} (h0 : 0 ≤ startColumn) (hlast : startColumn+1<2^30-1)
    (hwide : character.width=2) (hvalue : character.value≠charContinuation)
    (hcursor : CursorAmong term row (startColumn+1) (startColumn+1))
    (havailable : startColumn+2<
      ((term.buffer.row row).expand term.buffer.defaultCharacter (startColumn+2)).available)
    (hbut : WholeBut row startColumn term.buffer) :
    (((guacTerminalSetColumns term row startColumn (startColumn+1)
      character).buffer.row row).characters startColumn).marked false≠character.marked false := by
  obtain ⟨hcursorRow,hcursorGe,hcursorLe⟩ := hcursor
  have hcursorCol : term.visibleCursorCol=startColumn+1 := by omega
  have hfills : FillsRange startColumn (startColumn+1) character := ⟨by omega,Or.inr (by omega)⟩
  have hfree : row=term.visibleCursorRow → startColumn≤term.visibleCursorCol →
      term.visibleCursorCol ≤ startColumn+1 → term.visibleCursorCol+character.width-1<
        ((term.buffer.row row).expand term.buffer.defaultCharacter
          (startColumn+1+1)).available := by
    intro _ _ _
    rw [add_assoc,one_add_one_eq_two]
    omega
  have hwhole := (rowsWhole_setColumns h hwidth (by omega) hlast hfills hvalue (by omega)
    (fun _ => h0) hfree hbut).bufferRow row
  obtain ⟨hwritten,hlength,-⟩ := contentOk_writtenColumns h hwidth row startColumn
    (startColumn+1) (by omega) hlast hfills (fun _ => h0) hfree
  have hcharacters := writtenColumns_characters h hwidth row startColumn (startColumn+1)
    (by omega) hlast hfills (fun _ => h0) (startColumn+1)
  rw [if_pos ⟨⟨hcursorRow,by omega,by omega⟩,by omega,by omega⟩,if_pos hcursorCol.symm]
    at hcharacters
  rw [setColumns_eq,wrap32_of_range (by omega) (by omega),←writtenColumns] at hwhole ⊢
  generalize writtenColumns term row startColumn (startColumn+1) character=written at *
  have hbegins : (written.buffer.row row).shape (startColumn+1)≠none := by
    unfold BufferRow.shape
    rw [hcharacters,begins_marked,begins_of_ne hvalue]
    exact Option.some_ne_none _
  obtain ⟨hbroken,hbrokenSame⟩ := contentOk_forceBreak hwritten hwidth row startColumn (by omega)
  obtain ⟨⟨first,last,hbreaks⟩,-⟩ := forceBreak_spec hwritten hwidth h0
    (by omega : startColumn≤written.rowLength row)
  have hbrokenLength := hbrokenSame.rowLength
  obtain ⟨-,hsecondSame⟩ := contentOk_forceBreak hbroken hwidth row (startColumn+1+1) (by omega)
  have hsecondLength := hsecondSame.rowLength
  obtain ⟨⟨first',last',hbreaks'⟩,-⟩ := forceBreak_spec hbroken hwidth
    (by omega : 0 ≤ startColumn+1+1)
    (by omega : _ ≤ (forceBreak written row startColumn).rowLength row)
  have hnext := hbreaks'.begins (hbreaks.begins hbegins)
  intro hheld
  have hshape : ((forceBreak (forceBreak written row startColumn) row
      (startColumn+1+1)).buffer.row row).shape startColumn=some 2 := by
    rw [BufferRow.shape,←begins_marked _ false,hheld,begins_marked,begins_of_ne hvalue,hwide]
  unfold GuacTerminal.rowLength at hlength hbrokenLength hsecondLength
  have hown := hwhole.whole startColumn 2 h0 (by omega) hshape
  exact hnext (hown.continues (startColumn+1) (by omega) (by omega))

end

/-! ## Columns that are copied -/

theorem onlyRow_copyColumns (buffer : Buffer) (row startColumn endColumn offset : ℤ) :
    OnlyRow row buffer (guacTerminalBufferCopyColumns buffer row startColumn endColumn offset) := by
  have hgot := onlyRow_getRow row buffer (wrap32 (endColumn+offset+1))
  unfold guacTerminalBufferCopyColumns
  dsimp only
  generalize guacTerminalBufferGetRow buffer row (wrap32 (endColumn+offset+1))=got at *
  refine hgot.trans ?_
  exact ⟨rfl,rfl,rfl,fun i hi => Function.update_of_ne hi _ _⟩

section

variable (term : GuacTerminal)

theorem copiedColumns_buffer (row startColumn endColumn offset : ℤ) :
    (copiedColumns term row startColumn endColumn offset).buffer=
      guacTerminalBufferCopyColumns term.buffer row startColumn endColumn offset := by
  obtain ⟨textSelected,selectionCommitted,htouch⟩ := selectTouch_eq { term with
    display := guacTerminalDisplayCopyColumns term.display (wrap32 (row+term.scrollOffset))
      startColumn endColumn offset
    buffer := guacTerminalBufferCopyColumns term.buffer row startColumn endColumn offset }
    row startColumn row endColumn
  unfold copiedColumns
  dsimp only
  rw [htouch]
  split_ifs
  · rfl
  · rfl

/-- The row in which columns are copied, before they are. -/
def GuacTerminal.expandedRow (row width : ℤ) : BufferRow :=
  (term.buffer.row row).expand term.buffer.defaultCharacter width

/-- The shape of a row after columns were copied in it. -/
theorem copiedColumns_shape (row startColumn endColumn offset i : ℤ) :
    ((copiedColumns term row startColumn endColumn offset).buffer.row row).shape i=
      let expanded := term.expandedRow row (wrap32 (endColumn+offset+1))
      if copiedEnd expanded.length offset startColumn+offset ≤ i ∧
          i≤copiedEnd expanded.length offset endColumn+offset then
        expanded.shape (i-offset)
      else expanded.shape i := by
  rw [copiedColumns_buffer]
  unfold guacTerminalBufferCopyColumns GuacTerminal.expandedRow BufferRow.shape copiedEnd
  dsimp only
  rw [←row_getRow]
  generalize guacTerminalBufferGetRow term.buffer row (wrap32 (endColumn+offset+1))=got
  show TerminalChar.begins (((got.setRow row _).row row).characters i)=_
  rw [row_setRow]
  exact apply_ite TerminalChar.begins _ _ _

theorem copiedColumns_length (row startColumn endColumn offset : ℤ) :
    (copiedColumns term row startColumn endColumn offset).rowLength row=
      (term.expandedRow row (wrap32 (endColumn+offset+1))).length := by
  rw [(copiedColumns_row term row startColumn endColumn offset).1,GuacTerminal.expandedRow,
    expand_length]
  rfl

end

theorem RowsWhole.expandedRow (h : RowsWhole term.buffer) (row width : ℤ) :
    (term.expandedRow row width).AllWhole :=
  (h.bufferRow row).expand h.default width

/-- A copy breaks characters at most near where the range that it was fitted to is
copied to. -/
theorem copiedColumns_near (h : RowsWhole term.buffer) {row offset : ℤ}
    (hpos : 0<(term.expandedRow row (wrap32 (endColumn+offset+1))).length)
    (hcopies : Copies (term.expandedRow row (wrap32 (endColumn+offset+1))).length startColumn
      endColumn offset) (column : ℤ)
    (hbroken : BrokenAt ((copiedColumns term row startColumn endColumn offset).buffer.row row).shape
      (term.expandedRow row (wrap32 (endColumn+offset+1))).length column) :
    Near ((copiedColumns term row startColumn endColumn offset).buffer.row row).shape
        (copiedEnd (term.expandedRow row (wrap32 (endColumn+offset+1))).length offset
          startColumn+offset) column ∨
      Near ((copiedColumns term row startColumn endColumn offset).buffer.row row).shape
        (copiedEnd (term.expandedRow row (wrap32 (endColumn+offset+1))).length offset
          endColumn+offset+1) column := by
  have hwhole := h.expandedRow row (wrap32 (endColumn+offset+1))
  have hshape := copiedColumns_shape term row startColumn endColumn offset
  dsimp only at hshape
  have hfirst := copiedEnd_target hpos offset startColumn
  have hlast := copiedEnd_target hpos offset endColumn
  generalize ((copiedColumns term row startColumn endColumn offset).buffer.row row).shape=
    copied at *
  generalize term.expandedRow row (wrap32 (endColumn+offset+1))=expanded at *
  obtain ⟨hnot,hsource⟩ := hcopies
  generalize copiedEnd expanded.length offset startColumn=first at *
  generalize copiedEnd expanded.length offset endColumn=last at *
  refine near_of_brokenAt (fun column hbroken => absurd hbroken (rowWhole_iff.mp hwhole column))
    hfirst.1 (by omega : last+offset+1≤expanded.length)
    (by omega : first+offset≤last+offset+1) (fun i hi => ?_) (fun i hi hi' => by omega)
    (fun i columns hi hi' hcolumns => ?_) hbroken
  · rw [hshape,if_neg (by omega)]
  · have hrange := hsource (by omega)
    rw [hshape,if_pos (by omega)] at hcolumns
    obtain ⟨hone,hend,hcontinues,hends⟩ :=
      hwhole.whole (i-offset) columns (by omega) (by omega) hcolumns
    refine ⟨hone,fun hnext => ?_,fun j hj hj' hj'' => ?_⟩
    · rw [hshape,if_pos (by omega),show i+columns-offset=i-offset+columns by omega]
      exact hends (by omega)
    · rw [hshape,if_pos (by omega)]
      exact hcontinues (j-offset) (by omega) (by omega)

/-- After columns were copied, characters are broken at most near a column if the
copy broke others near the edges only at which breaks are forced. -/
theorem wholeBut_copyColumns {offset row start : ℤ} (h : RowsWhole term.buffer)
    (hcopied : ContentOk width height (copiedColumns term row startColumn endColumn offset))
    (hwidth : 0<width)
    (hfirst : 0≤wrap32 (startColumn+offset) ∧ wrap32 (startColumn+offset)≤
        (term.expandedRow row (wrap32 (endColumn+offset+1))).length)
    (hlast : 0≤wrap32 (endColumn+offset+1) ∧ wrap32 (endColumn+offset+1)≤
      (term.expandedRow row (wrap32 (endColumn+offset+1))).length)
    (hstart : start≤(term.expandedRow row (wrap32 (endColumn+offset+1))).length)
    (hnear : ∀ column, BrokenAt
      ((copiedColumns term row startColumn endColumn offset).buffer.row row).shape
      (term.expandedRow row (wrap32 (endColumn+offset+1))).length column →
      Near ((copiedColumns term row startColumn endColumn offset).buffer.row row).shape start
          column ∨
        Near ((copiedColumns term row startColumn endColumn offset).buffer.row row).shape
          (wrap32 (endColumn+offset+1)) column) :
    WholeBut row start (guacTerminalCopyColumns term row startColumn endColumn offset).buffer := by
  have hlength := copiedColumns_length term row startColumn endColumn offset
  have honly := onlyRow_copyColumns term.buffer row startColumn endColumn offset
  rw [←copiedColumns_buffer] at honly
  rw [←hlength] at hfirst hlast hnear hstart
  obtain ⟨⟨hbrokenLength,hbrokenOnly⟩,hbreaks⟩ := brokenAt_of_forceBreak hcopied hwidth row _ _
    hfirst.1 hfirst.2 hlast.1 hlast.2
  have hchanged := honly.trans hbrokenOnly
  rw [copyColumns_eq]
  refine ⟨by rw [hchanged.default,h.default],fun i hi => ?_,fun column hbroken => ?_⟩
  · rw [hchanged.index] at hi
    rw [hchanged.rows i hi]
    exact h.rows i
  · rw [GuacTerminal.rowLength] at hbrokenLength
    rw [hbrokenLength] at hbroken ⊢
    obtain ⟨hbefore,⟨-,hfar⟩,hkept⟩ := hbreaks column hbroken
    exact ⟨hstart,hkept start ((hnear column hbefore).resolve_right hfar)⟩

/-- Rows are whole after columns were copied if the copy broke characters near the
edges at which breaks are forced only. -/
theorem rowsWhole_copyColumns {offset row : ℤ} (h : RowsWhole term.buffer)
    (hcopied : ContentOk width height (copiedColumns term row startColumn endColumn offset))
    (hwidth : 0<width)
    (hfirst : 0≤wrap32 (startColumn+offset) ∧ wrap32 (startColumn+offset)≤
        (term.expandedRow row (wrap32 (endColumn+offset+1))).length)
    (hlast : 0≤wrap32 (endColumn+offset+1) ∧ wrap32 (endColumn+offset+1)≤
      (term.expandedRow row (wrap32 (endColumn+offset+1))).length)
    (hnear : ∀ column, BrokenAt
      ((copiedColumns term row startColumn endColumn offset).buffer.row row).shape
      (term.expandedRow row (wrap32 (endColumn+offset+1))).length column →
      Near ((copiedColumns term row startColumn endColumn offset).buffer.row row).shape
          (wrap32 (startColumn+offset)) column ∨
        Near ((copiedColumns term row startColumn endColumn offset).buffer.row row).shape
          (wrap32 (endColumn+offset+1)) column) :
    RowsWhole (guacTerminalCopyColumns term row startColumn endColumn offset).buffer := by
  have hlength := copiedColumns_length term row startColumn endColumn offset
  have honly := onlyRow_copyColumns term.buffer row startColumn endColumn offset
  rw [←copiedColumns_buffer] at honly
  rw [←hlength] at hfirst hlast hnear
  obtain ⟨hrow,hbreaks⟩ := rowWhole_of_forceBreak hcopied hwidth row _ _ hfirst.1 hfirst.2
    hlast.1 hlast.2 hnear
  rw [copyColumns_eq]
  exact h.onlyRow (honly.trans hbreaks) hrow

theorem expandedRow_length (term : GuacTerminal) (row width : ℤ) :
    (term.expandedRow row width).length=max (term.rowLength row) width :=
  expand_length ..

end GuacServer.Terminal
