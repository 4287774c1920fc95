import GuacServer.TerminalRing
import GuacServer.TerminalScroll

/-!
# Scrolling a region of a terminal

guac_terminal_scroll_up and guac_terminal_scroll_down copy the rows of a region
and clear as many rows as they scroll. Unless all of the screen is scrolled up,
an amount that is greater than the region has rows outside of the region cleared
as well, since only the copy ends with the region.
-/

namespace GuacServer.Terminal

open DecimalNumerals Function

/-! ## What a scroll should do -/

/-- What a row of the screen shows in a column, but for the mark of the cursor. -/
def GuacTerminal.shown (term : GuacTerminal) (row column : ℤ) : TerminalChar :=
  (term.buffer.contents (term.buffer.index row) column).marked false

/-- The rows of the screen are different rows of the ring, no more rows are stored or
scrolled into view than it has, and the sums that have their indices are ints. -/
structure RingOk (term : GuacTerminal) : Prop where
  height_le : term.termHeight≤term.buffer.available
  available_lt : term.buffer.available<2^30
  top_nonneg : 0≤term.buffer.top
  top_lt : term.buffer.top+term.termHeight<2^31
  length_nonneg : 0≤term.buffer.length
  length_le : term.buffer.length≤term.buffer.available
  offset_le : term.scrollOffset≤term.buffer.available

/-- Rows of a region were moved by an offset within it, its other rows are blank, and the
rest of the screen is as it was. -/
structure Scrolled (term term' : GuacTerminal) (startRow endRow offset : ℤ) : Prop where
  outside : ∀ row column, 0≤row ∧ row<term.termHeight→¬(startRow≤row ∧ row≤endRow) →
    0≤column ∧ column<term.termWidth → term'.shown row column=term.shown row column
  moved : ∀ row column, startRow≤row ∧ row≤endRow →
    startRow≤row+offset ∧ row+offset≤endRow→0≤column ∧ column<term.termWidth →
      term'.shown (row+offset) column=term.shown row column
  blank : ∀ row column, startRow≤row ∧ row≤endRow →
    ¬(startRow≤row-offset ∧ row-offset≤endRow)→0≤column ∧ column<term.termWidth →
      term'.shown row column=blankOf term.currentAttributes

/-- Rows that were moved off the top of the screen are rows of the scrollback, as far as
the ring has room for them. -/
structure MovedOff (term term' : GuacTerminal) (amount : ℤ) : Prop where
  moved : ∀ row column, 0≤row ∧ row<term.termHeight →
    term.termHeight-term.buffer.available≤row-amount →
    0≤column ∧ column<term.termWidth → term'.shown (row-amount) column=term.shown row column
  length : min (term.buffer.length+amount) term.buffer.available≤term'.buffer.length

/-- A row of the screen that is not in a region is among rows of the ring that are
cleared. -/
def Overrun (term : GuacTerminal) (startRow endRow first last row : ℤ) : Prop :=
  (0≤row ∧ row<term.termHeight) ∧ ¬(startRow≤row ∧ row≤endRow) ∧
    ∃ cleared, (first≤cleared ∧ cleared≤last) ∧ term.buffer.index cleared=term.buffer.index row

/-- The rows that are cleared outside of a region were blank already. -/
def OverrunsBlank (term : GuacTerminal) (startRow endRow first last : ℤ) : Prop :=
  ∀ row column, Overrun term startRow endRow first last row →
    0≤column ∧ column<term.termWidth → term.shown row column=blankOf term.currentAttributes

variable {term : GuacTerminal}

/-- The rows of the screen are different rows of the ring. -/
theorem RingOk.index_inj (h : RingOk term) (hscreen : ScreenOk term) {row row' : ℤ}
    (hrow : 0≤row ∧ row<term.termHeight) (hrow' : 0≤row' ∧ row' < term.termHeight)
    (heq : term.buffer.index row=term.buffer.index row') : row=row' := by
  have hle := h.height_le
  have htop := h.top_nonneg
  have htop' := h.top_lt
  exact Terminal.index_inj hscreen.1.1.available_pos 0 (term.termHeight-1)
    ⟨by omega,by omega⟩ (by omega) ⟨hrow.1,by omega⟩ ⟨hrow'.1,by omega⟩ heq

/-! ## Copying and clearing -/

section

variable {attributes : Attributes} {width first last row : ℤ} {copied : Buffer}
  {term' : GuacTerminal}

/-- What is shown in a row of the ring that was cleared. -/
theorem shown_of_cleared
    (hcleared : RowsCleared width attributes (fun row => first≤row ∧ row≤last) copied term'.buffer)
    (hreached : ∃ cleared, (first≤cleared ∧ cleared≤last) ∧ copied.index cleared=copied.index row)
    {column : ℤ} (hcolumn : 0≤column ∧ column<width) :
    term'.shown row column=blankOf attributes := by
  obtain ⟨cleared,hrange,heq⟩ := hreached
  have hdone := hcleared.blank cleared hrange column hcolumn.1 hcolumn.2
  rw [heq,←hcleared.index] at hdone
  exact hdone

/-- Other rows have what they had. -/
theorem contents_of_not_cleared
    (hcleared : RowsCleared width attributes (fun row => first≤row ∧ row≤last) copied term'.buffer)
    (hothers : ∀ cleared, first≤cleared ∧ cleared≤last → copied.index cleared≠copied.index row) :
    term'.buffer.contents (term'.buffer.index row)=copied.contents (copied.index row) := by
  rw [hcleared.index]
  exact hcleared.kept fun cleared hrange heq => hothers cleared hrange heq.symm

end

/-- Rows are copied and rows are cleared, all that are gained among them and none that is
moved: the region is scrolled exactly if what else is cleared was blank. -/
theorem scrolled_iff_overrunsBlank (hscreen : ScreenOk term) (hring : RingOk term)
    {startRow endRow offset copyStart copyEnd first last : ℤ} (hstart : 0 ≤ startRow)
    (hend : endRow<term.termHeight) (hoffset : offset≠0)
    (hcopies : ∀ row, copyStart≤row ∧ row≤copyEnd ↔ (startRow≤row ∧ row≤endRow) ∧
      startRow≤row+offset ∧ row+offset≤endRow)
    (hgained : ∀ row, startRow≤row ∧ row≤endRow →
      ¬(startRow≤row-offset ∧ row-offset≤endRow) → first≤row ∧ row≤last)
    (hmoved : ∀ row cleared, startRow≤row ∧ row≤endRow →
      startRow≤row+offset ∧ row+offset≤endRow → first≤cleared ∧ cleared≤last →
        term.buffer.index cleared≠term.buffer.index (row+offset))
    {copied term' : GuacTerminal}
    (hcopied : copied.buffer=guacTerminalBufferCopyRows term.buffer copyStart copyEnd offset)
    (hcleared : RowsCleared term.termWidth term.currentAttributes
      (fun row => first≤row ∧ row≤last) copied.buffer term'.buffer) :
    Scrolled term term' startRow endRow offset ↔ OverrunsBlank term startRow endRow first last := by
  have hsize : term.termHeight≤1024 := hscreen.2.2.1.2
  have htop := hring.top_nonneg
  have htop' := hring.top_lt
  obtain ⟨hcontents,hkept⟩ := contents_copyRows copyStart copyEnd offset
    hscreen.1.1.available_pos (⟨by omega,by omega⟩ : term.buffer.Reaches 0 (term.termHeight-1))
    hring.height_le (by omega) hoffset fun row hrow hrow' => by
      have hboth := (hcopies row).mp ⟨hrow,hrow'⟩
      omega
  have hindex : copied.buffer.index=term.buffer.index := by
    rw [hcopied]
    exact copyRows_index term.buffer copyStart copyEnd offset
  rw [←hcopied] at hcontents hkept
  have hblank : ∀ row column, (∃ cleared, (first≤cleared ∧ cleared≤last) ∧
      term.buffer.index cleared=term.buffer.index row) →
      0≤column ∧ column<term.termWidth → term'.shown row column=blankOf term.currentAttributes := by
    intro row column hreached hcolumn
    rw [←hindex] at hreached
    exact shown_of_cleared hcleared hreached hcolumn
  have hunchanged : ∀ row, (∀ cleared, first≤cleared ∧ cleared≤last →
      term.buffer.index cleared≠term.buffer.index row) →
      term'.buffer.contents (term'.buffer.index row)=
        copied.buffer.contents (term.buffer.index row) := by
    intro row hothers
    rw [←hindex] at hothers ⊢
    exact contents_of_not_cleared hcleared hothers
  constructor
  · intro h row column ⟨hrow,hout,hreached⟩ hcolumn
    rw [←h.outside row column hrow hout hcolumn]
    exact hblank row column hreached hcolumn
  · intro h
    refine ⟨fun row column hrow hout hcolumn => ?_,fun row column hrow hrow' hcolumn => ?_,
      fun row column hrow hrow' hcolumn => ?_⟩
    · by_cases hreached : ∃ cleared, (first≤cleared ∧ cleared≤last) ∧
          term.buffer.index cleared=term.buffer.index row
      · rw [h row column ⟨hrow,hout,hreached⟩ hcolumn]
        exact hblank row column hreached hcolumn
      · have hnot : ∀ moved, copyStart ≤ moved → moved≤copyEnd →
            term.buffer.index row≠term.buffer.index (moved+offset) := by
          intro moved hfirst hlast heq
          have hregion := (hcopies moved).mp ⟨hfirst,hlast⟩
          have hsame := hring.index_inj hscreen hrow ⟨by omega,by omega⟩ heq
          exact hout (by omega)
        unfold GuacTerminal.shown
        rw [hunchanged row fun cleared hrange heq => hreached ⟨cleared,hrange,heq⟩,hkept _ hnot]
    · have hcopy := (hcopies row).mpr ⟨hrow,hrow'⟩
      unfold GuacTerminal.shown
      rw [hunchanged _ fun cleared hrange => hmoved row cleared hrow hrow' hrange,
        hcontents row hcopy.1 hcopy.2]
    · exact hblank row column ⟨row,hgained row hrow hrow',rfl⟩ hcolumn

/-- The scrollback and the rendered column after rows were copied. -/
theorem copyRows_buffer (term : GuacTerminal) (startRow endRow offset : ℤ) :
    (guacTerminalCopyRows term startRow endRow offset).buffer=
        guacTerminalBufferCopyRows term.buffer startRow endRow offset ∧
      (guacTerminalCopyRows term startRow endRow offset).visibleCursorCol=
        term.visibleCursorCol := by
  unfold guacTerminalCopyRows guacTerminalSelectTouch
  dsimp only
  split_ifs <;> exact ⟨rfl,rfl⟩

/-- What is cleared after rows were copied, whatever became of the display. -/
theorem rowsCleared_of_contents (hscreen : ScreenOk term) {copied : GuacTerminal}
    (hsame : SameControl term copied) (hbuffer : BufferOk copied.buffer)
    (hcursor : copied.visibleCursorCol=term.visibleCursorCol) (first last : ℤ) :
    RowsCleared term.termWidth term.currentAttributes (fun row => first≤row ∧ row≤last)
      copied.buffer (guacTerminalClearRange copied first 0 last (copied.termWidth-1)).buffer := by
  have hdefault : copied.defaultChar=term.defaultChar := by
    rw [hsame]
    rfl
  have hshadow : ContentOk term.termWidth term.termHeight
      { copied with display := term.display } := by
    refine ⟨hbuffer,hscreen.1.2.1,?_,?_⟩
    · dsimp only
      rw [hcursor]
      exact hscreen.1.2.2.1
    · dsimp only
      rw [hdefault]
      exact hscreen.1.2.2.2
  have hcleared := rowsCleared_clearRange hscreen.2.1.1 hscreen.2.1.2
    (⟨rfl,rfl,rfl,rfl⟩ : SameRows { copied with display := term.display } copied) hshadow
    hsame.termWidth first last
  rw [hsame.currentAttributes] at hcleared
  rw [hsame.termWidth]
  exact hcleared

/-- Rows that are gained are cleared after others are copied. -/
theorem rowsCleared_copyRows (hscreen : ScreenOk term) (startRow endRow offset first last : ℤ) :
    RowsCleared term.termWidth term.currentAttributes (fun row => first≤row ∧ row≤last)
      (guacTerminalCopyRows term startRow endRow offset).buffer
      (guacTerminalClearRange (guacTerminalCopyRows term startRow endRow offset) first 0 last
        ((guacTerminalCopyRows term startRow endRow offset).termWidth-1)).buffer := by
  obtain ⟨hbuffer,hcursor⟩ := copyRows_buffer term startRow endRow offset
  refine rowsCleared_of_contents hscreen (sameControl.copyRows ..) ?_ hcursor first last
  rw [hbuffer]
  exact hscreen.1.1.copyRows startRow endRow offset

section Scrolls

variable {startRow endRow amount : ℤ}

section

variable (hscreen : ScreenOk term) (hring : RingOk term) (hstart : 0 ≤ startRow)
  (hle : startRow≤endRow) (hend : endRow<term.termHeight) (hamount : 1≤amount)
  (hsum : startRow+amount<2^31)

include hscreen hring hstart hle hend hamount hsum

/-- A part of the screen is scrolled up. -/
theorem scrolled_up_part (hpart : ¬(startRow=0 ∧ endRow=term.termHeight-1)) :
    Scrolled term (guacTerminalScrollUp term startRow endRow amount) startRow endRow (-amount) ↔
      OverrunsBlank term startRow endRow (endRow-amount+1) endRow := by
  have hcleared := rowsCleared_copyRows hscreen (startRow+amount) endRow (-amount)
    (endRow-amount+1) endRow
  have hscrolled : guacTerminalScrollUp term startRow endRow amount=
      guacTerminalClearRange (guacTerminalCopyRows term (startRow+amount) endRow (-amount))
        (endRow-amount+1) 0 endRow
        ((guacTerminalCopyRows term (startRow+amount) endRow (-amount)).termWidth-1) := by
    have hsize : term.termHeight≤1024 := hscreen.2.2.1.2
    rw [scrollUp_eq,scrolledUp,if_neg hpart,wrap32_of_range (by omega) hsum,
      wrap32_of_range (by omega) (by omega),wrap32_of_range (by omega) (by omega)]
  rw [hscrolled]
  refine scrolled_iff_overrunsBlank hscreen hring hstart hend (by omega) (fun row => by omega)
    (fun row hrow hnot => by omega) (fun row cleared hrow hrow' hrange heq => ?_)
    (copyRows_buffer ..).1 hcleared
  have hsame := hring.index_inj hscreen ⟨by omega,by omega⟩ ⟨by omega,by omega⟩ heq
  omega

/-- A region is scrolled down. -/
theorem scrolled_down :
    Scrolled term (guacTerminalScrollDown term startRow endRow amount) startRow endRow amount ↔
      OverrunsBlank term startRow endRow startRow (startRow+amount-1) := by
  have hcleared := rowsCleared_copyRows hscreen startRow (endRow-amount) amount
    startRow (startRow+amount-1)
  have hwidth := (sameControl.copyRows term startRow (endRow-amount) amount).termWidth
  have hscrolled : guacTerminalScrollDown term startRow endRow amount=
      guacTerminalClearRange (guacTerminalCopyRows term startRow (endRow-amount) amount)
        startRow 0 (startRow+amount-1)
        ((guacTerminalCopyRows term startRow (endRow-amount) amount).termWidth-1) := by
    have hsize : term.termHeight≤1024 := hscreen.2.2.1.2
    rw [guacTerminalScrollDown,wrap32_of_range (by omega) (by omega),
      wrap32_of_range (by omega) (by omega),hwidth]
  rw [hscrolled]
  refine scrolled_iff_overrunsBlank hscreen hring hstart hend (by omega) (fun row => by omega)
    (fun row hrow hnot => by omega) (fun row cleared hrow hrow' hrange heq => ?_)
    (copyRows_buffer ..).1 hcleared
  have hsame := hring.index_inj hscreen ⟨by omega,by omega⟩ ⟨by omega,by omega⟩ heq
  omega

end

/-- The ring advances by the rows that are scrolled up. -/
theorem advanceBuffer_index (hring : RingOk term) (hheight : 0<term.termHeight)
    (hamount : 1≤amount) (hsum : term.buffer.top+amount<2^31) :
    (0≤(advanceBuffer term.buffer amount).top ∧
      (advanceBuffer term.buffer amount).top+term.termHeight≤2^31) ∧
    ∀ row, 0≤row ∧ row<term.termHeight →
      (advanceBuffer term.buffer amount).index (row-amount)=term.buffer.index row := by
  have hle := hring.height_le
  have hlt := hring.available_lt
  have htop := hring.top_nonneg
  have htop' := hring.top_lt
  have hcases : (advanceBuffer term.buffer amount).top=term.buffer.top+amount ∧
        term.buffer.top+amount<term.buffer.available ∨
      (advanceBuffer term.buffer amount).top=term.buffer.top+amount-term.buffer.available ∧
        term.buffer.available≤term.buffer.top+amount := by
    unfold advanceBuffer
    dsimp only
    rw [wrap32_of_range (by omega) hsum]
    split_ifs <;> omega
  have havailable : (advanceBuffer term.buffer amount).available=term.buffer.available := rfl
  refine ⟨by omega,fun row hrow => ?_⟩
  rw [index_eq_emod (by omega) (by omega) (by omega),index_eq_emod (by omega) (by omega)
    (by omega),havailable]
  rcases hcases with ⟨heq,-⟩ | ⟨heq,-⟩
  · rw [heq]
    congr 1
    omega
  · have hshift : (advanceBuffer term.buffer amount).top+(row-amount)=
        term.buffer.top+row-term.buffer.available := by omega
    rw [hshift,Int.sub_emod_right]

/-- All of the screen is scrolled up. -/
theorem scrolled_up_screen (hscreen : ScreenOk term) (hring : RingOk term) (hamount : 1≤amount)
    (hsum : term.buffer.top+amount<2^31) (hlength : term.buffer.length+amount<2^31) :
    Scrolled term (guacTerminalScrollUp term 0 (term.termHeight-1) amount) 0
        (term.termHeight-1) (-amount) ∧
      MovedOff term (guacTerminalScrollUp term 0 (term.termHeight-1) amount) amount := by
  have hheight := hscreen.2.2.1.1
  have hle := hring.height_le
  have hlt := hring.available_lt
  have hnonneg := hring.length_nonneg
  obtain ⟨⟨htop,htop'⟩,hindex⟩ := advanceBuffer_index hring hheight hamount hsum
  have hbuffer : (scrolledUp term 0 (term.termHeight-1) amount).buffer=
        advanceBuffer term.buffer amount ∧
      (scrolledUp term 0 (term.termHeight-1) amount).visibleCursorCol=term.visibleCursorCol := by
    unfold scrolledUp
    rw [if_pos ⟨rfl,rfl⟩]
    dsimp only
    split_ifs <;> exact ⟨rfl,rfl⟩
  have hok : BufferOk (advanceBuffer term.buffer amount) :=
    ⟨hscreen.1.1.available_pos,hscreen.1.1.rows,hscreen.1.1.default,hscreen.1.1.bounded⟩
  have hcleared := rowsCleared_of_contents hscreen
    (sameControl_scrolledUp term 0 (term.termHeight-1) amount) (hbuffer.1 ▸ hok) hbuffer.2
    (term.termHeight-amount) (term.termHeight-1)
  have hkeeps := keepsScroll.clearRange (scrolledUp term 0 (term.termHeight-1) amount)
    (term.termHeight-amount) 0 (term.termHeight-1)
    ((scrolledUp term 0 (term.termHeight-1) amount).termWidth-1)
  have hscrolled : guacTerminalScrollUp term 0 (term.termHeight-1) amount=
      guacTerminalClearRange (scrolledUp term 0 (term.termHeight-1) amount)
        (term.termHeight-amount) 0 (term.termHeight-1)
        ((scrolledUp term 0 (term.termHeight-1) amount).termWidth-1) := by
    have hfirst : term.termHeight-1-amount+1=term.termHeight-amount := by omega
    rw [scrollUp_eq,hfirst,wrap32_of_range (by omega) (by omega)]
  rw [←hscrolled] at hcleared hkeeps
  rw [hbuffer.1] at hcleared
  have hindex' := hcleared.index
  have hcontents : (advanceBuffer term.buffer amount).contents=term.buffer.contents := rfl
  have hmoved : ∀ row column, 0≤row ∧ row<term.termHeight →
      term.termHeight-term.buffer.available≤row-amount →
      (guacTerminalScrollUp term 0 (term.termHeight-1) amount).shown (row-amount) column=
        term.shown row column := by
    intro row column hrow hroom
    unfold GuacTerminal.shown
    rw [hindex',hcleared.kept fun cleared hrange heq => ?_,hcontents,hindex row hrow]
    have havailable : (advanceBuffer term.buffer amount).available=term.buffer.available := rfl
    have hsame := index_inj (by omega : 0<(advanceBuffer term.buffer amount).available)
      (term.termHeight-term.buffer.available) (term.termHeight-1)
      ⟨by omega,by omega⟩ (by omega) ⟨hroom,by omega⟩ ⟨by omega,by omega⟩ heq
    omega
  refine ⟨⟨fun row column hrow hout _ => absurd ⟨hrow.1,by omega⟩ hout,
    fun row column hrow hrow' hcolumn => ?_,fun row column hrow hnot hcolumn => ?_⟩,
    fun row column hrow hroom _ => hmoved row column hrow hroom,?_⟩
  · exact hmoved row column ⟨hrow.1,by omega⟩ (by omega)
  · have hdone := hcleared.blank row ⟨by omega,by omega⟩ column hcolumn.1 hcolumn.2
    rw [←hindex'] at hdone
    exact hdone
  · refine le_trans ?_ hkeeps.2
    rw [hbuffer.1]
    unfold advanceBuffer
    dsimp only
    rw [wrap32_of_range (by omega) hlength]
    split_ifs <;> omega

end Scrolls

/-! ## Amounts -/

/-- All of the screen is the region. -/
def EntireScreen (term : GuacTerminal) (startRow endRow : ℤ) : Prop :=
  startRow=0 ∧ endRow=term.termHeight-1

instance (startRow endRow : ℤ) : Decidable (EntireScreen term startRow endRow) :=
  inferInstanceAs (Decidable (_ ∧ _))

/-- The sums that guac_terminal_scroll_up makes of the amount are ints: it has no meaning
otherwise. -/
def UpSums (term : GuacTerminal) (startRow endRow amount : ℤ) : Prop :=
  startRow+amount<2^31 ∧ if EntireScreen term startRow endRow then
      term.buffer.top+amount<2^31 ∧ term.buffer.length+amount<2^31
    else startRow+amount+term.scrollOffset<2^31

/-- The sums that guac_terminal_scroll_down makes of the amount are ints. -/
def DownSums (startRow amount : ℤ) : Prop := startRow+amount<2^31

/-- guac_terminal_scroll_up scrolls the region, or the screen into the scrollback. -/
def ScrollsRegionUp (term : GuacTerminal) (startRow endRow amount : ℤ) : Prop :=
  UpSums term startRow endRow amount ∧
    Scrolled term (guacTerminalScrollUp term startRow endRow amount) startRow endRow (-amount) ∧
    (EntireScreen term startRow endRow →
      MovedOff term (guacTerminalScrollUp term startRow endRow amount) amount)

/-- guac_terminal_scroll_down scrolls the region. -/
def ScrollsRegionDown (term : GuacTerminal) (startRow endRow amount : ℤ) : Prop :=
  DownSums startRow amount ∧
    Scrolled term (guacTerminalScrollDown term startRow endRow amount) startRow endRow amount

/-- An amount that is not greater than the region has sums that are ints, and no rows
cleared but those of the region. -/
theorem within_of_amount_le (hscreen : ScreenOk term) (hring : RingOk term)
    {startRow endRow amount : ℤ} (hstart : 0 ≤ startRow) (hend : endRow<term.termHeight)
    (hamount : amount≤endRow-startRow+1) :
    (UpSums term startRow endRow amount ∧
      OverrunsBlank term startRow endRow (endRow-amount+1) endRow) ∧
    DownSums startRow amount ∧ OverrunsBlank term startRow endRow startRow (startRow+amount-1) := by
  have hsize : term.termHeight≤1024 := hscreen.2.2.1.2
  have hlt := hring.available_lt
  have htop := hring.top_lt
  have hlength := hring.length_le
  have hoffset := hring.offset_le
  have hnone : ∀ {first last : ℤ}, startRow≤first → last≤endRow →
      OverrunsBlank term startRow endRow first last := by
    intro first last hfirst hlast row column ⟨hrow,hout,cleared,hcleared,heq⟩ _
    have hsame := hring.index_inj hscreen ⟨by omega,by omega⟩ hrow heq
    exact absurd ⟨by omega,by omega⟩ hout
  unfold UpSums DownSums
  refine ⟨⟨⟨by omega,?_⟩,hnone (by omega) le_rfl⟩,by omega,hnone le_rfl (by omega)⟩
  split_ifs <;> omega

/-- A terminal of two columns and three rows, whose first row begins with a letter. -/
def threeRows : GuacTerminal :=
  let term := guacTerminalAlloc consoleMemory consoleSettings 32 48
  let letter : TerminalChar := ⟨65,term.currentAttributes,1⟩
  { term with buffer := { term.buffer with
      rows := update term.buffer.rows 0 ⟨fun _ => letter,1,256⟩
      length := 1 } }

theorem screenOk_threeRows : ScreenOk threeRows := by
  have hcell : ∀ value attributes, CellOk ⟨value,attributes,1⟩ :=
    fun _ _ => ⟨Int.one_nonneg,fun _ => le_rfl⟩
  have hbuffer : BufferOk threeRows.buffer := by
    refine ⟨by decide,fun i => ?_,hcell _ _,rfl⟩
    show RowOk (update (β := fun _ => BufferRow) _ 0 _ i)
    rcases eq_or_ne i 0 with rfl | hi
    · rw [update_self]
      exact ⟨by decide,by decide,by decide,by decide,fun _ _ _ => hcell _ _⟩
    · rw [update_of_ne hi]
      exact (bufferOk_alloc (by decide) (hcell 0 _) consoleMemory.characters).rows i
  exact ⟨⟨hbuffer,⟨rfl,rfl,rfl⟩,by decide,rfl⟩,by decide,by decide,by decide,by decide,by decide⟩

theorem ringOk_threeRows : RingOk threeRows := by
  refine ⟨?_,?_,?_,?_,?_,?_,?_⟩ <;> decide

end GuacServer.Terminal
