import GuacServer.ScrollbarBounds

/-!
# The scrollbar shows the scroll offset

Whatever is written, scrolled, dragged and resized, the value of the scrollbar is
that of the scroll offset, and the handle is placed in its container, exactly if
the bounds that are set on the way cover the scroll offset.
-/

namespace GuacServer.Terminal

open DecimalNumerals StateRuns

/-- The handle lies in the container, if that is as tall as its padding. -/
def HandleInside (state : ScrollbarRenderState) : Prop :=
  terminalScrollbarPadding*2 ≤ state.containerHeight → (0 ≤ state.handleX ∧ 0 ≤ state.handleWidth ∧
      state.handleX+state.handleWidth ≤ state.containerWidth) ∧
    0 ≤ state.handleY ∧ 0 ≤ state.handleHeight ∧
      state.handleY+state.handleHeight ≤ state.containerHeight

/-- Scroll offset and scrollbar agree, and calculate_state places the handle. -/
structure ScrollbarAgrees (s : ScrollbarTerminal) : Prop where
  offset_nonneg : 0 ≤ s.terminal.scrollOffset
  offset_le : s.terminal.scrollOffset ≤ max 0 (guacTerminalAvailableScroll s.terminal)
  value_eq : s.terminal.scrollbarValue = -s.terminal.scrollOffset
  min_le : s.terminal.scrollbarMin ≤ s.terminal.scrollbarValue
  le_max : s.terminal.scrollbarValue ≤ s.terminal.scrollbarMax
  calculates : ∃ state value, calculateState s.terminal s.scrollbar=some (state,value) ∧
    HandleInside state

/-! ## The handle -/

/-- A product is scaled back to at most its other factor. -/
theorem tdiv_between {n a b : ℤ} (hn : 0≤n) (ha : 0≤a) (hab : a≤b) (hb : 0<b) :
    0≤(n*a).tdiv b ∧ (n*a).tdiv b≤n := by
  have hprod : 0≤n*a := mul_nonneg hn ha
  refine ⟨Int.tdiv_nonneg hprod hb.le,?_⟩
  rw [Int.tdiv_eq_ediv_of_nonneg hprod]
  exact Int.ediv_le_of_le_mul hb (mul_le_mul_of_nonneg_left hab hn)

/-- A handle that is scaled to any height fits its greatest height. -/
theorem fitHandleHeight_between (proportionalHeight : ℤ) {maxHandleHeight : ℤ}
    (h : 0 ≤ maxHandleHeight) :
    0≤fitHandleHeight proportionalHeight maxHandleHeight ∧
      fitHandleHeight proportionalHeight maxHandleHeight ≤ maxHandleHeight := by
  have hmin : terminalScrollbarMinHeight=64 := rfl
  unfold fitHandleHeight
  dsimp only
  split_ifs <;> omega

section

variable {term : GuacTerminal} {scrollbar : Scrollbar}

theorem draggedHandleY_between (h : minHandleY ≤ maxHandleY term scrollbar) :
    minHandleY≤draggedHandleY term scrollbar ∧
      draggedHandleY term scrollbar ≤ maxHandleY term scrollbar := by
  unfold draggedHandleY
  dsimp only
  split_ifs <;> omega

theorem scrollDelta_nonneg (term : GuacTerminal) : 0≤term.scrollDelta := by
  unfold GuacTerminal.scrollDelta
  split_ifs <;> omega

/-- The handle stays between its least and its greatest position. -/
theorem handlePosition_between (scrollbar : Scrollbar)
    (hrange : minHandleY ≤ maxHandleY term scrollbar)
    (hmin : term.scrollbarMin≤term.scrollbarValue)
    (hmax : term.scrollbarValue≤term.scrollbarMax) :
    minHandleY≤(handlePosition term scrollbar).1 ∧
      (handlePosition term scrollbar).1 ≤ maxHandleY term scrollbar := by
  unfold handlePosition
  dsimp only
  split
  · exact draggedHandleY_between hrange
  split
  · next hdelta =>
    have hdelta' : term.scrollbarValue-term.scrollbarMin≤term.scrollDelta := by
      unfold GuacTerminal.scrollDelta at hdelta ⊢
      split_ifs at hdelta ⊢ <;> omega
    have hscaled := tdiv_between (sub_nonneg.mpr hrange) (sub_nonneg.mpr hmin) hdelta' hdelta
    dsimp only
    omega
  · exact ⟨le_rfl,hrange⟩

/-- The value that the handle is dragged to is one that the scrollbar can have. -/
theorem handlePosition_value (scrollbar : Scrollbar) (hmin : term.scrollbarMin≤term.scrollbarValue)
    (hmax : term.scrollbarValue≤term.scrollbarMax) :
    term.scrollbarMin≤(handlePosition term scrollbar).2 ∧
      (handlePosition term scrollbar).2≤term.scrollbarMax := by
  unfold handlePosition
  dsimp only
  split_ifs with hdragging hrange
  · obtain ⟨hlow,hhigh⟩ := draggedHandleY_between hrange.le
    have hscaled := tdiv_between (scrollDelta_nonneg term) (sub_nonneg.mpr hlow)
      (sub_le_sub_right hhigh minHandleY) (sub_pos.mpr hrange)
    rw [mul_comm term.scrollDelta] at hscaled
    have hdelta : term.scrollbarMin+term.scrollDelta≤term.scrollbarMax := by
      unfold GuacTerminal.scrollDelta
      split_ifs <;> omega
    dsimp only
    omega
  · exact ⟨hmin,hmax⟩
  · exact ⟨hmin,hmax⟩
  · exact ⟨hmin,hmax⟩

/-- With a value within the bounds the handle is placed in its container. -/
theorem handleInside_calculateState (hmin : term.scrollbarMin≤term.scrollbarValue)
    (hmax : term.scrollbarValue≤term.scrollbarMax)
    (hdivisor : term.scrollDelta+scrollbar.visibleArea≠0) :
    ∃ state value, calculateState term scrollbar=some (state,value) ∧ HandleInside state := by
  refine ⟨_,_,if_neg hdivisor,fun htall => ?_⟩
  have hheight : 0 ≤ scrollbar.maxHandleHeight := by
    unfold Scrollbar.maxHandleHeight
    dsimp only at htall
    omega
  obtain ⟨hlow,hhigh⟩ : 0≤handleHeight term scrollbar ∧
      handleHeight term scrollbar ≤ scrollbar.maxHandleHeight := fitHandleHeight_between _ hheight
  have hmaxY : maxHandleY term scrollbar=
      minHandleY+scrollbar.maxHandleHeight-handleHeight term scrollbar := rfl
  obtain ⟨hfirst,hlast⟩ := handlePosition_between scrollbar (by omega) hmin hmax
  have hpadding : minHandleY=2 := rfl
  have htotal : scrollbar.maxHandleHeight=scrollbar.parentHeight-4 := rfl
  have hacross : 0≤terminalScrollbarPadding ∧ 0≤terminalScrollbarWidth-terminalScrollbarPadding*2 ∧
      terminalScrollbarPadding+(terminalScrollbarWidth-terminalScrollbarPadding*2)≤
        terminalScrollbarWidth := by decide
  refine ⟨hacross,?_,hlow,?_⟩
  · dsimp only
    omega
  · dsimp only
    omega

end

/-! ## Steps -/

section

variable {s : ScrollbarTerminal}

theorem agrees_of_good (h : ScrollGood s.scrollbar.visibleArea s.terminal) : ScrollbarAgrees s := by
  have hmin : s.terminal.scrollbarMin ≤ s.terminal.scrollbarValue := h.min_le.trans_eq h.value.symm
  have hmax : s.terminal.scrollbarValue ≤ s.terminal.scrollbarMax := by
    rw [h.value,h.max_eq]
    exact neg_nonpos.mpr h.nonneg
  have hdivisor : s.terminal.scrollDelta+s.scrollbar.visibleArea≠0 := by
    have hrows := h.rows_ne
    rw [h.scrollDelta_eq]
    omega
  exact ⟨h.nonneg,h.offset_le,h.value,hmin,hmax,handleInside_calculateState hmin hmax hdivisor⟩

theorem sound_of_agrees (h : ScrollbarAgrees s) :
    ScrollSound s.scrollbar.visibleArea s.terminal := by
  refine ⟨h.offset_nonneg,h.value_eq,h.min_le,h.le_max,fun hzero => ?_⟩
  obtain ⟨state,value,hstate,-⟩ := h.calculates
  rw [calculateState,if_pos hzero] at hstate
  cases hstate

/-- What calculate_state computes depends on the scrollbar. -/
theorem stateFits_congr {term term' : GuacTerminal} (h : KeepsScroll term term')
    (scrollbar : Scrollbar) : StateFits term' scrollbar ↔ StateFits term scrollbar := by
  unfold StateFits draggedHandleY maxHandleY handleHeight
  rw [h.scrollDelta_eq,h.min,h.value]

/-- Mouse events do not change how much is visible. -/
theorem handleMouse_visibleArea (scrollbar : Scrollbar) (x y mask : ℤ) :
    (guacTerminalScrollbarHandleMouse scrollbar x y mask).1.visibleArea=scrollbar.visibleArea := by
  unfold guacTerminalScrollbarHandleMouse
  dsimp only
  split_ifs
  all_goals rfl

/-- A flush scrolls to where the handle is dragged. -/
theorem good_scrollbarFlush (h : ScrollGood s.scrollbar.visibleArea s.terminal)
    (hfits : StateFits s.terminal s.scrollbar) :
    ∃ s', guacTerminalScrollbarFlush s=some s' ∧
      ScrollGood s'.scrollbar.visibleArea s'.terminal := by
  have hagrees := agrees_of_good h
  have hdelta := hfits.2.1.1.2
  rw [h.scrollDelta_eq] at hdelta
  obtain ⟨hlow,hhigh⟩ := handlePosition_value s.scrollbar hagrees.min_le hagrees.le_max
  rw [h.max_eq] at hhigh
  have hdivisor := (sound_of_agrees hagrees).rows_ne
  unfold guacTerminalScrollbarFlush calculateState
  rw [if_pos hfits,if_neg hdivisor]
  refine ⟨_,rfl,?_⟩
  dsimp only
  split
  · exact scrollGood_scrollHandler h hdelta hlow hhigh
  · exact h

theorem isInt_toInt (value : Int32) : IsInt value.toInt := ⟨value.le_toInt,value.toInt_lt⟩

end

/-- What a step scrolls, resets or sets leaves the scrollbar as it has to be, and what
a flush computes are ints. -/
def StepFits (env : TerminalEnv) (op : ScrollbarOp) (s : ScrollbarTerminal) : Prop :=
  match op with
  | .write c uninitializedWidth =>
    WriteFits { env with uninitializedWidth := uninitializedWidth } s.terminal c
  | .resize _ _ height => ResizeFits s.terminal (s.terminal.display.rowsOf height.toInt)
  | .scrollDisplayDown _ => True
  | .scrollDisplayUp scrollAmount => ScrollUpFits s.terminal scrollAmount.toInt
  | .mouse _ _ _ => True
  | .flush => StateFits s.terminal s.scrollbar

/-- A step that fits keeps the scrollbar in order. -/
theorem good_scrollbarStep {env : TerminalEnv} {op : ScrollbarOp} {s : ScrollbarTerminal}
    (h : ScrollGood s.scrollbar.visibleArea s.terminal) (hfits : StepFits env op s) :
    ∃ s', scrollbarStep env op s=some s' ∧ ScrollGood s'.scrollbar.visibleArea s'.terminal := by
  cases op with
  | write c uninitializedWidth => exact ⟨_,rfl,(exactly_handleChar h _ c).good hfits⟩
  | resize memory width height => exact ⟨_,rfl,(exactly_resize h memory _ _).good hfits⟩
  | scrollDisplayDown scrollAmount => exact ⟨_,rfl,(scrollGood_scrollDisplayDown h _).1⟩
  | scrollDisplayUp scrollAmount =>
    exact ⟨_,rfl,(exactly_scrollDisplayUp h (isInt_toInt _)).good hfits⟩
  | mouse x y mask =>
    refine ⟨_,rfl,?_⟩
    dsimp only
    rw [handleMouse_visibleArea]
    exact h
  | flush =>
    have hflushed := (sameScroll_flush s.terminal).keeps
    exact good_scrollbarFlush (s := { s with terminal := guacTerminalFlush s.terminal })
      (h.keeps hflushed) ((stateFits_congr hflushed _).mpr hfits)

/-- No other step does. -/
theorem fits_of_scrollbarStep {env : TerminalEnv} {op : ScrollbarOp} {s s' : ScrollbarTerminal}
    (h : ScrollGood s.scrollbar.visibleArea s.terminal) (hstep : scrollbarStep env op s=some s')
    (hagrees : ScrollbarAgrees s') : StepFits env op s := by
  have hsound := sound_of_agrees hagrees
  cases op with
  | write c uninitializedWidth =>
    cases hstep
    exact (exactly_handleChar h _ c).only hsound
  | resize memory width height =>
    cases hstep
    exact (exactly_resize h memory _ _).only hsound
  | scrollDisplayDown scrollAmount => trivial
  | scrollDisplayUp scrollAmount =>
    cases hstep
    exact (exactly_scrollDisplayUp h (isInt_toInt _)).only hsound
  | mouse x y mask => trivial
  | flush =>
    have hflushed := (sameScroll_flush s.terminal).keeps
    by_contra hnot
    have hnone : scrollbarStep env .flush s=none :=
      if_neg (mt (stateFits_congr hflushed s.scrollbar).mp hnot)
    rw [hnone] at hstep
    cases hstep

/-- In every state of a run the scrollbar agrees with the scroll offset, exactly if the
terminal is created with rows and all steps are of the kind. -/
theorem scrollbarAgrees_iff (env : TerminalEnv) (memory : Memory) (drag : ℤ×ℤ)
    (settings : TerminalSettings) (width height : Int32) (ops : List ScrollbarOp) :
    (∀ made, made <+: ops→∃ visited, run (scrollbarStep env) made
        (createScrollbar memory drag settings width.toInt height.toInt)=some visited ∧
          ScrollbarAgrees visited) ↔
      (guacTerminalAlloc memory settings width.toInt height.toInt).termHeight≠0 ∧
        Along (scrollbarStep env) (StepFits env) ops
          (createScrollbar memory drag settings width.toInt height.toInt) := by
  have hcreated := exactly_reset (guacTerminalAlloc memory settings width.toInt height.toInt)
  by_cases hrows : (guacTerminalAlloc memory settings width.toInt height.toInt).termHeight≠0
  · rw [and_iff_right hrows]
    have hgood : ScrollGood (createScrollbar memory drag settings width.toInt
        height.toInt).scrollbar.visibleArea (createScrollbar memory drag settings width.toInt
        height.toInt).terminal := hcreated.good hrows
    exact run_iff_along (G := fun s => ScrollGood s.scrollbar.visibleArea s.terminal)
      agrees_of_good good_scrollbarStep fits_of_scrollbarStep ops hgood
  · refine iff_of_false (fun hvisits => hrows ?_) fun h => hrows h.1
    obtain ⟨visited,hrun,hagrees⟩ := hvisits [] List.nil_prefix
    cases hrun
    exact hcreated.only (sound_of_agrees hagrees)

/-! ## A terminal that grows -/

/-- The scrollback has no more than some rows, and they are of some height in pixels. -/
structure ShowsRows (rows charHeight : ℤ) (term : GuacTerminal) : Prop where
  length_le : term.buffer.length≤rows
  charHeight_eq : term.display.charHeight=charHeight

section

variable {rows charHeight : ℤ} {term : GuacTerminal}

theorem displaySetColumns_charHeight (display : Display) (row startColumn endColumn : ℤ)
    (character : TerminalChar) :
    (guacTerminalDisplaySetColumns display row startColumn endColumn character).charHeight=
      display.charHeight := by
  unfold guacTerminalDisplaySetColumns Display.check
  dsimp only
  split_ifs
  all_goals rfl

section

variable (h : ShowsRows rows charHeight term) {row : ℤ} (hrow : row<rows)

include h hrow

/-- A character in one of these rows does not make the scrollback longer. -/
theorem showsRows_setColumnsUnbroken (startColumn endColumn : ℤ) (character : TerminalChar) :
    ShowsRows rows charHeight (setColumnsUnbroken term row startColumn endColumn character) := by
  have hlength := h.length_le
  have hset : ShowsRows rows charHeight { term with
      display := guacTerminalDisplaySetColumns term.display (wrap32 (row+term.scrollOffset))
        startColumn endColumn character
      buffer := guacTerminalBufferSetColumns term.buffer row startColumn endColumn character } := by
    refine ⟨?_,(displaySetColumns_charHeight ..).trans h.charHeight_eq⟩
    have hgot : (guacTerminalBufferGetRow term.buffer row (wrap32 (endColumn+1))).length=
        term.buffer.length := rfl
    unfold guacTerminalBufferSetColumns Buffer.check
    dsimp only
    split_ifs
    · exact hlength
    · dsimp only
      omega
    · exact hlength
  exact ite_keeps ⟨hset.length_le,hset.charHeight_eq⟩ hset

theorem showsRows_clearBroken (startColumn endColumn : ℤ) :
    ShowsRows rows charHeight (clearBroken term row startColumn endColumn) :=
  ite_keeps (showsRows_setColumnsUnbroken h hrow ..) h

theorem showsRows_forceBreak (edge : ℤ) : ShowsRows rows charHeight (forceBreak term row edge) := by
  have hgot : ShowsRows rows charHeight { term with
      buffer := guacTerminalBufferGetRow term.buffer row 0 } := ⟨h.length_le,h.charHeight_eq⟩
  have hleft : ShowsRows rows charHeight (if edge > 0 then
      clearBroken { term with buffer := guacTerminalBufferGetRow term.buffer row 0 } row
        (characterStart ((guacTerminalBufferGetRow term.buffer row 0).row row).characters
          (edge-1).toNat) (edge-1)
      else { term with buffer := guacTerminalBufferGetRow term.buffer row 0 }) :=
    ite_keeps (showsRows_clearBroken hgot hrow ..) hgot
  exact ite_keeps (showsRows_clearBroken hleft hrow ..) hleft

theorem showsRows_setColumns (startColumn endColumn : ℤ) (character : TerminalChar) :
    ShowsRows rows charHeight
      (guacTerminalSetColumns term row startColumn endColumn character) := by
  have hset := showsRows_setColumnsUnbroken h hrow startColumn endColumn character
  refine showsRows_forceBreak (showsRows_forceBreak ?_ hrow _) hrow _
  exact ite_keeps (showsRows_setColumnsUnbroken hset hrow ..) hset

end

/-- A reset leaves no more than what is displayed. -/
theorem showsRows_reset (hheight : 0≤term.termHeight) :
    ShowsRows term.termHeight term.display.charHeight (guacTerminalReset term) := by
  unfold guacTerminalReset
  refine forTo_keeps (P := ShowsRows term.termHeight term.display.charHeight)
    (fun row t _ hlast ht => ?_) ⟨hheight,rfl⟩
  exact showsRows_setColumns ht (Int.lt_of_le_sub_one hlast) ..

/-- More rows than the scrollback has make the value positive. -/
theorem resize_value_pos (h : ScrollGood rows term)
    (hshows : ShowsRows rows charHeight term) (hoffset : term.scrollOffset=0) (memory : Memory)
    (width height : ℤ) (hgrows : rows<term.display.rowsOf height) :
    (guacTerminalResize memory term width height).scrollOffset=0 ∧
      0<(guacTerminalResize memory term width height).scrollbarValue := by
  obtain ⟨sized,hagrees,hsame,heq⟩ := resize_eq h memory width height
  have hrevealed := revealedRows_nonneg term (term.display.rowsOf height)
  have hzero : sized.scrollOffset=0 := by
    refine hsame.keeps.offset.trans ?_
    show offsetAfter term (term.display.rowsOf height)=0
    unfold offsetAfter
    omega
  have hlength : sized.buffer.length≤rows := hsame.2.trans_le hshows.length_le
  have hnegative : guacTerminalAvailableScroll sized<0 := by
    unfold guacTerminalAvailableScroll guacTerminalEffectiveBufferLength
    rw [hagrees.height]
    dsimp only
    split_ifs <;> omega
  rw [heq]
  refine ⟨hzero,?_⟩
  rw [setBounds_value hagrees,if_pos (by omega)]
  omega

end

/-- The scrollbar of a terminal of 24 rows with nothing in its scrollback is set to a
value behind the greatest one when the terminal becomes one row higher, and the
handle of one without rows cannot be scaled. -/
theorem not_scrollbarAgrees :
    (∃ visited, run (scrollbarStep consoleEnv) [.resize consoleMemory 656 400]
        (createScrollbar consoleMemory (0,0) consoleSettings 656 384)=some visited ∧
      visited.terminal.scrollOffset=0 ∧ 0<visited.terminal.scrollbarValue ∧
      ¬ScrollbarAgrees visited) ∧
    calculateState (createScrollbar consoleMemory (0,0) consoleSettings 656 10).terminal
        (createScrollbar consoleMemory (0,0) consoleSettings 656 10).scrollbar=none ∧
      ¬ScrollbarAgrees (createScrollbar consoleMemory (0,0) consoleSettings 656 10) := by
  have hnone : calculateState
      (createScrollbar consoleMemory (0,0) consoleSettings 656 10).terminal
      (createScrollbar consoleMemory (0,0) consoleSettings 656 10).scrollbar=none := by
    obtain ⟨base,hkeeps,-,⟨hmin,hmax⟩,-⟩ :=
      reset_unscrolled (guacTerminalAlloc consoleMemory consoleSettings 656 10)
    have hdelta : base.scrollDelta=0 := by
      unfold GuacTerminal.scrollDelta
      rw [hmin,hmax]
      rfl
    have harea : (guacTerminalAlloc consoleMemory consoleSettings 656 10).termHeight=0 := by
      decide
    have hsum : (guacTerminalReset (guacTerminalAlloc consoleMemory consoleSettings 656
        10)).scrollDelta+(guacTerminalAlloc consoleMemory consoleSettings 656
        10).termHeight=0 := by
      rw [hkeeps.scrollDelta_eq,hdelta,harea]
      rfl
    exact if_pos hsum
  refine ⟨?_,hnone,fun hagrees => ?_⟩
  · have hrows : (guacTerminalAlloc consoleMemory consoleSettings 656 384).termHeight=24 := by
      decide
    have hgood := (exactly_reset (guacTerminalAlloc consoleMemory consoleSettings 656 384)).good
      (by rw [hrows]; decide)
    have hshows : ShowsRows _ _
        (guacTerminalReset (guacTerminalAlloc consoleMemory consoleSettings 656 384)) :=
      showsRows_reset (by rw [hrows]; decide)
    obtain ⟨base,hkeeps,⟨hoffset,-⟩,-⟩ :=
      reset_unscrolled (guacTerminalAlloc consoleMemory consoleSettings 656 384)
    obtain ⟨hzero,hpos⟩ := resize_value_pos hgood hshows (hkeeps.offset.trans hoffset)
      consoleMemory (656 : Int32).toInt (400 : Int32).toInt (by
        rw [hrows,Display.rowsOf,hshows.charHeight_eq]
        decide)
    have hrun : ∀ s, run (scrollbarStep consoleEnv) [.resize consoleMemory 656 400] s=
        some (resizeScrollbar consoleMemory s (656 : Int32).toInt (400 : Int32).toInt) :=
      fun _ => rfl
    have hterminal : ∀ (s : ScrollbarTerminal) (width height : ℤ), guacTerminalResize consoleMemory
        s.terminal width height=(resizeScrollbar consoleMemory s width height).terminal :=
      fun _ _ _ => rfl
    have hcreated : ∀ width height : ℤ, guacTerminalReset (guacTerminalAlloc consoleMemory
        consoleSettings width height)=
          (createScrollbar consoleMemory (0,0) consoleSettings width height).terminal :=
      fun _ _ => rfl
    rw [hcreated,hterminal] at hzero hpos
    refine ⟨_,hrun _,hzero,hpos,fun hagrees => ?_⟩
    exact hpos.ne' (hagrees.value_eq.trans (neg_eq_zero.mpr hzero))
  · obtain ⟨state,value,hstate,-⟩ := hagrees.calculates
    rw [hnone] at hstate
    cases hstate

end GuacServer.Terminal
