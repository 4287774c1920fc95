import GuacServer.TerminalControl

/-!
# What a terminal scrolls over

Contents are drawn and written without a change of the scroll offset, of the
scrollbar, or of what they depend on. The scrollback only becomes longer by it.
-/

namespace GuacServer.Terminal

open DecimalNumerals

/-- The scroll offset, the scrollbar, and what of a terminal says how far it can be
scrolled, without the length of its scrollback. -/
def GuacTerminal.scrollParts (term : GuacTerminal) : (ℤ×ℤ×ℤ×ℤ)×ℤ×ℤ×ℤ :=
  ((term.scrollOffset,term.scrollbarValue,term.scrollbarMin,term.scrollbarMax),
    term.termHeight,term.requestedScrollback,term.maxScrollback)

/-- Nothing is scrolled, and the scrollback is as long as it was. -/
def SameScroll (term term' : GuacTerminal) : Prop :=
  term'.scrollParts=term.scrollParts ∧ term'.buffer.length=term.buffer.length

/-- Nothing is scrolled, and the scrollback is at least as long as it was. -/
def KeepsScroll (term term' : GuacTerminal) : Prop :=
  term'.scrollParts=term.scrollParts ∧ term.buffer.length≤term'.buffer.length

theorem SameScroll.refl (term : GuacTerminal) : SameScroll term term := ⟨rfl,rfl⟩

theorem SameScroll.trans {term term' term'' : GuacTerminal} (h : SameScroll term term')
    (h' : SameScroll term' term'') : SameScroll term term'' :=
  ⟨h'.1.trans h.1,h'.2.trans h.2⟩

theorem KeepsScroll.refl (term : GuacTerminal) : KeepsScroll term term := ⟨rfl,le_rfl⟩

theorem KeepsScroll.trans {term term' term'' : GuacTerminal} (h : KeepsScroll term term')
    (h' : KeepsScroll term' term'') : KeepsScroll term term'' :=
  ⟨h'.1.trans h.1,h.2.trans h'.2⟩

section

variable {term term' : GuacTerminal}

theorem SameScroll.keeps (h : SameScroll term term') : KeepsScroll term term' := ⟨h.1,h.2.ge⟩

section

variable (h : KeepsScroll term term')

include h

theorem KeepsScroll.offset : term'.scrollOffset=term.scrollOffset := congrArg (·.1.1) h.1

theorem KeepsScroll.value : term'.scrollbarValue=term.scrollbarValue := congrArg (·.1.2.1) h.1

theorem KeepsScroll.min : term'.scrollbarMin=term.scrollbarMin := congrArg (·.1.2.2.1) h.1

theorem KeepsScroll.max : term'.scrollbarMax=term.scrollbarMax := congrArg (·.1.2.2.2) h.1

theorem KeepsScroll.height : term'.termHeight=term.termHeight := congrArg (·.2.1) h.1

theorem KeepsScroll.requested : term'.requestedScrollback=term.requestedScrollback :=
  congrArg (·.2.2.1) h.1

theorem KeepsScroll.maxScrollback : term'.maxScrollback=term.maxScrollback := congrArg (·.2.2.2) h.1

end

/-- What can be scrolled depends on these parts and on the length. -/
theorem SameScroll.available (h : SameScroll term term') :
    guacTerminalAvailableScroll term' = guacTerminalAvailableScroll term := by
  unfold guacTerminalAvailableScroll guacTerminalEffectiveBufferLength
  rw [h.keeps.requested,h.keeps.maxScrollback,h.keeps.height,h.2]

/-- Both are scrolled to the same offset. -/
theorem SameScroll.withOffset (h : SameScroll term term') (offset : ℤ) :
    SameScroll { term with scrollOffset := offset } { term' with scrollOffset := offset } :=
  ⟨Prod.ext (Prod.ext rfl (congrArg (·.1.2) h.1)) (congrArg (·.2) h.1),h.2⟩

/-- A longer scrollback can be scrolled at least as far. -/
theorem KeepsScroll.available_le (h : KeepsScroll term term') :
    guacTerminalAvailableScroll term≤guacTerminalAvailableScroll term' := by
  have hlength := h.2
  unfold guacTerminalAvailableScroll guacTerminalEffectiveBufferLength
  rw [h.requested,h.maxScrollback,h.height]
  dsimp only
  generalize (if term.requestedScrollback > term.maxScrollback then term.maxScrollback
    else if term.requestedScrollback<term.termHeight then term.termHeight
    else term.requestedScrollback)=scrollback
  split_ifs <;> omega

end

/-! ## Columns and rows -/

theorem copyRow_length (buffer : Buffer) (row offset : ℤ) :
    (buffer.copyRow row offset).length=buffer.length := rfl

theorem copyRowsFrom_length (offset step : ℤ) (count : ℕ) (row : ℤ) (buffer : Buffer) :
    (Buffer.copyRowsFrom offset step count row buffer).length=buffer.length := by
  induction count generalizing row buffer with
  | zero => rfl
  | succ count ih =>
    rw [Buffer.copyRowsFrom,ih]
    exact copyRow_length buffer row offset

theorem bufferCopyRows_length (buffer : Buffer) (startRow endRow offset : ℤ) :
    (guacTerminalBufferCopyRows buffer startRow endRow offset).length=buffer.length := by
  unfold guacTerminalBufferCopyRows
  split
  · exact copyRowsFrom_length ..
  · exact copyRowsFrom_length ..

/-- The scrollback becomes longer where a character is written below its end. -/
theorem length_le_bufferSetColumns (buffer : Buffer) (row startColumn endColumn : ℤ)
    (character : TerminalChar) :
    buffer.length≤
      (guacTerminalBufferSetColumns buffer row startColumn endColumn character).length := by
  have hgot : (guacTerminalBufferGetRow buffer row (wrap32 (endColumn+1))).length=
      buffer.length := rfl
  unfold guacTerminalBufferSetColumns Buffer.check
  dsimp only
  split_ifs with hwidth hbelow
  · exact le_rfl
  · dsimp only
    omega
  · exact le_rfl

/-- What is drawn again scrolls nothing. -/
theorem sameScroll : KeptByRedraw SameScroll where
  refl := SameScroll.refl
  trans h h' := h.trans h'
  display _ _ := ⟨rfl,rfl⟩
  getRow _ _ _ := ⟨rfl,rfl⟩
  select _ _ _ := ⟨rfl,rfl⟩
  cursor _ _ _ := ⟨rfl,rfl⟩

/-- New contents of rows scroll nothing. -/
theorem keepsScroll : KeptByContents KeepsScroll where
  refl := KeepsScroll.refl
  trans h h' := h.trans h'
  display _ _ := ⟨rfl,le_rfl⟩
  getRow _ _ _ := ⟨rfl,le_rfl⟩
  select _ _ _ := ⟨rfl,le_rfl⟩
  cursor _ _ _ := ⟨rfl,le_rfl⟩
  setCells _ _ _ _ _ _ := ⟨rfl,length_le_bufferSetColumns ..⟩
  copyCells _ _ _ _ _ _ := ⟨rfl,le_rfl⟩
  moveRows _ _ _ _ _ := ⟨rfl,(bufferCopyRows_length ..).ge⟩

/-! ## Handlers -/

/-- What handlers may change of a terminal besides its contents. -/
def GuacTerminal.quietParts (term : GuacTerminal) :=
  (term.scrollParts,term.buffer,(term.pipeStream,term.pipeStreamFlags),term.pipeBuffer,
    term.pipeSent)

/-- A relation that the state of the handlers does not matter to. -/
structure KeptByHandlers (R : GuacTerminal→GuacTerminal→Prop) : Prop extends KeptByContents R where
  quiet : ∀ {term term' : GuacTerminal}, term'.quietParts=term.quietParts → R term term'

namespace KeptByHandlers

variable {R : GuacTerminal→GuacTerminal→Prop} (hR : KeptByHandlers R) (term : GuacTerminal)

include hR

theorem reverseLinefeed : R term (guacTerminalReverseLinefeed term) :=
  ite_keeps (hR.scrollDown ..) (ite_keeps (hR.quiet rfl) (hR.refl term))

theorem setTab (column : ℤ) : R term (guacTerminalSetTab term column) :=
  ite_keeps (hR.quiet rfl) (hR.refl term)

theorem unsetTab (column : ℤ) : R term (guacTerminalUnsetTab term column) :=
  ite_keeps (hR.quiet rfl) (hR.refl term)

theorem setFlag (num : ℤ) (privateMode : UInt8) (value : Bool) :
    R term (setFlag term num privateMode value) := by
  unfold Terminal.setFlag
  split
  all_goals exact hR.quiet rfl

theorem xtermPalette (env : TerminalEnv) (c : UInt8) :
    R term (guacTerminalXtermPalette env term c) := by
  have hread : R term (readPalette env term c) := by
    unfold readPalette
    dsimp only
    split_ifs
    all_goals exact hR.quiet rfl
  exact ite_keeps (hR.trans hread (hR.quiet rfl)) hread

theorem ctrlFunc (env : TerminalEnv) (c : UInt8) : R term (guacTerminalCtrlFunc env term c) := by
  have hfilled : R term (if c=0x38 then
      forTo (fun row t => guacTerminalSetColumns t row 0 (term.termWidth-1)
          ⟨0x45,term.currentAttributes,env.uninitializedWidth⟩)
        0 (term.termHeight-1) term
    else term) :=
    ite_keeps (hR.forTo (fun _ _ => hR.setColumns ..) ..) (hR.refl term)
  exact hR.trans hfilled (hR.quiet rfl)

/-- Only the deletion of lines may scroll. -/
theorem csiFunction {c : UInt8}
    (hdelete : Char.ofNat c.toNat = 'M' → R term (csiFunction term c)) :
    R term (csiFunction term c) := by
  by_cases hnot : Char.ofNat c.toNat = 'M'
  · exact hdelete hnot
  unfold Terminal.csiFunction
  dsimp only
  split
  case h_1 =>
    refine hR.trans ?_ (hR.clearColumns ..)
    exact ite_keeps (hR.copyColumns ..) (hR.refl term)
  case h_14 =>
    refine ite_keeps (hR.clearRange ..) (ite_keeps (hR.clearRange ..) ?_)
    exact ite_keeps (hR.clearRange ..) (hR.refl term)
  case h_15 =>
    refine ite_keeps (hR.clearColumns ..) (ite_keeps (hR.clearColumns ..) ?_)
    exact ite_keeps (hR.clearColumns ..) (hR.refl term)
  case h_16 => exact hR.scrollDown ..
  case h_17 hM => exact absurd hM hnot
  case h_18 =>
    refine hR.trans ?_ (hR.clearColumns ..)
    exact ite_keeps (hR.copyColumns ..) (hR.refl term)
  case h_19 => exact hR.clearColumns ..
  case h_21 =>
    refine ite_keeps (hR.unsetTab ..) ?_
    exact ite_keeps (hR.quiet rfl) (hR.refl term)
  case h_22 => exact hR.setFlag ..
  case h_23 => exact hR.setFlag ..
  case h_25 => exact ite_keeps (hR.quiet rfl) (hR.quiet rfl)
  all_goals exact hR.quiet rfl

theorem csi {c : UInt8}
    (hdelete : ∀ t, Char.ofNat c.toNat = 'M' → R t (Terminal.csiFunction t c)) :
    R term (guacTerminalCsi term c) := by
  have hfinished : R term { term with statics := term.statics.finishParameter } := hR.quiet rfl
  have hfunction := hR.trans hfinished (hR.csiFunction _ (hdelete _))
  unfold guacTerminalCsi
  refine ite_keeps (ite_keeps (hR.quiet rfl) (hR.refl term)) (ite_keeps ?_
    (ite_keeps (hR.quiet rfl) (hR.refl term)))
  exact ite_keeps (hR.trans hfunction (hR.quiet rfl)) hfunction

end KeptByHandlers

/-- Handlers scroll nothing. -/
theorem keepsScrollHandlers : KeptByHandlers KeepsScroll where
  toKeptByContents := keepsScroll
  quiet h := ⟨congrArg (·.1) h,(congrArg (·.2.1.length) h).ge⟩

section

variable (term : GuacTerminal)

theorem keepsScroll_pipeStreamFlush : KeepsScroll term (guacTerminalPipeStreamFlush term) :=
  ite_keeps ⟨rfl,le_rfl⟩ (KeepsScroll.refl term)

theorem keepsScroll_pipeStreamClose : KeepsScroll term (guacTerminalPipeStreamClose term) :=
  ite_keeps ((keepsScroll_pipeStreamFlush term).trans ⟨rfl,le_rfl⟩) (KeepsScroll.refl term)

theorem keepsScroll_openPipeStream (c : UInt8) :
    KeepsScroll term (guacTerminalOpenPipeStream term c) :=
  ite_keeps ((keepsScroll_pipeStreamClose term).trans ⟨rfl,le_rfl⟩)
    (ite_keeps ⟨rfl,le_rfl⟩ ⟨rfl,le_rfl⟩)

theorem keepsScroll_closePipeStream (c : UInt8) :
    KeepsScroll term (guacTerminalClosePipeStream term c) :=
  ite_keeps ((keepsScroll_pipeStreamClose term).trans ⟨rfl,le_rfl⟩) (KeepsScroll.refl term)

end

/-! ## Drawing -/

theorem sameScroll_commitCursor (term : GuacTerminal) :
    SameScroll term (guacTerminalCommitCursor term) := by
  unfold guacTerminalCommitCursor
  split
  · exact SameScroll.refl term
  · exact ⟨rfl,rfl⟩

theorem sameScroll_flush (term : GuacTerminal) : SameScroll term (guacTerminalFlush term) := by
  have hpiped : SameScroll term (if term.pipeStreamFlags/2%2=1 then
      guacTerminalPipeStreamFlush term else term) := by
    unfold guacTerminalPipeStreamFlush
    split_ifs
    all_goals exact ⟨rfl,rfl⟩
  have hcommitted := hpiped.trans (sameScroll_commitCursor _)
  exact ⟨hcommitted.1,hcommitted.2⟩

end GuacServer.Terminal
