import GuacServer.StateRuns
import GuacServer.TerminalControl

/-!
# The cursor and the scrolling region

What a terminal displays stays within it, and it scrolls within it, as long as
its cursor and its scrolling region are on the screen. Most handlers move the
cursor by `guacTerminalMoveCursor`, which keeps it there. A character is
displayed without regard to its width, the region of an escape sequence is
taken as it is, and a change of the size keeps the start of the region.
-/

namespace GuacServer.Terminal

open DecimalNumerals StateRuns

/-- The cursor is on the screen, or behind the end of a row, and the scrolling
region is on the screen. -/
def CursorInBounds (term : GuacTerminal) : Prop :=
  (0≤term.cursorRow ∧ term.cursorRow<term.termHeight) ∧
    (0≤term.cursorCol ∧ term.cursorCol≤term.termWidth) ∧
    0≤term.scrollStart ∧ term.scrollStart≤term.scrollEnd ∧ term.scrollEnd<term.termHeight

instance (term : GuacTerminal) : Decidable (CursorInBounds term) :=
  inferInstanceAs (Decidable (_ ∧ _))

/-- The values of an int. -/
def IsInt (value : ℤ) : Prop := -(2^31)≤value ∧ value<2^31

/-- What holds of a terminal of a proper size besides. -/
def SizeInBounds (term : GuacTerminal) : Prop :=
  0<term.termWidth ∧ term.termHeight≤terminalMaxSize ∧ ∀ value∈term.statics.argv, IsInt value

/-- The states that are reached if nothing goes wrong. -/
def CursorGood (term : GuacTerminal) : Prop := CursorInBounds term ∧ SizeInBounds term

variable {env : TerminalEnv} {term : GuacTerminal}

variable {term' : GuacTerminal} {statics : HandlerStatics} {codepoint : ℤ} {c : UInt8}

/-- Contents are of no concern. -/
theorem CursorGood.of_sameControl (h : CursorGood term) (hsame : SameControl term term') :
    CursorGood term' := by
  rw [hsame]
  exact h

/-- What is drawn does not go over the end of the screen. -/
theorem CursorInBounds.height_pos (h : CursorInBounds term) : 0<term.termHeight :=
  h.1.1.trans_lt h.1.2

theorem good_moveCursor (h : CursorGood term) (row col : ℤ) :
    CursorGood (guacTerminalMoveCursor term row col) := by
  obtain ⟨⟨hrow,-,hregion⟩,hwidth,hrest⟩ := h
  have hheight : 0<term.termHeight := by omega
  refine ⟨⟨?_,?_,hregion⟩,hwidth,hrest⟩
  · unfold guacTerminalMoveCursor
    dsimp only
    split_ifs <;> omega
  · unfold guacTerminalMoveCursor
    dsimp only
    split_ifs <;> omega

theorem good_linefeed (h : CursorGood term) : CursorGood (guacTerminalLinefeed term) := by
  unfold guacTerminalLinefeed
  split_ifs with hend hlast
  · exact h.of_sameControl (sameControl_scrollUp ..)
  · obtain ⟨⟨hrow,hrest⟩,hsize⟩ := h
    refine ⟨⟨?_,hrest⟩,hsize⟩
    dsimp only
    omega
  · exact h

theorem good_reverseLinefeed (h : CursorGood term) :
    CursorGood (guacTerminalReverseLinefeed term) := by
  unfold guacTerminalReverseLinefeed
  split_ifs with hstart hfirst
  · exact h.of_sameControl (sameControl.scrollDown ..)
  · obtain ⟨⟨hrow,hrest⟩,hsize⟩ := h
    refine ⟨⟨?_,hrest⟩,hsize⟩
    dsimp only
    omega
  · exact h

/-- A reset leaves the size, and puts everything else into its first state. -/
theorem reset_eq (term : GuacTerminal) :
    ∃ base : GuacTerminal, SameControl base (guacTerminalReset term) ∧
      (base.termWidth=term.termWidth ∧ base.termHeight=term.termHeight) ∧
      (base.cursorRow=0 ∧ base.cursorCol=0) ∧
      (base.scrollStart=0 ∧ base.scrollEnd=term.termHeight-1) ∧
      (base.charHandler=.echo ∧ base.charMapping=(none,none) ∧ base.activeCharSet=0) ∧
      base.scrollOffset=0 ∧ base.statics=term.statics := by
  unfold guacTerminalReset
  refine ⟨_,sameControl.forTo (fun _ _ => sameControl.setColumns ..) ..,?_⟩
  exact ⟨⟨rfl,rfl⟩,⟨rfl,rfl⟩,⟨rfl,rfl⟩,⟨rfl,rfl,rfl⟩,rfl,rfl⟩

/-- A reset puts cursor and region where they are in any terminal with rows. -/
theorem good_reset (hheight : 0<term.termHeight) (h : SizeInBounds term) :
    CursorGood (guacTerminalReset term) := by
  obtain ⟨base,hsame,⟨hw,hh⟩,⟨hrow,hcol⟩,⟨hstart,hend⟩,-,-,hstatics⟩ := reset_eq term
  refine CursorGood.of_sameControl ?_ hsame
  refine ⟨⟨?_,?_,?_⟩,?_⟩
  · omega
  · have hwidth := h.1
    omega
  · omega
  · rw [SizeInBounds,hw,hh,hstatics]
    exact h

/-! ## Printed characters -/

/-- The terminal with other values of what handling a printed byte changes besides
cursor and contents. -/
def GuacTerminal.withEcho (term : GuacTerminal) (pipeBuffer : List UInt8)
    (pipeSent : List PipeInstruction) (statics : HandlerStatics) : GuacTerminal :=
  { term with pipeBuffer := pipeBuffer, pipeSent := pipeSent, statics := statics }

theorem good_withEcho (h : CursorGood term) (hargv : statics.argv=term.statics.argv)
    (pipeBuffer : List UInt8) (pipeSent : List PipeInstruction) :
    CursorGood (term.withEcho pipeBuffer pipeSent statics) := by
  refine ⟨h.1,h.2.1,h.2.2.1,?_⟩
  rw [GuacTerminal.withEcho]
  dsimp only
  rw [hargv]
  exact h.2.2.2

/-- A byte that goes into a pipe stream changes nothing else. -/
theorem pipeStreamWrite_eq (piped : Bool) (term : GuacTerminal) (c : UInt8) :
    ∃ pipeBuffer pipeSent, (if piped then guacTerminalPipeStreamWrite term c else term)=
      term.withEcho pipeBuffer pipeSent term.statics := by
  unfold guacTerminalPipeStreamWrite guacTerminalPipeStreamFlush
  split_ifs
  all_goals exact ⟨_,_,rfl⟩

/-- The code points that do something else than to be displayed. -/
def IsControl (codepoint : ℤ) : Prop := codepoint<0x20 ∨ codepoint=0x7F ∨ codepoint=0x9B

instance (codepoint : ℤ) : Decidable (IsControl codepoint) := inferInstanceAs (Decidable (_ ∨ _))

/-- The code point that is displayed for one that was decoded. -/
def mappedCodepoint (env : TerminalEnv) (mapping : Option CharMapping) (codepoint : ℤ) : ℤ :=
  match mapping with
  | none => codepoint
  | some mapping =>
    if codepoint≤0xFF then env.charTable mapping (codepoint-0x20) else codepoint

/-- The column of the next character that is displayed. -/
def GuacTerminal.nextColumn (term : GuacTerminal) : ℤ :=
  if term.cursorCol≥term.termWidth then 0 else term.cursorCol

/-- The character does not extend over the end of its row. -/
def FitsRow (env : TerminalEnv) (term : GuacTerminal) (codepoint : ℤ) : Prop :=
  term.nextColumn+advanceOf env codepoint≤term.termWidth

instance (codepoint : ℤ) : Decidable (FitsRow env term codepoint) :=
  inferInstanceAs (Decidable (_ ≤ _))

theorem advanceOf_nonneg (env : TerminalEnv) (codepoint : ℤ) : 0≤advanceOf env codepoint := by
  unfold advanceOf
  split_ifs <;> omega

/-- A control code moves the cursor within the screen, if at all. -/
theorem good_echoCodepoint (hcontrol : IsControl codepoint) (h : CursorGood term) :
    CursorGood (echoCodepoint env term codepoint) := by
  unfold IsControl at hcontrol
  unfold echoCodepoint
  refine iteInduction (fun _ => h) fun _ => ?_
  refine iteInduction (fun _ => good_moveCursor h ..) fun _ => ?_
  refine iteInduction (fun _ => good_moveCursor h ..) fun _ => ?_
  refine iteInduction (fun _ => ?_) fun _ => ?_
  · exact iteInduction (fun _ => good_moveCursor (good_linefeed h) ..) fun _ => good_linefeed h
  refine iteInduction (fun _ => good_moveCursor h ..) fun _ => ?_
  refine iteInduction (fun _ => h) fun _ => ?_
  refine iteInduction (fun _ => h) fun _ => ?_
  refine iteInduction (fun _ => h) fun _ => ?_
  refine iteInduction (fun _ => h) fun _ => ?_
  exact iteInduction (fun _ => h) fun _ => by omega

/-- Any other code point is displayed, once it is mapped. -/
theorem echoCodepoint_of_not_control (env : TerminalEnv) (term : GuacTerminal)
    (hcontrol : ¬IsControl codepoint) : ∃ statics, statics.argv=term.statics.argv ∧
      echoCodepoint env term codepoint=
        displayCharacter env (term.withEcho term.pipeBuffer term.pipeSent statics)
          (mappedCodepoint env term.activeMapping codepoint) := by
  unfold IsControl at hcontrol
  unfold echoCodepoint
  rw [if_neg (by omega),if_neg (by omega),if_neg (by omega),if_neg (by omega),
    if_neg (by omega),if_neg (by omega),if_neg (by omega),if_neg (by omega),
    if_neg (by omega),if_neg (by omega)]
  cases hmapping : term.activeMapping with
  | none =>
    refine ⟨term.statics,rfl,?_⟩
    dsimp only [mappedCodepoint,GuacTerminal.withEcho]
  | some mapping =>
    refine ⟨{ term.statics with codepoint := mappedCodepoint env (some mapping) codepoint },rfl,?_⟩
    dsimp only [mappedCodepoint,GuacTerminal.withEcho]

/-- A linefeed changes the row only. -/
theorem linefeed_cursorCol (term : GuacTerminal) :
    (guacTerminalLinefeed term).cursorCol=term.cursorCol ∧
      (guacTerminalLinefeed term).termWidth=term.termWidth := by
  unfold guacTerminalLinefeed
  split_ifs
  · rw [sameControl_scrollUp term term.scrollStart term.scrollEnd 1]
    exact ⟨rfl,rfl⟩
  · exact ⟨rfl,rfl⟩
  · exact ⟨rfl,rfl⟩

/-- Before a character is displayed, the cursor is put into its column. -/
theorem good_wrapCursor (h : CursorGood term) :
    CursorGood (wrapCursor term) ∧ (wrapCursor term).cursorCol=term.nextColumn ∧
      (wrapCursor term).termWidth=term.termWidth := by
  unfold wrapCursor GuacTerminal.nextColumn
  split_ifs with hcol
  · refine ⟨good_linefeed ?_,linefeed_cursorCol _⟩
    exact ⟨⟨h.1.1,⟨le_rfl,h.2.1.le⟩,h.1.2.2⟩,h.2⟩
  · exact ⟨h,rfl,rfl⟩

/-- Displaying a character moves the cursor by its columns, and changes contents. -/
theorem displayCharacter_eq (env : TerminalEnv) (term : GuacTerminal) (codepoint : ℤ) :
    ∃ shown, SameControl (wrapCursor term) shown ∧ displayCharacter env term codepoint=
      { shown with cursorCol := shown.cursorCol+advanceOf env codepoint } := by
  have hinsert : SameControl (wrapCursor term) (if (wrapCursor term).insertMode then
      guacTerminalCopyColumns (wrapCursor term) (wrapCursor term).cursorRow
        (wrapCursor term).cursorCol ((wrapCursor term).termWidth-2) 1
      else wrapCursor term) :=
    ite_keeps (sameControl.copyColumns ..) (SameControl.refl _)
  exact ⟨_,hinsert.trans (sameControl.set ..),rfl⟩

/-- Two terminals have the same but for their contents and the place of the cursor. -/
def SameButCursor (term term' : GuacTerminal) : Prop :=
  term' = { term.withContents term' with
    cursorRow := term'.cursorRow, cursorCol := term'.cursorCol }

theorem SameButCursor.refl (term : GuacTerminal) : SameButCursor term term := rfl

theorem SameButCursor.trans {term'' : GuacTerminal} (h : SameButCursor term term')
    (h' : SameButCursor term' term'') : SameButCursor term term'' := by
  rw [SameButCursor] at h h' ⊢
  rw [h',h]
  rfl

theorem SameControl.butCursor (h : SameControl term term') : SameButCursor term term' := by
  rw [h]
  rfl

theorem sameButCursor_linefeed (term : GuacTerminal) :
    SameButCursor term (guacTerminalLinefeed term) :=
  ite_keeps (sameControl_scrollUp ..).butCursor (ite_keeps rfl (SameButCursor.refl term))

theorem sameButCursor_displayCharacter (env : TerminalEnv) (term : GuacTerminal) (codepoint : ℤ) :
    SameButCursor term (displayCharacter env term codepoint) := by
  have hwrapped : SameButCursor term (wrapCursor term) := by
    refine ite_keeps (SameButCursor.trans ?_ (sameButCursor_linefeed _)) (SameButCursor.refl term)
    rfl
  obtain ⟨shown,hsame,heq⟩ := displayCharacter_eq env term codepoint
  rw [heq]
  exact (hwrapped.trans hsame.butCursor).trans rfl

/-- A character that is displayed leaves the cursor in its row exactly if it
fits. -/
theorem good_displayCharacter (h : CursorGood term) (hfits : FitsRow env term codepoint) :
    CursorGood (displayCharacter env term codepoint) := by
  obtain ⟨shown,hsame,heq⟩ := displayCharacter_eq env term codepoint
  obtain ⟨hgood,hcol,hwidth⟩ := good_wrapCursor h
  have hshown := hgood.of_sameControl hsame
  have hle : (wrapCursor term).cursorCol+advanceOf env codepoint≤(wrapCursor term).termWidth := by
    rw [hcol,hwidth]
    exact hfits
  rw [heq]
  refine ⟨⟨hshown.1.1,⟨?_,?_⟩,hshown.1.2.2⟩,hshown.2⟩
  · exact add_nonneg hshown.1.2.1.1 (advanceOf_nonneg env codepoint)
  · rw [hsame]
    exact hle

/-- A character that does not fit moves the cursor too far. -/
theorem fitsRow_of_inBounds (h : CursorGood term)
    (hbounds : CursorInBounds (displayCharacter env term codepoint)) :
    FitsRow env term codepoint := by
  obtain ⟨shown,hsame,heq⟩ := displayCharacter_eq env term codepoint
  obtain ⟨-,hcol,hwidth⟩ := good_wrapCursor h
  rw [heq,hsame] at hbounds
  have hle : (wrapCursor term).cursorCol+advanceOf env codepoint≤
      (wrapCursor term).termWidth := hbounds.2.1.2
  rw [hcol,hwidth] at hle
  exact hle

/-- The byte only goes into a pipe stream. -/
def OnlyPiped (term : GuacTerminal) (c : UInt8) : Prop :=
  (term.pipeStream && decide (c≠0x1B))=true ∧ term.pipeStreamFlags%2≠1

instance (c : UInt8) : Decidable (OnlyPiped term c) := inferInstanceAs (Decidable (_ ∧ _))

/-- The code point and the missing bytes after a byte. -/
def GuacTerminal.decoded (term : GuacTerminal) (c : UInt8) : ℤ×ℤ :=
  decodeByte term.activeMapping term.statics.codepoint term.statics.bytesRemaining c

/-- What becomes of a byte. -/
theorem echo_eq (env : TerminalEnv) (term : GuacTerminal) (c : UInt8) :
    ∃ pipeBuffer pipeSent statics, statics.argv=term.statics.argv ∧ guacTerminalEcho env term c=
        if OnlyPiped term c ∨ (term.decoded c).2≠0 then term.withEcho pipeBuffer pipeSent statics
        else echoCodepoint env (term.withEcho pipeBuffer pipeSent statics) (term.decoded c).1 := by
  obtain ⟨pipeBuffer,pipeSent,heq⟩ := pipeStreamWrite_eq (term.pipeStream && decide (c≠0x1B)) term c
  unfold guacTerminalEcho
  dsimp only
  rw [heq]
  by_cases hpiped : OnlyPiped term c
  · refine ⟨pipeBuffer,pipeSent,term.statics,rfl,?_⟩
    rw [if_pos (Or.inl hpiped)]
    exact if_pos hpiped
  · refine ⟨pipeBuffer,pipeSent,{ term.statics with
      codepoint := (term.decoded c).1, bytesRemaining := (term.decoded c).2 },rfl,?_⟩
    have hor : OnlyPiped term c ∨ (term.decoded c).2≠0 ↔ (term.decoded c).2≠0 := or_iff_right hpiped
    rw [if_congr hor rfl rfl]
    exact if_neg hpiped

/-- The code point that is displayed for a byte, if there is one. -/
def shownCodepoint (env : TerminalEnv) (term : GuacTerminal) (c : UInt8) : Option ℤ :=
  if term.charHandler≠.echo ∨ (OnlyPiped term c ∨ (term.decoded c).2≠0) ∨
      IsControl (term.decoded c).1 then none
  else some (mappedCodepoint env term.activeMapping (term.decoded c).1)

/-- A byte that is not displayed keeps the cursor where it may be. -/
theorem good_echo_of_none (h : CursorGood term) (hhandler : term.charHandler=.echo)
    (hshown : shownCodepoint env term c=none) : CursorGood (guacTerminalEcho env term c) := by
  obtain ⟨pipeBuffer,pipeSent,statics,hargv,heq⟩ := echo_eq env term c
  have hgood := good_withEcho h hargv pipeBuffer pipeSent
  rw [heq]
  refine iteInduction (fun _ => hgood) fun hpiped => good_echoCodepoint ?_ hgood
  rw [shownCodepoint] at hshown
  split_ifs at hshown with hnone
  exact (hnone.resolve_left (not_not.mpr hhandler)).resolve_left hpiped

/-- A byte that is displayed is displayed as if nothing had happened before. -/
theorem echo_of_some (hshown : shownCodepoint env term c=some codepoint) :
    term.charHandler=.echo ∧ ∃ pipeBuffer pipeSent statics, statics.argv=term.statics.argv ∧
        guacTerminalEcho env term c=
          displayCharacter env (term.withEcho pipeBuffer pipeSent statics) codepoint := by
  rw [shownCodepoint] at hshown
  split_ifs at hshown with hnone
  rw [not_or,not_or] at hnone
  obtain ⟨hhandler,hpiped,hcontrol⟩ := hnone
  refine ⟨not_not.mp hhandler,?_⟩
  cases hshown
  obtain ⟨pipeBuffer,pipeSent,statics,hargv,heq⟩ := echo_eq env term c
  rw [heq,if_neg hpiped]
  obtain ⟨statics',hargv',heq'⟩ :=
    echoCodepoint_of_not_control env (term.withEcho pipeBuffer pipeSent statics) hcontrol
  exact ⟨pipeBuffer,pipeSent,statics',hargv'.trans hargv,heq'⟩

/-! ## Sequences -/

theorem good_escape (h : CursorGood term) (c : UInt8) : CursorGood (guacTerminalEscape term c) := by
  unfold guacTerminalEscape
  split
  case h_7 => exact good_moveCursor h ..
  case h_8 => exact good_linefeed h
  case h_9 => exact good_linefeed (good_moveCursor h ..)
  case h_10 =>
    have hset : CursorGood (guacTerminalSetTab term term.cursorCol) :=
      iteInduction (fun _ => h) fun _ => h
    exact hset
  case h_11 => exact good_reverseLinefeed h
  case h_12 => exact good_reset h.1.height_pos h.2
  all_goals exact h

/-- The parameters of a sequence name a region of the screen. -/
def RegionWithin (term : GuacTerminal) (statics : HandlerStatics) : Prop :=
  1 ≤ statics.argv.getD 0 0 ∧ statics.argv.getD 0 0 ≤ statics.argv.getD 1 0 ∧
    statics.argv.getD 1 0≤term.termHeight

instance (statics : HandlerStatics) : Decidable (RegionWithin term statics) :=
  inferInstanceAs (Decidable (_ ∧ _))

theorem good_setFlag (h : CursorGood term) (num : ℤ) (privateMode : UInt8) (value : Bool) :
    CursorGood (setFlag term num privateMode value) := by
  unfold setFlag
  split
  all_goals exact h

/-- The parameters are ints, so that one less does not overflow in a region of
the screen. -/
theorem good_region (h : CursorGood term) (hwithin : RegionWithin term term.statics) :
    CursorGood { term with
      scrollStart := wrap32 (term.statics.argv.getD 0 0-1)
      scrollEnd := wrap32 (term.statics.argv.getD 1 0-1) } := by
  obtain ⟨hfirst,hsecond,hlast⟩ := hwithin
  have hmax : term.termHeight≤1024 := h.2.2.1
  refine ⟨⟨h.1.1,h.1.2.1,?_⟩,h.2⟩
  dsimp only
  rw [wrap32_of_range (by omega) (by omega),wrap32_of_range (by omega) (by omega)]
  omega

theorem good_csiFunction (h : CursorGood term)
    (hregion : Char.ofNat c.toNat = 'r' → term.statics.argc=2→RegionWithin term term.statics) :
    CursorGood (csiFunction term c) := by
  have hheight := h.1.height_pos
  unfold csiFunction
  dsimp only
  split
  -- insertion, deletion, erasure and scrolling change contents
  case h_1 =>
    refine (iteInduction (fun _ => ?_) fun _ => h).of_sameControl (sameControl.clearColumns ..)
    exact h.of_sameControl (sameControl.copyColumns ..)
  case h_14 =>
    refine iteInduction (fun _ => h.of_sameControl (sameControl.clearRange ..)) fun _ => ?_
    refine iteInduction (fun _ => h.of_sameControl (sameControl.clearRange ..)) fun _ => ?_
    exact iteInduction (fun _ => h.of_sameControl (sameControl.clearRange ..)) fun _ => h
  case h_15 =>
    refine iteInduction (fun _ => h.of_sameControl (sameControl.clearColumns ..)) fun _ => ?_
    refine iteInduction (fun _ => h.of_sameControl (sameControl.clearColumns ..)) fun _ => ?_
    exact iteInduction (fun _ => h.of_sameControl (sameControl.clearColumns ..)) fun _ => h
  case h_16 => exact h.of_sameControl (sameControl.scrollDown ..)
  case h_17 => exact h.of_sameControl (sameControl_scrollUp ..)
  case h_18 =>
    refine (iteInduction (fun _ => ?_) fun _ => h).of_sameControl (sameControl.clearColumns ..)
    exact h.of_sameControl (sameControl.copyColumns ..)
  case h_19 => exact h.of_sameControl (sameControl.clearColumns ..)
  -- tabs, modes and renditions
  case h_21 =>
    refine iteInduction (fun _ => ?_) fun _ => iteInduction (fun _ => h) fun _ => h
    exact iteInduction (fun _ => h) fun _ => h
  case h_22 => exact good_setFlag h ..
  case h_23 => exact good_setFlag h ..
  case h_24 => exact h
  case h_25 hr =>
    refine iteInduction (fun htwo => good_region h (hregion hr htwo)) fun _ => ?_
    obtain ⟨⟨hrow,hcol,-⟩,hsize⟩ := h
    have hend : term.termHeight-1<term.termHeight := by omega
    have hfirst : 0≤term.termHeight-1 := by omega
    exact ⟨⟨hrow,hcol,le_rfl,hfirst,hend⟩,hsize⟩
  case h_26 => exact h
  case h_28 => exact h
  -- everything else moves the cursor
  all_goals exact good_moveCursor h ..

/-- Parameters are ints. -/
theorem isInt_atoi (digits : List UInt8) : IsInt (UserHandlers.atoi digits) :=
  ⟨neg_le_wrap32 _,wrap32_lt _⟩

/-- The statics have other values, and the parameters are still ints. -/
theorem good_withStatics (h : CursorGood term) (hargv : ∀ value∈statics.argv, IsInt value) :
    CursorGood { term with statics := statics } :=
  ⟨h.1,h.2.1,h.2.2.1,hargv⟩

theorem isInt_finishParameter (hargv : ∀ value∈statics.argv, IsInt value) :
    ∀ value∈statics.finishParameter.argv, IsInt value := by
  unfold HandlerStatics.finishParameter
  split_ifs
  · intro value hvalue
    obtain hvalue | rfl := List.mem_or_eq_of_mem_set hvalue
    · exact hargv value hvalue
    · exact isInt_atoi _
  · exact hargv

theorem isInt_endSequence (hargv : ∀ value∈statics.argv, IsInt value) :
    ∀ value∈statics.endSequence.argv, IsInt value := by
  intro value hvalue
  obtain hvalue | hvalue := List.mem_append.mp hvalue
  · rw [List.eq_of_mem_replicate hvalue]
    exact ⟨by decide,by decide⟩
  · exact hargv value (List.mem_of_mem_drop hvalue)

/-- The byte ends a sequence that sets the scrolling region, and has both
parameters. -/
def SetsRegion (term : GuacTerminal) (c : UInt8) : Prop :=
  term.charHandler=.csi ∧ Char.ofNat c.toNat = 'r' ∧ term.statics.finishParameter.argc=2

instance (c : UInt8) : Decidable (SetsRegion term c) := inferInstanceAs (Decidable (_ ∧ _))

theorem good_csi (h : CursorGood term) (hhandler : term.charHandler=.csi)
    (hregion : SetsRegion term c→RegionWithin term term.statics.finishParameter) :
    CursorGood (guacTerminalCsi term c) := by
  have hfinish := isInt_finishParameter h.2.2.2
  unfold guacTerminalCsi
  refine iteInduction (fun _ => iteInduction (fun _ => h) fun _ => h) fun _ => ?_
  refine iteInduction (fun _ => ?_) fun _ => iteInduction (fun _ => h) fun _ => h
  have hfunction := good_csiFunction (good_withStatics h hfinish) (c := c)
    fun hr htwo => hregion ⟨hhandler,hr,htwo⟩
  refine iteInduction (fun _ => ?_) fun _ => hfunction
  exact good_withStatics hfunction (isInt_endSequence hfunction.2.2.2)

/-- The region of a sequence is taken as it is. -/
theorem csiFunction_region (hr : Char.ofNat c.toNat = 'r') (htwo : term.statics.argc=2) :
    csiFunction term c = { term with
      scrollStart := wrap32 (term.statics.argv.getD 0 0-1)
      scrollEnd := wrap32 (term.statics.argv.getD 1 0-1) } := by
  unfold csiFunction
  rw [hr]
  exact if_pos htwo

/-- The byte of a character. -/
theorem toNat_of_char {character : Char} (h : Char.ofNat c.toNat=character) :
    c.toNat=character.toNat := by
  have hlt : c.toNat<256 := c.toNat_lt
  have hvalid : c.toNat.isValidChar := Or.inl (by omega)
  rw [Char.ofNat,dif_pos hvalid] at h
  exact congrArg Char.toNat h

/-- The byte that sets a region. -/
theorem byte_of_region (hr : Char.ofNat c.toNat = 'r') : c=0x72 :=
  UInt8.toNat_inj.mp (toNat_of_char hr)

/-- One less than an int is one less, or the greatest int. -/
theorem wrap32_pred {value : ℤ} (h : IsInt value) :
    wrap32 (value-1)=value-1 ∨ wrap32 (value-1)=2^31-1 := by
  obtain ⟨hlow,hhigh⟩ := h
  rcases hlow.lt_or_eq with hlow | rfl
  · exact Or.inl (wrap32_of_range (by omega) (by omega))
  · exact Or.inr (by decide)

/-- A parameter that is not given is zero, and all are ints. -/
theorem isInt_getD {argv : List ℤ} (hargv : ∀ value∈argv, IsInt value) (i : ℕ) :
    IsInt (argv.getD i 0) := by
  rw [List.getD_eq_getElem?_getD]
  cases hvalue : argv[i]? with
  | none => exact ⟨by decide,by decide⟩
  | some value => exact hargv value (List.mem_of_getElem? hvalue)

/-- A region that is not one of the screen does not stay within it. -/
theorem region_of_csi (h : CursorGood term) (hsets : SetsRegion term c)
    (hbounds : CursorInBounds (guacTerminalCsi term c)) :
    RegionWithin term term.statics.finishParameter := by
  obtain ⟨-,hr,htwo⟩ := hsets
  have hfinish := isInt_finishParameter h.2.2.2
  have hc := byte_of_region hr
  have hmax : term.termHeight≤1024 := h.2.2.1
  rw [guacTerminalCsi,if_neg (by rw [hc]; decide),if_pos (by rw [hc]; decide)] at hbounds
  dsimp only at hbounds
  rw [csiFunction_region hr htwo,if_pos (by rw [hc]; decide)] at hbounds
  obtain ⟨-,-,hstart,hle,hend⟩ := hbounds
  dsimp only at hstart hle hend
  unfold RegionWithin
  rcases wrap32_pred (isInt_getD hfinish 0) with hfirst | hfirst
  · rcases wrap32_pred (isInt_getD hfinish 1) with hsecond | hsecond
    · rw [hfirst] at hstart hle
      rw [hsecond] at hle hend
      omega
    · rw [hsecond] at hend
      omega
  · rw [hfirst] at hle
    omega

/-! ## Strings and other sequences -/

theorem good_pipeStreamFlush (h : CursorGood term) :
    CursorGood (guacTerminalPipeStreamFlush term) := iteInduction (fun _ => h) fun _ => h

theorem good_pipeStreamClose (h : CursorGood term) :
    CursorGood (guacTerminalPipeStreamClose term) :=
  iteInduction (fun _ => good_pipeStreamFlush h) fun _ => h

theorem good_openPipeStream (h : CursorGood term) (c : UInt8) :
    CursorGood (guacTerminalOpenPipeStream term c) := by
  refine iteInduction (fun _ => ?_) fun _ => iteInduction (fun _ => h) fun _ => h
  have hclosed := good_pipeStreamClose h
  exact ⟨hclosed.1,hclosed.2.1,hclosed.2.2.1,hclosed.2.2.2⟩

theorem good_xtermPalette (h : CursorGood term) (c : UInt8) :
    CursorGood (guacTerminalXtermPalette env term c) := by
  have hread : CursorGood (readPalette env term c) := by
    refine iteInduction (fun _ => iteInduction (fun _ => h) fun _ => h) fun _ => ?_
    exact iteInduction (fun _ => h) fun _ => iteInduction (fun _ => h) fun _ => h
  exact iteInduction (fun _ => hread) fun _ => hread

theorem good_ctrlFunc (h : CursorGood term) (c : UInt8) :
    CursorGood (guacTerminalCtrlFunc env term c) := by
  have hfill : CursorGood (if c=0x38 then
      forTo (fun row t => guacTerminalSetColumns t row 0 (term.termWidth-1)
          ⟨0x45,term.currentAttributes,env.uninitializedWidth⟩)
        0 (term.termHeight-1) term
    else term) := by
    refine iteInduction (fun _ => ?_) fun _ => h
    exact h.of_sameControl (sameControl.forTo (fun _ _ => sameControl.setColumns ..) ..)
  exact hfill

/-- A byte keeps the cursor where it may be, unless it displays a character that
does not fit or sets a region that is not one of the screen. -/
theorem good_handleChar (h : CursorGood term)
    (hfits : ∀ codepoint∈shownCodepoint env term c, FitsRow env term codepoint)
    (hregion : SetsRegion term c→RegionWithin term term.statics.finishParameter) :
    CursorGood (handleChar env term c) := by
  unfold handleChar
  cases hhandler : term.charHandler with
  | echo =>
    cases hshown : shownCodepoint env term c with
    | none => exact good_echo_of_none h hhandler hshown
    | some codepoint =>
      obtain ⟨-,pipeBuffer,pipeSent,statics,hargv,heq⟩ := echo_of_some hshown
      dsimp only
      rw [heq]
      exact good_displayCharacter (good_withEcho h hargv ..) (hfits codepoint hshown)
  | escape => exact good_escape h c
  | csi => exact good_csi h hhandler hregion
  | osc => exact iteInduction (fun _ => h) fun _ => iteInduction (fun _ => h) fun _ => h
  | download => exact iteInduction (fun _ => h) fun _ => h
  | setDirectory => exact iteInduction (fun _ => h) fun _ => h
  | openPipeStream => exact good_openPipeStream h c
  | closePipeStream => exact iteInduction (fun _ => good_pipeStreamClose h) fun _ => h
  | setScrollback => exact iteInduction (fun _ => h) fun _ => h
  | windowTitle => exact iteInduction (fun _ => h) fun _ => h
  | xtermPalette => exact good_xtermPalette h c
  | ctrlFunc => exact good_ctrlFunc h c
  | g0Charset => exact h
  | g1Charset => exact h
  | apc => exact h

/-- A byte that keeps the cursor where it may be does neither. -/
theorem within_of_handleChar (h : CursorGood term)
    (hbounds : CursorInBounds (handleChar env term c)) :
    (∀ codepoint∈shownCodepoint env term c, FitsRow env term codepoint) ∧
      (SetsRegion term c→RegionWithin term term.statics.finishParameter) := by
  unfold handleChar at hbounds
  constructor
  · intro codepoint hshown
    obtain ⟨hhandler,pipeBuffer,pipeSent,statics,hargv,heq⟩ := echo_of_some hshown
    rw [hhandler] at hbounds
    dsimp only at hbounds
    rw [heq] at hbounds
    have hfits := fitsRow_of_inBounds (good_withEcho h hargv pipeBuffer pipeSent) hbounds
    exact hfits
  · intro hsets
    rw [hsets.1] at hbounds
    exact region_of_csi h hsets hbounds

/-! ## Sizes -/

/-- A number of pixels fits at most the greatest number of characters. -/
theorem rowsOf_le (display : Display) (height : ℤ) : display.rowsOf height≤terminalMaxSize := by
  unfold Display.rowsOf fittingCharacters
  dsimp only
  split_ifs <;> omega

theorem redrawRect_scrollStart (startRow startCol endRow endCol : ℤ) (term : GuacTerminal) :
    (redrawRect startRow startCol endRow endCol term).scrollStart=term.scrollStart := by
  rw [sameControl.redrawRect startRow startCol endRow endCol term]
  rfl

theorem redrawRect_statics (startRow startCol endRow endCol : ℤ) (term : GuacTerminal) :
    (redrawRect startRow startCol endRow endCol term).statics=term.statics := by
  rw [sameControl.redrawRect startRow startCol endRow endCol term]
  rfl

/-- A change of the height keeps the start of the region, and the parameters. -/
theorem shrinkHeight_region (term : GuacTerminal) (width height : ℤ) :
    (shrinkHeight term width height).scrollStart=term.scrollStart ∧
      (shrinkHeight term width height).statics=term.statics := by
  unfold shrinkHeight
  dsimp only
  split_ifs
  all_goals simp only [redrawRect_scrollStart,redrawRect_statics,and_self]

theorem growHeight_region (term : GuacTerminal) (width height : ℤ) :
    (growHeight term width height).scrollStart=term.scrollStart ∧
      (growHeight term width height).statics=term.statics := by
  have hgrown := grown_growHeight term width height
  generalize growHeight term width height=grown at hgrown ⊢
  cases hgrown with
  | same => exact ⟨rfl,rfl⟩
  | scrolled =>
    rw [redrawRect_scrollStart,redrawRect_statics]
    exact ⟨rfl,rfl⟩
  | moved shift _ _ _ _ drawn hdrawn =>
    subst hdrawn
    rw [redrawRect_scrollStart,redrawRect_statics]
    exact ⟨redrawRect_scrollStart ..,redrawRect_statics ..⟩

/-- A new size has rows and columns, and the region starts within it. -/
def SizeWithin (term : GuacTerminal) (rows columns : ℤ) : Prop :=
  columns≠term.termWidth ∨ rows≠term.termHeight → 0<columns ∧ 0<rows ∧ term.scrollStart<rows

instance (rows columns : ℤ) : Decidable (SizeWithin term rows columns) :=
  inferInstanceAs (Decidable (_ → _))

/-- The value that __guac_terminal_resize keeps on the screen. -/
def keepOnScreen (value size : ℤ) : ℤ :=
  if (if value<0 then 0 else value)≥size then size-1 else if value<0 then 0 else value

theorem keepOnScreen_nonneg_iff (value size : ℤ) : 0≤keepOnScreen value size ↔ 0<size := by
  unfold keepOnScreen
  split_ifs <;> omega

theorem keepOnScreen_lt (value size : ℤ) : keepOnScreen value size<size := by
  unfold keepOnScreen
  split_ifs <;> omega

/-- What a change of the size leaves of cursor and region. -/
theorem resizeCharacters_eq (memory : Memory) (term : GuacTerminal) (width height : ℤ) :
    ∃ before : GuacTerminal, before.scrollStart=term.scrollStart ∧ before.statics=term.statics ∧
      resizeCharacters memory term width height = { before with
        cursorRow := keepOnScreen before.cursorRow height
        cursorCol := keepOnScreen before.cursorCol width
        termWidth := width
        termHeight := height } := by
  have hgrow := growHeight_region (if width > (shrinkHeight term width height).termWidth then
      redrawRect 0 ((shrinkHeight term width height).termWidth-1) (height-1) (width-1)
        { shrinkHeight term width height with
          display := guacTerminalDisplayResize
            (guacTerminalDisplayFlush (shrinkHeight term width height).display) width height
            memory.operations }
    else { shrinkHeight term width height with
      display := guacTerminalDisplayResize
        (guacTerminalDisplayFlush (shrinkHeight term width height).display) width height
        memory.operations }) width height
  have hshrink := shrinkHeight_region term width height
  refine ⟨_,?_,?_,rfl⟩
  · rw [hgrow.1]
    split_ifs
    · rw [redrawRect_scrollStart]
      exact hshrink.1
    · exact hshrink.1
  · rw [hgrow.2]
    split_ifs
    · rw [redrawRect_statics]
      exact hshrink.2
    · exact hshrink.2

/-- A new size in which the region starts keeps cursor and region on the screen. -/
theorem good_resize (memory : Memory) {width height : ℤ} (h : CursorGood term)
    (hwithin : SizeWithin term (term.display.rowsOf height) (term.display.columnsOf width)) :
    CursorGood (guacTerminalResize memory term width height) := by
  have hmax := rowsOf_le term.display height
  have hsized : CursorGood (if term.display.columnsOf width≠term.termWidth ∨
          term.display.rowsOf height≠term.termHeight then
        { resizeCharacters memory term (term.display.columnsOf width)
            (term.display.rowsOf height) with scrollEnd := term.display.rowsOf height-1 }
      else term) := by
    refine iteInduction (fun hchange => ?_) fun _ => h
    obtain ⟨hcolumns,hrows,hstart⟩ := hwithin hchange
    obtain ⟨before,hbefore,hstatics,heq⟩ := resizeCharacters_eq memory term
      (term.display.columnsOf width) (term.display.rowsOf height)
    rw [heq]
    refine ⟨⟨⟨?_,?_⟩,⟨?_,?_⟩,?_,?_,?_⟩,hcolumns,hmax,?_⟩
    · exact (keepOnScreen_nonneg_iff _ _).mpr hrows
    · exact keepOnScreen_lt _ _
    · exact (keepOnScreen_nonneg_iff _ _).mpr hcolumns
    · exact (keepOnScreen_lt _ _).le
    · exact h.1.2.2.1.trans_eq hbefore.symm
    · exact hbefore.trans_le (Int.le_sub_one_of_lt hstart)
    · exact sub_one_lt _
    · dsimp only
      rw [hstatics]
      exact h.2.2.2
  exact hsized

/-- No other size does. -/
theorem within_of_resize (memory : Memory) {width height : ℤ}
    (hbounds : CursorInBounds (guacTerminalResize memory term width height)) :
    SizeWithin term (term.display.rowsOf height) (term.display.columnsOf width) := by
  intro hchange
  have hresize : CursorInBounds { resizeCharacters memory term (term.display.columnsOf width)
      (term.display.rowsOf height) with scrollEnd := term.display.rowsOf height-1 } := by
    unfold guacTerminalResize at hbounds
    dsimp only at hbounds
    rw [if_pos hchange] at hbounds
    exact hbounds
  obtain ⟨before,hbefore,-,heq⟩ := resizeCharacters_eq memory term
    (term.display.columnsOf width) (term.display.rowsOf height)
  rw [heq] at hresize
  obtain ⟨⟨hrow,-⟩,⟨hcol,-⟩,-,hstart,-⟩ := hresize
  refine ⟨(keepOnScreen_nonneg_iff _ _).mp hcol,(keepOnScreen_nonneg_iff _ _).mp hrow,?_⟩
  dsimp only at hstart
  rw [hbefore] at hstart
  omega

/-! ## Runs -/

/-- A system on which every character has one column. -/
def consoleEnv : TerminalEnv := ⟨fun _ => 1,fun _ codepoint => codepoint,fun _ => none,1⟩

/-- Memory that holds zeros. -/
def consoleMemory : Memory :=
  ⟨fun _ _ => ⟨0,⟨false,false,false,false,false,⟨0,0,0,0⟩,⟨0,0,0,0⟩⟩,0⟩,
    fun _ _ => ⟨.nop,⟨0,⟨false,false,false,false,false,⟨0,0,0,0⟩,⟨0,0,0,0⟩⟩,0⟩,0,0⟩⟩

/-- A terminal that is gray on black. -/
def consoleSettings : TerminalSettings :=
  ⟨8,16,⟨7,0x99,0x99,0x99⟩,⟨0,0,0,0⟩,fun index => ⟨index,0,0,0⟩,1000⟩

/-- What is done to a terminal. The memory that is not initialised may hold
anything each time. -/
inductive TerminalOp
  /-- A byte of guac_terminal_write. -/
  | write (c : UInt8) (uninitializedWidth : ℤ)
  | resize (memory : Memory) (width height : ℤ)
  | scrollDisplayDown (scrollAmount : ℤ)
  | scrollDisplayUp (scrollAmount : ℤ)
  | flush

/-- A terminal after something is done to it. -/
def terminalStep (env : TerminalEnv) (op : TerminalOp) (term : GuacTerminal) :
    Option GuacTerminal :=
  match op with
  | .write c uninitializedWidth =>
    some (handleChar { env with uninitializedWidth := uninitializedWidth } term c)
  | .resize memory width height => some (guacTerminalResize memory term width height)
  | .scrollDisplayDown scrollAmount => some (guacTerminalScrollDisplayDown term scrollAmount)
  | .scrollDisplayUp scrollAmount => some (guacTerminalScrollDisplayUp term scrollAmount)
  | .flush => some (guacTerminalFlush term)

theorem good_scrollDisplayDown (h : CursorGood term) (scrollAmount : ℤ) :
    CursorGood (guacTerminalScrollDisplayDown term scrollAmount) := by
  refine iteInduction (fun _ => h) fun _ => ?_
  refine CursorGood.of_sameControl ?_ (sameControl.drawScrollback ..)
  exact h

theorem good_scrollDisplayUp (h : CursorGood term) (scrollAmount : ℤ) :
    CursorGood (guacTerminalScrollDisplayUp term scrollAmount) := by
  refine iteInduction (fun _ => h) fun _ => ?_
  refine CursorGood.of_sameControl ?_ (sameControl.drawScrollback ..)
  exact h

theorem good_flush (h : CursorGood term) : CursorGood (guacTerminalFlush term) := by
  have hpiped : CursorGood (if term.pipeStreamFlags/2%2=1 then
      guacTerminalPipeStreamFlush term else term) :=
    iteInduction (fun _ => good_pipeStreamFlush h) fun _ => h
  have hcommitted := hpiped.of_sameControl (sameControl_commitCursor _)
  exact hcommitted

/-- A character that is displayed fits, a region is one of the screen, and so is
the start of the region after a change of the size. -/
def StepWithin (env : TerminalEnv) (op : TerminalOp) (term : GuacTerminal) : Prop :=
  match op with
  | .write c _ =>
    (∀ codepoint∈shownCodepoint env term c, FitsRow env term codepoint) ∧
      (SetsRegion term c→RegionWithin term term.statics.finishParameter)
  | .resize _ width height =>
    SizeWithin term (term.display.rowsOf height) (term.display.columnsOf width)
  | .scrollDisplayDown _ => True
  | .scrollDisplayUp _ => True
  | .flush => True

/-- Nothing else moves the cursor or the region out of the screen. -/
theorem good_terminalStep {op : TerminalOp} (h : CursorGood term) (hwithin : StepWithin env op term)
    (hstep : terminalStep env op term=some term') : CursorGood term' := by
  cases op with
  | write c uninitializedWidth =>
    cases hstep
    exact good_handleChar h hwithin.1 hwithin.2
  | resize memory width height =>
    cases hstep
    exact good_resize memory h hwithin
  | scrollDisplayDown scrollAmount =>
    cases hstep
    exact good_scrollDisplayDown h scrollAmount
  | scrollDisplayUp scrollAmount =>
    cases hstep
    exact good_scrollDisplayUp h scrollAmount
  | flush =>
    cases hstep
    exact good_flush h

theorem within_of_terminalStep {op : TerminalOp} (h : CursorGood term)
    (hstep : terminalStep env op term=some term') (hbounds : CursorInBounds term') :
    StepWithin env op term := by
  cases op with
  | write c uninitializedWidth =>
    cases hstep
    have hwithin := within_of_handleChar h hbounds
    exact hwithin
  | resize memory width height =>
    cases hstep
    exact within_of_resize memory hbounds
  | scrollDisplayDown scrollAmount => trivial
  | scrollDisplayUp scrollAmount => trivial
  | flush => trivial

/-- The states that a terminal with columns is in have the cursor and the region on
the screen exactly if it has rows and all that is done to it is of the kind. -/
theorem cursorInBounds_iff (env : TerminalEnv) (memory : Memory) (settings : TerminalSettings)
    (width height : ℤ) (ops : List TerminalOp)
    (hwidth : 0<(guacTerminalAlloc memory settings width height).termWidth) :
    (∀ made, made <+: ops→∀ visited, run (terminalStep env) made
        (guacTerminalCreate memory settings width height)=some visited → CursorInBounds visited) ↔
      0<(guacTerminalAlloc memory settings width height).termHeight ∧
        Along (terminalStep env) (StepWithin env) ops
          (guacTerminalCreate memory settings width height) := by
  have htotal : ∀ op term, (terminalStep env op term).isSome := by
    intro op term
    cases op <;> rfl
  by_cases hheight : 0<(guacTerminalAlloc memory settings width height).termHeight
  · rw [and_iff_right hheight]
    have hsize : SizeInBounds (guacTerminalAlloc memory settings width height) := by
      refine ⟨hwidth,rowsOf_le _ height,?_⟩
      intro value hvalue
      rw [List.eq_of_mem_replicate hvalue]
      exact ⟨by decide,by decide⟩
    exact visits_iff_along (fun h => h.1) htotal good_terminalStep within_of_terminalStep ops
      (good_reset hheight hsize)
  · refine iff_of_false (fun hvisits => hheight ?_) fun h => hheight h.1
    have hcreated := hvisits [] List.nil_prefix _ rfl
    obtain ⟨base,hsame,⟨-,hh⟩,-⟩ := reset_eq (guacTerminalAlloc memory settings width height)
    rw [←hh,←hsame.termHeight]
    exact hcreated.height_pos

/-! ### A terminal that is resized and written to -/

section

variable {P : Display→Prop} (hP : ∀ display row startColumn endColumn character, P display→
  P (guacTerminalDisplaySetColumns display row startColumn endColumn character))

include hP

/-- New characters leave of a display what the drawing of columns leaves. -/
theorem keepsDisplay : KeptByCells fun t t' => P t.display→P t'.display where
  refl _ h := h
  trans h h' hdisplay := h' (h hdisplay)
  getRow _ _ _ h := h
  select _ _ _ h := h
  setCells _ _ _ _ _ _ h := hP _ _ _ _ _ h

theorem display_reset (h : P (guacTerminalDisplayResetPalette term.display)) :
    P (guacTerminalReset term).display := by
  have hkeeps := keepsDisplay hP
  exact hkeeps.forTo (fun row t => hkeeps.setColumns t row 0 term.termWidth term.defaultChar)
    0 (term.termHeight-1) _ h

end

/-- A character stays as high and as wide. -/
theorem displaySetColumns_font (display : Display) (row startColumn endColumn : ℤ)
    (character : TerminalChar) :
    (guacTerminalDisplaySetColumns display row startColumn endColumn character).charWidth=
        display.charWidth ∧
      (guacTerminalDisplaySetColumns display row startColumn endColumn character).charHeight=
        display.charHeight := by
  unfold guacTerminalDisplaySetColumns Display.check
  dsimp only
  split_ifs
  all_goals exact ⟨rfl,rfl⟩

/-- The sizes of a new terminal. -/
theorem console_sizes :
    (guacTerminalCreate consoleMemory consoleSettings 656 384).display.columnsOf 656=80 ∧
      (guacTerminalCreate consoleMemory consoleSettings 656 384).display.rowsOf 400=25 ∧
      (guacTerminalCreate consoleMemory consoleSettings 656 384).termHeight=24 := by
  have hkept : ∀ (display : Display) (row startColumn endColumn : ℤ) (character : TerminalChar),
      display.charWidth=8 ∧ display.charHeight=16 →
        (guacTerminalDisplaySetColumns display row startColumn endColumn character).charWidth=8 ∧
        (guacTerminalDisplaySetColumns display row startColumn endColumn
          character).charHeight=16 := fun display row startColumn endColumn character h =>
    ⟨(displaySetColumns_font display row startColumn endColumn character).1.trans h.1,
      (displaySetColumns_font display row startColumn endColumn character).2.trans h.2⟩
  obtain ⟨hwidth,hheight⟩ :=
    @display_reset (guacTerminalAlloc consoleMemory consoleSettings 656 384)
    (fun display => display.charWidth=8 ∧ display.charHeight=16) hkept ⟨rfl,rfl⟩
  obtain ⟨base,hsame,⟨-,hbase⟩,-⟩ :=
    reset_eq (guacTerminalAlloc consoleMemory consoleSettings 656 384)
  refine ⟨?_,?_,(hsame.termHeight.trans hbase).trans (by decide)⟩
  · rw [Display.columnsOf,guacTerminalCreate,hwidth]
    decide
  · rw [Display.rowsOf,guacTerminalCreate,hheight]
    decide

/-- A new size leaves the cursor within the columns. -/
theorem resize_cursorCol_lt (memory : Memory) (term : GuacTerminal) {width height : ℤ}
    (hcolumns : 0<term.display.columnsOf width)
    (hrows : term.display.rowsOf height≠term.termHeight) :
    (guacTerminalResize memory term width height).cursorCol<term.display.columnsOf width ∧
      (guacTerminalResize memory term width height).termWidth=term.display.columnsOf width := by
  have hresized : ∃ before : GuacTerminal, guacTerminalResize memory term width height=
      guacTerminalScrollbarSetBounds before (-guacTerminalAvailableScroll before) 0 ∧
        before.cursorCol<term.display.columnsOf width ∧
        before.termWidth=term.display.columnsOf width := by
    obtain ⟨before,-,-,heq⟩ := resizeCharacters_eq memory term (term.display.columnsOf width)
      (term.display.rowsOf height)
    unfold guacTerminalResize
    dsimp only
    rw [if_pos (Or.inr hrows),heq]
    refine ⟨_,rfl,?_,rfl⟩
    dsimp only
    unfold keepOnScreen
    split_ifs <;> omega
  obtain ⟨before,heq,hcol,hwidth⟩ := hresized
  rw [heq]
  exact ⟨hcol,hwidth⟩

/-- A capital letter is displayed, if it is not piped, and starts no line. -/
theorem decoded_letter (term : GuacTerminal) : term.decoded 0x41=(0x41,0) := by
  unfold GuacTerminal.decoded decodeByte
  split_ifs
  · rfl
  · rfl
  all_goals exact absurd rfl ‹_›

/-- Of a terminal that becomes one row higher, and is then written to. -/
def resizedConsole : List TerminalOp := [.resize consoleMemory 656 400,.write 0x41 1,.flush]

/-- The new size leaves the cursor within the columns. -/
theorem console_resized :
    (guacTerminalResize consoleMemory (guacTerminalCreate consoleMemory consoleSettings 656 384)
        656 400).cursorCol<80 ∧
      (guacTerminalResize consoleMemory (guacTerminalCreate consoleMemory consoleSettings 656 384)
        656 400).termWidth=80 := by
  obtain ⟨hcolumns,hrows,hheight⟩ := console_sizes
  have hpositive : 0<(guacTerminalCreate consoleMemory consoleSettings 656
      384).display.columnsOf 656 := by
    rw [hcolumns]
    decide
  have hgrown : (guacTerminalCreate consoleMemory consoleSettings 656 384).display.rowsOf 400≠
      (guacTerminalCreate consoleMemory consoleSettings 656 384).termHeight := by
    rw [hrows,hheight]
    decide
  have hresized := resize_cursorCol_lt consoleMemory _ hpositive hgrown
  rwa [hcolumns] at hresized

theorem cursorInBounds_console :
    0<(guacTerminalAlloc consoleMemory consoleSettings 656 384).termWidth ∧
      ∀ made, made <+: resizedConsole→∀ visited, run (terminalStep consoleEnv) made
        (guacTerminalCreate consoleMemory consoleSettings 656 384)=some visited →
          CursorInBounds visited := by
  obtain ⟨hcolumns,hrows,-⟩ := console_sizes
  obtain ⟨base,hsame,-,-,⟨hstart,-⟩,-⟩ :=
    reset_eq (guacTerminalAlloc consoleMemory consoleSettings 656 384)
  obtain ⟨hcol,hwidth⟩ := console_resized
  refine ⟨by decide,(cursorInBounds_iff consoleEnv consoleMemory consoleSettings 656 384
    resizedConsole (by decide)).mpr ⟨by decide,?_,⟨?_,?_⟩,trivial,trivial⟩⟩
  · intro _
    rw [hcolumns,hrows,guacTerminalCreate,hsame.scrollStart,hstart]
    decide
  · intro codepoint _
    have hone : advanceOf consoleEnv codepoint=1 := rfl
    rw [FitsRow,GuacTerminal.nextColumn,if_neg (by omega),hone]
    omega
  · rintro ⟨-,hr,-⟩
    exact absurd hr (by decide)

/-- ESC [ 5 ; 2 r -/
def reversedRegion : List TerminalOp :=
  [.write 0x1B 1,.write 0x5B 1,.write 0x35 1,.write 0x3B 1,.write 0x32 1,.write 0x72 1]

/-- ESC starts a sequence, whether or not a pipe stream is open. -/
theorem handleChar_escape (hhandler : term.charHandler=.echo) :
    handleChar env term 0x1B = { term with
      charHandler := .escape
      statics := { term.statics with codepoint := 0x1B, bytesRemaining := 0 } } := by
  have hpiped : (term.pipeStream && decide ((0x1B : UInt8)≠0x1B))=false :=
    Bool.and_false term.pipeStream
  have hdecoded : decodeByte term.activeMapping term.statics.codepoint
      term.statics.bytesRemaining 0x1B=(0x1B,0) := by
    cases term.activeMapping with
    | none => rfl
    | some mapping => rfl
  rw [handleChar,hhandler]
  dsimp only [guacTerminalEcho]
  simp only [hpiped,Bool.false_eq_true,false_and,if_false,hdecoded]
  rfl

/-- ESC [ is followed by parameters. -/
theorem handleChar_bracket (hhandler : term.charHandler=.escape) :
    handleChar env term 0x5B = { term with charHandler := .csi } := by
  have hescape : handleChar env term 0x5B=guacTerminalEscape term 0x5B := by
    rw [handleChar,hhandler]
  rw [hescape]
  rfl

/-- A digit of a parameter is stored. -/
theorem handleChar_digit (hhandler : term.charHandler=.csi) (hc : IsDigit c)
    (hlength : term.statics.argvBuffer.length<255) :
    handleChar env term c = { term with
      statics := { term.statics with argvBuffer := term.statics.argvBuffer++[c] } } := by
  have hcsi : handleChar env term c=guacTerminalCsi term c := by rw [handleChar,hhandler]
  rw [hcsi]
  exact (if_pos hc).trans (if_pos hlength)

/-- A semicolon finishes a parameter. -/
theorem handleChar_semicolon (hhandler : term.charHandler=.csi) :
    handleChar env term 0x3B={ term with statics := term.statics.finishParameter } := by
  have hcsi : handleChar env term 0x3B=guacTerminalCsi term 0x3B := by rw [handleChar,hhandler]
  rw [hcsi]
  rfl

/-- Where a terminal that is not in a sequence puts the region. -/
theorem run_reversedRegion (hhandler : term.charHandler=.echo)
    (hstatics : term.statics=HandlerStatics.initial) :
    ∃ visited, run (terminalStep consoleEnv) reversedRegion term=some visited ∧
      visited.scrollStart=4 ∧ visited.scrollEnd=1 := by
  refine ⟨handleChar consoleEnv (handleChar consoleEnv (handleChar consoleEnv (handleChar consoleEnv
    (handleChar consoleEnv (handleChar consoleEnv term 0x1B) 0x5B) 0x35) 0x3B) 0x32) 0x72,rfl,?_⟩
  rw [handleChar_escape hhandler,hstatics]
  have hlength : ([] : List UInt8).length<255 := by decide
  rw [handleChar_bracket,handleChar_digit (c := 0x35),handleChar_semicolon,
    handleChar_digit (c := 0x32)]
  · exact ⟨rfl,rfl⟩
  · rfl
  · decide
  · exact hlength
  · rfl
  · rfl
  · decide
  · exact hlength
  · rfl

/-- A region may end before it starts. -/
theorem cursorInBounds_reversedRegion : ∃ visited, run (terminalStep consoleEnv) reversedRegion
        (guacTerminalCreate consoleMemory consoleSettings 656 384)=some visited ∧
      ¬CursorInBounds visited := by
  obtain ⟨base,hsame,-,-,-,⟨hhandler,-⟩,-,hstatics⟩ :=
    reset_eq (guacTerminalAlloc consoleMemory consoleSettings 656 384)
  obtain ⟨visited,hrun,hstart,hend⟩ := run_reversedRegion (hsame.charHandler.trans hhandler)
    (hsame.statics.trans hstatics)
  refine ⟨visited,hrun,fun h => ?_⟩
  obtain ⟨-,-,-,hle,-⟩ := h
  omega

end GuacServer.Terminal
