import GuacServer.TerminalBounds

/-!
# What the static variables of the handlers decide

Of the static variables of terminal/terminal_handlers.c two are only read once
they are set again: the code point of guac_terminal_echo, whose old bits are
shifted out before a character is complete, and the color of
guac_terminal_xterm_palette. Two terminals that differ only in these do and send
the same for all bytes.
-/

namespace GuacServer.Terminal

open DecimalNumerals Unicode

/-! ## Operations that do not look at the static variables -/

/-- The terminal with other values of the static variables. -/
def GuacTerminal.withStatics (term : GuacTerminal) (statics : HandlerStatics) : GuacTerminal :=
  { term with statics := statics }

section

variable (term : GuacTerminal) (statics : HandlerStatics)

theorem statics_eq_of_withStatics {term shown : GuacTerminal}
    (h : shown=shown.withStatics term.statics) : shown.statics=term.statics := by
  rw [h]
  rfl

theorem withStatics_ite {condition : Prop} [Decidable condition] (a b : GuacTerminal) :
    (if condition then a.withStatics statics else b.withStatics statics)=
      (if condition then a else b).withStatics statics :=
  (apply_ite (GuacTerminal.withStatics · statics) condition a b).symm

/-- A change on a condition leaves the static variables alone. -/
theorem changed_withStatics (condition : GuacTerminal→Prop) [DecidablePred condition]
    (change : GuacTerminal→GuacTerminal)
    (hcondition : ∀ t, condition (t.withStatics statics) ↔ condition t)
    (hchange : ∀ t, change (t.withStatics statics)=(change t).withStatics statics) :
    (if condition (term.withStatics statics) then change (term.withStatics statics)
      else term.withStatics statics)=
      (if condition term then change term else term).withStatics statics := by
  rw [hchange,withStatics_ite]
  simp only [hcondition]

theorem forRange_withStatics {body : ℤ→GuacTerminal→GuacTerminal}
    (hbody : ∀ i t, body i (t.withStatics statics)=(body i t).withStatics statics) (count : ℕ)
    (i : ℤ) : forRange body count i (term.withStatics statics)=
      (forRange body count i term).withStatics statics := by
  induction count generalizing i term with
  | zero => rfl
  | succ count ih => rw [forRange,hbody,ih,forRange]

theorem forTo_withStatics {body : ℤ→GuacTerminal→GuacTerminal}
    (hbody : ∀ i t, body i (t.withStatics statics)=(body i t).withStatics statics)
    (first last : ℤ) : forTo body first last (term.withStatics statics)=
      (forTo body first last term).withStatics statics :=
  forRange_withStatics term statics hbody _ first

theorem selectTouch_withStatics (startRow startColumn endRow endColumn : ℤ) :
    guacTerminalSelectTouch (term.withStatics statics) startRow startColumn endRow endColumn=
      (guacTerminalSelectTouch term startRow startColumn endRow endColumn).withStatics statics :=
  withStatics_ite statics { term with textSelected := false, selectionCommitted := false } term

theorem setColumnsUnbroken_withStatics (row startColumn endColumn : ℤ) (character : TerminalChar) :
    setColumnsUnbroken (term.withStatics statics) row startColumn endColumn character=
      (setColumnsUnbroken term row startColumn endColumn character).withStatics statics :=
  selectTouch_withStatics { term with
    display := guacTerminalDisplaySetColumns term.display (wrap32 (row+term.scrollOffset))
      startColumn endColumn character
    buffer := guacTerminalBufferSetColumns term.buffer row startColumn endColumn character }
    statics row startColumn row endColumn

theorem clearBroken_withStatics (row startColumn endColumn : ℤ) :
    clearBroken (term.withStatics statics) row startColumn endColumn=
      (clearBroken term row startColumn endColumn).withStatics statics := by
  unfold clearBroken
  dsimp only
  rw [setColumnsUnbroken_withStatics]
  exact withStatics_ite statics _ term

theorem breakLeft_withStatics (row edge : ℤ) : breakLeft (term.withStatics statics) row edge=
    (breakLeft term row edge).withStatics statics := by
  unfold breakLeft
  rw [clearBroken_withStatics]
  exact withStatics_ite statics _ term

theorem breakRight_withStatics (row edge : ℤ) : breakRight (term.withStatics statics) row edge=
    (breakRight term row edge).withStatics statics := by
  unfold breakRight
  rw [clearBroken_withStatics]
  exact withStatics_ite statics _ term

theorem forceBreak_withStatics (row edge : ℤ) : forceBreak (term.withStatics statics) row edge=
    (forceBreak term row edge).withStatics statics := by
  rw [forceBreak_eq,forceBreak_eq,←breakRight_withStatics,←breakLeft_withStatics]
  rfl

theorem writeCursor_withStatics (row startColumn endColumn : ℤ) (character : TerminalChar) :
    writeCursor (term.withStatics statics) row startColumn endColumn character=
      (writeCursor term row startColumn endColumn character).withStatics statics := by
  unfold writeCursor
  rw [setColumnsUnbroken_withStatics]
  exact withStatics_ite statics _ term

theorem setColumns_withStatics (row startColumn endColumn : ℤ) (character : TerminalChar) :
    guacTerminalSetColumns (term.withStatics statics) row startColumn endColumn character=
      (guacTerminalSetColumns term row startColumn endColumn character).withStatics statics := by
  rw [setColumns_eq,setColumns_eq,setColumnsUnbroken_withStatics,writeCursor_withStatics,
    forceBreak_withStatics,forceBreak_withStatics]

theorem set_withStatics (row col codepoint columns : ℤ) :
    guacTerminalSet (term.withStatics statics) row col codepoint columns=
      (guacTerminalSet term row col codepoint columns).withStatics statics := by
  unfold guacTerminalSet
  dsimp only
  rw [setColumns_withStatics]
  exact withStatics_ite statics term _

theorem copiedColumns_withStatics (row startColumn endColumn offset : ℤ) :
    copiedColumns (term.withStatics statics) row startColumn endColumn offset=
      (copiedColumns term row startColumn endColumn offset).withStatics statics := by
  have htouched := selectTouch_withStatics { term with
    display := guacTerminalDisplayCopyColumns term.display (wrap32 (row+term.scrollOffset))
      startColumn endColumn offset
    buffer := guacTerminalBufferCopyColumns term.buffer row startColumn endColumn offset } statics
    row startColumn row endColumn
  have hmoved := changed_withStatics (guacTerminalSelectTouch { term with
      display := guacTerminalDisplayCopyColumns term.display (wrap32 (row+term.scrollOffset))
        startColumn endColumn offset
      buffer := guacTerminalBufferCopyColumns term.buffer row startColumn endColumn offset }
      row startColumn row endColumn) statics
    (fun t => row=t.visibleCursorRow ∧ t.visibleCursorCol≥startColumn ∧
      t.visibleCursorCol≤endColumn)
    (fun t => { t with visibleCursorCol := t.visibleCursorCol+offset })
    (fun _ => Iff.rfl) fun _ => rfl
  rw [←htouched] at hmoved
  exact hmoved

theorem copyColumns_withStatics (row startColumn endColumn offset : ℤ) :
    guacTerminalCopyColumns (term.withStatics statics) row startColumn endColumn offset=
      (guacTerminalCopyColumns term row startColumn endColumn offset).withStatics statics := by
  rw [copyColumns_eq,copyColumns_eq,copiedColumns_withStatics,forceBreak_withStatics,
    forceBreak_withStatics]

theorem clearColumns_withStatics (row startCol endCol : ℤ) :
    guacTerminalClearColumns (term.withStatics statics) row startCol endCol=
      (guacTerminalClearColumns term row startCol endCol).withStatics statics :=
  setColumns_withStatics term statics row startCol endCol ⟨0,term.currentAttributes,1⟩

theorem copyRows_withStatics (startRow endRow offset : ℤ) :
    guacTerminalCopyRows (term.withStatics statics) startRow endRow offset=
      (guacTerminalCopyRows term startRow endRow offset).withStatics statics := by
  have htouched := selectTouch_withStatics { term with
    display := guacTerminalDisplayCopyRows term.display (wrap32 (startRow+term.scrollOffset))
      (wrap32 (endRow+term.scrollOffset)) offset
    buffer := guacTerminalBufferCopyRows term.buffer startRow endRow offset } statics
    startRow 0 endRow term.termWidth
  have hmoved := changed_withStatics (guacTerminalSelectTouch { term with
      display := guacTerminalDisplayCopyRows term.display (wrap32 (startRow+term.scrollOffset))
        (wrap32 (endRow+term.scrollOffset)) offset
      buffer := guacTerminalBufferCopyRows term.buffer startRow endRow offset }
      startRow 0 endRow term.termWidth) statics
    (fun t => t.visibleCursorRow≥startRow ∧ t.visibleCursorRow≤endRow)
    (fun t => { t with visibleCursorRow := t.visibleCursorRow+offset })
    (fun _ => Iff.rfl) fun _ => rfl
  rw [←htouched] at hmoved
  exact hmoved

theorem clearRange_withStatics (startRow startCol endRow endCol : ℤ) :
    guacTerminalClearRange (term.withStatics statics) startRow startCol endRow endCol=
      (guacTerminalClearRange term startRow startCol endRow endCol).withStatics statics := by
  have hwidth : (term.withStatics statics).termWidth=term.termWidth := rfl
  unfold guacTerminalClearRange
  dsimp only
  rw [hwidth]
  split_ifs
  all_goals
    simp only [clearColumns_withStatics]
    exact forTo_withStatics _ statics (fun row t => clearColumns_withStatics t statics row 0 _) ..

theorem scrolledUp_withStatics (startRow endRow amount : ℤ) :
    scrolledUp (term.withStatics statics) startRow endRow amount=
      (scrolledUp term startRow endRow amount).withStatics statics := by
  have hheight : (term.withStatics statics).termHeight=term.termHeight := rfl
  unfold scrolledUp
  dsimp only
  rw [hheight,copyRows_withStatics]
  split_ifs
  all_goals first | rfl | contradiction

theorem scrollUp_withStatics (startRow endRow amount : ℤ) :
    guacTerminalScrollUp (term.withStatics statics) startRow endRow amount=
      (guacTerminalScrollUp term startRow endRow amount).withStatics statics := by
  rw [scrollUp_eq,scrollUp_eq,scrolledUp_withStatics,clearRange_withStatics]
  rfl

theorem scrollDown_withStatics (startRow endRow amount : ℤ) :
    guacTerminalScrollDown (term.withStatics statics) startRow endRow amount=
      (guacTerminalScrollDown term startRow endRow amount).withStatics statics := by
  unfold guacTerminalScrollDown
  rw [copyRows_withStatics,clearRange_withStatics]
  rfl

/-- All cells are default characters, as at the end of guac_terminal_reset. -/
def fillDefault (term : GuacTerminal) : GuacTerminal :=
  forTo (fun row t => guacTerminalSetColumns t row 0 term.termWidth term.defaultChar)
    0 (term.termHeight-1) term

theorem fillDefault_withStatics : fillDefault (term.withStatics statics)=
    (fillDefault term).withStatics statics :=
  @forTo_withStatics term statics
    (fun row t => guacTerminalSetColumns t row 0 term.termWidth term.defaultChar)
    (fun row t => setColumns_withStatics t statics row 0 _ _) 0 (term.termHeight-1)

theorem reset_withStatics : guacTerminalReset (term.withStatics statics)=
    (guacTerminalReset term).withStatics statics := by
  unfold guacTerminalReset
  show fillDefault _ = (fillDefault _).withStatics statics
  refine Eq.trans ?_ (fillDefault_withStatics _ statics)
  rfl

/-! ### Cursor, pipe streams and printed characters -/

theorem linefeed_withStatics : guacTerminalLinefeed (term.withStatics statics)=
    (guacTerminalLinefeed term).withStatics statics := by
  unfold guacTerminalLinefeed
  rw [scrollUp_withStatics]
  split_ifs
  all_goals first | rfl | contradiction

theorem reverseLinefeed_withStatics : guacTerminalReverseLinefeed (term.withStatics statics)=
    (guacTerminalReverseLinefeed term).withStatics statics := by
  unfold guacTerminalReverseLinefeed
  rw [scrollDown_withStatics]
  split_ifs
  all_goals first | rfl | contradiction

theorem setTab_withStatics (column : ℤ) : guacTerminalSetTab (term.withStatics statics) column=
    (guacTerminalSetTab term column).withStatics statics :=
  withStatics_ite statics { term with
    customTabs := term.customTabs.set (term.customTabs.idxOf 0) (column+1) } term

theorem unsetTab_withStatics (column : ℤ) : guacTerminalUnsetTab (term.withStatics statics) column=
      (guacTerminalUnsetTab term column).withStatics statics :=
  withStatics_ite statics { term with
    customTabs := term.customTabs.set (term.customTabs.idxOf (column+1)) 0 } term

theorem pipeStreamFlush_withStatics : guacTerminalPipeStreamFlush (term.withStatics statics)=
      (guacTerminalPipeStreamFlush term).withStatics statics :=
  withStatics_ite statics { term with
    pipeBuffer := [], pipeSent := term.pipeSent++[.blob term.pipeBuffer] } term

theorem pipeStreamWrite_withStatics (c : UInt8) :
    guacTerminalPipeStreamWrite (term.withStatics statics) c=
      (guacTerminalPipeStreamWrite term c).withStatics statics := by
  unfold guacTerminalPipeStreamWrite
  dsimp only
  rw [pipeStreamFlush_withStatics]
  split_ifs
  all_goals first | rfl | contradiction

theorem pipeStreamClose_withStatics : guacTerminalPipeStreamClose (term.withStatics statics)=
      (guacTerminalPipeStreamClose term).withStatics statics := by
  unfold guacTerminalPipeStreamClose
  dsimp only
  rw [pipeStreamFlush_withStatics]
  split_ifs
  all_goals first | rfl | contradiction

theorem pipeStreamOpen_withStatics (name : List UInt8) (flags : ℤ) :
    guacTerminalPipeStreamOpen (term.withStatics statics) name flags=
      (guacTerminalPipeStreamOpen term name flags).withStatics statics := by
  unfold guacTerminalPipeStreamOpen
  rw [pipeStreamClose_withStatics]
  rfl

theorem wrapCursor_withStatics : wrapCursor (term.withStatics statics)=
    (wrapCursor term).withStatics statics := by
  have hlinefeed := linefeed_withStatics { term with cursorCol := 0 } statics
  show (if term.cursorCol≥term.termWidth then
    guacTerminalLinefeed (GuacTerminal.withStatics { term with cursorCol := 0 } statics)
      else term.withStatics statics)=_
  rw [hlinefeed]
  exact withStatics_ite statics _ term

theorem insertedSpace_withStatics : insertedSpace (term.withStatics statics)=
    (insertedSpace term).withStatics statics := by
  unfold insertedSpace
  rw [copyColumns_withStatics]
  exact withStatics_ite statics _ term

/-- The cursor is behind a character that was displayed. -/
def advanced (env : TerminalEnv) (codepoint : ℤ) (term : GuacTerminal) : GuacTerminal :=
  { term with cursorCol := term.cursorCol+advanceOf env codepoint }

theorem displayCharacter_withStatics (env : TerminalEnv) (codepoint : ℤ) :
    displayCharacter env (term.withStatics statics) codepoint=
      (displayCharacter env term codepoint).withStatics statics := by
  have hshown : ∀ t, displayCharacter env t codepoint=advanced env codepoint
      (guacTerminalSet (insertedSpace (wrapCursor t)) (insertedSpace (wrapCursor t)).cursorRow
        (insertedSpace (wrapCursor t)).cursorCol codepoint (env.wcwidth codepoint)) := fun _ => rfl
  rw [hshown,hshown,wrapCursor_withStatics,insertedSpace_withStatics,set_withStatics]
  rfl

theorem withStatics_withStatics (statics' : HandlerStatics) :
    (term.withStatics statics).withStatics statics' = term.withStatics statics' := rfl

theorem withStatics_size : (term.withStatics statics).termWidth=term.termWidth ∧
    (term.withStatics statics).termHeight=term.termHeight := ⟨rfl,rfl⟩

theorem withStatics_cursor : (term.withStatics statics).cursorRow=term.cursorRow ∧
    (term.withStatics statics).cursorCol=term.cursorCol := ⟨rfl,rfl⟩

theorem withStatics_scrollEnd : (term.withStatics statics).scrollEnd=term.scrollEnd := rfl

theorem moveCursor_withStatics (row col : ℤ) :
    guacTerminalMoveCursor (term.withStatics statics) row col=
      (guacTerminalMoveCursor term row col).withStatics statics := rfl

theorem clearTabs_withStatics : guacTerminalClearTabs (term.withStatics statics)=
    (guacTerminalClearTabs term).withStatics statics := rfl

theorem setFlag_withStatics (num : ℤ) (privateMode : UInt8) (value : Bool) :
    setFlag (term.withStatics statics) num privateMode value=
      (setFlag term num privateMode value).withStatics statics := by
  unfold setFlag
  generalize Char.ofNat privateMode.toNat=mode
  split
  all_goals rfl

theorem escape_withStatics (c : UInt8) : guacTerminalEscape (term.withStatics statics) c=
    (guacTerminalEscape term c).withStatics statics := by
  unfold guacTerminalEscape
  generalize Char.ofNat c.toNat=final
  split
  case h_7 =>
    rw [moveCursor_withStatics]
    rfl
  case h_8 =>
    rw [linefeed_withStatics]
    rfl
  case h_9 =>
    rw [moveCursor_withStatics,linefeed_withStatics]
    rfl
  case h_10 =>
    rw [setTab_withStatics]
    rfl
  case h_11 =>
    rw [reverseLinefeed_withStatics]
    rfl
  case h_12 => exact reset_withStatics term statics
  all_goals rfl

theorem ctrlFunc_withStatics (env : TerminalEnv) (c : UInt8) :
    guacTerminalCtrlFunc env (term.withStatics statics) c=
      (guacTerminalCtrlFunc env term c).withStatics statics := by
  have hfilled := @forTo_withStatics term statics
    (fun row t => guacTerminalSetColumns t row 0 (term.termWidth-1)
      ⟨0x45,term.currentAttributes,env.uninitializedWidth⟩)
    (fun row t => setColumns_withStatics t statics row 0 _ _) 0 (term.termHeight-1)
  unfold guacTerminalCtrlFunc
  dsimp only
  split_ifs
  · exact congrArg (fun t : GuacTerminal => { t with charHandler := .echo }) hfilled
  · rfl

end

/-! ## Variables that are set before they are read -/

/-- Other values of the code point and of the color, which are only read once they
are set again. -/
def HandlerStatics.leaving (statics : HandlerStatics) (codepoint : ℤ) (colorSpec : List UInt8) :
    HandlerStatics :=
  { statics with codepoint := codepoint, colorSpec := colorSpec }

/-- The bits in which two code points differ are shifted out before the next
character is complete. -/
def SameDecoding (bytesRemaining codepoint codepoint' : ℤ) : Prop :=
  codepoint' = codepoint ∨ ∃ n : ℕ, n<6 ∧ bytesRemaining = -n ∧
    (2^32 : ℤ) ∣ 64^(6-n)*(codepoint' - codepoint)

theorem wrap32_congr {x y : ℤ} (h : (2^32 : ℤ) ∣ x-y) : wrap32 x=wrap32 y :=
  Int.bmod_eq_bmod_iff_bmod_sub_eq_zero.mpr (Int.bmod_eq_zero_of_dvd (by exact_mod_cast h))

theorem dvd_wrap32_sub (x y : ℤ) : (2^32 : ℤ) ∣ wrap32 x-wrap32 y-(x-y) := by
  have hx : (2^32 : ℤ) ∣ wrap32 x-x := by exact_mod_cast Int.dvd_bmod_sub_self
  have hy : (2^32 : ℤ) ∣ wrap32 y-y := by exact_mod_cast Int.dvd_bmod_sub_self
  have hsub := Int.dvd_sub hx hy
  rwa [show wrap32 x-x-(wrap32 y-y)=wrap32 x-wrap32 y-(x-y) by ring] at hsub

/-- Between characters the code point makes no difference. -/
theorem sameDecoding_zero (codepoint codepoint' : ℤ) : SameDecoding 0 codepoint codepoint' := by
  have hdvd : (2^32 : ℤ) ∣ 64^6 := by decide
  exact Or.inr ⟨0,by decide,rfl,hdvd.mul_right _⟩

/-- Another byte shifts out six more bits. -/
theorem SameDecoding.shift {n : ℕ} (hn : n<6) {codepoint codepoint' : ℤ}
    (h : (2^32 : ℤ) ∣ 64^(6-n)*(codepoint' - codepoint)) (bits : ℤ) :
    SameDecoding (-(n+1 : ℕ)) (wrap32 (codepoint*64)+bits) (wrap32 (codepoint' * 64)+bits) := by
  have hsix : 6-n=6-(n+1)+1 := by omega
  have hmul : 64^(6-n)*(codepoint' - codepoint)=64^(6-(n+1))*(codepoint' * 64-codepoint*64) := by
    rw [hsix,pow_succ]
    ring
  rw [hmul] at h
  rcases Nat.lt_or_ge (n+1) 6 with hlt | hge
  · refine Or.inr ⟨n+1,hlt,rfl,?_⟩
    have hwrapped := (dvd_wrap32_sub (codepoint' * 64) (codepoint*64)).mul_left (64^(6-(n+1)))
    have hsum := Int.dvd_add hwrapped h
    rw [←mul_add,sub_add_cancel] at hsum
    rwa [add_sub_add_right_eq_sub]
  · refine Or.inl ?_
    rw [show 6-(n+1)=0 by omega,pow_zero,one_mul] at h
    rw [wrap32_congr h]

/-- Bytes are decoded to the same characters. -/
theorem SameDecoding.decodeByte {bytesRemaining codepoint codepoint' : ℤ}
    (h : SameDecoding bytesRemaining codepoint codepoint') (mapping : Option CharMapping)
    (c : UInt8) :
    (decodeByte mapping codepoint' bytesRemaining c).2=
        (decodeByte mapping codepoint bytesRemaining c).2 ∧
      SameDecoding (decodeByte mapping codepoint bytesRemaining c).2
        (decodeByte mapping codepoint bytesRemaining c).1
        (decodeByte mapping codepoint' bytesRemaining c).1 ∧
      ((decodeByte mapping codepoint bytesRemaining c).2=0 →
        (decodeByte mapping codepoint' bytesRemaining c).1=
          (decodeByte mapping codepoint bytesRemaining c).1) := by
  unfold Terminal.decodeByte
  split_ifs
  all_goals try exact ⟨rfl,Or.inl rfl,fun _ => rfl⟩
  -- only a continuation uses the code point so far
  rcases h with rfl | ⟨n,hn,rfl,hdvd⟩
  · exact ⟨rfl,Or.inl rfl,fun _ => rfl⟩
  · have hnext : wrap32 (-(n : ℤ)-1) = -(n+1 : ℕ) := by
      rw [wrap32_of_range (by omega) (by omega)]
      omega
    rw [hnext]
    exact ⟨rfl,SameDecoding.shift hn hdvd _,fun hzero => absurd hzero (by omega)⟩

/-- Values of the static variables from which every byte is handled alike. -/
def SameParsing (statics statics' : HandlerStatics) : Prop :=
  ∃ codepoint colorSpec, statics' = statics.leaving codepoint colorSpec ∧
    SameDecoding statics.bytesRemaining statics.codepoint codepoint ∧
    (statics.readColorSpec=true → colorSpec=statics.colorSpec)

/-- A handler that neither reads nor sets these variables. -/
def PassesBy (f : GuacTerminal→GuacTerminal) (term : GuacTerminal) : Prop :=
  (∀ codepoint colorSpec, f (term.withStatics (term.statics.leaving codepoint colorSpec))=
    (f term).withStatics ((f term).statics.leaving codepoint colorSpec)) ∧
    ((f term).statics.bytesRemaining=term.statics.bytesRemaining ∧
      (f term).statics.codepoint=term.statics.codepoint) ∧
    (f term).statics.readColorSpec=term.statics.readColorSpec ∧
      (f term).statics.colorSpec=term.statics.colorSpec

variable {env : TerminalEnv} {term : GuacTerminal} {statics : HandlerStatics}

variable {f g : GuacTerminal→GuacTerminal}

/-- Such a handler keeps the parsing the same. -/
theorem PassesBy.sameParsing (h : PassesBy f term) (hsame : SameParsing term.statics statics) :
    ∃ statics', f (term.withStatics statics)=(f term).withStatics statics' ∧
      SameParsing (f term).statics statics' := by
  obtain ⟨codepoint,colorSpec,rfl,hdecoding,hcolor⟩ := hsame
  obtain ⟨hcommutes,⟨hremaining,hcodepoint⟩,hread,hspec⟩ := h
  refine ⟨_,hcommutes codepoint colorSpec,codepoint,colorSpec,rfl,?_,?_⟩
  · rwa [hremaining,hcodepoint]
  · rwa [hread,hspec]

/-- Operations that change no static variable are of this kind. -/
theorem passesBy_of_leaving
    (hf : ∀ codepoint colorSpec, f (term.withStatics (term.statics.leaving codepoint colorSpec))=
      (f term).withStatics (term.statics.leaving codepoint colorSpec)) : PassesBy f term := by
  have hkept : (f term).statics=term.statics :=
    statics_eq_of_withStatics (hf term.statics.codepoint term.statics.colorSpec)
  unfold PassesBy
  rw [hkept]
  exact ⟨hf,⟨rfl,rfl⟩,rfl,rfl⟩

/-- A sequence reads neither the code point nor the color. -/
theorem csiFunction_leaving (term : GuacTerminal) (c : UInt8) (codepoint : ℤ)
    (colorSpec : List UInt8) :
    csiFunction (term.withStatics (term.statics.leaving codepoint colorSpec)) c=
      (csiFunction term c).withStatics (term.statics.leaving codepoint colorSpec) := by
  generalize hleft : term.statics.leaving codepoint colorSpec=left
  have hargc : left.argc=term.statics.argc := by
    rw [←hleft]
    rfl
  have hargv : left.argv=term.statics.argv := by
    rw [←hleft]
    rfl
  have hmode : left.privateModeCharacter=term.statics.privateModeCharacter := by
    rw [←hleft]
    rfl
  have hstatics : (term.withStatics left).statics=left := rfl
  unfold csiFunction
  dsimp only
  rw [hstatics,hargc,hargv,hmode]
  generalize Char.ofNat c.toNat=final
  generalize term.statics.argv.getD 0 0=first
  generalize term.statics.argv.getD 1 0=second
  split
  all_goals simp only [withStatics_size,withStatics_cursor,withStatics_scrollEnd,
    moveCursor_withStatics,clearRange_withStatics,clearColumns_withStatics,
    copyColumns_withStatics,scrollUp_withStatics,scrollDown_withStatics,
    unsetTab_withStatics,clearTabs_withStatics,setFlag_withStatics,withStatics_ite]
  case h_25 =>
    split_ifs
    all_goals rfl
  all_goals rfl

theorem PassesBy.comp (hf : PassesBy f term) (hg : PassesBy g (f term)) :
    PassesBy (fun t => g (f t)) term := by
  obtain ⟨hcommutes,⟨hremaining,hcodepoint⟩,hread,hspec⟩ := hf
  obtain ⟨hcommutes',⟨hremaining',hcodepoint'⟩,hread',hspec'⟩ := hg
  refine ⟨fun codepoint colorSpec => ?_,⟨hremaining'.trans hremaining,
    hcodepoint'.trans hcodepoint⟩,hread'.trans hread,hspec'.trans hspec⟩
  dsimp only
  rw [hcommutes,hcommutes']

/-- A choice between handlers passes by as they do. -/
theorem passesBy_ite {condition : GuacTerminal→Prop} [DecidablePred condition]
    (hcondition : ∀ codepoint colorSpec,
      condition (term.withStatics (term.statics.leaving codepoint colorSpec)) ↔ condition term)
    (hf : PassesBy f term) (hg : PassesBy g term) :
    PassesBy (fun t => if condition t then f t else g t) term := by
  unfold PassesBy
  simp only [hcondition]
  by_cases h : condition term
  · simp only [if_pos h]
    exact hf
  · simp only [if_neg h]
    exact hg

section

variable (term : GuacTerminal)

theorem passesBy_id : PassesBy (fun t => t) term :=
  ⟨fun _ _ => rfl,⟨rfl,rfl⟩,rfl,rfl⟩

theorem finishParameter_leaving (statics : HandlerStatics) (codepoint : ℤ)
    (colorSpec : List UInt8) : (statics.leaving codepoint colorSpec).finishParameter=
      statics.finishParameter.leaving codepoint colorSpec := by
  unfold HandlerStatics.finishParameter
  split_ifs
  all_goals first | rfl | contradiction

theorem finishParameter_passesBy :
    PassesBy (fun t => { t with statics := t.statics.finishParameter }) term := by
  refine ⟨fun codepoint colorSpec => ?_,?_⟩
  · exact congrArg (fun statics => { term with statics := statics })
      (finishParameter_leaving term.statics codepoint colorSpec)
  · dsimp only
    unfold HandlerStatics.finishParameter
    split_ifs
    all_goals exact ⟨⟨rfl,rfl⟩,rfl,rfl⟩

theorem csiFunction_statics (c : UInt8) :
    (csiFunction term c).statics=term.statics :=
  statics_eq_of_withStatics
    (csiFunction_leaving term c term.statics.codepoint term.statics.colorSpec)

theorem csiFunction_passesBy (c : UInt8) : PassesBy (csiFunction · c) term :=
  passesBy_of_leaving (csiFunction_leaving term c)

theorem csi_passesBy (c : UInt8) : PassesBy (guacTerminalCsi · c) term := by
  refine passesBy_ite (fun _ _ => Iff.rfl) ?_ ?_
  · refine passesBy_ite (fun _ _ => Iff.rfl) ?_ (passesBy_id term)
    exact ⟨fun _ _ => rfl,⟨rfl,rfl⟩,rfl,rfl⟩
  refine passesBy_ite (fun _ _ => Iff.rfl) ?_ ?_
  · have hended : ∀ t, PassesBy (fun t => if c≠0x3B then
        { t with charHandler := .echo, statics := t.statics.endSequence } else t) t := by
      intro t
      refine passesBy_ite (fun _ _ => Iff.rfl) ?_ (passesBy_id t)
      exact ⟨fun _ _ => rfl,⟨rfl,rfl⟩,rfl,rfl⟩
    exact ((finishParameter_passesBy term).comp (csiFunction_passesBy _ c)).comp (hended _)
  · refine passesBy_ite (fun _ _ => Iff.rfl) ?_ (passesBy_id term)
    exact ⟨fun _ _ => rfl,⟨rfl,rfl⟩,rfl,rfl⟩

theorem escape_passesBy (c : UInt8) :
    PassesBy (guacTerminalEscape · c) term :=
  passesBy_of_leaving fun _ _ => escape_withStatics term _ c

theorem g0Charset_passesBy (c : UInt8) :
    PassesBy (guacTerminalG0Charset · c) term := ⟨fun _ _ => rfl,⟨rfl,rfl⟩,rfl,rfl⟩

theorem g1Charset_passesBy (c : UInt8) :
    PassesBy (guacTerminalG1Charset · c) term := ⟨fun _ _ => rfl,⟨rfl,rfl⟩,rfl,rfl⟩

theorem ctrlFunc_passesBy (c : UInt8) :
    PassesBy (guacTerminalCtrlFunc env · c) term :=
  passesBy_of_leaving fun _ _ => ctrlFunc_withStatics term _ env c

theorem setDirectory_passesBy (c : UInt8) :
    PassesBy (guacTerminalSetDirectory · c) term := by
  unfold PassesBy guacTerminalSetDirectory
  split_ifs
  · exact ⟨fun _ _ => rfl,⟨rfl,rfl⟩,rfl,rfl⟩
  · exact ⟨fun _ _ => rfl,⟨rfl,rfl⟩,rfl,rfl⟩

theorem download_passesBy (c : UInt8) :
    PassesBy (guacTerminalDownload · c) term := by
  unfold PassesBy guacTerminalDownload
  split_ifs
  · exact ⟨fun _ _ => rfl,⟨rfl,rfl⟩,rfl,rfl⟩
  · exact ⟨fun _ _ => rfl,⟨rfl,rfl⟩,rfl,rfl⟩

theorem windowTitle_passesBy (c : UInt8) :
    PassesBy (guacTerminalWindowTitle · c) term := by
  unfold PassesBy guacTerminalWindowTitle
  split_ifs
  · exact ⟨fun _ _ => rfl,⟨rfl,rfl⟩,rfl,rfl⟩
  · exact ⟨fun _ _ => rfl,⟨rfl,rfl⟩,rfl,rfl⟩

theorem setScrollback_passesBy (c : UInt8) :
    PassesBy (guacTerminalSetScrollback · c) term := by
  unfold PassesBy guacTerminalSetScrollback
  split_ifs
  · exact ⟨fun _ _ => rfl,⟨rfl,rfl⟩,rfl,rfl⟩
  · exact ⟨fun _ _ => rfl,⟨rfl,rfl⟩,rfl,rfl⟩

theorem closePipeStream_withStatics (statics : HandlerStatics) (c : UInt8) :
    guacTerminalClosePipeStream (term.withStatics statics) c=
      (guacTerminalClosePipeStream term c).withStatics statics := by
  unfold guacTerminalClosePipeStream
  rw [pipeStreamClose_withStatics]
  exact withStatics_ite _ { guacTerminalPipeStreamClose term with charHandler := .echo } term

theorem closePipeStream_passesBy (c : UInt8) :
    PassesBy (guacTerminalClosePipeStream · c) term :=
  passesBy_of_leaving fun _ _ => closePipeStream_withStatics term _ c

theorem openPipeStream_passesBy (c : UInt8) :
    PassesBy (guacTerminalOpenPipeStream · c) term := by
  refine passesBy_ite (fun _ _ => Iff.rfl) ?_ ?_
  · have hopened : PassesBy (fun t => guacTerminalPipeStreamOpen t t.statics.pipeParam
        t.statics.pipeFlags) term := by
      refine passesBy_of_leaving fun codepoint colorSpec => ?_
      exact pipeStreamOpen_withStatics term _ term.statics.pipeParam term.statics.pipeFlags
    have hended : ∀ t, PassesBy (fun t : GuacTerminal => { t with
        charHandler := .echo
        statics := { t.statics with pipeParam := [], pipeFlags := 0 } }) t :=
      fun t => ⟨fun _ _ => rfl,⟨rfl,rfl⟩,rfl,rfl⟩
    exact hopened.comp (hended _)
  · refine passesBy_ite (fun _ _ => Iff.rfl) ?_ ?_
    · exact ⟨fun _ _ => rfl,⟨rfl,rfl⟩,rfl,rfl⟩
    · exact ⟨fun _ _ => rfl,⟨rfl,rfl⟩,rfl,rfl⟩

theorem osc_passesBy (c : UInt8) : PassesBy (guacTerminalOsc · c) term := by
  refine passesBy_ite (fun _ _ => Iff.rfl) ?_ (passesBy_ite (fun _ _ => Iff.rfl) ?_ ?_)
  · exact ⟨fun _ _ => rfl,⟨rfl,rfl⟩,rfl,rfl⟩
  · exact ⟨fun _ _ => rfl,⟨rfl,rfl⟩,rfl,rfl⟩
  · exact ⟨fun _ _ => rfl,⟨rfl,rfl⟩,rfl,rfl⟩

theorem apc_passesBy (c : UInt8) : PassesBy (guacTerminalApc · c) term :=
  ⟨fun _ _ => rfl,⟨rfl,rfl⟩,rfl,rfl⟩

end

theorem readPalette_sameParsing (hsame : SameParsing term.statics statics) (c : UInt8) :
    ∃ statics', readPalette env (term.withStatics statics) c=
        (readPalette env term c).withStatics statics' ∧
      SameParsing (readPalette env term c).statics statics' := by
  obtain ⟨codepoint,colorSpec,rfl,hdecoding,hcolor⟩ := hsame
  have hread : (term.withStatics (term.statics.leaving codepoint colorSpec)).statics.readColorSpec=
      term.statics.readColorSpec := rfl
  unfold readPalette
  dsimp only
  rw [hread]
  by_cases hspec : term.statics.readColorSpec=true
  · cases hcolor hspec
    rw [if_pos hspec,if_pos hspec]
    split_ifs
    · exact ⟨_,rfl,codepoint,_,rfl,hdecoding,fun h => absurd h (Bool.false_ne_true)⟩
    · exact ⟨_,rfl,codepoint,_,rfl,hdecoding,fun _ => rfl⟩
  · rw [if_neg hspec,if_neg hspec]
    split_ifs
    · exact ⟨_,rfl,codepoint,colorSpec,rfl,hdecoding,fun h => absurd h hspec⟩
    · exact ⟨_,rfl,codepoint,[],rfl,hdecoding,fun _ => rfl⟩
    · exact ⟨_,rfl,codepoint,colorSpec,rfl,hdecoding,fun h => absurd h hspec⟩

theorem xtermPalette_sameParsing (hsame : SameParsing term.statics statics) (c : UInt8) :
    ∃ statics', guacTerminalXtermPalette env (term.withStatics statics) c=
        (guacTerminalXtermPalette env term c).withStatics statics' ∧
      SameParsing (guacTerminalXtermPalette env term c).statics statics' := by
  obtain ⟨statics',hread,hsame'⟩ := readPalette_sameParsing hsame c
  unfold guacTerminalXtermPalette
  dsimp only
  rw [hread]
  split_ifs
  · exact ⟨statics',rfl,hsame'⟩
  · exact ⟨statics',rfl,hsame'⟩

/-- What a function does to the screen does not depend on the static variables, of
which it only changes the code point. -/
def ShowsAlike (f : GuacTerminal→GuacTerminal) (term : GuacTerminal) : Prop :=
  ∃ (shown : GuacTerminal) (kept : ℤ→ℤ), ∀ statics, f (term.withStatics statics)=
    shown.withStatics { statics with codepoint := kept statics.codepoint }

theorem showsAlike_of_withStatics
    (hf : ∀ statics, f (term.withStatics statics)=(f term).withStatics statics) :
    ShowsAlike f term := ⟨f term,id,hf⟩

theorem showsAlike_ite {condition : Prop} [Decidable condition] (hf : ShowsAlike f term)
    (hg : ShowsAlike g term) : ShowsAlike (fun t => if condition then f t else g t) term := by
  by_cases h : condition
  · simpa only [if_pos h] using hf
  · simpa only [if_neg h] using hg

theorem echoCodepoint_showsAlike (env : TerminalEnv) (term : GuacTerminal) (codepoint : ℤ) :
    ShowsAlike (echoCodepoint env · codepoint) term := by
  refine showsAlike_ite (showsAlike_of_withStatics fun _ => rfl) ?_
  refine showsAlike_ite (showsAlike_of_withStatics fun _ => rfl) ?_
  refine showsAlike_ite (showsAlike_of_withStatics fun _ => rfl) ?_
  refine showsAlike_ite (showsAlike_of_withStatics fun statics => ?_) ?_
  · dsimp only
    rw [linefeed_withStatics]
    exact withStatics_ite statics (guacTerminalMoveCursor (guacTerminalLinefeed term)
      (guacTerminalLinefeed term).cursorRow 0) (guacTerminalLinefeed term)
  refine showsAlike_ite (showsAlike_of_withStatics fun _ => rfl) ?_
  refine showsAlike_ite (showsAlike_of_withStatics fun _ => rfl) ?_
  refine showsAlike_ite (showsAlike_of_withStatics fun _ => rfl) ?_
  refine showsAlike_ite (showsAlike_of_withStatics fun _ => rfl) ?_
  refine showsAlike_ite (showsAlike_of_withStatics fun _ => rfl) ?_
  refine showsAlike_ite (showsAlike_of_withStatics fun _ => rfl) ?_
  have hmapping : ∀ statics, (term.withStatics statics).activeMapping=term.activeMapping :=
    fun _ => rfl
  unfold ShowsAlike
  simp only [hmapping]
  cases term.activeMapping with
  | none =>
    exact ⟨displayCharacter env term codepoint,id,fun statics =>
      displayCharacter_withStatics term statics env codepoint⟩
  | some mapping =>
    dsimp only
    generalize (if codepoint≤0xFF then env.charTable mapping (codepoint-0x20)
      else codepoint)=mapped
    refine ⟨displayCharacter env term mapped,fun _ => mapped,fun statics => ?_⟩
    exact Eq.trans (congrArg (displayCharacter env · mapped) rfl)
      (displayCharacter_withStatics term { statics with codepoint := mapped } env mapped)

/-- What guac_terminal_echo does with a byte that is not kept from the screen. -/
def echoByte (env : TerminalEnv) (term : GuacTerminal) (c : UInt8) : GuacTerminal :=
  let decoded := decodeByte term.activeMapping term.statics.codepoint term.statics.bytesRemaining c
  let term := { term with
    statics := { term.statics with codepoint := decoded.1, bytesRemaining := decoded.2 } }
  if decoded.2≠0 then term else echoCodepoint env term decoded.1

/-- The static variables once a byte is decoded. -/
def HandlerStatics.decoded (statics : HandlerStatics) (decoded : ℤ×ℤ) : HandlerStatics :=
  { statics with codepoint := decoded.1, bytesRemaining := decoded.2 }

/-- A byte that does not complete a character is remembered only. -/
theorem echoByte_more {c : UInt8} {decoded : ℤ×ℤ}
    (hdecoded : decodeByte term.activeMapping term.statics.codepoint term.statics.bytesRemaining c=
      decoded) (hmore : decoded.2≠0) :
    echoByte env term c=term.withStatics (term.statics.decoded decoded) := by
  subst hdecoded
  exact if_pos hmore

/-- A byte that completes a character is echoed as its code point. -/
theorem echoByte_complete {c : UInt8} {decoded : ℤ×ℤ}
    (hdecoded : decodeByte term.activeMapping term.statics.codepoint term.statics.bytesRemaining c=
      decoded) (hcomplete : decoded.2=0) :
    echoByte env term c=
      echoCodepoint env (term.withStatics (term.statics.decoded decoded)) decoded.1 := by
  subst hdecoded
  exact if_neg (not_not.mpr hcomplete)

theorem echoByte_sameParsing (hsame : SameParsing term.statics statics) (c : UInt8) :
    ∃ statics', echoByte env (term.withStatics statics) c=
        (echoByte env term c).withStatics statics' ∧
      SameParsing (echoByte env term c).statics statics' := by
  obtain ⟨codepoint,colorSpec,rfl,hdecoding,hcolor⟩ := hsame
  obtain ⟨hremaining,hdecoded,hcomplete⟩ := hdecoding.decodeByte term.activeMapping c
  generalize hfirst : decodeByte term.activeMapping term.statics.codepoint
    term.statics.bytesRemaining c=decoded at hremaining hdecoded hcomplete
  generalize hsecond : decodeByte term.activeMapping codepoint term.statics.bytesRemaining c=
    decoded' at hremaining hdecoded hcomplete
  have hother : decodeByte
      (term.withStatics (term.statics.leaving codepoint colorSpec)).activeMapping
      (term.withStatics (term.statics.leaving codepoint colorSpec)).statics.codepoint
      (term.withStatics (term.statics.leaving codepoint colorSpec)).statics.bytesRemaining c=
      decoded' := hsecond
  by_cases hmore : decoded.2≠0
  · rw [echoByte_more hfirst hmore,echoByte_more hother (hremaining.trans_ne hmore)]
    refine ⟨_,rfl,decoded'.1,colorSpec,?_,hdecoded,hcolor⟩
    simp only [HandlerStatics.decoded,HandlerStatics.leaving,GuacTerminal.withStatics,hremaining]
  · obtain ⟨shown,kept,hshown⟩ := echoCodepoint_showsAlike env term decoded.1
    have hzero := not_not.mp hmore
    have hshown' : ∀ statics, echoCodepoint env (term.withStatics statics) decoded.1=
      shown.withStatics { statics with codepoint := kept statics.codepoint } := hshown
    rw [echoByte_complete hfirst hzero,echoByte_complete hother (hremaining.trans hzero),
      hcomplete hzero,withStatics_withStatics,hshown',hshown']
    refine ⟨_,rfl,kept decoded'.1,colorSpec,?_,?_,hcolor⟩
    · simp only [HandlerStatics.decoded,HandlerStatics.leaving,GuacTerminal.withStatics,hremaining]
    · show SameDecoding decoded.2 _ _
      rw [hzero]
      exact sameDecoding_zero _ _

/-- A byte for the pipe stream, if one is open. -/
def pipedByte (term : GuacTerminal) (c : UInt8) : GuacTerminal :=
  if term.pipeStream && decide (c≠0x1B) then guacTerminalPipeStreamWrite term c else term

theorem pipedByte_withStatics (term : GuacTerminal) (statics : HandlerStatics) (c : UInt8) :
    pipedByte (term.withStatics statics) c=(pipedByte term c).withStatics statics := by
  unfold pipedByte
  rw [pipeStreamWrite_withStatics]
  exact withStatics_ite statics _ term

theorem pipedByte_statics (term : GuacTerminal) (c : UInt8) :
    (pipedByte term c).statics=term.statics :=
  statics_eq_of_withStatics (pipedByte_withStatics term term.statics c)

theorem pipedByte_charHandler (term : GuacTerminal) (c : UInt8) :
    (pipedByte term c).charHandler=term.charHandler := by
  unfold pipedByte guacTerminalPipeStreamWrite guacTerminalPipeStreamFlush
  dsimp only
  split_ifs
  all_goals rfl

/-- A byte goes to the pipe, and is echoed unless that is all. -/
theorem echo_piped (env : TerminalEnv) (term : GuacTerminal) (c : UInt8) :
    guacTerminalEcho env term c=
      if (term.pipeStream && decide (c≠0x1B)) ∧ (pipedByte term c).pipeStreamFlags%2≠1 then
        pipedByte term c
      else echoByte env (pipedByte term c) c := rfl

/-- The echo of a byte keeps the parsing the same. -/
theorem echo_sameParsing (hsame : SameParsing term.statics statics) (c : UInt8) :
    ∃ statics', guacTerminalEcho env (term.withStatics statics) c=
        (guacTerminalEcho env term c).withStatics statics' ∧
      SameParsing (guacTerminalEcho env term c).statics statics' := by
  rw [echo_piped,echo_piped,pipedByte_withStatics]
  have hstream : (term.withStatics statics).pipeStream=term.pipeStream := rfl
  have hflags : ((pipedByte term c).withStatics statics).pipeStreamFlags=
      (pipedByte term c).pipeStreamFlags := rfl
  rw [←pipedByte_statics term c] at hsame
  rw [hstream,hflags]
  split_ifs
  · exact ⟨statics,rfl,hsame⟩
  · exact echoByte_sameParsing hsame c

/-! ## Effects of bytes -/

/-- What the handlers send or pass on, besides what they change in the terminal. -/
inductive TerminalOutput
  /-- guac_terminal_send_string or guac_terminal_sendf, to the program in the terminal. -/
  | reply (string : List UInt8)
  /-- guac_protocol_send_name. -/
  | name (title : List UInt8)
  /-- The upload_path_handler, if there is one. -/
  | uploadPath (path : List UInt8)
  /-- The file_download_handler, if there is one. -/
  | fileDownload (filename : List UInt8)
  deriving DecidableEq

/-- GUAC_TERMINAL_VT102_ID. -/
def terminalVt102Id : List UInt8 := 0x1B::ascii "[?6c"

/-- GUAC_TERMINAL_ANSWERBACK. -/
def terminalAnswerback : List UInt8 := ascii "GUACAMOLE"

/-- GUAC_TERMINAL_OK. -/
def terminalOk : List UInt8 := 0x1B::ascii "[0n"

/-- The cursor position report of guac_terminal_csi. -/
def cursorPositionReport (term : GuacTerminal) : List UInt8 :=
  0x1B::ascii "[" ++ decimalInt (term.cursorRow+1)++ascii ";" ++
    decimalInt (term.cursorCol+1)++ascii "R"

/-- The replies of guac_terminal_csi, once the last parameter is finished. -/
def csiReply (term : GuacTerminal) (statics : HandlerStatics) (c : UInt8) : List TerminalOutput :=
  let first := statics.argv.getD 0 0
  if statics.privateModeCharacter≠0 then []
  else if c=0x63 ∧ first=0 then [.reply terminalVt102Id]
  else if c=0x6E ∧ first=5 then [.reply terminalOk]
  else if c=0x6E ∧ first=6 then [.reply (cursorPositionReport term)]
  else []

/-- What the handler of the terminal sends or passes on for a byte. -/
def terminalOutput (term : GuacTerminal) (c : UInt8) : List TerminalOutput :=
  match term.charHandler with
  | .echo =>
    if (term.pipeStream && decide (c≠0x1B)) ∧ (pipedByte term c).pipeStreamFlags%2≠1 then []
    else if decodeByte term.activeMapping term.statics.codepoint term.statics.bytesRemaining c=
      (0x05,0) then [.reply terminalAnswerback]
    else []
  | .escape => if c=0x5A then [.reply terminalVt102Id] else []
  | .csi => csiReply term term.statics.finishParameter c
  | .download => if IsStringTerminator c then [.fileDownload term.statics.downloadFilename] else []
  | .setDirectory => if IsStringTerminator c then [.uploadPath term.statics.uploadFilename] else []
  | .windowTitle => if IsStringTerminator c then [.name term.statics.title] else []
  | _ => []

/-- What is sent or passed on for one byte after the other. -/
def terminalOutputs (env : TerminalEnv) : GuacTerminal→List UInt8→List TerminalOutput
  | _, [] => []
  | term, c::cs => terminalOutput term c++terminalOutputs env (handleChar env term c) cs

/-- Every stream of bytes has the same effect on two terminals, but for the static
variables. -/
def SameEffect (env : TerminalEnv) (term term' : GuacTerminal) : Prop :=
  ∀ cs, (guacTerminalWrite env term' cs).withStatics .initial=
      (guacTerminalWrite env term cs).withStatics .initial ∧
    terminalOutputs env term' cs=terminalOutputs env term cs

/-- Every byte keeps the parsing the same. -/
theorem handleChar_sameParsing (hsame : SameParsing term.statics statics) (c : UInt8) :
    ∃ statics', handleChar env (term.withStatics statics) c=
        (handleChar env term c).withStatics statics' ∧
      SameParsing (handleChar env term c).statics statics' := by
  have hhandler : (term.withStatics statics).charHandler=term.charHandler := rfl
  unfold handleChar
  rw [hhandler]
  cases term.charHandler with
  | echo => exact echo_sameParsing hsame c
  | escape => exact (escape_passesBy term c).sameParsing hsame
  | g0Charset => exact (g0Charset_passesBy term c).sameParsing hsame
  | g1Charset => exact (g1Charset_passesBy term c).sameParsing hsame
  | csi => exact (csi_passesBy term c).sameParsing hsame
  | osc => exact (osc_passesBy term c).sameParsing hsame
  | download => exact (download_passesBy term c).sameParsing hsame
  | setDirectory => exact (setDirectory_passesBy term c).sameParsing hsame
  | openPipeStream => exact (openPipeStream_passesBy term c).sameParsing hsame
  | closePipeStream => exact (closePipeStream_passesBy term c).sameParsing hsame
  | setScrollback => exact (setScrollback_passesBy term c).sameParsing hsame
  | windowTitle => exact (windowTitle_passesBy term c).sameParsing hsame
  | xtermPalette => exact xtermPalette_sameParsing hsame c
  | ctrlFunc => exact (ctrlFunc_passesBy term c).sameParsing hsame
  | apc => exact (apc_passesBy term c).sameParsing hsame

theorem terminalOutput_sameParsing (hsame : SameParsing term.statics statics) (c : UInt8) :
    terminalOutput (term.withStatics statics) c=terminalOutput term c := by
  obtain ⟨codepoint,colorSpec,rfl,hdecoding,-⟩ := hsame
  have hhandler : (term.withStatics (term.statics.leaving codepoint colorSpec)).charHandler=
    term.charHandler := rfl
  unfold terminalOutput
  rw [hhandler]
  cases term.charHandler with
  | echo =>
    obtain ⟨hremaining,-,hcomplete⟩ := hdecoding.decodeByte term.activeMapping c
    have hdecoded : decodeByte term.activeMapping codepoint term.statics.bytesRemaining c=
        (0x05,0) ↔ decodeByte term.activeMapping term.statics.codepoint
          term.statics.bytesRemaining c=(0x05,0) := by
      rw [Prod.ext_iff,Prod.ext_iff,hremaining]
      exact and_congr_left fun hzero => by rw [hcomplete hzero]
    rw [pipedByte_withStatics]
    exact if_congr Iff.rfl rfl (if_congr hdecoded rfl rfl)
  | csi =>
    show csiReply _ (HandlerStatics.finishParameter (term.statics.leaving codepoint colorSpec)) c=_
    rw [finishParameter_leaving]
    rfl
  | _ => rfl

/-- From the same parsing on everything has the same effect. -/
theorem sameEffect_of_sameParsing (hsame : SameParsing term.statics statics) :
    SameEffect env term (term.withStatics statics) := by
  intro cs
  induction cs generalizing term statics with
  | nil => exact ⟨rfl,rfl⟩
  | cons c cs ih =>
    obtain ⟨statics',hhandled,hsame'⟩ := handleChar_sameParsing hsame c
    obtain ⟨hwritten,houtputs⟩ := ih hsame'
    rw [←hhandled] at hwritten houtputs
    refine ⟨hwritten,?_⟩
    rw [terminalOutputs,terminalOutputs,terminalOutput_sameParsing hsame,houtputs]

end GuacServer.Terminal
