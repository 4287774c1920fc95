import GuacServer.Scrollbar
import GuacServer.TerminalBounds
import GuacServer.TerminalScroll

/-!
# The bounds of the scrollbar

Scroll offset and scrollbar agree, and what is done to the terminal either keeps
it so or not: for each operation there is a condition on the terminal before under
which it does, and no other.
-/

namespace GuacServer.Terminal

open DecimalNumerals UserHandlers

/-- The value of the scrollbar is that of the scroll offset. -/
structure OffsetAgrees (area : ℤ) (term : GuacTerminal) : Prop where
  nonneg : 0≤term.scrollOffset
  lt : term.scrollOffset<2^31
  value : term.scrollbarValue = -term.scrollOffset
  height : term.termHeight=area

/-- The scrollbar and the scrollback agree with the scroll offset. -/
structure ScrollGood (area : ℤ) (term : GuacTerminal) : Prop extends OffsetAgrees area term where
  offset_le : term.scrollOffset ≤ max 0 (guacTerminalAvailableScroll term)
  max_eq : term.scrollbarMax=0
  min_le : term.scrollbarMin ≤ -term.scrollOffset
  neg_min_le : -term.scrollbarMin ≤ max 0 (guacTerminalAvailableScroll term)
  rows_ne : area-term.scrollbarMin≠0

/-- What the scroll offset and the scrollbar alone say of it. -/
structure ScrollSound (area : ℤ) (term : GuacTerminal) : Prop where
  nonneg : 0≤term.scrollOffset
  value : term.scrollbarValue = -term.scrollOffset
  min_le : term.scrollbarMin≤term.scrollbarValue
  le_max : term.scrollbarValue≤term.scrollbarMax
  rows_ne : term.scrollDelta+area≠0

/-- The terminal is good under the condition, and not even sound under any other. -/
structure Exactly (area : ℤ) (P : Prop) (term : GuacTerminal) : Prop where
  good : P→ScrollGood area term
  only : ScrollSound area term→P

section

variable {area : ℤ} {P : Prop} {term term' : GuacTerminal}

theorem ScrollGood.scrollDelta_eq (h : ScrollGood area term) :
    term.scrollDelta = -term.scrollbarMin := by
  have hmin := h.min_le
  have hoffset := h.nonneg
  unfold GuacTerminal.scrollDelta
  rw [h.max_eq]
  split_ifs <;> omega

theorem OffsetAgrees.keeps (h : OffsetAgrees area term) (hkeeps : KeepsScroll term term') :
    OffsetAgrees area term' where
  nonneg := h.nonneg.trans_eq hkeeps.offset.symm
  lt := hkeeps.offset.trans_lt h.lt
  value := by rw [hkeeps.value,hkeeps.offset,h.value]
  height := hkeeps.height.trans h.height

theorem ScrollGood.keeps (h : ScrollGood area term) (hkeeps : KeepsScroll term term') :
    ScrollGood area term' where
  toOffsetAgrees := h.toOffsetAgrees.keeps hkeeps
  offset_le := hkeeps.offset.trans_le (h.offset_le.trans (max_le_max_left 0 hkeeps.available_le))
  max_eq := hkeeps.max.trans h.max_eq
  min_le := by
    rw [hkeeps.min,hkeeps.offset]
    exact h.min_le
  neg_min_le := by
    rw [hkeeps.min]
    exact h.neg_min_le.trans (max_le_max_left 0 hkeeps.available_le)
  rows_ne := by
    rw [hkeeps.min]
    exact h.rows_ne

theorem KeepsScroll.scrollDelta_eq (hkeeps : KeepsScroll term term') :
    term'.scrollDelta=term.scrollDelta := by
  unfold GuacTerminal.scrollDelta
  rw [hkeeps.min,hkeeps.max]

theorem ScrollSound.of_keeps (h : ScrollSound area term') (hkeeps : KeepsScroll term term') :
    ScrollSound area term where
  nonneg := h.nonneg.trans_eq hkeeps.offset
  value := by rw [←hkeeps.value,←hkeeps.offset,h.value]
  min_le := by
    rw [←hkeeps.min,←hkeeps.value]
    exact h.min_le
  le_max := by
    rw [←hkeeps.max,←hkeeps.value]
    exact h.le_max
  rows_ne := by
    rw [←hkeeps.scrollDelta_eq]
    exact h.rows_ne

/-- What does not scroll leaves it at the condition. -/
theorem Exactly.keeps (h : Exactly area P term) (hkeeps : KeepsScroll term term') :
    Exactly area P term' where
  good hP := (h.good hP).keeps hkeeps
  only hsound := h.only (hsound.of_keeps hkeeps)

theorem exactly_of_good (h : ScrollGood area term) (hP : P) : Exactly area P term :=
  ⟨fun _ => h,fun _ => hP⟩

/-- Where the condition is for one case only, and this is the case. -/
theorem Exactly.of_case {C : Prop} (h : Exactly area P term) (hC : C) : Exactly area (C→P) term :=
  ⟨fun hP => h.good (hP hC),fun hsound _ => h.only hsound⟩

/-- The terminal is good in each other case. -/
theorem exactly_of_not {C : Prop} (h : ScrollGood area term) (hnot : ¬C) :
    Exactly area (C→P) term :=
  exactly_of_good h fun hC => absurd hC hnot

end

/-! ## Scrolling -/

section

variable {area : ℤ} {term : GuacTerminal}

/-- What can be scrolled covers the scroll offset, and not exactly the rows that the
display lacks. -/
def BoundsFit (term : GuacTerminal) : Prop :=
  term.scrollOffset≤guacTerminalAvailableScroll term ∧
    guacTerminalAvailableScroll term+term.termHeight≠0

instance (term : GuacTerminal) : Decidable (BoundsFit term) := inferInstanceAs (Decidable (_ ∧ _))

/-- The value is fitted to the bounds that are set. -/
theorem setBounds_value (h : OffsetAgrees area term) :
    (guacTerminalScrollbarSetBounds term (-guacTerminalAvailableScroll term) 0).scrollbarValue=
      if term.scrollOffset > guacTerminalAvailableScroll term then
        -guacTerminalAvailableScroll term
      else -term.scrollOffset := by
  have hnonneg := h.nonneg
  have hvalue := h.value
  unfold guacTerminalScrollbarSetBounds
  dsimp only
  split_ifs <;> omega

/-- The bounds of the scrollbar are set to what can be scrolled. -/
theorem exactly_setBounds (h : OffsetAgrees area term) : Exactly area (BoundsFit term)
      (guacTerminalScrollbarSetBounds term (-guacTerminalAvailableScroll term) 0) := by
  have hnonneg := h.nonneg
  have hheight := h.height
  have hclamped := setBounds_value h
  constructor
  · rintro ⟨hle,hne⟩
    rw [if_neg (not_lt.mpr hle)] at hclamped
    refine ⟨⟨hnonneg,h.lt,hclamped,hheight⟩,le_max_of_le_right hle,rfl,?_,?_,?_⟩
    · exact neg_le_neg hle
    · exact (neg_neg _).trans_le (le_max_right 0 _)
    · show area - -guacTerminalAvailableScroll term≠0
      omega
  · intro hsound
    have hmin : -guacTerminalAvailableScroll term ≤ -term.scrollOffset :=
      hsound.min_le.trans_eq hsound.value
    have hle := neg_le_neg_iff.mp hmin
    refine ⟨hle,fun hzero => hsound.rows_ne ?_⟩
    show (if 0 > -guacTerminalAvailableScroll term then
      0 - -guacTerminalAvailableScroll term else 0)+area=0
    split_ifs <;> omega

/-- Scrolling the entire display up lets as much be scrolled as there is then. -/
def ScrollFits (term : GuacTerminal) (startRow endRow amount : ℤ) : Prop :=
  startRow=0 ∧ endRow=term.termHeight-1 →
    BoundsFit { term with buffer := advanceBuffer term.buffer amount }

instance (term : GuacTerminal) (startRow endRow amount : ℤ) :
    Decidable (ScrollFits term startRow endRow amount) := inferInstanceAs (Decidable (_ → _))

theorem exactly_scrolledUp (h : ScrollGood area term) (startRow endRow amount : ℤ) :
    Exactly area (ScrollFits term startRow endRow amount)
      (scrolledUp term startRow endRow amount) := by
  unfold scrolledUp
  refine iteInduction (fun hall => ?_) fun hpart => ?_
  · have hadvanced : OffsetAgrees area { term with
        display := guacTerminalDisplayCopyRows term.display (wrap32 (startRow+amount)) endRow
          (wrap32 (-amount))
        buffer := advanceBuffer term.buffer amount } := ⟨h.nonneg,h.lt,h.value,h.height⟩
    have hfits : Exactly area (ScrollFits term startRow endRow amount) _ :=
      (exactly_setBounds hadvanced).of_case hall
    refine (hfits.keeps ?_).keeps (iteInduction (fun _ => ⟨rfl,le_rfl⟩) fun _ => KeepsScroll.refl _)
    exact iteInduction (fun _ => ⟨rfl,le_rfl⟩) fun _ => KeepsScroll.refl _
  · exact exactly_of_not (h.keeps (keepsScroll.copyRows ..)) hpart

theorem exactly_scrollUp (h : ScrollGood area term) (startRow endRow amount : ℤ) :
    Exactly area (ScrollFits term startRow endRow amount)
      (guacTerminalScrollUp term startRow endRow amount) := by
  rw [scrollUp_eq]
  exact (exactly_scrolledUp h startRow endRow amount).keeps (keepsScroll.clearRange ..)

/-- A linefeed in the last row of the scrolling region scrolls it up. -/
def LinefeedFits (term : GuacTerminal) : Prop :=
  term.cursorRow=term.scrollEnd→ScrollFits term term.scrollStart term.scrollEnd 1

instance (term : GuacTerminal) : Decidable (LinefeedFits term) :=
  inferInstanceAs (Decidable (_ → _))

theorem exactly_linefeed (h : ScrollGood area term) :
    Exactly area (LinefeedFits term) (guacTerminalLinefeed term) := by
  unfold guacTerminalLinefeed
  refine iteInduction (fun hend => ?_) fun hother => ?_
  · exact (exactly_scrollUp h term.scrollStart term.scrollEnd 1).of_case hend
  · refine exactly_of_not (h.keeps ?_) hother
    exact iteInduction (fun _ => ⟨rfl,le_rfl⟩) fun _ => KeepsScroll.refl _

/-- Nothing is scrolled, nor can be. -/
theorem exactly_unscrolled (hoffset : term.scrollOffset=0) (hvalue : term.scrollbarValue=0)
    (hmin : term.scrollbarMin=0) (hmax : term.scrollbarMax=0)
    (hheight : term.termHeight=area) : Exactly area (area≠0) term := by
  constructor
  · intro hrows
    refine ⟨⟨hoffset.ge,hoffset.trans_lt (by decide),?_,hheight⟩,?_,hmax,?_,?_,?_⟩
    · rw [hvalue,hoffset,neg_zero]
    · rw [hoffset]
      exact le_max_left ..
    · rw [hmin,hoffset,neg_zero]
    · rw [hmin,neg_zero]
      exact le_max_left ..
    · rw [hmin,sub_zero]
      exact hrows
  · intro hsound hrows
    refine hsound.rows_ne ?_
    unfold GuacTerminal.scrollDelta
    rw [hmin,hmax,hrows]
    rfl

/-- A reset leaves the height, and what is scrolled is gone. -/
theorem reset_unscrolled (term : GuacTerminal) :
    ∃ base : GuacTerminal, KeepsScroll base (guacTerminalReset term) ∧
      (base.scrollOffset=0 ∧ base.scrollbarValue=0) ∧
      (base.scrollbarMin=0 ∧ base.scrollbarMax=0) ∧ base.termHeight=term.termHeight := by
  unfold guacTerminalReset
  refine ⟨_,keepsScroll.forTo (fun _ _ => keepsScroll.setColumns ..) ..,?_⟩
  exact ⟨⟨rfl,rfl⟩,⟨rfl,rfl⟩,rfl⟩

theorem exactly_reset (term : GuacTerminal) :
    Exactly term.termHeight (term.termHeight≠0) (guacTerminalReset term) := by
  obtain ⟨base,hkeeps,⟨hoffset,hvalue⟩,⟨hmin,hmax⟩,hheight⟩ := reset_unscrolled term
  exact (exactly_unscrolled hoffset hvalue hmin hmax hheight).keeps hkeeps

/-! ## Printed characters -/

theorem exactly_displayCharacter (h : ScrollGood area term) (env : TerminalEnv) (codepoint : ℤ) :
    Exactly area (term.cursorCol≥term.termWidth→LinefeedFits term)
      (displayCharacter env term codepoint) := by
  have hwrapped : Exactly area (term.cursorCol≥term.termWidth→LinefeedFits term)
      (wrapCursor term) := by
    refine iteInduction (fun hcol => ?_) fun hcol => exactly_of_not h hcol
    have hmoved : ScrollGood area { term with cursorCol := 0 } := h.keeps ⟨rfl,le_rfl⟩
    exact (exactly_linefeed hmoved).of_case hcol
  have hinserted : KeepsScroll (wrapCursor term) (if (wrapCursor term).insertMode then
      guacTerminalCopyColumns (wrapCursor term) (wrapCursor term).cursorRow
        (wrapCursor term).cursorCol ((wrapCursor term).termWidth-2) 1
      else wrapCursor term) :=
    iteInduction (fun _ => keepsScroll.copyColumns ..) fun _ => KeepsScroll.refl _
  exact ((hwrapped.keeps hinserted).keeps (keepsScroll.set ..)).keeps ⟨rfl,le_rfl⟩

/-- A control code scrolls as far as it is a line feed. -/
theorem exactly_echoCodepoint (h : ScrollGood area term) (env : TerminalEnv) {codepoint : ℤ}
    (hcontrol : IsControl codepoint) :
    Exactly area (IsLinefeed codepoint→LinefeedFits term) (echoCodepoint env term codepoint) := by
  have hother : ∀ {term' : GuacTerminal}, ¬IsLinefeed codepoint→KeepsScroll term term' →
      Exactly area (IsLinefeed codepoint→LinefeedFits term) term' := fun hnot hkeeps =>
    exactly_of_not (h.keeps hkeeps) hnot
  unfold IsControl at hcontrol
  unfold IsLinefeed at hother ⊢
  unfold echoCodepoint
  refine iteInduction (fun hc => hother (by omega) (KeepsScroll.refl term)) fun _ => ?_
  refine iteInduction (fun hc => hother (by omega) ⟨rfl,le_rfl⟩) fun _ => ?_
  refine iteInduction (fun hc => hother (by omega) ⟨rfl,le_rfl⟩) fun _ => ?_
  refine iteInduction (fun hfeed => ?_) fun hnot => ?_
  · have hfits : Exactly area (codepoint=0x0A ∨ codepoint=0x0B ∨ codepoint=0x0C →
        LinefeedFits term) (guacTerminalLinefeed term) := (exactly_linefeed h).of_case hfeed
    exact iteInduction (fun _ => hfits.keeps ⟨rfl,le_rfl⟩) fun _ => hfits
  refine iteInduction (fun _ => hother hnot ⟨rfl,le_rfl⟩) fun _ => ?_
  refine iteInduction (fun _ => hother hnot ⟨rfl,le_rfl⟩) fun _ => ?_
  refine iteInduction (fun _ => hother hnot ⟨rfl,le_rfl⟩) fun _ => ?_
  refine iteInduction (fun _ => hother hnot ⟨rfl,le_rfl⟩) fun _ => ?_
  refine iteInduction (fun _ => hother hnot ⟨rfl,le_rfl⟩) fun _ => ?_
  exact iteInduction (fun _ => hother hnot (KeepsScroll.refl term)) fun _ => by omega

/-- The byte completes a line feed, or a character that wraps. -/
def EchoFits (env : TerminalEnv) (term : GuacTerminal) (c : UInt8) : Prop :=
  FeedsLine term c ∨ ((shownCodepoint env term c).isSome ∧ term.cursorCol≥term.termWidth) →
    LinefeedFits term

instance (env : TerminalEnv) (term : GuacTerminal) (c : UInt8) :
    Decidable (EchoFits env term c) := inferInstanceAs (Decidable (_ → _))

theorem exactly_echo (h : ScrollGood area term) (env : TerminalEnv) {c : UInt8}
    (hhandler : term.charHandler=.echo) :
    Exactly area (EchoFits env term c) (guacTerminalEcho env term c) := by
  cases hcodepoint : shownCodepoint env term c with
  | none =>
    obtain ⟨pipeBuffer,pipeSent,statics,-,heq⟩ := echo_eq env term c
    have hechoed : ScrollGood area (term.withEcho pipeBuffer pipeSent statics) :=
      h.keeps ⟨rfl,le_rfl⟩
    have hfits : EchoFits env term c ↔ (FeedsLine term c→LinefeedFits term) := by
      rw [EchoFits,hcodepoint,Option.isSome_none]
      simp only [Bool.false_eq_true,false_and,or_false]
    rw [hfits,heq]
    refine iteInduction (fun hpiped => ?_) fun hpiped => ?_
    · exact exactly_of_good hechoed fun hfeeds => absurd hpiped hfeeds.2.1
    · rw [shownCodepoint] at hcodepoint
      split_ifs at hcodepoint with hnone
      have hcontrol := (hnone.resolve_left (not_not.mpr hhandler)).resolve_left hpiped
      have hfed := exactly_echoCodepoint hechoed env hcontrol
      exact ⟨fun hP => hfed.good fun hfeed => hP ⟨hhandler,hpiped,hfeed⟩,
        fun hsound hfeeds => hfed.only hsound hfeeds.2.2⟩
  | some codepoint =>
    obtain ⟨-,pipeBuffer,pipeSent,statics,-,heq⟩ := echo_of_some hcodepoint
    have hechoed : ScrollGood area (term.withEcho pipeBuffer pipeSent statics) :=
      h.keeps ⟨rfl,le_rfl⟩
    have hshown := exactly_displayCharacter hechoed env codepoint
    have hnot : ¬FeedsLine term c := by
      rintro ⟨-,-,hfeed⟩
      rw [shownCodepoint] at hcodepoint
      split_ifs at hcodepoint with hnone
      unfold IsControl at hnone
      unfold IsLinefeed at hfeed
      omega
    rw [heq]
    refine ⟨fun hP => hshown.good fun hcol => hP (Or.inr ⟨by rw [hcodepoint]; rfl,hcol⟩),?_⟩
    rintro hsound (hfeeds | ⟨-,hcol⟩)
    · exact absurd hfeeds hnot
    · exact hshown.only hsound hcol

/-! ## Sequences -/

/-- What a byte after ESC scrolls or resets. -/
def EscapeFits (term : GuacTerminal) (c : UInt8) : Prop :=
  match Char.ofNat c.toNat with
  | 'D' => LinefeedFits term
  | 'E' => LinefeedFits (guacTerminalMoveCursor term term.cursorRow 0)
  | 'c' => term.termHeight≠0
  | _ => True

theorem exactly_escape (h : ScrollGood area term) (c : UInt8) :
    Exactly area (EscapeFits term c) (guacTerminalEscape term c) := by
  unfold EscapeFits guacTerminalEscape
  generalize Char.ofNat c.toNat=character
  split
  · exact (exactly_linefeed h).keeps ⟨rfl,le_rfl⟩
  · have hmoved : ScrollGood area (guacTerminalMoveCursor term term.cursorRow 0) :=
      h.keeps ⟨rfl,le_rfl⟩
    exact (exactly_linefeed hmoved).keeps ⟨rfl,le_rfl⟩
  · rw [←h.height]
    exact exactly_reset term
  · refine exactly_of_good ?_ trivial
    split
    case h_10 => exact h.keeps ((keepsScrollHandlers.setTab term term.cursorCol).trans ⟨rfl,le_rfl⟩)
    case h_11 => exact h.keeps ((keepsScrollHandlers.reverseLinefeed term).trans ⟨rfl,le_rfl⟩)
    all_goals first | contradiction | exact h.keeps ⟨rfl,le_rfl⟩

/-- What the final byte of a sequence scrolls: the deletion of lines in the first row. -/
def CsiFits (term : GuacTerminal) (c : UInt8) : Prop :=
  Char.ofNat c.toNat = 'M' →
    ScrollFits term term.cursorRow term.scrollEnd term.statics.finishParameter.amount

instance (term : GuacTerminal) (c : UInt8) : Decidable (CsiFits term c) :=
  inferInstanceAs (Decidable (_ → _))

theorem exactly_csi (h : ScrollGood area term) (c : UInt8) :
    Exactly area (CsiFits term c) (guacTerminalCsi term c) := by
  by_cases hM : Char.ofNat c.toNat = 'M'
  · have hfinished : ScrollGood area { term with statics := term.statics.finishParameter } :=
      h.keeps ⟨rfl,le_rfl⟩
    have hfits : Exactly area (CsiFits term c) _ := (exactly_scrollUp hfinished term.cursorRow
      term.scrollEnd term.statics.finishParameter.amount).of_case hM
    have hc : c=0x4D := UInt8.toNat_inj.mp (toNat_of_char hM)
    have hcsi : guacTerminalCsi term c = { guacTerminalScrollUp
          { term with statics := term.statics.finishParameter } term.cursorRow term.scrollEnd
          term.statics.finishParameter.amount with
        charHandler := .echo
        statics := (guacTerminalScrollUp
          { term with statics := term.statics.finishParameter } term.cursorRow term.scrollEnd
          term.statics.finishParameter.amount).statics.endSequence } := by
      rw [hc]
      rfl
    rw [hcsi]
    exact hfits.keeps ⟨rfl,le_rfl⟩
  · exact exactly_of_not (h.keeps (keepsScrollHandlers.csi term fun _ h => absurd h hM)) hM

/-- The scrollback that the parameter asks for covers the scroll offset. -/
def ScrollbackFits (term : GuacTerminal) (c : UInt8) : Prop :=
  IsStringTerminator c →
    BoundsFit { term with requestedScrollback := atoi term.statics.scrollbackParam }

instance (term : GuacTerminal) (c : UInt8) : Decidable (ScrollbackFits term c) :=
  inferInstanceAs (Decidable (_ → _))

theorem exactly_setScrollback (h : ScrollGood area term) (c : UInt8) :
    Exactly area (ScrollbackFits term c) (guacTerminalSetScrollback term c) := by
  refine iteInduction (fun hends => ?_) fun hgoes => ?_
  · have hrequested : OffsetAgrees area { term with
        requestedScrollback := atoi term.statics.scrollbackParam } :=
      ⟨h.nonneg,h.lt,h.value,h.height⟩
    have hfits : Exactly area (ScrollbackFits term c) _ :=
      (exactly_setBounds hrequested).of_case hends
    exact hfits.keeps ⟨rfl,le_rfl⟩
  · exact exactly_of_not (h.keeps ⟨rfl,le_rfl⟩) hgoes

/-- What a byte scrolls, resets or sets leaves the scrollbar as it has to be. -/
def WriteFits (env : TerminalEnv) (term : GuacTerminal) (c : UInt8) : Prop :=
  match term.charHandler with
  | .echo => EchoFits env term c
  | .escape => EscapeFits term c
  | .csi => CsiFits term c
  | .setScrollback => ScrollbackFits term c
  | _ => True

theorem exactly_handleChar (h : ScrollGood area term) (env : TerminalEnv) (c : UInt8) :
    Exactly area (WriteFits env term c) (handleChar env term c) := by
  unfold WriteFits handleChar
  cases hhandler : term.charHandler with
  | echo => exact exactly_echo h env hhandler
  | escape => exact exactly_escape h c
  | csi => exact exactly_csi h c
  | setScrollback => exact exactly_setScrollback h c
  | osc =>
    refine exactly_of_good (h.keeps (iteInduction (fun _ => ⟨rfl,le_rfl⟩) fun _ => ?_)) trivial
    exact iteInduction (fun _ => ⟨rfl,le_rfl⟩) fun _ => ⟨rfl,le_rfl⟩
  | download =>
    exact exactly_of_good (h.keeps (iteInduction (fun _ => ⟨rfl,le_rfl⟩)
      fun _ => ⟨rfl,le_rfl⟩)) trivial
  | setDirectory =>
    exact exactly_of_good (h.keeps (iteInduction (fun _ => ⟨rfl,le_rfl⟩)
      fun _ => ⟨rfl,le_rfl⟩)) trivial
  | windowTitle =>
    exact exactly_of_good (h.keeps (iteInduction (fun _ => ⟨rfl,le_rfl⟩)
      fun _ => ⟨rfl,le_rfl⟩)) trivial
  | openPipeStream => exact exactly_of_good (h.keeps (keepsScroll_openPipeStream ..)) trivial
  | closePipeStream => exact exactly_of_good (h.keeps (keepsScroll_closePipeStream ..)) trivial
  | xtermPalette => exact exactly_of_good (h.keeps (keepsScrollHandlers.xtermPalette ..)) trivial
  | ctrlFunc => exact exactly_of_good (h.keeps (keepsScrollHandlers.ctrlFunc ..)) trivial
  | g0Charset => exact exactly_of_good (h.keeps ⟨rfl,le_rfl⟩) trivial
  | g1Charset => exact exactly_of_good (h.keeps ⟨rfl,le_rfl⟩) trivial
  | apc => exact exactly_of_good (h.keeps ⟨rfl,le_rfl⟩) trivial

/-! ## What the user scrolls -/

/-- A value within the bounds is taken as it is. -/
theorem setValue_eq {offset : ℤ} (hmax : term.scrollbarMax=0) (h0 : 0≤offset)
    (hmin : term.scrollbarMin ≤ -offset) :
    guacTerminalScrollbarSetValue term (-offset) = { term with scrollbarValue := -offset } := by
  unfold guacTerminalScrollbarSetValue
  rw [hmax,if_neg (by omega),if_neg (by omega)]

/-- The display is scrolled to another offset within the bounds. -/
theorem ScrollGood.scrollTo (h : ScrollGood area term) (offset : ℤ) (h0 : 0≤offset)
    (hlt : offset<2^31) (hle : offset ≤ max 0 (guacTerminalAvailableScroll term))
    (hmin : term.scrollbarMin ≤ -offset) (display : Display) :
    ScrollGood area (guacTerminalScrollbarSetValue
      { term with display := display, scrollOffset := offset } (-offset)) := by
  have hvalue : guacTerminalScrollbarSetValue
      { term with display := display, scrollOffset := offset } (-offset)=
      { term with display := display, scrollOffset := offset, scrollbarValue := -offset } :=
    setValue_eq h.max_eq h0 hmin
  rw [hvalue]
  exact ⟨⟨h0,hlt,rfl,h.height⟩,hle,h.max_eq,hmin,h.neg_min_le,h.rows_ne⟩

/-- Scrolling down ends at the offset zero. -/
theorem scrollGood_scrollDisplayDown (h : ScrollGood area term) (scrollAmount : ℤ) :
    ScrollGood area (guacTerminalScrollDisplayDown term scrollAmount) ∧
      (guacTerminalScrollDisplayDown term scrollAmount).scrollOffset=
        min term.scrollOffset (max 0 (term.scrollOffset-scrollAmount)) := by
  have hnonneg := h.nonneg
  have hlt := h.lt
  have hle := h.offset_le
  have hmin := h.min_le
  unfold guacTerminalScrollDisplayDown
  dsimp only
  generalize hamount : (if scrollAmount > term.scrollOffset then term.scrollOffset
    else scrollAmount)=amount
  have hoffset : term.scrollOffset-amount=max 0 (term.scrollOffset-scrollAmount) := by
    rw [←hamount]
    split_ifs <;> omega
  split
  · exact ⟨h,by omega⟩
  · have hscrolled := h.scrollTo (term.scrollOffset-amount) (by omega) (by omega)
      (by omega) (by omega)
    refine ⟨(hscrolled _).keeps (sameScroll.drawScrollback ..).keeps,?_⟩
    refine (sameScroll.drawScrollback ..).keeps.offset.trans ?_
    show term.scrollOffset-amount=_
    omega

/-- A user who scrolls back gets no further than the bounds of the scrollbar. -/
def ScrollUpFits (term : GuacTerminal) (scrollAmount : ℤ) : Prop :=
  term.scrollOffset+scrollAmount<2^31 ∧
    min (term.scrollOffset+scrollAmount) (guacTerminalAvailableScroll term) ≤ -term.scrollbarMin

instance (term : GuacTerminal) (scrollAmount : ℤ) : Decidable (ScrollUpFits term scrollAmount) :=
  inferInstanceAs (Decidable (_ ∧ _))

/-- A sum of two ints that is too great becomes negative. -/
theorem wrap32_neg {value : ℤ} (h0 : 2^31≤value) (h1 : value<2^32) : wrap32 value<0 := by
  unfold wrap32
  rw [Int.bmod_def]
  split_ifs <;> omega

/-- An amount to scroll up by is cut off at what can be scrolled. -/
theorem add_cutAmount (offset available scrollAmount : ℤ) :
    offset+(if offset+scrollAmount > available then available-offset else scrollAmount)=
      min (offset+scrollAmount) available := by
  split_ifs <;> omega

section

variable (h : ScrollGood area term) {scrollAmount : ℤ} (hint : IsInt scrollAmount)

include h hint

/-- Where scrolling up ends, unless the offset overflows. -/
theorem scrollDisplayUp_of_fits (hfits : ScrollUpFits term scrollAmount) :
    ScrollGood area (guacTerminalScrollDisplayUp term scrollAmount) ∧
      (guacTerminalScrollDisplayUp term scrollAmount).scrollOffset=max term.scrollOffset
        (min (term.scrollOffset+scrollAmount) (guacTerminalAvailableScroll term)) := by
  obtain ⟨hsum,hbounds⟩ := hfits
  obtain ⟨hlow,-⟩ := hint
  have hnonneg := h.nonneg
  unfold guacTerminalScrollDisplayUp
  dsimp only
  rw [wrap32_of_range (by omega) hsum]
  have hoffset := add_cutAmount term.scrollOffset (guacTerminalAvailableScroll term) scrollAmount
  generalize (if term.scrollOffset+scrollAmount > guacTerminalAvailableScroll term then
    guacTerminalAvailableScroll term-term.scrollOffset else scrollAmount)=amount at hoffset ⊢
  split
  · exact ⟨h,by omega⟩
  · rw [wrap32_of_range (by omega) (by omega)]
    have hscrolled := h.scrollTo (term.scrollOffset+amount) (by omega) (by omega)
      (by omega) (by omega)
    refine ⟨(hscrolled _).keeps (sameScroll.drawScrollback ..).keeps,?_⟩
    refine (sameScroll.drawScrollback ..).keeps.offset.trans ?_
    show term.scrollOffset+amount=_
    omega

/-- Beyond these bounds the offset and the value differ, or the offset overflows. -/
theorem scrollUpFits_of_sound
    (hsound : ScrollSound area (guacTerminalScrollDisplayUp term scrollAmount)) :
    ScrollUpFits term scrollAmount := by
  obtain ⟨hlow,hhigh⟩ := hint
  have hnonneg := h.nonneg
  have hlt := h.lt
  have hle := h.offset_le
  have hmin := h.min_le
  have hdrawn : ∀ {scrolled : GuacTerminal} {startRow endRow destRow : ℤ},
      ScrollSound area (drawScrollback startRow endRow destRow scrolled) →
        ScrollSound area scrolled :=
    fun hs => hs.of_keeps (sameScroll.drawScrollback ..).keeps
  unfold guacTerminalScrollDisplayUp at hsound
  dsimp only at hsound
  have hsum : term.scrollOffset+scrollAmount<2^31 := by
    by_contra hover
    have hneg := wrap32_neg (not_lt.mp hover) (by omega)
    rw [if_neg (by omega : ¬wrap32 (term.scrollOffset+scrollAmount) >
      guacTerminalAvailableScroll term),if_neg (by omega)] at hsound
    have hoffset : 0≤wrap32 (term.scrollOffset+scrollAmount) := (hdrawn hsound).nonneg
    omega
  refine ⟨hsum,?_⟩
  by_contra hbeyond
  rw [wrap32_of_range (by omega) hsum] at hsound
  have hoffset := add_cutAmount term.scrollOffset (guacTerminalAvailableScroll term) scrollAmount
  generalize (if term.scrollOffset+scrollAmount > guacTerminalAvailableScroll term then
    guacTerminalAvailableScroll term-term.scrollOffset else scrollAmount)=amount
    at hsound hoffset
  rw [if_neg (by omega),wrap32_of_range (by omega) (by omega)] at hsound
  have hvalue := (hdrawn hsound).value
  unfold guacTerminalScrollbarSetValue at hvalue
  dsimp only at hvalue
  rw [h.max_eq] at hvalue
  split_ifs at hvalue <;> omega

theorem exactly_scrollDisplayUp :
    Exactly area (ScrollUpFits term scrollAmount) (guacTerminalScrollDisplayUp term scrollAmount) :=
  ⟨fun hfits => (scrollDisplayUp_of_fits h hint hfits).1,scrollUpFits_of_sound h hint⟩

end

/-- The scrollbar is dragged to a value within its bounds. -/
theorem scrollGood_scrollHandler (h : ScrollGood area term)
    (hneg : -term.scrollbarMin<2^31) {value : ℤ} (hlow : term.scrollbarMin≤value)
    (hhigh : value≤0) : ScrollGood area (guacTerminalScrollHandler term value) := by
  have hnonneg := h.nonneg
  have hbounds := h.neg_min_le
  -- the handler scrolls to the value, which is set once more
  have hset : ∀ {scrolled : GuacTerminal}, ScrollGood area scrolled →
      scrolled.scrollOffset = -value →
        ScrollGood area (guacTerminalScrollbarSetValue scrolled value) := by
    intro scrolled hscrolled hoffset
    have hmin := hscrolled.min_le
    have hvalue : value = -scrolled.scrollOffset := by omega
    rw [hvalue,setValue_eq hscrolled.max_eq hscrolled.nonneg hmin,←hscrolled.value]
    exact hscrolled
  unfold guacTerminalScrollHandler
  dsimp only
  split_ifs with hdown hup
  · obtain ⟨hscrolled,hoffset⟩ := scrollGood_scrollDisplayDown h (-(-value-term.scrollOffset))
    exact hset hscrolled (by omega)
  · have hfits : ScrollUpFits term (-value-term.scrollOffset) := ⟨by omega,by omega⟩
    have hamount : IsInt (-value-term.scrollOffset) := ⟨by omega,by omega⟩
    obtain ⟨hscrolled,hoffset⟩ := scrollDisplayUp_of_fits h hamount hfits
    exact hset hscrolled (by omega)
  · exact hset h (by omega)

/-! ## Sizes -/

/-- The rows of the scrollback that come into view with a greater height. -/
def revealedRows (term : GuacTerminal) (height : ℤ) : ℤ :=
  if height > term.termHeight then
    max 0 (min (guacTerminalAvailableScroll term) (height-term.termHeight))
  else 0

/-- The scroll offset that a height leaves. -/
def offsetAfter (term : GuacTerminal) (height : ℤ) : ℤ :=
  max 0 (term.scrollOffset-revealedRows term height)

/-- The terminal with another scroll offset, to which the scrollbar is set. -/
def GuacTerminal.scrolledTo (term : GuacTerminal) (offset : ℤ) : GuacTerminal :=
  { term with scrollOffset := offset, scrollbarValue := -offset }

theorem sameScroll_shrinkHeight (term : GuacTerminal) (width height : ℤ) :
    SameScroll term (shrinkHeight term width height) := by
  unfold shrinkHeight
  dsimp only
  generalize (if guacTerminalEffectiveBufferLength term > term.termHeight then term.termHeight
    else guacTerminalEffectiveBufferLength term)=usedHeight
  split
  · split
    · refine SameScroll.trans ?_ (sameScroll.redrawRect ..)
      exact ⟨rfl,rfl⟩
    · exact SameScroll.refl term
  · exact SameScroll.refl term

/-- The scrollbar is set to a scroll offset within its bounds, and contents are drawn. -/
theorem sameScroll_scrolledTo {scrolled drawn : GuacTerminal} {offset : ℤ}
    (hmax : term.scrollbarMax=0) (h0 : 0≤offset) (hmin : term.scrollbarMin ≤ -offset)
    (hsame : SameScroll { term with scrollOffset := offset } scrolled)
    (hdrawn : SameScroll (guacTerminalScrollbarSetValue scrolled (-offset)) drawn) :
    SameScroll (term.scrolledTo offset) drawn := by
  have hvalue := setValue_eq (hsame.keeps.max.trans hmax) h0 (hsame.keeps.min.trans_le hmin)
  rw [hvalue] at hdrawn
  obtain ⟨hparts,hlength⟩ := hsame
  have hset : SameScroll (term.scrolledTo offset) { scrolled with scrollbarValue := -offset } :=
    ⟨Prod.ext (Prod.ext (congrArg (·.1.1) hparts) (Prod.ext rfl (congrArg (·.1.2.2) hparts)))
      (congrArg (·.2) hparts),hlength⟩
  exact hset.trans hdrawn

/-- A greater height takes what it shows of the scrollback from the scroll offset. -/
theorem sameScroll_growHeight (h : ScrollGood area term) (width height : ℤ) :
    SameScroll (term.scrolledTo (offsetAfter term height)) (growHeight term width height) := by
  have hnonneg := h.nonneg
  have hmin := h.min_le
  have hkept : revealedRows term height=0→SameScroll (term.scrolledTo (offsetAfter term height))
      term := by
    intro hzero
    have hoffset : offsetAfter term height=term.scrollOffset := by
      unfold offsetAfter
      omega
    rw [hoffset]
    refine ⟨?_,rfl⟩
    unfold GuacTerminal.scrollParts GuacTerminal.scrolledTo
    rw [h.value]
  have hrevealed : ∀ shift, height > term.termHeight→0<shift →
      shift=min (guacTerminalAvailableScroll term) (height-term.termHeight) →
      revealedRows term height=shift := by
    intro shift hgrows hpos hshift
    unfold revealedRows
    rw [if_pos hgrows,←hshift,max_eq_right hpos.le]
  have hgrown := grown_growHeight term width height
  generalize growHeight term width height=grown at hgrown ⊢
  cases hgrown with
  | same hnone =>
    refine hkept ?_
    unfold revealedRows
    split_ifs <;> omega
  | scrolled shift hgrows hpos hshift hle =>
    have hoffset : offsetAfter term height=term.scrollOffset-shift := by
      rw [offsetAfter,hrevealed shift hgrows hpos hshift,max_eq_right (by omega)]
    rw [hoffset]
    refine sameScroll_scrolledTo h.max_eq (by omega) (by omega) ?_ (sameScroll.redrawRect ..)
    exact ⟨rfl,rfl⟩
  | moved shift hgrows hpos hshift hlt drawn hdrawn =>
    have hoffset : offsetAfter term height=0 := by
      rw [offsetAfter,hrevealed shift hgrows hpos hshift,max_eq_left (by omega)]
    have hsame : SameScroll term drawn := by
      rw [hdrawn]
      refine SameScroll.trans ?_ (sameScroll.redrawRect ..)
      exact ⟨rfl,rfl⟩
    rw [hoffset]
    refine sameScroll_scrolledTo h.max_eq le_rfl (hmin.trans (by omega)) (hsame.withOffset 0)
      (SameScroll.trans ?_ (sameScroll.redrawRect ..))
    exact ⟨rfl,rfl⟩

theorem revealedRows_nonneg (term : GuacTerminal) (height : ℤ) : 0≤revealedRows term height := by
  unfold revealedRows
  split
  · exact le_max_left ..
  · exact le_rfl

theorem SameScroll.offsetAfter {term' : GuacTerminal} (h : SameScroll term term') (height : ℤ) :
    offsetAfter term' height=offsetAfter term height := by
  unfold Terminal.offsetAfter revealedRows
  rw [h.available,h.keeps.offset,h.keeps.height]

theorem SameScroll.scrolledTo {term' : GuacTerminal} (h : SameScroll term term') (offset : ℤ) :
    SameScroll (term.scrolledTo offset) (term'.scrolledTo offset) :=
  ⟨Prod.ext (Prod.ext rfl (Prod.ext rfl (congrArg (·.1.2.2) h.1))) (congrArg (·.2) h.1),h.2⟩

/-- What a change of the size leaves of what is scrolled. -/
theorem sameScroll_resizeCharacters (h : ScrollGood area term) (memory : Memory)
    (width height : ℤ) :
    SameScroll { term.scrolledTo (offsetAfter term height) with termHeight := height }
      (resizeCharacters memory term width height) := by
  have hshrunk := sameScroll_shrinkHeight term width height
  have hsized : SameScroll term { shrinkHeight term width height with
      display := guacTerminalDisplayResize
        (guacTerminalDisplayFlush (shrinkHeight term width height).display) width height
        memory.operations } := ⟨hshrunk.1,hshrunk.2⟩
  have hcommitted : ∀ redrawn : GuacTerminal, SameScroll term redrawn →
      SameScroll { term.scrolledTo (offsetAfter term height) with termHeight := height }
        { growHeight redrawn width height with
          cursorRow := keepOnScreen (growHeight redrawn width height).cursorRow height
          cursorCol := keepOnScreen (growHeight redrawn width height).cursorCol width
          termWidth := width
          termHeight := height } := by
    intro redrawn hredrawn
    have hgrown := sameScroll_growHeight (h.keeps hredrawn.keeps) width height
    rw [hredrawn.offsetAfter] at hgrown
    obtain ⟨hparts,hlength⟩ := (hredrawn.scrolledTo (offsetAfter term height)).trans hgrown
    exact ⟨Prod.ext (congrArg (·.1) hparts) (Prod.ext rfl (congrArg (·.2.2) hparts)),hlength⟩
  refine hcommitted _ ?_
  split
  · exact hsized.trans (sameScroll.redrawRect ..)
  · exact hsized

/-- After a change of the size, what can be scrolled covers the scroll offset that is
left. -/
def ResizeFits (term : GuacTerminal) (height : ℤ) : Prop :=
  BoundsFit { term.scrolledTo (offsetAfter term height) with termHeight := height }

instance (term : GuacTerminal) (height : ℤ) : Decidable (ResizeFits term height) :=
  inferInstanceAs (Decidable (BoundsFit _))

theorem SameScroll.boundsFit {term' : GuacTerminal} (h : SameScroll term term') :
    BoundsFit term' ↔ BoundsFit term := by
  unfold BoundsFit
  rw [h.available,h.keeps.offset,h.keeps.height]

/-- A change of the size sets the bounds for what it leaves. -/
theorem resize_eq (h : ScrollGood area term) (memory : Memory) (width height : ℤ) :
    ∃ sized, OffsetAgrees (term.display.rowsOf height) sized ∧
      SameScroll { term.scrolledTo (offsetAfter term (term.display.rowsOf height)) with
        termHeight := term.display.rowsOf height } sized ∧
      guacTerminalResize memory term width height=
        guacTerminalScrollbarSetBounds sized (-guacTerminalAvailableScroll sized) 0 := by
  have hnonneg := h.nonneg
  have hlt := h.lt
  have hrevealed := revealedRows_nonneg term (term.display.rowsOf height)
  have hoffset : offsetAfter term (term.display.rowsOf height)≤term.scrollOffset :=
    max_le hnonneg (by omega)
  have hagrees : OffsetAgrees (term.display.rowsOf height) { term.scrolledTo (offsetAfter term
      (term.display.rowsOf height)) with termHeight := term.display.rowsOf height } :=
    ⟨le_max_left ..,hoffset.trans_lt hlt,rfl,rfl⟩
  have hresized := sameScroll_resizeCharacters h memory (term.display.columnsOf width)
    (term.display.rowsOf height)
  by_cases hchanged : term.display.columnsOf width≠term.termWidth ∨
      term.display.rowsOf height≠term.termHeight
  · refine ⟨{ resizeCharacters memory term (term.display.columnsOf width)
      (term.display.rowsOf height) with scrollEnd := term.display.rowsOf height-1 },
      hagrees.keeps ⟨hresized.1,hresized.2.ge⟩,⟨hresized.1,hresized.2⟩,?_⟩
    unfold guacTerminalResize
    dsimp only
    rw [if_pos hchanged]
  · have hheight : term.display.rowsOf height=term.termHeight := by
      by_contra hne
      exact hchanged (Or.inr hne)
    have hkept : offsetAfter term term.termHeight=term.scrollOffset := by
      unfold offsetAfter revealedRows
      rw [if_neg (lt_irrefl _)]
      omega
    have hsame : SameScroll { term.scrolledTo (offsetAfter term (term.display.rowsOf height)) with
        termHeight := term.display.rowsOf height } term := by
      rw [hheight,hkept,GuacTerminal.scrolledTo,←h.value]
      exact SameScroll.refl term
    refine ⟨term,hagrees.keeps hsame.keeps,hsame,?_⟩
    unfold guacTerminalResize
    dsimp only
    rw [if_neg hchanged]

/-- After a new size the bounds fit exactly if it does. -/
theorem exactly_resize (h : ScrollGood area term) (memory : Memory) (width height : ℤ) :
    Exactly (term.display.rowsOf height) (ResizeFits term (term.display.rowsOf height))
      (guacTerminalResize memory term width height) := by
  obtain ⟨sized,hagrees,hsame,heq⟩ := resize_eq h memory width height
  have hset := exactly_setBounds hagrees
  rw [hsame.boundsFit] at hset
  rw [heq]
  exact hset

end

end GuacServer.Terminal
