import GuacServer.TerminalScan

/-!
# The screen after a flush

Each cell shows a column of the last character that is drawn over it, or else
the color it was cleared to, or else what was copied to it, or what it showed
before.
-/

namespace GuacServer.Terminal

open SequentialCopies

variable {α : Type}

/-! ## Clears -/

/-- Two grids with the same clears, between which only operations differ. -/
structure SameClears (display display' : Display) : Prop where
  keeps : ∃ operations, display' = { display with operations := operations }
  clears : ∀ r c, display'.operations r c=display.operations r c ∨
    (display'.operations r c).clears=false ∧ (display.operations r c).clears=false

theorem handled_clears (operation : Operation) : operation.handled.clears=false := rfl

theorem clears_of_copy {operation : Operation} (h : operation.type=.copy) :
    operation.clears=false := by
  unfold Operation.clears
  rw [h]
  rfl

/-- A clear compares equal to the color that another has. -/
def Display.ClearsWith (display : Display) (current operation : Operation) : Prop :=
  operation.clears=true ∧
    sameColor operation.character.joiningColor (clearColor display current.character)=true

instance (display : Display) (current operation : Operation) :
    Decidable (display.ClearsWith current operation) := inferInstanceAs (Decidable (_ ∧ _))

/-- Clears that fill a rectangle of the grid and compare equal to the color of its first have
that color. -/
structure ClearsAlike (display : Display) : Prop where
  /-- The color of a cell is compared with one from the palette. -/
  looked : ∀ r c, display.InGrid (r,c)→(display.operations r c).clears=true →
    display.ClearsWith (display.operations r c) (display.operations r c)
  joined : ∀ row col r c, row≤r → col≤c→(∀ r' c', row≤r' → r'≤r → col≤c' → c'≤c →
      display.InGrid (r',c') ∧
        display.ClearsWith (display.operations row col) (display.operations r' c')) →
    (clearColor display (display.operations r c).character).rgb=
      (clearColor display (display.operations row col).character).rgb

theorem clearKind_joinsItself {display : Display} (h : ClearsAlike display) :
    (clearKind display).JoinsItself display := fun row col hgrid hbegins =>
  Bool.and_eq_true_iff.mpr (h.looked row col hgrid hbegins)

/-- The clears of a rectangle have the color of its first. -/
theorem ClearsAlike.rectangle {display : Display} (h : ClearsAlike display)
    (hsized : display.Sized) {found : Operation×GridRect}
    (hfound : found∈rectangles (clearKind display) display) {r c : ℤ}
    (hcontains : found.2.contains (r,c)=true) :
    (clearColor display (display.operations r c).character).rgb=
      (clearColor display found.1.character).rgb := by
  have hall := scanned_all (clearKind_lawful display) (clearKind_joinsItself h) hsized
  obtain ⟨hfirst,-⟩ := hall.corner found hfound
  have hcell := contains_iff.mp hcontains
  dsimp only at hcell
  rw [hfirst]
  refine h.joined _ _ r c hcell.1.1 hcell.2.1 fun r' c' hr hr' hc hc' => ?_
  obtain ⟨hgrid,hjoins⟩ := hall.inside found hfound r' c' (contains_iff.mpr (by dsimp only; omega))
  rw [←hfirst]
  exact ⟨hgrid,Bool.and_eq_true_iff.mp hjoins⟩

/-- Clears stay alike when operations that are no clears change. -/
theorem ClearsAlike.of_sameClears {display display' : Display} (h : ClearsAlike display)
    (hsame : SameClears display display') : ClearsAlike display' := by
  obtain ⟨⟨operations,rfl⟩,hclears⟩ := hsame
  have hkept : ∀ {r c current}, ({ display with operations := operations } : Display).ClearsWith
      current (operations r c) → operations r c=display.operations r c := fun hwith =>
    (hclears _ _).resolve_right fun hnot => Bool.false_ne_true (hnot.1.symm.trans hwith.1)
  refine ⟨fun r c hin hclear => ?_,fun row col r c hr hc hall => ?_⟩
  · have heq := (hclears r c).resolve_right fun hnot =>
      Bool.false_ne_true (hnot.1.symm.trans hclear)
    dsimp only at heq hclear ⊢
    rw [heq] at hclear ⊢
    exact h.looked r c hin hclear
  · have hfirst := hkept (hall row col le_rfl hr le_rfl hc).2
    have hlast := hkept (hall r c hr le_rfl hc le_rfl).2
    dsimp only at hall ⊢
    rw [hfirst,hlast]
    refine h.joined row col r c hr hc fun r' c' h1 h2 h3 h4 => ?_
    obtain ⟨hgrid,hwith⟩ := hall r' c' h1 h2 h3 h4
    rw [hkept hwith,hfirst] at hwith
    exact ⟨hgrid,hwith⟩

section Clears

variable {display : Display} {r c : ℤ}

/-- The clears fill the rectangles that the scan collects. -/
theorem flushClear_eq (painting : Painting α) (display : Display) (screen : Screen α) :
    guacTerminalDisplayFlushClear painting display screen=(scanned (clearKind display) display,
        (rectangles (clearKind display) display).foldl (fun screen found =>
          fillRectangle (painting.fill (clearColor display found.1.character).rgb) found.2 screen)
          screen) :=
  flushRectangles_eq ..

/-- Rectangles that are filled with one content where they have a cell. -/
theorem foldl_fillRectangle_eq {found : List (Operation×GridRect)} {content : Operation→α} {x : α}
    (hcontent : ∀ entry∈found, entry.2.contains (r,c)=true → content entry.1=x)
    (screen : Screen α) :
    found.foldl (fun screen entry => fillRectangle (content entry.1) entry.2 screen) screen (r,c)=
      if ∃ entry∈found, entry.2.contains (r,c)=true then x else screen (r,c) := by
  induction found generalizing screen with
  | nil => simp
  | cons first rest ih =>
    rw [List.foldl_cons,ih fun entry hentry => hcontent entry (List.mem_cons_of_mem _ hentry)]
    by_cases hrest : ∃ entry∈rest, entry.2.contains (r,c)=true
    · rw [if_pos hrest,if_pos (List.exists_mem_cons_of_exists hrest)]
    · rw [if_neg hrest]
      by_cases hfirst : first.2.contains (r,c)=true
      · rw [if_pos ⟨first,List.mem_cons_self,hfirst⟩]
        unfold fillRectangle
        rw [if_pos hfirst]
        exact hcontent first List.mem_cons_self hfirst
      · rw [if_neg (by simpa [hfirst] using hrest)]
        exact if_neg hfirst

/-- A flush fills the cells that are cleared, each with its color. -/
theorem flushClear_screen (painting : Painting α) (hsized : display.Sized)
    (halike : ClearsAlike display) (hgrid : display.InGrid (r,c)) (screen : Screen α) :
    (guacTerminalDisplayFlushClear painting display screen).2 (r,c)=
      if (display.operations r c).clears then
        painting.fill (clearColor display (display.operations r c).character).rgb
      else screen (r,c) := by
  have hcontain := @rectangles_contain_iff (clearKind display) display r c
    (clearKind_lawful display) (clearKind_joinsItself halike) hsized
  have hfill := @foldl_fillRectangle_eq α r c _
    (fun current => painting.fill (clearColor display current.character).rgb) _
    (fun entry hentry hin => congrArg painting.fill (halike.rectangle hsized hentry hin).symm)
    screen
  rw [flushClear_eq]
  dsimp only
  exact hfill.trans (if_congr (hcontain.trans (and_iff_right hgrid)) rfl rfl)

end Clears

/-! ## Characters -/

/-- The last number below a bound that has a property. -/
def lastBelow (P : ℤ→Bool) : ℕ→Option ℤ
  | 0 => none
  | count+1 => if P count then some (count : ℤ) else lastBelow P count

theorem lastBelow_congr {P Q : ℤ→Bool} {count : ℕ}
    (h : ∀ i : ℤ, 0 ≤ i → i<count→P i=Q i) : lastBelow P count=lastBelow Q count := by
  induction count with
  | zero => rfl
  | succ count ih =>
    rw [lastBelow,lastBelow,h count (by omega) (by push_cast; omega),
      ih fun i hi hlt => h i hi (by push_cast; omega)]

theorem of_lastBelow_eq_some {P : ℤ→Bool} {count : ℕ} {i : ℤ}
    (h : lastBelow P count=some i) : (0 ≤ i ∧ i<count) ∧ P i=true := by
  induction count with
  | zero => exact absurd h (by simp [lastBelow])
  | succ count ih =>
    rw [lastBelow] at h
    split at h
    · rename_i hP
      obtain rfl := Option.some.inj h
      exact ⟨by push_cast; omega,hP⟩
    · obtain ⟨hrange,hP⟩ := ih h
      exact ⟨by push_cast; omega,hP⟩

theorem exists_le_lastBelow {P : ℤ→Bool} {count : ℕ} {i : ℤ} (hi : 0 ≤ i) (hlt : i<count)
    (hP : P i=true) : ∃ j, lastBelow P count=some j ∧ i≤j := by
  induction count with
  | zero => push_cast at hlt; omega
  | succ count ih =>
    rw [lastBelow]
    split
    · exact ⟨count,rfl,by push_cast at hlt; omega⟩
    · rename_i hnot
      refine ih ?_
      push_cast at hlt
      have hne : i≠count := by
        rintro rfl
        exact hnot hP
      omega

/-- The character that is set in one column of a row is drawn over another. -/
def reaches (painting : Painting α) (display : Display) (row col c : ℤ) : Bool :=
  decide ((display.operations row c).type=.set ∧ c≤col ∧
    col<c+painting.drawnWidth (display.operations row c).character.drawn)

/-- What a cell shows after the characters of the first columns were drawn. -/
def drawnOver (painting : Painting α) (display : Display) (screen : Screen α) (row col : ℤ)
    (count : ℕ) : α :=
  match lastBelow (reaches painting display row col) count with
  | some c => painting.column display (display.operations row c).character (col-c)
  | none => screen (row,col)

/-- One more column is drawn over those before it where its character reaches. -/
theorem drawnOver_next (painting : Painting α) (display : Display) (screen : Screen α)
    (row col : ℤ) {last : ℤ} (hlast : 0≤last) :
    drawnOver painting display screen row col (last+1).toNat=
      if reaches painting display row col last then
        painting.column display (display.operations row last).character (col-last)
      else drawnOver painting display screen row col last.toNat := by
  have hcount : (last+1).toNat=last.toNat+1 := by omega
  rw [hcount,drawnOver,lastBelow,Int.toNat_of_nonneg hlast]
  by_cases h : reaches painting display row col last=true
  · rw [if_pos h,if_pos h]
  · rw [if_neg h,if_neg h]
    rfl

/-- What has been drawn before a cell of the grid. -/
structure DrawnBefore (painting : Painting α) (display : Display) (screen : Screen α)
    (row col : ℤ) (state : Display×Screen α) : Prop where
  keeps : ∃ operations, state.1 = { display with operations := operations }
  ahead : ∀ r c, row<r ∨ r=row ∧ col≤c → state.1.operations r c=display.operations r c
  handled : ∀ r c, display.InGrid (r,c) → r<row ∨ r=row ∧ c<col → state.1.operations r c=
      if (display.operations r c).type=.set then (display.operations r c).handled
      else display.operations r c
  shown : ∀ r c, 0≤r → state.2 (r,c)=drawnOver painting display screen r c
    (if r<row then display.width.toNat else if r=row then col.toNat else 0)

namespace DrawnBefore

variable {painting : Painting α} {display : Display} {screen : Screen α} {row col : ℤ}
  {state : Display×Screen α}

theorem start (painting : Painting α) (display : Display) (screen : Screen α) :
    DrawnBefore painting display screen 0 0 (display,screen) where
  keeps := ⟨_,rfl⟩
  ahead _ _ _ := rfl
  handled r c hgrid hbefore := by
    have hr : 0≤r := hgrid.1.1
    have hc : 0≤c := hgrid.2.1
    omega
  shown r c hr := by
    rw [if_neg (not_lt.mpr hr),Int.toNat_zero,ite_self]
    rfl

theorem line (h : DrawnBefore painting display screen row display.width state) :
    DrawnBefore painting display screen (row+1) 0 state where
  keeps := h.keeps
  ahead r c hahead := h.ahead r c (by omega)
  handled r c hgrid hbefore := by
    have hc : 0≤c := hgrid.2.1
    have hwidth : c<display.width := hgrid.2.2
    exact h.handled r c hgrid (by omega)
  shown r c hr := by
    rw [h.shown r c hr]
    congr 1
    split_ifs <;> first | rfl | omega

theorem step (h : DrawnBefore painting display screen row col state) (hcol : 0≤col) :
    DrawnBefore painting display screen row (col+1) (flushSetAt painting row col state) := by
  have hcurrent : state.1.operations row col=display.operations row col :=
    h.ahead row col (Or.inr ⟨rfl,le_rfl⟩)
  unfold flushSetAt
  dsimp only
  rw [hcurrent]
  split
  · rename_i hset
    refine ⟨?_,fun r c hahead => ?_,fun r c hgrid hbefore => ?_,fun r c hr => ?_⟩
    · obtain ⟨operations,hoperations⟩ := h.keeps
      exact ⟨_,by rw [hoperations]⟩
    · show (if r=row ∧ c=col then _ else state.1.operations r c)=_
      rw [if_neg (by omega)]
      exact h.ahead r c (by omega)
    · show (if r=row ∧ c=col then _ else state.1.operations r c)=_
      split
      · rename_i heq
        rw [heq.1,heq.2,if_pos hset]
        rfl
      · exact h.handled r c hgrid (by omega)
    · have hcolumn : painting.column state.1=painting.column display := by
        obtain ⟨operations,hoperations⟩ := h.keeps
        rw [hoperations]
        rfl
      show (if r=row ∧ col≤c ∧ c<col+painting.drawnWidth
        (display.operations row col).character.drawn then
          painting.column state.1 (display.operations row col).character (c-col)
        else state.2 (r,c))=_
      rw [hcolumn,h.shown r c hr]
      rcases eq_or_ne r row with rfl | hne
      · rw [if_neg (lt_irrefl r),if_neg (lt_irrefl r),if_pos rfl,if_pos rfl,
          drawnOver_next painting display screen r c hcol]
        refine if_congr ?_ rfl rfl
        rw [reaches,decide_eq_true_iff]
        exact ⟨fun hreaches => ⟨hset,hreaches.2⟩,fun hreaches => ⟨rfl,hreaches.2⟩⟩
      · rw [if_neg fun hall => hne hall.1,if_neg hne,if_neg hne]
  · rename_i hother
    refine ⟨h.keeps,fun r c hahead => h.ahead r c (by omega),fun r c hgrid hbefore => ?_,
      fun r c hr => ?_⟩
    · by_cases heq : r=row ∧ c=col
      · rw [heq.1,heq.2,hcurrent,if_neg hother]
      · exact h.handled r c hgrid (by omega)
    · rw [h.shown r c hr]
      rcases eq_or_ne r row with rfl | hne
      · rw [if_neg (lt_irrefl r),if_neg (lt_irrefl r),if_pos rfl,if_pos rfl,
          drawnOver_next painting display screen r c hcol,
          if_neg fun hreaches => hother (of_decide_eq_true hreaches).1]
      · rw [if_neg hne,if_neg hne]

end DrawnBefore

/-- Each cell shows the last character that is drawn over it. -/
theorem flushSet_drawn (painting : Painting α) {display : Display} (hsized : display.Sized)
    (screen : Screen α) :
    DrawnBefore painting display screen display.height 0
      (guacTerminalDisplayFlushSet painting display screen) :=
  forGrid_induction hsized.height_nonneg hsized.width_nonneg
    (fun _ _ _ _ _ hcol _ h => h.step hcol) (fun _ _ h => h.line)
    (DrawnBefore.start painting display screen)

/-! ## The whole flush -/

section Flush

variable {display : Display} {r c : ℤ}

/-- The column from which the last glyph that is pending is drawn over another
column of its row. -/
def lastReaching (painting : Painting α) (display : Display) (row col : ℤ) : Option ℤ :=
  lastBelow (fun c => guacTerminalHasGlyph (display.operations row c).character.value &&
    reaches painting display row col c) display.width.toNat

/-- The operations after the copies. -/
def copied (display : Display) : Display := scanned copyKind display

/-- The operations after the copies and the clears. -/
def cleared (display : Display) : Display := scanned (clearKind (copied display)) (copied display)

theorem sameClears_copied (hsized : display.Sized) : SameClears display (copied display) := by
  have hall := scanned_all copyKind_lawful (copyKind_joinsItself display) hsized
  refine ⟨hall.keeps,fun r c => ?_⟩
  rcases hall.handled_or_eq r c with ⟨hfound,hhandled⟩ | ⟨-,heq⟩
  · have hcopy := ((rectangles_contain_iff copyKind_lawful (copyKind_joinsItself display)
      hsized).mp hfound).2
    refine Or.inr ⟨?_,clears_of_copy (of_decide_eq_true hcopy)⟩
    rw [copied,hhandled]
    exact handled_clears _
  · exact Or.inl heq

theorem SameClears.sized {display display' : Display} (h : SameClears display display')
    (hsized : display.Sized) : display'.Sized := by
  obtain ⟨⟨operations,rfl⟩,-⟩ := h
  exact ⟨hsized.1,hsized.2,hsized.3,hsized.4⟩

theorem SameClears.inGrid {display display' : Display} (h : SameClears display display')
    {cell : ℤ×ℤ} (hgrid : display.InGrid cell) : display'.InGrid cell := by
  obtain ⟨⟨operations,rfl⟩,-⟩ := h
  exact hgrid

/-- What is pending after the copies. -/
theorem copied_operations (hsized : display.Sized) (hgrid : display.InGrid (r,c)) :
    (copied display).operations r c=
      if (display.operations r c).type=.copy then (display.operations r c).handled
      else display.operations r c := by
  rw [copied,scanned_operations copyKind_lawful (copyKind_joinsItself display) hsized hgrid]
  exact if_congr decide_eq_true_iff rfl rfl

/-- After the copies and the clears only glyphs are left. -/
theorem cleared_operations (hsized : display.Sized) (halike : ClearsAlike display)
    (hgrid : display.InGrid (r,c)) :
    (cleared display).operations r c=
      if (display.operations r c).type=.copy ∨ (display.operations r c).clears=true then
        (display.operations r c).handled
      else display.operations r c := by
  have hsame := sameClears_copied hsized
  have halike' := halike.of_sameClears hsame
  rw [cleared,scanned_operations (clearKind_lawful _) (clearKind_joinsItself halike')
    (hsame.sized hsized) (hsame.inGrid hgrid),copied_operations hsized hgrid]
  by_cases hcopy : (display.operations r c).type=.copy
  · rw [if_pos hcopy,if_pos (Or.inl hcopy)]
    exact if_neg Bool.false_ne_true
  · rw [if_neg hcopy]
    exact if_congr (or_iff_right hcopy).symm rfl rfl

theorem cleared_keeps (hsized : display.Sized) (halike : ClearsAlike display) :
    ∃ operations, cleared display = { display with operations := operations } := by
  have hsame := sameClears_copied hsized
  have halike' := halike.of_sameClears hsame
  obtain ⟨operations,hcopied⟩ := hsame.keeps
  obtain ⟨operations',hcleared⟩ := scanned_keeps (clearKind_lawful _)
    (clearKind_joinsItself halike') (hsame.sized hsized)
  exact ⟨operations',by rw [cleared,hcleared,hcopied]⟩

section

variable (painting : Painting α)

/-- Glyphs are still pending after the clears. -/
theorem reaches_cleared (hsized : display.Sized)
    (halike : ClearsAlike display) (hgrid : display.InGrid (r,c)) (col : ℤ) :
    reaches painting (cleared display) r col c=
      (guacTerminalHasGlyph (display.operations r c).character.value &&
        reaches painting display r col c) := by
  unfold reaches
  rw [cleared_operations hsized halike hgrid]
  by_cases hset : (display.operations r c).type=.set
  · have hclears : (display.operations r c).clears=
        !guacTerminalHasGlyph (display.operations r c).character.value := by
      unfold Operation.clears
      rw [decide_eq_true hset,Bool.true_and]
    rw [hclears,hset]
    cases guacTerminalHasGlyph (display.operations r c).character.value with
    | true => simp [hset]
    | false => simp [Operation.handled]
  · have hnot : ∀ operation : Operation, operation.type≠.set → decide (operation.type=.set ∧ c≤col ∧
          col<c+painting.drawnWidth operation.character.drawn)=false :=
      fun operation hother => decide_eq_false fun hall => hother hall.1
    rw [hnot _ hset,Bool.and_false]
    split
    · exact hnot _ OperationType.noConfusion
    · exact hnot _ hset

theorem cleared_character (hsized : display.Sized) (halike : ClearsAlike display)
    (hgrid : display.InGrid (r,c)) :
    ((cleared display).operations r c).character=(display.operations r c).character := by
  rw [cleared_operations hsized halike hgrid]
  split <;> rfl

/-- The last glyph over a column is the same after the clears. -/
theorem lastReaching_cleared (hsized : display.Sized)
    (halike : ClearsAlike display) (hrow : 0≤r ∧ r<display.height) (col : ℤ) :
    lastBelow (reaches painting (cleared display) r col) (cleared display).width.toNat=
      lastReaching painting display r col := by
  obtain ⟨operations,hoperations⟩ := cleared_keeps hsized halike
  have hwidth : (cleared display).width=display.width := by rw [hoperations]
  rw [hwidth]
  refine lastBelow_congr fun c hc hlt => ?_
  rw [Int.toNat_of_nonneg hsized.width_nonneg] at hlt
  exact reaches_cleared painting hsized halike ⟨hrow,hc,hlt⟩ col

/-- The flush draws the characters that are left on what was copied and cleared. -/
theorem flushScreen_eq (display : Display) (screen : Screen α) :
    guacTerminalDisplayFlushScreen painting display screen=
      guacTerminalDisplayFlushSet painting (cleared display)
        (guacTerminalDisplayFlushClear painting (copied display)
          (guacTerminalDisplayFlushCopy display screen).2).2 := by
  have hcopied : (guacTerminalDisplayFlushCopy display screen).1=copied display := by
    rw [flushCopy_eq]
    rfl
  have hcleared : ∀ shown : Screen α,
      (guacTerminalDisplayFlushClear painting (copied display) shown).1=cleared display := by
    intro shown
    rw [flushClear_eq]
    rfl
  unfold guacTerminalDisplayFlushScreen
  dsimp only
  rw [hcopied,hcleared]

theorem cleared_sized (hsized : display.Sized) (halike : ClearsAlike display) :
    (cleared display).Sized := by
  obtain ⟨operations,hoperations⟩ := cleared_keeps hsized halike
  rw [hoperations]
  exact ⟨hsized.1,hsized.2,hsized.3,hsized.4⟩

/-- What a cell shows when the characters are drawn. -/
theorem flushClear_shown (hsized : display.Sized)
    (hapart : CopiesApart display) (halike : ClearsAlike display) (hgrid : display.InGrid (r,c))
    (screen : Screen α) :
    (guacTerminalDisplayFlushClear painting (copied display)
        (guacTerminalDisplayFlushCopy display screen).2).2 (r,c)=
      if (display.operations r c).clears then
        painting.fill (clearColor display (display.operations r c).character).rgb
      else if (display.operations r c).type=.copy then
        screen ((display.operations r c).row,(display.operations r c).column)
      else screen (r,c) := by
  have hsame := sameClears_copied hsized
  have hcolor : clearColor (copied display)=clearColor display := by
    obtain ⟨operations,hoperations⟩ := hsame.keeps
    rw [hoperations]
    rfl
  rw [flushClear_screen painting (hsame.sized hsized) (halike.of_sameClears hsame)
    (hsame.inGrid hgrid),copied_operations hsized hgrid,hcolor]
  by_cases hcopy : (display.operations r c).type=.copy
  · rw [if_pos hcopy,handled_clears,clears_of_copy hcopy,if_neg Bool.false_ne_true,
      if_neg Bool.false_ne_true,if_pos hcopy,flushCopy_copy hsized hapart hgrid hcopy]
  · rw [if_neg hcopy,if_neg hcopy,flushCopy_other hsized hcopy]

/-- What a cell of the grid shows after a flush. -/
theorem flushScreen_shown (hsized : display.Sized)
    (hapart : CopiesApart display) (halike : ClearsAlike display) (hgrid : display.InGrid (r,c))
    (screen : Screen α) :
    (guacTerminalDisplayFlushScreen painting display screen).2 (r,c)=
      match lastReaching painting display r c with
      | some col => painting.column display (display.operations r col).character (c-col)
      | none =>
        if (display.operations r c).clears then
          painting.fill (clearColor display (display.operations r c).character).rgb
        else if (display.operations r c).type=.copy then
          screen ((display.operations r c).row,(display.operations r c).column)
        else screen (r,c) := by
  obtain ⟨operations,hkeeps⟩ := cleared_keeps hsized halike
  have hheight : (cleared display).height=display.height := by rw [hkeeps]
  have hcolumn : painting.column (cleared display)=painting.column display := by
    rw [hkeeps]
    rfl
  rw [flushScreen_eq,(flushSet_drawn painting (cleared_sized hsized halike) _).shown r c
    hgrid.1.1,hheight,if_pos hgrid.1.2,drawnOver,
    lastReaching_cleared painting hsized halike hgrid.1]
  cases hlast : lastReaching painting display r c with
  | none => exact flushClear_shown painting hsized hapart halike hgrid screen
  | some col =>
    have hcol := (of_lastBelow_eq_some hlast).1
    rw [Int.toNat_of_nonneg hsized.width_nonneg] at hcol
    dsimp only
    rw [hcolumn,cleared_character hsized halike (show display.InGrid (r,col) from ⟨hgrid.1,hcol⟩)]

end

end Flush

end GuacServer.Terminal
