import Mathlib.Data.List.Pairwise
import GuacServer.TerminalFlush

/-!
# How a flush finds the operations of the grid

The rectangles that a scan finds are disjoint, hold only operations that belong
together, and leave out none. So the screen after each part of a flush can be
told from the operations before it, cell by cell.
-/

namespace GuacServer.Terminal

open List SequentialCopies

/-! ## Loops over the grid -/

section Loops

variable {α β : Type}

theorem forRange_induction {P : ℤ→α→Prop} {body : ℤ→α→α} (count : ℕ) (i : ℤ)
    (hstep : ∀ j a, i≤j → j < i+count→P j a→P (j+1) (body j a)) {a : α} (h : P i a) :
    P (i+count) (forRange body count i a) := by
  induction count generalizing i a with
  | zero => rwa [Nat.cast_zero,add_zero]
  | succ count ih =>
    have hrest := ih (i+1) (fun j a hfirst hlast => hstep j a (by omega) (by push_cast; omega))
      (hstep i a le_rfl (by push_cast; omega) h)
    rw [forRange]
    rwa [show i+1+(count : ℤ)=i+((count+1 : ℕ) : ℤ) by push_cast; omega] at hrest

/-- What holds up to a turn of a loop, if each turn takes it to the next. -/
theorem forTo_induction {P : ℤ→α→Prop} {body : ℤ→α→α} {size : ℤ} (hsize : 0 ≤ size)
    (hstep : ∀ i a, 0 ≤ i → i<size→P i a→P (i+1) (body i a)) {a : α} (h : P 0 a) :
    P size (forTo body 0 (size-1) a) := by
  have hcount : (size-1-0+1).toNat=size.toNat := by congr 1; omega
  have hall := @forRange_induction α P body size.toNat 0
    (fun j a hfirst hlast => hstep j a hfirst (by omega)) a h
  rw [Int.toNat_of_nonneg hsize,zero_add] at hall
  rw [forTo,hcount]
  exact hall

/-- What holds up to a cell of a grid, if each cell takes it to the next and the
end of each row to the next row. -/
theorem forGrid_induction {P : ℤ→ℤ→α→Prop} {body : ℤ→ℤ→α→α} {height width : ℤ}
    (hheight : 0≤height) (hwidth : 0≤width)
    (hstep : ∀ row col a, 0≤row → row<height→0≤col → col<width→P row col a →
      P row (col+1) (body row col a))
    (hline : ∀ row a, P row width a→P (row+1) 0 a) {a : α} (h : P 0 0 a) :
    P height 0 (forTo (fun row a => forTo (fun col a => body row col a) 0 (width-1) a)
      0 (height-1) a) := by
  refine @forTo_induction α (fun row a => P row 0 a) _ height hheight ?_ a h
  intro row a hrow hlast hbefore
  refine hline row _ (@forTo_induction α (P row) _ width hwidth ?_ a hbefore)
  exact fun col a hcol hend => hstep row col a hrow hlast hcol hend

/-- Loops over the same range keep two values related. -/
theorem forRange_rel {R : α→β→Prop} {body : ℤ→α→α} {body' : ℤ→β→β}
    (hbody : ∀ i a b, R a b→R (body i a) (body' i b)) (count : ℕ) (i : ℤ) {a : α} {b : β}
    (h : R a b) : R (forRange body count i a) (forRange body' count i b) := by
  induction count generalizing i a b with
  | zero => exact h
  | succ count ih => exact ih (i+1) (hbody i a b h)

/-- Loops whose turns keep states related keep them related. -/
theorem forTo_rel {R : α→β→Prop} {body : ℤ→α→α} {body' : ℤ→β→β}
    (hbody : ∀ i a b, R a b→R (body i a) (body' i b)) (first last : ℤ) {a : α} {b : β}
    (h : R a b) : R (forTo body first last a) (forTo body' first last b) :=
  forRange_rel hbody _ first h

end Loops

/-- A cell is a cell of the grid. -/
def Display.InGrid (display : Display) (cell : ℤ×ℤ) : Prop :=
  (0≤cell.1 ∧ cell.1<display.height) ∧ 0≤cell.2 ∧ cell.2<display.width

instance (display : Display) (cell : ℤ×ℤ) : Decidable (display.InGrid cell) :=
  inferInstanceAs (Decidable (_ ∧ _))

/-- An operation that has been handled. -/
def Operation.handled (operation : Operation) : Operation := { operation with type := .nop }

/-! ## Where rectangles end -/

section Detection

variable {joins : ℤ→Bool}

theorem le_rectangleEnd (joins : ℤ→Bool) (count : ℕ) (col : ℤ) :
    col≤rectangleEnd joins count col := by
  induction count generalizing col with
  | zero => exact le_rfl
  | succ count ih =>
    rw [rectangleEnd]
    split
    · exact (Int.le_add_one le_rfl).trans (ih (col+1))
    · exact le_rfl

theorem rectangleEnd_le (joins : ℤ→Bool) (count : ℕ) (col : ℤ) :
    rectangleEnd joins count col≤col+count := by
  induction count generalizing col with
  | zero => exact (add_zero col).ge
  | succ count ih =>
    have hrest := ih (col+1)
    rw [rectangleEnd]
    split <;> push_cast at hrest ⊢ <;> omega

theorem joins_of_lt_rectangleEnd {count : ℕ} {col i : ℤ} (hfirst : col ≤ i)
    (hlast : i<rectangleEnd joins count col) : joins i=true := by
  induction count generalizing col with
  | zero => exact absurd hlast (not_lt.mpr hfirst)
  | succ count ih =>
    rw [rectangleEnd] at hlast
    split at hlast
    · rename_i hjoins
      rcases eq_or_lt_of_le hfirst with rfl | hlt
      · exact hjoins
      · exact ih hlt hlast
    · exact absurd hlast (not_lt.mpr hfirst)

theorem lt_rectangleEnd {count : ℕ} {col : ℤ} (hcount : 0<count) (hjoins : joins col=true) :
    col<rectangleEnd joins count col := by
  obtain ⟨count,rfl⟩ := Nat.exists_eq_add_one.mpr hcount
  rw [rectangleEnd,if_pos hjoins]
  exact Int.lt_of_add_one_le (le_rectangleEnd joins count (col+1))

theorem joins_rectangleEnd {count : ℕ} {col : ℤ} (hlast : rectangleEnd joins count col<col+count) :
    joins (rectangleEnd joins count col)=false := by
  induction count generalizing col with
  | zero => exact absurd hlast (not_lt.mpr (add_zero col).le)
  | succ count ih =>
    rw [rectangleEnd] at hlast ⊢
    split
    · rename_i hjoins
      rw [if_pos hjoins] at hlast
      exact ih (by push_cast at hlast; omega)
    · rename_i hjoins
      exact Bool.eq_false_of_not_eq_true hjoins

/-- All operations between a cell and the last of a rectangle belong to it. -/
def AllJoin (joins : ℤ→ℤ→Bool) (row col : ℤ) (detected : ℤ×ℤ) : Prop :=
  ∀ r c, row≤r → r≤detected.2 → col≤c → c≤detected.1 → joins r c=true

/-- Rows are added to a rectangle as long as they are wide enough. -/
theorem detectRows_spec {joins : ℤ→ℤ→Bool} {width row col : ℤ} (count : ℕ) {rectRow right : ℤ}
    (hright : col≤right ∧ right<width) (hcol : 0≤col) (hrow : row<rectRow)
    (hall : AllJoin joins row col (right,rectRow-1)) :
    ∃ bottom, detectRows joins width col count rectRow (right,rectRow-1)=(right,bottom) ∧
      (rectRow-1≤bottom ∧ bottom<rectRow+count) ∧ AllJoin joins row col (right,bottom) ∧
      (bottom+1=rectRow+count ∨ ∃ c, (col≤c ∧ c≤right) ∧ joins (bottom+1) c=false) := by
  induction count generalizing rectRow with
  | zero => exact ⟨rectRow-1,rfl,⟨le_rfl,by push_cast; omega⟩,hall,Or.inl (by push_cast; omega)⟩
  | succ count ih =>
    rw [detectRows]
    split
    · rename_i hnarrow
      refine ⟨rectRow-1,rfl,⟨le_rfl,by push_cast; omega⟩,hall,Or.inr
        ⟨rectangleEnd (joins rectRow) (width-col).toNat col,⟨le_rectangleEnd _ _ _,by omega⟩,?_⟩⟩
      rw [sub_add_cancel]
      exact joins_rectangleEnd (by omega)
    · rename_i hwide
      have hextended : AllJoin joins row col (right,rectRow+1-1) := by
        intro r c hr hr' hc hc'
        dsimp only at hr' hc'
        rcases eq_or_lt_of_le (show r≤rectRow by omega) with rfl | hlt
        · exact joins_of_lt_rectangleEnd hc
            (show c<rectangleEnd (joins r) (width-col).toNat col by omega)
        · exact hall r c hr (by dsimp only; omega) hc hc'
      obtain ⟨bottom,hdetected,hbottom,hjoin,hlast⟩ := ih (show row<rectRow+1 by omega) hextended
      rw [if_neg (show ¬right = -1 by omega)]
      rw [add_sub_cancel_right] at hdetected hbottom
      exact ⟨bottom,hdetected,⟨by omega,by push_cast; omega⟩,hjoin,
        hlast.imp_left fun heq => by push_cast; omega⟩

/-- A rectangle has only cells of the grid with operations that belong to it,
the first of all among them, and no row or column could be added to it. -/
theorem detectRectangle_spec {display : Display} {joins : ℤ→ℤ→Bool} {row col : ℤ}
    (hgrid : display.InGrid (row,col)) (hjoins : joins row col=true) {rect : GridRect}
    (hrect : rect=detectRectangle display joins row col) :
    (rect.row=row ∧ rect.col=col ∧ rect.contains (row,col)=true) ∧
      (∀ r c, rect.contains (r,c)=true → display.InGrid (r,c) ∧ joins r c=true) ∧
      ¬(display.InGrid (row,col+rect.width) ∧ joins row (col+rect.width)=true) ∧
      ∃ c, (col≤c ∧ c<col+rect.width) ∧
        ¬(display.InGrid (row+rect.height,c) ∧ joins (row+rect.height) c=true) := by
  obtain ⟨⟨hrow,hheight⟩,hcol,hwidth⟩ := hgrid
  dsimp only at hrow hheight hcol hwidth
  obtain ⟨count,hcount⟩ : ∃ count, (display.height-row).toNat=count+1 :=
    Nat.exists_eq_add_one.mpr (by omega)
  have hend := @lt_rectangleEnd (joins row) (display.width-col).toNat col (by omega) hjoins
  have hlast := rectangleEnd_le (joins row) (display.width-col).toNat col
  have hfirst : AllJoin joins row col
      (rectangleEnd (joins row) (display.width-col).toNat col-1,row+1-1) := by
    intro r c hr hr' hc hc'
    dsimp only at hr' hc'
    obtain rfl : r=row := by omega
    exact joins_of_lt_rectangleEnd hc
      (show c<rectangleEnd (joins r) (display.width-col).toNat col by omega)
  obtain ⟨bottom,hdetected,hbottom,hrest⟩ :=
    @detectRows_spec joins display.width row col count (row+1)
      (rectangleEnd (joins row) (display.width-col).toNat col-1) (by omega) hcol (by omega) hfirst
  rw [add_sub_cancel_right] at hdetected hbottom
  have hrows : detectRows joins display.width col (display.height-row).toNat row (-1,row)=
      (rectangleEnd (joins row) (display.width-col).toNat col-1,bottom) := by
    rw [hcount,detectRows,if_neg (by omega),if_pos rfl,hdetected]
  unfold detectRectangle at hrect
  rw [hrows] at hrect
  subst hrect
  unfold GridRect.contains Display.InGrid
  simp only [decide_eq_true_eq]
  refine ⟨⟨trivial,trivial,by clear hrest; omega⟩,fun r c h => ?_,?_,?_⟩
  · have hall := hrest.1 r c
    clear hrest
    exact ⟨by omega,hall (by omega) (by dsimp only; omega) (by omega) (by dsimp only; omega)⟩
  · rintro ⟨hin,hjoin⟩
    have hshort : rectangleEnd (joins row) (display.width-col).toNat col<
        col+(display.width-col).toNat := by omega
    have hmore := joins_rectangleEnd hshort
    rw [show col+(rectangleEnd (joins row) (display.width-col).toNat col-1-col+1)=
      rectangleEnd (joins row) (display.width-col).toNat col by omega,hmore] at hjoin
    cases hjoin
  · rcases hrest.2 with heq | ⟨c,hc,hfalse⟩
    · refine ⟨col,by omega,fun hboth => ?_⟩
      have hlow := hboth.1.1.2
      omega
    · refine ⟨c,by omega,fun hboth => ?_⟩
      rw [show row+(bottom-row+1)=bottom+1 by omega,hfalse] at hboth
      cases hboth.2

end Detection

/-! ## What a scan handles -/

/-- Operations that have been handled are no longer of the kind. -/
structure RectangleKind.Lawful (kind : RectangleKind) : Prop where
  begins_handled : ∀ operation : Operation, kind.begins operation.handled=false
  joins_handled : ∀ current rows columns (operation : Operation),
    kind.joins current rows columns operation.handled=false
  /-- What belongs to a rectangle is of the kind. -/
  begins_of_joins : ∀ current rows columns operation,
    kind.joins current rows columns operation=true → kind.begins operation=true

theorem copyKind_lawful : copyKind.Lawful where
  begins_handled _ := rfl
  joins_handled _ _ _ _ := by simp [copyKind,Operation.handled]
  begins_of_joins _ _ _ _ h := decide_eq_true (of_decide_eq_true h).1

theorem clearKind_lawful (display : Display) : (clearKind display).Lawful where
  begins_handled _ := rfl
  joins_handled _ _ _ _ := rfl
  begins_of_joins _ _ _ _ h := (Bool.and_eq_true_iff.mp h).1

/-- Each operation of the kind belongs to the rectangle that begins with it. -/
def RectangleKind.JoinsItself (kind : RectangleKind) (display : Display) : Prop :=
  ∀ row col, display.InGrid (row,col) → kind.begins (display.operations row col)=true →
    kind.joins (display.operations row col) 0 0 (display.operations row col)=true

theorem copyKind_joinsItself (display : Display) : copyKind.JoinsItself display := by
  intro row col _ hbegins
  simpa [copyKind] using hbegins

/-- The rectangles found so far, each with its first operation, and one more. -/
def collect (current : Operation) (rect : GridRect) (found : List (Operation×GridRect)) :
    List (Operation×GridRect) := found++[(current,rect)]

/-- The rectangles that a scan finds, in order. -/
def rectangles (kind : RectangleKind) (display : Display) : List (Operation×GridRect) :=
  (flushRectangles kind collect display []).2

/-- The operations after a scan. -/
def scanned (kind : RectangleKind) (display : Display) : Display :=
  (flushRectangles kind collect display []).1

/-- One scan has collected the rectangles of which the other has made a state. -/
def Sent {σ : Type} (send : Operation→GridRect→σ→σ) (s : σ)
    (collected : Display×List (Operation×GridRect)) (state : Display×σ) : Prop :=
  state=(collected.1,collected.2.foldl (fun s found => send found.1 found.2 s) s)

/-- A rectangle is sent as it is collected. -/
theorem sent_flushRectangleAt {σ : Type} (kind : RectangleKind)
    (send : Operation→GridRect→σ→σ) (s : σ) (row col : ℤ)
    (collected : Display×List (Operation×GridRect)) (state : Display×σ)
    (h : Sent send s collected state) :
    Sent send s (flushRectangleAt kind collect row col collected)
      (flushRectangleAt kind send row col state) := by
  obtain rfl := h
  unfold Sent flushRectangleAt
  dsimp only
  split
  · rw [collect,foldl_append]
    rfl
  · rfl

/-- What is done with the rectangles does not change which there are. -/
theorem flushRectangles_eq {σ : Type} (kind : RectangleKind)
    (send : Operation→GridRect→σ→σ) (display : Display) (s : σ) :
    flushRectangles kind send display s=(scanned kind display,
      (rectangles kind display).foldl (fun s found => send found.1 found.2 s) s) := by
  have hsent : Sent send s (flushRectangles kind collect display [])
      (flushRectangles kind send display s) := by
    refine forTo_rel (fun row collected state h => ?_) _ _ rfl
    exact forTo_rel (fun col collected state h =>
      sent_flushRectangleAt kind send s row col collected state h) _ _ h
  exact hsent

/-- A rectangle begins before a cell. -/
def GridRect.Begins (rect : GridRect) (row col : ℤ) : Prop :=
  rect.row<row ∨ rect.row=row ∧ rect.col<col

theorem GridRect.Begins.next {rect : GridRect} {row col : ℤ} (h : rect.Begins row col) :
    rect.Begins row (col+1) := h.imp_right fun hsame => ⟨hsame.1,hsame.2.trans (lt_add_one col)⟩

/-- The rectangle of an operation cannot have a cell, unless it is in one that begins before. -/
def Ends (kind : RectangleKind) (display : Display) (all : List (Operation×GridRect))
    (found : Operation×GridRect) (r c : ℤ) : Prop :=
  display.InGrid (r,c) →
    kind.joins found.1 (r-found.2.row) (c-found.2.col) (display.operations r c)=true →
      ∃ other∈all, other.2.Begins found.2.row found.2.col ∧ other.2.contains (r,c)=true

/-- What a scan has done before a cell of the grid. -/
structure Scanned (kind : RectangleKind) (display : Display) (row col : ℤ)
    (state : Display×List (Operation×GridRect)) : Prop where
  keeps : ∃ operations, state.1 = { display with operations := operations }
  /-- The operations of the rectangles have been handled, and no others. -/
  handled : ∀ r c, (∃ found∈state.2, found.2.contains (r,c)=true) →
    state.1.operations r c=(display.operations r c).handled
  untouched : ∀ r c, (∀ found∈state.2, ¬found.2.contains (r,c)=true) →
    state.1.operations r c=display.operations r c
  inside : ∀ found∈state.2, ∀ r c, found.2.contains (r,c)=true → display.InGrid (r,c) ∧
      kind.joins found.1 (r-found.2.row) (c-found.2.col) (display.operations r c)=true
  disjoint : state.2.Pairwise fun earlier later => ∀ cell,
    earlier.2.contains cell=true→¬later.2.contains cell=true
  corner : ∀ found∈state.2, found.1=display.operations found.2.row found.2.col ∧
    found.2.contains (found.2.row,found.2.col)=true
  before : ∀ found∈state.2, found.2.Begins row col
  ordered : state.2.Pairwise fun earlier later => earlier.2.Begins later.2.row later.2.col
  /-- No row or column could be added to a rectangle. -/
  whole : ∀ found∈state.2, Ends kind display state.2 found found.2.row (found.2.col+found.2.width) ∧
      ∃ c, (found.2.col≤c ∧ c<found.2.col+found.2.width) ∧
        Ends kind display state.2 found (found.2.row+found.2.height) c
  /-- No operation of the kind is left. -/
  complete : ∀ r c, display.InGrid (r,c) → r<row ∨ r=row ∧ c<col →
    kind.begins (display.operations r c)=true → ∃ found∈state.2, found.2.contains (r,c)=true

namespace Scanned

variable {kind : RectangleKind} {display : Display} {row col : ℤ}
  {state : Display×List (Operation×GridRect)}

theorem start (kind : RectangleKind) (display : Display) :
    Scanned kind display 0 0 (display,[]) where
  keeps := ⟨_,rfl⟩
  handled _ _ h := absurd h (by simp)
  untouched _ _ _ := rfl
  inside _ h := absurd h not_mem_nil
  disjoint := List.Pairwise.nil
  corner _ h := absurd h not_mem_nil
  before _ h := absurd h not_mem_nil
  ordered := List.Pairwise.nil
  whole _ h := absurd h not_mem_nil
  complete r c hgrid hbefore _ := by
    obtain ⟨⟨hr,-⟩,hc,-⟩ := hgrid
    dsimp only at hr hc
    omega

/-- The rest of a row has no cells. -/
theorem line (h : Scanned kind display row display.width state) :
    Scanned kind display (row+1) 0 state :=
  { h with
    before := fun found hfound => (h.before found hfound).elim
      (fun hrow => Or.inl (hrow.trans (lt_add_one row)))
      fun hsame => Or.inl (Int.lt_add_one_of_le hsame.1.le)
    complete := by
      intro r c hgrid hbefore
      have hwidth : c<display.width := hgrid.2.2
      have hc : 0≤c := hgrid.2.1
      exact h.complete r c hgrid (by omega) }

theorem inGrid_iff (h : Scanned kind display row col state) (cell : ℤ×ℤ) :
    state.1.InGrid cell ↔ display.InGrid cell := by
  obtain ⟨operations,hoperations⟩ := h.keeps
  rw [hoperations]
  rfl

/-- An operation has been handled in a rectangle, or it is as before. -/
theorem handled_or_eq (h : Scanned kind display row col state) (r c : ℤ) :
    (∃ found∈state.2, found.2.contains (r,c)=true) ∧
        state.1.operations r c=(display.operations r c).handled ∨
      (∀ found∈state.2, ¬found.2.contains (r,c)=true) ∧
        state.1.operations r c=display.operations r c := by
  by_cases hfound : ∃ found∈state.2, found.2.contains (r,c)=true
  · exact Or.inl ⟨hfound,h.handled r c hfound⟩
  · have hnone : ∀ found∈state.2, ¬found.2.contains (r,c)=true :=
      fun found hmem hcontains => hfound ⟨found,hmem,hcontains⟩
    exact Or.inr ⟨hnone,h.untouched r c hnone⟩

/-- What belongs to a rectangle has not been handled before. -/
theorem not_handled (hlawful : kind.Lawful) (h : Scanned kind display row col state) {r c : ℤ}
    {current : Operation} {rows columns : ℤ}
    (hjoins : kind.joins current rows columns (state.1.operations r c)=true) :
    (∀ found∈state.2, ¬found.2.contains (r,c)=true) ∧
      state.1.operations r c=display.operations r c := by
  rcases h.handled_or_eq r c with ⟨-,hhandled⟩ | heq
  · rw [hhandled,hlawful.joins_handled] at hjoins
    exact absurd hjoins Bool.false_ne_true
  · exact heq

/-- A cell with no operation of the kind is passed. -/
theorem skip (h : Scanned kind display row col state)
    (hbegins : ¬kind.begins (state.1.operations row col)=true) :
    Scanned kind display row (col+1) state :=
  { h with
    before := fun found hfound => (h.before found hfound).next
    complete := by
      intro r c hgrid hbefore hkind
      by_cases hcurrent : r=row ∧ c=col
      · obtain ⟨rfl,rfl⟩ := hcurrent
        rcases h.handled_or_eq r c with ⟨hfound,-⟩ | ⟨-,heq⟩
        · exact hfound
        · rw [heq] at hbegins
          exact absurd hkind hbegins
      · exact h.complete r c hgrid (by omega) hkind }

/-- What does not belong to a rectangle when it is found is in one that begins before. -/
theorem ends_of_not_joins (h : Scanned kind display row col state) {found : Operation×GridRect}
    (hcurrent : found.1=state.1.operations row col) (hcorner : found.2.row=row ∧ found.2.col=col)
    {r c : ℤ} (hnot : ¬(state.1.InGrid (r,c) ∧ joinsAt kind state.1 row col r c=true)) :
    Ends kind display (state.2++[found]) found r c := by
  intro hgrid hjoins
  rcases h.handled_or_eq r c with ⟨⟨other,hother,hcontains⟩,-⟩ | ⟨-,heq⟩
  · rw [hcorner.1,hcorner.2]
    exact ⟨other,mem_append_left _ hother,h.before other hother,hcontains⟩
  · rw [hcorner.1,hcorner.2,hcurrent,←heq] at hjoins
    exact absurd ⟨(h.inGrid_iff _).mpr hgrid,hjoins⟩ hnot

/-- The rectangle of an operation of the kind is found and handled. -/
theorem add (hlawful : kind.Lawful) (h : Scanned kind display row col state)
    (hcurrent : state.1.operations row col=display.operations row col) {rect : GridRect}
    (hcorner : rect.row=row ∧ rect.col=col ∧ rect.contains (row,col)=true)
    (hrect : ∀ r c, rect.contains (r,c)=true → display.InGrid (r,c) ∧
      joinsAt kind state.1 row col r c=true)
    (hwide : ¬(state.1.InGrid (row,col+rect.width) ∧
      joinsAt kind state.1 row col row (col+rect.width)=true))
    (hhigh : ∃ c, (col≤c ∧ c<col+rect.width) ∧ ¬(state.1.InGrid (row+rect.height,c) ∧
      joinsAt kind state.1 row col (row+rect.height) c=true)) :
    Scanned kind display row (col+1) (markHandled state.1 (joinsAt kind state.1 row col) rect,
      collect (state.1.operations row col) rect state.2) := by
  obtain ⟨hrow,hcol,hcontains⟩ := hcorner
  have hfresh : ∀ r c, rect.contains (r,c)=true → (∀ found∈state.2, ¬found.2.contains (r,c)=true) ∧
        state.1.operations r c=display.operations r c :=
    fun r c hmem => h.not_handled hlawful (hrect r c hmem).2
  have hfound : ∀ {r c}, (∃ found∈collect (state.1.operations row col) rect state.2,
      found.2.contains (r,c)=true) ↔
        (∃ found∈state.2, found.2.contains (r,c)=true) ∨ rect.contains (r,c)=true := by
    intro r c
    simp [collect,or_and_right,exists_or]
  have hcases : ∀ found∈collect (state.1.operations row col) rect state.2,
      found∈state.2 ∨ found=(state.1.operations row col,rect) := fun found hmem =>
    (mem_append.mp hmem).imp_right mem_singleton.mp
  have hmarked : ∀ r c, ¬rect.contains (r,c)=true →
      (markHandled state.1 (joinsAt kind state.1 row col) rect).operations r c=
        state.1.operations r c := fun r c hin => if_neg fun hboth => hin hboth.1
  constructor
  · obtain ⟨operations,hoperations⟩ := h.keeps
    exact ⟨_,by rw [markHandled,hoperations]⟩
  · intro r c hmem
    by_cases hin : rect.contains (r,c)=true
    · have heq : (markHandled state.1 (joinsAt kind state.1 row col) rect).operations r c=
          { state.1.operations r c with type := .nop } := if_pos ⟨hin,(hrect r c hin).2⟩
      rw [heq,(hfresh r c hin).2]
      rfl
    · rw [hmarked r c hin]
      exact h.handled r c ((hfound.mp hmem).resolve_right hin)
  · intro r c hnone
    rw [hmarked r c (hnone (_,rect) (mem_append_right _ (mem_singleton_self _)))]
    exact h.untouched r c fun found hmem => hnone found (mem_append_left _ hmem)
  · intro found hmem r c hin
    rcases hcases found hmem with hmem | rfl
    · exact h.inside found hmem r c hin
    · obtain ⟨hgrid,hjoins⟩ := hrect r c hin
      rw [joinsAt,(hfresh r c hin).2] at hjoins
      rw [hrow,hcol]
      exact ⟨hgrid,hjoins⟩
  · refine pairwise_append.mpr ⟨h.disjoint,pairwise_singleton _ _,?_⟩
    rintro found hmem later hlater ⟨r,c⟩ hin hin'
    obtain rfl := mem_singleton.mp hlater
    exact (hfresh r c hin').1 found hmem hin
  · intro found hmem
    rcases hcases found hmem with hmem | rfl
    · exact h.corner found hmem
    · dsimp only
      rw [hrow,hcol]
      exact ⟨hcurrent,hcontains⟩
  · intro found hmem
    rcases hcases found hmem with hmem | rfl
    · exact (h.before found hmem).next
    · exact Or.inr ⟨hrow,by dsimp only; omega⟩
  · refine pairwise_append.mpr ⟨h.ordered,pairwise_singleton _ _,?_⟩
    intro found hmem later hlater
    obtain rfl := mem_singleton.mp hlater
    dsimp only
    rw [hrow,hcol]
    exact h.before found hmem
  · intro found hmem
    rcases hcases found hmem with hmem | rfl
    · have hmore : ∀ {r c}, Ends kind display state.2 found r c →
          Ends kind display (collect (state.1.operations row col) rect state.2) found r c := by
        intro r c hends hgrid hjoins
        obtain ⟨other,hother,hboth⟩ := hends hgrid hjoins
        exact ⟨other,mem_append_left _ hother,hboth⟩
      obtain ⟨hends,c,hc,hends'⟩ := h.whole found hmem
      exact ⟨hmore hends,c,hc,hmore hends'⟩
    · obtain ⟨c,hc,hnot⟩ := hhigh
      dsimp only
      rw [hrow,hcol]
      exact ⟨h.ends_of_not_joins rfl ⟨hrow,hcol⟩ hwide,c,hc,
        h.ends_of_not_joins rfl ⟨hrow,hcol⟩ hnot⟩
  · intro r c hgrid hbefore hkind
    by_cases hhere : r=row ∧ c=col
    · obtain ⟨rfl,rfl⟩ := hhere
      exact hfound.mpr (Or.inr hcontains)
    · exact hfound.mpr (Or.inl (h.complete r c hgrid (by omega) hkind))

/-- One turn of a scan. -/
theorem step (hlawful : kind.Lawful) (hself : kind.JoinsItself display)
    (hgrid : display.InGrid (row,col)) (h : Scanned kind display row col state) :
    Scanned kind display row (col+1) (flushRectangleAt kind collect row col state) := by
  unfold flushRectangleAt
  dsimp only
  split
  · rename_i hbegins
    have hcurrent : state.1.operations row col=display.operations row col := by
      rcases h.handled_or_eq row col with ⟨-,hhandled⟩ | ⟨-,heq⟩
      · rw [hhandled,hlawful.begins_handled] at hbegins
        exact absurd hbegins Bool.false_ne_true
      · exact heq
    have hjoins : joinsAt kind state.1 row col row col=true := by
      rw [hcurrent] at hbegins
      rw [joinsAt,sub_self,sub_self,hcurrent]
      exact hself row col hgrid hbegins
    obtain ⟨hcorner,hrect,hwide,hhigh⟩ :=
      detectRectangle_spec ((h.inGrid_iff _).mpr hgrid) hjoins rfl
    refine h.add hlawful hcurrent hcorner (fun r c hin => ?_) hwide hhigh
    exact ⟨(h.inGrid_iff _).mp (hrect r c hin).1,(hrect r c hin).2⟩
  · rename_i hbegins
    exact h.skip hbegins

end Scanned

/-- The size of a grid. -/
structure Display.Sized (display : Display) : Prop where
  width_nonneg : 0≤display.width
  width_lt : display.width<2^31
  height_nonneg : 0≤display.height
  height_lt : display.height<2^31

/-- A scan of the whole grid. -/
theorem scanned_all {kind : RectangleKind} {display : Display} (hlawful : kind.Lawful)
    (hself : kind.JoinsItself display) (hsized : display.Sized) :
    Scanned kind display display.height 0 (scanned kind display,rectangles kind display) :=
  forGrid_induction hsized.height_nonneg hsized.width_nonneg
    (fun _ _ _ hrow hheight hcol hwidth h =>
      h.step hlawful hself ⟨⟨hrow,hheight⟩,hcol,hwidth⟩)
    (fun _ _ h => h.line) (Scanned.start kind display)

section Rectangles

variable {kind : RectangleKind} {display : Display} {r c : ℤ}

section

variable (hlawful : kind.Lawful) (hself : kind.JoinsItself display) (hsized : display.Sized)

include hlawful hself hsized

/-- The rectangles hold the operations of the kind. -/
theorem rectangles_contain_iff : (∃ found∈rectangles kind display, found.2.contains (r,c)=true) ↔
      display.InGrid (r,c) ∧ kind.begins (display.operations r c)=true := by
  have hall := scanned_all hlawful hself hsized
  constructor
  · rintro ⟨found,hmem,hcontains⟩
    obtain ⟨hgrid,hjoins⟩ := hall.inside found hmem r c hcontains
    exact ⟨hgrid,hlawful.begins_of_joins _ _ _ _ hjoins⟩
  · rintro ⟨hgrid,hbegins⟩
    exact hall.complete r c hgrid (Or.inl hgrid.1.2) hbegins

/-- Exactly the operations of the kind have been handled. -/
theorem scanned_operations (hgrid : display.InGrid (r,c)) : (scanned kind display).operations r c=
      if kind.begins (display.operations r c) then (display.operations r c).handled
      else display.operations r c := by
  have hall := scanned_all hlawful hself hsized
  have hiff := @rectangles_contain_iff kind display r c hlawful hself hsized
  split
  · rename_i hbegins
    exact hall.handled r c (hiff.mpr ⟨hgrid,hbegins⟩)
  · rename_i hbegins
    refine hall.untouched r c fun found hmem hcontains => hbegins ?_
    exact (hiff.mp ⟨found,hmem,hcontains⟩).2

theorem scanned_keeps :
    ∃ operations, scanned kind display = { display with operations := operations } :=
  (scanned_all hlawful hself hsized).keeps

end

end Rectangles

/-! ## Copies -/

section Copies

variable {α : Type} {display : Display} {r c : ℤ}

/-- The copies of a flush, in order. -/
def pendingCopies (display : Display) : List (Copy (ℤ×ℤ)) :=
  (rectangles copyKind display).map fun found => rectangleCopy found.1 found.2

theorem flushCopy_eq (display : Display) (screen : Screen α) :
    guacTerminalDisplayFlushCopy display screen=
      (scanned copyKind display,runAll (pendingCopies display) screen) := by
  unfold guacTerminalDisplayFlushCopy
  rw [flushRectangles_eq]
  unfold pendingCopies runAll
  rw [foldl_map]

theorem pendingCopies_disjoint (hsized : display.Sized) : Disjoint (pendingCopies display) :=
  pairwise_map.mpr (scanned_all copyKind_lawful (copyKind_joinsItself display) hsized).disjoint

/-- Each cell of a copy is copied from where its operation says. -/
theorem source_of_pendingCopies (hsized : display.Sized) {copy : Copy (ℤ×ℤ)}
    (hcopy : copy∈pendingCopies display) (htarget : copy.target (r,c)=true) :
    display.InGrid (r,c) ∧ (display.operations r c).type=.copy ∧
      copy.source (r,c)=((display.operations r c).row,(display.operations r c).column) := by
  obtain ⟨found,hfound,rfl⟩ := mem_map.mp hcopy
  obtain ⟨hgrid,hjoins⟩ := (scanned_all copyKind_lawful (copyKind_joinsItself display)
    hsized).inside found hfound r c htarget
  obtain ⟨htype,hrow,hcolumn⟩ := of_decide_eq_true hjoins
  refine ⟨hgrid,htype,?_⟩
  rw [hrow,hcolumn]
  rfl

theorem exists_pendingCopy (hsized : display.Sized) (hgrid : display.InGrid (r,c))
    (hcopy : (display.operations r c).type=.copy) :
    ∃ copy∈pendingCopies display, copy.target (r,c)=true := by
  obtain ⟨found,hfound,hcontains⟩ := (rectangles_contain_iff copyKind_lawful
    (copyKind_joinsItself display) hsized).mpr ⟨hgrid,decide_eq_true hcopy⟩
  exact ⟨_,mem_map.mpr ⟨found,hfound,rfl⟩,hcontains⟩

/-! ### Cells that move -/

/-- A cell is to be copied from the one that is so many rows and columns away. -/
def Display.Moves (display : Display) (motion cell : ℤ×ℤ) : Prop :=
  display.InGrid cell ∧ (display.operations cell.1 cell.2).type=.copy ∧
    (display.operations cell.1 cell.2).row=cell.1+motion.1 ∧
    (display.operations cell.1 cell.2).column=cell.2+motion.2

instance (display : Display) (motion cell : ℤ×ℤ) : Decidable (display.Moves motion cell) :=
  inferInstanceAs (Decidable (_ ∧ _))

/-- The cells of a rectangle move together. Next to its first row and above it no cell moves in
the same way. -/
structure Display.Block (display : Display) (motion : ℤ×ℤ) (rect : GridRect) : Prop where
  moves : ∀ cell, rect.contains cell=true → display.Moves motion cell
  left : ¬display.Moves motion (rect.row,rect.col-1)
  right : ¬display.Moves motion (rect.row,rect.col+rect.width)
  above : ∀ col, rect.col≤col → col<rect.col+rect.width→¬display.Moves motion (rect.row-1,col)

/-- A cell that is to be copied from one that itself is to be copied from elsewhere is above
this one in its column, or before it where no cell above that one moves in its way, or both are
in one block. -/
def CopiesApart (display : Display) : Prop :=
  ∀ motion motion' cell, display.Moves motion cell →
    display.Moves motion' (cell.1+motion.1,cell.2+motion.2) → motion'≠(0,0) →
      motion.2=0 ∧ 0 < motion.1 ∨ (0 < motion.1 ∨ motion.1=0 ∧ 0 < motion.2) ∧
          ¬display.Moves motion' (cell.1+motion.1-1,cell.2+motion.2) ∨
        ∃ rect, display.Block motion rect ∧ rect.contains cell=true ∧
          rect.contains (cell.1+motion.1,cell.2+motion.2)=true

theorem Display.Moves.unique {motion motion' cell : ℤ×ℤ} (h : display.Moves motion cell)
    (h' : display.Moves motion' cell) : motion=motion' := by
  obtain ⟨-,-,hrow,hcolumn⟩ := h
  obtain ⟨-,-,hrow',hcolumn'⟩ := h'
  exact Prod.ext (by omega) (by omega)

theorem contains_iff {rect : GridRect} {cell : ℤ×ℤ} : rect.contains cell=true ↔
    (rect.row≤cell.1 ∧ cell.1<rect.row+rect.height) ∧
      rect.col≤cell.2 ∧ cell.2<rect.col+rect.width := decide_eq_true_iff

section

variable (hsized : display.Sized)

include hsized

theorem scanned_copies : Scanned copyKind display display.height 0
    (scanned copyKind display,rectangles copyKind display) :=
  scanned_all copyKind_lawful (copyKind_joinsItself display) hsized

/-- The cells of a rectangle move as its first operation does. -/
theorem moves_of_contains {found : Operation×GridRect} (hfound : found∈rectangles copyKind display)
    {cell : ℤ×ℤ} (hcontains : found.2.contains cell=true) :
    display.Moves (found.1.row-found.2.row,found.1.column-found.2.col) cell := by
  obtain ⟨hgrid,hjoins⟩ := (scanned_copies hsized).inside found hfound cell.1 cell.2 hcontains
  obtain ⟨htype,hrow,hcolumn⟩ := of_decide_eq_true hjoins
  exact ⟨hgrid,htype,by dsimp only; omega,by dsimp only; omega⟩

variable {motion : ℤ×ℤ} {rect : GridRect} (hblock : display.Block motion rect)

include hblock

/-- No rectangle that begins before a block has a cell of it. -/
theorem not_begins_of_block {found : Operation×GridRect}
    (hfound : found∈rectangles copyKind display) {cell : ℤ×ℤ}
    (hcontains : found.2.contains cell=true) (hcell : rect.contains cell=true) :
    ¬found.2.Begins rect.row rect.col := by
  have hsame := (moves_of_contains hsized hfound hcontains).unique (hblock.moves cell hcell)
  have hmoves : ∀ other, found.2.contains other=true → display.Moves motion other :=
    fun other hother => hsame ▸ moves_of_contains hsized hfound hother
  rw [contains_iff] at hcontains hcell
  rintro (hrow | ⟨hrow,hcol⟩)
  · exact hblock.above cell.2 hcell.2.1 hcell.2.2
      (hmoves _ (contains_iff.mpr (by dsimp only; omega)))
  · exact hblock.left (hmoves _ (contains_iff.mpr (by dsimp only; omega)))

/-- A block is found in one rectangle. -/
theorem exists_contains_block {corner : ℤ×ℤ} (hcorner : rect.contains corner=true) :
    ∃ found∈rectangles copyKind display, ∀ cell, rect.contains cell=true →
      found.2.contains cell=true := by
  rw [contains_iff] at hcorner
  have hfirst : rect.contains (rect.row,rect.col)=true := contains_iff.mpr (by dsimp only; omega)
  have hmoves := hblock.moves _ hfirst
  obtain ⟨found,hfound,hcontains⟩ := (rectangles_contain_iff copyKind_lawful
    (copyKind_joinsItself display) hsized).mpr ⟨hmoves.1,decide_eq_true hmoves.2.1⟩
  have hsame := (moves_of_contains hsized hfound hcontains).unique hmoves
  have hbegins := not_begins_of_block hsized hblock hfound hcontains hfirst
  have hcells := contains_iff.mp hcontains
  unfold GridRect.Begins at hbegins
  dsimp only at hcells
  have hrow : found.2.row=rect.row := by omega
  have hcol : found.2.col=rect.col := by omega
  -- cells of the block that the rectangle has not are not in one that begins before
  have hends : ∀ r c, rect.contains (r,c)=true →
      ¬Ends copyKind display (rectangles copyKind display) found r c := by
    intro r c hcell hends
    obtain ⟨hgrid,htype,hfrom,hfrom'⟩ := hblock.moves _ hcell
    have hmotion := congrArg Prod.fst hsame
    have hmotion' := congrArg Prod.snd hsame
    dsimp only at hfrom hfrom' hmotion hmotion'
    obtain ⟨other,hother,hbefore,hin⟩ := hends hgrid (decide_eq_true ⟨htype,by omega,by omega⟩)
    rw [hrow,hcol] at hbefore
    exact not_begins_of_block hsized hblock hother hin hcell hbefore
  obtain ⟨hwide,c,hc,hhigh⟩ := (scanned_copies hsized).whole found hfound
  have hwidth : found.2.width=rect.width := by
    rcases lt_trichotomy found.2.width rect.width with hlt | heq | hgt
    · exact absurd hwide (hends _ _ (contains_iff.mpr (by dsimp only; omega)))
    · exact heq
    · refine absurd (hsame ▸ moves_of_contains hsized hfound (contains_iff.mpr ?_)) hblock.right
      dsimp only
      omega
  have hheight : rect.height≤found.2.height := by
    by_contra hlow
    exact hends _ _ (contains_iff.mpr (by dsimp only; omega)) hhigh
  refine ⟨found,hfound,fun cell hcell => contains_iff.mpr ?_⟩
  rw [contains_iff] at hcell
  omega

end

/-- Two rectangles with a cell in common are one. -/
theorem rectangles_unique (hsized : display.Sized) :
    ∀ found∈rectangles copyKind display, ∀ other∈rectangles copyKind display, ∀ cell,
      found.2.contains cell=true → other.2.contains cell=true → found=other := by
  let same (found other : Operation×GridRect) : Prop :=
    ∀ cell, found.2.contains cell=true → other.2.contains cell=true → found=other
  have hsymm : Std.Symm same := ⟨fun _ _ h cell hin hin' => (h cell hin' hin).symm⟩
  have hpairwise : (rectangles copyKind display).Pairwise same :=
    (scanned_copies hsized).disjoint.imp fun hnot cell hin hin' => absurd hin' (hnot cell hin)
  exact hpairwise.forall_of_forall fun _ _ _ _ _ => rfl

/-- Copies that are apart do not take contents that one before them has changed. -/
theorem pendingCopies_safe (hsized : display.Sized) (h : CopiesApart display) :
    Safe (pendingCopies display) := by
  have hone := rectangles_unique hsized
  refine pairwise_map.mpr ((scanned_copies hsized).ordered.imp_of_mem ?_)
  intro earlier later hearlier hlater horder cell (hcell : later.2.contains cell=true) hsource
  have hmoves := moves_of_contains hsized hlater hcell
  have hmoves' := moves_of_contains hsized hearlier hsource
  have hbefore : ¬earlier.2.contains cell=true := fun hin => by
    obtain rfl := hone earlier hearlier later hlater cell hin hcell
    unfold GridRect.Begins at horder
    omega
  obtain ⟨motion,hmotion⟩ : ∃ motion : ℤ×ℤ,
      motion=(later.1.row-later.2.row,later.1.column-later.2.col) := ⟨_,rfl⟩
  have hfrom : (rectangleCopy later.1 later.2).source cell=(cell.1+motion.1,cell.2+motion.2) := by
    rw [hmotion]
    exact Prod.ext (by dsimp only [rectangleCopy]; omega) (by dsimp only [rectangleCopy]; omega)
  rw [hfrom] at hmoves' ⊢
  have htarget : earlier.2.contains (cell.1+motion.1,cell.2+motion.2)=true := hfrom ▸ hsource
  rw [←hmotion] at hmoves
  by_cases hzero : (earlier.1.row-earlier.2.row,earlier.1.column-earlier.2.col)=((0,0) : ℤ×ℤ)
  · have hrow := congrArg Prod.fst hzero
    have hcol := congrArg Prod.snd hzero
    exact Prod.ext (by dsimp only [rectangleCopy] at hrow ⊢; omega)
      (by dsimp only [rectangleCopy] at hcol ⊢; omega)
  rw [contains_iff] at hcell hbefore
  have htargetIn := contains_iff.mp htarget
  unfold GridRect.Begins at horder
  dsimp only at htargetIn
  exfalso
  rcases h motion _ cell hmoves hmoves' hzero with
    hbelow | ⟨hbehind,habove⟩ | ⟨rect,hblock,hin,hin'⟩
  · omega
  · -- the rectangle of the source begins in its row
    refine habove (moves_of_contains hsized hearlier (contains_iff.mpr ?_))
    dsimp only
    omega
  · obtain ⟨found,hfound,hcontains⟩ := exists_contains_block hsized hblock hin
    have hlaterIs := hone found hfound later hlater cell (hcontains _ hin) (contains_iff.mpr hcell)
    have hearlierIs := hone found hfound earlier hearlier _ (hcontains _ hin') htarget
    rw [←hlaterIs,←hearlierIs] at horder
    omega

/-- Copies that are apart show the contents that their operations were recorded for. -/
theorem flushCopy_copy (hsized : display.Sized) (hapart : CopiesApart display)
    (hgrid : display.InGrid (r,c)) (hcopy : (display.operations r c).type=.copy)
    (screen : Screen α) :
    (guacTerminalDisplayFlushCopy display screen).2 (r,c)=
      screen ((display.operations r c).row,(display.operations r c).column) := by
  obtain ⟨copy,hmem,htarget⟩ := exists_pendingCopy hsized hgrid hcopy
  rw [flushCopy_eq]
  dsimp only
  rw [runAll_target (pendingCopies_disjoint hsized) (pendingCopies_safe hsized hapart) hmem htarget,
    (source_of_pendingCopies hsized hmem htarget).2.2]

theorem flushCopy_other (hsized : display.Sized)
    (hother : (display.operations r c).type≠.copy) (screen : Screen α) :
    (guacTerminalDisplayFlushCopy display screen).2 (r,c)=screen (r,c) := by
  rw [flushCopy_eq]
  exact runAll_of_not_target (fun copy hmem htarget =>
    hother (source_of_pendingCopies hsized hmem htarget).2.1) screen

end Copies

end GuacServer.Terminal
