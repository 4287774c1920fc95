import Mathlib.Algebra.Order.Ring.Int
import Mathlib.Data.Finset.Basic
import Mathlib.Order.Bounds.Basic
import GuacServer.TerminalCursor

/-!
# Tab stops of a terminal

The custom tab stops of a terminal should be a set of columns. They are kept in
an array of 16 entries: guac_terminal_set_tab stores a column in the first
free entry even if it is stored already, and guac_terminal_unset_tab frees only
the first entry that has the column.
-/

namespace GuacServer.Terminal

open List StateRuns

/-! ## Stops as a set -/

/-- A tab stop is a multiple of the interval, unless this is zero, or a custom stop. -/
def IsStop (interval : ℤ) (stops : Set ℤ) (column : ℤ) : Prop :=
  interval≠0 ∧ interval ∣ column ∨ column∈stops

/-- The stops after a column. -/
def stopsAfter (interval : ℤ) (stops : Set ℤ) (column : ℤ) : Set ℤ :=
  {stop | IsStop interval stops stop ∧ column<stop}

/-- The next tab stop is the least one after a column, or the last column if there is none. -/
def NextStop (width interval : ℤ) (stops : Set ℤ) (column next : ℤ) : Prop :=
  IsLeast (stopsAfter interval stops column) next ∨
    stopsAfter interval stops column = ∅ ∧ next=width-1

/-- Whether there is a custom stop in a column makes a difference to the next stop
of some column: it is not the first column, and it would not be the next stop anyway. -/
def Tells (width interval column : ℤ) : Prop :=
  1≤column ∧ if interval≠0 then ¬interval ∣ column else column≠width-1

instance (width interval column : ℤ) : Decidable (Tells width interval column) :=
  inferInstanceAs (Decidable (_ ∧ _))

/-- Stops are columns of the screen. -/
def OnScreen (width : ℤ) (stops : Set ℤ) : Prop := ∀ stop∈stops, 0 ≤ stop ∧ stop<width

section

variable {width interval column next : ℤ} {stops stops' : Set ℤ}

/-- What is next before a column that makes a difference tells whether it has a stop. -/
theorem mem_of_nextStop (htells : Tells width interval column)
    (h : NextStop width interval stops (column-1) next) : column∈stops ↔ next=column := by
  obtain ⟨hpos,htells⟩ := htells
  constructor
  · intro hmem
    have hafter : column∈stopsAfter interval stops (column-1) := ⟨Or.inr hmem,sub_one_lt column⟩
    rcases h with hleast | ⟨hnone,-⟩
    · have hle := hleast.2 hafter
      have hlt := hleast.1.2
      omega
    · rw [hnone] at hafter
      exact absurd hafter (Set.notMem_empty column)
  · rintro rfl
    rcases h with hleast | ⟨hnone,hlast⟩
    · rcases hleast.1.1 with ⟨hinterval,hdvd⟩ | hmem
      · rw [if_pos hinterval] at htells
        exact absurd hdvd htells
      · exact hmem
    · split_ifs at htells with hinterval
      · -- a multiple of the interval comes after each column
        have hmultiple : next*(interval*interval)∈stopsAfter interval stops (next-1) := by
          refine ⟨Or.inl ⟨hinterval,⟨next*interval,by ring⟩⟩,?_⟩
          have hone : 1 ≤ interval*interval := mul_self_pos.mpr hinterval
          have hle : next≤next*(interval*interval) := le_mul_of_one_le_right (by omega) hone
          omega
        rw [hnone] at hmultiple
        exact absurd hmultiple (Set.notMem_empty _)
      · exact absurd hlast htells

/-- With an interval, custom stops that are no multiples of it are all that matter. -/
theorem stopsAfter_eq_of_agrees (hinterval : interval≠0) (hcolumn : 0≤column)
    (hagrees : ∀ stop, Tells width interval stop→(stop∈stops ↔ stop∈stops')) :
    stopsAfter interval stops' column=stopsAfter interval stops column := by
  have hstops : ∀ stop, 1 ≤ stop → (IsStop interval stops stop ↔ IsStop interval stops' stop) := by
    intro stop hpos
    by_cases hdvd : interval ∣ stop
    · exact iff_of_true (Or.inl ⟨hinterval,hdvd⟩) (Or.inl ⟨hinterval,hdvd⟩)
    · have hsame := hagrees stop ⟨hpos,by rwa [if_pos hinterval]⟩
      unfold IsStop
      rw [hsame]
  ext stop
  refine and_congr_left fun hlt => (hstops stop ?_).symm
  omega

theorem mem_stopsAfter_zero {stop : ℤ} :
    stop∈stopsAfter 0 stops column ↔ stop∈stops ∧ column<stop :=
  and_congr_left fun _ => ⟨fun hstop => hstop.resolve_left fun hzero => hzero.1 rfl,Or.inr⟩

/-- Without an interval, a custom stop in the last column makes no difference. -/
theorem NextStop.of_agrees_zero (h : NextStop width 0 stops column next)
    (hcolumn : 0≤column) (hscreen : OnScreen width stops) (hscreen' : OnScreen width stops')
    (hagrees : ∀ stop, Tells width 0 stop→(stop∈stops ↔ stop∈stops')) :
    NextStop width 0 stops' column next := by
  have htells : ∀ stop, column<stop → stop≠width-1→(stop∈stops ↔ stop∈stops') :=
    fun stop hlt hne => hagrees stop ⟨by omega,by rwa [if_neg (not_not.mpr rfl)]⟩
  by_cases hnone : stopsAfter 0 stops' column = ∅
  · refine Or.inr ⟨hnone,?_⟩
    rcases h with hleast | ⟨-,hlast⟩
    · obtain ⟨hmem,hlt⟩ := mem_stopsAfter_zero.mp hleast.1
      by_contra hne
      have hmem' := (htells next hlt hne).mp hmem
      exact Set.eq_empty_iff_forall_notMem.mp hnone next (mem_stopsAfter_zero.mpr ⟨hmem',hlt⟩)
    · exact hlast
  · obtain ⟨stop,hstop⟩ := Set.nonempty_iff_ne_empty.mpr hnone
    obtain ⟨hmem',hlt⟩ := mem_stopsAfter_zero.mp hstop
    have hbelow : ∀ stop' ∈ stopsAfter 0 stops' column, next ≤ stop' := by
      intro stop' hstop'
      obtain ⟨hmem,hlt'⟩ := mem_stopsAfter_zero.mp hstop'
      rcases eq_or_ne stop' (width-1) with rfl | hne
      · rcases h with hleast | ⟨-,hlast⟩
        · have hnext := (hscreen next (mem_stopsAfter_zero.mp hleast.1).1).2
          omega
        · exact hlast.le
      · have hafter : stop' ∈ stopsAfter 0 stops column :=
          mem_stopsAfter_zero.mpr ⟨(htells stop' hlt' hne).mpr hmem,hlt'⟩
        rcases h with hleast | ⟨hempty,-⟩
        · exact hleast.2 hafter
        · rw [hempty] at hafter
          exact absurd hafter (Set.notMem_empty stop')
    refine Or.inl ⟨?_,hbelow⟩
    by_cases hlast : next=width-1
    · have hge := hbelow stop hstop
      have hle := (hscreen' stop hmem').2
      obtain rfl : stop=next := by omega
      exact hstop
    · rcases h with hleast | ⟨-,heq⟩
      · obtain ⟨hmem,hlt'⟩ := mem_stopsAfter_zero.mp hleast.1
        exact mem_stopsAfter_zero.mpr ⟨(htells next hlt' hlast).mp hmem,hlt'⟩
      · exact absurd heq hlast

/-- Custom stops that make no difference do not change what is next. -/
theorem NextStop.of_agrees (h : NextStop width interval stops column next)
    (hcolumn : 0≤column) (hscreen : OnScreen width stops) (hscreen' : OnScreen width stops')
    (hagrees : ∀ stop, Tells width interval stop→(stop∈stops ↔ stop∈stops')) :
    NextStop width interval stops' column next := by
  rcases eq_or_ne interval 0 with rfl | hinterval
  · exact h.of_agrees_zero hcolumn hscreen hscreen' hagrees
  · unfold NextStop
    rw [stopsAfter_eq_of_agrees hinterval hcolumn hagrees]
    exact h

end

/-! ## The array of stops -/

/-- The custom stops that are stored. -/
def GuacTerminal.storedStops (term : GuacTerminal) : Set ℤ :=
  {column | 0≤column ∧ column+1∈term.customTabs}

/-- A stored stop after a column is taken if it comes before what was found so far. -/
def earlierStop (column tabstop tab : ℤ) : ℤ :=
  if tab-1 ≠ -1 ∧ tab-1 > column ∧ tab-1<tabstop then tab-1 else tabstop

/-- The walk through the stored stops ends with the first one after the column, unless
what it began with comes before. -/
theorem foldl_earlierStop (column : ℤ) (tabs : List ℤ) (tabstop : ℤ) :
    tabs.foldl (earlierStop column) tabstop≤tabstop ∧
      (∀ stop, stop ≠ -1 → column<stop → stop+1∈tabs →
        tabs.foldl (earlierStop column) tabstop ≤ stop) ∧
      (tabs.foldl (earlierStop column) tabstop=tabstop ∨
        column<tabs.foldl (earlierStop column) tabstop ∧
          tabs.foldl (earlierStop column) tabstop+1∈tabs) := by
  induction tabs generalizing tabstop with
  | nil => exact ⟨le_rfl,fun _ _ _ hmem => absurd hmem not_mem_nil,Or.inl rfl⟩
  | cons tab tabs ih =>
    rw [foldl_cons]
    obtain ⟨hle,hbelow,hfound⟩ := ih (earlierStop column tabstop tab)
    have hstep : earlierStop column tabstop tab≤tabstop ∧
        (tab-1 ≠ -1 → column<tab-1 → earlierStop column tabstop tab≤tab-1) ∧
        (earlierStop column tabstop tab=tabstop ∨ column<earlierStop column tabstop tab ∧
          earlierStop column tabstop tab+1=tab) := by
      unfold earlierStop
      split_ifs <;> omega
    generalize tabs.foldl (earlierStop column) (earlierStop column tabstop tab)=next at *
    refine ⟨hle.trans hstep.1,fun stop hne hlt hmem => ?_,?_⟩
    · rcases mem_cons.mp hmem with rfl | hmem
      · have hfirst := hstep.2.1 (by omega) (by omega)
        omega
      · exact hbelow stop hne hlt hmem
    · rcases hfound with rfl | ⟨hlt,hmem⟩
      · rcases hstep.2.2 with heq | ⟨hlt,heq⟩
        · exact Or.inl heq
        · exact Or.inr ⟨hlt,mem_cons.mpr (Or.inl heq)⟩
      · exact Or.inr ⟨hlt,mem_cons_of_mem _ hmem⟩

variable {term : GuacTerminal}

/-- guac_terminal_next_tab finds the next of the stops that are stored. -/
theorem nextStop_nextTab (hinterval : 0≤term.tabInterval)
    (hscreen : OnScreen term.termWidth term.storedStops) {column : ℤ} (hcolumn : 0≤column) :
    NextStop term.termWidth term.tabInterval term.storedStops column
      (guacTerminalNextTab term column) := by
  have hnext : guacTerminalNextTab term column=term.customTabs.foldl (earlierStop column)
      (if term.tabInterval≠0 then (column.tdiv term.tabInterval+1)*term.tabInterval
        else term.termWidth-1) := rfl
  obtain ⟨hle,hbelow,hfound⟩ := foldl_earlierStop column term.customTabs
    (if term.tabInterval≠0 then (column.tdiv term.tabInterval+1)*term.tabInterval
      else term.termWidth-1)
  rw [←hnext] at hle hbelow hfound
  generalize guacTerminalNextTab term column=next at *
  have hstored : ∀ stop∈term.storedStops, column<stop → next ≤ stop :=
    fun stop hstop hlt => hbelow stop (by have hnonneg := hstop.1; omega) hlt hstop.2
  split_ifs at hle hfound with hzero
  · have hpos : 0<term.tabInterval := by omega
    rw [Int.tdiv_eq_ediv_of_nonneg hcolumn] at hle hfound
    have hlt := Int.lt_ediv_add_one_mul_self column hpos
    refine Or.inl ⟨?_,?_⟩
    · rcases hfound with rfl | ⟨hlt',hmem⟩
      · exact ⟨Or.inl ⟨hzero,⟨_,mul_comm _ _⟩⟩,hlt⟩
      · exact ⟨Or.inr ⟨by omega,hmem⟩,hlt'⟩
    · rintro stop ⟨⟨-,k,rfl⟩ | hmem,hafter⟩
      · have hk : column/term.tabInterval<k :=
          Int.ediv_lt_of_lt_mul hpos (by rwa [mul_comm] at hafter)
        refine hle.trans ?_
        rw [mul_comm term.tabInterval k]
        exact mul_le_mul_of_nonneg_right (by omega) hpos.le
      · exact hstored stop hmem hafter
  · rw [not_not] at hzero
    rw [hzero]
    have hcustom : ∀ stop∈stopsAfter 0 term.storedStops column,
        stop∈term.storedStops ∧ column<stop :=
      fun stop hstop => ⟨hstop.1.resolve_left fun h => h.1 rfl,hstop.2⟩
    rcases hfound with rfl | ⟨hlt,hmem⟩
    · by_cases hnone : stopsAfter 0 term.storedStops column = ∅
      · exact Or.inr ⟨hnone,rfl⟩
      · -- a stop that is not before the last column is in the last column
        obtain ⟨stop,hstop⟩ := Set.nonempty_iff_ne_empty.mpr hnone
        obtain ⟨hmem,hlt⟩ := hcustom stop hstop
        have hge := hstored stop hmem hlt
        have hlast := (hscreen stop hmem).2
        obtain rfl : stop=term.termWidth-1 := by omega
        exact Or.inl ⟨hstop,fun stop' hstop' =>
          hstored stop' (hcustom stop' hstop').1 (hcustom stop' hstop').2⟩
    · exact Or.inl ⟨⟨Or.inr ⟨by omega,hmem⟩,hlt⟩,fun stop' hstop' =>
        hstored stop' (hcustom stop' hstop').1 (hcustom stop' hstop').2⟩

/-- A stored number is replaced where it is found first. -/
theorem set_idxOf_perm {tabs : List ℤ} {tab : ℤ} (hmem : tab∈tabs) (tab' : ℤ) :
    (tabs.set (tabs.idxOf tab) tab').Perm (tab' :: tabs.erase tab) := by
  rw [erase_eq_eraseIdx_of_idxOf]
  · exact set_perm_cons_eraseIdx (idxOf_lt_length_of_mem hmem) tab'
  · rfl

theorem storedStops_set (term : GuacTerminal) {column : ℤ} (hcolumn : 0≤column) :
    (guacTerminalSetTab term column).storedStops=
      if 0∈term.customTabs then insert column term.storedStops else term.storedStops := by
  unfold guacTerminalSetTab
  split_ifs with hfree
  · ext stop
    rw [Set.mem_insert_iff]
    show 0 ≤ stop ∧ stop+1∈term.customTabs.set _ _ ↔ stop=column ∨ 0 ≤ stop ∧ stop+1∈term.customTabs
    rw [(set_idxOf_perm hfree _).mem_iff,mem_cons]
    by_cases hnonneg : 0 ≤ stop
    · rw [mem_erase_of_ne (by omega)]
      constructor
      · rintro ⟨-,heq | hmem⟩
        · exact Or.inl (by omega)
        · exact Or.inr ⟨hnonneg,hmem⟩
      · rintro (rfl | ⟨-,hmem⟩)
        · exact ⟨hnonneg,Or.inl rfl⟩
        · exact ⟨hnonneg,Or.inr hmem⟩
    · exact iff_of_false (fun h => hnonneg h.1) fun h => h.elim (fun heq => by omega) fun h' =>
        hnonneg h'.1
  · rfl

theorem storedStops_unset (term : GuacTerminal) (column : ℤ) :
    (guacTerminalUnsetTab term column).storedStops=
      if term.customTabs.count (column+1)≤1 then term.storedStops \ {column}
      else term.storedStops := by
  have hothers : ∀ stop, 0 ≤ stop→(stop+1∈(guacTerminalUnsetTab term column).customTabs ↔
      stop+1∈term.customTabs.erase (column+1)) := by
    intro stop hnonneg
    unfold guacTerminalUnsetTab
    split_ifs with hmem
    · dsimp only
      rw [(set_idxOf_perm hmem 0).mem_iff,mem_cons]
      exact ⟨fun h => h.resolve_left (by omega),Or.inr⟩
    · rw [erase_of_not_mem hmem]
  ext stop
  have hstop : stop∈(guacTerminalUnsetTab term column).storedStops ↔
      0 ≤ stop ∧ stop+1∈term.customTabs.erase (column+1) :=
    and_congr_right fun hnonneg => hothers stop hnonneg
  have hstored : stop∈term.storedStops ↔ 0 ≤ stop ∧ stop+1∈term.customTabs := Iff.rfl
  rw [hstop]
  rcases eq_or_ne stop column with rfl | hne
  · rw [←count_pos_iff,count_erase_self]
    split_ifs with hcount
    · exact iff_of_false (fun h => by omega) fun h => h.2 rfl
    · rw [hstored,←count_pos_iff]
      exact and_congr_right fun _ => by omega
  · rw [mem_erase_of_ne (by omega),←hstored]
    split_ifs
    · exact ⟨fun h => ⟨h,hne⟩,fun h => h.1⟩
    · rfl

theorem storedStops_empty (htabs : term.customTabs=List.replicate 16 0) : term.storedStops = ∅ := by
  refine Set.eq_empty_iff_forall_notMem.mpr fun stop hstop => ?_
  have hnonneg := hstop.1
  have hmem := hstop.2
  rw [htabs] at hmem
  have hzero := eq_of_mem_replicate hmem
  omega

/-! ## Runs -/

/-- A column of a screen. -/
abbrev ScreenColumn (width : ℤ) := {column : ℤ // 0≤column ∧ column<width}

/-- What is done to the custom stops of a terminal. -/
inductive TabOp (width : ℤ)
  | set (column : ScreenColumn width)
  | unset (column : ScreenColumn width)
  | clear

/-- A terminal, and the custom stops that were set and not unset or cleared since. -/
structure TabState where
  term : GuacTerminal
  stops : Finset ℤ

/-- The custom stops of a terminal and those that there should be. -/
def tabStep {width : ℤ} : TabOp width→TabState→TabState
  | .set column, s => ⟨guacTerminalSetTab s.term column,insert column.1 s.stops⟩
  | .unset column, s => ⟨guacTerminalUnsetTab s.term column,s.stops.erase column⟩
  | .clear, s => ⟨guacTerminalClearTabs s.term,∅⟩

/-- guac_terminal_next_tab finds the next of the stops that there should be. -/
def FindsStops (s : TabState) : Prop :=
  ∀ column, 0≤column →
    NextStop s.term.termWidth s.term.tabInterval s.stops column (guacTerminalNextTab s.term column)

/-- A stop that is set has a free entry or is stored already, and one that is unset is stored
in one entry at most, unless it makes no difference whether there is one. -/
def KeepsStops {width : ℤ} : TabOp width→TabState→Prop
  | .set column, s => Tells s.term.termWidth s.term.tabInterval column →
    0∈s.term.customTabs ∨ column.1+1∈s.term.customTabs
  | .unset column, s => Tells s.term.termWidth s.term.tabInterval column →
    s.term.customTabs.count (column.1+1)≤1
  | .clear, _ => True

/-- What the stops of a terminal always are. -/
structure StopsOk (width : ℤ) (s : TabState) : Prop where
  termWidth : s.term.termWidth=width
  interval_nonneg : 0 ≤ s.term.tabInterval
  stored : OnScreen width s.term.storedStops
  stops : OnScreen width s.stops

/-- The stored stops are those that there should be, but for those that make no
difference. -/
def StopsAgree (s : TabState) : Prop :=
  ∀ stop, Tells s.term.termWidth s.term.tabInterval stop → (stop∈s.stops ↔ stop∈s.term.storedStops)

variable {width : ℤ} {s : TabState}

theorem findsStops_iff (h : StopsOk width s) : FindsStops s ↔ StopsAgree s := by
  obtain ⟨rfl,hinterval,hstored,hstops⟩ := h
  constructor
  · intro hfinds stop htells
    have hnonneg : 0 ≤ stop-1 := by
      have hpos := htells.1
      omega
    rw [←Finset.mem_coe,mem_of_nextStop htells (hfinds _ hnonneg),
      mem_of_nextStop htells (nextStop_nextTab hinterval hstored hnonneg)]
  · intro hagree column hcolumn
    exact (nextStop_nextTab hinterval hstored hcolumn).of_agrees hcolumn hstored hstops
      fun stop htells => (hagree stop htells).symm

theorem setTab_keeps (term : GuacTerminal) (column : ℤ) :
    (guacTerminalSetTab term column).termWidth=term.termWidth ∧
      (guacTerminalSetTab term column).tabInterval=term.tabInterval := by
  unfold guacTerminalSetTab
  split_ifs <;> exact ⟨rfl,rfl⟩

theorem unsetTab_keeps (term : GuacTerminal) (column : ℤ) :
    (guacTerminalUnsetTab term column).termWidth=term.termWidth ∧
      (guacTerminalUnsetTab term column).tabInterval=term.tabInterval := by
  unfold guacTerminalUnsetTab
  split_ifs <;> exact ⟨rfl,rfl⟩

theorem StopsOk.step (h : StopsOk width s) (op : TabOp width) : StopsOk width (tabStep op s) := by
  obtain ⟨hwidth,hinterval,hstored,hstops⟩ := h
  cases op with
  | set column =>
    obtain ⟨hwidth',hinterval'⟩ := setTab_keeps s.term column
    refine ⟨hwidth'.trans hwidth,hinterval.trans hinterval'.ge,?_,fun stop hmem => ?_⟩
    · unfold tabStep
      dsimp only
      rw [storedStops_set s.term column.2.1]
      split_ifs
      · rintro stop (rfl | hmem)
        · exact column.2
        · exact hstored stop hmem
      · exact hstored
    · rcases Finset.mem_insert.mp hmem with rfl | hmem
      · exact column.2
      · exact hstops stop hmem
  | unset column =>
    obtain ⟨hwidth',hinterval'⟩ := unsetTab_keeps s.term column
    refine ⟨hwidth'.trans hwidth,hinterval.trans hinterval'.ge,?_,fun stop hmem =>
      hstops stop (Finset.mem_of_mem_erase hmem)⟩
    unfold tabStep
    dsimp only
    rw [storedStops_unset]
    split_ifs
    · exact fun stop hmem => hstored stop hmem.1
    · exact hstored
  | clear =>
    have hempty : (guacTerminalClearTabs s.term).storedStops = ∅ := storedStops_empty rfl
    refine ⟨hwidth,le_rfl,fun stop hmem => ?_,fun stop hmem => ?_⟩
    · exact absurd (hempty ▸ hmem) (Set.notMem_empty stop)
    · exact absurd hmem (Finset.notMem_empty stop)

/-- A step keeps the stored stops those that there should be exactly if it keeps the one that
it is about. -/
theorem stopsAgree_step_iff (h : StopsAgree s) (op : TabOp width) :
    StopsAgree (tabStep op s) ↔ KeepsStops op s := by
  cases op with
  | set column =>
    obtain ⟨hwidth,hinterval⟩ := setTab_keeps s.term column
    have hstored : ∀ stop, stop∈(guacTerminalSetTab s.term column).storedStops ↔
        stop∈s.term.storedStops ∨ 0∈s.term.customTabs ∧ stop=column := by
      intro stop
      rw [storedStops_set s.term column.2.1]
      split_ifs with hfree
      · rw [Set.mem_insert_iff,or_comm]
        exact or_congr_right ⟨fun heq => ⟨hfree,heq⟩,And.right⟩
      · exact ⟨Or.inl,fun h => h.resolve_right fun h' => hfree h'.1⟩
    unfold StopsAgree KeepsStops tabStep
    dsimp only
    rw [hwidth,hinterval]
    constructor
    · intro hagree htells
      have hmem := (hagree column htells).mp (Finset.mem_insert_self _ _)
      rcases (hstored column).mp hmem with hmem | ⟨hfree,-⟩
      · exact Or.inr hmem.2
      · exact Or.inl hfree
    · intro hkeeps stop htells
      rw [hstored,Finset.mem_insert,h stop htells,or_comm]
      refine or_congr_right' fun hnot => ⟨fun heq => ⟨?_,heq⟩,And.right⟩
      subst heq
      exact (hkeeps htells).resolve_right fun hmem => hnot ⟨column.2.1,hmem⟩
  | unset column =>
    obtain ⟨hwidth,hinterval⟩ := unsetTab_keeps s.term column
    have hstored : ∀ stop, stop∈(guacTerminalUnsetTab s.term column).storedStops ↔
        stop∈s.term.storedStops ∧ (stop=column→1<s.term.customTabs.count (column.1+1)) := by
      intro stop
      rw [storedStops_unset]
      split_ifs with hcount
      · exact and_congr_right fun _ => ⟨fun hne heq => absurd heq hne,
          fun himp heq => absurd (himp heq) (by omega)⟩
      · exact ⟨fun hmem => ⟨hmem,fun _ => by omega⟩,And.left⟩
    unfold StopsAgree KeepsStops tabStep
    dsimp only
    rw [hwidth,hinterval]
    constructor
    · intro hagree htells
      by_contra hcount
      have hmem : column.1∈(guacTerminalUnsetTab s.term column).storedStops :=
        (hstored column).mpr ⟨⟨column.2.1,count_pos_iff.mp (by omega)⟩,fun _ => by omega⟩
      exact absurd ((hagree column htells).mpr hmem) (Finset.notMem_erase _ _)
    · intro hkeeps stop htells
      rw [hstored,Finset.mem_erase,h stop htells,and_comm]
      refine and_congr_right fun _ => ⟨fun hne heq => absurd heq hne,fun himp heq => ?_⟩
      have hcount := himp heq
      subst heq
      exact absurd (hkeeps htells) (by omega)
  | clear =>
    refine iff_of_true (fun stop _ => ?_) trivial
    have hempty : (guacTerminalClearTabs s.term).storedStops = ∅ := storedStops_empty rfl
    show stop∈(∅ : Finset ℤ) ↔ stop∈(guacTerminalClearTabs s.term).storedStops
    rw [hempty]
    exact iff_of_false (Finset.notMem_empty stop) (Set.notMem_empty stop)

/-- From a terminal without custom stops on, the next stop is always found among those that
were set and not unset or cleared since, exactly if each stop that is set and makes a
difference is or was stored, and each that is unset is stored only once. -/
theorem findsStops_iff_along (term : GuacTerminal)
    (htabs : term.customTabs=List.replicate 16 0) (hinterval : 0≤term.tabInterval)
    (ops : List (TabOp term.termWidth)) :
    (∀ made, made <+: ops→∀ visited,
      run (fun op s => some (tabStep op s)) made ⟨term,∅⟩=some visited→FindsStops visited) ↔
      Along (fun op s => some (tabStep op s)) KeepsStops ops ⟨term,∅⟩ := by
  have hempty := storedStops_empty htabs
  have hok : StopsOk term.termWidth ⟨term,∅⟩ := by
    refine ⟨rfl,hinterval,fun stop hmem => ?_,fun stop hmem => ?_⟩
    · exact absurd (hempty ▸ hmem) (Set.notMem_empty stop)
    · exact absurd hmem (Finset.notMem_empty stop)
  have hagree : StopsAgree ⟨term,∅⟩ := fun stop _ => by
    rw [hempty]
    exact iff_of_false (Finset.notMem_empty stop) (Set.notMem_empty stop)
  refine visits_iff_along (G := fun s => StopsOk term.termWidth s ∧ StopsAgree s)
    (fun hgood => (findsStops_iff hgood.1).mpr hgood.2) (fun _ _ => rfl)
    (fun {op s s'} hgood hkeeps hnext => ?_) (fun {op s s'} hgood hnext hfinds => ?_) ops
    ⟨hok,hagree⟩
  · cases hnext
    exact ⟨hgood.1.step op,(stopsAgree_step_iff hgood.2 op).mpr hkeeps⟩
  · cases hnext
    exact (stopsAgree_step_iff hgood.2 op).mp ((findsStops_iff (hgood.1.step op)).mp hfinds)

/-- A terminal of 80 columns. -/
def eightyColumns : GuacTerminal := guacTerminalAlloc consoleMemory consoleSettings 640 384

/-- The sixth column of it. -/
def sixthColumn : ScreenColumn eightyColumns.termWidth := ⟨5,by decide⟩

/-- A stop that is set and unset. -/
theorem findsStops_iff_along_once : eightyColumns.customTabs=List.replicate 16 0 ∧
    ∀ made, made <+: [TabOp.set sixthColumn,.unset sixthColumn]→∀ visited,
      run (fun op s => some (tabStep op s)) made ⟨eightyColumns,∅⟩=some visited →
        FindsStops visited :=
  ⟨rfl,(findsStops_iff_along eightyColumns rfl (by decide)
    [.set sixthColumn,.unset sixthColumn]).mpr
    ⟨fun _ => Or.inl (by decide),fun _ => by decide,trivial⟩⟩

/-- A stop that is set twice and unset is found nevertheless. -/
theorem not_findsStops_twice : ¬FindsStops (tabStep (TabOp.unset sixthColumn)
    (tabStep (.set sixthColumn) (tabStep (.set sixthColumn) ⟨eightyColumns,∅⟩))) := by
  intro hfinds
  have hnext : guacTerminalNextTab (tabStep (TabOp.unset sixthColumn)
      (tabStep (.set sixthColumn) (tabStep (.set sixthColumn) ⟨eightyColumns,∅⟩))).term 4=5 := by
    decide
  have hfourth := hfinds 4 (by decide)
  rw [hnext] at hfourth
  rcases hfourth with hleast | ⟨-,hlast⟩
  · rcases hleast.1.1 with ⟨-,hdvd⟩ | hmem
    · exact absurd hdvd (by decide)
    · exact absurd hmem (by decide)
  · exact absurd hlast (by decide)

end GuacServer.Terminal
