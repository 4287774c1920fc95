import Mathlib.Data.Int.Order.Basic
import Mathlib.Order.Basic
import Mathlib.Tactic.ByContra

/-!
# Rows of characters of several columns

The shape of a row tells, of each column, how many columns the character has
that begins there, or that a character before it continues. A row is whole if
its characters have all their columns and no others. What is written over a
part of a whole row can break characters only where the part begins and ends,
so it is whole again once breaks have been forced at these two edges.
-/

namespace GuacServer.WideRows

/-- The width of the character that begins in a column, if one does. -/
abbrev Shape := ℤ→Option ℤ

/-- A character has all its columns, and nothing continues it after these. -/
structure Whole (shape : Shape) (length column width : ℤ) : Prop where
  pos : 1≤width
  le : column+width≤length
  continues : ∀ i, column < i → i<column+width → shape i=none
  ends : column+width<length → shape (column+width)≠none

/-- A part of a row is a sequence of whole characters. -/
structure Filled (shape : Shape) (first length : ℤ) : Prop where
  begins : first<length → shape first≠none
  whole : ∀ column width, first≤column → column<length → shape column=some width →
    Whole shape length column width

/-- All characters of a row are whole. -/
def RowWhole (shape : Shape) (length : ℤ) : Prop := Filled shape 0 length

variable {shape shape' : Shape} {first middle length edge column : ℤ}

/-- Characters of one column are whole. -/
theorem filled_ones (hone : ∀ i, first ≤ i → i<length → shape i=some 1) :
    Filled shape first length := by
  refine ⟨fun hlt => ?_,fun column width hle hlt hwidth => ?_⟩
  · rw [hone first le_rfl hlt]
    exact Option.some_ne_none _
  · rw [hone column hle hlt] at hwidth
    obtain rfl := Option.some.inj hwidth
    refine ⟨le_rfl,by omega,fun i hi hi' => by omega,fun hnext => ?_⟩
    rw [hone _ (by omega) hnext]
    exact Option.some_ne_none _

theorem Filled.congr (h : Filled shape first length)
    (heq : ∀ i, first ≤ i → i<length → shape' i=shape i) : Filled shape' first length := by
  refine ⟨fun hlt => ?_,fun column width hle hlt hcolumn => ?_⟩
  · rw [heq first le_rfl hlt]
    exact h.begins hlt
  · rw [heq column hle hlt] at hcolumn
    obtain ⟨hpos,hend,hcontinues,hends⟩ := h.whole column width hle hlt hcolumn
    refine ⟨hpos,hend,fun i hi hi' => ?_,fun hnext => ?_⟩
    · rw [heq i (by omega) (by omega)]
      exact hcontinues i hi hi'
    · rw [heq _ (by omega) hnext]
      exact hends hnext

/-- Two sequences of whole characters are one. -/
theorem Filled.append (h : Filled shape first middle) (h' : Filled shape middle length)
    (hle : first ≤ middle) (hle' : middle≤length) : Filled shape first length := by
  refine ⟨fun hlt => ?_,fun column width hcolumn hlt hwidth => ?_⟩
  · rcases hle.eq_or_lt with rfl | hbefore
    · exact h'.begins hlt
    · exact h.begins hbefore
  · rcases lt_or_ge column middle with hbefore | hafter
    · obtain ⟨hpos,hend,hcontinues,hends⟩ := h.whole column width hcolumn hbefore hwidth
      refine ⟨hpos,by omega,hcontinues,fun hnext => ?_⟩
      rcases hend.lt_or_eq with hinside | hedge
      · exact hends hinside
      · rw [hedge]
        exact h'.begins (by omega)
    · exact h'.whole column width hafter hlt hwidth

/-- A sequence of whole characters may end where one of them begins. -/
theorem Filled.take (h : Filled shape first length) (hle : middle≤length)
    (hbegins : middle<length → shape middle≠none) : Filled shape first middle := by
  refine ⟨fun hlt => h.begins (by omega),fun column width hcolumn hlt hwidth => ?_⟩
  obtain ⟨hpos,hend,hcontinues,hends⟩ := h.whole column width hcolumn (by omega) hwidth
  refine ⟨hpos,?_,hcontinues,fun hnext => hends (by omega)⟩
  by_contra hlong
  exact hbegins (by omega) (hcontinues middle hlt (by omega))

/-- Or start where one of them begins. -/
theorem Filled.drop (h : Filled shape first length) (hle : first ≤ middle)
    (hbegins : middle<length → shape middle≠none) : Filled shape middle length :=
  ⟨hbegins,fun column width hcolumn => h.whole column width (hle.trans hcolumn)⟩

/-! ## Runs of columns that continue a character -/

variable {last start : ℤ}

/-- The longest run of such columns belongs to the character before it. -/
theorem RowWhole.run (h : RowWhole shape length) (hfirst : 0≤first) (hle : first≤last)
    (hlast : last<length) (hrun : ∀ i, first ≤ i → i≤last → shape i=none)
    (hbefore : 0<first → shape (first-1)≠none)
    (hafter : last+1<length → shape (last+1)≠none) :
    0<first ∧ shape (first-1)=some (last-first+2) := by
  have hpos : 0<first := by
    rcases hfirst.eq_or_lt with rfl | hpos
    · exact absurd (hrun 0 le_rfl hle) (h.begins (by omega))
    · exact hpos
  obtain ⟨width,hwidth⟩ := Option.ne_none_iff_exists'.mp (hbefore hpos)
  obtain ⟨hone,hend,hcontinues,hends⟩ := h.whole (first-1) width (by omega) (by omega) hwidth
  have hcovers : last+1≤first-1+width := by
    by_contra hshort
    exact hends (by omega) (hrun _ (by omega) (by omega))
  have hexact : first-1+width≤last+1 := by
    by_contra hlong
    exact hafter (by omega) (hcontinues (last+1) (by omega) (by omega))
  refine ⟨hpos,?_⟩
  rw [hwidth]
  congr 1
  omega

/-! ## Characters that are broken -/

/-- A column in which a row is broken. -/
def BrokenAt (shape : Shape) (length column : ℤ) : Prop :=
  (0≤column ∧ column<length) ∧
    ((∃ width, shape column=some width ∧ ¬Whole shape length column width) ∨
      column=0 ∧ shape 0=none)

theorem rowWhole_iff : RowWhole shape length ↔ ∀ column, ¬BrokenAt shape length column := by
  constructor
  · rintro h column ⟨⟨hle,hlt⟩,⟨width,hwidth,hnot⟩ | ⟨rfl,hnone⟩⟩
    · exact hnot (h.whole column width hle hlt hwidth)
    · exact h.begins hlt hnone
  · intro h
    refine ⟨fun hlt hnone => h 0 ⟨⟨le_rfl,hlt⟩,Or.inr ⟨rfl,hnone⟩⟩,?_⟩
    intro column width hle hlt hwidth
    by_contra hnot
    exact h column ⟨⟨hle,hlt⟩,Or.inl ⟨width,hwidth,hnot⟩⟩

/-- Nothing more is broken if characters of one column are added to a row. -/
theorem brokenAt_of_extended {length' : ℤ} (hle : length≤length')
    (hsame : ∀ i, i<length → shape' i=shape i)
    (hone : ∀ i, length ≤ i → i<length' → shape' i=some 1)
    (hbroken : BrokenAt shape' length' column) : BrokenAt shape length column := by
  obtain ⟨⟨h0,h1⟩,hcolumn⟩ := hbroken
  rcases lt_or_ge column length with hlt | hge
  · refine ⟨⟨h0,hlt⟩,?_⟩
    rcases hcolumn with ⟨width,hwidth,hnot⟩ | ⟨rfl,hnone⟩
    · rw [hsame column hlt] at hwidth
      refine Or.inl ⟨width,hwidth,fun hwhole => hnot ?_⟩
      obtain ⟨hpos,hend,hcontinues,hends⟩ := hwhole
      refine ⟨hpos,by omega,fun i hi hi' => ?_,fun hnext => ?_⟩
      · rw [hsame i (by omega)]
        exact hcontinues i hi hi'
      · rcases hend.lt_or_eq with hinside | hedge
        · rw [hsame _ hinside]
          exact hends hinside
        · rw [hone _ hedge.ge hnext]
          exact Option.some_ne_none _
    · rw [hsame 0 hlt] at hnone
      exact Or.inr ⟨rfl,hnone⟩
  · have hnew := hone column hge h1
    rcases hcolumn with ⟨width,hwidth,hnot⟩ | ⟨rfl,hnone⟩
    · rw [hnew] at hwidth
      obtain rfl := Option.some.inj hwidth
      refine absurd ⟨le_rfl,by omega,fun i hi hi' => by omega,fun hnext => ?_⟩ hnot
      rw [hone _ (by omega) hnext]
      exact Option.some_ne_none _
    · rw [hnew] at hnone
      exact absurd hnone (Option.some_ne_none _)

/-- A column is at an edge, or the character in it would reach up to the edge. -/
def Near (shape : Shape) (edge column : ℤ) : Prop :=
  column=edge ∨ column<edge ∧ ∀ i, column < i → i<edge → shape i=none

/-- What is written between two edges of a row that is broken at most near the
first of them, together with what continues it after the second, breaks no
character that is not near one of the two. -/
theorem near_of_brokenAt {edge : ℤ}
    (h : ∀ column, BrokenAt shape length column→Near shape start column) (hstart : 0 ≤ start)
    (hedge : edge≤length) (hlast : start≤last)
    (houtside : ∀ i, i<start ∨ last ≤ i → shape' i=shape i)
    (hbetween : ∀ i, edge ≤ i → i<last → shape' i=none)
    (hinside : ∀ i width, start < i → i<edge → shape' i=some width →
      1≤width ∧ (i+width<edge → shape' (i+width)≠none) ∧
        ∀ j, i<j → j < i+width → j<edge → shape' j=none)
    (hbroken : BrokenAt shape' length column) :
    Near shape' start column ∨ Near shape' edge column := by
  obtain ⟨⟨hle,hlt⟩,hcolumn⟩ := hbroken
  rcases eq_or_ne column start with rfl | hne
  · exact Or.inl (Or.inl rfl)
  have hwhole : ∀ {width}, shape column=some width→¬Near shape' start column →
      (column<start ∨ last≤column)→Whole shape length column width := by
    intro width hwidth hfar hout
    by_contra hnot
    rcases h column ⟨⟨hle,hlt⟩,Or.inl ⟨width,hwidth,hnot⟩⟩ with heq | ⟨hbefore,hrun⟩
    · exact hne heq
    · refine hfar (Or.inr ⟨hbefore,fun i hi hi' => ?_⟩)
      rw [houtside i (Or.inl hi')]
      exact hrun i hi hi'
  by_cases hfar : Near shape' start column
  · exact Or.inl hfar
  rcases hcolumn with ⟨width,hwidth,hnot⟩ | ⟨rfl,hnone⟩
  · rcases lt_or_ge column start with hbefore | hafter
    · rw [houtside column (Or.inl hbefore)] at hwidth
      obtain ⟨hpos,hend,hcontinues,hends⟩ := hwhole hwidth hfar (Or.inl hbefore)
      by_cases hshort : column+width<start
      · refine absurd ⟨hpos,hend,fun i hi hi' => ?_,fun hnext => ?_⟩ hnot
        · rw [houtside i (Or.inl (by omega))]
          exact hcontinues i hi hi'
        · rw [houtside _ (Or.inl hshort)]
          exact hends hnext
      · refine Or.inl (Or.inr ⟨hbefore,fun i hi hi' => ?_⟩)
        rw [houtside i (Or.inl hi')]
        exact hcontinues i hi (by omega)
    · rcases lt_or_ge column edge with hin | hout
      · obtain ⟨hpos,hends,hcontinues⟩ := hinside column width (by omega) hin hwidth
        by_cases hshort : column+width<edge
        · exact absurd ⟨hpos,by omega,fun i hi hi' => hcontinues i hi hi' (by omega),
            fun _ => hends hshort⟩ hnot
        · exact Or.inr (Or.inr ⟨hin,fun i hi hi' => hcontinues i hi (by omega) hi'⟩)
      · rcases lt_or_ge column last with hrest | hbehind
        · rw [hbetween column hout hrest] at hwidth
          exact absurd hwidth (Option.some_ne_none _).symm
        · have hsame : ∀ i, column ≤ i → shape' i=shape i :=
            fun i hi => houtside i (Or.inr (hbehind.trans hi))
          rw [hsame column le_rfl] at hwidth
          obtain ⟨hpos,hend,hcontinues,hends⟩ := hwhole hwidth hfar (Or.inr hbehind)
          refine absurd ⟨hpos,hend,fun i hi hi' => ?_,fun hnext => ?_⟩ hnot
          · rw [hsame i hi.le]
            exact hcontinues i hi hi'
          · rw [hsame _ (by omega)]
            exact hends hnext
  · rw [houtside 0 (Or.inl (by omega))] at hnone
    rcases h 0 ⟨⟨le_rfl,hlt⟩,Or.inr ⟨rfl,hnone⟩⟩ with heq | ⟨hbefore,hrun⟩
    · exact absurd heq hne
    · refine absurd (Or.inr ⟨hbefore,fun i hi hi' => ?_⟩) hfar
      rw [houtside i (Or.inl hi')]
      exact hrun i hi hi'

/-- Characters that are whole from a column on break none that is not near it. -/
theorem near_of_rest (h : RowWhole shape length) (hstart : 0 ≤ start)
    (houtside : ∀ i, i<start → shape' i=shape i)
    (hrest : ∀ column width, start≤column → column<length → shape' column=some width →
      Whole shape' length column width) (hbroken : BrokenAt shape' length column) :
    Near shape' start column := by
  obtain ⟨⟨hle,hlt⟩,hcolumn⟩ := hbroken
  rcases lt_or_ge column start with hbefore | hafter
  · rcases hcolumn with ⟨width,hwidth,hnot⟩ | ⟨rfl,hnone⟩
    · rw [houtside column hbefore] at hwidth
      obtain ⟨hpos,hend,hcontinues,hends⟩ := h.whole column width hle hlt hwidth
      refine Or.inr ⟨hbefore,fun i hi hi' => ?_⟩
      rw [houtside i hi']
      refine hcontinues i hi ?_
      by_contra hshort
      refine hnot ⟨hpos,hend,fun j hj hj' => ?_,fun hnext => ?_⟩
      · rw [houtside j (by omega)]
        exact hcontinues j hj hj'
      · rw [houtside _ (by omega)]
        exact hends hnext
    · rw [houtside 0 hbefore] at hnone
      exact absurd hnone (h.begins hlt)
  · rcases hcolumn with ⟨width,hwidth,hnot⟩ | ⟨rfl,hnone⟩
    · exact absurd (hrest column width hafter hlt hwidth) hnot
    · exact Or.inl (le_antisymm hstart hafter)

/-- What follows a gap may be moved into it, and stays behind as well, if a character begins
where what was moved ends. -/
theorem near_of_moved {amount : ℤ} (h : RowWhole shape length) (hstart : 0 ≤ start)
    (hpos : 0<amount) (hend : shape (length-amount)≠none)
    (hmoved : ∀ i, start ≤ i → i<length-amount → shape' i=shape (i+amount))
    (hkept : ∀ i, i<start ∨ length-amount ≤ i → shape' i=shape i)
    (hbroken : BrokenAt shape' length column) : Near shape' start column := by
  refine near_of_rest h hstart (fun i hi => hkept i (Or.inl hi)) ?_ hbroken
  intro column width hle hlt hwidth
  rcases lt_or_ge column (length-amount) with hin | hout
  · rw [hmoved column hle hin] at hwidth
    obtain ⟨hone,hlast,hcontinues,hends⟩ :=
      h.whole (column+amount) width (by omega) (by omega) hwidth
    refine ⟨hone,by omega,fun i hi hi' => ?_,fun hnext => ?_⟩
    · rw [hmoved i (by omega) (by omega)]
      exact hcontinues (i+amount) (by omega) (by omega)
    · rcases (by omega : column+width<length-amount ∨
        column+width=length-amount) with hbefore | hexact
      · rw [hmoved _ (by omega) hbefore,show column+width+amount=column+amount+width by omega]
        exact hends (by omega)
      · rwa [hkept _ (Or.inr hexact.ge),hexact]
  · rw [hkept column (Or.inr hout)] at hwidth
    obtain ⟨hone,hlast,hcontinues,hends⟩ := h.whole column width (by omega) hlt hwidth
    refine ⟨hone,hlast,fun i hi hi' => ?_,fun hnext => ?_⟩
    · rw [hkept i (Or.inr (by omega))]
      exact hcontinues i hi hi'
    · rw [hkept _ (Or.inr (by omega))]
      exact hends hnext

/-- The last column of a row may repeat the one before it if no character of two
columns begins there: what is broken then reaches up to the end of the row. -/
theorem near_of_repeated (h : RowWhole shape length) (hsame : ∀ i, i<length-1 → shape' i=shape i)
    (hlast : shape' (length-1)=shape (length-2)) (hne : shape (length-2)≠some 2)
    (hbroken : BrokenAt shape' length column) : Near shape' length column := by
  obtain ⟨⟨hle,hlt⟩,hcolumn⟩ := hbroken
  rcases (by omega : column=length-1 ∨ column<length-1) with rfl | hbefore
  · exact Or.inr ⟨hlt,fun i hi hi' => by omega⟩
  rcases hcolumn with ⟨width,hwidth,hnot⟩ | ⟨rfl,hnone⟩
  · rw [hsame column hbefore] at hwidth
    obtain ⟨hone,hend,hcontinues,hends⟩ := h.whole column width hle hlt hwidth
    have hrepeats : column<length-2 → length-1≤column+width → Near shape' length column := by
      intro hfar hreach
      refine Or.inr ⟨hlt,fun i hi hi' => ?_⟩
      rcases (by omega : i=length-1 ∨ i<length-1) with rfl | hinside
      · rw [hlast]
        exact hcontinues (length-2) hfar (by omega)
      · rw [hsame i hinside]
        exact hcontinues i hi (by omega)
    rcases lt_trichotomy (column+width) (length-1) with hshort | hexact | hlong
    · refine absurd ⟨hone,hend,fun i hi hi' => ?_,fun hnext => ?_⟩ hnot
      · rw [hsame i (by omega)]
        exact hcontinues i hi hi'
      · rw [hsame _ hshort]
        exact hends hnext
    · rcases (by omega : column=length-2 ∨ column<length-2) with rfl | hfar
      · refine absurd ⟨hone,hend,fun i hi hi' => by omega,fun hnext => ?_⟩ hnot
        rw [hexact,hlast,hwidth]
        exact Option.some_ne_none _
      · exact hrepeats hfar hexact.ge
    · rcases (by omega : column=length-2 ∨ column<length-2) with rfl | hfar
      · obtain rfl : width=2 := by omega
        exact absurd hwidth hne
      · exact hrepeats hfar hlong.le
  · rw [hsame 0 hbefore] at hnone
    exact absurd hnone (h.begins hlt)

/-! ## Forced breaks -/

/-- Columns that hold spaces. -/
def spaced (shape : Shape) (first last : ℤ) : Shape :=
  fun i => if first ≤ i ∧ i<last then some 1 else shape i

/-- The columns of a character and of what continues it, after those that are not
its own have become spaces, or all of them if it has more. -/
def repaired (shape : Shape) (first last : ℤ) : Shape :=
  match shape first with
  | none => spaced shape first last
  | some width =>
    if width=last-first then shape
    else if width<last-first then spaced shape (first+width) last
    else spaced shape first last

theorem spaced_outside {i : ℤ} (shape : Shape) (hout : i<first ∨ last ≤ i) :
    spaced shape first last i=shape i :=
  if_neg fun hin => by omega

theorem filled_spaced (shape : Shape) (first last : ℤ) :
    Filled (spaced shape first last) first last :=
  filled_ones fun _ hle hlt => if_pos ⟨hle,hlt⟩

theorem repaired_outside {i : ℤ} (shape : Shape)
    (hpos : ∀ width, shape first=some width→1≤width) (hout : i<first ∨ last ≤ i) :
    repaired shape first last i=shape i := by
  unfold repaired
  cases hwidth : shape first with
  | none => exact spaced_outside shape hout
  | some width =>
    have hone := hpos width hwidth
    dsimp only
    split_ifs
    · rfl
    · exact spaced_outside shape (by omega)
    · exact spaced_outside shape hout

/-- A character and what continues it are whole once repaired. -/
theorem filled_repaired (hrun : ∀ i, first < i → i<last → shape i=none)
    (hpos : ∀ width, shape first=some width→1≤width) :
    Filled (repaired shape first last) first last := by
  unfold repaired
  cases hwidth : shape first with
  | none => exact filled_spaced shape first last
  | some width =>
    have hone := hpos width hwidth
    have halone : ∀ {shape' : Shape}, (∀ i, i<first+width → shape' i=shape i) →
        first+width≤last→Filled shape' first (first+width) := by
      intro shape' heq hle
      refine ⟨fun _ => ?_,fun column width' hle' hlt' hwidth' => ?_⟩
      · rw [heq first (by omega),hwidth]
        exact Option.some_ne_none _
      · rw [heq column hlt'] at hwidth'
        rcases hle'.eq_or_lt with rfl | hafter
        · obtain rfl := Option.some.inj (hwidth.symm.trans hwidth')
          exact ⟨hone,le_rfl,fun i hi hi' => (heq i hi').trans (hrun i hi (by omega)),
            fun hnext => absurd hnext (lt_irrefl _)⟩
        · rw [hrun column hafter (by omega)] at hwidth'
          exact absurd hwidth' (Option.some_ne_none _).symm
    dsimp only
    split_ifs with hexact hshort
    · have hfilled := halone (fun _ _ => rfl) (by omega)
      rwa [show first+width=last by omega] at hfilled
    · exact (halone (fun i hi => spaced_outside shape (Or.inl hi)) (by omega)).append
        (filled_spaced shape (first+width) last) (by omega) (by omega)
    · exact filled_spaced shape first last

/-- A break is forced at an edge of a row: the character before it and that after
it are made whole. -/
structure BreaksAt (shape shape' : Shape) (length edge start last : ℤ) : Prop where
  start_le : 0 ≤ start ∧ start≤edge
  le_last : edge≤last ∧ last≤length
  outside : ∀ i, i<start ∨ last ≤ i → shape' i=shape i
  before : Filled shape' start edge
  after : Filled shape' edge last
  /-- The character before the edge reaches up to it. -/
  reaches : 0<edge → start<edge ∧ (shape start≠none ∨ start=0)
  continues : ∀ i, start < i → i<edge → shape i=none
  follows : ∀ i, edge < i → i<last → shape i=none
  /-- What continues the character after the edge is taken with it. -/
  extends_to : edge<length → edge<last
  ends : last<length → shape last≠none

section

variable (h : BreaksAt shape shape' length edge start last)

include h

theorem BreaksAt.filled : Filled shape' start last :=
  h.before.append h.after h.start_le.2 h.le_last.1

/-- A column in which a character begins is not made to continue another. -/
theorem BreaksAt.begins (hbegins : shape column≠none) : shape' column≠none := by
  by_cases hout : column<start ∨ last≤column
  · rwa [h.outside column hout]
  · rcases lt_trichotomy column edge with hbefore | rfl | hafter
    · obtain rfl : column=start := by
        by_contra hne
        exact hbegins (h.continues column (by omega) hbefore)
      exact h.before.begins hbefore
    · exact h.after.begins (by omega)
    · exact absurd (h.follows column hafter (by omega)) hbegins

/-- What is broken after a break has been forced was broken before, elsewhere. -/
theorem BreaksAt.brokenAt (hbroken : BrokenAt shape' length column) :
    BrokenAt shape length column ∧ (column<start ∨ last≤column) := by
  obtain ⟨⟨hle,hlt⟩,hcolumn⟩ := hbroken
  have hlast := h.le_last
  have hstart := h.start_le
  have hout : column<start ∨ last≤column := by
    by_contra hin
    obtain ⟨hafter,hbefore⟩ : start≤column ∧ column<last := by omega
    rcases hcolumn with ⟨width,hwidth,hnot⟩ | ⟨rfl,hnone⟩
    · obtain ⟨hpos,hend,hcontinues,hends⟩ := h.filled.whole column width hafter hbefore hwidth
      refine hnot ⟨hpos,by omega,hcontinues,fun hnext => ?_⟩
      rcases hend.lt_or_eq with hinside | hedge
      · exact hends hinside
      · rw [hedge] at hnext ⊢
        rw [h.outside last (Or.inr le_rfl)]
        exact h.ends hnext
    · obtain rfl : start=0 := by omega
      exact h.filled.begins hbefore hnone
  refine ⟨⟨⟨hle,hlt⟩,?_⟩,hout⟩
  rcases hcolumn with ⟨width,hwidth,hnot⟩ | ⟨rfl,hnone⟩
  · rw [h.outside column hout] at hwidth
    refine Or.inl ⟨width,hwidth,fun hwhole => hnot ?_⟩
    obtain ⟨hpos,hend,hcontinues,hends⟩ := hwhole
    rcases hout with hbefore | hafter
    · -- the character ends where the part that changes starts, or before that
      have hreach := h.reaches (by omega)
      have hbegins : shape start≠none := hreach.2.resolve_right (by omega)
      have hfits : column+width ≤ start := by
        by_contra hlong
        exact hbegins (hcontinues start hbefore (by omega))
      refine ⟨hpos,hend,fun i hi hi' => ?_,fun hnext => ?_⟩
      · rw [h.outside i (Or.inl (by omega))]
        exact hcontinues i hi hi'
      · rcases hfits.lt_or_eq with hinside | hedge
        · rw [h.outside _ (Or.inl hinside)]
          exact hends hnext
        · rw [hedge]
          exact h.before.begins hreach.1
    · refine ⟨hpos,hend,fun i hi hi' => ?_,fun hnext => ?_⟩
      · rw [h.outside i (Or.inr (by omega))]
        exact hcontinues i hi hi'
      · rw [h.outside _ (Or.inr (by omega))]
        exact hends hnext
  · rw [h.outside 0 hout] at hnone
    exact Or.inr ⟨rfl,hnone⟩

/-- Nothing near an edge is broken any more. -/
theorem BreaksAt.not_near (hbroken : BrokenAt shape' length column) : ¬Near shape edge column := by
  obtain ⟨⟨⟨hle,hlt⟩,-⟩,hout⟩ := h.brokenAt hbroken
  have hlast := h.le_last
  have hstart := h.start_le
  rintro (rfl | ⟨hbefore,hrun⟩)
  · have hextends := h.extends_to hlt
    omega
  · obtain ⟨hreach,hbegins⟩ := h.reaches (by omega)
    rcases hout with hout | hout
    · rcases hbegins with hbegins | hzero
      · exact hbegins (hrun start hout hreach)
      · omega
    · omega

end

/-- What is near another edge and is not taken by a break stays near it. -/
theorem BreaksAt.near {other : ℤ} (h : BreaksAt shape shape' length edge start last)
    (hle : 0≤column) (hout : column<start ∨ last≤column) (hnear : Near shape other column) :
    Near shape' other column := by
  have hlast := h.le_last
  have hstart := h.start_le
  rcases hnear with rfl | ⟨hbefore,hrun⟩
  · exact Or.inl rfl
  · refine Or.inr ⟨hbefore,fun i hi hi' => ?_⟩
    rw [h.outside i ?_]
    · exact hrun i hi hi'
    · rcases hout with hout | hout
      · by_contra hin
        obtain ⟨hreach,hbegins⟩ := h.reaches (by omega)
        rcases hbegins with hbegins | hzero
        · exact hbegins (hrun start hout (by omega))
        · omega
      · exact Or.inr (by omega)

/-- What is broken after breaks were forced at two edges was broken before, and is
as near to other columns as it was. -/
theorem brokenAt_of_breaks {shape'' : Shape} {edge' start' last' : ℤ}
    (h : BreaksAt shape shape' length edge start last)
    (h' : BreaksAt shape' shape'' length edge' start' last')
    (hbroken : BrokenAt shape'' length column) :
    BrokenAt shape length column ∧ (¬Near shape edge column ∧ ¬Near shape edge' column) ∧
      ∀ other, Near shape other column→Near shape'' other column := by
  obtain ⟨hbroken',hout'⟩ := h'.brokenAt hbroken
  obtain ⟨hbroken'',hout⟩ := h.brokenAt hbroken'
  refine ⟨hbroken'',⟨h.not_near hbroken',fun hnear => ?_⟩,fun other hnear => ?_⟩
  · exact h'.not_near hbroken (h.near hbroken''.1.1 hout hnear)
  · exact h'.near hbroken''.1.1 hout' (h.near hbroken''.1.1 hout hnear)

end GuacServer.WideRows
