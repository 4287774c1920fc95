import Mathlib.Data.List.Basic
import Mathlib.Data.List.Induction

/-!
# Copies that are made one after another

A copy takes the contents of some cells from other cells, all at once. Copies
that are made one after another, no two of them to the same cell, give what
they would give if all took the contents from before the first of them exactly
if none takes the contents of a cell that one before it has changed.
-/

namespace GuacServer.SequentialCopies

variable {Cell : Type*} {α : Type*}

/-- Where contents are copied to, and from where. -/
structure Copy (Cell : Type*) where
  /-- The cells that are copied to. -/
  target : Cell→Bool
  /-- The cell that each of them is copied from. -/
  source : Cell→Cell

namespace Copy

/-- The contents after a copy. -/
def run (copy : Copy Cell) (content : Cell→α) : Cell→α := fun cell =>
  if copy.target cell then content (copy.source cell) else content cell

/-- The cell that the contents of a cell are from. -/
def origin (copy : Copy Cell) (cell : Cell) : Cell :=
  if copy.target cell then copy.source cell else cell

theorem run_origin (copy : Copy Cell) (content : Cell→α) (cell : Cell) :
    copy.run content cell=content (copy.origin cell) := by
  unfold run origin
  split <;> rfl

/-- A cell has the same contents after any such copy. -/
def Keeps (copy : Copy Cell) (cell : Cell) : Prop := copy.target cell → copy.source cell=cell

theorem run_of_keeps {copy : Copy Cell} {cell : Cell} (h : copy.Keeps cell) (content : Cell→α) :
    copy.run content cell=content cell := by
  unfold run
  split
  · rename_i htarget
    rw [h htarget]
  · rfl

theorem run_target {copy : Copy Cell} {cell : Cell} (h : copy.target cell) (content : Cell→α) :
    copy.run content cell=content (copy.source cell) := if_pos h

theorem run_of_not_target {copy : Copy Cell} {cell : Cell} (h : ¬copy.target cell)
    (content : Cell→α) : copy.run content cell=content cell := if_neg h

/-- Copies do not look at what they copy. -/
theorem run_map {β : Type*} (copy : Copy Cell) (content : Cell→α) (f : α→β) :
    copy.run (fun cell => f (content cell))=fun cell => f (copy.run content cell) :=
  funext fun cell => (apply_ite f (copy.target cell=true) _ _).symm

end Copy

/-- The contents after copies that are made in order. -/
def runAll (copies : List (Copy Cell)) (content : Cell→α) : Cell→α :=
  copies.foldl (fun content copy => copy.run content) content

/-- No two copies are made to the same cell. -/
def Disjoint (copies : List (Copy Cell)) : Prop :=
  copies.Pairwise fun earlier later => ∀ cell, earlier.target cell→¬later.target cell

/-- No copy takes the contents of a cell that one before it may have changed. -/
def Safe (copies : List (Copy Cell)) : Prop :=
  copies.Pairwise fun earlier later => ∀ cell, later.target cell → earlier.Keeps (later.source cell)

theorem runAll_of_not_target {copies : List (Copy Cell)} {cell : Cell}
    (h : ∀ copy∈copies, ¬copy.target cell) (content : Cell→α) :
    runAll copies content cell=content cell := by
  induction copies generalizing content with
  | nil => rfl
  | cons first rest ih =>
    calc runAll (first::rest) content cell=first.run content cell :=
          ih (fun copy hcopy => h copy (List.mem_cons_of_mem _ hcopy)) _
      _ = content cell := Copy.run_of_not_target (h first List.mem_cons_self) content

/-- Safe copies give what they would give all at once. -/
theorem runAll_target {copies : List (Copy Cell)} (hdisjoint : Disjoint copies)
    (hsafe : Safe copies) {copy : Copy Cell} (hcopy : copy∈copies) {cell : Cell}
    (htarget : copy.target cell) (content : Cell→α) :
    runAll copies content cell=content (copy.source cell) := by
  induction copies generalizing content with
  | nil => exact absurd hcopy List.not_mem_nil
  | cons first rest ih =>
    obtain ⟨hfirst,hrest⟩ := List.pairwise_cons.mp hdisjoint
    obtain ⟨hkeeps,hsafe⟩ := List.pairwise_cons.mp hsafe
    rcases List.mem_cons.mp hcopy with rfl | hmem
    · calc runAll (copy::rest) content cell=copy.run content cell :=
            runAll_of_not_target (fun later hlater => hfirst later hlater cell htarget) _
        _ = content (copy.source cell) := Copy.run_target htarget content
    · calc runAll (first::rest) content cell=first.run content (copy.source cell) :=
            ih hrest hsafe hmem _
        _ = content (copy.source cell) := Copy.run_of_keeps (hkeeps copy hmem cell htarget) content

end GuacServer.SequentialCopies
