import Mathlib.Data.List.Basic

/-!
# Updates of single cells that are made one after another

An update replaces the content of one cell by a value that is computed from the
contents of cells. Updates that are made one after another, no two of them of
the same cell, give what they would give all at once if none uses the content
of a cell that one before it has replaced.
-/

namespace GuacServer.PointUpdates

variable {Cell : Type*} {α : Type*}

/-- A cell, and what its content is replaced by. -/
structure Update (Cell : Type*) (α : Type*) where
  target : Cell
  /-- The new content, from the contents of all cells. -/
  value : (Cell→α)→α

variable [DecidableEq Cell]

namespace Update

/-- The contents after an update. -/
def run (update : Update Cell α) (content : Cell→α) : Cell→α :=
  Function.update content update.target (update.value content)

/-- What an update computes does not depend on the content of a cell. -/
def Ignores (update : Update Cell α) (cell : Cell) : Prop :=
  ∀ content replaced, update.value (Function.update content cell replaced)=update.value content

theorem run_target (update : Update Cell α) (content : Cell→α) :
    update.run content update.target=update.value content := Function.update_self _ _ _

theorem run_of_ne {update : Update Cell α} {cell : Cell} (h : update.target≠cell)
    (content : Cell→α) : update.run content cell=content cell :=
  Function.update_of_ne h.symm _ _

theorem Ignores.value_run {earlier later : Update Cell α} (h : later.Ignores earlier.target)
    (content : Cell→α) : later.value (earlier.run content)=later.value content :=
  h content _

end Update

/-- The contents after updates that are made in order. -/
def runAll (updates : List (Update Cell α)) (content : Cell→α) : Cell→α :=
  updates.foldl (fun content update => update.run content) content

/-- No update is of a cell that one before it has replaced, or uses its content. -/
def Independent (updates : List (Update Cell α)) : Prop :=
  updates.Pairwise fun earlier later =>
    earlier.target≠later.target ∧ later.Ignores earlier.target

theorem runAll_of_not_target {updates : List (Update Cell α)} {cell : Cell}
    (h : ∀ update∈updates, update.target≠cell) (content : Cell→α) :
    runAll updates content cell=content cell := by
  induction updates generalizing content with
  | nil => rfl
  | cons first rest ih =>
    calc runAll (first::rest) content cell=first.run content cell :=
          ih (fun update hmem => h update (List.mem_cons_of_mem _ hmem)) _
      _ = content cell := Update.run_of_ne (h first List.mem_cons_self) content

/-- Independent updates give what they would give all at once. -/
theorem runAll_target {updates : List (Update Cell α)} (h : Independent updates)
    {update : Update Cell α} (hupdate : update∈updates) (content : Cell→α) :
    runAll updates content update.target=update.value content := by
  induction updates generalizing content with
  | nil => exact absurd hupdate List.not_mem_nil
  | cons first rest ih =>
    obtain ⟨hfirst,hrest⟩ := List.pairwise_cons.mp h
    rcases List.mem_cons.mp hupdate with rfl | hmem
    · calc runAll (update::rest) content update.target=update.run content update.target :=
            runAll_of_not_target (fun later hlater => (hfirst later hlater).1.symm) _
        _ = update.value content := update.run_target content
    · calc runAll (first::rest) content update.target=update.value (first.run content) :=
            ih hrest hmem _
        _ = update.value content := (hfirst update hmem).2.value_run content

end GuacServer.PointUpdates
