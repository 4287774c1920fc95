import Mathlib.Data.Set.Lattice
import Mathlib.Order.CompletePartialOrder

/-!
# Peeling

A step splits a piece off what it is given, or finds that there is nothing more to split
off. It is repeated with what it leaves. If each step divides what it is given, the pieces
and what is left in the end divide the whole.
-/

namespace GuacServer.Peeling

variable {σ π α : Type*} {step : σ→Option (π×σ)} {fuel : ℕ} {s last : σ} {pieces : List π}

/-- The pieces that are split off until none is, and what is left then, if there are not more
of them than the given number. -/
def peel (step : σ→Option (π×σ)) : ℕ→σ→Option (List π×σ)
  | 0, s => if (step s).isNone then some ([],s) else none
  | fuel+1, s =>
    match step s with
    | none => some ([],s)
    | some (piece,rest) =>
      (peel step fuel rest).map fun (pieces,last) => (piece::pieces,last)

theorem peel_stop (h : step s=none) (fuel : ℕ) : peel step fuel s=some ([],s) := by
  cases fuel with
  | zero => rw [peel,h,Option.isNone_none,if_pos rfl]
  | succ fuel => rw [peel,h]

theorem peel_split {piece : π} {rest : σ} (h : step s=some (piece,rest)) (fuel : ℕ) :
    peel step (fuel+1) s=(peel step fuel rest).map fun (pieces,last) => (piece::pieces,last) := by
  rw [peel,h]

/-- What holds of nothing more to split off, and of a piece more if it does of the others,
holds of everything that is peeled. -/
theorem peel_induction {R : σ→List π→σ→Prop} (hstop : ∀ {s}, step s=none→R s [] s)
    (hsplit : ∀ {s piece rest pieces last}, step s=some (piece,rest)→R rest pieces last →
      R s (piece::pieces) last)
    (h : peel step fuel s=some (pieces,last)) : R s pieces last := by
  induction fuel generalizing s pieces with
  | zero =>
    cases hstep : step s with
    | none =>
      rw [peel_stop hstep] at h
      cases h
      exact hstop hstep
    | some split =>
      rw [peel,hstep,Option.isNone_some,if_neg Bool.false_ne_true] at h
      cases h
  | succ fuel ih =>
    cases hstep : step s with
    | none =>
      rw [peel_stop hstep] at h
      cases h
      exact hstop hstep
    | some split =>
      rw [peel_split hstep] at h
      obtain ⟨⟨pieces',last'⟩,hrest,hsame⟩ := Option.map_eq_some_iff.mp h
      cases hsame
      exact hsplit hstep (ih hrest)

/-- If a measure decreases with every piece, there are no more pieces than it says. -/
theorem peel_total {I : σ→Prop} (measure : σ→ℕ)
    (hdecreases : ∀ {s piece rest}, I s → step s=some (piece,rest) →
      I rest ∧ measure rest < measure s) (hs : I s) :
    ∃ result, ∀ fuel, measure s≤fuel → peel step fuel s=some result := by
  induction hmeasure : measure s using Nat.strong_induction_on generalizing s with
  | _ n ih =>
    cases hstep : step s with
    | none => exact ⟨([],s),fun fuel _ => peel_stop hstep fuel⟩
    | some split =>
      obtain ⟨hrest,hless⟩ := hdecreases hs hstep
      obtain ⟨result,hresult⟩ := ih _ (hmeasure ▸ hless) hrest rfl
      refine ⟨(split.1::result.1,result.2),fun fuel hfuel => ?_⟩
      cases fuel with
      | zero => omega
      | succ fuel =>
        rw [peel_split hstep,hresult fuel (by omega)]
        rfl

/-! ## Divisions of a set -/

/-- Sets that have no element in common and together those of another. -/
def Divides (parts : List (Set α)) (whole : Set α) : Prop :=
  parts.Pairwise Disjoint ∧ ∀ x, x∈whole ↔ ∃ part∈parts, x∈part

theorem divides_singleton (whole : Set α) : Divides [whole] whole :=
  ⟨List.pairwise_singleton Disjoint whole,fun x => by simp⟩

/-- A part more is disjoint from the others if it is from all of them together. -/
theorem Divides.cons {parts : List (Set α)} {part rest whole : Set α} (h : Divides parts rest)
    (hdisjoint : Disjoint part rest) (hunion : part ∪ rest=whole) :
    Divides (part::parts) whole := by
  constructor
  · refine List.pairwise_cons.mpr ⟨fun other hother => ?_,h.1⟩
    exact hdisjoint.mono_right fun x hx => (h.2 x).mpr ⟨other,hother,hx⟩
  · intro x
    rw [←hunion,Set.mem_union,h.2]
    simp

/-- If each step divides what it is given, what is peeled divides the whole. -/
theorem peel_divides {I : σ→Prop} {region : σ→Set α} {pieceRegion : π→Set α}
    (hstep : ∀ {s piece rest}, I s → step s=some (piece,rest)→I rest ∧
      Disjoint (pieceRegion piece) (region rest) ∧ pieceRegion piece ∪ region rest=region s)
    (hs : I s) (h : peel step fuel s=some (pieces,last)) :
    Divides (pieces.map pieceRegion++[region last]) (region s) := by
  refine peel_induction (R := fun s pieces last => I s →
    Divides (pieces.map pieceRegion++[region last]) (region s)) (fun _ _ => ?_)
    (fun hsplit ih hI => ?_) h hs
  · exact divides_singleton _
  · obtain ⟨hrest,hdisjoint,hunion⟩ := hstep hI hsplit
    exact (ih hrest).cons hdisjoint hunion

/-- What holds of each piece that is split off, and of what is left when nothing is. -/
theorem peel_parts {I : σ→Prop} {P : π→Prop} {Q : σ→Prop}
    (hpiece : ∀ {s piece rest}, I s → step s=some (piece,rest)→I rest ∧ P piece)
    (hlast : ∀ {s}, I s → step s=none→Q s)
    (hs : I s) (h : peel step fuel s=some (pieces,last)) :
    (∀ piece∈pieces, P piece) ∧ Q last := by
  refine peel_induction (R := fun s pieces last => I s→(∀ piece∈pieces, P piece) ∧ Q last)
    (fun hstop hI => ?_) (fun hsplit ih hI => ?_) h hs
  · exact ⟨fun _ hmem => absurd hmem List.not_mem_nil,hlast hI hstop⟩
  · obtain ⟨hrest,hP⟩ := hpiece hI hsplit
    obtain ⟨hpieces,hQ⟩ := ih hrest
    exact ⟨List.forall_mem_cons.mpr ⟨hP,hpieces⟩,hQ⟩

end GuacServer.Peeling
