import Mathlib.Data.Finset.Insert
import Mathlib.Data.Finset.Erase

/-!
# Holders of resources

Each resource that is in use has exactly one place that holds it, and a place
holds one resource at most. A new resource is put into an empty place, and a
resource is given back from the place that holds it, so that none is given back
twice and none is left without a place.
-/

namespace GuacServer.ResourceHolders

variable {P R : Type*}

/-- The resources in use are those that are held, each in one place. -/
structure Held (used : Finset R) (holder : P→Option R) : Prop where
  mem_iff : ∀ r, r∈used ↔ ∃ p, holder p=some r
  unique : ∀ {p q r}, holder p=some r → holder q=some r → p=q

variable {used : Finset R} {holder : P→Option R} {p : P} {r : R}

/-- Nothing is held. -/
theorem held_empty : Held (∅ : Finset R) fun _ : P => none where
  mem_iff r := by simp
  unique h := nomatch h

/-- What is held is in use. -/
theorem Held.mem (h : Held used holder) (hp : holder p=some r) : r∈used := (h.mem_iff r).mpr ⟨p,hp⟩

variable {holder' : P→Option R}

/-- Only what every place holds matters. -/
theorem Held.congr (h : Held used holder) (hsame : ∀ p, holder' p=holder p) :
    Held used holder' := by
  rwa [funext hsame]

/-- A place that lets go of a resource in use without giving it back leaves it without a
place. -/
theorem Held.not_dropped (h : Held used holder) (hp : holder p=some r) (hself : holder' p=none)
    (hothers : ∀ q, q≠p → holder' q=holder q) : ¬∃ q, holder' q=some r := by
  rintro ⟨q,hq⟩
  by_cases heq : q=p
  · rw [heq,hself] at hq
    cases hq
  · rw [hothers q heq] at hq
    exact heq (h.unique hq hp)

variable [DecidableEq R]

/-- A new resource is put into an empty place. -/
theorem Held.acquire (h : Held used holder) (hr : r ∉ used) (hp : holder p=none)
    (hself : holder' p=some r)
    (hothers : ∀ q, q≠p → holder' q=holder q) : Held (insert r used) holder' := by
  have hcases : ∀ q r', holder' q=some r' ↔ (q=p ∧ r' = r) ∨ holder q=some r' := by
    intro q r'
    by_cases hq : q=p
    · subst hq
      simp [hself,hp,eq_comm]
    · simp [hothers q hq,hq]
  constructor
  · intro r'
    rw [Finset.mem_insert,h.mem_iff]
    constructor
    · rintro (rfl | ⟨q,hq⟩)
      · exact ⟨p,hself⟩
      · exact ⟨q,(hcases q r').mpr (Or.inr hq)⟩
    · rintro ⟨q,hq⟩
      rcases (hcases q r').mp hq with ⟨-,rfl⟩ | hq
      · exact Or.inl rfl
      · exact Or.inr ⟨q,hq⟩
  · intro q q' r' hq hq'
    rcases (hcases q r').mp hq with ⟨rfl,rfl⟩ | hq
    · rcases (hcases q' r').mp hq' with ⟨rfl,-⟩ | hq'
      · rfl
      · exact absurd (h.mem hq') hr
    · rcases (hcases q' r').mp hq' with ⟨rfl,rfl⟩ | hq'
      · exact absurd (h.mem hq) hr
      · exact h.unique hq hq'

/-- A resource is given back from the place that holds it. -/
theorem Held.release (h : Held used holder) (hp : holder p=some r) (hself : holder' p=none)
    (hothers : ∀ q, q≠p → holder' q=holder q) : Held (used.erase r) holder' := by
  have hcases : ∀ q r', holder' q=some r' ↔ q≠p ∧ holder q=some r' := by
    intro q r'
    by_cases hq : q=p
    · subst hq
      simp [hself]
    · simp [hothers q hq,hq]
  constructor
  · intro r'
    rw [Finset.mem_erase,h.mem_iff]
    constructor
    · rintro ⟨hne,q,hq⟩
      refine ⟨q,(hcases q r').mpr ⟨?_,hq⟩⟩
      rintro rfl
      exact hne (Option.some.inj (hq.symm.trans hp))
    · rintro ⟨q,hq⟩
      obtain ⟨hne,hq⟩ := (hcases q r').mp hq
      refine ⟨?_,q,hq⟩
      rintro rfl
      exact hne (h.unique hq hp)
  · intro q q' r' hq hq'
    exact h.unique ((hcases q r').mp hq).2 ((hcases q' r').mp hq').2

end GuacServer.ResourceHolders
