import Mathlib.Data.Fintype.Card

/-!
# Chains of parents

Each element of a type has at most one parent. Following parents comes to an end
at a root, or it comes back to an element it has passed. Which of these is the
case after one element gets another parent depends only on whether that element
is among the ancestors of its new parent.
-/

namespace GuacServer.ParentChains

variable {α : Type*}

/-- An element comes to a root over a number of links. -/
inductive Reaches (parent : α→Option α) : α→ℕ→Prop
  | root {a : α} (h : parent a=none) : Reaches parent a 0
  | link {a b : α} {n : ℕ} (h : parent a=some b) (hb : Reaches parent b n) :
    Reaches parent a (n+1)

/-- Every element comes to a root. -/
def Forest (parent : α→Option α) : Prop := ∀ a, ∃ n, Reaches parent a n

/-- An element is another one or among its ancestors. -/
def Ascends (parent : α→Option α) : α→α→Prop := Relation.ReflTransGen fun a b => parent a=some b

variable {parent : α→Option α}

/-- The number of links to a root is determined. -/
theorem Reaches.unique {a : α} {m n : ℕ} (hm : Reaches parent a m) (hn : Reaches parent a n) :
    m=n := by
  induction hm generalizing n with
  | root h =>
    cases hn with
    | root => rfl
    | link h' => exact absurd (h.symm.trans h') (by simp)
  | link h _ ih =>
    cases hn with
    | root h' => exact absurd (h'.symm.trans h) (by simp)
    | link h' hb' =>
      cases h.symm.trans h'
      rw [ih hb']

/-- The elements on the way to a root are all nearer. -/
theorem Reaches.nearer {a : α} {n k : ℕ} (h : Reaches parent a n) (hk : k≤n) :
    ∃ b, Reaches parent b k := by
  induction h with
  | @root a h =>
    cases Nat.le_zero.mp hk
    exact ⟨a,.root h⟩
  | @link a b n h hb ih =>
    rcases Nat.lt_or_ge n k with hlt | hle
    · rw [show k=n+1 by omega]
      exact ⟨a,.link h hb⟩
    · exact ih hle

/-- The way to a root passes no element twice. -/
theorem Reaches.lt_card [Fintype α] {a : α} {n : ℕ} (h : Reaches parent a n) :
    n<Fintype.card α := by
  have hnearer : ∀ k : Fin (n+1), ∃ b, Reaches parent b k := fun k =>
    h.nearer (Nat.le_of_lt_succ k.isLt)
  choose f hf using hnearer
  have hinjective : Function.Injective f := by
    intro k l hkl
    have hk := hf k
    rw [hkl] at hk
    exact Fin.ext (hk.unique (hf l))
  have hcard := Fintype.card_le_of_injective f hinjective
  rw [Fintype.card_fin] at hcard
  exact hcard

/-- An ancestor is at most as far from the root. -/
theorem Reaches.ascend {a b : α} {n : ℕ} (h : Reaches parent a n) (hascends : Ascends parent a b) :
    ∃ m≤n, Reaches parent b m := by
  induction hascends with
  | refl => exact ⟨n,Nat.le_refl n,h⟩
  | tail _ hlink ih =>
    obtain ⟨m,hm,hreaches⟩ := ih
    cases hreaches with
    | root hroot => exact absurd (hroot.symm.trans hlink) (by simp)
    | link hlink' hb =>
      cases hlink.symm.trans hlink'
      exact ⟨_,by omega,hb⟩

section Update

variable [DecidableEq α] {x : α} {p : Option α}

/-- A chain that does not pass an element does not depend on its parent. -/
theorem Reaches.update {a : α} {n : ℕ} (h : Reaches parent a n) (hnot : ¬Ascends parent a x) :
    Reaches (Function.update parent x p) a n := by
  induction h with
  | @root a h =>
    have hne : a≠x := by
      rintro rfl
      exact hnot .refl
    exact .root (by rw [Function.update_of_ne hne,h])
  | @link a b n h hb ih =>
    have hne : a≠x := by
      rintro rfl
      exact hnot .refl
    exact .link (by rw [Function.update_of_ne hne,h]) (ih fun hb => hnot (.head h hb))

/-- A new parent that the element is no ancestor of keeps a forest. -/
theorem Forest.update (h : Forest parent) (hnot : ∀ b, p=some b→¬Ascends parent b x) :
    Forest (Function.update parent x p) := by
  have hx : ∃ n, Reaches (Function.update parent x p) x n := by
    cases hp : p with
    | none => exact ⟨0,.root (by rw [Function.update_self])⟩
    | some b =>
      obtain ⟨n,hn⟩ := h b
      exact ⟨n+1,.link (by rw [Function.update_self]) (hn.update (hnot b hp))⟩
  intro a
  obtain ⟨n,hn⟩ := h a
  induction hn with
  | @root a hroot =>
    by_cases hax : a=x
    · rw [hax]
      exact hx
    · exact ⟨0,.root (by rw [Function.update_of_ne hax,hroot])⟩
  | @link a b n hlink _ ih =>
    by_cases hax : a=x
    · rw [hax]
      exact hx
    · obtain ⟨m,hm⟩ := ih
      exact ⟨m+1,.link (by rw [Function.update_of_ne hax,hlink]) hm⟩

/-- The links up to an element do not depend on its parent. -/
theorem Ascends.update {a : α} (h : Ascends parent a x) :
    Ascends (Function.update parent x p) a x := by
  induction h using Relation.ReflTransGen.head_induction_on with
  | refl => exact .refl
  | @head a b hlink _ ih =>
    by_cases hax : a=x
    · rw [hax]
      exact .refl
    · exact .head (by rw [Function.update_of_ne hax,hlink]) ih

/-- An element whose new parent it is an ancestor of comes to no root. -/
theorem not_reaches_update {b : α} (hascends : Ascends parent b x) (n : ℕ) :
    ¬Reaches (Function.update parent x (some b)) x n := by
  intro h
  cases h with
  | root hroot =>
    rw [Function.update_self] at hroot
    cases hroot
  | link hlink hb =>
    rw [Function.update_self] at hlink
    cases hlink
    obtain ⟨m,hm,hreaches⟩ := hb.ascend hascends.update
    have hunique := hreaches.unique (.link (Function.update_self ..) hb)
    omega

end Update

end GuacServer.ParentChains
