import GuacServer.EncoderNulls
import GuacServer.TreeFold

/-!
# The order of rendering

The layers are sorted by depth, parent and z, which for a tree of layers is an order
that qsort can sort by. No layer comes before one of its children, and siblings come
with descending z.
-/

namespace GuacServer.EncoderDisplay

open DecimalNumerals List ParentChains

/-- Three numbers compared one after the other, the greater first. -/
def compareDescending (a b : ℤ×ℤ×ℤ) : ℤ :=
  if b.1≠a.1 then b.1-a.1 else if b.2.1≠a.2.1 then b.2.1-a.2.1 else b.2.2-a.2.2

theorem compareDescending_swap (a b : ℤ×ℤ×ℤ) :
    compareDescending a b<0 ↔ 0<compareDescending b a := by
  unfold compareDescending
  split_ifs <;> omega

theorem compareDescending_trans {a b c : ℤ×ℤ×ℤ} (hab : compareDescending a b≤0)
    (hbc : compareDescending b c≤0) : compareDescending a c≤0 := by
  unfold compareDescending at *
  split_ifs at * <;> omega

variable {S C φ : Type}

/-- Siblings whose z coordinates can be subtracted in an int. -/
def ZComparable (display : Display S C φ) : Prop :=
  ∀ i j layer layer', display.layers i=some layer → display.layers j=some layer' →
    layer.parentIndex=layer'.parentIndex → layer'.z-layer.z<2^31

theorem Planted.parentIndex_range {display : Display S C φ} (h : Planted display)
    (i : Fin guacencDisplayMaxLayers) :
    -1≤parentIndexAt display i ∧ parentIndexAt display i<64 := by
  by_cases hi : parentIndexAt display i=guacencLayerNoParent
  · rw [hi]
    decide
  · have hvalid := h.valid i hi
    unfold parentOf layerOf at hvalid
    split_ifs at hvalid with hrange
    · unfold guacencDisplayMaxLayers at hrange
      omega
    · cases hvalid

/-- The comparator compares depths, then parents, then z coordinates. -/
theorem comparator_eq {display : Display S C φ} (hplanted : Planted display)
    (hz : ZComparable display) (depth : Fin guacencDisplayMaxLayers→ℤ)
    {i j : Fin guacencDisplayMaxLayers} {layer layer' : Layer S C}
    (hi : display.layers i=some layer) (hj : display.layers j=some layer') :
    guacencDisplayLayerComparator display depth i j=
      compareDescending (depth i,layer.parentIndex,layer.z)
        (depth j,layer'.parentIndex,layer'.z) := by
  have hparent := hplanted.parentIndex_range i
  have hparent' := hplanted.parentIndex_range j
  rw [←parentIndex_eq hi] at hparent
  rw [←parentIndex_eq hj] at hparent'
  unfold guacencDisplayLayerComparator compareDescending
  rw [hi,hj]
  dsimp only
  split_ifs with hdepth hindex
  · rfl
  · exact wrap32_of_range (by omega) (by omega)
  · have hlt := hz i j layer layer' hi hj (not_not.mp hindex).symm
    have hgt := hz j i layer' layer hj hi (not_not.mp hindex)
    exact wrap32_of_range (by omega) (by omega)

/-- qsort can sort the layers of a tree by the comparator. -/
theorem comparator_comparison {display : Display S C φ} (hplanted : Planted display)
    (hz : ZComparable display) (depth : Fin guacencDisplayMaxLayers→ℤ) :
    Comparison (guacencDisplayLayerComparator display depth) := by
  have hnone : ∀ i j, display.layers i=none → guacencDisplayLayerComparator display depth i j=
      if (display.layers j).isSome then 1 else 0 := by
    intro i j hi
    unfold guacencDisplayLayerComparator
    rw [hi]
    cases display.layers j <;> rfl
  have hsome : ∀ i j layer, display.layers i=some layer → display.layers j=none →
      guacencDisplayLayerComparator display depth i j = -1 := by
    intro i j layer hi hj
    unfold guacencDisplayLayerComparator
    rw [hi,hj]
  refine ⟨fun i j => ?_,fun i j k hij hjk => ?_⟩
  · cases hi : display.layers i with
    | none =>
      rw [hnone i j hi]
      cases hj : display.layers j with
      | none =>
        rw [hnone j i hj,hi]
        simp
      | some layer =>
        rw [hsome j i layer hj hi]
        simp
    | some layer =>
      cases hj : display.layers j with
      | none =>
        rw [hsome i j layer hi hj,hnone j i hj,hi]
        simp
      | some layer' =>
        rw [comparator_eq hplanted hz depth hi hj,comparator_eq hplanted hz depth hj hi]
        exact compareDescending_swap _ _
  · cases hi : display.layers i with
    | none =>
      rw [hnone i j hi] at hij
      rw [hnone i k hi]
      cases hj : display.layers j with
      | none =>
        rw [hnone j k hj] at hjk
        exact hjk
      | some layer =>
        rw [hj] at hij
        exact absurd hij (by simp)
    | some layer =>
      cases hk : display.layers k with
      | none =>
        rw [hsome i k layer hi hk]
        decide
      | some layer'' =>
        cases hj : display.layers j with
        | none =>
          rw [hnone j k hj,hk] at hjk
          exact absurd hjk (by simp)
        | some layer' =>
          rw [comparator_eq hplanted hz depth hi hj] at hij
          rw [comparator_eq hplanted hz depth hj hk] at hjk
          rw [comparator_eq hplanted hz depth hi hk]
          exact compareDescending_trans hij hjk

/-- The layers that exist, in an order in which the z coordinates of siblings are in
a relation. -/
structure Stacking (before : ℤ→ℤ→Prop) (display : Display S C φ)
    (order : List (Fin guacencDisplayMaxLayers)) : Prop where
  mem : ∀ i, i∈order ↔ (display.layers i).isSome
  nodup : order.Nodup
  siblings : order.Pairwise fun i j => parentOf display i=parentOf display j →
    before (layerAt display i).z (layerAt display j).z

section Order

variable {env : Environment S C φ} {display : Display S C φ}

/-- The depths found are the numbers of links to the root. -/
theorem layerDepths_eq {parent : Fin guacencDisplayMaxLayers →
      Option (Fin guacencDisplayMaxLayers)}
    (hstack : guacencDisplayMaxLayers≤env.stack) (layers : List (Fin guacencDisplayMaxLayers))
    (hplanted : Planted display) (hparent : parentOf display=parent)
    (hexist : ∀ i∈layers, (display.layers i).isSome) :
    ∃ depths reached, layerDepths env.stack layers display=.ok (depths,reached) ∧
      Created display reached ∧ ∀ i∈layers, ∀ n, Reaches parent i n → depths i=n := by
  induction layers generalizing display with
  | nil => exact ⟨_,display,rfl,.refl display,fun i hi => absurd hi not_mem_nil⟩
  | cons i layers ih =>
    obtain ⟨layer,hlayer⟩ := Option.isSome_iff_exists.mp (hexist i (mem_cons_self ..))
    obtain ⟨n,hn⟩ := hplanted.forest i
    rw [hparent] at hn
    have hlt := hn.lt_card
    rw [Fintype.card_fin] at hlt
    obtain ⟨reached,hdepth,hsame⟩ :=
      getDepth_of_reaches hn hplanted hparent (parentIndex_eq hlayer) ((le_of_lt hlt).trans hstack)
    have hcreated := getDepth_created env.stack (some layer) display
    rw [hdepth] at hcreated
    have hexist' : ∀ j∈layers, (reached.layers j).isSome := by
      intro j hj
      have hsome := hexist j (mem_cons_of_mem _ hj)
      rcases hcreated.layers j with heq | ⟨hnone,-⟩
      · rw [heq]
        exact hsome
      · rw [hnone] at hsome
        cases hsome
    obtain ⟨depths,final,hdepths,hfinal,hlinks⟩ :=
      ih (hsame.planted hplanted) (hsame.parentOf_eq.trans hparent) hexist'
    refine ⟨Function.update depths i n,final,?_,hcreated.trans hfinal,fun j hj m hm => ?_⟩
    · rw [layerDepths,hlayer,hdepth]
      change (layerDepths env.stack layers reached >>= _)=_
      rw [hdepths]
      rfl
    · by_cases hji : j=i
      · rw [hji] at hm ⊢
        rw [Function.update_self,hm.unique hn]
      · rw [Function.update_of_ne hji]
        exact hlinks j ((mem_cons.mp hj).resolve_left hji) m hm

theorem layerOf_some {index : ℤ} {p : Fin guacencDisplayMaxLayers} (h : layerOf index=some p) :
    (p.val : ℤ)=index := by
  unfold layerOf at h
  split_ifs at h with hrange
  cases h
  exact Int.toNat_of_nonneg hrange.1

/-- Layers with the same parent have the same parent index. -/
theorem Planted.parentIndex_of_parentOf (hplanted : Planted display)
    {i j : Fin guacencDisplayMaxLayers} (h : parentOf display i=parentOf display j) :
    parentIndexAt display i=parentIndexAt display j := by
  have hnone : ∀ i, parentOf display i=none → parentIndexAt display i=guacencLayerNoParent := by
    intro i hi
    by_contra hne
    have hvalid := hplanted.valid i hne
    rw [hi] at hvalid
    cases hvalid
  cases hi : parentOf display i with
  | none => rw [hnone i hi,hnone j (h.symm.trans hi)]
  | some p => rw [←layerOf_some hi,←layerOf_some (h.symm.trans hi)]

/-- Layers with the same parent are as deep. -/
theorem depth_of_parentOf {i j : Fin guacencDisplayMaxLayers} {m n : ℕ}
    (h : parentOf display i=parentOf display j) (hm : Reaches (parentOf display) i m)
    (hn : Reaches (parentOf display) j n) : m=n := by
  cases hm with
  | root hroot => exact (Reaches.root (h ▸ hroot)).unique hn
  | link hlink hp => exact (Reaches.link (h ▸ hlink) hp).unique hn

/-- What holds of sorted layers, from what the comparison of two layers says. -/
theorem sorted_pairwise {depths : Fin guacencDisplayMaxLayers→ℤ} (hplanted : Planted display)
    (hz : ZComparable display)
    (hdepths : display.existing.length<2 ∨
      ∀ i∈display.existing, ∀ n, Reaches (parentOf display) i n → depths i=n)
    {R : Fin guacencDisplayMaxLayers→Fin guacencDisplayMaxLayers→Prop}
    (h : ∀ i j m n, Reaches (parentOf display) i m→Reaches (parentOf display) j n →
      compareDescending (m,parentIndexAt display i,(layerAt display i).z)
        (n,parentIndexAt display j,(layerAt display j).z)≤0→R i j) :
    ((env.qsort.sort (guacencDisplayLayerComparator display depths)
      (List.finRange guacencDisplayMaxLayers)).filter fun i => (display.layers i).isSome).Pairwise
        R := by
  have hperm := env.qsort.perm (guacencDisplayLayerComparator display depths)
    (List.finRange guacencDisplayMaxLayers)
  have hsorted := env.qsort.sorted (guacencDisplayLayerComparator display depths)
    (List.finRange guacencDisplayMaxLayers) (comparator_comparison hplanted hz depths)
  generalize env.qsort.sort (guacencDisplayLayerComparator display depths)
    (List.finRange guacencDisplayMaxLayers)=sorted at hperm hsorted
  rcases hdepths with hfew | hlinks
  · have hlength := (hperm.filter fun i => (display.layers i).isSome).length_eq
    change _ = display.existing.length at hlength
    generalize (sorted.filter fun i => (display.layers i).isSome)=order at hlength
    match order, hlength with
    | [], _ => exact List.Pairwise.nil
    | [i], _ => exact pairwise_singleton R i
    | _ :: _ :: _, hlength => simp only [length_cons] at hlength; omega
  · refine (hsorted.filter _).imp_of_mem fun {i j} hi hj hcompare => ?_
    have hexists : ∀ i∈sorted.filter fun i => (display.layers i).isSome,
        i∈display.existing := fun i hi =>
      mem_filter.mpr ⟨mem_finRange i,(mem_filter.mp hi).2⟩
    obtain ⟨layer,hlayer⟩ := Option.isSome_iff_exists.mp (mem_filter.mp hi).2
    obtain ⟨layer',hlayer'⟩ := Option.isSome_iff_exists.mp (mem_filter.mp hj).2
    obtain ⟨m,hm⟩ := hplanted.forest i
    obtain ⟨n,hn⟩ := hplanted.forest j
    refine h i j m n hm hn ?_
    rw [comparator_eq hplanted hz depths hlayer hlayer',hlinks i (hexists i hi) m hm,
      hlinks j (hexists j hj) n hn] at hcompare
    unfold parentIndexAt layerAt
    rw [hlayer,hlayer']
    exact hcompare

/-- The layers are rendered from the deepest to the default layer, and siblings with
descending z. -/
theorem renderOrder_stacking (hstack : guacencDisplayMaxLayers≤env.stack)
    (hplanted : Planted display) (hz : ZComparable display) :
    ∃ order reached, renderOrder env display=.ok (order,reached) ∧ Created display reached ∧
      Stacking (fun z z' => z' ≤ z) display order ∧
      TreeFold.BottomUp (parentOf display) order := by
  obtain ⟨depths,reached,hdepths,hcreated,hlinks⟩ : ∃ depths reached,
      comparedDepths env display=.ok (depths,reached) ∧ Created display reached ∧
        (display.existing.length<2 ∨
          ∀ i∈display.existing, ∀ n, Reaches (parentOf display) i n → depths i=n) := by
    unfold comparedDepths
    split_ifs with hfew
    · exact ⟨_,display,rfl,.refl display,Or.inl hfew⟩
    · obtain ⟨depths,reached,hdepths,hcreated,hlinks⟩ :=
        layerDepths_eq hstack display.existing hplanted rfl fun i hi => (mem_filter.mp hi).2
      exact ⟨depths,reached,hdepths,hcreated,Or.inr hlinks⟩
  have hperm := env.qsort.perm (guacencDisplayLayerComparator display depths)
    (List.finRange guacencDisplayMaxLayers)
  refine ⟨_,reached,by rw [renderOrder,hdepths]; rfl,hcreated,⟨fun i => ?_,?_,?_⟩,?_⟩
  · rw [mem_filter,hperm.mem_iff]
    exact and_iff_right (mem_finRange i)
  · exact (hperm.nodup_iff.mpr (nodup_finRange _)).filter _
  · refine sorted_pairwise hplanted hz hlinks fun i j m n hm hn hcompare hparent => ?_
    rw [depth_of_parentOf hparent hm hn,hplanted.parentIndex_of_parentOf hparent] at hcompare
    unfold compareDescending at hcompare
    rw [if_neg (not_not.mpr rfl),if_neg (not_not.mpr rfl)] at hcompare
    exact Int.le_of_sub_nonpos hcompare
  · refine sorted_pairwise hplanted hz hlinks fun i j m n hm hn hcompare hlink => ?_
    -- the child would be the deeper one
    have hdeeper := hn.unique (.link hlink hm)
    unfold compareDescending at hcompare
    rw [if_pos (by dsimp only; omega)] at hcompare
    dsimp only at hcompare
    omega

end Order

end GuacServer.EncoderDisplay
