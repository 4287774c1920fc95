import GuacServer.ParentChains

/-!
# Values composed over a tree

Each element of a tree has a value of its own, and the composed values of its
children are drawn onto it one after the other. Instead of the recursion, one pass
over all elements may draw the value each has reached so far onto that of its
parent, if no element comes before one of its children.
-/

namespace GuacServer.TreeFold

open List ParentChains

variable {α V : Type*} [DecidableEq α]

/-- The children of an element in an order. -/
def childrenIn (parent : α→Option α) (order : List α) (a : α) : List α :=
  order.filter fun c => parent c=some a

/-- The value of an element with some levels of its tree drawn onto it. -/
def compose (parent : α→Option α) (draw : α→V→V→V) (own : α→V) (order : List α) : ℕ→α→V
  | 0, a => own a
  | n+1, a => (childrenIn parent order a).foldl
      (fun value c => draw c (compose parent draw own order n c) value) (own a)

/-- The value an element has reached is drawn onto that of its parent. -/
def step (parent : α→Option α) (draw : α→V→V→V) (values : α→V) (a : α) : α→V :=
  match parent a with
  | none => values
  | some p => Function.update values p (draw a (values a) (values p))

/-- No element comes before one of its children. -/
def BottomUp (parent : α→Option α) (order : List α) : Prop :=
  order.Pairwise fun a b => parent b≠some a

variable {parent : α→Option α} {draw : α→V→V→V} {own : α→V} {order : List α}

/-- Folds agree if their functions do on the elements of the list. -/
theorem foldl_congr {β : Type*} {f g : V→β→V} {l : List β}
    (h : ∀ b∈l, ∀ v, f v b=g v b) (v : V) : l.foldl f v=l.foldl g v := by
  induction l generalizing v with
  | nil => rfl
  | cons b l ih =>
    rw [foldl_cons,foldl_cons,h b (mem_cons_self ..)]
    exact ih (fun c hc => h c (mem_cons_of_mem _ hc)) _

/-- More levels than there are elements change nothing. -/
theorem compose_succ [Fintype α] {n d : ℕ} {a : α} (h : Reaches parent a d)
    (hlevels : Fintype.card α≤d+n) :
    compose parent draw own order (n+1) a=compose parent draw own order n a := by
  induction n generalizing a d with
  | zero => exact absurd h.lt_card (by omega)
  | succ n ih =>
    rw [compose,compose]
    refine foldl_congr (fun c hc value => ?_) _
    have hparent : parent c=some a := by simpa [childrenIn] using (mem_filter.mp hc).2
    rw [ih (.link hparent h) (by omega)]

/-- The composed values satisfy their recursion. -/
theorem compose_eq [Fintype α] (hforest : Forest parent) (a : α) :
    compose parent draw own order (Fintype.card α) a=(childrenIn parent order a).foldl
        (fun value c => draw c (compose parent draw own order (Fintype.card α) c) value)
        (own a) := by
  obtain ⟨d,hd⟩ := hforest a
  rw [←compose_succ hd (Nat.le_add_left _ _),compose]

/-- After a part of the pass, the children in that part have been drawn onto each
element, with their composed values. -/
theorem pass_eq {full : α→V} (hbottomUp : BottomUp parent order) (hself : ∀ a, parent a≠some a)
    (hfull : ∀ a, full a=
      (childrenIn parent order a).foldl (fun value c => draw c (full c) value) (own a))
    {made rest : List α} (horder : order=made++rest) (a : α) :
    made.foldl (step parent draw) own a=
      (childrenIn parent made a).foldl (fun value c => draw c (full c) value) (own a) := by
  induction made using List.reverseRecOn generalizing rest a with
  | nil => rfl
  | append_singleton made b ih =>
    have horder' : order=made++b::rest := by
      rw [horder,append_assoc,singleton_append]
    have hmade := ih horder'
    have hchildren : childrenIn parent made b=childrenIn parent order b := by
      have hrest : childrenIn parent (b::rest) b=[] := by
        unfold childrenIn
        rw [filter_eq_nil_iff]
        intro c hc
        rw [decide_eq_true_eq]
        unfold BottomUp at hbottomUp
        rw [horder',pairwise_append] at hbottomUp
        rcases mem_cons.mp hc with rfl | hc
        · exact hself c
        · exact (pairwise_cons.mp hbottomUp.2.1).1 c hc
      unfold childrenIn at hrest ⊢
      rw [horder',filter_append,hrest,append_nil]
    have hvalue : made.foldl (step parent draw) own b=full b := by
      rw [hmade b,hfull b,hchildren]
    rw [foldl_append,foldl_cons,foldl_nil]
    unfold step childrenIn
    rw [filter_append]
    cases hparent : parent b with
    | none =>
      rw [filter_cons_of_neg (by simp [hparent]),filter_nil,append_nil]
      exact hmade a
    | some p =>
      dsimp only
      by_cases hap : a=p
      · subst hap
        rw [Function.update_self,filter_cons_of_pos (by simp [hparent]),filter_nil,
          foldl_append,foldl_cons,foldl_nil]
        change draw b (made.foldl (step parent draw) own b) (made.foldl (step parent draw) own a)=_
        rw [hvalue,hmade a]
        rfl
      · rw [Function.update_of_ne hap,filter_cons_of_neg
          (by simpa [hparent] using fun h => hap h.symm),filter_nil,append_nil]
        exact hmade a

/-- One pass from the bottom up composes every value. -/
theorem pass_compose [Fintype α] (hforest : Forest parent) (hbottomUp : BottomUp parent order)
    (a : α) :
    order.foldl (step parent draw) own a=compose parent draw own order (Fintype.card α) a := by
  have hself : ∀ b, parent b≠some b := by
    intro b hb
    obtain ⟨n,hn⟩ := hforest b
    have hlonger := hn.unique (.link hb hn)
    omega
  rw [pass_eq hbottomUp hself (compose_eq hforest) (append_nil order).symm a,
    ←compose_eq hforest]

end GuacServer.TreeFold
