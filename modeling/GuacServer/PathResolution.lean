import Mathlib.Algebra.Order.BigOperators.Group.List
import Mathlib.Algebra.Order.Ring.Nat

/-!
# Resolving the components of a path

A path is split at its separators. Components that stand for the directory itself are
dropped, and those that stand for its parent drop the component before them, if there
is one. What is left contains neither, is a part of the path, and is left as it is
when it is joined and resolved again.
-/

namespace GuacServer.PathResolution

open List

variable {α : Type*} {dot : α} {separator : α→Bool}

/-- A component that names an entry of a directory. -/
structure Names (dot : α) (separator : α→Bool) (component : List α) : Prop where
  ne_nil : component≠[]
  ne_self : component≠[dot]
  ne_parent : component≠[dot,dot]
  whole : ∀ a∈component, separator a=false

/-- Components joined by a separator. -/
def join (a : α) : List (List α)→List α
  | [] => []
  | [component] => component
  | component::components => component++a::join a components

@[simp] theorem join_nil (a : α) : join a []=[] := rfl

@[simp] theorem join_singleton (a : α) (component : List α) : join a [component]=component := rfl

@[simp] theorem join_cons_cons (a : α) (component next : List α) (components : List (List α)) :
    join a (component::next::components)=component++a::join a (next::components) := rfl

/-- The number of bytes that components take with a separator each. -/
def size (components : List (List α)) : ℕ := (components.map fun c => c.length+1).sum

variable {components : List (List α)}

theorem length_join (a : α) (h : components≠[]) : (join a components).length+1=size components := by
  induction components with
  | nil => exact absurd rfl h
  | cons component components ih =>
    cases components with
    | nil => simp [size]
    | cons next components =>
      have hrest := ih (cons_ne_nil _ _)
      simp only [join_cons_cons,length_append,length_cons,size,map_cons,
        sum_cons] at hrest ⊢
      omega

theorem size_le_of_sublist {kept : List (List α)} (h : kept.Sublist components) :
    size kept ≤ size components := by
  induction h with
  | slnil => rfl
  | cons component _ ih => simpa [size] using Nat.le_add_left_of_le ih
  | cons_cons component _ ih => simpa [size] using ih

/-- What is split is as long as its parts. -/
theorem size_splitOnP (path : List α) : size (path.splitOnP separator)=path.length+1 := by
  induction path with
  | nil => simp [size]
  | cons a path ih =>
    rw [splitOnP_cons_eq_if_modifyHead]
    split_ifs with h
    · simp only [size,map_cons,sum_cons,length_nil,length_cons] at ih ⊢
      omega
    · obtain ⟨first,rest,hsplit⟩ := exists_cons_of_ne_nil (splitOnP_ne_nil separator path)
      rw [hsplit] at ih ⊢
      simp only [size,modifyHead_cons,map_cons,sum_cons,length_cons] at ih ⊢
      omega

/-- A part holds only what was split, and no separator. -/
theorem of_mem_splitOnP {path component : List α} (h : component∈path.splitOnP separator) :
    ∀ a∈component, a∈path ∧ separator a=false := by
  induction path generalizing component with
  | nil => simp_all
  | cons a path ih =>
    rw [splitOnP_cons_eq_if_modifyHead] at h
    split_ifs at h with ha
    · rcases mem_cons.mp h with rfl | hrest
      · simp
      · exact fun b hb => (ih hrest b hb).imp_left (mem_cons_of_mem _)
    · obtain ⟨first,rest,hsplit⟩ := exists_cons_of_ne_nil (splitOnP_ne_nil separator path)
      rw [hsplit,modifyHead_cons] at h
      rw [hsplit] at ih
      intro b hb
      rcases mem_cons.mp h with rfl | hrest
      · rcases mem_cons.mp hb with rfl | hb
        · exact ⟨mem_cons_self ..,Bool.eq_false_iff.mpr ha⟩
        · exact (ih (mem_cons_self ..) b hb).imp_left (mem_cons_of_mem _)
      · exact (ih (mem_cons_of_mem _ hrest) b hb).imp_left (mem_cons_of_mem _)

/-- What is joined holds the separator and the components. -/
theorem mem_join {a b : α} (h : b∈join a components) : b=a ∨ ∃ c∈components, b∈c := by
  induction components with
  | nil => simp at h
  | cons component components ih =>
    cases components with
    | nil => exact Or.inr ⟨component,by simp,by simpa using h⟩
    | cons next components =>
      simp only [join_cons_cons,mem_append,mem_cons] at h
      rcases h with hfirst | hsep | hrest
      · exact Or.inr ⟨component,by simp,hfirst⟩
      · exact Or.inl hsep
      · rcases ih hrest with hsep | ⟨c,hc,hb⟩
        · exact Or.inl hsep
        · exact Or.inr ⟨c,mem_cons_of_mem _ hc,hb⟩

theorem join_ne_nil (a : α) (hne : components≠[]) (h : ∀ c∈components, c≠[]) :
    join a components≠[] := by
  intro hjoin
  have hlength := length_join a hne
  cases components with
  | nil => exact hne rfl
  | cons component components =>
    have hpos := length_pos_of_ne_nil (h component (mem_cons_self ..))
    simp only [hjoin,length_nil,size,map_cons,sum_cons] at hlength
    omega

/-- What is joined starts as its first component does. -/
theorem head?_join (a : α) (h : ∀ c∈components, c≠[]) :
    (join a components).head? = components.head?.bind List.head? := by
  cases components with
  | nil => rfl
  | cons component components =>
    obtain ⟨b,rest,rfl⟩ := exists_cons_of_ne_nil (h component (mem_cons_self ..))
    cases components <;> simp

/-- What is joined ends as its last component does. -/
theorem getLast?_join (a : α) (h : ∀ c∈components, c≠[]) :
    (join a components).getLast? = components.getLast?.bind List.getLast? := by
  induction components with
  | nil => rfl
  | cons component components ih =>
    cases components with
    | nil => simp
    | cons next components =>
      have hrest := fun c hc => h c (mem_cons_of_mem _ hc)
      have hne := join_ne_nil a (cons_ne_nil next components) hrest
      rw [join_cons_cons,List.getLast?_append_of_ne_nil _ (cons_ne_nil _ _),
        List.getLast?_cons_of_ne_nil hne,ih hrest,
        List.getLast?_cons_of_ne_nil (cons_ne_nil next components)]

/-- Joined components are split again. -/
theorem splitOnP_join {a : α} (ha : separator a=true) (hne : components≠[])
    (h : ∀ c∈components, ∀ b∈c, separator b=false) :
    (join a components).splitOnP separator=components := by
  induction components with
  | nil => exact absurd rfl hne
  | cons component components ih =>
    have hfirst := h component (mem_cons_self ..)
    cases components with
    | nil => exact splitOnP_eq_singleton hfirst
    | cons next components =>
      rw [join_cons_cons,splitOnP_append_cons_of_forall_mem hfirst a ha,
        ih (cons_ne_nil _ _) fun c hc => h c (mem_cons_of_mem _ hc)]

variable [DecidableEq α]

/-- What a component does to the components before it. -/
def resolveStep (dot : α) (components : List (List α)) (component : List α) : List (List α) :=
  if component=[dot,dot] then components.dropLast
  else if component=[dot] ∨ component=[] then components
  else components++[component]

/-- The components that are left of a path. -/
def resolve (dot : α) (components : List (List α)) : List (List α) :=
  components.foldl (resolveStep dot) []

theorem resolveStep_sublist (dot : α) (components : List (List α)) (component : List α) :
    (resolveStep dot components component).Sublist (components++[component]) := by
  unfold resolveStep
  split_ifs
  · exact (dropLast_sublist _).trans (sublist_append_left ..)
  · exact sublist_append_left ..
  · exact List.Sublist.refl _

theorem foldl_resolveStep_sublist (dot : α) (components start : List (List α)) :
    (components.foldl (resolveStep dot) start).Sublist (start++components) := by
  induction components generalizing start with
  | nil => simp
  | cons component components ih =>
    have hstep := (resolveStep_sublist dot start component).append_right components
    rw [append_assoc,singleton_append] at hstep
    exact (ih _).trans hstep

/-- What is left are components of the path, in their order. -/
theorem resolve_sublist (dot : α) (components : List (List α)) :
    (resolve dot components).Sublist components :=
  foldl_resolveStep_sublist dot components []

theorem names_resolveStep {component : List α} (h : ∀ c∈components, Names dot separator c)
    (hwhole : ∀ a∈component, separator a=false) :
    ∀ c∈resolveStep dot components component, Names dot separator c := by
  unfold resolveStep
  split_ifs with hparent hself
  · exact fun c hc => h c ((dropLast_sublist _).subset hc)
  · exact h
  · obtain ⟨hne,hnil⟩ := not_or.mp hself
    intro c hc
    rcases mem_append.mp hc with hmem | hlast
    · exact h c hmem
    · rw [mem_singleton.mp hlast]
      exact ⟨hnil,hne,hparent,hwhole⟩

/-- Every component that is left names an entry. -/
theorem names_resolve (h : ∀ c∈components, ∀ a∈c, separator a=false) :
    ∀ c∈resolve dot components, Names dot separator c := by
  have hfold : ∀ start : List (List α), (∀ c∈start, Names dot separator c) →
      ∀ c∈components.foldl (resolveStep dot) start, Names dot separator c := by
    induction components with
    | nil => exact fun _ hstart => hstart
    | cons component components ih =>
      intro start hstart
      exact ih (fun c hc => h c (mem_cons_of_mem _ hc)) _
        (names_resolveStep hstart (h component (mem_cons_self ..)))
  exact hfold [] (by simp)

/-- Components that name entries are all left. -/
theorem resolve_of_names (h : ∀ c∈components, Names dot separator c) :
    resolve dot components=components := by
  have hfold : ∀ start, components.foldl (resolveStep dot) start=start++components := by
    induction components with
    | nil => simp
    | cons component components ih =>
      intro start
      have hc := h component (mem_cons_self ..)
      rw [foldl_cons,ih fun c hc => h c (mem_cons_of_mem _ hc)]
      simp [resolveStep,hc.ne_parent,hc.ne_self,hc.ne_nil]
  exact hfold []

/-- Joined and resolved again, components that name entries stay the same. -/
theorem resolve_join {a : α} (ha : separator a=true) (h : ∀ c∈components, Names dot separator c) :
    resolve dot ((join a components).splitOnP separator)=components := by
  by_cases hne : components=[]
  · simp [hne,resolve,resolveStep]
  · rw [splitOnP_join ha hne fun c hc => (h c hc).whole]
    exact resolve_of_names h

/-- What is left of a path is no longer than the path. -/
theorem length_join_resolve (a : α) (path : List α) :
    (join a (resolve dot (path.splitOnP separator))).length≤path.length := by
  have hsize := size_le_of_sublist (resolve_sublist dot (path.splitOnP separator))
  rw [size_splitOnP] at hsize
  by_cases hne : resolve dot (path.splitOnP separator)=[]
  · simp [hne]
  · have hlength := length_join a hne
    omega

end GuacServer.PathResolution
