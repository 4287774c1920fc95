import Mathlib.Data.List.Nodup

/-!
# Doubly linked lists in memory

Nodes of any type carry a link to the previous and to the next node, and one
node is the head. A list of nodes is represented if following the links from
the head gives it, and from each node back the one before it. Nodes are put at
the head or taken out by updates of single links.
-/

namespace GuacServer.LinkedLists

open Function List

variable {α : Type*}

/-- The links of a list. -/
structure Links (α : Type*) where
  head : Option α
  prev : α→Option α
  next : α→Option α

/-- No nodes; links of nodes that are not in the list have any value. -/
def Links.empty (prev next : α→Option α) : Links α := ⟨none,prev,next⟩

/-- Nodes that are linked one to the next, from a start on, and back to the
node before it. -/
def Chain (links : Links α) : Option α→Option α→List α→Prop
  | _, start, [] => start=none
  | before, start, node::nodes =>
    start=some node ∧ links.prev node=before ∧ Chain links (some node) (links.next node) nodes

/-- A list of distinct nodes is linked from the head on. -/
structure Represents (links : Links α) (nodes : List α) : Prop where
  chain : Chain links none links.head nodes
  nodup : nodes.Nodup

variable {links : Links α} {before start : Option α} {nodes : List α}

/-- Links of other nodes do not matter. -/
theorem Chain.congr {links' : Links α} (h : Chain links before start nodes)
    (hsame : ∀ node∈nodes,links'.prev node=links.prev node ∧ links'.next node=links.next node) :
    Chain links' before start nodes := by
  induction nodes generalizing before start with
  | nil => exact h
  | cons node nodes ih =>
    obtain ⟨hstart,hprev,hrest⟩ := h
    obtain ⟨hprev',hnext'⟩ := hsame node (mem_cons_self ..)
    refine ⟨hstart,hprev'.trans hprev,?_⟩
    rw [hnext']
    exact ih hrest fun other hother => hsame other (mem_cons_of_mem _ hother)

/-- A chain starts with its first node. -/
theorem Chain.start_eq (h : Chain links before start nodes) : start=nodes.head? := by
  cases nodes with
  | nil => exact h
  | cons node nodes => exact h.1

variable {node : α}

/-- The links of a node in the middle of a chain. -/
theorem Chain.middle {front back : List α} (h : Chain links before start (front++node::back)) :
    links.prev node=front.getLast?.or before ∧ links.next node=back.head? := by
  induction front generalizing before start with
  | nil => exact ⟨h.2.1,h.2.2.start_eq⟩
  | cons first front ih =>
    obtain ⟨hprev,hnext⟩ := ih h.2.2
    refine ⟨hprev.trans ?_,hnext⟩
    cases front with
    | nil => rfl
    | cons second front => simp [List.getLast?_cons]

/-- No node of a chain is linked back to itself. -/
theorem Chain.prev_ne {front back : List α} (h : Chain links before start (front++node::back))
    (hnodup : (before.toList++(front++node::back)).Nodup) : links.prev node≠some node := by
  obtain ⟨hbefore,hnodes,hdisjoint⟩ := nodup_append.mp hnodup
  rw [h.middle.1]
  intro heq
  cases hlast : front.getLast? with
  | none =>
    rw [hlast,Option.none_or] at heq
    rw [heq] at hdisjoint
    exact hdisjoint node (mem_cons_self ..) node
      (mem_append_right _ (mem_cons_self ..)) rfl
  | some last =>
    rw [hlast,Option.some_or] at heq
    cases heq
    exact (nodup_append.mp hnodes).2.2 node (mem_of_getLast? hlast) node
      (mem_cons_self ..) rfl

/-- A chain is attached to another node before it. -/
theorem Chain.reattach {links' : Links α} {before' : Option α} (h : Chain links before start nodes)
    (hnodup : nodes.Nodup) (hprev : ∀ first, nodes.head? = some first → links'.prev first=before')
    (hsame : ∀ other∈nodes, (nodes.head? ≠ some other → links'.prev other=links.prev other) ∧
      links'.next other=links.next other) : Chain links' before' start nodes := by
  cases nodes with
  | nil => exact h
  | cons first nodes =>
    obtain ⟨hstart,-,hrest⟩ := h
    obtain ⟨hfirst,-⟩ := nodup_cons.mp hnodup
    refine ⟨hstart,hprev first rfl,?_⟩
    rw [(hsame first (mem_cons_self ..)).2]
    refine hrest.congr fun other hother => ?_
    obtain ⟨hprev',hnext'⟩ := hsame other (mem_cons_of_mem _ hother)
    refine ⟨hprev' fun heq => hfirst ?_,hnext'⟩
    rw [List.head?_cons] at heq
    cases heq
    exact hother

/-- The empty list. -/
theorem Represents.empty (prev next : α→Option α) : Represents (Links.empty prev next) [] :=
  ⟨rfl,nodup_nil⟩

/-- The head has no node before it. -/
theorem Represents.prev_head (h : Represents links nodes) (hhead : links.head=some node) :
    links.prev node=none := by
  cases nodes with
  | nil => cases hhead.symm.trans h.chain
  | cons first nodes =>
    obtain ⟨hstart,hprev,-⟩ := h.chain
    cases hhead.symm.trans hstart
    exact hprev

/-- The node after a node is linked back to it. -/
theorem Represents.prev_next (h : Represents links nodes) (hmem : node∈nodes)
    {other : α} (hnext : links.next node=some other) : links.prev other=some node := by
  obtain ⟨front,back,rfl⟩ := append_of_mem hmem
  have hback := h.chain.middle.2
  cases back with
  | nil => cases hnext.symm.trans hback
  | cons second back =>
    cases hnext.symm.trans hback
    rw [append_cons] at h
    rw [h.chain.middle.1,List.getLast?_concat,Option.some_or]

variable [DecidableEq α]

/-- The node after the given one, or else the head, is set. -/
def Links.setNext (node : Option α) (value : Option α) (links : Links α) : Links α :=
  match node with
  | some p => { links with next := update links.next p value }
  | none => { links with head := value }

/-- The node before the given one, if there is any, is set. -/
def Links.setPrev (node : Option α) (value : Option α) (links : Links α) : Links α :=
  match node with
  | some n => { links with prev := update links.prev n value }
  | none => links

/-- A node is put at the head. -/
def Links.pushFront (node : α) (links : Links α) : Links α :=
  let links := links.setPrev (some node) none
  let links := links.setNext (some node) links.head
  let links := links.setPrev links.head (some node)
  { links with head := some node }

/-- A node is taken out. -/
def Links.unlink (node : α) (links : Links α) : Links α :=
  let links := links.setNext (links.prev node) (links.next node)
  links.setPrev (links.next node) (links.prev node)

/-- Taking out a node whose neighbours are others. -/
theorem unlink_eq {p n : Option α} (hprev : links.prev node=p)
    (hnext : links.next node=n) (hp : p≠some node) :
    links.unlink node=(links.setNext p n).setPrev n p := by
  unfold Links.unlink
  rw [hprev,hnext]
  cases p with
  | none =>
    unfold Links.setNext
    dsimp only
    rw [hnext,hprev]
  | some q =>
    have hne : node≠q := fun heq => hp (congrArg some heq.symm)
    unfold Links.setNext
    dsimp only
    rw [update_of_ne hne,hnext,hprev]

/-- Links before a node that are not set. -/
theorem prev_setPrev_of_ne {node value : Option α} {other : α} (h : node≠some other) :
    (links.setPrev node value).prev other=links.prev other := by
  cases node with
  | none => rfl
  | some n => exact update_of_ne (fun heq => h (congrArg some heq.symm)) _ _

/-- The link before a node that is set. -/
theorem prev_setPrev_self (links : Links α) (node : α) (value : Option α) :
    (links.setPrev (some node) value).prev node=value := update_self ..

/-- Links after a node that are not set. -/
theorem next_setNext_of_ne {node value : Option α} {other : α} (h : node≠some other) :
    (links.setNext node value).next other=links.next other := by
  cases node with
  | none => rfl
  | some n => exact update_of_ne (fun heq => h (congrArg some heq.symm)) _ _

/-- The link after a node that is set. -/
theorem next_setNext_self (links : Links α) (node : α) (value : Option α) :
    (links.setNext (some node) value).next node=value := update_self ..

@[simp]
theorem next_setPrev (links : Links α) (node value : Option α) :
    (links.setPrev node value).next=links.next := by cases node <;> rfl

@[simp]
theorem head_setPrev (links : Links α) (node value : Option α) :
    (links.setPrev node value).head=links.head := by cases node <;> rfl

@[simp]
theorem prev_setNext (links : Links α) (node value : Option α) :
    (links.setNext node value).prev=links.prev := by cases node <;> rfl

@[simp]
theorem head_setNext (links : Links α) (node : α) (value : Option α) :
    (links.setNext (some node) value).head=links.head := rfl

/-- A new node at the head is linked to the nodes there were. -/
theorem Represents.pushFront (h : Represents links nodes) (hnew : node ∉ nodes) :
    Represents (links.pushFront node) (node::nodes) := by
  obtain ⟨hchain,hnodup⟩ := h
  have hhead : links.head≠some node := fun heq =>
    hnew (mem_of_head? (hchain.start_eq ▸ heq))
  unfold Links.pushFront
  refine ⟨⟨rfl,?_,?_⟩,nodup_cons.mpr ⟨hnew,hnodup⟩⟩
  · simp only [head_setPrev,head_setNext]
    rw [prev_setPrev_of_ne hhead,prev_setNext,prev_setPrev_self]
  · simp only [head_setPrev,head_setNext,next_setPrev,next_setNext_self]
    refine hchain.reattach hnodup (fun first hfirst => ?_) fun other hother => ⟨fun hne => ?_,?_⟩
    · rw [←hchain.start_eq] at hfirst
      simp only [hfirst,prev_setPrev_self]
    · rw [←hchain.start_eq] at hne
      have hother' : some node≠some other := fun heq => hnew (Option.some.inj heq ▸ hother)
      rw [prev_setPrev_of_ne hne,prev_setNext,prev_setPrev_of_ne hother']
    · have hother' : some node≠some other := fun heq => hnew (Option.some.inj heq ▸ hother)
      dsimp only
      rw [next_setNext_of_ne hother',next_setPrev]

/-- What a chain is after a node of it was taken out. -/
theorem Chain.unlink {front back : List α} (h : Chain links before start (front++node::back))
    (hnodup : (before.toList++(front++node::back)).Nodup) :
    Chain (links.unlink node) before (if front=[] then links.next node else start)
      (front++back) := by
  obtain ⟨hprev,hnext⟩ := h.middle
  induction front generalizing before start with
  | nil =>
    have hbefore : ∀ other∈node::back, before≠some other := by
      rintro other hother rfl
      exact (nodup_cons.mp hnodup).1 hother
    have hback : back.Nodup := (nodup_cons.mp hnodup.of_append_right).2
    rw [List.getLast?_nil,Option.none_or] at hprev
    rw [if_pos rfl,unlink_eq hprev hnext (hbefore node (mem_cons_self ..))]
    refine h.2.2.reattach hback (fun first hfirst => ?_) fun other hother => ⟨fun hne => ?_,?_⟩
    · rw [hfirst,prev_setPrev_self]
    · rw [prev_setPrev_of_ne hne,prev_setNext]
    · rw [next_setPrev,next_setNext_of_ne (hbefore other (mem_cons_of_mem _ hother))]
  | cons first front ih =>
    obtain ⟨hstart,hfirst,hrest⟩ := h
    have hnodes : (first::(front++node::back)).Nodup := hnodup.of_append_right
    obtain ⟨hmem,-⟩ := nodup_cons.mp hnodes
    have hne : ∀ other∈front++node::back, some other≠some first := by
      rintro other hother heq
      exact hmem (Option.some.inj heq ▸ hother)
    have hnotBack : back.head? ≠ some first := fun heq =>
      hmem (mem_append_right _ (mem_cons_of_mem _ (mem_of_head? heq)))
    obtain ⟨hprev',-⟩ := hrest.middle
    have hnode := hrest.prev_ne hnodes
    rw [if_neg (cons_ne_nil _ _)]
    refine ⟨hstart,?_,?_⟩
    · rw [unlink_eq rfl hnext hnode,prev_setPrev_of_ne hnotBack,prev_setNext,hfirst]
    · have hnextFirst : (links.unlink node).next first=
          if front=[] then links.next node else links.next first := by
        rw [unlink_eq rfl hnext hnode,next_setPrev,hprev']
        cases hlast : front.getLast? with
        | none =>
          rw [List.getLast?_eq_none_iff.mp hlast,if_pos rfl,hnext]
          exact next_setNext_self ..
        | some last =>
          have hfront := mem_of_getLast? hlast
          rw [if_neg (ne_nil_of_mem hfront)]
          exact next_setNext_of_ne (hne last (mem_append_left _ hfront))
      rw [hnextFirst]
      exact ih hrest hnodes hprev'

/-- A node that is taken out leaves the other nodes linked. -/
theorem Represents.unlink (h : Represents links nodes) (hmem : node∈nodes) :
    Represents (links.unlink node) (nodes.erase node) := by
  obtain ⟨hchain,hnodup⟩ := h
  obtain ⟨front,back,-,rfl,herase⟩ := exists_erase_eq hmem
  obtain ⟨hprev,hnext⟩ := hchain.middle
  refine ⟨?_,hnodup.erase node⟩
  rw [herase]
  have hrest := hchain.unlink hnodup
  have hhead : (links.unlink node).head=if front=[] then links.next node else links.head := by
    rw [unlink_eq hprev hnext (hprev ▸ hchain.prev_ne hnodup),head_setPrev]
    cases hlast : front.getLast? with
    | none =>
      rw [List.getLast?_eq_none_iff.mp hlast,if_pos rfl,hnext]
      rfl
    | some last =>
      rw [if_neg (ne_nil_of_mem (mem_of_getLast? hlast))]
      rfl
  rw [hhead]
  exact hrest

end GuacServer.LinkedLists
