import Mathlib.Data.Finmap

/-!
# Linked lists with references back

Elements of one memory are linked into any number of lists. Each element refers
back to the one pointer that points to it, which is the head of a list or the
next pointer of another element, so that it can be taken out without a search.
What matters of a memory is what its pointers point to and what its elements
refer back to, and each operation is described by these.
-/

namespace GuacServer.BackReferences

open List

variable {ι α δ : Type*}

/-- A pointer to an element. -/
inductive Ref (ι α : Type*) where
  | head (list : ι)
  /-- The next pointer of an element. -/
  | next (element : α)

/-- An element of a list. -/
structure Element (ι α δ : Type*) where
  /-- The next element, if there is any. -/
  next : Option α
  /-- The data of the element. -/
  data : δ
  /-- The pointer that points to the element. -/
  ref : Ref ι α

/-- The heads of all lists and the elements that are allocated. -/
structure Memory (ι α δ : Type*) where
  /-- The first element of each list. -/
  head : ι→Option α
  /-- The elements by their addresses. -/
  elements : Finmap fun _ : α => Element ι α δ

variable [DecidableEq α]

/-- What a pointer points to. It has no value in an element that is not allocated. -/
def Memory.read (memory : Memory ι α δ) : Ref ι α→Option (Option α)
  | .head list => some (memory.head list)
  | .next a => (memory.elements.lookup a).map Element.next

/-- The data of an element, and the pointer it refers back to. -/
def Memory.info (memory : Memory ι α δ) (a : α) : Option (δ×Ref ι α) :=
  (memory.elements.lookup a).map fun element => (element.data,element.ref)

variable [DecidableEq ι]

/-- A pointer is set. -/
def Memory.write (memory : Memory ι α δ) (ref : Ref ι α) (target : Option α) :
    Option (Memory ι α δ) :=
  match ref with
  | .head list => some { memory with head := Function.update memory.head list target }
  | .next a =>
    match memory.elements.lookup a with
    | none => none
    | some element =>
      some { memory with elements := memory.elements.insert a { element with next := target } }

omit [DecidableEq ι] in
/-- The reference of an element is set. -/
def Memory.refer (memory : Memory ι α δ) (a : α) (ref : Ref ι α) : Option (Memory ι α δ) :=
  match memory.elements.lookup a with
  | none => none
  | some element =>
    some { memory with elements := memory.elements.insert a { element with ref := ref } }

omit [DecidableEq ι] in
/-- The next element, if there is any, refers back to another pointer. -/
def Memory.reattach (memory : Memory ι α δ) (next : Option α) (ref : Ref ι α) :
    Option (Memory ι α δ) :=
  match next with
  | none => some memory
  | some n => memory.refer n ref

omit [DecidableEq ι] in
/-- An element in front of a list is allocated. -/
def Memory.allocate (memory : Memory ι α δ) (list : ι) (a : α) (data : δ) : Memory ι α δ where
  head := memory.head
  elements := memory.elements.insert a ⟨memory.head list,data,.head list⟩

omit [DecidableEq ι] in
/-- An element is freed. -/
def Memory.free (memory : Memory ι α δ) (a : α) : Memory ι α δ where
  head := memory.head
  elements := memory.elements.erase a

/-- A new element becomes the head of a list. -/
def Memory.add (memory : Memory ι α δ) (list : ι) (a : α) (data : δ) : Option (Memory ι α δ) :=
  match (memory.allocate list a data).reattach (memory.head list) (.next a) with
  | none => none
  | some memory => memory.write (.head list) (some a)

/-- An element is taken out of its list and freed. -/
def Memory.remove (memory : Memory ι α δ) (a : α) : Option (Memory ι α δ) :=
  match memory.elements.lookup a with
  | none => none
  | some element =>
    match memory.write element.ref element.next with
    | none => none
    | some memory =>
      match memory.elements.lookup a with
      | none => none
      | some element => (memory.reattach element.next element.ref).map fun memory => memory.free a

variable {memory memory' : Memory ι α δ} {ref : Ref ι α} {front nodes : List (α×δ)}
variable {lists : ι→List (α×δ)}

/-- A pointer that is set points to its target, and all else is as it was. -/
theorem Memory.write_spec {old : Option α} (h : memory.read ref=some old) (target : Option α) :
    ∃ memory', memory.write ref target=some memory' ∧ memory'.read ref=some target ∧
      (∀ other, other≠ref → memory'.read other=memory.read other) ∧
      ∀ a, memory'.info a=memory.info a := by
  cases ref with
  | head list =>
    refine ⟨_,rfl,?_,?_,fun a => rfl⟩
    · simp only [read,Function.update_self]
    · intro other hother
      cases other with
      | head other =>
        simp only [read]
        rw [Function.update_of_ne fun heq => hother (congrArg Ref.head heq)]
      | next a => rfl
  | next a =>
    simp only [read] at h
    cases helement : memory.elements.lookup a with
    | none =>
      rw [helement] at h
      cases h
    | some element =>
      simp only [write,helement]
      refine ⟨_,rfl,?_,?_,?_⟩
      · simp only [read,Finmap.lookup_insert,Option.map_some]
      · intro other hother
        cases other with
        | head other => rfl
        | next b =>
          simp only [read]
          rw [Finmap.lookup_insert_of_ne _ fun heq => hother (congrArg Ref.next heq)]
      · intro b
        by_cases heq : b=a
        · subst heq
          simp only [info,Finmap.lookup_insert,helement,Option.map_some]
        · simp only [info]
          rw [Finmap.lookup_insert_of_ne _ heq]

omit [DecidableEq ι] in
/-- An element whose reference is set refers back to it, and all else is as it was. -/
theorem Memory.refer_spec {a : α} {data : δ} {old : Ref ι α} (h : memory.info a=some (data,old))
    (ref : Ref ι α) :
    ∃ memory', memory.refer a ref=some memory' ∧ memory'.info a=some (data,ref) ∧
      (∀ b, b≠a → memory'.info b=memory.info b) ∧
      ∀ other, memory'.read other=memory.read other := by
  simp only [info] at h
  cases helement : memory.elements.lookup a with
  | none =>
    rw [helement] at h
    cases h
  | some element =>
    rw [helement,Option.map_some,Option.some.injEq,Prod.mk.injEq] at h
    simp only [refer,helement]
    refine ⟨_,rfl,?_,?_,?_⟩
    · simp only [info,Finmap.lookup_insert,Option.map_some,h.1]
    · intro b hb
      simp only [info]
      rw [Finmap.lookup_insert_of_ne _ hb]
    · intro other
      cases other with
      | head other => rfl
      | next b =>
        by_cases heq : b=a
        · subst heq
          simp only [read,Finmap.lookup_insert,helement,Option.map_some]
        · simp only [read]
          rw [Finmap.lookup_insert_of_ne _ heq]

omit [DecidableEq ι] in
/-- An element that refers back to something is allocated. -/
theorem Memory.lookup_of_info {a : α} {data : δ} (h : memory.info a=some (data,ref)) :
    ∃ next, memory.elements.lookup a=some ⟨next,data,ref⟩ ∧ memory.read (.next a)=some next := by
  simp only [info,read] at *
  cases helement : memory.elements.lookup a with
  | none =>
    rw [helement] at h
    cases h
  | some element =>
    rw [helement,Option.map_some,Option.some.injEq,Prod.mk.injEq] at h
    obtain ⟨rfl,rfl⟩ := h
    exact ⟨element.next,rfl,rfl⟩

omit [DecidableEq ι] in
/-- What changing the reference of the next element does. -/
theorem Memory.reattach_spec (memory : Memory ι α δ) (next : Option α)
    (h : ∀ n, next=some n→∃ data old, memory.info n=some (data,old)) (ref : Ref ι α) :
    ∃ memory', memory.reattach next ref=some memory' ∧
      (∀ n data old, next=some n → memory.info n=some (data,old) → memory'.info n=some (data,ref)) ∧
      (∀ b, next≠some b → memory'.info b=memory.info b) ∧
      ∀ other, memory'.read other=memory.read other := by
  cases next with
  | none =>
    refine ⟨memory,rfl,?_,fun _ _ => rfl,fun _ => rfl⟩
    intro n data old hn
    cases hn
  | some n =>
    obtain ⟨data,old,hold⟩ := h n rfl
    obtain ⟨memory',hrefer,hself,hothers,hread⟩ := refer_spec hold ref
    refine ⟨memory',hrefer,?_,fun b hb => hothers b fun heq => hb (congrArg some heq.symm),hread⟩
    intro n' data' old' heq hold'
    cases heq
    cases hold.symm.trans hold'
    exact hself

omit [DecidableEq ι] in
/-- What allocating an element does. -/
theorem Memory.allocate_spec (memory : Memory ι α δ) (list : ι) (a : α) (data : δ) :
    (memory.allocate list a data).read (.next a)=some (memory.head list) ∧
      (memory.allocate list a data).info a=some (data,.head list) ∧
      (∀ ref, ref≠.next a → (memory.allocate list a data).read ref=memory.read ref) ∧
      ∀ b, b≠a→(memory.allocate list a data).info b=memory.info b := by
  refine ⟨?_,?_,?_,?_⟩
  · simp only [allocate,read,Finmap.lookup_insert,Option.map_some]
  · simp only [allocate,info,Finmap.lookup_insert,Option.map_some]
  · intro ref href
    cases ref with
    | head other => rfl
    | next b =>
      simp only [allocate,read]
      rw [Finmap.lookup_insert_of_ne _ fun heq => href (congrArg Ref.next heq)]
  · intro b hb
    simp only [allocate,info]
    rw [Finmap.lookup_insert_of_ne _ hb]

omit [DecidableEq ι] in
/-- What freeing an element leaves alone. -/
theorem Memory.free_spec (memory : Memory ι α δ) (a : α) :
    (∀ ref, ref≠.next a→(memory.free a).read ref=memory.read ref) ∧
      ∀ b, b≠a→(memory.free a).info b=memory.info b := by
  constructor
  · intro ref href
    cases ref with
    | head other => rfl
    | next b =>
      simp only [free,read]
      rw [Finmap.lookup_erase_ne fun heq => href (congrArg Ref.next heq)]
  · intro b hb
    simp only [free,info]
    rw [Finmap.lookup_erase_ne hb]

/-- What adding an element does to the pointers and references. -/
theorem Memory.add_spec {list : ι} {a : α}
    (hfirst : ∀ first, memory.head list=some first → first≠a ∧ ∃ data ref,
      memory.info first=some (data,ref)) (data : δ) :
    ∃ memory', memory.add list a data=some memory' ∧ memory'.read (.head list)=some (some a) ∧
      memory'.read (.next a)=some (memory.head list) ∧
      memory'.info a=some (data,.head list) ∧
      (∀ first d ref, memory.head list=some first → memory.info first=some (d,ref) →
        memory'.info first=some (d,.next a)) ∧
      (∀ ref, ref≠.head list → ref≠.next a → memory'.read ref=memory.read ref) ∧
      ∀ b, b≠a → memory.head list≠some b → memory'.info b=memory.info b := by
  obtain ⟨hnext,hself,hread,hinfo⟩ := memory.allocate_spec list a data
  obtain ⟨attached,hattached,hchanged,hkept,hread'⟩ :=
    reattach_spec (memory.allocate list a data) (memory.head list) (fun first hhead => by
        obtain ⟨hne,d,ref,hold⟩ := hfirst first hhead
        exact ⟨d,ref,(hinfo first hne).trans hold⟩) (.next a)
  have hne : (Ref.next a : Ref ι α)≠.head list := fun heq => nomatch heq
  have hhead : attached.read (.head list)=some (memory.head list) :=
    (hread' _).trans (hread _ hne.symm)
  obtain ⟨memory',hwrite,htarget,hothers,hinfo'⟩ := write_spec hhead (some a)
  refine ⟨memory',?_,htarget,?_,?_,?_,?_,?_⟩
  · rw [add,hattached]
    exact hwrite
  · rw [hothers _ hne,hread',hnext]
  · rw [hinfo',hkept a fun hhead => (hfirst a hhead).1 rfl,hself]
  · intro first d ref hhead hold
    rw [hinfo']
    exact hchanged first d ref hhead ((hinfo first (hfirst first hhead).1).trans hold)
  · intro ref href href'
    rw [hothers ref href,hread',hread ref href']
  · intro b hb hhead
    rw [hinfo',hkept b hhead,hinfo b hb]

/-- What taking out an element does to the pointers and references. -/
theorem Memory.remove_spec {a : α} {data : δ} {old next : Option α}
    (hinfo : memory.info a=some (data,ref)) (hread : memory.read (.next a)=some next)
    (hold : memory.read ref=some old) (href : ref≠.next a)
    (hnext : ∀ n, next=some n → n≠a ∧ ∃ d r, memory.info n=some (d,r)) :
    ∃ memory', memory.remove a=some memory' ∧ memory'.read ref=some next ∧
      (∀ other, other≠ref → other≠.next a → memory'.read other=memory.read other) ∧
      (∀ n d r, next=some n → memory.info n=some (d,r) → memory'.info n=some (d,ref)) ∧
      ∀ b, b≠a → next≠some b → memory'.info b=memory.info b := by
  obtain ⟨next',hlookup,hread'⟩ := lookup_of_info hinfo
  cases hread.symm.trans hread'
  obtain ⟨written,hwrite,htarget,hothers,hinfos⟩ := write_spec hold next
  obtain ⟨next',hlookup',hread''⟩ := lookup_of_info ((hinfos a).trans hinfo)
  rw [hothers _ href.symm,hread] at hread''
  cases hread''
  obtain ⟨attached,hattached,hchanged,hkept,hreads⟩ :=
    reattach_spec written next (fun n hn => by rw [hinfos]; exact (hnext n hn).2) ref
  obtain ⟨hfreeRead,hfreeInfo⟩ := attached.free_spec a
  refine ⟨attached.free a,?_,?_,?_,?_,?_⟩
  · simp only [remove,hlookup,hwrite,hlookup',hattached,Option.map_some]
  · rw [hfreeRead _ href,hreads,htarget]
  · intro other hother hother'
    rw [hfreeRead _ hother',hreads,hothers other hother]
  · intro n d r hn hold'
    rw [hfreeInfo n (hnext n hn).1]
    exact hchanged n d r hn ((hinfos n).trans hold')
  · intro b hb hbNext
    rw [hfreeInfo b hb,hkept b hbNext,hinfos]

omit [DecidableEq ι]

/-- The elements that follow one another from a pointer on to the end of the list, each of
them referring back to the pointer that points to it. -/
def Chain (memory : Memory ι α δ) : Ref ι α→List (α×δ)→Prop
  | ref, [] => memory.read ref=some none
  | ref, (a,data)::rest =>
    memory.read ref=some (some a) ∧ memory.info a=some (data,ref) ∧ Chain memory (.next a) rest

/-- The elements that follow one another from a pointer on, up to the last pointer. -/
def Leads (memory : Memory ι α δ) : Ref ι α→List (α×δ)→Ref ι α→Prop
  | ref, [], last => ref=last
  | ref, (a,data)::rest, last =>
    memory.read ref=some (some a) ∧ memory.info a=some (data,ref) ∧ Leads memory (.next a) rest last

/-- A chain is its front up to some pointer, and the chain from there on. -/
theorem chain_append {back : List (α×δ)} : Chain memory ref (front++back) ↔
      ∃ last, Leads memory ref front last ∧ Chain memory last back := by
  induction front generalizing ref with
  | nil =>
    constructor
    · intro h
      exact ⟨ref,rfl,h⟩
    · rintro ⟨last,rfl,h⟩
      exact h
  | cons first front ih =>
    rw [cons_append,Chain,ih]
    constructor
    · rintro ⟨hread,hinfo,last,hfront,hback⟩
      exact ⟨last,⟨hread,hinfo,hfront⟩,hback⟩
    · rintro ⟨last,⟨hread,hinfo,hfront⟩,hback⟩
      exact ⟨hread,hinfo,last,hfront,hback⟩

/-- The last pointer is the first, or that of an element. -/
theorem Leads.last_eq {last : Ref ι α} (h : Leads memory ref front last) :
    last=ref ∨ ∃ x∈front, last=.next x.1 := by
  induction front generalizing ref with
  | nil => exact Or.inl h.symm
  | cons first front ih =>
    right
    rcases ih h.2.2 with rfl | ⟨x,hx,rfl⟩
    · exact ⟨first,mem_cons_self ..,rfl⟩
    · exact ⟨x,mem_cons_of_mem _ hx,rfl⟩

/-- A front stays linked if only its last pointer changes. -/
theorem Leads.congr {last : Ref ι α} (h : Leads memory ref front last)
    (hnodup : (front.map Prod.fst).Nodup) (href : ∀ x∈front, ref≠.next x.1)
    (hread : ∀ other, other≠last→(other=ref ∨ ∃ x∈front, other=.next x.1) →
      memory'.read other=memory.read other)
    (hinfo : ∀ x∈front, memory'.info x.1=memory.info x.1) : Leads memory' ref front last := by
  induction front generalizing ref with
  | nil => exact h
  | cons first front ih =>
    obtain ⟨hfirst,hback,hrest⟩ := h
    rw [map_cons,nodup_cons] at hnodup
    have hlast : ref≠last := by
      rcases hrest.last_eq with rfl | ⟨x,hx,rfl⟩
      · exact href first (mem_cons_self ..)
      · exact href x (mem_cons_of_mem _ hx)
    refine ⟨?_,?_,ih hrest hnodup.2 ?_ ?_ ?_⟩
    · rw [hread ref hlast (Or.inl rfl),hfirst]
    · rw [hinfo first (mem_cons_self ..),hback]
    · intro x hx heq
      refine hnodup.1 ?_
      rw [Ref.next.inj heq]
      exact mem_map_of_mem hx
    · rintro other hother (rfl | ⟨x,hx,rfl⟩)
      · exact hread _ hother (Or.inr ⟨first,mem_cons_self ..,rfl⟩)
      · exact hread _ hother (Or.inr ⟨x,mem_cons_of_mem _ hx,rfl⟩)
    · exact fun x hx => hinfo x (mem_cons_of_mem _ hx)

/-- A chain only depends on its pointers and elements. -/
theorem Chain.congr (h : Chain memory ref nodes) (hread : memory'.read ref=memory.read ref)
    (hnodes : ∀ x∈nodes, memory'.read (.next x.1)=memory.read (.next x.1) ∧
      memory'.info x.1=memory.info x.1) : Chain memory' ref nodes := by
  induction nodes generalizing ref with
  | nil => exact hread.trans h
  | cons first nodes ih =>
    obtain ⟨hfirst,hback,hrest⟩ := h
    obtain ⟨hnext,hinfo⟩ := hnodes first (mem_cons_self ..)
    exact ⟨hread.trans hfirst,hinfo.trans hback,
      ih hrest hnext fun x hx => hnodes x (mem_cons_of_mem _ hx)⟩

/-- What the pointer before a chain points to. -/
theorem Chain.read_eq (h : Chain memory ref nodes) :
    memory.read ref=some (nodes.head?.map Prod.fst) := by
  cases nodes with
  | nil => exact h
  | cons first nodes => exact h.1

/-- The elements of a chain are allocated. -/
theorem Chain.allocated (h : Chain memory ref nodes) {x : α×δ} (hx : x∈nodes) :
    ∃ back, memory.info x.1=some (x.2,back) := by
  induction nodes generalizing ref with
  | nil => cases hx
  | cons first nodes ih =>
    rcases mem_cons.mp hx with rfl | hx
    · exact ⟨ref,h.2.1⟩
    · exact ih h.2.2 hx

/-- A chain behind a pointer is attached to another pointer that points to the same. -/
theorem Chain.reattach {ref' : Ref ι α} (h : Chain memory ref nodes)
    (hnodup : (nodes.map Prod.fst).Nodup) (hread : memory'.read ref' = memory.read ref)
    (hfirst : ∀ x, nodes.head? = some x → memory'.info x.1=some (x.2,ref'))
    (hnodes : ∀ x∈nodes, memory'.read (.next x.1)=memory.read (.next x.1) ∧
      (nodes.head?.map Prod.fst≠some x.1 → memory'.info x.1=memory.info x.1)) :
    Chain memory' ref' nodes := by
  cases nodes with
  | nil => exact hread.trans h
  | cons first nodes =>
    obtain ⟨htarget,-,hrest⟩ := h
    rw [map_cons,nodup_cons] at hnodup
    refine ⟨hread.trans htarget,hfirst first rfl,?_⟩
    refine hrest.congr (hnodes first (mem_cons_self ..)).1 fun x hx => ?_
    obtain ⟨hnext,hinfo⟩ := hnodes x (mem_cons_of_mem _ hx)
    refine ⟨hnext,hinfo fun heq => hnodup.1 ?_⟩
    rw [List.head?_cons,Option.map_some,Option.some.injEq] at heq
    rw [heq]
    exact mem_map_of_mem hx

/-- Every list is a chain, and no element is in two places. -/
structure Represents (memory : Memory ι α δ) (lists : ι→List (α×δ)) : Prop where
  /-- The elements of a list are linked from its head on. -/
  chain : ∀ list, Chain memory (.head list) (lists list)
  /-- No list has an element twice. -/
  nodup : ∀ list, ((lists list).map Prod.fst).Nodup
  /-- No two lists share an element. -/
  disjoint : ∀ list list', list≠list'→∀ x∈lists list, ∀ y∈lists list', x.1≠y.1

/-- The elements of a list are at most as many as are allocated. -/
theorem Represents.length_le (h : Represents memory lists) (list : ι) :
    (lists list).length ≤ memory.elements.keys.card := by
  have hsubset : ((lists list).map Prod.fst).toFinset ⊆ memory.elements.keys := by
    intro a ha
    obtain ⟨x,hx,rfl⟩ := mem_map.mp (mem_toFinset.mp ha)
    obtain ⟨back,hinfo⟩ := (h.chain list).allocated hx
    obtain ⟨next,hlookup,-⟩ := Memory.lookup_of_info hinfo
    exact Finmap.mem_keys.mpr (Finmap.mem_of_lookup_eq_some hlookup)
  have hcard := Finset.card_le_card hsubset
  rwa [toFinset_card_of_nodup (h.nodup list),length_map] at hcard

/-- No lists have elements in a memory without any. -/
theorem represents_empty : Represents (⟨fun _ => none,∅⟩ : Memory ι α δ) fun _ => [] where
  chain _ := rfl
  nodup _ := nodup_nil
  disjoint _ _ _ _ hx := nomatch hx

section Operations

variable [DecidableEq ι]

/-- One list is replaced, by elements that no other list has, and the others are chains still. -/
theorem Represents.update (h : Represents memory lists) {list : ι}
    (hchain : Chain memory' (.head list) nodes)
    (hothers : ∀ list', list' ≠ list→Chain memory' (.head list') (lists list'))
    (hnodup : (nodes.map Prod.fst).Nodup)
    (hapart : ∀ x∈nodes, ∀ list', list' ≠ list→∀ y∈lists list', x.1≠y.1) :
    Represents memory' (Function.update lists list nodes) where
  chain list' := by
    by_cases heq : list' = list
    · rw [heq,Function.update_self]
      exact hchain
    · rw [Function.update_of_ne heq]
      exact hothers list' heq
  nodup list' := by
    by_cases heq : list' = list
    · rw [heq,Function.update_self]
      exact hnodup
    · rw [Function.update_of_ne heq]
      exact h.nodup list'
  disjoint list' list'' hne x hx y hy := by
    by_cases heq : list' = list
    · rw [heq,Function.update_self] at hx
      have hother : list'' ≠ list := heq ▸ hne.symm
      rw [Function.update_of_ne hother] at hy
      exact hapart x hx list'' hother y hy
    · rw [Function.update_of_ne heq] at hx
      by_cases heq' : list'' = list
      · rw [heq',Function.update_self] at hy
        exact (hapart y hy list' heq x hx).symm
      · rw [Function.update_of_ne heq'] at hy
        exact h.disjoint list' list'' hne x hx y hy

/-- An element that is added is the first of its list. -/
theorem Represents.add (h : Represents memory lists) (list : ι) {a : α}
    (hfresh : memory.elements.lookup a=none) (data : δ) :
    ∃ memory', memory.add list a data=some memory' ∧
      Represents memory' (Function.update lists list ((a,data)::lists list)) := by
  have hnew : ∀ list', ∀ x∈lists list', x.1≠a := by
    rintro list' x hx rfl
    obtain ⟨back,hinfo⟩ := (h.chain list').allocated hx
    obtain ⟨next,hlookup,-⟩ := Memory.lookup_of_info hinfo
    cases hfresh.symm.trans hlookup
  have hhead : memory.head list=(lists list).head?.map Prod.fst :=
    Option.some.inj (h.chain list).read_eq
  have hfirst : ∀ first, memory.head list=some first → first≠a ∧ ∃ d ref,
      memory.info first=some (d,ref) := by
    intro first heq
    rw [hhead,Option.map_eq_some_iff] at heq
    obtain ⟨x,hx,rfl⟩ := heq
    have hmem := mem_of_head? hx
    obtain ⟨back,hinfo⟩ := (h.chain list).allocated hmem
    exact ⟨hnew list x hmem,x.2,back,hinfo⟩
  obtain ⟨memory',hadd,hlist,hnext,hself,hchanged,hread,hinfo⟩ := Memory.add_spec hfirst data
  refine ⟨memory',hadd,h.update ⟨hlist,hself,?_⟩ (fun list' heq => ?_) ?_ ?_⟩
  · refine (h.chain list).reattach (h.nodup list) hnext ?_ fun x hx => ⟨?_,fun hne => ?_⟩
    · intro x hx
      obtain ⟨back,hback⟩ := (h.chain list).allocated (mem_of_head? hx)
      exact hchanged x.1 x.2 back (by rw [hhead,hx,Option.map_some]) hback
    · exact hread _ (fun heq => nomatch heq) fun heq => hnew list x hx (Ref.next.inj heq)
    · exact hinfo x.1 (hnew list x hx) (by rwa [hhead])
  · refine (h.chain list').congr (hread _ ?_ fun hnext => nomatch hnext)
      fun x hx => ⟨hread _ (fun heq => nomatch heq) ?_,hinfo x.1 (hnew list' x hx) ?_⟩
    · exact fun hhead => heq (Ref.head.inj hhead)
    · exact fun hnext => hnew list' x hx (Ref.next.inj hnext)
    · intro hx'
      rw [hhead,Option.map_eq_some_iff] at hx'
      obtain ⟨y,hy,hxy⟩ := hx'
      exact h.disjoint list' list heq x hx y (mem_of_head? hy) hxy.symm
  · rw [map_cons,nodup_cons]
    refine ⟨fun hmem => ?_,h.nodup list⟩
    obtain ⟨x,hx,hxa⟩ := mem_map.mp hmem
    exact hnew list x hx hxa
  · intro x hx list' hne y hy
    rcases mem_cons.mp hx with rfl | hx
    · exact (hnew list' y hy).symm
    · exact h.disjoint list list' hne.symm x hx y hy

/-- An element that is removed leaves those before and behind it. -/
theorem Represents.remove (h : Represents memory lists) {list : ι} {back : List (α×δ)} {a : α}
    {data : δ} (hlist : lists list=front++(a,data)::back) :
    ∃ memory', memory.remove a=some memory' ∧
      Represents memory' (Function.update lists list (front++back)) := by
  have hchain := h.chain list
  have hnodup := h.nodup list
  rw [hlist] at hchain hnodup
  rw [map_append,map_cons] at hnodup
  obtain ⟨hfrontNodup,hbackNodup,hapart⟩ := nodup_append.mp hnodup
  obtain ⟨hnotBack,hbackNodup⟩ := nodup_cons.mp hbackNodup
  have hfrontNe : ∀ x∈front, x.1≠a := fun x hx heq =>
    hapart _ (mem_map_of_mem hx) _ (mem_cons_self ..) heq
  have hbackNe : ∀ x∈back, x.1≠a := by
    rintro x hx rfl
    exact hnotBack (mem_map.mpr ⟨x,hx,rfl⟩)
  have hfrontBack : ∀ x∈front, ∀ y∈back, x.1≠y.1 := fun x hx y hy =>
    hapart _ (mem_map_of_mem hx) _ (mem_cons_of_mem _ (mem_map_of_mem hy))
  obtain ⟨ref,hfront,htarget,hself,hback⟩ := chain_append.mp hchain
  have href : ref≠.next a ∧ ∀ x∈back, ref≠.next x.1 := by
    rcases hfront.last_eq with rfl | ⟨x,hx,rfl⟩
    · exact ⟨(fun heq => nomatch heq),fun x hx heq => nomatch heq⟩
    · exact ⟨fun heq => hfrontNe x hx (Ref.next.inj heq),
        fun y hy heq => hfrontBack x hx y hy (Ref.next.inj heq)⟩
  obtain ⟨memory',hremove,hnext,hread,hchanged,hinfo⟩ :=
    Memory.remove_spec hself hback.read_eq htarget href.1 (fun n hn => by
      obtain ⟨x,hx,rfl⟩ := Option.map_eq_some_iff.mp hn
      have hmem := mem_of_head? hx
      obtain ⟨r,hr⟩ := hback.allocated hmem
      exact ⟨hbackNe x hmem,x.2,r,hr⟩)
  have hnotHead : ∀ {l : List (α×δ)} {x : α×δ}, (∀ y∈l, x.1≠y.1) →
      l.head?.map Prod.fst≠some x.1 := by
    intro l x hall heq
    obtain ⟨y,hy,hyx⟩ := Option.map_eq_some_iff.mp heq
    exact hall y (mem_of_head? hy) hyx.symm
  refine ⟨memory',hremove,h.update ?_ (fun list' heq => ?_) ?_ fun x hx list' hne => ?_⟩
  · refine chain_append.mpr ⟨ref,hfront.congr hfrontNodup (fun x _ heq => nomatch heq) ?_ ?_,?_⟩
    · rintro other hother (rfl | ⟨x,hx,rfl⟩)
      · exact hread _ hother fun heq => nomatch heq
      · exact hread _ hother fun heq => hfrontNe x hx (Ref.next.inj heq)
    · exact fun x hx => hinfo x.1 (hfrontNe x hx) (hnotHead (hfrontBack x hx))
    · refine hback.reattach hbackNodup (hnext.trans hback.read_eq.symm) ?_ fun x hx => ⟨?_,?_⟩
      · intro x hx
        obtain ⟨r,hr⟩ := hback.allocated (mem_of_head? hx)
        exact hchanged x.1 x.2 r (by rw [hx,Option.map_some]) hr
      · exact hread _ (href.2 x hx).symm fun heq => hbackNe x hx (Ref.next.inj heq)
      · exact hinfo x.1 (hbackNe x hx)
  · have hothers : ∀ x∈lists list', ∀ y∈front++(a,data)::back, x.1≠y.1 := by
      rw [←hlist]
      exact h.disjoint list' list heq
    have hbackMem : ∀ y∈back, y∈front++(a,data)::back := fun y hy =>
      mem_append_right _ (mem_cons_of_mem _ hy)
    have hself' : (a,data)∈front++(a,data)::back := mem_append_right _ (mem_cons_self ..)
    refine (h.chain list').congr (hread _ ?_ fun heq => nomatch heq) fun x hx =>
      ⟨hread _ ?_ ?_,hinfo x.1 (hothers x hx _ hself') ?_⟩
    · rintro rfl
      rcases hfront.last_eq with heq' | ⟨x,hx,heq'⟩
      · exact heq (Ref.head.inj heq')
      · cases heq'
    · rintro rfl
      rcases hfront.last_eq with heq' | ⟨y,hy,heq'⟩
      · cases heq'
      · exact hothers x hx y (mem_append_left _ hy) (Ref.next.inj heq')
    · exact fun heq => hothers x hx _ hself' (Ref.next.inj heq)
    · exact hnotHead fun y hy => hothers x hx y (hbackMem y hy)
  · rw [map_append]
    refine nodup_append.mpr ⟨hfrontNodup,hbackNodup,?_⟩
    exact fun x hx y hy => hapart x hx y (mem_cons_of_mem _ hy)
  · have hmem : x∈lists list := by
      rw [hlist]
      rcases mem_append.mp hx with hx | hx
      · exact mem_append_left _ hx
      · exact mem_append_right _ (mem_cons_of_mem _ hx)
    exact h.disjoint list list' hne.symm x hmem

end Operations

/-- The first element from another on whose data satisfies a condition, as far as the list
is followed. It has no value if the list is longer, or an element is not allocated. -/
def Memory.find (memory : Memory ι α δ) (p : δ→Bool) : ℕ→Option α→Option (Option (α×δ))
  | 0, _ => none
  | _ + 1, none => some none
  | fuel+1, some a =>
    match memory.elements.lookup a with
    | none => none
    | some element =>
      if p element.data then some (some (a,element.data)) else memory.find p fuel element.next

/-- In a chain it is the first of the elements. -/
theorem Chain.find (h : Chain memory ref nodes) (p : δ→Bool) {fuel : ℕ}
    (hfuel : nodes.length<fuel) {start : Option α} (hstart : memory.read ref=some start) :
    memory.find p fuel start=some (nodes.find? fun x => p x.2) := by
  induction nodes generalizing ref start fuel with
  | nil =>
    cases hstart.symm.trans h
    cases fuel with
    | zero => exact absurd hfuel (Nat.lt_irrefl 0)
    | succ fuel => rfl
  | cons first nodes ih =>
    obtain ⟨htarget,hinfo,hrest⟩ := h
    cases hstart.symm.trans htarget
    obtain ⟨next,hlookup,hnext⟩ := Memory.lookup_of_info hinfo
    cases fuel with
    | zero => exact absurd hfuel (Nat.not_lt_zero _)
    | succ fuel =>
      rw [Memory.find,hlookup,List.find?_cons]
      by_cases hp : p first.2=true
      · simp only [hp,if_true]
      · simp only [hp]
        exact ih hrest (Nat.lt_of_succ_lt_succ hfuel) hnext

end GuacServer.BackReferences
