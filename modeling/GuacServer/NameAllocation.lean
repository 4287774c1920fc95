import Mathlib.Data.List.Nodup

/-!
# Allocators of names

An allocator hands out names and takes them back. What it promises is stated
for any state that accounts for a list of live names: they are distinct, and
stay so when another is handed out, provided there is room for it. Names may be
renamed by any function that can be undone on them.
-/

namespace GuacServer.NameAllocation

open List

variable {σ ι κ : Type*} [DecidableEq ι] [DecidableEq κ]

/-- Handing out and taking back names of type `ι` in states of type `σ`. -/
structure Allocator (σ ι : Type*) [DecidableEq ι] where
  /-- The next name and the state after it. -/
  next : σ→ι×σ
  /-- A name is given back. -/
  release : ι→σ→σ
  /-- There is room for another name. -/
  Room : σ→Prop
  /-- The state accounts for these live names. -/
  Holds : σ→List ι→Prop
  /-- No name is handed out twice. -/
  nodup {s live} : Holds s live → live.Nodup
  /-- The next name is accounted for. -/
  holds_next {s live} : Holds s live→Room s→Holds (next s).2 ((next s).1::live)
  /-- A live name can be given back. -/
  holds_release {s live i} : Holds s live → i∈live→Holds (release i s) (live.erase i)

/-- Renaming that can be undone commutes with removing a name. -/
theorem map_erase_of_undone {name : ι→κ} {back : κ→ι} {live : List ι}
    (hback : ∀ i∈live, back (name i)=i) {i : ι} (hi : back (name i)=i) :
    (live.erase i).map name=(live.map name).erase (name i) := by
  induction live with
  | nil => rfl
  | cons j live ih =>
    obtain ⟨hj,hlive⟩ := forall_mem_cons.mp hback
    by_cases heq : j=i
    · rw [heq,erase_cons_head,map_cons,erase_cons_head]
    · have hne : name j≠name i := fun hname => heq (by rw [←hj,hname,hi])
      rw [erase_cons_tail (by simpa using heq),map_cons,map_cons,
        erase_cons_tail (by simpa using hne),ih hlive]

/-- The names under other names; `back` must undo `name` on live names. -/
def Allocator.rename (A : Allocator σ ι) (name : ι→κ) (back : κ→ι)
    (hback : ∀ {s live}, A.Holds s live→∀ i∈live, back (name i)=i) : Allocator σ κ where
  next s := (name (A.next s).1,(A.next s).2)
  release k := A.release (back k)
  Room := A.Room
  Holds s live := ∃ live', A.Holds s live' ∧ live=live'.map name
  nodup := by
    rintro s _ ⟨live,h,rfl⟩
    exact (A.nodup h).map_on fun i hi j hj hij => by rw [← hback h i hi,hij,hback h j hj]
  holds_next := by
    rintro s _ ⟨live,h,rfl⟩ hroom
    exact ⟨_,A.holds_next h hroom,rfl⟩
  holds_release := by
    rintro s _ k ⟨live,h,rfl⟩ hk
    obtain ⟨i,hi,rfl⟩ := mem_map.mp hk
    rw [hback h i hi]
    exact ⟨live.erase i,A.holds_release h hi,(map_erase_of_undone (hback h) (hback h i hi)).symm⟩

end GuacServer.NameAllocation
