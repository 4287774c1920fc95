import GuacServer.DecimalNumerals
import GuacServer.NameAllocation

/-!
# The pool of integers

pool.c hands out integers, new ones first and then those given back, oldest
first. The linked list from `__head` to `__tail` is a list, so that both are
null exactly when it is empty. The values of a pool and the values it has
handed out stay distinct as long as only those are given back.
-/

namespace GuacServer.Pool

open DecimalNumerals NameAllocation
open scoped List

/-- guac_pool, without its lock. -/
structure GuacPool where
  /-- The number of integers handed out before any is reused. -/
  minSize : ℤ
  /-- The number of integers handed out and not given back. -/
  active : ℤ
  /-- The next integer not handed out before. -/
  nextValue : ℤ
  /-- The integers given back, from head to tail. -/
  ints : List ℤ
  deriving DecidableEq

/-- guac_pool_alloc. -/
def guacPoolAlloc (size : ℤ) : GuacPool := ⟨size,0,0,[]⟩

/-- guac_pool_next_int. -/
def guacPoolNextInt (pool : GuacPool) : ℤ×GuacPool :=
  let pool := { pool with active := wrap32 (pool.active+1) }
  match pool.ints with
  | [] => (pool.nextValue,{ pool with nextValue := wrap32 (pool.nextValue+1) })
  | value::ints =>
    if pool.nextValue<pool.minSize then
      (pool.nextValue,{ pool with nextValue := wrap32 (pool.nextValue+1) })
    else (value,{ pool with ints := ints })

/-- guac_pool_free_int. -/
def guacPoolFreeInt (value : ℤ) (pool : GuacPool) : GuacPool :=
  { pool with
    active := wrap32 (pool.active-1)
    ints := pool.ints++[value] }

/-- The next integer is one that was given back. -/
def GuacPool.Recycles (pool : GuacPool) : Prop := pool.ints≠[] ∧ ¬pool.nextValue<pool.minSize

instance (pool : GuacPool) : Decidable pool.Recycles :=
  inferInstanceAs (Decidable (pool.ints≠[] ∧ ¬pool.nextValue<pool.minSize))

/-- Another new integer can be counted. -/
def GuacPool.CanCount (pool : GuacPool) : Prop := pool.nextValue<2^31-1

instance (pool : GuacPool) : Decidable pool.CanCount :=
  inferInstanceAs (Decidable (pool.nextValue<2^31-1))

variable {pool : GuacPool}

/-- A pool that does not recycle counts on. -/
theorem guacPoolNextInt_fresh (h : ¬pool.Recycles) :
    guacPoolNextInt pool=(pool.nextValue,{ pool with
      active := wrap32 (pool.active+1)
      nextValue := wrap32 (pool.nextValue+1) }) := by
  unfold GuacPool.Recycles at h
  unfold guacPoolNextInt
  cases hints : pool.ints with
  | nil => simp
  | cons value ints =>
    rw [hints] at h
    have hlt : pool.nextValue<pool.minSize := by
      by_contra hnot
      exact h ⟨List.cons_ne_nil _ _,hnot⟩
    simp [hlt]

/-- A pool that recycles hands out its oldest integer. -/
theorem guacPoolNextInt_recycled (h : pool.Recycles) :
    ∃ value ints, pool.ints=value::ints ∧
      guacPoolNextInt pool=(value,{ pool with
        active := wrap32 (pool.active+1)
        ints := ints }) := by
  obtain ⟨hne,hge⟩ := h
  obtain ⟨value,ints,hints⟩ := List.exists_cons_of_ne_nil hne
  refine ⟨value,ints,hints,?_⟩
  unfold guacPoolNextInt
  simp [hints,hge]

/-- The minimum size stays. -/
@[simp]
theorem guacPoolNextInt_minSize (pool : GuacPool) :
    (guacPoolNextInt pool).2.minSize=pool.minSize := by
  by_cases h : pool.Recycles
  · obtain ⟨_,_,_,hnext⟩ := guacPoolNextInt_recycled h
    rw [hnext]
  · rw [guacPoolNextInt_fresh h]

/-- The integers of the pool and those handed out are distinct and have all
been counted. -/
structure GuacPool.Accounts (pool : GuacPool) (live : List ℤ) : Prop where
  /-- The counter is not negative. -/
  nonneg : 0≤pool.nextValue
  /-- The counter is an int. -/
  counter : pool.nextValue<2^31
  /-- Nothing is both handed out and given back, or either twice. -/
  nodup : (live++pool.ints).Nodup
  /-- Everything was counted. -/
  counted : ∀ value∈live++pool.ints, 0≤value ∧ value<pool.nextValue

/-- A new pool accounts for nothing. -/
theorem guacPoolAlloc_accounts (size : ℤ) : (guacPoolAlloc size).Accounts [] :=
  ⟨Int.le_refl 0,by simp [guacPoolAlloc],List.nodup_nil,by simp [guacPoolAlloc]⟩

/-- What guac_pool_next_int returns is accounted for. -/
theorem GuacPool.Accounts.next {live : List ℤ} (h : pool.Accounts live)
    (hroom : pool.Recycles ∨ pool.CanCount) :
    (guacPoolNextInt pool).2.Accounts ((guacPoolNextInt pool).1::live) := by
  obtain ⟨hnonneg,hcounter,hnodup,hcounted⟩ := h
  by_cases hrecycles : pool.Recycles
  · obtain ⟨value,ints,hints,hnext⟩ := guacPoolNextInt_recycled hrecycles
    have hperm : (live++pool.ints).Perm (value::live++ints) := by
      rw [hints]
      exact List.perm_middle
    rw [hnext]
    exact ⟨hnonneg,hcounter,hperm.nodup_iff.mp hnodup,fun v hv => hcounted v (hperm.mem_iff.mpr hv)⟩
  · have hlt : pool.nextValue<2^31-1 := hroom.resolve_left hrecycles
    have hwrap : wrap32 (pool.nextValue+1)=pool.nextValue+1 := wrap32_of_range (by omega) (by omega)
    rw [guacPoolNextInt_fresh hrecycles,hwrap]
    refine ⟨by dsimp only; omega,by dsimp only; omega,?_,?_⟩
    · refine List.nodup_cons.mpr ⟨fun hmem => ?_,hnodup⟩
      have hself := hcounted _ hmem
      omega
    · intro v hv
      dsimp only
      rcases List.mem_cons.mp hv with rfl | hv
      · omega
      · have hbounds := hcounted v hv
        omega

/-- A live integer can be given back. -/
theorem GuacPool.Accounts.free {live : List ℤ} (h : pool.Accounts live)
    {value : ℤ} (hvalue : value∈live) :
    (guacPoolFreeInt value pool).Accounts (live.erase value) := by
  obtain ⟨hnonneg,hcounter,hnodup,hcounted⟩ := h
  have hperm : (live++pool.ints).Perm (live.erase value++(pool.ints++[value])) := by
    calc live++pool.ints
        ~ value::live.erase value++pool.ints := (List.perm_cons_erase hvalue).append_right _
      _ ~ live.erase value++value::pool.ints := List.perm_middle.symm
      _ ~ live.erase value++(pool.ints++[value]) :=
          (List.perm_append_singleton value pool.ints).symm.append_left _
  exact ⟨hnonneg,hcounter,hperm.nodup_iff.mp hnodup,fun v hv => hcounted v (hperm.mem_iff.mpr hv)⟩

/-- The pool as an allocator of its integers. -/
def poolAllocator : Allocator GuacPool ℤ where
  next := guacPoolNextInt
  release := guacPoolFreeInt
  Room pool := pool.Recycles ∨ pool.CanCount
  Holds pool live := pool.Accounts live
  nodup h := (List.nodup_append.mp h.nodup).1
  holds_next := GuacPool.Accounts.next
  holds_release := fun h hi => h.free hi

end GuacServer.Pool
