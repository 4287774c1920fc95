import Mathlib.Data.Int.Interval
import GuacServer.Pool
import GuacServer.StateRuns

/-!
# Histories of a pool of integers

What a pool promises over any sequence of integers handed out and given back:
those in use are distinct, few integers are used, and those given back wait in
a queue until enough others have been handed out. The promise holds until the
number of integers in use is no longer an int.
-/

namespace GuacServer.PoolRuns

open DecimalNumerals List Pool StateRuns

/-- A pool with its history. -/
structure PoolHistory where
  pool : GuacPool
  /-- The values handed out and not given back. -/
  live : List ℤ
  /-- The largest number of live values so far. -/
  peak : ℕ
  /-- All values handed out, the last one first. -/
  returned : List ℤ
  /-- All values given back, in that order. -/
  freed : List ℤ
  /-- All values handed out after they were given back, in that order. -/
  reissued : List ℤ

/-- A pool that has just been allocated. -/
def freshPool (minSize : ℤ) : PoolHistory := ⟨guacPoolAlloc minSize,[],0,[],[],[]⟩

/-- The history after the next value is taken. -/
def PoolHistory.next (history : PoolHistory) : PoolHistory :=
  let next := guacPoolNextInt history.pool
  { history with
    pool := next.2
    live := next.1::history.live
    peak := max history.peak (history.live.length+1)
    returned := next.1::history.returned
    reissued := if next.1∈history.freed then history.reissued++[next.1]
      else history.reissued }

/-- Calls on a pool. -/
inductive PoolCall
  /-- A value is taken. -/
  | next
  /-- A value is given back. -/
  | free (value : ℤ)
  deriving DecidableEq

/-- The effect of a call. Only a live value is given back. -/
def poolStep : PoolCall→PoolHistory→Option PoolHistory
  | .next, history => some history.next
  | .free value, history =>
    if value∈history.live then
      some { history with
        pool := guacPoolFreeInt value history.pool
        live := history.live.erase value
        freed := history.freed++[value] }
    else none

/-- What a pool promises. -/
structure PoolLaw (history : PoolHistory) : Prop where
  nodup : history.live.Nodup
  nonneg : ∀ value∈history.live, 0≤value
  active : history.pool.active=history.live.length
  /-- No more values are used than the minimum or than were ever live at once. -/
  bound : ∀ value∈history.returned, value < max history.pool.minSize history.peak
  /-- No value is used again before the minimum of values was handed out. -/
  patient : ∀ later value earlier, history.returned=later++value::earlier →
    value∈earlier → history.pool.minSize≤earlier.toFinset.card
  /-- Values are reissued in the order in which they were given back. -/
  order : history.reissued <+: history.freed

/-- The pool has counted the values it handed out, and queues those given
back. -/
structure PoolCounted (history : PoolHistory) : Prop where
  /-- The pool accounts for the live values. -/
  accounts : history.pool.Accounts history.live
  minSize : history.pool.minSize<2^31
  active : history.pool.active=history.live.length
  /-- The live values were counted when there were most of them. -/
  peak : history.live.length≤history.peak
  /-- Every counted value is live or was given back. -/
  counted : ((history.live.length+history.pool.ints.length : ℕ) : ℤ)=history.pool.nextValue
  /-- Only so many values were counted. -/
  bound : history.pool.nextValue ≤ max history.pool.minSize history.peak
  /-- The values handed out are those counted. -/
  returned : ∀ value, value∈history.returned ↔ 0≤value ∧ value<history.pool.nextValue
  /-- Only such values are given back. -/
  freed : ∀ value∈history.freed, value<history.pool.nextValue
  /-- No value was used again too early. -/
  patient : ∀ later value earlier, history.returned=later++value::earlier →
    value∈earlier → history.pool.minSize≤earlier.toFinset.card
  /-- Values given back are reissued or wait in the queue. -/
  queue : history.reissued++history.pool.ints=history.freed

/-- The promise of a pool that has counted its values. -/
theorem PoolCounted.law {history : PoolHistory} (h : PoolCounted history) : PoolLaw history where
  nodup := (nodup_append.mp h.accounts.nodup).1
  nonneg value hvalue := (h.accounts.counted value (mem_append_left _ hvalue)).1
  active := h.active
  bound value hvalue := lt_of_lt_of_le ((h.returned value).mp hvalue).2 h.bound
  patient := h.patient
  order := ⟨_,h.queue⟩

/-- A fresh pool has counted nothing. -/
theorem freshPool_counted {minSize : ℤ} (h : minSize<2^31) : PoolCounted (freshPool minSize) where
  accounts := guacPoolAlloc_accounts minSize
  minSize := h
  active := rfl
  peak := Nat.le_refl 0
  counted := rfl
  bound := le_max_right _ _
  returned value := by
    constructor
    · intro hvalue
      cases hvalue
    · intro hvalue
      have hnone : value<0 := hvalue.2
      omega
  freed value hvalue := by cases hvalue
  patient later value earlier hsplit := by cases later <;> cases hsplit
  queue := rfl

/-- As many values were handed out as the pool has counted. -/
theorem PoolCounted.card_returned {history : PoolHistory} (h : PoolCounted history) :
    (history.returned.toFinset.card : ℤ)=history.pool.nextValue := by
  have hset : history.returned.toFinset=Finset.Ico 0 history.pool.nextValue := by
    ext value
    rw [mem_toFinset,Finset.mem_Ico]
    exact h.returned value
  have hnonneg := h.accounts.nonneg
  rw [hset,Int.card_Ico]
  omega

/-- A list of values handed out before is extended by one: an early reuse would
be one of that value. -/
theorem patient_cons {minSize : ℤ} {returned : List ℤ} {next : ℤ}
    (h : ∀ later value earlier, returned=later++value::earlier → value∈earlier →
      minSize≤earlier.toFinset.card)
    (hnext : next∈returned → minSize≤returned.toFinset.card) :
    ∀ later value earlier, next::returned=later++value::earlier → value∈earlier →
      minSize≤earlier.toFinset.card := by
  intro later value earlier hsplit hvalue
  cases later with
  | nil =>
    cases hsplit
    exact hnext hvalue
  | cons first later =>
    obtain ⟨-,hrest⟩ := List.cons.inj hsplit
    exact h later value earlier hrest hvalue

section

variable {history : PoolHistory} (h : PoolCounted history)

include h

/-- A new value is the next one, and it can be counted as long as the live
values can. -/
theorem PoolCounted.canCount (hfresh : ¬history.pool.Recycles)
    (hlive : history.live.length+1<2^31) :
    history.pool.CanCount ∧
      history.pool.nextValue+1 ≤ max history.pool.minSize (history.live.length+1 : ℕ) := by
  have hcounted := h.counted
  have hminSize := h.minSize
  unfold GuacPool.CanCount
  unfold GuacPool.Recycles at hfresh
  by_cases hints : history.pool.ints=[]
  · rw [hints,length_nil,Nat.add_zero] at hcounted
    exact ⟨by omega,le_max_of_le_right (by omega)⟩
  · have hlt : history.pool.nextValue<history.pool.minSize := by
      by_contra hge
      exact hfresh ⟨hints,hge⟩
    exact ⟨by omega,le_max_of_le_left (by omega)⟩

/-- A value that was never handed out keeps the count. -/
theorem PoolCounted.next_fresh (hfresh : ¬history.pool.Recycles)
    (hlive : history.live.length+1<2^31) : PoolCounted history.next := by
  obtain ⟨hcount,hbound⟩ := h.canCount hfresh hlive
  have haccounts := h.accounts.next (Or.inr hcount)
  have hnonneg := h.accounts.nonneg
  unfold GuacPool.CanCount at hcount
  have hwrap : wrap32 (history.pool.nextValue+1)=history.pool.nextValue+1 :=
    wrap32_of_range (by omega) (by omega)
  have hactive : wrap32 (history.pool.active+1)=history.live.length+1 := by
    rw [h.active]
    exact wrap32_of_range (by omega) (by omega)
  have hnotFreed : history.pool.nextValue ∉ history.freed := fun hfreed =>
    absurd (h.freed _ hfreed) (lt_irrefl _)
  unfold PoolHistory.next
  rw [guacPoolNextInt_fresh hfresh,hwrap,hactive] at haccounts ⊢
  have hpeak := h.peak
  have hcounted := h.counted
  constructor
  · exact haccounts
  · exact h.minSize
  · dsimp only
    rw [length_cons]
    push_cast
    rfl
  · exact le_max_right _ _
  · dsimp only
    rw [length_cons]
    omega
  · exact hbound.trans (max_le_max_left _ (by exact_mod_cast le_max_right _ _))
  · intro value
    rw [mem_cons,h.returned]
    dsimp only
    omega
  · intro value hvalue
    have hlt := h.freed value hvalue
    dsimp only
    omega
  · refine patient_cons h.patient fun hmem => ?_
    have hlt := ((h.returned _).mp hmem).2
    omega
  · dsimp only
    rw [if_neg hnotFreed]
    exact h.queue

/-- The oldest value given back keeps the count. -/
theorem PoolCounted.next_recycled (hrecycles : history.pool.Recycles)
    (hlive : history.live.length+1<2^31) : PoolCounted history.next := by
  have haccounts := h.accounts.next (Or.inl hrecycles)
  obtain ⟨value,ints,hints,hnext⟩ := guacPoolNextInt_recycled hrecycles
  have hactive : wrap32 (history.pool.active+1)=history.live.length+1 := by
    rw [h.active]
    exact wrap32_of_range (by omega) (by omega)
  have hqueue := h.queue
  have hfreed : value∈history.freed := by
    rw [←hqueue,hints]
    exact mem_append_right _ (mem_cons_self ..)
  have hvalue := h.accounts.counted value
    (mem_append_right _ (by rw [hints]; exact mem_cons_self ..))
  have hcounted := h.counted
  rw [hints,length_cons] at hcounted
  unfold PoolHistory.next
  rw [hnext,hactive] at haccounts ⊢
  constructor
  · exact haccounts
  · exact h.minSize
  · dsimp only
    rw [length_cons]
    push_cast
    rfl
  · exact le_max_right _ _
  · dsimp only
    rw [length_cons,←hcounted]
    omega
  · exact h.bound.trans (max_le_max_left _ (by exact_mod_cast le_max_left _ _))
  · intro other
    rw [mem_cons,h.returned]
    dsimp only
    constructor
    · rintro (rfl | hother)
      · exact hvalue
      · exact hother
    · exact Or.inr
  · exact h.freed
  · refine patient_cons h.patient fun _ => ?_
    rw [h.card_returned]
    exact not_lt.mp hrecycles.2
  · dsimp only
    rw [if_pos hfreed,append_assoc,singleton_append,←hints]
    exact hqueue

/-- A value given back keeps the count. -/
theorem PoolCounted.free {value : ℤ} (hvalue : value∈history.live)
    (hlive : history.live.length<2^31) :
    PoolCounted { history with
      pool := guacPoolFreeInt value history.pool
      live := history.live.erase value
      freed := history.freed++[value] } := by
  have hpos := length_pos_of_mem hvalue
  have hlength := length_erase_of_mem hvalue
  have hcounted := h.counted
  constructor
  · exact h.accounts.free hvalue
  · exact h.minSize
  · dsimp only [guacPoolFreeInt]
    rw [h.active,hlength,wrap32_of_range] <;> omega
  · have hpeak := h.peak
    dsimp only
    omega
  · dsimp only [guacPoolFreeInt]
    rw [hlength,length_append,length_singleton]
    omega
  · exact h.bound
  · exact h.returned
  · intro other hother
    rcases mem_append.mp hother with hother | hother
    · exact h.freed other hother
    · rw [mem_singleton.mp hother]
      exact (h.accounts.counted value (mem_append_left _ hvalue)).2
  · exact h.patient
  · dsimp only [guacPoolFreeInt]
    rw [←append_assoc,h.queue]

end

/-- Every call keeps the count as long as the number of live values is an
int. -/
theorem poolStep_counted {call : PoolCall} {history history' : PoolHistory}
    (h : PoolCounted history ∧ history.live.length<2^31)
    (hstep : poolStep call history=some history') (hlive : history'.live.length<2^31) :
    PoolCounted history' ∧ history'.live.length<2^31 := by
  refine ⟨?_,hlive⟩
  cases call with
  | next =>
    cases hstep
    by_cases hrecycles : history.pool.Recycles
    · exact h.1.next_recycled hrecycles hlive
    · exact h.1.next_fresh hrecycles hlive
  | free value =>
    rw [poolStep] at hstep
    split at hstep
    · next hmem =>
      cases hstep
      exact h.1.free hmem h.2
    · cases hstep

/-- The counter of live values is an int. -/
theorem poolStep_active {call : PoolCall} {history history' : PoolHistory}
    (hstep : poolStep call history=some history') : history'.pool.active<2^31 := by
  cases call with
  | next =>
    cases hstep
    unfold PoolHistory.next guacPoolNextInt
    dsimp only
    split
    · exact wrap32_lt _
    · split <;> exact wrap32_lt _
  | free value =>
    rw [poolStep] at hstep
    split at hstep
    · cases hstep
      exact wrap32_lt _
    · cases hstep

/-- A pool keeps its promise in every state of a run exactly when in every one
the number of live values is an int. -/
theorem guacPool_law_iff {minSize : ℤ} (hminSize : minSize<2^31) (calls : List PoolCall) :
    (∀ made, made <+: calls→∀ history, run poolStep made (freshPool minSize)=some history →
      PoolLaw history) ↔
    ∀ made, made <+: calls→∀ history, run poolStep made (freshPool minSize)=some history →
      history.live.length<2^31 := by
  constructor
  · intro hlaw made hinit history hrun
    have hactive : history.pool.active<2^31 := by
      refine run_visiting (fun _ hstep _ => poolStep_active hstep) ?_ (fun _ _ _ _ => trivial) hrun
      exact (by decide : (0 : ℤ)<2^31)
    rw [(hlaw made hinit history hrun).active] at hactive
    exact_mod_cast hactive
  · intro hlive made hinit history hrun
    exact (run_visiting poolStep_counted ⟨freshPool_counted hminSize,Nat.two_pow_pos 31⟩
      (fun before hbefore => hlive before (hbefore.trans hinit)) hrun).1.law

/-- A call makes at most one more value live. -/
theorem run_live_le {calls : List PoolCall} {history history' : PoolHistory}
    (hrun : run poolStep calls history=some history') :
    history'.live.length≤history.live.length+calls.length := by
  induction calls generalizing history with
  | nil =>
    cases hrun
    exact Nat.le_refl _
  | cons call calls ih =>
    rw [run] at hrun
    cases call with
    | next =>
      have hle := ih hrun
      rw [PoolHistory.next,length_cons] at hle
      rw [length_cons]
      omega
    | free value =>
      rw [poolStep] at hrun
      split at hrun
      · cases hrun
      · next next hnext =>
        split at hnext
        · next hmem =>
          cases hnext
          have hle := ih hrun
          have herase := length_erase_le (a := value) (l := history.live)
          dsimp only at hle
          rw [length_cons]
          omega
        · cases hnext

/-- Three values of which one is given back and reissued. -/
theorem guacPool_law_three :
    ∃ history, run poolStep [.next,.next,.free 0,.next] (freshPool 2)=some history ∧
      history.live=[0,1] ∧ PoolLaw history := by
  refine ⟨_,rfl,by decide,(guacPool_law_iff (by decide) [.next,.next,.free 0,.next]).mpr
    (fun made hinit history hrun => ?_) _ (prefix_refl _) _ rfl⟩
  have hle := run_live_le hrun
  have hlength : made.length≤4 := hinit.length_le
  have hnone : (freshPool 2).live.length=0 := rfl
  omega

/-- Values can be taken any number of times. -/
theorem run_next (n : ℕ) (history : PoolHistory) :
    ∃ history', run poolStep (List.replicate n .next) history=some history' ∧
      history'.live.length=history.live.length+n := by
  induction n generalizing history with
  | zero => exact ⟨history,rfl,rfl⟩
  | succ n ih =>
    obtain ⟨history',hrun,hlive⟩ := ih history.next
    refine ⟨history',hrun,?_⟩
    rw [hlive,PoolHistory.next,length_cons,Nat.add_right_comm,Nat.add_assoc]

/-- The counter of live values overflows when so many are taken and none is
given back. -/
theorem guacPool_law_overflow :
    ∃ history, run poolStep (List.replicate (2^31) .next) (freshPool 0)=some history ∧
      ¬PoolLaw history := by
  obtain ⟨history,hrun,hlive⟩ := run_next (2^31) (freshPool 0)
  refine ⟨history,hrun,fun hlaw => ?_⟩
  have hactive : history.pool.active<2^31 :=
    run_visiting (fun _ hstep _ => poolStep_active hstep) (by decide : (0 : ℤ)<2^31)
      (fun _ _ _ _ => trivial) hrun
  have hnone : (freshPool 0).live.length=0 := rfl
  rw [hlaw.active,hlive,hnone] at hactive
  omega

end GuacServer.PoolRuns
