import Mathlib.Data.Int.Notation
import Mathlib.Data.List.Basic

/-!
# Memory made of cells

Cells are stored in memory at an offset, unless some of them would be outside of it. Rows are
stored at equal distances.
-/

namespace GuacServer.CellMemory

open List

variable {α : Type*}

/-- Cells are stored in memory, unless some would be outside of it. -/
def store (offset : ℤ) (cells memory : List α) : Option (List α) :=
  if 0≤offset ∧ offset+cells.length ≤ memory.length then
    some (memory.take offset.toNat++cells++memory.drop (offset.toNat+cells.length))
  else none

/-- Rows are stored one after the other, each of them a stride behind the last one. -/
def storeRows (stride : ℕ) : ℕ→List (List α)→List α→Option (List α)
  | _, [], memory => some memory
  | offset, row::rows, memory => do
    let memory ← store offset row memory
    storeRows stride (offset+stride) rows memory

variable {offset : ℤ} {cells memory stored : List α}

theorem store_eq_some_iff :
    store offset cells memory=some stored ↔
      (0≤offset ∧ offset+cells.length ≤ memory.length) ∧
        stored=memory.take offset.toNat++cells++memory.drop (offset.toNat+cells.length) := by
  unfold store
  rw [Option.ite_none_right_eq_some,Option.some.injEq,eq_comm (b := stored)]

/-- What is stored right behind a start of the memory follows it, if there is room. -/
theorem store_behind {start : List α} (hstart : start <+: memory)
    (hroom : start.length+cells.length ≤ memory.length) :
    ∃ stored, store start.length cells memory=some stored ∧ start++cells <+: stored ∧
      stored.length=memory.length := by
  refine ⟨_,store_eq_some_iff.mpr ⟨⟨by omega,by omega⟩,rfl⟩,?_,?_⟩
  · rw [Int.toNat_natCast,←prefix_iff_eq_take.mp hstart]
    exact prefix_append ..
  · simp only [Int.toNat_natCast,length_append,length_take,length_drop]
    omega

/-- Where there is room, exactly the cells at the offset change. -/
theorem store_of_room {offset : ℕ} (h : offset+cells.length ≤ memory.length) :
    ∃ stored, store offset cells memory=some stored ∧ stored.length=memory.length ∧ ∀ i, stored[i]?=
        if offset ≤ i ∧ i<offset+cells.length then cells[i-offset]? else memory[i]? := by
  refine ⟨_,store_eq_some_iff.mpr ⟨⟨by omega,by omega⟩,rfl⟩,?_,fun i => ?_⟩
  · simp only [Int.toNat_natCast,length_append,length_take,length_drop]
    omega
  · have hstart : (memory.take offset).length=offset := length_take_of_le (by omega)
    rw [Int.toNat_natCast,append_assoc]
    split_ifs with hin
    · rw [List.getElem?_append_right (by omega),hstart,List.getElem?_append_left (by omega)]
    · rcases Nat.lt_or_ge i offset with hbefore | hbehind
      · rw [List.getElem?_append_left (by omega),List.getElem?_take_of_lt hbefore]
      · rw [List.getElem?_append_right (by omega),List.getElem?_append_right (by omega),
          List.getElem?_drop,hstart]
        congr 1
        omega

theorem store_of_no_room {offset : ℕ} (h : ¬offset+cells.length ≤ memory.length) :
    store offset cells memory=none := if_neg fun hroom => h (by omega)

/-- Cells that are stored right behind others are stored with them. -/
theorem store_append (offset : ℕ) (before behind memory : List α) :
    ((store offset before memory).bind fun memory =>
        store (offset+before.length : ℕ) behind memory)=
      store offset (before++behind) memory := by
  have hlength : (before++behind).length=before.length+behind.length := length_append
  by_cases hbefore : offset+before.length ≤ memory.length
  · obtain ⟨first,hfirst,hsize,hcell⟩ := store_of_room hbefore
    rw [hfirst,Option.bind_some]
    by_cases hroom : offset+(before++behind).length ≤ memory.length
    · obtain ⟨second,hsecond,-,hcell'⟩ :=
        store_of_room (by omega : offset+before.length+behind.length≤first.length)
      obtain ⟨whole,hwhole,-,hcell''⟩ := store_of_room hroom
      rw [hsecond,hwhole,Option.some.injEq]
      refine ext_getElem? fun i => ?_
      rw [hcell',hcell,hcell'',hlength]
      rcases Nat.lt_or_ge i (offset+before.length) with hstart | hend
      · rw [if_neg (by omega)]
        split_ifs with hin hall hall
        · rw [List.getElem?_append_left (by omega)]
        · omega
        · omega
        · rfl
      · rw [if_neg (by omega : ¬(offset ≤ i ∧ i<offset+before.length))]
        split_ifs with hin hall hall
        · rw [List.getElem?_append_right (by omega)]
          congr 1
          omega
        · omega
        · omega
        · rfl
    · rw [store_of_no_room hroom,store_of_no_room (by omega)]
  · rw [store_of_no_room hbefore,store_of_no_room (by omega)]
    rfl

theorem storeRows_cons (stride offset : ℕ) (row : List α) (rows : List (List α)) (memory : List α) :
    storeRows stride offset (row::rows) memory=
      (store offset row memory).bind (storeRows stride (offset+stride) rows) := rfl

/-- Rows that are stored behind others are stored with them. -/
theorem storeRows_append {stride offset : ℕ} {rows behind : List (List α)} :
    storeRows stride offset (rows++behind) memory=
      (storeRows stride offset rows memory).bind fun memory =>
        storeRows stride (offset+rows.length*stride) behind memory := by
  induction rows generalizing offset memory with
  | nil =>
    rw [nil_append,length_nil,Nat.zero_mul]
    rfl
  | cons row rows ih =>
    have hnext : offset+(row::rows).length*stride=offset+stride+rows.length*stride := by
      rw [length_cons,Nat.succ_mul]
      omega
    rw [cons_append,storeRows_cons,storeRows_cons,Option.bind_assoc,hnext]
    exact congrArg _ (funext fun memory => ih)

/-- Rows that are no longer than the stride are all there in the end, if there is room. -/
theorem storeRows_of_room {stride offset : ℕ} {rows : List (List α)}
    (hrows : ∀ row∈rows, row.length ≤ stride)
    (hroom : offset+rows.length*stride ≤ memory.length) :
    ∃ stored, storeRows stride offset rows memory=some stored ∧
      stored.length=memory.length ∧ (∀ i<offset, stored[i]? = memory[i]?) ∧
      ∀ (y : ℕ) (row : List α), rows[y]? = some row→∀ x<row.length,
        stored[offset+y*stride+x]? = row[x]? := by
  induction rows generalizing offset memory with
  | nil => exact ⟨memory,rfl,rfl,fun _ _ => rfl,fun y row hrow => by simp at hrow⟩
  | cons row rows ih =>
    obtain ⟨hrow,hrest⟩ := forall_mem_cons.mp hrows
    rw [length_cons,Nat.succ_mul] at hroom
    obtain ⟨first,hfirst,hsize,hcell⟩ :=
      store_of_room (by omega : offset+row.length ≤ memory.length)
    obtain ⟨stored,hstored,hsize',hbefore,hbehind⟩ :=
      @ih first (offset+stride) hrest (by omega)
    refine ⟨stored,?_,hsize'.trans hsize,fun i hi => ?_,fun y other hother x hx => ?_⟩
    · rw [storeRows_cons,hfirst,Option.bind_some,hstored]
    · rw [hbefore i (by omega),hcell,if_neg (by omega)]
    · cases y with
      | zero =>
        obtain rfl : row=other := by simpa using hother
        rw [hbefore _ (by omega),hcell,if_pos (by omega)]
        congr 1
        omega
      | succ y =>
        rw [List.getElem?_cons_succ] at hother
        rw [←hbehind y other hother x hx,Nat.succ_mul]
        congr 1
        omega

end GuacServer.CellMemory
