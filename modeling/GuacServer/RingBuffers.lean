import Mathlib.Data.List.Rotate
import Mathlib.Data.Nat.ModEq

/-!
# Ring buffers

A number of slots are used one after the other, and after the last the first.
What they hold, the oldest first, are the first so many of the slots rotated to
the oldest. A value is added in the first slot that is not in use, and removed
by starting one slot later.
-/

namespace GuacServer.RingBuffers

variable {α : Type*}

/-- What the slots in use hold, the oldest first. -/
def contents (slots : List α) (top waiting : ℕ) : List α := (slots.rotate top).take waiting

/-- As many values as slots are in use. -/
theorem length_contents {slots : List α} {waiting : ℕ} (h : waiting ≤ slots.length) (top : ℕ) :
    (contents slots top waiting).length=waiting := by
  rw [contents,List.length_take,List.length_rotate,Nat.min_eq_left h]

/-- The value so many places behind the oldest. -/
theorem getElem?_contents {slots : List α} {top waiting k : ℕ} (hk : k<waiting)
    (h : waiting ≤ slots.length) :
    (contents slots top waiting)[k]? = slots[(top+k)%slots.length]? := by
  rw [contents,List.getElem?_take_of_lt hk,List.getElem?_rotate (by omega),Nat.add_comm]

/-- Different places within the number of slots are different slots. -/
theorem slot_ne {n top j k : ℕ} (hj : j<n) (hk : k<n) (hne : j≠k) : (top+j)%n≠(top+k)%n := by
  intro heq
  have hmod : Nat.ModEq n j k := Nat.ModEq.add_left_cancel' top heq
  exact hne (Nat.ModEq.eq_of_lt_of_lt hmod hj hk)

/-- A value stored behind those in use is the last of them. -/
theorem contents_push (slots : List α) (top : ℕ) {waiting : ℕ} (h : waiting<slots.length) (x : α) :
    contents (slots.set ((top+waiting)%slots.length) x) top (waiting+1)=
      contents slots top waiting++[x] := by
  have hlen : (slots.set ((top+waiting)%slots.length) x).length=slots.length := List.length_set
  have hslot : (top+waiting)%slots.length<slots.length := Nat.mod_lt _ (Nat.zero_lt_of_lt h)
  apply List.ext_getElem?
  intro k
  by_cases hk : k<waiting
  · rw [getElem?_contents (by omega) (by omega),hlen,
      List.getElem?_set_ne (slot_ne h (by omega) (Nat.ne_of_gt hk)),
      List.getElem?_append_left (by rwa [length_contents (by omega)]),
      getElem?_contents hk (by omega)]
  · rw [List.getElem?_append_right (by rw [length_contents] <;> omega),length_contents (by omega)]
    by_cases heq : k=waiting
    · subst heq
      rw [getElem?_contents (by omega) (by omega),hlen,List.getElem?_set_self hslot,
        Nat.sub_self,List.getElem?_cons_zero]
    · rw [List.getElem?_eq_none (by rw [length_contents] <;> omega),
        List.getElem?_eq_none (by rw [List.length_singleton]; omega)]

/-- The oldest value is that of the first slot, and the others follow from the next slot on. -/
theorem contents_pop (slots : List α) (waiting : ℕ) {top : ℕ} (h : waiting<slots.length)
    (htop : top<slots.length) :
    contents slots top (waiting+1)=slots[top]::contents slots ((top+1)%slots.length) waiting := by
  apply List.ext_getElem?
  intro k
  cases k with
  | zero =>
    rw [getElem?_contents (by omega) h,Nat.add_zero,Nat.mod_eq_of_lt htop,
      List.getElem?_eq_getElem htop,List.getElem?_cons_zero]
  | succ k =>
    rw [List.getElem?_cons_succ]
    by_cases hk : k<waiting
    · rw [getElem?_contents (by omega) h,getElem?_contents hk (by omega),Nat.mod_add_mod,
        Nat.add_assoc,Nat.add_comm 1 k]
    · rw [List.getElem?_eq_none (by rw [length_contents] <;> omega),
        List.getElem?_eq_none (by rw [length_contents] <;> omega)]

end GuacServer.RingBuffers
