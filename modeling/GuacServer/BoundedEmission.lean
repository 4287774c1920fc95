import Mathlib.Data.List.Basic

/-!
# Emission into limited room

The codes of a list of items are emitted one after the other as long as there is room, and
an item whose code does not fit is passed over. What was emitted is then the code of a
subsequence. It is that of an initial segment exactly if nothing fits any more after the
first item that did not.
-/

namespace GuacServer.BoundedEmission

open List

variable {α β : Type*} (encode : α→List β)

/-- The codes of those items that fit when it is their turn. -/
def emit : ℕ→List α→List β
  | _, [] => []
  | room, a::as =>
    if (encode a).length≤room then encode a++emit (room-(encode a).length) as
    else emit room as

/-- The length of the code of a list of items. -/
def size (as : List α) : ℕ := (as.flatMap encode).length

/-- Nothing fits after the first item that does not, where there is still room. -/
def Settled (room : ℕ) (as : List α) : Prop :=
  ∀ before a after, as=before++a::after → size encode before<room →
    room<size encode before+(encode a).length →
    ∀ b∈after, room<size encode before+(encode b).length

variable {encode} {room : ℕ} {as before after : List α} {a : α}

@[simp] theorem size_nil : size encode []=0 := rfl

@[simp] theorem size_cons : size encode (a::as)=(encode a).length+size encode as := by
  rw [size,flatMap_cons,length_append]
  rfl

@[simp] theorem size_append : size encode (before++after)=size encode before+size encode after := by
  rw [size,flatMap_append,length_append]
  rfl

theorem length_pos (hcode : ∀ a, encode a≠[]) (a : α) : 0<(encode a).length :=
  length_pos_iff.mpr (hcode a)

variable (encode) in
/-- An initial segment goes no further than before an item, or contains it. -/
theorem size_take_split (before after : List α) (a : α) (k : ℕ) :
    size encode ((before++a::after).take k) ≤ size encode before ∨ a∈(before++a::after).take k ∧
        size encode (before++[a]) ≤ size encode ((before++a::after).take k) := by
  induction before generalizing k with
  | nil =>
    cases k with
    | zero => exact Or.inl (Nat.le_refl _)
    | succ k =>
      rw [nil_append,take_succ_cons,nil_append,size_cons,size_cons]
      exact Or.inr ⟨mem_cons_self,by rw [size_nil]; omega⟩
  | cons b before ih =>
    cases k with
    | zero => exact Or.inl (Nat.zero_le _)
    | succ k =>
      rw [cons_append,take_succ_cons,cons_append,size_cons,size_cons,size_cons]
      rcases ih k with hle | ⟨hmem,hle⟩
      · exact Or.inl (Nat.add_le_add_left hle _)
      · exact Or.inr ⟨mem_cons_of_mem _ hmem,Nat.add_le_add_left hle _⟩

variable (encode room as) in
/-- No more is emitted than there is room for. -/
theorem length_emit_le : (emit encode room as).length≤room := by
  induction as generalizing room with
  | nil => exact Nat.zero_le _
  | cons a as ih =>
    rw [emit]
    by_cases hfits : (encode a).length≤room
    · have hrest := ih (room-(encode a).length)
      rw [if_pos hfits,length_append]
      omega
    · rw [if_neg hfits]
      exact ih room

/-- Items are emitted after one another. -/
theorem emit_append : emit encode room (before++after)=
      emit encode room before++emit encode (room-(emit encode room before).length) after := by
  induction before generalizing room with
  | nil => rfl
  | cons a before ih =>
    rw [cons_append,emit,emit]
    by_cases hfits : (encode a).length≤room
    · rw [if_pos hfits,if_pos hfits,ih,append_assoc,length_append,Nat.sub_add_eq]
    · rw [if_neg hfits,if_neg hfits,ih]

/-- All is emitted if there is room for it. -/
theorem emit_of_size_le (h : size encode as≤room) : emit encode room as=as.flatMap encode := by
  induction as generalizing room with
  | nil => rfl
  | cons a as ih =>
    rw [size_cons] at h
    rw [emit,if_pos (by omega),ih (by omega),flatMap_cons]

/-- What follows items that fit. -/
theorem emit_append_of_size_le (h : size encode before≤room) : emit encode room (before++after)=
      before.flatMap encode++emit encode (room-size encode before) after := by
  rw [emit_append,emit_of_size_le h]
  rfl

/-- Nothing is emitted if nothing fits. -/
theorem emit_eq_nil (h : ∀ a∈as, room<(encode a).length) : emit encode room as=[] := by
  induction as with
  | nil => rfl
  | cons a as ih =>
    rw [forall_mem_cons] at h
    rw [emit,if_neg (Nat.not_le.mpr h.1),ih h.2]

/-- Where items have codes, something is emitted if something fits. -/
theorem lt_length_of_emit_eq_nil (hcode : ∀ a, encode a≠[]) (h : emit encode room as=[]) :
    ∀ a∈as, room<(encode a).length := by
  induction as with
  | nil => exact nofun
  | cons a as ih =>
    rw [emit] at h
    by_cases hfits : (encode a).length≤room
    · rw [if_pos hfits] at h
      exact absurd (append_eq_nil_iff.mp h).1 (hcode a)
    · rw [if_neg hfits] at h
      exact forall_mem_cons.mpr ⟨Nat.not_le.mp hfits,ih h⟩

variable (encode) in
/-- All items fit, or there is a first one that does not. -/
theorem fits_or_crosses (room : ℕ) (as : List α) :
    size encode as≤room ∨ ∃ before a after, as=before++a::after ∧
      size encode before≤room ∧ room<size encode before+(encode a).length := by
  induction as generalizing room with
  | nil => exact Or.inl (Nat.zero_le _)
  | cons a as ih =>
    by_cases hfits : (encode a).length≤room
    · rcases ih (room-(encode a).length) with hall | ⟨before,b,after,rfl,hbefore,hb⟩
      · rw [size_cons]
        omega
      · refine Or.inr ⟨a::before,b,after,rfl,?_⟩
        rw [size_cons]
        omega
    · exact Or.inr ⟨[],a,as,rfl,Nat.zero_le _,by rw [size_nil]; omega⟩

/-- What is emitted before the first item that does not fit, if nothing fits after it. -/
theorem Settled.emit_eq (hsettled : Settled encode room as) (h : as=before++a::after)
    (hroom : size encode before<room) (hcross : room<size encode before+(encode a).length) :
    emit encode room as=before.flatMap encode := by
  subst h
  rw [emit_append_of_size_le (Nat.le_of_lt hroom),emit_eq_nil,append_nil]
  intro b hb
  rcases mem_cons.mp hb with rfl | hb
  · omega
  · have hlater := hsettled before a after rfl hroom hcross b hb
    omega

/-- The code of an initial segment is emitted, and its items have a property, exactly if nothing
fits after the first item that does not, and the items before it have the property. -/
theorem emit_prefix_iff (hcode : ∀ a, encode a≠[]) (P : α→Prop) :
    (∃ k, emit encode room as=(as.take k).flatMap encode ∧ ∀ a∈as.take k, P a) ↔
      Settled encode room as ∧ ∀ before a after, as=before++a::after →
        size encode (before++[a])≤room→P a := by
  constructor
  · rintro ⟨k,heq,hP⟩
    have hlength : size encode (as.take k)=(emit encode room as).length :=
      (congrArg List.length heq).symm
    constructor
    · rintro before a after rfl hroom hcross
      have hrest : emit encode (room-size encode before) after=[] := by
        have hsplit : emit encode room (before++a::after)=_ :=
          emit_append_of_size_le (Nat.le_of_lt hroom)
        rw [emit,if_neg (by omega)] at hsplit
        have htotal := length_emit_le encode room (before++a::after)
        rw [hsplit,length_append] at hlength htotal
        change _ = size encode before+_ at hlength
        change size encode before+_ ≤ _ at htotal
        refine eq_nil_of_length_eq_zero ?_
        rcases size_take_split encode before after a k with hle | ⟨-,hle⟩
        · omega
        · rw [size_append,size_cons,size_nil] at hle
          omega
      intro b hb
      have hlater := lt_length_of_emit_eq_nil hcode hrest b hb
      omega
    · rintro before a after rfl hfits
      have hpos := length_pos hcode a
      have hemitted : size encode (before++[a])≤(emit encode room (before++a::after)).length := by
        rw [append_cons before a after,emit_append_of_size_le hfits,length_append]
        exact Nat.le_add_right _ _
      rcases size_take_split encode before after a k with hle | ⟨hmem,-⟩
      · rw [size_append,size_cons,size_nil] at hemitted
        omega
      · exact hP a hmem
  · rintro ⟨hsettled,hP⟩
    rcases fits_or_crosses encode room as with hall | ⟨before,a,after,rfl,hbefore,hcross⟩
    · refine ⟨as.length,?_,fun a ha => ?_⟩
      · rw [take_length,emit_of_size_le hall]
      · rw [take_length] at ha
        obtain ⟨before,after,rfl⟩ := append_of_mem ha
        refine hP before a after rfl ?_
        rw [size_append,size_cons] at hall
        rw [size_append,size_cons,size_nil]
        omega
    · refine ⟨before.length,?_,fun b hb => ?_⟩
      · rw [take_left]
        rcases Nat.eq_or_lt_of_le hbefore with hfull | hroom
        · rw [emit_append_of_size_le hbefore,emit_eq_nil,append_nil]
          intro b _
          have hpos := length_pos hcode b
          omega
        · exact hsettled.emit_eq rfl hroom hcross
      · rw [take_left] at hb
        obtain ⟨first,rest,rfl⟩ := append_of_mem hb
        refine hP first b (rest++a::after) (by simp) ?_
        rw [size_append,size_cons] at hbefore
        rw [size_append,size_cons,size_nil]
        omega

end GuacServer.BoundedEmission
