import GuacServer.Iconv

/-!
# When a conversion ends

Every reader but that of UTF-8 passes some input in each round or reports a
terminator. The reader of UTF-8 does not pass a truncated character at the end
of the input: from there on the loop ends only if what its variable holds is
zero at some time or fills the output.
-/

namespace GuacServer.Iconv

open List Unicode Utf8Coding

/-- The values of the complete characters of the input, and the truncated
character after them, if any. -/
def utf8Values (input : List UInt8) : List ℤ×List UInt8 :=
  match _hread : guacUtf8Read input with
  | none => ([],input)
  | some (codepoint,bytes) =>
    let rest := utf8Values (input.drop bytes)
    (codepoint::rest.1,rest.2)
termination_by input.length
decreasing_by
  have hbytes := guacUtf8Read_bytes _hread
  rw [length_drop]
  omega

/-- The room for output that is left after some values are written. -/
def roomAfter (order : ByteOrder) (writer : Encoding) : ℕ→List ℤ→ℕ
  | outRemaining, [] => outRemaining
  | outRemaining, value::values =>
    roomAfter order writer (outRemaining-(writer.write order outRemaining value).length) values

/-- Some of the values is a terminator, or they fill the output. -/
def Ends (order : ByteOrder) (writer : Encoding) (outRemaining : ℕ) (values : List ℤ) : Prop :=
  0∈values ∨ roomAfter order writer outRemaining values=0

instance (order : ByteOrder) (writer : Encoding) (outRemaining : ℕ) (values : List ℤ) :
    Decidable (Ends order writer outRemaining values) :=
  inferInstanceAs (Decidable (_ ∨ _))

/-- The values that the variable of the reader holds in some rounds. -/
def heldValues (uninitialized : ℕ→ℤ) (first count : ℕ) : List ℤ :=
  (List.range count).map fun n => uninitialized (first+n)

variable {order : ByteOrder} {reader writer : Encoding} {uninitialized : ℕ→ℤ}
  {input : List UInt8} {outRemaining : ℕ}

/-- Without room for output there is none later. -/
theorem roomAfter_zero (order : ByteOrder) (writer : Encoding) (values : List ℤ) :
    roomAfter order writer 0 values=0 := by
  induction values with
  | nil => rfl
  | cons value values ih => rw [roomAfter,Nat.zero_sub,ih]

/-- Values that are not written take no room. -/
theorem roomAfter_of_nil {values : List ℤ}
    (h : ∀ value∈values, writer.write order outRemaining value=[]) :
    roomAfter order writer outRemaining values=outRemaining := by
  induction values with
  | nil => rfl
  | cons value values ih =>
    rw [roomAfter,h value (mem_cons_self ..),length_nil,Nat.sub_zero]
    exact ih fun value hmem => h value (mem_cons_of_mem _ hmem)

/-- The first value ends the loop, or those after it do. -/
theorem ends_cons {value : ℤ} (hvalue : value≠0) (values : List ℤ) :
    Ends order writer outRemaining (value::values) ↔
      Ends order writer (outRemaining-(writer.write order outRemaining value).length) values := by
  unfold Ends
  rw [mem_cons,roomAfter]
  constructor
  · rintro ((hzero | hmem) | hroom)
    · exact absurd hzero.symm hvalue
    · exact Or.inl hmem
    · exact Or.inr hroom
  · rintro (hmem | hroom)
    · exact Or.inl (Or.inr hmem)
    · exact Or.inr hroom

/-- Held values are the first one and those held later. -/
theorem heldValues_succ (uninitialized : ℕ→ℤ) (count : ℕ) : heldValues uninitialized 0 (count+1)=
      uninitialized 0::heldValues (fun n => uninitialized (n+1)) 0 count := by
  rw [heldValues,heldValues,range_succ_eq_map,map_cons,map_map]
  simp [Function.comp_def]

/-- Values held later are held by the variable of the later rounds. -/
theorem heldValues_shift (uninitialized : ℕ→ℤ) (first count : ℕ) :
    heldValues uninitialized (first+1) count=
      heldValues (fun n => uninitialized (n+1)) first count := by
  rw [heldValues,heldValues]
  simp only [Nat.add_right_comm]

/-- On a truncated character the loop ends if held values end it. -/
theorem terminates_of_held (hne : input≠[]) (hread : guacUtf8Read input=none) {count : ℕ}
    (hends : Ends order writer outRemaining (heldValues uninitialized 0 count)) :
    Terminates order .utf8 writer uninitialized input outRemaining := by
  have hstuck : Encoding.read order .utf8 (uninitialized 0) input=(uninitialized 0,0) := by
    rw [Encoding.read,guacReadUtf8,hread]
  induction count generalizing uninitialized outRemaining with
  | zero =>
    rcases hends with hmem | hroom
    · cases hmem
    · exact ⟨_,converts_stop (Or.inr hroom)⟩
  | succ count ih =>
    by_cases hout : outRemaining=0
    · exact ⟨_,converts_stop (Or.inr hout)⟩
    have hgoes : ¬(input=[] ∨ outRemaining=0) := not_or.mpr ⟨hne,hout⟩
    by_cases hzero : uninitialized 0=0
    · exact ⟨_,converts_terminator hgoes (by rw [hstuck]; exact hzero)⟩
    · rw [heldValues_succ,ends_cons hzero] at hends
      rw [terminates_iff hgoes (by rw [hstuck]; exact hzero),hstuck]
      refine ih hends ?_
      rw [Encoding.read,guacReadUtf8,hread]

/-- On a truncated character the loop ends only if held values end it. -/
theorem held_of_terminates (hne : input≠[]) (hread : guacUtf8Read input=none)
    (h : Terminates order .utf8 writer uninitialized input outRemaining) :
    ∃ count, Ends order writer outRemaining (heldValues uninitialized 0 count) := by
  obtain ⟨r,fuel,hfuel⟩ := h
  induction fuel generalizing uninitialized outRemaining r with
  | zero =>
    rw [guacIconv] at hfuel
    by_cases hout : outRemaining=0
    · exact ⟨0,Or.inr hout⟩
    · rw [if_neg (not_or.mpr ⟨hne,hout⟩)] at hfuel
      cases hfuel
  | succ fuel ih =>
    by_cases hout : outRemaining=0
    · exact ⟨0,Or.inr hout⟩
    by_cases hzero : uninitialized 0=0
    · refine ⟨1,Or.inl ?_⟩
      rw [heldValues_succ,hzero]
      exact mem_cons_self ..
    have hstuck : Encoding.read order .utf8 (uninitialized 0) input=(uninitialized 0,0) := by
      rw [Encoding.read,guacReadUtf8,hread]
    rw [guacIconv,if_neg (not_or.mpr ⟨hne,hout⟩)] at hfuel
    dsimp only at hfuel
    rw [hstuck,if_neg hzero,Option.map_eq_some_iff] at hfuel
    obtain ⟨r',hrest,-⟩ := hfuel
    obtain ⟨count,hends⟩ := ih _ hrest
    refine ⟨count+1,?_⟩
    rw [heldValues_succ,ends_cons hzero]
    exact hends

/-- Every other reader passes some input or reports a terminator. -/
theorem read_progress (hreader : reader≠.utf8) (value : ℤ) (input : List UInt8) :
    (reader.read order value input).1=0 ∨ 0<(reader.read order value input).2 := by
  cases reader with
  | utf8 => exact absurd rfl hreader
  | utf16 =>
    rw [Encoding.read]
    unfold guacReadUtf16
    split
    · exact Or.inr (Nat.zero_lt_succ _)
    · exact Or.inl rfl
  | cp1252 => exact Or.inr Nat.one_pos
  | iso8859 => exact Or.inr Nat.one_pos

/-- With every other reader the loop ends. -/
theorem terminates_of_ne_utf8 (hreader : reader≠.utf8) :
    Terminates order reader writer uninitialized input outRemaining := by
  induction hn : input.length using Nat.strong_induction_on generalizing
    input uninitialized outRemaining with
  | _ n ih =>
    subst hn
    by_cases hstop : input=[] ∨ outRemaining=0
    · exact ⟨_,converts_stop hstop⟩
    by_cases hzero : (reader.read order (uninitialized 0) input).1=0
    · exact ⟨_,converts_terminator hstop hzero⟩
    rw [terminates_iff hstop hzero]
    have hpos := (read_progress hreader (uninitialized 0) input).resolve_left hzero
    have hlength := length_pos_iff.mpr (not_or.mp hstop).1
    refine ih _ ?_ rfl
    rw [length_drop]
    omega

/-- With the reader of UTF-8 the loop ends if the values of the input end it, or
some that the variable of the reader holds at the truncated character do. -/
theorem terminates_utf8_iff (uninitialized : ℕ→ℤ) (input : List UInt8) (outRemaining : ℕ) :
    Terminates order .utf8 writer uninitialized input outRemaining ↔
      ((utf8Values input).2≠[]→∃ count, Ends order writer outRemaining
        ((utf8Values input).1++heldValues uninitialized (utf8Values input).1.length count)) := by
  induction input using utf8Values.induct generalizing uninitialized outRemaining with
  | case1 input hread =>
    have hvalues : utf8Values input=([],input) := by
      rw [utf8Values]
      split
      · rfl
      · rename_i hsome
        rw [hread] at hsome
        cases hsome
    rw [hvalues]
    constructor
    · intro h hne
      exact held_of_terminates hne hread h
    · intro h
      by_cases hne : input=[]
      · exact ⟨_,converts_stop (Or.inl hne)⟩
      · obtain ⟨count,hends⟩ := h hne
        exact terminates_of_held hne hread hends
  | case2 input codepoint bytes hread ih =>
    have hvalues : utf8Values input=((codepoint : ℤ)::(utf8Values (input.drop bytes)).1,
        (utf8Values (input.drop bytes)).2) := by
      rw [utf8Values]
      split
      · rename_i hnone
        rw [hread] at hnone
        cases hnone
      · rename_i hsome
        rw [hread] at hsome
        cases hsome
        rfl
    have hne : input≠[] := by
      rintro rfl
      cases hread
    rw [hvalues]
    dsimp only
    by_cases hout : outRemaining=0
    · subst hout
      exact iff_of_true ⟨_,converts_stop (Or.inr rfl)⟩
        fun _ => ⟨0,Or.inr (roomAfter_zero order writer _)⟩
    have hgoes : ¬(input=[] ∨ outRemaining=0) := not_or.mpr ⟨hne,hout⟩
    have hvalue : Encoding.read order .utf8 (uninitialized 0) input=((codepoint : ℤ),bytes) := by
      rw [Encoding.read,guacReadUtf8,hread]
    by_cases hzero : (codepoint : ℤ)=0
    · refine iff_of_true ⟨_,converts_terminator hgoes (by rw [hvalue]; exact hzero)⟩
        fun _ => ⟨0,Or.inl ?_⟩
      rw [hzero]
      exact mem_cons_self ..
    · rw [terminates_iff hgoes (by rw [hvalue]; exact hzero),hvalue,ih]
      simp only [cons_append,length_cons,ends_cons hzero,heldValues_shift]

/-- The loop ends exactly if the input is not UTF-8, or does not end within a
character, or its values end the loop, together with some that the variable of
the reader holds once the truncated character is reached. -/
theorem guacIconv_terminates_iff (order : ByteOrder) (reader writer : Encoding)
    (uninitialized : ℕ→ℤ) (input : List UInt8) (outRemaining : ℕ) :
    Terminates order reader writer uninitialized input outRemaining ↔
      (reader=.utf8→(utf8Values input).2≠[] →
        ∃ count, Ends order writer outRemaining ((utf8Values input).1++
          heldValues uninitialized (utf8Values input).1.length count)) := by
  by_cases hreader : reader=.utf8
  · subst hreader
    rw [terminates_utf8_iff]
    exact ⟨fun h _ => h,fun h => h rfl⟩
  · exact iff_of_true (terminates_of_ne_utf8 hreader) fun h => absurd h hreader

/-- From the first byte of a longer character alone the loop does not end, if the
variable of the reader holds a letter and there is one byte of room for UTF-16. -/
theorem guacIconv_truncated : ¬Terminates .little .utf8 .utf16 (fun _ => 0x41) [0xC3] 1 := by
  intro h
  obtain ⟨count,hmem | hroom⟩ := held_of_terminates (cons_ne_nil _ _) rfl h
  · obtain ⟨n,-,hn⟩ := mem_map.mp hmem
    cases hn
  · rw [roomAfter_of_nil fun _ _ => rfl] at hroom
    cases hroom

end GuacServer.Iconv
