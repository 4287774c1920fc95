import GuacServer.Utf8Coding

/-!
# Code points written and read back

Code points of at most 21 bits, one after the other, as many as there is room for. Each is
written as it is encoded or not at all, and the reader finds the code points again where the
sizes that first bytes announce say that they are. It looks at no byte beyond those it is
given.
-/

namespace GuacServer.Utf8Coding

open List Unicode

/-! ## Reading from memory -/

/-- The trailing bytes of a character in memory, if they are there. -/
def readTrailingAt (memory : ℕ→Option UInt8) (result : ℕ) : ℕ→ℕ→Option ℕ
  | _, 0 => some result
  | utf8, n+1 =>
    (memory utf8).bind fun c =>
      readTrailingAt memory (result <<< 6 ||| (c &&& 0x3F).toNat) (utf8+1) n

/-- guac_utf8_read from memory, as far as the bytes that it looks at are there. -/
def guacUtf8ReadAt (memory : ℕ→Option UInt8) (utf8 : ℕ) (length : ℤ) : Option (Option (ℕ×ℕ)) :=
  if length≤0 then some none
  else
    (memory utf8).bind fun initial =>
      match utf8Initial initial with
      | none => some (some (0xFFFD,1))
      | some (result,bytes) =>
        if bytes > length then some none
        else (readTrailingAt memory result (utf8+1) (bytes-1)).map fun codepoint =>
          some (codepoint,bytes)

theorem readTrailingAt_eq (utf8 : List UInt8) (result n start : ℕ) (h : start+n≤utf8.length) :
    readTrailingAt (utf8[·]?) result start n=
      some (readTrailing result ((utf8.drop start).take n)) := by
  induction n generalizing result start with
  | zero => rw [readTrailingAt,take_zero,readTrailing]
  | succ n ih =>
    have hstart : start<utf8.length := by omega
    rw [readTrailingAt,List.getElem?_eq_getElem hstart,Option.bind_some,
      ih _ _ (by omega),drop_eq_getElem_cons hstart,take_succ_cons,readTrailing]

/-- Only bytes that are given are looked at. -/
theorem guacUtf8ReadAt_eq (utf8 : List UInt8) :
    guacUtf8ReadAt (utf8[·]?) 0 utf8.length=some (guacUtf8Read utf8) := by
  cases utf8 with
  | nil => rfl
  | cons initial utf8 =>
    rw [guacUtf8ReadAt,if_neg (by simp),List.getElem?_cons_zero,Option.bind_some,guacUtf8Read]
    cases hinitial : utf8Initial initial with
    | none => rfl
    | some read =>
      obtain ⟨result,bytes⟩ := read
      dsimp only
      by_cases hbytes : bytes > utf8.length+1
      · rw [if_pos hbytes,if_pos (by rw [length_cons]; exact_mod_cast hbytes)]
      · rw [if_neg hbytes,if_neg (by rw [length_cons]; exact_mod_cast hbytes),
          readTrailingAt_eq _ _ _ _ (by rw [length_cons]; omega)]
        rfl

/-! ## Lists of code points -/

/-- Code points are written one after the other until one does not fit: those that were
written, and the bytes of each. -/
def writeCodepoints : ℕ→List ℕ→List (ℕ×List UInt8)
  | _, [] => []
  | room, codepoint::codepoints =>
    let written := guacUtf8Write codepoint room
    if written.length=0 then []
    else (codepoint,written)::writeCodepoints (room-written.length) codepoints

/-- Code points are read one after the other until none is: those that were read with the
number of bytes of each, and what is left. -/
def readCodepoints (utf8 : List UInt8) : List (ℕ×ℕ)×List UInt8 :=
  match _hread : guacUtf8Read utf8 with
  | none => ([],utf8)
  | some (codepoint,bytes) =>
    let rest := readCodepoints (utf8.drop bytes)
    ((codepoint,bytes)::rest.1,rest.2)
termination_by utf8.length
decreasing_by
  have hbytes := guacUtf8Read_bytes _hread
  rw [length_drop]
  omega

/-- The bytes written for some code points. -/
def writtenBytes (written : List (ℕ×List UInt8)) : List UInt8 := written.flatMap Prod.snd

/-- A code point is read before the others. -/
theorem readCodepoints_step {utf8 : List UInt8} {codepoint bytes : ℕ}
    (h : guacUtf8Read utf8=some (codepoint,bytes)) :
    readCodepoints utf8=((codepoint,bytes)::(readCodepoints (utf8.drop bytes)).1,
      (readCodepoints (utf8.drop bytes)).2) := by
  rw [readCodepoints]
  split
  · next hnone => cases h.symm.trans hnone
  · next hsome =>
    cases h.symm.trans hsome
    rfl

theorem readCodepoints_nil : readCodepoints []=([],[]) := by
  rw [readCodepoints]
  rfl

/-- What the size of a code point says is the number of its bytes. -/
theorem utf8Size_eq {v : ℕ} (hmax : v≤0x1FFFFF) :
    ∃ mask, utf8Size v=some (mask,(utf8Bytes v).length) := by
  unfold utf8Size utf8Bytes
  split_ifs
  all_goals first | omega | exact ⟨_,rfl⟩

/-- Nothing is written of a code point that does not fit. -/
theorem guacUtf8Write_eq {v : ℕ} (hmax : v≤0x1FFFFF) (room : ℕ) :
    guacUtf8Write v room=if (utf8Bytes v).length≤room then utf8Bytes v else [] := by
  split_ifs with h
  · exact guacUtf8Write_utf8Bytes hmax h
  · obtain ⟨mask,hsize⟩ := utf8Size_eq hmax
    rw [guacUtf8Write,hsize]
    dsimp only
    rw [if_pos (by omega : (utf8Bytes v).length > room),ite_self]

/-- A code point that is written first fits, and others follow in the room that it leaves. -/
theorem writeCodepoints_cons {v : ℕ} (hmax : v≤0x1FFFFF) (room : ℕ) (codepoints : List ℕ) :
    writeCodepoints room (v::codepoints)=if (utf8Bytes v).length≤room then
        (v,utf8Bytes v)::writeCodepoints (room-(utf8Bytes v).length) codepoints
      else [] := by
  obtain ⟨lead,rest,hbytes,-⟩ := utf8Bytes_charsize v
  have hne : (utf8Bytes v).length≠0 := by
    rw [hbytes,length_cons]
    exact Nat.succ_ne_zero _
  rw [writeCodepoints,guacUtf8Write_eq hmax]
  by_cases hfits : (utf8Bytes v).length≤room
  · rw [if_pos hfits,if_neg hne,if_pos hfits]
  · rw [if_neg hfits,if_pos length_nil,if_neg hfits]

/-- Code points of at most 21 bits, none of them zero. -/
def Writable (codepoints : List ℕ) : Prop := ∀ v∈codepoints, 1≤v ∧ v≤0x1FFFFF

instance (codepoints : List ℕ) : Decidable (Writable codepoints) :=
  inferInstanceAs (Decidable (∀ v∈codepoints, _))

variable {codepoints : List ℕ}

/-- Code points are written as they are encoded. -/
theorem encoded_of_mem (h : Writable codepoints) (room : ℕ) :
    ∀ c∈writeCodepoints room codepoints, c.2=utf8Bytes c.1 ∧ 1≤c.1 ∧ c.1≤0x1FFFFF := by
  induction codepoints generalizing room with
  | nil => exact fun _ hc => absurd hc not_mem_nil
  | cons v codepoints ih =>
    obtain ⟨hv,hrest⟩ := forall_mem_cons.mp h
    rw [writeCodepoints_cons hv.2]
    split_ifs
    · exact forall_mem_cons.mpr ⟨⟨rfl,hv⟩,ih hrest _⟩
    · exact fun _ hc => absurd hc not_mem_nil

theorem writeCodepoints_fst (room : ℕ) (codepoints : List ℕ) :
    (writeCodepoints room codepoints).map Prod.fst <+: codepoints := by
  induction codepoints generalizing room with
  | nil => exact List.nil_prefix
  | cons v codepoints ih =>
    rw [writeCodepoints]
    split_ifs
    · exact List.nil_prefix
    · exact cons_prefix_cons.mpr ⟨rfl,ih _⟩

theorem writeCodepoints_fits (h : Writable codepoints) (room : ℕ) :
    (writtenBytes (writeCodepoints room codepoints)).length≤room := by
  induction codepoints generalizing room with
  | nil => exact Nat.zero_le room
  | cons v codepoints ih =>
    obtain ⟨hv,hrest⟩ := forall_mem_cons.mp h
    rw [writeCodepoints_cons hv.2]
    split_ifs with hfits
    · have hlength := ih hrest (room-(utf8Bytes v).length)
      rw [writtenBytes] at hlength
      rw [writtenBytes,flatMap_cons,length_append]
      dsimp only
      omega
    · exact Nat.zero_le room

/-- The first code point that is not written does not fit. -/
theorem writeCodepoints_full (h : Writable codepoints) (room : ℕ) (v : ℕ)
    (hnext : codepoints[(writeCodepoints room codepoints).length]? = some v) :
    room<(writtenBytes (writeCodepoints room codepoints)).length+(utf8Bytes v).length := by
  induction codepoints generalizing room with
  | nil => cases hnext
  | cons first codepoints ih =>
    obtain ⟨hfirst,hrest⟩ := forall_mem_cons.mp h
    rw [writeCodepoints_cons hfirst.2] at hnext ⊢
    split_ifs at hnext ⊢ with hfits
    · rw [length_cons,List.getElem?_cons_succ] at hnext
      have hlater := ih hrest (room-(utf8Bytes first).length) hnext
      rw [writtenBytes] at hlater
      rw [writtenBytes,flatMap_cons,length_append]
      dsimp only
      omega
    · rw [length_nil,List.getElem?_cons_zero,Option.some.injEq] at hnext
      subst hnext
      exact (not_le.mp hfits).trans_le (Nat.le_add_left _ _)

/-- Encoded code points are read with the number of their bytes, and nothing is left. -/
theorem readCodepoints_written {written : List (ℕ×List UInt8)}
    (h : ∀ c∈written, c.2=utf8Bytes c.1 ∧ 1≤c.1 ∧ c.1≤0x1FFFFF) :
    readCodepoints (writtenBytes written)=(written.map fun c => (c.1,c.2.length),[]) := by
  induction written with
  | nil => exact readCodepoints_nil
  | cons c written ih =>
    obtain ⟨⟨hbytes,-,hmax⟩,hrest⟩ := forall_mem_cons.mp h
    have hread := guacUtf8Read_utf8Bytes hmax (writtenBytes written)
    rw [←hbytes] at hread
    have hsplit : writtenBytes (c::written)=c.2++writtenBytes written := flatMap_cons
    rw [hsplit,readCodepoints_step hread,drop_left,ih hrest,map_cons]

/-- Encoded code points are counted one by one. -/
theorem strlenLoop_written {written : List (ℕ×List UInt8)}
    (h : ∀ c∈written, c.2=utf8Bytes c.1 ∧ 1≤c.1 ∧ c.1≤0x1FFFFF) (length : ℕ)
    (str : List UInt8) :
    strlenLoop 0 length (writtenBytes written++str)=strlenLoop 0 (length+written.length) str := by
  induction written generalizing length with
  | nil => rfl
  | cons c written ih =>
    obtain ⟨⟨hbytes,hpos,-⟩,hrest⟩ := forall_mem_cons.mp h
    obtain ⟨lead,rest,hsplit,hsize⟩ := utf8Bytes_charsize c.1
    have hne := utf8Bytes_ne_zero (Nat.one_le_iff_ne_zero.mp hpos)
    rw [hsplit] at hne
    obtain ⟨hlead,hskipped⟩ := forall_mem_cons.mp hne
    have hskip : guacUtf8Charsize lead-1=rest.length := by omega
    rw [writtenBytes,flatMap_cons,hbytes,hsplit,append_assoc,cons_append,
      strlenLoop,if_neg hlead,if_neg (lt_irrefl 0),hskip,strlenLoop_skip hskipped,
      length_cons,Nat.add_comm written.length,←Nat.add_assoc]
    exact ih hrest (length+1)

/-- What is written of some code points in some room is read back. -/
structure ReadsBack (room : ℕ) (codepoints : List ℕ) (written : List (ℕ×List UInt8)) :
    Prop where
  /-- The first code points are written. -/
  first : written.map Prod.fst <+: codepoints
  /-- They are written within the room there is. -/
  fits : (writtenBytes written).length≤room
  /-- Writing goes on until a code point does not fit into the room that is left. -/
  full : ∀ v, codepoints[written.length]? = some v →
    room<(writtenBytes written).length+(utf8Bytes v).length
  /-- They are read, each from as many bytes as were written for it, and nothing is left. -/
  read : readCodepoints (writtenBytes written)=(written.map fun c => (c.1,c.2.length),[])
  /-- The first byte of each announces its size. -/
  size : ∀ c∈written, ∃ lead rest, c.2=lead::rest ∧ c.2.length=guacUtf8Charsize lead
  /-- They are counted up to the terminator. -/
  count : ∀ tail, guacUtf8Strlen (writtenBytes written++0::tail)=written.length

/-- Code points that are written are read back, and a reader of any bytes looks only at these
bytes. -/
theorem utf8_readsBack (codepoints : List ℕ) (h : Writable codepoints) (room : ℕ)
    (utf8 : List UInt8) :
    ReadsBack room codepoints (writeCodepoints room codepoints) ∧
      guacUtf8ReadAt (utf8[·]?) 0 utf8.length=some (guacUtf8Read utf8) := by
  have hencoded := encoded_of_mem h room
  refine ⟨⟨writeCodepoints_fst room codepoints,writeCodepoints_fits h room,
    writeCodepoints_full h room,readCodepoints_written hencoded,fun c hc => ?_,fun tail => ?_⟩,
      guacUtf8ReadAt_eq utf8⟩
  · obtain ⟨lead,rest,hsplit,hsize⟩ := utf8Bytes_charsize c.1
    rw [(hencoded c hc).1]
    exact ⟨lead,rest,hsplit,by rw [hsplit,length_cons,hsize]⟩
  · rw [guacUtf8Strlen,strlenLoop_written hencoded,Nat.zero_add]
    rfl

/-- Two of three code points fit into six bytes. -/
theorem utf8_readsBack_six :
    writeCodepoints 6 [0xE9,0x1F600,0x41]=[(0xE9,[0xC3,0xA9]),(0x1F600,[0xF0,0x9F,0x98,0x80])] ∧
      ReadsBack 6 [0xE9,0x1F600,0x41] (writeCodepoints 6 [0xE9,0x1F600,0x41]) ∧
      guacUtf8ReadAt ([0xF0,0x9F][·]?) 0 2=some none :=
  ⟨by decide,(utf8_readsBack [0xE9,0x1F600,0x41] (by decide) 6 []).1,
    (utf8_readsBack [0xE9,0x1F600,0x41] (by decide) 6 [0xF0,0x9F]).2⟩

end GuacServer.Utf8Coding
