import GuacServer.Unicode

/-!
# Reading and writing characters of UTF-8

guac_utf8_read and guac_utf8_write of unicode.c on their whole range: any
bytes are read, and any int is written as far as its value allows. For code
points of Unicode both agree with the standard encoding.
-/

namespace GuacServer.Utf8Coding

open List Unicode

/-- What the first byte of a character gives of its code point, and the number
of its bytes. -/
def utf8Initial (initial : UInt8) : Option (ℕ×ℕ) :=
  if initial ||| 0x7F=0x7F then some (initial.toNat,1)
  else if initial ||| 0x1F=0xDF then some ((initial &&& 0x1F).toNat,2)
  else if initial ||| 0x0F=0xEF then some ((initial &&& 0x0F).toNat,3)
  else if initial ||| 0x07=0xF7 then some ((initial &&& 0x07).toNat,4)
  else none

/-- The trailing bytes of a character. -/
def readTrailing : ℕ→List UInt8→ℕ
  | result, [] => result
  | result, c::utf8 => readTrailing (result <<< 6 ||| (c &&& 0x3F).toNat) utf8

/-- guac_utf8_read: the code point and the number of bytes read, unless none
are. -/
def guacUtf8Read : List UInt8→Option (ℕ×ℕ)
  | [] => none
  | initial::utf8 =>
    match utf8Initial initial with
    | none => some (0xFFFD,1)
    | some (result,bytes) =>
      if bytes > utf8.length+1 then none
      else some (readTrailing result (utf8.take (bytes-1)),bytes)

/-- The mask of the first byte and the number of bytes of a code point. -/
def utf8Size (codepoint : ℤ) : Option (ℕ×ℕ) :=
  if codepoint≤0x007F then some (0x00,1)
  else if codepoint≤0x7FF then some (0xC0,2)
  else if codepoint≤0xFFFF then some (0xE0,3)
  else if codepoint≤0x1FFFFF then some (0xF0,4)
  else none

/-- So many trailing bytes are written before others, the last one first, and
what is left of the code point. -/
def writeTrailing : ℕ→ℤ→List UInt8→ℤ×List UInt8
  | 0, codepoint, utf8 => (codepoint,utf8)
  | n+1, codepoint, utf8 =>
    writeTrailing n (codepoint/0x40) (UInt8.ofNat (0x80 ||| (codepoint%0x40).toNat)::utf8)

/-- guac_utf8_write: the bytes written. -/
def guacUtf8Write (codepoint : ℤ) (length : ℕ) : List UInt8 :=
  if length=0 then []
  else
    match utf8Size codepoint with
    | none => [63]
    | some (mask,bytes) =>
      if bytes > length then []
      else
        let (codepoint,utf8) := writeTrailing (bytes-1) codepoint []
        UInt8.ofNat (mask ||| (codepoint%0x100).toNat)::utf8

/-- Something is read of a character, and no more than there is. -/
theorem guacUtf8Read_bytes {utf8 : List UInt8} {codepoint bytes : ℕ}
    (h : guacUtf8Read utf8=some (codepoint,bytes)) : 0<bytes ∧ bytes≤utf8.length := by
  cases utf8 with
  | nil => cases h
  | cons initial utf8 =>
    rw [guacUtf8Read] at h
    cases hinitial : utf8Initial initial with
    | none =>
      rw [hinitial] at h
      cases h
      exact ⟨Nat.one_pos,Nat.le_add_left ..⟩
    | some read =>
      rw [hinitial] at h
      dsimp only at h
      split at h
      · cases h
      · next hbytes =>
        cases h
        refine ⟨?_,not_lt.mp hbytes⟩
        unfold utf8Initial at hinitial
        repeat' split at hinitial
        all_goals cases hinitial
        all_goals exact Nat.zero_lt_succ _

/-- Of a written code point at most the given number of bytes are written. -/
theorem length_writeTrailing (n : ℕ) (codepoint : ℤ) (utf8 : List UInt8) :
    (writeTrailing n codepoint utf8).2.length=n+utf8.length := by
  induction n generalizing codepoint utf8 with
  | zero => rw [writeTrailing,Nat.zero_add]
  | succ n ih =>
    rw [writeTrailing,ih,length_cons]
    omega

/-- A trailing byte read in is a digit of base 64. -/
theorem readTrailing_cons (result n : ℕ) (utf8 : List UInt8) :
    readTrailing result (UInt8.ofNat (n%0x40+0x80)::utf8)=
      readTrailing (result*0x40+n%0x40) utf8 := by
  have hlow : ∀ m<0x40, (UInt8.ofNat (m+0x80) &&& 0x3F).toNat=m := by decide
  have hdigit : n%0x40<2^6 := Nat.mod_lt n (by decide)
  rw [readTrailing,hlow _ hdigit,Nat.shiftLeft_eq,Nat.mul_comm,
    ←Nat.two_pow_add_eq_or_of_lt hdigit,Nat.mul_comm]

/-- An encoded code point is read. -/
theorem guacUtf8Read_utf8Bytes {v : ℕ} (hmax : v≤0x1FFFFF) (tail : List UInt8) :
    guacUtf8Read (utf8Bytes v++tail)=some (v,(utf8Bytes v).length) := by
  have h1 : ∀ n≤0x7f, utf8Initial (UInt8.ofNat n)=some (n,1) := by decide
  have h2 : ∀ n<0x20, utf8Initial (UInt8.ofNat (n+0xc0))=some (n,2) := by decide
  have h3 : ∀ n<0x10, utf8Initial (UInt8.ofNat (n+0xe0))=some (n,3) := by decide
  have h4 : ∀ n<0x08, utf8Initial (UInt8.ofNat (n+0xf0))=some (n,4) := by decide
  unfold utf8Bytes
  split
  · next h =>
    rw [cons_append,guacUtf8Read,h1 _ h]
    rfl
  split
  · next h =>
    have hvalue : v/64%0x20*0x40+v%0x40=v := by omega
    rw [cons_append,guacUtf8Read,h2 _ (Nat.mod_lt _ (by decide))]
    simp only [cons_append,nil_append,length_cons,take_succ_cons,
      take_zero,readTrailing_cons,Nat.reduceSubDiff]
    rw [if_neg (by omega),readTrailing,hvalue]
    rfl
  split
  · next h =>
    have hvalue : (v/4096%0x10*0x40+v/64%0x40)*0x40+v%0x40=v := by omega
    rw [cons_append,guacUtf8Read,h3 _ (Nat.mod_lt _ (by decide))]
    simp only [cons_append,nil_append,length_cons,take_succ_cons,
      take_zero,readTrailing_cons,Nat.reduceSubDiff]
    rw [if_neg (by omega),readTrailing,hvalue]
    rfl
  · next h =>
    have hvalue : ((v/262144%0x08*0x40+v/4096%0x40)*0x40+v/64%0x40)*0x40+v%0x40=v := by omega
    rw [cons_append,guacUtf8Read,h4 _ (Nat.mod_lt _ (by decide))]
    simp only [cons_append,nil_append,length_cons,take_succ_cons,
      take_zero,readTrailing_cons,Nat.reduceSubDiff]
    rw [if_neg (by omega),readTrailing,hvalue]
    rfl

theorem codepoint_le (c : Char) : c.val.toNat≤0x1FFFFF := by
  have hvalid := c.valid
  unfold UInt32.isValidChar Nat.isValidChar at hvalid
  omega

/-- An encoded character is read as its code point. -/
theorem guacUtf8Read_encode (c : Char) (tail : List UInt8) :
    guacUtf8Read (String.utf8EncodeChar c++tail)=
      some (c.val.toNat,(String.utf8EncodeChar c).length) :=
  guacUtf8Read_utf8Bytes (codepoint_le c) tail

/-- A trailing byte written is a digit of base 64. -/
theorem writeTrailing_cast (n v : ℕ) (utf8 : List UInt8) :
    writeTrailing (n+1) v utf8=writeTrailing n (v/0x40 : ℕ) (UInt8.ofNat (v%0x40+0x80)::utf8) := by
  have htrailing : ∀ n<0x40, 0x80 ||| n=n+0x80 := by decide
  have hdigit : ((v : ℤ)%0x40).toNat=v%0x40 := by omega
  rw [writeTrailing,hdigit,htrailing _ (Nat.mod_lt v (by decide)),Int.natCast_div]
  rfl

/-- The first byte written of a code point has the bits that the others leave. -/
theorem guacUtf8Write_initial {mask bound n : ℕ} (hmask : ∀ m<bound, mask ||| m=m+mask)
    (hbound : bound≤0x100) (h : n<bound) :
    UInt8.ofNat (mask ||| ((n : ℤ)%0x100).toNat)=UInt8.ofNat (n%bound+mask) := by
  have hn : ((n : ℤ)%0x100).toNat=n := by omega
  rw [hn,hmask n h,Nat.mod_eq_of_lt h]

/-- A code point is written as it is encoded, if there is room for it. -/
theorem guacUtf8Write_utf8Bytes {v : ℕ} (hmax : v≤0x1FFFFF) {room : ℕ}
    (h : (utf8Bytes v).length≤room) : guacUtf8Write v room=utf8Bytes v := by
  unfold utf8Bytes at h ⊢
  split
  · next hv =>
    rw [if_pos hv,length_singleton] at h
    have hsize : utf8Size v=some (0x00,1) := if_pos (by omega)
    have hlow : ((v : ℤ)%0x100).toNat=v := by omega
    rw [guacUtf8Write,if_neg (by omega),hsize]
    dsimp only
    rw [if_neg (by omega),Nat.sub_self,writeTrailing,hlow,Nat.zero_or]
  split
  · next hne hv =>
    rw [if_neg hne,if_pos hv,length_cons,length_singleton] at h
    have hsize : utf8Size v=some (0xC0,2) := by
      rw [utf8Size,if_neg (by omega),if_pos (by omega)]
    rw [guacUtf8Write,if_neg (by omega),hsize]
    dsimp only
    rw [if_neg (by omega),writeTrailing_cast,writeTrailing]
    dsimp only
    rw [guacUtf8Write_initial (by decide : ∀ m<0x20, 0xC0 ||| m=m+0xC0) (by decide)
      (by omega)]
  split
  · next hne hne' hv =>
    rw [if_neg hne,if_neg hne',if_pos hv,length_cons,length_cons,
      length_singleton] at h
    have hsize : utf8Size v=some (0xE0,3) := by
      rw [utf8Size,if_neg (by omega),if_neg (by omega),if_pos (by omega)]
    rw [guacUtf8Write,if_neg (by omega),hsize]
    dsimp only
    rw [if_neg (by omega),writeTrailing_cast,writeTrailing_cast,writeTrailing]
    dsimp only
    rw [Nat.div_div_eq_div_mul,
      guacUtf8Write_initial (by decide : ∀ m<0x10, 0xE0 ||| m=m+0xE0) (by decide) (by omega)]
  · next hne hne' hne'' =>
    rw [if_neg hne,if_neg hne',if_neg hne'',length_cons,length_cons,
      length_cons,length_singleton] at h
    have hsize : utf8Size v=some (0xF0,4) := by
      rw [utf8Size,if_neg (by omega),if_neg (by omega),if_neg (by omega),if_pos (by omega)]
    rw [guacUtf8Write,if_neg (by omega),hsize]
    dsimp only
    rw [if_neg (by omega),writeTrailing_cast,writeTrailing_cast,writeTrailing_cast,writeTrailing]
    dsimp only
    have hfirst : v/0x40/0x40/0x40=v/262144 := by omega
    have hsecond : v/0x40/0x40=v/4096 := by omega
    rw [hfirst,hsecond,
      guacUtf8Write_initial (by decide : ∀ m<0x08, 0xF0 ||| m=m+0xF0) (by decide) (by omega)]

/-- A code point of Unicode is written as the encoded character, if there is
room for it. -/
theorem guacUtf8Write_encode (c : Char) {room : ℕ} (h : (String.utf8EncodeChar c).length≤room) :
    guacUtf8Write c.val.toNat room=String.utf8EncodeChar c :=
  guacUtf8Write_utf8Bytes (codepoint_le c) h

end GuacServer.Utf8Coding
