import GuacServer.Iconv

/-!
# Text converted to UTF-16 and back

A code point is written as one uint16_t, whatever its size, and read back as
one. What comes back is the text exactly if all of its code points fit.
-/

namespace GuacServer.Iconv

open Unicode Utf8Coding

/-- The bytes of a text as it is written to UTF-16. -/
def utf16Written (order : ByteOrder) (text : List Char) : List UInt8 :=
  text.flatMap fun c => order.bytes c.val.toNat

/-- The text is converted to UTF-16 with its terminator, and the result back to
the same text. -/
def RoundTrip (order : ByteOrder) (uninitialized uninitialized' : ℕ→ℤ) (text : List Char)
    (tail tail' : List UInt8) (size16 size8 : ℕ) : Prop :=
  ∃ r r', Converts order .utf8 .utf16 uninitialized (utf8Encode text++0::tail) size16 r ∧
    r.retval=1 ∧
    Converts order .utf16 .utf8 uninitialized' (r.output++tail') size8 r' ∧
    r'.retval=1 ∧ r'.output=utf8Encode text++[0]

/-- What is read of a written uint16_t are the lower bits of the code point. -/
theorem guacReadUtf16_bytes (order : ByteOrder) (v : ℕ) (tail : List UInt8) :
    guacReadUtf16 order (order.bytes v++tail)=(((v%0x10000 : ℕ) : ℤ),2) := by
  have hlow : ((v : ℤ)%0x100).toNat=v%0x100 := by omega
  have hhigh : ((v : ℤ)/0x100%0x100).toNat=v/0x100%0x100 := by omega
  have hvalue : v/0x100%0x100*0x100+v%0x100=v%0x10000 := by omega
  have hbyte : ∀ n, (UInt8.ofNat (n%0x100)).toNat=n%0x100 := fun n => by
    rw [UInt8.toNat_ofNat',Nat.mod_mod]
  cases order <;> unfold ByteOrder.bytes <;> dsimp only <;>
    rw [hlow,hhigh,List.cons_append,List.cons_append,guacReadUtf16] <;>
    unfold ByteOrder.value <;> dsimp only <;> rw [hbyte,hbyte,hvalue]

@[simp] theorem ByteOrder.length_bytes (order : ByteOrder) (v : ℤ) : (order.bytes v).length=2 := by
  cases order <;> rfl

section

variable {order : ByteOrder} {reader writer : Encoding} {uninitialized : ℕ→ℤ}
  {input : List UInt8} {outRemaining : ℕ} {r r' : IconvResult} {value : ℤ}
  {bytes rest : List UInt8}

/-- Nothing else is the result where the loop stops at once. -/
theorem Converts.eq_of_stop (hstop : input=[] ∨ outRemaining=0)
    (h : Converts order reader writer uninitialized input outRemaining r) :
    r=⟨0,input,[]⟩ := by
  obtain ⟨fuel,hfuel⟩ := h
  cases fuel <;> rw [guacIconv,if_pos hstop] at hfuel <;>
    exact (Option.some.inj hfuel).symm

/-- Nothing else is the result where the terminator is read. -/
theorem Converts.eq_of_terminator (hgoes : ¬(input=[] ∨ outRemaining=0))
    (hvalue : (reader.read order (uninitialized 0) input).1=0)
    (h : Converts order reader writer uninitialized input outRemaining r) :
    r=⟨1,input.drop (reader.read order (uninitialized 0) input).2,
        writer.write order outRemaining (reader.read order (uninitialized 0) input).1⟩ := by
  obtain ⟨fuel,hfuel⟩ := h
  cases fuel with
  | zero =>
    rw [guacIconv,if_neg hgoes] at hfuel
    cases hfuel
  | succ fuel =>
    rw [guacIconv,if_neg hgoes] at hfuel
    dsimp only at hfuel
    rw [if_pos hvalue] at hfuel
    exact (Option.some.inj hfuel).symm

/-- A conversion has one result. -/
theorem Converts.unique (h : Converts order reader writer uninitialized input outRemaining r)
    (h' : Converts order reader writer uninitialized input outRemaining r') : r=r' := by
  obtain ⟨fuel,hfuel⟩ := h
  induction fuel generalizing uninitialized input outRemaining r r' with
  | zero =>
    by_cases hstop : input=[] ∨ outRemaining=0
    · exact (Converts.eq_of_stop hstop ⟨0,hfuel⟩).trans (h'.eq_of_stop hstop).symm
    · rw [guacIconv,if_neg hstop] at hfuel
      cases hfuel
  | succ fuel ih =>
    by_cases hstop : input=[] ∨ outRemaining=0
    · exact (Converts.eq_of_stop hstop ⟨_,hfuel⟩).trans (h'.eq_of_stop hstop).symm
    by_cases hvalue : (reader.read order (uninitialized 0) input).1=0
    · exact (Converts.eq_of_terminator hstop hvalue ⟨_,hfuel⟩).trans
        (h'.eq_of_terminator hstop hvalue).symm
    · obtain ⟨r₁,hr₁,rfl⟩ := (converts_iff hstop hvalue r').mp h'
      rw [guacIconv,if_neg hstop] at hfuel
      dsimp only at hfuel
      rw [if_neg hvalue,Option.map_eq_some_iff] at hfuel
      obtain ⟨r₂,hr₂,rfl⟩ := hfuel
      rw [ih hr₁ hr₂]

/-- After some bytes were read as a value the conversion goes on with the rest. -/
theorem converts_append_iff (hne : bytes++rest≠[]) (hout : outRemaining≠0)
    (hread : reader.read order (uninitialized 0) (bytes++rest)=(value,bytes.length))
    (hvalue : value≠0) :
    Converts order reader writer uninitialized (bytes++rest) outRemaining r ↔
      ∃ r', Converts order reader writer (fun n => uninitialized (n+1)) rest
          (outRemaining-(writer.write order outRemaining value).length) r' ∧
        r'.after (writer.write order outRemaining value)=r := by
  rw [converts_iff (not_or.mpr ⟨hne,hout⟩) (by rw [hread]; exact hvalue),hread]
  dsimp only
  rw [List.drop_left]

/-- After some bytes were read as the terminator the conversion ends. -/
theorem converts_append_terminator (hne : bytes++rest≠[]) (hout : outRemaining≠0)
    (hread : reader.read order (uninitialized 0) (bytes++rest)=(0,bytes.length)) :
    Converts order reader writer uninitialized (bytes++rest) outRemaining
      ⟨1,rest,writer.write order outRemaining 0⟩ := by
  have h : Converts order reader writer uninitialized (bytes++rest) outRemaining _ :=
    converts_terminator (not_or.mpr ⟨hne,hout⟩) (congrArg Prod.fst hread)
  rw [hread] at h
  dsimp only at h
  rwa [List.drop_left] at h

end

/-- The zero character is encoded as the terminator. -/
theorem utf8EncodeChar_zero : String.utf8EncodeChar (Char.ofNat 0)=[0] := by decide

/-- Another character has another code point. -/
theorem codepoint_ne_zero {c : Char} (h : c≠Char.ofNat 0) : (c.val.toNat : ℤ)≠0 := by
  intro hzero
  refine h (Char.ext (UInt32.toNat_inj.mp ?_))
  exact_mod_cast hzero

/-- An encoded character is read as its code point. -/
theorem read_utf8_encode (order : ByteOrder) (value : ℤ) (c : Char) (tail : List UInt8) :
    Encoding.read order .utf8 value (String.utf8EncodeChar c++tail)=
      ((c.val.toNat : ℤ),(String.utf8EncodeChar c).length) := by
  rw [Encoding.read,guacReadUtf8,guacUtf8Read_encode]

/-- An encoded character has some bytes. -/
theorem utf8EncodeChar_append_ne_nil (c : Char) (tail : List UInt8) :
    String.utf8EncodeChar c++tail≠[] := by
  have hlength := String.length_utf8EncodeChar c
  have hpos := Char.utf8Size_pos c
  intro h
  rw [(List.append_eq_nil_iff.mp h).1,List.length_nil] at hlength
  omega

/-- A text is converted to UTF-16 in full. -/
theorem converts_utf16 (order : ByteOrder) {text : List Char}
    (hnul : ∀ c∈text, c≠Char.ofNat 0) (uninitialized : ℕ→ℤ) (tail : List UInt8)
    {size16 : ℕ} (hsize : 2*(text.length+1) ≤ size16) :
    Converts order .utf8 .utf16 uninitialized (utf8Encode text++0::tail) size16
      ⟨1,tail,utf16Written order text++order.bytes 0⟩ := by
  have hwrite : ∀ {room : ℕ} (value : ℤ), 2≤room →
      Encoding.write order .utf16 room value=order.bytes value := fun value hroom =>
    if_neg (Nat.not_lt.mpr hroom)
  induction text generalizing uninitialized size16 with
  | nil =>
    rw [List.length_nil] at hsize
    have hread := read_utf8_encode order (uninitialized 0) (Char.ofNat 0) tail
    have hend : Converts order .utf8 .utf16 uninitialized _ size16 _ :=
      converts_append_terminator (utf8EncodeChar_append_ne_nil _ tail) (by omega) hread
    rw [hwrite 0 (by omega),utf8EncodeChar_zero] at hend
    exact hend
  | cons c text ih =>
    rw [List.length_cons] at hsize
    obtain ⟨hc,htext⟩ := List.forall_mem_cons.mp hnul
    have hread := read_utf8_encode order (uninitialized 0) c (utf8Encode text++0::tail)
    rw [utf8Encode,List.flatMap_cons,List.append_assoc]
    refine (converts_append_iff (utf8EncodeChar_append_ne_nil c _) (by omega) hread
      (codepoint_ne_zero hc)).mpr ⟨_,ih htext _ ?_,?_⟩
    · rw [hwrite _ (by omega),ByteOrder.length_bytes]
      omega
    · rw [hwrite _ (by omega),IconvResult.after,utf16Written,utf16Written,List.flatMap_cons,
        List.append_assoc]

/-- A written uint16_t is read as the lower bits of the code point. -/
theorem read_utf16_bytes (order : ByteOrder) (value : ℤ) (v : ℕ) (tail : List UInt8) :
    Encoding.read order .utf16 value (order.bytes v++tail)=
      (((v%0x10000 : ℕ) : ℤ),(order.bytes v).length) := by
  rw [Encoding.read,guacReadUtf16_bytes,ByteOrder.length_bytes]

/-- There are some bytes of a written uint16_t. -/
theorem ByteOrder.bytes_append_ne_nil (order : ByteOrder) (v : ℤ) (tail : List UInt8) :
    order.bytes v++tail≠[] := by
  cases order <;> exact List.cons_ne_nil _ _

/-- A text of code points that fit is converted back in full. -/
theorem converts_utf8 (order : ByteOrder) {text : List Char}
    (hnul : ∀ c∈text, c≠Char.ofNat 0) (hfits : ∀ c∈text, c.val.toNat≤0xFFFF)
    (uninitialized : ℕ→ℤ) (tail : List UInt8) {size8 : ℕ}
    (hsize : (utf8Encode text).length+1 ≤ size8) :
    Converts order .utf16 .utf8 uninitialized
      (utf16Written order text++(order.bytes (0 : ℕ)++tail)) size8
      ⟨1,tail,utf8Encode text++[0]⟩ := by
  induction text generalizing uninitialized size8 with
  | nil =>
    have hread := read_utf16_bytes order (uninitialized 0) 0 tail
    have hend : Converts order .utf16 .utf8 uninitialized _ size8 _ :=
      converts_append_terminator (order.bytes_append_ne_nil _ tail) (by omega) hread
    have hwrite : guacUtf8Write 0 size8=String.utf8EncodeChar (Char.ofNat 0) :=
      guacUtf8Write_encode (Char.ofNat 0) (by rw [utf8EncodeChar_zero,List.length_singleton]; omega)
    rw [Encoding.write,guacWriteUtf8,hwrite,utf8EncodeChar_zero] at hend
    exact hend
  | cons c text ih =>
    obtain ⟨hc,hnul⟩ := List.forall_mem_cons.mp hnul
    obtain ⟨hfit,hfits⟩ := List.forall_mem_cons.mp hfits
    rw [utf8Encode,List.flatMap_cons,List.length_append] at hsize
    change _ + (utf8Encode text).length+1 ≤ size8 at hsize
    have hread := read_utf16_bytes order (uninitialized 0) c.val.toNat
      (utf16Written order text++(order.bytes (0 : ℕ)++tail))
    rw [Nat.mod_eq_of_lt (Nat.lt_succ_of_le hfit)] at hread
    have hwrite : guacUtf8Write c.val.toNat size8=_ := guacUtf8Write_encode c (by omega)
    rw [utf16Written,List.flatMap_cons,List.append_assoc]
    refine (converts_append_iff (order.bytes_append_ne_nil _ _) (by omega) hread
      (codepoint_ne_zero hc)).mpr ⟨_,ih hnul hfits _ ?_,?_⟩
    · rw [Encoding.write,guacWriteUtf8,hwrite]
      omega
    · rw [Encoding.write,guacWriteUtf8,hwrite,IconvResult.after,utf8Encode,utf8Encode,
        List.flatMap_cons,List.append_assoc]

/-- A code point that fits has a first byte of three bytes at most. -/
theorem guacUtf8Write_head {v room : ℕ} (hv : v≤0xFFFF) (hroom : 3≤room) :
    ∃ initial utf8, guacUtf8Write v room=initial::utf8 ∧ initial<0xF0 := by
  have h1 : ∀ n<0x80, UInt8.ofNat (0x00 ||| n)<0xF0 := by decide
  have h2 : ∀ n<0x20, UInt8.ofNat (0xC0 ||| n)<0xF0 := by decide
  have h3 : ∀ n<0x10, UInt8.ofNat (0xE0 ||| n)<0xF0 := by decide
  rw [guacUtf8Write,if_neg (by omega)]
  unfold utf8Size
  split_ifs
  · exact ⟨_,_,if_neg (by omega),h1 _ (by omega)⟩
  · exact ⟨_,_,if_neg (by omega),h2 _ (by omega)⟩
  · exact ⟨_,_,if_neg (by omega),h3 _ (by omega)⟩
  · omega
  · omega

/-- A character beyond the first 0x10000 has a first byte of four. -/
theorem utf8EncodeChar_head {c : Char} (h : 0xFFFF<c.val.toNat) :
    ∃ initial utf8, String.utf8EncodeChar c=initial::utf8 ∧ 0xF0 ≤ initial := by
  unfold String.utf8EncodeChar
  dsimp only
  have hhead : ∀ n<0x08, (0xF0 : UInt8)≤UInt8.ofNat (n+0xF0) := by decide
  rw [if_neg (by omega),if_neg (by omega),if_neg (by omega)]
  exact ⟨_,_,rfl,hhead _ (Nat.mod_lt _ (by decide))⟩

/-- A text is converted back to itself only if its code points fit. -/
theorem fits_of_converts {order : ByteOrder} {text : List Char}
    (hnul : ∀ c∈text, c≠Char.ofNat 0) {uninitialized : ℕ→ℤ} {tail : List UInt8} {size8 : ℕ}
    (hsize : (utf8Encode text).length+1 ≤ size8) {r : IconvResult}
    (h : Converts order .utf16 .utf8 uninitialized (utf16Written order text++tail) size8 r)
    (hout : r.output=utf8Encode text++[0]) : ∀ c∈text, c.val.toNat≤0xFFFF := by
  induction text generalizing uninitialized size8 r with
  | nil => exact fun _ hmem => absurd hmem (List.not_mem_nil)
  | cons c text ih =>
    obtain ⟨hc,hnul⟩ := List.forall_mem_cons.mp hnul
    have hencode : utf8Encode (c::text)=String.utf8EncodeChar c++utf8Encode text :=
      List.flatMap_cons
    rw [hencode,List.length_append] at hsize
    rw [hencode,List.append_assoc] at hout
    rw [utf16Written,List.flatMap_cons,List.append_assoc] at h
    have hread := read_utf16_bytes order (uninitialized 0) c.val.toNat
      (utf16Written order text++tail)
    by_cases hfit : c.val.toNat≤0xFFFF
    · rw [Nat.mod_eq_of_lt (Nat.lt_succ_of_le hfit)] at hread
      obtain ⟨r',hr',rfl⟩ := (converts_append_iff (order.bytes_append_ne_nil _ _) (by omega)
        hread (codepoint_ne_zero hc)).mp h
      have hwrite : guacUtf8Write c.val.toNat size8=_ := guacUtf8Write_encode c (by omega)
      rw [Encoding.write,guacWriteUtf8,hwrite] at hr' hout
      refine List.forall_mem_cons.mpr ⟨hfit,ih hnul ?_ hr' (List.append_cancel_left hout)⟩
      omega
    · -- the character is written as one whose first byte is smaller
      exfalso
      have hlength : (String.utf8EncodeChar c).length=4 := by
        rw [String.length_utf8EncodeChar,Char.utf8Size_eq_four_iff]
        exact UInt32.lt_iff_toNat_lt.mpr (Nat.lt_of_not_le hfit)
      obtain ⟨initial,utf8,hhead,hlarge⟩ := utf8EncodeChar_head (Nat.lt_of_not_le hfit)
      have hlow : c.val.toNat%0x10000≤0xFFFF := by omega
      have hroom : 3 ≤ size8 := by omega
      obtain ⟨initial',utf8',hwrite,hsmall⟩ := guacUtf8Write_head hlow hroom
      have hfirst : ∃ rest, r.output=initial' :: rest := by
        by_cases hzero : c.val.toNat%0x10000=0
        · rw [hzero] at hread hwrite
          have hend : Converts order .utf16 .utf8 uninitialized _ size8 _ :=
            converts_append_terminator (order.bytes_append_ne_nil _ _) (by omega) hread
          exact ⟨utf8',(congrArg IconvResult.output (h.unique hend)).trans hwrite⟩
        · obtain ⟨r',-,rfl⟩ := (converts_append_iff (order.bytes_append_ne_nil _ _) (by omega)
            hread (by exact_mod_cast hzero)).mp h
          refine ⟨utf8' ++ r'.output,?_⟩
          rw [IconvResult.after,Encoding.write,guacWriteUtf8,hwrite,List.cons_append]
      obtain ⟨rest,hrest⟩ := hfirst
      rw [hrest,hhead,List.cons_append] at hout
      rw [(List.cons.inj hout).1] at hsmall
      exact absurd hsmall (UInt8.not_lt.mpr hlarge)

/-- The text comes back from UTF-16 exactly if no code point of it is beyond
0xFFFF. -/
theorem guacIconv_roundTrip_iff (order : ByteOrder) (uninitialized uninitialized' : ℕ→ℤ)
    (text : List Char) (hnul : ∀ c∈text, c≠Char.ofNat 0) (tail tail' : List UInt8)
    (size16 size8 : ℕ) (h16 : 2*(text.length+1) ≤ size16)
    (h8 : (utf8Encode text).length+1 ≤ size8) :
    RoundTrip order uninitialized uninitialized' text tail tail' size16 size8 ↔
      ∀ c∈text, c.val.toNat≤0xFFFF := by
  have hto := converts_utf16 order hnul uninitialized tail h16
  constructor
  · rintro ⟨r,r',hr,-,hr',-,hout⟩
    rw [hr.unique hto,List.append_assoc] at hr'
    exact fits_of_converts hnul h8 hr' hout
  · intro hfits
    have hfrom := converts_utf8 order hnul hfits uninitialized' tail' h8
    rw [←List.append_assoc] at hfrom
    exact ⟨_,_,hto,rfl,hfrom,rfl,rfl⟩

/-- A text of one character in each size comes back, if that is at most three. -/
theorem guacIconv_roundTrip_sizes :
    RoundTrip .little (fun _ => 0) (fun _ => 0) ['a', 'é', '€'] [] [] 8 7 :=
  (guacIconv_roundTrip_iff .little (fun _ => 0) (fun _ => 0) ['a','é','€']
    (forall_mem_of_all (by decide)) [] [] 8 7 (by decide) (by decide)).mpr
      (forall_mem_of_all (by decide))

/-- A face does not come back. -/
theorem guacIconv_roundTrip_face :
    ¬RoundTrip .little (fun _ => 0) (fun _ => 0) ['😀'] [] [] 6 5 := by
  have hnul : ∀ c∈['😀'], c≠Char.ofNat 0 := List.forall_mem_singleton.mpr (by decide)
  rintro ⟨r,r',hr,-,hr',-,hout⟩
  rw [hr.unique (converts_utf16 .little hnul _ [] (by decide)),List.append_assoc] at hr'
  have hfits := fits_of_converts hnul (by decide) hr' hout
  exact absurd (hfits '😀' (List.mem_singleton_self _)) (by decide)

end GuacServer.Iconv
