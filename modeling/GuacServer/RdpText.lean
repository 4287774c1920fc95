import GuacServer.RdpUnicode

/-!
# Surrogates in text of the RDP server

In UTF-16 a character beyond the first 65536 is a pair of units. Both directions of the
conversion take a unit for a character, so that they are right for text without such
characters, as far as the terminator finds room.
-/

namespace GuacServer.RdpUnicode

open StringBuffers Unicode Utf8Coding

/-- The units of a character. -/
def utf16EncodeChar (c : Char) : List UInt16 :=
  if c.val.toNat≤0xFFFF then [UInt16.ofNat c.val.toNat]
  else
    [UInt16.ofNat (0xD800+(c.val.toNat-0x10000)/0x400),
      UInt16.ofNat (0xDC00+(c.val.toNat-0x10000)%0x400)]

/-- Standard UTF-16 encoding of Unicode text; a specification only. -/
def utf16Encode (text : List Char) : List UInt16 := text.flatMap utf16EncodeChar

/-- All characters of a text are single units. -/
def WithoutPairs (text : List Char) : Prop := ∀ c∈text, c.val.toNat≤0xFFFF

instance (text : List Char) : Decidable (WithoutPairs text) :=
  inferInstanceAs (Decidable (∀ c∈text, c.val.toNat≤0xFFFF))

theorem withoutPairs_cons {c : Char} {text : List Char} :
    WithoutPairs (c::text) ↔ c.val.toNat≤0xFFFF ∧ WithoutPairs text := by
  unfold WithoutPairs
  exact List.forall_mem_cons

/-- What guac_rdp_utf16_to_utf8 stores, from the start of the destination on. -/
def storedUtf8 (utf16 : List UInt16) (size : ℕ) : List UInt8 := writeUnits utf16 size++[0]

theorem utf16ToUtf8_eq_stored (utf16 : List UInt16) (size : ℕ) : guacRdpUtf16ToUtf8 utf16 size=
      ⟨cString (storedUtf8 utf16 size),(storedUtf8 utf16 size).length⟩ := by
  rw [storedUtf8,cString_terminated,List.length_append]
  rfl

/-- Units are converted within the destination, and if they are the encoding of a text that
fits there, to that text. -/
def ConvertsUnits (utf16 : List UInt16) (size : ℕ) : Prop :=
  (storedUtf8 utf16 size).length ≤ size ∧
    ∀ text, utf16=utf16Encode text→(utf8Encode text).length+1 ≤ size →
      storedUtf8 utf16 size=utf8Encode text++[0]

/-- A single unit is the code point of its character. -/
theorem utf16EncodeChar_single {c : Char} (h : c.val.toNat≤0xFFFF) :
    ∃ codepoint : UInt16, utf16EncodeChar c=[codepoint] ∧ codepoint.toNat=c.val.toNat := by
  refine ⟨UInt16.ofNat c.val.toNat,if_pos h,?_⟩
  rw [UInt16.toNat_ofNat']
  exact Nat.mod_eq_of_lt (Nat.lt_succ_of_le h)

/-- A pair starts with a high surrogate. -/
theorem utf16EncodeChar_pair {c : Char} (h : ¬c.val.toNat≤0xFFFF) :
    ∃ high low : UInt16, utf16EncodeChar c=[high,low] ∧ 0xD800≤high.toNat ∧ high.toNat<0xDC00 := by
  have hvalid := c.valid
  unfold UInt32.isValidChar Nat.isValidChar at hvalid
  have hhigh : 0xD800+(c.val.toNat-0x10000)/0x400<0xDC00 := by omega
  refine ⟨_,_,if_neg h,?_⟩
  rw [UInt16.toNat_ofNat',Nat.mod_eq_of_lt (by omega)]
  exact ⟨Nat.le_add_right ..,hhigh⟩

/-- A surrogate is written as a character of three bytes, of which the first is the same for
all. -/
theorem utf8Write_surrogate {v : ℕ} (hlow : 0xD800≤v) (hhigh : v<0xDC00) {room : ℕ}
    (hroom : 3≤room) : (guacUtf8Write v room).head? = some 0xED := by
  have hbytes : utf8Bytes v=[0xED,UInt8.ofNat (v/64%0x40+0x80),UInt8.ofNat (v%0x40+0x80)] := by
    have hfirst : v/4096%0x10+0xe0=0xED := by omega
    unfold utf8Bytes
    rw [if_neg (by omega),if_neg (by omega),if_pos (by omega),hfirst]
    rfl
  rw [guacUtf8Write_utf8Bytes (by omega) (by rw [hbytes]; exact hroom),hbytes]
  rfl

/-- A character that is a pair takes four bytes, which start differently. -/
theorem utf8EncodeChar_pair {c : Char} (h : ¬c.val.toNat≤0xFFFF) :
    (String.utf8EncodeChar c).length=4 ∧ (String.utf8EncodeChar c).head? ≠ some 0xED := by
  have hfirst : ∀ n<8, UInt8.ofNat (n+0xf0)≠0xED := by decide
  rw [utf8EncodeChar_eq,utf8Bytes,if_neg (by omega),if_neg (by omega),if_neg h]
  refine ⟨rfl,fun hhead => ?_⟩
  exact hfirst _ (Nat.mod_lt _ (by decide)) (Option.some.inj hhead)

/-- Where there is room for the encoding of a text, it is written exactly if the text has no
pairs. -/
theorem writeUnits_eq_iff (text : List Char) {size : ℕ} (h : (utf8Encode text).length ≤ size) :
    writeUnits (utf16Encode text) size=utf8Encode text ↔ WithoutPairs text := by
  induction text generalizing size with
  | nil => exact iff_of_true rfl (List.forall_mem_nil _)
  | cons c text ih =>
    have hlength : (utf8Encode (c::text)).length=
        (String.utf8EncodeChar c).length+(utf8Encode text).length := List.length_append
    have hcons : utf16Encode (c::text)=utf16EncodeChar c++utf16Encode text := rfl
    have hutf8 : utf8Encode (c::text)=String.utf8EncodeChar c++utf8Encode text := rfl
    by_cases hsingle : c.val.toNat≤0xFFFF
    · obtain ⟨codepoint,hunits,hvalue⟩ := utf16EncodeChar_single hsingle
      have hroom : (utf8Encode text).length ≤ size-(String.utf8EncodeChar c).length := by omega
      rw [hcons,hunits,List.singleton_append,writeUnits,hvalue,
        guacUtf8Write_encode c (by omega),hutf8,List.append_right_inj,ih hroom]
      exact (withoutPairs_cons.trans (and_iff_right hsingle)).symm
    · obtain ⟨high,low,hunits,hlow,hhigh⟩ := utf16EncodeChar_pair hsingle
      obtain ⟨hfour,hhead⟩ := utf8EncodeChar_pair hsingle
      refine iff_of_false (fun hsame => hhead ?_) fun hall => hsingle (hall c (.head _))
      have hfirst := utf8Write_surrogate hlow hhigh (by omega : 3 ≤ size)
      have hwritten := congrArg List.head? hsame
      rw [hcons,hunits,hutf8] at hwritten
      simpa [writeUnits,hfirst] using hwritten.symm

/-- Units are converted exactly if their characters do not fill the destination and they are
not the encoding of a text with pairs that fits there. -/
theorem convertsUnits_iff (utf16 : List UInt16) (size : ℕ) :
    ConvertsUnits utf16 size ↔ 0<spaceLeft utf16 size ∧
      ∀ text, utf16=utf16Encode text→(utf8Encode text).length+1 ≤ size → WithoutPairs text := by
  have hspace := @written_utf16ToUtf8_le_iff utf16 size
  rw [utf16ToUtf8_eq_stored] at hspace
  unfold ConvertsUnits
  rw [hspace]
  refine and_congr_right' (forall_congr' fun text => forall_congr' fun hunits =>
    forall_congr' fun hfits => ?_)
  rw [storedUtf8,List.append_left_inj,hunits]
  exact writeUnits_eq_iff text (Nat.le_of_succ_le hfits)

/-! ## To UTF-16 -/

/-- A text has at least as many units as characters, and as many exactly if it has no pairs. -/
theorem length_utf16Encode (text : List Char) : text.length≤(utf16Encode text).length ∧
      ((utf16Encode text).length≤text.length ↔ WithoutPairs text) := by
  induction text with
  | nil => exact ⟨le_refl _,iff_of_true (le_refl _) (List.forall_mem_nil _)⟩
  | cons c text ih =>
    have hlength : (utf16Encode (c::text)).length=
        (utf16EncodeChar c).length+(utf16Encode text).length := List.length_append
    rw [withoutPairs_cons,←ih.2,hlength,List.length_cons]
    by_cases hsingle : c.val.toNat≤0xFFFF
    · obtain ⟨codepoint,hunits,-⟩ := utf16EncodeChar_single hsingle
      rw [hunits,List.length_singleton,and_iff_right hsingle]
      omega
    · obtain ⟨high,low,hunits,-⟩ := utf16EncodeChar_pair hsingle
      rw [hunits,List.length_cons,List.length_singleton]
      omega

/-- A text without pairs is converted to its encoding, if there is room for it. -/
theorem utf8ToUtf16_encode {text : List Char} (h : WithoutPairs text) (behind : List UInt8)
    {size : ℕ} (hsize : 2*text.length ≤ size) :
    guacRdpUtf8ToUtf16 text.length (utf8Encode text++behind) size=utf16Encode text := by
  induction text generalizing size with
  | nil => rfl
  | cons c text ih =>
    obtain ⟨hsingle,hrest⟩ := withoutPairs_cons.mp h
    have hutf8 : utf8Encode (c::text)=String.utf8EncodeChar c++utf8Encode text := rfl
    have hutf16 : utf16Encode (c::text)=utf16EncodeChar c++utf16Encode text := rfl
    have hwidth : (String.utf8EncodeChar c).length≤4 := by
      rw [String.length_utf8EncodeChar]
      exact c.utf8Size_le_four
    have hunits : utf16EncodeChar c=[UInt16.ofNat c.val.toNat] := if_pos hsingle
    rw [List.length_cons] at hsize ⊢
    rw [guacRdpUtf8ToUtf16,hutf8,List.append_assoc,List.take_append,
      List.take_of_length_le hwidth,guacUtf8Read_encode,hutf16,hunits]
    dsimp only
    rw [List.drop_left,List.singleton_append]
    split_ifs with hfull
    · have hnone : text=[] := List.length_eq_zero_iff.mp (by omega)
      rw [hnone]
      rfl
    · rw [ih hrest (by omega)]

/-- Of a pair each half is converted for itself. -/
theorem not_convertsUnits_pair : ¬ConvertsUnits [0xD83D,0xDE00] 16 := by
  intro h
  have hstored := h.2 [Char.ofNat 0x1F600] rfl (by decide)
  rw [storedUtf8,List.append_left_inj] at hstored
  have hpairs := (writeUnits_eq_iff [Char.ofNat 0x1F600] (by decide : _ ≤ 16)).mp hstored
  exact absurd (List.forall_mem_singleton.mp hpairs) (by decide)

end GuacServer.RdpUnicode
