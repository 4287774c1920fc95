import GuacServer.StringBuffers
import GuacServer.Utf8Coding

/-!
# Text of the RDP server

Text is converted between UTF-8 and the UTF-16 of the server one unit at a time, so that
every unit stands for a character of its own. Characters that do not fit into a buffer are
left out, but room for the terminator is not kept free.
-/

namespace GuacServer.RdpUnicode

open StringBuffers Unicode Utf8Coding

/-- The loop of guac_rdp_utf16_to_utf8: the bytes written into so much space. -/
def writeUnits : List UInt16→ℕ→List UInt8
  | [], _ => []
  | codepoint::utf16, size =>
    let written := guacUtf8Write codepoint.toNat size
    written++writeUnits utf16 (size-written.length)

/-- guac_rdp_utf16_to_utf8: the terminator is written behind the characters. -/
def guacRdpUtf16ToUtf8 (utf16 : List UInt16) (size : ℕ) : StringBuffer :=
  let utf8 := writeUnits utf16 size
  ⟨cString utf8,utf8.length+1⟩

/-- guac_rdp_utf8_to_utf16: the units written for so many characters, as long as there is
memory with them. The space is checked after a unit is written. -/
def guacRdpUtf8ToUtf16 : ℕ→List UInt8→ℕ→List UInt16
  | 0, _, _ => []
  | length+1, utf8, size =>
    match guacUtf8Read (utf8.take 4) with
    | none => []
    | some (codepoint,bytes) =>
      UInt16.ofNat codepoint::
        if size-2<2 then [] else guacRdpUtf8ToUtf16 length (utf8.drop bytes) (size-2)

/-- The bytes that a unit takes. -/
def unitWidth (codepoint : UInt16) : ℕ :=
  if codepoint.toNat≤0x7F then 1 else if codepoint.toNat≤0x7FF then 2 else 3

/-- What is left of a space behind characters, of which those that find no room take none. -/
def spaceLeft : List UInt16→ℕ→ℕ
  | [], size => size
  | codepoint::utf16, size =>
    spaceLeft utf16 (if unitWidth codepoint ≤ size then size-unitWidth codepoint else size)

/-- A character is written as a whole or not at all. -/
theorem length_guacUtf8Write (codepoint : UInt16) (room : ℕ) :
    (guacUtf8Write codepoint.toNat room).length=
      if unitWidth codepoint≤room then unitWidth codepoint else 0 := by
  have hlt := codepoint.toNat_lt
  have hsize : ∃ mask, utf8Size codepoint.toNat=some (mask,unitWidth codepoint) := by
    unfold utf8Size unitWidth
    split_ifs <;> first | exact ⟨_,rfl⟩ | omega
  have hwidth : 0<unitWidth codepoint := by
    unfold unitWidth
    split_ifs <;> decide
  obtain ⟨mask,hsize⟩ := hsize
  rw [guacUtf8Write,hsize]
  by_cases hfits : unitWidth codepoint≤room
  · have hroom : room≠0 := by omega
    simp only [hroom,if_false,Nat.not_lt.mpr hfits,List.length_cons,
      length_writeTrailing,List.length_nil,hfits,if_true]
    omega
  · by_cases hroom : room=0
    · simp [hroom,hwidth.ne']
    · simp [hroom,hfits]

/-- The characters take what is not left of the space. -/
theorem length_writeUnits_add (utf16 : List UInt16) (size : ℕ) :
    (writeUnits utf16 size).length+spaceLeft utf16 size=size := by
  induction utf16 generalizing size with
  | nil => exact Nat.zero_add size
  | cons codepoint utf16 ih =>
    have hrest := ih (size-(guacUtf8Write codepoint.toNat size).length)
    rw [length_guacUtf8Write] at hrest
    rw [writeUnits,List.length_append,length_guacUtf8Write,spaceLeft]
    split_ifs at hrest ⊢
    · omega
    · simpa using hrest

/-- The terminator stays within the space too, if the characters have not filled it. -/
theorem written_utf16ToUtf8_le_iff {utf16 : List UInt16} {size : ℕ} :
    (guacRdpUtf16ToUtf8 utf16 size).written ≤ size ↔ 0<spaceLeft utf16 size := by
  have hspace := length_writeUnits_add utf16 size
  simp only [guacRdpUtf16ToUtf8]
  omega

/-- The units stay within the space, if there is any. -/
theorem length_utf8ToUtf16_le (length : ℕ) (utf8 : List UInt8) {size : ℕ} (h : 2 ≤ size) :
    2*(guacRdpUtf8ToUtf16 length utf8 size).length ≤ size := by
  induction length generalizing utf8 size with
  | zero => exact Nat.zero_le size
  | succ length ih =>
    rw [guacRdpUtf8ToUtf16]
    cases guacUtf8Read (utf8.take 4) with
    | none => exact Nat.zero_le size
    | some read =>
      obtain ⟨codepoint,bytes⟩ := read
      by_cases hfull : size-2<2
      · simpa [hfull] using h
      · have hrest := ih (utf8.drop bytes) (Nat.not_lt.mp hfull)
        simp only [hfull,if_false,List.length_cons]
        omega

end GuacServer.RdpUnicode
