import Mathlib.Data.List.TakeWhile
import Mathlib.Tactic.Ring

/-!
# Character sizes and lengths of UTF-8 text

The routines of unicode.c that the protocol writer and the parser share. A
character is delimited by its first byte alone, exactly as the code does; the
standard encoding of Unicode text enters only as a specification, through the
proof that the code's sizes agree with it. Strings are byte lists, read up to
their first zero byte, and the end of the list stands for the terminator.
-/

namespace GuacServer.Unicode

/-- Bytes of an ASCII literal of the source. -/
def ascii (s : String) : List UInt8 := s.toList.map fun c => c.toNat.toUInt8

/-- What is checked for one element of a list after the other holds of all. -/
theorem forall_mem_of_all {α : Type} {p : α→Prop} [DecidablePred p] {l : List α}
    (h : l.all fun c => decide (p c)) : ∀ c∈l, p c :=
  fun c hc => of_decide_eq_true (List.all_eq_true.mp h c hc)

/-- The contents of a C string stored at the head of the given bytes. -/
def cString (bytes : List UInt8) : List UInt8 := bytes.takeWhile (· ≠ 0)

/-- A zero byte ends the string whatever follows it. -/
theorem cString_terminated (s tail : List UInt8) : cString (s++0::tail)=cString s := by
  induction s with
  | nil => simp [cString]
  | cons b s ih =>
    unfold cString at ih ⊢
    by_cases hb : b=0
    · simp [hb]
    · simpa [hb] using ih

/-- Bytes free of zeros are a string in full. -/
theorem cString_of_ne_zero {s : List UInt8} (h : ∀ b∈s, b≠0) : cString s=s := by
  rw [cString,List.takeWhile_eq_self_iff]
  simpa using h

/-- Size in bytes of the character whose first byte is given, by the four
prefix tests of the code, with every other byte counted as one character. -/
def guacUtf8Charsize (c : UInt8) : ℕ :=
  if c ||| 0x7F=0x7F then 1
  else if c ||| 0x1F=0xDF then 2
  else if c ||| 0x0F=0xEF then 3
  else if c ||| 0x07=0xF7 then 4
  else 1

/-- Every character has at least one byte and at most four. -/
theorem guacUtf8Charsize_bounds (c : UInt8) : 1≤guacUtf8Charsize c ∧ guacUtf8Charsize c≤4 := by
  unfold guacUtf8Charsize
  repeat' split
  all_goals omega

/-- An ASCII byte is a character of its own. -/
theorem guacUtf8Charsize_ascii {c : UInt8} (h : c.toNat<128) : guacUtf8Charsize c=1 := by
  have hall : ∀ n<128, guacUtf8Charsize (UInt8.ofNat n)=1 := by decide
  simpa using hall c.toNat h

/-- The loop of guac_utf8_strlen: `skip` trailing bytes are passed over, then
the next byte starts a character and fixes the following skip. -/
def strlenLoop : ℕ→ℕ→List UInt8→ℕ
  | _, length, [] => length
  | skip, length, c::str =>
    if c=0 then length
    else if 0<skip then strlenLoop (skip-1) length str
    else strlenLoop (guacUtf8Charsize c-1) (length+1) str

/-- Number of characters of a string, as the protocol writer counts them. -/
def guacUtf8Strlen (str : List UInt8) : ℕ := strlenLoop 0 0 str

/-- The count ends at the first zero byte. -/
theorem strlenLoop_terminated (skip length : ℕ) (s tail : List UInt8) :
    strlenLoop skip length (s++0::tail)=strlenLoop skip length s := by
  induction s generalizing skip length with
  | nil => rfl
  | cons c s ih => simp only [List.cons_append,strlenLoop,ih]

/-- One character as the code delimits it: the size of its byte sequence is
the one its first byte announces. -/
structure CharBytes where
  /-- First byte, which fixes the size. -/
  lead : UInt8
  /-- All following bytes, of any value. -/
  rest : List UInt8
  /-- The sequence is complete and nothing follows it. -/
  size : rest.length+1=guacUtf8Charsize lead
  deriving DecidableEq

/-- The bytes of one character. -/
def CharBytes.bytes (c : CharBytes) : List UInt8 := c.lead::c.rest

/-- The bytes of a sequence of characters. -/
def textBytes (cs : List CharBytes) : List UInt8 := cs.flatMap CharBytes.bytes

@[simp] theorem CharBytes.length_bytes (c : CharBytes) :
    c.bytes.length=guacUtf8Charsize c.lead := c.size

@[simp] theorem textBytes_nil : textBytes []=[] := rfl

@[simp] theorem textBytes_cons (c : CharBytes) (cs : List CharBytes) :
    textBytes (c::cs)=c.bytes++textBytes cs := rfl

/-- A text has at least as many bytes as characters. -/
theorem length_le_textBytes (cs : List CharBytes) : cs.length≤(textBytes cs).length := by
  induction cs with
  | nil => exact Nat.le_refl _
  | cons c cs ih =>
    have hc := (guacUtf8Charsize_bounds c.lead).1
    simp only [textBytes_cons,List.length_cons,List.length_append,CharBytes.length_bytes]
    omega

/-- Skipping passes over exactly the announced number of bytes. -/
theorem strlenLoop_skip {skipped : List UInt8} (h : ∀ b∈skipped, b≠0)
    (length : ℕ) (str : List UInt8) :
    strlenLoop skipped.length length (skipped++str)=strlenLoop 0 length str := by
  induction skipped with
  | nil => rfl
  | cons b skipped ih =>
    have hb : b≠0 := h b (List.mem_cons_self ..)
    rw [List.cons_append,strlenLoop,if_neg hb,if_pos (by simp),List.length_cons]
    exact ih fun b' hb' => h b' (List.mem_cons_of_mem _ hb')

/-- The loop counts one for every character of a text without zero bytes. -/
theorem strlenLoop_text (cs : List CharBytes) (h : ∀ b∈textBytes cs, b≠0) (length : ℕ) :
    strlenLoop 0 length (textBytes cs)=length+cs.length := by
  induction cs generalizing length with
  | nil => rfl
  | cons c cs ih =>
    rw [textBytes_cons] at h
    have hlead : c.lead≠0 := h c.lead (by simp [CharBytes.bytes])
    have hrest : ∀ b∈c.rest, b≠0 := fun b hb => h b (by simp [CharBytes.bytes,hb])
    have htail : ∀ b∈textBytes cs, b≠0 := fun b hb => h b (List.mem_append_right _ hb)
    have hskip : guacUtf8Charsize c.lead-1=c.rest.length := by rw [←c.size]; omega
    rw [textBytes_cons,CharBytes.bytes,List.cons_append,strlenLoop,if_neg hlead,
      if_neg (by omega),hskip,strlenLoop_skip hrest,ih htail,List.length_cons]
    omega

/-- The writer's count is the number of characters the parser will delimit. -/
theorem guacUtf8Strlen_text {cs : List CharBytes} (h : ∀ b∈textBytes cs, b≠0) :
    guacUtf8Strlen (textBytes cs)=cs.length := by
  rw [guacUtf8Strlen,strlenLoop_text cs h,Nat.zero_add]

/-- Standard UTF-8 encoding of Unicode text; a specification only. -/
def utf8Encode (text : List Char) : List UInt8 := text.flatMap String.utf8EncodeChar

/-- The encoding of a code point of at most 21 bits, as that of a Unicode character. -/
def utf8Bytes (v : ℕ) : List UInt8 :=
  if v≤0x7f then [UInt8.ofNat v]
  else if v≤0x7ff then [UInt8.ofNat (v/64%0x20+0xc0),UInt8.ofNat (v%0x40+0x80)]
  else if v≤0xffff then
    [UInt8.ofNat (v/4096%0x10+0xe0),UInt8.ofNat (v/64%0x40+0x80),UInt8.ofNat (v%0x40+0x80)]
  else
    [UInt8.ofNat (v/262144%0x08+0xf0),UInt8.ofNat (v/4096%0x40+0x80),
      UInt8.ofNat (v/64%0x40+0x80),UInt8.ofNat (v%0x40+0x80)]

theorem utf8EncodeChar_eq (c : Char) : String.utf8EncodeChar c=utf8Bytes c.val.toNat := rfl

/-- The code reads the size of every encoded code point correctly from its first byte, for all
four encoded lengths. -/
theorem utf8Bytes_charsize (v : ℕ) :
    ∃ lead rest, utf8Bytes v=lead::rest ∧ rest.length+1=guacUtf8Charsize lead := by
  have h1 : ∀ n≤0x7f, guacUtf8Charsize (UInt8.ofNat n)=1 := by decide
  have h2 : ∀ n<0x20, guacUtf8Charsize (UInt8.ofNat (n+0xc0))=2 := by decide
  have h3 : ∀ n<0x10, guacUtf8Charsize (UInt8.ofNat (n+0xe0))=3 := by decide
  have h4 : ∀ n<0x08, guacUtf8Charsize (UInt8.ofNat (n+0xf0))=4 := by decide
  unfold utf8Bytes
  split
  · exact ⟨_,_,rfl,(h1 _ (by assumption)).symm⟩
  split
  · exact ⟨_,_,rfl,(h2 _ (Nat.mod_lt _ (by decide))).symm⟩
  split
  · exact ⟨_,_,rfl,(h3 _ (Nat.mod_lt _ (by decide))).symm⟩
  · exact ⟨_,_,rfl,(h4 _ (Nat.mod_lt _ (by decide))).symm⟩

theorem utf8EncodeChar_charsize (c : Char) :
    ∃ lead rest, String.utf8EncodeChar c=lead::rest ∧ rest.length+1=guacUtf8Charsize lead :=
  utf8Bytes_charsize c.val.toNat

/-- Only code point zero encodes with a zero byte. -/
theorem utf8Bytes_ne_zero {v : ℕ} (hv : v≠0) : ∀ b∈utf8Bytes v, b≠0 := by
  have hbyte : ∀ n<256, n≠0→UInt8.ofNat n≠0 := by
    intro n hn hne hzero
    have hmod : n%256=0 := by simpa using congrArg UInt8.toNat hzero
    omega
  intro b hb
  unfold utf8Bytes at hb
  split at hb
  · simp only [List.mem_cons,List.not_mem_nil,or_false] at hb
    exact hb ▸ hbyte _ (by omega) hv
  split at hb
  · simp only [List.mem_cons,List.not_mem_nil,or_false] at hb
    rcases hb with rfl | rfl <;> exact hbyte _ (by omega) (by omega)
  split at hb
  · simp only [List.mem_cons,List.not_mem_nil,or_false] at hb
    rcases hb with rfl | rfl | rfl <;> exact hbyte _ (by omega) (by omega)
  · simp only [List.mem_cons,List.not_mem_nil,or_false] at hb
    rcases hb with rfl | rfl | rfl | rfl <;> exact hbyte _ (by omega) (by omega)

theorem utf8EncodeChar_ne_zero {c : Char} (h : c≠Char.ofNat 0) : ∀ b∈String.utf8EncodeChar c, b≠0 :=
  utf8Bytes_ne_zero fun hz => h (Char.ext (UInt32.toNat_inj.mp hz))

/-- The encoding of a character, delimited as the code does. -/
def utf8Char (c : Char) : CharBytes :=
  ⟨(String.utf8EncodeChar c).headD 0,(String.utf8EncodeChar c).tail,by
    obtain ⟨lead,rest,hc,hsize⟩ := utf8EncodeChar_charsize c
    rw [hc]
    exact hsize⟩

/-- Encoded text is the sequence of its characters. -/
theorem utf8Encode_textBytes (text : List Char) :
    textBytes (text.map utf8Char)=utf8Encode text := by
  induction text with
  | nil => rfl
  | cons c text ih =>
    obtain ⟨lead,rest,hc,-⟩ := utf8EncodeChar_charsize c
    have hbytes : (utf8Char c).bytes=String.utf8EncodeChar c := by
      rw [CharBytes.bytes,utf8Char]
      dsimp only
      rw [hc]
      rfl
    rw [List.map_cons,textBytes_cons,ih,hbytes]
    rfl

/-- Text without the zero character encodes without zero bytes. -/
theorem utf8Encode_ne_zero {text : List Char} (h : ∀ c∈text, c≠Char.ofNat 0) :
    ∀ b∈utf8Encode text, b≠0 := by
  intro b hb
  obtain ⟨c,hc,hbc⟩ := List.mem_flatMap.mp hb
  exact utf8EncodeChar_ne_zero (h c hc) b hbc

end GuacServer.Unicode
