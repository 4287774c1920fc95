import GuacServer.PathResolution

/-!
# String buffers

The bounded copies of string.c. Each is given the space that remains of a buffer and
returns the length of the string that it tried to create, so that strings which are
appended one after the other are cut off at the end of the buffer and never go past it.
-/

namespace GuacServer.StringBuffers

open List PathResolution

/-- A buffer that is filled from its start. -/
structure StringBuffer where
  /-- The string in the buffer, without its null terminator. -/
  contents : List UInt8
  /-- The bytes from the start of the buffer to the end of the last one written. -/
  written : ℕ
  deriving DecidableEq

/-- guac_strlcpy to an offset of the buffer, of which n bytes remain there. -/
def guacStrlcpy (offset : ℕ) (src : List UInt8) (n : ℕ) (dest : StringBuffer) : StringBuffer×ℕ :=
  if n=0 then (dest,src.length)
  else
    let copyLength := if src.length≥n then n-1 else src.length
    -- A copy behind the terminator leaves the string as it is.
    ({ contents :=
        if offset≤dest.contents.length then
          dest.contents.take offset++src.take copyLength
        else dest.contents
       written := max dest.written (offset+copyLength+1) },src.length)

/-- guac_strlcat to the string at an offset of the buffer, which ends before the n
bytes do. -/
def guacStrlcat (offset : ℕ) (src : List UInt8) (n : ℕ) (dest : StringBuffer) : StringBuffer×ℕ :=
  let length := min n (dest.contents.length-offset)
  let copied := guacStrlcpy (offset+length) src (n-length) dest
  (copied.1,length+copied.2)

/-- The loop of guac_strljoin over the elements after the first. -/
def joinRemaining (offset : ℕ) (delim : List UInt8) (n : ℕ) :
    List (List UInt8)→StringBuffer×ℕ→StringBuffer×ℕ
  | [], joined => joined
  | element::elements, (dest,length) =>
    let delimited := guacStrlcat (offset+length) delim (n-length) dest
    let length := length+delimited.2
    let appended := guacStrlcat (offset+length) element (n-length) delimited.1
    joinRemaining offset delim n elements (appended.1,length+appended.2)

/-- guac_strljoin to an offset of the buffer. -/
def guacStrljoin (offset : ℕ) (elements : List (List UInt8)) (delim : List UInt8) (n : ℕ)
    (dest : StringBuffer) : StringBuffer×ℕ :=
  match elements with
  | [] => guacStrlcpy offset [] n dest
  | element::elements =>
    joinRemaining offset delim n elements (guacStrlcpy offset element n dest)

/-- The buffer holds what comes before the offset and as much of a text as n bytes
there have room for. -/
structure Holds (start text : List UInt8) (n : ℕ) (dest : StringBuffer) : Prop where
  contents : dest.contents=start++text.take (n-1)
  written : dest.written ≤ start.length+n

theorem guacStrlcpy_length (offset : ℕ) (src : List UInt8) (n : ℕ) (dest : StringBuffer) :
    (guacStrlcpy offset src n dest).2=src.length := by
  unfold guacStrlcpy
  split <;> rfl

theorem take_copyLength (src : List UInt8) (n : ℕ) :
    src.take (if src.length≥n then n-1 else src.length)=src.take (n-1) := by
  split_ifs with h
  · rfl
  · rw [take_length,take_of_length_le (by omega)]

variable {start : List UInt8} {dest : StringBuffer}

variable {text : List UInt8} {n : ℕ}

/-- What is copied right behind a text is added to it. -/
theorem holds_guacStrlcpy (hn : 0<n) (h : Holds start text n dest)
    (src : List UInt8) :
    Holds start (text++src) n
      (guacStrlcpy (start.length+text.length) src (n-text.length) dest).1 := by
  by_cases hroom : n-text.length=0
  · have htake : (text++src).take (n-1)=text.take (n-1) := take_append_of_le_length (by omega)
    simp only [guacStrlcpy,hroom,if_true]
    exact ⟨by rw [htake]; exact h.contents,h.written⟩
  · have hcontents : dest.contents=start++text := by
      rw [h.contents,take_of_length_le (by omega)]
    have hsub : n-text.length-1=n-1-text.length := by omega
    simp only [guacStrlcpy,hroom,if_false,take_copyLength,hcontents,length_append,
      le_refl,if_true]
    constructor
    · simp only
      rw [take_of_length_le (by simp),append_assoc,take_append,
        take_of_length_le (by omega : text.length≤n-1),hsub]
    · have hwritten := h.written
      simp only [ge_iff_le,max_le_iff]
      split_ifs <;> omega

/-- A copy to the start replaces what the buffer holds. -/
theorem holds_guacStrlcpy_zero (hn : 0<n) (h : dest.written≤n) (src : List UInt8) :
    Holds [] src n (guacStrlcpy 0 src n dest).1 := by
  simp only [guacStrlcpy,hn.ne',if_false,take_copyLength,Nat.zero_le,if_true,Nat.zero_add]
  constructor
  · simp
  · simp only [length_nil,ge_iff_le,max_le_iff]
    split_ifs <;> omega

/-- What is appended right behind a text is added to it, as the string ends there. -/
theorem holds_guacStrlcat (hn : 0<n) (h : Holds start text n dest)
    (src : List UInt8) :
    Holds start (text++src) n (guacStrlcat (start.length+text.length) src (n-text.length) dest).1 ∧
      (guacStrlcat (start.length+text.length) src (n-text.length) dest).2=src.length := by
  have hend : min (n-text.length) (dest.contents.length-(start.length+text.length))=0 := by
    have hlength := congrArg List.length h.contents
    simp only [length_append,length_take] at hlength
    omega
  simp only [guacStrlcat,hend,Nat.add_zero,Nat.sub_zero,guacStrlcpy_length,Nat.zero_add]
  exact ⟨holds_guacStrlcpy hn h src,trivial⟩

/-- The elements as the loop of guac_strljoin appends them. -/
def appendDelimited (delim text : List UInt8) : List (List UInt8)→List UInt8
  | [] => text
  | element::elements => appendDelimited delim (text++delim++element) elements

theorem appendDelimited_eq (a : UInt8) (element text : List UInt8) (elements : List (List UInt8)) :
    appendDelimited [a] (text++element) elements=text++join a (element::elements) := by
  induction elements generalizing element text with
  | nil => rfl
  | cons next elements ih =>
    have hnext := ih next (text++element++[a])
    simpa [appendDelimited] using hnext

/-- The elements are joined as far as there is room. -/
theorem holds_joinRemaining (hn : 0<n) (delim : List UInt8) (elements : List (List UInt8))
    (h : Holds start text n dest) :
    Holds start (appendDelimited delim text elements) n
      (joinRemaining start.length delim n elements (dest,text.length)).1 := by
  induction elements generalizing text dest with
  | nil => exact h
  | cons element elements ih =>
    have hdelim := holds_guacStrlcat hn h delim
    have helement := holds_guacStrlcat hn hdelim.1 element
    have hrest := ih helement.1
    simp only [length_append] at hrest helement
    simpa only [joinRemaining,appendDelimited,hdelim.2,helement.2] using hrest

/-- Elements are joined, as far as there is room for them. -/
theorem holds_guacStrljoin (hn : 0<n) (h : Holds start [] n dest) (a : UInt8)
    (elements : List (List UInt8)) :
    Holds start (join a elements) n (guacStrljoin start.length elements [a] n dest).1 := by
  cases elements with
  | nil => simpa [guacStrljoin] using holds_guacStrlcpy hn h []
  | cons element elements =>
    have hfirst := holds_guacStrlcpy hn h element
    simp only [length_nil,Nat.add_zero,Nat.sub_zero,nil_append] at hfirst
    have hall := holds_joinRemaining hn [a] elements hfirst
    rw [←guacStrlcpy_length start.length element n dest,←nil_append element,
      appendDelimited_eq] at hall
    exact hall

/-- A text that fits is held as a whole. -/
theorem Holds.whole (h : Holds start text n dest)
    (hfits : text.length<n) : dest.contents=start++text := by
  rw [h.contents,take_of_length_le (by omega)]

end GuacServer.StringBuffers
