import Mathlib.Data.List.Intervals
import GuacServer.StringBuffers

/-!
# Strings in memory

string.c as it writes to memory, byte by byte: guac_strlcpy without a strlcpy of the C
library, guac_strlcat and guac_strljoin. Strings that are read are given as their bytes
without the null terminator. Lengths are those of strings in memory and fit a size_t, as do
their sums.
-/

namespace GuacServer.StringMemory

open List

/-- The bytes at all addresses, and the addresses that were written so far. -/
structure Memory where
  bytes : ℕ→UInt8
  /-- The addresses written, the last one first. -/
  written : List ℕ

/-- A byte is written. -/
def Memory.set (memory : Memory) (address : ℕ) (b : UInt8) : Memory :=
  ⟨Function.update memory.bytes address b,address::memory.written⟩

/-- memcpy, from bytes that do not overlap what is written. -/
def memcpy (memory : Memory) : ℕ→List UInt8→Memory
  | _, [] => memory
  | dest, b::src => memcpy (memory.set dest b) (dest+1) src

/-- strnlen. -/
def strnlen (memory : Memory) : ℕ→ℕ→ℕ
  | _, 0 => 0
  | str, n+1 => if memory.bytes str=0 then 0 else strnlen memory (str+1) n+1

/-- REMAINING. -/
def remaining (n length : ℕ) : ℕ := if n<length then 0 else n-length

/-- guac_strlcpy. -/
def guacStrlcpy (dest : ℕ) (src : List UInt8) (n : ℕ) (memory : Memory) : Memory×ℕ :=
  let length := src.length
  if n=0 then (memory,length)
  else
    let copyLength := if length≥n then n-1 else length
    ((memcpy memory dest (src.take copyLength)).set (dest+copyLength) 0,length)

/-- guac_strlcat. -/
def guacStrlcat (dest : ℕ) (src : List UInt8) (n : ℕ) (memory : Memory) : Memory×ℕ :=
  let length := strnlen memory dest n
  let copied := guacStrlcpy (dest+length) src (remaining n length) memory
  (copied.1,length+copied.2)

/-- The loop of guac_strljoin over the elements after the first. -/
def joinLoop (dest : ℕ) (delim : List UInt8) (n : ℕ) : List (List UInt8)→Memory×ℕ→Memory×ℕ
  | [], joined => joined
  | current::elements, (memory,length) =>
    let delimited := guacStrlcat (dest+length) delim (remaining n length) memory
    let length := length+delimited.2
    let appended := guacStrlcat (dest+length) current (remaining n length) delimited.1
    joinLoop dest delim n elements (appended.1,length+appended.2)

/-- guac_strljoin, where there are no elements if their number is not positive. -/
def guacStrljoin (dest : ℕ) (elements : List (List UInt8)) (delim : List UInt8) (n : ℕ)
    (memory : Memory) : Memory×ℕ :=
  match elements with
  | [] => guacStrlcpy dest [] n memory
  | current::elements => joinLoop dest delim n elements (guacStrlcpy dest current n memory)

/-! ## Strings that are held -/

/-- A string is at an address, with its null terminator. -/
structure HoldsString (memory : Memory) (str : ℕ) (text : List UInt8) : Prop where
  bytes : ∀ i (h : i<text.length), memory.bytes (str+i)=text[i]
  terminator : memory.bytes (str+text.length)=0

/-- Nothing but the given bytes is written. -/
structure WritesWithin (before after : Memory) (dest n : ℕ) : Prop where
  written : ∀ address∈after.written, address∈before.written ∨ dest≤address ∧ address<dest+n
  outside : ∀ address, ¬(dest≤address ∧ address<dest+n) → after.bytes address=before.bytes address

variable {memory before after : Memory} {dest n : ℕ} {src text : List UInt8}

theorem remaining_eq (n length : ℕ) : remaining n length=n-length := by
  unfold remaining
  split_ifs <;> omega

section

variable (memory : Memory)

theorem WritesWithin.refl (dest n : ℕ) : WritesWithin memory memory dest n :=
  ⟨fun _ h => Or.inl h,fun _ _ => rfl⟩

/-- Writes to a part of the bytes follow others. -/
theorem WritesWithin.trans {next : Memory} {dest' n' : ℕ} (h : WritesWithin before after dest n)
    (h' : WritesWithin after next dest' n') (hdest : dest≤dest') (hend : dest' + n' ≤ dest+n) :
    WritesWithin before next dest n := by
  constructor
  · intro address hmem
    rcases h'.written address hmem with hold | hnew
    · exact h.written address hold
    · exact Or.inr (by omega)
  · intro address hout
    rw [h'.outside address (by omega),h.outside address hout]

theorem memory_set_bytes (address i : ℕ) (b : UInt8) :
    (memory.set address b).bytes i=if i=address then b else memory.bytes i :=
  Function.update_apply ..

theorem writesWithin_set (address : ℕ) (b : UInt8) :
    WritesWithin memory (memory.set address b) address 1 := by
  constructor
  · intro i hmem
    rcases mem_cons.mp hmem with rfl | hold
    · exact Or.inr (by omega)
    · exact Or.inl hold
  · intro i hout
    rw [memory_set_bytes,if_neg (by omega)]

theorem writesWithin_memcpy (dest : ℕ) (src : List UInt8) :
    WritesWithin memory (memcpy memory dest src) dest src.length := by
  induction src generalizing memory dest with
  | nil => exact WritesWithin.refl memory dest 0
  | cons b src ih =>
    have hfirst : WritesWithin memory (memory.set dest b) dest (src.length+1) :=
      (WritesWithin.refl memory dest _).trans (writesWithin_set memory dest b) le_rfl (by omega)
    exact hfirst.trans (ih (memory.set dest b) (dest+1)) (by omega) (by omega)

theorem memcpy_bytes (dest : ℕ) (src : List UInt8) (i : ℕ)
    (h : i<src.length) : (memcpy memory dest src).bytes (dest+i)=src[i] := by
  induction src generalizing memory dest i with
  | nil => exact absurd h (Nat.not_lt_zero i)
  | cons b src ih =>
    cases i with
    | zero =>
      have hrest := (writesWithin_memcpy (memory.set dest b) (dest+1) src).outside dest (by omega)
      show (memcpy (memory.set dest b) (dest+1) src).bytes dest=b
      rw [hrest,memory_set_bytes,if_pos rfl]
    | succ i =>
      have hnext := ih (memory.set dest b) (dest+1) i (Nat.lt_of_succ_lt_succ h)
      rw [memcpy,getElem_cons_succ,←hnext]
      congr 1
      omega

end

/-- A part of a string that is held. -/
theorem HoldsString.drop (h : HoldsString memory dest text) {m : ℕ} (hm : m≤text.length) :
    HoldsString memory (dest+m) (text.drop m) := by
  constructor
  · intro i hi
    rw [length_drop] at hi
    rw [getElem_drop,←h.bytes (m+i) (by omega)]
    congr 1
    omega
  · rw [length_drop,←h.terminator]
    congr 1
    omega

/-- The length of a string is found by its terminator, unless fewer bytes are looked at. -/
theorem strnlen_of_holds (h : HoldsString memory dest text) (hnul : 0 ∉ text) :
    strnlen memory dest n=min n text.length := by
  induction n generalizing dest text with
  | zero => rw [strnlen,Nat.zero_min]
  | succ n ih =>
    cases text with
    | nil => rw [strnlen,if_pos (by simpa using h.terminator),length_nil,Nat.min_zero]
    | cons b text =>
      have hfirst : memory.bytes dest=b := by simpa using h.bytes 0 (Nat.succ_pos _)
      have hb : b≠0 := fun hzero => hnul (hzero ▸ mem_cons_self)
      have hrest : HoldsString memory (dest+1) text := h.drop (Nat.succ_pos _)
      rw [strnlen,hfirst,if_neg hb,ih hrest fun hmem => hnul (mem_cons_of_mem b hmem),
        length_cons,Nat.succ_min_succ]

/-- Behind a string there is its terminator. -/
theorem strnlen_behind (h : HoldsString memory dest text) (n : ℕ) :
    strnlen memory (dest+text.length) n=0 := by
  cases n with
  | zero => rfl
  | succ n => rw [strnlen,if_pos h.terminator]

/-! ## Copies that are cut off -/

/-- Something is to leave a text in some bytes of memory: it returns the length of the text,
writes nothing but these bytes, and if there are any, they hold as much of the text as there
is room for before a terminator, which is less than all exactly if the length returned is at
least their number. -/
structure Bounded (before : Memory) (dest n : ℕ) (text : List UInt8) (result : Memory×ℕ) :
    Prop where
  returned : result.2=text.length
  within : WritesWithin before result.1 dest n
  held : 0<n→HoldsString result.1 dest (text.take (min text.length (n-1)))
  truncated : 0<n→(text.take (min text.length (n-1))≠text ↔ n≤result.2)

theorem take_min_length (text : List UInt8) (m : ℕ) :
    text.take (min text.length m)=text.take m := by
  rcases le_total text.length m with h | h
  · rw [min_eq_left h,take_length,take_of_length_le h]
  · rw [min_eq_right h]

/-- What returns the length of the text tells whether the text was cut off. -/
theorem Bounded.of_held {result : Memory×ℕ} (hreturned : result.2=text.length)
    (hwithin : WritesWithin before result.1 dest n)
    (hheld : 0<n→HoldsString result.1 dest (text.take (n-1))) :
    Bounded before dest n text result := by
  refine ⟨hreturned,hwithin,fun hn => ?_,fun hn => ?_⟩
  · rw [take_min_length]
    exact hheld hn
  · rw [take_min_length,ne_eq,take_eq_self_iff,hreturned]
    omega

theorem Bounded.holds {result : Memory×ℕ} (h : Bounded before dest n text result)
    (hfits : text.length<n) : HoldsString result.1 dest text := by
  have hheld := h.held (Nat.zero_lt_of_lt hfits)
  rwa [take_min_length,take_of_length_le (by omega)] at hheld

/-- A text is copied behind another, as far as there is room for it. -/
theorem holds_append {m : ℕ} (h : ∀ i (h : i<text.length), memory.bytes (dest+i)=text[i])
    (hsrc : m ≤ src.length) :
    HoldsString ((memcpy memory (dest+text.length) (src.take m)).set
      (dest+text.length+m) 0) dest (text++src.take m) := by
  have hlength : (src.take m).length=m := length_take_of_le hsrc
  have hwithin := writesWithin_memcpy memory (dest+text.length) (src.take m)
  constructor
  · intro i hi
    rw [length_append,hlength] at hi
    rw [memory_set_bytes,if_neg (by omega)]
    rcases Nat.lt_or_ge i text.length with hold | hnew
    · rw [hwithin.outside (dest+i) (by omega),getElem_append_left hold]
      exact h i hold
    · have hbyte := memcpy_bytes memory (dest+text.length) (src.take m) (i-text.length) (by omega)
      rw [getElem_append_right hnew,←hbyte]
      congr 1
      omega
  · rw [memory_set_bytes,if_pos (by rw [length_append,hlength,Nat.add_assoc])]

/-- A copy of as much as there is room for, behind which the terminator is. -/
theorem guacStrlcpy_eq (hn : 0<n) (dest : ℕ) (src : List UInt8) (memory : Memory) :
    guacStrlcpy dest src n memory=((memcpy memory dest (src.take (min src.length (n-1)))).set
        (dest+min src.length (n-1)) 0,src.length) := by
  have hlength : (if src.length≥n then n-1 else src.length)=min src.length (n-1) := by
    split_ifs <;> omega
  rw [guacStrlcpy]
  dsimp only
  rw [if_neg hn.ne',hlength]

/-- A copy right behind bytes that leave room adds to them. -/
theorem holds_guacStrlcpy (h : ∀ i (h : i<text.length), memory.bytes (dest+i)=text[i])
    (hroom : text.length<n) (src : List UInt8) :
    HoldsString (guacStrlcpy (dest+text.length) src (n-text.length) memory).1 dest
      ((text++src).take (n-1)) := by
  have htake : (text++src).take (n-1)=text++src.take (min src.length (n-text.length-1)) := by
    rw [take_min_length,take_append,take_of_length_le (by omega)]
    congr 2
    omega
  rw [guacStrlcpy_eq (by omega),htake]
  exact holds_append h (min_le_left _ _)

/-- The copy and its terminator. -/
theorem writesWithin_terminated (memory : Memory) (dest : ℕ) {m : ℕ} (hsrc : m ≤ src.length) :
    WritesWithin memory ((memcpy memory dest (src.take m)).set (dest+m) 0) dest (m+1) := by
  have hcopied := writesWithin_memcpy memory dest (src.take m)
  rw [length_take_of_le hsrc] at hcopied
  have hall : WritesWithin memory (memcpy memory dest (src.take m)) dest (m+1) :=
    (WritesWithin.refl memory dest _).trans hcopied le_rfl (by omega)
  exact hall.trans (writesWithin_set _ _ 0) (by omega) (by omega)

theorem writesWithin_guacStrlcpy (memory : Memory) (dest : ℕ) (src : List UInt8) (n : ℕ) :
    WritesWithin memory (guacStrlcpy dest src n memory).1 dest n := by
  rcases n.eq_zero_or_pos with rfl | hn
  · exact WritesWithin.refl memory dest 0
  · rw [guacStrlcpy_eq hn]
    exact (WritesWithin.refl memory dest n).trans
      (writesWithin_terminated memory dest (min_le_left _ _)) le_rfl (by omega)

theorem guacStrlcpy_returns (memory : Memory) (dest : ℕ) (src : List UInt8) (n : ℕ) :
    (guacStrlcpy dest src n memory).2=src.length := by
  rw [guacStrlcpy]
  dsimp only
  split <;> rfl

theorem bounded_guacStrlcpy (memory : Memory) (dest : ℕ) (src : List UInt8) (n : ℕ) :
    Bounded memory dest n src (guacStrlcpy dest src n memory) := by
  refine .of_held (guacStrlcpy_returns memory dest src n)
    (writesWithin_guacStrlcpy memory dest src n) fun hn => ?_
  have hnone : ∀ i (h : i<([] : List UInt8).length), memory.bytes (dest+i)=([] : List UInt8)[i] :=
    fun i h => absurd h (Nat.not_lt_zero i)
  simpa using holds_guacStrlcpy hnone hn src

/-- A string behind which something is appended is found, and the copy starts there. -/
theorem guacStrlcat_eq {length : ℕ} (h : strnlen memory dest n=length) (src : List UInt8) :
    guacStrlcat dest src n memory=
      ((guacStrlcpy (dest+length) src (n-length) memory).1,length+src.length) := by
  rw [guacStrlcat,h,remaining_eq,guacStrlcpy_returns]

/-- What is appended behind a text that was left is added to it, or only counted if the text
was cut off already. -/
theorem Bounded.append {length : ℕ} (h : Bounded before dest n text (memory,length))
    (src : List UInt8) :
    Bounded before dest n (text++src)
      ((guacStrlcat (dest+length) src (remaining n length) memory).1,
        length+(guacStrlcat (dest+length) src (remaining n length) memory).2) := by
  have hlength : length=text.length := h.returned
  rw [hlength,remaining_eq]
  have hstop : strnlen memory (dest+text.length) (n-text.length)=0 := by
    rcases Nat.lt_or_ge text.length n with hroom | hfull
    · exact strnlen_behind (h.holds hroom) _
    · rw [Nat.sub_eq_zero_of_le hfull,strnlen]
  rw [guacStrlcat_eq hstop,Nat.add_zero,Nat.sub_zero,Nat.zero_add]
  refine .of_held length_append.symm ?_ fun hn => ?_
  · rcases Nat.lt_or_ge text.length n with hroom | hfull
    · exact h.within.trans (writesWithin_guacStrlcpy ..) (by omega) (by omega)
    · rw [Nat.sub_eq_zero_of_le hfull]
      exact h.within
  · rcases Nat.lt_or_ge text.length n with hroom | hfull
    · exact holds_guacStrlcpy (h.holds hroom).bytes hroom src
    · have hheld := h.held hn
      rw [take_min_length] at hheld
      rw [Nat.sub_eq_zero_of_le hfull,take_append_of_le_length (by omega)]
      exact hheld

/-- A string in the buffer is appended to. -/
theorem bounded_guacStrlcat (h : HoldsString memory dest text) (hnul : 0 ∉ text)
    (hroom : text.length<n) (src : List UInt8) :
    Bounded memory dest n (text++src) (guacStrlcat dest src n memory) := by
  have hlength : strnlen memory dest n=text.length := by
    rw [strnlen_of_holds h hnul,min_eq_right hroom.le]
  rw [guacStrlcat_eq hlength]
  refine .of_held length_append.symm ?_ fun _ => holds_guacStrlcpy h.bytes hroom src
  exact (WritesWithin.refl memory dest n).trans (writesWithin_guacStrlcpy ..) (by omega) (by omega)

/-- The elements that are left are appended to the text so far, each behind a delimiter. -/
theorem bounded_joinLoop (delim : List UInt8) (elements : List (List UInt8))
    {joined : Memory×ℕ} (h : Bounded before dest n text joined) :
    Bounded before dest n (text++elements.flatMap (delim ++ ·))
      (joinLoop dest delim n elements joined) := by
  induction elements generalizing text joined with
  | nil => simpa [joinLoop] using h
  | cons current elements ih =>
    have happended := ih ((h.append delim).append current)
    simpa [joinLoop] using happended

theorem intercalate_cons (delim current : List UInt8) (elements : List (List UInt8)) :
    List.intercalate delim (current::elements)=current++elements.flatMap (delim ++ ·) := by
  induction elements generalizing current with
  | nil => simp [List.intercalate]
  | cons next elements ih =>
    have hrest := ih next
    simp only [List.intercalate,intersperse_cons_cons,flatten_cons] at hrest ⊢
    rw [hrest,flatMap_cons,append_assoc]

/-- The elements are joined. -/
theorem bounded_guacStrljoin (memory : Memory) (dest : ℕ) (elements : List (List UInt8))
    (delim : List UInt8) (n : ℕ) :
    Bounded memory dest n (List.intercalate delim elements)
      (guacStrljoin dest elements delim n memory) := by
  cases elements with
  | nil => exact bounded_guacStrlcpy memory dest [] n
  | cons current elements =>
    rw [intercalate_cons]
    exact bounded_joinLoop delim elements (bounded_guacStrlcpy memory dest current n)

/-- Whatever the size of the buffer, the copies return the length of the whole result, write
only to the buffer, and leave in it what there is room for. -/
theorem strings_bounded (memory : Memory) (dest n : ℕ) (src delim : List UInt8)
    (elements : List (List UInt8)) :
    Bounded memory dest n src (guacStrlcpy dest src n memory) ∧
      (∀ text, HoldsString memory dest text→0 ∉ text → text.length<n →
        Bounded memory dest n (text++src) (guacStrlcat dest src n memory)) ∧
      Bounded memory dest n (List.intercalate delim elements)
        (guacStrljoin dest elements delim n memory) :=
  ⟨bounded_guacStrlcpy memory dest src n,
    fun _ hheld hnul hroom => bounded_guacStrlcat hheld hnul hroom src,
    bounded_guacStrljoin memory dest elements delim n⟩

/-- Memory that was cleared. -/
def clearedMemory : Memory := ⟨fun _ => 0,[]⟩

/-- A buffer that has room for the string appended first, and not for the next. -/
theorem strings_bounded_twoBytes :
    Bounded clearedMemory 7 2 [97] (guacStrlcat 7 [97] 2 clearedMemory) ∧
      Bounded clearedMemory 7 2 [97,47,98] (guacStrljoin 7 [[97],[98]] [47] 2 clearedMemory) :=
  have hempty : HoldsString clearedMemory 7 [] := ⟨nofun,rfl⟩
  ⟨(strings_bounded clearedMemory 7 2 [97] [47] [[97],[98]]).2.1 [] hempty nofun (by decide),
    (strings_bounded clearedMemory 7 2 [97] [47] [[97],[98]]).2.2⟩

/-! ## Buffers as what they hold -/

open StringBuffers

/-- A buffer at address zero of memory, which holds the string that it should. -/
structure Represents (memory : Memory) (buffer : StringBuffer) : Prop where
  held : HoldsString memory 0 buffer.contents
  nul : 0 ∉ buffer.contents
  written : ∀ address∈memory.written, address<buffer.written

variable {buffer : StringBuffer} {offset : ℕ}

theorem Represents.guacStrlcpy (h : Represents memory buffer) (hsrc : 0 ∉ src) (offset n : ℕ) :
    Represents (StringMemory.guacStrlcpy offset src n memory).1
      (StringBuffers.guacStrlcpy offset src n buffer).1 := by
  rcases n.eq_zero_or_pos with rfl | hn
  · exact h
  · have hlength : (if src.length≥n then n-1 else src.length)=min src.length (n-1) := by
      split_ifs <;> omega
    have hwritten := writesWithin_terminated memory offset (min_le_left src.length (n-1))
    rw [guacStrlcpy_eq hn,StringBuffers.guacStrlcpy,if_neg hn.ne',hlength]
    constructor
    · dsimp only
      split_ifs with hoffset
      · have htake : (buffer.contents.take offset).length=offset := length_take_of_le hoffset
        have hbytes : ∀ i (h : i<(buffer.contents.take offset).length),
            memory.bytes (0+i)=(buffer.contents.take offset)[i] := by
          intro i hi
          rw [getElem_take]
          exact h.held.bytes i (by omega)
        have happended := holds_append hbytes (min_le_left src.length (n-1))
        rwa [htake,Nat.zero_add] at happended
      · constructor
        · intro i hi
          rw [hwritten.outside _ (by omega)]
          exact h.held.bytes i hi
        · rw [hwritten.outside _ (by omega)]
          exact h.held.terminator
    · dsimp only
      split_ifs with hoffset
      · rw [mem_append,not_or]
        exact ⟨fun hmem => h.nul (mem_of_mem_take hmem),
          fun hmem => hsrc (mem_of_mem_take hmem)⟩
      · exact h.nul
    · intro address hmem
      rcases hwritten.written address hmem with hold | hnew
      · exact lt_max_of_lt_left (h.written address hold)
      · exact lt_max_of_lt_right (by omega)

/-- The string at an offset of a buffer is looked for in the bytes that remain. -/
theorem Represents.strnlen (h : Represents memory buffer)
    (hoffset : n=0 ∨ offset≤buffer.contents.length) :
    StringMemory.strnlen memory offset n=min n (buffer.contents.length-offset) := by
  rcases hoffset with rfl | hoffset
  · rw [StringMemory.strnlen,Nat.zero_min]
  · have hrest := h.held.drop hoffset
    rw [Nat.zero_add] at hrest
    rw [strnlen_of_holds hrest fun hmem => h.nul (mem_of_mem_drop hmem),length_drop]

/-- guac_strlcat in memory does what it does in a buffer. -/
theorem Represents.guacStrlcat (h : Represents memory buffer) (hsrc : 0 ∉ src)
    (hoffset : n=0 ∨ offset≤buffer.contents.length) :
    Represents (StringMemory.guacStrlcat offset src n memory).1
        (StringBuffers.guacStrlcat offset src n buffer).1 ∧
      (StringMemory.guacStrlcat offset src n memory).2=
        (StringBuffers.guacStrlcat offset src n buffer).2 := by
  rw [guacStrlcat_eq (h.strnlen hoffset),StringBuffers.guacStrlcat]
  dsimp only
  rw [StringBuffers.guacStrlcpy_length]
  exact ⟨h.guacStrlcpy hsrc _ _,rfl⟩

/-- A string in a buffer leaves no room behind an offset, or goes at least that far. -/
theorem offset_le_of_holds {start : List UInt8} (h : Holds start text n buffer) :
    n-text.length=0 ∨ start.length+text.length≤buffer.contents.length := by
  rw [h.contents,length_append,length_take]
  omega

section

variable {start delim : List UInt8} (hn : 0<n) (hdelim : 0 ∉ delim) {elements : List (List UInt8)}
  (helements : ∀ element∈elements, 0 ∉ element) (h : Represents memory buffer)

include hn hdelim helements h

/-- The loop of guac_strljoin in memory does what it does in a buffer. -/
theorem represents_joinLoop (hholds : Holds start text n buffer) :
    Represents (joinLoop start.length delim n elements (memory,text.length)).1
        (joinRemaining start.length delim n elements (buffer,text.length)).1 ∧
      (joinLoop start.length delim n elements (memory,text.length)).2=
        (joinRemaining start.length delim n elements (buffer,text.length)).2 := by
  induction elements generalizing memory buffer text with
  | nil => exact ⟨h,rfl⟩
  | cons current elements ih =>
    obtain ⟨hcurrent,hrest⟩ := forall_mem_cons.mp helements
    have hdelimited := h.guacStrlcat hdelim (offset_le_of_holds hholds)
    have hholds' := StringBuffers.holds_guacStrlcat hn hholds delim
    have happended := hdelimited.1.guacStrlcat hcurrent (offset_le_of_holds hholds'.1)
    have hholds'' := StringBuffers.holds_guacStrlcat hn hholds'.1 current
    have hall := ih hrest happended.1 hholds''.1
    simp only [length_append] at hall happended hholds''
    simpa only [joinLoop,joinRemaining,remaining_eq,hdelimited.2,hholds'.2,happended.2,
      hholds''.2] using hall

/-- What is joined in memory is what a buffer of strings holds. -/
theorem represents_guacStrljoin (hholds : Holds start [] n buffer) :
    Represents (StringMemory.guacStrljoin start.length elements delim n memory).1
        (StringBuffers.guacStrljoin start.length elements delim n buffer).1 ∧
      (StringMemory.guacStrljoin start.length elements delim n memory).2=
        (StringBuffers.guacStrljoin start.length elements delim n buffer).2 := by
  cases elements with
  | nil =>
    refine ⟨h.guacStrlcpy not_mem_nil _ _,?_⟩
    exact (guacStrlcpy_returns ..).trans (StringBuffers.guacStrlcpy_length ..).symm
  | cons current elements =>
    obtain ⟨hcurrent,hrest⟩ := forall_mem_cons.mp helements
    have hfirst := StringBuffers.holds_guacStrlcpy hn hholds current
    simp only [length_nil,Nat.add_zero,Nat.sub_zero,nil_append] at hfirst
    have hall := represents_joinLoop hn hdelim hrest (h.guacStrlcpy hcurrent start.length n) hfirst
    rw [StringMemory.guacStrljoin,StringBuffers.guacStrljoin]
    rw [←Prod.mk.eta (p := StringMemory.guacStrlcpy start.length current n memory),
      guacStrlcpy_returns,
      ←Prod.mk.eta (p := StringBuffers.guacStrlcpy start.length current n buffer),
      StringBuffers.guacStrlcpy_length]
    exact hall

end

/-- The second string is cut off. -/
theorem represents_guacStrljoin_three :
    Represents (StringMemory.guacStrljoin 0 [[97],[98,99]] [47] 4 clearedMemory).1
        (StringBuffers.guacStrljoin 0 [[97],[98,99]] [47] 4 ⟨[],0⟩).1 ∧
      (StringMemory.guacStrljoin 0 [[97],[98,99]] [47] 4 clearedMemory).2=
        (StringBuffers.guacStrljoin 0 [[97],[98,99]] [47] 4 ⟨[],0⟩).2 :=
  have hempty : HoldsString clearedMemory 0 [] := ⟨nofun,rfl⟩
  have hholds : Holds [] [] 4 ⟨[],0⟩ := ⟨rfl,Nat.zero_le _⟩
  represents_guacStrljoin (by decide) (by decide) (by decide)
    ⟨hempty,not_mem_nil,fun _ h => absurd h not_mem_nil⟩ hholds

end GuacServer.StringMemory
