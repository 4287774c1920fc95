import Mathlib.Algebra.BigOperators.Group.List.Basic
import GuacServer.Utf8Coding

/-!
# JSON objects of strings

The grammar of JSON, as far as objects whose values are strings go, over the
bytes of UTF-8. Each relation gives the text, what is read of it and the text
that is left. A text has one reading, and it is at least as long as the strings
in it with one more byte for each that has to be escaped.
-/

namespace GuacServer.JsonGrammar

open Unicode Utf8Coding

/-- A name and a value, or what else two strings may be. -/
abbrev Member := List UInt8×List UInt8

/-- The characters that are escaped by a letter. -/
def simpleEscape (letter : UInt8) : Option Char :=
  if letter=0x22 then some '"'
  else if letter=0x5C then some '\\'
  else if letter=0x2F then some '/'
  else if letter=0x62 then some (Char.ofNat 0x08)
  else if letter=0x66 then some (Char.ofNat 0x0C)
  else if letter=0x6E then some (Char.ofNat 0x0A)
  else if letter=0x72 then some (Char.ofNat 0x0D)
  else if letter=0x74 then some (Char.ofNat 0x09)
  else none

/-- The value of a hexadecimal digit. -/
def hexDigit (digit : UInt8) : Option ℕ :=
  if 0x30≤digit ∧ digit≤0x39 then some (digit.toNat-0x30)
  else if 0x41≤digit ∧ digit≤0x46 then some (digit.toNat-0x41+10)
  else if 0x61≤digit ∧ digit≤0x66 then some (digit.toNat-0x61+10)
  else none

/-- The value of four hexadecimal digits. -/
def hexValue (a b c d : UInt8) : Option ℕ := do
  let a ← hexDigit a
  let b ← hexDigit b
  let c ← hexDigit c
  let d ← hexDigit d
  return ((a*16+b)*16+c)*16+d

/-- One character of a string. -/
inductive JsonChar : List UInt8→Char→List UInt8→Prop
  | unescaped {ch : Char} (hcontrol : 0x20≤ch.val.toNat) (hquote : ch ≠ '"')
      (hbackslash : ch ≠ '\\') (rest : List UInt8) :
      JsonChar (String.utf8EncodeChar ch++rest) ch rest
  | simple {letter : UInt8} {ch : Char} (h : simpleEscape letter=some ch) (rest : List UInt8) :
      JsonChar (0x5C::letter::rest) ch rest
  | unicode {a b c d : UInt8} {ch : Char} (h : hexValue a b c d=some ch.val.toNat)
      (rest : List UInt8) :
      JsonChar (0x5C::0x75::a::b::c::d::rest) ch rest
  | surrogates {a b c d e f g h : UInt8} {high low : ℕ} {ch : Char}
      (hhigh : hexValue a b c d=some (0xD800+high)) (hlt : high<0x400)
      (hlow : hexValue e f g h=some (0xDC00+low)) (hlt' : low<0x400)
      (hch : ch.val.toNat=0x10000+high*0x400+low) (rest : List UInt8) :
      JsonChar (0x5C::0x75::a::b::c::d::0x5C::0x75::e::f::g::h::rest) ch rest

/-- Some characters of a string. -/
inductive JsonChars : List UInt8→List Char→List UInt8→Prop
  | nil (text : List UInt8) : JsonChars text [] text
  | cons {text between rest : List UInt8} {c : Char} {cs : List Char}
      (hchar : JsonChar text c between) (hchars : JsonChars between cs rest) :
      JsonChars text (c::cs) rest

/-- A string between its quotes. -/
inductive JsonString : List UInt8→List UInt8→List UInt8→Prop
  | quoted {text rest : List UInt8} {cs : List Char} (h : JsonChars text cs (0x22::rest)) :
      JsonString (0x22::text) (utf8Encode cs) rest

/-- The space, the tabulator, the newline and the carriage return. -/
def IsSpace (b : UInt8) : Prop := b=0x20 ∨ b=0x09 ∨ b=0x0A ∨ b=0x0D

instance (b : UInt8) : Decidable (IsSpace b) := inferInstanceAs (Decidable (_ ∨ _))

/-- Insignificant space. -/
inductive Whitespace : List UInt8→List UInt8→Prop
  | nil (text : List UInt8) : Whitespace text text
  | cons {text rest : List UInt8} {b : UInt8} (hb : IsSpace b) (h : Whitespace text rest) :
      Whitespace (b::text) rest

/-- A name and a value with space anywhere around them. -/
inductive JsonMember : List UInt8→Member→List UInt8→Prop
  | pair {text t₁ t₂ t₃ t₄ t₅ rest name value : List UInt8}
      (hbefore : Whitespace text t₁) (hname : JsonString t₁ name t₂)
      (hcolon : Whitespace t₂ (0x3A::t₃)) (hafter : Whitespace t₃ t₄)
      (hvalue : JsonString t₄ value t₅) (hend : Whitespace t₅ rest) :
      JsonMember text (name,value) rest

/-- Members separated by commas. -/
inductive JsonMembers : List UInt8→List Member→List UInt8→Prop
  | single {text rest : List UInt8} {m : Member} (h : JsonMember text m rest) :
      JsonMembers text [m] rest
  | cons {text between rest : List UInt8} {m : Member} {ms : List Member}
      (h : JsonMember text m (0x2C::between)) (hs : JsonMembers between ms rest) :
      JsonMembers text (m::ms) rest

/-- A text that is an object. -/
inductive JsonObject : List UInt8→List Member→Prop
  | empty {text t₁ t₂ : List UInt8} (hopen : Whitespace text (0x7B::t₁))
      (hclose : Whitespace t₁ (0x7D::t₂)) (hend : Whitespace t₂ []) : JsonObject text []
  | members {text t₁ t₂ : List UInt8} {ms : List Member} (hopen : Whitespace text (0x7B::t₁))
      (hmembers : JsonMembers t₁ ms (0x7D::t₂)) (hend : Whitespace t₂ []) : JsonObject text ms

/-! ## A text has one reading -/

variable {c : Char} {rest rest' text : List UInt8} {ms : List Member}

/-- An encoded character is delimited by itself. -/
theorem utf8EncodeChar_append_inj {c' : Char}
    (h : String.utf8EncodeChar c++rest=String.utf8EncodeChar c' ++ rest') :
    c=c' ∧ rest=rest' := by
  have hread := guacUtf8Read_encode c rest
  rw [h,guacUtf8Read_encode c' rest'] at hread
  have hc : c=c' := Char.ext (UInt32.toNat_inj.mp (Prod.mk.inj (Option.some.inj hread)).1.symm)
  subst hc
  exact ⟨rfl,List.append_cancel_left h⟩

/-- The bytes of a character that is not escaped are none that would be. -/
theorem utf8EncodeChar_plain (hcontrol : 0x20≤c.val.toNat) (hquote : c ≠ '"')
    (hbackslash : c ≠ '\\') :
    ∀ b∈String.utf8EncodeChar c, 0x20≤b.toNat ∧ b≠0x22 ∧ b≠0x5C := by
  have hne : ∀ {c' : Char}, c≠c' → c.val.toNat≠c'.val.toNat := fun h hval =>
    h (Char.ext (UInt32.toNat_inj.mp hval))
  have hv := hne hquote
  have hv' := hne hbackslash
  change _ ≠ 0x22 at hv
  change _ ≠ 0x5C at hv'
  have hbyte : ∀ n<256, 0x20≤n → n≠0x22 → n≠0x5C →
      0x20≤(UInt8.ofNat n).toNat ∧ UInt8.ofNat n≠0x22 ∧ UInt8.ofNat n≠0x5C := by
    intro n hn hcontrol hquote hbackslash
    have hvalue : (UInt8.ofNat n).toNat=n := by
      rw [UInt8.toNat_ofNat']
      exact Nat.mod_eq_of_lt hn
    refine ⟨hcontrol.trans_eq hvalue.symm,fun h => hquote ?_,fun h => hbackslash ?_⟩
    · exact hvalue.symm.trans (congrArg UInt8.toNat h)
    · exact hvalue.symm.trans (congrArg UInt8.toNat h)
  intro b hb
  unfold String.utf8EncodeChar at hb
  dsimp only at hb
  generalize c.val.toNat=v at hcontrol hv hv' hb
  split at hb
  · simp only [List.mem_cons,List.not_mem_nil,or_false] at hb
    exact hb ▸ hbyte _ (by omega) (by omega) hv hv'
  split at hb
  · simp only [List.mem_cons,List.not_mem_nil,or_false] at hb
    rcases hb with rfl | rfl <;> exact hbyte _ (by omega) (by omega) (by omega) (by omega)
  split at hb
  · simp only [List.mem_cons,List.not_mem_nil,or_false] at hb
    rcases hb with rfl | rfl | rfl <;> exact hbyte _ (by omega) (by omega) (by omega) (by omega)
  · simp only [List.mem_cons,List.not_mem_nil,or_false] at hb
    rcases hb with rfl | rfl | rfl | rfl <;>
      exact hbyte _ (by omega) (by omega) (by omega) (by omega)

/-- An encoded character starts with some byte. -/
theorem utf8EncodeChar_eq_cons (c : Char) : ∃ b bytes, String.utf8EncodeChar c=b::bytes := by
  obtain ⟨b,bytes,h,-⟩ := utf8EncodeChar_charsize c
  exact ⟨b,bytes,h⟩

/-- A character starts with no quote. -/
theorem JsonChar.head_ne_quote (h : JsonChar text c rest) : ∀ tail, text≠0x22::tail := by
  cases h with
  | unescaped hcontrol hquote hbackslash =>
    intro tail htext
    obtain ⟨b,bytes,hbytes⟩ := utf8EncodeChar_eq_cons c
    have hplain := utf8EncodeChar_plain hcontrol hquote hbackslash b (by rw [hbytes]; simp)
    rw [hbytes,List.cons_append] at htext
    exact hplain.2.1 (List.cons.inj htext).1
  | simple => simp
  | unicode => simp
  | surrogates => simp

/-- What is not escaped starts with no backslash. -/
theorem unescaped_ne_backslash (hcontrol : 0x20≤c.val.toNat) (hquote : c ≠ '"')
    (hbackslash : c ≠ '\\') (rest tail : List UInt8) :
    String.utf8EncodeChar c++rest≠0x5C::tail := by
  obtain ⟨b,bytes,hbytes⟩ := utf8EncodeChar_eq_cons c
  have hplain := utf8EncodeChar_plain hcontrol hquote hbackslash b (by rw [hbytes]; simp)
  rw [hbytes,List.cons_append]
  exact fun h => hplain.2.2 (List.cons.inj h).1

/-- No character of Unicode is a surrogate. -/
theorem ne_surrogate (c : Char) {high : ℕ} (h : high<0x400) : c.val.toNat≠0xD800+high := by
  have hvalid := c.valid
  unfold UInt32.isValidChar Nat.isValidChar at hvalid
  omega

/-- A character has one reading. -/
theorem JsonChar.unique {c' : Char} (h : JsonChar text c rest) (h' : JsonChar text c' rest') :
    c=c' ∧ rest=rest' := by
  have hchar : ∀ {c c' : Char}, c.val.toNat=c'.val.toNat → c=c' := fun h =>
    Char.ext (UInt32.toNat_inj.mp h)
  generalize htext : text=text' at h'
  cases h with
  | unescaped hcontrol hquote hbackslash =>
    cases h' with
    | unescaped => exact utf8EncodeChar_append_inj htext
    | simple => exact absurd htext (unescaped_ne_backslash hcontrol hquote hbackslash _ _)
    | unicode => exact absurd htext (unescaped_ne_backslash hcontrol hquote hbackslash _ _)
    | surrogates => exact absurd htext (unescaped_ne_backslash hcontrol hquote hbackslash _ _)
  | simple hsimple =>
    cases h' with
    | unescaped hcontrol hquote hbackslash =>
      exact absurd htext.symm (unescaped_ne_backslash hcontrol hquote hbackslash _ _)
    | simple hsimple' =>
      obtain ⟨rfl,rfl⟩ := List.cons.inj (List.cons.inj htext).2
      exact ⟨Option.some.inj (hsimple.symm.trans hsimple'),rfl⟩
    | unicode =>
      rw [(List.cons.inj (List.cons.inj htext).2).1] at hsimple
      cases hsimple
    | surrogates =>
      rw [(List.cons.inj (List.cons.inj htext).2).1] at hsimple
      cases hsimple
  | unicode hvalue =>
    cases h' with
    | unescaped hcontrol hquote hbackslash =>
      exact absurd htext.symm (unescaped_ne_backslash hcontrol hquote hbackslash _ _)
    | simple hsimple =>
      rw [←(List.cons.inj (List.cons.inj htext).2).1] at hsimple
      cases hsimple
    | unicode hvalue' =>
      simp only [List.cons.injEq,true_and] at htext
      obtain ⟨rfl,rfl,rfl,rfl,rfl⟩ := htext
      exact ⟨hchar (Option.some.inj (hvalue.symm.trans hvalue')),rfl⟩
    | surrogates hhigh hlt =>
      simp only [List.cons.injEq,true_and] at htext
      obtain ⟨rfl,rfl,rfl,rfl,-⟩ := htext
      exact absurd (Option.some.inj (hvalue.symm.trans hhigh)) (ne_surrogate c hlt)
  | surrogates hhigh hlt hlow hlt' hch =>
    cases h' with
    | unescaped hcontrol hquote hbackslash =>
      exact absurd htext.symm (unescaped_ne_backslash hcontrol hquote hbackslash _ _)
    | simple hsimple =>
      rw [←(List.cons.inj (List.cons.inj htext).2).1] at hsimple
      cases hsimple
    | unicode hvalue =>
      simp only [List.cons.injEq,true_and] at htext
      obtain ⟨rfl,rfl,rfl,rfl,-⟩ := htext
      exact absurd (Option.some.inj (hvalue.symm.trans hhigh)) (ne_surrogate c' hlt)
    | surrogates hhigh' hlt₁ hlow' hlt₂ hch' =>
      simp only [List.cons.injEq,true_and] at htext
      obtain ⟨rfl,rfl,rfl,rfl,rfl,rfl,rfl,rfl,rfl⟩ := htext
      have hhighs := Option.some.inj (hhigh.symm.trans hhigh')
      have hlows := Option.some.inj (hlow.symm.trans hlow')
      exact ⟨hchar (by omega),rfl⟩

/-- The characters before a quote have one reading. -/
theorem JsonChars.unique {cs cs' : List Char} (h : JsonChars text cs (0x22::rest))
    (h' : JsonChars text cs' (0x22::rest')) : cs=cs' ∧ rest=rest' := by
  generalize hend : 0x22::rest=quoted at h
  induction h generalizing cs' with
  | nil text =>
    subst hend
    cases h' with
    | nil => exact ⟨rfl,rfl⟩
    | cons hchar => exact absurd rfl (hchar.head_ne_quote rest)
  | cons hchar hchars ih =>
    cases h' with
    | nil => exact absurd rfl (hchar.head_ne_quote rest')
    | cons hchar' hchars' =>
      obtain ⟨rfl,rfl⟩ := hchar.unique hchar'
      obtain ⟨rfl,rfl⟩ := ih hchars' hend
      exact ⟨rfl,rfl⟩

/-- Space before what is none has one end. -/
theorem Whitespace.unique {b b' : UInt8} (hb : ¬IsSpace b) (hb' : ¬IsSpace b')
    (h : Whitespace text (b::rest)) (h' : Whitespace text (b' :: rest')) :
    b=b' ∧ rest=rest' := by
  generalize hend : b::rest=nonspace at h
  induction h with
  | nil text =>
    subst hend
    cases h' with
    | nil => exact ⟨rfl,rfl⟩
    | cons hspace => exact absurd hspace hb
  | cons hspace h ih =>
    cases h' with
    | nil => exact absurd hspace hb'
    | cons _ h' => exact ih h' hend

/-- A string after space has one reading. -/
theorem JsonString.unique_space {text₁ text₁' value value' : List UInt8}
    (hspace : Whitespace text text₁) (hspace' : Whitespace text text₁')
    (h : JsonString text₁ value rest) (h' : JsonString text₁' value' rest') :
    value=value' ∧ rest=rest' := by
  have hquote : ¬IsSpace 0x22 := by decide
  cases h with
  | quoted h =>
    cases h' with
    | quoted h' =>
      obtain ⟨-,rfl⟩ := hspace.unique hquote hquote hspace'
      obtain ⟨rfl,rfl⟩ := h.unique h'
      exact ⟨rfl,rfl⟩

/-- A member before what is no space has one reading. -/
theorem JsonMember.unique {m m' : Member} {b b' : UInt8} (hb : ¬IsSpace b) (hb' : ¬IsSpace b')
    (h : JsonMember text m (b::rest)) (h' : JsonMember text m' (b' :: rest')) :
    m=m' ∧ b=b' ∧ rest=rest' := by
  have hcolon : ¬IsSpace 0x3A := by decide
  cases h with
  | pair hbefore₁ hname₁ hcolon₁ hafter₁ hvalue₁ hend₁ =>
    cases h' with
    | pair hbefore₂ hname₂ hcolon₂ hafter₂ hvalue₂ hend₂ =>
      obtain ⟨rfl,rfl⟩ := hname₁.unique_space hbefore₁ hbefore₂ hname₂
      obtain ⟨-,rfl⟩ := hcolon₁.unique hcolon hcolon hcolon₂
      obtain ⟨rfl,rfl⟩ := hvalue₁.unique_space hafter₁ hafter₂ hvalue₂
      exact ⟨rfl,hend₁.unique hb hb' hend₂⟩

/-- Members before the closing brace have one reading. -/
theorem JsonMembers.unique {ms' : List Member} (h : JsonMembers text ms (0x7D::rest))
    (h' : JsonMembers text ms' (0x7D::rest')) : ms=ms' ∧ rest=rest' := by
  have hcomma : ¬IsSpace 0x2C := by decide
  have hbrace : ¬IsSpace 0x7D := by decide
  generalize hend : 0x7D::rest=closed at h
  induction h generalizing ms' with
  | single h =>
    subst hend
    cases h' with
    | single h' =>
      obtain ⟨rfl,-,rfl⟩ := h.unique hbrace hbrace h'
      exact ⟨rfl,rfl⟩
    | cons h' => cases (h.unique hbrace hcomma h').2.1
  | cons h hs ih =>
    cases h' with
    | single h' => cases (h.unique hcomma hbrace h').2.1
    | cons h' hs' =>
      obtain ⟨rfl,-,rfl⟩ := h.unique hcomma hcomma h'
      obtain ⟨rfl,rfl⟩ := ih hs' hend
      exact ⟨rfl,rfl⟩

/-- No member starts with the closing brace. -/
theorem JsonMembers.not_closed {t₁ : List UInt8} (h : JsonMembers text ms rest)
    (hspace : Whitespace text (0x7D::t₁)) : False := by
  have hfirst : ∀ {m : Member} {rest : List UInt8}, JsonMember text m rest→False := by
    intro m rest hm
    cases hm with
    | pair hbefore hname =>
      cases hname with
      | quoted =>
        cases (hspace.unique (by decide : ¬IsSpace 0x7D) (by decide : ¬IsSpace 0x22) hbefore).1
  cases h with
  | single hm => exact hfirst hm
  | cons hm => exact hfirst hm

/-- An object has one reading. -/
theorem JsonObject.unique {ms' : List Member} (h : JsonObject text ms) (h' : JsonObject text ms') :
    ms=ms' := by
  have hbrace : ¬IsSpace 0x7B := by decide
  cases h with
  | empty hopen hclose =>
    cases h' with
    | empty => rfl
    | members hopen' hmembers' =>
      obtain ⟨-,rfl⟩ := hopen.unique hbrace hbrace hopen'
      exact (hmembers'.not_closed hclose).elim
  | members hopen hmembers =>
    cases h' with
    | empty hopen' hclose' =>
      obtain ⟨-,rfl⟩ := hopen.unique hbrace hbrace hopen'
      exact (hmembers.not_closed hclose').elim
    | members hopen' hmembers' =>
      obtain ⟨-,rfl⟩ := hopen.unique hbrace hbrace hopen'
      exact (hmembers.unique hmembers').1

/-! ## A text is no shorter than what it says -/

/-- The bytes that a byte of a string takes at least: those that have to be
escaped take two. -/
def byteCost (b : UInt8) : ℕ := if b.toNat<0x20 ∨ b=0x22 ∨ b=0x5C then 2 else 1

/-- The bytes that a string takes at least. -/
def stringCost (s : List UInt8) : ℕ := (s.map byteCost).sum

/-- The bytes that a member takes at least, with the quotes and the colon. -/
def memberCost (m : Member) : ℕ := stringCost m.1+stringCost m.2+5

@[simp] theorem stringCost_append (s s' : List UInt8) :
    stringCost (s++s')=stringCost s+stringCost s' := by
  rw [stringCost,List.map_append,List.sum_append,stringCost,stringCost]

/-- A string takes at most twice the bytes it has. -/
theorem stringCost_le (s : List UInt8) : stringCost s≤2*s.length := by
  induction s with
  | nil => exact Nat.le_refl _
  | cons b s ih =>
    have hb : byteCost b≤2 := by unfold byteCost; split <;> decide
    rw [stringCost,List.map_cons,List.sum_cons,List.length_cons,Nat.mul_succ,Nat.add_comm]
    exact Nat.add_le_add ih hb

/-- A string in which nothing has to be escaped takes the bytes it has. -/
theorem stringCost_plain {s : List UInt8} (h : ∀ b∈s, byteCost b=1) : stringCost s=s.length := by
  induction s with
  | nil => rfl
  | cons b s ih =>
    obtain ⟨hb,hs⟩ := List.forall_mem_cons.mp h
    have hcost := ih hs
    rw [stringCost] at hcost ⊢
    rw [List.map_cons,List.sum_cons,hb,hcost,List.length_cons,Nat.add_comm]

/-- A character beyond 0xFFFF alone has four bytes. -/
theorem length_utf8EncodeChar_le (h : c.val.toNat≤0xFFFF) : (String.utf8EncodeChar c).length≤3 := by
  have hfour : c.utf8Size≠4 := by
    rw [Ne,Char.utf8Size_eq_four_iff,UInt32.lt_iff_toNat_lt]
    exact Nat.not_lt.mpr h
  have hle := Char.utf8Size_le_four c
  rw [String.length_utf8EncodeChar]
  omega

/-- A digit has a value below 16. -/
theorem hexDigit_lt {digit : UInt8} {v : ℕ} (h : hexDigit digit=some v) : v<16 := by
  simp only [hexDigit,UInt8.le_iff_toNat_le,UInt8.reduceToNat] at h
  split_ifs at h
  all_goals
    cases h
    omega

/-- Four digits have a value of 16 bits. -/
theorem hexValue_le {a b c d : UInt8} {v : ℕ} (h : hexValue a b c d=some v) : v≤0xFFFF := by
  simp only [hexValue,Option.bind_eq_bind,Option.bind_eq_some_iff,Option.pure_def,
    Option.some.injEq] at h
  obtain ⟨va,ha,vb,hb,vc,hc,vd,hd,rfl⟩ := h
  have := hexDigit_lt ha
  have := hexDigit_lt hb
  have := hexDigit_lt hc
  have := hexDigit_lt hd
  omega

/-- A character that a letter escapes has one byte. -/
theorem length_simpleEscape {letter : UInt8} (h : simpleEscape letter=some c) :
    (String.utf8EncodeChar c).length=1 := by
  unfold simpleEscape at h
  split_ifs at h <;> cases h <;> rfl

/-- A character takes at least the bytes it is said to. -/
theorem JsonChar.cost_le (h : JsonChar text c rest) :
    stringCost (String.utf8EncodeChar c)+rest.length≤text.length := by
  have hcost := stringCost_le (String.utf8EncodeChar c)
  cases h with
  | unescaped hcontrol hquote hbackslash =>
    have hplain : ∀ b∈String.utf8EncodeChar c, byteCost b=1 := by
      intro b hb
      obtain ⟨h₁,h₂,h₃⟩ := utf8EncodeChar_plain hcontrol hquote hbackslash b hb
      exact if_neg (by simp only [h₂,h₃,or_false,Nat.not_lt]; exact h₁)
    rw [stringCost_plain hplain,List.length_append]
  | simple hsimple =>
    rw [length_simpleEscape hsimple] at hcost
    simp only [List.length_cons]
    omega
  | unicode hvalue =>
    have hlength := length_utf8EncodeChar_le (hexValue_le hvalue)
    simp only [List.length_cons]
    omega
  | surrogates =>
    have hlength := Char.utf8Size_le_four c
    rw [←String.length_utf8EncodeChar] at hlength
    simp only [List.length_cons]
    omega

/-- The characters of a string take at least the bytes they are said to. -/
theorem JsonChars.cost_le {cs : List Char} (h : JsonChars text cs rest) :
    stringCost (utf8Encode cs)+rest.length≤text.length := by
  induction h with
  | nil text => exact (Nat.zero_add _).le
  | @cons text between rest c cs hchar hchars ih =>
    have hc := hchar.cost_le
    rw [utf8Encode,List.flatMap_cons,stringCost_append]
    change stringCost _ + stringCost (utf8Encode cs)+_ ≤ _
    omega

/-- A string takes at least the bytes it is said to, and its quotes. -/
theorem JsonString.cost_le {value : List UInt8} (h : JsonString text value rest) :
    stringCost value+2+rest.length≤text.length := by
  cases h with
  | quoted h =>
    have hchars := h.cost_le
    rw [List.length_cons] at hchars ⊢
    omega

/-- Space takes no less than no bytes. -/
theorem Whitespace.length_le (h : Whitespace text rest) : rest.length≤text.length := by
  induction h with
  | nil text => exact Nat.le_refl _
  | cons hb h ih => exact ih.trans (Nat.le_succ _)

/-- A member takes at least the bytes it is said to. -/
theorem JsonMember.cost_le {m : Member} (h : JsonMember text m rest) :
    memberCost m+rest.length≤text.length := by
  cases h with
  | pair hbefore hname hcolon hafter hvalue hend =>
    have h₁ := hbefore.length_le
    have h₂ := hname.cost_le
    have h₃ := hcolon.length_le
    have h₄ := hafter.length_le
    have h₅ := hvalue.cost_le
    have h₆ := hend.length_le
    rw [List.length_cons] at h₃
    rw [memberCost]
    dsimp only
    omega

/-- Members take at least the bytes they are said to, and their commas. -/
theorem JsonMembers.cost_le (h : JsonMembers text ms rest) :
    (ms.map memberCost).sum+(ms.length-1)+rest.length≤text.length := by
  induction h with
  | single h =>
    have hm := h.cost_le
    simpa using hm
  | @cons text between rest m ms h hs ih =>
    have hm := h.cost_le
    have hne : ms≠[] := by
      rintro rfl
      cases hs
    have hpos := List.length_pos_iff.mpr hne
    rw [List.length_cons] at hm
    rw [List.map_cons,List.sum_cons,List.length_cons]
    omega

/-- An object takes at least the bytes that its members are said to, their
commas and the braces. -/
theorem JsonObject.cost_le (h : JsonObject text ms) :
    (ms.map memberCost).sum+(ms.length-1)+2≤text.length := by
  cases h with
  | empty hopen hclose =>
    have h₁ := hopen.length_le
    have h₂ := hclose.length_le
    rw [List.length_cons] at h₁ h₂
    rw [List.map_nil,List.sum_nil,List.length_nil]
    omega
  | members hopen hmembers =>
    have h₁ := hopen.length_le
    have h₂ := hmembers.cost_le
    rw [List.length_cons] at h₁ h₂
    omega

/-- The strings of a member are texts of Unicode. -/
theorem JsonMember.utf8 {m : Member} (h : JsonMember text m rest) :
    (∃ cs, m.1=utf8Encode cs) ∧ ∃ cs, m.2=utf8Encode cs := by
  cases h with
  | pair _ hname _ _ hvalue _ =>
    cases hname with
    | quoted =>
      cases hvalue with
      | quoted => exact ⟨⟨_,rfl⟩,_,rfl⟩

/-- The strings of members are texts of Unicode. -/
theorem JsonMembers.utf8 (h : JsonMembers text ms rest) :
    ∀ m∈ms, (∃ cs, m.1=utf8Encode cs) ∧ ∃ cs, m.2=utf8Encode cs := by
  induction h with
  | single h => exact List.forall_mem_singleton.mpr h.utf8
  | cons h hs ih => exact List.forall_mem_cons.mpr ⟨h.utf8,ih⟩

/-- The strings of an object are texts of Unicode. -/
theorem JsonObject.utf8 (h : JsonObject text ms) :
    ∀ m∈ms, (∃ cs, m.1=utf8Encode cs) ∧ ∃ cs, m.2=utf8Encode cs := by
  cases h with
  | empty => exact fun m hm => absurd hm List.not_mem_nil
  | members _ hmembers => exact hmembers.utf8

end GuacServer.JsonGrammar
