import GuacServer.ParserGrammar

/-!
# What the parser accepts

The bytes of an instruction delimited by its lengths determine its elements,
so a buffer starts with at most one such instruction. The parser accepts
exactly that instruction. Its lengths are compared in 32-bit arithmetic: they
are the exact lengths if and only if no prefix reaches 2^32.
-/

namespace GuacServer.Parser

open DecimalNumerals List Unicode

/-- The first byte that is not a digit ends a run of digits. -/
theorem digits_unique {ds es : List UInt8} (hds : ∀ d∈ds, IsDigit d) (hes : ∀ d∈es, IsDigit d)
    {s t : List UInt8} (h : ds++46::s=es++46::t) : ds=es ∧ s=t := by
  have hperiod : ¬IsDigit 46 := by decide
  induction ds generalizing es with
  | nil =>
    cases es with
    | nil => exact ⟨rfl,(List.cons.inj h).2⟩
    | cons e es => exact absurd ((List.cons.inj h).1 ▸ hes e (mem_cons_self ..)) hperiod
  | cons d ds ih =>
    cases es with
    | nil => exact absurd ((List.cons.inj h).1 ▸ hds d (mem_cons_self ..)) hperiod
    | cons e es =>
      obtain ⟨rfl,htail⟩ := List.cons.inj h
      obtain ⟨rfl,rfl⟩ := ih (fun x hx => hds x (mem_cons_of_mem _ hx))
        (fun x hx => hes x (mem_cons_of_mem _ hx)) htail
      exact ⟨rfl,rfl⟩

/-- Texts of equally many characters are delimited by their first bytes. -/
theorem textBytes_unique {cs ds : List CharBytes} (hlen : cs.length=ds.length)
    {s t : List UInt8} (h : textBytes cs++s=textBytes ds++t) : cs=ds ∧ s=t := by
  induction cs generalizing ds with
  | nil =>
    cases ds with
    | nil => exact ⟨rfl,h⟩
    | cons d ds => cases hlen
  | cons c cs ih =>
    cases ds with
    | nil => cases hlen
    | cons d ds =>
      rw [textBytes_cons,textBytes_cons,append_assoc,append_assoc,CharBytes.bytes,
        CharBytes.bytes,cons_append,cons_append] at h
      obtain ⟨hlead,htail⟩ := List.cons.inj h
      have hsize : c.rest.length=d.rest.length := by
        have hc := c.size
        have hd := d.size
        rw [hlead] at hc
        omega
      obtain ⟨hrest,htail⟩ := append_inj htail hsize
      obtain ⟨rfl,rfl⟩ := ih (Nat.succ.inj hlen) htail
      have hcd : c=d := by
        cases c
        cases d
        cases hlead
        cases hrest
        rfl
      rw [hcd]
      exact ⟨rfl,rfl⟩

/-- An element delimited by its length is determined by its bytes, whatever
follows it. -/
theorem Element.wire_unique {e f : Element} (he : e.Delimited) (hf : f.Delimited)
    {s t : List UInt8} (h : e.wire++s=f.wire++t) : e=f ∧ s=t := by
  rw [Element.wire,Element.wire,append_assoc,append_assoc,cons_append,
    cons_append] at h
  obtain ⟨hdigits,htail⟩ := digits_unique e.digits_ok f.digits_ok h
  have hlen : e.content.length=f.content.length := by
    have hlen' := he.1.symm.trans (hdigits ▸ hf.1)
    exact_mod_cast hlen'
  obtain ⟨hcontent,rfl⟩ := textBytes_unique hlen htail
  refine ⟨?_,rfl⟩
  cases e
  cases f
  cases hdigits
  cases hcontent
  rfl

/-- An instruction is determined by its bytes, whatever follows it. -/
theorem wireInstruction_unique {es fs : List Element} (hes : ∀ e∈es, e.Delimited)
    (hfs : ∀ f∈fs, f.Delimited) (hne : es≠[]) (hnf : fs≠[]) {s t : List UInt8}
    (h : wireInstruction es++s=wireInstruction fs++t) : es=fs ∧ s=t := by
  induction es generalizing fs with
  | nil => exact absurd rfl hne
  | cons e es ih =>
    obtain ⟨f,fs,rfl⟩ := exists_cons_of_ne_nil hnf
    have he := hes e (mem_cons_self ..)
    have hf := hfs f (mem_cons_self ..)
    cases es with
    | nil =>
      cases fs with
      | nil =>
        rw [wireInstruction_single,wireInstruction_single,append_assoc,append_assoc] at h
        obtain ⟨rfl,htail⟩ := Element.wire_unique he hf h
        exact ⟨rfl,(List.cons.inj htail).2⟩
      | cons g fs =>
        rw [wireInstruction_single,wireInstruction_cons,append_assoc,append_assoc] at h
        obtain ⟨-,htail⟩ := Element.wire_unique he hf h
        exact absurd (List.cons.inj htail).1 (by decide)
    | cons g es =>
      cases fs with
      | nil =>
        rw [wireInstruction_single,wireInstruction_cons,append_assoc,append_assoc] at h
        obtain ⟨-,htail⟩ := Element.wire_unique he hf h
        exact absurd (List.cons.inj htail).1 (by decide)
      | cons k fs =>
        rw [wireInstruction_cons,wireInstruction_cons,append_assoc,append_assoc] at h
        obtain ⟨rfl,htail⟩ := Element.wire_unique he hf h
        obtain ⟨hrest,rfl⟩ := ih (fun x hx => hes x (mem_cons_of_mem _ hx))
          (fun x hx => hfs x (mem_cons_of_mem _ hx)) (by simp) (by simp)
          (List.cons.inj htail).2
        rw [hrest]
        exact ⟨rfl,rfl⟩

/-- A buffer that starts with one instruction of at most 128 elements, each
delimited by its length prefix in 32-bit arithmetic. -/
structure HeadInstruction (buffer : List UInt8) (es : List Element) : Prop where
  /-- The opcode is present. -/
  ne_nil : es≠[]
  /-- Opcode and arguments fit the element table. -/
  length_le : es.length≤guacInstructionMaxElements
  /-- Every length prefix gives the length of its content, modulo 2^32. -/
  delimited : ∀ e∈es, e.Delimited
  /-- The elements stand at the head of the buffer. -/
  head : ∃ tail, buffer=wireInstruction es++tail

/-- If the instruction at the head of the buffer is accepted, then the bytes
consumed are 1 to 128 elements with the given property, in instruction form. -/
def AcceptsOnly (P : Element→Prop) (parser : GuacParser) (address : ℕ)
    (buffer : List UInt8) : Prop :=
  (feed (guacParserReset parser) address buffer).parser.state=.complete →
    ∃ es, es≠[] ∧ es.length≤guacInstructionMaxElements ∧ (∀ e∈es, P e) ∧
      buffer.take (feed (guacParserReset parser) address buffer).parsed=wireInstruction es

/-- A reset parser is at an element start, without elements. -/
theorem guacParserReset_start (parser : GuacParser) :
    (guacParserReset parser).ElementStart ∧ (guacParserReset parser).elementc=0 :=
  ⟨⟨rfl,rfl⟩,rfl⟩

/-- What a reset parser makes of the instruction at the head of a buffer. -/
theorem HeadInstruction.feed_eq {buffer : List UInt8} {es : List Element}
    (h : HeadInstruction buffer es) (parser : GuacParser) (address : ℕ) :
    (feed (guacParserReset parser) address buffer).parser=
        (guacParserReset parser).complete address es ∧
      (feed (guacParserReset parser) address buffer).parsed=(wireInstruction es).length ∧
      buffer.take (wireInstruction es).length=wireInstruction es := by
  obtain ⟨hstart,hzero⟩ := guacParserReset_start parser
  obtain ⟨tail,rfl⟩ := h.head
  have hcount : (guacParserReset parser).elementc+es.length≤guacInstructionMaxElements := by
    rw [hzero,Nat.zero_add]
    exact h.length_le
  rw [feed_instruction hstart h.ne_nil hcount h.delimited]
  exact ⟨rfl,rfl,take_left⟩

/-- A reset parser completes an instruction exactly when the buffer starts
with one. -/
theorem feed_complete_iff (parser : GuacParser) (address : ℕ) (buffer : List UInt8) :
    (feed (guacParserReset parser) address buffer).parser.state=.complete ↔
      ∃ es, HeadInstruction buffer es := by
  obtain ⟨hstart,hzero⟩ := guacParserReset_start parser
  constructor
  · intro hc
    obtain ⟨es,tail,hne,hcount,hes,hbuffer⟩ :=
      feed_complete hstart (by rw [hzero]; exact Nat.zero_le _) address buffer hc
    rw [hzero,Nat.zero_add] at hcount
    exact ⟨es,hne,hcount,hes,tail,hbuffer⟩
  · rintro ⟨es,h⟩
    rw [(h.feed_eq parser address).1]
    rfl

/-- A property that only delimited elements have is a property of everything
accepted exactly when the instruction at the head, if any, has it. -/
theorem acceptsOnly_iff {P : Element→Prop} (hP : ∀ e, P e → e.Delimited) (parser : GuacParser)
    (address : ℕ) (buffer : List UInt8) :
    AcceptsOnly P parser address buffer ↔ ∀ es, HeadInstruction buffer es→∀ e∈es, P e := by
  constructor
  · intro haccept es h
    obtain ⟨-,hparsed,htake⟩ := h.feed_eq parser address
    obtain ⟨fs,hne,-,hfs,hconsumed⟩ :=
      haccept ((feed_complete_iff parser address buffer).mpr ⟨es,h⟩)
    rw [hparsed,htake] at hconsumed
    have hsame : wireInstruction es++[]=wireInstruction fs++[] := by rw [hconsumed]
    obtain ⟨rfl,-⟩ := wireInstruction_unique h.delimited (fun f hf => hP f (hfs f hf)) h.ne_nil
      hne hsame
    exact hfs
  · intro hall hc
    obtain ⟨es,h⟩ := (feed_complete_iff parser address buffer).mp hc
    obtain ⟨-,hparsed,htake⟩ := h.feed_eq parser address
    refine ⟨es,h.ne_nil,h.length_le,hall es h,?_⟩
    rw [hparsed,htake]

/-- A length read modulo 2^32 is the exact length when its prefix is below
2^32, and never otherwise. -/
theorem Element.Delimited.wellFormed_iff {e : Element} (h : e.Delimited) :
    e.WellFormed ↔ numeral e.digits<2^32 := by
  have hle := h.2
  have hwrap := h.1
  unfold guacInstructionMaxLength at hle
  constructor
  · intro hw
    rw [hw.1]
    omega
  · intro hlt
    refine ⟨?_,h.2⟩
    unfold wrap32 at hwrap
    have hmod := Int.bmod_emod (x := (numeral e.digits : ℤ)) (m := 2^32)
    rw [hwrap] at hmod
    omega

/-- No length prefix of the instruction at the head of the buffer reaches
2^32. -/
def LengthsBelowWrap (buffer : List UInt8) : Prop :=
  ∀ es, HeadInstruction buffer es→∀ e∈es, numeral e.digits<2^32

/-- No length prefix of the instruction at the head of the buffer is empty. -/
def LengthsPresent (buffer : List UInt8) : Prop :=
  ∀ es, HeadInstruction buffer es→∀ e∈es, e.digits≠[]

/-- Only well-formed instructions are accepted exactly when no length prefix
reaches 2^32; where a length prefix needs a digit, exactly when in addition
none is empty. -/
theorem guacParserAppend_accepts_iff (parser : GuacParser) (address : ℕ) (buffer : List UInt8) :
    (AcceptsOnly Element.WellFormed parser address buffer ↔ LengthsBelowWrap buffer) ∧
      (AcceptsOnly (fun e => e.WellFormed ∧ e.digits≠[]) parser address buffer ↔
        LengthsBelowWrap buffer ∧ LengthsPresent buffer) := by
  have hwell : ∀ es, HeadInstruction buffer es→∀ e∈es, (e.WellFormed ↔ numeral e.digits<2^32) :=
    fun es h e he => (h.delimited e he).wellFormed_iff
  rw [acceptsOnly_iff (fun e he => he.delimited),acceptsOnly_iff (fun e he => he.1.delimited)]
  constructor
  · exact forall₄_congr hwell
  · constructor
    · intro hall
      exact ⟨fun es h e he => (hwell es h e he).mp (hall es h e he).1,
        fun es h e he => (hall es h e he).2⟩
    · rintro ⟨hbelow,hpresent⟩ es h e he
      exact ⟨(hwell es h e he).mpr (hbelow es h e he),hpresent es h e he⟩

/-- The prefix 2^32 + 1 is accepted for content of one character. -/
theorem guacParserAppend_accepts_wrapped :
    ¬AcceptsOnly Element.WellFormed guacParserAlloc 0 (ascii "4294967297.a;") := by
  let e : Element := ⟨ascii "4294967297",forall_mem_of_all (by decide),[⟨97,[],by decide⟩]⟩
  have he : e.Delimited := by
    constructor
    · decide
    · decide
  have hhead : HeadInstruction (ascii "4294967297.a;") [e] :=
    ⟨by simp,by decide,by simpa using he,[],by decide⟩
  rw [acceptsOnly_iff (fun e he => he.delimited)]
  intro hall
  have hlen : numeral e.digits=1 := (hall [e] hhead e (by simp)).1
  exact absurd hlen (by decide)

end GuacServer.Parser
